/-
# Merging covers every face exactly once

`Slice.merge` is a scan that keeps a mask of covered places.  What it lays out is described twice.

* As the scan proceeds: a PAVING (`Slice.Paving`) is made of pieces laid one after the other.  Each
  starts at the first place that is open by then, and has GROWN from there (`Slice.Grown`): over
  open faces of its own material only, and in either direction as far as that is possible.  A scan
  that succeeds has laid a paving (`Slice.mergeFrom_spec`).
* By the places: a TILING (`Slice.Tiling`) of the open faces consists of rectangles inside the
  slice, each over faces of one material, such that every open face lies in exactly one of them and
  no other place lies in any.  A paving is a tiling (`Slice.Paving.tiling`).

The scan fails only where a code does not decode (`Slice.mergeFrom_error`), so that on known codes
it succeeds (`Slice.exists_merge`).  The invariant that carries the induction is that every open
face is still ahead of the scan.
-/
import Blockworld.Patch
import Blockworld.Proofs.Known
import Mathlib.Order.Fin.Basic

namespace Blockworld

/-! ## 1. Searches -/

section Searches

variable {α : Type} {test : α → Except Fault Bool} {xs : List α}

/-- The leading run is the longest one: its elements pass, and the element behind it does not. -/
theorem leadingRun_spec {n : Nat} (h : leadingRun test xs = .ok n) :
    n ≤ xs.length ∧ (∀ a ∈ xs.take n, test a = .ok true) ∧
      ∀ a, xs[n]? = some a → test a = .ok false := by
  induction xs generalizing n with
  | nil =>
    cases h
    simp
  | cons a rest ih =>
    unfold leadingRun at h
    split at h
    · cases h
    · next hfails =>
      cases h
      simpa using hfails
    · next hpasses =>
      cases hrest : leadingRun test rest with
      | error f => simp [hrest, Except.map] at h
      | ok k =>
        rw [hrest] at h
        cases h
        obtain ⟨hle, hrun, hstop⟩ := ih hrest
        refine ⟨Nat.succ_le_succ hle, ?_, ?_⟩
        · simpa [hpasses] using hrun
        · simpa using hstop

theorem leadingRun_error {f : Fault} (h : leadingRun test xs = .error f) :
    ∃ a ∈ xs, test a = .error f := by
  induction xs with
  | nil => cases h
  | cons a rest ih =>
    unfold leadingRun at h
    split at h
    · next hfault =>
      cases h
      exact ⟨a, List.mem_cons_self, hfault⟩
    · cases h
    · cases hrest : leadingRun test rest with
      | ok k => simp [hrest, Except.map] at h
      | error g =>
        rw [hrest] at h
        cases h
        obtain ⟨b, hb, hfault⟩ := ih hrest
        exact ⟨b, List.mem_cons_of_mem _ hb, hfault⟩

/-- The answer is that all elements pass, or that some element does not. -/
theorem allPass_spec {v : Bool} (h : allPass test xs = .ok v) :
    (v = true → ∀ a ∈ xs, test a = .ok true) ∧ (v = false → ∃ a ∈ xs, test a = .ok false) := by
  induction xs with
  | nil =>
    cases h
    simp
  | cons a rest ih =>
    unfold allPass at h
    split at h
    · cases h
    · next hfails =>
      cases h
      simp [hfails]
    · next hpasses =>
      obtain ⟨hall, hsome⟩ := ih h
      constructor
      · intro hv
        simpa [hpasses] using hall hv
      · intro hv
        obtain ⟨b, hb, hfails⟩ := hsome hv
        exact ⟨b, List.mem_cons_of_mem _ hb, hfails⟩

theorem allPass_error {f : Fault} (h : allPass test xs = .error f) :
    ∃ a ∈ xs, test a = .error f := by
  induction xs with
  | nil => cases h
  | cons a rest ih =>
    unfold allPass at h
    split at h
    · next hfault =>
      cases h
      exact ⟨a, List.mem_cons_self, hfault⟩
    · cases h
    · obtain ⟨b, hb, hfault⟩ := ih h
      exact ⟨b, List.mem_cons_of_mem _ hb, hfault⟩

end Searches

/-- A run of coordinates is its start and a part of the coordinates above. -/
theorem coordinatesFrom_succ (start : Fin 16) (n : Nat) :
    coordinatesFrom start (n + 1) = start :: (coordinatesAbove start).take n := by
  have hlt : start.val < (List.finRange 16).length := by simp
  unfold coordinatesFrom coordinatesAbove
  rw [List.drop_eq_getElem_cons hlt, List.take_succ_cons]
  simp

theorem length_coordinatesAbove (start : Fin 16) :
    (coordinatesAbove start).length = 15 - start.val := by
  simp only [coordinatesAbove, List.length_drop, List.length_finRange]
  omega

theorem getElem?_coordinatesAbove {start k : Fin 16} {n : Nat} (h : k.val = start.val + (n + 1)) :
    (coordinatesAbove start)[n]? = some k := by
  have hk := k.2
  unfold coordinatesAbove
  rw [List.getElem?_drop, List.getElem?_eq_some_iff]
  refine ⟨by simp only [List.length_finRange]; omega, ?_⟩
  apply Fin.ext
  simp only [List.getElem_finRange, Fin.val_cast]
  omega

/-! ## 2. Growing a rectangle -/

private theorem get_foldl_set (ps : List (Fin 16 × Fin 16)) (m : Mask) (i j : Fin 16) :
    Mask.get (ps.foldl (fun m (i, j) => m.set (Slice.index i j) true (Slice.index_lt i j)) m) i j =
      (decide ((i, j) ∈ ps) || m.get i j) := by
  induction ps generalizing m with
  | nil => simp
  | cons p rest ih =>
    obtain ⟨a, b⟩ := p
    rw [List.foldl_cons, ih]
    by_cases h : (i, j) = (a, b)
    · obtain ⟨rfl, rfl⟩ := Prod.mk.injEq .. ▸ h
      simp [Mask.get]
    · have hk : (Slice.index a b).val ≠ (Slice.index i j).val := fun hk =>
        h (Prod.mk.injEq .. ▸ Slice.index_inj.1 (Fin.ext hk.symm))
      simp [Mask.get, h, hk]

/-- **Covering a rectangle covers its places and no others.** -/
theorem Mask.get_cover (m : Mask) (e : Extent) (i j : Fin 16) :
    (m.cover e).get i j = (decide ((i, j) ∈ e.places) || m.get i j) :=
  get_foldl_set e.places m i j

/-- A rectangle that is not empty and does not leave the slice. -/
structure Extent.Fits (e : Extent) : Prop where
  width_pos : 0 < e.width
  height_pos : 0 < e.height
  width_le : e.i.val + e.width ≤ 16
  height_le : e.j.val + e.height ≤ 16

/-- A rectangle that fits covers its first place. -/
theorem Extent.Fits.mem_places {e : Extent} (h : e.Fits) : (e.i, e.j) ∈ e.places := by
  rw [Extent.mem_places]
  have hw := h.width_pos
  have hh := h.height_pos
  exact ⟨⟨Fin.le_refl _, by dsimp only; omega⟩, ⟨Fin.le_refl _, by dsimp only; omega⟩⟩

/-- A single place. -/
theorem Extent.mem_places_single {i j : Fin 16} {p : Fin 16 × Fin 16} :
    p ∈ (Extent.mk i j 1 1).places ↔ p = (i, j) := by
  obtain ⟨i', j'⟩ := p
  rw [Extent.mem_places, Prod.mk.injEq]
  simp only [Fin.le_def, Fin.ext_iff]
  omega

namespace Slice

/-- Every code in the slice names a material. -/
def Known (s : Slice) : Prop := ∀ i j, (s.get i j).block.Known

/-- A place is open to a material: not covered, and holding a face of it. -/
def OpenTo (s : Slice) (mask : Mask) (m : Material) (p : Fin 16 × Fin 16) : Prop :=
  mask.get p.1 p.2 = false ∧ (s.get p.1 p.2).block.material = .ok m

variable {s : Slice} {mask : Mask} {m : Material} {i j : Fin 16} {f : Fault}

/-- **A face can join a patch exactly when it is open to its material.** -/
theorem canJoin_eq_true_iff : s.canJoin mask m i j = .ok true ↔ s.OpenTo mask m (i, j) := by
  unfold canJoin OpenTo
  cases mask.get i j with
  | true => simp
  | false => cases (s.get i j).block.material <;> simp [Except.map]

theorem not_openTo_of_canJoin (h : s.canJoin mask m i j = .ok false) :
    ¬s.OpenTo mask m (i, j) := by
  rw [← canJoin_eq_true_iff, h]
  simp

/-- Only a face whose code does not decode cannot be tested. -/
theorem canJoin_error (h : s.canJoin mask m i j = .error f) :
    (s.get i j).block.material = .error f := by
  unfold canJoin at h
  split at h
  · cases h
  · cases hm : (s.get i j).block.material with
    | error g =>
      rw [hm] at h
      cases h
      rfl
    | ok n => simp [hm, Except.map] at h

/-- **A rectangle that has grown from its first place**: over faces open to its material, and so far
that the place behind its first column is not open to it, nor the whole column behind its last one.
A rectangle of a liquid is a single place. -/
structure Grown (s : Slice) (mask : Mask) (m : Material) (e : Extent) : Prop where
  fits : e.Fits
  openTo : ∀ p ∈ e.places, s.OpenTo mask m p
  single : m.canMerge = false → e.width = 1 ∧ e.height = 1
  tall : m.canMerge = true → ∀ j : Fin 16, j.val = e.j.val + e.height → ¬s.OpenTo mask m (e.i, j)
  wide : m.canMerge = true → ∀ i : Fin 16, i.val = e.i.val + e.width →
    ∃ j ∈ coordinatesFrom e.j e.height, ¬s.OpenTo mask m (i, j)

/-- **The growth of a rectangle.**  The height is a leading run of the first column, and the width a
leading run of columns that are open over the whole height. -/
theorem grow_spec {e : Extent} (hopen : s.OpenTo mask m (i, j)) (h : s.grow mask m i j = .ok e) :
    e.i = i ∧ e.j = j ∧ s.Grown mask m e := by
  have hi := i.2
  have hj := j.2
  unfold grow at h
  split at h
  · next hmerge =>
    obtain ⟨taller, htaller, h⟩ := bind_eq_ok_iff.mp h
    obtain ⟨wider, hwider, h⟩ := bind_eq_ok_iff.mp h
    cases h
    obtain ⟨hle, hup, hstop⟩ := leadingRun_spec htaller
    obtain ⟨hle', hright, hstop'⟩ := leadingRun_spec hwider
    rw [length_coordinatesAbove] at hle hle'
    refine ⟨rfl, rfl, ⟨Nat.succ_pos _, Nat.succ_pos _, ?_, ?_⟩, ?_, ?_, ?_, ?_⟩
    · dsimp only
      omega
    · dsimp only
      omega
    · rintro ⟨i', j'⟩ hp
      obtain ⟨hpi, hpj⟩ := Extent.mem_places.mp hp
      have hi' : i' ∈ coordinatesFrom i (wider + 1) := mem_coordinatesFrom.mpr hpi
      have hj' : j' ∈ coordinatesFrom j (taller + 1) := mem_coordinatesFrom.mpr hpj
      rw [coordinatesFrom_succ] at hi'
      rcases List.mem_cons.mp hi' with rfl | hi'
      · rw [coordinatesFrom_succ] at hj'
        rcases List.mem_cons.mp hj' with rfl | hj'
        · exact hopen
        · exact canJoin_eq_true_iff.mp (hup j' hj')
      · exact canJoin_eq_true_iff.mp ((allPass_spec (hright i' hi')).1 rfl j' hj')
    · intro hsingle
      rw [hmerge] at hsingle
      cases hsingle
    · intro _ j' hj'
      exact not_openTo_of_canJoin (hstop j' (getElem?_coordinatesAbove hj'))
    · intro _ i' hi'
      obtain ⟨j', hj', hfails⟩ :=
        (allPass_spec (hstop' i' (getElem?_coordinatesAbove hi'))).2 rfl
      exact ⟨j', hj', not_openTo_of_canJoin hfails⟩
  · next hmerge =>
    cases h
    refine ⟨rfl, rfl, ⟨Nat.one_pos, Nat.one_pos, hi, hj⟩, ?_, ?_, ?_, ?_⟩
    · intro p hp
      rw [Extent.mem_places_single.mp hp]
      exact hopen
    · exact fun _ => ⟨rfl, rfl⟩
    · exact fun h => absurd h hmerge
    · exact fun h => absurd h hmerge

/-- Growing fails only at a face whose code does not decode. -/
theorem grow_error (h : s.grow mask m i j = .error f) :
    ∃ i' j', (s.get i' j').block.material = .error f := by
  unfold grow at h
  split at h
  · rcases bind_eq_error_iff.mp h with h | ⟨taller, -, h⟩
    · obtain ⟨j', -, hfault⟩ := leadingRun_error h
      exact ⟨i, j', canJoin_error hfault⟩
    · rcases bind_eq_error_iff.mp h with h | ⟨wider, -, h⟩
      · obtain ⟨i', -, h⟩ := leadingRun_error h
        obtain ⟨j', -, hfault⟩ := allPass_error h
        exact ⟨i', j', canJoin_error hfault⟩
      · cases h
  · cases h

/-! ## 3. Pavings -/

/-- A rectangle of faces of one material. -/
structure Piece where
  material : Material
  extent : Extent

/-- The patch on a piece. -/
def Piece.patch (s : Slice) (p : Piece) : Patch := s.patch p.material p.extent

/-- The first place of a piece. -/
def Piece.start (p : Piece) : Fin 16 × Fin 16 := (p.extent.i, p.extent.j)

/-- A place that holds a face and is not covered. -/
def IsOpen (s : Slice) (mask : Mask) (i j : Fin 16) : Prop :=
  (s.get i j).isEmpty = false ∧ mask.get i j = false

instance (s : Slice) (mask : Mask) (i j : Fin 16) : Decidable (s.IsOpen mask i j) :=
  inferInstanceAs (Decidable (_ ∧ _))

/-- A place open to a material other than air holds a face. -/
theorem OpenTo.isOpen {p : Fin 16 × Fin 16} (h : s.OpenTo mask m p) (hair : m ≠ .air) :
    s.IsOpen mask p.1 p.2 := by
  refine ⟨?_, h.1⟩
  unfold SliceCell.isEmpty
  rw [Block.isAir_eq_of_material h.2]
  exact decide_eq_false hair

/-- A face is of another material than air. -/
theorem IsOpen.material_ne {m : Material} (h : s.IsOpen mask i j)
    (hm : (s.get i j).block.material = .ok m) : m ≠ .air := by
  rintro rfl
  have hface := h.1
  unfold SliceCell.isEmpty at hface
  rw [Block.isAir_eq_of_material hm] at hface
  cases hface

/-- Covering a rectangle leaves the places outside it as they are. -/
theorem isOpen_cover_iff {e : Extent} {i j : Fin 16} :
    s.IsOpen (mask.cover e) i j ↔ s.IsOpen mask i j ∧ (i, j) ∉ e.places := by
  unfold IsOpen
  rw [Mask.get_cover, Bool.or_eq_false_iff, decide_eq_false_iff_not]
  constructor
  · rintro ⟨hface, hout, hmask⟩
    exact ⟨⟨hface, hmask⟩, hout⟩
  · rintro ⟨⟨hface, hmask⟩, hout⟩
    exact ⟨hface, hout, hmask⟩

/-- Earlier in the scan: the first coordinate is the outer loop. -/
def Before (p q : Fin 16 × Fin 16) : Prop := p.1 < q.1 ∨ p.1 = q.1 ∧ p.2 < q.2

/-- **Pieces laid one after the other** until no place is open: each starts at the first place that
is open by then, and has grown from there. -/
inductive Paving (s : Slice) : Mask → List Piece → Prop
  | nil {mask : Mask} (hclosed : ∀ i j, ¬s.IsOpen mask i j) : Paving s mask []
  | cons {mask : Mask} {p : Piece} {pieces : List Piece} (hair : p.material ≠ .air)
      (hgrown : s.Grown mask p.material p.extent)
      (hfirst : ∀ i j, s.IsOpen mask i j → (i, j) = p.start ∨ Before p.start (i, j))
      (h : Paving s (mask.cover p.extent) pieces) : Paving s mask (p :: pieces)

/-- **A scan that succeeds has laid a paving**, if all open places are still ahead of it. -/
theorem mergeFrom_spec {places : List (Fin 16 × Fin 16)} {patches : List Patch}
    (horder : places.Pairwise Before) (hahead : ∀ i j, s.IsOpen mask i j → (i, j) ∈ places)
    (h : s.mergeFrom places mask = .ok patches) :
    ∃ pieces, patches = pieces.map (Piece.patch s) ∧ s.Paving mask pieces := by
  induction places generalizing mask patches with
  | nil =>
    cases h
    exact ⟨[], rfl, .nil fun i j hopen => absurd (hahead i j hopen) List.not_mem_nil⟩
  | cons place rest ih =>
    obtain ⟨i, j⟩ := place
    obtain ⟨hbefore, hlater⟩ := List.pairwise_cons.mp horder
    rw [mergeFrom] at h
    split at h
    · next hskip =>
      refine ih hlater (fun i' j' hopen => ?_) h
      rcases List.mem_cons.mp (hahead i' j' hopen) with heq | hrest
      · obtain ⟨rfl, rfl⟩ := Prod.mk.inj heq
        simp [hopen.1, hopen.2] at hskip
      · exact hrest
    · next hskip =>
      obtain ⟨hface, hmask⟩ := Bool.or_eq_false_iff.mp (Bool.not_eq_true _ ▸ hskip)
      obtain ⟨m, hm, h⟩ := bind_eq_ok_iff.mp h
      obtain ⟨e, he, h⟩ := bind_eq_ok_iff.mp h
      obtain ⟨tail, htail, h⟩ := bind_eq_ok_iff.mp h
      cases h
      obtain ⟨rfl, rfl, hgrown⟩ := grow_spec ⟨hmask, hm⟩ he
      -- what the rectangle leaves open is still ahead, because its first place is covered now
      have hahead' : ∀ i' j', s.IsOpen (mask.cover e) i' j' → (i', j') ∈ rest := by
        intro i' j' hopen
        obtain ⟨hopen, hout⟩ := isOpen_cover_iff.mp hopen
        rcases List.mem_cons.mp (hahead i' j' hopen) with heq | hrest
        · rw [heq] at hout
          exact absurd hgrown.fits.mem_places hout
        · exact hrest
      obtain ⟨pieces, rfl, hpaving⟩ := ih hlater hahead' htail
      refine ⟨⟨m, e⟩ :: pieces, rfl, .cons ?_ hgrown ?_ hpaving⟩
      · exact IsOpen.material_ne ⟨hface, hmask⟩ hm
      · intro i' j' hopen
        rcases List.mem_cons.mp (hahead i' j' hopen) with heq | hrest
        · exact .inl heq
        · exact .inr (hbefore _ hrest)

/-- A scan fails only at a face whose code does not decode. -/
theorem mergeFrom_error {places : List (Fin 16 × Fin 16)}
    (h : s.mergeFrom places mask = .error f) :
    ∃ i j, (s.get i j).block.material = .error f := by
  induction places generalizing mask with
  | nil => cases h
  | cons place rest ih =>
    obtain ⟨i, j⟩ := place
    rw [mergeFrom] at h
    split at h
    · exact ih h
    · rcases bind_eq_error_iff.mp h with h | ⟨m, -, h⟩
      · exact ⟨i, j, h⟩
      · rcases bind_eq_error_iff.mp h with h | ⟨e, -, h⟩
        · exact grow_error h
        · rcases bind_eq_error_iff.mp h with h | ⟨tail, -, h⟩
          · exact ih h
          · cases h

theorem mem_scanOrder (i j : Fin 16) : (i, j) ∈ scanOrder := by
  simp [scanOrder, List.mem_flatMap]

/-- The pairs of two ascending lists of coordinates are in scan order. -/
theorem pairwise_product {is js : List (Fin 16)} (his : is.Pairwise (· < ·))
    (hjs : js.Pairwise (· < ·)) : (is.flatMap fun i => js.map fun j => (i, j)).Pairwise Before := by
  rw [List.pairwise_flatMap]
  refine ⟨fun i _ => ?_, ?_⟩
  · rw [List.pairwise_map]
    exact hjs.imp fun h => .inr ⟨rfl, h⟩
  · refine his.imp fun h p hp q hq => ?_
    obtain ⟨_, -, rfl⟩ := List.mem_map.mp hp
    obtain ⟨_, -, rfl⟩ := List.mem_map.mp hq
    exact .inl h

theorem pairwise_scanOrder : scanOrder.Pairwise Before :=
  pairwise_product (List.pairwise_lt_finRange 16) (List.pairwise_lt_finRange 16)

/-- **Merging lays a paving.** -/
theorem merge_spec {patches : List Patch} (h : s.merge = .ok patches) :
    ∃ pieces, patches = pieces.map (Piece.patch s) ∧ s.Paving Mask.empty pieces :=
  mergeFrom_spec pairwise_scanOrder (fun i j _ => mem_scanOrder i j) h

/-! ## 4. Tilings -/

/-- **A tiling of the open faces.**  The count says that every open face lies in exactly one of the
pieces and that nothing else lies in any. -/
structure Tiling (s : Slice) (mask : Mask) (pieces : List Piece) : Prop where
  fits : ∀ p ∈ pieces, p.extent.Fits
  material : ∀ p ∈ pieces, ∀ q ∈ p.extent.places, (s.get q.1 q.2).block.material = .ok p.material
  count : ∀ i j, pieces.countP (fun p => decide ((i, j) ∈ p.extent.places)) =
    if s.IsOpen mask i j then 1 else 0

/-- Every place of a piece is open. -/
theorem Tiling.isOpen {pieces : List Piece} (h : s.Tiling mask pieces) {p : Piece}
    (hp : p ∈ pieces) {q : Fin 16 × Fin 16} (hq : q ∈ p.extent.places) :
    s.IsOpen mask q.1 q.2 := by
  have hpos : 0 < pieces.countP fun p => decide ((q.1, q.2) ∈ p.extent.places) :=
    List.countP_pos_iff.mpr ⟨p, hp, by simpa using hq⟩
  rw [h.count] at hpos
  split at hpos
  · assumption
  · omega

/-- Every open place lies in a piece. -/
theorem Tiling.exists_mem {pieces : List Piece} (h : s.Tiling mask pieces)
    (hopen : s.IsOpen mask i j) : ∃ p ∈ pieces, (i, j) ∈ p.extent.places := by
  have hpos : 0 < pieces.countP fun p => decide ((i, j) ∈ p.extent.places) := by
    rw [h.count, if_pos hopen]
    exact Nat.one_pos
  obtain ⟨p, hp, hq⟩ := List.countP_pos_iff.mp hpos
  exact ⟨p, hp, of_decide_eq_true hq⟩

/-- A piece in front of a tiling of what it leaves open. -/
theorem Tiling.cons {pieces : List Piece} {p : Piece} (hfits : p.extent.Fits)
    (hair : p.material ≠ .air) (hopen : ∀ q ∈ p.extent.places, s.OpenTo mask p.material q)
    (h : s.Tiling (mask.cover p.extent) pieces) : s.Tiling mask (p :: pieces) where
  fits := by
    intro q hq
    rcases List.mem_cons.mp hq with rfl | hq
    · exact hfits
    · exact h.fits q hq
  material := by
    intro q hq
    rcases List.mem_cons.mp hq with rfl | hq
    · exact fun r hr => (hopen r hr).2
    · exact h.material q hq
  count := by
    intro i j
    rw [List.countP_cons, h.count]
    by_cases hp : (i, j) ∈ p.extent.places
    · have hnow : s.IsOpen mask i j := (hopen (i, j) hp).isOpen hair
      have hthen : ¬s.IsOpen (mask.cover p.extent) i j := fun h => (isOpen_cover_iff.mp h).2 hp
      simp [hp, hnow, hthen]
    · have hiff : s.IsOpen (mask.cover p.extent) i j ↔ s.IsOpen mask i j :=
        isOpen_cover_iff.trans (and_iff_left hp)
      simp [hp, hiff]

/-- **A paving is a tiling.** -/
theorem Paving.tiling {pieces : List Piece} (h : s.Paving mask pieces) : s.Tiling mask pieces := by
  induction h with
  | nil hclosed =>
    refine ⟨by simp, by simp, fun i j => ?_⟩
    rw [if_neg (hclosed i j)]
    rfl
  | cons hair hgrown _ _ ih => exact .cons hgrown.fits hair hgrown.openTo ih

/-- **Merging tiles the faces of a slice** whose codes are known. -/
theorem exists_merge (hs : s.Known) :
    ∃ pieces, s.merge = .ok (pieces.map (Piece.patch s)) ∧ s.Tiling Mask.empty pieces := by
  cases hmerge : s.merge with
  | error f =>
    obtain ⟨i, j, hfault⟩ := mergeFrom_error hmerge
    obtain ⟨m, hm⟩ := (hs i j).exists_material
    rw [hm] at hfault
    cases hfault
  | ok patches =>
    obtain ⟨pieces, rfl, hpaving⟩ := merge_spec hmerge
    exact ⟨pieces, rfl, hpaving.tiling⟩

end Slice

end Blockworld
