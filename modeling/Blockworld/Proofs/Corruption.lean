/-
# Meshing finds every corrupt code that matters

Codes are decoded as late as possible: air is never decoded, a block behind a face only if the face
does not look into air, and the block of a face itself only behind something translucent, or when
faces are merged.  Whether a corrupt code is met can depend on the side a cell is looked at from.

Over all six sides nothing is missed.  A snapshot is `Snapshot.Corrupt` if its chunk holds a code
that names no material, anywhere, or if a known neighbour holds one right behind a border cell of
the chunk that is not air.  Meshing then fails, with an unknown code and with nothing else, and in
all other cases it succeeds (`Snapshot.mesh_fails_iff_corrupt`).

* `Decodes x P`: the computation `x` succeeds exactly if `P` holds, and otherwise fails on an
  unknown code.  The lemmas follow the ways in which meshing puts computations together;
* `Slice.Readable` is the condition for one place, and meshing succeeds under the conjunction of all
  of them (`Snapshot.decodes_quads`);
* `Snapshot.forall_readable_iff`: every place is readable exactly if nothing is corrupt.  A corrupt
  cell always has a cell of its own chunk beside it.  If that one is air, the corrupt cell shows its
  face and is decoded for merging; if not, it is decoded as what the other cell looks at.
-/
import Blockworld.Proofs.Faces

namespace Blockworld

/-! ## 1. Computations that decode codes -/

/-- The computation succeeds exactly under a condition, and otherwise fails on an unknown code. -/
structure Decodes {α : Type} (x : Except Fault α) (P : Prop) : Prop where
  ok_iff : (∃ a, x = .ok a) ↔ P
  error : ∀ f, x = .error f → ∃ code, 7 < code ∧ f = .unknownBlockCode code

namespace Decodes

variable {α β : Type} {x : Except Fault α} {P Q : Prop}

theorem ok (a : α) : Decodes (.ok a) True := ⟨⟨fun _ => trivial, fun _ => ⟨a, rfl⟩⟩, nofun⟩

theorem congr (h : Decodes x P) (hiff : P ↔ Q) : Decodes x Q := ⟨h.ok_iff.trans hiff, h.error⟩

theorem fails_iff (h : Decodes x P) : (∃ f, x = .error f) ↔ ¬P := by
  rw [← h.ok_iff]
  cases x with
  | ok a => exact iff_of_false nofun (not_not_intro ⟨a, rfl⟩)
  | error f => exact iff_of_true ⟨f, rfl⟩ nofun

/-- The failure is that of an unknown code. -/
theorem exists_error_iff (h : Decodes x P) :
    (∃ code, x = .error (.unknownBlockCode code)) ↔ ¬P := by
  rw [← h.fails_iff]
  constructor
  · rintro ⟨code, hcode⟩
    exact ⟨_, hcode⟩
  · rintro ⟨f, hf⟩
    obtain ⟨code, -, rfl⟩ := h.error f hf
    exact ⟨code, hf⟩

/-- A sequence succeeds under the conditions of both parts. -/
theorem bind {f : α → Except Fault β} (hx : Decodes x P)
    (hf : ∀ a, x = .ok a → Decodes (f a) Q) : Decodes (x >>= f) (P ∧ Q) := by
  cases x with
  | ok a =>
    have hP : P := hx.ok_iff.mp ⟨a, rfl⟩
    exact (hf a rfl).congr (iff_and_self.mpr fun _ => hP)
  | error e =>
    refine ⟨⟨nofun, fun h => ?_⟩, ?_⟩
    · obtain ⟨a, ha⟩ := hx.ok_iff.mpr h.1
      cases ha
    · rintro _ ⟨rfl⟩
      exact hx.error e rfl

theorem map {f : α → β} (h : Decodes x P) : Decodes (x.map f) P := by
  have hbind : x.map f = x >>= fun a => .ok (f a) := by cases x <;> rfl
  rw [hbind]
  exact (h.bind fun a _ => ok (f a)).congr (and_iff_left trivial)

/-- A table exists if all entries do. -/
theorem tabulate {n : Nat} {f : Fin n → Except Fault α} {P : Fin n → Prop}
    (h : ∀ i, Decodes (f i) (P i)) : Decodes (tabulate f) (∀ i, P i) where
  ok_iff := exists_tabulate_iff.trans (forall_congr' fun i => (h i).ok_iff)
  error := by
    intro e he
    obtain ⟨i, hi, -⟩ := tabulate_eq_error_iff.mp he
    exact (h i).error e hi

/-- Lists are gathered if all of them exist. -/
theorem gather {f : α → Except Fault (List β)} {P : α → Prop} {l : List α}
    (h : ∀ a ∈ l, Decodes (f a) (P a)) : Decodes (gather f l) (∀ a ∈ l, P a) := by
  induction l with
  | nil => exact (ok []).congr (by simp)
  | cons a rest ih =>
    have hrest := ih fun b hb => h b (List.mem_cons_of_mem _ hb)
    refine (bind (h a List.mem_cons_self) fun here _ => bind hrest fun there _ => ok _).congr ?_
    simp

end Decodes

/-! ## 2. Blocks and places -/

theorem Block.not_known_iff {b : Block} : ¬b.Known ↔ 7 < b.code := by
  unfold Known
  simp only [UInt8.lt_iff_toNat_lt, UInt8.reduceToNat]
  omega

/-- Decoding fails on the unknown codes. -/
theorem Block.decodes_material (b : Block) : Decodes b.material b.Known where
  ok_iff := by
    constructor
    · rintro ⟨m, hm⟩
      unfold Known
      rw [Material.eq_code_of_decode hm]
      exact m.code_lt
    · exact Known.exists_material
  error := by
    intro f hf
    have hcode : f = .unknownBlockCode b.code := by
      unfold material Material.decode at hf
      split at hf <;> cases hf
      rfl
    refine ⟨b.code, not_known_iff.mp fun hknown => ?_, hcode⟩
    obtain ⟨m, hm⟩ := hknown.exists_material
    rw [hm] at hf
    cases hf

theorem Block.Known.of_isAir {b : Block} (h : b.isAir = true) : b.Known := by
  have hcode : b.code = 0 := by simpa [isAir] using h
  unfold Known
  rw [hcode]
  decide

namespace Slice

/-- Filling a place fails on an unknown code of its block or of the block it looks at. -/
theorem faceCell_error {b : Block} {across : Option Block} {f : Fault}
    (h : faceCell b across = .error f) : ∃ n : Block, n.material = .error f := by
  unfold faceCell at h
  split at h
  · cases h
  · cases across with
    | none => cases h
    | some n =>
      cases hshows : showsFace b n with
      | ok v => cases v <;> simp [hshows] at h
      | error e =>
        simp only [hshows] at h
        cases h
        unfold showsFace Block.isTranslucent Block.isLiquid at hshows
        split at hshows
        · cases hshows
        · cases hn : n.material with
          | error g =>
            simp only [hn, Except.map] at hshows
            cases hshows
            exact ⟨n, hn⟩
          | ok m =>
            cases hb : b.material with
            | error g =>
              cases hm : m.isTranslucent <;> simp [hn, hb, hm, Except.map] at hshows
              exact ⟨b, hshows ▸ hb⟩
            | ok m' => cases hm : m.isTranslucent <;> simp [hn, hb, hm, Except.map] at hshows

theorem decodes_faceCell (b : Block) (across : Option Block) :
    Decodes (faceCell b across) (∃ c, faceCell b across = .ok c) where
  ok_iff := Iff.rfl
  error := by
    intro f hf
    obtain ⟨n, hn⟩ := faceCell_error hf
    exact n.decodes_material.error f hn

/-- A place can be filled, and what it is filled with be decoded. -/
def Readable (b : Block) (across : Option Block) : Prop :=
  ∃ c, faceCell b across = .ok c ∧ c.block.Known

/-- Air has no face, whatever it looks at. -/
theorem readable_of_isAir {b : Block} (h : b.isAir = true) (across : Option Block) :
    Readable b across :=
  ⟨.empty, if_pos h, Block.known_air⟩

theorem readable_of_known {b : Block} {across : Option Block} (hb : b.Known)
    (hacross : ∀ n, across = some n → n.Known) : Readable b across := by
  obtain ⟨c, hc, hknown, -⟩ := exists_faceCell hb hacross
  exact ⟨c, hc, hknown⟩

/-- **What a face looks at is decoded, and the block of a face that looks into air is, too.** -/
theorem Readable.known {b n : Block} (h : Readable b (some n)) (hb : b.isAir = false) :
    n.Known ∧ (n.isAir = true → b.Known) := by
  obtain ⟨c, hc, hknown⟩ := h
  unfold faceCell at hc
  rw [if_neg (by simp [hb])] at hc
  cases hair : n.isAir with
  | true =>
    refine ⟨.of_isAir hair, fun _ => ?_⟩
    simp only [showsFace_of_isAir hair] at hc
    cases hc
    exact hknown
  | false =>
    refine ⟨?_, nofun⟩
    rw [← n.decodes_material.ok_iff]
    cases hn : n.material with
    | ok m => exact ⟨m, rfl⟩
    | error f => simp [showsFace, hair, Block.isTranslucent, hn, Except.map] at hc

/-! ## 3. Slices -/

/-- **Merging decodes every face.** -/
theorem decodes_merge (s : Slice) : Decodes s.merge s.Known where
  ok_iff := by
    constructor
    · rintro ⟨patches, hpatches⟩ i j
      obtain ⟨pieces, -, hpaving⟩ := merge_spec hpatches
      cases hempty : (s.get i j).isEmpty with
      | true => exact .of_isAir hempty
      | false =>
        obtain ⟨p, hp, hmem⟩ := hpaving.tiling.exists_mem ⟨hempty, Mask.get_empty i j⟩
        exact (Block.decodes_material _).ok_iff.mp ⟨_, hpaving.tiling.material p hp _ hmem⟩
    · intro hs
      obtain ⟨pieces, hmerge, -⟩ := exists_merge hs
      exact ⟨_, hmerge⟩
  error := by
    intro f hf
    obtain ⟨i, j, hfault⟩ := mergeFrom_error hf
    exact (Block.decodes_material _).error f hfault

theorem decodes_quads (s : Slice) : Decodes s.quads s.Known := by
  have hlift : ∀ patches, s.merge = .ok patches →
      Decodes (gather (fun p => (p.lift s.side s.layer.val).map ([·])) patches) True := by
    intro patches hpatches
    obtain ⟨pieces, rfl, hpaving⟩ := merge_spec hpatches
    obtain ⟨qs, hqs, -⟩ := exists_gather_lift s s.side s.layer hpaving.tiling.fits
    rw [hqs]
    exact .ok qs
  exact (s.decodes_merge.bind hlift).congr (and_iff_left trivial)

/-- A slice without faces has nothing to decode. -/
theorem known_of_isEmpty {s : Slice} (h : s.isEmpty = true) : s.Known :=
  fun i j => .of_isAir (isEmpty_get h i j)

end Slice

/-! ## 4. Snapshots -/

namespace Snapshot

variable {s : Snapshot} {policy : Boundary}

/-- The face of a cell toward a side can be looked for, and be decoded if it is there. -/
def Readable (s : Snapshot) (policy : Boundary) (side : Side) (cell : Cell) : Prop :=
  Slice.Readable (s.chunk.get cell) (s.faced policy side cell)

/-- What the places of an extracted slice are filled with. -/
theorem get_of_ofSnapshot {side : Side} {layer : Fin 16} {slice : Slice}
    (h : Slice.ofSnapshot s policy side layer = .ok slice) (i j : Fin 16) :
    Slice.faceCell (s.chunk.get (.ofFrame side.axis layer i j))
      (s.faced policy side (.ofFrame side.axis layer i j)) = .ok (slice.get i j) := by
  unfold Slice.ofSnapshot at h
  cases htable : tabulate (fun k : Fin 256 =>
      Slice.faceCell (s.chunk.get (.ofFrame side.axis layer (Slice.column k) (Slice.row k)))
        (s.beyond policy side layer (Slice.column k) (Slice.row k))) with
  | error f =>
    simp only [htable, Except.map] at h
    cases h
  | ok cells =>
    simp only [htable, Except.map] at h
    cases h
    have hk := tabulate_eq_ok_iff.mp htable (Slice.index i j)
    rw [Slice.column_index, Slice.row_index, beyond_eq_faced] at hk
    exact hk

theorem decodes_ofSnapshot (s : Snapshot) (policy : Boundary) (side : Side) (layer : Fin 16) :
    Decodes (Slice.ofSnapshot s policy side layer) (∀ i j, ∃ c,
      Slice.faceCell (s.chunk.get (.ofFrame side.axis layer i j))
        (s.faced policy side (.ofFrame side.axis layer i j)) = .ok c) := by
  refine (Decodes.tabulate fun k => Slice.decodes_faceCell _ _).map.congr ?_
  simp only [beyond_eq_faced]
  constructor
  · intro h i j
    simpa using h (Slice.index i j)
  · intro h k
    exact h _ _

/-- **The quads of a layer need its places to be readable**, and nothing else. -/
theorem decodes_sliceQuads (s : Snapshot) (policy : Boundary) (side : Side) (layer : Fin 16) :
    Decodes (s.sliceQuads policy side layer)
      (∀ i j, s.Readable policy side (.ofFrame side.axis layer i j)) := by
  have hquads : ∀ slice, Slice.ofSnapshot s policy side layer = .ok slice →
      Decodes (if slice.isEmpty then .ok [] else slice.quads)
        (∀ i j, s.Readable policy side (.ofFrame side.axis layer i j)) := by
    intro slice hslice
    have hiff : slice.Known ↔ ∀ i j, s.Readable policy side (.ofFrame side.axis layer i j) := by
      refine forall₂_congr fun i j => ?_
      unfold Readable Slice.Readable
      rw [get_of_ofSnapshot hslice i j]
      simp
    refine Decodes.congr ?_ hiff
    cases hempty : slice.isEmpty with
    | true => exact (Decodes.ok []).congr (iff_of_true trivial (Slice.known_of_isEmpty hempty))
    | false => exact slice.decodes_quads
  refine ((s.decodes_ofSnapshot policy side layer).bind hquads).congr ?_
  refine ⟨And.right, fun h => ⟨fun i j => ?_, h⟩⟩
  obtain ⟨c, hc, -⟩ := h i j
  exact ⟨c, hc⟩

theorem decodes_quads (s : Snapshot) (policy : Boundary) :
    Decodes (s.quads policy) (∀ side cell, s.Readable policy side cell) := by
  refine (Decodes.gather fun side _ => Decodes.gather fun layer _ =>
    s.decodes_sliceQuads policy side layer).congr ?_
  constructor
  · intro h side cell
    have := h side (Side.mem_all side) (cell.along side.axis) (List.mem_finRange _)
      (cell.along side.axis.next) (cell.along side.axis.next.next)
    rwa [Cell.ofFrame_along] at this
  · intro h side _ layer _ i j
    exact h side _

end Snapshot

/-! ## 5. Corrupt snapshots -/

/-- **A code above 7** stands in the chunk, or in a known neighbour right behind a border cell of
the chunk that is not air. -/
def Snapshot.Corrupt (s : Snapshot) : Prop :=
  (∃ cell, 7 < (s.chunk.get cell).code) ∨
    ∃ side n cell, s.neighbors.get side = some n ∧ cell.along side.axis = side.border ∧
      (s.chunk.get cell).isAir = false ∧ 7 < (n.get (cell.across side)).code

/-- Inside the chunk a step forth and a step back lead to where they started. -/
theorem Cell.across_across_opposite (cell : Cell) (side : Side) :
    (cell.across side).across side.opposite = cell := by
  have hwrap : ∀ k, side.opposite.wrap (side.wrap k) = k := by cases side <;> decide
  unfold across
  simp only [Side.axis_opposite, Cell.along_ofFrame, Cell.along_ofFrame_next,
    Cell.along_ofFrame_next_next, hwrap, Cell.ofFrame_along]

/-- A step inside the chunk does not end at the border behind it. -/
theorem Cell.along_across_ne_border {cell : Cell} {side : Side}
    (h : cell.along side.axis ≠ side.border) :
    (cell.across side).along side.axis ≠ side.opposite.border := by
  unfold across
  rw [Cell.along_ofFrame]
  revert h
  generalize cell.along side.axis = k
  revert k
  cases side <;> decide

/-- Every cell has a cell of its chunk beside it. -/
theorem Cell.exists_inner_side (cell : Cell) :
    ∃ side : Side, cell.along side.axis ≠ side.border := by
  by_cases h : cell.x = 15
  · exact ⟨.west, by rw [show cell.along Side.west.axis = cell.x from rfl, h]; decide⟩
  · exact ⟨.east, h⟩

namespace Snapshot

variable {s : Snapshot} {policy : Boundary}

/-- Within the chunk a cell looks at the next cell. -/
theorem faced_of_ne_border {side : Side} {cell : Cell} (h : cell.along side.axis ≠ side.border) :
    s.faced policy side cell = some (s.chunk.get (cell.across side)) := if_neg h

/-- At the border a cell looks at the facing cell of a known neighbour. -/
theorem faced_of_border {side : Side} {cell : Cell} {n : Chunk}
    (h : cell.along side.axis = side.border) (hn : s.neighbors.get side = some n) :
    s.faced policy side cell = some (n.get (cell.across side)) := by
  unfold faced
  rw [if_pos h, hn]

/-- If every place can be read then every code of the chunk is known. -/
theorem known_of_readable (h : ∀ side cell, s.Readable policy side cell) : s.chunk.Known := by
  intro cell
  cases hair : (s.chunk.get cell).isAir with
  | true => exact .of_isAir hair
  | false =>
    obtain ⟨side, hside⟩ := cell.exists_inner_side
    have hcell := h side cell
    unfold Readable at hcell
    rw [faced_of_ne_border hside] at hcell
    obtain ⟨-, hshown⟩ := hcell.known hair
    cases hbeside : (s.chunk.get (cell.across side)).isAir with
    | true => exact hshown hbeside
    | false =>
      -- the cell beside is not air, and decodes this one when it looks back
      have hback := h side.opposite (cell.across side)
      unfold Readable at hback
      rw [faced_of_ne_border (by simpa using Cell.along_across_ne_border hside),
        Cell.across_across_opposite] at hback
      exact (hback.known hbeside).1

/-- **Every place is readable exactly if nothing is corrupt.** -/
theorem forall_readable_iff :
    (∀ side cell, s.Readable policy side cell) ↔ ¬s.Corrupt := by
  constructor
  · rintro h (⟨cell, hcell⟩ | ⟨side, n, cell, hn, hborder, hair, hcell⟩)
    · exact Block.not_known_iff.mpr hcell (known_of_readable h cell)
    · have hface := h side cell
      unfold Readable at hface
      rw [faced_of_border hborder hn] at hface
      exact Block.not_known_iff.mpr hcell (hface.known hair).1
  · intro hsound side cell
    unfold Corrupt at hsound
    rw [not_or, not_exists] at hsound
    obtain ⟨hchunk, hneighbors⟩ := hsound
    have hknown : s.chunk.Known := fun cell =>
      not_not.mp fun h => hchunk cell (Block.not_known_iff.mp h)
    cases hair : (s.chunk.get cell).isAir with
    | true => exact Slice.readable_of_isAir hair _
    | false =>
      refine Slice.readable_of_known (hknown cell) fun n hn => ?_
      by_cases hborder : cell.along side.axis = side.border
      · cases hbeside : s.neighbors.get side with
        | some chunk =>
          rw [faced_of_border hborder hbeside] at hn
          cases hn
          refine not_not.mp fun h => hneighbors ?_
          exact ⟨side, chunk, cell, hbeside, hborder, hair, Block.not_known_iff.mp h⟩
        | none =>
          unfold faced at hn
          rw [if_pos hborder, hbeside] at hn
          cases policy with
          | hidden => cases hn
          | exposed =>
            cases hn
            exact Block.known_sky
      · rw [faced_of_ne_border hborder] at hn
        cases hn
        exact hknown _

/-- A chunk that counts no solid cell holds no code but air, and looks at nothing. -/
theorem not_corrupt_of_isEmpty (hs : s.chunk.Coherent) (h : s.chunk.isEmpty = true) :
    ¬s.Corrupt := by
  rintro (⟨cell, hcell⟩ | ⟨side, n, cell, -, -, hair, -⟩)
  · exact Block.not_known_iff.mpr hcell (.of_isAir (hs.isAir_of_isEmpty h cell))
  · rw [hs.isAir_of_isEmpty h cell] at hair
    cases hair

theorem decodes_mesh (hs : s.chunk.Coherent) (policy : Boundary) :
    Decodes (s.mesh policy) (¬s.Corrupt) := by
  unfold mesh
  cases hempty : s.chunk.isEmpty with
  | true => exact (Decodes.ok _).congr (iff_of_true trivial (not_corrupt_of_isEmpty hs hempty))
  | false => exact (s.decodes_quads policy).map.congr forall_readable_iff

/-- **Meshing fails exactly on corrupt snapshots**, and then with an unknown code.  In all other
cases it succeeds. -/
theorem mesh_fails_iff_corrupt (s : Snapshot) (policy : Boundary) (hbuilt : s.chunk.Built) :
    ((∃ code, s.mesh policy = .error (.unknownBlockCode code)) ↔ s.Corrupt) ∧
      (¬s.Corrupt → ∃ m, s.mesh policy = .ok m) := by
  have hmesh := decodes_mesh hbuilt.coherent policy
  exact ⟨hmesh.exists_error_iff.trans not_not, hmesh.ok_iff.mpr⟩

/-- A cube of one block below a cube of corrupt ones. -/
def blighted (block : Block) : Snapshot where
  coords := .zero
  chunk := .filled .zero block
  neighbors := .ofFn fun side => if side = .up then some (.filled .zero ⟨8, 0⟩) else none

/-- Stone meets the corrupt codes above it, and air does not look. -/
theorem blighted_fails_iff_corrupt :
    (blighted (.ofMaterial .stone)).chunk.Built ∧ (blighted .air).chunk.Built ∧
      (∃ code, (blighted (.ofMaterial .stone)).mesh .hidden = .error (.unknownBlockCode code)) ∧
      ∃ m, (blighted .air).mesh .hidden = .ok m := by
  have hstone : (blighted (.ofMaterial .stone)).chunk.Built := .filled _ _
  have hair : (blighted .air).chunk.Built := .filled _ _
  have habove : ∀ block, (blighted block).neighbors.get .up = some (.filled .zero ⟨8, 0⟩) :=
    fun _ => rfl
  refine ⟨hstone, hair, (mesh_fails_iff_corrupt _ .hidden hstone).1.mpr (.inr ?_),
    (mesh_fails_iff_corrupt _ .hidden hair).2 ?_⟩
  · refine ⟨.up, _, ⟨4, 15, 9⟩, habove _, rfl, ?_, ?_⟩
    · rw [show (blighted (.ofMaterial .stone)).chunk = .filled .zero _ from rfl, Chunk.get_filled]
      rfl
    · rw [Chunk.get_filled]
      decide
  · exact not_corrupt_of_isEmpty hair.coherent rfl

end Snapshot

end Blockworld
