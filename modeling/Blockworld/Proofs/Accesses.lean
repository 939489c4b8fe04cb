/-
# The scan stays inside the slice

A place of a slice is a pair of coordinates below 16, so `Slice.merge` has no way of looking
elsewhere.  A scan that counts with plain numbers has: growing looks at the place behind the edge of
a rectangle, and covering adds offsets to its first place.

`Slice.mergeByNumber` is that scan.  Its loops run over numbers, a rectangle stops growing at 16
because the loop says so, and every look at a place or at the mask, and every mark in the mask, is
checked and faults on a place outside the slice.  The checks never fail: the scan by numbers is
`Slice.merge` (`Slice.mergeByNumber_eq`), on every slice and with whatever fault the codes in it
lead to.

The two scans agree step by step.  What has to be shown on the way is that a rectangle ends inside
the slice, since only then are the numbers of its edge and of its interior coordinates
(`Slice.growByNumber_eq`, `Mask.coverByNumber_eq`).
-/
import Blockworld.Proofs.Merge

namespace Blockworld

/-! ## 1. The scan by numbers -/

/-- The number of coordinates from `k` on that pass a test, up to the first that fails and below 16
in any case. -/
def runFrom (test : Nat → Except Fault Bool) (k : Nat) : Except Fault Nat :=
  if k < 16 then
    match test k with
    | .error f => .error f
    | .ok false => .ok 0
    | .ok true => (runFrom test (k + 1)).map (· + 1)
  else .ok 0
termination_by 16 - k

/-- Whether a numbered place is covered; a fault outside the slice. -/
def Mask.covered (m : Mask) (i j : Nat) : Except Fault Bool :=
  (Slice.place? i j).map fun p => m.get p.1 p.2

/-- Covers a numbered place; a fault outside the slice. -/
def Mask.mark (m : Mask) (i j : Nat) : Except Fault Mask :=
  (Slice.place? i j).map fun p => m.set (Slice.index p.1 p.2) true (Slice.index_lt p.1 p.2)

/-- Covers numbered places one after the other. -/
def Mask.markAll (m : Mask) : List (Nat × Nat) → Except Fault Mask
  | [] => .ok m
  | (i, j) :: rest => do
    let m ← m.mark i j
    m.markAll rest

/-- Covers the numbered places of a rectangle. -/
def Mask.coverByNumber (m : Mask) (i j width height : Nat) : Except Fault Mask :=
  m.markAll ((List.range' i width).flatMap fun i => (List.range' j height).map fun j => (i, j))

namespace Slice

/-- The content of a numbered place; a fault outside the slice. -/
def look (s : Slice) (i j : Nat) : Except Fault SliceCell :=
  (place? i j).map fun p => s.get p.1 p.2

/-- Whether the face at a numbered place can join a patch of a material. -/
def joins (s : Slice) (mask : Mask) (material : Material) (i j : Nat) : Except Fault Bool := do
  if ← mask.covered i j then return false
  else
    let cell ← s.look i j
    cell.block.material.map (· == material)

/-- The width and the height of the rectangle that grows from a numbered place. -/
def growByNumber (s : Slice) (mask : Mask) (material : Material) (i j : Nat) :
    Except Fault (Nat × Nat) :=
  if material.canMerge then do
    let taller ← runFrom (s.joins mask material i) (j + 1)
    let height := taller + 1
    let edge := List.range' j height
    let wider ← runFrom (fun i' => allPass (s.joins mask material i') edge) (i + 1)
    return (wider + 1, height)
  else
    return (1, 1)

/-- Covers the faces at the numbered places that `mask` does not cover yet. -/
def scanByNumber (s : Slice) : List (Nat × Nat) → Mask → Except Fault (List Patch)
  | [], _ => .ok []
  | (i, j) :: rest, mask => do
    let start ← s.look i j
    if start.isEmpty || (← mask.covered i j) then s.scanByNumber rest mask
    else
      let material ← start.block.material
      let (width, height) ← s.growByNumber mask material i j
      let mask ← mask.coverByNumber i j width height
      let patches ← s.scanByNumber rest mask
      let patch : Patch :=
        { material := material
          u1 := Int32.ofNat i
          v1 := Int32.ofNat j
          u2 := Int32.ofNat (i + width)
          v2 := Int32.ofNat (j + height)
          light := start.light
          metadata := start.block.level }
      return patch :: patches

/-- Patches that cover the faces of a slice, found by counting. -/
def mergeByNumber (s : Slice) : Except Fault (List Patch) :=
  s.scanByNumber
    ((List.range 16).flatMap fun i => (List.range 16).map fun j => (i, j)) Mask.empty

end Slice

/-! ## 2. Numbers below 16 -/

namespace Slice

variable {s : Slice} {mask : Mask} {m : Material} {i j : Fin 16}

theorem place?_val (i j : Fin 16) : place? i.val j.val = .ok (i, j) := dif_pos ⟨i.isLt, j.isLt⟩

theorem look_val (s : Slice) (i j : Fin 16) : s.look i.val j.val = .ok (s.get i j) := by
  rw [look, place?_val]
  rfl

theorem covered_val (mask : Mask) (i j : Fin 16) :
    mask.covered i.val j.val = .ok (mask.get i j) := by
  rw [Mask.covered, place?_val]
  rfl

theorem mark_val (mask : Mask) (i j : Fin 16) :
    mask.mark i.val j.val = .ok (mask.set (index i j) true (index_lt i j)) := by
  rw [Mask.mark, place?_val]
  rfl

theorem joins_val (s : Slice) (mask : Mask) (m : Material) (i j : Fin 16) :
    s.joins mask m i.val j.val = s.canJoin mask m i j := by
  unfold joins canJoin
  rw [covered_val, look_val]
  cases mask.get i j <;> rfl

end Slice

/-- The numbers of a run of coordinates. -/
theorem map_val_coordinatesFrom {start : Fin 16} {count : Nat} (h : start.val + count ≤ 16) :
    (coordinatesFrom start count).map Fin.val = List.range' start.val count := by
  apply List.ext_getElem
  · simp only [coordinatesFrom, List.length_map, List.length_take, List.length_drop,
      List.length_finRange, List.length_range']
    omega
  · intro n hn hn'
    simp [coordinatesFrom]

/-- Counting from a coordinate on is the leading run of the coordinates there are. -/
theorem runFrom_eq {test : Nat → Except Fault Bool} {test' : Fin 16 → Except Fault Bool}
    (htest : ∀ k : Fin 16, test k.val = test' k) {k : Nat} :
    runFrom test k = leadingRun test' ((List.finRange 16).drop k) := by
  induction hleft : 16 - k generalizing k with
  | zero =>
    have hnil : (List.finRange 16).drop k = [] :=
      List.drop_eq_nil_of_le (by simp only [List.length_finRange]; omega)
    rw [runFrom, if_neg (by omega), hnil]
    rfl
  | succ left ih =>
    have hlt : k < 16 := by omega
    rw [runFrom, if_pos hlt, List.drop_eq_getElem_cons (by simpa using hlt), leadingRun,
      ih (by omega), List.getElem_finRange, ← htest]
    rfl

theorem runFrom_above {test : Nat → Except Fault Bool} {test' : Fin 16 → Except Fault Bool}
    (htest : ∀ k : Fin 16, test k.val = test' k) (start : Fin 16) :
    runFrom test (start.val + 1) = leadingRun test' (coordinatesAbove start) :=
  runFrom_eq htest

/-- A test of numbers is passed by all coordinates or by all their numbers. -/
theorem allPass_map {α β : Type} {f : α → β} {test : β → Except Fault Bool} {l : List α} :
    allPass test (l.map f) = allPass (fun a => test (f a)) l := by
  induction l with
  | nil => rfl
  | cons a rest ih =>
    rw [List.map_cons, allPass, allPass, ih]

/-! ## 3. The two scans agree -/

/-- Marking the numbers of places covers these places. -/
theorem Mask.markAll_map (mask : Mask) (places : List (Fin 16 × Fin 16)) :
    mask.markAll (places.map fun p => (p.1.val, p.2.val)) =
      .ok (places.foldl
        (fun m (i, j) => m.set (Slice.index i j) true (Slice.index_lt i j)) mask) := by
  induction places generalizing mask with
  | nil => rfl
  | cons p rest ih =>
    obtain ⟨i, j⟩ := p
    rw [List.map_cons, markAll, Slice.mark_val]
    exact ih _

/-- The numbers of all pairs of two lists of coordinates. -/
theorem map_val_product (is js : List (Fin 16)) :
    (is.flatMap fun i => js.map fun j => (i, j)).map (fun p => (p.1.val, p.2.val)) =
      (is.map Fin.val).flatMap fun i => (js.map Fin.val).map fun j => (i, j) := by
  simp [List.map_flatMap, List.flatMap_map, Function.comp_def]

/-- **Covering a rectangle marks no place outside the slice.** -/
theorem Mask.coverByNumber_eq (mask : Mask) {e : Extent} (h : e.Fits) :
    mask.coverByNumber e.i.val e.j.val e.width e.height = .ok (mask.cover e) := by
  unfold coverByNumber
  rw [← map_val_coordinatesFrom h.width_le, ← map_val_coordinatesFrom h.height_le,
    ← map_val_product]
  exact mask.markAll_map e.places

namespace Slice

variable {s : Slice} {mask : Mask} {m : Material} {i j : Fin 16}

/-- **Growing looks at no place outside the slice.** -/
theorem growByNumber_eq (s : Slice) (mask : Mask) (m : Material) (i j : Fin 16) :
    s.growByNumber mask m i.val j.val =
      (s.grow mask m i j).map fun e => (e.width, e.height) := by
  unfold growByNumber grow
  split
  · rw [runFrom_above (s.joins_val mask m i)]
    cases htaller : leadingRun (s.canJoin mask m i) (coordinatesAbove j) with
    | error f => rfl
    | ok taller =>
      have hle := (leadingRun_spec htaller).1
      rw [length_coordinatesAbove] at hle
      have hj := j.2
      have hedge : List.range' j.val (taller + 1) =
          (coordinatesFrom j (taller + 1)).map Fin.val :=
        (map_val_coordinatesFrom (by omega)).symm
      have htest : ∀ i' : Fin 16,
          allPass (s.joins mask m i'.val) (List.range' j.val (taller + 1)) =
            allPass (s.canJoin mask m i') (coordinatesFrom j (taller + 1)) := by
        intro i'
        rw [hedge, allPass_map]
        simp only [joins_val]
      simp only [bind, Except.bind]
      rw [runFrom_above htest]
      cases leadingRun (fun i' => allPass (s.canJoin mask m i') (coordinatesFrom j (taller + 1)))
        (coordinatesAbove i) <;> rfl
  · rfl

/-- **The two scans agree** on what is ahead of them. -/
theorem scanByNumber_eq (s : Slice) (places : List (Fin 16 × Fin 16)) (mask : Mask) :
    s.scanByNumber (places.map fun p => (p.1.val, p.2.val)) mask = s.mergeFrom places mask := by
  induction places generalizing mask with
  | nil => rfl
  | cons p rest ih =>
    obtain ⟨i, j⟩ := p
    rw [List.map_cons, scanByNumber, mergeFrom, look_val, covered_val]
    simp only [bind, Except.bind]
    cases hskip : (s.get i j).isEmpty || mask.get i j with
    | true => simp only [if_true, ih]
    | false =>
      obtain ⟨-, hmask⟩ := Bool.or_eq_false_iff.mp hskip
      simp only [Bool.false_eq_true, if_false]
      cases hm : (s.get i j).block.material with
      | error f => rfl
      | ok m =>
        simp only [growByNumber_eq]
        cases he : s.grow mask m i j with
        | error f => rfl
        | ok e =>
          -- only a rectangle that fits can be marked by numbers
          obtain ⟨rfl, rfl, hgrown⟩ := grow_spec ⟨hmask, hm⟩ he
          simp only [Except.map, Mask.coverByNumber_eq mask hgrown.fits, ih]
          rfl

/-- **The scan by numbers is the scan.**  None of its checks fails on any slice. -/
theorem mergeByNumber_eq (s : Slice) : s.mergeByNumber = s.merge := by
  have hplaces : ((List.range 16).flatMap fun i => (List.range 16).map fun j => (i, j)) =
      scanOrder.map fun p => (p.1.val, p.2.val) := by
    have hall : (List.finRange 16).map Fin.val = List.range 16 := rfl
    rw [scanOrder, map_val_product, hall]
  unfold mergeByNumber merge
  rw [hplaces]
  exact s.scanByNumber_eq scanOrder Mask.empty

end Slice

end Blockworld
