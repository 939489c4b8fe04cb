/-
# Merging faces into rectangles

A patch is a rectangle of faces of one material within a slice.  `Slice.merge` covers the faces of
a slice with patches: places are scanned with the first coordinate outermost; from a face that is
not covered yet the patch grows along the second coordinate as far as faces of the same material
lie uncovered, and then along the first as far as the whole edge can follow.  Liquid faces stay
single.  Light and metadata come from the face a patch starts at.

`Patch.lift` places a patch in chunk coordinates.  The corners of a patch on a negative side are
exchanged along the first coordinate, so that all six sides turn the same way seen from outside.
-/
import Blockworld.Quad
import Blockworld.Slice

namespace Blockworld

/-! ## 1. Patches -/

/-- A rectangle of faces in slice coordinates, covering `[u1, u2) × [v1, v2)`. -/
structure Patch where
  material : Material
  u1 : Int32
  v1 : Int32
  u2 : Int32
  v2 : Int32
  light : UInt8
  metadata : UInt8
  deriving DecidableEq, Repr

namespace Patch

/-- The extent along the first coordinate. -/
def width (p : Patch) : Except Fault Int32 := checkedSub p.u2 p.u1

/-- The extent along the second coordinate. -/
def height (p : Patch) : Except Fault Int32 := checkedSub p.v2 p.v1

/-- The number of faces covered. -/
def area (p : Patch) : Except Fault Int32 := do
  let w ← p.width
  let h ← p.height
  checkedMul w h

/-- Whether a place is covered; its coordinates are reduced to 32 bits. -/
def covers (p : Patch) (i j : Nat) : Bool :=
  let u := Int32.ofNat i
  let v := Int32.ofNat j
  decide (p.u1 ≤ u) && decide (u < p.u2) && decide (p.v1 ≤ v) && decide (v < p.v2)

/-- The patch in chunk coordinates, on the outer face of a layer toward a side.  It must come out
flat along exactly one axis. -/
def lift (p : Patch) (side : Side) (layer : Nat) : Except Fault Quad := do
  let plane ← checkedAdd (Int32.ofNat layer) (if side.isPositive then 1 else 0)
  let (first, last) := if side.isPositive then (p.u1, p.u2) else (p.u2, p.u1)
  let quad : Quad :=
    { material := p.material
      corner1 := Point.ofFrame side.axis plane first p.v1
      corner2 := Point.ofFrame side.axis plane last p.v2
      normal := side.normal
      light := p.light
      metadata := p.metadata }
  let flat ← quad.sharedAxes
  if flat = 1 then .ok quad else .error .nonPlanar

end Patch

/-! ## 2. The scan -/

/-- The places of a slice that are already covered. -/
abbrev Mask := Vector Bool 256

/-- No place is covered. -/
def Mask.empty : Mask := .replicate 256 false

/-- Whether a place is covered. -/
def Mask.get (m : Mask) (i j : Fin 16) : Bool :=
  getElem m (Slice.index i j) (Slice.index_lt i j)

/-- A rectangle of places, by its first place and its extents. -/
structure Extent where
  i : Fin 16
  j : Fin 16
  width : Nat
  height : Nat
  deriving DecidableEq, Repr

/-- `count` coordinates from `start` on, as far as there are. -/
def coordinatesFrom (start : Fin 16) (count : Nat) : List (Fin 16) :=
  ((List.finRange 16).drop start.val).take count

/-- The coordinates above `start`. -/
def coordinatesAbove (start : Fin 16) : List (Fin 16) := (List.finRange 16).drop (start.val + 1)

/-- The places of a rectangle. -/
def Extent.places (e : Extent) : List (Fin 16 × Fin 16) :=
  (coordinatesFrom e.i e.width).flatMap fun i => (coordinatesFrom e.j e.height).map fun j => (i, j)

/-- Covers the places of a rectangle. -/
def Mask.cover (m : Mask) (e : Extent) : Mask :=
  e.places.foldl (fun m (i, j) => m.set (Slice.index i j) true (Slice.index_lt i j)) m

/-- A run of coordinates holds those from its start to below its end. -/
theorem mem_coordinatesFrom {start k : Fin 16} {count : Nat} :
    k ∈ coordinatesFrom start count ↔ start ≤ k ∧ k.val < start.val + count := by
  unfold coordinatesFrom
  rw [List.mem_take_iff_getElem]
  simp only [List.length_drop, List.length_finRange, List.getElem_drop, List.getElem_finRange]
  constructor
  · rintro ⟨n, hn, rfl⟩
    simp only [Fin.le_def, Fin.val_cast]
    omega
  · rintro ⟨hle, hlt⟩
    refine ⟨k.val - start.val, by have := k.2; simp only [Fin.le_def] at hle; omega, ?_⟩
    apply Fin.ext
    simp only [Fin.le_def] at hle
    simp only [Fin.val_cast]
    omega

/-- The places of a rectangle are those within it on both coordinates. -/
theorem Extent.mem_places {e : Extent} {p : Fin 16 × Fin 16} :
    p ∈ e.places ↔
      (e.i ≤ p.1 ∧ p.1.val < e.i.val + e.width) ∧ (e.j ≤ p.2 ∧ p.2.val < e.j.val + e.height) := by
  obtain ⟨i, j⟩ := p
  simp only [places, List.mem_flatMap, List.mem_map, mem_coordinatesFrom, Prod.mk.injEq]
  constructor
  · rintro ⟨_, hi, _, hj, rfl, rfl⟩
    exact ⟨hi, hj⟩
  · rintro ⟨hi, hj⟩
    exact ⟨i, hi, j, hj, rfl, rfl⟩

@[simp] theorem Mask.get_empty (i j : Fin 16) : Mask.empty.get i j = false := by
  simp [Mask.get, Mask.empty]

/-- The number of leading elements that pass a test.  The first one that fails ends the count, and
the rest is not tested. -/
def leadingRun {α : Type} (test : α → Except Fault Bool) : List α → Except Fault Nat
  | [] => .ok 0
  | a :: rest =>
    match test a with
    | .error f => .error f
    | .ok false => .ok 0
    | .ok true => (leadingRun test rest).map (· + 1)

/-- Whether every element passes a test.  The first one that fails ends the search. -/
def allPass {α : Type} (test : α → Except Fault Bool) : List α → Except Fault Bool
  | [] => .ok true
  | a :: rest =>
    match test a with
    | .error f => .error f
    | .ok false => .ok false
    | .ok true => allPass test rest

namespace Slice

/-- Whether the face at a place can join a patch of a material.  A covered place cannot, and is
not decoded. -/
def canJoin (s : Slice) (mask : Mask) (material : Material) (i j : Fin 16) : Except Fault Bool :=
  if mask.get i j then .ok false
  else (s.get i j).block.material.map (· == material)

/-- The rectangle that grows from a place whose face is of a given material. -/
def grow (s : Slice) (mask : Mask) (material : Material) (i j : Fin 16) : Except Fault Extent :=
  if material.canMerge then do
    let taller ← leadingRun (s.canJoin mask material i) (coordinatesAbove j)
    let height := taller + 1
    let edge := coordinatesFrom j height
    let joins (i' : Fin 16) := allPass (s.canJoin mask material i') edge
    let wider ← leadingRun joins (coordinatesAbove i)
    return ⟨i, j, wider + 1, height⟩
  else
    return ⟨i, j, 1, 1⟩

/-- The patch on a rectangle, drawn like the face at its first place. -/
def patch (s : Slice) (material : Material) (e : Extent) : Patch :=
  let start := s.get e.i e.j
  { material := material
    u1 := Int32.ofNat e.i.val
    v1 := Int32.ofNat e.j.val
    u2 := Int32.ofNat (e.i.val + e.width)
    v2 := Int32.ofNat (e.j.val + e.height)
    light := start.light
    metadata := start.block.level }

/-- Every place of a slice in scan order: the first coordinate is the outer loop. -/
def scanOrder : List (Fin 16 × Fin 16) :=
  (List.finRange 16).flatMap fun i => (List.finRange 16).map fun j => (i, j)

/-- Covers the faces at the listed places that `mask` does not cover yet. -/
def mergeFrom (s : Slice) : List (Fin 16 × Fin 16) → Mask → Except Fault (List Patch)
  | [], _ => .ok []
  | (i, j) :: rest, mask =>
    if (s.get i j).isEmpty || mask.get i j then s.mergeFrom rest mask
    else do
      let material ← (s.get i j).block.material
      let extent ← s.grow mask material i j
      let patches ← s.mergeFrom rest (mask.cover extent)
      return s.patch material extent :: patches

/-- Patches that cover the faces of a slice, in scan order of their first places. -/
def merge (s : Slice) : Except Fault (List Patch) := s.mergeFrom scanOrder Mask.empty

end Slice

end Blockworld
