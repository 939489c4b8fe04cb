/-
# Slices of visible faces

A slice is one of the sixteen layers of a chunk perpendicular to a side.  It records, for each of
its 256 places, the block whose face toward that side is visible and the light that falls on the
face, or nothing.  Places are numbered with the first coordinate running fastest.

`showsFace` is the visibility rule.  A face toward air is visible; a face toward a translucent
block is visible unless its own block is a liquid; every other face is hidden.  Codes are decoded
only as far as the answer needs them: the block behind a face that looks into air or into stone is
never decoded.
-/
import Blockworld.Snapshot

namespace Blockworld

/-! ## 1. Slices -/

/-- A place of a slice: the block that owns a visible face, or air, and the light on the face. -/
structure SliceCell where
  block : Block
  light : UInt8
  deriving DecidableEq, Repr

namespace SliceCell

/-- A place without a visible face. -/
def empty : SliceCell := ⟨Block.air, 0⟩

/-- Whether there is no visible face. -/
def isEmpty (c : SliceCell) : Bool := c.block.isAir

end SliceCell

/-- The visible faces of one layer of a chunk toward one side. -/
structure Slice where
  side : Side
  layer : Fin 16
  cells : Vector SliceCell 256
  deriving DecidableEq

namespace Slice

/-- The number of a place: `i + 16 j`. -/
def index (i j : Fin 16) : Fin 256 := ⟨i + 16 * j, by have := i.2; have := j.2; omega⟩

theorem index_lt (i j : Fin 16) : (index i j).val < 256 := (index i j).isLt

/-- The first coordinate of a numbered place. -/
def column (k : Fin 256) : Fin 16 := ⟨k % 16, by omega⟩

/-- The second coordinate of a numbered place. -/
def row (k : Fin 256) : Fin 16 := ⟨k / 16, by have := k.2; omega⟩

@[simp] theorem column_index (i j : Fin 16) : column (index i j) = i := by
  apply Fin.ext
  simp only [column, index]
  omega

@[simp] theorem row_index (i j : Fin 16) : row (index i j) = j := by
  apply Fin.ext
  simp only [row, index]
  omega

@[simp] theorem index_column_row (k : Fin 256) : index (column k) (row k) = k := by
  apply Fin.ext
  simp only [column, row, index]
  omega

/-- Places with the same number are the same place. -/
theorem index_inj {i j i' j' : Fin 16} : index i j = index i' j' ↔ i = i' ∧ j = j' := by
  constructor
  · intro h
    exact ⟨by rw [← column_index i j, h, column_index], by rw [← row_index i j, h, row_index]⟩
  · rintro ⟨rfl, rfl⟩
    rfl

/-- A slice without faces. -/
def empty (side : Side) (layer : Fin 16) : Slice := ⟨side, layer, .replicate 256 SliceCell.empty⟩

/-- The layer of a given number; a fault unless it is below 16. -/
def layer? (layer : Nat) : Except Fault (Fin 16) :=
  if h : layer < 16 then .ok ⟨layer, h⟩ else .error (.layerOutOfRange layer)

/-- The place with coordinates given as numbers; a fault unless both are below 16. -/
def place? (i j : Nat) : Except Fault (Fin 16 × Fin 16) :=
  if h : i < 16 ∧ j < 16 then .ok (⟨i, h.1⟩, ⟨j, h.2⟩) else .error (.layerCellOutOfRange i j)

/-- The content of a place. -/
def get (s : Slice) (i j : Fin 16) : SliceCell := s.cells[index i j]

/-- Replaces the content of a place. -/
def set (s : Slice) (i j : Fin 16) (c : SliceCell) : Slice :=
  { s with cells := s.cells.set (index i j) c }

@[simp] theorem get_empty (side : Side) (layer i j : Fin 16) :
    (empty side layer).get i j = SliceCell.empty := by simp [empty, get]

/-- Replacing a place changes its own content and no other. -/
theorem get_set (s : Slice) (i j i' j' : Fin 16) (c : SliceCell) :
    (s.set i j c).get i' j' = if i' = i ∧ j' = j then c else s.get i' j' := by
  simp only [get, set, Fin.getElem_fin, Vector.getElem_set, ← index_inj, ← Fin.ext_iff, eq_comm]

/-- Whether the slice has no face. -/
def isEmpty (s : Slice) : Bool := s.cells.all SliceCell.isEmpty

/-- The number of faces. -/
def size (s : Slice) : Nat := s.cells.countP fun c => !c.isEmpty

/-! ## 2. Visibility -/

/-- Whether the face of a block toward a neighbouring block can be seen.  The neighbour is decoded
first, the block itself only if the neighbour is translucent. -/
def showsFace (current neighbor : Block) : Except Fault Bool :=
  if neighbor.isAir then .ok true
  else
    match neighbor.isTranslucent with
    | .error f => .error f
    | .ok false => .ok false
    | .ok true => current.isLiquid.map (!·)

/-- The content of a place whose block is `current` and faces `across`. -/
def faceCell (current : Block) (across : Option Block) : Except Fault SliceCell :=
  if current.isAir then .ok .empty
  else
    match across with
    | none => .ok .empty
    | some neighbor =>
      match showsFace current neighbor with
      | .error f => .error f
      | .ok false => .ok .empty
      | .ok true => .ok ⟨current, neighbor.light⟩

/-- The visible faces of a layer of a snapshot.  Places are examined in the order of their
numbers and the first fault decides. -/
def ofSnapshot (s : Snapshot) (policy : Boundary) (side : Side) (layer : Fin 16) :
    Except Fault Slice :=
  let beyond := s.beyond policy side layer
  let cells := tabulate fun k : Fin 256 =>
    let i := column k
    let j := row k
    faceCell (s.chunk.get (Cell.ofFrame side.axis layer i j)) (beyond i j)
  cells.map fun cells => ⟨side, layer, cells⟩

end Slice

end Blockworld
