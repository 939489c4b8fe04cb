/-
# Cells of a chunk

A `Cell` is one of the 16 × 16 × 16 places inside a chunk.  Its coordinates are below 16 by type,
so reading a chunk at a cell cannot fail; a triple of unbounded numbers becomes a cell through
`Cell.at?`, which is where an index out of range shows up.

Cells are numbered with `x` running fastest, then `y`, then `z`; `Cell.index` and `Cell.ofIndex`
are inverse bijections with the numbers below 4096.
-/
import Blockworld.Fault
import Blockworld.Point

namespace Blockworld

/-- The number of cells along an edge of a chunk. -/
def chunkSize : Nat := 16

/-- The number of cells in a slice of a chunk. -/
def sliceArea : Nat := chunkSize * chunkSize

/-- The number of cells in a chunk. -/
def chunkVolume : Nat := sliceArea * chunkSize

/-- A place inside a chunk. -/
structure Cell where
  x : Fin 16
  y : Fin 16
  z : Fin 16
  deriving DecidableEq, Repr, Inhabited

namespace Cell

/-! ## 1. Numbering -/

/-- The number of a cell: `x + 16 y + 256 z`. -/
def index (c : Cell) : Fin 4096 :=
  ⟨c.x + 16 * c.y + 256 * c.z, by have := c.x.2; have := c.y.2; have := c.z.2; omega⟩

/-- The cell with a given number. -/
def ofIndex (n : Fin 4096) : Cell :=
  ⟨⟨n % 16, by omega⟩, ⟨n / 16 % 16, by omega⟩, ⟨n / 256, by have := n.2; omega⟩⟩

@[simp] theorem ofIndex_index (c : Cell) : ofIndex c.index = c := by
  obtain ⟨⟨x, hx⟩, ⟨y, hy⟩, ⟨z, hz⟩⟩ := c
  simp only [ofIndex, index, mk.injEq, Fin.mk.injEq]
  omega

@[simp] theorem index_ofIndex (n : Fin 4096) : (ofIndex n).index = n := by
  apply Fin.ext
  simp only [ofIndex, index]
  omega

theorem index_injective {a b : Cell} (h : a.index = b.index) : a = b := by
  rw [← ofIndex_index a, ← ofIndex_index b, h]

/-- The cell with coordinates given as numbers; a fault unless all three are below 16. -/
def at? (x y z : Nat) : Except Fault Cell :=
  if h : x < 16 ∧ y < 16 ∧ z < 16 then
    .ok ⟨⟨x, h.1⟩, ⟨y, h.2.1⟩, ⟨z, h.2.2⟩⟩
  else
    .error (.cellOutOfRange x y z)

/-! ## 2. Axes -/

/-- The coordinate on an axis. -/
def along (c : Cell) : Axis → Fin 16
  | .x => c.x
  | .y => c.y
  | .z => c.z

/-- The cell at `depth` on the axis `d`, at `i` on the next axis and `j` on the one after. -/
def ofFrame (d : Axis) (depth i j : Fin 16) : Cell :=
  match d with
  | .x => ⟨depth, i, j⟩
  | .y => ⟨j, depth, i⟩
  | .z => ⟨i, j, depth⟩

@[simp] theorem along_ofFrame (d : Axis) (k i j : Fin 16) : (ofFrame d k i j).along d = k := by
  cases d <;> rfl

@[simp] theorem along_ofFrame_next (d : Axis) (k i j : Fin 16) :
    (ofFrame d k i j).along d.next = i := by cases d <;> rfl

@[simp] theorem along_ofFrame_next_next (d : Axis) (k i j : Fin 16) :
    (ofFrame d k i j).along d.next.next = j := by cases d <;> rfl

@[simp] theorem ofFrame_along (d : Axis) (c : Cell) :
    ofFrame d (c.along d) (c.along d.next) (c.along d.next.next) = c := by cases d <;> rfl

end Cell

/-! ## 3. Stepping through a side -/

/-- The coordinate of a border cell on the axis of a side: 15 if the side is positive, else 0. -/
def Side.border (s : Side) : Fin 16 := if s.isPositive then 15 else 0

/-- The coordinate one step further through a side, coming in again at the other end. -/
def Side.wrap (s : Side) (k : Fin 16) : Fin 16 := if s.isPositive then k + 1 else k - 1

/-- The coordinate one step further through the side, if it is still inside the chunk. -/
def Side.step? (s : Side) (k : Fin 16) : Option (Fin 16) :=
  if s.isPositive then
    if h : k.val + 1 < 16 then some ⟨k + 1, h⟩ else none
  else if k.val = 0 then none else some ⟨k - 1, by omega⟩

/-- The sides on whose border a cell lies, in visiting order. -/
def Cell.borders (cell : Cell) : List Side :=
  Side.all.filter fun s => cell.along s.axis == s.border

theorem Side.step?_eq (s : Side) (k : Fin 16) :
    s.step? k = if k = s.border then none else some (s.wrap k) := by
  cases s <;> revert k <;> decide

theorem Side.wrap_border (s : Side) : s.wrap s.border = s.opposite.border := by
  cases s <;> decide

/-- A step leaves the chunk exactly at the border of the side. -/
theorem Side.step?_eq_none_iff (s : Side) (k : Fin 16) : s.step? k = none ↔ k = s.border := by
  cases s <;> revert k <;> decide

end Blockworld
