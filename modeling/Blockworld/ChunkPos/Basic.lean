/-
# Chunk positions

A `ChunkPos` names a cube of 16 × 16 × 16 cells.  Along `x` and `z` it counts cubes; along `y` it
is the height of the cube's floor in cells, so that a well-formed position has a multiple of 16
there (`ChunkPos.Aligned`).  The type itself admits any height, because positions also arrive
from configuration and messages.

The order is lexicographic in `x`, `y`, `z`.  It is a lawful order whose only equal pairs are
equal positions, which is what the search trees keyed by positions need.
-/

namespace Blockworld

/-- The position of a chunk. -/
structure ChunkPos where
  /-- Chunk index along `x`. -/
  x : Int32
  /-- Height of the chunk's floor in cells. -/
  y : Int32
  /-- Chunk index along `z`. -/
  z : Int32
  deriving DecidableEq, Repr, Inhabited

namespace ChunkPos

/-- The position whose three components are zero. -/
def zero : ChunkPos := ⟨0, 0, 0⟩

/-- The floor height is a multiple of the chunk size. -/
def Aligned (c : ChunkPos) : Prop := c.y.toInt % 16 = 0

instance (c : ChunkPos) : Decidable c.Aligned := inferInstanceAs (Decidable (_ = _))

/-- The text `(x, y, z)`. -/
def text (c : ChunkPos) : String :=
  s!"({c.x.toInt}, {c.y.toInt}, {c.z.toInt})"

/-! ## 1. The order -/

instance : Ord ChunkPos where
  compare a b := ((compare a.x b.x).then (compare a.y b.y)).then (compare a.z b.z)

theorem compare_def (a b : ChunkPos) :
    compare a b = ((compare a.x b.x).then (compare a.y b.y)).then (compare a.z b.z) := rfl

instance : Std.TransOrd ChunkPos :=
  inferInstanceAs (Std.TransCmp
    (compareLex (compareLex (compareOn x) (compareOn y)) (compareOn z)))

instance : Std.LawfulEqOrd ChunkPos where
  eq_of_compare {a b} h := by
    simp only [compare_def, Ordering.then_eq_eq] at h
    obtain ⟨⟨hx, hy⟩, hz⟩ := h
    cases a; cases b
    simp only [mk.injEq]
    exact ⟨Std.LawfulEqOrd.eq_of_compare hx, Std.LawfulEqOrd.eq_of_compare hy,
      Std.LawfulEqOrd.eq_of_compare hz⟩

/-- Whether the first position comes no later than the second. -/
def le (a b : ChunkPos) : Bool := (compare a b).isLE

end ChunkPos

end Blockworld
