/-
# Points with machine-word coordinates

A `Point` is a triple of 32-bit words: a position in the world, a corner of a quad, or a normal.
`Point.along` reads the coordinate on an axis and `Point.ofFrame` builds a point from its depth
along an axis and its two coordinates in the slice perpendicular to it; the two are inverse
(`along_ofFrame`, `ofFrame_along`), which is all that later modules use of the layout.
-/
import Blockworld.Side

namespace Blockworld

/-- Three 32-bit coordinates. -/
structure Point where
  x : Int32
  y : Int32
  z : Int32
  deriving DecidableEq, Repr, Inhabited

namespace Point

/-- The coordinate on an axis. -/
def along (p : Point) : Axis → Int32
  | .x => p.x
  | .y => p.y
  | .z => p.z

/-- The point with `depth` on the axis `d`, `u` on the next axis and `v` on the one after. -/
def ofFrame (d : Axis) (depth u v : Int32) : Point :=
  match d with
  | .x => ⟨depth, u, v⟩
  | .y => ⟨v, depth, u⟩
  | .z => ⟨u, v, depth⟩

@[simp] theorem along_ofFrame (d : Axis) (a u v : Int32) : (ofFrame d a u v).along d = a := by
  cases d <;> rfl

@[simp] theorem along_ofFrame_next (d : Axis) (a u v : Int32) :
    (ofFrame d a u v).along d.next = u := by cases d <;> rfl

@[simp] theorem along_ofFrame_next_next (d : Axis) (a u v : Int32) :
    (ofFrame d a u v).along d.next.next = v := by cases d <;> rfl

@[simp] theorem ofFrame_along (d : Axis) (p : Point) :
    ofFrame d (p.along d) (p.along d.next) (p.along d.next.next) = p := by cases d <;> rfl

theorem ext_along {p q : Point} (h : ∀ d, p.along d = q.along d) : p = q := by
  cases p; cases q
  simp only [mk.injEq]
  exact ⟨h .x, h .y, h .z⟩

end Point

/-- The unit normal of a side: its sign on its own axis and zero on the other two. -/
def Side.normal (s : Side) : Point := Point.ofFrame s.axis s.sign 0 0

end Blockworld
