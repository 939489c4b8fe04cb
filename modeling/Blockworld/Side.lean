/-
# The three axes and the six sides of a cube

Every face in this library lies on one of six sides, and every side is an axis together with a
direction along it.  Two conventions are fixed here and used everywhere else:

* the axes are ordered cyclically, `x → y → z → x` (`Axis.next`), so a slice perpendicular to an
  axis `d` is addressed by the pair `(d.next, d.next.next)`, the same rule for all three axes;
* the sides are visited in the order `Side.all`: along `x`, then `y`, then `z`, the negative
  side before the positive one.  Meshes list their quads in that order.
-/

namespace Blockworld

/-! ## 1. Axes -/

/-- A coordinate axis. -/
inductive Axis where
  | x
  | y
  | z
  deriving DecidableEq, Repr

namespace Axis

/-- The number of an axis: `x` is 0, `y` is 1, `z` is 2. -/
def index : Axis → Nat
  | x => 0
  | y => 1
  | z => 2

/-- The axis that follows in the cycle `x → y → z → x`. -/
def next : Axis → Axis
  | x => y
  | y => z
  | z => x

/-- The axis numbered `n`, counting around the cycle. -/
def ofIndex (n : Nat) : Axis :=
  match n % 3 with
  | 0 => x
  | 1 => y
  | _ => z

@[simp] theorem next_next_next (a : Axis) : a.next.next.next = a := by cases a <;> rfl

@[simp] theorem ofIndex_index (a : Axis) : ofIndex a.index = a := by cases a <;> rfl

@[simp] theorem next_ne (a : Axis) : a.next ≠ a := by cases a <;> decide

@[simp] theorem next_next_ne (a : Axis) : a.next.next ≠ a := by cases a <;> decide

@[simp] theorem next_next_ne_next (a : Axis) : a.next.next ≠ a.next := by cases a <;> decide

/-- **An axis and its two successors exhaust the three.** -/
theorem eq_or_next (a b : Axis) : b = a ∨ b = a.next ∨ b = a.next.next := by
  cases a <;> cases b <;> decide

theorem index_next (a : Axis) : a.next.index = (a.index + 1) % 3 := by cases a <;> rfl

end Axis

/-! ## 2. Sides -/

/-- One of the six sides of a cube. -/
inductive Side where
  /-- Toward smaller `z`. -/
  | north
  /-- Toward larger `z`. -/
  | south
  /-- Toward larger `x`. -/
  | east
  /-- Toward smaller `x`. -/
  | west
  /-- Toward larger `y`. -/
  | up
  /-- Toward smaller `y`. -/
  | down
  deriving DecidableEq, Repr

namespace Side

/-- All six sides in visiting order. -/
def all : List Side := [west, east, down, up, north, south]

/-- The number of a side in its declared order. -/
def index : Side → Nat
  | north => 0
  | south => 1
  | east => 2
  | west => 3
  | up => 4
  | down => 5

/-- The axis a side is perpendicular to. -/
def axis : Side → Axis
  | east | west => .x
  | up | down => .y
  | north | south => .z

/-- Whether the side looks toward larger coordinates. -/
def isPositive : Side → Bool
  | south | east | up => true
  | north | west | down => false

/-- The unit step through the side, `1` or `-1`. -/
def sign (s : Side) : Int32 := if s.isPositive then 1 else -1

/-- The side that looks the other way. -/
def opposite : Side → Side
  | north => south
  | south => north
  | east => west
  | west => east
  | up => down
  | down => up

/-- The printed name of a side. -/
def name : Side → String
  | north => "NORTH"
  | south => "SOUTH"
  | east => "EAST"
  | west => "WEST"
  | up => "UP"
  | down => "DOWN"

theorem mem_all (s : Side) : s ∈ all := by cases s <;> decide

theorem nodup_all : all.Nodup := by decide

@[simp] theorem opposite_opposite (s : Side) : s.opposite.opposite = s := by cases s <;> rfl

@[simp] theorem axis_opposite (s : Side) : s.opposite.axis = s.axis := by cases s <;> rfl

@[simp] theorem isPositive_opposite (s : Side) : s.opposite.isPositive = !s.isPositive := by
  cases s <;> rfl

/-- **A side is its axis and its direction.** -/
theorem ext_axis {s t : Side} (ha : s.axis = t.axis) (hp : s.isPositive = t.isPositive) :
    s = t := by
  revert ha hp
  cases s <;> cases t <;> decide

end Side

/-- One value for each of the six sides. -/
structure PerSide (α : Type) where
  north : α
  south : α
  east : α
  west : α
  up : α
  down : α
  deriving Repr

namespace PerSide

variable {α : Type}

/-- The value kept for a side. -/
def get (p : PerSide α) : Side → α
  | .north => p.north
  | .south => p.south
  | .east => p.east
  | .west => p.west
  | .up => p.up
  | .down => p.down

/-- The table of a function of the side. -/
def ofFn (f : Side → α) : PerSide α :=
  ⟨f .north, f .south, f .east, f .west, f .up, f .down⟩

@[simp] theorem get_ofFn (f : Side → α) (s : Side) : (ofFn f).get s = f s := by cases s <;> rfl

theorem ext_get {p q : PerSide α} (h : ∀ s, p.get s = q.get s) : p = q := by
  cases p; cases q
  simp only [mk.injEq]
  exact ⟨h .north, h .south, h .east, h .west, h .up, h .down⟩

end PerSide

end Blockworld
