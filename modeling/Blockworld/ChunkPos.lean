/-
# Locating positions, neighbours and distances

The chunk that owns a point of the world is found by floor division and the place inside it by
the remainder; both are total, because a quotient of a 32-bit word by 16 fits again
(`locate_floor`).  Going back, `origin` scales by 16 and therefore is checked, as is the step to
a neighbour.

Distances are counted in chunks on every axis, with the height brought to chunk units by
`layer`.  `squaredDistance` saturates at the largest 64-bit word and `chebyshev` at the
largest 32-bit word.
-/
import Blockworld.Cell
import Blockworld.Checked

namespace Blockworld

namespace ChunkPos

/-! ## 1. Checked construction -/

/-- The position, provided its height is a chunk floor. -/
def aligned? (x y z : Int32) : Except Fault ChunkPos :=
  if Aligned ⟨x, y, z⟩ then .ok ⟨x, y, z⟩ else .error (.unalignedFloor y)

/-! ## 2. Points of the world -/

/-- The chunk that owns a point. -/
def owner (p : Point) : ChunkPos :=
  ⟨Int32.ofInt (p.x.toInt / 16), Int32.ofInt (p.y.toInt / 16 * 16), Int32.ofInt (p.z.toInt / 16)⟩

/-- The remainder of a coordinate by the chunk size. -/
def remainder (a : Int32) : Fin 16 :=
  ⟨(a.toInt % 16).toNat, by
    have := Int.emod_lt_of_pos a.toInt (show (0 : Int) < 16 by decide)
    omega⟩

/-- The place of a point inside the chunk that owns it. -/
def place (p : Point) : Cell := ⟨remainder p.x, remainder p.y, remainder p.z⟩

/-- The owner's floor height is the point's height rounded down to a multiple of 16; no
coordinate of the owner leaves the range of its word. -/
theorem owner_toInt (p : Point) :
    (owner p).x.toInt = p.x.toInt / 16 ∧ (owner p).y.toInt = p.y.toInt / 16 * 16 ∧
      (owner p).z.toInt = p.z.toInt / 16 := by
  have hx := inRange32_toInt p.x
  have hy := inRange32_toInt p.y
  have hz := inRange32_toInt p.z
  unfold InRange32 at hx hy hz
  refine ⟨toInt_ofInt32 ?_, toInt_ofInt32 ?_, toInt_ofInt32 ?_⟩ <;>
    (unfold InRange32; omega)

theorem owner_aligned (p : Point) : (owner p).Aligned := by
  unfold Aligned
  rw [(owner_toInt p).2.1]
  omega

/-- The corner of the chunk with the smallest coordinates. -/
def origin (c : ChunkPos) : Except Fault Point := do
  let x ← checkedMul c.x 16
  let z ← checkedMul c.z 16
  return ⟨x, c.y, z⟩

/-- The height of the floor in chunks. -/
def layer (c : ChunkPos) : Int32 := Int32.ofInt (c.y.toInt / 16)

theorem toInt_layer (c : ChunkPos) : c.layer.toInt = c.y.toInt / 16 := by
  have hy := inRange32_toInt c.y
  unfold InRange32 at hy
  exact toInt_ofInt32 (by unfold InRange32; omega)

/-- The adjacent chunk through a side.  The height moves by 16 and the indices by one. -/
def neighbor (c : ChunkPos) (s : Side) : Except Fault ChunkPos := do
  let x ← checkedAdd c.x s.normal.x
  let rise ← checkedMul s.normal.y 16
  let y ← checkedAdd c.y rise
  let z ← checkedAdd c.z s.normal.z
  return ⟨x, y, z⟩

/-! ## 3. Distances -/

/-- The differences of two positions in chunks, as 64-bit words. -/
private def delta64 (a b : Int32) : Int64 := a.toInt64 - b.toInt64

/-- The squared Euclidean distance in chunks, at most the largest 64-bit word.  The squares of
the horizontal differences and the sums saturate; the vertical square always fits. -/
def squaredDistance (a b : ChunkPos) : Int64 :=
  let dx := delta64 a.x b.x
  let dy := delta64 a.layer b.layer
  let dz := delta64 a.z b.z
  saturatingAdd (saturatingAdd (saturatingMul dx dx) (dy * dy)) (saturatingMul dz dz)

/-- The squared distance with a check on each difference and on the vertical square. -/
def squaredDistance? (a b : ChunkPos) : Except Fault Int64 := do
  let dx ← checkedSub64 a.x.toInt64 b.x.toInt64
  let dy ← checkedSub64 a.layer.toInt64 b.layer.toInt64
  let dz ← checkedSub64 a.z.toInt64 b.z.toInt64
  let square ← checkedMul64 dy dy
  return saturatingAdd (saturatingAdd (saturatingMul dx dx) square) (saturatingMul dz dz)

/-- The largest difference on an axis in chunks, at most the largest 32-bit word. -/
def chebyshev (a b : ChunkPos) : Int32 :=
  let dx := (a.x.toInt - b.x.toInt).natAbs
  let dy := (a.layer.toInt - b.layer.toInt).natAbs
  let dz := (a.z.toInt - b.z.toInt).natAbs
  Int32.ofIntClamp (max (max dx dy) dz : Nat)

/-- The largest difference with a check on each difference and each magnitude. -/
def chebyshev? (a b : ChunkPos) : Except Fault Int32 := do
  let dx ← checkedSub64 a.x.toInt64 b.x.toInt64 >>= checkedAbs64
  let dy ← checkedSub64 a.layer.toInt64 b.layer.toInt64 >>= checkedAbs64
  let dz ← checkedSub64 a.z.toInt64 b.z.toInt64 >>= checkedAbs64
  return Int32.ofIntClamp (max (max dx.toInt dy.toInt) dz.toInt)

/-! ## 4. Fingerprints -/

/-- A reproducible 64-bit key of a position: each component, as an unsigned word, is mixed in by
exclusive or and a multiplication modulo 2 ^ 64. -/
def fingerprint (c : ChunkPos) : UInt64 :=
  [c.x, c.y, c.z].foldl (fun key a => (key ^^^ a.toUInt32.toUInt64) * 0x100000001b3)
    0xcbf29ce484222325

end ChunkPos

end Blockworld
