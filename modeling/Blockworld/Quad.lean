/-
# Quads and their packed form

A quad is a flat rectangle in chunk coordinates with the material, light and metadata to draw it
with.  Its two corners agree on the axis of its normal.

`Quad.pack` is the 39-byte record handed to a renderer: the material code, the nine words of the
corners and the normal with the least significant byte first, the light and the metadata, without
any padding.
-/
import Blockworld.Block
import Blockworld.Checked
import Blockworld.Point

namespace Blockworld

/-- A rectangle in chunk coordinates. -/
structure Quad where
  material : Material
  corner1 : Point
  corner2 : Point
  normal : Point
  light : UInt8
  metadata : UInt8
  deriving DecidableEq, Repr

namespace Quad

/-- Whether the quad is drawn in the translucent pass. -/
def isTranslucent (q : Quad) : Bool := q.material.isTranslucent

/-- The number of axes on which the corners agree.  The extents are computed on every axis and
checked, first along `x`. -/
def sharedAxes (q : Quad) : Except Fault Nat := do
  let dx ← checkedSub q.corner2.x q.corner1.x
  let dy ← checkedSub q.corner2.y q.corner1.y
  let dz ← checkedSub q.corner2.z q.corner1.z
  return [dx, dy, dz].count 0

/-- The number of bytes of a packed quad. -/
def packedSize : Nat := 39

/-- The four bytes of a word, least significant first. -/
def wordBytes (a : Int32) : List UInt8 :=
  let w := a.toUInt32
  [w.toUInt8, (w >>> 8).toUInt8, (w >>> 16).toUInt8, (w >>> 24).toUInt8]

/-- The twelve bytes of a point. -/
def pointBytes (p : Point) : List UInt8 := wordBytes p.x ++ wordBytes p.y ++ wordBytes p.z

/-- The packed quad. -/
def pack (q : Quad) : List UInt8 :=
  q.material.code :: (pointBytes q.corner1 ++ pointBytes q.corner2 ++ pointBytes q.normal ++
    [q.light, q.metadata])

/-- The packed quads one after the other. -/
def packAll (qs : List Quad) : List UInt8 := qs.flatMap pack

@[simp] theorem length_pointBytes (p : Point) : (pointBytes p).length = 12 := rfl

/-- **Every packed quad has 39 bytes.** -/
theorem length_pack (q : Quad) : q.pack.length = packedSize := rfl

end Quad

end Blockworld
