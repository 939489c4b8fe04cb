/-
# Gradient noise

A smooth pseudo-random function of three real coordinates, determined by a 32-bit seed.  A seeded
shuffle of the bytes 0 to 255 (`Noise.table`) assigns each corner of the integer lattice one of
sixteen gradients; a sample blends the gradients of the eight corners around it.

The arithmetic is double precision in a fixed order of operations, so samples are reproducible
bit for bit.  The bits and the shuffle are exact integer computations.
-/

namespace Blockworld

/-! ## 1. Random words -/

/-- The state of an xorshift generator of 32-bit words. -/
structure Xorshift where
  x : UInt32
  y : UInt32
  z : UInt32
  w : UInt32
  deriving DecidableEq, Repr

namespace Xorshift

/-- The generator started from a seed.  Its first word is never zero, so the state never is. -/
def ofSeed (seed : UInt32) : Xorshift := ⟨1, seed, seed, seed⟩

/-- The next word and the following state. -/
def next (g : Xorshift) : UInt32 × Xorshift :=
  let t := g.x ^^^ (g.x <<< 11)
  let w := g.w ^^^ (g.w >>> 19) ^^^ (t ^^^ (t >>> 8))
  (w, ⟨g.y, g.z, g.w, w⟩)

/-- How often a draw is repeated at most.  Each repetition has a chance below one half, so the
bound is never met in practice. -/
def maxDraws : Nat := 256

/-- A word below `bound`, uniformly: a word is scaled to the upper half of a product, and drawn
again while the lower half lies in the incomplete last stretch, beyond `zone`. -/
def below (bound : UInt32) : Nat → Xorshift → UInt32 × Xorshift
  | 0, g =>
    let (w, g) := g.next
    (((w.toUInt64 * bound.toUInt64) >>> 32).toUInt32, g)
  | fuel + 1, g =>
    let zone := (bound <<< (31 - bound.log2)) - 1
    let (w, g) := g.next
    let product := w.toUInt64 * bound.toUInt64
    if product.toUInt32 ≤ zone then ((product >>> 32).toUInt32, g) else below bound fuel g

end Xorshift

/-! ## 2. The shuffled table -/

/-- A permutation of the bytes. -/
structure Noise where
  /-- The byte at each place. -/
  table : Vector UInt8 256

namespace Noise

/-- Exchanges place `i` with a random place at or below it, for `i` from `n` down to 1. -/
def shuffle : Nat → Xorshift → Vector UInt8 256 → Vector UInt8 256
  | 0, _, table => table
  | i + 1, g, table =>
    let (j, g) := Xorshift.below (UInt32.ofNat (i + 2)) Xorshift.maxDraws g
    let table :=
      if h : i + 1 < 256 ∧ j.toNat < 256 then table.swap (i + 1) j.toNat h.1 h.2 else table
    shuffle i g table

/-- The noise of a seed. -/
def ofSeed (seed : UInt32) : Noise :=
  ⟨shuffle 255 (Xorshift.ofSeed seed) (Vector.ofFn fun i => UInt8.ofNat i)⟩

/-- The table read at a byte. -/
def lookup (n : Noise) (b : UInt8) : UInt8 := n.table.get ⟨b.toNat, b.toNat_lt⟩

/-- The four-bit hash of a lattice corner, each coordinate taken modulo 256. -/
def hash (n : Noise) (x y z : UInt8) : UInt8 :=
  n.lookup (n.lookup (n.lookup x ^^^ y) ^^^ z) &&& 15

/-! ## 3. Blending -/

/-- The inner product of an offset with one of the sixteen gradients, each a signed sum of two
coordinates. -/
def gradient (h : UInt8) (x y z : Float) : Float :=
  match h with
  | 0 | 12 => x + y
  | 1 | 13 => -x + y
  | 2 => x - y
  | 3 => -x - y
  | 4 => x + z
  | 5 => -x + z
  | 6 => x - z
  | 7 => -x - z
  | 8 => y + z
  | 9 | 14 => -y + z
  | 10 => y - z
  | _ => -y - z

/-- The quintic fade of a weight clamped to the unit interval. -/
def fade (t : Float) : Float :=
  let t := if t < 0.0 then 0.0 else if t > 1.0 then 1.0 else t
  t * t * t * (t * (t * 6.0 - 15.0) + 10.0)

/-- The blend of two values by a weight. -/
def blend (a b t : Float) : Float := b * t + a * (1.0 - t)

/-- The lattice coordinate at or below a number; a number that is zero or negative counts from
one lower than its truncation. -/
def corner (p : Float) : Float :=
  let whole := if p < 0.0 then p.ceil else p.floor
  if p ≤ 0.0 then whole - 1.0 else whole

/-- The low eight bits of an integral number. -/
def lowByte (c : Float) : UInt8 := c.toInt64.toInt8.toUInt8

/-- The scale that brings the blend of the gradients to the unit interval. -/
def amplitude : Float := 1.1547005383792515

/-- The contribution of one corner of the lattice cube around a point.  The cube's lowest corner
has the low bytes `kx ky kz` and lies `dx dy dz` below the point; `i j k` say on which axes the
corner in question is one higher. -/
def contribution (n : Noise) (kx ky kz : UInt8) (dx dy dz : Float) (i j k : Bool) : Float :=
  gradient
    (n.hash (if i then kx + 1 else kx) (if j then ky + 1 else ky) (if k then kz + 1 else kz))
    (if i then dx - 1.0 else dx) (if j then dy - 1.0 else dy) (if k then dz - 1.0 else dz)

/-- A sample, between −1 and 1: the contributions of the eight corners, blended along `z`, then
along `y`, then along `x`. -/
def sample (n : Noise) (x y z : Float) : Float :=
  let cx := corner x
  let cy := corner y
  let cz := corner z
  let dx := x - cx
  let dy := y - cy
  let dz := z - cz
  let fx := fade dx
  let fy := fade dy
  let fz := fade dz
  let term := n.contribution (lowByte cx) (lowByte cy) (lowByte cz) dx dy dz
  let edge (i j : Bool) := blend (term i j false) (term i j true) fz
  let face (i : Bool) := blend (edge i false) (edge i true) fy
  let value := blend (face false) (face true) fx * amplitude
  if value < -1.0 then -1.0 else if value > 1.0 then 1.0 else value

end Noise

end Blockworld
