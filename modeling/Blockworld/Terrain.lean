/-
# Terrain

A `Terrain` fills a chunk from its position alone, so a chunk that is dropped and made again comes
back the same.  The layered methods work on columns: a column has a surface height, the cells
below it are layered by depth (a top block, dirt, then stone, with caves of air where they are
carved), the cells from the surface up to the sea level are water, and the rest is lit air.

`Terrain.layered` takes the surface height and the cave predicate as functions of world positions.
Everything it computes from a position beside them is a sum or difference of 32-bit words, checked
in a fixed order: the corner of the chunk, then per column the two horizontal coordinates, then
per cell the height and, below the surface, the depth.
-/
import Blockworld.Chunk
import Blockworld.ChunkPos
import Blockworld.Noise

namespace Blockworld

namespace Terrain

/-! ## 1. The layering rule -/

/-- The surface of flat terrain and the mean surface of noisy terrain. -/
def baseHeight : Int32 := 24

/-- The number of dirt cells under the top one. -/
def soilDepth : Int32 := 3

/-- The material at a depth below the top cell of a column.  The top is sand when the surface is
not above the sea. -/
def stratum (seaLevel surface depth : Int32) : Material :=
  if depth = 0 then
    if surface ≤ seaLevel then .sand else .grass
  else if depth ≤ soilDepth then .dirt
  else .stone

/-- The block at height `wy` of the column at `wx`, `wz`. -/
def columnBlock (cave : Int32 → Int32 → Int32 → Bool) (seaLevel surface wx wy wz : Int32) :
    Except Fault Block :=
  if wy < surface then
    -- The surface is reduced before the height is taken away, and both steps are checked.
    match checkedSub surface 1 >>= fun top => checkedSub top wy with
    | .error f => .error f
    | .ok depth =>
      if soilDepth < depth && cave wx wy wz then .ok Block.air
      else .ok (Block.ofMaterial (stratum seaLevel surface depth))
  else if wy < seaLevel then
    .ok (Block.ofLevels .water fullLevel fullLight)
  else
    .ok Block.sky

/-- The word of a cell coordinate. -/
def offset (k : Fin 16) : Int32 := Int32.ofNat k.val

/-- The sixteen blocks of the column at the place `x`, `z` of a chunk with the given corner. -/
def column (surfaceAt : Int32 → Int32 → Int32) (cave : Int32 → Int32 → Int32 → Bool)
    (seaLevel : Int32) (origin : Point) (x z : Fin 16) : Except Fault (Vector Block 16) :=
  match checkedAdd origin.x (offset x) with
  | .error f => .error f
  | .ok wx =>
    match checkedAdd origin.z (offset z) with
    | .error f => .error f
    | .ok wz =>
      let surface := surfaceAt wx wz
      tabulate fun y : Fin 16 =>
        match checkedAdd origin.y (offset y) with
        | .error f => .error f
        | .ok wy => columnBlock cave seaLevel surface wx wy wz

/-! The columns of a chunk are numbered: the one at `x`, `z` has the number `x + 16 z`. -/

theorem columnX_lt (k : Fin 256) : k.val % 16 < 16 := by omega

theorem columnZ_lt (k : Fin 256) : k.val / 16 < 16 := by omega

/-- The chunk whose columns follow a surface height and a cave predicate. -/
def layered (surfaceAt : Int32 → Int32 → Int32) (cave : Int32 → Int32 → Int32 → Bool)
    (seaLevel : Int32) (position : ChunkPos) : Except Fault Chunk :=
  match position.origin with
  | .error f => .error f
  | .ok origin =>
    let place (k : Fin 256) : Fin 16 × Fin 16 := (⟨k % 16, columnX_lt k⟩, ⟨k / 16, columnZ_lt k⟩)
    match tabulate fun k : Fin 256 =>
        column surfaceAt cave seaLevel origin (place k).1 (place k).2 with
    | .error f => .error f
    | .ok columns => .ok <| Chunk.ofBlocks position <| .ofFn fun n =>
      let cell := Cell.ofIndex n
      (columns.get ⟨cell.x + 16 * cell.z, by have := cell.x.2; have := cell.z.2; omega⟩).get cell.y

/-- The chunk whose cells alternate between stone and air; the corner cell is stone. -/
def checkerboard (position : ChunkPos) : Chunk :=
  .ofBlocks position <| .ofFn fun n =>
    let cell := Cell.ofIndex n
    if (cell.x.val + cell.y.val + cell.z.val) % 2 = 0 then Block.ofMaterial .stone else Block.air

/-! ## 2. Noisy surfaces and caves -/

/-- The real number of a word, scaled. -/
private def scaled (a : Int32) (scale : Float) : Float := a.toFloat * scale

/-- The surface varies by up to twelve cells around the base height. -/
def noisySurface (noise : Noise) (wx wz : Int32) : Int32 :=
  baseHeight + (noise.sample (scaled wx 0.02) 0.0 (scaled wz 0.02) * 12.0).round.toInt32

/-- Caves lie where the noise is close to zero. -/
def noisyCave (noise : Noise) (wx wy wz : Int32) : Bool :=
  let value := noise.sample (scaled wx 0.06) (scaled wy 0.06) (scaled wz 0.06)
  decide (-0.06 ≤ value) && decide (value < 0.06)

/-! ## 3. Methods -/

/-- How chunks are filled. -/
inductive Method where
  /-- Noisy surfaces, caves and water. -/
  | perlin
  /-- A surface at the base height and no caves. -/
  | flat
  /-- Stone everywhere. -/
  | solid
  /-- Lit air everywhere. -/
  | empty
  /-- Stone and air alternating. -/
  | checkerboard
  deriving DecidableEq, Repr

/-- The names used in configuration. -/
def Method.name : Method → String
  | perlin => "perlin"
  | flat => "flat"
  | solid => "solid"
  | empty => "empty"
  | checkerboard => "checkerboard"

/-- Every method. -/
def Method.all : List Method := [perlin, flat, solid, empty, checkerboard]

end Terrain

/-- A way to fill chunks: a method, the sea level and the noise of a seed. -/
structure Terrain where
  method : Terrain.Method
  seaLevel : Int32
  noise : Noise

namespace Terrain

/-- The terrain of a method and a seed. -/
def ofSeed (method : Method) (seed : UInt32) (seaLevel : Int32) : Terrain :=
  ⟨method, seaLevel, Noise.ofSeed seed⟩

/-- The chunk at a position. -/
def generate (t : Terrain) (position : ChunkPos) : Except Fault Chunk :=
  match t.method with
  | .perlin => layered (noisySurface t.noise) (noisyCave t.noise) t.seaLevel position
  | .flat => layered (fun _ _ => baseHeight) (fun _ _ _ => false) t.seaLevel position
  | .solid => .ok (Chunk.filled position (Block.ofMaterial .stone))
  | .empty => .ok (Chunk.filled position Block.sky)
  | .checkerboard => .ok (checkerboard position)

end Terrain

end Blockworld
