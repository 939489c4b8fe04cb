/-
# Materials and blocks

A block is two bytes: the code of its material and its metadata, a liquid level in the high nibble
and a light level in the low one.  The code is kept raw, because a stored chunk can hold a code
that names no material; `Block.material` decodes it and faults on such a code.  Whether a block is
air is read off the raw code and so never faults.
-/
import Blockworld.Fault

namespace Blockworld

/-! ## 1. Materials -/

/-- What a cell is made of. -/
inductive Material where
  | air
  | stone
  | dirt
  | grass
  | wood
  | sand
  | glass
  | water
  deriving DecidableEq, Repr, Inhabited

namespace Material

/-- Every material but air, in code order. -/
def solids : List Material := [stone, dirt, grass, wood, sand, glass, water]

/-- Every material, in code order. -/
def all : List Material := air :: solids

/-- The byte that stands for a material. -/
def code : Material → UInt8
  | air => 0
  | stone => 1
  | dirt => 2
  | grass => 3
  | wood => 4
  | sand => 5
  | glass => 6
  | water => 7

/-- The material a byte stands for. -/
def ofCode? (code : UInt8) : Option Material :=
  match code with
  | 0 => some air
  | 1 => some stone
  | 2 => some dirt
  | 3 => some grass
  | 4 => some wood
  | 5 => some sand
  | 6 => some glass
  | 7 => some water
  | _ => none

/-- The material a byte stands for; a fault if there is none. -/
def decode (code : UInt8) : Except Fault Material :=
  match ofCode? code with
  | some m => .ok m
  | none => .error (.unknownBlockCode code)

/-- The printed name of a material. -/
def name : Material → String
  | air => "AIR"
  | stone => "STONE"
  | dirt => "DIRT"
  | grass => "GRASS"
  | wood => "WOOD"
  | sand => "SAND"
  | glass => "GLASS"
  | water => "WATER"

/-- Air occupies no space and never has a face. -/
def isAir (m : Material) : Bool := m == air

/-- Glass and water can be seen through.  Air is no translucent material. -/
def isTranslucent : Material → Bool
  | glass | water => true
  | _ => false

/-- Water is the only liquid. -/
def isLiquid (m : Material) : Bool := m == water

/-- Faces of one material may be merged unless it is a liquid, whose surface height varies from
cell to cell. -/
def canMerge (m : Material) : Bool := !m.isLiquid

@[simp] theorem ofCode?_code (m : Material) : ofCode? m.code = some m := by cases m <;> rfl

@[simp] theorem decode_code (m : Material) : decode m.code = .ok m := by cases m <;> rfl

theorem code_injective {a b : Material} (h : a.code = b.code) : a = b := by
  revert h
  cases a <;> cases b <;> decide

end Material

/-! ## 2. Blocks -/

/-- The largest light level. -/
def fullLight : UInt8 := 15

/-- The largest liquid level. -/
def fullLevel : UInt8 := 15

/-- The content of one cell. -/
structure Block where
  /-- The raw material code. -/
  code : UInt8
  /-- Liquid level (high nibble) and light (low nibble). -/
  metadata : UInt8
  deriving DecidableEq, Repr, Inhabited

namespace Block

/-- The empty, unlit cell. -/
def air : Block := ⟨0, 0⟩

/-- A block of a material with zero metadata. -/
def ofMaterial (m : Material) : Block := ⟨m.code, 0⟩

/-- A block with a liquid level and a light level, each cut to four bits. -/
def ofLevels (m : Material) (level light : UInt8) : Block :=
  ⟨m.code, ((level &&& 15) <<< 4) ||| (light &&& 15)⟩

/-- The material of a block; a fault if the code names none. -/
def material (b : Block) : Except Fault Material := Material.decode b.code

/-- Whether the cell is empty. -/
def isAir (b : Block) : Bool := b.code == 0

/-- Whether the material can be seen through. -/
def isTranslucent (b : Block) : Except Fault Bool := b.material.map Material.isTranslucent

/-- Whether the material is a liquid. -/
def isLiquid (b : Block) : Except Fault Bool := b.material.map Material.isLiquid

/-- The four-bit liquid level. -/
def level (b : Block) : UInt8 := b.metadata >>> 4

/-- The four-bit light level. -/
def light (b : Block) : UInt8 := b.metadata &&& 15

/-- The same block with another light level. -/
def relit (b : Block) (light : UInt8) : Block :=
  { b with metadata := (b.metadata &&& 240) ||| (light &&& 15) }

/-- Air at full light, the content of the open sky. -/
def sky : Block := air.relit fullLight

/-- The code of the block names a material. -/
def Known (b : Block) : Prop := b.code < 8

instance (b : Block) : Decidable b.Known := inferInstanceAs (Decidable (_ < _))

@[simp] theorem material_ofMaterial (m : Material) : (ofMaterial m).material = .ok m :=
  Material.decode_code m

/-! ## 3. The two nibbles of the metadata -/

/-- Two bytes are equal if their eight bits are. -/
private theorem byte_ext {a b : UInt8}
    (h : ∀ i ∈ List.range 8, a.toBitVec.getLsbD i = b.toBitVec.getLsbD i) : a = b :=
  UInt8.toBitVec_inj.1 (BitVec.eq_of_getLsbD_eq fun i hi => h i (List.mem_range.2 hi))

/-- Levels are kept up to their lowest four bits. -/
@[simp] theorem level_ofLevels (m : Material) (level light : UInt8) :
    (ofLevels m level light).level = level &&& 15 :=
  byte_ext (by simp [ofLevels, Block.level, List.range, List.range.loop])

@[simp] theorem light_ofLevels (m : Material) (level light : UInt8) :
    (ofLevels m level light).light = light &&& 15 :=
  byte_ext (by simp [ofLevels, Block.light, List.range, List.range.loop])

/-- **Another light leaves the liquid level alone.** -/
@[simp] theorem level_relit (b : Block) (light : UInt8) : (b.relit light).level = b.level :=
  byte_ext (by simp [relit, level, List.range, List.range.loop])

@[simp] theorem light_relit (b : Block) (light : UInt8) : (b.relit light).light = light &&& 15 :=
  byte_ext (by simp [relit, Block.light, List.range, List.range.loop])

end Block

end Blockworld
