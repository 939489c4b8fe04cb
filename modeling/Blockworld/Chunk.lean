/-
# Chunks

A chunk is a cube of 4096 blocks together with a mask of its solid (non-air) cells and their
number.  The mask and the count repeat what the blocks say, so that asking whether a chunk is empty
takes no scan; `Chunk.Coherent` states the agreement, and `empty`, `filled` and `set` keep it
(`Coherent.set`).  A write changes the reading of its own cell and of no other (`get_of_set`).

The record itself is plain: it does not carry the agreement, and `set` moves the count by one
according to the mask, with the decrement checked like any other subtraction of machine words.
-/
import Blockworld.Block
import Blockworld.Cell
import Blockworld.Tabulate

namespace Blockworld

/-- A cube of blocks. -/
structure Chunk where
  /-- Where the chunk is; fixed at creation. -/
  position : ChunkPos
  /-- The blocks, numbered as cells are. -/
  blocks : Vector Block 4096
  /-- The cells recorded as solid. -/
  mask : Vector Bool 4096
  /-- The number of cells recorded as solid. -/
  solids : Nat
  deriving DecidableEq

namespace Chunk

/-! ## 1. Making chunks -/

/-- Every cell holds the same block. -/
def filled (position : ChunkPos) (block : Block) : Chunk where
  position := position
  blocks := .replicate 4096 block
  mask := .replicate 4096 (!block.isAir)
  solids := if block.isAir then 0 else 4096

/-- Every cell is air. -/
def empty (position : ChunkPos) : Chunk := filled position Block.air

/-- The chunk with given blocks, its mask and count read off them. -/
def ofBlocks (position : ChunkPos) (blocks : Vector Block 4096) : Chunk where
  position := position
  blocks := blocks
  mask := blocks.map fun b => !b.isAir
  solids := blocks.countP fun b => !b.isAir

/-! ## 2. Reading -/

/-- The block at a cell. -/
def get (c : Chunk) (cell : Cell) : Block := c.blocks[cell.index]

/-- Whether a cell is recorded as solid. -/
def solidAt (c : Chunk) (cell : Cell) : Bool := c.mask[cell.index]

/-- Whether no cell is recorded as solid. -/
def isEmpty (c : Chunk) : Bool := c.solids == 0

/-- Whether every cell is recorded as solid. -/
def isFull (c : Chunk) : Bool := c.solids == 4096

/-- The number of cells of a material. -/
def count (c : Chunk) (m : Material) : Nat := c.blocks.countP fun b => b.code == m.code

/-! ## 3. Writing -/

/-- Records one cell more or one cell less as solid. -/
def recount (count : Nat) (before after : Bool) : Except Fault Nat :=
  match before, after with
  | false, true => .ok (count + 1)
  | true, false => if count = 0 then .error (.overflow .subtract) else .ok (count - 1)
  | _, _ => .ok count

/-- Replaces the block at a cell. -/
def set (c : Chunk) (cell : Cell) (block : Block) : Except Fault Chunk :=
  match recount c.solids (c.solidAt cell) (!block.isAir) with
  | .error f => .error f
  | .ok solids => .ok
    { c with
      blocks := c.blocks.set cell.index block
      mask := c.mask.set cell.index (!block.isAir)
      solids := solids }

/-! ## 4. Agreement of the mask and the count with the blocks -/

/-- The mask holds exactly the non-air cells and the count is their number. -/
structure Coherent (c : Chunk) : Prop where
  mask_eq : c.mask = c.blocks.map fun b => !b.isAir
  solids_eq : c.solids = c.blocks.countP fun b => !b.isAir

theorem coherent_ofBlocks (position : ChunkPos) (blocks : Vector Block 4096) :
    (ofBlocks position blocks).Coherent := ⟨rfl, rfl⟩

theorem coherent_filled (position : ChunkPos) (block : Block) :
    (filled position block).Coherent where
  mask_eq := by simp [filled]
  solids_eq := by
    cases h : block.isAir <;> simp [filled, h, Vector.countP_replicate]

theorem coherent_empty (position : ChunkPos) : (empty position).Coherent :=
  coherent_filled position Block.air

@[simp] theorem get_filled (position : ChunkPos) (block : Block) (cell : Cell) :
    (filled position block).get cell = block := by simp [get, filled]

@[simp] theorem get_ofBlocks (position : ChunkPos) (blocks : Vector Block 4096) (cell : Cell) :
    (ofBlocks position blocks).get cell = blocks[cell.index] := rfl

/-! ## 5. What a write does -/

/-- The recount of a cell: one more, one less or the same number. -/
theorem recount_eq_ok {count : Nat} {before after : Bool} (h : before = true → 0 < count) :
    recount count before after =
      .ok (count - (if before then 1 else 0) + (if after then 1 else 0)) := by
  cases before <;> cases after
  · rfl
  · rfl
  · have hc : count ≠ 0 := by have := h rfl; omega
    simp [recount, hc]
  · have hc : 1 ≤ count := h rfl
    simp [recount, Nat.sub_add_cancel hc]

/-- What a write that succeeds has done to the blocks and to the position. -/
theorem blocks_of_set {c c' : Chunk} {cell : Cell} {block : Block}
    (h : c.set cell block = .ok c') :
    c'.position = c.position ∧ c'.blocks = c.blocks.set cell.index block := by
  unfold set at h
  split at h
  · cases h
  · cases h
    exact ⟨rfl, rfl⟩

/-- **A write changes the reading of exactly its own cell.** -/
theorem get_of_set {c c' : Chunk} {cell : Cell} {block : Block}
    (h : c.set cell block = .ok c') (other : Cell) :
    c'.get other = if other = cell then block else c.get other := by
  unfold get
  rw [(blocks_of_set h).2]
  by_cases ho : other = cell
  · subst ho
    simp
  · have hi : cell.index.val ≠ other.index.val :=
      fun hi => ho (Cell.index_injective (Fin.ext hi.symm))
    simp [ho, hi]

/-- **Writing to a chunk whose mask and count agree with its blocks never faults**, and they agree
afterwards. -/
theorem Coherent.set {c : Chunk} (hc : c.Coherent) (cell : Cell) (block : Block) :
    ∃ c', c.set cell block = .ok c' ∧ c'.Coherent := by
  have hsolid : c.solidAt cell = !(c.get cell).isAir := by
    simp [solidAt, hc.mask_eq, get]
  have hcount : c.solidAt cell = true → 0 < c.solids := by
    intro hs
    rw [hc.solids_eq, Vector.countP_pos_iff]
    exact ⟨c.get cell, Vector.getElem_mem _, by simpa [hsolid] using hs⟩
  refine ⟨_, by rw [Chunk.set, recount_eq_ok hcount], ?_⟩
  constructor
  · simp [hc.mask_eq, Vector.map_set]
  · simp only [Vector.countP_set, hc.solids_eq, hsolid, get]
    rfl

end Chunk

end Blockworld
