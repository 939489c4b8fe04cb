/-
# The mask and the count of a chunk stay exact

A chunk repeats in its mask which cells are solid and in its count how many, and a write moves both
by at most one step.  This module says that no history of writes makes them drift
(`Chunk.setAll_exact`):

* a chunk that was coherent takes every list of writes, so the count is never taken below zero, and
  is coherent again (`Chunk.Coherent.setAll`);
* each cell then holds the block last written to it (`Chunk.get_of_setAll`);
* in a coherent chunk the mask, the count and the two tests that rest on the count say of the blocks
  what a scan over all cells says (`Chunk.Coherent.exact`).

A scan is `Chunk.countCells`, which looks at every cell once.  Solid cells are those of the seven
solid materials together with those whose code names no material (`Block.tally`): an unknown code is
not air.
-/
import Mathlib.Data.List.FinRange
import Blockworld.Proofs.Known

namespace Blockworld

/-! ## 1. Scans over all cells -/

/-- Every cell, in the order of the numbers. -/
def Cell.all : List Cell := (List.finRange 4096).map Cell.ofIndex

theorem Cell.mem_all (cell : Cell) : cell ∈ all :=
  List.mem_map.mpr ⟨cell.index, List.mem_finRange _, ofIndex_index cell⟩

theorem Cell.length_all : all.length = 4096 := by simp [all]

namespace Chunk

/-- The number of cells whose block passes a test. -/
def countCells (c : Chunk) (test : Block → Bool) : Nat :=
  Cell.all.countP fun cell => test (c.get cell)

/-- The blocks of a chunk are what its cells read. -/
theorem toList_blocks (c : Chunk) : c.blocks.toList = Cell.all.map c.get := by
  have hget : c.get ∘ Cell.ofIndex = fun k => c.blocks[k] := by
    funext k
    simp [get]
  have hblocks : c.blocks = Vector.ofFn fun k => c.blocks[k] := by
    ext k hk
    simp
  rw [Cell.all, List.map_map, hget, ← List.ofFn_eq_map, ← Vector.toList_ofFn, ← hblocks]

theorem countP_blocks (c : Chunk) (test : Block → Bool) :
    c.blocks.countP test = c.countCells test := by
  rw [← Vector.countP_toList, toList_blocks, List.countP_map]
  rfl

/-- No cell passes a test that is counted zero times, and the other way round. -/
theorem countCells_eq_zero_iff {c : Chunk} {test : Block → Bool} :
    c.countCells test = 0 ↔ ∀ cell, test (c.get cell) = false := by
  simp [countCells, Cell.mem_all]

/-- Every cell passes a test that is counted 4096 times, and the other way round. -/
theorem countCells_eq_volume_iff {c : Chunk} {test : Block → Bool} :
    c.countCells test = 4096 ↔ ∀ cell, test (c.get cell) = true := by
  rw [countCells, ← Cell.length_all, List.countP_eq_length]
  simp [Cell.mem_all]

end Chunk

/-! ## 2. What is solid -/

/-- **A block that is not air is of one solid material, or its code names none.** -/
theorem Block.tally (b : Block) :
    (Material.solids.map fun m => if (b.code == m.code) = true then 1 else 0).foldl (· + ·) 0 +
      (if (!decide b.Known) = true then 1 else 0) = if (!b.isAir) = true then 1 else 0 := by
  by_cases hknown : b.Known
  · obtain ⟨m, hm⟩ := hknown.exists_material
    obtain ⟨code, metadata⟩ := b
    obtain rfl : code = m.code := Material.eq_code_of_decode hm
    cases m <;> rfl
  · have hne : ∀ m : Material, (b.code == m.code) = false := by
      intro m
      rw [beq_eq_false_iff_ne]
      intro hcode
      exact hknown (show b.code < 8 by rw [hcode]; exact m.code_lt)
    have hair : b.isAir = false := hne .air
    simp [hne, hknown, hair, Material.solids]

/-- The solid blocks of a list, counted by material. -/
theorem Block.countP_solid (bs : List Block) :
    (Material.solids.map fun m => bs.countP fun b => b.code == m.code).foldl (· + ·) 0 +
      bs.countP (fun b => !decide b.Known) = bs.countP fun b => !b.isAir := by
  induction bs with
  | nil => rfl
  | cons b rest ih =>
    have hb := b.tally
    simp only [Material.solids, List.map_cons, List.map_nil, List.foldl_cons, List.foldl_nil,
      List.countP_cons] at hb ih ⊢
    omega

namespace Chunk

/-! ## 3. Histories of writes -/

/-- Writes blocks to cells, one after the other. -/
def setAll (c : Chunk) : List (Cell × Block) → Except Fault Chunk
  | [] => .ok c
  | (cell, block) :: rest => do
    let c ← c.set cell block
    c.setAll rest

/-- The block last written to a cell, or the one that it began with. -/
def lastWritten (start : Block) (cell : Cell) (writes : List (Cell × Block)) : Block :=
  writes.foldl (fun block write => if cell = write.1 then write.2 else block) start

/-- **Every list of writes goes through**, and leaves the mask and the count in agreement with the
blocks. -/
theorem Coherent.setAll {c : Chunk} (hc : c.Coherent) (writes : List (Cell × Block)) :
    ∃ c', c.setAll writes = .ok c' ∧ c'.Coherent := by
  induction writes generalizing c with
  | nil => exact ⟨c, rfl, hc⟩
  | cons write rest ih =>
    obtain ⟨c', hset, hc'⟩ := hc.set write.1 write.2
    obtain ⟨c'', hrest, hc''⟩ := ih hc'
    exact ⟨c'', bind_eq_ok_iff.mpr ⟨c', hset, hrest⟩, hc''⟩

/-- **Each cell holds the block last written to it.** -/
theorem get_of_setAll {c c' : Chunk} {writes : List (Cell × Block)}
    (h : c.setAll writes = .ok c') (cell : Cell) :
    c'.get cell = lastWritten (c.get cell) cell writes := by
  induction writes generalizing c with
  | nil =>
    cases h
    rfl
  | cons write rest ih =>
    obtain ⟨next, hset, hrest⟩ := bind_eq_ok_iff.mp h
    rw [ih hrest, get_of_set hset]
    rfl

/-! ## 4. Exact chunks -/

/-- The mask, the count and all that rests on them agree with what the cells read, and a write goes
through and changes the reading of its own cell only. -/
structure Exact (c : Chunk) : Prop where
  solidAt : ∀ cell, c.solidAt cell = !(c.get cell).isAir
  solids : c.solids = c.countCells fun b => !b.isAir
  isEmpty : c.isEmpty = true ↔ ∀ cell, (c.get cell).isAir = true
  isFull : c.isFull = true ↔ ∀ cell, (c.get cell).isAir = false
  counts : (Material.solids.map c.count).foldl (· + ·) 0 +
    c.countCells (fun b => !decide b.Known) = c.solids
  set : ∀ cell block, ∃ c', c.set cell block = .ok c' ∧
    ∀ other, c'.get other = if other = cell then block else c.get other

/-- **What agrees with the blocks says what a scan says.** -/
theorem Coherent.exact {c : Chunk} (hc : c.Coherent) : c.Exact := by
  have hsolids : c.solids = c.countCells fun b => !b.isAir :=
    hc.solids_eq.trans (c.countP_blocks _)
  constructor
  · intro cell
    simp [Chunk.solidAt, hc.mask_eq, get]
  · exact hsolids
  · rw [Chunk.isEmpty, beq_iff_eq, hsolids, countCells_eq_zero_iff]
    simp
  · rw [Chunk.isFull, beq_iff_eq, hsolids, countCells_eq_volume_iff]
    simp
  · unfold count
    rw [hc.solids_eq, ← c.countP_blocks]
    simp only [← Vector.countP_toList]
    exact Block.countP_solid _
  · intro cell block
    obtain ⟨c', hset, -⟩ := hc.set cell block
    exact ⟨c', hset, get_of_set hset⟩

/-- **No history of writes makes the mask or the count of a chunk drift.**  A chunk that starts
empty or filled with any block takes every list of writes; it then holds in each cell the block last
written there, and its mask and count are exact. -/
theorem setAll_exact (position : ChunkPos) (block : Block) (writes : List (Cell × Block)) :
    (∃ c, (empty position).setAll writes = .ok c ∧ c.Exact ∧
      ∀ cell, c.get cell = lastWritten Block.air cell writes) ∧
    ∃ c, (filled position block).setAll writes = .ok c ∧ c.Exact ∧
      ∀ cell, c.get cell = lastWritten block cell writes := by
  have hfilled : ∀ start, ∃ c, (filled position start).setAll writes = .ok c ∧ c.Exact ∧
      ∀ cell, c.get cell = lastWritten start cell writes := by
    intro start
    obtain ⟨c, hset, hc⟩ := (coherent_filled position start).setAll writes
    refine ⟨c, hset, hc.exact, fun cell => ?_⟩
    rw [get_of_setAll hset, get_filled]
  exact ⟨hfilled Block.air, hfilled block⟩

end Chunk

end Blockworld
