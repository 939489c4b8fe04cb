/-
# Generated chunks

Generating a chunk faults only by overflow (`OverflowOnly.generate`).  When it succeeds, the chunk
stands at the position it was asked for, its mask and its count agree with its blocks, and every
block is one of a few that the layering rule can choose, so its code is known
(`Terrain.generate_spec`).  Meshing relies on all of that.
-/
import Blockworld.Proofs.Columns
import Blockworld.Proofs.Overflow

namespace Blockworld

/-! ## 1. Faults -/

namespace OverflowOnly

theorem layered (surfaceAt : Int32 → Int32 → Int32) (cave : Int32 → Int32 → Int32 → Bool)
    (seaLevel : Int32) (position : ChunkPos) :
    OverflowOnly (Terrain.layered surfaceAt cave seaLevel position) := by
  intro f h
  rcases Terrain.overflow_of_layered_error h with ⟨rfl, -⟩ | ⟨-, ⟨rfl, -⟩ | ⟨rfl, -⟩⟩
  · exact ⟨.multiply, rfl⟩
  · exact ⟨.add, rfl⟩
  · exact ⟨.subtract, rfl⟩

/-- **Generating a chunk faults only by overflow.** -/
theorem generate (t : Terrain) (position : ChunkPos) : OverflowOnly (t.generate position) := by
  unfold Terrain.generate
  split
  · exact layered _ _ _ _
  · exact layered _ _ _ _
  · exact ok _
  · exact ok _
  · exact ok _

end OverflowOnly

/-! ## 2. What is generated -/

namespace Chunk

/-- What is asked of a generated chunk. -/
structure Fresh (position : ChunkPos) (c : Chunk) : Prop where
  position_eq : c.position = position
  coherent : c.Coherent
  known : c.Known

theorem fresh_filled (position : ChunkPos) {block : Block} (h : block.Known) :
    (filled position block).Fresh position where
  position_eq := rfl
  coherent := coherent_filled position block
  known := known_filled h

end Chunk

namespace Terrain

/-- The layering rule chooses known blocks. -/
theorem known_columnBlock {cave : Int32 → Int32 → Int32 → Bool}
    {seaLevel surface wx wy wz : Int32} {b : Block}
    (h : columnBlock cave seaLevel surface wx wy wz = .ok b) : b.Known := by
  unfold columnBlock at h
  split at h
  · split at h
    · cases h
    · split at h <;> cases h
      · exact Block.known_air
      · exact Block.known_ofMaterial _
  · split at h <;> cases h
    · exact Block.known_ofLevels _ _ _
    · exact Block.known_sky

theorem fresh_layered {surfaceAt : Int32 → Int32 → Int32} {cave : Int32 → Int32 → Int32 → Bool}
    {seaLevel : Int32} {position : ChunkPos} {c : Chunk}
    (h : layered surfaceAt cave seaLevel position = .ok c) : c.Fresh position := by
  have hknown : c.Known := by
    intro cell
    obtain ⟨p, -, hb⟩ := get_of_layered h cell
    exact known_columnBlock hb
  obtain ⟨o, blocks, -, -, rfl⟩ := layered_eq_ok_iff.mp h
  exact ⟨rfl, Chunk.coherent_ofBlocks _ _, hknown⟩

/-- A checkerboard alternates along every axis. -/
theorem get_checkerboard (position : ChunkPos) (cell : Cell) :
    (checkerboard position).get cell =
      if (cell.x.val + cell.y.val + cell.z.val) % 2 = 0 then Block.ofMaterial .stone
      else Block.air :=
  Chunk.get_ofBlocks_ofFn position (fun cell =>
    if (cell.x.val + cell.y.val + cell.z.val) % 2 = 0 then Block.ofMaterial .stone
    else Block.air) cell

theorem fresh_checkerboard (position : ChunkPos) : (checkerboard position).Fresh position where
  position_eq := rfl
  coherent := Chunk.coherent_ofBlocks position _
  known cell := by
    rw [get_checkerboard]
    split
    · exact Block.known_ofMaterial _
    · exact Block.known_air

/-- **A generated chunk is one that can be meshed**, at the position it was asked for. -/
theorem generate_spec {t : Terrain} {position : ChunkPos} {c : Chunk}
    (h : t.generate position = .ok c) : c.Fresh position := by
  unfold generate at h
  split at h
  · exact fresh_layered h
  · exact fresh_layered h
  · cases h
    exact Chunk.fresh_filled position (Block.known_ofMaterial _)
  · cases h
    exact Chunk.fresh_filled position Block.known_sky
  · cases h
    exact fresh_checkerboard position

end Terrain

end Blockworld
