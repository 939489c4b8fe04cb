/-
# Known codes never fault

A block is KNOWN when its code names a material.  Meshing decodes codes only as far as it has to,
so it can meet an unknown code and fault; on known blocks it cannot.  This module says what the
functions of one cell do on known blocks:

* `Block.Known.exists_material`: decoding succeeds;
* `Slice.exists_showsFace`: the visibility rule has an answer;
* `Slice.exists_faceCell`: a place of a slice is filled, and `FaceShown` says when with a face.

The rule for which block a cell faces is stated a second time here, one cell at a time and without
slices (`Snapshot.faced`), and `Snapshot.beyond_eq_faced` proves that slices use it.  The step to
the next cell wraps around at the border (`Cell.across`), so that one formula gives the next cell
of the chunk and the facing cell of the neighbour.
-/
import Blockworld.Slice

namespace Blockworld

/-! ## 1. Blocks -/

namespace Material

/-- The codes below 8 name materials. -/
theorem exists_decode {code : UInt8} (h : code < 8) : ∃ m, decode code = .ok m := by
  have hn : code.toNat < 8 := h
  have hc : code = UInt8.ofNat code.toNat := by simp
  rw [hc]
  generalize code.toNat = n at hn
  match n with
  | 0 => exact ⟨air, rfl⟩
  | 1 => exact ⟨stone, rfl⟩
  | 2 => exact ⟨dirt, rfl⟩
  | 3 => exact ⟨grass, rfl⟩
  | 4 => exact ⟨wood, rfl⟩
  | 5 => exact ⟨sand, rfl⟩
  | 6 => exact ⟨glass, rfl⟩
  | 7 => exact ⟨water, rfl⟩
  | n + 8 => omega

/-- Only the code of a material decodes to it. -/
theorem eq_code_of_decode {code : UInt8} {m : Material} (h : decode code = .ok m) :
    code = m.code := by
  unfold decode ofCode? at h
  split at h
  · next heq =>
    cases h
    split at heq <;> first | (cases heq; rfl) | cases heq
  · cases h

theorem code_lt (m : Material) : m.code < 8 := by cases m <;> decide

end Material

namespace Block

theorem Known.exists_material {b : Block} (h : b.Known) : ∃ m, b.material = .ok m :=
  Material.exists_decode h

/-- The raw test for air agrees with the material. -/
theorem isAir_eq_of_material {b : Block} {m : Material} (h : b.material = .ok m) :
    b.isAir = m.isAir := by
  have hc : b.code = m.code := Material.eq_code_of_decode h
  unfold isAir
  rw [hc]
  cases m <;> rfl

theorem known_air : air.Known := by decide

theorem known_sky : sky.Known := by decide

theorem known_ofMaterial (m : Material) : (ofMaterial m).Known := m.code_lt

theorem known_ofLevels (m : Material) (level light : UInt8) : (ofLevels m level light).Known :=
  m.code_lt

/-- The block can be seen through the face toward the block `across`: it is no air, there is
something to look at, and the visibility rule says so. -/
def FaceShown (b : Block) (across : Option Block) : Prop :=
  b.isAir = false ∧ ∃ n, across = some n ∧ Slice.showsFace b n = .ok true

end Block

/-! ## 2. Faces of known blocks -/

namespace Slice

/-- The visibility rule has an answer for known blocks. -/
theorem exists_showsFace {b n : Block} (hb : b.Known) (hn : n.Known) :
    ∃ v, showsFace b n = .ok v := by
  obtain ⟨mb, hmb⟩ := hb.exists_material
  obtain ⟨mn, hmn⟩ := hn.exists_material
  unfold showsFace
  split
  · exact ⟨true, rfl⟩
  · simp only [Block.isTranslucent, Block.isLiquid, hmb, hmn, Except.map]
    cases mn.isTranslucent
    · exact ⟨false, rfl⟩
    · exact ⟨_, rfl⟩

/-- Between air and lit air the visibility rule makes no difference. -/
theorem showsFace_of_isAir {b n : Block} (h : n.isAir = true) : showsFace b n = .ok true :=
  if_pos h

/-- **A place of a slice is filled**, with the face of its block and the light of the block it
looks at if the face is shown, and else with nothing. -/
theorem exists_faceCell {b : Block} {across : Option Block} (hb : b.Known)
    (hacross : ∀ n, across = some n → n.Known) :
    ∃ c, faceCell b across = .ok c ∧ c.block.Known ∧ (c.isEmpty = false ↔ b.FaceShown across) ∧
      (c.isEmpty = false → c.block = b ∧ ∀ n, across = some n → c.light = n.light) := by
  unfold faceCell Block.FaceShown
  cases hair : b.isAir with
  | true =>
    refine ⟨.empty, rfl, Block.known_air, ?_, ?_⟩
    · simp [SliceCell.isEmpty, SliceCell.empty, Block.isAir, Block.air]
    · intro h
      exact absurd h (by decide)
  | false =>
    cases across with
    | none =>
      refine ⟨.empty, rfl, Block.known_air, ?_, ?_⟩
      · simp [SliceCell.isEmpty, SliceCell.empty, Block.isAir, Block.air]
      · intro h
        exact absurd h (by decide)
    | some n =>
      obtain ⟨v, hv⟩ := exists_showsFace hb (hacross n rfl)
      cases v with
      | false =>
        refine ⟨.empty, by simp [hv], Block.known_air, ?_, ?_⟩
        · simp [SliceCell.isEmpty, SliceCell.empty, Block.isAir, Block.air, hv]
        · intro h
          exact absurd h (by decide)
      | true =>
        refine ⟨⟨b, n.light⟩, by simp [hv], hb, ?_, ?_⟩
        · simp [SliceCell.isEmpty, hair, hv]
        · intro _
          refine ⟨rfl, ?_⟩
          rintro _ ⟨rfl⟩
          rfl

end Slice

/-! ## 3. The block a cell faces -/

/-- The cell one step further through a side; from the border, the cell of the same row on the
opposite border. -/
def Cell.across (c : Cell) (s : Side) : Cell :=
  .ofFrame s.axis (s.wrap (c.along s.axis)) (c.along s.axis.next) (c.along s.axis.next.next)

/-- The block a cell faces through a side: the next cell of the chunk, or from the border the
facing cell of the neighbour.  Where no neighbour is known it is open sky or nothing. -/
def Snapshot.faced (s : Snapshot) (policy : Boundary) (side : Side) (cell : Cell) :
    Option Block :=
  if cell.along side.axis = side.border then
    match s.neighbors.get side, policy with
    | some n, _ => some (n.get (cell.across side))
    | none, .exposed => some Block.sky
    | none, .hidden => none
  else some (s.chunk.get (cell.across side))

/-- **Slices look at the block each cell faces.** -/
theorem Snapshot.beyond_eq_faced (s : Snapshot) (policy : Boundary) (side : Side)
    (layer i j : Fin 16) :
    s.beyond policy side layer i j = s.faced policy side (.ofFrame side.axis layer i j) := by
  unfold beyond faced Cell.across
  rw [Side.step?_eq]
  simp only [Cell.along_ofFrame, Cell.along_ofFrame_next, Cell.along_ofFrame_next_next]
  by_cases h : layer = side.border
  · rw [if_pos h, if_pos h, h, Side.wrap_border]
    cases s.neighbors.get side with
    | some n => rfl
    | none => cases policy <;> rfl
  · rw [if_neg h, if_neg h]

/-! ## 4. Chunks and snapshots -/

/-- Every code in the chunk names a material. -/
def Chunk.Known (c : Chunk) : Prop := ∀ cell, (c.get cell).Known

theorem Chunk.known_filled {position : ChunkPos} {block : Block} (h : block.Known) :
    (filled position block).Known := by
  intro cell
  rw [get_filled]
  exact h

/-- Writing a known block keeps a chunk known. -/
theorem Chunk.Known.set {c c' : Chunk} {cell : Cell} {block : Block} (hc : c.Known)
    (hb : block.Known) (h : c.set cell block = .ok c') : c'.Known := by
  intro other
  rw [get_of_set h]
  split
  · exact hb
  · exact hc other

/-- A chunk made by the operations on chunks: empty, filled with a block, or written to. -/
inductive Chunk.Built : Chunk → Prop
  | empty (position : ChunkPos) : Built (Chunk.empty position)
  | filled (position : ChunkPos) (block : Block) : Built (Chunk.filled position block)
  | set {c c' : Chunk} {cell : Cell} {block : Block} :
      Built c → c.set cell block = .ok c' → Built c'

/-- **The mask and the count of a chunk that was built agree with its blocks.** -/
theorem Chunk.Built.coherent {c : Chunk} (h : c.Built) : c.Coherent := by
  induction h with
  | empty position => exact coherent_empty position
  | filled position block => exact coherent_filled position block
  | @set c c' cell block _ hset ih =>
    obtain ⟨c'', hc'', hcoherent⟩ := ih.set cell block
    rw [hset] at hc''
    cases hc''
    exact hcoherent

/-- A chunk that counts no solid cell is all air. -/
theorem Chunk.Coherent.isAir_of_isEmpty {c : Chunk} (hc : c.Coherent) (h : c.isEmpty = true)
    (cell : Cell) : (c.get cell).isAir = true := by
  have hzero : c.blocks.countP (fun b => !b.isAir) = 0 := by
    rw [← hc.solids_eq]
    simpa [isEmpty] using h
  simpa using Vector.countP_eq_zero.mp hzero (c.get cell) (Vector.getElem_mem _)

/-- What meshing relies on: the chunk's mask and count agree with its blocks, and every code in
the chunk and in the known neighbours names a material. -/
structure Snapshot.Sound (s : Snapshot) : Prop where
  coherent : s.chunk.Coherent
  known : s.chunk.Known
  neighbors : ∀ side n, s.neighbors.get side = some n → n.Known

/-- A cell faces a known block, if it faces one at all. -/
theorem Snapshot.Sound.faced_known {s : Snapshot} (hs : s.Sound) (policy : Boundary)
    (side : Side) (cell : Cell) (n : Block) (h : s.faced policy side cell = some n) :
    n.Known := by
  unfold faced at h
  split at h
  · split at h
    · next c hc =>
      cases h
      exact hs.neighbors side c hc _
    · cases h
      exact Block.known_sky
    · cases h
  · cases h
    exact hs.known _

end Blockworld
