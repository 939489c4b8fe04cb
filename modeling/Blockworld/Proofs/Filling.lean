/-
# Chunks are filled in place

A chunk starts empty, and its cells are written one after the other.  Each write moves the count of
solid cells, and what a cell holds is computed right before it is written, so that a fault comes up
with the chunk half done.  The loops (`Terrain.generateInPlace`) are proved to do what the tables of
`Terrain.generate` say:

* `Chunk.fill` computes and writes the cells of a list.  If nothing is wrong with the cells then
  nothing is wrong with the count (`Chunk.Coherent.exists_fill`), and otherwise the first cell at
  fault decides (`Chunk.Coherent.fill_eq_error`);
* `Terrain.layeredInPlace_eq`, `Terrain.checkerboardInPlace_eq`: the nested loops go through the
  cells in an order (`Cell.turns`, `Cell.rows`), and leave the chunk that has the table for its
  blocks.

So the loops fault where the tables do.  For flat terrain `Terrain.flat_domain` says exactly where
that is and what overflows there: a product if a horizontal coordinate is too large for the corner
of the chunk, a difference if the chunk lies too far below the surface, and a sum if it ends above
the greatest height.
-/
import Blockworld.Proofs.Limits
import Blockworld.Proofs.Solids

namespace Blockworld

/-! ## 1. Nested loops -/

/-- A loop over parts, each of which is a loop, goes through the elements of all parts. -/
theorem foldlM_flatMap {α β σ : Type} {f : σ → β → Except Fault σ} (g : α → List β) (l : List α)
    (s : σ) : (l.flatMap g).foldlM f s = l.foldlM (fun s a => (g a).foldlM f s) s := by
  induction l generalizing s with
  | nil => rfl
  | cons a rest ih =>
    rw [List.flatMap_cons, List.foldlM_append, List.foldlM_cons]
    exact congrArg _ (funext fun s => ih s)

/-- A loop all of whose steps fail alike fails like them. -/
theorem foldlM_finRange_eq_error {σ : Type} {n : Nat} {f : σ → Fin (n + 1) → Except Fault σ}
    {e : Fault} {s : σ} (h : ∀ s i, f s i = .error e) :
    (List.finRange (n + 1)).foldlM f s = .error e := by
  rw [List.finRange_succ, List.foldlM_cons, h]
  rfl

namespace Cell

/-- The cells of a chunk in the order in which layered terrain is made: columns within rows, and
from the bottom of each column to its top. -/
def turns : List Cell :=
  (List.finRange 16).flatMap fun z => (List.finRange 16).flatMap fun x =>
    (List.finRange 16).map fun y => ⟨x, y, z⟩

theorem mem_turns (cell : Cell) : cell ∈ turns := by
  simp only [turns, List.mem_flatMap, List.mem_map]
  exact ⟨cell.z, List.mem_finRange _, cell.x, List.mem_finRange _, cell.y, List.mem_finRange _, rfl⟩

/-- The cells of a chunk in the order in which a checkerboard is made: rows within slices. -/
def rows : List Cell :=
  (List.finRange 16).flatMap fun z => (List.finRange 16).flatMap fun y =>
    (List.finRange 16).map fun x => ⟨x, y, z⟩

theorem mem_rows (cell : Cell) : cell ∈ rows := by
  simp only [rows, List.mem_flatMap, List.mem_map]
  exact ⟨cell.z, List.mem_finRange _, cell.y, List.mem_finRange _, cell.x, List.mem_finRange _, rfl⟩

/-- Cells come in the order of their turns. -/
theorem pairwise_turns : turns.Pairwise (·.turn < ·.turn) := by
  have hlt := List.pairwise_lt_finRange 16
  unfold turns
  simp only [List.pairwise_flatMap, List.pairwise_map, List.mem_flatMap, List.mem_map]
  refine ⟨fun z _ => ⟨fun x _ => hlt.imp fun {y y'} h => ?_, hlt.imp fun {x x'} h => ?_⟩,
    hlt.imp fun {z z'} h => ?_⟩
  · have h : y.val < y'.val := h
    simp only [turn]
    omega
  · have h : x.val < x'.val := h
    rintro _ ⟨y, -, rfl⟩ _ ⟨y', -, rfl⟩
    simp only [turn]
    omega
  · have h : z.val < z'.val := h
    rintro _ ⟨x, -, y, -, rfl⟩ _ ⟨x', -, y', -, rfl⟩
    simp only [turn]
    omega

end Cell

/-! ## 2. Filling a chunk -/

namespace Chunk

variable {c c' : Chunk} {f : Cell → Except Fault Block} {blocks : Cell → Block}

/-- Chunks that agree with their blocks are told apart by what their cells read. -/
theorem Coherent.ext (hc : c.Coherent) (hc' : c'.Coherent) (hposition : c.position = c'.position)
    (hget : ∀ cell, c.get cell = c'.get cell) : c = c' := by
  have hblocks : c.blocks = c'.blocks := by
    refine Vector.ext fun n hn => ?_
    have h := hget (.ofIndex ⟨n, hn⟩)
    simpa [get] using h
  have hmask : c.mask = c'.mask := by rw [hc.mask_eq, hc'.mask_eq, hblocks]
  have hsolids : c.solids = c'.solids := by rw [hc.solids_eq, hc'.solids_eq, hblocks]
  cases c
  cases c'
  simp only [mk.injEq]
  exact ⟨hposition, hblocks, hmask, hsolids⟩

theorem position_of_setAll {writes : List (Cell × Block)} (h : c.setAll writes = .ok c') :
    c'.position = c.position := by
  induction writes generalizing c with
  | nil =>
    cases h
    rfl
  | cons write rest ih =>
    obtain ⟨next, hset, hrest⟩ := bind_eq_ok_iff.mp h
    exact (ih hrest).trans (blocks_of_set hset).1

/-- What is written to each cell once or more often, but always the same, is there in the end. -/
theorem lastWritten_map (blocks : Cell → Block) (start : Block) (cell : Cell) (cells : List Cell) :
    lastWritten start cell (cells.map fun other => (other, blocks other)) =
      if cell ∈ cells then blocks cell else start := by
  induction cells generalizing start with
  | nil => rfl
  | cons other rest ih =>
    have hstep := ih (if cell = other then blocks other else start)
    simp only [lastWritten, List.map_cons, List.foldl_cons] at hstep ⊢
    rw [hstep]
    by_cases hcell : cell = other
    · subst hcell
      simp
    · simp [hcell]

/-- Where a loop writes to some cells only, and always the same, it is the list of these writes. -/
theorem foldlM_ite_set (test : Cell → Bool) (block : Block) (cells : List Cell) :
    cells.foldlM (fun c cell => if test cell then c.set cell block else .ok c) c =
      c.setAll ((cells.filter test).map fun cell => (cell, block)) := by
  induction cells generalizing c with
  | nil => rfl
  | cons cell rest ih =>
    rw [List.foldlM_cons]
    cases htest : test cell with
    | true =>
      rw [List.filter_cons_of_pos htest, List.map_cons, setAll, if_pos rfl]
      exact congrArg _ (funext fun c => ih)
    | false =>
      rw [List.filter_cons_of_neg (by rw [htest]; exact Bool.false_ne_true),
        if_neg Bool.false_ne_true]
      exact ih

/-- Computes and writes a block. -/
def put (f : Cell → Except Fault Block) (c : Chunk) (cell : Cell) : Except Fault Chunk := do
  let block ← f cell
  c.set cell block

/-- Computes and writes the blocks of some cells, one after the other. -/
def fill (f : Cell → Except Fault Block) (cells : List Cell) (c : Chunk) : Except Fault Chunk :=
  cells.foldlM (put f) c

/-- Where all cells are computed, filling is writing. -/
theorem fill_eq_setAll {cells : List Cell} (h : ∀ cell ∈ cells, f cell = .ok (blocks cell)) :
    c.fill f cells = c.setAll (cells.map fun cell => (cell, blocks cell)) := by
  induction cells generalizing c with
  | nil => rfl
  | cons cell rest ih =>
    have hput : put f c cell = c.set cell (blocks cell) := by
      rw [put, h cell List.mem_cons_self]
      rfl
    rw [fill, List.foldlM_cons, hput, List.map_cons, setAll]
    have hrest : ∀ other ∈ rest, f other = .ok (blocks other) :=
      fun other hother => h other (List.mem_cons_of_mem _ hother)
    exact congrArg _ (funext fun c => ih hrest)

/-- **Where nothing is wrong with the cells, nothing is wrong with the count.**  A chunk that agrees
with its blocks is filled, and agrees with its blocks again. -/
theorem Coherent.exists_fill (hc : c.Coherent) {cells : List Cell}
    (h : ∀ cell ∈ cells, f cell = .ok (blocks cell)) :
    ∃ c', c.fill f cells = .ok c' ∧ c'.Coherent ∧ c'.position = c.position ∧
      ∀ cell, c'.get cell = if cell ∈ cells then blocks cell else c.get cell := by
  rw [fill_eq_setAll h]
  obtain ⟨c', hset, hc'⟩ := hc.setAll (cells.map fun cell => (cell, blocks cell))
  refine ⟨c', hset, hc', position_of_setAll hset, fun cell => ?_⟩
  rw [get_of_setAll hset, lastWritten_map]

/-- **The first cell at fault decides.**  The cells before it have been written by then. -/
theorem Coherent.fill_eq_error (hc : c.Coherent) {before after : List Cell} {cell : Cell}
    {fault : Fault} (hbefore : ∀ other ∈ before, ∃ b, f other = .ok b)
    (hcell : f cell = .error fault) :
    c.fill f (before ++ cell :: after) = .error fault := by
  induction before generalizing c with
  | nil => exact bind_eq_error_iff.mpr (.inl (bind_eq_error_iff.mpr (.inl hcell)))
  | cons other rest ih =>
    obtain ⟨b, hb⟩ := hbefore other List.mem_cons_self
    obtain ⟨next, hset, hnext⟩ := hc.set other b
    refine bind_eq_error_iff.mpr (.inr ⟨next, bind_eq_ok_iff.mpr ⟨b, hb, hset⟩, ?_⟩)
    exact ih hnext fun other hother => hbefore other (List.mem_cons_of_mem _ hother)

end Chunk

namespace Terrain

variable {surfaceAt : Int32 → Int32 → Int32} {cave : Int32 → Int32 → Int32 → Bool}
  {seaLevel : Int32} {position : ChunkPos}

/-! ## 3. Layered chunks -/

/-- Writes the cells of one column from the bottom to the top. -/
def columnInPlace (surfaceAt : Int32 → Int32 → Int32) (cave : Int32 → Int32 → Int32 → Bool)
    (seaLevel : Int32) (origin : Point) (x z : Fin 16) (c : Chunk) : Except Fault Chunk := do
  let wx ← checkedAdd origin.x (offset x)
  let wz ← checkedAdd origin.z (offset z)
  let surface := surfaceAt wx wz
  (List.finRange 16).foldlM (fun c y => do
    let wy ← checkedAdd origin.y (offset y)
    let block ← columnBlock cave seaLevel surface wx wy wz
    c.set ⟨x, y, z⟩ block) c

/-- Fills an empty chunk column by column. -/
def layeredInPlace (surfaceAt : Int32 → Int32 → Int32) (cave : Int32 → Int32 → Int32 → Bool)
    (seaLevel : Int32) (position : ChunkPos) : Except Fault Chunk := do
  let origin ← position.origin
  (List.finRange 16).foldlM (fun c z =>
    (List.finRange 16).foldlM (fun c x =>
      columnInPlace surfaceAt cave seaLevel origin x z c) c) (.empty position)

/-- A column is filled with the blocks of its cells.  As with tables, it makes no difference to the
first fault that the horizontal coordinates are computed once. -/
theorem columnInPlace_eq (origin : Point) (x z : Fin 16) (c : Chunk) :
    columnInPlace surfaceAt cave seaLevel origin x z c =
      c.fill (cellBlock surfaceAt cave seaLevel origin)
        ((List.finRange 16).map fun y => ⟨x, y, z⟩) := by
  rw [Chunk.fill, List.foldlM_map]
  unfold columnInPlace
  dsimp only [Chunk.put, cellBlock]
  cases checkedAdd origin.x (offset x) with
  | error f => exact (foldlM_finRange_eq_error fun _ _ => rfl).symm
  | ok wx =>
    cases checkedAdd origin.z (offset z) with
    | error f => exact (foldlM_finRange_eq_error fun _ _ => rfl).symm
    | ok wz =>
      change List.foldlM _ c _ = List.foldlM _ c _
      congr 1
      funext c y
      cases checkedAdd origin.y (offset y) <;> rfl

/-- The loops of a layered chunk go through its cells in their order. -/
theorem layeredInPlace_eq_fill :
    layeredInPlace surfaceAt cave seaLevel position = position.origin >>= fun origin =>
      Chunk.fill (cellBlock surfaceAt cave seaLevel origin) Cell.turns (.empty position) := by
  unfold layeredInPlace
  simp only [columnInPlace_eq, Chunk.fill, Cell.turns, foldlM_flatMap]

/-- **Filling a chunk column by column makes the chunk that has the table for its blocks**, and
meets the fault that the table has. -/
theorem layeredInPlace_eq :
    layeredInPlace surfaceAt cave seaLevel position = layered surfaceAt cave seaLevel position := by
  have hempty := Chunk.coherent_empty position
  rw [layeredInPlace_eq_fill]
  cases h : layered surfaceAt cave seaLevel position with
  | ok chunk =>
    obtain ⟨o, blocks, ho, hblocks, rfl⟩ := layered_eq_ok_iff.mp h
    have hturns : ∀ cell ∈ Cell.turns,
        cellBlock surfaceAt cave seaLevel o cell = .ok (blocks cell) := fun cell _ => hblocks cell
    obtain ⟨filled, hfill, hcoherent, hposition, hget⟩ := hempty.exists_fill hturns
    refine bind_eq_ok_iff.mpr ⟨o, ho, hfill.trans (congrArg _ ?_)⟩
    refine hcoherent.ext (Chunk.coherent_ofBlocks _ _) hposition fun cell => ?_
    rw [hget, if_pos cell.mem_turns, Chunk.get_ofBlocks_ofFn]
  | error f =>
    rcases layered_eq_error_iff.mp h with ho | ⟨o, ho, cell, hcell, hbefore⟩
    · exact bind_eq_error_iff.mpr (.inl ho)
    · obtain ⟨before, after, hturns⟩ := List.append_of_mem cell.mem_turns
      refine bind_eq_error_iff.mpr (.inr ⟨o, ho, ?_⟩)
      have hsorted := Cell.pairwise_turns
      rw [hturns] at hsorted ⊢
      refine hempty.fill_eq_error (fun other hother => hbefore other ?_) hcell
      exact (List.pairwise_append.mp hsorted).2.2 other hother cell List.mem_cons_self

/-! ## 4. Checkerboards and the methods -/

/-- Writes the stones of a checkerboard into an empty chunk. -/
def checkerboardInPlace (position : ChunkPos) : Except Fault Chunk :=
  (List.finRange 16).foldlM (fun c z =>
    (List.finRange 16).foldlM (fun c y =>
      (List.finRange 16).foldlM (fun c x =>
        if (x.val + y.val + z.val) % 2 = 0 then c.set ⟨x, y, z⟩ (Block.ofMaterial .stone)
        else .ok c) c) c) (.empty position)

/-- The cells of a checkerboard that hold a stone. -/
def isStone (cell : Cell) : Bool := (cell.x.val + cell.y.val + cell.z.val) % 2 = 0

/-- The loops of a checkerboard write its stones. -/
theorem checkerboardInPlace_eq_setAll : checkerboardInPlace position =
    (Chunk.empty position).setAll
      ((Cell.rows.filter isStone).map fun cell => (cell, Block.ofMaterial .stone)) := by
  rw [← Chunk.foldlM_ite_set]
  simp only [checkerboardInPlace, Cell.rows, isStone, foldlM_flatMap, List.foldlM_map,
    decide_eq_true_eq]

/-- **Writing the stones of a checkerboard makes the chunk that has the table for its blocks.** -/
theorem checkerboardInPlace_eq : checkerboardInPlace position = .ok (checkerboard position) := by
  obtain ⟨filled, hset, hcoherent⟩ := (Chunk.coherent_empty position).setAll
    ((Cell.rows.filter isStone).map fun cell => (cell, Block.ofMaterial .stone))
  have hposition : filled.position = position := Chunk.position_of_setAll hset
  have hfresh := fresh_checkerboard position
  have hfilled : filled = checkerboard position := by
    refine hcoherent.ext hfresh.coherent (hposition.trans hfresh.position_eq.symm) fun cell => ?_
    rw [Chunk.get_of_setAll hset, Chunk.lastWritten_map fun _ => Block.ofMaterial .stone,
      get_checkerboard]
    simp [Cell.mem_rows, isStone, Chunk.empty]
  rw [checkerboardInPlace_eq_setAll, hset, hfilled]

/-- The chunk at a position, filled in place. -/
def generateInPlace (t : Terrain) (position : ChunkPos) : Except Fault Chunk :=
  match t.method with
  | .perlin => layeredInPlace (noisySurface t.noise) (noisyCave t.noise) t.seaLevel position
  | .flat => layeredInPlace (fun _ _ => baseHeight) (fun _ _ _ => false) t.seaLevel position
  | .solid => .ok (Chunk.filled position (Block.ofMaterial .stone))
  | .empty => .ok (Chunk.filled position Block.sky)
  | .checkerboard => checkerboardInPlace position

/-- **Filling chunks in place makes the chunks of the tables**, by every method. -/
theorem generateInPlace_eq (t : Terrain) (position : ChunkPos) :
    t.generateInPlace position = t.generate position := by
  unfold generateInPlace generate
  cases t.method with
  | perlin => exact layeredInPlace_eq
  | flat => exact layeredInPlace_eq
  | solid => rfl
  | empty => rfl
  | checkerboard => exact checkerboardInPlace_eq

/-! ## 5. Where flat terrain overflows -/

/-- The horizontal coordinates of the chunk are small enough for a corner. -/
def HasCorner (position : ChunkPos) : Prop :=
  (-0x8000000 ≤ position.x.toInt ∧ position.x.toInt < 0x8000000) ∧
    -0x8000000 ≤ position.z.toInt ∧ position.z.toInt < 0x8000000

theorem exists_origin_iff_hasCorner : (∃ o, position.origin = .ok o) ↔ HasCorner position := by
  rw [ChunkPos.exists_origin_iff]
  unfold InRange32 HasCorner
  omega

/-- The three ways in which a flat chunk overflows, and where each of them is met. -/
theorem cause_of_flat_error {f : Fault}
    (h : layered (fun _ _ => baseHeight) cave seaLevel position = .error f) :
    (f = .overflow .multiply ∧ ¬HasCorner position) ∨ HasCorner position ∧
      (f = .overflow .subtract ∧ position.y.toInt < -2147483624 ∨
        f = .overflow .add ∧ 2147483632 < position.y.toInt) := by
  have hbase : baseHeight.toInt = 24 := rfl
  rw [← exists_origin_iff_hasCorner]
  rcases overflow_of_layered_error h with
    hnone | ⟨hsome, ⟨hadd, cell, d, hd⟩ | ⟨hsubtract, p, cell, hp, hdepth⟩⟩
  · exact .inl hnone
  · -- with a corner, only the height can be out of range, and only upward
    refine .inr ⟨hsome, .inr ⟨hadd, ?_⟩⟩
    have hcorner := exists_origin_iff_hasCorner.mp hsome
    have hheight := inRange32_toInt position.y
    obtain ⟨⟨x, hcx⟩, ⟨y, hcy⟩, ⟨z, hcz⟩⟩ := cell
    unfold InRange32 HasCorner at *
    cases d <;> simp only [ChunkPos.coordinate] at hd <;> omega
  · refine .inr ⟨hsome, .inl ⟨hsubtract, ?_⟩⟩
    rw [hbase, (Point.marks_iff.mp hp).2.1] at hdepth
    omega

/-- A flat chunk overflows in the first of these ways that applies to its position. -/
theorem flat_eq_error_iff {f : Fault} :
    layered (fun _ _ => baseHeight) cave seaLevel position = .error f ↔
      (f = .overflow .multiply ∧ ¬HasCorner position) ∨ HasCorner position ∧
        (f = .overflow .subtract ∧ position.y.toInt < -2147483624 ∨
          f = .overflow .add ∧ 2147483632 < position.y.toInt) := by
  constructor
  · exact cause_of_flat_error
  · intro hcause
    cases h : layered (fun _ _ => baseHeight) cave seaLevel position with
    | ok chunk =>
      have hdomain := exists_flat_iff.mp ⟨chunk, h⟩
      unfold HasCorner at hcause
      omega
    | error f' =>
      have hcause' := cause_of_flat_error h
      rw [Except.error.injEq]
      rcases hcause with ⟨rfl, hout⟩ | ⟨hin, ⟨rfl, hlow⟩ | ⟨rfl, hhigh⟩⟩ <;>
        rcases hcause' with ⟨rfl, hout'⟩ | ⟨hin', ⟨rfl, hlow'⟩ | ⟨rfl, hhigh'⟩⟩ <;>
        first | rfl | exact absurd hin hout' | exact absurd hin' hout | omega

/-- **Where flat terrain is made, exactly.**  The chunk is made in a box of positions.  Outside, a
product overflows if the chunk has no corner, and else a difference below the box and a sum above
it.  The methods that compute no coordinates make every chunk.  All that holds of the loops that
fill the chunks in place, since they do what the tables say. -/
theorem flat_domain (seed : UInt32) (seaLevel : Int32) (position : ChunkPos) :
    ((∃ chunk, (ofSeed .flat seed seaLevel).generate position = .ok chunk) ↔
      (-0x8000000 ≤ position.x.toInt ∧ position.x.toInt < 0x8000000) ∧
      (-2147483624 ≤ position.y.toInt ∧ position.y.toInt ≤ 2147483632) ∧
      -0x8000000 ≤ position.z.toInt ∧ position.z.toInt < 0x8000000) ∧
    ((ofSeed .flat seed seaLevel).generate position = .error (.overflow .multiply) ↔
      ¬HasCorner position) ∧
    ((ofSeed .flat seed seaLevel).generate position = .error (.overflow .subtract) ↔
      HasCorner position ∧ position.y.toInt < -2147483624) ∧
    ((ofSeed .flat seed seaLevel).generate position = .error (.overflow .add) ↔
      HasCorner position ∧ 2147483632 < position.y.toInt) ∧
    (∃ chunk, (ofSeed .solid seed seaLevel).generate position = .ok chunk) ∧
    (∃ chunk, (ofSeed .empty seed seaLevel).generate position = .ok chunk) ∧
    (∃ chunk, (ofSeed .checkerboard seed seaLevel).generate position = .ok chunk) ∧
    ∀ method, (ofSeed method seed seaLevel).generateInPlace position =
      (ofSeed method seed seaLevel).generate position := by
  exact ⟨exists_flat_iff, flat_eq_error_iff.trans (by simp), flat_eq_error_iff.trans (by simp),
    flat_eq_error_iff.trans (by simp), ⟨_, rfl⟩, ⟨_, rfl⟩, ⟨_, rfl⟩,
    fun method => generateInPlace_eq _ _⟩

end Terrain

end Blockworld
