/-
# Layered chunks, cell by cell

A layered chunk is computed in columns: the corner of the chunk first, then for each column its two
horizontal coordinates and its surface, then for each cell of it the height and the block.  What a
cell comes out as depends on the corner and on the cell only (`Terrain.cellBlock`), and a chunk is
made exactly if all of its cells are:

* `Terrain.layered_eq_ok_iff`: the chunk holds in each cell what the rule gives there;
* `Terrain.layered_eq_error_iff`: or else it fails with the fault of the first cell that does, in
  the order of columns and heights (`Cell.turn`);
* `Terrain.cellBlock_eq_ok_iff`: the rule is the layering rule at the point where the cell stands
  (`ChunkPos.coordinate`), so that the chunk itself does not enter;
* `Terrain.exists_layered_iff`: all cells are made exactly if there are words for the coordinates
  and for the depths below the surface (`Terrain.Fits`);
* `Terrain.overflow_of_layered_error`: otherwise the operation that overflows tells where.
-/
import Blockworld.Terrain

namespace Blockworld

/-- A table all of whose entries fail alike fails like them. -/
theorem tabulate_eq_error_of_forall {α : Type} {n : Nat} {f : Fin (n + 1) → Except Fault α}
    {e : Fault} (h : ∀ i, f i = .error e) : tabulate f = .error e :=
  tabulate_eq_error_iff.mpr ⟨0, h 0, fun _ hj => absurd hj (Fin.not_lt_zero _)⟩

/-- A chunk made of a table of blocks by cells holds in each cell the block of the table. -/
theorem Chunk.get_ofBlocks_ofFn (position : ChunkPos) (blocks : Cell → Block) (cell : Cell) :
    (ofBlocks position (.ofFn fun n => blocks (.ofIndex n))).get cell = blocks cell := by
  rw [get_ofBlocks, Fin.getElem_fin, Vector.getElem_ofFn]
  exact congrArg blocks (Cell.ofIndex_index cell)

/-! ## 1. Where a cell stands -/

/-- The corner of a chunk, where there is one. -/
theorem ChunkPos.origin_eq_ok_iff {position : ChunkPos} {o : Point} :
    position.origin = .ok o ↔ o.x.toInt = position.x.toInt * 16 ∧ o.y = position.y ∧
      o.z.toInt = position.z.toInt * 16 := by
  have hsixteen : (16 : Int32).toInt = 16 := rfl
  simp only [origin, bind_eq_ok_iff, checkedMul, fit32_eq_ok_iff, hsixteen]
  constructor
  · rintro ⟨x, hx, z, hz, ⟨⟩⟩
    exact ⟨hx, rfl, hz⟩
  · rintro ⟨hx, hy, hz⟩
    refine ⟨o.x, hx, o.z, hz, ?_⟩
    rw [← hy]
    rfl

/-- A chunk has a corner if there are words for its horizontal coordinates. -/
theorem ChunkPos.exists_origin_iff {position : ChunkPos} : (∃ o, position.origin = .ok o) ↔
    InRange32 (position.x.toInt * 16) ∧ InRange32 (position.z.toInt * 16) := by
  constructor
  · rintro ⟨o, ho⟩
    obtain ⟨hx, -, hz⟩ := origin_eq_ok_iff.mp ho
    rw [← hx, ← hz]
    exact ⟨inRange32_toInt _, inRange32_toInt _⟩
  · rintro ⟨hx, hz⟩
    exact ⟨⟨.ofInt (position.x.toInt * 16), position.y, .ofInt (position.z.toInt * 16)⟩,
      origin_eq_ok_iff.mpr ⟨toInt_ofInt32 hx, rfl, toInt_ofInt32 hz⟩⟩

/-- The coordinates in the world of a cell of a chunk, as exact numbers. -/
def ChunkPos.coordinate (position : ChunkPos) (cell : Cell) : Axis → Int
  | .x => position.x.toInt * 16 + cell.x.val
  | .y => position.y.toInt + cell.y.val
  | .z => position.z.toInt * 16 + cell.z.val

/-- The cell of the chunk stands at the point. -/
def Point.Marks (p : Point) (position : ChunkPos) (cell : Cell) : Prop :=
  ∀ d, (p.along d).toInt = position.coordinate cell d

namespace Point

variable {p q : Point} {position : ChunkPos} {cell : Cell}

theorem marks_iff : p.Marks position cell ↔ p.x.toInt = position.x.toInt * 16 + cell.x.val ∧
    p.y.toInt = position.y.toInt + cell.y.val ∧ p.z.toInt = position.z.toInt * 16 + cell.z.val :=
  ⟨fun h => ⟨h .x, h .y, h .z⟩, fun ⟨hx, hy, hz⟩ d => by cases d <;> assumption⟩

/-- A cell stands at one point. -/
theorem Marks.unique (hp : p.Marks position cell) (hq : q.Marks position cell) : p = q :=
  ext_along fun d => Int32.toInt_inj.mp ((hp d).trans (hq d).symm)

/-- A cell stands at a point if there are words for its coordinates. -/
theorem exists_marks_iff :
    (∃ p : Point, p.Marks position cell) ↔ ∀ d, InRange32 (position.coordinate cell d) := by
  constructor
  · rintro ⟨p, hp⟩ d
    rw [← hp d]
    exact inRange32_toInt _
  · intro h
    exact ⟨⟨.ofInt (position.coordinate cell .x), .ofInt (position.coordinate cell .y),
      .ofInt (position.coordinate cell .z)⟩, fun d => by cases d <;> exact toInt_ofInt32 (h _)⟩

end Point

/-- When the cells of a chunk are made: `z` is counted in the outermost loop and `y` in the
innermost one. -/
def Cell.turn (cell : Cell) : Nat := cell.y + 16 * (cell.x + 16 * cell.z)

namespace Terrain

variable {surfaceAt : Int32 → Int32 → Int32} {cave : Int32 → Int32 → Int32 → Bool}
  {seaLevel surface : Int32} {position : ChunkPos} {origin : Point} {cell : Cell}

theorem toInt_offset (k : Fin 16) : (offset k).toInt = k.val :=
  Int32.toInt_ofNat_of_lt (Nat.lt_trans k.2 (by decide))

/-! ## 2. From columns to cells -/

/-- The block of one cell of a chunk with the given corner: its coordinates, each of them checked,
and the layering rule there. -/
def cellBlock (surfaceAt : Int32 → Int32 → Int32) (cave : Int32 → Int32 → Int32 → Bool)
    (seaLevel : Int32) (origin : Point) (cell : Cell) : Except Fault Block := do
  let wx ← checkedAdd origin.x (offset cell.x)
  let wz ← checkedAdd origin.z (offset cell.z)
  let wy ← checkedAdd origin.y (offset cell.y)
  columnBlock cave seaLevel (surfaceAt wx wz) wx wy wz

/-- A column is the table of its cells.  Its horizontal coordinates are computed once and not at
every cell, which makes no difference to the first fault. -/
theorem column_eq (x z : Fin 16) :
    column surfaceAt cave seaLevel origin x z =
      tabulate fun y => cellBlock surfaceAt cave seaLevel origin ⟨x, y, z⟩ := by
  unfold column
  dsimp only [cellBlock]
  cases checkedAdd origin.x (offset x) with
  | error f => exact (tabulate_eq_error_of_forall fun _ => rfl).symm
  | ok wx =>
    cases checkedAdd origin.z (offset z) with
    | error f => exact (tabulate_eq_error_of_forall fun _ => rfl).symm
    | ok wz =>
      refine congrArg tabulate (funext fun y => ?_)
      cases checkedAdd origin.y (offset y) <;> rfl

/-- The cell at a height of a numbered column. -/
def columnCell (k : Fin 256) (y : Fin 16) : Cell :=
  ⟨⟨k % 16, columnX_lt k⟩, y, ⟨k / 16, columnZ_lt k⟩⟩

/-- The number of the column of a cell. -/
def columnNumber (cell : Cell) : Fin 256 :=
  ⟨cell.x + 16 * cell.z, by have := cell.x.2; have := cell.z.2; omega⟩

@[simp] theorem columnCell_columnNumber (cell : Cell) :
    columnCell (columnNumber cell) cell.y = cell := by
  obtain ⟨⟨x, hx⟩, y, ⟨z, hz⟩⟩ := cell
  simp only [columnCell, columnNumber, Cell.mk.injEq, Fin.mk.injEq, true_and]
  omega

theorem turn_columnCell (k : Fin 256) (y : Fin 16) :
    (columnCell k y).turn = y.val + 16 * k.val := by
  simp only [Cell.turn, columnCell]
  omega

/-- **A layered chunk is its columns**, in the order of their numbers. -/
theorem layered_eq :
    layered surfaceAt cave seaLevel position = do
      let o ← position.origin
      let columns ← tabulate fun k => tabulate fun y =>
        cellBlock surfaceAt cave seaLevel o (columnCell k y)
      return Chunk.ofBlocks position <| .ofFn fun n =>
        (columns.get (columnNumber (.ofIndex n))).get (Cell.ofIndex n).y := by
  unfold layered
  cases position.origin with
  | error f => rfl
  | ok o =>
    simp only [column_eq, bind, Except.bind, columnCell, columnNumber]
    cases tabulate fun k : Fin 256 => tabulate fun y =>
      cellBlock surfaceAt cave seaLevel o ⟨⟨k % 16, columnX_lt k⟩, y, ⟨k / 16, columnZ_lt k⟩⟩
    · rfl
    · rfl

/-- **A layered chunk holds in each cell what the rule gives there**, and it is made exactly if the
rule gives a block everywhere. -/
theorem layered_eq_ok_iff {chunk : Chunk} :
    layered surfaceAt cave seaLevel position = .ok chunk ↔
      ∃ (o : Point) (blocks : Cell → Block), position.origin = .ok o ∧
        (∀ cell, cellBlock surfaceAt cave seaLevel o cell = .ok (blocks cell)) ∧
        chunk = .ofBlocks position (.ofFn fun n => blocks (.ofIndex n)) := by
  simp only [layered_eq, bind_eq_ok_iff, tabulate_eq_ok_iff]
  constructor
  · rintro ⟨o, ho, columns, hcolumns, ⟨⟩⟩
    refine ⟨o, fun cell => (columns.get (columnNumber cell)).get cell.y, ho, fun cell => ?_, rfl⟩
    have hcell := hcolumns (columnNumber cell) cell.y
    rwa [columnCell_columnNumber] at hcell
  · rintro ⟨o, blocks, ho, hblocks, rfl⟩
    refine ⟨o, ho, .ofFn fun k => .ofFn fun y => blocks (columnCell k y), fun k y => ?_, ?_⟩
    · simp only [Fin.getElem_fin, Vector.getElem_ofFn, Fin.eta]
      exact hblocks _
    · have hget : ∀ (k : Fin 256) (y : Fin 16),
          ((Vector.ofFn fun k => Vector.ofFn fun y => blocks (columnCell k y)).get k).get y =
            blocks (columnCell k y) := by
        intro k y
        rw [show (Vector.ofFn fun k => Vector.ofFn fun y => blocks (columnCell k y)).get k =
          Vector.ofFn fun y => blocks (columnCell k y) from Vector.getElem_ofFn _]
        exact Vector.getElem_ofFn _
      simp only [hget, columnCell_columnNumber]
      rfl

/-- **A layered chunk fails at its corner, or with the fault of the first cell that does.** -/
theorem layered_eq_error_iff {f : Fault} :
    layered surfaceAt cave seaLevel position = .error f ↔
      position.origin = .error f ∨ ∃ o, position.origin = .ok o ∧
        ∃ cell, cellBlock surfaceAt cave seaLevel o cell = .error f ∧
          ∀ other : Cell, other.turn < cell.turn →
            ∃ b, cellBlock surfaceAt cave seaLevel o other = .ok b := by
  have hpure : ∀ chunk : Chunk, (pure chunk : Except Fault Chunk) ≠ .error f := nofun
  simp only [layered_eq, bind_eq_error_iff, tabulate_eq_error_iff, exists_tabulate_iff, hpure,
    and_false, exists_false, or_false]
  refine or_congr_right (exists_congr fun o => and_congr_right fun _ => ?_)
  constructor
  · rintro ⟨k, ⟨y, hfails, hbelow⟩, hbefore⟩
    refine ⟨columnCell k y, hfails, fun other hother => ?_⟩
    rw [turn_columnCell, ← columnCell_columnNumber other, turn_columnCell] at hother
    rw [← columnCell_columnNumber other]
    rcases Nat.lt_or_ge (columnNumber other) k with hk | hk
    · exact hbefore _ hk _
    · -- the same column, further down
      have hy := other.y.2
      have hk : columnNumber other = k := Fin.ext (by omega)
      rw [hk] at hother ⊢
      exact hbelow _ (Fin.lt_def.mpr (by omega))
  · rintro ⟨cell, hfails, hbefore⟩
    have hturn := turn_columnCell (columnNumber cell) cell.y
    rw [columnCell_columnNumber] at hturn
    refine ⟨columnNumber cell, ⟨cell.y, by rwa [columnCell_columnNumber], fun y hy => ?_⟩,
      fun k hk y => ?_⟩
    · refine hbefore _ ?_
      rw [turn_columnCell, hturn]
      omega
    · refine hbefore _ ?_
      rw [turn_columnCell, hturn]
      have hy := y.2
      omega

/-! ## 3. The rule at a point of the world -/

/-- **The block of a cell is that of the point where it stands.** -/
theorem cellBlock_eq_ok_iff (ho : position.origin = .ok origin) {b : Block} :
    cellBlock surfaceAt cave seaLevel origin cell = .ok b ↔ ∃ p : Point, p.Marks position cell ∧
      columnBlock cave seaLevel (surfaceAt p.x p.z) p.x p.y p.z = .ok b := by
  obtain ⟨hx, hy, hz⟩ := ChunkPos.origin_eq_ok_iff.mp ho
  simp only [cellBlock, bind_eq_ok_iff, checkedAdd, fit32_eq_ok_iff, toInt_offset, hx, hy, hz,
    Point.marks_iff]
  constructor
  · rintro ⟨wx, hwx, wz, hwz, wy, hwy, hb⟩
    exact ⟨⟨wx, wy, wz⟩, ⟨hwx, hwy, hwz⟩, hb⟩
  · rintro ⟨⟨wx, wy, wz⟩, ⟨hwx, hwy, hwz⟩, hb⟩
    exact ⟨wx, hwx, wz, hwz, wy, hwy, hb⟩

/-- **Each cell of a layered chunk holds the block of the point where it stands.** -/
theorem get_of_layered {chunk : Chunk}
    (h : layered surfaceAt cave seaLevel position = .ok chunk) (cell : Cell) :
    ∃ p : Point, p.Marks position cell ∧
      columnBlock cave seaLevel (surfaceAt p.x p.z) p.x p.y p.z = .ok (chunk.get cell) := by
  obtain ⟨o, blocks, ho, hblocks, rfl⟩ := layered_eq_ok_iff.mp h
  rw [Chunk.get_ofBlocks_ofFn]
  exact (cellBlock_eq_ok_iff ho).mp (hblocks cell)

/-- The depth of a cell below the surface.  Taking one off the surface first makes no difference,
since the surface is not the lowest word there is. -/
theorem depth_eq {wy : Int32} (h : wy < surface) :
    (checkedSub surface 1 >>= fun top => checkedSub top wy) =
      fit32 .subtract (surface.toInt - 1 - wy.toInt) := by
  have hone : (1 : Int32).toInt = 1 := rfl
  have htop : InRange32 (surface.toInt - 1) := by
    have hlow := inRange32_toInt wy
    have hsurface := inRange32_toInt surface
    have hlt := Int32.lt_iff_toInt_lt.mp h
    unfold InRange32 at *
    omega
  rw [checkedSub, hone, fit32_of_inRange _ htop]
  exact congrArg (fun top => fit32 .subtract (top - wy.toInt)) (toInt_ofInt32 htop)

/-- The layering rule fails where there is no word for a depth, and nowhere else. -/
theorem columnBlock_eq_error_iff {wx wy wz : Int32} {f : Fault} :
    columnBlock cave seaLevel surface wx wy wz = .error f ↔
      f = .overflow .subtract ∧ 0x80000000 < surface.toInt - wy.toInt := by
  unfold columnBlock
  by_cases hbelow : wy < surface
  · rw [if_pos hbelow, depth_eq hbelow]
    rw [Int32.lt_iff_toInt_lt] at hbelow
    have hrange : ¬InRange32 (surface.toInt - 1 - wy.toInt) ↔
        0x80000000 < surface.toInt - wy.toInt := by
      unfold InRange32
      omega
    rw [← hrange]
    by_cases hdepth : InRange32 (surface.toInt - 1 - wy.toInt)
    · rw [fit32_of_inRange _ hdepth]
      refine iff_of_false ?_ fun h => h.2 hdepth
      dsimp only
      split <;> exact nofun
    · rw [fit32_of_not_inRange _ hdepth, and_iff_left hdepth]
      dsimp only
      rw [Except.error.injEq, eq_comm]
  · rw [if_neg hbelow]
    rw [Int32.lt_iff_toInt_lt] at hbelow
    refine iff_of_false ?_ fun h => absurd h.2 (by omega)
    split <;> exact nofun

theorem exists_columnBlock_iff {wx wy wz : Int32} :
    (∃ b, columnBlock cave seaLevel surface wx wy wz = .ok b) ↔
      surface.toInt - wy.toInt ≤ 0x80000000 := by
  cases h : columnBlock cave seaLevel surface wx wy wz with
  | error f =>
    have hdeep := (columnBlock_eq_error_iff.mp h).2
    exact iff_of_false nofun (by omega)
  | ok b =>
    refine iff_of_true ⟨b, rfl⟩ (Int.not_lt.mp fun hdeep => ?_)
    rw [columnBlock_eq_error_iff.mpr ⟨rfl, hdeep⟩] at h
    cases h

/-- A cell fails where there is no word for a coordinate, or for its depth. -/
theorem overflow_of_cellBlock_error (ho : position.origin = .ok origin) {f : Fault}
    (h : cellBlock surfaceAt cave seaLevel origin cell = .error f) :
    (f = .overflow .add ∧ ∃ d, ¬InRange32 (position.coordinate cell d)) ∨
      f = .overflow .subtract ∧ ∃ p : Point, p.Marks position cell ∧
        0x80000000 < (surfaceAt p.x p.z).toInt - p.y.toInt := by
  obtain ⟨hx, hy, hz⟩ := ChunkPos.origin_eq_ok_iff.mp ho
  simp only [cellBlock, bind_eq_error_iff, checkedAdd, fit32_eq_error_iff, fit32_eq_ok_iff,
    toInt_offset, hx, hy, hz] at h
  rcases h with ⟨hwx, rfl⟩ | ⟨wx, hwx, ⟨hwz, rfl⟩ | ⟨wz, hwz, ⟨hwy, rfl⟩ | ⟨wy, hwy, hb⟩⟩⟩
  · exact .inl ⟨rfl, .x, hwx⟩
  · exact .inl ⟨rfl, .z, hwz⟩
  · exact .inl ⟨rfl, .y, hwy⟩
  · obtain ⟨rfl, hdepth⟩ := columnBlock_eq_error_iff.mp hb
    exact .inr ⟨rfl, ⟨wx, wy, wz⟩, Point.marks_iff.mpr ⟨hwx, hwy, hwz⟩, hdepth⟩

/-! ## 4. Where layered chunks are made -/

/-- The words that a layered chunk needs exist: those for the coordinates of its cells, and for how
deep they lie below the surface. -/
structure Fits (surfaceAt : Int32 → Int32 → Int32) (position : ChunkPos) : Prop where
  coordinate : ∀ cell d, InRange32 (position.coordinate cell d)
  depth : ∀ (p : Point) cell, p.Marks position cell →
    (surfaceAt p.x p.z).toInt - p.y.toInt ≤ 0x80000000

/-- **A layered chunk is made exactly if the words that it needs exist.** -/
theorem exists_layered_iff :
    (∃ chunk, layered surfaceAt cave seaLevel position = .ok chunk) ↔ Fits surfaceAt position := by
  constructor
  · rintro ⟨chunk, h⟩
    refine ⟨fun cell => ?_, fun p cell hp => ?_⟩
    · obtain ⟨p, hp, -⟩ := get_of_layered h cell
      exact Point.exists_marks_iff.mp ⟨p, hp⟩
    · obtain ⟨q, hq, hb⟩ := get_of_layered h cell
      rw [hp.unique hq]
      exact exists_columnBlock_iff.mp ⟨_, hb⟩
  · rintro ⟨hcoordinate, hdepth⟩
    have hx : InRange32 (position.x.toInt * 16 + 0) := hcoordinate ⟨0, 0, 0⟩ .x
    have hz : InRange32 (position.z.toInt * 16 + 0) := hcoordinate ⟨0, 0, 0⟩ .z
    rw [Int.add_zero] at hx hz
    obtain ⟨o, ho⟩ := ChunkPos.exists_origin_iff.mpr ⟨hx, hz⟩
    have hmade : ∀ cell, ∃ b, cellBlock surfaceAt cave seaLevel o cell = .ok b := by
      intro cell
      obtain ⟨p, hp⟩ := Point.exists_marks_iff.mpr (hcoordinate cell)
      obtain ⟨b, hb⟩ := exists_columnBlock_iff.mpr (hdepth p cell hp)
      exact ⟨b, (cellBlock_eq_ok_iff ho).mpr ⟨p, hp, hb⟩⟩
    obtain ⟨blocks, hblocks⟩ := Classical.skolem.mp hmade
    exact ⟨_, layered_eq_ok_iff.mpr ⟨o, blocks, ho, hblocks, rfl⟩⟩

/-- **What the overflow of a layered chunk tells.**  A product overflows if the chunk has no corner,
and only then; otherwise a sum overflows at some coordinate, or a difference at some depth. -/
theorem overflow_of_layered_error {f : Fault}
    (h : layered surfaceAt cave seaLevel position = .error f) :
    (f = .overflow .multiply ∧ ¬∃ o, position.origin = .ok o) ∨
      (∃ o, position.origin = .ok o) ∧
        ((f = .overflow .add ∧ ∃ cell d, ¬InRange32 (position.coordinate cell d)) ∨
          f = .overflow .subtract ∧ ∃ (p : Point) (cell : Cell), p.Marks position cell ∧
            0x80000000 < (surfaceAt p.x p.z).toInt - p.y.toInt) := by
  rcases layered_eq_error_iff.mp h with ho | ⟨o, ho, cell, hcell, -⟩
  · refine .inl ⟨?_, by rw [ho]; exact nofun⟩
    simp only [ChunkPos.origin, bind_eq_error_iff, checkedMul, fit32_eq_error_iff] at ho
    rcases ho with ⟨-, rfl⟩ | ⟨x, -, ⟨-, rfl⟩ | ⟨z, -, ⟨⟩⟩⟩ <;> rfl
  · refine .inr ⟨⟨o, ho⟩, ?_⟩
    rcases overflow_of_cellBlock_error ho hcell with ⟨rfl, d, hd⟩ | ⟨rfl, p, hp, hdepth⟩
    · exact .inl ⟨rfl, cell, d, hd⟩
    · exact .inr ⟨rfl, p, cell, hp, hdepth⟩

end Terrain

end Blockworld
