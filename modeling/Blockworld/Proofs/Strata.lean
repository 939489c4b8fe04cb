/-
# The strata of the terrain

Terrain is made chunk by chunk, each chunk from its own position.  What comes out is seamless: put
together, the chunks show one world (`Terrain.stacked`) in which the chunks cannot be told any more.

* A column of layered terrain lies in LAYERS (`Terrain.Layer`), each of which spans certain heights
  (`Layer.Spans`): open sky on top, water down to the surface, one top cell, three cells of dirt,
  and stone or cavities below.  The heights depend on the surface and the sea level alone, so a
  layer that a border of chunks cuts through goes on behind it.
* The checkerboard goes by the coordinates in the world as well
  (`Terrain.get_checkerboard_of_aligned`), because the size of a chunk is even: no two cells that
  share a face are alike, also across a border.

Every cell of every chunk stands at a point of the world, and the chunk that owns this point is the
one that the cell belongs to (`ChunkPos.marks_iff_owner_place`), so nothing of what is generated is
left out of `Terrain.seamless`.
-/
import Blockworld.Proofs.Borders
import Blockworld.Proofs.Generation

namespace Blockworld

/-- A cell of a chunk stands at the points that have it for their place. -/
theorem ChunkPos.marks_iff_owner_place {position : ChunkPos} (haligned : position.Aligned)
    {p : Point} {cell : Cell} :
    p.Marks position cell ↔ owner p = position ∧ place p = cell := by
  obtain ⟨hx, hy, hz⟩ := owner_toInt p
  have hcx := val_remainder p.x
  have hcy := val_remainder p.y
  have hcz := val_remainder p.z
  rw [Point.marks_iff]
  unfold Aligned at haligned
  constructor
  · rintro ⟨hpx, hpy, hpz⟩
    obtain ⟨⟨x, _⟩, ⟨y, _⟩, ⟨z, _⟩⟩ := cell
    obtain ⟨px, py, pz⟩ := position
    dsimp only at hpx hpy hpz haligned
    constructor
    · rw [show owner p = ⟨(owner p).x, (owner p).y, (owner p).z⟩ from rfl, ChunkPos.mk.injEq]
      refine ⟨Int32.toInt_inj.mp ?_, Int32.toInt_inj.mp ?_, Int32.toInt_inj.mp ?_⟩ <;> omega
    · rw [place, Cell.mk.injEq]
      refine ⟨Fin.ext ?_, Fin.ext ?_, Fin.ext ?_⟩ <;> dsimp only <;> omega
  · rintro ⟨rfl, rfl⟩
    simp only [place]
    omega

namespace Terrain

/-! ## 1. Layers -/

/-- What a column consists of, from the top down. -/
inductive Layer where
  | sky
  | water
  | sand
  | grass
  | dirt
  | stone
  | cavity
  deriving DecidableEq, Repr

namespace Layer

/-- The block that a layer consists of.  The sky is lit, and a cavity is not. -/
def block : Layer → Block
  | sky => Block.sky
  | water => Block.ofLevels .water fullLevel fullLight
  | sand => Block.ofMaterial .sand
  | grass => Block.ofMaterial .grass
  | dirt => Block.ofMaterial .dirt
  | stone => Block.ofMaterial .stone
  | cavity => Block.air

/-- The heights that belong to a layer, in a column with the given surface.  Far enough below the
surface, the column may be hollow. -/
def Spans (surface seaLevel : Int) (hollow : Bool) (y : Int) : Layer → Prop
  | sky => max surface seaLevel ≤ y
  | water => surface ≤ y ∧ y < seaLevel
  | sand => y = surface - 1 ∧ surface ≤ seaLevel
  | grass => y = surface - 1 ∧ seaLevel < surface
  | dirt => surface - 1 - soilDepth.toInt ≤ y ∧ y < surface - 1
  | stone => y < surface - 1 - soilDepth.toInt ∧ hollow = false
  | cavity => y < surface - 1 - soilDepth.toInt ∧ hollow = true

instance decidableSpans (surface seaLevel : Int) (hollow : Bool) (y : Int) :
    (l : Layer) → Decidable (l.Spans surface seaLevel hollow y)
  | sky => inferInstanceAs (Decidable (_ ≤ _))
  | water | sand | grass | dirt | stone | cavity => inferInstanceAs (Decidable (_ ∧ _))

/-- Different layers consist of different blocks. -/
theorem block_injective {l l' : Layer} (h : l.block = l'.block) : l = l' := by
  revert h
  cases l <;> cases l' <;> decide

/-- **Every height of a column belongs to one layer.** -/
theorem existsUnique_spans (surface seaLevel : Int) (hollow : Bool) (y : Int) :
    ∃! l : Layer, l.Spans surface seaLevel hollow y := by
  have hsoil : soilDepth.toInt = 3 := rfl
  have hunique : ∀ l l' : Layer, l.Spans surface seaLevel hollow y →
      l'.Spans surface seaLevel hollow y → l' = l := by
    intro l l' hl hl'
    cases l <;> cases l' <;> first | rfl | (simp only [Spans] at hl hl'; grind)
  suffices hexists : ∃ l : Layer, l.Spans surface seaLevel hollow y by
    obtain ⟨l, hl⟩ := hexists
    exact ⟨l, hl, fun l' hl' => hunique l l' hl hl'⟩
  rcases Int.lt_or_le y (surface - 1 - soilDepth.toInt) with hdeep | hdeep
  · cases hollow with
    | true => exact ⟨cavity, hdeep, rfl⟩
    | false => exact ⟨stone, hdeep, rfl⟩
  rcases Int.lt_trichotomy y (surface - 1) with hbelow | htop | habove
  · exact ⟨dirt, hdeep, hbelow⟩
  · rcases Int.lt_or_le seaLevel surface with hdry | hwet
    · exact ⟨grass, htop, hdry⟩
    · exact ⟨sand, htop, hwet⟩
  · rcases Int.lt_or_le y seaLevel with hunder | hover
    · exact ⟨water, by omega, hunder⟩
    · exact ⟨sky, Int.max_le.mpr ⟨by omega, hover⟩⟩

end Layer

variable {surfaceAt : Int32 → Int32 → Int32} {cave : Int32 → Int32 → Int32 → Bool}
  {seaLevel surface : Int32} {position : ChunkPos}

/-- Below the surface the material of a layer goes by the depth, where the column is not hollow. -/
theorem exists_spans_of_stratum {depth : Int32} {hollow : Bool} {y : Int}
    (hdepth : depth.toInt = surface.toInt - 1 - y) (hbelow : y < surface.toInt)
    (hsolid : soilDepth.toInt < depth.toInt → hollow = false) :
    ∃ l : Layer, l.block = Block.ofMaterial (stratum seaLevel surface depth) ∧
      l.Spans surface.toInt seaLevel.toInt hollow y := by
  have hzero : (0 : Int32).toInt = 0 := rfl
  have hsoil : soilDepth.toInt = 3 := rfl
  unfold stratum
  simp only [← Int32.toInt_inj, Int32.le_iff_toInt_le, hzero]
  by_cases htop : depth.toInt = 0
  · rw [if_pos htop]
    by_cases hwet : surface.toInt ≤ seaLevel.toInt
    · exact ⟨.sand, by rw [if_pos hwet]; rfl, by omega, hwet⟩
    · exact ⟨.grass, by rw [if_neg hwet]; rfl, by omega, by omega⟩
  · rw [if_neg htop]
    by_cases hsoft : depth.toInt ≤ soilDepth.toInt
    · exact ⟨.dirt, by rw [if_pos hsoft]; rfl, by omega, by omega⟩
    · exact ⟨.stone, by rw [if_neg hsoft]; rfl, by omega, hsolid (by omega)⟩

/-- The layering rule puts down the block of the layer that spans the height. -/
theorem exists_spans_of_columnBlock {wx wy wz : Int32} {b : Block}
    (h : columnBlock cave seaLevel surface wx wy wz = .ok b) :
    ∃ l : Layer, l.block = b ∧
      l.Spans surface.toInt seaLevel.toInt (cave wx wy wz) wy.toInt := by
  unfold columnBlock at h
  by_cases hbelow : wy < surface
  · rw [if_pos hbelow, depth_eq hbelow] at h
    rw [Int32.lt_iff_toInt_lt] at hbelow
    cases hfit : fit32 .subtract (surface.toInt - 1 - wy.toInt) with
    | error f =>
      rw [hfit] at h
      cases h
    | ok depth =>
      have hdepth : depth.toInt = surface.toInt - 1 - wy.toInt := fit32_eq_ok_iff.mp hfit
      rw [hfit] at h
      dsimp only at h
      split at h
      · next hcavity =>
        simp only [Bool.and_eq_true, decide_eq_true_eq, Int32.lt_iff_toInt_lt] at hcavity
        exact ⟨.cavity, Except.ok.inj h, by omega, hcavity.2⟩
      · next hsolid =>
        simp only [Bool.and_eq_true, decide_eq_true_eq, Int32.lt_iff_toInt_lt, not_and,
          Bool.not_eq_true] at hsolid
        cases h
        exact exists_spans_of_stratum hdepth hbelow hsolid
  · rw [if_neg hbelow] at h
    rw [Int32.lt_iff_toInt_lt] at hbelow
    split at h
    · next hunder =>
      exact ⟨.water, Except.ok.inj h, by omega, Int32.lt_iff_toInt_lt.mp hunder⟩
    · next hover =>
      rw [Int32.lt_iff_toInt_lt] at hover
      exact ⟨.sky, Except.ok.inj h, Int.max_le.mpr ⟨by omega, by omega⟩⟩

/-- **A layer's block stands at the heights of that layer and at no others.** -/
theorem eq_block_iff_spans {wx wy wz : Int32} {b : Block}
    (h : columnBlock cave seaLevel surface wx wy wz = .ok b) (l : Layer) :
    b = l.block ↔ l.Spans surface.toInt seaLevel.toInt (cave wx wy wz) wy.toInt := by
  obtain ⟨l', rfl, hl'⟩ := exists_spans_of_columnBlock h
  constructor
  · intro hblock
    rwa [← Layer.block_injective hblock]
  · intro hl
    rw [(Layer.existsUnique_spans _ _ _ _).unique hl hl']

/-! ## 2. The world that the chunks make up -/

/-- The block at a point of the world whose chunks are layered, each of them made on its own. -/
def stacked (surfaceAt : Int32 → Int32 → Int32) (cave : Int32 → Int32 → Int32 → Bool)
    (seaLevel : Int32) (p : Point) : Except Fault Block := do
  let chunk ← layered surfaceAt cave seaLevel (.owner p)
  return chunk.get (ChunkPos.place p)

/-- The chunk that owns a point has words for all of its coordinates, so all it needs are words for
the depths. -/
theorem fits_owner_iff {p : Point} : Fits surfaceAt (.owner p) ↔
    ∀ q, ChunkPos.owner q = ChunkPos.owner p →
      (surfaceAt q.x q.z).toInt - q.y.toInt ≤ 0x80000000 := by
  have hmarks : ∀ (q : Point) cell, q.Marks (.owner p) cell ↔
      ChunkPos.owner q = ChunkPos.owner p ∧ ChunkPos.place q = cell :=
    fun _ _ => ChunkPos.marks_iff_owner_place (ChunkPos.owner_aligned p)
  constructor
  · intro h q hq
    exact h.depth q (ChunkPos.place q) ((hmarks q _).mpr ⟨hq, rfl⟩)
  · intro h
    refine ⟨fun cell d => ?_, fun q cell hq => h q ((hmarks q cell).mp hq).1⟩
    obtain ⟨hx, hy, hz⟩ := ChunkPos.owner_toInt p
    obtain ⟨⟨x, hcx⟩, ⟨y, hcy⟩, ⟨z, hcz⟩⟩ := cell
    have hpx := inRange32_toInt p.x
    have hpy := inRange32_toInt p.y
    have hpz := inRange32_toInt p.z
    unfold InRange32 at *
    cases d <;> simp only [ChunkPos.coordinate] <;> omega

/-- There is a block at a point if the chunk that owns it is made. -/
theorem exists_stacked_iff {p : Point} :
    (∃ b, stacked surfaceAt cave seaLevel p = .ok b) ↔
      ∀ q, ChunkPos.owner q = ChunkPos.owner p →
        (surfaceAt q.x q.z).toInt - q.y.toInt ≤ 0x80000000 := by
  rw [← fits_owner_iff]
  constructor
  · rintro ⟨b, h⟩
    obtain ⟨chunk, hchunk, -⟩ := bind_eq_ok_iff.mp h
    exact exists_layered_iff.mp ⟨chunk, hchunk⟩
  · intro h
    obtain ⟨chunk, hchunk⟩ := exists_layered_iff.mpr h
    exact ⟨_, bind_eq_ok_iff.mpr ⟨chunk, hchunk, rfl⟩⟩

/-- The block at a point is that of the layering rule there. -/
theorem columnBlock_of_stacked {p : Point} {b : Block}
    (h : stacked surfaceAt cave seaLevel p = .ok b) :
    columnBlock cave seaLevel (surfaceAt p.x p.z) p.x p.y p.z = .ok b := by
  obtain ⟨chunk, hchunk, ⟨⟩⟩ := bind_eq_ok_iff.mp h
  obtain ⟨q, hq, hb⟩ := get_of_layered hchunk (ChunkPos.place p)
  have hp := (ChunkPos.marks_iff_owner_place (ChunkPos.owner_aligned p)).mpr ⟨rfl, rfl⟩
  rwa [hq.unique hp] at hb

/-- **Nothing that is generated is left out**: every cell of a layered chunk stands at a point, and
is the block at that point. -/
theorem exists_stacked_eq_get (haligned : position.Aligned) {chunk : Chunk}
    (h : layered surfaceAt cave seaLevel position = .ok chunk) (cell : Cell) :
    ∃ p : Point, p.Marks position cell ∧
      stacked surfaceAt cave seaLevel p = .ok (chunk.get cell) := by
  obtain ⟨p, hp, -⟩ := get_of_layered h cell
  obtain ⟨rfl, rfl⟩ := (ChunkPos.marks_iff_owner_place haligned).mp hp
  exact ⟨p, hp, bind_eq_ok_iff.mpr ⟨chunk, h, rfl⟩⟩

/-! ## 3. The checkerboard -/

/-- The colour of the field where a cell stands: fields that share a face differ in it. -/
def IsDark (position : ChunkPos) (cell : Cell) : Prop :=
  (position.coordinate cell .x + position.coordinate cell .y + position.coordinate cell .z) % 2 = 0

instance (position : ChunkPos) (cell : Cell) : Decidable (IsDark position cell) :=
  inferInstanceAs (Decidable (_ = _))

/-- **The checkerboard goes by the coordinates in the world.** -/
theorem get_checkerboard_of_aligned (haligned : position.Aligned) (cell : Cell) :
    (checkerboard position).get cell =
      if IsDark position cell then Block.ofMaterial .stone else Block.air := by
  have hparity : (cell.x.val + cell.y.val + cell.z.val) % 2 = 0 ↔ IsDark position cell := by
    unfold ChunkPos.Aligned at haligned
    simp only [IsDark, ChunkPos.coordinate]
    omega
  rw [get_checkerboard]
  simp only [hparity]

/-- Across a face the colour changes. -/
theorem isDark_of_beside {position' : ChunkPos} {cell cell' : Cell} {s : Side}
    (h : ∀ d, position'.coordinate cell' d =
      position.coordinate cell d + (s.normal.along d).toInt) :
    IsDark position' cell' ↔ ¬IsDark position cell := by
  have hodd : ((s.normal.along .x).toInt + (s.normal.along .y).toInt +
      (s.normal.along .z).toInt) % 2 = 1 := by
    cases s <;> decide
  unfold IsDark
  rw [h .x, h .y, h .z]
  omega

/-! ## 4. No seams -/

/-- **Generated terrain has no seams.**  Whatever the surface, the caves and the sea level are, the
chunks of layered terrain make up one world.  There is a block at a point unless the depth of some
cell of its chunk overflows; the block is that of the layer that spans the height, and every cell of
every chunk that is made is such a block.  The chunks of a checkerboard are all made, their cells go
by the sum of the coordinates in the world, and no two of them that share a face are alike. -/
theorem seamless (surfaceAt : Int32 → Int32 → Int32) (cave : Int32 → Int32 → Int32 → Bool)
    (seaLevel : Int32) (seed : UInt32) :
    (∀ p, (∃ b, stacked surfaceAt cave seaLevel p = .ok b) ↔
      ∀ q, ChunkPos.owner q = ChunkPos.owner p →
        (surfaceAt q.x q.z).toInt - q.y.toInt ≤ 0x80000000) ∧
    (∀ p b, stacked surfaceAt cave seaLevel p = .ok b → ∀ l : Layer, b = l.block ↔
      l.Spans (surfaceAt p.x p.z).toInt seaLevel.toInt (cave p.x p.y p.z) p.y.toInt) ∧
    (∀ position : ChunkPos, position.Aligned → ∀ chunk,
      layered surfaceAt cave seaLevel position = .ok chunk → ∀ cell, ∃ p : Point,
        p.Marks position cell ∧ stacked surfaceAt cave seaLevel p = .ok (chunk.get cell)) ∧
    (∀ position : ChunkPos, position.Aligned →
      (ofSeed .checkerboard seed seaLevel).generate position = .ok (checkerboard position) ∧
      ∀ cell, (checkerboard position).get cell =
        if IsDark position cell then Block.ofMaterial .stone else Block.air) ∧
    ∀ position position' : ChunkPos, position.Aligned → position'.Aligned → ∀ cell cell' (s : Side),
      (∀ d, position'.coordinate cell' d =
        position.coordinate cell d + (s.normal.along d).toInt) →
      (checkerboard position).get cell ≠ (checkerboard position').get cell' := by
  refine ⟨fun p => exists_stacked_iff, fun p b h => eq_block_iff_spans (columnBlock_of_stacked h),
    fun position haligned chunk h => exists_stacked_eq_get haligned h,
    fun position haligned => ⟨rfl, get_checkerboard_of_aligned haligned⟩, ?_⟩
  intro position position' haligned haligned' cell cell' s hbeside
  have hdiffer := isDark_of_beside hbeside
  rw [get_checkerboard_of_aligned haligned, get_checkerboard_of_aligned haligned']
  by_cases hdark : IsDark position cell
  · rw [if_pos hdark, if_neg fun hdark' => hdiffer.mp hdark' hdark]
    decide
  · rw [if_neg hdark, if_pos (hdiffer.mpr hdark)]
    decide

/-- A shore in two chunks: the dirt goes on where the upper one ends, and the fields of the
checkerboard alternate between two chunks beside each other. -/
theorem seamless_shore :
    stacked (fun _ _ => 18) (fun _ _ _ => true) 20 ⟨-1, 13, -1⟩ = .ok Layer.cavity.block ∧
    stacked (fun _ _ => 18) (fun _ _ _ => true) 20 ⟨-1, 15, -1⟩ = .ok Layer.dirt.block ∧
    stacked (fun _ _ => 18) (fun _ _ _ => true) 20 ⟨-1, 16, -1⟩ = .ok Layer.dirt.block ∧
    stacked (fun _ _ => 18) (fun _ _ _ => true) 20 ⟨-1, 17, -1⟩ = .ok Layer.sand.block ∧
    stacked (fun _ _ => 18) (fun _ _ _ => true) 20 ⟨-1, 18, -1⟩ = .ok Layer.water.block ∧
    stacked (fun _ _ => 18) (fun _ _ _ => true) 20 ⟨-1, 20, -1⟩ = .ok Layer.sky.block ∧
    (checkerboard ⟨-1, 0, 0⟩).get ⟨15, 0, 0⟩ ≠ (checkerboard ⟨0, 0, 0⟩).get ⟨0, 0, 0⟩ := by
  obtain ⟨hmade, hlayer, -, -, hfields⟩ := seamless (fun _ _ => 18) (fun _ _ _ => true) 20 0
  have hat : ∀ (y : Int32) (l : Layer), 0 ≤ y.toInt → l.Spans 18 20 true y.toInt →
      stacked (fun _ _ => 18) (fun _ _ _ => true) 20 ⟨-1, y, -1⟩ = .ok l.block := by
    intro y l hy hl
    have hfits : ∀ q, ChunkPos.owner q = ChunkPos.owner ⟨-1, y, -1⟩ →
        (18 : Int32).toInt - q.y.toInt ≤ 0x80000000 := by
      intro q hq
      have hheight : (18 : Int32).toInt = 18 := rfl
      have hfloor := (ChunkPos.owner_toInt q).2.1
      rw [hq, (ChunkPos.owner_toInt ⟨-1, y, -1⟩).2.1] at hfloor
      dsimp only at hfloor
      omega
    obtain ⟨b, hb⟩ := (hmade ⟨-1, y, -1⟩).mpr hfits
    rw [hb, (hlayer _ _ hb l).mpr hl]
  exact ⟨hat 13 .cavity (by decide) ⟨by decide, rfl⟩, hat 15 .dirt (by decide) (by decide),
    hat 16 .dirt (by decide) (by decide), hat 17 .sand (by decide) (by decide),
    hat 18 .water (by decide) (by decide), hat 20 .sky (by decide) (by decide),
    hfields ⟨-1, 0, 0⟩ ⟨0, 0, 0⟩ (by decide) (by decide) _ _ .east fun d => by cases d <;> decide⟩

end Terrain

end Blockworld
