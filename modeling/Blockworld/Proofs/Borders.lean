/-
# Meshes agree with reads of the world

There are two ways to the block behind a face.  Reading the world locates the next point: it divides
the coordinates by the chunk size and cuts off at the vertical range.  Meshing takes the next cell,
and at a border the facing cell of the chunk at the neighbouring position, which is open sky outside
the range.

The two agree because a step of a point is a step of its cell that wraps around at the border
(`ChunkPos.place_of_beside`), and because it then leads to the neighbouring chunk, and otherwise
stays (`ChunkPos.neighbor_of_beside`, `ChunkPos.owner_of_beside`).  All three follow from what one
step does to the quotient and the remainder of one coordinate.
-/
import Blockworld.Proofs.Adjacency
import Blockworld.Proofs.Faces

namespace Blockworld

/-! ## 1. A step of a point -/

/-- One step through the side leads from `p` to `q`. -/
def Point.Beside (p : Point) (s : Side) (q : Point) : Prop :=
  ∀ d, (q.along d).toInt = (p.along d).toInt + (s.normal.along d).toInt

namespace ChunkPos

variable {p q : Point} {s : Side}

@[simp] theorem along_place (p : Point) (d : Axis) :
    (place p).along d = remainder (p.along d) := by cases d <;> rfl

theorem val_remainder (a : Int32) : ((remainder a).val : Int) = a.toInt % 16 :=
  Int.toNat_of_nonneg (Int.emod_nonneg _ (by decide))

/-- A step of a coordinate wraps its remainder around. -/
theorem remainder_step {a b : Int32} (h : b.toInt = a.toInt + s.sign.toInt) :
    remainder b = s.wrap (remainder a) := by
  have ha := val_remainder a
  have hb := val_remainder b
  have hval : (1 : Fin 16).val = 1 := rfl
  apply Fin.ext
  unfold Side.wrap
  cases hs : s.isPositive with
  | true =>
    have hone : s.sign.toInt = 1 := by rw [Side.sign, hs]; decide
    rw [if_pos rfl, Fin.val_add, hval]
    omega
  | false =>
    have hone : s.sign.toInt = -1 := by rw [Side.sign, hs]; decide
    rw [if_neg Bool.false_ne_true, Fin.val_sub, hval]
    omega

/-- A step of a coordinate changes its quotient exactly at the border. -/
theorem quotient_step {a b : Int32} (h : b.toInt = a.toInt + s.sign.toInt) :
    b.toInt / 16 = a.toInt / 16 + if remainder a = s.border then s.sign.toInt else 0 := by
  have ha := val_remainder a
  unfold Side.border
  cases hs : s.isPositive with
  | true =>
    have hone : s.sign.toInt = 1 := by rw [Side.sign, hs]; decide
    have hat : remainder a = 15 ↔ (remainder a).val = 15 := Fin.ext_iff
    rw [if_pos rfl]
    split <;> omega
  | false =>
    have hone : s.sign.toInt = -1 := by rw [Side.sign, hs]; decide
    have hat : remainder a = 0 ↔ (remainder a).val = 0 := Fin.ext_iff
    rw [if_neg Bool.false_ne_true]
    split <;> omega

/-- A step changes one quotient at most, and only at the border. -/
theorem quotient_beside (h : p.Beside s q) (d : Axis) :
    (q.along d).toInt / 16 = (p.along d).toInt / 16 +
      if (place p).along s.axis = s.border then (s.normal.along d).toInt else 0 := by
  have hd := h d
  rw [Side.toInt_along_normal] at hd ⊢
  by_cases hax : d = s.axis
  · subst hax
    rw [if_pos rfl] at hd ⊢
    rw [along_place]
    exact quotient_step hd
  · rw [if_neg hax] at hd ⊢
    rw [hd, ite_self, Int.add_zero, Int.add_zero]

/-- **The place of the next point is the next place**, wrapped around at the border. -/
theorem place_of_beside (h : p.Beside s q) : place q = (place p).across s := by
  have hon : remainder (q.along s.axis) = s.wrap (remainder (p.along s.axis)) := by
    have hd := h s.axis
    rw [Side.toInt_along_normal, if_pos rfl] at hd
    exact remainder_step hd
  have hoff : ∀ d, d ≠ s.axis → remainder (q.along d) = remainder (p.along d) := by
    intro d hax
    have hd := h d
    rw [Side.toInt_along_normal, if_neg hax, Int.add_zero, Int32.toInt_inj] at hd
    rw [hd]
  unfold Cell.across
  rw [← Cell.ofFrame_along s.axis (place q)]
  simp only [along_place]
  rw [hon, hoff _ (Axis.next_ne _), hoff _ (Axis.next_next_ne _)]

/-- Inside a chunk the next point has the same owner. -/
theorem owner_of_beside (h : p.Beside s q) (hin : (place p).along s.axis ≠ s.border) :
    owner q = owner p := by
  have hq := quotient_beside h
  simp only [if_neg hin, Int.add_zero] at hq
  unfold owner
  rw [show q.x.toInt / 16 = p.x.toInt / 16 from hq .x,
    show q.y.toInt / 16 = p.y.toInt / 16 from hq .y,
    show q.z.toInt / 16 = p.z.toInt / 16 from hq .z]

/-- **At the border the next point belongs to the neighbour.** -/
theorem neighbor_of_beside (h : p.Beside s q) (hat : (place p).along s.axis = s.border) :
    (owner p).neighbor s = .ok (owner q) := by
  have hq := quotient_beside h
  simp only [if_pos hat] at hq
  obtain ⟨hpx, hpy, hpz⟩ := owner_toInt p
  obtain ⟨hqx, hqy, hqz⟩ := owner_toInt q
  have hx : q.x.toInt / 16 = p.x.toInt / 16 + s.normal.x.toInt := hq .x
  have hy : q.y.toInt / 16 = p.y.toInt / 16 + s.normal.y.toInt := hq .y
  have hz : q.z.toInt / 16 = p.z.toInt / 16 + s.normal.z.toInt := hq .z
  rw [neighbor_eq_ok_iff]
  omega

end ChunkPos

/-! ## 2. The block at a point -/

namespace World

open ChunkPos

variable {w : World} {p q : Point}

/-- A point is in the vertical range exactly if the floor of its chunk is. -/
theorem hasFloor_owner (hheight : w.height.toInt % 16 = 0) (p : Point) :
    w.hasFloor (owner p) = w.inRange p.y := by
  obtain ⟨-, hy, -⟩ := owner_toInt p
  have hzero : (0 : Int32).toInt = 0 := rfl
  unfold hasFloor inRange
  rw [Bool.eq_iff_iff]
  simp only [Bool.and_eq_true, decide_eq_true_eq, Int32.le_iff_toInt_le, Int32.lt_iff_toInt_lt, hy,
    hzero]
  omega

theorem blockAt_of_chunk {chunk : Chunk} (hheight : w.height.toInt % 16 = 0)
    (hfloor : w.hasFloor (owner p) = true) (hchunk : w.chunk? (owner p) = some chunk) :
    w.blockAt p = chunk.get (place p) := by
  rw [hasFloor_owner hheight] at hfloor
  unfold blockAt
  rw [if_pos hfloor, hchunk]

theorem blockAt_of_not_hasFloor (hheight : w.height.toInt % 16 = 0)
    (hfloor : w.hasFloor (owner p) = false) : w.blockAt p = Block.air := by
  rw [hasFloor_owner hheight] at hfloor
  unfold blockAt
  rw [hfloor]
  rfl

theorem blockAt_of_not_loaded (hchunk : w.chunk? (owner p) = none) :
    w.blockAt p = Block.air := by
  unfold blockAt
  rw [hchunk]
  exact ite_self _

/-- Toward air and toward the open sky every block but air shows its face. -/
theorem faceShown_of_isAir {b n : Block} (hn : n.isAir = true) :
    b.FaceShown (some n) ↔ b.isAir = false := by
  constructor
  · exact And.left
  · intro h
    exact ⟨h, n, rfl, Slice.showsFace_of_isAir hn⟩

/-- **The block a cell of a snapshot faces and the block at the next point show the same face**,
unless the next point lies in a chunk that is not known and such faces are hidden. -/
theorem faceShown_faced_iff {s : Snapshot} {side : Side} (hheight : w.height.toInt % 16 = 0)
    (hfloor : w.hasFloor (owner p) = true) (hs : w.snapshot? (owner p) = .ok (some s))
    (hpq : p.Beside side q) (policy : Boundary) :
    (w.blockAt p).FaceShown (s.faced policy side (place p)) ↔
      (w.blockAt p).isAir = false ∧ Slice.showsFace (w.blockAt p) (w.blockAt q) = .ok true ∧
        (policy = .hidden → w.hasFloor (owner q) → w.contains (owner q)) := by
  obtain ⟨chunk, around, hchunk, haround, rfl⟩ := snapshot?_eq_some_iff.mp hs
  have hsome : ∀ n, (w.blockAt p).FaceShown (some n) ↔
      (w.blockAt p).isAir = false ∧ Slice.showsFace (w.blockAt p) n = .ok true := by
    intro n
    simp [Block.FaceShown]
  unfold Snapshot.faced
  rw [← place_of_beside hpq]
  by_cases hat : (place p).along side.axis = side.border
  · -- at the border the neighbour decides, and the cases are what is seen of it
    have hn := neighbor_of_beside hpq hat
    rw [neighbors_eq_ok_iff.mp haround side] at hn
    simp only [if_pos hat, PerSide.get_ofFn, Except.ok.inj hn]
    unfold seenAt
    cases hfloorq : w.hasFloor (owner q) with
    | false =>
      rw [blockAt_of_not_hasFloor hheight hfloorq, Slice.showsFace_of_isAir (by rfl)]
      simp only [Bool.false_eq_true, if_false, false_implies, implies_true, and_true]
      exact faceShown_of_isAir (by simp [sky]; rfl)
    | true =>
      simp only [if_true, true_implies, contains_eq_isSome]
      cases hchunkq : w.chunk? (owner q) with
      | some n =>
        rw [blockAt_of_chunk hheight hfloorq hchunkq, hsome]
        simp
      | none =>
        rw [blockAt_of_not_loaded hchunkq, Slice.showsFace_of_isAir (by rfl)]
        cases policy with
        | exposed =>
          simp only [reduceCtorEq, false_implies, and_true]
          exact faceShown_of_isAir (by rfl)
        | hidden => simp [Block.FaceShown]
  · have hown := owner_of_beside hpq hat
    have hloaded : w.contains (owner q) = true := by
      rw [contains_eq_isSome, hown, hchunk]
      rfl
    rw [if_neg hat, hsome, blockAt_of_chunk (p := q) hheight (hown ▸ hfloor) (hown ▸ hchunk)]
    simp [hloaded]

/-! ## 3. Meshes of loaded chunks -/

/-- **The mesh of a loaded chunk shows what reading the world says.**  A face of a point is covered
exactly if the block there is no air and is visible from the block at the next point; where unknown
borders are hidden, the next point must also not lie in a chunk that is in the vertical range and
not loaded.  No position needs to be aligned: points lie in aligned chunks only. -/
theorem mesh_agrees_with_blockAt (w : World) (policy : Boundary) {c : ChunkPos}
    {around : PerSide ChunkPos} (hheight : w.height.toInt % 16 = 0) (hw : w.Sound)
    (hloaded : w.contains c = true) (hfloor : w.hasFloor c = true)
    (haround : c.neighbors = .ok around) :
    ∃ m, w.freshMesh policy c = .ok (some m) ∧ ∀ p side q, owner p = c → p.Beside side q →
      ((∃ quad ∈ m.opaqueQuads ++ m.translucentQuads, quad.Covers (place p) side) ↔
        (w.blockAt p).isAir = false ∧ Slice.showsFace (w.blockAt p) (w.blockAt q) = .ok true ∧
          (policy = .hidden → w.hasFloor (owner q) → w.contains (owner q))) := by
  rw [contains_eq_isSome] at hloaded
  obtain ⟨chunk, hchunk⟩ := Option.isSome_iff_exists.mp hloaded
  have hs : w.snapshot? c = .ok (some ⟨c, chunk, .ofFn fun side => w.seenAt (around.get side)⟩) :=
    snapshot?_eq_some_iff.mpr ⟨chunk, around, hchunk, haround, rfl⟩
  obtain ⟨qs, hmesh, -, hcount⟩ := (hw.snapshot hs).exists_mesh policy
  refine ⟨Mesh.ofQuads c qs, freshMesh_eq_some_iff.mpr ⟨_, hs, hmesh⟩, ?_⟩
  rintro p side q rfl hpq
  have hblock : w.blockAt p = chunk.get (place p) := blockAt_of_chunk hheight hfloor hchunk
  rw [← faceShown_faced_iff hheight hfloor hs hpq policy, hblock]
  obtain ⟨hone, hzero⟩ := hcount (place p) side
  rw [← Mesh.coverCount_ofQuads (owner p)] at hone hzero
  constructor
  · rintro ⟨quad, hquad, hcovers⟩
    refine Classical.byContradiction fun hface => ?_
    exact List.countP_eq_zero.mp (hzero hface) quad hquad (decide_eq_true hcovers)
  · intro hface
    have hpos := Nat.lt_of_lt_of_eq Nat.zero_lt_one (hone hface).symm
    obtain ⟨quad, hquad, hcovers⟩ := List.countP_pos_iff.mp hpos
    exact ⟨quad, hquad, of_decide_eq_true hcovers⟩

/-- A single chunk of stone. -/
def monolith : World := (empty 16).insert (.filled .zero (.ofMaterial .stone))

theorem chunk?_monolith (c : ChunkPos) :
    monolith.chunk? c = if .zero = c then some (.filled .zero (.ofMaterial .stone)) else none := by
  rw [monolith, chunk?_insert, chunk?_empty]
  rfl

/-- The stone shows its face toward the chunk at its east border, which is not loaded. -/
theorem monolith_mesh_agrees_with_blockAt :
    monolith.height.toInt % 16 = 0 ∧ monolith.Sound ∧ monolith.contains .zero = true ∧
      monolith.hasFloor .zero = true ∧ (∃ around, ChunkPos.zero.neighbors = .ok around) ∧
      ∃ m, monolith.freshMesh .exposed .zero = .ok (some m) ∧
        ∃ quad ∈ m.opaqueQuads ++ m.translucentQuads, quad.Covers ⟨15, 3, 7⟩ .east := by
  have hsound : monolith.Sound := by
    constructor <;> intro c chunk h <;> rw [chunk?_monolith] at h <;> split at h <;> cases h
    · exact Chunk.coherent_filled _ _
    · exact Chunk.known_filled (Block.known_ofMaterial _)
  have hloaded : monolith.contains .zero = true := by
    rw [contains_eq_isSome, chunk?_monolith]
    rfl
  have haround : ChunkPos.zero.neighbors =
      .ok ⟨⟨0, 0, -1⟩, ⟨0, 0, 1⟩, ⟨1, 0, 0⟩, ⟨-1, 0, 0⟩, ⟨0, 16, 0⟩, ⟨0, -16, 0⟩⟩ := rfl
  refine ⟨rfl, hsound, hloaded, rfl, ⟨_, haround⟩, ?_⟩
  obtain ⟨m, hm, hfaces⟩ :=
    mesh_agrees_with_blockAt monolith .exposed rfl hsound hloaded rfl haround
  have hstone : monolith.blockAt ⟨15, 3, 7⟩ = .ofMaterial .stone := by
    rw [blockAt_of_chunk rfl rfl (chunk?_monolith _), Chunk.get_filled]
  have hair : monolith.blockAt ⟨16, 3, 7⟩ = .air := blockAt_of_not_loaded (chunk?_monolith _)
  refine ⟨m, hm, (hfaces ⟨15, 3, 7⟩ .east ⟨16, 3, 7⟩ rfl ?_).mpr ?_⟩
  · intro d
    cases d <;> rfl
  · rw [hstone, hair]
    exact ⟨rfl, rfl, nofun⟩

end World

end Blockworld
