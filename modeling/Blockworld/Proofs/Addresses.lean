/-
# Every point has one address

The address of a point is the chunk that owns it and its cell in that chunk.  An address is found
by division and remainder (`ChunkPos.locate?`), and it leads back to the point by adding the cell to
the corner of the chunk.  For the corner the indices along `x` and `z` are multiplied by the size of
a chunk; along `y` this was done when the address was found.

* `Point.hasAddress_iff_of_origin`: the two ways are inverse.  A point has an address exactly if it
  is the sum of corner and cell, so no two points share an address, and no point has two;
* `Point.exists_hasAddress`, `ChunkPos.exists_hasAddress`: each point has an address, up to both
  ends of the words, and each cell of an aligned chunk with a corner is the address of some point;
* `Point.HasAddress.beside`: one step leads to the next cell, and at the border to the opposite
  border of the neighbour.

`Point.addresses_exact` puts them together.
-/
import Blockworld.Proofs.Locating
import Blockworld.Proofs.Strata

namespace Blockworld

/-! ## 1. Addresses -/

/-- The chunk and the cell of it at which the point is located. -/
def Point.HasAddress (p : Point) (c : ChunkPos) (cell : Cell) : Prop :=
  ChunkPos.locate? p = .ok (c, cell.x.val, cell.y.val, cell.z.val)

variable {p q o : Point} {c : ChunkPos} {cell : Cell} {s : Side}

theorem Point.hasAddress_iff :
    p.HasAddress c cell ↔ ChunkPos.owner p = c ∧ ChunkPos.place p = cell := by
  unfold HasAddress
  rw [ChunkPos.locate?_eq, Except.ok.injEq, Prod.mk.injEq, Prod.mk.injEq, Prod.mk.injEq]
  simp only [Fin.val_inj]
  constructor
  · rintro ⟨howner, hx, hy, hz⟩
    obtain ⟨i, j, k⟩ := cell
    refine ⟨howner, ?_⟩
    rw [ChunkPos.place, Cell.mk.injEq]
    exact ⟨hx, hy, hz⟩
  · rintro ⟨rfl, rfl⟩
    exact ⟨rfl, rfl, rfl, rfl⟩

/-- The coordinates of a cell in the world are counted from the corner of its chunk. -/
theorem ChunkPos.coordinate_eq_of_origin (ho : c.origin = .ok o) (cell : Cell) (d : Axis) :
    c.coordinate cell d = (o.along d).toInt + (cell.along d).val := by
  obtain ⟨hx, hy, hz⟩ := origin_eq_ok_iff.mp ho
  cases d with
  | x => exact congrArg (· + _) hx.symm
  | y => exact congrArg (Int32.toInt · + _) hy.symm
  | z => exact congrArg (· + _) hz.symm

/-- **A point has an address exactly if it is the sum of the corner and the cell.** -/
theorem Point.hasAddress_iff_of_origin (haligned : c.Aligned) (ho : c.origin = .ok o) :
    p.HasAddress c cell ↔ ∀ d, (p.along d).toInt = (o.along d).toInt + (cell.along d).val := by
  rw [hasAddress_iff, ← ChunkPos.marks_iff_owner_place haligned]
  unfold Marks
  simp only [ChunkPos.coordinate_eq_of_origin ho]

/-- **Every point has an address**, in an aligned chunk with a corner. -/
theorem Point.exists_hasAddress (p : Point) :
    ∃ c cell o, p.HasAddress c cell ∧ c.Aligned ∧ c.origin = .ok o := by
  obtain ⟨hx, -, hz⟩ := ChunkPos.owner_toInt p
  have hpx := inRange32_toInt p.x
  have hpz := inRange32_toInt p.z
  have hcorner : InRange32 ((ChunkPos.owner p).x.toInt * 16) ∧
      InRange32 ((ChunkPos.owner p).z.toInt * 16) := by
    unfold InRange32 at *
    omega
  obtain ⟨o, ho⟩ := ChunkPos.exists_origin_iff.mpr hcorner
  exact ⟨_, _, o, hasAddress_iff.mpr ⟨rfl, rfl⟩, ChunkPos.owner_aligned p, ho⟩

/-- **Every cell of an aligned chunk with a corner is the address of a point.** -/
theorem ChunkPos.exists_hasAddress (haligned : c.Aligned) (ho : c.origin = .ok o) (cell : Cell) :
    ∃ p : Point, p.HasAddress c cell := by
  have hox := inRange32_toInt o.x
  have hoz := inRange32_toInt o.z
  have hy := inRange32_toInt c.y
  obtain ⟨hx, -, hz⟩ := origin_eq_ok_iff.mp ho
  obtain ⟨⟨i, hi⟩, ⟨j, hj⟩, ⟨k, hk⟩⟩ := cell
  obtain ⟨p, hp⟩ : ∃ p : Point, p.Marks c ⟨⟨i, hi⟩, ⟨j, hj⟩, ⟨k, hk⟩⟩ := by
    rw [Point.exists_marks_iff]
    intro d
    -- a floor leaves room for the cells above it, because the words end at a multiple of 16
    unfold InRange32 at *
    unfold Aligned at haligned
    cases d <;> simp only [coordinate] <;> omega
  exact ⟨p, Point.hasAddress_iff.mpr ((marks_iff_owner_place haligned).mp hp)⟩

/-! ## 2. Steps -/

theorem Cell.along_across_of_ne (cell : Cell) {d : Axis} (hd : d ≠ s.axis) :
    (cell.across s).along d = cell.along d := by
  unfold across
  rcases Axis.eq_or_next s.axis d with rfl | rfl | rfl
  · exact absurd rfl hd
  · rw [along_ofFrame_next]
  · rw [along_ofFrame_next_next]

/-- Off the border a step is no wrap. -/
theorem Side.val_wrap_of_ne_border {k : Fin 16} (h : k ≠ s.border) :
    ((s.wrap k).val : Int) = k.val + s.sign.toInt := by
  revert k
  cases s <;> decide

/-- **One step leads to the next cell** of the same chunk, or from the border to the opposite border
of the neighbour. -/
theorem Point.HasAddress.beside (h : p.HasAddress c cell) (hpq : p.Beside s q) :
    ∃ next : Cell, (∀ d, d ≠ s.axis → next.along d = cell.along d) ∧
      (cell.along s.axis ≠ s.border → q.HasAddress c next ∧
        ((next.along s.axis).val : Int) = (cell.along s.axis).val + s.sign.toInt) ∧
      (cell.along s.axis = s.border → next.along s.axis = s.opposite.border ∧
        ∃ n, c.neighbor s = .ok n ∧ q.HasAddress n next) := by
  obtain ⟨rfl, rfl⟩ := hasAddress_iff.mp h
  have hplace := ChunkPos.place_of_beside hpq
  have hon : ((ChunkPos.place p).across s).along s.axis =
      s.wrap ((ChunkPos.place p).along s.axis) := Cell.along_ofFrame _ _ _ _
  refine ⟨(ChunkPos.place p).across s, fun d hd => Cell.along_across_of_ne _ hd, fun hin => ?_,
    fun hat => ?_⟩
  · refine ⟨hasAddress_iff.mpr ⟨ChunkPos.owner_of_beside hpq hin, hplace⟩, ?_⟩
    rw [hon]
    exact Side.val_wrap_of_ne_border hin
  · refine ⟨?_, ChunkPos.owner q, ChunkPos.neighbor_of_beside hpq hat,
      hasAddress_iff.mpr ⟨rfl, hplace⟩⟩
    rw [hon, hat, Side.wrap_border]

/-! ## 3. All points -/

/-- **Points split uniquely into chunks and cells.**  Every point is located, without overflow, at a
cell of an aligned chunk, and the corner of the chunk and the cell add up to the point again.
Conversely the corner of an aligned chunk, if it has words, and a cell of the chunk add up to a
point, and this point is located at that cell of that chunk.  One step from a point leads to the
next cell of its chunk, and at the border to the neighbour through that side, where it comes in at
the opposite border. -/
theorem Point.addresses_exact :
    (∀ p : Point, ∃ c cell o, p.HasAddress c cell ∧ c.Aligned ∧ c.origin = .ok o ∧
      ∀ d, (p.along d).toInt = (o.along d).toInt + (cell.along d).val) ∧
    (∀ (c : ChunkPos) (cell : Cell), c.Aligned →
      -0x8000000 ≤ c.x.toInt ∧ c.x.toInt < 0x8000000 →
      -0x8000000 ≤ c.z.toInt ∧ c.z.toInt < 0x8000000 →
      ∃ (o p : Point), c.origin = .ok o ∧
        (∀ d, (p.along d).toInt = (o.along d).toInt + (cell.along d).val) ∧ p.HasAddress c cell) ∧
    ∀ (p : Point) (s : Side) (q : Point), p.Beside s q → ∃ c cell next,
      p.HasAddress c cell ∧ (∀ d, d ≠ s.axis → next.along d = cell.along d) ∧
      (cell.along s.axis ≠ s.border → q.HasAddress c next ∧
        ((next.along s.axis).val : Int) = (cell.along s.axis).val + s.sign.toInt) ∧
      (cell.along s.axis = s.border → next.along s.axis = s.opposite.border ∧
        ∃ n, c.neighbor s = .ok n ∧ q.HasAddress n next) := by
  refine ⟨fun p => ?_, fun c cell haligned hx hz => ?_, fun p s q hpq => ?_⟩
  · obtain ⟨c, cell, o, h, haligned, ho⟩ := p.exists_hasAddress
    exact ⟨c, cell, o, h, haligned, ho, (hasAddress_iff_of_origin haligned ho).mp h⟩
  · have hcorner : InRange32 (c.x.toInt * 16) ∧ InRange32 (c.z.toInt * 16) := by
      unfold InRange32
      omega
    obtain ⟨o, ho⟩ := ChunkPos.exists_origin_iff.mpr hcorner
    obtain ⟨p, hp⟩ := ChunkPos.exists_hasAddress haligned ho cell
    exact ⟨o, p, ho, (hasAddress_iff_of_origin haligned ho).mp hp, hp⟩
  · obtain ⟨c, cell, -, h, -, -⟩ := p.exists_hasAddress
    obtain ⟨next, hnext⟩ := h.beside hpq
    exact ⟨c, cell, next, h, hnext⟩

/-- The chunk that is farthest west, up and south. -/
def ChunkPos.farthest : ChunkPos := ⟨-0x8000000, 0x7ffffff0, 0x7ffffff⟩

/-- Its outermost cell is the address of a point, and a step to the east over the middle of the
world leads to the first cell of the next chunk. -/
theorem Point.farthest_addresses_exact :
    ChunkPos.farthest.Aligned ∧
      (-0x8000000 ≤ ChunkPos.farthest.x.toInt ∧ ChunkPos.farthest.x.toInt < 0x8000000) ∧
      (-0x8000000 ≤ ChunkPos.farthest.z.toInt ∧ ChunkPos.farthest.z.toInt < 0x8000000) ∧
      (∃ p : Point, p.HasAddress .farthest ⟨0, 15, 15⟩) ∧
      Point.Beside ⟨-1, 17, 32⟩ .east ⟨0, 17, 32⟩ ∧
      ∃ n next, ChunkPos.neighbor ⟨-1, 16, 2⟩ .east = .ok n ∧
        Point.HasAddress ⟨0, 17, 32⟩ n next ∧ next.x = 0 := by
  have haligned : ChunkPos.farthest.Aligned := by decide
  have hx : -0x8000000 ≤ ChunkPos.farthest.x.toInt ∧ ChunkPos.farthest.x.toInt < 0x8000000 := by
    decide
  have hz : -0x8000000 ≤ ChunkPos.farthest.z.toInt ∧ ChunkPos.farthest.z.toInt < 0x8000000 := by
    decide
  have hbeside : Point.Beside ⟨-1, 17, 32⟩ .east ⟨0, 17, 32⟩ := by
    intro d
    cases d <;> decide
  obtain ⟨-, hback, hstep⟩ := Point.addresses_exact
  obtain ⟨-, p, -, -, hp⟩ := hback .farthest ⟨0, 15, 15⟩ haligned hx hz
  obtain ⟨c, cell, next, haddress, -, -, hat⟩ := hstep _ _ _ hbeside
  obtain ⟨rfl, rfl⟩ := hasAddress_iff.mp haddress
  obtain ⟨hfirst, n, hn, hq⟩ := hat (by decide)
  exact ⟨haligned, hx, hz, ⟨p, hp⟩, hbeside, n, next, hn, hq, hfirst⟩

end Blockworld
