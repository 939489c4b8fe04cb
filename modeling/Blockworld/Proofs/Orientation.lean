/-
# Lifted quads are flat, face outward and can be taken back

Lifting places a patch on the outer face of a layer.  Three things are proved of it, for patches of
all extents that have words and for layers of any number that leaves a word for the plane:

* when it fails: on a patch without places, which is not flat along one axis only.  There is one
  exception.  On the sides where the corners are exchanged the first extent is taken backwards, and
  the smallest word is an extent that has no word backwards (`Patch.Irreversible`); lifting then
  overflows before it looks at how flat the patch is (`Patch.not_flat_decides_sliver`);
* where the quad faces (`Patch.cross_placed`): its edges along the two axes of the layer, in the
  order of the axes, span its area in the direction of the normal.  The exchange of the corners
  makes up for the sign of the normal, so all six sides turn the same way seen from outside;
* that nothing is lost (`Patch.lowered_placed`): side, layer and patch can be read off the quad.

`Patch.lift_exact` puts them together.  Edges and areas are exact integers.
-/
import Blockworld.Proofs.Lift

namespace Blockworld

/-! ## 1. Edges -/

/-- The cross product of two vectors, given by their coordinates. -/
def cross (a b : Axis → Int) : Axis → Int := fun d =>
  a d.next * b d.next.next - a d.next.next * b d.next

namespace Quad

/-- The part along an axis of the way from the first corner to the second. -/
def edge (q : Quad) (d : Axis) : Axis → Int := fun e =>
  if e = d then (q.corner2.along d).toInt - (q.corner1.along d).toInt else 0

/-- The corners agree on the axis of the normal and on no other. -/
def Flat (q : Quad) : Prop := ∀ d, q.corner1.along d = q.corner2.along d ↔ q.normal.along d ≠ 0

/-- The edges along two axes span a rectangle across the third. -/
theorem cross_edge (q : Quad) (d e : Axis) :
    cross (q.edge d.next) (q.edge d.next.next) e =
      if e = d then
        ((q.corner2.along d.next).toInt - (q.corner1.along d.next).toInt) *
          ((q.corner2.along d.next.next).toInt - (q.corner1.along d.next.next).toInt)
      else 0 := by
  cases d <;> cases e <;> simp [cross, edge, Axis.next]

end Quad

theorem Side.along_normal_ne_zero_iff (s : Side) (d : Axis) :
    s.normal.along d ≠ 0 ↔ d = s.axis := by
  cases s <;> cases d <;> decide

/-! ## 2. Placed patches -/

/-- The side that a normal points through. -/
def Side.ofNormal? (normal : Point) : Option Side := all.find? fun s => s.normal == normal

@[simp] theorem Side.ofNormal?_normal (s : Side) : ofNormal? s.normal = some s := by
  cases s <;> decide

/-- The side that a quad looks to, the layer behind it, and the patch between its corners. -/
def Quad.lowered (q : Quad) : Option (Side × Nat × Patch) :=
  (Side.ofNormal? q.normal).map fun side =>
    let plane := (q.corner1.along side.axis).toInt
    let first := q.corner1.along side.axis.next
    let last := q.corner2.along side.axis.next
    (side, (plane - if side.isPositive then 1 else 0).toNat,
      { material := q.material
        u1 := if side.isPositive then first else last
        v1 := q.corner1.along side.axis.next.next
        u2 := if side.isPositive then last else first
        v2 := q.corner2.along side.axis.next.next
        light := q.light
        metadata := q.metadata })

namespace Patch

variable {p : Patch} {side : Side} {layer : Nat} {plane : Int32}

theorem flat_placed (hu : p.u1 ≠ p.u2) (hv : p.v1 ≠ p.v2) : (p.placed side plane).Flat := by
  intro d
  show _ ↔ side.normal.along d ≠ 0
  rw [Side.along_normal_ne_zero_iff]
  unfold placed
  rcases Axis.eq_or_next side.axis d with rfl | rfl | rfl
  · simp
  · cases side.isPositive <;> simp [hu, Ne.symm hu]
  · simp [hv]

/-- **A placed patch faces outward** and spans its area. -/
theorem cross_placed (p : Patch) (side : Side) (plane : Int32) (d : Axis) :
    cross ((p.placed side plane).edge side.axis.next)
        ((p.placed side plane).edge side.axis.next.next) d =
      (p.u2.toInt - p.u1.toInt) * (p.v2.toInt - p.v1.toInt) * (side.normal.along d).toInt := by
  rw [Quad.cross_edge, Side.toInt_along_normal]
  unfold placed Side.sign
  simp only [Point.along_ofFrame_next, Point.along_ofFrame_next_next]
  by_cases hd : d = side.axis
  · rw [if_pos hd, if_pos hd]
    -- the exchange of the corners turns the sign of the first edge, as the normal turns its own
    cases side.isPositive
    · show (p.u1.toInt - p.u2.toInt) * _ = _ * (-1 : Int)
      rw [Int.mul_neg, Int.mul_one, ← Int.neg_mul, Int.neg_sub]
    · show (p.u2.toInt - p.u1.toInt) * _ = _ * (1 : Int)
      rw [Int.mul_one]
  · rw [if_neg hd, if_neg hd, Int.mul_zero]

/-- **A placed patch can be taken back.** -/
theorem lowered_placed (hplane : plane.toInt = layer + if side.isPositive then 1 else 0) :
    (p.placed side plane).lowered = some (side, layer, p) := by
  unfold Quad.lowered placed
  simp only [Side.ofNormal?_normal, Point.along_ofFrame, Point.along_ofFrame_next,
    Point.along_ofFrame_next_next, hplane, Option.map_some]
  cases side.isPositive <;> simp

/-! ## 3. Lifting -/

/-- The first extent of the patch has no word backwards, and the side exchanges the corners. -/
def Irreversible (p : Patch) (side : Side) : Prop :=
  side.isPositive = false ∧ p.u2.toInt - p.u1.toInt = -0x80000000

instance (p : Patch) (side : Side) : Decidable (p.Irreversible side) :=
  inferInstanceAs (Decidable (_ ∧ _))

/-- What lifting does with a patch whose extents have words. -/
theorem lift_eq_of_extents
    (hplane : checkedAdd (Int32.ofNat layer) (if side.isPositive then 1 else 0) = .ok plane)
    (hwidth : InRange32 (p.u2.toInt - p.u1.toInt)) (hheight : InRange32 (p.v2.toInt - p.v1.toInt)) :
    p.lift side layer =
      if p.Irreversible side then .error (.overflow .subtract)
      else if p.u1 = p.u2 ∨ p.v1 = p.v2 then .error .nonPlanar
      else .ok (p.placed side plane) := by
  have hrun : InRange32 (p.run side) ↔ ¬p.Irreversible side := by
    unfold Irreversible run InRange32 at *
    cases side.isPositive
    · simp only [Bool.false_eq_true, if_false, true_and]
      omega
    · simpa using hwidth
  rw [lift_eq hplane]
  by_cases hirr : p.Irreversible side
  · rw [if_neg fun h => hrun.mp h.1 hirr, if_pos hirr]
  · rw [if_pos ⟨hrun.mpr hirr, hheight⟩, if_neg hirr]

/-- **When lifting fails, and on what**, if the extents of the patch have words. -/
theorem lift_outcomes (side : Side) (hlayer : layer < 0x7fffffff)
    (hwidth : InRange32 (p.u2.toInt - p.u1.toInt))
    (hheight : InRange32 (p.v2.toInt - p.v1.toInt)) :
    (p.lift side layer = .error .nonPlanar ↔
        (p.u1 = p.u2 ∨ p.v1 = p.v2) ∧ ¬p.Irreversible side) ∧
      (p.lift side layer = .error (.overflow .subtract) ↔ p.Irreversible side) ∧
      ((∃ q, p.lift side layer = .ok q) ↔
        ¬(p.u1 = p.u2 ∨ p.v1 = p.v2) ∧ ¬p.Irreversible side) := by
  obtain ⟨plane, hplane, -⟩ := side.exists_plane hlayer
  rw [lift_eq_of_extents hplane hwidth hheight]
  by_cases hirr : p.Irreversible side
  · simp [hirr]
  · by_cases hplaces : p.u1 = p.u2 ∨ p.v1 = p.v2
    · simp [hirr, hplaces]
    · simp [hirr, hplaces]

/-- **A patch with places is lifted** to a quad that is flat and faces outward. -/
theorem exists_lift_facing (side : Side) (hlayer : layer < 0x7fffffff)
    (hwidth : InRange32 (p.u2.toInt - p.u1.toInt)) (hheight : InRange32 (p.v2.toInt - p.v1.toInt))
    (hu : p.u1 < p.u2) (hv : p.v1 < p.v2) :
    ∃ q, p.lift side layer = .ok q ∧ q.normal = side.normal ∧ q.Flat ∧
      ∀ d, cross (q.edge side.axis.next) (q.edge side.axis.next.next) d =
        (p.u2.toInt - p.u1.toInt) * (p.v2.toInt - p.v1.toInt) * (q.normal.along d).toInt := by
  obtain ⟨plane, hplane, -⟩ := side.exists_plane hlayer
  have hu' : p.u1 ≠ p.u2 := Int32.ne_of_lt hu
  have hv' : p.v1 ≠ p.v2 := Int32.ne_of_lt hv
  have hirr : ¬p.Irreversible side := by
    rw [Int32.lt_iff_toInt_lt] at hu
    unfold Irreversible
    omega
  refine ⟨p.placed side plane, ?_, rfl, flat_placed hu' hv', cross_placed p side plane⟩
  rw [lift_eq_of_extents hplane hwidth hheight, if_neg hirr, if_neg fun h => h.elim hu' hv']

/-- A patch can be taken back from the quad that it is lifted to. -/
theorem lowered_of_lift (hlayer : layer < 0x7fffffff) {q : Quad} (h : p.lift side layer = .ok q) :
    q.lowered = some (side, layer, p) := by
  obtain ⟨plane, hplane, hvalue⟩ := side.exists_plane hlayer
  rw [lift_eq hplane] at h
  split at h
  · split at h
    · cases h
    · cases h
      exact lowered_placed hvalue
  · cases h

/-- **Lifted quads are flat, face outward and can be taken back.**  A patch whose extents have words
fails the flatness check exactly if it has no places, except that it overflows if its first extent
is taken backwards and has no word that way; in all other cases it is lifted.  A patch with places
is lifted to a quad whose corners agree on the axis of its normal and on no other, and whose edges
span its area in the direction of the normal.  A quad is lifted from one patch in one layer of one
side only. -/
theorem lift_exact (p : Patch) (side : Side) {layer : Nat} (hlayer : layer < 0x7fffffff)
    (hwidth : ∃ w, p.width = .ok w) (hheight : ∃ h, p.height = .ok h) :
    (p.lift side layer = .error .nonPlanar ↔
        (p.u1 = p.u2 ∨ p.v1 = p.v2) ∧ ¬p.Irreversible side) ∧
      (p.lift side layer = .error (.overflow .subtract) ↔ p.Irreversible side) ∧
      ((∃ q, p.lift side layer = .ok q) ↔
        ¬(p.u1 = p.u2 ∨ p.v1 = p.v2) ∧ ¬p.Irreversible side) ∧
      (p.u1 < p.u2 → p.v1 < p.v2 → ∃ q w h, p.lift side layer = .ok q ∧
        p.width = .ok w ∧ p.height = .ok h ∧ q.normal = side.normal ∧ q.Flat ∧
        ∀ d, cross (q.edge side.axis.next) (q.edge side.axis.next.next) d =
          w.toInt * h.toInt * (q.normal.along d).toInt) ∧
      ∀ side' layer' p' q, layer' < 0x7fffffff → p.lift side layer = .ok q →
        p'.lift side' layer' = .ok q → side' = side ∧ layer' = layer ∧ p' = p := by
  obtain ⟨w, hw⟩ := hwidth
  obtain ⟨h, hh⟩ := hheight
  have hwvalue : w.toInt = p.u2.toInt - p.u1.toInt := fit32_eq_ok_iff.mp hw
  have hhvalue : h.toInt = p.v2.toInt - p.v1.toInt := fit32_eq_ok_iff.mp hh
  have hwrange : InRange32 (p.u2.toInt - p.u1.toInt) := hwvalue ▸ inRange32_toInt w
  have hhrange : InRange32 (p.v2.toInt - p.v1.toInt) := hhvalue ▸ inRange32_toInt h
  obtain ⟨hflat, hoverflow, hok⟩ := lift_outcomes side hlayer hwrange hhrange
  refine ⟨hflat, hoverflow, hok, fun hu hv => ?_, fun side' layer' p' q hlayer' hq hq' => ?_⟩
  · obtain ⟨q, hq, hnormal, hplanar, hcross⟩ :=
      exists_lift_facing side hlayer hwrange hhrange hu hv
    refine ⟨q, w, h, hq, hw, hh, hnormal, hplanar, fun d => ?_⟩
    rw [hwvalue, hhvalue]
    exact hcross d
  · have hback := lowered_of_lift hlayer hq
    rw [lowered_of_lift hlayer' hq'] at hback
    cases hback
    exact ⟨rfl, rfl, rfl⟩

/-- A rectangle of stone, three places wide and one high. -/
def lintel : Patch := ⟨.stone, 2, 3, 5, 4, 7, 0⟩

/-- It is lifted onto the west side of a layer, with its corners exchanged. -/
theorem lintel_lift_exact :
    9 < 0x7fffffff ∧ (∃ w, lintel.width = .ok w) ∧ (∃ h, lintel.height = .ok h) ∧
      lintel.u1 < lintel.u2 ∧ lintel.v1 < lintel.v2 ∧
      ∃ q, lintel.lift .west 9 = .ok q ∧ q.Flat ∧
        cross (q.edge .y) (q.edge .z) .x = 3 * 1 * -1 := by
  have hwidth : lintel.width = .ok 3 := rfl
  have hheight : lintel.height = .ok 1 := rfl
  have hu : lintel.u1 < lintel.u2 := by decide
  have hv : lintel.v1 < lintel.v2 := by decide
  obtain ⟨-, -, -, hfacing, -⟩ :=
    lift_exact lintel .west (show 9 < 0x7fffffff by decide) ⟨3, hwidth⟩ ⟨1, hheight⟩
  obtain ⟨q, w, h, hq, hw, hh, hnormal, hflat, hcross⟩ := hfacing hu hv
  rw [hwidth] at hw
  rw [hheight] at hh
  cases hw
  cases hh
  refine ⟨by decide, ⟨3, hwidth⟩, ⟨1, hheight⟩, hu, hv, q, hq, hflat, ?_⟩
  rw [show cross (q.edge .y) (q.edge .z) .x = _ from hcross .x, hnormal]
  rfl

/-- A patch without places whose first extent is the smallest word. -/
def sliver : Patch := ⟨.stone, 0, 0, -0x80000000, 0, 0, 0⟩

/-- **Having no places does not decide that a patch fails the flatness check.**  The sliver has
words for its extents and no places; on the west side it overflows before the check. -/
theorem not_flat_decides_sliver :
    sliver.width = .ok (-0x80000000) ∧ sliver.height = .ok 0 ∧
      sliver.lift .west 0 = .error (.overflow .subtract) ∧
      ¬(sliver.lift .west 0 = .error .nonPlanar ↔
        sliver.u1 = sliver.u2 ∨ sliver.v1 = sliver.v2) := by
  have hlift : sliver.lift .west 0 = .error (.overflow .subtract) := rfl
  refine ⟨rfl, rfl, hlift, fun h => ?_⟩
  have hflat := h.mpr (.inr rfl)
  rw [hlift] at hflat
  cases hflat

end Patch

end Blockworld
