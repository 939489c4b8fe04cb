/-
# Lifted pieces lie on the faces they cover

A quad COVERS the face of a cell toward a side when it points that way, lies in the plane of that
face, and has the cell between its corners on the other two axes (`Quad.Covers`).  The definition
looks at the corners alone and not at how the quad came about.

A piece of a tiling, lifted from a layer toward a side, never trips the flatness check, and it
covers exactly the faces of its places in that layer (`Slice.Piece.exists_lift`).  The corners of
the negative sides are exchanged along one axis, which a minimum and a maximum do not see.
-/
import Blockworld.Proofs.Merge

namespace Blockworld

/-! ## 1. Covering -/

/-- The coordinate of the face plane of a cell whose own coordinate on the axis of the side is
`k`. -/
def Side.plane (s : Side) (k : Fin 16) : Int := k.val + if s.isPositive then 1 else 0

/-- The coordinate `k` lies between the corners on an axis. -/
def Quad.Spans (q : Quad) (d : Axis) (k : Fin 16) : Prop :=
  min (q.corner1.along d).toInt (q.corner2.along d).toInt ≤ k.val ∧
    k.val < max (q.corner1.along d).toInt (q.corner2.along d).toInt

instance (q : Quad) (d : Axis) (k : Fin 16) : Decidable (q.Spans d k) :=
  inferInstanceAs (Decidable (_ ∧ _))

/-- **The quad covers the face of a cell toward a side.** -/
def Quad.Covers (q : Quad) (cell : Cell) (side : Side) : Prop :=
  q.normal = side.normal ∧
    ((q.corner1.along side.axis).toInt = side.plane (cell.along side.axis) ∧
      (q.corner2.along side.axis).toInt = side.plane (cell.along side.axis)) ∧
    q.Spans side.axis.next (cell.along side.axis.next) ∧
    q.Spans side.axis.next.next (cell.along side.axis.next.next)

instance (q : Quad) (cell : Cell) (side : Side) : Decidable (q.Covers cell side) :=
  inferInstanceAs (Decidable (_ ∧ _))

/-- Both corners have their coordinates from 0 to 16. -/
def Quad.InChunk (q : Quad) : Prop :=
  ∀ d, (0 ≤ (q.corner1.along d).toInt ∧ (q.corner1.along d).toInt ≤ 16) ∧
    0 ≤ (q.corner2.along d).toInt ∧ (q.corner2.along d).toInt ≤ 16

/-- Two sides with one normal are one side. -/
theorem Side.normal_injective {s t : Side} (h : s.normal = t.normal) : s = t := by
  revert h
  cases s <;> cases t <;> decide

/-- The normal of a side is its sign on its own axis and zero on the other two. -/
theorem Side.toInt_along_normal (s : Side) (d : Axis) :
    (s.normal.along d).toInt = if d = s.axis then s.sign.toInt else 0 := by
  cases s <;> cases d <;> decide

/-! ## 2. The flatness check -/

theorem checkedSub_self (a : Int32) : checkedSub a a = .ok 0 := by
  unfold checkedSub
  rw [fit32_eq_ok_iff]
  simp

/-- A difference in range is a word, and zero for equal words only. -/
theorem exists_checkedSub {a b : Int32} (hr : InRange32 (a.toInt - b.toInt)) :
    ∃ r, checkedSub a b = .ok r ∧ (r = 0 ↔ a = b) := by
  refine ⟨_, fit32_of_inRange _ hr, ?_⟩
  rw [← Int32.toInt_inj, toInt_ofInt32 hr, ← Int32.toInt_inj]
  exact Int.sub_eq_zero

/-- **The flatness check of corners that agree on an axis** counts that axis and the other two as far
as the corners agree there; it needs words for both differences. -/
theorem Quad.sharedAxes_ofFrame {q : Quad} {d : Axis} {a u v u' v' : Int32}
    (h1 : q.corner1 = Point.ofFrame d a u v) (h2 : q.corner2 = Point.ofFrame d a u' v') :
    q.sharedAxes = if InRange32 (u'.toInt - u.toInt) ∧ InRange32 (v'.toInt - v.toInt) then
        .ok (1 + (if u' = u then 1 else 0) + if v' = v then 1 else 0)
      else .error (.overflow .subtract) := by
  have ha := checkedSub_self a
  have hout : ∀ {x y : Int32}, ¬InRange32 (x.toInt - y.toInt) →
      checkedSub x y = .error (.overflow .subtract) := fun h => fit32_of_not_inRange _ h
  unfold sharedAxes
  rw [h1, h2]
  by_cases hu : InRange32 (u'.toInt - u.toInt)
  · obtain ⟨du, hdu, hdu0⟩ := exists_checkedSub hu
    by_cases hv : InRange32 (v'.toInt - v.toInt)
    · obtain ⟨dv, hdv, hdv0⟩ := exists_checkedSub hv
      rw [if_pos ⟨hu, hv⟩, ← if_congr hdu0 rfl rfl, ← if_congr hdv0 rfl rfl]
      cases d <;>
        simp [Point.ofFrame, hdu, hdv, ha, bind, Except.bind, pure, Except.pure, List.count_cons]
        <;> omega
    · rw [if_neg fun h => hv h.2]
      cases d <;> simp [Point.ofFrame, hdu, hout hv, ha, bind, Except.bind]
  · rw [if_neg fun h => hu h.1]
    by_cases hv : InRange32 (v'.toInt - v.toInt)
    · obtain ⟨dv, hdv, -⟩ := exists_checkedSub hv
      cases d <;> simp [Point.ofFrame, hout hu, hdv, ha, bind, Except.bind]
    · cases d <;> simp [Point.ofFrame, hout hu, hout hv, ha, bind, Except.bind]

/-! ## 3. Lifting -/

/-- The word of a number up to 16. -/
theorem toInt_ofNat_of_le {n : Nat} (h : n ≤ 16) : (Int32.ofNat n).toInt = n :=
  Int32.toInt_ofNat_of_lt (Nat.lt_of_le_of_lt h (by decide))

/-- The plane of a layer is computed without overflow, unless it is that of the largest word. -/
theorem Side.exists_plane (side : Side) {layer : Nat} (hlayer : layer < 0x7fffffff) :
    ∃ plane, checkedAdd (Int32.ofNat layer) (if side.isPositive then 1 else 0) = .ok plane ∧
      plane.toInt = layer + if side.isPositive then 1 else 0 := by
  have hword : (Int32.ofNat layer).toInt = layer := Int32.toInt_ofNat_of_lt (by omega)
  have hstep : (if side.isPositive then (1 : Int32) else 0).toInt =
      if side.isPositive then 1 else 0 := by
    cases side.isPositive <;> rfl
  have hrange : InRange32 (layer + if side.isPositive then 1 else 0) := by
    unfold InRange32
    split <;> omega
  refine ⟨_, ?_, toInt_ofInt32 hrange⟩
  unfold checkedAdd
  rw [hword, hstep]
  exact fit32_of_inRange _ hrange

/-- A patch inside the slice that is not empty. -/
structure Patch.Inside (p : Patch) : Prop where
  u1_nonneg : 0 ≤ p.u1.toInt
  u1_lt : p.u1.toInt < p.u2.toInt
  u2_le : p.u2.toInt ≤ 16
  v1_nonneg : 0 ≤ p.v1.toInt
  v1_lt : p.v1.toInt < p.v2.toInt
  v2_le : p.v2.toInt ≤ 16

/-- The quad of a patch in the plane of a layer, before the flatness check. -/
def Patch.placed (p : Patch) (side : Side) (plane : Int32) : Quad where
  material := p.material
  corner1 := Point.ofFrame side.axis plane (if side.isPositive then p.u1 else p.u2) p.v1
  corner2 := Point.ofFrame side.axis plane (if side.isPositive then p.u2 else p.u1) p.v2
  normal := side.normal
  light := p.light
  metadata := p.metadata

/-- How far the second corner of a placed patch lies behind the first one along the first
coordinate. -/
def Patch.run (p : Patch) (side : Side) : Int :=
  if side.isPositive then p.u2.toInt - p.u1.toInt else p.u1.toInt - p.u2.toInt

theorem Patch.sharedAxes_placed (p : Patch) (side : Side) (plane : Int32) :
    (p.placed side plane).sharedAxes =
      if InRange32 (p.run side) ∧ InRange32 (p.v2.toInt - p.v1.toInt) then
        .ok (1 + (if p.u1 = p.u2 then 1 else 0) + if p.v1 = p.v2 then 1 else 0)
      else .error (.overflow .subtract) := by
  have hflat := Quad.sharedAxes_ofFrame (q := p.placed side plane) rfl rfl
  rw [hflat]
  unfold run
  cases side.isPositive <;> simp [@eq_comm _ p.u2 p.u1, @eq_comm _ p.v2 p.v1]

/-- **What lifting does.**  Without words for how far the corners are apart it overflows; a patch
without places fails the flatness check; every other patch is lifted to where it is placed. -/
theorem Patch.lift_eq {p : Patch} {side : Side} {layer : Nat} {plane : Int32}
    (hplane : checkedAdd (Int32.ofNat layer) (if side.isPositive then 1 else 0) = .ok plane) :
    p.lift side layer =
      if InRange32 (p.run side) ∧ InRange32 (p.v2.toInt - p.v1.toInt) then
        if p.u1 = p.u2 ∨ p.v1 = p.v2 then .error .nonPlanar else .ok (p.placed side plane)
      else .error (.overflow .subtract) := by
  have hcheck : p.lift side layer =
      ((p.placed side plane).sharedAxes >>= fun flat =>
        if flat = 1 then .ok (p.placed side plane) else .error .nonPlanar) := by
    unfold lift placed
    rw [hplane]
    cases side.isPositive <;> rfl
  rw [hcheck, sharedAxes_placed]
  split
  · by_cases hu : p.u1 = p.u2 <;> by_cases hv : p.v1 = p.v2 <;> simp [hu, hv, bind, Except.bind]
  · rfl

namespace Patch.Inside

variable {p : Patch} (h : p.Inside) (side : Side) (plane : Int32)

include h

/-- A patch inside the slice is lifted to where it is placed. -/
theorem lift_eq_placed {side : Side} {layer : Nat} {plane : Int32}
    (hplane : checkedAdd (Int32.ofNat layer) (if side.isPositive then 1 else 0) = .ok plane) :
    p.lift side layer = .ok (p.placed side plane) := by
  obtain ⟨hu1, hu, hu2, hv1, hv, hv2⟩ := h
  have hrun : InRange32 (p.run side) := by
    unfold run InRange32
    split <;> omega
  have hheight : InRange32 (p.v2.toInt - p.v1.toInt) := by
    unfold InRange32
    omega
  rw [lift_eq hplane, if_pos ⟨hrun, hheight⟩, if_neg]
  rintro (heq | heq)
  · rw [heq] at hu
    omega
  · rw [heq] at hv
    omega

/-- The corners of a placed patch span its two extents, in whichever order they stand. -/
theorem spans_placed_next (k : Fin 16) :
    (p.placed side plane).Spans side.axis.next k ↔ p.u1.toInt ≤ k.val ∧ k.val < p.u2.toInt := by
  have hu := h.u1_lt
  unfold Quad.Spans placed
  simp only [Point.along_ofFrame_next]
  cases side.isPositive
  · simp only [Bool.false_eq_true, if_false]
    omega
  · simp only [if_true]
    omega

theorem spans_placed_next_next (k : Fin 16) :
    (p.placed side plane).Spans side.axis.next.next k ↔
      p.v1.toInt ≤ k.val ∧ k.val < p.v2.toInt := by
  have hv := h.v1_lt
  unfold Quad.Spans placed
  simp only [Point.along_ofFrame_next_next]
  omega

theorem inChunk_placed (hplane : 0 ≤ plane.toInt ∧ plane.toInt ≤ 16) :
    (p.placed side plane).InChunk := by
  obtain ⟨hu1, hu, hu2, hv1, hv, hv2⟩ := h
  intro d
  unfold placed
  rcases Axis.eq_or_next side.axis d with rfl | rfl | rfl
  · simp only [Point.along_ofFrame]
    exact ⟨hplane, hplane⟩
  · simp only [Point.along_ofFrame_next]
    cases side.isPositive
    · simp only [Bool.false_eq_true, if_false]
      omega
    · simp only [if_true]
      omega
  · simp only [Point.along_ofFrame_next_next]
    omega

/-- **A placed patch covers exactly the faces of its places in its layer.** -/
theorem covers_placed {layer : Fin 16} (hplane : plane.toInt = side.plane layer) (cell : Cell)
    (t : Side) :
    (p.placed side plane).Covers cell t ↔ t = side ∧ cell.along side.axis = layer ∧
      (p.u1.toInt ≤ (cell.along side.axis.next).val ∧
        (cell.along side.axis.next).val < p.u2.toInt) ∧
      p.v1.toInt ≤ (cell.along side.axis.next.next).val ∧
        (cell.along side.axis.next.next).val < p.v2.toInt := by
  have hplaneIff : plane.toInt = side.plane (cell.along side.axis) ↔
      cell.along side.axis = layer := by
    rw [hplane]
    unfold Side.plane
    rw [Fin.ext_iff]
    omega
  constructor
  · rintro ⟨hnormal, ⟨hat, -⟩, hnext, hnextNext⟩
    have ht : t = side := (Side.normal_injective hnormal).symm
    subst ht
    simp only [placed, Point.along_ofFrame] at hat
    exact ⟨rfl, hplaneIff.mp hat, (h.spans_placed_next t plane _).mp hnext,
      (h.spans_placed_next_next t plane _).mp hnextNext⟩
  · rintro ⟨rfl, hat, hnext, hnextNext⟩
    refine ⟨rfl, ?_, (h.spans_placed_next t plane _).mpr hnext,
      (h.spans_placed_next_next t plane _).mpr hnextNext⟩
    simp only [placed, Point.along_ofFrame]
    exact ⟨hplaneIff.mpr hat, hplaneIff.mpr hat⟩

end Patch.Inside

/-! ## 4. Pieces -/

namespace Slice.Piece

variable {s : Slice} {p : Piece}

/-- What a lifted piece is: a quad that covers the faces of the piece's places in a layer, drawn
like the face at the first of them. -/
structure Lifted (s : Slice) (p : Piece) (side : Side) (layer : Fin 16) (q : Quad) : Prop where
  material : q.material = p.material
  light : q.light = (s.get p.extent.i p.extent.j).light
  metadata : q.metadata = (s.get p.extent.i p.extent.j).block.level
  inChunk : q.InChunk
  covers : ∀ cell t, q.Covers cell t ↔ t = side ∧ cell.along side.axis = layer ∧
    (cell.along side.axis.next, cell.along side.axis.next.next) ∈ p.extent.places

/-- The corners of the patch on a piece are the ends of its extents. -/
theorem patch_toInt (hfits : p.extent.Fits) :
    (p.patch s).u1.toInt = p.extent.i.val ∧
      (p.patch s).u2.toInt = (p.extent.i.val + p.extent.width : Nat) ∧
      (p.patch s).v1.toInt = p.extent.j.val ∧
      (p.patch s).v2.toInt = (p.extent.j.val + p.extent.height : Nat) := by
  obtain ⟨hw, hh, hwle, hhle⟩ := hfits
  exact ⟨toInt_ofNat_of_le (by omega), toInt_ofNat_of_le hwle, toInt_ofNat_of_le (by omega),
    toInt_ofNat_of_le hhle⟩

theorem patch_inside (hfits : p.extent.Fits) : (p.patch s).Inside := by
  obtain ⟨hu1, hu2, hv1, hv2⟩ := patch_toInt (s := s) hfits
  obtain ⟨hw, hh, hwle, hhle⟩ := hfits
  constructor <;> omega

/-- **A piece that fits is lifted** onto the faces of its places. -/
theorem exists_lift (hfits : p.extent.Fits) (side : Side) (layer : Fin 16) :
    ∃ q, (p.patch s).lift side layer.val = .ok q ∧ p.Lifted s side layer q := by
  have hinside : (p.patch s).Inside := patch_inside hfits
  obtain ⟨hu1, hu2, hv1, hv2⟩ := patch_toInt (s := s) hfits
  obtain ⟨plane, hplane, hplaneInt⟩ :=
    side.exists_plane (Nat.lt_of_lt_of_le layer.2 (by decide))
  refine ⟨_, hinside.lift_eq_placed hplane, ?_⟩
  constructor
  · rfl
  · rfl
  · rfl
  · refine hinside.inChunk_placed side plane ?_
    have hl := layer.2
    rw [hplaneInt]
    split <;> omega
  · intro cell t
    rw [hinside.covers_placed side plane hplaneInt, hu1, hu2, hv1, hv2, Extent.mem_places]
    simp only [Fin.le_def]
    norm_cast

end Slice.Piece

end Blockworld
