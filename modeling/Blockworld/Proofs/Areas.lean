/-
# The areas of quads add up

Meshing a layer fails exactly on corrupt cells, and what it returns when it does not fail accounts
for every face: the areas of the quads add up to the number of faces (`Slice.quads_exact`).

The sum is taken along the scan.  `Slice.openCount` is the number of faces that are not covered yet.
A rectangle that has grown lies on open places only, so laying it takes its area off that number
(`Slice.Grown.openCount_eq`), and when the scan is over nothing is open.  At the outset the open
places are the faces (`Slice.openCount_empty`).

Lifting does not change an area: the corners of a lifted patch lie in one plane, and on the other two
axes they are as far apart as those of the patch, in whichever order they stand
(`Slice.Piece.exists_liftsTo`).
-/
import Blockworld.Proofs.Accesses
import Blockworld.Proofs.Corruption

namespace Blockworld

/-! ## 1. The area of a quad -/

namespace Quad

/-- How far the corners are apart on an axis. -/
def extent (q : Quad) (d : Axis) : Nat :=
  ((q.corner2.along d).toInt - (q.corner1.along d).toInt).natAbs

/-- The number of faces that a quad across an axis has room for. -/
def area (q : Quad) (d : Axis) : Nat := q.extent d.next * q.extent d.next.next

/-- The areas of several quads across one axis together. -/
def totalArea (d : Axis) (qs : List Quad) : Nat := qs.foldr (fun q n => q.area d + n) 0

end Quad

/-- A quad that a patch in a layer is lifted to: flat on the plane of the layer, and as large as the
patch. -/
structure Patch.LiftsTo (p : Patch) (side : Side) (layer : Fin 16) (q : Quad) : Prop where
  lift : p.lift side layer.val = .ok q
  flat : q.corner1.along side.axis = q.corner2.along side.axis
  area : ∃ a, p.area = .ok a ∧ a.toInt = q.area side.axis

/-- The number of places of a rectangle that does not leave the slice. -/
def Extent.area (e : Extent) : Nat := e.width * e.height

/-- An area of at most 256 faces fits a word. -/
theorem Patch.area_eq_ok {p : Patch} (h : p.Inside) :
    ∃ a, p.area = .ok a ∧
      a.toInt = (p.u2.toInt - p.u1.toInt) * (p.v2.toInt - p.v1.toInt) := by
  obtain ⟨hu1, hu, hu2, hv1, hv, hv2⟩ := h
  have hwidth : InRange32 (p.u2.toInt - p.u1.toInt) := by
    unfold InRange32
    omega
  have hheight : InRange32 (p.v2.toInt - p.v1.toInt) := by
    unfold InRange32
    omega
  have hproduct : InRange32 ((p.u2.toInt - p.u1.toInt) * (p.v2.toInt - p.v1.toInt)) := by
    have hlow : 0 ≤ (p.u2.toInt - p.u1.toInt) * (p.v2.toInt - p.v1.toInt) :=
      Int.mul_nonneg (by omega) (by omega)
    have hhigh : (p.u2.toInt - p.u1.toInt) * (p.v2.toInt - p.v1.toInt) ≤ 16 * 16 :=
      Int.mul_le_mul (by omega) (by omega) (by omega) (by omega)
    unfold InRange32
    omega
  refine ⟨_, ?_, toInt_ofInt32 hproduct⟩
  unfold area width height checkedSub checkedMul
  rw [fit32_of_inRange _ hwidth, fit32_of_inRange _ hheight]
  simp only [bind, Except.bind]
  rw [toInt_ofInt32 hwidth, toInt_ofInt32 hheight, fit32_of_inRange _ hproduct]

/-- **A placed patch is as large as the patch**, on either side of a layer. -/
theorem Patch.Inside.area_placed {p : Patch} (h : p.Inside) (side : Side) (plane : Int32) :
    ((p.placed side plane).area side.axis : Int) =
      (p.u2.toInt - p.u1.toInt) * (p.v2.toInt - p.v1.toInt) := by
  have hu := h.u1_lt
  have hv := h.v1_lt
  have hnext : ((p.placed side plane).extent side.axis.next : Int) = p.u2.toInt - p.u1.toInt := by
    unfold Quad.extent placed
    simp only [Point.along_ofFrame_next]
    cases side.isPositive
    · simp only [Bool.false_eq_true, if_false]
      omega
    · simp only [if_true]
      omega
  have hnextNext : ((p.placed side plane).extent side.axis.next.next : Int) =
      p.v2.toInt - p.v1.toInt := by
    unfold Quad.extent placed
    simp only [Point.along_ofFrame_next_next]
    omega
  unfold Quad.area
  rw [Int.natCast_mul, hnext, hnextNext]

/-! ## 2. Open places along the scan -/

/-- Places in scan order are listed once each. -/
theorem Slice.nodup_of_before {places : List (Fin 16 × Fin 16)} (h : places.Pairwise Before) :
    places.Nodup := by
  refine h.imp ?_
  rintro p _ hbefore rfl
  rcases hbefore with hlt | ⟨-, hlt⟩
  · exact absurd hlt (Fin.lt_irrefl _)
  · exact absurd hlt (Fin.lt_irrefl _)

theorem Extent.nodup_places (e : Extent) : e.places.Nodup := by
  have hascending : ∀ (start : Fin 16) (count : Nat),
      (coordinatesFrom start count).Pairwise (· < ·) := fun start count =>
    ((List.pairwise_lt_finRange 16).sublist (List.drop_sublist _ _)).sublist
      (List.take_sublist _ _)
  exact Slice.nodup_of_before
    (Slice.pairwise_product (hascending e.i e.width) (hascending e.j e.height))

/-- **A rectangle has as many places as its area says**, if it does not leave the slice. -/
theorem Extent.Fits.length_places {e : Extent} (h : e.Fits) : e.places.length = e.area := by
  have hwidth : (coordinatesFrom e.i e.width).length = e.width := by
    simpa using congrArg List.length (map_val_coordinatesFrom h.width_le)
  have hheight : (coordinatesFrom e.j e.height).length = e.height := by
    simpa using congrArg List.length (map_val_coordinatesFrom h.height_le)
  unfold places area
  rw [List.length_flatMap]
  simp only [List.length_map, hheight, List.map_const', List.sum_replicate_nat, hwidth]

namespace Slice

variable {s : Slice} {mask : Mask} {m : Material} {e : Extent}

theorem nodup_scanOrder : scanOrder.Nodup := nodup_of_before pairwise_scanOrder

/-- The number of faces that are not covered. -/
def openCount (s : Slice) (mask : Mask) : Nat :=
  scanOrder.countP fun p => decide (s.IsOpen mask p.1 p.2)

/-- Of all places as many lie in a rectangle as it has. -/
theorem countP_mem_places (e : Extent) :
    scanOrder.countP (fun p => decide (p ∈ e.places)) = e.places.length := by
  rw [List.countP_eq_length_filter]
  refine List.Perm.length_eq ((List.perm_ext_iff_of_nodup
    (List.Pairwise.filter _ nodup_scanOrder) e.nodup_places).mpr fun p => ?_)
  rw [List.mem_filter, decide_eq_true_iff]
  exact and_iff_right (mem_scanOrder p.1 p.2)

/-- **Laying a rectangle takes its area off the number of open places.** -/
theorem Grown.openCount_eq (h : s.Grown mask m e) (hair : m ≠ .air) :
    s.openCount mask = e.area + s.openCount (mask.cover e) := by
  unfold openCount
  rw [List.countP_eq_countP_filter_add _ _ fun p => decide (p ∈ e.places), List.countP_filter,
    List.countP_filter, ← h.fits.length_places, ← countP_mem_places]
  congr 1
  · refine List.countP_congr fun p _ => ?_
    rw [Bool.and_eq_true, decide_eq_true_iff, decide_eq_true_iff]
    exact and_iff_right_of_imp fun hp => (h.openTo p hp).isOpen hair
  · refine List.countP_congr fun p _ => ?_
    rw [Bool.and_eq_true, Bool.not_eq_true', decide_eq_true_iff, decide_eq_false_iff_not,
      decide_eq_true_iff]
    exact isOpen_cover_iff.symm

/-- The areas of several pieces together. -/
def Piece.totalArea (pieces : List Piece) : Nat :=
  pieces.foldr (fun p n => p.extent.area + n) 0

/-- **The pieces of a paving are together as large as what was open.** -/
theorem Paving.totalArea_eq {pieces : List Piece} (h : s.Paving mask pieces) :
    Piece.totalArea pieces = s.openCount mask := by
  induction h with
  | nil hclosed =>
    symm
    exact List.countP_eq_zero.mpr fun p _ => by simpa using hclosed p.1 p.2
  | cons hair hgrown _ _ ih =>
    rw [hgrown.openCount_eq hair, ← ih]
    rfl

/-- The numbers of the places in scan order are all there are. -/
theorem perm_scanOrder : (scanOrder.map fun p => index p.1 p.2).Perm (List.finRange 256) := by
  have hnodup : (scanOrder.map fun p => index p.1 p.2).Nodup := by
    refine List.Pairwise.map _ (fun p q hne heq => hne ?_) nodup_scanOrder
    obtain ⟨hi, hj⟩ := index_inj.mp heq
    exact Prod.ext hi hj
  refine (List.perm_ext_iff_of_nodup hnodup (List.nodup_finRange 256)).mpr fun k => ?_
  exact iff_of_true (List.mem_map.mpr ⟨(column k, row k), mem_scanOrder _ _, index_column_row k⟩)
    (List.mem_finRange k)

/-- **At the outset every face is open.** -/
theorem openCount_empty (s : Slice) : s.openCount Mask.empty = s.size := by
  have hcells : s.cells.toList = (List.finRange 256).map fun k => s.cells[k] := by
    apply List.ext_getElem
    · simp
    · intro n hn hn'
      simp
  unfold openCount size
  rw [← Vector.countP_toList, hcells, List.countP_map, ← perm_scanOrder.countP_eq, List.countP_map]
  refine List.countP_congr fun p _ => ?_
  simp [IsOpen, get]

/-! ## 3. Lifted pieces -/

/-- **A piece is lifted to a quad of its area.** -/
theorem Piece.exists_liftsTo (s : Slice) {p : Piece} (hfits : p.extent.Fits) (side : Side)
    (layer : Fin 16) :
    ∃ q, (p.patch s).LiftsTo side layer q ∧ q.area side.axis = p.extent.area := by
  have hinside : (p.patch s).Inside := Piece.patch_inside hfits
  obtain ⟨hu1, hu2, hv1, hv2⟩ := Piece.patch_toInt (s := s) hfits
  obtain ⟨plane, hplane, -⟩ := side.exists_plane (Nat.lt_of_lt_of_le layer.2 (by decide))
  obtain ⟨a, ha, hvalue⟩ := Patch.area_eq_ok hinside
  have harea := hinside.area_placed side plane
  refine ⟨(p.patch s).placed side plane, ⟨?_, ?_, a, ha, hvalue.trans harea.symm⟩, ?_⟩
  · exact hinside.lift_eq_placed hplane
  · simp [Patch.placed]
  · have hproduct : ((p.extent.area : Nat) : Int) =
        ((p.patch s).u2.toInt - (p.patch s).u1.toInt) *
          ((p.patch s).v2.toInt - (p.patch s).v1.toInt) := by
      rw [hu1, hu2, hv1, hv2, Extent.area, Int.natCast_mul]
      congr 1 <;> omega
    exact Int.ofNat_inj.mp (harea.trans hproduct.symm)

/-- The pieces of a list are lifted one by one, and keep their area together. -/
theorem exists_gather_liftsTo (s : Slice) (side : Side) (layer : Fin 16) {pieces : List Piece}
    (h : ∀ p ∈ pieces, p.extent.Fits) :
    ∃ qs,
      gather (fun p => (p.lift side layer.val).map ([·])) (pieces.map (Piece.patch s)) = .ok qs ∧
      List.Forall₂ (fun p q => p.LiftsTo side layer q) (pieces.map (Piece.patch s)) qs ∧
      Quad.totalArea side.axis qs = Piece.totalArea pieces := by
  induction pieces with
  | nil => exact ⟨[], rfl, .nil, rfl⟩
  | cons p rest ih =>
    obtain ⟨q, hq, harea⟩ := Piece.exists_liftsTo s (h p List.mem_cons_self) side layer
    obtain ⟨qs, hqs, hall, htotal⟩ := ih fun p' hp' => h p' (List.mem_cons_of_mem _ hp')
    refine ⟨q :: qs, ?_, .cons hq hall, ?_⟩
    · exact gather_cons_eq_ok (by rw [hq.lift]; rfl) hqs
    · show q.area side.axis + Quad.totalArea side.axis qs = p.extent.area + Piece.totalArea rest
      rw [harea, htotal]

/-! ## 4. Meshing a layer -/

/-- A slice with a code above 7 in one of its places. -/
def Corrupt (s : Slice) : Prop := ∃ i j, 7 < (s.get i j).block.code

theorem not_known_iff (s : Slice) : ¬s.Known ↔ s.Corrupt := by
  unfold Known Corrupt
  simp only [not_forall, Block.not_known_iff]

/-- The fault that an unknown code of a place of the slice leads to. -/
theorem exists_code_of_error {f : Fault} (h : s.merge = .error f) :
    ∃ i j, 7 < (s.get i j).block.code ∧ f = .unknownBlockCode (s.get i j).block.code := by
  obtain ⟨i, j, hfault⟩ := mergeFrom_error h
  have hcode : f = .unknownBlockCode (s.get i j).block.code := by
    unfold Block.material Material.decode at hfault
    split at hfault <;> cases hfault
    rfl
  obtain ⟨code, hhigh, hcode'⟩ := (Block.decodes_material _).error f hfault
  rw [hcode] at hcode'
  cases hcode'
  exact ⟨i, j, hhigh, hcode⟩

/-- **What comes of a slice once its faces are merged**: a quad for each patch. -/
theorem quads_of_merge {patches : List Patch} (h : s.merge = .ok patches) :
    ∃ qs, s.quads = .ok qs ∧
      List.Forall₂ (fun p q => p.LiftsTo s.side s.layer q) patches qs ∧
      Quad.totalArea s.side.axis qs = s.size := by
  obtain ⟨pieces, rfl, hpaving⟩ := merge_spec h
  obtain ⟨qs, hqs, hall, htotal⟩ :=
    exists_gather_liftsTo s s.side s.layer hpaving.tiling.fits
  refine ⟨qs, ?_, hall, ?_⟩
  · unfold quads
    rw [h]
    exact hqs
  · rw [htotal, hpaving.totalArea_eq, openCount_empty]

/-- **Meshing a layer fails exactly on corrupt cells.**  Merging and meshing fail together, on the
unknown code of some cell, and neither of them on anything else: no look at a place is out of range,
and no quad fails to be flat.  When they succeed there is one quad for each patch, of the area of the
patch, and the areas add up to the number of faces. -/
theorem quads_exact (s : Slice) :
    s.mergeByNumber = s.merge ∧
      ((∃ f, s.merge = .error f) ↔ s.Corrupt) ∧
      ((∃ f, s.quads = .error f) ↔ s.Corrupt) ∧
      (∀ f, s.merge = .error f ∨ s.quads = .error f →
        ∃ i j, 7 < (s.get i j).block.code ∧ f = .unknownBlockCode (s.get i j).block.code) ∧
      ∀ qs, s.quads = .ok qs → ∃ patches, s.merge = .ok patches ∧
        List.Forall₂ (fun p q => p.LiftsTo s.side s.layer q) patches qs ∧
        Quad.totalArea s.side.axis qs = s.size := by
  have hquads : ∀ f, s.quads = .error f → s.merge = .error f := by
    intro f hf
    cases hmerge : s.merge with
    | ok patches =>
      obtain ⟨qs, hqs, -⟩ := quads_of_merge hmerge
      rw [hqs] at hf
      cases hf
    | error g =>
      unfold quads at hf
      rw [hmerge] at hf
      cases hf
      rfl
  refine ⟨s.mergeByNumber_eq, ?_, ?_, ?_, ?_⟩
  · exact s.decodes_merge.fails_iff.trans s.not_known_iff
  · exact s.decodes_quads.fails_iff.trans s.not_known_iff
  · rintro f (hf | hf)
    · exact exists_code_of_error hf
    · exact exists_code_of_error (hquads f hf)
  · intro qs hqs
    cases hmerge : s.merge with
    | ok patches =>
      obtain ⟨qs', hqs', hall, htotal⟩ := quads_of_merge hmerge
      rw [hqs] at hqs'
      cases hqs'
      exact ⟨patches, rfl, hall, htotal⟩
    | error f =>
      unfold quads at hqs
      rw [hmerge] at hqs
      cases hqs

end Slice

end Blockworld
