/-
# A slice has one canonical cover, and merging finds it

A list of patches is a CANONICAL cover of a slice (`Slice.Canonical`) when its rectangles lie in the
slice in the order of their first places, cover each face exactly once and nothing else, keep
liquids single, and are otherwise maximal: behind its first column, and behind its last one, a patch
meets a place that holds another material or is covered by an earlier patch.  None of this mentions
the scan.

On known codes merging returns the canonical cover, and there is no other
(`Slice.merge_unique_canonical`).  The way there:

* `Slice.Laid` is the canonical cover in terms of pieces, with the mask that the earlier pieces
  leave behind (`Mask.coverAll`), and `Slice.paving_iff_laid` proves that the pieces of a paving are
  the laid ones.  The order of the first places gives that a piece starts at the first open place,
  because the piece over that place cannot start behind it;
* `Slice.Paving.unique`: from a given mask there is one paving.  The first open place and the
  material there are given, and a rectangle that has grown from there cannot have grown otherwise;
* `Slice.Laid.canonical` and `Slice.Canonical.laid` translate between patches, with words for
  corners, and pieces.
-/
import Blockworld.Proofs.Lift

namespace Blockworld

/-! ## 1. Canonical covers -/

/-- The order of the first places, the first coordinate first. -/
def Patch.StartsBefore (p q : Patch) : Prop :=
  p.u1.toInt < q.u1.toInt ∨ p.u1.toInt = q.u1.toInt ∧ p.v1.toInt < q.v1.toInt

namespace Slice

/-- A place that cannot join a patch: it holds another material, or an earlier patch covers it. -/
def Taken (s : Slice) (earlier : List Patch) (m : Material) (i j : Fin 16) : Prop :=
  (s.get i j).block.material ≠ .ok m ∨ ∃ q ∈ earlier, q.covers i.val j.val = true

/-- A patch can grow in neither direction: the place behind its first column is taken, and so is a
place of the column behind its last one. -/
structure Maximal (s : Slice) (earlier : List Patch) (p : Patch) : Prop where
  tall : ∀ i j : Fin 16, (i.val : Int) = p.u1.toInt → (j.val : Int) = p.v2.toInt →
    s.Taken earlier p.material i j
  wide : ∀ i : Fin 16, (i.val : Int) = p.u2.toInt →
    ∃ j : Fin 16, (p.v1.toInt ≤ j.val ∧ (j.val : Int) < p.v2.toInt) ∧
      s.Taken earlier p.material i j

/-- **A canonical cover of a slice.** -/
structure Canonical (s : Slice) (patches : List Patch) : Prop where
  inside : ∀ p ∈ patches, p.Inside
  ordered : patches.Pairwise Patch.StartsBefore
  count : ∀ i j : Fin 16, patches.countP (fun p => p.covers i.val j.val) =
    if (s.get i j).isEmpty then 0 else 1
  material : ∀ p ∈ patches, ∀ i j : Fin 16, p.covers i.val j.val = true →
    (s.get i j).block.material = .ok p.material
  single : ∀ p ∈ patches, p.material.isLiquid = true →
    p.u2.toInt = p.u1.toInt + 1 ∧ p.v2.toInt = p.v1.toInt + 1
  maximal : ∀ earlier p later, patches = earlier ++ p :: later → p.material.isLiquid = false →
    s.Maximal earlier p
  drawn : ∀ p ∈ patches, ∀ i j : Fin 16, (i.val : Int) = p.u1.toInt → (j.val : Int) = p.v1.toInt →
    p.light = (s.get i j).light ∧ p.metadata = (s.get i j).block.level

end Slice

/-! ## 2. Covering pieces one after the other -/

/-- Covers the places of pieces. -/
def Mask.coverAll (mask : Mask) (pieces : List Slice.Piece) : Mask :=
  pieces.foldl (fun mask p => mask.cover p.extent) mask

/-- What pieces leave uncovered. -/
theorem Mask.get_coverAll_eq_false_iff {mask : Mask} {pieces : List Slice.Piece} {i j : Fin 16} :
    (mask.coverAll pieces).get i j = false ↔
      mask.get i j = false ∧ ∀ p ∈ pieces, (i, j) ∉ p.extent.places := by
  unfold coverAll
  induction pieces generalizing mask with
  | nil => simp
  | cons p rest ih =>
    rw [List.foldl_cons, ih, Mask.get_cover, Bool.or_eq_false_iff, decide_eq_false_iff_not,
      List.forall_mem_cons]
    exact ⟨fun ⟨⟨hp, hmask⟩, hrest⟩ => ⟨hmask, hp, hrest⟩,
      fun ⟨hmask, hp, hrest⟩ => ⟨⟨hp, hmask⟩, hrest⟩⟩

namespace Slice

variable {s : Slice} {mask : Mask} {m : Material} {pieces : List Piece}

theorem Before.trans {p q r : Fin 16 × Fin 16} (h : Before p q) (h' : Before q r) :
    Before p r := by
  unfold Before at *
  simp only [Fin.lt_def, Fin.ext_iff] at *
  omega

theorem Before.asymm {p q : Fin 16 × Fin 16} (h : Before p q) : ¬Before q p := by
  unfold Before at *
  simp only [Fin.lt_def, Fin.ext_iff] at *
  omega

/-- The first place of a rectangle comes before its other places. -/
theorem Piece.start_eq_or_before {p : Piece} {q : Fin 16 × Fin 16} (h : q ∈ p.extent.places) :
    q = p.start ∨ Before p.start q := by
  obtain ⟨⟨hi, -⟩, hj, -⟩ := Extent.mem_places.mp h
  obtain ⟨i, j⟩ := q
  unfold Before start
  simp only [Prod.mk.injEq, Fin.lt_def, Fin.le_def, Fin.ext_iff] at *
  omega

/-- **A cover by pieces**: a tiling in the order of first places, in which every piece has grown
over what the earlier ones left open. -/
structure Laid (s : Slice) (mask : Mask) (pieces : List Piece) : Prop where
  ordered : pieces.Pairwise fun p q => Before p.start q.start
  tiling : s.Tiling mask pieces
  grown : ∀ earlier p later, pieces = earlier ++ p :: later →
    s.Grown (mask.coverAll earlier) p.material p.extent

/-- The first piece starts at the first open place. -/
theorem Laid.first {p : Piece} (h : s.Laid mask (p :: pieces)) {i j : Fin 16}
    (hopen : s.IsOpen mask i j) : (i, j) = p.start ∨ Before p.start (i, j) := by
  obtain ⟨q, hq, hmem⟩ := h.tiling.exists_mem hopen
  rcases List.mem_cons.mp hq with rfl | hq
  · exact Piece.start_eq_or_before hmem
  · have hpq : Before p.start q.start := List.rel_of_pairwise_cons h.ordered hq
    rcases Piece.start_eq_or_before hmem with heq | hbefore
    · exact .inr (heq ▸ hpq)
    · exact .inr (hpq.trans hbefore)

/-- The pieces behind the first one tile what it leaves open. -/
theorem Tiling.tail {p : Piece} (h : s.Tiling mask (p :: pieces)) :
    s.Tiling (mask.cover p.extent) pieces where
  fits := fun q hq => h.fits q (List.mem_cons_of_mem _ hq)
  material := fun q hq => h.material q (List.mem_cons_of_mem _ hq)
  count := by
    intro i j
    have hcount := h.count i j
    rw [List.countP_cons] at hcount
    by_cases hp : (i, j) ∈ p.extent.places
    · have hnow : s.IsOpen mask i j := h.isOpen List.mem_cons_self hp
      have hthen : ¬s.IsOpen (mask.cover p.extent) i j := fun h => (isOpen_cover_iff.mp h).2 hp
      simp only [hp, decide_true, if_true, if_pos hnow] at hcount
      rw [if_neg hthen]
      omega
    · have hiff : s.IsOpen (mask.cover p.extent) i j ↔ s.IsOpen mask i j :=
        isOpen_cover_iff.trans (and_iff_left hp)
      simpa [hp, hiff] using hcount

theorem Laid.tail {p : Piece} (h : s.Laid mask (p :: pieces)) :
    s.Laid (mask.cover p.extent) pieces where
  ordered := h.ordered.tail
  tiling := h.tiling.tail
  grown := by
    rintro earlier q later rfl
    exact h.grown (p :: earlier) q later rfl

/-- A piece starts at an open place. -/
theorem Tiling.isOpen_start (h : s.Tiling mask pieces) {p : Piece} (hp : p ∈ pieces) :
    s.IsOpen mask p.start.1 p.start.2 :=
  h.isOpen hp (h.fits p hp).mem_places

/-- **The pieces of a paving are laid.** -/
theorem Paving.laid (h : s.Paving mask pieces) : s.Laid mask pieces := by
  induction h with
  | nil hclosed =>
    refine ⟨.nil, (Paving.nil hclosed).tiling, fun earlier p later heq => ?_⟩
    simp at heq
  | @cons mask p pieces hair hgrown hfirst h ih =>
    refine ⟨List.pairwise_cons.mpr ⟨fun q hq => ?_, ih.ordered⟩,
      (Paving.cons hair hgrown hfirst h).tiling, fun earlier q later heq => ?_⟩
    · -- a later piece starts at a place that is open still, and the first start is covered by then
      obtain ⟨hopen, hout⟩ := isOpen_cover_iff.mp (ih.tiling.isOpen_start hq)
      rcases hfirst _ _ hopen with heq | hbefore
      · rw [heq] at hout
        exact absurd hgrown.fits.mem_places hout
      · exact hbefore
    · cases earlier with
      | nil =>
        cases heq
        exact hgrown
      | cons p' earlier =>
        obtain ⟨rfl, rfl⟩ := List.cons.inj heq
        exact ih.grown earlier q later rfl

/-- **Laid pieces are the pieces of a paving.** -/
theorem Laid.paving (h : s.Laid mask pieces) : s.Paving mask pieces := by
  induction pieces generalizing mask with
  | nil =>
    refine .nil fun i j hopen => ?_
    obtain ⟨p, hp, -⟩ := h.tiling.exists_mem hopen
    cases hp
  | cons p rest ih =>
    have hgrown : s.Grown mask p.material p.extent := h.grown [] p rest rfl
    have hair : p.material ≠ .air :=
      (h.tiling.isOpen_start List.mem_cons_self).material_ne
        (hgrown.openTo _ hgrown.fits.mem_places).2
    exact .cons hair hgrown (fun i j hopen => h.first hopen) (ih h.tail)

theorem paving_iff_laid : s.Paving mask pieces ↔ s.Laid mask pieces :=
  ⟨Paving.laid, Laid.paving⟩

/-! ## 3. There is one paving -/

/-- The places of the first column of a rectangle. -/
theorem mem_places_column {e : Extent} (h : e.Fits) {j : Fin 16} (hle : e.j ≤ j)
    (hlt : j.val < e.j.val + e.height) : (e.i, j) ∈ e.places := by
  have hw := h.width_pos
  exact Extent.mem_places.mpr ⟨⟨Fin.le_refl _, by dsimp only; omega⟩, hle, hlt⟩

/-- Of two rectangles that have grown from one place, none is lower than the other. -/
theorem Grown.height_le {e e' : Extent} (h : s.Grown mask m e) (h' : s.Grown mask m e')
    (hi : e.i = e'.i) (hj : e.j = e'.j) : e.height ≤ e'.height := by
  by_contra hlt
  have hfits := h.fits.height_le
  cases hm : m.canMerge with
  | false =>
    have := (h.single hm).2
    have := (h'.single hm).2
    omega
  | true =>
    -- the place behind the first column of the lower one lies in the higher one
    have hk : e'.j.val + e'.height < 16 := by omega
    refine h'.tall hm ⟨e'.j.val + e'.height, hk⟩ rfl ?_
    rw [← hi]
    refine h.openTo _ (mem_places_column h.fits ?_ ?_)
    · rw [hj]
      exact Nat.le_add_right ..
    · dsimp only
      omega

/-- Nor is one narrower, if their heights are equal. -/
theorem Grown.width_le {e e' : Extent} (h : s.Grown mask m e) (h' : s.Grown mask m e')
    (hi : e.i = e'.i) (hj : e.j = e'.j) (hheight : e.height = e'.height) :
    e.width ≤ e'.width := by
  by_contra hlt
  have hfits := h.fits.width_le
  cases hm : m.canMerge with
  | false =>
    have := (h.single hm).1
    have := (h'.single hm).1
    omega
  | true =>
    have hk : e'.i.val + e'.width < 16 := by omega
    obtain ⟨j, hmem, hfails⟩ := h'.wide hm ⟨e'.i.val + e'.width, hk⟩ rfl
    refine hfails (h.openTo _ (Extent.mem_places.mpr ⟨⟨?_, ?_⟩, ?_⟩))
    · rw [hi]
      exact Nat.le_add_right ..
    · dsimp only
      omega
    · rw [hj, hheight]
      exact mem_coordinatesFrom.mp hmem

/-- **A rectangle grows in one way only.** -/
theorem Grown.unique {e e' : Extent} (h : s.Grown mask m e) (h' : s.Grown mask m e')
    (hi : e.i = e'.i) (hj : e.j = e'.j) : e = e' := by
  have hheight : e.height = e'.height :=
    Nat.le_antisymm (h.height_le h' hi hj) (h'.height_le h hi.symm hj.symm)
  have hwidth : e.width = e'.width :=
    Nat.le_antisymm (h.width_le h' hi hj hheight) (h'.width_le h hi.symm hj.symm hheight.symm)
  obtain ⟨i, j, width, height⟩ := e
  obtain ⟨i', j', width', height'⟩ := e'
  simp_all

/-- The first place of a piece that has grown is open. -/
theorem Grown.isOpen_start {p : Piece} (h : s.Grown mask p.material p.extent)
    (hair : p.material ≠ .air) : s.IsOpen mask p.start.1 p.start.2 :=
  (h.openTo _ h.fits.mem_places).isOpen hair

/-- **From a given mask there is one paving.** -/
theorem Paving.unique {pieces' : List Piece} (h : s.Paving mask pieces)
    (h' : s.Paving mask pieces') : pieces = pieces' := by
  induction h generalizing pieces' with
  | nil hclosed =>
    cases h' with
    | nil => rfl
    | cons hair hgrown => exact absurd (hgrown.isOpen_start hair) (hclosed _ _)
  | @cons mask p rest hair hgrown hfirst h ih =>
    cases h' with
    | nil hclosed => exact absurd (hgrown.isOpen_start hair) (hclosed _ _)
    | @cons _ p' rest' hair' hgrown' hfirst' h' =>
      -- each start is not behind the other
      have hstart : p.start = p'.start := by
        rcases hfirst' _ _ (hgrown.isOpen_start hair) with heq | hbefore'
        · exact heq
        · rcases hfirst _ _ (hgrown'.isOpen_start hair') with heq | hbefore
          · exact heq.symm
          · exact absurd hbefore hbefore'.asymm
      obtain ⟨hi, hj⟩ := Prod.mk.inj hstart
      have hmaterial : p.material = p'.material := by
        have hp := (hgrown.openTo _ hgrown.fits.mem_places).2
        have hp' := (hgrown'.openTo _ hgrown'.fits.mem_places).2
        simp only [hi, hj] at hp
        exact Except.ok.inj (hp.symm.trans hp')
      have hextent : p.extent = p'.extent := hgrown.unique (hmaterial ▸ hgrown') hi hj
      have hpiece : p = p' := by
        obtain ⟨m, e⟩ := p
        obtain ⟨m', e'⟩ := p'
        simp_all
      subst hpiece
      rw [ih h']

end Slice

/-! ## 4. Patches and pieces -/

/-- The piece below a patch. -/
def Patch.piece (p : Patch) : Slice.Piece where
  material := p.material
  extent :=
    { i := ⟨p.u1.toInt.toNat % 16, Nat.mod_lt _ (by decide)⟩
      j := ⟨p.v1.toInt.toNat % 16, Nat.mod_lt _ (by decide)⟩
      width := (p.u2.toInt - p.u1.toInt).toNat
      height := (p.v2.toInt - p.v1.toInt).toNat }

/-- The coordinates of the first place of a patch. -/
theorem Patch.Inside.start_piece {p : Patch} (h : p.Inside) :
    (p.piece.extent.i.val : Int) = p.u1.toInt ∧ (p.piece.extent.j.val : Int) = p.v1.toInt := by
  obtain ⟨hu1, hu, hu2, hv1, hv, hv2⟩ := h
  simp only [piece]
  omega

theorem Patch.Inside.fits_piece {p : Patch} (h : p.Inside) : p.piece.extent.Fits := by
  obtain ⟨hi, hj⟩ := h.start_piece
  obtain ⟨hu1, hu, hu2, hv1, hv, hv2⟩ := h
  have hw : p.piece.extent.width = (p.u2.toInt - p.u1.toInt).toNat := rfl
  have hh : p.piece.extent.height = (p.v2.toInt - p.v1.toInt).toNat := rfl
  constructor <;> omega

namespace Slice

variable {s : Slice} {p : Piece} {pieces earlier : List Piece}

/-- A patch inside the slice that is drawn like its first place is the patch on its piece. -/
theorem patch_piece {p : Patch} (h : p.Inside)
    (hlight : p.light = (s.get p.piece.extent.i p.piece.extent.j).light)
    (hlevel : p.metadata = (s.get p.piece.extent.i p.piece.extent.j).block.level) :
    p.piece.patch s = p := by
  obtain ⟨hi, hj⟩ := h.start_piece
  obtain ⟨hu1, hu2, hv1, hv2⟩ := Piece.patch_toInt (s := s) h.fits_piece
  obtain ⟨-, hu, -, -, hv, -⟩ := h
  have hw : p.piece.extent.width = (p.u2.toInt - p.u1.toInt).toNat := rfl
  have hh : p.piece.extent.height = (p.v2.toInt - p.v1.toInt).toNat := rfl
  have h1 : (p.piece.patch s).u1 = p.u1 := Int32.toInt_inj.mp (by omega)
  have h2 : (p.piece.patch s).u2 = p.u2 := Int32.toInt_inj.mp (by omega)
  have h3 : (p.piece.patch s).v1 = p.v1 := Int32.toInt_inj.mp (by omega)
  have h4 : (p.piece.patch s).v2 = p.v2 := Int32.toInt_inj.mp (by omega)
  cases p
  exact (Patch.mk.injEq ..).mpr ⟨rfl, h1, h3, h2, h4, hlight.symm, hlevel.symm⟩

/-- The patch on a piece covers the places of the piece. -/
theorem covers_patch_iff (hfits : p.extent.Fits) {i j : Fin 16} :
    (p.patch s).covers i.val j.val = true ↔ (i, j) ∈ p.extent.places := by
  obtain ⟨hu1, hu2, hv1, hv2⟩ := Piece.patch_toInt (s := s) hfits
  have hi : (Int32.ofNat i.val).toInt = i.val := toInt_ofNat_of_le (Nat.le_of_lt i.2)
  have hj : (Int32.ofNat j.val).toInt = j.val := toInt_ofNat_of_le (Nat.le_of_lt j.2)
  rw [Extent.mem_places]
  simp only [Patch.covers, Bool.and_eq_true, decide_eq_true_eq, Int32.le_iff_toInt_le,
    Int32.lt_iff_toInt_lt, hi, hj, hu1, hu2, hv1, hv2, Fin.le_def]
  omega

theorem countP_covers_map (hfits : ∀ p ∈ pieces, p.extent.Fits) (i j : Fin 16) :
    (pieces.map (Piece.patch s)).countP (fun p => p.covers i.val j.val) =
      pieces.countP fun p => decide ((i, j) ∈ p.extent.places) := by
  rw [List.countP_map]
  refine List.countP_congr fun p hp => ?_
  rw [Function.comp_apply, covers_patch_iff (hfits p hp), decide_eq_true_eq]

theorem startsBefore_patch_iff {q : Piece} (hp : p.extent.Fits) (hq : q.extent.Fits) :
    (p.patch s).StartsBefore (q.patch s) ↔ Before p.start q.start := by
  obtain ⟨hu1, -, hv1, -⟩ := Piece.patch_toInt (s := s) hp
  obtain ⟨hu1', -, hv1', -⟩ := Piece.patch_toInt (s := s) hq
  unfold Patch.StartsBefore Before Piece.start
  simp only [hu1, hv1, hu1', hv1', Fin.lt_def, Fin.ext_iff]
  omega

/-- A place is taken behind earlier pieces when it is not open where they leave off. -/
theorem taken_map_iff (hfits : ∀ p ∈ earlier, p.extent.Fits) {m : Material} {i j : Fin 16} :
    s.Taken (earlier.map (Piece.patch s)) m i j ↔
      ¬s.OpenTo (Mask.empty.coverAll earlier) m (i, j) := by
  unfold Taken OpenTo
  rw [Mask.get_coverAll_eq_false_iff]
  simp only [Mask.get_empty, true_and, not_and_or, List.mem_map, exists_exists_and_eq_and,
    not_forall, not_not, exists_prop]
  rw [or_comm]
  refine or_congr ⟨?_, ?_⟩ Iff.rfl
  · rintro ⟨q, hq, hcov⟩
    exact ⟨q, hq, (covers_patch_iff (hfits q hq)).mp hcov⟩
  · rintro ⟨q, hq, hmem⟩
    exact ⟨q, hq, (covers_patch_iff (hfits q hq)).mpr hmem⟩

/-- A patch is maximal when its piece could not grow further. -/
theorem maximal_map_iff (hfits : p.extent.Fits) (hearlier : ∀ q ∈ earlier, q.extent.Fits) :
    s.Maximal (earlier.map (Piece.patch s)) (p.patch s) ↔
      (∀ j : Fin 16, j.val = p.extent.j.val + p.extent.height →
        ¬s.OpenTo (Mask.empty.coverAll earlier) p.material (p.extent.i, j)) ∧
      ∀ i : Fin 16, i.val = p.extent.i.val + p.extent.width →
        ∃ j ∈ coordinatesFrom p.extent.j p.extent.height,
          ¬s.OpenTo (Mask.empty.coverAll earlier) p.material (i, j) := by
  obtain ⟨hu1, hu2, hv1, hv2⟩ := Piece.patch_toInt (s := s) hfits
  constructor
  · rintro ⟨htall, hwide⟩
    refine ⟨fun j hj => ?_, fun i hi => ?_⟩
    · exact (taken_map_iff hearlier).mp (htall _ j hu1.symm (by omega))
    · obtain ⟨j, hj, htaken⟩ := hwide i (by omega)
      refine ⟨j, mem_coordinatesFrom.mpr ?_, (taken_map_iff hearlier).mp htaken⟩
      rw [Fin.le_def]
      omega
  · rintro ⟨htall, hwide⟩
    refine ⟨fun i j hi hj => ?_, fun i hi => ?_⟩
    · have hi' : i = p.extent.i := Fin.ext (by omega)
      rw [hi']
      exact (taken_map_iff hearlier).mpr (htall j (by omega))
    · obtain ⟨j, hj, hnot⟩ := hwide i (by omega)
      refine ⟨j, ?_, (taken_map_iff hearlier).mpr hnot⟩
      have := mem_coordinatesFrom.mp hj
      rw [Fin.le_def] at this
      omega

theorem canMerge_eq_false_iff {m : Material} : m.canMerge = false ↔ m.isLiquid = true := by
  simp [Material.canMerge]

/-- Before anything is covered the open places are the faces. -/
theorem isOpen_empty_iff {i j : Fin 16} :
    s.IsOpen Mask.empty i j ↔ (s.get i j).isEmpty = false := by
  simp [IsOpen]

/-- The patches on laid pieces are a canonical cover. -/
theorem Laid.canonical (h : s.Laid Mask.empty pieces) :
    s.Canonical (pieces.map (Piece.patch s)) where
  inside := by
    intro p hp
    obtain ⟨q, hq, rfl⟩ := List.mem_map.mp hp
    exact Piece.patch_inside (h.tiling.fits q hq)
  ordered := by
    rw [List.pairwise_map]
    refine h.ordered.imp_of_mem fun hp hq hbefore => ?_
    exact (startsBefore_patch_iff (h.tiling.fits _ hp) (h.tiling.fits _ hq)).mpr hbefore
  count := by
    intro i j
    rw [countP_covers_map h.tiling.fits, h.tiling.count]
    cases hempty : (s.get i j).isEmpty <;> simp [isOpen_empty_iff, hempty]
  material := by
    intro p hp i j hcov
    obtain ⟨q, hq, rfl⟩ := List.mem_map.mp hp
    exact h.tiling.material q hq _ ((covers_patch_iff (h.tiling.fits q hq)).mp hcov)
  single := by
    intro p hp hliquid
    obtain ⟨q, hq, rfl⟩ := List.mem_map.mp hp
    obtain ⟨hu1, hu2, hv1, hv2⟩ := Piece.patch_toInt (s := s) (h.tiling.fits q hq)
    obtain ⟨earlier, later, hsplit⟩ := List.append_of_mem hq
    obtain ⟨hw, hh⟩ := (h.grown earlier q later hsplit).single (canMerge_eq_false_iff.mpr hliquid)
    omega
  maximal := by
    intro earlier p later hsplit hsolid
    obtain ⟨earlier, rest, rfl, rfl, hrest⟩ := List.map_eq_append_iff.mp hsplit
    obtain ⟨p, later, rfl, rfl, rfl⟩ := List.map_eq_cons_iff.mp hrest
    have hmerge : p.material.canMerge = true := by
      rw [← Bool.not_eq_false, canMerge_eq_false_iff, Bool.not_eq_true]
      exact hsolid
    have hgrown := h.grown earlier p later rfl
    refine (maximal_map_iff hgrown.fits fun q hq => ?_).mpr
      ⟨hgrown.tall hmerge, hgrown.wide hmerge⟩
    exact h.tiling.fits q (List.mem_append_left _ hq)
  drawn := by
    intro p hp i j hi hj
    obtain ⟨q, hq, rfl⟩ := List.mem_map.mp hp
    obtain ⟨hu1, -, hv1, -⟩ := Piece.patch_toInt (s := s) (h.tiling.fits q hq)
    have hi' : i = q.extent.i := Fin.ext (by omega)
    have hj' : j = q.extent.j := Fin.ext (by omega)
    subst hi' hj'
    exact ⟨rfl, rfl⟩

/-- A canonical cover on pieces is a tiling. -/
theorem Canonical.tiling (hfits : ∀ p ∈ pieces, p.extent.Fits)
    (h : s.Canonical (pieces.map (Piece.patch s))) : s.Tiling Mask.empty pieces where
  fits := hfits
  material := by
    rintro p hp ⟨i, j⟩ hq
    exact h.material _ (List.mem_map_of_mem hp) i j ((covers_patch_iff (hfits p hp)).mpr hq)
  count := by
    intro i j
    rw [← countP_covers_map (s := s) hfits, h.count]
    cases hempty : (s.get i j).isEmpty <;> simp [isOpen_empty_iff, hempty]

/-- The pieces of a canonical cover are laid. -/
theorem Canonical.laid (hfits : ∀ p ∈ pieces, p.extent.Fits)
    (h : s.Canonical (pieces.map (Piece.patch s))) : s.Laid Mask.empty pieces where
  ordered := by
    refine (List.pairwise_map.mp h.ordered).imp_of_mem fun hp hq hbefore => ?_
    exact (startsBefore_patch_iff (hfits _ hp) (hfits _ hq)).mp hbefore
  tiling := h.tiling hfits
  grown := by
    rintro earlier p later rfl
    have hmem : p ∈ earlier ++ p :: later := List.mem_append_right _ List.mem_cons_self
    have hfits' : p.extent.Fits := hfits p hmem
    have htiling := h.tiling hfits
    obtain ⟨hu1, hu2, hv1, hv2⟩ := Piece.patch_toInt (s := s) hfits'
    have hmaximal : p.material.canMerge = true →
        s.Maximal (earlier.map (Piece.patch s)) (p.patch s) := by
      intro hmerge
      refine h.maximal _ _ (later.map (Piece.patch s)) (by simp) ?_
      rw [← Bool.not_eq_true]
      change ¬p.material.isLiquid = true
      rw [← canMerge_eq_false_iff, hmerge]
      decide
    have hiff := maximal_map_iff (s := s) hfits' fun q hq => hfits q (List.mem_append_left _ hq)
    refine ⟨hfits', fun q hq => ⟨?_, htiling.material p hmem q hq⟩, fun hsingle => ?_,
      fun hmerge => (hiff.mp (hmaximal hmerge)).1, fun hmerge => (hiff.mp (hmaximal hmerge)).2⟩
    · -- a place of the piece lies in no earlier one, because it lies in one piece only
      refine Mask.get_coverAll_eq_false_iff.mpr ⟨Mask.get_empty _ _, fun r hr hcov => ?_⟩
      have hone := htiling.count q.1 q.2
      rw [if_pos (htiling.isOpen hmem hq), List.countP_append, List.countP_cons] at hone
      have hpos : 0 < earlier.countP fun p => decide ((q.1, q.2) ∈ p.extent.places) :=
        List.countP_pos_iff.mpr ⟨r, hr, decide_eq_true hcov⟩
      simp only [Prod.mk.eta, hq, decide_true, if_true] at hone hpos
      omega
    · have := h.single _ (List.mem_map_of_mem hmem) (canMerge_eq_false_iff.mp hsingle)
      omega

/-- A canonical cover consists of the patches on its pieces. -/
theorem Canonical.exists_pieces {patches : List Patch} (h : s.Canonical patches) :
    ∃ pieces : List Piece,
      (∀ p ∈ pieces, p.extent.Fits) ∧ patches = pieces.map (Piece.patch s) := by
  refine ⟨patches.map Patch.piece, ?_, ?_⟩
  · intro p hp
    obtain ⟨q, hq, rfl⟩ := List.mem_map.mp hp
    exact (h.inside q hq).fits_piece
  · rw [List.map_map]
    refine (List.map_id' _).symm.trans (List.map_congr_left fun p hp => ?_)
    obtain ⟨hi, hj⟩ := (h.inside p hp).start_piece
    obtain ⟨hlight, hlevel⟩ := h.drawn p hp _ _ hi hj
    exact (patch_piece (h.inside p hp) hlight hlevel).symm

/-! ## 5. Merging -/

/-- **Merging returns the canonical cover of a slice** whose codes are known, and there is no
other. -/
theorem merge_unique_canonical (s : Slice) (hs : s.Known) :
    ∃ patches, s.merge = .ok patches ∧ s.Canonical patches ∧
      ∀ other, s.Canonical other → other = patches := by
  obtain ⟨pieces, hmerge, -⟩ := exists_merge hs
  obtain ⟨pieces', heq, hpaving⟩ := merge_spec hmerge
  refine ⟨_, hmerge, ?_, fun other hother => ?_⟩
  · rw [heq]
    exact (paving_iff_laid.mp hpaving).canonical
  · obtain ⟨others, hfits, rfl⟩ := hother.exists_pieces
    have hothers : s.Paving Mask.empty others := paving_iff_laid.mpr (hother.laid hfits)
    rw [heq, hothers.unique hpaving]

theorem known_empty (side : Side) (layer : Fin 16) : (empty side layer).Known := by
  intro i j
  rw [get_empty]
  exact Block.known_air

theorem Known.set {i j : Fin 16} {c : SliceCell} (hs : s.Known) (hc : c.block.Known) :
    (s.set i j c).Known := by
  intro i' j'
  rw [get_set]
  split
  · exact hc
  · exact hs i' j'

/-- A bar of dirt with a foot, and water in the corner above the foot. -/
def inlet : Slice :=
  let one : Fin 16 := ⟨1, by decide⟩
  let two : Fin 16 := ⟨2, by decide⟩
  let three : Fin 16 := ⟨3, by decide⟩
  let sea := (empty .up three).set three two ⟨.ofLevels .water 6 0, 15⟩
  let bar := (sea.set two one ⟨.ofMaterial .dirt, 7⟩).set two two ⟨.ofMaterial .dirt, 9⟩
  (bar.set three one ⟨.ofMaterial .dirt, 5⟩).set three three ⟨.ofLevels .water 4 0, 13⟩

/-- The bar takes the corner, the foot stays alone, and so does each place of water. -/
theorem inlet_unique_canonical : inlet.Known ∧ ∀ patches, inlet.Canonical patches ↔
    patches = [⟨.dirt, 2, 1, 3, 3, 7, 0⟩, ⟨.dirt, 3, 1, 4, 2, 5, 0⟩,
      ⟨.water, 3, 2, 4, 3, 15, 6⟩, ⟨.water, 3, 3, 4, 4, 13, 4⟩] := by
  have hknown : inlet.Known :=
    (((((known_empty _ _).set (by decide)).set (by decide)).set (by decide)).set (by decide)).set
      (by decide)
  have hmerge : inlet.merge = .ok [⟨.dirt, 2, 1, 3, 3, 7, 0⟩, ⟨.dirt, 3, 1, 4, 2, 5, 0⟩,
      ⟨.water, 3, 2, 4, 3, 15, 6⟩, ⟨.water, 3, 3, 4, 4, 13, 4⟩] := by decide +kernel
  obtain ⟨patches, hpatches, hcanonical, hunique⟩ := merge_unique_canonical inlet hknown
  rw [hmerge] at hpatches
  cases hpatches
  refine ⟨hknown, fun other => ⟨hunique other, ?_⟩⟩
  rintro rfl
  exact hcanonical

end Slice

end Blockworld
