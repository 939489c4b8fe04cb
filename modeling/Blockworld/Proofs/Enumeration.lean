/-
# Enumerating and trimming agree

A viewer that moves asks for the positions around it (`World.surroundings`) and drops the chunks
that are too far away (`World.trim`).  The first counts offsets in three nested sweeps, leaves out
what is above or below the world, and sorts; the second measures distances.  If they disagreed at
the rim, chunks there would be loaded and dropped in turn.

* `World.nodup_surroundings`: no position is enumerated twice, because the three coordinates of a
  position give back the three offsets it was found at;
* `World.sorted_surroundings`: the positions come nearest first, and those at one distance in the
  order of positions.  The distance saturates, so far positions can be at one distance;
* `World.surroundings_match_trim`: what is enumerated is what has a floor inside the world and is
  not too far away to keep.  So a loaded chunk on a floor inside the world is dropped if it is not
  asked for, and only then.
-/
import Mathlib.Data.List.Basic
import Blockworld.Proofs.Invalidation
import Blockworld.Proofs.Limits

namespace Blockworld

namespace World

variable {w : World} {center : ChunkPos} {radius : Int32}

/-! ## 1. Every position once -/

/-- A sweep finds nothing twice, if no step does and no two steps find the same. -/
theorem nodup_of_sweep {α : Type} {f : Int32 → Except Fault (List α)} {n : Nat} {start : Int}
    {found : List α} (h : sweep f n start = .ok found)
    (hwords : ∀ k < n, InRange32 (start + (k : Nat)))
    (hstep : ∀ d here, f d = .ok here → here.Nodup)
    (hapart : ∀ d d' here there a, f d = .ok here → f d' = .ok there → a ∈ here → a ∈ there →
      d = d') : found.Nodup := by
  induction n generalizing start found with
  | zero =>
    cases h
    exact List.nodup_nil
  | succ n ih =>
    unfold sweep at h
    obtain ⟨here, hhere, h⟩ := bind_eq_ok_iff.mp h
    obtain ⟨there, hthere, h⟩ := bind_eq_ok_iff.mp h
    cases h
    have hrest : ∀ k < n, InRange32 (start + 1 + (k : Nat)) := by
      intro k hk
      rw [step_succ]
      exact hwords (k + 1) (by omega)
    refine List.nodup_append.mpr ⟨hstep _ _ hhere, ih hthere hrest, ?_⟩
    rintro a ha b hb rfl
    -- the later steps are at other words
    obtain ⟨k, hk, list, hlist, hak⟩ := ((sweep_spec hthere).2 a).mp hb
    have hsame := hapart _ _ _ _ a hhere hlist ha hak
    have hfirst : InRange32 start := by simpa using hwords 0 (by omega)
    rw [← Int32.toInt_inj, toInt_ofInt32 hfirst, toInt_ofInt32 (hrest k hk)] at hsame
    omega

/-- A sweep from `-radius` to `radius` finds nothing twice, if what is found tells the offset. -/
theorem nodup_of_sweepAround {α : Type} {f : Int32 → Except Fault (List α)} {found : List α}
    (h : sweepAround radius f = .ok found) (hstep : ∀ d here, f d = .ok here → here.Nodup)
    (offset : α → Int) (hoffset : ∀ d here, f d = .ok here → ∀ a ∈ here, offset a = d.toInt) :
    found.Nodup := by
  refine nodup_of_sweep h (fun k hk => ?_) hstep fun d d' here there a hd hd' ha ha' => ?_
  · rw [← toInt_step hk]
    exact inRange32_toInt _
  · rw [← Int32.toInt_inj, ← hoffset d here hd a ha, ← hoffset d' there hd' a ha']

/-- A candidate is at its offset from the centre. -/
theorem mem_candidate {dx dy dz : Int32} {found : List ChunkPos}
    (h : w.candidate center dx dy dz = .ok found) {c : ChunkPos} (hc : c ∈ found) :
    c.x.toInt - center.x.toInt = dx.toInt ∧ (c.y.toInt - center.y.toInt) / 16 = dy.toInt ∧
      c.z.toInt - center.z.toInt = dz.toInt := by
  obtain ⟨n, hx, hy, hz, -, hfound⟩ := candidate_spec h
  obtain ⟨rfl, -⟩ := (hfound c).mp hc
  omega

theorem nodup_candidate {dx dy dz : Int32} {found : List ChunkPos}
    (h : w.candidate center dx dy dz = .ok found) : found.Nodup := by
  unfold candidate at h
  simp only [bind_eq_ok_iff] at h
  obtain ⟨_, _, _, _, _, _, _, _, _, _, h⟩ := h
  cases h
  split <;> simp

/-- **No position is enumerated twice.** -/
theorem nodup_surroundings {wanted : List ChunkPos}
    (h : w.surroundings center radius = .ok wanted) : wanted.Nodup := by
  obtain ⟨-, found, hfound, rfl⟩ := surroundings_eq_ok_iff.mp h
  rw [(List.mergeSort_perm ..).nodup_iff]
  refine nodup_of_sweepAround hfound (fun dz layer hlayer => ?_)
    (fun c => c.z.toInt - center.z.toInt) fun dz layer hlayer c hc => ?_
  · refine nodup_of_sweepAround hlayer (fun dy row hrow => ?_)
      (fun c => (c.y.toInt - center.y.toInt) / 16) fun dy row hrow c hc => ?_
    · exact nodup_of_sweepAround hrow (fun dx here hhere => nodup_candidate hhere)
        (fun c => c.x.toInt - center.x.toInt) fun dx here hhere c hc => (mem_candidate hhere hc).1
    · obtain ⟨dx, -, here, hhere, hc⟩ := ((sweepAround_spec hrow).2 c).mp hc
      exact (mem_candidate hhere hc).2.1
  · obtain ⟨dy, -, row, hrow, hc⟩ := ((sweepAround_spec hlayer).2 c).mp hc
    obtain ⟨dx, -, here, hhere, hc⟩ := ((sweepAround_spec hrow).2 c).mp hc
    exact (mem_candidate hhere hc).2.2

/-! ## 2. Nearest first -/

/-- The first position is nearer to the centre, or as near and earlier in the order of positions. -/
def Precedes (center a b : ChunkPos) : Prop :=
  a.squaredDistance center < b.squaredDistance center ∨
    a.squaredDistance center = b.squaredDistance center ∧ compare a b = .lt

instance (center a b : ChunkPos) : Decidable (Precedes center a b) :=
  inferInstanceAs (Decidable (_ ∨ _))

/-- Distance first, then the order of positions. -/
def compareNear (center : ChunkPos) : ChunkPos → ChunkPos → Ordering :=
  compareLex (compareOn fun c => c.squaredDistance center) compare

instance (center : ChunkPos) : Std.TransCmp (compareNear center) :=
  inferInstanceAs (Std.TransCmp (compareLex _ _))

theorem nearer_eq (center a b : ChunkPos) : nearer center a b = (compareNear center a b).isLE := by
  unfold nearer compareNear compareLex compareOn ChunkPos.le
  cases compare (a.squaredDistance center) (b.squaredDistance center) <;> rfl

theorem compareNear_eq_lt_iff {a b : ChunkPos} :
    compareNear center a b = .lt ↔ Precedes center a b := by
  unfold compareNear compareLex compareOn Precedes
  rw [Ordering.then_eq_lt, Std.compare_eq_lt, Std.compare_eq_iff_eq]

theorem compareNear_eq_eq_iff {a b : ChunkPos} : compareNear center a b = .eq ↔ a = b := by
  unfold compareNear compareLex compareOn
  rw [Ordering.then_eq_eq, Std.compare_eq_iff_eq, Std.compare_eq_iff_eq]
  constructor
  · rintro ⟨-, h⟩
    exact h
  · rintro rfl
    exact ⟨rfl, rfl⟩

theorem nearer_trans {a b c : ChunkPos} (hab : nearer center a b = true)
    (hbc : nearer center b c = true) : nearer center a c = true := by
  rw [nearer_eq] at *
  exact Std.TransCmp.isLE_trans hab hbc

theorem nearer_total (center a b : ChunkPos) : (nearer center a b || nearer center b a) = true := by
  have hswap : compareNear center b a = (compareNear center a b).swap := Std.OrientedCmp.eq_swap
  rw [nearer_eq, nearer_eq, hswap]
  cases compareNear center a b <;> rfl

/-- Of two different positions the nearer one comes strictly before the other. -/
theorem precedes_of_nearer {a b : ChunkPos} (h : nearer center a b = true) (hne : a ≠ b) :
    Precedes center a b := by
  rw [nearer_eq, Ordering.isLE_iff_eq_lt_or_eq_eq] at h
  rcases h with hlt | heq
  · exact compareNear_eq_lt_iff.mp hlt
  · exact absurd (compareNear_eq_eq_iff.mp heq) hne

/-- **The positions come nearest first**, and at one distance in order. -/
theorem sorted_surroundings {wanted : List ChunkPos}
    (h : w.surroundings center radius = .ok wanted) : wanted.Pairwise (Precedes center) := by
  have hnodup := nodup_surroundings h
  obtain ⟨-, found, -, rfl⟩ := surroundings_eq_ok_iff.mp h
  have hsorted : (found.mergeSort (nearer center)).Pairwise fun a b => nearer center a b = true :=
    @List.pairwise_mergeSort _ (nearer center) (fun _ _ _ => nearer_trans) (nearer_total center) _
  exact hsorted.imp₂ (fun _ _ => precedes_of_nearer) hnodup

/-! ## 3. Agreement -/

theorem isOutside_eq_false_iff_le {c : ChunkPos} :
    isOutside center radius c = false ↔ c.chebyshev center ≤ radius := by
  rw [isOutside, decide_eq_false_iff_not, Int32.not_lt]

/-- The positions of the chunks that are dropped are listed in order. -/
theorem sorted_trim (w : World) (center : ChunkPos) (radius : Int32) :
    (w.trim center radius).2.Pairwise fun a b => compare a b = .lt :=
  Std.TreeMap.ordered_keys.filter _

/-- **Enumerating and trimming agree.**  Trimming drops the loaded chunks farther than the radius,
and no other, lists them in order and leaves the rest of the world as it is.  If the outermost
positions have words for coordinates, the positions around an aligned centre are enumerated, each
once, nearest first; they are the aligned positions inside the world that are no farther than the
radius; so no chunk at one of them is dropped, and every aligned chunk inside the world that is left
is at one. -/
theorem surroundings_match_trim (w : World) (center : ChunkPos) (radius : Int32) :
    ((w.trim center radius).2.Pairwise (fun a b => compare a b = .lt) ∧
      (∀ c, c ∈ (w.trim center radius).2 ↔ w.contains c = true ∧ radius < c.chebyshev center) ∧
      (w.trim center radius).1.height = w.height ∧
      ∀ c, (w.trim center radius).1.chunk? c =
        if radius < c.chebyshev center then none else w.chunk? c) ∧
    (center.Aligned → 0 ≤ radius → center.Spans radius →
      ∃ wanted, w.surroundings center radius = .ok wanted ∧ wanted.Nodup ∧
        wanted.Pairwise (Precedes center) ∧
        (∀ c, c ∈ wanted ↔ c.Aligned ∧ w.hasFloor c = true ∧ c.chebyshev center ≤ radius) ∧
        (∀ c, (w.trim center radius).1.contains c = true → c.Aligned → w.hasFloor c = true →
          c ∈ wanted) ∧
        ∀ c ∈ wanted, c ∉ (w.trim center radius).2) := by
  have hdropped : ∀ c, c ∈ (w.trim center radius).2 ↔
      w.contains c = true ∧ radius < c.chebyshev center := by
    intro c
    rw [mem_trim, isOutside, decide_eq_true_iff]
  have hleft : ∀ c, (w.trim center radius).1.chunk? c =
      if radius < c.chebyshev center then none else w.chunk? c := by
    intro c
    simp only [chunk?_trim, isOutside, decide_eq_true_eq]
  refine ⟨⟨sorted_trim w center radius, hdropped, rfl, hleft⟩, fun hcenter hradius hspans => ?_⟩
  have hnonneg : 0 ≤ radius.toInt := Int32.le_iff_toInt_le.mp hradius
  obtain ⟨wanted, hwanted⟩ := (exists_surroundings_iff (w := w) hcenter hnonneg).mpr hspans
  have hmem : ∀ c, c ∈ wanted ↔
      c.Aligned ∧ w.hasFloor c = true ∧ c.chebyshev center ≤ radius := by
    intro c
    rw [mem_surroundings hcenter hwanted, isOutside_eq_false_iff_le]
  refine ⟨wanted, hwanted, nodup_surroundings hwanted, sorted_surroundings hwanted, hmem,
    fun c hloaded haligned hfloor => (hmem c).mpr ⟨haligned, hfloor, ?_⟩, fun c hc hgone => ?_⟩
  · rw [contains_eq_isSome, hleft] at hloaded
    by_contra hfar
    rw [if_pos (Int32.not_le.mp hfar)] at hloaded
    cases hloaded
  · exact Int32.not_le.mpr ((hdropped c).mp hgone).2 ((hmem c).mp hc).2.2

/-- Two empty chunks side by side along `x`. -/
def twins : World := ((empty 16).insert (.empty .zero)).insert (.empty ⟨1, 0, 0⟩)

theorem chunk?_twins_zero : twins.chunk? .zero = some (.empty .zero) := by
  rw [twins, chunk?_insert, if_neg (by decide), chunk?_insert]
  exact if_pos rfl

theorem chunk?_twins_one : twins.chunk? ⟨1, 0, 0⟩ = some (.empty ⟨1, 0, 0⟩) := by
  rw [twins, chunk?_insert]
  exact if_pos rfl

/-- Seen from beyond the second of the twins, the first one is dropped and the second one kept. -/
theorem twins_surroundings_match_trim :
    ChunkPos.Aligned ⟨2, 0, 0⟩ ∧ (0 : Int32) ≤ 1 ∧ ChunkPos.Spans ⟨2, 0, 0⟩ 1 ∧
      ChunkPos.zero ∈ (twins.trim ⟨2, 0, 0⟩ 1).2 ∧
      (twins.trim ⟨2, 0, 0⟩ 1).1.chunk? ⟨1, 0, 0⟩ = some (.empty ⟨1, 0, 0⟩) ∧
      ∃ wanted, twins.surroundings ⟨2, 0, 0⟩ 1 = .ok wanted ∧ ⟨1, 0, 0⟩ ∈ wanted ∧
        ChunkPos.zero ∉ wanted := by
  have haligned : ChunkPos.Aligned ⟨2, 0, 0⟩ := by decide
  have hradius : (0 : Int32) ≤ 1 := by decide
  have hspans : ChunkPos.Spans ⟨2, 0, 0⟩ 1 := ⟨by decide, by decide, by decide⟩
  obtain ⟨⟨-, hdropped, -, hleft⟩, hrange⟩ := surroundings_match_trim twins ⟨2, 0, 0⟩ 1
  obtain ⟨wanted, hwanted, -, -, hmem, -, -⟩ := hrange haligned hradius hspans
  refine ⟨haligned, hradius, hspans, (hdropped _).mpr ⟨?_, by decide⟩, ?_, wanted, hwanted,
    (hmem _).mpr (by decide), fun hzero => absurd ((hmem _).mp hzero) (by decide)⟩
  · rw [contains_eq_isSome, chunk?_twins_zero]
    rfl
  · rw [hleft, if_neg (by decide), chunk?_twins_one]

end World

end Blockworld
