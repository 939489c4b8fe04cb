/-
# Positions in range

A position is in range of a centre in two senses: `World.surroundings` enumerates the positions to
ask for, and `World.isOutside` is the test by which chunks are dropped.  They agree
(`World.mem_surroundings`): what is enumerated is what has the height of a chunk floor inside the
world and passes the test.

The enumeration counts offsets from the centre, the test measures differences of coordinates, with
heights in chunks.  A centre on a chunk floor makes the two the same.  Where the radius is too large
for the test to be exact the enumeration overflows.
-/
import Blockworld.Proofs.Adjacency

namespace Blockworld

/-! ## 1. The test -/

theorem toInt_ofIntClamp_natCast (n : Nat) :
    (Int32.ofIntClamp n).toInt = min (n : Int) 0x7fffffff := by
  have hmax : Int32.maxValue.toInt = 0x7fffffff := by decide
  have hmin : Int32.minValue.toInt ≤ (n : Int) := by
    have hneg : Int32.minValue.toInt = -0x80000000 := by decide
    omega
  by_cases hn : (n : Int) ≤ Int32.maxValue.toInt
  · rw [Int32.toInt_ofIntClamp hmin hn]
    omega
  · unfold Int32.ofIntClamp
    rw [dif_pos hmin, dif_neg hn]
    omega

namespace World

variable {w : World} {center c : ChunkPos} {radius : Int32}

/-- A position is in range if no difference of coordinates exceeds the radius. -/
theorem isOutside_eq_false_iff (hradius : radius.toInt < 0x7fffffff) :
    isOutside center radius c = false ↔
      (c.x.toInt - center.x.toInt).natAbs ≤ radius.toInt ∧
      (c.layer.toInt - center.layer.toInt).natAbs ≤ radius.toInt ∧
      (c.z.toInt - center.z.toInt).natAbs ≤ radius.toInt := by
  unfold isOutside ChunkPos.chebyshev
  rw [decide_eq_false_iff_not, Int32.lt_iff_toInt_lt, toInt_ofIntClamp_natCast]
  omega

/-! ## 2. The enumeration -/

/-- A step from the next start is the next step from the start. -/
theorem step_succ (start : Int) (k : Nat) :
    start + 1 + (k : Int) = start + ((k + 1 : Nat) : Int) := by
  omega

/-- A sweep succeeds at every step, and what it finds was found at one of them. -/
theorem sweep_spec {α : Type} {f : Int32 → Except Fault (List α)} {n : Nat} {start : Int}
    {found : List α} (h : sweep f n start = .ok found) :
    (∀ k < n, ∃ here, f (Int32.ofInt (start + k)) = .ok here) ∧
      ∀ a, a ∈ found ↔ ∃ k < n, ∃ here, f (Int32.ofInt (start + k)) = .ok here ∧ a ∈ here := by
  induction n generalizing start found with
  | zero =>
    cases h
    simp
  | succ n ih =>
    unfold sweep at h
    obtain ⟨here, hhere, h⟩ := bind_eq_ok_iff.mp h
    obtain ⟨there, hthere, h⟩ := bind_eq_ok_iff.mp h
    cases h
    obtain ⟨hall, hmem⟩ := ih hthere
    simp only [step_succ] at hall hmem
    refine ⟨fun k hk => ?_, fun a => ?_⟩
    · cases k with
      | zero => exact ⟨here, by simpa using hhere⟩
      | succ k => exact hall k (by omega)
    · rw [List.mem_append, hmem]
      constructor
      · rintro (ha | ⟨k, hk, list, hlist, ha⟩)
        · exact ⟨0, by omega, here, by simpa using hhere, ha⟩
        · exact ⟨k + 1, by omega, list, hlist, ha⟩
      · rintro ⟨k, hk, list, hlist, ha⟩
        cases k with
        | zero =>
          have hsame : f (Int32.ofInt start) = .ok list := by simpa using hlist
          rw [hhere] at hsame
          cases hsame
          exact .inl ha
        | succ k => exact .inr ⟨k, by omega, list, hlist, ha⟩

/-- The lists at the offsets from `-radius` to `radius`, one after the other. -/
def sweepAround {α : Type} (radius : Int32) (f : Int32 → Except Fault (List α)) :
    Except Fault (List α) :=
  sweep f (2 * radius.toInt + 1).toNat (-radius.toInt)

/-- The steps of a sweep around zero are the offsets up to the radius. -/
theorem toInt_step {k : Nat} (hk : k < (2 * radius.toInt + 1).toNat) :
    (Int32.ofInt (-radius.toInt + k)).toInt = -radius.toInt + k := by
  have hradius := inRange32_toInt radius
  unfold InRange32 at hradius
  exact toInt_ofInt32 (by unfold InRange32; omega)

theorem exists_step {d : Int32} (hd : d.toInt.natAbs ≤ radius.toInt) :
    ∃ k < (2 * radius.toInt + 1).toNat, d = Int32.ofInt (-radius.toInt + (k : Nat)) := by
  refine ⟨(d.toInt + radius.toInt).toNat, by omega, ?_⟩
  have hsum : -radius.toInt + ((d.toInt + radius.toInt).toNat : Int) = d.toInt := by omega
  rw [hsum, Int32.ofInt_toInt]

theorem sweepAround_spec {α : Type} {f : Int32 → Except Fault (List α)} {found : List α}
    (h : sweepAround radius f = .ok found) :
    (∀ d : Int32, d.toInt.natAbs ≤ radius.toInt → ∃ here, f d = .ok here) ∧
      ∀ a, a ∈ found ↔
        ∃ d : Int32, d.toInt.natAbs ≤ radius.toInt ∧ ∃ here, f d = .ok here ∧ a ∈ here := by
  obtain ⟨hall, hmem⟩ := sweep_spec h
  refine ⟨fun d hd => ?_, fun a => ?_⟩
  · obtain ⟨k, hk, rfl⟩ := exists_step hd
    exact hall k hk
  · rw [hmem]
    constructor
    · rintro ⟨k, hk, here, hhere, ha⟩
      refine ⟨_, ?_, here, hhere, ha⟩
      rw [toInt_step hk]
      omega
    · rintro ⟨d, hd, here, hhere, ha⟩
      obtain ⟨k, hk, rfl⟩ := exists_step hd
      exact ⟨k, hk, here, hhere, ha⟩

/-- **What the enumeration is**: three sweeps, one within the other, and a sort. -/
theorem surroundings_eq_ok_iff {wanted : List ChunkPos} :
    w.surroundings center radius = .ok wanted ↔ InRange32 (-radius.toInt) ∧ ∃ found,
      (sweepAround radius fun dz => sweepAround radius fun dy => sweepAround radius fun dx =>
        w.candidate center dx dy dz) = .ok found ∧ found.mergeSort (nearer center) = wanted := by
  have hspan : (radius.toInt - -radius.toInt + 1).toNat = (2 * radius.toInt + 1).toNat := by omega
  unfold surroundings sweepAround
  simp only [bind_eq_ok_iff, checkedNeg, fit32_eq_ok_iff]
  constructor
  · rintro ⟨low, hlow, found, hfound, hsorted⟩
    rw [hlow, hspan] at hfound
    exact ⟨hlow ▸ inRange32_toInt low, found, hfound, Except.ok.inj hsorted⟩
  · rintro ⟨hrange, found, hfound, rfl⟩
    refine ⟨Int32.ofInt (-radius.toInt), toInt_ofInt32 hrange, found, ?_, rfl⟩
    rw [toInt_ofInt32 hrange, hspan]
    exact hfound

/-- A candidate is the position at the offset, if its floor is inside the world. -/
theorem candidate_spec {dx dy dz : Int32} {found : List ChunkPos}
    (h : w.candidate center dx dy dz = .ok found) :
    ∃ n : ChunkPos, n.x.toInt = center.x.toInt + dx.toInt ∧
      n.y.toInt = center.y.toInt + 16 * dy.toInt ∧ n.z.toInt = center.z.toInt + dz.toInt ∧
      n.Aligned ∧ ∀ c, c ∈ found ↔ c = n ∧ w.hasFloor n = true := by
  unfold candidate at h
  obtain ⟨rise, hrise, h⟩ := bind_eq_ok_iff.mp h
  obtain ⟨y, hy, h⟩ := bind_eq_ok_iff.mp h
  obtain ⟨x, hx, h⟩ := bind_eq_ok_iff.mp h
  obtain ⟨z, hz, h⟩ := bind_eq_ok_iff.mp h
  obtain ⟨n, hn, h⟩ := bind_eq_ok_iff.mp h
  cases h
  unfold ChunkPos.aligned? at hn
  split at hn
  · next haligned =>
    cases hn
    rw [checkedMul, fit32_eq_ok_iff] at hrise
    rw [checkedAdd, fit32_eq_ok_iff] at hx hy hz
    have hsixteen : (16 : Int32).toInt = 16 := by decide
    refine ⟨⟨x, y, z⟩, hx, ?_, hz, haligned, fun c => ?_⟩
    · show y.toInt = _
      rw [hy, hrise, hsixteen]
      omega
    · split
      · next hfloor => simp [hfloor]
      · next hfloor => simp [hfloor]
  · cases hn

/-- The enumeration looks at every offset in range, and finds what the candidates are there. -/
theorem surroundings_spec {wanted : List ChunkPos} (h : w.surroundings center radius = .ok wanted) :
    (∀ dx dy dz : Int32, dx.toInt.natAbs ≤ radius.toInt → dy.toInt.natAbs ≤ radius.toInt →
      dz.toInt.natAbs ≤ radius.toInt → ∃ here, w.candidate center dx dy dz = .ok here) ∧
    ∀ c, c ∈ wanted ↔ ∃ dx dy dz : Int32, dx.toInt.natAbs ≤ radius.toInt ∧
      dy.toInt.natAbs ≤ radius.toInt ∧ dz.toInt.natAbs ≤ radius.toInt ∧
      ∃ here, w.candidate center dx dy dz = .ok here ∧ c ∈ here := by
  obtain ⟨-, found, hfound, rfl⟩ := surroundings_eq_ok_iff.mp h
  obtain ⟨hallz, hmemz⟩ := sweepAround_spec hfound
  constructor
  · intro dx dy dz hdx hdy hdz
    obtain ⟨layer, hlayer⟩ := hallz dz hdz
    obtain ⟨row, hrow⟩ := (sweepAround_spec hlayer).1 dy hdy
    exact (sweepAround_spec hrow).1 dx hdx
  · intro c
    rw [List.mem_mergeSort, hmemz]
    constructor
    · rintro ⟨dz, hdz, layer, hlayer, hc⟩
      obtain ⟨dy, hdy, row, hrow, hc⟩ := ((sweepAround_spec hlayer).2 c).mp hc
      obtain ⟨dx, hdx, here, hhere, hc⟩ := ((sweepAround_spec hrow).2 c).mp hc
      exact ⟨dx, dy, dz, hdx, hdy, hdz, here, hhere, hc⟩
    · rintro ⟨dx, dy, dz, hdx, hdy, hdz, here, hhere, hc⟩
      obtain ⟨layer, hlayer⟩ := hallz dz hdz
      obtain ⟨row, hrow⟩ := (sweepAround_spec hlayer).1 dy hdy
      refine ⟨dz, hdz, layer, hlayer, ?_⟩
      refine ((sweepAround_spec hlayer).2 c).mpr ⟨dy, hdy, row, hrow, ?_⟩
      exact ((sweepAround_spec hrow).2 c).mpr ⟨dx, hdx, here, hhere, hc⟩

/-- Where the enumeration does not overflow, the radius is far from the largest word. -/
theorem radius_lt_of_surroundings {wanted : List ChunkPos}
    (h : w.surroundings center radius = .ok wanted) : radius.toInt < 0x10000000 := by
  by_cases hradius : 0 ≤ radius.toInt
  · have hsmall : radius.toInt.natAbs ≤ radius.toInt := by omega
    obtain ⟨here, hhere⟩ := (surroundings_spec h).1 radius radius radius hsmall hsmall hsmall
    obtain ⟨n, -, hy, -⟩ := candidate_spec hhere
    have hcenter := inRange32_toInt center.y
    have hn := inRange32_toInt n.y
    unfold InRange32 at hcenter hn
    omega
  · omega

/-- **The positions enumerated are those on chunk floors inside the world that are not outside of
the range.** -/
theorem mem_surroundings {wanted : List ChunkPos} (hcenter : center.Aligned)
    (h : w.surroundings center radius = .ok wanted) :
    c ∈ wanted ↔ c.Aligned ∧ w.hasFloor c = true ∧ isOutside center radius c = false := by
  have hradius := radius_lt_of_surroundings h
  obtain ⟨hall, hmem⟩ := surroundings_spec h
  rw [isOutside_eq_false_iff (by omega), hmem, ChunkPos.toInt_layer, ChunkPos.toInt_layer]
  unfold ChunkPos.Aligned at hcenter ⊢
  constructor
  · rintro ⟨dx, dy, dz, hdx, hdy, hdz, here, hhere, hc⟩
    obtain ⟨n, hx, hy, hz, haligned, hfound⟩ := candidate_spec hhere
    obtain ⟨rfl, hfloor⟩ := (hfound c).mp hc
    refine ⟨haligned, hfloor, ?_⟩
    omega
  · rintro ⟨haligned, hfloor, hx, hy, hz⟩
    -- the offsets of the position are words, because they are small
    have hoffset : ∀ n : Int, n.natAbs ≤ radius.toInt → (Int32.ofInt n).toInt = n := by
      intro n hn
      refine toInt_ofInt32 ?_
      unfold InRange32
      omega
    have hdx := hoffset _ hx
    have hdy := hoffset _ hy
    have hdz := hoffset _ hz
    obtain ⟨here, hhere⟩ := hall (Int32.ofInt (c.x.toInt - center.x.toInt))
      (Int32.ofInt (c.y.toInt / 16 - center.y.toInt / 16))
      (Int32.ofInt (c.z.toInt - center.z.toInt)) (by rw [hdx]; exact hx) (by rw [hdy]; exact hy)
      (by rw [hdz]; exact hz)
    obtain ⟨n, hnx, hny, hnz, -, hfound⟩ := candidate_spec hhere
    have hn : c = n := by
      rw [hdx] at hnx
      rw [hdy] at hny
      rw [hdz] at hnz
      obtain ⟨cx, cy, cz⟩ := c
      obtain ⟨nx, ny, nz⟩ := n
      rw [ChunkPos.mk.injEq, ← Int32.toInt_inj, ← Int32.toInt_inj, ← Int32.toInt_inj]
      dsimp only at *
      omega
    refine ⟨_, _, _, by rw [hdx]; exact hx, by rw [hdy]; exact hy, by rw [hdz]; exact hz, here,
      hhere, (hfound c).mpr ⟨hn, ?_⟩⟩
    rw [← hn]
    exact hfloor

end World

end Blockworld
