/-
# Distances are exact up to saturation

Two positions lie up to 2 ^ 32 - 1 chunks apart on an axis.  The square of that has no 64-bit word,
so the squared distance is computed with operations that stop at the largest word.  They are
chained: a square stops, a sum of such squares stops, and the next sum starts from that.  This is no
different from stopping once at the end (`Capped.add`), because no summand is negative.

* `ChunkPos.gap`: how far apart two positions are on an axis, as an exact number;
* `ChunkPos.squaredDistance?_eq`, `ChunkPos.chebyshev?_eq`: the differences, the magnitudes and the
  square that is not capped have words for all positions, so no check on the way fails.  A height
  counts as the layer it lies in, whether it is the floor of a chunk or not;
* `ChunkPos.capped_squaredDistance`, `ChunkPos.toInt_chebyshev`: both distances are the exact ones,
  or the largest word if that is smaller.

`ChunkPos.distances_exact` puts them together.
-/
import Blockworld.Proofs.Range

namespace Blockworld

/-! ## 1. Capped numbers -/

/-- The word is the number, or the largest word if the number is above it. -/
structure Capped (n : Int) (a : Int64) : Prop where
  nonneg : 0 ≤ n
  toInt_eq : a.toInt = min n 0x7fffffffffffffff

theorem capped_saturate64 {n : Int} (h : 0 ≤ n) : Capped n (saturate64 n) := by
  refine ⟨h, ?_⟩
  have hmax : Int64.maxValue.toInt = 0x7fffffffffffffff := by decide
  have hmin : Int64.minValue.toInt ≤ n := by
    have hneg : Int64.minValue.toInt = -0x8000000000000000 := by decide
    omega
  unfold saturate64
  by_cases hn : n ≤ Int64.maxValue.toInt
  · rw [Int64.toInt_ofIntClamp hmin hn]
    omega
  · unfold Int64.ofIntClamp
    rw [dif_pos hmin, dif_neg hn]
    omega

namespace Capped

variable {m n : Int} {a b : Int64}

theorem of_toInt_eq (hn : 0 ≤ n) (h : a.toInt = n) : Capped n a := by
  refine ⟨hn, ?_⟩
  have hword := inRange64_toInt a
  unfold InRange64 at hword
  omega

/-- **Capping the summands and then the sum is capping the sum.** -/
theorem add (ha : Capped m a) (hb : Capped n b) : Capped (m + n) (saturatingAdd a b) := by
  obtain ⟨hm, ha⟩ := ha
  obtain ⟨hn, hb⟩ := hb
  have hsum : 0 ≤ a.toInt + b.toInt := by omega
  refine ⟨by omega, ?_⟩
  rw [saturatingAdd, (capped_saturate64 hsum).toInt_eq]
  omega

theorem square (a : Int64) : Capped (a.toInt * a.toInt) (saturatingMul a a) :=
  capped_saturate64 (by rw [← Int.natAbs_mul_self]; omega)

theorem unique (ha : Capped n a) (hb : Capped n b) : a = b :=
  Int64.toInt_inj.mp (ha.toInt_eq.trans hb.toInt_eq.symm)

end Capped

/-! ## 2. Differences -/

/-- The difference of two 32-bit words has a 64-bit word. -/
theorem inRange64_sub_toInt (a b : Int32) : InRange64 (a.toInt - b.toInt) := by
  have ha := inRange32_toInt a
  have hb := inRange32_toInt b
  unfold InRange32 at ha hb
  unfold InRange64
  omega

theorem ofInt_sub_toInt (a b : Int32) :
    Int64.ofInt (a.toInt - b.toInt) = a.toInt64 - b.toInt64 := by
  rw [Int64.ofInt_sub, ← Int32.toInt_toInt64 a, ← Int32.toInt_toInt64 b, Int64.ofInt_toInt,
    Int64.ofInt_toInt]

theorem toInt_sub_toInt64 (a b : Int32) :
    (a.toInt64 - b.toInt64).toInt = a.toInt - b.toInt := by
  rw [← ofInt_sub_toInt, toInt_ofInt64 (inRange64_sub_toInt a b)]

/-- Widened words are subtracted without overflow. -/
theorem checkedSub64_toInt64 (a b : Int32) :
    checkedSub64 a.toInt64 b.toInt64 = .ok (a.toInt64 - b.toInt64) := by
  rw [checkedSub64, Int32.toInt_toInt64, Int32.toInt_toInt64,
    fit64_of_inRange _ (inRange64_sub_toInt a b), ofInt_sub_toInt]

/-- The magnitude of such a difference has a word, because the smallest 64-bit word is none. -/
theorem exists_checkedAbs64_sub (a b : Int32) :
    ∃ r, checkedAbs64 (a.toInt64 - b.toInt64) = .ok r ∧ r.toInt = (a.toInt - b.toInt).natAbs := by
  have ha := inRange32_toInt a
  have hb := inRange32_toInt b
  have hrange : InRange64 (a.toInt - b.toInt).natAbs := by
    unfold InRange32 at ha hb
    unfold InRange64
    omega
  refine ⟨Int64.ofInt (a.toInt - b.toInt).natAbs, ?_, toInt_ofInt64 hrange⟩
  rw [checkedAbs64, toInt_sub_toInt64, fit64_of_inRange _ hrange]

namespace ChunkPos

/-- How many chunks the first position is further along an axis than the second. -/
def gap (a b : ChunkPos) : Axis → Int
  | .x => a.x.toInt - b.x.toInt
  | .y => a.y.toInt / 16 - b.y.toInt / 16
  | .z => a.z.toInt - b.z.toInt

theorem gap_comm (a b : ChunkPos) (d : Axis) : b.gap a d = -a.gap b d := by
  cases d <;> simp only [gap] <;> omega

variable {a b : ChunkPos}

/-- Layers lie closer together than the other coordinates can. -/
theorem natAbs_gap_y_le (a b : ChunkPos) : (a.gap b .y).natAbs ≤ 0x10000000 := by
  have ha := inRange32_toInt a.y
  have hb := inRange32_toInt b.y
  unfold InRange32 at ha hb
  simp only [gap]
  omega

theorem toInt_layer_sub (a b : ChunkPos) :
    (a.layer.toInt64 - b.layer.toInt64).toInt = a.gap b .y := by
  rw [toInt_sub_toInt64, toInt_layer, toInt_layer]
  rfl

/-! ## 3. The squared distance -/

/-- The square of the vertical difference has a word. -/
theorem inRange64_gap_y_square (a b : ChunkPos) : InRange64 (a.gap b .y * a.gap b .y) := by
  have hsquare := Nat.mul_self_le_mul_self (natAbs_gap_y_le a b)
  have hexact := Int.natAbs_mul_self (a := a.gap b .y)
  unfold InRange64
  omega

theorem ofInt_gap_y_square (a b : ChunkPos) : Int64.ofInt (a.gap b .y * a.gap b .y) =
    (a.layer.toInt64 - b.layer.toInt64) * (a.layer.toInt64 - b.layer.toInt64) := by
  rw [Int64.ofInt_mul, ← toInt_layer_sub, Int64.ofInt_toInt]

/-- **No check of the squared distance fails.** -/
theorem squaredDistance?_eq (a b : ChunkPos) :
    a.squaredDistance? b = .ok (a.squaredDistance b) := by
  have hsquare : checkedMul64 (a.layer.toInt64 - b.layer.toInt64)
      (a.layer.toInt64 - b.layer.toInt64) =
        .ok ((a.layer.toInt64 - b.layer.toInt64) * (a.layer.toInt64 - b.layer.toInt64)) := by
    rw [checkedMul64, toInt_layer_sub, fit64_of_inRange _ (inRange64_gap_y_square a b),
      ofInt_gap_y_square]
  unfold squaredDistance?
  simp only [checkedSub64_toInt64, bind, Except.bind, hsquare]
  rfl

/-- The sum of the squares of the differences, as an exact number. -/
def exactSquare (a b : ChunkPos) : Int :=
  a.gap b .x * a.gap b .x + a.gap b .y * a.gap b .y + a.gap b .z * a.gap b .z

theorem exactSquare_comm (a b : ChunkPos) : b.exactSquare a = a.exactSquare b := by
  simp only [exactSquare, gap_comm a b, Int.neg_mul_neg]

/-- **The squared distance is the exact one**, up to the largest word. -/
theorem capped_squaredDistance (a b : ChunkPos) :
    Capped (a.exactSquare b) (a.squaredDistance b) := by
  have hx := Capped.square (a.x.toInt64 - b.x.toInt64)
  have hz := Capped.square (a.z.toInt64 - b.z.toInt64)
  rw [toInt_sub_toInt64] at hx hz
  -- the vertical square is computed with no cap, and needs none
  have hy : Capped (a.gap b .y * a.gap b .y)
      ((a.layer.toInt64 - b.layer.toInt64) * (a.layer.toInt64 - b.layer.toInt64)) := by
    have hnonneg := (Capped.square (a.layer.toInt64 - b.layer.toInt64)).nonneg
    rw [toInt_layer_sub] at hnonneg
    rw [← ofInt_gap_y_square]
    exact Capped.of_toInt_eq hnonneg (toInt_ofInt64 (inRange64_gap_y_square a b))
  exact (hx.add hy).add hz

/-! ## 4. The largest difference -/

/-- **No check of the largest difference fails.** -/
theorem chebyshev?_eq (a b : ChunkPos) : a.chebyshev? b = .ok (a.chebyshev b) := by
  obtain ⟨x, hx, hxvalue⟩ := exists_checkedAbs64_sub a.x b.x
  obtain ⟨y, hy, hyvalue⟩ := exists_checkedAbs64_sub a.layer b.layer
  obtain ⟨z, hz, hzvalue⟩ := exists_checkedAbs64_sub a.z b.z
  have hlargest : max (max x.toInt y.toInt) z.toInt =
      (max (max (a.x.toInt - b.x.toInt).natAbs (a.layer.toInt - b.layer.toInt).natAbs)
        (a.z.toInt - b.z.toInt).natAbs : Nat) := by
    rw [hxvalue, hyvalue, hzvalue]
    omega
  unfold chebyshev?
  simp only [checkedSub64_toInt64, bind, Except.bind, hx, hy, hz, hlargest]
  rfl

/-- **The largest difference is the exact one**, up to the largest word. -/
theorem toInt_chebyshev (a b : ChunkPos) : (a.chebyshev b).toInt =
    (min (max (max (a.gap b .x).natAbs (a.gap b .y).natAbs) (a.gap b .z).natAbs)
      0x7fffffff : Nat) := by
  unfold chebyshev
  rw [toInt_ofIntClamp_natCast, toInt_layer, toInt_layer]
  simp only [gap]
  omega

/-- Being within a distance is being within it on each axis, unless the distance is the largest
word. -/
theorem chebyshev_le_iff {r : Int} (hr : r < 0x7fffffff) :
    (a.chebyshev b).toInt ≤ r ↔ ∀ d, ((a.gap b d).natAbs : Int) ≤ r := by
  rw [toInt_chebyshev]
  constructor
  · intro h d
    cases d <;> omega
  · intro h
    have hx := h .x
    have hy := h .y
    have hz := h .z
    omega

/-- **Distances are exact up to saturation.**  For any two positions, also with heights that are no
floors of chunks, both distances are computed without overflow.  The squared distance is the sum of
the squares of the exact differences, and the other one is the largest of their magnitudes, each of
them at most the largest word; so the latter is within a bound below the largest word exactly if all
three differences are.  Both distances are symmetric. -/
theorem distances_exact (a b : ChunkPos) :
    (a.squaredDistance? b = .ok (a.squaredDistance b) ∧
      (a.squaredDistance b).toInt =
        min (a.gap b .x * a.gap b .x + a.gap b .y * a.gap b .y + a.gap b .z * a.gap b .z)
          0x7fffffffffffffff) ∧
    (a.chebyshev? b = .ok (a.chebyshev b) ∧
      (a.chebyshev b).toInt =
        (min (max (max (a.gap b .x).natAbs (a.gap b .y).natAbs) (a.gap b .z).natAbs)
          0x7fffffff : Nat)) ∧
    (∀ r : Int, r < 0x7fffffff →
      ((a.chebyshev b).toInt ≤ r ↔ ∀ d, ((a.gap b d).natAbs : Int) ≤ r)) ∧
    b.squaredDistance a = a.squaredDistance b ∧ b.chebyshev a = a.chebyshev b := by
  refine ⟨⟨squaredDistance?_eq a b, (capped_squaredDistance a b).toInt_eq⟩,
    ⟨chebyshev?_eq a b, toInt_chebyshev a b⟩, fun r hr => chebyshev_le_iff hr, ?_, ?_⟩
  · have hback := capped_squaredDistance b a
    rw [exactSquare_comm] at hback
    exact hback.unique (capped_squaredDistance a b)
  · rw [← Int32.toInt_inj, toInt_chebyshev, toInt_chebyshev]
    simp only [gap_comm a b, Int.natAbs_neg]

example : squaredDistance ⟨0x7fffffff, 0, -0x80000000⟩ ⟨-0x80000000, 0, 0x7fffffff⟩ =
    0x7fffffffffffffff := by decide

/-- Two positions of which neither height is the floor of a chunk.  The heights differ by 34 cells,
which is two chunks and a bit, but they lie three layers apart. -/
theorem uneven_distances_exact :
    (3 : Int) < 0x7fffffff ∧
      (squaredDistance ⟨5, 33, -1⟩ ⟨4, -1, 2⟩).toInt = 1 * 1 + 3 * 3 + 3 * 3 ∧
      (chebyshev ⟨5, 33, -1⟩ ⟨4, -1, 2⟩).toInt ≤ 3 := by
  have hr : (3 : Int) < 0x7fffffff := by decide
  obtain ⟨⟨-, hsquare⟩, -, hwithin, -, -⟩ := distances_exact ⟨5, 33, -1⟩ ⟨4, -1, 2⟩
  refine ⟨hr, hsquare.trans (by decide), (hwithin 3 hr).mpr ?_⟩
  intro d
  cases d <;> decide

end ChunkPos

end Blockworld
