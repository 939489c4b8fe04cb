/-
# Checked and saturating machine arithmetic

Coordinates are 32-bit words.  Their sums, differences and products are computed exactly and then
have to fit: `fit32 op n` is the word of value `n`, or the fault `overflow op` when there is none.
So a checked operation succeeds exactly when the exact result is in range, and then it *is* the
exact result (`fit32_eq_ok_iff`); nothing else about two's complement is needed later.

Distances use 64-bit words with saturation: `saturate64 n` is the word nearest to `n`.
-/
import Blockworld.Fault

namespace Blockworld

/-! ## 1. Fitting exact integers into words -/

/-- `n` is the value of some 32-bit word. -/
def InRange32 (n : Int) : Prop := -0x80000000 ≤ n ∧ n < 0x80000000

instance (n : Int) : Decidable (InRange32 n) := inferInstanceAs (Decidable (_ ∧ _))

/-- `n` is the value of some 64-bit word. -/
def InRange64 (n : Int) : Prop := -0x8000000000000000 ≤ n ∧ n < 0x8000000000000000

instance (n : Int) : Decidable (InRange64 n) := inferInstanceAs (Decidable (_ ∧ _))

/-- The 32-bit word of value `n`; a fault of the given operation if there is none. -/
def fit32 (operation : Arithmetic) (n : Int) : Except Fault Int32 :=
  if InRange32 n then .ok (Int32.ofInt n) else .error (.overflow operation)

/-- The 64-bit word of value `n`; a fault of the given operation if there is none. -/
def fit64 (operation : Arithmetic) (n : Int) : Except Fault Int64 :=
  if InRange64 n then .ok (Int64.ofInt n) else .error (.overflow operation)

theorem inRange32_toInt (a : Int32) : InRange32 a.toInt := ⟨a.le_toInt, a.toInt_lt⟩

theorem inRange64_toInt (a : Int64) : InRange64 a.toInt := ⟨a.le_toInt, a.toInt_lt⟩

theorem toInt_ofInt32 {n : Int} (h : InRange32 n) : (Int32.ofInt n).toInt = n :=
  Int32.toInt_ofInt_of_le h.1 h.2

theorem toInt_ofInt64 {n : Int} (h : InRange64 n) : (Int64.ofInt n).toInt = n :=
  Int64.toInt_ofInt_of_le h.1 h.2

theorem fit32_of_inRange {n : Int} (operation : Arithmetic) (h : InRange32 n) :
    fit32 operation n = .ok (Int32.ofInt n) := if_pos h

theorem fit32_of_not_inRange {n : Int} (operation : Arithmetic) (h : ¬InRange32 n) :
    fit32 operation n = .error (.overflow operation) := if_neg h

theorem fit64_of_inRange {n : Int} (operation : Arithmetic) (h : InRange64 n) :
    fit64 operation n = .ok (Int64.ofInt n) := if_pos h

/-- **A checked result is the exact result.** -/
theorem fit32_eq_ok_iff {operation : Arithmetic} {n : Int} {r : Int32} :
    fit32 operation n = .ok r ↔ r.toInt = n := by
  constructor
  · intro h
    unfold fit32 at h
    split at h
    · next hr =>
      cases h
      exact toInt_ofInt32 hr
    · cases h
  · rintro rfl
    rw [fit32_of_inRange operation (inRange32_toInt r), Int32.ofInt_toInt]

/-- **A checked operation faults exactly when the exact result is out of range.** -/
theorem fit32_eq_error_iff {operation : Arithmetic} {n : Int} {f : Fault} :
    fit32 operation n = .error f ↔ ¬InRange32 n ∧ f = .overflow operation := by
  unfold fit32
  split
  · next h => simp [h]
  · next h => simp [h, eq_comm]

/-! ## 2. 32-bit operations -/

/-- Checked sum. -/
def checkedAdd (a b : Int32) : Except Fault Int32 := fit32 .add (a.toInt + b.toInt)

/-- Checked difference. -/
def checkedSub (a b : Int32) : Except Fault Int32 := fit32 .subtract (a.toInt - b.toInt)

/-- Checked product. -/
def checkedMul (a b : Int32) : Except Fault Int32 := fit32 .multiply (a.toInt * b.toInt)

/-- Checked negation. -/
def checkedNeg (a : Int32) : Except Fault Int32 := fit32 .negate (-a.toInt)

/-! ## 3. 64-bit operations -/

/-- The 64-bit word nearest to `n`. -/
def saturate64 (n : Int) : Int64 := Int64.ofIntClamp n

/-- Saturating sum. -/
def saturatingAdd (a b : Int64) : Int64 := saturate64 (a.toInt + b.toInt)

/-- Saturating product. -/
def saturatingMul (a b : Int64) : Int64 := saturate64 (a.toInt * b.toInt)

/-- Checked 64-bit difference. -/
def checkedSub64 (a b : Int64) : Except Fault Int64 := fit64 .subtract (a.toInt - b.toInt)

/-- Checked 64-bit product. -/
def checkedMul64 (a b : Int64) : Except Fault Int64 := fit64 .multiply (a.toInt * b.toInt)

/-- Checked 64-bit magnitude. -/
def checkedAbs64 (a : Int64) : Except Fault Int64 := fit64 .negate a.toInt.natAbs

end Blockworld
