/-
# Tables whose entries may fault

`tabulate f` is the vector of the values `f 0, f 1, …`, computed in ascending order.  The first
entry that fails decides the outcome.  The two characterisations at the end say so: the table
exists exactly when every entry does, and otherwise the error is that of the least failing index.

Of a sequence of two computations the same is said by `bind_eq_ok_iff` and `bind_eq_error_iff`.
-/

namespace Blockworld

/-- A sequence of two computations succeeds exactly if both do. -/
theorem bind_eq_ok_iff {ε α β : Type} {x : Except ε α} {f : α → Except ε β} {b : β} :
    (x >>= f) = .ok b ↔ ∃ a, x = .ok a ∧ f a = .ok b := by
  cases x with
  | error e => simp [bind, Except.bind]
  | ok a => simp [bind, Except.bind]

/-- A sequence of two computations fails if the first one does, or else the second. -/
theorem bind_eq_error_iff {ε α β : Type} {x : Except ε α} {f : α → Except ε β} {e : ε} :
    (x >>= f) = .error e ↔ x = .error e ∨ ∃ a, x = .ok a ∧ f a = .error e := by
  cases x with
  | error e' => simp [bind, Except.bind]
  | ok a => simp [bind, Except.bind]

variable {ε α : Type} {n : Nat}

/-- Extends a table of the first `k` entries to all `n`. -/
@[specialize] def tabulateFrom (f : Fin n → Except ε α) (k : Nat) (hk : k ≤ n)
    (done : Vector α k) : Except ε (Vector α n) :=
  if h : k < n then
    match f ⟨k, h⟩ with
    | .ok a => tabulateFrom f (k + 1) h (done.push a)
    | .error e => .error e
  else
    .ok (done.cast (Nat.le_antisymm hk (Nat.le_of_not_lt h)))
termination_by n - k

/-- The table of a function of the index; the error of the first entry that fails. -/
@[inline] def tabulate (f : Fin n → Except ε α) : Except ε (Vector α n) :=
  tabulateFrom f 0 (Nat.zero_le n) (Vector.emptyWithCapacity n)

theorem tabulateFrom_eq_ok_iff (f : Fin n → Except ε α) (k : Nat) (hk : k ≤ n)
    (done : Vector α k) (v : Vector α n) :
    tabulateFrom f k hk done = .ok v ↔
      (∀ i (h : i < k), v[i] = done[i]) ∧ ∀ i (h : i < n), k ≤ i → f ⟨i, h⟩ = .ok v[i] := by
  fun_induction tabulateFrom f k hk done with
  | case1 k hk done h a ha ih =>
    rw [ih]
    constructor
    · rintro ⟨hdone, hrest⟩
      refine ⟨fun i hi => ?_, fun i hi hki => ?_⟩
      · rw [hdone i (by omega), Vector.getElem_push_lt hi]
      · by_cases hik : i = k
        · subst hik
          rw [hdone i (by omega), Vector.getElem_push_eq, ha]
        · exact hrest i hi (by omega)
    · rintro ⟨hdone, hrest⟩
      refine ⟨fun i hi => ?_, fun i hi hki => hrest i hi (by omega)⟩
      by_cases hik : i = k
      · subst hik
        have := hrest i h (Nat.le_refl _)
        rw [ha] at this
        rw [Vector.getElem_push_eq]
        exact (Except.ok.inj this).symm
      · rw [Vector.getElem_push_lt (by omega), hdone i (by omega)]
  | case2 k hk done h e he =>
    constructor
    · intro h'
      cases h'
    · rintro ⟨_, hrest⟩
      have := hrest k h (Nat.le_refl _)
      rw [he] at this
      cases this
  | case3 k hk done h =>
    have hkn : k = n := by omega
    subst hkn
    constructor
    · intro h'
      cases h'
      exact ⟨fun i hi => by simp, fun i hi hki => by omega⟩
    · rintro ⟨hdone, _⟩
      congr 1
      ext i hi
      simp [hdone i hi]

/-- **A table exists exactly when every entry does**, and then holds the entries. -/
theorem tabulate_eq_ok_iff {f : Fin n → Except ε α} {v : Vector α n} :
    tabulate f = .ok v ↔ ∀ i : Fin n, f i = .ok v[i] := by
  unfold tabulate
  rw [tabulateFrom_eq_ok_iff]
  constructor
  · rintro ⟨_, h⟩ i
    exact h i i.2 (Nat.zero_le _)
  · intro h
    exact ⟨fun i hi => absurd hi (Nat.not_lt_zero i), fun i hi _ => h ⟨i, hi⟩⟩

theorem exists_tabulate_iff {f : Fin n → Except ε α} :
    (∃ v, tabulate f = .ok v) ↔ ∀ i, ∃ a, f i = .ok a := by
  constructor
  · rintro ⟨v, hv⟩ i
    exact ⟨v[i], tabulate_eq_ok_iff.mp hv i⟩
  · intro h
    refine ⟨.ofFn fun i => Classical.choose (h i), tabulate_eq_ok_iff.mpr fun i => ?_⟩
    rw [Fin.getElem_fin, Vector.getElem_ofFn]
    exact Classical.choose_spec (h i)

theorem tabulateFrom_eq_error_iff (f : Fin n → Except ε α) (k : Nat) (hk : k ≤ n)
    (done : Vector α k) (e : ε) :
    tabulateFrom f k hk done = .error e ↔
      ∃ i : Fin n, k ≤ i.val ∧ f i = .error e ∧
        ∀ j : Fin n, k ≤ j.val → j < i → ∃ a, f j = .ok a := by
  fun_induction tabulateFrom f k hk done with
  | case1 k hk done h a ha ih =>
    rw [ih]
    constructor
    · rintro ⟨i, hki, hi, hbefore⟩
      refine ⟨i, by omega, hi, fun j hkj hji => ?_⟩
      by_cases hjk : j.val = k
      · exact ⟨a, by rw [← ha, show j = ⟨k, h⟩ from Fin.ext hjk]⟩
      · exact hbefore j (by omega) hji
    · rintro ⟨i, hki, hi, hbefore⟩
      have hik : i.val ≠ k := by
        intro hik
        rw [show i = ⟨k, h⟩ from Fin.ext hik, ha] at hi
        cases hi
      exact ⟨i, by omega, hi, fun j hkj hji => hbefore j (by omega) hji⟩
  | case2 k hk done h e' he =>
    constructor
    · intro h'
      cases h'
      refine ⟨⟨k, h⟩, Nat.le_refl _, he, fun j hkj hji => ?_⟩
      exact absurd (show j.val < k from hji) (by omega)
    · rintro ⟨i, hki, hi, hbefore⟩
      by_cases hik : i.val = k
      · rw [show i = ⟨k, h⟩ from Fin.ext hik, he] at hi
        cases hi
        rfl
      · have hlt : k < i.val := by omega
        obtain ⟨a, ha⟩ := hbefore ⟨k, h⟩ (Nat.le_refl _) (Fin.lt_def.2 hlt)
        rw [he] at ha
        cases ha
  | case3 k hk done h =>
    constructor
    · intro h'
      cases h'
    · rintro ⟨i, hki, _⟩
      exact absurd i.2 (by omega)

/-- **A table fails with the error of its least failing entry.** -/
theorem tabulate_eq_error_iff {f : Fin n → Except ε α} {e : ε} :
    tabulate f = .error e ↔ ∃ i : Fin n, f i = .error e ∧ ∀ j < i, ∃ a, f j = .ok a := by
  unfold tabulate
  rw [tabulateFrom_eq_error_iff]
  constructor
  · rintro ⟨i, _, hi, hbefore⟩
    exact ⟨i, hi, fun j hji => hbefore j (Nat.zero_le _) hji⟩
  · rintro ⟨i, hi, hbefore⟩
    exact ⟨i, Nat.zero_le _, hi, fun j _ hji => hbefore j hji⟩

end Blockworld
