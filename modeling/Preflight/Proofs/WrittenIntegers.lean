import Mathlib.Data.List.Basic
import Mathlib.Tactic.IntervalCases
import Preflight.Number.Decimal

/-!
# Integers in decimal

How an integer is written: a sign if it is negative, then digits that read back and do not start with a
zero that could be left out.
-/

namespace Preflight.Decimal

/-! ### Digits -/

theorem isDigit_of_mem_digitsOf {n : Nat} {c : Char} (h : c ∈ digitsOf n) : c.isDigit = true :=
  Nat.isDigit_of_mem_toDigits (by decide) (by decide) h

theorem digitsOf_ne_nil (n : Nat) : digitsOf n ≠ [] := Nat.toDigits_ne_nil

@[simp] theorem ofDigits_digitsOf (n : Nat) : ofDigits (digitsOf n) = n :=
  Nat.ofDigitChars_ten_toDigits

theorem all_isDigit_digitsOf (n : Nat) : (digitsOf n).all Char.isDigit = true := by
  rw [List.all_eq_true]
  intro c hc
  exact isDigit_of_mem_digitsOf hc

theorem digitsOf_of_ge {n : Nat} (h : 10 ≤ n) :
    digitsOf n = digitsOf (n / 10) ++ [(n % 10).digitChar] :=
  Nat.toDigits_of_base_le (by decide) h

/-- The digits of a positive number start with another digit than zero. -/
theorem head?_digitsOf_ne_zero {n : Nat} (h : 0 < n) : (digitsOf n).head? ≠ some '0' := by
  induction n using Nat.strong_induction_on with
  | _ n ih =>
    by_cases hn : n < 10
    · rw [digitsOf, Nat.toDigits_of_lt_base hn]
      interval_cases n <;> decide
    · rw [digitsOf_of_ge (by omega), List.head?_append_of_ne_nil _ (digitsOf_ne_nil _)]
      exact ih (n / 10) (by omega) (by omega)

/-- Only zero itself is written with a zero in front. -/
theorem head?_digitsOf {n : Nat} (h : 1 < (digitsOf n).length) : (digitsOf n).head? ≠ some '0' := by
  apply head?_digitsOf_ne_zero
  rcases Nat.eq_zero_or_pos n with rfl | hn
  · simp [digitsOf] at h
  · exact hn

/-! ### Signs -/

theorem toList_toString_natCast (n : Nat) : (toString (n : Int)).toList = digitsOf n := by
  change (toString n).toList = digitsOf n
  rw [Nat.toString_eq_ofList_toDigits, String.toList_ofList]
  rfl

theorem toList_toString_neg {n : Nat} (h : 0 < n) :
    (toString (-(n : Int))).toList = '-' :: digitsOf n := by
  obtain ⟨m, rfl⟩ : ∃ m, n = m + 1 := ⟨n - 1, by omega⟩
  change ("-" ++ (m + 1).repr).toList = _
  rw [String.toList_append, Nat.repr_eq_ofList_toDigits]
  simp [digitsOf]

end Preflight.Decimal
