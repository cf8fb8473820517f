import Mathlib.Data.List.TakeWhile
import Mathlib.Data.Rat.Cast.Order
import Mathlib.Tactic.NormNum
import Preflight.Proofs.WrittenIntegers
import Preflight.TypeSpec.Basic

/-!
# Integers through text

A number converts to a string and a string that holds a number converts to it. An integer that fits a
signed 64-bit word comes back as it was. A larger one, which fits only an unsigned word, is read as a
64-bit binary fraction and comes back as a multiple of 2048.

* `Number.parse?_toString_small` and `Number.parse?_toString_large` say what is read.
* `TypeSpec.convert_text_int` says when the number that comes back equals the one that was written.
-/

namespace Preflight

/-! ### Rounding of large integers -/

namespace Binary64

theorem halfEven_mul (k : Nat) {d : Nat} (hd : 0 < d) : halfEven (k * d) d = k := by
  simp [halfEven, Nat.mul_div_cancel _ hd, hd]

theorem halfEven_cases (n d : Nat) :
    (halfEven n d = n / d ∧ 2 * (n % d) ≤ d) ∨ (halfEven n d = n / d + 1 ∧ d ≤ 2 * (n % d)) := by
  unfold halfEven
  grind

/-- The place of the last binary digit of a fraction near an integer of 64 binary digits. -/
theorem lastPlace_of_large {n : Nat} (hlow : 2 ^ 63 ≤ n) (hhigh : n < 2 ^ 64) : lastPlace n 1 = 11 := by
  have hlog : n.log2 = 63 := (Nat.log2_eq_iff (by omega)).2 ⟨hlow, hhigh⟩
  have hone : Nat.log2 1 = 0 := by decide
  simp only [Nat.reducePow] at hlow
  simp [lastPlace, hlog, hone, hlow]

theorem scaled_natCast (m e : Nat) : scaled m (e : Int) = ((m * 2 ^ e : Nat) : Rat) := by
  simp [scaled]

theorem natCast_le_scaled {n m e : Nat} (h : n ≤ m * 2 ^ e) : (n : Rat) ≤ scaled m (e : Int) := by
  rw [scaled_natCast]
  exact Nat.cast_le.2 h

theorem natCast_le_largest {n : Nat} (h : n ≤ 2 ^ 64) : (n : Rat) ≤ largest := by
  have hscaled : ∀ e : Nat, 64 ≤ e → (n : Rat) ≤ scaled (Nat.pow 2 53 - 1) (e : Int) := by
    intro e he
    have hpow : 2 ^ 64 ≤ 2 ^ e := Nat.pow_le_pow_right (by decide) he
    exact natCast_le_scaled ((h.trans hpow).trans (Nat.le_mul_of_pos_left _ (by decide)))
  exact hscaled 971 (by decide)

/-- The nearest integer at a distance of 2048, a half going to the even one of the two. -/
def multiple (n : Nat) : Nat := 2048 * halfEven n 2048

theorem multiple_le {n : Nat} (h : n < 2 ^ 64) : multiple n ≤ 2 ^ 64 := by
  have := halfEven_cases n 2048
  unfold multiple
  omega

theorem multiple_eq_self_iff {n : Nat} : multiple n = n ↔ 2048 ∣ n := by
  constructor
  · intro h
    exact ⟨_, h.symm⟩
  · rintro ⟨k, rfl⟩
    rw [multiple, Nat.mul_comm 2048 k, halfEven_mul k (by decide), Nat.mul_comm]

/-- The multiples for the last integers below `2^64` are `2^64`. -/
theorem multiple_eq_limit_iff {n : Nat} (h : n < 2 ^ 64) :
    multiple n = 2 ^ 64 ↔ 2 ^ 64 - 1024 ≤ n := by
  unfold multiple halfEven
  dsimp only
  split_ifs <;> omega

theorem round?_of_large {n : Nat} (hlow : 2 ^ 63 ≤ n) (hhigh : n < 2 ^ 64) :
    round? (n : Rat) = some (multiple n : Rat) := by
  have hzero : n ≠ 0 := by omega
  have hmagnitude : roundMagnitude n 1 = (multiple n : Rat) := by
    rw [roundMagnitude, lastPlace_of_large hlow hhigh, multiple, Nat.mul_comm 2048]
    exact scaled_natCast (halfEven n 2048) 11
  simp [round?, hzero, hmagnitude, natCast_le_largest (multiple_le hhigh)]

theorem nearest_of_large {n : Nat} (hlow : 2 ^ 63 ≤ n) (hhigh : n < 2 ^ 64) :
    nearest (n : Rat) = (multiple n : Rat) := by
  rw [nearest, round?_of_large hlow hhigh, Option.getD_some]

end Binary64

/-! ### Reading integers -/

theorem Text.isBlank_of_isDigit {c : Char} (h : c.isDigit = true) : isBlank c = false := by
  obtain ⟨hlow, hhigh⟩ := Char.isDigit_iff_toNat.1 h
  simp only [Char.reduceToNat] at hlow hhigh
  simp only [isBlank, decide_eq_false_iff_not]
  omega

theorem Text.trimChars_eq_self {cs : List Char} (h : ∀ c ∈ cs, isBlank c = false) :
    trimChars cs = cs := by
  have hdrop : ∀ ds : List Char, (∀ c ∈ ds, isBlank c = false) → ds.dropWhile isBlank = ds := by
    intro ds hds
    rw [List.dropWhile_eq_self_iff]
    intro hl
    simp [hds ds[0] (List.getElem_mem hl)]
  rw [trimChars, hdrop cs h, hdrop cs.reverse (by simpa using h), List.reverse_reverse]

namespace Decimal

/-- Digits do not start with a sign. -/
theorem digitsOf_ne_cons (n : Nat) {c : Char} (hc : c.isDigit = false) (cs : List Char) :
    digitsOf n ≠ c :: cs := by
  intro h
  have hdigit : c.isDigit = true := isDigit_of_mem_digitsOf (h ▸ List.mem_cons_self)
  rw [hc] at hdigit
  cases hdigit

theorem readInt?_digitsOf (n : Nat) : readInt? (digitsOf n) = some (n : Int) := by
  unfold readInt?
  split
  · exact absurd ‹_› (digitsOf_ne_cons n (by decide) _)
  · exact absurd ‹_› (digitsOf_ne_cons n (by decide) _)
  · simp [digitsOf_ne_nil, all_isDigit_digitsOf]

theorem readInt?_neg_digitsOf (n : Nat) : readInt? ('-' :: digitsOf n) = some (-(n : Int)) := by
  simp [readInt?, digitsOf_ne_nil, all_isDigit_digitsOf]

theorem readUnsigned?_digitsOf (n : Nat) : readUnsigned? (digitsOf n) = some ⟨false, n, 0⟩ := by
  have htake : (digitsOf n).takeWhile Char.isDigit = digitsOf n :=
    List.takeWhile_eq_self_iff.2 fun c hc => isDigit_of_mem_digitsOf hc
  have hdrop : (digitsOf n).dropWhile Char.isDigit = [] :=
    List.dropWhile_eq_nil_iff.2 fun c hc => isDigit_of_mem_digitsOf hc
  simp [readUnsigned?, htake, hdrop, digitsOf_ne_nil, readExponent?]

theorem parse_digitsOf (n : Nat) : parse (digitsOf n) = some ⟨false, n, 0⟩ := by
  unfold parse
  split
  · exact absurd ‹_› (digitsOf_ne_cons n (by decide) _)
  · exact absurd ‹_› (digitsOf_ne_cons n (by decide) _)
  · exact readUnsigned?_digitsOf n

/-- An integer of at most 300 digits is rounded once. -/
theorem toBinary64?_of_integer {n : Nat} (hpos : 0 < n) (hlength : (digitsOf n).length ≤ 300) :
    toBinary64? ⟨false, n, 0⟩ = Binary64.round? (n : Rat) := by
  have hne : n ≠ 0 := by omega
  have hlow : ¬ ((digitsOf n).length : Int) < -330 := by omega
  have hhigh : ¬ 310 < ((digitsOf n).length : Int) := by omega
  simp [toBinary64?, hne, hlow, hhigh]

end Decimal

/-- An integer is written without blanks. -/
theorem Text.isBlank_of_mem_toString {n : Int} {c : Char} (h : c ∈ (toString n).toList) :
    isBlank c = false := by
  have hdigits : ∀ m : Nat, c ∈ Decimal.digitsOf m → isBlank c = false := fun m hc =>
    isBlank_of_isDigit (Decimal.isDigit_of_mem_digitsOf hc)
  rcases lt_or_ge n 0 with hn | hn
  · obtain ⟨m, rfl⟩ : ∃ m : Nat, n = -(m : Int) := ⟨n.natAbs, by omega⟩
    rw [Decimal.toList_toString_neg (by omega)] at h
    rcases List.mem_cons.1 h with rfl | h
    · decide
    · exact hdigits m h
  · obtain ⟨m, rfl⟩ := Int.eq_ofNat_of_zero_le hn
    rw [Decimal.toList_toString_natCast] at h
    exact hdigits m h

namespace Number

theorem inRange_iff {n : Int} : inRange n = true ↔ -2 ^ 63 ≤ n ∧ n < 2 ^ 64 := by
  simp [inRange]

theorem readInt?_toString (n : Int) : Decimal.readInt? (toString n).toList = some n := by
  rcases lt_or_ge n 0 with hn | hn
  · obtain ⟨m, rfl⟩ : ∃ m : Nat, n = -(m : Int) := ⟨n.natAbs, by omega⟩
    rw [Decimal.toList_toString_neg (by omega), Decimal.readInt?_neg_digitsOf]
  · obtain ⟨m, rfl⟩ := Int.eq_ofNat_of_zero_le hn
    rw [Decimal.toList_toString_natCast, Decimal.readInt?_digitsOf]

/-- An integer that fits a signed 64-bit word is read as it is written. -/
theorem parse?_toString_of_small {n : Int} (hlow : -2 ^ 63 ≤ n) (hhigh : n < 2 ^ 63) :
    parse? (toString n).toList = some (.int n) := by
  have hrange : -(Nat.pow 2 63 : Int) ≤ n ∧ n < Nat.pow 2 63 := ⟨hlow, hhigh⟩
  simp only [parse?, readInt?_toString, if_pos hrange]

/-- An integer that fits an unsigned 64-bit word only is read as a 64-bit binary fraction. -/
theorem parse?_toString_of_large {n : Nat} (hlow : 2 ^ 63 ≤ n) (hhigh : n < 2 ^ 64) :
    parse? (toString (n : Int)).toList = some (ofBinary64 (Binary64.multiple n : Rat)) := by
  have hrange : ¬ (-(Nat.pow 2 63 : Int) ≤ (n : Int) ∧ (n : Int) < Nat.pow 2 63) := by
    simp only [Nat.pow_eq]
    omega
  have hlength : (Decimal.digitsOf n).length ≤ 20 :=
    (Nat.length_toDigits_le_iff (by decide) (by decide)).2 (by omega)
  simp only [parse?, readInt?_toString, if_neg hrange]
  rw [Decimal.toList_toString_natCast, Decimal.parse_digitsOf, Option.bind_some, ofDecimal?,
    Decimal.toBinary64?_of_integer (by omega) (by omega), Binary64.round?_of_large hlow hhigh]
  rfl

theorem ofBinary64_natCast {n : Nat} (h : n < 2 ^ 64) : ofBinary64 (n : Rat) = .int n := by
  have hrange : inRange (n : Int) = true := inRange_iff.2 (by omega)
  simp [ofBinary64, hrange]

theorem ofBinary64_limit : ofBinary64 ((2 ^ 64 : Nat) : Rat) = .real ((2 ^ 64 : Nat) : Rat) := by
  rw [ofBinary64, if_neg]
  rintro ⟨-, h⟩
  rw [Rat.num_natCast, inRange_iff] at h
  omega

/-- The number read for a large integer equals it if the integer is a multiple of 2048. Of the others
only those do that are rounded to `2^64` themselves before they are compared. -/
theorem equal_multiple_iff {n : Nat} (hlow : 2 ^ 63 ≤ n) (hhigh : n < 2 ^ 64) :
    (ofBinary64 (Binary64.multiple n : Rat)).equal (.int n) = true ↔
      2048 ∣ n ∨ 2 ^ 64 - 1024 ≤ n := by
  rw [← Binary64.multiple_eq_self_iff, ← Binary64.multiple_eq_limit_iff hhigh]
  by_cases hlimit : Binary64.multiple n = 2 ^ 64
  · rw [hlimit, ofBinary64_limit]
    have hnearest := Binary64.nearest_of_large hlow hhigh
    rw [hlimit] at hnearest
    simp [equal, toBinary64, hnearest]
  · have hsmall : Binary64.multiple n < 2 ^ 64 := by
      have := Binary64.multiple_le hhigh
      omega
    rw [ofBinary64_natCast hsmall, equal, decide_eq_true_eq, Int.natCast_inj]
    exact (or_iff_left hlimit).symm

end Number

namespace TypeSpec

theorem convert_string_int (n : Int) :
    string.convert (.number (.int n)) = .ok (.string (toString n)) := by
  rw [convert]
  rfl

theorem convert_number_toString {n : Int} {m : Number}
    (h : Number.parse? (toString n).toList = some m) :
    number.convert (.string (toString n)) = .ok (.number m) := by
  have htrim : Text.trimChars (toString n).toList = (toString n).toList :=
    Text.trimChars_eq_self fun c hc => Text.isBlank_of_mem_toString hc
  rw [convert]
  simp only [unlessOpen, convertNumber, htrim, h]

/-- An integer converts to a string and back to a number. The number is the integer itself if it fits a
signed 64-bit word, and otherwise the multiple of 2048 next to it; it equals the integer exactly if the
integer fits a signed word, is a multiple of 2048 or is rounded to `2^64` in a comparison. -/
theorem convert_text_int {n : Int} (hn : Number.inRange n = true) :
    ∃ s m, string.convert (.number (.int n)) = .ok (.string s) ∧
      number.convert (.string s) = .ok (.number m) ∧
      (n < 2 ^ 63 → m = .int n) ∧
      (2 ^ 63 ≤ n → m = Number.ofBinary64 (Binary64.multiple n.toNat : Rat)) ∧
      (m.equal (.int n) = true ↔ n < 2 ^ 63 ∨ 2048 ∣ n ∨ 2 ^ 64 - 1024 ≤ n) := by
  obtain ⟨hlow, hhigh⟩ := Number.inRange_iff.1 hn
  rcases lt_or_ge n (2 ^ 63) with hsmall | hlarge
  · have hread := Number.parse?_toString_of_small hlow hsmall
    refine ⟨toString n, .int n, convert_string_int n, convert_number_toString hread, fun _ => rfl,
      fun h => absurd hsmall (not_lt.2 h), ?_⟩
    exact iff_of_true (by simp [Number.equal]) (Or.inl hsmall)
  · obtain ⟨k, rfl⟩ := Int.eq_ofNat_of_zero_le (by omega : 0 ≤ n)
    have hk : 2 ^ 63 ≤ k ∧ k < 2 ^ 64 := by omega
    have hread := Number.parse?_toString_of_large hk.1 hk.2
    refine ⟨toString (k : Int), _, convert_string_int k, convert_number_toString hread,
      fun h => absurd h (not_lt.2 hlarge), fun _ => rfl, ?_⟩
    rw [Number.equal_multiple_iff hk.1 hk.2]
    omega

/-- The least signed word and the first two multiples of 2048 from `2^63` on come back; the integer
between these two comes back as a multiple. -/
theorem convert_text_int_words :
    (∃ s m, string.convert (.number (.int (-9223372036854775808))) = .ok (.string s) ∧
      number.convert (.string s) = .ok (.number m) ∧ m = .int (-9223372036854775808)) ∧
    (∃ s m, string.convert (.number (.int 9223372036854777856)) = .ok (.string s) ∧
      number.convert (.string s) = .ok (.number m) ∧ m.equal (.int 9223372036854777856) = true) ∧
    ∃ s m, string.convert (.number (.int 9223372036854777857)) = .ok (.string s) ∧
      number.convert (.string s) = .ok (.number m) ∧ m.equal (.int 9223372036854777857) = false := by
  refine ⟨?_, ?_, ?_⟩
  · obtain ⟨s, m, hs, hm, hsmall, -⟩ := convert_text_int (n := -9223372036854775808) (by decide)
    exact ⟨s, m, hs, hm, hsmall (by decide)⟩
  · obtain ⟨s, m, hs, hm, -, -, hequal⟩ := convert_text_int (n := 9223372036854777856) (by decide)
    exact ⟨s, m, hs, hm, hequal.2 (by decide)⟩
  · obtain ⟨s, m, hs, hm, -, -, hequal⟩ := convert_text_int (n := 9223372036854777857) (by decide)
    refine ⟨s, m, hs, hm, ?_⟩
    rw [Bool.eq_false_iff, ne_eq, hequal]
    decide

/-- The integer behind `2^63` comes back as `2^63`, which is another number. -/
theorem not_convert_text_int :
    ¬ ∀ n : Int, Number.inRange n = true → ∃ s m,
      string.convert (.number (.int n)) = .ok (.string s) ∧
        number.convert (.string s) = .ok (.number m) ∧ m.equal (.int n) = true := by
  intro h
  obtain ⟨s, m, hs, hm, heq⟩ := h ((9223372036854775809 : Nat) : Int) (by decide)
  rw [convert_string_int] at hs
  cases hs
  have hread := Number.parse?_toString_of_large (n := 9223372036854775809) (by decide) (by decide)
  rw [convert_number_toString hread] at hm
  cases hm
  rw [Number.equal_multiple_iff (by decide) (by decide)] at heq
  exact absurd heq (by decide)

end TypeSpec
end Preflight
