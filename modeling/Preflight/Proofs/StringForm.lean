import Mathlib.Logic.Function.Iterate
import Preflight.Proofs.ValueEquality

/-!
# Which values have a string form

A truth value, a number or a string has a string form, and so has one that is wrapped: put into an object
as its only entry, under the name `value`, any number of times.

* `Value.Innermost`: what a value is once all wrappings are off. There is one such value
  (`Value.exists_innermost`, `Value.Innermost.unique`).
* `Value.toText_innermost`: a value has a string form exactly if the innermost one is a truth value, a
  number or a string. If that is unknown, the string form is not known yet; every other one is refused for
  its type.
-/

namespace Preflight.Value

/-- A value as the only entry of an object, under the name `value`. -/
def wrap (v : Value) : Value := .object [("value", v)]

/-- How truth values, numbers and strings are written. -/
inductive StringForm : Value → String → Prop
  | yes : StringForm (.bool true) "true"
  | no : StringForm (.bool false) "false"
  | number (n : Number) : StringForm (.number n) n.text
  | string (s : String) : StringForm (.string s) s

/-- What a value is once all wrappings are off. -/
structure Innermost (v w : Value) : Prop where
  reached : ∃ k, v = wrap^[k] w
  bare : ∀ u, w ≠ wrap u

variable {u v w : Value} {s : String}

/-! ### Unwrapping -/

theorem wrap_injective : Function.Injective wrap := by
  intro v w h
  simpa [wrap] using h

theorem Innermost.of_bare (h : ∀ u, v ≠ wrap u) : Innermost v v := ⟨⟨0, rfl⟩, h⟩

theorem Innermost.wrap_left (h : Innermost v w) : Innermost (wrap v) w := by
  obtain ⟨k, rfl⟩ := h.reached
  exact ⟨⟨k + 1, (Function.iterate_succ_apply' wrap k w).symm⟩, h.bare⟩

/-- Unwrapping ends, as every wrapping makes a value larger. -/
theorem exists_innermost (v : Value) : ∃ w, Innermost v w := by
  by_cases h : ∃ u, v = wrap u
  · obtain ⟨u, hu⟩ := h
    obtain ⟨w, hw⟩ := exists_innermost u
    exact ⟨w, hu ▸ hw.wrap_left⟩
  · exact ⟨v, .of_bare (not_exists.1 h)⟩
termination_by sizeOf v
decreasing_by
  rw [hu, wrap]
  simp
  omega

/-- No further wrapping is hidden in a value that is none itself. -/
theorem eq_of_iterate_wrap {j k : Nat} (hjk : j ≤ k) (hu : ∀ x, u ≠ wrap x)
    (h : wrap^[j] u = wrap^[k] w) : u = w := by
  obtain ⟨d, rfl⟩ := Nat.exists_eq_add_of_le hjk
  rw [Function.iterate_add_apply] at h
  have hrest : u = wrap^[d] w := wrap_injective.iterate j h
  cases d with
  | zero => exact hrest
  | succ d =>
    rw [Function.iterate_succ_apply'] at hrest
    exact absurd hrest (hu _)

/-- Unwrapping ends at one value only. -/
theorem Innermost.unique (hu : Innermost v u) (hw : Innermost v w) : u = w := by
  obtain ⟨j, rfl⟩ := hu.reached
  obtain ⟨k, hk⟩ := hw.reached
  rcases le_total j k with hjk | hkj
  · exact eq_of_iterate_wrap hjk hu.bare hk
  · exact (eq_of_iterate_wrap hkj hw.bare hk.symm).symm

/-- What a wrapping does not change is the same for a value and the innermost one. -/
theorem Innermost.congr {α : Type} {f : Value → α} (hf : ∀ v, f (wrap v) = f v) (h : Innermost v w) :
    f v = f w := by
  obtain ⟨k, rfl⟩ := h.reached
  clear h
  induction k with
  | zero => rfl
  | succ k ih => rw [Function.iterate_succ_apply', hf, ih]

/-! ### The string form of the innermost value -/

theorem toText_wrap (v : Value) : (wrap v).toText = v.toText := by
  rw [wrap, toText_object]
  simp

theorem isWhollyKnown_wrap (v : Value) : (wrap v).isWhollyKnown = v.isWhollyKnown := by
  simp [wrap, Value.isWhollyKnown, allEntriesKnown]

theorem StringForm.toText_eq (h : StringForm v s) : v.toText = .ok s := by
  cases h <;> rfl

theorem StringForm.isWhollyKnown (h : StringForm v s) : v.isWhollyKnown = true := by
  cases h <;> rfl

theorem StringForm.innermost (h : StringForm v s) (k : Nat) : Innermost (wrap^[k] v) v :=
  ⟨⟨k, rfl⟩, fun u => by cases h <;> simp [wrap]⟩

/-- Without a wrapping a value has a string form, or is unknown, or is refused for its type. -/
theorem toText_cases (h : ∀ u, w ≠ wrap u) :
    (∃ s, StringForm w s) ∨ w = .unknown ∨
      w ≠ .unknown ∧ w.toText = .error (.unsupported w.typeName) := by
  cases w with
  | bool b =>
    cases b with
    | true => exact Or.inl ⟨_, .yes⟩
    | false => exact Or.inl ⟨_, .no⟩
  | number n => exact Or.inl ⟨_, .number n⟩
  | string s => exact Or.inl ⟨_, .string s⟩
  | unknown => exact Or.inr (Or.inl rfl)
  | null => exact Or.inr (Or.inr ⟨nofun, rfl⟩)
  | list items => exact Or.inr (Or.inr ⟨nofun, rfl⟩)
  | object es =>
    refine Or.inr (Or.inr ⟨nofun, ?_⟩)
    rw [toText_object]
    match es with
    | [] => rfl
    | [(key, inner)] =>
      have hkey : key ≠ "value" := fun hkey => h inner (by rw [wrap, hkey])
      exact if_neg hkey
    | _ :: _ :: _ => rfl

theorem Innermost.toText_eq_ok_iff (h : Innermost v w) : v.toText = .ok s ↔ StringForm w s := by
  rw [h.congr toText_wrap]
  constructor
  · intro hs
    rcases toText_cases h.bare with ⟨t, ht⟩ | rfl | ⟨-, herror⟩
    · rw [ht.toText_eq] at hs
      cases hs
      exact ht
    · cases hs
    · rw [herror] at hs
      cases hs
  · exact StringForm.toText_eq

theorem Innermost.toText_eq_error_iff (h : Innermost v w) {e : NotText} :
    v.toText = .error e ↔
      w = .unknown ∧ e = .notKnown ∨
        w ≠ .unknown ∧ (∀ s, ¬StringForm w s) ∧ e = .unsupported w.typeName := by
  rw [h.congr toText_wrap]
  rcases toText_cases h.bare with ⟨s, hs⟩ | rfl | ⟨hne, herror⟩
  · have hne : w ≠ .unknown := by cases hs <;> nofun
    simp only [hs.toText_eq, hne, false_and, false_or, reduceCtorEq, false_iff, not_and]
    exact fun _ hnone => absurd hs (hnone s)
  · simp [toText, eq_comm]
  · have hnone : ∀ s, ¬StringForm w s := fun s hs => by
      rw [hs.toText_eq] at herror
      cases herror
    simp [herror, hne, hnone, eq_comm]

/-- A value has a string form exactly if it is a truth value, a number or a string, or one of these in any
number of wrappings, and then the form is that of what is wrapped. A string is its own form, and only
wholly known values have one. Unwrapping ends at one innermost value. If it is unknown, the form is not
known yet, and where there is no form for another reason, the type of the innermost value is refused. -/
theorem toText_innermost (v : Value) :
    (∀ s, v.toText = .ok s ↔ ∃ k p, StringForm p s ∧ v = wrap^[k] p) ∧
    (∀ s, v.toText = .ok s → (string s).toText = .ok s ∧ v.isWhollyKnown = true) ∧
    ∃ w, Innermost v w ∧ (∀ u, Innermost v u → u = w) ∧
      (v.toText = .error .notKnown ↔ w = .unknown) ∧
      ∀ e, v.toText = .error e ↔
        w = .unknown ∧ e = .notKnown ∨
          w ≠ .unknown ∧ (∀ s, ¬StringForm w s) ∧ e = .unsupported w.typeName := by
  obtain ⟨w, hw⟩ := exists_innermost v
  refine ⟨fun s => ⟨fun hs => ?_, ?_⟩, fun s hs => ⟨(StringForm.string s).toText_eq, ?_⟩,
    w, hw, fun u hu => hu.unique hw, ?_, fun e => hw.toText_eq_error_iff⟩
  · obtain ⟨k, hk⟩ := hw.reached
    exact ⟨k, w, hw.toText_eq_ok_iff.1 hs, hk⟩
  · rintro ⟨k, p, hp, rfl⟩
    exact (hp.innermost k).toText_eq_ok_iff.2 hp
  · rw [hw.congr isWhollyKnown_wrap]
    exact (hw.toText_eq_ok_iff.1 hs).isWhollyKnown
  · rw [hw.toText_eq_error_iff]
    simp

/-- A key besides `value` keeps what stands under `value` from being reached. -/
example : (wrap (.object [("value", .string "eu"), ("zone", .unknown)])).toText =
    .error (.unsupported "object") := by decide

end Preflight.Value
