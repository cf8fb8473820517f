import Preflight.AttributeAccess

/-!
# What accesses to attributes report

Accesses through one reader have no influence on each other: each gives what it would give alone, and the
reader has reported what each of them would have reported alone, in order (`Reader.access_eq`,
`Reader.run_eq`). One access reports one error at most, and which one is decided by the attribute
(`Reader.run_reports`): that it is missing, if it was required and is absent or null; that it has another
type, if a value of some type was to be read and it is none.
-/

namespace Preflight

/-! ### The attribute that is accessed -/

namespace Block

variable {b : Block} {name : String}

/-- An attribute of a name that has a value other than null. -/
def Has (b : Block) (name : String) (a : Attribute) : Prop :=
  b.attribute? name = some a ∧ a.value ≠ .null

theorem has_iff {a : Attribute} : b.Has name a ↔ b.presentAttribute? name = some a := by
  rw [Has, presentAttribute?, Option.filter_eq_some_iff]
  refine and_congr_right fun _ => ?_
  cases a.value <;> simp [Value.isNull]

theorem not_has_iff : (∀ a, ¬ b.Has name a) ↔ b.presentAttribute? name = none := by
  simp only [has_iff, Option.eq_none_iff_forall_not_mem, Option.mem_def]

end Block

namespace Ending

/-- What an access that ends so gives of an attribute that has the type asked for. Integers are the whole
numbers; a fraction is none, not even one that rounding has left without decimal places. -/
inductive Reads : Ending → Attribute → Answer → Prop
  | string {a : Attribute} {s : String} (h : a.value = .string s) : Reads .string a (.string s)
  | bool {a : Attribute} {v : Bool} (h : a.value = .bool v) : Reads .bool a (.bool v)
  | whole {a : Attribute} {n : Int} (h : a.value = .number (.int n)) (hlow : -(Nat.pow 2 63 : Int) ≤ n)
      (hhigh : n < Nat.pow 2 63) : Reads .whole a (.whole (some n))
  | attribute (a : Attribute) : Reads .attribute a (.attribute (some a))
  | nothing (a : Attribute) : Reads .nothing a .nothing

/-- What stands for an attribute that cannot be read. -/
def zero : Ending → Answer
  | .string => .string ""
  | .bool => .bool false
  | .whole => .whole none
  | .attribute => .attribute none
  | .nothing => .nothing

end Ending

/-! ### Requiring an attribute -/

/-- The reader after more has been reported. -/
def Reader.report (r : Reader) (ds : Diagnostics) : Reader := ⟨r.block, r.diagnostics ++ ds⟩

namespace ExpectedAttribute

variable {x : ExpectedAttribute}

theorem require_of_present {a : Attribute} (h : x.present? = some a) : x.require = x := by
  rw [require, h]

theorem repeat_require_of_present {a : Attribute} (h : x.present? = some a) (n : Nat) :
    Nat.repeat require n x = x := by
  induction n with
  | zero => rfl
  | succ n ih => rw [Nat.repeat, ih, require_of_present h]

/-- After the first failure the attribute can be required again and again. -/
theorem repeat_require_of_missing (h : x.present? = none) (hf : x.failed = false) (n : Nat) :
    Nat.repeat require (n + 1) x =
      ⟨x.reader.report [x.reader.block.missing x.name], x.name, true⟩ := by
  have hfail : x.fail (x.reader.block.missing x.name) =
      ⟨x.reader.report [x.reader.block.missing x.name], x.name, true⟩ := by
    rw [fail, hf]
    rfl
  induction n with
  | zero => rw [Nat.repeat, Nat.repeat, require, h, ← hfail]
  | succ n ih =>
    rw [Nat.repeat, ih, require]
    simp only [present?, Reader.report] at h ⊢
    rw [h]
    rfl

/-- An attribute that is required any number of times is reported as missing once at most. -/
theorem repeat_require (r : Reader) (name : String) (n : Nat) :
    Nat.repeat require n ⟨r, name, false⟩ =
      let ds := if n = 0 then [] else r.block.require name
      ⟨r.report ds, name, !ds.isEmpty⟩ := by
  cases h : r.block.presentAttribute? name with
  | some a =>
    have hx : present? ⟨r, name, false⟩ = some a := h
    rw [repeat_require_of_present hx]
    simp [Block.require, h, Reader.report]
  | none => cases n with
    | zero => simp [Nat.repeat, Reader.report]
    | succ n =>
      have hx : present? ⟨r, name, false⟩ = none := h
      rw [repeat_require_of_missing hx rfl]
      simp [Block.require, h]

end ExpectedAttribute

/-! ### One access -/

namespace Block

/-- What reading an attribute as a value of some type gives and reports. -/
def answer {α : Type} (b : Block) (a : AttributeAccess) (shape : Shape α) (f : α → Answer) :
    Reported Answer :=
  let r := if a.required = 0 then b.read shape a.name else b.readRequired shape a.name
  ⟨f r.value, r.diagnostics⟩

/-- What an access gives and reports on its own. -/
def access (b : Block) (a : AttributeAccess) : Reported Answer :=
  let required := if a.required = 0 then [] else b.require a.name
  match a.ending with
  | .string => b.answer a .string .string
  | .bool => b.answer a .bool .bool
  | .whole => b.answer a .whole .whole
  | .attribute => ⟨.attribute (b.presentAttribute? a.name), required⟩
  | .nothing => ⟨.nothing, required⟩

/-- What an access may give and report: at most one error, whose kind says what is wrong. -/
inductive Accessed (b : Block) (a : AttributeAccess) : Answer → Diagnostics → Prop
  | absent (h : ∀ v, ¬ b.Has a.name v) (hr : a.required = 0) : Accessed b a a.ending.zero []
  | missing (h : ∀ v, ¬ b.Has a.name v) (hr : a.required ≠ 0) {d : Diagnostic} (he : d.isError = true)
      (hk : d.kind = .missingRequiredArgument) : Accessed b a a.ending.zero [d]
  | read {v : Attribute} (h : b.Has a.name v) {answer : Answer} (hv : a.ending.Reads v answer) :
      Accessed b a answer []
  | mistyped {v : Attribute} (h : b.Has a.name v) (hv : ∀ answer, ¬ a.ending.Reads v answer)
      {d : Diagnostic} (he : d.isError = true) (hk : d.kind = .invalidAttributeType) :
      Accessed b a a.ending.zero [d]

end Block

namespace Reader

/-- Reading an attribute that has been required reports what `Block.readRequired` does, as the access
keeps silent once it has failed. -/
theorem finishWith_eq {α : Type} (r : Reader) (a : AttributeAccess) (shape : Shape α) (f : α → Answer) :
    (Nat.repeat ExpectedAttribute.require a.required ⟨r, a.name, false⟩).finishWith shape f =
      ((r.block.answer a shape f).value, r.report (r.block.answer a shape f).diagnostics) := by
  rw [ExpectedAttribute.repeat_require, ExpectedAttribute.finishWith, ExpectedAttribute.read,
    ExpectedAttribute.present?, Block.answer]
  by_cases hr : a.required = 0 <;>
    cases h : r.block.presentAttribute? a.name with
    | none => simp [hr, h, Block.read, Block.readRequired, Block.require, report]
    | some v => cases hv : shape.read? v.value <;>
        simp [hr, h, hv, Block.read, Block.readRequired, Block.require, report, ExpectedAttribute.fail]

/-- An access gives and reports what it does on its own, whatever has been reported. -/
theorem access_eq (r : Reader) (a : AttributeAccess) :
    r.access a = ((r.block.access a).value, r.report (r.block.access a).diagnostics) := by
  rw [access]
  match h : a.ending with
  | .string => simp only [ExpectedAttribute.finish, finishWith_eq, Block.access, h]
  | .bool => simp only [ExpectedAttribute.finish, finishWith_eq, Block.access, h]
  | .whole => simp only [ExpectedAttribute.finish, finishWith_eq, Block.access, h]
  | .attribute =>
    rw [ExpectedAttribute.repeat_require]
    simp only [ExpectedAttribute.finish, Block.access, h]
    rfl
  | .nothing =>
    rw [ExpectedAttribute.repeat_require]
    simp only [ExpectedAttribute.finish, Block.access, h]

/-- Accesses give and report what each of them does on its own, in order. -/
theorem run_eq (r : Reader) (as : List AttributeAccess) :
    r.run as = (as.map fun a => (r.block.access a).value,
      r.report (as.flatMap fun a => (r.block.access a).diagnostics)) := by
  induction as generalizing r with
  | nil => simp [run, report]
  | cons a as ih =>
    rw [run, access_eq]
    simp only [ih]
    simp [report]

end Reader

/-! ### What is reported -/

namespace Block

variable {b : Block} {a : AttributeAccess}

/-- Reading as a value of some type, for a shape that reads what the access asks for. -/
theorem accessed_answer {α : Type} {shape : Shape α} {f : α → Answer} (hzero : f shape.zero = a.ending.zero)
    (hreads : ∀ v answer, a.ending.Reads v answer ↔ ∃ x, shape.read? v.value = some x ∧ answer = f x) :
    b.Accessed a (b.answer a shape f).value (b.answer a shape f).diagnostics := by
  cases h : b.presentAttribute? a.name with
  | none =>
    have hnot := not_has_iff.mpr h
    by_cases hr : a.required = 0
    · simpa [answer, hr, read, h, hzero] using Accessed.absent hnot hr
    · simpa [answer, hr, readRequired, h, hzero] using
        Accessed.missing hnot hr (d := b.missing a.name) rfl rfl
  | some v =>
    have hhas := has_iff.mpr h
    have hread : b.answer a shape f =
        ⟨f (b.read shape a.name).value, (b.read shape a.name).diagnostics⟩ := by
      by_cases hr : a.required = 0 <;> simp [answer, hr, readRequired, h]
    cases hv : shape.read? v.value with
    | some x =>
      simp only [hread, read, h, hv]
      exact .read hhas ((hreads v _).mpr ⟨x, hv, rfl⟩)
    | none =>
      simp only [hread, read, h, hv, hzero]
      refine .mistyped hhas (fun answer hanswer => ?_) rfl rfl
      obtain ⟨x, hx, -⟩ := (hreads v answer).mp hanswer
      rw [hv] at hx
      cases hx

/-- Ending an access without asking for a type. -/
theorem accessed_untyped (answer : Option Attribute → Answer)
    (hzero : answer none = a.ending.zero) (hreads : ∀ v, a.ending.Reads v (answer (some v))) :
    b.Accessed a (answer (b.presentAttribute? a.name))
      (if a.required = 0 then [] else b.require a.name) := by
  cases h : b.presentAttribute? a.name with
  | none =>
    have hnot := not_has_iff.mpr h
    rw [hzero]
    by_cases hr : a.required = 0
    · simpa [hr] using Accessed.absent hnot hr
    · simpa [hr, require, h] using Accessed.missing hnot hr (d := b.missing a.name) rfl rfl
  | some v => simpa [require, h] using Accessed.read (has_iff.mpr h) (hreads v)

end Block

namespace Ending

variable {v : Attribute} {answer : Answer}

theorem reads_string_iff :
    string.Reads v answer ↔ ∃ s, Shape.string.read? v.value = some s ∧ answer = .string s := by
  constructor
  · intro h
    cases h with
    | string h => exact ⟨_, by rw [h]; rfl, rfl⟩
  · rintro ⟨s, h, rfl⟩
    refine .string ?_
    cases hv : v.value <;> simp_all [Shape.string, Value.string?]

theorem reads_bool_iff :
    bool.Reads v answer ↔ ∃ x, Shape.bool.read? v.value = some x ∧ answer = .bool x := by
  constructor
  · intro h
    cases h with
    | bool h => exact ⟨_, by rw [h]; rfl, rfl⟩
  · rintro ⟨x, h, rfl⟩
    refine .bool ?_
    cases hv : v.value <;> simp_all [Shape.bool]

theorem reads_whole_iff :
    whole.Reads v answer ↔ ∃ x, Shape.whole.read? v.value = some x ∧ answer = .whole x := by
  constructor
  · intro h
    cases h with
    | whole h hlow hhigh =>
      refine ⟨_, ?_, rfl⟩
      simp only [Shape.whole, h, Number.whole?]
      rw [if_pos ⟨hlow, hhigh⟩]
      rfl
  · rintro ⟨x, h, rfl⟩
    cases hv : v.value with
    | number n =>
      simp only [Shape.whole, hv, Option.map_eq_some_iff] at h
      obtain ⟨i, hi, rfl⟩ := h
      cases n with
      | int n =>
        simp only [Number.whole?, Option.ite_none_right_eq_some, Option.some.injEq] at hi
        obtain ⟨⟨hlow, hhigh⟩, rfl⟩ := hi
        exact .whole hv hlow hhigh
      | real q => cases hi
    | _ => simp [Shape.whole, hv] at h

end Ending

/-- Every access gives and reports what it may. -/
theorem Block.accessed_access (b : Block) (a : AttributeAccess) :
    b.Accessed a (b.access a).value (b.access a).diagnostics := by
  obtain ⟨name, required, ending⟩ := a
  match ending with
  | .string => exact accessed_answer rfl fun _ _ => Ending.reads_string_iff
  | .bool => exact accessed_answer rfl fun _ _ => Ending.reads_bool_iff
  | .whole => exact accessed_answer rfl fun _ _ => Ending.reads_whole_iff
  | .attribute => exact accessed_untyped .attribute rfl .attribute
  | .nothing => exact accessed_untyped (fun _ => .nothing) rfl .nothing

/-- Accesses to the attributes of a block, one after another, give what each of them gives to a reader of
its own, and what is reported is what each of them reports there, in order. A single access reports an error
that an attribute is missing if it was required and is absent or null, an error that it has another type if a
value of some type was to be read and it has none of that type, and nothing otherwise; it gives the value of
the attribute if that has the type asked for and the zero value otherwise. -/
theorem Reader.run_reports (b : Block) (as : List AttributeAccess) :
    ((new b).run as).1 = as.map (fun a => ((new b).access a).1) ∧
    ((new b).run as).2.diagnostics = as.flatMap (fun a => ((new b).access a).2.diagnostics) ∧
    ∀ a, b.Accessed a ((new b).access a).1 ((new b).access a).2.diagnostics := by
  simp only [run_eq, access_eq, new, report, List.nil_append, true_and]
  exact fun a => b.accessed_access a

end Preflight
