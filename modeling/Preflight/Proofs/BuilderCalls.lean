import Preflight.Proofs.VariableValue

/-!
# Calls of a builder

A caller adds documents and documents of assignments to a builder in any order, and goes on when one of
them cannot be read. A call changes the builder piece by piece, and what it has changed would stay if it
failed afterwards; but it fails before it changes anything (`Builder.Call.step_eq`). What a builder holds
after a list of calls is what the calls that succeed bring (`Builder.after_eq`), documents apart from
assignments, so that their interleaving has no influence.

* `Builder.build_after`: what the module depends on that is built after calls, and what its variables hold.
* A resource of the type `var` can take the place of a variable (`Builder.not_variable_held`).
-/

namespace Preflight
namespace Builder

/-- A call that adds a document or a document of assignments. -/
inductive Call where
  | document (file? : Option String) (text : String)
  | assignments (text : String)

/-- Steps that change a builder and may fail. What has been changed before a failure stays changed. -/
abbrev Building := ExceptT LoadError (StateM Builder)

namespace Call

variable {c : Call}

/-- Whether a call adds a document. -/
def isDocument : Call → Bool
  | .document .. => true
  | .assignments _ => false

/-- The text that a call reads. -/
def text : Call → String
  | .document _ text => text
  | .assignments text => text

/-- The statements of a text. -/
def read (text : String) : Building (List Statement) :=
  match Document.parse? text with
  | none => throw (.unparsable text)
  | some statements => return statements

/-- Performs a call: the blocks of a document are added one after another, and so are assignments. -/
def perform : Call → Building Unit
  | .document file? text => do
    let statements ← read text
    modify fun b => { b with sources := b.sources ++ [file?] }
    (declarationsOf file? statements).forM fun d =>
      modify fun b => { b with declarations := b.declarations ++ [d] }
  | .assignments text => do
    let statements ← read text
    (assignmentsOf none statements).forM fun a =>
      modify fun b => { b with assigned := assign b.assigned a }

/-- The builder that adding the text as a whole gives. -/
def result (b : Builder) : Call → Except LoadError Builder
  | .document file? text => b.insert file? text
  | .assignments text => b.insertAssignments text

/-- What a call gives and leaves. -/
def step (b : Builder) (c : Call) : Except LoadError Unit × Builder := c.perform.run.run b

/-! ### What a call brings -/

/-- The files that a call brings. -/
def sources : Call → List (Option String)
  | .document file? text => if (Document.parse? text).isSome then [file?] else []
  | .assignments _ => []

/-- The blocks that a call brings. -/
def declarations : Call → List Declaration
  | .document file? text => declarationsOf file? ((Document.parse? text).getD [])
  | .assignments _ => []

/-- The assignments that a call brings. -/
def assigns : Call → List Assignment
  | .document .. => []
  | .assignments text => assignmentsOf none ((Document.parse? text).getD [])

/-- Whether a call succeeds, which is up to its text. -/
def parses (c : Call) : Bool := (Document.parse? c.text).isSome

theorem run_forM_modify {α : Type} (f : α → Builder → Builder) (xs : List α) (b : Builder) :
    (xs.forM fun x => modify (f x) : Building Unit).run.run b =
      (.ok (), xs.foldl (fun b x => f x b) b) := by
  induction xs generalizing b with
  | nil => rfl
  | cons x xs ih => exact ih (f x b)

theorem foldl_declarations (ds : List Declaration) (b : Builder) :
    ds.foldl (fun b d => { b with declarations := b.declarations ++ [d] }) b =
      { b with declarations := b.declarations ++ ds } := by
  induction ds generalizing b with
  | nil => simp
  | cons d ds ih =>
    rw [List.foldl_cons, ih]
    simp

theorem foldl_assigned (as : List Assignment) (b : Builder) :
    as.foldl (fun b a => { b with assigned := assign b.assigned a }) b =
      { b with assigned := as.foldl assign b.assigned } := by
  induction as generalizing b with
  | nil => rfl
  | cons a as ih =>
    rw [List.foldl_cons, ih]
    rfl

/-- Piece by piece a call does what adding the text as a whole does, and it fails before it has changed
anything. -/
theorem step_eq (b : Builder) (c : Call) :
    step b c = match c.result b with
      | .ok b' => (.ok (), b')
      | .error err => (.error err, b) := by
  cases c with
  | document file? text =>
    cases h : Document.parse? text with
    | none => simp only [step, perform, read, result, insert, h]; rfl
    | some statements =>
      simp only [step, perform, read, result, insert, h]
      refine (run_forM_modify _ _ _).trans ?_
      rw [foldl_declarations]
  | assignments text =>
    cases h : Document.parse? text with
    | none => simp only [step, perform, read, result, insertAssignments, h]; rfl
    | some statements =>
      simp only [step, perform, read, result, insertAssignments, h]
      refine (run_forM_modify _ _ _).trans ?_
      rw [foldl_assigned]

/-- A builder with what a call brings. -/
theorem step_of_parses (b : Builder) (h : c.parses = true) :
    step b c = (.ok (), ⟨b.sources ++ c.sources, b.declarations ++ c.declarations,
      c.assigns.foldl assign b.assigned⟩) := by
  rw [step_eq]
  cases c <;> obtain ⟨statements, hs⟩ := Option.isSome_iff_exists.1 h <;>
    simp only [text] at hs <;>
    simp [result, insert, insertAssignments, sources, declarations, assigns, hs]

theorem step_of_not_parses (b : Builder) (h : c.parses = false) :
    step b c = (.error (.unparsable c.text), b) := by
  rw [step_eq]
  cases c <;> have hs := Option.isNone_iff_eq_none.1 (by simpa [parses] using h) <;>
    simp only [text] at hs <;> simp [result, insert, insertAssignments, hs, text]

end Call

/-! ### Calls one after another -/

/-- The builder after calls, whichever of them fail. -/
def after (b : Builder) (cs : List Call) : Builder := cs.foldl (fun b c => (c.step b).2) b

/-- Those of the calls that succeed. -/
def succeeding (b : Builder) : List Call → List Call
  | [] => []
  | c :: cs => match c.step b with
    | (.ok (), b') => c :: succeeding b' cs
    | (.error _, b') => succeeding b' cs

theorem succeeding_eq (b : Builder) (cs : List Call) : b.succeeding cs = cs.filter Call.parses := by
  induction cs generalizing b with
  | nil => rfl
  | cons c cs ih =>
    rw [succeeding]
    cases h : c.parses with
    | true =>
      rw [Call.step_of_parses b h, List.filter_cons_of_pos h]
      exact congrArg _ (ih _)
    | false =>
      rw [Call.step_of_not_parses b h, List.filter_cons_of_neg (by simp [h])]
      exact ih _

/-- The documents that are added by calls. -/
def documents (cs : List Call) : List Call := (empty.succeeding cs).filter Call.isDocument

/-- The assignments that are added by calls, in order. -/
def assignments (cs : List Call) : List Assignment := (empty.succeeding cs).flatMap Call.assigns

theorem assignments_eq (cs : List Call) :
    assignments cs = ((empty.succeeding cs).filter fun c => !c.isDocument).flatMap Call.assigns := by
  rw [assignments]
  induction empty.succeeding cs with
  | nil => rfl
  | cons c cs ih => cases c <;> simpa [Call.isDocument, Call.assigns] using ih

theorem after_cons (b : Builder) (c : Call) (cs : List Call) :
    b.after (c :: cs) = (c.step b).2.after cs := rfl

/-- After calls a builder holds what those bring that succeed: files and blocks from the documents, values
from the assignments. -/
theorem after_eq (cs : List Call) :
    empty.after cs = ⟨(documents cs).flatMap Call.sources, (documents cs).flatMap Call.declarations,
      (assignments cs).foldl assign []⟩ := by
  have hgeneral : ∀ b : Builder, b.after cs =
      ⟨b.sources ++ ((cs.filter Call.parses).filter Call.isDocument).flatMap Call.sources,
        b.declarations ++ ((cs.filter Call.parses).filter Call.isDocument).flatMap Call.declarations,
        ((cs.filter Call.parses).flatMap Call.assigns).foldl assign b.assigned⟩ := by
    induction cs with
    | nil => intro b; simp [after]
    | cons c cs ih =>
      intro b
      rw [after_cons, ih]
      cases h : c.parses with
      | false => simp [Call.step_of_not_parses b h, h]
      | true =>
        rw [Call.step_of_parses b h, List.filter_cons_of_pos h]
        cases c with
        | document file? text =>
          rw [List.filter_cons_of_pos rfl]
          simp [Call.assigns]
        | assignments text =>
          rw [List.filter_cons_of_neg (by simp [Call.isDocument])]
          simp [Call.sources, Call.declarations]
  rw [hgeneral, documents, assignments, succeeding_eq]
  rfl

/-- What is assigned to a variable after calls. -/
theorem get?_assigned_after (cs : List Call) (name : String) :
    (empty.after cs).assigned.get? name = lastValue? (assignments cs) name := by
  rw [after_eq, get?_foldl_assign, Entries.get?_nil, Option.or_none]

/-- The module that is built after calls depends on the documents and on the last values that the
assignments give to the variables that are declared. -/
theorem build_after_congr {cs cs' : List Call} (hdocuments : documents cs = documents cs')
    (hassignments : ∀ d ∈ (empty.after cs).declarations, d.heading.kind = "variable" →
      lastValue? (assignments cs) d.heading.nameLabel = lastValue? (assignments cs') d.heading.nameLabel) :
    (empty.after cs).build = (empty.after cs').build := by
  refine build_congr ?_ ?_ fun d hd hk => ?_
  · rw [after_eq, after_eq, hdocuments]
  · rw [after_eq, after_eq, hdocuments]
  · rw [get?_assigned_after, get?_assigned_after, hassignments d hd hk]

/-- Builders after calls. A call that fails leaves the builder as it was. The module depends on the
documents and on the assignments that are added, whatever their interleaving. A variable that one block
declares has the last value assigned to it, else that of its default, else an unknown one, converted to its
type where that works, unless a resource has its address. Assignments to names that are not declared have no
effect. -/
theorem build_after :
    (∀ (b : Builder) (c : Call) (err : LoadError), (c.step b).1 = .error err → (c.step b).2 = b) ∧
    (∀ cs cs' : List Call, documents cs = documents cs' →
      (empty.succeeding cs).filter (fun c => !c.isDocument) =
        (empty.succeeding cs').filter (fun c => !c.isDocument) →
      (empty.after cs).build = (empty.after cs').build) ∧
    (∀ (cs : List Call) (name : String) (d : Declaration),
      (empty.after cs).declarations.filter (fun d => d.Declares name) = [d] →
      (∀ r ∈ (empty.after cs).declarations, r.heading.kind = "resource" → r.heading.labels ≠ ["var", name]) →
      ∃ v w, d.Given (assignments cs) v ∧ d.Holds v w ∧
        (empty.after cs).build.scope.getPath? ["var", name] = some w) ∧
    ∀ cs cs' : List Call, documents cs = documents cs' →
      (∀ d ∈ (empty.after cs).declarations, d.heading.kind = "variable" →
        lastValue? (assignments cs) d.heading.nameLabel =
          lastValue? (assignments cs') d.heading.nameLabel) →
      (empty.after cs).build = (empty.after cs').build := by
  refine ⟨fun b c err h => ?_, fun cs cs' hdocuments hassignments => ?_, fun cs name d hd hr => ?_,
    fun cs cs' => build_after_congr⟩
  · rw [Call.step_eq] at h ⊢
    cases hc : c.result b with
    | ok b' => simp [hc] at h
    | error err => rfl
  · refine build_after_congr hdocuments fun d _ _ => ?_
    rw [assignments_eq, assignments_eq, hassignments]
  · have hassigned : (empty.after cs).assigned = (assignments cs).foldl assign [] := by rw [after_eq]
    refine ⟨_, _, d.given_givenValue (assignments cs), d.holds_variableValue _, ?_⟩
    rw [getPath?_build hd hr, hassigned]

/-- A number that is assigned as a text, among assignments and documents without effect. -/
def assignedText : List Call :=
  [.document none "variable \"n\" \x7b\n  type = number\n\x7d\n", .assignments "n = \"1\"\nm = 2\n",
    .document none "n", .assignments "n = m\n"]

/-- The variable holds the number. -/
theorem build_after_assignedText :
    ∃ d, (empty.after assignedText).declarations.filter (fun d => d.Declares "n") = [d] ∧
      (∀ r ∈ (empty.after assignedText).declarations, r.heading.kind = "resource" →
        r.heading.labels ≠ ["var", "n"]) ∧
      ∃ v w, d.Given (assignments assignedText) v ∧ d.Holds v w ∧
        (empty.after assignedText).build.scope.getPath? ["var", "n"] = some w ∧
        w.typeName = "number" := by
  have hone : ((empty.after assignedText).declarations.filter fun d => d.Declares "n").length = 1 := by
    decide +kernel
  obtain ⟨d, hd⟩ := List.length_eq_one_iff.1 hone
  have hr : ∀ r ∈ (empty.after assignedText).declarations, r.heading.kind = "resource" →
      r.heading.labels ≠ ["var", "n"] := by decide +kernel
  have hnumber : ∀ d ∈ (empty.after assignedText).declarations.filter (fun d => d.Declares "n"),
      (d.variableValue (empty.after assignedText).assigned).typeName = "number" := by decide +kernel
  obtain ⟨v, w, hv, hw, hpath⟩ := build_after.2.2.1 assignedText "n" d hd hr
  refine ⟨d, hd, hr, v, w, hv, hw, hpath, ?_⟩
  rw [getPath?_build hd hr] at hpath
  exact Option.some.inj hpath ▸ hnumber d (by simp [hd])

/-- A variable with a default, and a resource with its address. -/
def resourceOverVariable : List Call :=
  [.document none
    "variable \"x\" \x7b\n  default = \"a\"\n\x7d\n\nresource \"var\" \"x\" \x7b\n\x7d\n"]

/-- What a module holds in the place of its only entry. -/
theorem getPath?_of_entry {b : Builder} {e : Entry} (he : Module.entries b.declarations = [e])
    (hne : e.address ≠ []) : ∃ t, b.build.scope.getPath? e.address = some (e.value t) := by
  obtain ⟨t, ht⟩ := b.exists_pass
  refine ⟨t, ?_⟩
  rw [ht, Module.pass_eq_run, he, Entry.run_cons, Entry.run_nil, Entry.write]
  exact t.getPath?_set_self hne _

/-- The resource is the only entry, and its value is an object. -/
theorem string?_resourceOverVariable :
    ((empty.after resourceOverVariable).build.scope.getPath? ["var", "x"]).bind Value.string? = none := by
  have hone : (Module.entries (empty.after resourceOverVariable).declarations).length = 1 := by
    decide +kernel
  obtain ⟨e, he⟩ := List.length_eq_one_iff.1 hone
  have hall : ∀ e ∈ Module.entries (empty.after resourceOverVariable).declarations,
      e.address = ["var", "x"] ∧ e.declaration.isMultiple = false := by decide +kernel
  obtain ⟨haddress, hmultiple⟩ := hall e (by simp [he])
  obtain ⟨t, hpath⟩ := getPath?_of_entry he (by simp [haddress])
  rw [haddress] at hpath
  rw [hpath]
  cases e with
  | single d a => simp [Entry.address] at haddress
  | block d =>
    have hvalue : d.referenceValue t =
        .object (d.assignments.map fun a => (a.name, (d.context t).value a.expression)) :=
      if_neg (by simpa [Entry.declaration] using hmultiple)
    rw [Entry.value, hvalue]
    rfl

/-- A resource can take the place of a variable, so that the variable does not hold what it is given. -/
theorem not_variable_held :
    ¬ ∀ (cs : List Call) (name : String) (d : Declaration),
      (empty.after cs).declarations.filter (fun d => d.Declares name) = [d] →
      ∃ v w, d.Given (assignments cs) v ∧ d.Holds v w ∧
        (empty.after cs).build.scope.getPath? ["var", name] = some w := by
  intro h
  have hone : ((empty.after resourceOverVariable).declarations.filter
      fun d => d.Declares "x").length = 1 := by decide +kernel
  obtain ⟨d, hd⟩ := List.length_eq_one_iff.1 hone
  have hdeclared : ∀ d ∈ (empty.after resourceOverVariable).declarations.filter (fun d => d.Declares "x"),
      d.heading.nameLabel = "x" ∧ (d.assignment? "type").isNone = true ∧
        ((d.assignment? "default").bind fun a =>
          ((d.context Scope.empty).value a.expression).string?) = some "a" := by decide +kernel
  obtain ⟨hname, htype, hdefault⟩ := hdeclared d (by simp [hd])
  have hassigned : (lastValue? (assignments resourceOverVariable) "x").isNone = true := by decide +kernel
  rw [Option.isNone_iff_eq_none] at htype hassigned
  obtain ⟨v, w, hv, hw, hheld⟩ := h resourceOverVariable "x" d hd
  have hvw : w = v := by
    cases hw with
    | untyped => rfl
    | undecodable ht | converted ht | unconverted ht => simp [htype] at ht
  have hva : v.string? = some "a" := by
    cases hv with
    | assigned hl => simp only [hname, hassigned, reduceCtorEq] at hl
    | default _ ha =>
      rw [ha, Option.bind_some] at hdefault
      exact hdefault
    | unknown _ ha => simp only [ha, Option.bind_none, reduceCtorEq] at hdefault
  have hnone := string?_resourceOverVariable
  rw [hheld, hvw, Option.bind_some, hva] at hnone
  cases hnone

end Builder
end Preflight
