import Preflight.Proofs.Separate
import Preflight.Proofs.TagMerging

/-!
# The values of variables in a module

What a variable holds when a module is built is decided before the passes. It is given by the last
assignment to the variable that has a value, by its default or by nothing, and its type then converts it
where that works (`Declaration.Given`, `Declaration.Holds`). The passes write elsewhere, unless a resource
has the address of the variable (`Builder.getPath?_build`).
-/

namespace Preflight

/-! ### Assignments -/

/-- The value of an assignment, if its expression has one on its own. -/
def Assignment.value? (a : Assignment) : Option Value :=
  ((Context.mk Scope.empty []).evaluate a.expression).toOption

/-- The last value that assignments give to a name. -/
def lastValue? (as : List Assignment) (name : String) : Option Value :=
  ((as.filter fun a => a.name = name).filterMap Assignment.value?).getLast?

theorem lastValue?_concat (as : List Assignment) (a : Assignment) (name : String) :
    lastValue? (as ++ [a]) name =
      if a.name = name then a.value?.or (lastValue? as name) else lastValue? as name := by
  unfold lastValue?
  by_cases h : a.name = name
  · rw [if_pos h, List.filter_append, List.filterMap_append, List.filter_singleton]
    cases hv : a.value? <;> simp [h, hv]
  · simp [h]

/-- The last assignment to a name that has a value counts. -/
theorem Builder.get?_foldl_assign (es : Entries Value) (as : List Assignment) (name : String) :
    (as.foldl assign es).get? name = (lastValue? as name).or (es.get? name) := by
  induction as using List.reverseRecOn with
  | nil => rfl
  | append_singleton as a ih =>
    rw [List.foldl_append, List.foldl_cons, List.foldl_nil, lastValue?_concat, assign,
      Assignment.value?]
    cases hv : (Context.mk Scope.empty []).evaluate a.expression with
    | error err => simpa [Except.toOption] using ih
    | ok v =>
      by_cases h : a.name = name
      · simp [h, Except.toOption]
      · simpa [h, Except.toOption, Entries.get?_insert_of_ne _ _ h] using ih

/-! ### Declarations -/

namespace Declaration

/-- A block that declares a variable of a name. -/
def Declares (d : Declaration) (name : String) : Prop :=
  d.heading.kind = "variable" ∧ d.heading.nameLabel = name

instance (d : Declaration) (name : String) : Decidable (d.Declares name) :=
  inferInstanceAs (Decidable (_ ∧ _))

/-- The value of a variable before its type counts: the last one assigned, else the default, else
unknown. -/
inductive Given (as : List Assignment) (d : Declaration) : Value → Prop
  | assigned {v : Value} (h : lastValue? as d.heading.nameLabel = some v) : Given as d v
  | default {a : Assignment} (h : lastValue? as d.heading.nameLabel = none)
      (ha : d.assignment? "default" = some a) : Given as d ((d.context Scope.empty).value a.expression)
  | unknown (h : lastValue? as d.heading.nameLabel = none) (ha : d.assignment? "default" = none) :
      Given as d .unknown

/-- What a variable holds that is given a value: the value as it is converted to the type, if there is
one that can be read and the conversion succeeds, else the value itself. -/
inductive Holds (d : Declaration) (v : Value) : Value → Prop
  | untyped (h : d.assignment? "type" = none) : Holds d v v
  | undecodable {a : Assignment} {err : TypeError} (h : d.assignment? "type" = some a)
      (hd : TypeSpec.decode a.expression = .error err) : Holds d v v
  | converted {a : Assignment} {spec : TypeSpec} {w : Value} (h : d.assignment? "type" = some a)
      (hd : TypeSpec.decode a.expression = .ok spec) (hc : spec.convert (spec.applyDefaults v) = .ok w) :
      Holds d v w
  | unconverted {a : Assignment} {spec : TypeSpec} {err : ConversionError}
      (h : d.assignment? "type" = some a) (hd : TypeSpec.decode a.expression = .ok spec)
      (hc : spec.convert (spec.applyDefaults v) = .error err) : Holds d v v

theorem given_givenValue (as : List Assignment) (d : Declaration) :
    d.Given as (d.givenValue (as.foldl Builder.assign [])) := by
  rw [givenValue, Builder.get?_foldl_assign, Entries.get?_nil, Option.or_none]
  cases h : lastValue? as d.heading.nameLabel with
  | some v => exact .assigned h
  | none => cases ha : d.assignment? "default" with
    | some a => exact .default h ha
    | none => exact .unknown h ha

theorem holds_variableValue (assigned : Entries Value) (d : Declaration) :
    d.Holds (d.givenValue assigned) (d.variableValue assigned) := by
  rw [variableValue]
  cases h : d.assignment? "type" with
  | none => exact .untyped h
  | some a =>
    simp only [typed]
    cases hd : TypeSpec.decode a.expression with
    | error err => exact .undecodable h hd
    | ok spec =>
      cases hc : spec.convert (spec.applyDefaults (d.givenValue assigned)) with
      | ok w => simpa only [hc] using Holds.converted h hd hc
      | error err => simpa only [hc] using Holds.unconverted h hd hc

/-- The value of a variable depends on what is assigned to it only. -/
theorem variableValue_congr {d : Declaration} {assigned assigned' : Entries Value}
    (h : assigned.get? d.heading.nameLabel = assigned'.get? d.heading.nameLabel) :
    d.variableValue assigned = d.variableValue assigned' := by
  simp only [variableValue, givenValue, h]

end Declaration

/-! ### Modules -/

namespace Module

/-- Of several blocks that declare a variable the last one counts. -/
theorem get?_variableValues (assigned : Entries Value) (ds : List Declaration) (name : String) :
    (variableValues assigned ds).get? name =
      ((ds.filter fun d => d.Declares name).getLast?).map (Declaration.variableValue assigned) := by
  have hfilter : ds.filter (fun d => d.Declares name) =
      (ds.filter fun d => d.heading.kind = "variable").filter fun d => d.heading.nameLabel = name := by
    rw [List.filter_filter]
    refine List.filter_congr fun d _ => ?_
    rw [← Bool.decide_and]
    exact decide_eq_decide.2 and_comm
  rw [variableValues, Entries.get?_ofList_eq_last, ← List.map_reverse, Entries.get?_map_pair, hfilter,
    ← List.head?_filter, List.filter_reverse, List.getLast?_eq_head?_reverse]

/-- The variables of a module depend on what is assigned to them only. -/
theorem initialScope_congr {assigned assigned' : Entries Value} {ds : List Declaration}
    (h : ∀ d ∈ ds, d.heading.kind = "variable" →
      assigned.get? d.heading.nameLabel = assigned'.get? d.heading.nameLabel) :
    initialScope assigned ds = initialScope assigned' ds := by
  have hvalues : variableValues assigned ds = variableValues assigned' ds := by
    rw [variableValues, variableValues]
    congr 1
    refine List.map_congr_left fun d hd => ?_
    obtain ⟨hd, hk⟩ := List.mem_filter.1 hd
    rw [Declaration.variableValue_congr (h d hd (by simpa using hk))]
  rw [initialScope, initialScope, hvalues]

/-- The passes come to scopes that are reached by writing entries. -/
theorem reached_settle (ds : List Declaration) {base s : Scope} (hs : Entry.Reached (entries ds) base s)
    (n : Nat) : Entry.Reached (entries ds) base (settle ds n s).1 := by
  induction n generalizing s with
  | zero => exact hs
  | succ n ih =>
    have hpass : Entry.Reached (entries ds) base (pass ds s) := by
      rw [pass_eq_run]
      exact hs.run fun _ h => h
    rw [settle]
    by_cases hsame : (pass ds s).same s = true
    · simpa only [hsame, if_true] using hpass
    · simp only [hsame]
      exact ih hpass

end Module

namespace Builder

/-- Modules of the same documents are the same if the same is assigned to the variables that they
declare. -/
theorem build_congr {b b' : Builder} (hsources : b.sources = b'.sources)
    (hdeclarations : b.declarations = b'.declarations)
    (hassigned : ∀ d ∈ b.declarations, d.heading.kind = "variable" →
      b.assigned.get? d.heading.nameLabel = b'.assigned.get? d.heading.nameLabel) :
    b.build = b'.build := by
  rw [build, build, Module.initialScope_congr hassigned, hsources, hdeclarations]

/-- An entry lies apart from a variable unless it is a resource with its address. -/
theorem diverge_variable {ds : List Declaration} {name : String}
    (h : ∀ d ∈ ds, d.heading.kind = "resource" → d.heading.labels ≠ ["var", name]) {e : Entry}
    (he : e ∈ Module.entries ds) : Diverge e.address ["var", name] := by
  obtain ⟨d, hd, he⟩ := List.mem_flatMap.1 he
  rcases Declaration.mem_entries he with ⟨a, rfl⟩ | ⟨rfl, hk, type, label, hl⟩
  · exact (Module.Address.single a.name).diverge_variable name
  rw [Entry.address]
  by_cases hdata : d.heading.kind = "data"
  · rw [if_pos hdata, hl]
    exact (Module.Address.data type label).diverge_variable name
  · rw [if_neg hdata]
    exact .of_length (by rw [hl]; rfl) (h d hd (hk.resolve_left hdata))

/-- A built module holds for a variable what the one block holds that declares it. -/
theorem getPath?_build {b : Builder} {name : String} {d : Declaration}
    (hd : b.declarations.filter (fun d => d.Declares name) = [d])
    (h : ∀ d ∈ b.declarations, d.heading.kind = "resource" → d.heading.labels ≠ ["var", name]) :
    b.build.scope.getPath? ["var", name] = some (d.variableValue b.assigned) := by
  have hreached : Entry.Reached (Module.entries b.declarations)
      (Module.initialScope b.assigned b.declarations) b.build.scope :=
    Module.reached_settle b.declarations .base Module.maxPasses
  have hvalue := Module.get?_variableValues b.assigned b.declarations name
  rw [hd] at hvalue
  refine (hreached.getPath? fun e he => diverge_variable h he).trans ?_
  rw [Scope.getPath?, Module.get?_initialScope]
  simp [Value.getPath?_cons, hvalue]

end Builder
end Preflight
