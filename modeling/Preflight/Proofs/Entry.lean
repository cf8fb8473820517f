import Mathlib.Data.List.Chain
import Preflight.Module.Basic
import Preflight.Proofs.Paths

/-!
# Entries of the scope of a module

A pass over the declarations of a module writes one value at each of a list of addresses. An `Entry`
is such an address with what its value is made of: a single local, or a data source or resource with
all its attributes.

* `Module.pass_eq`: a pass writes the entries one after another.
* `Entry.DependsOn` relates an entry to those that it refers to; `Entry.RankedBy` bounds the length of
  the chains of this relation that start at an entry.
* `Entry.value_congr`: the value of an entry is made of what its references find.
-/

namespace Preflight

/-- A local, or a data source or resource. -/
inductive Entry where
  | single (d : Declaration) (a : Assignment)
  | block (d : Declaration)

namespace Entry

/-- The path of an entry in the scope. -/
def address : Entry → List String
  | .single _ a => ["local", a.name]
  | .block d => if d.heading.kind = "data" then "data" :: d.heading.labels else d.heading.labels

/-- The assignments that make up the value of an entry. -/
def assignments : Entry → List Assignment
  | .single _ a => [a]
  | .block d => d.assignments

/-- The declaration that an entry is part of. -/
def declaration : Entry → Declaration
  | .single d _ => d
  | .block d => d

/-- The value of an entry in a scope. -/
def value (s : Scope) : Entry → Value
  | .single d a => (d.context s).value a.expression
  | .block d => d.referenceValue s

/-- Evaluates an entry and writes its value. -/
def write (s : Scope) (e : Entry) : Scope := s.set e.address (e.value s)

/-- The paths of the references in an entry. -/
def paths (e : Entry) : List (List String) :=
  e.assignments.flatMap fun a => a.expression.references.map Reference.path

/-- A reference of the first entry leads to the second one or into it. -/
def DependsOn (e d : Entry) : Prop := ∃ p ∈ e.paths, d.address <+: p

/-- No chain of dependent entries that starts at an entry is longer than a bound. -/
def RankedBy (es : List Entry) : Nat → Entry → Prop
  | 0, _ => False
  | r + 1, e => ∀ d ∈ es, e.DependsOn d → RankedBy es r d

end Entry

/-- The entries of a declaration. -/
def Declaration.entries (d : Declaration) : List Entry :=
  match d.heading.kind, d.heading.labels with
  | "locals", _ => d.assignments.map (Entry.single d)
  | "data", [_, _] => [.block d]
  | "resource", [_, _] => [.block d]
  | _, _ => []

/-- The entries of the declarations of a module. -/
def Module.entries (ds : List Declaration) : List Entry := ds.flatMap Declaration.entries

/-- What a declaration has for entries: one for each local, itself as a data source or as a resource,
or none. -/
theorem Declaration.entries_cases (d : Declaration) :
    d.heading.kind = "locals" ∧ d.entries = d.assignments.map (Entry.single d) ∨
      (d.heading.kind = "data" ∨ d.heading.kind = "resource") ∧
        (∃ type name, d.heading.labels = [type, name]) ∧ d.entries = [.block d] ∨
      d.entries = [] ∧ ∀ s, Module.write s d = s := by
  rw [entries]
  split
  · exact Or.inl ⟨‹_›, rfl⟩
  · exact Or.inr (Or.inl ⟨Or.inl ‹_›, ⟨_, _, ‹_›⟩, rfl⟩)
  · exact Or.inr (Or.inl ⟨Or.inr ‹_›, ⟨_, _, ‹_›⟩, rfl⟩)
  · refine Or.inr (Or.inr ⟨rfl, fun s => ?_⟩)
    rw [Module.write]
    split <;> simp_all

theorem Declaration.mem_entries {d : Declaration} {e : Entry} (he : e ∈ d.entries) :
    (∃ a, e = .single d a) ∨
      e = .block d ∧ (d.heading.kind = "data" ∨ d.heading.kind = "resource") ∧
        ∃ type name, d.heading.labels = [type, name] := by
  rcases d.entries_cases with ⟨-, hes⟩ | ⟨hk, hl, hes⟩ | ⟨hes, -⟩ <;> rw [hes] at he
  · obtain ⟨a, -, rfl⟩ := List.mem_map.1 he
    exact Or.inl ⟨a, rfl⟩
  · exact Or.inr ⟨List.mem_singleton.1 he, hk, hl⟩
  · cases he

theorem Module.write_eq (s : Scope) (d : Declaration) :
    Module.write s d = d.entries.foldl Entry.write s := by
  rcases d.entries_cases with ⟨hk, he⟩ | ⟨hk, ⟨type, name, hl⟩, he⟩ | ⟨he, hw⟩
  · rw [he, List.foldl_map, write]
    simp only [hk]
    rfl
  · rw [he, write]
    rcases hk with hk | hk <;> simp only [hk, hl] <;>
      simp [Entry.write, Entry.address, Entry.value, hk, hl]
  · rw [he, hw]
    rfl

/-- A pass writes the entries one after another. -/
theorem Module.pass_eq (ds : List Declaration) (s : Scope) :
    Module.pass ds s = (Module.entries ds).foldl Entry.write s := by
  induction ds generalizing s with
  | nil => rfl
  | cons d ds ih =>
    rw [pass, entries, List.flatMap_cons, List.foldl_append, List.foldl_cons, ← write_eq]
    exact ih _

namespace Entry

variable {es : List Entry}

theorem RankedBy.succ {r : Nat} {e : Entry} (h : e.RankedBy es r) : e.RankedBy es (r + 1) := by
  induction r generalizing e with
  | zero => cases h
  | succ r ih => exact fun d hd hed => ih (h d hd hed)

/-- A bound for the chains that start at an entry bounds its rank. -/
theorem rankedBy_of_chains {r : Nat} {e : Entry} (he : e ∈ es)
    (h : ∀ chain : List Entry, (∀ d ∈ e :: chain, d ∈ es) → (e :: chain).IsChain DependsOn →
      (e :: chain).length ≤ r) : e.RankedBy es r := by
  induction r generalizing e with
  | zero =>
    have h1 := h [] (by simpa using he) (.singleton e)
    simp at h1
  | succ r ih =>
    intro d hd hed
    refine ih hd fun chain hm hc => ?_
    have hl := h (d :: chain) (by simpa [he] using hm) (.cons_cons hed hc)
    exact Nat.le_of_succ_le_succ hl

/-- A number that drops along dependencies bounds the chains. -/
theorem length_le_of_drop (rank : Entry → Nat)
    (h : ∀ e ∈ es, ∀ d ∈ es, e.DependsOn d → rank d < rank e) {e : Entry} {chain : List Entry}
    (hm : ∀ d ∈ e :: chain, d ∈ es) (hc : (e :: chain).IsChain DependsOn) :
    (e :: chain).length ≤ rank e + 1 := by
  induction chain generalizing e with
  | nil => simp
  | cons d chain ih =>
    obtain ⟨hed, hc⟩ := List.isChain_cons_cons.1 hc
    have hlt := h e (hm e (by simp)) d (hm d (by simp)) hed
    have hle := ih (fun c hcm => hm c (List.mem_cons_of_mem _ hcm)) hc
    simp only [List.length_cons] at hle ⊢
    omega

/-- Assignments that have the same values in two scopes give an entry the same value. -/
theorem value_congr {e : Entry} {s s' : Scope}
    (h : ∀ a ∈ e.assignments, (e.declaration.context s).value a.expression =
      (e.declaration.context s').value a.expression) : e.value s = e.value s' := by
  cases e with
  | single d a => exact h a (List.mem_singleton_self a)
  | block d =>
    simp only [value, Declaration.referenceValue]
    rw [List.map_congr_left fun a ha => by rw [show (d.context s).value a.expression = _ from h a ha]]
    rfl

end Entry

/-! ### Entries that do not overlap -/

/-- Entries that do not overlap: their addresses lie apart, a body assigns a name once, and no reference
reaches an object that holds several of them. -/
structure Entry.Apart (es : List Entry) : Prop where
  nodup : es.Nodup
  apart : ∀ e ∈ es, ∀ d ∈ es, e = d ∨ Diverge e.address d.address
  rooted : ∀ e ∈ es, Diverge e.address ["var"]
  names : ∀ e ∈ es, (e.assignments.map Assignment.name).Nodup
  paths : ∀ e ∈ es, ∀ p ∈ e.paths, ∀ d ∈ es, p <+: d.address → p = d.address

/-- Entries that do not overlap, and of which none refers to the variables as a whole. -/
structure Entry.Orderly (es : List Entry) : Prop extends Entry.Apart es where
  noWhole : ∀ e ∈ es, ∀ p ∈ e.paths, p ≠ ["var"]

end Preflight
