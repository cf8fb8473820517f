import Mathlib.Data.List.Nodup
import Preflight.Directory.Loading

/-!
# Bodies assign names once

No body in a document assigns a name twice (`Document.distinct_of_parse?`). Inserting documents into
a builder keeps that each declaration assigns its names once (`Builder.assignsOnce_insert`), so this
holds of all that is loaded from a directory (`Directory.exists_builder_of_load`).
-/

namespace Preflight

/-- No body inside a statement assigns a name twice. -/
inductive Statement.Distinct : Statement → Prop
  | assignment (name : String) (e : Expr) (line : Nat) : Distinct (.assignment name e line)
  | block {kind : String} {labels : List String} {body : List Statement} {line : Nat}
    (hnames : (body.filterMap assigned?).Nodup) (hbody : ∀ s ∈ body, Distinct s) :
    Distinct (.block kind labels body line)

/-- Neither these statements nor a body inside them assign a name twice. -/
structure DistinctStatements (ss : List Statement) : Prop where
  names : (ss.filterMap Statement.assigned?).Nodup
  each : ∀ s ∈ ss, s.Distinct

theorem DistinctStatements.nil : DistinctStatements [] := ⟨List.nodup_nil, by simp⟩

/-! ### Parsers -/

namespace Parser

variable {α β : Type} {P : α → Prop} {Q : β → Prop}

/-- Whatever a parser reads, its result has a property. -/
def Yields (p : Parser α) (P : α → Prop) : Prop :=
  ∀ c a c', p.run c = some (a, c') → P a

theorem Yields.pure {a : α} (h : P a) : Yields (pure a) P := by
  intro c b c' hr
  cases hr
  exact h

theorem Yields.failure : Yields failure P := by
  intro c a c' hr
  cases hr

theorem Yields.bind {p : Parser α} {f : α → Parser β} (hp : Yields p P)
    (hf : ∀ a, P a → Yields (f a) Q) : Yields (p >>= f) Q := by
  intro c b c' hr
  rw [StateT.run_bind] at hr
  obtain ⟨⟨a, c₁⟩, ha, hb⟩ := Option.bind_eq_some_iff.1 hr
  exact hf a (hp c a c₁ ha) c₁ b c' hb

/-- The property has nothing to do with the first parser. -/
theorem Yields.after {p : Parser α} {f : α → Parser β} (hf : ∀ a, Yields (f a) Q) :
    Yields (p >>= f) Q :=
  Yields.bind (P := fun _ => True) (fun _ _ _ _ => trivial) fun a _ => hf a

theorem Yields.of_within? {p : Parser α} (hp : Yields p P) {cs : List Char} {a : α}
    (h : within? cs p = some a) : P a := by
  rw [within?] at h
  cases hr : p.run (Cursor.start cs) with
  | none => simp [hr] at h
  | some r =>
    obtain ⟨b, c⟩ := r
    by_cases hc : c.rest = []
    · simp only [hr, hc, if_true, Option.some.injEq] at h
      exact h ▸ hp _ _ _ hr
    · simp [hr, hc] at h

/-- Statements in front of which some names have been assigned. -/
structure DistinctAfter (names : List String) (ss : List Statement) : Prop where
  distinct : DistinctStatements ss
  fresh : ∀ name ∈ names, name ∉ ss.filterMap Statement.assigned?

variable (breaks : Nat)

mutual
theorem yields_statement : (fuel : Nat) → Yields (statement breaks fuel) Statement.Distinct
  | 0 => by
    rw [statement]
    exact .failure
  | fuel + 1 => by
    rw [statement]
    refine .after fun line => .after fun keyword => .after fun _ => .after fun cs => ?_
    split
    · exact .after fun e => .pure (.assignment keyword e line)
    · refine .after fun labels => .after fun _ => ?_
      exact (yields_body fuel).bind fun body hb => .pure (.block hb.names hb.each)

theorem yields_body : (fuel : Nat) → Yields (body breaks fuel) DistinctStatements
  | 0 => by
    rw [body]
    exact .failure
  | fuel + 1 => by
    rw [body]
    refine .after fun _ => .after fun cs => ?_
    split
    · exact .after fun _ => .pure .nil
    · split
      · refine .after fun line => .after fun key => .after fun _ => .after fun e =>
          .after fun _ => .after fun _ => .pure ⟨by simp [Statement.assigned?], ?_⟩
        simpa using Statement.Distinct.assignment key e line
      · exact .after fun _ => (yields_statements fuel []).bind fun ss hss =>
          .after fun _ => .pure hss.distinct
    · exact .failure

theorem yields_statements : (fuel : Nat) → (names : List String) →
    Yields (statements breaks fuel names) (DistinctAfter names)
  | 0, _ => by
    rw [statements]
    exact .failure
  | fuel + 1, names => by
    have hnil : DistinctAfter names [] := ⟨.nil, by simp⟩
    rw [statements]
    refine .after fun _ => .after fun cs => ?_
    split
    · exact .pure hnil
    · exact .pure hnil
    · refine (yields_statement fuel).bind fun s hs => .after fun _ => ?_
      split
      · rename_i name hname
        split
        · exact .failure
        · rename_i hnew
          refine (yields_statements fuel (name :: names)).bind fun ss hss => .pure ?_
          -- The name has been passed on, so the rest does not assign it.
          have hname' := hss.fresh name List.mem_cons_self
          refine ⟨⟨?_, List.forall_mem_cons.2 ⟨hs, hss.distinct.each⟩⟩, fun n hn => ?_⟩
          · rw [List.filterMap_cons_some hname]
            exact List.nodup_cons.2 ⟨hname', hss.distinct.names⟩
          · rw [List.filterMap_cons_some hname, List.mem_cons]
            rintro (rfl | hm)
            · exact hnew (by simpa using hn)
            · exact hss.fresh n (List.mem_cons_of_mem _ hn) hm
      · rename_i hname
        refine (yields_statements fuel names).bind fun ss hss => .pure ?_
        refine ⟨⟨?_, List.forall_mem_cons.2 ⟨hs, hss.distinct.each⟩⟩, ?_⟩
        · rw [List.filterMap_cons_none hname]
          exact hss.distinct.names
        · rw [List.filterMap_cons_none hname]
          exact hss.fresh
end

end Parser

/-- No body of a document assigns a name twice. -/
theorem Document.distinct_of_parse? {text : String} {ss : List Statement}
    (h : Document.parse? text = some ss) : DistinctStatements ss :=
  ((Parser.yields_statements _ _ _).of_within? h).distinct

/-! ### Declarations -/

/-- No name is assigned twice. -/
def Declaration.AssignsOnce (d : Declaration) : Prop := (d.assignments.map Assignment.name).Nodup

theorem map_name_assignmentsOf (file? : Option String) (ss : List Statement) :
    (assignmentsOf file? ss).map Assignment.name = ss.filterMap Statement.assigned? := by
  rw [assignmentsOf, List.map_filterMap]
  congr 1
  funext s
  cases s <;> rfl

theorem assignsOnce_of_mem_declarationsOf {file? : Option String} {ss : List Statement}
    (h : ∀ s ∈ ss, s.Distinct) {d : Declaration} (hd : d ∈ declarationsOf file? ss) :
    d.AssignsOnce := by
  induction ss with
  | nil => simp [declarationsOf] at hd
  | cons s ss ih =>
    rw [declarationsOf, List.mem_append] at hd
    rcases hd with hd | hd
    · cases h s List.mem_cons_self with
      | assignment => simp [Statement.declaration?] at hd
      | block hnames hbody =>
        simp only [Statement.declaration?, Option.toList_some, List.mem_singleton] at hd
        rw [hd, Declaration.AssignsOnce, map_name_assignmentsOf]
        exact hnames
    · exact ih (fun t ht => h t (List.mem_cons_of_mem _ ht)) hd

namespace Builder

variable {b b' : Builder}

/-- Inserting a document keeps that each declaration assigns its names once. -/
theorem assignsOnce_insert (h : ∀ d ∈ b.declarations, d.AssignsOnce) {file? : Option String}
    {text : String} (hb : b.insert file? text = .ok b') : ∀ d ∈ b'.declarations, d.AssignsOnce := by
  rw [insert] at hb
  cases hp : Document.parse? text with
  | none => simp [hp] at hb
  | some ss =>
    simp only [hp, Except.ok.injEq] at hb
    subst hb
    intro d hd
    rcases List.mem_append.1 hd with hd | hd
    · exact h d hd
    · exact assignsOnce_of_mem_declarationsOf (Document.distinct_of_parse? hp).each hd

theorem declarations_insertAssignments {text : String} (hb : b.insertAssignments text = .ok b') :
    b'.declarations = b.declarations := by
  rw [insertAssignments] at hb
  cases hp : Document.parse? text with
  | none => simp [hp] at hb
  | some ss =>
    simp only [hp, Except.ok.injEq] at hb
    rw [← hb]

end Builder

namespace Directory

variable {b b' : Builder}

theorem assignsOnce_insertFile (d : Directory) (h : ∀ c ∈ b.declarations, c.AssignsOnce)
    {e : DirectoryEntry} (hb : d.insertFile b e = .ok b') : ∀ c ∈ b'.declarations, c.AssignsOnce := by
  rw [insertFile] at hb
  cases ht : e.content with
  | error cause => simp [ht] at hb
  | ok text =>
    simp only [ht] at hb
    by_cases ha : e.isAssignments = true
    · rw [if_pos ha] at hb
      rw [Builder.declarations_insertAssignments hb]
      exact h
    · rw [if_neg ha] at hb
      exact Builder.assignsOnce_insert h hb

theorem assignsOnce_foldlM (d : Directory) {es : List DirectoryEntry}
    (h : ∀ c ∈ b.declarations, c.AssignsOnce) (hb : es.foldlM d.insertFile b = .ok b') :
    ∀ c ∈ b'.declarations, c.AssignsOnce := by
  induction es generalizing b with
  | nil =>
    cases hb
    exact h
  | cons e es ih =>
    rw [List.foldlM_cons] at hb
    cases he : d.insertFile b e with
    | error err => rw [he] at hb; cases hb
    | ok b₁ =>
      rw [he] at hb
      exact ih (d.assignsOnce_insertFile h he) hb

/-- A module loaded from a directory is built from declarations that assign their names once. -/
theorem exists_builder_of_load {d : Directory} {m : Module} (h : d.load = .ok m) :
    ∃ b : Builder, b.build = m ∧ ∀ c ∈ b.declarations, c.AssignsOnce := by
  rw [load] at h
  by_cases hc : d.entries.any DirectoryEntry.isConfiguration = true
  · rw [if_pos hc] at h
    cases hf : d.files.foldlM d.insertFile Builder.empty with
    | error err => rw [hf] at h; cases h
    | ok b =>
      rw [hf] at h
      cases h
      exact ⟨b, rfl, d.assignsOnce_foldlM (by simp [Builder.empty]) hf⟩
  · rw [if_neg hc] at h
    cases h

end Directory
end Preflight
