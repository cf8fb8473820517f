import Preflight.Proofs.TagStates

/-!
# Attributes that are computed later

Objects below a computed path get attributes after the module has been evaluated. A scope gains
attributes if such objects do (`Scope.Gains`).

* A reference to an attribute that such an object lacks is unknown. One that leads to what is firm
  (`Scope.Firm`), where no object gets attributes, finds the same before and after.
* `Context.evaluate_of_gains`: an expression whose references all lead to what is firm keeps its
  value, unless it is unknown; and without a value it stays without one.
* An index, an operator or a `for` sees the object itself, with the attributes that it has at the
  time. The results of such expressions change when attributes are added, although they are not
  unknown (`Context.not_evaluate_of_gains`).
-/

namespace Preflight

/-- The second scope is the first one with attributes added to objects whose attributes are computed
later. -/
inductive Scope.Gains : Scope → Scope → Prop
  | refl (s : Scope) : Gains s s
  | add {s t : Scope} {p : List String} {es : Entries Value} {name : String} (v : Value)
      (ho : s.getPath? p = some (.object es)) (hn : es.get? name = none)
      (hc : s.isComputed p = true) (h : Gains (s.set (p ++ [name]) v) t) : Gains s t

/-- No object at a path or behind it gets attributes later. -/
def Scope.Firm (s : Scope) (path : List String) : Prop :=
  ∀ q es, path <+: q → s.getPath? q = some (.object es) → s.isComputed q = false

namespace Scope

variable {s t : Scope} {p path : List String} {es : Entries Value} {name : String}

theorem isComputed_set (s : Scope) (p q : List String) (v : Value) :
    (s.set p v).isComputed q = s.isComputed q := by
  rw [isComputed, isComputed, computed_set]

/-- Writing keeps the root variables. -/
theorem isSome_get?_set (s : Scope) (p : List String) (v : Value) {root : String}
    (h : (s.get? root).isSome = true) : ((s.set p v).get? root).isSome = true := by
  cases p with
  | nil => exact h
  | cons k p =>
    rw [set, declare, get?]
    by_cases hk : k = root
    · rw [hk, Entries.get?_insert_self]
      rfl
    · rw [Entries.get?_insert_of_ne _ _ hk]
      exact h

theorem Gains.isComputed (h : s.Gains t) (q : List String) : t.isComputed q = s.isComputed q := by
  induction h with
  | refl s => rfl
  | add v _ _ _ _ ih => rw [ih, isComputed_set]

theorem Gains.isSome_get? (h : s.Gains t) {root : String} (hs : (s.get? root).isSome = true) :
    (t.get? root).isSome = true := by
  induction h with
  | refl s => exact hs
  | add v _ _ _ _ ih => exact ih (isSome_get?_set _ _ v hs)

/-- A path without an object is firm. -/
theorem Firm.of_no_object (hp : path ≠ []) (h : ∀ es, s.getPath? path ≠ some (.object es)) :
    s.Firm path := by
  intro q es hq hobj
  exfalso
  by_cases heq : path = q
  · exact h es (heq ▸ hobj)
  · obtain ⟨fs, hfs⟩ := exists_object_above hp hq heq hobj
    exact h fs hfs

/-- What is firm lies apart from an added attribute that is not on the way to it. -/
theorem Firm.diverge (hf : s.Firm path) (ho : s.getPath? p = some (.object es))
    (hc : s.isComputed p = true) (hn : ¬ p ++ [name] <+: path) : Diverge (p ++ [name]) path := by
  refine ⟨hn, fun hp => ?_⟩
  rcases List.prefix_concat_iff.1 hp with rfl | hp
  · exact hn (List.prefix_refl _)
  · rw [hf p es hp ho] at hc
    cases hc

/-- What is firm stays so when something is written apart from it. -/
theorem Firm.set (hf : s.Firm path) (h : Diverge p path) (v : Value) : (s.set p v).Firm path := by
  intro q es hq hobj
  have hdiv : Diverge p q := (h.symm.extend hq).symm
  rw [s.getPath?_set_of_diverge hdiv] at hobj
  rw [isComputed_set]
  exact hf q es hq hobj

end Scope

namespace Context

variable {s t : Scope} {locals : Entries Value} {r : Reference}

/-- A reference is open if an attribute on its way is missing and computed later. -/
theorem isOpen_lookup_of_missing (hl : locals.get? r.root = none) {p : List String} {name : String}
    {es : Entries Value} (ho : s.getPath? p = some (.object es)) (hn : es.get? name = none)
    (hc : s.isComputed p = true) (hp : p ++ [name] <+: r.path) :
    ((Context.mk s locals).lookup r).isOpen = true := by
  obtain ⟨q, hq⟩ := hp
  cases p with
  | nil => cases ho
  | cons root p =>
    obtain ⟨hroot, hnames⟩ := List.cons.inj hq
    rw [hroot] at ho hc
    rw [Scope.getPath?] at ho
    obtain ⟨v, hv, hobj⟩ := Option.bind_eq_some_iff.1 ho
    have hr : (Context.mk s locals).root? r.root = some v := by
      simp only [root?, hl, hv]
    rw [isOpen_lookup_iff]
    exact ⟨v, hr, .computed (by simpa using hnames.symm) hobj hn hc⟩

/-- A reference finds a root in a scope with more attributes if it did before. -/
theorem lookup_ne_undeclared_of_gains (h : s.Gains t)
    (hs : (Context.mk s locals).lookup r ≠ .undeclared) :
    (Context.mk t locals).lookup r ≠ .undeclared := by
  rw [ne_eq, lookup_eq_undeclared_iff, ← ne_eq, ← Option.isSome_iff_ne_none,
    root?_isSome_iff] at hs ⊢
  exact hs.imp_right h.isSome_get?

/-- Where a scope gains attributes, a reference to something firm finds the same as before, unless it
has been open. -/
theorem lookup_settles_of_gains (h : s.Gains t) (hl : locals.get? r.root = none)
    (hf : s.Firm r.path) :
    ((Context.mk s locals).lookup r).Settles ((Context.mk t locals).lookup r) := by
  induction h with
  | refl s => exact .refl _
  | @add s t p es name v ho hn hc h ih =>
    cases hopen : ((Context.mk s locals).lookup r).isOpen with
    | true =>
      refine ⟨fun _ => lookup_ne_undeclared_of_gains (.add v ho hn hc h) fun hu => ?_, fun hno => ?_⟩
      · rw [hu] at hopen
        cases hopen
      · rw [hopen] at hno
        cases hno
    | false =>
      -- A missing attribute on the way would make the reference open, so all is added elsewhere.
      have hdiv : Diverge (p ++ [name]) r.path := hf.diverge ho hc fun hp => by
        rw [isOpen_lookup_of_missing hl ho hn hc hp] at hopen
        cases hopen
      have hsame : s.SameFor r.path (s.set (p ++ [name]) v) := by
        simpa using Scope.SameFor.set ho hdiv [] v
      rw [hsame.lookup locals]
      exact ih (hf.set hdiv v)

/-- A value other than unknown stays when a scope gains attributes, and so does an error, if the
references of the expression to the scope lead to what is firm. -/
theorem evaluate_of_gains (h : s.Gains t) {e : Expr}
    (hf : ∀ r ∈ e.references, locals.get? r.root = none → s.Firm r.path) :
    (∀ v, v ≠ .unknown → (Context.mk s locals).evaluate e = .ok v →
      (Context.mk t locals).evaluate e = .ok v) ∧
    ∀ err, (Context.mk s locals).evaluate e = .error err →
      ∃ err', (Context.mk t locals).evaluate e = .error err' := by
  have hsettles : ∀ r ∈ e.references,
      ((Context.mk s locals).lookup r).Settles ((Context.mk t locals).lookup r) := by
    intro r hr
    cases hl : locals.get? r.root with
    | none => exact lookup_settles_of_gains h hl (hf r hr hl)
    | some v =>
      have hsame : (Context.mk s locals).lookup r = (Context.mk t locals).lookup r := by
        simp only [lookup, root?, hl]
        exact Value.SameAlong.follow (fun q => (h.isComputed q).symm) _ (.refl _ v)
      rw [hsame]
      exact .refl _
  rcases evaluate_of_settles hsettles with hu | hsame
  · rw [hu]
    constructor
    · intro v hv hok
      cases hok
      exact absurd rfl hv
    · intro err herr
      cases herr
  · constructor
    · intro v _ hok
      exact hsame.eq_ok hok
    · intro err herr
      cases err with
      | undefinedVariable name => exact ⟨_, hsame.eq_undefined herr⟩
      | expression f =>
        obtain ⟨g, hg⟩ := hsame.exists_failure herr
        exact ⟨_, hg⟩

/-! ### An image that gets a digest -/

/-- A scope with an image, which has some attributes. -/
def imageScope (attributes : Entries Value) : Scope :=
  ⟨[("docker_image", .object [("ubuntu", .object attributes)])], [["docker_image"]]⟩

theorem gains_imageScope : (imageScope [("name", .string "ubuntu:latest")]).Gains
    (imageScope [("name", .string "ubuntu:latest"), ("repo_digest", .string "sha256:1")]) :=
  @Scope.Gains.add _ _ ["docker_image", "ubuntu"] _ "repo_digest" (.string "sha256:1") rfl rfl rfl
    (.refl _)

/-- The name of the image stays when it gets its digest. -/
theorem evaluate_of_gains_imageScope :
    let s := imageScope [("name", .string "ubuntu:latest")]
    let t := imageScope [("name", .string "ubuntu:latest"), ("repo_digest", .string "sha256:1")]
    let e : Expr := .ofPath "docker_image" ["ubuntu", "name"]
    s.Gains t ∧ (∀ r ∈ e.references, s.Firm r.path) ∧
      (Context.mk t []).evaluate e = .ok (.string "ubuntu:latest") := by
  intro s t e
  have hfirm : ∀ r ∈ e.references, s.Firm r.path := by
    intro r hr
    rw [Expr.references_ofPath, List.mem_singleton] at hr
    rw [hr]
    exact .of_no_object (by simp [Reference.path]) fun es hes => by cases hes
  have hread : ∀ r ∈ e.references, Entries.get? ([] : Entries Value) r.root = none →
      s.Firm r.path := fun r hr _ => hfirm r hr
  obtain ⟨hstays, -⟩ := evaluate_of_gains gains_imageScope hread
  exact ⟨gains_imageScope, hfirm, hstays _ (by simp) rfl⟩

/-- Before the image gets its digest, an index by this name fails and the image is equal to an object
that has the name only; then the index has a value and the objects differ. -/
theorem not_evaluate_of_gains :
    let s := imageScope [("name", .string "ubuntu:latest")]
    let t := imageScope [("name", .string "ubuntu:latest"), ("repo_digest", .string "sha256:1")]
    let image : List Access → Expr := .traversal (.variable "docker_image")
    let digest : Expr := image [.field "ubuntu", .index (.string "repo_digest")]
    let same : Expr := .binary .eq (image [.field "ubuntu"])
      (.object [(.name "name", .string "ubuntu:latest")])
    s.Gains t ∧ (∃ err, (Context.mk s []).evaluate digest = .error err) ∧
      (Context.mk t []).evaluate digest = .ok (.string "sha256:1") ∧
      (Context.mk s []).evaluate same = .ok (.bool true) ∧
      (Context.mk t []).evaluate same = .ok (.bool false) :=
  ⟨gains_imageScope, ⟨_, rfl⟩, rfl, rfl, rfl⟩

end Context
end Preflight
