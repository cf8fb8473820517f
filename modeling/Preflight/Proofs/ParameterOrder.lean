import Preflight.Proofs.Rerun

/-!
# Independent parameters change places

Two parameters in a row can change places if neither refers to anything at the address of the other
one, above it or behind it (`Module.resolveParameters_swap`).

* A turn that a parameter ignores has no influence on it, neither on its result nor on what it writes
  (`Parameter.resolve_after`).
* The two turns leave the same scope in either order (`Parameter.resolve_comm`), so all that comes
  after them is the same, and so are the tags.
-/

namespace Preflight

/-- No reference in a block, or in the blocks nested in it as they are written, leads to the address
of another block, to something above it or to something behind it. -/
def Block.Ignores (a b : Block) : Prop := ∀ r ∈ a.references, Diverge b.path r.path

namespace Parameter

variable {input : Input} {s : Scope} {a b : Block}

/-- The turn of another parameter makes no difference to one that ignores it. -/
theorem resolve_after (ha : Held s a) (h : b.Ignores a) :
    (resolve input (resolve input s a).2 b).1 = (resolve input s b).1 ∧
      written? input (resolve input s a).2 b = written? input s b := by
  have hsnd : (resolve input s a).2 = s.writeAll (writes input s [a]) := resolveAll_snd s [a]
  have hwrites : ∀ w ∈ writes input s [a], w.1 = a :=
    fun w hw => List.mem_singleton.1 (mem_writes hw).1
  rw [hsnd]
  refine resolve_writeAll (fun w hw => ?_) fun r hr w hw => ?_
  · rw [hwrites w hw]
    exact ha
  · rw [hwrites w hw]
    exact (h r hr).extend (path_prefix_footprint s a)

/-- The turns of two parameters that ignore each other leave the same scope in either order. -/
theorem resolve_comm (ha : Held s a) (hb : Held s b) (hne : a.path ≠ b.path) (hab : a.Ignores b)
    (hba : b.Ignores a) :
    (resolve input (resolve input s a).2 b).2 = (resolve input (resolve input s b).2 a).2 := by
  rw [resolve_snd (resolve input s a).2, resolve_snd (resolve input s b).2, (resolve_after ha hba).2,
    (resolve_after hb hab).2, resolve_snd s a, resolve_snd s b]
  cases written? input s a with
  | none => rfl
  | some v =>
    cases written? input s b with
    | none => rfl
    | some w =>
      have hdiv : Diverge (valuePath a) (valuePath b) :=
        ha.diverge hb fun heq => hne (List.append_cancel_right heq)
      obtain ⟨u, hu⟩ := ha.value
      exact s.set_comm hdiv (path_prefix_valuePath a) (ha.not_prefix hb hne) (by rw [hu]; rfl) v w

/-- Two parameters that ignore each other change places in the results, and what comes after them is
the same. -/
theorem resolveAll_swap (input : Input) (ha : Held s a) (hb : Held s b) (hne : a.path ≠ b.path)
    (hab : a.Ignores b) (hba : b.Ignores a) (bs : List Block) :
    let rest := resolveAll input (resolve input (resolve input s a).2 b).2 bs
    resolveAll input s (a :: b :: bs) =
        ((resolve input s a).1 :: (resolve input s b).1 :: rest.1, rest.2) ∧
      resolveAll input s (b :: a :: bs) =
        ((resolve input s b).1 :: (resolve input s a).1 :: rest.1, rest.2) := by
  constructor
  · rw [resolveAll_cons, resolveAll_cons, (resolve_after ha hba).1]
  · rw [resolveAll_cons, resolveAll_cons, (resolve_after hb hab).1,
      resolve_comm ha hb hne hab hba]

/-- Parameters leave something at the path of another one, whatever they write. -/
theorem Held.resolveAll {l : List Block} (hb : Held s b) (hl : ∀ c ∈ l, c.heading.labels ≠ []) :
    Held (resolveAll input s l).2 b := by
  induction l generalizing s with
  | nil => exact hb
  | cons c l ih =>
    rw [resolveAll_cons]
    refine ih ?_ fun d hd => hl d (List.mem_cons_of_mem c hd)
    rw [resolve_snd]
    cases written? input s c with
    | none => exact hb
    | some v =>
      have hlabels : 0 < c.heading.labels.length :=
        List.length_pos_iff.2 (hl c List.mem_cons_self)
      have hlength : 3 ≤ (valuePath c).length := by
        rw [valuePath, List.length_append, List.length_cons, List.length_singleton]
        omega
      exact hb.set_path hlength v

end Parameter

/-- A block declares a parameter by two labels, and the scope has an object at its address. -/
structure Block.IsParameter (s : Scope) (b : Block) : Prop where
  kind : b.heading.kind = "data"
  type : b.heading.typeLabel = parameterType
  labels : b.heading.labels.length = 2
  object : ∃ es, s.getPath? b.path = some (.object es)

namespace Module

/-- The module with other blocks. -/
def withBlocks (m : Module) (bs : List Block) : Module := { m with blocks := bs }

variable {m : Module} {l mid r : List Block} {a b : Block} {input : Input}

theorem labels_ne_nil {c : Block} (hc : c ∈ m.parameterBlocks) : c.heading.labels ≠ [] := by
  intro hnil
  obtain ⟨-, -, htype⟩ := mem_parameterBlocks.1 hc
  rw [Heading.typeLabel, hnil] at htype
  revert htype
  decide

theorem held_of_isParameter (h : b.IsParameter m.scope) : Parameter.Held m.scope b := by
  obtain ⟨es, hes⟩ := h.object
  exact ⟨h.labels, _, hes⟩

theorem path_of_isParameter (h : b.IsParameter m.scope) :
    b.path = ["data", parameterType, b.heading.nameLabel] := by
  have hb : b ∈ (m.withBlocks [b]).parameterBlocks :=
    mem_parameterBlocks.2 ⟨List.mem_singleton_self b, h.kind, h.type⟩
  exact path_of_mem hb h.labels

/-- The parameters of a module with two of them in a row. -/
theorem parameterBlocks_pair (hmid : (m.withBlocks mid).parameterBlocks = [])
    (ha : a.IsParameter m.scope) (hb : b.IsParameter m.scope) :
    (m.withBlocks (l ++ a :: mid ++ b :: r)).parameterBlocks =
      (m.withBlocks l).parameterBlocks ++ a :: b :: (m.withBlocks r).parameterBlocks := by
  simp only [parameterBlocks, blocksOf, withBlocks] at hmid ⊢
  rw [List.filter_append, List.filter_append, List.filter_cons_of_pos (by simp [ha.kind, ha.type]),
    List.filter_cons_of_pos (by simp [hb.kind, hb.type]), hmid]
  simp

/-- The tag blocks of a module with two parameters are those between and around them. -/
theorem tagBlocks_pair (ha : a.IsParameter m.scope) (hb : b.IsParameter m.scope) :
    (m.withBlocks (l ++ a :: mid ++ b :: r)).blocksOf "data" tagsType =
      (m.withBlocks (l ++ mid ++ r)).blocksOf "data" tagsType := by
  have hne : parameterType ≠ tagsType := by decide
  simp [blocksOf, withBlocks, ha.type, hb.type, hne]

/-- The parameters of a module with two of them in a row are resolved up to them and from there on. -/
theorem resolveParameters_pair (hmid : (m.withBlocks mid).parameterBlocks = [])
    (ha : a.IsParameter m.scope) (hb : b.IsParameter m.scope) (input : Input) :
    let before := (m.withBlocks l).resolveParameters input
    let own := (m.withBlocks (l ++ a :: mid ++ b :: r)).resolveParameters input
    let rest := Parameter.resolveAll input before.2.scope
      (a :: b :: (m.withBlocks r).parameterBlocks)
    own.1 = before.1 ++ rest.1 ∧ own.2.scope = rest.2 := by
  intro before own rest
  have hblocks : (m.withBlocks (l ++ a :: mid ++ b :: r)).parameterBlocks =
      (m.withBlocks l).parameterBlocks ++ a :: b :: (m.withBlocks r).parameterBlocks :=
    parameterBlocks_pair hmid ha hb
  constructor
  · simp only [own, resolveParameters, hblocks]
    exact Parameter.fst_resolveAll_append _ _ _
  · simp only [own, resolveParameters, hblocks]
    exact Parameter.resolveAll_append _ _ _

/-- Two parameters of different names, with no other one in between, that ignore each other can change
places. They come out as before, in the other order. The parameters before and after them, the scope
at the end and the tags are the same. -/
theorem resolveParameters_swap (hmid : (m.withBlocks mid).parameterBlocks = [])
    (ha : a.IsParameter m.scope) (hb : b.IsParameter m.scope)
    (hne : a.heading.nameLabel ≠ b.heading.nameLabel) (hab : a.Ignores b) (hba : b.Ignores a)
    (input : Input) :
    let before := (m.withBlocks l).resolveParameters input
    let p := (Parameter.resolve input before.2.scope a).1
    let q := (Parameter.resolve input before.2.scope b).1
    let own := (m.withBlocks (l ++ a :: mid ++ b :: r)).resolveParameters input
    let swapped := (m.withBlocks (l ++ b :: mid ++ a :: r)).resolveParameters input
    ∃ after, own.1 = before.1 ++ p :: q :: after ∧ swapped.1 = before.1 ++ q :: p :: after ∧
      swapped.2.scope = own.2.scope ∧ swapped.2.resolveTags = own.2.resolveTags := by
  intro before p q own swapped
  have hheld : ∀ c : Block, c.IsParameter m.scope → Parameter.Held before.2.scope c :=
    fun c hc => (held_of_isParameter hc).resolveAll fun d hd => labels_ne_nil hd
  have hpath : a.path ≠ b.path := by
    rw [path_of_isParameter ha, path_of_isParameter hb]
    simpa using hne
  obtain ⟨hrest, hrest'⟩ := Parameter.resolveAll_swap input (hheld a ha) (hheld b hb) hpath hab hba
    (m.withBlocks r).parameterBlocks
  obtain ⟨hown, hscope⟩ := resolveParameters_pair (l := l) (r := r) hmid ha hb input
  obtain ⟨hswapped, hscope'⟩ := resolveParameters_pair (l := l) (r := r) hmid hb ha input
  rw [hrest] at hown hscope
  rw [hrest'] at hswapped hscope'
  have hsame : swapped.2.scope = own.2.scope := hscope'.trans hscope.symm
  refine ⟨_, hown, hswapped, hsame, ?_⟩
  have hblocks : swapped.2.blocksOf "data" tagsType = own.2.blocksOf "data" tagsType :=
    (tagBlocks_pair hb ha).trans (tagBlocks_pair ha hb).symm
  rw [resolveTags, resolveTags, hsame, hblocks]

/-! ### A region and a zone -/

/-- A parameter with a default. -/
def defaulted (name : String) (default : Expr) : Block :=
  let here : Location := ⟨none, none⟩
  ⟨⟨"data", [parameterType, name], here⟩, [⟨"name", .string name, .unknown, here⟩,
    ⟨"default", default, .unknown, here⟩], [], [], []⟩

/-- A module without blocks whose scope has a variable and two parameters. -/
def regionAndZone : Module :=
  ⟨[], [], ⟨[("var", .object [("x", .string "eu")]), ("data", .object [("coder_parameter",
    .object [("region", .object []), ("zone", .object [])])])], []⟩, true⟩

/-- A region made of a variable and a zone, with tags made of the region in between, change places. -/
theorem resolveParameters_swap_regionAndZone :
    let m := regionAndZone
    let a := defaulted "region" (.ofPath "var" ["x"])
    let b := defaulted "zone" (.string "a")
    let tags : Block := ⟨⟨"data", [tagsType, "tags"], ⟨none, none⟩⟩, [⟨"tags",
      .object [(.name "at", Parameter.reference "region")], .unknown, ⟨none, none⟩⟩], [], [], []⟩
    let swapped := (m.withBlocks [b, tags, a]).resolveParameters []
    a.IsParameter m.scope ∧ b.IsParameter m.scope ∧ a.Ignores b ∧ b.Ignores a ∧
      swapped.1.map Parameter.name = ["zone", "region"] ∧
      swapped.2.resolveTags.map TagBlock.validTags = [[("at", "eu")]] := by
  intro m a b tags swapped
  have ha : a.IsParameter m.scope := ⟨rfl, rfl, rfl, _, rfl⟩
  have hb : b.IsParameter m.scope := ⟨rfl, rfl, rfl, _, rfl⟩
  have hab : a.Ignores b := by
    intro r hr
    have hvar : r = .ofPath "var" ["x"] := List.mem_singleton.1 hr
    rw [hvar]
    simp [Diverge, Block.path, Reference.path, Reference.ofPath, b, defaulted]
  have hba : b.Ignores a := by
    intro r hr
    cases hr
  have hmid : (m.withBlocks [tags]).parameterBlocks = [] := rfl
  obtain ⟨after, hown, hswapped, -, htags⟩ :=
    resolveParameters_swap (l := []) (r := []) hmid ha hb (by decide) hab hba []
  have hlength : ((m.withBlocks [a, tags, b]).resolveParameters []).1.length = 2 := rfl
  have hafter : after = [] := by
    have hbefore : ((m.withBlocks []).resolveParameters []).1 = [] := rfl
    rw [show ((m.withBlocks [a, tags, b]).resolveParameters []).1 = _ from hown, hbefore] at hlength
    simpa using hlength
  refine ⟨ha, hb, hab, hba, ?_, ?_⟩
  · rw [show swapped.1 = _ from hswapped, hafter]
    rfl
  · rw [show swapped.2.resolveTags = _ from htags]
    decide +kernel

end Module
end Preflight
