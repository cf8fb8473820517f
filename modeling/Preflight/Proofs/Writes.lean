import Preflight.Proofs.Reading
import Preflight.Proofs.Resolution

/-!
# What a run over parameters writes

A run over parameter blocks changes a scope at the values of parameters only. `Parameter.writes`
lists what it writes, in order, and `Scope.writeAll` writes such a list.

* `Parameter.getPath?_resolveAll`: at the end the value of a parameter is what was written at its
  turn, or what was there before.
* Writing the value of a parameter shows at its footprint: at the value, or, where there is no
  object to write it into, at the whole parameter. A path apart from the footprints looks the same
  before and after (`Scope.SameFor.writeAll`).
* Values left by an earlier run and values written now change places, and a value written now
  replaces one left under its path (`Scope.writeAll_set`).
-/

namespace Preflight

/-- The path of a block in the scope. -/
def Block.path (b : Block) : List String := b.heading.kind :: b.heading.labels

theorem Parameter.valuePath_eq (b : Block) : valuePath b = b.path ++ ["value"] := rfl

theorem Parameter.path_prefix_valuePath (b : Block) : b.path <+: valuePath b :=
  List.prefix_append _ _

namespace Scope

/-- Writes the values of parameters in turn. -/
def writeAll (s : Scope) (ws : List (Block × Value)) : Scope :=
  ws.foldl (fun s w => s.set (Parameter.valuePath w.1) w.2) s

@[simp] theorem writeAll_nil (s : Scope) : s.writeAll [] = s := rfl

@[simp] theorem writeAll_cons (s : Scope) (w : Block × Value) (ws : List (Block × Value)) :
    s.writeAll (w :: ws) = (s.set (Parameter.valuePath w.1) w.2).writeAll ws := rfl

theorem getPath?_writeAll {ws : List (Block × Value)} {p : List String}
    (h : ∀ w ∈ ws, Diverge (Parameter.valuePath w.1) p) (s : Scope) :
    (s.writeAll ws).getPath? p = s.getPath? p := by
  induction ws generalizing s with
  | nil => rfl
  | cons w ws ih =>
    rw [writeAll_cons, ih fun w hw => h w (List.mem_cons_of_mem _ hw),
      s.getPath?_set_of_diverge (h w List.mem_cons_self)]

end Scope

namespace Parameter

variable {input : Input}

/-! ### Turns -/

/-- What a block writes at its turn. -/
def written? (input : Input) (s : Scope) (b : Block) : Option Value :=
  match b.attribute? "value" with
  | some _ => none
  | none => (resolve input s b).1.value.written?

/-- What a run writes, each value with its block. -/
def writes (input : Input) : Scope → List Block → List (Block × Value)
  | _, [] => []
  | s, b :: bs => ((written? input s b).map (Prod.mk b)).toList ++ writes input (resolve input s b).2 bs

theorem resolve_of_value {s : Scope} {b : Block} {a : Attribute} (h : b.attribute? "value" = some a) :
    (resolve input s b).1.value = .ofValue ((b.context s).value a.expression) ∧
      (resolve input s b).2 = s := by
  simp only [resolve, Block.attribute?_materialize, h]
  exact ⟨rfl, rfl⟩

theorem resolve_of_no_value {s : Scope} {b : Block} (h : b.attribute? "value" = none) :
    (resolve input s b).1.value = resolveValue (b.materialize s) s input ∧
      (resolve input s b).2 = writeBack b s (resolveValue (b.materialize s) s input) := by
  simp only [resolve, Block.attribute?_materialize, h]
  exact ⟨rfl, rfl⟩

theorem resolve_snd (s : Scope) (b : Block) :
    (resolve input s b).2 = s.writeAll ((written? input s b).map (Prod.mk b)).toList := by
  cases h : b.attribute? "value" with
  | some a => rw [(resolve_of_value h).2, written?, h]; rfl
  | none =>
    simp only [written?, h]
    rw [(resolve_of_no_value h).1, (resolve_of_no_value h).2, writeBack]
    cases (resolveValue (b.materialize s) s input).written? <;> rfl

theorem resolveAll_cons (s : Scope) (b : Block) (bs : List Block) :
    resolveAll input s (b :: bs) =
      ((resolve input s b).1 :: (resolveAll input (resolve input s b).2 bs).1,
        (resolveAll input (resolve input s b).2 bs).2) := rfl

theorem resolveAll_append (s : Scope) (l m : List Block) :
    (resolveAll input s (l ++ m)).2 = (resolveAll input (resolveAll input s l).2 m).2 := by
  induction l generalizing s with
  | nil => rfl
  | cons b l ih =>
    rw [List.cons_append, resolveAll_cons, resolveAll_cons]
    exact ih _

theorem fst_resolveAll_append (s : Scope) (l m : List Block) :
    (resolveAll input s (l ++ m)).1 =
      (resolveAll input s l).1 ++ (resolveAll input (resolveAll input s l).2 m).1 := by
  induction l generalizing s with
  | nil => rfl
  | cons b l ih =>
    rw [List.cons_append, resolveAll_cons, resolveAll_cons, ih]
    rfl

/-- A run changes the scope by what it writes. -/
theorem resolveAll_snd (s : Scope) (bs : List Block) :
    (resolveAll input s bs).2 = s.writeAll (writes input s bs) := by
  induction bs generalizing s with
  | nil => rfl
  | cons b bs ih =>
    rw [resolveAll_cons, ih, writes, Scope.writeAll, Scope.writeAll, List.foldl_append, resolve_snd]
    rfl

theorem mem_writes {s : Scope} {bs : List Block} {w : Block × Value} (h : w ∈ writes input s bs) :
    w.1 ∈ bs ∧ w.1.attribute? "value" = none := by
  induction bs generalizing s with
  | nil => cases h
  | cons b bs ih =>
    rw [writes, List.mem_append] at h
    rcases h with h | h
    · rw [Option.mem_toList] at h
      obtain ⟨v, hv, rfl⟩ := Option.map_eq_some_iff.1 h
      refine ⟨List.mem_cons_self, ?_⟩
      rw [written?] at hv
      cases ha : b.attribute? "value" with
      | some a => simp [ha] at hv
      | none => rfl
    · exact (ih h).imp (List.mem_cons_of_mem _) id

/-- What holds of each block at its turn holds of blocks and parameters in order. -/
theorem forall₂_resolveAll {P : Block → Parameter → Prop} {s : Scope} {bs : List Block}
    (h : ∀ l b m, bs = l ++ b :: m → P b (resolve input (resolveAll input s l).2 b).1) :
    List.Forall₂ P bs (resolveAll input s bs).1 := by
  induction bs generalizing s with
  | nil => exact .nil
  | cons b bs ih =>
    refine .cons (h [] b bs rfl) (ih fun l c m hl => ?_)
    exact h (b :: l) c m (by rw [hl]; rfl)

/-- At the end the value of a parameter is what was written at its turn, or what was there before,
unless another parameter has the same path. -/
theorem getPath?_resolveAll {l m : List Block} {b : Block}
    (h : ∀ c ∈ l ++ m, Diverge (valuePath c) (valuePath b)) (s : Scope) :
    (resolveAll input s (l ++ b :: m)).2.getPath? (valuePath b) =
      (written? input (resolveAll input s l).2 b).or (s.getPath? (valuePath b)) := by
  have hl : (resolveAll input s l).2.getPath? (valuePath b) = s.getPath? (valuePath b) := by
    rw [resolveAll_snd]
    exact Scope.getPath?_writeAll
      (fun w hw => h w.1 (List.mem_append_left _ (mem_writes hw).1)) s
  rw [resolveAll_append, resolveAll_cons, resolveAll_snd _ m,
    Scope.getPath?_writeAll fun w hw => h w.1 (List.mem_append_right _ (mem_writes hw).1),
    resolve_snd]
  cases written? input (resolveAll input s l).2 b with
  | some v => exact Scope.getPath?_set_self _ (p := valuePath b) (by simp [valuePath]) v
  | none => exact hl

/-! ### Where writing shows -/

/-- Where writing the value of a parameter shows: at the value, or at the whole parameter if the
scope has no object for it. -/
def footprint (s : Scope) (b : Block) : List String :=
  match s.getPath? b.path with
  | some (.object _) => valuePath b
  | _ => b.path

theorem path_prefix_footprint (s : Scope) (b : Block) : b.path <+: footprint s b := by
  rw [footprint]
  split
  · exact path_prefix_valuePath b
  · exact List.prefix_refl _

/-- A block with two labels whose path leads to something. -/
structure Held (s : Scope) (b : Block) : Prop where
  labels : b.heading.labels.length = 2
  value : ∃ v, s.getPath? b.path = some v

namespace Held

variable {s : Scope} {b c : Block}

theorem length_path (h : Held s b) : b.path.length = 3 := by
  rw [Block.path, List.length_cons, h.labels]

theorem length_valuePath (h : Held s b) : (valuePath b).length = 4 := by
  rw [valuePath_eq, List.length_append, h.length_path]
  rfl

theorem diverge (hb : Held s b) (hc : Held s c) (h : valuePath b ≠ valuePath c) :
    Diverge (valuePath b) (valuePath c) :=
  .of_length (by rw [hb.length_valuePath, hc.length_valuePath]) h

/-- The path of a block does not lead to the value of a block with another path. -/
theorem not_prefix (hb : Held s b) (hc : Held s c) (h : b.path ≠ c.path) :
    ¬ b.path <+: valuePath c := by
  intro hp
  have hl : b.path.length = c.path.length := by rw [hb.length_path, hc.length_path]
  have hbc : b.path <+: c.path :=
    List.prefix_of_prefix_length_le hp (path_prefix_valuePath c) hl.le
  exact h (hbc.eq_of_length hl)

/-- Writing at a path as long as that of the block leaves something there. -/
theorem set_path (hb : Held s b) {p : List String} (hp : 3 ≤ p.length) (w : Value) :
    Held (s.set p w) b := by
  refine ⟨hb.labels, ?_⟩
  have hw : (s.set p w).getPath? p = some w := s.getPath?_set_self (by rintro rfl; simp at hp) w
  by_cases hbp : b.path <+: p
  · by_cases heq : b.path = p
    · exact ⟨w, heq ▸ hw⟩
    · obtain ⟨es, hes⟩ := Scope.exists_object_above (by simp [Block.path]) hbp heq hw
      exact ⟨_, hes⟩
  · obtain ⟨v, hv⟩ := hb.value
    have hdiv : Diverge p b.path := by
      refine ⟨fun hpb => hbp ?_, hbp⟩
      have hpath : p = b.path := hpb.eq_of_length_le (by rw [hb.length_path]; exact hp)
      exact hpath ▸ List.prefix_refl _
    exact ⟨v, by rw [s.getPath?_set_of_diverge hdiv, hv]⟩

theorem set (hb : Held s b) (hc : Held s c) (w : Value) : Held (s.set (valuePath c) w) b :=
  hb.set_path (by rw [hc.length_valuePath]; omega) w

theorem writeAll {ws : List (Block × Value)} (hb : Held s b) (hws : ∀ w ∈ ws, Held s w.1) :
    Held (s.writeAll ws) b := by
  induction ws generalizing s with
  | nil => exact hb
  | cons w ws ih =>
    have hw := hws w List.mem_cons_self
    exact ih (hb.set hw w.2) fun c hc => (hws c (List.mem_cons_of_mem _ hc)).set hw w.2

/-- A footprint only narrows when values are written. -/
theorem footprint_set (hb : Held s b) (hc : Held s c) (w : Value) :
    footprint s b <+: footprint (s.set (valuePath c) w) b := by
  by_cases hobj : ∃ es, s.getPath? b.path = some (.object es)
  · obtain ⟨es, hes⟩ := hobj
    have hset : ∃ fs, (s.set (c.path ++ ["value"]) w).getPath? b.path = some (.object fs) :=
      Scope.exists_object_set hes (by simp [Block.path]) (by rw [hb.length_path, hc.length_path]) w
    obtain ⟨fs, hfs⟩ := hset
    rw [← valuePath_eq] at hfs
    have hbefore : footprint s b = valuePath b := by rw [footprint, hes]
    have hafter : footprint (s.set (valuePath c) w) b = valuePath b := by rw [footprint, hfs]
    exact (hbefore.trans hafter.symm) ▸ List.prefix_refl _
  · have hfoot : footprint s b = b.path := by
      rw [footprint]
      split
      · exact absurd ⟨_, ‹_›⟩ hobj
      · rfl
    rw [hfoot]
    exact path_prefix_footprint _ b

/-- Writing a value apart from a path does not show on it. -/
theorem sameFor_set (hb : Held s b) {path : List String} (h : Diverge (footprint s b) path)
    (w : Value) : s.SameFor path (s.set (valuePath b) w) := by
  rw [footprint] at h
  split at h
  · rename_i es hes
    have hset := Scope.SameFor.set hes h [] w
    rwa [List.append_nil] at hset
  · obtain ⟨type, name, hl⟩ := List.length_eq_two.1 hb.labels
    have hpath : b.path = [b.heading.kind, type] ++ [name] := by
      rw [Block.path, hl]
      rfl
    obtain ⟨v, hv⟩ := hb.value
    rw [hpath] at hv h
    -- The parameter stands in an object, which stays.
    obtain ⟨es, hes⟩ := Scope.exists_object_above (by simp) (List.prefix_append _ [name]) (by simp) hv
    have hset := Scope.SameFor.set hes h ["value"] w
    rwa [← hpath, ← valuePath_eq] at hset

end Held
end Parameter

open Parameter

/-- A path apart from the footprints of written values looks the same before and after. -/
theorem Scope.SameFor.writeAll {path : List String} {ws : List (Block × Value)} {s : Scope}
    (hws : ∀ w ∈ ws, Held s w.1) (h : ∀ w ∈ ws, Diverge (footprint s w.1) path) :
    s.SameFor path (s.writeAll ws) := by
  induction ws generalizing s with
  | nil => exact .refl path s
  | cons w ws ih =>
    have hw := hws w List.mem_cons_self
    refine (hw.sameFor_set (h w List.mem_cons_self) w.2).trans (ih (fun c hc => ?_) fun c hc => ?_)
    · exact (hws c (List.mem_cons_of_mem _ hc)).set hw w.2
    · have hc' := List.mem_cons_of_mem w hc
      exact (h c hc').extend ((hws c hc').footprint_set hw w.2)

/-- Written after others, the value of a parameter can as well be written before those of the other
parameters, and in place of its own. -/
theorem Scope.writeAll_set {ws : List (Block × Value)} {s : Scope} {b : Block}
    (hws : ∀ w ∈ ws, Held s w.1) (hb : Held s b) (v : Value) :
    (s.writeAll ws).set (valuePath b) v =
      (s.set (valuePath b) v).writeAll (ws.filter fun w => valuePath w.1 ≠ valuePath b) := by
  induction ws generalizing s with
  | nil => rfl
  | cons w ws ih =>
    have hw := hws w List.mem_cons_self
    have hstep := ih (fun c hc => (hws c (List.mem_cons_of_mem _ hc)).set hw w.2) (hb.set hw w.2)
    by_cases heq : valuePath w.1 = valuePath b
    · rw [List.filter_cons_of_neg (by simpa using heq), writeAll_cons, hstep, heq, s.set_set]
    · have hdiv : Diverge (valuePath w.1) (valuePath b) := hw.diverge hb heq
      have hpath : ¬ w.1.path <+: valuePath b :=
        hw.not_prefix hb fun hwb => heq (by rw [valuePath_eq, valuePath_eq, hwb])
      obtain ⟨u, hu⟩ := hw.value
      rw [List.filter_cons_of_pos (by simpa using heq), writeAll_cons, writeAll_cons, hstep,
        s.set_comm hdiv (path_prefix_valuePath w.1) hpath (by rw [hu]; rfl)]

end Preflight
