import Mathlib.Data.List.Infix
import Mathlib.Logic.Relation
import Preflight.Proofs.Defaults

/-!
# Completed values

Filling in defaults completes a value and takes nothing away from it.

* A value is `Complete` for a type if filling in its defaults changes nothing. Filling in gives
  complete values (`TypeSpec.complete_applyDefaults`), and the parts of a complete value are complete
  for the types of their places (`TypeSpec.Inside.complete`).
* In a complete object every attribute with a default has a value (`TypeSpec.Complete.hasDefaults`).
* What stands at the end of a path stays there (`Value.part?`), and a list keeps its items and an
  object its names (`Value.KeptAs`).
* `TypeSpec.applyDefaults_completes` has all of it.
-/

namespace Preflight

/-! ### Parts of values -/

/-- A step into a value: to what is found under a name, or to the item at a place of a list. -/
inductive Value.Step where
  | key (name : String)
  | item (index : Nat)

namespace Value

/-- The part that a step leads to. -/
def child? : Value → Step → Option Value
  | .object entries, .key name => Entries.get? entries name
  | .list items, .item index => items[index]?
  | _, _ => none

/-- The part at the end of a path. -/
def part? : Value → List Step → Option Value
  | v, [] => some v
  | v, s :: path => (v.child? s).bind fun u => part? u path

/-- What a value may become when something is added to it: a list has as many items, an object has its
names in their order and others only behind them, and everything else is the same. -/
def KeptAs : Value → Value → Prop
  | .list items, w => ∃ items', w = .list items' ∧ items'.length = items.length
  | .object entries, w =>
    ∃ entries', w = .object entries' ∧ Entries.keys entries <+: Entries.keys entries'
  | v, w => w = v

theorem isNull_eq_false {v : Value} : v.isNull = false ↔ v ≠ .null := by
  cases v <;> simp [isNull]

/-- Nothing lies inside of null. -/
theorem ne_null_of_part? {v u : Value} {s : Step} {path : List Step} (h : v.part? (s :: path) = some u) :
    v ≠ .null := by
  rintro rfl
  simp [part?, child?] at h

end Value

namespace TypeSpec

/-! ### Complete values -/

/-- Filling in defaults changes nothing. -/
def Complete (type : TypeSpec) (v : Value) : Prop := type.applyDefaults v = v

theorem complete_null (type : TypeSpec) : type.Complete .null := by
  cases type <;> simp [Complete, applyDefaults]

theorem applyDefaults_ne_null (type : TypeSpec) {v : Value} (h : v ≠ .null) :
    type.applyDefaults v ≠ .null := by
  cases type <;> cases v <;> simp_all [applyDefaults]

theorem map_eq_self_iff {α : Type} {f : α → α} {as : List α} : as.map f = as ↔ ∀ a ∈ as, f a = a := by
  induction as with
  | nil => simp
  | cons a as ih => simp [ih]

theorem complete_list {element : TypeSpec} {items : List Value} :
    (list element).Complete (.list items) ↔ ∀ v ∈ items, element.Complete v := by
  simp only [Complete, applyDefaults, Value.list.injEq]
  exact map_eq_self_iff

theorem complete_set {element : TypeSpec} {items : List Value} :
    (set element).Complete (.list items) ↔ ∀ v ∈ items, element.Complete v := by
  simp only [Complete, applyDefaults, Value.list.injEq]
  exact map_eq_self_iff

theorem complete_map {element : TypeSpec} {entries : Entries Value} :
    (map element).Complete (.object entries) ↔ ∀ e ∈ entries, element.Complete e.2 := by
  simp only [Complete, applyDefaults, Value.object.injEq]
  rw [map_eq_self_iff]
  simp [Prod.ext_iff]

/-- The item at a place has the defaults of the type at that place filled in; items behind the last type
stay. -/
theorem getElem?_applyTuple (types : List TypeSpec) (items : List Value) (i : Nat) :
    (applyTuple types items)[i]? = items[i]?.map ((types[i]?.getD .any).applyDefaults) := by
  induction types generalizing items i with
  | nil => cases h : items[i]? <;> simp [applyTuple, applyDefaults, h]
  | cons type types ih =>
    cases items with
    | nil => simp [applyTuple]
    | cons v items => cases i <;> simp [applyTuple, ih]

theorem complete_tuple {elements : List TypeSpec} {items : List Value} :
    (tuple elements).Complete (.list items) ↔
      ∀ (i : Nat) (type : TypeSpec) (v : Value),
        elements[i]? = some type → items[i]? = some v → type.Complete v := by
  simp only [Complete, applyDefaults, Value.list.injEq]
  rw [List.ext_getElem?_iff]
  constructor
  · intro h i type v ht hv
    have hi := h i
    rw [getElem?_applyTuple, ht, hv] at hi
    exact Option.some.inj hi
  · intro h i
    rw [getElem?_applyTuple]
    cases hv : items[i]? with
    | none => rfl
    | some v =>
      cases ht : elements[i]? with
      | none => simp [applyDefaults]
      | some type => exact congrArg some (h i type v ht hv)

/-- The value that a declared attribute has once defaults are filled in, if it has any. -/
def completion? (a : AttributeSpec) (v? : Option Value) : Option Value :=
  (applyAttribute a (v?.filter fun v => !v.isNull)).or v?

theorem applyAttributes_eq_self {attributes : List (String × AttributeSpec)} {entries : Entries Value}
    (h : ∀ a ∈ attributes, completion? a.2 (entries.get? a.1) = entries.get? a.1) :
    applyAttributes attributes entries = entries := by
  induction attributes with
  | nil => rw [applyAttributes]
  | cons a attributes ih =>
    obtain ⟨ha, htail⟩ := List.forall_mem_cons.1 h
    rw [applyAttributes]
    split
    · rename_i w hw
      rw [completion?, hw] at ha
      rw [Entries.insert_of_get? ha.symm]
      exact ih htail
    · exact ih htail

/-- An object is complete if its attributes are. -/
theorem complete_object {attributes : List (String × AttributeSpec)}
    (h : (Entries.keys attributes).Nodup) {entries : Entries Value} :
    (object attributes).Complete (.object entries) ↔
      ∀ a ∈ attributes, completion? a.2 (entries.get? a.1) = entries.get? a.1 := by
  simp only [Complete, applyDefaults, Value.object.injEq]
  constructor
  · intro heq a ha
    rw [completion?, ← get?_applyAttributes h ha, heq]
  · exact applyAttributes_eq_self

theorem completion?_of_ne_null (a : AttributeSpec) {v : Value} (h : v ≠ .null) :
    completion? a (some v) = some (a.type.applyDefaults v) := by
  simp [completion?, applyAttribute_eq, Option.filter_some, Value.isNull_eq_false.2 h]

theorem completion?_of_default? {a : AttributeSpec} {d : Value} (hd : a.default? = some d)
    {v? : Option Value} (h : (v?.filter fun v => !v.isNull) = none) :
    completion? a v? = some (a.type.applyDefaults d) := by
  simp [completion?, applyAttribute_eq, h, hd]

theorem completion?_of_no_default {a : AttributeSpec} (hd : a.default? = none) {v? : Option Value}
    (h : (v?.filter fun v => !v.isNull) = none) : completion? a v? = v? := by
  simp [completion?, applyAttribute_eq, h, hd]

/-- Completing an attribute twice is completing it once. -/
theorem completion?_completion? {a : AttributeSpec} (ih : ∀ v, a.type.Complete (a.type.applyDefaults v))
    (v? : Option Value) : completion? a (completion? a v?) = completion? a v? := by
  have hsome : ∀ v, v ≠ .null → completion? a (some (a.type.applyDefaults v)) =
      some (a.type.applyDefaults v) := fun v hv => by
    rw [completion?_of_ne_null a (applyDefaults_ne_null _ hv), ih v]
  cases hv : v?.filter fun v => !v.isNull with
  | some v =>
    obtain ⟨rfl, hnull⟩ := Option.filter_eq_some_iff.1 hv
    have hne : v ≠ .null := by simpa [← Value.isNull_eq_false] using hnull
    rw [completion?_of_ne_null a hne, hsome v hne]
  | none =>
    cases hd : a.default? with
    | none => rw [completion?_of_no_default hd hv, completion?_of_no_default hd hv]
    | some d =>
      rw [completion?_of_default? hd hv]
      by_cases hnull : d = .null
      · subst hnull
        rw [complete_null]
        exact (completion?_of_default? hd rfl).trans (by rw [complete_null])
      · exact hsome d hnull

/-- Filling in defaults gives a complete value. -/
theorem complete_applyDefaults {type : TypeSpec} (ht : type.Distinct) (v : Value) :
    type.Complete (type.applyDefaults v) := by
  induction ht generalizing v with
  | any => simp [Complete, applyDefaults]
  | string => simp [Complete, applyDefaults]
  | number => simp [Complete, applyDefaults]
  | bool => simp [Complete, applyDefaults]
  | list _ ih =>
    cases v with
    | list items =>
      rw [applyDefaults, complete_list]
      simpa using fun v _ => ih v
    | _ => simp [Complete, applyDefaults]
  | set _ ih =>
    cases v with
    | list items =>
      rw [applyDefaults, complete_set]
      simpa using fun v _ => ih v
    | _ => simp [Complete, applyDefaults]
  | map _ ih =>
    cases v with
    | object entries =>
      rw [applyDefaults, complete_map]
      refine List.forall_mem_map.2 fun e _ => ih e.2
    | _ => simp [Complete, applyDefaults]
  | @tuple elements _ ih =>
    cases v with
    | list items =>
      rw [applyDefaults, complete_tuple]
      intro i type w htype hw
      rw [getElem?_applyTuple, htype, Option.getD_some] at hw
      obtain ⟨v, -, rfl⟩ := Option.map_eq_some_iff.1 hw
      exact ih type (List.mem_of_getElem? htype) v
    | _ => simp [Complete, applyDefaults]
  | @object attributes hnames _ ih =>
    cases v with
    | object entries =>
      rw [applyDefaults, complete_object hnames]
      intro a ha
      rw [get?_applyAttributes hnames ha]
      exact completion?_completion? (ih a ha) (Entries.get? entries a.1)
    | _ => simp [Complete, applyDefaults]

/-! ### Inside complete values -/

/-- From a type and a value to the types and values inside: to the items of lists, to the entries of
maps, and to the attributes that an object type declares. -/
inductive Inside : TypeSpec × Value → TypeSpec × Value → Prop
  | listItem {element : TypeSpec} {items : List Value} {v : Value} (h : v ∈ items) :
    Inside (.list element, .list items) (element, v)
  | setItem {element : TypeSpec} {items : List Value} {v : Value} (h : v ∈ items) :
    Inside (.set element, .list items) (element, v)
  | tupleItem {elements : List TypeSpec} {items : List Value} {i : Nat} {type : TypeSpec} {v : Value}
    (ht : elements[i]? = some type) (hv : items[i]? = some v) :
    Inside (.tuple elements, .list items) (type, v)
  | mapEntry {element : TypeSpec} {entries : Entries Value} {e : String × Value} (h : e ∈ entries) :
    Inside (.map element, .object entries) (element, e.2)
  | declared {attributes : List (String × AttributeSpec)} {entries : Entries Value}
    {a : String × AttributeSpec} {v : Value} (ha : a ∈ attributes) (hv : entries.get? a.1 = some v) :
    Inside (.object attributes, .object entries) (a.2.type, v)

/-- The positions of a type and a value, itself included. -/
def Reaches : TypeSpec × Value → TypeSpec × Value → Prop := Relation.ReflTransGen Inside

/-- Every attribute with a default other than null has a value other than null. -/
def HasDefaults (attributes : List (String × AttributeSpec)) (entries : Entries Value) : Prop :=
  ∀ a ∈ attributes, ∀ d, a.2.default? = some d → d ≠ .null →
    ∃ v, entries.get? a.1 = some v ∧ v ≠ .null

theorem Complete.hasDefaults {attributes : List (String × AttributeSpec)} {entries : Entries Value}
    (hnames : (Entries.keys attributes).Nodup) (h : (object attributes).Complete (.object entries)) :
    HasDefaults attributes entries := by
  intro a ha d hd hne
  have hself := (complete_object hnames).1 h a ha
  cases hv : (entries.get? a.1).filter fun v => !v.isNull with
  | some v =>
    obtain ⟨hget, hnull⟩ := Option.filter_eq_some_iff.1 hv
    exact ⟨v, hget, by simpa [← Value.isNull_eq_false] using hnull⟩
  | none =>
    rw [completion?_of_default? hd hv] at hself
    exact ⟨_, hself.symm, applyDefaults_ne_null _ hne⟩

/-- What lies inside a complete value is complete. -/
theorem Inside.complete {p q : TypeSpec × Value} (h : Inside p q)
    (hp : p.1.Distinct ∧ p.1.Complete p.2) : q.1.Distinct ∧ q.1.Complete q.2 := by
  obtain ⟨ht, hv⟩ := hp
  cases h with
  | listItem h =>
    cases ht with
    | list ht => exact ⟨ht, complete_list.1 hv _ h⟩
  | setItem h =>
    cases ht with
    | set ht => exact ⟨ht, complete_set.1 hv _ h⟩
  | tupleItem htype h =>
    cases ht with
    | tuple ht => exact ⟨ht _ (List.mem_of_getElem? htype), complete_tuple.1 hv _ _ _ htype h⟩
  | mapEntry h =>
    cases ht with
    | map ht => exact ⟨ht, complete_map.1 hv _ h⟩
  | @declared attributes entries a v ha h =>
    cases ht with
    | object hnames ht =>
      refine ⟨ht a ha, ?_⟩
      by_cases hnull : v = .null
      · exact hnull ▸ complete_null _
      · have hself := (complete_object hnames).1 hv a ha
        rw [h, completion?_of_ne_null a.2 hnull] at hself
        exact Option.some.inj hself

theorem Reaches.complete {p q : TypeSpec × Value} (h : Reaches p q)
    (hp : p.1.Distinct ∧ p.1.Complete p.2) : q.1.Distinct ∧ q.1.Complete q.2 := by
  induction h with
  | refl => exact hp
  | tail _ h ih => exact h.complete ih

/-! ### What stays -/

theorem keys_applyAttributes (attributes : List (String × AttributeSpec)) (entries : Entries Value) :
    entries.keys <+: (applyAttributes attributes entries).keys := by
  induction attributes generalizing entries with
  | nil => rw [applyAttributes]
  | cons a attributes ih =>
    rw [applyAttributes]
    refine List.IsPrefix.trans ?_ (ih _)
    split
    · exact entries.keys_prefix_insert _ _
    · exact List.prefix_rfl

/-- A value is kept when its defaults are filled in. -/
theorem keptAs_applyDefaults (type : TypeSpec) (v : Value) : v.KeptAs (type.applyDefaults v) := by
  cases v with
  | list items =>
    cases type <;> simp [Value.KeptAs, applyDefaults, length_applyTuple]
  | object entries =>
    cases type with
    | map element => simp [Value.KeptAs, applyDefaults]
    | object attributes =>
      simpa [Value.KeptAs, applyDefaults] using keys_applyAttributes attributes entries
    | _ => simp [Value.KeptAs, applyDefaults]
  | _ => cases type <;> simp [Value.KeptAs, applyDefaults]

/-- Where a step leads to a value other than null, it leads to that value with defaults of some type
filled in. -/
theorem child?_applyDefaults {type : TypeSpec} (ht : type.Distinct) {v u : Value} {s : Value.Step}
    (h : v.child? s = some u) (hu : u ≠ .null) :
    ∃ t : TypeSpec, t.Distinct ∧ (type.applyDefaults v).child? s = some (t.applyDefaults u) := by
  have hsame : type.applyDefaults v = v →
      ∃ t : TypeSpec, t.Distinct ∧ (type.applyDefaults v).child? s = some (t.applyDefaults u) :=
    fun heq => ⟨.any, .any, by simp [heq, h, applyDefaults]⟩
  cases s with
  | key name =>
    cases v with
    | object entries =>
      cases ht with
      | @map element ht =>
        refine ⟨element, ht, ?_⟩
        rw [applyDefaults, Value.child?, Entries.get?_map (applyDefaults element)]
        exact congrArg (Option.map element.applyDefaults) h
      | @object attributes hnames ht =>
        rw [applyDefaults, Value.child?]
        replace h : Entries.get? entries name = some u := h
        by_cases hm : name ∈ Entries.keys attributes
        · obtain ⟨a, ha, rfl⟩ := List.mem_map.1 hm
          refine ⟨a.2.type, ht a ha, ?_⟩
          rw [get?_applyAttributes hnames ha, h]
          exact completion?_of_ne_null a.2 hu
        · refine ⟨.any, .any, ?_⟩
          rw [get?_applyAttributes_of_notMem hm, h]
          simp [applyDefaults]
      | _ => exact hsame (by simp [applyDefaults])
    | _ => simp [Value.child?] at h
  | item i =>
    cases v with
    | list items =>
      cases ht with
      | @list element ht =>
        refine ⟨element, ht, ?_⟩
        rw [applyDefaults, Value.child?, List.getElem?_map]
        exact congrArg (Option.map element.applyDefaults) h
      | @set element ht =>
        refine ⟨element, ht, ?_⟩
        rw [applyDefaults, Value.child?, List.getElem?_map]
        exact congrArg (Option.map element.applyDefaults) h
      | @tuple elements ht =>
        refine ⟨elements[i]?.getD .any, ?_, ?_⟩
        · cases htype : elements[i]? with
          | none => exact .any
          | some type => exact ht type (List.mem_of_getElem? htype)
        · rw [applyDefaults, Value.child?, getElem?_applyTuple]
          exact congrArg (Option.map _) h
      | _ => exact hsame (by simp [applyDefaults])
    | _ => simp [Value.child?] at h

/-- What stands at the end of a path still stands there, with defaults of some type filled in. -/
theorem part?_applyDefaults {type : TypeSpec} (ht : type.Distinct) {v u : Value} {path : List Value.Step}
    (h : v.part? path = some u) (hu : u ≠ .null) :
    ∃ t : TypeSpec, (type.applyDefaults v).part? path = some (t.applyDefaults u) := by
  induction path generalizing type v with
  | nil =>
    cases h
    exact ⟨type, rfl⟩
  | cons s path ih =>
    obtain ⟨w, hw, h⟩ := Option.bind_eq_some_iff.1 h
    have hne : w ≠ .null := by
      cases path with
      | nil =>
        cases h
        exact hu
      | cons => exact Value.ne_null_of_part? h
    obtain ⟨t, ht, hstep⟩ := child?_applyDefaults ht hw hne
    obtain ⟨t', hpath⟩ := ih ht h
    exact ⟨t', by rw [Value.part?, hstep, Option.bind_some, hpath]⟩

/-- Filling in defaults completes a value: a second time it changes nothing; wherever an object type
meets an object, every attribute with a default has a value; and every part other than null is kept
where it was. -/
theorem applyDefaults_completes {type : TypeSpec} (ht : type.Distinct) (v : Value) :
    type.applyDefaults (type.applyDefaults v) = type.applyDefaults v ∧
      (∀ attributes entries,
        Reaches (type, type.applyDefaults v) (.object attributes, .object entries) →
          HasDefaults attributes entries) ∧
      ∀ path u, v.part? path = some u → u ≠ .null →
        ∃ w, (type.applyDefaults v).part? path = some w ∧ u.KeptAs w := by
  refine ⟨complete_applyDefaults ht v, fun attributes entries h => ?_, fun path u h hu => ?_⟩
  · obtain ⟨hdistinct, hcomplete⟩ := h.complete ⟨ht, complete_applyDefaults ht v⟩
    cases hdistinct with
    | object hnames _ => exact hcomplete.hasDefaults hnames
  · obtain ⟨t, hpath⟩ := part?_applyDefaults ht h hu
    exact ⟨_, hpath, keptAs_applyDefaults t u⟩

/-- The disk of an image is null, and its default `{}` is completed with the default of the size inside
it. The undeclared note stays behind the name, and the second image is still to be known. -/
theorem applyDefaults_completes_images :
    let disk : List (String × AttributeSpec) := [("size", .optional .number (some (.number 10)))]
    let image : List (String × AttributeSpec) := [("name", .required .string),
      ("disk", .optional (.object disk) (some (.object [("size", .null)])))]
    let type : TypeSpec := .list (.object image)
    let v : Value :=
      .list [.object [("disk", .null), ("name", .string "debian"), ("note", .unknown)], .unknown]
    let size : Entries Value := [("size", .number 10)]
    let filled : Value :=
      .list [.object [("disk", .object size), ("name", .string "debian"), ("note", .unknown)], .unknown]
    type.Distinct ∧ type.applyDefaults v = filled ∧ type.applyDefaults filled = filled ∧
      HasDefaults disk size ∧ filled.part? [.item 0, .key "note"] = some .unknown := by
  intro disk image type v size filled
  have ht : type.Distinct := by
    refine .list (.object (by decide) ?_)
    rw [List.forall_mem_cons, List.forall_mem_singleton]
    refine ⟨.string, .object (by decide) ?_⟩
    rw [List.forall_mem_singleton]
    exact .number
  have hfilled : type.applyDefaults v = filled := rfl
  have hnote : v.part? [.item 0, .key "note"] = some .unknown := rfl
  have hreaches : Reaches (type, filled) (.object disk, .object size) :=
    .tail (.tail .refl (.listItem List.mem_cons_self))
      (.declared (a := ("disk", _)) (List.mem_cons_of_mem _ List.mem_cons_self) rfl)
  obtain ⟨hagain, hdefaults, hkept⟩ := applyDefaults_completes ht v
  rw [hfilled] at hagain hdefaults hkept
  obtain ⟨w, hw, hunknown⟩ := hkept _ _ hnote (by simp)
  exact ⟨ht, hfilled, hagain, hdefaults _ _ hreaches, hw.trans (congrArg some hunknown)⟩

end TypeSpec
end Preflight
