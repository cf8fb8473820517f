import Mathlib.Data.List.Forall2
import Preflight.TypeSpec.Basic

/-!
# Values of a type

Conversion projects all values onto the values of a type.

* `TypeSpec.Conforms` says which values are of a type as they stand: null and unknown ones are of
  every type, an object has exactly the declared attributes in their order, and no two items of a set
  are equal.
* What a conversion gives conforms to the type (`TypeSpec.conforms_of_convert`), and what conforms is
  left as it is (`TypeSpec.convert_of_conforms`); `TypeSpec.convert_projects` has both.
* Types are read with distinct attribute names only. `TypeSpec.Every` carries such a condition through
  a type, and proofs about all types are inductions on it.
-/

namespace Preflight

/-! ### Steps that may fail -/

section Except

variable {ε α β : Type}

theorem map_eq_ok {x : Except ε α} {f : α → β} {b : β} :
    f <$> x = .ok b ↔ ∃ a, x = .ok a ∧ f a = b := by
  cases x <;> simp [Functor.map, Except.map]

theorem bind_eq_ok {x : Except ε α} {f : α → Except ε β} {b : β} :
    x >>= f = .ok b ↔ ∃ a, x = .ok a ∧ f a = .ok b := by
  cases x <;> simp [bind, Except.bind]

/-- A list goes through a step if each of its members does. -/
theorem mapM_eq_ok {f : α → Except ε β} {as : List α} {bs : List β} :
    as.mapM f = .ok bs ↔ List.Forall₂ (fun a b => f a = .ok b) as bs := by
  induction as generalizing bs with
  | nil =>
    rw [List.mapM_nil]
    constructor
    · rintro ⟨⟩
      exact .nil
    · rintro ⟨⟩
      rfl
  | cons a as ih =>
    simp only [List.mapM_cons, bind_eq_ok, ih, List.forall₂_cons_left_iff]
    constructor
    · rintro ⟨b, hb, bs', hbs, h⟩
      cases h
      exact ⟨b, bs', hb, hbs, rfl⟩
    · rintro ⟨b, bs', hb, hbs, rfl⟩
      exact ⟨b, hb, bs', hbs, rfl⟩

theorem exists_of_mem_mapM {f : α → Except ε β} {as : List α} {bs : List β}
    (h : as.mapM f = .ok bs) {b : β} (hb : b ∈ bs) : ∃ a ∈ as, f a = .ok b := by
  replace h := mapM_eq_ok.1 h
  induction h with
  | nil => cases hb
  | cons hab _ ih =>
    rcases List.mem_cons.1 hb with rfl | hb
    · exact ⟨_, List.mem_cons_self, hab⟩
    · obtain ⟨a, ha, hab⟩ := ih hb
      exact ⟨a, List.mem_cons_of_mem _ ha, hab⟩

end Except

/-! ### Lists without equal items -/

/-- Values that do not compare as equal. -/
def Value.Unequal (v w : Value) : Prop := v.equal w = false

theorem addUnique_of_unequal {vs : List Value} {w : Value} (h : ∀ v ∈ vs, v.Unequal w) :
    addUnique vs w = vs ++ [w] := by
  have hw : w.among vs = false := by
    rw [Value.among, List.any_eq_false]
    intro v hv
    rw [h v hv]
    exact Bool.false_ne_true
  rw [addUnique, hw, if_neg Bool.false_ne_true]

theorem mem_of_mem_addUnique {vs : List Value} {v w : Value} (h : v ∈ addUnique vs w) :
    v ∈ vs ∨ v = w := by
  rw [addUnique] at h
  by_cases hw : w.among vs = true
  · rw [if_pos hw] at h
    exact Or.inl h
  · rw [if_neg hw] at h
    simpa using h

theorem pairwise_addUnique {vs : List Value} (h : vs.Pairwise Value.Unequal) (w : Value) :
    (addUnique vs w).Pairwise Value.Unequal := by
  by_cases hw : w.among vs = true
  · rwa [addUnique, if_pos hw]
  · have hvs : ∀ v ∈ vs, v.Unequal w := by
      rw [Value.among, List.any_eq_true] at hw
      exact fun v hv => Bool.eq_false_iff.2 fun heq => hw ⟨v, hv, heq⟩
    rw [addUnique_of_unequal hvs, List.pairwise_append]
    exact ⟨h, List.pairwise_singleton _ _, fun v hv x hx => List.mem_singleton.1 hx ▸ hvs v hv⟩

/-- Adding values one after another leaves no two equal, and adds no others. -/
theorem pairwise_foldl_addUnique {vs : List Value} (h : vs.Pairwise Value.Unequal)
    (ws : List Value) : (ws.foldl addUnique vs).Pairwise Value.Unequal ∧
      ∀ v ∈ ws.foldl addUnique vs, v ∈ vs ∨ v ∈ ws := by
  induction ws generalizing vs with
  | nil => exact ⟨h, fun v hv => Or.inl hv⟩
  | cons w ws ih =>
    obtain ⟨hp, hm⟩ := ih (pairwise_addUnique h w)
    refine ⟨hp, fun v hv => ?_⟩
    rcases hm v hv with hv | hv
    · rcases mem_of_mem_addUnique hv with hv | rfl
      · exact Or.inl hv
      · exact Or.inr List.mem_cons_self
    · exact Or.inr (List.mem_cons_of_mem _ hv)

/-- If no two are equal then all are added. -/
theorem foldl_addUnique_of_pairwise {vs ws : List Value} (h : (vs ++ ws).Pairwise Value.Unequal) :
    ws.foldl addUnique vs = vs ++ ws := by
  induction ws generalizing vs with
  | nil => simp
  | cons w ws ih =>
    have hw : ∀ v ∈ vs, v.Unequal w := fun v hv =>
      (List.pairwise_append.1 h).2.2 v hv w List.mem_cons_self
    rw [List.foldl_cons, addUnique_of_unequal hw, ih (by simpa using h)]
    simp

theorem foldlM_addUnique {ε α : Type} (f : α → Except ε Value) (as : List α) (vs : List Value) :
    as.foldlM (fun values a => do return addUnique values (← f a)) vs =
      (fun ws => ws.foldl addUnique vs) <$> as.mapM f := by
  induction as generalizing vs with
  | nil => rfl
  | cons a as ih =>
    rw [List.foldlM_cons, List.mapM_cons]
    cases f a with
    | error err => rfl
    | ok w =>
      refine (ih (addUnique vs w)).trans ?_
      cases as.mapM f <;> rfl

/-! ### Attributes -/

/-- The type of an attribute. -/
def AttributeSpec.type : AttributeSpec → TypeSpec
  | .required type => type
  | .optional type _ => type

/-- The default of an attribute; only an optional one has any. -/
def AttributeSpec.default? : AttributeSpec → Option Value
  | .required _ => none
  | .optional _ default? => default?

namespace TypeSpec

/-- All object types inside a type, itself included, declare attributes with some property. -/
inductive Every (P : List (String × AttributeSpec) → Prop) : TypeSpec → Prop
  | any : Every P .any
  | string : Every P .string
  | number : Every P .number
  | bool : Every P .bool
  | list {element : TypeSpec} (h : Every P element) : Every P (.list element)
  | set {element : TypeSpec} (h : Every P element) : Every P (.set element)
  | map {element : TypeSpec} (h : Every P element) : Every P (.map element)
  | tuple {elements : List TypeSpec} (h : ∀ type ∈ elements, Every P type) :
    Every P (.tuple elements)
  | object {attributes : List (String × AttributeSpec)} (hP : P attributes)
    (h : ∀ a ∈ attributes, Every P a.2.type) : Every P (.object attributes)

/-- No object type inside a type declares a name twice. -/
def Distinct : TypeSpec → Prop := Every fun attributes => (Entries.keys attributes).Nodup

/-- A value is of a type as it stands. -/
inductive Conforms : TypeSpec → Value → Prop
  | null (type : TypeSpec) : Conforms type .null
  | unknown (type : TypeSpec) : Conforms type .unknown
  | any (v : Value) : Conforms .any v
  | string (s : String) : Conforms .string (.string s)
  | number (n : Number) : Conforms .number (.number n)
  | bool (b : Bool) : Conforms .bool (.bool b)
  | list {element : TypeSpec} {items : List Value} (h : ∀ v ∈ items, Conforms element v) :
    Conforms (.list element) (.list items)
  | set {element : TypeSpec} {items : List Value} (h : ∀ v ∈ items, Conforms element v)
    (hunequal : items.Pairwise Value.Unequal) : Conforms (.set element) (.list items)
  | map {element : TypeSpec} {entries : Entries Value} (h : ∀ e ∈ entries, Conforms element e.2) :
    Conforms (.map element) (.object entries)
  | tuple {elements : List TypeSpec} {items : List Value} (h : List.Forall₂ Conforms elements items) :
    Conforms (.tuple elements) (.list items)
  | object {attributes : List (String × AttributeSpec)} {entries : Entries Value}
    (hkeys : entries.keys = Entries.keys attributes)
    (h : List.Forall₂ Conforms (attributes.map fun a => a.2.type) (entries.map Prod.snd)) :
    Conforms (.object attributes) (.object entries)

/-! ### What conversions do -/

theorem unlessOpen_eq_ok {rule : Value → Conversion Value} {v w : Value}
    (h : unlessOpen rule v = .ok w) : w = .null ∨ w = .unknown ∨ rule v = .ok w := by
  cases v with
  | null => exact Or.inl (Except.ok.inj h).symm
  | unknown => exact Or.inr (Or.inl (Except.ok.inj h).symm)
  | _ => exact Or.inr (Or.inr h)

/-- A conversion by a rule conforms if the rule gives what conforms. -/
theorem conforms_of_unlessOpen {type : TypeSpec} {rule : Value → Conversion Value} {v w : Value}
    (h : unlessOpen rule v = .ok w) (hrule : rule v = .ok w → type.Conforms w) :
    type.Conforms w := by
  rcases unlessOpen_eq_ok h with rfl | rfl | h
  · exact .null type
  · exact .unknown type
  · exact hrule h

theorem convert_list_list (element : TypeSpec) (items : List Value) :
    (list element).convert (.list items) = Value.list <$> items.mapM element.convert := by
  rw [convert]
  rfl

theorem convert_set_list (element : TypeSpec) (items : List Value) :
    (set element).convert (.list items) =
      (fun ws => Value.list (ws.foldl addUnique [])) <$> items.mapM element.convert := by
  rw [convert]
  exact (congrArg _ (foldlM_addUnique element.convert items [])).trans (Functor.map_map ..)

theorem convert_map_object (element : TypeSpec) (entries : Entries Value) :
    (map element).convert (.object entries) =
      Value.object <$> entries.mapM fun e => Prod.mk e.1 <$> element.convert e.2 := by
  rw [convert]
  rfl

theorem convert_tuple_list (elements : List TypeSpec) (items : List Value) :
    (tuple elements).convert (.list items) =
      if elements.length = items.length then Value.list <$> convertTuple elements items
      else .error (.tupleLength elements.length items.length) := by
  rw [convert]
  rfl

theorem convert_object_object (attributes : List (String × AttributeSpec))
    (entries : Entries Value) : (object attributes).convert (.object entries) =
      Value.object <$> convertAttributes attributes entries := by
  rw [convert]
  rfl

theorem convertAttribute_some (name : String) (a : AttributeSpec) (v : Value) :
    convertAttribute name a (some v) = a.type.convert v := by
  cases a <;> rw [convertAttribute] <;> rfl

theorem convertAttribute_none {name : String} {a : AttributeSpec} {w : Value}
    (h : convertAttribute name a none = .ok w) : w = .null := by
  cases a with
  | required type => simp [convertAttribute] at h
  | optional type default? =>
    rw [convertAttribute] at h
    exact (Except.ok.inj h).symm

/-! ### Conversions give what conforms -/

theorem conforms_of_convertString {v w : Value} (h : convertString v = .ok w) :
    Conforms .string w := by
  cases v with
  | string | number | bool =>
    cases h
    exact .string _
  | _ => cases h

theorem conforms_of_convertNumber {v w : Value} (h : convertNumber v = .ok w) :
    Conforms .number w := by
  cases v with
  | number =>
    cases h
    exact .number _
  | string s =>
    rw [convertNumber] at h
    split at h
    · cases h
      exact .number _
    · cases h
  | _ => cases h

theorem conforms_of_convertBool {v w : Value} (h : convertBool v = .ok w) : Conforms .bool w := by
  cases v with
  | bool =>
    cases h
    exact .bool _
  | string s =>
    rw [convertBool] at h
    split_ifs at h <;> cases h <;> exact .bool _
  | _ => cases h

theorem conforms_of_convertTuple {types : List TypeSpec}
    (ih : ∀ type ∈ types, ∀ {v w}, type.convert v = .ok w → type.Conforms w)
    {vs ws : List Value} (hl : types.length = vs.length) (h : convertTuple types vs = .ok ws) :
    List.Forall₂ Conforms types ws := by
  induction types generalizing vs ws with
  | nil =>
    cases h
    exact .nil
  | cons type types ihs =>
    cases vs with
    | nil => cases hl
    | cons v vs =>
      rw [convertTuple] at h
      obtain ⟨w, hw, h⟩ := bind_eq_ok.1 h
      obtain ⟨ws, hws, h⟩ := bind_eq_ok.1 h
      cases h
      exact .cons (ih type List.mem_cons_self hw)
        (ihs (fun t ht => ih t (List.mem_cons_of_mem _ ht)) (Nat.succ.inj hl) hws)

theorem conforms_of_convertAttributes {attributes : List (String × AttributeSpec)}
    (ih : ∀ a ∈ attributes, ∀ {v w}, a.2.type.convert v = .ok w → a.2.type.Conforms w)
    {entries : Entries Value} {ws : List (String × Value)}
    (h : convertAttributes attributes entries = .ok ws) :
    (object attributes).Conforms (.object ws) := by
  have hws : Entries.keys ws = Entries.keys attributes ∧
      List.Forall₂ Conforms (attributes.map fun a => a.2.type) (ws.map Prod.snd) := by
    induction attributes generalizing ws with
    | nil =>
      cases h
      exact ⟨rfl, .nil⟩
    | cons a attributes ihs =>
      rw [convertAttributes] at h
      obtain ⟨w, hw, h⟩ := bind_eq_ok.1 h
      obtain ⟨ws, hws, h⟩ := bind_eq_ok.1 h
      cases h
      obtain ⟨hkeys, hall⟩ := ihs (fun b hb => ih b (List.mem_cons_of_mem _ hb)) hws
      refine ⟨congrArg (List.cons a.1) hkeys, .cons ?_ hall⟩
      cases hv : entries.get? a.1 with
      | some v =>
        rw [hv, convertAttribute_some] at hw
        exact ih a List.mem_cons_self hw
      | none =>
        rw [hv] at hw
        rw [convertAttribute_none hw]
        exact .null _
  exact .object hws.1 hws.2

/-- What a conversion gives is of the type. -/
theorem conforms_of_convert {type : TypeSpec} (ht : type.Distinct) {v w : Value}
    (h : type.convert v = .ok w) : type.Conforms w := by
  induction ht generalizing v w with
  | any => exact .any w
  | string =>
    rw [convert] at h
    exact conforms_of_unlessOpen h conforms_of_convertString
  | number =>
    rw [convert] at h
    exact conforms_of_unlessOpen h conforms_of_convertNumber
  | bool =>
    rw [convert] at h
    exact conforms_of_unlessOpen h conforms_of_convertBool
  | list _ ih =>
    rw [convert] at h
    refine conforms_of_unlessOpen h fun h => ?_
    split at h
    · obtain ⟨ws, hws, rfl⟩ := map_eq_ok.1 h
      refine .list fun w hw => ?_
      obtain ⟨v, -, hv⟩ := exists_of_mem_mapM hws hw
      exact ih hv
    · cases h
  | set _ ih =>
    rw [convert] at h
    refine conforms_of_unlessOpen h fun h => ?_
    split at h
    · obtain ⟨us, hus, rfl⟩ := map_eq_ok.1 h
      rw [foldlM_addUnique] at hus
      obtain ⟨ws, hws, rfl⟩ := map_eq_ok.1 hus
      obtain ⟨hunequal, hmem⟩ := pairwise_foldl_addUnique .nil ws
      refine .set (fun w hw => ?_) hunequal
      obtain ⟨v, -, hv⟩ := exists_of_mem_mapM hws ((hmem w hw).resolve_left List.not_mem_nil)
      exact ih hv
    · cases h
  | map _ ih =>
    rw [convert] at h
    refine conforms_of_unlessOpen h fun h => ?_
    split at h
    · obtain ⟨ws, hws, rfl⟩ := map_eq_ok.1 h
      refine .map fun e he => ?_
      obtain ⟨a, -, ha⟩ := exists_of_mem_mapM hws he
      obtain ⟨w, hw, rfl⟩ := map_eq_ok.1 ha
      exact ih hw
    · cases h
  | tuple _ ih =>
    rw [convert] at h
    refine conforms_of_unlessOpen h fun h => ?_
    split at h
    · split_ifs at h with hl
      obtain ⟨ws, hws, rfl⟩ := map_eq_ok.1 h
      exact .tuple (conforms_of_convertTuple ih hl hws)
    · cases h
  | object _ _ ih =>
    rw [convert] at h
    refine conforms_of_unlessOpen h fun h => ?_
    split at h
    · obtain ⟨ws, hws, rfl⟩ := map_eq_ok.1 h
      exact conforms_of_convertAttributes ih hws
    · cases h

/-! ### What conforms stays -/

theorem convertTuple_of_conforms {types : List TypeSpec}
    (ih : ∀ type ∈ types, ∀ {v}, type.Conforms v → type.convert v = .ok v) {vs : List Value}
    (h : List.Forall₂ Conforms types vs) : convertTuple types vs = .ok vs := by
  induction h with
  | nil => simp [convertTuple]
  | cons hv _ ihs =>
    rw [convertTuple, ih _ List.mem_cons_self hv,
      ihs fun t ht => ih t (List.mem_cons_of_mem _ ht)]
    rfl

/-- Attributes that conform are found under their names and stay. -/
theorem convertAttributes_of_conforms {attributes : List (String × AttributeSpec)}
    (ih : ∀ a ∈ attributes, ∀ {v}, a.2.type.Conforms v → a.2.type.convert v = .ok v)
    {entries ws : Entries Value} (hws : ∀ e ∈ ws, entries.get? e.1 = some e.2)
    (hkeys : ws.keys = Entries.keys attributes)
    (h : List.Forall₂ Conforms (attributes.map fun a => a.2.type) (ws.map Prod.snd)) :
    convertAttributes attributes entries = .ok ws := by
  induction attributes generalizing ws with
  | nil =>
    rw [List.map_eq_nil_iff.1 hkeys]
    simp [convertAttributes]
  | cons a attributes ihs =>
    cases ws with
    | nil => cases hkeys
    | cons e ws =>
      obtain ⟨name, v⟩ := e
      obtain ⟨hname, htail⟩ := List.cons.inj hkeys
      obtain rfl : name = a.1 := hname
      obtain ⟨hv, h⟩ := List.forall₂_cons.1 h
      rw [convertAttributes, hws (a.1, v) List.mem_cons_self, convertAttribute_some,
        ih a List.mem_cons_self hv, ihs (fun b hb => ih b (List.mem_cons_of_mem _ hb))
          (fun b hb => hws b (List.mem_cons_of_mem _ hb)) htail h]
      rfl

/-- What is of a type is left as it is. -/
theorem convert_of_conforms {type : TypeSpec} (ht : type.Distinct) {v : Value}
    (h : type.Conforms v) : type.convert v = .ok v := by
  induction ht generalizing v with
  | any => rw [convert]
  | string => cases h <;> rw [convert] <;> rfl
  | number => cases h <;> rw [convert] <;> rfl
  | bool => cases h <;> rw [convert] <;> rfl
  | list _ ih =>
    cases h with
    | null => exact convert_null _
    | unknown => exact convert_unknown _
    | list h =>
      rw [convert_list_list, mapM_eq_ok.2 (List.forall₂_same.2 fun v hv => ih (h v hv))]
      rfl
  | set _ ih =>
    cases h with
    | null => exact convert_null _
    | unknown => exact convert_unknown _
    | set h hunequal =>
      rw [convert_set_list, mapM_eq_ok.2 (List.forall₂_same.2 fun v hv => ih (h v hv))]
      exact congrArg (fun vs => Except.ok (Value.list vs)) (foldl_addUnique_of_pairwise hunequal)
  | map _ ih =>
    cases h with
    | null => exact convert_null _
    | unknown => exact convert_unknown _
    | map h =>
      rw [convert_map_object, mapM_eq_ok.2 (List.forall₂_same.2 fun e he => ?_)]
      · rfl
      · rw [ih (h e he)]
        rfl
  | tuple _ ih =>
    cases h with
    | null => exact convert_null _
    | unknown => exact convert_unknown _
    | tuple h =>
      rw [convert_tuple_list, if_pos h.length_eq, convertTuple_of_conforms ih h]
      rfl
  | object hnames _ ih =>
    cases h with
    | null => exact convert_null _
    | unknown => exact convert_unknown _
    | @object _ entries hkeys h =>
      -- The names are distinct, so each entry is found under its own name.
      have hget : ∀ e ∈ entries, entries.get? e.1 = some e.2 := fun e he =>
        (Entries.get?_eq_some_iff (hkeys ▸ hnames)).2 he
      rw [convert_object_object, convertAttributes_of_conforms ih hget hkeys h]
      rfl

/-- Conversion projects onto the values of a type: what it gives conforms to the type, it leaves as it
is exactly what conforms, and so converting twice is converting once. -/
theorem convert_projects {type : TypeSpec} (ht : type.Distinct) (v : Value) :
    (∀ w, type.convert v = .ok w → type.Conforms w ∧ type.convert w = .ok w) ∧
      (type.convert v = .ok v ↔ type.Conforms v) := by
  refine ⟨fun w h => ?_, conforms_of_convert ht, convert_of_conforms ht⟩
  have hw : type.Conforms w := conforms_of_convert ht h
  exact ⟨hw, convert_of_conforms ht hw⟩

/-- A string that holds a JSON array becomes a set without its repeated item, an attribute that is not
declared is dropped, and an optional one is null; the result stays. -/
theorem convert_projects_zones :
    let type : TypeSpec :=
      .object [("zones", .required (.set .string)), ("note", .optional .string none)]
    let v : Value := .object [("extra", .bool true), ("zones", .string "[\"b\", null, \"b\"]")]
    let w : Value := .object [("zones", .list [.string "b", .null]), ("note", .null)]
    type.Distinct ∧ type.convert v = .ok w ∧ ¬ type.Conforms v ∧ type.Conforms w ∧
      type.convert w = .ok w := by
  intro type v w
  have ht : type.Distinct := by
    refine .object (by decide) ?_
    rw [List.forall_mem_cons, List.forall_mem_singleton]
    exact ⟨.set .string, .string⟩
  have hv : type.convert v = .ok w := by
    simp only [type, v, w]
    cbv
  have hne : w ≠ v := by simp [v, w]
  -- From here on the values are not computed again.
  clear_value type v w
  obtain ⟨hw, hstays⟩ := (convert_projects ht v).1 w hv
  refine ⟨ht, hv, fun h => ?_, hw, hstays⟩
  have hvw : type.convert v = .ok v := (convert_projects ht v).2.2 h
  rw [hv] at hvw
  exact hne (Except.ok.inj hvw)

end TypeSpec
end Preflight
