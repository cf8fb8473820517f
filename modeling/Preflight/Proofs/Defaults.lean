import Preflight.Proofs.Conformance
import Preflight.TypeSpec.Decoding

/-!
# Defaults of optional attributes

Filling in defaults neither causes a conversion to fail nor keeps it from failing.

* `TypeSpec.Sound` is what reading a type gives: attribute names are distinct, and the default of an
  attribute converts to itself at the attribute's type (`TypeSpec.sound_of_decode`).
* Whether a conversion succeeds is a matter of the parts of the value: of the items, or of what is
  found under the names of the attributes.
* `TypeSpec.succeeds_applyDefaults`: at a sound type a value converts exactly if it does with its
  defaults filled in. `TypeSpec.convert_applyDefaults_iff` says so of the types that are read.
-/

namespace Preflight

/-! ### Sound types -/

namespace TypeSpec

theorem Every.mono {P Q : List (String × AttributeSpec) → Prop} (hPQ : ∀ as, P as → Q as)
    {type : TypeSpec} (h : type.Every P) : type.Every Q := by
  induction h with
  | any => exact .any
  | string => exact .string
  | number => exact .number
  | bool => exact .bool
  | list _ ih => exact .list ih
  | set _ ih => exact .set ih
  | map _ ih => exact .map ih
  | tuple _ ih => exact .tuple ih
  | object hP _ ih => exact .object (hPQ _ hP) ih

theorem Every.and {P Q : List (String × AttributeSpec) → Prop} {type : TypeSpec}
    (hP : type.Every P) (hQ : type.Every Q) : type.Every fun as => P as ∧ Q as := by
  induction hP with
  | any => exact .any
  | string => exact .string
  | number => exact .number
  | bool => exact .bool
  | list _ ih =>
    cases hQ with
    | list h => exact .list (ih h)
  | set _ ih =>
    cases hQ with
    | set h => exact .set (ih h)
  | map _ ih =>
    cases hQ with
    | map h => exact .map (ih h)
  | tuple _ ih =>
    cases hQ with
    | tuple h => exact .tuple fun t ht => ih t ht (h t ht)
  | object hP _ ih =>
    cases hQ with
    | object hQ h => exact .object ⟨hP, hQ⟩ fun a ha => ih a ha (h a ha)

/-- Attributes with distinct names whose defaults convert to themselves. -/
structure SoundAttributes (attributes : List (String × AttributeSpec)) : Prop where
  names : (Entries.keys attributes).Nodup
  defaults : ∀ a ∈ attributes, ∀ v, a.2.default? = some v → a.2.type.convert v = .ok v

/-- Inside a type names are distinct and defaults convert to themselves. -/
def Sound : TypeSpec → Prop := Every SoundAttributes

theorem Sound.distinct {type : TypeSpec} (h : type.Sound) : type.Distinct :=
  Every.mono (fun _ has => has.names) h

end TypeSpec

/-! ### Reading gives sound types -/

namespace TypeSpec

theorem ofExpr_call_single (function : String) (e : Expr) (expandFinal : Bool) :
    ofExpr (.call function [e] expandFinal) =
      if function = "list" then list <$> ofExpr e
      else if function = "set" then set <$> ofExpr e
      else if function = "map" then map <$> ofExpr e
      else match e with
        | .array elements =>
          if function = "tuple" then tuple <$> ofExprs elements else .error (refusal function)
        | .object items =>
          if function = "object" then
            (fun as => object (Entries.ofList as)) <$>
              ofItems (Expr.call function [.object items] expandFinal).text items
          else .error (refusal function)
        | _ => .error (refusal function) := by
  cases e <;> simp [ofExpr]

/-- A call that is a type has one argument: an element type, element types or attributes. -/
theorem ofExpr_call_eq_ok {function : String} {args : List Expr} {expandFinal : Bool}
    {type : TypeSpec} (h : ofExpr (.call function args expandFinal) = .ok type) :
    (∃ e element, args = [e] ∧ ofExpr e = .ok element ∧
      (type = .list element ∨ type = .set element ∨ type = .map element)) ∨
    (∃ es elements, args = [.array es] ∧ ofExprs es = .ok elements ∧ type = .tuple elements) ∨
    ∃ whole items attributes, args = [.object items] ∧ ofItems whole items = .ok attributes ∧
      type = .object (Entries.ofList attributes) := by
  match args with
  | [] => simp [ofExpr] at h
  | [e] =>
    rw [ofExpr_call_single] at h
    by_cases hlist : function = "list"
    · rw [if_pos hlist] at h
      obtain ⟨element, he, rfl⟩ := map_eq_ok.1 h
      exact Or.inl ⟨e, element, rfl, he, Or.inl rfl⟩
    rw [if_neg hlist] at h
    by_cases hset : function = "set"
    · rw [if_pos hset] at h
      obtain ⟨element, he, rfl⟩ := map_eq_ok.1 h
      exact Or.inl ⟨e, element, rfl, he, Or.inr (Or.inl rfl)⟩
    rw [if_neg hset] at h
    by_cases hmap : function = "map"
    · rw [if_pos hmap] at h
      obtain ⟨element, he, rfl⟩ := map_eq_ok.1 h
      exact Or.inl ⟨e, element, rfl, he, Or.inr (Or.inr rfl)⟩
    rw [if_neg hmap] at h
    right
    split at h
    · split_ifs at h
      obtain ⟨elements, hes, rfl⟩ := map_eq_ok.1 h
      exact Or.inl ⟨_, elements, rfl, hes, rfl⟩
    · split_ifs at h
      obtain ⟨attributes, has, rfl⟩ := map_eq_ok.1 h
      exact Or.inr ⟨_, _, attributes, rfl, has, rfl⟩
    · cases h
  | _ :: _ :: _ => simp [ofExpr] at h

/-- The entries of an object type are read in turn, each as an optional attribute or as a type. -/
theorem ofItems_cons_eq_ok {whole : String} {key : Key} {e : Expr} {items : List (Key × Expr)}
    {attributes : List (String × AttributeSpec)}
    (h : ofItems whole ((key, e) :: items) = .ok attributes) :
    ∃ name a rest, attributes = (name, a) :: rest ∧ ofItems whole items = .ok rest ∧
      ((∃ function args expandFinal, e = .call function args expandFinal ∧
        ofOptional name args = .ok a) ∨ ∃ type, ofExpr e = .ok type ∧ a = .required type) := by
  rw [ofItems] at h
  cases hk : key.fixedName? with
  | none => simp [hk] at h
  | some name =>
    simp only [hk] at h
    split at h
    · split_ifs at h
      · obtain ⟨a, ha, h⟩ := bind_eq_ok.1 h
        obtain ⟨rest, hrest, h⟩ := bind_eq_ok.1 h
        cases h
        exact ⟨name, a, rest, rfl, hrest, Or.inl ⟨_, _, _, rfl, ha⟩⟩
      · obtain ⟨a, ha, h⟩ := bind_eq_ok.1 h
        obtain ⟨type, htype, rfl⟩ := map_eq_ok.1 ha
        obtain ⟨rest, hrest, h⟩ := bind_eq_ok.1 h
        cases h
        exact ⟨name, _, rest, rfl, hrest, Or.inr ⟨type, htype, rfl⟩⟩
    · obtain ⟨a, ha, h⟩ := bind_eq_ok.1 h
      obtain ⟨type, htype, rfl⟩ := map_eq_ok.1 ha
      obtain ⟨rest, hrest, h⟩ := bind_eq_ok.1 h
      cases h
      exact ⟨name, _, rest, rfl, hrest, Or.inr ⟨type, htype, rfl⟩⟩

/-- The default of an optional attribute is what a conversion to its type gives. -/
theorem decodeDefault_eq_ok {name : String} {type : TypeSpec} {e : Expr} {v : Value}
    (h : decodeDefault name type e = .ok v) : ∃ u, type.convert u = .ok v := by
  rw [decodeDefault] at h
  split at h
  · cases h
  · split at h
    · cases h
    · rename_i d _ w hw
      cases h
      exact ⟨_, hw⟩

/-- Read attributes have sound types, and defaults that convert to themselves. -/
def SoundAttribute (a : AttributeSpec) : Prop :=
  a.type.Sound ∧ ∀ v, a.default? = some v → a.type.convert v = .ok v

theorem sound_object_ofList {attributes : List (String × AttributeSpec)}
    (h : ∀ a ∈ attributes, SoundAttribute a.2) : (object (Entries.ofList attributes)).Sound := by
  have hempty : (Entries.keys ([] : Entries AttributeSpec)).Nodup := List.nodup_nil
  obtain ⟨hnames, hmem⟩ := Entries.nodup_keys_insertAll hempty attributes
  have hall : ∀ a ∈ Entries.ofList attributes, SoundAttribute a.2 := fun a ha =>
    h a ((hmem a ha).resolve_left List.not_mem_nil)
  exact .object ⟨hnames, fun a ha => (hall a ha).2⟩ fun a ha => (hall a ha).1

theorem sound_of_ofWord? {word : String} {type : TypeSpec} (h : ofWord? word = some type) :
    type.Sound := by
  unfold ofWord? at h
  split at h <;> cases h
  · exact .string
  · exact .number
  · exact .bool
  · exact .any

mutual
theorem sound_ofExpr (e : Expr) {type : TypeSpec} (h : ofExpr e = .ok type) : type.Sound := by
  match e with
  | .variable word =>
    rw [ofExpr] at h
    cases hw : ofWord? word with
    | none => simp [hw] at h
    | some keyword =>
      simp only [hw, Except.ok.injEq] at h
      exact h ▸ sound_of_ofWord? hw
  | .paren inner =>
    rw [ofExpr] at h
    exact sound_ofExpr inner h
  | .call function args expandFinal =>
    rcases ofExpr_call_eq_ok h with ⟨e, element, rfl, he, htype⟩ | ⟨es, elements, rfl, hes, rfl⟩ |
      ⟨whole, items, attributes, rfl, hitems, rfl⟩
    · have hsound : element.Sound := sound_ofExpr e he
      rcases htype with rfl | rfl | rfl
      · exact .list hsound
      · exact .set hsound
      · exact .map hsound
    · exact .tuple (sound_ofExprs es hes)
    · exact sound_object_ofList (sound_ofItems items hitems)
  | .null | .bool _ | .number _ | .string _ | .array _ | .object _ | .template .. | .traversal ..
  | .conditional .. | .unary .. | .binary .. | .forList .. | .forObject .. => cases h
termination_by sizeOf e

theorem sound_ofExprs (es : List Expr) {types : List TypeSpec} (h : ofExprs es = .ok types) :
    ∀ type ∈ types, type.Sound := by
  match es with
  | [] =>
    cases h
    simp
  | e :: es =>
    rw [ofExprs] at h
    obtain ⟨type, he, h⟩ := bind_eq_ok.1 h
    obtain ⟨types, hes, h⟩ := bind_eq_ok.1 h
    cases h
    exact List.forall_mem_cons.2 ⟨sound_ofExpr e he, sound_ofExprs es hes⟩
termination_by sizeOf es

theorem sound_ofItems (items : List (Key × Expr)) {whole : String}
    {attributes : List (String × AttributeSpec)} (h : ofItems whole items = .ok attributes) :
    ∀ a ∈ attributes, SoundAttribute a.2 := by
  match items with
  | [] =>
    cases h
    simp
  | (key, e) :: items =>
    obtain ⟨name, a, rest, rfl, hrest, ha⟩ := ofItems_cons_eq_ok h
    refine List.forall_mem_cons.2 ⟨?_, sound_ofItems items hrest⟩
    rcases ha with ⟨function, args, expandFinal, rfl, ha⟩ | ⟨type, htype, rfl⟩
    · exact sound_ofOptional args ha
    · exact ⟨sound_ofExpr e htype, fun v hv => by cases hv⟩
termination_by sizeOf items

theorem sound_ofOptional (args : List Expr) {name : String} {a : AttributeSpec}
    (h : ofOptional name args = .ok a) : SoundAttribute a := by
  match args with
  | [e] =>
    rw [ofOptional] at h
    obtain ⟨type, htype, rfl⟩ := map_eq_ok.1 h
    exact ⟨sound_ofExpr e htype, fun v hv => by cases hv⟩
  | [e, default] =>
    rw [ofOptional] at h
    obtain ⟨type, htype, h⟩ := bind_eq_ok.1 h
    obtain ⟨d, hd, h⟩ := bind_eq_ok.1 h
    cases h
    have hsound : type.Sound := sound_ofExpr e htype
    obtain ⟨u, hu⟩ := decodeDefault_eq_ok hd
    refine ⟨hsound, fun v hv => ?_⟩
    cases hv
    exact convert_of_conforms hsound.distinct (conforms_of_convert hsound.distinct hu)
  | [] => simp [ofOptional] at h
  | _ :: _ :: _ :: _ => simp [ofOptional] at h
termination_by sizeOf args
end

/-- Every type that is read is sound. -/
theorem sound_of_decode {e : Expr} {type : TypeSpec} (h : decode e = .ok type) : type.Sound := by
  unfold decode at h
  split at h
  · split at h
    · exact sound_ofExpr _ h
    · cases h
  · exact sound_ofExpr _ h

/-! ### Which conversions succeed -/

/-- A conversion gives a value. -/
def Conversion.Succeeds {α : Type} (x : Conversion α) : Prop := ∃ a, x = .ok a

open Conversion

theorem succeeds_map {α β : Type} {x : Conversion α} (f : α → β) :
    Succeeds (f <$> x) ↔ x.Succeeds := by
  constructor
  · rintro ⟨b, h⟩
    obtain ⟨a, ha, -⟩ := map_eq_ok.1 h
    exact ⟨a, ha⟩
  · rintro ⟨a, ha⟩
    exact ⟨f a, map_eq_ok.2 ⟨a, ha, rfl⟩⟩

/-- One conversion after another succeeds if both do. -/
theorem succeeds_cons {α β : Type} {x : Conversion α} {y : Conversion (List β)} (f : α → β) :
    Succeeds (do let a ← x; return f a :: (← y)) ↔ x.Succeeds ∧ y.Succeeds := by
  constructor
  · rintro ⟨bs, h⟩
    obtain ⟨a, ha, h⟩ := bind_eq_ok.1 h
    obtain ⟨bs, hbs, -⟩ := bind_eq_ok.1 h
    exact ⟨⟨a, ha⟩, bs, hbs⟩
  · rintro ⟨⟨a, rfl⟩, bs, rfl⟩
    exact ⟨f a :: bs, rfl⟩

theorem succeeds_mapM {α β : Type} {f : α → Conversion β} {as : List α} :
    Succeeds (as.mapM f) ↔ ∀ a ∈ as, Succeeds (f a) := by
  induction as with
  | nil => simp [Succeeds, pure, Except.pure]
  | cons a as ih =>
    rw [List.mapM_cons, List.forall_mem_cons, ← ih]
    exact succeeds_cons id

theorem succeeds_convertTuple_cons {type : TypeSpec} {types : List TypeSpec} {v : Value}
    {vs : List Value} : Succeeds (convertTuple (type :: types) (v :: vs)) ↔
      Succeeds (type.convert v) ∧ Succeeds (convertTuple types vs) := by
  rw [convertTuple]
  exact succeeds_cons id

/-- Attributes convert if what is found under each of their names does. -/
theorem succeeds_convertAttributes {attributes : List (String × AttributeSpec)}
    {entries : Entries Value} : Succeeds (convertAttributes attributes entries) ↔
      ∀ a ∈ attributes, Succeeds (convertAttribute a.1 a.2 (entries.get? a.1)) := by
  induction attributes with
  | nil => simp [convertAttributes, Succeeds]
  | cons a attributes ih =>
    rw [List.forall_mem_cons, ← ih, convertAttributes]
    exact succeeds_cons (Prod.mk a.1)

/-! ### Filling in -/

theorem length_applyTuple (types : List TypeSpec) (vs : List Value) :
    (applyTuple types vs).length = vs.length := by
  induction types generalizing vs with
  | nil => simp [applyTuple]
  | cons type types ih => cases vs <;> simp [applyTuple, ih]

theorem applyAttribute_eq (a : AttributeSpec) (v? : Option Value) :
    applyAttribute a v? = (v?.or a.default?).map a.type.applyDefaults := by
  cases a with
  | required type => cases v? <;> simp [applyAttribute, AttributeSpec.default?, AttributeSpec.type]
  | optional type default? =>
    rw [applyAttribute, AttributeSpec.default?, AttributeSpec.type]
    cases v?.or default? <;> rfl

theorem get?_applyAttributes_of_notMem {attributes : List (String × AttributeSpec)} {name : String}
    (h : name ∉ Entries.keys attributes) (entries : Entries Value) :
    (applyAttributes attributes entries).get? name = entries.get? name := by
  induction attributes generalizing entries with
  | nil => rw [applyAttributes]
  | cons a attributes ih =>
    obtain ⟨hname, htail⟩ := not_or.1 (mt List.mem_cons.2 h)
    rw [applyAttributes, ih htail]
    split
    · exact Entries.get?_insert_of_ne entries _ (Ne.symm hname)
    · rfl

/-- Under the name of an attribute is its value with defaults filled in, or its default, or what was
there. -/
theorem get?_applyAttributes {attributes : List (String × AttributeSpec)}
    (h : (Entries.keys attributes).Nodup) {a : String × AttributeSpec} (ha : a ∈ attributes)
    (entries : Entries Value) : (applyAttributes attributes entries).get? a.1 =
      (applyAttribute a.2 ((entries.get? a.1).filter fun v => !v.isNull)).or
        (entries.get? a.1) := by
  induction attributes generalizing entries with
  | nil => cases ha
  | cons b attributes ih =>
    obtain ⟨hb, htail⟩ := List.nodup_cons.1 h
    rw [applyAttributes]
    rcases List.mem_cons.1 ha with rfl | ha
    · rw [get?_applyAttributes_of_notMem hb]
      cases applyAttribute a.2 ((entries.get? a.1).filter fun v => !v.isNull) <;> simp
    · have hne : b.1 ≠ a.1 := fun hba => hb (hba ▸ List.mem_map_of_mem ha)
      rw [ih htail ha]
      split
      · rw [Entries.get?_insert_of_ne entries _ hne]
      · rfl

/-! ### Defaults and success -/

theorem succeeds_applyTuple {types : List TypeSpec}
    (ih : ∀ type ∈ types, ∀ v,
      Succeeds (type.convert (type.applyDefaults v)) ↔ Succeeds (type.convert v))
    (vs : List Value) :
    Succeeds (convertTuple types (applyTuple types vs)) ↔ Succeeds (convertTuple types vs) := by
  induction types generalizing vs with
  | nil => simp [applyTuple]
  | cons type types ihs =>
    cases vs with
    | nil => simp [applyTuple]
    | cons v vs =>
      rw [applyTuple, succeeds_convertTuple_cons, succeeds_convertTuple_cons,
        ih type List.mem_cons_self, ihs fun t ht => ih t (List.mem_cons_of_mem _ ht)]

/-- An attribute that has a default converts while it is absent or null. -/
theorem succeeds_of_default? {name : String} {a : AttributeSpec} {d : Value}
    (hd : a.default? = some d) {v? : Option Value} (h : (v?.filter fun v => !v.isNull) = none) :
    Succeeds (convertAttribute name a v?) := by
  cases v? with
  | none =>
    cases a with
    | required type => cases hd
    | optional type default? => exact ⟨.null, by rw [convertAttribute]⟩
  | some v =>
    obtain rfl : v = .null := by cases v <;> first | rfl | cases h
    rw [convertAttribute_some]
    exact ⟨.null, convert_null a.type⟩

/-- An attribute converts exactly if it does after its default is filled in. -/
theorem succeeds_applyAttribute {name : String} {a : AttributeSpec}
    (ih : ∀ v, Succeeds (a.type.convert (a.type.applyDefaults v)) ↔ Succeeds (a.type.convert v))
    (hdefault : ∀ v, a.default? = some v → a.type.convert v = .ok v) (v? : Option Value) :
    Succeeds (convertAttribute name a
        ((applyAttribute a (v?.filter fun v => !v.isNull)).or v?)) ↔
      Succeeds (convertAttribute name a v?) := by
  have hsome : ∀ v, Succeeds (convertAttribute name a (some (a.type.applyDefaults v))) ↔
      Succeeds (a.type.convert v) := fun v => by rw [convertAttribute_some, ih]
  rw [applyAttribute_eq]
  cases hv : v?.filter fun v => !v.isNull with
  | some v =>
    rw [(Option.filter_eq_some_iff.1 hv).1, convertAttribute_some]
    exact hsome v
  | none =>
    cases hd : a.default? with
    | none => rfl
    | some d => exact iff_of_true ((hsome d).2 ⟨d, hdefault d hd⟩) (succeeds_of_default? hd hv)

/-- Filling in defaults does not change whether a value converts. -/
theorem succeeds_applyDefaults {type : TypeSpec} (h : type.Sound) (v : Value) :
    Succeeds (type.convert (type.applyDefaults v)) ↔ Succeeds (type.convert v) := by
  induction h generalizing v with
  | any => simp [applyDefaults]
  | string => simp [applyDefaults]
  | number => simp [applyDefaults]
  | bool => simp [applyDefaults]
  | list _ ih =>
    cases v with
    | list items =>
      rw [applyDefaults, convert_list_list, convert_list_list, succeeds_map, succeeds_map,
        succeeds_mapM, succeeds_mapM, List.forall_mem_map]
      exact forall₂_congr fun v _ => ih v
    | _ => simp [applyDefaults]
  | set _ ih =>
    cases v with
    | list items =>
      rw [applyDefaults, convert_set_list, convert_set_list, succeeds_map, succeeds_map,
        succeeds_mapM, succeeds_mapM, List.forall_mem_map]
      exact forall₂_congr fun v _ => ih v
    | _ => simp [applyDefaults]
  | map _ ih =>
    cases v with
    | object entries =>
      rw [applyDefaults, convert_map_object, convert_map_object, succeeds_map, succeeds_map,
        succeeds_mapM, succeeds_mapM, List.forall_mem_map]
      refine forall₂_congr fun e _ => ?_
      rw [succeeds_map, succeeds_map]
      exact ih e.2
    | _ => simp [applyDefaults]
  | @tuple elements _ ih =>
    cases v with
    | list items =>
      rw [applyDefaults, convert_tuple_list, convert_tuple_list, length_applyTuple]
      by_cases hl : elements.length = items.length
      · rw [if_pos hl, if_pos hl, succeeds_map, succeeds_map]
        exact succeeds_applyTuple ih items
      · rw [if_neg hl, if_neg hl]
    | _ => simp [applyDefaults]
  | @object attributes hattributes _ ih =>
    cases v with
    | object entries =>
      rw [applyDefaults, convert_object_object, convert_object_object, succeeds_map, succeeds_map,
        succeeds_convertAttributes, succeeds_convertAttributes]
      refine forall₂_congr fun a ha => ?_
      rw [get?_applyAttributes hattributes.names ha]
      exact succeeds_applyAttribute (ih a ha) (hattributes.defaults a ha) _
    | _ => simp [applyDefaults]

/-- A type that was read has defaults of optional attributes only, each converted to the type of its
attribute. So filling in defaults neither makes a conversion fail nor keeps one from failing. -/
theorem convert_applyDefaults_iff {e : Expr} {type : TypeSpec} (h : decode e = .ok type) :
    type.Sound ∧ ∀ v,
      (∃ w, type.convert (type.applyDefaults v) = .ok w) ↔ ∃ w, type.convert v = .ok w := by
  have hsound : type.Sound := sound_of_decode h
  exact ⟨hsound, succeeds_applyDefaults hsound⟩

/-- The default `{}` of an attribute is completed with the default of an attribute inside it. An object
without its required attribute does not convert, however many defaults it is given. -/
theorem convert_applyDefaults_iff_disk :
    let disk : Expr := .call "object" [.object [(.name "encrypted",
      .call "optional" [.variable "bool", .string "true"] false)]] false
    let e : Expr := .call "object" [.object [(.name "image", .variable "string"),
      (.name "disk", .call "optional" [disk, .object []] false)]] false
    let type : TypeSpec := .object [("image", .required .string),
      ("disk", .optional (.object [("encrypted", .optional .bool (some (.bool true)))])
        (some (.object [("encrypted", .null)])))]
    let v : Value := .object [("image", .string "debian")]
    let filled : Value :=
      .object [("image", .string "debian"), ("disk", .object [("encrypted", .bool true)])]
    let u : Value := .object [("disk", .object [])]
    decode e = .ok type ∧ type.applyDefaults v = filled ∧ type.convert filled = .ok filled ∧
      (∃ w, type.convert v = .ok w) ∧
      type.convert u = .error (.missingAttribute "image") ∧
      ¬ ∃ w, type.convert (type.applyDefaults u) = .ok w := by
  intro disk e type v filled u
  have htype : decode e = .ok type := rfl
  have hfilled : type.applyDefaults v = filled := rfl
  have hok : type.convert filled = .ok filled := rfl
  have hmissing : type.convert u = .error (.missingAttribute "image") := rfl
  clear_value disk e type v filled u
  obtain ⟨-, hiff⟩ := convert_applyDefaults_iff htype
  refine ⟨htype, hfilled, hok, ?_, hmissing, ?_⟩
  · exact (hiff v).1 ⟨filled, hfilled ▸ hok⟩
  · rw [hiff u, hmissing]
    simp

end TypeSpec
end Preflight
