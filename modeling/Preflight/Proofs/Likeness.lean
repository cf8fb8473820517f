import Preflight.Proofs.Defaults
import Preflight.Proofs.JsonReading
import Preflight.Proofs.Stopping

/-!
# Values that are alike

Values are alike if they differ in nothing that a conversion can notice.

* `NumberRelation` says which numbers count as the same. Neither texts nor comparisons may tell them
  apart.
* `Value.Like`: alike values have alike numbers at the same places, and their objects have the same
  names in some order. Nothing that is compared with them notices (`Value.Like.equal_eq`), and they are
  equal themselves (`Value.Like.equal`).
* `TypeSpec.convert_alike`: conversions of alike values both fail or give alike values.
-/

namespace Preflight

/-! ### The relation -/

/-- A relation of numbers that neither texts nor comparisons tell apart. -/
structure NumberRelation where
  rel : Number → Number → Prop
  refl (n : Number) : rel n n
  text_eq {m n : Number} (h : rel m n) : m.text = n.text
  equal_eq {m m' n n' : Number} (hm : rel m m') (hn : rel n n') : m.equal n = m'.equal n'

/-- Being the same number. -/
def NumberRelation.same : NumberRelation where
  rel := Eq
  refl _ := rfl
  text_eq h := congrArg Number.text h
  equal_eq hm hn := congrArg₂ Number.equal hm hn

/-- Values that differ at most in the order of the entries of objects and in numbers that are related. -/
inductive Value.Like (R : NumberRelation) : Value → Value → Prop
  | null : Like R .null .null
  | unknown : Like R .unknown .unknown
  | bool (b : Bool) : Like R (.bool b) (.bool b)
  | number {m n : Number} (h : R.rel m n) : Like R (.number m) (.number n)
  | string (s : String) : Like R (.string s) (.string s)
  | list {vs ws : List Value} (hl : vs.length = ws.length) (h : ∀ v w, (v, w) ∈ vs.zip ws → Like R v w) :
    Like R (.list vs) (.list ws)
  | object {es fs : Entries Value} (hes : es.keys.Nodup) (hfs : fs.keys.Nodup)
    (hkeys : ∀ key, key ∈ es.keys ↔ key ∈ fs.keys)
    (h : ∀ key v w, es.get? key = some v → fs.get? key = some w → Like R v w) :
    Like R (.object es) (.object fs)

theorem Number.equal_self (n : Number) : n.equal n = true := by
  cases n <;> simp [Number.equal]

namespace Value

variable {R : NumberRelation} {v v' w w' : Value}

theorem like_list {vs ws : List Value} :
    Like R (.list vs) (.list ws) ↔ List.Forall₂ (Like R) vs ws := by
  rw [List.forall₂_iff_zip]
  constructor
  · intro h
    cases h with
    | list hl h => exact ⟨hl, h _ _⟩
  · rintro ⟨hl, h⟩
    exact .list hl fun _ _ => h

/-- Under each name like objects have like values, or both none. -/
theorem like_object {es fs : Entries Value} : Like R (.object es) (.object fs) ↔
    es.keys.Nodup ∧ fs.keys.Nodup ∧ ∀ key, Option.Rel (Like R) (es.get? key) (fs.get? key) := by
  constructor
  · intro h
    cases h with
    | object hes hfs hkeys h =>
      refine ⟨hes, hfs, fun key => ?_⟩
      have hiff := hkeys key
      rw [← Entries.isSome_get?, ← Entries.isSome_get?] at hiff
      cases hv : es.get? key with
      | none =>
        cases hw : fs.get? key with
        | none => exact .none
        | some w => simp [hv, hw] at hiff
      | some v =>
        cases hw : fs.get? key with
        | none => simp [hv, hw] at hiff
        | some w => exact .some (h key v w hv hw)
  · rintro ⟨hes, hfs, h⟩
    refine .object hes hfs (fun key => ?_) fun key v w hv hw => ?_
    · have hrel := h key
      rw [← Entries.isSome_get?, ← Entries.isSome_get?]
      generalize es.get? key = v? at hrel ⊢
      generalize fs.get? key = w? at hrel ⊢
      cases hrel <;> simp
    · have hrel := h key
      rw [hv, hw] at hrel
      cases hrel with
      | some h => exact h

theorem like_object_of_forall₂ {es fs : Entries Value} (hes : es.keys.Nodup)
    (h : List.Forall₂ (fun e f => e.1 = f.1 ∧ Like R e.2 f.2) es fs) :
    Like R (.object es) (.object fs) := by
  have hkeys : es.keys = fs.keys := by
    clear hes
    induction h with
    | nil => rfl
    | cons hef _ ih => exact congrArg₂ List.cons hef.1 ih
  refine like_object.2 ⟨hes, hkeys ▸ hes, fun key => ?_⟩
  clear hes hkeys
  induction h with
  | nil => exact .none
  | @cons e f es fs hef _ ih =>
    obtain ⟨k, v⟩ := e
    obtain ⟨l, w⟩ := f
    obtain ⟨rfl, hvw⟩ := hef
    rw [Entries.get?_cons, Entries.get?_cons]
    by_cases hk : k = key
    · rw [if_pos hk, if_pos hk]
      exact .some hvw
    · rw [if_neg hk, if_neg hk]
      exact ih

/-! ### Comparisons -/

theorem length_eq_of_keys {es fs : Entries Value} (hes : es.keys.Nodup) (hfs : fs.keys.Nodup)
    (hkeys : ∀ key, key ∈ es.keys ↔ key ∈ fs.keys) : es.length = fs.length := by
  have hperm : es.keys.Perm fs.keys := (List.perm_ext_iff_of_nodup hes hfs).2 hkeys
  simpa [Entries.keys] using hperm.length_eq

theorem entriesWithin_iff_get? {es fs : Entries Value} (hes : es.keys.Nodup) :
    entriesWithin es fs = true ↔
      ∀ key v, es.get? key = some v → ∃ w, fs.get? key = some w ∧ v.equal w = true := by
  rw [entriesWithin_iff]
  constructor
  · intro h key v hv
    exact h (key, v) (Entries.mem_of_get? hv)
  · intro h e he
    exact h e.1 e.2 ((Entries.get?_eq_some_iff hes).2 he)

theorem equalItems_eq {vs vs' : List Value}
    (h : List.Forall₂ (fun v v' => ∀ w w', Like R w w' → v.equal w = v'.equal w') vs vs')
    {ws ws' : List Value} (hw : List.Forall₂ (Like R) ws ws') :
    equalItems vs ws = equalItems vs' ws' := by
  induction h generalizing ws ws' with
  | nil => cases hw <;> rfl
  | cons hv _ ih =>
    cases hw with
    | nil => rfl
    | cons hw hws => rw [equalItems, equalItems, hv _ _ hw, ih hws]

theorem equalItems_iff {vs ws : List Value} :
    equalItems vs ws = true ↔ List.Forall₂ (fun v w => v.equal w = true) vs ws := by
  induction vs generalizing ws with
  | nil => cases ws <;> simp [equalItems]
  | cons v vs ih => cases ws <;> simp [equalItems, ih]

/-- Like values are equal to the same values. -/
theorem Like.equal_eq (hv : Like R v v') (hw : Like R w w') : v.equal w = v'.equal w' := by
  induction hv generalizing w w' with
  | null => cases hw <;> rfl
  | unknown => cases hw <;> rfl
  | bool b => cases hw <;> rfl
  | string s => cases hw <;> rfl
  | number hm =>
    cases hw with
    | number hn => simpa only [equal] using R.equal_eq hm hn
    | _ => rfl
  | list hl _ ih =>
    cases hw with
    | list hl' hws =>
      rw [equal, equal]
      exact equalItems_eq (List.forall₂_iff_zip.2 ⟨hl, fun h _ _ hw => ih _ _ h hw⟩)
        (like_list.1 (.list hl' hws))
    | _ => rfl
  | object has has' hkeys hvs ih =>
    cases hw with
    | object hbs hbs' hkeys' hws =>
      obtain ⟨-, -, hrel⟩ := like_object.1 (.object has has' hkeys hvs)
      obtain ⟨-, -, hrel'⟩ := like_object.1 (.object hbs hbs' hkeys' hws)
      rw [equal, equal, length_eq_of_keys has has' hkeys, length_eq_of_keys hbs hbs' hkeys']
      congr 1
      rw [Bool.eq_iff_iff, entriesWithin_iff_get? has, entriesWithin_iff_get? has']
      refine forall_congr' fun key => ?_
      rcases rel_cases (hrel key) with ⟨ha, ha'⟩ | ⟨a, a', ha, ha', -⟩
      · simp [ha, ha']
      · rcases rel_cases (hrel' key) with ⟨hb, hb'⟩ | ⟨b, b', hb, hb', hbb⟩
        · simp [ha, ha', hb, hb']
        · simp [ha, ha', hb, hb', ih key a a' ha ha' hbb]
    | _ => rfl

/-- Like values are equal. -/
theorem Like.equal (h : Like R v w) : v.equal w = true := by
  induction h with
  | null => rfl
  | unknown => rfl
  | bool b => simp [Value.equal]
  | string s => simp [Value.equal]
  | @number m n h =>
    rw [Value.equal, ← R.equal_eq (R.refl m) h]
    exact m.equal_self
  | @list vs ws hl _ ih =>
    rw [Value.equal, equalItems_iff, List.forall₂_iff_zip]
    exact ⟨hl, ih _ _⟩
  | object hes hfs hkeys hvs ih =>
    obtain ⟨-, -, hrel⟩ := like_object.1 (.object hes hfs hkeys hvs)
    rw [Value.equal, length_eq_of_keys hes hfs hkeys, decide_eq_true rfl, Bool.true_and,
      entriesWithin_iff_get? hes]
    intro key v hv
    obtain ⟨w, hw, -⟩ := exists_of_rel (hrel key) hv
    exact ⟨w, hw, ih key v w hv hw⟩

theorem ofData_eq_map (ds : List Datum) : ofData ds = ds.map ofDatum := by
  induction ds with
  | nil => rfl
  | cons d ds ih => rw [ofData, ih, List.map_cons]

theorem ofDatumEntries_eq_map (es : List (String × Datum)) :
    ofDatumEntries es = es.map fun e => (e.1, ofDatum e.2) := by
  induction es with
  | nil => rfl
  | cons e es ih => rw [ofDatumEntries, ih, List.map_cons]

/-- Data with distinct names is like itself. -/
theorem Like.refl {P : Number → Prop} {d : Datum} (h : d.Regular P) :
    Like R (ofDatum d) (ofDatum d) := by
  induction h with
  | null => exact .null
  | bool b => exact .bool b
  | number _ => exact .number (R.refl _)
  | string s => exact .string s
  | list _ ih =>
    rw [ofDatum, like_list, ofData_eq_map, List.forall₂_map_left_iff, List.forall₂_map_right_iff,
      List.forall₂_same]
    exact ih
  | @object entries hnames _ ih =>
    rw [ofDatum, ofDatumEntries_eq_map]
    refine like_object_of_forall₂ (by rwa [Entries.keys_map]) ?_
    rw [List.forall₂_map_left_iff, List.forall₂_map_right_iff, List.forall₂_same]
    exact fun e he => ⟨rfl, ih e he⟩

/-- The items of like values are alike. What a string holds is the same for both. -/
theorem Like.elements? (h : Like R v w) :
    Option.Rel (List.Forall₂ (Like R)) v.elements? w.elements? := by
  cases h with
  | list hl h => exact .some (like_list.1 (.list hl h))
  | string s =>
    rw [Value.elements?]
    cases hd : Json.read? s with
    | none => exact .none
    | some d =>
      have hlike : Like R (ofDatum d) (ofDatum d) := .refl (Json.regular_of_read? hd)
      cases d with
      | list items => exact .some (like_list.1 hlike)
      | _ => exact .none
  | _ => exact .none

theorem Like.among {vs vs' : List Value} (h : Like R v v') (hs : List.Forall₂ (Like R) vs vs') :
    v.among vs = v'.among vs' := by
  induction hs with
  | nil => rfl
  | cons hw _ ih =>
    rw [Value.among, Value.among] at ih
    rw [Value.among, Value.among, List.any_cons, List.any_cons, hw.equal_eq h, ih]

theorem Like.addUnique {vs vs' : List Value} (hs : List.Forall₂ (Like R) vs vs') (h : Like R v v') :
    List.Forall₂ (Like R) (addUnique vs v) (addUnique vs' v') := by
  rw [Preflight.addUnique, Preflight.addUnique, h.among hs]
  split
  · exact hs
  · exact List.rel_append hs (.cons h .nil)

theorem Like.foldl_addUnique {vs vs' ws ws' : List Value} (hs : List.Forall₂ (Like R) vs vs')
    (h : List.Forall₂ (Like R) ws ws') :
    List.Forall₂ (Like R) (ws.foldl Preflight.addUnique vs) (ws'.foldl Preflight.addUnique vs') := by
  induction h generalizing vs vs' with
  | nil => exact hs
  | cons hw _ ih => exact ih (Like.addUnique hs hw)

end Value

/-! ### Conversions -/

namespace TypeSpec

/-- Two conversions both fail, or they give related results. -/
inductive Conversion.Alike {α β : Type} (P : α → β → Prop) : Conversion α → Conversion β → Prop
  | ok {a : α} {b : β} (h : P a b) : Alike P (.ok a) (.ok b)
  | error (e f : ConversionError) : Alike P (.error e) (.error f)

namespace Conversion.Alike

variable {α β γ δ : Type} {P : α → β → Prop} {Q : γ → δ → Prop} {x : Conversion α} {y : Conversion β}

theorem imp (h : Alike P x y) {P' : α → β → Prop} (hP : ∀ a b, P a b → P' a b) : Alike P' x y := by
  cases h with
  | ok h => exact .ok (hP _ _ h)
  | error e f => exact .error e f

/-- What a result is may be used to relate what becomes of it. -/
theorem map_ok (h : Alike P x y) {f : α → γ} {g : β → δ}
    (hfg : ∀ a b, x = .ok a → P a b → Q (f a) (g b)) :
    Alike Q (f <$> x) (g <$> y) := by
  cases h with
  | ok h => exact .ok (hfg _ _ rfl h)
  | error e f => exact .error e f

theorem map (h : Alike P x y) {f : α → γ} {g : β → δ} (hfg : ∀ a b, P a b → Q (f a) (g b)) :
    Alike Q (f <$> x) (g <$> y) :=
  h.map_ok fun a b _ => hfg a b

/-- Results in turn are related if each is. -/
theorem cons (h : Alike P x y) {f : α → γ} {g : β → δ} (hfg : ∀ a b, P a b → Q (f a) (g b))
    {xs : Conversion (List γ)} {ys : Conversion (List δ)} (hs : Alike (List.Forall₂ Q) xs ys) :
    Alike (List.Forall₂ Q) (do let a ← x; return f a :: (← xs))
      (do let b ← y; return g b :: (← ys)) := by
  cases h with
  | error e f => exact .error e f
  | ok h =>
    cases hs with
    | error e f => exact .error e f
    | ok hs => exact .ok (.cons (hfg _ _ h) hs)

theorem mapM {f : α → Conversion γ} {g : β → Conversion δ} {as : List α} {bs : List β}
    (h : List.Forall₂ (fun a b => Alike Q (f a) (g b)) as bs) :
    Alike (List.Forall₂ Q) (as.mapM f) (bs.mapM g) := by
  induction h with
  | nil => exact .ok .nil
  | cons hab _ ih =>
    rw [List.mapM_cons, List.mapM_cons]
    exact hab.cons (f := id) (g := id) (fun _ _ h => h) ih

theorem of_succeeds (hs : Succeeds x ↔ Succeeds y) (h : ∀ a b, x = .ok a → y = .ok b → P a b) :
    Alike P x y := by
  cases x with
  | error e =>
    cases y with
    | error f => exact .error e f
    | ok b => exact absurd (hs.2 ⟨b, rfl⟩) (by rintro ⟨a, ha⟩; cases ha)
  | ok a =>
    cases y with
    | error f => exact absurd (hs.1 ⟨a, rfl⟩) (by rintro ⟨b, hb⟩; cases hb)
    | ok b => exact .ok (h a b rfl rfl)

theorem succeeds_iff (h : Alike P x y) : Succeeds x ↔ Succeeds y := by
  cases h with
  | ok h => exact ⟨fun _ => ⟨_, rfl⟩, fun _ => ⟨_, rfl⟩⟩
  | error e f =>
    constructor
    · rintro ⟨a, ha⟩
      cases ha
    · rintro ⟨b, hb⟩
      cases hb

end Conversion.Alike

open Conversion

variable {R : NumberRelation} {v w : Value}

theorem alike_unlessOpen {rule : Value → Conversion Value} (h : Value.Like R v w)
    (hrule : Alike (Value.Like R) (rule v) (rule w)) :
    Alike (Value.Like R) (unlessOpen rule v) (unlessOpen rule w) := by
  cases h with
  | null => exact .ok .null
  | unknown => exact .ok .unknown
  | _ => exact hrule

theorem alike_convertString (h : Value.Like R v w) :
    Alike (Value.Like R) (convertString v) (convertString w) := by
  cases h with
  | string s => exact .ok (.string s)
  | bool b => exact .ok (.string _)
  | number h =>
    rw [convertString, convertString, R.text_eq h]
    exact .ok (.string _)
  | _ => exact .error _ _

theorem alike_convertNumber (h : Value.Like R v w) :
    Alike (Value.Like R) (convertNumber v) (convertNumber w) := by
  cases h with
  | number h => exact .ok (.number h)
  | string s =>
    rw [convertNumber]
    split
    · exact .ok (.number (R.refl _))
    · exact .error _ _
  | _ => exact .error _ _

theorem alike_convertBool (h : Value.Like R v w) :
    Alike (Value.Like R) (convertBool v) (convertBool w) := by
  cases h with
  | bool b => exact .ok (.bool b)
  | string s =>
    rw [convertBool]
    split_ifs
    · exact .ok (.bool _)
    · exact .ok (.bool _)
    · exact .error _ _
  | _ => exact .error _ _

/-- A conversion of entries under their names keeps the names and converts what is under each. -/
theorem get?_of_mapM_entries {f : Value → Conversion Value} {es ws : Entries Value}
    (h : es.mapM (fun e => Prod.mk e.1 <$> f e.2) = .ok ws) : ws.keys = es.keys ∧
      ∀ key, Option.Rel (fun v w => f v = .ok w) (es.get? key) (ws.get? key) := by
  replace h := mapM_eq_ok.1 h
  induction h with
  | nil => exact ⟨rfl, fun _ => .none⟩
  | @cons e w es ws hew _ ih =>
    obtain ⟨u, hu, rfl⟩ := map_eq_ok.1 hew
    obtain ⟨hkeys, hrel⟩ := ih
    refine ⟨congrArg (List.cons e.1) hkeys, fun key => ?_⟩
    obtain ⟨k, v⟩ := e
    rw [Entries.get?_cons, Entries.get?_cons]
    by_cases hk : k = key
    · rw [if_pos hk, if_pos hk]
      exact .some hu
    · rw [if_neg hk, if_neg hk]
      exact hrel key

theorem succeeds_mapM_entries {f : Value → Conversion Value} {es : Entries Value}
    (hes : es.keys.Nodup) : Succeeds (es.mapM fun e => Prod.mk e.1 <$> f e.2) ↔
      ∀ key v, es.get? key = some v → Succeeds (f v) := by
  rw [succeeds_mapM]
  constructor
  · intro h key v hv
    exact (succeeds_map _).1 (h (key, v) (Entries.mem_of_get? hv))
  · intro h e he
    exact (succeeds_map _).2 (h e.1 e.2 ((Entries.get?_eq_some_iff hes).2 he))

/-- The entries of like objects are converted in different orders, but under each name alike. -/
theorem alike_entries {f : Value → Conversion Value}
    (hf : ∀ v w, Value.Like R v w → Alike (Value.Like R) (f v) (f w)) {es fs : Entries Value}
    (h : Value.Like R (.object es) (.object fs)) :
    Alike (Value.Like R) (Value.object <$> es.mapM fun e => Prod.mk e.1 <$> f e.2)
      (Value.object <$> fs.mapM fun e => Prod.mk e.1 <$> f e.2) := by
  obtain ⟨hes, hfs, hrel⟩ := Value.like_object.1 h
  refine Alike.of_succeeds ?_ fun a b ha hb => ?_
  · rw [succeeds_map, succeeds_map, succeeds_mapM_entries hes, succeeds_mapM_entries hfs]
    refine forall_congr' fun key => ?_
    rcases rel_cases (hrel key) with ⟨hv, hw⟩ | ⟨v, w, hv, hw, hvw⟩
    · simp [hv, hw]
    · simp [hv, hw, (hf v w hvw).succeeds_iff]
  · obtain ⟨as, has, rfl⟩ := map_eq_ok.1 ha
    obtain ⟨bs, hbs, rfl⟩ := map_eq_ok.1 hb
    obtain ⟨hkeys, hget⟩ := get?_of_mapM_entries has
    obtain ⟨hkeys', hget'⟩ := get?_of_mapM_entries hbs
    refine Value.like_object.2 ⟨hkeys ▸ hes, hkeys' ▸ hfs, fun key => ?_⟩
    rcases rel_cases (hrel key) with ⟨hv, hw⟩ | ⟨v, w, hv, hw, hvw⟩
    · rcases rel_cases (hget key) with ⟨-, ha⟩ | ⟨_, _, hv', -⟩
      · rcases rel_cases (hget' key) with ⟨-, hb⟩ | ⟨_, _, hw', -⟩
        · rw [ha, hb]
          exact .none
        · simp [hw] at hw'
      · simp [hv] at hv'
    · obtain ⟨a, ha, hfv⟩ := exists_of_rel (hget key) hv
      obtain ⟨b, hb, hfw⟩ := exists_of_rel (hget' key) hw
      have hab := hf v w hvw
      rw [hfv, hfw] at hab
      rw [ha, hb]
      cases hab with
      | ok hab => exact .some hab

theorem alike_convertTuple {types : List TypeSpec}
    (ih : ∀ type ∈ types, ∀ v w, Value.Like R v w →
      Alike (Value.Like R) (type.convert v) (type.convert w))
    {vs ws : List Value} (h : List.Forall₂ (Value.Like R) vs ws) :
    Alike (List.Forall₂ (Value.Like R)) (convertTuple types vs) (convertTuple types ws) := by
  induction types generalizing vs ws with
  | nil =>
    simp only [convertTuple]
    exact .ok .nil
  | cons type types ihs =>
    cases h with
    | nil =>
      simp only [convertTuple]
      exact .ok .nil
    | cons hvw h =>
      rw [convertTuple, convertTuple]
      exact (ih type List.mem_cons_self _ _ hvw).cons (f := id) (g := id) (fun _ _ h => h)
        (ihs (fun t ht => ih t (List.mem_cons_of_mem _ ht)) h)

theorem alike_convertAttribute {a : AttributeSpec}
    (ih : ∀ v w, Value.Like R v w → Alike (Value.Like R) (a.type.convert v) (a.type.convert w))
    (name : String) {v? w? : Option Value} (h : Option.Rel (Value.Like R) v? w?) :
    Alike (Value.Like R) (convertAttribute name a v?) (convertAttribute name a w?) := by
  cases h with
  | some h =>
    rw [convertAttribute_some, convertAttribute_some]
    exact ih _ _ h
  | none =>
    cases a with
    | required type =>
      rw [convertAttribute]
      exact .error _ _
    | optional type default? =>
      rw [convertAttribute]
      exact .ok .null

theorem alike_convertAttributes {attributes : List (String × AttributeSpec)}
    (ih : ∀ a ∈ attributes, ∀ v w, Value.Like R v w →
      Alike (Value.Like R) (a.2.type.convert v) (a.2.type.convert w))
    {es fs : Entries Value} (h : ∀ key, Option.Rel (Value.Like R) (es.get? key) (fs.get? key)) :
    Alike (List.Forall₂ fun e f => e.1 = f.1 ∧ Value.Like R e.2 f.2)
      (convertAttributes attributes es) (convertAttributes attributes fs) := by
  induction attributes with
  | nil =>
    rw [convertAttributes, convertAttributes]
    exact .ok .nil
  | cons a attributes ihs =>
    rw [convertAttributes, convertAttributes]
    exact (alike_convertAttribute (ih a List.mem_cons_self) a.1 (h a.1)).cons
      (f := Prod.mk a.1) (g := Prod.mk a.1) (fun _ _ h => ⟨rfl, h⟩)
      (ihs fun b hb => ih b (List.mem_cons_of_mem _ hb))

theorem keys_convertAttributes {attributes : List (String × AttributeSpec)} {entries ws : Entries Value}
    (h : convertAttributes attributes entries = .ok ws) : ws.keys = Entries.keys attributes := by
  induction attributes generalizing ws with
  | nil =>
    cases h
    rfl
  | cons a attributes ih =>
    rw [convertAttributes] at h
    obtain ⟨w, -, h⟩ := bind_eq_ok.1 h
    obtain ⟨ws, hws, h⟩ := bind_eq_ok.1 h
    cases h
    exact congrArg (List.cons a.1) (ih hws)

/-- Conversions of like values both fail, or they give like values. -/
theorem convert_alike {type : TypeSpec} (ht : type.Distinct) {v w : Value} (h : Value.Like R v w) :
    Alike (Value.Like R) (type.convert v) (type.convert w) := by
  induction ht generalizing v w with
  | any =>
    rw [convert]
    exact .ok h
  | string =>
    rw [convert]
    exact alike_unlessOpen h (alike_convertString h)
  | number =>
    rw [convert]
    exact alike_unlessOpen h (alike_convertNumber h)
  | bool =>
    rw [convert]
    exact alike_unlessOpen h (alike_convertBool h)
  | list _ ih =>
    rw [convert]
    refine alike_unlessOpen h ?_
    rcases rel_cases h.elements? with ⟨hv, hw⟩ | ⟨vs, ws, hv, hw, hvs⟩
    · simp only [hv, hw]
      exact .error _ _
    · simp only [hv, hw]
      exact (Alike.mapM (hvs.imp fun _ _ => ih)).map fun _ _ => Value.like_list.2
  | set _ ih =>
    rw [convert]
    refine alike_unlessOpen h ?_
    rcases rel_cases h.elements? with ⟨hv, hw⟩ | ⟨vs, ws, hv, hw, hvs⟩
    · simp only [hv, hw]
      exact .error _ _
    · simp only [hv, hw, foldlM_addUnique]
      refine ((Alike.mapM (hvs.imp fun _ _ => ih)).map fun _ _ hs => ?_).map fun _ _ => Value.like_list.2
      exact Value.Like.foldl_addUnique .nil hs
  | map _ ih =>
    rw [convert]
    refine alike_unlessOpen h ?_
    cases h with
    | object hes hfs hkeys h => exact alike_entries (fun _ _ => ih) (.object hes hfs hkeys h)
    | _ => exact .error _ _
  | @tuple elements _ ih =>
    rw [convert]
    refine alike_unlessOpen h ?_
    cases h with
    | list hl h =>
      dsimp only
      rw [hl]
      split_ifs
      · exact (alike_convertTuple (fun t ht _ _ => ih t ht) (Value.like_list.1 (.list hl h))).map
          fun _ _ => Value.like_list.2
      · exact .error _ _
    | _ => exact .error _ _
  | @object attributes hnames _ ih =>
    rw [convert]
    refine alike_unlessOpen h ?_
    cases h with
    | object hes hfs hkeys h =>
      have hrel := (Value.like_object.1 (.object hes hfs hkeys h)).2.2
      refine (alike_convertAttributes (fun a ha _ _ => ih a ha) hrel).map_ok fun as bs has h => ?_
      exact Value.like_object_of_forall₂ (keys_convertAttributes has ▸ hnames) h
    | _ => exact .error _ _

end TypeSpec
end Preflight
