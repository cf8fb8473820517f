import Mathlib.Data.List.Perm.Subperm
import Preflight.Proofs.Completion
import Preflight.Proofs.Likeness
import Preflight.Proofs.NumberText
import Preflight.Value.Text

/-!
# Equality of values

Equality of values is an equivalence, and what is made of equal values is equal, in whatever order the
entries of their objects come.

* `Value.Regular` says that names are distinct in every object and that all numbers have a property.
* `Number.WritesEqualAlike`: numbers of a kind have one text if they are equal. Then equal ones are the
  same (`Number.eq_of_equal`), as no integer has the text of a fraction.
* `Value.like_of_equal`: equal values with numbers of such a kind are alike, and alike values look the
  same to everything that reads them.
-/

namespace Preflight

/-! ### Regular values -/

/-- In every object names are distinct, and every number has a property. -/
inductive Value.Regular (P : Number → Prop) : Value → Prop
  | null : Regular P .null
  | unknown : Regular P .unknown
  | bool (b : Bool) : Regular P (.bool b)
  | number {n : Number} (h : P n) : Regular P (.number n)
  | string (s : String) : Regular P (.string s)
  | list {items : List Value} (h : ∀ v ∈ items, Regular P v) : Regular P (.list items)
  | object {entries : Entries Value} (hnames : entries.keys.Nodup)
    (h : ∀ e ∈ entries, Regular P e.2) : Regular P (.object entries)

/-- Names are distinct in every object. -/
def Value.Distinct (v : Value) : Prop := v.Regular fun _ => True

theorem Value.Regular.distinct {P : Number → Prop} {v : Value} (h : v.Regular P) : v.Distinct := by
  induction h with
  | null => exact .null
  | unknown => exact .unknown
  | bool b => exact .bool b
  | number _ => exact .number trivial
  | string s => exact .string s
  | list _ ih => exact .list ih
  | object hnames _ ih => exact .object hnames ih

/-- A value in which names are distinct is like itself. -/
theorem Value.Distinct.like {R : NumberRelation} {v : Value} (h : v.Distinct) : Like R v v := by
  induction h with
  | null => exact .null
  | unknown => exact .unknown
  | bool b => exact .bool b
  | number _ => exact .number (R.refl _)
  | string s => exact .string s
  | list _ ih => exact like_list.2 (List.forall₂_same.2 ih)
  | object hnames _ ih =>
    exact like_object_of_forall₂ hnames (List.forall₂_same.2 fun e he => ⟨rfl, ih e he⟩)

/-! ### Equal numbers -/

/-- A text with a point or an exponent. -/
def Decimal.HasPoint (s : String) : Prop := '.' ∈ s.toList ∨ 'e' ∈ s.toList

theorem Decimal.hasPoint_write (layout : Layout) (units : Nat) (exponent : Int) :
    HasPoint (write layout units exponent) := by
  unfold write HasPoint
  dsimp only
  split_ifs <;> simp

theorem Decimal.hasPoint_format (layout : Layout) (q : Rat) : HasPoint (format layout q) := by
  unfold format
  split_ifs with hzero
  · exact Or.inl (by decide)
  all_goals
    simpa [HasPoint] using hasPoint_write layout _ _

theorem Decimal.not_hasPoint_toString (n : Int) : ¬ HasPoint (toString n) := by
  have hdigits : ∀ c : Char, c.isDigit = false → c ≠ '-' → c ∉ (toString n).toList := by
    intro c hc hminus hmem
    have hdigit : ∀ m : Nat, c ∉ digitsOf m := fun m hm => by
      rw [isDigit_of_mem_digitsOf hm] at hc
      cases hc
    rcases lt_or_ge n 0 with hn | hn
    · obtain ⟨m, rfl⟩ : ∃ m : Nat, n = -(m : Int) := ⟨n.natAbs, by omega⟩
      rw [toList_toString_neg (by omega)] at hmem
      exact (List.mem_cons.1 hmem).elim hminus (hdigit m)
    · obtain ⟨m, rfl⟩ := Int.eq_ofNat_of_zero_le hn
      rw [toList_toString_natCast] at hmem
      exact hdigit m hmem
  rintro (h | h)
  · exact hdigits '.' (by decide) (by decide) h
  · exact hdigits 'e' (by decide) (by decide) h

namespace Binary64

theorem den_roundMagnitude (n : Nat) : (roundMagnitude n 1).den = 1 := by
  rw [roundMagnitude]
  by_cases he : 0 ≤ lastPlace n 1
  · rw [scaled, if_pos he]
    exact Rat.den_natCast _
  · have hexact : halfEven (n * Nat.pow 2 (-lastPlace n 1).toNat) 1 =
        n * Nat.pow 2 (-lastPlace n 1).toNat := by
      simpa using halfEven_mul (n * Nat.pow 2 (-lastPlace n 1).toNat) Nat.one_pos
    have hpow : Nat.pow 2 (-lastPlace n 1).toNat ≠ 0 := (Nat.pow_pos (by decide)).ne'
    have hmk : mkRat ((n : Int) * Nat.pow 2 (-lastPlace n 1).toNat)
        (1 * Nat.pow 2 (-lastPlace n 1).toNat) = mkRat n 1 :=
      Rat.mkRat_mul_right hpow
    rw [if_neg he, scaled, if_neg he, hexact]
    rw [Nat.one_mul] at hmk
    push_cast
    rw [hmk, Rat.mkRat_one]
    rfl

/-- An integer is rounded to an integer. -/
theorem den_nearest (n : Int) : (nearest (n : Rat)).den = 1 := by
  have hlargest : largest.den = 1 := Rat.den_natCast _
  have hround : (roundMagnitude n.natAbs 1).den = 1 := den_roundMagnitude n.natAbs
  unfold nearest round?
  by_cases hzero : n = 0
  · simp [hzero]
  · by_cases hneg : n < 0 <;> by_cases hle : roundMagnitude n.natAbs 1 ≤ largest <;>
      simp [hzero, hneg, hle, hlargest, hround]

end Binary64

namespace Number

/-- Equal numbers of a kind are written alike. -/
def WritesEqualAlike (K : Number → Prop) : Prop :=
  ∀ m n, K m → K n → m.equal n = true → m.text = n.text

/-- An integer and a fraction are never written alike, so numbers that are equal and written alike are
the same. -/
theorem eq_of_equal {m n : Number} (h : m.equal n = true) (ht : m.text = n.text) : m = n := by
  have hapart : ∀ (a : Int) (q : Rat), (int a).text ≠ (real q).text := by
    intro a q heq
    have hpoint : Decimal.HasPoint (real q).text := Decimal.hasPoint_format layout q
    rw [← heq] at hpoint
    exact Decimal.not_hasPoint_toString a hpoint
  cases m with
  | int a =>
    cases n with
    | int b => simpa [equal] using h
    | real q => exact absurd ht (hapart a q)
  | real p =>
    cases n with
    | int b => exact absurd ht.symm (hapart b p)
    | real q => exact congrArg real (of_decide_eq_true h)

/-- An integer, or a fraction that is not whole. -/
def Plain : Number → Prop
  | int _ => True
  | real q => q.den ≠ 1

/-- An integer is rounded to an integer when it is compared with a fraction. -/
theorem writesEqualAlike_plain : WritesEqualAlike Plain := by
  have hapart : ∀ (a : Int) (q : Rat), q.den ≠ 1 → Binary64.nearest a ≠ q := by
    rintro a q hq rfl
    exact hq (Binary64.den_nearest a)
  rintro (a | p) (b | q) hm hn h
  · rw [of_decide_eq_true h]
  · exact absurd (of_decide_eq_true h) (hapart a q hn)
  · exact absurd (of_decide_eq_true h).symm (hapart b p hm)
  · rw [show p = q from of_decide_eq_true h]

end Number

/-! ### Equal values -/

namespace Value

variable {K : Number → Prop} {v w : Value}

/-- In equal objects the names are the same: they are as many, and all of the first are in the second. -/
theorem keys_of_equal {es fs : Entries Value} (hes : es.keys.Nodup)
    (h : (object es).equal (.object fs) = true) (key : String) : key ∈ es.keys ↔ key ∈ fs.keys := by
  rw [Value.equal, Bool.and_eq_true, decide_eq_true_eq] at h
  obtain ⟨hlength, hwithin⟩ := h
  have hsub : es.keys ⊆ fs.keys := by
    intro k hk
    obtain ⟨v, hv⟩ := Option.isSome_iff_exists.1 (Entries.isSome_get?.2 hk)
    obtain ⟨w, hw, -⟩ := (entriesWithin_iff_get? hes).1 hwithin k v hv
    exact Entries.isSome_get?.1 (by rw [hw]; rfl)
  have hlength : fs.keys.length ≤ es.keys.length := by simp [Entries.keys, hlength]
  exact ((List.subperm_of_subset hes hsub).perm_of_length_le hlength).mem_iff

/-- Equal values are alike: their numbers are the same. -/
theorem like_of_equal (hK : Number.WritesEqualAlike K) (hv : v.Regular K) (hw : w.Regular K)
    (h : v.equal w = true) : Like .same v w := by
  induction hv generalizing w with
  | null => cases w <;> first | exact .null | cases h
  | unknown => cases w <;> first | exact .unknown | cases h
  | bool b =>
    cases w with
    | bool c => exact of_decide_eq_true h ▸ .bool b
    | _ => cases h
  | number hm =>
    cases hw with
    | number hn => exact .number (Number.eq_of_equal h (hK _ _ hm hn h))
    | _ => cases h
  | string s =>
    cases w with
    | string t => exact of_decide_eq_true h ▸ .string s
    | _ => cases h
  | list _ ih =>
    cases hw with
    | list hws =>
      obtain ⟨hlength, hitems⟩ := List.forall₂_iff_zip.1 (equalItems_iff.1 h)
      refine .list hlength fun a b hab => ?_
      obtain ⟨ha, hb⟩ := List.of_mem_zip hab
      exact ih a ha (hws b hb) (hitems hab)
    | _ => cases h
  | object hes _ ih =>
    cases hw with
    | object hfs hws =>
      have hkeys := keys_of_equal hes h
      rw [Value.equal, Bool.and_eq_true] at h
      refine .object hes hfs hkeys fun key a b ha hb => ?_
      obtain ⟨b', hb', hab⟩ := (entriesWithin_iff_get? hes).1 h.2 key a ha
      obtain rfl : b' = b := Option.some.inj (hb'.symm.trans hb)
      exact ih _ (Entries.mem_of_get? ha) (hws _ (Entries.mem_of_get? hb)) hab
    | _ => cases h

/-! ### Reading alike values -/

variable {R : NumberRelation}

theorem forall_mem_iff_get? {P : Value → Prop} {es : Entries Value} (hes : es.keys.Nodup) :
    (∀ e ∈ es, P e.2) ↔ ∀ key v, es.get? key = some v → P v := by
  constructor
  · intro h key v hv
    exact h _ (Entries.mem_of_get? hv)
  · intro h e he
    exact h e.1 e.2 ((Entries.get?_eq_some_iff hes).2 he)

theorem Like.isWhollyKnown (h : Like R v w) : v.isWhollyKnown = w.isWhollyKnown := by
  induction h with
  | null => rfl
  | unknown => rfl
  | bool b => rfl
  | number _ => rfl
  | string s => rfl
  | @list vs ws hl hvs ih =>
    have hall : List.Forall₂ (fun v w => v.isWhollyKnown = w.isWhollyKnown) vs ws :=
      List.forall₂_iff_zip.2 ⟨hl, ih _ _⟩
    rw [Value.isWhollyKnown, Value.isWhollyKnown]
    clear hl hvs ih
    induction hall with
    | nil => rfl
    | cons hvw _ ih => rw [allKnown, allKnown, hvw, ih]
  | object hes hfs hkeys h ih =>
    obtain ⟨-, -, hrel⟩ := like_object.1 (.object hes hfs hkeys h)
    rw [Value.isWhollyKnown, Value.isWhollyKnown, Bool.eq_iff_iff, allEntriesKnown_iff,
      allEntriesKnown_iff, forall_mem_iff_get? (P := fun v => v.isWhollyKnown = true) hes,
      forall_mem_iff_get? (P := fun v => v.isWhollyKnown = true) hfs]
    refine forall_congr' fun key => ?_
    rcases rel_cases (hrel key) with ⟨hv, hw⟩ | ⟨a, b, hv, hw, -⟩
    · simp [hv, hw]
    · simp [hv, hw, ih key a b hv hw]

theorem toText_object (es : Entries Value) : toText (.object es) =
    match es with
    | [(key, inner)] => if key = "value" then inner.toText else .error (.unsupported "object")
    | _ => .error (.unsupported "object") := by
  match es with
  | [] => rw [toText]; simp
  | [(key, inner)] => rw [toText]
  | _ :: _ :: _ => rw [toText]; simp

theorem Like.toText (h : Like R v w) : v.toText = w.toText := by
  induction h with
  | null => rfl
  | unknown => rfl
  | bool b => rfl
  | number h => rw [Value.toText, Value.toText, R.text_eq h]
  | string s => rfl
  | list _ _ _ => rfl
  | @object es fs hes hfs hkeys _ ih =>
    have hlength := length_eq_of_keys hes hfs hkeys
    rw [toText_object, toText_object]
    match es, fs, hlength with
    | [], [], _ => rfl
    | [(k, a)], [(l, b)], _ =>
      obtain rfl : k = l := by simpa [Entries.keys] using hkeys k
      simp only [ih k a b (by simp [Entries.get?_cons]) (by simp [Entries.get?_cons])]
    | _ :: _ :: _, _ :: _ :: _, _ => rfl

theorem Like.getPath? (h : Like R v w) (path : List String) :
    Option.Rel (Like R) (v.getPath? path) (w.getPath? path) := by
  induction path generalizing v w with
  | nil =>
    rw [getPath?_nil, getPath?_nil]
    exact .some h
  | cons key path ih =>
    cases h with
    | object hes hfs hkeys h =>
      obtain ⟨-, -, hrel⟩ := like_object.1 (.object hes hfs hkeys h)
      rw [getPath?_cons, getPath?_cons, entries_object, entries_object]
      rcases rel_cases (hrel key) with ⟨hv, hw⟩ | ⟨a, b, hv, hw, hab⟩
      · rw [hv, hw]
        exact .none
      · rw [hv, hw]
        exact ih hab
    | _ => exact .none

end Value

/-! ### Filling in defaults -/

namespace TypeSpec

variable {R : NumberRelation} {v w : Value}

/-- Attributes with distinct names; their defaults have distinct names in their objects too. -/
structure DistinctAttributes (attributes : List (String × AttributeSpec)) : Prop where
  names : (Entries.keys attributes).Nodup
  defaults : ∀ a ∈ attributes, ∀ d, a.2.default? = some d → d.Distinct

/-- Names are distinct inside a type and inside all of its defaults. -/
def AllDistinct : TypeSpec → Prop := Every DistinctAttributes

theorem AllDistinct.distinct {type : TypeSpec} (h : type.AllDistinct) : type.Distinct :=
  Every.mono (fun _ has => has.names) h

theorem alike_applyTuple {types : List TypeSpec}
    (ih : ∀ type ∈ types, ∀ v w, Value.Like R v w →
      Value.Like R (type.applyDefaults v) (type.applyDefaults w))
    {vs ws : List Value} (h : List.Forall₂ (Value.Like R) vs ws) :
    List.Forall₂ (Value.Like R) (applyTuple types vs) (applyTuple types ws) := by
  induction types generalizing vs ws with
  | nil => simpa [applyTuple] using h
  | cons type types ihs =>
    cases h with
    | nil => simp [applyTuple]
    | cons hvw h =>
      rw [applyTuple, applyTuple]
      exact .cons (ih type List.mem_cons_self _ _ hvw)
        (ihs (fun t ht => ih t (List.mem_cons_of_mem _ ht)) h)

theorem nodup_keys_applyAttributes (attributes : List (String × AttributeSpec)) {entries : Entries Value}
    (h : entries.keys.Nodup) : (applyAttributes attributes entries).keys.Nodup := by
  induction attributes generalizing entries with
  | nil => rwa [applyAttributes]
  | cons a attributes ih =>
    rw [applyAttributes]
    split
    · exact ih (Entries.nodup_keys_insert h _ _)
    · exact ih h

theorem alike_completion? {a : AttributeSpec}
    (ih : ∀ v w, Value.Like R v w → Value.Like R (a.type.applyDefaults v) (a.type.applyDefaults w))
    (hdefault : ∀ d, a.default? = some d → d.Distinct) {v? w? : Option Value}
    (h : Option.Rel (Value.Like R) v? w?) :
    Option.Rel (Value.Like R) (completion? a v?) (completion? a w?) := by
  have hfill : ∀ x? y? : Option Value, Option.Rel (Value.Like R) x? y? →
      (x?.filter fun v => !v.isNull) = none → (y?.filter fun v => !v.isNull) = none →
      Option.Rel (Value.Like R) (completion? a x?) (completion? a y?) := by
    intro x? y? hxy hx hy
    cases hd : a.default? with
    | none => rwa [completion?_of_no_default hd hx, completion?_of_no_default hd hy]
    | some d =>
      rw [completion?_of_default? hd hx, completion?_of_default? hd hy]
      exact .some (ih d d (hdefault d hd).like)
  cases h with
  | none => exact hfill none none .none rfl rfl
  | @some v w hvw =>
    by_cases hv : v = .null
    · subst hv
      cases hvw
      exact hfill _ _ (.some .null) rfl rfl
    · have hw : w ≠ .null := fun hw => by
        subst hw
        cases hvw
        exact hv rfl
      rw [completion?_of_ne_null a hv, completion?_of_ne_null a hw]
      exact .some (ih v w hvw)

theorem alike_map_items {f : Value → Value} (hf : ∀ v w, Value.Like R v w → Value.Like R (f v) (f w))
    {vs ws : List Value} (h : List.Forall₂ (Value.Like R) vs ws) :
    Value.Like R (.list (vs.map f)) (.list (ws.map f)) := by
  rw [Value.like_list, List.forall₂_map_left_iff, List.forall₂_map_right_iff]
  exact h.imp hf

theorem alike_map_entries {f : Value → Value}
    (hf : ∀ v w, Value.Like R v w → Value.Like R (f v) (f w)) {es fs : Entries Value}
    (h : Value.Like R (.object es) (.object fs)) :
    Value.Like R (.object (es.map fun e => (e.1, f e.2))) (.object (fs.map fun e => (e.1, f e.2))) := by
  obtain ⟨hes, hfs, hrel⟩ := Value.like_object.1 h
  refine Value.like_object.2 ⟨by rwa [Entries.keys_map], by rwa [Entries.keys_map], fun key => ?_⟩
  rw [Entries.get?_map, Entries.get?_map]
  rcases rel_cases (hrel key) with ⟨hv, hw⟩ | ⟨v, w, hv, hw, hvw⟩
  · rw [hv, hw]
    exact .none
  · rw [hv, hw]
    exact .some (hf v w hvw)

theorem alike_applyAttributes {attributes : List (String × AttributeSpec)}
    (hattributes : DistinctAttributes attributes)
    (ih : ∀ a ∈ attributes, ∀ v w, Value.Like R v w →
      Value.Like R (a.2.type.applyDefaults v) (a.2.type.applyDefaults w)) {es fs : Entries Value}
    (h : Value.Like R (.object es) (.object fs)) :
    Value.Like R (.object (applyAttributes attributes es)) (.object (applyAttributes attributes fs)) := by
  obtain ⟨hes, hfs, hrel⟩ := Value.like_object.1 h
  refine Value.like_object.2 ⟨nodup_keys_applyAttributes _ hes, nodup_keys_applyAttributes _ hfs,
    fun key => ?_⟩
  by_cases hkey : key ∈ Entries.keys attributes
  · obtain ⟨a, ha, rfl⟩ := List.mem_map.1 hkey
    rw [get?_applyAttributes hattributes.names ha, get?_applyAttributes hattributes.names ha]
    exact alike_completion? (ih a ha) (hattributes.defaults a ha) (hrel a.1)
  · rw [get?_applyAttributes_of_notMem hkey, get?_applyAttributes_of_notMem hkey]
    exact hrel key

/-- Alike values are alike with their defaults filled in. -/
theorem applyDefaults_alike {type : TypeSpec} (ht : type.AllDistinct) (h : Value.Like R v w) :
    Value.Like R (type.applyDefaults v) (type.applyDefaults w) := by
  induction ht generalizing v w with
  | any => simpa [applyDefaults] using h
  | string => simpa [applyDefaults] using h
  | number => simpa [applyDefaults] using h
  | bool => simpa [applyDefaults] using h
  | list _ ih =>
    have hlike := h
    cases h with
    | list _ _ =>
      rw [applyDefaults, applyDefaults]
      exact alike_map_items (fun _ _ => ih) (Value.like_list.1 hlike)
    | _ => simpa [applyDefaults] using hlike
  | set _ ih =>
    have hlike := h
    cases h with
    | list _ _ =>
      rw [applyDefaults, applyDefaults]
      exact alike_map_items (fun _ _ => ih) (Value.like_list.1 hlike)
    | _ => simpa [applyDefaults] using hlike
  | map _ ih =>
    have hlike := h
    cases h with
    | object _ _ _ _ =>
      rw [applyDefaults, applyDefaults]
      exact alike_map_entries (fun _ _ => ih) hlike
    | _ => simpa [applyDefaults] using hlike
  | tuple _ ih =>
    have hlike := h
    cases h with
    | list _ _ =>
      rw [applyDefaults, applyDefaults, Value.like_list]
      exact alike_applyTuple (fun t ht _ _ => ih t ht) (Value.like_list.1 hlike)
    | _ => simpa [applyDefaults] using hlike
  | object hattributes _ ih =>
    have hlike := h
    cases h with
    | object _ _ _ _ =>
      rw [applyDefaults, applyDefaults]
      exact alike_applyAttributes hattributes (fun a ha _ _ => ih a ha) hlike
    | _ => simpa [applyDefaults] using hlike

end TypeSpec

/-! ### Equal values cannot be told apart -/

/-- Among values whose equal numbers are written alike, equality is an equivalence. Equal values are
wholly known together, have the same string form, the same paths with equal values at their ends, and
equal values once defaults are filled in; and a conversion fails for both or gives equal values. -/
theorem Value.equal_congruence {K : Number → Prop} (hK : Number.WritesEqualAlike K) :
    (∀ v : Value, v.Distinct → v.equal v = true) ∧
    (∀ v w : Value, v.Regular K → w.Regular K → v.equal w = true → w.equal v = true) ∧
    (∀ u v w : Value, u.Regular K → v.Regular K → w.Regular K →
      u.equal v = true → v.equal w = true → u.equal w = true) ∧
    ∀ v w : Value, v.Regular K → w.Regular K → v.equal w = true →
      v.isWhollyKnown = w.isWhollyKnown ∧ v.toText = w.toText ∧
      (∀ path, Option.Rel (fun a b => a.equal b = true) (v.getPath? path) (w.getPath? path)) ∧
      ∀ type : TypeSpec, type.AllDistinct →
        (type.applyDefaults v).equal (type.applyDefaults w) = true ∧
        TypeSpec.Conversion.Alike (fun a b => a.equal b = true) (type.convert v) (type.convert w) := by
  have hself : ∀ v : Value, v.Regular K → Like .same v v := fun v hv => hv.distinct.like
  refine ⟨fun v hv => (hv.like (R := .same)).equal, fun v w hv hw h => ?_, fun u v w hu hv hw huv hvw => ?_,
    fun v w hv hw h => ?_⟩
  · rw [← (like_of_equal hK hv hw h).equal_eq (hself v hv)]
    exact (hself v hv).equal
  · rw [(like_of_equal hK hu hv huv).equal_eq (hself w hw)]
    exact hvw
  · have hlike := like_of_equal hK hv hw h
    refine ⟨hlike.isWhollyKnown, hlike.toText, fun path => rel_imp (hlike.getPath? path) fun _ _ h => h.equal,
      fun type ht => ⟨(TypeSpec.applyDefaults_alike ht hlike).equal, ?_⟩⟩
    exact (TypeSpec.convert_alike ht.distinct hlike).imp fun _ _ h => h.equal

/-- Two disks whose attributes come in different orders are equal, so a set of them has one member in
either order. -/
theorem Value.equal_congruence_disks :
    let disk : Value := .object [("name", .string "root"), ("size", .number 10)]
    let turned : Value := .object [("size", .number 10), ("name", .string "root")]
    let type : TypeSpec := .set (.object [("size", .required .string),
      ("zone", .optional .string (some (.string "eu")))])
    (list [disk, turned]).equal (.list [turned, turned]) = true ∧
      (list [turned, turned]).equal (.list [disk, turned]) = true ∧
      TypeSpec.Conversion.Alike (fun a b => a.equal b = true)
        (type.convert (.list [disk, turned])) (type.convert (.list [turned, turned])) := by
  intro disk turned type
  have hname : (string "root").Regular Number.Plain := .string "root"
  have hsize : (number 10).Regular Number.Plain := .number trivial
  have hdisk : disk.Regular Number.Plain := .object (by decide) (by simp [hname, hsize])
  have hturned : turned.Regular Number.Plain := .object (by decide) (by simp [hname, hsize])
  have htype : type.AllDistinct := by
    refine .set (.object ⟨by decide, ?_⟩ ?_)
    · simp [AttributeSpec.default?, Distinct, Regular.string]
    · simp [AttributeSpec.type, TypeSpec.Every.string]
  have hv : (list [disk, turned]).Regular Number.Plain := .list (by simp [hdisk, hturned])
  have hw : (list [turned, turned]).Regular Number.Plain := .list (by simp [hturned])
  have heq : (list [disk, turned]).equal (.list [turned, turned]) = true := by decide
  obtain ⟨-, hsymm, -, hreads⟩ := equal_congruence Number.writesEqualAlike_plain
  obtain ⟨-, -, -, hconvert⟩ := hreads _ _ hv hw heq
  exact ⟨heq, hsymm _ _ hv hw heq, (hconvert type htype).2⟩

end Preflight
