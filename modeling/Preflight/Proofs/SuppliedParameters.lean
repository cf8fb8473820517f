import Mathlib.Data.List.TakeWhile
import Preflight.Extraction
import Preflight.Proofs.ParameterEntry

/-!
# Supplied parameters

A supplied value is written `name=value`, and it matters by its name only.

* `Supplied.parse?_eq_some_iff`: what is read are the text before the first equals sign without the
  blanks at its ends (`Text.Trims`) and all of the text behind the sign.
* `Input.value?_eq_some_iff`: of several values of a name the last one counts.
* `extract_congr`: an extraction asks for the values of the parameters that are declared, and for
  nothing else.
-/

namespace Preflight

/-! ### Texts without blanks at their ends -/

namespace Text

/-- A text without anything but blanks. -/
def Blank (s : String) : Prop := ∀ c ∈ s.toList, isBlank c = true

/-- The second text is the first one without the blanks at its ends. -/
structure Trims (s t : String) : Prop where
  surrounded : ∃ before after, s = before ++ t ++ after ∧ Blank before ∧ Blank after
  first : ∀ c, t.toList.head? = some c → isBlank c = false
  last : ∀ c, t.toList.getLast? = some c → isBlank c = false

/-- Blanks before a text are dropped. -/
theorem dropWhile_isBlank {l cs : List Char} (hl : ∀ c ∈ l, isBlank c = true)
    (hcs : ∀ c, cs.head? = some c → isBlank c = false) : (l ++ cs).dropWhile isBlank = cs := by
  rw [List.dropWhile_append_of_pos hl]
  cases cs with
  | nil => rfl
  | cons c cs => rw [List.dropWhile_cons_of_neg (by simp [hcs c rfl])]

theorem exists_of_dropWhile_isBlank (cs : List Char) : ∃ l, cs = l ++ cs.dropWhile isBlank ∧
    (∀ c ∈ l, isBlank c = true) ∧ ∀ c, (cs.dropWhile isBlank).head? = some c → isBlank c = false := by
  refine ⟨cs.takeWhile isBlank, List.takeWhile_append_dropWhile.symm,
    fun c hc => List.mem_takeWhile_imp hc, fun c hc => ?_⟩
  have hnot := List.head?_dropWhile_not isBlank cs
  rw [hc] at hnot
  simpa using hnot

theorem trims_trim (s : String) : Trims s (trim s) := by
  obtain ⟨l, hl, hblank, hhead⟩ := exists_of_dropWhile_isBlank s.toList
  obtain ⟨r, hr, hblank', hlast⟩ := exists_of_dropWhile_isBlank (s.toList.dropWhile isBlank).reverse
  have hsplit : s.toList.dropWhile isBlank = trimChars s.toList ++ r.reverse := by
    rw [trimChars, ← List.reverse_append, ← hr, List.reverse_reverse]
  refine ⟨⟨String.ofList l, String.ofList r.reverse, ?_, ?_, ?_⟩, fun c hc => ?_, fun c hc => ?_⟩
  · rw [trim, ← String.ofList_append, ← String.ofList_append, List.append_assoc, ← hsplit, ← hl,
      String.ofList_toList]
  · simpa [Blank] using hblank
  · simpa [Blank] using hblank'
  · rw [trim, String.toList_ofList] at hc
    exact hhead c (by rw [hsplit, List.head?_append, hc]; rfl)
  · rw [trim, String.toList_ofList, trimChars, List.getLast?_reverse] at hc
    exact hlast c hc

theorem Trims.eq_trim {s t : String} (h : Trims s t) : t = trim s := by
  obtain ⟨⟨before, after, rfl, hbefore, hafter⟩, hfirst, hlast⟩ := h
  rw [trim, trimChars, String.toList_append, String.toList_append, List.append_assoc]
  by_cases ht : t.toList = []
  · have hblank : ∀ c ∈ before.toList ++ after.toList, isBlank c = true :=
      List.forall_mem_append.2 ⟨hbefore, hafter⟩
    rw [ht, List.nil_append, ← List.append_nil (before.toList ++ after.toList),
      dropWhile_isBlank hblank (by simp)]
    exact String.toList_eq_nil_iff.1 ht
  · rw [dropWhile_isBlank hbefore, List.reverse_append, dropWhile_isBlank, List.reverse_reverse,
      String.ofList_toList]
    · simpa [Blank] using hafter
    · simpa [List.head?_reverse] using hlast
    · cases ht' : t.toList with
      | nil => exact absurd ht' ht
      | cons c cs => simpa [ht'] using hfirst

/-- Nothing is left of a text exactly if it is blank. -/
theorem Trims.eq_empty_iff {s t : String} (h : Trims s t) : t = "" ↔ Blank s := by
  constructor
  · rintro rfl
    obtain ⟨⟨before, after, rfl, hbefore, hafter⟩, -, -⟩ := h
    simpa [Blank] using List.forall_mem_append.2 ⟨hbefore, hafter⟩
  · intro hs
    obtain ⟨⟨before, after, rfl, -, -⟩, hfirst, -⟩ := h
    cases ht : t.toList with
    | nil => exact String.toList_eq_nil_iff.1 ht
    | cons c cs =>
      have hc : isBlank c = true := hs c (by simp [ht])
      rw [hfirst c (by rw [ht]; rfl)] at hc
      cases hc

end Text

/-! ### Reading -/

namespace Supplied

/-- A text is taken apart at its first equals sign. -/
theorem parse?_append {before : String} (h : '=' ∉ before.toList) (value : String) :
    parse? (before ++ "=" ++ value) =
      if Text.trim before = "" then none else some ⟨Text.trim before, value⟩ := by
  have hb : ∀ c ∈ before.toList, decide (c ≠ '=') = true := fun c hc =>
    decide_eq_true fun heq => h (heq ▸ hc)
  have hs : (before ++ "=" ++ value).toList = before.toList ++ '=' :: value.toList := by simp
  rw [parse?, hs, List.takeWhile_append_of_pos hb, List.dropWhile_append_of_pos hb,
    List.takeWhile_cons_of_neg (by decide), List.dropWhile_cons_of_neg (by decide), List.append_nil]
  simp [Text.trim]

theorem parse?_of_not_mem {s : String} (h : '=' ∉ s.toList) : parse? s = none := by
  have hs : ∀ c ∈ s.toList, decide (c ≠ '=') = true := fun c hc =>
    decide_eq_true fun heq => h (heq ▸ hc)
  rw [parse?, List.dropWhile_eq_nil_iff.2 hs]

theorem exists_first_equals {s : String} (h : '=' ∈ s.toList) :
    ∃ before value, '=' ∉ before.toList ∧ s = before ++ "=" ++ value := by
  obtain ⟨l, r, hlr, hl⟩ := List.eq_append_cons_of_mem h
  refine ⟨String.ofList l, String.ofList r, by rwa [String.toList_ofList], ?_⟩
  rw [← String.toList_inj, hlr]
  simp

/-- What is read are the text before the first equals sign, trimmed and not empty, and the text behind
it. -/
theorem parse?_eq_some_iff {s : String} {p : Supplied} : parse? s = some p ↔
    ∃ before, '=' ∉ before.toList ∧ s = before ++ "=" ++ p.value ∧ Text.Trims before p.name ∧
      p.name ≠ "" := by
  constructor
  · intro hp
    by_cases h : '=' ∈ s.toList
    · obtain ⟨before, value, hbefore, rfl⟩ := exists_first_equals h
      rw [parse?_append hbefore] at hp
      split_ifs at hp with hname
      cases hp
      exact ⟨before, hbefore, rfl, Text.trims_trim before, hname⟩
    · rw [parse?_of_not_mem h] at hp
      cases hp
  · rintro ⟨before, hbefore, rfl, htrims, hname⟩
    rw [parse?_append hbefore, ← htrims.eq_trim, if_neg hname]

theorem isSome_parse?_iff {s : String} : (parse? s).isSome ↔
    ∃ before value, '=' ∉ before.toList ∧ s = before ++ "=" ++ value ∧ ¬ Text.Blank before := by
  constructor
  · intro h
    obtain ⟨p, hp⟩ := Option.isSome_iff_exists.1 h
    obtain ⟨before, hbefore, hs, htrims, hname⟩ := parse?_eq_some_iff.1 hp
    exact ⟨before, p.value, hbefore, hs, mt htrims.eq_empty_iff.2 hname⟩
  · rintro ⟨before, value, hbefore, rfl, hblank⟩
    rw [parse?_append hbefore, if_neg (mt (Text.trims_trim before).eq_empty_iff.1 hblank)]
    rfl

end Supplied

/-! ### Looking values up -/

/-- The value of a name is that of the last entry with the name. -/
theorem Input.value?_eq_some_iff {input : Input} {name value : String} :
    input.value? name = some value ↔
      ∃ l r, input = l ++ ⟨name, value⟩ :: r ∧ ∀ p ∈ r, p.name ≠ name := by
  rw [Input.value?, Option.map_eq_some_iff]
  constructor
  · rintro ⟨p, hp, rfl⟩
    obtain ⟨hname, l, r, hlr, hl⟩ := List.find?_eq_some_iff_append.1 hp
    obtain rfl : p.name = name := by simpa using hname
    refine ⟨r.reverse, l.reverse, ?_, ?_⟩
    · rw [← List.reverse_reverse input, hlr]
      simp
    · simpa using hl
  · rintro ⟨l, r, rfl, hr⟩
    refine ⟨⟨name, value⟩, List.find?_eq_some_iff_append.2 ⟨by simp, r.reverse, l.reverse, ?_, ?_⟩, rfl⟩
    · simp
    · simpa using hr

/-- Of several arguments with a name the last one counts. -/
theorem Input.value?_filterMap_parse? {args : List String} {name value : String} :
    Input.value? (args.filterMap Supplied.parse?) name = some value ↔
      ∃ l arg r, args = l ++ arg :: r ∧ Supplied.parse? arg = some ⟨name, value⟩ ∧
        ∀ other ∈ r, ∀ v, Supplied.parse? other ≠ some ⟨name, v⟩ := by
  rw [Input.value?_eq_some_iff]
  constructor
  · rintro ⟨l, r, hlr, hr⟩
    obtain ⟨before, rest, rfl, -, hrest⟩ := List.filterMap_eq_append_iff.1 hlr
    obtain ⟨skipped, arg, after, rfl, hskipped, harg, hafter⟩ := List.filterMap_eq_cons_iff.1 hrest
    refine ⟨before ++ skipped, arg, after, by simp, harg, fun other hother v hv => ?_⟩
    exact hr ⟨name, v⟩ (hafter ▸ List.mem_filterMap.2 ⟨other, hother, hv⟩) rfl
  · rintro ⟨l, arg, r, rfl, harg, hr⟩
    refine ⟨l.filterMap Supplied.parse?, r.filterMap Supplied.parse?, by simp [harg], fun p hp hname => ?_⟩
    obtain ⟨other, hother, hp⟩ := List.mem_filterMap.1 hp
    exact hr other hother p.value (hname ▸ hp)

/-! ### What an extraction asks for -/

namespace Parameter

variable {i j : Input}

theorem resolve_congr {b : Block}
    (h : i.value? b.heading.nameLabel = j.value? b.heading.nameLabel) (s : Scope) :
    resolve i s b = resolve j s b := by
  have hvalue : resolveValue (b.materialize s) s i = resolveValue (b.materialize s) s j := by
    rw [resolveValue, resolveValue, show (b.materialize s).heading = b.heading from rfl, h]
  simp only [resolve, hvalue]

theorem resolveAll_congr {bs : List Block}
    (h : ∀ b ∈ bs, i.value? b.heading.nameLabel = j.value? b.heading.nameLabel) (s : Scope) :
    resolveAll i s bs = resolveAll j s bs := by
  induction bs generalizing s with
  | nil => rfl
  | cons b bs ih =>
    rw [resolveAll_cons, resolveAll_cons, resolve_congr (h b List.mem_cons_self),
      ih fun b hb => h b (List.mem_cons_of_mem _ hb)]

end Parameter

/-- Inputs with the same values for all parameters of the modules give the same results. -/
theorem extract_congr {i j : Input} {modules : List Module}
    (h : ∀ m ∈ modules, ∀ b ∈ m.parameterBlocks,
      i.value? b.heading.nameLabel = j.value? b.heading.nameLabel) :
    extract i modules = extract j modules := by
  have hmodule : ∀ m ∈ modules, m.resolveParameters i = m.resolveParameters j := fun m hm => by
    rw [Module.resolveParameters, Module.resolveParameters, Parameter.resolveAll_congr (h m hm)]
  have hall : resolveParameters i modules = resolveParameters j modules := by
    rw [resolveParameters, resolveParameters, List.map_congr_left hmodule]
  simp only [extract, hall]

/-- Supplied parameters are read as they are written, and only their names and last values matter. -/
theorem Supplied.read_by_name :
    (∀ s, (parse? s).isSome ↔
      ∃ before value, '=' ∉ before.toList ∧ s = before ++ "=" ++ value ∧ ¬ Text.Blank before) ∧
    (∀ before value p, '=' ∉ before.toList → parse? (before ++ "=" ++ value) = some p →
      Text.Trims before p.name ∧ p.value = value) ∧
    (∀ name value, Text.Trims name name → name ≠ "" → '=' ∉ name.toList →
      parse? (name ++ "=" ++ value) = some ⟨name, value⟩) ∧
    (∀ args name value, Input.value? (args.filterMap parse?) name = some value ↔
      ∃ l arg r, args = l ++ arg :: r ∧ parse? arg = some ⟨name, value⟩ ∧
        ∀ other ∈ r, ∀ v, parse? other ≠ some ⟨name, v⟩) ∧
    ∀ (modules : List Module) (i j : Input), (∀ m ∈ modules, ∀ b ∈ m.parameterBlocks,
        i.value? b.heading.nameLabel = j.value? b.heading.nameLabel) →
      extract i modules = extract j modules := by
  refine ⟨fun s => isSome_parse?_iff, fun before value p hbefore hp => ?_,
    fun name value htrims hname hequals => ?_, fun args name value => Input.value?_filterMap_parse?,
    fun modules i j h => extract_congr h⟩
  · rw [parse?_append hbefore] at hp
    split_ifs at hp
    cases hp
    exact ⟨Text.trims_trim before, rfl⟩
  · exact parse?_eq_some_iff.2 ⟨name, hequals, rfl, htrims, hname⟩

/-- Of the values of the region the last one counts, with the equals sign in it. It may as well be
supplied on its own. -/
theorem Supplied.read_by_name_region :
    let args := ["region=us", "region=eu=1", "zone=a"]
    let input : Input := args.filterMap parse?
    let region : Block := ⟨⟨"data", [parameterType, "region"], ⟨none, none⟩⟩, [], [], [], []⟩
    let modules : List Module := [⟨[], [region], .empty, true⟩]
    input.value? "region" = some "eu=1" ∧
      extract input modules = extract [⟨"region", "eu=1"⟩] modules := by
  intro args input region modules
  obtain ⟨-, -, hformat, hlast, hextract⟩ := read_by_name
  have htrims : Text.Trims "region" "region" := by
    have htrim : Text.trim "region" = "region" := by decide +kernel
    exact htrim ▸ Text.trims_trim "region"
  have hread : parse? "region=eu=1" = some ⟨"region", "eu=1"⟩ :=
    hformat "region" "eu=1" htrims (by decide) (by decide)
  have hzone : parse? "zone=a" = some ⟨"zone", "a"⟩ := by decide +kernel
  have hvalue : input.value? "region" = some "eu=1" :=
    (hlast args "region" "eu=1").2 ⟨["region=us"], _, ["zone=a"], rfl, hread, by simp [hzone]⟩
  refine ⟨hvalue, hextract modules _ _ fun m hm b hb => ?_⟩
  obtain rfl := List.mem_singleton.1 hm
  obtain rfl : b = region := List.mem_singleton.1 hb
  exact hvalue

end Preflight
