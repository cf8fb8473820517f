import Mathlib.Data.List.TakeWhile
import Preflight.Json.Printer
import Preflight.Proofs.JsonReading
import Preflight.Proofs.WrittenIntegers

/-!
# JSON text reads back

What is written as JSON without blanks is read as the same data, with the entries of each object in
order of their names (`Json.read?_compact`).

* Strings come back by their characters: each is escaped so that one step of the reading undoes it.
* Numbers come back if their own text does (`Number.ReadsBack`). Integers that fit a 64-bit word do.
* Reading takes two steps of fuel at most for each character of the text, and one level of depth for
  each list or object around.
-/

namespace Preflight

/-! ### What is read -/

mutual
/-- Data with the entries of all objects in order of their names. -/
def Datum.sorted : Datum → Datum
  | .list items => .list (sortedItems items)
  | .object entries => .object (sortedEntries [] entries)
  | d => d

/-- Each item with its entries in order. -/
def sortedItems : List Datum → List Datum
  | [] => []
  | d :: ds => d.sorted :: sortedItems ds

/-- Entries put in order after others. -/
def sortedEntries (before : Entries Datum) : List (String × Datum) → Entries Datum
  | [] => before
  | (k, d) :: es => sortedEntries (Json.insertSorted k d.sorted before) es
end

mutual
/-- How deep lists and objects are nested. -/
def Datum.depth : Datum → Nat
  | .list items => itemsDepth items + 1
  | .object entries => entriesDepth entries + 1
  | _ => 0

/-- How deep the items nest lists and objects. -/
def itemsDepth : List Datum → Nat
  | [] => 0
  | d :: ds => max d.depth (itemsDepth ds)

/-- How deep the entries nest lists and objects. -/
def entriesDepth : List (String × Datum) → Nat
  | [] => 0
  | (_, d) :: es => max d.depth (entriesDepth es)
end

theorem sortedEntries_cons (before : Entries Datum) (e : String × Datum) (es : List (String × Datum)) :
    sortedEntries before (e :: es) = sortedEntries (Json.insertSorted e.1 e.2.sorted before) es := by
  rw [sortedEntries]

theorem entriesDepth_cons (e : String × Datum) (es : List (String × Datum)) :
    entriesDepth (e :: es) = max e.2.depth (entriesDepth es) := by
  rw [entriesDepth]

theorem sortedItems_eq_map (ds : List Datum) : sortedItems ds = ds.map Datum.sorted := by
  induction ds with
  | nil => rfl
  | cons d ds ih => rw [sortedItems, ih, List.map_cons]

theorem inNameOrder_sortedEntries {before : Entries Datum} (h : Json.InNameOrder before)
    (es : List (String × Datum)) : Json.InNameOrder (sortedEntries before es) := by
  induction es generalizing before with
  | nil => exact h
  | cons e es ih =>
    rw [sortedEntries_cons]
    exact ih (h.insertSorted e.1 e.2.sorted)

/-- Under each name is what stood there, in order itself. -/
theorem get?_sortedEntries {es : Entries Datum} (hes : es.keys.Nodup) (before : Entries Datum)
    (key : String) :
    Entries.get? (sortedEntries before es) key =
      ((Entries.get? es key).map Datum.sorted).or (Entries.get? before key) := by
  induction es generalizing before with
  | nil => rfl
  | cons e es ih =>
    obtain ⟨k, d⟩ := e
    obtain ⟨hk, htail⟩ := List.nodup_cons.1 hes
    rw [sortedEntries_cons, ih htail, Entries.get?_cons]
    by_cases heq : k = key
    · subst heq
      have hnone : Entries.get? es k = none := by
        rw [← Option.not_isSome_iff_eq_none, Entries.isSome_get?]
        exact hk
      simp [hnone, Json.get?_insertSorted_self]
    · simp [heq, Json.get?_insertSorted_of_ne heq]

theorem depth_list_le {items : List Datum} {depth : Nat} :
    (Datum.list items).depth ≤ depth ↔ ∃ k, depth = k + 1 ∧ itemsDepth items ≤ k := by
  rw [Datum.depth]
  constructor
  · intro h
    exact ⟨depth - 1, by omega, by omega⟩
  · rintro ⟨k, rfl, h⟩
    omega

theorem depth_object_le {entries : List (String × Datum)} {depth : Nat} :
    (Datum.object entries).depth ≤ depth ↔ ∃ k, depth = k + 1 ∧ entriesDepth entries ≤ k := by
  rw [Datum.depth]
  constructor
  · intro h
    exact ⟨depth - 1, by omega, by omega⟩
  · rintro ⟨k, rfl, h⟩
    omega

/-- The JSON text of a number reads back as the number. -/
def Number.ReadsBack (n : Number) : Prop := Json.readNumber? n.jsonText.toList = some (n, [])

namespace Json

/-! ### Strings -/

theorem hex4?_hexDigit {n : Nat} (h : n < 32) :
    hex4? '0' '0' (Text.hexDigit (n / 16)) (Text.hexDigit (n % 16)) = some n := by
  revert h
  revert n
  decide

/-- A control character is read from its code point. -/
theorem readString?_coded {c : Char} (hc : c.toNat < 32) {cs s rest : List Char}
    (h : readString? none cs = some (s, rest)) :
    readString? none ('\\' :: 'u' :: '0' :: '0' :: Text.hexDigit (c.toNat / 16) ::
      Text.hexDigit (c.toNat % 16) :: cs) = some (c :: s, rest) := by
  rw [readString?, hex4?_hexDigit hc]
  have hlow : ¬(0xD800 ≤ c.toNat ∧ c.toNat < 0xDC00) := by omega
  have hhigh : ¬(0xDC00 ≤ c.toNat ∧ c.toNat < 0xE000) := by omega
  simp [hlow, hhigh, h]

theorem readString?_plain {c : Char} (hquote : c ≠ '"') (hbackslash : c ≠ '\\') (hc : ¬c.toNat < 32)
    {cs s rest : List Char} (h : readString? none cs = some (s, rest)) :
    readString? none (c :: cs) = some (c :: s, rest) := by
  rw [readString?]
  · simp [hbackslash, hc, h]
  · exact hquote
  · exact fun _ _ _ _ _ heq => absurd heq hbackslash
  · exact fun _ _ heq => absurd heq hbackslash

/-- One step of the reading undoes the escape of a character. -/
theorem readString?_escapeChar (c : Char) {cs s rest : List Char}
    (h : readString? none cs = some (s, rest)) :
    readString? none (Text.escapeChar c ++ cs) = some (c :: s, rest) := by
  unfold Text.escapeChar
  split
  case h_8 hquote hbackslash _ _ _ _ _ =>
    split_ifs with hc
    · exact readString?_coded hc h
    · exact readString?_plain hquote hbackslash hc h
  all_goals simp [readString?, unescape?, h]

theorem readString?_escape (s rest : List Char) :
    readString? none (Text.escape s ++ '"' :: rest) = some (s, rest) := by
  induction s with
  | nil => simp [Text.escape, readString?]
  | cons c s ih =>
    rw [Text.escape, List.flatMap_cons, List.append_assoc]
    exact readString?_escapeChar c ih

/-! ### Numbers -/

/-- A number does not go on with this text. -/
def EndsNumber (rest : List Char) : Prop :=
  ∀ c ∈ rest.head?, c.isDigit = false ∧ c ≠ '.' ∧ c ≠ 'e' ∧ c ≠ 'E'

theorem endsNumber_nil : EndsNumber [] := by simp [EndsNumber]

theorem spanDigits_append {cs ds r rest : List Char} (h : EndsNumber rest)
    (hs : spanDigits cs = (ds, r)) : spanDigits (cs ++ rest) = (ds, r ++ rest) := by
  induction cs generalizing ds r with
  | nil =>
    cases hs
    cases rest with
    | nil => rfl
    | cons c rest =>
      obtain ⟨hc, -⟩ := h c rfl
      simp [spanDigits, hc]
  | cons c cs ih =>
    simp only [spanDigits, Prod.mk.injEq] at ih hs ⊢
    obtain ⟨rfl, rfl⟩ := hs
    by_cases hc : c.isDigit = true
    · simpa [hc] using ih ⟨rfl, rfl⟩
    · simp [hc]

theorem readPlaces?_append {rest cs r : List Char} {places : Option (List Char)} (h : EndsNumber rest)
    (hp : readPlaces? cs = some (places, r)) : readPlaces? (cs ++ rest) = some (places, r ++ rest) := by
  unfold readPlaces? at hp
  split at hp
  · rename_i cs
    cases hs : spanDigits cs with
    | mk ds r' =>
      rw [List.cons_append, readPlaces?, spanDigits_append h hs]
      rw [hs] at hp
      dsimp only at hp ⊢
      split_ifs at hp ⊢ with hds
      cases hp
      rfl
  · rename_i hpoint
    cases hp
    rw [readPlaces?]
    intro cs' heq
    cases cs with
    | nil => exact (h '.' (by simp_all)).2.1 rfl
    | cons c cs =>
      cases heq
      exact hpoint cs rfl

/-- The digits of a power are read with any rest left over. -/
theorem powerDigits_append {rest : List Char} (h : EndsNumber rest) (negative : Bool)
    (exponent : Option (Bool × List Char)) (cs r : List Char)
    (hcs : (let (ds, r) := spanDigits cs
      if ds = [] then none else some (some (negative, ds), r)) = some (exponent, r)) :
    (let (ds, r) := spanDigits (cs ++ rest)
      if ds = [] then none else some (some (negative, ds), r)) = some (exponent, r ++ rest) := by
  cases hs : spanDigits cs with
  | mk ds r' =>
    rw [hs] at hcs
    rw [spanDigits_append h hs]
    dsimp only at hcs ⊢
    split_ifs at hcs ⊢ with hds
    cases hcs
    rfl

theorem readPower?_append {rest cs r : List Char} {exponent : Option (Bool × List Char)}
    (h : EndsNumber rest) (hp : readPower? cs = some (exponent, r)) :
    readPower? (cs ++ rest) = some (exponent, r ++ rest) := by
  cases cs with
  | nil =>
    cases hp
    cases rest with
    | nil => rfl
    | cons c rest =>
      obtain ⟨-, -, he, hE⟩ := h c rfl
      simp [readPower?, he, hE]
  | cons c cs =>
    unfold readPower? at hp ⊢
    rw [List.cons_append]
    by_cases he : c = 'e' ∨ c = 'E'
    · simp only [if_pos he] at hp ⊢
      cases cs with
      | nil => simp [spanDigits] at hp
      | cons d ds =>
        by_cases hminus : d = '-'
        · subst hminus
          exact powerDigits_append h true exponent ds r hp
        · by_cases hplus : d = '+'
          · subst hplus
            exact powerDigits_append h false exponent ds r hp
          · have hds := powerDigits_append h false exponent (d :: ds) r
            simp_all
    · simp only [if_neg he] at hp ⊢
      cases hp
      rfl

theorem readLiteral?_append {rest cs r : List Char} {l : Literal} (h : EndsNumber rest)
    (hl : readLiteral? cs = some (l, r)) : readLiteral? (cs ++ rest) = some (l, r ++ rest) := by
  unfold readLiteral? at hl ⊢
  cases hs : spanDigits cs with
  | mk whole r₁ =>
    rw [hs] at hl
    rw [spanDigits_append h hs]
    dsimp only at hl ⊢
    split_ifs at hl ⊢ with hw
    obtain ⟨⟨places, r₂⟩, hp, hl⟩ := Option.bind_eq_some_iff.1 hl
    obtain ⟨⟨exponent, r₃⟩, he, hl⟩ := Option.bind_eq_some_iff.1 hl
    cases hl
    rw [readPlaces?_append h hp]
    dsimp only [Option.bind_eq_bind, Option.bind_some]
    rw [readPower?_append h he]
    rfl

theorem readNumber?_append {rest cs : List Char} {n : Number} (h : EndsNumber rest)
    (hn : readNumber? cs = some (n, [])) : readNumber? (cs ++ rest) = some (n, rest) := by
  unfold readNumber? at hn
  split at hn
  · rename_i cs
    rw [List.cons_append, readNumber?]
    obtain ⟨⟨l, r⟩, hl, hn⟩ := Option.bind_eq_some_iff.1 hn
    obtain ⟨n', hn', hn⟩ := Option.bind_eq_some_iff.1 hn
    cases hn
    simp [readLiteral?_append h hl, hn']
  · rename_i hminus
    obtain ⟨⟨l, r⟩, hl, hn⟩ := Option.bind_eq_some_iff.1 hn
    obtain ⟨n', hn', hn⟩ := Option.bind_eq_some_iff.1 hn
    cases hn
    rw [readNumber?]
    · simp [readLiteral?_append h hl, hn']
    · intro cs' heq
      cases cs with
      | nil => simp [readLiteral?, spanDigits] at hl
      | cons c cs =>
        cases heq
        exact hminus cs rfl

/-- A number starts with a sign or a digit. -/
theorem exists_head_of_readNumber? {cs r : List Char} {n : Number} (h : readNumber? cs = some (n, r)) :
    ∃ c cs', cs = c :: cs' ∧ (c = '-' ∨ c.isDigit = true) := by
  unfold readNumber? at h
  split at h
  · exact ⟨'-', _, rfl, Or.inl rfl⟩
  · obtain ⟨⟨l, r⟩, hl, -⟩ := Option.bind_eq_some_iff.1 h
    cases cs with
    | nil => simp [readLiteral?, spanDigits] at hl
    | cons c cs =>
      refine ⟨c, cs, rfl, Or.inr ?_⟩
      by_contra hc
      simp [readLiteral?, spanDigits, hc] at hl

theorem readLiteral?_digitsOf (n : Nat) :
    readLiteral? (Decimal.digitsOf n) = some (⟨Decimal.digitsOf n, none, none⟩, []) := by
  have hall : ∀ c ∈ Decimal.digitsOf n, c.isDigit = true := by
    intro c hc
    exact Decimal.isDigit_of_mem_digitsOf hc
  have hspan : spanDigits (Decimal.digitsOf n) = (Decimal.digitsOf n, []) := by
    rw [spanDigits, List.takeWhile_eq_self_iff.2 hall, List.dropWhile_eq_nil_iff.2 hall]
  have hzero : ¬(Decimal.digitsOf n = [] ∨
      ((Decimal.digitsOf n).head? = some '0' ∧ 1 < (Decimal.digitsOf n).length)) := by
    rintro (h | ⟨hhead, hlength⟩)
    · exact Decimal.digitsOf_ne_nil n h
    · exact Decimal.head?_digitsOf hlength hhead
  rw [readLiteral?, hspan]
  simp only [if_neg hzero]
  rfl

theorem toNumber?_digitsOf {negative : Bool} {m : Nat} {n : Int}
    (hn : (if negative then -(m : Int) else m) = n) (h : Number.inRange n = true) :
    (⟨Decimal.digitsOf m, none, none⟩ : Literal).toNumber? negative = some (.int n) := by
  rw [Literal.toNumber?]
  simp only [Decimal.ofDigits_digitsOf, hn, if_pos h]

theorem readNumber?_neg {m : Nat} (h : Number.inRange (-(m : Int)) = true) :
    readNumber? ('-' :: Decimal.digitsOf m) = some (.int (-(m : Int)), []) := by
  rw [readNumber?, readLiteral?_digitsOf, Option.bind_eq_bind, Option.bind_some]
  dsimp only
  rw [toNumber?_digitsOf (if_pos rfl) h]
  rfl

theorem readNumber?_natCast {m : Nat} (h : Number.inRange (m : Int) = true) :
    readNumber? (Decimal.digitsOf m) = some (.int m, []) := by
  rw [readNumber?]
  · rw [readLiteral?_digitsOf, Option.bind_eq_bind, Option.bind_some]
    dsimp only
    rw [toNumber?_digitsOf (if_neg Bool.false_ne_true) h]
    rfl
  · intro cs hcs
    have hminus : '-' ∈ Decimal.digitsOf m := by simp [hcs]
    exact absurd (Decimal.isDigit_of_mem_digitsOf hminus) (by decide)

/-- An integer that fits a 64-bit word reads back. -/
theorem readsBack_int {n : Int} (h : Number.inRange n = true) : (Number.int n).ReadsBack := by
  rw [Number.ReadsBack, Number.jsonText]
  rcases lt_or_ge n 0 with hneg | hpos
  · obtain ⟨m, rfl⟩ := Int.exists_eq_neg_ofNat hneg.le
    rw [Decimal.toList_toString_neg (by omega), readNumber?_neg h]
  · obtain ⟨m, rfl⟩ := Int.eq_ofNat_of_zero_le hpos
    rw [Decimal.toList_toString_natCast, readNumber?_natCast h]

/-! ### Data -/

theorem toList_quote (s : String) : (quote s).toList = '"' :: (Text.escape s.toList ++ ['"']) := by
  simp [quote]

theorem endsNumber_cons {c : Char} (h : c = ',' ∨ c = ']' ∨ c = '\x7d') (rest : List Char) :
    EndsNumber (c :: rest) := by
  intro d hd
  cases hd
  rcases h with rfl | rfl | rfl <;> decide

/-- The items of a list as they are written. -/
def itemsText (items : List Datum) : List Char := (",".intercalate (compactItems items)).toList

@[simp] theorem itemsText_singleton (d : Datum) : itemsText [d] = (compact d).toList := by
  simp [itemsText, compactItems]

@[simp] theorem itemsText_cons_cons (d e : Datum) (ds : List Datum) :
    itemsText (d :: e :: ds) = (compact d).toList ++ ',' :: itemsText (e :: ds) := by
  simp [itemsText, compactItems, String.toList_intercalate]

/-- The entries of an object as they are written. -/
def entriesText (entries : List (String × Datum)) : List Char :=
  (",".intercalate (compactEntries entries)).toList

@[simp] theorem entriesText_singleton (e : String × Datum) :
    entriesText [e] = (quote e.1).toList ++ ':' :: (compact e.2).toList := by
  simp [entriesText, compactEntries]

@[simp] theorem entriesText_cons_cons (e f : String × Datum) (es : List (String × Datum)) :
    entriesText (e :: f :: es) =
      (quote e.1).toList ++ ':' :: ((compact e.2).toList ++ ',' :: entriesText (f :: es)) := by
  simp [entriesText, compactEntries, String.toList_intercalate]

theorem toList_compact_list (items : List Datum) :
    (compact (.list items)).toList = '[' :: (itemsText items ++ [']']) := by
  simp [compact, itemsText]

theorem toList_compact_object (entries : List (String × Datum)) :
    (compact (.object entries)).toList = '\x7b' :: (entriesText entries ++ ['\x7d']) := by
  simp [compact, entriesText]

/-- A character with which no other datum than a number starts. -/
theorem readDatum?_of_number {c : Char} (hc : c = '-' ∨ c.isDigit = true) (fuel depth : Nat)
    (cs : List Char) : readDatum? (fuel + 1) depth (c :: cs) =
      (readNumber? (c :: cs)).map fun (n, rest) => (.number n, rest) := by
  have hne : ∀ d : Char, d.isDigit = false → d ≠ '-' → c ≠ d := by
    rintro d hd hminus rfl
    rcases hc with rfl | hc
    · exact hminus rfl
    · simp [hd] at hc
  have hblank : skipBlanks (c :: cs) = c :: cs := by
    simp [skipBlanks, isBlank, hne ' ' (by decide) (by decide), hne '\n' (by decide) (by decide),
      hne '\t' (by decide) (by decide), hne '\r' (by decide) (by decide)]
  have habsurd : ∀ {d : Char} {ds : List Char},
      c :: cs = d :: ds → d.isDigit = false → d ≠ '-' → False :=
    fun heq hd hminus => hne _ hd hminus (List.cons.inj heq).1
  rw [readDatum?, hblank]
  split
  case h_1 heq => cases heq
  case h_2 heq => exact (habsurd heq (by decide) (by decide)).elim
  case h_3 heq => exact (habsurd heq (by decide) (by decide)).elim
  case h_4 heq => exact (habsurd heq (by decide) (by decide)).elim
  case h_5 heq => exact (habsurd heq (by decide) (by decide)).elim
  case h_6 heq => exact (habsurd heq (by decide) (by decide)).elim
  case h_7 heq => exact (habsurd heq (by decide) (by decide)).elim
  case h_8 => cases readNumber? (c :: cs) <;> rfl

theorem readDatum?_number {n : Number} (h : n.ReadsBack) (fuel depth : Nat) {rest : List Char}
    (hrest : EndsNumber rest) :
    readDatum? (fuel + 1) depth (n.jsonText.toList ++ rest) = some (.number n, rest) := by
  obtain ⟨c, cs, hcs, hc⟩ := exists_head_of_readNumber? h
  have hn := readNumber?_append hrest h
  rw [hcs, List.cons_append] at hn ⊢
  rw [readDatum?_of_number hc, hn]
  rfl

theorem skipBlanks_cons {c : Char} (h : isBlank c = false) (cs : List Char) :
    skipBlanks (c :: cs) = c :: cs := by
  simp [skipBlanks, h]

theorem readDatum?_openList {c : Char} (hblank : isBlank c = false) (hc : c ≠ ']') (fuel depth : Nat)
    (cs : List Char) : readDatum? (fuel + 1) (depth + 1) ('[' :: c :: cs) =
      (readItems? fuel depth (c :: cs)).map fun (items, rest) => (.list items, rest) := by
  have hopen := skipBlanks_cons (c := '[') (by decide) (c :: cs)
  simp only [readDatum?, hopen, skipBlanks_cons hblank]
  split
  · rename_i heq
    exact absurd (List.cons.inj heq).1 hc
  · cases readItems? fuel depth (c :: cs) <;> rfl

theorem readDatum?_openObject (fuel depth : Nat) (cs : List Char) :
    readDatum? (fuel + 1) (depth + 1) ('\x7b' :: '"' :: cs) =
      (readEntries? fuel depth [] ('"' :: cs)).map fun (entries, rest) => (.object entries, rest) := by
  have hopen := skipBlanks_cons (c := '\x7b') (by decide) ('"' :: cs)
  have hquote := skipBlanks_cons (c := '"') (by decide) cs
  simp only [readDatum?, hopen, hquote]
  split
  · rename_i heq
    cases heq
  · cases readEntries? fuel depth [] ('"' :: cs) <;> rfl

theorem readItems?_last {fuel depth : Nat} {cs rest : List Char} {d : Datum}
    (h : readDatum? fuel depth cs = some (d, ']' :: rest)) :
    readItems? (fuel + 1) depth cs = some ([d], rest) := by
  have hclose := skipBlanks_cons (c := ']') (by decide) rest
  rw [readItems?, h]
  simp only [Option.bind_eq_bind, Option.bind_some, hclose]
  rfl

theorem readItems?_next {fuel depth : Nat} {cs rest : List Char} {d : Datum}
    (h : readDatum? fuel depth cs = some (d, ',' :: rest)) : readItems? (fuel + 1) depth cs =
      (readItems? fuel depth rest).map fun (ds, rest) => (d :: ds, rest) := by
  have hcomma := skipBlanks_cons (c := ',') (by decide) rest
  rw [readItems?, h]
  simp only [Option.bind_eq_bind, Option.bind_some, hcomma]
  cases readItems? fuel depth rest <;> rfl

theorem readEntries?_last {fuel depth : Nat} {cs rest : List Char} {d : Datum} (key : String)
    (before : Entries Datum) (h : readDatum? fuel depth cs = some (d, '\x7d' :: rest)) :
    readEntries? (fuel + 1) depth before ((quote key).toList ++ ':' :: cs) =
      some (insertSorted key d before, rest) := by
  have hcolon := skipBlanks_cons (c := ':') (by decide) cs
  have hclose := skipBlanks_cons (c := '\x7d') (by decide) rest
  have hkey := readString?_escape key.toList (':' :: cs)
  rw [toList_quote, List.cons_append, List.append_assoc, List.singleton_append, readEntries?,
    skipBlanks_cons (by decide)]
  simp only [hkey, hcolon, h, hclose, Option.bind_eq_bind, Option.bind_some, String.ofList_toList]
  rfl

theorem readEntries?_next {fuel depth : Nat} {cs rest : List Char} {d : Datum} (key : String)
    (before : Entries Datum) (h : readDatum? fuel depth cs = some (d, ',' :: rest)) :
    readEntries? (fuel + 1) depth before ((quote key).toList ++ ':' :: cs) =
      readEntries? fuel depth (insertSorted key d before) rest := by
  have hcolon := skipBlanks_cons (c := ':') (by decide) cs
  have hcomma := skipBlanks_cons (c := ',') (by decide) rest
  have hkey := readString?_escape key.toList (':' :: cs)
  rw [toList_quote, List.cons_append, List.append_assoc, List.singleton_append, readEntries?,
    skipBlanks_cons (by decide)]
  simp only [hkey, hcolon, h, hcomma, Option.bind_eq_bind, Option.bind_some, String.ofList_toList]

/-- The text of a datum starts with neither a blank nor a closing bracket. -/
theorem exists_head_compact {d : Datum} (h : d.Regular Number.ReadsBack) :
    ∃ c cs, (compact d).toList = c :: cs ∧ isBlank c = false ∧ c ≠ ']' := by
  cases h with
  | null => exact ⟨_, _, rfl, by decide⟩
  | bool b => cases b <;> exact ⟨_, _, rfl, by decide⟩
  | string s => exact ⟨_, _, toList_quote s, by decide⟩
  | list _ => exact ⟨_, _, toList_compact_list _, by decide⟩
  | object _ _ => exact ⟨_, _, toList_compact_object _, by decide⟩
  | number hn =>
    obtain ⟨c, cs, hcs, hc⟩ := exists_head_of_readNumber? hn
    refine ⟨c, cs, hcs, ?_, ?_⟩
    · rcases hc with rfl | hc
      · decide
      · rw [isBlank, decide_eq_false_iff_not]
        rintro (rfl | rfl | rfl | rfl) <;> revert hc <;> decide
    · rintro rfl
      revert hc
      decide

theorem exists_head_itemsText {d : Datum} {ds : List Datum}
    (h : ∀ e ∈ d :: ds, e.Regular Number.ReadsBack) :
    ∃ c cs, itemsText (d :: ds) = c :: cs ∧ isBlank c = false ∧ c ≠ ']' := by
  obtain ⟨c, cs, hcs, hc⟩ := exists_head_compact (h d List.mem_cons_self)
  cases ds with
  | nil => exact ⟨c, cs, by rw [itemsText_singleton, hcs], hc⟩
  | cons e ds => exact ⟨c, _, by rw [itemsText_cons_cons, hcs, List.cons_append], hc⟩

theorem exists_tail_entriesText (e : String × Datum) (es : List (String × Datum)) :
    ∃ cs, entriesText (e :: es) = '"' :: cs := by
  cases es with
  | nil => exact ⟨_, by rw [entriesText_singleton, toList_quote, List.cons_append]⟩
  | cons f es => exact ⟨_, by rw [entriesText_cons_cons, toList_quote, List.cons_append]⟩

theorem length_compact_pos {d : Datum} (h : d.Regular Number.ReadsBack) :
    0 < (compact d).toList.length := by
  obtain ⟨c, cs, hcs, -⟩ := exists_head_compact h
  simp [hcs]

theorem readDatum?_list {d : Datum} {ds : List Datum} (h : ∀ e ∈ d :: ds, e.Regular Number.ReadsBack)
    {fuel depth : Nat} {rest : List Char} (hitems :
      readItems? fuel depth (itemsText (d :: ds) ++ ']' :: rest) = some (sortedItems (d :: ds), rest)) :
    readDatum? (fuel + 1) (depth + 1) ((compact (.list (d :: ds))).toList ++ rest) =
      some ((Datum.list (d :: ds)).sorted, rest) := by
  obtain ⟨c, cs, hcs, hblank, hc⟩ := exists_head_itemsText h
  rw [hcs, List.cons_append] at hitems
  rw [toList_compact_list, List.cons_append, List.append_assoc, hcs, List.cons_append,
    readDatum?_openList hblank hc, List.singleton_append, hitems]
  rfl

theorem readDatum?_object (e : String × Datum) (es : List (String × Datum)) {fuel depth : Nat}
    {rest : List Char} (hentries : readEntries? fuel depth [] (entriesText (e :: es) ++ '\x7d' :: rest) =
      some (sortedEntries [] (e :: es), rest)) :
    readDatum? (fuel + 1) (depth + 1) ((compact (.object (e :: es))).toList ++ rest) =
      some ((Datum.object (e :: es)).sorted, rest) := by
  obtain ⟨cs, hcs⟩ := exists_tail_entriesText e es
  rw [hcs, List.cons_append] at hentries
  rw [toList_compact_object, List.cons_append, List.append_assoc, hcs, List.cons_append,
    readDatum?_openObject, List.singleton_append, hentries]
  rfl

theorem readItems?_cons {d e : Datum} {ds : List Datum} {fuel depth : Nat} {rest : List Char}
    (hfirst : readDatum? fuel depth ((compact d).toList ++ ',' :: (itemsText (e :: ds) ++ ']' :: rest)) =
      some (d.sorted, ',' :: (itemsText (e :: ds) ++ ']' :: rest)))
    (hothers : readItems? fuel depth (itemsText (e :: ds) ++ ']' :: rest) =
      some (sortedItems (e :: ds), rest)) :
    readItems? (fuel + 1) depth (itemsText (d :: e :: ds) ++ ']' :: rest) =
      some (sortedItems (d :: e :: ds), rest) := by
  rw [itemsText_cons_cons, List.append_assoc, List.cons_append, readItems?_next hfirst, hothers]
  rfl

theorem readEntries?_cons {e f : String × Datum} {es : List (String × Datum)} {before : Entries Datum}
    {fuel depth : Nat} {rest : List Char}
    (hfirst : readDatum? fuel depth
      ((compact e.2).toList ++ ',' :: (entriesText (f :: es) ++ '\x7d' :: rest)) =
        some (e.2.sorted, ',' :: (entriesText (f :: es) ++ '\x7d' :: rest)))
    (hothers : readEntries? fuel depth (insertSorted e.1 e.2.sorted before)
      (entriesText (f :: es) ++ '\x7d' :: rest) =
        some (sortedEntries (insertSorted e.1 e.2.sorted before) (f :: es), rest)) :
    readEntries? (fuel + 1) depth before (entriesText (e :: f :: es) ++ '\x7d' :: rest) =
      some (sortedEntries before (e :: f :: es), rest) := by
  rw [sortedEntries_cons, entriesText_cons_cons, List.append_assoc, List.cons_append, List.append_assoc,
    List.cons_append, readEntries?_next e.1 before hfirst, hothers]

theorem length_entriesText_singleton (e : String × Datum) :
    (compact e.2).toList.length ≤ (entriesText [e]).length := by
  rw [entriesText_singleton, List.length_append, List.length_cons]
  omega

theorem length_entriesText_cons (e f : String × Datum) (es : List (String × Datum)) :
    (compact e.2).toList.length + (entriesText (f :: es)).length + 1 ≤
      (entriesText (e :: f :: es)).length := by
  rw [entriesText_cons_cons, List.length_append, List.length_cons, List.length_append, List.length_cons]
  omega

theorem readDatum?_null (fuel depth : Nat) (rest : List Char) :
    readDatum? (fuel + 1) depth ((compact .null).toList ++ rest) = some (.null, rest) := by
  simp [compact, readDatum?, skipBlanks, isBlank, stripWord?]

theorem readDatum?_bool (b : Bool) (fuel depth : Nat) (rest : List Char) :
    readDatum? (fuel + 1) depth ((compact (.bool b)).toList ++ rest) = some (.bool b, rest) := by
  cases b <;> simp [compact, readDatum?, skipBlanks, isBlank, stripWord?]

theorem readDatum?_string (s : String) (fuel depth : Nat) (rest : List Char) :
    readDatum? (fuel + 1) depth ((compact (.string s)).toList ++ rest) = some (.string s, rest) := by
  rw [compact, toList_quote]
  simp [readDatum?, skipBlanks, isBlank, readString?_escape]

theorem readDatum?_emptyList (fuel depth : Nat) (rest : List Char) :
    readDatum? (fuel + 1) (depth + 1) ((compact (.list [])).toList ++ rest) = some (.list [], rest) := by
  simp [compact, compactItems, readDatum?, skipBlanks, isBlank]

theorem readDatum?_emptyObject (fuel depth : Nat) (rest : List Char) :
    readDatum? (fuel + 1) (depth + 1) ((compact (.object [])).toList ++ rest) =
      some (.object [], rest) := by
  simp [compact, compactEntries, readDatum?, skipBlanks, isBlank]

/-- The text of a datum is read back, with whatever text follows left over. -/
def Rereads (d : Datum) : Prop :=
  ∀ ⦃fuel depth : Nat⦄ ⦃rest : List Char⦄, 2 * (compact d).toList.length ≤ fuel → d.depth ≤ depth →
    EndsNumber rest → readDatum? fuel depth ((compact d).toList ++ rest) = some (d.sorted, rest)

theorem readItems?_itemsText {d : Datum} {ds : List Datum} (h : ∀ e ∈ d :: ds, Rereads e)
    {fuel depth : Nat} {rest : List Char} (hfuel : 2 * (itemsText (d :: ds)).length + 1 ≤ fuel)
    (hdepth : itemsDepth (d :: ds) ≤ depth) :
    readItems? fuel depth (itemsText (d :: ds) ++ ']' :: rest) = some (sortedItems (d :: ds), rest) := by
  induction ds generalizing d fuel with
  | nil =>
    obtain ⟨fuel, rfl⟩ : ∃ f, fuel = f + 1 := ⟨fuel - 1, by omega⟩
    obtain ⟨hd, -⟩ := max_le_iff.1 hdepth
    rw [itemsText_singleton] at hfuel ⊢
    exact readItems?_last (h d List.mem_cons_self (by omega) hd (endsNumber_cons (by simp) rest))
  | cons e ds ih =>
    obtain ⟨fuel, rfl⟩ : ∃ f, fuel = f + 1 := ⟨fuel - 1, by omega⟩
    obtain ⟨hd, hds⟩ := max_le_iff.1 hdepth
    obtain ⟨hreads, htail⟩ := List.forall_mem_cons.1 h
    rw [itemsText_cons_cons, List.length_append, List.length_cons] at hfuel
    exact readItems?_cons (hreads (by omega) hd (endsNumber_cons (by simp) _)) (ih htail (by omega) hds)

theorem readEntries?_entriesText {e : String × Datum} {es : List (String × Datum)}
    (h : ∀ f ∈ e :: es, Rereads f.2) {fuel depth : Nat} {rest : List Char} (before : Entries Datum)
    (hfuel : 2 * (entriesText (e :: es)).length + 1 ≤ fuel) (hdepth : entriesDepth (e :: es) ≤ depth) :
    readEntries? fuel depth before (entriesText (e :: es) ++ '\x7d' :: rest) =
      some (sortedEntries before (e :: es), rest) := by
  induction es generalizing e fuel before with
  | nil =>
    obtain ⟨fuel, rfl⟩ : ∃ f, fuel = f + 1 := ⟨fuel - 1, by omega⟩
    have hlength := length_entriesText_singleton e
    rw [entriesDepth_cons] at hdepth
    obtain ⟨hd, -⟩ := max_le_iff.1 hdepth
    rw [sortedEntries_cons, entriesText_singleton, List.append_assoc, List.cons_append]
    exact readEntries?_last e.1 before
      (h e List.mem_cons_self (by omega) hd (endsNumber_cons (by simp) rest))
  | cons f es ih =>
    obtain ⟨fuel, rfl⟩ : ∃ f, fuel = f + 1 := ⟨fuel - 1, by omega⟩
    have hlength := length_entriesText_cons e f es
    rw [entriesDepth_cons] at hdepth
    obtain ⟨hd, hes⟩ := max_le_iff.1 hdepth
    obtain ⟨hreads, htail⟩ := List.forall_mem_cons.1 h
    exact readEntries?_cons (hreads (by omega) hd (endsNumber_cons (by simp) _))
      (ih htail _ (by omega) hes)

/-- The first step of the reading is always there, as no text is empty. -/
theorem Rereads.of_succ {d : Datum} (h : d.Regular Number.ReadsBack)
    (hstep : ∀ fuel depth rest, 2 * (compact d).toList.length ≤ fuel + 1 → d.depth ≤ depth →
      EndsNumber rest →
        readDatum? (fuel + 1) depth ((compact d).toList ++ rest) = some (d.sorted, rest)) :
    Rereads d := by
  intro fuel depth rest hfuel hdepth hrest
  have hpos := length_compact_pos h
  obtain ⟨fuel, rfl⟩ : ∃ f, fuel = f + 1 := ⟨fuel - 1, by omega⟩
  exact hstep fuel depth rest hfuel hdepth hrest

theorem rereads {d : Datum} (h : d.Regular Number.ReadsBack) : Rereads d := by
  induction h with
  | null => exact .of_succ .null fun fuel depth rest _ _ _ => readDatum?_null fuel depth rest
  | bool b => exact .of_succ (.bool b) fun fuel depth rest _ _ _ => readDatum?_bool b fuel depth rest
  | string s =>
    exact .of_succ (.string s) fun fuel depth rest _ _ _ => readDatum?_string s fuel depth rest
  | number hn =>
    exact .of_succ (.number hn) fun fuel depth _ _ _ hrest => readDatum?_number hn fuel depth hrest
  | @list items h ih =>
    refine .of_succ (.list h) fun fuel depth rest hfuel hdepth _ => ?_
    obtain ⟨depth, rfl, hitems⟩ := depth_list_le.1 hdepth
    cases items with
    | nil => exact readDatum?_emptyList fuel depth rest
    | cons d ds =>
      rw [toList_compact_list, List.length_cons, List.length_append] at hfuel
      exact readDatum?_list h (readItems?_itemsText ih (by omega) hitems)
  | @object entries hnames h ih =>
    refine .of_succ (.object hnames h) fun fuel depth rest hfuel hdepth _ => ?_
    obtain ⟨depth, rfl, hentries⟩ := depth_object_le.1 hdepth
    cases entries with
    | nil => exact readDatum?_emptyObject fuel depth rest
    | cons e es =>
      rw [toList_compact_object, List.length_cons, List.length_append] at hfuel
      exact readDatum?_object e es (readEntries?_entriesText ih [] (by omega) hentries)

/-- Data that is written as JSON is read back with the entries of its objects in order. -/
theorem read?_compact {d : Datum} (h : d.Regular Number.ReadsBack) (hdepth : d.depth < 128) :
    read? (compact d) = some d.sorted := by
  have hd : readDatum? (2 * (compact d).toList.length + 2) 127 ((compact d).toList ++ []) =
      some (d.sorted, []) := rereads h (by omega) (by omega) endsNumber_nil
  rw [List.append_nil] at hd
  simp only [read?, hd]
  rfl

end Json
end Preflight
