import Mathlib.Data.String.Basic
import Preflight.Json.Reader

/-!
# Data that is read from JSON

In what is read from a JSON text no object has a name twice, and whole numbers in range are integers.

* Entries come in order of their names: `Json.insertSorted` keeps them in order, gives its name its value
  and changes no other one.
* `Datum.Regular` says that names are distinct in every object and that all numbers have a property.
  `Json.regular_of_read?` says that this is so of everything that is read, for numbers that are
  `Number.Reduced`.
-/

namespace Preflight

/-- In every object names are distinct, and every number has a property. -/
inductive Datum.Regular (P : Number → Prop) : Datum → Prop
  | null : Regular P .null
  | bool (b : Bool) : Regular P (.bool b)
  | number {n : Number} (h : P n) : Regular P (.number n)
  | string (s : String) : Regular P (.string s)
  | list {items : List Datum} (h : ∀ d ∈ items, Regular P d) : Regular P (.list items)
  | object {entries : Entries Datum} (hnames : entries.keys.Nodup)
    (h : ∀ e ∈ entries, Regular P e.2) : Regular P (.object entries)

/-- An integer in range, or a fraction that is no integer in range. -/
def Number.Reduced : Number → Prop
  | .int n => inRange n = true
  | .real q => ¬(q.den = 1 ∧ inRange q.num = true)

theorem Number.reduced_ofBinary64 (q : Rat) : (ofBinary64 q).Reduced := by
  rw [ofBinary64]
  split_ifs with h
  · exact h.2
  · exact h

namespace Json

/-! ### Entries in order of their names -/

/-- The names of entries increase. -/
def InNameOrder (entries : Entries Datum) : Prop := entries.keys.Pairwise (· < ·)

theorem InNameOrder.nodup {entries : Entries Datum} (h : InNameOrder entries) : entries.keys.Nodup :=
  h.imp fun hlt => ne_of_lt hlt

theorem mem_of_mem_insertSorted {key : String} {d : Datum} {entries : Entries Datum} {e : String × Datum}
    (h : e ∈ insertSorted key d entries) : e = (key, d) ∨ e ∈ entries := by
  induction entries with
  | nil => exact Or.inl (List.mem_singleton.1 h)
  | cons f entries ih =>
    obtain ⟨k, c⟩ := f
    rw [insertSorted] at h
    split_ifs at h with hk hlt
    · rcases List.mem_cons.1 h with rfl | h
      · exact Or.inl (by rw [hk])
      · exact Or.inr (List.mem_cons_of_mem _ h)
    · exact List.mem_cons.1 h
    · rcases List.mem_cons.1 h with rfl | h
      · exact Or.inr List.mem_cons_self
      · exact (ih h).imp_right (List.mem_cons_of_mem _)

theorem InNameOrder.insertSorted {entries : Entries Datum} (h : InNameOrder entries) (key : String)
    (d : Datum) : InNameOrder (insertSorted key d entries) := by
  induction entries with
  | nil => exact List.pairwise_singleton _ _
  | cons e entries ih =>
    obtain ⟨k, c⟩ := e
    obtain ⟨hk, htail⟩ := List.pairwise_cons.1 h
    rw [Json.insertSorted]
    split_ifs with heq hlt
    · exact h
    · refine List.pairwise_cons.2 ⟨fun name hname => ?_, h⟩
      rcases List.mem_cons.1 hname with rfl | hname
      · exact hlt
      · exact hlt.trans (hk name hname)
    · refine List.pairwise_cons.2 ⟨fun name hname => ?_, ih htail⟩
      obtain ⟨e, he, rfl⟩ := List.mem_map.1 hname
      rcases mem_of_mem_insertSorted he with rfl | he
      · exact lt_of_le_of_ne (not_lt.1 hlt) heq
      · exact hk _ (List.mem_map_of_mem he)

theorem get?_insertSorted_self (key : String) (d : Datum) (entries : Entries Datum) :
    Entries.get? (insertSorted key d entries) key = some d := by
  induction entries with
  | nil => simp [insertSorted, Entries.get?_cons]
  | cons e entries ih =>
    obtain ⟨k, c⟩ := e
    rw [insertSorted]
    split_ifs with heq hlt <;> simp [Entries.get?_cons, heq, ih]

theorem get?_insertSorted_of_ne {key other : String} (h : key ≠ other) (d : Datum)
    (entries : Entries Datum) :
    Entries.get? (insertSorted key d entries) other = entries.get? other := by
  induction entries with
  | nil => simp [insertSorted, Entries.get?_cons, h]
  | cons e entries ih =>
    obtain ⟨k, c⟩ := e
    rw [insertSorted]
    split_ifs with heq hlt
    · simp [Entries.get?_cons, heq, h]
    · simp [Entries.get?_cons, h]
    · simp [Entries.get?_cons, ih]

/-! ### What is read -/

theorem Literal.reduced_of_toNumber? {l : Literal} {negative : Bool} {n : Number}
    (h : l.toNumber? negative = some n) : n.Reduced := by
  have hmap : ∀ f : Rat → Rat, (l.magnitude?.map fun q => Number.ofBinary64 (f q)) = some n →
      n.Reduced := by
    intro f hf
    obtain ⟨q, -, rfl⟩ := Option.map_eq_some_iff.1 hf
    exact Number.reduced_ofBinary64 _
  rw [toNumber?] at h
  split at h
  · generalize (if negative = true then -(Decimal.ofDigits l.whole : Int) else _) = i at h
    by_cases hrange : Number.inRange i = true
    · rw [if_pos hrange] at h
      cases h
      exact hrange
    · rw [if_neg hrange] at h
      exact hmap _ h
  · exact hmap _ h

theorem reduced_of_readNumber? {cs rest : List Char} {n : Number}
    (h : readNumber? cs = some (n, rest)) : n.Reduced := by
  rw [readNumber?.eq_def] at h
  split at h
  all_goals
    obtain ⟨⟨l, rest⟩, -, h⟩ := Option.bind_eq_some_iff.1 h
    obtain ⟨m, hm, h⟩ := Option.bind_eq_some_iff.1 h
    cases h
    exact Literal.reduced_of_toNumber? hm

/-- Entries as they are while an object is being read. -/
structure RegularEntries (entries : Entries Datum) : Prop where
  ordered : InNameOrder entries
  regular : ∀ e ∈ entries, e.2.Regular Number.Reduced

theorem RegularEntries.nil : RegularEntries [] := ⟨List.Pairwise.nil, by simp⟩

theorem RegularEntries.insertSorted {entries : Entries Datum} (h : RegularEntries entries) (key : String)
    {d : Datum} (hd : d.Regular Number.Reduced) : RegularEntries (insertSorted key d entries) := by
  refine ⟨h.ordered.insertSorted key d, fun e he => ?_⟩
  rcases mem_of_mem_insertSorted he with rfl | he
  · exact hd
  · exact h.regular e he

mutual
theorem regular_of_readDatum? : (fuel depth : Nat) → (cs : List Char) → {d : Datum} →
    {rest : List Char} → readDatum? fuel depth cs = some (d, rest) → d.Regular Number.Reduced
  | 0, _, _, _, _, h => by cases h
  | fuel + 1, depth, cs, d, rest, h => by
    rw [readDatum?] at h
    split at h
    · cases h
    · obtain ⟨⟨s, rest⟩, -, h⟩ := Option.bind_eq_some_iff.1 h
      cases h
      exact .string _
    · split at h
      · cases h
      · split at h
        · cases h
          exact .list (by simp)
        · obtain ⟨⟨items, rest⟩, hitems, h⟩ := Option.bind_eq_some_iff.1 h
          cases h
          exact .list (regular_of_readItems? fuel _ _ hitems)
    · split at h
      · cases h
      · split at h
        · cases h
          exact .object List.nodup_nil (by simp)
        · obtain ⟨⟨entries, rest⟩, hentries, h⟩ := Option.bind_eq_some_iff.1 h
          cases h
          have hregular : RegularEntries entries :=
            regular_of_readEntries? fuel _ _ .nil hentries
          exact .object hregular.ordered.nodup hregular.regular
    · obtain ⟨_, -, h⟩ := Option.map_eq_some_iff.1 h
      cases h
      exact .null
    · obtain ⟨_, -, h⟩ := Option.map_eq_some_iff.1 h
      cases h
      exact .bool _
    · obtain ⟨_, -, h⟩ := Option.map_eq_some_iff.1 h
      cases h
      exact .bool _
    · obtain ⟨⟨n, rest⟩, hn, h⟩ := Option.bind_eq_some_iff.1 h
      cases h
      exact .number (reduced_of_readNumber? hn)

theorem regular_of_readItems? : (fuel depth : Nat) → (cs : List Char) → {items : List Datum} →
    {rest : List Char} → readItems? fuel depth cs = some (items, rest) →
      ∀ d ∈ items, d.Regular Number.Reduced
  | 0, _, _, _, _, h => by cases h
  | fuel + 1, depth, cs, items, rest, h => by
    rw [readItems?] at h
    obtain ⟨⟨d, rest⟩, hd, h⟩ := Option.bind_eq_some_iff.1 h
    have hregular : d.Regular Number.Reduced := regular_of_readDatum? fuel depth cs hd
    dsimp only at h
    split at h
    · obtain ⟨⟨ds, rest⟩, hds, h⟩ := Option.bind_eq_some_iff.1 h
      cases h
      exact List.forall_mem_cons.2 ⟨hregular, regular_of_readItems? fuel depth _ hds⟩
    · cases h
      exact List.forall_mem_singleton.2 hregular
    · cases h

theorem regular_of_readEntries? : (fuel depth : Nat) → (cs : List Char) → {before : Entries Datum} →
    RegularEntries before → {entries : Entries Datum} → {rest : List Char} →
      readEntries? fuel depth before cs = some (entries, rest) → RegularEntries entries
  | 0, _, _, _, _, _, _, h => by cases h
  | fuel + 1, depth, cs, before, hbefore, entries, rest, h => by
    rw [readEntries?] at h
    split at h
    · obtain ⟨⟨key, rest⟩, -, h⟩ := Option.bind_eq_some_iff.1 h
      dsimp only at h
      split at h
      · obtain ⟨⟨d, rest⟩, hd, h⟩ := Option.bind_eq_some_iff.1 h
        have hnext := hbefore.insertSorted (String.ofList key) (regular_of_readDatum? fuel depth _ hd)
        dsimp only at h
        split at h
        · exact regular_of_readEntries? fuel depth _ hnext h
        · cases h
          exact hnext
        · cases h
      · cases h
    · cases h
end

/-- No object in what is read has a name twice, and no whole number in range is a fraction. -/
theorem regular_of_read? {s : String} {d : Datum} (h : read? s = some d) : d.Regular Number.Reduced := by
  rw [read?] at h
  split at h
  · rename_i d' rest hd
    split_ifs at h
    cases h
    exact regular_of_readDatum? _ _ _ hd
  · cases h

end Json
end Preflight
