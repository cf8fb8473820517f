/-!
# Entries in insertion order

Objects, attributes and tag maps are lists of named entries. A name keeps the place where it first
came in, and takes the last value given to it.

* `get?` looks a name up;
* `insert` replaces the value of a name in place, or adds the name at the end;
* `ofList` inserts a whole list, `insertAll` onto entries that are there.
-/

namespace Preflight

/-- Named values in the order in which the names first came in. -/
abbrev Entries (α : Type) := List (String × α)

namespace Entries

variable {α β : Type}

/-- The value of the first entry with a name. -/
def get? : Entries α → String → Option α
  | [], _ => none
  | (k, v) :: es, key => if k = key then some v else get? es key

/-- The names in order. -/
def keys (es : Entries α) : List String := es.map Prod.fst

/-- Gives a name a value: in place if the name is there, at the end if not. -/
def insert : Entries α → String → α → Entries α
  | [], key, value => [(key, value)]
  | (k, v) :: es, key, value =>
    if k = key then (k, value) :: es else (k, v) :: insert es key value

/-- Inserts the entries of the second list, one after another. -/
def insertAll (es fs : Entries α) : Entries α := fs.foldl (fun acc e => acc.insert e.1 e.2) es

/-- The entries of a list that may repeat names. -/
def ofList (fs : List (String × α)) : Entries α := insertAll [] fs

@[simp] theorem get?_nil (key : String) : get? ([] : Entries α) key = none := rfl

theorem get?_cons (k : String) (v : α) (es : Entries α) (key : String) :
    get? ((k, v) :: es) key = if k = key then some v else get? es key := rfl

theorem mem_of_get? {es : Entries α} {key : String} {value : α} (h : es.get? key = some value) :
    (key, value) ∈ es := by
  induction es with
  | nil => cases h
  | cons e es ih =>
    obtain ⟨k, v⟩ := e
    rw [get?_cons] at h
    by_cases hk : k = key
    · rw [if_pos hk] at h
      cases h
      exact hk ▸ List.mem_cons_self
    · rw [if_neg hk] at h
      exact List.mem_cons_of_mem _ (ih h)

theorem isSome_get? {es : Entries α} {key : String} :
    (es.get? key).isSome = true ↔ key ∈ es.keys := by
  induction es with
  | nil => simp [keys]
  | cons e es ih =>
    obtain ⟨k, v⟩ := e
    by_cases hk : k = key
    · simp [get?_cons, keys, hk]
    · simpa [get?_cons, keys, hk, Ne.symm hk] using ih

theorem get?_append (es fs : Entries α) (key : String) :
    get? (es ++ fs) key = (get? es key).or (get? fs key) := by
  induction es with
  | nil => simp
  | cons e es ih =>
    obtain ⟨k, v⟩ := e
    by_cases h : k = key <;> simp [get?_cons, h, ih]

theorem get?_map (f : α → β) (es : Entries α) (key : String) :
    get? (es.map fun e => (e.1, f e.2)) key = (get? es key).map f := by
  induction es with
  | nil => rfl
  | cons e es ih =>
    obtain ⟨k, v⟩ := e
    by_cases h : k = key <;> simp [get?_cons, h, ih]

@[simp] theorem keys_map (f : α → β) (es : Entries α) :
    keys (es.map fun e => (e.1, f e.2)) = es.keys := by
  simp [keys, Function.comp_def]

@[simp] theorem get?_insert_self (es : Entries α) (key : String) (value : α) :
    (es.insert key value).get? key = some value := by
  induction es with
  | nil => simp [insert, get?]
  | cons e es ih =>
    obtain ⟨k, v⟩ := e
    by_cases h : k = key <;> simp [insert, get?, h, ih]

/-- Inserting changes the value of no other name. -/
theorem get?_insert_of_ne (es : Entries α) {key other : String} (value : α) (h : key ≠ other) :
    (es.insert key value).get? other = es.get? other := by
  induction es with
  | nil => simp [insert, get?, h]
  | cons e es ih =>
    obtain ⟨k, v⟩ := e
    by_cases hk : k = key
    · subst hk; simp [insert, get?, h]
    · simp [insert, get?, hk, ih]

/-- Inserting what is there changes nothing. -/
theorem insert_of_get? {es : Entries α} {key : String} {value : α} (h : es.get? key = some value) :
    es.insert key value = es := by
  induction es with
  | nil => cases h
  | cons e es ih =>
    obtain ⟨k, v⟩ := e
    by_cases hk : k = key <;> simp_all [insert, get?_cons]

/-- Of two values inserted under one name the second counts. -/
theorem insert_insert (es : Entries α) (key : String) (v w : α) :
    (es.insert key v).insert key w = es.insert key w := by
  induction es with
  | nil => simp [insert]
  | cons e es ih =>
    obtain ⟨k, u⟩ := e
    by_cases hk : k = key <;> simp [insert, hk, ih]

/-- The order of two insertions does not matter if one of the names is there. -/
theorem insert_comm {es : Entries α} {key other : String} (h : key ≠ other)
    (hk : (es.get? key).isSome) (v w : α) :
    (es.insert key v).insert other w = (es.insert other w).insert key v := by
  induction es with
  | nil => cases hk
  | cons e es ih =>
    obtain ⟨k, u⟩ := e
    by_cases hkey : k = key
    · subst hkey
      simp [insert, h]
    · rw [get?_cons, if_neg hkey] at hk
      by_cases hother : k = other
      · simp [insert, hother, h.symm]
      · simp [insert, hkey, hother, ih hk]

/-- Inserting keeps the names in place and adds a new one at the end. -/
theorem keys_insert (es : Entries α) (key : String) (value : α) :
    (es.insert key value).keys = if key ∈ es.keys then es.keys else es.keys ++ [key] := by
  induction es with
  | nil => simp [insert, keys]
  | cons e es ih =>
    obtain ⟨k, v⟩ := e
    by_cases hk : k = key
    · subst hk; simp [insert, keys]
    · have hk' : key ≠ k := Ne.symm hk
      simp only [keys] at ih ⊢
      by_cases hm : key ∈ List.map Prod.fst es <;> simp [insert, hk, hk', ih, hm]

theorem keys_prefix_insert (es : Entries α) (key : String) (value : α) :
    es.keys <+: (es.insert key value).keys := by
  rw [keys_insert]
  split
  · exact List.prefix_rfl
  · exact List.prefix_append _ _

theorem mem_of_mem_insert {es : Entries α} {key : String} {value : α} {e : String × α}
    (h : e ∈ es.insert key value) : e ∈ es ∨ e = (key, value) := by
  induction es with
  | nil => exact Or.inr (List.mem_singleton.1 h)
  | cons d es ih =>
    obtain ⟨k, v⟩ := d
    rw [insert] at h
    by_cases hk : k = key
    · rw [if_pos hk, List.mem_cons, hk] at h
      exact h.symm.imp_left (List.mem_cons_of_mem _)
    · rw [if_neg hk, List.mem_cons] at h
      rcases h with rfl | h
      · exact Or.inl List.mem_cons_self
      · exact (ih h).imp_left (List.mem_cons_of_mem _)

theorem nodup_keys_insert {es : Entries α} (h : es.keys.Nodup) (key : String) (value : α) :
    (es.insert key value).keys.Nodup := by
  rw [keys_insert]
  by_cases hk : key ∈ es.keys
  · rwa [if_pos hk]
  · rw [if_neg hk, List.nodup_append]
    refine ⟨h, by simp, fun k hkm l hl => ?_⟩
    rintro rfl
    exact hk (List.mem_singleton.1 hl ▸ hkm)

theorem insert_of_notMem {es : Entries α} {key : String} (h : key ∉ es.keys) (value : α) :
    es.insert key value = es ++ [(key, value)] := by
  induction es with
  | nil => rfl
  | cons e es ih =>
    obtain ⟨hne, hes⟩ : key ≠ e.1 ∧ key ∉ keys es := not_or.1 (mt List.mem_cons.2 h)
    rw [insert, if_neg hne.symm, ih hes]
    rfl

theorem insertAll_of_nodup {es fs : Entries α} (h : (keys (es ++ fs)).Nodup) :
    es.insertAll fs = es ++ fs := by
  induction fs generalizing es with
  | nil => exact (List.append_nil es).symm
  | cons f fs ih =>
    have hsplit : es ++ f :: fs = (es ++ [f]) ++ fs := by simp
    rw [hsplit] at h ⊢
    have hnew : f.1 ∉ es.keys := by
      intro hf
      simp only [keys, List.map_append, List.nodup_append] at h
      exact h.1.2.2 f.1 hf f.1 (by simp) rfl
    calc (es.insert f.1 f.2).insertAll fs
      _ = insertAll (es ++ [f]) fs := by rw [insert_of_notMem hnew]
      _ = es ++ [f] ++ fs := ih h

/-- A list of entries that repeats no name is a map as it stands. -/
theorem ofList_of_nodup {fs : Entries α} (h : fs.keys.Nodup) : ofList fs = fs := insertAll_of_nodup h

/-- Inserting one after another keeps names distinct and adds no other entries. -/
theorem nodup_keys_insertAll {es : Entries α} (h : es.keys.Nodup) (fs : Entries α) :
    (es.insertAll fs).keys.Nodup ∧ ∀ e ∈ es.insertAll fs, e ∈ es ∨ e ∈ fs := by
  induction fs generalizing es with
  | nil => exact ⟨h, fun e he => Or.inl he⟩
  | cons f fs ih =>
    obtain ⟨hn, hm⟩ := ih (nodup_keys_insert h f.1 f.2)
    refine ⟨hn, fun e he => ?_⟩
    rcases hm e he with he | he
    · exact (mem_of_mem_insert he).imp_right fun hef => List.mem_cons.2 (Or.inl hef)
    · exact Or.inr (List.mem_cons_of_mem _ he)

theorem get?_map_pair {γ : Type} (name : γ → String) (f : γ → α) (cs : List γ) (key : String) :
    get? (cs.map fun c => (name c, f c)) key = (cs.find? fun c => name c = key).map f := by
  induction cs with
  | nil => rfl
  | cons c cs ih => by_cases h : name c = key <;> simp [get?_cons, h, ih]

/-- A list without repeated names holds an entry exactly if the name finds it. -/
theorem get?_eq_some_iff {es : Entries α} (h : es.keys.Nodup) {key : String} {value : α} :
    es.get? key = some value ↔ (key, value) ∈ es := by
  refine ⟨mem_of_get?, fun hm => ?_⟩
  induction es with
  | nil => cases hm
  | cons e es ih =>
    obtain ⟨k, v⟩ := e
    obtain ⟨hk, hes⟩ := List.nodup_cons.1 h
    rcases List.mem_cons.1 hm with heq | hm
    · cases heq
      rw [get?_cons, if_pos rfl]
    · have hkey : k ≠ key := by
        rintro rfl
        exact hk (List.mem_map.2 ⟨_, hm, rfl⟩)
      rw [get?_cons, if_neg hkey]
      exact ih hes hm

/-- The order of entries without repeated names has no influence on lookups. -/
theorem get?_perm {es fs : Entries α} (hp : es.Perm fs) (h : es.keys.Nodup) (key : String) :
    es.get? key = fs.get? key := by
  have hf : fs.keys.Nodup := (hp.map Prod.fst).nodup_iff.1 h
  apply Option.ext
  intro v
  rw [get?_eq_some_iff h, get?_eq_some_iff hf, hp.mem_iff]

/-- Inserted entries without repeated names come before those that were there. -/
theorem get?_insertAll (es : Entries α) {fs : Entries α} (h : fs.keys.Nodup) (key : String) :
    (es.insertAll fs).get? key = (fs.get? key).or (es.get? key) := by
  induction fs generalizing es with
  | nil => rfl
  | cons f fs ih =>
    obtain ⟨k, v⟩ := f
    obtain ⟨hk, hfs⟩ := List.nodup_cons.1 h
    have hi : (es.insertAll ((k, v) :: fs)) = (es.insert k v).insertAll fs := rfl
    rw [hi, ih _ hfs, get?_cons]
    by_cases hkey : k = key
    · subst hkey
      have hn : get? fs k = none := by
        rw [Option.eq_none_iff_forall_not_mem]
        exact fun w hw => hk (List.mem_map.2 ⟨_, (get?_eq_some_iff hfs).1 hw, rfl⟩)
      simp [hn]
    · simp [hkey, get?_insert_of_ne es v hkey]

theorem get?_ofList {fs : Entries α} (h : fs.keys.Nodup) (key : String) :
    (ofList fs).get? key = fs.get? key := by
  rw [ofList, get?_insertAll _ h]
  simp

end Entries
end Preflight
