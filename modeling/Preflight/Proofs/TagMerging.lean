import Mathlib.Data.List.Induction
import Preflight.Tag

/-!
# Merging the tags of several blocks

The known tags of one block form a map, and the maps of all blocks are merged in order. The result is
the same as if all known pairs were inserted into one map.

* `Entries.insertAll_insertAll`: a map that was made by inserting is merged as what was inserted into
  it.
* `Entries.keys_ofList` and `Entries.get?_ofList_eq_last` say what a map that is made of pairs holds:
  each key in the place of its first pair, with the value of its last one.
* `TagBlocks.validTags_flat`: merging blocks is a flat merge. It counts every tag once, as known,
  unknown or errored.
-/

namespace Preflight

/-! ### Maps made by inserting -/

namespace Entries

variable {α : Type}

theorem insertAll_append (es fs gs : Entries α) :
    es.insertAll (fs ++ gs) = (es.insertAll fs).insertAll gs := List.foldl_append

/-- The value of a name that is there can be replaced before or after others are inserted. -/
theorem insertAll_insert_of_notMem {es fs : Entries α} {key : String} (hf : key ∉ fs.keys)
    (he : (es.get? key).isSome) (value : α) :
    (es.insertAll fs).insert key value = (es.insert key value).insertAll fs := by
  induction fs generalizing es with
  | nil => rfl
  | cons f fs ih =>
    obtain ⟨hne, hfs⟩ : key ≠ f.1 ∧ key ∉ keys fs := not_or.1 (mt List.mem_cons.2 hf)
    have hs : ((es.insert f.1 f.2).get? key).isSome := by
      rwa [get?_insert_of_ne es f.2 hne.symm]
    calc ((es.insert f.1 f.2).insertAll fs).insert key value
      _ = ((es.insert f.1 f.2).insert key value).insertAll fs := ih hfs hs
      _ = ((es.insert key value).insert f.1 f.2).insertAll fs := by rw [insert_comm hne he]

/-- Inserting a map to which a name was given is inserting the map and then the name. -/
theorem insertAll_insert {fs : Entries α} (h : fs.keys.Nodup) (es : Entries α) (key : String)
    (value : α) : es.insertAll (fs.insert key value) = (es.insertAll fs).insert key value := by
  induction fs generalizing es with
  | nil => rfl
  | cons f fs ih =>
    obtain ⟨k, v⟩ := f
    obtain ⟨hk, hfs⟩ := List.nodup_cons.1 h
    by_cases hkey : k = key
    · subst hkey
      have hs : ((es.insert k v).get? k).isSome := by
        rw [get?_insert_self]
        rfl
      calc es.insertAll (insert ((k, v) :: fs) k value)
        _ = (es.insert k value).insertAll fs := by rw [insert, if_pos rfl]; rfl
        _ = ((es.insert k v).insert k value).insertAll fs := by rw [insert_insert]
        _ = ((es.insert k v).insertAll fs).insert k value :=
          (insertAll_insert_of_notMem hk hs value).symm
    · rw [insert, if_neg hkey]
      exact ih hfs (es.insert k v)

/-- A map made by inserting is inserted as what it was made of. -/
theorem insertAll_insertAll {gs : Entries α} (h : gs.keys.Nodup) (es fs : Entries α) :
    es.insertAll (gs.insertAll fs) = (es.insertAll gs).insertAll fs := by
  induction fs generalizing gs with
  | nil => rfl
  | cons f fs ih =>
    calc es.insertAll ((gs.insert f.1 f.2).insertAll fs)
      _ = (es.insertAll (gs.insert f.1 f.2)).insertAll fs := ih (nodup_keys_insert h f.1 f.2)
      _ = ((es.insertAll gs).insert f.1 f.2).insertAll fs := by rw [insertAll_insert h]

theorem insertAll_ofList (es fs : Entries α) : es.insertAll (ofList fs) = es.insertAll fs := by
  have hnil : (keys ([] : Entries α)).Nodup := List.nodup_nil
  exact insertAll_insertAll hnil es fs

theorem ofList_concat (fs : Entries α) (key : String) (value : α) :
    ofList (fs ++ [(key, value)]) = (ofList fs).insert key value := insertAll_append [] fs _

/-- The names of a map made of pairs, each in the place where it first comes. -/
theorem keys_ofList (fs : Entries α) : (ofList fs).keys = fs.keys.eraseDups := by
  induction fs using List.reverseRecOn with
  | nil => rfl
  | append_singleton fs f ih =>
    have hkeys : keys (fs ++ [f]) = keys fs ++ [f.1] := List.map_append
    rw [ofList_concat, keys_insert, ih, hkeys, List.eraseDups_append]
    by_cases hf : f.1 ∈ keys fs <;> simp [hf, List.removeAll, List.eraseDups_cons]

/-- The value of a name in a map made of pairs is that of its last pair. -/
theorem get?_ofList_eq_last (fs : Entries α) (key : String) :
    (ofList fs).get? key = get? fs.reverse key := by
  induction fs using List.reverseRecOn with
  | nil => rfl
  | append_singleton fs f ih =>
    rw [ofList_concat, List.reverse_concat, get?_cons]
    by_cases hf : f.1 = key
    · rw [hf, if_pos rfl, get?_insert_self]
    · rw [if_neg hf, get?_insert_of_ne _ _ hf, ih]

end Entries

/-! ### Tags -/

theorem Tag.isSome_known?_iff (t : Tag) : t.known?.isSome = true ↔ t.state = .known := by
  rw [known?, state]
  cases t.key.value <;> cases t.value.value <;> simp

namespace TagBlocks

/-- The tags of all blocks in order. -/
def tags (bs : TagBlocks) : List Tag := bs.flatMap TagBlock.tags

/-- The tags of all blocks that are in a state. -/
def inState (bs : TagBlocks) (s : TagState) : List Tag := bs.tags.filter fun t => t.state = s

/-- The keys and values of the known tags of all blocks, in order and with repetitions. -/
def knownPairs (bs : TagBlocks) : List (String × String) := bs.tags.filterMap Tag.known?

/-- What is known of some tags in one block after another, merged onto known ones. -/
theorem foldl_insertAll_validTags (bs : TagBlocks) (es : Entries String) :
    bs.foldl (fun tags b => tags.insertAll b.validTags) es = es.insertAll bs.knownPairs := by
  induction bs generalizing es with
  | nil => rfl
  | cons b bs ih =>
    have hpairs : knownPairs (b :: bs) = b.tags.filterMap Tag.known? ++ knownPairs bs :=
      List.filterMap_append
    rw [List.foldl_cons, ih, TagBlock.validTags, Entries.insertAll_ofList, hpairs,
      Entries.insertAll_append]

theorem unknowns_eq (bs : TagBlocks) : bs.unknowns = (bs.inState .unknown).map Tag.placeholder := by
  have hb : TagBlock.unknowns =
      fun b => (b.tags.filter fun t => t.state = .unknown).map Tag.placeholder := rfl
  simp only [unknowns, hb, inState, tags, List.filter_flatMap, List.map_flatMap]

/-- There is one pair for every known tag. -/
theorem map_some_knownPairs (bs : TagBlocks) :
    bs.knownPairs.map some = (bs.inState .known).map Tag.known? := by
  rw [knownPairs, inState]
  induction bs.tags with
  | nil => rfl
  | cons t ts ih =>
    have hs := t.isSome_known?_iff
    cases hk : t.known? with
    | none =>
      have hn : t.state ≠ .known := by simpa [hk] using hs
      rw [List.filterMap_cons_none hk, ih, List.filter_cons_of_neg (by simpa using hn)]
    | some pair =>
      have hp : t.state = .known := hs.1 (by rw [hk]; rfl)
      rw [List.filterMap_cons_some hk, List.map_cons, ih,
        List.filter_cons_of_pos (by simpa using hp), List.map_cons, hk]

/-- Every tag is in one of the three states. -/
theorem length_tags (bs : TagBlocks) : bs.tags.length =
    (bs.inState .known).length + (bs.inState .unknown).length + (bs.inState .errored).length := by
  simp only [inState]
  induction bs.tags with
  | nil => rfl
  | cons t ts ih => cases hs : t.state <;> simp [hs, ih] <;> omega

/-- Merging the known tags block by block is inserting all known pairs into one map. In it each key is
in the place of its first pair and has the value of its last one. The unknown keys of all blocks are
those of all unknown tags, in order. Known pairs, unknown keys and errored tags together are as many
as there are tags. -/
theorem validTags_flat (bs : TagBlocks) :
    bs.validTags = Entries.ofList bs.knownPairs ∧
    bs.validTags.keys = (bs.knownPairs.map Prod.fst).eraseDups ∧
    (∀ key, bs.validTags.get? key = Entries.get? bs.knownPairs.reverse key) ∧
    bs.unknowns = (bs.inState .unknown).map Tag.placeholder ∧
    bs.knownPairs.map some = (bs.inState .known).map Tag.known? ∧
    bs.tags.length =
      bs.knownPairs.length + bs.unknowns.length + (bs.inState .errored).length := by
  have hflat : bs.validTags = Entries.ofList bs.knownPairs := bs.foldl_insertAll_validTags []
  have hknown : bs.knownPairs.length = (bs.inState .known).length := by
    simpa using congrArg List.length bs.map_some_knownPairs
  refine ⟨hflat, ?_, ?_, bs.unknowns_eq, bs.map_some_knownPairs, ?_⟩
  · rw [hflat, Entries.keys_ofList]
    rfl
  · intro key
    rw [hflat, Entries.get?_ofList_eq_last]
  · rw [bs.length_tags, hknown, bs.unknowns_eq, List.length_map]

end TagBlocks
end Preflight
