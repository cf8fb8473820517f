import Preflight.Extraction
import Preflight.Proofs.PathReference
import Preflight.Proofs.Stopping
import Preflight.Proofs.TagMerging

/-!
# The latest pair of a key

Known tags are merged into a map and unknown tags are listed apart. So what is reported of a key that is
declared several times depends on the order of its pairs among those in the same state only.

* `TagBlocks.get?_validTags_iff`: the map has the value of the last pair that is known.
* `Output.extract_latest`: of the pairs that are not errored the last one is this pair, or it is unknown.
  A key whose last one is unknown is among the unknown ones, whether it has a value or not.
* `Builder.not_extract_latest`: so a value can be reported for a key whose last pair is not known yet.
-/

namespace Preflight

/-- The last of some items is the last one of those that are filtered out, if it is one of them. -/
theorem getLast?_filter {α : Type} {p : α → Bool} {xs : List α} {x : α}
    (h : xs.getLast? = some x) (hp : p x = true) : (xs.filter p).getLast? = some x := by
  obtain ⟨ys, rfl⟩ := List.getLast?_eq_some_iff.1 h
  rw [List.filter_append, List.filter_cons_of_pos hp, List.filter_nil]
  exact List.getLast?_concat

namespace Tag

theorem known?_eq_some_iff {t : Tag} {key value : String} : t.known? = some (key, value) ↔
    t.key.value = .known key ∧ t.value.value = .known value := by
  rw [known?]
  cases t.key.value <;> cases t.value.value <;> simp

/-- A tag whose key is known is in the state of its value. -/
theorem state_eq_unknown_iff {t : Tag} {key : String} (h : t.key.value = .known key) :
    t.state = .unknown ↔ t.value.value = .unknown := by
  rw [state, h]
  cases t.value.value <;> simp

theorem placeholder_of_known {t : Tag} {key : String} (h : t.key.value = .known key) :
    t.placeholder = key := by
  rw [placeholder, h]

/-- A known tag that is the last one that is not errored is the last known one. -/
theorem getLast?_known {ts : List Tag} {t : Tag}
    (h : (ts.filter fun t => t.state ≠ .errored).getLast? = some t) (hs : t.state = .known) :
    (ts.filter fun t => t.state = .known).getLast? = some t := by
  have hboth : (ts.filter fun t => t.state ≠ .errored).filter (fun t => t.state = .known) =
      ts.filter fun t => t.state = .known := by
    rw [List.filter_filter]
    refine List.filter_congr fun u _ => ?_
    cases u.state <;> rfl
  rw [← hboth]
  exact getLast?_filter h (by simpa using hs)

/-- If a tag is known, there is a last one that is not errored. -/
theorem exists_getLast? {ts : List Tag} {t : Tag} (ht : t ∈ ts) (hs : t.state = .known) :
    ∃ u, (ts.filter fun t => t.state ≠ .errored).getLast? = some u := by
  have hmem : t ∈ ts.filter fun t => t.state ≠ .errored := List.mem_filter.2 ⟨ht, by simp [hs]⟩
  exact Option.ne_none_iff_exists'.1 (mt List.getLast?_eq_none_iff.1 (List.ne_nil_of_mem hmem))

end Tag

namespace TagBlocks

/-- The pairs of all blocks with a key that is known as the given one, in order. -/
def declaring (bs : TagBlocks) (key : String) : List Tag :=
  bs.tags.filter fun t => t.key.value = .known key

theorem mem_declaring {bs : TagBlocks} {key : String} {t : Tag} :
    t ∈ bs.declaring key ↔ t ∈ bs.tags ∧ t.key.value = .known key := by
  rw [declaring, List.mem_filter, decide_eq_true_eq]

/-- The value under a key in the map made of known pairs is that of the last one. -/
theorem get?_known_iff (ts : List Tag) {key value : String} :
    Entries.get? (ts.filterMap Tag.known?).reverse key = some value ↔
      ∃ t, ((ts.filter fun t => t.key.value = .known key).filter fun t => t.state = .known).getLast? =
        some t ∧ t.value.value = .known value := by
  induction ts using List.reverseRecOn with
  | nil => simp
  | append_singleton ts t ih =>
    rw [List.filterMap_append, List.filter_append, List.filter_append]
    cases hk : t.known? with
    | none =>
      have hs : t.state ≠ .known := fun hs => by simpa [hk] using t.isSome_known?_iff.2 hs
      have hnone : ([t].filter fun t => t.key.value = .known key).filter
          (fun t => t.state = .known) = [] := by
        rw [List.filter_filter]
        simp [hs]
      rw [List.filterMap_cons_none hk, hnone, List.filterMap_nil, List.append_nil, List.append_nil]
      exact ih
    | some pair =>
      obtain ⟨k, v⟩ := pair
      obtain ⟨hkey, hvalue⟩ := Tag.known?_eq_some_iff.1 hk
      have hs : t.state = .known := t.isSome_known?_iff.1 (by rw [hk]; rfl)
      rw [List.filterMap_cons_some hk, List.filterMap_nil, List.reverse_append,
        List.reverse_singleton, List.singleton_append, Entries.get?_cons]
      by_cases h : k = key
      · simp [h, hkey, hvalue, hs]
      · simpa [h, hkey] using ih

/-- The map of the known tags has a value for a key exactly if this is the value of the last known pair
with this key. -/
theorem get?_validTags_iff (bs : TagBlocks) {key value : String} :
    bs.validTags.get? key = some value ↔
      ∃ t, ((bs.declaring key).filter fun t => t.state = .known).getLast? = some t ∧
        t.value.value = .known value := by
  have hflat : bs.validTags = Entries.ofList bs.knownPairs := bs.foldl_insertAll_validTags []
  rw [hflat, Entries.get?_ofList_eq_last]
  exact get?_known_iff bs.tags

/-- The key of an unknown pair is among the unknown keys. -/
theorem mem_unknowns {bs : TagBlocks} {key : String} {t : Tag} (ht : t ∈ bs.declaring key)
    (hs : t.state = .unknown) : key ∈ bs.unknowns := by
  obtain ⟨hmem, hkey⟩ := mem_declaring.1 ht
  rw [unknowns_eq]
  exact List.mem_map.2 ⟨t, List.mem_filter.2 ⟨hmem, by simpa using hs⟩, Tag.placeholder_of_known hkey⟩

end TagBlocks

/-- A key is reported with a value exactly if the last known pair with this key has it. Then there is a
last pair of the key that is not errored; it is known with the same value, or it is unknown and the key is
among the unknown ones. If the last pair that is not errored is known, its value is the one reported. If
it is unknown, the key is among the unknown ones. -/
theorem Output.extract_latest (input : Input) (modules : List Module) (key value : String) :
    let o := (extract input modules).1
    let pairs := o.tagBlocks.declaring key
    (o.tags.get? key = some value ↔
      ∃ t, (pairs.filter fun t => t.state = .known).getLast? = some t ∧
        t.value.value = .known value) ∧
    (o.tags.get? key = some value →
      ∃ t, (pairs.filter fun t => t.state ≠ .errored).getLast? = some t ∧
        (t.value.value = .known value ∨ t.value.value = .unknown ∧ key ∈ o.unknownTags)) ∧
    (∀ t, (pairs.filter fun t => t.state ≠ .errored).getLast? = some t →
      t.value.value = .known value → o.tags.get? key = some value) ∧
    ∀ t, (pairs.filter fun t => t.state ≠ .errored).getLast? = some t →
      t.value.value = .unknown → key ∈ o.unknownTags := by
  intro o pairs
  have hknown : o.tags.get? key = some value ↔
      ∃ t, (pairs.filter fun t => t.state = .known).getLast? = some t ∧
        t.value.value = .known value := o.tagBlocks.get?_validTags_iff
  have hlast : ∀ t, (pairs.filter fun t => t.state ≠ .errored).getLast? = some t →
      t ∈ pairs ∧ t.key.value = .known key := by
    intro t ht
    have hmem : t ∈ pairs := List.mem_of_mem_filter (List.mem_of_getLast? ht)
    exact ⟨hmem, (TagBlocks.mem_declaring.1 hmem).2⟩
  have hlisted : ∀ t, (pairs.filter fun t => t.state ≠ .errored).getLast? = some t →
      t.value.value = .unknown → key ∈ o.unknownTags := by
    intro t ht hvalue
    obtain ⟨hmem, hkey⟩ := hlast t ht
    exact TagBlocks.mem_unknowns hmem ((Tag.state_eq_unknown_iff hkey).2 hvalue)
  refine ⟨hknown, fun h => ?_, fun t ht hvalue => ?_, hlisted⟩
  · obtain ⟨t, ht, hvalue⟩ := hknown.1 h
    obtain ⟨hmem, hs⟩ := List.mem_filter.1 (List.mem_of_getLast? ht)
    obtain ⟨u, hu⟩ := Tag.exists_getLast? hmem (of_decide_eq_true hs)
    refine ⟨u, hu, ?_⟩
    cases hstate : u.state with
    | known =>
      obtain rfl : u = t := Option.some.inj ((Tag.getLast?_known hu hstate).symm.trans ht)
      exact Or.inl hvalue
    | unknown =>
      have hwaits := (Tag.state_eq_unknown_iff (hlast u hu).2).1 hstate
      exact Or.inr ⟨hwaits, hlisted u hu hwaits⟩
    | errored =>
      have hnot := (List.mem_filter.1 (List.mem_of_getLast? hu)).2
      simp [hstate] at hnot
  · have hs : t.state = .known := by simp [Tag.state, (hlast t ht).2, hvalue]
    exact hknown.2 ⟨t, Tag.getLast?_known ht hs, hvalue⟩

/-! ### A key that waits after it was known -/

namespace Builder

/-- A tag `zone` that is known in one block, and made of a variable without a value in the next. -/
def zoneTwice : Builder :=
  let here : Location := ⟨none, none⟩
  let tags (name : String) (zone : Expr) : Declaration :=
    ⟨⟨"data", [tagsType, name], here⟩, [⟨"tags", .object [(.name "zone", zone)], here⟩], []⟩
  ⟨[], [⟨⟨"variable", ["zone"], here⟩, [], []⟩, tags "first" (.string "eu"),
    tags "second" (.ofPath "var" ["zone"])], []⟩

/-- The scope of `zoneTwice`. -/
def zoneTwiceScope : Scope :=
  ⟨[("var", .object [("zone", .unknown)]), ("local", .object []), ("data", .object [
    (tagsType, .object [("first", .object [("tags", .object [("zone", .string "eu")])]),
      ("second", .object [("tags", .unknown)])])])], [["data", tagsType]]⟩

/-- The last pair of `zone` waits for a variable, yet `zone` is reported with the value of the first
one. -/
theorem not_extract_latest :
    let o := (extract [] ([zoneTwice].map Builder.build)).1
    o.tags.get? "zone" = some "eu" ∧ o.unknownTags = ["zone"] ∧
      ((o.tagBlocks.declaring "zone").filter fun t => t.state ≠ .errored).getLast?.map
        (fun t => t.value.value) = some .unknown := by
  intro o
  have hbuild : zoneTwice.build = ⟨[], zoneTwice.declarations.map
      (Declaration.materialize zoneTwiceScope), zoneTwiceScope, true⟩ := build_eq_of_pass rfl rfl rfl
  have ho : o = (extract [] [_]).1 := congrArg (fun m => (extract [] [m]).1) hbuild
  rw [ho]
  exact ⟨rfl, rfl, rfl⟩

end Builder
end Preflight
