import Preflight.Proofs.Completion
import Preflight.Proofs.JsonText
import Preflight.Proofs.Likeness
import Preflight.Proofs.PathReference

/-!
# Lists that are encoded as JSON

A string that holds a JSON array converts to a list type. Defaults are filled in before the string is
read, so inside an encoded list none are.

* What a string holds after a list is written into it is the list, up to the order of entries
  (`Value.like_sorted`, `Value.elements?_encoded`).
* `TypeSpec.convert_encoded`: the encoded list converts as the list does without defaults. It fails
  exactly if the list with its defaults fails, and gives the same if there is nothing to be filled in.
* `TypeSpec.not_convert_encoded`: an object without its optional attribute has the default of the
  attribute in a list, but not in an encoded one.
-/

namespace Preflight

namespace Value

/-- The string that holds a value as JSON. -/
def encoded (v : Value) : Value := .string (Json.compact v.toDatum)

/-- Putting entries in order gives a like value. -/
theorem like_sorted {R : NumberRelation} {P : Number → Prop} {d : Datum} (h : d.Regular P) :
    Like R (ofDatum d.sorted) (ofDatum d) := by
  induction h with
  | null => exact .null
  | bool b => exact .bool b
  | number _ => exact .number (R.refl _)
  | string s => exact .string s
  | list _ ih =>
    rw [Datum.sorted, ofDatum, ofDatum, like_list, ofData_eq_map, ofData_eq_map, sortedItems_eq_map,
      List.forall₂_map_left_iff, List.forall₂_map_right_iff, List.forall₂_map_left_iff,
      List.forall₂_same]
    exact ih
  | @object entries hnames _ ih =>
    have hnil : Json.InNameOrder [] := List.Pairwise.nil
    have hordered : Json.InNameOrder (sortedEntries [] entries) := inNameOrder_sortedEntries hnil entries
    rw [Datum.sorted, ofDatum, ofDatum, ofDatumEntries_eq_map, ofDatumEntries_eq_map, like_object]
    refine ⟨?_, ?_, fun key => ?_⟩
    · rw [Entries.keys_map]
      exact hordered.nodup
    · rw [Entries.keys_map]
      exact hnames
    · rw [Entries.get?_map ofDatum, Entries.get?_map ofDatum, get?_sortedEntries hnames]
      cases hd : entries.get? key with
      | none => exact .none
      | some d => exact .some (ih (key, d) (Entries.mem_of_get? hd))

/-- What the string holds after a list is written into it. -/
theorem elements?_encoded {items : List Value}
    (hregular : (Value.list items).toDatum.Regular Number.ReadsBack)
    (hdepth : (Value.list items).toDatum.depth < 128) :
    (Value.list items).encoded.elements? = some (ofData (sortedItems (toData items))) := by
  rw [encoded, elements?, Json.read?_compact hregular hdepth]
  rfl

theorem like_sortedItems {R : NumberRelation} {items : List Value}
    (hknown : (Value.list items).isWhollyKnown = true)
    (hregular : (Value.list items).toDatum.Regular Number.ReadsBack) :
    Like R (.list (ofData (sortedItems (toData items)))) (.list items) := by
  have h : Like R (ofDatum (Value.list items).toDatum.sorted) (ofDatum (Value.list items).toDatum) :=
    like_sorted hregular
  rwa [ofDatum_toDatum _ hknown] at h

end Value

namespace TypeSpec

open Conversion

/-- Two conversions both fail, or they give equal values. -/
def Conversion.SameOutcome : Conversion Value → Conversion Value → Prop :=
  Alike fun v w => v.equal w = true

/-- A list or a set type. -/
def TakesItems : TypeSpec → Prop
  | .list _ => True
  | .set _ => True
  | _ => False

theorem applyDefaults_string (type : TypeSpec) (s : String) :
    type.applyDefaults (.string s) = .string s := by
  cases type <;> simp [applyDefaults]

/-- A string converts as the list that it holds. -/
theorem convert_string_of_elements? {type : TypeSpec} (ht : type.TakesItems) {s : String}
    {items : List Value} (h : (Value.string s).elements? = some items) :
    type.convert (.string s) = type.convert (.list items) := by
  cases type with
  | list element =>
    rw [convert]
    simp only [unlessOpen, h]
    rfl
  | set element =>
    rw [convert]
    simp only [unlessOpen, h]
    rfl
  | _ => cases ht

theorem convert_encoded_eq {type : TypeSpec} (ht : type.TakesItems) {items : List Value}
    (hregular : (Value.list items).toDatum.Regular Number.ReadsBack)
    (hdepth : (Value.list items).toDatum.depth < 128) :
    type.convert (type.applyDefaults (Value.list items).encoded) =
      type.convert (.list (Value.ofData (sortedItems (Value.toData items)))) := by
  rw [Value.encoded, applyDefaults_string]
  exact convert_string_of_elements? ht (Value.elements?_encoded hregular hdepth)

/-- An encoded list converts as the list does without its defaults. It converts exactly if the list
with its defaults does, and to the same if the list is complete without them. Its numbers have to read
back, as integers do (`Json.readsBack_int`). -/
theorem convert_encoded {e : Expr} {type : TypeSpec} (hdecode : decode e = .ok type)
    (ht : type.TakesItems) {items : List Value} (hknown : (Value.list items).isWhollyKnown = true)
    (hregular : (Value.list items).toDatum.Regular Number.ReadsBack)
    (hdepth : (Value.list items).toDatum.depth < 128) :
    SameOutcome (type.convert (type.applyDefaults (Value.list items).encoded))
        (type.convert (.list items)) ∧
      (Succeeds (type.convert (type.applyDefaults (Value.list items).encoded)) ↔
        Succeeds (type.convert (type.applyDefaults (.list items)))) ∧
      (type.Complete (.list items) →
        SameOutcome (type.convert (type.applyDefaults (Value.list items).encoded))
          (type.convert (type.applyDefaults (.list items)))) := by
  have hsound : type.Sound := sound_of_decode hdecode
  have hlike : Value.Like .same (.list (Value.ofData (sortedItems (Value.toData items))))
      (.list items) := Value.like_sortedItems hknown hregular
  have hagree : SameOutcome (type.convert (type.applyDefaults (Value.list items).encoded))
      (type.convert (.list items)) := by
    rw [convert_encoded_eq ht hregular hdepth]
    exact (convert_alike hsound.distinct hlike).imp fun _ _ h => h.equal
  refine ⟨hagree, ?_, fun hcomplete => ?_⟩
  · exact hagree.succeeds_iff.trans (succeeds_applyDefaults hsound _).symm
  · rw [Complete] at hcomplete
    rw [hcomplete]
    exact hagree

/-- A machine that says its size by itself is complete. The labels of the encoded machine are read in the
order of their names. -/
theorem convert_encoded_machines :
    let e : Expr := .call "set" [.call "object" [.object [
      (.name "size", .call "optional" [.variable "number", .number 10] false),
      (.name "labels", .call "map" [.variable "string"] false)]] false] false
    let type : TypeSpec := .set (.object [("size", .optional .number (some (.number 10))),
      ("labels", .required (.map .string))])
    let items : List Value := [.object [("size", .number 4),
      ("labels", .object [("zone", .string "eu"), ("cpu", .number 2)])]]
    let converted : Value := .list [.object [("size", .number 4),
      ("labels", .object [("zone", .string "eu"), ("cpu", .string "2")])]]
    decode e = .ok type ∧ type.convert (type.applyDefaults (.list items)) = .ok converted ∧
      ∃ w, type.convert (type.applyDefaults (Value.list items).encoded) = .ok w ∧
        w.equal converted = true := by
  intro e type items converted
  have hdecode : decode e = .ok type := rfl
  have hcomplete : type.Complete (.list items) := rfl
  have hconverted : type.convert (type.applyDefaults (.list items)) = .ok converted := rfl
  have hlabels : Datum.Regular Number.ReadsBack
      (.object [("zone", .string "eu"), ("cpu", .number 2)]) := by
    refine .object (by decide) ?_
    rw [List.forall_mem_cons, List.forall_mem_singleton]
    exact ⟨.string _, .number (Json.readsBack_int (by decide))⟩
  have hregular : (Value.list items).toDatum.Regular Number.ReadsBack := by
    refine .list (List.forall_mem_singleton.2 (.object (by decide) ?_))
    simp only [Value.toDatumEntries, List.forall_mem_cons]
    exact ⟨.number (Json.readsBack_int (by decide)), hlabels, by simp⟩
  have hdepth : (Value.list items).toDatum.depth < 128 := by decide
  obtain ⟨-, -, hsame⟩ := convert_encoded hdecode trivial rfl hregular hdepth
  refine ⟨hdecode, hconverted, ?_⟩
  have h := hsame hcomplete
  rw [hconverted] at h
  generalize type.convert (type.applyDefaults (Value.list items).encoded) = x at h ⊢
  cases h with
  | ok h => exact ⟨_, rfl, h⟩

/-- The object in the encoded list has null where the object in the list has the default. -/
theorem not_convert_encoded :
    ¬ ∀ e type, decode e = .ok type → type.TakesItems → ∀ items : List Value,
      (Value.list items).isWhollyKnown = true →
        ((Value.list items).toDatum.Regular fun n => ∃ i, n = .int i ∧ Number.inRange i = true) →
          (Value.list items).toDatum.depth < 128 →
            SameOutcome (type.convert (type.applyDefaults (Value.list items).encoded))
              (type.convert (type.applyDefaults (.list items))) := by
  intro h
  let e : Expr := .call "list" [.call "object" [.object [
    (.name "a", .call "optional" [.variable "number", .number 1] false)]] false] false
  let type : TypeSpec := .list (.object [("a", .optional .number (some (.number 1)))])
  have hdecode : decode e = .ok type := rfl
  have ht : type.TakesItems := trivial
  have hregular : ∀ P, (Value.list [.object []]).toDatum.Regular P := fun P =>
    .list (List.forall_mem_singleton.2 (.object List.nodup_nil (by simp [Value.toDatumEntries])))
  have hencoded : type.convert (type.applyDefaults (Value.list [.object []]).encoded) =
      .ok (.list [.object [("a", .null)]]) := convert_encoded_eq ht (hregular _) (by decide)
  have hfilled : type.convert (type.applyDefaults (.list [.object []])) =
      .ok (.list [.object [("a", .number 1)]]) := rfl
  have hsame := h e type hdecode ht [.object []] rfl (hregular _) (by decide)
  rw [hencoded, hfilled] at hsame
  cases hsame with
  | ok hequal => exact absurd hequal (by decide)

end TypeSpec
end Preflight
