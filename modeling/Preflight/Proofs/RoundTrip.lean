import Preflight.Proofs.EncodedList
import Preflight.Proofs.ValueEquality
import Preflight.Value.Json

/-!
# Values turned into data and back

A value that is turned into plain data, or into a JSON tree, and back loses what is unknown in it and
nothing else.

* `Value.nulled` has null in place of everything unknown.
* `Value.Restores` says, form by form, what a round trip does: parts come back in their places, numbers
  equal, entries in any order. What it gives is equal to `nulled` (`Value.Restores.equal_nulled`), and to
  the value itself exactly if that is wholly known (`Value.Restores.equal_iff`).
* Plain data comes back exactly (`Value.ofDatum_toDatum_eq`). The JSON tree of a value is its plain data with
  the entries in order of their names (`Value.toJson_eq_sorted`), and it may hold a whole number as a
  fraction (`Value.restores_json`).
* `Value.ofJson_of_read?`: what is read from a JSON text is the same value either way.
-/

namespace Preflight

/-! ### Numbers -/

/-- A number that 64 bits hold: an integer in range, or a fraction that is not rounded. -/
def Number.Fits : Number → Prop
  | .int n => inRange n = true
  | .real q => Binary64.round? q = some q

namespace Number

instance : DecidablePred Fits
  | .int n => inferInstanceAs (Decidable (inRange n = true))
  | .real q => inferInstanceAs (Decidable (Binary64.round? q = some q))

theorem ofJson_int {n : Int} (h : inRange n = true) : ofJson (.int n) = .int n := by
  obtain ⟨hlow, hhigh⟩ := inRange_iff.1 h
  by_cases hwhole : n < Nat.pow 2 63
  · have hword : whole? (.int n) = some n := if_pos ⟨by simpa using hlow, hwhole⟩
    rw [ofJson, hword]
  · have hword : whole? (.int n) = none := if_neg fun hn => hwhole hn.2
    have hpos : 0 ≤ n := by
      norm_num at hwhole
      omega
    have hnatural : natural? (.int n) = some n.toNat := if_pos hpos
    simp [ofJson, hword, hnatural, hpos]

theorem ofJson_real (q : Rat) : ofJson (.real q) = ofBinary64 q := rfl

/-- A number of a JSON tree comes back as an equal number. -/
theorem equal_ofJson {n : Number} (h : n.Fits) : n.ofJson.equal n = true := by
  cases n with
  | int n =>
    rw [ofJson_int h]
    exact equal_self _
  | real q =>
    rw [ofJson_real, ofBinary64]
    split_ifs with hwhole
    · have hq : (q.num : Rat) = q := Rat.coe_int_num_of_den_eq_one hwhole.1
      have hround : Binary64.round? q = some q := h
      simp [equal, toBinary64, hq, Binary64.nearest, hround]
    · exact equal_self _

/-- A whole fraction comes back as an integer. -/
example : ofJson (.real (-9223372036854775808)) = .int (-9223372036854775808) := by decide

theorem ofJson_of_reduced {n : Number} (h : n.Reduced) : n.ofJson = n := by
  cases n with
  | int n => exact ofJson_int h
  | real q => exact if_neg h

end Number

namespace Value

/-! ### What a round trip restores -/

mutual
/-- A value with null in place of everything unknown. -/
def nulled : Value → Value
  | .null => .null
  | .unknown => .null
  | .bool b => .bool b
  | .number n => .number n
  | .string s => .string s
  | .list items => .list (nulledItems items)
  | .object entries => .object (nulledEntries entries)

/-- Each item with null in place of everything unknown. -/
def nulledItems : List Value → List Value
  | [] => []
  | v :: vs => v.nulled :: nulledItems vs

/-- Each entry with null in place of everything unknown. -/
def nulledEntries : List (String × Value) → List (String × Value)
  | [] => []
  | (k, v) :: es => (k, v.nulled) :: nulledEntries es
end

theorem nulledItems_eq_map (vs : List Value) : nulledItems vs = vs.map nulled := by
  induction vs with
  | nil => rfl
  | cons v vs ih => rw [nulledItems, ih, List.map_cons]

theorem nulledEntries_eq_map (es : List (String × Value)) :
    nulledEntries es = es.map fun e => (e.1, nulled e.2) := by
  induction es with
  | nil => rfl
  | cons e es ih => rw [nulledEntries, ih, List.map_cons]

/-- A round trip keeps every form but the unknown one. Numbers come back equal, and objects with the same
names, each once. -/
structure Restores (trip : Value → Value) : Prop where
  null : trip .null = .null
  unknown : trip .unknown = .null
  bool (b : Bool) : trip (.bool b) = .bool b
  number {n : Number} (h : n.Fits) : ∃ m, trip (.number n) = .number m ∧ m.equal n = true
  string (s : String) : trip (.string s) = .string s
  list (items : List Value) : trip (.list items) = .list (items.map trip)
  object {es : Entries Value} (h : es.keys.Nodup) : ∃ fs : Entries Value,
    trip (.object es) = .object fs ∧ fs.keys.Nodup ∧ ∀ key, fs.get? key = (es.get? key).map trip

namespace Restores

variable {trip : Value → Value} {v : Value}

/-- Only what is unknown is lost. -/
theorem equal_nulled (ht : Restores trip) (hv : v.Regular Number.Fits) :
    (trip v).equal v.nulled = true := by
  induction hv with
  | null => rw [ht.null]; rfl
  | unknown => rw [ht.unknown]; rfl
  | bool b => rw [ht.bool]; simp [nulled, Value.equal]
  | number hn =>
    obtain ⟨m, hm, hequal⟩ := ht.number hn
    rw [hm, nulled, Value.equal, hequal]
  | string s => rw [ht.string]; simp [nulled, Value.equal]
  | list _ ih =>
    rw [ht.list, nulled, nulledItems_eq_map, Value.equal, equalItems_iff, List.forall₂_map_left_iff,
      List.forall₂_map_right_iff, List.forall₂_same]
    exact ih
  | @object es hes _ ih =>
    -- entries may have changed their places, so they are compared name by name
    obtain ⟨fs, htrip, hfs, hget⟩ := ht.object hes
    have hkeys : ∀ key, key ∈ fs.keys ↔ key ∈ es.keys := by
      intro key
      rw [← Entries.isSome_get?, ← Entries.isSome_get?, hget, Option.isSome_map]
    rw [htrip, nulled, nulledEntries_eq_map, Value.equal, Bool.and_eq_true, decide_eq_true_eq,
      List.length_map, entriesWithin_iff_get? hfs]
    refine ⟨length_eq_of_keys hfs hes hkeys, fun key w hw => ?_⟩
    rw [hget] at hw
    obtain ⟨u, hu, rfl⟩ := Option.map_eq_some_iff.1 hw
    refine ⟨u.nulled, ?_, ih (key, u) (Entries.mem_of_get? hu)⟩
    rw [Entries.get?_map, hu]
    rfl

/-- The null in place of something unknown is not equal to it, so no part can have been unknown. -/
theorem isWhollyKnown_of_equal (ht : Restores trip) (hv : v.Regular Number.Fits)
    (h : (trip v).equal v = true) : v.isWhollyKnown = true := by
  induction hv with
  | null => rfl
  | unknown =>
    rw [ht.unknown] at h
    cases h
  | bool b => rfl
  | number _ => rfl
  | string s => rfl
  | list _ ih =>
    rw [ht.list, Value.equal, equalItems_iff, List.forall₂_map_left_iff, List.forall₂_same] at h
    rw [Value.isWhollyKnown, allKnown_iff]
    exact fun v hv => ih v hv (h v hv)
  | @object es hes _ ih =>
    obtain ⟨fs, htrip, hfs, hget⟩ := ht.object hes
    rw [htrip, Value.equal, Bool.and_eq_true, entriesWithin_iff_get? hfs] at h
    rw [Value.isWhollyKnown, allEntriesKnown_iff]
    intro e he
    have hfound : es.get? e.1 = some e.2 := (Entries.get?_eq_some_iff hes).2 he
    obtain ⟨w, hw, hequal⟩ := h.2 e.1 (trip e.2) (by rw [hget, hfound]; rfl)
    obtain rfl : e.2 = w := Option.some.inj (hfound.symm.trans hw)
    exact ih e he hequal

end Restores

/-! ### Plain data -/

mutual
theorem ofDatum_toDatum_eq : (v : Value) → ofDatum v.toDatum = v.nulled
  | .null | .unknown | .bool _ | .number _ | .string _ => rfl
  | .list items => by rw [toDatum, ofDatum, nulled, ofData_toData_eq items]
  | .object entries => by rw [toDatum, ofDatum, nulled, ofDatumEntries_toDatumEntries_eq entries]

theorem ofData_toData_eq : (vs : List Value) → ofData (toData vs) = nulledItems vs
  | [] => rfl
  | v :: vs => by rw [toData, ofData, nulledItems, ofDatum_toDatum_eq v, ofData_toData_eq vs]

theorem ofDatumEntries_toDatumEntries_eq :
    (es : List (String × Value)) → ofDatumEntries (toDatumEntries es) = nulledEntries es
  | [] => rfl
  | (k, v) :: es => by
    rw [toDatumEntries, ofDatumEntries, nulledEntries, ofDatum_toDatum_eq v,
      ofDatumEntries_toDatumEntries_eq es]
end

theorem nulled_of_isWhollyKnown {v : Value} (h : v.isWhollyKnown = true) : v.nulled = v := by
  rw [← ofDatum_toDatum_eq, ofDatum_toDatum v h]

/-- What comes back is equal to the value exactly if nothing in it is unknown. -/
theorem Restores.equal_iff {trip : Value → Value} (ht : Restores trip) {v : Value}
    (hv : v.Regular Number.Fits) : (trip v).equal v = true ↔ v.isWhollyKnown = true := by
  refine ⟨ht.isWhollyKnown_of_equal hv, fun h => ?_⟩
  have hequal : (trip v).equal v.nulled = true := ht.equal_nulled hv
  rwa [nulled_of_isWhollyKnown h] at hequal

theorem restores_nulled : Restores nulled where
  null := rfl
  unknown := rfl
  bool _ := rfl
  number {n} _ := ⟨n, rfl, n.equal_self⟩
  string _ := rfl
  list items := by rw [nulled, nulledItems_eq_map]
  object {es} h := by
    refine ⟨_, rfl, ?_, fun key => ?_⟩
    · rwa [nulledEntries_eq_map, Entries.keys_map]
    · rw [nulledEntries_eq_map, Entries.get?_map]

/-! ### JSON trees -/

mutual
/-- The JSON tree of a value is its plain data in order of names. -/
theorem toJson_eq_sorted : (v : Value) → v.toJson = v.toDatum.sorted
  | .null | .unknown | .bool _ | .number _ | .string _ => rfl
  | .list items => by rw [toJson, toDatum, Datum.sorted, toJsonItems_eq_sorted items]
  | .object entries => by rw [toJson, toDatum, Datum.sorted, toJsonEntries_eq_sorted [] entries]

theorem toJsonItems_eq_sorted : (vs : List Value) → toJsonItems vs = sortedItems (toData vs)
  | [] => rfl
  | v :: vs => by
    rw [toJsonItems, toData, sortedItems, toJson_eq_sorted v, toJsonItems_eq_sorted vs]

theorem toJsonEntries_eq_sorted (before : Entries Datum) :
    (es : List (String × Value)) → toJsonEntries before es = sortedEntries before (toDatumEntries es)
  | [] => rfl
  | (k, v) :: es => by
    rw [toJsonEntries, toDatumEntries, sortedEntries, toJson_eq_sorted v,
      toJsonEntries_eq_sorted (Json.insertSorted k v.toDatum.sorted before) es]
end

theorem ofJsonItems_eq_map (ds : List Datum) : ofJsonItems ds = ds.map ofJson := by
  induction ds with
  | nil => rfl
  | cons d ds ih => rw [ofJsonItems, ih, List.map_cons]

theorem ofJsonEntries_eq_map (es : List (String × Datum)) :
    ofJsonEntries es = es.map fun e => (e.1, ofJson e.2) := by
  induction es with
  | nil => rfl
  | cons e es ih => rw [ofJsonEntries, ih, List.map_cons]

theorem restores_json : Restores fun v => ofJson v.toJson where
  null := rfl
  unknown := rfl
  bool _ := rfl
  number {n} h := ⟨n.ofJson, rfl, Number.equal_ofJson h⟩
  string _ := rfl
  list items := by
    rw [toJson_eq_sorted, toDatum, Datum.sorted, ofJson, ofJsonItems_eq_map, sortedItems_eq_map,
      toData_eq_map]
    simp [Function.comp_def, toJson_eq_sorted]
  object {es} h := by
    have hnil : Json.InNameOrder [] := List.Pairwise.nil
    have hordered := inNameOrder_sortedEntries hnil (toDatumEntries es)
    refine ⟨_, by rw [toJson_eq_sorted, toDatum, Datum.sorted, ofJson], ?_, fun key => ?_⟩
    · rw [ofJsonEntries_eq_map, Entries.keys_map]
      exact hordered.nodup
    · have hes : (Entries.keys (es.map fun e => (e.1, toDatum e.2))).Nodup := by
        rwa [Entries.keys_map]
      rw [ofJsonEntries_eq_map, Entries.get?_map, toDatumEntries_eq_map, get?_sortedEntries hes,
        Entries.get?_map]
      simp [Function.comp_def, toJson_eq_sorted]

theorem ofJson_of_regular {d : Datum} (h : d.Regular Number.Reduced) : ofJson d = ofDatum d := by
  induction h with
  | null => rfl
  | bool b => rfl
  | number hn => rw [ofJson, ofDatum, Number.ofJson_of_reduced hn]
  | string s => rfl
  | list _ ih =>
    rw [ofJson, ofDatum, ofJsonItems_eq_map, ofData_eq_map]
    exact congrArg Value.list (List.map_congr_left ih)
  | object _ _ ih =>
    rw [ofJson, ofDatum, ofJsonEntries_eq_map, ofDatumEntries_eq_map]
    refine congrArg Value.object (List.map_congr_left fun e he => ?_)
    rw [ih e he]

/-- What is read from a JSON text is the same value as plain data and as a JSON tree. -/
theorem ofJson_of_read? {s : String} {d : Datum} (h : Json.read? s = some d) :
    ofJson d = ofDatum d :=
  ofJson_of_regular (Json.regular_of_read? h)

/-! ### What is lost -/

/-- A value with distinct names and with numbers of 64 bits loses what is unknown in it, and nothing else, on
the way through plain data and through a JSON tree. Through plain data everything else stays as it is,
through a tree it stays equal. Both ways what comes back is equal to the value exactly if the value is
wholly known. -/
theorem conversions_lose_unknowns {v : Value} (hv : v.Regular Number.Fits) :
    ofDatum v.toDatum = v.nulled ∧
    (ofJson v.toJson).equal v.nulled = true ∧
    ((ofDatum v.toDatum).equal v = true ↔ v.isWhollyKnown = true) ∧
    ((ofJson v.toJson).equal v = true ↔ v.isWhollyKnown = true) := by
  refine ⟨ofDatum_toDatum_eq v, restores_json.equal_nulled hv, ?_, restores_json.equal_iff hv⟩
  rw [ofDatum_toDatum_eq]
  exact restores_nulled.equal_iff hv

/-- A server with a zone that is not known yet and with fractions, one of them whole: a null takes the place
of the zone, so neither way gives back the server. -/
theorem conversions_lose_unknowns_server :
    let server : Value := .object [("zone", .list [.unknown, .null]), ("share", .number (.real (1 / 2))),
      ("floor", .number (.real (-9223372036854775808)))]
    server.Regular Number.Fits ∧
      ofDatum server.toDatum = server.nulled ∧
      (ofJson server.toJson).equal server.nulled = true ∧
      (ofDatum server.toDatum).equal server = false ∧
      (ofJson server.toJson).equal server = false := by
  intro server
  have hzone : (list [.unknown, .null]).Regular Number.Fits :=
    .list (by simp [Regular.unknown, Regular.null])
  have hshare : (Number.real (1 / 2)).Fits := by decide +kernel
  have hfloor : (Number.real (-9223372036854775808)).Fits := by decide +kernel
  have hserver : server.Regular Number.Fits :=
    .object (by decide) (List.forall_mem_cons.2 ⟨hzone, List.forall_mem_cons.2
      ⟨.number hshare, List.forall_mem_singleton.2 (.number hfloor)⟩⟩)
  have hopen : server.isWhollyKnown ≠ true := by decide
  obtain ⟨hdata, htree, hdataKnown, htreeKnown⟩ := conversions_lose_unknowns hserver
  exact ⟨hserver, hdata, htree, Bool.eq_false_iff.2 (mt hdataKnown.1 hopen),
    Bool.eq_false_iff.2 (mt htreeKnown.1 hopen)⟩

end Value
end Preflight
