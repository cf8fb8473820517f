import Preflight.Datum

/-!
# Values

A value is what is known of a setting before anything is provisioned. Beside plain data there is
one more state: `unknown`, for what depends on data of a later stage. `null` is a value of its own
and says nothing about an attribute being absent. Lists and objects may hold unknown parts.

* `isWhollyKnown` looks at a value with all its parts;
* `getPath?` follows object keys;
* `toDatum` gives plain data, with `null` for what is unknown, and `ofDatum` goes back.
-/

namespace Preflight

/-- Data of which parts may not be known yet. -/
inductive Value where
  | null
  | unknown
  | bool (value : Bool)
  | number (value : Number)
  | string (value : String)
  | list (items : List Value)
  | object (entries : List (String × Value))

instance : Inhabited Value := ⟨.null⟩

namespace Value

mutual
/-- Neither the value nor any part of it is unknown. -/
def isWhollyKnown : Value → Bool
  | .unknown => false
  | .list items => allKnown items
  | .object entries => allEntriesKnown entries
  | _ => true

/-- Every item is wholly known. -/
def allKnown : List Value → Bool
  | [] => true
  | v :: vs => v.isWhollyKnown && allKnown vs

/-- Every entry is wholly known. -/
def allEntriesKnown : List (String × Value) → Bool
  | [] => true
  | (_, v) :: es => v.isWhollyKnown && allEntriesKnown es
end

/-- Whether a value is null. -/
def isNull : Value → Bool
  | .null => true
  | _ => false

/-- The name of a value's type in reports. -/
def typeName : Value → String
  | .null => "null"
  | .unknown => "unknown"
  | .bool _ => "bool"
  | .number _ => "number"
  | .string _ => "string"
  | .list _ => "list"
  | .object _ => "object"

/-- The string that a value is. -/
def string? : Value → Option String
  | .string s => some s
  | _ => none

/-- Follows a path of object keys. -/
def getPath? : Value → List String → Option Value
  | v, [] => some v
  | .object entries, key :: path =>
    match Entries.get? entries key with
    | some v => getPath? v path
    | none => none
  | _, _ :: _ => none

mutual
/-- The plain data of a value; what is unknown becomes `null`. -/
def toDatum : Value → Datum
  | .null => .null
  | .unknown => .null
  | .bool b => .bool b
  | .number n => .number n
  | .string s => .string s
  | .list items => .list (toData items)
  | .object entries => .object (toDatumEntries entries)

/-- The plain data of each item. -/
def toData : List Value → List Datum
  | [] => []
  | v :: vs => v.toDatum :: toData vs

/-- The plain data of each entry. -/
def toDatumEntries : List (String × Value) → List (String × Datum)
  | [] => []
  | (k, v) :: es => (k, v.toDatum) :: toDatumEntries es
end

mutual
/-- Plain data as a value. -/
def ofDatum : Datum → Value
  | .null => .null
  | .bool b => .bool b
  | .number n => .number n
  | .string s => .string s
  | .list items => .list (ofData items)
  | .object entries => .object (ofDatumEntries entries)

/-- Each item as a value. -/
def ofData : List Datum → List Value
  | [] => []
  | d :: ds => ofDatum d :: ofData ds

/-- Each entry as a value. -/
def ofDatumEntries : List (String × Datum) → List (String × Value)
  | [] => []
  | (k, d) :: es => (k, ofDatum d) :: ofDatumEntries es
end

mutual
/-- Equality of values: lists item by item, objects by key whatever the order of their entries. -/
def equal : Value → Value → Bool
  | .null, .null => true
  | .unknown, .unknown => true
  | .bool a, .bool b => a = b
  | .number a, .number b => a.equal b
  | .string a, .string b => a = b
  | .list as, .list bs => equalItems as bs
  | .object as, .object bs => as.length = bs.length && entriesWithin as bs
  | _, _ => false

/-- The same number of items, equal in turn. -/
def equalItems : List Value → List Value → Bool
  | [], [] => true
  | a :: as, b :: bs => equal a b && equalItems as bs
  | _, _ => false

/-- Every entry of the first list has an equal value under the same name in the second. -/
def entriesWithin : List (String × Value) → List (String × Value) → Bool
  | [], _ => true
  | (k, a) :: as, bs =>
    (match Entries.get? bs k with
      | some b => equal a b
      | none => false) && entriesWithin as bs
end

/-- Whether a list holds a value equal to the given one. -/
def among (v : Value) (vs : List Value) : Bool := vs.any fun w => w.equal v

end Value

/-- Equality of plain data is equality of the values they are. -/
def Datum.equal (a b : Datum) : Bool := (Value.ofDatum a).equal (Value.ofDatum b)

end Preflight
