import Preflight.AttributeReading
import Preflight.Module.Basic
import Preflight.TagPolicy
import Preflight.Value.Text

/-!
# Workspace tags

A `coder_workspace_tags` block gives the tags by which a workspace finds a provisioner. Each key and
each value is evaluated on its own.

* A tag is known if both sides are, errored if one side is, and else unknown.
* A block without an object literal for its tags is errored as a whole.
* Of several known tags with one key the last value counts, in the place of the first.
-/

namespace Preflight

/-- The type of the data sources that declare tags. -/
def tagsType : String := "coder_workspace_tags"

/-- What is known of a side of a tag. -/
inductive TagValue where
  | known (text : String)
  | unknown
  | errored
  deriving DecidableEq, Repr

/-- A key or a value: its text, the references in it and what is known of it. -/
structure TagSide where
  expression : String
  references : List String
  value : TagValue
  deriving DecidableEq, Repr

/-- A tag: its key and its value. -/
structure Tag where
  key : TagSide
  value : TagSide
  deriving DecidableEq, Repr

/-- What is known of a tag. -/
inductive TagState where
  | known
  | unknown
  | errored
  deriving DecidableEq, Repr

namespace Tag

/-- What is known of both sides together. -/
def state (t : Tag) : TagState :=
  match t.key.value, t.value.value with
  | .errored, _ => .errored
  | _, .errored => .errored
  | .known _, .known _ => .known
  | _, _ => .unknown

/-- The key and the value if both are known. -/
def known? (t : Tag) : Option (String × String) :=
  match t.key.value, t.value.value with
  | .known key, .known value => some (key, value)
  | _, _ => none

/-- The key, or its expression if it is not known. -/
def placeholder (t : Tag) : String :=
  match t.key.value with
  | .known key => key
  | _ => t.key.expression

/-- The references in the key, then those in the value. -/
def references (t : Tag) : List String := t.key.references ++ t.value.references

end Tag

/-- The tags of one block. -/
structure TagBlock where
  address : String
  location? : Option Location
  tags : List Tag
  /-- The block as a whole cannot be used. -/
  errored : Bool
  diagnostics : Diagnostics

namespace TagBlock

/-- The known tags. -/
def validTags (b : TagBlock) : Entries String := Entries.ofList (b.tags.filterMap Tag.known?)

/-- The keys of the unknown tags. -/
def unknowns (b : TagBlock) : List String :=
  (b.tags.filter fun t => t.state = .unknown).map Tag.placeholder

end TagBlock

/-- Tag blocks in order. -/
abbrev TagBlocks := List TagBlock

namespace TagBlocks

/-- The known tags of all blocks; of one key the later block counts. -/
def validTags (bs : TagBlocks) : Entries String :=
  bs.foldl (fun tags b => tags.insertAll b.validTags) []

/-- The keys of the unknown tags of all blocks. -/
def unknowns (bs : TagBlocks) : List String := bs.flatMap TagBlock.unknowns

end TagBlocks

/-! ### Resolving -/

/-- Where the sides of a block's tags are evaluated and reported. -/
structure TagSite where
  context : Context
  location : Location
  address : String

namespace TagSite

/-- A diagnostic about a side. -/
def report (site : TagSite) (e : Expr) (d : Diagnostic) : Diagnostic :=
  (d.located (some site.location) site.address).about e

/-- What is known of an expression that the policy permits. -/
def evaluate (site : TagSite) (e : Expr) : Reported TagValue :=
  match site.context.evaluate e with
  | .error err => ⟨.errored, [site.report e (err.diagnostic e)]⟩
  | .ok v =>
    if v.isWhollyKnown then match v.toText with
      | .ok s => ⟨.known s, []⟩
      | .error err =>
        ⟨.errored, [site.report e
          (.error .unsupportedValueShape "Invalid workspace tag" err.message)]⟩
    else ⟨.unknown, []⟩

/-- What is known of an expression. -/
def value (site : TagSite) (e : Expr) : Reported TagValue :=
  match TagPolicy.entry e with
  | [] => site.evaluate e
  | reasons => ⟨.errored, reasons.map fun r => site.report e r.diagnostic⟩

/-- The side that an expression gives. -/
def side (site : TagSite) (e : Expr) : Reported TagSide :=
  let v := site.value e
  ⟨⟨e.text, e.references.map Reference.text, v.value⟩, v.diagnostics⟩

/-- The side that an object key gives. -/
def key (site : TagSite) : Key → Reported TagSide
  | .name n => ⟨⟨n, [], .known n⟩, []⟩
  | .expr e => site.side e

/-- The tag that an entry of the object gives. -/
def tag (site : TagSite) (entry : Key × Expr) : Reported Tag :=
  let k := site.key entry.1
  let v := site.side entry.2
  ⟨⟨k.value, v.value⟩, k.diagnostics ++ v.diagnostics⟩

end TagSite

/-- Resolves the tags of a block. -/
def TagBlock.resolve (scope : Scope) (b : Block) : TagBlock :=
  let unusable (diagnostics : Diagnostics) : TagBlock :=
    ⟨b.address, some b.heading.location, [], true, diagnostics⟩
  match b.presentAttribute? "tags" with
  | none => unusable (b.require "tags")
  | some a => match TagPolicy.tags a.expression with
    | .error reason =>
      unusable [(reason.diagnostic.located (some a.location) b.address).about a.expression]
    | .ok items =>
      let site : TagSite := ⟨b.context scope, a.location, b.address⟩
      let tags := items.map site.tag
      ⟨b.address, some b.heading.location, tags.map Reported.value, false,
        tags.flatMap Reported.diagnostics⟩

/-- Resolves the tag blocks of a module. -/
def Module.resolveTags (m : Module) : TagBlocks :=
  (m.blocksOf "data" tagsType).map (TagBlock.resolve m.scope)

end Preflight
