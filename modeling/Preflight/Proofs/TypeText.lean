import Preflight.Parameter
import Preflight.Proofs.Defaults
import Preflight.Proofs.ReadableText

/-!
# Types that can be read back from their text

The text of a type is read as a type again, which has no default values but is the same otherwise.

* `TypeSpec.toExpr` is the expression as which the text is read (`TypeSpec.readAs_text`). What it
  writes is the type without its default values (`TypeSpec.ofExpr_toExpr`).
* Names are printed as they are. Those that were written in quotes may be no names where they stand
  alone, and then the text is no type or another one. `TypeSpec.BareNamed` excludes them, and an
  object type whose first attribute is called `for`.
* `TypeSpec.text_reads_back` puts this together, for the types that are read and the parameters that
  report them.
-/

namespace Preflight
namespace TypeSpec

/-! ### What is read back -/

mutual
/-- The expression as which the text of a type is read. -/
def toExpr : TypeSpec → Expr
  | .any => .variable "any"
  | .string => .variable "string"
  | .number => .variable "number"
  | .bool => .variable "bool"
  | .list element => .call "list" [element.toExpr] false
  | .set element => .call "set" [element.toExpr] false
  | .map element => .call "map" [element.toExpr] false
  | .tuple elements => .call "tuple" [.array (toExprs elements)] false
  | .object attributes => .call "object" [.object (toItems attributes)] false

/-- The expressions of the elements of a tuple. -/
def toExprs : List TypeSpec → List Expr
  | [] => []
  | t :: ts => t.toExpr :: toExprs ts

/-- The entries of an object type. -/
def toItems : List (String × AttributeSpec) → List (Key × Expr)
  | [] => []
  | (name, a) :: as => (.name name, attributeToExpr a) :: toItems as

/-- The expression of an attribute's type. -/
def attributeToExpr : AttributeSpec → Expr
  | .required type => type.toExpr
  | .optional type _ => .call "optional" [type.toExpr] false
end

mutual
/-- A type without the default values of its optional attributes. -/
def withoutDefaults : TypeSpec → TypeSpec
  | .any => .any
  | .string => .string
  | .number => .number
  | .bool => .bool
  | .list element => .list element.withoutDefaults
  | .set element => .set element.withoutDefaults
  | .map element => .map element.withoutDefaults
  | .tuple elements => .tuple (withoutDefaultsAll elements)
  | .object attributes => .object (attributesWithoutDefaults attributes)

/-- Each of the types without default values. -/
def withoutDefaultsAll : List TypeSpec → List TypeSpec
  | [] => []
  | t :: ts => t.withoutDefaults :: withoutDefaultsAll ts

/-- Each of the attributes without default values. -/
def attributesWithoutDefaults : List (String × AttributeSpec) → List (String × AttributeSpec)
  | [] => []
  | (name, a) :: as => (name, attributeWithoutDefaults a) :: attributesWithoutDefaults as

/-- An attribute without default values; an optional one stays optional. -/
def attributeWithoutDefaults : AttributeSpec → AttributeSpec
  | .required type => .required type.withoutDefaults
  | .optional type _ => .optional type.withoutDefaults none
end

/-- The names of attributes can be read back from where they are printed: each is a bare name, and
the first one is not the keyword that makes an object of a `for`. -/
structure BareAttributes (attributes : List (String × AttributeSpec)) : Prop where
  names : ∀ a ∈ attributes, isBareName a.1 = true
  first : ∀ a ∈ attributes.head?, a.1 ≠ "for"

/-- All names inside a type can be read back. -/
def BareNamed : TypeSpec → Prop := Every BareAttributes

/-! ### The text -/

theorem texts_eq_map (ts : List TypeSpec) : texts ts = ts.map text := by
  induction ts with
  | nil => rfl
  | cons t ts ih => rw [texts, ih, List.map_cons]

theorem toExprs_eq_map (ts : List TypeSpec) : toExprs ts = ts.map toExpr := by
  induction ts with
  | nil => rfl
  | cons t ts ih => rw [toExprs, ih, List.map_cons]

theorem attributeTexts_eq_map (as : List (String × AttributeSpec)) :
    attributeTexts as = as.map fun a => a.1 ++ " = " ++ attributeText a.2 := by
  induction as with
  | nil => rfl
  | cons a as ih => rw [attributeTexts, ih, List.map_cons]

theorem toItems_eq_map (as : List (String × AttributeSpec)) :
    toItems as = as.map fun a => (.name a.1, attributeToExpr a.2) := by
  induction as with
  | nil => rfl
  | cons a as ih => rw [toItems, ih, List.map_cons]

/-- The text of a type does not start like a `for`. -/
theorem head?_text (t : TypeSpec) : t.text.toList.head? ≠ some 'f' := by
  cases t <;> simp [text]

theorem readAs_tuple {ts : List TypeSpec} (h : ∀ t ∈ ts, Parser.ReadAs t.text.toList t.toExpr) :
    Parser.ReadAs (tuple ts).text.toList (tuple ts).toExpr := by
  have harray := Parser.ReadAs.array h fun t _ => t.head?_text
  have hcall := harray.call (n := "tuple") (by decide)
  have htext : (tuple ts).text.toList = "tuple".toList ++
      '(' :: ('[' :: (Parser.commaList (fun t => t.text.toList) ts ++ [']']) ++ [')']) := by
    simp [text, texts_eq_map, Parser.commaList, String.toList_intercalate, Function.comp_def]
  rwa [htext, toExpr, toExprs_eq_map]

theorem readAs_attribute {a : AttributeSpec} (h : Parser.ReadAs a.type.text.toList a.type.toExpr) :
    Parser.ReadAs (attributeText a).toList (attributeToExpr a) := by
  cases a with
  | required type => exact h
  | optional type default? =>
    have hcall := h.call (n := "optional") (by decide)
    have htext : (attributeText (.optional type default?)).toList =
        "optional".toList ++ '(' :: (type.text.toList ++ [')']) := by
      simp [attributeText]
    rwa [htext, attributeToExpr]

theorem readAs_object {as : List (String × AttributeSpec)} (hnames : BareAttributes as)
    (hnodup : (Entries.keys as).Nodup)
    (h : ∀ a ∈ as, Parser.ReadAs (attributeText a.2).toList (attributeToExpr a.2)) :
    Parser.ReadAs (object as).text.toList (object as).toExpr := by
  have hobject := Parser.ReadAs.object hnames.names hnodup hnames.first h
  have hcall := hobject.call (n := "object") (by decide)
  have htext : (object as).text.toList = "object".toList ++ '(' :: ('\x7b' :: (Parser.commaList
      (Parser.entryText Prod.fst fun a => (attributeText a.2).toList) as ++ ['\x7d']) ++ [')']) := by
    simp [text, attributeTexts_eq_map, Parser.commaList, String.toList_intercalate,
      Function.comp_def]
    rfl
  rwa [htext, toExpr, toItems_eq_map]

/-- The parser reads the text of a type as the expression that writes it. -/
theorem readAs_text {t : TypeSpec}
    (h : t.Every fun as => BareAttributes as ∧ (Entries.keys as).Nodup) :
    Parser.ReadAs t.text.toList t.toExpr := by
  induction h with
  | any => exact Parser.readAs_word (n := "any") (by decide)
  | string => exact Parser.readAs_word (n := "string") (by decide)
  | number => exact Parser.readAs_word (n := "number") (by decide)
  | bool => exact Parser.readAs_word (n := "bool") (by decide)
  | list _ ih => simpa [text, toExpr] using ih.call (n := "list") (by decide)
  | set _ ih => simpa [text, toExpr] using ih.call (n := "set") (by decide)
  | map _ ih => simpa [text, toExpr] using ih.call (n := "map") (by decide)
  | tuple _ ih => exact readAs_tuple ih
  | object hP _ ih => exact readAs_object hP.1 hP.2 fun a ha => readAs_attribute (ih a ha)

/-! ### The type that is read back -/

theorem keys_attributesWithoutDefaults (as : List (String × AttributeSpec)) :
    Entries.keys (attributesWithoutDefaults as) = Entries.keys as := by
  induction as with
  | nil => rfl
  | cons a as ih =>
    rw [attributesWithoutDefaults, Entries.keys, List.map_cons]
    exact congrArg (a.1 :: ·) ih

theorem ofExprs_toExprs {ts : List TypeSpec}
    (h : ∀ t ∈ ts, ofExpr t.toExpr = .ok t.withoutDefaults) :
    ofExprs (toExprs ts) = .ok (withoutDefaultsAll ts) := by
  induction ts with
  | nil => rfl
  | cons t ts ih =>
    obtain ⟨ht, hts⟩ := List.forall_mem_cons.1 h
    rw [toExprs, ofExprs, ht, ih hts]
    rfl

theorem ofItems_required (whole n : String) (type : TypeSpec) (items : List (Key × Expr)) :
    ofItems whole ((.name n, type.toExpr) :: items) = do
      let a ← AttributeSpec.required <$> ofExpr type.toExpr
      return (n, a) :: (← ofItems whole items) := by
  cases type <;> simp [toExpr, ofItems, Key.fixedName?]

theorem ofItems_attribute {a : AttributeSpec}
    (h : ofExpr a.type.toExpr = .ok a.type.withoutDefaults) (whole n : String)
    (items : List (Key × Expr)) :
    ofItems whole ((.name n, attributeToExpr a) :: items) = do
      return (n, attributeWithoutDefaults a) :: (← ofItems whole items) := by
  cases a with
  | required type =>
    rw [AttributeSpec.type] at h
    rw [attributeToExpr, ofItems_required, h]
    rfl
  | optional type default? =>
    rw [AttributeSpec.type] at h
    rw [attributeToExpr, ofItems]
    simp only [Key.fixedName?, if_pos, ofOptional, h]
    rfl

theorem ofItems_toItems {as : List (String × AttributeSpec)}
    (h : ∀ a ∈ as, ofExpr a.2.type.toExpr = .ok a.2.type.withoutDefaults) (whole : String) :
    ofItems whole (toItems as) = .ok (attributesWithoutDefaults as) := by
  induction as with
  | nil => rfl
  | cons a as ih =>
    obtain ⟨ha, has⟩ := List.forall_mem_cons.1 h
    rw [toItems, ofItems_attribute ha, ih has]
    rfl

theorem toExpr_ne_string (t : TypeSpec) (s : String) : t.toExpr ≠ .string s := by
  cases t <;> simp [toExpr]

theorem decode_of_ne_string {e : Expr} (h : ∀ s, e ≠ .string s) : decode e = ofExpr e := by
  cases e with
  | string s => exact absurd rfl (h s)
  | _ => rfl

/-- What is read writes the type without its default values. -/
theorem ofExpr_toExpr {t : TypeSpec} (h : t.Distinct) :
    ofExpr t.toExpr = .ok t.withoutDefaults := by
  induction h with
  | any => rfl
  | string => rfl
  | number => rfl
  | bool => rfl
  | list _ ih =>
    rw [toExpr, ofExpr_call_single, if_pos rfl, ih]
    rfl
  | set _ ih =>
    rw [toExpr, ofExpr_call_single, if_neg (by decide), if_pos rfl, ih]
    rfl
  | map _ ih =>
    rw [toExpr, ofExpr_call_single, if_neg (by decide), if_neg (by decide), if_pos rfl, ih]
    rfl
  | tuple _ ih =>
    rw [toExpr, ofExpr_call_single, if_neg (by decide), if_neg (by decide), if_neg (by decide)]
    simp only [if_pos, ofExprs_toExprs ih]
    rfl
  | object hnames _ ih =>
    rw [toExpr, ofExpr_call_single, if_neg (by decide), if_neg (by decide), if_neg (by decide)]
    simp only [if_pos, ofItems_toItems ih]
    have hnodup := keys_attributesWithoutDefaults _ ▸ hnames
    rw [withoutDefaults]
    exact congrArg (fun as => Except.ok (object as)) (Entries.ofList_of_nodup hnodup)

/-- The text of a type that was read can be read again if its names are bare, and gives the type
without its default values. It is the type that a parameter reports for the expression, unless that
is text itself. -/
theorem text_reads_back {e : Expr} {t : TypeSpec} (h : decode e = .ok t) (hnames : t.BareNamed) :
    (∃ e', Expr.parse? t.text = some e' ∧ decode e' = .ok t.withoutDefaults) ∧
      ∀ (input : Input) (s : Scope) (b : Block) (a : Attribute),
        (b.materialize s).presentAttribute? "type" = some a → a.expression = e →
        a.value.string? = none → (Parameter.resolve input s b).1.type = t.text := by
  have hdistinct : t.Distinct := (sound_of_decode h).distinct
  refine ⟨⟨t.toExpr, (readAs_text (hnames.and hdistinct)).parse?, ?_⟩, ?_⟩
  · rw [decode_of_ne_string t.toExpr_ne_string]
    exact ofExpr_toExpr hdistinct
  · rintro input s b a ha rfl hstring
    have htype : Parameter.typeText (b.materialize s) = t.text := by
      rw [Parameter.typeText, ha]
      cases hv : a.value with
      | string text => simp [hv, Value.string?] at hstring
      | _ => simp only [hv, h]
    rw [Parameter.resolve]
    split <;> exact htype

/-- The first attribute of an object type must not be called `for`. -/
example : (Expr.parse? (object [("for", .required .string)]).text).isNone = true := by
  decide +kernel

/-- A type with attributes at two depths, one of which was written in quotes. -/
theorem text_reads_back_disk :
    let machine (size? disk? : Option Value) : TypeSpec :=
      .object [("ids", .required (.tuple [.any, .bool])),
        ("disk", .optional (.object [("gb", .optional .number size?)]) disk?)]
    let disk : Expr := .call "object" [.object [(.expr (.string "gb"),
      .call "optional" [.variable "number", .number (.int 10)] false)]] false
    let e : Expr := .call "object" [.object
      [(.name "ids", .call "tuple" [.array [.variable "any", .variable "bool"]] false),
        (.name "disk", .call "optional" [disk, .object []] false)]] false
    let b : Block := ⟨⟨"data", ["coder_parameter", "machine"], ⟨none, none⟩⟩,
      [⟨"type", e, .unknown, ⟨none, none⟩⟩], [], [], []⟩
    let shown := "object(\x7bids = tuple([any, bool]), " ++
      "disk = optional(object(\x7bgb = optional(number)\x7d))\x7d)"
    decode e = .ok (machine (some (.number (.int 10))) (some (.object [("gb", .null)]))) ∧
      (Parameter.resolve [] .empty b).1.type = shown ∧
      ∃ e', Expr.parse? shown = some e' ∧ decode e' = .ok (machine none none) := by
  intro machine disk e b shown
  have hdecode :
      decode e = .ok (machine (some (.number (.int 10))) (some (.object [("gb", .null)]))) := rfl
  have hgb : ∀ size?, (object [("gb", .optional .number size?)]).BareNamed := by
    intro size?
    refine .object ⟨by simp; decide, by simp⟩ fun a ha => ?_
    rw [List.mem_singleton.1 ha]
    exact .number
  have hnames : ∀ size? disk?, (machine size? disk?).BareNamed := by
    intro size? disk?
    refine .object ⟨by simp; decide, by simp⟩ (List.forall_mem_cons.2 ⟨?_, ?_⟩)
    · exact .tuple (List.forall_mem_cons.2 ⟨.any, List.forall_mem_singleton.2 .bool⟩)
    · exact List.forall_mem_singleton.2 (hgb size?)
  have hshown : ∀ size? disk?, (machine size? disk?).text = shown := by
    intro size? disk?
    simp [machine, shown, text, attributeTexts, attributeText, texts]
  obtain ⟨hread, htype⟩ := text_reads_back hdecode (hnames _ _)
  rw [hshown] at hread htype
  exact ⟨hdecode, htype [] .empty b _ rfl rfl rfl, hread⟩

/-- A name that was written in quotes is printed without them. -/
theorem not_text_reads_back :
    ¬ ∀ (e : Expr) (t : TypeSpec), decode e = .ok t →
      ∃ e', Expr.parse? t.text = some e' ∧ decode e' = .ok t.withoutDefaults := by
  intro h
  let t : TypeSpec := .object [("a b", .required .string)]
  have hnone : (Expr.parse? t.text).isNone = true := by decide +kernel
  obtain ⟨e', he, -⟩ := h
    (.call "object" [.object [(.expr (.string "a b"), .variable "string")]] false) t rfl
  rw [Option.isNone_iff_eq_none.1 hnone] at he
  cases he

end TypeSpec
end Preflight
