import Preflight.Expr.Template

/-!
# Reading expressions

`Expr.parse?` reads a text as one expression.

* A term is a literal, a name, a call, something in brackets or a `for`; a sign binds tighter than
  an access, so `-a.b` is `(-a).b`. Of several signs in a row only the last one counts.
* Operators of equal precedence group to the right. The right operand of an operator may be a
  conditional, so `a == b ? c : d` is `a == (b ? c : d)`.
* An expression runs over several lines between parentheses, and from behind a term that is itself
  in parentheses to its end.
* An object entry replaces an earlier one with the same key, blanks in the key aside.
* A template means what its text shows when that is read again.
* The parsers count down a bound on the depth of calls; each call that does not read has only
  a fixed number of others below it, so the bound set by `Expr.parse?` is never reached.
-/

namespace Preflight

/-- Puts an operand in front of an expression, under the operators that bind less tightly. -/
def prepend (lhs : Expr) (op : BinaryOp) : Expr → Expr
  | .binary weaker l r =>
    if weaker.precedence < op.precedence then .binary weaker (prepend lhs op l) r
    else .binary op lhs (.binary weaker l r)
  | e => .binary op lhs e

/-- What can follow an operand. -/
inductive Follow where
  | binary (op : BinaryOp)
  | conditional

/-- The operator at the start of a text; comments and `=>` are none. -/
def follow? : List Char → Option Follow
  | '?' :: _ => some .conditional
  | '=' :: '=' :: _ => some (.binary .eq)
  | '!' :: '=' :: _ => some (.binary .notEq)
  | '<' :: '=' :: _ => some (.binary .lessEq)
  | '>' :: '=' :: _ => some (.binary .greaterEq)
  | '<' :: _ => some (.binary .less)
  | '>' :: _ => some (.binary .greater)
  | '+' :: _ => some (.binary .add)
  | '-' :: _ => some (.binary .sub)
  | '*' :: _ => some (.binary .mul)
  | '/' :: c :: _ => if c = '/' ∨ c = '*' then none else some (.binary .div)
  | '%' :: _ => some (.binary .rem)
  | '&' :: '&' :: _ => some (.binary .and)
  | '|' :: '|' :: _ => some (.binary .or)
  | _ => none

/-- Whether a `for` opens here. -/
def startsFor : List Char → Bool
  | 'f' :: 'o' :: 'r' :: c :: _ => c = ' ' ∨ c = '\t' ∨ c = '#' ∨ c = '/'
  | _ => false

/-- The sign at the start of a text. The minus before a digit belongs to a number. -/
def sign? : List Char → Option UnaryOp
  | '!' :: _ => some .not
  | '-' :: cs =>
    if (cs.drop (blankLength false 0 cs)).head?.any Char.isDigit then none else some .neg
  | _ => none

/-- Puts a sign before a term. -/
def signed (sign? : Option UnaryOp) (e : Expr) : Expr :=
  match sign? with
  | some op => .unary op e
  | none => e

/-- Whether a term stands in parentheses. -/
def inParens : Expr → Bool
  | .paren _ => true
  | _ => false

/-- Attaches accesses to a term. -/
def attach (root : Expr) : List Access → Expr
  | [] => root
  | path => .traversal root path

/-- Splits off the attribute names at the start of a path. -/
def splitFields : List Access → List String × List Access
  | .field name :: path =>
    let (names, rest) := splitFields path
    (name :: names, rest)
  | path => ([], path)

/-- A name as an expression. -/
def ofName : String → Expr
  | "null" => .null
  | "true" => .bool true
  | "false" => .bool false
  | name => .variable name

/-- An expression as the key of an object entry. -/
def Key.ofExpr : Expr → Key
  | .variable n => .name n
  | e => .expr e

/-- An entry of an object with the tokens of its key, and all that was read for it. -/
structure WrittenEntry where
  key : Key
  value : Expr
  keyTokens : List String
  text : List Char
  tokens : List String

/-- Adds an entry; an entry with the same key is replaced where it stands. -/
def addEntry (entry : WrittenEntry) : List WrittenEntry → List WrittenEntry
  | [] => [entry]
  | e :: es => if e.keyTokens = entry.keyTokens then entry :: es else e :: addEntry entry es

namespace Parser

/-- Separates the parts of a `for`: the names, then `in`. -/
def forNames : Parser (Option String × String) := do
  let first ← name
  blanks true
  let second ← (do
    if ← accept "," then do
      blanks true
      let second ← name
      blanks true
      return some second
    else return none)
  expect "in"
  blanks true
  match second with
  | some value => return (some first, value)
  | none => return (none, first)

/-- Reads the signs before a term: the last one with the blank behind it. -/
def signs (last : Option UnaryOp × List Char) : Nat → Parser (Option UnaryOp × List Char)
  | 0 => return last
  | fuel + 1 => do
    match sign? (← ahead) with
    | none => return last
    | some op => do
      discard <| advance 1
      let blank ← capture (blanks false)
      signs (some op, blank.text) fuel

/-- The head of a heredoc: whether it is indented, and its delimiter. -/
def heredocHead : Parser (Bool × String) := do
  expect "<<"
  let indented ← accept "-"
  let delimiter ← name
  lineBreak
  return (indented, delimiter)

/-- The end of an object's entry: a comma or the end of the line, unless the object ends. -/
def entryEnd : Parser Unit := do
  blanks false
  match (← ahead).head? with
  | some ',' => expect ","
  | some '\x7d' => return
  | _ => lineEnd

mutual
/-- An expression, over several lines or not. The blank behind a sign is written before it if
something follows the term, and not at all if nothing does. -/
def expr (multiline : Bool) : Nat → Parser Expr
  | 0 => failure
  | fuel + 1 => do
    let sign ← capture (signs (none, []) fuel)
    let (sign?, blank) := sign.value
    let operand ← capture (do
      let root ← term fuel
      let multiline := multiline || inParens root
      let path ← accesses multiline false fuel
      let cs ← ahead
      return (root, path, multiline, follow? (cs.drop (blankLength multiline 0 cs))))
    let (root, path, multiline, next?) := operand.value
    emit (if path.isEmpty && next?.isNone then [] else blank) []
    emit ((sign?.map UnaryOp.text).getD "").toList (sign?.map UnaryOp.text).toList
    emit operand.text operand.tokens
    let lhs := attach (signed sign? root) path
    match next? with
    | some (.binary op) => do
      blanks multiline
      expect op.text
      blanks multiline
      return prepend lhs op (← expr multiline fuel)
    | some .conditional => do
      blanks multiline
      expect "?"
      blanks multiline
      let yes ← expr multiline fuel
      blanks multiline
      expect ":"
      blanks multiline
      return .conditional lhs yes (← expr multiline fuel)
    | none => return lhs

/-- The accesses behind a term, `later` behind another access. The blank before a later access is
not written, and no `..` follows an access. -/
def accesses (multiline later : Bool) : Nat → Parser (List Access)
  | 0 => failure
  | fuel + 1 => do
    let before ← get
    let blank ← capture (blanks multiline)
    match ← ahead with
    | '.' :: '.' :: _ => do
      set before
      if later then failure else return []
    | '.' :: _ => do
      emit (if later then [] else blank.text) []
      expect "."
      blanks true
      match (← ahead).head? with
      | some '*' => do
        expect "*"
        let (names, rest) := splitFields (← accesses multiline true fuel)
        return .eachField names :: rest
      | some c => do
        let access ← if c.isDigit then Access.position <$> position else Access.field <$> name
        return access :: (← accesses multiline true fuel)
      | none => failure
    | '[' :: _ => do
      emit (if later then [] else blank.text) []
      expect "["
      blanks true
      let access ← (do
        if ← accept "*" then return Access.each
        else return Access.index (← expr false fuel))
      blanks true
      expect "]"
      return access :: (← accesses multiline true fuel)
    | _ => do
      set before
      return []

/-- A term without sign. -/
def term : Nat → Parser Expr
  | 0 => failure
  | fuel + 1 => do
    match ← ahead with
    | '"' :: _ => quoted fuel
    | '[' :: _ => do
      expect "["
      blanks true
      if startsFor (← ahead) then forList fuel else return .array (← items fuel)
    | '\x7b' :: _ => do
      expect "\x7b"
      let before ← get
      blanks true
      if startsFor (← ahead) then forObject fuel else do
        set before
        return .object ((← entries fuel []).map fun e => (e.key, e.value))
    | '(' :: _ => do
      expect "("
      blanks true
      let inner ← expr true fuel
      blanks true
      expect ")"
      return .paren inner
    | '<' :: _ => heredoc fuel
    | '-' :: _ => do
      expect "-"
      blanks false
      return .number (← number).neg
    | c :: _ =>
      if c.isDigit then return .number (← number)
      else do
        let function ← name
        let before ← get
        blanks true
        if ← accept "(" then do
          let (args, expandFinal) ← arguments fuel
          return .call function args expandFinal
        else do
          set before
          return ofName function
    | [] => failure

/-- The items of a list up to its closing bracket. -/
def items : Nat → Parser (List Expr)
  | 0 => failure
  | fuel + 1 => do
    blanks true
    if ← accept "]" then return []
    else do
      let item ← expr false fuel
      blanks true
      if ← accept "," then return item :: (← items fuel)
      else do
        expect "]"
        return [item]

/-- The arguments of a call up to its closing bracket, and whether the last one is expanded. -/
def arguments : Nat → Parser (List Expr × Bool)
  | 0 => failure
  | fuel + 1 => do
    blanks true
    if ← accept ")" then return ([], false)
    else do
      let arg ← expr false fuel
      blanks true
      if ← accept "," then do
        let (args, expandFinal) ← arguments fuel
        return (arg :: args, expandFinal)
      else do
        let expandFinal ← accept "..."
        blanks true
        expect ")"
        return ([arg], expandFinal)

/-- The entries of an object up to its closing brace, added to those before. -/
def entries : Nat → List WrittenEntry → Parser (List WrittenEntry)
  | 0, _ => failure
  | fuel + 1, before => do
    let blank ← capture (blanks true)
    if (← ahead).head? = some '\x7d' then do
      emit (before.flatMap WrittenEntry.text) (before.flatMap WrittenEntry.tokens)
      emit blank.text []
      expect "\x7d"
      return before
    else do
      let key ← capture (do
        let key ← expr false fuel
        blanks false
        return key)
      let value ← capture (do
        if !(← accept "=") then expect ":"
        blanks false
        let value ← expr false fuel
        entryEnd
        return value)
      entries fuel (addEntry ⟨Key.ofExpr key.value, value.value, key.tokens,
        blank.text ++ key.text ++ value.text, key.tokens ++ value.tokens⟩ before)

/-- A list built by a `for`, from its keyword on. -/
def forList : Nat → Parser Expr
  | 0 => failure
  | fuel + 1 => do
    expect "for"
    blanks true
    let (key?, value) ← forNames
    let collection ← expr false fuel
    blanks true
    expect ":"
    blanks true
    let body ← expr false fuel
    blanks true
    let cond? ← forCond fuel
    expect "]"
    return .forList key? value collection body cond?

/-- An object built by a `for`, from its keyword on. -/
def forObject : Nat → Parser Expr
  | 0 => failure
  | fuel + 1 => do
    expect "for"
    blanks true
    let (key?, value) ← forNames
    let collection ← expr false fuel
    blanks true
    expect ":"
    blanks true
    let key ← expr false fuel
    blanks true
    expect "=>"
    blanks true
    let body ← expr false fuel
    blanks true
    let grouping ← accept "..."
    blanks true
    let cond? ← forCond fuel
    expect "\x7d"
    return .forObject key? value collection key body grouping cond?

/-- The condition of a `for`, if there is one. -/
def forCond : Nat → Parser (Option Expr)
  | 0 => failure
  | fuel + 1 => do
    if ← accept "if" then do
      blanks true
      let cond ← expr false fuel
      blanks true
      return some cond
    else return none

/-- A string literal or a template in quotes. Text that makes a single literal is a string. -/
def quoted : Nat → Parser Expr
  | 0 => failure
  | fuel + 1 => do
    let inner ← capture (do
      discard <| advance 1
      let fs ← fragments .quotes 0 fuel
      expect "\""
      return fs)
    let fs := inner.value
    match fs with
    | [] => do
      emit ['"', '"'] ["\"\""]
      return .string ""
    | [.literal text] => do
      emit ('"' :: writeFragments fs ++ ['"']) [quoteLiteral (String.ofList text)]
      return .string (String.ofList text)
    | fs =>
      if (assemble? fs).isSome then do
        emit ('"' :: writeFragments fs ++ ['"']) ("\"" :: inner.tokens)
        let shown := fs.flatMap Fragment.text
        return .template (.quoted (String.ofList shown)) (parts? shown fuel)
      else failure

/-- A heredoc. Where no text can be read up to the line of the delimiter, it is empty. -/
def heredoc : Nat → Parser Expr
  | 0 => failure
  | fuel + 1 => do
    let source ← capture (do
      let (indented, delimiter) ← heredocHead
      let fs ← heredocText delimiter fuel <|> pure []
      let blank ← capture (takeWhile fun c => c = ' ' ∨ c = '\t')
      expect delimiter
      return (indented, delimiter, fs, blank.text))
    let (indented, delimiter, fs, blank) := source.value
    let size := if indented then indentation fs else 0
    let fs := if size = 0 then fs else unindent size false 0 fs
    let shown := fs.flatMap Fragment.text
    let lines := if size = 0 then shown
      else Text.joinLines (Text.indent size (Text.lines shown))
    emit ((if size = 0 then "<<" else "<<-").toList ++ delimiter.toList ++ '\n' :: lines ++ blank ++
      delimiter.toList) source.tokens
    return .template (.heredoc delimiter (0 < size) (String.ofList shown)) (parts? shown fuel)

/-- The fragments of a heredoc up to the line of its delimiter; the first line may start with it. -/
def heredocText (delimiter : String) : Nat → Parser (List Fragment)
  | 0 => failure
  | fuel + 1 => do
    let fs ← fragments (.heredoc delimiter) 0 fuel
    let ending ← capture lineBreak
    if (assemble? fs).isSome then return fs ++ [.literal ending.text] else failure

/-- The parts of the template that a text shows. -/
def parts? (shown : List Char) : Nat → Option (List Part)
  | 0 => none
  | fuel + 1 => (within? shown (fragments .none 0 fuel)).bind assemble?

/-- The fragments of a template up to its end. Inside directives text is enclosed by nothing. Where
a literal between quotes breaks off at an unknown escape, the next one starts behind the character
that was escaped. -/
def fragments (enclosure : Enclosure) (depth : Nat) : Nat → Parser (List Fragment)
  | 0 => failure
  | fuel + 1 => do
    let (text, rest) := literalRun (if depth = 0 then enclosure else .none) 0 (← ahead)
    modify fun c => { c with rest := rest }
    let literal := if text.isEmpty then [] else [.literal text]
    if !text.isEmpty then emit [] [quoteLiteral (String.ofList text)]
    match rest with
    | '\\' :: c :: _ =>
      if text.isEmpty || 128 ≤ c.toNat then failure else do
        discard <| advance 2
        return literal ++ (← fragments enclosure depth fuel)
    | rest =>
      if startsMark rest then do
        let (f, depth) ← mark depth fuel
        return literal ++ f :: (← fragments enclosure depth fuel)
      else return literal

/-- An interpolation or a directive, and the number of directives open behind it. -/
def mark (depth : Nat) : Nat → Parser (Fragment × Nat)
  | 0 => failure
  | fuel + 1 => do
    let m ← capture (do
      let interpolation ← accept "$\x7b"
      if !interpolation then expect "%\x7b"
      let before ← accept "~"
      blanks true
      let m ← if interpolation then Mark.interpolation <$> expr false fuel else directive fuel
      blanks true
      let after ← accept "~"
      expect "\x7d"
      return (m, before, after))
    emit [] m.tokens
    let (kind, before, after) := m.value
    return (.mark kind before after m.text (m.tokens.contains "\""), kind.depthAfter depth)

/-- What a directive says. -/
def directive : Nat → Parser Mark
  | 0 => failure
  | fuel + 1 => do
    if ← accept "if" then do
      blanks true
      return .branch (← expr false fuel)
    else if ← accept "else" then return .otherwise
    else if ← accept "endif" then return .endBranch
    else if ← accept "endfor" then return .endLoop
    else do
      expect "for"
      blanks true
      let (key?, value) ← forNames
      return .loop key? value (← expr false fuel)
end

end Parser

/-- A bound on the depth of calls that reading a text of some length takes. -/
def Parser.depth (length : Nat) : Nat := 8 * (length + 2)

/-- Reads a text as one expression, without blanks at its ends. -/
def Expr.parse? (s : String) : Option Expr :=
  let cs := s.toList
  Parser.within? cs (Parser.expr false (Parser.depth cs.length))

end Preflight
