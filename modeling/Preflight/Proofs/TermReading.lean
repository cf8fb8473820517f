import Preflight.Expr.Parser

/-!
# What parsers read in front of a rest

`Parser.Reads p cs rest tokens a`: where `cs` and then `rest` stand ahead, the parser reads `cs` with
these tokens and gives `a`. What has been read before has no influence.

* Readings compose as parsers do: `Reads.bind`, and `Reads.capture` for what is read apart.
* Some parsers look ahead behind a text and go back. `EndsTerm` says of a rest that nothing in it
  goes on with a term, so going back changes nothing.
* A term that is a bare name, a call, a list or an object is read from what its parts read as. So is
  each item of a list, argument of a call and entry of an object.
-/

namespace Preflight

/-- Whether a name stands for itself where it is written without quotes. -/
def isBareName (n : String) : Bool :=
  n.toList.head?.any isNameStart && n.toList.all isNamePart && !(["null", "true", "false"].contains n)

namespace Parser

variable {α β : Type}

theorem run_bind_of {p : Parser α} {f : α → Parser β} {c d : Cursor} {a : α}
    (h : p.run c = some (a, d)) : (p >>= f).run c = (f a).run d := by
  rw [StateT.run_bind, h]
  rfl

variable {cs ds rest : List Char} {tokens more : List String} {a : α} {b : β}

/-- A parser reads a text in front of a rest, wherever it starts: it gives a result, adds tokens
and leaves the rest. -/
def Reads (p : Parser α) (cs rest : List Char) (tokens : List String) (a : α) : Prop :=
  ∀ c : Cursor, c.rest = cs ++ rest →
    ∃ d : Cursor, p.run c = some (a, d) ∧ d.rest = rest ∧ d.tokens = tokens.reverse ++ c.tokens

theorem Reads.pure (a : α) : Reads (Pure.pure a) [] rest [] a := fun c hc => ⟨c, rfl, hc, rfl⟩

theorem Reads.bind {p : Parser α} {f : α → Parser β} (hp : Reads p cs (ds ++ rest) tokens a)
    (hf : Reads (f a) ds rest more b) : Reads (p >>= f) (cs ++ ds) rest (tokens ++ more) b := by
  intro c hc
  obtain ⟨d, hrun, hrest, htokens⟩ := hp c (by rw [hc, List.append_assoc])
  obtain ⟨e, hrun', hrest', htokens'⟩ := hf d hrest
  refine ⟨e, ?_, hrest', ?_⟩
  · rw [run_bind_of hrun, hrun']
  · rw [htokens', htokens, List.reverse_append, List.append_assoc]

/-- The first parser adds no tokens. -/
theorem Reads.bind_silent {p : Parser α} {f : α → Parser β} (hp : Reads p cs (ds ++ rest) [] a)
    (hf : Reads (f a) ds rest tokens b) : Reads (p >>= f) (cs ++ ds) rest tokens b := hp.bind hf

/-- The first parser reads nothing. -/
theorem Reads.skip {p : Parser α} {f : α → Parser β} (hp : Reads p [] (cs ++ rest) [] a)
    (hf : Reads (f a) cs rest tokens b) : Reads (p >>= f) cs rest tokens b := hp.bind hf

/-- The second parser reads no more of the text. -/
theorem Reads.last {p : Parser α} {f : α → Parser β} (hp : Reads p cs rest tokens a)
    (hf : Reads (f a) [] rest [] b) : Reads (p >>= f) cs rest tokens b := by
  have hboth : Reads (p >>= f) (cs ++ []) rest (tokens ++ []) b := Reads.bind hp hf
  rwa [List.append_nil, List.append_nil] at hboth

/-- The second parser adds the tokens, and reads no more of the text. -/
theorem Reads.then_emit {p : Parser α} {f : α → Parser β} (hp : Reads p cs rest [] a)
    (hf : Reads (f a) [] rest tokens b) : Reads (p >>= f) cs rest tokens b := by
  have hboth : Reads (p >>= f) (cs ++ []) rest tokens b := Reads.bind_silent hp hf
  rwa [List.append_nil] at hboth

theorem Reads.discard {p : Parser α} (h : Reads p cs rest tokens a) :
    Reads (discard p) cs rest tokens () := by
  intro c hc
  obtain ⟨d, hrun, hd⟩ := h c hc
  refine ⟨d, ?_, hd⟩
  change ((fun _ => ()) <$> p).run c = some ((), d)
  rw [StateT.run_map, hrun]
  rfl

theorem Reads.ahead {f : List Char → Parser β} (h : Reads (f (cs ++ rest)) cs rest tokens b) :
    Reads (Parser.ahead >>= f) cs rest tokens b := by
  intro c hc
  rw [run_bind_of (a := c.rest) (d := c) rfl, hc]
  exact h c hc

theorem run_capture {p : Parser α} {c d : Cursor} (h : p.run (Cursor.start c.rest) = some (a, d)) :
    (capture p).run c =
      some (⟨a, d.written.reverse, d.tokens.reverse⟩, { c with rest := d.rest }) := by
  rw [Parser.capture, run_bind_of rfl, run_bind_of rfl, run_bind_of h]
  rfl

theorem Reads.capture {p : Parser α} (h : Reads p cs rest tokens a) :
    ∃ text, Reads (capture p) cs rest [] ⟨a, text, tokens⟩ := by
  obtain ⟨d, hrun, hrest, htokens⟩ := h (Cursor.start (cs ++ rest)) rfl
  refine ⟨d.written.reverse, fun c hc => ⟨{ c with rest := d.rest }, ?_, hrest, rfl⟩⟩
  rw [← hc] at hrun
  rw [run_capture hrun, htokens]
  simp [Cursor.start]

theorem reads_emit (text : List Char) (tokens : List String) :
    Reads (emit text tokens) [] rest tokens () := fun c hc =>
  ⟨{ c with written := text.reverse ++ c.written, tokens := tokens.reverse ++ c.tokens }, rfl, hc,
    rfl⟩

theorem reads_advance (cs : List Char) : Reads (advance cs.length) cs rest [] cs := by
  intro c hc
  have hrun : (advance cs.length).run c = some (c.rest.take cs.length,
    { c with rest := c.rest.drop cs.length
             written := (c.rest.take cs.length).reverse ++ c.written }) := rfl
  rw [hc, List.take_left, List.drop_left] at hrun
  exact ⟨_, hrun, rfl, rfl⟩

theorem reads_expect (s : String) : Reads (expect s) s.toList rest [s] () := by
  have hp : s.toList.isPrefixOf (s.toList ++ rest) = true := by simp
  rw [expect]
  refine .ahead ?_
  rw [if_pos hp, ← String.length_toList]
  simpa using (reads_advance s.toList).discard.bind (f := fun _ => emit [] [s]) (reads_emit [] [s])

theorem reads_accept (s : String) : Reads (accept s) s.toList rest [s] true := by
  have hp : s.toList.isPrefixOf (s.toList ++ rest) = true := by simp
  rw [accept]
  refine .ahead ?_
  rw [if_pos hp]
  exact (reads_expect s).last (.pure true)

theorem reads_accept_none {s : String} (h : s.toList.isPrefixOf rest = false) :
    Reads (accept s) [] rest [] false := by
  rw [accept]
  refine .ahead ?_
  rw [List.nil_append, if_neg (by simp [h])]
  exact .pure false

theorem reads_accept_of_ne {s : String} {c d : Char} (hs : s.toList.head? = some c) (h : d ≠ c) :
    Reads (accept s) [] (d :: rest) [] false := by
  refine reads_accept_none ?_
  obtain ⟨cs, hcs⟩ := List.head?_eq_some_iff.1 hs
  simp [hcs, List.isPrefixOf, h.symm]

/-! ### Blanks -/

/-- Whether no blank and no comment starts with a character. -/
def isSolid (c : Char) : Bool := !(" \t\n\r#/".toList.contains c)

theorem blankLength_of_isSolid {c : Char} (h : isSolid c = true) (multiline : Bool)
    (cs : List Char) : blankLength multiline 0 (c :: cs) = 0 := by
  have hne : c ≠ ' ' ∧ c ≠ '\t' ∧ c ≠ '\n' ∧ c ≠ '\r' ∧ c ≠ '#' ∧ c ≠ '/' := by
    simpa [isSolid] using h
  obtain ⟨h₁, h₂, h₃, h₄, h₅, h₆⟩ := hne
  have hline : lineCommentLength (c :: cs) = 0 := by
    unfold lineCommentLength
    split <;> simp_all
  have hstart : blankStart multiline (c :: cs) = 0 := by
    unfold blankStart
    split <;> simp_all
  rw [blankLength, hstart]

theorem blankLength_space {c : Char} (h : isSolid c = true) (multiline : Bool)
    (cs : List Char) : blankLength multiline 0 (' ' :: c :: cs) = 1 := by
  have hstart : blankStart multiline (' ' :: c :: cs) = 1 := by simp [blankStart]
  rw [blankLength, hstart]
  simp [blankLength_of_isSolid h]

theorem reads_blanks_all (multiline : Bool) (cs : List Char) :
    Reads (blanks multiline) (cs.take (blankLength multiline 0 cs))
      (cs.drop (blankLength multiline 0 cs)) [] () := by
  intro c hc
  rw [List.take_append_drop] at hc
  subst hc
  exact ⟨{ c with
    rest := c.rest.drop (blankLength multiline 0 c.rest)
    written := (c.rest.take (blankLength multiline 0 c.rest)).reverse ++ c.written }, rfl, rfl, rfl⟩

/-- At most a single space. -/
inductive Gap : List Char → Prop
  | none : Gap []
  | space : Gap [' ']

theorem reads_blanks {blank : List Char} (hb : Gap blank) {c : Char}
    (hc : isSolid c = true) (multiline : Bool) :
    Reads (blanks multiline) blank (c :: rest) [] () := by
  have hlength : blankLength multiline 0 (blank ++ c :: rest) = blank.length := by
    cases hb with
    | none => exact blankLength_of_isSolid hc multiline rest
    | space => exact blankLength_space hc multiline rest
  have hread := reads_blanks_all multiline (blank ++ c :: rest)
  rwa [hlength, List.take_left, List.drop_left] at hread

/-! ### Names -/

theorem isNamePart_of_isNameStart {c : Char} (h : isNameStart c = true) : isNamePart c = true := by
  simp only [isNameStart, isNamePart, Char.isAlphanum, Bool.or_eq_true, decide_eq_true_eq] at h ⊢
  rcases h with h | h
  · exact Or.inl (Or.inl (Or.inl h))
  · exact Or.inl (Or.inr h)

theorem isSolid_of_isNamePart {c : Char} (h : isNamePart c = true) : isSolid c = true := by
  rw [isSolid, Bool.not_eq_true', List.contains_eq_mem, decide_eq_false_iff_not]
  intro hc
  have hblank : " \t\n\r#/".toList.all (!isNamePart ·) = true := by decide
  simpa [h] using List.all_eq_true.mp hblank c hc

theorem reads_name {c : Char} (hc : isNameStart c = true) (hcs : ∀ d ∈ cs, isNamePart d = true)
    (hrest : ∀ d ∈ rest.head?, isNamePart d = false) :
    Reads name (c :: cs) rest [String.ofList (c :: cs)] (String.ofList (c :: cs)) := by
  have hlength : ((c :: cs ++ rest).takeWhile isNamePart) = c :: cs := by
    rw [List.takeWhile_append_of_pos]
    · cases rest with
      | nil => simp
      | cons d rest => simp [hrest d rfl]
    · exact List.forall_mem_cons.2 ⟨isNamePart_of_isNameStart hc, hcs⟩
  have htake : Reads (takeWhile isNamePart) (c :: cs) rest [] (c :: cs) := by
    rw [takeWhile]
    refine .ahead ?_
    rw [hlength]
    exact reads_advance _
  rw [name]
  refine .ahead ?_
  simp only [List.cons_append, List.head?_cons]
  rw [if_pos hc]
  have hemit : Reads (do
      emit [] [String.ofList (c :: cs)]
      return String.ofList (c :: cs)) [] rest [String.ofList (c :: cs)] (String.ofList (c :: cs)) :=
    (reads_emit [] _).last (.pure _)
  exact htake.then_emit hemit

/-- What stands ahead goes on with no name, access, call or operation. -/
structure EndsTerm (rest : List Char) : Prop where
  name : ∀ c ∈ rest.head?, isNamePart c = false
  operator : ∀ multiline, follow? (rest.drop (blankLength multiline 0 rest)) = none
  access : ∀ multiline, ∀ c ∈ (rest.drop (blankLength multiline 0 rest)).head?,
    c ≠ '.' ∧ c ≠ '[' ∧ c ≠ '('

theorem endsTerm_nil : EndsTerm [] := ⟨by simp, fun _ => rfl, by simp⟩

theorem endsTerm_cons {c : Char} (h : c ∈ [')', ',', ']', '\x7d']) (rest : List Char) :
    EndsTerm (c :: rest) := by
  have hsolids : [')', ',', ']', '\x7d'].all isSolid = true := by decide
  have hnames : [')', ',', ']', '\x7d'].all (!isNamePart ·) = true := by decide
  have hsolid : isSolid c = true := List.all_eq_true.mp hsolids c h
  refine ⟨?_, fun multiline => ?_, fun multiline => ?_⟩
  · rintro d ⟨⟩
    simpa using List.all_eq_true.mp hnames c h
  · rw [blankLength_of_isSolid hsolid]
    simp only [List.mem_cons, List.not_mem_nil, or_false] at h
    rcases h with rfl | rfl | rfl | rfl <;> rfl
  · rw [blankLength_of_isSolid hsolid]
    rintro d ⟨⟩
    simp only [List.mem_cons, List.not_mem_nil, or_false] at h
    rcases h with rfl | rfl | rfl | rfl <;> decide

theorem endsTerm_assign (rest : List Char) : EndsTerm (" = ".toList ++ rest) := by
  have hlength (multiline : Bool) : blankLength multiline 0 (" = ".toList ++ rest) = 1 :=
    blankLength_space (c := '=') (by decide) multiline (' ' :: rest)
  refine ⟨by simp; decide, fun multiline => ?_, fun multiline => ?_⟩
  · rw [hlength]; rfl
  · rw [hlength]; simp

/-! ### Terms -/

variable {fuel : Nat} {n : String} {e : Expr}

theorem exists_of_isBareName (h : isBareName n = true) :
    ∃ c cs, n.toList = c :: cs ∧ isNameStart c = true ∧ ∀ d ∈ cs, isNamePart d = true := by
  simp only [isBareName, Bool.and_eq_true, List.all_eq_true] at h
  obtain ⟨⟨hhead, hall⟩, -⟩ := h
  cases hn : n.toList with
  | nil => simp [hn] at hhead
  | cons c cs =>
    rw [hn] at hhead hall
    exact ⟨c, cs, rfl, by simpa using hhead, fun d hd => hall d (List.mem_cons_of_mem _ hd)⟩

theorem length_pos_of_isBareName (h : isBareName n = true) : 0 < n.toList.length := by
  obtain ⟨c, cs, hn, -⟩ := exists_of_isBareName h
  simp [hn]

theorem ofName_of_isBareName (h : isBareName n = true) : ofName n = .variable n := by
  have hne : n ≠ "null" ∧ n ≠ "true" ∧ n ≠ "false" := by
    simp only [isBareName, Bool.and_eq_true] at h
    simpa using h.2
  unfold ofName
  split <;> simp_all

theorem reads_name_of_isBareName (h : isBareName n = true)
    (hrest : ∀ d ∈ rest.head?, isNamePart d = false) : Reads name n.toList rest [n] n := by
  obtain ⟨c, cs, hn, hc, hcs⟩ := exists_of_isBareName h
  have hread := reads_name hc hcs hrest
  rwa [← hn, String.ofList_toList] at hread

theorem isDigit_of_isNameStart {c : Char} (h : isNameStart c = true) : c.isDigit = false := by
  unfold isNameStart Char.isAlpha Char.isUpper Char.isLower at h
  simp only [Bool.or_eq_true, Bool.and_eq_true, decide_eq_true_eq] at h
  rw [Char.isDigit, Bool.and_eq_false_iff, decide_eq_false_iff_not, decide_eq_false_iff_not]
  right
  intro hnine
  rcases h with (h | h) | rfl
  · exact absurd (UInt32.le_trans h.1 hnine) (by decide)
  · exact absurd (UInt32.le_trans h.1 hnine) (by decide)
  · exact absurd hnine (by decide)

/-- A term that starts with a name is a call or the name alone. -/
theorem Reads.term_of_name (h : isBareName n = true) (hread : Reads (do
    let function ← name
    let before ← get
    blanks true
    if ← accept "(" then do
      let (args, expandFinal) ← arguments fuel
      return .call function args expandFinal
    else do
      set before
      return ofName function) (n.toList ++ cs) rest tokens e) :
    Reads (term (fuel + 1)) (n.toList ++ cs) rest tokens e := by
  obtain ⟨c, ds, hn, hc, -⟩ := exists_of_isBareName h
  rw [term]
  refine .ahead ?_
  have hhead (d : Char) (hd : isNameStart d = false) : c ≠ d := by
    rintro rfl
    simp [hc] at hd
  have hdigit : ¬c.isDigit = true := by
    simp [isDigit_of_isNameStart hc]
  rw [hn, List.cons_append, List.cons_append]
  rw [hn, List.cons_append] at hread
  split
  case h_7 d ds' heq =>
    obtain ⟨rfl, -⟩ := List.cons.inj heq
    rw [if_neg hdigit]
    exact hread
  case h_8 heq => cases heq
  all_goals
    rename_i heq
    exact absurd (List.cons.inj heq).1 (hhead _ (by decide))

/-- A name behind which nothing goes on stands for itself. -/
theorem reads_term_word (h : isBareName n = true) (hrest : EndsTerm rest) :
    Reads (term (fuel + 1)) n.toList rest [n] (.variable n) := by
  rw [← List.append_nil n.toList]
  refine .term_of_name h ?_
  have hname : Reads name n.toList rest [n] n := reads_name_of_isBareName h hrest.name
  rw [List.append_nil]
  refine hname.last ?_
  -- The cursor goes back behind the name, as no bracket follows it.
  intro c hc
  have haccept : Reads (accept "(") [] (rest.drop (blankLength true 0 rest)) [] false := by
    cases hd : rest.drop (blankLength true 0 rest) with
    | nil => exact reads_accept_none rfl
    | cons d ds => exact reads_accept_of_ne rfl (hrest.access true d (by rw [hd]; rfl)).2.2
  rw [List.nil_append, ← List.take_append_drop (blankLength true 0 rest) rest] at hc
  obtain ⟨c₁, hblanks, hc₁, -⟩ := reads_blanks_all true rest c hc
  obtain ⟨c₂, haccept, -⟩ := haccept c₁ hc₁
  refine ⟨c, ?_, by rw [hc, List.take_append_drop], rfl⟩
  rw [run_bind_of (a := c) (d := c) rfl, run_bind_of hblanks, run_bind_of haccept,
    ofName_of_isBareName h]
  rfl

theorem reads_term_call (h : isBareName n = true) {args : List Expr} {expandFinal : Bool}
    (hargs : Reads (arguments fuel) cs rest tokens (args, expandFinal)) :
    Reads (term (fuel + 1)) (n.toList ++ '(' :: cs) rest (n :: "(" :: tokens)
      (.call n args expandFinal) := by
  refine .term_of_name h ?_
  have hname : Reads name n.toList ('(' :: cs ++ rest) [n] n :=
    reads_name_of_isBareName h (by simp; decide)
  refine .bind hname ?_
  intro c hc
  rw [run_bind_of (a := c) (d := c) rfl]
  have hcall : Reads (do
      blanks true
      if ← accept "(" then do
        let (args, expandFinal) ← arguments fuel
        return Expr.call n args expandFinal
      else do
        set c
        return ofName n) ('(' :: cs) rest ("(" :: tokens) (.call n args expandFinal) := by
    refine .skip (reads_blanks .none (by decide) true) ?_
    refine .bind (reads_accept "(") ?_
    rw [if_pos rfl]
    exact hargs.last (.pure _)
  exact hcall c hc

/-! ### Expressions -/

theorem reads_accesses_nil (hrest : EndsTerm rest) (multiline : Bool) :
    Reads (accesses multiline false (fuel + 1)) [] rest [] [] := by
  rw [accesses]
  -- Neither a point nor a bracket follows, so the cursor goes back to where it was.
  intro c hc
  rw [List.nil_append, ← List.take_append_drop (blankLength multiline 0 rest) rest] at hc
  obtain ⟨text, hblanks⟩ := (reads_blanks_all multiline rest).capture
  obtain ⟨c₁, hrun, hc₁, -⟩ := hblanks c hc
  refine ⟨c, ?_, by rw [hc, List.take_append_drop], rfl⟩
  rw [run_bind_of (a := c) (d := c) rfl, run_bind_of hrun, run_bind_of (a := c₁.rest) (d := c₁) rfl,
    hc₁]
  have hhead := hrest.access multiline
  split
  case h_1 heq => exact absurd rfl (hhead '.' (by rw [heq]; rfl)).1
  case h_2 heq => exact absurd rfl (hhead '.' (by rw [heq]; rfl)).1
  case h_3 heq => exact absurd rfl (hhead '[' (by rw [heq]; rfl)).2.1
  case h_4 => rfl

/-- A term without sign with which nothing goes on is an expression. -/
theorem reads_expr (h : Reads (term (fuel + 1)) cs rest tokens e) (hparen : inParens e = false)
    (hsign : sign? (cs ++ rest) = none) (hrest : EndsTerm rest) (multiline : Bool) :
    Reads (expr multiline (fuel + 2)) cs rest tokens e := by
  have hsigns : Reads (signs (none, []) (fuel + 1)) [] (cs ++ rest) [] (none, []) := by
    rw [signs]
    refine .ahead ?_
    rw [List.nil_append, hsign]
    exact .pure _
  have hoperand : Reads (do
      let root ← term (fuel + 1)
      let multiline := multiline || inParens root
      let path ← accesses multiline false (fuel + 1)
      let cs ← ahead
      return (root, path, multiline, follow? (cs.drop (blankLength multiline 0 cs))))
      cs rest tokens (e, [], multiline, none) := by
    refine h.last ?_
    simp only [hparen, Bool.or_false]
    refine (reads_accesses_nil hrest multiline).last (.ahead ?_)
    rw [List.nil_append, hrest.operator multiline]
    exact .pure _
  obtain ⟨_, hsigns⟩ := hsigns.capture
  obtain ⟨text, hoperand⟩ := hoperand.capture
  rw [expr]
  refine hsigns.skip (hoperand.then_emit ?_)
  refine (reads_emit _ []).skip ((reads_emit _ []).skip ?_)
  exact (reads_emit text tokens).last (.pure _)

/-- A text whose first character starts a name, a list or an object. -/
def StartsTerm (cs : List Char) : Prop :=
  ∃ c ds, cs = c :: ds ∧ (isNameStart c = true ∨ c = '[' ∨ c = '\x7b')

theorem StartsTerm.length_pos (h : StartsTerm cs) : 0 < cs.length := by
  obtain ⟨c, ds, rfl, -⟩ := h
  simp

theorem StartsTerm.isSolid {c : Char} (h : StartsTerm (c :: cs)) : isSolid c = true := by
  obtain ⟨_, _, heq, hc | rfl | rfl⟩ := h <;> obtain ⟨rfl, -⟩ := List.cons.inj heq
  · exact isSolid_of_isNamePart (isNamePart_of_isNameStart hc)
  · decide
  · decide

theorem StartsTerm.ne {c d : Char} (h : StartsTerm (c :: cs))
    (hd : d ∈ ['!', '-', ')', ']', '\x7d']) : c ≠ d := by
  have hnot : ['!', '-', ')', ']', '\x7d'].all
      (fun d => !(isNameStart d || d == '[' || d == '\x7b')) = true := by decide
  rintro rfl
  obtain ⟨_, _, heq, hc⟩ := h
  obtain ⟨rfl, -⟩ := List.cons.inj heq
  have hstart : ¬(isNameStart c = true ∨ c = '[' ∨ c = '\x7b') := by
    simpa [and_assoc] using List.all_eq_true.mp hnot c hd
  exact hstart hc

theorem startsTerm_of_isBareName (h : isBareName n = true) (cs : List Char) :
    StartsTerm (n.toList ++ cs) := by
  obtain ⟨c, ds, hn, hc, -⟩ := exists_of_isBareName h
  exact ⟨c, ds ++ cs, by rw [hn]; rfl, Or.inl hc⟩

theorem StartsTerm.sign? (h : StartsTerm cs) (rest : List Char) : sign? (cs ++ rest) = none := by
  obtain ⟨c, ds, rfl, hc⟩ := id h
  rw [List.cons_append]
  unfold Preflight.sign?
  split
  case h_1 heq => exact absurd (List.cons.inj heq).1 (h.ne (by decide))
  case h_2 heq => exact absurd (List.cons.inj heq).1 (h.ne (by decide))
  case h_3 => rfl

/-! ### Arguments and items -/

/-- A call with a single argument. -/
theorem reads_arguments_single (h : Reads (expr false fuel) cs (')' :: rest) tokens e)
    (hcs : StartsTerm cs) :
    Reads (arguments (fuel + 1)) (cs ++ [')']) rest (tokens ++ [")"]) ([e], false) := by
  obtain ⟨c, ds, rfl, -⟩ := id hcs
  have hblanks (rest : List Char) : Reads (blanks true) [] (c :: rest) [] () :=
    reads_blanks .none hcs.isSolid true
  have hclose : Reads (blanks true) [] (')' :: rest) [] () :=
    reads_blanks .none (by decide) true
  rw [arguments]
  refine .skip (hblanks _) ?_
  refine .skip (reads_accept_of_ne rfl (hcs.ne (by decide))) ?_
  rw [if_neg (by decide)]
  refine h.bind ?_
  refine .skip hclose ?_
  refine .skip (reads_accept_of_ne (c := ',') rfl (by decide)) ?_
  rw [if_neg (by decide)]
  refine .skip (reads_accept_of_ne (c := '.') rfl (by decide)) ?_
  refine .skip hclose ?_
  exact (reads_expect ")").last (.pure _)

/-- The last item of a list, with the closing bracket. -/
theorem reads_items_last {blank : List Char} (hb : Gap blank)
    (h : Reads (expr false fuel) cs (']' :: rest) tokens e) (hcs : StartsTerm cs) :
    Reads (items (fuel + 1)) (blank ++ (cs ++ [']'])) rest (tokens ++ ["]"]) [e] := by
  obtain ⟨c, ds, rfl, -⟩ := id hcs
  rw [items]
  refine .bind_silent (reads_blanks hb hcs.isSolid true) ?_
  refine .skip (reads_accept_of_ne rfl (hcs.ne (by decide))) ?_
  rw [if_neg (by decide)]
  refine h.bind ?_
  refine .skip (reads_blanks .none (by decide) true) ?_
  refine .skip (reads_accept_of_ne (c := ',') rfl (by decide)) ?_
  rw [if_neg (by decide)]
  exact (reads_expect "]").last (.pure _)

/-- An item of a list, with the comma behind it. -/
theorem reads_items_next {blank : List Char} (hb : Gap blank) {es : List Expr}
    (h : Reads (expr false fuel) cs (',' :: (ds ++ rest)) tokens e) (hcs : StartsTerm cs)
    (hmore : Reads (items fuel) ds rest more es) :
    Reads (items (fuel + 1)) (blank ++ (cs ++ ',' :: ds)) rest (tokens ++ "," :: more)
      (e :: es) := by
  obtain ⟨c, cs', rfl, -⟩ := id hcs
  rw [items]
  refine .bind_silent (reads_blanks hb hcs.isSolid true) ?_
  refine .skip (reads_accept_of_ne rfl (hcs.ne (by decide))) ?_
  rw [if_neg (by decide)]
  refine h.bind ?_
  refine .skip (reads_blanks .none (by decide) true) ?_
  refine .bind (reads_accept ",") ?_
  rw [if_pos rfl]
  exact hmore.last (.pure _)

/-- A list with no item. -/
theorem reads_items_nil : Reads (items (fuel + 1)) [']'] rest ["]"] [] := by
  rw [items]
  refine .skip (reads_blanks .none (by decide) true) ?_
  refine .last (reads_accept "]") ?_
  rw [if_pos rfl]
  exact .pure []

theorem startsFor_of_ne {c : Char} (h : c ≠ 'f') (cs : List Char) :
    startsFor (c :: cs) = false := by
  unfold startsFor
  split
  case h_1 heq => exact absurd (List.cons.inj heq).1 h
  case h_2 => rfl

/-- A bare name other than the keyword itself opens no `for`. -/
theorem startsFor_of_isBareName (h : isBareName n = true) (hne : n ≠ "for") (cs : List Char) :
    startsFor (n.toList ++ ' ' :: cs) = false := by
  have hall : ∀ c ∈ n.toList, isNamePart c = true := by
    simp only [isBareName, Bool.and_eq_true, List.all_eq_true] at h
    exact h.1.2
  have hword : (n.toList ++ ' ' :: cs).takeWhile isNamePart = n.toList := by
    rw [List.takeWhile_append_of_pos hall, List.takeWhile_cons_of_neg (by decide), List.append_nil]
  unfold startsFor
  split
  case h_1 c ds heq =>
    rw [decide_eq_false_iff_not]
    intro hc
    have hblank : isNamePart c = false := by
      rcases hc with rfl | rfl | rfl | rfl <;> decide
    refine hne (String.toList_inj.1 ?_)
    rw [← hword, heq, List.takeWhile_cons_of_pos (by decide),
      List.takeWhile_cons_of_pos (by decide), List.takeWhile_cons_of_pos (by decide),
      List.takeWhile_cons_of_neg (by simp [hblank])]
    rfl
  case h_2 => rfl

/-- A list whose items start with no `for`. -/
theorem reads_term_array {c : Char} {es : List Expr} (hc : isSolid c = true)
    (hfor : startsFor (c :: cs ++ rest) = false)
    (h : Reads (items fuel) (c :: cs) rest tokens es) :
    Reads (term (fuel + 1)) ('[' :: c :: cs) rest ("[" :: tokens) (.array es) := by
  rw [term]
  refine .ahead ?_
  refine .bind (reads_expect "[") ?_
  refine .skip (reads_blanks .none hc true) (.ahead ?_)
  rw [hfor, if_neg (by decide)]
  exact h.last (.pure _)

/-- An object whose entries start with no `for`. -/
theorem reads_term_object {c : Char} {es : List WrittenEntry} (hc : isSolid c = true)
    (hfor : startsFor (c :: cs ++ rest) = false)
    (h : Reads (entries fuel []) (c :: cs) rest tokens es) :
    Reads (term (fuel + 1)) ('\x7b' :: c :: cs) rest ("\x7b" :: tokens)
      (.object (es.map fun e => (e.key, e.value))) := by
  rw [term]
  refine .ahead ?_
  refine .bind (reads_expect "\x7b") ?_
  -- The blanks are skipped only to see whether a `for` follows; the entries start before them.
  intro before hbefore
  have hblanks : Reads (blanks true) [] (c :: cs ++ rest) [] () :=
    reads_blanks .none hc true
  obtain ⟨behind, hrun, hrest, -⟩ := hblanks before hbefore
  rw [run_bind_of (a := before) (d := before) rfl, run_bind_of hrun,
    run_bind_of (a := behind.rest) (d := behind) rfl, hrest, hfor, if_neg (by decide),
    run_bind_of (a := ()) (d := before) rfl]
  have hobject : Reads (do return Expr.object ((← entries fuel []).map fun e => (e.key, e.value)))
      (c :: cs) rest tokens (Expr.object (es.map fun e => (e.key, e.value))) := h.last (.pure _)
  exact hobject before hbefore

/-! ### Entries -/

/-- The end of an object, whose entries have been read. -/
theorem reads_entries_end (fuel : Nat) (rest : List Char) (before : List WrittenEntry) :
    ∃ tokens, Reads (entries (fuel + 1) before) ['\x7d'] rest tokens before := by
  have hblanks : Reads (blanks true) [] ('\x7d' :: rest) [] () :=
    reads_blanks .none (by decide) true
  obtain ⟨text, hblanks⟩ := hblanks.capture
  refine ⟨before.flatMap WrittenEntry.tokens ++ ["\x7d"], ?_⟩
  rw [entries]
  refine .skip hblanks (.ahead ?_)
  rw [if_pos (by simp)]
  refine .bind (reads_emit _ _) ?_
  refine .skip (reads_emit _ _) ?_
  exact (reads_expect "\x7d").last (.pure _)

/-- What stands between an entry and the next one, or the end of the object. -/
def SeparatesEntries (cs next : List Char) : Prop :=
  cs = [','] ∨ (cs = [] ∧ next.head? = some '\x7d')

theorem SeparatesEntries.endsTerm (h : SeparatesEntries cs rest) : EndsTerm (cs ++ rest) := by
  rcases h with rfl | ⟨rfl, hrest⟩
  · exact endsTerm_cons (by decide) rest
  · obtain ⟨ds, rfl⟩ := List.head?_eq_some_iff.1 hrest
    exact endsTerm_cons (by decide) ds

theorem reads_entryEnd (h : SeparatesEntries cs rest) :
    ∃ tokens, Reads entryEnd cs rest tokens () := by
  rcases h with rfl | ⟨rfl, hrest⟩
  · refine ⟨[","], ?_⟩
    rw [entryEnd]
    refine .skip (reads_blanks .none (by decide) false) (.ahead ?_)
    exact reads_expect ","
  · obtain ⟨ds, rfl⟩ := List.head?_eq_some_iff.1 hrest
    refine ⟨[], ?_⟩
    rw [entryEnd]
    refine .skip (reads_blanks .none (by decide) false) (.ahead ?_)
    exact .pure ()

/-- The key of an entry that is a bare name is that name. -/
theorem reads_key (hn : isBareName n = true) :
    Reads (do
      let key ← expr false (fuel + 2)
      blanks false
      return key) (n.toList ++ [' ']) ('=' :: ' ' :: rest) [n] (.variable n) := by
  obtain ⟨c, cs, hcs, hc, -⟩ := exists_of_isBareName hn
  have hstarts : StartsTerm n.toList := ⟨c, cs, hcs, Or.inl hc⟩
  have hends : EndsTerm (' ' :: '=' :: ' ' :: rest) := endsTerm_assign rest
  have hkey : Reads (expr false (fuel + 2)) n.toList (' ' :: '=' :: ' ' :: rest) [n]
      (.variable n) := reads_expr (reads_term_word hn hends) rfl (hstarts.sign? _) hends false
  rw [← List.append_nil [n]]
  exact .bind hkey ((reads_blanks .space (by decide) false).last (.pure _))

/-- The value of an entry from the sign before it to the end of the entry. -/
theorem reads_entryValue {sep : List Char} (hcs : StartsTerm cs) (hsep : SeparatesEntries sep rest)
    (hvalue : Reads (expr false fuel) cs (sep ++ rest) tokens e) :
    ∃ tokens, Reads (do
      if !(← accept "=") then expect ":"
      blanks false
      let value ← expr false fuel
      entryEnd
      return value) ('=' :: ' ' :: (cs ++ sep)) rest tokens e := by
  obtain ⟨c, cs', rfl, -⟩ := id hcs
  obtain ⟨more, hend⟩ := reads_entryEnd hsep
  refine ⟨"=" :: (tokens ++ more), ?_⟩
  refine .bind (reads_accept "=") ?_
  rw [if_neg (by decide)]
  change Reads _ ([' '] ++ (c :: cs' ++ sep)) rest _ e
  refine .bind_silent (reads_blanks .space hcs.isSolid false) ?_
  exact hvalue.bind (hend.last (.pure _))

/-- An entry with a bare name as its key is added to those before. -/
theorem reads_entries_next {blank sep : List Char} (hb : Gap blank)
    (hn : isBareName n = true) (hcs : StartsTerm cs) (hsep : SeparatesEntries sep (ds ++ rest))
    (hvalue : Reads (expr false (fuel + 2)) cs (sep ++ (ds ++ rest)) tokens e)
    (before : List WrittenEntry) :
    ∃ entry : WrittenEntry, entry.key = .name n ∧ entry.value = e ∧ entry.keyTokens = [n] ∧
      ∀ more es, Reads (entries (fuel + 2) (addEntry entry before)) ds rest more es →
        Reads (entries (fuel + 3) before)
          (blank ++ ((n.toList ++ [' ']) ++ (('=' :: ' ' :: (cs ++ sep)) ++ ds))) rest more es := by
  obtain ⟨c, cs', hn', hc, -⟩ := exists_of_isBareName hn
  have hstarts : StartsTerm (c :: cs') := ⟨c, cs', rfl, Or.inl hc⟩
  have hblanks : Reads (blanks true) blank
      (n.toList ++ [' '] ++ (('=' :: ' ' :: (cs ++ sep)) ++ ds) ++ rest) [] () := by
    rw [hn']
    exact reads_blanks hb hstarts.isSolid true
  have hkey : Reads (do
      let key ← expr false (fuel + 2)
      blanks false
      return key) (n.toList ++ [' ']) ('=' :: ' ' :: (cs ++ sep ++ ds ++ rest)) [n] (.variable n) :=
    reads_key hn
  obtain ⟨more, hvalue⟩ := reads_entryValue hcs hsep hvalue
  obtain ⟨blankText, hblanks⟩ := hblanks.capture
  obtain ⟨keyText, hkey⟩ := hkey.capture
  obtain ⟨valueText, hvalue⟩ := hvalue.capture
  refine ⟨⟨Key.ofExpr (.variable n), e, [n], blankText ++ keyText ++ valueText, [n] ++ more⟩,
    rfl, rfl, rfl, fun more es hmore => ?_⟩
  have hopen : ¬(n.toList ++ [' '] ++ (('=' :: ' ' :: (cs ++ sep)) ++ ds) ++ rest).head? =
      some '\x7d' := by
    simpa [hn'] using hstarts.ne (by decide)
  rw [entries]
  refine hblanks.bind_silent (.ahead ?_)
  rw [if_neg hopen]
  refine hkey.bind_silent ?_
  refine hvalue.bind_silent ?_
  exact hmore

end Parser
end Preflight
