import Preflight.Proofs.TermReading

/-!
# Texts that are read as expressions

`Parser.ReadAs cs e`: the text `cs` is read as the expression `e` wherever nothing behind it goes on
with a term. Twice the length of the text is enough of a bound on the depth of calls.

* Bare names are read as variables.
* `ReadAs.call`, `ReadAs.array` and `ReadAs.object`: a call with one argument, a list and an object
  are read from texts of their parts, with commas and single spaces between them.
* `ReadAs.parse?`: such a text is read to its end as an expression.
-/

namespace Preflight
namespace Parser

variable {α : Type} {cs ds rest : List Char} {tokens : List String} {fuel : Nat} {n : String}
  {e : Expr}

/-! ### Texts of expressions -/

/-- A text is read as an expression, whatever is behind it that does not go on with a term. -/
structure ReadAs (cs : List Char) (e : Expr) : Prop where
  starts : StartsTerm cs
  reads : ∀ {fuel : Nat} {rest : List Char}, EndsTerm rest → 2 * cs.length ≤ fuel →
    ∃ tokens, Reads (expr false fuel) cs rest tokens e

theorem ReadAs.of_term (hcs : StartsTerm cs) (hparen : inParens e = false)
    (h : ∀ {fuel : Nat} {rest : List Char}, EndsTerm rest → 2 * cs.length ≤ fuel + 2 →
      ∃ tokens, Reads (term (fuel + 1)) cs rest tokens e) : ReadAs cs e := by
  refine ⟨hcs, fun {fuel rest} hrest hfuel => ?_⟩
  have hpos := hcs.length_pos
  obtain ⟨fuel, rfl⟩ := Nat.exists_eq_add_of_le' (show 2 ≤ fuel by omega)
  obtain ⟨tokens, hterm⟩ := h hrest hfuel
  exact ⟨tokens, reads_expr hterm hparen (hcs.sign? rest) hrest false⟩

/-- A bare name is a variable. -/
theorem readAs_word (h : isBareName n = true) : ReadAs n.toList (.variable n) := by
  have hstarts := startsTerm_of_isBareName h []
  rw [List.append_nil] at hstarts
  exact .of_term hstarts rfl fun hrest _ => ⟨[n], reads_term_word h hrest⟩

/-- A call with a single argument. -/
theorem ReadAs.call (hn : isBareName n = true) (h : ReadAs cs e) :
    ReadAs (n.toList ++ '(' :: (cs ++ [')'])) (.call n [e] false) := by
  refine .of_term (startsTerm_of_isBareName hn _) rfl fun {fuel rest} _ hfuel => ?_
  have hpos := length_pos_of_isBareName hn
  simp only [List.length_append, List.length_cons, List.length_nil] at hfuel
  obtain ⟨fuel, rfl⟩ := Nat.exists_eq_add_of_le' (show 1 ≤ fuel by omega)
  have hends : EndsTerm (')' :: rest) := endsTerm_cons (by decide) rest
  obtain ⟨tokens, harg⟩ := h.reads hends (show 2 * cs.length ≤ fuel by omega)
  exact ⟨_, reads_term_call hn (reads_arguments_single harg h.starts)⟩

section Lists

variable {ι : Type}

/-- Texts with commas between them. -/
def commaList (text : ι → List Char) (is : List ι) : List Char :=
  [',', ' '].intercalate (is.map text)

@[simp] theorem commaList_nil (text : ι → List Char) : commaList text [] = [] := rfl

@[simp] theorem commaList_singleton (text : ι → List Char) (i : ι) :
    commaList text [i] = text i := by
  simp [commaList]

@[simp] theorem commaList_cons_cons (text : ι → List Char) (i j : ι) (is : List ι) :
    commaList text (i :: j :: is) = text i ++ ',' :: ' ' :: commaList text (j :: is) := by
  simp [commaList]

theorem exists_commaList_cons (text : ι → List Char) (i : ι) (is : List ι) :
    ∃ cs, commaList text (i :: is) = text i ++ cs := by
  cases is with
  | nil => exact ⟨[], by simp⟩
  | cons j is => exact ⟨_, commaList_cons_cons text i j is⟩

variable {text : ι → List Char} {value : ι → Expr}

theorem reads_items {is : List ι} (hne : is ≠ []) (h : ∀ i ∈ is, ReadAs (text i) (value i))
    {blank : List Char} (hb : Gap blank) (rest : List Char)
    (hfuel : 2 * (commaList text is).length + 1 ≤ fuel) :
    ∃ tokens, Reads (items fuel) (blank ++ (commaList text is ++ [']'])) rest tokens
      (is.map value) := by
  induction is generalizing blank fuel with
  | nil => exact absurd rfl hne
  | cons i is ih =>
    obtain ⟨hi, his⟩ := List.forall_mem_cons.1 h
    obtain ⟨fuel, rfl⟩ := Nat.exists_eq_add_of_le' (show 1 ≤ fuel by omega)
    cases is with
    | nil =>
      rw [commaList_singleton] at hfuel ⊢
      have hends : EndsTerm (']' :: rest) := endsTerm_cons (by decide) rest
      obtain ⟨tokens, hitem⟩ := hi.reads hends (show 2 * (text i).length ≤ fuel by omega)
      exact ⟨_, reads_items_last hb hitem hi.starts⟩
    | cons j is =>
      simp only [commaList_cons_cons, List.append_assoc, List.cons_append, List.length_append,
        List.length_cons] at hfuel ⊢
      have hfuel' : 2 * (commaList text (j :: is)).length + 1 ≤ fuel := by omega
      obtain ⟨more, htail⟩ := ih (List.cons_ne_nil j is) his .space hfuel'
      have hends (ds : List Char) : EndsTerm (',' :: ds) := endsTerm_cons (by decide) ds
      obtain ⟨tokens, hitem⟩ := hi.reads (hends _) (show 2 * (text i).length ≤ fuel by omega)
      exact ⟨_, reads_items_next hb hitem hi.starts htail⟩

/-- A list whose first item does not start like a `for`. -/
theorem ReadAs.array {is : List ι} (h : ∀ i ∈ is, ReadAs (text i) (value i))
    (hfor : ∀ i ∈ is.head?, (text i).head? ≠ some 'f') :
    ReadAs ('[' :: (commaList text is ++ [']'])) (.array (is.map value)) := by
  refine .of_term ⟨'[', _, rfl, Or.inr (Or.inl rfl)⟩ rfl fun {fuel rest} _ hfuel => ?_
  simp only [List.length_append, List.length_cons, List.length_nil] at hfuel
  cases is with
  | nil =>
    obtain ⟨fuel, rfl⟩ := Nat.exists_eq_add_of_le' (show 1 ≤ fuel by simp at hfuel; omega)
    exact ⟨_, reads_term_array (by decide) (startsFor_of_ne (by decide) _) reads_items_nil⟩
  | cons i is =>
    have hstarts : StartsTerm (text i) := (h i List.mem_cons_self).starts
    have hfuel' : 2 * (commaList text (i :: is)).length + 1 ≤ fuel := by omega
    obtain ⟨tokens, hitems⟩ := reads_items (List.cons_ne_nil i is) h .none rest hfuel'
    obtain ⟨cs, hcs⟩ := exists_commaList_cons text i is
    obtain ⟨c, ds, hc, -⟩ := id hstarts
    have hf : c ≠ 'f' := by simpa [hc] using hfor i rfl
    rw [hc] at hstarts
    rw [hcs, hc] at hitems ⊢
    exact ⟨_, reads_term_array hstarts.isSolid (startsFor_of_ne hf _) hitems⟩

/-- An entry with a bare name as its key. -/
def entryText (name : ι → String) (text : ι → List Char) (i : ι) : List Char :=
  (name i).toList ++ ' ' :: '=' :: ' ' :: text i

theorem addEntry_of_fresh {entry : WrittenEntry} {before : List WrittenEntry}
    (h : ∀ e ∈ before, e.keyTokens ≠ entry.keyTokens) :
    addEntry entry before = before ++ [entry] := by
  induction before with
  | nil => rfl
  | cons e es ih =>
    obtain ⟨he, hes⟩ := List.forall_mem_cons.1 h
    rw [addEntry, if_neg he, ih hes, List.cons_append]

/-- An entry with a new name is read in front of what the rest of the object is read from. -/
theorem ReadAs.entry (h : ReadAs cs e) {blank sep : List Char} (hb : Gap blank)
    (hn : isBareName n = true) (hsep : SeparatesEntries sep (ds ++ rest))
    (hfuel : 2 * cs.length ≤ fuel) {before : List WrittenEntry}
    (hnew : ∀ d ∈ before, d.keyTokens ≠ [n]) :
    ∃ entry : WrittenEntry, entry.key = .name n ∧ entry.value = e ∧ entry.keyTokens = [n] ∧
      ∀ more es, Reads (entries fuel (before ++ [entry])) ds rest more es →
        Reads (entries (fuel + 1) before)
          (blank ++ (n.toList ++ ' ' :: '=' :: ' ' :: (cs ++ (sep ++ ds)))) rest more es := by
  have hpos := h.starts.length_pos
  obtain ⟨fuel, rfl⟩ := Nat.exists_eq_add_of_le' (show 2 ≤ fuel by omega)
  obtain ⟨tokens, hvalue⟩ := h.reads hsep.endsTerm hfuel
  obtain ⟨entry, hkey, hval, htokens, hnext⟩ :=
    reads_entries_next hb hn h.starts hsep hvalue before
  rw [addEntry_of_fresh (by rwa [htokens])] at hnext
  exact ⟨entry, hkey, hval, htokens, fun more es hmore => by simpa using hnext more es hmore⟩

variable {name : ι → String}

/-- Entries with distinct bare names are added in order. -/
theorem reads_entries {is : List ι} (hne : is ≠ []) (hnames : ∀ i ∈ is, isBareName (name i) = true)
    (hnodup : (is.map name).Nodup) (h : ∀ i ∈ is, ReadAs (text i) (value i))
    {before : List WrittenEntry} (hbefore : ∀ e ∈ before, ∀ i ∈ is, e.keyTokens ≠ [name i])
    {blank : List Char} (hb : Gap blank) (rest : List Char)
    (hfuel : 2 * (commaList (entryText name text) is).length + 1 ≤ fuel) :
    ∃ tokens es, Reads (entries fuel before)
      (blank ++ (commaList (entryText name text) is ++ ['\x7d'])) rest tokens es ∧
      (es.map fun e => (e.key, e.value)) =
        (before.map fun e => (e.key, e.value)) ++ is.map fun i => (.name (name i), value i) := by
  induction is generalizing blank fuel before with
  | nil => exact absurd rfl hne
  | cons i is ih =>
    obtain ⟨hname, hnames⟩ := List.forall_mem_cons.1 hnames
    obtain ⟨hi, his⟩ := List.forall_mem_cons.1 h
    obtain ⟨hfresh, hnodup⟩ := List.nodup_cons.1 hnodup
    have hnew : ∀ e ∈ before, e.keyTokens ≠ [name i] :=
      fun e he => hbefore e he i List.mem_cons_self
    have hentry : (entryText name text i).length =
        (name i).toList.length + ((text i).length + 3) := by simp [entryText]
    obtain ⟨fuel, rfl⟩ := Nat.exists_eq_add_of_le' (show 1 ≤ fuel by omega)
    cases is with
    | nil =>
      rw [commaList_singleton] at hfuel ⊢
      have hsep : SeparatesEntries [] (['\x7d'] ++ rest) := Or.inr ⟨rfl, rfl⟩
      obtain ⟨entry, hkey, hval, -, hnext⟩ := hi.entry hb hname hsep
        (show 2 * (text i).length ≤ fuel by omega) hnew
      obtain ⟨fuel, rfl⟩ := Nat.exists_eq_add_of_le' (show 1 ≤ fuel by omega)
      obtain ⟨more, hend⟩ := reads_entries_end fuel rest (before ++ [entry])
      refine ⟨more, before ++ [entry], ?_, by simp [hkey, hval]⟩
      simpa [entryText] using hnext more _ hend
    | cons j is =>
      rw [commaList_cons_cons] at hfuel ⊢
      simp only [List.length_append, List.length_cons] at hfuel
      have hsep (ds : List Char) : SeparatesEntries [','] (ds ++ rest) := Or.inl rfl
      obtain ⟨entry, hkey, hval, htokens, hnext⟩ := hi.entry hb hname (hsep _)
        (show 2 * (text i).length ≤ fuel by omega) hnew
      have hadded : ∀ e ∈ before ++ [entry], ∀ k ∈ j :: is, e.keyTokens ≠ [name k] := by
        intro e he k hk
        rcases List.mem_append.1 he with he | he
        · exact hbefore e he k (List.mem_cons_of_mem i hk)
        · rw [List.mem_singleton.1 he, htokens]
          intro hname
          rw [(List.cons.inj hname).1] at hfresh
          exact hfresh (List.mem_map_of_mem hk)
      have hfuel' : 2 * (commaList (entryText name text) (j :: is)).length + 1 ≤ fuel := by omega
      obtain ⟨more, es, htail, hes⟩ :=
        ih (List.cons_ne_nil j is) hnames hnodup his hadded .space hfuel'
      refine ⟨more, es, ?_, by simpa [hkey, hval] using hes⟩
      simpa [entryText] using hnext more es htail

/-- An object whose entries have distinct bare names, the first of which opens no `for`. -/
theorem ReadAs.object {is : List ι} (hnames : ∀ i ∈ is, isBareName (name i) = true)
    (hnodup : (is.map name).Nodup) (hfor : ∀ i ∈ is.head?, name i ≠ "for")
    (h : ∀ i ∈ is, ReadAs (text i) (value i)) :
    ReadAs ('\x7b' :: (commaList (entryText name text) is ++ ['\x7d']))
      (.object (is.map fun i => (.name (name i), value i))) := by
  refine .of_term ⟨'\x7b', _, rfl, Or.inr (Or.inr rfl)⟩ rfl fun {fuel rest} _ hfuel => ?_
  simp only [List.length_append, List.length_cons, List.length_nil] at hfuel
  cases is with
  | nil =>
    obtain ⟨fuel, rfl⟩ := Nat.exists_eq_add_of_le' (show 1 ≤ fuel by simp at hfuel; omega)
    obtain ⟨tokens, hend⟩ := reads_entries_end fuel rest []
    exact ⟨_, reads_term_object (by decide) (startsFor_of_ne (by decide) _) hend⟩
  | cons i is =>
    have hfuel' : 2 * (commaList (entryText name text) (i :: is)).length + 1 ≤ fuel := by omega
    have hbefore : ∀ e ∈ ([] : List WrittenEntry), ∀ k ∈ i :: is, e.keyTokens ≠ [name k] := by simp
    obtain ⟨tokens, es, hentries, hes⟩ :=
      reads_entries (List.cons_ne_nil i is) hnames hnodup h hbefore .none rest hfuel'
    obtain ⟨cs, hcs⟩ := exists_commaList_cons (entryText name text) i is
    have hname := hnames i List.mem_cons_self
    have hnot : startsFor (entryText name text i ++ (cs ++ ['\x7d'] ++ rest)) = false := by
      have hread := startsFor_of_isBareName hname (hfor i rfl)
        ('=' :: ' ' :: text i ++ (cs ++ ['\x7d'] ++ rest))
      simpa [entryText] using hread
    have hstarts : StartsTerm (entryText name text i) := startsTerm_of_isBareName hname _
    obtain ⟨c, ds, hc, -⟩ := id hstarts
    rw [hc] at hstarts hnot
    rw [hcs, hc] at hentries ⊢
    rw [List.map_nil, List.nil_append] at hes
    rw [← hes]
    exact ⟨_, reads_term_object hstarts.isSolid (by simpa using hnot) hentries⟩

end Lists

/-! ### Whole texts -/

theorem Reads.within? {p : Parser α} (h : Reads p cs [] tokens a) : within? cs p = some a := by
  obtain ⟨c, hrun, hrest, -⟩ := h (Cursor.start cs) (List.append_nil cs).symm
  rw [Parser.within?, hrun]
  exact if_pos hrest

theorem ReadAs.parse? {s : String} (h : ReadAs s.toList e) : Expr.parse? s = some e := by
  have hdepth : 2 * s.toList.length ≤ depth s.toList.length := by
    rw [depth]
    omega
  obtain ⟨tokens, hread⟩ := h.reads endsTerm_nil hdepth
  exact hread.within?

end Parser
end Preflight

