import Preflight.Directory.FileSystem
import Mathlib.Data.List.Sort
import Mathlib.Data.List.TakeWhile

/-!
# Loading in the order of names

A directory lists its entries in any order. The files to load come in an order of their own
(`Directory.files_eq`), so that the module, or the reason why there is none, is the same for every listing
(`Directory.load_listing`).

* The extension of a name follows its last point, unless nothing comes before that
  (`extension?_eq_some_iff`).
* Loading fails with the first file, in that order, that cannot be loaded (`Directory.foldlM_insertFile`).
-/

namespace Preflight

/-! ### File names -/

/-- A name ends in an extension if there is something before its last point. -/
theorem extension?_eq_some_iff {name ext : String} :
    extension? name = some ext ↔
      ∃ stem, stem ≠ "" ∧ '.' ∉ ext.toList ∧ name = stem ++ "." ++ ext := by
  unfold extension?
  constructor
  · intro h
    have hsplit := List.takeWhile_append_dropWhile (p := (· ≠ '.')) (l := name.toList.reverse)
    have hpoint := List.head?_dropWhile_not (· ≠ '.') name.toList.reverse
    match hrest : name.toList.reverse.dropWhile (· ≠ '.') with
    | [] | [_] =>
      simp only [hrest] at h
      cases h
    | point :: c :: stem =>
      simp only [hrest, Option.some.injEq] at h
      simp only [hrest, List.head?_cons, decide_eq_false_iff_not, not_not] at hpoint
      refine ⟨String.ofList (c :: stem).reverse, by simp [← String.toList_inj], ?_, ?_⟩
      · rw [← h, String.toList_ofList, List.mem_reverse]
        intro hmem
        simpa using List.mem_takeWhile_imp hmem
      · rw [← String.toList_inj, ← List.reverse_inj, ← hsplit, hrest, hpoint, ← h]
        simp
  · rintro ⟨stem, hstem, hext, rfl⟩
    have hall : ∀ c ∈ ext.toList.reverse, decide (c ≠ '.') = true := by
      intro c hc
      exact decide_eq_true fun h => hext (h ▸ List.mem_reverse.mp hc)
    have hrev : (stem ++ "." ++ ext).toList.reverse =
        ext.toList.reverse ++ '.' :: stem.toList.reverse := by simp
    have hne : stem.toList.reverse ≠ [] := by simpa using hstem
    obtain ⟨c, rest, hc⟩ := List.exists_cons_of_ne_nil hne
    simp only [hrev, List.takeWhile_append_of_pos hall, List.dropWhile_append_of_pos hall, hc]
    simp [String.ofList_toList]

namespace DirectoryEntry

variable {a b e : DirectoryEntry}

/-- A regular file with an extension. -/
def HasExtension (e : DirectoryEntry) (ext : String) : Prop :=
  e.isFile = true ∧ extension? e.name = some ext

instance (e : DirectoryEntry) (ext : String) : Decidable (e.HasExtension ext) :=
  inferInstanceAs (Decidable (_ ∧ _))

theorem isConfiguration_iff : e.isConfiguration = true ↔ e.HasExtension "tf" := by
  simp [isConfiguration, HasExtension]

theorem isAssignments_iff : e.isAssignments = true ↔ e.HasExtension "tfvars" := by
  simp [isAssignments, HasExtension]

theorem isAssignments_eq_false (h : e.isConfiguration = true) : e.isAssignments = false := by
  obtain ⟨-, h⟩ := isConfiguration_iff.mp h
  simp [isAssignments, h]

/-! ### The order of loading -/

theorem before_of_name_le (h : a.isAssignments = b.isAssignments) (hn : a.name ≤ b.name) :
    before a b = true := by
  simp [before, h, hn]

theorem before_trans (a b c : DirectoryEntry) (hab : before a b = true) (hbc : before b c = true) :
    before a c = true := by
  unfold before at *
  cases ha : a.isAssignments <;> cases hb : b.isAssignments <;> cases hc : c.isAssignments <;>
    simp_all <;> exact String.le_trans hab hbc

theorem before_total (a b : DirectoryEntry) : (before a b || before b a) = true := by
  unfold before
  cases ha : a.isAssignments <;> cases hb : b.isAssignments <;>
    simp [String.le_total]

theorem name_eq_of_before (hab : before a b = true) (hba : before b a = true) : a.name = b.name := by
  unfold before at *
  cases ha : a.isAssignments <;> cases hb : b.isAssignments <;> simp_all <;>
    exact String.le_antisymm hab hba

/-! ### One file -/

/-- What keeps a file from being loaded. -/
def failure? (e : DirectoryEntry) : Option LoadError :=
  match e.content with
  | .error cause => some (.unreadable cause)
  | .ok text => if (Document.parse? text).isNone then some (.unparsable text) else none

theorem failure?_ne_noFiles (e : DirectoryEntry) (dir : String) :
    e.failure? ≠ some (.noFiles dir) := by
  rw [failure?]
  cases e.content with
  | error cause => simp
  | ok text => dsimp only; split <;> simp

/-- The text of a file. -/
def read (e : DirectoryEntry) : Except LoadError String :=
  match e.content with
  | .error cause => .error (.unreadable cause)
  | .ok text => .ok text

end DirectoryEntry

namespace Directory

open DirectoryEntry

variable {d : Directory} {e : DirectoryEntry}

/-- Adds a configuration file of the directory. -/
def insertConfiguration (d : Directory) (b : Builder) (e : DirectoryEntry) : Except LoadError Builder := do
  b.insert (some (d.path ++ "/" ++ e.name)) (← e.read)

/-- Adds a file of assignments. -/
def insertAssignments (b : Builder) (e : DirectoryEntry) : Except LoadError Builder := do
  b.insertAssignments (← e.read)

theorem insertFile_of_isConfiguration (h : e.isConfiguration = true) (b : Builder) :
    d.insertFile b e = d.insertConfiguration b e := by
  rw [insertFile, insertConfiguration, DirectoryEntry.read, isAssignments_eq_false h]
  cases e.content <;> rfl

theorem insertFile_of_isAssignments (h : e.isAssignments = true) (b : Builder) :
    d.insertFile b e = insertAssignments b e := by
  rw [insertFile, insertAssignments, DirectoryEntry.read, h]
  cases e.content <;> rfl

/-- A file is added unless something keeps it from being loaded, whatever has been added before. -/
theorem insertFile_cases (d : Directory) (b : Builder) (e : DirectoryEntry) :
    (∃ b', e.failure? = none ∧ d.insertFile b e = .ok b') ∨
      ∃ err, e.failure? = some err ∧ d.insertFile b e = .error err := by
  rw [insertFile, failure?]
  cases e.content with
  | error cause => exact .inr ⟨_, rfl, rfl⟩
  | ok text =>
    cases h : Document.parse? text with
    | none => exact .inr ⟨.unparsable text, by simp [h], by
        simp [Builder.insert, Builder.insertAssignments, h]⟩
    | some statements =>
      cases hvars : e.isAssignments <;>
        exact .inl (by simp [Builder.insert, Builder.insertAssignments, h])

/-! ### The files to load -/

/-- Adding files stops at the first one that cannot be loaded. -/
theorem foldlM_insertFile (d : Directory) (es : List DirectoryEntry) (b : Builder) (err : LoadError) :
    es.foldlM d.insertFile b = .error err ↔ es.findSome? failure? = some err := by
  induction es generalizing b with
  | nil => simp [pure, Except.pure]
  | cons e es ih =>
    rw [List.foldlM_cons, List.findSome?_cons]
    obtain ⟨b', hf, hb⟩ | ⟨err', hf, hb⟩ := d.insertFile_cases b e
    · rw [hb, hf]
      exact ih b'
    · rw [hb, hf]
      simp [bind, Except.bind]

/-- The entries of a kind in the order of their names. -/
def inOrder (d : Directory) (p : DirectoryEntry → Bool) : List DirectoryEntry :=
  (d.entries.filter p).mergeSort fun a b => a.name ≤ b.name

theorem mem_inOrder {p : DirectoryEntry → Bool} : e ∈ d.inOrder p ↔ e ∈ d.entries ∧ p e = true := by
  rw [inOrder, List.mem_mergeSort, List.mem_filter]

theorem pairwise_inOrder (d : Directory) (p : DirectoryEntry → Bool) :
    (d.inOrder p).Pairwise fun a b => a.name ≤ b.name := by
  have h : (d.inOrder p).Pairwise fun a b => decide (a.name ≤ b.name) = true :=
    List.pairwise_mergeSort (fun a b c => by simpa using String.le_trans)
      (fun a b => by simpa using String.le_total _ _) _
  exact h.imp fun h => by simpa using h

theorem pairwise_files (d : Directory) : d.files.Pairwise fun a b => before a b = true :=
  List.pairwise_mergeSort before_trans before_total _

theorem mem_entries_of_mem_files (h : e ∈ d.files) : e ∈ d.entries :=
  List.mem_of_mem_filter ((List.mergeSort_perm _ _).mem_iff.mp h)

/-- Among the files to load, those that are no configuration are the assignments. -/
theorem kinds_perm (es : List DirectoryEntry) :
    (es.filter isConfiguration ++ es.filter isAssignments).Perm
      (es.filter fun e => e.isConfiguration || e.isAssignments) := by
  have hsplit := List.filter_append_perm isConfiguration
    (es.filter fun e => e.isConfiguration || e.isAssignments)
  have hconfiguration : (es.filter fun e => e.isConfiguration || e.isAssignments).filter
      isConfiguration = es.filter isConfiguration := by
    rw [List.filter_filter]
    exact List.filter_congr fun e _ => by cases e.isConfiguration <;> simp
  have hassignments : (es.filter fun e => e.isConfiguration || e.isAssignments).filter
      (fun e => !e.isConfiguration) = es.filter isAssignments := by
    rw [List.filter_filter]
    refine List.filter_congr fun e _ => ?_
    cases h : e.isConfiguration with
    | true => simp [isAssignments_eq_false h]
    | false => simp
  rwa [hconfiguration, hassignments] at hsplit

section Distinct

variable (hd : (d.entries.map DirectoryEntry.name).Nodup)
include hd

theorem eq_of_name_eq {a b : DirectoryEntry} (ha : a ∈ d.entries) (hb : b ∈ d.entries)
    (h : a.name = b.name) : a = b :=
  List.inj_on_of_nodup_map hd ha hb h

theorem nodup_entries : d.entries.Nodup := hd.of_map _

/-- Under distinct names the order is strict. -/
theorem pairwise_lt_inOrder (p : DirectoryEntry → Bool) :
    (d.inOrder p).Pairwise fun a b => a.name < b.name := by
  have hnodup : (d.inOrder p).Nodup :=
    (List.mergeSort_perm _ _).nodup_iff.mpr ((nodup_entries hd).filter p)
  have hle := List.Pairwise.and_mem.mp (d.pairwise_inOrder p)
  refine (hle.and hnodup).imp fun ⟨⟨ha, hb, hle⟩, hne⟩ => String.not_le.mp fun hge => hne ?_
  exact eq_of_name_eq hd (mem_inOrder.mp ha).1 (mem_inOrder.mp hb).1 (String.le_antisymm hle hge)

/-- There is one way to keep to the order of loading. -/
theorem eq_of_before {xs ys : List DirectoryEntry} (hmem : ∀ e ∈ ys, e ∈ d.entries)
    (hx : xs.Pairwise fun a b => before a b = true) (hy : ys.Pairwise fun a b => before a b = true)
    (h : xs.Perm ys) : xs = ys := by
  refine h.eq_of_pairwise (fun a b ha hb hab hba => ?_) hx hy
  exact eq_of_name_eq hd (hmem a (h.mem_iff.mp ha)) (hmem b hb) (name_eq_of_before hab hba)

/-- The files to load do not depend on the order of the listing. -/
theorem files_perm {es : List DirectoryEntry} (h : es.Perm d.entries) :
    ({ d with entries := es } : Directory).files = d.files :=
  eq_of_before hd (fun _ => mem_entries_of_mem_files) (pairwise_files _) (pairwise_files d)
    ((List.mergeSort_perm _ _).trans ((h.filter _).trans (List.mergeSort_perm _ _).symm))

/-- Configuration comes first, then the assignments, each in the order of names. -/
theorem files_eq : d.files = d.inOrder isConfiguration ++ d.inOrder isAssignments := by
  refine (eq_of_before hd (fun _ => mem_entries_of_mem_files) ?_ (pairwise_files d) ?_).symm
  · refine List.pairwise_append.mpr ⟨?_, ?_, ?_⟩
    · refine (List.Pairwise.and_mem.mp (d.pairwise_inOrder _)).imp fun ⟨ha, hb, hle⟩ => ?_
      have ha := isAssignments_eq_false (mem_inOrder.mp ha).2
      have hb := isAssignments_eq_false (mem_inOrder.mp hb).2
      exact before_of_name_le (ha.trans hb.symm) hle
    · refine (List.Pairwise.and_mem.mp (d.pairwise_inOrder _)).imp fun ⟨ha, hb, hle⟩ => ?_
      exact before_of_name_le ((mem_inOrder.mp ha).2.trans (mem_inOrder.mp hb).2.symm) hle
    · intro a ha b hb
      simp [before, isAssignments_eq_false (mem_inOrder.mp ha).2, (mem_inOrder.mp hb).2]
  · exact ((List.mergeSort_perm _ _).append (List.mergeSort_perm _ _)).trans
      ((kinds_perm d.entries).trans (List.mergeSort_perm _ _).symm)

end Distinct

/-! ### Loading -/

/-- Adding files depends on what adding each of them does. -/
theorem foldlM_congr (es : List DirectoryEntry) {f g : Builder → DirectoryEntry → Except LoadError Builder}
    (h : ∀ e ∈ es, ∀ b, f b e = g b e) (b : Builder) : es.foldlM f b = es.foldlM g b := by
  induction es generalizing b with
  | nil => rfl
  | cons e es ih =>
    obtain ⟨he, hes⟩ := List.forall_mem_cons.mp h
    simp only [List.foldlM_cons, he, ih hes]

/-- For want of configuration nothing is loaded. -/
theorem load_of_none (h : ∀ e ∈ d.entries, ¬ e.HasExtension "tf") :
    d.load = .error (.noFiles d.shown) := by
  rw [load, if_neg]
  simpa [← isConfiguration_iff] using h

theorem load_of_configuration (h : ∃ e ∈ d.entries, e.HasExtension "tf") :
    d.load = Builder.build <$> d.files.foldlM d.insertFile Builder.empty := by
  rw [load, if_pos]
  simpa [← isConfiguration_iff] using h

theorem load_eq_error_iff (h : ∃ e ∈ d.entries, e.HasExtension "tf") (err : LoadError) :
    d.load = .error err ↔ d.files.findSome? failure? = some err := by
  rw [load_of_configuration h, ← d.foldlM_insertFile _ Builder.empty]
  cases d.files.foldlM d.insertFile Builder.empty <;> simp [Functor.map, Except.map]

/-- Loading a directory whose entries have distinct names. Listings of the same entries give the same
module or the same error. That there is no configuration is the error if and only if no regular file has
the extension of configuration. Otherwise the regular files with that extension are added in the order of
their names, then those with the extension of assignments in the order of theirs; if some of them cannot be
loaded, the error is that of the first one in this order. -/
theorem load_listing (d : Directory) (hd : (d.entries.map DirectoryEntry.name).Nodup) :
    (∀ es, es.Perm d.entries → ({ d with entries := es } : Directory).load = d.load) ∧
    (∀ dir, d.load = .error (.noFiles dir) ↔
      dir = d.shown ∧ ∀ e ∈ d.entries, ¬ e.HasExtension "tf") ∧
    ((∃ e ∈ d.entries, e.HasExtension "tf") →
      ∃ configurations assignments : List DirectoryEntry,
        configurations.Pairwise (fun a b => a.name < b.name) ∧
        (∀ e, e ∈ configurations ↔ e ∈ d.entries ∧ e.HasExtension "tf") ∧
        assignments.Pairwise (fun a b => a.name < b.name) ∧
        (∀ e, e ∈ assignments ↔ e ∈ d.entries ∧ e.HasExtension "tfvars") ∧
        d.load = (do
          let b ← configurations.foldlM d.insertConfiguration Builder.empty
          let b ← assignments.foldlM insertAssignments b
          return b.build) ∧
        ∀ err, d.load = .error err ↔
          (configurations ++ assignments).findSome? failure? = some err) := by
  refine ⟨fun es h => ?_, fun dir => ?_, fun h => ?_⟩
  · have hany : es.any isConfiguration = d.entries.any isConfiguration := h.any_eq
    simp only [load, hany, files_perm hd h]
    rfl
  · by_cases h : ∃ e ∈ d.entries, e.HasExtension "tf"
    · have hfail : d.load ≠ .error (.noFiles dir) := by
        rw [Ne, load_eq_error_iff h]
        intro hsome
        obtain ⟨e, -, he⟩ := List.exists_of_findSome?_eq_some hsome
        exact e.failure?_ne_noFiles dir he
      obtain ⟨e, he, htf⟩ := h
      exact ⟨fun hload => absurd hload hfail, fun hnone => absurd htf (hnone.2 e he)⟩
    · have hnone : ∀ e ∈ d.entries, ¬ e.HasExtension "tf" := fun e he htf => h ⟨e, he, htf⟩
      rw [load_of_none hnone]
      exact ⟨fun hload => by cases hload; exact ⟨rfl, hnone⟩, fun hdir => by rw [hdir.1]⟩
  · refine ⟨d.inOrder isConfiguration, d.inOrder isAssignments, pairwise_lt_inOrder hd _,
      fun e => ?_, pairwise_lt_inOrder hd _, fun e => ?_, ?_, fun err => ?_⟩
    · rw [mem_inOrder, isConfiguration_iff]
    · rw [mem_inOrder, isAssignments_iff]
    · have hconfigurations := foldlM_congr (d.inOrder isConfiguration) fun e he =>
        insertFile_of_isConfiguration (d := d) (mem_inOrder.mp he).2
      have hassignments := foldlM_congr (d.inOrder isAssignments) fun e he =>
        insertFile_of_isAssignments (d := d) (mem_inOrder.mp he).2
      rw [load_of_configuration h, files_eq hd, List.foldlM_append, hconfigurations]
      simp only [hassignments, map_bind]
      rfl
    · rw [load_eq_error_iff h, files_eq hd]

/-- A directory that lists its files in no order, among them a directory and a file without an extension.
Its files cannot be loaded, each for a reason of its own. -/
def unordered : Directory :=
  ⟨"m", "/m", [⟨"z.tfvars", true, .error ReadError.notText.message⟩,
    ⟨"b.tf", false, .error ReadError.isDirectory.message⟩, ⟨".tf", true, .ok "x"⟩,
    ⟨"c.tf", true, .ok "z"⟩, ⟨"a.tf", true, .ok "y"⟩]⟩

/-- The configuration comes before the assignments, and the file whose error is given is its first. -/
theorem unordered_load :
    (unordered.entries.map DirectoryEntry.name).Nodup ∧
    ({ unordered with entries := unordered.entries.reverse } : Directory).load = unordered.load ∧
    unordered.load = .error (.unparsable "y") := by
  have hnodup : (unordered.entries.map DirectoryEntry.name).Nodup := by decide
  obtain ⟨hperm, -, hload⟩ := load_listing unordered hnodup
  have hleast : ∀ e ∈ unordered.entries, e.HasExtension "tf" → e.name = "a.tf" ∨ "a.tf" < e.name := by
    decide +kernel
  have hfail : ∀ e ∈ unordered.entries, e.name = "a.tf" → e.failure? = some (.unparsable "y") := by
    decide +kernel
  have hsome : ∃ e ∈ unordered.entries, e.HasExtension "tf" ∧ e.name = "a.tf" := by decide +kernel
  refine ⟨hnodup, hperm _ (List.reverse_perm _), ?_⟩
  obtain ⟨e, he, htf, hname⟩ := hsome
  obtain ⟨configurations, assignments, hsorted, hmem, -, -, -, herror⟩ := hload ⟨e, he, htf⟩
  have hin : e ∈ configurations := (hmem e).mpr ⟨he, htf⟩
  obtain ⟨first, rest, rfl⟩ := List.exists_cons_of_ne_nil (List.ne_nil_of_mem hin)
  obtain ⟨hfirst, hfirsttf⟩ := (hmem first).mp List.mem_cons_self
  -- names are in order, so nothing stands before `a.tf`
  have hfirstname : first.name = "a.tf" := by
    refine (hleast first hfirst hfirsttf).resolve_right fun hlt => ?_
    rcases List.mem_cons.mp hin with rfl | hrest
    · exact String.lt_irrefl _ (hname ▸ hlt)
    · exact String.lt_asymm hlt (hname ▸ List.rel_of_pairwise_cons hsorted hrest)
  rw [herror, List.cons_append, List.findSome?_cons, hfail first hfirst hfirstname]

end Directory
end Preflight
