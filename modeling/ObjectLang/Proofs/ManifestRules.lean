import Mathlib.Data.List.Pairwise
import Mathlib.Tactic.Tauto
import ObjectLang.Package.Manifest
import ObjectLang.Proofs.Loading
import ObjectLang.Proofs.NormalTexts

/-! The rules for manifests. A manifest is accepted exactly if it breaks no rule, and one that breaks
some is rejected with all of them listed, those of its dependencies by name. The rules speak of what a
text says beside blanks; the checks compare what was read, which has no blanks at its ends. -/

namespace ObjectLang

namespace Path

theorem exists_of_length_takeWhile_lt {α : Type} {p : α → Bool} {l : List α}
    (h : (l.takeWhile p).length < l.length) :
    ∃ a rest, p a = false ∧ l = l.takeWhile p ++ a :: rest := by
  have hl := List.takeWhile_append_dropWhile (p := p) (l := l)
  have hhead := List.head?_dropWhile_not p l
  cases hrest : l.dropWhile p with
  | nil =>
      rw [hrest, List.append_nil] at hl
      exact absurd h (by rw [hl]; exact Nat.lt_irrefl _)
  | cons a rest =>
      rw [hrest] at hl hhead
      exact ⟨a, rest, hhead, hl.symm⟩

theorem exists_eq_append_extension (path : String) : ∃ stem, path = stem ++ extension path := by
  unfold extension
  dsimp only
  split
  · next hshorter =>
      have hpath := List.takeWhile_append_dropWhile (p := (· ≠ '/')) (l := path.toList.reverse)
      generalize path.toList.reverse.takeWhile (· ≠ '/') = last at hshorter hpath ⊢
      generalize path.toList.reverse.dropWhile (· ≠ '/') = above at hpath
      obtain ⟨a, before, ha, hlast⟩ := exists_of_length_takeWhile_lt hshorter
      obtain rfl : a = '.' := by simpa using ha
      generalize last.takeWhile (· ≠ '.') = after at hlast ⊢
      refine ⟨String.ofList (before ++ above).reverse, ?_⟩
      rw [← String.ofList_append, ← String.toList_inj, String.toList_ofList,
        ← List.reverse_reverse path.toList, ← hpath, hlast]
      simp
  · exact ⟨path, String.append_empty.symm⟩

theorem takeWhile_ne_append {c : Char} {front : List Char} (h : c ∉ front) (back : List Char) :
    (front ++ back).takeWhile (· ≠ c) = front ++ back.takeWhile (· ≠ c) :=
  List.takeWhile_append_of_pos fun _ ha => decide_eq_true fun heq => h (heq ▸ ha)

theorem extension_append (stem : String) {rest : List Char} (hdot : '.' ∉ rest)
    (hslash : '/' ∉ rest) :
    extension (stem ++ String.ofList ('.' :: rest)) = String.ofList ('.' :: rest) := by
  have hreverse : (stem ++ String.ofList ('.' :: rest)).toList.reverse =
      rest.reverse ++ '.' :: stem.toList.reverse := by simp
  unfold extension
  rw [hreverse, takeWhile_ne_append (by simpa using hslash), List.takeWhile_cons_of_pos (by decide)]
  dsimp only
  rw [takeWhile_ne_append (by simpa using hdot), List.takeWhile_cons_of_neg (by decide),
    List.append_nil, if_pos (by simp), List.reverse_reverse]

/-- What the names of program files end in. -/
def programEndings : List String := [".json", ".yml", ".yaml"]

/-- A file whose name ends as those of program files do, in letters of either case. -/
def IsProgramFile (path : String) : Prop :=
  ∃ stem ending, path = stem ++ ending ∧
    String.ofList (ending.toList.map Text.lowerAscii) ∈ programEndings

theorem isSome_ofPath?_iff_extension {path : String} : (SourceFormat.ofPath? path).isSome = true ↔
    String.ofList ((extension path).toList.map Text.lowerAscii) ∈ programEndings := by
  unfold SourceFormat.ofPath?
  split <;> simp_all [programEndings]

/-- An ending of program files is the extension of whatever ends in it. -/
theorem extension_of_ending (stem : String) {ending : String}
    (h : String.ofList (ending.toList.map Text.lowerAscii) ∈ programEndings) :
    extension (stem ++ ending) = ending := by
  have hplain : ∀ e ∈ programEndings,
      e.toList.head? = some '.' ∧ '.' ∉ e.toList.tail ∧ '/' ∉ e.toList.tail := by decide
  obtain ⟨hhead, hdot, hslash⟩ := hplain _ h
  rw [String.toList_ofList] at hhead hdot hslash
  rw [← List.map_tail] at hdot hslash
  obtain ⟨first, hfirst, hlower⟩ := Option.map_eq_some_iff.mp (List.head?_map ▸ hhead)
  obtain rfl := Text.eq_of_lowerAscii_eq hlower (by decide)
  obtain ⟨rest, hrest⟩ := List.head?_eq_some_iff.mp hfirst
  rw [hrest, List.tail_cons] at hdot hslash
  have hending : ending = String.ofList ('.' :: rest) := by rw [← hrest, String.ofList_toList]
  rw [hending]
  exact extension_append stem (fun hmem => hdot (List.mem_map_of_mem (f := Text.lowerAscii) hmem))
    fun hmem => hslash (List.mem_map_of_mem (f := Text.lowerAscii) hmem)

theorem isSome_ofPath?_iff {path : String} :
    (SourceFormat.ofPath? path).isSome = true ↔ IsProgramFile path := by
  rw [isSome_ofPath?_iff_extension]
  constructor
  · intro h
    obtain ⟨stem, hstem⟩ := exists_eq_append_extension path
    exact ⟨stem, extension path, hstem, h⟩
  · rintro ⟨stem, ending, rfl, h⟩
    rwa [extension_of_ending stem h]

end Path

namespace Document

theorem consField_cases {α : Type} (field : String × α) (later : List (String × α)) :
    consField field later = later ∨
      consField field later = field :: later ∧ ∀ other ∈ later, other.1 ≠ field.1 := by
  unfold consField
  split
  · exact .inl rfl
  · next hnew =>
      refine .inr ⟨rfl, fun other hother heq => hnew ?_⟩
      exact List.any_eq_true.mpr ⟨other, hother, beq_iff_eq.mpr heq⟩

theorem distinctFields_sublist {α : Type} (list : List (String × α)) :
    (distinctFields list).Sublist list := by
  induction list with
  | nil => exact .slnil
  | cons field list ih =>
      change (consField field (distinctFields list)).Sublist _
      rcases consField_cases field (distinctFields list) with heq | ⟨heq, -⟩
      · rw [heq]
        exact ih.cons field
      · rw [heq]
        exact ih.cons_cons field

theorem nodup_names_distinctFields {α : Type} (list : List (String × α)) :
    ((distinctFields list).map (·.1)).Nodup := by
  induction list with
  | nil => exact .nil
  | cons field list ih =>
      change ((consField field (distinctFields list)).map (·.1)).Nodup
      rcases consField_cases field (distinctFields list) with heq | ⟨heq, hnew⟩
      · rwa [heq]
      · rw [heq, List.map_cons, List.nodup_cons]
        exact ⟨fun hmem => let ⟨other, hother, hname⟩ := List.mem_map.mp hmem
          hnew other hother hname, ih⟩

end Document

namespace Dependency

/-- Whether a text has more than blanks. -/
def Given (text : String) : Prop := Text.trim text ≠ ""

instance (text : String) : Decidable (Given text) := inferInstanceAs (Decidable (_ ≠ _))

/-- Exactly one of revision, tag and branch is given. -/
def PinsOnce (d : Dependency) : Prop :=
  (Given d.rev ∧ ¬Given d.tag ∧ ¬Given d.branch) ∨ (¬Given d.rev ∧ Given d.tag ∧ ¬Given d.branch) ∨
    (¬Given d.rev ∧ ¬Given d.tag ∧ Given d.branch)

/-- Whether any of revision, tag and branch is given. -/
def PinsAny (d : Dependency) : Prop := Given d.rev ∨ Given d.tag ∨ Given d.branch

/-- A description of one source: a directory that is not pinned, or a repository that is pinned once. -/
def NamesSource (d : Dependency) : Prop :=
  (Given d.path ∧ ¬Given d.git ∧ ¬d.PinsAny) ∨ (¬Given d.path ∧ Given d.git ∧ d.PinsOnce)

/-- The rules for descriptions, each by the issue that breaking it is. -/
inductive Breaks (d : Dependency) : Issue → Prop
  | pathAndGit (hpath : Given d.path) (hgit : Given d.git) : d.Breaks .pathAndGit
  | noSource (hpath : ¬Given d.path) (hgit : ¬Given d.git) : d.Breaks .noSource
  | notOnePin (hgit : Given d.git) (hpins : ¬d.PinsOnce) : d.Breaks .notOnePin
  | pinnedPath (hpath : Given d.path) (hpins : d.PinsAny) : d.Breaks .pinnedPath

/-- A description names one source exactly if it breaks no rule. -/
theorem namesSource_iff {d : Dependency} : d.NamesSource ↔ ∀ i, ¬d.Breaks i := by
  constructor
  · rintro (⟨hpath, hgit, hpins⟩ | ⟨hpath, hgit, hpins⟩) i hbreaks
    · cases hbreaks with
      | pathAndGit _ h => exact hgit h
      | noSource h _ => exact h hpath
      | notOnePin h _ => exact hgit h
      | pinnedPath _ h => exact hpins h
    · cases hbreaks with
      | pathAndGit h _ => exact hpath h
      | noSource _ h => exact h hgit
      | notOnePin _ h => exact h hpins
      | pinnedPath h _ => exact hpath h
  · intro h
    by_cases hpath : Given d.path
    · exact .inl ⟨hpath, fun hgit => h _ (.pathAndGit hpath hgit),
        fun hpins => h _ (.pinnedPath hpath hpins)⟩
    · by_cases hgit : Given d.git
      · exact .inr ⟨hpath, hgit, by_contra fun hpins => h _ (.notOnePin hgit hpins)⟩
      · exact absurd (.noSource hpath hgit) (h _)

/-- A description as it is read: no text in it has blanks at its ends. -/
structure Trimmed (d : Dependency) : Prop where
  git : Text.trim d.git = d.git
  rev : Text.trim d.rev = d.rev
  tag : Text.trim d.tag = d.tag
  branch : Text.trim d.branch = d.branch
  path : Text.trim d.path = d.path

theorem length_pins_eq_one_iff {d : Dependency} : d.pins.length = 1 ↔
    (d.rev ≠ "" ∧ d.tag = "" ∧ d.branch = "") ∨ (d.rev = "" ∧ d.tag ≠ "" ∧ d.branch = "") ∨
      (d.rev = "" ∧ d.tag = "" ∧ d.branch ≠ "") := by
  by_cases hrev : d.rev = "" <;> by_cases htag : d.tag = "" <;> by_cases hbranch : d.branch = "" <;>
    simp [pins, hrev, htag, hbranch]

theorem pins_eq_nil_iff {d : Dependency} : d.pins = [] ↔ d.rev = "" ∧ d.tag = "" ∧ d.branch = "" := by
  simp [pins]

namespace Trimmed

variable {d : Dependency} (h : d.Trimmed)
include h

theorem given_git : Given d.git ↔ d.git ≠ "" := by rw [Given, h.git]

theorem given_path : Given d.path ↔ d.path ≠ "" := by rw [Given, h.path]

theorem pinsOnce_iff : d.PinsOnce ↔ d.pins.length = 1 := by
  rw [length_pins_eq_one_iff, PinsOnce, Given, Given, Given, h.rev, h.tag, h.branch]
  simp only [ne_eq, not_not]

theorem pinsAny_iff : d.PinsAny ↔ d.pins ≠ [] := by
  rw [ne_eq, pins_eq_nil_iff, PinsAny, Given, Given, Given, h.rev, h.tag, h.branch]
  tauto

/-- The issues of a description are the rules that it breaks. -/
theorem mem_issues_iff {i : Issue} : i ∈ d.issues ↔ d.Breaks i := by
  have hmem : i ∈ d.issues ↔ (i = .pathAndGit ∧ Given d.path ∧ Given d.git) ∨
      (i = .noSource ∧ ¬Given d.path ∧ ¬Given d.git) ∨
      (i = .notOnePin ∧ Given d.git ∧ ¬d.PinsOnce) ∨ (i = .pinnedPath ∧ Given d.path ∧ d.PinsAny) := by
    rw [h.given_path, h.given_git, h.pinsOnce_iff, h.pinsAny_iff]
    simp [issues, and_comm]
  rw [hmem]
  constructor
  · rintro (⟨rfl, hpath, hgit⟩ | ⟨rfl, hpath, hgit⟩ | ⟨rfl, hgit, hpins⟩ | ⟨rfl, hpath, hpins⟩)
    · exact .pathAndGit hpath hgit
    · exact .noSource hpath hgit
    · exact .notOnePin hgit hpins
    · exact .pinnedPath hpath hpins
  · rintro (⟨hpath, hgit⟩ | ⟨hpath, hgit⟩ | ⟨hgit, hpins⟩ | ⟨hpath, hpins⟩)
    · exact .inl ⟨rfl, hpath, hgit⟩
    · exact .inr (.inl ⟨rfl, hpath, hgit⟩)
    · exact .inr (.inr (.inl ⟨rfl, hgit, hpins⟩))
    · exact .inr (.inr (.inr ⟨rfl, hpath, hpins⟩))

end Trimmed

theorem ite_sublist {α : Type} {p : Prop} [Decidable p] (a : α) :
    (if p then [a] else []).Sublist [a] := by
  split <;> simp

/-- The issues of a description come in one order, each at most once. -/
theorem issues_sublist (d : Dependency) :
    d.issues.Sublist [.pathAndGit, .noSource, .notOnePin, .pinnedPath] :=
  (((ite_sublist _).append (ite_sublist _)).append (ite_sublist _)).append (ite_sublist _)

theorem nodup_issues (d : Dependency) : d.issues.Nodup := d.issues_sublist.nodup (by decide)

theorem trimmed_ofFields (fields : List (String × Yaml.Value)) : (ofFields fields).Trimmed :=
  ⟨Text.trim_trim _, Text.trim_trim _, Text.trim_trim _, Text.trim_trim _, Text.trim_trim _⟩

theorem trimmed_of_ofNode {name : String} {n : Yaml.Node} {d : Dependency}
    (h : ofNode name n = .ok d) : d.Trimmed := by
  have hblank : Text.trim "" = "" := rfl
  unfold ofNode at h
  split at h
  · cases h
    exact ⟨hblank, hblank, hblank, hblank, Text.trim_trim _⟩
  · split at h
    · cases h
    · cases h
    · cases h
      exact trimmed_ofFields _
    · cases h
      exact ⟨hblank, hblank, hblank, hblank, hblank⟩
  · cases h

theorem trimmed_of_ofEntries {entries : List (Yaml.Node × Yaml.Node)}
    {list : List (String × Dependency)} (h : ofEntries entries = .ok (.ok list)) :
    ∀ wanted ∈ list, wanted.2.Trimmed := by
  induction entries generalizing list with
  | nil =>
      cases h
      exact nofun
  | cons entry rest ih =>
      obtain ⟨key, value⟩ := entry
      rw [ofEntries] at h
      split at h
      · cases h
      · cases h
      · next found _ =>
          extract_lets name at h
          split at h
          · cases h
          · obtain ⟨first, hfirst, h⟩ := ok_of_bind h
            obtain ⟨others, hothers, h⟩ := ok_of_bind h
            cases others with
            | error complaints => cases h
            | ok others =>
                cases h
                exact List.forall_mem_cons.mpr ⟨trimmed_of_ofNode hfirst, ih hothers⟩

theorem byName_perm (list : List (String × Dependency)) :
    (byName list).Perm (Document.distinctFields list) :=
  List.mergeSort_perm _ _

theorem mem_of_mem_byName {list : List (String × Dependency)} {wanted : String × Dependency}
    (h : wanted ∈ byName list) : wanted ∈ list :=
  (Document.distinctFields_sublist list).subset ((byName_perm list).mem_iff.mp h)

/-- Dependencies by name have distinct names, which ascend. -/
theorem byName_ascends (list : List (String × Dependency)) :
    (byName list).Pairwise fun a b => a.1 < b.1 := by
  have hle : (byName list).Pairwise fun a b => a.1 ≤ b.1 := by
    refine (List.pairwise_mergeSort ?_ ?_ _).imp of_decide_eq_true
    · exact fun a b c hab hbc =>
        decide_eq_true (String.le_trans (of_decide_eq_true hab) (of_decide_eq_true hbc))
    · intro a b
      rw [Bool.or_eq_true]
      exact (String.le_total a.1 b.1).imp decide_eq_true decide_eq_true
  have hnames : ((byName list).map (·.1)).Nodup :=
    ((byName_perm list).map _).nodup_iff.mpr (Document.nodup_names_distinctFields list)
  have hne : (byName list).Pairwise fun a b => a.1 ≠ b.1 := List.pairwise_map.mp hnames
  exact (hle.and hne).imp fun hab =>
    String.not_le.mp fun hba => hab.2 (String.le_antisymm hab.1 hba)

theorem byName_of_ascends {list : List (String × Dependency)}
    (h : (Document.distinctFields list).Pairwise fun a b => a.1 ≤ b.1) :
    byName list = Document.distinctFields list :=
  List.mergeSort_of_pairwise (h.imp decide_eq_true)

/-- What is read from a checked node are trimmed descriptions, in the order of their names. -/
theorem trimmed_of_mem_ofChecked {n : Yaml.Node} {wanted : String × Dependency}
    (h : wanted ∈ ofChecked n) : wanted.2.Trimmed := by
  unfold ofChecked at h
  split at h
  · next list hlist =>
      unfold readAll at hlist
      split at hlist
      · exact trimmed_of_ofEntries hlist wanted (mem_of_mem_byName h)
      · cases hlist
  · cases h

theorem ofChecked_ascends (n : Yaml.Node) : (ofChecked n).Pairwise fun a b => a.1 < b.1 := by
  unfold ofChecked
  split
  · exact byName_ascends _
  · exact .nil

end Dependency

/-! ### Manifests -/

namespace Manifest

/-- The manifest that a text at a path describes, whether or not there is something wrong with it. -/
def described (path text : String) : Except ReadError Manifest :=
  match Yaml.decodeText shape text with
  | .error cause => .error (.badYaml path cause)
  | .ok none => .error (.empty path)
  | .ok (some (some (.fields fields))) => .ok (ofFields path fields)
  | .ok (some _) => .ok (ofFields path [])

theorem parse_eq (path text : String) : parse path text = described path text >>= validated := by
  unfold parse described
  cases Yaml.decodeText shape text with
  | error cause => rfl
  | ok found =>
      rcases found with _ | _ | value
      · rfl
      · rfl
      · cases value <;> exact (pure_bind _ validated).symm

/-- The manifest that a text describes, with its dependencies in the order in which it lists them. -/
def listed? (path text : String) : Option Manifest :=
  match Yaml.decodeText shape text with
  | .ok (some (some (.fields fields))) =>
    match fields.lookup "dependencies" with
    | some (.node n) =>
      match Dependency.readAll n with
      | .ok (.ok list) => some { ofFields path fields with dependencies := Document.distinctFields list }
      | _ => none
    | _ => none
  | _ => none

/-- Dependencies that are listed in the order of their names are not sorted anew. -/
theorem described_of_listed {path text : String} {m : Manifest} (h : listed? path text = some m)
    (hascends : m.dependencies.Pairwise fun a b => a.1 ≤ b.1) : described path text = .ok m := by
  unfold listed? at h
  split at h
  · next fields hdecode =>
      split at h
      · next n hnode =>
          split at h
          · next list hlist =>
              cases h
              have hchecked : (ofFields path fields).dependencies = Document.distinctFields list := by
                rw [ofFields, hnode]
                dsimp only
                rw [Dependency.ofChecked, hlist]
                exact Dependency.byName_of_ascends hascends
              rw [described, hdecode, ← hchecked]
          · cases h
      · cases h
  · cases h

/-- The rules for manifests, each by the issue that breaking it is. -/
inductive Breaks (m : Manifest) : Issue → Prop
  | noName (hname : m.name = "") : m.Breaks .noName
  | noEntry (hentry : m.entry = "") : m.Breaks .noEntry
  | badEntry (hentry : m.entry ≠ "") (hfile : ¬Path.IsProgramFile m.entry) :
      m.Breaks (.badEntry m.entry)
  | negativeDepth (hdepth : m.maxDepth < 0) : m.Breaks .negativeDepth
  | dependency {name : String} {d : Dependency} {issue : Dependency.Issue}
      (hd : (name, d) ∈ m.dependencies) (hbreaks : d.Breaks issue) :
      m.Breaks (.dependency name issue)

/-- The order of issues: those of the dependencies come last and by name. -/
def Issue.Precedes : Issue → Issue → Prop
  | .dependency name _, .dependency other _ => name ≤ other
  | .dependency _ _, _ => False
  | _, _ => True

/-- A list of the rules that a manifest breaks: each of them once, in order. -/
structure Lists (m : Manifest) (issues : List Issue) : Prop where
  breaks : ∀ i, i ∈ issues ↔ m.Breaks i
  once : issues.Nodup
  order : issues.Pairwise Issue.Precedes

/-- A manifest as it is read: its dependencies are trimmed and ascend by name. -/
structure Tidy (m : Manifest) : Prop where
  trimmed : ∀ wanted ∈ m.dependencies, wanted.2.Trimmed
  ascends : m.dependencies.Pairwise fun a b => a.1 < b.1

theorem tidy_ofFields (path : String) (fields : List (String × Yaml.Value)) :
    (ofFields path fields).Tidy := by
  have hdependencies : (ofFields path fields).dependencies = [] ∨
      ∃ n, (ofFields path fields).dependencies = Dependency.ofChecked n := by
    unfold ofFields
    dsimp only
    split
    · exact .inr ⟨_, rfl⟩
    · exact .inl rfl
  rcases hdependencies with heq | ⟨n, heq⟩
  · exact ⟨by simp [heq], by simp [heq]⟩
  · exact ⟨fun wanted hwanted => Dependency.trimmed_of_mem_ofChecked (heq ▸ hwanted),
      heq ▸ Dependency.ofChecked_ascends n⟩

theorem tidy_of_described {path text : String} {m : Manifest}
    (h : described path text = .ok m) : m.Tidy := by
  unfold described at h
  split at h
  · cases h
  · cases h
  · cases h
    exact tidy_ofFields path _
  · cases h
    exact tidy_ofFields path []

def ownIssues (m : Manifest) : List Issue :=
  (if m.name = "" then [.noName] else []) ++
  (if m.entry = "" then [.noEntry]
    else if (SourceFormat.ofPath? m.entry).isNone then [.badEntry m.entry] else []) ++
  (if m.maxDepth < 0 then [.negativeDepth] else [])

def dependencyIssues (wanted : List (String × Dependency)) : List Issue :=
  wanted.flatMap fun (name, d) => d.issues.map (.dependency name)

theorem issues_eq (m : Manifest) : m.issues = m.ownIssues ++ dependencyIssues m.dependencies := rfl

theorem mem_ownIssues_iff {m : Manifest} {i : Issue} : i ∈ m.ownIssues ↔
    (i = .noName ∧ m.name = "") ∨ (i = .noEntry ∧ m.entry = "") ∨
      (i = .badEntry m.entry ∧ m.entry ≠ "" ∧ ¬Path.IsProgramFile m.entry) ∨
      (i = .negativeDepth ∧ m.maxDepth < 0) := by
  rw [← Path.isSome_ofPath?_iff]
  simp only [ownIssues, List.mem_append, List.mem_ite_nil_right, List.mem_singleton]
  by_cases hentry : m.entry = "" <;> simp [hentry, and_comm, or_assoc]

theorem mem_dependencyIssues_iff {wanted : List (String × Dependency)} {i : Issue} :
    i ∈ dependencyIssues wanted ↔
      ∃ name d, (name, d) ∈ wanted ∧ ∃ issue ∈ d.issues, i = .dependency name issue := by
  simp [dependencyIssues, eq_comm]

theorem Tidy.mem_issues_iff {m : Manifest} (h : m.Tidy) {i : Issue} :
    i ∈ m.issues ↔ m.Breaks i := by
  rw [issues_eq, List.mem_append, mem_ownIssues_iff, mem_dependencyIssues_iff]
  constructor
  · rintro ((⟨rfl, hname⟩ | ⟨rfl, hentry⟩ | ⟨rfl, hentry, hfile⟩ | ⟨rfl, hdepth⟩) |
      ⟨name, d, hd, issue, hissue, rfl⟩)
    · exact .noName hname
    · exact .noEntry hentry
    · exact .badEntry hentry hfile
    · exact .negativeDepth hdepth
    · exact .dependency hd ((h.trimmed _ hd).mem_issues_iff.mp hissue)
  · rintro (hname | hentry | ⟨hentry, hfile⟩ | hdepth | @⟨name, d, issue, hd, hbreaks⟩)
    · exact .inl (.inl ⟨rfl, hname⟩)
    · exact .inl (.inr (.inl ⟨rfl, hentry⟩))
    · exact .inl (.inr (.inr (.inl ⟨rfl, hentry, hfile⟩)))
    · exact .inl (.inr (.inr (.inr ⟨rfl, hdepth⟩)))
    · exact .inr ⟨name, d, hd, issue, (h.trimmed _ hd).mem_issues_iff.mpr hbreaks, rfl⟩

theorem nodup_ownIssues (m : Manifest) : m.ownIssues.Nodup := by
  unfold ownIssues
  split_ifs <;> simp

/-- What is wrong with the manifest itself may stand before everything. -/
theorem precedes_of_mem_ownIssues {m : Manifest} {i : Issue} (hi : i ∈ m.ownIssues) (j : Issue) :
    i.Precedes j := by
  rcases mem_ownIssues_iff.mp hi with ⟨rfl, -⟩ | ⟨rfl, -⟩ | ⟨rfl, -⟩ | ⟨rfl, -⟩ <;> trivial

theorem pairwise_dependencyIssues {wanted : List (String × Dependency)}
    (h : wanted.Pairwise fun a b => a.1 < b.1) :
    (dependencyIssues wanted).Pairwise fun i j => i ≠ j ∧ i.Precedes j := by
  rw [dependencyIssues, List.pairwise_flatMap]
  constructor
  · rintro ⟨name, d⟩ -
    rw [List.pairwise_map]
    exact d.nodup_issues.imp fun hne => ⟨by simpa using hne, String.le_refl name⟩
  · refine h.imp ?_
    rintro ⟨name, d⟩ ⟨other, d'⟩ hlt i hi j hj
    obtain ⟨issue, -, rfl⟩ := List.mem_map.mp hi
    obtain ⟨issue', -, rfl⟩ := List.mem_map.mp hj
    refine ⟨?_, String.not_lt.mp (String.lt_asymm hlt)⟩
    rintro ⟨⟩
    exact String.lt_irrefl _ hlt

theorem Tidy.lists_issues {m : Manifest} (h : m.Tidy) : m.Lists m.issues := by
  have hpairwise : m.issues.Pairwise fun i j => i ≠ j ∧ i.Precedes j := by
    rw [issues_eq, List.pairwise_append]
    refine ⟨?_, pairwise_dependencyIssues h.ascends, ?_⟩
    · exact m.nodup_ownIssues.imp_of_mem fun hi _ hne => ⟨hne, precedes_of_mem_ownIssues hi _⟩
    · intro i hi j hj
      refine ⟨?_, precedes_of_mem_ownIssues hi j⟩
      rintro rfl
      obtain ⟨name, d, -, issue, -, rfl⟩ := mem_dependencyIssues_iff.mp hj
      simp [mem_ownIssues_iff] at hi
  exact ⟨fun _ => h.mem_issues_iff, hpairwise.imp And.left, hpairwise.imp And.right⟩

theorem validated_eq_ok_iff {m m' : Manifest} : m.validated = .ok m' ↔ m' = m ∧ m.issues = [] := by
  unfold validated
  simp only [List.isEmpty_iff]
  split
  · simp [*, eq_comm]
  · simp [*]

theorem validated_of_issues {m : Manifest} (h : m.issues ≠ []) :
    m.validated = .error (.invalid m.issues) := by
  unfold validated
  rw [if_neg (by simpa using h)]

theorem issuesMessage_of_ne_nil {texts : List String} (h : texts ≠ []) : issuesMessage texts =
    "manifest validation failed:" ++ String.join (texts.map ("\n- " ++ ·)) := by
  simp [issuesMessage, h]

/-- The message lists each of the issues. -/
theorem message_invalid {issues : List Issue} (h : issues ≠ []) :
    (ReadError.invalid issues).message =
      "manifest validation failed:" ++ String.join (issues.map fun i => "\n- " ++ i.message) :=
  calc (ReadError.invalid issues).message
    _ = issuesMessage (issues.map Issue.message) := rfl
    _ = "manifest validation failed:" ++
          String.join ((issues.map Issue.message).map ("\n- " ++ ·)) :=
      issuesMessage_of_ne_nil (by simpa using h)
    _ = _ := by rw [List.map_map, Function.comp_def]

theorem issues_eq_nil_iff {m : Manifest} (h : m.Tidy) : m.issues = [] ↔ ∀ i, ¬m.Breaks i := by
  rw [List.eq_nil_iff_forall_not_mem]
  exact forall_congr' fun i => not_congr h.mem_issues_iff

theorem read_of_open {tree : FileTree} {cwd path text : String} (hpath : path ≠ "")
    (hopen : tree.open? (Path.absolute cwd path) = .ok (.file text)) :
    read tree cwd path = parse (Path.absolute cwd path) text := by
  simp only [read, if_neg hpath, hopen]
  rfl

theorem tidy_of_read {tree : FileTree} {cwd path : String} {m : Manifest}
    (h : read tree cwd path = .ok m) : m.Tidy ∧ m.issues = [] := by
  unfold read at h
  split at h
  · cases h
  · obtain ⟨entry, -, h⟩ := ok_of_bind h
    cases entry with
    | directory => cases h
    | file text =>
        change parse _ text = .ok m at h
        rw [parse_eq] at h
        obtain ⟨found, hfound, hvalidated⟩ := ok_of_bind h
        obtain ⟨rfl, hissues⟩ := validated_eq_ok_iff.mp hvalidated
        exact ⟨tidy_of_described hfound, hissues⟩

end Manifest

end ObjectLang
