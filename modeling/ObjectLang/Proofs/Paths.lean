import Mathlib.Data.List.DropRight
import ObjectLang.Workspace.Path

/-! Absolute paths by their parts. Cleaning a path keeps its parts, joining a plain name to a directory
adds the name to them, and the directory of a path has all but the last. -/

namespace ObjectLang.Path

/-- A part that stands for itself: not empty, not made of dots alone, and without a slash. -/
structure IsPlain (part : String) : Prop where
  ne_empty : part ≠ ""
  ne_here : part ≠ "."
  ne_up : part ≠ ".."
  no_slash : '/' ∉ part.toList

instance (part : String) : Decidable (IsPlain part) :=
  decidable_of_iff (part ≠ "" ∧ part ≠ "." ∧ part ≠ ".." ∧ '/' ∉ part.toList)
    ⟨fun ⟨h₁, h₂, h₃, h₄⟩ => ⟨h₁, h₂, h₃, h₄⟩, fun ⟨h₁, h₂, h₃, h₄⟩ => ⟨h₁, h₂, h₃, h₄⟩⟩

theorem splitOnChar_eq (sep : Char) (cs : List Char) : splitOnChar sep cs = cs.splitOn sep := by
  induction cs with
  | nil => simp [splitOnChar]
  | cons c cs ih =>
      rw [splitOnChar, ih, List.splitOn_eq_splitOnP, List.splitOn_eq_splitOnP,
        List.splitOnP_cons_eq_if_modifyHead]
      by_cases h : c = sep
      · simp [h]
      · rw [if_neg h, if_neg (by simpa using h)]
        cases hsplit : cs.splitOnP (· == sep) with
        | nil => exact absurd hsplit (List.splitOnP_ne_nil _ cs)
        | cons first rest => rfl

theorem rawParts_eq (path : String) :
    rawParts path = (path.toList.splitOn '/').map String.ofList := by
  rw [rawParts, splitOnChar_eq]

/-- The raw parts of a path with a slash in it are those on both sides. -/
theorem rawParts_append (a b : String) : rawParts (a ++ "/" ++ b) = rawParts a ++ rawParts b := by
  have hslash : ('/' == '/') = true := rfl
  have hsplit := List.splitOnP_append_cons (p := fun c => c == '/') a.toList b.toList hslash
  simp only [rawParts_eq, List.splitOn_eq_splitOnP, ← List.map_append, ← hsplit,
    String.toList_append, List.append_assoc]
  rfl

theorem rawParts_slash (path : String) : rawParts ("/" ++ path) = "" :: rawParts path := by
  have happend := rawParts_append "" path
  rw [String.empty_append] at happend
  exact happend

theorem rawParts_intercalate {ps : List String} (hne : ps ≠ [])
    (hps : ∀ part ∈ ps, '/' ∉ part.toList) : rawParts ("/".intercalate ps) = ps := by
  have hlists : ∀ part ∈ ps.map String.toList, '/' ∉ part := by simpa using hps
  have hsplit := List.splitOn_intercalate '/' hlists (by simpa using hne)
  rw [rawParts_eq, String.toList_intercalate, show "/".toList = ['/'] from rfl, hsplit, List.map_map]
  simp

theorem rawParts_of_noSlash {part : String} (h : '/' ∉ part.toList) : rawParts part = [part] := by
  have hpart := rawParts_intercalate (List.cons_ne_nil part []) (by simpa using h)
  simpa using hpart

theorem not_mem_of_mem_splitOnChar {sep : Char} {cs part : List Char}
    (h : part ∈ splitOnChar sep cs) : sep ∉ part := by
  induction cs generalizing part with
  | nil =>
      rw [splitOnChar, List.mem_singleton] at h
      rw [h]
      exact List.not_mem_nil
  | cons c cs ih =>
      rw [splitOnChar] at h
      split at h
      · rcases List.mem_cons.mp h with rfl | h
        · exact List.not_mem_nil
        · exact ih h
      · next hc =>
          split at h
          · rw [List.mem_singleton.mp h]
            simpa using Ne.symm hc
          · next first rest hsplit =>
              rcases List.mem_cons.mp h with rfl | h
              · have hfirst := ih (hsplit ▸ List.mem_cons_self)
                simpa [Ne.symm hc] using hfirst
              · exact ih (hsplit ▸ List.mem_cons_of_mem _ h)

theorem noSlash_of_mem_rawParts {path part : String} (h : part ∈ rawParts path) :
    '/' ∉ part.toList := by
  obtain ⟨cs, hcs, rfl⟩ := List.mem_map.mp h
  rw [String.toList_ofList]
  exact not_mem_of_mem_splitOnChar hcs

theorem addPart_plain {part : String} (h : IsPlain part) (rooted : Bool) (ps : List String) :
    addPart rooted ps part = part :: ps := by
  unfold addPart
  rw [if_neg (by simp [h.ne_empty, h.ne_here]), if_neg h.ne_up]

theorem foldl_addPart_plain {ps : List String} (hps : ∀ part ∈ ps, IsPlain part) (rooted : Bool)
    (before : List String) : ps.foldl (addPart rooted) before = ps.reverse ++ before := by
  induction ps generalizing before with
  | nil => rfl
  | cons part ps ih =>
      obtain ⟨hpart, hps⟩ := List.forall_mem_cons.mp hps
      rw [List.foldl_cons, addPart_plain hpart, ih hps, List.reverse_cons, List.append_assoc]
      rfl

theorem isAbsolute_append {a b : String} (hne : a ≠ "") : isAbsolute (a ++ b) = isAbsolute a := by
  have hlist : a.toList ≠ [] := by simpa using hne
  rw [isAbsolute, isAbsolute, String.toList_append, List.head?_append_of_ne_nil _ hlist]

theorem exists_eq_slash_append {path : String} (h : isAbsolute path = true) :
    ∃ rest, path = "/" ++ rest := by
  obtain ⟨rest, hrest⟩ := List.head?_eq_some_iff.mp (of_decide_eq_true h)
  refine ⟨String.ofList rest, String.toList_inj.mp ?_⟩
  rw [hrest, String.toList_append, String.toList_ofList, String.toList_ofList, List.singleton_append]

theorem ne_empty_of_isAbsolute {path : String} (h : isAbsolute path = true) : path ≠ "" := by
  rintro rfl
  cases h

/-- Joining one part to a directory adds it to the parts. -/
theorem parts_append_noSlash {a b : String} (hne : a ≠ "") (hb : '/' ∉ b.toList) :
    parts (a ++ "/" ++ b) = (addPart (isAbsolute a) (parts a).reverse b).reverse := by
  rw [parts, rawParts_append, rawParts_of_noSlash hb, String.append_assoc, isAbsolute_append hne,
    List.foldl_append, List.foldl_cons, List.foldl_nil, parts, List.reverse_reverse]

theorem parts_append {a b : String} (hne : a ≠ "") (hb : IsPlain b) :
    parts (a ++ "/" ++ b) = parts a ++ [b] := by
  rw [parts_append_noSlash hne hb.no_slash, addPart_plain hb, List.reverse_cons, List.reverse_reverse]

theorem isAbsolute_ofParts (ps : List String) : isAbsolute (ofParts ps) = true := by
  rw [ofParts, isAbsolute_append (by decide)]
  rfl

/-- Adding a part keeps the form of the parts: some steps up, and none from the root, and then names. -/
theorem addPart_form {rooted : Bool} {part : String} (hpart : '/' ∉ part.toList) {n : Nat}
    {names : List String} (hnames : ∀ name ∈ names, IsPlain name) (hn : rooted = true → n = 0) :
    ∃ n' names', addPart rooted (List.replicate n ".." ++ names).reverse part =
        (List.replicate n' ".." ++ names').reverse ∧
      (∀ name ∈ names', IsPlain name) ∧ (rooted = true → n' = 0) := by
  by_cases hnothing : part = "" ∨ part = "."
  · refine ⟨n, names, ?_, hnames, hn⟩
    unfold addPart
    rw [if_pos (by simpa using hnothing)]
  · by_cases hup : part = ".."
    · subst hup
      rcases List.eq_nil_or_concat names with rfl | ⟨front, last, rfl⟩
      · cases n with
        | zero =>
            cases rooted with
            | true => exact ⟨0, [], rfl, nofun, fun _ => rfl⟩
            | false => exact ⟨1, [], rfl, nofun, nofun⟩
        | succ n =>
            cases rooted with
            | true => exact absurd (hn rfl) (Nat.succ_ne_zero n)
            | false =>
                refine ⟨n + 2, [], ?_, nofun, nofun⟩
                rw [List.append_nil, List.append_nil, List.reverse_replicate, List.reverse_replicate]
                rfl
      · refine ⟨n, front, ?_, fun name hname => hnames name ?_, hn⟩
        · have hlast := (hnames last (by simp)).ne_up
          rw [List.concat_eq_append, ← List.append_assoc, List.reverse_concat]
          simp [addPart, hlast]
        · rw [List.concat_eq_append]
          exact List.mem_append_left _ hname
    · have hplain : IsPlain part :=
        ⟨fun h => hnothing (.inl h), fun h => hnothing (.inr h), hup, hpart⟩
      refine ⟨n, names ++ [part], ?_, ?_, hn⟩
      · rw [addPart_plain hplain, ← List.append_assoc, List.reverse_concat]
      · exact List.forall_mem_append.mpr ⟨hnames, by simpa using hplain⟩

/-- The parts of a path are some steps up, and none from the root, and then names. -/
theorem parts_form (path : String) : ∃ n names, parts path = List.replicate n ".." ++ names ∧
    (∀ name ∈ names, IsPlain name) ∧ (isAbsolute path = true → n = 0) := by
  have hfold : ∀ raw : List String, (∀ part ∈ raw, '/' ∉ part.toList) → ∀ n names,
      (∀ name ∈ names, IsPlain name) → (isAbsolute path = true → n = 0) →
      ∃ n' names', raw.foldl (addPart (isAbsolute path)) (List.replicate n ".." ++ names).reverse =
          (List.replicate n' ".." ++ names').reverse ∧
        (∀ name ∈ names', IsPlain name) ∧ (isAbsolute path = true → n' = 0) := by
    intro raw
    induction raw with
    | nil => exact fun _ n names hnames hn => ⟨n, names, rfl, hnames, hn⟩
    | cons part raw ih =>
        intro hraw n names hnames hn
        obtain ⟨hpart, hraw⟩ := List.forall_mem_cons.mp hraw
        obtain ⟨n', names', hadd, hnames', hn'⟩ := addPart_form hpart hnames hn
        rw [List.foldl_cons, hadd]
        exact ih hraw n' names' hnames' hn'
  obtain ⟨n, names, hparts, hnames, hn⟩ :=
    hfold (rawParts path) (fun _ hraw => noSlash_of_mem_rawParts hraw) 0 [] nofun fun _ => rfl
  refine ⟨n, names, ?_, hnames, hn⟩
  rw [parts, ← List.reverse_reverse (List.replicate n ".." ++ names), ← hparts]
  rfl

/-- The parts of an absolute path are plain. -/
theorem isPlain_of_mem_parts {path : String} (h : isAbsolute path = true) :
    ∀ part ∈ parts path, IsPlain part := by
  obtain ⟨n, names, hparts, hnames, hn⟩ := parts_form path
  rw [hparts, hn h]
  exact hnames

theorem parts_ofParts {ps : List String} (hps : ∀ part ∈ ps, IsPlain part) :
    parts (ofParts ps) = ps := by
  have hraw : (rawParts (ofParts ps)).foldl (addPart true) [] = ps.reverse := by
    rw [ofParts, rawParts_slash, List.foldl_cons, show addPart true [] "" = [] from rfl]
    cases ps with
    | nil => rfl
    | cons part rest =>
        rw [rawParts_intercalate (by simp) fun part hpart => (hps part hpart).no_slash,
          foldl_addPart_plain hps, List.append_nil]
  rw [parts, isAbsolute_ofParts, hraw, List.reverse_reverse]

theorem clean_of_isAbsolute {path : String} (h : isAbsolute path = true) :
    clean path = ofParts (parts path) := by
  rw [clean, if_pos h]

theorem isAbsolute_clean {path : String} (h : isAbsolute path = true) :
    isAbsolute (clean path) = true := by
  rw [clean_of_isAbsolute h]
  exact isAbsolute_ofParts _

/-- A path whose parts are joined again has these parts. -/
theorem parts_intercalate {n : Nat} {names : List String} (hnames : ∀ name ∈ names, IsPlain name)
    (hne : List.replicate n ".." ++ names ≠ []) :
    parts ("/".intercalate (List.replicate n ".." ++ names)) = List.replicate n ".." ++ names := by
  have hup : ".." ≠ "" ∧ '/' ∉ "..".toList := by decide
  have hpart : ∀ part ∈ List.replicate n ".." ++ names, part ≠ "" ∧ '/' ∉ part.toList := by
    intro part hpart
    rcases List.mem_append.mp hpart with hpart | hpart
    · rw [List.eq_of_mem_replicate hpart]
      exact hup
    · exact ⟨(hnames part hpart).ne_empty, (hnames part hpart).no_slash⟩
  have hraw := rawParts_intercalate hne fun part h => (hpart part h).2
  have hrelative : isAbsolute ("/".intercalate (List.replicate n ".." ++ names)) = false := by
    refine Bool.eq_false_iff.mpr fun habsolute => ?_
    obtain ⟨rest, hrest⟩ := exists_eq_slash_append habsolute
    rw [hrest, rawParts_slash] at hraw
    exact (hpart "" (hraw ▸ List.mem_cons_self)).1 rfl
  have hups : ∀ n, (List.replicate n "..").foldl (addPart false) [] = List.replicate n ".." := by
    intro n
    induction n with
    | zero => rfl
    | succ n ih =>
        rw [List.replicate_succ', List.foldl_append, ih, List.foldl_cons, List.foldl_nil,
          ← List.replicate_succ', List.replicate_succ]
        cases n <;> rfl
  rw [parts, hraw, hrelative, List.foldl_append, hups, foldl_addPart_plain hnames, List.reverse_append,
    List.reverse_reverse, List.reverse_replicate]

theorem parts_clean (path : String) : parts (clean path) = parts path := by
  obtain ⟨n, names, hparts, hnames, -⟩ := parts_form path
  unfold clean
  split
  · next h => rw [parts_ofParts (isPlain_of_mem_parts h)]
  · split
    · next hnil => rw [hnil]; rfl
    · next hne =>
        rw [hparts] at hne ⊢
        exact parts_intercalate hnames hne

theorem parts_join_noSlash {directory name : String} (hdirectory : directory ≠ "") (hne : name ≠ "")
    (hname : '/' ∉ name.toList) :
    parts (join directory name) =
      (addPart (isAbsolute directory) (parts directory).reverse name).reverse := by
  rw [join, if_neg hdirectory, if_neg hne, parts_clean, parts_append_noSlash hdirectory hname]

/-- Joining a plain name to a directory adds it to the parts. -/
theorem parts_join (directory : String) {name : String} (hname : IsPlain name) :
    parts (join directory name) = parts directory ++ [name] := by
  by_cases hdirectory : directory = ""
  · subst hdirectory
    have hraw := rawParts_of_noSlash hname.no_slash
    rw [join, if_pos rfl, if_neg hname.ne_empty, parts_clean, parts, hraw, List.foldl_cons,
      addPart_plain hname]
    rfl
  · rw [join, if_neg hdirectory, if_neg hname.ne_empty, parts_clean, parts_append hdirectory hname]

theorem parts_join_empty (directory : String) : parts (join directory "") = parts directory := by
  unfold join
  split
  · next hempty => rw [hempty]; rfl
  · rw [if_pos rfl, parts_clean]

section Joined

variable {directory name : String} (h : isAbsolute directory = true)
include h

theorem join_of_isAbsolute (hname : name ≠ "") :
    join directory name = clean (directory ++ "/" ++ name) := by
  rw [join, if_neg (ne_empty_of_isAbsolute h), if_neg hname]

theorem isAbsolute_join (name : String) : isAbsolute (join directory name) = true := by
  by_cases hname : name = ""
  · rw [join, if_neg (ne_empty_of_isAbsolute h), if_pos hname]
    exact isAbsolute_clean h
  · rw [join_of_isAbsolute h hname]
    refine isAbsolute_clean ?_
    rw [String.append_assoc, isAbsolute_append (ne_empty_of_isAbsolute h)]
    exact h

theorem absolute_join (hname : IsPlain name) (cwd : String) :
    absolute cwd (join directory name) = join directory name := by
  have habsolute := isAbsolute_join h name
  rw [absolute, if_pos habsolute, clean_of_isAbsolute habsolute, parts_join _ hname]
  rw [join_of_isAbsolute h hname.ne_empty, clean, if_pos, parts_append _ hname]
  · exact ne_empty_of_isAbsolute h
  · rw [String.append_assoc, isAbsolute_append (ne_empty_of_isAbsolute h)]
    exact h

end Joined

theorem join_ofParts {ps : List String} (hps : ∀ part ∈ ps, IsPlain part) {name : String}
    (hname : IsPlain name) : join (ofParts ps) name = ofParts (ps ++ [name]) := by
  have habsolute := isAbsolute_ofParts ps
  have hne := ne_empty_of_isAbsolute habsolute
  rw [join_of_isAbsolute habsolute hname.ne_empty, clean, if_pos, parts_append hne hname,
    parts_ofParts hps]
  rw [String.append_assoc, isAbsolute_append hne]
  exact habsolute

/-- A path is absolute in an absolute directory. -/
theorem isAbsolute_absolute {cwd : String} (h : isAbsolute cwd = true) (path : String) :
    isAbsolute (absolute cwd path) = true := by
  unfold absolute
  split
  · next hpath => exact isAbsolute_clean hpath
  · exact isAbsolute_join h path

theorem intercalate_concat {ps : List String} (hne : ps ≠ []) (last : String) :
    "/".intercalate (ps ++ [last]) = "/".intercalate ps ++ "/" ++ last := by
  induction ps with
  | nil => exact absurd rfl hne
  | cons first rest ih =>
      cases rest with
      | nil => simp [String.intercalate_cons_cons]
      | cons second rest =>
          rw [List.cons_append, List.cons_append, String.intercalate_cons_cons, ← List.cons_append,
            ih (by simp), String.intercalate_cons_cons]
          simp only [String.append_assoc]

theorem directory_append (above : String) {last : String} (h : '/' ∉ last.toList) :
    directory (above ++ "/" ++ last) = clean (above ++ "/") := by
  have hreverse : (above ++ "/" ++ last).toList.reverse =
      last.toList.reverse ++ '/' :: above.toList.reverse := by
    simp [String.toList_append]
  have hdrop : (last.toList.reverse ++ '/' :: above.toList.reverse).dropWhile (· ≠ '/') =
      '/' :: above.toList.reverse := by
    rw [List.dropWhile_append_of_pos]
    · simp
    · intro c hc
      have : c ≠ '/' := fun heq => h (heq ▸ List.mem_reverse.mp hc)
      simpa using this
  rw [directory, hreverse, hdrop]
  congr 1
  apply String.toList_inj.mp
  simp [String.toList_append]

theorem isAbsolute_directory {path : String} (h : isAbsolute path = true) :
    isAbsolute (directory path) = true := by
  unfold directory
  refine isAbsolute_clean ?_
  rw [isAbsolute, decide_eq_true_eq] at h ⊢
  rw [String.toList_ofList]
  change (path.toList.rdropWhile (· ≠ '/')).head? = some '/'
  obtain ⟨rest, hrest⟩ := List.rdropWhile_prefix (fun c => decide (c ≠ '/')) path.toList
  cases hkept : path.toList.rdropWhile (· ≠ '/') with
  | nil =>
      have hall := List.rdropWhile_eq_nil_iff.mp hkept '/' (List.mem_of_mem_head? h)
      simp at hall
  | cons c kept =>
      rw [hkept] at hrest
      rw [← hrest] at h
      exact h

/-- The directory of a path has all parts but the last. -/
theorem directory_ofParts {ps : List String} {last : String} (hps : ∀ part ∈ ps, IsPlain part)
    (hlast : '/' ∉ last.toList) : directory (ofParts (ps ++ [last])) = ofParts ps := by
  cases ps with
  | nil =>
      have hpath : ofParts ([] ++ [last]) = "" ++ "/" ++ last := by simp [ofParts]
      rw [hpath, directory_append "" hlast]
      rfl
  | cons first rest =>
      have hpath : ofParts (first :: rest ++ [last]) = ofParts (first :: rest) ++ "/" ++ last := by
        simp only [ofParts, intercalate_concat (List.cons_ne_nil first rest), String.append_assoc]
      have habove := isAbsolute_ofParts (first :: rest)
      have hslash : isAbsolute (ofParts (first :: rest) ++ "/") = true := by
        rw [isAbsolute_append (ne_empty_of_isAbsolute habove)]
        exact habove
      have hraw := rawParts_append (ofParts (first :: rest)) ""
      rw [String.append_empty] at hraw
      have hparts : parts (ofParts (first :: rest) ++ "/") = first :: rest := by
        rw [parts, hraw, hslash, ← habove, List.foldl_append]
        exact parts_ofParts hps
      rw [hpath, directory_append _ hlast, clean_of_isAbsolute hslash, hparts]

theorem parts_absolute {cwd path : String} (h : isAbsolute path = true) :
    parts (absolute cwd path) = parts path := by
  rw [absolute, if_pos h, parts_clean]

end ObjectLang.Path
