import Mathlib.Data.List.Nodup
import ObjectLang.Package.Checksum
import ObjectLang.Proofs.FileTrees
import ObjectLang.Proofs.Paths

/-! What the checksum of a directory tells. The bytes under the digest depend on what the directory holds
alone, in whatever order its files are listed, and a change of one file always changes them. But nothing
among them says where a path ends and where a content ends. So there are directories with different files
and the same bytes; in the first files that differ, such a border has moved. -/

namespace ObjectLang

theorem toList_loop_eq (bytes : ByteArray) (i : Nat) (done : List UInt8) :
    ByteArray.toList.loop bytes i done = done.reverse ++ bytes.data.toList.drop i := by
  fun_induction ByteArray.toList.loop bytes i done with
  | case1 i done hi ih =>
      have hlength : i < bytes.data.toList.length := hi
      have hbyte : bytes.get! i = bytes.data.toList[i] := getElem!_pos bytes.data i hlength
      rw [ih, hbyte, List.reverse_cons, List.append_assoc, List.drop_eq_getElem_cons hlength]
      rfl
  | case2 i done hi =>
      have hend : bytes.data.toList.length ≤ i := Nat.le_of_not_lt hi
      rw [List.drop_eq_nil_of_le hend, List.append_nil]

theorem toList_toUTF8 (s : String) : s.toUTF8.toList = s.toByteArray.data.toList :=
  toList_loop_eq s.toByteArray 0 []

theorem toList_toUTF8_inj {s t : String} (h : s.toUTF8.toList = t.toUTF8.toList) : s = t := by
  rw [toList_toUTF8, toList_toUTF8] at h
  exact String.toByteArray_inj.mp (ByteArray.ext (Array.toList_inj.mp h))

theorem ne_of_path_lt {p q : List String} (h : p < q) : p ≠ q := fun heq => List.lt_irrefl _ (heq ▸ h)

theorem path_lt_of_not_lt {p q : List String} (h : ¬ q < p) (hne : p ≠ q) : p < q :=
  List.not_le.mp fun hle => hne (List.le_antisymm (List.not_lt.mp h) hle)

namespace FileTree

/-- A walk goes by the lexicographic order of the paths. -/
theorem isBefore_iff {p q : List String} : isBefore p q = true ↔ ¬ q < p := by
  induction p generalizing q with
  | nil => exact iff_of_true rfl (List.not_lt_nil q)
  | cons a p ih =>
      cases q with
      | nil => exact iff_of_false Bool.false_ne_true fun h => h (List.nil_lt_cons a p)
      | cons b q =>
          rw [isBefore, List.cons_lt_cons_iff]
          by_cases hab : a = b
          · subst hab
            rw [if_pos rfl, ih, or_iff_right (String.lt_irrefl a), and_iff_right rfl]
          · have hba : b ≠ a := fun heq => hab heq.symm
            have horder : a < b ↔ ¬ b < a := by
              refine ⟨String.lt_asymm, fun hnot => String.not_le.mp fun hle => hba ?_⟩
              exact String.le_antisymm hle (String.not_lt.mp hnot)
            rw [if_neg hab, decide_eq_true_eq, horder, or_iff_left fun h => hba h.1]

/-- A tree as it is on a disk: no path is listed twice, and the parts of the paths are names. -/
structure Sound (tree : FileTree) : Prop where
  distinct : (tree.entries.map (·.1)).Nodup
  plain : ∀ e ∈ tree.entries, ∀ part ∈ e.1, Path.IsPlain part

variable {tree : FileTree} {above ps : List String} {text : String}

theorem fileBelow_eq_some {e : List String × Entry} :
    fileBelow above e = some (ps, text) ↔ ps ≠ [] ∧ e = (above ++ ps, .file text) := by
  obtain ⟨q, entry⟩ := e
  cases entry with
  | directory => exact ⟨nofun, nofun⟩
  | file content =>
      simp only [fileBelow, Option.ite_none_right_eq_some, Bool.and_eq_true, List.isPrefixOf_iff_prefix,
        decide_eq_true_eq, Option.some.injEq, Prod.mk.injEq, Entry.file.injEq]
      constructor
      · rintro ⟨⟨⟨rest, rfl⟩, hne⟩, hdrop, rfl⟩
        rw [List.drop_left] at hdrop
        subst hdrop
        exact ⟨fun hnil => hne (by rw [hnil, List.append_nil]), rfl, rfl⟩
      · rintro ⟨hne, rfl, rfl⟩
        exact ⟨⟨List.prefix_append _ _, by simpa using hne⟩, List.drop_left, rfl⟩

theorem Sound.mem_entries_iff (h : tree.Sound) :
    (ps, .file text) ∈ tree.entries ↔ tree.at? ps = some (.file text) := by
  refine ⟨fun hmem => ?_, mem_entries_of_at?_file⟩
  obtain ⟨before, after, hentries⟩ := List.append_of_mem hmem
  rw [at?_eq_file_iff, List.lookup_eq_some_iff]
  refine ⟨before, after, hentries, fun e he => ?_⟩
  have hdistinct := h.distinct
  rw [hentries, List.map_append, List.nodup_append] at hdistinct
  have hne := hdistinct.2.2 e.1 (List.mem_map_of_mem he) ps (by simp)
  simpa using hne.symm

theorem Sound.mem_filesBelow (h : tree.Sound) :
    (ps, text) ∈ tree.filesBelow above ↔ ps ≠ [] ∧ tree.at? (above ++ ps) = some (.file text) := by
  rw [filesBelow_eq, List.mem_mergeSort, List.mem_filterMap, ← h.mem_entries_iff]
  constructor
  · rintro ⟨e, he, hfile⟩
    obtain ⟨hne, rfl⟩ := fileBelow_eq_some.mp hfile
    exact ⟨hne, he⟩
  · rintro ⟨hne, he⟩
    exact ⟨_, he, fileBelow_eq_some.mpr ⟨hne, rfl⟩⟩

/-- The files below a directory ascend strictly by their paths. -/
theorem Sound.pairwise_filesBelow (h : tree.Sound) (above : List String) :
    (tree.filesBelow above).Pairwise fun f g => f.1 < g.1 := by
  have hdistinct : (tree.entries.filterMap (fileBelow above)).Pairwise fun f g => f.1 ≠ g.1 := by
    refine (List.pairwise_map.mp h.distinct).filterMap _ fun e e' hne f hf g hg heq => hne ?_
    obtain ⟨-, rfl⟩ := fileBelow_eq_some.mp hf
    obtain ⟨-, rfl⟩ := fileBelow_eq_some.mp hg
    exact congrArg (above ++ ·) heq
  have hsorted : (tree.filesBelow above).Pairwise fun f g => ¬ g.1 < f.1 := by
    rw [filesBelow_eq]
    refine (List.pairwise_mergeSort ?_ ?_ _).imp isBefore_iff.mp
    · intro f g k hfg hgk
      rw [isBefore_iff, List.not_lt] at *
      exact List.le_trans hfg hgk
    · intro f g
      rw [Bool.or_eq_true, isBefore_iff, isBefore_iff, List.not_lt, List.not_lt]
      exact List.le_total f.1 g.1
  have hperm := List.mergeSort_perm (tree.entries.filterMap (fileBelow above)) fun f g =>
    isBefore f.1 g.1
  have hapart := (hperm.pairwise_iff fun hne => Ne.symm hne).mpr hdistinct
  exact (hsorted.and hapart).imp fun hfg => path_lt_of_not_lt hfg.1 hfg.2

end FileTree

section Ascending

variable {β : Type} {xs ys : List (List String × β)}

/-- Lists that ascend strictly by their paths are the same if they have the same members. -/
theorem eq_of_mem_iff (hxs : xs.Pairwise fun f g => f.1 < g.1) (hys : ys.Pairwise fun f g => f.1 < g.1)
    (h : ∀ f, f ∈ xs ↔ f ∈ ys) : xs = ys := by
  have hne : ∀ f g : List String × β, f.1 < g.1 → f ≠ g := fun f g hfg heq =>
    ne_of_path_lt hfg (congrArg Prod.fst heq)
  have hperm := (List.perm_ext_iff_of_nodup (hxs.imp (hne _ _)) (hys.imp (hne _ _))).mpr h
  refine hperm.eq_of_pairwise (fun f g _ _ hfg hgf => ?_) hxs hys
  exact absurd (List.lt_trans hfg hgf) (List.lt_irrefl _)

/-- All of a list comes after a path. -/
theorem filter_of_forall_after {p : List String} (h : ∀ f ∈ xs, p < f.1) :
    xs.filter (fun f => decide (f.1 < p)) = [] ∧ xs.filter (fun f => decide (f.1 = p)) = [] ∧
      xs.filter (fun f => decide (p < f.1)) = xs := by
  refine ⟨List.filter_eq_nil_iff.mpr fun f hf => ?_, List.filter_eq_nil_iff.mpr fun f hf => ?_,
    List.filter_eq_self.mpr fun f hf => decide_eq_true (h f hf)⟩
  · rw [decide_eq_true_eq]
    exact fun hlt => List.lt_irrefl _ (List.lt_trans hlt (h f hf))
  · rw [decide_eq_true_eq]
    exact fun heq => List.lt_irrefl _ (heq ▸ h f hf)

/-- A list that ascends falls into what comes before a path, what stands at it and what comes after. -/
theorem eq_before_at_after (hxs : xs.Pairwise fun f g => f.1 < g.1) (p : List String) :
    xs = xs.filter (fun f => decide (f.1 < p)) ++ xs.filter (fun f => decide (f.1 = p)) ++
      xs.filter fun f => decide (p < f.1) := by
  induction xs with
  | nil => rfl
  | cons f xs ih =>
      obtain ⟨hf, hxs⟩ := List.pairwise_cons.mp hxs
      by_cases hbefore : f.1 < p
      · have hne : f.1 ≠ p := ne_of_path_lt hbefore
        have hnot : ¬ p < f.1 := fun hlt => List.lt_irrefl _ (List.lt_trans hbefore hlt)
        rw [List.filter_cons_of_pos (by exact decide_eq_true hbefore),
          List.filter_cons_of_neg (by exact mt of_decide_eq_true hne),
          List.filter_cons_of_neg (by exact mt of_decide_eq_true hnot), List.cons_append,
          List.cons_append, ← ih hxs]
      · by_cases hat : f.1 = p
        · obtain ⟨hnone, hnone', hall⟩ := filter_of_forall_after fun g hg => hat ▸ hf g hg
          have hnot : ¬ p < f.1 := hat ▸ List.lt_irrefl _
          rw [List.filter_cons_of_neg (by exact mt of_decide_eq_true hbefore),
            List.filter_cons_of_pos (by exact decide_eq_true hat),
            List.filter_cons_of_neg (by exact mt of_decide_eq_true hnot), hnone, hnone', hall]
          rfl
        · have hafter : p < f.1 := path_lt_of_not_lt hbefore (Ne.symm hat)
          obtain ⟨hnone, hnone', hall⟩ := @filter_of_forall_after _ (f :: xs) p
            (List.forall_mem_cons.mpr ⟨hafter, fun g hg => List.lt_trans hafter (hf g hg)⟩)
          rw [hnone, hnone', hall]
          rfl

theorem filter_at_eq (hxs : xs.Pairwise fun f g => f.1 < g.1) {f : List String × β} (hf : f ∈ xs) :
    xs.filter (fun g => decide (g.1 = f.1)) = [f] := by
  have hdistinct : (xs.map (·.1)).Nodup :=
    List.pairwise_map.mpr (hxs.imp ne_of_path_lt)
  refine eq_of_mem_iff (hxs.filter _) (List.pairwise_singleton _ _) fun g => ?_
  rw [List.mem_filter, decide_eq_true_eq, List.mem_singleton]
  constructor
  · rintro ⟨hg, heq⟩
    exact List.inj_on_of_nodup_map hdistinct hg hf heq
  · rintro rfl
    exact ⟨hf, rfl⟩

end Ascending

namespace Checksum

variable {tree tree' : FileTree} {directory directory' : String}

/-- A directory of a sound tree that counts. -/
structure Counts (tree : FileTree) (directory : String) : Prop where
  sound : tree.Sound
  there : tree.at? (Path.parts directory) = some .directory
  counted : (Path.parts directory).getLast? ≠ some skipped

/-- A path from a directory to something below it. -/
def Named (ps : List String) : Prop := ps ≠ [] ∧ ∀ part ∈ ps, Path.IsPlain part

/-- Two directories have the same files with the same contents, as far as they count. -/
def SameContent (tree : FileTree) (directory : String) (tree' : FileTree) (directory' : String) : Prop :=
  ∀ ps, isSkipped ps = false → ∀ content,
    (tree.at? (Path.parts directory ++ ps) = some (.file content) ↔
      tree'.at? (Path.parts directory' ++ ps) = some (.file content))

namespace Counts

variable (h : Counts tree directory)
include h

theorem files_eq : files tree directory =
    (tree.filesBelow (Path.parts directory)).filter fun f => !isSkipped f.1 := by
  simp only [files, h.there, if_neg h.counted]

theorem mem_files {ps : List String} {content : String} :
    (ps, content) ∈ files tree directory ↔
      isSkipped ps = false ∧ tree.at? (Path.parts directory ++ ps) = some (.file content) := by
  rw [h.files_eq, List.mem_filter, h.sound.mem_filesBelow, Bool.not_eq_true', and_comm]
  refine and_congr_right fun _ => and_iff_right_of_imp ?_
  rintro hfile rfl
  rw [List.append_nil, h.there] at hfile
  cases hfile

theorem pairwise_files : (files tree directory).Pairwise fun f g => f.1 < g.1 := by
  rw [h.files_eq]
  exact (h.sound.pairwise_filesBelow _).filter _

theorem named_of_mem_files {f : List String × String} (hf : f ∈ files tree directory) : Named f.1 := by
  obtain ⟨-, hfile⟩ := h.mem_files.mp hf
  constructor
  · intro hnil
    rw [hnil, List.append_nil, h.there] at hfile
    cases hfile
  · intro part hpart
    exact h.sound.plain _ (FileTree.mem_entries_of_at?_file hfile) part
      (List.mem_append_right _ hpart)

end Counts

theorem files_eq_iff (h : Counts tree directory) (h' : Counts tree' directory') :
    files tree directory = files tree' directory' ↔ SameContent tree directory tree' directory' := by
  constructor
  · intro heq ps hps content
    have hmem : (ps, content) ∈ files tree directory ↔ (ps, content) ∈ files tree' directory' := by
      rw [heq]
    rw [h.mem_files, h'.mem_files] at hmem
    simpa [hps] using hmem
  · intro hsame
    refine eq_of_mem_iff h.pairwise_files h'.pairwise_files fun f => ?_
    rw [h.mem_files, h'.mem_files]
    exact and_congr_right fun hps => hsame f.1 hps f.2

def pathBytes (ps : List String) : List UInt8 := ("/".intercalate ps).toUTF8.toList

theorem fileBytes_eq (f : List String × String) :
    fileBytes f = pathBytes f.1 ++ f.2.toUTF8.toList := rfl

theorem pathBytes_inj {ps qs : List String} (hps : Named ps) (hqs : Named qs)
    (h : pathBytes ps = pathBytes qs) : ps = qs := by
  have htext := congrArg Path.rawParts (toList_toUTF8_inj h)
  rwa [Path.rawParts_intercalate hps.1 fun part hpart => (hps.2 part hpart).no_slash,
    Path.rawParts_intercalate hqs.1 fun part hpart => (hqs.2 part hpart).no_slash] at htext

theorem fileBytes_ne_nil {f : List String × String} (hf : Named f.1) : fileBytes f ≠ [] := by
  intro h
  have hempty : pathBytes [""] = [] := by
    rw [pathBytes, toList_toUTF8]
    rfl
  have hnil : pathBytes f.1 = [] := (List.append_eq_nil_iff.mp h).1
  have htext := congrArg Path.rawParts (toList_toUTF8_inj (hnil.trans hempty.symm))
  rw [Path.rawParts_intercalate hf.1 fun part hpart => (hf.2 part hpart).no_slash] at htext
  have hpart := hf.2 "" (by rw [htext]; decide)
  exact hpart.ne_empty rfl

/-- One of two lists of bytes goes on where the other ends. -/
def GoesOn (xs ys : List UInt8) : Prop := xs ≠ ys ∧ (xs <+: ys ∨ ys <+: xs)

theorem goesOn_of_append_eq {xs ys rest rest' : List UInt8} (hne : xs ≠ ys)
    (h : xs ++ rest = ys ++ rest') : GoesOn xs ys :=
  ⟨hne, List.prefix_or_prefix_of_prefix (List.prefix_append xs rest) (h ▸ List.prefix_append ys rest')⟩

/-- Two files between which a border moved: the path of one goes on where that of the other ends, or the
paths are the same and the content of one goes on where that of the other ends. -/
def BorderMoved (f g : List String × String) : Prop :=
  GoesOn (pathBytes f.1) (pathBytes g.1) ∨
    (f.1 = g.1 ∧ GoesOn f.2.toUTF8.toList g.2.toUTF8.toList)

theorem borderMoved_of_append_eq {f g : List String × String} {rest rest' : List UInt8}
    (hf : Named f.1) (hg : Named g.1) (hne : f ≠ g)
    (h : fileBytes f ++ rest = fileBytes g ++ rest') : BorderMoved f g := by
  rw [fileBytes_eq, fileBytes_eq, List.append_assoc, List.append_assoc] at h
  by_cases hpath : f.1 = g.1
  · rw [hpath, List.append_cancel_left_eq] at h
    refine .inr ⟨hpath, goesOn_of_append_eq (fun hcontent => hne ?_) h⟩
    exact Prod.ext hpath (toList_toUTF8_inj hcontent)
  · exact .inl (goesOn_of_append_eq (fun hbytes => hpath (pathBytes_inj hf hg hbytes)) h)

/-- Of two lists one goes on where the other ends, or there are first members that differ. -/
theorem append_or_first_difference {α : Type} (xs ys : List α) :
    (∃ more, ys = xs ++ more) ∨ (∃ more, xs = ys ++ more) ∨
      ∃ before x y rest rest', x ≠ y ∧ xs = before ++ x :: rest ∧ ys = before ++ y :: rest' := by
  induction xs generalizing ys with
  | nil => exact .inl ⟨ys, rfl⟩
  | cons x xs ih =>
      cases ys with
      | nil => exact .inr (.inl ⟨x :: xs, rfl⟩)
      | cons y ys =>
          by_cases hxy : x = y
          · subst hxy
            rcases ih ys with ⟨more, rfl⟩ | ⟨more, rfl⟩ | ⟨before, a, b, rest, rest', hne, rfl, rfl⟩
            · exact .inl ⟨more, rfl⟩
            · exact .inr (.inl ⟨more, rfl⟩)
            · exact .inr (.inr ⟨x :: before, a, b, rest, rest', hne, rfl, rfl⟩)
          · exact .inr (.inr ⟨[], x, y, xs, ys, hxy, rfl, rfl⟩)

/-- No files can be added without adding bytes. -/
theorem eq_nil_of_flatMap_append {fs more : List (List String × String)}
    (hnamed : ∀ f ∈ more, Named f.1)
    (h : (fs ++ more).flatMap fileBytes = fs.flatMap fileBytes) : more = [] := by
  rw [List.flatMap_append, List.append_right_eq_self, List.flatMap_eq_nil_iff] at h
  exact List.eq_nil_iff_forall_not_mem.mpr fun f hf => fileBytes_ne_nil (hnamed f hf) (h f hf)

section Bytes

variable (h : Counts tree directory) (h' : Counts tree' directory')
  (hbytes : bytes tree directory = bytes tree' directory')
include h h' hbytes

/-- If the bytes are the same, the files are, or a border moved between the first that differ. -/
theorem files_eq_or_borderMoved : files tree directory = files tree' directory' ∨
    ∃ before f g rest rest', files tree directory = before ++ f :: rest ∧
      files tree' directory' = before ++ g :: rest' ∧ BorderMoved f g := by
  rw [bytes, bytes] at hbytes
  rcases append_or_first_difference (files tree directory) (files tree' directory') with
    ⟨more, hmore⟩ | ⟨more, hmore⟩ | ⟨before, f, g, rest, rest', hne, hfiles, hfiles'⟩
  · have hnamed : ∀ f ∈ more, Named f.1 := fun f hf =>
      h'.named_of_mem_files (hmore ▸ List.mem_append_right _ hf)
    rw [hmore] at hbytes
    rw [hmore, eq_nil_of_flatMap_append hnamed hbytes.symm, List.append_nil]
    exact .inl rfl
  · have hnamed : ∀ f ∈ more, Named f.1 := fun f hf =>
      h.named_of_mem_files (hmore ▸ List.mem_append_right _ hf)
    rw [hmore] at hbytes
    rw [hmore, eq_nil_of_flatMap_append hnamed hbytes, List.append_nil]
    exact .inl rfl
  · rw [hfiles, hfiles', List.flatMap_append, List.flatMap_append, List.append_cancel_left_eq,
      List.flatMap_cons, List.flatMap_cons] at hbytes
    have hf := h.named_of_mem_files (f := f) (hfiles ▸ List.mem_append_right _ List.mem_cons_self)
    have hg := h'.named_of_mem_files (f := g) (hfiles' ▸ List.mem_append_right _ List.mem_cons_self)
    exact .inr ⟨before, f, g, rest, rest', hfiles, hfiles', borderMoved_of_append_eq hf hg hne hbytes⟩

end Bytes

/-! ### Directories that differ in one file at most -/

/-- Two directories have the same files with the same contents, but for one path. -/
def SameContentBut (p : List String) (tree : FileTree) (directory : String) (tree' : FileTree)
    (directory' : String) : Prop :=
  ∀ ps, ps ≠ p → isSkipped ps = false → ∀ content,
    (tree.at? (Path.parts directory ++ ps) = some (.file content) ↔
      tree'.at? (Path.parts directory' ++ ps) = some (.file content))

section OneFile

variable {p : List String} (h : Counts tree directory) (h' : Counts tree' directory')
  (hsame : SameContentBut p tree directory tree' directory')
include h h' hsame

theorem filter_files_eq {keep : List String → Bool} (hkeep : keep p = false) :
    (files tree directory).filter (fun f => keep f.1) =
      (files tree' directory').filter fun f => keep f.1 := by
  refine eq_of_mem_iff (h.pairwise_files.filter _) (h'.pairwise_files.filter _) fun f => ?_
  rw [List.mem_filter, List.mem_filter]
  refine and_congr_left fun hf => ?_
  have hne : f.1 ≠ p := by
    rintro heq
    rw [heq, hkeep] at hf
    cases hf
  rw [h.mem_files, h'.mem_files]
  exact and_congr_right fun hps => hsame f.1 hne hps f.2

/-- The bytes of the files around the path cancel. -/
theorem flatMap_at_eq (hbytes : bytes tree directory = bytes tree' directory') :
    ((files tree directory).filter fun f => decide (f.1 = p)).flatMap fileBytes =
      ((files tree' directory').filter fun f => decide (f.1 = p)).flatMap fileBytes := by
  have hirrefl : decide (p < p) = false := decide_eq_false (List.lt_irrefl p)
  have hbefore := @filter_files_eq _ _ _ _ _ h h' hsame (fun q => decide (q < p)) hirrefl
  have hafter := @filter_files_eq _ _ _ _ _ h h' hsame (fun q => decide (p < q)) hirrefl
  have hsplit := congrArg (List.flatMap fileBytes) (eq_before_at_after h.pairwise_files p)
  have hsplit' := congrArg (List.flatMap fileBytes) (eq_before_at_after h'.pairwise_files p)
  rw [bytes, bytes] at hbytes
  have hall := hsplit.symm.trans (hbytes.trans hsplit')
  rw [hbefore, hafter, List.flatMap_append, List.flatMap_append, List.flatMap_append,
    List.flatMap_append] at hall
  exact List.append_cancel_left (List.append_cancel_right hall)

end OneFile

/-- A file is found again if the bytes of what stands at its path are. -/
theorem mem_files_of_flatMap_eq {p : List String} {content : String} (h : Counts tree directory)
    (h' : Counts tree' directory')
    (hbytes : ((files tree directory).filter fun f => decide (f.1 = p)).flatMap fileBytes =
      ((files tree' directory').filter fun f => decide (f.1 = p)).flatMap fileBytes)
    (hmem : (p, content) ∈ files tree directory) : (p, content) ∈ files tree' directory' := by
  rw [filter_at_eq h.pairwise_files hmem, List.flatMap_singleton] at hbytes
  cases hfound : (files tree' directory').filter fun f => decide (f.1 = p) with
  | nil =>
      rw [hfound] at hbytes
      exact absurd hbytes (fileBytes_ne_nil (h.named_of_mem_files hmem))
  | cons g rest =>
      obtain ⟨hg, hpath⟩ := List.mem_filter.mp (hfound ▸ List.mem_cons_self)
      obtain ⟨q, found⟩ := g
      obtain rfl : q = p := of_decide_eq_true hpath
      rw [filter_at_eq h'.pairwise_files hg, List.flatMap_singleton, fileBytes_eq, fileBytes_eq,
        List.append_cancel_left_eq] at hbytes
      obtain rfl : content = found := toList_toUTF8_inj hbytes
      exact hg

/-- **What the bytes under the checksum tell.** Directories with the same files have the same bytes and so
the same checksum. If the bytes are the same, the files are the same, too, or a border between paths and
contents has moved in the first files that differ; and they are the same if the directories differ in one
file at most, which may be changed, added or removed. -/
theorem bytes_and_content (h : Counts tree directory) (h' : Counts tree' directory') :
    (SameContent tree directory tree' directory' →
      bytes tree directory = bytes tree' directory' ∧
        ofDirectory tree directory = ofDirectory tree' directory') ∧
    (bytes tree directory = bytes tree' directory' →
      SameContent tree directory tree' directory' ∨
        ∃ before f g rest rest', files tree directory = before ++ f :: rest ∧
          files tree' directory' = before ++ g :: rest' ∧ BorderMoved f g) ∧
    ∀ p, SameContentBut p tree directory tree' directory' →
      bytes tree directory = bytes tree' directory' →
        SameContent tree directory tree' directory' := by
  refine ⟨fun hsame => ?_, fun hbytes => ?_, fun p hbut hbytes ps hps content => ?_⟩
  · have hfiles := (files_eq_iff h h').mpr hsame
    have hbytes : bytes tree directory = bytes tree' directory' := by rw [bytes, bytes, hfiles]
    exact ⟨hbytes, congrArg Sha256.hexDigest hbytes⟩
  · exact (files_eq_or_borderMoved h h' hbytes).imp_left (files_eq_iff h h').mp
  · by_cases hp : ps = p
    · subst hp
      have hflat := flatMap_at_eq h h' hbut hbytes
      have hmem : (ps, content) ∈ files tree directory ↔ (ps, content) ∈ files tree' directory' :=
        ⟨mem_files_of_flatMap_eq h h' hflat, mem_files_of_flatMap_eq h' h hflat.symm⟩
      rwa [h.mem_files, h'.mem_files, and_iff_right hps, and_iff_right hps] at hmem
    · exact hbut ps hp hps content

def oneFile (name content : String) : FileTree := ⟨[(["lib", name], .file content)]⟩

theorem parts_lib : Path.parts "/lib" = ["lib"] := by decide

theorem counts_oneFile {name : String} (content : String) (h : Path.IsPlain name) :
    Counts (oneFile name content) "/lib" where
  sound :=
    { distinct := List.nodup_singleton _
      plain := by
        intro e he part hpart
        obtain rfl := List.mem_singleton.mp he
        rcases List.mem_cons.mp hpart with rfl | hpart
        · decide
        · rwa [List.mem_singleton.mp hpart] }
  there := by
    rw [parts_lib]
    rfl
  counted := by
    rw [parts_lib]
    decide

theorem files_notes : files (oneFile "notes" "x") "/lib" = [(["notes"], "x")] := by decide +kernel

theorem files_note : files (oneFile "note" "sx") "/lib" = [(["note"], "sx")] := by decide +kernel

theorem bytes_notes_eq_bytes_note :
    bytes (oneFile "notes" "x") "/lib" = bytes (oneFile "note" "sx") "/lib" := by
  rw [bytes, bytes, files_notes, files_note]
  simp only [List.flatMap_singleton, fileBytes, toList_toUTF8]
  decide

theorem not_sameContent_notes_note :
    ¬ SameContent (oneFile "notes" "x") "/lib" (oneFile "note" "sx") "/lib" := by
  intro hsame
  have hfiles := (files_eq_iff (counts_oneFile "x" (by decide)) (counts_oneFile "sx" (by decide))).mpr
    hsame
  rw [files_notes, files_note] at hfiles
  exact absurd hfiles (by decide)

/-- Directories with different files and the same bytes. -/
theorem bytes_of_other_content :
    Counts (oneFile "notes" "x") "/lib" ∧ Counts (oneFile "note" "sx") "/lib" ∧
      bytes (oneFile "notes" "x") "/lib" = bytes (oneFile "note" "sx") "/lib" ∧
      ¬ SameContent (oneFile "notes" "x") "/lib" (oneFile "note" "sx") "/lib" :=
  ⟨counts_oneFile "x" (by decide), counts_oneFile "sx" (by decide), bytes_notes_eq_bytes_note,
    not_sameContent_notes_note⟩

/-- Another tree in which the directory has the same file. -/
def withOthers : FileTree :=
  ⟨[(["lib"], .directory), (["lib", "notes"], .file "x"), (["main.json"], .file "")]⟩

theorem bytes_and_content_notes :
    (SameContent (oneFile "notes" "x") "/lib" withOthers "/lib" ∧
      bytes (oneFile "notes" "x") "/lib" = bytes withOthers "/lib") ∧
    (bytes (oneFile "notes" "x") "/lib" = bytes (oneFile "note" "sx") "/lib" ∧
      ∃ before f g rest rest', files (oneFile "notes" "x") "/lib" = before ++ f :: rest ∧
        files (oneFile "note" "sx") "/lib" = before ++ g :: rest' ∧ BorderMoved f g) ∧
    SameContentBut ["notes"] (oneFile "notes" "x") "/lib" (oneFile "notes" "y") "/lib" ∧
      bytes (oneFile "notes" "x") "/lib" ≠ bytes (oneFile "notes" "y") "/lib" := by
  have hnotes := counts_oneFile "x" (show Path.IsPlain "notes" by decide)
  have hchanged := counts_oneFile "y" (show Path.IsPlain "notes" by decide)
  have hnote := counts_oneFile "sx" (show Path.IsPlain "note" by decide)
  have hothers : Counts withOthers "/lib" :=
    ⟨⟨by decide, by decide⟩, by decide, by decide⟩
  have hsame : SameContent (oneFile "notes" "x") "/lib" withOthers "/lib" :=
    (files_eq_iff hnotes hothers).mp (by decide +kernel)
  have hbut : SameContentBut ["notes"] (oneFile "notes" "x") "/lib" (oneFile "notes" "y") "/lib" := by
    intro ps hps _ content
    have hne : (["lib"] ++ ps == ["lib", "notes"]) = false := by simpa using hps
    rw [parts_lib, FileTree.at?_eq_file_iff, FileTree.at?_eq_file_iff, oneFile, oneFile,
      List.lookup_cons, List.lookup_cons, hne]
  have hmoved := (bytes_and_content hnotes hnote).2.1 bytes_notes_eq_bytes_note
  refine ⟨⟨hsame, ((bytes_and_content hnotes hothers).1 hsame).1⟩,
    ⟨bytes_notes_eq_bytes_note, hmoved.resolve_left not_sameContent_notes_note⟩, hbut, fun hbytes => ?_⟩
  have hfound := (((bytes_and_content hnotes hchanged).2.2 ["notes"] hbut hbytes) ["notes"] (by decide)
    "x").mp (by decide)
  exact absurd hfound (by decide)

end Checksum

end ObjectLang
