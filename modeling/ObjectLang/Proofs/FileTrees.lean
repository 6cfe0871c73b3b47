import Mathlib.Data.List.Basic
import ObjectLang.Workspace.FileTree

/-! What stands in a file tree after a change. Listing directories adds directories only, a write
changes one file, and a tree that adds to another one keeps what stands there and puts new files into
new directories only. -/

namespace ObjectLang.FileTree

variable {tree old new : FileTree} {p q : List String}

theorem at?_eq_none_iff : tree.at? q = none ↔ q ≠ [] ∧ ∀ e ∈ tree.entries, ¬ q <+: e.1 := by
  have hlookup : (∀ e ∈ tree.entries, ¬ q <+: e.1) → tree.entries.lookup q = none := by
    intro h
    rw [List.lookup_eq_none_iff]
    intro e he
    have hne : q ≠ e.1 := fun heq => h e he (heq ▸ List.prefix_refl q)
    simpa using hne
  unfold at?
  constructor
  · intro h
    split at h
    · cases h
    · simpa using h
  · rintro ⟨hne, h⟩
    rw [hlookup h]
    simpa [hne] using h

theorem at?_eq_file_iff {text : String} :
    tree.at? q = some (.file text) ↔ tree.entries.lookup q = some (.file text) := by
  unfold at?
  cases tree.entries.lookup q with
  | some e => rfl
  | none => simp

/-- Nothing stands below a path at which nothing stands. -/
theorem at?_eq_none_below (hpq : p <+: q) (h : tree.at? p = none) : tree.at? q = none := by
  rw [at?_eq_none_iff] at h ⊢
  refine ⟨?_, fun e he hqe => h.2 e he (hpq.trans hqe)⟩
  rintro rfl
  exact h.1 (List.prefix_nil.mp hpq)

theorem stat_eq_ok_iff {path : String} {e : Entry} :
    tree.stat path = .ok e ↔ tree.at? (Path.parts path) = some e := by
  unfold stat find
  dsimp only
  cases tree.at? (Path.parts path) with
  | none => exact ⟨nofun, nofun⟩
  | some found => simp [Except.mapError]

theorem at?_eq_none_of_exists? {path : String} (h : tree.exists? path = false) :
    tree.at? (Path.parts path) = none := by
  unfold exists? find at h
  cases hat : tree.at? (Path.parts path) with
  | none => rfl
  | some e => simp [hat] at h

theorem mem_entries_of_at?_file {text : String} (h : tree.at? q = some (.file text)) :
    (q, .file text) ∈ tree.entries := by
  rw [at?_eq_file_iff, List.lookup_eq_some_iff] at h
  obtain ⟨before, after, hentries, -⟩ := h
  simp [hentries]

theorem isFile_eq_of_at?_eq {path : String}
    (h : new.at? (Path.parts path) = tree.at? (Path.parts path)) :
    new.isFile path = tree.isFile path := by
  unfold isFile find
  dsimp only
  rw [h]
  cases tree.at? (Path.parts path) with
  | some e => rfl
  | none => cases new.isBlocked _ <;> cases tree.isBlocked _ <;> rfl

/-- A tree with the same entry at a path, and below it one more path, has a directory there if nothing
was there. -/
theorem at?_eq_of_lookup_eq (hlookup : new.entries.lookup q = tree.entries.lookup q)
    (hbelow : (∃ e ∈ new.entries, q <+: e.1) ↔ q <+: p ∨ ∃ e ∈ tree.entries, q <+: e.1) :
    new.at? q = if tree.at? q = none ∧ q <+: p then some .directory else tree.at? q := by
  have hany : new.entries.any (fun e => q.isPrefixOf e.1) =
      (q.isPrefixOf p || tree.entries.any fun e => q.isPrefixOf e.1) := by
    rw [Bool.eq_iff_iff]
    simpa using hbelow
  unfold at?
  rw [hlookup, hany]
  cases tree.entries.lookup q with
  | some e => simp
  | none =>
      by_cases hpre : q <+: p
      · simp [hpre]
      · have hfalse : q.isPrefixOf p = false := by
          rw [Bool.eq_false_iff]
          simpa using hpre
        rw [hfalse, Bool.false_or]
        simp [hpre]

/-- The tree with a directory listed, unless there is an entry. -/
def listDirectory (tree : FileTree) (above : List String) : FileTree :=
  match tree.entries.lookup above with
  | some _ => tree
  | none => ⟨(above, .directory) :: tree.entries⟩

theorem insertDirectories_eq (tree : FileTree) (ps : List String) :
    tree.insertDirectories ps = (parents ps ++ [ps]).foldl listDirectory tree := rfl

theorem at?_listDirectory (tree : FileTree) (above : List String) :
    (tree.listDirectory above).at? q =
      if tree.at? q = none ∧ q <+: above then some .directory else tree.at? q := by
  unfold listDirectory
  cases hlookup : tree.entries.lookup above with
  | some e =>
      have habove : tree.at? above ≠ none := by simp [at?, hlookup]
      rw [if_neg fun h => habove (at?_eq_none_below h.2 h.1)]
  | none =>
      by_cases hq : q = above
      · subst hq
        have hdirectory : tree.at? q = none ∨ tree.at? q = some .directory := by
          unfold at?
          rw [hlookup]
          exact (em _).symm.imp (fun h => if_neg h) (fun h => if_pos h)
        have hlisted : (⟨(q, .directory) :: tree.entries⟩ : FileTree).at? q = some .directory := by
          simp [at?]
        rcases hdirectory with h | h <;> simp [h, hlisted]
      · refine at?_eq_of_lookup_eq ?_ (by simp)
        rw [List.lookup_cons, show (q == above) = false by simpa using hq]

theorem at?_foldl_listDirectory (listed : List (List String)) (tree : FileTree) :
    (listed.foldl listDirectory tree).at? q =
      if tree.at? q = none ∧ ∃ above ∈ listed, q <+: above then some .directory
      else tree.at? q := by
  induction listed generalizing tree with
  | nil => simp
  | cons above listed ih =>
      rw [List.foldl_cons, ih, at?_listDirectory]
      by_cases hnone : tree.at? q = none <;> by_cases habove : q <+: above <;>
        simp [hnone, habove]

theorem prefix_parents_iff {ps : List String} :
    (∃ above ∈ parents ps ++ [ps], q <+: above) ↔ q <+: ps := by
  constructor
  · rintro ⟨above, habove, hq⟩
    rcases List.mem_append.mp habove with habove | habove
    · obtain ⟨n, -, rfl⟩ := List.mem_map.mp habove
      exact hq.trans (List.take_prefix n ps)
    · exact List.mem_singleton.mp habove ▸ hq
  · exact fun hq => ⟨ps, by simp, hq⟩

/-- Listing directories makes directories of the paths above at which nothing stands. -/
theorem at?_insertDirectories (tree : FileTree) (ps : List String) :
    (tree.insertDirectories ps).at? q =
      if tree.at? q = none ∧ q <+: ps then some .directory else tree.at? q := by
  rw [insertDirectories_eq, at?_foldl_listDirectory]
  simp only [prefix_parents_iff]

/-- Listing directories puts directories in front of the entries. -/
theorem entries_insertDirectories (tree : FileTree) (ps : List String) :
    ∃ listed, (tree.insertDirectories ps).entries = listed ++ tree.entries ∧
      ∀ e ∈ listed, e.2 = .directory := by
  rw [insertDirectories_eq]
  generalize parents ps ++ [ps] = all
  induction all generalizing tree with
  | nil => exact ⟨[], rfl, nofun⟩
  | cons above all ih =>
      rw [List.foldl_cons, listDirectory]
      cases tree.entries.lookup above with
      | some e => exact ih tree
      | none =>
          obtain ⟨listed, hentries, hlisted⟩ := ih ⟨(above, .directory) :: tree.entries⟩
          refine ⟨listed ++ [(above, .directory)], by simp [hentries], fun e he => ?_⟩
          rcases List.mem_append.mp he with he | he
          · exact hlisted e he
          · rw [List.mem_singleton.mp he]

theorem makeDirectories_eq_ok {path : String} (h : tree.makeDirectories path = .ok new) :
    new = tree.insertDirectories (Path.parts path) := by
  unfold makeDirectories at h
  dsimp only at h
  split at h
  · cases h
  · cases h
    rfl

theorem at?_insert_self (tree : FileTree) (p : List String) (e : Entry) :
    (tree.insert p e).at? p = some e := by
  simp [insert, at?]

theorem at?_insert_of_ne (hne : q ≠ p) (e : Entry) :
    (tree.insert p e).at? q =
      if tree.at? q = none ∧ q <+: p then some .directory else tree.at? q := by
  have hfilter : ∀ entries : List (List String × Entry),
      (entries.filter fun e => decide (e.1 ≠ p)).lookup q = entries.lookup q := by
    intro entries
    induction entries with
    | nil => rfl
    | cons first rest ih =>
        by_cases hp : first.1 = p
        · rw [List.filter_cons_of_neg (by simpa using hp), ih, List.lookup_cons,
            show (q == first.1) = false by simpa [hp] using hne]
        · rw [List.filter_cons_of_pos (by simpa using hp), List.lookup_cons, List.lookup_cons, ih]
  refine at?_eq_of_lookup_eq ?_ ?_
  · rw [insert, List.lookup_cons, show (q == p) = false by simpa using hne, hfilter]
  · simp only [insert, List.mem_cons, List.mem_filter, decide_eq_true_eq]
    constructor
    · rintro ⟨e', rfl | ⟨he', -⟩, hq⟩
      · exact .inl hq
      · exact .inr ⟨e', he', hq⟩
    · rintro (hq | ⟨e', he', hq⟩)
      · exact ⟨(p, e), .inl rfl, hq⟩
      · by_cases hp : e'.1 = p
        · exact ⟨(p, e), .inl rfl, hp ▸ hq⟩
        · exact ⟨e', .inr ⟨he', hp⟩, hq⟩

/-- One tree adds to another: whatever stood there still does, and a file that did not is in a
directory that did not. -/
structure Adds (old new : FileTree) : Prop where
  keeps : ∀ {q e}, old.at? q = some e → new.at? q = some e
  fresh : ∀ {q text}, new.at? q = some (.file text) →
    old.at? q = some (.file text) ∨ old.at? q.dropLast = none

namespace Adds

theorem refl (tree : FileTree) : Adds tree tree := ⟨id, .inl⟩

theorem none_of_none (h : Adds old new) (hnew : new.at? q = none) : old.at? q = none := by
  cases hold : old.at? q with
  | none => rfl
  | some e => rw [h.keeps hold] at hnew; cases hnew

theorem trans {first second third : FileTree} (h₁ : Adds first second) (h₂ : Adds second third) :
    Adds first third where
  keeps h := h₂.keeps (h₁.keeps h)
  fresh h := by
    rcases h₂.fresh h with h | h
    · exact h₁.fresh h
    · exact .inr (h₁.none_of_none h)

/-- In a directory that was there, the files are the ones that were there. -/
theorem file_iff (h : Adds old new) {q : List String} {text : String}
    (hdirectory : old.at? q.dropLast ≠ none) :
    new.at? q = some (.file text) ↔ old.at? q = some (.file text) :=
  ⟨fun hnew => (h.fresh hnew).resolve_right hdirectory, h.keeps⟩

theorem insertDirectories (h : Adds old tree) (ps : List String) :
    Adds old (tree.insertDirectories ps) where
  keeps hq := by
    rw [at?_insertDirectories, h.keeps hq]
    simp
  fresh hq := by
    rw [at?_insertDirectories] at hq
    split at hq
    · cases hq
    · exact h.fresh hq

theorem insert (h : Adds old tree) (hp : old.at? p.dropLast = none) (text : String) :
    Adds old (tree.insert p (.file text)) where
  keeps {q e} hq := by
    have hne : q ≠ p := by
      rintro rfl
      rw [at?_eq_none_below (List.dropLast_prefix q) hp] at hq
      cases hq
    rw [at?_insert_of_ne hne, h.keeps hq]
    simp
  fresh {q text'} hq := by
    by_cases hqp : q = p
    · exact .inr (hqp ▸ hp)
    · rw [at?_insert_of_ne hqp] at hq
      split at hq
      · cases hq
      · exact h.fresh hq

end Adds

/-! ### Writes -/

def fileBelow (above : List String) (e : List String × Entry) : Option (List String × String) :=
  match e.2 with
  | .file content =>
    if above.isPrefixOf e.1 && e.1 ≠ above then some (e.1.drop above.length, content) else none
  | .directory => none

theorem filesBelow_eq (tree : FileTree) (above : List String) :
    tree.filesBelow above =
      (tree.entries.filterMap (fileBelow above)).mergeSort fun a b => isBefore a.1 b.1 := rfl

theorem fileBelow_eq_none {above : List String} {e : List String × Entry}
    (h : e.2 ≠ .directory → ¬ above <+: e.1) : fileBelow above e = none := by
  unfold fileBelow
  split
  · next hfile => simp [h (by simp [hfile])]
  · rfl

/-- A file can be written into a directory that is there, unless its path leads to a directory. -/
theorem exists_write {path : String} (content : String)
    (habove : tree.at? (Path.parts path).dropLast = some .directory)
    (hfree : tree.at? (Path.parts path) ≠ some .directory) :
    ∃ new, tree.write path content = .ok new := by
  unfold write
  dsimp only
  cases hplace : tree.at? (Path.parts path) with
  | none =>
      rw [habove]
      exact ⟨_, rfl⟩
  | some e =>
      cases e with
      | directory => exact absurd hplace hfree
      | file text => exact ⟨_, rfl⟩

section Write

variable {path content : String} (h : tree.write path content = .ok new)
include h

/-- A write puts the file into the tree, at most after listing the directories above it, which are
there. -/
theorem write_eq_ok : ∃ made : FileTree, new = made.insert (Path.parts path) (.file content) ∧
    (∀ q, made.at? q = tree.at? q) ∧
    (∃ listed, made.entries = listed ++ tree.entries ∧ ∀ e ∈ listed, e.2 = .directory) ∧
    tree.at? (Path.parts path) ≠ some .directory ∧
    ∀ q, q <+: Path.parts path → q ≠ Path.parts path → tree.at? q ≠ none := by
  unfold write at h
  dsimp only at h
  split at h
  · cases h
  · next text hfile =>
      cases h
      refine ⟨tree, rfl, fun _ => rfl, ⟨[], rfl, nofun⟩, by simp [hfile], fun q hq _ hnone => ?_⟩
      rw [at?_eq_none_below hq hnone] at hfile
      cases hfile
  · next hnew =>
      split at h
      · next hdirectory =>
          cases h
          have habove : ∀ q, q <+: (Path.parts path).dropLast → tree.at? q ≠ none := by
            intro q hq hnone
            rw [at?_eq_none_below hq hnone] at hdirectory
            cases hdirectory
          refine ⟨_, rfl, fun q => ?_, entries_insertDirectories _ _, by simp [hnew], ?_⟩
          · rw [at?_insertDirectories, if_neg fun hq => habove q hq.2 hq.1]
          · intro q hq hne
            rcases List.eq_nil_or_concat (Path.parts path) with hnil | ⟨ps, last, hconcat⟩
            · rw [hnil] at hq hne
              exact absurd (List.prefix_nil.mp hq) hne
            · rw [List.concat_eq_append] at hconcat
              rw [hconcat] at hq hne
              refine habove q ?_
              rw [hconcat, List.dropLast_concat]
              exact (List.prefix_concat_iff.mp hq).resolve_left hne
      · cases h
      · cases h

/-- A write changes the one file. -/
theorem at?_write : new.at? q =
    if q = Path.parts path then some (.file content) else tree.at? q := by
  obtain ⟨made, rfl, hmade, -, -, habove⟩ := write_eq_ok h
  split
  · next hq =>
      rw [hq]
      exact at?_insert_self _ _ _
  · next hq =>
      rw [at?_insert_of_ne hq, hmade, if_neg]
      exact fun hnone => habove q hnone.2 hq hnone.1

theorem mem_entries_of_write {text : String} (hmem : (q, .file text) ∈ new.entries) :
    (q, .file text) ∈ tree.entries ∨ q = Path.parts path := by
  obtain ⟨made, rfl, -, ⟨listed, hentries, hlisted⟩, -⟩ := write_eq_ok h
  rcases List.mem_cons.mp hmem with heq | hmem
  · exact .inr (Prod.mk.inj heq).1
  · have hmade := List.mem_of_mem_filter hmem
    rw [hentries, List.mem_append] at hmade
    rcases hmade with hmade | hmade
    · cases hlisted _ hmade
    · exact .inl hmade

/-- A write does not change the files below a directory that is not above it. -/
theorem filesBelow_write {above : List String} (habove : ¬ above <+: Path.parts path) :
    new.filesBelow above = tree.filesBelow above := by
  obtain ⟨made, rfl, -, ⟨listed, hentries, hlisted⟩, -⟩ := write_eq_ok h
  have hnone : ∀ e, e.1 = Path.parts path → fileBelow above e = none := by
    intro e he
    refine fileBelow_eq_none fun _ hpre => habove (he ▸ hpre)
  have hkept : (made.entries.filter fun e => decide (e.1 ≠ Path.parts path)).filterMap
      (fileBelow above) = made.entries.filterMap (fileBelow above) := by
    rw [List.filterMap_filter]
    refine List.filterMap_congr fun e _ => ?_
    by_cases he : e.1 = Path.parts path
    · simp [he, hnone e he]
    · simp [he]
  have hfront : listed.filterMap (fileBelow above) = [] :=
    List.filterMap_eq_nil_iff.mpr fun e he => fileBelow_eq_none fun hfile => by
      rw [hlisted e he] at hfile
      exact absurd hfile nofun
  rw [filesBelow_eq, filesBelow_eq, insert, List.filterMap_cons_none (hnone _ rfl), hkept, hentries,
    List.filterMap_append, hfront, List.nil_append]

end Write

end ObjectLang.FileTree
