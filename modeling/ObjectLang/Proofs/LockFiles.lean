import Mathlib.Data.List.Nodup
import ObjectLang.Package.Install
import ObjectLang.Proofs.FileTrees
import ObjectLang.Proofs.NormalTexts
import ObjectLang.Proofs.WrittenRecords

/-! The packages of lock files: their order, when they are the ones that were resolved, and what is read
back of a lock file that was written. -/

namespace ObjectLang

theorem LockedPackage.normalize_normalize (p : LockedPackage) : p.normalize.normalize = p.normalize := by
  simp only [normalize, Text.packageName_packageName, Text.trim_trim]

namespace Lockfile

variable {packages other : List LockedPackage}

theorem sortByName_perm (packages : List LockedPackage) : (sortByName packages).Perm packages :=
  List.mergeSort_perm _ _

theorem decide_name_le_trans (a b c : LockedPackage) (hab : decide (a.name ≤ b.name) = true)
    (hbc : decide (b.name ≤ c.name) = true) : decide (a.name ≤ c.name) = true :=
  decide_eq_true (String.le_trans (of_decide_eq_true hab) (of_decide_eq_true hbc))

theorem decide_name_le_total (a b : LockedPackage) :
    (decide (a.name ≤ b.name) || decide (b.name ≤ a.name)) = true := by
  rw [Bool.or_eq_true]
  exact (String.le_total a.name b.name).imp decide_eq_true decide_eq_true

theorem pairwise_sortByName (packages : List LockedPackage) :
    (sortByName packages).Pairwise fun a b => a.name ≤ b.name :=
  (List.pairwise_mergeSort decide_name_le_trans decide_name_le_total packages).imp of_decide_eq_true

theorem sortByName_of_pairwise (h : packages.Pairwise fun a b => a.name ≤ b.name) :
    sortByName packages = packages :=
  List.mergeSort_of_pairwise (h.imp decide_eq_true)

/-- In a list with distinct names a package is known by its name. -/
theorem eq_of_name_eq (h : (packages.map (·.name)).Nodup) {p q : LockedPackage} (hp : p ∈ packages)
    (hq : q ∈ packages) (hname : p.name = q.name) : p = q :=
  List.inj_on_of_nodup_map h hp hq hname

/-- Packages with distinct names have one order. -/
theorem sortByName_congr (h : (packages.map (·.name)).Nodup) (hperm : other.Perm packages) :
    sortByName other = sortByName packages := by
  refine List.Perm.eq_of_pairwise ?_ (pairwise_sortByName other) (pairwise_sortByName packages)
    ((sortByName_perm other).trans (hperm.trans (sortByName_perm packages).symm))
  intro p q hp hq hpq hqp
  refine eq_of_name_eq h ?_ ((sortByName_perm packages).mem_iff.mp hq) (String.le_antisymm hpq hqp)
  exact hperm.mem_iff.mp ((sortByName_perm other).mem_iff.mp hp)

theorem nodup_names_sortByName (h : (packages.map (·.name)).Nodup) :
    ((sortByName packages).map (·.name)).Nodup :=
  ((sortByName_perm packages).map _).nodup_iff.mpr h

/-- The names of sorted packages ascend strictly if they are distinct. -/
theorem names_sortByName_lt (h : (packages.map (·.name)).Nodup) :
    ((sortByName packages).map (·.name)).Pairwise (· < ·) := by
  have hle : ((sortByName packages).map (·.name)).Pairwise (· ≤ ·) :=
    List.pairwise_map.mpr (pairwise_sortByName packages)
  exact (hle.and (nodup_names_sortByName h)).imp fun hab =>
    String.not_le.mp fun hba => hab.2 (String.le_antisymm hab.1 hba)

theorem eraseDups_of_nodup {α : Type} [BEq α] [LawfulBEq α] {l : List α} (h : l.Nodup) :
    l.eraseDups = l := by
  induction l with
  | nil => rfl
  | cons a l ih =>
      obtain ⟨ha, hl⟩ := List.nodup_cons.mp h
      rw [List.eraseDups_cons, List.filter_eq_self.mpr, ih hl]
      intro b hb
      have hne : b ≠ a := fun heq => ha (heq ▸ hb)
      simpa using hne

theorem find?_name_eq_some (h : (packages.map (·.name)).Nodup) {p : LockedPackage}
    (hp : p ∈ packages) : packages.find? (fun q => decide (q.name = p.name)) = some p := by
  cases hfind : packages.find? fun q => decide (q.name = p.name) with
  | none => exact absurd (List.find?_eq_none.mp hfind p hp) (by simp)
  | some q =>
      have hname : q.name = p.name := by simpa using List.find?_some hfind
      rw [eq_of_name_eq h (List.mem_of_find?_eq_some hfind) hp hname]

/-- Packages do not differ from a lock file that has just them. -/
theorem differsFrom_eq_false {l : Lockfile} (h : (packages.map (·.name)).Nodup)
    (hl : l.packages = packages) : l.differsFrom packages = false := by
  have hreverse : ((packages.reverse).map (·.name)).Nodup := by
    rw [List.map_reverse, List.nodup_reverse]
    exact h
  have hfind : ∀ p ∈ packages, packages.reverse.find? (fun q => decide (q.name = p.name)) = some p :=
    fun p hp => find?_name_eq_some hreverse (List.mem_reverse.mpr hp)
  rw [differsFrom, hl, eraseDups_of_nodup h]
  simpa using hfind

/-- A lock file from which packages do not differ has all of them. -/
theorem subset_of_differsFrom {l : Lockfile}
    (h : l.differsFrom packages = false) : packages ⊆ l.packages := by
  intro p hp
  have hfind : ∀ q ∈ packages, l.packages.reverse.find? (fun r => decide (r.name = q.name)) = some q := by
    simpa [differsFrom] using (Bool.or_eq_false_iff.mp h).2
  exact List.mem_reverse.mp (List.mem_of_find?_eq_some (hfind p hp))

/-- The packages of a draft are those of the lock file if they are normal and in order. -/
theorem packages_normalize {d : Draft} (hentries : d.entries = packages.map some)
    (hnormal : ∀ p ∈ packages, p.normalize = p)
    (hsorted : packages.Pairwise fun a b => a.name ≤ b.name) : d.normalize.packages = packages := by
  have hmap : packages.map LockedPackage.normalize = packages :=
    (List.map_congr_left hnormal).trans (List.map_id _)
  have hsome : (packages.map some).reduceOption = packages := by
    change (packages.map some).filterMap id = packages
    rw [List.filterMap_map, Function.id_comp, List.filterMap_some]
  rw [Draft.normalize, hentries]
  dsimp only
  rw [hsome, hmap]
  exact sortByName_of_pairwise hsorted

/-- A lock file in its normal form; its date may be any text. -/
structure IsNormal (l : Lockfile) : Prop where
  root : Text.packageName l.root = l.root
  tool : Text.trim l.tool = l.tool
  packages : ∀ p ∈ l.packages, p.normalize = p
  sorted : l.packages.Pairwise fun a b => a.name ≤ b.name

theorem isNormal_normalize (d : Draft) : d.normalize.IsNormal where
  root := Text.packageName_packageName d.root
  tool := Text.trim_trim d.tool
  packages p hp := by
    obtain ⟨q, -, rfl⟩ := List.mem_map.mp ((sortByName_perm _).mem_iff.mp hp)
    exact q.normalize_normalize
  sorted := pairwise_sortByName _

/-- Packages of which one is not normal differ from those of any lock file in its normal form. -/
theorem IsNormal.differsFrom {l : Lockfile} (h : l.IsNormal) {p : LockedPackage} (hp : p ∈ packages)
    (hother : p.normalize ≠ p) : l.differsFrom packages = true := by
  cases hsame : l.differsFrom packages with
  | true => rfl
  | false => exact absurd (h.packages p (subset_of_differsFrom hsame hp)) hother

theorem IsNormal.normalize_draft {l : Lockfile} (h : l.IsNormal) : l.draft.normalize = l := by
  have hpackages : l.draft.normalize.packages = l.packages :=
    packages_normalize rfl h.packages h.sorted
  change ({ l with
    root := Text.packageName l.root
    tool := Text.trim l.tool
    packages := l.draft.normalize.packages } : Lockfile) = l
  rw [h.root, h.tool, hpackages]

/-- A lock file in its normal form is written as it is. -/
theorem IsNormal.finish_draft {l : Lockfile} (h : l.IsNormal) (hdate : l.generated ≠ "")
    (now : String) : l.draft.finish l.path now = l := by
  have hdated : l.draft.generated ≠ "" := hdate
  rw [Draft.finish, if_neg hdated]
  exact h.normalize_draft

@[simp] theorem draft_root (l : Lockfile) : l.draft.root = l.root := rfl

@[simp] theorem finish_path (d : Draft) (path now : String) : (d.finish path now).path = path := rfl

@[simp] theorem finish_root (d : Draft) (path now : String) :
    (d.finish path now).root = Text.packageName d.root := rfl

theorem write_eq_ok {d : Draft} {tree files : FileTree} {cwd now path : String} {written : Lockfile}
    (hne : path ≠ "") (hplace : Path.absolute cwd path = path)
    (h : d.write tree cwd now path = .ok (written, files)) :
    tree.write path (d.finish path now).record.text = .ok files := by
  simp only [Draft.write, if_neg hne, hplace] at h
  cases hwrite : tree.write path (d.finish path now).record.text with
  | error e =>
      rw [hwrite] at h
      cases h
  | ok files' =>
      rw [hwrite] at h
      cases h
      rfl

/-- A draft is written wherever there is a directory for it. -/
theorem exists_write {d : Draft} {tree : FileTree} {cwd path : String} (now : String) (hne : path ≠ "")
    (hplace : Path.absolute cwd path = path)
    (habove : tree.at? (Path.parts path).dropLast = some .directory)
    (hfree : tree.at? (Path.parts path) ≠ some .directory) :
    ∃ files, d.write tree cwd now path = .ok (d.finish path now, files) := by
  obtain ⟨files, hwrite⟩ := FileTree.exists_write (d.finish path now).record.text habove hfree
  refine ⟨files, ?_⟩
  simp only [Draft.write, if_neg hne, hplace, hwrite]
  rfl

/-! ### Reading -/

theorem packageOf_fieldsValue (p : LockedPackage) :
    packageOf (Yaml.fieldsValue (packageFields p)) = p := by
  simp [packageOf, Yaml.fieldsValue, packageFields, Dependency.textField, List.lookup_cons]

/-- The record of a lock file has all that is in it; its date is trimmed when it is read. -/
theorem ofFields_record (l : Lockfile) :
    Draft.ofFields l.path l.record.values = { l.draft with generated := Text.trim l.generated } := by
  simp [Draft.ofFields, Yaml.Record.values, record, Yaml.Written.value, Dependency.textField,
    List.lookup_cons, draft, packageOf_fieldsValue]

/-- A lock file is read under every path that means its place. -/
theorem read_of_place {tree : FileTree} {cwd path place text : String} (hne : path ≠ "")
    (hplace : Path.absolute cwd path = place)
    (hfile : tree.at? (Path.parts place) = some (.file text)) :
    read tree cwd path = parse place text := by
  simp only [read, if_neg hne, hplace, FileTree.open?, FileTree.find, hfile]
  rfl

theorem read_of_file {tree : FileTree} {cwd path text : String} (hne : path ≠ "")
    (hplace : Path.absolute cwd path = path)
    (hfile : tree.at? (Path.parts path) = some (.file text)) :
    read tree cwd path = parse path text :=
  read_of_place hne hplace hfile

theorem isNormal_of_parse {path text : String} {l : Lockfile} (h : parse path text = .ok l) :
    l.IsNormal := by
  unfold parse at h
  split at h
  · cases h
  · cases h
  · cases h
    exact isNormal_normalize _
  · cases h
    exact isNormal_normalize _

theorem read_eq_ok_iff {tree : FileTree} {cwd path : String} {lock : Lockfile} (hne : path ≠ "")
    (hplace : Path.absolute cwd path = path) :
    read tree cwd path = .ok lock ↔
      ∃ text, tree.at? (Path.parts path) = some (.file text) ∧ parse path text = .ok lock := by
  constructor
  · intro h
    simp only [read, if_neg hne, hplace, FileTree.open?, FileTree.find] at h
    cases hfile : tree.at? (Path.parts path) with
    | none => rw [hfile] at h; cases h
    | some e =>
        rw [hfile] at h
        cases e with
        | directory => cases h
        | file text => exact ⟨text, rfl, h⟩
  · rintro ⟨text, hfile, h⟩
    rw [read_of_file hne hplace hfile, h]

/-- A lock file whose record is decoded again is read back in its normal form. -/
theorem parse_text {l : Lockfile} (h : l.record.ReadsBack shape) : parse l.path l.record.text =
    .ok ({ l.draft with generated := Text.trim l.generated }).normalize := by
  rw [← ofFields_record, parse, show Yaml.decodeText shape l.record.text = _ from h]

end Lockfile

end ObjectLang
