import Mathlib.Data.List.ReduceOption
import ObjectLang.Proofs.StableInstall

/-! What an installation leaves for later commands. However the names of a project and of its
dependencies are spelled, the lock file that is there after an installation that succeeded is of the
project and has a package for each of its dependencies: one that was written is read back with the
normal forms of the names, which are their own normal forms, and one that was left as it was has the
packages that were resolved. -/

namespace ObjectLang

namespace Lockfile

/-- A lock file finds a package for a name in whatever spelling if it has the normal form. -/
theorem isSome_package? (l : Lockfile) (name : String) :
    (l.package? name).isSome = true ↔ Text.packageName name ∈ l.packages.map (·.name) := by
  simp [package?]

theorem name_of_package? {l : Lockfile} {name : String} {p : LockedPackage}
    (h : l.package? name = some p) : p ∈ l.packages ∧ p.name = Text.packageName name :=
  ⟨List.mem_of_find?_eq_some h, by simpa using List.find?_some h⟩

/-- The names in a normal form are the normal forms of the names. -/
theorem mem_names_normalize {d : Draft} {packages : List LockedPackage}
    (hentries : d.entries = packages.map some) {key : String} :
    key ∈ d.normalize.packages.map (·.name) ↔ ∃ p ∈ packages, Text.packageName p.name = key := by
  have hsome : d.entries.reduceOption = packages := by
    rw [hentries, List.reduceOption, List.filterMap_map, Function.id_comp, List.filterMap_some]
  have hperm := (sortByName_perm (packages.map LockedPackage.normalize)).map (·.name)
  rw [Draft.normalize, hsome, hperm.mem_iff, List.map_map, List.mem_map]
  rfl

/-- A normal form that is among the names stays among them when they are brought into their normal
form. -/
theorem mem_names_normalize_of_mem {d : Draft} {packages : List LockedPackage}
    (hentries : d.entries = packages.map some) {name : String}
    (hname : Text.packageName name ∈ packages.map (·.name)) :
    Text.packageName name ∈ d.normalize.packages.map (·.name) := by
  obtain ⟨p, hp, hpname⟩ := List.mem_map.mp hname
  refine (mem_names_normalize hentries).mpr ⟨p, hp, ?_⟩
  rw [hpname, Text.packageName_packageName]

/-- A lock file that can be read can be read where files were added. -/
theorem read_of_adds {old new : FileTree} {cwd path : String} {lock : Lockfile} (hne : path ≠ "")
    (hplace : Path.absolute cwd path = path) (hadds : FileTree.Adds old new)
    (h : read old cwd path = .ok lock) : read new cwd path = .ok lock := by
  obtain ⟨text, hfile, hparse⟩ := (read_eq_ok_iff hne hplace).mp h
  exact (read_eq_ok_iff hne hplace).mpr ⟨text, hadds.keeps hfile, hparse⟩

end Lockfile

namespace Manifest

variable {m : Manifest} {s : Surroundings} {files : FileTree} {done : Installation}

/-- An installation that succeeds did not break off. -/
theorem installs_of_ok (h : m.install s files = (.ok (), done)) :
    Installs s [] m.dependencies s.root ⟨files, [], []⟩ (.ok ()) done := by
  have hrun := Installs.of_outcome s ((Install.knownNames s files m).length + 1) [] m.dependencies
    s.root ⟨files, [], []⟩
  have hsame : (Install.needs s ((Install.knownNames s files m).length + 1) [] m.dependencies
      s.root).outcome ⟨files, [], []⟩ = (.ok (), done) := h
  rw [hsame] at hrun
  refine hrun.resolve_left ?_
  rintro ⟨e, after, heq, -⟩
  cases heq

theorem adds_of_install (hlawful : s.repositories.Lawful) (h : m.install s files = (.ok (), done)) :
    FileTree.Adds files done.files :=
  (installs_of_ok h).files_induction (P := FileTree.Adds files)
    (fun tree name d base htree =>
      htree.trans (Surroundings.adds_resolve hlawful tree name d base)) (.refl _)

end Manifest

namespace CommandLine.World

/-- A lock file of the project that has all of its dependencies is the one that is used. -/
theorem lockFor_of_read {w : World} {m : Manifest} {lock : Lockfile}
    (hread : Lockfile.read w.files w.directory (Lockfile.pathFor m) = .ok lock)
    (hroot : lock.root = Text.packageName m.name)
    (hnames : ∀ d ∈ m.dependencies, Text.packageName d.1 ∈ lock.packages.map (·.name)) :
    w.lockFor m = .ok (some lock) := by
  have hlocked : (m.dependencies.find? fun d => (lock.package? d.1).isNone) = none := by
    rw [List.find?_eq_none]
    intro d hd hnone
    have hsome := (lock.isSome_package? d.1).mpr (hnames d hd)
    rw [Option.isNone_iff_eq_none] at hnone
    rw [hnone] at hsome
    cases hsome
  unfold lockFor
  dsimp only
  rw [hread]
  dsimp only
  rw [if_neg (not_not.mpr hroot), hlocked]

/-- The lock file that is there after an installation that succeeded: the one of before, which has all
that was resolved, or the one that was written, with normal names. -/
theorem Project.read_of_succeeds {w : World} {m : Manifest} {cache : String} (h : w.Project m cache)
    (hcwd : Path.isAbsolute w.directory = true)
    (hcommits : ∀ r ∈ w.repositories, ∀ c ∈ r.history, ∀ f ∈ c.files, f.1 ≠ [])
    (hok : w.install.status = 0)
    (hyaml : ¬w.KeepsLock m cache → (w.lockToWrite m cache).record.ReadsBack Lockfile.shape) :
    ∃ lock, Lockfile.read w.install.files w.directory (Lockfile.pathFor m) = .ok lock ∧
      lock.root = Text.packageName m.name ∧
      ∀ d ∈ m.dependencies, Text.packageName d.1 ∈ lock.packages.map (·.name) := by
  obtain ⟨hroot, done, hdone, hlock⟩ := h.exists_done_of_succeeds hcwd hok
  obtain ⟨hne, hplace⟩ := h.pathFor_absolute hcwd
  have hresolved : ∀ d ∈ m.dependencies, Text.packageName d.1 ∈
      (Lockfile.sortByName done.packages).map (·.name) := fun d hd =>
    ((Lockfile.sortByName_perm done.packages).map (·.name)).mem_iff.mpr
      ((Manifest.installs_of_ok hdone).names_of_wanted rfl d hd)
  rcases hlock with ⟨⟨hread, hkept⟩, hfiles⟩ | ⟨hwritten, hwrite⟩
  · rw [lockUpdate_of_ok hdone] at hkept
    refine ⟨w.lockOf m, ?_, hroot, fun d hd => ?_⟩
    · rw [hfiles]
      exact Lockfile.read_of_adds hne hplace (Manifest.adds_of_install
        (Repository.lawful_reachable hcommits w.directory) hdone) hread
    · exact List.map_subset _ (Lockfile.subset_of_differsFrom (Except.ok.inj hkept)) (hresolved d hd)
  · obtain ⟨lock, hread, hroot', hpackages⟩ := h.read_of_written hcwd hroot (hyaml hwritten) hwrite
    refine ⟨lock, hread, hroot', fun d hd => ?_⟩
    have hnames : Text.packageName d.1 ∈ (w.lockToWrite m cache).packages.map (·.name) := by
      rw [lockToWrite, lockUpdate_of_ok hdone]
      exact Lockfile.mem_names_normalize_of_mem rfl (hresolved d hd)
    rw [hpackages]
    exact Lockfile.mem_names_normalize_of_mem rfl hnames

/-- **An installation that succeeds leaves the lock file that running needs**, whether it made the lock
file, wrote it anew or left it as it was: it is there, it is of the project, and it has a package for
every dependency of the project, under the normal form of the name. -/
theorem install_establishes_lock {w : World} {m : Manifest} {cache : String} (hw : w.Project m cache)
    (hcwd : Path.isAbsolute w.directory = true)
    (hcommits : ∀ r ∈ w.repositories, ∀ c ∈ r.history, ∀ f ∈ c.files, f.1 ≠ [])
    (hok : w.install.status = 0)
    (hyaml : ¬w.KeepsLock m cache → (w.lockToWrite m cache).record.ReadsBack Lockfile.shape) :
    ∃ lock, ({ w with files := w.install.files } : World).lockFor m = .ok (some lock) ∧
      lock.root = Text.packageName m.name ∧
      ∀ d ∈ m.dependencies, ∃ p ∈ lock.packages, lock.package? d.1 = some p ∧
        p.name = Text.packageName d.1 := by
  obtain ⟨lock, hread, hroot, hnames⟩ := hw.read_of_succeeds hcwd hcommits hok hyaml
  generalize w.install.files = new at hread ⊢
  refine ⟨lock, lockFor_of_read hread hroot hnames, hroot, fun d hd => ?_⟩
  obtain ⟨p, hp⟩ := Option.isSome_iff_exists.mp ((lock.isSome_package? d.1).mpr (hnames d hd))
  obtain ⟨hmem, hname⟩ := Lockfile.name_of_package? hp
  exact ⟨p, hmem, hp, hname⟩

theorem spelled_install_establishes_lock :
    spelled.install.status = 0 ∧ ¬spelled.KeepsLock spelledManifest "/home/.moopl" ∧
    ∃ lock, ({ spelled with files := spelled.install.files } : World).lockFor spelledManifest =
        .ok (some lock) ∧
      (∃ p, lock.package? "Größe" = some p ∧ p.name = "gr__e") ∧
      ∃ p, lock.package? "My Util" = some p ∧ p.name = "my_util" := by
  have hwritten : ¬spelled.KeepsLock spelledManifest "/home/.moopl" := by
    rintro ⟨-, hkept⟩
    obtain ⟨reports, hupdate⟩ := lockUpdate_spelled
    rw [hupdate] at hkept
    cases hkept
  obtain ⟨lock, hlock, -, hpackages⟩ := install_establishes_lock project_spelled (by decide)
    (List.forall_mem_nil _) status_spelled fun _ => lockToWrite_spelled ▸ readsBack_spelled
  obtain ⟨p, -, hp, hpname⟩ := hpackages ("Größe", { path := "./lib" }) (by simp [spelledManifest])
  obtain ⟨q, -, hq, hqname⟩ :=
    hpackages ("My Util", { path := "./util" }) (by simp [spelledManifest])
  exact ⟨status_spelled, hwritten, lock, hlock, ⟨p, hp, hpname.trans (by decide)⟩,
    q, hq, hqname.trans (by decide)⟩

end CommandLine.World

end ObjectLang
