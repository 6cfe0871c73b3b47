import Mathlib.Data.List.Find
import ObjectLang.Proofs.DependencyGraph
import ObjectLang.Proofs.ManifestRules

/-! Installing twice. A project whose dependencies are directories finds its lock file up to date the
second time: writing the lock file changes nothing that was resolved, as long as it is in none of the
directories, and the lock file that is read back has the packages that were resolved, as long as no
directory's path ends in a blank. -/

namespace ObjectLang

namespace Surroundings

variable {s : Surroundings} {tree new : FileTree} {path content directory : String}

theorem manifestIn_eq_none_iff :
    s.manifestIn tree directory = .ok none ↔
      tree.at? (Path.parts directory ++ [Manifest.fileName]) = none ∧
      tree.isBlocked (Path.parts directory ++ [Manifest.fileName]) = false := by
  have hparts := Path.parts_join directory (show Path.IsPlain Manifest.fileName by decide)
  unfold manifestIn
  simp only [FileTree.stat, FileTree.find, hparts]
  cases tree.at? (Path.parts directory ++ [Manifest.fileName]) with
  | none =>
      cases tree.isBlocked (Path.parts directory ++ [Manifest.fileName]) <;>
        simp [Except.mapError]
  | some e =>
      cases Manifest.read tree s.cwd (Path.join directory Manifest.fileName) <;>
        simp [Except.mapError, Except.map]

theorem checksum_write (hwrite : tree.write path content = .ok new)
    (houtside : ¬ Path.parts directory <+: Path.parts path) :
    Checksum.ofDirectory new directory = Checksum.ofDirectory tree directory := by
  have hat : new.at? (Path.parts directory) = tree.at? (Path.parts directory) := by
    rw [FileTree.at?_write hwrite, if_neg]
    exact fun heq => houtside (heq ▸ List.prefix_refl _)
  unfold Checksum.ofDirectory Checksum.bytes Checksum.files
  dsimp only
  rw [hat, FileTree.filesBelow_write hwrite houtside]

section Write

variable (hwrite : tree.write path content = .ok new)
  (hlock : (Path.parts path).getLast? = some Lockfile.fileName)
include hwrite hlock

/-- Writing a lock file leaves the files of all other names alone. -/
theorem at?_write_of_ne (ps : List String) {name : String} (hname : name ≠ Lockfile.fileName) :
    new.at? (ps ++ [name]) = tree.at? (ps ++ [name]) := by
  rw [FileTree.at?_write hwrite, if_neg]
  intro heq
  rw [← heq, List.getLast?_concat] at hlock
  exact hname (Option.some.inj hlock)

theorem manifestIn_write (hdirectory : Path.isAbsolute directory = true)
    (hthere : tree.at? (Path.parts directory) = some .directory) {found : Option Manifest}
    (h : s.manifestIn tree directory = .ok found) : s.manifestIn new directory = .ok found := by
  have hsame := at?_write_of_ne hwrite hlock (Path.parts directory)
    (show Manifest.fileName ≠ Lockfile.fileName by decide)
  cases found with
  | some m =>
      rw [manifestIn_eq_some_iff hdirectory] at h ⊢
      rwa [hsame]
  | none =>
      rw [manifestIn_eq_none_iff] at h ⊢
      obtain ⟨hnone, hfree⟩ := h
      refine ⟨hsame.trans hnone, ?_⟩
      rw [FileTree.isBlocked, List.any_eq_false] at hfree ⊢
      rintro ⟨q, e⟩ hmem hblocks
      cases e with
      | directory => simp at hblocks
      | file text =>
          rcases FileTree.mem_entries_of_write hwrite hmem with hold | rfl
          · exact hfree _ hold hblocks
          · -- the lock file would stand above the directory, and have stood there before
            simp only [Bool.true_and, Bool.and_eq_true, List.isPrefixOf_iff_prefix,
              decide_eq_true_eq] at hblocks
            have hpre := (List.prefix_concat_iff.mp hblocks.1).resolve_left hblocks.2
            obtain ⟨-, -, -, -, hnot, -⟩ := FileTree.write_eq_ok hwrite
            cases hat : tree.at? (Path.parts path) with
            | none =>
                rw [FileTree.at?_eq_none_below hpre hat] at hthere
                cases hthere
            | some e =>
                cases e with
                | directory => exact hnot hat
                | file text' =>
                    refine hfree _ (FileTree.mem_entries_of_at?_file hat) ?_
                    simpa using hblocks

/-- A directory that the lock file is not in is resolved as before. -/
theorem resolvePath_write (hcwd : Path.isAbsolute s.cwd = true) {name base : String} {d : Dependency}
    {r : ResolvedPackage} (h : s.resolvePath tree name d base = .ok r)
    (houtside : ¬ Path.parts r.package.directory <+: Path.parts path) :
    s.resolvePath new name d base = .ok r := by
  obtain ⟨place, hplace, hthere, hmanifest, version, -, hpackage⟩ := resolvePath_eq_ok h
  rw [hpackage] at houtside
  have habsolute : Path.isAbsolute place = true := hplace ▸ Path.isAbsolute_absolute hcwd _
  have hthere' : new.at? (Path.parts place) = some .directory := by
    rw [FileTree.at?_write hwrite, if_neg]
    · exact hthere
    · exact fun heq => houtside (heq ▸ List.prefix_refl _)
  rw [← h]
  unfold resolvePath
  rw [← hplace]
  dsimp only
  rw [FileTree.stat_eq_ok_iff.mpr hthere, FileTree.stat_eq_ok_iff.mpr hthere',
    manifestIn_write hwrite hlock habsolute hthere hmanifest, hmanifest,
    checksum_write hwrite houtside]

theorem library_write : Library.find? new directory = Library.find? tree directory := by
  have hplain : ∀ name ∈ Library.fileNames, Path.IsPlain name := by decide
  have hother : ∀ name ∈ Library.fileNames, name ≠ Lockfile.fileName := by decide
  unfold Library.find?
  refine List.find?_congr fun file hfile => ?_
  obtain ⟨name, hname, rfl⟩ := List.mem_map.mp hfile
  apply FileTree.isFile_eq_of_at?_eq
  rw [Path.parts_join _ (hplain name hname)]
  exact at?_write_of_ne hwrite hlock _ (hother name hname)

end Write

/-- A package whose source is its directory was resolved by a path, which leaves the files alone. -/
theorem Locates.of_source {name base : String} {d : Dependency} {r : ResolvedPackage}
    {after : FileTree} (h : s.Locates tree name d base r after)
    (hsource : r.package.source = "path:" ++ r.package.directory) :
    after = tree ∧ d.path ≠ "" ∧ s.resolvePath tree name d base = .ok r := by
  have hresolve := h.resolve
  unfold Surroundings.resolve at hresolve
  split at hresolve
  · next hpath =>
      obtain ⟨hresult, rfl⟩ := Prod.mk.inj hresolve
      exact ⟨rfl, hpath, hresult⟩
  · split at hresolve
    · obtain ⟨version, place, -, hpackage⟩ := resolveGit_eq_ok hresolve
      rw [hpackage] at hsource
      have hchars := congrArg (fun text => text.toList.head?) hsource
      simp [String.toList_append] at hchars
    · cases hresolve

end Surroundings

/-- A package whose source is its directory is in its normal form if the directory is. -/
theorem Surroundings.Locates.normalize {s : Surroundings} (hs : s.WellFormed) {tree after : FileTree}
    {name base : String} {d : Dependency} {r : ResolvedPackage}
    (h : s.Locates tree name d base r after)
    (hsource : r.package.source = "path:" ++ r.package.directory)
    (htrim : Text.trim r.package.directory = r.package.directory) :
    r.package.normalize = r.package := by
  have habsolute := h.isAbsolute hs
  obtain ⟨-, -, hresolve⟩ := h.of_source hsource
  obtain ⟨path, -, -, -, version, hversion, hpackage⟩ := Surroundings.resolvePath_eq_ok hresolve
  rw [hpackage] at htrim habsolute ⊢
  have hpath : Text.trim ("path:" ++ path) = "path:" ++ path := by
    refine Text.IsTrimmed.trim_eq ?_
    rw [String.toList_append]
    refine (Text.isTrimmed_of_trim_eq htrim).append ?_ (Text.isTrimmed_of_trim_eq (by decide))
    simpa using Path.ne_empty_of_isAbsolute habsolute
  simp only [LockedPackage.normalize, Text.packageName_packageName, hversion, hpath, htrim,
    Checksum.ofDirectory, Text.trim_hexDigest]

/-- What holds of every located package holds of all that are installed. -/
theorem Installs.forall_packages {s : Surroundings} {above : List String}
    {wanted : List (String × Dependency)} {base : String} {i after : Installation}
    {result : Except InstallError Unit} {P : LockedPackage → Prop}
    (hP : ∀ {tree name d base r next}, s.Locates tree name d base r next → P r.package)
    (h : Installs s above wanted base i result after) (hi : ∀ p ∈ i.packages, P p) :
    ∀ p ∈ after.packages, P p := by
  induction h with
  | done => exact hi
  | known hknown hrest ih => exact ih hi
  | cycle hnew habove => exact hi
  | unresolved hnew habove hresolve =>
      rw [(Install.outcome_resolveOne_eq_error hresolve).2.1]
      exact hi
  | within hnew habove hlocates hneeds ih => exact ih hi
  | installed hnew habove hlocates hneeds hrest ihneeds ihrest =>
      refine ihrest fun p hp => ?_
      rcases List.mem_append.mp hp with hp | hp
      · exact ihneeds hi p hp
      · rw [List.mem_singleton.mp hp]
        exact hP hlocates

namespace Manifest

variable {m : Manifest} {s : Surroundings} {files new : FileTree} {done : Installation}

/-- An installation of directories leaves the files alone, and comes to the same over other files in
which all of them are located as before. -/
theorem install_of_paths (hs : s.WellFormed) (h : m.install s files = (.ok (), done))
    (hpaths : ∀ p ∈ done.packages, p.source = "path:" ++ p.directory)
    (hlocated : ∀ {name d base r}, r.package ∈ done.packages →
      s.Locates files name d base r files → s.Locates new name d base r new) :
    done.files = files ∧ m.install s new = (.ok (), ⟨new, done.packages, done.reports⟩) := by
  obtain ⟨hfiles, second, hsecond, rfl, hpackages, hreports⟩ :=
    Installs.repeated (· = files) (· = new) (fun _ _ _ => True) done.packages
      (fun htree hother _ hfinal hlocates => by
        obtain ⟨hafter, -, -⟩ := hlocates.of_source (hpaths _ hfinal)
        subst htree hother hafter
        exact ⟨rfl, fun _ _ => trivial, _, hlocated hfinal hlocates, rfl⟩)
      (installs_of_eq hs h) rfl (List.Subset.refl _) (fun _ _ => trivial) rfl
      (j := ⟨new, [], []⟩) rfl rfl rfl
  refine ⟨hfiles, ?_⟩
  rw [← hpackages, ← hreports]
  exact m.install_eq_of_installs hs second.files hsecond

/-- Writing a lock file that is in none of the directories changes nothing about them. -/
theorem install_of_write (hs : s.WellFormed) (h : m.install s files = (.ok (), done))
    (hpaths : ∀ p ∈ done.packages, p.source = "path:" ++ p.directory) {path content : String}
    (houtside : ∀ p ∈ done.packages, ¬ Path.parts p.directory <+: Path.parts path)
    (hwrite : files.write path content = .ok new)
    (hlock : (Path.parts path).getLast? = some Lockfile.fileName) :
    m.install s new = (.ok (), ⟨new, done.packages, done.reports⟩) := by
  refine (install_of_paths hs h hpaths fun hfinal hlocates => ?_).2
  obtain ⟨-, hpath, hresolve⟩ := hlocates.of_source (hpaths _ hfinal)
  constructor
  · rw [Surroundings.resolve, if_pos hpath,
      Surroundings.resolvePath_write hwrite hlock hs.cwd hresolve (houtside _ hfinal)]
  · rw [Surroundings.library_write hwrite hlock]
    exact hlocates.library

end Manifest

/-! ### The second run -/

namespace CommandLine.World

def resolved (w : World) (m : Manifest) (cache : String) : List LockedPackage :=
  (m.install (w.surroundings m cache) w.files).2.packages

namespace Project

variable {w : World} {m : Manifest} {cache : String}

/-- An installation into a lock file that has the packages finds it up to date. -/
theorem install_up_to_date (h : w.Project m cache) {lock : Lockfile}
    (hread : Lockfile.read w.files w.directory (Lockfile.pathFor m) = .ok lock)
    (hroot : lock.root = Text.packageName m.name) {done : Installation}
    (hdone : m.install (w.surroundings m cache) w.files = (.ok (), done))
    (hfiles : done.files = w.files)
    (hsame : lock.differsFrom (Lockfile.sortByName done.packages) = false) :
    w.install = w.succeed (heading m cache ++ String.join (done.reports.map (· ++ "\n")) ++
      Lockfile.fileName ++ " already up to date: " ++ Lockfile.pathFor m ++
        "\nDependencies installed.\n") := by
  have hchanged := congrArg LockUpdate.changed (lockUpdate_of_ok hdone lock)
  rw [h.install_of_read hread hroot, installInto_of_same hchanged (by rw [Bool.false_or, hsame]),
    lockUpdate_of_ok hdone, hfiles]

/-- Writing the lock file does not hide the manifest. -/
theorem of_write (h : w.Project m cache) (hcwd : Path.isAbsolute w.directory = true)
    (hthere : w.files.at? (Path.parts w.directory) = some .directory) {content : String}
    {new : FileTree} (hwrite : w.files.write (Lockfile.pathFor m) content = .ok new) (now : String) :
    ({ w with files := new, now := now }).Project m cache := by
  have hlast := h.getLast?_pathFor hcwd
  have hmanifest : ∀ qs : List String, new.at? (qs ++ [Manifest.fileName]) =
      w.files.at? (qs ++ [Manifest.fileName]) :=
    fun qs => Surroundings.at?_write_of_ne hwrite hlast qs (by decide)
  have hplace : new.isFile (Path.absolute w.directory w.directory) =
      w.files.isFile (Path.absolute w.directory w.directory) := by
    apply FileTree.isFile_eq_of_at?_eq
    rw [Path.parts_absolute hcwd, FileTree.at?_write hwrite, if_neg]
    intro heq
    obtain ⟨-, -, -, -, hnot, -⟩ := FileTree.write_eq_ok hwrite
    exact hnot (heq ▸ hthere)
  obtain ⟨path, hfind, hread⟩ := h.manifest
  obtain ⟨qs, hqs, rfl⟩ := Manifest.find?_eq_some hcwd hfind
  refine ⟨⟨Path.ofParts (qs ++ [Manifest.fileName]), ?_, ?_⟩, h.cache⟩
  · rw [← hfind]
    refine Manifest.find?_congr hcwd hplace fun qs hqs => FileTree.isFile_eq_of_at?_eq ?_
    rw [← Path.join_ofParts hqs (by decide), Path.parts_join _ (by decide)]
    exact hmanifest _
  · rw [Manifest.read_ofParts_iff hqs] at hread ⊢
    rwa [hmanifest]

section Written

variable (h : w.Project m cache) (hs : (w.surroundings m cache).WellFormed) {done : Installation}
  (hdone : m.install (w.surroundings m cache) w.files = (.ok (), done))
  (hpaths : ∀ p ∈ done.packages, p.source = "path:" ++ p.directory)
  (htrim : ∀ p ∈ done.packages, Text.trim p.directory = p.directory)
include hs hdone hpaths htrim

theorem packages_lockToWrite :
    (w.lockToWrite m cache).packages = Lockfile.sortByName done.packages ∧
      ∀ p ∈ Lockfile.sortByName done.packages, p.normalize = p := by
  have hnormal : ∀ p ∈ done.packages, p.source = "path:" ++ p.directory →
      Text.trim p.directory = p.directory → p.normalize = p :=
    (Manifest.installs_of_eq hs hdone).forall_packages
      (P := fun p => p.source = "path:" ++ p.directory →
        Text.trim p.directory = p.directory → p.normalize = p)
      (fun hlocates => hlocates.normalize hs) (List.forall_mem_nil _)
  have hsorted : ∀ p ∈ Lockfile.sortByName done.packages, p.normalize = p := by
    intro p hp
    have hmem := (Lockfile.sortByName_perm done.packages).mem_iff.mp hp
    exact hnormal p hmem (hpaths p hmem) (htrim p hmem)
  refine ⟨?_, hsorted⟩
  rw [lockToWrite, lockUpdate_of_ok hdone]
  exact Lockfile.packages_normalize rfl hsorted (Lockfile.pairwise_sortByName _)

include h

/-- The lock file that was written is read back with the packages that were resolved. -/
theorem read_of_write (hroot : (w.lockOf m).root = Text.packageName m.name)
    (hyaml : (w.lockToWrite m cache).record.ReadsBack Lockfile.shape) {new : FileTree}
    (hwrite : w.files.write (Lockfile.pathFor m) (w.lockToWrite m cache).record.text = .ok new) :
    ∃ lock, Lockfile.read new w.directory (Lockfile.pathFor m) = .ok lock ∧
      lock.root = Text.packageName m.name ∧
      lock.packages = Lockfile.sortByName done.packages := by
  obtain ⟨lock, hread, hlock, hsame⟩ := h.read_of_written hs.cwd hroot hyaml hwrite
  obtain ⟨hpackages, hnormal⟩ := packages_lockToWrite hs hdone hpaths htrim
  refine ⟨lock, hread, hlock, hsame.trans ?_⟩
  exact Lockfile.packages_normalize (congrArg (List.map some) hpackages) hnormal
    (Lockfile.pairwise_sortByName _)

end Written

end Project

/-- **Installing a second time changes nothing** if the project's dependencies are directories, none of
which the lock file is in, and no path of which ends in a blank: the command succeeds, leaves all files
as they are and reports that the lock file is up to date. -/
theorem second_install_up_to_date {w : World} {m : Manifest} {cache : String}
    (hw : w.Project m cache) (hs : (w.surroundings m cache).WellFormed)
    (hthere : w.files.at? (Path.parts w.directory) = some .directory) (hok : w.install.status = 0)
    (hpaths : ∀ p ∈ w.resolved m cache, p.source = "path:" ++ p.directory)
    (houtside : ∀ p ∈ w.resolved m cache,
      ¬ Path.parts p.directory <+: Path.parts (Lockfile.pathFor m))
    (htrim : ∀ p ∈ w.resolved m cache, Text.trim p.directory = p.directory)
    (hyaml : ¬ w.KeepsLock m cache → (w.lockToWrite m cache).record.ReadsBack Lockfile.shape)
    (now : String) :
    let second := ({ w with files := w.install.files, now := now }).install
    second.status = 0 ∧ second.files = w.install.files ∧
      ∃ printed, second.stdout = printed ++ Lockfile.fileName ++ " already up to date: " ++
        Lockfile.pathFor m ++ "\nDependencies installed.\n" := by
  obtain ⟨hroot, done, hdone, hlock⟩ := hw.exists_done_of_succeeds hs.cwd hok
  unfold resolved at hpaths houtside htrim
  rw [hdone] at hpaths houtside htrim
  have hfiles : done.files = w.files :=
    (Manifest.install_of_paths hs hdone hpaths fun _ hlocates => hlocates).1
  have hdistinct : (done.packages.map (·.name)).Nodup :=
    ((Manifest.installs_of_eq hs hdone).settled hs (.start _ _)).distinct
  rw [hfiles] at hlock
  dsimp only
  rcases hlock with ⟨⟨hread, hkept⟩, hfirst⟩ | ⟨hwritten, hwrite⟩
  · have hsame : (w.lockOf m).differsFrom (Lockfile.sortByName done.packages) = false := by
      rw [lockUpdate_of_ok hdone] at hkept
      exact Except.ok.inj hkept
    have hsecond := Project.install_up_to_date (w := { w with now := now })
      ⟨hw.manifest, hw.cache⟩ hread hroot hdone hfiles hsame
    rw [hfirst, hsecond]
    exact ⟨rfl, rfl, _, rfl⟩
  · generalize w.install.files = new at hwrite ⊢
    obtain ⟨lock, hlock, hroot', hpackages⟩ :=
      hw.read_of_write hs hdone hpaths htrim hroot (hyaml hwritten) hwrite
    have hsecond := (hw.of_write hs.cwd hthere hwrite now).install_up_to_date hlock hroot'
      (Manifest.install_of_write hs hdone hpaths houtside hwrite (hw.getLast?_pathFor hs.cwd)) rfl
      (Lockfile.differsFrom_eq_false (Lockfile.nodup_names_sortByName hdistinct) hpackages)
    rw [hsecond]
    exact ⟨rfl, rfl, _, rfl⟩

/-- Installing again writes the lock file again if the path of a directory ends in a blank: no lock
file that is read has such a path. -/
theorem second_install_updates {w : World} {m : Manifest} {cache : String}
    (hw : w.Project m cache) (hs : (w.surroundings m cache).WellFormed)
    (hthere : w.files.at? (Path.parts w.directory) = some .directory)
    (habove : w.files.at? (Path.parts (Lockfile.pathFor m)).dropLast = some .directory)
    (hok : w.install.status = 0)
    (hpaths : ∀ p ∈ w.resolved m cache, p.source = "path:" ++ p.directory)
    (houtside : ∀ p ∈ w.resolved m cache,
      ¬ Path.parts p.directory <+: Path.parts (Lockfile.pathFor m))
    {p : LockedPackage} (hp : p ∈ w.resolved m cache) (hblank : p.normalize ≠ p)
    (hyaml : (w.lockToWrite m cache).record.ReadsBack Lockfile.shape) (now : String) :
    let second := ({ w with files := w.install.files, now := now }).install
    second.status = 0 ∧ second.stdout = Project.heading m cache ++
      String.join ((m.install (w.surroundings m cache) w.files).2.reports.map (· ++ "\n")) ++
      "Updated " ++ Lockfile.fileName ++ ": " ++ Lockfile.pathFor m ++
      "\nDependencies installed.\n" := by
  obtain ⟨hroot, done, hdone, hlock⟩ := hw.exists_done_of_succeeds hs.cwd hok
  unfold resolved at hpaths houtside hp
  rw [hdone] at hpaths houtside hp ⊢
  have hfiles : done.files = w.files :=
    (Manifest.install_of_paths hs hdone hpaths fun _ hlocates => hlocates).1
  have hsorted : p ∈ Lockfile.sortByName done.packages :=
    (Lockfile.sortByName_perm done.packages).mem_iff.mpr hp
  obtain ⟨hne, hplace⟩ := hw.pathFor_absolute hs.cwd
  have hdiffers : ∀ {files : FileTree} {lock : Lockfile},
      Lockfile.read files w.directory (Lockfile.pathFor m) = .ok lock →
        lock.differsFrom (Lockfile.sortByName done.packages) = true := by
    intro files lock hread
    obtain ⟨text, -, hparse⟩ := (Lockfile.read_eq_ok_iff hne hplace).mp hread
    exact (Lockfile.isNormal_of_parse hparse).differsFrom hsorted hblank
  rw [hfiles] at hlock
  dsimp only
  rcases hlock with ⟨⟨hread, hkept⟩, -⟩ | ⟨-, hwrite⟩
  · rw [lockUpdate_of_ok hdone, hdiffers hread] at hkept
    cases hkept
  · generalize w.install.files = new at hwrite ⊢
    obtain ⟨lock, hlock, hroot', -⟩ := hw.read_of_written hs.cwd hroot hyaml hwrite
    have hlast := hw.getLast?_pathFor hs.cwd
    have habove' : new.at? (Path.parts (Lockfile.pathFor m)).dropLast = some .directory := by
      rw [FileTree.at?_write hwrite, if_neg, habove]
      intro heq
      have hlength := congrArg List.length heq
      have hpos := List.length_pos_of_mem (List.mem_of_getLast? hlast)
      rw [List.length_dropLast] at hlength
      omega
    have hfree' : new.at? (Path.parts (Lockfile.pathFor m)) ≠ some .directory := by
      rw [FileTree.at?_write hwrite, if_pos rfl]
      simp
    obtain ⟨files, hsecond⟩ := (hw.of_write hs.cwd hthere hwrite now).install_updates hs.cwd
      (Manifest.install_of_write hs hdone hpaths houtside hwrite hlast) habove' hfree' hlock hroot'
      (hdiffers hlock)
    rw [hsecond]
    exact ⟨rfl, rfl⟩

/-- A world with a project that depends on two directories in it. Its names are not in their normal form,
and it has a lock file from before that spells them in another way. -/
def spelled : World :=
  ⟨⟨[(["app", "moopl.yml"], .file ("name: Größe App\nentry: main.json\n" ++
      "dependencies:\n  Größe: ./lib\n  My Util: ./util\n")),
    (["app", "lib", "lib.json"], .file ""), (["app", "util", "lib.json"], .file ""),
    (["app", "moopl.lock"], .file ("root: größe-app\ngenerated: x\ntool: t\npackages:\n" ++
      "  - name: gr--e\n    version: 1.0.0\n    source: path:/old\n"))]⟩,
    "/app", "", "/home", "2024-01-01T00:00:00Z", []⟩

def spelledManifest : Manifest :=
  ⟨"/app/moopl.yml", "gr__e_app", "", "main.json", false, 0,
    [("Größe", { path := "./lib" }), ("My Util", { path := "./util" })]⟩

def spelledPackages : List LockedPackage :=
  [⟨"gr__e", "0.0.0-dev", "path:/app/lib",
      "bcda29ccd405a7f587611eabd7c544ce51a1604751e3ccde7616755a661a7b0f", "/app/lib"⟩,
    ⟨"my_util", "0.0.0-dev", "path:/app/util",
      "bcda29ccd405a7f587611eabd7c544ce51a1604751e3ccde7616755a661a7b0f", "/app/util"⟩]

theorem project_spelled : spelled.Project spelledManifest "/home/.moopl" := by
  have hlisted : Manifest.listed? "/app/moopl.yml" ("name: Größe App\nentry: main.json\n" ++
      "dependencies:\n  Größe: ./lib\n  My Util: ./util\n") = some spelledManifest := by
    decide +kernel
  have hparse := Manifest.described_of_listed hlisted (by decide +kernel)
  have hread : Manifest.read spelled.files "/app" "/app/moopl.yml" = .ok spelledManifest := by
    refine (Manifest.read_eq_ok_iff (by decide) (by decide +kernel)).mpr ⟨_, rfl, ?_⟩
    rw [Manifest.parse_eq, hparse]
    decide +kernel
  exact ⟨⟨"/app/moopl.yml", by decide +kernel, hread⟩, by decide +kernel⟩

theorem install_spelled : ∃ reports,
    spelledManifest.install (spelled.surroundings spelledManifest "/home/.moopl") spelled.files =
      (.ok (), ⟨spelled.files, spelledPackages, reports⟩) := by
  have hrun : (spelledManifest.install (spelled.surroundings spelledManifest "/home/.moopl")
        spelled.files).1 = .ok () ∧
      (spelledManifest.install (spelled.surroundings spelledManifest "/home/.moopl")
        spelled.files).2.files = spelled.files ∧
      (spelledManifest.install (spelled.surroundings spelledManifest "/home/.moopl")
        spelled.files).2.packages = spelledPackages := by
    decide +kernel
  rcases hdone : spelledManifest.install (spelled.surroundings spelledManifest "/home/.moopl")
    spelled.files with ⟨result, files, packages, reports⟩
  rw [hdone] at hrun
  obtain ⟨rfl, rfl, rfl⟩ := hrun
  exact ⟨reports, rfl⟩

/-- What is in the lock file from before. -/
def spelledBefore : Lockfile :=
  ⟨"/app/moopl.lock", "gr__e_app", "x", "t", [⟨"gr__e", "1.0.0", "path:/old", "", ""⟩]⟩

theorem read_spelled : Lockfile.read spelled.files spelled.directory
    (Lockfile.pathFor spelledManifest) = .ok spelledBefore := by
  decide +kernel

/-- The lock file that is written in that world. -/
def spelledAfter : Lockfile :=
  ⟨"/app/moopl.lock", "gr__e_app", "x", "moopl-cli 0.0.0-dev", spelledPackages⟩

theorem lockUpdate_spelled : ∃ reports,
    spelled.lockUpdate spelledManifest "/home/.moopl" (spelled.lockOf spelledManifest) =
      ⟨.ok true, spelledAfter, ⟨spelled.files, spelledPackages, reports⟩⟩ := by
  obtain ⟨reports, hdone⟩ := install_spelled
  have hsorted : Lockfile.sortByName spelledPackages = spelledPackages :=
    Lockfile.sortByName_of_pairwise (by decide)
  have hdiffers : spelledBefore.differsFrom spelledPackages = true := by decide
  have hpath : Lockfile.pathFor spelledManifest = "/app/moopl.lock" := by decide
  refine ⟨reports, ?_⟩
  rw [lockOf_of_read read_spelled, lockUpdate_of_ok hdone, hsorted, hdiffers, hpath]
  rfl

theorem status_spelled : spelled.install.status = 0 := by
  obtain ⟨reports, hdone⟩ := install_spelled
  have hsorted : Lockfile.sortByName spelledPackages = spelledPackages :=
    Lockfile.sortByName_of_pairwise (by decide)
  have habove : spelled.files.at? (Path.parts (Lockfile.pathFor spelledManifest)).dropLast =
      some .directory := by decide
  have hfree : spelled.files.at? (Path.parts (Lockfile.pathFor spelledManifest)) ≠
      some .directory := by decide
  obtain ⟨files, hinstall⟩ := project_spelled.install_updates (by decide) hdone habove hfree
    read_spelled (by decide) (by rw [hsorted]; decide)
  rw [hinstall]
  rfl

theorem lockToWrite_spelled : spelled.lockToWrite spelledManifest "/home/.moopl" = spelledAfter := by
  obtain ⟨reports, hupdate⟩ := lockUpdate_spelled
  have hnormal : spelledAfter.IsNormal := ⟨by decide, by decide, by decide, by decide⟩
  have hpath : Lockfile.pathFor spelledManifest = spelledAfter.path := by decide
  rw [lockToWrite, hupdate, hpath]
  exact hnormal.finish_draft (by decide) _

theorem readsBack_spelled : spelledAfter.record.ReadsBack Lockfile.shape := by
  decide +kernel

theorem spelled_second_install_up_to_date :
    spelled.install.status = 0 ∧ spelled.resolved spelledManifest "/home/.moopl" = spelledPackages ∧
    let second := ({ spelled with
      files := spelled.install.files, now := "2024-01-02T00:00:00Z" }).install
    second.status = 0 ∧ second.files = spelled.install.files ∧
      ∃ printed, second.stdout = printed ++ Lockfile.fileName ++ " already up to date: " ++
        Lockfile.pathFor spelledManifest ++ "\nDependencies installed.\n" := by
  obtain ⟨reports, hdone⟩ := install_spelled
  have hs : (spelled.surroundings spelledManifest "/home/.moopl").WellFormed :=
    ⟨by decide, by decide, Repository.lawful_reachable (List.forall_mem_nil _) _⟩
  have hresolved : spelled.resolved spelledManifest "/home/.moopl" = spelledPackages := by
    rw [resolved, hdone]
  have hlocked : ∀ p ∈ spelledPackages, p.source = "path:" ++ p.directory ∧
      ¬ Path.parts p.directory <+: Path.parts (Lockfile.pathFor spelledManifest) ∧
      Text.trim p.directory = p.directory := by
    decide
  rw [← hresolved] at hlocked
  exact ⟨status_spelled, hresolved, second_install_up_to_date project_spelled hs (by decide)
    status_spelled (fun p hp => (hlocked p hp).1) (fun p hp => (hlocked p hp).2.1)
    (fun p hp => (hlocked p hp).2.2) (fun _ => lockToWrite_spelled ▸ readsBack_spelled) _⟩

/-- A world with a project that depends on a directory in it whose name ends in a blank. -/
def linkedBlank : World :=
  ⟨⟨[(["app", "moopl.yml"], .file "name: app\nentry: main.json\ndependencies:\n  lib: ./lib /.\n"),
    (["app", "lib ", "lib.json"], .file "")]⟩, "/app", "", "/home", "2024-01-01T00:00:00Z", []⟩

def blankManifest : Manifest :=
  ⟨"/app/moopl.yml", "app", "", "main.json", false, 0, [("lib", { path := "./lib /." })]⟩

def blankPackage : LockedPackage :=
  ⟨"lib", "0.0.0-dev", "path:/app/lib ",
    "bcda29ccd405a7f587611eabd7c544ce51a1604751e3ccde7616755a661a7b0f", "/app/lib "⟩

/-- The lock file that is written in that world, in which the path has lost its last blank. -/
def blankLock : Lockfile :=
  ⟨"/app/moopl.lock", "app", "2024-01-01T00:00:00Z", "moopl-cli 0.0.0-dev",
    [{ blankPackage with source := "path:/app/lib", directory := "/app/lib" }]⟩

/-- Installing in that world rewrites the lock file each time: the path that is read back has lost its
last blank. -/
theorem linkedBlank_second_install_updates :
    linkedBlank.install.status = 0 ∧
    ({ linkedBlank with files := linkedBlank.install.files }).install.stdout =
      "Manifest: /app/moopl.yml\nRoot package: app\nDependencies: 1\n" ++
        "Cache directory: /home/.moopl\nlinked lib 0.0.0-dev (lib )\n" ++
        "Updated moopl.lock: /app/moopl.lock\nDependencies installed.\n" := by
  have hs : (linkedBlank.surroundings blankManifest "/home/.moopl").WellFormed :=
    ⟨by decide, by decide, Repository.lawful_reachable (List.forall_mem_nil _) _⟩
  have hproject : linkedBlank.Project blankManifest "/home/.moopl" :=
    ⟨⟨"/app/moopl.yml", by decide +kernel, by decide +kernel⟩, by decide⟩
  have hdone : blankManifest.install (linkedBlank.surroundings blankManifest "/home/.moopl")
      linkedBlank.files =
        (.ok (), ⟨linkedBlank.files, [blankPackage], ["linked lib 0.0.0-dev (lib )"]⟩) := by
    decide +kernel
  have habove : linkedBlank.files.at? (Path.parts (Lockfile.pathFor blankManifest)).dropLast =
      some .directory := by decide
  have hmissing : Lockfile.read linkedBlank.files "/app" (Lockfile.pathFor blankManifest) =
      .error (.unopened ⟨"open", "/app/moopl.lock", .notFound⟩) := by decide +kernel
  have hstatus : linkedBlank.install.status = 0 := by
    obtain ⟨files, hinstall⟩ := hproject.install_creates hs.cwd hdone habove (by decide) hmissing rfl
    rw [hinstall]
    rfl
  have hresolved : linkedBlank.resolved blankManifest "/home/.moopl" = [blankPackage] := by
    rw [resolved, hdone]
  have hwritten : linkedBlank.lockToWrite blankManifest "/home/.moopl" = blankLock := by
    rw [lockToWrite, lockOf_of_error hmissing, lockUpdate_of_ok hdone]
    decide +kernel
  have hyaml : blankLock.record.ReadsBack Lockfile.shape := by decide +kernel
  have hprinted : Project.heading blankManifest "/home/.moopl" ++
      String.join (["linked lib 0.0.0-dev (lib )"].map (· ++ "\n")) ++ "Updated " ++
      Lockfile.fileName ++ ": " ++ Lockfile.pathFor blankManifest ++ "\nDependencies installed.\n" =
      "Manifest: /app/moopl.yml\nRoot package: app\nDependencies: 1\n" ++
        "Cache directory: /home/.moopl\nlinked lib 0.0.0-dev (lib )\n" ++
        "Updated moopl.lock: /app/moopl.lock\nDependencies installed.\n" := by
    decide +kernel
  obtain ⟨-, hstdout⟩ := second_install_updates hproject hs (by decide) habove hstatus
    (by rw [hresolved]; decide) (by rw [hresolved]; decide)
    (hresolved ▸ List.mem_singleton_self blankPackage) (by decide)
    (hwritten ▸ hyaml) linkedBlank.now
  rw [hdone] at hstdout
  exact ⟨hstatus, hstdout.trans hprinted⟩

end CommandLine.World

end ObjectLang
