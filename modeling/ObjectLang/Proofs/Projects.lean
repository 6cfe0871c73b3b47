import Mathlib.Data.List.Find
import ObjectLang.CommandLine.Tool
import ObjectLang.Proofs.Installing
import ObjectLang.Proofs.LockFiles

/-! The project around a working directory: where its manifest and its lock file stand, and what the
install command does with them. -/

namespace ObjectLang

namespace Manifest

theorem path_of_parse {path text : String} {m : Manifest} (h : parse path text = .ok m) :
    m.path = path := by
  have hsame := parse_path h path
  rw [h] at hsame
  exact congrArg Manifest.path (Except.ok.inj hsame)

/-- The files that can be the manifest of a directory. -/
theorem eq_ofParts_of_mem_directoriesUp {directory file : String}
    (hdirectory : Path.isAbsolute directory = true)
    (h : file ∈ (directoriesUp directory).map fun d => Path.join d fileName) :
    ∃ ps, (∀ part ∈ ps, Path.IsPlain part) ∧ file = Path.ofParts (ps ++ [fileName]) := by
  obtain ⟨above, habove, rfl⟩ := List.mem_map.mp h
  obtain ⟨n, -, rfl⟩ := List.mem_map.mp habove
  have hps : ∀ part ∈ (Path.parts directory).take n, Path.IsPlain part := fun part hpart =>
    Path.isPlain_of_mem_parts hdirectory part (List.mem_of_mem_take hpart)
  exact ⟨_, hps, Path.join_ofParts hps (by decide)⟩

theorem isAbsolute_start {cwd : String} (hcwd : Path.isAbsolute cwd = true) (tree : FileTree)
    (start : String) : Path.isAbsolute (if tree.isFile (Path.absolute cwd start) then
      Path.directory (Path.absolute cwd start) else Path.absolute cwd start) = true := by
  have hplace := Path.isAbsolute_absolute hcwd start
  split
  · exact Path.isAbsolute_directory hplace
  · exact hplace

/-- A manifest that is found stands in a directory under the name of manifests. -/
theorem find?_eq_some {tree : FileTree} {cwd start path : String}
    (hcwd : Path.isAbsolute cwd = true) (h : find? tree cwd start = some path) :
    ∃ ps, (∀ part ∈ ps, Path.IsPlain part) ∧ path = Path.ofParts (ps ++ [fileName]) := by
  unfold find? at h
  exact eq_ofParts_of_mem_directoriesUp (isAbsolute_start hcwd tree start)
    (List.mem_of_find?_eq_some h)

/-- The manifest of a place depends on the files under the name of manifests, and on whether the place
is a file. -/
theorem find?_congr {old new : FileTree} {cwd start : String} (hcwd : Path.isAbsolute cwd = true)
    (hplace : new.isFile (Path.absolute cwd start) = old.isFile (Path.absolute cwd start))
    (hfiles : ∀ ps : List String, (∀ part ∈ ps, Path.IsPlain part) →
      new.isFile (Path.ofParts (ps ++ [fileName])) = old.isFile (Path.ofParts (ps ++ [fileName]))) :
    find? new cwd start = find? old cwd start := by
  unfold find?
  dsimp only
  rw [hplace]
  refine List.find?_congr fun file hfile => ?_
  obtain ⟨ps, hps, rfl⟩ :=
    eq_ofParts_of_mem_directoriesUp (isAbsolute_start hcwd old start) hfile
  exact hfiles ps hps

theorem read_ofParts_iff {tree : FileTree} {cwd : String} {m : Manifest} {ps : List String}
    (hps : ∀ part ∈ ps, Path.IsPlain part) :
    read tree cwd (Path.ofParts (ps ++ [fileName])) = .ok m ↔
      ∃ text, tree.at? (ps ++ [fileName]) = some (.file text) ∧
        parse (Path.ofParts (ps ++ [fileName])) text = .ok m := by
  have habsolute := Path.isAbsolute_ofParts ps
  have hplain : Path.IsPlain fileName := by decide
  rw [← Path.join_ofParts hps hplain,
    read_eq_ok_iff (Path.ne_empty_of_isAbsolute (Path.isAbsolute_join habsolute _))
      (Path.absolute_join habsolute hplain cwd),
    Path.parts_join _ hplain, Path.parts_ofParts hps]

end Manifest

namespace CommandLine.World

/-- The manifest and the cache directory with which a world installs. -/
structure Project (w : World) (m : Manifest) (cache : String) : Prop where
  manifest : ∃ path, Manifest.find? w.files w.directory w.directory = some path ∧
    Manifest.read w.files w.directory path = .ok m
  cache : w.cacheDirectory? = some cache

/-- The lock file of a project, or a fresh one if it has none. -/
def lockOf (w : World) (m : Manifest) : Lockfile :=
  match Lockfile.read w.files w.directory (Lockfile.pathFor m) with
  | .ok lock => lock
  | .error _ => Lockfile.fresh m.name toolVersion w.now

theorem lockOf_of_read {w : World} {m : Manifest} {lock : Lockfile}
    (h : Lockfile.read w.files w.directory (Lockfile.pathFor m) = .ok lock) : w.lockOf m = lock := by
  unfold lockOf
  rw [h]

theorem lockOf_of_error {w : World} {m : Manifest} {e : Lockfile.ReadError}
    (h : Lockfile.read w.files w.directory (Lockfile.pathFor m) = .error e) :
    w.lockOf m = Lockfile.fresh m.name toolVersion w.now := by
  unfold lockOf
  rw [h]

/-- An installation leaves the lock file alone: there is one, and its packages do not change. -/
def KeepsLock (w : World) (m : Manifest) (cache : String) : Prop :=
  Lockfile.read w.files w.directory (Lockfile.pathFor m) = .ok (w.lockOf m) ∧
    (w.lockUpdate m cache (w.lockOf m)).changed = .ok false

/-- The lock file as an installation writes it. -/
def lockToWrite (w : World) (m : Manifest) (cache : String) : Lockfile :=
  (w.lockUpdate m cache (w.lockOf m)).lock.draft.finish (Lockfile.pathFor m) w.now

theorem lockUpdate_of_ok {w : World} {m : Manifest} {cache : String} {done : Installation}
    (h : m.install (w.surroundings m cache) w.files = (.ok (), done)) (lock : Lockfile) :
    w.lockUpdate m cache lock = ⟨.ok (lock.differsFrom (Lockfile.sortByName done.packages)),
      { lock with
        path := Lockfile.pathFor m
        tool := toolVersion
        packages := Lockfile.sortByName done.packages }, done⟩ := by
  rw [lockUpdate, Manifest.updateLock_of_ok h, Lockfile.differsFrom, Lockfile.differsFrom]

theorem lockToWrite_path (w : World) (m : Manifest) (cache : String) :
    (w.lockToWrite m cache).path = Lockfile.pathFor m := by
  rw [lockToWrite, Lockfile.finish_path]

theorem lockToWrite_root (w : World) (m : Manifest) (cache : String) :
    (w.lockToWrite m cache).root = Text.packageName (w.lockOf m).root := by
  rw [lockToWrite, Lockfile.finish_root, Lockfile.draft_root, lockUpdate, Manifest.updateLock_root]

namespace Project

variable {w : World} {m : Manifest} {cache : String}

/-- The manifest and the lock file of a project stand beside each other. -/
theorem places (h : w.Project m cache) (hcwd : Path.isAbsolute w.directory = true) :
    ∃ ps, (∀ part ∈ ps, Path.IsPlain part) ∧ m.path = Path.ofParts (ps ++ [Manifest.fileName]) ∧
      m.root = Path.ofParts ps ∧
      Path.parts (Lockfile.pathFor m) = ps ++ [Lockfile.fileName] ∧
      ∃ text, w.files.at? (ps ++ [Manifest.fileName]) = some (.file text) ∧
        Manifest.parse m.path text = .ok m := by
  obtain ⟨path, hfind, hread⟩ := h.manifest
  obtain ⟨ps, hps, rfl⟩ := Manifest.find?_eq_some hcwd hfind
  obtain ⟨text, hfile, hparse⟩ := (Manifest.read_ofParts_iff hps).mp hread
  have hpath := Manifest.path_of_parse hparse
  have hroot : m.root = Path.ofParts ps := by
    rw [Manifest.root, hpath, Path.directory_ofParts hps (by decide)]
  refine ⟨ps, hps, hpath, hroot, ?_, text, hfile, hpath ▸ hparse⟩
  rw [Lockfile.pathFor, hroot, Path.parts_join _ (by decide),
    Path.parts_ofParts hps]

/-- The path of the lock file is absolute and clean. -/
theorem pathFor_absolute (h : w.Project m cache) (hcwd : Path.isAbsolute w.directory = true) :
    Lockfile.pathFor m ≠ "" ∧
      Path.absolute w.directory (Lockfile.pathFor m) = Lockfile.pathFor m := by
  obtain ⟨ps, -, -, hroot, -⟩ := h.places hcwd
  have habsolute : Path.isAbsolute m.root = true := hroot ▸ Path.isAbsolute_ofParts ps
  exact ⟨Path.ne_empty_of_isAbsolute (Path.isAbsolute_join habsolute _),
    Path.absolute_join habsolute (by decide) w.directory⟩

theorem getLast?_pathFor (h : w.Project m cache) (hcwd : Path.isAbsolute w.directory = true) :
    (Path.parts (Lockfile.pathFor m)).getLast? = some Lockfile.fileName := by
  obtain ⟨ps, -, -, -, hlock, -⟩ := h.places hcwd
  rw [hlock, List.getLast?_concat]

/-- The directory of the project is there. -/
theorem at?_ne_none (h : w.Project m cache) (hcwd : Path.isAbsolute w.directory = true) :
    w.files.at? (Path.parts (Lockfile.pathFor m)).dropLast ≠ none := by
  obtain ⟨ps, -, -, -, hlock, text, hfile, -⟩ := h.places hcwd
  intro hnone
  rw [hlock, List.dropLast_concat] at hnone
  rw [FileTree.at?_eq_none_below (List.prefix_append ps _) hnone] at hfile
  cases hfile

/-- What the command prints before it installs. -/
def heading (m : Manifest) (cache : String) : String :=
  "Manifest: " ++ m.path ++ "\nRoot package: " ++ m.name ++ "\nDependencies: " ++
    toString m.dependencies.length ++ "\nCache directory: " ++ cache ++ "\n"

theorem install_eq (h : w.Project m cache) : w.install =
    match Lockfile.read w.files w.directory (Lockfile.pathFor m) with
    | .ok lock =>
      if lock.root ≠ Text.packageName m.name then
        w.fail (heading m cache) (otherProjectMessage lock.root m.name)
      else w.installInto m cache (heading m cache) lock false
    | .error e =>
      if e.isMissing then
        w.installInto m cache (heading m cache) (Lockfile.fresh m.name toolVersion w.now) true
      else w.fail (heading m cache) ("failed to read lockfile: " ++ e.message) := by
  obtain ⟨path, hfind, hread⟩ := h.manifest
  unfold install
  rw [hfind]
  dsimp only
  rw [hread, h.cache]
  dsimp only
  cases Lockfile.read w.files w.directory (Lockfile.pathFor m) with
  | ok lock => dsimp only [heading]
  | error e => dsimp only [heading]

/-- A lock file of the project is installed into. -/
theorem install_of_read (h : w.Project m cache) {lock : Lockfile}
    (hread : Lockfile.read w.files w.directory (Lockfile.pathFor m) = .ok lock)
    (hroot : lock.root = Text.packageName m.name) :
    w.install = w.installInto m cache (heading m cache) lock false := by
  rw [h.install_eq, hread]
  exact if_neg (not_not.mpr hroot)

/-- Where there is no lock file, a fresh one is installed into. -/
theorem install_of_missing (h : w.Project m cache) {e : Lockfile.ReadError}
    (hread : Lockfile.read w.files w.directory (Lockfile.pathFor m) = .error e)
    (hmissing : e.isMissing = true) : w.install =
      w.installInto m cache (heading m cache) (Lockfile.fresh m.name toolVersion w.now) true := by
  rw [h.install_eq, hread]
  exact if_pos hmissing

section Into

variable {printed : String} {lock : Lockfile} {created : Bool}

theorem installInto_of_error {e : InstallError} (h : (w.lockUpdate m cache lock).changed = .error e) :
    w.installInto m cache printed lock created =
      ({ w with files := (w.lockUpdate m cache lock).done.files }).fail printed
        ("failed to resolve dependencies: " ++ e.message) := by
  unfold installInto
  dsimp only
  rw [h]

variable {changed : Bool} (h : (w.lockUpdate m cache lock).changed = .ok changed)
include h

theorem installInto_of_same (hsame : (created || changed) = false) :
    w.installInto m cache printed lock created =
      ({ w with files := (w.lockUpdate m cache lock).done.files }).succeed
        (printed ++ String.join ((w.lockUpdate m cache lock).done.reports.map (· ++ "\n")) ++
          Lockfile.fileName ++ " already up to date: " ++ Lockfile.pathFor m ++
          "\nDependencies installed.\n") := by
  unfold installInto
  dsimp only
  rw [h]
  dsimp only
  rw [if_neg (by simpa using hsame)]

theorem installInto_of_written (hchanged : (created || changed) = true) {written : Lockfile}
    {files : FileTree} (hwrite : (w.lockUpdate m cache lock).lock.draft.write
      (w.lockUpdate m cache lock).done.files w.directory w.now (Lockfile.pathFor m) =
        .ok (written, files)) :
    w.installInto m cache printed lock created = ({ w with files }).succeed
      (printed ++ String.join ((w.lockUpdate m cache lock).done.reports.map (· ++ "\n")) ++
        (if created then "Created " else "Updated ") ++ Lockfile.fileName ++ ": " ++ written.path ++
        "\nDependencies installed.\n") := by
  unfold installInto
  dsimp only
  rw [h]
  dsimp only
  rw [if_pos hchanged, hwrite]

theorem installInto_of_unwritten (hchanged : (created || changed) = true)
    {e : Lockfile.WriteError} (hwrite : (w.lockUpdate m cache lock).lock.draft.write
      (w.lockUpdate m cache lock).done.files w.directory w.now (Lockfile.pathFor m) = .error e) :
    w.installInto m cache printed lock created =
      ({ w with files := (w.lockUpdate m cache lock).done.files }).fail
        (printed ++ String.join ((w.lockUpdate m cache lock).done.reports.map (· ++ "\n")))
        ("failed to write lockfile: " ++ e.message) := by
  unfold installInto
  dsimp only
  rw [h]
  dsimp only
  rw [if_pos hchanged, hwrite]

end Into

section Writing

variable (h : w.Project m cache) (hcwd : Path.isAbsolute w.directory = true) {done : Installation}
  (hdone : m.install (w.surroundings m cache) w.files = (.ok (), done))
  (habove : done.files.at? (Path.parts (Lockfile.pathFor m)).dropLast = some .directory)
  (hfree : done.files.at? (Path.parts (Lockfile.pathFor m)) ≠ some .directory)
include h hcwd hdone habove hfree

theorem exists_installInto_eq {printed : String} {lock : Lockfile} {created : Bool}
    (hchanged : (created || lock.differsFrom (Lockfile.sortByName done.packages)) = true) :
    ∃ files, w.installInto m cache printed lock created = ({ w with files }).succeed
      (printed ++ String.join (done.reports.map (· ++ "\n")) ++
        (if created then "Created " else "Updated ") ++ Lockfile.fileName ++ ": " ++
        Lockfile.pathFor m ++ "\nDependencies installed.\n") := by
  obtain ⟨hne, hplace⟩ := h.pathFor_absolute hcwd
  have hupdate := lockUpdate_of_ok hdone lock
  obtain ⟨files, hwrite⟩ := @Lockfile.exists_write (w.lockUpdate m cache lock).lock.draft _
    w.directory _ w.now hne hplace habove hfree
  refine ⟨files, ?_⟩
  rw [installInto_of_written (congrArg LockUpdate.changed hupdate) hchanged
    (by rw [congrArg LockUpdate.done hupdate]; exact hwrite), Lockfile.finish_path, hupdate]

/-- An installation writes the lock file of the project if other packages were resolved. -/
theorem install_updates {lock : Lockfile}
    (hread : Lockfile.read w.files w.directory (Lockfile.pathFor m) = .ok lock)
    (hroot : lock.root = Text.packageName m.name)
    (hdiffers : lock.differsFrom (Lockfile.sortByName done.packages) = true) :
    ∃ files, w.install = ({ w with files }).succeed (heading m cache ++
      String.join (done.reports.map (· ++ "\n")) ++ "Updated " ++ Lockfile.fileName ++ ": " ++
      Lockfile.pathFor m ++ "\nDependencies installed.\n") := by
  rw [h.install_of_read hread hroot]
  exact h.exists_installInto_eq hcwd hdone habove hfree hdiffers

/-- Where there is no lock file, an installation writes one. -/
theorem install_creates {e : Lockfile.ReadError}
    (hread : Lockfile.read w.files w.directory (Lockfile.pathFor m) = .error e)
    (hmissing : e.isMissing = true) :
    ∃ files, w.install = ({ w with files }).succeed (heading m cache ++
      String.join (done.reports.map (· ++ "\n")) ++ "Created " ++ Lockfile.fileName ++ ": " ++
      Lockfile.pathFor m ++ "\nDependencies installed.\n") := by
  rw [h.install_of_missing hread hmissing]
  exact h.exists_installInto_eq hcwd hdone habove hfree (Bool.true_or _)

end Writing

/-- A failed installation leaves the files that came of resolving. -/
theorem files_of_installInto_failed {printed : String} {lock : Lockfile} {created : Bool}
    (hfailed : (w.installInto m cache printed lock created).status ≠ 0) :
    (w.installInto m cache printed lock created).files =
      (m.install (w.surroundings m cache) w.files).2.files := by
  rw [← Manifest.updateLock_done m (w.surroundings m cache) w.files
    { lock with path := Lockfile.pathFor m, tool := toolVersion }]
  change _ = (w.lockUpdate m cache lock).done.files
  cases hupdate : (w.lockUpdate m cache lock).changed with
  | error e => rw [installInto_of_error hupdate]; rfl
  | ok changed =>
      cases hchanged : created || changed with
      | false =>
          rw [installInto_of_same hupdate hchanged] at hfailed
          exact absurd rfl hfailed
      | true =>
          cases hwrite : (w.lockUpdate m cache lock).lock.draft.write
              (w.lockUpdate m cache lock).done.files w.directory w.now (Lockfile.pathFor m) with
          | error e => rw [installInto_of_unwritten hupdate hchanged hwrite]; rfl
          | ok written =>
              rw [installInto_of_written hupdate hchanged hwrite] at hfailed
              exact absurd rfl hfailed

/-- **An installation that fails leaves the lock file as it was**, or leaves none if there was none. -/
theorem lock_of_failed (h : w.Project m cache) (hs : (w.surroundings m cache).WellFormed)
    (hfailed : w.install.status ≠ 0) {text : String} :
    w.install.files.at? (Path.parts (Lockfile.pathFor m)) = some (.file text) ↔
      w.files.at? (Path.parts (Lockfile.pathFor m)) = some (.file text) := by
  have hinto : ∀ {lock : Lockfile} {created : Bool},
      (w.installInto m cache (heading m cache) lock created).status ≠ 0 →
      ((w.installInto m cache (heading m cache) lock created).files.at?
          (Path.parts (Lockfile.pathFor m)) = some (.file text) ↔
        w.files.at? (Path.parts (Lockfile.pathFor m)) = some (.file text)) := by
    intro lock created hfailed
    rw [files_of_installInto_failed hfailed]
    exact ((m.installs hs w.files).adds hs).file_iff (h.at?_ne_none hs.cwd)
  rw [h.install_eq] at hfailed ⊢
  split at hfailed
  · next lock hread =>
      split at hfailed
      · next hother =>
          rw [if_pos hother]
          rfl
      · next hown =>
          rw [if_neg hown]
          exact hinto hfailed
  · next e hread =>
      split at hfailed
      · next hmissing =>
          rw [if_pos hmissing]
          exact hinto hfailed
      · next hmissing =>
          rw [if_neg hmissing]
          rfl

/-- A command that succeeds has installed into the lock file of the project. -/
theorem install_of_succeeds (h : w.Project m cache) (hok : w.install.status = 0) :
    ∃ created, w.install = w.installInto m cache (heading m cache) (w.lockOf m) created ∧
      (w.lockOf m).root = Text.packageName m.name ∧
      (created = false ↔
        Lockfile.read w.files w.directory (Lockfile.pathFor m) = .ok (w.lockOf m)) := by
  have hinstall := h.install_eq
  unfold lockOf
  cases hread : Lockfile.read w.files w.directory (Lockfile.pathFor m) with
  | ok lock =>
      rw [hread] at hinstall
      dsimp only at hinstall ⊢
      split at hinstall
      · rw [hinstall] at hok
        cases hok
      · next hroot => exact ⟨false, hinstall, not_not.mp hroot, by simp⟩
  | error e =>
      rw [hread] at hinstall
      dsimp only at hinstall ⊢
      split at hinstall
      · exact ⟨true, hinstall, rfl, by simp⟩
      · rw [hinstall] at hok
        cases hok

/-- **What an installation that succeeds did with the lock file**: it left the one that was there, whose
packages are the ones that were resolved, or it wrote one with them. -/
theorem lock_of_succeeds (h : w.Project m cache) (hcwd : Path.isAbsolute w.directory = true)
    (hok : w.install.status = 0) : (w.lockOf m).root = Text.packageName m.name ∧
    ∃ changed, (w.lockUpdate m cache (w.lockOf m)).changed = .ok changed ∧
      ((w.KeepsLock m cache ∧
          w.install.files = (w.lockUpdate m cache (w.lockOf m)).done.files) ∨
        (¬ w.KeepsLock m cache ∧
          (w.lockUpdate m cache (w.lockOf m)).done.files.write (Lockfile.pathFor m)
            (w.lockToWrite m cache).record.text = .ok w.install.files)) := by
  obtain ⟨created, hinstall, hroot, hread⟩ := h.install_of_succeeds hok
  refine ⟨hroot, ?_⟩
  rw [hinstall] at hok ⊢
  cases hupdate : (w.lockUpdate m cache (w.lockOf m)).changed with
  | error e =>
      rw [installInto_of_error hupdate] at hok
      cases hok
  | ok changed =>
      refine ⟨changed, rfl, ?_⟩
      cases hchanged : created || changed with
      | false =>
          obtain ⟨hold, rfl⟩ := Bool.or_eq_false_iff.mp hchanged
          refine .inl ⟨⟨hread.mp hold, hupdate⟩, ?_⟩
          rw [installInto_of_same hupdate hchanged]
          rfl
      | true =>
          refine .inr ⟨fun ⟨hthere, hsame⟩ => ?_, ?_⟩
          · rw [hread.mpr hthere, Except.ok.inj (hupdate.symm.trans hsame)] at hchanged
            cases hchanged
          · cases hwrite : (w.lockUpdate m cache (w.lockOf m)).lock.draft.write
                (w.lockUpdate m cache (w.lockOf m)).done.files w.directory w.now
                (Lockfile.pathFor m) with
            | error e =>
                rw [installInto_of_unwritten hupdate hchanged hwrite] at hok
                cases hok
            | ok written =>
                obtain ⟨hne, hplace⟩ := h.pathFor_absolute hcwd
                rw [installInto_of_written hupdate hchanged hwrite]
                exact Lockfile.write_eq_ok hne hplace hwrite

/-- The same in terms of what was resolved. -/
theorem exists_done_of_succeeds (h : w.Project m cache) (hcwd : Path.isAbsolute w.directory = true)
    (hok : w.install.status = 0) : (w.lockOf m).root = Text.packageName m.name ∧
    ∃ done, m.install (w.surroundings m cache) w.files = (.ok (), done) ∧
      ((w.KeepsLock m cache ∧ w.install.files = done.files) ∨
        (¬ w.KeepsLock m cache ∧ done.files.write (Lockfile.pathFor m)
          (w.lockToWrite m cache).record.text = .ok w.install.files)) := by
  obtain ⟨hroot, changed, hupdate, hlock⟩ := h.lock_of_succeeds hcwd hok
  exact ⟨hroot, _, Manifest.install_of_changed hupdate, hlock⟩

/-- A lock file that was written is read back as one of the project, with the packages in their normal
form. -/
theorem read_of_written (h : w.Project m cache) (hcwd : Path.isAbsolute w.directory = true)
    (hroot : (w.lockOf m).root = Text.packageName m.name)
    (hyaml : (w.lockToWrite m cache).record.ReadsBack Lockfile.shape) {old new : FileTree}
    (hwrite : old.write (Lockfile.pathFor m) (w.lockToWrite m cache).record.text = .ok new) :
    ∃ lock, Lockfile.read new w.directory (Lockfile.pathFor m) = .ok lock ∧
      lock.root = Text.packageName m.name ∧
      lock.packages = (w.lockToWrite m cache).draft.normalize.packages := by
  obtain ⟨hne, hplace⟩ := h.pathFor_absolute hcwd
  have hpath := w.lockToWrite_path m cache
  have hnormal := w.lockToWrite_root m cache
  generalize w.lockToWrite m cache = written at *
  have hfile : new.at? (Path.parts (Lockfile.pathFor m)) = some (.file written.record.text) := by
    rw [FileTree.at?_write hwrite, if_pos rfl]
  have hparse := Lockfile.parse_text hyaml
  rw [hpath] at hparse
  refine ⟨_, (Lockfile.read_of_file hne hplace hfile).trans hparse, ?_, rfl⟩
  calc Text.packageName written.root
      = Text.packageName (Text.packageName (w.lockOf m).root) := by rw [hnormal]
    _ = Text.packageName m.name := by
      rw [hroot, Text.packageName_packageName, Text.packageName_packageName]

end Project

end CommandLine.World

end ObjectLang
