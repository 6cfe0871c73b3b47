import Mathlib.Logic.Relation
import ObjectLang.Proofs.LockFiles
import ObjectLang.Proofs.Projects

/-! The graph of the dependencies that an installation locks. A package is locked after all that its
manifest declares, so the graph is closed and has no cycle; and a cycle is only ever reported for names
that lead back to themselves. -/

namespace ObjectLang

/-- A package is locked under one name, and the manifest in its directory declares another. -/
def Surroundings.Needs (s : Surroundings) (files : FileTree) (packages : List LockedPackage)
    (name needed : String) : Prop :=
  ∃ p ∈ packages, p.name = name ∧ ∃ m, s.manifestIn files p.directory = .ok (some m) ∧
    ∃ d ∈ m.dependencies, Text.packageName d.1 = needed

/-- The packages are distinct, their directories are there, and each comes after those that it needs. -/
structure Installation.Settled (s : Surroundings) (i : Installation) : Prop where
  distinct : i.names.Nodup
  absolute : ∀ p ∈ i.packages, Path.isAbsolute p.directory = true
  there : ∀ p ∈ i.packages, i.files.at? (Path.parts p.directory) ≠ none
  ordered : ∀ name needed, s.Needs i.files i.packages name needed →
    i.names.idxOf needed < i.names.idxOf name

namespace Installation.Settled

variable {s : Surroundings} {i after : Installation}

theorem start (s : Surroundings) (files : FileTree) : Settled s ⟨files, [], []⟩ where
  distinct := List.nodup_nil
  absolute := nofun
  there := nofun
  ordered _ _ := fun ⟨_, hp, _⟩ => absurd hp List.not_mem_nil

/-- Files that are added do not matter. -/
theorem of_adds (h : i.Settled s) (hadds : FileTree.Adds i.files after.files)
    (hpackages : after.packages = i.packages) : after.Settled s where
  distinct := by
    rw [names, hpackages]
    exact h.distinct
  absolute := by
    rw [hpackages]
    exact h.absolute
  there p hp hnone := by
    rw [hpackages] at hp
    exact h.there p hp (hadds.none_of_none hnone)
  ordered := by
    rintro name needed ⟨p, hp, hname, m, hm, hneeded⟩
    rw [hpackages] at hp
    rw [names, hpackages]
    rw [Surroundings.manifestIn_eq_some_of_adds hadds (h.absolute p hp) (h.there p hp)] at hm
    exact h.ordered name needed ⟨p, hp, hname, m, hm, hneeded⟩

/-- A package may be added once all that it needs is there. -/
theorem add (h : i.Settled s) {p : LockedPackage} (hnew : p.name ∉ i.names)
    (habsolute : Path.isAbsolute p.directory = true)
    (hthere : i.files.at? (Path.parts p.directory) ≠ none)
    (hneeded : ∀ m, s.manifestIn i.files p.directory = .ok (some m) →
      ∀ d ∈ m.dependencies, Text.packageName d.1 ∈ i.names) : (i.add p).Settled s where
  distinct := by
    rw [add_names, List.nodup_append]
    refine ⟨h.distinct, List.pairwise_singleton _ _, fun name hname other hother => ?_⟩
    rw [List.mem_singleton.mp hother]
    exact fun heq => hnew (heq ▸ hname)
  absolute := by
    simpa [or_imp, forall_and] using ⟨h.absolute, habsolute⟩
  there := by
    simpa [or_imp, forall_and] using ⟨h.there, hthere⟩
  ordered := by
    rintro name needed ⟨q, hq, rfl, m, hm, d, hd, rfl⟩
    rw [add_files] at hm
    rw [add_names]
    rcases List.mem_append.mp hq with hq | hq
    · have hlt := h.ordered _ _ ⟨q, hq, rfl, m, hm, d, hd, rfl⟩
      have hname : q.name ∈ i.names := List.mem_map_of_mem hq
      have hmem := List.idxOf_lt_length_iff.mp
        (Nat.lt_trans hlt (List.idxOf_lt_length_iff.mpr hname))
      rwa [List.idxOf_append_of_mem hmem, List.idxOf_append_of_mem hname]
    · obtain rfl := List.mem_singleton.mp hq
      have hmem := hneeded m hm d hd
      rw [List.idxOf_append_of_mem hmem, List.idxOf_append_of_notMem hnew]
      exact Nat.lt_of_lt_of_le (List.idxOf_lt_length_iff.mpr hmem) (Nat.le_add_right _ _)

theorem mem_of_needs (h : i.Settled s) {name needed : String}
    (hneeds : s.Needs i.files i.packages name needed) : needed ∈ i.names := by
  obtain ⟨p, hp, rfl, hm⟩ := hneeds
  have hlt := h.ordered _ _ ⟨p, hp, rfl, hm⟩
  exact List.idxOf_lt_length_iff.mp
    (Nat.lt_trans hlt (List.idxOf_lt_length_iff.mpr (List.mem_map_of_mem hp)))

/-- Along a chain of needs the packages come ever earlier. -/
theorem acyclic (h : i.Settled s) (name : String) :
    ¬ Relation.TransGen (s.Needs i.files i.packages) name name := by
  have hearlier : ∀ {first last : String},
      Relation.TransGen (s.Needs i.files i.packages) first last →
      i.names.idxOf last < i.names.idxOf first := by
    intro first last hchain
    induction hchain with
    | single hneeds => exact h.ordered _ _ hneeds
    | tail _ hneeds ih => exact Nat.lt_trans (h.ordered _ _ hneeds) ih
  exact fun hcycle => Nat.lt_irrefl _ (hearlier hcycle)

end Installation.Settled

namespace Installs

variable {s : Surroundings} {above : List String} {wanted : List (String × Dependency)}
  {base : String} {i after : Installation} {result : Except InstallError Unit}

/-- What is installed stays installed. -/
theorem packages_subset (h : Installs s above wanted base i result after) :
    i.packages ⊆ after.packages := by
  induction h with
  | done => exact List.Subset.refl _
  | known hknown hrest ih => exact ih
  | cycle hnew habove => exact List.Subset.refl _
  | unresolved hnew habove hresolve =>
      rw [(Install.outcome_resolveOne_eq_error hresolve).2.1]
      exact List.Subset.refl _
  | within hnew habove hlocates hneeds ih => exact ih
  | installed hnew habove hlocates hneeds hrest ihneeds ihrest =>
      exact List.Subset.trans ihneeds (List.Subset.trans (List.subset_append_left _ _) ihrest)

theorem names_subset (h : Installs s above wanted base i result after) : i.names ⊆ after.names :=
  List.map_subset _ h.packages_subset

/-- Nothing is installed under a name that is being installed. -/
theorem not_mem_names (hs : s.WellFormed) (h : Installs s above wanted base i result after)
    {key : String} (hkey : key ∈ above) (hi : key ∉ i.names) : key ∉ after.names := by
  induction h with
  | done => exact hi
  | known hknown hrest ih => exact ih hkey hi
  | cycle hnew habove => exact hi
  | unresolved hnew habove hresolve =>
      rw [Installation.names, (Install.outcome_resolveOne_eq_error hresolve).2.1]
      exact hi
  | within hnew habove hlocates hneeds ih => exact ih (List.mem_cons_of_mem _ hkey) hi
  | installed hnew habove hlocates hneeds hrest ihneeds ihrest =>
      refine ihrest hkey ?_
      rw [Installation.add_names, List.mem_append, List.mem_singleton, hlocates.name_eq hs, not_or]
      exact ⟨ihneeds (List.mem_cons_of_mem _ hkey) hi, fun heq => habove (heq ▸ hkey)⟩

/-- An installation that succeeds installs all that is wanted. -/
theorem names_of_wanted (h : Installs s above wanted base i result after) (hok : result = .ok ()) :
    ∀ d ∈ wanted, Text.packageName d.1 ∈ after.names := by
  induction h with
  | done => exact nofun
  | known hknown hrest ih =>
      exact List.forall_mem_cons.mpr ⟨hrest.names_subset hknown, ih hok⟩
  | cycle hnew habove => cases hok
  | unresolved hnew habove hresolve => cases hok
  | within hnew habove hlocates hneeds ih => cases hok
  | installed hnew habove hlocates hneeds hrest ihneeds ihrest =>
      refine List.forall_mem_cons.mpr ⟨hrest.names_subset ?_, ihrest hok⟩
      rw [Installation.add_names, hlocates.package_name]
      exact List.mem_append_right _ (List.mem_singleton_self _)

/-- An installation keeps the packages in order. -/
theorem settled (hs : s.WellFormed) (h : Installs s above wanted base i result after)
    (hi : i.Settled s) : after.Settled s := by
  induction h with
  | done => exact hi
  | known hknown hrest ih => exact ih hi
  | cycle hnew habove => exact hi
  | unresolved hnew habove hresolve =>
      obtain ⟨-, hpackages, hfiles⟩ := Install.outcome_resolveOne_eq_error hresolve
      refine hi.of_adds ?_ hpackages
      rw [hfiles]
      exact hs.adds_resolve _ _ _ _
  | within hnew habove hlocates hneeds ih => exact ih (hi.of_adds (hlocates.adds hs) rfl)
  | installed hnew habove hlocates hneeds hrest ihneeds ihrest =>
      have hbetween := ihneeds (hi.of_adds (hlocates.adds hs) rfl)
      have hadds := hneeds.adds hs
      have habsolute := hlocates.isAbsolute hs
      have hthere := hlocates.at?_ne_none
      refine ihrest (hbetween.add ?_ habsolute (fun hnone => hthere (hadds.none_of_none hnone)) ?_)
      · rw [hlocates.name_eq hs]
        exact hneeds.not_mem_names hs List.mem_cons_self hnew
      · intro m hm d hd
        rw [Surroundings.manifestIn_eq_some_of_adds hadds habsolute hthere,
          Installation.located_files, hlocates.manifest hs] at hm
        refine hneeds.names_of_wanted rfl d ?_
        rw [ResolvedPackage.needed, Except.ok.inj hm]
        exact hd

end Installs

/-- The points that the installation of a project comes to on its way: the names for whose sake it goes
on there, what is still wanted, the directory of the manifest that wants it, and the state. -/
inductive Manifest.Comes (m : Manifest) (s : Surroundings) (files : FileTree) :
    List String → List (String × Dependency) → String → Installation → Prop
  | start : m.Comes s files [] m.dependencies s.root ⟨files, [], []⟩
  | known {above name d rest base i} (hcomes : m.Comes s files above ((name, d) :: rest) base i)
      (hknown : Text.packageName name ∈ i.names) : m.Comes s files above rest base i
  | inner {above name d rest base i r after}
      (hcomes : m.Comes s files above ((name, d) :: rest) base i)
      (hnew : Text.packageName name ∉ i.names) (habove : Text.packageName name ∉ above)
      (hlocates : s.Locates i.files name d base r after) :
      m.Comes s files (Text.packageName name :: above) r.needed r.package.directory
        (i.located r after)
  | outer {above name d rest base i r after between}
      (hcomes : m.Comes s files above ((name, d) :: rest) base i)
      (hnew : Text.packageName name ∉ i.names) (habove : Text.packageName name ∉ above)
      (hlocates : s.Locates i.files name d base r after)
      (hneeds : Installs s (Text.packageName name :: above) r.needed r.package.directory
        (i.located r after) (.ok ()) between) :
      m.Comes s files above rest base (between.add r.package)

/-- The installation of a project resolves a name to a package: it comes to a dependency of that name
that is neither installed nor being installed, and locates it. -/
def Manifest.Resolves (m : Manifest) (s : Surroundings) (files : FileTree) (name : String)
    (r : ResolvedPackage) : Prop :=
  ∃ above spelled d rest base i after, m.Comes s files above ((spelled, d) :: rest) base i ∧
    name ∉ i.names ∧ name ∉ above ∧ s.Locates i.files spelled d base r after ∧
    Text.packageName spelled = name

/-- The manifest of the package to which a name is resolved declares another name. -/
def Manifest.Leads (m : Manifest) (s : Surroundings) (files : FileTree) (name needed : String) : Prop :=
  ∃ r, m.Resolves s files name r ∧ ∃ child ∈ r.needed, Text.packageName child.1 = needed

/-- A cycle is reported for a name that leads back to itself: every name above leads to all that is
wanted. -/
theorem Installs.leads_of_cycle {m : Manifest} {s : Surroundings} {files : FileTree}
    {above : List String} {wanted : List (String × Dependency)} {base : String}
    {i after : Installation} {result : Except InstallError Unit}
    (h : Installs s above wanted base i result after) {e : InstallError} (he : result = .error e)
    {key : String} (hcycle : e.cause = .cycle key) (hcomes : m.Comes s files above wanted base i)
    (habove : ∀ name ∈ above, ∀ d ∈ wanted,
      Relation.TransGen (m.Leads s files) name (Text.packageName d.1)) :
    Relation.TransGen (m.Leads s files) key key := by
  induction h generalizing e with
  | done => cases he
  | known hknown hrest ih =>
      exact ih he hcycle (hcomes.known hknown)
        fun name hname => (List.forall_mem_cons.mp (habove name hname)).2
  | cycle hnew hmem =>
      cases he
      cases hcycle
      exact habove _ hmem (_, _) List.mem_cons_self
  | unresolved hnew _ hresolve =>
      cases he
      obtain ⟨⟨cause, rfl⟩, -⟩ := Install.outcome_resolveOne_eq_error hresolve
      cases hcycle
  | within hnew hfree hlocates hneeds ih =>
      cases he
      refine ih rfl hcycle (hcomes.inner hnew hfree hlocates) fun name hname child hchild => ?_
      have hleads : m.Leads s files (Text.packageName _) (Text.packageName child.1) :=
        ⟨_, ⟨_, _, _, _, _, _, _, hcomes, hnew, hfree, hlocates, rfl⟩, child, hchild, rfl⟩
      rcases List.mem_cons.mp hname with rfl | hname
      · exact .single hleads
      · exact (habove name hname (_, _) List.mem_cons_self).tail hleads
  | installed hnew hfree hlocates hneeds hrest ihneeds ihrest =>
      exact ihrest he hcycle (hcomes.outer hnew hfree hlocates hneeds)
        fun name hname => (List.forall_mem_cons.mp (habove name hname)).2

mutual

/-- The files that there can be while what a project asks for is being resolved. -/
inductive Manifest.Meets (m : Manifest) (s : Surroundings) (files : FileTree) : FileTree → Prop
  | start : m.Meets s files files
  | resolve {tree : FileTree} {name base : String} {d : Dependency} (htree : m.Meets s files tree)
      (hasked : m.Asks s files name d base) : m.Meets s files (s.resolve tree name d base).2

/-- The dependencies that a project asks for: its own, and those that the manifest of a package
declares that was located for one of them. -/
inductive Manifest.Asks (m : Manifest) (s : Surroundings) (files : FileTree) :
    String → Dependency → String → Prop
  | own {name : String} {d : Dependency} (hown : (name, d) ∈ m.dependencies) :
      m.Asks s files name d s.root
  | needed {tree after : FileTree} {name base child : String} {d description : Dependency}
      {r : ResolvedPackage} (hasked : m.Asks s files name d base) (htree : m.Meets s files tree)
      (hlocates : s.Locates tree name d base r after) (hchild : (child, description) ∈ r.needed) :
      m.Asks s files child description r.package.directory

end

namespace Manifest

/-- What is asked for is located as the same package at whatever point of an installation. -/
def Fixed (m : Manifest) (s : Surroundings) (files : FileTree) : Prop :=
  ∀ {name d base}, m.Asks s files name d base → ∀ {tree other}, m.Meets s files tree →
    m.Meets s files other → ∀ {r after}, s.Locates tree name d base r after →
    ∃ after', s.Locates other name d base r after'

variable {m : Manifest} {s : Surroundings} {files : FileTree}

theorem Meets.locates {tree after : FileTree} {name base : String} {d : Dependency}
    {r : ResolvedPackage} (htree : m.Meets s files tree) (hasked : m.Asks s files name d base)
    (hlocates : s.Locates tree name d base r after) : m.Meets s files after := by
  rw [hlocates.after_eq]
  exact .resolve htree hasked

end Manifest

namespace Installs

variable {s : Surroundings} {above : List String} {wanted : List (String × Dependency)}
  {base : String} {i after : Installation} {result : Except InstallError Unit}

theorem meets {m : Manifest} {files : FileTree} (h : Installs s above wanted base i result after)
    (hwanted : ∀ d ∈ wanted, m.Asks s files d.1 d.2 base) (hi : m.Meets s files i.files) :
    m.Meets s files after.files := by
  induction h with
  | done => exact hi
  | known hknown hrest ih => exact ih (List.forall_mem_cons.mp hwanted).2 hi
  | cycle hnew habove => exact hi
  | unresolved hnew habove hresolve =>
      rw [(Install.outcome_resolveOne_eq_error hresolve).2.2]
      exact .resolve hi (List.forall_mem_cons.mp hwanted).1
  | within hnew habove hlocates hneeds ih =>
      have hasked := (List.forall_mem_cons.mp hwanted).1
      exact ih (fun child hchild => .needed hasked hi hlocates hchild)
        (hi.locates hasked hlocates)
  | installed hnew habove hlocates hneeds hrest ihneeds ihrest =>
      obtain ⟨hasked, hwanted⟩ := List.forall_mem_cons.mp hwanted
      exact ihrest hwanted (ihneeds (fun child hchild => .needed hasked hi hlocates hchild)
        (hi.locates hasked hlocates))

/-- An installation can be repeated elsewhere if every package is located there too. The conditions are
on the files here and there, and on what is asked for. -/
theorem repeated (here there : FileTree → Prop) (asked : String → Dependency → String → Prop)
    (final : List LockedPackage)
    (hstep : ∀ {tree other name d base r next}, here tree → there other → asked name d base →
      r.package ∈ final → s.Locates tree name d base r next →
      here next ∧ (∀ child ∈ r.needed, asked child.1 child.2 r.package.directory) ∧
        ∃ next', s.Locates other name d base r next' ∧ there next')
    (h : Installs s above wanted base i result after) (hok : result = .ok ())
    (hfinal : after.packages ⊆ final) (hwanted : ∀ d ∈ wanted, asked d.1 d.2 base)
    (hi : here i.files) {j : Installation} (hj : there j.files) (hpackages : j.packages = i.packages)
    (hreports : j.reports = i.reports) :
    here after.files ∧ ∃ done, Installs s above wanted base j (.ok ()) done ∧ there done.files ∧
      done.packages = after.packages ∧ done.reports = after.reports := by
  induction h generalizing j with
  | done => exact ⟨hi, j, .done, hj, hpackages, hreports⟩
  | known hknown hrest ih =>
      obtain ⟨hafter, done, hdone, hrepeated⟩ :=
        ih hok hfinal (List.forall_mem_cons.mp hwanted).2 hi hj hpackages hreports
      refine ⟨hafter, done, .known ?_ hdone, hrepeated⟩
      rwa [Installation.names, hpackages]
  | cycle hnew habove => cases hok
  | unresolved hnew habove hresolve => cases hok
  | within hnew habove hlocates hneeds ih => cases hok
  | @installed above name d rest base i r files between result after hnew habove hlocates hneeds
      hrest ihneeds ihrest =>
      obtain ⟨hasked, hwanted⟩ := List.forall_mem_cons.mp hwanted
      have hadded : between.packages ++ [r.package] ⊆ final :=
        List.Subset.trans hrest.packages_subset hfinal
      obtain ⟨hnext, hneeded, next, hlocates', hthere⟩ :=
        hstep hi hj hasked (hadded (List.mem_append_right _ (List.mem_singleton_self _))) hlocates
      obtain ⟨hbetween, between', hneeds', hbetween', hpackages', hreports'⟩ :=
        ihneeds rfl (List.Subset.trans (List.subset_append_left _ _) hadded) hneeded hnext
          (j := j.located r next) hthere hpackages
          (by rw [Installation.located, Installation.located, hreports])
      obtain ⟨hafter, done, hrest', hrepeated⟩ :=
        ihrest hok hfinal hwanted hbetween (j := between'.add r.package) hbetween'
          (by rw [Installation.add_packages, Installation.add_packages, hpackages']) hreports'
      refine ⟨hafter, done, .installed ?_ habove hlocates' hneeds' hrest', hrepeated⟩
      rwa [Installation.names, hpackages]

end Installs

/-! ### The locked packages of a project -/

/-- Packages that lock a project: they ascend by name, with all that the project and the manifests of
the packages declare, and no package needs itself. -/
structure Manifest.ClosedBy (m : Manifest) (s : Surroundings) (files : FileTree)
    (locked : List LockedPackage) : Prop where
  ascending : (locked.map (·.name)).Pairwise (· < ·)
  own : ∀ d ∈ m.dependencies, Text.packageName d.1 ∈ locked.map (·.name)
  closed : ∀ name needed, s.Needs files locked name needed → needed ∈ locked.map (·.name)
  acyclic : ∀ name, ¬ Relation.TransGen (s.Needs files locked) name name

theorem Surroundings.needs_congr {s : Surroundings} {files : FileTree}
    {packages other : List LockedPackage} (hperm : packages.Perm other) :
    s.Needs files packages = s.Needs files other := by
  funext name needed
  simp only [Needs, hperm.mem_iff]

namespace Manifest

variable {m : Manifest} {s : Surroundings} {files : FileTree} {done : Installation}

theorem install_eq_of_fst {result : Except InstallError Unit}
    (h : (m.install s files).1 = result) :
    m.install s files = (result, (m.install s files).2) := Prod.ext h rfl

/-- The installation of a project as one without a bound. -/
theorem installs_of_eq (hs : s.WellFormed) {result : Except InstallError Unit}
    (h : m.install s files = (result, done)) :
    Installs s [] m.dependencies s.root ⟨files, [], []⟩ result done := by
  have hinstalls := m.installs hs files
  rwa [h] at hinstalls

theorem closedBy_of_install (hs : s.WellFormed) (h : m.install s files = (.ok (), done)) :
    m.ClosedBy s done.files (Lockfile.sortByName done.packages) := by
  have hinstalls := installs_of_eq hs h
  have hsettled := hinstalls.settled hs (.start s files)
  have hperm := Lockfile.sortByName_perm done.packages
  have hnames : ∀ {name}, name ∈ (Lockfile.sortByName done.packages).map (·.name) ↔
      name ∈ done.names := (hperm.map _).mem_iff
  constructor
  · exact Lockfile.names_sortByName_lt hsettled.distinct
  · exact fun d hd => hnames.mpr (hinstalls.names_of_wanted rfl d hd)
  · intro name needed hneeds
    rw [Surroundings.needs_congr hperm] at hneeds
    exact hnames.mpr (hsettled.mem_of_needs hneeds)
  · rw [Surroundings.needs_congr hperm]
    exact hsettled.acyclic

/-- An installation comes to the same packages again, over the same files, or over the files at any
point of an installation if what is asked for is fixed. -/
theorem install_again (hs : s.WellFormed) (h : m.install s files = (.ok (), done))
    {again : FileTree} (hagain : again = files ∨ (m.Fixed s files ∧ m.Meets s files again)) :
    ∃ second, m.install s again = (.ok (), second) ∧ second.packages = done.packages ∧
      second.reports = done.reports := by
  rcases hagain with rfl | ⟨hfixed, hagain⟩
  · exact ⟨done, h, rfl, rfl⟩
  · obtain ⟨-, second, hsecond, -, hpackages, hreports⟩ :=
      Installs.repeated (m.Meets s files) (m.Meets s files) (m.Asks s files) done.packages
        (fun htree hother hasked _ hlocates => by
          obtain ⟨next, hnext⟩ := hfixed hasked htree hother hlocates
          exact ⟨htree.locates hasked hlocates,
            fun child hchild => .needed hasked htree hlocates hchild, next, hnext,
            hother.locates hasked hnext⟩)
        (installs_of_eq hs h) rfl (List.Subset.refl _) (fun d hd => .own hd) .start
        (j := ⟨again, [], []⟩) hagain rfl rfl
    exact ⟨second, m.install_eq_of_installs hs again hsecond, hpackages, hreports⟩

theorem cause_of_install_error (hs : s.WellFormed) {e : InstallError}
    (h : m.install s files = (.error e, done)) : e.cause ≠ .tooDeep := by
  intro hdeep
  exact m.not_breaksOff hs files (Nat.lt_succ_self _) ⟨e, done, h, hdeep⟩

end Manifest

/-- **The dependencies of a project are resolved to a closed graph without cycles.** The bound on the
depth never matters. If the installation succeeds, the packages of the lock file ascend by name, in
whatever order they were resolved; they hold all that the project and the manifests in their directories
declare; none of them needs itself; and installing again into a lock file with them changes nothing. If
it fails, that is not for its depth, the packages stay, and a cycle is one. A command that fails leaves
the file as it was; one that succeeds leaves it or writes the lock file that installing came to. -/
theorem dependencies_resolve_to_closed_graph (m : Manifest) {s : Surroundings} (hs : s.WellFormed)
    (files : FileTree) (lock : Lockfile) :
    let update := m.updateLock s files lock
    (∀ depth, (Install.knownNames s files m).length < depth →
      (Install.all s depth m).outcome ⟨files, [], []⟩ = m.install s files) ∧
    (∀ changed, update.changed = .ok changed →
      m.ClosedBy s update.done.files update.lock.packages ∧
      (∀ listed, listed.Perm update.done.packages →
        Lockfile.sortByName listed = update.lock.packages) ∧
      m.Meets s files update.done.files ∧ ∀ again, (again = files ∨ (m.Fixed s files ∧ m.Meets s files again)) →
        ∀ other : Lockfile, other.packages = update.lock.packages →
          (m.updateLock s again other).changed = .ok false ∧
          (m.updateLock s again other).lock = other) ∧
    (∀ e, update.changed = .error e → update.lock = lock ∧ e.cause ≠ .tooDeep ∧
      ∀ name, e.cause = .cycle name → Relation.TransGen (m.Leads s files) name name) ∧
    ∀ (w : CommandLine.World) (cache : String), w.Project m cache →
      (w.surroundings m cache).WellFormed →
      (w.install.status ≠ 0 → ∀ text,
        (w.install.files.at? (Path.parts (Lockfile.pathFor m)) = some (.file text) ↔
          w.files.at? (Path.parts (Lockfile.pathFor m)) = some (.file text))) ∧
      (w.install.status = 0 → ∃ changed,
        (w.lockUpdate m cache (w.lockOf m)).changed = .ok changed ∧
        ((w.KeepsLock m cache ∧
            w.install.files = (w.lockUpdate m cache (w.lockOf m)).done.files) ∨
          (¬ w.KeepsLock m cache ∧
            (w.lockUpdate m cache (w.lockOf m)).done.files.write (Lockfile.pathFor m)
              (w.lockToWrite m cache).record.text = .ok w.install.files))) := by
  refine ⟨fun depth hdepth => ?_, fun changed hchanged => ?_, fun e he => ?_,
    fun w cache hw hws => ⟨fun hfailed text => hw.lock_of_failed hws hfailed,
      fun hok => (hw.lock_of_succeeds hws.cwd hok).2⟩⟩
  · exact m.outcome_eq_of_installs hs files hdepth (m.installs hs files)
  · have hdone := Manifest.install_of_changed hchanged
    generalize (m.updateLock s files lock).done = done at hdone
    rw [Manifest.updateLock_of_ok hdone]
    have hdistinct : (done.packages.map (·.name)).Nodup :=
      ((Manifest.installs_of_eq hs hdone).settled hs (.start s files)).distinct
    refine ⟨Manifest.closedBy_of_install hs hdone,
      fun listed hperm => Lockfile.sortByName_congr hdistinct hperm,
      (Manifest.installs_of_eq hs hdone).meets (fun d hd => .own hd) .start, ?_⟩
    intro again hagain other hother
    obtain ⟨second, hsecond, hpackages, -⟩ := Manifest.install_again hs hdone hagain
    rw [Manifest.updateLock_of_ok hsecond, hpackages]
    dsimp only at hother ⊢
    rw [Lockfile.differsFrom_eq_false (Lockfile.nodup_names_sortByName hdistinct) hother, ← hother]
    exact ⟨rfl, rfl⟩
  · have hdone := Manifest.install_of_changed_error he
    refine ⟨by rw [Manifest.updateLock_of_error hdone], Manifest.cause_of_install_error hs hdone,
      fun name hcycle => ?_⟩
    exact (Manifest.installs_of_eq hs hdone).leads_of_cycle rfl hcycle .start nofun

/-- A project with two dependencies that both need a third one. -/
def diamond : Manifest :=
  ⟨"/app/moopl.yml", "app", "", "main.json", false, 0,
    [("left", { path := "left" }), ("right", { path := "right" })]⟩

def diamondFiles : FileTree :=
  ⟨[(["app", "left", "lib.json"], .file ""),
    (["app", "left", "moopl.yml"], .file
      "name: left\nentry: lib.json\ndependencies:\n  Base: ../base\n"),
    (["app", "right", "lib.json"], .file ""),
    (["app", "right", "moopl.yml"], .file
      "name: right\nentry: lib.json\ndependencies:\n  base: ../base\n"),
    (["app", "base", "lib.json"], .file "")]⟩

/-- Surroundings of a project in one directory, without repositories. -/
def appSurroundings : Surroundings := ⟨"/app", "/home/.moopl", "/app", Repository.reachable "/app" []⟩

theorem wellFormed_appSurroundings : appSurroundings.WellFormed :=
  ⟨by decide, by decide, Repository.lawful_reachable (List.forall_mem_nil _) _⟩

/-- A world with a project that needs one package, which needs another, which needs the first one. -/
def looping : CommandLine.World :=
  ⟨⟨[(["app", "moopl.yml"], .file "name: app\nentry: main.json\ndependencies:\n  left: ./left\n"),
    (["app", "moopl.lock"], .file "root: app\n"),
    (["app", "left", "lib.json"], .file ""),
    (["app", "left", "moopl.yml"], .file
      "name: left\nentry: lib.json\ndependencies:\n  Right: ../right\n"),
    (["app", "right", "lib.json"], .file ""),
    (["app", "right", "moopl.yml"], .file
      "name: right\nentry: lib.json\ndependencies:\n  LEFT: ../left\n")]⟩,
    "/app", "", "/home", "2024-01-01T00:00:00Z", []⟩

def loopingManifest : Manifest :=
  ⟨"/app/moopl.yml", "app", "", "main.json", false, 0, [("left", { path := "./left" })]⟩

theorem diamond_resolves_to_closed_graph :
    (∃ changed, (diamond.updateLock appSurroundings diamondFiles (.fresh "app" "" "")).changed =
        .ok changed ∧
      diamond.ClosedBy appSurroundings
        (diamond.updateLock appSurroundings diamondFiles (.fresh "app" "" "")).done.files
        (diamond.updateLock appSurroundings diamondFiles (.fresh "app" "" "")).lock.packages) ∧
    ((loopingManifest.updateLock appSurroundings looping.files (.fresh "app" "" "")).changed =
        .error (.within "left" (.within "right" (.cycle "left"))) ∧
      (loopingManifest.updateLock appSurroundings looping.files (.fresh "app" "" "")).lock =
        .fresh "app" "" "" ∧
      Relation.TransGen (loopingManifest.Leads appSurroundings looping.files) "left" "left") ∧
    looping.install.status = 1 ∧
      looping.install.files.at? ["app", "moopl.lock"] = some (.file "root: app\n") := by
  have hdiamond : (diamond.install appSurroundings diamondFiles).1 = .ok () := by decide +kernel
  have hchanged := congrArg LockUpdate.changed
    (Manifest.updateLock_of_ok (Manifest.install_eq_of_fst hdiamond) (.fresh "app" "" ""))
  have hrun : (loopingManifest.install appSurroundings looping.files).1 =
      .error (.within "left" (.within "right" (.cycle "left"))) := by decide +kernel
  have hloop (lock : Lockfile) := congrArg LockUpdate.changed
    (Manifest.updateLock_of_error (Manifest.install_eq_of_fst hrun) lock)
  have hproject : looping.Project loopingManifest "/home/.moopl" :=
    ⟨⟨"/app/moopl.yml", by decide +kernel, by decide +kernel⟩, by decide⟩
  have hread : Lockfile.read looping.files "/app" (Lockfile.pathFor loopingManifest) =
      .ok ⟨"/app/moopl.lock", "app", "", "", []⟩ := by decide +kernel
  have hstatus : looping.install.status = 1 := by
    have hfailed (lock : Lockfile) : (looping.lockUpdate loopingManifest "/home/.moopl" lock).changed =
        .error (.within "left" (.within "right" (.cycle "left"))) := hloop _
    rw [hproject.install_of_read hread (by decide),
      CommandLine.World.Project.installInto_of_error (hfailed _)]
    rfl
  obtain ⟨-, hclosed, -⟩ := dependencies_resolve_to_closed_graph diamond wellFormed_appSurroundings
    diamondFiles (.fresh "app" "" "")
  obtain ⟨-, -, hfails, hcommand⟩ := dependencies_resolve_to_closed_graph loopingManifest
    wellFormed_appSurroundings looping.files (.fresh "app" "" "")
  obtain ⟨hlock, -, hcycle⟩ := hfails _ (hloop _)
  have hfile := (hcommand looping "/home/.moopl" hproject wellFormed_appSurroundings).1
    (by rw [hstatus]; decide) "root: app\n"
  exact ⟨⟨_, hchanged, (hclosed _ hchanged).1⟩, ⟨hloop _, hlock, hcycle _ rfl⟩, hstatus,
    hfile.mpr (by decide)⟩

end ObjectLang
