import ObjectLang.Proofs.DependencyGraph

/-! Which description of a dependency counts when several manifests describe it, or one manifest does
under several spellings: the one that is met first, going through the dependencies in order and to the
bottom of each before the next. -/

namespace ObjectLang

theorem Surroundings.Needs.mono {s : Surroundings} {i after : Installation} {name needed : String}
    (h : s.Needs i.files i.packages name needed) (hi : i.Settled s)
    (hadds : FileTree.Adds i.files after.files) (hpackages : i.packages ⊆ after.packages) :
    s.Needs after.files after.packages name needed := by
  obtain ⟨p, hp, hname, m, hm, hneeded⟩ := h
  refine ⟨p, hpackages hp, hname, m, ?_, hneeded⟩
  rwa [manifestIn_eq_some_of_adds hadds (hi.absolute p hp) (hi.there p hp)]

namespace Installs

variable {s : Surroundings} {above : List String} {wanted : List (String × Dependency)}
  {base : String} {i after : Installation} {result : Except InstallError Unit}

/-- A list of dependencies is installed one part after the other. -/
theorem split_append {first second : List (String × Dependency)}
    (h : Installs s above (first ++ second) base i (.ok ()) after) :
    ∃ between, Installs s above first base i (.ok ()) between ∧
      Installs s above second base between (.ok ()) after := by
  induction first generalizing i with
  | nil => exact ⟨i, .done, h⟩
  | cons head tail ih =>
      cases h with
      | known hknown hrest =>
          obtain ⟨between, htail, hsecond⟩ := ih hrest
          exact ⟨between, .known hknown htail, hsecond⟩
      | installed hnew habove hlocates hneeds hrest =>
          obtain ⟨between, htail, hsecond⟩ := ih hrest
          exact ⟨between, .installed hnew habove hlocates hneeds htail, hsecond⟩

/-- What an installation installs is wanted, or a package that it installs needs it. -/
theorem mem_names (hs : s.WellFormed) (h : Installs s above wanted base i result after)
    (hok : result = .ok ()) (hi : i.Settled s) {key : String} (hkey : key ∈ after.names) :
    key ∈ i.names ∨ (∃ d ∈ wanted, Text.packageName d.1 = key) ∨
      ∃ name, s.Needs after.files after.packages name key := by
  induction h with
  | done => exact .inl hkey
  | known hknown hrest ih =>
      refine (ih hok hi hkey).imp_right (Or.imp_left ?_)
      exact fun ⟨d, hd, hname⟩ => ⟨d, List.mem_cons_of_mem _ hd, hname⟩
  | cycle hnew habove => cases hok
  | unresolved hnew habove hresolve => cases hok
  | within hnew habove hlocates hneeds ih => cases hok
  | @installed _ name d _ _ i r files _ _ _ hnew habove hlocates hneeds hrest ihneeds ihrest =>
      have hlocated : (i.located r files).Settled s := hi.of_adds (hlocates.adds hs) rfl
      have hbetween := hneeds.settled hs hlocated
      have hadded := (Installs.installed hnew habove hlocates hneeds .done).settled hs hi
      have hadds := hrest.adds hs
      rcases ihrest hok hadded hkey with hkey | hkey | hkey
      · rw [Installation.add_names, List.mem_append, List.mem_singleton,
          hlocates.name_eq hs] at hkey
        rcases hkey with hkey | rfl
        · rcases ihneeds rfl hlocated hkey with hkey | ⟨child, hchild, hname⟩ | ⟨other, hneeds'⟩
          · exact .inl hkey
          · -- the package declares the name, and its manifest is still the one that was read
            obtain ⟨m, hm, hmem⟩ := ResolvedPackage.mem_needed hchild
            have hmanifest := hlocates.manifest hs
            rw [hm] at hmanifest
            refine .inr (.inr ⟨_, r.package, hrest.packages_subset
              (List.mem_append_right _ (List.mem_singleton_self _)), rfl, m, ?_, child, hmem, hname⟩)
            rwa [Surroundings.manifestIn_eq_some_of_adds ((hneeds.adds hs).trans hadds)
              (hlocates.isAbsolute hs) hlocates.at?_ne_none]
          · exact .inr (.inr ⟨other, hneeds'.mono hbetween hadds
              (List.Subset.trans (List.subset_append_left _ _) hrest.packages_subset)⟩)
        · exact .inr (.inl ⟨(name, d), List.mem_cons_self, rfl⟩)
      · obtain ⟨d, hd, hname⟩ := hkey
        exact .inr (.inl ⟨d, List.mem_cons_of_mem _ hd, hname⟩)
      · exact .inr (.inr hkey)

end Installs

/-- A lock file finds the package that was installed under a name. -/
theorem Manifest.package?_updateLock {m : Manifest} {s : Surroundings} (hs : s.WellFormed)
    {files : FileTree} {done : Installation} (h : m.install s files = (.ok (), done))
    {p : LockedPackage} (hp : p ∈ done.packages) {name : String}
    (hname : p.name = Text.packageName name) (lock : Lockfile) :
    (m.updateLock s files lock).lock.package? name = some p := by
  have hdistinct := ((installs_of_eq hs h).settled hs (.start s files)).distinct
  rw [updateLock_of_ok h, Lockfile.package?, ← hname]
  exact Lockfile.find?_name_eq_some (Lockfile.nodup_names_sortByName hdistinct)
    ((Lockfile.sortByName_perm done.packages).mem_iff.mpr hp)

/-- **The description that a project gives of a dependency counts unless the name was met before.** It
was met before just if an earlier dependency of the project has the same normal form, or the manifest
of a package that was locked for the earlier ones declares it; then the package locked for those is the
one that is found, whatever the project's own description says. -/
theorem own_description_counts_unless_met_before {m : Manifest} {s : Surroundings}
    (hs : s.WellFormed) {files : FileTree} {lock : Lockfile} {changed : Bool}
    (h : (m.updateLock s files lock).changed = .ok changed)
    {before rest : List (String × Dependency)} {name : String} {d : Dependency}
    (hm : m.dependencies = before ++ (name, d) :: rest) :
    ∃ earlier, ({ m with dependencies := before }).install s files = (.ok (), earlier) ∧
      (Text.packageName name ∈ earlier.names ↔
        (∃ other ∈ before, Text.packageName other.1 = Text.packageName name) ∨
          ∃ other, s.Needs earlier.files earlier.packages other (Text.packageName name)) ∧
      ∃ p, (m.updateLock s files lock).lock.package? name = some p ∧
        (Text.packageName name ∈ earlier.names → p ∈ earlier.packages) ∧
        (Text.packageName name ∉ earlier.names →
          ∃ r, (s.resolve earlier.files name d s.root).1 = .ok r ∧ r.package = p) := by
  have hdone := Manifest.install_of_changed h
  generalize (m.updateLock s files lock).done = done at hdone
  have hinstalls := Manifest.installs_of_eq hs hdone
  rw [hm] at hinstalls
  obtain ⟨earlier, hearlier, hlater⟩ := hinstalls.split_append
  have hinstall := ({ m with dependencies := before }).install_eq_of_installs hs files hearlier
  have hsettled := hearlier.settled hs (.start s files)
  refine ⟨earlier, hinstall, ⟨fun hmet => ?_, ?_⟩, ?_⟩
  · exact (hearlier.mem_names hs rfl (.start s files) hmet).resolve_left List.not_mem_nil
  · rintro (⟨other, hother, hname⟩ | ⟨other, hneeds⟩)
    · exact hname ▸ hearlier.names_of_wanted rfl other hother
    · exact hsettled.mem_of_needs hneeds
  · cases hlater with
    | known hknown hrest =>
        obtain ⟨p, hp, hname⟩ := List.mem_map.mp hknown
        exact ⟨p, Manifest.package?_updateLock hs hdone (hrest.packages_subset hp) hname lock,
          fun _ => hp, fun hnew => absurd hknown hnew⟩
    | @installed _ _ _ _ _ _ r _ _ _ _ hnew habove hlocates hneeds hrest =>
        have hmem : r.package ∈ done.packages :=
          hrest.packages_subset (List.mem_append_right _ (List.mem_singleton_self _))
        exact ⟨r.package, Manifest.package?_updateLock hs hdone hmem (hlocates.name_eq hs) lock,
          fun hmet => absurd hmet hnew, fun _ => ⟨r, by rw [hlocates.resolve], rfl⟩⟩

/-- A project with two dependencies, of which the first one needs another package under the name of the
second one. -/
def clash : Manifest :=
  ⟨"/app/moopl.yml", "app", "", "main.json", false, 0,
    [("a", { path := "./a" }), ("b", { path := "./b" })]⟩

def clashFiles : FileTree :=
  ⟨[(["app", "a", "lib.json"], .file ""),
    (["app", "a", "moopl.yml"], .file
      "name: a\nentry: lib.json\ndependencies:\n  b: ../other\n"),
    (["app", "b", "lib.json"], .file ""),
    (["app", "other", "lib.json"], .file "")]⟩

theorem install_clash : (clash.install appSurroundings clashFiles).1 = .ok () ∧
    ((clash.install appSurroundings clashFiles).2.packages.find? fun p =>
      decide (p.name = "b")).map (·.directory) = some "/app/other" := by
  decide +kernel

theorem clash_description_met_before :
    (∃ changed, (clash.updateLock appSurroundings clashFiles (.fresh "app" "" "")).changed =
      .ok changed) ∧
    ∃ earlier, ({ clash with dependencies := [("a", { path := "./a" })] }).install
        appSurroundings clashFiles = (.ok (), earlier) ∧
      ∃ p, (clash.updateLock appSurroundings clashFiles (.fresh "app" "" "")).lock.package? "b" =
          some p ∧
        (Text.packageName "b" ∈ earlier.names → p ∈ earlier.packages) := by
  have hchanged := congrArg LockUpdate.changed
    (Manifest.updateLock_of_ok (Manifest.install_eq_of_fst install_clash.1) (.fresh "app" "" ""))
  have hm : clash.dependencies = [("a", { path := "./a" })] ++ ("b", { path := "./b" }) :: [] := rfl
  obtain ⟨earlier, hearlier, -, p, hfound, hmet, -⟩ :=
    own_description_counts_unless_met_before wellFormed_appSurroundings hchanged hm
  exact ⟨⟨_, hchanged⟩, earlier, hearlier, p, hfound, hmet⟩

/-- The package that is locked under the name of the project's second dependency is in the directory
that the first one names, though the project's own description leads to another one. -/
theorem clash_locks_other_directory :
    (clash.install appSurroundings clashFiles).1 = .ok () ∧
    ((clash.install appSurroundings clashFiles).2.packages.find? fun p =>
      decide (p.name = "b")).map (·.directory) = some "/app/other" ∧
    ((appSurroundings.resolve clashFiles "b" { path := "./b" } "/app").1.toOption.map
      (·.package.directory)) = some "/app/b" :=
  ⟨install_clash.1, install_clash.2, by decide +kernel⟩

end ObjectLang
