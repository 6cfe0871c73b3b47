import ObjectLang.Proofs.Installing
import ObjectLang.Proofs.ManifestRules

/-! What the checks of manifests are good for. Resolution fails for want of a description only if a
description breaks a rule, and all manifests that an installation meets were checked when they were read:
that of the project and those of the packages that it locates. So no installation fails that way, at
any depth. -/

namespace ObjectLang

/-- The errors for want of a source in a description, or of a revision of it. -/
inductive ResolveError.IsAboutDescription : ResolveError → Prop
  | noDescription : IsAboutDescription .noDescription
  | noAddress (name : String) : IsAboutDescription (.noAddress name)
  | noPin : IsAboutDescription .noPin

/-- The errors of installations that are about a description, at whatever depth. -/
def InstallError.IsAboutDescription (e : InstallError) : Prop :=
  ∃ name cause, e.cause = .unresolved name cause ∧ cause.IsAboutDescription

namespace Dependency

variable {d : Dependency}

theorem pin?_eq_none_iff : d.pin? = none ↔ ¬d.PinsAny := by
  unfold pin? PinsAny Given
  dsimp only
  split_ifs <;> simp_all

theorem given_ne_empty {text : String} (h : Given text) : text ≠ "" := by
  rintro rfl
  exact h rfl

theorem PinsOnce.any (h : d.PinsOnce) : d.PinsAny := by
  rcases h with ⟨h, -, -⟩ | ⟨-, h, -⟩ | ⟨-, -, h⟩
  · exact .inl h
  · exact .inr (.inl h)
  · exact .inr (.inr h)

end Dependency

namespace Surroundings

variable {s : Surroundings} {files : FileTree} {name base : String} {d : Dependency}
  {cause : ResolveError}

theorem not_aboutDescription_of_manifestIn {directory : String}
    (h : s.manifestIn files directory = .error cause) : ¬cause.IsAboutDescription := by
  unfold manifestIn at h
  dsimp only at h
  split at h
  · split at h
    · cases h
    · cases h
      exact nofun
  · obtain ⟨reason, -, rfl⟩ := error_of_mapError h
    exact nofun

theorem not_aboutDescription_of_resolvePath
    (h : s.resolvePath files name d base = .error cause) : ¬cause.IsAboutDescription := by
  rcases error_of_bind h with hstat | ⟨entry, -, h⟩
  · obtain ⟨reason, -, rfl⟩ := error_of_mapError hstat
    exact nofun
  · cases entry with
    | file text =>
        cases h
        exact nofun
    | directory =>
        rcases error_of_bind h with hmanifest | ⟨manifest, -, h⟩
        · exact not_aboutDescription_of_manifestIn hmanifest
        · cases h

theorem not_aboutDescription_of_fetch {address : String} {after : FileTree} (hpins : d.PinsAny)
    (h : s.fetch files name address d = (.error cause, after)) : ¬cause.IsAboutDescription := by
  unfold fetch at h
  split at h
  · cases h
    exact nofun
  · split at h
    · next hnone => exact absurd hpins (Dependency.pin?_eq_none_iff.mp hnone)
    · dsimp only at h
      split at h
      · cases h
      · split at h
        · cases h
          exact nofun
        · split at h
          · cases h
            exact nofun
          · split at h
            · cases h
            · split at h
              · cases h
                exact nofun
              · cases h

theorem not_aboutDescription_of_resolveGit {after : FileTree} (hgit : Dependency.Given d.git)
    (hpins : d.PinsAny) (h : s.resolveGit files name d = (.error cause, after)) :
    ¬cause.IsAboutDescription := by
  unfold resolveGit at h
  dsimp only at h
  rw [if_neg hgit] at h
  split at h
  · next hfetch =>
      cases h
      exact not_aboutDescription_of_fetch hpins hfetch
  · exact not_aboutDescription_of_manifestIn (error_of_map (Prod.mk.inj h).1)

/-- Resolution by a description that keeps the rules does not fail for want of one. -/
theorem not_aboutDescription_of_resolve {after : FileTree} (hd : d.NamesSource)
    (h : s.resolve files name d base = (.error cause, after)) : ¬cause.IsAboutDescription := by
  unfold resolve at h
  rcases hd with ⟨hpath, -, -⟩ | ⟨-, hgit, hpins⟩
  · rw [if_pos (Dependency.given_ne_empty hpath)] at h
    exact not_aboutDescription_of_resolvePath (Prod.mk.inj h).1
  · split at h
    · exact not_aboutDescription_of_resolvePath (Prod.mk.inj h).1
    · rw [if_pos (Dependency.given_ne_empty hgit)] at h
      exact not_aboutDescription_of_resolveGit hgit hpins.any h

theorem read_of_manifestIn {directory : String} {m : Manifest}
    (h : s.manifestIn files directory = .ok (some m)) :
    Manifest.read files s.cwd (Path.join directory Manifest.fileName) = .ok m := by
  unfold manifestIn at h
  dsimp only at h
  split at h
  · split at h <;> cases h
  · cases hread : Manifest.read files s.cwd (Path.join directory Manifest.fileName) with
    | error reason =>
        rw [hread] at h
        cases h
    | ok found =>
        rw [hread] at h
        cases h
        rfl

/-- The manifest of a located package was read from a directory. -/
theorem Locates.manifest_read {r : ResolvedPackage} {after : FileTree} {m : Manifest}
    (h : s.Locates files name d base r after) (hm : r.manifest = some m) :
    ∃ tree path, Manifest.read tree s.cwd path = .ok m := by
  have hresolve := h.resolve
  unfold Surroundings.resolve at hresolve
  split at hresolve
  · obtain ⟨_, -, -, hmanifest, -⟩ := resolvePath_eq_ok (Prod.mk.inj hresolve).1
    exact ⟨_, _, read_of_manifestIn (hm ▸ hmanifest)⟩
  · split at hresolve
    · obtain ⟨_, _, hmanifest, -⟩ := resolveGit_eq_ok hresolve
      exact ⟨_, _, read_of_manifestIn (hm ▸ hmanifest)⟩
    · cases hresolve

end Surroundings

/-! ### Installation -/

namespace Manifest

variable {m : Manifest}

/-- Each dependency of an accepted manifest has one source. -/
theorem namesSource_of_read {tree : FileTree} {cwd path : String} (h : read tree cwd path = .ok m) :
    ∀ wanted ∈ m.dependencies, wanted.2.NamesSource := by
  obtain ⟨htidy, hissues⟩ := tidy_of_read h
  rw [issues_eq_nil_iff htidy] at hissues
  rintro ⟨name, d⟩ hd
  exact Dependency.namesSource_iff.mpr fun i hbreaks => hissues _ (.dependency hd hbreaks)

end Manifest

theorem Surroundings.Locates.namesSource {s : Surroundings} {files after : FileTree}
    {name base : String} {d : Dependency} {r : ResolvedPackage}
    (h : s.Locates files name d base r after) : ∀ child ∈ r.needed, child.2.NamesSource := by
  intro child hchild
  obtain ⟨m, hm, hmem⟩ := ResolvedPackage.mem_needed hchild
  obtain ⟨tree, path, hread⟩ := h.manifest_read hm
  exact Manifest.namesSource_of_read hread child hmem

theorem InstallError.not_aboutDescription_of_unresolved {name : String} {cause : ResolveError}
    (h : ¬cause.IsAboutDescription) : ¬(InstallError.unresolved name cause).IsAboutDescription := by
  rintro ⟨_, _, heq, habout⟩
  cases heq
  exact h habout

theorem InstallError.isAboutDescription_within {name : String} {e : InstallError} :
    (InstallError.within name e).IsAboutDescription ↔ e.IsAboutDescription := Iff.rfl

theorem Install.not_aboutDescription_of_resolveOne {s : Surroundings} {name base : String}
    {d : Dependency} {i after : Installation} {e : InstallError} (hd : d.NamesSource)
    (h : outcome (resolveOne s name d base) i = (.error e, after)) : ¬e.IsAboutDescription := by
  rw [outcome_resolveOne] at h
  split at h
  · next hresolve =>
      cases h
      exact InstallError.not_aboutDescription_of_unresolved
        (Surroundings.not_aboutDescription_of_resolve hd hresolve)
  · have hresult := (Prod.mk.inj h).1
    split at hresult
    · cases hresult
      exact InstallError.not_aboutDescription_of_unresolved nofun
    · cases hresult

/-- What is wanted keeps the rules, and so does what any located package needs. -/
theorem Installs.not_aboutDescription {s : Surroundings} {above : List String}
    {wanted : List (String × Dependency)} {base : String} {i after : Installation}
    {result : Except InstallError Unit} (h : Installs s above wanted base i result after)
    (hwanted : ∀ d ∈ wanted, d.2.NamesSource) {e : InstallError} (he : result = .error e) :
    ¬e.IsAboutDescription := by
  induction h generalizing e with
  | done => cases he
  | known hknown hrest ih => exact ih (List.forall_mem_cons.mp hwanted).2 he
  | cycle hnew habove =>
      cases he
      rintro ⟨_, _, heq, -⟩
      cases heq
  | unresolved hnew habove hresolve =>
      cases he
      exact Install.not_aboutDescription_of_resolveOne (List.forall_mem_cons.mp hwanted).1 hresolve
  | within hnew habove hlocates hneeds ih =>
      cases he
      exact InstallError.isAboutDescription_within.not.mpr (ih hlocates.namesSource rfl)
  | installed hnew habove hlocates hneeds hrest ihneeds ihrest =>
      exact ihrest (List.forall_mem_cons.mp hwanted).2 he

namespace Manifest

variable {m : Manifest}

/-- No installation fails for want of a description if the dependencies have one source each. -/
theorem not_aboutDescription_of_install (hm : ∀ wanted ∈ m.dependencies, wanted.2.NamesSource)
    {s : Surroundings} {files : FileTree} {e : InstallError} {done : Installation}
    (h : m.install s files = (.error e, done)) : ¬e.IsAboutDescription := by
  rcases Installs.of_outcome s ((Install.knownNames s files m).length + 1) [] m.dependencies s.root
    ⟨files, [], []⟩ with ⟨e', after, hrun, hdeep⟩ | hinstalls
  · cases hrun.symm.trans h
    rintro ⟨_, _, heq, -⟩
    cases hdeep.symm.trans heq
  · exact hinstalls.not_aboutDescription hm (Prod.mk.inj h).1

end Manifest

/-- **A manifest is accepted exactly if it keeps the rules, and then its descriptions suffice.** In an
accepted manifest there is one description under each name, and it names one source: a directory that
is not pinned, or a repository that is pinned once. So no installation of it, in whatever surroundings,
fails for want of a description, neither one of its own nor one in the manifests that it meets. A text
that describes a manifest which breaks rules is rejected, and all of them are listed, once each, those
of the dependencies last and by name. -/
theorem manifest_accepted_iff_keeps_rules (tree : FileTree) (cwd path : String) :
    (∀ m, Manifest.read tree cwd path = .ok m →
      (m.dependencies.Pairwise fun a b => a.1 < b.1) ∧
      (∀ wanted ∈ m.dependencies, wanted.2.NamesSource) ∧
      ∀ (s : Surroundings) (files : FileTree) (e : InstallError) (done : Installation),
        m.install s files = (.error e, done) → ¬e.IsAboutDescription) ∧
    ∀ text m, path ≠ "" → tree.open? (Path.absolute cwd path) = .ok (.file text) →
      Manifest.described (Path.absolute cwd path) text = .ok m →
      (Manifest.read tree cwd path = .ok m ↔ ∀ i, ¬m.Breaks i) ∧
      ((∃ i, m.Breaks i) → ∃ issues, Manifest.read tree cwd path = .error (.invalid issues) ∧
        m.Lists issues ∧ (Manifest.ReadError.invalid issues).message =
          "manifest validation failed:" ++ String.join (issues.map fun i => "\n- " ++ i.message)) := by
  constructor
  · intro m hread
    have hsources := Manifest.namesSource_of_read hread
    exact ⟨(Manifest.tidy_of_read hread).1.ascends, hsources,
      fun _ _ _ _ => Manifest.not_aboutDescription_of_install hsources⟩
  · intro text m hpath hopen hdescribed
    have hm := Manifest.tidy_of_described hdescribed
    have hread : Manifest.read tree cwd path = m.validated := by
      rw [Manifest.read_of_open hpath hopen, Manifest.parse_eq, hdescribed]
      rfl
    rw [hread, Manifest.validated_eq_ok_iff, eq_self, true_and, Manifest.issues_eq_nil_iff hm]
    refine ⟨Iff.rfl, fun ⟨i, hi⟩ => ?_⟩
    have hissues : m.issues ≠ [] := fun hnil => (Manifest.issues_eq_nil_iff hm).mp hnil i hi
    exact ⟨m.issues, Manifest.validated_of_issues hissues, hm.lists_issues,
      Manifest.message_invalid hissues⟩

/-- A tree with a manifest whose dependency stands for a directory given elsewhere in it, and with one
that breaks rules. -/
def twoManifests : FileTree :=
  ⟨[(["app", "moopl.yml"], .file ("name: app\nversion: &near ' ./near '\nentry: main.JSON\n" ++
      "dependencies:\n  near: *near\n")),
    (["bad", "moopl.yml"], .file ("entry: main.txt\nmax_depth: -1\ndependencies:\n  both:\n" ++
      "    path: ../both\n    git: https://host/both.git\n    rev: v1\n"))]⟩

def keptRules : Manifest :=
  ⟨"/app/moopl.yml", "app", "./near", "main.JSON", false, 0, [("near", { path := "./near" })]⟩

/-- The manifest of that tree that does not. -/
def brokenRules : Manifest :=
  ⟨"/bad/moopl.yml", "", "", "main.txt", false, -1,
    [("both", { git := "https://host/both.git", rev := "v1", path := "../both" })]⟩

/-- Surroundings of the project with that manifest, without repositories. -/
def twoSurroundings : Surroundings := ⟨"/app", "/cache", "/app", Repository.reachable "/app" []⟩

theorem manifest_accepted_iff_keeps_rules_kept_and_broken :
    (∃ m, Manifest.read twoManifests "/app" "moopl.yml" = .ok m ∧
      (∀ wanted ∈ m.dependencies, wanted.2.NamesSource) ∧
      ∃ e done, m.install twoSurroundings twoManifests = (.error e, done) ∧
        ¬e.IsAboutDescription) ∧
    ∃ issues, Manifest.read twoManifests "/bad" "moopl.yml" = .error (.invalid issues) ∧
      .badEntry "main.txt" ∈ issues ∧ .dependency "both" .pinnedPath ∈ issues := by
  have hkept : Manifest.read twoManifests "/app" "moopl.yml" = .ok keptRules := by decide +kernel
  have hmissing : (keptRules.install twoSurroundings twoManifests).1 =
      .error (.unresolved "near" (.notThere "/app/near" ⟨"stat", "/app/near", .notFound⟩)) := by
    decide +kernel
  have hbroken : ∃ text, twoManifests.open? (Path.absolute "/bad" "moopl.yml") = .ok (.file text) ∧
      Manifest.described (Path.absolute "/bad" "moopl.yml") text = .ok brokenRules :=
    ⟨_, rfl, by decide +kernel⟩
  obtain ⟨text, hopen, hdescribed⟩ := hbroken
  have hpinned : brokenRules.Breaks (.dependency "both" .pinnedPath) :=
    .dependency (List.mem_singleton_self _) (.pinnedPath (by decide) (.inl (by decide)))
  have hentry : brokenRules.Breaks (.badEntry "main.txt") :=
    .badEntry (by decide) (Path.isSome_ofPath?_iff.not.mp (by decide))
  obtain ⟨issues, hread, hlists, -⟩ := ((manifest_accepted_iff_keeps_rules twoManifests "/bad"
    "moopl.yml").2 text brokenRules (by decide) hopen hdescribed).2 ⟨_, hpinned⟩
  obtain ⟨-, hsources, hinstalls⟩ :=
    (manifest_accepted_iff_keeps_rules twoManifests "/app" "moopl.yml").1 _ hkept
  rcases hrun : keptRules.install twoSurroundings twoManifests with ⟨result, done⟩
  rw [hrun] at hmissing
  cases hmissing
  exact ⟨⟨keptRules, hkept, hsources, _, done, hrun, hinstalls _ _ _ done hrun⟩,
    issues, hread, (hlists.breaks _).mpr hentry, (hlists.breaks _).mpr hpinned⟩

end ObjectLang
