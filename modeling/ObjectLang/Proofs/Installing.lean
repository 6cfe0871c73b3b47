import Mathlib.Data.List.Perm.Subperm
import ObjectLang.Proofs.Resolving

/-! Installation without a bound on its depth, as a relation between what there is before and after.
A run with a bound is such an installation or breaks off at the bound, and it does not break off when
the bound is above the number of names that the manifests at hand declare: a name that is being
installed is never installed for its own sake. -/

namespace ObjectLang

/-- What an error is about, whatever dependencies it came up within. -/
def InstallError.cause : InstallError → InstallError
  | .within _ e => e.cause
  | e => e

def Installation.located (i : Installation) (r : ResolvedPackage) (files : FileTree) :
    Installation :=
  { i with files, reports := i.reports ++ [r.report] }

def Installation.add (i : Installation) (p : LockedPackage) : Installation :=
  { i with packages := i.packages ++ [p] }

def Installation.names (i : Installation) : List String := i.packages.map (·.name)

@[simp] theorem Installation.located_files (i : Installation) (r : ResolvedPackage)
    (files : FileTree) : (i.located r files).files = files := rfl

@[simp] theorem Installation.add_files (i : Installation) (p : LockedPackage) :
    (i.add p).files = i.files := rfl

@[simp] theorem Installation.add_packages (i : Installation) (p : LockedPackage) :
    (i.add p).packages = i.packages ++ [p] := rfl

@[simp] theorem Installation.add_names (i : Installation) (p : LockedPackage) :
    (i.add p).names = i.names ++ [p.name] := by
  simp [Installation.names]

namespace Install

/-- What a step comes to, and the state that it leaves. -/
def outcome {α : Type} (step : Install α) (i : Installation) :
    Except InstallError α × Installation :=
  step.run.run i

theorem outcome_bind {α β : Type} (step : Install α) (next : α → Install β) (i : Installation) :
    outcome (step >>= next) i = match outcome step i with
      | (.ok a, after) => outcome (next a) after
      | (.error e, after) => (.error e, after) := by
  unfold outcome
  rw [ExceptT.run_bind, StateT.run_bind]
  change (match (step.run.run i : Except InstallError α × Installation) with
    | (result, after) => _) = _
  rcases (step.run.run i : Except InstallError α × Installation) with ⟨result, after⟩
  cases result <;> rfl

theorem outcome_under (name : String) (step : Install Unit) (i : Installation) :
    outcome (under name step) i =
      ((outcome step i).1.mapError (.within name), (outcome step i).2) := rfl

theorem outcome_resolveOne (s : Surroundings) (name : String) (d : Dependency) (base : String)
    (i : Installation) : outcome (resolveOne s name d base) i =
      match s.resolve i.files name d base with
      | (.error cause, files) => (.error (.unresolved name cause), { i with files })
      | (.ok r, files) =>
        (if (Library.find? files r.package.directory).isNone then
          .error (.unresolved name (.noLibrary r.package.directory)) else .ok r,
          i.located r files) := by
  have hget : outcome (get : Install Installation) i = (.ok i, i) := rfl
  unfold resolveOne
  rw [outcome_bind, hget]
  dsimp only
  rcases s.resolve i.files name d base with ⟨result, files⟩
  cases result with
  | error cause => rfl
  | ok r =>
      dsimp only
      cases (Library.find? files r.package.directory).isNone <;> rfl

theorem outcome_resolveOne_eq_ok_iff {s : Surroundings} {name : String} {d : Dependency}
    {base : String} {i after : Installation} {r : ResolvedPackage} :
    outcome (resolveOne s name d base) i = (.ok r, after) ↔
      ∃ files, s.Locates i.files name d base r files ∧ after = i.located r files := by
  rw [outcome_resolveOne]
  constructor
  · intro h
    split at h
    · cases h
    · next found files hresolve =>
        obtain ⟨hresult, rfl⟩ := Prod.mk.inj h
        split at hresult
        · cases hresult
        · next hlibrary =>
            cases hresult
            refine ⟨files, ⟨hresolve, ?_⟩, rfl⟩
            rwa [Option.isNone_iff_eq_none, ← ne_eq, Option.ne_none_iff_isSome] at hlibrary
  · rintro ⟨files, hlocates, rfl⟩
    obtain ⟨library, hlibrary⟩ := Option.isSome_iff_exists.mp hlocates.library
    simp [hlocates.resolve, hlibrary]

theorem outcome_resolveOne_eq_error {s : Surroundings} {name : String} {d : Dependency}
    {base : String} {i after : Installation} {e : InstallError}
    (h : outcome (resolveOne s name d base) i = (.error e, after)) :
    (∃ cause, e = .unresolved name cause) ∧ after.packages = i.packages ∧
      after.files = (s.resolve i.files name d base).2 := by
  rw [outcome_resolveOne] at h
  split at h
  · next heq =>
      cases h
      exact ⟨⟨_, rfl⟩, rfl, by rw [heq]⟩
  · next heq =>
      obtain ⟨hresult, rfl⟩ := Prod.mk.inj h
      split at hresult
      · cases hresult
        exact ⟨⟨_, rfl⟩, rfl, by rw [heq]; rfl⟩
      · cases hresult

/-- Installs what a manifest in a directory declares. -/
def needs (s : Surroundings) (depth : Nat) (above : List String)
    (wanted : List (String × Dependency)) (base : String) : Install Unit :=
  wanted.forM fun (name, d) => dependency s depth above name d base

theorem outcome_needs_cons (s : Surroundings) (depth : Nat) (above : List String) (name : String)
    (d : Dependency) (rest : List (String × Dependency)) (base : String) (i : Installation) :
    outcome (needs s depth above ((name, d) :: rest) base) i =
      match outcome (dependency s depth above name d base) i with
      | (.ok _, after) => outcome (needs s depth above rest base) after
      | (.error e, after) => (.error e, after) := by
  change outcome (dependency s depth above name d base >>= fun _ => needs s depth above rest base) i = _
  rw [outcome_bind]
  rcases outcome (dependency s depth above name d base) i with ⟨result, after⟩
  cases result <;> rfl

theorem outcome_forM_under (s : Surroundings) (depth : Nat) (above : List String) (key : String)
    (wanted : List (String × Dependency)) (base : String) (i : Installation) :
    outcome (wanted.forM fun (name, d) => under key (dependency s depth above name d base)) i =
      outcome (under key (needs s depth above wanted base)) i := by
  induction wanted generalizing i with
  | nil => rfl
  | cons first rest ih =>
      obtain ⟨name, d⟩ := first
      change outcome (under key (dependency s depth above name d base) >>= fun _ =>
        rest.forM fun (name, d) => under key (dependency s depth above name d base)) i = _
      rw [outcome_bind, outcome_under, outcome_under, outcome_needs_cons]
      rcases outcome (dependency s depth above name d base) i with ⟨result, after⟩
      cases result with
      | error e => rfl
      | ok u =>
          change outcome _ after = _
          rw [ih, outcome_under]

/-- What the installation of one dependency comes to. -/
theorem outcome_dependency_succ (s : Surroundings) (depth : Nat) (above : List String)
    (name : String) (d : Dependency) (base : String) (i : Installation) :
    outcome (dependency s (depth + 1) above name d base) i =
      if Text.packageName name ∈ i.names then (.ok (), i)
      else if Text.packageName name ∈ above then (.error (.cycle (Text.packageName name)), i)
      else match outcome (resolveOne s name d base) i with
        | (.error e, after) => (.error e, after)
        | (.ok r, after) =>
          match outcome (needs s depth (Text.packageName name :: above) r.needed
              r.package.directory) after with
          | (.error e, after) => (.error (.within (Text.packageName name) e), after)
          | (.ok _, after) => (.ok (), after.add r.package) := by
  have hnames : (i.packages.any fun p => decide (p.name = Text.packageName name)) =
      decide (Text.packageName name ∈ i.names) := by
    rw [Bool.eq_iff_iff]
    simp [Installation.names]
  have habove : above.contains (Text.packageName name) =
      decide (Text.packageName name ∈ above) := by
    rw [Bool.eq_iff_iff]
    simp
  rw [dependency, outcome_bind]
  change outcome (if (i.packages.any fun p => decide (p.name = Text.packageName name)) = true then _
    else if above.contains (Text.packageName name) = true then _ else _) i = _
  rw [hnames, habove]
  by_cases hknown : Text.packageName name ∈ i.names
  · simp only [hknown, decide_true, if_true]
    rfl
  · simp only [hknown, decide_false, Bool.false_eq_true, if_false]
    by_cases hcycle : Text.packageName name ∈ above
    · simp only [hcycle, decide_true, if_true]
      rfl
    · simp only [hcycle, decide_false, Bool.false_eq_true, if_false]
      rw [outcome_bind]
      rcases outcome (resolveOne s name d base) i with ⟨result, after⟩
      cases result with
      | error e => rfl
      | ok r =>
          dsimp only
          rw [outcome_bind, outcome_forM_under, outcome_under]
          unfold ResolvedPackage.needed
          generalize outcome (needs s depth _ _ _) after = inner
          obtain ⟨result, after⟩ := inner
          cases result <;> rfl

section Step

variable {s : Surroundings} {above : List String} {name base : String} {d : Dependency}
  {i : Installation}

/-- What can become of a dependency: it is there already, it is being installed, it is not resolved, or
it is located. -/
theorem step_cases (s : Surroundings) (above : List String) (name : String) (d : Dependency)
    (base : String) (i : Installation) :
    Text.packageName name ∈ i.names ∨ Text.packageName name ∉ i.names ∧
      (Text.packageName name ∈ above ∨ Text.packageName name ∉ above ∧
        ((∃ e after, outcome (resolveOne s name d base) i = (.error e, after)) ∨
          ∃ r files, s.Locates i.files name d base r files)) := by
  refine (Decidable.em _).imp_right fun hnew => ⟨hnew, ?_⟩
  refine (Decidable.em _).imp_right fun habove => ⟨habove, ?_⟩
  rcases hresolve : outcome (resolveOne s name d base) i with ⟨result, after⟩
  cases result with
  | error e => exact .inl ⟨e, after, rfl⟩
  | ok r =>
      obtain ⟨files, hlocates, -⟩ := outcome_resolveOne_eq_ok_iff.mp hresolve
      exact .inr ⟨r, files, hlocates⟩

variable (depth : Nat) (rest : List (String × Dependency))

theorem outcome_needs_known (hknown : Text.packageName name ∈ i.names) :
    outcome (needs s (depth + 1) above ((name, d) :: rest) base) i =
      outcome (needs s (depth + 1) above rest base) i := by
  rw [outcome_needs_cons, outcome_dependency_succ, if_pos hknown]

variable (hnew : Text.packageName name ∉ i.names)
include hnew

theorem outcome_needs_cycle (habove : Text.packageName name ∈ above) :
    outcome (needs s (depth + 1) above ((name, d) :: rest) base) i =
      (.error (.cycle (Text.packageName name)), i) := by
  rw [outcome_needs_cons, outcome_dependency_succ, if_neg hnew, if_pos habove]

variable (habove : Text.packageName name ∉ above)
include habove

theorem outcome_needs_unresolved {e : InstallError} {after : Installation}
    (hresolve : outcome (resolveOne s name d base) i = (.error e, after)) :
    outcome (needs s (depth + 1) above ((name, d) :: rest) base) i = (.error e, after) := by
  rw [outcome_needs_cons, outcome_dependency_succ, if_neg hnew, if_neg habove, hresolve]

theorem outcome_needs_located {r : ResolvedPackage} {files : FileTree}
    (hlocates : s.Locates i.files name d base r files) :
    outcome (needs s (depth + 1) above ((name, d) :: rest) base) i =
      match outcome (needs s depth (Text.packageName name :: above) r.needed r.package.directory)
          (i.located r files) with
      | (.error e, after) => (.error (.within (Text.packageName name) e), after)
      | (.ok _, between) =>
        outcome (needs s (depth + 1) above rest base) (between.add r.package) := by
  rw [outcome_needs_cons, outcome_dependency_succ, if_neg hnew, if_neg habove,
    outcome_resolveOne_eq_ok_iff.mpr ⟨files, hlocates, rfl⟩]
  dsimp only
  rcases outcome (needs s depth (Text.packageName name :: above) r.needed r.package.directory)
    (i.located r files) with ⟨needed, between⟩
  cases needed <;> rfl

end Step

end Install

/-- The installation of what a manifest in a directory declares, for the sake of the dependencies with
the names above: what it comes to and what there is afterwards. -/
inductive Installs (s : Surroundings) : List String → List (String × Dependency) → String →
    Installation → Except InstallError Unit → Installation → Prop
  | done {above base i} : Installs s above [] base i (.ok ()) i
  | known {above name d rest base i result after} (hknown : Text.packageName name ∈ i.names)
      (hrest : Installs s above rest base i result after) :
      Installs s above ((name, d) :: rest) base i result after
  | cycle {above name d rest base i} (hnew : Text.packageName name ∉ i.names)
      (habove : Text.packageName name ∈ above) :
      Installs s above ((name, d) :: rest) base i (.error (.cycle (Text.packageName name))) i
  | unresolved {above name d rest base i e after} (hnew : Text.packageName name ∉ i.names)
      (habove : Text.packageName name ∉ above)
      (hresolve : (Install.resolveOne s name d base).outcome i = (.error e, after)) :
      Installs s above ((name, d) :: rest) base i (.error e) after
  | within {above name d rest base i r files e after} (hnew : Text.packageName name ∉ i.names)
      (habove : Text.packageName name ∉ above)
      (hlocates : s.Locates i.files name d base r files)
      (hneeds : Installs s (Text.packageName name :: above) r.needed r.package.directory
        (i.located r files) (.error e) after) :
      Installs s above ((name, d) :: rest) base i (.error (.within (Text.packageName name) e)) after
  | installed {above name d rest base i r files between result after}
      (hnew : Text.packageName name ∉ i.names) (habove : Text.packageName name ∉ above)
      (hlocates : s.Locates i.files name d base r files)
      (hneeds : Installs s (Text.packageName name :: above) r.needed r.package.directory
        (i.located r files) (.ok ()) between)
      (hrest : Installs s above rest base (between.add r.package) result after) :
      Installs s above ((name, d) :: rest) base i result after

namespace Installs

variable {s : Surroundings} {above : List String} {wanted : List (String × Dependency)}
  {base : String} {i after : Installation} {result : Except InstallError Unit}

/-- A run that breaks off at the bound. -/
def BreaksOff (run : Except InstallError Unit × Installation) : Prop :=
  ∃ e after, run = (.error e, after) ∧ e.cause = .tooDeep

theorem breaksOff_zero (s : Surroundings) (above : List String) (first : String × Dependency)
    (rest : List (String × Dependency)) (base : String) (i : Installation) :
    BreaksOff ((Install.needs s 0 above (first :: rest) base).outcome i) :=
  ⟨.tooDeep, i, rfl, rfl⟩

/-- A run with a bound is an installation, unless it breaks off. -/
theorem of_outcome (s : Surroundings) (depth : Nat) (above : List String)
    (wanted : List (String × Dependency)) (base : String) (i : Installation) :
    let run := (Install.needs s depth above wanted base).outcome i
    BreaksOff run ∨ Installs s above wanted base i run.1 run.2 := by
  -- the depth counts the packages below one another, the list those beside one another
  induction depth generalizing above wanted base i with
  | zero =>
      cases wanted with
      | nil => exact .inr .done
      | cons first rest => exact .inl (breaksOff_zero s above first rest base i)
  | succ depth ihdepth =>
      induction wanted generalizing i with
      | nil => exact .inr .done
      | cons first rest ihrest =>
          obtain ⟨name, d⟩ := first
          dsimp only at ihdepth ihrest ⊢
          rcases Install.step_cases s above name d base i with
            hknown | ⟨hnew, habove | ⟨habove, ⟨e, after, hresolve⟩ | ⟨r, files, hlocates⟩⟩⟩
          · rw [Install.outcome_needs_known depth rest hknown]
            exact (ihrest i).imp_right (.known hknown)
          · rw [Install.outcome_needs_cycle depth rest hnew habove]
            exact .inr (.cycle hnew habove)
          · rw [Install.outcome_needs_unresolved depth rest hnew habove hresolve]
            exact .inr (.unresolved hnew habove hresolve)
          · rw [Install.outcome_needs_located depth rest hnew habove hlocates]
            have hneeds := ihdepth (Text.packageName name :: above) r.needed r.package.directory
              (i.located r files)
            rcases hrun : (Install.needs s depth (Text.packageName name :: above) r.needed
              r.package.directory).outcome (i.located r files) with ⟨needed, between⟩
            rw [hrun] at hneeds
            cases needed with
            | error e =>
                rcases hneeds with ⟨e', after, he', hdeep⟩ | hneeds
                · cases he'
                  exact .inl ⟨_, _, rfl, hdeep⟩
                · exact .inr (.within hnew habove hlocates hneeds)
            | ok u =>
                rcases hneeds with ⟨e', after, he', -⟩ | hneeds
                · cases he'
                · exact (ihrest (between.add r.package)).imp_right
                    (.installed hnew habove hlocates hneeds)

/-- An installation is what a run with any bound comes to, unless that breaks off. -/
theorem outcome_eq (h : Installs s above wanted base i result after) (depth : Nat) :
    (Install.needs s depth above wanted base).outcome i = (result, after) ∨
      BreaksOff ((Install.needs s depth above wanted base).outcome i) := by
  induction h generalizing depth with
  | done => exact .inl rfl
  | known hknown hrest ih =>
      cases depth with
      | zero => exact .inr (breaksOff_zero ..)
      | succ depth =>
          rw [Install.outcome_needs_known depth _ hknown]
          exact ih (depth + 1)
  | cycle hnew habove =>
      cases depth with
      | zero => exact .inr (breaksOff_zero ..)
      | succ depth =>
          exact .inl (Install.outcome_needs_cycle depth _ hnew habove)
  | unresolved hnew habove hresolve =>
      cases depth with
      | zero => exact .inr (breaksOff_zero ..)
      | succ depth =>
          exact .inl (Install.outcome_needs_unresolved depth _ hnew habove hresolve)
  | within hnew habove hlocates hneeds ih =>
      cases depth with
      | zero => exact .inr (breaksOff_zero ..)
      | succ depth =>
          rw [Install.outcome_needs_located depth _ hnew habove hlocates]
          rcases ih depth with hrun | ⟨e, after, hrun, hdeep⟩
          · rw [hrun]
            exact .inl rfl
          · rw [hrun]
            exact .inr ⟨.within _ e, after, rfl, hdeep⟩
  | installed hnew habove hlocates hneeds hrest ihneeds ihrest =>
      cases depth with
      | zero => exact .inr (breaksOff_zero ..)
      | succ depth =>
          rw [Install.outcome_needs_located depth _ hnew habove hlocates]
          rcases ihneeds depth with hrun | ⟨e, after, hrun, hdeep⟩
          · rw [hrun]
            exact ihrest (depth + 1)
          · rw [hrun]
            exact .inr ⟨.within _ e, after, rfl, hdeep⟩

/-- What holds of the files and is kept by every resolution is kept by an installation. -/
theorem files_induction {P : FileTree → Prop}
    (hP : ∀ files name d base, P files → P (s.resolve files name d base).2)
    (h : Installs s above wanted base i result after) (hi : P i.files) : P after.files := by
  induction h with
  | done => exact hi
  | known hknown hrest ih => exact ih hi
  | cycle hnew habove => exact hi
  | unresolved hnew habove hresolve =>
      rw [(Install.outcome_resolveOne_eq_error hresolve).2.2]
      exact hP _ _ _ _ hi
  | within hnew habove hlocates hneeds ih =>
      refine ih ?_
      rw [Installation.located_files, hlocates.after_eq]
      exact hP _ _ _ _ hi
  | installed hnew habove hlocates hneeds hrest ihneeds ihrest =>
      refine ihrest (ihneeds ?_)
      rw [Installation.located_files, hlocates.after_eq]
      exact hP _ _ _ _ hi

theorem adds (hs : s.WellFormed) (h : Installs s above wanted base i result after) :
    FileTree.Adds i.files after.files :=
  h.files_induction (P := FileTree.Adds i.files)
    (fun files name d base hfiles => hfiles.trans (hs.adds_resolve files name d base)) (.refl _)

theorem declareOnly (hs : s.WellFormed) {known : List String}
    (hcommits : s.CommitsDeclareOnly known) (h : Installs s above wanted base i result after)
    (hi : Surroundings.DeclareOnly known i.files) :
    Surroundings.DeclareOnly known after.files :=
  h.files_induction (P := Surroundings.DeclareOnly known)
    (fun _ name d base hfiles => hs.declareOnly_resolve hcommits hfiles name d base) hi

/-- A run does not break off if its depth and the names above are together more than the names that
there are: the names above are distinct, so there are too few of them at depth zero. -/
theorem not_breaksOff (hs : s.WellFormed) {known : List String}
    (hcommits : s.CommitsDeclareOnly known) (depth : Nat) (above : List String)
    (wanted : List (String × Dependency)) (base : String) (i : Installation)
    (hdistinct : above.Nodup) (habove : above ⊆ known)
    (hwanted : ∀ d ∈ wanted, Text.packageName d.1 ∈ known)
    (hfiles : Surroundings.DeclareOnly known i.files) (hdepth : known.length < above.length + depth) :
    ¬ BreaksOff ((Install.needs s depth above wanted base).outcome i) := by
  induction depth generalizing above wanted base i with
  | zero =>
      have hlength := (List.Nodup.subperm hdistinct habove).length_le
      omega
  | succ depth ihdepth =>
      induction wanted generalizing i with
      | nil =>
          rintro ⟨e, after, hrun, -⟩
          cases hrun
      | cons first rest ihrest =>
          obtain ⟨name, d⟩ := first
          obtain ⟨hname, hrest⟩ := List.forall_mem_cons.mp hwanted
          rcases Install.step_cases s above name d base i with
            hknown | ⟨hnew, hcycle | ⟨hfree, ⟨e, after, hresolve⟩ | ⟨r, files, hlocates⟩⟩⟩
          · rw [Install.outcome_needs_known depth rest hknown]
            exact ihrest i hrest hfiles
          · rw [Install.outcome_needs_cycle depth rest hnew hcycle]
            rintro ⟨e, after, hrun, hdeep⟩
            cases hrun
            cases hdeep
          · rw [Install.outcome_needs_unresolved depth rest hnew hfree hresolve]
            obtain ⟨⟨cause, rfl⟩, -, -⟩ := Install.outcome_resolveOne_eq_error hresolve
            rintro ⟨e, after, hrun, hdeep⟩
            cases hrun
            cases hdeep
          · rw [Install.outcome_needs_located depth rest hnew hfree hlocates]
            have hlocated : Surroundings.DeclareOnly known files := by
              rw [hlocates.after_eq]
              exact hs.declareOnly_resolve hcommits hfiles name d base
            have hneeds := ihdepth (Text.packageName name :: above) r.needed r.package.directory
              (i.located r files) (List.nodup_cons.mpr ⟨hfree, hdistinct⟩)
              (List.cons_subset.mpr ⟨hname, habove⟩) (hlocates.needed_subset hs hlocated) hlocated
              (by rw [List.length_cons]; omega)
            have hinstalls := of_outcome s depth (Text.packageName name :: above) r.needed
              r.package.directory (i.located r files)
            dsimp only at hinstalls
            rcases hrun : (Install.needs s depth (Text.packageName name :: above) r.needed
              r.package.directory).outcome (i.located r files) with ⟨needed, between⟩
            rw [hrun] at hneeds hinstalls
            have hbetween := (hinstalls.resolve_left hneeds).declareOnly hs hcommits hlocated
            cases needed with
            | error e =>
                rintro ⟨e', after, hrun', hdeep⟩
                cases hrun'
                exact hneeds ⟨e, between, rfl, hdeep⟩
            | ok u => exact ihrest (between.add r.package) hrest hbetween

end Installs

/-! ### Projects -/

namespace Manifest

variable (m : Manifest) {s : Surroundings} (hs : s.WellFormed) (files : FileTree)
include hs

theorem not_breaksOff {depth : Nat} (hdepth : (Install.knownNames s files m).length < depth) :
    ¬ Installs.BreaksOff ((Install.all s depth m).outcome ⟨files, [], []⟩) :=
  Installs.not_breaksOff hs (s.commitsDeclareOnly_knownNames files m) depth [] m.dependencies s.root
    ⟨files, [], []⟩ List.nodup_nil (List.nil_subset _)
    (fun _ hd => s.mem_knownNames_of_mem files m hd) (s.declareOnly_knownNames files m)
    (by simpa using hdepth)

/-- A run of an installation does not break off at its bound: it is the one without a bound. -/
theorem installs : Installs s [] m.dependencies s.root ⟨files, [], []⟩ (m.install s files).1
    (m.install s files).2 :=
  (Installs.of_outcome s _ [] m.dependencies s.root ⟨files, [], []⟩).resolve_left
    (m.not_breaksOff hs files (Nat.lt_succ_self _))

/-- An installation is what a run with a bound comes to that is large enough. -/
theorem outcome_eq_of_installs {depth : Nat}
    (hdepth : (Install.knownNames s files m).length < depth) {result : Except InstallError Unit}
    {after : Installation}
    (h : Installs s [] m.dependencies s.root ⟨files, [], []⟩ result after) :
    (Install.all s depth m).outcome ⟨files, [], []⟩ = (result, after) :=
  (h.outcome_eq depth).resolve_right (m.not_breaksOff hs files hdepth)

theorem install_eq_of_installs {result : Except InstallError Unit} {after : Installation}
    (h : Installs s [] m.dependencies s.root ⟨files, [], []⟩ result after) :
    m.install s files = (result, after) :=
  m.outcome_eq_of_installs hs files (Nat.lt_succ_self _) h

end Manifest

namespace Manifest

variable {m : Manifest} {s : Surroundings} {files : FileTree} {done : Installation}

theorem updateLock_of_ok (h : m.install s files = (.ok (), done)) (lock : Lockfile) :
    m.updateLock s files lock = ⟨.ok (lock.differsFrom (Lockfile.sortByName done.packages)),
      { lock with packages := Lockfile.sortByName done.packages }, done⟩ := by
  rw [updateLock, h]

theorem updateLock_of_error {e : InstallError} (h : m.install s files = (.error e, done))
    (lock : Lockfile) : m.updateLock s files lock = ⟨.error e, lock, done⟩ := by
  rw [updateLock, h]

theorem updateLock_done (m : Manifest) (s : Surroundings) (files : FileTree) (lock : Lockfile) :
    (m.updateLock s files lock).done = (m.install s files).2 := by
  rcases hdone : m.install s files with ⟨result, done⟩
  cases result with
  | error e => rw [updateLock_of_error hdone]
  | ok u => rw [updateLock_of_ok hdone]

theorem updateLock_root (m : Manifest) (s : Surroundings) (files : FileTree) (lock : Lockfile) :
    (m.updateLock s files lock).lock.root = lock.root := by
  rcases hdone : m.install s files with ⟨result, done⟩
  cases result with
  | error e => rw [updateLock_of_error hdone]
  | ok u => rw [updateLock_of_ok hdone]

theorem install_of_changed {lock : Lockfile} {changed : Bool}
    (h : (m.updateLock s files lock).changed = .ok changed) :
    m.install s files = (.ok (), (m.updateLock s files lock).done) := by
  rcases hdone : m.install s files with ⟨result, done⟩
  cases result with
  | error e =>
      rw [updateLock_of_error hdone] at h
      cases h
  | ok u => rw [updateLock_of_ok hdone]

theorem install_of_changed_error {lock : Lockfile} {e : InstallError}
    (h : (m.updateLock s files lock).changed = .error e) :
    m.install s files = (.error e, (m.updateLock s files lock).done) := by
  rcases hdone : m.install s files with ⟨result, done⟩
  cases result with
  | error e' =>
      rw [updateLock_of_error hdone] at h ⊢
      cases h
      rfl
  | ok u =>
      rw [updateLock_of_ok hdone] at h
      cases h

end Manifest

end ObjectLang
