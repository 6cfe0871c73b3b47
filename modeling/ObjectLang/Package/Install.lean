import ObjectLang.Package.Resolve

/-! Installation: every dependency of a project, and every dependency of those, is resolved once, under
the normal form of its name. A name that turns up again while it is being resolved is a cycle. The
depth of the search is bounded by the number of names that any manifest at hand declares. -/

namespace ObjectLang

/-- Why dependencies cannot be installed. -/
inductive InstallError where
  | cycle (name : String)
  | tooDeep
  | unresolved (name : String) (cause : ResolveError)
  | within (name : String) (cause : InstallError)
  deriving DecidableEq, Repr

def InstallError.message : InstallError → String
  | .cycle name => "dependency cycle detected at " ++ name
  | .tooDeep => "dependencies are nested too deeply"
  | .unresolved name cause => "dependency " ++ Text.quoted name ++ ": " ++ cause.message
  | .within name cause => "dependency " ++ name ++ ": " ++ cause.message

/-- How far an installation has come: the files, the packages installed and the reports on them. -/
structure Installation where
  files : FileTree
  packages : List LockedPackage
  reports : List String
  deriving DecidableEq, Repr

/-- Steps of an installation; what was done before an error stays done. -/
abbrev Install := ExceptT InstallError (StateM Installation)

namespace Install

def resolveOne (s : Surroundings) (name : String) (d : Dependency) (base : String) :
    Install ResolvedPackage := do
  let before ← get
  let (outcome, files) := s.resolve before.files name d base
  set { before with files }
  match outcome with
  | .error cause => throw (.unresolved name cause)
  | .ok resolved =>
    modify fun i => { i with reports := i.reports ++ [resolved.report] }
    if (Library.find? files resolved.package.directory).isNone then
      throw (.unresolved name (.noLibrary resolved.package.directory))
    else return resolved

/-- Puts the name of a dependency in front of the errors of a step. -/
def under (name : String) (step : Install Unit) : Install Unit :=
  ExceptT.adapt (.within name) step

/-- Installs a dependency and all that it needs, down to a depth. The names are those of the
dependencies for whose sake it is installed. -/
def dependency (s : Surroundings) : Nat → List String → String → Dependency → String → Install Unit
  | 0, _, _, _, _ => throw .tooDeep
  | depth + 1, above, name, d, base => do
    let key := Text.packageName name
    if (← get).packages.any (·.name = key) then return ()
    else if above.contains key then throw (.cycle key)
    else
      let resolved ← resolveOne s name d base
      let needed := (resolved.manifest.map (·.dependencies)).getD []
      needed.forM fun (child, description) =>
        under key (dependency s depth (key :: above) child description resolved.package.directory)
      modify fun i => { i with packages := i.packages ++ [resolved.package] }

def declaredNames (text : String) : List String :=
  match Manifest.parse "" text with
  | .ok m => m.dependencies.map fun d => Text.packageName d.1
  | .error _ => []

def knownNames (s : Surroundings) (files : FileTree) (m : Manifest) : List String :=
  let texts := files.entries.filterMap fun (parts, entry) =>
    match entry with
    | .file text => if parts.getLast? = some Manifest.fileName then some text else none
    | .directory => none
  (m.dependencies.map (fun d => Text.packageName d.1) ++
    (texts ++ s.repositories.manifests).flatMap declaredNames).eraseDups

/-- Installs the dependencies of a project. -/
def all (s : Surroundings) (depth : Nat) (m : Manifest) : Install Unit :=
  m.dependencies.forM fun (name, d) => dependency s depth [] name d s.root

end Install

/-- What installing the dependencies of a project leads to. -/
def Manifest.install (m : Manifest) (s : Surroundings) (files : FileTree) :
    Except InstallError Unit × Installation :=
  let depth := (Install.knownNames s files m).length + 1
  ((Install.all s depth m).run).run ⟨files, [], []⟩

def Lockfile.differsFrom (l : Lockfile) (packages : List LockedPackage) : Bool :=
  packages.length ≠ (l.packages.map (·.name)).eraseDups.length ||
    packages.any fun p => (l.packages.reverse.find? (·.name = p.name)) ≠ some p

/-- What installing into a lock file leads to: whether its packages changed, the lock file with the
packages that it has then, and how far the installation came. -/
structure LockUpdate where
  changed : Except InstallError Bool
  lock : Lockfile
  done : Installation

/-- Installs the dependencies of a project into a lock file: its packages become the ones that were
resolved, in the order of their names. An error leaves it as it is. -/
def Manifest.updateLock (m : Manifest) (s : Surroundings) (files : FileTree) (lock : Lockfile) :
    LockUpdate :=
  let (result, done) := m.install s files
  match result with
  | .error e => ⟨.error e, lock, done⟩
  | .ok () =>
    let packages := Lockfile.sortByName done.packages
    ⟨.ok (lock.differsFrom packages), { lock with packages }, done⟩

end ObjectLang
