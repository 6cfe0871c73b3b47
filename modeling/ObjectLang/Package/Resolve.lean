import ObjectLang.Package.Bundle
import ObjectLang.Package.Checksum
import ObjectLang.Package.Clone
import ObjectLang.Package.Lockfile
import ObjectLang.Package.Revision

/-! Resolution of one dependency: a directory is taken as it is; a repository is cloned and the wanted
commit put into the cache, unless it is there already. Either way the result is a locked package, the
directory that it is in and the manifest that stands there, if one does. -/

namespace ObjectLang

/-- What resolution goes by: the working directory, the cache directory, the directory of the project
and the repositories that can be reached. -/
structure Surroundings where
  cwd : String
  cache : String
  root : String
  repositories : Repositories

/-- Why a dependency cannot be resolved. -/
inductive ResolveError where
  | notThere (path : String) (cause : FileError)
  | notDirectory (path : String)
  | noDescription
  | noAddress (name : String)
  | noPin
  | noCache (cause : FileError)
  | notCloned (address cause : String)
  | noRevision (revision cause : String)
  | notCheckedOut (revision cause : String)
  | manifestNotThere (cause : FileError)
  | badManifest (cause : Manifest.ReadError)
  | noLibrary (directory : String)
  deriving DecidableEq, Repr

def ResolveError.message : ResolveError → String
  | .notThere path cause => "stat " ++ path ++ ": " ++ cause.message
  | .notDirectory path => "expected directory at " ++ path
  | .noDescription => "unsupported descriptor"
  | .noAddress name => "dependency " ++ Text.quoted name ++ ": git URL required"
  | .noPin => Pin.missingMessage
  | .noCache cause => cause.message
  | .notCloned address cause => "git clone " ++ address ++ ": " ++ cause
  | .noRevision revision cause => "resolve revision " ++ revision ++ ": " ++ cause
  | .notCheckedOut revision cause => "git checkout " ++ revision ++ ": " ++ cause
  | .manifestNotThere cause => cause.message
  | .badManifest cause => cause.message
  | .noLibrary directory => Library.missingMessage directory

/-- A dependency that was resolved: its package, its manifest, if it has one, and the line that reports
it. The package says in which directory it is. -/
structure ResolvedPackage where
  package : LockedPackage
  manifest : Option Manifest
  report : String
  deriving DecidableEq, Repr

namespace Surroundings

/-- The manifest in the directory of a dependency, if there is one. -/
def manifestIn (s : Surroundings) (files : FileTree) (directory : String) :
    Except ResolveError (Option Manifest) :=
  let path := Path.join directory Manifest.fileName
  match files.stat path with
  | .error cause => if cause.cause = .notFound then .ok none else .error (.manifestNotThere cause)
  | .ok _ => ((Manifest.read files s.cwd path).map some).mapError .badManifest

/-- The version of a package whose manifest gives none. -/
def defaultVersion : String := "0.0.0-dev"

/-- A path as reports show it: from the directory of the project if it is below. -/
def shownPath (s : Surroundings) (path : String) : String :=
  if s.root = "" then path
  else
    let relative := Path.relative s.root path
    if relative.startsWith ".." then path else relative

/-- Resolves a dependency on a directory, whose path may start at the manifest's directory. -/
def resolvePath (s : Surroundings) (files : FileTree) (name : String) (d : Dependency)
    (base : String) : Except ResolveError ResolvedPackage := do
  let path := Path.absolute s.cwd (if Path.isAbsolute d.path then d.path else Path.join base d.path)
  match ← (files.stat path).mapError (.notThere path) with
  | .file _ => .error (.notDirectory path)
  | .directory =>
    let manifest ← s.manifestIn files path
    let given := Text.trim ((manifest.map (·.version)).getD "")
    let version := if given = "" then defaultVersion else given
    let key := Text.packageName name
    return {
      package := ⟨key, version, "path:" ++ path, Checksum.ofDirectory files path, path⟩
      manifest
      report := "linked " ++ key ++ " " ++ version ++ " (" ++ s.shownPath path ++ ")" }

/-- The directory of the cache that holds the checkouts of a dependency. -/
def checkoutsOf (s : Surroundings) (name : String) : String :=
  Path.join (Path.join (Path.join s.cache "pkg") "src") (Text.packageName name)

def checkoutDirectory (s : Surroundings) (name version : String) : String :=
  Path.join (s.checkoutsOf name) (Text.pathSegment version)

def checkout (files : FileTree) (directory : String) (content : List (List String × String)) :
    FileTree :=
  let parts := Path.parts directory
  let made := files.insertDirectories (Path.parts (Repository.historyDirectory directory))
  content.foldl (fun files f =>
    (files.insertDirectories (parts ++ f.1.dropLast)).insert (parts ++ f.1) (.file f.2)) made

/-- Sees to it that the commit that a dependency pins is in the cache: its version and its hash. A
checkout under an explicit revision never moves, so it is taken as it is. -/
def fetch (s : Surroundings) (files : FileTree) (name address : String) (d : Dependency) :
    Except ResolveError (String × String) × FileTree :=
  match files.makeDirectories (s.checkoutsOf name) with
  | .error cause => (.error (.noCache cause), files)
  | .ok files =>
    match d.pin? with
    | none => (.error .noPin, files)
    | some pin =>
      let explicit := Text.trim d.rev
      if explicit ≠ "" && files.exists? (s.checkoutDirectory name explicit) then
        (.ok (explicit, explicit), files)
      else
        match s.repositories.clone files address with
        | .error cause => (.error (.notCloned address cause), files)
        | .ok clone =>
          match clone.resolve pin.revision with
          | .error cause => (.error (.noRevision pin.revision cause), files)
          | .ok hash =>
            let version := pinnedVersion pin.descriptor hash
            let directory := s.checkoutDirectory name version
            if files.exists? directory then (.ok (version, hash), files)
            else
              match clone.checkout hash with
              | .error cause => (.error (.notCheckedOut pin.revision cause), files)
              | .ok content => (.ok (version, hash), checkout files directory content)

def resolveGit (s : Surroundings) (files : FileTree) (name : String) (d : Dependency) :
    Except ResolveError ResolvedPackage × FileTree :=
  let address := Text.trim d.git
  if address = "" then (.error (.noAddress name), files)
  else
    match s.fetch files name address d with
    | (.error e, files) => (.error e, files)
    | (.ok (version, hash), files) =>
      let key := Text.packageName name
      let directory := s.checkoutDirectory name version
      let package : LockedPackage := ⟨key, version, "git+" ++ address ++ "@" ++ hash,
        Checksum.ofDirectory files directory, directory⟩
      let report := "fetched " ++ key ++ " " ++ version ++ " (" ++ shortCommit hash ++ ")"
      ((s.manifestIn files directory).map fun manifest => { package, manifest, report }, files)

/-- Resolves a dependency that a manifest in a directory describes. The files are those that are there
afterwards, whether it succeeds or not. -/
def resolve (s : Surroundings) (files : FileTree) (name : String) (d : Dependency) (base : String) :
    Except ResolveError ResolvedPackage × FileTree :=
  if d.path ≠ "" then (s.resolvePath files name d base, files)
  else if d.git ≠ "" then s.resolveGit files name d
  else (.error .noDescription, files)

end Surroundings

end ObjectLang
