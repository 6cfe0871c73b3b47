import ObjectLang.Package.Manifest
import ObjectLang.Yaml.RecordText

/-! Lock files: what each dependency of a project was resolved to. A draft may spell names in any way,
be in any order and have gaps; a lock file that was written or read has names in their normal form, and
its packages are in the order of their names. -/

namespace ObjectLang

/-- A dependency as it was resolved; `directory` holds its library program. -/
structure LockedPackage where
  name : String
  version : String
  source : String
  checksum : String
  directory : String
  deriving DecidableEq, Repr

/-- What a lock file says: the project, when and by which tool it was made, and the packages. The path
is where it stands, and empty as long as it stands nowhere. -/
structure Lockfile where
  path : String
  root : String
  generated : String
  tool : String
  packages : List LockedPackage
  deriving DecidableEq, Repr

/-- The normal form of a locked package: its name is normal and its other texts are trimmed. -/
def LockedPackage.normalize (p : LockedPackage) : LockedPackage :=
  { name := Text.packageName p.name
    version := Text.trim p.version
    source := Text.trim p.source
    checksum := Text.trim p.checksum
    directory := Text.trim p.directory }

/-- A lock file in the making. -/
structure Lockfile.Draft where
  path : String
  root : String
  generated : String
  tool : String
  entries : List (Option LockedPackage)
  deriving DecidableEq, Repr

namespace Lockfile

def fileName : String := "moopl.lock"

def pathFor (m : Manifest) : String := Path.join m.root fileName

/-- The lock file of a project without packages, which stands nowhere yet. -/
def fresh (project tool now : String) : Lockfile :=
  { path := "", root := Text.packageName project, generated := now, tool := Text.trim tool,
    packages := [] }

/-- A lock file as a draft. -/
def draft (l : Lockfile) : Draft :=
  ⟨l.path, l.root, l.generated, l.tool, l.packages.map some⟩

/-- Packages in the order of their names; those with one name keep their order. -/
def sortByName (packages : List LockedPackage) : List LockedPackage :=
  packages.mergeSort fun a b => decide (a.name ≤ b.name)

/-- The normal form of a draft: the gaps are gone, the names normal and in order, and all texts but
the date trimmed. -/
def Draft.normalize (d : Draft) : Lockfile :=
  { path := d.path
    root := Text.packageName d.root
    generated := d.generated
    tool := Text.trim d.tool
    packages := sortByName (d.entries.reduceOption.map LockedPackage.normalize) }

/-- The package with a name, in whatever spelling. -/
def package? (l : Lockfile) (name : String) : Option LockedPackage :=
  l.packages.find? fun p => p.name = Text.packageName name

def packageFields (p : LockedPackage) : List (String × String) :=
  [("name", p.name), ("version", p.version), ("source", p.source), ("checksum", p.checksum),
    ("dir", p.directory)]

/-- A lock file as the record that is written. -/
def record (l : Lockfile) : Yaml.Record :=
  [("root", .text l.root), ("generated", .text l.generated), ("tool", .text l.tool),
    ("packages", .records (l.packages.map packageFields))]

/-- Why a lock file cannot be written. -/
inductive WriteError where
  | noPath
  | unwritten (path : String) (cause : FileError)
  deriving DecidableEq, Repr

def WriteError.message : WriteError → String
  | .noPath => "lockfile: missing path"
  | .unwritten path cause => "lockfile: write " ++ path ++ ": " ++ cause.message

/-- The lock file that comes of a draft at a path; it is dated now if the draft has no date. -/
def Draft.finish (d : Draft) (path now : String) : Lockfile :=
  ({ d with path, generated := if d.generated = "" then now else d.generated }).normalize

/-- Writes a draft to a path, or where it stands if the path is empty: the lock file, and the files with
it. -/
def Draft.write (d : Draft) (tree : FileTree) (cwd now path : String) :
    Except WriteError (Lockfile × FileTree) := do
  let chosen := if path = "" then d.path else path
  if chosen = "" then .error .noPath
  else
    let place := Path.absolute cwd chosen
    let lock := d.finish place now
    let tree ← (tree.write place lock.record.text).mapError (.unwritten place)
    return (lock, tree)

/-- Why a lock file cannot be read. -/
inductive ReadError where
  | emptyPath
  | unopened (cause : FileError)
  | unreadable (path : String) (cause : FileError)
  | empty (path : String)
  | badYaml (path : String) (cause : Yaml.Error)
  deriving DecidableEq, Repr

def ReadError.message : ReadError → String
  | .emptyPath => "lockfile: empty path"
  | .unopened cause => cause.message
  | .unreadable path cause =>
    "lockfile: parse " ++ path ++ ": yaml: input error: " ++ cause.message
  | .empty path => "lockfile: parse " ++ path ++ ": EOF"
  | .badYaml path cause => "lockfile: parse " ++ path ++ ": " ++ cause.message

/-- Whether a read failed because there is no file. -/
def ReadError.isMissing : ReadError → Bool
  | .unopened cause => cause.cause = .notFound
  | _ => false

/-- The form of a lock file. -/
def shape : Yaml.Shape :=
  .record "driver.lockfileDisk" true
    [("root", .text), ("generated", .text), ("tool", .text),
      ("packages", .list "[]driver.lockfilePackage"
        (.record "driver.lockfilePackage" true
          [("name", .text), ("version", .text), ("source", .text), ("checksum", .text),
            ("dir", .text)]))]

/-- The package in a decoded item. -/
def packageOf : Yaml.Value → LockedPackage
  | .fields fields =>
    { name := Dependency.textField fields "name"
      version := Dependency.textField fields "version"
      source := Dependency.textField fields "source"
      checksum := Dependency.textField fields "checksum"
      directory := Dependency.textField fields "dir" }
  | _ => ⟨"", "", "", "", ""⟩

/-- The draft at a path with the given fields. -/
def Draft.ofFields (path : String) (fields : List (String × Yaml.Value)) : Draft :=
  { path
    root := Dependency.textField fields "root"
    generated := Text.trim (Dependency.textField fields "generated")
    tool := Dependency.textField fields "tool"
    entries := match fields.lookup "packages" with
      | some (.items items) => items.map fun item => some (packageOf item)
      | _ => [] }

/-- The lock file in a text that stands at a path. -/
def parse (path text : String) : Except ReadError Lockfile :=
  match Yaml.decodeText shape text with
  | .error cause => .error (.badYaml path cause)
  | .ok none => .error (.empty path)
  | .ok (some (some (.fields fields))) => .ok (Draft.ofFields path fields).normalize
  | .ok (some _) => .ok (Draft.ofFields path []).normalize

def read (tree : FileTree) (cwd path : String) : Except ReadError Lockfile := do
  if path = "" then .error .emptyPath
  else
    let place := Path.absolute cwd path
    match ← (tree.open? place).mapError .unopened with
    | .directory => .error (.unreadable place ⟨"read", place, .isDirectory⟩)
    | .file text => parse place text

end Lockfile

end ObjectLang
