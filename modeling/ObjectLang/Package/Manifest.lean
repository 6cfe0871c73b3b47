import ObjectLang.Package.Dependency
import ObjectLang.Package.Source

/-! Manifests: the file that names a project, its entry program and its dependencies. A manifest is
found by walking up from a directory, read, and checked as a whole, so that all issues with it are
known at once. -/

namespace ObjectLang

/-- A project by its manifest, which stands at an absolute path. The dependencies are in the order of
their names. -/
structure Manifest where
  path : String
  name : String
  version : String
  entry : String
  trace : Bool
  maxDepth : Int
  dependencies : List (String × Dependency)
  deriving DecidableEq, Repr

namespace Manifest

def fileName : String := "moopl.yml"

def root (m : Manifest) : String := Path.directory m.path

def entryPath (m : Manifest) : String :=
  if m.entry = "" then ""
  else if Path.isAbsolute m.entry then m.entry
  else Path.join m.root m.entry

/-- A directory and those around it, from the inside out. -/
def directoriesUp (directory : String) : List String :=
  let parts := Path.parts directory
  (List.range (parts.length + 1)).reverse.map fun n => Path.ofParts (parts.take n)

/-- The manifest of a place: the first one in the directory of the place and those around it. -/
def find? (tree : FileTree) (cwd start : String) : Option String :=
  let place := Path.absolute cwd start
  let directory := if tree.isFile place then Path.directory place else place
  ((directoriesUp directory).map fun d => Path.join d fileName).find? tree.isFile

/-- The message that no manifest was found. -/
def notFoundMessage (start : String) : String :=
  "manifest: " ++ fileName ++ " not found from " ++ start

/-- What is wrong with a manifest. -/
inductive Issue where
  | noName
  | noEntry
  | badEntry (entry : String)
  | negativeDepth
  | dependency (name : String) (issue : Dependency.Issue)
  deriving DecidableEq, Repr

def Issue.message : Issue → String
  | .noName => "name must be provided"
  | .noEntry => "entry must be provided"
  | .badEntry entry =>
    "entry " ++ Text.quoted entry ++ " must be a .json, .yml or .yaml file"
  | .negativeDepth => "max_depth must not be negative"
  | .dependency name issue => "dependencies." ++ name ++ ": " ++ issue.message

def issues (m : Manifest) : List Issue :=
  (if m.name = "" then [.noName] else []) ++
  (if m.entry = "" then [.noEntry]
    else if (SourceFormat.ofPath? m.entry).isNone then [.badEntry m.entry] else []) ++
  (if m.maxDepth < 0 then [.negativeDepth] else []) ++
  m.dependencies.flatMap fun (name, d) => d.issues.map (.dependency name)

def issuesMessage (issues : List String) : String :=
  if issues.isEmpty then "manifest: invalid configuration"
  else "manifest validation failed:" ++ String.join (issues.map ("\n- " ++ ·))

/-- Why a manifest cannot be read. -/
inductive ReadError where
  | emptyPath
  | unopened (path : String) (cause : FileError)
  | unreadable (path : String) (cause : FileError)
  | empty (path : String)
  | badYaml (path : String) (cause : Yaml.Error)
  | invalid (issues : List Issue)
  deriving DecidableEq, Repr

def ReadError.message : ReadError → String
  | .emptyPath => "manifest: empty path"
  | .unopened path cause => "manifest: open " ++ path ++ ": " ++ cause.message
  | .unreadable path cause =>
    "manifest: parse " ++ path ++ ": yaml: input error: " ++ cause.message
  | .empty path => "manifest: " ++ path ++ " is empty"
  | .badYaml path cause => "manifest: parse " ++ path ++ ": " ++ cause.message
  | .invalid issues => issuesMessage (issues.map Issue.message)

/-- The form of a manifest file. -/
def shape : Yaml.Shape :=
  .record "driver.manifestFile" true
    [("name", .text), ("version", .text), ("entry", .text), ("trace", .truth),
      ("max_depth", .whole), ("dependencies", .custom Dependency.check)]

/-- The manifest at a path with the given fields. -/
def ofFields (path : String) (fields : List (String × Yaml.Value)) : Manifest :=
  { path
    name := Text.packageName (Dependency.textField fields "name")
    version := Text.trim (Dependency.textField fields "version")
    entry := Text.trim (Dependency.textField fields "entry")
    trace := match fields.lookup "trace" with
      | some (.truth b) => b
      | _ => false
    maxDepth := match fields.lookup "max_depth" with
      | some (.whole n) => n
      | _ => 0
    dependencies := match fields.lookup "dependencies" with
      | some (.node n) => Dependency.ofChecked n
      | _ => [] }

/-- The manifest if there is nothing wrong with it. -/
def validated (m : Manifest) : Except ReadError Manifest :=
  if m.issues.isEmpty then .ok m else .error (.invalid m.issues)

def parse (path text : String) : Except ReadError Manifest :=
  match Yaml.decodeText shape text with
  | .error cause => .error (.badYaml path cause)
  | .ok none => .error (.empty path)
  | .ok (some (some (.fields fields))) => (ofFields path fields).validated
  | .ok (some _) => (ofFields path []).validated

def read (tree : FileTree) (cwd path : String) : Except ReadError Manifest := do
  if path = "" then .error .emptyPath
  else
    let place := Path.absolute cwd path
    match ← (tree.open? place).mapError (.unopened place) with
    | .directory => .error (.unreadable place ⟨"read", place, .isDirectory⟩)
    | .file text => parse place text

end Manifest

end ObjectLang
