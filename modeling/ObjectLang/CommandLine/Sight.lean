import ObjectLang.CommandLine.Tool

/-! What a command line looks at. The tool works on a value that holds files; these functions say which
files that value has to hold, so that whoever runs it can fetch them first. -/

namespace ObjectLang.CommandLine

/-- Something to look at: a file, or a directory with all that is below it. -/
inductive Sight where
  | file (path : String)
  | below (directory : String)
  deriving DecidableEq, Repr

namespace Sight

/-- The files that say to which project a directory belongs. -/
def ofDirectory (directory : String) : List Sight :=
  (Manifest.directoriesUp directory).flatMap fun d =>
    [.file (Path.join d Manifest.fileName), .file (Path.join d Lockfile.fileName)]

def ofArguments (cwd : String) (args : List String) : List Sight :=
  match Invocation.ofArguments args with
  | .run name _ | .check name _ =>
    let path := Path.absolute cwd name
    if name = "" then ofDirectory cwd else .file path :: ofDirectory (Path.directory path)
  | .install => ofDirectory cwd
  | _ => []

/-- What a dependency of a project makes the tool look at. -/
def ofDependency (w : World) (m : Manifest) (name : String) (d : Dependency) : List Sight :=
  if d.path ≠ "" then
    [.below (if Path.isAbsolute d.path then d.path else Path.join m.root d.path)]
  else
    match w.cacheDirectory? with
    | none => []
    | some cache => [.below ((w.surroundings m cache).checkoutsOf name)]

/-- What a file makes the tool look at. -/
def ofFile (w : World) (parts : List String) (text : String) : List Sight :=
  if parts.getLast? = some Manifest.fileName then
    match Manifest.parse (Path.ofParts parts) text with
    | .ok m => .file m.entryPath :: m.dependencies.flatMap fun (name, d) => ofDependency w m name d
    | .error _ => []
  else if parts.getLast? = some Lockfile.fileName then
    match Lockfile.parse (Path.ofParts parts) text with
    | .ok l => l.packages.map fun p => .below (Path.absolute w.directory p.directory)
    | .error _ => []
  else []

/-- What the files that are there make the tool look at. -/
def ofWorld (w : World) : List Sight :=
  w.files.entries.flatMap fun (parts, entry) =>
    match entry with
    | .file text => ofFile w parts text
    | .directory => []

end Sight

end ObjectLang.CommandLine
