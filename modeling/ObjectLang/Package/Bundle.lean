import ObjectLang.Package.Source

/-! Bundles: an entry program with the libraries that it uses. A library is a program in a directory of
its own; it must not have commands. Linking puts the routines and classes of all libraries in front of
those of the entry program, whose commands are the ones that run. -/

namespace ObjectLang

/-- A directory with a library, and the name under which it is known. -/
structure LibraryPath where
  name : String
  directory : String
  deriving DecidableEq, Repr

namespace Library

/-- The files that can hold the program of a library, in the order in which they are tried. -/
def fileNames : List String := ["lib.json", "lib.yml", "lib.yaml"]

def find? (tree : FileTree) (directory : String) : Option String :=
  (fileNames.map fun name => Path.join directory name).find? tree.isFile

/-- The message that a directory has no library. -/
def missingMessage (directory : String) : String :=
  "no library program ([" ++ " ".intercalate fileNames ++ "]) in " ++ directory

/-- The places to look for libraries: absolute, each once and under the first of its names; a place
without a name has that of its directory. -/
def places (cwd : String) (paths : List LibraryPath) : List LibraryPath :=
  (paths.filter (·.directory ≠ "")).foldl (fun found path =>
    let directory := Path.absolute cwd path.directory
    if found.any (·.directory = directory) then found
    else
      let name := if path.name = "" then Text.packageName (Path.base directory) else path.name
      found ++ [⟨name, directory⟩]) []

end Library

/-- A program, the name under which it takes part and the file that it is from. -/
structure BundledProgram where
  name : String
  file : String
  program : Program

/-- An entry program with its libraries. -/
structure Bundle where
  entry : BundledProgram
  libraries : List BundledProgram

namespace Bundle

/-- What is wrong with a library. -/
inductive LibraryError where
  | missing (directory : String)
  | unreadable (cause : SourceError)
  | hasCommands (file : String)

def LibraryError.message : LibraryError → String
  | .missing directory => Library.missingMessage directory
  | .unreadable cause => cause.message
  | .hasCommands file => "library " ++ file ++ " must not contain commands"

/-- Why a bundle cannot be put together. -/
inductive LoadError where
  | entry (cause : SourceError)
  | library (name : String) (cause : LibraryError)

def LoadError.message : LoadError → String
  | .entry cause => cause.message
  | .library name cause => "loader: dependency " ++ name ++ ": " ++ cause.message

def readLibrary (tree : FileTree) (place : LibraryPath) : Except LibraryError BundledProgram := do
  match Library.find? tree place.directory with
  | none => .error (.missing place.directory)
  | some file =>
    let program ← (Program.read tree file).mapError .unreadable
    if program.commands.isEmpty then return ⟨place.name, file, program⟩
    else .error (.hasCommands file)

/-- Reads an entry program and the libraries at the given places. -/
def load (tree : FileTree) (cwd : String) (paths : List LibraryPath) (entry : String) :
    Except LoadError Bundle := do
  let file := Path.absolute cwd entry
  let program ← (Program.read tree file).mapError .entry
  let libraries ← (Library.places cwd paths).mapM fun place =>
    (readLibrary tree place).mapError (.library place.name)
  return ⟨⟨"main", file, program⟩, libraries⟩

def link (b : Bundle) : Program :=
  let routines := b.libraries.flatMap (·.program.routines) ++ b.entry.program.routines
  let classes := b.libraries.flatMap (·.program.classes) ++ b.entry.program.classes
  { b.entry.program with
    routinesListed := !routines.isEmpty
    routines
    classesListed := !classes.isEmpty
    classes }

end Bundle

end ObjectLang
