import ObjectLang.Workspace.Path

/-! Files and directories as a finite value. A file tree lists what there is by the parts of its
absolute path; the directories above an entry are there whether listed or not. The content of a file is
text, so there are no files of other bytes, and there are no links and no permissions; a use of a path
fails for what stands at the path or above it, and for nothing else. -/

namespace ObjectLang

/-- What a path leads to. -/
inductive Entry where
  | file (content : String)
  | directory
  deriving DecidableEq, Repr

/-- Why a path could not be used. -/
inductive FileCause where
  | notFound
  | notDirectory
  | isDirectory
  deriving DecidableEq, Repr

def FileCause.message : FileCause → String
  | .notFound => "no such file or directory"
  | .notDirectory => "not a directory"
  | .isDirectory => "is a directory"

/-- A failed use of a path: what was tried, the path, and why it failed. -/
structure FileError where
  action : String
  path : String
  cause : FileCause
  deriving DecidableEq, Repr

def FileError.message (e : FileError) : String :=
  e.action ++ " " ++ e.path ++ ": " ++ e.cause.message

/-- Files and directories by the parts of their absolute paths. -/
structure FileTree where
  entries : List (List String × Entry)
  deriving DecidableEq, Repr

namespace FileTree

/-- The tree without files. -/
def empty : FileTree := ⟨[]⟩

/-- What stands at a path; a path with something below it is a directory. -/
def at? (tree : FileTree) (parts : List String) : Option Entry :=
  match tree.entries.lookup parts with
  | some entry => some entry
  | none =>
    if parts.isEmpty || tree.entries.any (fun e => parts.isPrefixOf e.1) then some .directory
    else none

/-- Whether a file stands above a path, so that nothing can stand at it. -/
def isBlocked (tree : FileTree) (parts : List String) : Bool :=
  tree.entries.any fun e => (match e.2 with | .file _ => true | .directory => false) &&
    e.1.isPrefixOf parts && e.1 ≠ parts

/-- What an absolute path leads to. -/
def find (tree : FileTree) (path : String) : Except FileCause Entry :=
  let parts := Path.parts path
  match tree.at? parts with
  | some entry => .ok entry
  | none => .error (if tree.isBlocked parts then .notDirectory else .notFound)

/-- Asks what a path leads to. -/
def stat (tree : FileTree) (path : String) : Except FileError Entry :=
  (tree.find path).mapError fun cause => ⟨"stat", path, cause⟩

def isFile (tree : FileTree) (path : String) : Bool :=
  match tree.find path with
  | .ok (.file _) => true
  | _ => false

def exists? (tree : FileTree) (path : String) : Bool :=
  match tree.find path with
  | .ok _ => true
  | _ => false

/-- Opens what a path leads to, a directory included. -/
def open? (tree : FileTree) (path : String) : Except FileError Entry :=
  (tree.find path).mapError fun cause => ⟨"open", path, cause⟩

def read (tree : FileTree) (path : String) : Except FileError String := do
  match ← tree.open? path with
  | .file content => return content
  | .directory => .error ⟨"read", path, .isDirectory⟩

/-- The tree with an entry at given parts in place of what stood there. -/
def insert (tree : FileTree) (parts : List String) (entry : Entry) : FileTree :=
  ⟨(parts, entry) :: tree.entries.filter fun e => e.1 ≠ parts⟩

/-- The directories above given parts. -/
def parents (parts : List String) : List (List String) :=
  (List.range parts.length).map fun n => parts.take n

/-- The tree with directories listed at given parts and above. -/
def insertDirectories (tree : FileTree) (parts : List String) : FileTree :=
  (parents parts ++ [parts]).foldl (fun tree above =>
    match tree.entries.lookup above with
    | some _ => tree
    | none => ⟨(above, .directory) :: tree.entries⟩) tree

/-- Writes a file into a directory that is there. -/
def write (tree : FileTree) (path content : String) : Except FileError FileTree :=
  let parts := Path.parts path
  match tree.at? parts with
  | some .directory => .error ⟨"open", path, .isDirectory⟩
  | some (.file _) => .ok (tree.insert parts (.file content))
  | none =>
    match tree.at? parts.dropLast with
    | some .directory => .ok ((tree.insertDirectories parts.dropLast).insert parts (.file content))
    | some (.file _) => .error ⟨"open", path, .notDirectory⟩
    | none =>
      .error ⟨"open", path, if tree.isBlocked parts then .notDirectory else .notFound⟩

/-- Makes a directory and those above it, unless a file is in the way. -/
def makeDirectories (tree : FileTree) (path : String) : Except FileError FileTree :=
  let parts := Path.parts path
  let blocking := (parents parts ++ [parts]).find? fun above =>
    match tree.entries.lookup above with
    | some (.file _) => true
    | _ => false
  match blocking with
  | some above => .error ⟨"mkdir", Path.ofParts above, .notDirectory⟩
  | none => .ok (tree.insertDirectories parts)

/-- Removes what stands at a path and below it; the directory around it stays. -/
def remove (tree : FileTree) (path : String) : FileTree :=
  let parts := Path.parts path
  let kept : FileTree := ⟨tree.entries.filter fun e => !parts.isPrefixOf e.1⟩
  match tree.at? parts.dropLast with
  | some .directory => kept.insertDirectories parts.dropLast
  | _ => kept

/-- Whether one path comes no later than another in a walk that goes through each directory by name. -/
def isBefore : List String → List String → Bool
  | [], _ => true
  | _ :: _, [] => false
  | a :: as, b :: bs => if a = b then isBefore as bs else decide (a < b)

/-- The files below a directory by the parts of their paths from there, in the order of a walk that
goes through each directory by name. -/
def filesBelow (tree : FileTree) (parts : List String) : List (List String × String) :=
  let below := tree.entries.filterMap fun e =>
    match e.2 with
    | .file content =>
      if parts.isPrefixOf e.1 && e.1 ≠ parts then some (e.1.drop parts.length, content) else none
    | .directory => none
  below.mergeSort fun a b => isBefore a.1 b.1

end FileTree

end ObjectLang
