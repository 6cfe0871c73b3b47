import ObjectLang.Package.Clone
import ObjectLang.Package.Manifest
import ObjectLang.Package.Revision

/-! Repositories: a history of commits, each with its whole content, and names for some of them. A
clone of a repository knows its main branch and its tags by their own names, and its branches by names
that tell where they are from. -/

namespace ObjectLang

/-- A commit: its hash, and the files of its content by the parts of their paths. -/
structure Commit where
  hash : String
  files : List (List String × String)
  deriving DecidableEq, Repr

/-- A repository: where it stands, the history of its main branch with the newest commit first, and the
commits that tags and other branches name. -/
structure Repository where
  place : String
  history : List Commit
  tags : List (String × String)
  branches : List (String × String)
  deriving DecidableEq, Repr

namespace Repository

def mainBranch : String := "master"

/-- A repository without commits. -/
def empty (place : String) : Repository := ⟨place, [], [], []⟩

/-- The content after some files were written over it. -/
def overlay (files changes : List (List String × String)) : List (List String × String) :=
  changes ++ files.filter fun f => !changes.any fun c => c.1 = f.1

def commit (r : Repository) (hash : String) (changes : List (List String × String)) : Repository :=
  let content := (r.history.head?.map (·.files)).getD []
  { r with history := ⟨hash, overlay content changes⟩ :: r.history }

/-- The hash of the newest commit. -/
def head? (r : Repository) : Option String := r.history.head?.map (·.hash)

def tagHead (r : Repository) (tag : String) : Repository :=
  { r with tags := (r.head?.map fun hash => (tag, hash)).toList ++ r.tags }

def branchHead (r : Repository) (branch : String) : Repository :=
  { r with branches := (r.head?.map fun hash => (branch, hash)).toList ++ r.branches }

def cloneReferences (r : Repository) : List (String × String) :=
  match r.head? with
  | none => []
  | some head =>
    [("HEAD", head), ("refs/heads/" ++ mainBranch, head)] ++
      r.tags.map (fun (tag, hash) => ("refs/tags/" ++ tag, hash)) ++
      r.branches.map (fun (branch, hash) => ("refs/remotes/origin/" ++ branch, hash)) ++
      [("refs/remotes/origin/" ++ mainBranch, head)]

/-- The names that a reference may be short for, in the order in which they are tried. -/
def expansions (name : String) : List String :=
  [name, "refs/" ++ name, "refs/tags/" ++ name, "refs/heads/" ++ name, "refs/remotes/" ++ name,
    "refs/remotes/" ++ name ++ "/HEAD"]

def isHashStart (name : String) : Bool :=
  name ≠ "" && name.toList.all fun c =>
    c.isDigit || ('a' ≤ c && c ≤ 'f') || ('A' ≤ c && c ≤ 'F')

/-- The commit that a reference means in a clone: one whose hash starts with it, or else one that it
names. -/
def find? (r : Repository) (name : String) : Option String :=
  let byHash := if isHashStart name then
      r.history.find? fun c => (name.toList.map Char.toLower).isPrefixOf c.hash.toList
    else none
  (byHash.map (·.hash)).orElse fun _ =>
    (expansions name).findSome? fun full => r.cloneReferences.lookup full

/-- The commits from one on back to the first. -/
def since (r : Repository) (hash : String) : List Commit :=
  r.history.dropWhile fun c => c.hash ≠ hash

def stepBack (r : Repository) (hash : String) : BackStep → Except RevisionError String
  | .parent n => go (min n 1)
  | .ancestor n => go n
where
  /-- Goes back some commits. -/
  go (n : Nat) : Except RevisionError String :=
    match (r.since hash).drop n with
    | c :: _ => .ok c.hash
    | [] => .error .noParent

/-- The hash of the commit that a revision leads to in a clone. -/
def resolve (r : Repository) (revision : String) : Except RevisionError String := do
  let parsed ← Revision.parse revision
  match r.find? parsed.reference with
  | none => .error .unknown
  | some start => parsed.steps.foldlM r.stepBack start

def content (r : Repository) (hash : String) : List (List String × String) :=
  ((r.history.find? fun c => c.hash = hash).map (·.files)).getD []

/-- The places at which a repository may stand that an address names: the address itself, or with an
ending that it leaves out. -/
def candidates (cwd address : String) : List String :=
  let scheme := "file://"
  let path := if address.startsWith scheme then
      String.ofList (address.toList.drop scheme.length)
    else address
  let place := Path.absolute cwd path
  [place, place ++ ".git"] ++
    if Path.base place = ".git" then [Path.directory place] else []

/-- The repository at an address, if its history is still there. -/
def at? (tree : FileTree) (repositories : List Repository) (cwd address : String) :
    Option Repository :=
  (candidates cwd address).findSome? fun place =>
    if tree.exists? (historyDirectory place) then repositories.find? fun r => r.place = place
    else none

def clone (r : Repository) : Clone where
  resolve revision := (r.resolve revision).mapError RevisionError.message
  checkout hash := .ok (r.content hash)

/-- The repositories of a list, as they are reached from a working directory. -/
def reachable (cwd : String) (repositories : List Repository) : Repositories where
  clone files address :=
    match at? files repositories cwd address with
    | none => .error "repository not found"
    | some r => .ok r.clone
  manifests := repositories.flatMap fun r => r.history.flatMap fun c =>
    c.files.filterMap fun (parts, text) =>
      if parts.getLast? = some Manifest.fileName then some text else none

end Repository

end ObjectLang
