import ObjectLang.Text.Blank
import ObjectLang.Yaml.Decode

/-! Dependencies as a manifest describes them: a directory, or a repository with one revision of it.
A description is read from a text, which is short for a directory, or from a mapping. -/

namespace ObjectLang

/-- The description of a dependency. Whatever is not given is empty. -/
structure Dependency where
  git : String := ""
  rev : String := ""
  tag : String := ""
  branch : String := ""
  path : String := ""
  deriving DecidableEq, Repr

namespace Dependency

/-- What is wrong with a description. -/
inductive Issue where
  | pathAndGit
  | noSource
  | notOnePin
  | pinnedPath
  deriving DecidableEq, Repr

def Issue.message : Issue → String
  | .pathAndGit => "path dependencies cannot specify a git source"
  | .noSource => "must specify git or path"
  | .notOnePin => "git dependencies require exactly one of rev, tag or branch"
  | .pinnedPath => "path dependencies cannot pin a revision"

/-- The revisions that a description names. -/
def pins (d : Dependency) : List String := [d.rev, d.tag, d.branch].filter (· ≠ "")

def issues (d : Dependency) : List Issue :=
  (if d.path ≠ "" && d.git ≠ "" then [.pathAndGit] else []) ++
  (if d.path = "" && d.git = "" then [.noSource] else []) ++
  (if d.git ≠ "" && d.pins.length ≠ 1 then [.notOnePin] else []) ++
  (if d.path ≠ "" && !d.pins.isEmpty then [.pinnedPath] else [])

/-- Why the dependencies of a manifest cannot be read. -/
inductive ReadError where
  | notMapping
  | namelessEntry
  | badName (text : String)
  | badFields (name : String) (cause : Yaml.Error)
  | badForm (name tag : String)
  deriving DecidableEq, Repr

def ReadError.message : ReadError → String
  | .notMapping => "manifest: dependencies must be a mapping"
  | .namelessEntry => "manifest: dependency names must be non-empty"
  | .badName text => text
  | .badFields name cause => "manifest: dependency " ++ Text.quoted name ++ ": " ++ cause.message
  | .badForm name tag =>
    "manifest: dependency " ++ Text.quoted name ++ ": expected string or mapping, found " ++ tag

/-- The text in a field of a decoded record; a field without a text is empty. -/
def textField (fields : List (String × Yaml.Value)) (key : String) : String :=
  match fields.lookup key with
  | some (.text s) => s
  | _ => ""

/-- The form of a description that is a mapping. -/
def shape : Yaml.Shape :=
  .record "struct" false
    [("git", .text), ("rev", .text), ("tag", .text), ("branch", .text), ("path", .text)]

/-- The description with the given fields, all trimmed. -/
def ofFields (fields : List (String × Yaml.Value)) : Dependency :=
  { git := Text.trim (textField fields "git")
    rev := Text.trim (textField fields "rev")
    tag := Text.trim (textField fields "tag")
    branch := Text.trim (textField fields "branch")
    path := Text.trim (textField fields "path") }

/-- Reads the description of the dependency with a given name. -/
def ofNode (name : String) (n : Yaml.Node) : Except ReadError Dependency :=
  match n.withoutAlias with
  | .scalar _ _ _ text => .ok { path := Text.trim text }
  | .mapping line written entries =>
    match (Yaml.Node.mapping line written entries).decode shape with
    | .error text => .error (.badFields name (.refused text))
    | .ok (_, c :: cs) => .error (.badFields name (.complaints (c :: cs)))
    | .ok (some (.fields fields), []) => .ok (ofFields fields)
    | .ok (_, []) => .ok {}
  | other => .error (.badForm name other.tag)

/-- What comes of reading the dependencies of a manifest: the complaints about a name, or the
descriptions under their names. -/
abbrev Reading := Except (List Yaml.Complaint) (List (String × Dependency))

def ofEntries : List (Yaml.Node × Yaml.Node) → Except ReadError Reading
  | [] => .ok (.ok [])
  | (key, value) :: rest =>
    match key.decode .text with
    | .error text => .error (.badName text)
    | .ok (_, c :: cs) => .ok (.error (c :: cs))
    | .ok (found, []) => do
      let name := match found with
        | some (.text s) => Text.trim s
        | _ => ""
      if name = "" then .error .namelessEntry
      else
        let first ← ofNode name value
        let others ← ofEntries rest
        return others.map ((name, first) :: ·)

def readAll : Yaml.Node → Except ReadError Reading
  | .mapping _ _ entries => ofEntries entries
  | _ => .error .notMapping

/-- The complaints about the node that holds the dependencies, as a decoder asks for them. -/
def check (n : Yaml.Node) : Except String (List Yaml.Complaint) :=
  match readAll n with
  | .error e => .error e.message
  | .ok (.error complaints) => .ok complaints
  | .ok (.ok _) => .ok []

/-- Dependencies by name, in the order of the names; the last description under a name counts. -/
def byName (list : List (String × Dependency)) : List (String × Dependency) :=
  (Document.distinctFields list).mergeSort fun a b => decide (a.1 ≤ b.1)

def ofChecked (n : Yaml.Node) : List (String × Dependency) :=
  match readAll n with
  | .ok (.ok list) => byName list
  | _ => []

end Dependency

end ObjectLang
