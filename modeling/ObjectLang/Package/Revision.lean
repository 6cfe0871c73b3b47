import ObjectLang.Package.Dependency
import ObjectLang.Text.Utf8

/-! Revisions: how a dependency names the state of a repository that it wants, how such a name is
taken apart, and how the pinned state is called in a lock file. -/

namespace ObjectLang

/-- A wanted state of a repository: the revision to look up, and the word that describes it. -/
structure Pin where
  revision : String
  descriptor : String
  deriving DecidableEq, Repr

def Pin.missingMessage : String := "git dependencies require rev, tag, or branch"

/-- What a dependency pins: a revision goes before a tag, and a tag before a branch. -/
def Dependency.pin? (d : Dependency) : Option Pin :=
  let rev := Text.trim d.rev
  let tag := Text.trim d.tag
  let branch := Text.trim d.branch
  if rev ≠ "" then some ⟨rev, rev⟩
  else if tag ≠ "" then some ⟨"refs/tags/" ++ tag, tag⟩
  else if branch ≠ "" then some ⟨"refs/heads/" ++ branch, branch⟩
  else none

/-- The version of a pinned state: what describes it and its commit, or the one that there is. -/
def pinnedVersion (descriptor commit : String) : String :=
  let commit := Text.trim commit
  let descriptor := Text.trim descriptor
  if commit = "" then descriptor
  else if descriptor = "" || descriptor = commit then commit
  else descriptor ++ "@" ++ commit

/-- The short form of a commit: its first twelve bytes. -/
def shortCommit (commit : String) : String :=
  if commit.utf8ByteSize > 12 then Text.takeBytes 12 commit else commit

/-- Steps back from a commit: to a parent, or to an ancestor of some degree. -/
inductive BackStep where
  | parent (number : Nat)
  | ancestor (degree : Nat)
  deriving DecidableEq, Repr

/-- A revision taken apart: a reference, and the steps back from it. -/
structure Revision where
  reference : String
  steps : List BackStep
  deriving DecidableEq, Repr

/-- Why a revision leads to no commit. -/
inductive RevisionError where
  | malformed (rule : String)
  | unknown
  | noParent
  deriving DecidableEq, Repr

def RevisionError.message : RevisionError → String
  | .malformed rule => "Revision invalid : " ++ rule
  | .unknown => "reference not found"
  | .noParent => "EOF"

namespace Revision

def endsReference (c : Char) : Bool := c = '@' || c = ':' || c = '~' || c = '^'

/-- The characters that a reference must not contain. -/
def isForbidden (c : Char) : Bool :=
  ['\\', '?', '*', '['].contains c || Text.isBlank c || c.toNat < 0x20 ||
    (0x7F ≤ c.toNat && c.toNat ≤ 0x9F)

/-- Whether the characters so far, last first, end in `.lock`. -/
def endsInLock (before : List Char) : Bool := ['k', 'c', 'o', 'l', '.'].isPrefixOf before

/-- The rule that the next character of a reference breaks, if it breaks one; the characters so far
are given last first. -/
def brokenRule? (before : List Char) (c : Char) : Option String :=
  if isForbidden c then some ("must not contains \"" ++ String.singleton c ++ "\"")
  else
    match before with
    | [] =>
      if c = '.' || c = '/' then some ("must not start with \"" ++ String.singleton c ++ "\"") else none
    | last :: _ =>
      if c = '.' && last = '/' then some "must not contains \"/.\""
      else if c = '.' && last = '.' then some "must not contains \"..\""
      else if c = '/' && last = '/' then some "must not contains consecutively \"/\""
      else if c = '/' && endsInLock before then some "cannot end with .lock"
      else none

/-- The rule that the end of a reference breaks, if it breaks one. -/
def brokenEndRule? (before : List Char) : Option String :=
  match before with
  | '/' :: _ => some "must not end with \"/\""
  | '.' :: _ => some "must not end with \".\""
  | _ => if endsInLock before then some "cannot end with .lock" else none

/-- Reads a reference: its characters, and what follows. -/
def readReference (before : List Char) : List Char → Except RevisionError (List Char × List Char)
  | [] =>
    match brokenEndRule? before with
    | some rule => .error (.malformed rule)
    | none => .ok (before.reverse, [])
  | c :: rest =>
    if endsReference c then
      match brokenEndRule? before with
      | some rule => .error (.malformed rule)
      | none => .ok (before.reverse, c :: rest)
    else
      match brokenRule? before c with
      | some rule => .error (.malformed rule)
      | none => readReference (c :: before) rest

/-- The number at the front of characters, or one if there is none. -/
def degree (cs : List Char) : Nat :=
  let digits := cs.takeWhile Char.isDigit
  if digits.isEmpty then 1 else Number.Binary64.digitsValue digits

/-- Reads the steps back behind a reference, in as many rounds as given. -/
def backSteps : Nat → List Char → Except RevisionError (List BackStep)
  | 0, _ | _, [] => .ok []
  | rounds + 1, c :: rest => do
    let n := degree rest
    let after := rest.dropWhile Char.isDigit
    if c = '~' then return .ancestor n :: (← backSteps rounds after)
    else if c = '^' then
      if n > 2 then
        .error (.malformed ("\"" ++ String.ofList (rest.takeWhile Char.isDigit) ++
          "\" found must be 0, 1 or 2 after \"^\""))
      else return .parent n :: (← backSteps rounds after)
    else if c = ':' then .error .unknown
    else .error (.malformed "reference must be defined once at the beginning")

/-- Takes a revision apart. An at sign alone stands for the head. -/
def parse (text : String) : Except RevisionError Revision := do
  match text.toList with
  | '@' :: rest => return ⟨"HEAD", ← backSteps rest.length rest⟩
  | '~' :: _ | '^' :: _ =>
    .error (.malformed "\"~\" or \"^\" statement must have a reference defined at the beginning")
  | cs =>
    let (name, rest) ← readReference [] cs
    return ⟨String.ofList name, ← backSteps rest.length rest⟩

end Revision

end ObjectLang
