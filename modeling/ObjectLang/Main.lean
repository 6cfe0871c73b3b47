import ObjectLang.CommandLine.Sight
import ObjectLang.Text.Utf8
import ObjectLang.Workspace.Date
import Std.Time

/-! The program: it fetches the files that the command line looks at, lets the tool work on them, and
writes back what has changed. -/

namespace ObjectLang.CommandLine

def namesIn (directory : String) : IO (List String) := do
  let here ← IO.currentDir
  return (← (here / directory).readDir).toList.map (·.fileName)

/-- The content of a file, if there is one. -/
def contentAt (path : String) : IO (Option String) := do
  match ← (IO.FS.readBinFile path).toBaseIO with
  | .ok bytes => return some (Text.ofBytes bytes.toList)
  | .error _ => return none

/-- Adds what stands at a path to files: a file, or a directory with what is below it, down to a
depth. -/
def fetch (depth : Nat) (path : String) (files : FileTree) : IO FileTree := do
  let parts := Path.parts path
  let content ← contentAt path
  let names ← (namesIn path).toBaseIO
  match content, names, depth with
  | some text, _, _ => return (files.insertDirectories parts.dropLast).insert parts (.file text)
  | none, .error _, _ => return files
  | none, .ok _, 0 => return files.insertDirectories parts
  | none, .ok names, depth + 1 =>
    names.foldlM (fun files name => fetch depth (Path.join path name) files)
      (files.insertDirectories parts)

/-- The depth of directories that are looked at. -/
def maxDepth : Nat := 64

/-- Adds what there is to see. -/
def Sight.fetch : Sight → FileTree → IO FileTree
  | .file path, files => CommandLine.fetch 0 path files
  | .below directory, files => CommandLine.fetch maxDepth directory files

/-- Fetches what there is to see, and what that makes the tool look at, in as many rounds as given. -/
def gather : Nat → List Sight → List Sight → World → IO World
  | 0, _, _, w => return w
  | rounds + 1, seen, wanted, w => do
    let fresh := wanted.filter fun s => !seen.contains s
    if fresh.isEmpty then return w
    else
      let files ← fresh.foldlM (fun files s => s.fetch files) w.files
      let w := { w with files }
      gather rounds (fresh ++ seen) (Sight.ofWorld w) w

/-- Writes the files that differ from what they were. -/
def writeBack (before after : FileTree) : IO Unit :=
  after.entries.forM fun (parts, entry) => do
    if before.entries.lookup parts ≠ some entry then
      match entry with
      | .directory => IO.FS.createDirAll (Path.ofParts parts)
      | .file text =>
        IO.FS.createDirAll (Path.ofParts parts.dropLast)
        IO.FS.writeFile (Path.ofParts parts) text

/-- The steps that a program may take. -/
def stepLimit : Nat := Nat.pow 2 60

end ObjectLang.CommandLine

open ObjectLang in
/-- Does what the arguments ask for. -/
def main (args : List String) : IO UInt32 := do
  let directory := (← IO.currentDir).toString
  let seconds := (← Std.Time.Timestamp.now).toSecondsSinceUnixEpoch.val.toNat
  let bare : CommandLine.World :=
    { files := .empty
      directory
      toolHome := (← IO.getEnv "MOOPL_HOME").getD ""
      userHome := (← IO.getEnv "HOME").getD ""
      now := Date.utcText seconds
      repositories := [] }
  let world ← CommandLine.gather 100 [] (CommandLine.Sight.ofArguments directory args) bare
  let outcome := world.perform CommandLine.stepLimit (CommandLine.Invocation.ofArguments args)
  CommandLine.writeBack world.files outcome.files
  IO.print outcome.stdout
  IO.eprint outcome.stderr
  return outcome.status.toUInt32
