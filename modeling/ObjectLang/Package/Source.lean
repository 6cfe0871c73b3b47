import ObjectLang.Document.Json
import ObjectLang.Syntax.Decode
import ObjectLang.Text.Slug
import ObjectLang.Workspace.FileTree
import ObjectLang.Yaml.Decode

/-! Program files. The end of a file's name says whether it holds JSON or YAML; its document is read
and decoded into a program. -/

namespace ObjectLang

/-- The formats of program files. -/
inductive SourceFormat where
  | json
  | yaml
  deriving DecidableEq, Repr

def SourceFormat.ofPath? (path : String) : Option SourceFormat :=
  match String.ofList ((Path.extension path).toList.map Text.lowerAscii) with
  | ".json" => some .json
  | ".yml" | ".yaml" => some .yaml
  | _ => none

/-- Why a file holds no program. -/
inductive SourceError where
  | unreadable (path : String) (cause : FileError)
  | badJson (path : String) (cause : Json.Error)
  | badYaml (path : String) (cause : Yaml.Error)
  | unknownFormat (path : String)
  | empty (path : String)
  | badProgram (path : String) (cause : DecodeError)

def SourceError.message : SourceError → String
  | .unreadable path cause => "program: read " ++ path ++ ": " ++ cause.message
  | .badJson path cause => "program: parse " ++ path ++ ": " ++ cause.message
  | .badYaml path cause => "program: parse " ++ path ++ ": " ++ cause.message
  | .unknownFormat path => "program: unsupported file type " ++ Text.quoted (Path.extension path)
  | .empty path => "program: " ++ path ++ " is empty"
  | .badProgram path cause => "program: decode " ++ path ++ ": " ++ cause.message

/-- The fields of the document in a file, if it has one. -/
def readFields (path text : String) : Except SourceError (Option (List (String × Document))) :=
  match SourceFormat.ofPath? path with
  | some .json => (Json.readObject? text).mapError (.badJson path)
  | some .yaml => (Yaml.readObject? text).mapError (.badYaml path)
  | none => .error (.unknownFormat path)

def Program.parse (path text : String) : Except SourceError Program := do
  match ← readFields path text with
  | none => .error (.empty path)
  | some fields => (Program.ofFields fields).mapError (.badProgram path)

def Program.read (tree : FileTree) (path : String) : Except SourceError Program := do
  let text ← (tree.read path).mapError (.unreadable path)
  Program.parse path text

end ObjectLang
