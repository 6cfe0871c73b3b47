import ObjectLang.Digest.Sha256
import ObjectLang.Workspace.FileTree

/-! The checksum of a directory's content. The digest runs over the files below the directory in the
order of a walk by name: for each file first its path from the directory, then its content. What lies
in a `.git` directory does not count. -/

namespace ObjectLang.Checksum

/-- The name of the directories that do not count. -/
def skipped : String := ".git"

/-- Whether a path from the directory leads through a directory that does not count. -/
def isSkipped (parts : List String) : Bool := parts.dropLast.contains skipped

/-- The files that count, by the parts of their paths from the directory. -/
def files (tree : FileTree) (directory : String) : List (List String × String) :=
  let parts := Path.parts directory
  match tree.at? parts with
  | some (.file content) => [(["."], content)]
  | _ =>
    if parts.getLast? = some skipped then []
    else (tree.filesBelow parts).filter fun f => !isSkipped f.1

def fileBytes (file : List String × String) : List UInt8 :=
  ("/".intercalate file.1).toUTF8.toList ++ file.2.toUTF8.toList

def bytes (tree : FileTree) (directory : String) : List UInt8 :=
  (files tree directory).flatMap fileBytes

def ofDirectory (tree : FileTree) (directory : String) : String :=
  Sha256.hexDigest (bytes tree directory)

end ObjectLang.Checksum
