import ObjectLang.Workspace.FileTree

/-! What resolution asks of a git library. The library itself is not part of the program: any functions
will do that answer these questions, and what is relied on is said where it is used. -/

namespace ObjectLang

/-- A clone of a repository: the hash that a revision leads to, and the files of the commit with a hash
by the parts of their paths. What goes wrong comes as a text. -/
structure Clone where
  resolve : String → Except String String
  checkout : String → Except String (List (List String × String))

/-- The repositories that can be reached: the clone of the one at an address as the files stand, and the
texts of all manifests that a checkout can bring. -/
structure Repositories where
  clone : FileTree → String → Except String Clone
  manifests : List String

def Repository.historyDirectory (place : String) : String := Path.join place ".git"

end ObjectLang
