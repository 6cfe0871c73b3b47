/-! File paths, which are texts with slashes between their parts. Nothing here looks at files: a path
is cleaned, joined and cut by its text alone. -/

namespace ObjectLang.Path

def isAbsolute (path : String) : Bool := path.toList.head? = some '/'

/-- The texts between the separators of a list. -/
def splitOnChar (sep : Char) : List Char → List (List Char)
  | [] => [[]]
  | c :: cs =>
    if c = sep then [] :: splitOnChar sep cs
    else match splitOnChar sep cs with
      | [] => [[c]]
      | first :: rest => (c :: first) :: rest

/-- The parts of a path, empty ones included. -/
def rawParts (path : String) : List String :=
  (splitOnChar '/' path.toList).map String.ofList

/-- Adds a part to the parts so far, last first: a dot adds nothing, and two dots take the last part
away, or stay where there is none, unless the path starts at the root. -/
def addPart (rooted : Bool) (parts : List String) (part : String) : List String :=
  if part = "" || part = "." then parts
  else if part = ".." then
    match parts with
    | [] => if rooted then [] else [".."]
    | last :: rest => if last = ".." then ".." :: parts else rest
  else part :: parts

/-- The parts of a path without dots and empty parts. -/
def parts (path : String) : List String :=
  ((rawParts path).foldl (addPart (isAbsolute path)) []).reverse

/-- The text of an absolute path with given parts. -/
def ofParts (parts : List String) : String := "/" ++ "/".intercalate parts

def clean (path : String) : String :=
  if isAbsolute path then ofParts (parts path)
  else match parts path with
    | [] => "."
    | ps => "/".intercalate ps

/-- Joins two paths; an empty one adds nothing. -/
def join (a b : String) : String :=
  if a = "" then (if b = "" then "" else clean b)
  else if b = "" then clean a
  else clean (a ++ "/" ++ b)

def absolute (cwd path : String) : String :=
  if isAbsolute path then clean path else join cwd path

def directory (path : String) : String :=
  clean (String.ofList ((path.toList.reverse.dropWhile (· ≠ '/')).reverse))

/-- The last part of a path. -/
def base (path : String) : String :=
  if path = "" then "."
  else
    let kept := path.toList.reverse.dropWhile (· = '/')
    if kept.isEmpty then "/" else String.ofList (kept.takeWhile (· ≠ '/')).reverse

/-- The end of a path's last part from its last dot on, or nothing if it has no dot. -/
def extension (path : String) : String :=
  let last := path.toList.reverse.takeWhile (· ≠ '/')
  let after := last.takeWhile (· ≠ '.')
  if after.length < last.length then String.ofList ('.' :: after.reverse) else ""

def dropCommon : List String → List String → List String × List String
  | a :: as, b :: bs => if a = b then dropCommon as bs else (a :: as, b :: bs)
  | as, bs => (as, bs)

def relative (fromPath toPath : String) : String :=
  let (up, down) := dropCommon (parts fromPath) (parts toPath)
  match up.map (fun _ => "..") ++ down with
  | [] => "."
  | ps => "/".intercalate ps

end ObjectLang.Path
