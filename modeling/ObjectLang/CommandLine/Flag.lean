import ObjectLang.Text.Quoted

/-! Flags of a command line. All flags are switches: a flag by itself turns its switch on, and a value
after an equals sign says which way. Flags stand before the first argument that is none. -/

namespace ObjectLang.CommandLine

/-- A switch with its names, the main one first. -/
structure Flag where
  names : List String
  usage : String
  deriving DecidableEq, Repr

/-- What is wrong with the flags of a command line. -/
inductive FlagError where
  | badForm (written : String)
  | unknown (name : String)
  | badValue (name value : String)
  | twoForms (name first : String)
  deriving DecidableEq, Repr

def FlagError.message : FlagError → String
  | .badForm written => "bad flag syntax: " ++ written
  | .unknown name => "flag provided but not defined: -" ++ name
  | .badValue name value =>
    "invalid boolean value " ++ Text.quoted value ++ " for -" ++ name ++ ": parse error"
  | .twoForms name first => "Cannot use two forms of the same flag: " ++ name ++ " " ++ first

namespace Flag

def shownNames (f : Flag) : String :=
  ", ".intercalate (f.names.map fun name => (if name.length = 1 then "-" else "--") ++ name)

def truth? (text : String) : Option Bool :=
  if ["1", "t", "T", "true", "TRUE", "True"].contains text then some true
  else if ["0", "f", "F", "false", "FALSE", "False"].contains text then some false
  else none

/-- An argument as a command line reads it. -/
inductive Written where
  | plain
  | terminator
  | malformed
  | flag (name : String) (value : Option String)
  deriving DecidableEq, Repr

/-- The name of a flag and the value behind the first equals sign that is not at the front. -/
def splitValue (cs : List Char) : Written :=
  match cs with
  | [] | '-' :: _ | '=' :: _ => .malformed
  | c :: rest =>
    let name := String.ofList (c :: rest.takeWhile (· ≠ '='))
    match rest.dropWhile (· ≠ '=') with
    | [] => .flag name none
    | _ :: value => .flag name (some (String.ofList value))

def ofArgument (arg : String) : Written :=
  match arg.toList with
  | ['-', '-'] => .terminator
  | '-' :: '-' :: cs => splitValue cs
  | ['-'] => .plain
  | '-' :: cs => splitValue cs
  | _ => .plain

/-- The switches that were set, the last one first, and the arguments behind the flags, up to the first
error. -/
structure Parsed where
  settings : List (String × Bool)
  rest : List String
  error : Option FlagError
  deriving DecidableEq, Repr

def parse (flags : List Flag) (settings : List (String × Bool)) : List String → Parsed
  | [] => ⟨settings, [], none⟩
  | arg :: args =>
    match ofArgument arg with
    | .plain => ⟨settings, arg :: args, none⟩
    | .terminator => ⟨settings, args, none⟩
    | .malformed => ⟨settings, args, some (.badForm arg)⟩
    | .flag name value =>
      if flags.any (·.names.contains name) then
        match value with
        | none => parse flags ((name, true) :: settings) args
        | some value =>
          match truth? value with
          | some b => parse flags ((name, b) :: settings) args
          | none => ⟨settings, args, some (.badValue name value)⟩
      else ⟨settings, args, some (.unknown name)⟩

def Parsed.twoForms? (p : Parsed) (flags : List Flag) : Option FlagError :=
  flags.findSome? fun f =>
    match f.names.filter fun name => p.settings.any (·.1 = name) with
    | first :: name :: _ => some (.twoForms name first)
    | _ => none

def Parsed.isOn (p : Parsed) (f : Flag) : Bool :=
  f.names.any fun name => p.settings.lookup name = some true

/-- Whether an argument is one of the given flags; three dashes in front do not matter here. -/
def isKnown (flags : List Flag) (arg : String) : Bool :=
  match arg.toList with
  | ['-'] | ['-', '-'] => false
  | '-' :: cs =>
    let bare := match cs with
      | '-' :: '-' :: rest => rest
      | '-' :: rest => rest
      | rest => rest
    let name := String.ofList (bare.takeWhile (· ≠ '='))
    flags.any (·.names.contains name)
  | _ => false

/-- Moves the known flags in front of the other arguments, up to the terminator, which goes in front of
the others. What follows a known flag without a value moves along with it, unless it is a known flag
itself. -/
def reorder (flags : List Flag) (front back : List String) (awaitsValue : Bool) :
    List String → List String
  | [] => front.reverse ++ back.reverse
  | arg :: rest =>
    if awaitsValue && !isKnown flags arg then reorder flags (arg :: front) back false rest
    else if arg = "--" then front.reverse ++ "--" :: (back.reverse ++ rest)
    else if isKnown flags arg then
      reorder flags (arg :: front) back (!arg.toList.contains '=') rest
    else reorder flags front (arg :: back) awaitsValue rest

end Flag

end ObjectLang.CommandLine
