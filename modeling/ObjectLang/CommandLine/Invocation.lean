import ObjectLang.CommandLine.Menu

/-! What a command line asks for. -/

namespace ObjectLang.CommandLine

/-- What a command line asks for: a help text; nothing, because it is wrong, with a text to show and a
message; one of the commands; or a command that there is not. -/
inductive Invocation where
  | help (text : String)
  | misuse (shown message : String)
  | run (file : String) (trace : Bool)
  | check (file : String) (offsets : Bool)
  | install
  | version
  | unknown (name : Option String)
  deriving DecidableEq, Repr

def Menu.topic (m : Menu) (name : String) : Invocation :=
  if name = "" then .help m.commandHelpText
  else match m.find? name with
    | some c => .help c.helpText
    | none => .misuse "" ("No help topic for '" ++ name ++ "'")

def Command.invoke (c : Command) (m : Menu) (args : List String) : Invocation :=
  let flags := c.flags ++ [helpFlag]
  let parsed := Flag.parse flags [] (Flag.reorder flags [] [] false args)
  match parsed.error.orElse fun _ => parsed.twoForms? flags with
  | some e => .misuse ("Incorrect Usage: " ++ e.message ++ "\n\n" ++ c.helpText) e.message
  | none =>
    let first := parsed.rest.headD ""
    if parsed.isOn helpFlag then .help c.helpText
    else match c.action with
      | .run => .run first (parsed.isOn traceFlag)
      | .check => .check first (parsed.isOn offsetsFlag)
      | .install => .install
      | .version => .version
      | .help | .dependencies =>
        match parsed.rest with
        | [] => .help m.helpText
        | name :: _ => m.topic name

def dependencyInvocation (args : List String) : Invocation :=
  let m := dependencyMenu
  let parsed := Flag.parse [helpFlag] [] args
  match parsed.twoForms? [helpFlag], parsed.error with
  | some e, _ => .misuse (e.message ++ "\n\n" ++ m.commandHelpText) e.message
  | none, some e => .misuse ("Incorrect Usage. " ++ e.message ++ "\n\n" ++ m.commandHelpText) e.message
  | none, none =>
    if parsed.isOn helpFlag then .help m.commandHelpText
    else match parsed.rest with
      | [] => .help m.commandHelpText
      | name :: rest =>
        match m.find? name with
        | some c => c.invoke m rest
        | none => m.topic name

def Invocation.ofArguments (args : List String) : Invocation :=
  let m := mainMenu
  let parsed := Flag.parse [helpFlag] [] args
  match parsed.twoForms? [helpFlag], parsed.error with
  | some e, _ => .misuse (e.message ++ "\n" ++ m.helpText) e.message
  | none, some e => .misuse ("Incorrect Usage. " ++ e.message ++ "\n\n" ++ m.helpText) e.message
  | none, none =>
    if parsed.isOn helpFlag then .help m.helpText
    else match parsed.rest with
      | [] => .unknown none
      | name :: rest =>
        match m.find? name with
        | some c => if c.action = .dependencies then dependencyInvocation rest else c.invoke m rest
        | none => .unknown (some name)

end ObjectLang.CommandLine
