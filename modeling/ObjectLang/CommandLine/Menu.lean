import ObjectLang.CommandLine.Flag
import ObjectLang.Package.Lockfile

/-! The commands of the tool, and the texts that explain them. -/

namespace ObjectLang.CommandLine

/-- What a command does. -/
inductive Action where
  | run
  | check
  | dependencies
  | install
  | version
  | help
  deriving DecidableEq, Repr

/-- A command: its names, the main one first, its full name and how it is used. -/
structure Command where
  names : List String
  fullName : String
  usage : String
  arguments : String
  flags : List Flag
  action : Action
  deriving DecidableEq, Repr

/-- Commands under one name: those that can be called, and those that its help lists. -/
structure Menu where
  name : String
  usage : String
  commands : List Command
  listed : List Command
  deriving DecidableEq, Repr

def toolName : String := "moopl"

def toolVersion : String := "moopl-cli 0.0.0-dev"

def helpFlag : Flag := ⟨["help", "h"], "show help"⟩

def traceFlag : Flag :=
  ⟨["trace"], "write the field contents of every constructed object to stderr"⟩

def offsetsFlag : Flag := ⟨["offsets"], "print the storage and offset resolved for every variable"⟩

def helpCommand (fullName : String) : Command :=
  ⟨["help", "h"], fullName, "Shows a list of commands or help for one command", "[command]", [], .help⟩

def installCommand : Command :=
  ⟨["install"], toolName ++ " deps install", "Resolve dependencies and write " ++ Lockfile.fileName, "",
    [], .install⟩

def dependencyMenu : Menu :=
  { name := toolName ++ " deps"
    usage := "Manage manifest dependencies"
    commands := [installCommand, helpCommand (toolName ++ " deps help")]
    listed := [installCommand] }

/-- The commands of the tool; the one that explains commands has no full name here. -/
def mainMenu : Menu :=
  let commands : List Command :=
    [⟨["run"], toolName ++ " run", "Run a program file, or the manifest entry when no file is given",
        "[FILE]", [traceFlag], .run⟩,
      ⟨["check"], toolName ++ " check", "Resolve symbols and variable storage without executing", "FILE",
        [offsetsFlag], .check⟩,
      ⟨["deps"], toolName ++ " deps", dependencyMenu.usage, "", [], .dependencies⟩,
      ⟨["version"], toolName ++ " version", "Print the tool version", "", [], .version⟩,
      helpCommand ""]
  { name := toolName
    usage := "run and inspect Moopl programs"
    commands
    listed := commands }

/-- Rows of two columns, indented, the second column two blanks behind the widest first one. -/
def table (rows : List (String × String)) : List String :=
  let width := (rows.map (·.1.length)).foldl max 0
  rows.map fun (left, right) =>
    "   " ++ left ++ "".pushn ' ' (width - left.length + 2) ++ right

def flagTable (flags : List Flag) : List String := table (flags.map fun f => (f.shownNames, f.usage))

def Menu.commandTable (m : Menu) : List String :=
  table (m.listed.map fun c => (", ".intercalate c.names, c.usage))

/-- The part of a help text on flags that ends in an indented line. -/
def optionsText (flags : List Flag) : String :=
  if flags.isEmpty then ""
  else "\n\nOPTIONS:\n" ++ String.join ((flagTable flags).map (· ++ "\n")) ++ "   "

def Command.helpText (c : Command) : String :=
  "NAME:\n   " ++ c.fullName ++ " - " ++ c.usage ++ "\n\nUSAGE:\n   " ++ c.fullName ++
    (if c.flags.isEmpty then "" else " [command options]") ++ " " ++
    (if c.arguments = "" then "[arguments...]" else c.arguments) ++ optionsText c.flags ++ "\n"

def Menu.helpText (m : Menu) : String :=
  "NAME:\n   " ++ m.name ++ " - " ++ m.usage ++ "\n\nUSAGE:\n   " ++ m.name ++
    " [global options] command [command options] [arguments...]\n\nCOMMANDS:\n" ++
    "\n".intercalate m.commandTable ++ "\n\nGLOBAL OPTIONS:\n" ++
    "\n".intercalate (flagTable [helpFlag]) ++ "\n"

def Menu.commandHelpText (m : Menu) : String :=
  "NAME:\n   " ++ m.name ++ " - " ++ m.usage ++ "\n\nUSAGE:\n   " ++ m.name ++
    " command [command options] [arguments...]\n\nCOMMANDS:\n" ++ "\n".intercalate m.commandTable ++
    optionsText [helpFlag] ++ "\n"

def Menu.find? (m : Menu) (name : String) : Option Command :=
  m.commands.find? fun c => c.names.contains name

end ObjectLang.CommandLine
