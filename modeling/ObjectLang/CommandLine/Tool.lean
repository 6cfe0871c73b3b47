import ObjectLang.CommandLine.Invocation
import ObjectLang.Interpreter
import ObjectLang.Package.Install
import ObjectLang.Package.Repository

/-! The tool: what each command does to the files, and what it prints. -/

namespace ObjectLang.CommandLine

/-- All that the tool sees: the files, its working directory, the directories that the environment
names, the time, and the repositories that can be reached. -/
structure World where
  files : FileTree
  directory : String
  toolHome : String
  userHome : String
  now : String
  repositories : List Repository
  deriving DecidableEq, Repr

/-- What a command leaves: its status, what it printed and the files. -/
structure Outcome where
  status : Nat
  stdout : String
  stderr : String
  files : FileTree
  deriving DecidableEq, Repr

namespace World

def fail (w : World) (printed message : String) : Outcome :=
  ⟨1, printed, message ++ "\n", w.files⟩

def succeed (w : World) (printed : String) : Outcome := ⟨0, printed, "", w.files⟩

/-- The manifest that a file, or else the working directory, belongs to. There may be none. -/
def manifestFor (w : World) (file : String) : Except Manifest.ReadError (Option Manifest) :=
  let start := if file = "" then "." else Path.directory file
  match Manifest.find? w.files w.directory start with
  | none => .ok none
  | some path => (Manifest.read w.files w.directory path).map some

/-- Why the program of a project cannot be put together. -/
inductive ProjectError where
  | lockMissing (project : String)
  | lockUnreadable (path : String) (cause : Lockfile.ReadError)
  | lockOfOther (root project : String)
  | unlocked (name : String)
  | unloaded (cause : Bundle.LoadError)

/-- The message that a lock file belongs to another project. -/
def otherProjectMessage (root project : String) : String :=
  "lockfile root " ++ Text.quoted root ++ " does not match manifest name " ++ Text.quoted project

def ProjectError.message : ProjectError → String
  | .lockMissing project =>
    Lockfile.fileName ++ " missing for " ++ Text.quoted project ++
      "; run \x60moopl deps install\x60"
  | .lockUnreadable path cause => "failed to read lockfile " ++ path ++ ": " ++ cause.message
  | .lockOfOther root project => otherProjectMessage root project
  | .unlocked name =>
    "dependency " ++ Text.quoted name ++ " is not locked; run \x60moopl deps install\x60"
  | .unloaded cause => cause.message

/-- The lock file of a project, which has to be of that project and to lock all of its dependencies. A
project without dependencies needs none. -/
def lockFor (w : World) (m : Manifest) : Except ProjectError (Option Lockfile) :=
  let path := Lockfile.pathFor m
  match Lockfile.read w.files w.directory path with
  | .error e =>
    if e.isMissing then
      if m.dependencies.isEmpty then .ok none else .error (.lockMissing m.name)
    else .error (.lockUnreadable path e)
  | .ok lock =>
    if lock.root ≠ Text.packageName m.name then .error (.lockOfOther lock.root m.name)
    else match m.dependencies.find? fun d => (lock.package? d.1).isNone with
      | some (name, _) => .error (.unlocked name)
      | none => .ok (some lock)

def libraryPaths (lock : Option Lockfile) : List LibraryPath :=
  ((lock.map (·.packages)).getD []).filterMap fun p =>
    if p.directory = "" then none else some ⟨p.name, p.directory⟩

/-- The program in a file, linked with the locked dependencies of its project. -/
def program (w : World) (entry : String) (m : Option Manifest) : Except ProjectError Program := do
  let lock ← match m with
    | none => .ok none
    | some m => w.lockFor m
  let bundle ← (Bundle.load w.files w.directory (libraryPaths lock) entry).mapError .unloaded
  return bundle.link

/-! ### Commands -/

def diagnosticLines (diagnostics : List Diagnostic) : String :=
  String.join (diagnostics.map fun d => "error: " ++ d.message ++ "\n")

/-- The lines on a failure: its message, and the routines that were running. -/
def failureLines (f : Failure) : String :=
  let stack := (f.fault?.bind (·.stack)).getD []
  "runtime error: " ++ f.message ++ "\n" ++ String.join (stack.map ("    at " ++ · ++ "\n"))

def runProgram (w : World) (steps : Nat) (m : Option Manifest) (trace : Bool) (p : Program) :
    Outcome :=
  let limit := (m.map (·.maxDepth)).getD 0
  let tracing := trace || (m.map (·.trace)).getD false
  let (i, ending) := (Interpreter.fresh limit .unlimited tracing).evaluate steps false (some p)
  let printed := String.join (i.store.printed.toList.map fun v => toString v.toInt ++ "\n")
  let traced := String.join i.store.traced.toList
  match ending with
  | .finished => ⟨0, printed, traced, w.files⟩
  | .rejected diagnostics => ⟨1, printed, traced ++ diagnosticLines diagnostics, w.files⟩
  | .failed f => ⟨1, printed, traced ++ failureLines f, w.files⟩
  | .outOfSteps => ⟨1, printed, traced ++ "runtime error: out of steps\n", w.files⟩

/-- Runs the program in a file, or the entry program of the project. -/
def run (w : World) (steps : Nat) (file : String) (trace : Bool) : Outcome :=
  match w.manifestFor file with
  | .error e => w.fail "" ("failed to load manifest: " ++ e.message)
  | .ok m =>
    match if file = "" then m.map Manifest.entryPath else some file with
    | none => w.fail "" ("moopl run requires a program file (" ++ Manifest.fileName ++ " not found)")
    | some entry =>
      match w.program entry m with
      | .error e => w.fail "" e.message
      | .ok p => w.runProgram steps m trace p

def padded (width : Nat) (text : String) : String := text.pushn ' ' (width - text.length)

def layoutLines (l : RoutineLayout) : String :=
  l.qualified ++ " slots=" ++ toString l.slots ++ "\n" ++
    String.join (l.vars.map fun v =>
      "  " ++ padded 12 v.name ++ " " ++ padded 5 v.slot.storage.name ++ " " ++
        toString v.slot.offset ++ "\n")

/-- Checks the program in a file without running it. -/
def check (w : World) (file : String) (offsets : Bool) : Outcome :=
  if file = "" then w.fail "" "moopl check requires a program file"
  else
    match w.manifestFor file with
    | .error e => w.fail "" ("failed to load manifest: " ++ e.message)
    | .ok m =>
      match w.program file m with
      | .error e => w.fail "" e.message
      | .ok p =>
        let (table, diagnostics) := ClassTable.build p
        let errors := p.layoutErrors table
        let layouts := p.layouts table
        if !diagnostics.isEmpty then ⟨1, "", diagnosticLines diagnostics, w.files⟩
        else if !errors.isEmpty then w.fail "" ("allocation failed: " ++ LayoutError.messages errors)
        else if offsets then w.succeed (String.join (layouts.map layoutLines))
        else w.succeed ("ok: " ++ toString layouts.length ++ " routines, " ++
          toString p.classes.length ++ " classes\n")

/-- The cache directory: the one that the environment names, or one in the user's home. -/
def cacheDirectory? (w : World) : Option String :=
  let named := Text.trim w.toolHome
  if named ≠ "" then some (Path.absolute w.directory named)
  else if w.userHome = "" then none
  else some (Path.join w.userHome ".moopl")

/-- What the dependencies of a project are resolved by. -/
def surroundings (w : World) (m : Manifest) (cache : String) : Surroundings :=
  ⟨w.directory, cache, m.root, Repository.reachable w.directory w.repositories⟩

/-- Installs the dependencies of a project into its lock file, which gets its place and the version of
the tool before. -/
def lockUpdate (w : World) (m : Manifest) (cache : String) (lock : Lockfile) : LockUpdate :=
  m.updateLock (w.surroundings m cache) w.files
    { lock with path := Lockfile.pathFor m, tool := toolVersion }

/-- Installs the dependencies of a project whose lock file is given, and writes the lock file if it is
new or its packages changed. -/
def installInto (w : World) (m : Manifest) (cache printed : String) (lock : Lockfile)
    (created : Bool) : Outcome :=
  let path := Lockfile.pathFor m
  let update := w.lockUpdate m cache lock
  let after : World := { w with files := update.done.files }
  match update.changed with
  | .error e => after.fail printed ("failed to resolve dependencies: " ++ e.message)
  | .ok changed =>
    let printed := printed ++ String.join (update.done.reports.map (· ++ "\n"))
    if created || changed then
      match update.lock.draft.write after.files w.directory w.now path with
      | .error e => after.fail printed ("failed to write lockfile: " ++ e.message)
      | .ok (written, files) =>
        ({ after with files }).succeed (printed ++ (if created then "Created " else "Updated ") ++
          Lockfile.fileName ++ ": " ++ written.path ++ "\nDependencies installed.\n")
    else
      after.succeed (printed ++ Lockfile.fileName ++ " already up to date: " ++ path ++
        "\nDependencies installed.\n")

/-- Installs the dependencies of the project around the working directory. -/
def install (w : World) : Outcome :=
  match Manifest.find? w.files w.directory w.directory with
  | none =>
    w.fail "" ("unable to locate " ++ Manifest.fileName ++ ": " ++ Manifest.notFoundMessage w.directory)
  | some path =>
    match Manifest.read w.files w.directory path, w.cacheDirectory? with
    | .error e, _ => w.fail "" ("failed to read manifest: " ++ e.message)
    | .ok _, none =>
      w.fail "" "failed to resolve MOOPL_HOME: resolve user home: $HOME is not defined"
    | .ok m, some cache =>
      let printed := "Manifest: " ++ m.path ++ "\nRoot package: " ++ m.name ++ "\nDependencies: " ++
        toString m.dependencies.length ++ "\nCache directory: " ++ cache ++ "\n"
      match Lockfile.read w.files w.directory (Lockfile.pathFor m) with
      | .ok lock =>
        if lock.root ≠ Text.packageName m.name then
          w.fail printed (otherProjectMessage lock.root m.name)
        else w.installInto m cache printed lock false
      | .error e =>
        if e.isMissing then
          w.installInto m cache printed (Lockfile.fresh m.name toolVersion w.now) true
        else w.fail printed ("failed to read lockfile: " ++ e.message)

/-- Does what a command line asks for; programs run for at most so many steps. -/
def perform (w : World) (steps : Nat) : Invocation → Outcome
  | .help text => w.succeed text
  | .misuse shown message => w.fail shown message
  | .run file trace => w.run steps file trace
  | .check file offsets => w.check file offsets
  | .install => w.install
  | .version => w.succeed (toolVersion ++ "\n")
  | .unknown none => ⟨1, mainMenu.helpText, "", w.files⟩
  | .unknown (some name) => w.fail mainMenu.helpText ("unknown command " ++ Text.quoted name)

end World

end ObjectLang.CommandLine
