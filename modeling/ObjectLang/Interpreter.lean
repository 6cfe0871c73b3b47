import ObjectLang.Machine.Step

/-! The interpreter: it builds the class table of a program, lays out its variables and runs its
commands. One interpreter may evaluate several programs in turn; heap, printed values and traced
lines are carried on from one to the next. Every run has a number of steps that it may take. -/

namespace ObjectLang

/-- A command as the statement of the same effect. -/
def Command.toStmt : Command → Stmt
  | .call span name listed args => .call span .missing name listed args
  | .eval span expr => .output span expr

/-- An interpreter: the table bound last, what it was set up with, and its store. -/
structure Interpreter where
  table : Option ClassTable
  sink : Sink
  tracing : Bool
  store : Store

/-- How an evaluation ended. -/
inductive Ending where
  | finished
  | rejected (diagnostics : List Diagnostic)
  | failed (failure : Failure)
  | outOfSteps
  deriving DecidableEq, Repr

namespace Interpreter

def fresh (limit : Int) (sink : Sink) (tracing : Bool) : Interpreter :=
  ⟨none, sink, tracing, .fresh limit⟩

def bind (i : Interpreter) (table : ClassTable) : Interpreter := { i with table := some table }

/-- Runs commands in a frame of their own, up to the first that fails. -/
def runCommands (steps : Nat) (commands : List Command) (i : Interpreter) : Interpreter × Ending :=
  match i.table with
  | none => (i, .failed (.plain "interpreter: no symbol table bound"))
  | some table =>
    match i.store.stack.push "" 0 [] 0 with
    | .error f => (i, .failed (.fault f))
    | .ok stack =>
      let setting : Setting := ⟨table, i.sink, i.tracing⟩
      let start : State := ⟨.stmts (commands.map Command.toStmt), [], { i.store with stack := stack }⟩
      match Machine.run setting steps start with
      | none => (i, .outOfSteps)
      | some final =>
        let store := { final.store with stack := final.store.stack.pop }
        match final.control with
        | .failed f => ({ i with store := store }, .failed f)
        | _ => ({ i with store := store }, .finished)

/-- Evaluates a program. Diagnostics keep it from running, and so do layout errors unless its layout
is taken as it stands. -/
def evaluate (steps : Nat) (keepLayout : Bool) (program : Option Program) (i : Interpreter) :
    Interpreter × Ending :=
  match program with
  | none => (i, .failed (.plain "interpreter: program is nil"))
  | some program =>
    let (table, diagnostics) := ClassTable.build program
    if !diagnostics.isEmpty then (i, .rejected diagnostics)
    else if keepLayout then (i.bind table).runCommands steps program.commands
    else
      let errors := program.layoutErrors table
      if errors.isEmpty then
        let placed := program.place table
        (i.bind (ClassTable.build placed).1).runCommands steps placed.commands
      else (i, .failed (.plain (LayoutError.messages errors)))

end Interpreter

end ObjectLang
