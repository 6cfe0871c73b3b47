import ObjectLang.Syntax.Basic

/-! The class table of a program: the routines of the top level and, for every class, its parent, its
own fields and its own methods. A table is built from any program; what is wrong with the
declarations is reported beside it, and the table then leaves out what was declared twice. -/

namespace ObjectLang

/-- A routine in the scope that declares it; the top level is the scope with the empty name. -/
structure Method where
  owner : String
  decl : Routine
  deriving Inhabited

def Method.name (m : Method) : String := m.decl.name

/-- The name of a routine after the class that declares it, if a class does. -/
def qualifiedName (owner name : String) : String :=
  if owner = "" then name else owner ++ "." ++ name

def Method.qualified (m : Method) : String := qualifiedName m.owner m.name

/-- What the table knows of a class: its own fields and methods, in the order of declaration. -/
structure ClassInfo where
  name : String
  parent : String
  span : Span
  fields : List String
  methods : List Method
  deriving Inhabited

/-- The method of a scope with a given name. -/
def findMethod? (methods : List Method) (name : String) : Option Method :=
  methods.find? (·.name == name)

/-- The class table of a program. -/
structure ClassTable where
  top : List Method
  classes : List ClassInfo
  deriving Inhabited

/-- Why the ancestors of a class cannot be listed. -/
inductive ChainError where
  | cycle (name : String)
  | unknown (name : String)
  deriving DecidableEq, Repr

def ChainError.message : ChainError → String
  | .cycle name => "symbols: inheritance cycle through " ++ name
  | .unknown name => "symbols: unknown class " ++ name

namespace ClassTable

/-- The table without any declaration. -/
def empty : ClassTable := ⟨[], []⟩

def declared? (table : ClassTable) (name : String) : Option ClassInfo :=
  table.classes.find? (·.name == name)

/-- The scope of a name: a class, or the top level for the empty name. -/
def scope? (table : ClassTable) (name : String) : Option ClassInfo :=
  if name = "" then some ⟨"", "", .unknown, [], table.top⟩ else table.declared? name

/-- Walks from a class to its ancestors, for as many steps as given, having passed some already. -/
def chainFrom (table : ClassTable) : Nat → List String → String → Except ChainError (List ClassInfo)
  | 0, _, name => .error (.cycle name)
  | steps + 1, passed, name =>
    if name = "" then .ok []
    else if passed.contains name then .error (.cycle name)
    else match table.declared? name with
      | none => .error (.unknown name)
      | some info => do
        let above ← chainFrom table steps (name :: passed) info.parent
        return info :: above

/-- A class followed by its ancestors. A walk passes no class twice, so it never runs out of
steps. -/
def chain (table : ClassTable) (name : String) : Except ChainError (List ClassInfo) :=
  table.chainFrom (table.classes.length + 1) [] name

/-- All fields of a class: its own, then its parent's, and so on upward. -/
def fieldHierarchy (table : ClassTable) (name : String) : Except ChainError (List String) := do
  let above ← table.chain name
  return above.flatMap (·.fields)

def fieldCount (table : ClassTable) (name : String) : Except ChainError Nat := do
  let above ← table.chain name
  return above.foldr (fun c count => c.fields.length + count) 0

/-- The method that a name means in a class: its own, or else the nearest ancestor's. In the scope
with the empty name these are the routines of the top level. -/
def lookup? (table : ClassTable) (className name : String) : Option Method :=
  if className = "" then findMethod? table.top name
  else match table.chain className with
    | .error _ => none
    | .ok above => above.findSome? fun info => findMethod? info.methods name

end ClassTable

/-- What can be wrong with declarations. -/
inductive DiagnosticCause where
  | duplicateRoutine (name owner : String)
  | duplicateClass (name : String)
  | unknownParent (name parent : String)
  | cyclicInheritance (name : String)
  deriving DecidableEq, Repr

/-- A fault in the declarations, and the span of the declaration at fault. -/
structure Diagnostic where
  cause : DiagnosticCause
  span : Span
  deriving DecidableEq, Repr

def DiagnosticCause.message : DiagnosticCause → String
  | .duplicateRoutine name owner =>
    "duplicate routine " ++ name ++ " in " ++
      (if owner = "" then "top level" else "class " ++ owner)
  | .duplicateClass name => "duplicate class " ++ name
  | .unknownParent name parent => "class " ++ name ++ " extends unknown class " ++ parent
  | .cyclicInheritance name => "class " ++ name ++ " has a cyclic inheritance chain"

/-- A known span in parentheses, as it follows a message. -/
def Span.suffix (s : Span) : String :=
  if s.isKnown then " (" ++ toString s.line ++ ":" ++ toString s.column ++ ")" else ""

def Diagnostic.message (d : Diagnostic) : String := d.cause.message ++ d.span.suffix

namespace ClassTable

/-- Adds a routine to the methods of a scope, unless its name is taken. -/
def addMethod (owner : String) (acc : List Method × List Diagnostic) (routine : Routine) :
    List Method × List Diagnostic :=
  if (findMethod? acc.1 routine.name).isSome then
    (acc.1, acc.2 ++ [⟨.duplicateRoutine routine.name owner, routine.span⟩])
  else (acc.1 ++ [⟨owner, routine⟩], acc.2)

/-- The methods of a scope, and what was declared twice. -/
def collectMethods (owner : String) (routines : List (Option Routine)) :
    List Method × List Diagnostic :=
  (routines.filterMap id).foldl (addMethod owner) ([], [])

/-- Adds a class to the classes so far, unless its name is taken. -/
def addClass (acc : List ClassInfo × List Diagnostic) (decl : ClassDecl) :
    List ClassInfo × List Diagnostic :=
  if acc.1.any (·.name == decl.name) then
    (acc.1, acc.2 ++ [⟨.duplicateClass decl.name, decl.span⟩])
  else
    let (methods, duplicates) := collectMethods decl.name decl.methods
    let info : ClassInfo :=
      ⟨decl.name, decl.parent, decl.span, decl.fields.map (·.name), methods⟩
    (acc.1 ++ [info], acc.2 ++ duplicates)

/-- What is wrong with the inheritance of a class: its parent is not declared, or its ancestors
cannot be listed. -/
def inheritanceCheck (table : ClassTable) (info : ClassInfo) : Option Diagnostic :=
  if info.parent = "" then none
  else if (table.declared? info.parent).isNone then
    some ⟨.unknownParent info.name info.parent, info.span⟩
  else match table.chain info.name with
    | .ok _ => none
    | .error _ => some ⟨.cyclicInheritance info.name, info.span⟩

def build (program : Program) : ClassTable × List Diagnostic :=
  let (top, topDuplicates) := collectMethods "" program.routines
  let (classes, classDuplicates) := (program.classes.filterMap id).foldl addClass ([], [])
  let table : ClassTable := ⟨top, classes⟩
  (table, topDuplicates ++ classDuplicates ++ classes.filterMap table.inheritanceCheck)

end ClassTable

end ObjectLang
