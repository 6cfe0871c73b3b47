import ObjectLang.ClassTable

/-! Layout: the slot of every variable. A name means the first parameter of that name, else the last
local in scope of that name, else a field of the enclosing class. In a frame the receiver stands at
-2, the parameters at -3, -4, … and the locals at 1, 2, …; the fields of an object count from the
base class upward. Sibling blocks use the same slots for their locals. -/

namespace ObjectLang

/-- Why a variable or a class has no layout. -/
inductive LayoutError where
  | unknownClass (name : String)
  | badChain (cause : ChainError)
  | unbound (name className : String)
  deriving DecidableEq, Repr

def LayoutError.message : LayoutError → String
  | .unknownClass name => "allocator: class " ++ name ++ " is not in the symbol table"
  | .badChain cause => "allocator: " ++ cause.message
  | .unbound name className =>
    "allocator: " ++ name ++ " is not a parameter, local or field in " ++
      (if className = "" then "top level" else "class " ++ className)

/-- A variable occurrence and the slot it was given. -/
structure Placement where
  name : String
  slot : Slot
  deriving DecidableEq, Repr

/-- The layout of one routine: the number of its local slots and its variables in the order in which
they stand. -/
structure RoutineLayout where
  owner : String
  name : String
  slots : Nat
  vars : List Placement
  deriving DecidableEq, Repr

def RoutineLayout.qualified (l : RoutineLayout) : String := qualifiedName l.owner l.name

namespace Layout

/-- The offset of the receiver in a frame. -/
def selfOffset : Int := -2

def paramOffset (index : Nat) : Int := -3 - (index : Int)

def localOffset (index : Nat) : Int := 1 + (index : Int)

def lastIndex? (names : List String) (name : String) : Option Nat :=
  (names.reverse.idxOf? name).map fun i => names.length - 1 - i

/-- What names mean in a routine, apart from its locals. -/
structure Scope where
  className : String
  params : List String
  fields : Except ChainError (List String)

/-- The offset of a field in a hierarchy that lists the fields of derived classes first. -/
def fieldOffset? (hierarchy : List String) (name : String) : Option Int :=
  (lastIndex? hierarchy name).map fun index =>
    if hierarchy.length > 1 then (hierarchy.length : Int) - 1 - index else index

/-- The slot of a name where the given locals are in scope. -/
def resolve (scope : Scope) (locals : List String) (name : String) : Except LayoutError Slot :=
  match scope.params.idxOf? name with
  | some i => .ok (.frame (paramOffset i))
  | none =>
    match lastIndex? locals name with
    | some j => .ok (.frame (localOffset j))
    | none =>
      match scope.fields with
      | .error cause => .error (.badChain cause)
      | .ok hierarchy =>
        match fieldOffset? hierarchy name with
        | some offset => .ok (.field offset)
        | none => .error (.unbound name scope.className)

/-- What becomes of a variable occurrence: its placement or an error. -/
abbrev Outcome := Except LayoutError Placement

/-- The outcome for a variable occurrence. -/
def outcome (scope : Scope) (locals : List String) (v : Var) : Outcome :=
  (resolve scope locals v.name).map fun slot => ⟨v.name, slot⟩

/-- Gives a variable its slot; one that has none keeps the slot it had. -/
def placeVar (scope : Scope) (locals : List String) (v : Var) : Var :=
  match resolve scope locals v.name with
  | .ok slot => { v with slot := slot }
  | .error _ => v

mutual

/-- Gives the variables of an expression their slots. -/
def placeExpr (scope : Scope) (locals : List String) : Expr → Expr
  | .missing => .missing
  | .integer span value => .integer span value
  | .truth span value => .truth span value
  | .var span v => .var span (placeVar scope locals v)
  | .self span => .self span
  | .not span operand => .not span (placeExpr scope locals operand)
  | .isNull span operand => .isNull span (placeExpr scope locals operand)
  | .binary span op left right =>
    .binary span op (placeExpr scope locals left) (placeExpr scope locals right)
  | .index span array index =>
    .index span (placeExpr scope locals array) (placeExpr scope locals index)
  | .length span array => .length span (placeExpr scope locals array)
  | .newArray span elem length => .newArray span elem (placeExpr scope locals length)
  | .newObject span className listed args =>
    .newObject span className listed (placeExprs scope locals args)
  | .call span receiver name listed args =>
    .call span (placeExpr scope locals receiver) name listed (placeExprs scope locals args)

/-- Gives the variables of expressions their slots. -/
def placeExprs (scope : Scope) (locals : List String) : List Expr → List Expr
  | [] => []
  | e :: es => placeExpr scope locals e :: placeExprs scope locals es

end

mutual

/-- The variables of an expression in the order in which they stand. -/
def exprVars : Expr → List Var
  | .missing | .integer _ _ | .truth _ _ | .self _ => []
  | .var _ v => [v]
  | .not _ operand => exprVars operand
  | .isNull _ operand => exprVars operand
  | .binary _ _ left right => exprVars left ++ exprVars right
  | .index _ array index => exprVars array ++ exprVars index
  | .length _ array => exprVars array
  | .newArray _ _ length => exprVars length
  | .newObject _ _ _ args => exprsVars args
  | .call _ receiver _ _ args => exprVars receiver ++ exprsVars args

/-- The variables of expressions in the order in which they stand. -/
def exprsVars : List Expr → List Var
  | [] => []
  | e :: es => exprVars e ++ exprsVars es

end

/-- The outcomes for the variables of an expression. -/
def exprOutcomes (scope : Scope) (locals : List String) (e : Expr) : List Outcome :=
  (exprVars e).map (outcome scope locals)

/-- The outcomes for the variables of expressions. -/
def exprsOutcomes (scope : Scope) (locals : List String) (es : List Expr) : List Outcome :=
  (exprsVars es).map (outcome scope locals)

/-- The locals that a statement adds to the scope of the statements after it. -/
def declared : Stmt → List String
  | .declare _ _ name => [name]
  | _ => []

mutual

/-- Gives the variables of a statement their slots. -/
def placeStmt (scope : Scope) (locals : List String) : Stmt → Stmt
  | .missing => .missing
  | .block b => .block (placeBlock scope locals b)
  | .declare span type name => .declare span type name
  | .branch span cond onTrue onFalse =>
    .branch span (placeExpr scope locals cond) (placeBlock scope locals onTrue)
      (placeBlock scope locals onFalse)
  | .loop span cond body =>
    .loop span (placeExpr scope locals cond) (placeBlock scope locals body)
  | .output span value => .output span (placeExpr scope locals value)
  | .assign span v value =>
    .assign span (placeVar scope locals v) (placeExpr scope locals value)
  | .assignIndex span array index value =>
    .assignIndex span (placeExpr scope locals array) (placeExpr scope locals index)
      (placeExpr scope locals value)
  | .call span receiver name listed args =>
    .call span (placeExpr scope locals receiver) name listed (placeExprs scope locals args)

/-- Gives the variables of a block their slots. -/
def placeBlock (scope : Scope) (locals : List String) : Block → Block
  | .absent => .absent
  | .mk span listed body => .mk span listed (placeStmts scope locals body)

/-- Gives the variables of statements their slots; each statement's declarations are in scope after
it. -/
def placeStmts (scope : Scope) (locals : List String) : List Stmt → List Stmt
  | [] => []
  | s :: ss => placeStmt scope locals s :: placeStmts scope (locals ++ declared s) ss

end

mutual

/-- The outcomes for the variables of a statement, in the order in which they stand. -/
def stmtOutcomes (scope : Scope) (locals : List String) : Stmt → List Outcome
  | .missing => []
  | .block b => blockOutcomes scope locals b
  | .declare _ _ _ => []
  | .branch _ cond onTrue onFalse =>
    exprOutcomes scope locals cond ++ blockOutcomes scope locals onTrue ++
      blockOutcomes scope locals onFalse
  | .loop _ cond body => exprOutcomes scope locals cond ++ blockOutcomes scope locals body
  | .output _ value => exprOutcomes scope locals value
  | .assign _ v value => outcome scope locals v :: exprOutcomes scope locals value
  | .assignIndex _ array index value =>
    exprOutcomes scope locals array ++ exprOutcomes scope locals index ++
      exprOutcomes scope locals value
  | .call _ receiver _ _ args =>
    exprOutcomes scope locals receiver ++ exprsOutcomes scope locals args

def blockOutcomes (scope : Scope) (locals : List String) : Block → List Outcome
  | .absent => []
  | .mk _ _ body => stmtsOutcomes scope locals body

/-- The outcomes for the variables of statements. -/
def stmtsOutcomes (scope : Scope) (locals : List String) : List Stmt → List Outcome
  | [] => []
  | s :: ss => stmtOutcomes scope locals s ++ stmtsOutcomes scope (locals ++ declared s) ss

end

mutual

/-- The greatest number of locals in scope at once within a statement and after it, given how many
are in scope before. -/
def stmtPeak (count : Nat) : Stmt → Nat
  | .block b => blockPeak count b
  | .declare _ _ _ => count + 1
  | .branch _ _ onTrue onFalse => max (blockPeak count onTrue) (blockPeak count onFalse)
  | .loop _ _ body => blockPeak count body
  | .missing | .output _ _ | .assign _ _ _ | .assignIndex _ _ _ _ | .call _ _ _ _ _ => count

/-- The greatest number of locals in scope at once within a block. -/
def blockPeak (count : Nat) : Block → Nat
  | .absent => count
  | .mk _ _ body => stmtsPeak count body

/-- The greatest number of locals in scope at once within statements. -/
def stmtsPeak (count : Nat) : List Stmt → Nat
  | [] => count
  | s :: ss => max (stmtPeak count s) (stmtsPeak (count + (declared s).length) ss)

end

def bodyLocals (body : List Stmt) : List String := body.flatMap declared

/-- Gives the variables of a routine their slots and the routine its number of local slots. -/
def placeRoutine (scope : Scope) (r : Routine) : Routine :=
  { r with
    body := placeStmts scope [] r.body
    returns := r.returns.map fun returns =>
      { returns with result := placeExpr scope (bodyLocals r.body) returns.result }
    stackSlots := stmtsPeak 0 r.body }

/-- The outcomes for the variables of a routine, in the order in which they stand. -/
def routineOutcomes (scope : Scope) (r : Routine) : List Outcome :=
  stmtsOutcomes scope [] r.body ++
    match r.returns with
    | none => []
    | some returns => exprOutcomes scope (bodyLocals r.body) returns.result

def routineScope (table : ClassTable) (className : String) (r : Routine) : Scope :=
  ⟨className, r.params.map (·.name), table.fieldHierarchy className⟩

def routineLayout (table : ClassTable) (className : String) (r : Routine) : RoutineLayout :=
  ⟨className, r.name, stmtsPeak 0 r.body,
    (routineOutcomes (routineScope table className r) r).filterMap Except.toOption⟩

def error? : Except ε α → Option ε
  | .ok _ => none
  | .error e => some e

def routineErrors (table : ClassTable) (className : String) (r : Routine) : List LayoutError :=
  (routineOutcomes (routineScope table className r) r).filterMap error?

/-- A class whose name the table does not know gets no layout. -/
def isKnown (table : ClassTable) (decl : ClassDecl) : Bool := (table.scope? decl.name).isSome

/-- Gives the variables of a class's methods their slots. -/
def placeClass (table : ClassTable) (decl : ClassDecl) : ClassDecl :=
  if isKnown table decl then
    { decl with methods := decl.methods.map fun method =>
        method.map fun r => placeRoutine (routineScope table decl.name r) r }
  else decl

def classLayouts (table : ClassTable) (decl : ClassDecl) : List RoutineLayout :=
  if isKnown table decl then (decl.methods.filterMap id).map (routineLayout table decl.name)
  else []

def classErrors (table : ClassTable) (decl : ClassDecl) : List LayoutError :=
  if isKnown table decl then (decl.methods.filterMap id).flatMap (routineErrors table decl.name)
  else [.unknownClass decl.name]

end Layout

/-- Gives every variable of a program's routines its slot. Variables of commands have none. -/
def Program.place (table : ClassTable) (p : Program) : Program :=
  { p with
    routines := p.routines.map fun routine =>
      routine.map fun r => Layout.placeRoutine (Layout.routineScope table "" r) r
    classes := p.classes.map fun decl => decl.map (Layout.placeClass table) }

/-- The layouts of a program's routines: those of the top level, then those of each class. -/
def Program.layouts (table : ClassTable) (p : Program) : List RoutineLayout :=
  (p.routines.filterMap id).map (Layout.routineLayout table "") ++
    (p.classes.filterMap id).flatMap (Layout.classLayouts table)

/-- What keeps a program from having a layout, in the order of its routines. -/
def Program.layoutErrors (table : ClassTable) (p : Program) : List LayoutError :=
  (p.routines.filterMap id).flatMap (Layout.routineErrors table "") ++
    (p.classes.filterMap id).flatMap (Layout.classErrors table)

def LayoutError.messages (errors : List LayoutError) : String :=
  "\n".intercalate (errors.map LayoutError.message)

end ObjectLang
