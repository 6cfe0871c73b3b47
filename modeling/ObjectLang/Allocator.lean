import ObjectLang.Layout

/-! The allocator: it walks the routines of a program in order, gives every variable its slot on the
way and notes what it did. One allocator may walk several programs in turn; it keeps the fields of the
classes that it has asked the table for, while each walk starts with no layouts and no errors. -/

namespace ObjectLang

/-- An allocator: the table that it asks for fields, what is in scope where it stands, the fields that
it knows already, the layouts of the routines behind it, that of the routine around it, and what could
not be placed. -/
structure Allocator where
  table : ClassTable
  className : String
  params : List String
  locals : List String
  maxLocals : Nat
  fields : List (String × List String)
  layouts : List RoutineLayout
  current : Option RoutineLayout
  errors : List LayoutError

namespace Allocator

def new (table : ClassTable) : Allocator := ⟨table, "", [], [], 0, [], [], none, []⟩

/-- The fields of the enclosing class. They are kept, unless the table cannot list them. -/
def hierarchy : StateM Allocator (Except ChainError (List String)) := do
  let a ← get
  match a.fields.lookup a.className with
  | some fields => return .ok fields
  | none =>
    match a.table.fieldHierarchy a.className with
    | .error cause => return .error cause
    | .ok fields =>
      set { a with fields := (a.className, fields) :: a.fields }
      return .ok fields

def fieldOffset (name : String) : StateM Allocator (Except LayoutError Int) := do
  match ← hierarchy with
  | .error cause => return .error (.badChain cause)
  | .ok fields =>
    match Layout.fieldOffset? fields name with
    | some offset => return .ok offset
    | none => return .error (.unbound name (← get).className)

/-- Gives a variable a slot and notes it in the layout of the routine. -/
def record (v : Var) (slot : Slot) : StateM Allocator Var := do
  modify fun a =>
    { a with current := a.current.map fun l => { l with vars := l.vars ++ [⟨v.name, slot⟩] } }
  return { v with slot := slot }

def complain (e : LayoutError) : StateM Allocator Unit :=
  modify fun a => { a with errors := a.errors ++ [e] }

/-- Gives a variable the slot of a field. One that is no field keeps the slot it had. -/
def assignField (v : Var) : StateM Allocator Var := do
  match ← fieldOffset v.name with
  | .ok offset => record v (.field offset)
  | .error e =>
    complain e
    return v

/-- Gives a variable the slot that its name means here. One that means nothing keeps the slot it
had. -/
def assignOffset (v : Var) : StateM Allocator Var := do
  let a ← get
  match a.params.idxOf? v.name with
  | some i => record v (.frame (Layout.paramOffset i))
  | none =>
    match Layout.lastIndex? a.locals v.name with
    | some j => record v (.frame (Layout.localOffset j))
    | none => assignField v

mutual

def expression : Expr → StateM Allocator Expr
  | .missing => return .missing
  | .integer span value => return .integer span value
  | .truth span value => return .truth span value
  | .var span v => do
    let v ← assignOffset v
    return .var span v
  | .self span => return .self span
  | .not span operand => do
    let operand ← expression operand
    return .not span operand
  | .isNull span operand => do
    let operand ← expression operand
    return .isNull span operand
  | .binary span op left right => do
    let left ← expression left
    let right ← expression right
    return .binary span op left right
  | .index span array index => do
    let array ← expression array
    let index ← expression index
    return .index span array index
  | .length span array => do
    let array ← expression array
    return .length span array
  | .newArray span elem length => do
    let length ← expression length
    return .newArray span elem length
  | .newObject span className listed args => do
    let args ← expressions args
    return .newObject span className listed args
  | .call span receiver name listed args => do
    let receiver ← expression receiver
    let args ← expressions args
    return .call span receiver name listed args

def expressions : List Expr → StateM Allocator (List Expr)
  | [] => return []
  | e :: es => do
    let e ← expression e
    let es ← expressions es
    return e :: es

end

/-- Adds a local to those in scope. -/
def declare (name : String) : StateM Allocator Unit :=
  modify fun a =>
    { a with
      locals := a.locals ++ [name]
      maxLocals := max a.maxLocals (a.locals.length + 1) }

mutual

def statement : Stmt → StateM Allocator Stmt
  | .missing => return .missing
  | .block b => do
    let b ← block b
    return .block b
  | .declare span type name => do
    declare name
    return .declare span type name
  | .branch span cond onTrue onFalse => do
    let cond ← expression cond
    let onTrue ← block onTrue
    let onFalse ← block onFalse
    return .branch span cond onTrue onFalse
  | .loop span cond body => do
    let cond ← expression cond
    let body ← block body
    return .loop span cond body
  | .output span value => do
    let value ← expression value
    return .output span value
  | .assign span v value => do
    let v ← assignOffset v
    let value ← expression value
    return .assign span v value
  | .assignIndex span array index value => do
    let array ← expression array
    let index ← expression index
    let value ← expression value
    return .assignIndex span array index value
  | .call span receiver name listed args => do
    let receiver ← expression receiver
    let args ← expressions args
    return .call span receiver name listed args

/-- Walks a block and drops the locals that were declared in it. -/
def block : Block → StateM Allocator Block
  | .absent => return .absent
  | .mk span listed body => do
    let mark := (← get).locals.length
    let body ← statements body
    modify fun a => { a with locals := a.locals.take mark }
    return .mk span listed body

def statements : List Stmt → StateM Allocator (List Stmt)
  | [] => return []
  | s :: ss => do
    let s ← statement s
    let ss ← statements ss
    return s :: ss

end

def result : Option Returns → StateM Allocator (Option Returns)
  | none => return none
  | some returns => do
    let result ← expression returns.result
    return some { returns with result := result }

/-! ### Programs -/

/-- Starts the layout of a routine. -/
def enter (r : Routine) : StateM Allocator Unit :=
  modify fun a =>
    { a with
      params := r.params.map (·.name)
      locals := []
      maxLocals := 0
      current := some ⟨a.className, r.name, 0, []⟩ }

/-- Ends the layout of a routine with the number of its local slots. -/
def leave : StateM Allocator Nat := do
  let a ← get
  let finished := a.current.map fun l => { l with slots := a.maxLocals }
  set { a with layouts := a.layouts ++ finished.toList, current := none }
  return a.maxLocals

def routine (r : Routine) : StateM Allocator Routine := do
  enter r
  let body ← statements r.body
  let returns ← result r.returns
  let slots ← leave
  return { r with body := body, returns := returns, stackSlots := slots }

/-- Walks routines, but for those that are missing. -/
def routines : List (Option Routine) → StateM Allocator (List (Option Routine))
  | [] => return []
  | none :: rs => do
    let rs ← routines rs
    return none :: rs
  | some r :: rs => do
    let r ← routine r
    let rs ← routines rs
    return some r :: rs

/-- Walks the methods of a class, unless the table does not know its name. -/
def classDecl (decl : ClassDecl) : StateM Allocator ClassDecl := do
  let a ← get
  if (a.table.scope? decl.name).isSome then
    set { a with className := decl.name }
    let methods ← routines decl.methods
    return { decl with methods := methods }
  else
    complain (.unknownClass decl.name)
    return decl

/-- Walks classes, but for those that are missing. -/
def classDecls : List (Option ClassDecl) → StateM Allocator (List (Option ClassDecl))
  | [] => return []
  | none :: ds => do
    let ds ← classDecls ds
    return none :: ds
  | some d :: ds => do
    let d ← classDecl d
    let ds ← classDecls ds
    return some d :: ds

/-- Forgets the layouts and the errors of the walk before. -/
def restart : StateM Allocator Unit :=
  modify fun a => { a with layouts := [], errors := [] }

/-- Stands at the top level. -/
def toTop : StateM Allocator Unit := modify fun a => { a with className := "" }

/-- Walks a program: its routines, then its classes. -/
def program : Option Program → StateM Allocator (Option Program)
  | none => do
    restart
    return none
  | some p => do
    restart
    toTop
    let routines ← routines p.routines
    let classes ← classDecls p.classes
    toTop
    return some { p with routines := routines, classes := classes }

end Allocator

end ObjectLang
