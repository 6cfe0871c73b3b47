/-! The trees of programs: types, expressions, statements, routines, classes and commands. Every node
carries the span where it stands in its source. Trees built by hand may lack parts, so expressions,
statements, blocks and types have a form for a missing one, and each list says whether it was listed
at all; nothing but printing tells an unlisted list from an empty one. -/

namespace ObjectLang

/-- Where a node stands in its source, counting lines and columns from one. -/
structure Span where
  line : Int
  column : Int
  deriving DecidableEq, Repr, Inhabited

/-- The span of a node whose place is not known. -/
def Span.unknown : Span := ⟨0, 0⟩

/-- Whether a span says where its node stands. -/
def Span.isKnown (s : Span) : Bool := s != .unknown

/-- The written types of variables, fields, parameters and results. -/
inductive TypeName where
  | missing
  | int (span : Span)
  | boolean (span : Span)
  | named (span : Span) (name : String)
  | array (span : Span) (elem : TypeName)
  deriving DecidableEq, Repr, Inhabited

/-- The text of a type, with a question mark for a missing one. -/
def TypeName.text : TypeName → String
  | .missing => "?"
  | .int _ => "int"
  | .boolean _ => "boolean"
  | .named _ name => name
  | .array _ elem => elem.text ++ "[]"

/-- Where a variable lives: in the frame of the running routine or in the object it runs on. -/
inductive Slot where
  | unresolved
  | frame (offset : Int)
  | field (offset : Int)
  deriving DecidableEq, Repr, Inhabited

/-- The kinds of storage. -/
inductive Storage where
  | unresolved
  | stack
  | heap
  deriving DecidableEq, Repr, Inhabited

def Storage.ofCode (n : Int) : Storage :=
  if n = 1 then .stack else if n = 2 then .heap else .unresolved

def Storage.name : Storage → String
  | .unresolved => "unresolved"
  | .stack => "stack"
  | .heap => "heap"

def Slot.storage : Slot → Storage
  | .unresolved => .unresolved
  | .frame _ => .stack
  | .field _ => .heap

def Slot.offset : Slot → Int
  | .unresolved => 0
  | .frame offset | .field offset => offset

/-- A use of a variable, with the slot that layout chose for it. -/
structure Var where
  span : Span
  name : String
  slot : Slot
  deriving DecidableEq, Repr, Inhabited

/-- Expressions. A call without receiver is a call of a top-level routine. -/
inductive Expr where
  | missing
  | integer (span : Span) (value : Int32)
  | truth (span : Span) (value : Bool)
  | var (span : Span) (var : Var)
  | self (span : Span)
  | not (span : Span) (operand : Expr)
  | isNull (span : Span) (operand : Expr)
  | binary (span : Span) (op : String) (left right : Expr)
  | index (span : Span) (array index : Expr)
  | length (span : Span) (array : Expr)
  | newArray (span : Span) (elem : TypeName) (length : Expr)
  | newObject (span : Span) (className : String) (listed : Bool) (args : List Expr)
  | call (span : Span) (receiver : Expr) (name : String) (listed : Bool) (args : List Expr)
  deriving Inhabited

def Expr.span : Expr → Span
  | .missing => .unknown
  | .integer s _ | .truth s _ | .var s _ | .self s | .not s _ | .isNull s _ | .binary s _ _ _
  | .index s _ _ | .length s _ | .newArray s _ _ | .newObject s _ _ _ | .call s _ _ _ _ => s

def Expr.isPresent : Expr → Bool
  | .missing => false
  | _ => true

mutual

/-- Statements. -/
inductive Stmt where
  | missing
  | block (block : Block)
  | declare (span : Span) (type : TypeName) (name : String)
  | branch (span : Span) (cond : Expr) (onTrue onFalse : Block)
  | loop (span : Span) (cond : Expr) (body : Block)
  | output (span : Span) (value : Expr)
  | assign (span : Span) (var : Var) (value : Expr)
  | assignIndex (span : Span) (array index value : Expr)
  | call (span : Span) (receiver : Expr) (name : String) (listed : Bool) (args : List Expr)

/-- Blocks of statements; the locals declared in a block are in scope to its end. -/
inductive Block where
  | absent
  | mk (span : Span) (listed : Bool) (body : List Stmt)

end

instance : Inhabited Stmt := ⟨.missing⟩

instance : Inhabited Block := ⟨.absent⟩

def Block.span : Block → Span
  | .absent => .unknown
  | .mk s _ _ => s

/-- The statements of a block; an absent block has none. -/
def Block.body : Block → List Stmt
  | .absent => []
  | .mk _ _ body => body

def Stmt.span : Stmt → Span
  | .missing => .unknown
  | .block b => b.span
  | .declare s _ _ | .branch s _ _ _ | .loop s _ _ | .output s _ | .assign s _ _
  | .assignIndex s _ _ _ | .call s _ _ _ _ => s

/-- A parameter of a routine. -/
structure Param where
  span : Span
  type : TypeName
  name : String
  deriving DecidableEq, Repr, Inhabited

/-- A field of a class. -/
structure Field where
  span : Span
  type : TypeName
  name : String
  deriving DecidableEq, Repr, Inhabited

/-- What makes a routine a function: its type and the expression evaluated after the body. -/
structure Returns where
  type : TypeName
  result : Expr
  deriving Inhabited

/-- A procedure or, if it returns, a function; `stackSlots` is the number of local slots its frame
needs. -/
structure Routine where
  span : Span
  name : String
  paramsListed : Bool
  params : List Param
  bodyListed : Bool
  body : List Stmt
  returns : Option Returns
  stackSlots : Nat
  deriving Inhabited

/-- A class; the empty parent name means that it has no parent. -/
structure ClassDecl where
  span : Span
  name : String
  parent : String
  fieldsListed : Bool
  fields : List Field
  methodsListed : Bool
  methods : List (Option Routine)
  deriving Inhabited

/-- What a program does at the top: call a procedure, or evaluate an expression and print it. -/
inductive Command where
  | call (span : Span) (name : String) (listed : Bool) (args : List Expr)
  | eval (span : Span) (expr : Expr)
  deriving Inhabited

def Command.span : Command → Span
  | .call s _ _ _ | .eval s _ => s

/-- A program: routines at the top level, classes, and the commands to run against them. -/
structure Program where
  span : Span
  routinesListed : Bool
  routines : List (Option Routine)
  classesListed : Bool
  classes : List (Option ClassDecl)
  commandsListed : Bool
  commands : List Command
  deriving Inhabited

end ObjectLang
