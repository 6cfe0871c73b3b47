import ObjectLang.Machine.CallStack

/-! The state of a run: what is being done, what is still to be done with its result, and the store
that it works on. -/

namespace ObjectLang

/-- Where printed lines go: a sink may refuse every line after a number of them. -/
inductive Sink where
  | unlimited
  | limited (capacity : Nat) (complaint : String)
  deriving DecidableEq, Repr

/-- What a run reads and never changes: the class table, the sink for printed lines, and whether
constructed objects are traced. -/
structure Setting where
  table : ClassTable
  sink : Sink
  tracing : Bool

/-- What a run works on: the heap, the call stack, the values printed and the lines traced. -/
structure Store where
  heap : Heap
  stack : CallStack
  printed : Array Word
  traced : Array String
  deriving DecidableEq, Repr

def Store.fresh (limit : Int) : Store := ⟨.empty, .empty limit, #[], #[]⟩

/-- What a call runs once its arguments are known: a routine, or the method that a class has under a
name. A call may want a value. -/
inductive Callee where
  | routine (method : Method) (self : Word) (wantsValue : Bool)
  | method (className name : String) (self : Word) (wantsValue : Bool)

/-- What is still to be done with a result. -/
inductive Pending where
  | locate (span : Span)
  | negate
  | testNull
  | rightOperand (op : String) (right : Expr)
  | combine (op : String) (left : Word)
  | indexOf (index : Expr)
  | readAt (ref : Word)
  | measure
  | makeArray (elem : TypeName)
  | receive (name : String) (args : List Expr) (wantsValue : Bool)
  | argument (callee : Callee) (evaluated : List Word) (rest : List Expr)
  | constructed (className : String) (ref : Word)
  | result
  | activation (result : Option Expr)
  | next (span : Span) (rest : List Stmt)
  | choose (onTrue onFalse : Block)
  | test (cond : Expr) (body : Block)
  | again (cond : Expr) (body : Block)
  | print
  | assign (var : Var)
  | assignIndexOf (index value : Expr)
  | assignValueOf (ref : Word) (value : Expr)
  | writeAt (ref index : Word)
  | discard

/-- What is being done: an expression is evaluated, statements are executed, a value or the end of
statements is handed on, or a failure unwinds. -/
inductive Control where
  | expr (expr : Expr)
  | stmts (stmts : List Stmt)
  | value (value : Word)
  | done
  | failed (failure : Failure)

/-- The state of a run. -/
structure State where
  control : Control
  pending : List Pending
  store : Store

/-- Whether nothing is left to be done. -/
def State.isFinal (s : State) : Bool :=
  match s.control, s.pending with
  | .value _, [] | .done, [] | .failed _, [] => true
  | _, _ => false

end ObjectLang
