import ObjectLang.ClassTable

/-! Faults end a run. A fault has a kind and a text; while it unwinds it is given the innermost known
span and the trace of the call stack, each only once. A failure is a fault, an error of the
interpreter itself, or either of them under a heading. -/

namespace ObjectLang

/-- The kinds of faults. -/
inductive FaultKind where
  | divisionByZero
  | nullReference
  | negativeArrayLength
  | indexOutOfRange
  | unresolvedDispatch
  | unsupportedOperator
  | invalidAddress
  | frameOffset
  | stackOverflow
  | other (code : Int)
  deriving DecidableEq, Repr

namespace FaultKind

/-- The kind with a given number. -/
def ofCode : Int → FaultKind
  | 1 => .divisionByZero
  | 2 => .nullReference
  | 3 => .negativeArrayLength
  | 4 => .indexOutOfRange
  | 5 => .unresolvedDispatch
  | 6 => .unsupportedOperator
  | 7 => .invalidAddress
  | 8 => .frameOffset
  | 9 => .stackOverflow
  | n => .other n

def code : FaultKind → Int
  | .divisionByZero => 1
  | .nullReference => 2
  | .negativeArrayLength => 3
  | .indexOutOfRange => 4
  | .unresolvedDispatch => 5
  | .unsupportedOperator => 6
  | .invalidAddress => 7
  | .frameOffset => 8
  | .stackOverflow => 9
  | .other n => n

def name : FaultKind → String
  | .divisionByZero => "DivisionByZero"
  | .nullReference => "NullReference"
  | .negativeArrayLength => "NegativeArrayLength"
  | .indexOutOfRange => "IndexOutOfRange"
  | .unresolvedDispatch => "UnresolvedDispatch"
  | .unsupportedOperator => "UnsupportedOperator"
  | .invalidAddress => "InvalidAddress"
  | .frameOffset => "FrameOffset"
  | .stackOverflow => "StackOverflow"
  | .other n => "Fault(" ++ toString n ++ ")"

/-- Whether a kind points at the checks before the run rather than at the program that runs. -/
def isInternal : FaultKind → Bool
  | .unresolvedDispatch | .unsupportedOperator | .invalidAddress | .frameOffset => true
  | _ => false

end FaultKind

/-- A fault; `stack` is the trace of the call stack where the fault surfaced, innermost first. -/
structure Fault where
  kind : FaultKind
  text : String
  span : Span
  stack : Option (List String)
  deriving DecidableEq, Repr

namespace Fault

/-- A fault as it is raised, without span and trace. -/
def raise (kind : FaultKind) (text : String) : Fault := ⟨kind, text, .unknown, none⟩

def message (f : Fault) : String := f.kind.name ++ ": " ++ f.text ++ f.span.suffix

/-- Gives a fault a span, if it has none yet. -/
def locate (span : Span) (f : Fault) : Fault := if f.span.isKnown then f else { f with span := span }

/-- Gives a fault a trace, if it has none yet. -/
def capture (trace : List String) (f : Fault) : Fault :=
  if f.stack.isSome then f else { f with stack := some trace }

end Fault

/-- What ends a run without success. A headed failure keeps the wording that its cause had when the
heading was put before it. -/
inductive Failure where
  | plain (text : String)
  | fault (fault : Fault)
  | headed (text : String) (cause : Failure)
  deriving DecidableEq, Repr

namespace Failure

def message : Failure → String
  | .plain text => text
  | .fault f => f.message
  | .headed text _ => text

def under (heading : String) (f : Failure) : Failure :=
  .headed (heading ++ ": " ++ f.message) f

def fault? : Failure → Option Fault
  | .plain _ => none
  | .fault f => some f
  | .headed _ cause => cause.fault?

def mapFault (change : Fault → Fault) : Failure → Failure
  | .plain text => .plain text
  | .fault f => .fault (change f)
  | .headed text cause => .headed text (cause.mapFault change)

/-- Gives the fault at the bottom a span, if it has none yet. -/
def locate (span : Span) : Failure → Failure := mapFault (Fault.locate span)

/-- Gives the fault at the bottom a trace, if it has none yet. -/
def capture (trace : List String) : Failure → Failure := mapFault (Fault.capture trace)

end Failure

end ObjectLang
