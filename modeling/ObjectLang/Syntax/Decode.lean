import ObjectLang.Document.Basic
import ObjectLang.Number.Integer
import ObjectLang.Syntax.Node
import ObjectLang.Text.Blank

/-! Reading trees from documents. Each object of a document is decoded once, from its fields as they
were read before it, so decoding is a fold over the document; what a node makes of an error below it
depends on where the error came from. Besides full nodes there are shorthands: a type may be written
as its text, a variable as its name, and a block as a bare list of statements. -/

namespace ObjectLang

/-- Why a document is no program. Kinds name what was found where something else was due. -/
inductive DecodeError where
  | missingTag
  | unknownTag (tag : String)
  | notProgram (kind : String)
  | notNode (kind : String)
  | invalidClass (kind : String)
  | invalidCommand (kind : String)
  | invalidRoutine (kind : String)
  | invalidField (className kind : String)
  | invalidParameter (routine kind : String)
  | invalidStatement (kind : String)
  | invalidExpression (kind : String)
  | invalidOperand (key kind : String)
  | invalidType (key kind : String)
  | expectedVariable (key kind : String)
  | expectedBlock (key kind : String)
  | missingPart (key : String)
  | missingOperator
  | emptyTypeName
  | emptyVariable (key : String)
  | fractional (value : Number.Binary64)
  | notNumber (kind : String)
  | badNumber (cause : Number.IntegerError)
  | literalOutOfRange (value : Int)
  | inClass (name : String) (cause : DecodeError)
  | inRoutine (name : String) (cause : DecodeError)
  | inPart (key : String) (cause : DecodeError)
  deriving DecidableEq, Repr

def DecodeError.message : DecodeError → String
  | .missingTag => "node missing type"
  | .unknownTag tag => "unsupported node type " ++ Text.quoted tag
  | .notProgram kind => "decoded node is not a program: " ++ kind
  | .notNode kind => "expected node object, found " ++ kind
  | .invalidClass kind => "invalid class entry " ++ kind
  | .invalidCommand kind => "invalid command entry " ++ kind
  | .invalidRoutine kind => "invalid routine " ++ kind
  | .invalidField className kind => "class " ++ className ++ ": invalid field " ++ kind
  | .invalidParameter routine kind => "routine " ++ routine ++ ": invalid parameter " ++ kind
  | .invalidStatement kind => "invalid statement " ++ kind
  | .invalidExpression kind => "invalid expression " ++ kind
  | .invalidOperand key kind => key ++ ": invalid expression " ++ kind
  | .invalidType key kind => key ++ ": invalid type " ++ kind
  | .expectedVariable key kind => key ++ ": expected variable, found " ++ kind
  | .expectedBlock key kind => key ++ ": expected block, found " ++ kind
  | .missingPart key => "missing " ++ key
  | .missingOperator => "operator expression missing op"
  | .emptyTypeName => "empty type name"
  | .emptyVariable key => key ++ ": empty variable name"
  | .fractional value => "expected integer, found " ++ value.text
  | .notNumber kind => "expected integer, found " ++ kind
  | .badNumber cause => cause.message
  | .literalOutOfRange value => "integer literal " ++ toString value ++ " out of range"
  | .inClass name cause => "class " ++ name ++ ": " ++ cause.message
  | .inRoutine name cause => "routine " ++ name ++ ": " ++ cause.message
  | .inPart key cause => key ++ ": " ++ cause.message

/-- Puts an error into its context. -/
def within (wrap : DecodeError → DecodeError) : Except DecodeError α → Except DecodeError α
  | .ok a => .ok a
  | .error e => .error (wrap e)

/-- The whole number toward zero of a floating-point number, or the least 64-bit integer when that
does not fit. -/
def Number.Binary64.toInt64 (x : Number.Binary64) : Int :=
  match x.truncate? with
  | some n => if Number.minInt64 ≤ n && n ≤ Number.maxInt64 then n else Number.minInt64
  | none => Number.minInt64

/-- The whole number that a document holds, in any of the forms that numbers take, or as a text. -/
def Document.toInt : Document → Except DecodeError Int
  | .integer n => .ok n
  | .int64 n => .ok n.toInt
  | .float x => if x.isWhole then .ok x.toInt64 else .error (.fractional x)
  | .literal written => (Number.parseInt64 written).mapError .badNumber
  | .text s => (Number.parseInt64 (Text.trim s)).mapError .badNumber
  | d => .error (.notNumber d.kindName)

/-- The span that a document describes, if it describes one. -/
def Document.toSpan? : Document → Option Span
  | .object fields =>
    match (field fields "line").toInt, (field fields "column").toInt with
    | .ok line, .ok column => some ⟨line, column⟩
    | _, _ => none
  | _ => none

/-- Reads a type from its text: a pair of brackets at the end makes an array of what stands before,
and a name that is no basic type is a class. -/
def TypeName.parse (cs : List Char) : Except DecodeError TypeName :=
  match _shape : (Text.trimChars cs).reverse with
  | [] => .error .emptyTypeName
  | ']' :: '[' :: rest => do
    let elem ← TypeName.parse rest.reverse
    return .array .unknown elem
  | reversed =>
    match String.ofList reversed.reverse with
    | "int" => .ok (.int .unknown)
    | "boolean" => .ok (.boolean .unknown)
    | name => .ok (.named .unknown name)
termination_by cs.length
decreasing_by
  have trimmed := Text.length_trimChars_le cs
  have shape := congrArg List.length _shape
  simp only [List.length_reverse, List.length_cons] at shape ⊢
  omega

/-- What is known of a document before its place asks for something: the document, the node that it
decodes to, and the nodes that its items decode to when it is a list. -/
structure Reading where
  source : Document
  node : Except DecodeError Node
  items : List (Except DecodeError Node)

/-- The reading of something that is no object and no list. -/
def Reading.plain (d : Document) : Reading := ⟨d, .error (.notNode d.kindName), []⟩

/-- The text that was read, or the empty text for anything else. -/
def Reading.text (r : Reading) : String :=
  match r.source with
  | .text s => s
  | _ => ""

namespace Decode

abbrev Fields := List (String × Reading)

/-- The reading under a key; an absent key reads as `null`. -/
def part (fields : Fields) (key : String) : Reading :=
  (fields.lookup key).getD (.plain .null)

/-- The text under a key, or the empty text. -/
def name (fields : Fields) (key : String) : String := (part fields key).text

/-- Narrows the nodes of a list to one type; what is no list has no items. -/
def items (narrow : Node → Except DecodeError α) (r : Reading) : Except DecodeError (List α) :=
  r.items.mapM fun item => item >>= narrow

/-- A statement, among statements. -/
def asStmt : Node → Except DecodeError Stmt
  | .stmt s => .ok s
  | n => .error (.invalidStatement n.kindName)

/-- An expression, among expressions. -/
def asExpr : Node → Except DecodeError Expr
  | .expr e => .ok e
  | n => .error (.invalidExpression n.kindName)

def asRoutine : Node → Except DecodeError (Option Routine)
  | .routine r => .ok (some r)
  | n => .error (.invalidRoutine n.kindName)

/-- A class, among classes. -/
def asClass : Node → Except DecodeError (Option ClassDecl)
  | .classDecl c => .ok (some c)
  | n => .error (.invalidClass n.kindName)

def asCommand : Node → Except DecodeError Command
  | .command c => .ok c
  | n => .error (.invalidCommand n.kindName)

def asField (className : String) : Node → Except DecodeError Field
  | .field f => .ok f
  | n => .error (.invalidField className n.kindName)

def asParam (routine : String) : Node → Except DecodeError Param
  | .param p => .ok p
  | n => .error (.invalidParameter routine n.kindName)

def typePart (fields : Fields) (key : String) : Except DecodeError TypeName :=
  let r := part fields key
  match r.source with
  | .null => .error (.missingPart key)
  | .text s => TypeName.parse s.toList
  | _ => do
    match ← r.node with
    | .type t => .ok t
    | n => .error (.invalidType key n.kindName)

/-- The expression under a key, which may be missing. -/
def optionalExpr (fields : Fields) (key : String) : Except DecodeError Expr :=
  let r := part fields key
  match r.source with
  | .null => .ok .missing
  | _ => do
    match ← within (.inPart key) r.node with
    | .expr e => .ok e
    | n => .error (.invalidOperand key n.kindName)

def exprPart (fields : Fields) (key : String) : Except DecodeError Expr := do
  match ← optionalExpr fields key with
  | .missing => .error (.missingPart key)
  | e => .ok e

/-- The block under a key, as a node or as a bare list; a missing one is empty. -/
def blockPart (fields : Fields) (key : String) : Except DecodeError Block :=
  let r := part fields key
  match r.source with
  | .null => .ok (.mk .unknown false [])
  | .list _ => do
    let body ← within (.inPart key) (items asStmt r)
    return .mk .unknown true body
  | _ => do
    match ← within (.inPart key) r.node with
    | .stmt (.block b) => .ok b
    | n => .error (.expectedBlock key n.kindName)

def varPart (fields : Fields) (key : String) : Except DecodeError Var :=
  let r := part fields key
  match r.source with
  | .text "" => .error (.emptyVariable key)
  | .text s => .ok ⟨.unknown, s, .unresolved⟩
  | .object _ => do
    match ← within (.inPart key) r.node with
    | .var v => .ok v
    | n => .error (.expectedVariable key n.kindName)
  | _ => .error (.missingPart key)

/-- A routine; a function also has a type and a result. -/
def routine (fields : Fields) (isFunction : Bool) : Except DecodeError Node := do
  let label := name fields "name"
  let params ← items (asParam label) (part fields "params")
  let body ← within (.inRoutine label) (items asStmt (part fields "body"))
  let plain : Routine := ⟨.unknown, label, true, params, true, body, none, 0⟩
  if isFunction then
    let type ← within (.inRoutine label) (typePart fields "returnType")
    let result ← within (.inRoutine label) (exprPart fields "result")
    return .routine { plain with returns := some ⟨type, result⟩ }
  else
    return .routine plain

def classDecl (fields : Fields) : Except DecodeError Node := do
  let label := name fields "name"
  let members ← items (asField label) (part fields "fields")
  let methods ← within (.inClass label) (items asRoutine (part fields "methods"))
  return .classDecl ⟨.unknown, label, name fields "parent", true, members, true, methods⟩

def program (fields : Fields) : Except DecodeError Node := do
  let routines ← items asRoutine (part fields "routines")
  let classes ← items asClass (part fields "classes")
  let commands ← items asCommand (part fields "commands")
  return .program ⟨.unknown, true, routines, true, classes, true, commands⟩

/-- An integer literal, which has 32 bits. -/
def literal (fields : Fields) : Except DecodeError Node := do
  let n ← (part fields "value").source.toInt
  if -2147483648 ≤ n && n ≤ 2147483647 then
    return .expr (.integer .unknown (Int32.ofInt n))
  else
    .error (.literalOutOfRange n)

/-- A binary operation, which needs an operator. -/
def binary (fields : Fields) : Except DecodeError Node := do
  let op := name fields "op"
  if op = "" then .error .missingOperator
  else
    let left ← exprPart fields "left"
    let right ← exprPart fields "right"
    return .expr (.binary .unknown op left right)

def unplaced (fields : Fields) : Except DecodeError Node :=
  match name fields "type" with
  | "Program" => program fields
  | "ClassDecl" => classDecl fields
  | "FieldDecl" => do
    return .field ⟨.unknown, ← typePart fields "fieldType", name fields "name"⟩
  | "Formal" => do
    return .param ⟨.unknown, ← typePart fields "paramType", name fields "name"⟩
  | "ProcDecl" => routine fields false
  | "FunDecl" => routine fields true
  | "TypeInt" => .ok (.type (.int .unknown))
  | "TypeBoolean" => .ok (.type (.boolean .unknown))
  | "TypeClass" => .ok (.type (.named .unknown (name fields "name")))
  | "TypeArray" => do return .type (.array .unknown (← typePart fields "elem"))
  | "ICall" => do
    return .command (.call .unknown (name fields "name") true (← items asExpr (part fields "args")))
  | "IEval" => do return .command (.eval .unknown (← exprPart fields "expr"))
  | "Var" => .ok (.var ⟨.unknown, name fields "name", .unresolved⟩)
  | "StmBlock" => do return .stmt (.block (.mk .unknown true (← items asStmt (part fields "body"))))
  | "StmVarDecl" => do
    return .stmt (.declare .unknown (← typePart fields "varType") (name fields "name"))
  | "StmIf" => do
    let cond ← exprPart fields "cond"
    let onTrue ← blockPart fields "then"
    let onFalse ← blockPart fields "else"
    return .stmt (.branch .unknown cond onTrue onFalse)
  | "StmWhile" => do
    let cond ← exprPart fields "cond"
    let body ← blockPart fields "body"
    return .stmt (.loop .unknown cond body)
  | "StmOutput" => do return .stmt (.output .unknown (← exprPart fields "expr"))
  | "StmAssign" => do
    let v ← varPart fields "var"
    let value ← exprPart fields "value"
    return .stmt (.assign .unknown v value)
  | "StmArrayAssign" => do
    let array ← exprPart fields "array"
    let index ← exprPart fields "index"
    let value ← exprPart fields "value"
    return .stmt (.assignIndex .unknown array index value)
  | "StmCall" => do
    let receiver ← optionalExpr fields "receiver"
    let args ← items asExpr (part fields "args")
    return .stmt (.call .unknown receiver (name fields "name") true args)
  | "ExpInteger" => literal fields
  | "ExpTrue" => .ok (.expr (.truth .unknown true))
  | "ExpFalse" => .ok (.expr (.truth .unknown false))
  | "ExpVar" => do return .expr (.var .unknown (← varPart fields "var"))
  | "ExpSelf" => .ok (.expr (.self .unknown))
  | "ExpNot" => do return .expr (.not .unknown (← exprPart fields "operand"))
  | "ExpIsnull" => do return .expr (.isNull .unknown (← exprPart fields "operand"))
  | "ExpOp" => binary fields
  | "ExpArrayLookup" => do
    let array ← exprPart fields "array"
    let index ← exprPart fields "index"
    return .expr (.index .unknown array index)
  | "ExpArrayLength" => do return .expr (.length .unknown (← exprPart fields "array"))
  | "ExpNewArray" => do
    let elem ← typePart fields "elemType"
    let length ← exprPart fields "length"
    return .expr (.newArray .unknown elem length)
  | "ExpNewObject" => do
    let args ← items asExpr (part fields "args")
    return .expr (.newObject .unknown (name fields "class") true args)
  | "ExpCall" => do
    let receiver ← optionalExpr fields "receiver"
    let args ← items asExpr (part fields "args")
    return .expr (.call .unknown receiver (name fields "name") true args)
  | "" => .error .missingTag
  | tag => .error (.unknownTag tag)

def node (fields : Fields) : Except DecodeError Node := do
  let n ← unplaced fields
  match (part fields "span").source.toSpan? with
  | some span => return n.withSpan span
  | none => return n

end Decode

mutual

def Document.reading : Document → Reading
  | .list items => ⟨.list items, .error (.notNode "[]interface \x7b\x7d"), itemReadings items⟩
  | .object fields => ⟨.object fields, Decode.node (fieldReadings fields), []⟩
  | .null => .plain .null
  | .bool b => .plain (.bool b)
  | .text s => .plain (.text s)
  | .float x => .plain (.float x)
  | .integer n => .plain (.integer n)
  | .int64 n => .plain (.int64 n)
  | .unsigned n => .plain (.unsigned n)
  | .literal s => .plain (.literal s)
  | .timestamp => .plain .timestamp
  | .mapping entries => .plain (.mapping entries)

def Document.itemReadings : List Document → List (Except DecodeError Node)
  | [] => []
  | d :: ds => d.reading.node :: itemReadings ds

def Document.fieldReadings : List (String × Document) → List (String × Reading)
  | [] => []
  | (key, d) :: rest => (key, d.reading) :: fieldReadings rest

end

def Program.ofFields (fields : List (String × Document)) : Except DecodeError Program := do
  match ← Decode.node (Document.fieldReadings fields) with
  | .program p => .ok p
  | n => .error (.notProgram n.kindName)

end ObjectLang
