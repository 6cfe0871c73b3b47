import ObjectLang.Document.Basic
import ObjectLang.Syntax.Node

/-! Writing trees as documents. Every node is an object with its tag, its span when that is known,
and its parts; missing parts and unlisted lists are `null`, and a parent or receiver that is not
there is left out. How a document holds whole numbers is the caller's choice. -/

namespace ObjectLang.Encode

/-- The fields that open every node. -/
def header (number : Int → Document) (tag : String) (span : Span) : List (String × Document) :=
  ("type", .text tag) ::
    if span.isKnown then
      [("span", .object [("line", number span.line), ("column", number span.column)])]
    else []

/-- A list, or `null` for one that was not listed. -/
def listOf (listed : Bool) (items : List Document) : Document :=
  if listed then .list items else .null

def type (number : Int → Document) : TypeName → Document
  | .missing => .null
  | .int span => .object (header number "TypeInt" span)
  | .boolean span => .object (header number "TypeBoolean" span)
  | .named span name => .object (header number "TypeClass" span ++ [("name", .text name)])
  | .array span elem =>
    .object (header number "TypeArray" span ++ [("elem", type number elem)])

def var (number : Int → Document) (v : Var) : Document :=
  .object (header number "Var" v.span ++ [("name", .text v.name)])

mutual

def expr (number : Int → Document) : Expr → Document
  | .missing => .null
  | .integer span value =>
    .object (header number "ExpInteger" span ++ [("value", number value.toInt)])
  | .truth span value => .object (header number (if value then "ExpTrue" else "ExpFalse") span)
  | .var span v => .object (header number "ExpVar" span ++ [("var", var number v)])
  | .self span => .object (header number "ExpSelf" span)
  | .not span operand =>
    .object (header number "ExpNot" span ++ [("operand", expr number operand)])
  | .isNull span operand =>
    .object (header number "ExpIsnull" span ++ [("operand", expr number operand)])
  | .binary span op left right =>
    .object (header number "ExpOp" span ++
      [("op", .text op), ("left", expr number left), ("right", expr number right)])
  | .index span array index =>
    .object (header number "ExpArrayLookup" span ++
      [("array", expr number array), ("index", expr number index)])
  | .length span array =>
    .object (header number "ExpArrayLength" span ++ [("array", expr number array)])
  | .newArray span elem length =>
    .object (header number "ExpNewArray" span ++
      [("elemType", type number elem), ("length", expr number length)])
  | .newObject span className listed args =>
    .object (header number "ExpNewObject" span ++
      [("class", .text className), ("args", listOf listed (exprs number args))])
  | .call span receiver name listed args =>
    .object (header number "ExpCall" span ++
      (if receiver.isPresent then [("receiver", expr number receiver)] else []) ++
      [("name", .text name), ("args", listOf listed (exprs number args))])

def exprs (number : Int → Document) : List Expr → List Document
  | [] => []
  | e :: es => expr number e :: exprs number es

end

mutual

def stmt (number : Int → Document) : Stmt → Document
  | .missing => .null
  | .block b => block number b
  | .declare span t name =>
    .object (header number "StmVarDecl" span ++ [("varType", type number t), ("name", .text name)])
  | .branch span cond onTrue onFalse =>
    .object (header number "StmIf" span ++ [("cond", expr number cond),
      ("then", block number onTrue), ("else", block number onFalse)])
  | .loop span cond body =>
    .object (header number "StmWhile" span ++
      [("cond", expr number cond), ("body", block number body)])
  | .output span value =>
    .object (header number "StmOutput" span ++ [("expr", expr number value)])
  | .assign span v value =>
    .object (header number "StmAssign" span ++
      [("var", var number v), ("value", expr number value)])
  | .assignIndex span array index value =>
    .object (header number "StmArrayAssign" span ++ [("array", expr number array),
      ("index", expr number index), ("value", expr number value)])
  | .call span receiver name listed args =>
    .object (header number "StmCall" span ++
      (if receiver.isPresent then [("receiver", expr number receiver)] else []) ++
      [("name", .text name), ("args", listOf listed (exprs number args))])

def block (number : Int → Document) : Block → Document
  | .absent => .null
  | .mk span listed body =>
    .object (header number "StmBlock" span ++ [("body", listOf listed (stmts number body))])

def stmts (number : Int → Document) : List Stmt → List Document
  | [] => []
  | s :: ss => stmt number s :: stmts number ss

end

def param (number : Int → Document) (p : Param) : Document :=
  .object (header number "Formal" p.span ++
    [("paramType", type number p.type), ("name", .text p.name)])

def field (number : Int → Document) (f : Field) : Document :=
  .object (header number "FieldDecl" f.span ++
    [("fieldType", type number f.type), ("name", .text f.name)])

def routine (number : Int → Document) (r : Routine) : Document :=
  .object (header number (Node.routineTag r) r.span ++
    [("name", .text r.name), ("params", listOf r.paramsListed (r.params.map (param number))),
      ("body", listOf r.bodyListed (stmts number r.body))] ++
    match r.returns with
    | none => []
    | some returns =>
      [("returnType", type number returns.type), ("result", expr number returns.result)])

/-- Something that may be missing, as a document. -/
def optional (write : α → Document) : Option α → Document
  | none => .null
  | some a => write a

def classDecl (number : Int → Document) (c : ClassDecl) : Document :=
  .object (header number "ClassDecl" c.span ++ [("name", .text c.name)] ++
    (if c.parent = "" then [] else [("parent", .text c.parent)]) ++
    [("fields", listOf c.fieldsListed (c.fields.map (field number))),
      ("methods", listOf c.methodsListed (c.methods.map (optional (routine number))))])

def command (number : Int → Document) : Command → Document
  | .call span name listed args =>
    .object (header number "ICall" span ++
      [("name", .text name), ("args", listOf listed (exprs number args))])
  | .eval span e => .object (header number "IEval" span ++ [("expr", expr number e)])

def program (number : Int → Document) (p : Program) : Document :=
  .object (header number "Program" p.span ++
    [("routines", listOf p.routinesListed (p.routines.map (optional (routine number)))),
      ("classes", listOf p.classesListed (p.classes.map (optional (classDecl number)))),
      ("commands", listOf p.commandsListed (p.commands.map (command number)))])

end ObjectLang.Encode
