import ObjectLang.Syntax.Basic

/-! Nodes: the sum of all tree types, which is what one object of a document decodes to before it is
known which of them its place asks for. -/

namespace ObjectLang

/-- A node of any type. -/
inductive Node where
  | program (program : Program)
  | classDecl (decl : ClassDecl)
  | field (field : Field)
  | param (param : Param)
  | routine (routine : Routine)
  | type (type : TypeName)
  | var (var : Var)
  | command (command : Command)
  | stmt (stmt : Stmt)
  | expr (expr : Expr)
  deriving Inhabited

namespace Node

def typeTag : TypeName → String
  | .missing => ""
  | .int _ => "TypeInt"
  | .boolean _ => "TypeBoolean"
  | .named _ _ => "TypeClass"
  | .array _ _ => "TypeArray"

def exprTag : Expr → String
  | .missing => ""
  | .integer _ _ => "ExpInteger"
  | .truth _ true => "ExpTrue"
  | .truth _ false => "ExpFalse"
  | .var _ _ => "ExpVar"
  | .self _ => "ExpSelf"
  | .not _ _ => "ExpNot"
  | .isNull _ _ => "ExpIsnull"
  | .binary _ _ _ _ => "ExpOp"
  | .index _ _ _ => "ExpArrayLookup"
  | .length _ _ => "ExpArrayLength"
  | .newArray _ _ _ => "ExpNewArray"
  | .newObject _ _ _ _ => "ExpNewObject"
  | .call _ _ _ _ _ => "ExpCall"

def stmtTag : Stmt → String
  | .missing => ""
  | .block _ => "StmBlock"
  | .declare _ _ _ => "StmVarDecl"
  | .branch _ _ _ _ => "StmIf"
  | .loop _ _ _ => "StmWhile"
  | .output _ _ => "StmOutput"
  | .assign _ _ _ => "StmAssign"
  | .assignIndex _ _ _ _ => "StmArrayAssign"
  | .call _ _ _ _ _ => "StmCall"

def routineTag (r : Routine) : String :=
  if r.returns.isSome then "FunDecl" else "ProcDecl"

def commandTag : Command → String
  | .call _ _ _ _ => "ICall"
  | .eval _ _ => "IEval"

def tag : Node → String
  | .program _ => "Program"
  | .classDecl _ => "ClassDecl"
  | .field _ => "FieldDecl"
  | .param _ => "Formal"
  | .routine r => routineTag r
  | .type t => typeTag t
  | .var _ => "Var"
  | .command c => commandTag c
  | .stmt s => stmtTag s
  | .expr e => exprTag e

def kindName (n : Node) : String := "*ast." ++ n.tag

end Node

def TypeName.withSpan (span : Span) : TypeName → TypeName
  | .missing => .missing
  | .int _ => .int span
  | .boolean _ => .boolean span
  | .named _ name => .named span name
  | .array _ elem => .array span elem

def Expr.withSpan (span : Span) : Expr → Expr
  | .missing => .missing
  | .integer _ value => .integer span value
  | .truth _ value => .truth span value
  | .var _ v => .var span v
  | .self _ => .self span
  | .not _ operand => .not span operand
  | .isNull _ operand => .isNull span operand
  | .binary _ op left right => .binary span op left right
  | .index _ a i => .index span a i
  | .length _ a => .length span a
  | .newArray _ elem n => .newArray span elem n
  | .newObject _ className listed args => .newObject span className listed args
  | .call _ receiver name listed args => .call span receiver name listed args

def Block.withSpan (span : Span) : Block → Block
  | .absent => .absent
  | .mk _ listed body => .mk span listed body

def Stmt.withSpan (span : Span) : Stmt → Stmt
  | .missing => .missing
  | .block b => .block (b.withSpan span)
  | .declare _ type name => .declare span type name
  | .branch _ cond onTrue onFalse => .branch span cond onTrue onFalse
  | .loop _ cond body => .loop span cond body
  | .output _ value => .output span value
  | .assign _ var value => .assign span var value
  | .assignIndex _ array index value => .assignIndex span array index value
  | .call _ receiver name listed args => .call span receiver name listed args

def Command.withSpan (span : Span) : Command → Command
  | .call _ name listed args => .call span name listed args
  | .eval _ expr => .eval span expr

def Node.withSpan (span : Span) : Node → Node
  | .program p => .program { p with span := span }
  | .classDecl c => .classDecl { c with span := span }
  | .field f => .field { f with span := span }
  | .param p => .param { p with span := span }
  | .routine r => .routine { r with span := span }
  | .type t => .type (t.withSpan span)
  | .var v => .var { v with span := span }
  | .command c => .command (c.withSpan span)
  | .stmt s => .stmt (s.withSpan span)
  | .expr e => .expr (e.withSpan span)

end ObjectLang
