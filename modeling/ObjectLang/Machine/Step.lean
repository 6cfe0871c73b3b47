import ObjectLang.Machine.State
import ObjectLang.Text.Quoted

/-! The steps of a run. Operands are evaluated from left to right; a call evaluates its receiver, then
its arguments, and then runs a routine in a frame of its own. A failure drops what is pending, one
piece at a time: spans are put on it where expressions and statements are left, and the trace of the
stack where a routine is left, whose frame is dropped with it. -/

namespace ObjectLang

namespace State

def goto (s : State) (control : Control) : State := { s with control := control }

/-- Goes on with another control, and something to be done with its result. -/
def push (s : State) (p : Pending) (control : Control) : State :=
  { s with control := control, pending := p :: s.pending }

def fail (s : State) (f : Failure) : State := s.goto (.failed f)

def yield (s : State) : Except Fault Word → State
  | .ok v => s.goto (.value v)
  | .error f => s.fail (.fault f)

def raise (s : State) (kind : FaultKind) (text : String) : State :=
  s.fail (.fault (.raise kind text))

end State

namespace Machine

/-- A binary operation on words. -/
def apply (op : String) (left right : Word) : Except Fault Word :=
  match op with
  | "and" => .ok (left &&& right)
  | "/" =>
    if right = 0 then .error (.raise .divisionByZero "division by zero is undefined")
    else .ok (left / right)
  | "==" => .ok (Word.ofBool (left = right))
  | "<" => .ok (Word.ofBool (left < right))
  | "-" => .ok (left - right)
  | "+" => .ok (left + right)
  | "*" => .ok (left * right)
  | _ => .error (.raise .unsupportedOperator
      ("handling for operator " ++ Text.quoted op ++ " has not been implemented"))

/-- The fault of using a variable without a slot. -/
def unplaced (v : Var) : Fault :=
  .raise .frameOffset ("variable " ++ v.name ++ " was never allocated")

def readVar (store : Store) (v : Var) : Except Fault Word :=
  match v.slot with
  | .frame offset => store.stack.read offset
  | .field offset => do
    let self ← store.stack.read Layout.selfOffset
    store.heap.read self (Int32.ofInt offset)
  | .unresolved => .error (unplaced v)

/-- Assigns a value to a variable. -/
def writeVar (s : State) (v : Var) (value : Word) : State :=
  match v.slot with
  | .frame offset =>
    match s.store.stack.place offset with
    | .error f => s.fail (.fault f)
    | .ok place =>
      { s with control := .done, store.stack := s.store.stack.store place value }
  | .field offset =>
    match (do let self ← s.store.stack.read Layout.selfOffset
              s.store.heap.place self (Int32.ofInt offset)) with
    | .error f => s.fail (.fault f)
    | .ok place => { s with control := .done, store.heap := s.store.heap.store place value }
  | .unresolved => s.fail (.fault (unplaced v))

def writeAt (s : State) (ref index value : Word) : State :=
  match s.store.heap.place ref index with
  | .error f => s.fail (.fault f)
  | .ok place => { s with control := .done, store.heap := s.store.heap.store place value }

/-- Prints a value, unless the sink refuses it. -/
def print (setting : Setting) (s : State) (value : Word) : State :=
  let accept : State := { s with control := .done, store.printed := s.store.printed.push value }
  match setting.sink with
  | .unlimited => accept
  | .limited capacity complaint =>
    if s.store.printed.size < capacity then accept
    else s.fail (Failure.under "interpreter: write output" (.plain complaint))

def traceLine (className : String) (o : HeapObject) : String :=
  className ++ "[ " ++ String.join (o.elements.toList.map fun v => toString v.toInt ++ " ") ++ " ]\n"

/-- Hands on a reference to a constructed object, tracing the object if asked. -/
def constructed (setting : Setting) (s : State) (className : String) (ref : Word) : State :=
  if setting.tracing then
    match s.store.heap.deref ref with
    | .ok o => { s with
        control := .value ref
        store.traced := s.store.traced.push (traceLine className o) }
    | .error _ => s.goto (.value ref)
  else s.goto (.value ref)

/-- Runs a routine: checks the number of arguments and whether there will be a value, adds a frame
and executes the body. -/
def enter (s : State) (m : Method) (self : Word) (args : List Word) (wantsValue : Bool) : State :=
  let arity := m.decl.params.length
  if arity ≠ args.length then
    s.raise .unresolvedDispatch (m.qualified ++ " expects " ++ toString arity ++
      " arguments, got " ++ toString args.length)
  else if wantsValue && m.decl.returns.isNone then
    s.raise .unresolvedDispatch ("procedure " ++ m.qualified ++ " does not produce a value")
  else match s.store.stack.push m.qualified self args m.decl.stackSlots with
    | .error f => s.fail (.fault f)
    | .ok stack =>
      let result := if wantsValue then m.decl.returns.map (·.result) else none
      { s with
        control := .stmts m.decl.body
        pending := .activation result :: s.pending
        store.stack := stack }

/-- Runs what a call means, once its arguments are known. -/
def call (setting : Setting) (s : State) (args : List Word) : Callee → State
  | .routine m self wantsValue => enter s m self args wantsValue
  | .method className name self wantsValue =>
    match setting.table.lookup? className name with
    | none => s.raise .unresolvedDispatch ("class " ++ className ++ " has no method " ++ name)
    | some m => enter s m self args wantsValue

/-- Evaluates the arguments of a call, having evaluated some, last first. -/
def evalArgs (setting : Setting) (s : State) (callee : Callee) (evaluated : List Word) :
    List Expr → State
  | [] => call setting s evaluated.reverse callee
  | e :: rest => s.push (.argument callee evaluated rest) (.expr e)

def callTop (setting : Setting) (s : State) (name : String) (args : List Expr)
    (wantsValue : Bool) : State :=
  match findMethod? setting.table.top name with
  | none => s.raise .unresolvedDispatch ("no top-level routine " ++ name)
  | some m => evalArgs setting s (.routine m 0 wantsValue) [] args

/-- Starts a call: of a routine of the top level, or on a receiver, which is evaluated first. -/
def startCall (setting : Setting) (s : State) (receiver : Expr) (name : String)
    (args : List Expr) (wantsValue : Bool) : State :=
  match receiver with
  | .missing => callTop setting s name args wantsValue
  | e => s.push (.receive name args wantsValue) (.expr e)

/-- Goes on with a call whose receiver is known. -/
def receive (setting : Setting) (s : State) (ref : Word) (name : String) (args : List Expr)
    (wantsValue : Bool) : State :=
  if ref = 0 then
    s.raise .nullReference ("attempting to call method " ++ name ++ " on an uninitialised object")
  else match s.store.heap.deref ref with
    | .error f => s.fail (.fault f)
    | .ok o => evalArgs setting s (.method o.type name ref wantsValue) [] args

/-- Constructs an object: allocates it with zeroed fields, then runs the method that has the name of
the class. A class without such a method takes no arguments. -/
def construct (setting : Setting) (s : State) (className : String) (args : List Expr) : State :=
  match setting.table.fieldCount className with
  | .error cause => s.raise .unresolvedDispatch cause.message
  | .ok count =>
    let heap := s.store.heap.addInstance count className
    let ref := heap.lastAddress.toWord
    let s := { s with store.heap := heap }
    match setting.table.lookup? className className with
    | some m =>
      evalArgs setting { s with pending := .constructed className ref :: s.pending }
        (.routine m ref false) [] args
    | none =>
      if args.isEmpty then constructed setting s className ref
      else s.raise .unresolvedDispatch ("class " ++ className ++
        " has no constructor taking " ++ toString args.length ++ " arguments")

/-- Evaluates an expression. -/
def eval (setting : Setting) (s : State) (e : Expr) : State :=
  let s := { s with pending := .locate e.span :: s.pending }
  match e with
  | .missing => s.fail (.plain "interpreter: missing expression")
  | .integer _ value => s.goto (.value value)
  | .truth _ value => s.goto (.value (Word.ofBool value))
  | .var _ v => s.yield (readVar s.store v)
  | .self _ => s.yield (s.store.stack.read Layout.selfOffset)
  | .not _ operand => s.push .negate (.expr operand)
  | .isNull _ operand => s.push .testNull (.expr operand)
  | .binary _ op left right => s.push (.rightOperand op right) (.expr left)
  | .index _ array index => s.push (.indexOf index) (.expr array)
  | .length _ array => s.push .measure (.expr array)
  | .newArray _ elem length => s.push (.makeArray elem) (.expr length)
  | .newObject _ className _ args => construct setting s className args
  | .call _ receiver name _ args => startCall setting s receiver name args true

def exec (setting : Setting) (s : State) : Stmt → State
  | .missing => s.fail (.plain "interpreter: missing statement")
  | .block b => s.goto (.stmts b.body)
  | .declare _ _ _ => s.goto .done
  | .branch _ cond onTrue onFalse => s.push (.choose onTrue onFalse) (.expr cond)
  | .loop _ cond body => s.push (.test cond body) (.expr cond)
  | .output _ value => s.push .print (.expr value)
  | .assign _ v value => s.push (.assign v) (.expr value)
  | .assignIndex _ array index value => s.push (.assignIndexOf index value) (.expr array)
  | .call _ receiver name _ args =>
    startCall setting { s with pending := .discard :: s.pending } receiver name args false

/-- Executes statements: the first, and then the rest. -/
def execAll (setting : Setting) (s : State) : List Stmt → State
  | [] => s.goto .done
  | stmt :: rest => exec setting { s with pending := .next stmt.span rest :: s.pending } stmt

/-- Goes on with something pending that waits for a value; what waits for none passes it on. -/
def resume (setting : Setting) (s : State) (v : Word) : Pending → State
  | .negate => s.goto (.value (Word.ofBool (v = 0)))
  | .testNull => s.goto (.value (Word.ofBool (v = 0)))
  | .rightOperand op right => s.push (.combine op v) (.expr right)
  | .combine op left => s.yield (apply op left v)
  | .indexOf index =>
    match s.store.heap.deref v with
    | .error f => s.fail (.fault f)
    | .ok _ => s.push (.readAt v) (.expr index)
  | .readAt ref => s.yield (s.store.heap.read ref v)
  | .measure => s.yield ((s.store.heap.deref v).map fun o => Int32.ofNat o.length)
  | .makeArray elem =>
    match s.store.heap.addArray v elem.text with
    | .error f => s.fail (.fault f)
    | .ok heap => { s with control := .value heap.lastAddress.toWord, store.heap := heap }
  | .receive name args wantsValue => receive setting s v name args wantsValue
  | .argument callee evaluated rest => evalArgs setting s callee (v :: evaluated) rest
  | .constructed className ref => constructed setting s className ref
  | .result => { s with control := .value v, store.stack := s.store.stack.pop }
  | .choose onTrue onFalse => s.goto (.stmts (if v = 1 then onTrue.body else onFalse.body))
  | .test cond body =>
    if v = 1 then s.push (.again cond body) (.stmts body.body) else s.goto .done
  | .print => print setting s v
  | .assign var => writeVar s var v
  | .assignIndexOf index value =>
    match s.store.heap.deref v with
    | .error f => s.fail (.fault f)
    | .ok _ => s.push (.assignValueOf v value) (.expr index)
  | .assignValueOf ref value => s.push (.writeAt ref v) (.expr value)
  | .writeAt ref index => writeAt s ref index v
  | .discard => s.goto .done
  | .locate _ | .activation _ | .next _ _ | .again _ _ => s.goto (.value v)

/-- Goes on with something pending that waits for statements to end; what waits for a value passes
the end on. -/
def proceed (s : State) : Pending → State
  | .next _ rest => s.goto (.stmts rest)
  | .again cond body => s.push (.test cond body) (.expr cond)
  | .activation none => { s with control := .value 0, store.stack := s.store.stack.pop }
  | .activation (some result) => s.push .result (.expr result)
  | _ => s.goto .done

/-- Drops something pending on the way out of a failure. -/
def unwind (s : State) (f : Failure) : Pending → State
  | .locate span | .next span _ => s.fail (f.locate span)
  | .result | .activation _ =>
    { s with
      control := .failed (f.capture s.store.stack.trace)
      store.stack := s.store.stack.pop }
  | _ => s.fail f

/-- One step of a run; a final state stays as it is. -/
def step (setting : Setting) (s : State) : State :=
  match s.control with
  | .expr e => eval setting s e
  | .stmts stmts => execAll setting s stmts
  | .value v =>
    match s.pending with
    | [] => s
    | p :: pending => resume setting { s with pending := pending } v p
  | .done =>
    match s.pending with
    | [] => s
    | p :: pending => proceed { s with pending := pending } p
  | .failed f =>
    match s.pending with
    | [] => s
    | p :: pending => unwind { s with pending := pending } f p

/-- Runs to a final state, for as many steps as given; `none` if they do not suffice. -/
def run (setting : Setting) : Nat → State → Option State
  | 0, s => if s.isFinal then some s else none
  | steps + 1, s => if s.isFinal then some s else run setting steps (step setting s)

end Machine

end ObjectLang
