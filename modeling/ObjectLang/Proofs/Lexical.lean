import ObjectLang.Interpreter

/-! What programs mean by names. An activation holds its arguments by position and its live local
cells, the most recent first. A declaration adds a cell with an arbitrary value in it; leaving a block
drops the cells added in it. A name means the first parameter of that name, else the most recent live
cell of that name, else the field that the enclosing class has under it. No slot is used: variables of
commands, which stand outside any routine, are the only ones that are tried as they are.

A computation relates a world to its results and the worlds it may leave. The meaning of code is the
union of approximations, each of which allows one more level of nesting than the one before. -/

namespace ObjectLang

namespace Lexical

/-- What an evaluation works on: what all activations share, and the arguments and live local cells of
the running one. -/
structure World where
  heap : Heap
  printed : Array Word
  traced : Array String
  args : List Word
  cells : List (String × Word)

/-- The world in which the commands of an interpreter start. -/
def World.start (σ : Store) : World := ⟨σ.heap, σ.printed, σ.traced, [], []⟩

/-- A computation that may have several results. -/
def Sem (α : Type) : Type := World → Except Failure α → World → Prop

namespace Sem

variable {α β : Type}

/-- Has a result at once. -/
def ret (a : α) : Sem α := fun w r w' => r = .ok a ∧ w' = w

/-- Goes on with the result of a computation, unless it fails. -/
def andThen (m : Sem α) (k : α → Sem β) : Sem β := fun w r w' =>
  (∃ a u, m w (.ok a) u ∧ k a u r w') ∨ ∃ f, m w (.error f) w' ∧ r = .error f

instance : Monad Sem where
  pure := ret
  bind := andThen

theorem bind_assoc {γ : Type} (m : Sem α) (k : α → Sem β) (l : β → Sem γ) :
    (m >>= k) >>= l = m >>= fun a => k a >>= l := by
  funext w r w'
  apply propext
  constructor
  · rintro (⟨b, v, ⟨a, u, hm, hk⟩ | ⟨f, hm, hr⟩, hl⟩ | ⟨f, ⟨a, u, hm, hk⟩ | ⟨f', hm, hr⟩, rfl⟩)
    · exact .inl ⟨a, u, hm, .inl ⟨b, v, hk, hl⟩⟩
    · cases hr
    · exact .inl ⟨a, u, hm, .inr ⟨f, hk, rfl⟩⟩
    · cases hr
      exact .inr ⟨f, hm, rfl⟩
  · rintro (⟨a, u, hm, ⟨b, v, hk, hl⟩ | ⟨f, hk, rfl⟩⟩ | ⟨f, hm, rfl⟩)
    · exact .inl ⟨b, v, .inl ⟨a, u, hm, hk⟩, hl⟩
    · exact .inr ⟨f, .inl ⟨a, u, hm, hk⟩, rfl⟩
    · exact .inr ⟨f, .inr ⟨f, hm, rfl⟩, rfl⟩

theorem pure_bind (a : α) (k : α → Sem β) : pure a >>= k = k a := by
  funext w r w'
  apply propext
  constructor
  · rintro (⟨b, u, ⟨hb, rfl⟩, hk⟩ | ⟨f, ⟨hf, -⟩, -⟩)
    · cases hb
      exact hk
    · cases hf
  · intro hk
    exact .inl ⟨a, w, ⟨rfl, rfl⟩, hk⟩

/-- Has no result. -/
def none : Sem α := fun _ _ _ => False

def fail (f : Failure) : Sem α := fun w r w' => r = .error f ∧ w' = w

def raise (kind : FaultKind) (text : String) : Sem α := fail (.fault (.raise kind text))

/-- Has the given result, or fails with the given fault. -/
def ofExcept : Except Fault α → Sem α
  | .ok a => ret a
  | .error f => fail (.fault f)

def world : Sem World := fun w r w' => r = .ok w ∧ w' = w

def put (u : World) : Sem Unit := fun _ r w' => r = .ok () ∧ w' = u

def located (span : Span) (m : Sem α) : Sem α := fun w r w' =>
  ∃ r', m w r' w' ∧ r = r'.mapError (Failure.locate span)

/-- Adds a local cell with an arbitrary value in it. -/
def declare (name : String) : Sem Unit := fun w r w' =>
  r = .ok () ∧ ∃ initial, w' = { w with cells := (name, initial) :: w.cells }

/-- Drops at the end the local cells that were added. -/
def inScope (m : Sem α) : Sem α := fun w r w' =>
  ∃ u, m w r u ∧ w' = { u with cells := u.cells.drop (u.cells.length - w.cells.length) }

/-- Runs in an activation of its own and gives a failure the trace of it. -/
def activated (args : List Word) (trace : List String) (m : Sem α) : Sem α := fun w r w' =>
  ∃ r' u, m { w with args := args, cells := [] } r' u ∧
    r = r'.mapError (Failure.capture trace) ∧ w' = { u with args := w.args, cells := w.cells }

end Sem

/-- Where code runs: with which settings, under which limit on the depth of calls, below which lines of
a trace, in which routine and on which receiver. Commands have no scope. -/
structure Context where
  setting : Setting
  limit : Nat
  callers : List String
  routine : String
  self : Word
  scope : Option Layout.Scope

namespace Context

/-- The line of a trace for the running activation. -/
def line (ctx : Context) : String := Frame.shown ⟨ctx.routine, ctx.self, #[], #[]⟩

/-- The trace of the running activation, the innermost first. -/
def trace (ctx : Context) : List String := ctx.line :: ctx.callers

/-- The context of a routine that is called. -/
def enter (ctx : Context) (m : Method) (self : Word) : Context :=
  { ctx with
    callers := ctx.trace
    routine := m.qualified
    self := self
    scope := some (Layout.routineScope ctx.setting.table m.owner m.decl) }

def commands (table : ClassTable) (i : Interpreter) : Context :=
  ⟨⟨table, i.sink, i.tracing⟩, i.store.stack.limit, i.store.stack.trace, "", 0, none⟩

end Context

/-- The offset of the field that a name means in a scope. -/
def field? (scope : Layout.Scope) (name : String) : Option Int :=
  match scope.fields with
  | .ok hierarchy => Layout.fieldOffset? hierarchy name
  | .error _ => none

/-- The cells with another value in the most recent one of a name. -/
def setCell (name : String) (value : Word) : List (String × Word) → List (String × Word)
  | [] => []
  | cell :: older =>
    if cell.1 = name then (name, value) :: older else cell :: setCell name value older

def commandFrame : Frame := ⟨"", 0, #[], #[]⟩

/-- The value of a variable. Outside any routine the variable is tried as it is. -/
def read (ctx : Context) (w : World) (v : Var) : Except Fault Word :=
  match ctx.scope with
  | none => Machine.readVar ⟨w.heap, ⟨1, #[commandFrame]⟩, #[], #[]⟩ v
  | some scope =>
    match scope.params.idxOf? v.name with
    | some i => .ok (w.args.getD i 0)
    | none =>
      match w.cells.find? (·.1 == v.name) with
      | some cell => .ok cell.2
      | none =>
        match field? scope v.name with
        | some offset => w.heap.read ctx.self (Int32.ofInt offset)
        | none => .error (Machine.unplaced v)

/-- The world after an assignment to a variable of a scope. -/
def write (ctx : Context) (scope : Layout.Scope) (w : World) (v : Var) (value : Word) :
    Except Fault World :=
  match scope.params.idxOf? v.name with
  | some i => .ok { w with args := w.args.set i value }
  | none =>
    match w.cells.find? (·.1 == v.name) with
    | some _ => .ok { w with cells := setCell v.name value w.cells }
    | none =>
      match field? scope v.name with
      | some offset => do
        let place ← w.heap.place ctx.self (Int32.ofInt offset)
        return { w with heap := w.heap.store place value }
      | none => .error (Machine.unplaced v)

/-- What expressions, statements and loops mean, as far as it is known. -/
structure Meaning where
  expr : Context → Expr → Sem Word
  stmts : Context → List Stmt → Sem Unit
  loop : Context → Expr → Block → Sem Unit

/-- The meaning in which nothing has a result. -/
def Meaning.unknown : Meaning := ⟨fun _ _ => .none, fun _ _ => .none, fun _ _ _ => .none⟩

section Calls

variable (M : Meaning) (ctx : Context)

/-- Evaluates arguments from left to right. -/
def evalArgs : List Expr → Sem (List Word)
  | [] => pure []
  | e :: rest => do
    let v ← M.expr ctx e
    let vs ← evalArgs rest
    pure (v :: vs)

/-- The body of a routine and what it returns. -/
def runBody (m : Method) (wantsValue : Bool) : Sem Word := do
  M.stmts ctx m.decl.body
  match (if wantsValue then m.decl.returns.map (·.result) else none) with
  | none => pure 0
  | some result => M.expr ctx result

/-- Runs a routine in an activation of its own. -/
def invoke (m : Method) (self : Word) (args : List Word) (wantsValue : Bool) : Sem Word :=
  if m.decl.params.length ≠ args.length then
    .raise .unresolvedDispatch (m.qualified ++ " expects " ++ toString m.decl.params.length ++
      " arguments, got " ++ toString args.length)
  else if wantsValue && m.decl.returns.isNone then
    .raise .unresolvedDispatch ("procedure " ++ m.qualified ++ " does not produce a value")
  else if ctx.trace.length < ctx.limit then
    .activated args (ctx.enter m self).trace (runBody M (ctx.enter m self) m wantsValue)
  else .raise .stackOverflow ("call depth exceeded " ++ toString ctx.limit ++ " entering " ++
    m.qualified)

def callTop (name : String) (args : List Expr) (wantsValue : Bool) : Sem Word :=
  match findMethod? ctx.setting.table.top name with
  | none => .raise .unresolvedDispatch ("no top-level routine " ++ name)
  | some m => do
    let vs ← evalArgs M ctx args
    invoke M ctx m 0 vs wantsValue

def callOn (receiver : Expr) (name : String) (args : List Expr) (wantsValue : Bool) : Sem Word := do
  let ref ← M.expr ctx receiver
  if ref = 0 then
    .raise .nullReference ("attempting to call method " ++ name ++ " on an uninitialised object")
  else
    let w ← Sem.world
    let o ← Sem.ofExcept (w.heap.deref ref)
    let vs ← evalArgs M ctx args
    match ctx.setting.table.lookup? o.type name with
    | none => .raise .unresolvedDispatch ("class " ++ o.type ++ " has no method " ++ name)
    | some m => invoke M ctx m ref vs wantsValue

/-- Calls a routine of the top level, or a method if there is a receiver. -/
def call (receiver : Expr) (name : String) (args : List Expr) (wantsValue : Bool) : Sem Word :=
  match receiver with
  | .missing => callTop M ctx name args wantsValue
  | e => callOn M ctx e name args wantsValue

/-- Traces a constructed object, if asked. -/
def traceObject (className : String) (ref : Word) : Sem Word := do
  let w ← Sem.world
  if ctx.setting.tracing then
    match w.heap.deref ref with
    | .ok o => do
      Sem.put { w with traced := w.traced.push (Machine.traceLine className o) }
      pure ref
    | .error _ => pure ref
  else pure ref

def construct (className : String) (args : List Expr) : Sem Word :=
  match ctx.setting.table.fieldCount className with
  | .error cause => .raise .unresolvedDispatch cause.message
  | .ok count => do
    let w ← Sem.world
    let heap := w.heap.addInstance count className
    let ref := heap.lastAddress.toWord
    Sem.put { w with heap := heap }
    match ctx.setting.table.lookup? className className with
    | some m => do
      let vs ← evalArgs M ctx args
      let _ ← invoke M ctx m ref vs false
      traceObject ctx className ref
    | none =>
      if args.isEmpty then traceObject ctx className ref
      else .raise .unresolvedDispatch ("class " ++ className ++
        " has no constructor taking " ++ toString args.length ++ " arguments")

end Calls

section Code

variable (M : Meaning) (ctx : Context)

def eval : Expr → Sem Word
  | .missing => .fail (.plain "interpreter: missing expression")
  | .integer _ value => pure value
  | .truth _ value => pure (Word.ofBool value)
  | .var _ v => do
    let w ← Sem.world
    Sem.ofExcept (read ctx w v)
  | .self _ => pure ctx.self
  | .not _ operand => do
    let v ← M.expr ctx operand
    pure (Word.ofBool (v = 0))
  | .isNull _ operand => do
    let v ← M.expr ctx operand
    pure (Word.ofBool (v = 0))
  | .binary _ op left right => do
    let l ← M.expr ctx left
    let r ← M.expr ctx right
    Sem.ofExcept (Machine.apply op l r)
  | .index _ array index => do
    let ref ← M.expr ctx array
    let w ← Sem.world
    let _ ← Sem.ofExcept (w.heap.deref ref)
    let i ← M.expr ctx index
    let w ← Sem.world
    Sem.ofExcept (w.heap.read ref i)
  | .length _ array => do
    let ref ← M.expr ctx array
    let w ← Sem.world
    Sem.ofExcept ((w.heap.deref ref).map fun o => Int32.ofNat o.length)
  | .newArray _ elem length => do
    let n ← M.expr ctx length
    let w ← Sem.world
    let heap ← Sem.ofExcept (w.heap.addArray n elem.text)
    Sem.put { w with heap := heap }
    pure heap.lastAddress.toWord
  | .newObject _ className _ args => construct M ctx className args
  | .call _ receiver name _ args => call M ctx receiver name args true

/-- Prints a value, unless the sink refuses it. -/
def print (value : Word) : Sem Unit := do
  let w ← Sem.world
  match ctx.setting.sink with
  | .unlimited => Sem.put { w with printed := w.printed.push value }
  | .limited capacity complaint =>
    if w.printed.size < capacity then Sem.put { w with printed := w.printed.push value }
    else .fail (Failure.under "interpreter: write output" (.plain complaint))

/-- Executes a statement. Blocks, branches and the rounds of loops are scopes. -/
def exec : Stmt → Sem Unit
  | .missing => .fail (.plain "interpreter: missing statement")
  | .block b => .inScope (M.stmts ctx b.body)
  | .declare _ _ name => .declare name
  | .branch _ cond onTrue onFalse => do
    let v ← M.expr ctx cond
    Sem.inScope (M.stmts ctx (if v = 1 then onTrue.body else onFalse.body))
  | .loop _ cond body => M.loop ctx cond body
  | .output _ value => do
    let v ← M.expr ctx value
    print ctx v
  | .assign _ v value => do
    let x ← M.expr ctx value
    let w ← Sem.world
    match ctx.scope with
    | none => .fail (.fault (Machine.unplaced v))
    | some scope => do
      let w ← Sem.ofExcept (write ctx scope w v x)
      Sem.put w
  | .assignIndex _ array index value => do
    let ref ← M.expr ctx array
    let w ← Sem.world
    let _ ← Sem.ofExcept (w.heap.deref ref)
    let i ← M.expr ctx index
    let x ← M.expr ctx value
    let w ← Sem.world
    let place ← Sem.ofExcept (w.heap.place ref i)
    Sem.put { w with heap := w.heap.store place x }
  | .call _ receiver name _ args => do
    let _ ← call M ctx receiver name args false
    pure ()

/-- One more level of nesting. -/
def Meaning.next : Meaning where
  expr ctx e := .located e.span (eval M ctx e)
  stmts ctx
    | [] => pure ()
    | s :: rest => do
      Sem.located s.span (exec M ctx s)
      M.stmts ctx rest
  loop ctx cond body := do
    let v ← M.expr ctx cond
    if v = 1 then do
      Sem.inScope (M.stmts ctx body.body)
      M.loop ctx cond body
    else pure ()

def command : Command → Sem Unit
  | .call _ name _ args => do
    let _ ← callTop M ctx name args false
    pure ()
  | .eval _ e => do
    let v ← M.expr ctx e
    print ctx v

/-- Runs commands, up to the first that fails. -/
def commands : List Command → Sem Unit
  | [] => pure ()
  | c :: rest => do
    Sem.located c.span (command M ctx c)
    commands rest

end Code

/-- The approximations of the meaning of code. -/
def meaning : Nat → Meaning
  | 0 => .unknown
  | n + 1 => (meaning n).next

/-- What evaluating an expression outside any routine means. -/
def Evaluates (table : ClassTable) (i : Interpreter) (e : Expr) : Sem Word := fun w r w' =>
  ∃ n, (meaning n).expr (.commands table i) e w r w'

/-- What running commands means. The frame of the commands counts as well. -/
def Runs (table : ClassTable) (i : Interpreter) (cs : List Command) : Sem Unit := fun w r w' =>
  ∃ n, (if i.store.stack.depth < i.store.stack.limit then
      commands (meaning n) (.commands table i) cs
    else .raise .stackOverflow ("call depth exceeded " ++ toString i.store.stack.limit ++
      " entering ")) w r w'

end Lexical

end ObjectLang
