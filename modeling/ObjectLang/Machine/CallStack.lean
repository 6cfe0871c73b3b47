import ObjectLang.Layout
import ObjectLang.Machine.Heap

/-! The call stack: a frame for every routine that is running, with the receiver, the arguments and
zeroed locals at the offsets that layout chose. The stack has a limit, and reaching beyond the limit
or beyond a frame is a fault. -/

namespace ObjectLang

/-- The activation of a routine. -/
structure Frame where
  routine : String
  self : Word
  params : Array Word
  locals : Array Word
  deriving DecidableEq, Repr

/-- The parts of a frame that offsets mean. -/
inductive FramePlace where
  | self
  | param (index : Nat)
  | local (index : Nat)
  deriving DecidableEq, Repr

namespace Frame

/-- The name of a frame; the frame of the commands has none of its own. -/
def label (f : Frame) : String := if f.routine = "" then "<root>" else f.routine

/-- The frame as a line of a trace. -/
def shown (f : Frame) : String := f.label ++ " (self=" ++ toString f.self.toInt ++ ")"

def place? (f : Frame) (offset : Int) : Option FramePlace :=
  if offset = Layout.selfOffset then some .self
  else if offset ≤ Layout.paramOffset 0 then
    let i := (Layout.paramOffset 0 - offset).toNat
    if i < f.params.size then some (.param i) else none
  else if Layout.localOffset 0 ≤ offset then
    let j := (offset - Layout.localOffset 0).toNat
    if j < f.locals.size then some (.local j) else none
  else none

def place (f : Frame) (offset : Int) : Except Fault FramePlace :=
  match f.place? offset with
  | some p => .ok p
  | none => .error (.raise .frameOffset ("offset " ++ toString offset ++ " outside frame of " ++
      f.label ++ " (" ++ toString f.params.size ++ " params, " ++ toString f.locals.size ++
      " locals)"))

def load (f : Frame) : FramePlace → Word
  | .self => f.self
  | .param i => f.params.getD i 0
  | .local j => f.locals.getD j 0

def store (value : Word) (place : FramePlace) (f : Frame) : Frame :=
  match place with
  | .self => { f with self := value }
  | .param i => { f with params := f.params.setIfInBounds i value }
  | .local j => { f with locals := f.locals.setIfInBounds j value }

end Frame

/-- The frames that are live, the innermost last, and how many there may be. -/
structure CallStack where
  limit : Nat
  frames : Array Frame
  deriving DecidableEq, Repr

namespace CallStack

/-- How many frames there may be when nothing else is asked for. -/
def defaultLimit : Nat := 10000

/-- The empty stack with a limit; one that is not positive means the default. -/
def empty (limit : Int) : CallStack := ⟨if limit ≤ 0 then defaultLimit else limit.toNat, #[]⟩

def depth (s : CallStack) : Nat := s.frames.size

/-- Adds a frame with zeroed locals; a negative number of slots is none. -/
def push (s : CallStack) (routine : String) (self : Word) (params : List Word) (slots : Int) :
    Except Fault CallStack :=
  if s.depth < s.limit then
    .ok { s with frames :=
      s.frames.push ⟨routine, self, params.toArray, Array.replicate slots.toNat 0⟩ }
  else .error (.raise .stackOverflow ("call depth exceeded " ++ toString s.limit ++ " entering " ++
    routine))

/-- Drops the innermost frame. -/
def pop (s : CallStack) : CallStack := { s with frames := s.frames.pop }

def top? (s : CallStack) : Option Frame := s.frames.back?

def read (s : CallStack) (offset : Int) : Except Fault Word :=
  match s.top? with
  | none => .error (.raise .frameOffset ("read of offset " ++ toString offset ++
      " with no active frame"))
  | some f => (f.place offset).map f.load

/-- The part of the innermost frame that an offset means, for writing. -/
def place (s : CallStack) (offset : Int) : Except Fault FramePlace :=
  match s.top? with
  | none => .error (.raise .frameOffset ("write of offset " ++ toString offset ++
      " with no active frame"))
  | some f => f.place offset

def store (s : CallStack) (place : FramePlace) (value : Word) : CallStack :=
  { s with frames := s.frames.modify (s.frames.size - 1) (Frame.store value place) }

/-- Writes a value at an offset of the innermost frame. -/
def write (s : CallStack) (offset : Int) (value : Word) : Except Fault CallStack :=
  (s.place offset).map fun place => s.store place value

/-- The live frames as lines, the innermost first. -/
def trace (s : CallStack) : List String := s.frames.toList.reverse.map Frame.shown

end CallStack

end ObjectLang
