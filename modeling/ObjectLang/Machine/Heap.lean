import ObjectLang.Machine.Fault

/-! The heap: a growing row of objects. Addresses count from one, are never given twice and never
become invalid; zero is the null reference. An object keeps its kind, its type and its length. -/

namespace ObjectLang

/-- The one representation of values: integers, truth values and references. Arithmetic wraps at 32
bits. -/
abbrev Word := Int32

def Word.ofBool (b : Bool) : Word := if b then 1 else 0

abbrev Address := UInt32

def Address.toWord (a : Address) : Word := a.toInt32

def Address.text (a : Address) : String := "@" ++ toString a.toNat

/-- The two kinds of objects. -/
inductive ObjectKind where
  | classInstance
  | array
  deriving DecidableEq, Repr

/-- The name of the object kind with a given number. -/
def ObjectKind.nameOfCode : Int → String
  | 0 => "instance"
  | 1 => "array"
  | n => "unknown_kind_" ++ toString n

def ObjectKind.name : ObjectKind → String
  | .classInstance => nameOfCode 0
  | .array => nameOfCode 1

/-- An object: the fields of an instance of a class, or the elements of an array of a type. -/
structure HeapObject where
  kind : ObjectKind
  type : String
  elements : Array Word
  deriving DecidableEq, Repr

namespace HeapObject

def zeroed (kind : ObjectKind) (type : String) (length : Nat) : HeapObject :=
  ⟨kind, type, Array.replicate length 0⟩

def length (o : HeapObject) : Nat := o.elements.size

def shownType (o : HeapObject) : String :=
  match o.kind with
  | .classInstance => o.type
  | .array => o.type ++ "[]"

def position (o : HeapObject) (index : Word) : Except Fault Nat :=
  if 0 ≤ index.toInt && index.toInt < (o.length : Int) then .ok index.toInt.toNat
  else .error (.raise .indexOutOfRange ("index " ++ toString index.toInt ++ " out of range for " ++
    o.shownType ++ " of length " ++ toString o.length))

def read (o : HeapObject) (index : Word) : Except Fault Word :=
  (o.position index).map fun i => o.elements.getD i 0

def store (i : Nat) (value : Word) (o : HeapObject) : HeapObject :=
  { o with elements := o.elements.setIfInBounds i value }

end HeapObject

/-- The objects allocated so far; the object at address `a` stands at index `a - 1`. -/
structure Heap where
  objects : Array HeapObject
  deriving DecidableEq, Repr

namespace Heap

def empty : Heap := ⟨#[]⟩

def size (h : Heap) : Nat := h.objects.size

def add (h : Heap) (o : HeapObject) : Heap := ⟨h.objects.push o⟩

def lastAddress (h : Heap) : Address := UInt32.ofNat h.size

/-- Allocates an instance of a class with zeroed fields. A negative count is none. -/
def addInstance (h : Heap) (fieldCount : Int) (className : String) : Heap :=
  h.add (.zeroed .classInstance className fieldCount.toNat)

/-- Allocates an array with zeroed elements. -/
def addArray (h : Heap) (length : Word) (elem : String) : Except Fault Heap :=
  if length.toInt < 0 then
    .error (.raise .negativeArrayLength ("cannot create " ++ elem ++ " array of length " ++
      toString length.toInt))
  else .ok (h.add (.zeroed .array elem length.toInt.toNat))

def index (h : Heap) (ref : Word) : Except Fault Nat :=
  if ref = 0 then .error (.raise .nullReference "dereference of null")
  else if ref.toInt < 0 || (h.size : Int) < ref.toInt then
    .error (.raise .invalidAddress ("address " ++ toString ref.toInt ++ " was never allocated"))
  else .ok (ref.toInt.toNat - 1)

/-- The object that a reference means. -/
def deref (h : Heap) (ref : Word) : Except Fault HeapObject :=
  (h.index ref).map fun i => h.objects.getD i (.zeroed .classInstance "" 0)

def read (h : Heap) (ref index : Word) : Except Fault Word := do
  let o ← h.deref ref
  o.read index

/-- The object and the position in it that a reference and an index mean. -/
def place (h : Heap) (ref index : Word) : Except Fault (Nat × Nat) := do
  let i ← h.index ref
  let o ← h.deref ref
  let j ← o.position index
  return (i, j)

def store (h : Heap) (place : Nat × Nat) (value : Word) : Heap :=
  ⟨h.objects.modify place.1 (HeapObject.store place.2 value)⟩

def write (h : Heap) (ref index value : Word) : Except Fault Heap :=
  (h.place ref index).map fun place => h.store place value

end Heap

end ObjectLang
