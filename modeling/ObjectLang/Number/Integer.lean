import ObjectLang.Text.Quoted

/-! Reading 64-bit integers. Digits are read from the left: the first character that is no digit of
the base makes the text invalid, and a value that leaves 64 bits before that makes it out of
range. -/

namespace ObjectLang.Number

/-- The least 64-bit integer. -/
def minInt64 : Int := -9223372036854775808

/-- The greatest 64-bit integer. -/
def maxInt64 : Int := 9223372036854775807

/-- Why a text is no 64-bit integer. -/
inductive IntegerError where
  | malformed (text : String)
  | outOfRange (text : String)
  deriving DecidableEq, Repr

def IntegerError.message : IntegerError → String
  | .malformed text => "strconv.ParseInt: parsing " ++ Text.quoted text ++ ": invalid syntax"
  | .outOfRange text => "strconv.ParseInt: parsing " ++ Text.quoted text ++ ": value out of range"

def digit? (base : Nat) (c : Char) : Option Nat :=
  let value :=
    if '0' ≤ c && c ≤ '9' then c.toNat - '0'.toNat
    else if 'a' ≤ c && c ≤ 'f' then c.toNat - 'a'.toNat + 10
    else if 'A' ≤ c && c ≤ 'F' then c.toNat - 'A'.toNat + 10
    else base
  if value < base then some value else none

/-- What reading digits from the left comes to. -/
inductive Magnitude where
  | value (n : Nat)
  | tooLarge
  | malformed
  deriving DecidableEq, Repr

/-- Reads digits onto a value, stopping at the first that is wrong or leaves 64 unsigned bits. -/
def readDigits (base : Nat) : Nat → List Char → Magnitude
  | n, [] => .value n
  | n, c :: cs =>
    match digit? base c with
    | none => .malformed
    | some d => if n * base + d < Nat.pow 2 64 then readDigits base (n * base + d) cs else .tooLarge

/-- Reads a magnitude, which needs a digit at least. -/
def readMagnitude (base : Nat) : List Char → Magnitude
  | [] => .malformed
  | cs => readDigits base 0 cs

/-- Splits a sign off the front: whether it was a minus, and the rest. -/
def splitSign : List Char → Bool × List Char
  | '-' :: cs => (true, cs)
  | '+' :: cs => (false, cs)
  | cs => (false, cs)

/-- Reads a signed 64-bit integer in plain decimal form. -/
def parseInt64 (text : String) : Except IntegerError Int :=
  let (negative, digits) := splitSign text.toList
  match readMagnitude 10 digits with
  | .malformed => .error (.malformed text)
  | .tooLarge => .error (.outOfRange text)
  | .value n =>
    let value : Int := if negative then -(n : Int) else n
    if minInt64 ≤ value && value ≤ maxInt64 then .ok value else .error (.outOfRange text)

end ObjectLang.Number
