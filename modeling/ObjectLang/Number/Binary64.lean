/-! Binary floating-point numbers of 64 bits, held exactly as a whole number times a power of two.
Reading a decimal rounds to the nearest such number, a tie to the even one; writing takes the fewest
digits that read back. -/

namespace ObjectLang.Number

/-- A 64-bit binary floating-point number; a finite one is `mantissa * 2 ^ exponent` with a sign. -/
inductive Binary64 where
  | finite (negative : Bool) (mantissa : Nat) (exponent : Int)
  | infinity (negative : Bool)
  | nan
  deriving DecidableEq, Repr

namespace Binary64

/-- The quotient rounded to the nearest whole number, a tie to the even one. -/
def roundQuotient (num den : Nat) : Nat :=
  let q := num / den
  let r := num % den
  if 2 * r < den then q
  else if den < 2 * r then q + 1
  else if q % 2 = 0 then q else q + 1

def leastExponent : Int := -1074

/-- The numerator and denominator of a fraction times a power of two. -/
def scaleByTwo (num den : Nat) (power : Int) : Nat × Nat :=
  match power with
  | .ofNat k => (num * Nat.pow 2 k, den)
  | .negSucc k => (num, den * Nat.pow 2 (k + 1))

/-- The number nearest to a fraction. The exponent is chosen so that the mantissa has 53 bits, or
fewer at the least exponent; rounding up to 54 bits moves on to the next exponent. -/
def ofFraction (negative : Bool) (num den : Nat) : Binary64 :=
  if num = 0 then .finite negative 0 0
  else
    let guess : Int := (Nat.log2 num : Int) - (Nat.log2 den : Int) - 52
    let (n, d) := scaleByTwo num den (-guess)
    let exact := if n < Nat.pow 2 52 * d then guess - 1 else guess
    let exponent := max exact leastExponent
    let (n, d) := scaleByTwo num den (-exponent)
    let m := roundQuotient n d
    let (m, exponent) := if m = Nat.pow 2 53 then (Nat.pow 2 52, exponent + 1) else (m, exponent)
    if exponent > 971 then .infinity negative else .finite negative m exponent

/-- The number nearest to `digits * 10 ^ power`. Decimals far beyond the greatest or below the least
number are settled by their count of digits. -/
def ofDecimal (negative : Bool) (digits : Nat) (power : Int) : Binary64 :=
  if digits = 0 then .finite negative 0 0
  else
    let length : Int := (Nat.toDigits 10 digits).length
    if power + length > 310 then .infinity negative
    else if power + length < -330 then .finite negative 0 0
    else match power with
      | .ofNat k => ofFraction negative (digits * Nat.pow 10 k) 1
      | .negSucc k => ofFraction negative digits (Nat.pow 10 (k + 1))

def digitsValue (cs : List Char) : Nat :=
  cs.foldl (fun n c => if c.isDigit then 10 * n + (c.toNat - '0'.toNat) else n) 0

/-- The number nearest to a written decimal with an optional sign, fraction and exponent. -/
def ofWritten (written : List Char) : Binary64 :=
  let isMark : Char → Bool := fun c => c = 'e' || c = 'E'
  let mantissa := written.takeWhile (fun c => !isMark c)
  let power := (written.dropWhile (fun c => !isMark c)).drop 1
  let fraction := (mantissa.dropWhile (· ≠ '.')).drop 1
  let exponent : Int := digitsValue power
  let exponent := if power.head? = some '-' then -exponent else exponent
  ofDecimal (mantissa.head? = some '-') (digitsValue mantissa) (exponent - fraction.length)

/-- Whether a number has no fractional part; the infinities count as whole, and no number is not. -/
def isWhole : Binary64 → Bool
  | .finite _ m e => 0 ≤ e || m % Nat.pow 2 (-e).toNat = 0
  | .infinity _ => true
  | .nan => false

def truncate? : Binary64 → Option Int
  | .finite negative m e =>
    let size := if 0 ≤ e then m * Nat.pow 2 e.toNat else m / Nat.pow 2 (-e).toNat
    some (if negative then -(size : Int) else size)
  | _ => none

/-- The fraction that a mantissa and an exponent stand for. -/
def fraction (m : Nat) (e : Int) : Nat × Nat := scaleByTwo m 1 e

/-- The power of ten of a fraction's first digit: the greatest `k` with `10 ^ k ≤ num / den`, looked
for downward from the start with as many tries as given. -/
def decimalExponent (num den : Nat) : Nat → Int → Int
  | 0, k => k
  | tries + 1, k =>
    let reached : Bool := match k with
      | .ofNat j => decide (den * Nat.pow 10 j ≤ num)
      | .negSucc j => decide (den ≤ num * Nat.pow 10 (j + 1))
    if reached then k else decimalExponent num den tries (k - 1)

/-- A fraction in units of a power of ten, as a fraction again. -/
def inUnits (num den : Nat) (power : Int) : Nat × Nat :=
  match power with
  | .ofNat k => (num, den * Nat.pow 10 k)
  | .negSucc k => (num * Nat.pow 10 (k + 1), den)

/-- The decimals of a given count of digits beside a positive fraction that read back as the number,
the nearer first. -/
def readingBack (m : Nat) (e : Int) (top : Int) (count : Nat) : List (Nat × Int) :=
  let power := top - (count : Int) + 1
  let (num, den) := fraction m e
  let (n, d) := inUnits num den power
  let low := n / d
  let near := if 2 * (n % d) ≤ d then [low, low + 1] else [low + 1, low]
  let back := near.filter fun digits => ofDecimal false digits power == ofFraction false num den
  back.map fun digits => (digits, power)

/-- The decimal of fewest digits that reads back as a positive number, the nearest of those, looked
for from the given count of digits with as many tries as given. -/
def shortestFrom (m : Nat) (e : Int) (top : Int) : Nat → Nat → Nat × Int
  | 0, _ => (0, 0)
  | tries + 1, count =>
    match readingBack m e top count with
    | found :: _ => found
    | [] => shortestFrom m e top tries (count + 1)

/-- The significant digits of a positive number and the power of ten of the first. -/
def shortestDigits (m : Nat) (e : Int) : List Char × Int :=
  let (num, den) := fraction m e
  let start : Int := (Nat.log2 num : Int) - (Nat.log2 den : Int) + 1
  let top := decimalExponent num den 700 (start * 30103 / 100000 + 1)
  let (digits, power) := shortestFrom m e top 17 1
  let shown := Nat.toDigits 10 digits
  let kept := (shown.reverse.dropWhile (· = '0')).reverse
  (kept, power + (shown.length : Int) - 1)

/-- An exponent is written with its sign and two digits at least. -/
def exponentText (k : Int) : String :=
  let digits := Nat.toDigits 10 k.natAbs
  (if k < 0 then "-" else "+") ++ String.ofList (List.replicate (2 - digits.length) '0' ++ digits)

/-- Significant digits in positional form from the power of ten of the first. -/
def positional (digits : List Char) (first : Int) : String :=
  if first < 0 then
    "0." ++ String.ofList (List.replicate ((-first).toNat - 1) '0' ++ digits)
  else
    let whole := first.toNat + 1
    let front := digits.take whole ++ List.replicate (whole - digits.length) '0'
    let back := digits.drop whole
    String.ofList front ++ (if back.isEmpty then "" else "." ++ String.ofList back)

/-- Significant digits in exponent form from the power of ten of the first. -/
def scientific (digits : List Char) (first : Int) : String :=
  let back := digits.drop 1
  String.ofList (digits.take 1) ++ (if back.isEmpty then "" else "." ++ String.ofList back)
    ++ "e" ++ exponentText first

/-- The text of a number: the fewest digits that read back, positional for first powers from -4 to
5 and in exponent form otherwise. -/
def text : Binary64 → String
  | .nan => "NaN"
  | .infinity negative => if negative then "-Inf" else "+Inf"
  | .finite negative m e =>
    let sign := if negative then "-" else ""
    if m = 0 then sign ++ "0"
    else
      let (digits, first) := shortestDigits m e
      sign ++ (if first < -4 || first ≥ 6 then scientific digits first else positional digits first)

end Binary64

end ObjectLang.Number
