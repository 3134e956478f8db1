import BlockCache.Json.Text

/-!
# Numbers of JSON

A number without fraction and exponent is an integer if it fits in a 64-bit word, or its
negative in a signed one. All other numbers are floating point: the leading digits that
fit in a word, as a float, multiplied or divided by a power of ten.

A number that is skipped is not computed, so it may be too large. If it breaks off, its
text is taken to be wrong, not to be unfinished.
-/

namespace BlockCache
namespace Json

inductive Number where
  | integer (n : Int)
  | real (x : Float)
deriving Repr

def Number.found : Number -> Found
  | .integer n => .integer n
  | .real x => .real x

def digitValue (c : Char) : Nat :=
  c.toNat - '0'.toNat

theorem length_dropWhile_isDigit_le (cs : List Char) :
    (cs.dropWhile Char.isDigit).length <= cs.length :=
  List.IsSuffix.length_le (List.dropWhile_suffix _)

def readDigits (cs : List Char) : List Char × Rest cs :=
  (cs.takeWhile Char.isDigit, ⟨cs.dropWhile Char.isDigit, length_dropWhile_isDigit_le cs⟩)

def digitsValue (digits : List Char) : Nat :=
  Nat.ofDigitChars 10 digits 0

/--
The number written by the digits of `value` and as many of `digits` after them as keep it
in a word, and how many of them these are.
-/
def appendFitting (value : Nat) : List Char -> Nat × Nat
  | [] => (value, 0)
  | c :: digits =>
      let next := value * 10 + digitValue c
      if next < UInt64.size then
        let (value, taken) := appendFitting next digits
        (value, taken + 1)
      else
        (value, 0)

def tenTo (n : Nat) : Float :=
  Float.ofScientific 1 false n

def maxTenTo : Nat := 308

def divideTenTo (x : Float) (n : Nat) : Float :=
  if n <= maxTenTo then
    x / tenTo n
  else if x == 0.0 then
    x
  else
    divideTenTo (x / tenTo maxTenTo) (n - maxTenTo)
termination_by n
decreasing_by
  simp only [maxTenTo] at *
  omega

/-- The float `significand * 10 ^ exponent`, unless it is too large to be one. -/
def scaled? (significand : Nat) (exponent : Int) : Option Float :=
  let x := Float.ofNat significand
  if exponent < 0 then
    some (divideTenTo x exponent.natAbs)
  else if exponent <= maxTenTo then
    let y := x * tenTo exponent.toNat
    if y.isInf then none else some y
  else if significand = 0 then
    some x
  else
    none

def readReal (negative : Bool) (significand : Nat) (exponent : Int) :
    Except Failure Number :=
  match scaled? significand exponent with
  | some x => .ok (.real (if negative then -x else x))
  | none => .error .malformed

/-- An exponent beyond this is not computed. -/
def maxExponent : Nat := 2147483647

def readSomeDigits (cs : List Char) : Except Failure (List Char × Rest cs) :=
  match readDigits cs with
  | ([], rest) => if rest.val.isEmpty then .error .unfinished else .error .malformed
  | (digits, rest) => .ok (digits, rest)

def readExponentSign : (cs : List Char) -> Bool × Rest cs
  | '+' :: cs => (false, (Rest.whole cs).cons '+')
  | '-' :: cs => (true, (Rest.whole cs).cons '-')
  | cs => (false, .whole cs)

def readExponent (negative : Bool) (significand : Nat) (exponent : Int) (cs : List Char) :
    Except Failure (Number × Rest cs) := do
  let (down, start) := readExponentSign cs
  let (digits, rest) <- readSomeDigits start.val
  let power := digitsValue digits
  let rest := start.next rest
  if maxExponent < power then
    if significand ≠ 0 ∧ ¬ down then
      .error .malformed
    else
      return (.real (if negative then -0.0 else 0.0), rest)
  else
    let exponent := if down then exponent - Int.ofNat power else exponent + Int.ofNat power
    return (<- readReal negative significand exponent, rest)

def readTail (negative : Bool) (significand : Nat) (exponent : Int) :
    (cs : List Char) -> Except Failure (Number × Rest cs)
  | 'e' :: cs | 'E' :: cs => do
      let (number, rest) <- readExponent negative significand exponent cs
      return (number, rest.cons _)
  | cs => do
      return (<- readReal negative significand exponent, .whole cs)

def readFraction (negative : Bool) (significand : Nat) (exponent : Int) (cs : List Char) :
    Except Failure (Number × Rest cs) := do
  let (digits, rest) <- readSomeDigits cs
  let (significand, taken) := appendFitting significand digits
  let (number, last) <- readTail negative significand (exponent - Int.ofNat taken) rest.val
  return (number, rest.next last)

def maxNegative : Nat := 9223372036854775808

def whole (negative : Bool) (digits : List Char) : Except Failure Number :=
  let n := digitsValue digits
  if negative then
    if 0 < n ∧ n <= maxNegative then
      .ok (.integer (-Int.ofNat n))
    else
      real
  else if n < UInt64.size then
    .ok (.integer (Int.ofNat n))
  else
    real
where
  real : Except Failure Number :=
    let (significand, taken) := appendFitting 0 digits
    readReal negative significand (Int.ofNat digits.length - Int.ofNat taken)

/-- Reads a number whose sign has been read. A zero leads only a number below one. -/
def readNumber (negative : Bool) (cs : List Char) : Except Failure (Number × Rest cs) := do
  let (digits, rest) <- readSomeDigits cs
  match digits with
  | '0' :: _ :: _ => .error .malformed
  | digits =>
      let (significand, taken) := appendFitting 0 digits
      let exponent := Int.ofNat digits.length - Int.ofNat taken
      match h : rest.val with
      | '.' :: cs =>
          let (number, last) <- readFraction negative significand exponent cs
          return (number, rest.nextBehind h last)
      | 'e' :: cs | 'E' :: cs =>
          let (number, last) <- readExponent negative significand exponent cs
          return (number, rest.nextBehind h last)
      | _ => return (<- whole negative digits, rest)

def skipSomeDigits (cs : List Char) : Except Failure (Rest cs) :=
  match readDigits cs with
  | ([], _) => .error .malformed
  | (_, rest) => .ok rest

def skipExponent : (cs : List Char) -> Except Failure (Rest cs)
  | 'e' :: cs | 'E' :: cs => do
      let (_, start) := readExponentSign cs
      let rest <- skipSomeDigits start.val
      return (start.next rest).cons _
  | cs => .ok (.whole cs)

def skipFraction : (cs : List Char) -> Except Failure (Rest cs)
  | '.' :: cs => do
      let rest <- skipSomeDigits cs
      return rest.cons '.'
  | cs => .ok (.whole cs)

def skipNumber (cs : List Char) : Except Failure (Rest cs) := do
  match readDigits cs with
  | ([], _) | ('0' :: _ :: _, _) => .error .malformed
  | (_, rest) =>
      let fraction <- skipFraction rest.val
      let last <- skipExponent fraction.val
      return rest.next (fraction.next last)

end Json
end BlockCache
