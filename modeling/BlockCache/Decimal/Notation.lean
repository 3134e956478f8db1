import BlockCache.Decimal.Shortest

/-!
# Text of floating point numbers

How floating point numbers are written in messages: with the fewest digits that read
back, positionally for middling magnitudes and with an exponent for the others.
-/

namespace BlockCache
namespace Decimal

def digitChars (n : Nat) : List Char :=
  Nat.toDigits 10 n

def magnitude (d : Decimal) : Int :=
  (digitChars d.digits).length - 1 + d.exponent

def positional (d : Decimal) : String :=
  let digits := digitChars d.digits
  let places := (-d.exponent).toNat
  let padded := List.replicate (places + 1 - digits.length) '0' ++ digits
    ++ List.replicate d.exponent.toNat '0'
  let whole := padded.take (padded.length - places)
  let fraction := padded.drop (padded.length - places)
  String.ofList whole ++ "." ++ (if fraction = [] then "0" else String.ofList fraction)

def scientific (d : Decimal) : String :=
  let digits := digitChars d.digits
  let fraction := digits.drop 1
  let sign := if d.magnitude < 0 then "-" else "+"
  String.ofList (digits.take 1)
    ++ (if fraction = [] then "" else "." ++ String.ofList fraction)
    ++ "e" ++ sign ++ toString d.magnitude.natAbs

/-- Positional for leading digits from the fifth place behind the point up to `10 ^ 15`. -/
def text (d : Decimal) : String :=
  if -5 <= d.magnitude ∧ d.magnitude <= 15 then d.positional else d.scientific

/-- The text of a finite floating point number; zero keeps its sign. -/
def floatText (x : Float) : String :=
  let sign := if x.toBits >>> 63 = 1 then "-" else ""
  let magnitude := Binary.ofFloat x
  sign ++ (if magnitude.significand = 0 then "0.0" else magnitude.shortest.text)

end Decimal
end BlockCache
