/-!
# Shortest decimals of floating point numbers

The decimal with the fewest digits that reads back as a given floating point number, and
of those the nearest to it; of two that are equally near, the one with the even last
digit. All of it is exact arithmetic on natural numbers: a finite number is `m * 2 ^ q`,
and the reals that read back as it lie between the midpoints to its neighbours.
-/

namespace BlockCache

/-- The number `digits * 10 ^ exponent`. -/
structure Decimal where
  digits : Nat
  exponent : Int
deriving DecidableEq, Repr

/-- The finite number `significand * 2 ^ exponent`. -/
structure Binary where
  significand : Nat
  exponent : Int
deriving DecidableEq, Repr

namespace Binary

def hiddenBit : Nat := 4503599627370496

def ofFloat (x : Float) : Binary :=
  let bits := x.toBits.toNat
  let biased := bits / hiddenBit % 2048
  let fraction := bits % hiddenBit
  if biased = 0 then
    ⟨fraction, -1074⟩
  else
    ⟨fraction + hiddenBit, Int.ofNat biased - 1075⟩

def compareScaled (n : Nat) (p : Int) (d : Nat) (k : Int) : Ordering :=
  compare (n * Nat.pow 2 p.toNat * Nat.pow 10 (-k).toNat)
    (d * Nat.pow 10 k.toNat * Nat.pow 2 (-p).toNat)

/-- Four times the midpoint to the number below, which is nearer at a power of two. -/
def lowerBound (x : Binary) : Nat :=
  if x.significand = hiddenBit ∧ -1074 < x.exponent then
    4 * x.significand - 1
  else
    4 * x.significand - 2

def upperBound (x : Binary) : Nat :=
  4 * x.significand + 2

/-- Whether `d * 10 ^ k` reads back as `x`; a midpoint goes to the even significand. -/
def readsBack (x : Binary) (d : Nat) (k : Int) : Bool :=
  let lower := compareScaled x.lowerBound (x.exponent - 2) d k
  let upper := compareScaled x.upperBound (x.exponent - 2) d k
  if x.significand % 2 = 0 then
    lower ≠ .gt && upper ≠ .lt
  else
    lower = .lt && upper = .gt

/-- The last multiple of `10 ^ k` that is not above `x`, divided by `10 ^ k`. -/
def floorAt (x : Binary) (k : Int) : Nat :=
  (x.significand * Nat.pow 2 x.exponent.toNat * Nat.pow 10 (-k).toNat)
    / (Nat.pow 10 k.toNat * Nat.pow 2 (-x.exponent).toNat)

def nearer (x : Binary) (d : Nat) (k : Int) : Nat :=
  match compareScaled (2 * x.significand) x.exponent (2 * d + 1) k with
  | .lt => d
  | .gt => d + 1
  | .eq => if d % 2 = 0 then d else d + 1

def onGrid? (x : Binary) (k : Int) : Option Decimal :=
  let d := x.floorAt k
  match x.readsBack d k, x.readsBack (d + 1) k with
  | true, true => some ⟨x.nearer d k, k⟩
  | true, false => some ⟨d, k⟩
  | false, true => some ⟨d + 1, k⟩
  | false, false => none

def grids : List Int :=
  (List.range 650).map fun i => 310 - Int.ofNat i

def shortest (x : Binary) : Decimal :=
  (grids.findSome? x.onGrid?).getD ⟨0, 0⟩

end Binary
end BlockCache
