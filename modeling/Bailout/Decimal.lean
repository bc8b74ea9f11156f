/-!
# Decimal texts of doubles

A binary64 value as sign, significand and binary exponent, and the decimal with the fewest digits that
reads back to it. All arithmetic is on natural numbers.
-/

namespace Bailout

namespace Decimal

/-- What the 64 bits of a double stand for. A finite value is `mantissa * 2 ^ exponent`. -/
inductive Binary64 where
  | nan
  | infinite (negative : Bool)
  | finite (negative : Bool) (mantissa : Nat) (exponent : Int)
deriving DecidableEq, Repr

/-- The least binary exponent of a finite value. -/
def Binary64.minExponent : Int := -1074

/-- The bit that a normal significand has above its fraction. -/
def Binary64.hiddenBit : Nat := 0x10000000000000

def Binary64.ofBits (bits : UInt64) : Binary64 :=
  let n := bits.toNat
  let negative := decide (0x8000000000000000 ≤ n)
  let field : Nat := n / hiddenBit % 2048
  let fraction := n % hiddenBit
  if field = 2047 then
    if fraction = 0 then .infinite negative else .nan
  else if field = 0 then .finite negative fraction minExponent
  else .finite negative (hiddenBit + fraction) (minExponent + (field - 1 : Nat))

/-- A decimal `digits * 10 ^ exponent`. -/
structure Scientific where
  digits : Nat
  exponent : Int
deriving DecidableEq, Repr

/-- A positive rational, as numerator and denominator. -/
structure Ratio where
  num : Nat
  den : Nat

namespace Ratio

/-- `n * b ^ e`. -/
def scale (n b : Nat) (e : Int) : Ratio :=
  if 0 ≤ e then ⟨n * Nat.pow b e.toNat, 1⟩ else ⟨n, Nat.pow b (-e).toNat⟩

def le (p q : Ratio) : Bool := p.num * q.den ≤ q.num * p.den

def lt (p q : Ratio) : Bool := p.num * q.den < q.num * p.den

/-- The greatest natural number whose `unit`-fold is at most `p`. -/
def floorDiv (p unit : Ratio) : Nat := p.num * unit.den / (p.den * unit.num)

end Ratio

/-- The reals that round to a value, as multiples of a quarter of its last binary place. The ends belong
to the interval when the significand is even. -/
structure Interval where
  low : Ratio
  value : Ratio
  high : Ratio
  closed : Bool

/-- The gap below a power of two is half the gap above it, except at the least exponent. -/
def Interval.around (mantissa : Nat) (exponent : Int) : Interval :=
  let below := if mantissa = Binary64.hiddenBit ∧ exponent ≠ Binary64.minExponent then 1 else 2
  { low := .scale (4 * mantissa - below) 2 (exponent - 2)
    value := .scale (4 * mantissa) 2 (exponent - 2)
    high := .scale (4 * mantissa + 2) 2 (exponent - 2)
    closed := mantissa % 2 == 0 }

def Interval.contains (i : Interval) (p : Ratio) : Bool :=
  if i.closed then i.low.le p && p.le i.high else i.low.lt p && p.lt i.high

/-- The decimal exponent of the leading digit of `p`, searched upward from `guess`. -/
def leadingExponent (p : Ratio) (guess : Int) : Nat → Int
  | 0 => guess
  | n + 1 => if (Ratio.scale 1 10 (guess + 1)).le p then leadingExponent p (guess + 1) n else guess

/-- The points next to the value on the grid of multiples of `10 ^ unit` that lie in the interval: the
nearer one if both do, and the upper one if both are equally near. -/
def Interval.onGrid (i : Interval) (unit : Int) : Option Nat :=
  let below := i.value.floorDiv (.scale 1 10 unit)
  let lower := Ratio.scale below 10 unit
  let upper := Ratio.scale (below + 1) 10 unit
  match i.contains lower, i.contains upper with
  | false, false => none
  | true, false => some below
  | false, true => some (below + 1)
  | true, true =>
    -- twice the value against the sum of its neighbours
    let twice : Ratio := ⟨2 * i.value.num, i.value.den⟩
    if twice.lt (.scale (2 * below + 1) 10 unit) then some below else some (below + 1)

/-- Tries `n + 1` digits, then one more, up to `fuel` times. -/
def Interval.search (i : Interval) (leading : Int) : Nat → Nat → Scientific
  | n, 0 => ⟨i.value.floorDiv (.scale 1 10 (leading - n)), leading - n⟩
  | n, fuel + 1 =>
    match i.onGrid (leading - n) with
    | some d => ⟨d, leading - n⟩
    | none => i.search leading (n + 1) fuel

/-- Moves trailing zeros into the exponent. -/
def Scientific.normalise (s : Scientific) : Scientific :=
  if h : s.digits ≠ 0 ∧ s.digits % 10 = 0 then
    normalise ⟨s.digits / 10, s.exponent + 1⟩
  else s
termination_by s.digits
decreasing_by exact Nat.div_lt_self (Nat.pos_of_ne_zero h.1) (by decide)

/-- The decimal with the fewest digits that rounds to `mantissa * 2 ^ exponent`; seventeen always
suffice. Of several, the nearest. -/
def shortest (mantissa : Nat) (exponent : Int) : Scientific :=
  if mantissa = 0 then ⟨0, 0⟩
  else
    let i := Interval.around mantissa exponent
    let leading := leadingExponent i.value (-330) 700
    (i.search leading 0 17).normalise

/-! ## Positional notation

No exponent, no fraction on whole values, a sign on negative zero.
-/

/-- Writes `digits * 10 ^ exponent` without an exponent. -/
def Scientific.positional (s : Scientific) : String :=
  let digits := Nat.repr s.digits
  if 0 ≤ s.exponent then digits ++ String.ofList (List.replicate s.exponent.toNat '0')
  else
    let places := (-s.exponent).toNat
    let padded := List.replicate (places + 1 - digits.length) '0' ++ digits.toList
    let whole := padded.length - places
    String.ofList (padded.take whole ++ '.' :: padded.drop whole)

/-- The text of the double with these bits. -/
def text (bits : UInt64) : String :=
  match Binary64.ofBits bits with
  | .nan => "NaN"
  | .infinite negative => if negative then "-inf" else "inf"
  | .finite negative mantissa exponent =>
    (if negative then "-" else "") ++ (shortest mantissa exponent).positional

end Decimal

end Bailout
