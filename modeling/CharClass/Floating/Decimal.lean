import CharClass.Floating

/-!
# The decimal text of a floating-point value

A value is written with the fewest digits that read back to it, and of those with the digits
nearest to it. The notation is positional from `1e-4` up to, but not including, `1e16`, and
scientific elsewhere. Reading takes the nearest value, a tie going to the even significand.

## Main definitions

* `Binary`: a positive value on the grid of 64-bit values
* `Binary.shortest`: its digits and their scale
* `Floating.toDecimal`, `Floating.ofDecimal?`: writing and reading
-/

namespace CharClass

/-- A positive value `significand * 2 ^ exponent`, on the grid of 64-bit values around it. -/
structure Binary where
  significand : Nat
  exponent : Int

namespace Binary

/-- The exponent of the smallest step between 64-bit values. -/
def leastExponent : Int := -1074

/-- The value `magnitude * 2 ^ scale` with a significand of 53 bits, or fewer at the bottom of the
range. -/
def ofMagnitude (magnitude : Nat) (scale : Int) : Binary :=
  let exponent := max (scale + magnitude.log2 - 52) leastExponent
  ⟨(magnitude <<< (scale - exponent).toNat) >>> (exponent - scale).toNat, exponent⟩

/-- Three points as numerators over one denominator: the value, and the two ends of the interval
of numbers that read back to it. -/
structure Interval where
  low : Nat
  value : Nat
  high : Nat
  denominator : Nat
  closed : Bool

/-- Half a step on each side reads back to the value, only a quarter below a power of two. The
ends belong to it if its significand is even. -/
def interval (b : Binary) : Interval :=
  let below := if b.significand = Floating.hiddenBit ∧ leastExponent < b.exponent then 1 else 2
  let unit := 1 <<< (b.exponent - 2).toNat
  { low := (4 * b.significand - below) * unit
    value := 4 * b.significand * unit
    high := (4 * b.significand + 2) * unit
    denominator := 1 <<< (2 - b.exponent).toNat
    closed := b.significand % 2 == 0 }

def digitCount (n : Nat) : Nat :=
  (Nat.toDigits 10 n).length

/-- The power of ten of the first digit of `numerator / denominator`. -/
def leadingPower (numerator denominator : Nat) : Int :=
  if denominator ≤ numerator then digitCount (numerator / denominator) - 1
  else -(digitCount ((denominator - 1) / numerator))

/-- The multiple of `10 ^ power` nearest to the value, among those that read back to it. Of two
that are equally near, the even multiple is taken. -/
def nearest? (i : Interval) (power : Int) : Option Nat :=
  let widen := Nat.pow 10 (-power).toNat
  let step := i.denominator * Nat.pow 10 power.toNat
  let inside (n : Nat) : Bool :=
    if i.closed then i.low * widen ≤ n * step && n * step ≤ i.high * widen
    else i.low * widen < n * step && n * step < i.high * widen
  let below := i.value * widen / step
  let above := below + 1
  let toBelow := i.value * widen - below * step
  let toAbove := above * step - i.value * widen
  match inside below, inside above with
  | true, true =>
    if toBelow < toAbove ∨ toBelow = toAbove ∧ below % 2 = 0 then some below else some above
  | true, false => some below
  | false, true => some above
  | false, false => none

/-- The fewest digits that read back to the value, and the power of ten of the last of them.
Seventeen digits always do. -/
def shortest (b : Binary) : Nat × Int :=
  let i := b.interval
  let leading := leadingPower i.value i.denominator
  let found := (List.range 17).findSome? fun count : Nat =>
    (nearest? i (leading - count)).map fun n => (n, leading - count)
  found.getD (0, 0)

end Binary

namespace Floating

/-- An exponent has a sign and at least two digits. -/
def exponentText (power : Int) : List Char :=
  let digits := Nat.toDigits 10 power.natAbs
  'e' :: (if power < 0 then '-' else '+') :: (if digits.length < 2 then '0' :: digits else digits)

/-- The layout of `digits`, the first of which stands for `10 ^ power`. -/
def layout (digits : List Char) (power : Int) : List Char :=
  if -4 ≤ power ∧ power < 16 then
    if power < 0 then
      '0' :: '.' :: List.replicate (-power - 1).toNat '0' ++ digits
    else
      let whole := power.toNat + 1
      let padded := digits ++ List.replicate (whole + 1 - digits.length) '0'
      padded.take whole ++ '.' :: padded.drop whole
  else
    match digits with
    | [] => []
    | [d] => d :: exponentText power
    | d :: ds => d :: '.' :: ds ++ exponentText power

/-- The text of the positive value `magnitude * 2 ^ scale`. -/
def magnitudeText (magnitude : Nat) (scale : Int) : List Char :=
  let (n, power) := (Binary.ofMagnitude magnitude scale).shortest
  let digits := Nat.toDigits 10 n
  let significant := (digits.reverse.dropWhile (· == '0')).reverse
  layout significant (power + digits.length - 1)

def toDecimal : Floating → String
  | nan _ => "nan"
  | infinite negative => if negative then "-inf" else "inf"
  | negativeZero => "-0.0"
  | finite .zero => "0.0"
  | finite (.ofOdd n precision _) =>
    let text := magnitudeText n.natAbs (-precision)
    String.ofList (if n < 0 then '-' :: text else text)

def digitsValue (digits : List Char) : Nat :=
  digits.foldl (fun n c => 10 * n + (c.toNat - '0'.toNat)) 0

/-- The power of ten that an exponent part stands for; no part stands for `0`. -/
def exponentValue? : List Char → Option Int
  | [] => some 0
  | 'e' :: '-' :: digits => some (-(digitsValue digits))
  | 'e' :: '+' :: digits => some (digitsValue digits)
  | 'e' :: digits => some (digitsValue digits)
  | _ => none

/-- The value that a decimal text stands for. A not-a-number takes the given mark. -/
def ofDecimal? (mark : Nat) (text : String) : Option Floating :=
  let (negative, body) := match text.toList with
    | '-' :: rest => (true, rest)
    | rest => (false, rest)
  if body = ['n', 'a', 'n'] then some (nan mark)
  else if body = ['i', 'n', 'f'] then some (infinite negative)
  else
    let whole := body.takeWhile Char.isDigit
    let (fraction, rest) := match body.dropWhile Char.isDigit with
      | '.' :: more => (more.takeWhile Char.isDigit, more.dropWhile Char.isDigit)
      | more => ([], more)
    (exponentValue? rest).map fun exponent : Int =>
      let power : Int := exponent - fraction.length
      let magnitude := Float.ofScientific (digitsValue (whole ++ fraction)) (power < 0) power.natAbs
      ofBits mark (magnitude.toBits ||| (if negative then 0x8000000000000000 else 0))

end Floating

end CharClass
