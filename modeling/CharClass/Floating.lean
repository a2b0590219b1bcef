/-!
# Floating-point values

A floating-point value is held by what it stands for: a dyadic rational, an infinity, or nothing
that compares. Comparing it with a whole number is then exact.

## Main definitions

* `Floating`: the values
* `Number`, `Floating.number`: what numeric equality looks at
* `Floating.ofBits`: the value of a 64-bit pattern
-/

namespace CharClass

/-- A floating-point value. Negative zero equals zero and is still written with its sign. A
not-a-number carries a mark, since two of them are equal only if they are one and the same. -/
inductive Floating where
  | nan (mark : Nat)
  | infinite (negative : Bool)
  | negativeZero
  | finite (x : Dyadic)
  deriving DecidableEq

/-- What numeric equality looks at, for whole numbers, truth values and floating-point values
alike. -/
inductive Number where
  | nan (mark : Nat)
  | infinite (negative : Bool)
  | finite (x : Dyadic)
  deriving DecidableEq

/-- The number that a whole number stands for. -/
def Number.ofInt (n : Int) : Number :=
  .finite (Dyadic.ofInt n)

namespace Floating

/-- The number that a floating-point value stands for. -/
def number : Floating → Number
  | nan mark => .nan mark
  | infinite negative => .infinite negative
  | negativeZero => .finite 0
  | finite x => .finite x

/-- The leading bit of a 53-bit significand, which a pattern leaves out. -/
def hiddenBit : Nat := 0x10000000000000

/-- The value of a 64-bit pattern: a sign, eleven bits of exponent and 52 of significand. A
not-a-number takes the given mark. -/
def ofBits (mark : Nat) (bits : UInt64) : Floating :=
  let negative := bits.toNat >>> 63 == 1
  let exponent : Nat := (bits.toNat >>> 52) % 0x800
  let fraction : Nat := bits.toNat % hiddenBit
  if exponent = 0x7FF then
    if fraction = 0 then infinite negative else nan mark
  else
    let significand : Nat := if exponent = 0 then fraction else hiddenBit + fraction
    let precision : Int := 1075 - (max exponent 1 : Nat)
    if negative then
      if significand = 0 then negativeZero
      else finite (Dyadic.ofIntWithPrec (-significand) precision)
    else finite (Dyadic.ofIntWithPrec significand precision)

end Floating

end CharClass
