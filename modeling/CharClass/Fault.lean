import CharClass.Value

/-!
# What can go wrong

Every operation on sets of characters fails with a `Fault`: the cause, and what is needed to
report it. Its wording and its category are read off the cause.
-/

namespace CharClass

/-- The causes of failure. -/
inductive Fault where
  /-- This item was offered as a single character and is none. -/
  | notCharacter (item : Value)
  /-- A text or a sequence of octets of this length has no code point, since it is not of length
  one. -/
  | wrongLength (length : Nat)
  /-- No value of this kind has a code point. -/
  | noCodePoint (kind : Value.Kind)
  /-- A number outside the domain of code points was to be spelled. -/
  | outsideDomain
  /-- A number outside the signed 32-bit range was to be spelled. -/
  | outsideWord
  /-- The points lie too far apart for a table with one mark for each number between them. -/
  | spanTooWide
  /-- The first of no members was asked for. -/
  | noMembers
  /-- The only member was asked for, and there is not exactly one. -/
  | notSole

namespace Fault

inductive Category where
  | invalidArgument | type | value | overflow | index | assertion
  deriving DecidableEq

def category : Fault → Category
  | notCharacter _ => .invalidArgument
  | wrongLength _ => .type
  | noCodePoint _ => .type
  | outsideDomain => .value
  | outsideWord => .overflow
  | spanTooWide => .overflow
  | noMembers => .index
  | notSole => .assertion

/-- What is said about an item that is no character, whatever the item. -/
def characterExpected : String :=
  "Expected a single character (a one-character string or a code point)."

def message : Fault → String
  | notCharacter _ => characterExpected
  | wrongLength length =>
    "ord() expected a character, but string of length " ++ toString length ++ " found"
  | noCodePoint kind => "ord() expected string of length 1, but " ++ kind.name ++ " found"
  | outsideDomain => "chr() arg not in range(0x110000)"
  | outsideWord => "Python int too large to convert to C int"
  | spanTooWide => "cannot fit 'int' into an index-sized integer"
  | noMembers => "tuple index out of range"
  | notSole => ""

end Fault

end CharClass
