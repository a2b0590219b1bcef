/-!
# Code points and texts

A text is a list of code points. Every number up to `0x10FFFF` is a code point here, surrogates
included: a bracket expression may hold a lone surrogate, which no `Char` can stand for.

## Main definitions

* `CodePoint`, `Text`: the alphabet of patterns, and what they are written in
* `CodePoint.closeBracket`, `CodePoint.caret`, `CodePoint.dash`: the three that act by their place
  inside a bracket expression
* `CodePoint.escaped`, `CodePoint.bracketed`: the spelling of a code point outside a bracket
  expression, and inside one
-/

namespace CharClass

/-- A number from `0` to `0x10FFFF`. -/
abbrev CodePoint := Fin 0x110000

abbrev Text := List CodePoint

namespace CodePoint

def ofChar (c : Char) : CodePoint :=
  ⟨c.toNat, by
    rcases c.valid with h | h
    · exact Nat.lt_trans h (by decide)
    · exact h.2⟩

def greatest : Nat := 0x10FFFF

/-- `[` opens a bracket expression. -/
def openBracket : CodePoint := 0x5B

/-- A backslash makes the next code point literal. -/
def backslash : CodePoint := 0x5C

/-- `]` closes a bracket expression, unless it comes first. -/
def closeBracket : CodePoint := 0x5D

/-- `^` inverts a bracket expression when it comes first. -/
def caret : CodePoint := 0x5E

/-- `-` forms a range when it stands between two members. -/
def dash : CodePoint := 0x2D

end CodePoint

def Text.ofString (s : String) : Text :=
  s.toList.map CodePoint.ofChar

namespace CodePoint

/-- What a pattern reads as something other than itself outside a bracket expression: its
operators, and the blanks and `#` that verbose patterns skip. -/
def operators : Text :=
  Text.ofString "()[]\x7b\x7d?*+-|^$\\.&~# \t\n\r\x0b\x0c"

/-- The spelling outside a bracket expression: an operator follows a backslash. -/
def escaped (c : CodePoint) : Text :=
  if c ∈ operators then [backslash, c] else [c]

/-- The spelling inside a bracket expression: only `[` and the backslash need a backslash. The
close bracket, the caret and the dash are literal by their place, which whoever assembles the
expression must see to. -/
def bracketed (c : CodePoint) : Text :=
  if c = openBracket ∨ c = backslash then [backslash, c] else [c]

end CodePoint

/-- The pattern that matches any one character, line ends included. -/
def anyCharacter : Text :=
  Text.ofString "(?:.|\\n)"

end CharClass
