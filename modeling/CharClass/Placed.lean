import CharClass.CodePoint

/-!
# The three that act by their place

Inside a bracket expression `]`, `^` and `-` need no backslash if they stand in the right place:
`]` in front of everything, `^` anywhere but in front, and `-` at either end. So they are kept
apart from the other members, and `Placed.enclose` puts each in its place.

## Main definitions

* `Placed`, `Placed.ofPoints`: which of the three are members
* `Placed.codePoints`: those that are, in the order of their places
* `Placed.enclose`: the whole bracket expression around the spelling of the other members
-/

namespace CharClass

/-- Which of the three are members of a set. -/
structure Placed where
  closeBracket : Bool
  caret : Bool
  dash : Bool
  deriving DecidableEq

/-- Whether a point is one of the three. -/
def isPlaced (point : Int) : Bool :=
  point == CodePoint.closeBracket.val || point == CodePoint.caret.val || point == CodePoint.dash.val

namespace Placed

/-- Those of the three that are among the points. -/
def ofPoints (points : List Int) : Placed where
  closeBracket := points.contains (CodePoint.closeBracket.val : Int)
  caret := points.contains (CodePoint.caret.val : Int)
  dash := points.contains (CodePoint.dash.val : Int)

/-- What comes before the other members. -/
def head (p : Placed) : Text :=
  if p.closeBracket then [CodePoint.closeBracket] else []

/-- What comes after the other members: the caret and then the dash. -/
def tail (p : Placed) : Text :=
  (if p.caret then [CodePoint.caret] else []) ++ (if p.dash then [CodePoint.dash] else [])

/-- The members among the three, in the order of their places. -/
def codePoints (p : Placed) : List CodePoint :=
  p.head ++ p.tail

/-- The bracket expression whose other members are spelled by `body`. A caret must not open an
expression that is not inverted, so if it and the dash are the only members, the dash comes
first. -/
def enclose (p : Placed) (inverse : Bool) (body : Text) : Text :=
  let inner :=
    if !inverse && !p.closeBracket && body.isEmpty && p.caret && p.dash then
      [CodePoint.dash, CodePoint.caret]
    else p.head ++ body ++ p.tail
  CodePoint.openBracket :: (if inverse then [CodePoint.caret] else [])
    ++ inner ++ [CodePoint.closeBracket]

end Placed

end CharClass
