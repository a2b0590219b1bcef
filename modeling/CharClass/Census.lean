import CharClass.Distinct
import CharClass.Placed
import CharClass.Token

/-!
# The census of a list of members

A census gives each member its point, sets `]`, `^` and `-` apart, and brings the other points
into order. The first member without a point is a fault. Items are kept with their points, since
the only member of a set is looked at once more before it is spelled without brackets: every item
behind it must be a character.

## Main definitions

* `Member`, `Census`, `Census.ofItems`: an item with its point, and the members of a set
* `Census.codePoints`, `Census.size`: the distinct points
* `Census.items`: the items behind each point
* `Census.onlyPoint`, `Census.vetOnly`: the only point, and the check of its items
* `Census.pattern`: the pattern that matches one character of the set, or one outside it
* `Report`, `Census.report`: the counts that a census reports
-/

namespace CharClass

/-- An item and the point that it stands for. -/
structure Member where
  point : Int
  item : Value

def Member.ofItem (item : Value) : Except Fault Member :=
  item.point.map fun point => ⟨point, item⟩

/-- The points other than the three that act by their place, in order of arrival. -/
def generalPoints (members : List Member) : List Int :=
  (members.map Member.point).filter fun p => !isPlaced p

/-- The members of a set, with their points in order. -/
structure Census where
  members : List Member
  strategy : Strategy
  /-- The distinct points in order, without the three that act by their place. -/
  points : List Int

/-- The counts that a census reports. -/
structure Report where
  /-- The members other than the three, repetitions counted. -/
  members : Nat
  strategy : Strategy
  distinct : Nat
  tokens : Nat
  deriving DecidableEq

def Report.line (r : Report) : String :=
  "Charset of " ++ toString r.members ++ " members deduplicated by " ++ r.strategy.name ++ " to "
    ++ toString r.distinct ++ " distinct, rendered as " ++ toString r.tokens ++ " tokens."

namespace Census

/-- The census of a list of items. More general points than the threshold are ordered by a table
of marks. -/
def ofItems (threshold : Int) (items : List Value) : Except Fault Census := do
  let members ← items.mapM Member.ofItem
  let general := generalPoints members
  let strategy := Strategy.choose threshold general.length
  let points ← strategy.distinct general
  return { members, strategy, points }

def placed (c : Census) : Placed :=
  .ofPoints (c.members.map Member.point)

def tokens (c : Census) : List Token :=
  Token.ofPoints c.points

/-- The distinct points of all members: the general ones in order, then those of the three. -/
def codePoints (c : Census) : List Int :=
  c.points ++ c.placed.codePoints.map fun p => (p.val : Int)

def size (c : Census) : Nat :=
  c.codePoints.length

/-- The items behind each point, points in order and items in order of arrival. The sort keeps the
order of members with the same point. -/
def items (c : Census) : List (Int × List Value) :=
  let sorted := c.members.mergeSort fun a b => a.point ≤ b.point
  (sorted.splitBy fun a b => a.point == b.point).filterMap fun group =>
    group.head?.map fun m => (m.point, group.map Member.item)

def itemsAt (c : Census) (point : Int) : List Value :=
  (c.items.lookup point).getD []

def onlyPoint (c : Census) : Except Fault Int :=
  match c.codePoints with
  | [p] => .ok p
  | _ => .error .notSole

/-- All items behind the only point must be characters. The first that is none is the fault. -/
def vetOnly (c : Census) : Except Fault Unit := do
  let p ← c.onlyPoint
  match (c.itemsAt p).find? fun item => !item.isCharacter with
  | some item => .error (.notCharacter item)
  | none => .ok ()

/-- The only member, spelled without brackets. -/
def barePattern (c : Census) : Except Fault Text := do
  c.vetOnly
  let p ← c.onlyPoint
  return (← CodePoint.ofPoint p).escaped

def bracketPattern (c : Census) (inverse : Bool) : Except Fault Text :=
  (Token.spellAll c.tokens).map (c.placed.enclose inverse)

/-- The pattern that matches one character of the set, or of the rest if inverted. No member at all
leaves the empty pattern, or any character; one member needs no brackets unless inverted. -/
def pattern (c : Census) (inverse : Bool) : Except Fault Text :=
  match inverse, c.size with
  | false, 0 => .ok []
  | true, 0 => .ok anyCharacter
  | false, 1 => c.barePattern
  | inverse, _ => c.bracketPattern inverse

def report (c : Census) : Report where
  members := (generalPoints c.members).length
  strategy := c.strategy
  distinct := c.points.length
  tokens := c.tokens.length

end Census

end CharClass
