import CharClass.Pattern
import CharClass.Session.Expr

/-!
# Sessions

A session runs operations one after the other. Between them it keeps the settings, the bound names
and what is left in each stream. An operation that fails is answered by its fault, and the session
goes on.

## Main definitions

* `Operation`: what can be asked for
* `Answer`, `Reply`: what comes back, with what was reported on the way
* `Session`, `Operation.run`: the state, and one step
-/

namespace CharClass

/-- What can be asked for. -/
inductive Operation where
  | pattern (set : Expr) (inverse : Bool)
  | tokens (set : Expr)
  /-- Whether a value is one item or many. -/
  | input (set : Expr)
  | members (set : Expr)
  /-- Whether the items of a container are all alike. -/
  | uniform (items : Expr)
  | census (set : Expr)
  | isCharacter (item : Expr)
  | point (item : Expr)
  /-- The spelling of a character outside brackets. -/
  | spell (item : Expr)
  /-- The spelling of a point inside brackets. -/
  | spellPoint (point : Int)
  | spellToken (token : Token)
  | strategy (points : Expr)
  /-- The distinct points in order, by a given strategy or by the chosen one. -/
  | distinct (strategy : Option Strategy) (points : Expr)
  /-- The tokens of points as they come. -/
  | tokensOfPoints (points : Expr)
  | setVerbose (verbose : Bool)
  /-- Change the number of points up to which they are sorted. -/
  | setThreshold (threshold : Int)
  /-- Let a name stand for a value. -/
  | bind (name : String) (value : Expr)
  | settings
  | session (steps : List Operation)

/-- What comes back from an operation. -/
inductive Answer where
  /-- Nothing but that it was done. -/
  | done
  | value (v : Value)
  | values (vs : List Value)
  | text (t : Text)
  | truth (b : Bool)
  | input (i : Input)
  | census (c : Census)
  | points (ps : List Int)
  | tokens (ts : List Token)
  | strategy (s : Strategy)
  | settings (s : Settings)
  | replies (rs : List (Outcome Answer))

/-- An answer or a fault, with what was reported on the way. -/
abbrev Reply := Outcome Answer

/-- What a session keeps between operations. -/
structure Session where
  settings : Settings := {}
  store : Store := {}

namespace Session

def eval (s : Session) (e : Expr) : Value × Session :=
  let (v, store) := e.eval s.store
  (v, { s with store })

/-- The value of an expression, and the items taken from it if it is a container. A stream is
drained whatever becomes of its items. -/
def take (s : Session) (e : Expr) : (Value × Option (List Value)) × Session :=
  let (v, s) := s.eval e
  let (items, store) := s.store.take v
  ((v, items), { s with store })

/-- The input that an expression stands for. -/
def input (s : Session) (e : Expr) : Input × Session :=
  let ((v, items), s) := s.take e
  (Input.ofValue v items, s)

/-- The items of the container that an expression stands for. What is no container has none. -/
def items (s : Session) (e : Expr) : List Value × Session :=
  let ((_, items), s) := s.take e
  (items.getD [], s)

/-- The points in the container that an expression stands for: its whole numbers. -/
def points (s : Session) (e : Expr) : List Int × Session :=
  let (items, s) := s.items e
  (items.filterMap Value.integer?, s)

end Session

namespace Operation

mutual

/-- The reply to an operation, and the session afterwards. -/
def run : Operation → Session → Reply × Session
  | pattern set inverse, s =>
    let (i, s) := s.input set
    ((i.pattern s.settings inverse).map .text, s)
  | tokens set, s =>
    let (i, s) := s.input set
    ((i.tokens s.settings).map .tokens, s)
  | input set, s =>
    let (i, s) := s.input set
    (.silent (.ok (.input i)), s)
  | members set, s =>
    let (i, s) := s.input set
    (.silent (i.members.map .values), s)
  | uniform e, s =>
    let (items, s) := s.items e
    (.silent ((isUniform items).map .truth), s)
  | census set, s =>
    let (i, s) := s.input set
    ((i.census s.settings).map .census, s)
  | isCharacter e, s =>
    let (v, s) := s.eval e
    (.silent (.ok (.truth v.isCharacter)), s)
  | point e, s =>
    let (v, s) := s.eval e
    (.silent (v.pointValue.map .value), s)
  | spell e, s =>
    let (v, s) := s.eval e
    (.silent (v.spelling.map .text), s)
  | spellPoint p, s => (.silent ((pointSpelling p).map .text), s)
  | spellToken t, s => (.silent (t.spelling.map .text), s)
  | strategy e, s =>
    let (ps, s) := s.points e
    (.silent (.ok (.strategy (.choose s.settings.threshold ps.length))), s)
  | distinct (some way) e, s =>
    let (ps, s) := s.points e
    (.silent ((way.distinct ps).map .points), s)
  | distinct none e, s =>
    let (ps, s) := s.points e
    (.silent ((CharClass.distinct s.settings.threshold ps).map .points), s)
  | tokensOfPoints e, s =>
    let (ps, s) := s.points e
    (.silent (.ok (.tokens (Token.ofPoints ps))), s)
  | setVerbose verbose, s =>
    (.silent (.ok .done), { s with settings := { s.settings with verbose } })
  | setThreshold threshold, s =>
    (.silent (.ok .done), { s with settings := { s.settings with threshold } })
  | bind name e, s =>
    let (v, s) := s.eval e
    (.silent (.ok .done), { s with store := s.store.bind name v })
  | settings, s => (.silent (.ok (.settings s.settings)), s)
  | session steps, s =>
    let (replies, s) := runAll steps s
    (.silent (.ok (.replies replies)), s)
termination_by structural o => o

/-- The replies to operations in order, and the session afterwards. -/
def runAll : List Operation → Session → List Reply × Session
  | [], s => ([], s)
  | step :: steps, s =>
    let (reply, s) := run step s
    let (replies, s) := runAll steps s
    (reply :: replies, s)
termination_by structural steps => steps

end

end Operation

end CharClass
