import CharClass.Census
import CharClass.Input

/-!
# Patterns for sets of characters

`Input.pattern` turns an input into the pattern that matches one character of the set, or one
character outside it. Members that all repeat one item take a short way: the item is spelled as it
is. For all others a census is taken. If reports are asked for, a census that succeeds is reported,
whether the pattern can then be spelled or not.

## Main definitions

* `Settings`: when to sort, and whether to report
* `Outcome`, `Outcome.lines`: what was reported, and the result or the fault; what is printed
* `Input.pattern`, `Input.tokens`, `Input.census`: the pattern of a set, its tokens, its census
-/

namespace CharClass

/-- What can be set. -/
structure Settings where
  verbose : Bool := false
  /-- The number of general members up to which they are sorted. -/
  threshold : Int := 128
  deriving DecidableEq

/-- What was reported, and the result or the fault. -/
structure Outcome (α : Type) where
  log : List Report
  result : Except Fault α

namespace Outcome

def silent {α : Type} (result : Except Fault α) : Outcome α :=
  ⟨[], result⟩

/-- The lines that are printed. -/
def lines {α : Type} (o : Outcome α) : List String :=
  o.log.map Report.line

/-- The outcome with its result replaced. -/
def map {α β : Type} (f : α → β) (o : Outcome α) : Outcome β :=
  ⟨o.log, o.result.map f⟩

/-- The outcome of one more step that reports nothing. -/
def andThen {α β : Type} (o : Outcome α) (next : α → Except Fault β) : Outcome β :=
  ⟨o.log, o.result.bind next⟩

end Outcome

/-- The census of a list of items, reported if reports are asked for. -/
def censusOf (settings : Settings) (items : List Value) : Outcome Census :=
  match Census.ofItems settings.threshold items with
  | .error fault => .silent (.error fault)
  | .ok c => ⟨if settings.verbose then [c.report] else [], .ok c⟩

/-- The pattern of a list of items by way of their census. -/
def patternByCensus (settings : Settings) (items : List Value) (inverse : Bool) : Outcome Text :=
  (censusOf settings items).andThen fun c => c.pattern inverse

/-- The pattern of a list of items. If they are all alike and the set is not inverted, the first is
spelled as it is. -/
def patternOf (settings : Settings) (items : List Value) (inverse : Bool) : Outcome Text :=
  match inverse, uniform? items with
  | false, some item => .silent item.spelling
  | _, _ => patternByCensus settings items inverse

namespace Input

def census (input : Input) (settings : Settings) : Outcome Census :=
  match input.members with
  | .error fault => .silent (.error fault)
  | .ok items => censusOf settings items

/-- The tokens of the members of an input, without the three that act by their place. -/
def tokens (input : Input) (settings : Settings) : Outcome (List Token) :=
  (input.census settings).map Census.tokens

/-- The pattern that matches one character of the set that an input stands for, or one character
outside it. -/
def pattern (input : Input) (settings : Settings) (inverse : Bool) : Outcome Text :=
  match input.members with
  | .error fault => .silent (.error fault)
  | .ok items => patternOf settings items inverse

end Input

end CharClass
