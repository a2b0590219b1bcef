import CharClass.Fault

/-!
# Distinct points in order

Two ways to sort points and drop repetitions. One sorts and skips neighbours that are equal. The
other marks each point in a table from the least to the greatest point and reads the table back,
in time linear in the span of the points. Which one runs depends on the number of points only.

## Main definitions

* `Strategy`, `Strategy.choose`: the two ways, and the choice between them
* `distinctBySort`: by sorting
* `marks`, `marked`, `distinctByMarks`: the table of marks, and what it reads back
* `Strategy.distinct`, `distinct`: by a given or by the chosen way

## Design notes

A table has one mark for each number of its span, so a span that no table can have is a fault.
Sorting has no such bound.
-/

namespace CharClass

/-- Sorted points without repetitions, by sorting: each point that equals the one before it is
skipped. -/
def distinctBySort (points : List Int) : List Int :=
  points.mergeSort.eraseReps

/-- The greatest number of marks that a table can have. -/
def maxSpan : Int := 0x7FFFFFFFFFFFFFFF

/-- The number of marks from `low` to `high`. -/
def span (low high : Int) : Int :=
  high - low + 1

/-- The marks of the points, where the first mark stands for `low`. -/
def marks (low : Int) (size : Nat) (points : List Int) : Array Bool :=
  points.foldl (fun table p => table.setIfInBounds (p - low).toNat true)
    (Array.replicate size false)

/-- The marked points in order, where the first mark stands for `low`. -/
def marked (low : Int) (table : Array Bool) : List Int :=
  (List.range table.size).filterMap fun i : Nat =>
    if table[i]? = some true then some (low + i) else none

/-- Sorted points without repetitions, by a table of marks. -/
def distinctByMarks (points : List Int) : Except Fault (List Int) :=
  match points.min?, points.max? with
  | some low, some high =>
    if span low high ≤ maxSpan then
      .ok (marked low (marks low (span low high).toNat points))
    else .error .spanTooWide
  | _, _ => .ok []

inductive Strategy where
  | sort | marks
  deriving DecidableEq

namespace Strategy

/-- The word for a strategy in reports. -/
def name : Strategy → String
  | sort => "sort_dedupe"
  | marks => "presence_dedupe"

/-- The strategy for so many points: a table of marks as soon as there are more than the
threshold. -/
def choose (threshold : Int) (count : Nat) : Strategy :=
  if threshold < count then marks else sort

def distinct : Strategy → List Int → Except Fault (List Int)
  | sort, points => .ok (distinctBySort points)
  | marks, points => distinctByMarks points

end Strategy

/-- Sorted points without repetitions, by the strategy that their number asks for. -/
def distinct (threshold : Int) (points : List Int) : Except Fault (List Int) :=
  (Strategy.choose threshold points.length).distinct points

end CharClass
