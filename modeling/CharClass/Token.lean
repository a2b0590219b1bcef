import CharClass.Character

/-!
# Tokens of a bracket expression

A token stands for one point or for a range of points. Points need not be code points: whether
they are shows only when a token is spelled, and a range spells its two ends alone.

## Main definitions

* `Token`, `Token.points`: the tokens, and the points that they stand for
* `Token.spelling`: how a token is written inside a bracket expression
* `Token.ofPoints`: the tokens of a list of points, runs of three or more becoming ranges
* `Token.spellAll`: the spellings of tokens, one after the other
-/

namespace CharClass

/-- A member of a bracket expression. -/
inductive Token where
  | single (point : Int)
  | range (first last : Int)
  deriving DecidableEq

/-- The spelling of a point inside a bracket expression. -/
def pointSpelling (point : Int) : Except Fault Text :=
  (CodePoint.ofPoint point).map CodePoint.bracketed

namespace Token

/-- The points that a token stands for, in order. A range whose ends are in the wrong order stands
for none. -/
def points : Token → List Int
  | single p => [p]
  | range first last => (List.range (last - first + 1).toNat).map fun i : Nat => first + i

@[simp] theorem mem_points_single {p q : Int} : q ∈ (single p).points ↔ q = p := by
  simp [points]

/-- A range stands for what lies between its ends. -/
@[simp] theorem mem_points_range {first last q : Int} :
    q ∈ (range first last).points ↔ first ≤ q ∧ q ≤ last := by
  simp only [points, List.mem_map, List.mem_range]
  constructor
  · rintro ⟨i, hi, rfl⟩
    omega
  · intro h
    exact ⟨(q - first).toNat, by omega, by omega⟩

/-- The spelling of a token: of a range, the first end, a dash and the last end. -/
def spelling : Token → Except Fault Text
  | single p => pointSpelling p
  | range first last => do
    let low ← pointSpelling first
    let high ← pointSpelling last
    return low ++ CodePoint.dash :: high

/-- The tokens of a run of consecutive points: a range for three or more, since `a-b` is no shorter
than `ab`. -/
def ofRun : List Int → List Token
  | a :: _ :: c :: rest => [range a ((c :: rest).getLast (List.cons_ne_nil c rest))]
  | run => run.map single

/-- The tokens of a list of points, taken as it comes. The list is cut into maximal runs, in which
each point is one more than the point before. -/
def ofPoints (points : List Int) : List Token :=
  (points.splitBy fun a b => b == a + 1).flatMap ofRun

/-- The spellings of tokens, one after the other. The first token that has none is the fault. -/
def spellAll (tokens : List Token) : Except Fault Text :=
  (tokens.mapM spelling).map List.flatten

end Token

end CharClass
