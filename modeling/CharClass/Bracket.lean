import CharClass.Token

/-!
# Reading bracket expressions

The other side of spelling: what a bracket expression in a text stands for. A reader takes the
expression from the front of a text and hands back the rest, so that an expression can be read
where it was spliced in.

## Main definitions

* `unit?`: one code point, escaped or not
* `Bracket`, `Bracket.read?`: a whole expression, from its opening bracket to its closing one
* `Bracket.accepts`: the code points that an expression matches
* `readTokens?`: tokens up to a closing bracket, without regard to place

## Design notes

A bracket expression gives three code points a meaning by their place. `]` closes it unless it
comes first, `^` inverts it if it comes first, and `-` between two units forms a range unless `]`
follows. `readTokens?` knows only the first and the last of these, and so reads what
`Token.spelling` writes for tokens whose ends are neither `]` nor `-`.
-/

namespace CharClass

/-- Whether a code point is an unaccented letter or a digit. Behind a backslash these name whole
classes or control characters. -/
def isAlphanumeric (c : CodePoint) : Bool :=
  (0x30 ≤ c.val && c.val ≤ 0x39) || (0x41 ≤ c.val && c.val ≤ 0x5A)
    || (0x61 ≤ c.val && c.val ≤ 0x7A)

/-- The first unit of a text, and the rest: a backslash with a code point that may follow it, or
any other single code point. -/
def unit? (mayFollow : CodePoint → Bool) : Text → Option (CodePoint × Text)
  | [] => none
  | c :: rest =>
    if c = CodePoint.backslash then
      match rest with
      | [] => none
      | d :: rest => if mayFollow d then some (d, rest) else none
    else some (c, rest)

/-- A unit takes something from the text. -/
theorem length_lt_of_unit?_eq_some {mayFollow : CodePoint → Bool} {s rest : Text} {c : CodePoint}
    (h : unit? mayFollow s = some (c, rest)) : rest.length < s.length := by
  match s, h with
  | a :: [], h =>
    by_cases ha : a = CodePoint.backslash
    · simp [unit?, ha] at h
    · simp [unit?, ha] at h
      simp [← h.2]
  | a :: b :: more, h =>
    by_cases ha : a = CodePoint.backslash
    · by_cases hb : mayFollow b = true
      · simp [unit?, ha, hb] at h
        simp only [← h.2, List.length_cons]
        omega
      · simp [unit?, ha, hb] at h
    · simp [unit?, ha] at h
      simp [← h.2]

/-- A bracket expression that was read: whether it is inverted, and its tokens in order. -/
structure Bracket where
  inverse : Bool
  tokens : List Token
  deriving DecidableEq

namespace Bracket

/-- Whether a unit may follow a backslash here: no letter and no digit. -/
def escapable (c : CodePoint) : Bool :=
  !isAlphanumeric c

/-- The tokens up to the closing bracket, and what follows it. The first unit may be a `]`. A unit
with a dash and the closing bracket behind it stands for itself and the dash, and a unit with a
dash and another unit for a range, which must not descend. -/
def readItems? (first : Bool) (s : Text) : Option (List Token × Text) :=
  if !first && s.head? == some CodePoint.closeBracket then some ([], s.tail)
  else
    match _first : unit? escapable s with
    | none => none
    | some (_, []) => none
    | some (a, c :: more) =>
      if c = CodePoint.dash then
        if more.head? = some CodePoint.closeBracket then
          some ([.single a.val, .single CodePoint.dash.val], more.tail)
        else
          match _second : unit? escapable more with
          | none => none
          | some (b, rest) =>
            if b < a then none
            else
              (readItems? false rest).map fun (tokens, rest) => (.range a.val b.val :: tokens, rest)
      else (readItems? false (c :: more)).map fun (tokens, rest) => (.single a.val :: tokens, rest)
termination_by s.length
decreasing_by
  · have hs := length_lt_of_unit?_eq_some _first
    have hm := length_lt_of_unit?_eq_some _second
    simp only [List.length_cons] at hs
    omega
  · exact length_lt_of_unit?_eq_some _first

/-- The bracket expression at the front of a text, and the text behind it. -/
def read? : Text → Option (Bracket × Text)
  | [] => none
  | c :: rest =>
    if c = CodePoint.openBracket then
      let inverse := rest.head? == some CodePoint.caret
      (readItems? true (if inverse then rest.tail else rest)).map fun (tokens, rest) =>
        (⟨inverse, tokens⟩, rest)
    else none

/-- The points that the tokens stand for. -/
def points (b : Bracket) : List Int :=
  b.tokens.flatMap Token.points

/-- Whether an expression matches a code point. -/
def accepts (b : Bracket) (c : CodePoint) : Bool :=
  b.points.contains (c.val : Int) != b.inverse

end Bracket

/-- The tokens up to a `]` where a token could start, and what follows it. Any code point may be
escaped. -/
def readTokens? (s : Text) : Option (List Token × Text) :=
  if s.head? = some CodePoint.closeBracket then some ([], s.tail)
  else
    match _first : unit? (fun _ => true) s with
    | none => none
    | some (_, []) => none
    | some (a, c :: more) =>
      if c = CodePoint.dash then
        match _second : unit? (fun _ => true) more with
        | none => none
        | some (b, rest) =>
          (readTokens? rest).map fun (tokens, rest) => (.range a.val b.val :: tokens, rest)
      else (readTokens? (c :: more)).map fun (tokens, rest) => (.single a.val :: tokens, rest)
termination_by s.length
decreasing_by
  · have hs := length_lt_of_unit?_eq_some _first
    have hm := length_lt_of_unit?_eq_some _second
    simp only [List.length_cons] at hs
    omega
  · exact length_lt_of_unit?_eq_some _first

end CharClass
