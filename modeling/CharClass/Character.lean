import CharClass.Fault

/-!
# Characters and the points they stand for

Being a character and having a point are two different things. A character is a text of length one
or a code point given as a whole number. A point is what a value counts as when it is sorted among
others: truth values, octets of length one and numbers outside the domain have a point and are no
characters. That a point has no code point is a fault only when it comes to spelling it.

## Main definitions

* `Value.character?`, `Value.isCharacter`: the character that a value is
* `Value.point`: the point that a value stands for
* `CodePoint.ofPoint`: the code point at a point, if there is one
* `Value.spelling`: the spelling of a character outside a bracket expression
-/

namespace CharClass

/-- The code point at a point. Beyond the domain there is none, and beyond 32 bits the fault is
another. -/
def CodePoint.ofPoint (point : Int) : Except Fault CodePoint :=
  if h : 0 ≤ point ∧ point ≤ CodePoint.greatest then
    .ok ⟨point.toNat, by unfold CodePoint.greatest at h; omega⟩
  else if -0x80000000 ≤ point ∧ point ≤ 0x7FFFFFFF then .error .outsideDomain
  else .error .outsideWord

/-- A point has a code point exactly if it is its number. -/
theorem CodePoint.ofPoint_eq_ok_iff {point : Int} {c : CodePoint} :
    CodePoint.ofPoint point = .ok c ↔ point = c.val := by
  have hc := c.isLt
  unfold CodePoint.ofPoint CodePoint.greatest
  split
  · rw [Except.ok.injEq, Fin.ext_iff]
    constructor <;> intro h <;> simp only at h ⊢ <;> omega
  · split <;> simp only [reduceCtorEq, false_iff] <;> omega

/-- Each code point stands at its own number. -/
theorem CodePoint.ofPoint_val (c : CodePoint) : CodePoint.ofPoint c.val = .ok c :=
  CodePoint.ofPoint_eq_ok_iff.2 rfl

namespace Value

/-- The character that a value is: a text of length one, or a code point as a whole number. A truth
value is not a number here. -/
def character? : Value → Option CodePoint
  | text [c] => some c
  | int n => (CodePoint.ofPoint n).toOption
  | _ => none

/-- Whether a value is a character. -/
def isCharacter (item : Value) : Bool :=
  item.character?.isSome

/-- The point that a value stands for: itself for a whole number of any size, `0` or `1` for a
truth value, and the only element of a text or of octets of length one. -/
def point : Value → Except Fault Int
  | int n => .ok n
  | bool b => .ok b.toInt
  | text [c] => .ok c.val
  | text content => .error (.wrongLength content.length)
  | octets [o] => .ok o.toNat
  | octets content => .error (.wrongLength content.length)
  | buffer [o] => .ok o.toNat
  | buffer content => .error (.wrongLength content.length)
  | other => .error (.noCodePoint other.kind)

/-- A character stands for its own number. -/
theorem point_of_character? {item : Value} {c : CodePoint} (h : item.character? = some c) :
    item.point = .ok c.val := by
  unfold character? at h
  split at h
  · obtain rfl := Option.some.inj h
    rfl
  · next n =>
    cases hn : CodePoint.ofPoint n with
    | error fault => simp [hn, Except.toOption] at h
    | ok d =>
      obtain rfl : d = c := by simpa [hn, Except.toOption] using h
      rw [CodePoint.ofPoint_eq_ok_iff.1 hn]
      rfl
  · cases h

/-- The point of a value as a value. Whole numbers and truth values are handed back as they
are. -/
def pointValue : Value → Except Fault Value
  | int n => .ok (int n)
  | bool b => .ok (bool b)
  | other => other.point.map int

/-- The spelling of a character outside a bracket expression. -/
def spelling (item : Value) : Except Fault Text :=
  match item.character? with
  | some c => .ok c.escaped
  | none => .error (.notCharacter item)

end Value

end CharClass
