import CharClass.Character

/-!
# From an input to its members

A caller hands over either one character or a container of them. Which of the two it is gets
decided once, and from then on only the list of members counts.

## Main definitions

* `Input`, `Input.ofValue`: one item, or a sequence of items
* `Input.members`: the members, where a single item must be a character
* `uniform?`, `isUniform`: the item that all members repeat, and whether there is one
-/

namespace CharClass

/-- What a caller hands over. -/
inductive Input where
  /-- One item, offered as a character. -/
  | one (item : Value)
  /-- The items of a container. -/
  | many (items : List Value)

namespace Input

/-- The input that a value is, given what it holds if it is a container. A text of length one is
one character, and any other container a sequence. -/
def ofValue (value : Value) (elements : Option (List Value)) : Input :=
  match value, elements with
  | .text [c], _ => one (.text [c])
  | _, some items => many items
  | other, none => one other

/-- The members of an input. A single item must be a character, while the items of a sequence are
looked at later. -/
def members : Input → Except Fault (List Value)
  | one item => if item.isCharacter then .ok [item] else .error (.notCharacter item)
  | many items => .ok items

end Input

/-- The first member, if all members are alike: of its kind and equal to it. A not-a-number is not
even alike itself. -/
def uniform? : List Value → Option Value
  | [] => none
  | first :: rest => if (first :: rest).all (·.alike first) then some first else none

/-- Whether all members are alike. Of no members there is no first to compare with. -/
def isUniform (members : List Value) : Except Fault Bool :=
  if members.isEmpty then .error .noMembers else .ok (uniform? members).isSome

end CharClass
