import CharClass.CodePoint
import CharClass.Floating
import CharClass.Progression

/-!
# Values offered as characters

A caller may offer anything as a character: a code point, a text of length one, or something that
turns out to be no character at all. `Value` is that universe. Two equalities live on it.
`Value.same` is the equality of parts of a container, and `Value.equal` the equality of values on
their own. They differ on a not-a-number only, which is the same as itself and equal to nothing.

## Main definitions

* `Value`, `Value.Kind`: what may be offered, and its kind
* `Value.same`, `Value.equal`, `Value.alike`: the equalities, and equality within one kind
* `Value.setOf`, `Value.dictOf`: the set and the dictionary of what arrives in order
* `Value.elements?`: what a container holds, in order
-/

namespace CharClass

/-- Anything that may be offered as a character or as a set of characters. -/
inductive Value where
  | null
  /-- A truth value, which counts as `0` or `1` in comparisons. -/
  | bool (b : Bool)
  | int (n : Int)
  | float (x : Floating)
  | text (content : Text)
  | octets (content : List UInt8)
  /-- Octets in a container that may change. They equal unchanging ones of the same content. -/
  | buffer (content : List UInt8)
  | list (items : List Value)
  /-- A tuple, which never equals a list. -/
  | tuple (items : List Value)
  /-- A dictionary, its entries in order of arrival. No two keys are the same. -/
  | dict (entries : List (Value × Value))
  /-- A set, its elements in no order that counts. No two elements are the same. -/
  | set (items : List Value)
  | range (r : Progression)
  /-- A source whose items can be taken once. It is known by its number, and its items are held
  by whoever gave it out. -/
  | stream (id : Nat)
  deriving Inhabited

namespace Value

inductive Kind where
  | null | bool | int | float | text | octets | buffer | list | tuple | dict | set | range | stream
  deriving DecidableEq

/-- The word for a kind in messages. -/
def Kind.name : Kind → String
  | null => "NoneType"
  | bool => "bool"
  | int => "int"
  | float => "float"
  | text => "str"
  | octets => "bytes"
  | buffer => "bytearray"
  | list => "list"
  | tuple => "tuple"
  | dict => "dict"
  | set => "set"
  | range => "range"
  | stream => "generator"

def kind : Value → Kind
  | null => .null
  | bool _ => .bool
  | int _ => .int
  | float _ => .float
  | text _ => .text
  | octets _ => .octets
  | buffer _ => .buffer
  | list _ => .list
  | tuple _ => .tuple
  | dict _ => .dict
  | set _ => .set
  | range _ => .range
  | stream _ => .stream

/-- The whole number that a value counts as, if it is a whole number or a truth value. -/
def integer? : Value → Option Int
  | int n => some n
  | bool b => some b.toInt
  | _ => none

/-! ### Equality -/

/-- What equality looks at in a value without parts. Numeric kinds meet in `number`, and the two
kinds of octets in `octets`. -/
inductive Essence where
  | null
  | number (x : Number)
  | text (content : Text)
  | octets (content : List UInt8)
  | range (shape : Progression.Shape)
  | stream (id : Nat)
  deriving DecidableEq

/-- What equality looks at, for a value without parts. -/
def essence? : Value → Option Essence
  | null => some .null
  | bool b => some (.number (.ofInt b.toInt))
  | int n => some (.number (.ofInt n))
  | float x => some (.number x.number)
  | text content => some (.text content)
  | octets content => some (.octets content)
  | buffer content => some (.octets content)
  | range r => some (.range r.shape)
  | stream id => some (.stream id)
  | list _ | tuple _ | dict _ | set _ => none

/-- Values without parts are the same if equality sees the same in them. -/
def sameEssence (a b : Value) : Bool :=
  match a.essence?, b.essence? with
  | some x, some y => x == y
  | _, _ => false

mutual

/-- The equality of parts of a container: lists and tuples agree position by position,
dictionaries and sets in any order. -/
def same : Value → Value → Bool
  | list xs, list ys => sameAll xs ys
  | tuple xs, tuple ys => sameAll xs ys
  | dict es, dict fs => es.length == fs.length && entriesIn es fs
  | set xs, set ys => xs.length == ys.length && elementsIn xs ys
  | a, b => sameEssence a b
termination_by structural a => a

/-- The same values in the same order. -/
def sameAll : List Value → List Value → Bool
  | [], [] => true
  | x :: xs, y :: ys => same x y && sameAll xs ys
  | _, _ => false
termination_by structural xs => xs

/-- Every entry of the first list is among those of the second. -/
def entriesIn : List (Value × Value) → List (Value × Value) → Bool
  | [], _ => true
  | (k, v) :: es, fs => fs.any (fun f => same k f.1 && same v f.2) && entriesIn es fs
termination_by structural es => es

/-- Every element of the first list is among those of the second. -/
def elementsIn : List Value → List Value → Bool
  | [], _ => true
  | x :: xs, ys => ys.any (same x) && elementsIn xs ys
termination_by structural xs => xs

end

def isNaN : Value → Bool
  | float (.nan _) => true
  | _ => false

/-- The equality of values on their own: a not-a-number is equal to nothing, itself included. -/
def equal (a b : Value) : Bool :=
  !a.isNaN && same a b

/-- Equality within one kind: `1`, true and `1.0` are equal and not alike. -/
def alike (a b : Value) : Bool :=
  a.kind == b.kind && a.equal b

/-! ### Containers -/

/-- The set that arises when elements arrive in order: one that is there already is not added
again. -/
def setOf (items : List Value) : Value :=
  set (items.foldl add [])
where
  add (elements : List Value) (item : Value) : List Value :=
    if elements.any (fun e => same e item) then elements else elements ++ [item]

/-- The dictionary that arises when entries arrive in order: a key that is there already keeps its
place and takes the later value. -/
def dictOf (entries : List (Value × Value)) : Value :=
  dict (entries.foldl put [])
where
  put (entries : List (Value × Value)) (entry : Value × Value) : List (Value × Value) :=
    if entries.any (fun e => same e.1 entry.1) then
      entries.map fun e => if same e.1 entry.1 then (e.1, entry.2) else e
    else entries ++ [entry]

/-- The items of a container in order: the characters of a text as texts, octets as numbers, the
keys of a dictionary. A stream holds none itself. -/
def elements? : Value → Option (List Value)
  | text content => some (content.map fun c => text [c])
  | octets content => some (content.map fun o => int o.toNat)
  | buffer content => some (content.map fun o => int o.toNat)
  | list items => some items
  | tuple items => some items
  | dict entries => some (entries.map Prod.fst)
  | set items => some items
  | range r => some (r.toList.map int)
  | null | bool _ | int _ | float _ | stream _ => none

end Value

end CharClass
