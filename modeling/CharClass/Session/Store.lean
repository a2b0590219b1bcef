import CharClass.Value

/-!
# What a session remembers between operations

Names stand for values, and a stream that was handed out holds items until somebody takes them.
Taking drains a stream for everyone who knows it, under whatever name.

## Main definitions

* `Store`: bound names, the items left in each stream, and the marks given out
* `Store.bind`, `Store.lookup?`: names
* `Store.openStream`, `Store.take`: streams, and the items of any container
* `Store.newNaN`: a not-a-number that is none of those before
-/

namespace CharClass

/-- What a session remembers. -/
structure Store where
  bindings : List (String × Value) := []
  /-- The items left in each stream, by the number of the stream. -/
  streams : List (List Value) := []
  /-- The number of marks given out. -/
  marks : Nat := 0

namespace Store

def bind (s : Store) (name : String) (value : Value) : Store :=
  { s with bindings := (name, value) :: s.bindings }

def lookup? (s : Store) (name : String) : Option Value :=
  s.bindings.lookup name

/-- A new stream that holds some items. -/
def openStream (s : Store) (items : List Value) : Value × Store :=
  (.stream s.streams.length, { s with streams := s.streams ++ [items] })

/-- A not-a-number that differs from all before. -/
def newNaN (s : Store) : Value × Store :=
  (.float (.nan s.marks), { s with marks := s.marks + 1 })

/-- The items of a container in order, if it is one. A stream is empty afterwards. -/
def take (s : Store) (value : Value) : Option (List Value) × Store :=
  match value with
  | .stream id => (some (s.streams[id]?.getD []), { s with streams := s.streams.set id [] })
  | other => (other.elements?, s)

end Store

end CharClass
