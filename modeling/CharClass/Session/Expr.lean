import CharClass.Session.Store

/-!
# Expressions for values

The operations of a session take their values as expressions: a value itself, a container made of
expressions, a name, or a list put together from other containers.

## Main definitions

* `Expr`: the expressions
* `Expr.eval`: the value of an expression, and the store afterwards
-/

namespace CharClass

inductive Expr where
  | const (v : Value)
  /-- A not-a-number, a new one each time it is evaluated. -/
  | nan
  | list (items : List Expr)
  | tuple (items : List Expr)
  /-- A set, its elements in order of arrival. -/
  | set (items : List Expr)
  /-- A dictionary, its entries in order of arrival. -/
  | dict (entries : List (Expr × Expr))
  | stream (items : List Expr)
  /-- The list of the items of each part in turn. -/
  | concat (parts : List Expr)
  /-- The list of so many times one value. -/
  | repeated (item : Expr) (count : Nat)
  /-- The value that a name stands for, or nothing if it stands for none. -/
  | named (name : String)
  deriving Inhabited

namespace Expr

mutual

/-- The value of an expression, and the store afterwards. -/
def eval : Expr → Store → Value × Store
  | const v, s => (v, s)
  | nan, s => s.newNaN
  | list items, s =>
    let (values, s) := evalAll items s
    (.list values, s)
  | tuple items, s =>
    let (values, s) := evalAll items s
    (.tuple values, s)
  | set items, s =>
    let (values, s) := evalAll items s
    (Value.setOf values, s)
  | dict entries, s =>
    let (entries, s) := evalEntries entries s
    (Value.dictOf entries, s)
  | stream items, s =>
    let (values, s) := evalAll items s
    s.openStream values
  | concat parts, s =>
    let (values, s) := evalParts parts s
    (.list values, s)
  | repeated item count, s =>
    let (v, s) := eval item s
    (.list (List.replicate count v), s)
  | named name, s => ((s.lookup? name).getD .null, s)
termination_by structural e => e

/-- The values of expressions from left to right. -/
def evalAll : List Expr → Store → List Value × Store
  | [], s => ([], s)
  | e :: es, s =>
    let (v, s) := eval e s
    let (vs, s) := evalAll es s
    (v :: vs, s)
termination_by structural es => es

/-- The entries of a dictionary from left to right. -/
def evalEntries : List (Expr × Expr) → Store → List (Value × Value) × Store
  | [], s => ([], s)
  | (key, value) :: rest, s =>
    let (k, s) := eval key s
    let (v, s) := eval value s
    let (entries, s) := evalEntries rest s
    ((k, v) :: entries, s)
termination_by structural es => es

/-- The items of containers, taken from left to right. What is no container has none. -/
def evalParts : List Expr → Store → List Value × Store
  | [], s => ([], s)
  | part :: parts, s =>
    let (v, s) := eval part s
    let (items, s) := s.take v
    let (more, s) := evalParts parts s
    (items.getD [] ++ more, s)
termination_by structural es => es

end

end Expr

end CharClass
