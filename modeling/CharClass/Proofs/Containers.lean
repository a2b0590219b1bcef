import CharClass.Session

/-!
# What a container is made of

An operation that looks at the items of its input takes them out of the container first, and from
then on it sees the items only. So it answers alike for containers of the same items. A text of
length one is a container too, except that it is not a sequence when an operation asks just that.

## Main definitions

* `Request`, `Request.on`: the operations that look at the items of an input
* `Request.reply`: their replies, from the input and the settings alone
* `Expr.Offers`: the containers of some items

## Main statements

* `Operation.run_on`: what a request replies, and what it leaves behind
* `Value.exists_setOf_eq`, `Value.elements?_setOf`: no two elements of a set are the same, and
  items that are all different are its elements
* `Value.elements?_dictOf`: the keys of a dictionary arrive like the elements of a set
* `Expr.Offers.input_eq`, `Request.reply_ofText`: containers of the same items are the same input,
  but for a text of length one
-/

namespace CharClass

/-- What can be asked about the items of an input. -/
inductive Request where
  | pattern (inverse : Bool)
  | tokens
  /-- Whether it is one item or many. -/
  | input
  | members
  | census
  deriving DecidableEq

namespace Request

/-- The operation that asks for it. -/
def on : Request → Expr → Operation
  | pattern inverse, e => .pattern e inverse
  | tokens, e => .tokens e
  | input, e => .input e
  | members, e => .members e
  | census, e => .census e

def reply : Request → Settings → Input → Reply
  | pattern inverse, settings, i => (i.pattern settings inverse).map .text
  | tokens, settings, i => (i.tokens settings).map .tokens
  | input, _, i => .silent (.ok (.input i))
  | members, _, i => .silent (i.members.map .values)
  | census, settings, i => (i.census settings).map .census

/-- Unless it is asked whether there is one item or many, the members decide. -/
theorem reply_congr {r : Request} {i j : Input} (hr : r ≠ .input) (h : i.members = j.members)
    (settings : Settings) : r.reply settings i = r.reply settings j := by
  cases r with
  | pattern inverse =>
    rw [reply, reply, Input.pattern, Input.pattern, h]
  | tokens =>
    rw [reply, reply, Input.tokens, Input.tokens, Input.census, Input.census, h]
  | input => exact absurd rfl hr
  | members =>
    rw [reply, reply, h]
  | census =>
    rw [reply, reply, Input.census, Input.census, h]

/-- A text of length one has its only character as a member, like the list of that character. -/
theorem reply_ofText {r : Request} (hr : r ≠ .input) (settings : Settings) (content : Text) :
    r.reply settings (.ofValue (.text content) (some (content.map fun c => .text [c]))) =
      r.reply settings (.many (content.map fun c => .text [c])) := by
  refine reply_congr hr ?_ settings
  match content with
  | [] => rfl
  | [c] => rfl
  | c :: d :: rest => rfl

end Request

/-- A request takes the items out of its container, and replies by them and the settings. -/
theorem Operation.run_on (r : Request) (e : Expr) (s : Session) :
    run (r.on e) s = (r.reply s.settings (s.input e).1, (s.input e).2) := by
  cases r <;> rfl

/-! ### Sets and keys -/

namespace Value

variable {elements items : List Value} {entries earlier : List (Value × Value)} {item : Value}

/-- An element that is new is put behind those that are there. -/
theorem add_of_new (h : ∀ e ∈ elements, e.same item = false) :
    setOf.add elements item = elements ++ [item] := by
  have hnone : elements.any (fun e => same e item) = false := by
    rw [List.any_eq_false]
    exact fun e he => ne_true_of_eq_false (h e he)
  rw [setOf.add, hnone]
  rfl

theorem pairwise_add (h : elements.Pairwise fun a b => a.same b = false) (item : Value) :
    (setOf.add elements item).Pairwise fun a b => a.same b = false := by
  by_cases hnew : ∀ e ∈ elements, e.same item = false
  · rw [add_of_new hnew]
    exact List.pairwise_append.2 ⟨h, List.pairwise_singleton _ _, fun e he b hb =>
      List.mem_singleton.1 hb ▸ hnew e he⟩
  · have hthere : elements.any (fun e => same e item) = true := by
      rw [List.any_eq_true]
      simpa using hnew
    rw [setOf.add, if_pos hthere]
    exact h

theorem pairwise_foldl_add (h : elements.Pairwise fun a b => a.same b = false) :
    (items.foldl setOf.add elements).Pairwise fun a b => a.same b = false := by
  induction items generalizing elements with
  | nil => exact h
  | cons item items ih => exact ih (pairwise_add h item)

/-- No two elements of a set are the same, whatever arrived. -/
theorem exists_setOf_eq (items : List Value) :
    ∃ elements, setOf items = .set elements ∧ elements.Pairwise fun a b => a.same b = false :=
  ⟨_, rfl, pairwise_foldl_add .nil⟩

/-- Elements that are all different are all added. -/
theorem foldl_add (h : (elements ++ items).Pairwise fun a b => a.same b = false) :
    items.foldl setOf.add elements = elements ++ items := by
  induction items generalizing elements with
  | nil => exact (List.append_nil elements).symm
  | cons item items ih =>
    have hnew : ∀ e ∈ elements, e.same item = false := fun e he =>
      (List.pairwise_append.1 h).2.2 e he item List.mem_cons_self
    rw [List.append_cons] at h ⊢
    rw [List.foldl_cons, add_of_new hnew, ih h]

/-- The keys of a dictionary arrive like the elements of a set. -/
theorem keys_put (entries : List (Value × Value)) (entry : Value × Value) :
    (dictOf.put entries entry).map Prod.fst = setOf.add (entries.map Prod.fst) entry.1 := by
  have hthere : (entries.map Prod.fst).any (fun k => same k entry.1) =
      entries.any fun e => same e.1 entry.1 :=
    List.any_map
  rw [dictOf.put, setOf.add, hthere]
  split
  · rw [List.map_map]
    refine List.map_congr_left fun e _ => ?_
    show (if same e.1 entry.1 then (e.1, entry.2) else e).1 = e.1
    split <;> rfl
  · exact List.map_append

theorem keys_foldl_put :
    (entries.foldl dictOf.put earlier).map Prod.fst =
      (entries.map Prod.fst).foldl setOf.add (earlier.map Prod.fst) := by
  induction entries generalizing earlier with
  | nil => rfl
  | cons entry entries ih => rw [List.foldl_cons, ih, keys_put, List.map_cons, List.foldl_cons]

/-- The items of a dictionary are the elements of the set of its keys. -/
theorem elements?_dictOf (entries : List (Value × Value)) :
    (dictOf entries).elements? = (setOf (entries.map Prod.fst)).elements? :=
  congrArg some keys_foldl_put

/-- Of items that are all different, none is dropped. -/
theorem elements?_setOf (h : items.Pairwise fun a b => a.same b = false) :
    (setOf items).elements? = some items :=
  congrArg some (foldl_add h)

end Value

/-! ### Containers of the same items -/

/-- An expression for a container of the items. -/
inductive Expr.Offers : Expr → List Value → Prop
  | list (items : List Value) : Offers (.const (.list items)) items
  | tuple (items : List Value) : Offers (.const (.tuple items)) items
  /-- A new stream, which nobody has taken from. -/
  | stream (items : List Value) : Offers (.stream (items.map .const)) items
  /-- A dictionary, with the items for its keys. -/
  | keys (entries : List (Value × Value))
      (h : (entries.map Prod.fst).Pairwise fun k l => k.same l = false) :
      Offers (.const (Value.dictOf entries)) (entries.map Prod.fst)
  | octets (content : List UInt8) :
      Offers (.const (.octets content)) (content.map fun o => .int o.toNat)
  | buffer (content : List UInt8) :
      Offers (.const (.buffer content)) (content.map fun o => .int o.toNat)
  | range (r : Progression) : Offers (.const (.range r)) (r.toList.map .int)

/-- A new stream gives all that was put into it. -/
theorem Store.take_openStream (store : Store) (items : List Value) :
    ((store.openStream items).2.take (store.openStream items).1).1 = some items := by
  rw [openStream, take, List.getElem?_concat_length]
  rfl

theorem Expr.evalAll_cons (e : Expr) (es : List Expr) (store : Store) :
    evalAll (e :: es) store = ((e.eval store).1 :: (evalAll es (e.eval store).2).1,
      (evalAll es (e.eval store).2).2) :=
  rfl

theorem Expr.evalAll_const (items : List Value) (store : Store) :
    evalAll (items.map .const) store = (items, store) := by
  induction items with
  | nil => rfl
  | cons v items ih => rw [List.map_cons, evalAll_cons, eval, ih]

namespace Session

/-- The input is the value with the items that are taken from it. -/
theorem input_eq (s : Session) (e : Expr) :
    s.input e = (.ofValue (e.eval s.store).1 ((e.eval s.store).2.take (e.eval s.store).1).1,
      { s with store := ((e.eval s.store).2.take (e.eval s.store).1).2 }) :=
  rfl

theorem input_stream (s : Session) (es : List Expr) :
    (s.input (.stream es)).1 = .many (Expr.evalAll es s.store).1 := by
  rw [input_eq, Expr.eval, Store.take_openStream]
  rfl

theorem input_dictOf (s : Session) {entries : List (Value × Value)}
    (h : (entries.map Prod.fst).Pairwise fun k l => k.same l = false) :
    (s.input (.const (Value.dictOf entries))).1 = .many (entries.map Prod.fst) := by
  show Input.ofValue (Value.dictOf entries) (Value.dictOf entries).elements? = _
  rw [Value.elements?_dictOf, Value.elements?_setOf h]
  rfl

end Session

/-- All containers of the same items are the same input. -/
theorem Expr.Offers.input_eq {e : Expr} {items : List Value} (h : e.Offers items) (s : Session) :
    (s.input e).1 = .many items := by
  cases h with
  | list | tuple | octets | buffer | range => rfl
  | stream => rw [Session.input_stream, evalAll_const]
  | keys entries hkeys => exact s.input_dictOf hkeys

end CharClass
