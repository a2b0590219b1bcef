import CharClass.Proofs.Containers

/-!
# A stream is drained once

A session can only take from a stream that it mentions, by a name that stands for it. Everything
else leaves what is in the stream, and gives it no other name. So the first request for a stream
finds all its items, whatever came between, and each later one finds none. It makes no difference
whether the first request failed at one of the items, since all of them were taken before.

## Main definitions

* `Expr.leaves`, `Operation.leaves`: what is mentioned at the bottom of an expression
* `Store.Apart`: nothing that is mentioned stands for the stream
* `Store.Spares`: what is in the stream is still there, and no other name stands for it
* `Handled`: the steps of a session request the stream, give it another name or leave it alone

## Main statements

* `Expr.eval_spares`, `Operation.run_spares`: who does not mention a stream takes nothing from it
* `Handled.requests`, `Handled.left`: any requests are such steps, and what such steps leave in the
  stream
* `only_items_matter`: containers of the same items answer alike, and a stream is drained once
-/

namespace CharClass

/-! ### What is mentioned -/

namespace Expr

mutual

/-- The constants and names that an expression is made of. -/
def leaves : Expr → List Expr
  | const v => [const v]
  | nan => []
  | list items => leavesAll items
  | tuple items => leavesAll items
  | set items => leavesAll items
  | dict entries => leavesEntries entries
  | stream items => leavesAll items
  | concat parts => leavesAll parts
  | repeated item _ => leaves item
  | named name => [named name]
termination_by structural e => e

def leavesAll : List Expr → List Expr
  | [] => []
  | e :: es => leaves e ++ leavesAll es
termination_by structural es => es

def leavesEntries : List (Expr × Expr) → List Expr
  | [] => []
  | (key, value) :: rest => leaves key ++ (leaves value ++ leavesEntries rest)
termination_by structural es => es

end

end Expr

namespace Operation

mutual

/-- The constants and names in the expressions of an operation. -/
def leaves : Operation → List Expr
  | pattern set _ => set.leaves
  | tokens set => set.leaves
  | input set => set.leaves
  | members set => set.leaves
  | uniform items => items.leaves
  | census set => set.leaves
  | isCharacter item => item.leaves
  | point item => item.leaves
  | spell item => item.leaves
  | spellPoint _ => []
  | spellToken _ => []
  | strategy points => points.leaves
  | distinct _ points => points.leaves
  | tokensOfPoints points => points.leaves
  | setVerbose _ => []
  | setThreshold _ => []
  | bind _ value => value.leaves
  | settings => []
  | session steps => leavesAll steps
termination_by structural o => o

def leavesAll : List Operation → List Expr
  | [] => []
  | step :: steps => leaves step ++ leavesAll steps
termination_by structural steps => steps

end

end Operation

namespace Store

variable {id : Nat} {s t u : Store} {leaves more : List Expr} {v : Value} {rest : List Value}

/-- None of the constants and names stands for the stream. -/
def Apart (s : Store) (id : Nat) (leaves : List Expr) : Prop :=
  ∀ leaf ∈ leaves, leaf ≠ .const (.stream id) ∧
    ∀ name, leaf = .named name → s.lookup? name ≠ some (.stream id)

theorem apart_append : s.Apart id (leaves ++ more) ↔ s.Apart id leaves ∧ s.Apart id more :=
  List.forall_mem_append

/-! ### What leaves a stream alone -/

/-- From one store to the next, nothing is taken from the stream, and no name comes to stand for
it. -/
structure Spares (id : Nat) (s t : Store) : Prop where
  left : ∀ rest, s.streams[id]? = some rest → t.streams[id]? = some rest
  names : ∀ name, t.lookup? name = some (.stream id) → s.lookup? name = some (.stream id)

namespace Spares

theorem refl : Spares id s s :=
  ⟨fun _ h => h, fun _ h => h⟩

theorem trans (hst : Spares id s t) (htu : Spares id t u) : Spares id s u :=
  ⟨fun rest h => htu.left rest (hst.left rest h), fun name h => hst.names name (htu.names name h)⟩

theorem lt_length (h : Spares id s t) (hid : id < s.streams.length) : id < t.streams.length :=
  (List.getElem?_eq_some_iff.1 (h.left _ (List.getElem?_eq_getElem hid))).1

/-- What does not stand for the stream still does not. -/
theorem apart (h : Spares id s t) (hs : s.Apart id leaves) : t.Apart id leaves :=
  fun leaf hleaf => ⟨(hs leaf hleaf).1, fun name hname hlookup =>
    (hs leaf hleaf).2 name hname (h.names name hlookup)⟩

/-- What comes next may rely on the stream being there still, and not mentioned still. -/
theorem andThen (hst : Spares id s t) (hid : id < s.streams.length) (hs : s.Apart id leaves)
    (hnext : id < t.streams.length → t.Apart id leaves → Spares id t u) : Spares id s u :=
  hst.trans (hnext (hst.lt_length hid) (hst.apart hs))

end Spares

theorem spares_newNaN (s : Store) : Spares id s s.newNaN.2 :=
  ⟨fun _ h => h, fun _ h => h⟩

theorem spares_openStream (items : List Value) : Spares id s (s.openStream items).2 where
  left rest h := by
    obtain ⟨hid, -⟩ := List.getElem?_eq_some_iff.1 h
    rw [openStream, List.getElem?_append_left hid]
    exact h
  names _ h := h

/-- A new stream is another. -/
theorem openStream_ne (hid : id < s.streams.length) (items : List Value) :
    (s.openStream items).1 ≠ .stream id := by
  intro h
  obtain rfl : s.streams.length = id := Value.stream.inj h
  exact Nat.lt_irrefl _ hid

/-- Taking from another container leaves the stream alone. -/
theorem spares_take (hv : v ≠ .stream id) : Spares id s (s.take v).2 := by
  cases v with
  | stream k =>
    have hk : k ≠ id := fun h => hv (congrArg Value.stream h)
    refine ⟨fun rest h => ?_, fun _ h => h⟩
    rw [take, List.getElem?_set_ne hk]
    exact h
  | _ => exact .refl

/-- Taking binds no name. -/
theorem lookup?_take (s : Store) (v : Value) (name : String) :
    (s.take v).2.lookup? name = s.lookup? name := by
  cases v <;> rfl

theorem spares_bind (hv : v ≠ .stream id) (name : String) : Spares id s (s.bind name v) where
  left _ h := h
  names other h := by
    rw [lookup?, bind, List.lookup_cons] at h
    split at h
    · exact absurd (Option.some.inj h) hv
    · exact h

end Store

/-! ### Evaluation -/

namespace Expr

open Store

variable {id : Nat}

mutual

/-- An expression that does not mention a stream takes nothing from it, and does not stand for it
itself. -/
theorem eval_spares : ∀ (e : Expr) (s : Store), id < s.streams.length → s.Apart id e.leaves →
    Spares id s (e.eval s).2 ∧ (e.eval s).1 ≠ .stream id
  | const v, _, _, h =>
    ⟨.refl, fun hv => (h _ (List.mem_singleton.2 rfl)).1 (congrArg const hv)⟩
  | nan, s, _, _ => ⟨spares_newNaN s, nofun⟩
  | list items, s, hid, h | tuple items, s, hid, h | set items, s, hid, h =>
    ⟨evalAll_spares items s hid h, nofun⟩
  | dict entries, s, hid, h => ⟨evalEntries_spares entries s hid h, nofun⟩
  | stream items, s, hid, h => by
    have hitems := evalAll_spares items s hid h
    exact ⟨hitems.trans (spares_openStream _), openStream_ne (hitems.lt_length hid) _⟩
  | concat parts, s, hid, h => ⟨evalParts_spares parts s hid h, nofun⟩
  | repeated item _, s, hid, h => ⟨(eval_spares item s hid h).1, nofun⟩
  | named name, s, _, h => by
    refine ⟨.refl, fun hv => ?_⟩
    have hname := (h _ (List.mem_singleton.2 rfl)).2 name rfl
    rw [eval] at hv
    cases hlookup : s.lookup? name with
    | none =>
      rw [hlookup] at hv
      cases hv
    | some v =>
      rw [hlookup] at hv
      exact hname (hlookup.trans (congrArg some hv))

theorem evalAll_spares : ∀ (es : List Expr) (s : Store), id < s.streams.length →
    s.Apart id (leavesAll es) → Spares id s (evalAll es s).2
  | [], _, _, _ => .refl
  | e :: es, s, hid, h => by
    obtain ⟨he, hes⟩ := apart_append.1 h
    have hstep := (eval_spares e s hid he).1
    exact hstep.andThen hid hes (evalAll_spares es _)

theorem evalEntries_spares : ∀ (entries : List (Expr × Expr)) (s : Store),
    id < s.streams.length → s.Apart id (leavesEntries entries) →
      Spares id s (evalEntries entries s).2
  | [], _, _, _ => .refl
  | (key, value) :: rest, s, hid, h => by
    obtain ⟨hkey, hmore⟩ := apart_append.1 h
    obtain ⟨hvalue, hrest⟩ := apart_append.1 hmore
    have hfirst := (eval_spares key s hid hkey).1
    have hboth := hfirst.andThen hid hvalue fun hid hvalue => (eval_spares value _ hid hvalue).1
    exact hboth.andThen hid hrest (evalEntries_spares rest _)

/-- Parts are taken from, but none of them is the stream. -/
theorem evalParts_spares : ∀ (parts : List Expr) (s : Store), id < s.streams.length →
    s.Apart id (leavesAll parts) → Spares id s (evalParts parts s).2
  | [], _, _, _ => .refl
  | part :: parts, s, hid, h => by
    obtain ⟨hpart, hparts⟩ := apart_append.1 h
    obtain ⟨hstep, hother⟩ := eval_spares part s hid hpart
    exact (hstep.trans (spares_take hother)).andThen hid hparts (evalParts_spares parts _)

end

end Expr

/-! ### Operations -/

namespace Session

open Store

variable {id : Nat} {s : Session} {e : Expr}

theorem spares_eval (hid : id < s.store.streams.length) (h : s.store.Apart id e.leaves) :
    Spares id s.store (s.eval e).2.store :=
  (e.eval_spares s.store hid h).1

theorem spares_take (hid : id < s.store.streams.length) (h : s.store.Apart id e.leaves) :
    Spares id s.store (s.take e).2.store := by
  obtain ⟨heval, hother⟩ := e.eval_spares s.store hid h
  exact heval.trans (Store.spares_take hother)

end Session

namespace Operation

open Store Session

variable {id : Nat}

mutual

/-- An operation that does not mention a stream takes nothing from it, and no name comes to stand
for it. -/
theorem run_spares : ∀ (o : Operation) (s : Session), id < s.store.streams.length →
    s.store.Apart id o.leaves → Spares id s.store (run o s).2.store
  | pattern _ _, _, hid, h | tokens _, _, hid, h | input _, _, hid, h | members _, _, hid, h
  | uniform _, _, hid, h | census _, _, hid, h | strategy _, _, hid, h
  | distinct (some _) _, _, hid, h | distinct none _, _, hid, h | tokensOfPoints _, _, hid, h =>
    spares_take hid h
  | isCharacter _, _, hid, h | point _, _, hid, h | spell _, _, hid, h => spares_eval hid h
  | spellPoint _, _, _, _ | spellToken _, _, _, _ | setVerbose _, _, _, _
  | setThreshold _, _, _, _ | settings, _, _, _ => .refl
  | bind name value, s, hid, h => by
    obtain ⟨heval, hother⟩ := value.eval_spares s.store hid h
    exact heval.trans (spares_bind hother name)
  | session steps, s, hid, h => runAll_spares steps s hid h

theorem runAll_spares : ∀ (steps : List Operation) (s : Session), id < s.store.streams.length →
    s.store.Apart id (leavesAll steps) → Spares id s.store (runAll steps s).2.store
  | [], _, _, _ => .refl
  | step :: steps, s, hid, h => by
    obtain ⟨hstep, hsteps⟩ := apart_append.1 h
    exact (run_spares step s hid hstep).andThen hid hsteps (runAll_spares steps _)

end

/-! ### Steps in order -/

theorem runAll_cons (step : Operation) (steps : List Operation) (s : Session) :
    runAll (step :: steps) s =
      ((run step s).1 :: (runAll steps (run step s).2).1, (runAll steps (run step s).2).2) :=
  rfl

theorem length_runAll (steps : List Operation) (s : Session) :
    (runAll steps s).1.length = steps.length := by
  induction steps generalizing s with
  | nil => rfl
  | cons step steps ih => rw [runAll_cons, List.length_cons, List.length_cons, ih]

theorem runAll_append (before after : List Operation) (s : Session) :
    runAll (before ++ after) s =
      ((runAll before s).1 ++ (runAll after (runAll before s).2).1,
        (runAll after (runAll before s).2).2) := by
  induction before generalizing s with
  | nil => rfl
  | cons step before ih => rw [List.cons_append, runAll_cons, ih, runAll_cons, List.cons_append]

/-- The reply to a step depends on what the steps before it left behind. -/
theorem getElem?_runAll (before after : List Operation) (step : Operation) (s : Session) :
    (runAll (before ++ step :: after) s).1[before.length]? =
      some (run step (runAll before s).2).1 := by
  rw [runAll_append, runAll_cons, ← length_runAll before s,
    List.getElem?_append_right (Nat.le_refl _), Nat.sub_self, List.getElem?_cons_zero]

end Operation

/-! ### Sessions with a stream -/

/-- The steps request the stream, give it one more name or do not mention it. It is recorded
whether it is requested at all. -/
inductive Handled (id : Nat) : Session → List Operation → Bool → Prop
  | nil (s : Session) : Handled id s [] false
  | request {s : Session} {steps : List Operation} {requested : Bool} (r : Request) (name : String)
      (hname : s.store.lookup? name = some (.stream id))
      (h : Handled id ((r.on (.named name)).run s).2 steps requested) :
      Handled id s (r.on (.named name) :: steps) true
  | rename {s : Session} {steps : List Operation} {requested : Bool} (other name : String)
      (h : Handled id ((Operation.bind other (.named name)).run s).2 steps requested) :
      Handled id s (.bind other (.named name) :: steps) requested
  | apart {s : Session} {steps : List Operation} {requested : Bool} (o : Operation)
      (ho : s.store.Apart id o.leaves) (h : Handled id (o.run s).2 steps requested) :
      Handled id s (o :: steps) requested

section Streams

open Operation

variable {id : Nat} {s : Session} {name : String} {rest : List Value}

/-- A name for a stream offers what is left in it, and leaves nothing. -/
theorem Session.input_named (hname : s.store.lookup? name = some (.stream id))
    (hleft : s.store.streams[id]? = some rest) :
    (s.input (.named name)).1 = .many rest ∧
      (s.input (.named name)).2.store.streams[id]? = some [] := by
  obtain ⟨hid, -⟩ := List.getElem?_eq_some_iff.1 hleft
  rw [input_eq, Expr.eval, hname, Option.getD_some, Store.take, hleft]
  exact ⟨rfl, List.getElem?_set_self hid⟩

/-- A request for a stream is answered as for the list of what is left in it. -/
theorem run_on_named (r : Request) (hname : s.store.lookup? name = some (.stream id))
    (hleft : s.store.streams[id]? = some rest) :
    (run (r.on (.named name)) s).1 = (run (r.on (.const (.list rest))) s).1 ∧
      (run (r.on (.named name)) s).2.store.streams[id]? = some [] := by
  obtain ⟨hinput, hdrained⟩ := Session.input_named hname hleft
  rw [run_on, run_on, hinput]
  exact ⟨rfl, hdrained⟩

/-- Steps that handle a stream leave all of it, or nothing if one of them requested it. -/
theorem Handled.left {steps : List Operation} {requested : Bool}
    (h : Handled id s steps requested) (hleft : s.store.streams[id]? = some rest) :
    (runAll steps s).2.store.streams[id]? = some (if requested then [] else rest) := by
  induction h generalizing rest with
  | nil => exact hleft
  | request r name hname _ ih =>
    -- from here on the stream holds nothing, whether it is requested again or not
    have hdrained := ih (run_on_named r hname hleft).2
    rw [ite_self] at hdrained
    exact hdrained
  | rename other name _ ih => exact ih hleft
  | apart o ho _ ih =>
    obtain ⟨hid, -⟩ := List.getElem?_eq_some_iff.1 hleft
    exact ih ((run_spares o _ hid ho).left _ hleft)

/-- Any requests in any order handle the stream that their name stands for. -/
theorem Handled.requests (hname : s.store.lookup? name = some (.stream id))
    (requests : List Request) :
    Handled id s (requests.map fun r => r.on (.named name)) !requests.isEmpty := by
  induction requests generalizing s with
  | nil => exact .nil s
  | cons r requests ih =>
    refine .request r name hname (ih ?_)
    rw [run_on, Session.input_eq, Expr.eval, Store.lookup?_take]
    exact hname

/-- The name that a new stream is bound to stands for it, and all its items are in it. -/
theorem exists_bound_stream (s : Session) (name : String) (contents : List Expr) :
    ∃ id, (run (.bind name (.stream contents)) s).2.store.lookup? name = some (.stream id) ∧
      (run (.bind name (.stream contents)) s).2.store.streams[id]? =
        some (Expr.evalAll contents s.store).1 := by
  refine ⟨(Expr.evalAll contents s.store).2.streams.length, ?_, ?_⟩
  · exact List.lookup_cons_self
  · exact List.getElem?_concat_length

end Streams

/-- Only the items of a container matter, and a stream is drained once. Whatever is requested, the
reply is the same for all containers of the same items, and unless it is asked whether there is one
item or many, a text of any length replies like the list of its characters. If a name is bound to a
new stream, then among steps that handle it, the first request for it replies as for the list of
all its items and every later one as for the empty list, whatever became of those before. -/
theorem only_items_matter (s : Session) (r : Request) :
    (∀ e items, e.Offers items →
      ((r.on e).run s).1 = ((r.on (.const (.list items))).run s).1) ∧
    (r ≠ .input → ∀ content : Text,
      ((r.on (.const (.text content))).run s).1 =
        ((r.on (.const (.list (content.map fun c => .text [c])))).run s).1) ∧
    ∀ name contents opened, opened = ((Operation.bind name (.stream contents)).run s).2 →
      ∃ id, opened.store.lookup? name = some (.stream id) ∧
        ∀ before requested known after, Handled id opened before requested →
          (Operation.runAll before opened).2.store.lookup? known = some (.stream id) →
          (Operation.runAll (before ++ r.on (.named known) :: after) opened).1[before.length]? =
            some ((r.on (.const (.list
              (if requested then [] else (Expr.evalAll contents s.store).1)))).run
                (Operation.runAll before opened).2).1 := by
  refine ⟨fun e items h => ?_, fun hr content => ?_, ?_⟩
  · rw [Operation.run_on, Operation.run_on, h.input_eq]
    rfl
  · rw [Operation.run_on, Operation.run_on]
    exact Request.reply_ofText hr s.settings content
  · rintro name contents _ rfl
    obtain ⟨id, hname, hleft⟩ := exists_bound_stream s name contents
    refine ⟨id, hname, fun before requested known after hhandled hknown => ?_⟩
    rw [Operation.getElem?_runAll, (run_on_named r hknown (hhandled.left hleft)).1]

/-- A character, and an item that stands for no point. -/
private def halfSpellable : List Expr :=
  [.const (.text [.openBracket]), .const .null]

/-- A session with a stream of them. -/
private def halfway : Session :=
  ((Operation.bind "it" (.stream halfSpellable)).run {}).2

/-- Two keys, a character, and a stream with three requests. The first request for the stream fails
at its second item, and the last one, under another name, finds nothing. -/
theorem only_items_matter_halfway :
    let dictionary := Value.dictOf [(.int 1, .null), (.bool false, .null)]
    let before := [(Request.pattern false).on (.named "it"), .bind "other" (.named "it"),
      Request.census.on (.named "it")]
    (Request.members.on (.const dictionary)).run {} =
        (.silent (.ok (.values [.int 1, .bool false])), {}) ∧
      (Request.members.on (.const (.text [.openBracket]))).run {} =
        (.silent (.ok (.values [.text [.openBracket]])), {}) ∧
      (∃ fault, (((Request.pattern false).on (.named "it")).run halfway).1.result = .error fault) ∧
      Handled 0 halfway before true ∧
      (Operation.runAll (before ++ Request.members.on (.named "other") :: []) halfway).1[3]? =
        some (.silent (.ok (.values []))) := by
  intro dictionary before
  have hkeys : Expr.Offers (.const dictionary) [.int 1, .bool false] :=
    .keys [(.int 1, .null), (.bool false, .null)] (by decide)
  have hhandled : Handled 0 halfway before true :=
    .request _ _ rfl (.rename _ _ (.request _ _ rfl (.nil _)))
  obtain ⟨hcontainers, htexts, hstream⟩ := only_items_matter {} .members
  obtain ⟨id, hname, hreplies⟩ := hstream "it" halfSpellable halfway rfl
  obtain rfl : 0 = id := Value.stream.inj (Option.some.inj hname)
  refine ⟨Prod.ext (hcontainers _ _ hkeys) rfl, Prod.ext (htexts nofun [.openBracket]) rfl,
    ⟨_, rfl⟩, hhandled, ?_⟩
  exact hreplies before true "other" [] hhandled rfl

end CharClass
