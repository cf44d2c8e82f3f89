import Mathlib.Data.List.Perm.Basic
import Mathlib.Data.List.Range
import Mathlib.Logic.Function.Basic
import Asio.Lib.Transition

/-! Promises that are combined: the first of several, and all of them. -/

universe u v

namespace Asio.Experimental.Promise

open Asio.Lib.Transition

/-- The promises are given one by one, or as a range. -/
inductive Form
  | variadic | range
  deriving DecidableEq

/-- The handler of a wait for one of the promises: it is installed, it is posted since the promise
was complete already, or it has been called. -/
inductive Wait (α : Type u)
  | installed
  | posted (value : α)
  | called

/-- The wait for the combined promise. -/
inductive Waiter (ρ : Type v)
  | none
  | installed
  | posted (result : ρ)
  | called (result : ρ)

/-- `promise_impl`, and the results that it has become done with. -/
structure Impl (ρ : Type v) where
  result : Option ρ
  done : Bool
  completion : Waiter ρ
  completions : List ρ

namespace Impl

variable {ρ : Type v}

def initial : Impl ρ := ⟨none, false, .none, []⟩

/-- The result is stored and passed to a handler that waits for it. -/
def finish (impl : Impl ρ) (r : ρ) : Impl ρ where
  result := some r
  done := true
  completion :=
    match impl.completion with
    | .installed => .called r
    | completion => completion
  completions := impl.completions ++ [r]

/-- The user waits once. -/
def asyncWait (impl : Impl ρ) : Option (Impl ρ) :=
  match impl.completion with
  | .none =>
    if impl.done then impl.result.map fun r => { impl with completion := .posted r }
    else some { impl with completion := .installed }
  | _ => none

def runPosted (impl : Impl ρ) : Option (Impl ρ) :=
  match impl.completion with
  | .posted r => some { impl with completion := .called r }
  | _ => none

end Impl

/-- What happens to the promises and to the one they are combined to. -/
inductive Action (α : Type u)
  | complete (i : Nat) (value : α)
  | runPosted (i : Nat)
  | cancelNext
  | asyncWait
  | runWaiter

variable {α : Type u}

/-- The handlers are installed, or posted for the promises that are complete already. -/
def waitsOf (early : Nat → Option α) (i : Nat) : Wait α :=
  match early i with
  | some value => .posted value
  | none => .installed

/-- The promise whose handler is called by an action, with its value. -/
def arrival (n : Nat) (waits : Nat → Wait α) : Action α → Option (Nat × α)
  | .complete i value =>
    match waits i with
    | .installed => if i < n then some (i, value) else none
    | _ => none
  | .runPosted i =>
    match waits i with
    | .posted value => if i < n then some (i, value) else none
    | _ => none
  | _ => none

/-- What the handler of a promise knows it by: a range is counted by an `unsigned int`. -/
def Form.index (form : Form) (i : Nat) : Nat :=
  match form with
  | .variadic => i
  | .range => i % 2 ^ 32

/-! ### The first -/

/-- Whose `cancel` is called when the promise `i` is the first: once for every other promise in one
form, always that of `i` itself, and that of the others in the other form. -/
def Form.cancels (form : Form) (n i : Nat) : List Nat :=
  match form with
  | .variadic => ((List.range n).filter (· ≠ i)).map fun _ => i
  | .range => (List.range n).filter fun j => j % 2 ^ 32 ≠ form.index i

/-- `arrived` are the promises whose handlers have been called. Of the promises whose `cancel` has
been called, those in `emitted` were not done. -/
structure Race (α : Type u) where
  waits : Nat → Wait α
  arrived : List (Nat × α)
  impl : Impl (Nat × α)
  cancelling : List Nat
  requests : List Nat
  emitted : List Nat

namespace Race

def start [Inhabited α] (form : Form) (n : Nat) (early : Nat → Option α) : Race α where
  waits := waitsOf early
  arrived := []
  impl := if form = .range ∧ n = 0 then Impl.initial.finish (2 ^ 64 - 1, default) else .initial
  cancelling := []
  requests := []
  emitted := []

def handler (form : Form) (n : Nat) (s : Race α) (i : Nat) (value : α) : Race α :=
  if s.impl.done then s
  else { s with
    impl := s.impl.finish (form.index i, value)
    cancelling := form.cancels n i }

/-- The handler of a promise is called. -/
def arrive (form : Form) (n : Nat) (s : Race α) (p : Nat × α) : Race α :=
  { s with
    waits := Function.update s.waits p.1 .called
    arrived := s.arrived ++ [p] }.handler form n p.1 p.2

/-- `cancel` -/
def cancel (s : Race α) (j : Nat) : Race α :=
  { s with
    requests := s.requests ++ [j]
    emitted :=
      match s.waits j with
      | .installed => s.emitted ++ [j]
      | _ => s.emitted }

def step (form : Form) (n : Nat) (s : Race α) (a : Action α) : Option (Race α) :=
  match a with
  | .complete .. | .runPosted _ => (arrival n s.waits a).map (s.arrive form n)
  | .cancelNext =>
    match s.cancelling with
    | [] => none
    | j :: rest => some ({ s with cancelling := rest }.cancel j)
  | .asyncWait => s.impl.asyncWait.map fun impl => { s with impl := impl }
  | .runWaiter => s.impl.runPosted.map fun impl => { s with impl := impl }

end Race

/-! ### All -/

structure All (α : Type u) where
  waits : Nat → Wait α
  arrived : List (Nat × α)
  partialResult : Nat → Option α
  impl : Impl (List α)

namespace All

def start (form : Form) (n : Nat) (early : Nat → Option α) : All α where
  waits := waitsOf early
  arrived := []
  partialResult := fun _ => none
  impl := if form = .range ∧ n = 0 then Impl.initial.finish [] else .initial

def handler (form : Form) (n : Nat) (s : All α) (i : Nat) (value : α) : All α :=
  let partialResult := Function.update s.partialResult (form.index i) (some value)
  { s with
    partialResult := partialResult
    impl :=
      if ∀ j < n, (partialResult j).isSome = true then
        s.impl.finish ((List.range n).filterMap partialResult)
      else s.impl }

/-- The handler of a promise is called. -/
def arrive (form : Form) (n : Nat) (s : All α) (p : Nat × α) : All α :=
  { s with
    waits := Function.update s.waits p.1 .called
    arrived := s.arrived ++ [p] }.handler form n p.1 p.2

def step (form : Form) (n : Nat) (s : All α) (a : Action α) : Option (All α) :=
  match a with
  | .complete .. | .runPosted _ => (arrival n s.waits a).map (s.arrive form n)
  | .cancelNext => none
  | .asyncWait => s.impl.asyncWait.map fun impl => { s with impl := impl }
  | .runWaiter => s.impl.runPosted.map fun impl => { s with impl := impl }

end All

end Asio.Experimental.Promise
