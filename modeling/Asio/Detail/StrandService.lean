import Asio.Lib.Interleaving

/-! A strand of an `io_context`, which is an operation of the scheduler itself. -/

universe u v

namespace Asio.Detail.StrandService

open Lib

/-- The members of the implementation, how often it is in the scheduler's queue, and a record of
the handlers. An operation in `acquired` has got the lock and is still to be completed or pushed. -/
structure StrandImpl (α : Type u) where
  locked : Bool
  waitingQueue : List α
  readyQueue : List α
  queued : Nat
  submitted : List α
  ordered : List α
  acquired : List α
  completed : List α
  invoked : List α
  deriving DecidableEq

/-- Calls of a thread: in `do_dispatch` with the lock for an operation that it completes itself, in
`do_dispatch` or `do_post` with the lock for one that it queues, before and after it has pushed it,
in `do_dispatch` while the operation is completed, in the loop of `do_complete` before and after it
reads the front of the queue, in the handler of an operation, in a handler that has been called at
once, and in the two parts of `~on_dispatch_exit` and `~on_do_complete_exit`. -/
inductive Call (α : Type u)
  | doDispatch (op : α)
  | push (op : α)
  | postImmediateCompletion
  | dispatching
  | doComplete
  | pop (op : α)
  | complete (op : α)
  | invoke (op : α)
  | onExit
  | repost
  deriving DecidableEq, Repr

/-- A thread for which `can_dispatch` is true runs the scheduler. -/
inductive Action (α : Type u)
  | dispatch (canDispatch : Bool) (op : α)
  | post (op : α)
  | complete
  | push
  | postImmediateCompletion
  | doComplete
  | front
  | pop
  | return
  | throw
  | onExit
  | repost
  deriving DecidableEq, Repr

variable {ι : Type v} {α : Type u}

/-- The context of the strand is on the call stack, which it leaves after the guards. -/
def runningInThisThread (calls : List (Call α)) : Bool :=
  calls.any fun
    | .dispatching | .doComplete | .pop _ | .onExit | .repost => true
    | _ => false

/-- Only the user's code gives handlers to strands and runs the scheduler. -/
def inUserCode : List (Call α) → Bool
  | [] | .complete _ :: _ | .invoke _ :: _ => true
  | _ => false

def doPost (impl : StrandImpl α) (calls : List (Call α)) (op : α) :
    StrandImpl α × List (Call α) :=
  if impl.locked then
    ({ impl with
      waitingQueue := impl.waitingQueue ++ [op]
      ordered := impl.ordered ++ [op] }, calls)
  else
    ({ impl with
      locked := true
      acquired := [op]
      ordered := impl.ordered ++ [op] }, .push op :: calls)

/-- Without immediate invocation it goes on as `do_post` does. -/
def doDispatch (impl : StrandImpl α) (calls : List (Call α)) (canDispatch : Bool) (op : α) :
    StrandImpl α × List (Call α) :=
  if canDispatch && !impl.locked then
    ({ impl with
      locked := true
      acquired := [op]
      ordered := impl.ordered ++ [op] }, .doDispatch op :: calls)
  else doPost impl calls op

def dispatch (impl : StrandImpl α) (calls : List (Call α)) (canDispatch : Bool) (op : α) :
    StrandImpl α × List (Call α) :=
  let impl := { impl with submitted := impl.submitted ++ [op] }
  if runningInThisThread calls then
    ({ impl with invoked := impl.invoked ++ [op] }, .invoke op :: calls)
  else doDispatch impl calls canDispatch op

def post (impl : StrandImpl α) (calls : List (Call α)) (op : α) : StrandImpl α × List (Call α) :=
  doPost { impl with submitted := impl.submitted ++ [op] } calls op

/-- The destructors of `on_dispatch_exit` and `on_do_complete_exit` up to the mutex. -/
def onExit (impl : StrandImpl α) : Bool × StrandImpl α :=
  let readyQueue := impl.readyQueue ++ impl.waitingQueue
  (!readyQueue.isEmpty, { impl with
    readyQueue := readyQueue
    waitingQueue := []
    locked := !readyQueue.isEmpty })

/-- What a thread does next, with an exception that leaves a handler at the guards or at the code
that has called it. -/
def perform (impl : StrandImpl α) (calls : List (Call α)) :
    Action α → Option (StrandImpl α × List (Call α))
  | .dispatch canDispatch op =>
    if inUserCode calls then some (dispatch impl calls canDispatch op) else none
  | .post op => if inUserCode calls then some (post impl calls op) else none
  | .complete =>
    match calls with
    | .doDispatch op :: calls =>
      some ({ impl with acquired := [], completed := impl.completed ++ [op] },
        .complete op :: .dispatching :: calls)
    | _ => none
  | .push =>
    match calls with
    | .push op :: calls =>
      some ({ impl with readyQueue := impl.readyQueue ++ [op], acquired := [] },
        .postImmediateCompletion :: calls)
    | _ => none
  | .postImmediateCompletion =>
    match calls with
    | .postImmediateCompletion :: calls => some ({ impl with queued := impl.queued + 1 }, calls)
    | _ => none
  | .doComplete =>
    if inUserCode calls && 0 < impl.queued then
      some ({ impl with queued := impl.queued - 1 }, .doComplete :: calls)
    else none
  | .front =>
    match calls with
    | .doComplete :: calls =>
      match impl.readyQueue with
      | [] => some (impl, .onExit :: calls)
      | op :: _ => some (impl, .pop op :: calls)
    | _ => none
  | .pop =>
    match calls with
    | .pop op :: calls =>
      some ({ impl with
          readyQueue := impl.readyQueue.tail
          completed := impl.completed ++ [op] },
        .complete op :: .doComplete :: calls)
    | _ => none
  | .return =>
    match calls with
    | .complete _ :: .dispatching :: calls => some (impl, .onExit :: calls)
    | .complete _ :: calls | .invoke _ :: calls => some (impl, calls)
    | _ => none
  | .throw =>
    match calls with
    | .complete _ :: .dispatching :: calls | .complete _ :: .doComplete :: calls =>
      some (impl, .onExit :: calls)
    | .invoke _ :: calls => some (impl, calls)
    | _ => none
  | .onExit =>
    match calls with
    | .onExit :: calls =>
      let (moreHandlers, impl) := onExit impl
      some (impl, if moreHandlers then .repost :: calls else calls)
    | _ => none
  | .repost =>
    match calls with
    | .repost :: calls => some ({ impl with queued := impl.queued + 1 }, calls)
    | _ => none

/-- Threads that share the implementation, each with the calls that it is in. -/
abbrev State (ι : Type v) (α : Type u) := Interleaving.State ι (StrandImpl α) (List (Call α))

def initial : State ι α where
  shared := ⟨false, [], [], 0, [], [], [], [], []⟩
  part _ := []

def step [DecidableEq ι] : State ι α → ι × Action α → Option (State ι α) :=
  Interleaving.step fun _ => perform

/-- Every handler is another one. -/
def Fresh (s : State ι α) (a : ι × Action α) : Prop :=
  match a.2 with
  | .dispatch _ op | .post op => op ∉ s.shared.submitted
  | _ => True

instance [DecidableEq α] (s : State ι α) (a : ι × Action α) : Decidable (Fresh s a) := by
  obtain ⟨i, a⟩ := a
  induction a using Action.casesOn <;> dsimp only [Fresh] <;> infer_instance

end Asio.Detail.StrandService
