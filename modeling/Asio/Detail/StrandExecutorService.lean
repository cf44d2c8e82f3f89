import Asio.Lib.Interleaving

/-! A strand over an executor: two queues, a mutex and the lock of the strand. -/

universe u v

namespace Asio.Detail.StrandExecutorService

open Lib

/-- How a function is given to a strand; an executor may be one that never blocks. -/
inductive Submission
  | execute (neverBlocks : Bool) | dispatch | post | defer
  deriving DecidableEq, Repr

/-- Whether a function may be called before the call that it is given to returns. -/
def Submission.immediate : Submission → Bool
  | .execute neverBlocks => !neverBlocks
  | .dispatch => true
  | .post | .defer => false

/-- The members of the implementation, the invokers that the executor has been given, and a
record of what became of the functions. An operation in `acquired` has got the lock and is still
to be pushed. -/
structure StrandImpl (α : Type u) where
  locked : Bool
  shutdown : Bool
  waitingQueue : List α
  readyQueue : List α
  scheduled : Nat
  submitted : List α
  enqueued : List α
  acquired : List α
  completed : List α
  invoked : List α
  refused : List α
  cut : List α
  deriving DecidableEq

/-- Calls of a thread: in `enqueue` after it has got the lock, giving an invoker to the executor,
in the loop of `run_ready_handlers` before and after it reads the front of the queue, in the
function of an operation, in a function that has been called at once, and in the two parts of
`~on_invoker_exit`. -/
inductive Call (α : Type u)
  | enqueue (op : α) (how : Submission)
  | schedule (how : Submission)
  | runReadyHandlers
  | pop (op : α)
  | complete (op : α)
  | invoke (op : α)
  | onInvokerExit
  | reschedule
  deriving DecidableEq, Repr

inductive Action (α : Type u)
  | submit (how : Submission) (op : α)
  | push
  | schedule (atOnce : Bool)
  | invoke
  | front
  | pop
  | return
  | throw
  | pushWaitingToReady
  | reschedule
  | shutdown
  deriving DecidableEq, Repr

variable {ι : Type v} {α : Type u}

/-- The context of the strand is on the call stack. -/
def runningInThisThread (calls : List (Call α)) : Bool :=
  calls.any fun
    | .runReadyHandlers | .pop _ => true
    | _ => false

/-- Only the user's code gives functions to strands and runs the functions of executors. -/
def inUserCode : List (Call α) → Bool
  | [] | .complete _ :: _ | .invoke _ :: _ => true
  | _ => false

def enqueue (impl : StrandImpl α) (op : α) : Bool × StrandImpl α :=
  if impl.shutdown then
    (false, { impl with refused := impl.refused ++ [op] })
  else if impl.locked then
    (false, { impl with
      waitingQueue := impl.waitingQueue ++ [op]
      enqueued := impl.enqueued ++ [op] })
  else
    (true, { impl with
      locked := true
      acquired := [op]
      enqueued := impl.enqueued ++ [op] })

def pushWaitingToReady (impl : StrandImpl α) : Bool × StrandImpl α :=
  let readyQueue := impl.readyQueue ++ impl.waitingQueue
  (!readyQueue.isEmpty, { impl with
    readyQueue := readyQueue
    waitingQueue := []
    locked := !readyQueue.isEmpty })

def shutdown (impl : StrandImpl α) : StrandImpl α :=
  { impl with
    shutdown := true
    waitingQueue := []
    readyQueue := []
    cut := impl.cut ++ (impl.waitingQueue ++ impl.readyQueue) }

/-- `execute`, `dispatch`, `post` and `defer`, up to the mutex. -/
def submit (impl : StrandImpl α) (calls : List (Call α)) (how : Submission) (op : α) :
    StrandImpl α × List (Call α) :=
  let impl := { impl with submitted := impl.submitted ++ [op] }
  if how.immediate && runningInThisThread calls then
    ({ impl with invoked := impl.invoked ++ [op] }, .invoke op :: calls)
  else
    let (first, impl) := enqueue impl op
    (impl, if first then .enqueue op how :: calls else calls)

/-- What a thread does next, with an exception that leaves a function at the loop or at the code
that has called it. -/
def perform (impl : StrandImpl α) (calls : List (Call α)) :
    Action α → Option (StrandImpl α × List (Call α))
  | .submit how op => if inUserCode calls then some (submit impl calls how op) else none
  | .push =>
    match calls with
    | .enqueue op how :: calls =>
      some ({ impl with readyQueue := impl.readyQueue ++ [op], acquired := [] },
        .schedule how :: calls)
    | _ => none
  | .schedule atOnce =>
    match calls with
    | .schedule how :: calls =>
      if atOnce then
        if how.immediate then some (impl, .runReadyHandlers :: calls) else none
      else some ({ impl with scheduled := impl.scheduled + 1 }, calls)
    | _ => none
  | .invoke =>
    if inUserCode calls && 0 < impl.scheduled then
      some ({ impl with scheduled := impl.scheduled - 1 }, .runReadyHandlers :: calls)
    else none
  | .front =>
    match calls with
    | .runReadyHandlers :: calls =>
      match impl.readyQueue with
      | [] => some (impl, .onInvokerExit :: calls)
      | op :: _ => some (impl, .pop op :: calls)
    | _ => none
  | .pop =>
    match calls with
    | .pop op :: calls =>
      some ({ impl with
          readyQueue := impl.readyQueue.tail
          completed := impl.completed ++ [op] },
        .complete op :: .runReadyHandlers :: calls)
    | _ => none
  | .return =>
    match calls with
    | .complete _ :: calls | .invoke _ :: calls => some (impl, calls)
    | _ => none
  | .throw =>
    match calls with
    | .complete _ :: .runReadyHandlers :: calls => some (impl, .onInvokerExit :: calls)
    | .invoke _ :: calls => some (impl, calls)
    | _ => none
  | .pushWaitingToReady =>
    match calls with
    | .onInvokerExit :: calls =>
      let (moreHandlers, impl) := pushWaitingToReady impl
      some (impl, if moreHandlers then .reschedule :: calls else calls)
    | _ => none
  | .reschedule =>
    match calls with
    | .reschedule :: calls => some ({ impl with scheduled := impl.scheduled + 1 }, calls)
    | _ => none
  | .shutdown => if calls = [] then some (shutdown impl, []) else none

/-- Threads that share the implementation, each with the calls that it is in. -/
abbrev State (ι : Type v) (α : Type u) := Interleaving.State ι (StrandImpl α) (List (Call α))

def initial : State ι α where
  shared := ⟨false, false, [], [], 0, [], [], [], [], [], [], []⟩
  part _ := []

def step [DecidableEq ι] : State ι α → ι × Action α → Option (State ι α) :=
  Interleaving.step fun _ => perform

/-- Every function is another one, and the context is destroyed when no thread is in its code. -/
def Ok (s : State ι α) (a : ι × Action α) : Prop :=
  match a.2 with
  | .submit _ op => op ∉ s.shared.submitted
  | .shutdown => ∀ i, s.part i = []
  | _ => True

instance [Fintype ι] [DecidableEq α] (s : State ι α) (a : ι × Action α) : Decidable (Ok s a) := by
  obtain ⟨i, a⟩ := a
  induction a using Action.casesOn <;> dsimp only [Ok] <;> infer_instance

end Asio.Detail.StrandExecutorService
