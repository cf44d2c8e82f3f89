import Asio.Detail.ReactorOpHistory
import Asio.Lib.Transition

/-! The queues of an I/O object of the io_uring service. -/

namespace Asio.Detail.IoUring

def noBufferSpace : Nat := 105
def operationAborted : Nat := 125
def canceled : Int := 125

/-- An entry of the ring that carries a queue. -/
inductive Entry
  | submission
  | completion (res : Int)
  deriving DecidableEq

/-- A queue is an operation of the scheduler. `entries` are its entries in the ring, `scheduled` says
how many times it is in the queue of the scheduler, `running` are the results with which threads are
completing it, and `arming` counts the calls of `start_op` that have not come to the ring yet. -/
structure IoQueue where
  opQueue : List ReactorOp
  cancelRequested : Bool
  taskResult : Int
  entries : List Entry
  scheduled : Nat
  running : List Int
  arming : Nat

namespace IoQueue

def initial : IoQueue := ⟨[], false, 0, [], 0, [], 0⟩

/-! ### Starting an operation -/

/-- Under the mutex of the object. The operation is posted at once, or it waits. -/
def startOp (q : IoQueue) (op : ReactorOp) (outcome : ReactorOp.Outcome) :
    Option ReactorOp × IoQueue :=
  if q.opQueue.isEmpty then
    match op.perform outcome with
    | (op, .notDone) => (none, { q with opQueue := [op], arming := q.arming + 1 })
    | (op, _) => (some op, q)
  else
    (none, { q with opQueue := q.opQueue ++ [op] })

/-- Under the mutex of the service. Without an entry the queue itself is posted. -/
def arm (q : IoQueue) (sqe : Bool) : Option IoQueue :=
  if 0 < q.arming then
    some
      (if sqe then
        { q with arming := q.arming - 1, entries := q.entries ++ [.submission] }
      else
        { q with
          arming := q.arming - 1
          taskResult := -noBufferSpace
          scheduled := q.scheduled + 1 })
  else
    none

/-! ### Entries -/

/-- The kernel completes a submission. -/
def complete (q : IoQueue) (i : Nat) (res : Int) : Option IoQueue :=
  if q.entries[i]? = some .submission then
    some { q with entries := q.entries.set i (.completion res) }
  else
    none

/-- `run` takes a completion from the ring. -/
def run (q : IoQueue) (i : Nat) : Option IoQueue :=
  match q.entries[i]? with
  | some (.completion res) => some { q with
      entries := q.entries.eraseIdx i
      taskResult := res
      scheduled := q.scheduled + 1 }
  | _ => none

/-- A thread takes the queue from the scheduler. -/
def dequeue (q : IoQueue) : Option IoQueue :=
  if 0 < q.scheduled then
    some { q with scheduled := q.scheduled - 1, running := q.running ++ [q.taskResult] }
  else
    none

/-! ### Performing operations -/

def setResult (op : ReactorOp) (result : Int) : ReactorOp :=
  if result < 0 then
    { op with ec := (-result).toNat, bytesTransferred := 0 }
  else
    { op with ec := 0, bytesTransferred := result.toNat }

def performQueue (outcome : Nat → ReactorOp.Outcome) :
    List ReactorOp → List ReactorOp × List ReactorOp
  | [] => ([], [])
  | op :: queue =>
    match op.perform (outcome op.id) with
    | (op, .notDone) => ([], op :: queue)
    | (op, _) =>
      let rest := performQueue outcome queue
      (op :: rest.1, rest.2)

/-- An operation that has been cancelled without a request is restarted. -/
def performed (q : IoQueue) (result : Int) (outcome : Nat → ReactorOp.Outcome) :
    List ReactorOp × List ReactorOp :=
  if result ≠ -canceled ∨ q.cancelRequested then
    performQueue outcome (q.opQueue.modifyHead (setResult · result))
  else
    ([], q.opQueue)

/-- The operations that are complete, and the queue, which has an entry for its first operation. -/
def performIo (q : IoQueue) (result : Int) (outcome : Nat → ReactorOp.Outcome) (sqe : Bool) :
    List ReactorOp × IoQueue :=
  let (ops, queue) := q.performed result outcome
  let q := { q with cancelRequested := false }
  if queue.isEmpty then
    (ops, { q with opQueue := [] })
  else if sqe then
    (ops, { q with opQueue := queue, entries := q.entries ++ [.submission] })
  else
    (ops ++ queue.map (·.complete noBufferSpace), { q with opQueue := [] })

/-! ### Cancelling operations -/

/-- The first operation is left to the ring, of which its cancellation is requested. -/
def cancel (q : IoQueue) : List ReactorOp × IoQueue :=
  match q.opQueue with
  | [] => ([], q)
  | first :: rest =>
    (rest.map (·.complete operationAborted), { q with opQueue := [first], cancelRequested := true })

def cancelByKey (q : IoQueue) (cancellationKey : Nat) : List ReactorOp × IoQueue :=
  match q.opQueue with
  | [] => ([], q)
  | first :: rest =>
    ((rest.filter (·.cancellationKey = cancellationKey)).map (·.complete operationAborted),
      { q with
        opQueue := first :: rest.filter (·.cancellationKey ≠ cancellationKey)
        cancelRequested := q.cancelRequested || first.cancellationKey = cancellationKey })

end IoQueue

/-! ### One I/O object -/

/-- The operations in `posted` have still to be completed by the scheduler, and those in `invoked`
have been. -/
structure State where
  queues : OpType → IoQueue
  posted : List ReactorOp
  invoked : List ReactorOp
  outstandingWork : Int
  history : OpHistory

def initial : State := ⟨fun _ => .initial, [], [], 0, .empty⟩

inductive Action
  | startOp (t : OpType) (op : ReactorOp) (outcome : ReactorOp.Outcome)
  | arm (t : OpType) (sqe : Bool)
  | complete (t : OpType) (i : Nat) (res : Int)
  | run (t : OpType) (i : Nat)
  | dequeue (t : OpType)
  | performIo (t : OpType) (i : Nat) (outcome : Nat → ReactorOp.Outcome) (sqe : Bool)
  | cancelOps
  | cancelOpsByKey (t : OpType) (cancellationKey : Nat)
  | invoke (i : Nat)

namespace State

def setQueue (s : State) (t : OpType) (q : IoQueue) : State :=
  { s with queues := Function.update s.queues t q }

/-- An operation that waits behind another one is work, and so is one that is posted. -/
def startOp (s : State) (t : OpType) (op : ReactorOp) (outcome : ReactorOp.Outcome) : State :=
  let s := { s with history := s.history.start t op }
  match (s.queues t).startOp op outcome with
  | (some op, q) => { s.setQueue t q with
      posted := s.posted ++ [op]
      outstandingWork := s.outstandingWork + 1
      history := s.history.complete false [(t, op)] }
  | (none, q) => { s.setQueue t q with
      outstandingWork :=
        if (s.queues t).opQueue.isEmpty then s.outstandingWork else s.outstandingWork + 1 }

/-- The operation is work, either counted as such or because the queue is posted. -/
def arm (s : State) (t : OpType) (sqe : Bool) : Option State :=
  ((s.queues t).arm sqe).map fun q =>
    { s.setQueue t q with outstandingWork := s.outstandingWork + 1 }

/-- The first operation is completed by this thread, and the scheduler counts the work that is
finished. Without one the service makes up for that. -/
def performIo (s : State) (t : OpType) (i : Nat) (outcome : Nat → ReactorOp.Outcome)
    (sqe : Bool) : Option State :=
  (s.queues t).running[i]?.map fun result =>
    let (ops, q) := (s.queues t).performIo result outcome sqe
    let work := if ops.isEmpty then s.outstandingWork + 1 else s.outstandingWork
    { s.setQueue t { q with running := q.running.eraseIdx i } with
      posted := s.posted ++ ops.drop 1
      invoked := s.invoked ++ ops.take 1
      outstandingWork := work - 1
      history := s.history.complete false (ops.map (t, ·)) }

def cancelOps (s : State) : State :=
  let ops := [OpType.read, .write, .except].flatMap fun t => (s.queues t).cancel.1.map (t, ·)
  { s with
    queues := fun t => (s.queues t).cancel.2
    posted := s.posted ++ ops.map (·.2)
    history := s.history.complete true ops }

def cancelOpsByKey (s : State) (t : OpType) (cancellationKey : Nat) : State :=
  let (ops, q) := (s.queues t).cancelByKey cancellationKey
  { s.setQueue t q with
    posted := s.posted ++ ops
    history := s.history.complete true (ops.map (t, ·)) }

/-- The scheduler completes an operation that has been posted. -/
def invoke (s : State) (i : Nat) : Option State :=
  s.posted[i]?.map fun op =>
    { s with
      posted := s.posted.eraseIdx i
      invoked := s.invoked ++ [op]
      outstandingWork := s.outstandingWork - 1 }

end State

def step (s : State) : Action → Option State
  | .startOp t op outcome => some (s.startOp t op outcome)
  | .arm t sqe => s.arm t sqe
  | .complete t i res => ((s.queues t).complete i res).map (s.setQueue t)
  | .run t i => ((s.queues t).run i).map (s.setQueue t)
  | .dequeue t => (s.queues t).dequeue.map (s.setQueue t)
  | .performIo t i outcome sqe => s.performIo t i outcome sqe
  | .cancelOps => some s.cancelOps
  | .cancelOpsByKey t cancellationKey => some (s.cancelOpsByKey t cancellationKey)
  | .invoke i => s.invoke i

/-- Every operation is started once. -/
def Legal (s : State) : Action → Prop
  | .startOp _ op _ => op.id ∉ s.history.startedIds
  | _ => True

instance (s : State) (a : Action) : Decidable (Legal s a) := by
  induction a using Action.casesOn <;> dsimp only [Legal] <;> infer_instance

end Asio.Detail.IoUring
