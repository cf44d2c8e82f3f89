import Asio.Detail.ReactorOp
import Asio.Lib.Transition
import Mathlib.Logic.Function.Basic

/-! One descriptor of the epoll reactor. -/

namespace Asio.Detail

namespace Epoll

/-! ### Events and errors -/

def inEvent : BitVec 32 := 0x1
def priEvent : BitVec 32 := 0x2
def outEvent : BitVec 32 := 0x4
def errEvent : BitVec 32 := 0x8
def hupEvent : BitVec 32 := 0x10
def edgeTriggered : BitVec 32 := 0x80000000

def flag : OpType → BitVec 32
  | .read => inEvent
  | .write => outEvent
  | .except => priEvent

def badDescriptor : Nat := 9
def operationNotSupported : Nat := 95
def operationAborted : Nat := 125

/-! ### The state of a descriptor -/

structure DescriptorState where
  registeredEvents : BitVec 32
  opQueue : OpType → List ReactorOp
  trySpeculative : OpType → Bool
  shutdown : Bool
  taskResult : BitVec 32

namespace DescriptorState

/-- `register_descriptor`, for a descriptor that epoll supports or does not. -/
def register (supported : Bool) : DescriptorState where
  registeredEvents :=
    if supported then inEvent ||| errEvent ||| hupEvent ||| priEvent ||| edgeTriggered else 0
  opQueue _ := []
  trySpeculative _ := true
  shutdown := false
  taskResult := 0

def setQueue (d : DescriptorState) (t : OpType) (ops : List ReactorOp) : DescriptorState :=
  { d with opQueue := Function.update d.opQueue t ops }

def setTrySpeculative (d : DescriptorState) (t : OpType) (try_ : Bool) : DescriptorState :=
  { d with trySpeculative := Function.update d.trySpeculative t try_ }

/-! ### Starting an operation -/

/-- An operation that has been started is posted for completion at once, or it waits. -/
structure Started where
  posted : Option ReactorOp
  performed : Bool
  data : DescriptorState

def enqueue (d : DescriptorState) (t : OpType) (op : ReactorOp) : DescriptorState :=
  d.setQueue t (d.opQueue t ++ [op])

/-- After a speculative operation that is not done, or without one: the operation waits for an
event, if there can be one. The last argument is the error of `epoll_ctl`. -/
def waitForEvent (d : DescriptorState) (t : OpType) (op : ReactorOp) (performed : Bool)
    (epollCtl : Option Nat) : Started :=
  if d.registeredEvents = 0 then
    ⟨some (op.complete operationNotSupported), performed, d⟩
  else if t = .write ∧ d.registeredEvents &&& outEvent = 0 then
    match epollCtl with
    | none =>
      let events := d.registeredEvents ||| outEvent
      ⟨none, performed, { d with registeredEvents := d.registeredEvents ||| events }.enqueue t op⟩
    | some errno => ⟨some (op.complete errno), performed, d⟩
  else
    ⟨none, performed, d.enqueue t op⟩

def startOp (d : DescriptorState) (t : OpType) (op : ReactorOp) (allowSpeculative : Bool)
    (outcome : ReactorOp.Outcome) (epollCtl : Option Nat) : Started :=
  if d.shutdown then
    ⟨some op, false, d⟩
  else if (d.opQueue t).isEmpty then
    if allowSpeculative ∧ (t ≠ .read ∨ (d.opQueue .except).isEmpty) then
      if d.trySpeculative t then
        match op.perform outcome with
        | (op, .notDone) => d.waitForEvent t op true epollCtl
        | (op, status) =>
          ⟨some op, true,
            if status = .doneAndExhausted ∧ d.registeredEvents ≠ 0 then
              d.setTrySpeculative t false
            else
              d⟩
      else
        d.waitForEvent t op false epollCtl
    else if d.registeredEvents = 0 then
      ⟨some (op.complete operationNotSupported), false, d⟩
    else if t = .write then
      ⟨none, false,
        { d with registeredEvents := d.registeredEvents ||| outEvent }.enqueue t op⟩
    else
      ⟨none, false, d.enqueue t op⟩
  else
    ⟨none, false, d.enqueue t op⟩

/-! ### Cancelling operations -/

/-- The queues are emptied in order. -/
def cancelAll (d : DescriptorState) : List (OpType × ReactorOp) × DescriptorState :=
  ([OpType.read, .write, .except].flatMap fun t =>
      (d.opQueue t).map fun op => (t, op.complete operationAborted),
    { d with opQueue := fun _ => [] })

def cancelByKey (d : DescriptorState) (t : OpType) (cancellationKey : Nat) :
    List (OpType × ReactorOp) × DescriptorState :=
  (((d.opQueue t).filter (·.cancellationKey = cancellationKey)).map fun op =>
      (t, op.complete operationAborted),
    d.setQueue t ((d.opQueue t).filter (·.cancellationKey ≠ cancellationKey)))

/-! ### Performing operations -/

/-- Operations are performed from the front until one is not done or has exhausted the
descriptor. -/
def performQueue (outcome : Nat → ReactorOp.Outcome) :
    List ReactorOp → List ReactorOp × List ReactorOp × Bool
  | [] => ([], [], true)
  | op :: queue =>
    match op.perform (outcome op.id) with
    | (op, .notDone) => ([], op :: queue, true)
    | (op, .done) =>
      let rest := performQueue outcome queue
      (op :: rest.1, rest.2)
    | (op, .doneAndExhausted) => ([op], queue, false)

def performFrom (events : BitVec 32) (outcome : Nat → ReactorOp.Outcome) :
    List OpType → DescriptorState → List (OpType × ReactorOp) × DescriptorState
  | [], d => ([], d)
  | t :: ts, d =>
    if events &&& (flag t ||| errEvent ||| hupEvent) = 0 then
      performFrom events outcome ts d
    else
      let (ops, queue, trySpeculative) := performQueue outcome (d.opQueue t)
      let rest := performFrom events outcome ts
        ((d.setQueue t queue).setTrySpeculative t trySpeculative)
      (ops.map (t, ·) ++ rest.1, rest.2)

/-- Exception operations are processed first. -/
def performIo (d : DescriptorState) (events : BitVec 32) (outcome : Nat → ReactorOp.Outcome) :
    List (OpType × ReactorOp) × DescriptorState :=
  performFrom events outcome [.except, .write, .read] d

end DescriptorState

/-! ### The system -/

/-- How an operation is passed on: posted, or returned to be completed next. -/
inductive Route
  | immediate (isContinuation : Bool)
  | deferred
  | direct
  deriving DecidableEq

structure Completion where
  opType : OpType
  op : ReactorOp
  route : Route
  byKey : Bool
  deriving DecidableEq

/-- The queues at the time when an operation is performed speculatively. -/
structure Speculation where
  opType : OpType
  opQueue : OpType → List ReactorOp

/-- The descriptor, which the scheduler may have in its queue and threads may be completing with
the events they have taken, and what has happened to operations. -/
structure State where
  hasData : Bool
  data : DescriptorState
  enqueued : Bool
  running : List (BitVec 32)
  outstandingWork : Nat
  started : List (OpType × ReactorOp)
  speculations : List Speculation
  completions : List Completion

def initial (supported : Bool) : State where
  hasData := true
  data := .register supported
  enqueued := false
  running := []
  outstandingWork := 0
  started := []
  speculations := []
  completions := []

inductive Action
  | startOp (t : OpType) (op : ReactorOp) (isContinuation allowSpeculative : Bool)
      (outcome : ReactorOp.Outcome) (epollCtl : Option Nat)
  | cancelOps
  | cancelOpsByKey (t : OpType) (cancellationKey : Nat)
  | deregisterDescriptor
  | run (events : BitVec 32)
  | dequeue
  | performIo (events : BitVec 32) (outcome : Nat → ReactorOp.Outcome)

namespace State

def complete (s : State) (route : Route) (byKey : Bool) (ops : List (OpType × ReactorOp)) :
    State :=
  { s with completions := s.completions ++ ops.map fun p => ⟨p.1, p.2, route, byKey⟩ }

/-- Whether it is posted or waits, an operation is work. -/
def startOp (s : State) (t : OpType) (op : ReactorOp) (isContinuation allowSpeculative : Bool)
    (outcome : ReactorOp.Outcome) (epollCtl : Option Nat) : State :=
  let s := { s with started := s.started ++ [(t, op)], outstandingWork := s.outstandingWork + 1 }
  if s.hasData then
    let result := s.data.startOp t op allowSpeculative outcome epollCtl
    let speculations :=
      if result.performed then s.speculations ++ [⟨t, s.data.opQueue⟩] else s.speculations
    { s with data := result.data, speculations := speculations }.complete
      (.immediate isContinuation) false (result.posted.toList.map (t, ·))
  else
    s.complete (.immediate isContinuation) false [(t, op.complete badDescriptor)]

def cancelOps (s : State) : State :=
  if s.hasData then
    { s with data := s.data.cancelAll.2 }.complete .deferred false s.data.cancelAll.1
  else
    s

def cancelOpsByKey (s : State) (t : OpType) (cancellationKey : Nat) : State :=
  if s.hasData then
    let (ops, data) := s.data.cancelByKey t cancellationKey
    { s with data := data }.complete .deferred true ops
  else
    s

def deregisterDescriptor (s : State) : State :=
  if s.hasData then
    if s.data.shutdown then
      { s with hasData := false }
    else
      { s with data := { s.data.cancelAll.2 with shutdown := true } }.complete .deferred false
        s.data.cancelAll.1
  else
    s

/-- `epoll_wait` has returned events for the descriptor. -/
def run (s : State) (events : BitVec 32) : State :=
  if s.enqueued then
    { s with data := { s.data with taskResult := s.data.taskResult ||| events } }
  else
    { s with data := { s.data with taskResult := events }, enqueued := true }

def dequeue (s : State) : Option State :=
  if s.enqueued then
    some { s with enqueued := false, running := s.running ++ [s.data.taskResult] }
  else
    none

/-- The first operation is completed by this thread, and the scheduler counts the work that is
finished. Without one the reactor makes up for that. -/
def performIo (s : State) (events : BitVec 32) (outcome : Nat → ReactorOp.Outcome) :
    Option State :=
  if events ∈ s.running then
    let (ops, data) := s.data.performIo events outcome
    let work := if ops.isEmpty then s.outstandingWork + 1 else s.outstandingWork
    let s := { s with data := data, running := s.running.erase events, outstandingWork := work - 1 }
    some ((s.complete .direct false (ops.take 1)).complete .deferred false (ops.drop 1))
  else
    none

end State

def step (s : State) : Action → Option State
  | .startOp t op isContinuation allowSpeculative outcome epollCtl =>
    some (s.startOp t op isContinuation allowSpeculative outcome epollCtl)
  | .cancelOps => some s.cancelOps
  | .cancelOpsByKey t cancellationKey => some (s.cancelOpsByKey t cancellationKey)
  | .deregisterDescriptor => some s.deregisterDescriptor
  | .run events => some (s.run events)
  | .dequeue => s.dequeue
  | .performIo events outcome => s.performIo events outcome

/-- Every operation is started once. -/
def Legal (s : State) : Action → Prop
  | .startOp _ op _ _ _ _ => op.id ∉ s.started.map fun p => p.2.id
  | _ => True

instance (s : State) (a : Action) : Decidable (Legal s a) := by
  induction a using Action.casesOn <;> dsimp only [Legal] <;> infer_instance

end Epoll

end Asio.Detail
