import Asio.Detail.ReactorOpHistory
import Asio.Lib.Transition

/-! One descriptor of the kqueue reactor. -/

namespace Asio.Detail.Kqueue

/-! ### Events and errors -/

def readFilter : Int := -1
def writeFilter : Int := -2

def errorFlag : BitVec 16 := 0x4000
def oobandFlag : BitVec 16 := 0x2000

def filter : OpType → Int
  | .read => readFilter
  | .write => writeFilter
  | .except => readFilter

def badDescriptor : Nat := 9
def operationAborted : Nat := 89

structure Event where
  filter : Int
  flags : BitVec 16
  data : BitVec 64

namespace Event

/-- The event is processed for the operations of this type. -/
def Concerns (event : Event) (t : OpType) : Prop :=
  event.filter = Kqueue.filter t ∧ (t ≠ .except ∨ event.flags &&& oobandFlag ≠ 0)

instance (event : Event) (t : OpType) : Decidable (event.Concerns t) :=
  inferInstanceAs (Decidable (_ ∧ _))

def IsError (event : Event) : Prop := event.flags &&& errorFlag ≠ 0

instance (event : Event) : Decidable event.IsError := inferInstanceAs (Decidable (_ ≠ _))

/-- The data, as an `int`. -/
def errorCode (event : Event) : Nat := (event.data.setWidth 32).toNat

end Event

/-! ### The state of a descriptor -/

structure DescriptorState where
  numKevents : Nat
  opQueue : OpType → List ReactorOp
  shutdown : Bool

namespace DescriptorState

/-- `register_descriptor`. -/
def register : DescriptorState := ⟨0, fun _ => [], false⟩

def setQueue (d : DescriptorState) (t : OpType) (ops : List ReactorOp) : DescriptorState :=
  { d with opQueue := Function.update d.opQueue t ops }

def enqueue (d : DescriptorState) (t : OpType) (op : ReactorOp) : DescriptorState :=
  d.setQueue t (d.opQueue t ++ [op])

/-- How many filters an operation needs. -/
def numKeventsFor : OpType → Nat
  | .read => 1
  | .write => 2
  | .except => 1

/-- The operation is posted at once, or it waits. The last argument is the error of `kevent`. -/
def startOp (d : DescriptorState) (t : OpType) (op : ReactorOp) (allowSpeculative : Bool)
    (outcome : ReactorOp.Outcome) (kevent : Option Nat) : Option ReactorOp × DescriptorState :=
  if d.shutdown then
    (some op, d)
  else if (d.opQueue t).isEmpty then
    if allowSpeculative ∧ (t ≠ .read ∨ (d.opQueue .except).isEmpty) then
      match op.perform outcome with
      | (op, .notDone) =>
        if d.numKevents < numKeventsFor t then
          match kevent with
          | none => (none, { d with numKevents := numKeventsFor t }.enqueue t op)
          | some errno => (some (op.complete errno), d)
        else
          (none, d.enqueue t op)
      | (op, _) => (some op, d)
    else if d.numKevents < numKeventsFor t then
      (none, { d with numKevents := numKeventsFor t }.enqueue t op)
    else
      (none, d.enqueue t op)
  else
    (none, d.enqueue t op)

/-- The queues are emptied in order. -/
def cancelAll (d : DescriptorState) : List (OpType × ReactorOp) × DescriptorState :=
  ([OpType.read, .write, .except].flatMap fun t =>
      (d.opQueue t).map fun op => (t, op.complete operationAborted),
    { d with opQueue := fun _ => [] })

def cancelByKey (d : DescriptorState) (t : OpType) (cancellationKey : Nat) :
    List (OpType × ReactorOp) × DescriptorState :=
  (((d.opQueue t).filter (·.cancellationKey = cancellationKey)).map fun op =>
      (t, op.complete operationAborted),
    d.setQueue t ((d.opQueue t).filter (·.cancellationKey ≠ cancellationKey)))

/-! ### Events -/

/-- The operations that are placed on the completion queue, and those that still wait. An operation
that has failed is performed all the same, and is popped again if that succeeds. -/
def performQueue (event : Event) (outcome : Nat → ReactorOp.Outcome) :
    List ReactorOp → List ReactorOp × List ReactorOp
  | [] => ([], [])
  | op :: queue =>
    if event.IsError then
      match (op.complete event.errorCode).perform (outcome op.id) with
      | (op, .notDone) => ([op], queue)
      | (op, _) =>
        let rest := performQueue event outcome queue.tail
        (op :: op :: rest.1, rest.2)
    else
      match op.perform (outcome op.id) with
      | (op, .notDone) => ([], op :: queue)
      | (op, _) =>
        let rest := performQueue event outcome queue
        (op :: rest.1, rest.2)
  termination_by queue => queue.length
  decreasing_by
    · rw [List.length_tail, List.length_cons]
      omega
    · rw [List.length_cons]
      omega

def performFrom (event : Event) (outcome : Nat → ReactorOp.Outcome) :
    List OpType → DescriptorState → List (OpType × ReactorOp) × DescriptorState
  | [], d => ([], d)
  | t :: ts, d =>
    if event.Concerns t then
      let (ops, queue) := performQueue event outcome (d.opQueue t)
      let rest := performFrom event outcome ts (d.setQueue t queue)
      (ops.map (t, ·) ++ rest.1, rest.2)
    else
      performFrom event outcome ts d

/-- Exception operations are processed first. A filter for writing is removed when no operation
waits for it. -/
def run (d : DescriptorState) (event : Event) (outcome : Nat → ReactorOp.Outcome) :
    List (OpType × ReactorOp) × DescriptorState :=
  let d :=
    if event.filter = writeFilter ∧ d.numKevents = 2 ∧ (d.opQueue .write).isEmpty then
      { d with numKevents := 1 }
    else
      d
  performFrom event outcome [.except, .write, .read] d

end DescriptorState

/-! ### The system -/

structure State where
  hasData : Bool
  data : DescriptorState
  outstandingWork : Nat
  history : OpHistory

def initial : State := ⟨true, .register, 0, .empty⟩

inductive Action
  | startOp (t : OpType) (op : ReactorOp) (allowSpeculative : Bool)
      (outcome : ReactorOp.Outcome) (kevent : Option Nat)
  | cancelOps
  | cancelOpsByKey (t : OpType) (cancellationKey : Nat)
  | deregisterDescriptor
  | run (event : Event) (outcome : Nat → ReactorOp.Outcome)

namespace State

/-- Whether it is posted or waits, an operation is work. -/
def startOp (s : State) (t : OpType) (op : ReactorOp) (allowSpeculative : Bool)
    (outcome : ReactorOp.Outcome) (kevent : Option Nat) : State :=
  let s := { s with history := s.history.start t op, outstandingWork := s.outstandingWork + 1 }
  if s.hasData then
    match s.data.startOp t op allowSpeculative outcome kevent with
    | (some op, data) =>
      { s with data := data, history := s.history.complete false [(t, op)] }
    | (none, data) => { s with data := data }
  else
    { s with history := s.history.complete false [(t, op.complete badDescriptor)] }

def cancelOps (s : State) : State :=
  if s.hasData then
    let (ops, data) := s.data.cancelAll
    { s with data := data, history := s.history.complete false ops }
  else
    s

def cancelOpsByKey (s : State) (t : OpType) (cancellationKey : Nat) : State :=
  if s.hasData then
    let (ops, data) := s.data.cancelByKey t cancellationKey
    { s with data := data, history := s.history.complete true ops }
  else
    s

def deregisterDescriptor (s : State) : State :=
  if s.hasData then
    if s.data.shutdown then
      { s with hasData := false }
    else
      let (ops, data) := s.data.cancelAll
      { s with data := { data with shutdown := true }, history := s.history.complete false ops }
  else
    s

/-- `kevent` has returned an event for the descriptor. -/
def run (s : State) (event : Event) (outcome : Nat → ReactorOp.Outcome) : State :=
  let (ops, data) := s.data.run event outcome
  { s with data := data, history := s.history.complete false ops }

end State

def step (s : State) : Action → Option State
  | .startOp t op allowSpeculative outcome kevent =>
    some (s.startOp t op allowSpeculative outcome kevent)
  | .cancelOps => some s.cancelOps
  | .cancelOpsByKey t cancellationKey => some (s.cancelOpsByKey t cancellationKey)
  | .deregisterDescriptor => some s.deregisterDescriptor
  | .run event outcome => some (s.run event outcome)

/-- Every operation is started once. -/
def Legal (s : State) : Action → Prop
  | .startOp _ op _ _ _ => op.id ∉ s.history.startedIds
  | _ => True

instance (s : State) (a : Action) : Decidable (Legal s a) := by
  induction a using Action.casesOn <;> dsimp only [Legal] <;> infer_instance

end Asio.Detail.Kqueue
