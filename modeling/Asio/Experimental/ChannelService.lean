import Mathlib.Data.List.Basic

/-! The channel implementation: two state words, a bounded buffer and one queue of waiting
operations whose kind the queue does not record. -/

universe u

namespace Asio.Experimental.ChannelService

inductive EndState
  | buffer | waiter | block | closed
  deriving DecidableEq

inductive Kind
  | send | receive
  deriving DecidableEq

/-- A `channel_send` with its payload, or a `channel_receive`. -/
inductive ChannelOperation (α : Type u)
  | send (id cancellationKey : Nat) (payload : α)
  | receive (id cancellationKey : Nat)
  deriving DecidableEq

namespace ChannelOperation

variable {α : Type u}

def id : ChannelOperation α → Nat
  | .send id _ _ => id
  | .receive id _ => id

def cancellationKey : ChannelOperation α → Nat
  | .send _ key _ => key
  | .receive _ key => key

def kind : ChannelOperation α → Kind
  | .send .. => .send
  | .receive .. => .receive

/-- `get_payload`, read through a cast to `channel_send`; a receive operation has none. -/
def getPayload : ChannelOperation α → Option α
  | .send _ _ payload => some payload
  | .receive .. => none

end ChannelOperation

/-- What a `channel_receive` is completed with: a value that was sent, or the notification that
the traits make of an error. -/
inductive Message (α : Type u)
  | value (a : α)
  | cancelled
  | closed
  deriving DecidableEq

/-- The member function through which an operation is handed its result. -/
inductive Completion (α : Type u)
  | sent
  | sendCancelled
  | sendClosed
  | received (message : Message α)
  deriving DecidableEq

/-- The type the operation is cast to for the call. -/
def Completion.kind {α : Type u} : Completion α → Kind
  | .sent | .sendCancelled | .sendClosed => .send
  | .received _ => .receive

inductive Event (α : Type u)
  | complete (op : ChannelOperation α) (completion : Completion α)
  | tryReceived (a : α)
  deriving DecidableEq

structure Implementation (α : Type u) where
  receiveState : EndState
  sendState : EndState
  maxBufferSize : Nat
  waiters : List (ChannelOperation α)
  buffer : List α
  deriving DecidableEq

section Operations

variable {α : Type u}

/-- `max_buffer_size_ ? buffer : block` -/
def Implementation.emptyState (impl : Implementation α) : EndState :=
  if impl.maxBufferSize = 0 then .block else .buffer

def construct (maxBufferSize : Nat) : Implementation α where
  receiveState := .block
  sendState := if maxBufferSize = 0 then .block else .buffer
  maxBufferSize := maxBufferSize
  waiters := []
  buffer := []

/-- The branch of a send that finds `send_state_ == buffer`. -/
def bufferPush (impl : Implementation α) (a : α) : Implementation α :=
  { impl with
    buffer := impl.buffer ++ [a]
    receiveState := .buffer
    sendState := if (impl.buffer ++ [a]).length = impl.maxBufferSize then .block
      else impl.sendState }

/-- The branch of a send that finds `send_state_ == waiter`: the first waiter is taken to be a
receive operation.  An empty queue is a null dereference. -/
def handToReceiver (impl : Implementation α) (a : α) :
    Option (Implementation α × List (Event α)) :=
  match impl.waiters with
  | [] => none
  | op :: ops =>
    some ({ impl with
      waiters := ops
      sendState := if ops = [] then impl.emptyState else impl.sendState },
      [.complete op (.received (.value a))])

def trySend (impl : Implementation α) (a : α) :
    Option (Bool × Implementation α × List (Event α)) :=
  match impl.sendState with
  | .block => some (false, impl, [])
  | .buffer => some (true, bufferPush impl a, [])
  | .waiter => (handToReceiver impl a).map fun r => (true, r)
  | .closed => some (false, impl, [])

def startSendOp (impl : Implementation α) (id cancellationKey : Nat) (payload : α) :
    Option (Implementation α × List (Event α)) :=
  let sendOp : ChannelOperation α := .send id cancellationKey payload
  match impl.sendState with
  | .block =>
    some ({ impl with
      waiters := impl.waiters ++ [sendOp]
      receiveState := if impl.receiveState = .block then .waiter else impl.receiveState }, [])
  | .buffer => some (bufferPush impl payload, [.complete sendOp .sent])
  | .waiter =>
    (handToReceiver impl payload).map fun r => (r.1, r.2 ++ [.complete sendOp .sent])
  | .closed => some (impl, [.complete sendOp .sendClosed])

/-- The state a receiving end falls back to when nothing is left to receive. -/
def Implementation.drainedState (impl : Implementation α) : EndState :=
  if impl.sendState = .closed then .closed else .block

/-- The branch of a receive that finds `receive_state_ == buffer`: the front of the buffer and,
when an operation waits, its payload moved into the freed place.  The front of an empty buffer
and the payload of a receive operation are undefined. -/
def takeBuffered (impl : Implementation α) :
    Option (α × Implementation α × List (Event α)) :=
  match impl.buffer with
  | [] => none
  | a :: rest =>
    match impl.waiters with
    | op :: ops =>
      op.getPayload.map fun b =>
        (a, { impl with buffer := rest ++ [b], waiters := ops }, [.complete op .sent])
    | [] =>
      some (a, { impl with
        buffer := rest
        receiveState := if rest = [] then impl.drainedState else impl.receiveState
        sendState := if impl.sendState = .closed then .closed else .buffer }, [])

/-- The branch of a receive that finds `receive_state_ == waiter`. -/
def takeWaiting (impl : Implementation α) :
    Option (α × Implementation α × List (Event α)) :=
  match impl.waiters with
  | [] => none
  | op :: ops =>
    op.getPayload.map fun a =>
      (a, { impl with
        waiters := ops
        receiveState := if ops = [] then impl.drainedState else impl.receiveState },
        [.complete op .sent])

def tryReceive (impl : Implementation α) :
    Option (Bool × Implementation α × List (Event α)) :=
  match impl.receiveState with
  | .block => some (false, impl, [])
  | .buffer => (takeBuffered impl).map fun r => (true, r.2.1, r.2.2 ++ [.tryReceived r.1])
  | .waiter => (takeWaiting impl).map fun r => (true, r.2.1, r.2.2 ++ [.tryReceived r.1])
  | .closed => some (false, impl, [])

def startReceiveOp (impl : Implementation α) (id cancellationKey : Nat) :
    Option (Implementation α × List (Event α)) :=
  let receiveOp : ChannelOperation α := .receive id cancellationKey
  match impl.receiveState with
  | .block =>
    some ({ impl with
      waiters := impl.waiters ++ [receiveOp]
      sendState := if impl.sendState = .closed then impl.sendState else .waiter }, [])
  | .buffer =>
    (takeBuffered impl).map fun r =>
      (r.2.1, .complete receiveOp (.received (.value r.1)) :: r.2.2)
  | .waiter =>
    (takeWaiting impl).map fun r =>
      (r.2.1, r.2.2 ++ [.complete receiveOp (.received (.value r.1))])
  | .closed => some (impl, [.complete receiveOp (.received .closed)])

/-- How `cancel` and `cancel_by_key` complete a waiter: the kind is inferred from `send_state_`. -/
def cancelWaiter (impl : Implementation α) (op : ChannelOperation α) : Event α :=
  .complete op (if impl.sendState = .block then .sendCancelled else .received .cancelled)

/-- The two assignments that end a cancellation which emptied the queue. -/
def Implementation.noWaiters (impl : Implementation α) : Implementation α :=
  { impl with
    receiveState := if impl.receiveState = .waiter then .block else impl.receiveState
    sendState := if impl.sendState = .waiter then .block else impl.sendState }

def cancel (impl : Implementation α) : Implementation α × List (Event α) :=
  ({ impl with waiters := [] }.noWaiters, impl.waiters.map (cancelWaiter impl))

def cancelByKey (impl : Implementation α) (cancellationKey : Nat) :
    Implementation α × List (Event α) :=
  let otherOps := impl.waiters.filter (·.cancellationKey ≠ cancellationKey)
  let rest : Implementation α := { impl with waiters := otherOps }
  (if otherOps = [] then rest.noWaiters else rest,
    (impl.waiters.filter (·.cancellationKey = cancellationKey)).map (cancelWaiter impl))

def close (impl : Implementation α) : Implementation α × List (Event α) :=
  if impl.receiveState = .block then
    ({ impl with waiters := [], sendState := .closed, receiveState := .closed },
      impl.waiters.map fun op => .complete op (.received .closed))
  else ({ impl with sendState := .closed, receiveState := .closed }, [])

def reset (impl : Implementation α) : Implementation α × List (Event α) :=
  let r := cancel impl
  ({ r.1 with
    receiveState := if r.1.receiveState = .closed then .block else r.1.receiveState
    sendState := if r.1.sendState = .closed then r.1.emptyState else r.1.sendState
    buffer := [] }, r.2)

/-- `destroy` cancels and unlinks the implementation from its service. -/
def destroy (impl : Implementation α) : Implementation α × List (Event α) := cancel impl

def isOpen (impl : Implementation α) : Bool := impl.sendState ≠ .closed

def ready (impl : Implementation α) : Bool := impl.receiveState ≠ .block

end Operations

end Asio.Experimental.ChannelService
