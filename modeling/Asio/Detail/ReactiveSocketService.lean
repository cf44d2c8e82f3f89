import Asio.Detail.EpollReactor

/-! Asynchronous operations on sockets, and how a signal cancels one of them. -/

universe u v

namespace Asio.Detail.ReactiveSocketService

open Epoll

/-! ### Flags and errors -/

abbrev MessageFlags := BitVec 32

def messageOutOfBand : MessageFlags := 0x1

def OutOfBand (flags : MessageFlags) : Bool := flags &&& messageOutOfBand ≠ 0

abbrev CancellationType := BitVec 32

def terminal : CancellationType := 1
def partialCancellation : CancellationType := 2
def total : CancellationType := 4

inductive WaitType
  | waitRead | waitWrite | waitError
  | other (n : Nat)
  deriving DecidableEq

def WaitType.opType? : WaitType → Option OpType
  | .waitRead => some .read
  | .waitWrite => some .write
  | .waitError => some .except
  | .other _ => none

/-- Data that is out of band is an exceptional condition. -/
def receiveType (flags : MessageFlags) : OpType := if OutOfBand flags then .except else .read

def invalidArgument : Nat := 22
def alreadyOpen : Nat := 114
def inProgress : Nat := 115
def wouldBlock : Nat := 11

/-! ### The state -/

structure Implementation (δ : Type v) where
  reactorData : Option δ
  nonBlocking : Bool
  streamOriented : Bool

/-- The handler that is installed in a slot has a pointer to the reactor's data of the
implementation. -/
structure ReactorOpCancellation (ι : Type u) where
  impl : ι
  opType : OpType
  deriving DecidableEq

/-- A handler, with the identity of its operation. Its slot is connected if there is an address for
what is installed in it. -/
structure Handler where
  id : Nat
  isContinuation : Bool
  slot : Option Nat

structure State (ι : Type u) (δ : Type v) where
  impls : ι → Implementation δ
  descriptors : δ → DescriptorState
  slots : Nat → Option (ReactorOpCancellation ι)
  posted : List (ReactorOp × Route)

/-- What the system does when an operation is started. A call that has failed has an error. -/
structure Environment where
  setInternalNonBlocking : Option Nat
  connect : Option Nat
  outcome : ReactorOp.Outcome
  epollCtl : Option Nat

def Handler.op (h : Handler) : ReactorOp := ⟨h.id, 0, 0, 0⟩

namespace State

variable {ι : Type u} {δ : Type v} [DecidableEq ι] [DecidableEq δ] (s : State ι δ)

def post (op : ReactorOp) (route : Route) : State ι δ :=
  { s with posted := s.posted ++ [(op, route)] }

def postImmediateCompletion (op : ReactorOp) (isContinuation : Bool) : State ι δ :=
  s.post op (.immediate isContinuation)

/-- `epoll_reactor::start_op` -/
def reactorStartOp (t : OpType) (reactorData : Option δ) (op : ReactorOp)
    (isContinuation allowSpeculative : Bool) (env : Environment) : State ι δ :=
  match reactorData with
  | none => s.postImmediateCompletion (op.complete badDescriptor) isContinuation
  | some d =>
    let result := (s.descriptors d).startOp t op allowSpeculative env.outcome env.epollCtl
    let s := { s with descriptors := Function.update s.descriptors d result.data }
    match result.posted with
    | some op => s.postImmediateCompletion op isContinuation
    | none => s

/-- A socket that blocks is made not to. -/
def setInternalNonBlocking (impl : ι) (op : ReactorOp) (env : Environment) :
    Except ReactorOp (State ι δ) :=
  if (s.impls impl).nonBlocking then
    .ok s
  else
    match env.setInternalNonBlocking with
    | none => .ok { s with
        impls := Function.update s.impls impl { s.impls impl with nonBlocking := true } }
    | some ec => .error (op.complete ec)

def startOp (impl : ι) (t : OpType) (op : ReactorOp)
    (isContinuation isNonBlocking noop : Bool) (env : Environment) : State ι δ :=
  if noop then
    s.postImmediateCompletion op isContinuation
  else
    match s.setInternalNonBlocking impl op env with
    | .ok s => s.reactorStartOp t (s.impls impl).reactorData op isContinuation isNonBlocking env
    | .error op => s.postImmediateCompletion op isContinuation

def startAcceptOp (impl : ι) (op : ReactorOp) (isContinuation peerIsOpen : Bool)
    (env : Environment) : State ι δ :=
  if peerIsOpen then
    s.postImmediateCompletion (op.complete alreadyOpen) isContinuation
  else
    s.startOp impl .read op isContinuation true false env

/-- A connect operation waits as a write operation does. -/
def startConnectOp (impl : ι) (op : ReactorOp) (isContinuation : Bool) (env : Environment) :
    State ι δ :=
  match s.setInternalNonBlocking impl op env with
  | .error op => s.postImmediateCompletion op isContinuation
  | .ok s =>
    match env.connect with
    | none => s.postImmediateCompletion (op.complete 0) isContinuation
    | some ec =>
      if ec = inProgress ∨ ec = wouldBlock then
        s.reactorStartOp .write (s.impls impl).reactorData (op.complete 0) isContinuation false env
      else
        s.postImmediateCompletion (op.complete ec) isContinuation

/-! ### Initiating functions -/

/-- An operation whose slot is connected is registered for per-operation cancellation, and it is
started then. -/
def initiate (impl : ι) (h : Handler) (register : Bool) (cancellationType : OpType)
    (start : State ι δ → ReactorOp → State ι δ) : State ι δ :=
  match h.slot, register with
  | some key, true =>
    start { s with slots := Function.update s.slots key (some ⟨impl, cancellationType⟩) }
      { h.op with cancellationKey := key }
  | _, _ => start s h.op

def asyncWait (impl : ι) (w : WaitType) (h : Handler) (env : Environment) : State ι δ :=
  match w.opType? with
  | none => s.postImmediateCompletion (h.op.complete invalidArgument) h.isContinuation
  | some t => s.initiate impl h true t fun s op =>
      s.startOp impl t op h.isContinuation false false env

def asyncSend (impl : ι) (allEmpty : Bool) (_ : MessageFlags) (h : Handler) (env : Environment) :
    State ι δ :=
  s.initiate impl h true .write fun s op => s.startOp impl .write op h.isContinuation true
    ((s.impls impl).streamOriented && allEmpty) env

def asyncSendNullBuffers (impl : ι) (_ : MessageFlags) (h : Handler) (env : Environment) :
    State ι δ :=
  s.initiate impl h true .write fun s op => s.startOp impl .write op h.isContinuation false false env

def asyncSendTo (impl : ι) (_ : MessageFlags) (h : Handler) (env : Environment) : State ι δ :=
  s.initiate impl h true .write fun s op => s.startOp impl .write op h.isContinuation true false env

def asyncSendToNullBuffers (impl : ι) (_ : MessageFlags) (h : Handler) (env : Environment) :
    State ι δ :=
  s.initiate impl h true .write fun s op => s.startOp impl .write op h.isContinuation false false env

def asyncReceive (impl : ι) (allEmpty : Bool) (flags : MessageFlags) (h : Handler)
    (env : Environment) : State ι δ :=
  s.initiate impl h true .read fun s op => s.startOp impl (receiveType flags) op h.isContinuation
    (!OutOfBand flags) ((s.impls impl).streamOriented && allEmpty) env

def asyncReceiveNullBuffers (impl : ι) (flags : MessageFlags) (h : Handler) (env : Environment) :
    State ι δ :=
  s.initiate impl h true .read fun s op =>
    s.startOp impl (receiveType flags) op h.isContinuation false false env

def asyncReceiveWithFlags (impl : ι) (flags : MessageFlags) (h : Handler) (env : Environment) :
    State ι δ :=
  s.initiate impl h true .read fun s op =>
    s.startOp impl (receiveType flags) op h.isContinuation (!OutOfBand flags) false env

def asyncReceiveWithFlagsNullBuffers (impl : ι) (flags : MessageFlags) (h : Handler)
    (env : Environment) : State ι δ :=
  s.initiate impl h true .read fun s op =>
    s.startOp impl (receiveType flags) op h.isContinuation false false env

def asyncReceiveFrom (impl : ι) (flags : MessageFlags) (h : Handler) (env : Environment) :
    State ι δ :=
  s.initiate impl h true .read fun s op =>
    s.startOp impl (receiveType flags) op h.isContinuation true false env

def asyncReceiveFromNullBuffers (impl : ι) (flags : MessageFlags) (h : Handler)
    (env : Environment) : State ι δ :=
  s.initiate impl h true .read fun s op =>
    s.startOp impl (receiveType flags) op h.isContinuation false false env

def asyncAccept (impl : ι) (peerIsOpen : Bool) (h : Handler) (env : Environment) : State ι δ :=
  s.initiate impl h (!peerIsOpen) .read fun s op =>
    s.startAcceptOp impl op h.isContinuation peerIsOpen env

def asyncMoveAccept (impl : ι) (h : Handler) (env : Environment) : State ι δ :=
  s.initiate impl h true .read fun s op => s.startAcceptOp impl op h.isContinuation false env

def asyncConnect (impl : ι) (h : Handler) (env : Environment) : State ι δ :=
  s.initiate impl h true .write fun s op => s.startConnectOp impl op h.isContinuation env

/-! ### Cancellation -/

/-- `epoll_reactor::cancel_ops_by_key` -/
def cancelOpsByKey (reactorData : Option δ) (t : OpType) (cancellationKey : Nat) : State ι δ :=
  match reactorData with
  | none => s
  | some d =>
    let (ops, data) := (s.descriptors d).cancelByKey t cancellationKey
    { s with
      descriptors := Function.update s.descriptors d data
      posted := s.posted ++ ops.map fun p => (p.2, .deferred) }

/-- The handler in the slot is called. Its address is the key. -/
def emit (key : Nat) (type : CancellationType) : State ι δ :=
  match s.slots key with
  | none => s
  | some c =>
    if type &&& (terminal ||| partialCancellation ||| total) ≠ 0 then
      s.cancelOpsByKey (s.impls c.impl).reactorData c.opType key
    else
      s

end State

end Asio.Detail.ReactiveSocketService
