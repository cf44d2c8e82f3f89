import Asio.Detail.OpQueues
import Asio.Detail.PendingEventChanges
import Asio.Lib.Transition

/-! The reactor that waits on `/dev/poll`, and the poll set that the kernel keeps for it. -/

namespace Asio.Detail.DevPollReactor

open Lib Transition WriteBack OpQueues

/-- The operations that have been started and the ones that have been handed out are noted. -/
structure State where
  opQueue : OpType → ReactorOpQueue Int
  pendingEventChanges : PendingEventChanges
  kernel : Int → Option (Finset Poll)
  readDescriptor : Int
  blocked : Bool
  shutdown : Bool
  started : List Nat
  completed : List ReactorOp

/-- A write returns its full size, or has made some of the changes. -/
structure Written where
  full : Bool
  applied : Nat

/-- What `DP_POLL` returns for a descriptor, and what comes of dispatching it. -/
structure Event where
  fd : Int
  events : Finset Poll
  outcome : OpType → Nat → ReactorOp.Outcome
  written : Written
  errno : Nat

def eventOf : OpType → Poll
  | .read => .pollin
  | .write => .pollout
  | .except => .pollpri

def interest (wanted : OpType → Bool) : Finset Poll :=
  {.pollerr, .pollhup} ∪ (if wanted .read then {.pollin} else ∅) ∪
    (if wanted .write then {.pollout} else ∅) ∪ (if wanted .except then {.pollpri} else ∅)

def write (kernel : Int → Option (Finset Poll)) (changes : List PollFd) (w : Written) :
    Int → Option (Finset Poll) :=
  writeAll kernel (if w.full then changes else changes.take w.applied)

/-- An empty poll set that the interrupter is added to. -/
def doDevPollCreate (readDescriptor : Int) (w : Written) : Int → Option (Finset Poll) :=
  write (fun _ => none) [⟨readDescriptor, {.pollin, .pollerr}⟩] w

def State.init (readDescriptor : Int) (w : Written) : State where
  opQueue _ := .construct
  pendingEventChanges := .construct
  kernel := doDevPollCreate readDescriptor w
  readDescriptor := readDescriptor
  blocked := false
  shutdown := false
  started := []
  completed := []

section Operations

variable (operationAborted : Nat) (s : State)

def hasOperation (t : OpType) (descriptor : Int) : Bool := (s.opQueue t).hasOperation descriptor

/-- A call on one of the queues, with the operations that it hands out. -/
def apply (t : OpType) (a : OperationMap.Action Int) : State :=
  { s with
    opQueue := call s.opQueue t a
    completed := s.completed ++ handedOut s.opQueue t a }

def applyAll (a : OperationMap.Action Int) : State :=
  apply (apply (apply s .read a) .write a) .except a

def changeEvents (descriptor : Int) (f : Finset Poll → Finset Poll) : State :=
  { s with pendingEventChanges := s.pendingEventChanges.change descriptor f }

def postImmediateCompletion (op : ReactorOp) : State :=
  { s with completed := s.completed ++ [op] }

def enqueue (t : OpType) (descriptor : Int) (op : ReactorOp) : State :=
  let s' := apply s t (.enqueueOperation descriptor op)
  if ((s.opQueue t).step (.enqueueOperation descriptor op)).2.result then
    changeEvents s' descriptor fun _ =>
      interest fun t' => t = t' || hasOperation s' t' descriptor
  else
    s'

/-- The operation may be performed at once, unless others of its descriptor come first. -/
def startOp (t : OpType) (descriptor : Int) (op : ReactorOp) (allowSpeculative : Bool)
    (outcome : ReactorOp.Outcome) : State :=
  let s := { s with started := s.started ++ [op.id] }
  if s.shutdown then
    postImmediateCompletion s op
  else if allowSpeculative ∧ (t ≠ .read ∨ hasOperation s .except descriptor = false) ∧
      hasOperation s t descriptor = false then
    match op.perform outcome with
    | (op, .notDone) => enqueue s t descriptor op
    | (op, _) => postImmediateCompletion s op
  else
    enqueue s t descriptor op

def cancelOps (descriptor : Int) (ec : Nat) : State :=
  applyAll s (.cancelOperations descriptor ec)

def cancelOpsByKey (t : OpType) (descriptor : Int) (cancellationKey : Nat) : State :=
  apply s t (.cancelOperationsByKey descriptor cancellationKey operationAborted)

def deregisterDescriptor (descriptor : Int) : State :=
  cancelOps (changeEvents s descriptor fun _ => {.pollremove}) descriptor operationAborted

def shutdown : State := applyAll { s with shutdown := true } .getAllOperations

/-- The changes are written, and the descriptors lose their operations when that does not work. -/
def writeChanges (w : Written) (errno : Nat) : State :=
  let changes := s.pendingEventChanges.changes
  let s' := { s with kernel := write s.kernel changes w }
  let s' := if w.full then s' else changes.foldl (fun s ev => cancelOps s ev.fd errno) s'
  { s' with pendingEventChanges := s.pendingEventChanges.clear }

/-- `dev_poll_reactor::run` until it has released the mutex or returned. -/
def prepare (usec : Int) (timersEmpty : Bool) (w : Written) (errno : Nat) : State :=
  if usec = 0 ∧ (∀ t ∈ kinds, (s.opQueue t).empty) ∧ timersEmpty then
    s
  else if s.pendingEventChanges.changes = [] then
    { s with blocked := true }
  else
    { writeChanges s w errno with blocked := true }

/-- Whether the queue has operations of the descriptor left. -/
def performOperations (e : Event) (t : OpType) : State × Bool :=
  if (e.events ∩ {eventOf t, .pollerr, .pollhup}).Nonempty then
    (apply s t (.performOperations e.fd (e.outcome t)),
      ((s.opQueue t).step (.performOperations e.fd (e.outcome t))).2.result)
  else
    (s, hasOperation s t e.fd)

/-- Exception operations come first, so that out-of-band data is read before normal data. -/
def performAll (e : Event) : State × (OpType → Bool) :=
  let (s, moreExcept) := performOperations s e .except
  let (s, moreReads) := performOperations s e .read
  let (s, moreWrites) := performOperations s e .write
  (s, fun
    | .read => moreReads
    | .write => moreWrites
    | .except => moreExcept)

def dispatchEvent (e : Event) : State :=
  if e.fd = s.readDescriptor then
    s
  else
    let (s, more) := performAll s e
    if (e.events ∩ {.pollerr, .pollhup}).Nonempty ∧ ∀ t ∈ kinds, more t = false then
      { s with kernel := write s.kernel [⟨e.fd, {.pollremove}⟩] e.written }
    else
      let s := { s with kernel := write s.kernel [⟨e.fd, interest more⟩] e.written }
      if e.written.full then s else cancelOps s e.fd e.errno

/-- `dev_poll_reactor::run` from `DP_POLL` on. -/
def dispatch (events : List Event) : State :=
  events.foldl dispatchEvent { s with blocked := false }

/-- Every descriptor with operations is to be added to the new poll set. -/
def reregister (changes : PendingEventChanges) (t : OpType) : PendingEventChanges :=
  (descriptors (s.opQueue t)).foldl
    (fun changes d => changes.change d (· ∪ {.pollerr, .pollhup, eventOf t})) changes

/-- `notify_fork` in the child -/
def notifyFork (readDescriptor : Int) (w : Written) : State :=
  { s with
    kernel := doDevPollCreate readDescriptor w
    readDescriptor := readDescriptor
    pendingEventChanges := kinds.foldl (reregister s) s.pendingEventChanges }

inductive Action
  | startOp (t : OpType) (descriptor : Int) (op : ReactorOp) (allowSpeculative : Bool)
    (outcome : ReactorOp.Outcome)
  | cancelOps (descriptor : Int)
  | cancelOpsByKey (t : OpType) (descriptor : Int) (cancellationKey : Nat)
  | deregisterDescriptor (descriptor : Int)
  | shutdown
  | prepare (usec : Int) (timersEmpty : Bool) (w : Written) (errno : Nat)
  | dispatch (events : List Event)
  | notifyFork (readDescriptor : Int) (w : Written)

/-- One thread at a time is in `run`, and none when `notify_fork` is called. -/
def step : Action → Option State
  | .startOp t descriptor op allowSpeculative outcome =>
    some (startOp s t descriptor op allowSpeculative outcome)
  | .cancelOps descriptor => some (cancelOps s descriptor operationAborted)
  | .cancelOpsByKey t descriptor cancellationKey =>
    some (cancelOpsByKey operationAborted s t descriptor cancellationKey)
  | .deregisterDescriptor descriptor => some (deregisterDescriptor operationAborted s descriptor)
  | .shutdown => some (DevPollReactor.shutdown s)
  | .prepare usec timersEmpty w errno =>
    if s.blocked then none else some (prepare s usec timersEmpty w errno)
  | .dispatch events => if s.blocked then some (dispatch s events) else none
  | .notifyFork readDescriptor w =>
    if s.blocked then none else some (notifyFork s readDescriptor w)

end Operations

end Asio.Detail.DevPollReactor
