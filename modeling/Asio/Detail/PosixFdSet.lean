import Asio.Detail.OpQueues
import Asio.Lib.Transition

/-! The sets of descriptors that the reactor hands to `select`, and the queues that they are filled
from and later consulted for. -/

namespace Asio.Detail.PosixFdSet

open Lib Transition OpQueues

/-- The size of a set and the error codes that operations are completed with. -/
structure Config where
  fdSetSize : Int
  fdSetFailure : Nat
  operationAborted : Nat

/-! ### The adapter -/

/-- The bits of `fd_set_` for the descriptors that it has room for. -/
structure FdSet where
  bits : Int → Bool
  maxDescriptor : Int

namespace FdSet

def invalidSocket : Int := -1

def construct : FdSet := ⟨fun _ => false, invalidSocket⟩

def reset (s : FdSet) : FdSet := { s with bits := fun _ => false }

def set (cfg : Config) (s : FdSet) (descriptor : Int) : FdSet × Bool :=
  if descriptor < cfg.fdSetSize then
    ({ bits := Function.update s.bits descriptor true
       maxDescriptor :=
        if s.maxDescriptor = invalidSocket ∨ s.maxDescriptor < descriptor then descriptor
        else s.maxDescriptor }, true)
  else
    (s, false)

def setAll (cfg : Config) (s : FdSet) (descriptors : List Int) : FdSet :=
  descriptors.foldl (fun s descriptor => (s.set cfg descriptor).1) s

end FdSet

/-! ### The reactor -/

/-- What is passed to `FD_SET` or `FD_ISSET` is noted, and so are the descriptors whose operations
are performed, the operations that have been started and the ones that have been handed out. -/
structure State where
  opQueue : OpType → ReactorOpQueue Int
  fdSets : OpType → FdSet
  readDescriptor : Int
  blocked : Bool
  shutdown : Bool
  accessed : List Int
  performed : List Int
  started : List Nat
  completed : List ReactorOp

def State.init (readDescriptor : Int) : State where
  opQueue _ := .construct
  fdSets _ := .construct
  readDescriptor := readDescriptor
  blocked := false
  shutdown := false
  accessed := []
  performed := []
  started := []
  completed := []

/-- What `select` comes back with. The bits behind the end of a set are what is found there. -/
structure Wake where
  retval : Int
  ready : OpType → Int → Bool
  isReset : Bool
  recreated : Int
  outcome : OpType → Nat → ReactorOp.Outcome

section Operations

variable (cfg : Config) (s : State)

/-- A call on one of the queues, with the operations that it hands out. -/
def apply (t : OpType) (a : OperationMap.Action Int) : State :=
  { s with
    opQueue := call s.opQueue t a
    completed := s.completed ++ handedOut s.opQueue t a }

def applyAll (a : OperationMap.Action Int) : State :=
  apply (apply (apply s .read a) .write a) .except a

def startOp (t : OpType) (descriptor : Int) (op : ReactorOp) : State :=
  let s := { s with started := s.started ++ [op.id] }
  if s.shutdown then
    { s with completed := s.completed ++ [op] }
  else
    apply s t (.enqueueOperation descriptor op)

def registerInternalDescriptor (t : OpType) (descriptor : Int) (op : ReactorOp) : State :=
  apply { s with started := s.started ++ [op.id] } t (.enqueueOperation descriptor op)

/-- `cancel_ops`, `deregister_descriptor` and `deregister_internal_descriptor`, which destroys the
operations. -/
def cancelOps (descriptor : Int) : State :=
  applyAll s (.cancelOperations descriptor cfg.operationAborted)

def cancelOpsByKey (t : OpType) (descriptor : Int) (cancellationKey : Nat) : State :=
  apply s t (.cancelOperationsByKey descriptor cancellationKey cfg.operationAborted)

def shutdown : State := applyAll { s with shutdown := true } .getAllOperations

/-- The sets are emptied, and the interrupter goes into the first. -/
def resetSets : State :=
  let fdSets := fun t => (s.fdSets t).reset
  { s with
    fdSets := Function.update fdSets .read ((fdSets .read).set cfg s.readDescriptor).1
    accessed := s.accessed ++ [s.readDescriptor].filter (· < cfg.fdSetSize) }

/-- `posix_fd_set_adapter::set` with a queue, whose other descriptors are cancelled. -/
def setQueue (t : OpType) : State :=
  let keys := descriptors (s.opQueue t)
  { apply s t (.cancelUnset (· < cfg.fdSetSize) cfg.fdSetFailure) with
    fdSets := Function.update s.fdSets t ((s.fdSets t).setAll cfg keys)
    accessed := s.accessed ++ keys.filter (· < cfg.fdSetSize) }

def haveWorkToDo (timersEmpty : Bool) : Bool :=
  !timersEmpty || !(s.opQueue .read).empty || !(s.opQueue .write).empty ||
    !(s.opQueue .except).empty

/-- `select_reactor::run` until it has released the mutex or returned. -/
def prepare (usec : Int) (timersEmpty : Bool) : State :=
  { setQueue cfg (setQueue cfg (setQueue cfg (resetSets cfg s) .read) .write) .except with
    blocked := !(usec = 0 ∧ haveWorkToDo s timersEmpty = false) }

def isSet (w : Wake) (t : OpType) (descriptor : Int) : Bool :=
  if descriptor < cfg.fdSetSize then (s.fdSets t).bits descriptor && w.ready t descriptor
  else w.ready t descriptor

/-- `posix_fd_set_adapter::perform` -/
def performQueue (w : Wake) (t : OpType) : State :=
  let keys := descriptors (s.opQueue t)
  { apply s t (.performSet (isSet cfg s w t) (w.outcome t)) with
    accessed := s.accessed ++ keys
    performed := s.performed ++ keys.filter (isSet cfg s w t) }

/-- The descriptors that are ready, without the interrupter. -/
def remaining (w : Wake) : Int :=
  if 0 < w.retval ∧ isSet cfg s w .read s.readDescriptor then w.retval - 1 else w.retval

def resetInterrupter (w : Wake) : State :=
  if 0 < w.retval then
    { s with
      accessed := s.accessed ++ [s.readDescriptor]
      readDescriptor :=
        if isSet cfg s w .read s.readDescriptor ∧ w.isReset = false then w.recreated
        else s.readDescriptor }
  else
    s

/-- `select_reactor::run` from `select` on. -/
def dispatch (w : Wake) : State :=
  let s' := { resetInterrupter cfg s w with blocked := false }
  if 0 < remaining cfg s w then
    performQueue cfg (performQueue cfg (performQueue cfg s' w .except) w .write) w .read
  else
    s'

inductive Action
  | startOp (t : OpType) (descriptor : Int) (op : ReactorOp)
  | registerInternalDescriptor (t : OpType) (descriptor : Int) (op : ReactorOp)
  | cancelOps (descriptor : Int)
  | cancelOpsByKey (t : OpType) (descriptor : Int) (cancellationKey : Nat)
  | shutdown
  | prepare (usec : Int) (timersEmpty : Bool)
  | dispatch (w : Wake)
  | notifyFork (readDescriptor : Int)

/-- One thread at a time is in `run`, and none when `notify_fork` is called. -/
def step : Action → Option State
  | .startOp t descriptor op => some (startOp s t descriptor op)
  | .registerInternalDescriptor t descriptor op =>
    some (registerInternalDescriptor s t descriptor op)
  | .cancelOps descriptor => some (cancelOps cfg s descriptor)
  | .cancelOpsByKey t descriptor cancellationKey =>
    some (cancelOpsByKey cfg s t descriptor cancellationKey)
  | .shutdown => some (PosixFdSet.shutdown s)
  | .prepare usec timersEmpty => if s.blocked then none else some (prepare cfg s usec timersEmpty)
  | .dispatch w => if s.blocked then some (dispatch cfg s w) else none
  | .notifyFork readDescriptor =>
    if s.blocked then none else some { s with readDescriptor := readDescriptor }

end Operations

end Asio.Detail.PosixFdSet
