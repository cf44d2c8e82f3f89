import Asio.Detail.ReactiveSocketService
import Asio.Lib.FileDescriptors

/-! The descriptors of sockets: who has them, and the states that the epoll reactor registers for
them. -/

universe u v w

namespace Asio.Detail

/-- The events of the `EPOLL_CTL_MOD` that starting an operation makes, if it makes one. -/
def Epoll.DescriptorState.modification (d : DescriptorState) (t : OpType) (op : ReactorOp)
    (allowSpeculative : Bool) (outcome : ReactorOp.Outcome) : Option (BitVec 32) :=
  if d.shutdown then none
  else if (d.opQueue t).isEmpty then
    if allowSpeculative ∧ (t ≠ .read ∨ (d.opQueue .except).isEmpty) then
      if d.trySpeculative t ∧ (op.perform outcome).2 ≠ .notDone then none
      else if d.registeredEvents = 0 then none
      else if t = .write ∧ d.registeredEvents &&& outEvent = 0 then
        some (d.registeredEvents ||| outEvent)
      else none
    else if d.registeredEvents = 0 then none
    else some (if t = .write then d.registeredEvents ||| outEvent else d.registeredEvents)
  else none

namespace ReactiveSocketServiceBase

open Lib Epoll

/-! ### Sockets and the reactor -/

/-- The events that are registered, and the state that they are reported to. -/
abbrev Interest := BitVec 32 × Nat

/-- The flags of a socket that is not open are clear. -/
structure Implementation (φ : Type u) where
  socket : Option φ
  userSetNonBlocking : Bool
  internalNonBlocking : Bool
  possibleDup : Bool
  reactorData : Option Nat
  clear : socket = none → userSetNonBlocking = false ∧ internalNonBlocking = false

structure Registration (φ : Type u) extends DescriptorState where
  descriptor : Option φ

def Registration.initial {φ : Type u} : Registration φ where
  toDescriptorState := { DescriptorState.register false with shutdown := false }
  descriptor := none

/-- The operations that wait, and the result of the last event, are those there have been. -/
def Registration.register {φ : Type u} (r : Registration φ) (fd : φ) (events : BitVec 32) :
    Registration φ :=
  { r with
    descriptor := some fd
    shutdown := false
    trySpeculative := fun _ => true
    registeredEvents := events }

/-- States are numbered in the order in which they are created. The operations that accept have the
sockets they have accepted until these are assigned, and the user has other handles. -/
structure State (ι : Type u) (κ : Type v) (φ : Type w) where
  kernel : FileDescriptors φ Interest
  states : Nat → Registration φ
  liveList : List Nat
  freeList : List Nat
  created : Nat
  impls : ι → Option (Implementation φ)
  newSockets : κ → Option φ
  handles : φ → Bool
  completions : List ReactorOp

def initial {ι : Type u} {κ : Type v} {φ : Type w} : State ι κ φ where
  kernel := .initial
  states _ := .initial
  liveList := []
  freeList := []
  created := 0
  impls _ := none
  newSockets _ := none
  handles _ := false
  completions := []

namespace Implementation

variable {φ : Type u}

def new : Implementation φ := ⟨none, false, false, false, none, fun _ => ⟨rfl, rfl⟩⟩

def opened (fd : φ) (possibleDup : Bool) (n : Nat) : Implementation φ :=
  ⟨some fd, false, false, possibleDup, some n, fun _ => ⟨rfl, rfl⟩⟩

/-- The reactor's data is left as it is. -/
def construct (x : Implementation φ) : Implementation φ :=
  { x with
    socket := none
    userSetNonBlocking := false
    internalNonBlocking := false
    possibleDup := false
    clear := fun _ => ⟨rfl, rfl⟩ }

def nonBlocking (x : Implementation φ) : Bool := x.userSetNonBlocking || x.internalNonBlocking

/-- Clearing the mode that the user has set overrides the one that has been set internally. -/
def setNonBlocking (x : Implementation φ) (user value : Bool) (h : x.socket ≠ none) :
    Implementation φ :=
  if user then
    if value then { x with userSetNonBlocking := true, clear := fun hnone => absurd hnone h }
    else
      { x with
        userSetNonBlocking := false
        internalNonBlocking := false
        clear := fun _ => ⟨rfl, rfl⟩ }
  else { x with internalNonBlocking := value, clear := fun hnone => absurd hnone h }

end Implementation

/-- `socket_ops::close`. A descriptor that does not block may refuse to be closed, and blocks when
this is tried again. -/
def closeSocket {φ : Type u} [DecidableEq φ] [Fintype φ] (k : FileDescriptors φ Interest) (fd : φ)
    (refused : Bool) : FileDescriptors φ Interest :=
  if refused then (k.setNonBlocking fd false).close fd else k.close fd

def registeredForAll : BitVec 32 := inEvent ||| errEvent ||| hupEvent ||| priEvent ||| edgeTriggered

namespace State

variable {ι : Type u} {κ : Type v} {φ : Type w}

section Reactor

variable [DecidableEq φ] (s : State ι κ φ)

/-- The state at the start of the free list, or a new one, is put at the start of the live list. -/
def allocateDescriptorState {ι : Type u} {κ : Type v} {φ : Type w} (s : State ι κ φ) :
    Nat × State ι κ φ :=
  match s.freeList with
  | n :: freeList => (n, { s with freeList := freeList, liveList := n :: s.liveList })
  | [] => (s.created, { s with created := s.created + 1, liveList := s.created :: s.liveList })

def freeDescriptorState {ι : Type u} {κ : Type v} {φ : Type w} (s : State ι κ φ) (n : Nat) :
    State ι κ φ :=
  { s with liveList := s.liveList.erase n, freeList := n :: s.freeList }

def setState {ι : Type u} {κ : Type v} {φ : Type w} (s : State ι κ φ) (n : Nat)
    (r : Registration φ) : State ι κ φ :=
  { s with states := Function.update s.states n r }

def complete {ι : Type u} {κ : Type v} {φ : Type w} (s : State ι κ φ) (ops : List ReactorOp) :
    State ι κ φ :=
  { s with completions := s.completions ++ ops }

/-- The error, and the state that has been allocated in any case. A descriptor that epoll does not
support is not watched for anything. -/
def registerDescriptor (fd : φ) (exhausted : Option Shortage) : Option Nat × Nat × State ι κ φ :=
  let (n, s) := s.allocateDescriptorState
  match s.kernel.epollAdd fd (registeredForAll, n) exhausted with
  | (none, kernel) => (none, n, { s.setState n ((s.states n).register fd registeredForAll) with kernel := kernel })
  | (some errno, kernel) =>
    if errno = FileDescriptors.notPermitted then
      (none, n, { s.setState n ((s.states n).register fd 0) with kernel := kernel })
    else
      (some errno, n,
        { s.setState n ((s.states n).register fd registeredForAll) with kernel := kernel })

/-- What is left of the reactor's data. A descriptor that is about to be closed is removed from the
epoll set when it is. -/
def deregisterDescriptor (fd : φ) (reactorData : Option Nat) (closing : Bool) :
    Option Nat × State ι κ φ :=
  match reactorData with
  | none => (none, s)
  | some n =>
    if (s.states n).shutdown then
      (none, s)
    else
      let (ops, d) := (s.states n).cancelAll
      let r : Registration φ := { d with shutdown := true, descriptor := none }
      (some n, { (s.setState n r).complete (ops.map (·.2)) with
        kernel :=
          if closing = false ∧ (s.states n).registeredEvents ≠ 0 then s.kernel.epollDel fd
          else s.kernel })

def cleanupDescriptorData {ι : Type u} {κ : Type v} {φ : Type w} (s : State ι κ φ) :
    Option Nat → State ι κ φ
  | none => s
  | some n => s.freeDescriptorState n

/-- `epoll_reactor::start_op` -/
def reactorStartOp (t : OpType) (fd : Option φ) (reactorData : Option Nat) (op : ReactorOp)
    (allowSpeculative : Bool) (outcome : ReactorOp.Outcome) : State ι κ φ :=
  match reactorData with
  | none => s.complete [op.complete badDescriptor]
  | some n =>
    let d := (s.states n).toDescriptorState
    let (epollCtl, kernel) :=
      match d.modification t op allowSpeculative outcome, fd with
      | none, _ => (none, s.kernel)
      | some _, none => (some FileDescriptors.badDescriptor, s.kernel)
      | some events, some fd => s.kernel.epollMod fd (events, n)
    let result := d.startOp t op allowSpeculative outcome epollCtl
    let r := { s.states n with toDescriptorState := result.data }
    { (s.setState n r).complete result.posted.toList with kernel := kernel }

def cancelOps {ι : Type u} {κ : Type v} {φ : Type w} (s : State ι κ φ) (reactorData : Option Nat) :
    State ι κ φ :=
  match reactorData with
  | none => s
  | some n =>
    let (ops, d) := (s.states n).cancelAll
    (s.setState n { s.states n with toDescriptorState := d }).complete (ops.map (·.2))

/-- `descriptor_state::perform_io`, by a thread that has the state from the scheduler's queue. -/
def performIo {ι : Type u} {κ : Type v} {φ : Type w} (s : State ι κ φ) (n : Nat)
    (events : BitVec 32) (outcome : Nat → ReactorOp.Outcome) : State ι κ φ :=
  let (ops, d) := (s.states n).performIo events outcome
  (s.setState n { s.states n with toDescriptorState := d }).complete (ops.map (·.2))

/-- The states in the live list are freed one after the other, and their operations abandoned. -/
def shutdown {ι : Type u} {κ : Type v} {φ : Type w} (s : State ι κ φ) : State ι κ φ :=
  { s with
    states := fun n =>
      if n ∈ s.liveList then { s.states n with opQueue := fun _ => [], shutdown := true }
      else s.states n
    liveList := []
    freeList := s.liveList.reverse ++ s.freeList }

/-- The states of a list are registered again, up to the first that fails. -/
def reregister (states : Nat → Registration φ) (exhausted : Nat → Option Shortage) :
    List Nat → FileDescriptors φ Interest → Option Nat × FileDescriptors φ Interest
  | [], k => (none, k)
  | n :: ns, k =>
    match (states n).descriptor with
    | none => (some FileDescriptors.badDescriptor, k)
    | some fd =>
      match k.epollAdd fd ((states n).registeredEvents, n) (exhausted n) with
      | (none, k) => reregister states exhausted ns k
      | (some errno, k) => (some errno, k)

/-- `epoll_reactor::notify_fork`, in the child. The error is thrown. -/
def notifyFork (exhausted : Nat → Option Shortage) : Option Nat × State ι κ φ :=
  let (error, kernel) := reregister s.states exhausted s.liveList s.kernel.epollCreate
  (error, { s with kernel := kernel })

end Reactor

section Sockets

variable [DecidableEq ι] [DecidableEq φ] [Fintype φ] (s : State ι κ φ) (i : ι)
variable (x : Implementation φ)

def setImpl {ι : Type u} {κ : Type v} {φ : Type w} [DecidableEq ι] (s : State ι κ φ) (i : ι)
    (x : Option (Implementation φ)) : State ι κ φ :=
  { s with impls := Function.update s.impls i x }

/-- `socket` is what the system answers, with whether epoll supports the new descriptor. A holder
closes it when it is not registered. -/
def doOpen (socket : Except Nat (φ × Bool)) (exhausted : Option Shortage) :
    Option Nat × State ι κ φ :=
  if x.socket.isSome then (some ReactiveSocketService.alreadyOpen, s)
  else
    match socket with
    | .error errno => (some errno, s)
    | .ok (fd, pollable) =>
      let s := { s with kernel := s.kernel.create fd pollable }
      match s.registerDescriptor fd exhausted with
      | (none, n, s) => (none, s.setImpl i (some (.opened fd false n)))
      | (some errno, n, s) =>
        (some errno, { s.setImpl i (some { x with reactorData := some n }) with
          kernel := closeSocket s.kernel fd false })

/-- There may be other references to what is assigned. -/
def doAssign (fd : φ) (exhausted : Option Shortage) : Option Nat × State ι κ φ :=
  if x.socket.isSome then (some ReactiveSocketService.alreadyOpen, s)
  else
    match s.registerDescriptor fd exhausted with
    | (none, n, s) => (none, s.setImpl i (some (.opened fd true n)))
    | (some errno, n, s) => (some errno, s.setImpl i (some { x with reactorData := some n }))

def destroy {ι : Type u} {κ : Type v} {φ : Type w} [DecidableEq φ] [Fintype φ] (s : State ι κ φ)
    (x : Implementation φ) (refused : Bool) : State ι κ φ :=
  match x.socket with
  | none => s
  | some fd =>
    let (reactorData, s) := s.deregisterDescriptor fd x.reactorData (!x.possibleDup)
    { s with kernel := closeSocket s.kernel fd refused }.cleanupDescriptorData reactorData

def close (refused : Bool) : State ι κ φ :=
  match x.socket with
  | none => s.setImpl i (some x.construct)
  | some _ =>
    (s.destroy x refused).setImpl i (some { x with reactorData := none }.construct)

def release : Except Nat φ × State ι κ φ :=
  match x.socket with
  | none => (.error badDescriptor, s)
  | some fd =>
    let (reactorData, s) := s.deregisterDescriptor fd x.reactorData false
    (.ok fd, (s.cleanupDescriptorData reactorData).setImpl i
      (some { x with reactorData := none }.construct))

/-- What `base_move_construct` and `base_move_assign` end with. -/
def moveFrom (j : ι) (y : Implementation φ) : State ι κ φ :=
  (s.setImpl i (some y)).setImpl j (some { y with reactorData := none }.construct)

/-- `set_internal_non_blocking` and `set_user_non_blocking`. -/
def setNonBlocking (user value : Bool) (ioctl : Option Nat) : Option Nat × State ι κ φ :=
  match hsocket : x.socket with
  | none => (some badDescriptor, s)
  | some fd =>
    if user = false ∧ value = false ∧ x.userSetNonBlocking then
      (some ReactiveSocketService.invalidArgument, s)
    else
      match ioctl with
      | some errno => (some errno, s)
      | none =>
        (none, { s.setImpl i (some (x.setNonBlocking user value (by simp [hsocket]))) with
          kernel := s.kernel.setNonBlocking fd value })

def startOp (t : OpType) (op : ReactorOp) (isNonBlocking noop : Bool)
    (outcome : ReactorOp.Outcome) (ioctl : Option Nat) : State ι κ φ :=
  if noop then s.complete [op]
  else if x.nonBlocking then s.reactorStartOp t x.socket x.reactorData op isNonBlocking outcome
    else
      match s.setNonBlocking i x false true ioctl with
      | (none, s) => s.reactorStartOp t x.socket x.reactorData op isNonBlocking outcome
      | (some errno, s) => s.complete [op.complete errno]

end Sockets

end State

/-! ### The system -/

/-- Besides what sockets and operations do, the user creates, duplicates and closes descriptors,
and the process may fork. -/
inductive Action (ι : Type u) (κ : Type v) (φ : Type w)
  | construct (i : ι)
  | doOpen (i : ι) (socket : Except Nat (φ × Bool)) (exhausted : Option Shortage)
  | assign (i : ι) (fd : φ) (exhausted : Option Shortage)
  | close (i : ι) (refused : Bool)
  | destroy (i : ι) (refused : Bool)
  | release (i : ι)
  | moveConstruct (i j : ι)
  | moveAssign (i j : ι) (refused : Bool)
  | setNonBlocking (i : ι) (user value : Bool) (ioctl : Option Nat)
  | startOp (i : ι) (t : OpType) (op : ReactorOp) (isNonBlocking noop : Bool)
      (outcome : ReactorOp.Outcome) (ioctl : Option Nat)
  | cancel (i : ι)
  | performIo (n : Nat) (events : BitVec 32) (outcome : Nat → ReactorOp.Outcome)
  | acceptPerform (k : κ) (newSocket : Option φ)
  | acceptAssign (k : κ) (peer : ι) (exhausted : Option Shortage)
  | acceptDestroy (k : κ)
  | createHandle (fd : φ) (pollable : Bool)
  | dupHandle (fd fd' : φ)
  | closeHandle (fd : φ)
  | fork
  | closeElsewhere (d : Nat)
  | notifyFork (exhausted : Nat → Option Shortage)
  | shutdown

section Steps

variable {ι : Type u} {κ : Type v} {φ : Type w} [DecidableEq ι] [DecidableEq κ]
variable [DecidableEq φ] [Fintype φ]

namespace State

variable (s : State ι κ φ)

def setNewSocket {ι : Type u} {κ : Type v} {φ : Type w} [DecidableEq κ] (s : State ι κ φ) (k : κ)
    (newSocket : Option φ) : State ι κ φ :=
  { s with newSockets := Function.update s.newSockets k newSocket }

def setHandle {ι : Type u} {κ : Type v} {φ : Type w} [DecidableEq φ] (s : State ι κ φ) (fd : φ)
    (held : Bool) : State ι κ φ :=
  { s with handles := Function.update s.handles fd held }

/-- `socket_holder::reset` -/
def resetNewSocket (k : κ) (newSocket : Option φ) : State ι κ φ :=
  match s.newSockets k with
  | none => s.setNewSocket k newSocket
  | some fd => { s.setNewSocket k newSocket with kernel := closeSocket s.kernel fd false }

/-- The system call has opened a descriptor if it has accepted a connection. -/
def acceptPerform (k : κ) (newSocket : Option φ) : State ι κ φ :=
  match newSocket with
  | none => s.resetNewSocket k none
  | some fd => { s with kernel := s.kernel.create fd true }.resetNewSocket k (some fd)

/-- `do_assign` -/
def acceptAssign (k : κ) (peer : ι) (x : Implementation φ) (exhausted : Option Shortage) :
    Option Nat × State ι κ φ :=
  match s.newSockets k with
  | none => (none, s)
  | some fd =>
    match s.doAssign peer x fd exhausted with
    | (none, s) => (none, s.setNewSocket k none)
    | (some errno, s) => (some errno, s)

end State

/-- Only a descriptor that does not block may refuse to be closed. -/
def MayRefuse (s : State ι κ φ) (x : Implementation φ) (refused : Bool) : Prop :=
  refused = true → ∃ fd ∈ x.socket, ∃ d ∈ s.kernel.description fd, s.kernel.nonBlocking d = true

instance (s : State ι κ φ) (x : Implementation φ) (refused : Bool) :
    Decidable (MayRefuse s x refused) :=
  inferInstanceAs (Decidable (refused = true →
    ∃ fd ∈ x.socket, ∃ d ∈ s.kernel.description fd, s.kernel.nonBlocking d = true))

/-- The system opens descriptors that are not open. -/
def Unused (s : State ι κ φ) (opened : Option φ) : Prop := ∀ fd ∈ opened, ¬ s.kernel.IsOpen fd

instance (s : State ι κ φ) (opened : Option φ) : Decidable (Unused s opened) :=
  inferInstanceAs (Decidable (∀ fd ∈ opened, ¬ s.kernel.IsOpen fd))

/-- A socket is used from its construction to its destruction, and the user has what is assigned,
duplicated or closed. -/
def step (s : State ι κ φ) : Action ι κ φ → Option (State ι κ φ)
  | .construct i => if (s.impls i).isNone then some (s.setImpl i (some .new)) else none
  | .doOpen i socket exhausted => (s.impls i).bind fun x =>
    if Unused s (socket.toOption.map Prod.fst) then some (s.doOpen i x socket exhausted).2
    else none
  | .assign i fd exhausted => (s.impls i).bind fun x =>
    if s.handles fd then
      some (match s.doAssign i x fd exhausted with
        | (none, s) => s.setHandle fd false
        | (some _, s) => s)
    else none
  | .close i refused => (s.impls i).bind fun x =>
    if MayRefuse s x refused then some (s.close i x refused) else none
  | .destroy i refused => (s.impls i).bind fun x =>
    if MayRefuse s x refused then some ((s.destroy x refused).setImpl i none) else none
  | .release i => (s.impls i).map fun x =>
    match s.release i x with
    | (.ok fd, s) => s.setHandle fd true
    | (.error _, s) => s
  | .moveConstruct i j => (s.impls j).bind fun y =>
    if (s.impls i).isNone then some (s.moveFrom i j y) else none
  | .moveAssign i j refused => (s.impls i).bind fun x => (s.impls j).bind fun y =>
    if i ≠ j ∧ MayRefuse s x refused then some ((s.destroy x refused).moveFrom i j y) else none
  | .setNonBlocking i user value ioctl => (s.impls i).map fun x =>
    (s.setNonBlocking i x user value ioctl).2
  | .startOp i t op isNonBlocking noop outcome ioctl => (s.impls i).map fun x =>
    s.startOp i x t op isNonBlocking noop outcome ioctl
  | .cancel i => (s.impls i).map fun x => if x.socket.isSome then s.cancelOps x.reactorData else s
  | .performIo n events outcome => if n < s.created then some (s.performIo n events outcome) else none
  | .acceptPerform k newSocket =>
    if Unused s newSocket then some (s.acceptPerform k newSocket) else none
  | .acceptAssign k peer exhausted => (s.impls peer).map fun x =>
    (s.acceptAssign k peer x exhausted).2
  | .acceptDestroy k => some (s.resetNewSocket k none)
  | .createHandle fd pollable =>
    if s.kernel.IsOpen fd then none
    else some ({ s with kernel := s.kernel.create fd pollable }.setHandle fd true)
  | .dupHandle fd fd' =>
    if s.kernel.IsOpen fd ∧ ¬ s.kernel.IsOpen fd' then
      some ({ s with kernel := s.kernel.dup fd fd' }.setHandle fd' true)
    else none
  | .closeHandle fd =>
    if s.handles fd then some ({ s with kernel := s.kernel.close fd }.setHandle fd false) else none
  | .fork => some { s with kernel := s.kernel.fork }
  | .closeElsewhere d => some { s with kernel := s.kernel.closeElsewhere d }
  | .notifyFork exhausted => some (s.notifyFork exhausted).2
  | .shutdown => some s.shutdown

/-! ### Who has a descriptor -/

inductive Owner (ι : Type u) (κ : Type v)
  | socket (i : ι)
  | acceptOp (k : κ)
  | user
  deriving DecidableEq

def Holds (s : State ι κ φ) : Owner ι κ → φ → Prop
  | .socket i, fd => ∃ x ∈ s.impls i, x.socket = some fd
  | .acceptOp k, fd => s.newSockets k = some fd
  | .user, fd => s.handles fd = true

end Steps

end ReactiveSocketServiceBase

end Asio.Detail
