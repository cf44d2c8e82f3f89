import Asio.Detail.OperationMap
import Asio.Detail.ReactiveSocketService
import Asio.Detail.WinIocpAccept

/-! Asynchronous waits, receives, connects and accepts on a completion port, and the objects that
their cancellation slots hold. -/

namespace Asio.Detail.WinIocpCancellation

open WinIocpAccept (Attempt Effect completeIocpAccept operationAborted connectionAborted
  badDescriptor netnameDeleted ioPending startAcceptOp restartAcceptOp)
open ReactiveSocketService (WaitType MessageFlags OutOfBand CancellationType terminal
  partialCancellation total)

/-! ### Errors -/

abbrev ErrorCode := WinIocpIoContext.ErrorCode

def success : ErrorCode := ⟨.system, 0⟩

def invalidArgument : ErrorCode := ⟨.system, 10022⟩

def connectionReset : ErrorCode := ⟨.system, 10054⟩

def connectionRefused : ErrorCode := ⟨.system, 10061⟩

def networkUnreachable : ErrorCode := ⟨.system, 10051⟩

def hostUnreachable : ErrorCode := ⟨.system, 10065⟩

def timedOut : ErrorCode := ⟨.system, 10060⟩

/-- `asio::error::eof` -/
def eof : ErrorCode := ⟨.other, 2⟩

/-- `ERROR_PORT_UNREACHABLE` -/
def portUnreachable : Nat := 1234

/-! ### Starting -/

/-- The queues of the reactor; on Windows the connects have their own. -/
inductive OpType
  | read | write | except | connect
  deriving DecidableEq

/-- `invalid_socket` -/
def invalidSocket : Nat := 2 ^ 64 - 1

structure Implementation where
  socket : Nat
  streamOriented : Bool
  enableConnectionAborted : Bool

def Implementation.isOpen (impl : Implementation) : Bool := impl.socket ≠ invalidSocket

/-- A call of an initiating function of the service. -/
inductive Initiation
  | wait (w : WaitType)
  | receive (allEmpty : Bool) (flags : MessageFlags)
  | receiveNullBuffers (flags : MessageFlags)
  | receiveWithFlags (flags : MessageFlags)
  | receiveWithFlagsNullBuffers (flags : MessageFlags)
  | receiveFrom (flags : MessageFlags)
  | receiveFromNullBuffers (flags : MessageFlags)
  | connect
  | accept (peerIsOpen : Bool)
  | moveAccept
  deriving DecidableEq

/-- What the system answers to the calls of an initiating function. -/
structure Environment where
  attempt : Attempt
  reactorShutdown : Bool
  inet : Bool
  connectEx : Bool
  bind : ErrorCode
  nonBlocking : Bool
  connecting : Bool
  connect : ErrorCode

/-- Where the operation is when the initiating function is done with it. -/
inductive Submission
  | kernel
  | reactor (t : OpType)
  | posted (ec : ErrorCode)
  deriving DecidableEq

/-- A system call that takes the operation or has failed. -/
def systemCall (result : Bool) (lastError : Nat) : Submission :=
  if !result && lastError ≠ ioPending then .posted ⟨.system, lastError⟩ else .kernel

def startReceiveOp (impl : Implementation) (noop : Bool) (env : Environment) : Submission :=
  if noop then .posted success
  else if !impl.isOpen then .posted badDescriptor
  else
    let lastError := env.attempt.lastError
    systemCall env.attempt.result
      (if lastError = netnameDeleted then connectionReset.value
        else if lastError = portUnreachable then connectionRefused.value else lastError)

def startReceiveFromOp (impl : Implementation) (env : Environment) : Submission :=
  if !impl.isOpen then .posted badDescriptor
  else
    let lastError := env.attempt.lastError
    systemCall env.attempt.result
      (if lastError = portUnreachable then connectionRefused.value else lastError)

/-- `select_reactor::start_op` -/
def reactorStartOp (t : OpType) (env : Environment) : Submission :=
  if env.reactorShutdown then .posted success else .reactor t

def startReactorOp (impl : Implementation) (t : OpType) (env : Environment) : Submission :=
  if impl.isOpen then reactorStartOp t env else .posted badDescriptor

/-- The second part is the operation type that is returned, which is none for `-1`. -/
def startNullBuffersReceiveOp (impl : Implementation) (flags : MessageFlags) (env : Environment) :
    Submission × Option OpType :=
  if impl.streamOriented then (startReceiveOp impl false env, none)
  else
    let opType := if OutOfBand flags then .except else .read
    (startReactorOp impl opType env, some opType)

/-- `ConnectEx` is used. -/
def Environment.usesConnectEx (env : Environment) : Bool :=
  env.inet && env.connectEx && (env.bind.value = 0 || env.bind = invalidArgument)

def startConnectOp (env : Environment) : Submission × Option OpType :=
  if env.inet && env.connectEx then
    if env.usesConnectEx then (systemCall env.attempt.result env.attempt.lastError, none)
    else (.posted env.bind, none)
  else if env.nonBlocking && env.connecting then (reactorStartOp .connect env, some .connect)
  else (.posted env.connect, none)

/-- What the calls on the completion port that submit an accept come to. -/
def ofEffects (effects : List Effect) : Submission :=
  match effects.findSome? fun
      | .onCompletion _ ec => some ec
      | _ => none with
  | some ec => .posted ec
  | none =>
    if effects.any fun
        | .cancelIoEx _ => true
        | _ => false then .posted operationAborted else .kernel

namespace Initiation

def isAccept : Initiation → Bool
  | accept _ | moveAccept => true
  | _ => false

/-- The type that is returned for a wait for errors is not that of its queue. -/
def start (f : Initiation) (impl : Implementation) (op : WinIocpAccept.Operation)
    (env : Environment) : Submission × Option OpType :=
  match f with
  | wait .waitRead => startNullBuffersReceiveOp impl 0 env
  | wait .waitWrite => (startReactorOp impl .write env, some .write)
  | wait .waitError => (startReactorOp impl .except env, some .read)
  | wait (.other _) => (.posted invalidArgument, none)
  | receive allEmpty _ => (startReceiveOp impl (impl.streamOriented && allEmpty) env, none)
  | receiveWithFlags _ => (startReceiveOp impl false env, none)
  | receiveFrom _ => (startReceiveFromOp impl env, none)
  | receiveNullBuffers flags | receiveWithFlagsNullBuffers flags | receiveFromNullBuffers flags =>
    startNullBuffersReceiveOp impl flags env
  | connect => startConnectOp env
  | accept peerIsOpen => (ofEffects (startAcceptOp op impl.isOpen peerIsOpen env.attempt), none)
  | moveAccept => (ofEffects (startAcceptOp op impl.isOpen false env.attempt), none)

end Initiation

/-! ### Completing -/

/-- What a completion has besides its error. -/
structure Finish where
  updateContext : ErrorCode
  assign : ErrorCode
  expired : Bool
  bytesTransferred : Nat

/-- The mapping of non-portable errors that most operations make. -/
def portable (expired : Bool) (ec : ErrorCode) : ErrorCode :=
  if ec.value = netnameDeleted then if expired then operationAborted else connectionReset
  else if ec.value = portUnreachable then connectionRefused
  else ec

/-- `complete_iocp_recvfrom` and `complete_iocp_recvmsg`; the values are `WSAEMSGSIZE` and
`ERROR_MORE_DATA`. -/
def completeIocpRecvfrom (expired : Bool) (ec : ErrorCode) : ErrorCode :=
  if ec.value = 10040 ∨ ec.value = 234 then ⟨ec.category, 0⟩ else portable expired ec

def completeIocpRecv (streamOriented expired allEmpty : Bool) (ec : ErrorCode)
    (bytesTransferred : Nat) : ErrorCode :=
  if ec.value = 0 ∧ bytesTransferred = 0 ∧ streamOriented = true ∧ allEmpty = false then eof
  else completeIocpRecvfrom expired ec

def completeIocpConnect (ec updateContext : ErrorCode) : ErrorCode :=
  let ec :=
    if ec.value = 1225 then connectionRefused
    else if ec.value = 1231 then networkUnreachable
    else if ec.value = 1232 then hostUnreachable
    else if ec.value = 121 then timedOut
    else ec
  if ec.value = 0 then updateContext else ec

/-! ### Operations and what they share -/

/-- The object whose OVERLAPPED the system has: the operation or what its slot holds. -/
inductive Overlapped
  | operation (op : Nat)
  | cancellation (op : Nat)
  deriving DecidableEq

def Overlapped.op : Overlapped → Nat
  | .operation op | .cancellation op => op

/-- The address of what the slot of an operation holds, which is its cancellation key. -/
def key (op : Nat) : Nat := op + 1

/-- An accept that has been aborted has not looked at the flag yet, or has once. -/
inductive Stage
  | kernel
  | reactor (t : OpType)
  | posted (ec : ErrorCode)
  | aborted
  | checked (cancelRequested : Option Int)
  | invoked (ec : ErrorCode)
  deriving DecidableEq

structure Operation where
  initiation : Initiation
  socket : Nat
  streamOriented : Bool
  enableConnectionAborted : Bool
  connectEx : Bool
  connected : Bool
  stage : Stage

/-- What is installed in a connected slot, and what it does its cancellation with. -/
inductive Cancellation
  | iocpOp
  | acceptOp (cancelRequested : Int)
  | reactorOp (useReactor : Option OpType)
  deriving DecidableEq

structure Slot where
  socket : Nat
  cancellation : Cancellation
  deriving DecidableEq

structure State where
  operations : Nat → Option Operation
  kernel : List (Nat × Overlapped)
  queues : OpType → OperationMap Nat
  slots : Nat → Option Slot

def initial : State := ⟨fun _ => none, [], fun _ => OperationMap.empty, fun _ => none⟩

namespace Initiation

/-- The object that is emplaced before the operation is started. -/
def cancellation : Initiation → Cancellation
  | receive .. | receiveWithFlags _ | receiveFrom _ => .iocpOp
  | accept _ | moveAccept => .acceptOp 0
  | wait _ | connect | receiveNullBuffers _ | receiveWithFlagsNullBuffers _
  | receiveFromNullBuffers _ => .reactorOp none

end Initiation

namespace Operation

variable (o : Operation)

def overlapped (op : Nat) : Overlapped := if o.connected then .cancellation op else .operation op

def cancellationKey (op : Nat) : Nat := if o.connected then key op else 0

/-- `proxy_op_ ? proxy_op_ : o` -/
def proxy : WinIocpAccept.Operation := if o.connected then .proxy else .accept

/-- The error that the handler of an operation that is no accept is given. -/
def complete (ec : ErrorCode) (e : Finish) : ErrorCode :=
  match o.initiation with
  | .receive allEmpty _ =>
    completeIocpRecv o.streamOriented e.expired allEmpty ec e.bytesTransferred
  | .receiveWithFlags _ | .receiveFrom _ => completeIocpRecvfrom e.expired ec
  | .connect => if o.connectEx then completeIocpConnect ec e.updateContext else ec
  | _ => portable e.expired ec

/-- An accept is restarted after an error. -/
def restarts (ec : ErrorCode) : Bool :=
  o.initiation.isAccept && ec = connectionAborted && !o.enableConnectionAborted

/-- `do_complete`, with an owner. -/
def finish (ec : ErrorCode) (e : Finish) : Stage :=
  if o.initiation.isAccept then
    let ec := completeIocpAccept ec e.updateContext
    if o.restarts ec then .aborted
    else .invoked (if ec.value = 0 then e.assign else ec)
  else .invoked (o.complete ec e)

end Operation

namespace State

variable (s : State)

def setStage (op : Nat) (stage : Stage) : State :=
  { s with
    operations := Function.update s.operations op
      ((s.operations op).map fun o => { o with stage := stage }) }

def setQueue (t : OpType) (descriptor : Nat) (ops : List ReactorOp) : State :=
  { s with queues := Function.update s.queues t (Function.update (s.queues t) descriptor ops) }

/-- The operation goes where it has been submitted to. -/
def place (op : Nat) (o : Operation) : Submission → State
  | .kernel => { s with kernel := s.kernel ++ [(o.socket, o.overlapped op)] }.setStage op .kernel
  | .reactor t =>
    (s.setQueue t o.socket (s.queues t o.socket ++ [⟨op, 0, o.cancellationKey op, 0⟩])).setStage op
      (.reactor t)
  | .posted ec => s.setStage op (.posted ec)

/-- A slot that is connected is given an object, which is told to use the reactor afterwards. -/
def initiate (op : Nat) (f : Initiation) (connected : Bool) (impl : Implementation)
    (env : Environment) : State :=
  let o : Operation := ⟨f, impl.socket, impl.streamOriented, impl.enableConnectionAborted,
    env.usesConnectEx, connected, .kernel⟩
  let start := f.start impl o.proxy env
  let slot : Slot := ⟨impl.socket,
    match start.2 with
    | some opType => .reactorOp (some opType)
    | none => f.cancellation⟩
  { s with
    operations := Function.update s.operations op (some o)
    slots := Function.update s.slots op (if connected then some slot else none) }.place op o start.1

/-! ### Cancelling -/

def cancelIoEx (socket : Nat) (overlapped : Overlapped) : State :=
  if (socket, overlapped) ∈ s.kernel then
    { s with kernel := s.kernel.filter (· ≠ (socket, overlapped)) }.setStage overlapped.op
      (.posted operationAborted)
  else s

/-- `post_deferred_completions` -/
def postAll (ops : List ReactorOp) : State :=
  ops.foldl (fun s r => s.setStage r.id (.posted ⟨.system, r.ec⟩)) s

/-- `select_reactor::cancel_ops_by_key` -/
def cancelOpsByKey (descriptor : Nat) (opType : OpType) (cancellationKey : Nat) : State :=
  let queue : List ReactorOp := s.queues opType descriptor
  (s.setQueue opType descriptor (queue.filter (·.cancellationKey ≠ cancellationKey))).postAll
    ((queue.filter (·.cancellationKey = cancellationKey)).map (·.complete operationAborted.value))

/-- The object in the slot is called. -/
def emit (op : Nat) (type : CancellationType) : State :=
  match s.slots op with
  | none => s
  | some slot =>
    if type &&& (terminal ||| partialCancellation ||| total) ≠ 0 then
      match slot.cancellation with
      | .reactorOp (some opType) => s.cancelOpsByKey slot.socket opType (key op)
      | _ => s.cancelIoEx slot.socket (.cancellation op)
    else s

end State

/-! ### Steps -/

inductive Action
  | initiate (op : Nat) (f : Initiation) (connected : Bool) (impl : Implementation)
      (env : Environment)
  | kernelCompletes (op : Nat) (ec : ErrorCode)
  | reactorPerforms (op : Nat) (t : OpType) (ec : ErrorCode)
  | complete (op : Nat) (e : Finish)
  | check (op : Nat)
  | submit (op : Nat) (attempt : Attempt)
  | emit (op : Nat) (type : CancellationType)

/-- The flag of an accept that has one. -/
def State.cancelRequested (s : State) (op : Nat) : Option Int :=
  (s.slots op).bind fun slot =>
    match slot.cancellation with
    | .acceptOp cancelRequested => some cancelRequested
    | _ => none

/-- `check` and `submit` are the two parts of a restart, in which the flag is looked at. -/
def step (s : State) : Action → Option State
  | .initiate op f connected impl env =>
    if s.operations op = none then some (s.initiate op f connected impl env) else none
  | .kernelCompletes op ec =>
    (s.operations op).bind fun o =>
      if (o.socket, o.overlapped op) ∈ s.kernel then
        some ({ s with kernel := s.kernel.filter (· ≠ (o.socket, o.overlapped op)) }.setStage op
          (.posted ec))
      else none
  | .reactorPerforms op t ec =>
    (s.operations op).bind fun o =>
      if (s.queues t o.socket).any (·.id = op) then
        some ((s.setQueue t o.socket ((s.queues t o.socket).filter (·.id ≠ op))).setStage op
          (.posted ec))
      else none
  | .complete op e =>
    (s.operations op).bind fun o =>
      match o.stage with
      | .posted ec => some (s.setStage op (o.finish ec e))
      | _ => none
  | .check op =>
    (s.operations op).bind fun o =>
      if o.stage = .aborted then some (s.setStage op (.checked (s.cancelRequested op))) else none
  | .submit op attempt =>
    (s.operations op).bind fun o =>
      match o.stage with
      | .checked first =>
        let flags := first.bind fun a => (s.cancelRequested op).map fun b => (a, b)
        some (s.place op o (ofEffects (restartAcceptOp o.proxy flags attempt)))
      | _ => none
  | .emit op type => some (s.emit op type)

end Asio.Detail.WinIocpCancellation
