import Asio.Lib.Interleaving

/-! The io_context that is an I/O completion port: threads that initiate overlapped operations,
threads that dequeue completion packets, and the calls that stop and restart them. -/

universe u

namespace Asio.Detail.WinIocpIoContext

open Asio.Lib Transition

set_option linter.unusedSectionVars false

inductive ErrorCategory
  | system | other
  deriving DecidableEq

structure ErrorCode where
  category : ErrorCategory
  value : Nat
  deriving DecidableEq

/-- What a handler is invoked with, and what the OVERLAPPED structure of an operation may hold. -/
structure Result where
  ec : ErrorCode
  bytesTransferred : Nat
  deriving DecidableEq

/-- How the system takes an overlapped operation: it completes later, or it is already complete
when the system call returns. -/
inductive Outcome
  | pending (lastError bytesTransferred : Nat)
  | immediate (ec : ErrorCode) (bytesTransferred : Nat)
  deriving DecidableEq

def Outcome.result : Outcome → Result
  | .pending lastError bytesTransferred => ⟨⟨.system, lastError⟩, bytesTransferred⟩
  | .immediate ec bytesTransferred => ⟨ec, bytesTransferred⟩

inductive CompletionKey
  | zero | wakeForDispatch | overlappedContainsResult
  deriving DecidableEq

structure Packet where
  overlapped : Option Nat
  completionKey : CompletionKey
  lastError : Nat
  bytesTransferred : Nat
  deriving DecidableEq

/-- `PostQueuedCompletionStatus(iocp_.handle, 0, key, overlapped)`. -/
def Packet.posted (key : CompletionKey) (overlapped : Option Nat) : Packet :=
  ⟨overlapped, key, 0, 0⟩

/-- A packet without an operation that does not wake a thread for dispatch. -/
def Packet.isStop (p : Packet) : Bool :=
  p.overlapped.isNone && p.completionKey ≠ .wakeForDispatch

/-- The timeout of `do_one`, and whether the caller goes on after an operation. -/
structure Mode where
  infinite : Bool
  again : Bool
  deriving DecidableEq

/-- A call in progress, at its next access to what the threads share. -/
inductive Call
  | stop
  | stopEvent
  | stopPost
  | workFinished
  | run (mode : Mode)
  | doOne (mode : Mode)
  | collect (mode : Mode)
  | postDeferredAll (mode : Mode) (ops : List Nat)
  | getQueued (mode : Mode)
  | dequeued (mode : Mode) (op : Nat) (key : CompletionKey) (result : Result)
  | exchangeReady (mode : Mode) (op : Nat) (result : Result)
  | complete (mode : Mode) (op : Nat)
  | blockExit (mode : Mode) (op : Nat)
  | completed (mode : Mode)
  | clearStop (mode : Mode)
  | checkStopped (mode : Mode)
  | exchangeStop (mode : Mode)
  | repostStop (mode : Mode)
  | initiate (op : Nat)
  | onPending (op : Nat)
  | onCompletion (op : Nat) (result : Result)
  | storeResult (op : Nat) (result : Result)
  | postResult (op : Nat)
  | postDeferred (op : Nat)
  | pushCompleted (op : Nat)
  | requireDispatch
  deriving DecidableEq

/-- The members of the io_context, the port, what the system works on, the `ready_` and the result
fields of the operations, and the history of the operations. -/
structure World where
  outstandingWork : Int
  stopped : Bool
  stopEventPosted : Bool
  dispatchRequired : Bool
  completedOps : List Nat
  timers : List Nat
  port : List Packet
  kernel : List Nat
  ready : Nat → Bool
  stored : Nat → Result
  started : List Nat
  overlapped : List Nat
  invoked : List (Nat × Result)
  finished : List Nat

inductive Action
  | stop
  | restart
  | run (mode : Mode)
  | initiate (op : Nat)
  | post (op : Nat)
  | workStarted
  | workFinished
  | step
  | throws
  | postFails
  | timeout
  | getQueuedFails
  | deliver (op : Nat)
  | timerReady (op : Nat)
  | timerExpired
  | wake
  deriving DecidableEq

def World.push (w : World) (p : Packet) : World := { w with port := w.port ++ [p] }

def World.start (w : World) (op : Nat) : World := { w with started := w.started ++ [op] }

def World.setReady (w : World) (op : Nat) : World :=
  { w with ready := Function.update w.ready op true }

def World.store (w : World) (op : Nat) (r : Result) : World :=
  { w with stored := Function.update w.stored op r }

/-- A packet that a thread has dequeued. -/
def received (mode : Mode) (p : Packet) : Call :=
  match p.overlapped with
  | some op =>
    .dequeued mode op p.completionKey ⟨⟨.system, p.lastError⟩, p.bytesTransferred⟩
  | none => if p.completionKey = .wakeForDispatch then .doOne mode else .clearStop mode

/-- The next access of a call, and the calls that it becomes. -/
def advance (outcome : Nat → Outcome) (w : World) : Call → Option (World × List Call)
  | .stop => some ({ w with stopped := true }, if w.stopped then [] else [.stopEvent])
  | .stopEvent =>
    some ({ w with stopEventPosted := true }, if w.stopEventPosted then [] else [.stopPost])
  | .stopPost => some (w.push (.posted .zero none), [])
  | .workFinished =>
    some ({ w with outstandingWork := w.outstandingWork - 1 },
      if w.outstandingWork - 1 = 0 then [.stop] else [])
  | .run mode => some (w, if w.outstandingWork = 0 then [.stop] else [.doOne mode])
  | .doOne mode =>
    some ({ w with dispatchRequired := false },
      if w.dispatchRequired then [.collect mode] else [.getQueued mode])
  | .collect mode =>
    some ({ w with completedOps := [], timers := [] },
      [.postDeferredAll mode (w.completedOps ++ w.timers)])
  | .postDeferredAll mode [] => some (w, [.getQueued mode])
  | .postDeferredAll mode (op :: ops) =>
    some ((w.setReady op).push (.posted .zero (some op)), [.postDeferredAll mode ops])
  | .getQueued mode =>
    match w.port with
    | [] => none
    | p :: port => some ({ w with port := port }, [received mode p])
  | .dequeued mode op key result =>
    if key = .overlappedContainsResult then
      some (w, [.exchangeReady mode op (w.stored op)])
    else
      some (w.store op result, [.exchangeReady mode op result])
  | .exchangeReady mode op result =>
    if w.ready op then
      some ({ w with invoked := w.invoked ++ [(op, result)] }, [.complete mode op])
    else
      some (w.setReady op, [.doOne mode])
  | .complete mode op => some (w, [.blockExit mode op])
  | .blockExit mode op =>
    some ({ w with
        outstandingWork := w.outstandingWork - 1
        finished := w.finished ++ [op] },
      if w.outstandingWork - 1 = 0 then [.stop, .completed mode] else [.completed mode])
  | .completed mode => some (w, if mode.again then [.doOne mode] else [])
  | .clearStop mode => some ({ w with stopEventPosted := false }, [.checkStopped mode])
  | .checkStopped mode => some (w, if w.stopped then [.exchangeStop mode] else [.doOne mode])
  | .exchangeStop mode =>
    some ({ w with stopEventPosted := true },
      if w.stopEventPosted then [] else [.repostStop mode])
  | .repostStop _ => some (w.push (.posted .zero none), [])
  | .initiate op =>
    match outcome op with
    | .pending .. => some ({ w with kernel := w.kernel ++ [op] }, [.onPending op])
    | .immediate ec bytes => some (w, [.onCompletion op ⟨ec, bytes⟩])
  | .onPending op => some (w.setReady op, if w.ready op then [.postResult op] else [])
  | .onCompletion op result => some (w.setReady op, [.storeResult op result])
  | .storeResult op result => some (w.store op result, [.postResult op])
  | .postResult op => some (w.push (.posted .overlappedContainsResult (some op)), [])
  | .postDeferred op => some ((w.setReady op).push (.posted .zero (some op)), [])
  | .pushCompleted op => some ({ w with completedOps := w.completedOps ++ [op] }, [.requireDispatch])
  | .requireDispatch => some ({ w with dispatchRequired := true }, [])

/-- The next access of a call that posts a packet, when the system is out of resources. -/
def postFailed (w : World) : Call → Option (World × List Call)
  | .stopPost => some (w, [])
  | .repostStop _ => some (w, [])
  | .postResult op => some (w, [.pushCompleted op])
  | .postDeferred op => some (w.setReady op, [.pushCompleted op])
  | .postDeferredAll mode (op :: ops) =>
    some ({ w.setReady op with
        completedOps := w.completedOps ++ op :: ops
        dispatchRequired := true }, [.postDeferredAll mode []])
  | _ => none

/-- Handlers and code outside the io_context may call it. -/
def mayCall : List Call → Bool
  | [] => true
  | .complete .. :: _ => true
  | _ => false

def perform {ι : Type u} (outcome : Nat → Outcome) (_ : ι) (w : World) (calls : List Call) :
    Action → Option (World × List Call)
  | .stop => if mayCall calls then some (w, .stop :: calls) else none
  | .restart => if mayCall calls then some ({ w with stopped := false }, calls) else none
  | .run mode => if mayCall calls then some (w, .run mode :: calls) else none
  | .initiate op =>
    if mayCall calls ∧ op ∉ w.started then
      some ({ w.start op with
        outstandingWork := w.outstandingWork + 1
        overlapped := w.overlapped ++ [op] }, .initiate op :: calls)
    else
      none
  | .post op =>
    if mayCall calls ∧ op ∉ w.started then
      some ({ w.start op with outstandingWork := w.outstandingWork + 1 },
        .postDeferred op :: calls)
    else
      none
  | .workStarted =>
    if mayCall calls then some ({ w with outstandingWork := w.outstandingWork + 1 }, calls) else none
  | .workFinished => if mayCall calls then some (w, .workFinished :: calls) else none
  | .step =>
    match calls with
    | [] => none
    | call :: rest => (advance outcome w call).map fun (w, new) => (w, new ++ rest)
  | .throws =>
    match calls with
    | .complete mode op :: rest => some (w, .blockExit { mode with again := false } op :: rest)
    | _ => none
  | .postFails =>
    match calls with
    | [] => none
    | call :: rest => (postFailed w call).map fun (w, new) => (w, new ++ rest)
  | .timeout =>
    match calls with
    | .getQueued mode :: rest =>
      if w.port = [] then some (w, if mode.infinite then .doOne mode :: rest else rest) else none
    | _ => none
  | .getQueuedFails =>
    match calls with
    | .getQueued _ :: rest => some (w, rest)
    | _ => none
  | .deliver op =>
    match outcome op with
    | .pending lastError bytes =>
      if op ∈ w.kernel then
        some ({ w with kernel := w.kernel.erase op }.push ⟨some op, .zero, lastError, bytes⟩, calls)
      else
        none
    | .immediate .. => none
  | .timerReady op =>
    if op ∉ w.started then some ({ w.start op with timers := w.timers ++ [op] }, calls) else none
  | .timerExpired => some ({ w with dispatchRequired := true }, calls)
  | .wake => some (w.push (.posted .wakeForDispatch none), calls)

abbrev State (ι : Type u) := Interleaving.State ι World (List Call)

def World.construct : World where
  outstandingWork := 0
  stopped := false
  stopEventPosted := false
  dispatchRequired := false
  completedOps := []
  timers := []
  port := []
  kernel := []
  ready _ := false
  stored _ := ⟨⟨.system, 0⟩, 0⟩
  started := []
  overlapped := []
  invoked := []
  finished := []

def initial {ι : Type u} : State ι := ⟨.construct, fun _ => []⟩

def step {ι : Type u} [DecidableEq ι] (outcome : Nat → Outcome) :
    State ι → ι × Action → Option (State ι) :=
  Interleaving.step (perform outcome)

/-- What an action requires, and what it does. -/
inductive Performs (outcome : Nat → Outcome) (w : World) :
    List Call → Action → World → List Call → Prop
  | stop (calls : List Call) : Performs outcome w calls .stop w (.stop :: calls)
  | restart (calls : List Call) :
    Performs outcome w calls .restart { w with stopped := false } calls
  | run (mode : Mode) (calls : List Call) :
    Performs outcome w calls (.run mode) w (.run mode :: calls)
  | initiate (op : Nat) (calls : List Call) (hnew : op ∉ w.started) :
    Performs outcome w calls (.initiate op)
      { w.start op with
        outstandingWork := w.outstandingWork + 1
        overlapped := w.overlapped ++ [op] } (.initiate op :: calls)
  | post (op : Nat) (calls : List Call) (hnew : op ∉ w.started) :
    Performs outcome w calls (.post op)
      { w.start op with outstandingWork := w.outstandingWork + 1 } (.postDeferred op :: calls)
  | workStarted (calls : List Call) :
    Performs outcome w calls .workStarted { w with outstandingWork := w.outstandingWork + 1 } calls
  | workFinished (calls : List Call) :
    Performs outcome w calls .workFinished w (.workFinished :: calls)
  | step {c : Call} {new : List Call} {w' : World} (rest : List Call)
    (hadv : advance outcome w c = some (w', new)) :
    Performs outcome w (c :: rest) .step w' (new ++ rest)
  | throws (mode : Mode) (op : Nat) (rest : List Call) :
    Performs outcome w (.complete mode op :: rest) .throws w
      (.blockExit { mode with again := false } op :: rest)
  | postFails {c : Call} {new : List Call} {w' : World} (rest : List Call)
    (hpost : postFailed w c = some (w', new)) :
    Performs outcome w (c :: rest) .postFails w' (new ++ rest)
  | timeout (mode : Mode) (rest : List Call) (hport : w.port = []) :
    Performs outcome w (.getQueued mode :: rest) .timeout w
      (if mode.infinite then .doOne mode :: rest else rest)
  | getQueuedFails (mode : Mode) (rest : List Call) :
    Performs outcome w (.getQueued mode :: rest) .getQueuedFails w rest
  | deliver (op : Nat) (calls : List Call) {lastError bytes : Nat}
    (houtcome : outcome op = .pending lastError bytes) (hkernel : op ∈ w.kernel) :
    Performs outcome w calls (.deliver op)
      ({ w with kernel := w.kernel.erase op }.push ⟨some op, .zero, lastError, bytes⟩) calls
  | timerReady (op : Nat) (calls : List Call) (hnew : op ∉ w.started) :
    Performs outcome w calls (.timerReady op) { w.start op with timers := w.timers ++ [op] } calls
  | timerExpired (calls : List Call) :
    Performs outcome w calls .timerExpired { w with dispatchRequired := true } calls
  | wake (calls : List Call) :
    Performs outcome w calls .wake (w.push (.posted .wakeForDispatch none)) calls

theorem perform_performs {ι : Type u} {outcome : Nat → Outcome} {i : ι} {w w' : World}
    {calls calls' : List Call} {a : Action}
    (h : perform outcome i w calls a = some (w', calls')) :
    Performs outcome w calls a w' calls' := by
  cases a with
  | step =>
    cases calls with
    | nil => cases h
    | cons c rest =>
      obtain ⟨⟨w₁, new⟩, hadv, heq⟩ := Option.map_eq_some_iff.mp h
      cases heq
      exact .step rest hadv
  | postFails =>
    cases calls with
    | nil => cases h
    | cons c rest =>
      obtain ⟨⟨w₁, new⟩, hpost, heq⟩ := Option.map_eq_some_iff.mp h
      cases heq
      exact .postFails rest hpost
  | timerExpired =>
    cases h
    exact .timerExpired calls
  | wake =>
    cases h
    exact .wake calls
  | stop | run mode | workFinished | restart | workStarted =>
    simp only [perform] at h
    split at h
    · cases h
      constructor
    · cases h
  | initiate op | post op =>
    simp only [perform] at h
    split at h
    · rename_i hcall
      cases h
      constructor
      exact hcall.2
    · cases h
  | throws | getQueuedFails =>
    simp only [perform] at h
    split at h
    · cases h
      constructor
    · cases h
  | timeout =>
    simp only [perform] at h
    split at h
    · split at h
      · rename_i hport
        cases h
        exact .timeout _ _ hport
      · cases h
    · cases h
  | deliver op =>
    simp only [perform] at h
    split at h
    · rename_i houtcome
      split at h
      · rename_i hkernel
        cases h
        exact .deliver op calls houtcome hkernel
      · cases h
    · cases h
  | timerReady op =>
    simp only [perform] at h
    split at h
    · rename_i hnew
      cases h
      exact .timerReady op calls hnew
    · cases h

end Asio.Detail.WinIocpIoContext
