import Asio.Detail.PosixEvent

/-! The scheduler: a queue of operations shared by the threads that run it, a private queue in
every call that runs it, and a count of outstanding work that is split in the same way. -/

universe u

namespace Asio.Detail

structure Scheduler.Config where
  enabled : Bool
  oneThread : Bool
  ownThread : Bool

/-- What may be in an operation queue: `task_operation_`, which stands for the reactor, the state
of a descriptor that the reactor found ready, and the operations of users. -/
inductive Operation
  | taskOperation
  | descriptor
  | handler (id : Nat)
  deriving DecidableEq

def Operation.id? : Operation → Option Nat
  | .handler id => some id
  | _ => none

structure Scheduler (τ : Type u) where
  wakeupEvent : PosixEvent τ
  task : Bool
  taskInterrupted : Bool
  outstandingWork : Int
  opQueue : List Operation
  stopped : Bool
  shutdown : Bool
  deriving DecidableEq

namespace Scheduler

inductive Entry
  | run | runOne
  | waitOne (usec : Int)
  | poll | pollOne
  deriving DecidableEq

/-- Where a pass through `do_run_one`, `do_wait_one` or `do_poll_one` leaves the mutex: to wait
for the event, to run the task, to execute an operation, or with nothing done. -/
inductive Next
  | wait
  | task (usec : Int)
  | execute (op : Operation)
  | ret
  deriving DecidableEq

variable {τ : Type u} [DecidableEq τ]

def construct (cfg : Config) : Scheduler τ where
  wakeupEvent := .construct
  task := false
  taskInterrupted := true
  outstandingWork := if cfg.ownThread then 1 else 0
  opQueue := []
  stopped := false
  shutdown := false

/-! ### Waking threads -/

section Waking

def mapEvent (cfg : Config) (s : Scheduler τ) (f : PosixEvent τ → PosixEvent τ) : Scheduler τ :=
  if cfg.enabled then { s with wakeupEvent := f s.wakeupEvent } else s

/-- `task_->run` is made to return soon. -/
def interrupt (s : Scheduler τ) : Scheduler τ :=
  if !s.taskInterrupted && s.task then { s with taskInterrupted := true } else s

def maybeUnlockAndSignalOne (cfg : Config) (s : Scheduler τ) : Bool × Scheduler τ :=
  (cfg.enabled && s.wakeupEvent.maybeUnlockAndSignalOne.1,
    mapEvent cfg s fun e => e.maybeUnlockAndSignalOne.2)

def wakeOneThreadAndUnlock (cfg : Config) (s : Scheduler τ) : Scheduler τ :=
  let r := maybeUnlockAndSignalOne cfg s
  if r.1 then r.2 else interrupt r.2

def stopAllThreads (cfg : Config) (s : Scheduler τ) : Scheduler τ :=
  interrupt (mapEvent cfg { s with stopped := true } PosixEvent.signalAll)

/-- `clear` and the beginning of `wait` or `wait_for_usec`. -/
def waitForEvent (cfg : Config) (t : τ) (s : Scheduler τ) : Scheduler τ :=
  mapEvent cfg s fun e => e.clear.beginWait t

end Waking

/-! ### One pass through the loops -/

section Passes

def takeHandler (cfg : Config) (s : Scheduler τ) (op : Operation) (rest : List Operation) :
    Scheduler τ × Next :=
  let s := { s with opQueue := rest }
  (if rest ≠ [] && !cfg.oneThread then wakeOneThreadAndUnlock cfg s else s, .execute op)

/-- Taking the front of the queue in `do_run_one` and `do_wait_one`. -/
def takeFront (cfg : Config) (usec : Int) (s : Scheduler τ) (op : Operation)
    (rest : List Operation) : Scheduler τ × Next :=
  if op = .taskOperation then
    let s := { s with opQueue := rest, taskInterrupted := rest ≠ [] }
    (if rest ≠ [] && !cfg.oneThread then mapEvent cfg s PosixEvent.unlockAndSignalOne else s,
      .task (if rest ≠ [] then 0 else usec))
  else takeHandler cfg s op rest

def doRunOne (cfg : Config) (t : τ) (s : Scheduler τ) : Scheduler τ × Next :=
  if s.stopped then (s, .ret)
  else
    match s.opQueue with
    | [] => (waitForEvent cfg t s, .wait)
    | op :: rest => takeFront cfg (-1) s op rest

def doWaitOne (cfg : Config) (t : τ) (usec : Int) (s : Scheduler τ) : Scheduler τ × Next :=
  if s.stopped then (s, .ret)
  else
    match s.opQueue with
    | [] => (waitForEvent cfg t s, .wait)
    | op :: rest => takeFront cfg usec s op rest

/-- `do_wait_one` after its wait. -/
def waitOneAfterWait (cfg : Config) (s : Scheduler τ) : Scheduler τ × Next :=
  match s.opQueue with
  | [] => (s, .ret)
  | op :: rest => takeFront cfg 0 s op rest

/-- `do_wait_one` and `do_poll_one` after the task has run; `signals` is whether a waiter is
signalled when the task comes first again. -/
def afterTask (cfg : Config) (signals : Bool) (s : Scheduler τ) : Scheduler τ × Next :=
  match s.opQueue with
  | [] => (s, .ret)
  | op :: rest =>
    if op = .taskOperation then
      (if signals then (maybeUnlockAndSignalOne cfg s).2 else s, .ret)
    else takeHandler cfg s op rest

def doPollOne (cfg : Config) (s : Scheduler τ) : Scheduler τ × Next :=
  if s.stopped then (s, .ret)
  else
    match s.opQueue with
    | [] => (s, .ret)
    | op :: rest =>
      if op = .taskOperation then ({ s with opQueue := rest }, .task 0)
      else takeHandler cfg s op rest

def pass (cfg : Config) (t : τ) (s : Scheduler τ) : Entry → Scheduler τ × Next
  | .run | .runOne => doRunOne cfg t s
  | .waitOne usec => doWaitOne cfg t usec s
  | .poll | .pollOne => doPollOne cfg s

def passAfterTask (cfg : Config) (t : τ) (s : Scheduler τ) : Entry → Scheduler τ × Next
  | .run | .runOne => doRunOne cfg t s
  | .waitOne _ => afterTask cfg (!cfg.oneThread) s
  | .poll | .pollOne => afterTask cfg true s

/-- A waiter has locked the mutex again; `do_run_one` waits on while the event is not signalled,
unless it was waiting in `::pause`, for want of an event. -/
def passAfterWait (cfg : Config) (t : τ) (s : Scheduler τ) : Entry → Scheduler τ × Next
  | .run | .runOne =>
    let s := mapEvent cfg s PosixEvent.endWait
    if !cfg.enabled || s.wakeupEvent.isSignalled then doRunOne cfg t s
    else (mapEvent cfg s fun e => e.beginWait t, .wait)
  | .waitOne _ | .poll | .pollOne =>
    waitOneAfterWait cfg (mapEvent cfg s PosixEvent.endWait)

end Passes

end Scheduler

end Asio.Detail
