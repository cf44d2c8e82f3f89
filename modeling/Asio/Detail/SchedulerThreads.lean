import Mathlib.Data.List.Perm.Basic
import Asio.Lib.Interleaving
import Asio.Detail.Scheduler

/-! The threads that use a scheduler.  An action of a thread is one section under the mutex, or
what the thread does between two of them. -/

universe u

namespace Asio.Detail.Scheduler

open Asio.Lib

structure ThreadInfo where
  privateOpQueue : List Operation
  privateOutstandingWork : Int
  deriving DecidableEq

/-- Where a call that runs the scheduler is: `again` is between two passes of `run` or `poll`,
`performed` after a descriptor that had no completed operation, `taskExit` and `workExit` are the
cleanups that are still to lock the mutex. -/
inductive Pc
  | begin | again | wait
  | task (usec : Int)
  | taskExit (thrown : Bool)
  | execute (op : Operation)
  | performed
  | workExit (thrown : Bool)
  deriving DecidableEq

/-- A call that runs the scheduler.  `ready` records the operations that were on the queue when it
began. -/
structure Call extends ThreadInfo where
  entry : Entry
  pc : Pc
  n : Nat
  ready : List Nat
  deriving DecidableEq

/-- What a thread has decided to do and needs the mutex for. -/
inductive Pending
  | idle
  | push (ids : List Nat)
  | stop
  deriving DecidableEq

/-- `calls` are the contexts on the call stack of the thread, the innermost first. -/
structure Thread where
  calls : List Call
  pending : Pending
  deriving DecidableEq

structure Return where
  entry : Entry
  value : Option Nat
  ready : List Nat
  deriving DecidableEq

/-- The scheduler and the history of its run: `guards` is the work that users have started and not
finished, `issued` the operations whose work was ever started, `started` those not yet handed
over, and `posted` those that came to a queue or to a thread. -/
structure World (τ : Type u) where
  scheduler : Scheduler τ
  guards : Nat
  issued : List Nat
  started : List Nat
  posted : List Nat
  completed : List Nat
  destroyed : List Nat
  returned : List Return
  deriving DecidableEq

inductive Action
  | call (entry : Entry)
  | enter
  | wake | signal | signalNobody | resume
  | taskPush (op : Operation)
  | taskReturn (thrown : Bool)
  | taskCleanup
  | adopt (id : Nat)
  | compensate
  | complete (thrown : Bool)
  | workCleanup
  | start (id : Nat)
  | postImmediate (ids : List Nat) (isContinuation : Bool)
  | postDeferred (ids : List Nat)
  | doDispatch (id : Nat)
  | lock
  | workStarted | workFinished
  | stop | restart
  | initTask
  | shutdown
  | drain
  deriving DecidableEq

def handlers (ops : List Operation) : List Nat := ops.filterMap Operation.id?

def Pc.Handling : Pc → Prop
  | .execute (.handler _) => True
  | _ => False

instance (pc : Pc) : Decidable pc.Handling := by
  cases pc with
  | execute op => cases op <;> dsimp only [Pc.Handling] <;> infer_instance
  | _ => dsimp only [Pc.Handling]; infer_instance

namespace Thread

def construct : Thread where
  calls := []
  pending := .idle

/-- Let the innermost call of a thread go on. -/
def top {β : Type u} (thr : Thread) (k : Call → List Call → Option β) : Option β :=
  match thr.pending, thr.calls with
  | .idle, c :: rest => k c rest
  | _, _ => none

/-- The thread is outside the scheduler or inside a handler, free to call any function. -/
def Free (thr : Thread) : Prop := thr.pending = .idle ∧ ∀ c ∈ thr.calls.head?, c.pc.Handling

instance (thr : Thread) : Decidable thr.Free := inferInstanceAs (Decidable (_ ∧ _))

theorem top_eq_some {β : Type u} {thr : Thread} {k : Call → List Call → Option β} {b : β} :
    thr.top k = some b ↔ ∃ c rest, thr = ⟨c :: rest, .idle⟩ ∧ k c rest = some b := by
  obtain ⟨calls, pending⟩ := thr
  cases pending <;> cases calls <;> simp [top]

end Thread

def Call.construct (entry : Entry) : Call where
  privateOpQueue := []
  privateOutstandingWork := 0
  entry := entry
  pc := .begin
  n := 0
  ready := []

variable {τ : Type u} [DecidableEq τ]

def World.put {τ : Type u} (w : World τ) (s : Scheduler τ) : World τ := { w with scheduler := s }

@[simp] theorem World.scheduler_put {τ : Type u} (w : World τ) (s : Scheduler τ) :
    (w.put s).scheduler = s := rfl

/-! ### Calls that run the scheduler -/

section Calls

/-- A call is over, with a result or with an exception; its thread information is destroyed. -/
def leave (w : World τ) (c : Call) (rest : List Call) (value : Option Nat) : World τ × Thread :=
  ({ w with
      destroyed := w.destroyed ++ handlers c.privateOpQueue
      returned := w.returned ++ [⟨c.entry, value, c.ready⟩] },
    ⟨rest, .idle⟩)

def proceed (w : World τ) (c : Call) (rest : List Call) (r : Scheduler τ × Next) :
    World τ × Thread :=
  match r.2 with
  | .wait => (w.put r.1, ⟨{ c with pc := .wait } :: rest, .idle⟩)
  | .task usec => (w.put r.1, ⟨{ c with pc := .task usec } :: rest, .idle⟩)
  | .execute op => (w.put r.1, ⟨{ c with pc := .execute op } :: rest, .idle⟩)
  | .ret => leave (w.put r.1) c rest (some c.n)

/-- A nested `poll` or `poll_one` puts the private queue of the outer call on the main queue. -/
def takeOuter (cfg : Config) (s : Scheduler τ) (entry : Entry) :
    List Call → Scheduler τ × List Call
  | [] => (s, [])
  | outer :: rest =>
    if cfg.oneThread ∧ (entry = .poll ∨ entry = .pollOne) then
      ({ s with opQueue := s.opQueue ++ outer.privateOpQueue },
        { outer with privateOpQueue := [] } :: rest)
    else (s, outer :: rest)

def readyIds (s : Scheduler τ) : List Nat := if s.stopped then [] else handlers s.opQueue

def call (cfg : Config) (w : World τ) (thr : Thread) (entry : Entry) :
    Option (World τ × Thread) :=
  if thr.Free then
    if w.scheduler.outstandingWork = 0 then
      let ready := readyIds (takeOuter cfg w.scheduler entry thr.calls).1
      some ({ w with returned := w.returned ++ [⟨entry, some 0, ready⟩] },
        { thr with pending := .stop })
    else some (w, { thr with calls := Call.construct entry :: thr.calls })
  else none

def enter (cfg : Config) (t : τ) (w : World τ) (thr : Thread) : Option (World τ × Thread) :=
  thr.top fun c rest =>
    match c.pc with
    | .begin =>
      let r := takeOuter cfg w.scheduler c.entry rest
      some (proceed w { c with ready := readyIds r.1 } r.2 (pass cfg t r.1 c.entry))
    | .again => some (proceed w c rest (pass cfg t w.scheduler c.entry))
    | _ => none

/-- A thread that was waiting has the mutex again. -/
def resume (cfg : Config) (t : τ) (w : World τ) (thr : Thread) : Option (World τ × Thread) :=
  thr.top fun c rest =>
    if c.pc = .wait ∧ t ∉ w.scheduler.wakeupEvent.blocked then
      some (proceed w c rest (passAfterWait cfg t w.scheduler c.entry))
    else none

/-- The reactor puts an operation on the private queue of the thread that runs it. -/
def taskPush (w : World τ) (thr : Thread) (op : Operation) : Option (World τ × Thread) :=
  thr.top fun c rest =>
    let c' := { c with privateOpQueue := c.privateOpQueue ++ [op] }
    match c.pc, op with
    | .task _, .descriptor => some (w, ⟨c' :: rest, .idle⟩)
    | .task _, .handler id =>
      if id ∈ w.started then
        some ({ w with started := w.started.erase id, posted := w.posted ++ [id] },
          ⟨c' :: rest, .idle⟩)
      else none
    | _, _ => none

/-- The first half of `~task_cleanup`. -/
def taskReturn (w : World τ) (thr : Thread) (thrown : Bool) : Option (World τ × Thread) :=
  thr.top fun c rest =>
    match c.pc with
    | .task _ =>
      let p := c.privateOutstandingWork
      let o := w.scheduler.outstandingWork
      some (w.put { w.scheduler with outstandingWork := if p > 0 then o + p else o },
        ⟨{ c with privateOutstandingWork := 0, pc := .taskExit thrown } :: rest, .idle⟩)
    | _ => none

/-- The second half of `~task_cleanup`, and what follows it in the same section. -/
def taskCleanup (cfg : Config) (t : τ) (w : World τ) (thr : Thread) :
    Option (World τ × Thread) :=
  thr.top fun c rest =>
    match c.pc with
    | .taskExit thrown =>
      let s := { w.scheduler with
        taskInterrupted := true
        opQueue := w.scheduler.opQueue ++ c.privateOpQueue ++ [.taskOperation] }
      let c := { c with privateOpQueue := [] }
      some (if thrown then leave (w.put s) c rest none
        else proceed w c rest (passAfterTask cfg t s c.entry))
    | _ => none

/-- A descriptor has completed the operation `id`, which is then completed in its place. -/
def adopt (w : World τ) (thr : Thread) (id : Nat) : Option (World τ × Thread) :=
  thr.top fun c rest =>
    if c.pc = .execute .descriptor ∧ id ∈ w.started then
      some ({ w with started := w.started.erase id, posted := w.posted ++ [id] },
        ⟨{ c with pc := .execute (.handler id) } :: rest, .idle⟩)
    else none

/-- `compensating_work_started`, for a descriptor that has completed nothing. -/
def compensate (w : World τ) (thr : Thread) : Option (World τ × Thread) :=
  thr.top fun c rest =>
    if c.pc = .execute .descriptor then
      some (w, ⟨{ c with
        privateOutstandingWork := c.privateOutstandingWork + 1
        pc := .performed } :: rest, .idle⟩)
    else none

/-- The first half of `~work_cleanup`, with its call of `work_finished`. -/
def settle (w : World τ) (c : Call) (rest : List Call) (thrown : Bool) : World τ × Thread :=
  let p := c.privateOutstandingWork
  let o := w.scheduler.outstandingWork
  let o' := if p > 1 then o + (p - 1) else if p < 1 then o - 1 else o
  (w.put { w.scheduler with outstandingWork := o' },
    ⟨{ c with privateOutstandingWork := 0, pc := .workExit thrown } :: rest,
      if p < 1 ∧ o' = 0 then .stop else .idle⟩)

/-- An operation is complete, or has thrown an exception. -/
def complete (w : World τ) (thr : Thread) (thrown : Bool) : Option (World τ × Thread) :=
  thr.top fun c rest =>
    match c.pc with
    | .execute (.handler id) =>
      some (settle { w with completed := w.completed ++ [id] } c rest thrown)
    | .performed => some (settle w c rest thrown)
    | _ => none

/-- `if (n != (std::numeric_limits<std::size_t>::max)()) ++n` -/
def count (n : Nat) : Nat := if n ≠ 2 ^ 64 - 1 then n + 1 else n

/-- The second half of `~work_cleanup`; a loop that finds the mutex locked goes on with it. -/
def workCleanup (cfg : Config) (t : τ) (w : World τ) (thr : Thread) :
    Option (World τ × Thread) :=
  thr.top fun c rest =>
    match c.pc with
    | .workExit thrown =>
      let s := { w.scheduler with opQueue := w.scheduler.opQueue ++ c.privateOpQueue }
      let c' := { c with privateOpQueue := [], n := count c.n }
      some (if thrown then leave (w.put s) c' rest none
        else if c.entry = .run ∨ c.entry = .poll then
          if c.privateOpQueue ≠ [] then proceed w c' rest (pass cfg t s c.entry)
          else (w.put s, ⟨{ c' with pc := .again } :: rest, .idle⟩)
        else leave (w.put s) c' rest (some c'.n))
    | _ => none

end Calls

/-! ### Calls that give work to the scheduler -/

section Work

/-- `work_started` for an operation that is handed over later. -/
def start (w : World τ) (thr : Thread) (id : Nat) : Option (World τ × Thread) :=
  if thr.Free ∧ id ∉ w.issued then
    some ({ w with
      scheduler.outstandingWork := w.scheduler.outstandingWork + 1
      issued := w.issued ++ [id]
      started := w.started ++ [id] }, thr)
  else none

def postImmediate (cfg : Config) (w : World τ) (thr : Thread) (ids : List Nat)
    (isContinuation : Bool) : Option (World τ × Thread) :=
  if thr.Free ∧ ids.Nodup ∧ ∀ id ∈ ids, id ∉ w.issued then
    let w := { w with issued := w.issued ++ ids }
    let shared : World τ × Thread :=
      ({ w with scheduler.outstandingWork := w.scheduler.outstandingWork + ids.length },
        { thr with pending := .push ids })
    match thr.calls with
    | [] => some shared
    | c :: rest =>
      some (if cfg.oneThread || isContinuation then
        ({ w with posted := w.posted ++ ids }, ⟨{ c with
          privateOpQueue := c.privateOpQueue ++ ids.map .handler
          privateOutstandingWork := c.privateOutstandingWork + ids.length } :: rest, .idle⟩)
      else shared)
  else none

/-- `post_deferred_completions`, by a user or by a descriptor with more operations than one. -/
def postDeferred (cfg : Config) (w : World τ) (thr : Thread) (ids : List Nat) :
    Option (World τ × Thread) :=
  if (thr.Free ∨ thr.pending = .idle ∧ ∃ c ∈ thr.calls.head?, c.pc = .execute .descriptor) ∧
      ids ≠ [] ∧ ∀ id ∈ ids, ids.count id ≤ w.started.count id then
    let w := { w with started := w.started.diff ids }
    match thr.calls with
    | [] => some (w, { thr with pending := .push ids })
    | c :: rest =>
      some (if cfg.oneThread then
        ({ w with posted := w.posted ++ ids }, ⟨{ c with
          privateOpQueue := c.privateOpQueue ++ ids.map .handler } :: rest, .idle⟩)
      else (w, { thr with pending := .push ids }))
  else none

def doDispatch (w : World τ) (thr : Thread) (id : Nat) : Option (World τ × Thread) :=
  if thr.Free ∧ id ∉ w.issued then
    some ({ w with
      scheduler.outstandingWork := w.scheduler.outstandingWork + 1
      issued := w.issued ++ [id] }, { thr with pending := .push [id] })
  else none

/-- The section that ends a post, or the call of `stop` inside `work_finished`. -/
def lock (cfg : Config) (w : World τ) (thr : Thread) : Option (World τ × Thread) :=
  match thr.pending with
  | .idle => none
  | .push ids =>
    let s := { w.scheduler with opQueue := w.scheduler.opQueue ++ ids.map .handler }
    some ({ w with scheduler := wakeOneThreadAndUnlock cfg s, posted := w.posted ++ ids },
      { thr with pending := .idle })
  | .stop => some (w.put (stopAllThreads cfg w.scheduler), { thr with pending := .idle })

def workStarted (w : World τ) (thr : Thread) : Option (World τ × Thread) :=
  if thr.Free then
    some ({ w with
      scheduler.outstandingWork := w.scheduler.outstandingWork + 1
      guards := w.guards + 1 }, thr)
  else none

def workFinished (w : World τ) (thr : Thread) : Option (World τ × Thread) :=
  if thr.Free ∧ 0 < w.guards then
    some ({ w with
      scheduler.outstandingWork := w.scheduler.outstandingWork - 1
      guards := w.guards - 1 },
      { thr with pending := if w.scheduler.outstandingWork - 1 = 0 then .stop else .idle })
  else none

end Work

/-! ### Control -/

section Control

/-- Any call that is a single section. -/
def critical (w : World τ) (thr : Thread) (f : Scheduler τ → Scheduler τ) :
    Option (World τ × Thread) :=
  if thr.Free then some (w.put (f w.scheduler), thr) else none

def addTask (cfg : Config) (s : Scheduler τ) : Scheduler τ :=
  if !s.shutdown && !s.task then
    wakeOneThreadAndUnlock cfg { s with task := true, opQueue := s.opQueue ++ [.taskOperation] }
  else s

def beginShutdown (cfg : Config) (s : Scheduler τ) : Scheduler τ :=
  let s := { s with shutdown := true }
  if cfg.ownThread then stopAllThreads cfg s else s

/-- The end of `shutdown`, when no thread runs the scheduler any more. -/
def drain (w : World τ) (thr : Thread) : Option (World τ × Thread) :=
  if thr = .construct then
    some ({ w with
      scheduler := { w.scheduler with opQueue := [], task := false }
      destroyed := w.destroyed ++ handlers w.scheduler.opQueue }, thr)
  else none

/-- A thread leaves `pthread_cond_wait`: `f` says what this does to the event. -/
def unblock (w : World τ) (thr : Thread) (ok : PosixEvent τ → Prop) [DecidablePred ok]
    (f : PosixEvent τ → PosixEvent τ) : Option (World τ × Thread) :=
  let e := w.scheduler.wakeupEvent
  if ok e then some (w.put { w.scheduler with wakeupEvent := f e }, thr) else none

end Control

def perform (cfg : Config) (t : τ) (w : World τ) (thr : Thread) :
    Action → Option (World τ × Thread)
  | .call entry => call cfg w thr entry
  | .enter => enter cfg t w thr
  | .wake => unblock w thr (t ∈ ·.blocked) (·.wake t)
  | .signal => unblock w thr (fun e => 0 < e.signals ∧ t ∈ e.blocked) (·.signal t)
  | .signalNobody => unblock w thr (fun e => 0 < e.signals ∧ e.blocked = ∅) PosixEvent.signalNobody
  | .resume => resume cfg t w thr
  | .taskPush op => taskPush w thr op
  | .taskReturn thrown => taskReturn w thr thrown
  | .taskCleanup => taskCleanup cfg t w thr
  | .adopt id => adopt w thr id
  | .compensate => compensate w thr
  | .complete thrown => complete w thr thrown
  | .workCleanup => workCleanup cfg t w thr
  | .start id => start w thr id
  | .postImmediate ids isContinuation => postImmediate cfg w thr ids isContinuation
  | .postDeferred ids => postDeferred cfg w thr ids
  | .doDispatch id => doDispatch w thr id
  | .lock => lock cfg w thr
  | .workStarted => workStarted w thr
  | .workFinished => workFinished w thr
  | .stop => critical w thr (stopAllThreads cfg)
  | .restart => critical w thr fun s => { s with stopped := false }
  | .initTask => critical w thr (addTask cfg)
  | .shutdown => critical w thr (beginShutdown cfg)
  | .drain => drain w thr

/-- What each action of a thread does, when it is defined. -/
inductive Performs (cfg : Config) (t : τ) (w : World τ) :
    Thread → Action → World τ × Thread → Prop
  | callIdle {thr : Thread} {entry : Entry} (free : thr.Free)
    (hzero : w.scheduler.outstandingWork = 0) :
    Performs cfg t w thr (.call entry)
      ({ w with returned := w.returned ++
          [⟨entry, some 0, readyIds (takeOuter cfg w.scheduler entry thr.calls).1⟩] },
        { thr with pending := .stop })
  | call {thr : Thread} {entry : Entry} (free : thr.Free)
    (hwork : w.scheduler.outstandingWork ≠ 0) :
    Performs cfg t w thr (.call entry) (w, { thr with calls := Call.construct entry :: thr.calls })
  | begin {c : Call} {rest : List Call} (hpc : c.pc = .begin) :
    Performs cfg t w ⟨c :: rest, .idle⟩ .enter
      (proceed w { c with ready := readyIds (takeOuter cfg w.scheduler c.entry rest).1 }
        (takeOuter cfg w.scheduler c.entry rest).2
        (pass cfg t (takeOuter cfg w.scheduler c.entry rest).1 c.entry))
  | again {c : Call} {rest : List Call} (hpc : c.pc = .again) :
    Performs cfg t w ⟨c :: rest, .idle⟩ .enter
      (proceed w c rest (pass cfg t w.scheduler c.entry))
  | wake {thr : Thread} (hin : t ∈ w.scheduler.wakeupEvent.blocked) :
    Performs cfg t w thr .wake
      (w.put { w.scheduler with wakeupEvent := w.scheduler.wakeupEvent.wake t }, thr)
  | signal {thr : Thread} (hin : t ∈ w.scheduler.wakeupEvent.blocked) :
    Performs cfg t w thr .signal
      (w.put { w.scheduler with wakeupEvent := w.scheduler.wakeupEvent.signal t }, thr)
  | signalNobody {thr : Thread} (hnone : w.scheduler.wakeupEvent.blocked = ∅) :
    Performs cfg t w thr .signalNobody
      (w.put { w.scheduler with wakeupEvent := w.scheduler.wakeupEvent.signalNobody }, thr)
  | resume {c : Call} {rest : List Call} (hpc : c.pc = .wait)
    (hout : t ∉ w.scheduler.wakeupEvent.blocked) :
    Performs cfg t w ⟨c :: rest, .idle⟩ .resume
      (proceed w c rest (passAfterWait cfg t w.scheduler c.entry))
  | pushDescriptor {c : Call} {rest : List Call} {usec : Int} (hpc : c.pc = .task usec) :
    Performs cfg t w ⟨c :: rest, .idle⟩ (.taskPush .descriptor)
      (w, ⟨{ c with privateOpQueue := c.privateOpQueue ++ [.descriptor] } :: rest, .idle⟩)
  | pushHandler {c : Call} {rest : List Call} {usec : Int} {id : Nat} (hpc : c.pc = .task usec)
    (hstarted : id ∈ w.started) :
    Performs cfg t w ⟨c :: rest, .idle⟩ (.taskPush (.handler id))
      ({ w with started := w.started.erase id, posted := w.posted ++ [id] },
        ⟨{ c with privateOpQueue := c.privateOpQueue ++ [.handler id] } :: rest, .idle⟩)
  | taskReturn {c : Call} {rest : List Call} {usec : Int} {thrown : Bool}
    (hpc : c.pc = .task usec) :
    Performs cfg t w ⟨c :: rest, .idle⟩ (.taskReturn thrown)
      (w.put { w.scheduler with
          outstandingWork :=
            if c.privateOutstandingWork > 0 then
              w.scheduler.outstandingWork + c.privateOutstandingWork
            else w.scheduler.outstandingWork },
        ⟨{ c with privateOutstandingWork := 0, pc := .taskExit thrown } :: rest, .idle⟩)
  | taskThrows {c : Call} {rest : List Call} (hpc : c.pc = .taskExit true) :
    Performs cfg t w ⟨c :: rest, .idle⟩ .taskCleanup
      (leave (w.put { w.scheduler with
          taskInterrupted := true
          opQueue := w.scheduler.opQueue ++ c.privateOpQueue ++ [.taskOperation] })
        { c with privateOpQueue := [] } rest none)
  | taskCleanup {c : Call} {rest : List Call} (hpc : c.pc = .taskExit false) :
    Performs cfg t w ⟨c :: rest, .idle⟩ .taskCleanup
      (proceed w { c with privateOpQueue := [] } rest
        (passAfterTask cfg t { w.scheduler with
          taskInterrupted := true
          opQueue := w.scheduler.opQueue ++ c.privateOpQueue ++ [.taskOperation] } c.entry))
  | adopt {c : Call} {rest : List Call} {id : Nat} (hpc : c.pc = .execute .descriptor)
    (hstarted : id ∈ w.started) :
    Performs cfg t w ⟨c :: rest, .idle⟩ (.adopt id)
      ({ w with started := w.started.erase id, posted := w.posted ++ [id] },
        ⟨{ c with pc := .execute (.handler id) } :: rest, .idle⟩)
  | compensate {c : Call} {rest : List Call} (hpc : c.pc = .execute .descriptor) :
    Performs cfg t w ⟨c :: rest, .idle⟩ .compensate
      (w, ⟨{ c with
        privateOutstandingWork := c.privateOutstandingWork + 1
        pc := .performed } :: rest, .idle⟩)
  | complete {c : Call} {rest : List Call} {id : Nat} {thrown : Bool}
    (hpc : c.pc = .execute (.handler id)) :
    Performs cfg t w ⟨c :: rest, .idle⟩ (.complete thrown)
      (settle { w with completed := w.completed ++ [id] } c rest thrown)
  | completeNothing {c : Call} {rest : List Call} {thrown : Bool} (hpc : c.pc = .performed) :
    Performs cfg t w ⟨c :: rest, .idle⟩ (.complete thrown) (settle w c rest thrown)
  | workThrows {c : Call} {rest : List Call} (hpc : c.pc = .workExit true) :
    Performs cfg t w ⟨c :: rest, .idle⟩ .workCleanup
      (leave (w.put { w.scheduler with opQueue := w.scheduler.opQueue ++ c.privateOpQueue })
        { c with privateOpQueue := [], n := count c.n } rest none)
  | workNext {c : Call} {rest : List Call} (hpc : c.pc = .workExit false)
    (hloop : c.entry = .run ∨ c.entry = .poll) (hne : c.privateOpQueue ≠ []) :
    Performs cfg t w ⟨c :: rest, .idle⟩ .workCleanup
      (proceed w { c with privateOpQueue := [], n := count c.n } rest
        (pass cfg t { w.scheduler with opQueue := w.scheduler.opQueue ++ c.privateOpQueue }
          c.entry))
  | workAgain {c : Call} {rest : List Call} (hpc : c.pc = .workExit false)
    (hloop : c.entry = .run ∨ c.entry = .poll) (hnil : c.privateOpQueue = []) :
    Performs cfg t w ⟨c :: rest, .idle⟩ .workCleanup
      (w.put { w.scheduler with opQueue := w.scheduler.opQueue ++ c.privateOpQueue },
        ⟨{ c with privateOpQueue := [], n := count c.n, pc := .again } :: rest, .idle⟩)
  | workReturns {c : Call} {rest : List Call} (hpc : c.pc = .workExit false)
    (hone : ¬(c.entry = .run ∨ c.entry = .poll)) :
    Performs cfg t w ⟨c :: rest, .idle⟩ .workCleanup
      (leave (w.put { w.scheduler with opQueue := w.scheduler.opQueue ++ c.privateOpQueue })
        { c with privateOpQueue := [], n := count c.n } rest (some (count c.n)))
  | start {thr : Thread} {id : Nat} (hnew : id ∉ w.issued) :
    Performs cfg t w thr (.start id)
      ({ w with
        scheduler.outstandingWork := w.scheduler.outstandingWork + 1
        issued := w.issued ++ [id]
        started := w.started ++ [id] }, thr)
  | postShared {thr : Thread} {ids : List Nat} {isContinuation : Bool} (free : thr.Free)
    (hnodup : ids.Nodup) (hfresh : ∀ id ∈ ids, id ∉ w.issued) :
    Performs cfg t w thr (.postImmediate ids isContinuation)
      ({ w with
        scheduler.outstandingWork := w.scheduler.outstandingWork + ids.length
        issued := w.issued ++ ids }, { thr with pending := .push ids })
  | postPrivate {c : Call} {rest : List Call} {ids : List Nat} {isContinuation : Bool}
    (hpc : c.pc.Handling) (hnodup : ids.Nodup) (hfresh : ∀ id ∈ ids, id ∉ w.issued)
    (hprivate : (cfg.oneThread || isContinuation) = true) :
    Performs cfg t w ⟨c :: rest, .idle⟩ (.postImmediate ids isContinuation)
      ({ w with issued := w.issued ++ ids, posted := w.posted ++ ids }, ⟨{ c with
        privateOpQueue := c.privateOpQueue ++ ids.map .handler
        privateOutstandingWork := c.privateOutstandingWork + ids.length } :: rest, .idle⟩)
  | deferShared {thr : Thread} {ids : List Nat} (hidle : thr.pending = .idle)
    (hids : ∀ id ∈ ids, ids.count id ≤ w.started.count id) :
    Performs cfg t w thr (.postDeferred ids)
      ({ w with started := w.started.diff ids }, { thr with pending := .push ids })
  | deferPrivate {c : Call} {rest : List Call} {ids : List Nat}
    (caller : c.pc.Handling ∨ c.pc = .execute .descriptor)
    (hids : ∀ id ∈ ids, ids.count id ≤ w.started.count id) (hone : cfg.oneThread = true) :
    Performs cfg t w ⟨c :: rest, .idle⟩ (.postDeferred ids)
      ({ w with started := w.started.diff ids, posted := w.posted ++ ids }, ⟨{ c with
        privateOpQueue := c.privateOpQueue ++ ids.map .handler } :: rest, .idle⟩)
  | doDispatch {thr : Thread} {id : Nat} (free : thr.Free) (hnew : id ∉ w.issued) :
    Performs cfg t w thr (.doDispatch id)
      ({ w with
        scheduler.outstandingWork := w.scheduler.outstandingWork + 1
        issued := w.issued ++ [id] }, { thr with pending := .push [id] })
  | lockPush {calls : List Call} {ids : List Nat} :
    Performs cfg t w ⟨calls, .push ids⟩ .lock
      ({ w with
        scheduler := wakeOneThreadAndUnlock cfg { w.scheduler with
          opQueue := w.scheduler.opQueue ++ ids.map .handler }
        posted := w.posted ++ ids }, ⟨calls, .idle⟩)
  | lockStop {calls : List Call} :
    Performs cfg t w ⟨calls, .stop⟩ .lock (w.put (stopAllThreads cfg w.scheduler), ⟨calls, .idle⟩)
  | workStarted {thr : Thread} :
    Performs cfg t w thr .workStarted
      ({ w with
        scheduler.outstandingWork := w.scheduler.outstandingWork + 1
        guards := w.guards + 1 }, thr)
  | workFinished {thr : Thread} (free : thr.Free) (hguards : 0 < w.guards) :
    Performs cfg t w thr .workFinished
      ({ w with
        scheduler.outstandingWork := w.scheduler.outstandingWork - 1
        guards := w.guards - 1 },
        { thr with pending := if w.scheduler.outstandingWork - 1 = 0 then .stop else .idle })
  | stop {thr : Thread} : Performs cfg t w thr .stop (w.put (stopAllThreads cfg w.scheduler), thr)
  | restart {thr : Thread} :
    Performs cfg t w thr .restart (w.put { w.scheduler with stopped := false }, thr)
  | initTask {thr : Thread} :
    Performs cfg t w thr .initTask (w.put (addTask cfg w.scheduler), thr)
  | shutdown {thr : Thread} :
    Performs cfg t w thr .shutdown (w.put (beginShutdown cfg w.scheduler), thr)
  | drain :
    Performs cfg t w .construct .drain
      ({ w with
        scheduler := { w.scheduler with opQueue := [], task := false }
        destroyed := w.destroyed ++ handlers w.scheduler.opQueue }, .construct)

section Inversion

variable {cfg : Config} {t : τ} {w : World τ} {thr : Thread} {b : World τ × Thread}

theorem call_performs {entry : Entry} (hb : call cfg w thr entry = some b) :
    Performs cfg t w thr (.call entry) b := by
  simp only [call, Option.ite_none_right_eq_some] at hb
  obtain ⟨free, hb⟩ := hb
  split at hb
  · rename_i hzero
    obtain rfl := Option.some.inj hb
    exact .callIdle free hzero
  · rename_i hwork
    obtain rfl := Option.some.inj hb
    exact .call free hwork

theorem enter_performs (hb : enter cfg t w thr = some b) : Performs cfg t w thr .enter b := by
  simp only [enter, Thread.top_eq_some] at hb
  obtain ⟨c, rest, rfl, hb⟩ := hb
  split at hb
  · rename_i hpc
    obtain rfl := Option.some.inj hb
    exact .begin hpc
  · rename_i hpc
    obtain rfl := Option.some.inj hb
    exact .again hpc
  · cases hb

theorem taskPush_performs {op : Operation} (hb : taskPush w thr op = some b) :
    Performs cfg t w thr (.taskPush op) b := by
  simp only [taskPush, Thread.top_eq_some] at hb
  obtain ⟨c, rest, rfl, hb⟩ := hb
  split at hb
  · rename_i hpc
    obtain rfl := Option.some.inj hb
    exact .pushDescriptor hpc
  · rename_i hpc
    simp only [Option.ite_none_right_eq_some, Option.some.injEq] at hb
    obtain ⟨hstarted, rfl⟩ := hb
    exact .pushHandler hpc hstarted
  · cases hb

theorem taskReturn_performs {thrown : Bool} (hb : taskReturn w thr thrown = some b) :
    Performs cfg t w thr (.taskReturn thrown) b := by
  simp only [taskReturn, Thread.top_eq_some] at hb
  obtain ⟨c, rest, rfl, hb⟩ := hb
  split at hb
  · rename_i hpc
    obtain rfl := Option.some.inj hb
    exact .taskReturn hpc
  · cases hb

theorem taskCleanup_performs (hb : taskCleanup cfg t w thr = some b) :
    Performs cfg t w thr .taskCleanup b := by
  simp only [taskCleanup, Thread.top_eq_some] at hb
  obtain ⟨c, rest, rfl, hb⟩ := hb
  split at hb
  · rename_i thrown hpc
    obtain rfl := Option.some.inj hb
    cases thrown with
    | true => exact .taskThrows hpc
    | false => exact .taskCleanup hpc
  · cases hb

theorem complete_performs {thrown : Bool} (hb : complete w thr thrown = some b) :
    Performs cfg t w thr (.complete thrown) b := by
  simp only [complete, Thread.top_eq_some] at hb
  obtain ⟨c, rest, rfl, hb⟩ := hb
  split at hb
  · rename_i hpc
    obtain rfl := Option.some.inj hb
    exact .complete hpc
  · rename_i hpc
    obtain rfl := Option.some.inj hb
    exact .completeNothing hpc
  · cases hb

theorem workCleanup_performs (hb : workCleanup cfg t w thr = some b) :
    Performs cfg t w thr .workCleanup b := by
  simp only [workCleanup, Thread.top_eq_some] at hb
  obtain ⟨c, rest, rfl, hb⟩ := hb
  split at hb
  · rename_i thrown hpc
    obtain rfl := Option.some.inj hb
    cases thrown with
    | true => exact .workThrows hpc
    | false =>
      rw [if_neg Bool.false_ne_true]
      split
      · rename_i hloop
        split
        · rename_i hne
          exact .workNext hpc hloop hne
        · rename_i hnil
          exact .workAgain hpc hloop (not_not.1 hnil)
      · rename_i hone
        exact .workReturns hpc hone
  · cases hb

theorem postImmediate_performs {ids : List Nat} {isContinuation : Bool}
    (hb : postImmediate cfg w thr ids isContinuation = some b) :
    Performs cfg t w thr (.postImmediate ids isContinuation) b := by
  simp only [postImmediate, Option.ite_none_right_eq_some] at hb
  obtain ⟨⟨free, hnodup, hfresh⟩, hb⟩ := hb
  split at hb
  · obtain rfl := Option.some.inj hb
    exact .postShared free hnodup hfresh
  · rename_i c rest hcalls
    obtain rfl := Option.some.inj hb
    split
    · rename_i hprivate
      obtain ⟨calls, pending⟩ := thr
      obtain rfl : calls = c :: rest := hcalls
      obtain rfl : pending = .idle := free.1
      exact .postPrivate (free.2 c rfl) hnodup hfresh hprivate
    · exact .postShared free hnodup hfresh

theorem postDeferred_performs {ids : List Nat} (hb : postDeferred cfg w thr ids = some b) :
    Performs cfg t w thr (.postDeferred ids) b := by
  simp only [postDeferred, Option.ite_none_right_eq_some] at hb
  obtain ⟨⟨caller, -, hids⟩, hb⟩ := hb
  have hidle : thr.pending = .idle := caller.elim And.left And.left
  split at hb
  · obtain rfl := Option.some.inj hb
    exact .deferShared hidle hids
  · rename_i c rest hcalls
    obtain rfl := Option.some.inj hb
    split
    · rename_i hone
      obtain ⟨calls, pending⟩ := thr
      obtain rfl : calls = c :: rest := hcalls
      obtain rfl : pending = .idle := hidle
      refine .deferPrivate ?_ hids hone
      rcases caller with free | ⟨-, d, hd, hpc⟩
      · exact .inl (free.2 c rfl)
      · cases hd
        exact .inr hpc
    · exact .deferShared hidle hids

theorem lock_performs (hb : lock cfg w thr = some b) : Performs cfg t w thr .lock b := by
  obtain ⟨calls, pending⟩ := thr
  simp only [lock] at hb
  cases pending with
  | idle => cases hb
  | push ids =>
    obtain rfl := Option.some.inj hb
    exact .lockPush
  | stop =>
    obtain rfl := Option.some.inj hb
    exact .lockStop

theorem perform_performs {a : Action} (hb : perform cfg t w thr a = some b) :
    Performs cfg t w thr a b := by
  cases a with
  | call entry => exact call_performs hb
  | enter => exact enter_performs hb
  | wake =>
    simp only [perform, unblock, Option.ite_none_right_eq_some, Option.some.injEq] at hb
    obtain ⟨hin, rfl⟩ := hb
    exact .wake hin
  | signal =>
    simp only [perform, unblock, Option.ite_none_right_eq_some, Option.some.injEq] at hb
    obtain ⟨⟨-, hin⟩, rfl⟩ := hb
    exact .signal hin
  | signalNobody =>
    simp only [perform, unblock, Option.ite_none_right_eq_some, Option.some.injEq] at hb
    obtain ⟨⟨-, hnone⟩, rfl⟩ := hb
    exact .signalNobody hnone
  | resume =>
    simp only [perform, resume, Thread.top_eq_some, Option.ite_none_right_eq_some,
      Option.some.injEq] at hb
    obtain ⟨c, rest, rfl, ⟨hpc, hout⟩, rfl⟩ := hb
    exact .resume hpc hout
  | taskPush op => exact taskPush_performs hb
  | taskReturn thrown => exact taskReturn_performs hb
  | taskCleanup => exact taskCleanup_performs hb
  | adopt id =>
    simp only [perform, adopt, Thread.top_eq_some, Option.ite_none_right_eq_some,
      Option.some.injEq] at hb
    obtain ⟨c, rest, rfl, ⟨hpc, hstarted⟩, rfl⟩ := hb
    exact .adopt hpc hstarted
  | compensate =>
    simp only [perform, compensate, Thread.top_eq_some, Option.ite_none_right_eq_some,
      Option.some.injEq] at hb
    obtain ⟨c, rest, rfl, hpc, rfl⟩ := hb
    exact .compensate hpc
  | complete thrown => exact complete_performs hb
  | workCleanup => exact workCleanup_performs hb
  | start id =>
    simp only [perform, start, Option.ite_none_right_eq_some, Option.some.injEq] at hb
    obtain ⟨⟨-, hnew⟩, rfl⟩ := hb
    exact .start hnew
  | postImmediate ids isContinuation => exact postImmediate_performs hb
  | postDeferred ids => exact postDeferred_performs hb
  | doDispatch id =>
    simp only [perform, doDispatch, Option.ite_none_right_eq_some, Option.some.injEq] at hb
    obtain ⟨⟨free, hnew⟩, rfl⟩ := hb
    exact .doDispatch free hnew
  | lock => exact lock_performs hb
  | workStarted =>
    simp only [perform, workStarted, Option.ite_none_right_eq_some, Option.some.injEq] at hb
    obtain ⟨-, rfl⟩ := hb
    exact .workStarted
  | workFinished =>
    simp only [perform, workFinished, Option.ite_none_right_eq_some, Option.some.injEq] at hb
    obtain ⟨⟨free, hguards⟩, rfl⟩ := hb
    exact .workFinished free hguards
  | stop | restart | initTask | shutdown =>
    simp only [perform, critical, Option.ite_none_right_eq_some, Option.some.injEq] at hb
    obtain ⟨-, rfl⟩ := hb
    constructor
  | drain =>
    simp only [perform, drain, Option.ite_none_right_eq_some, Option.some.injEq] at hb
    obtain ⟨rfl, rfl⟩ := hb
    exact .drain

end Inversion

abbrev State (τ : Type u) := Interleaving.State τ (World τ) Thread

def initial (cfg : Config) : State τ where
  shared := {
    scheduler := construct cfg
    guards := if cfg.ownThread then 1 else 0
    issued := []
    started := []
    posted := []
    completed := []
    destroyed := []
    returned := [] }
  part := fun _ => .construct

def step (cfg : Config) : State τ → τ × Action → Option (State τ) :=
  Interleaving.step (perform cfg)

/-- A scheduler with locking, for several threads. -/
def threaded : Config where
  enabled := true
  oneThread := false
  ownThread := false

/-- The queue is drained only when no thread runs the scheduler. -/
def Legal (s : State τ) (a : τ × Action) : Prop := a.2 = .drain → ∀ t, (s.part t).calls = []

instance [Fintype τ] (s : State τ) (a : τ × Action) : Decidable (Legal s a) :=
  inferInstanceAs (Decidable (_ → _))

end Asio.Detail.Scheduler
