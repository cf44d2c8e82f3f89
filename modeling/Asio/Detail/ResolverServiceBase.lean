import Asio.Lib.Transition

/-! Resolve operations, the thread that performs them and the forks of the process. -/

namespace Asio.Detail

inductive ResolveOp.Error
  | operationNotSupported
  | resolver (code : Int)
  deriving DecidableEq

structure ResolveOp where
  id : Nat
  ec : Option ResolveOp.Error
  deriving DecidableEq

namespace ResolverServiceBase

open Asio.Lib.Transition

structure Scheduler where
  outstandingWork : Int
  opQueue : List ResolveOp
  stopped : Bool
  deriving DecidableEq

namespace Scheduler

def construct : Scheduler := ⟨0, [], false⟩

def stop (s : Scheduler) : Scheduler := { s with stopped := true }
def restart (s : Scheduler) : Scheduler := { s with stopped := false }

def workStarted (s : Scheduler) : Scheduler := { s with outstandingWork := s.outstandingWork + 1 }

def workFinished (s : Scheduler) : Scheduler :=
  let s := { s with outstandingWork := s.outstandingWork - 1 }
  if s.outstandingWork = 0 then s.stop else s

def postDeferredCompletion (s : Scheduler) (op : ResolveOp) : Scheduler :=
  { s with opQueue := s.opQueue ++ [op] }

def postImmediateCompletion (s : Scheduler) (op : ResolveOp) : Scheduler :=
  s.workStarted.postDeferredCompletion op

end Scheduler

/-- What a thread does that calls `run` of the work scheduler. -/
inductive Thread
  | waiting
  | performing (op : ResolveOp)
  | returned
  /-- It belongs to the process that this one was forked from. -/
  | absent
  deriving DecidableEq

/-- A fork that is notified but not over. -/
inductive Fork
  | joining
  | prepared
  | forked (child : Bool)
  deriving DecidableEq

end ResolverServiceBase

open ResolverServiceBase in
structure ResolverServiceBase where
  scheduler : Detail.ResolverServiceBase.Scheduler
  workScheduler : Detail.ResolverServiceBase.Scheduler
  workThread : Option Thread
  fork : Option Fork
  deriving DecidableEq

namespace ResolverServiceBase

open Asio.Lib.Transition

def construct : ResolverServiceBase where
  scheduler := .construct
  workScheduler := Scheduler.construct.workStarted
  workThread := none
  fork := none

def startWorkThread (s : ResolverServiceBase) : ResolverServiceBase :=
  { s with workThread := some (s.workThread.getD .waiting) }

def startResolveOp (locking : Bool) (s : ResolverServiceBase) (op : ResolveOp) :
    ResolverServiceBase :=
  if locking then
    let s := s.startWorkThread
    { s with
      scheduler := s.scheduler.workStarted
      workScheduler := s.workScheduler.postImmediateCompletion op }
  else
    { s with
      scheduler :=
        s.scheduler.postImmediateCompletion { op with ec := some .operationNotSupported } }

/-! ### The thread -/

/-- The loop of `do_run_one`, up to the operation that it takes. -/
def runOne (s : ResolverServiceBase) : Option ResolverServiceBase :=
  match s.workThread, s.workScheduler.stopped, s.workScheduler.opQueue with
  | some .waiting, true, _ => some { s with workThread := some .returned }
  | some .waiting, false, op :: ops =>
    some { s with
      workThread := some (.performing op)
      workScheduler := { s.workScheduler with opQueue := ops } }
  | _, _, _ => none

/-- The operation is performed with the result `ec` and goes back to the scheduler. -/
def complete (s : ResolverServiceBase) (ec : Option ResolveOp.Error) :
    Option ResolverServiceBase :=
  match s.workThread with
  | some (.performing op) =>
    some { s with
      scheduler := s.scheduler.postDeferredCompletion { op with ec }
      workScheduler := s.workScheduler.workFinished
      workThread := some .waiting }
  | _ => none

/-! ### Forks -/

inductive ForkEvent
  | prepare
  | parent
  | child
  deriving DecidableEq

/-- What `base_notify_fork` does before it joins the thread, if there is one. -/
def baseNotifyFork (s : ResolverServiceBase) (forkEv : ForkEvent) : ResolverServiceBase :=
  if s.workThread.isSome then
    match forkEv with
    | .prepare => { s with workScheduler := s.workScheduler.stop, fork := some .joining }
    | _ => { s with fork := none }
  else if forkEv ≠ .prepare then
    { s with workScheduler := s.workScheduler.restart, fork := none }
  else
    { s with fork := some .prepared }

def notifyFork (s : ResolverServiceBase) (forkEv : ForkEvent) : Option ResolverServiceBase :=
  match forkEv, s.fork with
  | .prepare, none => some (s.baseNotifyFork forkEv)
  | .parent, some (.forked false) => some (s.baseNotifyFork forkEv)
  | .child, some (.forked true) => some (s.baseNotifyFork forkEv)
  | _, _ => none

def join (s : ResolverServiceBase) : Option ResolverServiceBase :=
  if s.fork = some .joining ∧ s.workThread = some .returned then
    some { s with workThread := none, fork := some .prepared }
  else none

/-- The process goes on as its child, in which there is no other thread, or as itself. -/
def forkProcess (s : ResolverServiceBase) (child : Bool) : Option ResolverServiceBase :=
  if s.fork = some .prepared then
    some { s with
      fork := some (.forked child)
      workThread := if child then s.workThread.map fun _ => .absent else s.workThread }
  else none

inductive Action
  | startResolveOp (op : ResolveOp)
  | runOne
  | complete (ec : Option ResolveOp.Error)
  | notifyFork (forkEv : ForkEvent)
  | join
  | forkProcess (child : Bool)

def step (locking : Bool) (s : ResolverServiceBase) : Action → Option ResolverServiceBase
  | .startResolveOp op => some (s.startResolveOp locking op)
  | .runOne => s.runOne
  | .complete ec => s.complete ec
  | .notifyFork forkEv => s.notifyFork forkEv
  | .join => s.join
  | .forkProcess child => s.forkProcess child

/-! ### Every run -/

/-- The thread is there to take operations. -/
def Running : Option Thread → Prop
  | some .waiting => True
  | some (.performing _) => True
  | _ => False

instance (thread : Option Thread) : Decidable (Running thread) :=
  match thread with
  | none => isFalse id
  | some .waiting => isTrue trivial
  | some (.performing _) => isTrue trivial
  | some .returned => isFalse id
  | some .absent => isFalse id

/-- No operation is left in the queue with nothing to take it. -/
def NotStranded (s : ResolverServiceBase) : Prop :=
  s.fork = none → s.workScheduler.opQueue ≠ [] →
    s.workScheduler.stopped = false ∧ Running s.workThread

instance (s : ResolverServiceBase) : Decidable s.NotStranded :=
  inferInstanceAs (Decidable (_ → _ → _ ∧ _))

/-- A thread is stopped, or lost to a fork, only while it has nothing to take, and operations are
started only with a thread that will take them. -/
def Attended (locking : Bool) (s : ResolverServiceBase) : Action → Prop
  | .startResolveOp _ =>
    locking = true → s.workScheduler.stopped = false ∧ Running s.startWorkThread.workThread
  | .notifyFork .prepare => s.workThread ≠ none → s.workScheduler.opQueue = []
  | .forkProcess true => s.workThread ≠ none → s.workScheduler.opQueue = []
  | _ => True

instance (locking : Bool) (s : ResolverServiceBase) (a : Action) :
    Decidable (Attended locking s a) :=
  match a with
  | .startResolveOp _ => inferInstanceAs (Decidable (_ → _ ∧ _))
  | .notifyFork .prepare => inferInstanceAs (Decidable (_ → _))
  | .notifyFork .parent => isTrue trivial
  | .notifyFork .child => isTrue trivial
  | .forkProcess true => inferInstanceAs (Decidable (_ → _))
  | .forkProcess false => isTrue trivial
  | .runOne => isTrue trivial
  | .complete _ => isTrue trivial
  | .join => isTrue trivial

/-- The work that is counted and not over: that of the service and that of the operations. -/
def work (s : ResolverServiceBase) : Int :=
  1 + s.workScheduler.opQueue.length +
    match s.workThread with
    | some (.performing _) => 1
    | _ => 0

structure Sane (s : ResolverServiceBase) : Prop where
  work : s.work ≤ s.workScheduler.outstandingWork
  running : s.workScheduler.opQueue ≠ [] →
    s.workScheduler.stopped = false ∧ Running s.workThread
  stopped : s.workScheduler.stopped = true →
    s.fork ≠ none ∧ (s.fork = some .joining ∨ s.workThread = none)

theorem construct_sane : construct.Sane where
  work := by decide
  running := fun h => absurd rfl h
  stopped := fun h => by cases h

section

variable {locking : Bool} {s s' : ResolverServiceBase}

theorem work_startWorkThread (s : ResolverServiceBase) : s.startWorkThread.work = s.work := by
  unfold startWorkThread work
  cases s.workThread <;> rfl

theorem startResolveOp_sane {op : ResolveOp} (h : s.Sane)
    (ha : Attended locking s (.startResolveOp op)) : (s.startResolveOp locking op).Sane := by
  cases locking with
  | false => exact ⟨h.work, h.running, h.stopped⟩
  | true =>
    obtain ⟨hstopped, hrunning⟩ := ha rfl
    refine ⟨?_, fun _ => ⟨hstopped, hrunning⟩, fun h => ?_⟩
    · have hwork := work_startWorkThread s
      have hle := h.work
      simp only [work] at hwork hle
      simp only [startResolveOp, if_pos, work, Scheduler.postImmediateCompletion,
        Scheduler.postDeferredCompletion, Scheduler.workStarted, List.length_append,
        List.length_singleton, startWorkThread] at hwork ⊢
      omega
    · rw [show (startResolveOp true s op).workScheduler.stopped = false from hstopped] at h
      cases h

theorem runOne_sane (h : s.Sane) (hstep : s.runOne = some s') : s'.Sane := by
  have hwork := h.work
  unfold runOne at hstep
  split at hstep
  · rename_i hthread hstopped
    cases hstep
    have hempty : s.workScheduler.opQueue = [] := by
      by_contra hne
      rw [(h.running hne).1] at hstopped
      cases hstopped
    refine ⟨?_, fun hne => absurd hempty hne, fun _ => ?_⟩
    · simpa only [work, hthread] using hwork
    · have hs := h.stopped hstopped
      rw [hthread] at hs
      exact ⟨hs.1, .inl (hs.2.resolve_right (Option.some_ne_none _))⟩
  · rename_i op ops hthread hstopped hqueue
    cases hstep
    refine ⟨?_, fun _ => ⟨hstopped, trivial⟩, fun hs => ?_⟩
    · simp only [work, hthread, hqueue, List.length_cons] at hwork ⊢
      omega
    · rw [show s.workScheduler.stopped = true from hs] at hstopped
      cases hstopped
  · cases hstep

theorem complete_sane {ec : Option ResolveOp.Error} (h : s.Sane)
    (hstep : s.complete ec = some s') : s'.Sane := by
  have hwork := h.work
  unfold complete at hstep
  split at hstep
  · rename_i op hthread
    cases hstep
    simp only [work, hthread] at hwork
    -- what the service itself counts keeps the scheduler from being stopped
    have hne : s.workScheduler.outstandingWork - 1 ≠ 0 := by omega
    simp only [Scheduler.workFinished, if_neg hne]
    refine ⟨?_, fun hq => ⟨(h.running hq).1, trivial⟩, fun hs => ?_⟩
    · simp only [work]
      omega
    · have hs := h.stopped hs
      rw [hthread] at hs
      exact ⟨hs.1, .inl (hs.2.resolve_right (Option.some_ne_none _))⟩
  · cases hstep

theorem forkPrepare_sane (h : s.Sane) (ha : Attended locking s (.notifyFork .prepare)) :
    (s.baseNotifyFork .prepare).Sane := by
  unfold baseNotifyFork
  split
  · rename_i hthread
    have hempty := ha (Option.isSome_iff_ne_none.mp hthread)
    exact ⟨h.work, fun hne => absurd hempty hne, fun _ => ⟨Option.some_ne_none _, .inl rfl⟩⟩
  · rename_i hthread
    rw [Option.not_isSome_iff_eq_none] at hthread
    exact ⟨h.work, h.running, fun _ => ⟨Option.some_ne_none _, .inr hthread⟩⟩

theorem forkOver_sane {forkEv : ForkEvent} {child : Bool} (h : s.Sane)
    (hfork : s.fork = some (.forked child)) (hev : forkEv ≠ .prepare) :
    (s.baseNotifyFork forkEv).Sane := by
  have hstopped : s.workThread.isSome → s.workScheduler.stopped = false := by
    intro hsome
    by_contra hs
    have hs := (h.stopped ((Bool.not_eq_false _).mp hs)).2
    rw [hfork] at hs
    rcases hs with hs | hs
    · cases hs
    · rw [hs] at hsome
      cases hsome
  unfold baseNotifyFork
  split
  · rename_i hthread
    have hgo : Sane { s with fork := none } := by
      refine ⟨h.work, h.running, fun hs => ?_⟩
      rw [show s.workScheduler.stopped = true from hs] at hstopped
      cases hstopped hthread
    cases forkEv with
    | prepare => exact absurd rfl hev
    | parent => exact hgo
    | child => exact hgo
  · refine ⟨h.work, fun hne => ⟨rfl, (h.running hne).2⟩, fun hs => ?_⟩
    cases hs

theorem notifyFork_sane {forkEv : ForkEvent} (h : s.Sane)
    (ha : Attended locking s (.notifyFork forkEv)) (hstep : s.notifyFork forkEv = some s') :
    s'.Sane := by
  unfold notifyFork at hstep
  split at hstep
  · cases hstep
    exact forkPrepare_sane h ha
  · rename_i hfork
    cases hstep
    exact forkOver_sane h hfork (by decide)
  · rename_i hfork
    cases hstep
    exact forkOver_sane h hfork (by decide)
  · cases hstep

theorem join_sane (h : s.Sane) (hstep : s.join = some s') : s'.Sane := by
  have hwork := h.work
  unfold join at hstep
  split at hstep
  · rename_i hjoin
    obtain ⟨-, hthread⟩ := hjoin
    cases hstep
    refine ⟨?_, fun hne => ?_, fun _ => ⟨Option.some_ne_none _, .inr rfl⟩⟩
    · simpa only [work, hthread] using hwork
    · have hrunning := (h.running hne).2
      rw [hthread] at hrunning
      exact hrunning.elim
  · cases hstep

theorem forkProcess_sane {child : Bool} (h : s.Sane)
    (ha : Attended locking s (.forkProcess child)) (hstep : s.forkProcess child = some s') :
    s'.Sane := by
  have hwork := h.work
  unfold forkProcess at hstep
  split at hstep
  · rename_i hfork
    cases hstep
    have hnone : s.workScheduler.stopped = true → s.workThread = none := by
      intro hs
      have hs := (h.stopped hs).2
      rw [hfork] at hs
      exact hs.resolve_left (by decide)
    cases child with
    | false => exact ⟨hwork, h.running, fun hs => ⟨Option.some_ne_none _, .inr (hnone hs)⟩⟩
    | true =>
      cases hthread : s.workThread with
      | none =>
        rw [hthread] at hnone
        refine ⟨?_, fun hne => ?_, fun _ => ⟨Option.some_ne_none _, .inr rfl⟩⟩
        · simpa only [work, hthread, if_pos, Option.map_none] using hwork
        · have hrunning := (h.running hne).2
          rw [hthread] at hrunning
          exact hrunning.elim
      | some thread =>
        have hempty := ha (by rw [hthread]; exact Option.some_ne_none _)
        refine ⟨?_, fun hne => absurd hempty hne, fun hs => ?_⟩
        · simp only [work, hthread] at hwork ⊢
          simp only [if_pos, Option.map_some]
          split at hwork <;> omega
        · rw [hnone hs] at hthread
          cases hthread
  · cases hstep

theorem step_sane {a : Action} (h : s.Sane) (ha : Attended locking s a)
    (hstep : step locking s a = some s') : s'.Sane := by
  cases a with
  | startResolveOp op =>
    cases hstep
    exact startResolveOp_sane h ha
  | runOne => exact runOne_sane h hstep
  | complete ec => exact complete_sane h hstep
  | notifyFork forkEv => exact notifyFork_sane h ha hstep
  | join => exact join_sane h hstep
  | forkProcess child => exact forkProcess_sane h ha hstep

/-- No operation is stranded in a run in which every operation is attended to. -/
theorem reachable_notStranded (h : Reachable (step locking) (Attended locking) construct s) :
    s.NotStranded :=
  fun _ => (h.invariant construct_sane step_sane).running

/-- An operation is performed, the process forks, and the child starts another one. -/
theorem reachable_notStranded_child : ∃ s, exec (step true) construct
    [.startResolveOp ⟨0, none⟩, .runOne, .notifyFork .prepare, .complete none, .runOne, .join,
      .forkProcess true, .notifyFork .child, .startResolveOp ⟨1, none⟩] = some s ∧
    s.workScheduler.opQueue = [⟨1, none⟩] ∧ s.NotStranded :=
  ⟨_, rfl, rfl, reachable_notStranded (exec_guarded_reachable
    (show exec (guarded (step true) (Attended true)) construct
      [.startResolveOp ⟨0, none⟩, .runOne, .notifyFork .prepare, .complete none, .runOne, .join,
        .forkProcess true, .notifyFork .child, .startResolveOp ⟨1, none⟩] = some _ from rfl))⟩

/-- An operation is in the queue when the process is about to fork. -/
theorem not_reachable_notStranded : ¬ ∀ locking s,
    Reachable (step locking) (fun _ _ => True) construct s → s.NotStranded := by
  intro hclaim
  have hstranded := hclaim true _ (exec_guarded_reachable
    (show exec (guarded (step true) fun _ _ => True) construct
      [.startResolveOp ⟨0, none⟩, .notifyFork .prepare, .runOne, .join, .forkProcess false,
        .notifyFork .parent] = some _ from rfl)) rfl (by decide)
  exact hstranded.2

end

end ResolverServiceBase

end Asio.Detail
