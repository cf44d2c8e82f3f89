import Mathlib.Tactic.Ring
import Asio.Detail.SchedulerThreads

/-! What the queues of a scheduler and its threads hold: every action accounts for the operations
it moves and for the work it counts. -/

universe u

namespace Asio.Detail.Scheduler

open Asio.Lib Asio.Lib.Transition

set_option linter.unusedSectionVars false

variable {τ : Type u} [DecidableEq τ]

/-! ### What a pass takes from the queue -/

section Passes

def Next.taken : Next → List Operation
  | .wait => []
  | .task _ => [.taskOperation]
  | .execute op => [op]
  | .ret => []

/-- All that a section of a pass does to the scheduler besides waking threads. -/
structure Takes (s : Scheduler τ) (r : Scheduler τ × Next) : Prop where
  opQueue : s.opQueue = r.2.taken ++ r.1.opQueue
  task : r.1.task = s.task
  outstandingWork : r.1.outstandingWork = s.outstandingWork
  stopped : r.1.stopped = s.stopped
  notMarker : r.2 ≠ .execute .taskOperation

/-- From `s` to `s'` threads are woken, and nothing else. -/
structure Wakes (s s' : Scheduler τ) : Prop where
  opQueue : s'.opQueue = s.opQueue
  task : s'.task = s.task
  outstandingWork : s'.outstandingWork = s.outstandingWork
  stopped : s'.stopped = s.stopped

theorem Wakes.rfl {s : Scheduler τ} : Wakes s s := ⟨.refl _, .refl _, .refl _, .refl _⟩

theorem Wakes.trans {s s' s'' : Scheduler τ} (h : Wakes s s') (h' : Wakes s' s'') : Wakes s s'' :=
  ⟨h'.opQueue.trans h.opQueue, h'.task.trans h.task, h'.outstandingWork.trans h.outstandingWork,
    h'.stopped.trans h.stopped⟩

theorem Wakes.takes {s s' : Scheduler τ} {r : Scheduler τ × Next} (h : Wakes s s')
    (h' : Takes s' r) : Takes s r where
  opQueue := h.opQueue.symm.trans h'.opQueue
  task := h'.task.trans h.task
  outstandingWork := h'.outstandingWork.trans h.outstandingWork
  stopped := h'.stopped.trans h.stopped
  notMarker := h'.notMarker

variable (cfg : Config) (s : Scheduler τ)

theorem mapEvent_wakes (f : PosixEvent τ → PosixEvent τ) : Wakes s (mapEvent cfg s f) := by
  rw [mapEvent]
  split
  · exact ⟨rfl, rfl, rfl, rfl⟩
  · exact .rfl

theorem interrupt_wakes : Wakes s s.interrupt := by
  rw [interrupt]
  split
  · exact ⟨rfl, rfl, rfl, rfl⟩
  · exact .rfl

theorem maybeUnlockAndSignalOne_wakes : Wakes s (maybeUnlockAndSignalOne cfg s).2 :=
  mapEvent_wakes cfg s fun e => e.maybeUnlockAndSignalOne.2

theorem wakeOneThreadAndUnlock_wakes : Wakes s (wakeOneThreadAndUnlock cfg s) := by
  have maybe := maybeUnlockAndSignalOne_wakes cfg s
  simp only [wakeOneThreadAndUnlock]
  split
  · exact maybe
  · exact maybe.trans (interrupt_wakes _)

theorem stopAllThreads_wakes :
    Wakes { s with stopped := true } (stopAllThreads cfg s) :=
  (mapEvent_wakes cfg _ _).trans (interrupt_wakes _)

/-- Threads may be woken between what a pass takes and its next step. -/
theorem Takes.andWakes {next : Next} {s s' s'' : Scheduler τ} (h : Takes s (s', next))
    (h' : Wakes s' s'') : Takes s (s'', next) where
  opQueue := by rw [h.opQueue, h'.opQueue]
  task := h'.task.trans h.task
  outstandingWork := h'.outstandingWork.trans h.outstandingWork
  stopped := h'.stopped.trans h.stopped
  notMarker := h.notMarker

theorem ret_takes : Takes s (s, .ret) := ⟨rfl, rfl, rfl, rfl, by simp⟩

theorem takeHandler_takes {op : Operation} {rest : List Operation} (h : s.opQueue = op :: rest)
    (hop : op ≠ .taskOperation) : Takes s (takeHandler cfg s op rest) := by
  have taken : Takes s ({ s with opQueue := rest }, .execute op) :=
    ⟨h, rfl, rfl, rfl, by simpa using hop⟩
  simp only [takeHandler]
  split
  · exact taken.andWakes (wakeOneThreadAndUnlock_wakes cfg _)
  · exact taken

theorem takeFront_takes (usec : Int) {op : Operation} {rest : List Operation}
    (h : s.opQueue = op :: rest) : Takes s (takeFront cfg usec s op rest) := by
  simp only [takeFront]
  split
  · rename_i hop
    subst hop
    have taken (b : Bool) (usec : Int) :
        Takes s ({ s with opQueue := rest, taskInterrupted := b }, .task usec) :=
      ⟨h, rfl, rfl, rfl, by simp⟩
    split
    · exact (taken ..).andWakes (mapEvent_wakes cfg _ _)
    · exact taken ..
  · exact takeHandler_takes cfg s h ‹_›

theorem wait_takes (t : τ) : Takes s (waitForEvent cfg t s, .wait) := by
  have waits : Takes s (s, .wait) := ⟨rfl, rfl, rfl, rfl, by simp⟩
  exact waits.andWakes (mapEvent_wakes cfg s _)

theorem doRunOne_takes (t : τ) : Takes s (doRunOne cfg t s) := by
  simp only [doRunOne]
  split
  · exact ret_takes s
  · split
    · exact wait_takes cfg s t
    · exact takeFront_takes cfg s _ ‹_›

theorem doWaitOne_takes (t : τ) (usec : Int) : Takes s (doWaitOne cfg t usec s) := by
  simp only [doWaitOne]
  split
  · exact ret_takes s
  · split
    · exact wait_takes cfg s t
    · exact takeFront_takes cfg s _ ‹_›

theorem doPollOne_takes : Takes s (doPollOne cfg s) := by
  simp only [doPollOne]
  split
  · exact ret_takes s
  · split
    · exact ret_takes s
    · split
      · rename_i h hop
        subst hop
        exact ⟨h, rfl, rfl, rfl, by simp⟩
      · exact takeHandler_takes cfg s ‹_› ‹_›

theorem waitOneAfterWait_takes : Takes s (waitOneAfterWait cfg s) := by
  simp only [waitOneAfterWait]
  split
  · exact ret_takes s
  · exact takeFront_takes cfg s _ ‹_›

theorem afterTask_takes (signals : Bool) : Takes s (afterTask cfg signals s) := by
  simp only [afterTask]
  split
  · exact ret_takes s
  · split
    · split
      · exact (ret_takes s).andWakes (maybeUnlockAndSignalOne_wakes cfg s)
      · exact ret_takes s
    · exact takeHandler_takes cfg s ‹_› ‹_›

theorem pass_takes (t : τ) (entry : Entry) : Takes s (pass cfg t s entry) := by
  cases entry with
  | run | runOne => exact doRunOne_takes cfg s t
  | waitOne usec => exact doWaitOne_takes cfg s t usec
  | poll | pollOne => exact doPollOne_takes cfg s

theorem passAfterTask_takes (t : τ) (entry : Entry) : Takes s (passAfterTask cfg t s entry) := by
  cases entry with
  | run | runOne => exact doRunOne_takes cfg s t
  | waitOne usec => exact afterTask_takes cfg s _
  | poll | pollOne => exact afterTask_takes cfg s true

theorem passAfterWait_takes (t : τ) (entry : Entry) : Takes s (passAfterWait cfg t s entry) := by
  have woken := mapEvent_wakes cfg s PosixEvent.endWait
  cases entry with
  | run | runOne =>
    simp only [passAfterWait]
    split
    · exact woken.takes (doRunOne_takes cfg _ t)
    · have waits : Takes s (s, .wait) := ⟨rfl, rfl, rfl, rfl, by simp⟩
      exact waits.andWakes (woken.trans (mapEvent_wakes cfg _ _))
  | waitOne | poll | pollOne => exact woken.takes (waitOneAfterWait_takes cfg _)

end Passes

/-! ### What the calls of a thread hold -/

section Holdings

def Pc.held : Pc → List Operation
  | .task _ | .taskExit _ => [.taskOperation]
  | .execute op => [op]
  | _ => []

/-- What the thread information of a call may hold at each of its stages. -/
def Pc.Allows (privateOpQueue : List Operation) (privateOutstandingWork : Int) : Pc → Prop
  | .begin | .again | .wait => privateOpQueue = [] ∧ privateOutstandingWork = 0
  | .execute .taskOperation => False
  | .execute (.handler _) => 0 ≤ privateOutstandingWork
  | .performed => privateOutstandingWork = 1
  | .task _ | .taskExit _ | .execute .descriptor | .workExit _ => privateOutstandingWork = 0

theorem Pc.Allows.nil {pc : Pc} {q : List Operation} {p : Int} (h : pc.Allows q p) :
    pc.Allows [] p := by
  cases pc with
  | begin | again | wait => exact ⟨rfl, h.2⟩
  | execute op => cases op <;> exact h
  | _ => exact h

structure Call.Settled (c : Call) : Prop where
  noMarker : .taskOperation ∉ c.privateOpQueue
  allowed : c.pc.Allows c.privateOpQueue c.privateOutstandingWork

theorem Call.Settled.at {c : Call} {pc : Pc} (h : c.Settled) (hpc : c.pc = pc) :
    pc.Allows c.privateOpQueue c.privateOutstandingWork := hpc ▸ h.allowed

structure Thread.Settled (thr : Thread) : Prop where
  calls : ∀ c ∈ thr.calls, c.Settled
  outer : ∀ c ∈ thr.calls.tail, c.pc.Handling

def Call.held (c : Call) : List Operation := c.pc.held ++ c.privateOpQueue

def Thread.held (thr : Thread) : List Operation := thr.calls.flatMap Call.held

/-- The credit of a call that executes a handler, not yet given to `outstanding_work_`. -/
def Call.credit (c : Call) : Int := if c.pc.Handling then c.privateOutstandingWork else 0

def Thread.credit (thr : Thread) : Int := (thr.calls.map Call.credit).sum

def Pending.ids : Pending → List Nat
  | .push ids => ids
  | _ => []

variable (p : Operation → Bool) (w : World τ)

def World.assets (w : World τ) : Nat :=
  w.scheduler.opQueue.countP p + w.completed.countP (p ∘ .handler) +
    w.destroyed.countP (p ∘ .handler)

def World.dues (w : World τ) : Nat :=
  w.posted.countP (p ∘ .handler) + bif w.scheduler.task then [Operation.taskOperation].countP p else 0

def World.balance (w : World τ) : Int :=
  w.scheduler.outstandingWork + w.completed.length - w.guards - w.issued.length

@[simp] theorem Thread.held_cons (c : Call) (rest : List Call) (pending : Pending) :
    Thread.held ⟨c :: rest, pending⟩ = c.held ++ Thread.held ⟨rest, .idle⟩ := rfl

@[simp] theorem Thread.credit_cons (c : Call) (rest : List Call) (pending : Pending) :
    Thread.credit ⟨c :: rest, pending⟩ = c.credit + Thread.credit ⟨rest, .idle⟩ := rfl

end Holdings

/-- An action of one thread accounts for every operation, for the work it stands for, and for what
it adds to the history. -/
structure Accounts (a b : World τ × Thread) : Prop where
  settled : b.2.Settled
  held : ∀ p : Operation → Bool, p .descriptor = false →
    b.1.assets p + b.2.held.countP p + a.1.dues p = a.1.assets p + a.2.held.countP p + b.1.dues p
  issued : ∀ p : Nat → Bool,
    b.1.started.countP p + b.2.pending.ids.countP p + b.1.posted.countP p + a.1.issued.countP p =
      a.1.started.countP p + a.2.pending.ids.countP p + a.1.posted.countP p + b.1.issued.countP p
  fresh : a.1.issued.Nodup → b.1.issued.Nodup
  credit : b.1.balance + b.2.credit = a.1.balance + a.2.credit
  posted : a.1.posted <+: b.1.posted
  completed : a.1.completed <+: b.1.completed
  destroyed : b.1.destroyed = a.1.destroyed
  task : a.1.scheduler.task = true → b.1.scheduler.task = true

namespace Accounts

variable {a b c : World τ × Thread}

theorem trans (h : Accounts a b) (h' : Accounts b c) : Accounts a c where
  settled := h'.settled
  held p hp := by
    have := h.held p hp
    have := h'.held p hp
    omega
  issued p := by
    have := h.issued p
    have := h'.issued p
    omega
  fresh hn := h'.fresh (h.fresh hn)
  credit := h'.credit.trans h.credit
  posted := h.posted.trans h'.posted
  completed := h.completed.trans h'.completed
  destroyed := h'.destroyed.trans h.destroyed
  task ht := h'.task (h.task ht)

end Accounts

/-! ### The accounts of one action -/

theorem Pc.Handling.eq_execute {pc : Pc} (h : pc.Handling) : ∃ id, pc = .execute (.handler id) := by
  cases pc with
  | execute op =>
    cases op with
    | handler id => exact ⟨id, rfl⟩
    | _ => exact h.elim
  | _ => exact h.elim

section Actions

@[simp] theorem ids_finish (q : Prop) [Decidable q] :
    (if q then Pending.stop else .idle).ids = [] := by
  split <;> rfl

@[simp] theorem finish_eq_stop (q : Prop) [Decidable q] :
    (if q then Pending.stop else .idle) = .stop ↔ q := by
  split <;> simp [*]

@[simp] theorem ids_idle : Pending.idle.ids = [] := rfl

variable {cfg : Config} {t : τ} {w : World τ} {s s' : Scheduler τ} {thr : Thread} {c : Call}
variable {rest : List Call} {b : World τ × Thread}

/-- Only the innermost call and what is pending have changed. -/
theorem Thread.Settled.top {c' : Call} {pending pending' : Pending}
    (h : Thread.Settled ⟨c :: rest, pending⟩) (hc : c'.Settled) :
    Thread.Settled ⟨c' :: rest, pending'⟩ where
  calls := by
    intro c'' hc''
    cases hc'' with
    | head => exact hc
    | tail _ hmem => exact h.calls c'' (List.mem_cons_of_mem _ hmem)
  outer := h.outer

theorem Thread.Settled.pop {pending pending' : Pending} (h : Thread.Settled ⟨c :: rest, pending⟩) :
    Thread.Settled ⟨rest, pending'⟩ where
  calls c' hc' := h.calls c' (List.mem_cons_of_mem _ hc')
  outer c' hc' := h.outer c' (List.mem_of_mem_tail hc')

theorem leave_accounts (value : Option Nat) (hq : c.privateOpQueue = [])
    (hp : c.privateOutstandingWork = 0)
    (h : Thread.Settled ⟨{ c with pc := .again } :: rest, .idle⟩) :
    Accounts (w, ⟨{ c with pc := .again } :: rest, .idle⟩) (leave w c rest value) where
  settled := h.pop
  held p _ := by
    simp [leave, World.assets, World.dues, Call.held, hq, Pc.held, handlers]
  issued p := by simp [leave]
  fresh := id
  credit := by simp [leave, World.balance, Call.credit, hp]
  posted := List.prefix_rfl
  completed := List.prefix_rfl
  destroyed := by simp [leave, hq, handlers]
  task := id

theorem move_accounts {pc : Pc} (queue : s.opQueue = pc.held ++ s'.opQueue)
    (task : s'.task = s.task) (work : s'.outstandingWork = s.outstandingWork)
    (hq : c.privateOpQueue = []) (hp : c.privateOutstandingWork = 0) (hpc : pc.Allows [] 0)
    (h : Thread.Settled ⟨{ c with pc := .again } :: rest, .idle⟩) :
    Accounts (w.put s, ⟨{ c with pc := .again } :: rest, .idle⟩)
      (w.put s', ⟨{ c with pc := pc } :: rest, .idle⟩) where
  settled := h.top ⟨by simp [hq], by simpa only [hq, hp] using hpc⟩
  held p _ := by
    simp [World.put, World.assets, World.dues, Call.held, hq, Pc.held, queue, task]
    omega
  issued p := by simp [World.put]
  fresh := id
  credit := by simp [World.put, World.balance, Call.credit, hp, work]
  posted := List.prefix_rfl
  completed := List.prefix_rfl
  destroyed := rfl
  task ht := task.trans ht

theorem proceed_accounts {r : Scheduler τ × Next} (hr : Takes s r) (hq : c.privateOpQueue = [])
    (hp : c.privateOutstandingWork = 0)
    (h : Thread.Settled ⟨{ c with pc := .again } :: rest, .idle⟩) :
    Accounts (w.put s, ⟨{ c with pc := .again } :: rest, .idle⟩) (proceed w c rest r) := by
  obtain ⟨s', next⟩ := r
  have move {pc : Pc} (held : pc.held = next.taken) (hpc : pc.Allows [] 0) :
      Accounts (w.put s, ⟨{ c with pc := .again } :: rest, .idle⟩)
        (w.put s', ⟨{ c with pc := pc } :: rest, .idle⟩) := by
    refine move_accounts ?_ hr.task hr.outstandingWork hq hp hpc h
    rw [hr.opQueue, held]
  cases next with
  | wait => exact move rfl ⟨rfl, rfl⟩
  | task usec => exact move rfl rfl
  | execute op =>
    cases op with
    | taskOperation => exact absurd rfl hr.notMarker
    | descriptor => exact move rfl rfl
    | handler id => exact move rfl (Int.le_refl 0)
  | ret =>
    have same : Accounts (w.put s, ⟨{ c with pc := .again } :: rest, .idle⟩)
        (w.put s', ⟨{ c with pc := .again } :: rest, .idle⟩) :=
      move_accounts hr.opQueue hr.task hr.outstandingWork hq hp ⟨rfl, rfl⟩ h
    exact same.trans (leave_accounts _ hq hp h)

theorem resting_allows {pc : Pc} {q : List Operation} {p : Int}
    (hpc : pc = .begin ∨ pc = .again ∨ pc = .wait) (h : pc.Allows q p) : q = [] ∧ p = 0 := by
  rcases hpc with rfl | rfl | rfl
  · exact h
  · exact h
  · exact h

/-- Between two passes nothing hangs on where exactly a call is. -/
theorem resting_accounts (hpc : c.pc = .begin ∨ c.pc = .again ∨ c.pc = .wait)
    (h : Thread.Settled ⟨c :: rest, .idle⟩) :
    Accounts (w, ⟨c :: rest, .idle⟩) (w, ⟨{ c with pc := .again } :: rest, .idle⟩) := by
  have hc := h.calls c List.mem_cons_self
  have hheld : c.pc.held = [] := by
    rcases hpc with hpc | hpc | hpc <;> rw [hpc] <;> rfl
  have hcredit : ¬c.pc.Handling := by
    rcases hpc with hpc | hpc | hpc <;> simp [hpc, Pc.Handling]
  refine ⟨?_, ?_, fun _ => .refl _, id, ?_, List.prefix_rfl, List.prefix_rfl, rfl, fun ht => ht⟩
  · exact h.top ⟨hc.noMarker, resting_allows hpc hc.allowed⟩
  · intro p _
    rw [Thread.held_cons, Thread.held_cons, Call.held, Call.held, hheld]
    rfl
  · have hagain : ¬Pc.again.Handling := id
    simp [Call.credit, hcredit, hagain]

/-- A pass that begins with nothing in the thread information. -/
theorem pass_accounts {r : Scheduler τ × Next}
    (hpc : c.pc = .begin ∨ c.pc = .again ∨ c.pc = .wait) (hr : Takes w.scheduler r)
    (h : Thread.Settled ⟨c :: rest, .idle⟩) :
    Accounts (w, ⟨c :: rest, .idle⟩) (proceed w c rest r) := by
  have hc := h.calls c List.mem_cons_self
  have rest_ := resting_accounts (w := w) hpc h
  obtain ⟨hq, hp⟩ := resting_allows hpc hc.allowed
  exact rest_.trans (proceed_accounts hr hq hp rest_.settled)

theorem proceed_put (r : Scheduler τ × Next) :
    proceed (w.put s) c rest r = proceed w c rest r := by
  obtain ⟨s', next⟩ := r
  cases next <;> rfl

theorem takeOuter_accounts (ready : List Nat) (h : Thread.Settled ⟨c :: rest, .idle⟩) :
    Accounts (w, ⟨c :: rest, .idle⟩)
      (w.put (takeOuter cfg w.scheduler c.entry rest).1,
        ⟨{ c with ready := ready } :: (takeOuter cfg w.scheduler c.entry rest).2, .idle⟩) := by
  have hc := h.calls c List.mem_cons_self
  have same : Accounts (w, ⟨c :: rest, .idle⟩)
      (w, ⟨{ c with ready := ready } :: rest, .idle⟩) :=
    ⟨h.top ⟨hc.noMarker, hc.allowed⟩, fun _ _ => .refl _, fun _ => .refl _, id, .refl _,
      List.prefix_rfl, List.prefix_rfl, .refl _, fun ht => ht⟩
  cases rest with
  | nil => exact same
  | cons outer rest =>
    simp only [takeOuter]
    split
    · have houter := h.calls outer (by simp)
      refine ⟨⟨?_, ?_⟩, ?_, fun _ => .refl _, id, .refl _, List.prefix_rfl, List.prefix_rfl, rfl,
        fun ht => ht⟩
      · intro c' hc'
        simp only [List.mem_cons] at hc'
        rcases hc' with rfl | rfl | hc'
        · exact ⟨hc.noMarker, hc.allowed⟩
        · exact ⟨by simp, houter.allowed.nil⟩
        · exact h.calls c' (by simp [hc'])
      · intro c' hc'
        simp only [List.tail_cons, List.mem_cons] at hc'
        rcases hc' with rfl | hc'
        · exact h.outer outer (by simp)
        · exact h.outer c' (by simp [hc'])
      · intro p _
        simp only [World.put, World.assets, World.dues, Thread.held_cons, Call.held,
          List.countP_append, List.countP_nil]
        omega
    · exact same

theorem call_accounts {entry : Entry} (h : thr.Settled)
    (hb : Performs cfg t w thr (.call entry) b) : Accounts (w, thr) b := by
  cases hb with
  | callIdle free =>
    refine ⟨⟨h.calls, h.outer⟩, fun _ _ => .refl _, ?_, id, .refl _, List.prefix_rfl,
      List.prefix_rfl, rfl, fun ht => ht⟩
    intro p
    simp [free.1, Pending.ids]
  | call free =>
    refine ⟨⟨?_, ?_⟩, fun _ _ => .refl _, fun _ => .refl _, id, ?_, List.prefix_rfl,
      List.prefix_rfl, rfl, fun ht => ht⟩
    · intro c hc
      cases hc with
      | head => exact ⟨by simp [Call.construct], rfl, rfl⟩
      | tail _ hc => exact h.calls c hc
    · intro c hc
      obtain ⟨calls, pending⟩ := thr
      cases calls with
      | nil => simp at hc
      | cons outer rest =>
        simp only [List.tail_cons, List.mem_cons] at hc
        rcases hc with rfl | hc
        · exact free.2 _ rfl
        · exact h.outer c hc
    · simp [Call.construct, Call.credit, Thread.credit]

theorem enter_accounts (h : thr.Settled) (hb : Performs cfg t w thr .enter b) :
    Accounts (w, thr) b := by
  cases hb with
  | @begin c rest hpc =>
    have outer : Accounts (w, _) (w.put (takeOuter cfg w.scheduler c.entry rest).1, _) :=
      takeOuter_accounts (readyIds (takeOuter cfg w.scheduler c.entry rest).1) h
    refine outer.trans ?_
    rw [← proceed_put]
    exact pass_accounts (.inl hpc) (pass_takes ..) outer.settled
  | again hpc => exact pass_accounts (.inr (.inl hpc)) (pass_takes ..) h

theorem taskPush_accounts {op : Operation} (h : thr.Settled)
    (hb : Performs cfg t w thr (.taskPush op) b) : Accounts (w, thr) b := by
  cases hb with
  | @pushDescriptor c rest _ hpc =>
    have hc := h.calls c List.mem_cons_self
    refine ⟨h.top ⟨?_, ?_⟩, ?_, fun _ => .refl _, id, .refl _, List.prefix_rfl, List.prefix_rfl, rfl,
      fun ht => ht⟩
    · simpa using hc.noMarker
    · change c.pc.Allows _ _
      rw [hpc]
      exact hc.at hpc
    · intro p hp
      simp [Call.held, hp]
  | @pushHandler c rest _ id hpc hstarted =>
    have hc := h.calls c List.mem_cons_self
    refine ⟨h.top ⟨?_, ?_⟩, ?_, ?_, fun hn => hn, .refl _, List.prefix_append .., List.prefix_rfl, rfl,
      fun ht => ht⟩
    · simpa using hc.noMarker
    · change c.pc.Allows _ _
      rw [hpc]
      exact hc.at hpc
    · intro p _
      simp [Call.held, World.assets, World.dues, List.countP_cons]
      omega
    · intro p
      have := (List.perm_cons_erase hstarted).countP_eq p
      simp [Pending.ids, this, List.countP_cons]
      omega

theorem taskReturn_accounts {thrown : Bool} (h : thr.Settled)
    (hb : Performs cfg t w thr (.taskReturn thrown) b) : Accounts (w, thr) b := by
  cases hb with
  | @taskReturn c rest _ _ hpc =>
    have hc := h.calls c List.mem_cons_self
    have hp : c.privateOutstandingWork = 0 := hc.at hpc
    refine ⟨h.top ⟨hc.noMarker, rfl⟩, ?_, fun _ => .refl _, id, ?_, List.prefix_rfl,
      List.prefix_rfl, rfl, fun ht => ht⟩
    · intro p _
      simp [World.put, World.assets, World.dues, Call.held, hpc, Pc.held]
    · simp [World.put, World.balance, Call.credit, Pc.Handling, hpc, hp]

/-- `~task_cleanup` puts the private queue and the marker on the shared queue. -/
theorem requeue_accounts {thrown : Bool} (hpc : c.pc = .taskExit thrown)
    (h : Thread.Settled ⟨c :: rest, .idle⟩) :
    Accounts (w, ⟨c :: rest, .idle⟩)
      (w.put { w.scheduler with
        taskInterrupted := true
        opQueue := w.scheduler.opQueue ++ c.privateOpQueue ++ [.taskOperation] },
        ⟨{ c with privateOpQueue := [], pc := .again } :: rest, .idle⟩) := by
  have hp : c.privateOutstandingWork = 0 := (h.calls c List.mem_cons_self).at hpc
  refine ⟨h.top ⟨by simp, rfl, hp⟩, ?_, fun _ => .refl _, id, ?_, List.prefix_rfl,
    List.prefix_rfl, rfl, fun ht => ht⟩
  · intro p _
    simp [World.put, World.assets, World.dues, Call.held, hpc, Pc.held, List.countP_cons]
    omega
  · simp [World.put, World.balance, Call.credit, Pc.Handling, hpc]

theorem taskCleanup_accounts (h : thr.Settled) (hb : Performs cfg t w thr .taskCleanup b) :
    Accounts (w, thr) b := by
  cases hb with
  | @taskThrows c rest hpc =>
    have hp : c.privateOutstandingWork = 0 := (h.calls c List.mem_cons_self).at hpc
    have back := requeue_accounts (w := w) hpc h
    exact back.trans
      (leave_accounts (c := { c with privateOpQueue := [] }) none rfl hp back.settled)
  | @taskCleanup c rest hpc =>
    have hp : c.privateOutstandingWork = 0 := (h.calls c List.mem_cons_self).at hpc
    have back := requeue_accounts (w := w) hpc h
    exact back.trans (proceed_accounts (c := { c with privateOpQueue := [] })
      (passAfterTask_takes ..) rfl hp back.settled)

theorem adopt_accounts {id : Nat} (hpc : c.pc = .execute .descriptor) (hid : id ∈ w.started)
    (h : Thread.Settled ⟨c :: rest, .idle⟩) :
    Accounts (w, ⟨c :: rest, .idle⟩)
      ({ w with started := w.started.erase id, posted := w.posted ++ [id] },
        ⟨{ c with pc := .execute (.handler id) } :: rest, .idle⟩) := by
  have hc := h.calls c List.mem_cons_self
  have hp : c.privateOutstandingWork = 0 := hc.at hpc
  refine ⟨h.top ⟨hc.noMarker, hp.ge⟩, ?_, ?_, fun hn => hn, ?_, List.prefix_append ..,
    List.prefix_rfl, rfl, fun ht => ht⟩
  · intro p hdesc
    simp [World.assets, World.dues, Call.held, hpc, Pc.held, List.countP_cons, hdesc]
    omega
  · intro p
    have := (List.perm_cons_erase hid).countP_eq p
    simp [this, List.countP_cons]
    omega
  · simp [World.balance, Call.credit, Pc.Handling, hpc, hp]

theorem compensate_accounts (hpc : c.pc = .execute .descriptor)
    (h : Thread.Settled ⟨c :: rest, .idle⟩) :
    Accounts (w, ⟨c :: rest, .idle⟩)
      (w, ⟨{ c with
        privateOutstandingWork := c.privateOutstandingWork + 1
        pc := .performed } :: rest, .idle⟩) := by
  have hc := h.calls c List.mem_cons_self
  have hp : c.privateOutstandingWork = 0 := hc.at hpc
  refine ⟨h.top ⟨hc.noMarker, ?_⟩, ?_, fun _ => .refl _, id, ?_, List.prefix_rfl,
    List.prefix_rfl, rfl, fun ht => ht⟩
  · simp [Pc.Allows, hp]
  · intro p hdesc
    simp [Call.held, hpc, Pc.held, hdesc]
  · simp [Call.credit, Pc.Handling, hpc, hp]

/-- `~work_cleanup` settles what the call has been given credit for, less the operation that has
run. -/
theorem complete_accounts {thrown : Bool} (h : thr.Settled)
    (hb : Performs cfg t w thr (.complete thrown) b) : Accounts (w, thr) b := by
  cases hb with
  | @complete c rest id _ hpc =>
    have hc := h.calls c List.mem_cons_self
    have hp : 0 ≤ c.privateOutstandingWork := hc.at hpc
    refine ⟨h.top ⟨hc.noMarker, rfl⟩, ?_, ?_, fun hn => hn, ?_, List.prefix_rfl,
      List.prefix_append .., rfl, fun ht => ht⟩
    · intro p _
      simp [settle, World.put, World.assets, World.dues, Call.held, hpc, Pc.held, List.countP_cons]
      omega
    · intro p
      simp [settle, World.put]
    · simp only [settle, World.put, World.balance, Thread.credit_cons, Call.credit, Pc.Handling, hpc,
        List.length_append, List.length_singleton]
      split
      · simp
        omega
      · split
        · simp
          omega
        · simp
          omega
  | @completeNothing c rest _ hpc =>
    have hc := h.calls c List.mem_cons_self
    have hp : c.privateOutstandingWork = 1 := hc.at hpc
    refine ⟨h.top ⟨hc.noMarker, rfl⟩, ?_, ?_, fun hn => hn, ?_, List.prefix_rfl,
      List.prefix_rfl, rfl, fun ht => ht⟩
    · intro p _
      simp [settle, World.put, World.assets, World.dues, Call.held, hpc, Pc.held]
    · intro p
      simp [settle, World.put]
    · simp [settle, World.put, World.balance, Call.credit, Pc.Handling, hpc, hp]

/-- `~work_cleanup` puts the private queue on the shared queue. -/
theorem release_accounts {thrown : Bool} (hpc : c.pc = .workExit thrown)
    (h : Thread.Settled ⟨c :: rest, .idle⟩) :
    Accounts (w, ⟨c :: rest, .idle⟩)
      (w.put { w.scheduler with opQueue := w.scheduler.opQueue ++ c.privateOpQueue },
        ⟨{ c with privateOpQueue := [], n := count c.n, pc := .again } :: rest, .idle⟩) := by
  have hp : c.privateOutstandingWork = 0 := (h.calls c List.mem_cons_self).at hpc
  refine ⟨h.top ⟨by simp, rfl, hp⟩, ?_, fun _ => .refl _, id, ?_, List.prefix_rfl,
    List.prefix_rfl, rfl, fun ht => ht⟩
  · intro p _
    simp [World.put, World.assets, World.dues, Call.held, hpc, Pc.held]
    omega
  · simp [World.put, World.balance, Call.credit, Pc.Handling, hpc]

theorem workCleanup_accounts (h : thr.Settled) (hb : Performs cfg t w thr .workCleanup b) :
    Accounts (w, thr) b := by
  cases hb with
  | @workThrows c rest hpc =>
    have hp : c.privateOutstandingWork = 0 := (h.calls c List.mem_cons_self).at hpc
    have back := release_accounts (w := w) hpc h
    exact back.trans (leave_accounts (c := { c with privateOpQueue := [], n := count c.n })
      none rfl hp back.settled)
  | @workNext c rest hpc =>
    have hp : c.privateOutstandingWork = 0 := (h.calls c List.mem_cons_self).at hpc
    have back := release_accounts (w := w) hpc h
    exact back.trans (proceed_accounts (c := { c with privateOpQueue := [], n := count c.n })
      (pass_takes ..) rfl hp back.settled)
  | workAgain hpc => exact release_accounts hpc h
  | @workReturns c rest hpc =>
    have hp : c.privateOutstandingWork = 0 := (h.calls c List.mem_cons_self).at hpc
    have back := release_accounts (w := w) hpc h
    exact back.trans (leave_accounts (c := { c with privateOpQueue := [], n := count c.n })
      _ rfl hp back.settled)

theorem start_accounts {id : Nat} (hid : id ∉ w.issued) (h : thr.Settled) :
    Accounts (w, thr)
      ({ w with
        scheduler.outstandingWork := w.scheduler.outstandingWork + 1
        issued := w.issued ++ [id]
        started := w.started ++ [id] }, thr) := by
  refine ⟨h, fun _ _ => .refl _, ?_, ?_, ?_, List.prefix_rfl, List.prefix_rfl, rfl, fun ht => ht⟩
  · intro p
    simp
    omega
  · intro hn
    simp [List.nodup_append, hn]
    grind
  · simp [World.balance]
    omega

theorem postImmediate_accounts {ids : List Nat} {isContinuation : Bool} (h : thr.Settled)
    (hb : Performs cfg t w thr (.postImmediate ids isContinuation) b) : Accounts (w, thr) b := by
  have nodup (hnodup : ids.Nodup) (hfresh : ∀ id ∈ ids, id ∉ w.issued) (hn : w.issued.Nodup) :
      (w.issued ++ ids).Nodup := by
    refine List.nodup_append.2 ⟨hn, hnodup, ?_⟩
    intro id hid id' hid' heq
    exact hfresh id' hid' (heq ▸ hid)
  cases hb with
  | postShared free hnodup hfresh =>
    refine ⟨⟨h.calls, h.outer⟩, fun _ _ => .refl _, ?_, nodup hnodup hfresh, ?_, List.prefix_rfl,
      List.prefix_rfl, rfl, fun ht => ht⟩
    · intro p
      simp [Pending.ids, free.1]
      omega
    · simp [World.balance, Thread.credit]
      omega
  | @postPrivate c rest _ _ hhandling hnodup hfresh =>
    have hc := h.calls c List.mem_cons_self
    obtain ⟨id, hpc⟩ := hhandling.eq_execute
    have hp : 0 ≤ c.privateOutstandingWork := hc.at hpc
    refine ⟨h.top ⟨?_, ?_⟩, ?_, ?_, nodup hnodup hfresh, ?_, List.prefix_append ..,
      List.prefix_rfl, rfl, fun ht => ht⟩
    · simpa using hc.noMarker
    · change c.pc.Allows _ _
      rw [hpc]
      exact Int.add_nonneg hp (by simp)
    · intro p _
      simp [World.assets, World.dues, Call.held]
      omega
    · intro p
      simp
      omega
    · simp [World.balance, Call.credit, Pc.Handling, hpc]
      omega

theorem postDeferred_accounts {ids : List Nat} (h : thr.Settled)
    (hb : Performs cfg t w thr (.postDeferred ids) b) : Accounts (w, thr) b := by
  have hcount (hids : ∀ id ∈ ids, ids.count id ≤ w.started.count id) (p : Nat → Bool) :
      ids.countP p + (w.started.diff ids).countP p = w.started.countP p := by
    rw [← List.countP_append]
    exact (List.subperm_append_diff_self_of_count_le hids).countP_eq p
  cases hb with
  | deferShared hidle hids =>
    refine ⟨⟨h.calls, h.outer⟩, fun _ _ => .refl _, ?_, id, .refl _, List.prefix_rfl,
      List.prefix_rfl, rfl, fun ht => ht⟩
    intro p
    have := hcount hids p
    simp [Pending.ids, hidle]
    omega
  | @deferPrivate c rest _ caller hids =>
    have hc := h.calls c List.mem_cons_self
    refine ⟨h.top ⟨?_, ?_⟩, ?_, ?_, fun hn => hn, ?_, List.prefix_append .., List.prefix_rfl,
      rfl, fun ht => ht⟩
    · simpa using hc.noMarker
    · change c.pc.Allows _ _
      rcases caller with hhandling | hpc
      · obtain ⟨id, hpc⟩ := hhandling.eq_execute
        rw [hpc]
        exact hc.at hpc
      · rw [hpc]
        exact hc.at hpc
    · intro p _
      simp [World.assets, World.dues, Call.held]
      omega
    · intro p
      have := hcount hids p
      simp
      omega
    · simp [World.balance, Call.credit]

theorem doDispatch_accounts {id : Nat} (free : thr.Free) (hid : id ∉ w.issued)
    (h : thr.Settled) :
    Accounts (w, thr)
      ({ w with
        scheduler.outstandingWork := w.scheduler.outstandingWork + 1
        issued := w.issued ++ [id] }, { thr with pending := .push [id] }) := by
  refine ⟨⟨h.calls, h.outer⟩, fun _ _ => .refl _, ?_, ?_, ?_, List.prefix_rfl, List.prefix_rfl,
    rfl, fun ht => ht⟩
  · intro p
    simp [Pending.ids, free.1]
    omega
  · intro hn
    exact (List.nodup_append_comm.1 (List.nodup_cons.2 ⟨hid, hn⟩ : ([id] ++ w.issued).Nodup))
  · simp [World.balance, Thread.credit]
    omega

theorem lock_accounts (h : thr.Settled) (hb : Performs cfg t w thr .lock b) :
    Accounts (w, thr) b := by
  cases hb with
  | @lockPush calls ids =>
    have woken := wakeOneThreadAndUnlock_wakes cfg
      { w.scheduler with opQueue := w.scheduler.opQueue ++ ids.map .handler }
    refine ⟨⟨h.calls, h.outer⟩, ?_, ?_, fun hn => hn, ?_, List.prefix_append .., List.prefix_rfl,
      rfl, fun ht => woken.task.trans ht⟩
    · intro p _
      simp [World.assets, World.dues, Thread.held, woken.opQueue, woken.task]
      omega
    · intro p
      simp [Pending.ids]
      omega
    · simp [World.balance, Thread.credit, woken.outstandingWork]
  | lockStop =>
    have woken := stopAllThreads_wakes cfg w.scheduler
    refine ⟨⟨h.calls, h.outer⟩, ?_, fun _ => .refl _, id, ?_, List.prefix_rfl, List.prefix_rfl,
      rfl, fun ht => woken.task.trans ht⟩
    · intro p _
      simp [World.put, World.assets, World.dues, Thread.held, woken.opQueue, woken.task]
    · simp [World.put, World.balance, Thread.credit, woken.outstandingWork]

theorem workStarted_accounts (h : thr.Settled) :
    Accounts (w, thr)
      ({ w with
        scheduler.outstandingWork := w.scheduler.outstandingWork + 1
        guards := w.guards + 1 }, thr) := by
  refine ⟨h, fun _ _ => .refl _, fun _ => .refl _, id, ?_, List.prefix_rfl, List.prefix_rfl, rfl,
    fun ht => ht⟩
  simp [World.balance]
  omega

theorem workFinished_accounts (free : thr.Free) (hguards : 0 < w.guards) (h : thr.Settled) :
    Accounts (w, thr)
      ({ w with
        scheduler.outstandingWork := w.scheduler.outstandingWork - 1
        guards := w.guards - 1 },
        { thr with pending := if w.scheduler.outstandingWork - 1 = 0 then .stop else .idle }) := by
  refine ⟨⟨h.calls, h.outer⟩, fun _ _ => .refl _, ?_, id, ?_, List.prefix_rfl, List.prefix_rfl,
    rfl, fun ht => ht⟩
  · intro p
    simp [free.1]
  · simp [World.balance, Thread.credit]
    omega

theorem unblock_accounts {e : PosixEvent τ} (h : thr.Settled) :
    Accounts (w, thr) (w.put { w.scheduler with wakeupEvent := e }, thr) :=
  ⟨h, fun _ _ => .refl _, fun _ => .refl _, id, .refl _, List.prefix_rfl, List.prefix_rfl,
    .refl _, fun ht => ht⟩

/-- A section may add the marker, when it also records that there is a task. -/
theorem critical_accounts (work : s.outstandingWork = w.scheduler.outstandingWork)
    (queue : (s.opQueue = w.scheduler.opQueue ∧ s.task = w.scheduler.task) ∨
      (s.opQueue = w.scheduler.opQueue ++ [.taskOperation] ∧ w.scheduler.task = false ∧
        s.task = true))
    (h : thr.Settled) : Accounts (w, thr) (w.put s, thr) := by
  refine ⟨h, ?_, fun _ => .refl _, id, ?_, List.prefix_rfl, List.prefix_rfl, rfl, ?_⟩
  · intro p _
    rcases queue with ⟨hq, ht⟩ | ⟨hq, hf, ht⟩
    · simp [World.put, World.assets, World.dues, hq, ht]
    · simp [World.put, World.assets, World.dues, hq, hf, ht, List.countP_cons]
      omega
  · simp [World.put, World.balance, work]
  · intro ht
    rcases queue with ⟨-, hf⟩ | ⟨-, -, hf⟩
    · exact hf.trans ht
    · exact hf

theorem perform_accounts {a : Action} (ha : a ≠ .drain) (h : thr.Settled)
    (hb : perform cfg t w thr a = some b) : Accounts (w, thr) b := by
  have hb := perform_performs hb
  cases a with
  | call entry => exact call_accounts h hb
  | enter => exact enter_accounts h hb
  | wake | signal | signalNobody =>
    cases hb
    exact unblock_accounts h
  | resume =>
    cases hb with
    | resume hpc => exact pass_accounts (.inr (.inr hpc)) (passAfterWait_takes ..) h
  | taskPush op => exact taskPush_accounts h hb
  | taskReturn thrown => exact taskReturn_accounts h hb
  | taskCleanup => exact taskCleanup_accounts h hb
  | adopt id =>
    cases hb with
    | adopt hpc hid => exact adopt_accounts hpc hid h
  | compensate =>
    cases hb with
    | compensate hpc => exact compensate_accounts hpc h
  | complete thrown => exact complete_accounts h hb
  | workCleanup => exact workCleanup_accounts h hb
  | start id =>
    cases hb with
    | start hid => exact start_accounts hid h
  | postImmediate ids isContinuation => exact postImmediate_accounts h hb
  | postDeferred ids => exact postDeferred_accounts h hb
  | doDispatch id =>
    cases hb with
    | doDispatch free hid => exact doDispatch_accounts free hid h
  | lock => exact lock_accounts h hb
  | workStarted =>
    cases hb
    exact workStarted_accounts h
  | workFinished =>
    cases hb with
    | workFinished free hguards => exact workFinished_accounts free hguards h
  | stop =>
    cases hb
    have woken := stopAllThreads_wakes cfg w.scheduler
    exact critical_accounts woken.outstandingWork (.inl ⟨woken.opQueue, woken.task⟩) h
  | restart =>
    cases hb
    exact critical_accounts rfl (.inl ⟨rfl, rfl⟩) h
  | initTask =>
    cases hb
    refine critical_accounts ?_ ?_ h
    · simp only [addTask]
      split
      · exact (wakeOneThreadAndUnlock_wakes ..).outstandingWork
      · rfl
    · simp only [addTask]
      split
      · rename_i hnew
        have woken := wakeOneThreadAndUnlock_wakes cfg { w.scheduler with
          task := true, opQueue := w.scheduler.opQueue ++ [.taskOperation] }
        exact .inr ⟨woken.opQueue, by simp_all, woken.task⟩
      · exact .inl ⟨rfl, rfl⟩
  | shutdown =>
    cases hb
    have woken := stopAllThreads_wakes cfg { w.scheduler with shutdown := true }
    refine critical_accounts ?_ (.inl ⟨?_, ?_⟩) h
    · simp only [beginShutdown]
      split
      · exact woken.outstandingWork
      · rfl
    · simp only [beginShutdown]
      split
      · exact woken.opQueue
      · rfl
    · simp only [beginShutdown]
      split
      · exact woken.task
      · rfl
  | drain => exact absurd rfl ha

end Actions
/-! ### Runs -/

section Runs

variable [Fintype τ] {cfg : Config} {s s' : State τ} {a : τ × Action}

/-- Where an operation is: on the shared queue, on private queues, or with threads that execute
it. -/
def places (s : State τ) (op : Operation) : Nat :=
  s.shared.scheduler.opQueue.count op + s.total fun thr => thr.held.count op

structure Sound (s : State τ) : Prop where
  settled : ∀ t, (s.part t).Settled
  held : ∀ p : Operation → Bool, p .descriptor = false →
    s.shared.assets p + (s.total fun thr => thr.held.countP p) = s.shared.dues p
  issued : ∀ p : Nat → Bool,
    s.shared.started.countP p + (s.total fun thr => thr.pending.ids.countP p) +
      s.shared.posted.countP p = s.shared.issued.countP p
  fresh : s.shared.issued.Nodup
  credit : s.shared.balance + s.total Thread.credit = 0

theorem construct_settled : Thread.construct.Settled :=
  ⟨by simp [Thread.construct], by simp [Thread.construct]⟩

theorem initial_sound : Sound (initial cfg : State τ) where
  settled _ := construct_settled
  held p _ := by
    simp [initial, construct, World.assets, World.dues, Interleaving.State.total, Thread.construct,
      Thread.held]
  issued p := by simp [initial, Interleaving.State.total, Thread.construct]
  fresh := List.nodup_nil
  credit := by
    simp only [initial, construct, World.balance, Interleaving.State.total, Thread.construct,
      Thread.credit]
    split <;> simp

theorem Sound.set {t : τ} {b : World τ × Thread} (h : Sound s)
    (hb : Accounts (s.shared, s.part t) b) : Sound (s.set t b) where
  settled := Interleaving.forall_part_set h.settled hb.settled
  held p hp := by
    have before := h.held p hp
    have act := hb.held p hp
    dsimp only at act
    have total := Interleaving.total_set s (fun thr => thr.held.countP p) t b
    simp only [Interleaving.shared_set]
    omega
  issued p := by
    have before := h.issued p
    have act := hb.issued p
    dsimp only at act
    have total := Interleaving.total_set s (fun thr => thr.pending.ids.countP p) t b
    simp only [Interleaving.shared_set]
    omega
  fresh := hb.fresh h.fresh
  credit := by
    have before := h.credit
    have act := hb.credit
    dsimp only at act
    have total := Interleaving.total_set s Thread.credit t b
    simp only [Interleaving.shared_set]
    omega

theorem countP_handlers {p : Operation → Bool} (hp : p .descriptor = false) (ops : List Operation) :
    ops.countP p = (handlers ops).countP (p ∘ .handler) +
      bif p .taskOperation then ops.count .taskOperation else 0 := by
  induction ops with
  | nil => simp [handlers]
  | cons op ops ih =>
    rw [List.countP_cons, List.count_cons, ih]
    cases op with
    | taskOperation =>
      have hcons : handlers (.taskOperation :: ops) = handlers ops := rfl
      rw [hcons]
      cases h : p .taskOperation <;> simp
      omega
    | descriptor =>
      have hcons : handlers (.descriptor :: ops) = handlers ops := rfl
      simp [hcons, hp]
    | handler id =>
      have hcons : handlers (.handler id :: ops) = id :: handlers ops := rfl
      rw [hcons, List.countP_cons]
      simp
      omega

theorem countP_marker (ids : List Nat) :
    ids.countP ((· == Operation.taskOperation) ∘ .handler) = 0 := by
  simp [List.countP_eq_zero]

/-- While no thread runs the scheduler, the marker is on the queue if there is a task. -/
theorem Sound.quiet_marker (h : Sound s) (quiet : ∀ t, (s.part t).calls = []) :
    s.shared.scheduler.opQueue.count .taskOperation = s.shared.scheduler.task.toNat := by
  have held := h.held (· == .taskOperation) rfl
  have total : (s.total fun thr => thr.held.countP (· == .taskOperation)) = 0 := by
    rw [Interleaving.total_eq_zero]
    intro t
    simp [Thread.held, quiet t]
  simp only [World.assets, World.dues, countP_marker, total, List.countP_singleton] at held
  rw [List.count]
  cases htask : s.shared.scheduler.task <;> simpa [htask] using held

theorem Sound.drain {t : τ} {b : World τ × Thread} (h : Sound s)
    (quiet : ∀ t, (s.part t).calls = []) (hb : Performs cfg t s.shared (s.part t) .drain b) :
    Sound (s.set t b) := by
  have marker := h.quiet_marker quiet
  generalize hpart : s.part t = thr at hb
  cases hb
  rw [← hpart, Interleaving.set_part]
  refine ⟨h.settled, ?_, h.issued, h.fresh, h.credit⟩
  intro p hp
  have held := h.held p hp
  have split := countP_handlers hp s.shared.scheduler.opQueue
  rw [marker] at split
  cases htask : s.shared.scheduler.task <;> cases hm : p .taskOperation <;>
    simp [World.assets, World.dues, htask, hm, Interleaving.State.total] at held split ⊢ <;> omega

theorem step_sound (h : Sound s) (legal : Legal s a) (hs : step cfg s a = some s') : Sound s' := by
  obtain ⟨w, thr, hb, rfl⟩ := Interleaving.step_eq_some.1 hs
  by_cases ha : a.2 = .drain
  · rw [ha] at hb
    exact h.drain (legal ha) (perform_performs hb)
  · exact h.set (perform_accounts ha (h.settled _) hb)

theorem reachable_sound (h : Reachable (step cfg) Legal (initial cfg) s) : Sound s :=
  h.invariant initial_sound fun hs legal hstep => step_sound hs legal hstep

/-- A thread is inside `task_->run`, or on its way back with the marker. -/
def Pc.runsTask : Pc → Bool
  | .task _ | .taskExit _ => true
  | _ => false

theorem Call.Settled.count_marker {c : Call} (h : c.Settled) :
    c.held.count .taskOperation = if c.pc.runsTask then 1 else 0 := by
  have noMarker := List.count_eq_zero.2 h.noMarker
  have allowed := h.allowed
  rw [Call.held, List.count_append, noMarker]
  cases hpc : c.pc with
  | execute op =>
    cases op with
    | taskOperation => simp [hpc, Pc.Allows] at allowed
    | _ => rfl
  | _ => rfl

theorem Thread.Settled.count_marker {thr : Thread} (h : thr.Settled) :
    thr.held.count .taskOperation = thr.calls.countP fun c => c.pc.runsTask := by
  obtain ⟨calls, pending⟩ := thr
  have hcalls := h.calls
  clear h
  simp only [Thread.held] at hcalls ⊢
  induction calls with
  | nil => rfl
  | cons c rest ih =>
    rw [List.flatMap_cons, List.count_append, List.countP_cons,
      (hcalls c List.mem_cons_self).count_marker,
      ih fun c' hc' => hcalls c' (List.mem_cons_of_mem _ hc'), Nat.add_comm]

theorem Sound.marker (h : Sound s) :
    s.shared.scheduler.opQueue.count .taskOperation +
        (s.total fun thr => thr.calls.countP fun c => c.pc.runsTask) =
      if s.shared.scheduler.task then 1 else 0 := by
  have held := h.held (· == .taskOperation) rfl
  simp only [World.assets, World.dues, countP_marker, List.countP_singleton] at held
  have threads : (s.total fun thr => thr.calls.countP fun c => c.pc.runsTask) =
      s.total fun thr => thr.held.countP (· == .taskOperation) := by
    apply Finset.sum_congr rfl
    intro t _
    exact (h.settled t).count_marker.symm
  rw [threads, List.count]
  cases htask : s.shared.scheduler.task <;> simpa [htask] using held

end Runs

end Asio.Detail.Scheduler
