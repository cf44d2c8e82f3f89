import Asio.Detail.SchedulerLedger

/-! Threads that wait for the event or are blocked in the task, and who wakes them when there is an
operation to run. -/

universe u

namespace Asio.Detail.Scheduler

open Asio.Lib Asio.Lib.Transition

set_option linter.unusedSectionVars false

variable {τ : Type u} [DecidableEq τ]

def Thread.pc? (thr : Thread) : Option Pc := thr.calls.head?.map (·.pc)

def Thread.waits (thr : Thread) : Bool := thr.pc? = some .wait

def Thread.blockedInTask (thr : Thread) : Bool :=
  match thr.pc? with
  | some (.task usec) => usec ≠ 0
  | _ => false

def HasWork (s : Scheduler τ) : Prop := ∃ op ∈ s.opQueue, op ≠ .taskOperation

instance (s : Scheduler τ) : Decidable (HasWork s) :=
  inferInstanceAs (Decidable (∃ op ∈ s.opQueue, _))

/-- A waiter has been woken, or a call of `pthread_cond_signal` for one is still to be made. -/
def Signalled (s : State τ) : Prop :=
  s.shared.scheduler.wakeupEvent.isSignalled = true ∧
    ∃ t, (s.part t).waits = true ∧ (t ∉ s.shared.scheduler.wakeupEvent.blocked ∨
      0 < s.shared.scheduler.wakeupEvent.signals)

/-- A thread in the loop is not idle, or one that was has been told to go on. -/
def Attended (s : State τ) : Prop :=
  (∃ t, (s.part t).calls ≠ [] ∧ (s.part t).waits = false ∧ (s.part t).blockedInTask = false) ∨
  Signalled s ∨
  (∃ t, (s.part t).blockedInTask = true ∧ s.shared.scheduler.taskInterrupted = true) ∨
  ∀ t, (s.part t).calls = []

structure NoLostWakeup (s : State τ) : Prop where
  queued : s.shared.scheduler.stopped = false → HasWork s.shared.scheduler → Attended s
  stopped : s.shared.scheduler.stopped = true → ∀ t,
    ((s.part t).waits = true → s.shared.scheduler.wakeupEvent.isSignalled = true ∧
      t ∉ s.shared.scheduler.wakeupEvent.blocked) ∧
    ((s.part t).blockedInTask = true → s.shared.scheduler.taskInterrupted = true)

/-- If threads wait one of them is woken; if none waits a blocked task is interrupted. -/
structure Covered (s : State τ) : Prop where
  waiting : (∃ t, (s.part t).waits = true) → Signalled s
  blocked : (∀ t, (s.part t).waits = false) →
    ∀ t, (s.part t).blockedInTask = true → s.shared.scheduler.taskInterrupted = true

/-! ### Bookkeeping of the event -/

/-- The scheduler has been told to wake somebody up. -/
structure Alerted (s : Scheduler τ) : Prop where
  event : 0 < s.wakeupEvent.waiters →
    s.wakeupEvent.isSignalled = true ∧ 0 < s.wakeupEvent.signals
  task : s.wakeupEvent.waiters = 0 → s.task = true → s.taskInterrupted = true

/-- Nobody begins to wait or leaves the event, and no signal is taken back. -/
structure Rouses (s s' : Scheduler τ) : Prop where
  waiters : s'.wakeupEvent.waiters = s.wakeupEvent.waiters
  blocked : s'.wakeupEvent.blocked = s.wakeupEvent.blocked
  isSignalled : s.wakeupEvent.isSignalled = true → s'.wakeupEvent.isSignalled = true
  signals : s.wakeupEvent.signals ≤ s'.wakeupEvent.signals
  stopped : s'.stopped = s.stopped

section Schedulers

variable {s s' s'' : Scheduler τ} {cfg : Config} {t : τ} {op : Operation} {rest : List Operation}

theorem Rouses.rfl : Rouses s s := ⟨.refl _, .refl _, id, Nat.le_refl _, .refl _⟩

theorem Rouses.trans (h : Rouses s s') (h' : Rouses s' s'') : Rouses s s'' :=
  ⟨h'.waiters.trans h.waiters, h'.blocked.trans h.blocked, h'.isSignalled ∘ h.isSignalled,
    h.signals.trans h'.signals, h'.stopped.trans h.stopped⟩

theorem interrupt_rouses : Rouses s s.interrupt := by
  rw [interrupt]
  split
  · exact ⟨rfl, rfl, id, Nat.le_refl _, rfl⟩
  · exact .rfl

theorem maybe_rouses (henabled : cfg.enabled = true) :
    Rouses s (maybeUnlockAndSignalOne cfg s).2 := by
  simp only [maybeUnlockAndSignalOne, mapEvent, henabled, if_true]
  refine ⟨by simp, by simp, by simp, ?_, rfl⟩
  simp only [PosixEvent.signals_maybe]
  split
  · omega
  · omega

theorem wakeOneThreadAndUnlock_rouses (henabled : cfg.enabled = true) :
    Rouses s (wakeOneThreadAndUnlock cfg s) := by
  have maybe : Rouses s (maybeUnlockAndSignalOne cfg s).2 := maybe_rouses henabled
  simp only [wakeOneThreadAndUnlock]
  split
  · exact maybe
  · exact maybe.trans interrupt_rouses

theorem wakeOneThreadAndUnlock_alerted (henabled : cfg.enabled = true) :
    Alerted (wakeOneThreadAndUnlock cfg s) := by
  have hfst := PosixEvent.maybe_fst s.wakeupEvent
  simp only [wakeOneThreadAndUnlock, maybeUnlockAndSignalOne, mapEvent, henabled, if_true,
    Bool.true_and]
  split
  · rename_i h
    refine ⟨fun _ => ⟨by simp, ?_⟩, fun hzero => ?_⟩
    · simp only [PosixEvent.signals_maybe, if_pos (hfst.1 h)]
      omega
    · simp only [PosixEvent.waiters_maybe] at hzero
      have := hfst.1 h
      omega
  · rename_i h
    have hzero : s.wakeupEvent.waiters = 0 := by
      by_contra hne
      exact h (hfst.2 (by omega))
    refine ⟨fun hpos => ?_, fun _ htask => ?_⟩
    · have woken := (interrupt_rouses (s := { s with
        wakeupEvent := s.wakeupEvent.maybeUnlockAndSignalOne.2 })).waiters
      simp only [PosixEvent.waiters_maybe] at woken
      omega
    · simp only [interrupt] at htask ⊢
      split
      · rfl
      · rename_i hno
        simp_all

theorem interrupt_interrupted (h : s.taskInterrupted = true) :
    s.interrupt.taskInterrupted = true := by
  rw [interrupt]
  split
  · rfl
  · exact h

theorem wakeOneThreadAndUnlock_interrupted (h : s.taskInterrupted = true) :
    (wakeOneThreadAndUnlock cfg s).taskInterrupted = true := by
  have maybe : (maybeUnlockAndSignalOne cfg s).2.taskInterrupted = true := by
    simp only [maybeUnlockAndSignalOne, mapEvent]
    split
    · exact h
    · exact h
  simp only [wakeOneThreadAndUnlock]
  split
  · exact maybe
  · exact interrupt_interrupted maybe

theorem takeHandler_rouses (henabled : cfg.enabled = true) (hmany : cfg.oneThread = false) :
    Rouses s (takeHandler cfg s op rest).1 ∧
      ((takeHandler cfg s op rest).1.opQueue ≠ [] → Alerted (takeHandler cfg s op rest).1) := by
  have same : Rouses s { s with opQueue := rest } := ⟨rfl, rfl, id, Nat.le_refl _, rfl⟩
  simp only [takeHandler, hmany]
  split
  · exact ⟨same.trans (wakeOneThreadAndUnlock_rouses henabled),
      fun _ => wakeOneThreadAndUnlock_alerted henabled⟩
  · rename_i hrest
    exact ⟨same, fun hne => absurd (by simpa using hne) hrest⟩

theorem takeFront_rouses (henabled : cfg.enabled = true) (hmany : cfg.oneThread = false)
    (usec : Int) : Rouses s (takeFront cfg usec s op rest).1 ∧
      ((takeFront cfg usec s op rest).1.opQueue ≠ [] →
        Alerted (takeFront cfg usec s op rest).1) := by
  simp only [takeFront]
  split
  · have same (b : Bool) : Rouses s { s with opQueue := rest, taskInterrupted := b } :=
      ⟨rfl, rfl, id, Nat.le_refl _, rfl⟩
    by_cases hrest : rest = []
    · subst hrest
      simp only [ne_eq, not_true_eq_false, decide_false, Bool.false_and, Bool.false_eq_true,
        if_false, false_implies, and_true]
      exact same false
    · simp only [hmany, ne_eq, hrest, not_false_eq_true, decide_true, Bool.not_false, Bool.and_true,
        if_true, mapEvent, henabled, true_implies]
      refine ⟨⟨by simp, by simp, by simp, ?_, rfl⟩, fun hpos => ⟨by simp, ?_⟩, fun _ _ => rfl⟩
      · simp only [PosixEvent.signals_unlockAndSignalOne]
        split
        · omega
        · omega
      · simp only [PosixEvent.waiters_unlockAndSignalOne] at hpos
        simp only [PosixEvent.signals_unlockAndSignalOne, if_pos hpos]
        omega
  · exact takeHandler_rouses henabled hmany

theorem takeFront_next (usec : Int) : (takeFront cfg usec s op rest).2 ≠ .wait ∧
    (takeFront cfg usec s op rest).2 ≠ .ret := by
  simp only [takeFront, takeHandler]
  split
  · exact ⟨by simp, by simp⟩
  · exact ⟨by simp, by simp⟩

/-- What one section of `do_run_one` does. -/
theorem doRunOne_cases (henabled : cfg.enabled = true) (hmany : cfg.oneThread = false) :
    (s.stopped = true ∧ doRunOne cfg t s = (s, .ret)) ∨
    (s.stopped = false ∧ s.opQueue = [] ∧ doRunOne cfg t s = (waitForEvent cfg t s, .wait)) ∨
    (s.stopped = false ∧ Rouses s (doRunOne cfg t s).1 ∧
      ((doRunOne cfg t s).1.opQueue ≠ [] → Alerted (doRunOne cfg t s).1) ∧
      (doRunOne cfg t s).2 ≠ .wait ∧ (doRunOne cfg t s).2 ≠ .ret) := by
  simp only [doRunOne]
  split
  · exact .inl ⟨‹_›, rfl⟩
  · rename_i hstop
    have hstop : s.stopped = false := by simpa using hstop
    split
    · exact .inr (.inl ⟨hstop, ‹_›, rfl⟩)
    · refine .inr (.inr ⟨hstop, ?_, ?_, takeFront_next (-1)⟩)
      · exact (takeFront_rouses henabled hmany (-1)).1
      · exact (takeFront_rouses henabled hmany (-1)).2

end Schedulers

/-! ### Threads that wait -/

section Threads

variable {c : Call} {rest : List Call} {pending pending' : Pending} {thr : Thread}

@[simp] theorem waits_cons : Thread.waits ⟨c :: rest, pending⟩ = decide (c.pc = .wait) := by
  simp [Thread.waits, Thread.pc?]

theorem waits_of_pc (h : c.pc ≠ .wait) : Thread.waits ⟨c :: rest, pending⟩ = false := by
  simpa using h

theorem blockedInTask_of_pc (h : ∀ usec, c.pc = .task usec → usec = 0) :
    Thread.blockedInTask ⟨c :: rest, pending⟩ = false := by
  simp only [Thread.blockedInTask, Thread.pc?, List.head?_cons, Option.map_some]
  split
  · rename_i usec heq
    simpa using h usec (Option.some.inj heq)
  · rfl

theorem waits_of_calls {thr' : Thread} (h : thr'.calls = thr.calls) : thr'.waits = thr.waits := by
  obtain ⟨calls, pending⟩ := thr
  obtain ⟨calls', pending'⟩ := thr'
  obtain rfl : calls' = calls := h
  rfl

theorem blockedInTask_of_calls {thr' : Thread} (h : thr'.calls = thr.calls) :
    thr'.blockedInTask = thr.blockedInTask := by
  rw [Thread.blockedInTask, Thread.blockedInTask, Thread.pc?, Thread.pc?, h]

theorem idle_of_handling (h : ∀ c ∈ thr.calls.head?, c.pc.Handling) :
    thr.waits = false ∧ thr.blockedInTask = false := by
  obtain ⟨calls, pending⟩ := thr
  cases calls with
  | nil => exact ⟨rfl, rfl⟩
  | cons c rest =>
    obtain ⟨id, hpc⟩ := (h c rfl).eq_execute
    exact ⟨waits_of_pc (by simp [hpc]), blockedInTask_of_pc (by simp [hpc])⟩

/-- A thread whose innermost call returns is in a handler, or leaves the scheduler. -/
theorem Thread.Settled.idle_pop (h : Thread.Settled ⟨c :: rest, pending⟩) :
    Thread.waits ⟨rest, pending'⟩ = false ∧ Thread.blockedInTask ⟨rest, pending'⟩ = false := by
  apply idle_of_handling
  intro c' hc'
  exact h.outer c' (List.mem_of_mem_head? hc')

end Threads

/-! ### Invariants -/

section Invariants

variable [Fintype τ] {s : State τ} {t : τ} {b : World τ × Thread}

def Call.Runs (c : Call) : Prop := c.entry = .run ∨ c.entry = .runOne

structure Base (s : State τ) : Prop where
  waiters : s.shared.scheduler.wakeupEvent.waiters = s.total fun thr => thr.waits.toNat
  blocked : ∀ t ∈ s.shared.scheduler.wakeupEvent.blocked, (s.part t).waits = true
  runs : ∀ t, ∀ c ∈ (s.part t).calls, c.Runs
  halted : s.shared.scheduler.stopped = true →
    s.shared.scheduler.wakeupEvent.isSignalled = true ∧
    s.shared.scheduler.wakeupEvent.blocked = ∅ ∧
    ∀ t, (s.part t).blockedInTask = true → s.shared.scheduler.taskInterrupted = true

structure Watch (s : State τ) : Prop extends Base s where
  duty : s.shared.scheduler.stopped = false → HasWork s.shared.scheduler → Covered s

theorem Base.waiters_pos (h : Base s) (ht : (s.part t).waits = true) :
    0 < s.shared.scheduler.wakeupEvent.waiters := by
  have le := Interleaving.total_le s (fun thr => thr.waits.toNat) t
  simp only [ht, Bool.toNat_true] at le
  rw [h.waiters]
  omega

theorem Base.waiters_zero (h : Base s) (hnone : ∀ t, (s.part t).waits = false) :
    s.shared.scheduler.wakeupEvent.waiters = 0 := by
  rw [h.waiters, Interleaving.total_eq_zero]
  intro t
  simp [hnone t]

theorem Alerted.covered (ha : Alerted s.shared.scheduler) (h : Base s)
    (flag : ∀ t, (s.part t).blockedInTask = true → s.shared.scheduler.task = true) :
    Covered s where
  waiting := by
    rintro ⟨t, ht⟩
    have event := ha.event (h.waiters_pos ht)
    exact ⟨event.1, t, ht, .inr event.2⟩
  blocked hnone t ht := ha.task (h.waiters_zero hnone) (flag t ht)

/-- The thread neither begins nor ends waiting. -/
theorem Base.set (h : Base s) (hr : Rouses s.shared.scheduler b.1.scheduler)
    (hwaits : b.2.waits = (s.part t).waits) (hruns : ∀ c ∈ b.2.calls, c.Runs)
    (hhalted : s.shared.scheduler.stopped = true →
      (s.shared.scheduler.taskInterrupted = true → b.1.scheduler.taskInterrupted = true) ∧
      (b.2.blockedInTask = true → (s.part t).blockedInTask = true)) : Base (s.set t b) where
  waiters := by
    have total := Interleaving.total_set s (fun thr => thr.waits.toNat) t b
    have before := h.waiters
    have event := hr.waiters
    rw [hwaits] at total
    simp only [Interleaving.shared_set]
    omega
  blocked t' ht' := by
    simp only [Interleaving.shared_set, hr.blocked] at ht'
    have before := h.blocked t' ht'
    by_cases ht : t' = t
    · subst ht
      rw [Interleaving.part_set_self, hwaits, before]
    · rw [Interleaving.part_set_of_ne ht, before]
  runs := Interleaving.forall_part_set (P := fun thr : Thread => ∀ c ∈ thr.calls, c.Runs) h.runs hruns
  halted hstop := by
    simp only [Interleaving.shared_set, hr.stopped] at hstop
    obtain ⟨hsignalled, hblocked, htask⟩ := h.halted hstop
    obtain ⟨hint, hthr⟩ := hhalted hstop
    refine ⟨hr.isSignalled hsignalled, hr.blocked.trans hblocked, ?_⟩
    intro t' ht'
    by_cases ht : t' = t
    · subst ht
      rw [Interleaving.part_set_self] at ht'
      exact hint (htask t' (hthr ht'))
    · rw [Interleaving.part_set_of_ne ht] at ht'
      exact hint (htask t' ht')

theorem waits_set (hwaits : b.2.waits = (s.part t).waits) (t' : τ) :
    ((s.set t b).part t').waits = (s.part t').waits := by
  by_cases ht : t' = t
  · subst ht
    rw [Interleaving.part_set_self, hwaits]
  · rw [Interleaving.part_set_of_ne ht]

theorem Covered.set (h : Covered s) (hr : Rouses s.shared.scheduler b.1.scheduler)
    (hwaits : b.2.waits = (s.part t).waits)
    (hint : s.shared.scheduler.taskInterrupted = true → b.1.scheduler.taskInterrupted = true)
    (hthr : b.2.blockedInTask = true → (s.part t).blockedInTask = true) :
    Covered (s.set t b) where
  waiting := by
    rintro ⟨t', ht'⟩
    rw [waits_set hwaits] at ht'
    obtain ⟨hsignalled, t'', hwaits'', hwoken⟩ := h.waiting ⟨t', ht'⟩
    refine ⟨hr.isSignalled hsignalled, t'', by rw [waits_set hwaits, hwaits''], ?_⟩
    simp only [Interleaving.shared_set, hr.blocked]
    exact hwoken.imp_right fun hpos => hpos.trans_le hr.signals
  blocked hnone t' ht' := by
    have hnone' (t'' : τ) : (s.part t'').waits = false := by
      rw [← waits_set hwaits]
      exact hnone t''
    by_cases ht : t' = t
    · subst ht
      rw [Interleaving.part_set_self] at ht'
      exact hint (h.blocked hnone' t' (hthr ht'))
    · rw [Interleaving.part_set_of_ne ht] at ht'
      exact hint (h.blocked hnone' t' ht')

/-! ### Steps -/

/-- The action tells nobody to sleep. -/
structure Quiet (a b : World τ × Thread) : Prop where
  rouses : Rouses a.1.scheduler b.1.scheduler
  interrupted : a.1.scheduler.taskInterrupted = true → b.1.scheduler.taskInterrupted = true
  waits : b.2.waits = a.2.waits
  blocked : b.2.blockedInTask = true → a.2.blockedInTask = true
  runs : (∀ c ∈ a.2.calls, c.Runs) → ∀ c ∈ b.2.calls, c.Runs

theorem Watch.quiet (h : Watch s) (q : Quiet (s.shared, s.part t) b)
    (flag : ∀ t', ((s.set t b).part t').blockedInTask = true → b.1.scheduler.task = true)
    (work : s.shared.scheduler.stopped = false → HasWork b.1.scheduler →
      Covered s ∨ Alerted b.1.scheduler) : Watch (s.set t b) := by
  have base := h.toBase.set q.rouses q.waits (q.runs (h.runs t)) fun _ => ⟨q.interrupted, q.blocked⟩
  refine ⟨base, ?_⟩
  intro hstop hwork
  have hstop' : s.shared.scheduler.stopped = false := by
    rw [← q.rouses.stopped]
    exact hstop
  rcases work hstop' hwork with covered | alerted
  · exact covered.set q.rouses q.waits q.interrupted q.blocked
  · exact alerted.covered base flag

/-- Nothing is added to the queue either. -/
theorem Watch.silent (h : Watch s) (q : Quiet (s.shared, s.part t) b)
    (flag : ∀ t', ((s.set t b).part t').blockedInTask = true → b.1.scheduler.task = true)
    (work : HasWork b.1.scheduler → HasWork s.shared.scheduler) : Watch (s.set t b) :=
  h.quiet q flag fun hstop hwork => .inl (h.duty hstop (work hwork))

theorem stopAllThreads_event {cfg : Config} (henabled : cfg.enabled = true) (s : Scheduler τ) :
    (stopAllThreads cfg s).wakeupEvent = s.wakeupEvent.signalAll := by
  simp only [stopAllThreads, mapEvent, henabled, if_true, interrupt]
  split <;> rfl

theorem stopAllThreads_interrupted {cfg : Config} (s : Scheduler τ) (h : s.task = true) :
    (stopAllThreads cfg s).taskInterrupted = true := by
  have htask := (mapEvent_wakes cfg { s with stopped := true } PosixEvent.signalAll).task
  simp only [stopAllThreads, interrupt]
  split
  · rfl
  · simp_all

theorem Base.stopped {cfg : Config} (henabled : cfg.enabled = true) (h : Base s) {u : Scheduler τ}
    (hu : u.wakeupEvent = s.shared.scheduler.wakeupEvent)
    (hb : b.1.scheduler = stopAllThreads cfg u) (hcalls : b.2.calls = (s.part t).calls)
    (flag : ∀ t', ((s.set t b).part t').blockedInTask = true → u.task = true) :
    Watch (s.set t b) := by
  have hevent := stopAllThreads_event henabled u
  have hpart : b.2.waits = (s.part t).waits := waits_of_calls hcalls
  have hstopped := (stopAllThreads_wakes cfg u).stopped
  rw [← hb, hu] at hevent
  rw [← hb] at hstopped
  refine ⟨⟨?_, ?_, ?_, ?_⟩, ?_⟩
  · have total := Interleaving.total_set s (fun thr => thr.waits.toNat) t b
    have before := h.waiters
    rw [hpart] at total
    simp only [Interleaving.shared_set, hevent, PosixEvent.waiters_signalAll]
    omega
  · intro t' ht'
    simp [hevent, PosixEvent.signalAll] at ht'
  · exact Interleaving.forall_part_set (P := fun thr : Thread => ∀ c ∈ thr.calls, c.Runs) h.runs
      (hcalls ▸ h.runs t)
  · intro _
    simp only [Interleaving.shared_set, hevent]
    refine ⟨by simp, rfl, ?_⟩
    intro t' ht'
    rw [hb]
    exact stopAllThreads_interrupted u (flag t' ht')
  · intro hstop
    simp only [Interleaving.shared_set, hstopped] at hstop
    cases hstop

/-- Threads that are still about to leave a stopped scheduler find themselves running again. -/
theorem Watch.restart (h : Watch s) :
    Watch (s.set t (s.shared.put { s.shared.scheduler with stopped := false }, s.part t)) := by
  rw [Interleaving.set_part]
  refine ⟨⟨h.waiters, h.blocked, h.runs, fun hstop => by cases hstop⟩, ?_⟩
  intro _ hwork
  cases hstop : s.shared.scheduler.stopped with
  | false =>
    have covered := h.duty hstop hwork
    exact ⟨covered.waiting, covered.blocked⟩
  | true =>
    obtain ⟨hsignalled, hblocked, htask⟩ := h.halted hstop
    refine ⟨?_, fun _ => htask⟩
    rintro ⟨t', ht'⟩
    refine ⟨hsignalled, t', ht', .inl ?_⟩
    simp [World.put, hblocked]

/-- A waiter leaves `pthread_cond_wait`. -/
theorem Watch.unblock (h : Watch s) {e : PosixEvent τ}
    (hwaiters : e.waiters = s.shared.scheduler.wakeupEvent.waiters)
    (hsignalled : e.isSignalled = s.shared.scheduler.wakeupEvent.isSignalled)
    (hblocked : e.blocked ⊆ s.shared.scheduler.wakeupEvent.blocked)
    (hwoken : (∃ t, (s.part t).waits = true) → ∃ t, (s.part t).waits = true ∧ t ∉ e.blocked) :
    Watch (s.set t (s.shared.put { s.shared.scheduler with wakeupEvent := e }, s.part t)) := by
  rw [Interleaving.set_part]
  refine ⟨⟨hwaiters.trans h.waiters, fun t' ht' => h.blocked t' (hblocked ht'), h.runs, ?_⟩, ?_⟩
  · intro hstop
    obtain ⟨hbit, hnone, htask⟩ := h.halted hstop
    refine ⟨hsignalled.trans hbit, ?_, htask⟩
    exact Finset.subset_empty.1 (hnone ▸ hblocked)
  · intro hstop hwork
    have covered := h.duty hstop hwork
    refine ⟨?_, covered.blocked⟩
    intro hex
    obtain ⟨t', ht', hout⟩ := hwoken hex
    exact ⟨hsignalled.trans (covered.waiting hex).1, t', ht', .inl hout⟩

/-- A thread that does not wait takes the mutex for a pass. -/
theorem Base.pass {cfg : Config} (henabled : cfg.enabled = true) (hmany : cfg.oneThread = false)
    (h : Base s) {c : Call} {rest : List Call} (hpart : s.part t = ⟨c :: rest, .idle⟩)
    (hpc : c.pc = .again)
    (popped : Thread.waits ⟨rest, .idle⟩ = false ∧ Thread.blockedInTask ⟨rest, .idle⟩ = false)
    (hb : b = proceed s.shared c rest (doRunOne cfg t s.shared.scheduler))
    (flag : ∀ t', ((s.set t b).part t').blockedInTask = true → b.1.scheduler.task = true) :
    Watch (s.set t b) := by
  have hruns := h.runs t
  have hwaits : (s.part t).waits = false := by
    rw [hpart]
    exact waits_of_pc (by simp [hpc])
  rw [hpart] at hruns
  have moved (pc : Pc) : ∀ c' ∈ { c with pc := pc } :: rest, c'.Runs := by
    intro c' hc'
    cases hc' with
    | head => exact hruns c List.mem_cons_self
    | tail _ hmem => exact hruns c' (List.mem_cons_of_mem _ hmem)
  rcases doRunOne_cases (s := s.shared.scheduler) (t := t) henabled hmany with
    ⟨hstop, hr⟩ | ⟨hstop, hqueue, hr⟩ | ⟨hstop, hrouses, halerted, hwait, hret⟩
  · rw [hr] at hb
    subst hb
    refine ⟨h.set .rfl (popped.1.trans hwaits.symm) ?_ fun _ => ⟨id, ?_⟩, ?_⟩
    · exact fun c' hc' => hruns c' (List.mem_cons_of_mem _ hc')
    · intro hblocked
      exact absurd (hblocked.symm.trans popped.2) (by simp)
    · intro hrunning
      exact absurd (hstop.symm.trans hrunning) (by simp)
  · rw [hr] at hb
    subst hb
    have hevent : (waitForEvent cfg t s.shared.scheduler).wakeupEvent =
        s.shared.scheduler.wakeupEvent.clear.beginWait t := by
      simp only [waitForEvent, mapEvent, henabled, if_true]
    have hwakes := mapEvent_wakes cfg s.shared.scheduler fun e => e.clear.beginWait t
    refine ⟨⟨?_, ?_, ?_, ?_⟩, ?_⟩
    · have total := Interleaving.total_set s (fun thr => thr.waits.toNat) t
        (proceed s.shared c rest (waitForEvent cfg t s.shared.scheduler, .wait))
      have before := h.waiters
      simp only [hwaits, proceed, waits_cons, decide_true, Bool.toNat_false, Bool.toNat_true,
        Nat.add_zero] at total
      simp only [Interleaving.shared_set, proceed, World.scheduler_put, hevent,
        PosixEvent.waiters_beginWait, PosixEvent.waiters_clear]
      rw [total, before]
    · intro t' ht'
      simp only [Interleaving.shared_set, proceed, World.put, hevent, PosixEvent.beginWait,
        PosixEvent.clear, Finset.mem_insert] at ht'
      by_cases ht : t' = t
      · subst ht
        rw [Interleaving.part_set_self]
        simp [proceed]
      · rw [Interleaving.part_set_of_ne ht]
        exact h.blocked t' (ht'.resolve_left ht)
    · exact Interleaving.forall_part_set (P := fun thr : Thread => ∀ c ∈ thr.calls, c.Runs) h.runs
        (moved .wait)
    · intro hstop'
      exact absurd (hstop.symm.trans (hwakes.stopped.symm.trans hstop')) (by simp)
    · rintro - ⟨op, hop, -⟩
      have hempty := hwakes.opQueue.trans hqueue
      exact absurd (hempty ▸ hop : op ∈ ([] : List Operation)) (by simp)
  · have hb' : ∃ pc, pc ≠ .wait ∧ b =
        (s.shared.put (doRunOne cfg t s.shared.scheduler).1,
          ⟨{ c with pc := pc } :: rest, .idle⟩) := by
      subst hb
      revert hwait hret
      cases hnext : (doRunOne cfg t s.shared.scheduler).2 with
      | wait => exact fun hwait => absurd rfl hwait
      | ret => exact fun _ hret => absurd rfl hret
      | task usec => exact fun _ _ => ⟨.task usec, by simp, by simp only [proceed, hnext]⟩
      | execute op => exact fun _ _ => ⟨.execute op, by simp, by simp only [proceed, hnext]⟩
    obtain ⟨pc, hne, rfl⟩ := hb'
    have base : Base (s.set t (s.shared.put (doRunOne cfg t s.shared.scheduler).1,
        ⟨{ c with pc := pc } :: rest, .idle⟩)) := h.set hrouses
      ((waits_of_pc hne).trans hwaits.symm) (moved pc)
      (fun hstopped => absurd (hstop.symm.trans hstopped) (by simp))
    refine ⟨base, fun _ hwork => ?_⟩
    obtain ⟨op, hop, -⟩ := hwork
    exact (halerted (List.ne_nil_of_mem hop)).covered base flag

theorem proceed_again (w : World τ) (c : Call) (rest : List Call) (r : Scheduler τ × Next) :
    proceed w c rest r = proceed w { c with pc := .again } rest r := by
  obtain ⟨u, next⟩ := r
  cases next <;> rfl

/-- A pass after a change of the queues that wakes nobody. -/
theorem Base.passAfter {cfg : Config} (henabled : cfg.enabled = true)
    (hmany : cfg.oneThread = false) (h : Base s) {c c' : Call} {rest : List Call}
    (hpart : s.part t = ⟨c :: rest, .idle⟩) (hpc : c.pc ≠ .wait) (hentry : c'.entry = c.entry)
    (settled : (s.part t).Settled) {u : Scheduler τ} (hr : Rouses s.shared.scheduler u)
    (hint : s.shared.scheduler.taskInterrupted = true → u.taskInterrupted = true)
    {r : Scheduler τ × Next} (hpass : r = doRunOne cfg t u)
    (hb : b = proceed s.shared c' rest r)
    (flag : ∀ t', ((s.set t b).part t').blockedInTask = true → b.1.scheduler.task = true) :
    Watch (s.set t b) := by
  have hruns := h.runs t
  have hwaits : (s.part t).waits = false := by
    rw [hpart]
    exact waits_of_pc hpc
  rw [hpart] at hruns settled
  have moved : ∀ d ∈ { c' with pc := .again } :: rest, d.Runs := by
    intro d hd
    cases hd with
    | head =>
      have runs := hruns c List.mem_cons_self
      simpa only [Call.Runs, hentry] using runs
    | tail _ hmem => exact hruns d (List.mem_cons_of_mem _ hmem)
  have base : Base (s.set t (s.shared.put u, ⟨{ c' with pc := .again } :: rest, .idle⟩)) := by
    refine h.set hr ((waits_of_pc (by simp)).trans hwaits.symm) moved fun _ => ⟨hint, ?_⟩
    intro hblocked
    rw [blockedInTask_of_pc (by simp)] at hblocked
    cases hblocked
  have watch := base.pass (b := b) henabled hmany (Interleaving.part_set_self ..) rfl
    settled.idle_pop (by rw [hb, hpass, proceed_again, Interleaving.shared_set, proceed_put]; rfl)
    (by simpa only [Interleaving.set_set] using flag)
  simpa only [Interleaving.set_set] using watch

end Invariants

/-! ### Actions -/

section Actions

variable {cfg : Config} {w w' : World τ} {thr : Thread} {c c' : Call} {rest : List Call}
variable {pending pending' : Pending}

theorem Quiet.of_calls {thr' : Thread} (hr : Rouses w.scheduler w'.scheduler)
    (hint : w.scheduler.taskInterrupted = true → w'.scheduler.taskInterrupted = true)
    (hcalls : thr'.calls = thr.calls) : Quiet (w, thr) (w', thr') where
  rouses := hr
  interrupted := hint
  waits := waits_of_calls hcalls
  blocked hblocked := (blockedInTask_of_calls hcalls).symm.trans hblocked
  runs hruns := by
    dsimp only at hruns ⊢
    rw [hcalls]
    exact hruns

theorem Quiet.top (hr : Rouses w.scheduler w'.scheduler)
    (hint : w.scheduler.taskInterrupted = true → w'.scheduler.taskInterrupted = true)
    (hpc : c.pc ≠ .wait) (hpc' : c'.pc ≠ .wait) (htask : ∀ usec, c'.pc = .task usec → c'.pc = c.pc)
    (hentry : c'.entry = c.entry) :
    Quiet (w, ⟨c :: rest, pending⟩) (w', ⟨c' :: rest, pending'⟩) where
  rouses := hr
  interrupted := hint
  waits := (waits_of_pc hpc').trans (waits_of_pc hpc).symm
  blocked hblocked := by
    by_cases hsame : c'.pc = c.pc
    · simpa only [Thread.blockedInTask, Thread.pc?, List.head?_cons, Option.map_some, hsame]
        using hblocked
    · dsimp only at hblocked
      rw [blockedInTask_of_pc fun usec husec => absurd (htask usec husec) hsame] at hblocked
      cases hblocked
  runs hruns := by
    intro d hd
    cases hd with
    | head =>
      have runs := hruns c List.mem_cons_self
      simpa only [Call.Runs, hentry] using runs
    | tail _ hmem => exact hruns d (List.mem_cons_of_mem _ hmem)

theorem Quiet.leave (w w' : World τ) (hr : Rouses w.scheduler w'.scheduler)
    (hint : w.scheduler.taskInterrupted = true → w'.scheduler.taskInterrupted = true)
    (hpc : c.pc ≠ .wait) (settled : Thread.Settled ⟨c :: rest, pending⟩) (value : Option Nat) :
    Quiet (w, ⟨c :: rest, pending⟩) (leave w' c' rest value) where
  rouses := hr
  interrupted := hint
  waits := settled.idle_pop.1.trans (waits_of_pc hpc).symm
  blocked hblocked := absurd (hblocked.symm.trans settled.idle_pop.2) (by simp)
  runs hruns d hd := hruns d (List.mem_cons_of_mem _ hd)

theorem takeOuter_many (hmany : cfg.oneThread = false) (s : Scheduler τ) (entry : Entry) :
    takeOuter cfg s entry rest = (s, rest) := by
  cases rest with
  | nil => rfl
  | cons outer rest => simp [takeOuter, hmany]

theorem pass_of_runs (h : c.Runs) (t : τ) (s : Scheduler τ) :
    pass cfg t s c.entry = doRunOne cfg t s := by
  rcases h with h | h <;> rw [h] <;> rfl

theorem passAfterTask_of_runs (h : c.Runs) (t : τ) (s : Scheduler τ) :
    passAfterTask cfg t s c.entry = doRunOne cfg t s := by
  rcases h with h | h <;> rw [h] <;> rfl

/-- The actions of threads that use `run` and `run_one` only. -/
def Action.RunsOnly : Action → Prop
  | .call entry => entry = .run ∨ entry = .runOne
  | _ => True

/-- The call returns, or is left through an exception, once it has the mutex. -/
def Call.Leaves (c : Call) : Prop :=
  c.pc = .taskExit true ∨ c.pc = .workExit true ∨ c.pc = .workExit false ∧ c.entry = .runOne

/-- A call that leaves the loop has nothing to put on the queue, or a waiter or the blocked task is
already on its way. -/
def HandsOver (s : State τ) (a : τ × Action) : Prop :=
  a.2 = .taskCleanup ∨ a.2 = .workCleanup → ∀ c ∈ (s.part a.1).calls.head?, c.Leaves →
    c.privateOpQueue = [] ∨ s.shared.scheduler.stopped = true ∨ Covered s

def Watched (s : State τ) (a : τ × Action) : Prop := Legal s a ∧ a.2.RunsOnly ∧ HandsOver s a

instance [Fintype τ] (s : State τ) : Decidable (Covered s) :=
  decidable_of_iff (((∃ t, (s.part t).waits = true) → s.shared.scheduler.wakeupEvent.isSignalled = true ∧
      ∃ t, (s.part t).waits = true ∧ (t ∉ s.shared.scheduler.wakeupEvent.blocked ∨
        0 < s.shared.scheduler.wakeupEvent.signals)) ∧
    ((∀ t, (s.part t).waits = false) →
      ∀ t, (s.part t).blockedInTask = true → s.shared.scheduler.taskInterrupted = true))
    ⟨fun h => ⟨h.1, h.2⟩, fun h => ⟨h.waiting, h.blocked⟩⟩

instance (a : Action) : Decidable a.RunsOnly := by
  induction a using Action.casesOn <;> dsimp only [Action.RunsOnly] <;> infer_instance

instance (c : Call) : Decidable c.Leaves := inferInstanceAs (Decidable (_ ∨ _))

instance [Fintype τ] (s : State τ) (a : τ × Action) : Decidable (HandsOver s a) :=
  inferInstanceAs (Decidable (_ → _))

instance [Fintype τ] (s : State τ) (a : τ × Action) : Decidable (Watched s a) :=
  inferInstanceAs (Decidable (_ ∧ _))

section Steps

variable [Fintype τ] {s : State τ} {t : τ} {b : World τ × Thread}
theorem enter_watch (henabled : cfg.enabled = true) (hmany : cfg.oneThread = false) (h : Watch s)
    (settled : (s.part t).Settled)
    (flag : ∀ t', ((s.set t b).part t').blockedInTask = true → b.1.scheduler.task = true)
    (hb : Performs cfg t s.shared (s.part t) .enter b) : Watch (s.set t b) := by
  generalize hpart : s.part t = thr at hb
  cases hb with
  | @begin c rest hpc =>
    have runs := h.runs t c (by simp [hpart])
    simp only [takeOuter_many hmany] at flag ⊢
    refine h.toBase.passAfter henabled hmany hpart (by simp [hpc]) ?_ settled .rfl id
      (pass_of_runs runs ..) rfl flag
    rfl
  | @again c rest hpc =>
    have runs := h.runs t c (by simp [hpart])
    exact h.toBase.passAfter henabled hmany hpart (by simp [hpc]) rfl settled .rfl id
      (pass_of_runs runs ..) rfl flag

theorem HasWork.of_append {u u' : Scheduler τ} {ops : List Operation}
    (hu : u'.opQueue = u.opQueue ++ ops) (hwork : HasWork u') :
    HasWork u ∨ ∃ op ∈ ops, op ≠ .taskOperation := by
  obtain ⟨op, hop, hne⟩ := hwork
  rw [hu, List.mem_append] at hop
  rcases hop with hop | hop
  · exact .inl ⟨op, hop, hne⟩
  · exact .inr ⟨op, hop, hne⟩

theorem taskCleanup_watch (henabled : cfg.enabled = true) (hmany : cfg.oneThread = false)
    (h : Watch s) (settled : (s.part t).Settled)
    (flag : ∀ t', ((s.set t b).part t').blockedInTask = true → b.1.scheduler.task = true)
    (hands : HandsOver s (t, .taskCleanup))
    (hb : Performs cfg t s.shared (s.part t) .taskCleanup b) : Watch (s.set t b) := by
  have rouses (c : Call) : Rouses s.shared.scheduler { s.shared.scheduler with
      taskInterrupted := true
      opQueue := s.shared.scheduler.opQueue ++ c.privateOpQueue ++ [.taskOperation] } :=
    ⟨rfl, rfl, id, Nat.le_refl _, rfl⟩
  generalize hpart : s.part t = thr at hb
  cases hb with
  | @taskCleanup c rest hpc =>
    have runs := h.runs t c (by simp [hpart])
    refine h.toBase.passAfter henabled hmany hpart (by simp [hpc]) ?_ settled (rouses c)
      (fun _ => rfl) (passAfterTask_of_runs runs ..) rfl flag
    rfl
  | @taskThrows c rest hpc =>
    rw [hpart] at settled
    refine h.quiet ?_ flag ?_
    · rw [hpart]
      exact Quiet.leave s.shared (s.shared.put _) (rouses c) (fun _ => rfl) (by simp [hpc])
        settled _
    · intro hstop hwork
      left
      rcases HasWork.of_append (List.append_assoc ..) hwork with before | ⟨op, hop, hne⟩
      · exact h.duty hstop before
      · have private_ : c.privateOpQueue ≠ [] := by
          rintro hnil
          simp [hnil, hne] at hop
        have covered := hands (.inl rfl) c (by simp [hpart]) (.inl hpc)
        simpa [private_, hstop] using covered

/-- What `~work_cleanup` puts on the queue. -/
theorem rouses_append (u : Scheduler τ) (ops : List Operation) :
    Rouses u { u with opQueue := u.opQueue ++ ops } :=
  ⟨rfl, rfl, id, Nat.le_refl _, rfl⟩

/-- A call that leaves the loop with `~work_cleanup`. -/
theorem Watch.leaves (h : Watch s) {c c' : Call} {rest : List Call} {value : Option Nat}
    (hpart : s.part t = ⟨c :: rest, .idle⟩) (settled : (s.part t).Settled) (hnone : c.pc ≠ .wait)
    (hands : HandsOver s (t, .workCleanup)) (hleaves : c.Leaves)
    (hb : b = leave (s.shared.put { s.shared.scheduler with
      opQueue := s.shared.scheduler.opQueue ++ c.privateOpQueue }) c' rest value)
    (flag : ∀ t', ((s.set t b).part t').blockedInTask = true → b.1.scheduler.task = true) :
    Watch (s.set t b) := by
  subst hb
  rw [hpart] at settled
  refine h.quiet ?_ flag ?_
  · rw [hpart]
    exact Quiet.leave s.shared (s.shared.put _) (rouses_append _ _) id hnone settled _
  · intro hstop hwork
    left
    rcases HasWork.of_append rfl hwork with before | ⟨op, hop, -⟩
    · exact h.duty hstop before
    · have covered := hands (.inr rfl) c (by simp [hpart]) hleaves
      simpa [List.ne_nil_of_mem hop, hstop] using covered

theorem workCleanup_watch (henabled : cfg.enabled = true) (hmany : cfg.oneThread = false)
    (h : Watch s) (settled : (s.part t).Settled)
    (flag : ∀ t', ((s.set t b).part t').blockedInTask = true → b.1.scheduler.task = true)
    (hands : HandsOver s (t, .workCleanup))
    (hb : Performs cfg t s.shared (s.part t) .workCleanup b) : Watch (s.set t b) := by
  generalize hpart : s.part t = thr at hb
  cases hb with
  | workThrows hpc =>
    exact h.leaves hpart settled (by simp [hpc]) hands (.inr (.inl hpc)) rfl flag
  | @workNext c rest hpc =>
    have runs := h.runs t c (by simp [hpart])
    refine h.toBase.passAfter henabled hmany hpart (by simp [hpc]) ?_ settled
      (rouses_append _ _) id (pass_of_runs runs ..) rfl flag
    rfl
  | workAgain hpc hloop hnil =>
    refine h.silent ?_ flag ?_
    · rw [hpart]
      exact Quiet.top (rouses_append _ _) id (by simp [hpc]) (by simp) (by simp) rfl
    · intro hwork
      simpa [HasWork, World.put, hnil] using hwork
  | @workReturns c rest hpc hone =>
    refine h.leaves hpart settled (by simp [hpc]) hands (.inr (.inr ⟨hpc, ?_⟩)) rfl flag
    rcases h.runs t c (by simp [hpart]) with hrun | hentry
    · exact absurd (.inl hrun) hone
    · exact hentry

/-- A waiter that has the mutex again is not counted any more. -/
theorem Base.endWait (h : Base s) (hwaits : (s.part t).waits = true)
    (hout : t ∉ s.shared.scheduler.wakeupEvent.blocked) {thr : Thread} (hnot : thr.waits = false)
    (htask : thr.blockedInTask = false) (hruns : ∀ c ∈ thr.calls, c.Runs) :
    Base (s.set t (s.shared.put { s.shared.scheduler with
      wakeupEvent := s.shared.scheduler.wakeupEvent.endWait }, thr)) := by
  have hpos := h.waiters_pos hwaits
  refine ⟨?_, ?_, ?_, ?_⟩
  · have total := Interleaving.total_set s (fun thr => thr.waits.toNat) t
      (s.shared.put { s.shared.scheduler with
        wakeupEvent := s.shared.scheduler.wakeupEvent.endWait }, thr)
    have before := h.waiters
    simp only [hwaits, hnot, Bool.toNat_true, Bool.toNat_false] at total
    simp only [Interleaving.shared_set, World.scheduler_put, PosixEvent.waiters_endWait]
    omega
  · intro t' ht'
    have hne : t' ≠ t := by
      rintro rfl
      exact hout ht'
    rw [Interleaving.part_set_of_ne hne]
    exact h.blocked t' ht'
  · exact Interleaving.forall_part_set (P := fun thr : Thread => ∀ c ∈ thr.calls, c.Runs) h.runs
      hruns
  · intro hstop
    obtain ⟨hsignalled, hblocked, hint⟩ := h.halted hstop
    refine ⟨(PosixEvent.isSignalled_endWait _ hpos).trans hsignalled, hblocked, ?_⟩
    intro t' ht'
    by_cases ht : t' = t
    · subst ht
      rw [Interleaving.part_set_self, htask] at ht'
      cases ht'
    · rw [Interleaving.part_set_of_ne ht] at ht'
      exact hint t' ht'

/-- A waiter that finds the event not signalled goes on waiting. -/
theorem Watch.waitOn (h : Watch s) {c : Call} {rest : List Call}
    (hpart : s.part t = ⟨c :: rest, .idle⟩) (hpc : c.pc = .wait)
    (hclear : s.shared.scheduler.wakeupEvent.isSignalled = false) :
    Watch (s.set t (s.shared.put { s.shared.scheduler with
      wakeupEvent := s.shared.scheduler.wakeupEvent.endWait.beginWait t }, s.part t)) := by
  have hwaits : (s.part t).waits = true := by simp [hpart, hpc]
  have hpos := h.waiters_pos hwaits
  rw [Interleaving.set_part]
  refine ⟨⟨?_, ?_, h.runs, ?_⟩, ?_⟩
  · have before := h.waiters
    simp only [World.scheduler_put, PosixEvent.waiters_beginWait, PosixEvent.waiters_endWait]
    simp only [Interleaving.State.total] at before ⊢
    omega
  · intro t' ht'
    simp only [World.scheduler_put, PosixEvent.beginWait, PosixEvent.endWait,
      Finset.mem_insert] at ht'
    rcases ht' with rfl | ht'
    · exact hwaits
    · exact h.blocked t' ht'
  · intro hstop
    exact absurd (hclear.symm.trans (h.halted hstop).1) (by simp)
  · intro hstop hwork
    have signalled := (h.duty hstop hwork).waiting ⟨t, hwaits⟩
    exact absurd (hclear.symm.trans signalled.1) (by simp)

theorem resume_watch (henabled : cfg.enabled = true) (hmany : cfg.oneThread = false) (h : Watch s)
    {c : Call} {rest : List Call} (hpart : s.part t = ⟨c :: rest, .idle⟩) (hpc : c.pc = .wait)
    (hout : t ∉ s.shared.scheduler.wakeupEvent.blocked) (settled : (s.part t).Settled)
    (flag : ∀ t', ((s.set t b).part t').blockedInTask = true → b.1.scheduler.task = true)
    (hb : proceed s.shared c rest (passAfterWait cfg t s.shared.scheduler c.entry) = b) :
    Watch (s.set t b) := by
  have runs := h.runs t c (by simp [hpart])
  have hruns := h.runs t
  have hwaits : (s.part t).waits = true := by simp [hpart, hpc]
  have hsame := PosixEvent.isSignalled_endWait s.shared.scheduler.wakeupEvent (h.waiters_pos hwaits)
  have hpass : passAfterWait cfg t s.shared.scheduler c.entry =
      if s.shared.scheduler.wakeupEvent.isSignalled then
        doRunOne cfg t { s.shared.scheduler with
          wakeupEvent := s.shared.scheduler.wakeupEvent.endWait }
      else ({ s.shared.scheduler with
        wakeupEvent := s.shared.scheduler.wakeupEvent.endWait.beginWait t }, .wait) := by
    rcases runs with hentry | hentry <;>
      simp only [hentry, passAfterWait, mapEvent, henabled, if_true, Bool.not_true, Bool.false_or,
        hsame]
  rw [hpass] at hb
  rw [hpart] at settled hruns
  split at hb
  · have base : Base (s.set t (s.shared.put { s.shared.scheduler with
        wakeupEvent := s.shared.scheduler.wakeupEvent.endWait },
        ⟨{ c with pc := .again } :: rest, .idle⟩)) := by
      refine h.toBase.endWait hwaits hout (waits_of_pc (by simp)) (blockedInTask_of_pc (by simp)) ?_
      intro d hd
      cases hd with
      | head => exact runs
      | tail _ hmem => exact hruns d (List.mem_cons_of_mem _ hmem)
    have watch := base.pass (b := b) henabled hmany (Interleaving.part_set_self ..) rfl
      settled.idle_pop (by rw [← hb, proceed_again, Interleaving.shared_set, proceed_put]; rfl)
      (by simpa only [Interleaving.set_set] using flag)
    simpa only [Interleaving.set_set] using watch
  · rename_i hclear
    have watch := h.waitOn hpart hpc (by simpa using hclear)
    have hsamePart : ⟨{ c with pc := .wait } :: rest, .idle⟩ = s.part t := by
      rw [hpart, ← hpc]
    rw [← hb]
    simp only [proceed, hsamePart]
    exact watch

/-- The scheduler changes in its count of work at most, or begins to shut down, and the thread in
what is pending. -/
theorem Watch.pend (h : Watch s) {o : Int} {d : Bool}
    (hwork : b.1.scheduler = { s.shared.scheduler with outstandingWork := o, shutdown := d })
    (hcalls : b.2.calls = (s.part t).calls)
    (flag : ∀ t', ((s.set t b).part t').blockedInTask = true → b.1.scheduler.task = true) :
    Watch (s.set t b) := by
  obtain ⟨w, thr⟩ := b
  dsimp only at hwork hcalls
  have rouses : Rouses s.shared.scheduler w.scheduler := by
    rw [hwork]
    exact ⟨rfl, rfl, id, Nat.le_refl _, rfl⟩
  refine h.silent (Quiet.of_calls rouses ?_ hcalls) flag ?_
  · rw [hwork]
    exact id
  · dsimp only
    rw [hwork]
    exact id

/-- Likewise, when the innermost call moves on. -/
theorem Watch.advance (h : Watch s) {o : Int} {c c' : Call} {rest : List Call}
    {pending pending' : Pending} (hpart : s.part t = ⟨c :: rest, pending⟩)
    (hwork : b.1.scheduler = { s.shared.scheduler with outstandingWork := o })
    (hthr : b.2 = ⟨c' :: rest, pending'⟩) (hpc : c.pc ≠ .wait) (hpc' : c'.pc ≠ .wait)
    (htask : ∀ usec, c'.pc = .task usec → c'.pc = c.pc) (hentry : c'.entry = c.entry)
    (flag : ∀ t', ((s.set t b).part t').blockedInTask = true → b.1.scheduler.task = true) :
    Watch (s.set t b) := by
  obtain ⟨w, thr⟩ := b
  dsimp only at hwork hthr
  subst hthr
  have rouses : Rouses s.shared.scheduler w.scheduler := by
    rw [hwork]
    exact ⟨rfl, rfl, id, Nat.le_refl _, rfl⟩
  refine h.silent ?_ flag ?_
  · rw [hpart]
    refine Quiet.top rouses ?_ hpc hpc' htask hentry
    rw [hwork]
    exact id
  · dsimp only
    rw [hwork]
    exact id

/-- Operations are queued and a thread is woken for them. -/
theorem Watch.alert (henabled : cfg.enabled = true) (h : Watch s) {u : Scheduler τ}
    (hu : Rouses s.shared.scheduler u)
    (hint : s.shared.scheduler.taskInterrupted = true → u.taskInterrupted = true)
    (hb : b.1.scheduler = wakeOneThreadAndUnlock cfg u) (hcalls : b.2.calls = (s.part t).calls)
    (flag : ∀ t', ((s.set t b).part t').blockedInTask = true → b.1.scheduler.task = true) :
    Watch (s.set t b) := by
  obtain ⟨w, thr⟩ := b
  dsimp only at hb hcalls
  have rouses : Rouses s.shared.scheduler w.scheduler := by
    rw [hb]
    exact hu.trans (wakeOneThreadAndUnlock_rouses henabled)
  refine h.quiet (Quiet.of_calls rouses ?_ hcalls) flag fun _ _ => .inr ?_
  · rw [hb]
    exact fun hi => wakeOneThreadAndUnlock_interrupted (hint hi)
  · dsimp only
    rw [hb]
    exact wakeOneThreadAndUnlock_alerted henabled

theorem lock_watch (henabled : cfg.enabled = true) (h : Watch s)
    (flag : ∀ t', ((s.set t b).part t').blockedInTask = true → b.1.scheduler.task = true)
    (hb : Performs cfg t s.shared (s.part t) .lock b) : Watch (s.set t b) := by
  generalize hpart : s.part t = thr at hb
  cases hb with
  | @lockPush calls ids =>
    have calls_ : calls = (s.part t).calls := by rw [hpart]
    exact h.alert henabled (rouses_append _ (ids.map .handler)) id rfl calls_ flag
  | lockStop =>
    refine h.toBase.stopped henabled rfl rfl (by rw [hpart]) fun t' ht' => ?_
    exact (stopAllThreads_wakes cfg _).task.symm.trans (flag t' ht')

/-- A call begins. -/
theorem Watch.push (h : Watch s) {entry : Entry} (free : (s.part t).Free)
    (only : (Action.call entry).RunsOnly)
    (flag : ∀ t', ((s.set t (s.shared, { s.part t with
      calls := Call.construct entry :: (s.part t).calls })).part t').blockedInTask = true →
        s.shared.scheduler.task = true) :
    Watch (s.set t (s.shared, { s.part t with
      calls := Call.construct entry :: (s.part t).calls })) := by
  have idle := idle_of_handling free.2
  refine h.silent ⟨.rfl, id, ?_, ?_, ?_⟩ flag id
  · exact (waits_of_pc (by simp [Call.construct])).trans idle.1.symm
  · intro hblocked
    dsimp only at hblocked
    rw [blockedInTask_of_pc (by simp [Call.construct])] at hblocked
    cases hblocked
  · intro hruns c hc
    cases hc with
    | head => exact only
    | tail _ hmem => exact hruns c hmem

theorem initTask_watch (henabled : cfg.enabled = true) (h : Watch s)
    (hb : (s.shared.put (addTask cfg s.shared.scheduler), s.part t) = b)
    (flag : ∀ t', ((s.set t b).part t').blockedInTask = true → b.1.scheduler.task = true) :
    Watch (s.set t b) := by
  subst hb
  by_cases hnew : (!s.shared.scheduler.shutdown && !s.shared.scheduler.task) = true
  · have added : Rouses s.shared.scheduler { s.shared.scheduler with
        task := true, opQueue := s.shared.scheduler.opQueue ++ [.taskOperation] } :=
      ⟨rfl, rfl, id, Nat.le_refl _, rfl⟩
    refine h.alert henabled added id ?_ rfl flag
    simp only [addTask, if_pos hnew, World.scheduler_put]
  · have same : addTask cfg s.shared.scheduler = s.shared.scheduler := by
      simp only [addTask, if_neg hnew]
    exact h.pend same rfl flag

theorem shutdown_watch (henabled : cfg.enabled = true) (h : Watch s)
    (hb : (s.shared.put (beginShutdown cfg s.shared.scheduler), s.part t) = b)
    (flag : ∀ t', ((s.set t b).part t').blockedInTask = true → b.1.scheduler.task = true) :
    Watch (s.set t b) := by
  subst hb
  by_cases hown : cfg.ownThread = true
  · have stops : beginShutdown cfg s.shared.scheduler =
        stopAllThreads cfg { s.shared.scheduler with shutdown := true } := by
      simp only [beginShutdown, if_pos hown]
    refine h.toBase.stopped (u := { s.shared.scheduler with shutdown := true }) henabled rfl
      stops rfl fun t' ht' => ?_
    have task := flag t' ht'
    rw [World.scheduler_put, stops, (stopAllThreads_wakes ..).task] at task
    exact task
  · have same : beginShutdown cfg s.shared.scheduler =
        { s.shared.scheduler with shutdown := true } := by
      simp only [beginShutdown, if_neg hown]
    exact h.pend same rfl flag

theorem perform_watch (henabled : cfg.enabled = true) (hmany : cfg.oneThread = false)
    (h : Watch s) (settled : (s.part t).Settled)
    (flag : ∀ t', ((s.set t b).part t').blockedInTask = true → b.1.scheduler.task = true)
    {a : Action} (only : a.RunsOnly) (hands : HandsOver s (t, a))
    (hb : perform cfg t s.shared (s.part t) a = some b) : Watch (s.set t b) := by
  have performs := perform_performs hb
  generalize hpart : s.part t = thr at performs
  cases performs with
  | callIdle => exact h.silent (Quiet.of_calls .rfl id (by rw [hpart])) flag id
  | call free =>
    subst hpart
    exact h.push free only flag
  | begin | again => exact enter_watch henabled hmany h settled flag (perform_performs hb)
  | wake hin =>
    subst hpart
    refine h.unblock rfl rfl (Finset.erase_subset ..) fun _ => ⟨t, h.blocked t hin, ?_⟩
    simp [PosixEvent.wake]
  | signal hin =>
    subst hpart
    refine h.unblock rfl rfl (Finset.erase_subset ..) fun _ => ⟨t, h.blocked t hin, ?_⟩
    simp [PosixEvent.signal]
  | signalNobody hnone =>
    subst hpart
    refine h.unblock rfl rfl (Finset.Subset.refl _) fun hsome => ?_
    obtain ⟨t', ht'⟩ := hsome
    refine ⟨t', ht', ?_⟩
    simp [PosixEvent.signalNobody, hnone]
  | resume hpc hout => exact resume_watch henabled hmany h hpart hpc hout settled flag rfl
  | pushDescriptor hpc | pushHandler hpc =>
    exact h.advance hpart rfl rfl (by simp [hpc]) (by simp [hpc]) (fun _ _ => rfl) rfl flag
  | taskReturn hpc | adopt hpc | compensate hpc | complete hpc | completeNothing hpc =>
    exact h.advance hpart rfl rfl (by simp [hpc]) (by simp) (by simp) rfl flag
  | taskThrows | taskCleanup =>
    exact taskCleanup_watch henabled hmany h settled flag hands (perform_performs hb)
  | workThrows | workNext | workAgain | workReturns =>
    exact workCleanup_watch henabled hmany h settled flag hands (perform_performs hb)
  | postPrivate hhandling =>
    obtain ⟨id, hpc⟩ := hhandling.eq_execute
    exact h.advance hpart rfl rfl (by simp [hpc]) (by simp [hpc]) (fun _ _ => rfl) rfl flag
  | deferPrivate _ _ hone => simp [hmany] at hone
  | start | postShared | deferShared | doDispatch | workStarted | workFinished =>
    exact h.pend rfl (by rw [hpart]) flag
  | lockPush | lockStop => exact lock_watch henabled h flag (perform_performs hb)
  | stop =>
    refine h.toBase.stopped henabled rfl rfl (by rw [hpart]) fun t' ht' => ?_
    exact (stopAllThreads_wakes cfg _).task.symm.trans (flag t' ht')
  | restart =>
    subst hpart
    exact h.restart
  | initTask =>
    subst hpart
    exact initTask_watch henabled h rfl flag
  | shutdown =>
    subst hpart
    exact shutdown_watch henabled h rfl flag
  | drain =>
    refine h.silent (Quiet.of_calls ⟨rfl, rfl, id, Nat.le_refl _, rfl⟩ id (by rw [hpart])) flag ?_
    rintro ⟨op, hop, -⟩
    simp at hop

/-- A thread that is blocked in the task holds its marker. -/
theorem Sound.task_of_blocked (h : Sound s) (ht : (s.part t).blockedInTask = true) :
    s.shared.scheduler.task = true := by
  have marker := h.marker
  have le := Interleaving.total_le s (fun thr => thr.calls.countP fun c => c.pc.runsTask) t
  have runs : 0 < (s.part t).calls.countP fun c => c.pc.runsTask := by
    rw [List.countP_pos_iff]
    simp only [Thread.blockedInTask, Thread.pc?] at ht
    split at ht
    · rename_i usec hpc
      obtain ⟨c, hc, heq⟩ := Option.map_eq_some_iff.1 hpc
      exact ⟨c, List.mem_of_mem_head? hc, by rw [heq, Pc.runsTask]⟩
    · cases ht
  by_contra hnot
  rw [if_neg hnot] at marker
  omega

theorem initial_watch : Watch (initial cfg : State τ) where
  waiters := by simp [initial, construct, PosixEvent.construct, PosixEvent.waiters,
    Interleaving.State.total, Thread.construct, Thread.waits, Thread.pc?]
  blocked := by simp [initial, construct, PosixEvent.construct]
  runs := by simp [initial, Thread.construct]
  halted := by simp [initial, construct]
  duty := by simp [initial, construct, HasWork]

theorem step_watch (henabled : cfg.enabled = true) (hmany : cfg.oneThread = false) (sound : Sound s)
    (h : Watch s) {a : τ × Action} (ok : Watched s a) {s' : State τ}
    (hs : step cfg s a = some s') : Watch s' := by
  have sound' := step_sound sound ok.1 hs
  obtain ⟨w, thr, hb, rfl⟩ := Interleaving.step_eq_some.1 hs
  exact perform_watch henabled hmany h (sound.settled _) (fun t' => sound'.task_of_blocked)
    ok.2.1 ok.2.2 hb

theorem Watch.noLostWakeup (h : Watch s) : NoLostWakeup s where
  queued hstop hwork := by
    have covered := h.duty hstop hwork
    by_cases hwaiting : ∃ t, (s.part t).waits = true
    · exact .inr (.inl (covered.waiting hwaiting))
    · have hnone (t : τ) : (s.part t).waits = false := by
        simpa using fun ht => hwaiting ⟨t, ht⟩
      by_cases hblocked : ∃ t, (s.part t).blockedInTask = true
      · obtain ⟨t, ht⟩ := hblocked
        exact .inr (.inr (.inl ⟨t, ht, covered.blocked hnone t ht⟩))
      · by_cases hany : ∃ t, (s.part t).calls ≠ []
        · obtain ⟨t, ht⟩ := hany
          exact .inl ⟨t, ht, hnone t, by simpa using fun hb => hblocked ⟨t, hb⟩⟩
        · exact .inr (.inr (.inr fun t => by simpa using fun ht => hany ⟨t, ht⟩))
  stopped hstop t := by
    obtain ⟨hsignalled, hblocked, hint⟩ := h.halted hstop
    exact ⟨fun _ => ⟨hsignalled, by simp [hblocked]⟩, hint t⟩

theorem no_lost_wakeup (henabled : cfg.enabled = true) (hmany : cfg.oneThread = false)
    (h : Reachable (step cfg) Watched (initial cfg) s) : NoLostWakeup s := by
  have sound {s : State τ} (h : Reachable (step cfg) Watched (initial cfg) s) : Sound s :=
    reachable_sound (h.mono fun _ _ ok => ok.1)
  have watch := h.invariant_with sound initial_watch fun sound watch ok hs =>
    step_watch henabled hmany sound watch ok hs
  exact watch.noLostWakeup

instance (s : State τ) : Decidable (Signalled s) := inferInstanceAs (Decidable (_ ∧ _))

instance (s : State τ) : Decidable (Attended s) := inferInstanceAs (Decidable (_ ∨ _ ∨ _ ∨ _))

instance (s : State τ) : Decidable (NoLostWakeup s) :=
  decidable_of_iff ((s.shared.scheduler.stopped = false → HasWork s.shared.scheduler →
      Attended s) ∧
    (s.shared.scheduler.stopped = true → ∀ t,
      ((s.part t).waits = true → s.shared.scheduler.wakeupEvent.isSignalled = true ∧
        t ∉ s.shared.scheduler.wakeupEvent.blocked) ∧
      ((s.part t).blockedInTask = true → s.shared.scheduler.taskInterrupted = true)))
    ⟨fun h => ⟨h.1, h.2⟩, fun h => ⟨h.queued, h.stopped⟩⟩

/-- A handler hands work to the scheduler while another thread waits. -/
def wakingRun : List (Fin 2 × Action) :=
  [(0, .postImmediate [0] false), (0, .lock), (1, .call .run), (1, .enter), (0, .call .run),
    (0, .enter), (1, .doDispatch 1), (1, .lock)]

theorem wakingRun_reaches : (exec (guarded (step threaded) Watched) (initial threaded)
    wakingRun).map (·.shared.scheduler.opQueue) = some [.handler 1] := by
  decide +kernel

theorem no_lost_wakeup_waking :
    ∃ s : State (Fin 2), s.shared.scheduler.opQueue = [.handler 1] ∧ NoLostWakeup s := by
  obtain ⟨s, hs, hqueue⟩ := Option.map_eq_some_iff.1 wakingRun_reaches
  exact ⟨s, hqueue, no_lost_wakeup rfl rfl (exec_guarded_reachable hs)⟩

/-- One thread is blocked in the task; a handler that another thread runs with `run_one` posts a
continuation. -/
def strandingRun : List (Fin 2 × Action) :=
  [(0, .postImmediate [0] false), (0, .lock), (0, .initTask), (1, .call .runOne), (1, .enter),
    (0, .call .run), (0, .enter), (1, .postImmediate [1] true), (1, .complete false),
    (1, .workCleanup)]

theorem run_one_strands_continuation : ∃ s : State (Fin 2),
    Reachable (step threaded) (fun s a => Legal s a ∧ a.2.RunsOnly) (initial threaded) s ∧
      ¬NoLostWakeup s := by
  have stranded : (exec (guarded (step threaded) fun s a => Legal s a ∧ a.2.RunsOnly)
      (initial threaded) strandingRun).any (fun s : State (Fin 2) => !NoLostWakeup s) = true := by
    decide +kernel
  obtain ⟨s, hs, hlost⟩ := (Option.any_eq_true ..).1 stranded
  exact ⟨s, exec_guarded_reachable hs, by simpa using hlost⟩

end Steps

end Actions


end Asio.Detail.Scheduler
