import Asio.Detail.SchedulerLedger

/-! The count of outstanding work, and when it stops the scheduler. -/

universe u

namespace Asio.Detail.Scheduler

open Asio.Lib Asio.Lib.Transition

set_option linter.unusedSectionVars false

variable {τ : Type u} [DecidableEq τ]

def Operation.isHandler (op : Operation) : Bool := op.id?.isSome

/-- No thread calls the scheduler from inside a handler to run it, and it is not destroyed. -/
def Single (s : State τ) (a : τ × Action) : Prop :=
  match a.2 with
  | .call _ => (s.part a.1).calls = []
  | .drain => False
  | _ => True

instance (s : State τ) (a : τ × Action) : Decidable (Single s a) := by
  obtain ⟨t, act⟩ := a
  induction act using Action.casesOn <;> dsimp only [Single] <;> infer_instance

/-- The credit of a call that executes a handler stands for operations on its private queue. -/
structure Backed (thr : Thread) : Prop where
  single : thr.calls.length ≤ 1
  credit : ∀ c ∈ thr.calls, c.pc.Handling →
    c.privateOutstandingWork ≤ c.privateOpQueue.countP Operation.isHandler

/-! ### Threads with one call -/

section Threads

variable {cfg : Config} {t : τ} {w : World τ} {thr : Thread} {c : Call} {rest : List Call}
variable {b : World τ × Thread} {pending pending' : Pending}

theorem Backed.rest_nil (h : Backed ⟨c :: rest, pending⟩) : rest = [] := by
  have single := h.single
  simp only [List.length_cons] at single
  exact List.length_eq_zero_iff.1 (by omega)

theorem Backed.none : Backed ⟨[], pending⟩ := ⟨by simp, by simp⟩

theorem Backed.one (h : c.pc.Handling →
    c.privateOutstandingWork ≤ c.privateOpQueue.countP Operation.isHandler) :
    Backed ⟨[c], pending⟩ := ⟨by simp, by simpa using h⟩

theorem Backed.top (h : Backed ⟨c :: rest, pending⟩) {c' : Call} (hc : c'.pc.Handling →
    c'.privateOutstandingWork ≤ c'.privateOpQueue.countP Operation.isHandler) :
    Backed ⟨c' :: rest, pending'⟩ := by
  rw [h.rest_nil]
  exact .one hc

theorem Backed.pop (h : Backed ⟨c :: rest, pending⟩) : Backed ⟨rest, pending'⟩ := by
  rw [h.rest_nil]
  exact .none

/-- What is pending has nothing to do with it. -/
theorem Backed.pend {calls : List Call} (h : Backed ⟨calls, pending⟩) :
    Backed ⟨calls, pending'⟩ :=
  ⟨h.single, h.credit⟩

theorem proceed_backed (hrest : rest = []) (hp : c.privateOutstandingWork = 0)
    (r : Scheduler τ × Next) : Backed (proceed w c rest r).2 := by
  obtain ⟨s, next⟩ := r
  subst hrest
  have hzero (pc : Pc) : Backed ⟨[{ c with pc := pc }], .idle⟩ := by
    apply Backed.one
    intro _
    simp [hp]
  cases next with
  | wait => exact hzero _
  | task usec => exact hzero _
  | execute op => exact hzero _
  | ret => exact .none

theorem credit_settled (h : thr.Settled) (hc : c ∈ thr.calls)
    (hpc : c.pc = .begin ∨ c.pc = .again ∨ c.pc = .wait) : c.privateOutstandingWork = 0 :=
  (resting_allows hpc (h.calls c hc).allowed).2

theorem perform_backed {a : Action} (settled : thr.Settled) (h : Backed thr)
    (single : ∀ entry, a = .call entry → thr.calls = []) (ha : a ≠ .drain)
    (hb : perform cfg t w thr a = some b) : Backed b.2 := by
  cases perform_performs hb with
  | callIdle => exact h.pend
  | call =>
    simp only [single _ rfl]
    exact .one fun hpc => hpc.elim
  | begin hpc =>
    obtain rfl := h.rest_nil
    have hp := credit_settled settled List.mem_cons_self (.inl hpc)
    refine proceed_backed rfl ?_ _
    exact hp
  | again hpc =>
    have hp := credit_settled settled List.mem_cons_self (.inr (.inl hpc))
    exact proceed_backed h.rest_nil hp _
  | resume hpc =>
    have hp := credit_settled settled List.mem_cons_self (.inr (.inr hpc))
    exact proceed_backed h.rest_nil hp _
  | pushDescriptor hpc | pushHandler hpc =>
    exact h.top fun hhandling => by simp [hpc, Pc.Handling] at hhandling
  | taskReturn => exact h.top fun hhandling => hhandling.elim
  | taskThrows => exact h.pop
  | taskCleanup hpc =>
    refine proceed_backed h.rest_nil ?_ _
    exact (settled.calls _ List.mem_cons_self).at hpc
  | @adopt c _ _ hpc =>
    have hp : c.privateOutstandingWork = 0 := (settled.calls c List.mem_cons_self).at hpc
    apply h.top
    intro _
    simp [hp]
  | compensate | complete | completeNothing => exact h.top fun hhandling => hhandling.elim
  | workThrows => exact h.pop
  | workNext hpc =>
    refine proceed_backed h.rest_nil ?_ _
    exact (settled.calls _ List.mem_cons_self).at hpc
  | workAgain => exact h.top fun hhandling => hhandling.elim
  | workReturns => exact h.pop
  | @postPrivate c _ ids =>
    apply h.top
    intro hhandling
    have credit := h.credit c List.mem_cons_self hhandling
    have hids : (ids.map Operation.handler).countP Operation.isHandler = ids.length := by
      rw [List.countP_map]
      exact congrFun List.countP_true ids
    simp only [List.countP_append, hids, Nat.cast_add]
    omega
  | @deferPrivate c =>
    apply h.top
    intro hhandling
    have credit := h.credit c List.mem_cons_self hhandling
    simp only [List.countP_append, Nat.cast_add]
    omega
  | postShared | deferShared | doDispatch | lockPush | lockStop | workFinished => exact h.pend
  | wake | signal | signalNobody | start | workStarted | stop | restart | initTask | shutdown =>
    exact h
  | drain => exact absurd rfl ha

end Threads

/-! ### Runs -/

section Runs

variable [Fintype τ] {cfg : Config} {s s' : State τ} {a : τ × Action}

/-- The operations that have been started and are not finished: not yet handed over, on their way
to the queue, queued, or executing. -/
def unfinished (s : State τ) : Nat :=
  s.shared.started.length + (s.total fun thr => thr.pending.ids.length) +
    s.shared.scheduler.opQueue.countP Operation.isHandler +
    s.total fun thr => thr.held.countP Operation.isHandler

theorem Sound.accounting (h : Sound s) :
    s.shared.scheduler.outstandingWork + s.total Thread.credit =
      s.shared.guards + unfinished s + s.shared.destroyed.length := by
  have all : Operation.isHandler ∘ .handler = fun _ => true := rfl
  have held := h.held Operation.isHandler rfl
  have issued := h.issued fun _ => true
  have credit := h.credit
  simp only [World.assets, World.dues, all, List.countP_true] at held issued
  have marker : (bif s.shared.scheduler.task then
      [Operation.taskOperation].countP Operation.isHandler else 0) = 0 := by
    cases s.shared.scheduler.task <;> rfl
  simp only [World.balance] at credit
  simp only [unfinished]
  omega

theorem Thread.Settled.credit_le {thr : Thread} (settled : thr.Settled) (h : Backed thr) :
    thr.credit ≤ thr.held.countP Operation.isHandler ∧
      (thr.credit = thr.held.countP Operation.isHandler →
        thr.held.countP Operation.isHandler = 0) := by
  obtain ⟨calls, pending⟩ := thr
  cases calls with
  | nil => simp [Thread.credit, Thread.held]
  | cons c rest =>
    obtain rfl := h.rest_nil
    have hc := h.credit c List.mem_cons_self
    simp only [Thread.credit_cons, Thread.held_cons, Call.credit, Call.held]
    by_cases hpc : c.pc.Handling
    · obtain ⟨id, heq⟩ := hpc.eq_execute
      have hle := hc hpc
      simp [heq, Pc.held, Thread.credit, Thread.held, Operation.isHandler, Operation.id?,
        List.countP_cons] at hle ⊢
      omega
    · simp only [hpc, if_false, Thread.credit, Thread.held, List.map_nil, List.sum_nil]
      omega

theorem Thread.Settled.credit_nonneg {thr : Thread} (settled : thr.Settled) : 0 ≤ thr.credit := by
  apply List.sum_nonneg
  intro p hp
  obtain ⟨c, hc, rfl⟩ := List.mem_map.1 hp
  rw [Call.credit]
  split
  · rename_i hpc
    obtain ⟨id, heq⟩ := hpc.eq_execute
    exact (settled.calls c hc).at heq
  · exact Int.le_refl 0

structure Accounted (s : State τ) : Prop extends Sound s where
  backed : ∀ t, Backed (s.part t)
  kept : s.shared.destroyed = []

theorem initial_accounted : Accounted (initial cfg : State τ) where
  toSound := initial_sound
  backed _ := .none
  kept := rfl

theorem step_accounted (h : Accounted s) (single : Single s a) (hs : step cfg s a = some s') :
    Accounted s' := by
  obtain ⟨w, thr, hb, rfl⟩ := Interleaving.step_eq_some.1 hs
  obtain ⟨t, act⟩ := a
  have hdrain : act ≠ .drain := by
    rintro rfl
    exact single
  have hcall (entry : Entry) (hact : act = .call entry) : (s.part t).calls = [] := by
    subst hact
    exact single
  have accounts := perform_accounts hdrain (h.settled _) hb
  have backed := perform_backed (h.settled _) (h.backed _) hcall hdrain hb
  exact ⟨h.toSound.set accounts, Interleaving.forall_part_set h.backed backed,
    accounts.destroyed.trans h.kept⟩

theorem Accounted.accounting (h : Accounted s) :
    s.shared.scheduler.outstandingWork + s.total Thread.credit =
      s.shared.guards + unfinished s := by
  have accounting := h.toSound.accounting
  simp only [h.kept, List.length_nil] at accounting
  omega

/-- The shared count alone says whether anything is left to do. -/
theorem Accounted.outstandingWork_eq_zero (h : Accounted s) :
    s.shared.scheduler.outstandingWork = 0 ↔ s.shared.guards = 0 ∧ unfinished s = 0 := by
  have accounting := h.accounting
  have bound (t : τ) := (h.settled t).credit_le (h.backed t)
  have cast : ((s.total fun thr => thr.held.countP Operation.isHandler : Nat) : Int) =
      s.total fun thr => (thr.held.countP Operation.isHandler : Int) := Nat.cast_sum ..
  have le : s.total Thread.credit ≤ s.total fun thr => (thr.held.countP Operation.isHandler : Int) :=
    Finset.sum_le_sum fun t _ => (bound t).1
  constructor
  · intro hzero
    have heq : s.total Thread.credit =
        s.total fun thr => (thr.held.countP Operation.isHandler : Int) := by
      simp only [unfinished] at accounting
      omega
    have each := (Finset.sum_eq_sum_iff_of_le fun t _ => (bound t).1).1 heq
    have none : (s.total fun thr => thr.held.countP Operation.isHandler) = 0 := by
      rw [Interleaving.total_eq_zero]
      intro t
      exact (bound t).2 (each t (Finset.mem_univ t))
    simp only [none, Nat.cast_zero] at cast
    omega
  · rintro ⟨hguards, hnone⟩
    have none : (s.total fun thr => thr.held.countP Operation.isHandler) = 0 := by
      simp only [unfinished] at hnone
      omega
    have each (t : τ) : (s.part t).credit = 0 := by
      have held := (Interleaving.total_eq_zero s _).1 none t
      have nonneg := (h.settled t).credit_nonneg
      have le := (bound t).1
      omega
    have credit : s.total Thread.credit = 0 := Finset.sum_eq_zero fun t _ => each t
    omega

theorem reachable_accounted (h : Reachable (step cfg) Single (initial cfg) s) : Accounted s :=
  h.invariant initial_accounted fun hs single hstep => step_accounted hs single hstep

/-- The actions that call `work_finished`, or would if they had no credit for it. -/
def Action.MayFinish : Action → Prop
  | .workFinished | .complete _ => True
  | _ => False

/-- The action ends one of the things that are counted. -/
def Thread.Finishes (thr : Thread) : Action → Prop
  | .workFinished => True
  | .complete _ => ∃ c ∈ thr.calls.head?, c.pc.Handling
  | _ => False

theorem single_of_mayFinish (h : a.2.MayFinish) : Single s a := by
  obtain ⟨t, act⟩ := a
  cases act with
  | workFinished | complete => trivial
  | _ => exact h.elim

/-- An operation on the private queue of a thread is not finished. -/
theorem unfinished_ne_zero {t : τ} (h : (s.part t).held.countP Operation.isHandler ≠ 0) :
    unfinished s ≠ 0 := by
  have le := Interleaving.total_le s (fun thr => thr.held.countP Operation.isHandler) t
  simp only [unfinished]
  omega

theorem complete_stops {t : τ} {b : World τ × Thread} {thrown : Bool} (h : Accounted s)
    (hb : Performs cfg t s.shared (s.part t) (.complete thrown) b)
    (h' : Accounted (s.set t b)) :
    (b.2.pending = .stop → b.1.guards = 0 ∧ unfinished (s.set t b) = 0) ∧
      ((s.part t).Finishes (.complete thrown) →
        b.1.guards = 0 ∧ unfinished (s.set t b) = 0 → b.2.pending = .stop) := by
  have zero := h'.outstandingWork_eq_zero
  have backed := h.backed t
  have settled := h.settled t
  generalize s.part t = thr at hb backed settled ⊢
  cases hb with
  | @complete c rest id _ hpc =>
    simp only [Interleaving.shared_set] at zero
    constructor
    · intro hstop
      exact zero.1 ((finish_eq_stop _).1 hstop).2
    · intro _ hnone
      refine (finish_eq_stop _).2 ⟨?_, zero.2 hnone⟩
      by_contra hcredit
      have credit := backed.credit c List.mem_cons_self (by simp [hpc, Pc.Handling])
      refine unfinished_ne_zero (t := t) ?_ hnone.2
      rw [Interleaving.part_set_self]
      simp only [settle, Thread.held_cons, Call.held, List.countP_append]
      omega
  | @completeNothing c rest _ hpc =>
    have hp : c.privateOutstandingWork = 1 := (settled.calls c List.mem_cons_self).at hpc
    constructor
    · intro hstop
      simp [settle, hp] at hstop
    · intro hfinishes
      simp [Thread.Finishes, hpc, Pc.Handling] at hfinishes

theorem workFinished_stops {t : τ} {b : World τ × Thread}
    (hb : Performs cfg t s.shared (s.part t) .workFinished b) (h' : Accounted (s.set t b)) :
    b.2.pending = .stop ↔ b.1.guards = 0 ∧ unfinished (s.set t b) = 0 := by
  have zero := h'.outstandingWork_eq_zero
  generalize s.part t = thr at hb
  cases hb
  simp only [Interleaving.shared_set] at zero
  rw [← zero, finish_eq_stop]

theorem work_accounting (h : Reachable (step cfg) Single (initial cfg) s) :
    s.shared.scheduler.outstandingWork + s.total Thread.credit =
      s.shared.guards + unfinished s ∧
    ∀ a s', a.2.MayFinish → step cfg s a = some s' →
      ((s'.part a.1).pending = .stop → s'.shared.guards = 0 ∧ unfinished s' = 0) ∧
      ((s.part a.1).Finishes a.2 → s'.shared.guards = 0 ∧ unfinished s' = 0 →
        (s'.part a.1).pending = .stop) := by
  have accounted := reachable_accounted h
  refine ⟨accounted.accounting, ?_⟩
  intro a s' may hs
  have accounted' := step_accounted accounted (single_of_mayFinish may) hs
  obtain ⟨w, thr, hb, rfl⟩ := Interleaving.step_eq_some.1 hs
  obtain ⟨t, act⟩ := a
  rw [Interleaving.part_set_self]
  cases act with
  | workFinished =>
    have stops := workFinished_stops (perform_performs hb) accounted'
    exact ⟨stops.1, fun _ => stops.2⟩
  | complete thrown => exact complete_stops accounted (perform_performs hb) accounted'
  | _ => exact may.elim

/-- A handler posts two continuations, which only its own call knows of. -/
def creditRun : List (Fin 2 × Action) :=
  [(0, .postImmediate [0] false), (0, .lock), (1, .call .run), (1, .enter),
    (1, .postImmediate [1, 2] true)]

def creditEnd : World (Fin 2) where
  scheduler := {
    wakeupEvent := { state := 1, blocked := ∅, signals := 0 }
    task := false
    taskInterrupted := true
    outstandingWork := 1
    opQueue := []
    stopped := false
    shutdown := false }
  guards := 0
  issued := [0, 1, 2]
  started := []
  posted := [0, 1, 2]
  completed := []
  destroyed := []
  returned := []

theorem creditRun_reaches : (exec (guarded (step threaded) Single) (initial threaded)
    creditRun).map (·.shared) = some creditEnd := by
  decide +kernel

theorem work_accounting_credit :
    ∃ s : State (Fin 2), s.shared = creditEnd ∧ 1 + s.total Thread.credit = unfinished s ∧
      ∀ s', step threaded s (1, .complete false) = some s' →
        (s'.part 1).pending = .stop → unfinished s' = 0 := by
  obtain ⟨s, hs, hshared⟩ := Option.map_eq_some_iff.1 creditRun_reaches
  have h := work_accounting (exec_guarded_reachable hs)
  refine ⟨s, hshared, ?_, ?_⟩
  · have accounting := h.1
    rw [hshared] at accounting
    simpa [creditEnd] using accounting
  · intro s' hstep hstop
    exact ((h.2 (1, .complete false) s' trivial hstep).1 hstop).2

end Runs

end Asio.Detail.Scheduler
