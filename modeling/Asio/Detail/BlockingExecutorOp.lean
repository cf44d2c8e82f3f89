import Asio.Detail.PosixEvent
import Asio.Lib.Transition

/-! An operation that a thread waits for while another thread completes it. It is on the stack of
the thread that waits, which destroys it as soon as it is complete. -/

namespace Asio.Detail.BlockingExecutorOp

open Asio.Lib.Transition

/-- A `blocking_executor_op` that is destroyed is completed too, the handler of a
`blocking_execute_state` only completes it when it is invoked. -/
inductive Kind
  | executorOp
  | executeState
  deriving DecidableEq

/-- Whether `pthread_cond_signal` is called before the mutex is unlocked, as in
`unlock_and_signal_one_for_destruction`, or after that, as in `unlock_and_signal_one`. -/
inductive Order
  | signalThenUnlock
  | unlockThenSignal
  deriving DecidableEq

/-- What the thread that waits does next. -/
inductive Waiter
  | lock
  | test
  | wait
  | relock
  | count
  | unlock
  | destroy
  | done
  deriving DecidableEq

/-- What the thread that completes the operation does next, if the operation is not queued. -/
inductive Completer
  | queued
  | invoke
  | lock
  | complete
  | signal
  | unlock
  | done
  | dropped
  deriving DecidableEq

structure State where
  event : PosixEvent Unit
  isComplete : Bool
  locked : Bool
  waiter : Waiter
  completer : Completer
  invoked : Bool

def initial : State where
  event := .construct
  isComplete := false
  locked := false
  waiter := .lock
  completer := .queued
  invoked := false

inductive Action
  | wait
  | wakeUp
  | dequeue
  | drop
  | complete
  deriving DecidableEq

/-- `wait` of the operation, with that of the event in it, and the end of its lifetime. -/
def State.stepWaiter (s : State) : Option State :=
  match s.waiter with
  | .lock => if s.locked then none else some { s with waiter := .test, locked := true }
  | .test => some { s with waiter := if s.isComplete then .unlock else .wait }
  | .wait =>
    if s.event.isSignalled then some { s with waiter := .test }
    else some { s with waiter := .relock, event := s.event.beginWait (), locked := false }
  | .relock =>
    if () ∈ s.event.blocked ∨ s.locked then none
    else some { s with waiter := .count, locked := true }
  | .count => some { s with waiter := .wait, event := s.event.endWait }
  | .unlock => some { s with waiter := .destroy, locked := false }
  | .destroy => some { s with waiter := .done }
  | .done => none

/-- The handler, whether or not it throws, and the destructor of the cleanup. -/
def State.stepCompleter (o : Order) (s : State) : Option State :=
  match s.completer with
  | .invoke => some { s with completer := .lock, invoked := true }
  | .lock => if s.locked then none else some { s with completer := .complete, locked := true }
  | .complete => some { s with
      completer := match o with
        | .signalThenUnlock => .signal
        | .unlockThenSignal => .unlock
      isComplete := true
      event := s.event.unlockAndSignalOne }
  | .signal => some { s with
      completer := match o with
        | .signalThenUnlock => .unlock
        | .unlockThenSignal => .done
      event := if 0 < s.event.signals then s.event.signal () else s.event }
  | .unlock => some { s with
      completer := match o with
        | .signalThenUnlock => .done
        | .unlockThenSignal => .signal
      locked := false }
  | _ => none

/-- `wakeUp` is a return of `pthread_cond_wait` that no signal has caused. An operation that is
dropped is destroyed without its handler being invoked. -/
def step (k : Kind) (o : Order) (s : State) : Action → Option State
  | .wait => s.stepWaiter
  | .wakeUp =>
    if () ∈ s.event.blocked then some { s with event := s.event.wake () } else none
  | .dequeue => if s.completer = .queued then some { s with completer := .invoke } else none
  | .drop =>
    if s.completer = .queued then
      some { s with
        completer := match k with
          | .executorOp => .lock
          | .executeState => .dropped }
    else none
  | .complete => s.stepCompleter o

/-! ### What the threads have done -/

def Waiter.Locks (w : Waiter) : Prop := w = .test ∨ w = .wait ∨ w = .count ∨ w = .unlock

def Waiter.Counted (w : Waiter) : Prop := w = .relock ∨ w = .count

/-- The operation has been found to be complete. -/
def Waiter.Left (w : Waiter) : Prop := w = .unlock ∨ w = .destroy ∨ w = .done

def Completer.Locks (o : Order) (c : Completer) : Prop :=
  c = .complete ∨ c = .unlock ∨ c = .signal ∧ o = .signalThenUnlock

def Completer.Completed (c : Completer) : Prop := c = .signal ∨ c = .unlock ∨ c = .done

/-- A signal may still be due. -/
def Completer.Signals (o : Order) (c : Completer) : Prop :=
  c = .signal ∨ c = .unlock ∧ o = .unlockThenSignal

/-- What is still to be done has to do with the operation: it is queued, it is locked, or there is
somebody to be signalled. -/
def State.InUse (o : Order) (s : State) : Prop :=
  match s.completer with
  | .done | .dropped => False
  | .signal => o = .signalThenUnlock ∨ 0 < s.event.signals
  | _ => True

instance : DecidablePred Waiter.Locks := fun _ => inferInstanceAs (Decidable (_ ∨ _))

instance : DecidablePred Waiter.Counted := fun _ => inferInstanceAs (Decidable (_ ∨ _))

instance : DecidablePred Waiter.Left := fun _ => inferInstanceAs (Decidable (_ ∨ _))

instance (o : Order) : DecidablePred (Completer.Locks o) :=
  fun _ => inferInstanceAs (Decidable (_ ∨ _))

instance : DecidablePred Completer.Completed := fun _ => inferInstanceAs (Decidable (_ ∨ _))

instance (o : Order) : DecidablePred (Completer.Signals o) :=
  fun _ => inferInstanceAs (Decidable (_ ∨ _))

structure Inv (k : Kind) (o : Order) (s : State) : Prop where
  locked : s.locked = true ↔ s.waiter.Locks ∨ s.completer.Locks o
  exclusive : ¬ (s.waiter.Locks ∧ s.completer.Locks o)
  complete : s.isComplete = true ↔ s.completer.Completed
  signalled : s.event.isSignalled = s.isComplete
  waiters : s.event.waiters = if s.waiter.Counted then 1 else 0
  blocked : () ∈ s.event.blocked → s.waiter = .relock
  signals : s.event.signals ≤ if s.completer.Signals o then 1 else 0
  woken : s.isComplete = true → () ∈ s.event.blocked → 0 < s.event.signals
  left : s.waiter.Left → s.isComplete = true ∧ (o = .signalThenUnlock → s.completer = .done)
  dropped : s.completer = .dropped → k = .executeState
  invoked : s.completer = .lock ∨ s.completer = .complete ∨ s.isComplete = true →
    k = .executeState → s.invoked = true

section Steps

variable {k : Kind} {o : Order} {s s' : State}

theorem inv_initial : Inv k o initial where
  locked := by simp [initial, Waiter.Locks, Completer.Locks]
  exclusive := by simp [initial, Waiter.Locks]
  complete := by simp [initial, Completer.Completed]
  signalled := rfl
  waiters := rfl
  blocked := by simp [initial, PosixEvent.construct]
  signals := Nat.zero_le _
  woken := by simp [initial]
  left := by simp [initial, Waiter.Left]
  dropped := by simp [initial]
  invoked := by simp [initial]

theorem Inv.not_locks (h : Inv k o s) (hw : s.waiter.Locks) : ¬ s.completer.Locks o :=
  fun hc => h.exclusive ⟨hw, hc⟩

/-- Nobody who completes the operation has the mutex any more. -/
theorem Inv.completed (h : Inv k o s) (hcomplete : s.isComplete = true)
    (hlocks : ¬ s.completer.Locks o) (ho : o = .signalThenUnlock) : s.completer = .done := by
  rcases h.complete.mp hcomplete with hc | hc | hc
  · exact absurd (.inr (.inr ⟨hc, ho⟩)) hlocks
  · exact absurd (.inr (.inl hc)) hlocks
  · exact hc

/-- The waiter goes on without the event being changed. -/
theorem Inv.goOn (h : Inv k o s) {w : Waiter} {locked : Bool}
    (hlocked : locked = true ↔ w.Locks ∨ s.completer.Locks o)
    (hexclusive : ¬ (w.Locks ∧ s.completer.Locks o)) (hcounted : w.Counted ↔ s.waiter.Counted)
    (hblocked : () ∈ s.event.blocked → w = .relock)
    (hleft : w.Left → s.isComplete = true ∧ (o = .signalThenUnlock → s.completer = .done)) :
    Inv k o { s with waiter := w, locked := locked } where
  __ := h
  locked := hlocked
  exclusive := hexclusive
  waiters := by rw [if_congr hcounted rfl rfl]; exact h.waiters
  blocked := hblocked
  left := hleft

theorem Inv.not_blocked (h : Inv k o s) {w : Waiter} (hw : s.waiter = w) (hne : w ≠ .relock) :
    () ∉ s.event.blocked :=
  fun hmem => hne (hw.symm.trans (h.blocked hmem))

theorem Inv.stepWaiter (h : Inv k o s) (hs : s.stepWaiter = some s') : Inv k o s' := by
  cases hw : s.waiter with
  | lock =>
    simp only [State.stepWaiter, hw, Option.ite_none_left_eq_some, Option.some.injEq] at hs
    obtain ⟨hfree, rfl⟩ := hs
    have hcompleter : ¬ s.completer.Locks o := fun hc => hfree (h.locked.mpr (.inr hc))
    have hblocked := h.not_blocked hw (by decide)
    exact h.goOn (by simp [Waiter.Locks]) (fun hboth => hcompleter hboth.2)
      (by simp [hw, Waiter.Counted]) (fun hmem => absurd hmem hblocked) (by simp [Waiter.Left])
  | test =>
    have hcompleter : ¬ s.completer.Locks o := h.not_locks (by simp [hw, Waiter.Locks])
    have hblocked := h.not_blocked hw (by decide)
    have hlocked : s.locked = true := h.locked.mpr (.inl (by simp [hw, Waiter.Locks]))
    simp only [State.stepWaiter, hw, Option.some.injEq] at hs
    subst hs
    by_cases hcomplete : s.isComplete = true
    · rw [if_pos hcomplete]
      exact h.goOn (by simp [hlocked, Waiter.Locks]) (fun hboth => hcompleter hboth.2)
        (by simp [hw, Waiter.Counted]) (fun hmem => absurd hmem hblocked)
        fun _ => ⟨hcomplete, h.completed hcomplete hcompleter⟩
    · rw [if_neg hcomplete]
      exact h.goOn (by simp [hlocked, Waiter.Locks]) (fun hboth => hcompleter hboth.2)
        (by simp [hw, Waiter.Counted]) (fun hmem => absurd hmem hblocked) (by simp [Waiter.Left])
  | wait =>
    have hcompleter : ¬ s.completer.Locks o := h.not_locks (by simp [hw, Waiter.Locks])
    have hblocked := h.not_blocked hw (by decide)
    have hlocked : s.locked = true := h.locked.mpr (.inl (by simp [hw, Waiter.Locks]))
    cases hsignalled : s.event.isSignalled with
    | true =>
      simp only [State.stepWaiter, hw, hsignalled, if_true, Option.some.injEq] at hs
      subst hs
      exact h.goOn (by simp [hlocked, Waiter.Locks]) (fun hboth => hcompleter hboth.2)
        (by simp [hw, Waiter.Counted]) (fun hmem => absurd hmem hblocked) (by simp [Waiter.Left])
    | false =>
      simp only [State.stepWaiter, hw, hsignalled, Bool.false_eq_true, if_false,
        Option.some.injEq] at hs
      subst hs
      have hwaiters : s.event.waiters = 0 := by
        simpa [hw, Waiter.Counted] using h.waiters
      have hcomplete : s.isComplete = false := by
        rw [← h.signalled]
        exact hsignalled
      exact {
        h with
        locked := by simp [hcompleter, Waiter.Locks]
        exclusive := by simp [Waiter.Locks]
        signalled := by
          simpa [PosixEvent.beginWait, PosixEvent.isSignalled] using h.signalled
        waiters := by simp [hwaiters, Waiter.Counted]
        blocked := fun _ => rfl
        woken := fun htrue => absurd (hcomplete.symm.trans htrue) (by decide)
        left := by simp [Waiter.Left] }
  | relock =>
    simp only [State.stepWaiter, hw, Option.ite_none_left_eq_some, Option.some.injEq,
      not_or] at hs
    obtain ⟨⟨hblocked, hfree⟩, rfl⟩ := hs
    have hcompleter : ¬ s.completer.Locks o := fun hc => hfree (h.locked.mpr (.inr hc))
    exact h.goOn (by simp [Waiter.Locks]) (fun hboth => hcompleter hboth.2)
      (by simp [hw, Waiter.Counted]) (fun hmem => absurd hmem hblocked) (by simp [Waiter.Left])
  | count =>
    simp only [State.stepWaiter, hw, Option.some.injEq] at hs
    subst hs
    have hcompleter : ¬ s.completer.Locks o := h.not_locks (by simp [hw, Waiter.Locks])
    have hblocked := h.not_blocked hw (by decide)
    have hlocked : s.locked = true := h.locked.mpr (.inl (by simp [hw, Waiter.Locks]))
    have hwaiters : s.event.waiters = 1 := by
      simpa [hw, Waiter.Counted] using h.waiters
    exact {
      h with
      locked := by simp [hlocked, Waiter.Locks]
      exclusive := fun hboth => hcompleter hboth.2
      signalled := by rw [PosixEvent.isSignalled_endWait _ (by omega)]; exact h.signalled
      waiters := by simp [PosixEvent.waiters_endWait, hwaiters, Waiter.Counted]
      blocked := fun hmem => absurd hmem hblocked
      left := by simp [Waiter.Left] }
  | unlock =>
    simp only [State.stepWaiter, hw, Option.some.injEq] at hs
    subst hs
    have hcompleter : ¬ s.completer.Locks o := h.not_locks (by simp [hw, Waiter.Locks])
    have hblocked := h.not_blocked hw (by decide)
    exact h.goOn (by simp [hcompleter, Waiter.Locks]) (by simp [Waiter.Locks])
      (by simp [hw, Waiter.Counted]) (fun hmem => absurd hmem hblocked)
      fun _ => h.left (by simp [hw, Waiter.Left])
  | destroy =>
    simp only [State.stepWaiter, hw, Option.some.injEq] at hs
    subst hs
    have hblocked := h.not_blocked hw (by decide)
    have hlocked : s.locked = true ↔ s.completer.Locks o := by
      simpa [hw, Waiter.Locks] using h.locked
    exact h.goOn (by simp [hlocked, Waiter.Locks]) (by simp [Waiter.Locks])
      (by simp [hw, Waiter.Counted]) (fun hmem => absurd hmem hblocked)
      fun _ => h.left (by simp [hw, Waiter.Left])
  | done => simp [State.stepWaiter, hw] at hs

/-- The completer goes on without the event being changed. -/
theorem Inv.advance (h : Inv k o s) {c : Completer} {locked invoked : Bool}
    (hlocked : locked = true ↔ s.waiter.Locks ∨ c.Locks o)
    (hexclusive : ¬ (s.waiter.Locks ∧ c.Locks o)) (hcomplete : c.Completed ↔ s.completer.Completed)
    (hsignals : s.completer.Signals o → c.Signals o)
    (hleft : s.waiter.Left → o = .signalThenUnlock → c = .done)
    (hdropped : c = .dropped → k = .executeState)
    (hinvoked : c = .lock ∨ c = .complete ∨ s.isComplete = true → k = .executeState →
      invoked = true) :
    Inv k o { s with completer := c, locked := locked, invoked := invoked } where
  __ := h
  locked := hlocked
  exclusive := hexclusive
  complete := h.complete.trans hcomplete.symm
  signals := by
    refine h.signals.trans ?_
    split
    · rename_i hs
      rw [if_pos (hsignals hs)]
    · exact Nat.zero_le _
  left := fun hw => ⟨(h.left hw).1, hleft hw⟩
  dropped := hdropped
  invoked := hinvoked

theorem Inv.not_left (h : Inv k o s) {c : Completer} (hc : s.completer = c) (hne : ¬ c.Completed) :
    ¬ s.waiter.Left :=
  fun hw => hne (hc ▸ h.complete.mp (h.left hw).1)

/-- Nobody is blocked once the signal that is due has been given. -/
theorem Inv.signal (h : Inv k o s) (hcomplete : s.isComplete = true) :
    ∃ e : PosixEvent Unit, (if 0 < s.event.signals then s.event.signal () else s.event) = e ∧
      e.state = s.event.state ∧ e.signals = 0 ∧ () ∉ e.blocked := by
  have hone : s.event.signals ≤ 1 := h.signals.trans (by split <;> omega)
  by_cases hsignals : 0 < s.event.signals
  · refine ⟨_, if_pos hsignals, rfl, ?_, ?_⟩
    · simp only [PosixEvent.signal]
      omega
    · simp [PosixEvent.signal]
  · exact ⟨_, if_neg hsignals, rfl, by omega, fun hmem => hsignals (h.woken hcomplete hmem)⟩

theorem Inv.stepCompleter (h : Inv k o s) (hs : s.stepCompleter o = some s') : Inv k o s' := by
  cases hc : s.completer with
  | invoke =>
    simp only [State.stepCompleter, hc, Option.some.injEq] at hs
    subst hs
    have hleft := h.not_left hc (by decide)
    refine h.advance ?_ ?_ ?_ ?_ ?_ ?_ ?_
    · simpa [hc, Completer.Locks] using h.locked
    · simp [Completer.Locks]
    · simp [hc, Completer.Completed]
    · simp [hc, Completer.Signals]
    · exact fun hw => absurd hw hleft
    · simp
    · simp
  | lock =>
    simp only [State.stepCompleter, hc, Option.ite_none_left_eq_some, Option.some.injEq] at hs
    obtain ⟨hfree, rfl⟩ := hs
    have hleft := h.not_left hc (by decide)
    have hwaiter : ¬ s.waiter.Locks := fun hw => hfree (h.locked.mpr (.inl hw))
    refine h.advance ?_ ?_ ?_ ?_ ?_ ?_ ?_
    · simp [Completer.Locks]
    · exact fun hboth => hwaiter hboth.1
    · simp [hc, Completer.Completed]
    · simp [hc, Completer.Signals]
    · exact fun hw => absurd hw hleft
    · simp
    · exact fun _ => h.invoked (.inl hc)
  | complete =>
    simp only [State.stepCompleter, hc, Option.some.injEq] at hs
    subst hs
    have hleft := h.not_left hc (by decide)
    have hlocked : s.locked = true := h.locked.mpr (.inr (by simp [hc, Completer.Locks]))
    have hwaiter : ¬ s.waiter.Locks :=
      fun hw => h.exclusive ⟨hw, by simp [hc, Completer.Locks]⟩
    have hsignals : s.event.signals = 0 := by
      simpa [hc, Completer.Signals] using h.signals
    exact {
      h with
      locked := by cases o <;> simp [hlocked, Completer.Locks]
      exclusive := fun hboth => hwaiter hboth.1
      complete := by cases o <;> simp [Completer.Completed]
      signalled := PosixEvent.isSignalled_unlockAndSignalOne _
      waiters := by rw [PosixEvent.waiters_unlockAndSignalOne]; exact h.waiters
      signals := by
        rw [PosixEvent.signals_unlockAndSignalOne, hsignals]
        cases o <;> simp [Completer.Signals] <;> split <;> omega
      woken := fun _ hmem => by
        have hwaiters : 0 < s.event.waiters := by
          rw [h.waiters, if_pos (.inl (h.blocked hmem))]
          exact Nat.one_pos
        rw [PosixEvent.signals_unlockAndSignalOne, if_pos hwaiters]
        exact Nat.succ_pos _
      left := fun hw => absurd hw hleft
      dropped := by cases o <;> simp
      invoked := fun _ => h.invoked (.inr (.inl hc)) }
  | signal =>
    simp only [State.stepCompleter, hc, Option.some.injEq] at hs
    subst hs
    have hcomplete : s.isComplete = true := h.complete.mpr (.inl hc)
    have hlocked : s.locked = true ↔ s.waiter.Locks ∨ o = .signalThenUnlock := by
      simpa [hc, Completer.Locks] using h.locked
    have hexclusive : ¬ (s.waiter.Locks ∧ o = .signalThenUnlock) := by
      simpa [hc, Completer.Locks] using h.exclusive
    have hdone : s.waiter.Left → o ≠ .signalThenUnlock := by
      intro hw ho
      have hdone := (h.left hw).2 ho
      simp [hc] at hdone
    obtain ⟨e, he, hstate, hsignals, hblocked⟩ := h.signal hcomplete
    rw [he]
    exact {
      h with
      locked := by cases o <;> simp [hlocked, Completer.Locks]
      exclusive := by
        cases o with
        | signalThenUnlock => simpa [Completer.Locks] using hexclusive
        | unlockThenSignal => simp [Completer.Locks]
      complete := by cases o <;> simp [hcomplete, Completer.Completed]
      signalled := by simpa [PosixEvent.isSignalled, hstate] using h.signalled
      waiters := by simpa [PosixEvent.waiters, hstate] using h.waiters
      blocked := fun hmem => absurd hmem hblocked
      signals := by simp [hsignals]
      woken := fun _ hmem => absurd hmem hblocked
      left := fun hw => ⟨hcomplete, fun ho => absurd ho (hdone hw)⟩
      dropped := by cases o <;> simp
      invoked := fun _ => h.invoked (.inr (.inr hcomplete)) }
  | unlock =>
    simp only [State.stepCompleter, hc, Option.some.injEq] at hs
    subst hs
    have hcomplete : s.isComplete = true := h.complete.mpr (.inr (.inl hc))
    have hwaiter : ¬ s.waiter.Locks :=
      fun hw => h.exclusive ⟨hw, by simp [hc, Completer.Locks]⟩
    have hinvoked := h.invoked (.inr (.inr hcomplete))
    cases o with
    | signalThenUnlock =>
      refine h.advance ?_ ?_ ?_ ?_ ?_ ?_ ?_
      · simp [hwaiter, Completer.Locks]
      · exact fun hboth => hwaiter hboth.1
      · simp [hc, Completer.Completed]
      · simp [hc, Completer.Signals]
      · simp
      · simp
      · exact fun _ => hinvoked
    | unlockThenSignal =>
      refine h.advance ?_ ?_ ?_ ?_ ?_ ?_ ?_
      · simp [hwaiter, Completer.Locks]
      · exact fun hboth => hwaiter hboth.1
      · simp [hc, Completer.Completed]
      · simp [Completer.Signals]
      · simp
      · simp
      · exact fun _ => hinvoked
  | queued => simp [State.stepCompleter, hc] at hs
  | done => simp [State.stepCompleter, hc] at hs
  | dropped => simp [State.stepCompleter, hc] at hs

theorem Inv.wakeUp (h : Inv k o s) : Inv k o { s with event := s.event.wake () } where
  __ := h
  blocked := by simp [PosixEvent.wake]
  woken := by simp [PosixEvent.wake]

/-- The operation is no longer queued. -/
theorem Inv.leave (h : Inv k o s) (hs : s.completer = .queued) {c : Completer}
    (hc : c = .invoke ∨ c = .lock ∧ k = .executorOp ∨ c = .dropped ∧ k = .executeState) :
    Inv k o { s with completer := c } := by
  have hleft := h.not_left hs (by decide)
  have hlocked : s.locked = true ↔ s.waiter.Locks := by
    simpa [hs, Completer.Locks] using h.locked
  have hcomplete : ¬ s.isComplete = true := by
    simp [h.complete, hs, Completer.Completed]
  refine h.advance ?_ ?_ ?_ ?_ ?_ ?_ ?_
  all_goals rcases hc with rfl | ⟨rfl, rfl⟩ | ⟨rfl, rfl⟩
  all_goals simp_all [Completer.Locks, Completer.Completed, Completer.Signals]

theorem Inv.step (h : Inv k o s) {a : Action} (hs : step k o s a = some s') : Inv k o s' := by
  cases a with
  | wait => exact h.stepWaiter hs
  | wakeUp =>
    simp only [BlockingExecutorOp.step, Option.ite_none_right_eq_some, Option.some.injEq] at hs
    obtain ⟨-, rfl⟩ := hs
    exact h.wakeUp
  | dequeue =>
    simp only [BlockingExecutorOp.step, Option.ite_none_right_eq_some, Option.some.injEq] at hs
    obtain ⟨hqueued, rfl⟩ := hs
    exact h.leave hqueued (.inl rfl)
  | drop =>
    simp only [BlockingExecutorOp.step, Option.ite_none_right_eq_some, Option.some.injEq] at hs
    obtain ⟨hqueued, rfl⟩ := hs
    cases k with
    | executorOp => exact h.leave hqueued (.inr (.inl ⟨rfl, rfl⟩))
    | executeState => exact h.leave hqueued (.inr (.inr ⟨rfl, rfl⟩))
  | complete => exact h.stepCompleter hs

theorem inv_reachable (h : Reachable (step k o) (fun _ _ => True) initial s) : Inv k o s :=
  h.invariant inv_initial fun hi _ hs => hi.step hs

/-! ### Destruction -/

/-- What has been found to be complete is not used any more. -/
theorem Inv.not_inUse (h : Inv k .signalThenUnlock s) (hw : s.waiter.Left) :
    ¬ s.InUse .signalThenUnlock := by
  simp [State.InUse, (h.left hw).2 rfl]

def signalsDestroyed : List Action :=
  [.wait, .wait, .wait, .dequeue, .complete, .complete, .complete, .complete, .wakeUp,
    .wait, .wait, .wait, .wait, .wait, .wait]

/-- The waiting thread never destroys the operation while it is in use if and only if it is
signalled before the mutex is unlocked. -/
theorem destroyed_not_inUse_iff : (∀ s, Reachable (step k o) (fun _ _ => True) initial s →
    s.waiter = .done → ¬ s.InUse o) ↔ o = .signalThenUnlock := by
  constructor
  · intro hall
    cases o with
    | signalThenUnlock => rfl
    | unlockThenSignal =>
      have hrun : ∃ t, exec (guarded (step k .unlockThenSignal) fun _ _ => True) initial
          signalsDestroyed = some t ∧ t.waiter = .done ∧ t.InUse .unlockThenSignal := by
        cases k <;> exact ⟨_, rfl, rfl, .inr (by decide)⟩
      obtain ⟨t, ht, hdone, hinUse⟩ := hrun
      exact absurd hinUse (hall t (exec_guarded_reachable ht) hdone)
  · rintro rfl s h hw
    exact (inv_reachable h).not_inUse (.inr (.inr hw))

/-! ### Progress -/

/-- Whoever has the mutex can go on. -/
theorem stepWaiter_ne_none (hw : s.waiter.Locks) : s.stepWaiter ≠ none := by
  rcases hw with hw | hw | hw | hw
  · simp [State.stepWaiter, hw]
  · simp only [State.stepWaiter, hw]
    split <;> simp
  · simp [State.stepWaiter, hw]
  · simp [State.stepWaiter, hw]

/-- No wakeup has been lost: what is complete is waited for no more. -/
theorem Inv.waiter_done (h : Inv k .signalThenUnlock s) (hc : s.completer = .done)
    (hwait : s.stepWaiter = none) : s.waiter = .done := by
  have hcomplete : s.isComplete = true := h.complete.mpr (.inr (.inr hc))
  have hfree : ¬ s.waiter.Locks → s.locked = false := by
    intro hw
    have hlocked := h.locked
    simpa [hw, hc, Completer.Locks] using hlocked
  have hblocked : () ∉ s.event.blocked := by
    intro hmem
    have hpos := h.woken hcomplete hmem
    have hnone := h.signals
    simp only [hc, Completer.Signals, reduceCtorEq, false_and, or_self, if_false] at hnone
    omega
  cases hw : s.waiter with
  | done => rfl
  | test | wait | count | unlock =>
    exact absurd hwait (stepWaiter_ne_none (by simp [hw, Waiter.Locks]))
  | lock =>
    have hlocked := hfree (by simp [hw, Waiter.Locks])
    simp [State.stepWaiter, hw, hlocked] at hwait
  | relock =>
    have hlocked := hfree (by simp [hw, Waiter.Locks])
    simp [State.stepWaiter, hw, hlocked, hblocked] at hwait
  | destroy => simp [State.stepWaiter, hw] at hwait

/-- A thread can go on unless both are done, or the operation has been dropped. -/
theorem Inv.progress (h : Inv k .signalThenUnlock s)
    (hstuck : ∀ a, a ≠ .wakeUp → BlockingExecutorOp.step k .signalThenUnlock s a = none) :
    s.waiter = .done ↔ s.completer ≠ .dropped := by
  have hwait : s.stepWaiter = none := hstuck .wait (by decide)
  have hdequeue := hstuck .dequeue (by decide)
  have hcompleter : s.stepCompleter .signalThenUnlock = none := hstuck .complete (by decide)
  constructor
  · intro hw hdropped
    have hdone := (h.left (.inr (.inr hw))).2 rfl
    simp [hdropped] at hdone
  · intro hdropped
    cases hc : s.completer with
    | done => exact h.waiter_done hc hwait
    | dropped => exact absurd hc hdropped
    | queued => simp [BlockingExecutorOp.step, hc] at hdequeue
    | lock =>
      have hlocked : s.locked = true := by
        simpa [State.stepCompleter, hc] using hcompleter
      have hw : s.waiter.Locks := by
        simpa [hc, Completer.Locks] using h.locked.mp hlocked
      exact absurd hwait (stepWaiter_ne_none hw)
    | invoke | complete | signal | unlock => simp [State.stepCompleter, hc] at hcompleter

end Steps

end Asio.Detail.BlockingExecutorOp
