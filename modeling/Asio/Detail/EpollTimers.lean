import Asio.Detail.TimerQueueSet
import Asio.Detail.TimerQueueStale

/-! The timers of the epoll reactor: how long it waits in `epoll_wait`, and what wakes it before a
timer is missed. -/

universe u v

namespace Asio.Detail.EpollTimers

open Asio.Lib Transition ChronoTimeTraits TimerQueueSet

/-- Where `run` is: it holds the mutex while it takes the timers that are ready and sets the timer
descriptor. -/
inductive Run
  | idle
  | waiting (deadline : Option ℚ)
  | returned (checkTimers : Bool)
  | checking
  deriving DecidableEq

/-- Times are microseconds of the monotonic clock. If there is a timer descriptor, it becomes ready
at the time for which it is set. An edge of the interrupter may not have been reported yet. -/
structure State (κ : Type u) (α : Type v) where
  time : ℚ
  now : κ → Ticks
  queues : κ → TimerQueue.State Ticks α
  timerQueues : List κ
  timerFd : Option (Option ℚ)
  interrupted : Bool
  run : Run
  shutdown : Bool

def initial {κ : Type u} {α : Type v} (created : Bool) (now : κ → Ticks) : State κ α where
  time := 0
  now := now
  queues _ := TimerQueue.initial
  timerQueues := []
  timerFd := if created then some none else none
  interrupted := true
  run := .idle
  shutdown := false

inductive Action (κ : Type u) (α : Type v)
  | elapse (time : ℚ) (now : κ → Ticks)
  | addTimerQueue (k : κ)
  | removeTimerQueue (k : κ)
  | scheduleTimer (k : κ) (time : Ticks) (timer : α) (op : WaitOp)
  | cancelTimer (k : κ) (timer : α) (maxCancelled : Nat)
  | cancelTimerByKey (k : κ) (timer : α) (cancellationKey : Nat)
  | moveTimer (k : κ) (target source : α)
  | interrupt
  | startRun (usec : Int)
  | wake (timer interrupter : Bool)
  | finishRun
  | setTime
  | notifyFork (created : Bool)
  | shutdown

def maxMsec : Int := 5 * 60 * 1000

/-- `itimerspec::it_value`, in seconds and nanoseconds -/
def itValue (usec : Int) : Int × Int :=
  (usec.tdiv 1000000, if usec ≠ 0 then usec.tmod 1000000 * 1000 else 1)

def microseconds (value : Int × Int) : ℚ := value.1 * 1000000 + value.2 / 1000

section Reactor

variable {κ : Type u} {α : Type v} (period : κ → Period)

namespace State

def waitDuration (s : State κ α) (u : TimeUnit) (maxDuration : Int) : Option Int :=
  TimerQueueSet.waitDuration u
    (s.timerQueues.map fun k => ⟨period k, (s.queues k).queue, s.now k⟩) maxDuration

def getTimeoutMsec (s : State κ α) (msec : Int) : Option Int :=
  s.waitDuration period .milliseconds (if msec < 0 ∨ maxMsec < msec then maxMsec else msec)

/-- When the timer descriptor becomes ready if it is set now. The time that is set is an absolute
one if a timer is due. -/
def getTimeout (s : State κ α) : Option ℚ :=
  (s.waitDuration period .microseconds (5 * 60 * 1000 * 1000)).map fun usec =>
    if usec ≠ 0 then s.time + microseconds (itValue usec) else microseconds (itValue usec)

def updateTimeout (s : State κ α) : Option (State κ α) :=
  match s.timerFd with
  | some _ => (s.getTimeout period).map fun deadline => { s with timerFd := some (some deadline) }
  | none => some { s with interrupted := true }

variable [DecidableEq κ]

def setQueue (s : State κ α) (k : κ) (q : TimerQueue.State Ticks α) : State κ α :=
  { s with queues := Function.update s.queues k q }

theorem setQueue_self (s : State κ α) (k : κ) (q : TimerQueue.State Ticks α) :
    (s.setQueue k q).queues k = q :=
  Function.update_self ..

theorem setQueue_of_ne (s : State κ α) {k k' : κ} (q : TimerQueue.State Ticks α) (h : k' ≠ k) :
    (s.setQueue k q).queues k' = s.queues k' :=
  Function.update_of_ne h ..

variable [DecidableEq α]

/-- The service of the queue is there, and the mutex can be locked. -/
def Usable (s : State κ α) (k : κ) : Prop := k ∈ s.timerQueues ∧ s.run ≠ .checking

instance (s : State κ α) (k : κ) : Decidable (s.Usable k) := inferInstanceAs (Decidable (_ ∧ _))

def scheduleTimer (s : State κ α) (k : κ) (time : Ticks) (timer : α) (op : WaitOp) :
    Option (State κ α) :=
  if s.shutdown then some s
  else (TimerQueue.respond (s.queues k) (.enqueueTimer time timer op)).bind fun (q, r) =>
    if r.earliest then (s.setQueue k q).updateTimeout period else some (s.setQueue k q)

def cancelTimer (s : State κ α) (k : κ) (timer : α) (maxCancelled : Nat) : Option (State κ α) :=
  (TimerQueue.respond (s.queues k) (.cancelTimer timer maxCancelled)).map fun (q, _) =>
    s.setQueue k q

def cancelTimerByKey (s : State κ α) (k : κ) (timer : α) (cancellationKey : Nat) :
    Option (State κ α) :=
  (TimerQueue.respond (s.queues k) (.cancelTimerByKey timer cancellationKey)).map fun (q, _) =>
    s.setQueue k q

def moveTimer (s : State κ α) (k : κ) (target source : α) : Option (State κ α) :=
  (TimerQueue.respond (s.queues k) (.cancelTimer target maxIndex)).bind fun (q, _) =>
    (TimerQueue.respond q (.moveTimer target source)).map fun (q, _) => s.setQueue k q

def getReadyTimers (s : State κ α) : List κ → Option (State κ α)
  | [] => some s
  | k :: ks => (TimerQueue.respond (s.queues k) (.getReadyTimers (s.now k))).bind fun (q, _) =>
      (s.setQueue k q).getReadyTimers ks

/-- The start of `run`, up to `epoll_wait`. -/
def startRun (s : State κ α) (usec : Int) : Option (State κ α) :=
  if usec = 0 then some { s with run := .waiting (some s.time) }
  else
    let timeout := if usec < 0 then -1 else (usec - 1) / 1000 + 1
    match s.timerFd with
    | some _ =>
      some { s with run := .waiting (if timeout < 0 then none else some (s.time + 1000 * timeout)) }
    | none => (s.getTimeoutMsec period timeout).map fun (msec : Int) =>
        { s with run := .waiting (some (s.time + 1000 * msec)) }

/-- The events that are dispatched; those of descriptors have nothing to do with timers. -/
def wake (s : State κ α) (timer interrupter : Bool) : State κ α :=
  { s with
    interrupted := s.interrupted && !interrupter
    run := .returned (s.timerFd.isNone || timer) }

def finishRun (s : State κ α) (checkTimers : Bool) : Option (State κ α) :=
  if checkTimers then
    (s.getReadyTimers s.timerQueues).map fun s => { s with run := .checking }
  else some { s with run := .idle }

def setTime (s : State κ α) : Option (State κ α) :=
  match s.timerFd with
  | some _ => (s.getTimeout period).map fun deadline =>
      { s with timerFd := some (some deadline), run := .idle }
  | none => some { s with run := .idle }

end State

/-- Events are reported only if they have happened. -/
def State.Reports (s : State κ α) (timer interrupter : Bool) : Prop :=
  (timer = true → ∃ fd ∈ s.timerFd, ∃ deadline ∈ fd, deadline ≤ s.time) ∧
    (interrupter = true → s.interrupted = true)

instance (s : State κ α) (timer interrupter : Bool) : Decidable (s.Reports timer interrupter) :=
  inferInstanceAs (Decidable (_ ∧ _))

variable [DecidableEq κ] [DecidableEq α]

/-- The time of the clocks may be changed, but that of the monotonic one does not go back. -/
def step (s : State κ α) : Action κ α → Option (State κ α)
  | .elapse time now => if s.time ≤ time then some { s with time := time, now := now } else none
  | .addTimerQueue k =>
    if k ∈ s.timerQueues ∨ s.run = .checking then none
    else some { s.setQueue k TimerQueue.initial with timerQueues := k :: s.timerQueues }
  | .removeTimerQueue k =>
    if s.Usable k then some { s with timerQueues := s.timerQueues.erase k } else none
  | .scheduleTimer k time timer op =>
    if s.Usable k then s.scheduleTimer period k time timer op else none
  | .cancelTimer k timer maxCancelled =>
    if s.Usable k then s.cancelTimer k timer maxCancelled else none
  | .cancelTimerByKey k timer cancellationKey =>
    if s.Usable k then s.cancelTimerByKey k timer cancellationKey else none
  | .moveTimer k target source => if s.Usable k then s.moveTimer k target source else none
  | .interrupt => some { s with interrupted := true }
  | .startRun usec => if s.run = .idle then s.startRun period usec else none
  | .wake timer interrupter =>
    match s.run with
    | .waiting _ => if s.Reports timer interrupter then some (s.wake timer interrupter) else none
    | _ => none
  | .finishRun =>
    match s.run with
    | .returned checkTimers => s.finishRun checkTimers
    | _ => none
  | .setTime => if s.run = .checking then s.setTime period else none
  | .notifyFork created =>
    if s.run = .idle then
      State.updateTimeout period
        { s with timerFd := if created then some none else none, interrupted := true }
    else none
  | .shutdown => if s.run = .checking then none else some { s with shutdown := true }

end Reactor

/-! ### What is left until a timer -/

section Time

variable {p : Period}

theorem exact_sub (u : TimeUnit) (t t' : Int) :
    exact u p (t - t') = exact u p t - exact u p t' := by
  unfold exact
  push_cast
  ring

theorem exact_milliseconds (t : Int) :
    1000 * exact .milliseconds p t = exact .microseconds p t := by
  simp only [exact, TimeUnit.den]
  push_cast
  ring

theorem microseconds_itValue {usec : Int} (h : usec ≠ 0) : microseconds (itValue usec) = usec := by
  have hsplit : (usec.tdiv 1000000 * 1000000 + usec.tmod 1000000 : ℚ) = usec := by
    exact_mod_cast Int.tdiv_mul_add_tmod usec 1000000
  rw [microseconds, itValue, if_pos h, ← hsplit]
  push_cast
  ring

end Time

section Queue

variable {α : Type v} {q q' : TimerQueue.State Ticks α} {l : List α} {r : TimerMap.Result}

/-- No timer expires before all those that there were. -/
def Later (q q' : TimerQueue.State Ticks α) : Prop :=
  ∀ a t, q'.map.Expires a t → ∃ b t', q.map.Expires b t' ∧ t' ≤ t

theorem Later.trans {q₁ q₂ q₃ : TimerQueue.State Ticks α} (h : Later q₁ q₂) (h' : Later q₂ q₃) :
    Later q₁ q₃ := by
  intro a t ht
  obtain ⟨b, t', ht', hle⟩ := h' a t ht
  obtain ⟨c, t'', ht'', hle'⟩ := h b t' ht'
  exact ⟨c, t'', ht'', hle'.trans hle⟩

theorem later_of_not_newMinimum {m m' : TimerMap Ticks α}
    (h : ¬ TimerMap.NewMinimum m m') {a : α} {t : Ticks} (ht : m'.Expires a t) :
    ∃ b t', m.Expires b t' ∧ t' ≤ t := by
  by_contra hnone
  refine h ⟨a, t, ht, fun b t' ht' => ?_⟩
  by_contra hle
  exact hnone ⟨b, t', ht', not_lt.mp hle⟩

variable [DecidableEq α]

theorem respond_answer {action : TimerMap.Action Ticks α} (h : TimerQueue.Good q l)
    (hr : TimerQueue.respond q action = some (q', r)) :
    q.map.Answer action r ∧ q'.map = q.map.next action ∧ ∃ l', TimerQueue.Good q' l' := by
  have hlegal : TimerQueue.Legal q action := by
    by_contra hnot
    simp [TimerQueue.respond, hnot] at hr
  obtain ⟨s, r', hs, hanswer, hmap, hgood⟩ := TimerQueue.respond_good h hlegal
  rw [hs] at hr
  cases hr
  exact ⟨hanswer, hmap, hgood⟩

theorem expires_setOps {m : TimerMap Ticks α} {a b : α} {ops : List WaitOp} {t : Ticks}
    (h : (m.setOps a ops).Expires b t) : m.Expires b t := by
  obtain ⟨htime, hfinite⟩ := h
  refine ⟨?_, hfinite⟩
  rw [TimerMap.setOps, TimerMap.time_set] at htime
  split at htime
  · rename_i hb
    subst hb
    split at htime
    · cases htime
    · rw [← htime]
      simp [TimerMap.time, Function.comp_def]
  · exact htime

/-- What is not the earliest timer, and what does not schedule one at all. -/
theorem later_of_respond {action : TimerMap.Action Ticks α} (h : TimerQueue.Good q l)
    (hr : TimerQueue.respond q action = some (q', r)) (hearliest : r.earliest = false ∨
      ∀ time timer op, action ≠ .enqueueTimer time timer op) : Later q q' := by
  obtain ⟨hanswer, hmap, -⟩ := respond_answer h hr
  intro a t ht
  rw [hmap] at ht
  cases action with
  | enqueueTimer time timer op =>
    have hfalse : r.earliest = false := hearliest.resolve_right fun hne => hne time timer op rfl
    exact later_of_not_newMinimum (fun hmin => by simp [hanswer.2 hmin] at hfalse) ht
  | getReadyTimers now =>
    refine ⟨a, t, ⟨?_, ht.2⟩, le_refl t⟩
    have htime := ht.1
    rw [TimerMap.time_next_ready] at htime
    split at htime
    · cases htime
    · exact htime
  | cancelTimer timer max => exact ⟨a, t, expires_setOps ht, le_refl t⟩
  | cancelTimerByKey timer key => exact ⟨a, t, expires_setOps ht, le_refl t⟩
  | moveTimer target source =>
    obtain ⟨htime, hfinite⟩ := ht
    rw [TimerMap.next, TimerMap.time_set] at htime
    split at htime
    · cases htime
    · rw [TimerMap.time_set] at htime
      split at htime
      · exact ⟨source, t, ⟨htime, hfinite⟩, le_refl t⟩
      · exact ⟨a, t, ⟨htime, hfinite⟩, le_refl t⟩

theorem exists_root (h : TimerQueue.Good q l) {a : α} {t : Ticks} (ht : q.map.Expires a t) :
    ∃ root ∈ q.queue.heap.head?, root.time ≤ t := by
  have hmem := h.mem_heap.mpr ht
  cases hheap : q.queue.heap with
  | nil => simp [hheap] at hmem
  | cons root rest =>
    refine ⟨root, rfl, ?_⟩
    exact TimerQueue.root_le h.ordered (by simp [hheap]) hmem

end Queue

/-! ### What wakes the reactor -/

section Reactor

variable {κ : Type u} {α : Type v}

/-- The timers will be looked at by `time`, if the reactor waits at all: the timer descriptor is
ready by then, or without one `epoll_wait` returns by then. -/
def State.Covers (s : State κ α) (time : ℚ) : Prop :=
  match s.timerFd with
  | some fd => s.run = .checking ∨ ∃ deadline ∈ fd, deadline ≤ time
  | none => ∀ deadline, s.run = .waiting deadline →
      s.interrupted = true ∨ ∃ d ∈ deadline, d ≤ time

theorem State.Covers.later {s : State κ α} {time time' : ℚ} (h : s.Covers time)
    (hle : time ≤ time') : s.Covers time' := by
  unfold State.Covers at h ⊢
  split at h
  · exact h.imp_right fun ⟨d, hd, hdle⟩ => ⟨d, hd, hdle.trans hle⟩
  · intro deadline hrun
    exact (h deadline hrun).imp_right fun ⟨d, hd, hdle⟩ => ⟨d, hd, hdle.trans hle⟩

theorem covers_waiting {s : State κ α} {time : ℚ} {deadline : Option ℚ} (hfd : s.timerFd = none)
    (h : ∃ d ∈ deadline, d ≤ time) :
    State.Covers { s with run := .waiting deadline } time := by
  unfold State.Covers
  dsimp only
  rw [hfd]
  rintro _ ⟨⟩
  exact .inr h

variable (period : κ → Period)

/-- The clocks run no faster than the monotonic one, or they may be changed. -/
inductive Clocks
  | steady
  | adjustable

/-- The unit in which the reactor waits. -/
def State.unit (s : State κ α) : ℚ := if s.timerFd.isSome then 1 else 1000

/-- When a timer is due at the earliest, and not more than a unit after that. -/
def State.due (s : State κ α) (k : κ) (t : Ticks) : ℚ :=
  s.time + (max 0 (exact .microseconds (period k) (t - s.now k)) + s.unit)

def fiveMinutes : ℚ := 5 * 60 * 1000 * 1000

def State.limit (c : Clocks) (s : State κ α) (k : κ) (t : Ticks) : ℚ :=
  match c with
  | .steady => min (s.time + fiveMinutes) (s.due period k t)
  | .adjustable => s.time + fiveMinutes

/-- A tick of a clock takes as long as it says. -/
def Steady (s : State κ α) : Action κ α → Prop
  | .elapse time now => ∀ k, exact .microseconds (period k) (now k - s.now k) ≤ time - s.time
  | _ => True

instance [Fintype κ] (s : State κ α) (a : Action κ α) : Decidable (Steady period s a) := by
  cases a <;> dsimp only [Steady] <;> infer_instance

structure Sane [DecidableEq α] (c : Clocks) (s : State κ α) : Prop where
  nonneg : 0 ≤ s.time
  good : ∀ k, ∃ l, TimerQueue.Good (s.queues k) l
  covered : ∀ k ∈ s.timerQueues, ∀ a t, (s.queues k).map.Expires a t →
    s.Covers (s.limit period c k t)

section Limit

variable {period} {s s' : State κ α} {c : Clocks}

theorem unit_pos (s : State κ α) : 0 < s.unit := by
  unfold State.unit
  split <;> norm_num

theorem due_mono {k : κ} {t t' : Ticks} (hle : t ≤ t') : s.due period k t ≤ s.due period k t' := by
  have hexact : exact .microseconds (period k) (t - s.now k) ≤
      exact .microseconds (period k) (t' - s.now k) :=
    exact_mono (Int.sub_le_sub_right (show (t : Int) ≤ t' from hle) _)
  have hmax := max_le_max_left 0 hexact
  unfold State.due
  linarith

theorem limit_mono {k : κ} {t t' : Ticks} (hle : t ≤ t') :
    s.limit period c k t ≤ s.limit period c k t' := by
  cases c with
  | steady => exact min_le_min_left _ (due_mono hle)
  | adjustable => exact le_refl _

theorem le_limit {k : κ} {t : Ticks} {d : ℚ} (hmax : d ≤ s.time + fiveMinutes)
    (hdue : d ≤ s.due period k t) : d ≤ s.limit period c k t := by
  cases c with
  | steady => exact le_min hmax hdue
  | adjustable => exact hmax

theorem limit_elapse {time : ℚ} {now : κ → Ticks} (htime : s.time ≤ time)
    (hsteady : c = .steady → Steady period s (.elapse time now)) (k : κ) (t : Ticks) :
    s.limit period c k t ≤ State.limit period c { s with time := time, now := now } k t := by
  cases c with
  | adjustable => exact add_le_add_left htime _
  | steady =>
    refine min_le_min (add_le_add_left htime _) ?_
    have hclock := hsteady rfl k
    have hsplit := exact_sub (p := period k) .microseconds (t - s.now k) (now k - s.now k)
    rw [sub_sub_sub_cancel_right] at hsplit
    have hmax : max 0 (exact .microseconds (period k) (t - s.now k)) ≤
        (time - s.time) + max 0 (exact .microseconds (period k) (t - now k)) := by
      refine max_le ?_ ?_
      · have hzero := le_max_left 0 (exact .microseconds (period k) (t - now k))
        linarith
      · have hleft := le_max_right 0 (exact .microseconds (period k) (t - now k))
        linarith
    have hunit : State.unit { s with time := time, now := now } = s.unit := rfl
    simp only [State.due, hunit]
    linarith

end Limit

/-! ### One step -/

section Step

variable {period} [DecidableEq α] {s s' : State κ α} {c : Clocks}

theorem waitDuration_le {u : TimeUnit} {maxDuration n : Int}
    (h : s.waitDuration period u maxDuration = some n)
    (hgood : ∀ k, ∃ l, TimerQueue.Good (s.queues k) l) {k : κ} (hk : k ∈ s.timerQueues) {a : α}
    {t : Ticks} (ht : (s.queues k).map.Expires a t) :
    (n : ℚ) ≤ max 0 (exact u (period k) (t - s.now k)) + 1 := by
  obtain ⟨l, hl⟩ := hgood k
  obtain ⟨root, hroot, hle⟩ := exists_root hl ht
  have hmem := List.mem_map_of_mem
    (f := fun k => (⟨period k, (s.queues k).queue, s.now k⟩ : ClockQueue α)) hk
  have hqueue := TimerQueueSet.waitDuration_le h hmem root hroot
  have hexact : exact u (period k) (root.time - s.now k) ≤ exact u (period k) (t - s.now k) :=
    exact_mono (Int.sub_le_sub_right (show (root.time : Int) ≤ t from hle) _)
  exact hqueue.trans (add_le_add_left (max_le_max_left 0 hexact) 1)

/-- The timer descriptor is set for the first timer, or for an earlier time. -/
theorem getTimeout_le {deadline : ℚ} (h : s.getTimeout period = some deadline)
    (hnonneg : 0 ≤ s.time) (hgood : ∀ k, ∃ l, TimerQueue.Good (s.queues k) l)
    (hfd : s.timerFd.isSome = true) {k : κ} (hk : k ∈ s.timerQueues) {a : α} {t : Ticks}
    (ht : (s.queues k).map.Expires a t) : deadline ≤ s.limit period c k t := by
  obtain ⟨usec, husec, rfl⟩ := Option.map_eq_some_iff.mp h
  have hzero := le_max_left 0 (exact .microseconds (period k) (t - s.now k))
  have hunit : s.unit = 1 := if_pos hfd
  by_cases hne : usec ≠ 0
  · rw [if_pos hne, microseconds_itValue hne]
    have hmax : (usec : ℚ) ≤ fiveMinutes := by
      have hle : usec ≤ 300000000 := TimerQueueSet.waitDuration_le_max husec
      unfold fiveMinutes
      calc (usec : ℚ) ≤ (300000000 : Int) := by exact_mod_cast hle
        _ = 5 * 60 * 1000 * 1000 := by norm_num
    have hdue := waitDuration_le husec hgood hk ht
    refine le_limit (by linarith) ?_
    unfold State.due
    rw [hunit]
    linarith
  · rw [if_neg hne, not_not.mp hne]
    have hvalue : microseconds (itValue 0) = 1 / 1000 := by
      simp [microseconds, itValue]
    rw [hvalue]
    refine le_limit ?_ ?_
    · unfold fiveMinutes
      linarith
    · unfold State.due
      rw [hunit]
      linarith

theorem getTimeoutMsec_le {msec n : Int} (h : s.getTimeoutMsec period msec = some n)
    (hgood : ∀ k, ∃ l, TimerQueue.Good (s.queues k) l) (hfd : s.timerFd = none) {k : κ}
    (hk : k ∈ s.timerQueues) {a : α} {t : Ticks} (ht : (s.queues k).map.Expires a t) :
    s.time + 1000 * n ≤ s.limit period c k t := by
  have hunit : s.unit = 1000 := by simp [State.unit, hfd]
  have hmax : (n : ℚ) ≤ 300000 := by
    have hle := TimerQueueSet.waitDuration_le_max h
    have hn : n ≤ 300000 := by
      unfold maxMsec at hle
      split at hle <;> omega
    exact_mod_cast hn
  have hdue := waitDuration_le h hgood hk ht
  have hscale : 1000 * max 0 (exact .milliseconds (period k) (t - s.now k)) =
      max 0 (exact .microseconds (period k) (t - s.now k)) := by
    rw [mul_max_of_nonneg _ _ (by norm_num), mul_zero, exact_milliseconds]
  refine le_limit ?_ ?_
  · unfold fiveMinutes
    linarith
  · unfold State.due
    rw [hunit]
    linarith

theorem sane_initial (created : Bool) (now : κ → Ticks) :
    Sane period c (initial created now : State κ α) where
  nonneg := le_refl 0
  good _ := ⟨[], TimerQueue.initial_good⟩
  covered _ hk := absurd hk List.not_mem_nil

namespace Sane

/-- Nothing wakes the reactor later, and no timer is due before all those that there were. -/
theorem keep (h : Sane period c s) (htime : s'.time = s.time) (hnow : s'.now = s.now)
    (hfd : s'.timerFd = s.timerFd) (hgood : ∀ k, ∃ l, TimerQueue.Good (s'.queues k) l)
    (hcovers : ∀ time, s.Covers time → s'.Covers time)
    (hlater : ∀ k ∈ s'.timerQueues, ∀ a t, (s'.queues k).map.Expires a t →
      k ∈ s.timerQueues ∧ ∃ b t', (s.queues k).map.Expires b t' ∧ t' ≤ t) :
    Sane period c s' where
  nonneg := by rw [htime]; exact h.nonneg
  good := hgood
  covered := by
    intro k hk a t ht
    obtain ⟨hk', b, t', ht', hle⟩ := hlater k hk a t ht
    have hlimit : s'.limit period c k t = s.limit period c k t := by
      unfold State.limit State.due State.unit
      rw [htime, hnow, hfd]
    rw [hlimit]
    exact hcovers _ ((h.covered k hk' b t' ht').later (limit_mono hle))

/-- Another point of `run`, at which a reactor without a timer descriptor does not wait. -/
theorem goto (h : Sane period c s) (hrun : s.run ≠ .checking) {run : Run} {interrupted : Bool}
    (hwait : s.timerFd = none → ∀ deadline, run ≠ .waiting deadline) :
    Sane period c { s with run := run, interrupted := interrupted } := by
  refine h.keep rfl rfl rfl h.good (fun time hcovers => ?_) fun k hk a t ht =>
    ⟨hk, a, t, ht, le_refl t⟩
  unfold State.Covers at hcovers ⊢
  cases hfd : s.timerFd with
  | some fd =>
    simp only [hfd] at hcovers ⊢
    exact .inr (hcovers.resolve_left hrun)
  | none =>
    exact fun deadline heq => absurd heq (hwait hfd deadline)

/-- The timeout is set, or will be: whatever it was, it covers all timers. -/
theorem updateTimeout (hnonneg : 0 ≤ s.time) (hgood : ∀ k, ∃ l, TimerQueue.Good (s.queues k) l)
    (h : s.updateTimeout period = some s') : Sane period c s' := by
  unfold State.updateTimeout at h
  split at h
  · rename_i fd hfd
    obtain ⟨deadline, hdeadline, rfl⟩ := Option.map_eq_some_iff.mp h
    refine ⟨hnonneg, hgood, fun k hk a t ht => .inr ⟨deadline, rfl, ?_⟩⟩
    have hle := getTimeout_le (c := c) hdeadline hnonneg hgood (by simp [hfd]) hk ht
    refine hle.trans (le_of_eq ?_)
    simp only [State.limit, State.due, State.unit, hfd, Option.isSome_some]
  · rename_i hfd
    cases h
    refine ⟨hnonneg, hgood, fun k _ a t _ => ?_⟩
    simp [State.Covers, hfd]

theorem setTime (hnonneg : 0 ≤ s.time) (hgood : ∀ k, ∃ l, TimerQueue.Good (s.queues k) l)
    (h : s.setTime period = some s') : Sane period c s' := by
  unfold State.setTime at h
  split at h
  · rename_i fd hfd
    obtain ⟨deadline, hdeadline, rfl⟩ := Option.map_eq_some_iff.mp h
    refine ⟨hnonneg, hgood, fun k hk a t ht => .inr ⟨deadline, rfl, ?_⟩⟩
    have hle := getTimeout_le (c := c) hdeadline hnonneg hgood (by simp [hfd]) hk ht
    refine hle.trans (le_of_eq ?_)
    simp only [State.limit, State.due, State.unit, hfd, Option.isSome_some]
  · rename_i hfd
    cases h
    refine ⟨hnonneg, hgood, fun k _ a t _ => ?_⟩
    simp [State.Covers, hfd]

/-- Without a timer descriptor, what bounds the wait is the first timer. -/
theorem startRun_cases (hgood : ∀ k, ∃ l, TimerQueue.Good (s.queues k) l) {usec : Int}
    (hs : s.startRun period usec = some s') : ∃ deadline,
      s' = { s with run := .waiting deadline } ∧ (s.timerFd = none → ∀ k ∈ s.timerQueues, ∀ a t,
        (s.queues k).map.Expires a t → ∃ d ∈ deadline, d ≤ s.limit period c k t) := by
  unfold State.startRun at hs
  split at hs
  · refine ⟨_, (Option.some.inj hs).symm, fun hfd k _ a t _ => ⟨s.time, rfl, le_limit ?_ ?_⟩⟩
    · unfold fiveMinutes
      linarith
    · have hzero := le_max_left 0 (exact .microseconds (period k) (t - s.now k))
      have hunit := unit_pos s
      unfold State.due
      linarith
  · dsimp only at hs
    split at hs
    · rename_i fd hfd
      exact ⟨_, (Option.some.inj hs).symm, fun hnone => absurd (hfd.symm.trans hnone) (by simp)⟩
    · rename_i hfd
      obtain ⟨msec, hmsec, rfl⟩ := Option.map_eq_some_iff.mp hs
      exact ⟨_, rfl, fun _ k hk a t ht => ⟨_, rfl, getTimeoutMsec_le hmsec hgood hfd hk ht⟩⟩

theorem startRun (h : Sane period c s) {usec : Int} (hrun : s.run = .idle)
    (hs : s.startRun period usec = some s') : Sane period c s' := by
  obtain ⟨deadline, rfl, hdeadline⟩ := startRun_cases (c := c) h.good hs
  by_cases hfd : s.timerFd = none
  · exact ⟨h.nonneg, h.good, fun k hk a t ht => covers_waiting hfd (hdeadline hfd k hk a t ht)⟩
  · exact h.goto (by simp [hrun]) fun hnone => absurd hnone hfd

section Queues

variable [DecidableEq κ]

omit [DecidableEq α] in
theorem good_setQueue (hgood : ∀ k, ∃ l, TimerQueue.Good (s.queues k) l) {k : κ}
    {q : TimerQueue.State Ticks α} (hq : ∃ l, TimerQueue.Good q l) (k' : κ) :
    ∃ l, TimerQueue.Good ((s.setQueue k q).queues k') l := by
  by_cases hk : k' = k
  · subst hk
    rwa [State.setQueue_self]
  · rw [State.setQueue_of_ne s q hk]
    exact hgood k'

theorem setQueue (h : Sane period c s) {k : κ} {q : TimerQueue.State Ticks α}
    (hq : ∃ l, TimerQueue.Good q l) (hlater : Later (s.queues k) q) :
    Sane period c (s.setQueue k q) := by
  refine h.keep rfl rfl rfl (good_setQueue h.good hq) (fun _ hcovers => hcovers) ?_
  intro k' hk' a t ht
  refine ⟨hk', ?_⟩
  by_cases hk : k' = k
  · subst hk
    rw [State.setQueue_self] at ht
    exact hlater a t ht
  · rw [State.setQueue_of_ne s q hk] at ht
    exact ⟨a, t, ht, le_refl t⟩

theorem scheduleTimer (h : Sane period c s) {k : κ} {time : Ticks} {timer : α} {op : WaitOp}
    (hs : s.scheduleTimer period k time timer op = some s') : Sane period c s' := by
  unfold State.scheduleTimer at hs
  split at hs
  · cases hs
    exact h
  · obtain ⟨⟨q, r⟩, hr, hs⟩ := Option.bind_eq_some_iff.mp hs
    obtain ⟨l, hl⟩ := h.good k
    obtain ⟨-, -, hgood⟩ := respond_answer hl hr
    cases hearliest : r.earliest with
    | true =>
      simp only [hearliest, if_true] at hs
      exact updateTimeout (s := s.setQueue k q) h.nonneg (good_setQueue h.good hgood) hs
    | false =>
      simp only [hearliest, Bool.false_eq_true, if_false, Option.some.injEq] at hs
      subst hs
      exact h.setQueue hgood (later_of_respond hl hr (.inl hearliest))

/-- What does not schedule a timer. -/
theorem respond (h : Sane period c s) {k : κ} {action : TimerMap.Action Ticks α}
    {q : TimerQueue.State Ticks α} {r : TimerMap.Result}
    (hr : TimerQueue.respond (s.queues k) action = some (q, r))
    (haction : ∀ time timer op, action ≠ .enqueueTimer time timer op) :
    Sane period c (s.setQueue k q) := by
  obtain ⟨l, hl⟩ := h.good k
  obtain ⟨-, -, hgood⟩ := respond_answer hl hr
  exact h.setQueue hgood (later_of_respond hl hr (.inr haction))

theorem moveTimer (h : Sane period c s) {k : κ} {target source : α}
    (hs : s.moveTimer k target source = some s') : Sane period c s' := by
  obtain ⟨⟨q, r⟩, hcancel, hs⟩ := Option.bind_eq_some_iff.mp hs
  obtain ⟨⟨q', r'⟩, hmove, rfl⟩ := Option.map_eq_some_iff.mp hs
  obtain ⟨l, hl⟩ := h.good k
  obtain ⟨-, -, l', hl'⟩ := respond_answer hl hcancel
  obtain ⟨-, -, hgood⟩ := respond_answer hl' hmove
  have hlater := later_of_respond hl hcancel (.inr (by simp))
  exact h.setQueue hgood (hlater.trans (later_of_respond hl' hmove (.inr (by simp))))

/-- Nothing is known of the timers that are left: the timeout is still to be set. -/
theorem getReadyTimers {ks : List κ} (hgood : ∀ k, ∃ l, TimerQueue.Good (s.queues k) l)
    (hs : s.getReadyTimers ks = some s') :
    (∀ k, ∃ l, TimerQueue.Good (s'.queues k) l) ∧ s'.time = s.time := by
  induction ks generalizing s with
  | nil =>
    cases hs
    exact ⟨hgood, rfl⟩
  | cons k ks ih =>
    obtain ⟨⟨q, r⟩, hr, hs⟩ := Option.bind_eq_some_iff.mp hs
    obtain ⟨l, hl⟩ := hgood k
    obtain ⟨-, -, hq⟩ := respond_answer hl hr
    exact ih (s := s.setQueue k q) (good_setQueue hgood hq) hs

theorem finishRun (h : Sane period c s) {checkTimers : Bool} (hrun : s.run = .returned checkTimers)
    (hs : s.finishRun checkTimers = some s') : Sane period c s' := by
  unfold State.finishRun at hs
  split at hs
  · obtain ⟨t, ht, rfl⟩ := Option.map_eq_some_iff.mp hs
    obtain ⟨hgood, htime⟩ := getReadyTimers h.good ht
    refine ⟨htime.symm ▸ h.nonneg, hgood, fun k _ a time _ => ?_⟩
    unfold State.Covers
    dsimp only
    split
    · exact .inl rfl
    · simp
  · cases hs
    exact h.goto (by simp [hrun]) (by simp)

end Queues

end Sane

/-- A step of one of the threads, or of the clocks. -/
theorem Sane.step [DecidableEq κ] (h : Sane period c s) {a : Action κ α}
    (hsteady : c = .steady → Steady period s a) (hs : step period s a = some s') :
    Sane period c s' := by
  cases a with
  | elapse time now =>
    simp only [EpollTimers.step, Option.ite_none_right_eq_some, Option.some.injEq] at hs
    obtain ⟨hle, rfl⟩ := hs
    exact ⟨h.nonneg.trans hle, h.good, fun k hk a t ht =>
      (h.covered k hk a t ht).later (limit_elapse hle hsteady k t)⟩
  | addTimerQueue k =>
    simp only [EpollTimers.step, Option.ite_none_left_eq_some, Option.some.injEq, not_or] at hs
    obtain ⟨⟨hk, -⟩, rfl⟩ := hs
    refine h.keep rfl rfl rfl (good_setQueue h.good ⟨[], TimerQueue.initial_good⟩)
      (fun _ hcovers => hcovers) fun k' hk' a t ht => ?_
    obtain rfl | hk' := List.mem_cons.mp hk'
    · simp [TimerQueue.initial, TimerMap.Expires, TimerMap.time, State.setQueue_self] at ht
    · have hne : k' ≠ k := fun heq => hk (heq ▸ hk')
      exact ⟨hk', a, t, by simpa [State.setQueue_of_ne s _ hne] using ht, le_refl t⟩
  | removeTimerQueue k =>
    simp only [EpollTimers.step, Option.ite_none_right_eq_some, Option.some.injEq] at hs
    obtain ⟨-, rfl⟩ := hs
    refine h.keep rfl rfl rfl h.good (fun _ hcovers => hcovers) fun k' hk' a t ht => ?_
    exact ⟨List.mem_of_mem_erase hk', a, t, ht, le_refl t⟩
  | scheduleTimer k time timer op =>
    simp only [EpollTimers.step, Option.ite_none_right_eq_some] at hs
    exact h.scheduleTimer hs.2
  | cancelTimer k timer maxCancelled =>
    simp only [EpollTimers.step, Option.ite_none_right_eq_some] at hs
    obtain ⟨⟨q, r⟩, hr, rfl⟩ := Option.map_eq_some_iff.mp hs.2
    exact h.respond hr (by simp)
  | cancelTimerByKey k timer cancellationKey =>
    simp only [EpollTimers.step, Option.ite_none_right_eq_some] at hs
    obtain ⟨⟨q, r⟩, hr, rfl⟩ := Option.map_eq_some_iff.mp hs.2
    exact h.respond hr (by simp)
  | moveTimer k target source =>
    simp only [EpollTimers.step, Option.ite_none_right_eq_some] at hs
    exact h.moveTimer hs.2
  | interrupt =>
    cases hs
    refine h.keep rfl rfl rfl h.good (fun time hcovers => ?_) fun k hk a t ht =>
      ⟨hk, a, t, ht, le_refl t⟩
    unfold State.Covers at hcovers ⊢
    cases hfd : s.timerFd with
    | some fd => simpa only [hfd] using hcovers
    | none => simp
  | startRun usec =>
    simp only [EpollTimers.step, Option.ite_none_right_eq_some] at hs
    exact h.startRun hs.1 hs.2
  | wake timer interrupter =>
    simp only [EpollTimers.step] at hs
    split at hs
    · rename_i deadline hrun
      simp only [Option.ite_none_right_eq_some, Option.some.injEq] at hs
      obtain ⟨-, rfl⟩ := hs
      exact h.goto (by simp [hrun]) (by simp)
    · cases hs
  | finishRun =>
    simp only [EpollTimers.step] at hs
    split at hs
    · rename_i checkTimers hrun
      exact h.finishRun hrun hs
    · cases hs
  | setTime =>
    simp only [EpollTimers.step, Option.ite_none_right_eq_some] at hs
    exact Sane.setTime h.nonneg h.good hs.2
  | notifyFork created =>
    simp only [EpollTimers.step, Option.ite_none_right_eq_some] at hs
    exact Sane.updateTimeout (s := { s with
      timerFd := if created then some none else none, interrupted := true }) h.nonneg h.good hs.2
  | shutdown =>
    simp only [EpollTimers.step, Option.ite_none_left_eq_some, Option.some.injEq] at hs
    obtain ⟨-, rfl⟩ := hs
    exact h.keep rfl rfl rfl h.good (fun _ hcovers => hcovers) fun k hk a t ht =>
      ⟨hk, a, t, ht, le_refl t⟩

end Step

/-! ### Runs -/

section Runs

variable {period} [DecidableEq κ] [DecidableEq α] {created : Bool} {now : κ → Ticks}
  {s : State κ α} {k : κ} {a : α} {t : Ticks}

/-- While the clocks run no faster than the monotonic one, the reactor is woken not more than a unit
after a timer is due: a microsecond if there is a timer descriptor, and else a millisecond. -/
theorem timers_covered (h : Reachable (step period) (Steady period) (initial created now) s)
    (hk : k ∈ s.timerQueues) (ht : (s.queues k).map.Expires a t) : s.Covers (s.due period k t) := by
  have hs : Sane period .steady s :=
    h.invariant (sane_initial created now) fun hi hok hstep => hi.step (fun _ => hok) hstep
  exact (hs.covered k hk a t ht).later (min_le_right _ _)

/-- While there are timers, the reactor is woken after five minutes at most, however the clocks are
changed. -/
theorem timers_covered_fiveMinutes
    (h : Reachable (step period) (fun _ _ => True) (initial created now) s)
    (hk : k ∈ s.timerQueues) (ht : (s.queues k).map.Expires a t) :
    s.Covers (s.time + fiveMinutes) := by
  have hs : Sane period .adjustable s :=
    h.invariant (sane_initial created now) fun hi _ hstep => hi.step nofun hstep
  exact hs.covered k hk a t ht

end Runs

end Reactor

/-! ### A timer that is waited for -/

theorem billion_pos : 0 < 1000000000 := by decide

theorem coprime_billion : Nat.Coprime 1 1000000000 := Nat.coprime_one_left _

theorem billion_le_int64Max : ((1000000000 : Nat) : Int) ≤ int64Max := by decide

def nanoseconds : Period :=
  ⟨1, 1000000000, seconds.num_pos, billion_pos, coprime_billion, seconds.num_le,
    billion_le_int64Max⟩

def ticks (n : Int) (h : InInt64 n) : Ticks := ⟨n, h⟩

def started (created : Bool) : State Unit Nat := initial created fun _ => ticks 0 (by decide)

/-- A timer at five milliseconds, before which the clock is set to `now`. -/
def waitsForTimer (now : Ticks) : List (Action Unit Nat) :=
  [.addTimerQueue (), .scheduleTimer () (ticks 5000000 (by decide)) 3 ⟨0, 0, .success⟩,
    .startRun (-1), .elapse 1000 fun _ => now]

theorem timers_covered_waitsForTimer : ∃ s, exec (guarded (step fun _ => nanoseconds)
    (Steady fun _ => nanoseconds)) (started true) (waitsForTimer (ticks 1000000 (by decide))) =
      some s ∧ s.run = .waiting none ∧
        s.Covers (s.due (fun _ => nanoseconds) () (ticks 5000000 (by decide))) := by
  have hrun : ∃ s ∈ exec (guarded (step fun _ => nanoseconds) (Steady fun _ => nanoseconds))
      (started true) (waitsForTimer (ticks 1000000 (by decide))), s.run = .waiting none ∧
        () ∈ s.timerQueues ∧ (s.queues ()).map.time 3 = some (ticks 5000000 (by decide)) := by
    decide +kernel
  obtain ⟨s, hs, hwaiting, hk, ht⟩ := hrun
  exact ⟨s, hs, hwaiting, timers_covered (exec_guarded_reachable hs) hk ⟨ht, rfl⟩⟩

/-- The clock is set back by an hour. -/
theorem timers_covered_fiveMinutes_setBack : ∃ s, exec (guarded (step fun _ => nanoseconds)
    fun _ _ => True) (started false) (waitsForTimer (ticks (-3600000000000) (by decide))) =
      some s ∧ s.Covers (s.time + fiveMinutes) := by
  have hrun : ∃ s ∈ exec (guarded (step fun _ => nanoseconds) fun _ _ => True)
      (started false) (waitsForTimer (ticks (-3600000000000) (by decide))),
        () ∈ s.timerQueues ∧ (s.queues ()).map.time 3 = some (ticks 5000000 (by decide)) := by
    decide +kernel
  obtain ⟨s, hs, hk, ht⟩ := hrun
  exact ⟨s, hs, timers_covered_fiveMinutes (exec_guarded_reachable hs) hk ⟨ht, rfl⟩⟩

end Asio.Detail.EpollTimers
