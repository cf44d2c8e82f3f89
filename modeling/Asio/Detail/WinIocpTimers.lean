import Asio.Lib.Interleaving

/-! How the timers wake a thread of the I/O completion port: another thread waits for a waitable
timer, sets a flag, and posts a packet that makes a thread look at the flag. -/

universe u

namespace Asio.Detail.WinIocpTimers

open Asio.Lib Transition Interleaving

set_option linter.unusedSectionVars false

def maxTimeoutMsec : Int := 5 * 60 * 1000

def maxTimeoutUsec : Int := maxTimeoutMsec * 1000

/-- A completed operation may not be ready for invocation yet, a stop event may be a leftover. -/
inductive Packet
  | operation (ready : Bool)
  | wakeForDispatch
  | stop (stopped : Bool)
  deriving DecidableEq

/-- Where the timer thread is in its loop: it waits for the waitable timer, it has been released and
requires a dispatch, or it wakes a thread. -/
inductive TimerThread
  | waiting | requiring | waking
  deriving DecidableEq

/-- Times are in ticks. A timer queue is the times of its timers. The waitable timer is signalled
when it is due. -/
structure World where
  now : Int
  due : Int
  timerThread : Option TimerThread
  timerQueues : List (List Int)
  dispatchMutex : Bool
  dispatchRequired : Bool
  port : List Packet

/-- A call in progress, at its next access to what the threads share. What follows
`update_timeout` is the rest of `do_one` or nothing. -/
inductive Call
  | doOne (infinite : Bool)
  | lockForDispatch (infinite : Bool)
  | dispatch (infinite : Bool)
  | updateTimeout (rest : Option Bool)
  | unlock (rest : Option Bool)
  | getQueued (infinite : Bool)
  | complete
  | scheduleTimer (queue : Nat) (time : Int)
  | enqueueTimer (queue : Nat) (time : Int)
  | cancelTimer (queue : Nat) (time : Int)
  | dequeueTimer (queue : Nat) (time : Int)
  | addTimerQueue
  | insertTimerQueue
  | removeTimerQueue (queue : Nat)
  | eraseTimerQueue (queue : Nat)
  deriving DecidableEq

inductive Action
  | doOne (infinite : Bool)
  | scheduleTimer (queue : Nat) (time : Int)
  | cancelTimer (queue : Nat) (time : Int)
  | addTimerQueue
  | removeTimerQueue (queue : Nat)
  | step
  | timeout
  | getQueuedFails
  | post (p : Packet)
  | timerThread
  | tick (ticks : Nat)
  deriving DecidableEq

/-! ### The waitable timer -/

section Timer

variable (usec : Int)

/-- A duration of `d` ticks, of which `usec` make a microsecond. -/
def toUsec (d maxDuration : Int) : Int :=
  if d ≤ 0 then 0
  else if d / usec = 0 then 1
  else if d / usec > maxDuration then maxDuration
  else d / usec

/-- `timer_queue::wait_duration_usec` -/
def queueWait (now maxDuration : Int) (queue : List Int) : Int :=
  queue.min?.elim maxDuration fun time => toUsec usec (time - now) maxDuration

def World.waitDurationUsec (w : World) (maxDuration : Int) : Int :=
  w.timerQueues.foldl (queueWait usec w.now) maxDuration

/-- A due time of zero is long ago, so that the timer is signalled at once. -/
def World.setWaitableTimer (w : World) (timeoutUsec : Int) : World :=
  { w with due := w.now + timeoutUsec * usec }

def World.updateTimeout (w : World) : World :=
  if w.timerThread.isSome ∧ w.waitDurationUsec usec maxTimeoutUsec < maxTimeoutUsec then
    w.setWaitableTimer usec (w.waitDurationUsec usec maxTimeoutUsec)
  else
    w

/-- The timer is due again a whole number of periods later. -/
def World.resetWaitableTimer (w : World) : World :=
  let period := maxTimeoutUsec * usec
  { w with due := w.due + period * ((w.now - w.due) / period + 1) }

/-- One step of the timer thread. -/
def World.stepTimerThread (w : World) : Option World :=
  match w.timerThread with
  | some .waiting =>
    if w.due ≤ w.now then
      some { w.resetWaitableTimer usec with timerThread := some .requiring }
    else
      none
  | some .requiring => some { w with dispatchRequired := true, timerThread := some .waking }
  | some .waking =>
    some { w with port := w.port ++ [.wakeForDispatch], timerThread := some .waiting }
  | none => none

end Timer

/-! ### The threads -/

section Threads

variable (usec : Int)

/-- `get_ready_timers`, and the operations of the ready timers are posted. -/
def World.dispatch (w : World) : World :=
  { w with
    timerQueues := w.timerQueues.map (·.filter (w.now < ·))
    port := w.port ++
      (w.timerQueues.flatMap (·.filter (· ≤ w.now))).map fun _ => .operation true }

/-- Whether the new timer is the earliest of its queue. -/
def World.earliest (w : World) (queue : Nat) (time : Int) : Bool :=
  (w.timerQueues[queue]?.getD []).all (time < ·)

def World.modifyQueue (w : World) (queue : Nat) (f : List Int → List Int) : World :=
  { w with timerQueues := w.timerQueues.modify queue f }

/-- `do_add_timer_queue`, which makes the waitable timer and its thread for the first queue. -/
def World.insertTimerQueue (w : World) : World :=
  let w := { w with timerQueues := [] :: w.timerQueues }
  if w.timerThread.isNone then
    { w.setWaitableTimer usec maxTimeoutUsec with timerThread := some .waiting }
  else
    w

/-- A packet that a thread has dequeued. -/
def received (infinite : Bool) : Packet → List Call
  | .operation ready => if ready then [.complete] else [.doOne infinite]
  | .wakeForDispatch => [.doOne infinite]
  | .stop stopped => if stopped then [] else [.doOne infinite]

def World.lock (w : World) (c : Call) : Option (World × List Call) :=
  if w.dispatchMutex then none else some ({ w with dispatchMutex := true }, [c])

def advance (w : World) : Call → Option (World × List Call)
  | .doOne infinite =>
    some ({ w with dispatchRequired := false },
      if w.dispatchRequired then [.lockForDispatch infinite] else [.getQueued infinite])
  | .lockForDispatch infinite => w.lock (.dispatch infinite)
  | .dispatch infinite => some (w.dispatch, [.updateTimeout (some infinite)])
  | .updateTimeout rest => some (w.updateTimeout usec, [.unlock rest])
  | .unlock rest => some ({ w with dispatchMutex := false }, (rest.map .getQueued).toList)
  | .getQueued infinite =>
    match w.port with
    | [] => none
    | p :: port => some ({ w with port := port }, received infinite p)
  | .complete => some (w, [])
  | .scheduleTimer queue time => w.lock (.enqueueTimer queue time)
  | .enqueueTimer queue time =>
    some (w.modifyQueue queue (· ++ [time]),
      if w.earliest queue time then [.updateTimeout none] else [.unlock none])
  | .cancelTimer queue time => w.lock (.dequeueTimer queue time)
  | .dequeueTimer queue time => some (w.modifyQueue queue (·.erase time), [.unlock none])
  | .addTimerQueue => w.lock .insertTimerQueue
  | .insertTimerQueue => some (w.insertTimerQueue usec, [.unlock none])
  | .removeTimerQueue queue => w.lock (.eraseTimerQueue queue)
  | .eraseTimerQueue queue =>
    some ({ w with timerQueues := w.timerQueues.eraseIdx queue }, [.unlock none])

/-- Handlers and code outside the io_context may call it. -/
def mayCall : List Call → Bool
  | [] => true
  | .complete :: _ => true
  | _ => false

def begin (w : World) (calls : List Call) (c : Call) : Option (World × List Call) :=
  if mayCall calls then some (w, c :: calls) else none

def perform {ι : Type u} (_ : ι) (w : World) (calls : List Call) :
    Action → Option (World × List Call)
  | .doOne infinite => begin w calls (.doOne infinite)
  | .scheduleTimer queue time => begin w calls (.scheduleTimer queue time)
  | .cancelTimer queue time => begin w calls (.cancelTimer queue time)
  | .addTimerQueue => begin w calls .addTimerQueue
  | .removeTimerQueue queue => begin w calls (.removeTimerQueue queue)
  | .step =>
    match calls with
    | [] => none
    | c :: rest => (advance usec w c).map fun (w, new) => (w, new ++ rest)
  | .timeout =>
    match calls with
    | .getQueued infinite :: rest =>
      if w.port = [] then some (w, if infinite then .doOne infinite :: rest else rest) else none
    | _ => none
  | .getQueuedFails =>
    match calls with
    | .getQueued _ :: rest => some (w, rest)
    | _ => none
  | .post p =>
    if p = .wakeForDispatch then none else some ({ w with port := w.port ++ [p] }, calls)
  | .timerThread => (w.stepTimerThread usec).map fun w => (w, calls)
  | .tick ticks => some ({ w with now := w.now + ticks }, calls)

abbrev State (ι : Type u) := Interleaving.State ι World (List Call)

def World.construct (now : Int) : World where
  now := now
  due := now
  timerThread := none
  timerQueues := []
  dispatchMutex := false
  dispatchRequired := false
  port := []

def initial {ι : Type u} (now : Int) : State ι := ⟨.construct now, fun _ => []⟩

def step {ι : Type u} [DecidableEq ι] : State ι → ι × Action → Option (State ι) :=
  Interleaving.step (perform usec)

end Threads

/-! ### What is due in time -/

/-- The waitable timer is due when a timer of the queues expires, or a microsecond later. -/
def World.InTime (usec : Int) (w : World) : Prop :=
  ∀ queue ∈ w.timerQueues, ∀ time ∈ queue, w.due ≤ max w.now time + usec

section Waiting

variable {usec : Int} {w w' : World}

theorem toUsec_le {d maxDuration : Int} :
    toUsec usec d maxDuration ≤ max maxDuration 1 ∧
      toUsec usec d maxDuration ≤ max 1 (d / usec) := by
  unfold toUsec
  split
  · omega
  · split
    · omega
    · split
      · omega
      · omega

theorem queueWait_le (usec now maxDuration : Int) (queue : List Int) :
    queueWait usec now maxDuration queue ≤ max maxDuration 1 := by
  unfold queueWait
  cases queue.min? with
  | none => exact le_max_left ..
  | some time => exact toUsec_le.1

theorem foldl_queueWait_le (usec now maxDuration : Int) (queues : List (List Int)) :
    queues.foldl (queueWait usec now) maxDuration ≤ max maxDuration 1 := by
  induction queues generalizing maxDuration with
  | nil => exact le_max_left ..
  | cons queue queues ih =>
    have hqueue := queueWait_le usec now maxDuration queue
    have hrest := ih (queueWait usec now maxDuration queue)
    rw [List.foldl_cons]
    omega

theorem queueWait_le_of_mem (husec : 0 < usec) (now maxDuration : Int) {time : Int}
    {queue : List Int} (htime : time ∈ queue) :
    queueWait usec now maxDuration queue ≤ max 1 ((time - now) / usec) := by
  unfold queueWait
  cases hmin : queue.min? with
  | none =>
    rw [List.min?_eq_none_iff.mp hmin] at htime
    cases htime
  | some first =>
    have hle : first ≤ time := (List.min?_eq_some_iff.mp hmin).2 time htime
    have hdiv : (first - now) / usec ≤ (time - now) / usec :=
      Int.ediv_le_ediv husec (by omega)
    exact toUsec_le.2.trans (max_le_max le_rfl hdiv)

theorem waitDurationUsec_le (husec : 0 < usec) (maxDuration : Int) {time : Int} {queue : List Int}
    (hqueue : queue ∈ w.timerQueues) (htime : time ∈ queue) :
    w.waitDurationUsec usec maxDuration ≤ max 1 ((time - w.now) / usec) := by
  obtain ⟨before, after, heq⟩ := List.append_of_mem hqueue
  rw [World.waitDurationUsec, heq, List.foldl_append, List.foldl_cons]
  have hthis := queueWait_le_of_mem husec w.now
    (before.foldl (queueWait usec w.now) maxDuration) htime
  have hafter := foldl_queueWait_le usec w.now
    (queueWait usec w.now (before.foldl (queueWait usec w.now) maxDuration) queue) after
  omega

theorem mul_usec_le (husec : 0 < usec) {n d : Int} (h : n ≤ d / usec) : n * usec ≤ d :=
  (Int.mul_le_mul_of_nonneg_right h husec.le).trans (Int.ediv_mul_le d husec.ne')

/-- The waitable timer is in time after `update_timeout`. -/
theorem updateTimeout_inTime (husec : 0 < usec)
    (created : w.timerQueues ≠ [] → w.timerThread.isSome)
    (period : w.due ≤ w.now + maxTimeoutUsec * usec) : (w.updateTimeout usec).InTime usec := by
  unfold World.updateTimeout
  split
  · intro queue hqueue time htime
    have hwait := waitDurationUsec_le (w := w) husec maxTimeoutUsec hqueue htime
    simp only [World.setWaitableTimer]
    rcases le_max_iff.mp hwait with h | h
    · have hone := Int.mul_le_mul_of_nonneg_right h husec.le
      rw [Int.one_mul] at hone
      exact Int.add_le_add (le_max_left ..) hone
    · have hmul := mul_usec_le husec h
      have hmax := le_max_right w.now time
      omega
  · rename_i hnot
    intro queue hqueue time htime
    have hwait := waitDurationUsec_le husec maxTimeoutUsec hqueue htime
    have hlarge : maxTimeoutUsec ≤ w.waitDurationUsec usec maxTimeoutUsec := by
      by_contra hlt
      exact hnot ⟨created (List.ne_nil_of_mem hqueue), by omega⟩
    have hperiod : maxTimeoutUsec ≤ (time - w.now) / usec := by
      refine (le_max_iff.mp (hlarge.trans hwait)).resolve_left (by decide)
    have hmul := mul_usec_le husec hperiod
    have hmax := le_max_right w.now time
    omega

/-- Nothing is later than a period after the present. -/
theorem updateTimeout_period (husec : 0 < usec)
    (period : w.due ≤ w.now + maxTimeoutUsec * usec) :
    (w.updateTimeout usec).due ≤ w.now + maxTimeoutUsec * usec := by
  unfold World.updateTimeout
  split
  · rename_i h
    have hmul := Int.mul_le_mul_of_nonneg_right h.2.le husec.le
    exact Int.add_le_add_left hmul w.now
  · exact period

theorem resetWaitableTimer_period (husec : 0 < usec) :
    (w.resetWaitableTimer usec).due ≤ w.now + maxTimeoutUsec * usec := by
  have hpos : 0 < maxTimeoutUsec * usec := Int.mul_pos (by decide) husec
  have hdiv := Int.mul_ediv_self_le (x := w.now - w.due) hpos.ne'
  simp only [World.resetWaitableTimer, Int.mul_add, Int.mul_one]
  omega

end Waiting

/-! ### The hand-off -/

/-- The call will set the waitable timer. -/
@[simp] def Call.updates : Call → Nat
  | .lockForDispatch _ | .dispatch _ | .updateTimeout _ => 1
  | _ => 0

/-- The call will look at the flag. -/
@[simp] def Call.checks : Call → Nat
  | .doOne _ => 1
  | _ => 0

/-- Some of the timer, the flag and the packet is on its way. -/
structure HandedOff (usec : Int) (updates checks : Nat) (w : World) : Prop where
  created : w.timerQueues ≠ [] → w.timerThread.isSome
  period : w.due ≤ w.now + maxTimeoutUsec * usec
  armed : w.InTime usec ∨ w.dispatchRequired = true ∨ w.timerThread = some .requiring ∨ 0 < updates
  woken : w.dispatchRequired = true →
    .wakeForDispatch ∈ w.port ∨ w.timerThread = some .waking ∨ 0 < checks

section Steps

variable {usec : Int} {w w' : World} {c : Call} {new : List Call} {m n m' n' : Nat}

/-- No timer expires earlier than before. -/
def World.Later (w w' : World) : Prop :=
  ∀ queue ∈ w'.timerQueues, ∀ time ∈ queue, ∃ queue' ∈ w.timerQueues, ∃ time' ∈ queue', time' ≤ time

theorem World.InTime.later (h : w.InTime usec) (later : w.Later w') (due : w'.due = w.due)
    (now : w.now ≤ w'.now) : w'.InTime usec := by
  intro queue hqueue time htime
  obtain ⟨queue', hqueue', time', htime', hle⟩ := later queue hqueue time htime
  have := h queue' hqueue' time' htime'
  omega

theorem later_refl : w.Later w :=
  fun queue hqueue time htime => ⟨queue, hqueue, time, htime, le_rfl⟩

/-- Most steps touch neither the timer nor the flag, and take no wake packet away. -/
theorem HandedOff.quiet (h : HandedOff usec m n w) (later : w.Later w')
    (created : w'.timerQueues ≠ [] → w.timerThread.isSome) (now : w.now ≤ w'.now)
    (due : w'.due = w.due) (timerThread : w'.timerThread = w.timerThread)
    (dispatchRequired : w'.dispatchRequired = w.dispatchRequired)
    (port : .wakeForDispatch ∈ w.port → .wakeForDispatch ∈ w'.port ∨ 0 < n') (updates : m ≤ m')
    (checks : n ≤ n') : HandedOff usec m' n' w' where
  created hne := timerThread ▸ created hne
  period := by
    rw [due]
    exact h.period.trans (Int.add_le_add_right now _)
  armed := by
    rw [dispatchRequired, timerThread]
    rcases h.armed with hintime | hflag | hthread | hpos
    · exact .inl (hintime.later later due now)
    · exact .inr (.inl hflag)
    · exact .inr (.inr (.inl hthread))
    · exact .inr (.inr (.inr (by omega)))
  woken hflag := by
    rw [timerThread]
    rcases h.woken (dispatchRequired ▸ hflag) with hwake | hthread | hpos
    · exact (port hwake).imp_right .inr
    · exact .inr (.inl hthread)
    · exact .inr (.inr (by omega))

/-- Nothing that the threads share changes but the mutex. -/
theorem HandedOff.mutex (h : HandedOff usec m n w) (locked : Bool) (updates : m ≤ m')
    (checks : n ≤ n') : HandedOff usec m' n' { w with dispatchMutex := locked } :=
  h.quiet later_refl h.created le_rfl rfl rfl rfl .inl updates checks

theorem HandedOff.mono (h : HandedOff usec m n w) (updates : m ≤ m') (checks : n ≤ n') :
    HandedOff usec m' n' w :=
  h.mutex w.dispatchMutex updates checks

theorem lock_handedOff {c' : Call}
    (h : HandedOff usec (m + load Call.updates [c]) (n + load Call.checks [c]) w)
    (hlock : w.lock c' = some (w', new)) (updates : c.updates = c'.updates)
    (checks : c.checks = c'.checks) :
    HandedOff usec (m + load Call.updates new) (n + load Call.checks new) w' := by
  unfold World.lock at hlock
  split at hlock
  · cases hlock
  · cases hlock
    simp only [load_cons, load_nil, updates, checks] at h ⊢
    exact h.mutex true le_rfl le_rfl

theorem mem_modifyQueue {queue : List Int} {i : Nat} {f : List Int → List Int}
    (h : queue ∈ (w.modifyQueue i f).timerQueues) :
    queue ∈ w.timerQueues ∨ ∃ queue', w.timerQueues[i]? = some queue' ∧ f queue' = queue := by
  obtain ⟨j, hj⟩ := List.mem_iff_getElem?.mp h
  rw [World.modifyQueue, List.getElem?_modify] at hj
  obtain ⟨queue', hqueue', heq⟩ := Option.map_eq_some_iff.mp hj
  split at heq
  · rename_i hij
    exact .inr ⟨queue', hij ▸ hqueue', heq⟩
  · exact .inl (heq ▸ List.mem_of_getElem? hqueue')

theorem modifyQueue_ne_nil {i : Nat} {f : List Int → List Int}
    (h : (w.modifyQueue i f).timerQueues ≠ []) : w.timerQueues ≠ [] := by
  intro hnil
  simp [World.modifyQueue, hnil] at h

/-- A timer that is not the earliest of its queue. -/
theorem later_enqueue {i : Nat} {time : Int} (h : w.earliest i time = false) :
    w.Later (w.modifyQueue i (· ++ [time])) := by
  intro queue hqueue time' htime'
  rcases mem_modifyQueue hqueue with hqueue | ⟨queue', hqueue', rfl⟩
  · exact ⟨queue, hqueue, time', htime', le_rfl⟩
  · have hmem := List.mem_of_getElem? hqueue'
    rcases List.mem_append.mp htime' with htime' | htime'
    · exact ⟨queue', hmem, time', htime', le_rfl⟩
    · obtain ⟨first, hfirst, hle⟩ : ∃ first ∈ queue', first ≤ time := by
        simpa [World.earliest, hqueue'] using h
      exact ⟨queue', hmem, first, hfirst, List.mem_singleton.mp htime' ▸ hle⟩

theorem doOne_handedOff {infinite : Bool}
    (h : HandedOff usec (m + load Call.updates [.doOne infinite])
      (n + load Call.checks [.doOne infinite]) w)
    (hadv : advance usec w (.doOne infinite) = some (w', new)) :
    HandedOff usec (m + load Call.updates new) (n + load Call.checks new) w' := by
  cases hadv
  refine ⟨h.created, h.period, ?_, fun hflag => by cases hflag⟩
  split
  · exact .inr (.inr (.inr (by simp)))
  · rename_i hflag
    rcases h.armed with hintime | hrequired | hthread | hpos
    · exact .inl hintime
    · exact absurd hrequired hflag
    · exact .inr (.inr (.inl hthread))
    · exact .inr (.inr (.inr (by simpa using hpos)))

theorem updateTimeout_handedOff (husec : 0 < usec) {rest : Option Bool}
    (h : HandedOff usec (m + load Call.updates [.updateTimeout rest])
      (n + load Call.checks [.updateTimeout rest]) w)
    (hadv : advance usec w (.updateTimeout rest) = some (w', new)) :
    HandedOff usec (m + load Call.updates new) (n + load Call.checks new) w' := by
  cases hadv
  have hintime := updateTimeout_inTime husec h.created h.period
  have hperiod := updateTimeout_period husec h.period
  have hcreated := h.created
  have hwoken := h.woken
  unfold World.updateTimeout at hintime hperiod ⊢
  split
  · rename_i hset
    rw [if_pos hset] at hintime hperiod
    exact ⟨hcreated, hperiod, .inl hintime, hwoken⟩
  · rename_i hset
    rw [if_neg hset] at hintime hperiod
    exact ⟨hcreated, hperiod, .inl hintime, hwoken⟩

theorem getQueued_handedOff {infinite : Bool}
    (h : HandedOff usec (m + load Call.updates [.getQueued infinite])
      (n + load Call.checks [.getQueued infinite]) w)
    (hadv : advance usec w (.getQueued infinite) = some (w', new)) :
    HandedOff usec (m + load Call.updates new) (n + load Call.checks new) w' := by
  simp only [advance] at hadv
  split at hadv
  · cases hadv
  · rename_i p port hport
    cases hadv
    refine h.quiet later_refl h.created le_rfl rfl rfl rfl (fun hwake => ?_) (by simp) (by simp)
    rw [hport] at hwake
    rcases List.mem_cons.mp hwake with rfl | hwake
    · exact .inr (by simp [received])
    · exact .inl hwake

theorem enqueueTimer_handedOff {queue : Nat} {time : Int}
    (h : HandedOff usec (m + load Call.updates [.enqueueTimer queue time])
      (n + load Call.checks [.enqueueTimer queue time]) w)
    (hadv : advance usec w (.enqueueTimer queue time) = some (w', new)) :
    HandedOff usec (m + load Call.updates new) (n + load Call.checks new) w' := by
  cases hadv
  split
  · exact ⟨fun hne => h.created (modifyQueue_ne_nil hne), h.period, .inr (.inr (.inr (by simp))),
      h.woken⟩
  · rename_i hearliest
    exact h.quiet (later_enqueue (by simpa using hearliest))
      (fun hne => h.created (modifyQueue_ne_nil hne)) le_rfl rfl rfl rfl .inl (by simp) (by simp)

theorem insertTimerQueue_handedOff
    (h : HandedOff usec (m + load Call.updates [.insertTimerQueue])
      (n + load Call.checks [.insertTimerQueue]) w)
    (hadv : advance usec w .insertTimerQueue = some (w', new)) :
    HandedOff usec (m + load Call.updates new) (n + load Call.checks new) w' := by
  cases hadv
  simp only [World.insertTimerQueue]
  split
  · rename_i hnone
    have hthread : w.timerThread = none := Option.isNone_iff_eq_none.mp hnone
    have hqueues : w.timerQueues = [] := by
      by_contra hne
      simpa [hthread] using h.created hne
    refine ⟨fun _ => rfl, le_rfl, .inl ?_, fun hflag => ?_⟩
    · intro queue hqueue time htime
      simp only [World.setWaitableTimer, hqueues, List.mem_singleton] at hqueue
      rw [hqueue] at htime
      cases htime
    · rcases h.woken hflag with hwake | hwaking | hpos
      · exact .inl hwake
      · rw [hthread] at hwaking
        cases hwaking
      · exact .inr (.inr hpos)
  · rename_i hsome
    refine h.quiet ?_ (fun _ => ?_) le_rfl rfl rfl rfl .inl (by simp) (by simp)
    · intro queue hqueue time htime
      rcases List.mem_cons.mp hqueue with rfl | hqueue
      · cases htime
      · exact ⟨queue, hqueue, time, htime, le_rfl⟩
    · simpa [Option.isSome_iff_ne_none] using hsome

theorem advance_handedOff (husec : 0 < usec)
    (h : HandedOff usec (m + load Call.updates [c]) (n + load Call.checks [c]) w)
    (hadv : advance usec w c = some (w', new)) :
    HandedOff usec (m + load Call.updates new) (n + load Call.checks new) w' := by
  cases c with
  | doOne infinite => exact doOne_handedOff h hadv
  | updateTimeout rest => exact updateTimeout_handedOff husec h hadv
  | getQueued infinite => exact getQueued_handedOff h hadv
  | enqueueTimer queue time => exact enqueueTimer_handedOff h hadv
  | lockForDispatch infinite => exact lock_handedOff h hadv rfl rfl
  | scheduleTimer queue time | cancelTimer queue time | addTimerQueue | removeTimerQueue queue =>
    exact lock_handedOff h hadv rfl rfl
  | unlock rest =>
    cases hadv
    exact h.mutex false (by simp) (by simp)
  | complete =>
    cases hadv
    exact h.mono (by simp) (by simp)
  | dispatch infinite =>
    cases hadv
    refine h.quiet ?_ (fun hne => h.created (by simpa [World.dispatch] using hne)) le_rfl rfl
      rfl rfl (fun hwake => .inl (List.mem_append_left _ hwake)) (by simp) (by simp)
    intro queue hqueue time htime
    obtain ⟨queue', hqueue', rfl⟩ := List.mem_map.mp hqueue
    exact ⟨queue', hqueue', time, List.mem_of_mem_filter htime, le_rfl⟩
  | dequeueTimer queue time =>
    cases hadv
    refine h.quiet ?_ (fun hne => h.created (modifyQueue_ne_nil hne)) le_rfl rfl rfl rfl .inl
      (by simp) (by simp)
    intro queue hqueue time' htime'
    rcases mem_modifyQueue hqueue with hqueue | ⟨queue', hqueue', rfl⟩
    · exact ⟨queue, hqueue, time', htime', le_rfl⟩
    · exact ⟨queue', List.mem_of_getElem? hqueue', time', List.mem_of_mem_erase htime', le_rfl⟩
  | insertTimerQueue => exact insertTimerQueue_handedOff h hadv
  | eraseTimerQueue queue =>
    cases hadv
    refine h.quiet ?_ (fun hne => h.created ?_) le_rfl rfl rfl rfl .inl (by simp) (by simp)
    · intro queue hqueue time htime
      exact ⟨queue, List.mem_of_mem_eraseIdx hqueue, time, htime, le_rfl⟩
    · intro hnil
      simp [hnil] at hne

/-- A step of the timer thread. -/
theorem stepTimerThread_handedOff (husec : 0 < usec) (h : HandedOff usec m n w)
    (hstep : w.stepTimerThread usec = some w') : HandedOff usec m n w' := by
  unfold World.stepTimerThread at hstep
  split at hstep
  · rename_i hthread
    split at hstep
    · cases hstep
      refine
        ⟨fun _ => rfl, resetWaitableTimer_period husec, .inr (.inr (.inl rfl)), fun hflag => ?_⟩
      rcases h.woken hflag with hwake | hwaking | hpos
      · exact .inl hwake
      · rw [hthread] at hwaking
        cases hwaking
      · exact .inr (.inr hpos)
    · cases hstep
  · cases hstep
    exact ⟨fun _ => rfl, h.period, .inr (.inl rfl), fun _ => .inr (.inl rfl)⟩
  · rename_i hthread
    cases hstep
    refine ⟨fun _ => rfl, h.period, ?_, fun _ => .inl (by simp)⟩
    rcases h.armed with hintime | hflag | hrequiring | hpos
    · exact .inl hintime
    · exact .inr (.inl hflag)
    · rw [hthread] at hrequiring
      cases hrequiring
    · exact .inr (.inr (.inr hpos))
  · cases hstep

theorem begin_handedOff {calls calls' : List Call}
    (h : HandedOff usec (m + load Call.updates calls) (n + load Call.checks calls) w)
    (hbegin : begin w calls c = some (w', calls')) :
    HandedOff usec (m + load Call.updates calls') (n + load Call.checks calls') w' := by
  unfold begin at hbegin
  split at hbegin
  · cases hbegin
    exact h.mono (by simp) (by simp)
  · cases hbegin

theorem perform_handedOff {ι : Type u} {i : ι} {calls calls' : List Call} {a : Action}
    (husec : 0 < usec)
    (h : HandedOff usec (m + load Call.updates calls) (n + load Call.checks calls) w)
    (hperform : perform usec i w calls a = some (w', calls')) :
    HandedOff usec (m + load Call.updates calls') (n + load Call.checks calls') w' := by
  cases a with
  | doOne infinite => exact begin_handedOff h hperform
  | scheduleTimer queue time => exact begin_handedOff h hperform
  | cancelTimer queue time => exact begin_handedOff h hperform
  | addTimerQueue => exact begin_handedOff h hperform
  | removeTimerQueue queue => exact begin_handedOff h hperform
  | step =>
    cases calls with
    | nil => cases hperform
    | cons c rest =>
      obtain ⟨⟨w₁, new⟩, hadv, heq⟩ := Option.map_eq_some_iff.mp hperform
      cases heq
      have hstep := advance_handedOff (m := m + load Call.updates rest)
        (n := n + load Call.checks rest) husec
        (by simpa [Nat.add_assoc, Nat.add_comm, Nat.add_left_comm] using h) hadv
      simpa [Nat.add_assoc, Nat.add_comm, Nat.add_left_comm] using hstep
  | timeout =>
    simp only [perform] at hperform
    split at hperform
    · split at hperform
      · cases hperform
        split
        · exact h.mono (by simp) (by simp)
        · exact h.mono (by simp) (by simp)
      · cases hperform
    · cases hperform
  | getQueuedFails =>
    simp only [perform] at hperform
    split at hperform
    · cases hperform
      exact h.mono (by simp) (by simp)
    · cases hperform
  | post p =>
    simp only [perform] at hperform
    split at hperform
    · cases hperform
    · cases hperform
      exact h.quiet later_refl h.created le_rfl rfl rfl rfl
        (fun hwake => .inl (List.mem_append_left _ hwake)) le_rfl le_rfl
  | timerThread =>
    obtain ⟨w₁, hstep, heq⟩ := Option.map_eq_some_iff.mp hperform
    cases heq
    exact stepTimerThread_handedOff husec h hstep
  | tick ticks =>
    cases hperform
    exact h.quiet later_refl h.created (Int.le_add_of_nonneg_right (Int.natCast_nonneg _)) rfl rfl
      rfl .inl le_rfl le_rfl

end Steps

/-! ### The threads together -/

section Runs

variable {ι : Type u} [Fintype ι] [DecidableEq ι] {usec : Int} {s s' : State ι}

theorem step_handedOff (husec : 0 < usec) {a : ι × Action}
    (h : HandedOff usec (s.weight Call.updates) (s.weight Call.checks) s.shared)
    (hstep : step usec s a = some s') :
    HandedOff usec (s'.weight Call.updates) (s'.weight Call.checks) s'.shared := by
  obtain ⟨w, calls, hperform, rfl⟩ := step_eq_some.mp hstep
  have hupdates := load_le_weight (s := s) Call.updates a.1
  have hchecks := load_le_weight (s := s) Call.checks a.1
  have hset := weight_set (s := s) Call.updates a.1 w calls
  have hset' := weight_set (s := s) Call.checks a.1 w calls
  rw [← Nat.sub_add_cancel hupdates, ← Nat.sub_add_cancel hchecks] at h
  have hnew := perform_handedOff husec h hperform
  rw [shared_set]
  convert hnew using 1
  · omega
  · omega

theorem reachable_handedOff (husec : 0 < usec) {now : Int}
    (h : Reachable (step usec) (fun _ _ => True) (initial now) s) :
    HandedOff usec (s.weight Call.updates) (s.weight Call.checks) s.shared := by
  refine h.invariant (I := fun s =>
    HandedOff usec (s.weight Call.updates) (s.weight Call.checks) s.shared) ?_
    fun hinv _ hstep => step_handedOff husec hinv hstep
  have hperiod : now ≤ now + maxTimeoutUsec * usec :=
    Int.le_add_of_nonneg_right (Int.mul_nonneg (by decide) husec.le)
  exact ⟨fun hne => absurd rfl hne, hperiod, .inl fun _ hqueue => absurd hqueue List.not_mem_nil,
    fun hflag => absurd hflag Bool.false_ne_true⟩

/-- A thread that waits for a packet, or runs a handler, is not inside a step. -/
def Call.rests : Call → Bool
  | .getQueued _ | .complete => true
  | _ => false

theorem weight_of_rests {φ : Call → Nat} (h : ∀ i, ∀ c ∈ s.part i, c.rests = true)
    (hφ : ∀ c : Call, c.rests = true → φ c = 0) : s.weight φ = 0 := by
  by_contra hne
  obtain ⟨i, c, hc, hpos⟩ := weight_pos (Nat.pos_of_ne_zero hne)
  have := hφ c (h i c hc)
  omega

/-- When no thread is inside a step, the waitable timer is due in time, within its period, or the
flag is set and a packet will make a thread look at it. -/
theorem hands_off (husec : 0 < usec) {now : Int}
    (h : Reachable (step usec) (fun _ _ => True) (initial now) s)
    (hthread : ∀ t ∈ s.shared.timerThread, t = .waiting)
    (hcalls : ∀ i, ∀ c ∈ s.part i, c.rests = true) :
    s.shared.due ≤ s.shared.now + maxTimeoutUsec * usec ∧
      (s.shared.InTime usec ∨
        s.shared.dispatchRequired = true ∧ .wakeForDispatch ∈ s.shared.port) := by
  have hinv := reachable_handedOff husec h
  rw [weight_of_rests (φ := Call.updates) hcalls (by rintro (_ | _) <;> simp [Call.rests]),
    weight_of_rests (φ := Call.checks) hcalls (by rintro (_ | _) <;> simp [Call.rests])] at hinv
  refine ⟨hinv.period, ?_⟩
  rcases hinv.armed with hintime | hflag | hrequiring | hpos
  · exact .inl hintime
  · rcases hinv.woken hflag with hwake | hwaking | hpos
    · exact .inr ⟨hflag, hwake⟩
    · cases hthread _ hwaking
    · cases hpos
  · cases hthread _ hrequiring
  · cases hpos

end Runs

/-- A timer expires half a microsecond from now. -/
def halfMicrosecond : List (Fin 2 × Action) :=
  [(0, .addTimerQueue), (0, .step), (0, .step), (0, .step), (0, .scheduleTimer 0 500), (0, .step),
    (0, .step), (0, .step), (0, .step)]

theorem halfMicrosecond_due :
    (exec (guarded (step 1000) fun _ _ => True) (initial 0) halfMicrosecond).map
      (fun s => ([s.shared.now, s.shared.due] :: s.shared.timerQueues, s.shared.timerThread,
        s.shared.dispatchRequired, s.part 0, s.part 1)) =
    some ([[0, 1000], [500]], some .waiting, false, [], []) := by
  decide +kernel

/-- Nobody is inside a step, and the flag is not set. -/
theorem halfMicrosecond_rests : ∃ s : State (Fin 2),
    Reachable (step 1000) (fun _ _ => True) (initial 0) s ∧ s.shared.now = 0 ∧ s.shared.due = 1000 ∧
      s.shared.timerQueues = [[500]] ∧ s.shared.dispatchRequired = false ∧
      (∀ t ∈ s.shared.timerThread, t = .waiting) ∧ ∀ i, ∀ c ∈ s.part i, c.rests = true := by
  obtain ⟨s, hs, heq⟩ := Option.map_eq_some_iff.mp halfMicrosecond_due
  simp only [Prod.mk.injEq, List.cons.injEq, and_true] at heq
  obtain ⟨⟨⟨hnow, hdue⟩, hqueues⟩, hthread, hflag, hfirst, hsecond⟩ := heq
  refine ⟨s, exec_guarded_reachable hs, hnow, hdue, hqueues, hflag, by simp [hthread], ?_⟩
  refine Fin.forall_fin_two.mpr ⟨?_, ?_⟩
  · simp [hfirst]
  · simp [hsecond]

theorem hands_off_halfMicrosecond : ∃ s : State (Fin 2),
    s.shared.due = 1000 ∧ s.shared.timerQueues = [[500]] ∧
      (s.shared.InTime 1000 ∨
        s.shared.dispatchRequired = true ∧ .wakeForDispatch ∈ s.shared.port) := by
  obtain ⟨s, hs, -, hdue, hqueues, -, hthread, hcalls⟩ := halfMicrosecond_rests
  exact ⟨s, hdue, hqueues, (hands_off (by decide) hs hthread hcalls).2⟩

theorem not_hands_off : ¬∀ (usec now : Int) (s : State (Fin 2)), 0 < usec →
    Reachable (step usec) (fun _ _ => True) (initial now) s →
    (∀ t ∈ s.shared.timerThread, t = .waiting) → (∀ i, ∀ c ∈ s.part i, c.rests = true) →
    (∀ queue ∈ s.shared.timerQueues, ∀ time ∈ queue, s.shared.due ≤ max s.shared.now time) ∨
      s.shared.dispatchRequired = true ∧ .wakeForDispatch ∈ s.shared.port := by
  intro hclaim
  obtain ⟨s, hs, hnow, hdue, hqueues, hflag, hthread, hcalls⟩ := halfMicrosecond_rests
  rcases hclaim 1000 0 s (by decide) hs hthread hcalls with hintime | hrequired
  · have hlate := hintime [500] (by simp [hqueues]) 500 (by simp)
    rw [hdue, hnow] at hlate
    exact absurd hlate (by decide)
  · rw [hflag] at hrequired
    exact Bool.false_ne_true hrequired.1

end Asio.Detail.WinIocpTimers
