import Mathlib.Data.List.Basic
import Mathlib.Data.List.Count
import Mathlib.Data.List.Perm.Basic
import Asio.Lib.Transition

/-! The ring of the io_uring service, and the timeouts that pass through it. -/

namespace Asio.Detail.IoUringRing

def ringSize : Nat := 16384
def submitBatchSize : Nat := 128
def completeBatchSize : Nat := 128

/-- The address that an entry carries: that of the service, of `timer_queues_`, of `timeout_`, of
the local variable `ts` of `run`, or of a queue of operations. -/
inductive Data
  | null | service | timerQueues | timeout | ts
  | queue (i : Nat)
  deriving DecidableEq

/-- A timeout is due at some time. -/
inductive Command
  | timeout (due : Nat)
  | timeoutRemove (target : Data)
  | cancel (target : Data)
  | nop
  | operation
  deriving DecidableEq

structure Sqe where
  command : Command
  data : Data
  deriving DecidableEq

/-- Entries that are prepared, those that have been submitted to the kernel, and completions. -/
structure Ring where
  prepared : List Sqe
  inflight : List Sqe
  completed : List Data

namespace Ring

def expire (sqe : Sqe) : Sqe :=
  if sqe.data = .timeout then { sqe with command := .timeout 0 } else sqe

/-- The kernel removes a timeout at once: `ts` is complete by then, and `timeout_` is due. -/
def accept (r : Ring) (sqe : Sqe) : Ring :=
  match sqe.command with
  | .timeoutRemove .ts =>
    { r with
      inflight := r.inflight.filter (·.data ≠ .ts) ++ [sqe]
      completed := r.completed ++ (r.inflight.filter (·.data = .ts)).map (·.data) }
  | .timeoutRemove .timeout => { r with inflight := r.inflight.map expire ++ [sqe] }
  | _ => { r with inflight := r.inflight ++ [sqe] }

/-- The kernel takes the first entries. -/
def submit : Nat → Ring → Ring
  | 0, r => r
  | n + 1, r =>
    match r.prepared with
    | [] => r
    | sqe :: prepared => submit n ({ r with prepared := prepared }.accept sqe)

/-- The kernel completes an entry. -/
def complete (r : Ring) (i : Nat) : Option Ring :=
  r.inflight[i]?.map fun sqe =>
    { r with
      inflight := r.inflight.eraseIdx i
      completed := r.completed ++ [sqe.data] }

/-- The addresses that are in the ring. -/
def data (r : Ring) : List Data :=
  r.prepared.map (·.data) ++ (r.inflight.map (·.data) ++ r.completed)

end Ring

/-- Where a thread is in `run`: it waits, it has to remove `ts`, it takes completions, or it looks
at the timers. -/
inductive Run
  | idle
  | waiting (usec localOps : Int)
  | woken (localOps : Int)
  | draining (localOps : Int) (count : Nat) (checkTimers : Bool)
  | checking (checkTimers : Bool)

/-- `timeout` is in nanoseconds. How many times `submit_sqes_op_` is in the queue of the scheduler
is `submitOps`, and `timers` are the times of the timers that wait. -/
structure Service where
  ring : Ring
  pendingSqes : Nat
  outstandingWork : Int
  timeout : Nat
  pendingSubmitSqesOp : Bool
  submitOps : Nat
  timers : List Nat
  run : Run

namespace Service

def initial : Service := ⟨⟨[], [], []⟩, 0, 0, 0, false, 0, [], .idle⟩

/-! ### Entries -/

/-- `io_uring_submit` gives how many entries the kernel has taken, or an error. -/
def submitSqes (s : Service) (result : Int) : Service :=
  if s.pendingSqes ≠ 0 ∧ result > 0 then
    let taken := min result.toNat s.ring.prepared.length
    { s with
      ring := s.ring.submit taken
      pendingSqes := s.pendingSqes - taken
      outstandingWork := s.outstandingWork + taken }
  else
    s

def push (s : Service) (sqe : Sqe) : Service :=
  { s with
    ring := { s.ring with prepared := s.ring.prepared ++ [sqe] }
    pendingSqes := s.pendingSqes + 1 }

/-- `get_sqe`, with what is put in the entry. When the ring is full the entries are submitted. -/
def getSqe (s : Service) (result : Int) (sqe : Sqe) : Bool × Service :=
  let s := if s.ring.prepared.length < ringSize then s else s.submitSqes result
  if s.ring.prepared.length < ringSize then (true, s.push sqe) else (false, s)

def pushSubmitSqesOp (s : Service) : Service :=
  if s.pendingSqes ≠ 0 ∧ s.pendingSubmitSqesOp = false then
    { s with
      pendingSubmitSqesOp := true
      submitOps := s.submitOps + 1 }
  else
    s

def postSubmitSqesOp (s : Service) (result : Int) : Service :=
  if s.pendingSqes ≥ submitBatchSize then s.submitSqes result else s.pushSubmitSqesOp

/-- `submit_sqes_op::do_complete` -/
def submitOp (s : Service) (result : Int) : Option Service :=
  if s.submitOps = 0 then none
  else
    let s := s.submitSqes result
    if s.pendingSqes ≠ 0 then some s
    else some { s with
      pendingSubmitSqesOp := false
      submitOps := s.submitOps - 1 }

/-! ### Timers -/

def updateTimeout (s : Service) (result : Int) : Bool × Service :=
  s.getSqe result ⟨.timeoutRemove .timeout, .timerQueues⟩

/-- Microseconds until the first of the timers. -/
def waitDurationUsec (s : Service) (now maxDuration : Nat) : Nat :=
  s.timers.foldr (fun time duration => min (time - now) duration) maxDuration

def maxTimeoutUsec : Nat := 5 * 60 * 1000 * 1000

def getTimeout (s : Service) (now : Nat) : Nat :=
  let usec := s.waitDurationUsec now maxTimeoutUsec
  if usec ≠ 0 then usec * 1000 else 1

/-- A timer that is not the earliest one comes after another one. -/
def scheduleTimer (s : Service) (time : Nat) (earliest : Bool) (result result' : Int) :
    Option Service :=
  if earliest = true ∨ ∃ time' ∈ s.timers, time' ≤ time then
    let s := { s with timers := s.timers ++ [time] }
    some (if earliest then (s.updateTimeout result).2.postSubmitSqesOp result' else s)
  else
    none

def cancelTimer (s : Service) (i : Nat) : Service := { s with timers := s.timers.eraseIdx i }

/-! ### Operations of others -/

/-- An operation is started, or again. -/
def startOp (s : Service) (i : Nat) (result result' : Int) : Service :=
  let (sqe, s) := s.getSqe result ⟨.operation, .queue i⟩
  if sqe then s.postSubmitSqesOp result' else s

def interrupt (s : Service) (result result' : Int) : Service :=
  (s.getSqe result ⟨.nop, .service⟩).2.submitSqes result'

/-- Prepare the cancellation of queues. -/
def prepCancel (s : Service) : List (Nat × Int) → Service
  | [] => s
  | (i, result) :: rest => (s.getSqe result ⟨.cancel (.queue i), .null⟩).2.prepCancel rest

def doCancelOps (s : Service) (queues : List (Nat × Int)) (result : Int) : Service :=
  (s.prepCancel queues).submitSqes result

def cancelOpsByKey (s : Service) (i : Nat) (result result' : Int) : Service :=
  let (sqe, s) := s.getSqe result ⟨.cancel (.queue i), .null⟩
  if sqe then s.submitSqes result' else s

/-! ### Running -/

/-- `ts` is submitted if the wait is limited. -/
def startRun (s : Service) (now : Nat) (usec result result' : Int) : Option Service :=
  match s.run with
  | .idle =>
    if usec > 0 then
      let (sqe, s) := s.getSqe result ⟨.timeout (now + usec.toNat), .ts⟩
      if sqe then some { s.submitSqes result' with run := .waiting usec 1 }
      else some { s with run := .waiting usec 0 }
    else
      some { s with run := .waiting usec 0 }
  | _ => none

/-- The wait, or the look for a completion, succeeds or not. -/
def wait (s : Service) (success : Bool) : Option Service :=
  match s.run with
  | .waiting usec localOps =>
    if success then
      s.ring.completed.head?.map fun data =>
        { s with run :=
            if usec > 0 ∧ data ≠ .ts then .woken localOps else .draining localOps 0 false }
    else
      some { s with run := .checking false }
  | _ => none

/-- The removal of `ts` carries no address itself. -/
def removeTs (s : Service) (result result' : Int) : Option Service :=
  match s.run with
  | .woken localOps =>
    let (sqe, s) := s.getSqe result ⟨.timeoutRemove .ts, .null⟩
    if sqe then some { s.submitSqes result' with run := .draining (localOps + 1) 0 false }
    else some { s with run := .draining localOps 0 false }
  | _ => none

/-- A completion is taken from the ring; that of a queue is passed on to it. The loop ends when
there is no more, or when the batch is complete and `ts` is not waited for. -/
def consume (s : Service) : Option Service :=
  match s.run, s.ring.completed with
  | .draining localOps count checkTimers, data :: completed =>
    let timeout := if data = .timeout then 0 else s.timeout
    let checkTimers := checkTimers || data = .timerQueues || data = .timeout
    let localOps := if data = .ts then localOps - 1 else localOps
    let s := { s with
      ring := { s.ring with completed := completed }
      timeout := timeout }
    if (count + 1 < completeBatchSize ∨ localOps > 0) ∧ completed ≠ [] then
      some { s with run := .draining localOps (count + 1) checkTimers }
    else
      some { s with
        outstandingWork := s.outstandingWork - (count + 1)
        run := .checking checkTimers }
  | _, _ => none

/-- The timeout is set again. -/
def setTimeout (s : Service) (now : Nat) (result : Int) : Service :=
  let usec := s.waitDurationUsec now maxTimeoutUsec
  let s := { s with timeout := s.getTimeout now }
  let (sqe, s) := s.getSqe result ⟨.timeout (now + usec), .timeout⟩
  if sqe then s.pushSubmitSqesOp else s

/-- Timers that are ready are passed on, and the timeout is set if it is not. -/
def rearm (s : Service) (now : Nat) (result : Int) : Service :=
  let s := { s with timers := s.timers.filter (now < ·) }
  if s.timeout = 0 then s.setTimeout now result else s

def endRun (s : Service) (now : Nat) (result : Int) : Option Service :=
  match s.run with
  | .checking checkTimers =>
    let s := { s with run := .idle }
    some (if checkTimers then s.rearm now result else s)
  | _ => none

end Service

/-! ### Steps -/

/-- What the kernel does, what is done under the mutex, and the steps of `run`. What the submissions
give is `result`, first that of `get_sqe`. -/
inductive Action
  | complete (i : Nat)
  | submitOp (result : Int)
  | scheduleTimer (time : Nat) (earliest : Bool) (result result' : Int)
  | cancelTimer (i : Nat)
  | startOp (i : Nat) (result result' : Int)
  | interrupt (result result' : Int)
  | doCancelOps (queues : List (Nat × Int)) (result : Int)
  | cancelOpsByKey (i : Nat) (result result' : Int)
  | startRun (now : Nat) (usec result result' : Int)
  | wait (success : Bool)
  | removeTs (result result' : Int)
  | consume
  | endRun (now : Nat) (result : Int)

def step (s : Service) : Action → Option Service
  | .complete i => (s.ring.complete i).map fun ring => { s with ring := ring }
  | .submitOp result => s.submitOp result
  | .scheduleTimer time earliest result result' => s.scheduleTimer time earliest result result'
  | .cancelTimer i => some (s.cancelTimer i)
  | .startOp i result result' => some (s.startOp i result result')
  | .interrupt result result' => some (s.interrupt result result')
  | .doCancelOps queues result => some (s.doCancelOps queues result)
  | .cancelOpsByKey i result result' => some (s.cancelOpsByKey i result result')
  | .startRun now usec result result' => s.startRun now usec result result'
  | .wait success => s.wait success
  | .removeTs result result' => s.removeTs result result'
  | .consume => s.consume
  | .endRun now result => s.endRun now result

/-! ### What the ring carries -/

namespace Ring

@[simp] theorem expire_data (sqe : Sqe) : (expire sqe).data = sqe.data := by
  unfold expire
  split <;> rfl

theorem accept_data (r : Ring) (sqe : Sqe) (prepared : List Sqe) :
    ({ r with prepared := prepared }.accept sqe).data.Perm
      { r with prepared := sqe :: prepared }.data := by
  have hmap : (r.inflight.map expire).map (·.data) = r.inflight.map (·.data) := by
    simp [Function.comp_def]
  rw [List.perm_iff_count]
  intro d
  unfold accept
  split
  · have hsplit := ((r.inflight.filter_append_perm (·.data = .ts)).map (·.data)).count_eq d
    simp only [List.map_append, List.count_append] at hsplit
    simp only [data, ne_eq, decide_not, List.map_append, List.map_cons, List.map_nil,
      List.count_append, List.count_cons, List.count_nil]
    omega
  · simp only [data, hmap, List.map_append, List.map_cons, List.map_nil, List.count_append,
      List.count_cons, List.count_nil]
    omega
  · simp only [data, List.map_append, List.map_cons, List.map_nil, List.count_append,
      List.count_cons, List.count_nil]
    omega

@[simp] theorem accept_prepared (r : Ring) (sqe : Sqe) : (r.accept sqe).prepared = r.prepared := by
  unfold accept
  split <;> rfl

theorem submit_data (n : Nat) (r : Ring) : (r.submit n).data.Perm r.data := by
  induction n generalizing r with
  | zero => exact .refl _
  | succ n ih =>
    obtain ⟨prepared, inflight, completed⟩ := r
    cases prepared with
    | nil => exact .refl _
    | cons sqe prepared => exact (ih _).trans (accept_data ⟨prepared, inflight, completed⟩ sqe _)

theorem submit_prepared (n : Nat) (r : Ring) : (r.submit n).prepared = r.prepared.drop n := by
  induction n generalizing r with
  | zero => rfl
  | succ n ih =>
    obtain ⟨prepared, inflight, completed⟩ := r
    cases prepared with
    | nil => rfl
    | cons sqe prepared => simp [submit, ih]

/-- How many entries the kernel has been given. -/
theorem submit_length (n : Nat) (r : Ring) :
    (r.submit n).inflight.length + (r.submit n).completed.length =
      r.inflight.length + r.completed.length + min n r.prepared.length := by
  have h := (submit_data n r).length_eq
  simp only [data, List.length_append, List.length_map, submit_prepared, List.length_drop] at h
  omega

theorem complete_data {r r' : Ring} {i : Nat} (h : r.complete i = some r') :
    r'.data.Perm r.data ∧ r'.prepared = r.prepared := by
  obtain ⟨sqe, hsqe, rfl⟩ := Option.map_eq_some_iff.mp h
  obtain ⟨hi, rfl⟩ := List.getElem?_eq_some_iff.mp hsqe
  refine ⟨?_, rfl⟩
  have herase := ((List.getElem_cons_eraseIdx_perm hi).map (·.data))
  rw [List.perm_iff_count]
  intro d
  have hcount := herase.count_eq d
  simp only [List.map_cons, List.count_cons] at hcount
  simp only [data, List.count_append, List.count_cons, List.count_nil]
  omega

end Ring

/-! ### What the calls do to the ring -/

namespace Service

/-- Completions that have been taken from the ring and are not accounted for yet. -/
def taken (s : Service) : Nat :=
  match s.run with
  | .draining _ count _ => count
  | _ => 0

/-- Every entry is counted until it is submitted, and as work until it is taken. -/
structure Counted (s : Service) : Prop where
  pending : s.pendingSqes = s.ring.prepared.length
  work : s.outstandingWork = s.ring.inflight.length + s.ring.completed.length + s.taken

variable {s s' : Service} {sqe : Sqe} {result result' : Int} {b : Bool}

/-- A submission moves entries along. -/
structure Submits (s s' : Service) : Prop where
  prepared : ∃ n, s'.ring = s.ring.submit n
  data : s'.ring.data.Perm s.ring.data
  counted : s.Counted → s'.Counted
  pending : s'.pendingSqes ≤ s.pendingSqes
  timeout : s'.timeout = s.timeout
  pendingSubmitSqesOp : s'.pendingSubmitSqesOp = s.pendingSubmitSqesOp
  submitOps : s'.submitOps = s.submitOps
  timers : s'.timers = s.timers
  run : s'.run = s.run

theorem Submits.refl (s : Service) : s.Submits s :=
  ⟨⟨0, rfl⟩, .refl _, id, Nat.le_refl _, rfl, rfl, rfl, rfl, rfl⟩

theorem submitSqes_submits (s : Service) (result : Int) : s.Submits (s.submitSqes result) := by
  unfold submitSqes
  split
  · refine ⟨⟨_, rfl⟩, Ring.submit_data _ _, fun h => ⟨?_, ?_⟩, Nat.sub_le _ _, rfl, rfl, rfl, rfl,
      rfl⟩
    · rw [Ring.submit_prepared, List.length_drop, h.pending]
    · have hlen := Ring.submit_length (min result.toNat s.ring.prepared.length) s.ring
      have hwork := h.work
      simp only [taken] at hwork ⊢
      omega
  · exact .refl s

/-- An entry is put behind those that are prepared, unless the ring is full. -/
theorem getSqe_cases (s : Service) (result : Int) (sqe : Sqe) :
    ∃ t, s.Submits t ∧
      (s.getSqe result sqe = (true, t.push sqe) ∨
        s.getSqe result sqe = (false, t) ∧ ringSize ≤ t.ring.prepared.length) := by
  unfold getSqe
  dsimp only
  generalize ht : (if s.ring.prepared.length < ringSize then s else s.submitSqes result) = t
  have hs : s.Submits t := by
    subst ht
    split
    · exact .refl s
    · exact submitSqes_submits s result
  refine ⟨t, hs, ?_⟩
  split
  · exact .inl rfl
  · rename_i hfull
    exact .inr ⟨rfl, Nat.le_of_not_lt hfull⟩

theorem getSqe_run (s : Service) (result : Int) (sqe : Sqe) :
    (s.getSqe result sqe).2.run = s.run := by
  obtain ⟨t, ht, heq | ⟨heq, -⟩⟩ := getSqe_cases s result sqe
  · rw [heq]
    exact ht.run
  · rw [heq]
    exact ht.run

theorem push_counted (h : s.Counted) (sqe : Sqe) : (s.push sqe).Counted where
  pending := by simp [push, h.pending]
  work := h.work

theorem complete_counted {ring : Ring} {i : Nat} (h : s.Counted)
    (hc : s.ring.complete i = some ring) : Counted { s with ring := ring } := by
  obtain ⟨hdata, hprepared⟩ := Ring.complete_data hc
  have hlen := hdata.length_eq
  have hwork := h.work
  simp only [Ring.data, List.length_append, List.length_map, hprepared] at hlen
  refine ⟨?_, ?_⟩
  · rw [hprepared]
    exact h.pending
  · simp only [taken] at hwork ⊢
    omega

theorem push_data (s : Service) (sqe : Sqe) :
    (s.push sqe).ring.data.Perm (sqe.data :: s.ring.data) := by
  simp only [push, Ring.data, List.map_append, List.map_cons, List.map_nil, List.append_assoc]
  exact List.perm_middle

/-- What is left when a completion has been taken, and where the loop is then. -/
theorem consume_cases (h : s.consume = some s') :
    ∃ localOps count checkTimers data completed,
      s.run = .draining localOps count checkTimers ∧ s.ring.completed = data :: completed ∧
      ∃ work run,
        s' = { s with
          ring := { s.ring with completed := completed }
          timeout := if data = .timeout then 0 else s.timeout
          outstandingWork := s.outstandingWork - work
          run := run } ∧
        ((work = (0 : Int) ∧ run = .draining (if data = .ts then localOps - 1 else localOps)
            (count + 1) (checkTimers || data = .timerQueues || data = .timeout)) ∨
          (work = (count + 1 : Int) ∧
            run = .checking (checkTimers || data = .timerQueues || data = .timeout) ∧
            (completed = [] ∨ (if data = .ts then localOps - 1 else localOps) ≤ 0))) := by
  unfold consume at h
  split at h
  · rename_i localOps count checkTimers data completed hrun hcompleted
    refine ⟨localOps, count, checkTimers, data, completed, hrun, hcompleted, ?_⟩
    dsimp only at h
    generalize (if data = .ts then localOps - 1 else localOps) = localOps' at h ⊢
    by_cases hgo : (count + 1 < completeBatchSize ∨ localOps' > 0) ∧ completed ≠ []
    · rw [if_pos hgo] at h
      cases h
      exact ⟨0, _, by simp, .inl ⟨rfl, rfl⟩⟩
    · rw [if_neg hgo] at h
      cases h
      refine ⟨count + 1, _, rfl, .inr ⟨rfl, rfl, ?_⟩⟩
      by_cases hnil : completed = []
      · exact .inl hnil
      · refine .inr (Int.not_lt.mp fun hlt => hgo ⟨.inr hlt, hnil⟩)
  · cases h

theorem pushSubmitSqesOp_counted (h : s.Counted) : s.pushSubmitSqesOp.Counted := by
  unfold pushSubmitSqesOp
  split
  · exact ⟨h.pending, h.work⟩
  · exact h

theorem pushSubmitSqesOp_data (s : Service) : s.pushSubmitSqesOp.ring = s.ring := by
  unfold pushSubmitSqesOp
  split <;> rfl

end Service

end Asio.Detail.IoUringRing
