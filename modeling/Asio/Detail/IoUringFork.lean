import Mathlib.Data.List.Count
import Asio.Lib.Transition
import Asio.Detail.IoUringRing
import Asio.Detail.IoUringTimers

/-! What the io_uring service does before and after a fork. -/

namespace Asio.Detail.IoUringRing

/-- A queue has operations, of which the cancellation may have been requested. -/
structure PendingQueue where
  pending : Bool
  cancelRequested : Bool
  deriving DecidableEq

/-- The queues that have been posted to the scheduler are in `posted`. -/
structure Forking where
  service : Service
  queues : List PendingQueue
  posted : List Nat

/-- A call of `io_uring_wait_cqe`, during which the kernel may complete entries. -/
structure Wait where
  completions : List Nat
  success : Bool

def Ring.completeAll (r : Ring) : List Nat → Option Ring
  | [] => some r
  | i :: rest => (r.complete i).bind fun r => r.completeAll rest

namespace Forking

/-! ### Before the fork -/

def cancelQueues (results : Nat → Int) : Nat → List PendingQueue → Service → Service
  | _, [], s => s
  | i, q :: queues, s =>
    cancelQueues results (i + 1) queues
      (if q.pending ∧ ¬ q.cancelRequested then
        (s.getSqe (results i) ⟨.cancel (.queue i), .null⟩).2
      else s)

/-- The cancellation of all operations and of the timeout. -/
def cancelAll (s : Forking) (results : Nat → Int) (result result' : Int) : Service :=
  ((cancelQueues results 0 s.queues s.service).getSqe result
    ⟨.cancel .timeout, .null⟩).2.submitSqes result'

/-- The queue that an entry belongs to. -/
def affected : Data → List Nat
  | .queue i => [i]
  | _ => []

/-- The loop that waits for the completions, which are not taken from the ring, and the queues that
it pushes. -/
def drain : List Wait → Ring → Int → List Nat → Option (Ring × Int × List Nat)
  | [], r, work, ops => if work > 0 then none else some (r, work, ops)
  | wait :: waits, r, work, ops =>
    if work > 0 then
      (r.completeAll wait.completions).bind fun r =>
        if wait.success then
          match r.completed with
          | [] => none
          | data :: _ => drain waits r (work - 1) (ops ++ affected data)
        else
          some (r, work, ops)
    else
      some (r, work, ops)

def forkPrepare (s : Forking) (results : Nat → Int) (result result' : Int) (waits : List Wait) :
    Option Forking :=
  let service := s.cancelAll results result result'
  (drain waits service.ring service.outstandingWork []).map fun (ring, work, ops) =>
    { s with
      service := { service with
        ring := ring
        outstandingWork := work }
      posted := s.posted ++ ops }

/-! ### After the fork -/

def forkParent (s : Forking) (result : Int) : Forking :=
  { s with service := (s.service.updateTimeout result).2 }

/-- The child has a ring of its own. -/
def forkChild (s : Forking) : Forking :=
  { s with service := { s.service with ring := ⟨[], [], []⟩ } }

/-! ### What is wanted -/

/-- All completions have been taken, and no queue is posted twice. -/
structure Quiet (s : Forking) : Prop where
  inflight : s.service.ring.inflight = []
  completed : s.service.ring.completed = []
  posted : ∀ i, s.posted.count i ≤ 1

/-- The operations of every queue will be performed, and no timer is missed. -/
structure Restored (s : Forking) : Prop where
  queues : ∀ i q, s.queues[i]? = some q → q.pending = true →
    i ∈ s.posted ∨ .queue i ∈ s.service.ring.data
  timers : ∀ time ∈ s.service.timers,
    Covered s.service.ring false time ∧ s.service.pendingSubmitSqesOp = true

/-- The state before the fork. -/
structure Sane (s : Forking) : Prop where
  service : TimerSane s.service
  submit : Posted s.service
  run : s.service.run = .idle
  posted : ∀ i, s.posted.count i ≤ 1
  queues : ∀ i q, s.queues[i]? = some q → q.pending = true →
    i ∈ s.posted ∨ .queue i ∈ s.service.ring.data

/-! ### The cancellations -/

/-- Entries that carry no address have been prepared. -/
structure Cancels (s t : Service) : Prop where
  sane : TimerSane s → TimerSane t
  data : s.ring.data.Subset t.ring.data
  run : t.run = s.run
  timers : t.timers = s.timers
  flag : t.pendingSubmitSqesOp = s.pendingSubmitSqesOp
  work : s.ring.inflight.length + s.ring.completed.length ≤
    t.ring.inflight.length + t.ring.completed.length

theorem Cancels.refl (s : Service) : Cancels s s :=
  ⟨id, List.Subset.refl _, rfl, rfl, rfl, Nat.le_refl _⟩

theorem Cancels.trans {s t u : Service} (h : Cancels s t) (h' : Cancels t u) : Cancels s u where
  sane := h'.sane ∘ h.sane
  data := List.Subset.trans h.data h'.data
  run := h'.run.trans h.run
  timers := h'.timers.trans h.timers
  flag := h'.flag.trans h.flag
  work := Nat.le_trans h.work h'.work

theorem submits_cancels {s t : Service} (h : s.Submits t) : Cancels s t where
  sane := fun hs => hs.submits h
  data := h.data.symm.subset
  run := h.run
  timers := h.timers
  flag := h.pendingSubmitSqesOp
  work := by
    obtain ⟨n, hn⟩ := h.prepared
    rw [hn, Ring.submit_length]
    exact Nat.le_add_right _ _

theorem getSqe_cancels (s : Service) (result : Int) {sqe : Sqe} (hsqe : sqe.data ≠ .timeout) :
    Cancels s (s.getSqe result sqe).2 := by
  obtain ⟨t, ht, heq | ⟨heq, -⟩⟩ := Service.getSqe_cases s result sqe
  · rw [heq]
    refine (submits_cancels ht).trans ⟨fun h => h.push hsqe, ?_, rfl, rfl, rfl, Nat.le_refl _⟩
    exact fun d hd => (Service.push_data t sqe).symm.subset (List.mem_cons_of_mem _ hd)
  · rw [heq]
    exact submits_cancels ht

theorem cancelQueues_cancels (results : Nat → Int) (i : Nat) (queues : List PendingQueue)
    (s : Service) : Cancels s (cancelQueues results i queues s) := by
  induction queues generalizing i s with
  | nil => exact .refl s
  | cons q queues ih =>
    unfold cancelQueues
    split
    · exact (getSqe_cancels s _ (by simp)).trans (ih _ _)
    · exact ih _ _

theorem cancelAll_cancels (s : Forking) (results : Nat → Int) (result result' : Int) :
    Cancels s.service (s.cancelAll results result result') :=
  ((cancelQueues_cancels results 0 s.queues s.service).trans (getSqe_cancels _ _ (by simp))).trans
    (submits_cancels (Service.submitSqes_submits _ _))

/-! ### The loop -/

theorem completeAll_length {r r' : Ring} {is : List Nat} (h : r.completeAll is = some r') :
    r'.inflight.length + r'.completed.length = r.inflight.length + r.completed.length := by
  induction is generalizing r with
  | nil =>
    cases h
    rfl
  | cons i is ih =>
    obtain ⟨t, ht, h⟩ := Option.bind_eq_some_iff.mp h
    obtain ⟨hdata, hprepared⟩ := Ring.complete_data ht
    have hlen := hdata.length_eq
    simp only [Ring.data, List.length_append, List.length_map, hprepared] at hlen
    rw [ih h]
    omega

theorem completeAll_completed {r r' : Ring} {is : List Nat} (h : r.completeAll is = some r') :
    ∃ more, r'.completed = r.completed ++ more := by
  induction is generalizing r with
  | nil =>
    cases h
    exact ⟨[], (List.append_nil _).symm⟩
  | cons i is ih =>
    obtain ⟨t, ht, h⟩ := Option.bind_eq_some_iff.mp h
    obtain ⟨sqe, -, rfl⟩ := Option.map_eq_some_iff.mp ht
    obtain ⟨more, hmore⟩ := ih h
    exact ⟨sqe.data :: more, by rw [hmore, List.append_assoc, List.singleton_append]⟩

/-- No completion is taken. -/
theorem drain_length {waits : List Wait} {r r' : Ring} {work work' : Int} {ops ops' : List Nat}
    (h : drain waits r work ops = some (r', work', ops')) :
    r'.inflight.length + r'.completed.length = r.inflight.length + r.completed.length := by
  induction waits generalizing r work ops with
  | nil =>
    unfold drain at h
    split at h
    · cases h
    · cases h
      rfl
  | cons wait waits ih =>
    unfold drain at h
    split at h
    · obtain ⟨t, ht, h⟩ := Option.bind_eq_some_iff.mp h
      rw [← completeAll_length ht]
      split at h
      · split at h
        · cases h
        · exact ih h
      · cases h
        rfl
    · cases h
      rfl

theorem drain_idle (waits : List Wait) (r : Ring) (ops : List Nat) :
    drain waits r 0 ops = some (r, 0, ops) := by
  cases waits <;> rfl

/-- It is always the first completion that is looked at. -/
theorem drain_first {waits : List Wait} {r r' : Ring} {data : Data} {rest : List Data}
    {work work' : Int} {ops ops' : List Nat} (hr : r.completed = data :: rest)
    (h : drain waits r work ops = some (r', work', ops')) :
    ∃ n : Nat, ops' = ops ++ (List.replicate n (affected data)).flatten ∧ work' = work - n := by
  induction waits generalizing r rest work ops with
  | nil =>
    unfold drain at h
    split at h
    · cases h
    · cases h
      exact ⟨0, by simp, by simp⟩
  | cons wait waits ih =>
    unfold drain at h
    split at h
    · obtain ⟨t, ht, h⟩ := Option.bind_eq_some_iff.mp h
      obtain ⟨more, hmore⟩ := completeAll_completed ht
      rw [hr, List.cons_append] at hmore
      split at h
      · rw [hmore] at h
        obtain ⟨n, rfl, rfl⟩ := ih hmore h
        refine ⟨n + 1, ?_, ?_⟩
        · rw [List.replicate_succ, List.flatten_cons, List.append_assoc]
        · omega
      · cases h
        exact ⟨0, by simp, by simp⟩
    · cases h
      exact ⟨0, by simp, by simp⟩

section

variable {s s' : Forking} {results : Nat → Int} {result result' : Int} {waits : List Wait}

theorem Sane.cancelAll_work (h : s.Sane) (results : Nat → Int) (result result' : Int) :
    (s.cancelAll results result result').outstandingWork =
      (s.cancelAll results result result').ring.inflight.length +
        (s.cancelAll results result result').ring.completed.length := by
  have hc := cancelAll_cancels s results result result'
  have hwork := (hc.sane h.service).counted.work
  simpa [Service.taken, hc.run, h.run] using hwork

/-- All completions have been taken only if there are none. -/
theorem Quiet.idle (h : s.Sane) (hp : s.forkPrepare results result result' waits = some s')
    (hq : s'.Quiet) : (s.cancelAll results result result').outstandingWork = 0 := by
  obtain ⟨⟨ring, work, ops⟩, hdrain, rfl⟩ := Option.map_eq_some_iff.mp hp
  have hlen := drain_length hdrain
  have hinflight : ring.inflight = [] := hq.inflight
  have hcompleted : ring.completed = [] := hq.completed
  rw [hinflight, hcompleted] at hlen
  rw [h.cancelAll_work]
  simp only [List.length_nil] at hlen
  omega

theorem forkPrepare_idle (hp : s.forkPrepare results result result' waits = some s')
    (hidle : (s.cancelAll results result result').outstandingWork = 0) :
    s' = { s with service := s.cancelAll results result result' } := by
  unfold forkPrepare at hp
  dsimp only at hp
  rw [hidle, drain_idle, Option.map_some, ← hidle, List.append_nil] at hp
  exact (Option.some.inj hp).symm

/-- If there is nothing to be waited for, what was prepared before is what covers the timers. -/
theorem Sane.timers (h : s.Sane)
    (hidle : (s.cancelAll results result result').outstandingWork = 0) {time : Nat}
    (htime : time ∈ s.service.timers) : s.service.pendingSubmitSqesOp = true := by
  have hwork := (cancelAll_cancels s results result result').work
  have hall := h.cancelAll_work results result result'
  have hinflight : s.service.ring.inflight = [] := List.length_eq_zero_iff.mp (by omega)
  have hcompleted : s.service.ring.completed = [] := List.length_eq_zero_iff.mp (by omega)
  have hcovered := h.service.covered time htime
  refine h.submit ?_
  rw [h.service.counted.pending, Ne, List.length_eq_zero_iff]
  intro hprepared
  unfold Covered at hcovered
  simp [hinflight, hcompleted, hprepared, h.run, Run.checkTimers] at hcovered

theorem Sane.restored {t : Forking} (h : s.Sane) (hc : Cancels s.service t.service)
    (hqueues : t.queues = s.queues) (hposted : t.posted = s.posted)
    (hflag : ∀ time ∈ s.service.timers, s.service.pendingSubmitSqesOp = true) : t.Restored where
  queues := by
    intro i q hq hpending
    rw [hqueues] at hq
    rw [hposted]
    exact (h.queues i q hq hpending).imp_right fun hmem => hc.data hmem
  timers := by
    intro time htime
    have hcovered := (hc.sane h.service).covered time htime
    rw [hc.run, h.run] at hcovered
    rw [hc.timers] at htime
    exact ⟨hcovered, hc.flag.trans (hflag time htime)⟩

@[simp] theorem forkParent_queues (s : Forking) (result : Int) :
    (s.forkParent result).queues = s.queues := rfl

@[simp] theorem forkParent_posted (s : Forking) (result : Int) :
    (s.forkParent result).posted = s.posted := rfl

theorem forkParent_cancels (s : Forking) (result : Int) :
    Cancels s.service (s.forkParent result).service :=
  getSqe_cancels s.service result (show removal.data ≠ .timeout by decide)

theorem not_covered_nil (time : Nat) : ¬ Covered ⟨[], [], []⟩ false time := by
  simp [Covered]

/-- After the fork everything is as wanted just when there was nothing to wait for, and in the child
only if there is nothing that was to be started again. -/
theorem restored_iff (h : s.Sane) (hp : s.forkPrepare results result result' waits = some s')
    (result'' : Int) :
    (s'.Quiet ∧ (s'.forkParent result'').Restored ↔
        (s.cancelAll results result result').outstandingWork = 0) ∧
      (s'.Quiet ∧ s'.forkChild.Restored ↔
        (s.cancelAll results result result').outstandingWork = 0 ∧ s.service.timers = [] ∧
          ∀ i q, s.queues[i]? = some q → q.pending = true → i ∈ s.posted) := by
  have hc := cancelAll_cancels s results result result'
  have hquiet (hidle : (s.cancelAll results result result').outstandingWork = 0) :
      Quiet { s with service := s.cancelAll results result result' } := by
    have hall := h.cancelAll_work results result result'
    have hlen : (s.cancelAll results result result').ring.inflight.length = 0 ∧
        (s.cancelAll results result result').ring.completed.length = 0 := by omega
    exact ⟨List.length_eq_zero_iff.mp hlen.1, List.length_eq_zero_iff.mp hlen.2, h.posted⟩
  refine ⟨⟨fun hq => hq.1.idle h hp, fun hidle => ?_⟩, ⟨fun hq => ?_, fun hidle => ?_⟩⟩
  · obtain rfl := forkPrepare_idle hp hidle
    have hparent := forkParent_cancels
      { s with service := s.cancelAll results result result' } result''
    exact ⟨hquiet hidle, h.restored (hc.trans hparent) (forkParent_queues _ _)
      (forkParent_posted _ _) fun time htime => h.timers hidle htime⟩
  · have hidle := hq.1.idle h hp
    obtain rfl := forkPrepare_idle hp hidle
    refine ⟨hidle, ?_, fun i q hget hpending => ?_⟩
    · rw [List.eq_nil_iff_forall_not_mem]
      intro time htime
      rw [← hc.timers] at htime
      exact not_covered_nil time (hq.2.timers time htime).1
    · exact (hq.2.queues i q hget hpending).resolve_right (by simp [forkChild, Ring.data])
  · obtain rfl := forkPrepare_idle hp hidle.1
    refine ⟨hquiet hidle.1, ⟨fun i q hget hpending => .inl (hidle.2.2 i q hget hpending), ?_⟩⟩
    intro time htime
    have htimers : time ∈ s.service.timers := by
      rw [← hc.timers]
      exact htime
    rw [hidle.2.1] at htimers
    cases htimers

end

/-- One operation is in the kernel. -/
def oneRead : Forking where
  service :=
    { Service.initial with
      ring := ⟨[], [⟨.operation, .queue 0⟩], []⟩
      outstandingWork := 1 }
  queues := [⟨true, false⟩]
  posted := []

theorem oneRead_sane : oneRead.Sane where
  service := ⟨⟨rfl, rfl⟩, rfl, fun _ htime => absurd htime List.not_mem_nil, rfl⟩
  submit := fun hne => absurd rfl hne
  run := rfl
  posted := fun i => Nat.zero_le 1
  queues := by
    intro i q hq _
    obtain _ | i := i
    · exact .inr (by decide)
    · cases hq

/-- The kernel completes the operation first, and both cancellations. -/
def oneReadWaits : List Wait := [⟨[0], true⟩, ⟨[0], true⟩, ⟨[0], true⟩]

/-- The queue has been pushed for every entry. -/
def oneReadPrepared : Forking where
  service :=
    { Service.initial with
      ring := ⟨[], [], [.queue 0, .null, .null]⟩
      outstandingWork := 0 }
  queues := [⟨true, false⟩]
  posted := [0, 0, 0]

theorem oneRead_prepare :
    oneRead.forkPrepare (fun _ => 0) 0 2 oneReadWaits = some oneReadPrepared := by
  rfl

theorem restored_iff_oneRead :
    (oneReadPrepared.Quiet ∧ (oneReadPrepared.forkParent 0).Restored ↔
        (oneRead.cancelAll (fun _ => 0) 0 2).outstandingWork = 0) ∧
      (oneReadPrepared.Quiet ∧ oneReadPrepared.forkChild.Restored ↔
        (oneRead.cancelAll (fun _ => 0) 0 2).outstandingWork = 0 ∧ oneRead.service.timers = [] ∧
          ∀ i q, oneRead.queues[i]? = some q → q.pending = true → i ∈ oneRead.posted) :=
  restored_iff oneRead_sane oneRead_prepare 0

/-- The completion is not taken from the ring, and the queue is posted three times. -/
theorem not_quiet_oneRead :
    ¬ ∀ s' result result' waits, oneRead.forkPrepare (fun _ => 0) result result' waits = some s' →
      s'.service.ring.completed = [] ∧ ∀ i, s'.posted.count i ≤ 1 := by
  intro h
  exact absurd ((h _ _ _ _ oneRead_prepare).2 0) (by decide)

end Forking

end Asio.Detail.IoUringRing
