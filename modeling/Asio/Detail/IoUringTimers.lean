import Mathlib.Data.List.Count
import Asio.Lib.Transition
import Asio.Detail.IoUringRing

/-! The timeout of the timers, and the operation that submits what is prepared. -/

namespace Asio.Detail.IoUringRing

open Asio.Lib.Transition

/-- The entry that has the timeout set again. -/
def removal : Sqe := ⟨.timeoutRemove .timeout, .timerQueues⟩

/-- A timer at `time` is not missed: the timeout is complete, or due by then, or it will be removed,
or it is not set and will be. -/
def Covered (r : Ring) (checkTimers : Bool) (time : Nat) : Prop :=
  .timeout ∈ r.completed ∨
    (∃ due, due ≤ time ∧ ⟨.timeout due, .timeout⟩ ∈ r.prepared ++ r.inflight) ∨
    (∃ before after, r.prepared = before ++ removal :: after ∧
      ∀ sqe ∈ after, sqe.data ≠ .timeout) ∨
    .timeout ∉ r.data ∧
      (checkTimers = true ∨ .timerQueues ∈ r.inflight.map (·.data) ++ r.completed)

namespace Covered

variable {r r' : Ring} {checkTimers : Bool} {time time' : Nat}

theorem completed (h : .timeout ∈ r.completed) : Covered r checkTimers time := .inl h

theorem due {d : Nat} (hd : d ≤ time)
    (h : ⟨.timeout d, .timeout⟩ ∈ r.prepared ++ r.inflight) : Covered r checkTimers time :=
  .inr (.inl ⟨d, hd, h⟩)

theorem removed {before after : List Sqe} (h : r.prepared = before ++ removal :: after)
    (hafter : ∀ sqe ∈ after, sqe.data ≠ .timeout) : Covered r checkTimers time :=
  .inr (.inr (.inl ⟨before, after, h, hafter⟩))

theorem unset (h : .timeout ∉ r.data)
    (hcheck : checkTimers = true ∨ .timerQueues ∈ r.inflight.map (·.data) ++ r.completed) :
    Covered r checkTimers time :=
  .inr (.inr (.inr ⟨h, hcheck⟩))

theorem later (h : Covered r checkTimers time) (hle : time ≤ time') :
    Covered r checkTimers time' := by
  obtain h | ⟨d, hd, h⟩ | ⟨before, after, h, hafter⟩ | ⟨h, hcheck⟩ := h
  · exact completed h
  · exact due (Nat.le_trans hd hle) h
  · exact removed h hafter
  · exact unset h hcheck

end Covered

theorem mem_accept_inflight (prepared : List Sqe) {inflight : List Sqe} (completed : List Data)
    {sqe : Sqe} (sqe' : Sqe) (h : sqe ∈ inflight) (hts : sqe.data ≠ .ts) :
    sqe ∈ ((⟨prepared, inflight, completed⟩ : Ring).accept sqe').inflight ∨
      Ring.expire sqe ∈ ((⟨prepared, inflight, completed⟩ : Ring).accept sqe').inflight := by
  unfold Ring.accept
  split
  · exact .inl (List.mem_append_left _ (List.mem_filter.mpr ⟨h, by simpa using hts⟩))
  · exact .inr (List.mem_append_left _ (List.mem_map_of_mem h))
  · exact .inl (List.mem_append_left _ h)

theorem mem_accept_self (r : Ring) (sqe : Sqe) : sqe ∈ (r.accept sqe).inflight := by
  unfold Ring.accept
  split <;> simp

theorem accept_completed (r : Ring) (sqe : Sqe) :
    r.completed.Subset (r.accept sqe).completed := by
  unfold Ring.accept
  split
  · exact List.subset_append_left _ _
  · exact List.Subset.refl _
  · exact List.Subset.refl _

/-- The kernel accepts the first of the entries. -/
theorem Covered.accept {prepared inflight : List Sqe} {completed : List Data} {sqe : Sqe}
    {checkTimers : Bool} {time : Nat}
    (h : Covered ⟨sqe :: prepared, inflight, completed⟩ checkTimers time) :
    Covered ((⟨prepared, inflight, completed⟩ : Ring).accept sqe) checkTimers time := by
  have hdata := Ring.accept_data ⟨prepared, inflight, completed⟩ sqe prepared
  obtain h | ⟨d, hd, h⟩ | ⟨before, after, h, hafter⟩ | ⟨h, hcheck⟩ := h
  · exact Covered.completed (accept_completed _ _ h)
  · obtain h | h := List.mem_append.mp h
    · obtain rfl | h := List.mem_cons.mp h
      · exact Covered.due hd (List.mem_append_right _ (mem_accept_self _ _))
      · refine Covered.due hd (List.mem_append_left _ ?_)
        rwa [Ring.accept_prepared]
    · obtain h | h := mem_accept_inflight prepared completed sqe h (by simp)
      · exact Covered.due hd (List.mem_append_right _ h)
      · exact Covered.due (Nat.zero_le time) (List.mem_append_right _ h)
  · cases before with
    | cons first before =>
      obtain ⟨rfl, rfl⟩ := List.cons.inj h
      exact Covered.removed (Ring.accept_prepared _ _) hafter
    | nil =>
      obtain ⟨rfl, rfl⟩ := List.cons.inj h
      by_cases hset : Data.timeout ∈ (⟨removal :: prepared, inflight, completed⟩ : Ring).data
      · simp only [Ring.data, List.mem_append, List.mem_map] at hset
        obtain ⟨sqe, hsqe, htimeout⟩ | ⟨sqe, hsqe, htimeout⟩ | hset := hset
        · obtain rfl | hsqe := List.mem_cons.mp hsqe
          · cases htimeout
          · exact absurd htimeout (hafter sqe hsqe)
        · refine Covered.due (Nat.zero_le time) (List.mem_append_right _ ?_)
          obtain ⟨command, data⟩ := sqe
          obtain rfl : data = .timeout := htimeout
          exact List.mem_append_left _ (List.mem_map_of_mem hsqe)
        · exact Covered.completed (accept_completed _ _ hset)
      · refine Covered.unset (fun hmem => hset (hdata.subset hmem)) (.inr ?_)
        exact List.mem_append_left _ (List.mem_map_of_mem (mem_accept_self _ removal))
  · refine Covered.unset (fun hmem => h (hdata.subset hmem)) (hcheck.imp_right fun hmem => ?_)
    obtain hmem | hmem := List.mem_append.mp hmem
    · obtain ⟨sqe', hsqe, hqueues⟩ := List.mem_map.mp hmem
      refine List.mem_append_left _ ?_
      obtain h | h := mem_accept_inflight prepared completed sqe hsqe (by simp [hqueues])
      · exact List.mem_map.mpr ⟨_, h, hqueues⟩
      · exact List.mem_map.mpr ⟨_, h, by rw [Ring.expire_data, hqueues]⟩
    · exact List.mem_append_right _ (accept_completed _ _ hmem)

theorem Covered.submit {r : Ring} {checkTimers : Bool} {time : Nat}
    (h : Covered r checkTimers time) (n : Nat) : Covered (r.submit n) checkTimers time := by
  induction n generalizing r with
  | zero => exact h
  | succ n ih =>
    obtain ⟨prepared, inflight, completed⟩ := r
    cases prepared with
    | nil => exact h
    | cons sqe prepared => exact ih h.accept

theorem Covered.complete {r r' : Ring} {i : Nat} {checkTimers : Bool} {time : Nat}
    (h : Covered r checkTimers time) (hc : r.complete i = some r') :
    Covered r' checkTimers time := by
  obtain ⟨hdata, hprepared⟩ := Ring.complete_data hc
  obtain ⟨sqe, hsqe, rfl⟩ := Option.map_eq_some_iff.mp hc
  obtain ⟨hi, rfl⟩ := List.getElem?_eq_some_iff.mp hsqe
  have hperm := List.getElem_cons_eraseIdx_perm hi
  obtain h | ⟨d, hd, h⟩ | ⟨before, after, h, hafter⟩ | ⟨h, hcheck⟩ := h
  · exact Covered.completed (List.mem_append_left _ h)
  · obtain h | h := List.mem_append.mp h
    · exact Covered.due hd (List.mem_append_left _ h)
    · obtain heq | h := List.mem_cons.mp (hperm.symm.subset h)
      · refine Covered.completed (List.mem_append_right _ ?_)
        rw [← heq]
        exact List.mem_singleton_self _
      · exact Covered.due hd (List.mem_append_right _ h)
  · exact Covered.removed h hafter
  · refine Covered.unset (fun hmem => h (hdata.subset hmem)) (hcheck.imp_right fun hmem => ?_)
    obtain hmem | hmem := List.mem_append.mp hmem
    · obtain ⟨sqe, hsqe, hqueues⟩ := List.mem_map.mp hmem
      obtain heq | hsqe := List.mem_cons.mp (hperm.symm.subset hsqe)
      · refine List.mem_append_right _ (List.mem_append_right _ ?_)
        rw [← hqueues, heq]
        exact List.mem_singleton_self _
      · exact List.mem_append_left _ (List.mem_map.mpr ⟨sqe, hsqe, hqueues⟩)
    · exact List.mem_append_right _ (List.mem_append_left _ hmem)

theorem Covered.push {s : Service} {sqe : Sqe} {checkTimers : Bool} {time : Nat}
    (h : Covered s.ring checkTimers time) (hsqe : sqe.data ≠ .timeout) :
    Covered (s.push sqe).ring checkTimers time := by
  obtain h | ⟨d, hd, h⟩ | ⟨before, after, h, hafter⟩ | ⟨h, hcheck⟩ := h
  · exact Covered.completed h
  · refine Covered.due hd ?_
    obtain h | h := List.mem_append.mp h
    · exact List.mem_append_left _ (List.mem_append_left _ h)
    · exact List.mem_append_right _ h
  · have hprepared : (s.push sqe).ring.prepared = before ++ removal :: (after ++ [sqe]) := by
      simp only [Service.push, h, List.append_assoc, List.cons_append]
    refine Covered.removed hprepared fun sqe' hmem => ?_
    obtain hmem | hmem := List.mem_append.mp hmem
    · exact hafter sqe' hmem
    · rw [List.mem_singleton.mp hmem]
      exact hsqe
  · refine Covered.unset (fun hmem => ?_) hcheck
    obtain heq | hmem := List.mem_cons.mp ((Service.push_data s sqe).subset hmem)
    · exact hsqe heq.symm
    · exact h hmem

/-! ### Calls -/

def Run.checkTimers : Run → Bool
  | .draining _ _ checkTimers | .checking checkTimers => checkTimers
  | _ => false

/-- What holds even in the middle of a call. -/
structure TimerSane (s : Service) : Prop where
  counted : s.Counted
  armed : s.ring.data.count .timeout = if s.timeout = 0 then 0 else 1
  covered : ∀ time ∈ s.timers, Covered s.ring s.run.checkTimers time
  queued : s.submitOps = if s.pendingSubmitSqesOp then 1 else 0

/-- What is prepared will be submitted. -/
def Posted (s : Service) : Prop := s.pendingSqes ≠ 0 → s.pendingSubmitSqesOp = true

/-- All entries are submitted, or will be. -/
def TakesAll (s : Service) (result : Int) : Prop :=
  s.pendingSubmitSqesOp = true ∨ s.pendingSqes ≤ result

namespace TimerSane

variable {s t : Service}

theorem submits (h : TimerSane s) (hs : s.Submits t) : TimerSane t where
  counted := hs.counted h.counted
  armed := by rw [hs.data.count_eq, hs.timeout, h.armed]
  covered := by
    intro time htime
    rw [hs.timers] at htime
    obtain ⟨n, hn⟩ := hs.prepared
    rw [hn, hs.run]
    exact (h.covered time htime).submit n
  queued := by rw [hs.submitOps, hs.pendingSubmitSqesOp, h.queued]

theorem push (h : TimerSane s) {sqe : Sqe} (hsqe : sqe.data ≠ .timeout) :
    TimerSane (s.push sqe) where
  counted := Service.push_counted h.counted sqe
  armed := by
    rw [(Service.push_data s sqe).count_eq, List.count_cons_of_ne hsqe, h.armed]
    rfl
  covered := fun time htime => (h.covered time htime).push hsqe
  queued := h.queued

theorem getSqe (h : TimerSane s) (result : Int) {sqe : Sqe} (hsqe : sqe.data ≠ .timeout) :
    TimerSane (s.getSqe result sqe).2 := by
  obtain ⟨t, ht, heq | ⟨heq, -⟩⟩ := Service.getSqe_cases s result sqe
  · rw [heq]
    exact (h.submits ht).push hsqe
  · rw [heq]
    exact h.submits ht

theorem prepCancel (h : TimerSane s) (queues : List (Nat × Int)) :
    TimerSane (s.prepCancel queues) := by
  induction queues generalizing s with
  | nil => exact h
  | cons q queues ih => exact ih (h.getSqe _ (by simp))

theorem submitSqes (h : TimerSane s) (result : Int) : TimerSane (s.submitSqes result) :=
  h.submits (Service.submitSqes_submits s result)

theorem pushSubmitSqesOp (h : TimerSane s) : TimerSane s.pushSubmitSqesOp := by
  have hcounted := Service.pushSubmitSqesOp_counted h.counted
  have hqueued := h.queued
  unfold Service.pushSubmitSqesOp at hcounted ⊢
  split
  · rename_i hpush
    rw [if_pos hpush] at hcounted
    refine ⟨hcounted, h.armed, h.covered, ?_⟩
    simp [hqueued, hpush.2]
  · exact h

theorem postSubmitSqesOp (h : TimerSane s) (result : Int) :
    TimerSane (s.postSubmitSqesOp result) := by
  unfold Service.postSubmitSqesOp
  split
  · exact h.submitSqes result
  · exact h.pushSubmitSqesOp

end TimerSane

section

variable {s t : Service}

theorem Posted.submits (h : Posted s) (hs : s.Submits t) : Posted t := by
  intro hne
  have hle := hs.pending
  rw [hs.pendingSubmitSqesOp]
  exact h (by omega)

/-- Without an entry nothing more is prepared. -/
theorem Posted.getSqe (h : Posted s) {result : Int} {sqe : Sqe}
    (hno : (s.getSqe result sqe).1 = false) : Posted (s.getSqe result sqe).2 := by
  obtain ⟨t, ht, heq | ⟨heq, -⟩⟩ := Service.getSqe_cases s result sqe
  · rw [heq] at hno
    cases hno
  · rw [heq]
    exact h.submits ht

theorem TakesAll.posted (hc : s.Counted) {result : Int} (h : TakesAll s result) :
    Posted (s.submitSqes result) := by
  intro hne
  rw [(Service.submitSqes_submits s result).pendingSubmitSqesOp]
  refine h.resolve_right fun hle => hne ?_
  have hpending := hc.pending
  unfold Service.submitSqes
  split
  · dsimp only
    omega
  · rename_i hnot
    omega

theorem posted_pushSubmitSqesOp (s : Service) : Posted s.pushSubmitSqesOp := by
  unfold Service.pushSubmitSqesOp
  split
  · exact fun _ => rfl
  · rename_i hnot
    intro hne
    by_contra hflag
    exact hnot ⟨hne, by simpa using hflag⟩

theorem posted_postSubmitSqesOp (hc : s.Counted) {result : Int}
    (h : submitBatchSize ≤ s.pendingSqes → TakesAll s result) :
    Posted (s.postSubmitSqesOp result) := by
  unfold Service.postSubmitSqesOp
  split
  · rename_i hbatch
    exact (h hbatch).posted hc
  · exact posted_pushSubmitSqesOp s

end

/-! ### Running -/

theorem data_consume (r : Ring) {data : Data} {completed : List Data}
    (h : r.completed = data :: completed) :
    r.data.Perm (data :: { r with completed := completed }.data) := by
  simp only [Ring.data, h, ← List.append_assoc]
  exact List.perm_middle

/-- A completion of the timeout or of its removal has the timers looked at. -/
theorem Covered.consume {r : Ring} {data : Data} {completed : List Data} {checkTimers : Bool}
    {time : Nat} (h : Covered r checkTimers time) (hc : r.completed = data :: completed)
    (honce : r.data.count .timeout ≤ 1) :
    Covered { r with completed := completed }
      (checkTimers || data = .timerQueues || data = .timeout) time := by
  have hperm := data_consume r hc
  obtain h | ⟨d, hd, h⟩ | ⟨before, after, h, hafter⟩ | ⟨h, hcheck⟩ := h
  · rw [hc] at h
    obtain rfl | h := List.mem_cons.mp h
    · refine Covered.unset ?_ (.inl (by simp))
      rw [hperm.count_eq, List.count_cons_self] at honce
      exact List.count_eq_zero.mp (by omega)
    · exact Covered.completed h
  · exact Covered.due hd h
  · exact Covered.removed h hafter
  · refine Covered.unset (fun hmem => h (hperm.symm.subset (List.mem_cons_of_mem _ hmem))) ?_
    obtain hcheck | hcheck := hcheck
    · exact .inl (by simp [hcheck])
    · rw [hc] at hcheck
      obtain hmem | hmem := List.mem_append.mp hcheck
      · exact .inr (List.mem_append_left _ hmem)
      · obtain rfl | hmem := List.mem_cons.mp hmem
        · exact .inl (by simp)
        · exact .inr (List.mem_append_right _ hmem)

theorem Covered.check {r : Ring} {checkTimers : Bool} {time : Nat} (h : Covered r checkTimers time)
    (hset : .timeout ∈ r.data) : Covered r false time := by
  obtain h | ⟨d, hd, h⟩ | ⟨before, after, h, hafter⟩ | ⟨h, hcheck⟩ := h
  · exact Covered.completed h
  · exact Covered.due hd h
  · exact Covered.removed h hafter
  · exact absurd hset h

namespace TimerSane

variable {s s' : Service}

theorem honce (h : TimerSane s) : s.ring.data.count .timeout ≤ 1 := by
  rw [h.armed]
  split <;> decide

theorem consume (h : TimerSane s) (hs : s.consume = some s') : TimerSane s' := by
  obtain ⟨localOps, count, checkTimers, data, completed, hrun, hcompleted, work, run, rfl, hcase⟩ :=
    Service.consume_cases hs
  have hperm := data_consume s.ring hcompleted
  have hwork := h.counted.work
  simp only [Service.taken, hrun, hcompleted, List.length_cons] at hwork
  have hcheck : run.checkTimers = (checkTimers || data = .timerQueues || data = .timeout) := by
    obtain ⟨-, rfl⟩ | ⟨-, rfl, -⟩ := hcase <;> rfl
  refine ⟨⟨h.counted.pending, ?_⟩, ?_, fun time htime => ?_, h.queued⟩
  · obtain ⟨rfl, rfl⟩ | ⟨rfl, rfl, -⟩ := hcase
    · simp only [Service.taken]
      omega
    · simp only [Service.taken]
      omega
  · have harmed := h.armed
    rw [hperm.count_eq, List.count_cons] at harmed
    dsimp only
    by_cases hdata : data = .timeout
    · have honce := h.honce
      rw [hperm.count_eq, List.count_cons] at honce
      simp only [hdata, beq_self_eq_true, if_true] at honce ⊢
      omega
    · simpa [hdata] using harmed
  · have hcov := h.covered time htime
    rw [hrun] at hcov
    rw [hcheck]
    exact hcov.consume hcompleted h.honce

/-- Another point of `run` with the same to do. -/
theorem goto {run : Run} (h : TimerSane s)
    (htaken : Service.taken { s with run := run } = s.taken)
    (hcheck : run.checkTimers = s.run.checkTimers) : TimerSane { s with run := run } where
  counted :=
    { pending := h.counted.pending
      work := by rw [htaken]; exact h.counted.work }
  armed := h.armed
  covered := by
    intro time htime
    rw [hcheck]
    exact h.covered time htime
  queued := h.queued

end TimerSane

/-! ### Setting the timeout -/

/-- `get_sqe` finds an entry. -/
def Service.Available (s : Service) (result : Int) : Prop :=
  s.ring.prepared.length < ringSize ∨ (s.submitSqes result).ring.prepared.length < ringSize

theorem available_congr {s t : Service} {result : Int} (h : s.Available result)
    (hring : t.ring = s.ring) (hpending : t.pendingSqes = s.pendingSqes) : t.Available result := by
  have hsubmit : (t.submitSqes result).ring = (s.submitSqes result).ring := by
    simp only [Service.submitSqes, hring, hpending]
    split
    · rfl
    · exact hring
  unfold Service.Available
  rw [hsubmit, hring]
  exact h

theorem getSqe_fst {s : Service} {result : Int} (h : s.Available result) (sqe : Sqe) :
    (s.getSqe result sqe).1 = true := by
  unfold Service.getSqe
  dsimp only
  by_cases hlt : s.ring.prepared.length < ringSize
  · simp only [if_pos hlt]
  · simp only [if_neg hlt, if_pos (h.resolve_left hlt)]

theorem waitDurationUsec_le {s : Service} {time : Nat} (now maxDuration : Nat)
    (h : time ∈ s.timers) : s.waitDurationUsec now maxDuration ≤ time - now := by
  unfold Service.waitDurationUsec
  generalize s.timers = timers at h
  induction timers with
  | nil => cases h
  | cons first timers ih =>
    obtain rfl | h := List.mem_cons.mp h
    · exact Nat.min_le_left _ _
    · exact Nat.le_trans (Nat.min_le_right _ _) (ih h)

theorem getTimeout_ne_zero (s : Service) (now : Nat) : s.getTimeout now ≠ 0 := by
  unfold Service.getTimeout
  dsimp only
  split
  · rename_i hne
    exact Nat.mul_ne_zero hne (by decide)
  · decide

section

variable {s : Service} {now : Nat} {result : Int}

/-- The timeout that is set is due before all timers. -/
theorem push_timeout_sane (hc : s.Counted) (hunset : s.ring.data.count .timeout = 0)
    (hset : s.timeout ≠ 0) (hqueued : s.submitOps = if s.pendingSubmitSqesOp then 1 else 0)
    (hlater : ∀ time ∈ s.timers, now < time) :
    TimerSane
      (s.push ⟨.timeout (now + s.waitDurationUsec now Service.maxTimeoutUsec), .timeout⟩) where
  counted := Service.push_counted hc _
  armed := by
    rw [(Service.push_data s _).count_eq, List.count_cons_self, hunset]
    exact (if_neg hset).symm
  covered := by
    intro time htime
    have hle := waitDurationUsec_le (s := s) now Service.maxTimeoutUsec htime
    have hlt := hlater time htime
    refine Covered.due (d := now + s.waitDurationUsec now Service.maxTimeoutUsec) (by omega) ?_
    exact List.mem_append_left _ (List.mem_append_right _ (List.mem_singleton_self _))
  queued := hqueued

theorem setTimeout_sane (hc : s.Counted) (hunset : s.ring.data.count .timeout = 0)
    (hqueued : s.submitOps = if s.pendingSubmitSqesOp then 1 else 0)
    (hlater : ∀ time ∈ s.timers, now < time) (hok : s.Available result) :
    TimerSane (s.setTimeout now result) ∧ Posted (s.setTimeout now result) := by
  have hok' : Service.Available { s with timeout := s.getTimeout now } result :=
    available_congr hok rfl rfl
  have hfst := getSqe_fst hok'
    ⟨.timeout (now + s.waitDurationUsec now Service.maxTimeoutUsec), .timeout⟩
  unfold Service.setTimeout
  dsimp only
  rw [if_pos hfst]
  refine ⟨TimerSane.pushSubmitSqesOp ?_, posted_pushSubmitSqesOp _⟩
  obtain ⟨t, ht, heq | ⟨heq, -⟩⟩ := Service.getSqe_cases { s with timeout := s.getTimeout now }
    result ⟨.timeout (now + s.waitDurationUsec now Service.maxTimeoutUsec), .timeout⟩
  · have hwait : s.waitDurationUsec now Service.maxTimeoutUsec =
        t.waitDurationUsec now Service.maxTimeoutUsec := by
      unfold Service.waitDurationUsec
      rw [ht.timers]
    rw [heq, hwait]
    refine push_timeout_sane (ht.counted ⟨hc.pending, hc.work⟩) ?_ ?_ ?_ ?_
    · rw [ht.data.count_eq]
      exact hunset
    · rw [ht.timeout]
      exact getTimeout_ne_zero s now
    · rw [ht.submitOps, ht.pendingSubmitSqesOp]
      exact hqueued
    · rw [ht.timers]
      exact hlater
  · rw [heq] at hfst
    cases hfst

theorem rearm_sane (hrun : s.run = .idle) (hc : s.Counted)
    (harmed : s.ring.data.count .timeout = if s.timeout = 0 then 0 else 1)
    (hcovered : ∀ time ∈ s.timers, Covered s.ring true time)
    (hqueued : s.submitOps = if s.pendingSubmitSqesOp then 1 else 0) (hposted : Posted s)
    (hok : s.timeout = 0 → s.Available result) :
    TimerSane (s.rearm now result) ∧ Posted (s.rearm now result) := by
  unfold Service.rearm
  dsimp only
  split
  · rename_i hzero
    rw [if_pos hzero] at harmed
    refine setTimeout_sane ⟨hc.pending, hc.work⟩ harmed hqueued ?_
      (available_congr (hok hzero) rfl rfl)
    intro time htime
    simpa using (List.mem_filter.mp htime).2
  · rename_i hset
    rw [if_neg hset] at harmed
    have hmem : Data.timeout ∈ s.ring.data := List.count_pos_iff.mp (by omega)
    refine ⟨⟨⟨hc.pending, hc.work⟩, ?_, fun time htime => ?_, hqueued⟩, hposted⟩
    · dsimp only
      rw [harmed, if_neg hset]
    · rw [hrun]
      exact (hcovered time (List.mem_filter.mp htime).1).check hmem

end

/-! ### One step -/

/-- Every entry for the timeout or its removal is got, and what is submitted at once is taken as a
whole, unless it will be submitted again. -/
def TimerOk (s : Service) : Action → Prop
  | .scheduleTimer time earliest result result' =>
    earliest = true →
      s.Available result ∧
        (submitBatchSize ≤
            (Service.updateTimeout { s with timers := s.timers ++ [time] } result).2.pendingSqes →
          TakesAll (Service.updateTimeout { s with timers := s.timers ++ [time] } result).2 result')
  | .startOp i result result' =>
    submitBatchSize ≤ (s.getSqe result ⟨.operation, .queue i⟩).2.pendingSqes →
      TakesAll (s.getSqe result ⟨.operation, .queue i⟩).2 result'
  | .interrupt result result' => TakesAll (s.getSqe result ⟨.nop, .service⟩).2 result'
  | .doCancelOps queues result => TakesAll (s.prepCancel queues) result
  | .cancelOpsByKey i result result' =>
    TakesAll (s.getSqe result ⟨.cancel (.queue i), .null⟩).2 result'
  | .startRun now usec result result' =>
    0 < usec → TakesAll (s.getSqe result ⟨.timeout (now + usec.toNat), .ts⟩).2 result'
  | .removeTs result result' => TakesAll (s.getSqe result ⟨.timeoutRemove .ts, .null⟩).2 result'
  | .endRun _ result => s.run = .checking true → s.timeout = 0 → s.Available result
  | _ => True

section

variable {s s' : Service}

theorem complete_timerSane {ring : Ring} {i : Nat} (h : TimerSane s)
    (hc : s.ring.complete i = some ring) : TimerSane { s with ring := ring } where
  counted := Service.complete_counted h.counted hc
  armed := by
    rw [(Ring.complete_data hc).1.count_eq]
    exact h.armed
  covered := fun time htime => (h.covered time htime).complete hc
  queued := h.queued

theorem submitOp_timerSane {result : Int} (h : TimerSane s) (hs : s.submitOp result = some s') :
    TimerSane s' ∧ Posted s' := by
  unfold Service.submitOp at hs
  split at hs
  · cases hs
  · rename_i hne
    have hflag : s.pendingSubmitSqesOp = true := by
      by_contra hflag
      exact hne (by rw [h.queued, if_neg hflag])
    have hsubmits := Service.submitSqes_submits s result
    have ht := h.submits hsubmits
    dsimp only at hs
    split at hs
    · cases hs
      refine ⟨ht, fun _ => ?_⟩
      rw [hsubmits.pendingSubmitSqesOp, hflag]
    · rename_i hnone
      cases hs
      refine ⟨⟨⟨ht.counted.pending, ht.counted.work⟩, ht.armed, ht.covered, ?_⟩, ?_⟩
      · dsimp only
        rw [hsubmits.submitOps, h.queued, if_pos hflag]
        rfl
      · exact fun hne => absurd hne hnone

/-- Whatever the timeout is, it will be removed when it is accepted by the kernel. -/
theorem push_removal_sane (hc : s.Counted)
    (harmed : s.ring.data.count .timeout = if s.timeout = 0 then 0 else 1)
    (hqueued : s.submitOps = if s.pendingSubmitSqesOp then 1 else 0) :
    TimerSane (s.push removal) where
  counted := Service.push_counted hc removal
  armed := by
    rw [(Service.push_data s removal).count_eq, List.count_cons_of_ne (by decide), harmed]
    rfl
  covered := fun time _ =>
    Covered.removed
      (show (s.push removal).ring.prepared = s.ring.prepared ++ removal :: [] from rfl)
      (by simp)
  queued := hqueued

/-- A timer that is not the first is not missed if those before it are not. -/
theorem scheduleTimer_timerSane {time : Nat} {earliest : Bool} {result result' : Int}
    (h : TimerSane s) (hp : Posted s)
    (hok : TimerOk s (.scheduleTimer time earliest result result'))
    (hs : s.scheduleTimer time earliest result result' = some s') : TimerSane s' ∧ Posted s' := by
  have hc : Service.Counted { s with timers := s.timers ++ [time] } :=
    ⟨h.counted.pending, h.counted.work⟩
  unfold Service.scheduleTimer at hs
  split at hs
  · rename_i hguard
    cases hs
    cases earliest with
    | true =>
      obtain ⟨havailable, htakes⟩ := hok rfl
      have hfst := getSqe_fst (available_congr (t := { s with timers := s.timers ++ [time] })
        havailable rfl rfl) removal
      obtain ⟨t, ht, heq | ⟨heq, -⟩⟩ :=
        Service.getSqe_cases { s with timers := s.timers ++ [time] } result removal
      · rw [Service.updateTimeout, ← removal, heq] at htakes
        rw [if_pos rfl, Service.updateTimeout, ← removal, heq]
        have hpush : TimerSane (t.push removal) := by
          refine push_removal_sane (ht.counted hc) ?_ ?_
          · rw [ht.data.count_eq, ht.timeout]
            exact h.armed
          · rw [ht.submitOps, ht.pendingSubmitSqesOp]
            exact h.queued
        exact ⟨hpush.postSubmitSqesOp result', posted_postSubmitSqesOp hpush.counted htakes⟩
      · rw [heq] at hfst
        cases hfst
    | false =>
      obtain ⟨time', htime', hle⟩ := hguard.resolve_left (by simp)
      refine ⟨⟨hc, h.armed, fun time₁ htime₁ => ?_, h.queued⟩, hp⟩
      obtain htime₁ | htime₁ := List.mem_append.mp htime₁
      · exact h.covered time₁ htime₁
      · rw [List.mem_singleton.mp htime₁]
        exact (h.covered time' htime').later hle
  · cases hs

/-- An entry is got, or not, and what is prepared is submitted at once. -/
theorem getSqe_submitSqes {sqe : Sqe} {result result' : Int} (h : TimerSane s) (hp : Posted s)
    (hsqe : sqe.data ≠ .timeout) (hok : TakesAll (s.getSqe result sqe).2 result') :
    TimerSane ((s.getSqe result sqe).2.submitSqes result') ∧
      Posted ((s.getSqe result sqe).2.submitSqes result') ∧
      TimerSane (s.getSqe result sqe).2 ∧
      ((s.getSqe result sqe).1 = false → Posted (s.getSqe result sqe).2) :=
  have hget := h.getSqe result hsqe
  ⟨hget.submitSqes result', hok.posted hget.counted, hget, hp.getSqe⟩

theorem startRun_timerSane {now : Nat} {usec result result' : Int} (h : TimerSane s)
    (hp : Posted s) (hok : TimerOk s (.startRun now usec result result'))
    (hs : s.startRun now usec result result' = some s') : TimerSane s' ∧ Posted s' := by
  unfold Service.startRun at hs
  split at hs
  · rename_i hrun
    have hgoto {t : Service} (ht : TimerSane t) (htrun : t.run = s.run) (usec localOps : Int) :
        TimerSane { t with run := .waiting usec localOps } := by
      refine ht.goto ?_ ?_
      · simp only [Service.taken, htrun, hrun]
      · rw [htrun, hrun]
        rfl
    split at hs
    · rename_i husec
      obtain ⟨hsubmit, hposted, hget, hnot⟩ := getSqe_submitSqes h hp (by simp) (hok husec)
      dsimp only at hs
      split at hs
      · cases hs
        refine ⟨hgoto hsubmit ?_ usec 1, hposted⟩
        rw [(Service.submitSqes_submits _ _).run, Service.getSqe_run]
      · rename_i hno
        cases hs
        exact ⟨hgoto hget (Service.getSqe_run _ _ _) usec 0, hnot (by simpa using hno)⟩
    · cases hs
      exact ⟨hgoto h rfl usec 0, hp⟩
  · cases hs

theorem wait_timerSane {success : Bool} (h : TimerSane s) (hp : Posted s)
    (hs : s.wait success = some s') : TimerSane s' ∧ Posted s' := by
  unfold Service.wait at hs
  split at hs
  · rename_i usec localOps hrun
    have hcheck : s.run.checkTimers = false := by rw [hrun]; rfl
    have htaken (run : Run) (hrun' : Service.taken { s with run := run } = 0) :
        Service.taken { s with run := run } = s.taken := by
      rw [hrun', Service.taken, hrun]
    split at hs
    · obtain ⟨data, -, rfl⟩ := Option.map_eq_some_iff.mp hs
      refine ⟨?_, hp⟩
      split
      · exact h.goto (htaken _ rfl) hcheck.symm
      · exact h.goto (htaken _ rfl) hcheck.symm
    · cases hs
      exact ⟨h.goto (htaken _ rfl) hcheck.symm, hp⟩
  · cases hs

theorem removeTs_timerSane {result result' : Int} (h : TimerSane s) (hp : Posted s)
    (hok : TimerOk s (.removeTs result result')) (hs : s.removeTs result result' = some s') :
    TimerSane s' ∧ Posted s' := by
  unfold Service.removeTs at hs
  split at hs
  · rename_i localOps hrun
    have hgoto {t : Service} (ht : TimerSane t) (htrun : t.run = s.run) (localOps : Int) :
        TimerSane { t with run := .draining localOps 0 false } := by
      refine ht.goto ?_ ?_
      · simp only [Service.taken, htrun, hrun]
      · rw [htrun, hrun]
        rfl
    obtain ⟨hsubmit, hposted, hget, hnot⟩ := getSqe_submitSqes h hp (by simp) hok
    dsimp only at hs
    split at hs
    · cases hs
      refine ⟨hgoto hsubmit ?_ _, hposted⟩
      rw [(Service.submitSqes_submits _ _).run, Service.getSqe_run]
    · rename_i hno
      cases hs
      exact ⟨hgoto hget (Service.getSqe_run _ _ _) _, hnot (by simpa using hno)⟩
  · cases hs

theorem endRun_timerSane {now : Nat} {result : Int} (h : TimerSane s) (hp : Posted s)
    (hok : TimerOk s (.endRun now result)) (hs : s.endRun now result = some s') :
    TimerSane s' ∧ Posted s' := by
  unfold Service.endRun at hs
  split at hs
  · rename_i checkTimers hrun
    have htaken : Service.taken { s with run := .idle } = s.taken := by
      simp only [Service.taken, hrun]
    cases hs
    cases checkTimers with
    | true =>
      refine rearm_sane rfl ⟨h.counted.pending, ?_⟩ h.armed (fun time htime => ?_) h.queued hp
        fun hzero => available_congr (hok hrun hzero) rfl rfl
      · rw [htaken]
        exact h.counted.work
      · have := h.covered time htime
        rwa [hrun] at this
    | false =>
      refine ⟨h.goto htaken ?_, hp⟩
      rw [hrun]
      rfl
  · cases hs

theorem step_timerSane {a : Action} (h : TimerSane s) (hp : Posted s) (hok : TimerOk s a)
    (hs : step s a = some s') : TimerSane s' ∧ Posted s' := by
  cases a with
  | complete i =>
    obtain ⟨ring, hc, rfl⟩ := Option.map_eq_some_iff.mp hs
    exact ⟨complete_timerSane h hc, hp⟩
  | submitOp result => exact submitOp_timerSane h hs
  | scheduleTimer time earliest result result' => exact scheduleTimer_timerSane h hp hok hs
  | cancelTimer i =>
    cases hs
    refine ⟨⟨⟨h.counted.pending, h.counted.work⟩, h.armed, fun time htime => ?_, h.queued⟩, hp⟩
    exact h.covered time (List.mem_of_mem_eraseIdx htime)
  | startOp i result result' =>
    cases hs
    have hget := h.getSqe result (show (⟨.operation, .queue i⟩ : Sqe).data ≠ .timeout by simp)
    simp only [Service.startOp]
    split
    · exact ⟨hget.postSubmitSqesOp result', posted_postSubmitSqesOp hget.counted hok⟩
    · rename_i hno
      exact ⟨hget, hp.getSqe (by simpa using hno)⟩
  | interrupt result result' =>
    cases hs
    obtain ⟨hsubmit, hposted, -⟩ := getSqe_submitSqes h hp (by simp) hok
    exact ⟨hsubmit, hposted⟩
  | doCancelOps queues result =>
    cases hs
    have hget := h.prepCancel queues
    exact ⟨hget.submitSqes result, hok.posted hget.counted⟩
  | cancelOpsByKey i result result' =>
    cases hs
    obtain ⟨hsubmit, hposted, hget, hnot⟩ := getSqe_submitSqes h hp (by simp) hok
    simp only [Service.cancelOpsByKey]
    split
    · exact ⟨hsubmit, hposted⟩
    · rename_i hno
      exact ⟨hget, hnot (by simpa using hno)⟩
  | startRun now usec result result' => exact startRun_timerSane h hp hok hs
  | wait success => exact wait_timerSane h hp hs
  | removeTs result result' => exact removeTs_timerSane h hp hok hs
  | consume =>
    obtain ⟨localOps, count, checkTimers, data, completed, -, -, work, run, rfl, -⟩ :=
      Service.consume_cases hs
    exact ⟨h.consume hs, hp⟩
  | endRun now result => exact endRun_timerSane h hp hok hs

end

/-- The timeout is set just when an entry carries its address, what is prepared will be submitted,
and no timer is missed. -/
structure Armed (s : Service) : Prop where
  timeout : s.timeout ≠ 0 ↔ .timeout ∈ s.ring.data
  once : s.ring.data.count .timeout ≤ 1
  pending : s.pendingSqes = s.ring.prepared.length
  submit : 0 < s.pendingSqes → s.submitOps = 1 ∧ s.pendingSubmitSqesOp = true
  covered : ∀ time ∈ s.timers, Covered s.ring s.run.checkTimers time

theorem TimerSane.armed_of_posted {s : Service} (h : TimerSane s) (hp : Posted s) : Armed s where
  timeout := by
    rw [← List.count_pos_iff, h.armed]
    split
    · rename_i hzero
      simp [hzero]
    · rename_i hset
      simp [hset]
  once := h.honce
  pending := h.counted.pending
  submit := by
    intro hpos
    have hflag := hp (Nat.ne_of_gt hpos)
    rw [h.queued, hflag]
    exact ⟨rfl, rfl⟩
  covered := h.covered

theorem initial_timerSane : TimerSane .initial :=
  ⟨⟨rfl, rfl⟩, rfl, fun _ htime => absurd htime List.not_mem_nil, rfl⟩

theorem always_armed {s : Service} (h : Reachable step TimerOk .initial s) : Armed s := by
  have hs : TimerSane s ∧ Posted s :=
    h.invariant ⟨initial_timerSane, fun hne => absurd rfl hne⟩ fun hs hok hstep =>
      step_timerSane hs.1 hs.2 hok hstep
  exact hs.1.armed_of_posted hs.2

/-- The timeout has been set for a timer at 5. -/
def afterSchedule : Service where
  ring := ⟨[⟨.timeout 5, .timeout⟩], [], []⟩
  pendingSqes := 1
  outstandingWork := 0
  timeout := 5000
  pendingSubmitSqesOp := true
  submitOps := 1
  timers := [5]
  run := .idle

theorem always_armed_afterSchedule : Armed afterSchedule :=
  always_armed <|
    Reachable.start
      |>.step (a := .scheduleTimer 5 true 0 0)
        (fun _ => ⟨.inl (by decide), fun h => absurd h (by decide)⟩) rfl
      |>.step (a := .submitOp 1) trivial rfl
      |>.step (a := .complete 0) trivial rfl
      |>.step (a := .startRun 0 0 0 0) (fun h => absurd h (by decide)) rfl
      |>.step (a := .wait true) trivial rfl
      |>.step (a := .consume) trivial rfl
      |>.step (a := .endRun 0 0) (fun _ _ => .inl (by decide)) rfl

/-- What `interrupt` prepares is not submitted again when the kernel is busy. -/
theorem not_always_armed : ¬ ∀ s, Reachable step (fun _ _ => True) .initial s → Armed s := by
  intro h
  have hstart : Reachable step (fun _ _ => True) .initial .initial := .start
  have hr := hstart
    |>.step (a := .interrupt 0 (-16)) trivial rfl
  exact absurd ((h _ hr).submit (by decide)).2 (by decide)

end Asio.Detail.IoUringRing
