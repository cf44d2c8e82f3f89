import Mathlib.Data.List.Count
import Asio.Lib.Transition
import Asio.Detail.IoUringRing

/-! The local timeout of a run, and the work that is counted. -/

namespace Asio.Detail.IoUringRing

open Asio.Lib.Transition

namespace Service

/-- How many entries carry the address of `ts`. -/
def tsEntries (s : Service) : Nat := s.ring.data.count .ts

/-- The address of `ts` has not been put anywhere, or taken. -/
structure Quiet (s s' : Service) : Prop where
  tsEntries : s'.tsEntries = s.tsEntries
  counted : s.Counted → s'.Counted
  run : s'.run = s.run

variable {s s' s'' : Service}

theorem Quiet.refl (s : Service) : s.Quiet s := ⟨rfl, id, rfl⟩

theorem Quiet.trans (h : s.Quiet s') (h' : s'.Quiet s'') : s.Quiet s'' :=
  ⟨h'.tsEntries.trans h.tsEntries, h'.counted ∘ h.counted, h'.run.trans h.run⟩

theorem Submits.quiet (h : s.Submits s') : s.Quiet s' := ⟨h.data.count_eq _, h.counted, h.run⟩

theorem submitSqes_quiet (s : Service) (result : Int) : s.Quiet (s.submitSqes result) :=
  (submitSqes_submits s result).quiet

theorem push_quiet (s : Service) {sqe : Sqe} (h : sqe.data ≠ .ts) : s.Quiet (s.push sqe) where
  tsEntries := by
    rw [tsEntries, (push_data s sqe).count_eq, List.count_cons_of_ne h]
    rfl
  counted := fun hc => push_counted hc sqe
  run := rfl

theorem getSqe_quiet (s : Service) (result : Int) {sqe : Sqe} (h : sqe.data ≠ .ts) :
    s.Quiet (s.getSqe result sqe).2 := by
  obtain ⟨t, ht, heq | ⟨heq, -⟩⟩ := getSqe_cases s result sqe
  · rw [heq]
    exact ht.quiet.trans (push_quiet t h)
  · rw [heq]
    exact ht.quiet

theorem pushSubmitSqesOp_quiet (s : Service) : s.Quiet s.pushSubmitSqesOp where
  tsEntries := by rw [tsEntries, pushSubmitSqesOp_data]; rfl
  counted := pushSubmitSqesOp_counted
  run := by
    unfold pushSubmitSqesOp
    split <;> rfl

theorem postSubmitSqesOp_quiet (s : Service) (result : Int) :
    s.Quiet (s.postSubmitSqesOp result) := by
  unfold postSubmitSqesOp
  split
  · exact submitSqes_quiet s result
  · exact pushSubmitSqesOp_quiet s

theorem prepCancel_quiet (s : Service) (queues : List (Nat × Int)) :
    s.Quiet (s.prepCancel queues) := by
  induction queues generalizing s with
  | nil => exact .refl s
  | cons q queues ih => exact (getSqe_quiet s _ (by simp)).trans (ih _)

theorem setTimeout_quiet (s : Service) (now : Nat) (result : Int) :
    s.Quiet (s.setTimeout now result) := by
  unfold setTimeout
  dsimp only
  have htimeout : s.Quiet { s with timeout := s.getTimeout now } :=
    ⟨rfl, fun h => ⟨h.pending, h.work⟩, rfl⟩
  refine htimeout.trans ?_
  split
  · exact (getSqe_quiet _ _ (by simp)).trans (pushSubmitSqesOp_quiet _)
  · exact getSqe_quiet _ _ (by simp)

theorem rearm_quiet (s : Service) (now : Nat) (result : Int) : s.Quiet (s.rearm now result) := by
  have htimers : s.Quiet { s with timers := s.timers.filter (now < ·) } :=
    ⟨rfl, fun h => ⟨h.pending, h.work⟩, rfl⟩
  unfold rearm
  dsimp only
  split
  · exact htimers.trans (setTimeout_quiet _ _ _)
  · exact htimers

end Service

/-! ### One step -/

/-- How many entries may carry the address of `ts`. -/
def Run.tsBound : Run → Int
  | .idle | .checking _ => 0
  | .waiting _ localOps | .woken localOps | .draining localOps _ _ => localOps

structure TsSane (s : Service) : Prop where
  counted : s.Counted
  ts : s.tsEntries ≤ s.run.tsBound

/-- A wait does not fail when `ts` has been put in the ring, and the loop does not take the last
completion that there is while the kernel has still to complete `ts`. -/
def TsOk (s : Service) : Action → Prop
  | .wait false => ∀ usec localOps, s.run = .waiting usec localOps → localOps = 0
  | .consume =>
    s.ring.completed.length ≤ 1 → ∀ sqe ∈ s.ring.prepared ++ s.ring.inflight, sqe.data ≠ .ts
  | _ => True

namespace TsSane

variable {s s' : Service}

theorem quiet (h : TsSane s) (hq : s.Quiet s') : TsSane s' where
  counted := hq.counted h.counted
  ts := by rw [hq.tsEntries, hq.run]; exact h.ts

theorem complete {ring : Ring} {i : Nat} (h : TsSane s) (hc : s.ring.complete i = some ring) :
    TsSane { s with ring := ring } where
  counted := Service.complete_counted h.counted hc
  ts := by
    rw [Service.tsEntries, (Ring.complete_data hc).1.count_eq]
    exact h.ts

/-- Another point of `run`. -/
theorem goto {run : Run} (hc : s.Counted) (htaken : Service.taken { s with run := run } = s.taken)
    (hts : s.tsEntries ≤ run.tsBound) : TsSane { s with run := run } where
  counted :=
    { pending := hc.pending
      work := by rw [htaken]; exact hc.work }
  ts := hts

theorem startRun {now : Nat} {usec result result' : Int} (h : TsSane s)
    (hs : s.startRun now usec result result' = some s') : TsSane s' := by
  unfold Service.startRun at hs
  split at hs
  · rename_i hrun
    have hts : s.tsEntries ≤ (0 : Int) := by
      have := h.ts
      rwa [hrun] at this
    have htaken {t : Service} (ht : t.run = .idle) (usec localOps : Int) :
        Service.taken { t with run := .waiting usec localOps } = t.taken := by
      simp only [Service.taken, ht]
    split at hs
    · obtain ⟨t, ht, heq | ⟨heq, -⟩⟩ :=
        Service.getSqe_cases s result ⟨.timeout (now + usec.toNat), .ts⟩
      · rw [heq] at hs
        cases hs
        have hq := Service.submitSqes_quiet (t.push ⟨.timeout (now + usec.toNat), .ts⟩) result'
        have hpush : (t.push ⟨.timeout (now + usec.toNat), .ts⟩).tsEntries = s.tsEntries + 1 := by
          rw [Service.tsEntries, (Service.push_data _ _).count_eq, List.count_cons_self,
            ← ht.quiet.tsEntries]
          rfl
        refine goto (hq.counted (Service.push_counted (ht.counted h.counted) _)) ?_ ?_
        · exact htaken (hq.run.trans (ht.run.trans hrun)) usec 1
        · rw [hq.tsEntries, hpush]
          simp only [Run.tsBound]
          omega
      · rw [heq] at hs
        cases hs
        refine goto (ht.counted h.counted) (htaken (ht.run.trans hrun) usec 0) ?_
        rw [ht.quiet.tsEntries]
        exact hts
    · cases hs
      exact goto h.counted (htaken hrun usec 0) hts
  · cases hs

theorem wait {success : Bool} (h : TsSane s) (hok : TsOk s (.wait success))
    (hs : s.wait success = some s') : TsSane s' := by
  unfold Service.wait at hs
  split at hs
  · rename_i usec localOps hrun
    have hts := h.ts
    rw [hrun] at hts
    split at hs
    · obtain ⟨data, -, rfl⟩ := Option.map_eq_some_iff.mp hs
      split
      · exact goto h.counted (by simp only [Service.taken, hrun]) hts
      · exact goto h.counted (by simp only [Service.taken, hrun]) hts
    · rename_i hsuccess
      cases hs
      obtain rfl : success = false := by simpa using hsuccess
      refine goto h.counted (by simp only [Service.taken, hrun]) ?_
      rw [hok usec localOps hrun] at hts
      exact hts
  · cases hs

theorem removeTs {result result' : Int} (h : TsSane s)
    (hs : s.removeTs result result' = some s') : TsSane s' := by
  unfold Service.removeTs at hs
  split at hs
  · rename_i localOps hrun
    have hts := h.ts
    rw [hrun] at hts
    have hget := Service.getSqe_quiet s result
      (show (⟨.timeoutRemove .ts, .null⟩ : Sqe).data ≠ .ts by simp)
    dsimp only at hs
    split at hs
    · cases hs
      have hq := hget.trans (Service.submitSqes_quiet _ result')
      refine goto (hq.counted h.counted) (by simp only [Service.taken, hq.run, hrun]) ?_
      rw [hq.tsEntries]
      simp only [Run.tsBound] at hts ⊢
      omega
    · cases hs
      refine goto (hget.counted h.counted) (by simp only [Service.taken, hget.run, hrun]) ?_
      rw [hget.tsEntries]
      exact hts
  · cases hs

theorem consume (h : TsSane s) (hok : TsOk s .consume) (hs : s.consume = some s') : TsSane s' := by
  obtain ⟨localOps, count, checkTimers, data, completed, hrun, hcompleted, work, run, rfl, hcase⟩ :=
    Service.consume_cases hs
  have hts := h.ts
  have hwork := h.counted.work
  simp only [hrun, Run.tsBound, Service.tsEntries, Ring.data, hcompleted, List.count_append,
    List.count_cons, beq_iff_eq] at hts
  simp only [Service.taken, hrun, hcompleted, List.length_cons] at hwork
  obtain ⟨rfl, rfl⟩ | ⟨rfl, rfl, hlast⟩ := hcase
  · refine ⟨⟨h.counted.pending, ?_⟩, ?_⟩
    · simp only [Service.taken]
      omega
    · simp only [Run.tsBound, Service.tsEntries, Ring.data, List.count_append]
      split_ifs at hts ⊢ <;> omega
  · refine ⟨⟨h.counted.pending, ?_⟩, ?_⟩
    · simp only [Service.taken]
      omega
    · simp only [Run.tsBound, Service.tsEntries, Ring.data, List.count_append]
      obtain rfl | hlast := hlast
      · have hno := hok (by simp [hcompleted])
        have hzero : ((s.ring.prepared ++ s.ring.inflight).map (·.data)).count .ts = 0 := by
          rw [List.count_eq_zero]
          intro hmem
          obtain ⟨sqe, hsqe, hdata⟩ := List.mem_map.mp hmem
          exact hno sqe hsqe hdata
        rw [List.map_append, List.count_append] at hzero
        rw [List.count_nil]
        omega
      · split_ifs at hts hlast <;> omega

theorem endRun {now : Nat} {result : Int} (h : TsSane s) (hs : s.endRun now result = some s') :
    TsSane s' := by
  unfold Service.endRun at hs
  split at hs
  · rename_i checkTimers hrun
    have hidle : TsSane { s with run := .idle } := by
      refine goto h.counted (by simp only [Service.taken, hrun]) ?_
      have := h.ts
      rwa [hrun] at this
    cases hs
    split
    · exact hidle.quiet (Service.rearm_quiet _ now result)
    · exact hidle
  · cases hs

end TsSane

theorem step_tsSane {s s' : Service} {a : Action} (h : TsSane s) (hok : TsOk s a)
    (hs : step s a = some s') : TsSane s' := by
  cases a with
  | complete i =>
    obtain ⟨ring, hc, rfl⟩ := Option.map_eq_some_iff.mp hs
    exact h.complete hc
  | submitOp result =>
    simp only [step, Service.submitOp] at hs
    split at hs
    · cases hs
    · have hq := h.quiet (Service.submitSqes_quiet s result)
      split at hs
      · cases hs
        exact hq
      · cases hs
        exact ⟨⟨hq.counted.pending, hq.counted.work⟩, hq.ts⟩
  | scheduleTimer time earliest result result' =>
    simp only [step, Service.scheduleTimer] at hs
    split at hs
    · have htimers : TsSane { s with timers := s.timers ++ [time] } :=
        ⟨⟨h.counted.pending, h.counted.work⟩, h.ts⟩
      cases hs
      split
      · exact (htimers.quiet (Service.getSqe_quiet _ _ (by simp))).quiet
          (Service.postSubmitSqesOp_quiet _ _)
      · exact htimers
    · cases hs
  | cancelTimer i =>
    cases hs
    exact ⟨⟨h.counted.pending, h.counted.work⟩, h.ts⟩
  | startOp i result result' =>
    cases hs
    have hget := h.quiet (Service.getSqe_quiet s result
      (show (⟨.operation, .queue i⟩ : Sqe).data ≠ .ts by simp))
    simp only [Service.startOp]
    split
    · exact hget.quiet (Service.postSubmitSqesOp_quiet _ _)
    · exact hget
  | interrupt result result' =>
    cases hs
    exact (h.quiet (Service.getSqe_quiet s result (by simp))).quiet
      (Service.submitSqes_quiet _ _)
  | doCancelOps queues result =>
    cases hs
    exact (h.quiet (Service.prepCancel_quiet s queues)).quiet (Service.submitSqes_quiet _ _)
  | cancelOpsByKey i result result' =>
    cases hs
    have hget := h.quiet (Service.getSqe_quiet s result
      (show (⟨.cancel (.queue i), .null⟩ : Sqe).data ≠ .ts by simp))
    simp only [Service.cancelOpsByKey]
    split
    · exact hget.quiet (Service.submitSqes_quiet _ _)
    · exact hget
  | startRun now usec result result' => exact h.startRun hs
  | wait success => exact h.wait hok hs
  | removeTs result result' => exact h.removeTs hs
  | consume => exact h.consume hok hs
  | endRun now result => exact h.endRun hs

theorem initial_tsSane : TsSane .initial := ⟨⟨rfl, rfl⟩, Int.le_refl _⟩

/-! ### The removal -/

/-- Accepting an entry does not depend on those behind it. -/
theorem accept_eq (prepared inflight : List Sqe) (completed : List Data) (sqe : Sqe) :
    (⟨prepared, inflight, completed⟩ : Ring).accept sqe =
      ⟨prepared, ((⟨[], inflight, completed⟩ : Ring).accept sqe).inflight,
        ((⟨[], inflight, completed⟩ : Ring).accept sqe).completed⟩ := by
  unfold Ring.accept
  split <;> rfl

theorem submit_nil (n : Nat) (inflight : List Sqe) (completed : List Data) :
    Ring.submit n ⟨[], inflight, completed⟩ = ⟨[], inflight, completed⟩ := by
  cases n <;> rfl

/-- The last entry is accepted after those before it. -/
theorem submit_last (prepared : List Sqe) (sqe : Sqe) (inflight : List Sqe) (completed : List Data)
    {n : Nat} (hn : prepared.length < n) :
    Ring.submit n ⟨prepared ++ [sqe], inflight, completed⟩ =
      (Ring.submit prepared.length ⟨prepared, inflight, completed⟩).accept sqe := by
  induction prepared generalizing inflight completed n with
  | nil =>
    obtain ⟨n, rfl⟩ := Nat.exists_eq_succ_of_ne_zero (Nat.ne_of_gt hn)
    simp only [List.nil_append, List.length_nil, Ring.submit]
    rw [accept_eq, submit_nil]
  | cons first prepared ih =>
    obtain ⟨n, rfl⟩ := Nat.exists_eq_succ_of_ne_zero (Nat.ne_of_gt (Nat.zero_lt_of_lt hn))
    simp only [List.cons_append, List.length_cons, Ring.submit]
    rw [accept_eq (prepared ++ [sqe]), accept_eq prepared]
    exact ih _ _ (Nat.lt_of_succ_lt_succ hn)

/-- When the removal has been submitted, the kernel has completed `ts`. -/
theorem removeTs_completes {s s' : Service} {result result' : Int}
    (hs : s.removeTs result result' = some s') (hnil : s'.ring.prepared = []) :
    ∀ sqe ∈ s'.ring.inflight, sqe.data ≠ .ts := by
  unfold Service.removeTs at hs
  split at hs
  · obtain ⟨t, -, heq | ⟨heq, hfull⟩⟩ := Service.getSqe_cases s result ⟨.timeoutRemove .ts, .null⟩
    · rw [heq] at hs
      cases hs
      simp only [Service.submitSqes] at hnil ⊢
      split at hnil
      · rename_i hsubmit
        rw [if_pos hsubmit]
        dsimp only at hnil ⊢
        rw [Ring.submit_prepared, List.drop_eq_nil_iff] at hnil
        have hlt : t.ring.prepared.length <
            min result'.toNat (t.push ⟨.timeoutRemove .ts, .null⟩).ring.prepared.length := by
          refine Nat.lt_of_lt_of_le ?_ hnil
          simp [Service.push]
        intro sqe hsqe
        change sqe ∈ (Ring.submit _ ⟨t.ring.prepared ++ [⟨.timeoutRemove .ts, .null⟩],
          t.ring.inflight, t.ring.completed⟩).inflight at hsqe
        rw [submit_last _ _ _ _ hlt] at hsqe
        obtain hsqe | hsqe := List.mem_append.mp hsqe
        · simpa using (List.mem_filter.mp hsqe).2
        · rw [List.mem_singleton.mp hsqe]
          simp
      · simp [Service.push] at hnil
    · rw [heq] at hs
      cases hs
      simp only at hnil
      rw [hnil] at hfull
      exact absurd hfull (by decide)
  · cases hs

/-- Between two runs no entry carries the address of `ts`, and all entries in the kernel and all
completions are counted once. The kernel has completed `ts` when its removal is submitted. -/
theorem run_leaves_nothing {s : Service} (h : Reachable step TsOk .initial s) :
    (s.run = .idle →
      ((∀ sqe ∈ s.ring.prepared ++ s.ring.inflight, sqe.data ≠ .ts) ∧
          .ts ∉ s.ring.completed) ∧
        s.outstandingWork = s.ring.inflight.length + s.ring.completed.length) ∧
      ∀ result result' s', s.removeTs result result' = some s' → s'.ring.prepared = [] →
        ∀ sqe ∈ s'.ring.prepared ++ s'.ring.inflight, sqe.data ≠ .ts := by
  have hs : TsSane s := h.invariant initial_tsSane fun hs hok hstep => step_tsSane hs hok hstep
  refine ⟨fun hrun => ?_, fun result result' s' hremove hnil => ?_⟩
  · have hts := hs.ts
    have hwork := hs.counted.work
    rw [hrun] at hts
    simp only [Service.taken, hrun] at hwork
    have hzero : s.ring.data.count .ts = 0 := by
      simp only [Service.tsEntries, Run.tsBound] at hts
      omega
    have hno : Data.ts ∉ s.ring.data := List.count_eq_zero.mp hzero
    simp only [Ring.data, List.mem_append, List.mem_map, not_or, not_exists, not_and] at hno
    obtain ⟨hprepared, hinflight, hcompleted⟩ := hno
    refine ⟨⟨fun sqe hsqe => ?_, hcompleted⟩, by simpa using hwork⟩
    obtain hsqe | hsqe := List.mem_append.mp hsqe
    · exact hprepared sqe hsqe
    · exact hinflight sqe hsqe
  · rw [hnil, List.nil_append]
    exact removeTs_completes hremove hnil

/-- The service has been interrupted before a timeout was due, which has been removed. -/
def afterInterrupt : Service where
  ring := ⟨[], [⟨.timeoutRemove .ts, .null⟩], []⟩
  pendingSqes := 0
  outstandingWork := 1
  timeout := 0
  pendingSubmitSqesOp := false
  submitOps := 0
  timers := []
  run := .idle

theorem run_leaves_nothing_afterInterrupt :
    (afterInterrupt.run = .idle →
      ((∀ sqe ∈ afterInterrupt.ring.prepared ++ afterInterrupt.ring.inflight, sqe.data ≠ .ts) ∧
          .ts ∉ afterInterrupt.ring.completed) ∧
        afterInterrupt.outstandingWork =
          afterInterrupt.ring.inflight.length + afterInterrupt.ring.completed.length) ∧
      ∀ result result' s', afterInterrupt.removeTs result result' = some s' →
        s'.ring.prepared = [] → ∀ sqe ∈ s'.ring.prepared ++ s'.ring.inflight, sqe.data ≠ .ts :=
  run_leaves_nothing <|
    Reachable.start
      |>.step (a := .startRun 0 1 0 1) trivial rfl
      |>.step (a := .interrupt 0 1) trivial rfl
      |>.step (a := .complete 1) trivial rfl
      |>.step (a := .wait true) trivial rfl
      |>.step (a := .removeTs 0 1) trivial rfl
      |>.step (a := .consume) (fun h => absurd h (by decide)) rfl
      |>.step (a := .consume) (fun _ => by decide) rfl
      |>.step (a := .endRun 0 0) trivial rfl

/-- A wait that is interrupted by a signal leaves its timeout in the ring. -/
theorem ts_left_behind :
    ¬ ∀ s, Reachable step (fun _ _ => True) .initial s → s.run = .idle →
      (∀ sqe ∈ s.ring.prepared ++ s.ring.inflight, sqe.data ≠ .ts) ∧ .ts ∉ s.ring.completed := by
  intro h
  have hstart : Reachable step (fun _ _ => True) .initial .initial := .start
  have hr := hstart
    |>.step (a := .startRun 0 1 0 1) trivial rfl
    |>.step (a := .wait false) trivial rfl
    |>.step (a := .endRun 0 0) trivial rfl
  exact absurd (h _ hr rfl).1 (by decide)

end Asio.Detail.IoUringRing
