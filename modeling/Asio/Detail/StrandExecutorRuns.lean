import Mathlib.Data.Fintype.Basic
import Asio.Lib.Baton
import Asio.Detail.StrandExecutorService

/-! One thread at a time has the lock of a strand, and the functions that it is given are called in
turn. -/

universe u v

namespace Asio.Detail.StrandExecutorService

open Lib Lib.Interleaving Lib.Transition

variable {ι : Type v} {α : Type u} {impl impl' : StrandImpl α} {calls calls' : List (Call α)}
  {a : Action α} {i j : ι}

/-! ### Where the lock is -/

/-- The calls of the thread that has the lock, and what it has left of the ready queue. -/
inductive Phase (impl : StrandImpl α) : List (Call α) → Prop
  | enqueue {op how} (hacquired : impl.acquired = [op]) (hready : impl.readyQueue = []) :
      Phase impl [.enqueue op how]
  | schedule {how} (hacquired : impl.acquired = []) (hready : impl.readyQueue ≠ []) :
      Phase impl [.schedule how]
  | runReadyHandlers (hacquired : impl.acquired = []) : Phase impl [.runReadyHandlers]
  | pop {op ops} (hacquired : impl.acquired = []) (hready : impl.readyQueue = op :: ops) :
      Phase impl [.pop op]
  | complete {op} (ops : List α) (hacquired : impl.acquired = []) :
      Phase impl (ops.map Call.invoke ++ [.complete op, .runReadyHandlers])
  | onInvokerExit (hacquired : impl.acquired = []) : Phase impl [.onInvokerExit]
  | reschedule (hacquired : impl.acquired = []) (hready : impl.readyQueue ≠ []) :
      Phase impl [.reschedule]

theorem Phase.congr (h : Phase impl calls) (hacquired : impl'.acquired = impl.acquired)
    (hready : impl'.readyQueue = impl.readyQueue) : Phase impl' calls := by
  cases h with
  | enqueue h h' => exact .enqueue (hacquired.trans h) (hready.trans h')
  | schedule h h' => exact .schedule (hacquired.trans h) (hready ▸ h')
  | runReadyHandlers h => exact .runReadyHandlers (hacquired.trans h)
  | pop h h' => exact .pop (hacquired.trans h) (hready.trans h')
  | complete ops h => exact .complete ops (hacquired.trans h)
  | onInvokerExit h => exact .onInvokerExit (hacquired.trans h)
  | reschedule h h' => exact .reschedule (hacquired.trans h) (hready ▸ h')

theorem Phase.ne_nil (h : Phase impl calls) : calls ≠ [] := by
  cases h with
  | complete ops =>
    intro hnil
    cases (List.append_eq_nil_iff.mp hnil).2
  | _ => exact List.cons_ne_nil _ _

/-- The steps of the library and of the functions that it has called. -/
def Action.isInternal : Action α → Bool
  | .submit .. | .shutdown => false
  | _ => true

/-- What the thread that has the lock does. -/
inductive Goes (impl : StrandImpl α) : List (Call α) → StrandImpl α → List (Call α) → Prop
  | push {op how} (hacquired : impl.acquired = [op]) (hready : impl.readyQueue = []) :
      Goes impl [.enqueue op how] { impl with readyQueue := [op], acquired := [] } [.schedule how]
  | schedule {how} (hacquired : impl.acquired = []) (hready : impl.readyQueue ≠ []) :
      Goes impl [.schedule how] { impl with scheduled := impl.scheduled + 1 } []
  | atOnce {how} (hacquired : impl.acquired = []) (hready : impl.readyQueue ≠ []) :
      Goes impl [.schedule how] impl [.runReadyHandlers]
  | empty (hacquired : impl.acquired = []) (hready : impl.readyQueue = []) :
      Goes impl [.runReadyHandlers] impl [.onInvokerExit]
  | front {op ops} (hacquired : impl.acquired = []) (hready : impl.readyQueue = op :: ops) :
      Goes impl [.runReadyHandlers] impl [.pop op]
  | pop {op ops} (hacquired : impl.acquired = []) (hready : impl.readyQueue = op :: ops) :
      Goes impl [.pop op] { impl with readyQueue := ops, completed := impl.completed ++ [op] }
        [.complete op, .runReadyHandlers]
  | invoked {op op'} (ops : List α) (hacquired : impl.acquired = []) :
      Goes impl (.invoke op' :: (ops.map Call.invoke ++ [.complete op, .runReadyHandlers])) impl
        (ops.map Call.invoke ++ [.complete op, .runReadyHandlers])
  | completed {op} (hacquired : impl.acquired = []) :
      Goes impl [.complete op, .runReadyHandlers] impl [.runReadyHandlers]
  | thrown {op} (hacquired : impl.acquired = []) :
      Goes impl [.complete op, .runReadyHandlers] impl [.onInvokerExit]
  | more (hacquired : impl.acquired = []) (hready : impl.readyQueue ++ impl.waitingQueue ≠ []) :
      Goes impl [.onInvokerExit]
        { impl with
          readyQueue := impl.readyQueue ++ impl.waitingQueue
          waitingQueue := []
          locked := true }
        [.reschedule]
  | done (hacquired : impl.acquired = []) (hready : impl.readyQueue = [])
      (hwaiting : impl.waitingQueue = []) :
      Goes impl [.onInvokerExit]
        { impl with readyQueue := [], waitingQueue := [], locked := false } []
  | reschedule (hacquired : impl.acquired = []) (hready : impl.readyQueue ≠ []) :
      Goes impl [.reschedule] { impl with scheduled := impl.scheduled + 1 } []

theorem Phase.goes (h : Phase impl calls) (hscheduled : impl.scheduled = 0)
    (ha : a.isInternal = true) (hp : perform impl calls a = some (impl', calls')) :
    Goes impl calls impl' calls' := by
  cases h with
  | enqueue hacquired hready =>
    cases a with
    | push =>
      simp only [perform, hready, List.nil_append] at hp
      cases hp
      exact .push hacquired hready
    | submit | shutdown => cases ha
    | _ => simp [perform, inUserCode] at hp
  | schedule hacquired hready =>
    cases a with
    | schedule atOnce =>
      simp only [perform] at hp
      split_ifs at hp
      · cases hp
        exact .atOnce hacquired hready
      · cases hp
        exact .schedule hacquired hready
    | submit | shutdown => cases ha
    | _ => simp [perform, inUserCode] at hp
  | runReadyHandlers hacquired =>
    cases a with
    | front =>
      simp only [perform] at hp
      cases hready : impl.readyQueue with
      | nil =>
        rw [hready] at hp
        cases hp
        exact .empty hacquired hready
      | cons op ops =>
        rw [hready] at hp
        cases hp
        exact .front hacquired hready
    | submit | shutdown => cases ha
    | _ => simp [perform, inUserCode] at hp
  | pop hacquired hready =>
    cases a with
    | pop =>
      simp only [perform, hready, List.tail_cons] at hp
      cases hp
      exact .pop hacquired hready
    | submit | shutdown => cases ha
    | _ => simp [perform, inUserCode] at hp
  | @complete op ops hacquired =>
    cases ops with
    | nil =>
      cases a with
      | «return» =>
        cases hp
        exact .completed hacquired
      | throw =>
        cases hp
        exact .thrown hacquired
      | submit | shutdown => cases ha
      | _ => simp [perform, inUserCode, hscheduled] at hp
    | cons op' ops =>
      cases a with
      | «return» =>
        cases hp
        exact .invoked ops hacquired
      | throw =>
        cases hp
        exact .invoked ops hacquired
      | submit | shutdown => cases ha
      | _ => simp [perform, inUserCode, hscheduled] at hp
  | onInvokerExit hacquired =>
    cases a with
    | pushWaitingToReady =>
      simp only [perform, StrandExecutorService.pushWaitingToReady] at hp
      by_cases hnil : impl.readyQueue ++ impl.waitingQueue = []
      · obtain ⟨hready, hwaiting⟩ := List.append_eq_nil_iff.mp hnil
        simp only [hready, hwaiting, List.append_nil, List.isEmpty_nil] at hp
        cases hp
        exact .done hacquired hready hwaiting
      · have hempty : (impl.readyQueue ++ impl.waitingQueue).isEmpty = false :=
          List.isEmpty_eq_false_iff.mpr hnil
        simp only [hempty] at hp
        cases hp
        exact .more hacquired hnil
    | submit | shutdown => cases ha
    | _ => simp [perform, inUserCode] at hp
  | reschedule hacquired hready =>
    cases a with
    | reschedule =>
      cases hp
      exact .reschedule hacquired hready
    | submit | shutdown => cases ha
    | _ => simp [perform, inUserCode] at hp

/-- The lock is kept by the thread, given back to the executor with something to run, or free. -/
inductive Passes (impl impl' : StrandImpl α) (calls' : List (Call α)) : Prop
  | kept (hphase : Phase impl' calls') (hlocked : impl'.locked = true)
      (hscheduled : impl'.scheduled = impl.scheduled)
  | scheduled (hcalls : calls' = []) (hlocked : impl'.locked = true)
      (hscheduled : impl'.scheduled = impl.scheduled + 1) (hacquired : impl'.acquired = [])
      (hready : impl'.readyQueue ≠ [])
  | released (hcalls : calls' = []) (hlocked : impl'.locked = false)
      (hscheduled : impl'.scheduled = impl.scheduled) (hacquired : impl'.acquired = [])
      (hready : impl'.readyQueue = []) (hwaiting : impl'.waitingQueue = [])

theorem Goes.passes (h : Goes impl calls impl' calls') (hlocked : impl.locked = true) :
    Passes impl impl' calls' := by
  cases h with
  | push hacquired hready => exact .kept (.schedule rfl (List.cons_ne_nil _ _)) hlocked rfl
  | schedule hacquired hready => exact .scheduled rfl hlocked rfl hacquired hready
  | atOnce hacquired hready => exact .kept (.runReadyHandlers hacquired) hlocked rfl
  | empty hacquired hready => exact .kept (.onInvokerExit hacquired) hlocked rfl
  | front hacquired hready => exact .kept (.pop hacquired hready) hlocked rfl
  | pop hacquired hready => exact .kept (.complete [] hacquired) hlocked rfl
  | invoked ops hacquired => exact .kept (.complete ops hacquired) hlocked rfl
  | completed hacquired => exact .kept (.runReadyHandlers hacquired) hlocked rfl
  | thrown hacquired => exact .kept (.onInvokerExit hacquired) hlocked rfl
  | more hacquired hready => exact .kept (.reschedule hacquired hready) rfl rfl
  | done hacquired hready hwaiting => exact .released rfl rfl rfl hacquired rfl rfl
  | reschedule hacquired hready => exact .scheduled rfl hlocked rfl hacquired hready

/-- What becomes of a function that is given to the strand. -/
inductive Submits (impl : StrandImpl α) (calls : List (Call α)) (how : Submission) (op : α) :
    StrandImpl α → List (Call α) → Prop
  | invoked (hrunning : runningInThisThread calls = true) :
      Submits impl calls how op
        { impl with submitted := impl.submitted ++ [op], invoked := impl.invoked ++ [op] }
        (.invoke op :: calls)
  | refused (hshutdown : impl.shutdown = true) :
      Submits impl calls how op
        { impl with submitted := impl.submitted ++ [op], refused := impl.refused ++ [op] } calls
  | waiting (hshutdown : impl.shutdown = false) (hlocked : impl.locked = true) :
      Submits impl calls how op
        { impl with
          submitted := impl.submitted ++ [op]
          waitingQueue := impl.waitingQueue ++ [op]
          enqueued := impl.enqueued ++ [op] } calls
  | first (hshutdown : impl.shutdown = false) (hlocked : impl.locked = false) :
      Submits impl calls how op
        { impl with
          submitted := impl.submitted ++ [op]
          locked := true
          acquired := [op]
          enqueued := impl.enqueued ++ [op] } (.enqueue op how :: calls)

theorem submit_submits (impl : StrandImpl α) (calls : List (Call α)) (how : Submission) (op : α) :
    Submits impl calls how op (submit impl calls how op).1 (submit impl calls how op).2 := by
  by_cases hrunning : (how.immediate && runningInThisThread calls) = true
  · rw [submit, if_pos hrunning]
    exact .invoked (Bool.and_eq_true_iff.mp hrunning).2
  rw [submit, if_neg hrunning, enqueue]
  dsimp only
  split
  · rename_i hshutdown
    exact .refused hshutdown
  rename_i hshutdown
  split
  · rename_i hlocked
    exact .waiting (Bool.not_eq_true _ ▸ hshutdown) hlocked
  · rename_i hlocked
    exact .first (Bool.not_eq_true _ ▸ hshutdown) (Bool.not_eq_true _ ▸ hlocked)

theorem Phase.of_userCode (h : Phase impl calls) (hcode : inUserCode calls = true) :
    impl.acquired = [] ∧
      ∃ (op : α) (ops : List α), calls = ops.map Call.invoke ++ [.complete op, .runReadyHandlers] := by
  cases h with
  | @complete op ops hacquired => exact ⟨hacquired, op, ops, rfl⟩
  | _ => cases hcode

/-- At most one thread is in the code of the strand, and it has the lock. -/
structure Good (s : State ι α) : Prop where
  baton : Baton s.part s.shared.locked s.shared.scheduled
  phase : ∀ i, s.part i ≠ [] → Phase s.shared (s.part i)
  idle : (∀ i, s.part i = []) → s.shared.acquired = []
  unlocked : s.shared.locked = false → s.shared.readyQueue = [] ∧ s.shared.waitingQueue = []
  pooled : 0 < s.shared.scheduled → s.shared.shutdown = false → s.shared.readyQueue ≠ []

section Steps

variable {s s' : State ι α}

theorem Good.initial : Good (initial : State ι α) where
  baton := .free fun _ => rfl
  phase _ h := absurd rfl h
  idle _ := rfl
  unlocked _ := ⟨rfl, rfl⟩
  pooled h := absurd h (Nat.lt_irrefl 0)

theorem Good.phase_userCode (h : Good s) (hi : s.part i ≠ [])
    (hcode : inUserCode (s.part i) = true) : s.shared.acquired = [] ∧
      ∃ (op : α) (ops : List α),
        s.part i = ops.map Call.invoke ++ [.complete op, .runReadyHandlers] :=
  (h.phase i hi).of_userCode hcode

/-- The calls stay what they are, and so does what they depend on. -/
theorem Good.shared (h : Good s) (hlocked : impl'.locked = s.shared.locked)
    (hscheduled : impl'.scheduled = s.shared.scheduled)
    (hacquired : impl'.acquired = s.shared.acquired)
    (hready : impl'.readyQueue = s.shared.readyQueue)
    (hshutdown : impl'.shutdown = s.shared.shutdown)
    (hwaiting : s.shared.locked = false → impl'.waitingQueue = s.shared.waitingQueue) :
    Good (⟨impl', s.part⟩ : State ι α) where
  baton := by
    rw [hlocked, hscheduled]
    exact h.baton
  phase j hj := (h.phase j hj).congr hacquired hready
  idle hidle := hacquired.trans (h.idle hidle)
  unlocked hfree := by
    have hfree := hlocked.symm.trans hfree
    obtain ⟨hr, hw⟩ := h.unlocked hfree
    exact ⟨hready.trans hr, (hwaiting hfree).trans hw⟩
  pooled hpos hopen := by
    rw [hready]
    exact h.pooled (hscheduled ▸ hpos) (hshutdown ▸ hopen)

variable [DecidableEq ι]

/-- The phase of whichever thread has calls, when one has got them and the others have none. -/
theorem phase_set {r : StrandImpl α × List (Call α)} (others : ∀ j, j ≠ i → s.part j = [])
    (hphase : r.2 ≠ [] → Phase r.1 r.2) (j : ι) (hj : (s.set i r).part j ≠ []) :
    Phase (s.set i r).shared ((s.set i r).part j) := by
  by_cases hji : j = i
  · subst hji
    rw [part_set_self] at hj ⊢
    exact hphase hj
  · rw [part_set_of_ne hji, others j hji] at hj
    exact absurd rfl hj

theorem Good.passes (h : Good s) (hi : s.part i ≠ []) (hp : Passes s.shared impl' calls') :
    Good (s.set i (impl', calls')) := by
  obtain ⟨hlocked, hscheduled, others⟩ := h.baton.of_busy hi
  cases hp with
  | kept hphase hlocked' hscheduled' =>
    have hne := hphase.ne_nil
    refine ⟨?_, phase_set others fun _ => hphase, ?_, ?_, ?_⟩
    · have := h.baton.keep hi hne
      rw [hlocked, ← hlocked', ← hscheduled'] at this
      exact this
    · intro hidle
      have := hidle i
      rw [part_set_self] at this
      exact absurd this hne
    · intro hfree
      cases hlocked'.symm.trans hfree
    · intro hpos
      have hzero : impl'.scheduled = 0 := hscheduled'.trans hscheduled
      rw [shared_set, hzero] at hpos
      cases hpos
  | scheduled hcalls hlocked' hscheduled' hacquired hready =>
    subst hcalls
    refine ⟨?_, phase_set others (absurd rfl), fun _ => hacquired, ?_, fun _ _ => hready⟩
    · have := h.baton.put hi
      rw [hlocked, ← hlocked', ← hscheduled'] at this
      exact this
    · intro hfree
      cases hlocked'.symm.trans hfree
  | released hcalls hlocked' hscheduled' hacquired hready hwaiting =>
    subst hcalls
    refine ⟨?_, phase_set others (absurd rfl), fun _ => hacquired, fun _ => ⟨hready, hwaiting⟩, ?_⟩
    · have := h.baton.release hi
      rw [← hlocked', ← hscheduled'] at this
      exact this
    · intro hpos
      have hzero : impl'.scheduled = 0 := hscheduled'.trans hscheduled
      rw [shared_set, hzero] at hpos
      cases hpos

theorem Good.submits (h : Good s) {how : Submission} {op : α}
    (hcode : inUserCode (s.part i) = true)
    (hp : Submits s.shared (s.part i) how op impl' calls') :
    Good (s.set i (impl', calls')) := by
  cases hp with
  | invoked hrunning =>
    have hi : s.part i ≠ [] := by
      intro hnil
      rw [hnil] at hrunning
      cases hrunning
    obtain ⟨hlocked, hscheduled, others⟩ := h.baton.of_busy hi
    obtain ⟨hacquired, op', ops, hcalls⟩ := h.phase_userCode hi hcode
    refine h.passes hi (.kept ?_ hlocked rfl)
    rw [hcalls]
    exact .complete (op :: ops) hacquired
  | refused hshutdown =>
    rw [set_part]
    exact h.shared rfl rfl rfl rfl rfl fun _ => rfl
  | waiting hshutdown hlocked =>
    rw [set_part]
    refine h.shared rfl rfl rfl rfl rfl fun hfree => ?_
    cases hlocked.symm.trans hfree
  | first hshutdown hlocked =>
    have hbaton := h.baton
    rw [hlocked] at hbaton
    obtain ⟨hscheduled, hidle⟩ := hbaton.idle_of_not_taken
    obtain ⟨hready, _⟩ := h.unlocked hlocked
    rw [hidle i]
    refine ⟨hbaton.take (List.cons_ne_nil _ _), phase_set (fun j _ => hidle j) fun _ => ?_, ?_,
      nofun, ?_⟩
    · exact .enqueue rfl hready
    · intro hidle'
      have := hidle' i
      rw [part_set_self] at this
      cases this
    · intro hpos
      rw [shared_set, hscheduled] at hpos
      cases hpos

theorem Good.invoke (h : Good s) (hpos : 0 < s.shared.scheduled) :
    Good (s.set i ({ s.shared with scheduled := s.shared.scheduled - 1 },
      .runReadyHandlers :: s.part i)) := by
  obtain ⟨n, hn⟩ := Nat.exists_eq_succ_of_ne_zero (Nat.ne_of_gt hpos)
  have hbaton := h.baton
  rw [hn] at hbaton
  obtain ⟨hlocked, hzero, hidle⟩ := hbaton.idle_of_pooled
  have hacquired := h.idle hidle
  rw [hidle i, hn]
  refine ⟨hbaton.pick (List.cons_ne_nil _ _), phase_set (fun j _ => hidle j) fun _ => ?_, ?_, ?_,
    ?_⟩
  · exact .runReadyHandlers hacquired
  · intro hidle'
    have := hidle' i
    rw [part_set_self] at this
    cases this
  · intro hfree
    cases hlocked.symm.trans hfree
  · intro hpos'
    simp only [shared_set, Nat.succ_sub_one, hzero] at hpos'
    cases hpos'

theorem Good.shutdown (h : Good s) (hidle : ∀ i, s.part i = []) :
    Good (s.set i (StrandExecutorService.shutdown s.shared, [])) := by
  have hset : s.set i (StrandExecutorService.shutdown s.shared, []) =
      ⟨StrandExecutorService.shutdown s.shared, s.part⟩ := by
    rw [← set_part, hidle i]
  rw [hset]
  exact ⟨h.baton, fun j hj => absurd (hidle j) hj, h.idle, fun _ => ⟨rfl, rfl⟩, nofun⟩

/-- A thread that has no calls yet gives the strand a function or runs an invoker. -/
theorem perform_nil (ha : a.isInternal = true) (hp : perform impl [] a = some (impl', calls')) :
    0 < impl.scheduled ∧ impl' = { impl with scheduled := impl.scheduled - 1 } ∧
      calls' = [.runReadyHandlers] := by
  cases a with
  | invoke =>
    simp only [perform, inUserCode, Bool.true_and, decide_eq_true_eq] at hp
    split_ifs at hp with hpos
    cases hp
    exact ⟨hpos, rfl, rfl⟩
  | submit | shutdown => cases ha
  | _ => cases hp

theorem Good.step (h : Good s) {a : ι × Action α} (hok : Ok s a) (hs : step s a = some s') :
    Good s' := by
  obtain ⟨i, a⟩ := a
  obtain ⟨impl', calls', hp, rfl⟩ := step_eq_some.mp hs
  cases ha : a.isInternal with
  | true =>
    by_cases hi : s.part i = []
    · simp only [hi] at hp
      obtain ⟨hpos, rfl, rfl⟩ := perform_nil ha hp
      have := h.invoke (i := i) hpos
      rwa [hi] at this
    · obtain ⟨hlocked, hscheduled, _⟩ := h.baton.of_busy hi
      exact h.passes hi (((h.phase i hi).goes hscheduled ha hp).passes hlocked)
  | false =>
    cases a with
    | submit how op =>
      simp only [perform] at hp
      split_ifs at hp with hcode
      have hsubmits := submit_submits s.shared (s.part i) how op
      rw [Option.some_inj.mp hp] at hsubmits
      exact h.submits hcode hsubmits
    | shutdown =>
      have hidle : ∀ j, s.part j = [] := hok
      simp only [perform, hidle i, if_true] at hp
      cases hp
      exact h.shutdown hidle
    | _ => cases ha

theorem Good.reachable
    (h : Reachable StrandExecutorService.step Ok (StrandExecutorService.initial : State ι α) s) :
    Good s :=
  h.invariant .initial fun h hok hs => h.step hok hs

end Steps

end Asio.Detail.StrandExecutorService
