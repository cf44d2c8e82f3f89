import Mathlib.Data.Fintype.Basic
import Asio.Lib.Baton
import Asio.Detail.StrandService

/-! One thread at a time has the lock of a strand, or the strand is once in the scheduler's queue. -/

universe u v

namespace Asio.Detail.StrandService

open Lib Lib.Interleaving Lib.Transition

variable {ι : Type v} {α : Type u} {impl impl' : StrandImpl α} {calls calls' : List (Call α)}
  {a : Action α} {i j : ι}

/-! ### Where the lock is -/

/-- The calls of the thread that has the lock, and what it has left of the ready queue. -/
inductive Phase (impl : StrandImpl α) : List (Call α) → Prop
  | doDispatch {op} (hacquired : impl.acquired = [op]) : Phase impl [.doDispatch op]
  | push {op} (hacquired : impl.acquired = [op]) (hready : impl.readyQueue = []) :
      Phase impl [.push op]
  | postImmediateCompletion (hacquired : impl.acquired = []) (hready : impl.readyQueue ≠ []) :
      Phase impl [.postImmediateCompletion]
  | doComplete (hacquired : impl.acquired = []) : Phase impl [.doComplete]
  | pop {op ops} (hacquired : impl.acquired = []) (hready : impl.readyQueue = op :: ops) :
      Phase impl [.pop op]
  | dispatched {op} (ops : List α) (hacquired : impl.acquired = []) :
      Phase impl (ops.map Call.invoke ++ [.complete op, .dispatching])
  | complete {op} (ops : List α) (hacquired : impl.acquired = []) :
      Phase impl (ops.map Call.invoke ++ [.complete op, .doComplete])
  | onExit (hacquired : impl.acquired = []) : Phase impl [.onExit]
  | repost (hacquired : impl.acquired = []) (hready : impl.readyQueue ≠ []) :
      Phase impl [.repost]

theorem Phase.congr (h : Phase impl calls) (hacquired : impl'.acquired = impl.acquired)
    (hready : impl'.readyQueue = impl.readyQueue) : Phase impl' calls := by
  cases h with
  | doDispatch h => exact .doDispatch (hacquired.trans h)
  | push h h' => exact .push (hacquired.trans h) (hready.trans h')
  | postImmediateCompletion h h' =>
    exact .postImmediateCompletion (hacquired.trans h) (hready ▸ h')
  | doComplete h => exact .doComplete (hacquired.trans h)
  | pop h h' => exact .pop (hacquired.trans h) (hready.trans h')
  | dispatched ops h => exact .dispatched ops (hacquired.trans h)
  | complete ops h => exact .complete ops (hacquired.trans h)
  | onExit h => exact .onExit (hacquired.trans h)
  | repost h h' => exact .repost (hacquired.trans h) (hready ▸ h')

theorem Phase.ne_nil (h : Phase impl calls) : calls ≠ [] := by
  cases h with
  | dispatched ops | complete ops =>
    intro hnil
    cases (List.append_eq_nil_iff.mp hnil).2
  | _ => exact List.cons_ne_nil _ _

/-- The steps of the library and of the handlers that it has called. -/
def Action.isInternal : Action α → Bool
  | .dispatch .. | .post _ => false
  | _ => true

/-- What the thread that has the lock does. -/
inductive Goes (impl : StrandImpl α) : List (Call α) → StrandImpl α → List (Call α) → Prop
  | doDispatch {op} (hacquired : impl.acquired = [op]) :
      Goes impl [.doDispatch op]
        { impl with acquired := [], completed := impl.completed ++ [op] }
        [.complete op, .dispatching]
  | push {op} (hacquired : impl.acquired = [op]) (hready : impl.readyQueue = []) :
      Goes impl [.push op] { impl with readyQueue := [op], acquired := [] }
        [.postImmediateCompletion]
  | postImmediateCompletion (hacquired : impl.acquired = []) (hready : impl.readyQueue ≠ []) :
      Goes impl [.postImmediateCompletion] { impl with queued := impl.queued + 1 } []
  | empty (hacquired : impl.acquired = []) (hready : impl.readyQueue = []) :
      Goes impl [.doComplete] impl [.onExit]
  | front {op ops} (hacquired : impl.acquired = []) (hready : impl.readyQueue = op :: ops) :
      Goes impl [.doComplete] impl [.pop op]
  | pop {op ops} (hacquired : impl.acquired = []) (hready : impl.readyQueue = op :: ops) :
      Goes impl [.pop op] { impl with readyQueue := ops, completed := impl.completed ++ [op] }
        [.complete op, .doComplete]
  | invoked {op} {rest : List (Call α)} (hrest : Phase impl rest) :
      Goes impl (.invoke op :: rest) impl rest
  | dispatched {op} (hacquired : impl.acquired = []) :
      Goes impl [.complete op, .dispatching] impl [.onExit]
  | completed {op} (hacquired : impl.acquired = []) :
      Goes impl [.complete op, .doComplete] impl [.doComplete]
  | thrown {op} (hacquired : impl.acquired = []) :
      Goes impl [.complete op, .doComplete] impl [.onExit]
  | more (hacquired : impl.acquired = []) (hready : impl.readyQueue ++ impl.waitingQueue ≠ []) :
      Goes impl [.onExit]
        { impl with
          readyQueue := impl.readyQueue ++ impl.waitingQueue
          waitingQueue := []
          locked := true }
        [.repost]
  | done (hacquired : impl.acquired = []) (hready : impl.readyQueue = [])
      (hwaiting : impl.waitingQueue = []) :
      Goes impl [.onExit] { impl with readyQueue := [], waitingQueue := [], locked := false } []
  | repost (hacquired : impl.acquired = []) (hready : impl.readyQueue ≠ []) :
      Goes impl [.repost] { impl with queued := impl.queued + 1 } []

/-- A handler that has been called at once ends, or throws, in the handler that has called it. -/
theorem goes_invoked {op : α} {rest : List (Call α)} (hrest : Phase impl rest)
    (hqueued : impl.queued = 0) (ha : a.isInternal = true)
    (hp : perform impl (.invoke op :: rest) a = some (impl', calls')) :
    Goes impl (.invoke op :: rest) impl' calls' := by
  cases a with
  | «return» | throw =>
    cases hp
    exact .invoked hrest
  | dispatch | post => cases ha
  | _ => simp [perform, inUserCode, hqueued] at hp

theorem Phase.goes (h : Phase impl calls) (hqueued : impl.queued = 0)
    (ha : a.isInternal = true) (hp : perform impl calls a = some (impl', calls')) :
    Goes impl calls impl' calls' := by
  cases h with
  | doDispatch hacquired =>
    cases a with
    | complete =>
      cases hp
      exact .doDispatch hacquired
    | dispatch | post => cases ha
    | _ => simp [perform, inUserCode] at hp
  | push hacquired hready =>
    cases a with
    | push =>
      simp only [perform, hready, List.nil_append] at hp
      cases hp
      exact .push hacquired hready
    | dispatch | post => cases ha
    | _ => simp [perform, inUserCode] at hp
  | postImmediateCompletion hacquired hready =>
    cases a with
    | postImmediateCompletion =>
      cases hp
      exact .postImmediateCompletion hacquired hready
    | dispatch | post => cases ha
    | _ => simp [perform, inUserCode] at hp
  | doComplete hacquired =>
    cases a with
    | front =>
      simp only [perform] at hp
      cases hready : impl.readyQueue with
      | nil =>
        rw [hready] at hp
        cases hp
        exact .empty hacquired hready
      | cons op ops =>
        rw [hready] at hp
        cases hp
        exact .front hacquired hready
    | dispatch | post => cases ha
    | _ => simp [perform, inUserCode] at hp
  | pop hacquired hready =>
    cases a with
    | pop =>
      simp only [perform, hready, List.tail_cons] at hp
      cases hp
      exact .pop hacquired hready
    | dispatch | post => cases ha
    | _ => simp [perform, inUserCode] at hp
  | dispatched ops hacquired =>
    cases ops with
    | nil =>
      cases a with
      | «return» | throw =>
        cases hp
        exact .dispatched hacquired
      | dispatch | post => cases ha
      | _ => simp [perform, inUserCode, hqueued] at hp
    | cons op' ops => exact goes_invoked (.dispatched ops hacquired) hqueued ha hp
  | complete ops hacquired =>
    cases ops with
    | nil =>
      cases a with
      | «return» =>
        cases hp
        exact .completed hacquired
      | throw =>
        cases hp
        exact .thrown hacquired
      | dispatch | post => cases ha
      | _ => simp [perform, inUserCode, hqueued] at hp
    | cons op' ops => exact goes_invoked (.complete ops hacquired) hqueued ha hp
  | onExit hacquired =>
    cases a with
    | onExit =>
      simp only [perform, StrandService.onExit] at hp
      by_cases hnil : impl.readyQueue ++ impl.waitingQueue = []
      · obtain ⟨hready, hwaiting⟩ := List.append_eq_nil_iff.mp hnil
        simp only [hready, hwaiting, List.append_nil, List.isEmpty_nil] at hp
        cases hp
        exact .done hacquired hready hwaiting
      · have hempty : (impl.readyQueue ++ impl.waitingQueue).isEmpty = false :=
          List.isEmpty_eq_false_iff.mpr hnil
        simp only [hempty] at hp
        cases hp
        exact .more hacquired hnil
    | dispatch | post => cases ha
    | _ => simp [perform, inUserCode] at hp
  | repost hacquired hready =>
    cases a with
    | repost =>
      cases hp
      exact .repost hacquired hready
    | dispatch | post => cases ha
    | _ => simp [perform, inUserCode] at hp

/-- The lock is kept by the thread, given back to the scheduler with something to run, or free. -/
inductive Passes (impl impl' : StrandImpl α) (calls' : List (Call α)) : Prop
  | kept (hphase : Phase impl' calls') (hlocked : impl'.locked = true)
      (hqueued : impl'.queued = impl.queued)
  | queued (hcalls : calls' = []) (hlocked : impl'.locked = true)
      (hqueued : impl'.queued = impl.queued + 1) (hacquired : impl'.acquired = [])
      (hready : impl'.readyQueue ≠ [])
  | released (hcalls : calls' = []) (hlocked : impl'.locked = false)
      (hqueued : impl'.queued = impl.queued) (hacquired : impl'.acquired = [])
      (hready : impl'.readyQueue = []) (hwaiting : impl'.waitingQueue = [])

theorem Goes.passes (h : Goes impl calls impl' calls') (hlocked : impl.locked = true) :
    Passes impl impl' calls' := by
  cases h with
  | doDispatch hacquired => exact .kept (.dispatched [] rfl) hlocked rfl
  | push hacquired hready =>
    exact .kept (.postImmediateCompletion rfl (List.cons_ne_nil _ _)) hlocked rfl
  | postImmediateCompletion hacquired hready => exact .queued rfl hlocked rfl hacquired hready
  | empty hacquired hready => exact .kept (.onExit hacquired) hlocked rfl
  | front hacquired hready => exact .kept (.pop hacquired hready) hlocked rfl
  | pop hacquired hready => exact .kept (.complete [] hacquired) hlocked rfl
  | invoked hrest => exact .kept hrest hlocked rfl
  | dispatched hacquired => exact .kept (.onExit hacquired) hlocked rfl
  | completed hacquired => exact .kept (.doComplete hacquired) hlocked rfl
  | thrown hacquired => exact .kept (.onExit hacquired) hlocked rfl
  | more hacquired hready => exact .kept (.repost hacquired hready) rfl rfl
  | done hacquired hready hwaiting => exact .released rfl rfl rfl hacquired rfl rfl
  | repost hacquired hready => exact .queued rfl hlocked rfl hacquired hready

/-- What becomes of a handler that is given to the strand. -/
inductive Submits (impl : StrandImpl α) (calls : List (Call α)) (op : α) :
    StrandImpl α → List (Call α) → Prop
  | invoked (hrunning : runningInThisThread calls = true) :
      Submits impl calls op
        { impl with submitted := impl.submitted ++ [op], invoked := impl.invoked ++ [op] }
        (.invoke op :: calls)
  | waiting (hlocked : impl.locked = true) :
      Submits impl calls op
        { impl with
          submitted := impl.submitted ++ [op]
          waitingQueue := impl.waitingQueue ++ [op]
          ordered := impl.ordered ++ [op] } calls
  | first {c} (hlocked : impl.locked = false) (hc : c = .doDispatch op ∨ c = .push op) :
      Submits impl calls op
        { impl with
          submitted := impl.submitted ++ [op]
          locked := true
          acquired := [op]
          ordered := impl.ordered ++ [op] } (c :: calls)

theorem post_submits (impl : StrandImpl α) (calls : List (Call α)) (op : α) :
    Submits impl calls op (post impl calls op).1 (post impl calls op).2 := by
  rw [post, doPost]
  dsimp only
  split
  · rename_i hlocked
    exact .waiting hlocked
  · rename_i hlocked
    exact .first (Bool.not_eq_true _ ▸ hlocked) (.inr rfl)

theorem dispatch_submits (impl : StrandImpl α) (calls : List (Call α)) (canDispatch : Bool)
    (op : α) : Submits impl calls op (dispatch impl calls canDispatch op).1
      (dispatch impl calls canDispatch op).2 := by
  by_cases hrunning : runningInThisThread calls = true
  · rw [dispatch, if_pos hrunning]
    exact .invoked hrunning
  rw [dispatch, if_neg hrunning, doDispatch]
  dsimp only
  split
  · rename_i hfree
    obtain ⟨_, hlocked⟩ := Bool.and_eq_true_iff.mp hfree
    exact .first ((Bool.not_eq_true' _).mp hlocked) (.inl rfl)
  · exact post_submits impl calls op

theorem perform_submits {op : α} (ha : (∃ canDispatch, a = .dispatch canDispatch op) ∨ a = .post op)
    (hp : perform impl calls a = some (impl', calls')) :
    inUserCode calls = true ∧ Submits impl calls op impl' calls' := by
  rcases ha with ⟨canDispatch, rfl⟩ | rfl
  · simp only [perform] at hp
    split_ifs at hp with hcode
    have hsubmits := dispatch_submits impl calls canDispatch op
    rw [Option.some_inj.mp hp] at hsubmits
    exact ⟨hcode, hsubmits⟩
  · simp only [perform] at hp
    split_ifs at hp with hcode
    have hsubmits := post_submits impl calls op
    rw [Option.some_inj.mp hp] at hsubmits
    exact ⟨hcode, hsubmits⟩

theorem Phase.invoke (h : Phase impl calls) (hcode : inUserCode calls = true) (op : α) :
    Phase impl (.invoke op :: calls) := by
  cases h with
  | dispatched ops hacquired => exact .dispatched (op :: ops) hacquired
  | complete ops hacquired => exact .complete (op :: ops) hacquired
  | _ => cases hcode

/-- A thread that has no calls yet gives the strand a handler or runs the strand. -/
theorem perform_nil (ha : a.isInternal = true) (hp : perform impl [] a = some (impl', calls')) :
    0 < impl.queued ∧ impl' = { impl with queued := impl.queued - 1 } ∧
      calls' = [.doComplete] := by
  cases a with
  | doComplete =>
    simp only [perform, inUserCode, Bool.true_and, decide_eq_true_eq] at hp
    split_ifs at hp with hpos
    cases hp
    exact ⟨hpos, rfl, rfl⟩
  | dispatch | post => cases ha
  | _ => cases hp

/-- At most one thread is in the code of the strand, and it has the lock. -/
structure Good (s : State ι α) : Prop where
  baton : Baton s.part s.shared.locked s.shared.queued
  phase : ∀ i, s.part i ≠ [] → Phase s.shared (s.part i)
  idle : (∀ i, s.part i = []) → s.shared.acquired = []
  unlocked : s.shared.locked = false → s.shared.readyQueue = [] ∧ s.shared.waitingQueue = []
  pooled : 0 < s.shared.queued → s.shared.readyQueue ≠ []

section Steps

variable {s s' : State ι α}

theorem Good.initial : Good (initial : State ι α) where
  baton := .free fun _ => rfl
  phase _ h := absurd rfl h
  idle _ := rfl
  unlocked _ := ⟨rfl, rfl⟩
  pooled h := absurd h (Nat.lt_irrefl 0)

/-- The calls stay what they are, and so does what they depend on. -/
theorem Good.shared (h : Good s) (hlocked : impl'.locked = s.shared.locked)
    (hqueued : impl'.queued = s.shared.queued)
    (hacquired : impl'.acquired = s.shared.acquired)
    (hready : impl'.readyQueue = s.shared.readyQueue)
    (hwaiting : s.shared.locked = false → impl'.waitingQueue = s.shared.waitingQueue) :
    Good (⟨impl', s.part⟩ : State ι α) where
  baton := by
    rw [hlocked, hqueued]
    exact h.baton
  phase j hj := (h.phase j hj).congr hacquired hready
  idle hidle := hacquired.trans (h.idle hidle)
  unlocked hfree := by
    have hfree := hlocked.symm.trans hfree
    obtain ⟨hr, hw⟩ := h.unlocked hfree
    exact ⟨hready.trans hr, (hwaiting hfree).trans hw⟩
  pooled hpos := by
    rw [hready]
    exact h.pooled (hqueued ▸ hpos)

variable [DecidableEq ι]

/-- The phase of whichever thread has calls, when one has got them and the others have none. -/
theorem phase_set {r : StrandImpl α × List (Call α)} (others : ∀ j, j ≠ i → s.part j = [])
    (hphase : r.2 ≠ [] → Phase r.1 r.2) (j : ι) (hj : (s.set i r).part j ≠ []) :
    Phase (s.set i r).shared ((s.set i r).part j) := by
  by_cases hji : j = i
  · subst hji
    rw [part_set_self] at hj ⊢
    exact hphase hj
  · rw [part_set_of_ne hji, others j hji] at hj
    exact absurd rfl hj

/-- One thread has got calls, and the lock with them. -/
theorem Good.held (others : ∀ j, j ≠ i → s.part j = []) (hphase : Phase impl' calls')
    (hlocked : impl'.locked = true) (hqueued : impl'.queued = 0) :
    Good (s.set i (impl', calls')) := by
  refine ⟨?_, phase_set others fun _ => hphase, fun hidle => ?_, fun hfree => ?_, fun hpos => ?_⟩
  · rw [shared_set, hlocked, hqueued]
    exact Baton.held_update hphase.ne_nil others
  · have := hidle i
    rw [part_set_self] at this
    exact absurd this hphase.ne_nil
  · cases hlocked.symm.trans hfree
  · rw [shared_set, hqueued] at hpos
    cases hpos

theorem Good.passes (h : Good s) (hi : s.part i ≠ []) (hp : Passes s.shared impl' calls') :
    Good (s.set i (impl', calls')) := by
  obtain ⟨hlocked, hqueued, others⟩ := h.baton.of_busy hi
  cases hp with
  | kept hphase hlocked' hqueued' => exact .held others hphase hlocked' (hqueued'.trans hqueued)
  | queued hcalls hlocked' hqueued' hacquired hready =>
    subst hcalls
    refine ⟨?_, phase_set others (absurd rfl), fun _ => hacquired, ?_, fun _ => hready⟩
    · have := h.baton.put hi
      rw [hlocked, ← hlocked', ← hqueued'] at this
      exact this
    · intro hfree
      cases hlocked'.symm.trans hfree
  | released hcalls hlocked' hqueued' hacquired hready hwaiting =>
    subst hcalls
    refine ⟨?_, phase_set others (absurd rfl), fun _ => hacquired, fun _ => ⟨hready, hwaiting⟩, ?_⟩
    · have := h.baton.release hi
      rw [← hlocked', ← hqueued'] at this
      exact this
    · intro hpos
      have hzero : impl'.queued = 0 := hqueued'.trans hqueued
      rw [shared_set, hzero] at hpos
      cases hpos

theorem Good.submits (h : Good s) {op : α} (hcode : inUserCode (s.part i) = true)
    (hp : Submits s.shared (s.part i) op impl' calls') : Good (s.set i (impl', calls')) := by
  cases hp with
  | invoked hrunning =>
    have hi : s.part i ≠ [] := by
      intro hnil
      rw [hnil] at hrunning
      cases hrunning
    obtain ⟨hlocked, _, _⟩ := h.baton.of_busy hi
    exact h.passes hi (.kept (((h.phase i hi).invoke hcode op).congr rfl rfl) hlocked rfl)
  | waiting hlocked =>
    rw [set_part]
    refine h.shared rfl rfl rfl rfl fun hfree => ?_
    cases hlocked.symm.trans hfree
  | first hlocked hc =>
    have hbaton := h.baton
    rw [hlocked] at hbaton
    obtain ⟨hqueued, hidle⟩ := hbaton.idle_of_not_taken
    rw [hidle i]
    refine .held (fun j _ => hidle j) ?_ rfl hqueued
    rcases hc with rfl | rfl
    · exact .doDispatch rfl
    · exact .push rfl (h.unlocked hlocked).1

theorem Good.run (h : Good s) (hpos : 0 < s.shared.queued) :
    Good (s.set i ({ s.shared with queued := s.shared.queued - 1 }, [.doComplete])) := by
  obtain ⟨n, hn⟩ := Nat.exists_eq_succ_of_ne_zero (Nat.ne_of_gt hpos)
  have hbaton := h.baton
  rw [hn] at hbaton
  obtain ⟨hlocked, rfl, hidle⟩ := hbaton.idle_of_pooled
  exact .held (fun j _ => hidle j) (.doComplete (h.idle hidle)) hlocked (by rw [hn])

theorem Good.step (h : Good s) {a : ι × Action α} (hs : step s a = some s') : Good s' := by
  obtain ⟨i, a⟩ := a
  obtain ⟨impl', calls', hp, rfl⟩ := step_eq_some.mp hs
  cases ha : a.isInternal with
  | true =>
    by_cases hi : s.part i = []
    · simp only [hi] at hp
      obtain ⟨hpos, rfl, rfl⟩ := perform_nil ha hp
      exact h.run hpos
    · obtain ⟨hlocked, hqueued, _⟩ := h.baton.of_busy hi
      exact h.passes hi (((h.phase i hi).goes hqueued ha hp).passes hlocked)
  | false =>
    cases a with
    | dispatch canDispatch op =>
      obtain ⟨hcode, hsubmits⟩ := perform_submits (.inl ⟨canDispatch, rfl⟩) hp
      exact h.submits hcode hsubmits
    | post op =>
      obtain ⟨hcode, hsubmits⟩ := perform_submits (.inr rfl) hp
      exact h.submits hcode hsubmits
    | _ => cases ha

theorem Good.reachable {ok : State ι α → ι × Action α → Prop}
    (h : Reachable StrandService.step ok StrandService.initial s) : Good s :=
  h.invariant .initial fun h _ hs => h.step hs

end Steps

end Asio.Detail.StrandService
