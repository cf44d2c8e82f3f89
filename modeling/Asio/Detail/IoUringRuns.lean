import Asio.Detail.IoUringService
import Mathlib.Data.List.Perm.Basic

/-! A queue that is not empty is in one place, and every operation is completed once. -/

namespace Asio.Detail.IoUring

open Lib Transition

namespace IoQueue

/-! ### Where a queue is -/

/-- A queue that is not empty is carried by one entry, or it is once with the scheduler or with a
thread. -/
def Placed (q : IoQueue) : Prop :=
  q.entries.length + q.scheduled + q.running.length + q.arming =
    if q.opQueue.isEmpty then 0 else 1

variable {q q' : IoQueue}

theorem placed_initial : initial.Placed := rfl

theorem Placed.startOp (h : q.Placed) (op : ReactorOp) (outcome : ReactorOp.Outcome) :
    (q.startOp op outcome).2.Placed := by
  unfold Placed at h
  unfold IoQueue.startOp
  split
  · rename_i hempty
    rw [if_pos hempty] at h
    split
    · simp only [Placed, List.isEmpty_cons, Bool.false_eq_true, if_false]
      omega
    · simp only [Placed, if_pos hempty]
      exact h
  · rename_i hempty
    rw [if_neg hempty] at h
    have hne : (q.opQueue ++ [op]).isEmpty = false := by simp
    simp only [Placed, hne, Bool.false_eq_true, if_false]
    exact h

theorem Placed.arm (h : q.Placed) {sqe : Bool} (hq : q.arm sqe = some q') : q'.Placed := by
  unfold IoQueue.arm at hq
  split at hq
  · cases hq
    unfold Placed at h ⊢
    cases sqe with
    | true =>
      simp only [if_true, List.length_append, List.length_singleton]
      omega
    | false =>
      simp only [Bool.false_eq_true, if_false]
      omega
  · cases hq

theorem Placed.complete (h : q.Placed) {i : Nat} {res : Int} (hq : q.complete i res = some q') :
    q'.Placed := by
  unfold IoQueue.complete at hq
  split at hq
  · cases hq
    unfold Placed at h ⊢
    rw [List.length_set]
    exact h
  · cases hq

theorem Placed.run (h : q.Placed) {i : Nat} (hq : q.run i = some q') : q'.Placed := by
  unfold IoQueue.run at hq
  split at hq
  · rename_i hentry
    cases hq
    obtain ⟨hi, -⟩ := List.getElem?_eq_some_iff.mp hentry
    unfold Placed at h ⊢
    simp only [List.length_eraseIdx, if_pos hi]
    omega
  · cases hq

theorem Placed.dequeue (h : q.Placed) (hq : q.dequeue = some q') : q'.Placed := by
  unfold IoQueue.dequeue at hq
  split at hq
  · cases hq
    unfold Placed at h ⊢
    simp only [List.length_append, List.length_singleton]
    omega
  · cases hq

theorem Placed.cancel (h : q.Placed) : q.cancel.2.Placed := by
  unfold IoQueue.cancel
  split
  · exact h
  · rename_i first rest hqueue
    unfold Placed at h ⊢
    rw [hqueue] at h
    exact h

theorem Placed.cancelByKey (h : q.Placed) (key : Nat) : (q.cancelByKey key).2.Placed := by
  unfold IoQueue.cancelByKey
  split
  · exact h
  · rename_i first rest hqueue
    unfold Placed at h ⊢
    rw [hqueue] at h
    exact h

/-- The queue that a thread is completing is nowhere else. -/
theorem Placed.alone (h : q.Placed) {i : Nat} {result : Int} (hi : q.running[i]? = some result) :
    q.entries = [] ∧ q.scheduled = 0 ∧ q.running.eraseIdx i = [] ∧ q.arming = 0 := by
  obtain ⟨hlt, -⟩ := List.getElem?_eq_some_iff.mp hi
  have hle : q.entries.length + q.scheduled + q.running.length + q.arming ≤ 1 := by
    rw [h]
    split <;> omega
  have hentries : q.entries.length = 0 := by omega
  have herase : (q.running.eraseIdx i).length = 0 := by
    rw [List.length_eraseIdx, if_pos hlt]
    omega
  exact ⟨List.length_eq_zero_iff.mp hentries, by omega, List.length_eq_zero_iff.mp herase,
    by omega⟩

theorem Placed.performIo (h : q.Placed) {i : Nat} {result : Int}
    (hi : q.running[i]? = some result) (outcome : Nat → ReactorOp.Outcome) (sqe : Bool) :
    ({ (q.performIo result outcome sqe).2 with
      running := (q.performIo result outcome sqe).2.running.eraseIdx i } : IoQueue).Placed := by
  obtain ⟨hentries, hscheduled, hrunning, harming⟩ := h.alone hi
  simp only [IoQueue.performIo]
  split
  · simp only [Placed, hentries, hscheduled, hrunning, harming, List.length_nil,
      List.isEmpty_nil, if_true]
  · rename_i hqueue
    split
    · simp only [Placed, hentries, hscheduled, hrunning, harming, if_neg hqueue]
      rfl
    · simp only [Placed, hentries, hscheduled, hrunning, harming, List.length_nil,
        List.isEmpty_nil, if_true]

/-! ### What happens to operations -/

theorem arm_frame {sqe : Bool} (hq : q.arm sqe = some q') :
    q'.opQueue = q.opQueue ∧ q.arming = q'.arming + 1 := by
  unfold IoQueue.arm at hq
  split at hq
  · cases hq
    split <;> exact ⟨rfl, (Nat.sub_add_cancel ‹_›).symm⟩
  · cases hq

theorem performIo_arming (q : IoQueue) (result : Int) (outcome : Nat → ReactorOp.Outcome)
    (sqe : Bool) : (q.performIo result outcome sqe).2.arming = q.arming := by
  simp only [performIo]
  split
  · rfl
  · split <;> rfl

theorem cancel_arming (q : IoQueue) : q.cancel.2.arming = q.arming := by
  unfold cancel
  split <;> rfl

theorem cancelByKey_arming (q : IoQueue) (key : Nat) :
    (q.cancelByKey key).2.arming = q.arming := by
  unfold cancelByKey
  split <;> rfl

theorem complete_frame {i : Nat} {res : Int} (hq : q.complete i res = some q') :
    q'.opQueue = q.opQueue ∧ q'.arming = q.arming := by
  unfold IoQueue.complete at hq
  split at hq
  · cases hq
    exact ⟨rfl, rfl⟩
  · cases hq

theorem run_frame {i : Nat} (hq : q.run i = some q') :
    q'.opQueue = q.opQueue ∧ q'.arming = q.arming := by
  unfold IoQueue.run at hq
  split at hq
  · cases hq
    exact ⟨rfl, rfl⟩
  · cases hq

theorem dequeue_frame (hq : q.dequeue = some q') :
    q'.opQueue = q.opQueue ∧ q'.arming = q.arming := by
  unfold IoQueue.dequeue at hq
  split at hq
  · cases hq
    exact ⟨rfl, rfl⟩
  · cases hq

/-- The operation is posted from an empty queue, or it is the last one in its queue and comes to the
ring if it is the first. -/
theorem startOp_starts (q : IoQueue) (op : ReactorOp) (outcome : ReactorOp.Outcome) :
    match q.startOp op outcome with
    | (some op', q') => op'.identity = op.identity ∧ q.opQueue = [] ∧ q' = q
    | (none, q') => (∃ op', op'.identity = op.identity ∧ q'.opQueue = q.opQueue ++ [op']) ∧
      q'.arming = if q.opQueue.isEmpty then q.arming + 1 else q.arming := by
  unfold startOp
  cases hempty : q.opQueue.isEmpty with
  | true =>
    have hnil := List.isEmpty_iff.mp hempty
    cases hperform : op.perform outcome with
    | mk op' status =>
      have hid := ReactorOp.identity_of_perform hperform
      rw [hnil]
      cases status with
      | notDone => exact ⟨⟨op', hid, rfl⟩, rfl⟩
      | done => exact ⟨hid, rfl, rfl⟩
      | doneAndExhausted => exact ⟨hid, rfl, rfl⟩
  | false => exact ⟨⟨op, rfl, rfl⟩, rfl⟩

theorem performQueue_identity (outcome : Nat → ReactorOp.Outcome) (queue : List ReactorOp) :
    (performQueue outcome queue).1.map ReactorOp.identity ++
      (performQueue outcome queue).2.map ReactorOp.identity = queue.map ReactorOp.identity := by
  induction queue with
  | nil => rfl
  | cons op queue ih =>
    simp only [performQueue]
    split
    · rename_i op' hperform
      rw [List.map_nil, List.nil_append, List.map_cons, List.map_cons,
        ReactorOp.identity_of_perform hperform]
    · rename_i op' _ _ hperform
      rw [List.map_cons, List.cons_append, ih, List.map_cons,
        ReactorOp.identity_of_perform hperform]

theorem setResult_identity (op : ReactorOp) (result : Int) :
    (setResult op result).identity = op.identity := by
  unfold setResult
  split <;> rfl

theorem performed_identity (q : IoQueue) (result : Int) (outcome : Nat → ReactorOp.Outcome) :
    (q.performed result outcome).1.map ReactorOp.identity ++
      (q.performed result outcome).2.map ReactorOp.identity =
      q.opQueue.map ReactorOp.identity := by
  unfold performed
  split
  · rw [performQueue_identity]
    cases q.opQueue with
    | nil => rfl
    | cons op queue =>
      rw [List.modifyHead_cons, List.map_cons, List.map_cons, setResult_identity]
  · rfl

/-- What is performed, or given up, comes from the front of the queue. -/
theorem performIo_identity (q : IoQueue) (result : Int) (outcome : Nat → ReactorOp.Outcome)
    (sqe : Bool) :
    (q.performIo result outcome sqe).1.map ReactorOp.identity ++
      (q.performIo result outcome sqe).2.opQueue.map ReactorOp.identity =
      q.opQueue.map ReactorOp.identity := by
  have hperformed := q.performed_identity result outcome
  simp only [performIo]
  split
  · rename_i hempty
    rw [List.isEmpty_iff.mp hempty] at hperformed
    exact hperformed
  · split
    · exact hperformed
    · rw [List.map_append, List.map_map, List.map_nil, List.append_nil]
      exact hperformed

/-- The first operation is not called out. -/
theorem cancel_identity (q : IoQueue) :
    (q.cancel.2.opQueue.map ReactorOp.identity).Sublist (q.opQueue.map ReactorOp.identity) ∧
      (q.cancel.1.map ReactorOp.identity ++ q.cancel.2.opQueue.map ReactorOp.identity).Perm
        (q.opQueue.map ReactorOp.identity) := by
  unfold cancel
  split
  · exact ⟨List.Sublist.refl _, List.Perm.refl _⟩
  · rename_i first rest hqueue
    rw [hqueue, List.map_map]
    refine ⟨(List.nil_sublist _).cons_cons _, ?_⟩
    exact List.perm_append_singleton first.identity (rest.map ReactorOp.identity)

theorem cancelByKey_identity (q : IoQueue) (key : Nat) :
    ((q.cancelByKey key).2.opQueue.map ReactorOp.identity).Sublist
        (q.opQueue.map ReactorOp.identity) ∧
      ((q.cancelByKey key).1.map ReactorOp.identity ++
        (q.cancelByKey key).2.opQueue.map ReactorOp.identity).Perm
        (q.opQueue.map ReactorOp.identity) := by
  unfold cancelByKey
  split
  · exact ⟨List.Sublist.refl _, List.Perm.refl _⟩
  · rename_i first rest hqueue
    rw [hqueue, List.map_map]
    refine ⟨(List.filter_sublist.cons_cons first).map _, ?_⟩
    rw [List.map_cons, List.map_cons]
    refine List.perm_middle.trans (List.Perm.cons _ ?_)
    have hsplit : (rest.filter (·.cancellationKey = key) ++
        rest.filter (·.cancellationKey ≠ key)).Perm rest := by
      simpa using List.filter_append_perm (·.cancellationKey = key) rest
    have hmap := hsplit.map ReactorOp.identity
    rwa [List.map_append] at hmap

end IoQueue

namespace State

variable {s s' : State} {t : OpType}

/-! ### What a step does to operations -/

def opQueue (s : State) (t : OpType) : List ReactorOp := (s.queues t).opQueue

def Moves (s s' : State) : Prop := s.history.Moves s.opQueue s'.history s'.opQueue

theorem moves_of_update {q : IoQueue} (hqueues : s'.queues = Function.update s.queues t q)
    (h : s.history.Moves s.opQueue s'.history (Function.update s.opQueue t q.opQueue)) :
    s.Moves s' := by
  have hqueue : s'.opQueue = Function.update s.opQueue t q.opQueue := by
    have hcomp := Function.comp_update IoQueue.opQueue s.queues t q
    rw [← hqueues] at hcomp
    exact hcomp
  rw [Moves, hqueue]
  exact h

theorem setQueue_moves {q : IoQueue} (hq : q.opQueue = (s.queues t).opQueue) :
    s.Moves (s.setQueue t q) := by
  refine moves_of_update rfl ?_
  rw [hq]
  exact (Function.update_eq_self t s.opQueue).symm ▸ .stay

theorem startOp_moves (s : State) (t : OpType) (op : ReactorOp) (outcome : ReactorOp.Outcome) :
    s.Moves (s.startOp t op outcome) := by
  have hstarts := (s.queues t).startOp_starts op outcome
  simp only [startOp]
  split
  · rename_i op' q hresult
    rw [hresult] at hstarts
    obtain ⟨hid, hempty, rfl⟩ := hstarts
    refine moves_of_update rfl ?_
    exact (Function.update_eq_self t s.opQueue).symm ▸ .pass hempty hid
  · rename_i q hresult
    rw [hresult] at hstarts
    obtain ⟨⟨op', hid, hqueue⟩, -⟩ := hstarts
    refine moves_of_update rfl ?_
    rw [hqueue]
    exact .join hid

theorem performIo_moves {i : Nat} {outcome : Nat → ReactorOp.Outcome} {sqe : Bool}
    (h : s.performIo t i outcome sqe = some s') : s.Moves s' := by
  obtain ⟨result, -, rfl⟩ := Option.map_eq_some_iff.mp h
  exact moves_of_update rfl (.leave_queue ((s.queues t).performIo_identity result outcome sqe))

theorem cancelOps_moves (s : State) : s.Moves s.cancelOps := by
  refine .callOut fun t => ?_
  have hqueue := (s.queues t).cancel_identity
  have hops : identitiesOf t ([OpType.read, .write, .except].flatMap fun t =>
      (s.queues t).cancel.1.map (t, ·)) = (s.queues t).cancel.1.map ReactorOp.identity := by
    simp only [List.flatMap_cons, List.flatMap_nil, List.append_nil, identitiesOf_append,
      OpHistory.identitiesOf_queue]
    cases t <;> simp
  rw [hops]
  exact hqueue

theorem cancelOpsByKey_moves (s : State) (t : OpType) (key : Nat) :
    s.Moves (s.cancelOpsByKey t key) := by
  obtain ⟨hsub, hperm⟩ := (s.queues t).cancelByKey_identity key
  exact moves_of_update rfl (.callOut_queue hsub hperm)

theorem step_moves {a : Action} (h : step s a = some s') : s.Moves s' := by
  cases a with
  | startOp t op outcome =>
    cases h
    exact startOp_moves s t op outcome
  | arm t sqe =>
    obtain ⟨q, hq, rfl⟩ := Option.map_eq_some_iff.mp h
    exact setQueue_moves (IoQueue.arm_frame hq).1
  | complete t i res =>
    obtain ⟨q, hq, rfl⟩ := Option.map_eq_some_iff.mp h
    exact setQueue_moves (IoQueue.complete_frame hq).1
  | run t i =>
    obtain ⟨q, hq, rfl⟩ := Option.map_eq_some_iff.mp h
    exact setQueue_moves (IoQueue.run_frame hq).1
  | dequeue t =>
    obtain ⟨q, hq, rfl⟩ := Option.map_eq_some_iff.mp h
    exact setQueue_moves (IoQueue.dequeue_frame hq).1
  | performIo t i outcome sqe => exact performIo_moves h
  | cancelOps =>
    cases h
    exact cancelOps_moves s
  | cancelOpsByKey t key =>
    cases h
    exact cancelOpsByKey_moves s t key
  | invoke i =>
    obtain ⟨op, -, rfl⟩ := Option.map_eq_some_iff.mp h
    exact .stay

/-! ### Where the queues are -/

def Placed (s : State) : Prop := ∀ t, (s.queues t).Placed

theorem Placed.setQueue (h : s.Placed) {q : IoQueue} (hq : q.Placed) : (s.setQueue t q).Placed := by
  intro t'
  simp only [State.setQueue]
  by_cases ht : t' = t
  · rw [ht, Function.update_self]
    exact hq
  · rw [Function.update_of_ne ht]
    exact h t'

theorem Placed.step (h : s.Placed) {a : Action} (hstep : step s a = some s') : s'.Placed := by
  cases a with
  | startOp t op outcome =>
    cases hstep
    have hq := (h t).startOp op outcome
    simp only [State.startOp]
    split
    · rename_i hresult
      rw [hresult] at hq
      exact h.setQueue hq
    · rename_i hresult
      rw [hresult] at hq
      exact h.setQueue hq
  | arm t sqe =>
    obtain ⟨q, hq, rfl⟩ := Option.map_eq_some_iff.mp hstep
    exact h.setQueue ((h t).arm hq)
  | complete t i res =>
    obtain ⟨q, hq, rfl⟩ := Option.map_eq_some_iff.mp hstep
    exact h.setQueue ((h t).complete hq)
  | run t i =>
    obtain ⟨q, hq, rfl⟩ := Option.map_eq_some_iff.mp hstep
    exact h.setQueue ((h t).run hq)
  | dequeue t =>
    obtain ⟨q, hq, rfl⟩ := Option.map_eq_some_iff.mp hstep
    exact h.setQueue ((h t).dequeue hq)
  | performIo t i outcome sqe =>
    obtain ⟨result, hi, rfl⟩ := Option.map_eq_some_iff.mp hstep
    exact h.setQueue ((h t).performIo hi outcome sqe)
  | cancelOps =>
    cases hstep
    exact fun t => (h t).cancel
  | cancelOpsByKey t key =>
    cases hstep
    exact h.setQueue ((h t).cancelByKey key)
  | invoke i =>
    obtain ⟨op, -, rfl⟩ := Option.map_eq_some_iff.mp hstep
    exact h

/-! ### Work -/

/-- How many calls of `start_op` have not come to the ring. -/
def arming (s : State) : Nat :=
  (s.queues .read).arming + (s.queues .write).arming + (s.queues .except).arming

/-- Every operation is counted as work from when it is started, or has come to the ring, until it is
completed; and it is completed or posted once. -/
structure Counted (s : State) : Prop where
  work : s.outstandingWork + s.arming + s.invoked.length = s.history.started.length
  completions : (s.invoked ++ s.posted).Perm (s.history.completions.map (·.op))

theorem arming_update {q : IoQueue} (n : Int)
    (hqueues : s'.queues = Function.update s.queues t q)
    (hq : (q.arming : Int) = (s.queues t).arming + n) : (s'.arming : Int) = s.arming + n := by
  unfold arming
  rw [hqueues]
  cases t with
  | read =>
    rw [Function.update_self, Function.update_of_ne (by decide), Function.update_of_ne (by decide)]
    omega
  | write =>
    rw [Function.update_self, Function.update_of_ne (by decide), Function.update_of_ne (by decide)]
    omega
  | except =>
    rw [Function.update_self, Function.update_of_ne (by decide), Function.update_of_ne (by decide)]
    omega

theorem arming_of_same {q : IoQueue} (hqueues : s'.queues = Function.update s.queues t q)
    (hq : q.arming = (s.queues t).arming) : (s'.arming : Int) = s.arming + 0 :=
  arming_update 0 hqueues (by omega)

theorem Counted.of_work (h : s.Counted) (n : Int) (harming : (s'.arming : Int) = s.arming + n)
    (hstarted : s'.history.started.length - s'.outstandingWork - s'.invoked.length =
      s.history.started.length - s.outstandingWork - s.invoked.length + n)
    (hcompletions : (s'.invoked ++ s'.posted).Perm (s'.history.completions.map (·.op))) :
    s'.Counted := by
  refine ⟨?_, hcompletions⟩
  have := h.work
  omega

/-- What is posted is complete. -/
theorem Counted.posted (h : s.Counted) (calledOut : Bool) (ops : List (OpType × ReactorOp)) :
    (s.invoked ++ (s.posted ++ ops.map (·.2))).Perm
      ((s.history.complete calledOut ops).completions.map (·.op)) := by
  rw [OpHistory.complete, List.map_append, List.map_map, ← List.append_assoc]
  exact h.completions.append_right _

theorem Counted.startOp (h : s.Counted) (t : OpType) (op : ReactorOp)
    (outcome : ReactorOp.Outcome) : (s.startOp t op outcome).Counted := by
  have hstarts := (s.queues t).startOp_starts op outcome
  have hlength : (s.history.start t op).started.length = s.history.started.length + 1 :=
    List.length_append
  simp only [State.startOp]
  split
  · rename_i op' q hresult
    rw [hresult] at hstarts
    obtain ⟨-, -, rfl⟩ := hstarts
    refine h.of_work 0 (arming_update 0 rfl (by omega)) ?_ (h.posted false [(t, op')])
    simp only [OpHistory.complete, hlength, State.setQueue]
    omega
  · rename_i q hresult
    rw [hresult] at hstarts
    obtain ⟨-, harming⟩ := hstarts
    cases hempty : (s.queues t).opQueue.isEmpty with
    | true =>
      rw [hempty] at harming
      refine h.of_work 1 (arming_update 1 rfl (by rw [harming]; rfl)) ?_ h.completions
      simp only [hlength, State.setQueue, if_true]
      omega
    | false =>
      rw [hempty] at harming
      refine h.of_work 0 (arming_update 0 rfl (by rw [harming]; rfl)) ?_ h.completions
      simp only [hlength, State.setQueue, Bool.false_eq_true, if_false]
      omega

theorem Counted.performIo (h : s.Counted) {i : Nat} {outcome : Nat → ReactorOp.Outcome}
    {sqe : Bool} (hstep : s.performIo t i outcome sqe = some s') : s'.Counted := by
  obtain ⟨result, -, rfl⟩ := Option.map_eq_some_iff.mp hstep
  have harming := (s.queues t).performIo_arming result outcome sqe
  generalize (s.queues t).performIo result outcome sqe = r at harming
  obtain ⟨ops, q⟩ := r
  refine h.of_work 0 (arming_of_same rfl harming) ?_ ?_
  · cases ops with
    | nil =>
      simp only [OpHistory.complete, List.isEmpty_nil, if_true, List.take_nil,
        List.append_nil]
      omega
    | cons op ops =>
      simp only [OpHistory.complete, List.isEmpty_cons, Bool.false_eq_true,
        if_false, List.take_succ_cons, List.take_zero, List.length_append, List.length_singleton]
      omega
  · have hposted := h.posted false (ops.map (t, ·))
    simp only [List.map_map, Function.comp_def, List.map_id'] at hposted
    refine List.Perm.trans ?_ hposted
    simp only [List.append_assoc]
    refine List.Perm.append_left _ ((List.perm_append_comm_assoc _ _ _).trans ?_)
    rw [List.take_append_drop]

theorem Counted.step (h : s.Counted) {a : Action} (hstep : step s a = some s') : s'.Counted := by
  cases a with
  | startOp t op outcome =>
    cases hstep
    exact h.startOp t op outcome
  | arm t sqe =>
    obtain ⟨q, hq, rfl⟩ := Option.map_eq_some_iff.mp hstep
    have harming := (IoQueue.arm_frame hq).2
    refine h.of_work (-1) (arming_update (-1) rfl (by omega)) ?_ h.completions
    simp only [State.setQueue]
    omega
  | complete t i res =>
    obtain ⟨q, hq, rfl⟩ := Option.map_eq_some_iff.mp hstep
    exact h.of_work 0 (arming_of_same rfl (IoQueue.complete_frame hq).2) (Int.add_zero _).symm
      h.completions
  | run t i =>
    obtain ⟨q, hq, rfl⟩ := Option.map_eq_some_iff.mp hstep
    exact h.of_work 0 (arming_of_same rfl (IoQueue.run_frame hq).2) (Int.add_zero _).symm
      h.completions
  | dequeue t =>
    obtain ⟨q, hq, rfl⟩ := Option.map_eq_some_iff.mp hstep
    exact h.of_work 0 (arming_of_same rfl (IoQueue.dequeue_frame hq).2) (Int.add_zero _).symm
      h.completions
  | performIo t i outcome sqe => exact h.performIo hstep
  | cancelOps =>
    cases hstep
    refine h.of_work 0 ?_ (Int.add_zero _).symm (h.posted true _)
    simp only [State.arming, State.cancelOps, IoQueue.cancel_arming]
    omega
  | cancelOpsByKey t key =>
    cases hstep
    refine h.of_work 0 (arming_of_same rfl ((s.queues t).cancelByKey_arming key))
      (Int.add_zero _).symm ?_
    have hposted := h.posted true (((s.queues t).cancelByKey key).1.map (t, ·))
    simp only [List.map_map, Function.comp_def, List.map_id'] at hposted
    exact hposted
  | invoke i =>
    obtain ⟨op, hop, rfl⟩ := Option.map_eq_some_iff.mp hstep
    refine h.of_work 0 (Int.add_zero _).symm ?_ ?_
    · simp only [List.length_append, List.length_singleton]
      omega
    · refine List.Perm.trans ?_ h.completions
      obtain ⟨hi, rfl⟩ := List.getElem?_eq_some_iff.mp hop
      rw [List.append_assoc]
      exact (List.getElem_cons_eraseIdx_perm hi).append_left _

theorem startedIds_step (hs : s.history.startedIds.Nodup) {a : Action} (ha : Legal s a)
    (h : step s a = some s') : s'.history.startedIds.Nodup := by
  cases a with
  | startOp t op outcome =>
    cases h
    have hnodup := s.history.startedIds_start t hs ha
    simp only [startOp]
    split <;> exact hnodup
  | arm t sqe =>
    obtain ⟨q, -, rfl⟩ := Option.map_eq_some_iff.mp h
    exact hs
  | complete t i res =>
    obtain ⟨q, -, rfl⟩ := Option.map_eq_some_iff.mp h
    exact hs
  | run t i =>
    obtain ⟨q, -, rfl⟩ := Option.map_eq_some_iff.mp h
    exact hs
  | dequeue t =>
    obtain ⟨q, -, rfl⟩ := Option.map_eq_some_iff.mp h
    exact hs
  | performIo t i outcome sqe =>
    obtain ⟨result, -, rfl⟩ := Option.map_eq_some_iff.mp h
    exact hs
  | cancelOps =>
    cases h
    exact hs
  | cancelOpsByKey t key =>
    cases h
    exact hs
  | invoke i =>
    obtain ⟨op, -, rfl⟩ := Option.map_eq_some_iff.mp h
    exact hs

end State

/-! ### Runs -/

section Runs

variable {s : State}

theorem reachable_turns (h : Reachable step Legal initial s) (t : OpType) :
    (s.history.line t s.opQueue).Turns :=
  h.invariant Line.turns_empty fun hl _ hstep => ((State.step_moves hstep).line t).turns hl

theorem reachable_placed (h : Reachable step Legal initial s) : s.Placed :=
  h.invariant (fun _ => IoQueue.placed_initial) fun hs _ => hs.step

theorem reachable_counted (h : Reachable step Legal initial s) : s.Counted :=
  h.invariant ⟨rfl, List.Perm.refl _⟩ fun hs _ => hs.step

theorem reachable_startedIds (h : Reachable step Legal initial s) : s.history.startedIds.Nodup :=
  h.invariant List.nodup_nil fun hs => State.startedIds_step hs

/-- When no thread is within a step, a queue that is not empty has one entry in the ring or is once
with the scheduler; every operation that has been started waits or has been completed or posted
once, and those that are not aborted by a cancellation in the order in which they were started; and
the work of the scheduler is that of the operations that have been started and not completed. -/
theorem queue_in_one_place {run : List Action}
    (h : exec (guarded step Legal) initial run = some s) :
    (∀ t, (s.queues t).running = [] → (s.queues t).arming = 0 → (s.queues t).opQueue ≠ [] →
      ((s.queues t).entries.length = 1 ∧ (s.queues t).scheduled = 0 ∨
        (s.queues t).entries.length = 0 ∧ (s.queues t).scheduled = 1)) ∧
      s.history.startedIds.Nodup ∧
      (∀ t, (s.history.completedOf t ++ (s.opQueue t).map ReactorOp.identity).Perm
          (s.history.startedOf t) ∧
        (s.history.inTurnOf t ++ (s.opQueue t).map ReactorOp.identity).Sublist
          (s.history.startedOf t)) ∧
      (s.invoked ++ s.posted).Perm (s.history.completions.map (·.op)) ∧
      s.outstandingWork + s.arming + s.invoked.length = s.history.started.length := by
  have hreachable := exec_guarded_reachable h
  obtain ⟨hwork, hcompletions⟩ := reachable_counted hreachable
  refine ⟨fun t hrunning harming hqueue => ?_, reachable_startedIds hreachable, fun t => ?_,
    hcompletions, hwork⟩
  · have hplaced := reachable_placed hreachable t
    rw [IoQueue.Placed, hrunning, harming, if_neg (by rwa [List.isEmpty_iff])] at hplaced
    simp only [List.length_nil] at hplaced
    omega
  · obtain ⟨haccounted, hturns⟩ := reachable_turns hreachable t
    exact ⟨haccounted, hturns⟩

/-- The first operation is cancelled and restarted, the ring has no entry left for the next ones, and
the last one is aborted. -/
def threeReads : List Action :=
  [.startOp .read ⟨0, 0, 1, 0⟩ ⟨.notDone, 0, 0⟩, .arm .read true,
    .startOp .read ⟨1, 0, 1, 0⟩ ⟨.notDone, 0, 0⟩, .startOp .read ⟨2, 0, 2, 0⟩ ⟨.notDone, 0, 0⟩,
    .complete .read 0 (-canceled), .run .read 0, .dequeue .read,
    .performIo .read 0 (fun _ => ⟨.notDone, 0, 0⟩) true, .cancelOpsByKey .read 2,
    .complete .read 0 4, .run .read 0, .dequeue .read,
    .performIo .read 0 (fun id => ⟨if id = 0 then .done else .notDone, 0, 4⟩) false]

theorem queue_in_one_place_threeReads : ∃ s, exec (guarded step Legal) initial threeReads = some s ∧
    s.history.completions.map (·.op.id) = [2, 0, 1] ∧
    s.outstandingWork + s.arming + s.invoked.length = s.history.started.length := by
  have hrun : (exec (guarded step Legal) initial threeReads).map
      (fun s => s.history.completions.map (·.op.id)) = some [2, 0, 1] := by
    decide +kernel
  obtain ⟨s, hs, hids⟩ := Option.map_eq_some_iff.mp hrun
  exact ⟨s, hs, hids, (queue_in_one_place hs).2.2.2.2⟩

end Runs

end Asio.Detail.IoUring
