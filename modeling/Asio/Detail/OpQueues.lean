import Asio.Detail.ReactorOpQueueMap

/-! The queues of a reactor, one for each kind of operation, and the operations that have been
started, completed and kept. -/

universe u

namespace Asio.Detail.OpQueues

open Lib.Holdings

set_option linter.unusedSectionVars false

variable {K : Type u} [DecidableEq K] [Inhabited K] [HashKey K]

/-- One of the queues does what it is called for. -/
def call (qs : OpType → ReactorOpQueue K) (t : OpType) (a : OperationMap.Action K) :
    OpType → ReactorOpQueue K :=
  Function.update qs t ((qs t).step a).1

def handedOut (qs : OpType → ReactorOpQueue K) (t : OpType) (a : OperationMap.Action K) :
    List ReactorOp :=
  ((qs t).step a).2.ops

def descriptors (q : ReactorOpQueue K) : List K := q.operations.values.map q.operations.key

def kinds : List OpType := [.read, .write, .except]

def pending (qs : OpType → ReactorOpQueue K) : List Nat := total (fun t => (qs t).pending) kinds

def Refines (qs : OpType → ReactorOpQueue K) (ms : OpType → OperationMap K) : Prop :=
  ∀ t, (qs t).Refines (ms t)

/-- What has been started is completed, waits in a queue or is `incoming`. -/
structure Keeps (qs : OpType → ReactorOpQueue K) (started : List Nat) (completed : List ReactorOp)
    (incoming : List Nat) : Prop where
  refines : ∃ ms, Refines qs ms
  balance : started.Perm (completed.map ReactorOp.id ++ pending qs ++ incoming)

theorem covers_kinds (g : OpType → List Nat) : Covers g kinds where
  nodup := by decide
  mem t _ := by cases t <;> decide

section Calls

variable {qs : OpType → ReactorOpQueue K} {ms : OpType → OperationMap K} {t t' : OpType}

@[simp] theorem call_self (a : OperationMap.Action K) : call qs t a t = ((qs t).step a).1 :=
  Function.update_self ..

theorem call_of_ne (a : OperationMap.Action K) (h : t' ≠ t) : call qs t a t' = qs t' :=
  Function.update_of_ne h ..

theorem Refines.call (h : Refines qs ms) (t : OpType) (a : OperationMap.Action K) :
    ∃ m, OperationMap.Step (ms t) a ((qs t).step a).2 m ∧
      Refines (call qs t a) (Function.update ms t m) := by
  obtain ⟨m, hm, href⟩ := ReactorOpQueue.step_refines (h t) a
  refine ⟨m, hm, fun t' => ?_⟩
  by_cases ht : t' = t
  · subst ht
    rwa [call_self, Function.update_self]
  · rw [call_of_ne a ht, Function.update_of_ne ht]
    exact h t'

theorem Refines.call_pending (h : Refines qs ms) (t : OpType) (a : OperationMap.Action K) :
    (pending qs ++ a.enqueued).Perm
      ((handedOut qs t a).map ReactorOp.id ++ pending (OpQueues.call qs t a)) := by
  obtain ⟨m, hm, href⟩ := ReactorOpQueue.step_refines (h t) a
  refine total_change (covers_kinds _) (covers_kinds _) t (fun t' ht => ?_) ?_
  · rw [call_of_ne a ht]
  · have hone := hm.conserves (h t).lists.covers href.lists.covers
    rwa [(h t).pending, href.pending, ← call_self] at hone

end Calls

/-! ### What one queue is asked about -/

section Questions

variable {q : ReactorOpQueue K} {m m' : OperationMap K} {a : OperationMap.Action K}
variable {r : OperationMap.Result} {d d' : K} {op : ReactorOp} {ec : Nat}
variable {outcome : Nat → ReactorOp.Outcome}

/-- No call gives a descriptor operations but the one that enqueues there. -/
theorem nonempty_of_step (h : OperationMap.Step m a r m') (ha : a.enqueued = [])
    (hd : m' d ≠ []) : m d ≠ [] := by
  have hupdate {d' : K} {ops : List ReactorOp} (hops : ops ≠ [] → m d' ≠ [])
      (hd : Function.update m d' ops d ≠ []) : m d ≠ [] := by
    by_cases hdd : d = d'
    · subst hdd
      rw [Function.update_self] at hd
      exact hops hd
    · rwa [Function.update_of_ne hdd] at hd
  cases h with
  | enqueueOperation => cases ha
  | cancelOperations => exact hupdate (fun hnil => absurd rfl hnil) hd
  | cancelOperationsByKey =>
    refine hupdate (fun hrest hnil => hrest ?_) hd
    rw [hnil, List.filter_nil]
  | performOperations =>
    refine hupdate (fun hrest hnil => hrest ?_) hd
    rw [hnil]
    rfl
  | performSet =>
    intro hnil
    apply hd
    simp only [hnil]
    split <;> rfl
  | cancelUnset =>
    intro hnil
    apply hd
    simp only [hnil, ite_self]
  | getAllOperations => exact absurd rfl hd

theorem hasOperation_eq_true (h : q.Refines m) : q.hasOperation d = true ↔ m d ≠ [] := by
  rw [h.hasOperation, Bool.not_eq_true', List.isEmpty_eq_false_iff]

theorem hasOperation_of_step (h : q.Refines m) (ha : a.enqueued = [])
    (hd : (q.step a).1.hasOperation d = true) : q.hasOperation d = true := by
  obtain ⟨m', hm, href⟩ := ReactorOpQueue.step_refines h a
  rw [hasOperation_eq_true href] at hd
  exact (hasOperation_eq_true h).mpr (nonempty_of_step hm ha hd)

theorem hasOperation_cancelOperations (h : q.Refines m) :
    (q.step (.cancelOperations d ec)).1.hasOperation d = false := by
  obtain ⟨m', hm, href⟩ := ReactorOpQueue.step_refines h (.cancelOperations d ec)
  rw [href.hasOperation]
  generalize (q.step (.cancelOperations d ec)).2 = r at hm
  cases hm
  rw [Function.update_self]
  rfl

theorem hasOperation_performOperations (h : q.Refines m) :
    (q.step (.performOperations d outcome)).1.hasOperation d =
      (q.step (.performOperations d outcome)).2.result := by
  obtain ⟨m', hm, href⟩ := ReactorOpQueue.step_refines h (.performOperations d outcome)
  rw [href.hasOperation]
  generalize (q.step (.performOperations d outcome)).2 = r at hm ⊢
  cases hm
  rw [Function.update_self]

theorem hasOperation_enqueueOperation (h : q.Refines m) :
    (q.step (.enqueueOperation d op)).1.hasOperation d' =
      (decide (d' = d) || q.hasOperation d') := by
  obtain ⟨m', hm, href⟩ := ReactorOpQueue.step_refines h (.enqueueOperation d op)
  rw [href.hasOperation, h.hasOperation]
  generalize (q.step (.enqueueOperation d op)).2 = r at hm
  cases hm
  by_cases hdd : d' = d
  · subst hdd
    simp
  · simp [hdd]

theorem result_enqueueOperation (h : q.Refines m) :
    (q.step (.enqueueOperation d op)).2.result = !q.hasOperation d := by
  obtain ⟨m', hm, -⟩ := ReactorOpQueue.step_refines h (.enqueueOperation d op)
  rw [h.hasOperation, Bool.not_not]
  generalize (q.step (.enqueueOperation d op)).2 = r at hm ⊢
  cases hm
  rfl

theorem mem_descriptors_iff (h : q.Refines m) : d ∈ descriptors q ↔ q.hasOperation d = true := by
  rw [hasOperation_eq_true h]
  exact h.lists.mem d

end Questions

section Ledgers

variable {qs : OpType → ReactorOpQueue K} {started : List Nat} {completed : List ReactorOp}

theorem keeps_construct : Keeps (fun _ => (.construct : ReactorOpQueue K)) [] [] [] where
  refines := ⟨fun _ => .empty, fun _ => ReactorOpQueue.construct_refines⟩
  balance := List.Perm.refl _

theorem Keeps.arrived (h : Keeps qs started completed []) (op : ReactorOp) :
    Keeps qs (started ++ [op.id]) completed [op.id] where
  refines := h.refines
  balance := by
    have hbalance := h.balance.append_right [op.id]
    rwa [List.append_nil] at hbalance

/-- The operation is completed without having been in a queue. -/
theorem Keeps.posted {op : ReactorOp} (h : Keeps qs started completed [op.id]) :
    Keeps qs started (completed ++ [op]) [] where
  refines := h.refines
  balance := by
    refine h.balance.trans ?_
    rw [List.append_nil, List.map_append, List.append_assoc, List.append_assoc]
    exact List.perm_append_comm.append_left _

theorem Keeps.call {a : OperationMap.Action K} (h : Keeps qs started completed a.enqueued)
    (t : OpType) : Keeps (call qs t a) started (completed ++ handedOut qs t a) [] := by
  obtain ⟨ms, hms⟩ := h.refines
  obtain ⟨m, -, href⟩ := hms.call t a
  refine ⟨⟨_, href⟩, h.balance.trans ?_⟩
  rw [List.append_nil, List.map_append, List.append_assoc, List.append_assoc]
  exact (hms.call_pending t a).append_left _

end Ledgers

end Asio.Detail.OpQueues
