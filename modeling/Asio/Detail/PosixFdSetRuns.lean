import Asio.Detail.PosixFdSet

/-! Which descriptors the sets are asked about, over the runs of the reactor. -/

namespace Asio.Detail.PosixFdSet

open Lib Transition OpQueues

/-- When `select` comes back with something ready, the descriptors that are looked up then have
room in a set. -/
def Safe (cfg : Config) (s : State) : Action → Prop
  | .dispatch w =>
    (0 < w.retval → s.readDescriptor < cfg.fdSetSize) ∧
      (0 < remaining cfg s w →
        ∀ t ∈ kinds, ∀ d ∈ descriptors (s.opQueue t), d < cfg.fdSetSize)
  | _ => True

instance (cfg : Config) (s : State) (a : Action) : Decidable (Safe cfg s a) := by
  cases a <;> (unfold Safe; infer_instance)

def State.waiting (s : State) (t : OpType) (d : Int) : List ReactorOp := (s.opQueue t).waiting d

/-- Nothing beyond the end of a set is looked up, set or performed. -/
structure Within (cfg : Config) (s : State) : Prop where
  accessed : ∀ d ∈ s.accessed, d < cfg.fdSetSize
  performed : ∀ d ∈ s.performed, d < cfg.fdSetSize

/-- The operations of descriptors that a set has no room for are completed with the failure, and no
other operation is touched. -/
structure Refuses (cfg : Config) (s s' : State) : Prop where
  refused : ∀ t d, cfg.fdSetSize ≤ d → s'.waiting t d = []
  kept : ∀ t d, d < cfg.fdSetSize → s'.waiting t d = s.waiting t d
  completed : ∃ out, s'.completed = s.completed ++ out ∧
    ∀ op', op' ∈ out ↔ ∃ t d, cfg.fdSetSize ≤ d ∧
      ∃ op ∈ s.waiting t d, op' = op.complete cfg.fdSetFailure
  unperformed : s'.performed = s.performed

/-- What becomes of an operation that waits for a descriptor that a set has no room for. -/
def Outlasts (cfg : Config) (s' : State) (t : OpType) (d : Int) (op : ReactorOp) : Action → Prop
  | .prepare _ _ => op.complete cfg.fdSetFailure ∈ s'.completed
  | .cancelOps _ | .cancelOpsByKey _ _ _ =>
    op ∈ s'.waiting t d ∨ op.complete cfg.operationAborted ∈ s'.completed
  | .shutdown => op ∈ s'.completed
  | _ => op ∈ s'.waiting t d

def Kept (s : State) (incoming : List Nat) : Prop :=
  Keeps s.opQueue s.started s.completed incoming

section Queues

variable {cfg : Config} {s : State} {t t' : OpType} {a : OperationMap.Action Int}

theorem Kept.apply (h : Kept s a.enqueued) (t : OpType) : Kept (apply s t a) [] := h.call t

theorem Kept.applyAll (h : Kept s []) (ha : a.enqueued = []) : Kept (applyAll s a) [] := by
  rw [← ha] at h
  have hread : Kept (PosixFdSet.apply s .read a) a.enqueued := ha ▸ h.apply .read
  have hwrite : Kept (PosixFdSet.apply _ .write a) a.enqueued := ha ▸ hread.apply .write
  exact hwrite.apply .except

theorem Kept.startOp (h : Kept s []) (t : OpType) (descriptor : Int) (op : ReactorOp) :
    Kept (startOp s t descriptor op) [] := by
  have harrived : Kept { s with started := s.started ++ [op.id] } [op.id] := h.arrived op
  rw [PosixFdSet.startOp]
  split
  · exact harrived.posted
  · exact Kept.apply harrived t

theorem Kept.setQueue (h : Kept s []) (t : OpType) : Kept (setQueue cfg s t) [] :=
  Keeps.call (a := .cancelUnset (· < cfg.fdSetSize) cfg.fdSetFailure) h t

theorem Kept.performQueue (h : Kept s []) (w : Wake) (t : OpType) :
    Kept (performQueue cfg s w t) [] :=
  Keeps.call (a := .performSet (isSet cfg s w t) (w.outcome t)) h t

theorem Kept.prepare (h : Kept s []) (usec : Int) (timersEmpty : Bool) :
    Kept (prepare cfg s usec timersEmpty) [] := by
  have hreset : Kept (resetSets cfg s) [] := h
  exact ((hreset.setQueue .read).setQueue .write).setQueue .except

theorem Kept.resetInterrupter (h : Kept s []) (w : Wake) :
    Kept (resetInterrupter cfg s w) [] := by
  rw [PosixFdSet.resetInterrupter]
  split <;> exact h

theorem Kept.dispatch (h : Kept s []) (w : Wake) : Kept (dispatch cfg s w) [] := by
  have hreset : Kept { PosixFdSet.resetInterrupter cfg s w with blocked := false } [] :=
    h.resetInterrupter w
  rw [PosixFdSet.dispatch]
  split
  · exact ((hreset.performQueue w .except).performQueue w .write).performQueue w .read
  · exact hreset

theorem Kept.step (h : Kept s []) {a : Action} {s' : State} (hstep : step cfg s a = some s') :
    Kept s' [] := by
  cases a with
  | startOp t descriptor op =>
    cases hstep
    exact h.startOp t descriptor op
  | registerInternalDescriptor t descriptor op =>
    cases hstep
    have harrived : Kept { s with started := s.started ++ [op.id] } [op.id] := h.arrived op
    exact Kept.apply harrived t
  | cancelOps descriptor =>
    cases hstep
    exact h.applyAll rfl
  | cancelOpsByKey t descriptor cancellationKey =>
    cases hstep
    exact Kept.apply (a := .cancelOperationsByKey descriptor cancellationKey cfg.operationAborted)
      h t
  | shutdown =>
    cases hstep
    have hshutdown : Kept { s with shutdown := true } [] := h
    exact hshutdown.applyAll rfl
  | prepare usec timersEmpty =>
    obtain ⟨-, hstep⟩ := Option.ite_none_left_eq_some.mp hstep
    cases hstep
    exact h.prepare usec timersEmpty
  | dispatch w =>
    obtain ⟨-, hstep⟩ := Option.ite_none_right_eq_some.mp hstep
    cases hstep
    exact h.dispatch w
  | notifyFork readDescriptor =>
    obtain ⟨-, hstep⟩ := Option.ite_none_left_eq_some.mp hstep
    cases hstep
    exact h

end Queues

/-! ### What is looked up -/

section Bounds

variable {cfg : Config} {s : State} {w : Wake}

theorem Within.resetSets (h : Within cfg s) : Within cfg (resetSets cfg s) where
  accessed d hd := by
    rcases List.mem_append.mp hd with hd | hd
    · exact h.accessed d hd
    · exact of_decide_eq_true (List.mem_filter.mp hd).2
  performed := h.performed

theorem Within.setQueue (h : Within cfg s) (t : OpType) : Within cfg (setQueue cfg s t) where
  accessed d hd := by
    rcases List.mem_append.mp hd with hd | hd
    · exact h.accessed d hd
    · exact of_decide_eq_true (List.mem_filter.mp hd).2
  performed := h.performed

theorem Within.prepare (h : Within cfg s) (usec : Int) (timersEmpty : Bool) :
    Within cfg (prepare cfg s usec timersEmpty) := by
  have hsets := ((h.resetSets.setQueue .read).setQueue .write).setQueue .except
  exact ⟨hsets.accessed, hsets.performed⟩

theorem mem_resetInterrupter_accessed {d : Int} :
    d ∈ (resetInterrupter cfg s w).accessed ↔
      d ∈ s.accessed ∨ (0 < w.retval ∧ d = s.readDescriptor) := by
  rw [resetInterrupter]
  split
  · rename_i hretval
    simp [hretval]
  · rename_i hretval
    simp [hretval]

theorem resetInterrupter_eqs : (resetInterrupter cfg s w).opQueue = s.opQueue ∧
    (resetInterrupter cfg s w).performed = s.performed := by
  rw [resetInterrupter]
  split <;> exact ⟨rfl, rfl⟩

/-- The descriptors whose operations are looked through. -/
def lookedUp (s : State) (d : Int) : Prop := ∃ t ∈ kinds, d ∈ descriptors (s.opQueue t)

theorem lookedUp_iff {d : Int} : lookedUp s d ↔ d ∈ descriptors (s.opQueue .read) ∨
    d ∈ descriptors (s.opQueue .write) ∨ d ∈ descriptors (s.opQueue .except) := by
  simp [lookedUp, kinds]

def performQueues (cfg : Config) (s : State) (w : Wake) : State :=
  performQueue cfg (performQueue cfg (performQueue cfg s w .except) w .write) w .read

/-- The queues do not see what happens to each other. -/
theorem performQueues_accessed : (performQueues cfg s w).accessed =
    s.accessed ++ descriptors (s.opQueue .except) ++ descriptors (s.opQueue .write) ++
      descriptors (s.opQueue .read) := by
  simp [performQueues, performQueue, apply, call, Function.update]

theorem performQueues_performed : (performQueues cfg s w).performed =
    s.performed ++ (descriptors (s.opQueue .except)).filter (isSet cfg s w .except) ++
      (descriptors (s.opQueue .write)).filter (isSet cfg s w .write) ++
      (descriptors (s.opQueue .read)).filter (isSet cfg s w .read) := by
  simp only [performQueues, performQueue, apply, call, Function.update, reduceCtorEq, dite_false]
  rfl

theorem mem_performQueues_accessed {d : Int} :
    d ∈ (performQueues cfg s w).accessed ↔ d ∈ s.accessed ∨ lookedUp s d := by
  rw [performQueues_accessed, lookedUp_iff]
  simp only [List.mem_append]
  tauto

theorem mem_performQueues_performed {d : Int} (hd : d ∈ (performQueues cfg s w).performed) :
    d ∈ s.performed ∨ lookedUp s d := by
  rw [performQueues_performed] at hd
  rw [lookedUp_iff]
  simp only [List.mem_append, List.mem_filter] at hd
  tauto

/-- A return of `select` stays within the sets exactly when the condition is met. -/
theorem Within.dispatch_iff (h : Within cfg s) :
    Within cfg (dispatch cfg s w) ↔ Safe cfg s (.dispatch w) := by
  have hrest : Within cfg (resetInterrupter cfg s w) ↔
      (0 < w.retval → s.readDescriptor < cfg.fdSetSize) := by
    constructor
    · intro hwithin hretval
      exact hwithin.accessed _ (mem_resetInterrupter_accessed.mpr (.inr ⟨hretval, rfl⟩))
    · intro hread
      refine ⟨fun d hd => ?_, fun d hd => h.performed d (resetInterrupter_eqs.2 ▸ hd)⟩
      rcases mem_resetInterrupter_accessed.mp hd with hd | ⟨hretval, rfl⟩
      · exact h.accessed d hd
      · exact hread hretval
  have hlooked (d : Int) :
      lookedUp { resetInterrupter cfg s w with blocked := false } d ↔ lookedUp s d := by
    rw [lookedUp, lookedUp, resetInterrupter_eqs.1]
  rw [Safe, ← hrest, dispatch]
  split
  · rename_i hremaining
    refine ⟨fun hwithin => ⟨⟨fun d hd => ?_, fun d hd => ?_⟩, fun _ t ht d hd => ?_⟩,
      fun ⟨hwithin, hroom⟩ => ⟨fun d hd => ?_, fun d hd => ?_⟩⟩
    · exact hwithin.accessed d (mem_performQueues_accessed.mpr (.inl hd))
    · exact h.performed d (resetInterrupter_eqs.2 ▸ hd)
    · exact hwithin.accessed d
        (mem_performQueues_accessed.mpr (.inr ((hlooked d).mpr ⟨t, ht, hd⟩)))
    · rcases mem_performQueues_accessed.mp hd with hd | hd
      · exact hwithin.accessed d hd
      · obtain ⟨t, ht, hd⟩ := (hlooked d).mp hd
        exact hroom hremaining t ht d hd
    · rcases mem_performQueues_performed hd with hd | hd
      · exact hwithin.performed d hd
      · obtain ⟨t, ht, hd⟩ := (hlooked d).mp hd
        exact hroom hremaining t ht d hd
  · rename_i hremaining
    refine ⟨fun hwithin => ⟨⟨hwithin.accessed, hwithin.performed⟩, fun hpos => ?_⟩,
      fun hwithin => ⟨hwithin.1.accessed, hwithin.1.performed⟩⟩
    exact absurd hpos hremaining

theorem Within.step_iff (h : Within cfg s) {a : Action} {s' : State}
    (hstep : step cfg s a = some s') : Within cfg s' ↔ Safe cfg s a := by
  cases a with
  | startOp t descriptor op =>
    cases hstep
    refine iff_of_true ?_ trivial
    rw [startOp]
    split <;> exact ⟨h.accessed, h.performed⟩
  | registerInternalDescriptor t descriptor op =>
    cases hstep
    exact iff_of_true ⟨h.accessed, h.performed⟩ trivial
  | cancelOps descriptor =>
    cases hstep
    exact iff_of_true ⟨h.accessed, h.performed⟩ trivial
  | cancelOpsByKey t descriptor cancellationKey =>
    cases hstep
    exact iff_of_true ⟨h.accessed, h.performed⟩ trivial
  | shutdown =>
    cases hstep
    exact iff_of_true ⟨h.accessed, h.performed⟩ trivial
  | prepare usec timersEmpty =>
    obtain ⟨-, hstep⟩ := Option.ite_none_left_eq_some.mp hstep
    cases hstep
    exact iff_of_true (h.prepare usec timersEmpty) trivial
  | dispatch w =>
    obtain ⟨-, hstep⟩ := Option.ite_none_right_eq_some.mp hstep
    cases hstep
    exact h.dispatch_iff
  | notifyFork readDescriptor =>
    obtain ⟨-, hstep⟩ := Option.ite_none_left_eq_some.mp hstep
    cases hstep
    exact iff_of_true ⟨h.accessed, h.performed⟩ trivial

end Bounds

/-! ### What is refused -/

section Refusals

variable {cfg : Config} {s : State} {set : Int → Bool} {ec : Nat} {q : ReactorOpQueue Int}
variable {m : OperationMap Int}

theorem cancelUnset_waiting (h : q.Refines m) (d : Int) :
    (q.step (.cancelUnset set ec)).1.waiting d = if set d then q.waiting d else [] := by
  obtain ⟨m', hm, href⟩ := ReactorOpQueue.step_refines h (.cancelUnset set ec)
  rw [href.waiting, h.waiting]
  generalize (q.step (.cancelUnset set ec)).2 = r at hm
  cases hm
  rfl

theorem mem_cancelUnset (h : q.Refines m) {op' : ReactorOp} :
    op' ∈ (q.step (.cancelUnset set ec)).2.ops ↔
      ∃ d, set d = false ∧ ∃ op ∈ q.waiting d, op' = op.complete ec := by
  obtain ⟨m', hm, -⟩ := ReactorOpQueue.step_refines h (.cancelUnset set ec)
  simp only [h.waiting]
  generalize (q.step (.cancelUnset set ec)).2 = r at hm
  cases hm with
  | cancelUnset horder =>
    simp only [List.mem_flatMap, List.mem_filter, List.mem_map, Bool.not_eq_true']
    constructor
    · rintro ⟨d, ⟨-, hd⟩, op, hop, rfl⟩
      exact ⟨d, hd, op, hop, rfl⟩
    · rintro ⟨d, hd, op, hop, rfl⟩
      exact ⟨d, ⟨(horder.mem d).mpr (List.ne_nil_of_mem hop), hd⟩, op, hop, rfl⟩

/-- What `run` asks of each queue. -/
def refusal (cfg : Config) : OperationMap.Action Int :=
  .cancelUnset (· < cfg.fdSetSize) cfg.fdSetFailure

theorem prepare_opQueue (usec : Int) (timersEmpty : Bool) (t : OpType) :
    (prepare cfg s usec timersEmpty).opQueue t = ((s.opQueue t).step (refusal cfg)).1 := by
  cases t <;> rfl

theorem prepare_completed (usec : Int) (timersEmpty : Bool) :
    (prepare cfg s usec timersEmpty).completed =
      s.completed ++ kinds.flatMap fun t => handedOut s.opQueue t (refusal cfg) := by
  simp only [kinds, List.flatMap_cons, List.flatMap_nil, List.append_nil, ← List.append_assoc]
  rfl

theorem Kept.refuses (h : Kept s []) (cfg : Config) (usec : Int) (timersEmpty : Bool) :
    Refuses cfg s (PosixFdSet.prepare cfg s usec timersEmpty) := by
  obtain ⟨ms, hms⟩ := h.refines
  have hwaiting (t : OpType) (d : Int) :
      (PosixFdSet.prepare cfg s usec timersEmpty).waiting t d =
        if d < cfg.fdSetSize then s.waiting t d else [] := by
    rw [State.waiting, prepare_opQueue, refusal, cancelUnset_waiting (hms t), State.waiting]
    simp only [decide_eq_true_eq]
  refine ⟨fun t d hd => ?_, fun t d hd => ?_, ⟨_, prepare_completed usec timersEmpty, ?_⟩, rfl⟩
  · rw [hwaiting, if_neg (Int.not_lt.mpr hd)]
  · rw [hwaiting, if_pos hd]
  · intro op'
    simp only [List.mem_flatMap, handedOut, refusal, mem_cancelUnset (hms _),
      decide_eq_false_iff_not, Int.not_lt]
    constructor
    · rintro ⟨t, -, hop⟩
      exact ⟨t, hop⟩
    · rintro ⟨t, hop⟩
      exact ⟨t, by cases t <;> decide, hop⟩

theorem mem_enqueueOperation (h : q.Refines m) {d d' : Int} {op op' : ReactorOp}
    (hop : op ∈ q.waiting d) : op ∈ (q.step (.enqueueOperation d' op')).1.waiting d := by
  obtain ⟨m', hm, href⟩ := ReactorOpQueue.step_refines h (.enqueueOperation d' op')
  rw [h.waiting] at hop
  rw [href.waiting]
  generalize (q.step (.enqueueOperation d' op')).2 = r at hm
  cases hm
  by_cases hd : d = d'
  · subst hd
    rw [Function.update_self]
    exact List.mem_append_left _ hop
  · rwa [Function.update_of_ne hd]

theorem mem_cancelOperations (h : q.Refines m) {d d' : Int} {op : ReactorOp}
    (hop : op ∈ q.waiting d) :
    op ∈ (q.step (.cancelOperations d' ec)).1.waiting d ∨
      op.complete ec ∈ (q.step (.cancelOperations d' ec)).2.ops := by
  obtain ⟨m', hm, href⟩ := ReactorOpQueue.step_refines h (.cancelOperations d' ec)
  rw [h.waiting] at hop
  rw [href.waiting]
  generalize (q.step (.cancelOperations d' ec)).2 = r at hm
  cases hm
  by_cases hd : d = d'
  · subst hd
    exact .inr (List.mem_map_of_mem hop)
  · left
    rwa [Function.update_of_ne hd]

theorem mem_cancelOperationsByKey (h : q.Refines m) {d d' : Int} {key : Nat} {op : ReactorOp}
    (hop : op ∈ q.waiting d) :
    op ∈ (q.step (.cancelOperationsByKey d' key ec)).1.waiting d ∨
      op.complete ec ∈ (q.step (.cancelOperationsByKey d' key ec)).2.ops := by
  obtain ⟨m', hm, href⟩ := ReactorOpQueue.step_refines h (.cancelOperationsByKey d' key ec)
  rw [h.waiting] at hop
  rw [href.waiting]
  generalize (q.step (.cancelOperationsByKey d' key ec)).2 = r at hm
  cases hm
  by_cases hd : d = d'
  · subst hd
    rw [Function.update_self]
    by_cases hkey : op.cancellationKey = key
    · exact .inr (List.mem_map_of_mem (List.mem_filter.mpr ⟨hop, decide_eq_true hkey⟩))
    · exact .inl (List.mem_filter.mpr ⟨hop, decide_eq_true hkey⟩)
  · left
    rwa [Function.update_of_ne hd]

theorem mem_getAllOperations (h : q.Refines m) {d : Int} {op : ReactorOp}
    (hop : op ∈ q.waiting d) : op ∈ (q.step .getAllOperations).2.ops := by
  obtain ⟨m', hm, -⟩ := ReactorOpQueue.step_refines h .getAllOperations
  rw [h.waiting] at hop
  generalize (q.step .getAllOperations).2 = r at hm
  cases hm with
  | getAllOperations horder =>
    exact List.mem_flatMap.mpr ⟨d, (horder.mem d).mpr (List.ne_nil_of_mem hop), hop⟩

theorem mem_descriptors (h : q.Refines m) {d : Int} {op : ReactorOp} (hop : op ∈ q.waiting d) :
    d ∈ descriptors q := by
  rw [h.waiting] at hop
  exact (h.lists.mem d).mpr (List.ne_nil_of_mem hop)

theorem apply_opQueue_self (t : OpType) (a : OperationMap.Action Int) :
    (apply s t a).opQueue t = ((s.opQueue t).step a).1 := call_self a

theorem apply_opQueue_of_ne {t t' : OpType} {a : OperationMap.Action Int} (h : t' ≠ t) :
    (apply s t a).opQueue t' = s.opQueue t' := call_of_ne a h

theorem applyAll_opQueue (a : OperationMap.Action Int) (t : OpType) :
    (applyAll s a).opQueue t = ((s.opQueue t).step a).1 := by
  cases t <;> rfl

theorem mem_applyAll_completed {a : OperationMap.Action Int} {t : OpType} {op : ReactorOp}
    (hop : op ∈ ((s.opQueue t).step a).2.ops) : op ∈ (applyAll s a).completed := by
  have hall : (applyAll s a).completed =
      s.completed ++ handedOut s.opQueue .read a ++ handedOut s.opQueue .write a ++
        handedOut s.opQueue .except a := rfl
  rw [hall]
  simp only [List.mem_append, handedOut]
  cases t with
  | read => exact .inl (.inl (.inr hop))
  | write => exact .inl (.inr hop)
  | except => exact .inr hop

theorem mem_apply_enqueue {ms : OpType → OperationMap Int} (h : OpQueues.Refines s.opQueue ms)
    {t t' : OpType} {d d' : Int} {op op' : ReactorOp} (hop : op ∈ s.waiting t d) :
    op ∈ (apply s t' (.enqueueOperation d' op')).waiting t d := by
  rw [State.waiting]
  by_cases ht : t = t'
  · subst ht
    rw [apply_opQueue_self]
    exact mem_enqueueOperation (h t) hop
  · rwa [apply_opQueue_of_ne ht]

/-- Only `run` and the cancellations take an operation from a descriptor without room. -/
theorem Kept.outlasts (h : Kept s []) {a : Action} {s' : State} (hok : Safe cfg s a)
    (hstep : PosixFdSet.step cfg s a = some s') {t : OpType} {d : Int} (hd : cfg.fdSetSize ≤ d)
    {op : ReactorOp} (hop : op ∈ s.waiting t d) : Outlasts cfg s' t d op a := by
  obtain ⟨ms, hms⟩ := h.refines
  cases a with
  | startOp t' d' op' =>
    cases hstep
    show op ∈ (PosixFdSet.startOp s t' d' op').waiting t d
    rw [PosixFdSet.startOp]
    split
    · exact hop
    · exact mem_apply_enqueue hms hop
  | registerInternalDescriptor t' d' op' =>
    cases hstep
    exact mem_apply_enqueue hms hop
  | cancelOps d' =>
    cases hstep
    refine (mem_cancelOperations (hms t) hop).imp (fun hwaits => ?_) mem_applyAll_completed
    rwa [State.waiting, cancelOps, applyAll_opQueue]
  | cancelOpsByKey t' d' key =>
    cases hstep
    by_cases ht : t = t'
    · subst ht
      refine (mem_cancelOperationsByKey (hms t) hop).imp (fun hwaits => ?_)
        (List.mem_append_right _)
      rwa [State.waiting, cancelOpsByKey, apply_opQueue_self]
    · left
      rwa [State.waiting, cancelOpsByKey, apply_opQueue_of_ne ht]
  | shutdown =>
    cases hstep
    exact mem_applyAll_completed (s := { s with shutdown := true })
      (mem_getAllOperations (hms t) hop)
  | prepare usec timersEmpty =>
    obtain ⟨-, hstep⟩ := Option.ite_none_left_eq_some.mp hstep
    cases hstep
    obtain ⟨out, hout, hmem⟩ := (h.refuses cfg usec timersEmpty).completed
    rw [Outlasts, hout]
    exact List.mem_append_right _ ((hmem _).mpr ⟨t, d, hd, op, hop, rfl⟩)
  | dispatch w =>
    obtain ⟨-, hstep⟩ := Option.ite_none_right_eq_some.mp hstep
    cases hstep
    have hremaining : ¬0 < remaining cfg s w := fun hpos =>
      Int.not_lt.mpr hd (hok.2 hpos t (by cases t <;> decide) d (mem_descriptors (hms t) hop))
    show op ∈ (PosixFdSet.dispatch cfg s w).waiting t d
    rw [State.waiting, PosixFdSet.dispatch, if_neg hremaining]
    show op ∈ ((PosixFdSet.resetInterrupter cfg s w).opQueue t).waiting d
    rw [resetInterrupter_eqs.1]
    exact hop
  | notifyFork readDescriptor =>
    obtain ⟨-, hstep⟩ := Option.ite_none_left_eq_some.mp hstep
    cases hstep
    exact hop

end Refusals

section Runs

variable {cfg : Config} {s : State} {readDescriptor : Int}

theorem init_kept (readDescriptor : Int) : Kept (State.init readDescriptor) [] := keeps_construct

theorem init_within (readDescriptor : Int) : Within cfg (State.init readDescriptor) where
  accessed d hd := by cases hd
  performed d hd := by cases hd

/-- As long as every return of `select` meets the condition, nothing beyond the end of a set is
looked up or performed, nothing is lost, and each call of `run` completes what it has no room
for. -/
theorem select_reactor_within_fd_set
    (h : Reachable (step cfg) (Safe cfg) (State.init readDescriptor) s) :
    Within cfg s ∧ s.started.Perm (s.completed.map ReactorOp.id ++ pending s.opQueue) ∧
      (∀ usec timersEmpty s', step cfg s (.prepare usec timersEmpty) = some s' →
        Refuses cfg s s') ∧
      (∀ a s', Safe cfg s a → step cfg s a = some s' → ∀ t d, cfg.fdSetSize ≤ d →
        ∀ op ∈ s.waiting t d, Outlasts cfg s' t d op a) ∧
      ∀ a s', step cfg s a = some s' → (Within cfg s' ↔ Safe cfg s a) := by
  have hwithin : Within cfg s := by
    refine h.invariant (init_within readDescriptor) ?_
    intro s a s' hs hok hstep
    exact (hs.step_iff hstep).mpr hok
  have hkept : Kept s [] := by
    refine h.invariant (I := (Kept · [])) (init_kept readDescriptor) ?_
    intro s a s' hs _ hstep
    exact hs.step hstep
  refine ⟨hwithin, ?_, fun usec timersEmpty s' hstep => ?_, fun a s' hok hstep t d hd op hop =>
    hkept.outlasts hok hstep hd hop, fun a s' => hwithin.step_iff⟩
  · have hbalance := hkept.balance
    rwa [List.append_nil] at hbalance
  · obtain ⟨-, hstep⟩ := Option.ite_none_left_eq_some.mp hstep
    cases hstep
    exact hkept.refuses cfg usec timersEmpty

/-! ### A descriptor that arrives too late -/

def linux : Config where
  fdSetSize := 1024
  fdSetFailure := 8
  operationAborted := 125

/-- The descriptor 3 is ready. -/
def wake : Wake where
  retval := 1
  ready _ d := d = 3
  isReset := true
  recreated := 0
  outcome _ _ := ⟨.done, 0, 5⟩

def boundedRun : List Action :=
  [.startOp .read 3 ⟨1, 0, 0, 0⟩, .startOp .write 2000 ⟨2, 0, 0, 0⟩, .prepare (-1) true,
    .dispatch wake, .startOp .read 5 ⟨3, 0, 0, 0⟩]

theorem boundedRun_completes :
    (exec (guarded (step linux) (Safe linux)) (State.init 7) boundedRun).map
      (fun s => (s.completed, pending s.opQueue)) =
    some ([⟨2, 8, 0, 0⟩, ⟨1, 0, 0, 5⟩], [3]) := by
  decide +kernel

theorem select_reactor_within_fd_set_bounded : ∃ s, Within linux s ∧
    s.started.Perm ([2, 1] ++ [3]) := by
  obtain ⟨s, hrun, hcompletes⟩ := Option.map_eq_some_iff.mp boundedRun_completes
  obtain ⟨hwithin, hbalance, -⟩ := select_reactor_within_fd_set (exec_guarded_reachable hrun)
  obtain ⟨hcompleted, hpending⟩ := Prod.mk.inj hcompletes
  rw [hcompleted, hpending] at hbalance
  exact ⟨s, hwithin, hbalance⟩

/-- The second operation is enqueued while `select` blocks for the first. -/
def lateRun : List Action :=
  [.startOp .read 3 ⟨1, 0, 0, 0⟩, .prepare (-1) true, .startOp .read 2000 ⟨2, 0, 0, 0⟩,
    .dispatch wake]

theorem lateRun_accesses :
    (exec (guarded (step linux) fun _ _ => True) (State.init 7) lateRun).map
      (fun s => decide (2000 ∈ s.accessed)) = some true := by
  decide +kernel

theorem not_within_of_late : ¬∀ (cfg : Config) (readDescriptor : Int) (s : State),
    Reachable (step cfg) (fun _ _ => True) (State.init readDescriptor) s →
      ∀ d ∈ s.accessed, d < cfg.fdSetSize := by
  intro h
  obtain ⟨s, hrun, haccesses⟩ := Option.map_eq_some_iff.mp lateRun_accesses
  have hlt := h linux 7 s (exec_guarded_reachable hrun) 2000 (of_decide_eq_true haccesses)
  exact absurd hlt (by decide)

end Runs

end Asio.Detail.PosixFdSet
