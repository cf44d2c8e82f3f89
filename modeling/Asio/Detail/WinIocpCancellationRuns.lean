import Asio.Detail.WinIocpCancellation

/-! Whether an operation on a completion port is cancelled when its slot is emitted to. -/

namespace Asio.Detail.WinIocpCancellation

open Asio.Lib.Transition
open WinIocpAccept (Attempt Effect completeIocpAccept operationAborted connectionAborted
  netnameDeleted ioPending startAcceptOp restartAcceptOp)
open ReactiveSocketService (WaitType CancellationType terminal partialCancellation total)

/-- The type that `use_reactor` is told for a queue. -/
def Initiation.recorded (f : Initiation) (t : OpType) : OpType :=
  if f = .wait .waitError then .read else t

/-- What the system has of an operation. -/
structure State.KernelEntry (s : State) (e : Nat × Overlapped) (o : Operation) : Prop where
  operation : s.operations e.2.op = some o
  stage : o.stage = .kernel
  entry : e = (o.socket, o.overlapped e.2.op)
  noWaitError : o.initiation ≠ .wait .waitError
  slot : o.connected = true →
    ∃ c, s.slots e.2.op = some ⟨o.socket, c⟩ ∧ ∀ t, c ≠ .reactorOp (some t)

/-- What a queue of the reactor has of an operation. -/
structure State.QueueEntry (s : State) (t : OpType) (descriptor : Nat) (r : ReactorOp)
    (o : Operation) : Prop where
  operation : s.operations r.id = some o
  stage : o.stage = .reactor t
  descriptor : descriptor = o.socket
  key : r.cancellationKey = o.cancellationKey r.id
  waitError : o.initiation = .wait .waitError → t = .except
  slot : o.connected = true →
    s.slots r.id = some ⟨o.socket, .reactorOp (some (o.initiation.recorded t))⟩

/-- An accept that has been aborted waits to be restarted, and its flag is not set. -/
structure State.Accepts (s : State) (op : Nat) (o : Operation) : Prop where
  slot : o.initiation.isAccept = true → o.connected = true →
    s.slots op = some ⟨o.socket, .acceptOp 0⟩
  aborted : o.stage = .aborted → o.initiation.isAccept = true
  checked : ∀ f, o.stage = .checked f → o.initiation.isAccept = true
  flag : ∀ f, o.stage = .checked f → o.connected = true → f = some 0

structure State.Coherent (s : State) : Prop where
  kernel : ∀ e ∈ s.kernel, ∃ o, s.KernelEntry e o
  queues : ∀ t descriptor, ∀ r ∈ s.queues t descriptor, ∃ o, s.QueueEntry t descriptor r o
  accepts : ∀ op o, s.operations op = some o → s.Accepts op o

/-- Only the operation has changed. -/
structure State.Only (s s' : State) (op : Nat) : Prop where
  operations : ∀ m, m ≠ op → s'.operations m = s.operations m
  slots : ∀ m, m ≠ op → s'.slots m = s.slots m

section Changes

variable {s s' : State} {op m : Nat} {o : Operation} {stage : Stage} {t t' : OpType} {d d' : Nat}
  {e : Nat × Overlapped} {r : ReactorOp} {ops : List ReactorOp}

@[simp] theorem setStage_kernel : (s.setStage op stage).kernel = s.kernel := rfl

@[simp] theorem setStage_queues : (s.setStage op stage).queues = s.queues := rfl

@[simp] theorem setStage_slots : (s.setStage op stage).slots = s.slots := rfl

theorem setStage_operations_of_ne (h : m ≠ op) :
    (s.setStage op stage).operations m = s.operations m :=
  Function.update_of_ne h ..

theorem setStage_operations_self (h : s.operations op = some o) :
    (s.setStage op stage).operations op = some { o with stage := stage } := by
  simp only [State.setStage, Function.update_self, h, Option.map_some]

@[simp] theorem setQueue_kernel : (s.setQueue t d ops).kernel = s.kernel := rfl

@[simp] theorem setQueue_operations : (s.setQueue t d ops).operations = s.operations := rfl

@[simp] theorem setQueue_slots : (s.setQueue t d ops).slots = s.slots := rfl

theorem setQueue_self : (s.setQueue t d ops).queues t d = ops := by
  simp only [State.setQueue, Function.update_self]

theorem setQueue_of_ne (h : ¬(t' = t ∧ d' = d)) :
    (s.setQueue t d ops).queues t' d' = s.queues t' d' := by
  by_cases ht : t' = t
  · subst ht
    have hd : d' ≠ d := fun hd => h ⟨rfl, hd⟩
    simp only [State.setQueue, Function.update_self, Function.update_of_ne hd]
  · simp only [State.setQueue, Function.update_of_ne ht]

theorem mem_setQueue (h : r ∈ (s.setQueue t d ops).queues t' d') :
    r ∈ s.queues t' d' ∨ (r ∈ ops ∧ t' = t ∧ d' = d) := by
  by_cases heq : t' = t ∧ d' = d
  · obtain ⟨rfl, rfl⟩ := heq
    rw [setQueue_self] at h
    exact .inr ⟨h, rfl, rfl⟩
  · rw [setQueue_of_ne heq] at h
    exact .inl h

/-- An invariant is kept if it is kept for the one operation that changes. -/
theorem State.Coherent.changed (h : s.Coherent) (only : s.Only s' op)
    (kernel : ∀ e ∈ s'.kernel, (e ∈ s.kernel ∧ e.2.op ≠ op) ∨ ∃ o, s'.KernelEntry e o)
    (queues : ∀ t d, ∀ r ∈ s'.queues t d,
      (r ∈ s.queues t d ∧ r.id ≠ op) ∨ ∃ o, s'.QueueEntry t d r o)
    (accepts : ∀ o, s'.operations op = some o → s'.Accepts op o) : s'.Coherent where
  kernel e he := by
    rcases kernel e he with ⟨hold, hne⟩ | hnew
    · obtain ⟨o, hentry⟩ := h.kernel e hold
      exact ⟨o, { hentry with
        operation := (only.operations _ hne).trans hentry.operation
        slot := by
          rw [only.slots _ hne]
          exact hentry.slot }⟩
    · exact hnew
  queues t d r hr := by
    rcases queues t d r hr with ⟨hold, hne⟩ | hnew
    · obtain ⟨o, hentry⟩ := h.queues t d r hold
      exact ⟨o, { hentry with
        operation := (only.operations _ hne).trans hentry.operation
        slot := by
          rw [only.slots _ hne]
          exact hentry.slot }⟩
    · exact hnew
  accepts m o ho := by
    by_cases hm : m = op
    · subst hm
      exact accepts o ho
    · rw [only.operations m hm] at ho
      have hold := h.accepts m o ho
      exact { hold with
        slot := by
          rw [only.slots m hm]
          exact hold.slot }

/-- Operations that are taken out leave the rest as it was. -/
theorem State.Coherent.of_subset (h : s.Coherent) (hoperations : s'.operations = s.operations)
    (hslots : s'.slots = s.slots) (hkernel : s'.kernel ⊆ s.kernel)
    (hqueues : ∀ t d, s'.queues t d ⊆ s.queues t d) : s'.Coherent where
  kernel e he := by
    obtain ⟨o, hentry⟩ := h.kernel e (hkernel he)
    exact ⟨o, { hentry with
      operation := hoperations ▸ hentry.operation
      slot := hslots ▸ hentry.slot }⟩
  queues t d r hr := by
    obtain ⟨o, hentry⟩ := h.queues t d r (hqueues t d hr)
    exact ⟨o, { hentry with
      operation := hoperations ▸ hentry.operation
      slot := hslots ▸ hentry.slot }⟩
  accepts m o ho := by
    have hold := h.accepts m o (hoperations ▸ ho)
    exact { hold with slot := hslots ▸ hold.slot }

theorem only_setStage : s.Only (s.setStage op stage) op :=
  ⟨fun _ hm => setStage_operations_of_ne hm, fun _ _ => rfl⟩

/-- Nothing of an operation that is in another stage. -/
theorem State.Coherent.not_kernel (h : s.Coherent) (ho : s.operations op = some o)
    (hstage : o.stage ≠ .kernel) (he : e ∈ s.kernel) : e.2.op ≠ op := by
  rintro rfl
  obtain ⟨o', hentry⟩ := h.kernel e he
  cases ho.symm.trans hentry.operation
  exact hstage hentry.stage

theorem State.Coherent.not_queued (h : s.Coherent) (ho : s.operations op = some o)
    (hstage : ∀ t, o.stage ≠ .reactor t) (hr : r ∈ s.queues t d) : r.id ≠ op := by
  rintro rfl
  obtain ⟨o', hentry⟩ := h.queues t d r hr
  cases ho.symm.trans hentry.operation
  exact hstage t hentry.stage

theorem State.Coherent.absent_kernel (h : s.Coherent) (ho : s.operations op = none)
    (he : e ∈ s.kernel) : e.2.op ≠ op := by
  rintro rfl
  obtain ⟨o', hentry⟩ := h.kernel e he
  cases ho.symm.trans hentry.operation

theorem State.Coherent.absent_queued (h : s.Coherent) (ho : s.operations op = none)
    (hr : r ∈ s.queues t d) : r.id ≠ op := by
  rintro rfl
  obtain ⟨o', hentry⟩ := h.queues t d r hr
  cases ho.symm.trans hentry.operation

end Changes

/-! ### Completions -/

section Completions

variable {s : State} {op d : Nat} {o : Operation} {t : OpType} {r : ReactorOp}

theorem State.Accepts.of_stage {s' : State} (h : s.Accepts op o) (hslots : s'.slots = s.slots)
    (stage : Stage)
    (haborted : stage = .aborted → o.initiation.isAccept = true)
    (hchecked : ∀ f, stage = .checked f → o.initiation.isAccept = true ∧
      (o.connected = true → f = some 0)) :
    s'.Accepts op { o with stage := stage } where
  slot := hslots ▸ h.slot
  aborted := haborted
  checked f hf := (hchecked f hf).1
  flag f hf := (hchecked f hf).2

/-- The operation leaves where it was, with everything else unchanged. -/
theorem State.Coherent.setStage (h : s.Coherent) (ho : s.operations op = some o) {stage : Stage}
    (hkernel : ∀ e ∈ s.kernel, e.2.op ≠ op) (hqueues : ∀ t d, ∀ r ∈ s.queues t d, r.id ≠ op)
    (haborted : stage = .aborted → o.initiation.isAccept = true)
    (hchecked : ∀ f, stage = .checked f → o.initiation.isAccept = true ∧
      (o.connected = true → f = some 0)) : (s.setStage op stage).Coherent := by
  refine h.changed only_setStage (fun e he => .inl ⟨he, hkernel e he⟩)
    (fun t d r hr => .inl ⟨hr, hqueues t d r hr⟩) fun o' ho' => ?_
  cases (setStage_operations_self ho).symm.trans ho'
  refine (h.accepts op o ho).of_stage ?_ stage haborted hchecked
  rfl

theorem State.Coherent.post (h : s.Coherent) (ho : s.operations op = some o)
    (hkernel : ∀ e ∈ s.kernel, e.2.op ≠ op) (hqueues : ∀ t d, ∀ r ∈ s.queues t d, r.id ≠ op)
    (ec : ErrorCode) : (s.setStage op (.posted ec)).Coherent :=
  h.setStage ho hkernel hqueues Stage.noConfusion fun _ => Stage.noConfusion

theorem overlapped_op (o : Operation) (op : Nat) : (o.overlapped op).op = op := by
  unfold Operation.overlapped
  split
  · rfl
  · rfl

/-- The system is done with the operation. -/
theorem State.Coherent.dropKernel (h : s.Coherent) (ho : s.operations op = some o)
    (hmem : (o.socket, o.overlapped op) ∈ s.kernel) (ec : ErrorCode) :
    ({ s with kernel := s.kernel.filter (· ≠ (o.socket, o.overlapped op)) }.setStage op
      (.posted ec)).Coherent := by
  have hstage : o.stage = .kernel := by
    obtain ⟨o', hentry⟩ := h.kernel _ hmem
    cases ho.symm.trans (overlapped_op o op ▸ hentry.operation)
    exact hentry.stage
  have hdropped :
      { s with kernel := s.kernel.filter (· ≠ (o.socket, o.overlapped op)) }.Coherent :=
    h.of_subset rfl rfl (List.filter_subset_self ..) fun _ _ => List.Subset.refl _
  refine hdropped.post ho ?_ (fun t d r hr => h.not_queued ho ?_ hr) ec
  · rintro e he rfl
    obtain ⟨hmem', hne⟩ := List.mem_filter.mp he
    obtain ⟨o', hentry⟩ := h.kernel e hmem'
    cases ho.symm.trans hentry.operation
    exact absurd hentry.entry (of_decide_eq_true hne)
  · rw [hstage]
    exact fun _ => Stage.noConfusion

/-- The reactor is done with the operation. -/
theorem State.Coherent.dropQueue (h : s.Coherent) (ho : s.operations op = some o)
    (hmem : ∃ r ∈ s.queues t o.socket, r.id = op) {keep : ReactorOp → Bool}
    (hkeep : ∀ r ∈ s.queues t o.socket, r.id = op → keep r = false) (ec : ErrorCode) :
    ((s.setQueue t o.socket ((s.queues t o.socket).filter keep)).setStage op
      (.posted ec)).Coherent := by
  have hstage : o.stage = .reactor t := by
    obtain ⟨r, hr, rfl⟩ := hmem
    obtain ⟨o', hentry⟩ := h.queues t _ r hr
    cases ho.symm.trans hentry.operation
    exact hentry.stage
  have hsub (t' : OpType) (d : Nat) :
      (s.setQueue t o.socket ((s.queues t o.socket).filter keep)).queues t' d ⊆ s.queues t' d := by
    intro r hr
    rcases mem_setQueue hr with hold | ⟨hkept, rfl, rfl⟩
    · exact hold
    · exact List.mem_of_mem_filter hkept
  have hdropped : (s.setQueue t o.socket ((s.queues t o.socket).filter keep)).Coherent :=
    h.of_subset rfl rfl (List.Subset.refl _) hsub
  refine hdropped.post ho (fun e he => h.not_kernel ho ?_ he) ?_ ec
  · rw [hstage]
    exact Stage.noConfusion
  · rintro t' d r hr rfl
    obtain ⟨o', hentry⟩ := h.queues t' d r (hsub t' d hr)
    cases ho.symm.trans hentry.operation
    obtain rfl := hentry.descriptor
    cases hstage.symm.trans hentry.stage
    rw [setQueue_self] at hr
    obtain ⟨hr, hkept⟩ := List.mem_filter.mp hr
    exact absurd ((hkeep r hr rfl).symm.trans hkept) Bool.noConfusion

/-! ### Signals -/

theorem setStage_setStage (s : State) (op : Nat) (stage stage' : Stage) :
    (s.setStage op stage).setStage op stage' = s.setStage op stage' := by
  simp only [State.setStage, Function.update_self, Function.update_idem, Option.map_map]
  rfl

theorem setQueue_eq_self (s : State) (t : OpType) (d : Nat) :
    s.setQueue t d (s.queues t d) = s := by
  simp only [State.setQueue, Function.update_eq_self]

theorem postAll_same {ops : List ReactorOp} {value : Nat} (hne : ops ≠ [])
    (h : ∀ r ∈ ops, r.id = op ∧ r.ec = value) :
    s.postAll ops = s.setStage op (.posted ⟨.system, value⟩) := by
  induction ops generalizing s with
  | nil => exact absurd rfl hne
  | cons r ops ih =>
    obtain ⟨hid, hec⟩ := h r (List.mem_cons_self ..)
    have hrest : ∀ r ∈ ops, r.id = op ∧ r.ec = value := fun r hr =>
      h r (List.mem_cons_of_mem _ hr)
    rw [State.postAll, List.foldl_cons, hid, hec, ← State.postAll]
    cases hops : ops with
    | nil => rfl
    | cons r' ops' =>
      rw [← hops, ih (by rw [hops]; exact List.cons_ne_nil r' ops') hrest, setStage_setStage]

/-- A signal that finds the operation has it completed, and changes nothing else. -/
structure State.Cancels (s s' : State) (op : Nat) (o : Operation) : Prop where
  operation : s.operations op = some o
  stage : o.stage = .kernel ∨ ∃ t, o.stage = .reactor t
  posted : s'.operations op = some { o with stage := .posted operationAborted }
  only : s.Only s' op
  coherent : s'.Coherent

theorem State.Coherent.cancelIoEx (h : s.Coherent) {socket : Nat}
    (hmem : (socket, .cancellation op) ∈ s.kernel) :
    ∃ o, s.Cancels (s.cancelIoEx socket (.cancellation op)) op o := by
  rw [State.cancelIoEx, if_pos hmem]
  obtain ⟨o, hentry⟩ := h.kernel _ hmem
  have ho : s.operations op = some o := hentry.operation
  have heq : (socket, Overlapped.cancellation op) = (o.socket, o.overlapped op) := hentry.entry
  rw [heq] at hmem ⊢
  refine ⟨o, ho, .inl hentry.stage, setStage_operations_self ho, ?_,
    h.dropKernel ho hmem operationAborted⟩
  exact ⟨fun _ hm => setStage_operations_of_ne hm, fun _ _ => rfl⟩

theorem cancellationKey_eq_key {id : Nat} (h : o.cancellationKey id = key op) :
    o.connected = true ∧ id = op := by
  unfold Operation.cancellationKey key at h
  split at h
  · rename_i hconnected
    exact ⟨hconnected, Nat.succ.inj h⟩
  · exact absurd h (Nat.succ_ne_zero op).symm

theorem cancelOpsByKey_none (hnone : ∀ r ∈ s.queues t d, r.cancellationKey ≠ key op) :
    s.cancelOpsByKey d t (key op) = s := by
  have hcancelled : (s.queues t d).filter (·.cancellationKey = key op) = [] :=
    List.filter_eq_nil_iff.mpr fun r hr hk => hnone r hr (of_decide_eq_true hk)
  have hkept : (s.queues t d).filter (·.cancellationKey ≠ key op) = s.queues t d :=
    List.filter_eq_self.mpr fun r hr => decide_eq_true (hnone r hr)
  rw [State.cancelOpsByKey, hcancelled, hkept, setQueue_eq_self]
  rfl

theorem State.Coherent.cancelOpsByKey (h : s.Coherent) (hr : r ∈ s.queues t d)
    (hkey : r.cancellationKey = key op) :
    ∃ o, s.Cancels (s.cancelOpsByKey d t (key op)) op o := by
  obtain ⟨o, hentry⟩ := h.queues t d r hr
  obtain ⟨hconnected, hid⟩ := cancellationKey_eq_key (hentry.key.symm.trans hkey)
  have ho : s.operations op = some o := hid ▸ hentry.operation
  obtain rfl := hentry.descriptor
  have hsame (r' : ReactorOp) (hr' : r' ∈ s.queues t o.socket) :
      r'.cancellationKey = key op ↔ r'.id = op := by
    obtain ⟨o', hentry'⟩ := h.queues t _ r' hr'
    constructor
    · intro hk
      exact (cancellationKey_eq_key (hentry'.key.symm.trans hk)).2
    · intro hi
      cases ho.symm.trans (hi ▸ hentry'.operation)
      rw [hentry'.key, Operation.cancellationKey, if_pos hconnected, hi]
  have hpost : s.cancelOpsByKey o.socket t (key op) =
      (s.setQueue t o.socket ((s.queues t o.socket).filter
        (·.cancellationKey ≠ key op))).setStage op (.posted operationAborted) := by
    apply postAll_same
    · rw [ne_eq, List.map_eq_nil_iff, List.filter_eq_nil_iff]
      exact fun hnone => hnone r hr (decide_eq_true hkey)
    · intro r' hr'
      obtain ⟨r₀, hr₀, rfl⟩ := List.mem_map.mp hr'
      obtain ⟨hmem, hk⟩ := List.mem_filter.mp hr₀
      exact ⟨(hsame r₀ hmem).mp (of_decide_eq_true hk), rfl⟩
  rw [hpost]
  refine ⟨o, ho, .inr ⟨t, hentry.stage⟩, setStage_operations_self ho, ?_, ?_⟩
  · exact ⟨fun _ hm => setStage_operations_of_ne hm, fun _ _ => rfl⟩
  · refine h.dropQueue ho ⟨r, hr, hid⟩ (fun r' hr' hi => ?_) operationAborted
    exact decide_eq_false (not_not.mpr ((hsame r' hr').mpr hi))

theorem State.Coherent.emit (h : s.Coherent) (op : Nat) (type : CancellationType) :
    s.emit op type = s ∨ ∃ o, s.Cancels (s.emit op type) op o := by
  unfold State.emit
  split
  · exact .inl rfl
  · rename_i slot _
    split
    · split
      · rename_i opType _
        by_cases hfound : ∃ r ∈ s.queues opType slot.socket, r.cancellationKey = key op
        · obtain ⟨r, hr, hkey⟩ := hfound
          exact .inr (h.cancelOpsByKey hr hkey)
        · exact .inl (cancelOpsByKey_none fun r hr hk => hfound ⟨r, hr, hk⟩)
      · by_cases hmem : (slot.socket, .cancellation op) ∈ s.kernel
        · exact .inr (h.cancelIoEx hmem)
        · exact .inl (if_neg hmem)
    · exact .inl rfl

end Completions

/-! ### Submissions -/

section Submissions

variable {s s' : State} {op : Nat} {o : Operation} {t t' : OpType} {impl : Implementation}
  {env : Environment} {f : Initiation}

theorem systemCall_ne_reactor (result : Bool) (lastError : Nat) :
    systemCall result lastError ≠ .reactor t := by
  unfold systemCall
  split <;> exact Submission.noConfusion

theorem startReceiveOp_ne_reactor (noop : Bool) : startReceiveOp impl noop env ≠ .reactor t := by
  unfold startReceiveOp
  split
  · exact Submission.noConfusion
  · split
    · exact Submission.noConfusion
    · exact systemCall_ne_reactor _ _

theorem startReceiveFromOp_ne_reactor : startReceiveFromOp impl env ≠ .reactor t := by
  unfold startReceiveFromOp
  split
  · exact Submission.noConfusion
  · exact systemCall_ne_reactor _ _

theorem ofEffects_ne_reactor (effects : List Effect) : ofEffects effects ≠ .reactor t := by
  unfold ofEffects
  split
  · exact Submission.noConfusion
  · split <;> exact Submission.noConfusion

theorem reactorStartOp_cases : (∃ ec, reactorStartOp t env = .posted ec) ∨
    reactorStartOp t env = .reactor t := by
  unfold reactorStartOp
  split
  · exact .inl ⟨_, rfl⟩
  · exact .inr rfl

theorem startReactorOp_cases : (∃ ec, startReactorOp impl t env = .posted ec) ∨
    startReactorOp impl t env = .reactor t := by
  unfold startReactorOp
  split
  · exact reactorStartOp_cases
  · exact .inl ⟨_, rfl⟩

/-- An operation that the system has is not told to use the reactor, and one that a queue has is
told the type of the queue, unless it is a wait for errors. -/
structure Submits (f : Initiation) (start : Submission × Option OpType) : Prop where
  kernel : start.1 = .kernel → f ≠ .wait .waitError ∧ start.2 = none
  reactor : ∀ t, start.1 = .reactor t →
    (f = .wait .waitError → t = .except) ∧ start.2 = some (f.recorded t)

theorem submits_reactor {start : Submission} (hf : f ≠ .wait .waitError)
    (h : (∃ ec, start = .posted ec) ∨ start = .reactor t) : Submits f (start, some t) := by
  rcases h with ⟨ec, rfl⟩ | rfl
  · exact ⟨Submission.noConfusion, fun _ => Submission.noConfusion⟩
  · refine ⟨Submission.noConfusion, fun t' ht => ?_⟩
    cases ht
    exact ⟨fun h => absurd h hf, by rw [Initiation.recorded, if_neg hf]⟩

theorem submits_kernel {start : Submission} (hf : f ≠ .wait .waitError)
    (h : ∀ t, start ≠ .reactor t) : Submits f (start, none) :=
  ⟨fun _ => ⟨hf, rfl⟩, fun t ht => absurd ht (h t)⟩

theorem startNullBuffersReceiveOp_submits (hf : f ≠ .wait .waitError)
    (flags : ReactiveSocketService.MessageFlags) :
    Submits f (startNullBuffersReceiveOp impl flags env) := by
  unfold startNullBuffersReceiveOp
  split
  · exact submits_kernel hf fun _ => startReceiveOp_ne_reactor false
  · exact submits_reactor hf startReactorOp_cases

theorem startConnectOp_submits : Submits .connect (startConnectOp env) := by
  have hf : Initiation.connect ≠ .wait .waitError := Initiation.noConfusion
  unfold startConnectOp
  split
  · split
    · exact submits_kernel hf fun _ => systemCall_ne_reactor _ _
    · exact submits_kernel hf fun _ => Submission.noConfusion
  · split
    · exact submits_reactor hf reactorStartOp_cases
    · exact submits_kernel hf fun _ => Submission.noConfusion

theorem start_submits (f : Initiation) (impl : Implementation) (p : WinIocpAccept.Operation)
    (env : Environment) : Submits f (f.start impl p env) := by
  cases f with
  | wait w =>
    cases w with
    | waitRead => exact startNullBuffersReceiveOp_submits (by decide) 0
    | waitWrite => exact submits_reactor (by decide) startReactorOp_cases
    | waitError =>
      have hcases : (∃ ec, startReactorOp impl .except env = .posted ec) ∨
          startReactorOp impl .except env = .reactor .except := startReactorOp_cases
      dsimp only [Initiation.start]
      rcases hcases with ⟨ec, h⟩ | h
      · rw [h]
        exact ⟨Submission.noConfusion, fun _ => Submission.noConfusion⟩
      · rw [h]
        refine ⟨Submission.noConfusion, fun t ht => ?_⟩
        cases ht
        exact ⟨fun _ => rfl, by rw [Initiation.recorded, if_pos rfl]⟩
    | other n => exact submits_kernel (by simp) fun _ => Submission.noConfusion
  | receive allEmpty flags => exact submits_kernel (by simp) fun _ => startReceiveOp_ne_reactor _
  | receiveWithFlags flags => exact submits_kernel (by simp) fun _ => startReceiveOp_ne_reactor _
  | receiveFrom flags => exact submits_kernel (by simp) fun _ => startReceiveFromOp_ne_reactor
  | receiveNullBuffers flags => exact startNullBuffersReceiveOp_submits (by simp) flags
  | receiveWithFlagsNullBuffers flags => exact startNullBuffersReceiveOp_submits (by simp) flags
  | receiveFromNullBuffers flags => exact startNullBuffersReceiveOp_submits (by simp) flags
  | connect => exact startConnectOp_submits
  | accept peerIsOpen => exact submits_kernel (by simp) fun _ => ofEffects_ne_reactor _
  | moveAccept => exact submits_kernel (by simp) fun _ => ofEffects_ne_reactor _

theorem only_place (s : State) (op : Nat) (o : Operation) (p : Submission) :
    s.Only (s.place op o p) op := by
  cases p with
  | kernel => exact ⟨fun _ hm => setStage_operations_of_ne hm, fun _ _ => rfl⟩
  | reactor t => exact ⟨fun _ hm => setStage_operations_of_ne hm, fun _ _ => rfl⟩
  | posted ec => exact only_setStage

/-- What a submission puts in its place belongs there. -/
theorem State.Coherent.place (h : s.Coherent) (ho : s.operations op = some o)
    (hkernel : ∀ e ∈ s.kernel, e.2.op ≠ op) (hqueues : ∀ t d, ∀ r ∈ s.queues t d, r.id ≠ op)
    {p : Submission}
    (hplaced : p = .kernel → o.initiation ≠ .wait .waitError ∧ (o.connected = true →
      ∃ c, s.slots op = some ⟨o.socket, c⟩ ∧ ∀ t, c ≠ .reactorOp (some t)))
    (hqueued : ∀ t, p = .reactor t → (o.initiation = .wait .waitError → t = .except) ∧
      (o.connected = true →
        s.slots op = some ⟨o.socket, .reactorOp (some (o.initiation.recorded t))⟩)) :
    (s.place op o p).Coherent := by
  cases p with
  | kernel =>
    obtain ⟨hwait, hslot⟩ := hplaced rfl
    refine h.changed (only_place s op o .kernel) (fun e he => ?_)
      (fun t d r hr => .inl ⟨hr, hqueues t d r hr⟩) fun o' ho' => ?_
    · rcases List.mem_append.mp he with hold | hnew
      · exact .inl ⟨hold, hkernel e hold⟩
      · obtain rfl := List.mem_singleton.mp hnew
        refine .inr ⟨{ o with stage := .kernel }, ?_, rfl, ?_, hwait, ?_⟩
        · rw [overlapped_op]
          exact setStage_operations_self ho
        · rw [overlapped_op]
          rfl
        · rw [overlapped_op]
          exact hslot
    · cases (setStage_operations_self ho).symm.trans ho'
      refine (h.accepts op o ho).of_stage ?_ .kernel Stage.noConfusion fun _ => Stage.noConfusion
      rfl
  | reactor t =>
    obtain ⟨hwait, hslot⟩ := hqueued t rfl
    refine h.changed (only_place s op o (.reactor t)) (fun e he => .inl ⟨he, hkernel e he⟩)
      (fun t' d r hr => ?_) fun o' ho' => ?_
    · rcases mem_setQueue hr with hold | ⟨hr', rfl, rfl⟩
      · exact .inl ⟨hold, hqueues t' d r hold⟩
      · rcases List.mem_append.mp hr' with hold | hnew
        · exact .inl ⟨hold, hqueues t' _ r hold⟩
        · obtain rfl := List.mem_singleton.mp hnew
          exact .inr ⟨{ o with stage := .reactor t' }, setStage_operations_self ho, rfl, rfl, rfl,
            hwait, hslot⟩
    · cases (setStage_operations_self ho).symm.trans ho'
      refine (h.accepts op o ho).of_stage ?_ (.reactor t) Stage.noConfusion
        fun _ => Stage.noConfusion
      rfl
  | posted ec => exact h.post ho hkernel hqueues ec

theorem cancellation_ne (f : Initiation) (t : OpType) : f.cancellation ≠ .reactorOp (some t) := by
  cases f <;> simp [Initiation.cancellation]

theorem start_of_isAccept (hf : f.isAccept = true) (impl : Implementation)
    (p : WinIocpAccept.Operation) (env : Environment) : (f.start impl p env).2 = none := by
  cases f with
  | accept peerIsOpen => rfl
  | moveAccept => rfl
  | wait | receive | receiveNullBuffers | receiveWithFlags | receiveWithFlagsNullBuffers
  | receiveFrom | receiveFromNullBuffers | connect => exact absurd hf Bool.false_ne_true

theorem cancellation_of_isAccept (hf : f.isAccept = true) : f.cancellation = .acceptOp 0 := by
  cases f with
  | accept peerIsOpen => rfl
  | moveAccept => rfl
  | wait | receive | receiveNullBuffers | receiveWithFlags | receiveWithFlagsNullBuffers
  | receiveFrom | receiveFromNullBuffers | connect => exact absurd hf Bool.false_ne_true

/-- An operation that is new, with what has been put into its slot. -/
theorem State.Coherent.install (h : s.Coherent) (ho : s.operations op = none)
    (hstage : o.stage = .kernel) {c : Cancellation} {submission : Submission}
    (haccept : o.initiation.isAccept = true → c = .acceptOp 0)
    (hkernel : submission = .kernel →
      o.initiation ≠ .wait .waitError ∧ ∀ t, c ≠ .reactorOp (some t))
    (hreactor : ∀ t, submission = .reactor t → (o.initiation = .wait .waitError → t = .except) ∧
      c = .reactorOp (some (o.initiation.recorded t))) :
    ({ s with
      operations := Function.update s.operations op (some o)
      slots := Function.update s.slots op
        (if o.connected then some ⟨o.socket, c⟩ else none) }.place op o submission).Coherent := by
  let fresh : State := { s with
    operations := Function.update s.operations op (some o)
    slots := Function.update s.slots op (if o.connected then some ⟨o.socket, c⟩ else none) }
  have hslots : o.connected = true → fresh.slots op = some ⟨o.socket, c⟩ := by
    intro hconnected
    simp only [fresh, Function.update_self, hconnected, if_true]
  have hfresh : fresh.Coherent := by
    refine h.changed
      ⟨fun m hm => Function.update_of_ne hm .., fun m hm => Function.update_of_ne hm ..⟩
      (fun e he => .inl ⟨he, h.absent_kernel ho he⟩)
      (fun t d r hr => .inl ⟨hr, h.absent_queued ho hr⟩) fun o' ho' => ?_
    cases (Function.update_self op (some o) s.operations).symm.trans ho'
    refine ⟨fun hisAccept hconnected => ?_, ?_, ?_, ?_⟩
    · rw [hslots hconnected, haccept hisAccept]
    all_goals
      rw [hstage]
    · exact Stage.noConfusion
    · exact fun _ => Stage.noConfusion
    · exact fun _ => Stage.noConfusion
  refine hfresh.place (Function.update_self ..) (fun e he => h.absent_kernel ho he)
    (fun t d r hr => h.absent_queued ho hr) (fun hsubmission => ?_) fun t hsubmission => ?_
  · obtain ⟨hwait, hc⟩ := hkernel hsubmission
    exact ⟨hwait, fun hconnected => ⟨c, hslots hconnected, hc⟩⟩
  · obtain ⟨hwait, hc⟩ := hreactor t hsubmission
    exact ⟨hwait, fun hconnected => hc ▸ hslots hconnected⟩

theorem State.Coherent.initiate (h : s.Coherent) (ho : s.operations op = none)
    (connected : Bool) : (s.initiate op f connected impl env).Coherent := by
  refine h.install ho rfl (fun hisAccept => ?_) (fun hstart => ?_) fun t hstart => ?_
  · have haccept : f.isAccept = true := hisAccept
    simp only [start_of_isAccept haccept, cancellation_of_isAccept haccept]
  · obtain ⟨hwait, hnone⟩ := (start_submits f impl _ env).kernel hstart
    refine ⟨hwait, fun t => ?_⟩
    simp only [hnone]
    exact cancellation_ne f t
  · obtain ⟨hwait, hsome⟩ := (start_submits f impl _ env).reactor t hstart
    refine ⟨hwait, ?_⟩
    simp only [hsome]

end Submissions

/-! ### Runs -/

def Action.op : Action → Nat
  | .initiate op .. | .kernelCompletes op _ | .reactorPerforms op .. | .complete op _ | .check op
  | .submit op _ | .emit op _ => op

section Runs

variable {s s' : State} {op : Nat} {o : Operation} {a : Action} {ec : ErrorCode} {e : Finish}

theorem isAccept_of_finish (h : o.finish ec e = .aborted) : o.initiation.isAccept = true := by
  by_contra haccept
  rw [Operation.finish, if_neg haccept] at h
  cases h

theorem finish_ne_checked (f : Option Int) : o.finish ec e ≠ .checked f := by
  unfold Operation.finish
  split
  · dsimp only
    split <;> exact Stage.noConfusion
  · exact Stage.noConfusion

theorem step_coherent (h : s.Coherent) (hstep : step s a = some s') : s'.Coherent := by
  cases a with
  | initiate op f connected impl env =>
    rw [step, Option.ite_none_right_eq_some] at hstep
    obtain ⟨ho, hstep⟩ := hstep
    cases hstep
    exact h.initiate ho connected
  | kernelCompletes op ec =>
    obtain ⟨o, ho, hstep⟩ := Option.bind_eq_some_iff.mp hstep
    rw [Option.ite_none_right_eq_some] at hstep
    obtain ⟨hmem, hstep⟩ := hstep
    cases hstep
    exact h.dropKernel ho hmem ec
  | reactorPerforms op t ec =>
    obtain ⟨o, ho, hstep⟩ := Option.bind_eq_some_iff.mp hstep
    rw [Option.ite_none_right_eq_some, List.any_eq_true] at hstep
    obtain ⟨⟨r, hr, hid⟩, hstep⟩ := hstep
    cases hstep
    refine h.dropQueue ho ⟨r, hr, of_decide_eq_true hid⟩ (fun r' _ hi => ?_) ec
    exact decide_eq_false (not_not.mpr hi)
  | complete op e =>
    obtain ⟨o, ho, hstep⟩ := Option.bind_eq_some_iff.mp hstep
    split at hstep
    · rename_i ec hstage
      cases hstep
      refine h.setStage ho (fun e he => h.not_kernel ho ?_ he)
        (fun t d r hr => h.not_queued ho ?_ hr) isAccept_of_finish
        fun f hf => absurd hf (finish_ne_checked f)
      · rw [hstage]
        exact Stage.noConfusion
      · rw [hstage]
        exact fun _ => Stage.noConfusion
    · cases hstep
  | check op =>
    obtain ⟨o, ho, hstep⟩ := Option.bind_eq_some_iff.mp hstep
    rw [Option.ite_none_right_eq_some] at hstep
    obtain ⟨hstage, hstep⟩ := hstep
    cases hstep
    have haccept := (h.accepts op o ho).aborted hstage
    refine h.setStage ho (fun e he => h.not_kernel ho ?_ he) (fun t d r hr => h.not_queued ho ?_ hr)
      Stage.noConfusion fun f hf => ⟨haccept, fun hconnected => ?_⟩
    · rw [hstage]
      exact Stage.noConfusion
    · rw [hstage]
      exact fun _ => Stage.noConfusion
    · cases hf
      rw [State.cancelRequested, (h.accepts op o ho).slot haccept hconnected]
      rfl
  | submit op attempt =>
    obtain ⟨o, ho, hstep⟩ := Option.bind_eq_some_iff.mp hstep
    split at hstep
    · rename_i first hstage
      cases hstep
      have haccept := (h.accepts op o ho).checked first hstage
      refine h.place ho (fun e he => h.not_kernel ho ?_ he) (fun t d r hr => h.not_queued ho ?_ hr)
        (fun _ => ⟨?_, fun hconnected => ?_⟩) fun t ht => absurd ht (ofEffects_ne_reactor _)
      · rw [hstage]
        exact Stage.noConfusion
      · rw [hstage]
        exact fun _ => Stage.noConfusion
      · intro hwait
        rw [hwait] at haccept
        cases haccept
      · exact ⟨_, (h.accepts op o ho).slot haccept hconnected, fun _ => Cancellation.noConfusion⟩
    · cases hstep
  | emit op type =>
    cases hstep
    rcases h.emit op type with heq | ⟨o, hcancels⟩
    · rw [heq]
      exact h
    · exact hcancels.coherent

theorem reachable_coherent (h : Reachable step (fun _ _ => True) initial s) : s.Coherent := by
  refine h.invariant ⟨?_, ?_, ?_⟩ fun hc _ hstep => step_coherent hc hstep
  · rintro e ⟨⟩
  · rintro t d r ⟨⟩
  · rintro op o ⟨⟩

theorem State.Only.trans {s₁ : State} (h : s.Only s₁ op) (h' : s₁.Only s' op) : s.Only s' op :=
  ⟨fun m hm => (h'.operations m hm).trans (h.operations m hm),
    fun m hm => (h'.slots m hm).trans (h.slots m hm)⟩

theorem step_only (h : s.Coherent) (hstep : step s a = some s') : s.Only s' a.op := by
  cases a with
  | initiate op f connected impl env =>
    rw [step, Option.ite_none_right_eq_some] at hstep
    obtain ⟨-, hstep⟩ := hstep
    cases hstep
    refine State.Only.trans ?_ (only_place _ op _ _)
    exact ⟨fun m hm => Function.update_of_ne hm .., fun m hm => Function.update_of_ne hm ..⟩
  | kernelCompletes op ec =>
    obtain ⟨o, -, hstep⟩ := Option.bind_eq_some_iff.mp hstep
    rw [Option.ite_none_right_eq_some] at hstep
    obtain ⟨-, hstep⟩ := hstep
    cases hstep
    exact ⟨fun _ hm => setStage_operations_of_ne hm, fun _ _ => rfl⟩
  | reactorPerforms op t ec =>
    obtain ⟨o, -, hstep⟩ := Option.bind_eq_some_iff.mp hstep
    rw [Option.ite_none_right_eq_some] at hstep
    obtain ⟨-, hstep⟩ := hstep
    cases hstep
    exact ⟨fun _ hm => setStage_operations_of_ne hm, fun _ _ => rfl⟩
  | complete op e =>
    obtain ⟨o, -, hstep⟩ := Option.bind_eq_some_iff.mp hstep
    split at hstep
    · cases hstep
      exact only_setStage
    · cases hstep
  | check op =>
    obtain ⟨o, -, hstep⟩ := Option.bind_eq_some_iff.mp hstep
    rw [Option.ite_none_right_eq_some] at hstep
    obtain ⟨-, hstep⟩ := hstep
    cases hstep
    exact only_setStage
  | submit op attempt =>
    obtain ⟨o, -, hstep⟩ := Option.bind_eq_some_iff.mp hstep
    split at hstep
    · cases hstep
      exact only_place s op o _
    · cases hstep
  | emit op type =>
    cases hstep
    rcases h.emit op type with heq | ⟨o, hcancels⟩
    · rw [heq]
      exact ⟨fun _ _ => rfl, fun _ _ => rfl⟩
    · exact hcancels.only

/-- The completion of the operation with `operation_aborted` is on its way, or has been seen by its
handler. -/
def State.Aborted (s : State) (op : Nat) : Prop :=
  ∃ o, s.operations op = some o ∧
    (o.stage = .posted operationAborted ∨ o.stage = .invoked operationAborted)

theorem completeIocpRecvfrom_operationAborted (expired : Bool) :
    completeIocpRecvfrom expired operationAborted = operationAborted := by
  rw [completeIocpRecvfrom, if_neg (by decide), portable, if_neg (by decide), if_neg (by decide)]

theorem completeIocpConnect_operationAborted (updateContext : ErrorCode) :
    completeIocpConnect operationAborted updateContext = operationAborted := by
  simp only [completeIocpConnect]
  rw [if_neg (by decide), if_neg (by decide), if_neg (by decide), if_neg (by decide),
    if_neg (by decide)]

theorem portable_operationAborted (expired : Bool) :
    portable expired operationAborted = operationAborted := by
  rw [portable, if_neg (by decide), if_neg (by decide)]

theorem completeIocpRecv_operationAborted (streamOriented expired allEmpty : Bool)
    (bytesTransferred : Nat) :
    completeIocpRecv streamOriented expired allEmpty operationAborted bytesTransferred =
      operationAborted := by
  have hvalue : operationAborted.value ≠ 0 := by decide
  rw [completeIocpRecv, if_neg fun h => hvalue h.1]
  exact completeIocpRecvfrom_operationAborted expired

theorem complete_operationAborted (o : Operation) (e : Finish) :
    o.complete operationAborted e = operationAborted := by
  cases hf : o.initiation with
  | receive allEmpty flags =>
    simp only [Operation.complete, hf]
    exact completeIocpRecv_operationAborted ..
  | receiveWithFlags flags =>
    simp only [Operation.complete, hf]
    exact completeIocpRecvfrom_operationAborted e.expired
  | receiveFrom flags =>
    simp only [Operation.complete, hf]
    exact completeIocpRecvfrom_operationAborted e.expired
  | connect =>
    simp only [Operation.complete, hf, completeIocpConnect_operationAborted, ite_self]
  | wait | receiveNullBuffers | receiveWithFlagsNullBuffers | receiveFromNullBuffers | accept
  | moveAccept =>
    simp only [Operation.complete, hf]
    exact portable_operationAborted e.expired

/-- No operation takes `operation_aborted` for something else. -/
theorem finish_operationAborted (o : Operation) (e : Finish) :
    o.finish operationAborted e = .invoked operationAborted := by
  unfold Operation.finish
  split
  · have haborted : completeIocpAccept operationAborted e.updateContext = operationAborted := by
      simp only [completeIocpAccept]
      rw [if_neg (by decide), if_neg (by decide)]
    have hrestarts : o.restarts operationAborted = false := by
      rw [Operation.restarts, show decide (operationAborted = connectionAborted) = false by decide,
        Bool.and_false, Bool.false_and]
    simp only [haborted, hrestarts, Bool.false_eq_true, if_false]
    rw [if_neg (by decide)]
  · rw [complete_operationAborted]

theorem step_aborted (hcoherent : s.Coherent) (h : s.Aborted op) (hstep : step s a = some s') :
    s'.Aborted op := by
  obtain ⟨o, ho, hstage⟩ := h
  have hkernel : o.stage ≠ .kernel := by
    rcases hstage with hstage | hstage <;> rw [hstage] <;> exact Stage.noConfusion
  have hreactor (t : OpType) : o.stage ≠ .reactor t := by
    rcases hstage with hstage | hstage <;> rw [hstage] <;> exact Stage.noConfusion
  by_cases hop : op = a.op
  · obtain rfl := hop
    cases a with
    | initiate op f connected impl env =>
      rw [step, Option.ite_none_right_eq_some] at hstep
      cases ho.symm.trans hstep.1
    | kernelCompletes op ec =>
      obtain ⟨o', ho', hstep⟩ := Option.bind_eq_some_iff.mp hstep
      cases ho.symm.trans ho'
      rw [Option.ite_none_right_eq_some] at hstep
      exact absurd (overlapped_op o _) (hcoherent.not_kernel ho hkernel hstep.1)
    | reactorPerforms op t ec =>
      obtain ⟨o', ho', hstep⟩ := Option.bind_eq_some_iff.mp hstep
      rw [Option.ite_none_right_eq_some, List.any_eq_true] at hstep
      obtain ⟨⟨r, hr, hid⟩, -⟩ := hstep
      exact absurd (of_decide_eq_true hid) (hcoherent.not_queued ho hreactor hr)
    | complete op e =>
      obtain ⟨o', ho', hstep⟩ := Option.bind_eq_some_iff.mp hstep
      cases ho.symm.trans ho'
      rcases hstage with hstage | hstage
      · rw [hstage] at hstep
        cases hstep
        exact ⟨_, setStage_operations_self ho, .inr (finish_operationAborted o e)⟩
      · rw [hstage] at hstep
        cases hstep
    | check op =>
      obtain ⟨o', ho', hstep⟩ := Option.bind_eq_some_iff.mp hstep
      cases ho.symm.trans ho'
      rw [Option.ite_none_right_eq_some] at hstep
      rcases hstage with hstage | hstage
      · cases hstage.symm.trans hstep.1
      · cases hstage.symm.trans hstep.1
    | submit op attempt =>
      obtain ⟨o', ho', hstep⟩ := Option.bind_eq_some_iff.mp hstep
      cases ho.symm.trans ho'
      rcases hstage with hstage | hstage
      · rw [hstage] at hstep
        cases hstep
      · rw [hstage] at hstep
        cases hstep
    | emit op type =>
      cases hstep
      rcases hcoherent.emit _ type with heq | ⟨o', hcancels⟩
      · rw [heq]
        exact ⟨o, ho, hstage⟩
      · exact ⟨_, hcancels.posted, .inl rfl⟩
  · exact ⟨o, ((step_only hcoherent hstep).operations op hop).trans ho, hstage⟩

/-- An accept whose connection was aborted, until it is submitted again. -/
def State.Between (s : State) (op : Nat) : Prop :=
  ∃ o, s.operations op = some o ∧ o.initiation.isAccept = true ∧
    (o.stage = .aborted ∨ (∃ f, o.stage = .checked f) ∨
      ∃ ec, o.stage = .posted ec ∧ (ec.value = netnameDeleted ∨ ec = connectionAborted) ∧
        o.enableConnectionAborted = false)

/-- Whatever happens, the operation does not stay where it waits, and it completes with
`operation_aborted`. -/
def State.Aborts (s : State) (op : Nat) : Prop :=
  ∀ s', Reachable step (fun _ _ => True) s s' → ¬s'.Between op → s'.Aborted op

theorem State.Cancels.aborts (h : s.Cancels s' op o) : s'.Aborts op := by
  intro s₁ hreach _
  have hinvariant : s₁.Coherent ∧ s₁.Aborted op := by
    refine Reachable.invariant hreach
      (I := fun s => s.Coherent ∧ s.Aborted op) ⟨h.coherent, _, h.posted, .inl rfl⟩ ?_
    rintro s₂ a s₃ ⟨hcoherent, haborted⟩ - hstep
    exact ⟨step_coherent hcoherent hstep, step_aborted hcoherent haborted hstep⟩
  exact hinvariant.2

theorem reachable_next (hstep : step s a = some s') :
    Reachable step (fun _ _ => True) s s' :=
  .step .start trivial hstep

/-- The restart, when nothing has set the flag. -/
theorem restarted_of_aborted (h : s.Coherent) (ho : s.operations op = some o)
    (hconnected : o.connected = true) (hstage : o.stage = .aborted) :
    ∃ s' o', Reachable step (fun _ _ => True) s s' ∧ s'.operations op = some o' ∧
      o'.stage = .checked (some 0) ∧ o'.connected = true := by
  have hslot := (h.accepts op o ho).slot ((h.accepts op o ho).aborted hstage) hconnected
  have hflag : s.cancelRequested op = some 0 := by
    rw [State.cancelRequested, hslot]
    rfl
  have hstep : step s (.check op) = some (s.setStage op (.checked (some 0))) := by
    rw [step, ho, Option.bind_some, if_pos hstage, hflag]
  exact ⟨_, _, reachable_next hstep, setStage_operations_self ho, rfl, hconnected⟩

theorem submitted_of_checked (h : s.Coherent) (ho : s.operations op = some o)
    (hconnected : o.connected = true) {f : Option Int} (hstage : o.stage = .checked f) :
    ∃ s' o', Reachable step (fun _ _ => True) s s' ∧ s'.operations op = some o' ∧
      o'.stage = .kernel := by
  have haccepts := h.accepts op o ho
  have hslot := haccepts.slot (haccepts.checked f hstage) hconnected
  obtain rfl := haccepts.flag f hstage hconnected
  have hflag : s.cancelRequested op = some 0 := by
    rw [State.cancelRequested, hslot]
    rfl
  have hstep : step s (.submit op WinIocpAccept.taken) = some (s.place op o .kernel) := by
    rw [step, ho, Option.bind_some, hstage]
    dsimp only
    rw [hflag]
    rfl
  exact ⟨_, _, reachable_next hstep, setStage_operations_self ho, rfl⟩

theorem aborted_of_posted (ho : s.operations op = some o)
    (haccept : o.initiation.isAccept = true) (hstage : o.stage = .posted ec)
    (hec : ec.value = netnameDeleted ∨ ec = connectionAborted)
    (henable : o.enableConnectionAborted = false) :
    ∃ s' o', Reachable step (fun _ _ => True) s s' ∧ s'.operations op = some o' ∧
      o'.stage = .aborted ∧ o'.connected = o.connected := by
  have hmapped : completeIocpAccept ec ec = connectionAborted := by
    rcases hec with hvalue | rfl
    · simp only [completeIocpAccept, hvalue, if_true]
      rw [if_neg (by decide)]
    · rfl
  have hfinish : o.finish ec ⟨ec, ec, false, 0⟩ = .aborted := by
    rw [Operation.finish, if_pos haccept]
    dsimp only
    rw [hmapped, Operation.restarts, haccept, henable]
    rfl
  have hstep : step s (.complete op ⟨ec, ec, false, 0⟩) = some (s.setStage op .aborted) := by
    rw [step, ho, Option.bind_some, hstage]
    dsimp only
    rw [hfinish]
  exact ⟨_, _, reachable_next hstep, setStage_operations_self ho, rfl, rfl⟩

/-- The restart of an accept can leave it with the system. -/
theorem State.Between.submitted (h : s.Coherent) (hb : s.Between op)
    (hconnected : ∀ o, s.operations op = some o → o.connected = true) :
    ∃ s' o', Reachable step (fun _ _ => True) s s' ∧ s'.operations op = some o' ∧
      o'.stage = .kernel := by
  obtain ⟨o, ho, haccept, hstage⟩ := hb
  have hfromAborted {s₁ : State} {o₁ : Operation} (h₁ : s₁.Coherent)
      (ho₁ : s₁.operations op = some o₁) (hc₁ : o₁.connected = true) (hs₁ : o₁.stage = .aborted) :
      ∃ s' o', Reachable step (fun _ _ => True) s₁ s' ∧ s'.operations op = some o' ∧
        o'.stage = .kernel := by
    obtain ⟨s₂, o₂, hreach, ho₂, hs₂, hc₂⟩ := restarted_of_aborted h₁ ho₁ hc₁ hs₁
    have h₂ : s₂.Coherent := hreach.invariant h₁ fun hc _ hstep => step_coherent hc hstep
    obtain ⟨s₃, o₃, hreach', hrest⟩ := submitted_of_checked h₂ ho₂ hc₂ hs₂
    exact ⟨s₃, o₃, hreach.trans hreach', hrest⟩
  rcases hstage with hstage | ⟨f, hstage⟩ | ⟨ec, hstage, hec, henable⟩
  · exact hfromAborted h ho (hconnected o ho) hstage
  · exact submitted_of_checked h ho (hconnected o ho) hstage
  · obtain ⟨s₁, o₁, hreach, ho₁, hs₁, hc₁⟩ := aborted_of_posted ho haccept hstage hec henable
    have h₁ : s₁.Coherent := hreach.invariant h fun hc _ hstep => step_coherent hc hstep
    obtain ⟨s₂, o₂, hreach', hrest⟩ := hfromAborted h₁ ho₁ (hc₁.trans (hconnected o ho)) hs₁
    exact ⟨s₂, o₂, hreach.trans hreach', hrest⟩

def State.InKernel (s : State) (op : Nat) : Prop := ∃ e ∈ s.kernel, e.2.op = op

def State.InReactor (s : State) (op : Nat) : Prop := ∃ t d, ∃ r ∈ s.queues t d, r.id = op

theorem not_aborted_of_stage (ho : s.operations op = some o)
    (hposted : o.stage ≠ .posted operationAborted)
    (hinvoked : o.stage ≠ .invoked operationAborted) :
    ¬s.Aborted op := by
  rintro ⟨o', ho', hstage⟩
  cases ho.symm.trans ho'
  rcases hstage with hstage | hstage
  · exact hposted hstage
  · exact hinvoked hstage

theorem not_between_of_stage (ho : s.operations op = some o) (haborted : o.stage ≠ .aborted)
    (hchecked : ∀ f, o.stage ≠ .checked f) (hposted : ∀ ec, o.stage ≠ .posted ec) :
    ¬s.Between op := by
  rintro ⟨o', ho', -, hstage⟩
  cases ho.symm.trans ho'
  rcases hstage with hstage | ⟨f, hstage⟩ | ⟨ec, hstage, -⟩
  · exact haborted hstage
  · exact hchecked f hstage
  · exact hposted ec hstage

variable {type : CancellationType}

/-- A signal is without effect on an operation that waits for errors. -/
theorem emit_waitError (h : s.Coherent) {t : OpType} {d : Nat} {r : ReactorOp}
    (hr : r ∈ s.queues t d) (ho : s.operations r.id = some o) (hconnected : o.connected = true)
    (hwait : o.initiation = .wait .waitError) : s.emit r.id type = s := by
  obtain ⟨o', hentry⟩ := h.queues t d r hr
  cases ho.symm.trans hentry.operation
  have hrecorded : o.initiation.recorded t = .read := by
    rw [Initiation.recorded, if_pos hwait]
  rw [State.emit, hentry.slot hconnected, hrecorded]
  dsimp only
  split
  · apply cancelOpsByKey_none
    intro r' hr' hk
    obtain ⟨o', hentry'⟩ := h.queues .read _ r' hr'
    have hid := (cancellationKey_eq_key (hentry'.key.symm.trans hk)).2
    cases ho.symm.trans (hid ▸ hentry'.operation)
    cases hentry'.waitError hwait
  · rfl

/-- A signal is without effect on an accept that is between two submissions. -/
theorem emit_between (h : s.Coherent) (hb : s.Between op) (ho : s.operations op = some o)
    (hconnected : o.connected = true) : s.emit op type = s := by
  obtain ⟨o', ho', haccept, hstage⟩ := hb
  cases ho.symm.trans ho'
  have hkernel : o.stage ≠ .kernel := by
    rcases hstage with hstage | ⟨f, hstage⟩ | ⟨ec, hstage, -⟩
    · rw [hstage]
      exact Stage.noConfusion
    · rw [hstage]
      exact Stage.noConfusion
    · rw [hstage]
      exact Stage.noConfusion
  rw [State.emit, (h.accepts op o ho).slot haccept hconnected]
  dsimp only
  split
  · exact if_neg fun hmem => h.not_kernel ho hkernel hmem rfl
  · rfl

theorem emit_kernel (h : s.Coherent) (hin : s.InKernel op) (ho : s.operations op = some o)
    (hconnected : o.connected = true)
    (htype : type &&& (terminal ||| partialCancellation ||| total) ≠ 0) :
    ∃ o, s.Cancels (s.emit op type) op o := by
  obtain ⟨e, he, rfl⟩ := hin
  obtain ⟨o', hentry⟩ := h.kernel e he
  cases ho.symm.trans hentry.operation
  obtain ⟨c, hslot, hc⟩ := hentry.slot hconnected
  have hmem : (o.socket, .cancellation e.2.op) ∈ s.kernel := by
    have heq := hentry.entry
    rw [Operation.overlapped, if_pos hconnected] at heq
    rwa [← heq]
  rw [State.emit, hslot]
  dsimp only
  rw [if_pos htype]
  cases c with
  | iocpOp => exact h.cancelIoEx hmem
  | acceptOp flag => exact h.cancelIoEx hmem
  | reactorOp useReactor =>
    cases useReactor with
    | none => exact h.cancelIoEx hmem
    | some t => exact absurd rfl (hc t)

theorem emit_reactor (h : s.Coherent) (hin : s.InReactor op) (ho : s.operations op = some o)
    (hconnected : o.connected = true) (hwait : o.initiation ≠ .wait .waitError)
    (htype : type &&& (terminal ||| partialCancellation ||| total) ≠ 0) :
    ∃ o, s.Cancels (s.emit op type) op o := by
  obtain ⟨t, d, r, hr, rfl⟩ := hin
  obtain ⟨o', hentry⟩ := h.queues t d r hr
  cases ho.symm.trans hentry.operation
  have hrecorded : o.initiation.recorded t = t := by
    rw [Initiation.recorded, if_neg hwait]
  have hkey : r.cancellationKey = key r.id := by
    rw [hentry.key, Operation.cancellationKey, if_pos hconnected]
  rw [State.emit, hentry.slot hconnected, hrecorded]
  dsimp only
  rw [if_pos htype]
  exact h.cancelOpsByKey (hentry.descriptor ▸ hr) hkey

theorem not_aborts_of_waitError (h : s.Coherent) {t : OpType} {d : Nat} {r : ReactorOp}
    (hr : r ∈ s.queues t d) (ho : s.operations r.id = some o) (hconnected : o.connected = true)
    (hwait : o.initiation = .wait .waitError) : ¬(s.emit r.id type).Aborts r.id := by
  rw [emit_waitError h hr ho hconnected hwait]
  intro haborts
  obtain ⟨o', hentry⟩ := h.queues t d r hr
  cases ho.symm.trans hentry.operation
  have hbetween : ¬s.Between r.id := by
    refine not_between_of_stage ho ?_ ?_ ?_
    all_goals
      rw [hentry.stage]
      simp
  refine not_aborted_of_stage ho ?_ ?_ (haborts s .start hbetween)
  · rw [hentry.stage]
    exact Stage.noConfusion
  · rw [hentry.stage]
    exact Stage.noConfusion

theorem not_aborts_of_between (h : s.Coherent) (hb : s.Between op) (ho : s.operations op = some o)
    (hconnected : o.connected = true) : ¬(s.emit op type).Aborts op := by
  rw [emit_between h hb ho hconnected]
  intro haborts
  obtain ⟨s', o', hreach, ho', hstage⟩ := hb.submitted h fun o' ho' => by
    cases ho.symm.trans ho'
    exact hconnected
  refine not_aborted_of_stage ho' ?_ ?_ (haborts s' hreach (not_between_of_stage ho' ?_ ?_ ?_))
  all_goals
    rw [hstage]
    simp

/-- A signal to the slot of an operation that waits has it completed with `operation_aborted`,
except for a wait for errors and for an accept that has been aborted and is not yet submitted
again. -/
theorem aborts_iff (h : Reachable step (fun _ _ => True) initial s)
    (ho : s.operations op = some o) (hconnected : o.connected = true)
    (htype : type &&& (terminal ||| partialCancellation ||| total) ≠ 0)
    (hwaits : s.InKernel op ∨ s.InReactor op ∨ s.Between op) :
    (s.emit op type).Aborts op ↔ o.initiation ≠ .wait .waitError ∧ ¬s.Between op := by
  have hcoherent := reachable_coherent h
  constructor
  · intro haborts
    have hbetween : ¬s.Between op := fun hb =>
      not_aborts_of_between hcoherent hb ho hconnected haborts
    refine ⟨fun hwait => ?_, hbetween⟩
    rcases hwaits with ⟨e, he, rfl⟩ | ⟨t, d, r, hr, rfl⟩ | hb
    · obtain ⟨o', hentry⟩ := hcoherent.kernel e he
      cases ho.symm.trans hentry.operation
      exact hentry.noWaitError hwait
    · exact not_aborts_of_waitError hcoherent hr ho hconnected hwait haborts
    · exact hbetween hb
  · rintro ⟨hwait, hbetween⟩
    rcases hwaits with hin | hin | hb
    · obtain ⟨o', hcancels⟩ := emit_kernel hcoherent hin ho hconnected htype
      exact hcancels.aborts
    · obtain ⟨o', hcancels⟩ := emit_reactor hcoherent hin ho hconnected hwait htype
      exact hcancels.aborts
    · exact absurd hb hbetween

end Runs

/-- The system takes what it is asked to do. -/
def willing : Environment :=
  ⟨WinIocpAccept.taken, false, true, true, ⟨.system, 0⟩, true, true, ⟨.system, 0⟩⟩

/-- A stream socket that is open. -/
def stream : Implementation := ⟨5, true, false⟩

/-- One operation has been started on it, with a connected slot. -/
def started (f : Initiation) : State := initial.initiate 0 f true stream willing

theorem started_reaches (f : Initiation) :
    Reachable step (fun _ _ => True) initial (started f) := by
  have hstep : step initial (.initiate 0 f true stream willing) = some (started f) := by
    have hnone : initial.operations 0 = none := rfl
    rw [step, if_pos hnone, started]
  exact reachable_next hstep

theorem aborts_receive : ((started (.receive false 0)).emit 0 terminal).Aborts 0 :=
  (aborts_iff (started_reaches (.receive false 0)) rfl rfl (by decide)
    (.inl ⟨(5, .cancellation 0), List.mem_singleton_self _, rfl⟩)).mpr
      ⟨Initiation.noConfusion, not_between_of_stage rfl Stage.noConfusion
        (fun _ => Stage.noConfusion) fun _ => Stage.noConfusion⟩

/-- The system has completed the accept with `connection_aborted`. -/
def abortedAccept : State :=
  { started (.accept false) with kernel := [] }.setStage 0 (.posted connectionAborted)

theorem abortedAccept_reaches : Reachable step (fun _ _ => True) initial abortedAccept := by
  have hstep : step (started (.accept false)) (.kernelCompletes 0 connectionAborted) =
      some abortedAccept := rfl
  exact (started_reaches (.accept false)).trans (reachable_next hstep)

/-- A wait for errors stays in the reactor, and an accept is submitted again. -/
theorem signals_lost :
    (Reachable step (fun _ _ => True) initial (started (.wait .waitError)) ∧
      (started (.wait .waitError)).InReactor 0 ∧
      ¬((started (.wait .waitError)).emit 0 terminal).Aborts 0) ∧
    Reachable step (fun _ _ => True) initial abortedAccept ∧ abortedAccept.Between 0 ∧
      ¬(abortedAccept.emit 0 terminal).Aborts 0 := by
  have hqueued : ⟨0, 0, key 0, 0⟩ ∈ (started (.wait .waitError)).queues .except 5 :=
    List.mem_singleton_self _
  have hbetween : abortedAccept.Between 0 :=
    ⟨_, rfl, rfl, .inr (.inr ⟨_, rfl, .inr rfl, rfl⟩)⟩
  refine ⟨⟨started_reaches _, ⟨.except, 5, _, hqueued, rfl⟩, ?_⟩, abortedAccept_reaches, hbetween,
    ?_⟩
  · exact not_aborts_of_waitError (reachable_coherent (started_reaches _)) hqueued rfl rfl rfl
  · exact not_aborts_of_between (reachable_coherent abortedAccept_reaches) hbetween rfl rfl

end Asio.Detail.WinIocpCancellation
