import Asio.Detail.EpollReactorCancellation
import Asio.Detail.EpollReactorRuns
import Asio.Detail.ReactiveSocketService

/-! A signal that is emitted to the slot of a handler cancels one operation. -/

universe u v w

namespace Asio.Detail.ReactiveSocketService

open Epoll

/-- A call of an initiating function. -/
inductive Initiation
  | wait (w : WaitType)
  | send (allEmpty : Bool) (flags : MessageFlags)
  | sendNullBuffers (flags : MessageFlags)
  | sendTo (flags : MessageFlags)
  | sendToNullBuffers (flags : MessageFlags)
  | receive (allEmpty : Bool) (flags : MessageFlags)
  | receiveNullBuffers (flags : MessageFlags)
  | receiveWithFlags (flags : MessageFlags)
  | receiveWithFlagsNullBuffers (flags : MessageFlags)
  | receiveFrom (flags : MessageFlags)
  | receiveFromNullBuffers (flags : MessageFlags)
  | accept (peerIsOpen : Bool)
  | moveAccept
  | connect

variable {ι : Type u} {δ : Type v} [DecidableEq ι] [DecidableEq δ]

namespace Initiation

def run (f : Initiation) (s : State ι δ) (impl : ι) (h : Handler) (env : Environment) :
    State ι δ :=
  match f with
  | wait w => s.asyncWait impl w h env
  | send allEmpty flags => s.asyncSend impl allEmpty flags h env
  | sendNullBuffers flags => s.asyncSendNullBuffers impl flags h env
  | sendTo flags => s.asyncSendTo impl flags h env
  | sendToNullBuffers flags => s.asyncSendToNullBuffers impl flags h env
  | receive allEmpty flags => s.asyncReceive impl allEmpty flags h env
  | receiveNullBuffers flags => s.asyncReceiveNullBuffers impl flags h env
  | receiveWithFlags flags => s.asyncReceiveWithFlags impl flags h env
  | receiveWithFlagsNullBuffers flags => s.asyncReceiveWithFlagsNullBuffers impl flags h env
  | receiveFrom flags => s.asyncReceiveFrom impl flags h env
  | receiveFromNullBuffers flags => s.asyncReceiveFromNullBuffers impl flags h env
  | accept peerIsOpen => s.asyncAccept impl peerIsOpen h env
  | moveAccept => s.asyncMoveAccept impl h env
  | connect => s.asyncConnect impl h env

/-- A receive operation with `message_out_of_band` among its flags. -/
def OutOfBandReceive : Initiation → Bool
  | receive _ flags | receiveNullBuffers flags | receiveWithFlags flags
  | receiveWithFlagsNullBuffers flags | receiveFrom flags | receiveFromNullBuffers flags =>
    OutOfBand flags
  | wait _ | send _ _ | sendNullBuffers _ | sendTo _ | sendToNullBuffers _ | accept _ | moveAccept
  | connect => false

end Initiation

/-! ### Where an operation waits -/

section Queues

variable {s s' : State ι δ} {impl : ι} {t : OpType} {op : ReactorOp} {env : Environment}

/-- No operation joins a queue, except that `op` joins one of its type on the descriptor of
`impl`. -/
structure Enqueues (s s' : State ι δ) (impl : ι) (t : OpType) (op : ReactorOp) : Prop where
  slots : s'.slots = s.slots
  mem : ∀ {d t' op'}, op' ∈ (s'.descriptors d).opQueue t' → op' ∈ (s.descriptors d).opQueue t' ∨
    ((s.impls impl).reactorData = some d ∧ t' = t ∧ op'.identity = op.identity)

omit [DecidableEq ι] [DecidableEq δ] in
theorem Enqueues.of_eq (hslots : s'.slots = s.slots)
    (hdescriptors : s'.descriptors = s.descriptors) : Enqueues s s' impl t op where
  slots := hslots
  mem h := Or.inl (hdescriptors ▸ h)

omit [DecidableEq ι] [DecidableEq δ] in
theorem enqueues_post {op' : ReactorOp} {route : Route} :
    Enqueues s (s.post op' route) impl t op :=
  .of_eq rfl rfl

omit [DecidableEq ι] in
theorem enqueues_reactorStartOp {isContinuation allowSpeculative : Bool} {op' : ReactorOp}
    (hid : op'.identity = op.identity) :
    Enqueues s (s.reactorStartOp t (s.impls impl).reactorData op' isContinuation allowSpeculative
      env) impl t op := by
  cases hdata : (s.impls impl).reactorData with
  | none => exact enqueues_post
  | some d =>
    have hstarts := @DescriptorState.startOp_starts (s.descriptors d) t op' allowSpeculative env.outcome
      env.epollCtl
    simp only [State.reactorStartOp]
    generalize (s.descriptors d).startOp t op' allowSpeculative env.outcome env.epollCtl = result
      at hstarts
    have hmem {d' t' op''} (h : op'' ∈ (Function.update s.descriptors d result.data d').opQueue t') :
        op'' ∈ (s.descriptors d').opQueue t' ∨
          ((s.impls impl).reactorData = some d' ∧ t' = t ∧ op''.identity = op.identity) := by
      by_cases hd : d' = d
      · subst hd
        rw [Function.update_self] at h
        cases hposted : result.posted with
        | some op₁ =>
          rw [(hstarts.posted op₁ hposted).2.1] at h
          exact Or.inl h
        | none =>
          obtain ⟨-, op₁, hid₁, hqueue⟩ := hstarts.waits hposted
          rw [hqueue] at h
          by_cases ht : t' = t
          · subst ht
            rw [Function.update_self, List.mem_append, List.mem_singleton] at h
            rcases h with h | rfl
            · exact Or.inl h
            · exact Or.inr ⟨hdata, rfl, hid₁.trans hid⟩
          · rw [Function.update_of_ne ht] at h
            exact Or.inl h
      · rw [Function.update_of_ne hd] at h
        exact Or.inl h
    cases result.posted with
    | some op₁ => exact ⟨rfl, hmem⟩
    | none => exact ⟨rfl, hmem⟩

omit [DecidableEq δ] in
theorem setInternalNonBlocking_ok (h : s.setInternalNonBlocking impl op env = .ok s') :
    s'.slots = s.slots ∧ s'.descriptors = s.descriptors ∧
      (s'.impls impl).reactorData = (s.impls impl).reactorData := by
  unfold State.setInternalNonBlocking at h
  split at h
  · cases h
    exact ⟨rfl, rfl, rfl⟩
  · split at h
    · cases h
      refine ⟨rfl, rfl, ?_⟩
      simp only [Function.update_self]
    · cases h

omit [DecidableEq δ] in
theorem Enqueues.after_nonBlocking {mid : State ι δ}
    (h : s.setInternalNonBlocking impl op env = .ok mid) (hmid : Enqueues mid s' impl t op) :
    Enqueues s s' impl t op := by
  obtain ⟨hslots, hdescriptors, hdata⟩ := setInternalNonBlocking_ok h
  refine ⟨hmid.slots.trans hslots, fun hop => ?_⟩
  rw [← hdescriptors, ← hdata]
  exact hmid.mem hop

theorem enqueues_startOp {isContinuation isNonBlocking noop : Bool} :
    Enqueues s (s.startOp impl t op isContinuation isNonBlocking noop env) impl t op := by
  rw [State.startOp]
  split
  · exact enqueues_post
  · split
    · rename_i hok
      exact .after_nonBlocking hok (enqueues_reactorStartOp rfl)
    · exact enqueues_post

theorem enqueues_startAcceptOp {isContinuation : Bool} :
    Enqueues s (s.startAcceptOp impl op isContinuation false env) impl .read op := by
  simpa [State.startAcceptOp] using enqueues_startOp

theorem enqueues_startConnectOp {isContinuation : Bool} :
    Enqueues s (s.startConnectOp impl op isContinuation env) impl .write op := by
  rw [State.startConnectOp]
  split
  · exact enqueues_post
  · rename_i hok
    refine .after_nonBlocking hok ?_
    split
    · exact enqueues_post
    · split
      · exact enqueues_reactorStartOp rfl
      · exact enqueues_post

end Queues

/-! ### What is in the slot -/

section Slots

variable {s : State ι δ} {impl : ι} {d : δ} {t t' cancellationType : OpType} {op : ReactorOp}
  {env : Environment} {h : Handler} {key : Nat}

/-- No operation that waits is that of the handler. -/
def Fresh (s : State ι δ) (h : Handler) : Prop :=
  ∀ d t, ∀ op ∈ (s.descriptors d).opQueue t, op.id ≠ h.id

/-- An operation that waits in the queue `t` of `d` is found through its slot. -/
structure Registered (s' : State ι δ) (s : State ι δ) (impl : ι) (d : δ)
    (t cancellationType : OpType) (key : Nat) (op : ReactorOp) : Prop where
  reactorData : (s.impls impl).reactorData = some d
  cancellationKey : op.cancellationKey = key
  slots : s'.slots key = some ⟨impl, cancellationType⟩

omit [DecidableEq ι] [DecidableEq δ] in
theorem registered_initiate {start : State ι δ → ReactorOp → State ι δ} (hslot : h.slot = some key)
    (hfresh : Fresh s h)
    (hstart : ∀ (s : State ι δ) op, Enqueues s (start s op) impl t' op)
    (hop : op ∈ ((s.initiate impl h true cancellationType start).descriptors d).opQueue t)
    (hid : op.id = h.id) :
    t = t' ∧
      Registered (s.initiate impl h true cancellationType start) s impl d t cancellationType key
        op := by
  have hinitiate : s.initiate impl h true cancellationType start =
      start { s with slots := Function.update s.slots key (some ⟨impl, cancellationType⟩) }
        { h.op with cancellationKey := key } := by
    simp only [State.initiate, hslot]
  rw [hinitiate] at hop ⊢
  have henqueues := hstart
    { s with slots := Function.update s.slots key (some ⟨impl, cancellationType⟩) }
    { h.op with cancellationKey := key }
  rcases henqueues.mem hop with hold | ⟨hdata, ht, hidentity⟩
  · exact absurd hid (hfresh d t op hold)
  · refine ⟨ht, hdata, congrArg Prod.snd hidentity, ?_⟩
    rw [henqueues.slots]
    exact Function.update_self ..

namespace Initiation

variable {f : Initiation}

/-- The operation of a receive function waits for what the flags ask for, and its slot is for the
readable descriptor. -/
theorem registered_run (hslot : h.slot = some key) (hfresh : Fresh s h)
    (hop : op ∈ ((f.run s impl h env).descriptors d).opQueue t) (hid : op.id = h.id) :
    ∃ cancellationType, Registered (f.run s impl h env) s impl d t cancellationType key op ∧
      (cancellationType = t ↔ f.OutOfBandReceive = false) := by
  have hreceive {flags : MessageFlags} (ht : t = receiveType flags) :
      OpType.read = t ↔ OutOfBand flags = false := by
    subst ht
    rw [receiveType]
    split
    · rename_i hflags
      simp [hflags]
    · rename_i hflags
      simp [eq_false_of_ne_true hflags]
  have hsame {t' : OpType} (ht : t = t') : t' = t ↔ false = false := by simp [ht]
  cases f with
  | wait w =>
    simp only [run, State.asyncWait] at hop ⊢
    cases hw : w.opType? with
    | none =>
      simp only [hw] at hop
      exact absurd hid (hfresh d t op hop)
    | some t' =>
      simp only [hw] at hop ⊢
      obtain ⟨ht, hregistered⟩ :=
        registered_initiate hslot hfresh (fun _ _ => enqueues_startOp) hop hid
      exact ⟨_, hregistered, hsame ht⟩
  | send allEmpty flags =>
    obtain ⟨ht, hregistered⟩ :=
      registered_initiate hslot hfresh (fun _ _ => enqueues_startOp) hop hid
    exact ⟨_, hregistered, hsame ht⟩
  | sendNullBuffers flags =>
    obtain ⟨ht, hregistered⟩ :=
      registered_initiate hslot hfresh (fun _ _ => enqueues_startOp) hop hid
    exact ⟨_, hregistered, hsame ht⟩
  | sendTo flags =>
    obtain ⟨ht, hregistered⟩ :=
      registered_initiate hslot hfresh (fun _ _ => enqueues_startOp) hop hid
    exact ⟨_, hregistered, hsame ht⟩
  | sendToNullBuffers flags =>
    obtain ⟨ht, hregistered⟩ :=
      registered_initiate hslot hfresh (fun _ _ => enqueues_startOp) hop hid
    exact ⟨_, hregistered, hsame ht⟩
  | receive allEmpty flags =>
    obtain ⟨ht, hregistered⟩ :=
      registered_initiate hslot hfresh (fun _ _ => enqueues_startOp) hop hid
    exact ⟨_, hregistered, hreceive ht⟩
  | receiveNullBuffers flags =>
    obtain ⟨ht, hregistered⟩ :=
      registered_initiate hslot hfresh (fun _ _ => enqueues_startOp) hop hid
    exact ⟨_, hregistered, hreceive ht⟩
  | receiveWithFlags flags =>
    obtain ⟨ht, hregistered⟩ :=
      registered_initiate hslot hfresh (fun _ _ => enqueues_startOp) hop hid
    exact ⟨_, hregistered, hreceive ht⟩
  | receiveWithFlagsNullBuffers flags =>
    obtain ⟨ht, hregistered⟩ :=
      registered_initiate hslot hfresh (fun _ _ => enqueues_startOp) hop hid
    exact ⟨_, hregistered, hreceive ht⟩
  | receiveFrom flags =>
    obtain ⟨ht, hregistered⟩ :=
      registered_initiate hslot hfresh (fun _ _ => enqueues_startOp) hop hid
    exact ⟨_, hregistered, hreceive ht⟩
  | receiveFromNullBuffers flags =>
    obtain ⟨ht, hregistered⟩ :=
      registered_initiate hslot hfresh (fun _ _ => enqueues_startOp) hop hid
    exact ⟨_, hregistered, hreceive ht⟩
  | accept peerIsOpen =>
    cases peerIsOpen with
    | true =>
      have hsome : s.initiate impl h false .read (fun s op =>
          s.startAcceptOp impl op h.isContinuation true env) =
          s.postImmediateCompletion (h.op.complete alreadyOpen) h.isContinuation := by
        simp only [State.initiate, hslot]
        rfl
      have hop' : op ∈ ((s.postImmediateCompletion (h.op.complete alreadyOpen)
          h.isContinuation).descriptors d).opQueue t := hsome ▸ hop
      exact absurd hid (hfresh d t op hop')
    | false =>
      obtain ⟨ht, hregistered⟩ :=
        registered_initiate hslot hfresh (fun _ _ => enqueues_startAcceptOp) hop hid
      exact ⟨_, hregistered, hsame ht⟩
  | moveAccept =>
    obtain ⟨ht, hregistered⟩ :=
      registered_initiate hslot hfresh (fun _ _ => enqueues_startAcceptOp) hop hid
    exact ⟨_, hregistered, hsame ht⟩
  | connect =>
    obtain ⟨ht, hregistered⟩ :=
      registered_initiate hslot hfresh (fun _ _ => enqueues_startConnectOp) hop hid
    exact ⟨_, hregistered, hsame ht⟩

end Initiation

end Slots

/-! ### Emitting a signal -/

namespace State

variable {s : State ι δ} {d : δ} {t : OpType} {op : ReactorOp} {c : ReactorOpCancellation ι}
  {type : CancellationType}

omit [DecidableEq ι] [DecidableEq δ] in
/-- An operation waits once, and no other that waits has its key. -/
structure Pending (s : State ι δ) (d : δ) (t : OpType) (op : ReactorOp) : Prop where
  mem : op ∈ (s.descriptors d).opQueue t
  nodup : ((s.descriptors d).opQueue t).Nodup
  unique : ∀ {d' t' op'}, op' ∈ (s.descriptors d').opQueue t' →
    op'.cancellationKey = op.cancellationKey → d' = d ∧ t' = t ∧ op' = op

/-- The operation is taken out of its queue and completed, and nothing else is different. -/
def removed (s : State ι δ) (d : δ) (t : OpType) (op : ReactorOp) : State ι δ :=
  { s with
    descriptors := Function.update s.descriptors d
      ((s.descriptors d).setQueue t (((s.descriptors d).opQueue t).erase op))
    posted := s.posted ++ [(op.complete operationAborted, .deferred)] }

omit [DecidableEq ι] [DecidableEq δ] in
theorem Pending.filter_eq (h : s.Pending d t op) :
    ((s.descriptors d).opQueue t).filter (·.cancellationKey = op.cancellationKey) = [op] := by
  have hsame : ((s.descriptors d).opQueue t).filter (·.cancellationKey = op.cancellationKey) =
      ((s.descriptors d).opQueue t).filter (· == op) := by
    refine List.filter_congr fun op' hop' => ?_
    rw [Bool.eq_iff_iff, decide_eq_true_iff, beq_iff_eq]
    exact ⟨fun hkey => (h.unique hop' hkey).2.2, fun heq => congrArg _ heq⟩
  rw [hsame, List.filter_beq, List.count_eq_one_of_mem h.nodup h.mem, List.replicate_one]

omit [DecidableEq ι] [DecidableEq δ] in
theorem Pending.filter_ne (h : s.Pending d t op) :
    ((s.descriptors d).opQueue t).filter (·.cancellationKey ≠ op.cancellationKey) =
      ((s.descriptors d).opQueue t).erase op := by
  rw [h.nodup.erase_eq_filter]
  refine List.filter_congr fun op' hop' => ?_
  rw [Bool.eq_iff_iff, decide_eq_true_iff, bne_iff_ne, not_iff_not]
  exact ⟨fun hkey => (h.unique hop' hkey).2.2, fun heq => congrArg _ heq⟩

omit [DecidableEq ι] [DecidableEq δ] in
theorem Pending.cancelByKey_eq (h : s.Pending d t op) :
    (s.descriptors d).cancelByKey t op.cancellationKey =
      ([(t, op.complete operationAborted)],
        (s.descriptors d).setQueue t (((s.descriptors d).opQueue t).erase op)) := by
  rw [DescriptorState.cancelByKey, h.filter_eq, h.filter_ne]
  rfl

omit [DecidableEq ι] in
/-- In another queue there is nothing to cancel. -/
theorem Pending.posted_of_ne {t' : OpType} {reactorData : Option δ} (h : s.Pending d t op)
    (hne : ¬(t' = t ∧ reactorData = some d)) :
    (s.cancelOpsByKey reactorData t' op.cancellationKey).posted = s.posted := by
  cases reactorData with
  | none => rfl
  | some d' =>
    have hnil : ((s.descriptors d').opQueue t').filter
        (·.cancellationKey = op.cancellationKey) = [] := by
      rw [List.filter_eq_nil_iff]
      intro op' hop' hkey
      obtain ⟨hd, ht, -⟩ := h.unique hop' (of_decide_eq_true hkey)
      exact hne ⟨ht, congrArg some hd⟩
    simp only [cancelOpsByKey, DescriptorState.cancelByKey, hnil, List.map_nil, List.append_nil]

omit [DecidableEq ι] in
theorem Pending.emit_eq_removed_iff (h : s.Pending d t op)
    (hslot : s.slots op.cancellationKey = some c)
    (htype : type &&& (terminal ||| partialCancellation ||| total) ≠ 0) :
    s.emit op.cancellationKey type = s.removed d t op ↔
      c.opType = t ∧ (s.impls c.impl).reactorData = some d := by
  have hemit : s.emit op.cancellationKey type =
      s.cancelOpsByKey (s.impls c.impl).reactorData c.opType op.cancellationKey := by
    rw [emit, hslot]
    exact if_pos htype
  rw [hemit]
  constructor
  · intro heq
    by_contra hne
    have hposted := congrArg posted heq
    rw [h.posted_of_ne hne, removed] at hposted
    simp at hposted
  · rintro ⟨ht, hdata⟩
    rw [ht, hdata, cancelOpsByKey, h.cancelByKey_eq]
    rfl

end State

/-- The signal takes the operation out of the queue it waits in, and the objects that the queue is
made of are linked anew. -/
structure CancelsOnly (s : State ι δ) (d : δ) (t : OpType) (op : ReactorOp) (key : Nat)
    (type : CancellationType) : Prop where
  emit : s.emit key type = s.removed d t op
  linked : ∀ {α : Type w} [DecidableEq α] {linked : LinkedOps α} {lists : QueueName → List α}
    {n : Nat}, linked.Implements lists (s.descriptors d) → lists .ops = [] →
    (lists (.opQueue t)).length ≤ n →
    ∃ lists', (linked.cancelOpsByKey t key n).Implements lists'
        (((s.removed d t op).descriptors) d) ∧
      (lists' .ops).map (linked.cancelOpsByKey t key n).op = [op.complete operationAborted]

omit [DecidableEq ι] in
theorem State.Pending.cancelsOnly_iff_reactorData {s : State ι δ} {d : δ} {t : OpType} {op : ReactorOp}
    {c : ReactorOpCancellation ι} {type : CancellationType} (h : s.Pending d t op)
    (hslot : s.slots op.cancellationKey = some c)
    (htype : type &&& (terminal ||| partialCancellation ||| total) ≠ 0) :
    CancelsOnly.{u, v, w} s d t op op.cancellationKey type ↔
      c.opType = t ∧ (s.impls c.impl).reactorData = some d := by
  rw [← h.emit_eq_removed_iff hslot htype]
  refine ⟨CancelsOnly.emit, fun hemit => ⟨hemit, fun himplements hops hn => ?_⟩⟩
  obtain ⟨lists', himplements', hlists⟩ :=
    LinkedOps.cancelOpsByKey_refines op.cancellationKey himplements hops hn
  rw [h.cancelByKey_eq] at himplements' hlists
  refine ⟨lists', ?_, ?_⟩
  · simpa only [State.removed, Function.update_self] using himplements'
  · simpa [Function.comp_def] using congrArg (List.map Prod.snd) hlists

/-! ### Whether a signal cancels the operation that a call has started -/

theorem cancelsOnly_iff {f : Initiation} {s s' : State ι δ} {impl : ι} {h : Handler}
    {env : Environment} {key : Nat} {d : δ} {t : OpType} {op op' : ReactorOp}
    {type : CancellationType} (hslot : h.slot = some key) (hfresh : Fresh s h)
    (hop : op ∈ ((f.run s impl h env).descriptors d).opQueue t) (hid : op.id = h.id)
    (hslots : s'.slots key = (f.run s impl h env).slots key) (hop' : op'.identity = op.identity)
    (hpending : s'.Pending d t op')
    (htype : type &&& (terminal ||| partialCancellation ||| total) ≠ 0) :
    CancelsOnly.{u, v, w} s' d t op' key type ↔
      f.OutOfBandReceive = false ∧ (s'.impls impl).reactorData = some d := by
  obtain ⟨cancellationType, hregistered, hreceive⟩ :=
    Initiation.registered_run hslot hfresh hop hid
  obtain rfl : op'.cancellationKey = key :=
    (congrArg Prod.snd hop').trans hregistered.cancellationKey
  rw [hpending.cancelsOnly_iff_reactorData (hslots.trans hregistered.slots) htype, hreceive]

/-- A socket that has been registered and has nothing to read. -/
def idle : State Unit Unit where
  impls _ := ⟨some (), true, true⟩
  descriptors _ := .register true
  slots _ := none
  posted := []

def reader : Handler := ⟨1, false, some 7⟩

def notReady : Environment := ⟨none, none, ⟨.notDone, 0, 0⟩, none⟩

def idleReceiving (outOfBand : Bool) : State Unit Unit :=
  (Initiation.receive false (if outOfBand then messageOutOfBand else 0)).run idle () reader notReady

def waitsIn (outOfBand : Bool) : OpType := if outOfBand then .except else .read

def waitingOp : ReactorOp := ⟨1, 0, 7, 0⟩

theorem idleReceiving_opQueue (outOfBand : Bool) (t : OpType) :
    ((idleReceiving outOfBand).descriptors ()).opQueue t =
      if t = waitsIn outOfBand then [waitingOp] else [] := by
  cases outOfBand <;> cases t <;> decide

theorem idleReceiving_pending (outOfBand : Bool) :
    (idleReceiving outOfBand).Pending () (waitsIn outOfBand) waitingOp where
  mem := by
    rw [idleReceiving_opQueue, if_pos rfl]
    exact List.mem_cons_self
  nodup := by
    rw [idleReceiving_opQueue, if_pos rfl]
    exact List.nodup_singleton _
  unique := by
    intro d' t' op' hop' _
    rw [idleReceiving_opQueue] at hop'
    split at hop'
    · rename_i ht
      exact ⟨rfl, ht, List.mem_singleton.mp hop'⟩
    · cases hop'

theorem idle_fresh : Fresh idle reader := nofun

theorem cancelsOnly_receive :
    CancelsOnly.{0, 0, 0} (idleReceiving false) () .read waitingOp 7 terminal :=
  (@cancelsOnly_iff _ _ _ _ (.receive false 0) idle _ () reader notReady 7 () .read waitingOp
    waitingOp terminal rfl idle_fresh (idleReceiving_pending false).mem rfl rfl rfl
    (idleReceiving_pending false) (by decide)).mpr ⟨rfl, rfl⟩

/-- The signal looks for the operation among those that wait for the descriptor to be readable. -/
theorem out_of_band_not_cancelled :
    (idleReceiving true).Pending () .except waitingOp ∧
      ((idleReceiving true).emit 7 terminal).posted = [] ∧
      ¬CancelsOnly.{0, 0, 0} (idleReceiving true) () .except waitingOp 7 terminal := by
  have hpending := idleReceiving_pending true
  have hposted : ((idleReceiving true).emit 7 terminal).posted = [] := by
    decide
  refine ⟨hpending, hposted, fun h => ?_⟩
  have hremoved := congrArg State.posted h.emit
  rw [hposted] at hremoved
  simp [State.removed] at hremoved

end Asio.Detail.ReactiveSocketService
