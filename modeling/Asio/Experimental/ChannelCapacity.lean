import Asio.Experimental.ChannelMoves

/-! When a channel takes a value. -/

universe u

namespace Asio.Experimental.ChannelService

open Asio.Lib.Transition

variable {α : Type u}

/-- A receive operation waits, or the buffer is not full. -/
def Implementation.hasRoom (impl : Implementation α) : Bool :=
  impl.waiters.any (·.kind = .receive) || impl.buffer.length < impl.maxBufferSize

/-- A send that `send_state_` blocks finds a full buffer, and a receive is not sent to an empty
one. -/
structure Agrees (impl : Implementation α) : Prop where
  coherent : Coherent impl
  sane : Sane impl
  receiveBuffer : impl.receiveState = .buffer → impl.buffer ≠ []
  sendBlock : impl.sendState = .block → impl.maxBufferSize ≤ impl.buffer.length

/-- A channel with a buffer is not left without the receive operations that wait. -/
def KeepsRoom (impl : Implementation α) : Action α → Prop
  | .cancel => impl.sendState = .waiter → impl.maxBufferSize = 0
  | .cancelByKey key => impl.sendState = .waiter →
    (∀ op ∈ impl.waiters, op.cancellationKey = key) → impl.maxBufferSize = 0
  | _ => True

instance (impl : Implementation α) (a : Action α) : Decidable (KeepsRoom impl a) := by
  induction a using Action.casesOn <;> dsimp only [KeepsRoom] <;> infer_instance

variable {impl : Implementation α}

theorem trySend_fst (h : Coherent impl) (a : α) :
    (trySend impl a).map Prod.fst = some (impl.sendState = .buffer ∨ impl.sendState = .waiter : Bool) := by
  cases hs : impl.sendState with
  | block => simp [trySend, hs]
  | buffer => simp [trySend, hs]
  | waiter =>
    cases hw : impl.waiters with
    | nil => exact absurd hw (h.sendWaiter hs)
    | cons op ops => simp [trySend, hs, handToReceiver, hw]
  | closed => simp [trySend, hs]

theorem hasRoom_iff : impl.hasRoom = true ↔ (∃ op ∈ impl.waiters, op.kind = .receive) ∨
    impl.buffer.length < impl.maxBufferSize := by
  simp [Implementation.hasRoom]

namespace Agrees

theorem trySend_eq_hasRoom (h : Agrees impl) (hopen : impl.sendState ≠ .closed) (a : α) :
    (trySend impl a).map Prod.fst = some impl.hasRoom := by
  rw [trySend_fst h.coherent, Option.some_inj, Bool.eq_iff_iff, decide_eq_true_iff, hasRoom_iff]
  cases hs : impl.sendState with
  | block =>
    have hfull := h.sendBlock hs
    have hsenders : ¬∃ op ∈ impl.waiters, op.kind = .receive := by
      rintro ⟨op, hop, hkind⟩
      rw [h.coherent.kind_of_sendBlock hs hop] at hkind
      cases hkind
    simp only [hsenders, false_or]
    simp
    omega
  | buffer => simp [h.sane.sendBuffer hs]
  | waiter =>
    obtain ⟨op, hop⟩ := List.exists_mem_of_ne_nil _ (h.coherent.sendWaiter hs)
    have hwaits : ∃ op ∈ impl.waiters, op.kind = .receive :=
      ⟨op, hop, h.coherent.kind_of_sendWaiter hs hop⟩
    simp [hwaits]
  | closed => exact absurd hs hopen

theorem construct (n : Nat) : Agrees (construct n : Implementation α) where
  coherent := construct_coherent n
  sane := .construct n
  receiveBuffer := nofun
  sendBlock := by
    simp only [ChannelService.construct]
    split <;> simp_all

theorem bufferPush (h : Agrees impl) (hs : impl.sendState = .buffer) (a : α) :
    Agrees (bufferPush impl a) where
  coherent := bufferPush_coherent h.coherent hs a
  sane := h.sane.bufferPush hs a
  receiveBuffer := by simp [ChannelService.bufferPush]
  sendBlock := by
    simp only [ChannelService.bufferPush, hs]
    split
    · rename_i hfull
      exact fun _ => Nat.le_of_eq hfull.symm
    · rintro ⟨⟩

theorem handToReceiver (h : Agrees impl) (hs : impl.sendState = .waiter) {a : α}
    {r : Implementation α × List (Event α)} (hr : handToReceiver impl a = some r) :
    Agrees r.1 := by
  have hcoherent := handToReceiver_coherent h.coherent hs hr
  have hsane := h.sane.handToReceiver hs hr
  unfold ChannelService.handToReceiver at hr
  split at hr
  · cases hr
  · cases hr
    refine ⟨hcoherent, hsane, ?_, ?_⟩
    · intro hreceive
      have hblock := (h.sane.sendWaiter hs).symm.trans hreceive
      cases hblock
    · simp only [hs, Implementation.emptyState]
      split
      · split
        · rename_i hzero
          exact fun _ => hzero.symm ▸ Nat.zero_le _
        · rintro ⟨⟩
      · rintro ⟨⟩

theorem trySend (h : Agrees impl) {a : α} {r : Bool × Implementation α × List (Event α)}
    (hr : trySend impl a = some r) : Agrees r.2.1 := by
  unfold ChannelService.trySend at hr
  cases hs : impl.sendState with
  | block =>
    simp only [hs] at hr
    cases hr
    exact h
  | buffer =>
    simp only [hs] at hr
    cases hr
    exact h.bufferPush hs a
  | waiter =>
    simp only [hs, Option.map_eq_some_iff] at hr
    obtain ⟨r', hr', rfl⟩ := hr
    exact h.handToReceiver hs hr'
  | closed =>
    simp only [hs] at hr
    cases hr
    exact h

theorem startSendOp (h : Agrees impl) {id key : Nat} {a : α}
    {r : Implementation α × List (Event α)} (hr : startSendOp impl id key a = some r) :
    Agrees r.1 := by
  have hcoherent := startSendOp_coherent h.coherent hr
  have hsane := h.sane.startSendOp hr
  unfold ChannelService.startSendOp at hr
  cases hs : impl.sendState with
  | block =>
    simp only [hs] at hr
    cases hr
    refine ⟨hcoherent, hsane, ?_, fun _ => h.sendBlock hs⟩
    simp only
    split
    · rintro ⟨⟩
    · exact h.receiveBuffer
  | buffer =>
    simp only [hs] at hr
    cases hr
    exact h.bufferPush hs a
  | waiter =>
    simp only [hs, Option.map_eq_some_iff] at hr
    obtain ⟨r', hr', rfl⟩ := hr
    exact (h.handToReceiver hs hr' :)
  | closed =>
    simp only [hs] at hr
    cases hr
    exact h

theorem takeBuffered (h : Agrees impl) (hb : impl.receiveState = .buffer)
    {r : α × Implementation α × List (Event α)} (hr : takeBuffered impl = some r) :
    Agrees r.2.1 := by
  have hcoherent := takeBuffered_coherent h.coherent hb hr
  have hsane := h.sane.takeBuffered hb hr
  have hopen : impl.sendState ≠ .closed := by
    rw [ne_eq, ← h.sane.closed, hb]
    rintro ⟨⟩
  have hfull := h.sendBlock
  unfold ChannelService.takeBuffered at hr
  split at hr
  · cases hr
  · rename_i a rest hbuffer
    rw [hbuffer, List.length_cons] at hfull
    split at hr
    · obtain ⟨b, -, rfl⟩ := Option.map_eq_some_iff.mp hr
      exact ⟨hcoherent, hsane, by simp, by simpa using hfull⟩
    · cases hr
      refine ⟨hcoherent, hsane, ?_, ?_⟩
      · simp only [Implementation.drainedState, hopen, if_false]
        split
        · rintro ⟨⟩
        · exact fun _ => ‹_›
      · simp [hopen]

theorem takeWaiting (h : Agrees impl) (hw : impl.receiveState = .waiter)
    {r : α × Implementation α × List (Event α)} (hr : takeWaiting impl = some r) :
    Agrees r.2.1 := by
  have hcoherent := takeWaiting_coherent h.coherent hw hr
  have hsane := h.sane.takeWaiting hw hr
  have hopen : impl.sendState ≠ .closed := by
    rw [ne_eq, ← h.sane.closed, hw]
    rintro ⟨⟩
  unfold ChannelService.takeWaiting at hr
  split at hr
  · cases hr
  · obtain ⟨b, -, rfl⟩ := Option.map_eq_some_iff.mp hr
    refine ⟨hcoherent, hsane, ?_, h.sendBlock⟩
    simp only [Implementation.drainedState, hopen, if_false, hw]
    split <;> rintro ⟨⟩

theorem tryReceive (h : Agrees impl) {r : Bool × Implementation α × List (Event α)}
    (hr : tryReceive impl = some r) : Agrees r.2.1 := by
  unfold ChannelService.tryReceive at hr
  cases hs : impl.receiveState with
  | block =>
    simp only [hs] at hr
    cases hr
    exact h
  | buffer =>
    simp only [hs, Option.map_eq_some_iff] at hr
    obtain ⟨r', hr', rfl⟩ := hr
    exact h.takeBuffered hs hr'
  | waiter =>
    simp only [hs, Option.map_eq_some_iff] at hr
    obtain ⟨r', hr', rfl⟩ := hr
    exact h.takeWaiting hs hr'
  | closed =>
    simp only [hs] at hr
    cases hr
    exact h

theorem startReceiveOp (h : Agrees impl) {id key : Nat} {r : Implementation α × List (Event α)}
    (hr : startReceiveOp impl id key = some r) : Agrees r.1 := by
  have hcoherent := startReceiveOp_coherent h.coherent hr
  have hsane := h.sane.startReceiveOp hr
  unfold ChannelService.startReceiveOp at hr
  cases hs : impl.receiveState with
  | block =>
    simp only [hs] at hr
    cases hr
    refine ⟨hcoherent, hsane, nofun, ?_⟩
    simp only
    split
    · exact fun hs' => absurd (‹impl.sendState = .closed›.symm.trans hs') (by rintro ⟨⟩)
    · rintro ⟨⟩
  | buffer =>
    simp only [hs, Option.map_eq_some_iff] at hr
    obtain ⟨r', hr', rfl⟩ := hr
    exact h.takeBuffered hs hr'
  | waiter =>
    simp only [hs, Option.map_eq_some_iff] at hr
    obtain ⟨r', hr', rfl⟩ := hr
    exact h.takeWaiting hs hr'
  | closed =>
    simp only [hs] at hr
    cases hr
    exact h

theorem noWaiters_sendBlock (h : Agrees impl)
    (hroom : impl.sendState = .waiter → impl.maxBufferSize = 0) (ops : List (ChannelOperation α)) :
    ({ impl with waiters := ops } : Implementation α).noWaiters.sendState = .block →
      impl.maxBufferSize ≤ impl.buffer.length := by
  simp only [Implementation.noWaiters]
  split
  · rename_i hs
    exact fun _ => (hroom hs).symm ▸ Nat.zero_le _
  · exact h.sendBlock

theorem noWaiters_receiveBuffer (h : Agrees impl) (ops : List (ChannelOperation α)) :
    ({ impl with waiters := ops } : Implementation α).noWaiters.receiveState = .buffer →
      impl.buffer ≠ [] := by
  simp only [Implementation.noWaiters]
  split
  · rintro ⟨⟩
  · exact h.receiveBuffer

theorem cancel (h : Agrees impl) (hroom : KeepsRoom impl .cancel) : Agrees (cancel impl).1 where
  coherent := cancel_coherent h.coherent
  sane := h.sane.cancel
  receiveBuffer := h.noWaiters_receiveBuffer []
  sendBlock := h.noWaiters_sendBlock hroom []

theorem cancelByKey (h : Agrees impl) {key : Nat} (hroom : KeepsRoom impl (.cancelByKey key)) :
    Agrees (cancelByKey impl key).1 := by
  refine ⟨cancelByKey_coherent h.coherent key, h.sane.cancelByKey key, ?_, ?_⟩
  all_goals
    simp only [ChannelService.cancelByKey]
    split
  · exact h.noWaiters_receiveBuffer _
  · exact h.receiveBuffer
  · rename_i hnil
    refine h.noWaiters_sendBlock (fun hs => hroom hs fun op hop => ?_) _
    by_contra hkey
    have hmem : op ∈ impl.waiters.filter (·.cancellationKey ≠ key) :=
      List.mem_filter.mpr ⟨hop, decide_eq_true hkey⟩
    rw [hnil] at hmem
    cases hmem
  · exact h.sendBlock

theorem close (h : Agrees impl) : Agrees (close impl).1 := by
  refine ⟨close_coherent h.coherent, h.sane.close, ?_, ?_⟩
  all_goals
    unfold ChannelService.close
    split <;> rintro ⟨⟩

theorem perform (h : Agrees impl) {a : Action α} (hreset : a ≠ .reset) (hroom : KeepsRoom impl a)
    {r : Implementation α × List (Event α)} (hr : perform impl a = some r) : Agrees r.1 := by
  cases a with
  | trySend id a =>
    obtain ⟨r', hr', rfl⟩ := Option.map_eq_some_iff.mp hr
    exact h.trySend hr'
  | startSendOp id key a => exact h.startSendOp hr
  | tryReceive =>
    obtain ⟨r', hr', rfl⟩ := Option.map_eq_some_iff.mp hr
    exact h.tryReceive hr'
  | startReceiveOp id key => exact h.startReceiveOp hr
  | cancel =>
    cases hr
    exact h.cancel hroom
  | cancelByKey key =>
    cases hr
    exact h.cancelByKey hroom
  | close =>
    cases hr
    exact h.close
  | reset => exact absurd rfl hreset

end Agrees

/-! ### Without the receive operations that waited -/

/-- The buffer was empty while receive operations waited. -/
theorem not_hasRoom_of_noWaiters (h : Agrees impl) (hs : impl.sendState = .waiter)
    (hsize : impl.maxBufferSize ≠ 0) (v : α) :
    (trySend ({ impl with waiters := [] } : Implementation α).noWaiters v).map Prod.fst ≠
      some ({ impl with waiters := [] } : Implementation α).noWaiters.hasRoom := by
  have hnil := h.sane.quiet (Or.inl (h.sane.sendWaiter hs))
  simp only [trySend, Implementation.noWaiters, hs, Implementation.hasRoom, hnil]
  simp [Nat.pos_of_ne_zero hsize]

theorem keepsRoom_of_trySend (h : Agrees impl) {a : Action α} (htransfers : a.Transfers)
    {r : Implementation α × List (Event α)} (hr : perform impl a = some r) {v : α}
    (hv : (trySend r.1 v).map Prod.fst = some r.1.hasRoom) : KeepsRoom impl a := by
  cases a with
  | cancel =>
    cases hr
    intro hs
    by_contra hsize
    exact not_hasRoom_of_noWaiters h hs hsize v hv
  | cancelByKey key =>
    cases hr
    intro hs hall
    by_contra hsize
    have hnil : impl.waiters.filter (·.cancellationKey ≠ key) = [] := by
      rw [List.filter_eq_nil_iff]
      intro op hop hne
      exact of_decide_eq_true hne (hall op hop)
    simp only [cancelByKey, hnil, if_true] at hv
    exact not_hasRoom_of_noWaiters h hs hsize v hv
  | trySend | startSendOp | tryReceive | startReceiveOp => trivial
  | close | reset => cases htransfers

/-- The channel has the size that it had, and it is not closed. -/
structure StaysOpen (impl impl' : Implementation α) : Prop where
  maxBufferSize : impl'.maxBufferSize = impl.maxBufferSize
  notClosed : impl.sendState ≠ .closed → impl'.sendState ≠ .closed

namespace StaysOpen

theorem refl : StaysOpen impl impl := ⟨rfl, id⟩

theorem bufferPush (a : α) : StaysOpen impl (bufferPush impl a) := by
  refine ⟨rfl, fun hopen => ?_⟩
  simp only [ChannelService.bufferPush]
  split
  · rintro ⟨⟩
  · exact hopen

theorem handToReceiver {a : α} {r : Implementation α × List (Event α)}
    (hr : handToReceiver impl a = some r) : StaysOpen impl r.1 := by
  unfold ChannelService.handToReceiver at hr
  split at hr
  · cases hr
  · cases hr
    refine ⟨rfl, fun hopen => ?_⟩
    simp only
    split
    · exact (emptyState_ne impl).2
    · exact hopen

theorem takeBuffered {r : α × Implementation α × List (Event α)}
    (hr : takeBuffered impl = some r) : StaysOpen impl r.2.1 := by
  unfold ChannelService.takeBuffered at hr
  split at hr
  · cases hr
  · split at hr
    · obtain ⟨b, -, rfl⟩ := Option.map_eq_some_iff.mp hr
      exact ⟨rfl, id⟩
    · cases hr
      refine ⟨rfl, fun hopen => ?_⟩
      simp [hopen]

theorem takeWaiting {r : α × Implementation α × List (Event α)}
    (hr : takeWaiting impl = some r) : StaysOpen impl r.2.1 := by
  unfold ChannelService.takeWaiting at hr
  split at hr
  · cases hr
  · obtain ⟨b, -, rfl⟩ := Option.map_eq_some_iff.mp hr
    exact ⟨rfl, id⟩

theorem noWaiters (ops : List (ChannelOperation α)) :
    StaysOpen impl ({ impl with waiters := ops } : Implementation α).noWaiters := by
  refine ⟨rfl, fun hopen => ?_⟩
  simp only [Implementation.noWaiters]
  split
  · rintro ⟨⟩
  · exact hopen

theorem perform {a : Action α} (htransfers : a.Transfers)
    {r : Implementation α × List (Event α)} (hr : perform impl a = some r) :
    StaysOpen impl r.1 := by
  cases a with
  | trySend id a =>
    obtain ⟨r', hr', rfl⟩ := Option.map_eq_some_iff.mp hr
    cases hs : impl.sendState <;> simp only [trySend, hs] at hr'
    · cases hr'
      exact .bufferPush a
    · obtain ⟨r₀, hr₀, rfl⟩ := Option.map_eq_some_iff.mp hr'
      exact .handToReceiver hr₀
    · cases hr'
      exact .refl
    · cases hr'
      exact .refl
  | startSendOp id key a =>
    cases hs : impl.sendState <;> simp only [ChannelService.perform, startSendOp, hs] at hr
    · cases hr
      exact .bufferPush a
    · obtain ⟨r₀, hr₀, rfl⟩ := Option.map_eq_some_iff.mp hr
      exact ⟨(handToReceiver hr₀).maxBufferSize, (handToReceiver hr₀).notClosed⟩
    · cases hr
      exact ⟨rfl, fun _ => nofun⟩
    · cases hr
      exact .refl
  | tryReceive =>
    obtain ⟨r', hr', rfl⟩ := Option.map_eq_some_iff.mp hr
    cases hs : impl.receiveState <;> simp only [tryReceive, hs] at hr'
    · obtain ⟨r₀, hr₀, rfl⟩ := Option.map_eq_some_iff.mp hr'
      exact .takeBuffered hr₀
    · obtain ⟨r₀, hr₀, rfl⟩ := Option.map_eq_some_iff.mp hr'
      exact .takeWaiting hr₀
    · cases hr'
      exact .refl
    · cases hr'
      exact .refl
  | startReceiveOp id key =>
    cases hs : impl.receiveState <;> simp only [ChannelService.perform, startReceiveOp, hs] at hr
    · obtain ⟨r₀, hr₀, rfl⟩ := Option.map_eq_some_iff.mp hr
      exact .takeBuffered hr₀
    · obtain ⟨r₀, hr₀, rfl⟩ := Option.map_eq_some_iff.mp hr
      exact .takeWaiting hr₀
    · cases hr
      refine ⟨rfl, fun hopen => ?_⟩
      simp [hopen]
    · cases hr
      exact .refl
  | cancel =>
    cases hr
    exact .noWaiters []
  | cancelByKey key =>
    cases hr
    simp only [cancelByKey]
    split
    · exact .noWaiters _
    · exact ⟨rfl, id⟩
  | close | reset => cases htransfers

end StaysOpen

/-! ### When `try_send` succeeds -/

/-- The channel agrees with itself as long as no cancellation takes the last receive operation of a
channel that has a buffer. -/
theorem agrees_of_reachable {n : Nat} {s : State α}
    (h : Reachable step (fun s a => a.Transfers ∧ KeepsRoom s.impl a) (initial n) s) :
    Agrees s.impl ∧ s.impl.maxBufferSize = n ∧ s.impl.sendState ≠ .closed := by
  refine h.invariant (I := fun s => Agrees s.impl ∧ s.impl.maxBufferSize = n ∧
    s.impl.sendState ≠ .closed) ⟨.construct n, rfl, ?_⟩ ?_
  · simp only [initial, construct]
    split <;> rintro ⟨⟩
  · rintro s a s' ⟨hagrees, hsize, hopen⟩ ⟨htransfers, hroom⟩ hstep
    obtain ⟨r, hr, rfl⟩ := Option.map_eq_some_iff.mp hstep
    have hstays := StaysOpen.perform htransfers hr
    have hreset : a ≠ .reset := by
      rintro rfl
      cases htransfers
    exact ⟨hagrees.perform hreset hroom hr, hstays.maxBufferSize.trans hsize,
      hstays.notClosed hopen⟩

theorem trySend_documented {maxBufferSize : Nat} {s : State α}
    (h : Reachable step (fun s a => a.Transfers ∧ KeepsRoom s.impl a) (initial maxBufferSize) s)
    (v : α) :
    ((trySend s.impl v).map Prod.fst = some true ↔
        (∃ op ∈ s.impl.waiters, op.kind = .receive) ∨ s.impl.buffer.length < maxBufferSize) ∧
      ∀ a s', a.Transfers → step s a = some s' →
        ((trySend s'.impl v).map Prod.fst = some s'.impl.hasRoom ↔ KeepsRoom s.impl a) := by
  obtain ⟨hagrees, hsize, hopen⟩ := agrees_of_reachable h
  refine ⟨?_, fun a s' htransfers hstep => ⟨fun hv => ?_, fun hroom => ?_⟩⟩
  · rw [hagrees.trySend_eq_hasRoom hopen, Option.some_inj, hasRoom_iff, hsize]
  · obtain ⟨r, hr, rfl⟩ := Option.map_eq_some_iff.mp hstep
    exact keepsRoom_of_trySend hagrees htransfers hr hv
  · obtain ⟨hagrees', -, hopen'⟩ := agrees_of_reachable (h.step ⟨htransfers, hroom⟩ hstep)
    exact hagrees'.trySend_eq_hasRoom hopen' v

/-- A receive operation is cancelled by its key, and sends go on. -/
theorem trySend_documented_sends : ∃ s : State Nat,
    exec step (initial 2) [.startReceiveOp 0 7, .trySend 1 10, .trySend 2 11, .cancelByKey 7] =
        some s ∧
      ((trySend s.impl 12).map Prod.fst = some true ↔
        (∃ op ∈ s.impl.waiters, op.kind = .receive) ∨ s.impl.buffer.length < 2) := by
  have hrun : (exec (guarded step fun s a => a.Transfers ∧ KeepsRoom s.impl a) (initial 2)
      [.startReceiveOp 0 7, .trySend 1 10, .trySend 2 11, .cancelByKey 7]).isSome = true := by
    decide
  obtain ⟨s, hs⟩ := Option.isSome_iff_exists.mp hrun
  have hstep : exec step (initial 2)
      [.startReceiveOp 0 7, .trySend 1 10, .trySend 2 11, .cancelByKey 7] =
        exec (guarded step fun s a => a.Transfers ∧ KeepsRoom s.impl a) (initial 2)
          [.startReceiveOp 0 7, .trySend 1 10, .trySend 2 11, .cancelByKey 7] := by
    decide
  exact ⟨s, hstep.trans hs, (trySend_documented (exec_guarded_reachable hs) 12).1⟩

/-- The channel has a buffer, but once the receive operation is cancelled nothing is put into it. -/
theorem trySend_refused : ∃ s : State Nat,
    exec step (initial 1) [.startReceiveOp 0 7, .cancel] = some s ∧
      s.impl.buffer.length < 1 ∧ (trySend s.impl 10).map Prod.fst = some false :=
  ⟨_, rfl, by decide, by decide⟩

end Asio.Experimental.ChannelService
