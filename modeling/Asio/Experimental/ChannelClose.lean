import Asio.Experimental.ChannelRuns

/-! What becomes of the waiting operations once a channel is closed. -/

universe u

namespace Asio.Experimental.ChannelService

open Asio.Lib.Transition

variable {α : Type u} {impl : Implementation α}

/-- The operations that may follow a `close`. -/
inductive Ending
  | cancel
  | cancelByKey (cancellationKey : Nat)
  | close
  | reset
  | destroy
  deriving DecidableEq

def finish (impl : Implementation α) : Ending → Implementation α × List (Event α)
  | .cancel => cancel impl
  | .cancelByKey key => cancelByKey impl key
  | .close => close impl
  | .reset => reset impl
  | .destroy => destroy impl

/-- The state after a sequence of such operations and the events of all of them. -/
def finishAll : Implementation α → List Ending → Implementation α × List (Event α)
  | impl, [] => (impl, [])
  | impl, e :: es =>
    let r := finish impl e
    let r' := finishAll r.1 es
    (r'.1, r.2 ++ r'.2)

/-- A `close` and whatever follows it complete each operation that was waiting, exactly once and
as what it is, and leave none behind. -/
def CloseProtocol (impl : Implementation α) : Prop :=
  ∀ later, ∀ r, finishAll impl (.close :: later) = r →
    (∀ e ∈ r.2, e.Sound) ∧ (r.2.flatMap Event.completes).Perm (impl.waiters.map (·.id)) ∧
      r.1.waiters = []

theorem finish_nil (h : impl.waiters = []) (e : Ending) :
    (finish impl e).1.waiters = [] ∧ (finish impl e).2 = [] := by
  cases e with
  | cancel => exact ⟨rfl, by simp [finish, cancel, h]⟩
  | cancelByKey key => simp [finish, cancelByKey, h, Implementation.noWaiters]
  | close =>
    simp only [finish, close]
    split
    · simp [h]
    · simp [h]
  | reset => exact ⟨rfl, by simp [finish, reset, cancel, h]⟩
  | destroy => exact ⟨rfl, by simp [finish, destroy, cancel, h]⟩

theorem finishAll_nil (h : impl.waiters = []) (es : List Ending) :
    (finishAll impl es).1.waiters = [] ∧ (finishAll impl es).2 = [] := by
  induction es generalizing impl with
  | nil => exact ⟨h, rfl⟩
  | cons e es ih =>
    obtain ⟨hw, he⟩ := finish_nil h e
    obtain ⟨hw', he'⟩ := ih hw
    exact ⟨hw', by simp only [finishAll, he, he', List.append_nil]⟩

theorem completes_closed (ops : List (ChannelOperation α)) :
    (ops.map fun op => (.complete op (.received .closed) : Event α)).flatMap Event.completes
      = ops.map (·.id) := by
  induction ops with
  | nil => rfl
  | cons op ops ih => simp only [List.map_cons, List.flatMap_cons, ih]; rfl

/-- Without waiting senders, `close` completes all waiters as the receive operations they are. -/
theorem close_receivers (h : Coherent impl) (hk : ∀ op ∈ impl.waiters, op.kind = .receive) :
    (close impl).1.waiters = [] ∧
      (close impl).2 = impl.waiters.map fun op => .complete op (.received .closed) := by
  by_cases hr : impl.receiveState = .block
  · simp [close, hr]
  · have hw : impl.waiters = [] := by
      apply List.eq_nil_iff_forall_not_mem.mpr
      intro op hop
      exact hr (h.receivers op hop (hk op hop)).1
    simp [close, hr, hw]

/-- A waiting sender is left where it is. -/
theorem close_sender (h : Coherent impl) {op : ChannelOperation α} (hop : op ∈ impl.waiters)
    (hk : op.kind = .send) : (close impl).1.waiters = impl.waiters ∧ (close impl).2 = [] := by
  have hr : impl.receiveState ≠ .block := by
    intro hr
    have := h.kind_of_receiveBlock hr hop
    rw [hk] at this
    cases this
  simp [close, hr]

/-- The next cancellation then takes it for a receive operation. -/
theorem cancel_after_close (h : Coherent impl) {op : ChannelOperation α}
    (hop : op ∈ impl.waiters) (hk : op.kind = .send) :
    .complete op (.received .cancelled) ∈ (cancel (close impl).1).2 := by
  have hs : (close impl).1.sendState = .closed := by
    simp only [close]
    split <;> rfl
  simp only [cancel, (close_sender h hop hk).1, List.mem_map]
  exact ⟨op, hop, by simp [cancelWaiter, hs]⟩

theorem closeProtocol_of_receivers (h : Coherent impl)
    (hk : ∀ op ∈ impl.waiters, op.kind = .receive) : CloseProtocol impl := by
  rintro later _ rfl
  obtain ⟨hw, he⟩ := close_receivers h hk
  obtain ⟨hw', he'⟩ := finishAll_nil hw later
  simp only [finishAll, finish, he, he', List.append_nil]
  refine ⟨?_, ?_, hw'⟩
  · intro e hm
    obtain ⟨op, hop, rfl⟩ := List.mem_map.mp hm
    exact (hk op hop).symm
  · rw [completes_closed]

/-- In every state a channel can reach, `close` keeps its promise exactly when no sender waits. -/
theorem close_protocol {maxBufferSize : Nat} {s : State α}
    (h : Reachable step Fresh (initial maxBufferSize) s) :
    CloseProtocol s.impl ↔ ∀ op ∈ s.impl.waiters, op.kind ≠ .send := by
  have hc := reachable_coherent h
  constructor
  · intro hp op hop hk
    obtain ⟨hw, _⟩ := close_sender hc hop hk
    have hsound := (hp [.cancel] _ rfl).1 (.complete op (.received .cancelled)) (by
      simpa only [finishAll, finish, List.mem_append] using
        .inr (.inl (cancel_after_close hc hop hk)))
    rw [Event.Sound, hk] at hsound
    cases hsound
  · intro hk
    apply closeProtocol_of_receivers hc
    intro op hop
    rcases kind_cases op with hs | hr
    · exact absurd hs (hk op hop)
    · exact hr

/-- A rendezvous channel on which one operation waits. -/
def waitingOn (op : ChannelOperation Nat) (sendState receiveState : EndState)
    (accepted : List (Nat × Nat)) : State Nat where
  impl := { receiveState := receiveState, sendState := sendState, maxBufferSize := 0,
            waiters := [op], buffer := [] }
  accepted := accepted
  withdrawn := []
  delivered := []
  started := [op.id]
  completed := []

theorem waiting_receive_reaches : exec (guarded step Fresh) (initial 0) [.startReceiveOp 0 7]
    = some (waitingOn (.receive 0 7) .waiter .block []) := by
  decide

theorem waiting_send_reaches : exec (guarded step Fresh) (initial 0) [.startSendOp 0 7 10]
    = some (waitingOn (.send 0 7 10) .block .waiter [(0, 10)]) := by
  decide

theorem close_protocol_waiting_receive :
    CloseProtocol (waitingOn (.receive 0 7) .waiter .block []).impl :=
  (close_protocol (exec_guarded_reachable waiting_receive_reaches)).mpr (by decide)

theorem close_strands_waiting_send :
    ∃ s : State Nat, Reachable step Fresh (initial 0) s ∧ s.impl.waiters = [.send 0 7 10] ∧
      (finishAll s.impl [.close]).1.waiters = [.send 0 7 10] ∧
      (finishAll s.impl [.close, .cancel]).2
        = [.complete (.send 0 7 10) (.received .cancelled)] ∧
      ¬ CloseProtocol s.impl := by
  refine ⟨_, exec_guarded_reachable waiting_send_reaches, rfl, rfl, rfl, ?_⟩
  intro h
  exact absurd (h [] _ rfl).2.2 (by decide)

end Asio.Experimental.ChannelService
