import Mathlib.Data.List.Nodup
import Asio.Lib.Transition
import Asio.Experimental.ChannelService

/-! Runs of one channel, with a history of what was accepted, delivered and completed. -/

universe u

namespace Asio.Experimental.ChannelService

open Asio.Lib.Transition

/-- The channel and the history of its run.  Every send and every receive has an identity, with
which its value enters `accepted` and its completion enters `completed`. -/
structure State (α : Type u) where
  impl : Implementation α
  accepted : List (Nat × α)
  withdrawn : List Nat
  delivered : List α
  started : List Nat
  completed : List Nat
  deriving DecidableEq

inductive Action (α : Type u)
  | trySend (id : Nat) (a : α)
  | startSendOp (id cancellationKey : Nat) (a : α)
  | tryReceive
  | startReceiveOp (id cancellationKey : Nat)
  | cancel
  | cancelByKey (cancellationKey : Nat)
  | close
  | reset
  deriving DecidableEq

variable {α : Type u}

def Event.completes : Event α → List Nat
  | .complete op _ => [op.id]
  | .tryReceived _ => []

def Event.delivers : Event α → List α
  | .complete _ (.received (.value a)) => [a]
  | .tryReceived a => [a]
  | _ => []

def Event.withdraws : Event α → List Nat
  | .complete op .sendCancelled => [op.id]
  | _ => []

/-- The function the event calls belongs to the operation's own class. -/
def Event.Sound : Event α → Prop
  | .complete op completion => completion.kind = op.kind
  | .tryReceived _ => True

instance (e : Event α) : Decidable e.Sound := by
  induction e using Event.casesOn <;> dsimp only [Event.Sound] <;> infer_instance

def initial (maxBufferSize : Nat) : State α where
  impl := construct maxBufferSize
  accepted := []
  withdrawn := []
  delivered := []
  started := []
  completed := []

/-- One operation on the channel with the events it causes, or `none` where the code is
undefined. -/
def perform (impl : Implementation α) : Action α → Option (Implementation α × List (Event α))
  | .trySend _ a => (trySend impl a).map Prod.snd
  | .startSendOp id key a => startSendOp impl id key a
  | .tryReceive => (tryReceive impl).map Prod.snd
  | .startReceiveOp id key => startReceiveOp impl id key
  | .cancel => some (cancel impl)
  | .cancelByKey key => some (cancelByKey impl key)
  | .close => some (close impl)
  | .reset => some (reset impl)

/-- The value that the action hands over to the channel, if the channel takes it. -/
def accepts (impl : Implementation α) : Action α → List (Nat × α)
  | .trySend id a => if (trySend impl a).map Prod.fst = some true then [(id, a)] else []
  | .startSendOp id _ a => if impl.sendState = .closed then [] else [(id, a)]
  | _ => []

def Action.starts : Action α → List Nat
  | .startSendOp id _ _ | .startReceiveOp id _ => [id]
  | _ => []

def State.record (s : State α) (a : Action α) (impl : Implementation α)
    (events : List (Event α)) : State α where
  impl := impl
  accepted := s.accepted ++ accepts s.impl a
  withdrawn := s.withdrawn ++ events.flatMap Event.withdraws
  delivered := s.delivered ++ events.flatMap Event.delivers
  started := s.started ++ a.starts
  completed := s.completed ++ events.flatMap Event.completes

def step (s : State α) (a : Action α) : Option (State α) :=
  (perform s.impl a).map fun r => s.record a r.1 r.2

/-- The identity an action introduces has not been used before. -/
def Fresh (s : State α) : Action α → Prop
  | .trySend id _ | .startSendOp id _ _ | .startReceiveOp id _ =>
    id ∉ s.accepted.map Prod.fst ∧ id ∉ s.started
  | _ => True

instance (s : State α) (a : Action α) : Decidable (Fresh s a) := by
  induction a using Action.casesOn <;> dsimp only [Fresh] <;> infer_instance

/-- The operations of a channel that is neither closed nor reset. -/
def Action.Transfers : Action α → Prop
  | .close | .reset => False
  | _ => True

instance (a : Action α) : Decidable a.Transfers := by
  induction a using Action.casesOn <;> dsimp only [Action.Transfers] <;> infer_instance

/-- What the two state words say about the waiting operations, in any channel. -/
structure Coherent (impl : Implementation α) : Prop where
  receivers : ∀ op ∈ impl.waiters, op.kind = .receive →
    impl.receiveState = .block ∧ impl.sendState = .waiter
  senders : ∀ op ∈ impl.waiters, op.kind = .send →
    (impl.sendState = .block ∧ (impl.receiveState = .buffer ∨ impl.receiveState = .waiter)) ∨
    (impl.sendState = .closed ∧ impl.receiveState = .closed)
  sendWaiter : impl.sendState = .waiter → impl.waiters ≠ []
  receiveWaiter : impl.receiveState = .waiter → impl.waiters ≠ []
  closed : impl.receiveState = .closed ↔ impl.sendState = .closed

/-- What the state words say about the buffer while the channel stays open. -/
structure Open (impl : Implementation α) : Prop extends Coherent impl where
  bounded : impl.buffer.length ≤ impl.maxBufferSize
  sendBuffer : impl.sendState = .buffer → impl.buffer.length < impl.maxBufferSize
  receiveBuffer : impl.receiveState = .buffer ↔ impl.buffer ≠ []
  notClosed : impl.sendState ≠ .closed

theorem kind_cases (op : ChannelOperation α) : op.kind = .send ∨ op.kind = .receive := by
  cases op with
  | send => exact .inl rfl
  | receive => exact .inr rfl

namespace Coherent

variable {impl : Implementation α}

/-- A waiter seen through `send_state_ == waiter` is a receive operation. -/
theorem kind_of_sendWaiter (h : Coherent impl) (hs : impl.sendState = .waiter)
    {op : ChannelOperation α} (hop : op ∈ impl.waiters) : op.kind = .receive := by
  rcases kind_cases op with hk | hk
  · rcases h.senders op hop hk with ⟨hb, _⟩ | ⟨hc, _⟩
    · rw [hs] at hb; cases hb
    · rw [hs] at hc; cases hc
  · exact hk

/-- A waiter seen through `receive_state_ != block` is a send operation. -/
theorem kind_of_receive_ne_block (h : Coherent impl) (hr : impl.receiveState ≠ .block)
    {op : ChannelOperation α} (hop : op ∈ impl.waiters) : op.kind = .send := by
  rcases kind_cases op with hk | hk
  · exact hk
  · exact absurd (h.receivers op hop hk).1 hr

theorem kind_of_receiveBlock (h : Coherent impl) (hr : impl.receiveState = .block)
    {op : ChannelOperation α} (hop : op ∈ impl.waiters) : op.kind = .receive := by
  rcases kind_cases op with hk | hk
  · rcases h.senders op hop hk with ⟨_, hb | hb⟩ | ⟨_, hc⟩
    · rw [hr] at hb; cases hb
    · rw [hr] at hb; cases hb
    · rw [hr] at hc; cases hc
  · exact hk

theorem kind_of_sendBlock (h : Coherent impl) (hs : impl.sendState = .block)
    {op : ChannelOperation α} (hop : op ∈ impl.waiters) : op.kind = .send := by
  rcases kind_cases op with hk | hk
  · exact hk
  · have := (h.receivers op hop hk).2
    rw [hs] at this; cases this

theorem waiters_of_sendBuffer (h : Coherent impl) (hs : impl.sendState = .buffer) :
    impl.waiters = [] := by
  apply List.eq_nil_iff_forall_not_mem.mpr
  intro op hop
  rcases kind_cases op with hk | hk
  · rcases h.senders op hop hk with ⟨hb, _⟩ | ⟨hc, _⟩
    · rw [hs] at hb; cases hb
    · rw [hs] at hc; cases hc
  · have := (h.receivers op hop hk).2
    rw [hs] at this; cases this

/-- No waiters and no state word that announces one. -/
theorem of_nil (hw : impl.waiters = []) (hs : impl.sendState ≠ .waiter)
    (hr : impl.receiveState ≠ .waiter)
    (hc : impl.receiveState = .closed ↔ impl.sendState = .closed) : Coherent impl where
  receivers := by simp [hw]
  senders := by simp [hw]
  sendWaiter h := absurd h hs
  receiveWaiter h := absurd h hr
  closed := hc

end Coherent

theorem getPayload_of_send {op : ChannelOperation α} (h : op.kind = .send) :
    ∃ id key a, op = .send id key a ∧ op.getPayload = some a := by
  cases op with
  | send id key a => exact ⟨id, key, a, rfl, rfl⟩
  | receive => cases h

/-! ### The state words stay coherent with the waiters -/

section Coherence

variable {impl : Implementation α}

theorem emptyState_ne (impl : Implementation α) :
    impl.emptyState ≠ .waiter ∧ impl.emptyState ≠ .closed := by
  unfold Implementation.emptyState
  split <;> simp

theorem drainedState_ne_waiter (impl : Implementation α) : impl.drainedState ≠ .waiter := by
  unfold Implementation.drainedState
  split <;> simp

theorem bufferPush_coherent (h : Coherent impl) (hs : impl.sendState = .buffer) (a : α) :
    Coherent (bufferPush impl a) := by
  apply Coherent.of_nil
  · exact h.waiters_of_sendBuffer hs
  · simp only [bufferPush, hs]; split <;> simp
  · simp [bufferPush]
  · simp only [bufferPush, hs]; split <;> simp

theorem handToReceiver_coherent (h : Coherent impl) (hs : impl.sendState = .waiter) {a : α}
    {r : Implementation α × List (Event α)} (hr : handToReceiver impl a = some r) :
    Coherent r.1 := by
  unfold handToReceiver at hr
  split at hr
  · cases hr
  · rename_i op ops hw
    cases hr
    have hop : op.kind = .receive := h.kind_of_sendWaiter hs (by simp [hw])
    have hb : impl.receiveState = .block := (h.receivers op (by simp [hw]) hop).1
    obtain ⟨he, hc⟩ := emptyState_ne impl
    cases ops with
    | nil => exact Coherent.of_nil rfl (by simpa using he) (by simp [hb]) (by simp [hb, hc])
    | cons op' ops =>
      exact {
        receivers := fun o ho hk => h.receivers o (by rw [hw]; exact List.mem_cons_of_mem _ ho) hk
        senders := fun o ho hk => h.senders o (by rw [hw]; exact List.mem_cons_of_mem _ ho) hk
        sendWaiter := by simp
        receiveWaiter := by simp
        closed := by simp [hb, hs] }

theorem startSendOp_coherent (h : Coherent impl) {id key : Nat} {a : α}
    {r : Implementation α × List (Event α)} (hr : startSendOp impl id key a = some r) :
    Coherent r.1 := by
  unfold startSendOp at hr
  cases hs : impl.sendState with
  | block =>
    simp only [hs] at hr
    cases hr
    have hc : impl.receiveState ≠ .closed := by rw [ne_eq, h.closed, hs]; simp
    constructor
    · intro op hop hk
      rcases List.mem_append.mp hop with hop | hop
      · have := h.kind_of_sendBlock hs hop
        rw [hk] at this; cases this
      · rw [List.mem_singleton.mp hop] at hk; cases hk
    · intro op _ _
      refine .inl ⟨rfl, ?_⟩
      cases hb : impl.receiveState with
      | buffer => simp
      | waiter => simp
      | block => simp
      | closed => exact absurd hb hc
    · simp
    · simp
    · simp only
      split <;> simp [hc]
  | buffer =>
    simp only [hs] at hr
    cases hr
    exact bufferPush_coherent h hs a
  | waiter =>
    simp only [hs, Option.map_eq_some_iff] at hr
    obtain ⟨r', hr', rfl⟩ := hr
    exact (handToReceiver_coherent h hs hr' :)
  | closed =>
    simp only [hs] at hr
    cases hr
    exact h

theorem trySend_coherent (h : Coherent impl) {a : α}
    {r : Bool × Implementation α × List (Event α)} (hr : trySend impl a = some r) :
    Coherent r.2.1 := by
  unfold trySend at hr
  cases hs : impl.sendState with
  | block => simp only [hs] at hr; cases hr; exact h
  | buffer => simp only [hs] at hr; cases hr; exact bufferPush_coherent h hs a
  | waiter =>
    simp only [hs, Option.map_eq_some_iff] at hr
    obtain ⟨r', hr', rfl⟩ := hr
    exact handToReceiver_coherent h hs hr'
  | closed => simp only [hs] at hr; cases hr; exact h

theorem takeBuffered_coherent (h : Coherent impl) (hb : impl.receiveState = .buffer)
    {r : α × Implementation α × List (Event α)} (hr : takeBuffered impl = some r) :
    Coherent r.2.1 := by
  have hc : impl.sendState ≠ .closed := by rw [ne_eq, ← h.closed, hb]; simp
  unfold takeBuffered at hr
  split at hr
  · cases hr
  · split at hr
    · rename_i op ops hw
      obtain ⟨b, _, rfl⟩ := Option.map_eq_some_iff.mp hr
      have hmem : ∀ {o}, o ∈ ops → o ∈ impl.waiters := by
        intro o ho; rw [hw]; exact List.mem_cons_of_mem _ ho
      have hk : op.kind = .send := h.kind_of_receive_ne_block (by simp [hb]) (by simp [hw])
      have hs : impl.sendState = .block := by
        rcases h.senders op (by simp [hw]) hk with ⟨hs, _⟩ | ⟨hs, _⟩
        · exact hs
        · exact absurd hs hc
      exact {
        receivers := fun o ho hk => h.receivers o (hmem ho) hk
        senders := fun o ho hk => h.senders o (hmem ho) hk
        sendWaiter := by simp [hs]
        receiveWaiter := by simp [hb]
        closed := h.closed }
    · rename_i hw
      cases hr
      refine Coherent.of_nil hw ?_ ?_ ?_
      · simp [hc]
      · simp only
        split
        · exact drainedState_ne_waiter impl
        · simp [hb]
      · simp only [hc, if_false]
        split <;> simp [Implementation.drainedState, hc, hb]

theorem takeWaiting_coherent (h : Coherent impl) (hw : impl.receiveState = .waiter)
    {r : α × Implementation α × List (Event α)} (hr : takeWaiting impl = some r) :
    Coherent r.2.1 := by
  have hc : impl.sendState ≠ .closed := by rw [ne_eq, ← h.closed, hw]; simp
  unfold takeWaiting at hr
  split at hr
  · cases hr
  · rename_i op ops hws
    obtain ⟨b, _, rfl⟩ := Option.map_eq_some_iff.mp hr
    have hmem : ∀ {o}, o ∈ ops → o ∈ impl.waiters := by
      intro o ho; rw [hws]; exact List.mem_cons_of_mem _ ho
    have hk : op.kind = .send := h.kind_of_receive_ne_block (by simp [hw]) (by simp [hws])
    have hs : impl.sendState = .block := by
      rcases h.senders op (by simp [hws]) hk with ⟨hs, _⟩ | ⟨hs, _⟩
      · exact hs
      · exact absurd hs hc
    cases ops with
    | nil =>
      refine Coherent.of_nil rfl ?_ ?_ ?_
      · simp [hs]
      · simpa using drainedState_ne_waiter impl
      · simp [Implementation.drainedState, hs]
    | cons op' ops =>
      exact {
        receivers := fun o ho hk => h.receivers o (hmem ho) hk
        senders := fun o ho hk => h.senders o (hmem ho) hk
        sendWaiter := by simp
        receiveWaiter := by simp
        closed := h.closed }

theorem tryReceive_coherent (h : Coherent impl)
    {r : Bool × Implementation α × List (Event α)} (hr : tryReceive impl = some r) :
    Coherent r.2.1 := by
  unfold tryReceive at hr
  cases hs : impl.receiveState with
  | block => simp only [hs] at hr; cases hr; exact h
  | buffer =>
    simp only [hs, Option.map_eq_some_iff] at hr
    obtain ⟨r', hr', rfl⟩ := hr
    exact takeBuffered_coherent h hs hr'
  | waiter =>
    simp only [hs, Option.map_eq_some_iff] at hr
    obtain ⟨r', hr', rfl⟩ := hr
    exact takeWaiting_coherent h hs hr'
  | closed => simp only [hs] at hr; cases hr; exact h

theorem startReceiveOp_coherent (h : Coherent impl) {id key : Nat}
    {r : Implementation α × List (Event α)} (hr : startReceiveOp impl id key = some r) :
    Coherent r.1 := by
  unfold startReceiveOp at hr
  cases hs : impl.receiveState with
  | block =>
    simp only [hs] at hr
    cases hr
    have hc : impl.sendState ≠ .closed := by rw [ne_eq, ← h.closed, hs]; simp
    constructor
    · intro op _ _
      exact ⟨rfl, by simp [hc]⟩
    · intro op hop hk
      rcases List.mem_append.mp hop with hop | hop
      · have := h.kind_of_receiveBlock hs hop
        rw [hk] at this; cases this
      · rw [List.mem_singleton.mp hop] at hk; cases hk
    · simp
    · simp
    · simp [hc]
  | buffer =>
    simp only [hs, Option.map_eq_some_iff] at hr
    obtain ⟨r', hr', rfl⟩ := hr
    exact takeBuffered_coherent h hs hr'
  | waiter =>
    simp only [hs, Option.map_eq_some_iff] at hr
    obtain ⟨r', hr', rfl⟩ := hr
    exact takeWaiting_coherent h hs hr'
  | closed =>
    simp only [hs] at hr
    cases hr
    exact h

theorem noWaiters_coherent (h : impl.waiters = [])
    (hc : impl.receiveState = .closed ↔ impl.sendState = .closed) :
    Coherent impl.noWaiters := by
  apply Coherent.of_nil
  · exact h
  · simp only [Implementation.noWaiters]; split <;> simp_all
  · simp only [Implementation.noWaiters]; split <;> simp_all
  · simp only [Implementation.noWaiters]
    cases hr : impl.receiveState <;> cases hs : impl.sendState <;> simp_all

theorem cancel_coherent (h : Coherent impl) : Coherent (cancel impl).1 :=
  noWaiters_coherent rfl h.closed

theorem cancelByKey_coherent (h : Coherent impl) (key : Nat) :
    Coherent (cancelByKey impl key).1 := by
  simp only [cancelByKey]
  split
  · rename_i hw
    exact noWaiters_coherent hw h.closed
  · rename_i hw
    exact {
      receivers := fun o ho hk => h.receivers o (List.mem_of_mem_filter ho) hk
      senders := fun o ho hk => h.senders o (List.mem_of_mem_filter ho) hk
      sendWaiter := fun _ => hw
      receiveWaiter := fun _ => hw
      closed := h.closed }

theorem close_coherent (h : Coherent impl) : Coherent (close impl).1 := by
  unfold close
  split
  · exact Coherent.of_nil rfl (by simp) (by simp) (by simp)
  · rename_i hr
    constructor
    · intro op hop hk
      have := h.kind_of_receive_ne_block hr hop
      rw [hk] at this; cases this
    · intro op _ _
      exact .inr ⟨rfl, rfl⟩
    · simp
    · simp
    · simp

theorem reset_coherent (h : Coherent impl) : Coherent (reset impl).1 := by
  have hc := cancel_coherent h
  obtain ⟨he, hne⟩ := emptyState_ne (cancel impl).1
  have hw : (cancel impl).1.waiters = [] := rfl
  have hsw : (cancel impl).1.sendState ≠ .waiter := fun hs => hc.sendWaiter hs hw
  have hrw : (cancel impl).1.receiveState ≠ .waiter := fun hr => hc.receiveWaiter hr hw
  apply Coherent.of_nil
  · exact hw
  · simp only [reset]; split
    · exact he
    · exact hsw
  · simp only [reset]; split
    · simp
    · exact hrw
  · simp only [reset]
    by_cases hs : (cancel impl).1.sendState = .closed
    · simp [hs, hc.closed.mpr hs, hne]
    · simp [hs, mt hc.closed.mp hs]

theorem construct_coherent (n : Nat) : Coherent (construct n : Implementation α) := by
  apply Coherent.of_nil
  · rfl
  · simp only [construct]; split <;> simp
  · simp [construct]
  · simp only [construct]; split <;> simp

theorem perform_coherent (h : Coherent impl) {a : Action α}
    {r : Implementation α × List (Event α)} (hr : perform impl a = some r) : Coherent r.1 := by
  cases a with
  | trySend id a =>
    obtain ⟨r', hr', rfl⟩ := Option.map_eq_some_iff.mp hr
    exact trySend_coherent h hr'
  | startSendOp id key a => exact startSendOp_coherent h hr
  | tryReceive =>
    obtain ⟨r', hr', rfl⟩ := Option.map_eq_some_iff.mp hr
    exact tryReceive_coherent h hr'
  | startReceiveOp id key => exact startReceiveOp_coherent h hr
  | cancel => cases hr; exact cancel_coherent h
  | cancelByKey key => cases hr; exact cancelByKey_coherent h key
  | close => cases hr; exact close_coherent h
  | reset => cases hr; exact reset_coherent h

end Coherence

theorem step_coherent {s s' : State α} {a : Action α} (h : Coherent s.impl)
    (hs : step s a = some s') : Coherent s'.impl := by
  obtain ⟨r, hr, rfl⟩ := Option.map_eq_some_iff.mp hs
  exact perform_coherent h hr

theorem reachable_coherent {ok : State α → Action α → Prop} {n : Nat} {s : State α}
    (h : Reachable step ok (initial n) s) : Coherent s.impl :=
  h.invariant (construct_coherent n) fun hi _ hs => step_coherent hi hs

end Asio.Experimental.ChannelService
