import Asio.Experimental.ChannelRuns

/-! An open channel delivers what it accepted, in order, and completes what it started. -/

universe u

namespace Asio.Experimental.ChannelService

open Asio.Lib.Transition

variable {α : Type u} {impl : Implementation α}

def ChannelOperation.pending : ChannelOperation α → Option (Nat × α)
  | .send id _ a => some (id, a)
  | .receive .. => none

@[simp] theorem filterMap_pending_send (id key : Nat) (a : α) (ops : List (ChannelOperation α)) :
    (.send id key a :: ops).filterMap ChannelOperation.pending
      = (id, a) :: ops.filterMap ChannelOperation.pending := rfl

@[simp] theorem filterMap_pending_receive (id key : Nat) (ops : List (ChannelOperation α)) :
    (.receive id key :: ops).filterMap ChannelOperation.pending
      = ops.filterMap ChannelOperation.pending := rfl

/-- The values that waiting senders hold. -/
def pendingSends (impl : Implementation α) : List (Nat × α) :=
  impl.waiters.filterMap ChannelOperation.pending

def withdrawals (events : List (Event α)) : List Nat := events.flatMap Event.withdraws

/-- What one operation does to an open channel that takes in the values `accepted` and the
operations `begun`: the values `moved` leave the waiting senders and pass through the buffer. -/
structure Transfer (impl : Implementation α) (accepted : List (Nat × α)) (begun : List Nat)
    (impl' : Implementation α) (events : List (Event α)) : Prop extends Open impl' where
  maxBufferSize : impl'.maxBufferSize = impl.maxBufferSize
  sound : ∀ e ∈ events, e.Sound
  withdrawn : ∀ id ∈ withdrawals events, id ∈ (pendingSends impl).map Prod.fst
  order : ∃ moved,
    (pendingSends impl).filter (·.1 ∉ withdrawals events) ++ accepted
      = moved ++ pendingSends impl' ∧
    impl.buffer ++ moved.map Prod.snd = events.flatMap Event.delivers ++ impl'.buffer
  completes : (impl.waiters.map (·.id) ++ begun).Perm
    (events.flatMap Event.completes ++ impl'.waiters.map (·.id))

/-- The same passage told by other events, which also complete the operations `begun'`. -/
theorem Transfer.retell {accepted : List (Nat × α)} {begun : List Nat}
    {impl' : Implementation α} {events events' : List (Event α)}
    (h : Transfer impl accepted begun impl' events) (begun' : List Nat) (sound : ∀ e ∈ events', e.Sound)
    (hw : withdrawals events' = withdrawals events)
    (hd : events'.flatMap Event.delivers = events.flatMap Event.delivers)
    (hc : (events'.flatMap Event.completes).Perm (events.flatMap Event.completes ++ begun')) :
    Transfer impl accepted (begun ++ begun') impl' events' where
  toOpen := h.toOpen
  maxBufferSize := h.maxBufferSize
  sound := sound
  withdrawn := by rw [hw]; exact h.withdrawn
  order := by rw [hw, hd]; exact h.order
  completes := by
    rw [← List.append_assoc]
    refine (h.completes.append_right begun').trans ?_
    rw [List.append_assoc]
    refine (List.perm_append_comm.append_left _).trans ?_
    rw [← List.append_assoc]
    exact hc.symm.append_right _

namespace Open

theorem buffer_nil (h : Open impl) (hr : impl.receiveState ≠ .buffer) : impl.buffer = [] := by
  by_contra hb
  exact hr (h.receiveBuffer.mpr hb)

theorem receive_ne_closed (h : Open impl) : impl.receiveState ≠ .closed :=
  fun hr => h.notClosed (h.closed.mp hr)

theorem sendBlock_of_mem (h : Open impl) {op : ChannelOperation α} (hop : op ∈ impl.waiters)
    (hk : op.kind = .send) : impl.sendState = .block := by
  rcases h.senders op hop hk with ⟨hs, _⟩ | ⟨hc, _⟩
  · exact hs
  · exact absurd hc h.notClosed

end Open

theorem pendingSends_nil_of_receivers (h : ∀ op ∈ impl.waiters, op.kind = .receive) :
    pendingSends impl = [] := by
  simp only [pendingSends, List.filterMap_eq_nil_iff]
  intro op hop
  cases op with
  | send => cases h _ hop
  | receive => rfl

theorem bufferPush_transfer (h : Open impl) (hs : impl.sendState = .buffer) (id : Nat) (a : α) :
    Transfer impl [(id, a)] [] (bufferPush impl a) [] where
  toCoherent := bufferPush_coherent h.toCoherent hs a
  bounded := by simpa [bufferPush, Nat.succ_le_iff] using h.sendBuffer hs
  sendBuffer := by
    have := h.sendBuffer hs
    simp only [bufferPush]
    split
    · simp
    · intro _
      simp only [List.length_append, List.length_singleton] at *
      omega
  receiveBuffer := by simp [bufferPush]
  notClosed := by
    simp only [bufferPush, hs]
    split <;> simp
  maxBufferSize := rfl
  sound := by simp
  withdrawn := by simp [withdrawals]
  order := by
    have hw := h.waiters_of_sendBuffer hs
    exact ⟨[(id, a)], by simp [pendingSends, bufferPush, hw], by simp [bufferPush]⟩
  completes := by simp [bufferPush]

theorem handToReceiver_cons {op : ChannelOperation α} {ops : List (ChannelOperation α)}
    (hw : impl.waiters = op :: ops) (a : α) :
    handToReceiver impl a = some ({ impl with
      waiters := ops
      sendState := if ops = [] then impl.emptyState else impl.sendState },
      [.complete op (.received (.value a))]) := by
  simp only [handToReceiver, hw]

theorem takeBuffered_drain {a : α} {rest : List α} (hb : impl.buffer = a :: rest)
    (hw : impl.waiters = []) :
    takeBuffered impl = some (a, { impl with
      buffer := rest
      receiveState := if rest = [] then impl.drainedState else impl.receiveState
      sendState := if impl.sendState = .closed then .closed else .buffer }, []) := by
  simp only [takeBuffered, hb, hw]

theorem takeBuffered_refill {a b : α} {rest : List α} {id key : Nat}
    {ops : List (ChannelOperation α)} (hb : impl.buffer = a :: rest)
    (hw : impl.waiters = .send id key b :: ops) :
    takeBuffered impl = some (a, { impl with buffer := rest ++ [b], waiters := ops },
      [.complete (.send id key b) .sent]) := by
  simp only [takeBuffered, hb, hw, ChannelOperation.getPayload, Option.map_some]

theorem takeWaiting_cons {a : α} {id key : Nat} {ops : List (ChannelOperation α)}
    (hw : impl.waiters = .send id key a :: ops) :
    takeWaiting impl = some (a, { impl with
      waiters := ops
      receiveState := if ops = [] then impl.drainedState else impl.receiveState },
      [.complete (.send id key a) .sent]) := by
  simp only [takeWaiting, hw, ChannelOperation.getPayload, Option.map_some]

theorem handToReceiver_transfer (h : Open impl) (hs : impl.sendState = .waiter) (id : Nat)
    (a : α) : ∃ r, handToReceiver impl a = some r ∧ Transfer impl [(id, a)] [] r.1 r.2 := by
  have hk : ∀ op ∈ impl.waiters, op.kind = .receive := fun op => h.kind_of_sendWaiter hs
  cases hw : impl.waiters with
  | nil => exact absurd hw (h.sendWaiter hs)
  | cons op ops =>
    have hr : impl.receiveState = .block :=
      (h.receivers op (by simp [hw]) (hk op (by simp [hw]))).1
    have hb : impl.buffer = [] := h.buffer_nil (by simp [hr])
    have he := emptyState_ne impl
    refine ⟨_, handToReceiver_cons hw a, ?_⟩
    constructor
    · constructor
      · exact handToReceiver_coherent h.toCoherent hs (handToReceiver_cons hw a)
      · simp [hb]
      · simp only [Implementation.emptyState, hb, hs]
        split
        · split
          · simp
          · simp only [List.length_nil]
            omega
        · simp
      · simp [hb, hr]
      · simp only [hs]
        split
        · exact he.2
        · simp
    · rfl
    · simp [Event.Sound, Completion.kind, hk op (by simp [hw])]
    · simp [withdrawals, Event.withdraws]
    · refine ⟨[(id, a)], ?_, ?_⟩
      · rw [pendingSends_nil_of_receivers hk, pendingSends_nil_of_receivers]
        · simp
        · exact fun o ho => hk o (by simp [hw, show o ∈ ops from ho])
      · simp [hb, Event.delivers]
    · simp [hw, Event.completes]

theorem takeBuffered_transfer (h : Open impl) (hr : impl.receiveState = .buffer) :
    ∃ a impl' events, takeBuffered impl = some (a, impl', events) ∧
      events.flatMap Event.delivers = [] ∧
      Transfer impl [] [] impl' (events ++ [.tryReceived a]) := by
  have hk : ∀ op ∈ impl.waiters, op.kind = .send :=
    fun op => h.kind_of_receive_ne_block (by simp [hr])
  cases hb : impl.buffer with
  | nil => exact absurd hb (h.receiveBuffer.mp hr)
  | cons a rest =>
    have hl := h.bounded
    rw [hb, List.length_cons] at hl
    cases hw : impl.waiters with
    | nil =>
      have hres := takeBuffered_drain hb hw
      refine ⟨_, _, _, hres, rfl, ?_⟩
      constructor
      · constructor
        · exact takeBuffered_coherent h.toCoherent hr hres
        · simp only
          omega
        · intro _
          simp only
          omega
        · simp only [Implementation.drainedState, h.notClosed, if_false, hr]
          split <;> simp_all
        · simp [h.notClosed]
      · rfl
      · simp [Event.Sound]
      · simp [withdrawals, Event.withdraws]
      · exact ⟨[], by simp [pendingSends, withdrawals, Event.withdraws], by simp [hb, Event.delivers]⟩
      · simp [Event.completes]
    | cons op ops =>
      have hop : op ∈ impl.waiters := by simp [hw]
      obtain ⟨id, key, b, rfl, _⟩ := getPayload_of_send (hk op hop)
      have hres := takeBuffered_refill hb hw
      refine ⟨_, _, _, hres, rfl, ?_⟩
      have hs := h.sendBlock_of_mem hop rfl
      constructor
      · constructor
        · exact takeBuffered_coherent h.toCoherent hr hres
        · simpa using hl
        · simp [hs]
        · simp [hr]
        · exact h.notClosed
      · rfl
      · simp [Event.Sound, Completion.kind, ChannelOperation.kind]
      · simp [withdrawals, Event.withdraws]
      · refine ⟨[(id, b)], ?_, ?_⟩
        · simp [pendingSends, hw, ChannelOperation.pending, withdrawals, Event.withdraws]
        · simp [hb, Event.delivers]
      · simp [hw, Event.completes]

theorem takeWaiting_transfer (h : Open impl) (hr : impl.receiveState = .waiter) :
    ∃ a impl' events, takeWaiting impl = some (a, impl', events) ∧
      events.flatMap Event.delivers = [] ∧
      Transfer impl [] [] impl' (events ++ [.tryReceived a]) := by
  have hk : ∀ op ∈ impl.waiters, op.kind = .send :=
    fun op => h.kind_of_receive_ne_block (by simp [hr])
  have hb : impl.buffer = [] := h.buffer_nil (by simp [hr])
  cases hw : impl.waiters with
  | nil => exact absurd hw (h.receiveWaiter hr)
  | cons op ops =>
    have hop : op ∈ impl.waiters := by simp [hw]
    obtain ⟨id, key, b, rfl, _⟩ := getPayload_of_send (hk op hop)
    have hres := takeWaiting_cons hw
    have hs := h.sendBlock_of_mem hop rfl
    refine ⟨_, _, _, hres, rfl, ?_⟩
    constructor
    · constructor
      · exact takeWaiting_coherent h.toCoherent hr hres
      · simp [hb]
      · simp [hs]
      · simp only [Implementation.drainedState, hs, hb, hr]
        split <;> simp
      · exact h.notClosed
    · rfl
    · simp [Event.Sound, Completion.kind, ChannelOperation.kind]
    · simp [withdrawals, Event.withdraws]
    · refine ⟨[(id, b)], ?_, ?_⟩
      · simp [pendingSends, hw, ChannelOperation.pending, withdrawals, Event.withdraws]
      · simp [hb, Event.delivers]
    · simp [hw, Event.completes]

theorem transfer_refl (h : Open impl) : Transfer impl [] [] impl [] where
  toOpen := h
  maxBufferSize := rfl
  sound := by simp
  withdrawn := by simp [withdrawals]
  order := ⟨[], by simp [withdrawals], by simp⟩
  completes := by simp

theorem trySend_transfer (h : Open impl) (id : Nat) (a : α) :
    ∃ r, trySend impl a = some r ∧
      Transfer impl (accepts impl (.trySend id a)) [] r.2.1 r.2.2 := by
  cases hs : impl.sendState with
  | block =>
    have hr : trySend impl a = some (false, impl, []) := by simp only [trySend, hs]
    exact ⟨_, hr, by simpa [accepts, hr] using transfer_refl h⟩
  | buffer =>
    have hr : trySend impl a = some (true, bufferPush impl a, []) := by simp only [trySend, hs]
    exact ⟨_, hr, by simpa [accepts, hr] using bufferPush_transfer h hs id a⟩
  | waiter =>
    obtain ⟨r, hr, ht⟩ := handToReceiver_transfer h hs id a
    have hr' : trySend impl a = some (true, r) := by simp only [trySend, hs, hr, Option.map_some]
    exact ⟨_, hr', by simpa [accepts, hr'] using ht⟩
  | closed => exact absurd hs h.notClosed

theorem startSendOp_transfer (h : Open impl) (id key : Nat) (a : α) :
    ∃ r, startSendOp impl id key a = some r ∧ Transfer impl [(id, a)] [id] r.1 r.2 := by
  have sound : (Event.complete (.send id key a) .sent : Event α).Sound := rfl
  cases hs : impl.sendState with
  | block =>
    have hr : startSendOp impl id key a = some ({ impl with
        waiters := impl.waiters ++ [.send id key a]
        receiveState := if impl.receiveState = .block then .waiter else impl.receiveState },
        []) := by
      simp only [startSendOp, hs]
    refine ⟨_, hr, ?_⟩
    constructor
    · constructor
      · exact startSendOp_coherent h.toCoherent hr
      · exact h.bounded
      · exact h.sendBuffer
      · simp only
        split
        · rename_i hb
          simp [h.buffer_nil (by simp [hb])]
        · exact h.receiveBuffer
      · exact h.notClosed
    · rfl
    · simp
    · simp [withdrawals]
    · exact ⟨[], by simp [pendingSends, withdrawals, ChannelOperation.pending], by simp⟩
    · simp [ChannelOperation.id]
  | buffer =>
    refine ⟨_, by simp only [startSendOp, hs]; rfl, ?_⟩
    refine (bufferPush_transfer h hs id a).retell [id] ?_ ?_ ?_ ?_
    · simpa using sound
    · simp [withdrawals, Event.withdraws]
    · simp [Event.delivers]
    · simp [Event.completes, ChannelOperation.id]
  | waiter =>
    obtain ⟨r, hr, ht⟩ := handToReceiver_transfer h hs id a
    refine ⟨_, by simp only [startSendOp, hs, hr, Option.map_some]; rfl, ?_⟩
    refine ht.retell [id] ?_ ?_ ?_ ?_
    · intro e he
      rcases List.mem_append.mp he with he | he
      · exact ht.sound e he
      · rw [List.mem_singleton.mp he]; exact sound
    · simp [withdrawals, Event.withdraws]
    · simp [Event.delivers]
    · simp [Event.completes, ChannelOperation.id]
  | closed => exact absurd hs h.notClosed

theorem tryReceive_transfer (h : Open impl) :
    ∃ r, tryReceive impl = some r ∧ Transfer impl [] [] r.2.1 r.2.2 := by
  cases hs : impl.receiveState with
  | block => exact ⟨_, by simp only [tryReceive, hs]; rfl, transfer_refl h⟩
  | buffer =>
    obtain ⟨a, impl', events, hr, _, ht⟩ := takeBuffered_transfer h hs
    exact ⟨_, by simp only [tryReceive, hs, hr, Option.map_some]; rfl, ht⟩
  | waiter =>
    obtain ⟨a, impl', events, hr, _, ht⟩ := takeWaiting_transfer h hs
    exact ⟨_, by simp only [tryReceive, hs, hr, Option.map_some]; rfl, ht⟩
  | closed => exact absurd hs h.receive_ne_closed

theorem startReceiveOp_transfer (h : Open impl) (id key : Nat) :
    ∃ r, startReceiveOp impl id key = some r ∧ Transfer impl [] [id] r.1 r.2 := by
  cases hs : impl.receiveState with
  | block =>
    have hr : startReceiveOp impl id key = some ({ impl with
        waiters := impl.waiters ++ [.receive id key]
        sendState := if impl.sendState = .closed then impl.sendState else .waiter }, []) := by
      simp only [startReceiveOp, hs]
    refine ⟨_, hr, ?_⟩
    constructor
    · constructor
      · exact startReceiveOp_coherent h.toCoherent hr
      · exact h.bounded
      · simp [h.notClosed]
      · simp [hs, h.buffer_nil (by simp [hs])]
      · simp [h.notClosed]
    · rfl
    · simp
    · simp [withdrawals]
    · exact ⟨[], by simp [pendingSends, withdrawals, ChannelOperation.pending], by simp⟩
    · simp [ChannelOperation.id]
  | buffer =>
    obtain ⟨a, impl', events, hr, hd, ht⟩ := takeBuffered_transfer h hs
    refine ⟨_, by simp only [startReceiveOp, hs, hr, Option.map_some]; rfl, ?_⟩
    refine ht.retell [id] ?_ ?_ ?_ ?_
    · intro e he
      rcases List.mem_cons.mp he with rfl | he
      · rfl
      · exact ht.sound e (List.mem_append_left _ he)
    · simp [withdrawals, Event.withdraws]
    · simp [Event.delivers, hd]
    · simpa [Event.completes, ChannelOperation.id] using (List.perm_append_singleton id _).symm
  | waiter =>
    obtain ⟨a, impl', events, hr, hd, ht⟩ := takeWaiting_transfer h hs
    refine ⟨_, by simp only [startReceiveOp, hs, hr, Option.map_some]; rfl, ?_⟩
    refine ht.retell [id] ?_ ?_ ?_ ?_
    · intro e he
      rcases List.mem_append.mp he with he | he
      · exact ht.sound e (List.mem_append_left _ he)
      · rw [List.mem_singleton.mp he]; rfl
    · simp [withdrawals, Event.withdraws]
    · simp [Event.delivers]
    · simp [Event.completes, ChannelOperation.id]
  | closed => exact absurd hs h.receive_ne_closed

section Cancellation

/-- What the cancellation of some of the waiters does. -/
theorem cancelWaiter_sound (h : Open impl) {op : ChannelOperation α} (hop : op ∈ impl.waiters) :
    (cancelWaiter impl op).Sound := by
  rcases kind_cases op with hk | hk
  · simp [cancelWaiter, h.sendBlock_of_mem hop hk, Event.Sound, Completion.kind, hk]
  · simp [cancelWaiter, (h.receivers op hop hk).2, Event.Sound, Completion.kind, hk]

theorem withdrawals_cancelWaiter (h : Open impl) {ops : List (ChannelOperation α)}
    (hops : ∀ op ∈ ops, op ∈ impl.waiters) :
    withdrawals (ops.map (cancelWaiter impl)) =
      (ops.filterMap ChannelOperation.pending).map Prod.fst := by
  induction ops with
  | nil => rfl
  | cons op ops ih =>
    have hop := hops op (List.mem_cons_self ..)
    have ih := ih fun o ho => hops o (List.mem_cons_of_mem _ ho)
    simp only [withdrawals] at ih ⊢
    cases op with
    | send id key a =>
      simp [cancelWaiter, h.sendBlock_of_mem hop rfl, Event.withdraws, ChannelOperation.id, ih]
    | receive id key =>
      simp [cancelWaiter, (h.receivers _ hop rfl).2, Event.withdraws, ih]

theorem delivers_cancelWaiter (ops : List (ChannelOperation α)) :
    (ops.map (cancelWaiter impl)).flatMap Event.delivers = [] := by
  simp only [List.flatMap_eq_nil_iff, List.mem_map]
  rintro _ ⟨op, _, rfl⟩
  simp only [cancelWaiter]
  split <;> rfl

theorem completes_cancelWaiter (ops : List (ChannelOperation α)) :
    (ops.map (cancelWaiter impl)).flatMap Event.completes = ops.map (·.id) := by
  induction ops with
  | nil => rfl
  | cons op ops ih => simp only [List.map_cons, List.flatMap_cons, ih]; rfl

/-- Withdrawing the pending sends that satisfy `p` leaves those that do not, when no two of them
share an identity. -/
theorem filter_pending (p : ChannelOperation α → Bool) (ops : List (ChannelOperation α))
    (hn : ((ops.filterMap ChannelOperation.pending).map Prod.fst).Nodup) :
    (ops.filterMap ChannelOperation.pending).filter
        (·.1 ∉ ((ops.filter p).filterMap ChannelOperation.pending).map Prod.fst)
      = (ops.filter (!p ·)).filterMap ChannelOperation.pending := by
  induction ops with
  | nil => rfl
  | cons op ops ih =>
    cases op with
    | receive id key =>
      have ih := ih hn
      by_cases hp : p (.receive id key)
      · rw [List.filter_cons_of_pos hp, List.filter_cons_of_neg (by simp [hp])]
        exact ih
      · rw [List.filter_cons_of_neg hp, List.filter_cons_of_pos (by simp [hp])]
        simpa only [filterMap_pending_receive] using ih
    | send id key a =>
      rw [filterMap_pending_send, List.map_cons, List.nodup_cons] at hn
      obtain ⟨hid, hn⟩ := hn
      have ih := ih hn
      by_cases hp : p (.send id key a)
      · rw [List.filter_cons_of_pos hp, List.filter_cons_of_neg (by simp [hp]), ← ih]
        simp only [filterMap_pending_send, List.map_cons]
        rw [List.filter_cons_of_neg (by simp)]
        apply List.filter_congr
        intro q hq
        have hne : q.1 ≠ id := by
          rintro rfl
          exact hid (List.mem_map.mpr ⟨q, hq, rfl⟩)
        simp [hne]
      · have hid' : id ∉ ((ops.filter p).filterMap ChannelOperation.pending).map Prod.fst :=
          fun hmem => hid ((((List.filter_sublist).filterMap _).map _).subset hmem)
        rw [List.filter_cons_of_neg hp, List.filter_cons_of_pos (by simp [hp]),
          filterMap_pending_send, filterMap_pending_send,
          List.filter_cons_of_pos (by simpa using hid'), ih]

theorem noWaiters_open (h : Open impl) : Open { impl with waiters := [] }.noWaiters where
  toCoherent := noWaiters_coherent rfl h.closed
  bounded := h.bounded
  sendBuffer := by
    have := h.sendBuffer
    simp only [Implementation.noWaiters]
    split <;> simp_all
  receiveBuffer := by
    have := h.receiveBuffer
    simp only [Implementation.noWaiters]
    split <;> simp_all
  notClosed := by
    have := h.notClosed
    simp only [Implementation.noWaiters]
    split <;> simp_all

/-- Cancelling the waiters that satisfy `p`, with the state words `impl'` has afterwards. -/
theorem cancelWaiters_transfer (h : Open impl)
    (hn : ((pendingSends impl).map Prod.fst).Nodup) (p : ChannelOperation α → Bool)
    {impl' : Implementation α} (h' : Open impl') (hm : impl'.maxBufferSize = impl.maxBufferSize)
    (hb : impl'.buffer = impl.buffer) (hw : impl'.waiters = impl.waiters.filter (!p ·)) :
    Transfer impl [] [] impl' ((impl.waiters.filter p).map (cancelWaiter impl)) := by
  have hsub : ∀ op ∈ impl.waiters.filter p, op ∈ impl.waiters := fun op => List.mem_of_mem_filter
  have hwd := withdrawals_cancelWaiter h hsub
  constructor
  · exact h'
  · exact hm
  · intro e he
    obtain ⟨op, hop, rfl⟩ := List.mem_map.mp he
    exact cancelWaiter_sound h (hsub op hop)
  · rw [hwd]
    intro id hid
    exact (((List.filter_sublist).filterMap _).map _).subset hid
  · refine ⟨[], ?_, ?_⟩
    · rw [hwd]
      simpa [pendingSends, hw] using filter_pending p impl.waiters hn
    · rw [delivers_cancelWaiter, hb]
      simp
  · rw [completes_cancelWaiter, hw, List.append_nil, ← List.map_append]
    exact (List.filter_append_perm p impl.waiters).symm.map _

theorem cancel_transfer (h : Open impl) (hn : ((pendingSends impl).map Prod.fst).Nodup) :
    Transfer impl [] [] (cancel impl).1 (cancel impl).2 := by
  have hw : (cancel impl).1.waiters = impl.waiters.filter (!(fun _ => true) ·) := by
    simp [cancel, Implementation.noWaiters]
  simpa [cancel] using cancelWaiters_transfer h hn (fun _ => true) (noWaiters_open h) rfl rfl hw

theorem cancelByKey_transfer (h : Open impl) (hn : ((pendingSends impl).map Prod.fst).Nodup)
    (key : Nat) : Transfer impl [] [] (cancelByKey impl key).1 (cancelByKey impl key).2 := by
  have hf : impl.waiters.filter (·.cancellationKey ≠ key)
      = impl.waiters.filter (fun op => !decide (op.cancellationKey = key)) := by
    simp
  apply cancelWaiters_transfer h hn (·.cancellationKey = key)
  · have hc := cancelByKey_coherent h.toCoherent key
    simp only [cancelByKey] at hc ⊢
    split
    · rename_i hw
      rw [hw]
      exact noWaiters_open h
    · rename_i hw
      rw [if_neg hw] at hc
      exact { h with toCoherent := hc }
  · simp only [cancelByKey]
    split <;> rfl
  · simp only [cancelByKey]
    split <;> rfl
  · simp only [cancelByKey, hf]
    split <;> rfl

end Cancellation

theorem perform_transfer (h : Open impl) (hn : ((pendingSends impl).map Prod.fst).Nodup)
    {a : Action α} (ha : a.Transfers) :
    ∃ r, perform impl a = some r ∧ Transfer impl (accepts impl a) a.starts r.1 r.2 := by
  cases a with
  | trySend id a =>
    obtain ⟨r, hr, ht⟩ := trySend_transfer h id a
    exact ⟨_, by simp only [perform, hr, Option.map_some], ht⟩
  | startSendOp id key a =>
    obtain ⟨r, hr, ht⟩ := startSendOp_transfer h id key a
    exact ⟨r, hr, by simpa [accepts, h.notClosed, Action.starts] using ht⟩
  | tryReceive =>
    obtain ⟨r, hr, ht⟩ := tryReceive_transfer h
    exact ⟨_, by simp only [perform, hr, Option.map_some], ht⟩
  | startReceiveOp id key => exact startReceiveOp_transfer h id key
  | cancel => exact ⟨_, rfl, cancel_transfer h hn⟩
  | cancelByKey key => exact ⟨_, rfl, cancelByKey_transfer h hn key⟩
  | close => exact ha.elim
  | reset => exact ha.elim

/-- `passed` are the accepted values that no longer wait with their sender: they have been
delivered or are in the buffer. -/
structure Fifo (s : State α) (passed : List (Nat × α)) : Prop where
  kept : s.accepted.filter (·.1 ∉ s.withdrawn) = passed ++ pendingSends s.impl
  values : passed.map Prod.snd = s.delivered ++ s.impl.buffer
  distinct : (s.accepted.map Prod.fst).Nodup
  withdrawn : s.withdrawn ⊆ s.accepted.map Prod.fst

structure Served (s : State α) (maxBufferSize : Nat) : Prop extends Open s.impl where
  capacity : s.impl.maxBufferSize = maxBufferSize
  fifo : ∃ passed, Fifo s passed
  once : s.started.Nodup
  settled : s.started.Perm (s.completed ++ s.impl.waiters.map (·.id))

theorem Fifo.distinct_pending {s : State α} {passed : List (Nat × α)} (h : Fifo s passed) :
    (passed.map Prod.fst ++ (pendingSends s.impl).map Prod.fst).Nodup := by
  rw [← List.map_append, ← h.kept]
  exact h.distinct.sublist (List.filter_sublist.map _)

theorem construct_open (n : Nat) : Open (construct n : Implementation α) where
  toCoherent := construct_coherent n
  bounded := Nat.zero_le n
  sendBuffer := by
    simp only [construct]
    split
    · simp
    · intro _
      simp only [List.length_nil]
      omega
  receiveBuffer := by simp [construct]
  notClosed := by
    simp only [construct]
    split <;> simp

theorem initial_served (n : Nat) : Served (initial n : State α) n where
  toOpen := construct_open n
  capacity := rfl
  fifo := ⟨[], rfl, rfl, List.nodup_nil, List.nil_subset _⟩
  once := List.nodup_nil
  settled := List.Perm.refl _

theorem nodup_append_singleton {ids : List Nat} {id : Nat} (h : ids.Nodup) (hid : id ∉ ids) :
    (ids ++ [id]).Nodup :=
  List.nodup_append_comm.mp (List.nodup_cons.mpr ⟨hid, h⟩)

theorem Fresh.accepts {s : State α} {a : Action α} (hf : Fresh s a)
    (h : (s.accepted.map Prod.fst).Nodup) :
    (s.accepted.map Prod.fst ++ (accepts s.impl a).map Prod.fst).Nodup := by
  cases a with
  | trySend id a =>
    simp only [ChannelService.accepts]
    split
    · exact nodup_append_singleton h hf.1
    · simpa using h
  | startSendOp id key a =>
    simp only [ChannelService.accepts]
    split
    · simpa using h
    · exact nodup_append_singleton h hf.1
  | _ => simpa [ChannelService.accepts] using h

theorem Fresh.starts {s : State α} {a : Action α} (hf : Fresh s a) (h : s.started.Nodup) :
    (s.started ++ a.starts).Nodup := by
  cases a with
  | startSendOp id key a => exact nodup_append_singleton h hf.2
  | startReceiveOp id key => exact nodup_append_singleton h hf.2
  | _ => simpa [Action.starts] using h

theorem Fifo.step {s : State α} {passed : List (Nat × α)} (h : Fifo s passed) {a : Action α}
    (hf : Fresh s a) {impl' : Implementation α} {events : List (Event α)}
    (ht : Transfer s.impl (accepts s.impl a) a.starts impl' events) :
    ∃ moved, Fifo (s.record a impl' events) (passed ++ moved) := by
  obtain ⟨moved, horder, hvalues⟩ := ht.order
  have hpend : (pendingSends s.impl).map Prod.fst ⊆ s.accepted.map Prod.fst := by
    apply List.map_subset
    have : pendingSends s.impl ⊆ passed ++ pendingSends s.impl := List.subset_append_right _ _
    rw [← h.kept] at this
    exact List.Subset.trans this (List.filter_subset_self _)
  have hnew : (s.accepted.map Prod.fst ++ (accepts s.impl a).map Prod.fst).Nodup :=
    hf.accepts h.distinct
  have hwd : s.withdrawn ++ withdrawals events ⊆ s.accepted.map Prod.fst :=
    List.append_subset.mpr ⟨h.withdrawn, fun id hid => hpend (ht.withdrawn id hid)⟩
  refine ⟨moved, ?_, ?_, ?_, ?_⟩
  · have hacc : (accepts s.impl a).filter (·.1 ∉ s.withdrawn ++ withdrawals events)
        = accepts s.impl a := by
      apply List.filter_eq_self.mpr
      intro q hq
      have := List.disjoint_of_nodup_append hnew
      have hq := fun hm => this (hwd hm) (List.mem_map_of_mem hq)
      simpa using hq
    have hpassed : passed.filter (·.1 ∉ withdrawals events) = passed := by
      apply List.filter_eq_self.mpr
      intro q hq
      have := List.disjoint_of_nodup_append h.distinct_pending
      have hq := fun hm => this (List.mem_map_of_mem hq) (ht.withdrawn _ hm)
      simpa using hq
    calc
      (s.accepted ++ accepts s.impl a).filter (·.1 ∉ s.withdrawn ++ withdrawals events)
          = s.accepted.filter (·.1 ∉ s.withdrawn ++ withdrawals events)
              ++ accepts s.impl a := by
        rw [List.filter_append, hacc]
      _ = (s.accepted.filter (·.1 ∉ s.withdrawn)).filter (·.1 ∉ withdrawals events)
              ++ accepts s.impl a := by
        rw [List.filter_filter]
        simp [Bool.and_comm]
      _ = passed ++ ((pendingSends s.impl).filter (·.1 ∉ withdrawals events)
              ++ accepts s.impl a) := by
        rw [h.kept, List.filter_append, hpassed, List.append_assoc]
      _ = passed ++ moved ++ pendingSends impl' := by
        rw [horder, List.append_assoc]
  · simp only [State.record, List.map_append, h.values, List.append_assoc, hvalues]
  · simpa only [State.record, List.map_append] using hnew
  · simp only [State.record, List.map_append]
    exact List.Subset.trans hwd (List.subset_append_left _ _)

theorem step_served {s : State α} {n : Nat} (h : Served s n) {a : Action α} (hf : Fresh s a)
    (ha : a.Transfers) : ∃ s', step s a = some s' ∧ Served s' n := by
  obtain ⟨passed, hfifo⟩ := h.fifo
  have hn := (List.nodup_append.mp hfifo.distinct_pending).2.1
  obtain ⟨⟨impl', events⟩, hr, ht⟩ := perform_transfer h.toOpen hn ha
  refine ⟨s.record a impl' events, by simp only [step, hr, Option.map_some], ?_⟩
  constructor
  · exact ht.toOpen
  · exact ht.maxBufferSize.trans h.capacity
  · obtain ⟨moved, hm⟩ := hfifo.step hf ht
    exact ⟨_, hm⟩
  · exact hf.starts h.once
  · simp only [State.record]
    refine (h.settled.append_right a.starts).trans ?_
    rw [List.append_assoc, List.append_assoc]
    exact ht.completes.append_left _

theorem reachable_served {n : Nat} {s : State α}
    (h : Reachable step (fun s a => Fresh s a ∧ a.Transfers) (initial n) s) : Served s n := by
  apply h.invariant (initial_served n)
  intro s a s' hi hok hs
  obtain ⟨s'', hs', hi'⟩ := step_served hi hok.1 hok.2
  rw [hs] at hs'
  cases hs'
  exact hi'

theorem cancel_settles {s s' : State α} {n : Nat} (h : Served s n)
    (hs : step s .cancel = some s') : s'.started.Perm s'.completed := by
  obtain ⟨s'', hs', h'⟩ := step_served h (a := .cancel) trivial trivial
  rw [hs] at hs'
  cases hs'
  have hw : s'.impl.waiters = [] := by
    cases hs
    rfl
  simpa [hw] using h'.settled

/-- In a channel that is neither closed nor reset, the values delivered so far, those in the
buffer and those of the waiting senders are together the accepted values that were not cancelled,
in the order of their acceptance.  Every operation that was started has either completed once or
still waits, and a cancellation completes all that wait. -/
theorem channel_fifo {maxBufferSize : Nat} {s : State α}
    (h : Reachable step (fun s a => Fresh s a ∧ a.Transfers) (initial maxBufferSize) s) :
    (s.accepted.filter (·.1 ∉ s.withdrawn)).map Prod.snd
      = s.delivered ++ s.impl.buffer ++ (pendingSends s.impl).map Prod.snd ∧
    s.started.Nodup ∧ s.started.Perm (s.completed ++ s.impl.waiters.map (·.id)) ∧
    (∀ s', step s .cancel = some s' → s'.started.Perm s'.completed) ∧
    s.impl.buffer.length ≤ maxBufferSize ∧
    (∀ op ∈ s.impl.waiters, op.kind = .receive →
      s.impl.buffer = [] ∧ ∀ op' ∈ s.impl.waiters, op'.kind = .receive) ∧
    ∀ a, Fresh s a → a.Transfers →
      ∃ impl events, perform s.impl a = some (impl, events) ∧ ∀ e ∈ events, e.Sound := by
  have hi := reachable_served h
  obtain ⟨passed, hfifo⟩ := hi.fifo
  refine ⟨?_, hi.once, hi.settled, fun s' => cancel_settles hi, ?_, ?_, ?_⟩
  · rw [hfifo.kept, List.map_append, hfifo.values]
  · rw [← hi.capacity]
    exact hi.bounded
  · intro op hop hk
    obtain ⟨hr, hs⟩ := hi.receivers op hop hk
    exact ⟨hi.buffer_nil (by simp [hr]), fun op' => hi.kind_of_sendWaiter hs⟩
  · intro a hf ha
    have hn := (List.nodup_append.mp hfifo.distinct_pending).2.1
    obtain ⟨⟨impl', events⟩, hr, ht⟩ := perform_transfer hi.toOpen hn ha
    exact ⟨impl', events, hr, ht.sound⟩

/-- One slot: a send is buffered, two wait, the first of these is cancelled; the last receive
waits until `try_send` hands it a value. -/
def slotRun : List (Action Nat) :=
  [.startSendOp 0 0 10, .startSendOp 1 5 11, .startSendOp 2 6 12, .cancelByKey 5, .tryReceive,
    .startReceiveOp 3 0, .startReceiveOp 4 0, .trySend 5 13]

def slotEnd : State Nat where
  impl := { receiveState := .block, sendState := .buffer, maxBufferSize := 1, waiters := [],
            buffer := [] }
  accepted := [(0, 10), (1, 11), (2, 12), (5, 13)]
  withdrawn := [1]
  delivered := [10, 12, 13]
  started := [0, 1, 2, 3, 4]
  completed := [0, 1, 2, 3, 4]

theorem slotRun_reaches : exec (guarded step fun s a => Fresh s a ∧ a.Transfers) (initial 1) slotRun
    = some slotEnd := by
  decide

theorem channel_fifo_slot :
    (slotEnd.accepted.filter (·.1 ∉ slotEnd.withdrawn)).map Prod.snd
      = slotEnd.delivered ++ slotEnd.impl.buffer ++ (pendingSends slotEnd.impl).map Prod.snd ∧
    slotEnd.started.Perm (slotEnd.completed ++ slotEnd.impl.waiters.map (·.id)) ∧
    slotEnd.impl.buffer.length ≤ 1 := by
  have h := channel_fifo (exec_guarded_reachable slotRun_reaches)
  exact ⟨h.1, h.2.2.1, h.2.2.2.2.1⟩

end Asio.Experimental.ChannelService
