import Asio.Experimental.ChannelReset

/-! What the receives that follow a `close` report of the values in the buffer. -/

universe u

namespace Asio.Experimental.ChannelService

open Asio.Lib.Transition

variable {α : Type u}

/-- What a receive tells its caller; a `try_receive` that returns `false` has refused. -/
inductive Report (α : Type u)
  | message (m : Message α)
  | refused
  deriving DecidableEq

def Event.tried : Event α → List (Report α)
  | .tryReceived a => [.message (.value a)]
  | .complete .. => []

def Event.toldTo (id : Nat) : Event α → List (Report α)
  | .complete (.receive id' _) (.received m) => if id' = id then [.message m] else []
  | _ => []

def report : Action α → Answer α → List (Report α)
  | .tryReceive, answer =>
    if answer.returned = some true then answer.events.flatMap Event.tried else [.refused]
  | .startReceiveOp id _, answer => answer.events.flatMap (Event.toldTo id)
  | _, _ => []

/-- The reports of all receives among the actions. -/
def transcript : Implementation α → List (Action α) → Option (List (Report α))
  | _, [] => some []
  | impl, a :: later =>
    (respond impl a).bind fun r => (transcript r.1 later).map (report a r.2 ++ ·)

/-- How a receive reports that the channel is closed. -/
def Action.closedReport : Action α → List (Report α)
  | .tryReceive => [.refused]
  | .startReceiveOp .. => [.message .closed]
  | _ => []

/-- The reports when the receives first take what is in the buffer. -/
def drained : List α → List (Action α) → List (Report α)
  | _, [] => []
  | [], a :: later => a.closedReport ++ drained [] later
  | b :: buffer, .tryReceive :: later => .message (.value b) :: drained buffer later
  | b :: buffer, .startReceiveOp .. :: later => .message (.value b) :: drained buffer later
  | b :: buffer, _ :: later => drained (b :: buffer) later

/-- After a `close` the receives deliver what is in the buffer, each value once and in order, and
only then report that the channel is closed, whatever else is done to it short of a `reset`. -/
def DrainsAfterClose (impl : Implementation α) : Prop :=
  ∀ later, .reset ∉ later → transcript (close impl).1 later = some (drained impl.buffer later)

/-- Both ends are closed. -/
def Shut (impl : Implementation α) : Prop :=
  impl.receiveState = .closed ∧ impl.sendState = .closed

section Shut

variable {impl : Implementation α}

theorem close_shut (impl : Implementation α) : Shut (close impl).1 := by
  unfold close
  split
  · exact ⟨rfl, rfl⟩
  · exact ⟨rfl, rfl⟩

theorem Shut.noWaiters (h : Shut impl) : Shut impl.noWaiters := by
  obtain ⟨hr, hs⟩ := h
  simp [Shut, Implementation.noWaiters, hr, hs]

theorem Shut.cancelByKey (h : Shut impl) (key : Nat) : Shut (cancelByKey impl key).1 := by
  have hrest : Shut { impl with waiters := impl.waiters.filter (·.cancellationKey ≠ key) } := h
  unfold ChannelService.cancelByKey
  dsimp only
  split
  · exact hrest.noWaiters
  · exact hrest

theorem perform_shut (h : Shut impl) {a : Action α} (ha : a ≠ .reset) :
    ∃ r, perform impl a = some r ∧ Shut r.1 := by
  obtain ⟨hr, hs⟩ := h
  cases a with
  | trySend id a =>
    exact ⟨(impl, []), by simp only [perform, trySend, hs, Option.map_some], hr, hs⟩
  | startSendOp id key a =>
    exact ⟨(impl, _), by simp only [perform, startSendOp, hs]; rfl, hr, hs⟩
  | tryReceive =>
    exact ⟨(impl, []), by simp only [perform, tryReceive, hr, Option.map_some], hr, hs⟩
  | startReceiveOp id key =>
    exact ⟨(impl, _), by simp only [perform, startReceiveOp, hr]; rfl, hr, hs⟩
  | cancel => exact ⟨cancel impl, rfl, Shut.noWaiters ⟨hr, hs⟩⟩
  | cancelByKey key => exact ⟨cancelByKey impl key, rfl, Shut.cancelByKey ⟨hr, hs⟩ key⟩
  | close => exact ⟨close impl, rfl, close_shut impl⟩
  | reset => exact absurd rfl ha

theorem respond_shut (h : Shut impl) {a : Action α} (ha : a ≠ .reset) :
    ∃ r, respond impl a = some r ∧ Shut r.1 ∧ report a r.2 = a.closedReport := by
  obtain ⟨r, hperform, hshut⟩ := perform_shut h ha
  refine ⟨_, by rw [respond, hperform, Option.map_some], hshut, ?_⟩
  cases a with
  | tryReceive => simp [report, returned, tryReceive, h.1, Action.closedReport]
  | startReceiveOp id key =>
    simp only [perform, startReceiveOp, h.1] at hperform
    cases hperform
    simp [report, Event.toldTo, Action.closedReport]
  | trySend | startSendOp | cancel | cancelByKey | close | reset => rfl

/-- Nothing is received from a channel that is closed. -/
theorem transcript_shut (h : Shut impl) {later : List (Action α)} (hl : .reset ∉ later) :
    transcript impl later = some (drained [] later) := by
  induction later generalizing impl with
  | nil => rfl
  | cons a later ih =>
    rw [List.mem_cons, not_or] at hl
    obtain ⟨r, hrespond, hshut, hreport⟩ := respond_shut h (Ne.symm hl.1)
    rw [transcript, hrespond, Option.bind_some, ih hshut hl.2, Option.map_some, hreport, drained]

end Shut

/-- No state that is reached has a receiving end that can fall back to closed: the transition that
would report it after the last value is never taken. -/
theorem drainedState_eq_block {maxBufferSize : Nat} {s : State α}
    (h : Reachable step Fresh (initial maxBufferSize) s) (hr : s.impl.receiveState ≠ .closed) :
    s.impl.drainedState = .block := by
  have hs : s.impl.sendState ≠ .closed := fun hs => hr ((reachable_coherent h).closed.mpr hs)
  rw [Implementation.drainedState, if_neg hs]

/-- What is in the buffer of a channel stays receivable after `close` exactly when nothing is. -/
theorem drainsAfterClose_iff (impl : Implementation α) :
    DrainsAfterClose impl ↔ impl.buffer = [] := by
  constructor
  · intro h
    have hone := h [.tryReceive] (by simp)
    rw [transcript_shut (close_shut impl) (by simp)] at hone
    cases hb : impl.buffer with
    | nil => rfl
    | cons b buffer =>
      rw [hb] at hone
      cases Option.some.inj hone
  · intro h later hl
    rw [h, transcript_shut (close_shut impl) hl]

/-- A channel of capacity one with its value in the buffer. -/
def oneBuffered : State Nat where
  impl := { receiveState := .buffer, sendState := .block, maxBufferSize := 1, waiters := [],
            buffer := [10] }
  accepted := [(0, 10)]
  withdrawn := []
  delivered := []
  started := []
  completed := []

theorem oneBuffered_reaches :
    exec (guarded step Fresh) (initial 1) [.trySend 0 10] = some oneBuffered := by
  decide

/-- The value that was accepted is refused after `close`, by either kind of receive. -/
theorem close_loses_buffered :
    Reachable step Fresh (initial 1) oneBuffered ∧ oneBuffered.impl.buffer = [10] ∧
      transcript (close oneBuffered.impl).1 [.tryReceive, .startReceiveOp 1 7] =
        some [.refused, .message .closed] ∧
      ¬ DrainsAfterClose oneBuffered.impl := by
  refine ⟨exec_guarded_reachable oneBuffered_reaches, rfl, rfl, ?_⟩
  intro h
  exact absurd (h [.tryReceive] (by simp)) (by decide)

end Asio.Experimental.ChannelService
