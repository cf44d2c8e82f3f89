import Asio.Lib.Observation
import Asio.Experimental.ChannelMoves

/-! What a channel that has been reset does later. -/

universe u v

namespace Asio.Experimental.ChannelService

open Asio.Lib.Transition Asio.Lib.Simulation

variable {ι : Type u} {α : Type v}

/-- What can be seen of a channel when an operation is performed. -/
structure Answer (α : Type v) where
  capacity : Nat
  isOpen : Bool
  ready : Bool
  returned : Option Bool
  events : List (Event α)

def returned (impl : Implementation α) : Action α → Option Bool
  | .trySend _ a => (trySend impl a).map Prod.fst
  | .tryReceive => (tryReceive impl).map Prod.fst
  | _ => none

def respond (impl : Implementation α) (a : Action α) : Option (Implementation α × Answer α) :=
  (perform impl a).map fun r =>
    (r.1, ⟨impl.maxBufferSize, isOpen impl, ready impl, returned impl a, r.2⟩)

/-- The kind that a cancellation takes the operations for is theirs. -/
def Legible (impl : Implementation α) : Prop :=
  ∀ op ∈ impl.waiters, op.kind = if impl.sendState = .block then .send else .receive

/-- The channel is closed, or nothing is in the buffer and it is ready to be sent to. -/
def FitToReset (impl : Implementation α) : Prop :=
  impl.receiveState ≠ .buffer ∧
    (impl.sendState = .closed ∨ impl.sendState = .buffer ∨ impl.maxBufferSize = 0)

instance (impl : Implementation α) : Decidable (FitToReset impl) := by
  unfold FitToReset
  infer_instance

variable {impl : Implementation α}

theorem cancel_sound_iff : (∀ e ∈ (cancel impl).2, e.Sound) ↔ Legible impl := by
  simp only [cancel, List.mem_map, forall_exists_index, and_imp, forall_apply_eq_imp_iff₂, Legible]
  refine forall₂_congr fun op _ => ?_
  simp only [cancelWaiter, Event.Sound]
  split
  · exact eq_comm
  · exact eq_comm

theorem reset_receiveState : (reset impl).1.receiveState =
    if impl.receiveState = .buffer then .buffer else .block := by
  simp only [reset, cancel, Implementation.noWaiters]
  cases impl.receiveState <;> simp

theorem reset_sendState : (reset impl).1.sendState =
    if impl.sendState = .closed then impl.emptyState
    else if impl.sendState = .waiter then .block else impl.sendState := by
  simp only [reset, cancel, Implementation.noWaiters, Implementation.emptyState]
  cases impl.sendState <;> simp

theorem reset_sendState_of_fit (h : Sane impl) (hfit : FitToReset impl) :
    (reset impl).1.sendState = impl.emptyState := by
  rw [reset_sendState]
  split
  · rfl
  · rename_i hopen
    rw [Implementation.emptyState]
    rcases hfit.2 with hclosed | hbuffer | hzero
    · exact absurd hclosed hopen
    · have hlt := h.sendBuffer hbuffer
      rw [if_neg (Nat.ne_zero_of_lt hlt), hbuffer]
      simp
    · rw [if_pos hzero]
      cases hs : impl.sendState with
      | buffer =>
        have hlt := h.sendBuffer hs
        omega
      | waiter => simp
      | block => simp
      | closed => exact absurd hs hopen

theorem reset_eq_construct (h : Sane impl) (hfit : FitToReset impl) :
    (reset impl).1 = construct impl.maxBufferSize := by
  have hreceive : (reset impl).1.receiveState = .block := by
    rw [reset_receiveState, if_neg hfit.1]
  have hsend := reset_sendState_of_fit h hfit
  calc (reset impl).1
      = ⟨(reset impl).1.receiveState, (reset impl).1.sendState, impl.maxBufferSize, [], []⟩ := rfl
    _ = construct impl.maxBufferSize := by
      rw [hreceive, hsend]
      rfl

theorem respond_ready {impl' : Implementation α} (h : ObservablyEqual respond impl impl') :
    ready impl = ready impl' := by
  have hanswer := h.answer .close
  simp only [respond, perform, Option.map_some, Option.some_inj] at hanswer
  exact congrArg Answer.ready hanswer

theorem respond_trySend {impl' : Implementation α} (h : ObservablyEqual respond impl impl')
    (id : Nat) (a : α) : (trySend impl a).map Prod.fst = (trySend impl' a).map Prod.fst := by
  have hanswer := h.answer (.trySend id a)
  simp only [respond, perform, returned, Option.map_map] at hanswer
  cases hs : trySend impl a <;> cases hs' : trySend impl' a <;>
    simp_all

theorem fitToReset_of_observablyEqual (a : α)
    (h : ObservablyEqual respond (reset impl).1 (construct impl.maxBufferSize)) :
    FitToReset impl := by
  constructor
  · intro hbuffer
    have hready := respond_ready h
    simp only [ready, reset_receiveState, hbuffer, construct] at hready
    cases hready
  · by_contra hne
    simp only [not_or] at hne
    obtain ⟨hopen, hbuffer, hsize⟩ := hne
    have hsend : (reset impl).1.sendState = .block := by
      rw [reset_sendState]
      cases hs : impl.sendState <;> simp_all
    have htry := respond_trySend h 0 a
    simp [trySend, hsend, construct, hsize] at htry

/-- A channel is reset to its initial state. -/
theorem reset_observablyEqual_iff [DecidableEq ι] [Inhabited α] {s : Channels ι α} {i : ι}
    {ok : Channels ι α → ChannelsAction ι α → Prop}
    (h : Reachable Channels.step ok (fun _ => none) s) (hi : s i = some impl) :
    (ObservablyEqual respond (reset impl).1 (construct impl.maxBufferSize) ∧
      ∀ e ∈ (reset impl).2, e.Sound) ↔ FitToReset impl ∧ Legible impl := by
  have hsane := Channels.sane_of_reachable h hi
  refine and_congr ⟨fitToReset_of_observablyEqual default, fun hfit => ?_⟩ cancel_sound_iff
  exact .of_eq (reset_eq_construct hsane hfit)

/-- A channel is closed with a value in its buffer, and reset. -/
theorem reset_observablyEqual_closed : ∃ (s : Channels Unit Nat) (impl : Implementation Nat),
    exec Channels.step (fun _ => none)
        [.construct () 2, .perform () (.trySend 0 10), .perform () .close] = some s ∧
      s () = some impl ∧
      ObservablyEqual respond (reset impl).1 (construct impl.maxBufferSize) := by
  have hrun : (exec (guarded Channels.step fun _ _ => True) (fun _ => none : Channels Unit Nat)
      [.construct () 2, .perform () (.trySend 0 10), .perform () .close]).isSome = true := by
    decide
  obtain ⟨s, hs⟩ := Option.isSome_iff_exists.mp hrun
  have himpl : s () = some ⟨.closed, .closed, 2, [], [10]⟩ := by
    cases hs
    rfl
  refine ⟨s, _, hs, himpl, ?_⟩
  exact ((reset_observablyEqual_iff (exec_guarded_reachable hs) himpl).mpr
    ⟨by decide, nofun⟩).1

/-- A value was in the buffer, and after the reset a receive operation looks for it. -/
theorem reset_keeps_receive_state :
    exec Channels.step (fun _ => none : Channels Unit Nat)
        [.construct () 1, .perform () (.trySend 0 10), .perform () .reset,
          .perform () .tryReceive] = none ∧
      (exec Channels.step (fun _ => none : Channels Unit Nat)
        [.construct () 1, .perform () .tryReceive]).isSome = true := by
  refine ⟨rfl, rfl⟩

end Asio.Experimental.ChannelService
