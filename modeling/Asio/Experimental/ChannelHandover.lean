import Asio.Experimental.ChannelCapacity
import Asio.Experimental.ChannelReset

/-! What a channel hands over when it is moved. -/

universe u v

namespace Asio.Experimental.ChannelService

open Asio.Lib.Transition Asio.Lib.Simulation

variable {ι : Type u} {α : Type v}

/-- The channel `other` becomes `moved`, in the place of `old`, and nothing that was in either is
lost. What is left is like a channel that has just been constructed with the size `n`. -/
structure MovesWhole (old other moved left : Implementation α) (events : List (Event α)) (n : Nat) :
    Prop where
  movedAgrees : Agrees moved
  leftAgrees : Agrees left
  asConstructed : ObservablyEqual respond left (construct n)
  values : moved.buffer ++ left.buffer = old.buffer ++ other.buffer
  waiters : moved.waiters = other.waiters ∧ left.waiters = []
  cancelled : (∀ e ∈ events, e.Sound) ∧
    events.flatMap Event.completes = old.waiters.map ChannelOperation.id

variable {impl old other : Implementation α} {n : Nat}

theorem takeOver_eq : takeOver impl other = { other with waiters := impl.waiters } := rfl

theorem movedFrom_eq_construct (h : other.waiters = []) :
    movedFrom other = construct other.maxBufferSize := by
  simp only [movedFrom, construct, h, Implementation.emptyState]

theorem completes_cancel :
    (cancel old).2.flatMap Event.completes = old.waiters.map ChannelOperation.id := by
  simp only [cancel, List.flatMap_map, cancelWaiter, Event.completes]
  exact List.map_eq_flatMap.symm

theorem capacity_of_observablyEqual {impl' : Implementation α}
    (h : ObservablyEqual respond impl impl') : impl.maxBufferSize = impl'.maxBufferSize := by
  have hanswer := h.answer .close
  simp only [respond, perform, Option.map_some, Option.some_inj] at hanswer
  exact congrArg Answer.capacity hanswer

theorem moveConstruct_whole_iff (h : Agrees other) :
    MovesWhole unconstructed other (moveConstruct other).1 (moveConstruct other).2 [] n ↔
      other.waiters = [] ∧ n = other.maxBufferSize := by
  constructor
  · intro hwhole
    exact ⟨hwhole.waiters.1.symm, (capacity_of_observablyEqual hwhole.asConstructed).symm⟩
  · rintro ⟨hwaiters, rfl⟩
    have hmoved : (moveConstruct other).1 = other := by
      rw [moveConstruct, takeOver_eq, unconstructed, ← hwaiters]
    have hleft : (moveConstruct other).2 = construct other.maxBufferSize :=
      movedFrom_eq_construct hwaiters
    rw [hmoved, hleft]
    exact ⟨h, .construct _, .of_eq rfl, List.append_nil _, ⟨rfl, rfl⟩, ⟨nofun, rfl⟩⟩

theorem moveAssign_whole_iff (h : Agrees other) :
    MovesWhole old other (moveAssign old other).1 (moveAssign old other).2.1
        (moveAssign old other).2.2 n ↔
      other.waiters = [] ∧ old.buffer = [] ∧ Legible old ∧ n = other.maxBufferSize := by
  constructor
  · intro hwhole
    have hvalues : other.buffer ++ [] = old.buffer ++ other.buffer := hwhole.values
    have hlength := congrArg List.length hvalues
    simp only [List.length_append, List.length_nil] at hlength
    refine ⟨hwhole.waiters.1.symm, ?_, cancel_sound_iff.mp hwhole.cancelled.1,
      (capacity_of_observablyEqual hwhole.asConstructed).symm⟩
    exact List.eq_nil_of_length_eq_zero (by omega)
  · rintro ⟨hwaiters, hbuffer, hlegible, rfl⟩
    have hmoved : (moveAssign old other).1 = other := by
      change { other with waiters := [] } = other
      rw [← hwaiters]
    have hleft : (moveAssign old other).2.1 = construct other.maxBufferSize :=
      movedFrom_eq_construct hwaiters
    rw [hmoved, hleft]
    refine ⟨h, .construct _, .of_eq rfl, ?_, ⟨rfl, rfl⟩, cancel_sound_iff.mpr hlegible,
      completes_cancel⟩
    rw [hbuffer]
    exact List.append_nil _

namespace Channels

variable [DecidableEq ι]

/-- A channel is moved only when nothing waits for it, and assigned to only when that loses nothing.
Cancellations and resets leave the channel as its state words say. -/
def Preserves (s : Channels ι α) : ChannelsAction ι α → Prop
  | .perform i a => ∀ impl, s i = some impl → KeepsRoom impl a ∧ (a = .reset → FitToReset impl)
  | .moveConstruct _ j => ∀ other, s j = some other → other.waiters = []
  | .moveAssign i j => ∀ old other, s i = some old → s j = some other →
    other.waiters = [] ∧ old.buffer = [] ∧ Legible old
  | _ => True

theorem agrees_of_reachable {s : Channels ι α} (h : Reachable step Preserves (fun _ => none) s)
    {i : ι} {impl : Implementation α} (hi : s i = some impl) : Agrees impl := by
  refine invariant h (fun {s a impl} hs hok hmade => ?_) hi
  cases hmade with
  | construct i n => exact .construct n
  | @perform i a impl r hi hr =>
    obtain ⟨hroom, hfit⟩ := hok impl hi
    have hagrees := hs i impl hi
    by_cases hreset : a = .reset
    · subst hreset
      cases hr
      rw [reset_eq_construct hagrees.sane (hfit rfl)]
      exact .construct _
    · exact hagrees.perform hreset hroom hr
  | @constructed i j other hj =>
    exact ((moveConstruct_whole_iff (hs j other hj)).mpr ⟨hok other hj, rfl⟩).movedAgrees
  | @constructedFrom i j other hj =>
    exact ((moveConstruct_whole_iff (hs j other hj)).mpr ⟨hok other hj, rfl⟩).leftAgrees
  | @assigned i j old other hi hj =>
    obtain ⟨hwaiters, hbuffer, hlegible⟩ := hok old other hi hj
    have hwhole : MovesWhole old other _ _ _ _ :=
      (moveAssign_whole_iff (hs j other hj)).mpr ⟨hwaiters, hbuffer, hlegible, rfl⟩
    exact hwhole.movedAgrees
  | @assignedFrom i j old other hi hj =>
    obtain ⟨hwaiters, hbuffer, hlegible⟩ := hok old other hi hj
    have hwhole : MovesWhole old other _ _ _ _ :=
      (moveAssign_whole_iff (hs j other hj)).mpr ⟨hwaiters, hbuffer, hlegible, rfl⟩
    exact hwhole.leftAgrees

theorem movesWhole_iff {s : Channels ι α} (h : Reachable step Preserves (fun _ => none) s) :
    (∀ i impl, s i = some impl → Agrees impl) ∧
      (∀ j other n, s j = some other →
        (MovesWhole unconstructed other (moveConstruct other).1 (moveConstruct other).2 [] n ↔
          other.waiters = [] ∧ n = other.maxBufferSize)) ∧
      ∀ i j old other n, s i = some old → s j = some other →
        (MovesWhole old other (moveAssign old other).1 (moveAssign old other).2.1
            (moveAssign old other).2.2 n ↔
          other.waiters = [] ∧ old.buffer = [] ∧ Legible old ∧ n = other.maxBufferSize) :=
  ⟨fun _ _ hi => agrees_of_reachable h hi,
    fun _ _ _ hj => moveConstruct_whole_iff (agrees_of_reachable h hj),
    fun _ _ _ _ _ _ hj => moveAssign_whole_iff (agrees_of_reachable h hj)⟩

/-- A channel with a value in its buffer is moved. -/
theorem movesWhole_buffered : ∃ (s : Channels Bool Nat) (other : Implementation Nat),
    exec step (fun _ => none) [.construct false 2, .perform false (.trySend 0 10)] = some s ∧
      s false = some other ∧
      MovesWhole unconstructed other (moveConstruct other).1 (moveConstruct other).2 [] 2 := by
  have hreachable : Reachable step Preserves (fun _ => none)
      (set (set (fun _ => none) false (some (ChannelService.construct 2))) false
        (some (⟨.buffer, .buffer, 2, [], [10]⟩ : Implementation Nat))) := by
    refine .step (.step .start (a := .construct false 2) trivial rfl)
      (a := .perform false (.trySend 0 10)) ?_ rfl
    exact fun impl _ => ⟨trivial, nofun⟩
  exact ⟨_, _, rfl, rfl, ((movesWhole_iff hreachable).2.1 false _ 2 rfl).mpr ⟨rfl, rfl⟩⟩

/-- The channel that is moved to is sent to as if the receive operation waited there. -/
theorem moved_without_waiters :
    exec step (fun _ => none : Channels Bool Nat)
        [.construct false 1, .perform false (.startReceiveOp 0 7), .moveConstruct true false,
          .perform true (.trySend 1 10)] = none ∧
      (exec step (fun _ => none : Channels Bool Nat)
        [.construct false 1, .perform false (.startReceiveOp 0 7), .moveConstruct true false,
          .perform true .tryReceive]).isSome = true ∧
      ∃ s other, exec step (fun _ => none : Channels Bool Nat)
          [.construct false 1, .perform false (.startReceiveOp 0 7)] = some s ∧
        s false = some other ∧
        ¬MovesWhole unconstructed other (moveConstruct other).1 (moveConstruct other).2 [] 1 := by
  refine ⟨rfl, rfl, _, _, rfl, rfl, fun h => ?_⟩
  have hwaiters := h.waiters.1
  cases hwaiters

end Channels

end Asio.Experimental.ChannelService
