import Mathlib.Logic.Function.Basic
import Asio.Experimental.ChannelRuns

/-! Channels that are constructed, moved, assigned to each other and destroyed. -/

universe u v

namespace Asio.Experimental.ChannelService

open Asio.Lib.Transition

variable {ι : Type u} {α : Type v}

/-! ### Moves -/

section Moves

variable (impl other : Implementation α)

/-- What the channel that is moved to takes over. -/
def takeOver : Implementation α :=
  { impl with
    maxBufferSize := other.maxBufferSize
    receiveState := other.receiveState
    sendState := other.sendState
    buffer := other.buffer }

def movedFrom : Implementation α :=
  { other with
    receiveState := .block
    sendState := other.emptyState
    buffer := [] }

/-- `base_implementation_type()` -/
def unconstructed : Implementation α := ⟨.block, .block, 0, [], []⟩

def moveConstruct : Implementation α × Implementation α :=
  (takeOver unconstructed other, movedFrom other)

def moveAssign : Implementation α × Implementation α × List (Event α) :=
  let (impl, events) := cancel impl
  (takeOver impl other, movedFrom other, events)

end Moves

/-! ### Several channels -/

abbrev Channels (ι : Type u) (α : Type v) := ι → Option (Implementation α)

inductive ChannelsAction (ι : Type u) (α : Type v)
  | construct (i : ι) (maxBufferSize : Nat)
  | perform (i : ι) (a : Action α)
  | moveConstruct (i j : ι)
  | moveAssign (i j : ι)
  | destroy (i : ι)

namespace Channels

variable [DecidableEq ι] (s : Channels ι α)

def set (i : ι) (impl : Option (Implementation α)) : Channels ι α := Function.update s i impl

/-- A channel is not assigned to itself, and only one that is not there yet is constructed. -/
def step : ChannelsAction ι α → Option (Channels ι α)
  | .construct i maxBufferSize =>
    match s i with
    | none => some (s.set i (some (ChannelService.construct maxBufferSize)))
    | some _ => none
  | .perform i a =>
    (s i).bind fun impl => (ChannelService.perform impl a).map fun r => s.set i (some r.1)
  | .moveConstruct i j =>
    match s i, s j with
    | none, some other =>
      let r := ChannelService.moveConstruct other
      some ((s.set i (some r.1)).set j (some r.2))
    | _, _ => none
  | .moveAssign i j =>
    if i = j then
      none
    else
      match s i, s j with
      | some impl, some other =>
        let r := ChannelService.moveAssign impl other
        some ((s.set i (some r.1)).set j (some r.2.1))
      | _, _ => none
  | .destroy i => (s i).map fun _ => s.set i none

/-- The channels that an action makes or changes. -/
inductive Made (s : Channels ι α) : ChannelsAction ι α → Implementation α → Prop
  | construct (i n) : Made s (.construct i n) (ChannelService.construct n)
  | perform {i a impl r} : s i = some impl → ChannelService.perform impl a = some r →
      Made s (.perform i a) r.1
  | constructed {i j other} : s j = some other →
      Made s (.moveConstruct i j) (ChannelService.moveConstruct other).1
  | constructedFrom {i j other} : s j = some other →
      Made s (.moveConstruct i j) (ChannelService.moveConstruct other).2
  | assigned {i j impl other} : s i = some impl → s j = some other →
      Made s (.moveAssign i j) (ChannelService.moveAssign impl other).1
  | assignedFrom {i j impl other} : s i = some impl → s j = some other →
      Made s (.moveAssign i j) (ChannelService.moveAssign impl other).2.1

variable {s} {s' : Channels ι α} {a : ChannelsAction ι α} {i j : ι} {impl impl' : Implementation α}

theorem of_set {o : Option (Implementation α)} (h : (s.set i o) j = some impl) :
    s j = some impl ∨ o = some impl := by
  by_cases hij : j = i
  · subst hij
    rw [set, Function.update_self] at h
    exact Or.inr h
  · rw [set, Function.update_of_ne hij] at h
    exact Or.inl h

theorem made_of_step (h : s.step a = some s') (hi : s' i = some impl) :
    s i = some impl ∨ s.Made a impl := by
  cases a with
  | construct j n =>
    simp only [step] at h
    split at h
    · cases h
      rcases of_set hi with hi | hi
      · exact Or.inl hi
      · cases hi
        exact Or.inr (.construct j n)
    · cases h
  | perform j a =>
    simp only [step, Option.bind_eq_some_iff, Option.map_eq_some_iff] at h
    obtain ⟨impl₀, hj, r, hr, rfl⟩ := h
    rcases of_set hi with hi | hi
    · exact Or.inl hi
    · cases hi
      exact Or.inr (.perform hj hr)
  | moveConstruct j k =>
    simp only [step] at h
    split at h
    · rename_i other hj hk
      cases h
      rcases of_set hi with hi | hi
      · rcases of_set hi with hi | hi
        · exact Or.inl hi
        · cases hi
          exact Or.inr (.constructed hk)
      · cases hi
        exact Or.inr (.constructedFrom hk)
    · cases h
  | moveAssign j k =>
    simp only [step] at h
    split at h
    · cases h
    · split at h
      · rename_i impl₀ other hj hk
        cases h
        rcases of_set hi with hi | hi
        · rcases of_set hi with hi | hi
          · exact Or.inl hi
          · cases hi
            exact Or.inr (.assigned hj hk)
        · cases hi
          exact Or.inr (.assignedFrom hj hk)
      · cases h
  | destroy j =>
    simp only [step, Option.map_eq_some_iff] at h
    obtain ⟨impl₀, -, rfl⟩ := h
    rcases of_set hi with hi | hi
    · exact Or.inl hi
    · cases hi

/-- A property of channels that whatever an action makes has. -/
theorem invariant {I : Implementation α → Prop}
    {ok : Channels ι α → ChannelsAction ι α → Prop}
    (h : Reachable step ok (fun _ => none) s)
    (made : ∀ {s a impl}, (∀ i impl, s i = some impl → I impl) → ok s a → Made s a impl →
      I impl) (hi : s i = some impl) : I impl := by
  have hall : ∀ i impl, s i = some impl → I impl :=
    h.invariant (I := fun s => ∀ i impl, s i = some impl → I impl) nofun
      fun hs hok hstep i impl hi => by
        rcases made_of_step hstep hi with hold | hmade
        · exact hs i impl hold
        · exact made hs hok hmade
  exact hall i impl hi

end Channels

/-! ### What holds of every channel -/

/-- The state words agree with the buffer and with each other as far as they do in any channel, also
in one that has been moved from. -/
structure Sane (impl : Implementation α) : Prop where
  closed : impl.receiveState = .closed ↔ impl.sendState = .closed
  bounded : impl.buffer.length ≤ impl.maxBufferSize
  sendBuffer : impl.sendState = .buffer → impl.buffer.length < impl.maxBufferSize
  quiet : impl.receiveState = .block ∨ impl.receiveState = .waiter → impl.buffer = []
  sendWaiter : impl.sendState = .waiter → impl.receiveState = .block

namespace Sane

variable {impl other : Implementation α}

theorem construct (n : Nat) : Sane (construct n : Implementation α) := by
  cases n <;> constructor <;> simp [ChannelService.construct]

theorem emptyState_buffer (h : impl.emptyState = .buffer) : 0 < impl.maxBufferSize := by
  rw [Implementation.emptyState] at h
  split at h
  · cases h
  · omega

theorem bufferPush (h : Sane impl) (hs : impl.sendState = .buffer) (a : α) :
    Sane (bufferPush impl a) := by
  have hlt := h.sendBuffer hs
  constructor <;> simp only [ChannelService.bufferPush, hs]
  · split <;> simp
  · simpa [Nat.succ_le_iff] using hlt
  · split
    · simp
    · rename_i hne
      simp only [List.length_append, List.length_singleton] at hne ⊢
      omega
  · simp
  · split <;> simp

theorem handToReceiver (h : Sane impl) (hs : impl.sendState = .waiter) {a : α}
    {r : Implementation α × List (Event α)} (hr : handToReceiver impl a = some r) : Sane r.1 := by
  have hblock := h.sendWaiter hs
  have hnil := h.quiet (Or.inl hblock)
  have hne := emptyState_ne impl
  unfold ChannelService.handToReceiver at hr
  split at hr
  · cases hr
  · cases hr
    constructor <;> simp only [hs, hblock, hnil]
    · split <;> simp [hne]
    · simp
    · split
      · exact fun hempty => emptyState_buffer hempty
      · simp
    · simp
    · simp

theorem trySend (h : Sane impl) {a : α} {r : Bool × Implementation α × List (Event α)}
    (hr : trySend impl a = some r) : Sane r.2.1 := by
  unfold ChannelService.trySend at hr
  cases hs : impl.sendState with
  | block =>
    simp only [hs] at hr
    cases hr
    exact h
  | buffer =>
    simp only [hs] at hr
    cases hr
    exact h.bufferPush hs a
  | waiter =>
    simp only [hs, Option.map_eq_some_iff] at hr
    obtain ⟨r', hr', rfl⟩ := hr
    exact h.handToReceiver hs hr'
  | closed =>
    simp only [hs] at hr
    cases hr
    exact h

theorem startSendOp (h : Sane impl) {id key : Nat} {a : α}
    {r : Implementation α × List (Event α)} (hr : startSendOp impl id key a = some r) :
    Sane r.1 := by
  unfold ChannelService.startSendOp at hr
  cases hs : impl.sendState with
  | block =>
    simp only [hs] at hr
    cases hr
    have hopen : impl.receiveState ≠ .closed := by
      rw [ne_eq, h.closed, hs]
      rintro ⟨⟩
    constructor <;> simp only
    · split <;> simp [hopen]
    · exact h.bounded
    · simp
    · split
      · rename_i hblock
        exact fun _ => h.quiet (Or.inl hblock)
      · exact h.quiet
    · simp
  | buffer =>
    simp only [hs] at hr
    cases hr
    exact h.bufferPush hs a
  | waiter =>
    simp only [hs, Option.map_eq_some_iff] at hr
    obtain ⟨r', hr', rfl⟩ := hr
    exact (h.handToReceiver hs hr' :)
  | closed =>
    simp only [hs] at hr
    cases hr
    exact h

theorem takeBuffered (h : Sane impl) (hb : impl.receiveState = .buffer)
    {r : α × Implementation α × List (Event α)} (hr : takeBuffered impl = some r) :
    Sane r.2.1 := by
  have hopen : impl.sendState ≠ .closed := by
    rw [ne_eq, ← h.closed, hb]
    rintro ⟨⟩
  have hwaiter : impl.sendState ≠ .waiter := fun hs => by
    have hblock := h.sendWaiter hs
    rw [hb] at hblock
    cases hblock
  have hbounded := h.bounded
  have hsend := h.sendBuffer
  unfold ChannelService.takeBuffered at hr
  split at hr
  · cases hr
  · rename_i a rest hbuffer
    rw [hbuffer, List.length_cons] at hbounded hsend
    split at hr
    · rename_i op ops hw
      obtain ⟨b, -, rfl⟩ := Option.map_eq_some_iff.mp hr
      constructor
      · exact h.closed
      · simpa using hbounded
      · simpa using hsend
      · simp [hb]
      · exact fun hs => absurd hs hwaiter
    · cases hr
      constructor <;> simp only [hopen, if_false, Implementation.drainedState, hb]
      · split <;> simp
      · omega
      · exact fun _ => hbounded
      · split
        · exact fun _ => ‹_›
        · simp
      · simp

theorem takeWaiting (h : Sane impl) (hw : impl.receiveState = .waiter)
    {r : α × Implementation α × List (Event α)} (hr : takeWaiting impl = some r) :
    Sane r.2.1 := by
  have hopen : impl.sendState ≠ .closed := by
    rw [ne_eq, ← h.closed, hw]
    rintro ⟨⟩
  have hnil := h.quiet (Or.inr hw)
  have hwaiter : impl.sendState ≠ .waiter := fun hs => by
    have hblock := h.sendWaiter hs
    rw [hw] at hblock
    cases hblock
  unfold ChannelService.takeWaiting at hr
  split at hr
  · cases hr
  · obtain ⟨b, -, rfl⟩ := Option.map_eq_some_iff.mp hr
    constructor <;> simp only [hopen, if_false, Implementation.drainedState, hw]
    · split <;> simp
    · exact h.bounded
    · exact h.sendBuffer
    · exact fun _ => hnil
    · exact fun hs => absurd hs hwaiter

theorem tryReceive (h : Sane impl) {r : Bool × Implementation α × List (Event α)}
    (hr : tryReceive impl = some r) : Sane r.2.1 := by
  unfold ChannelService.tryReceive at hr
  cases hs : impl.receiveState with
  | block =>
    simp only [hs] at hr
    cases hr
    exact h
  | buffer =>
    simp only [hs, Option.map_eq_some_iff] at hr
    obtain ⟨r', hr', rfl⟩ := hr
    exact h.takeBuffered hs hr'
  | waiter =>
    simp only [hs, Option.map_eq_some_iff] at hr
    obtain ⟨r', hr', rfl⟩ := hr
    exact h.takeWaiting hs hr'
  | closed =>
    simp only [hs] at hr
    cases hr
    exact h

theorem startReceiveOp (h : Sane impl) {id key : Nat} {r : Implementation α × List (Event α)}
    (hr : startReceiveOp impl id key = some r) : Sane r.1 := by
  unfold ChannelService.startReceiveOp at hr
  cases hs : impl.receiveState with
  | block =>
    simp only [hs] at hr
    cases hr
    have hopen : impl.sendState ≠ .closed := by
      rw [ne_eq, ← h.closed, hs]
      rintro ⟨⟩
    constructor <;> simp only [hopen, if_false]
    · simp
    · exact h.bounded
    · simp
    · exact fun _ => h.quiet (Or.inl hs)
    · simp
  | buffer =>
    simp only [hs, Option.map_eq_some_iff] at hr
    obtain ⟨r', hr', rfl⟩ := hr
    exact h.takeBuffered hs hr'
  | waiter =>
    simp only [hs, Option.map_eq_some_iff] at hr
    obtain ⟨r', hr', rfl⟩ := hr
    exact h.takeWaiting hs hr'
  | closed =>
    simp only [hs] at hr
    cases hr
    exact h

theorem withWaiters (h : Sane impl) (ops : List (ChannelOperation α)) :
    Sane { impl with waiters := ops } :=
  ⟨h.closed, h.bounded, h.sendBuffer, h.quiet, h.sendWaiter⟩

theorem noWaiters (h : Sane impl) : Sane impl.noWaiters := by
  obtain ⟨hclosed, hbounded, hbuffer, hquiet, hwaiter⟩ := h
  constructor <;> simp only [Implementation.noWaiters]
  · cases hr : impl.receiveState <;> cases hs : impl.sendState <;> simp_all
  · exact hbounded
  · split
    · rintro ⟨⟩
    · exact hbuffer
  · split
    · rename_i hr
      exact fun _ => hquiet (Or.inr hr)
    · exact hquiet
  · split
    · rintro ⟨⟩
    · rename_i hs
      exact fun h => absurd h hs

theorem cancel (h : Sane impl) : Sane (cancel impl).1 := (h.withWaiters []).noWaiters

theorem cancelByKey (h : Sane impl) (key : Nat) : Sane (cancelByKey impl key).1 := by
  simp only [ChannelService.cancelByKey]
  split
  · exact (h.withWaiters _).noWaiters
  · exact h.withWaiters _

theorem close (h : Sane impl) : Sane (close impl).1 := by
  unfold ChannelService.close
  split <;> exact ⟨by simp, h.bounded, by simp, by simp, by simp⟩

theorem reset (h : Sane impl) : Sane (reset impl).1 := by
  obtain ⟨hclosed, hbounded, hbuffer, -, hwaiter⟩ := h.cancel
  have hne := emptyState_ne (ChannelService.cancel impl).1
  constructor <;> simp only [ChannelService.reset]
  · by_cases hs : (ChannelService.cancel impl).1.sendState = .closed
    · simp [hs, hclosed.mpr hs, hne]
    · simp [hs, mt hclosed.mp hs]
  · simp
  · split
    · exact fun h => emptyState_buffer h
    · exact fun h => Nat.zero_lt_of_lt (hbuffer h)
  · simp
  · split
    · exact fun h => absurd h hne.1
    · rename_i hs
      intro h
      rw [hwaiter h, if_neg]
      rintro ⟨⟩

theorem perform (h : Sane impl) {a : Action α} {r : Implementation α × List (Event α)}
    (hr : perform impl a = some r) : Sane r.1 := by
  cases a with
  | trySend id a =>
    obtain ⟨r', hr', rfl⟩ := Option.map_eq_some_iff.mp hr
    exact h.trySend hr'
  | startSendOp id key a => exact h.startSendOp hr
  | tryReceive =>
    obtain ⟨r', hr', rfl⟩ := Option.map_eq_some_iff.mp hr
    exact h.tryReceive hr'
  | startReceiveOp id key => exact h.startReceiveOp hr
  | cancel =>
    cases hr
    exact h.cancel
  | cancelByKey key =>
    cases hr
    exact h.cancelByKey key
  | close =>
    cases hr
    exact h.close
  | reset =>
    cases hr
    exact h.reset

theorem takeOver (h : Sane other) : Sane (takeOver impl other) :=
  ⟨h.closed, h.bounded, h.sendBuffer, h.quiet, h.sendWaiter⟩

theorem movedFrom : Sane (movedFrom other) := by
  have hne := emptyState_ne other
  constructor <;> simp only [ChannelService.movedFrom]
  · simp [hne]
  · simp
  · exact fun h => emptyState_buffer h
  · simp
  · simp

end Sane

theorem Channels.sane_of_reachable [DecidableEq ι] {s : Channels ι α} {i : ι}
    {impl : Implementation α} {ok : Channels ι α → ChannelsAction ι α → Prop}
    (h : Reachable Channels.step ok (fun _ => none) s) (hi : s i = some impl) : Sane impl := by
  refine Channels.invariant h (fun hs _ hmade => ?_) hi
  cases hmade with
  | construct i n => exact .construct n
  | perform hi hr => exact (hs _ _ hi).perform hr
  | constructed hj => exact (hs _ _ hj).takeOver
  | constructedFrom => exact .movedFrom
  | assigned _ hj => exact (hs _ _ hj).takeOver
  | assignedFrom => exact .movedFrom

end Asio.Experimental.ChannelService
