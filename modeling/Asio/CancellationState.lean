import Mathlib.Logic.Basic
import Mathlib.Data.List.Basic
import Asio.ComposedTransfer
import Asio.Detail.ReactiveSocketService

/-! The state in which a composed operation collects the cancellations that are emitted to its
slot. -/

universe u v

namespace Asio

open Detail.ReactiveSocketService (CancellationType terminal partialCancellation total)

/-- `cancellation_filter` -/
def cancellationFilter (mask type : CancellationType) : CancellationType := type &&& mask

def enableTerminalCancellation : CancellationType → CancellationType := cancellationFilter terminal

def enablePartialCancellation : CancellationType → CancellationType :=
  cancellationFilter (terminal ||| partialCancellation)

def enableTotalCancellation : CancellationType → CancellationType :=
  cancellationFilter (terminal ||| partialCancellation ||| total)

/-- `relayed` is what the child slot has been emitted. -/
structure CancellationState.Impl where
  inFilter : CancellationType → CancellationType
  outFilter : CancellationType → CancellationType
  cancelled : CancellationType
  relayed : List CancellationType

namespace CancellationState.Impl

def construct (inFilter outFilter : CancellationType → CancellationType) : Impl :=
  ⟨inFilter, outFilter, 0, []⟩

/-- `operator()` -/
def call (impl : Impl) (type : CancellationType) : Impl :=
  let cancelled := impl.inFilter type
  let out := impl.outFilter cancelled
  { impl with
    cancelled := cancelled
    relayed := if out ≠ 0 then impl.relayed ++ [out] else impl.relayed }

end CancellationState.Impl

/-- There is no implementation if the slot is not connected. -/
structure CancellationState where
  impl : Option CancellationState.Impl

namespace CancellationState

def construct (isConnected : Bool) (inFilter outFilter : CancellationType → CancellationType) :
    CancellationState :=
  ⟨if isConnected then some (.construct inFilter outFilter) else none⟩

def cancelled (s : CancellationState) : CancellationType :=
  match s.impl with
  | some impl => impl.cancelled
  | none => 0

def clear (s : CancellationState) (mask : CancellationType) : CancellationState :=
  ⟨s.impl.map fun impl => { impl with cancelled := impl.cancelled &&& ~~~mask }⟩

/-- The signal of the slot is emitted. -/
def emit (s : CancellationState) (type : CancellationType) : CancellationState :=
  ⟨s.impl.map fun impl => impl.call type⟩

inductive Event
  | emit (type : CancellationType)
  | clear (mask : CancellationType)
  deriving DecidableEq

def step (s : CancellationState) : Event → CancellationState
  | .emit type => s.emit type
  | .clear mask => s.clear mask

def run (s : CancellationState) (events : List Event) : CancellationState := events.foldl step s

/-! ### What has been triggered -/

/-- A bit that an emission has set and that has not been cleared since. -/
def Triggered (inFilter : CancellationType → CancellationType) (events : List Event) (i : Nat) :
    Prop :=
  ∃ before type after, events = before ++ .emit type :: after ∧
    (inFilter type).getLsbD i = true ∧ ∀ mask, .clear mask ∈ after → mask.getLsbD i = false

def Event.emitted : Event → Option CancellationType
  | .emit type => some type
  | .clear _ => none

def lastEmission (events : List Event) : Option CancellationType :=
  (events.filterMap Event.emitted).getLast?

/-- The bits that have been triggered are there, and a composed operation that is resumed when there
are some does not start another transfer. -/
structure Accumulates {κ : Type u} {γ : Type v} (C : Consuming κ γ)
    (inFilter outFilter : CancellationType → CancellationType) (events : List Event) : Prop where
  union : ∀ i, ((construct true inFilter outFilter).run events).cancelled.getLsbD i = true ↔
    Triggered inFilter events i
  stops : (∃ i, Triggered inFilter events i) →
    ∀ (op : TransferOp κ) (ec : Option ErrorCode) (bytesTransferred : Nat),
      ∃ ec' n, op.resume C ec bytesTransferred
        (((construct true inFilter outFilter).run events).cancelled ≠ 0) = .handler ec' n

section Events

variable {inFilter outFilter : CancellationType → CancellationType} {events : List Event} {i : Nat}
variable {type mask : CancellationType}

theorem not_triggered_nil : ¬Triggered inFilter [] i := by
  rintro ⟨before, type, after, h, -⟩
  exact absurd h.symm (List.append_ne_nil_of_right_ne_nil _ (List.cons_ne_nil _ _))

theorem triggered_emit : Triggered inFilter (events ++ [.emit type]) i ↔
    (inFilter type).getLsbD i = true ∨ Triggered inFilter events i := by
  constructor
  · rintro ⟨before, type', after, h, hbit, hclear⟩
    rcases List.eq_nil_or_concat after with rfl | ⟨after, e, rfl⟩
    · obtain ⟨-, heq⟩ := List.append_inj' h rfl
      cases heq
      exact Or.inl hbit
    · rw [List.concat_eq_append, ← List.cons_append, ← List.append_assoc] at h
      obtain ⟨heq, -⟩ := List.append_inj' h rfl
      refine Or.inr ⟨before, type', after, heq, hbit, fun mask hmask => hclear mask ?_⟩
      rw [List.concat_eq_append]
      exact List.mem_append_left _ hmask
  · rintro (hbit | ⟨before, type', after, rfl, hbit, hclear⟩)
    · exact ⟨events, type, [], rfl, hbit, fun mask hmask => absurd hmask List.not_mem_nil⟩
    · refine ⟨before, type', after ++ [.emit type], by simp, hbit, fun mask hmask => ?_⟩
      rcases List.mem_append.mp hmask with hmask | hmask
      · exact hclear mask hmask
      · cases List.mem_singleton.mp hmask

theorem triggered_clear : Triggered inFilter (events ++ [.clear mask]) i ↔
    Triggered inFilter events i ∧ mask.getLsbD i = false := by
  constructor
  · rintro ⟨before, type, after, h, hbit, hclear⟩
    rcases List.eq_nil_or_concat after with rfl | ⟨after, e, rfl⟩
    · obtain ⟨-, heq⟩ := List.append_inj' h rfl
      cases heq
    · rw [List.concat_eq_append] at h hclear
      rw [← List.cons_append, ← List.append_assoc] at h
      obtain ⟨heq, hlast⟩ := List.append_inj' h rfl
      cases hlast
      refine ⟨⟨before, type, after, heq, hbit, fun mask hmask => ?_⟩, ?_⟩
      · exact hclear mask (List.mem_append_left _ hmask)
      · exact hclear mask (List.mem_append_right _ (List.mem_singleton_self _))
  · rintro ⟨⟨before, type, after, rfl, hbit, hclear⟩, hmask⟩
    refine ⟨before, type, after ++ [.clear mask], by simp, hbit, fun mask' hmem => ?_⟩
    rcases List.mem_append.mp hmem with hmem | hmem
    · exact hclear mask' hmem
    · cases List.mem_singleton.mp hmem
      exact hmask

theorem run_concat (s : CancellationState) (events : List Event) (e : Event) :
    s.run (events ++ [e]) = (s.run events).step e := by
  rw [run, List.foldl_append]
  rfl

theorem lastEmission_emit : lastEmission (events ++ [.emit type]) = some type := by
  rw [lastEmission, List.filterMap_append]
  exact List.getLast?_concat ..

theorem lastEmission_clear : lastEmission (events ++ [.clear mask]) = lastEmission events := by
  rw [lastEmission, List.filterMap_append, List.filterMap_cons, Event.emitted, List.filterMap_nil,
    List.append_nil]
  rfl

theorem run_connected (inFilter outFilter : CancellationType → CancellationType)
    (events : List Event) :
    ∃ impl, (construct true inFilter outFilter).run events = ⟨some impl⟩ ∧
      impl.inFilter = inFilter := by
  induction events using List.reverseRecOn with
  | nil => exact ⟨_, rfl, rfl⟩
  | append_singleton events e ih =>
    obtain ⟨impl, hrun, rfl⟩ := ih
    rw [run_concat, hrun]
    cases e with
    | emit type => exact ⟨_, rfl, rfl⟩
    | clear mask => exact ⟨_, rfl, rfl⟩

/-- Only the bits of the latest emission are left. -/
theorem cancelled_iff :
    ((construct true inFilter outFilter).run events).cancelled.getLsbD i = true ↔
      Triggered inFilter events i ∧
        ∀ type ∈ lastEmission events, (inFilter type).getLsbD i = true := by
  induction events using List.reverseRecOn with
  | nil =>
    refine iff_of_false ?_ fun h => not_triggered_nil h.1
    have hzero : ((construct true inFilter outFilter).run []).cancelled = 0#32 := rfl
    rw [hzero, BitVec.getLsbD_zero]
    exact Bool.false_ne_true
  | append_singleton events e ih =>
    obtain ⟨impl, hrun, hfilter⟩ := run_connected inFilter outFilter events
    rw [hrun] at ih
    rw [run_concat, hrun]
    cases e with
    | emit type =>
      have hcancelled : (step ⟨some impl⟩ (.emit type)).cancelled = inFilter type := by
        rw [← hfilter]
        rfl
      rw [hcancelled, triggered_emit, lastEmission_emit]
      constructor
      · intro hbit
        refine ⟨Or.inl hbit, ?_⟩
        rintro type' ⟨⟩
        exact hbit
      · exact fun h => h.2 type rfl
    | clear mask =>
      have hcancelled : (step ⟨some impl⟩ (.clear mask)).cancelled =
          (cancelled ⟨some impl⟩) &&& ~~~mask := rfl
      rw [hcancelled, triggered_clear, lastEmission_clear, BitVec.getLsbD_and, Bool.and_eq_true, ih,
        BitVec.getLsbD_not, and_right_comm, Bool.and_eq_true, decide_eq_true_eq, Bool.not_eq_true']
      refine and_congr_left fun _ => and_congr_right fun h => and_iff_right_of_imp fun _ => ?_
      obtain ⟨-, type, -, -, hbit, -⟩ := h
      exact BitVec.lt_of_getLsbD hbit

end Events

theorem resume_cancelled {κ : Type u} {γ : Type v} (C : Consuming κ γ) (op : TransferOp κ)
    (ec : Option ErrorCode) (bytesTransferred : Nat) :
    ∃ ec' n, op.resume C ec bytesTransferred true = .handler ec' n := by
  unfold TransferOp.resume
  dsimp only
  split
  · exact ⟨_, _, rfl⟩
  · split
    · exact ⟨_, _, rfl⟩
    · exact ⟨_, _, rfl⟩

/-- The state has what has been triggered exactly when the latest emission has all of it. -/
theorem accumulates_iff {κ : Type u} {γ : Type v} (C : Consuming κ γ)
    (inFilter outFilter : CancellationType → CancellationType) (events : List Event) :
    Accumulates C inFilter outFilter events ↔
      ∀ i, Triggered inFilter events i →
        ∀ type ∈ lastEmission events, (inFilter type).getLsbD i = true := by
  constructor
  · intro h i hi
    exact (cancelled_iff.mp ((h.union i).mpr hi)).2
  · intro h
    have hunion (i : Nat) :
        ((construct true inFilter outFilter).run events).cancelled.getLsbD i = true ↔
          Triggered inFilter events i := by
      rw [cancelled_iff]
      exact and_iff_left_of_imp (h i)
    refine ⟨hunion, ?_⟩
    rintro ⟨i, hi⟩ op ec bytesTransferred
    have hne : ((construct true inFilter outFilter).run events).cancelled ≠ 0 := by
      intro hzero
      have hbit := (hunion i).mpr hi
      rw [hzero, BitVec.ofNat_eq_ofNat, BitVec.getLsbD_zero] at hbit
      cases hbit
    rw [decide_eq_true hne]
    exact resume_cancelled C op ec bytesTransferred

/-- A terminal cancellation is accepted and then one that is filtered out arrives. -/
def filteredOut : List Event := [.emit terminal, .emit total]

/-- A read of four bytes is resumed after it has got one, and starts another transfer. -/
theorem not_accumulates_filteredOut :
    ¬Accumulates (ConsumingSingleBuffer.consuming : Consuming _ Nat) enablePartialCancellation
      enablePartialCancellation filteredOut := by
  intro h
  have htriggered : Triggered enablePartialCancellation filteredOut 0 :=
    ⟨[], terminal, [.emit total], rfl, rfl, fun mask hmask => by
      cases List.mem_singleton.mp hmask⟩
  obtain ⟨ec, n, hstops⟩ := h.stops ⟨0, htriggered⟩
    ⟨.construct [0, 1, 2, 3], .transferAll⟩ none 1
  cases hstops

end CancellationState

end Asio
