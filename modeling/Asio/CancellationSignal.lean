import Asio.Detail.ThreadInfoBaseRuns
import Asio.Lib.Lending

/-! Cancellation slots: the handlers that are put there and the memory that they live in. -/

namespace Asio.CancellationSignal

open Lib Transition
open Detail.ThreadInfoBase (Align)

/-! ### Signals, slots and handlers -/

/-- A type of handlers, with the size of the `cancellation_handler` that holds one. -/
structure HandlerType where
  size : Nat
  align : Align
  size_pos : 0 < size

/-- A `cancellation_handler` object that is alive, in the slot of a signal. -/
structure Object where
  signal : Nat
  type : HandlerType
  size : Nat

/-- A signal is its `handler_`, where it is alive, and a block has its size. -/
structure State where
  signals : Nat → Option (Option Nat)
  objects : Nat → Option Object
  lent : Nat → Option Nat
  history : List (Lending.Event Nat Nat)

namespace State

def init : State := ⟨fun _ => none, fun _ => none, fun _ => none, []⟩

variable (s : State)

def setHandler (i : Nat) (handler : Option Nat) : State :=
  { s with signals := Function.update s.signals i (some handler) }

def allocated (pointer size : Nat) : State :=
  { s with
    lent := Function.update s.lent pointer (some size)
    history := s.history ++ [.obtained pointer size] }

/-- `thread_info_base::deallocate` of a pointer and a size -/
def deallocate (mem : Nat × Nat) : State :=
  { s with
    lent := Function.update s.lent mem.1 none
    history := s.history ++ [.returned mem.1 mem.2] }

/-- `cancellation_handler::destroy`, which leaves the memory. -/
def destroy (pointer : Nat) : State × (Nat × Nat) :=
  ({ s with objects := Function.update s.objects pointer none },
    (pointer, (s.objects pointer).elim 0 (·.size)))

def construct (pointer : Nat) (o : Object) : State :=
  { s with objects := Function.update s.objects pointer (some o) }

end State

/-! ### The operations -/

variable (s : State)

/-- `cancellation_slot::clear`, of a slot that is connected to a signal or not. -/
def clear : Option Nat → State
  | none => s
  | some i =>
    match s.signals i with
    | some (some pointer) =>
      let (s, mem) := s.destroy pointer
      (s.deallocate mem).setHandler i none
    | _ => s

/-- `~cancellation_signal` -/
def destroySignal (i : Nat) : State :=
  let s :=
    match s.signals i with
    | some (some pointer) =>
      let (s, mem) := s.destroy pointer
      s.deallocate mem
    | _ => s
  { s with signals := Function.update s.signals i none }

/-- `thread_info_base::allocate`, which may throw. -/
def allocate (size : Nat) (align : Align) : Option Nat → Option (State × Option (Nat × Nat))
  | none => some (s, none)
  | some pointer =>
    if pointer ≠ 0 ∧ pointer % align.val = 0 ∧ s.lent pointer = none then
      some (s.allocated pointer size, some (pointer, size))
    else
      none

/-- `cancellation_slot::prepare_memory` -/
def prepareMemory (i size : Nat) (align : Align) (answer : Option Nat) :
    Option (State × Option (Nat × Nat)) :=
  let (s, mem) :=
    match s.signals i with
    | some (some pointer) =>
      let (s, mem) := s.destroy pointer
      (s.setHandler i none, mem)
    | _ => (s, (0, 0))
  if mem.2 < size ∨ mem.1 % align.val ≠ 0 then
    let s := if mem.1 ≠ 0 then s.deallocate mem else s
    allocate s size align answer
  else
    some (s, some mem)

/-- `cancellation_slot::emplace`, with the handler that is there then unless it throws. -/
def emplace (i : Nat) (type : HandlerType) (answer : Option Nat) (throws : Bool) :
    Option (State × Option Nat) :=
  (prepareMemory s i type.size type.align answer).map fun
    | (s, none) => (s, none)
    | (s, some mem) =>
      -- `auto_delete_helper` has the memory until the handler is there.
      if throws then
        (if mem.1 ≠ 0 then s.deallocate mem else s, none)
      else
        ((s.construct mem.1 ⟨i, type, mem.2⟩).setHandler i (some mem.1), some mem.1)

inductive Action
  | construct (i : Nat)
  | emplace (i : Nat) (type : HandlerType) (answer : Option Nat) (throws : Bool)
  | clear (slot : Option Nat)
  | destroy (i : Nat)

/-- A signal is alive while its slot is used. -/
def step : Action → Option State
  | .construct i => if s.signals i = none then some (s.setHandler i none) else none
  | .emplace i type answer throws =>
    if s.signals i ≠ none then (emplace s i type answer throws).map (·.1) else none
  | .clear slot =>
    if ∀ i ∈ slot, s.signals i ≠ none then some (clear s slot) else none
  | .destroy i => if s.signals i ≠ none then some (destroySignal s i) else none

/-! ### The state of each address -/

/-- There is a handler, which the signal points to and the block is large enough for. -/
structure Alive (p : Nat) (o : Object) : Prop where
  object : s.objects p = some o
  lent : s.lent p = some o.size
  room : o.type.size ≤ o.size
  aligned : p % o.type.align.val = 0
  ne_zero : p ≠ 0
  pointed : ∀ i, s.signals i = some (some p) ↔ i = o.signal

structure Vacant (p : Nat) : Prop where
  object : s.objects p = none
  lent : s.lent p = none
  pointed : ∀ i, s.signals i ≠ some (some p)

def Settled (p : Nat) : Prop := Vacant s p ∨ ∃ o, Alive s p o

structure Inv : Prop where
  settled : ∀ p, Settled s p
  leaves : Lending.Leaves s.history s.lent

/-- A block is between two handlers. -/
structure Holding (mem : Nat × Nat) : Prop where
  others : ∀ p, p ≠ mem.1 → Settled s p
  leaves : Lending.Leaves s.history s.lent
  object : s.objects mem.1 = none
  lent : s.lent mem.1 = some mem.2
  ne_zero : mem.1 ≠ 0
  pointed : ∀ i, s.signals i ≠ some (some mem.1)

section Moves

variable {s} {s' : State} {i p q n : Nat} {o : Object} {mem : Nat × Nat} {v : Option (Option Nat)}

theorem Settled.congr (h : Settled s p) (hobject : s'.objects p = s.objects p)
    (hlent : s'.lent p = s.lent p)
    (hpointed : ∀ i, s'.signals i = some (some p) ↔ s.signals i = some (some p)) :
    Settled s' p := by
  cases h with
  | inl h =>
    refine .inl ⟨hobject.trans h.object, hlent.trans h.lent, fun i hi => ?_⟩
    exact h.pointed i ((hpointed i).mp hi)
  | inr h =>
    obtain ⟨o, h⟩ := h
    exact .inr ⟨o, hobject.trans h.object, hlent.trans h.lent, h.room, h.aligned, h.ne_zero,
      fun i => (hpointed i).trans (h.pointed i)⟩

theorem Inv.alive (h : Inv s) (hi : s.signals i = some (some p)) : ∃ o, Alive s p o := by
  cases h.settled p with
  | inl hvacant => exact absurd hi (hvacant.pointed i)
  | inr halive => exact halive

theorem Inv.vacant (h : Inv s) (hp : s.lent p = none) : Vacant s p := by
  cases h.settled p with
  | inl hvacant => exact hvacant
  | inr halive =>
    obtain ⟨o, halive⟩ := halive
    rw [halive.lent] at hp
    cases hp

/-- A signal that points to another address or to none now points to none. -/
theorem pointed_of_ne (hp : s.signals i ≠ some (some p)) (hv : v ≠ some (some p)) (j : Nat) :
    Function.update s.signals i v j = some (some p) ↔ s.signals j = some (some p) := by
  by_cases hj : j = i
  · subst hj
    rw [Function.update_self]
    exact iff_of_false hv hp
  · rw [Function.update_of_ne hj]

theorem Inv.idle (h : Inv s) (hi : ∀ p, s.signals i ≠ some (some p))
    (hv : ∀ p, v ≠ some (some p)) :
    Inv { s with signals := Function.update s.signals i v } :=
  ⟨fun p => (h.settled p).congr rfl rfl (pointed_of_ne (hi p) (hv p)), h.leaves⟩

/-- The handler of a signal is destroyed, and its block is held with its size. -/
theorem Inv.detach (h : Inv s) (hi : s.signals i = some (some p)) (hv : ∀ p, v ≠ some (some p)) :
    Holding { (s.destroy p).1 with signals := Function.update s.signals i v } (s.destroy p).2 := by
  obtain ⟨o, halive⟩ := h.alive hi
  have hother : ∀ q, q ≠ p → s.signals i ≠ some (some q) := by
    intro q hq hiq
    exact hq (Option.some.inj (Option.some.inj (hiq.symm.trans hi)))
  refine ⟨fun q hq => ?_, h.leaves, Function.update_self .., ?_, halive.ne_zero, fun j => ?_⟩
  · exact (h.settled q).congr (Function.update_of_ne hq ..) rfl (pointed_of_ne (hother q hq) (hv q))
  · simp only [State.destroy, halive.object, Option.elim_some]
    exact halive.lent
  · intro hp
    change Function.update s.signals i v j = some (some p) at hp
    by_cases hj : j = i
    · subst hj
      rw [Function.update_self] at hp
      exact hv p hp
    · rw [Function.update_of_ne hj] at hp
      have hji : j = i := ((halive.pointed j).mp hp).trans ((halive.pointed i).mp hi).symm
      exact hj hji

theorem Holding.deallocate (h : Holding s mem) : Inv (s.deallocate mem) where
  settled p := by
    by_cases hp : p = mem.1
    · subst hp
      exact .inl ⟨h.object, Function.update_self .., h.pointed⟩
    · exact (h.others p hp).congr rfl (Function.update_of_ne hp ..) fun _ => Iff.rfl
  leaves := h.leaves.returned h.lent

theorem Inv.allocated (h : Inv s) (hp : s.lent p = none) (hne : p ≠ 0) :
    Holding (s.allocated p n) (p, n) where
  others q hq := (h.settled q).congr rfl (Function.update_of_ne hq ..) fun _ => Iff.rfl
  leaves := h.leaves.obtained hp
  object := (h.vacant hp).object
  lent := Function.update_self ..
  ne_zero := hne
  pointed := (h.vacant hp).pointed

theorem Holding.construct {type : HandlerType} (h : Holding s mem)
    (hi : ∀ p, s.signals i ≠ some (some p)) (hroom : type.size ≤ mem.2)
    (haligned : mem.1 % type.align.val = 0) :
    Inv ((s.construct mem.1 ⟨i, type, mem.2⟩).setHandler i (some mem.1)) where
  settled p := by
    by_cases hp : p = mem.1
    · subst hp
      refine .inr ⟨⟨i, type, mem.2⟩, Function.update_self .., h.lent, hroom, haligned, h.ne_zero,
        fun j => ?_⟩
      by_cases hj : j = i
      · subst hj
        exact iff_of_true (Function.update_self ..) rfl
      · refine iff_of_false (fun hp => h.pointed j ?_) hj
        exact (Function.update_of_ne hj ..).symm.trans hp
    · refine (h.others p hp).congr (Function.update_of_ne hp ..) rfl (pointed_of_ne (hi p) ?_)
      exact fun heq => hp (Option.some.inj (Option.some.inj heq)).symm
  leaves := h.leaves

/-! ### What the operations keep -/

/-- The memory that is prepared, or none of it. -/
def Prepared (s : State) (size : Nat) (align : Align) : Option (Nat × Nat) → Prop
  | none => Inv s
  | some mem => Holding s mem ∧ size ≤ mem.2 ∧ mem.1 % align.val = 0

theorem prepared_allocate {size : Nat} {align : Align} {answer : Option Nat}
    {r : Option (Nat × Nat)} (h : Inv s)
    (hstep : allocate s size align answer = some (s', r)) :
    s'.signals = s.signals ∧ Prepared s' size align r := by
  cases answer with
  | none =>
    cases hstep
    exact ⟨rfl, h⟩
  | some pointer =>
    rw [allocate] at hstep
    split at hstep
    · rename_i hpossible
      obtain ⟨hne, haligned, hlent⟩ := hpossible
      cases hstep
      exact ⟨rfl, h.allocated hlent hne, Nat.le_refl _, haligned⟩
    · cases hstep

theorem prepared_prepareMemory {size : Nat} {align : Align} {answer : Option Nat}
    {r : Option (Nat × Nat)} (h : Inv s) (hi : s.signals i ≠ none) (hsize : 0 < size)
    (hstep : prepareMemory s i size align answer = some (s', r)) :
    s'.signals i = some none ∧ Prepared s' size align r := by
  obtain ⟨handler, hi⟩ := Option.ne_none_iff_exists'.mp hi
  cases handler with
  | none =>
    simp only [prepareMemory, hi, hsize, true_or, if_true, ne_eq, not_true, if_false] at hstep
    obtain ⟨hsignals, hprepared⟩ := prepared_allocate h hstep
    exact ⟨by rw [hsignals, hi], hprepared⟩
  | some p =>
    have hheld := h.detach (v := some none) hi nofun
    have hempty : ((s.destroy p).1.setHandler i none).signals i = some none :=
      Function.update_self ..
    simp only [prepareMemory, hi] at hstep
    split at hstep
    · rw [if_pos hheld.ne_zero] at hstep
      obtain ⟨hsignals, hprepared⟩ := prepared_allocate hheld.deallocate hstep
      exact ⟨by rw [hsignals]; exact hempty, hprepared⟩
    · rename_i hfits
      obtain ⟨hroom, haligned⟩ := not_or.mp hfits
      cases hstep
      exact ⟨hempty, hheld, Nat.le_of_not_lt hroom, Decidable.not_not.mp haligned⟩

/-- The slot has the handler that `emplace` answers with, or none if it throws. -/
theorem inv_emplace {type : HandlerType} {answer : Option Nat} {throws : Bool}
    {r : Option Nat} (h : Inv s) (hi : s.signals i ≠ none)
    (hstep : emplace s i type answer throws = some (s', r)) :
    Inv s' ∧ s'.signals i = some r ∧
      ∀ p ∈ r, ∃ size, s'.objects p = some ⟨i, type, size⟩ := by
  obtain ⟨⟨t, mem⟩, hprepare, hstep⟩ := Option.map_eq_some_iff.mp hstep
  obtain ⟨hempty, hprepared⟩ := prepared_prepareMemory h hi type.size_pos hprepare
  cases mem with
  | none =>
    cases hstep
    exact ⟨hprepared, hempty, nofun⟩
  | some mem =>
    obtain ⟨hheld, hroom, haligned⟩ := hprepared
    cases throws with
    | true =>
      simp only [if_true, if_pos hheld.ne_zero] at hstep
      cases hstep
      exact ⟨hheld.deallocate, hempty, nofun⟩
    | false =>
      cases hstep
      have hnone : ∀ p, t.signals i ≠ some (some p) := by
        intro p
        rw [hempty]
        exact nofun
      refine ⟨hheld.construct hnone hroom haligned, Function.update_self .., fun p hp => ?_⟩
      cases hp
      exact ⟨mem.2, Function.update_self ..⟩

theorem inv_clear (h : Inv s) (slot : Option Nat) : Inv (clear s slot) := by
  cases slot with
  | none => exact h
  | some i =>
    rw [clear]
    split
    · rename_i p hi
      exact (h.detach (v := some none) hi nofun).deallocate
    · exact h

theorem inv_destroySignal (h : Inv s) (i : Nat) : Inv (destroySignal s i) := by
  simp only [destroySignal]
  split
  · rename_i p hi
    exact (h.detach (v := none) hi nofun).deallocate
  · rename_i hi
    exact h.idle hi nofun

theorem inv_step {a : Action} (h : Inv s) (hstep : step s a = some s') : Inv s' := by
  cases a with
  | construct i =>
    simp only [step] at hstep
    split at hstep
    · rename_i hi
      cases hstep
      exact h.idle (fun p => by rw [hi]; exact nofun) nofun
    · cases hstep
  | emplace i type answer throws =>
    simp only [step] at hstep
    split at hstep
    · rename_i hi
      obtain ⟨⟨t, r⟩, hemplace, hstep⟩ := Option.map_eq_some_iff.mp hstep
      cases hstep
      exact (inv_emplace h hi hemplace).1
    · cases hstep
  | clear slot =>
    simp only [step] at hstep
    split at hstep
    · cases hstep
      exact inv_clear h slot
    · cases hstep
  | destroy i =>
    simp only [step] at hstep
    split at hstep
    · cases hstep
      exact inv_destroySignal h i
    · cases hstep

/-! ### The allocator of the threads -/

/-- What the slots have is what the allocator has lent, to them or to others. -/
def Backs (m : Detail.ThreadInfoBase.State) (s : State) : Prop :=
  ∀ p n, s.lent p = some n → ∃ loan, m.lent p = some loan ∧ loan.size = n

theorem Backs.lent_eq_none {m : Detail.ThreadInfoBase.State} (h : Backs m s)
    (hp : m.lent p = none) : s.lent p = none := by
  rw [Option.eq_none_iff_forall_ne_some]
  intro n hn
  obtain ⟨loan, hloan, -⟩ := h p n hn
  rw [hp] at hloan
  cases hloan

/-- The memory that threads keep answers as slots expect it to. -/
theorem Backs.allocate {cfg : Detail.ThreadInfoBase.Config} {m m' : Detail.ThreadInfoBase.State}
    {size : Nat} {align : Align} {answer : Option Detail.ThreadInfoBase.Answer}
    {thisThread : Option Nat} (h : Backs m s) (hm : ∀ p, Detail.ThreadInfoBase.Sane cfg m p)
    (hserves : cfg.Serves size align)
    (hstep : Detail.ThreadInfoBase.allocate cfg m .cancellationSignal size align answer thisThread =
      some m') :
    ∃ answer s' r, allocate s size align answer = some (s', r) ∧ Backs m' s' ∧
      (r = none → m'.lent = m.lent) := by
  cases Detail.ThreadInfoBase.lends_allocate hm hserves hstep with
  | inl hlent =>
    refine ⟨none, s, none, rfl, fun p n hn => ?_, fun _ => hlent⟩
    rw [hlent]
    exact h p n hn
  | inr hlent =>
    obtain ⟨p, hne, haligned, hp, hlent⟩ := hlent
    refine ⟨some p, s.allocated p size, some (p, size), ?_, fun q n hq => ?_, nofun⟩
    · exact if_pos ⟨hne, haligned, h.lent_eq_none hp⟩
    · change Function.update s.lent p (some size) q = some n at hq
      rw [hlent]
      by_cases hqp : q = p
      · subst hqp
        rw [Function.update_self] at hq ⊢
        exact ⟨_, rfl, Option.some.inj hq⟩
      · rw [Function.update_of_ne hqp] at hq ⊢
        exact h q n hq

/-- The memory that threads keep takes back what slots return. -/
theorem Backs.deallocate {cfg : Detail.ThreadInfoBase.Config} {m : Detail.ThreadInfoBase.State}
    (h : Backs m s) (hp : s.lent p = some n) (thisThread : Option Nat) :
    ∃ m', Detail.ThreadInfoBase.step cfg m (.deallocate thisThread .cancellationSignal p n) =
      some m' ∧ Backs m' (s.deallocate (p, n)) := by
  obtain ⟨loan, hloan, hsize⟩ := h p n hp
  refine ⟨_, if_pos (by simp [hloan, hsize]), fun q k hq => ?_⟩
  change Function.update s.lent p none q = some k at hq
  rw [Detail.ThreadInfoBase.deallocate_lent]
  by_cases hqp : q = p
  · subst hqp
    rw [Function.update_self] at hq
    cases hq
  · rw [Function.update_of_ne hqp] at hq ⊢
    exact h q k hq

/-! ### Runs -/

/-- A handler is alive where its signal points to, in a block that is large enough for it, and
every block that was obtained and is not such a block has been returned with its size. -/
structure Sound (s : State) : Prop where
  pointed : ∀ i p, s.signals i = some (some p) ↔ ∃ o, s.objects p = some o ∧ o.signal = i
  unique : ∀ p q o o', s.objects p = some o → s.objects q = some o' → o.signal = o'.signal → p = q
  room : ∀ p o, s.objects p = some o → ∃ n, s.lent p = some n ∧ o.type.size ≤ n
  ordered : Lending.Leaves s.history s.lent
  returned : ∀ p n, s.history.count (.obtained p n) =
    s.history.count (.returned p n) + if s.lent p = some n then 1 else 0
  lent : ∀ p n, s.lent p = some n → ∃ o, s.objects p = some o ∧ o.size = n

theorem Inv.of_object (h : Inv s) (ho : s.objects p = some o) : Alive s p o := by
  cases h.settled p with
  | inl hvacant =>
    rw [hvacant.object] at ho
    cases ho
  | inr halive =>
    obtain ⟨o', halive⟩ := halive
    cases ho.symm.trans halive.object
    exact halive

theorem Inv.sound (h : Inv s) : Sound s where
  pointed i p := by
    constructor
    · intro hi
      obtain ⟨o, halive⟩ := h.alive hi
      exact ⟨o, halive.object, ((halive.pointed i).mp hi).symm⟩
    · intro ho
      obtain ⟨o, ho, hi⟩ := ho
      exact ((h.of_object ho).pointed i).mpr hi.symm
  unique p q o o' ho ho' hsignal := by
    have hp := ((h.of_object ho).pointed o.signal).mpr rfl
    have hq := ((h.of_object ho').pointed o.signal).mpr hsignal
    exact Option.some.inj (Option.some.inj (hp.symm.trans hq))
  room p o ho := ⟨o.size, (h.of_object ho).lent, (h.of_object ho).room⟩
  ordered := h.leaves
  returned := h.leaves.balance
  lent p n hn := by
    cases h.settled p with
    | inl hvacant =>
      rw [hvacant.lent] at hn
      cases hn
    | inr halive =>
      obtain ⟨o, halive⟩ := halive
      exact ⟨o, halive.object, Option.some.inj (halive.lent.symm.trans hn)⟩

theorem handler_memory (h : Reachable step (fun _ _ => True) State.init s) :
    Sound s ∧ ∀ i type answer throws s' r, s.signals i ≠ none →
      emplace s i type answer throws = some (s', r) → s'.signals i = some r ∧
        ∀ p ∈ r, ∃ size, s'.objects p = some ⟨i, type, size⟩ := by
  have hinv : Inv s := by
    refine h.invariant ⟨fun p => ?_, Lending.leaves_nil⟩ fun hinv _ hstep => inv_step hinv hstep
    exact .inl ⟨rfl, rfl, nofun⟩
  refine ⟨hinv.sound, fun i type answer throws s' r hi hstep => ?_⟩
  exact (inv_emplace hinv hi hstep).2

end Moves

/-- The alignment of a pointer. -/
def pointerAlign : Align := ⟨⟨3, by decide⟩⟩

/-- A block of forty bytes is used again for sixteen, by a handler that throws and by one that does
not, until the signal is destroyed. -/
def reuse : List Action :=
  [.construct 0, .emplace 0 ⟨40, pointerAlign, by decide⟩ (some 64) false,
    .emplace 0 ⟨16, pointerAlign, by decide⟩ none true,
    .emplace 0 ⟨40, pointerAlign, by decide⟩ (some 64) false,
    .emplace 0 ⟨16, pointerAlign, by decide⟩ none false, .destroy 0]

theorem handler_memory_reuse :
    ∃ s, s.history = [.obtained 64 40, .returned 64 40, .obtained 64 40, .returned 64 40] ∧
      Sound s := by
  have hrun : (exec (guarded step fun _ _ => True) State.init reuse).isSome := by decide
  obtain ⟨s, hs⟩ := Option.isSome_iff_exists.mp hrun
  refine ⟨s, ?_, (handler_memory (exec_guarded_reachable hs)).1⟩
  cases hs
  rfl

end Asio.CancellationSignal
