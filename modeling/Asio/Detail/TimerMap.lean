import Mathlib.Data.List.Perm.Basic
import Mathlib.Data.List.Nodup
import Asio.Detail.TimerQueue

/-! What a timer queue is for: a map from the active timers to their expiry and the operations
that wait for it. -/

universe u v

namespace Asio.Detail

set_option linter.unusedSectionVars false

structure TimerMap.Entry (T : Type u) where
  time : T
  ops : List WaitOp

def TimerMap (T : Type u) (α : Type v) := α → Option (TimerMap.Entry T)

namespace TimerMap

variable {T : Type u} {α : Type v} [TimeTraits T] [DecidableEq α]

inductive Action (T : Type u) (α : Type v)
  | enqueueTimer (time : T) (timer : α) (op : WaitOp)
  | getReadyTimers (now : T)
  | cancelTimer (timer : α) (maxCancelled : Nat)
  | cancelTimerByKey (timer : α) (cancellationKey : Nat)
  | moveTimer (target source : α)

structure Result where
  delivered : List WaitOp
  earliest : Bool
  cancelled : Nat
  deriving DecidableEq

def time (m : TimerMap T α) (a : α) : Option T := (m a).map Entry.time

def ops (m : TimerMap T α) (a : α) : List WaitOp := (m a).elim [] Entry.ops

def set (m : TimerMap T α) (a : α) (e : Option (Entry T)) : TimerMap T α :=
  fun b => if b = a then e else m b

/-- The timer's operations become `ops`; without any it is no longer active. -/
def setOps (m : TimerMap T α) (a : α) (ops : List WaitOp) : TimerMap T α :=
  m.set a (if ops = [] then none else (m a).map fun e => { e with ops := ops })

/-- The timer expires at a finite time. -/
def Expires (m : TimerMap T α) (a : α) (t : T) : Prop :=
  m.time a = some t ∧ TimeTraits.isPositiveInfinity t = false

def isDue (m : TimerMap T α) (now : T) (a : α) : Bool :=
  match m.time a with
  | some t => !TimeTraits.isPositiveInfinity t && t ≤ now
  | none => false

def next (m : TimerMap T α) : Action T α → TimerMap T α
  | .enqueueTimer time timer op =>
    m.set timer (some ⟨(m.time timer).getD time, m.ops timer ++ [op]⟩)
  | .getReadyTimers now => fun a => if m.isDue now a then none else m a
  | .cancelTimer timer max => m.setOps timer ((m.ops timer).drop max)
  | .cancelTimerByKey timer key =>
    m.setOps timer ((m.ops timer).filter (·.cancellationKey ≠ key))
  | .moveTimer target source => (m.set target (m source)).set source none

/-- Some timer now expires before every time at which one expired before. -/
def NewMinimum (m m' : TimerMap T α) : Prop :=
  ∃ a t, m'.Expires a t ∧ ∀ b t', m.Expires b t' → t < t'

/-- The answer that is due to an action. -/
def Answer (m : TimerMap T α) : Action T α → Result → Prop
  | .enqueueTimer time timer op, r =>
    r.delivered = [] ∧ (NewMinimum m (m.next (.enqueueTimer time timer op)) → r.earliest = true)
  | .getReadyTimers now, r =>
    ∃ order : List α, order.Nodup ∧ (∀ a, a ∈ order ↔ m.isDue now a = true) ∧
      (order.Pairwise fun a b => ∀ t t', m.Expires a t → m.Expires b t' → t ≤ t') ∧
      r.delivered = order.flatMap fun a => (m.ops a).map (.complete .success)
  | .cancelTimer timer max, r =>
    r.delivered = ((m.ops timer).take max).map (.complete .operationAborted) ∧
      r.cancelled = min max (m.ops timer).length
  | .cancelTimerByKey timer key, r =>
    r.delivered = ((m.ops timer).filter (·.cancellationKey = key)).map
      (.complete .operationAborted)
  | .moveTimer _ _, r => r.delivered = []

def Action.enqueues : Action T α → List Nat
  | .enqueueTimer _ _ op => [op.id]
  | _ => []

/-! ### No operation is lost or duplicated -/

section Conservation

variable {m m' : TimerMap T α} {l l' : List α}

/-- `l` lists the active timers. -/
structure Enumerates (m : TimerMap T α) (l : List α) : Prop where
  nodup : l.Nodup
  mem : ∀ a, a ∈ l ↔ m.time a ≠ none

def pending (m : TimerMap T α) (l : List α) : List Nat :=
  l.flatMap fun a => (m.ops a).map WaitOp.id

theorem set_self (m : TimerMap T α) (a : α) (e : Option (Entry T)) : m.set a e a = e := by
  simp [set]

theorem set_of_ne (m : TimerMap T α) {a b : α} (e : Option (Entry T)) (h : b ≠ a) :
    m.set a e b = m b := by
  simp [set, h]

theorem time_set (m : TimerMap T α) (a : α) (e : Option (Entry T)) (b : α) :
    (m.set a e).time b = if b = a then e.map Entry.time else m.time b := by
  unfold time set
  split <;> rfl

theorem ops_set (m : TimerMap T α) (a : α) (e : Option (Entry T)) (b : α) :
    (m.set a e).ops b = if b = a then e.elim [] Entry.ops else m.ops b := by
  unfold ops set
  split <;> rfl

theorem ops_of_time_none {a : α} (h : m.time a = none) : m.ops a = [] := by
  simp only [time, Option.map_eq_none_iff] at h
  simp [ops, h]

/-- Listing inactive timers as well adds nothing. -/
theorem pending_perm (h : m.Enumerates l) {all : List α} (ha : all.Nodup) (hl : l ⊆ all) :
    (m.pending all).Perm (m.pending l) := by
  have hsplit : (all.filter (· ∈ l)).Perm l := by
    apply (List.perm_ext_iff_of_nodup (ha.filter _) h.nodup).mpr
    intro a
    simpa using fun hal => hl hal
  have hrest : m.pending (all.filter fun a => !decide (a ∈ l)) = [] := by
    simp only [pending, List.flatMap_eq_nil_iff, List.mem_filter]
    intro a ha
    rw [ops_of_time_none]
    · rfl
    · have := mt (h.mem a).mpr (by simpa using ha.2)
      simpa using this
  have hall := (List.filter_append_perm (· ∈ l) all).flatMap_right fun a => (m.ops a).map WaitOp.id
  rw [List.flatMap_append] at hall
  refine hall.symm.trans ?_
  rw [show (all.filter fun a => !decide (a ∈ l)).flatMap (fun a => (m.ops a).map WaitOp.id) = []
    from hrest, List.append_nil]
  exact hsplit.flatMap_right _

/-- The operations of one timer change: `added` come in and `removed` go out. -/
theorem pending_change (h : m.Enumerates l) (h' : m'.Enumerates l') (a : α)
    (added removed : List Nat) (hsame : ∀ b, b ≠ a → m' b = m b)
    (hops : ((m.ops a).map WaitOp.id ++ added).Perm (removed ++ (m'.ops a).map WaitOp.id)) :
    (m.pending l ++ added).Perm (removed ++ m'.pending l') := by
  have hn : (a :: l.erase a).Nodup :=
    List.nodup_cons.mpr ⟨h.nodup.not_mem_erase, h.nodup.erase a⟩
  have hl : l ⊆ a :: l.erase a := by
    intro b hb
    rw [List.mem_cons, h.nodup.mem_erase_iff]
    by_cases hba : b = a
    · exact .inl hba
    · exact .inr ⟨hba, hb⟩
  have hl' : l' ⊆ a :: l.erase a := by
    intro b hb
    rw [List.mem_cons, h.nodup.mem_erase_iff]
    by_cases hba : b = a
    · exact .inl hba
    · refine .inr ⟨hba, (h.mem b).mpr ?_⟩
      have := (h'.mem b).mp hb
      rwa [time, hsame b hba] at this
  have hrest : m'.pending (l.erase a) = m.pending (l.erase a) := by
    apply List.flatMap_congr
    intro b hb
    rw [ops, ops, hsame b (h.nodup.mem_erase_iff.mp hb).1]
  have hp := pending_perm h hn hl
  have hp' := pending_perm h' hn hl'
  simp only [pending, List.flatMap_cons] at hp hp' hrest ⊢
  rw [hrest] at hp'
  calc
    List.Perm _ ((m.ops a).map WaitOp.id ++ m.pending (l.erase a) ++ added) :=
      hp.symm.append_right added
    List.Perm _ ((m.ops a).map WaitOp.id ++ added ++ m.pending (l.erase a)) := by
      rw [List.append_assoc, List.append_assoc]
      exact List.perm_append_comm.append_left _
    List.Perm _ (removed ++ (m'.ops a).map WaitOp.id ++ m.pending (l.erase a)) :=
      hops.append_right _
    List.Perm _ _ := by
      rw [List.append_assoc]
      exact hp'.append_left removed

theorem setOps_of_ne (m : TimerMap T α) {a b : α} (ops : List WaitOp) (h : b ≠ a) :
    m.setOps a ops b = m b :=
  m.set_of_ne _ h

theorem ops_setOps (m : TimerMap T α) {a : α} {ops : List WaitOp}
    (h : m.time a = none → ops = []) : (m.setOps a ops).ops a = ops := by
  rw [setOps, ops_set, if_pos rfl]
  split
  · rename_i hn
    rw [hn]
    rfl
  · rename_i hn
    cases ha : m a with
    | none => exact absurd (h (by simp [time, ha])) hn
    | some e => rfl

@[simp] theorem map_id_complete (ec : ErrorCode) (ops : List WaitOp) :
    (ops.map (.complete ec)).map WaitOp.id = ops.map WaitOp.id := by
  simp [WaitOp.complete, Function.comp_def]

theorem isDue_iff {now : T} {a : α} : m.isDue now a = true ↔ ∃ t, m.Expires a t ∧ t ≤ now := by
  unfold isDue Expires
  cases m.time a with
  | none => simp
  | some t => simp

theorem time_of_isDue {now : T} {a : α} (h : m.isDue now a = true) : m.time a ≠ none := by
  obtain ⟨t, ht, _⟩ := isDue_iff.mp h
  rw [ht.1]
  simp

theorem time_next_ready (m : TimerMap T α) (now : T) (a : α) :
    (m.next (.getReadyTimers now)).time a = if m.isDue now a then none else m.time a := by
  simp only [next, time]
  split <;> rfl

theorem ready_conserves (h : m.Enumerates l) {now : T}
    (h' : (m.next (.getReadyTimers now)).Enumerates l') {r : Result}
    (hr : m.Answer (.getReadyTimers now) r) :
    (m.pending l).Perm (r.delivered.map WaitOp.id ++ (m.next (.getReadyTimers now)).pending l') := by
  obtain ⟨order, hn, hmem, _, hd⟩ := hr
  have hl' : ∀ a, a ∈ l' ↔ m.isDue now a = false ∧ m.time a ≠ none := by
    intro a
    rw [h'.mem, time_next_ready]
    cases m.isDue now a <;> simp
  have hperm : l.Perm (order ++ l') := by
    apply (List.perm_ext_iff_of_nodup h.nodup _).mpr
    · intro a
      rw [List.mem_append, hmem, hl', h.mem]
      have hdue : m.isDue now a = true → m.time a ≠ none := time_of_isDue
      cases hd : m.isDue now a <;> simp_all
    · apply List.Nodup.append hn h'.nodup
      intro a ha ha'
      rw [hmem] at ha
      rw [hl', ha] at ha'
      cases ha'.1
  have hrest : (m.next (.getReadyTimers now)).pending l' = m.pending l' := by
    apply List.flatMap_congr
    intro a ha
    have hdue : m.isDue now a = false := ((hl' a).mp ha).1
    simp [ops, next, hdue]
  have hdel : r.delivered.map WaitOp.id = m.pending order := by
    rw [hd, List.map_flatMap]
    apply List.flatMap_congr
    intro a _
    rw [map_id_complete]
  rw [hrest, hdel]
  refine (hperm.flatMap_right _).trans ?_
  rw [List.flatMap_append]
  exact List.Perm.refl _

theorem move_conserves (h : m.Enumerates l) {target source : α}
    (h' : (m.next (.moveTimer target source)).Enumerates l') (ht : m.time target = none) :
    (m.pending l).Perm ((m.next (.moveTimer target source)).pending l') := by
  have hopst := ops_of_time_none ht
  have hmid : ∃ l1, (m.set target (m source)).Enumerates l1 := by
    by_cases hs : m.time source = none
    · refine ⟨l, h.nodup, fun a => ?_⟩
      rw [h.mem, time_set]
      split
      · rename_i ha
        rw [ha]
        exact iff_of_false (not_not.mpr ht) (not_not.mpr hs)
      · rfl
    · refine ⟨target :: l, List.nodup_cons.mpr ⟨fun hm => (h.mem _).mp hm ht, h.nodup⟩,
        fun a => ?_⟩
      rw [List.mem_cons, h.mem, time_set]
      split
      · rename_i ha
        exact iff_of_true (.inl ha) hs
      · rename_i ha
        exact or_iff_right ha
  obtain ⟨l1, h1⟩ := hmid
  have hsource : (m.set target (m source)).ops source = m.ops source := by
    rw [ops_set]
    split <;> rfl
  have hin := pending_change h h1 target ((m.ops source).map WaitOp.id) []
    (fun b hb => m.set_of_ne _ hb) (by
      rw [hopst, ops_set, if_pos rfl]
      exact List.Perm.refl _)
  have hout := pending_change h1 h' source [] ((m.ops source).map WaitOp.id)
    (fun b hb => set_of_ne _ _ hb) (by
      rw [hsource, next, ops_set, if_pos rfl]
      exact List.Perm.refl _)
  rw [List.append_nil] at hout
  exact (List.perm_append_left_iff _).mp (List.perm_append_comm.trans (hin.trans hout))

/-- What an action takes in is delivered by it or waits after it, and nothing else is. -/
theorem Answer.conserves (h : m.Enumerates l) {a : Action T α} (h' : (m.next a).Enumerates l')
    {r : Result} (hr : m.Answer a r)
    (hmove : ∀ target source, a = .moveTimer target source → m.time target = none) :
    (m.pending l ++ a.enqueues).Perm (r.delivered.map WaitOp.id ++ (m.next a).pending l') := by
  cases a with
  | enqueueTimer time timer op =>
    refine pending_change h h' timer _ _ (fun b hb => m.set_of_ne _ hb) ?_
    rw [hr.1, next, ops_set, if_pos rfl]
    simp [Action.enqueues]
  | getReadyTimers now =>
    simp only [Action.enqueues, List.append_nil]
    exact ready_conserves h h' hr
  | cancelTimer timer max =>
    refine pending_change h h' timer _ _ (fun b hb => setOps_of_ne m _ hb) ?_
    rw [next, ops_setOps _ (fun hn => by rw [ops_of_time_none hn, List.drop_nil]), hr.1,
      map_id_complete, ← List.map_append, List.take_append_drop]
    simp [Action.enqueues]
  | cancelTimerByKey timer key =>
    refine pending_change h h' timer _ _ (fun b hb => setOps_of_ne m _ hb) ?_
    rw [next, ops_setOps _ (fun hn => by rw [ops_of_time_none hn, List.filter_nil]), hr,
      map_id_complete, ← List.map_append]
    simp only [Action.enqueues, List.append_nil]
    refine List.Perm.map _ ?_
    simpa using (List.filter_append_perm (fun op => op.cancellationKey = key) (m.ops timer)).symm
  | moveTimer target source =>
    rw [hr, List.map_nil, List.nil_append]
    simp only [Action.enqueues, List.append_nil]
    exact move_conserves h h' (hmove target source rfl)

end Conservation

end TimerMap

end Asio.Detail
