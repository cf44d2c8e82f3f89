import Asio.Detail.TimerQueueStale

/-! All timers leave the queue at once: their operations and links are taken from them, but not
the positions that they had in the heap. -/

universe u v

namespace Asio.Detail

/-- What a timer's data is like after it has left the list. -/
def PerTimerData.detached {α : Type v} (d : PerTimerData α) : PerTimerData α :=
  { d with opQueue := [], next := none, prev := none }

namespace TimerQueue

open Asio.Lib Simulation Transition LinkedList TimerMap

set_option linter.unusedSectionVars false

variable {T : Type u} {α : Type v} [TimeTraits T] [DecidableEq α]

/-- The body of the loop: the first timer leaves the list without its operations. -/
def detach (q : TimerQueue T α) (timer : α) : TimerQueue T α :=
  let q := setTimers q (q.data timer).next
  let q := setOpQueue q timer []
  setPrev (setNext q timer none) timer none

/-- `fuel` bounds the number of timers; `none` when it runs out. -/
def allLoop : Nat → TimerQueue T α → Option (TimerQueue T α × List WaitOp)
  | 0, _ => none
  | fuel + 1, q =>
    match q.timers with
    | none => some (q, [])
    | some timer => (allLoop fuel (detach q timer)).map fun r => (r.1, (q.data timer).opQueue ++ r.2)

def getAllTimers (fuel : Nat) (q : TimerQueue T α) : Option (TimerQueue T α × List WaitOp) :=
  (allLoop fuel q).map fun r => ({ r.1 with heap := [] }, r.2)

section Loop

variable {q : TimerQueue T α} {l : List α} {a : α} {fuel : Nat}

theorem detach_data (q : TimerQueue T α) (a b : α) :
    (detach q a).data b = if b = a then (q.data b).detached else q.data b := by
  simp only [detach, setPrev, setNext, setOpQueue, setTimers, modify, Function.update_apply]
  split
  · rename_i hb
    rw [hb]
    simp [PerTimerData.detached]
  · rfl

theorem allLoop_eq (h : Chain (fun a => (q.data a).next) q.timers l) (hn : l.Nodup)
    (hf : l.length < fuel) :
    ∃ q', allLoop fuel q = some (q', l.flatMap fun a => (q.data a).opQueue) ∧
      q'.timers = none ∧ ∀ a, q'.data a = if a ∈ l then (q.data a).detached else q.data a := by
  induction l generalizing q fuel with
  | nil =>
    cases fuel with
    | zero => exact absurd hf (Nat.not_lt_zero _)
    | succ fuel =>
      have htimers : q.timers = none := h
      exact ⟨q, by simp [allLoop, htimers], htimers, by simp⟩
  | cons a l ih =>
    cases fuel with
    | zero => exact absurd hf (Nat.not_lt_zero _)
    | succ fuel =>
      obtain ⟨hal, hl⟩ := List.nodup_cons.mp hn
      obtain ⟨htimers, hrest⟩ := h
      have hother (b : α) (hb : b ∈ l) : (detach q a).data b = q.data b := by
        rw [detach_data, if_neg]
        rintro rfl
        exact hal hb
      have hchain : Chain (fun b => ((detach q a).data b).next) (detach q a).timers l := by
        change Chain (fun b => ((detach q a).data b).next) (q.data a).next l
        exact Chain.congr hrest fun b hb => by rw [hother b hb]
      obtain ⟨q', hloop, hq', hdata⟩ := ih hchain hl (Nat.lt_of_succ_lt_succ hf)
      refine ⟨q', ?_, hq', ?_⟩
      · simp only [allLoop, htimers, hloop, Option.map_some, List.flatMap_cons]
        rw [List.flatMap_congr fun b hb => by rw [hother b hb]]
      · intro b
        rw [hdata]
        simp only [List.mem_cons]
        by_cases hb : b ∈ l
        · rw [if_pos hb, if_pos (.inr hb), hother b hb]
        · rw [if_neg hb, detach_data]
          simp only [hb, or_false]

theorem allLoop_mono {r : TimerQueue T α × List WaitOp} (h : allLoop fuel q = some r)
    {fuel' : Nat} (hle : fuel ≤ fuel') : allLoop fuel' q = some r := by
  induction fuel generalizing q r fuel' with
  | zero => cases h
  | succ fuel ih =>
    obtain ⟨fuel', rfl⟩ := Nat.exists_eq_add_one_of_ne_zero (Nat.ne_of_gt (Nat.lt_of_lt_of_le
      (Nat.succ_pos fuel) hle))
    rw [allLoop] at h ⊢
    cases htimers : q.timers with
    | none => simpa only [htimers] using h
    | some a =>
      simp only [htimers, Option.map_eq_some_iff] at h ⊢
      obtain ⟨r', hr', hr⟩ := h
      exact ⟨r', ih hr' (Nat.le_of_succ_le_succ hle), hr⟩

theorem getAllTimers_unique {r r' : TimerQueue T α × List WaitOp} {fuel' : Nat}
    (h : getAllTimers fuel q = some r) (h' : getAllTimers fuel' q = some r') : r = r' := by
  obtain ⟨p, hp, rfl⟩ := Option.map_eq_some_iff.mp h
  obtain ⟨p', hp', rfl⟩ := Option.map_eq_some_iff.mp h'
  have hmax := allLoop_mono hp (Nat.le_max_left fuel fuel')
  rw [allLoop_mono hp' (Nat.le_max_right fuel fuel')] at hmax
  rw [Option.some.inj hmax]

/-- Whatever is active is delivered, and every timer keeps nothing but its `heap_index_`. -/
theorem getAllTimers_eq {m : TimerMap T α} (h : Refines q m l) (hf : l.length < fuel) :
    ∃ q', getAllTimers fuel q = some (q', l.flatMap m.ops) ∧ q'.timers = none ∧ q'.heap = [] ∧
      ∀ a, q'.data a = { PerTimerData.construct with heapIndex := (q.data a).heapIndex } := by
  obtain ⟨q', hloop, hq', hdata⟩ := allLoop_eq h.list.chain h.list.nodup hf
  refine ⟨{ q' with heap := [] }, ?_, hq', rfl, ?_⟩
  · rw [getAllTimers, hloop, Option.map_some]
    congr 2
    exact List.flatMap_congr fun a _ => h.opQueue a
  · intro a
    refine (hdata a).trans ?_
    split
    · rfl
    · rename_i ha
      rw [h.data_idle (not_not.mp (mt (h.mem a).mpr ha))]

end Loop

/-- The calls on a queue: an action on it, or all timers leave. -/
inductive Call (T : Type u) (α : Type v)
  | timer (action : Action T α)
  | getAllTimers (fuel : Nat)

def allTaken (s : State T α) (q' : TimerQueue T α) (ops : List WaitOp) : State T α where
  queue := q'
  map _ := none
  enqueued := s.enqueued
  delivered := s.delivered ++ ops

def callStep (s : State T α) : Call T α → Option (State T α)
  | .timer action => step s action
  | .getAllTimers fuel => (getAllTimers fuel s.queue).map fun r => allTaken s r.1 r.2

/-- Legal actions, and no timer has a heap entry when all timers leave. -/
def LegalCall (s : State T α) : Call T α → Prop
  | .timer action => Legal s action
  | .getAllTimers _ => s.queue.heap = []

instance (s : State T α) (call : Call T α) : Decidable (LegalCall s call) := by
  induction call using Call.casesOn <;> dsimp only [LegalCall] <;> infer_instance

/-- Every operation is delivered once, and the queue and the timers are as new: whatever is done
with them later, the heap and the indices agree with what expires. -/
structure ResetsAll (s : State T α) (q' : TimerQueue T α) (ops : List WaitOp) : Prop where
  once : s.enqueued.Nodup ∧ s.enqueued.Perm ((s.delivered ++ ops).map WaitOp.id)
  empty : q'.timers = none ∧ q'.heap = []
  data : ∀ a, q'.data a = .construct
  later : ∀ s', Reachable step Legal (allTaken s q' ops) s' → BackPointers s'.queue ∧
    ∀ a t, ⟨t, a⟩ ∈ s'.queue.heap ↔ s'.map.Expires a t

section Reset

variable {s : State T α} {m : TimerMap T α} {l : List α} {fuel : Nat} {q' : TimerQueue T α}
variable {ops : List WaitOp}

theorem allTaken_good (h : Good s l) :
    Good (allTaken s construct (l.flatMap s.map.ops)) [] where
  toShape := construct_shape
  opQueue _ := rfl
  nonempty _ h := absurd rfl h
  fresh := h.fresh
  once := by
    refine h.once.trans (List.Perm.of_eq ?_)
    simp only [allTaken, List.map_append, List.map_flatMap, pending, List.flatMap_nil,
      List.append_nil]

/-- What is left behind: a new queue, but for the indices. -/
theorem getAllTimers_left (h : Refines q' m l) {q : TimerQueue T α}
    (hall : getAllTimers fuel q' = some (q, ops)) : ops = l.flatMap m.ops ∧ q.timers = none ∧
      q.heap = [] ∧
      ∀ a, q.data a = { PerTimerData.construct with heapIndex := (q'.data a).heapIndex } := by
  obtain ⟨q₁, hq₁, htimers, hheap, hdata⟩ := getAllTimers_eq h (Nat.lt_succ_self l.length)
  cases getAllTimers_unique hall hq₁
  exact ⟨rfl, htimers, hheap, hdata⟩

theorem getAllTimers_construct (h : Refines q' m l) (hheap : q'.heap = [])
    {q : TimerQueue T α} (hall : getAllTimers fuel q' = some (q, ops)) : q = construct := by
  obtain ⟨_, htimers, hempty, hdata⟩ := getAllTimers_left h hall
  have hindex (a : α) : (q'.data a).heapIndex = maxIndex := h.index a (by simp [hheap])
  have hconstruct : q.data = fun _ => .construct := by
    funext a
    rw [hdata, hindex]
    rfl
  cases q
  cases htimers
  cases hempty
  cases hconstruct
  rfl

theorem good_of_calls (h : Reachable callStep LegalCall (initial : State T α) s) :
    ∃ l, Good s l := by
  apply h.invariant ⟨[], initial_good⟩
  rintro s call s' ⟨l, hl⟩ hcall hs
  cases call with
  | timer action => exact hl.step hcall hs
  | getAllTimers fuel =>
    obtain ⟨⟨q', ops⟩, hall, rfl⟩ := Option.map_eq_some_iff.mp hs
    obtain ⟨rfl, _⟩ := getAllTimers_left hl.toRefines hall
    obtain rfl := getAllTimers_construct hl.toRefines hcall hall
    exact ⟨[], allTaken_good hl⟩

/-- The indices of all timers that have left are reset only when none had a heap entry. -/
theorem getAllTimers_resets_iff (h : Reachable callStep LegalCall (initial : State T α) s) :
    (∃ fuel, (getAllTimers fuel s.queue).isSome = true) ∧
    ∀ fuel q' ops, getAllTimers fuel s.queue = some (q', ops) →
      (ResetsAll s q' ops ↔ s.queue.heap = []) := by
  obtain ⟨l, hl⟩ := good_of_calls h
  constructor
  · obtain ⟨q', hq', _⟩ := getAllTimers_eq hl.toRefines (Nat.lt_succ_self l.length)
    exact ⟨_, by rw [hq']; rfl⟩
  · intro fuel q' ops hall
    obtain ⟨rfl, htimers, hempty, hdata⟩ := getAllTimers_left hl.toRefines hall
    constructor
    · intro hreset
      cases hheap : s.queue.heap with
      | nil => rfl
      | cons root rest =>
        have hroot : (s.queue.data root.timer).heapIndex = 0 := hl.back 0 root (by simp [hheap])
        have hindex := congrArg PerTimerData.heapIndex (hreset.data root.timer)
        rw [hdata, hroot] at hindex
        exact absurd hindex (show (0 : Nat) ≠ maxIndex by decide)
    · intro hheap
      have hgood := allTaken_good hl
      obtain rfl := getAllTimers_construct hl.toRefines hheap hall
      refine ⟨⟨hl.fresh, ?_⟩, ⟨rfl, rfl⟩, fun _ => rfl, ?_⟩
      · simpa [pending, allTaken] using hgood.once
      · intro s' hs'
        obtain ⟨l', hl'⟩ := hgood.reachable hs'
        exact ⟨hl'.back, fun a t => hl'.mem_heap⟩

/-- Otherwise the queue can later lose the expiry of a new timer. -/
theorem getAllTimers_loses [Infinite α]
    (h : Reachable callStep LegalCall (initial : State T α) s)
    (hall : getAllTimers fuel s.queue = some (q', ops)) (hheap : s.queue.heap ≠ []) :
    ∃ s' b t, Reachable step Legal (allTaken s q' ops) s' ∧ s'.map.Expires b t ∧
      ⟨t, b⟩ ∉ s'.queue.heap := by
  obtain ⟨l, hl⟩ := good_of_calls h
  obtain ⟨rfl, htimers, hempty, hdata⟩ := getAllTimers_left hl.toRefines hall
  obtain ⟨root, rest, hroot⟩ := List.exists_cons_of_ne_nil hheap
  have hindex : (s.queue.data root.timer).heapIndex = 0 := hl.back 0 root (by simp [hroot])
  have hfinite := ((hl.heap root).mp (by simp [hroot])).2
  have hlinks : q'.links = (construct : TimerQueue T α).links :=
    Links.ext htimers (fun a => by simp only [links, hdata]; rfl)
      (fun a => by simp only [links, hdata]; rfl)
  have hsame : SameEntries construct q' :=
    ⟨hlinks, hempty, fun a => by rw [hdata]; rfl⟩
  refine exists_lost_of_stale (a := root.timer) (allTaken_good hl) hsame rfl ?_
    (show 0 < maxIndex by decide) hfinite
  rw [hdata]
  exact hindex

/-- A timer that never expires leaves nothing behind. -/
theorem getAllTimers_resets_infinite : ∃ s : State (WithTop Nat) Nat, s.enqueued = [1] ∧
    ∃ q' ops, getAllTimers 2 s.queue = some (q', ops) ∧ ResetsAll s q' ops := by
  obtain ⟨s, hs, hproj⟩ := Option.map_eq_some_iff.mp (show
    (exec (guarded callStep LegalCall) (initial : State (WithTop Nat) Nat)
      [.timer (.enqueueTimer ⊤ 0 ⟨1, 0, .success⟩)]).map (fun s => (s.enqueued, s.queue.heap.length,
        (getAllTimers 2 s.queue).isSome)) = some ([1], 0, true) by decide +kernel)
  simp only [Prod.mk.injEq, List.length_eq_zero_iff, Option.isSome_iff_exists] at hproj
  obtain ⟨henqueued, hheap, ⟨q', ops⟩, hall⟩ := hproj
  exact ⟨s, henqueued, q', ops, hall,
    ((getAllTimers_resets_iff (exec_guarded_reachable hs)).2 2 q' ops hall).mpr hheap⟩

/-- The position of timer 0 is left behind; timer 1 gets it, and the move from timer 0 takes the
entry of timer 1 although that is still to expire. -/
theorem getAllTimers_not_resetting : ¬∀ (s : State (WithTop Nat) Nat) fuel q' ops,
    Reachable callStep LegalCall initial s → getAllTimers fuel s.queue = some (q', ops) →
      ResetsAll s q' ops := by
  intro h
  have hrun : ((exec (guarded callStep LegalCall) (initial : State (WithTop Nat) Nat)
      [.timer (.enqueueTimer (WithTop.some 5) 0 ⟨1, 0, .success⟩)]).bind fun s =>
      (getAllTimers 2 s.queue).bind fun r =>
        (exec (guarded step Legal) (allTaken s r.1 r.2)
          [.enqueueTimer (WithTop.some 10) 1 ⟨2, 0, .success⟩, .moveTimer 2 0]).map fun s' =>
            (s'.queue.heap.map HeapEntry.timer, s'.map.time 1))
      = some ([2], some (WithTop.some 10)) := by
    decide +kernel
  simp only [Option.bind_eq_some_iff, Option.map_eq_some_iff, Prod.mk.injEq] at hrun
  obtain ⟨s, hs, ⟨q', ops⟩, hall, s', hs', hheap, htime⟩ := hrun
  have hreset := h s 2 q' ops (exec_guarded_reachable hs) hall
  have hentry := ((hreset.later s' (exec_guarded_reachable hs')).2 1 _).mpr ⟨htime, rfl⟩
  have htimer := List.mem_map_of_mem (f := HeapEntry.timer) hentry
  rw [hheap] at htimer
  exact absurd htimer (by decide)

end Reset

end TimerQueue

end Asio.Detail
