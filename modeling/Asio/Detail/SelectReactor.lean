import Mathlib.Order.Bounds.Basic
import Asio.Detail.DeadlineTimerWait
import Asio.Detail.ReactorOpQueue
import Asio.Detail.TimerQueueHeap

/-! How long the reactor blocks in `select`: the earliest timer, a bound of its own and what it is
asked for. -/

universe u v

namespace Asio.Detail

open Asio.Lib BinaryHeap ChronoTimeTraits TimerQueueSet
open DeadlineTimerWait (Timeval)

/-- The heap of each timer queue is in order, as the operations of the queue leave it. -/
structure SelectReactor (K : Type u) (α : Type v) where
  stopThread : Bool
  opQueue : List (ReactorOpQueue K)
  timerQueues : List (ClockQueue α)
  ordered : ∀ q ∈ timerQueues, Ordered (TimerQueue.key q.queue.heap)

namespace SelectReactor

variable {K : Type u} {α : Type v}

def maxUsec : Int := 5 * 60 * 1000 * 1000

def getTimeout (s : SelectReactor K α) (usec : Int) : Option Timeval :=
  (waitDuration .microseconds s.timerQueues
    (if usec < 0 ∨ maxUsec < usec then maxUsec else usec)).map fun usec =>
      ⟨usec.tdiv 1000000, usec.tmod 1000000⟩

def haveWorkToDo (s : SelectReactor K α) : Bool :=
  s.timerQueues.any (fun q => q.queue.timers.isSome) || s.opQueue.any fun q => !q.empty

/-- The timeout that `run` hands to `select`, if it gets there. -/
def run (s : SelectReactor K α) (usec : Int) : Option (Option Timeval) :=
  if s.stopThread then
    some none
  else if usec = 0 ∧ s.haveWorkToDo = false then
    some none
  else if usec = 0 then
    some (some ⟨0, 0⟩)
  else
    (s.getTimeout usec).map some

/-- The next iteration of `run_thread`, which passes `true`. -/
def runThread (s : SelectReactor K α) : Option (Option Timeval) :=
  if s.stopThread then some none else s.run 1

inductive Call
  | run (usec : Int)
  | runThread
  deriving DecidableEq

def perform (s : SelectReactor K α) : Call → Option (Option Timeval)
  | .run usec => s.run usec
  | .runThread => s.runThread

/-! ### The timeout as it is meant -/

/-- Nothing for a timer that is due, and otherwise the whole microseconds, one at least. -/
def left (p : Period) (ticks : Int) : Int :=
  if ticks ≤ 0 then 0 else max 1 ⌊exact .microseconds p ticks⌋

/-- What is left of the timers. -/
def TimesLeft (queues : List (ClockQueue α)) : Set Int :=
  { n | ∃ q ∈ queues, ∃ e ∈ q.queue.heap, n = left q.period (subtract e.time q.now) }

/-- Five minutes at most, and no less for a call that is to block. -/
def Call.bound : Call → Int
  | .run usec => if usec < 0 then maxUsec else min usec maxUsec
  | .runThread => maxUsec

/-- What is handed to `select` is the least of the bound and of what is left of the timers, or zero
when polling. -/
def Waits (s : SelectReactor K α) (c : Call) : Prop :=
  ∃ handed, s.perform c = some handed ∧ ∀ tv ∈ handed,
    (c = .run 0 → tv = ⟨0, 0⟩) ∧
      ∃ n, IsLeast (insert c.bound (TimesLeft s.timerQueues)) n ∧
        tv = ⟨n / 1000000, n % 1000000⟩

/-! ### The timers of one queue -/

section Queues

variable {p : Period} {t t' m n : Int} {q : ClockQueue α} {queues : List (ClockQueue α)}

theorem left_nonneg : 0 ≤ left p t := by
  rw [left]
  split
  · exact le_rfl
  · exact le_max_of_le_left Int.one_nonneg

theorem left_mono (h : t ≤ t') : left p t ≤ left p t' := by
  have hfloor : ⌊exact .microseconds p t⌋ ≤ ⌊exact .microseconds p t'⌋ :=
    Int.floor_le_floor (exact_mono h)
  simp only [left]
  split_ifs with h₁ h₂
  · exact le_rfl
  · exact le_max_of_le_left Int.one_nonneg
  · omega
  · exact max_le_max_left 1 hfloor

theorem subtract_mono {t1 t1' t2 : Ticks} (h : t1 ≤ t1') : subtract t1 t2 ≤ subtract t1' t2 := by
  have hle : t1.1 ≤ t1'.1 := h
  rw [subtract_eq_clamp t1.2 t2.2, subtract_eq_clamp t1'.2 t2.2]
  simp only [clamp, int64Min, int64Max]
  omega

/-- The ticks that are left of the earliest timer. -/
def ticksLeft (q : ClockQueue α) : Option Int :=
  q.queue.heap.head?.map fun root => subtract root.time q.now

/-- A timer is due. -/
def due (q : ClockQueue α) : Bool := (ticksLeft q).any (· ≤ 0)

/-- A timer has less than a microsecond left. -/
def urgent (q : ClockQueue α) : Bool :=
  (ticksLeft q).any fun ticks => ⌊exact .microseconds q.period ticks⌋ ≤ 0

/-- If a timer is due, then one of the last queue with an urgent one is. -/
def Settled (queues : List (ClockQueue α)) : Prop :=
  (∃ q ∈ queues, due q = true) → ∀ q ∈ (queues.filter urgent).getLast?, due q = true

theorem due_iff : due q = true ↔ ∃ ticks, ticksLeft q = some ticks ∧ ticks ≤ 0 := by
  rw [due]
  cases ticksLeft q with
  | none => simp
  | some ticks => simp

theorem urgent_iff : urgent q = true ↔
    ∃ ticks, ticksLeft q = some ticks ∧ ⌊exact .microseconds q.period ticks⌋ ≤ 0 := by
  rw [urgent]
  cases ticksLeft q with
  | none => simp
  | some ticks => simp

theorem left_eq_zero_iff : left p t = 0 ↔ t ≤ 0 := by
  rw [left]
  split
  · rename_i h
    exact iff_of_true rfl h
  · rename_i h
    exact iff_of_false (by omega) h

theorem left_of_pos (h : 0 < t) : left p t = max 1 ⌊exact .microseconds p t⌋ :=
  if_neg (not_le.mpr h)

theorem floor_exact_nonpos (h : t ≤ 0) : ⌊exact .microseconds p t⌋ ≤ 0 := by
  rw [Int.floor_le_iff]
  have hle : exact .microseconds p t ≤ exact .microseconds p 0 := exact_mono h
  have hzero : exact .microseconds p 0 = 0 := by simp [exact]
  rw [hzero] at hle
  exact lt_of_le_of_lt hle (by norm_num)

theorem timesLeft_append (queues queues' : List (ClockQueue α)) :
    TimesLeft (queues ++ queues') = TimesLeft queues ∪ TimesLeft queues' := by
  ext n
  simp only [TimesLeft, List.mem_append, or_and_right, exists_or, Set.mem_union, Set.mem_ofPred_eq]

theorem timesLeft_nonneg (h : n ∈ TimesLeft queues) : 0 ≤ n := by
  obtain ⟨q, -, e, -, rfl⟩ := h
  exact left_nonneg

theorem least_nonneg {bound : Int} (hbound : 0 ≤ bound)
    (h : IsLeast (insert bound (TimesLeft queues)) n) : 0 ≤ n := by
  rcases h.1 with rfl | hmem
  · exact hbound
  · exact timesLeft_nonneg hmem

theorem timesLeft_of_none (h : ticksLeft q = none) : TimesLeft [q] = ∅ := by
  have hheap : q.queue.heap = [] := List.head?_eq_none_iff.mp (Option.map_eq_none_iff.mp h)
  ext n
  simp [TimesLeft, hheap]

/-- The root of the heap is the earliest timer. -/
theorem isLeast_timesLeft [DecidableEq α] (ho : Ordered (TimerQueue.key q.queue.heap))
    (h : ticksLeft q = some t) : IsLeast (TimesLeft [q]) (left q.period t) := by
  obtain ⟨root, hroot, rfl⟩ := Option.map_eq_some_iff.mp h
  refine ⟨⟨q, List.mem_singleton_self q, root, List.mem_of_mem_head? hroot, rfl⟩, ?_⟩
  rintro n ⟨q', hq', e, he, rfl⟩
  obtain rfl := List.mem_singleton.mp hq'
  rw [List.head?_eq_getElem?] at hroot
  exact left_mono (subtract_mono (TimerQueue.root_le ho hroot he))

/-- What one queue makes of the minimum so far. -/
theorem queue_waitDuration (h : q.Representable .microseconds) :
    q.waitDuration .microseconds m = some (match ticksLeft q with
      | none => m
      | some t => if t ≤ 0 then 0 else if ⌊exact .microseconds q.period t⌋ = 0 then 1
        else min m ⌊exact .microseconds q.period t⌋) := by
  unfold ClockQueue.waitDuration ticksLeft
  cases hheap : q.queue.heap with
  | nil => rfl
  | cons root rest =>
    have hroot := h root (by rw [hheap]; rfl)
    simp only [List.head?_cons, Option.map_some]
    rcases le_or_gt (subtract root.time q.now) 0 with ht | ht
    · rw [toUnit, if_pos ht, if_pos ht]
    · rw [toUnit_of_mem ht (hroot.resolve_left (not_le.mpr ht)), if_neg (not_le.mpr ht)]
      split_ifs <;> grind

theorem representable_of_waitDuration (h : q.waitDuration .microseconds m = some n) :
    q.Representable .microseconds := by
  intro root hroot
  have hheap : q.queue.heap = root :: q.queue.heap.tail := (List.eq_cons_of_mem_head? hroot)
  rw [ClockQueue.waitDuration, hheap] at h
  rcases le_or_gt (subtract root.time q.now) 0 with ht | ht
  · exact Or.inl ht
  · simp only [toUnit, if_neg (not_le.mpr ht)] at h
    obtain ⟨k, hk, -⟩ := Option.map_eq_some_iff.mp h
    exact Or.inr (mem_of_total (inInt64_subtract root.time q.now) hk)

theorem waitDuration_append (queues queues' : List (ClockQueue α)) (m : Int) :
    waitDuration .microseconds (queues ++ queues') m =
      (waitDuration .microseconds queues m).bind (waitDuration .microseconds queues') := by
  induction queues generalizing m with
  | nil => rfl
  | cons q queues ih =>
    rw [List.cons_append, waitDuration, waitDuration, Option.bind_assoc]
    exact congrArg _ (funext ih)

theorem representable_of_some (h : waitDuration .microseconds queues m = some n) :
    ∀ q ∈ queues, q.Representable .microseconds := by
  induction queues generalizing m with
  | nil =>
    intro q hq
    cases hq
  | cons q queues ih =>
    obtain ⟨k, hk, hrest⟩ := Option.bind_eq_some_iff.mp h
    intro q' hq'
    rcases List.mem_cons.mp hq' with rfl | hq'
    · exact representable_of_waitDuration hk
    · exact ih hrest q' hq'

theorem settled_append (h : urgent q = false) (hdue : due q = false) :
    Settled (queues ++ [q]) ↔ Settled queues := by
  have hfilter : (queues ++ [q]).filter urgent = queues.filter urgent := by
    simp [List.filter_append, h]
  have hexists : (∃ r ∈ queues ++ [q], due r = true) ↔ ∃ r ∈ queues, due r = true := by
    simp [or_and_right, exists_or, hdue]
  rw [Settled, Settled, hfilter, hexists]

theorem settled_append_urgent (h : urgent q = true) :
    Settled (queues ++ [q]) ↔ due q = true ∨ ¬∃ r ∈ queues, due r = true := by
  have hlast : ((queues ++ [q]).filter urgent).getLast? = some q := by
    simp [List.filter_append, h]
  rw [Settled, hlast]
  constructor
  · intro hsettled
    by_cases hexists : ∃ r ∈ queues, due r = true
    · obtain ⟨r, hr, hdue⟩ := hexists
      exact Or.inl (hsettled ⟨r, List.mem_append_left _ hr, hdue⟩ q rfl)
    · exact Or.inr hexists
  · rintro hcases ⟨r, hr, hdue⟩ q' hq'
    obtain rfl := Option.some.inj hq'
    rcases hcases with hq | hnone
    · exact hq
    · rcases List.mem_append.mp hr with hr | hr
      · exact absurd ⟨r, hr, hdue⟩ hnone
      · rwa [← List.mem_singleton.mp hr]

end Queues

/-! ### The minimum over the queues -/

section Minimum

variable {m n t : Int} {q : ClockQueue α} {queues : List (ClockQueue α)}

/-- What the queues make of a bound `m`. A queue whose earliest timer has less than a microsecond left
makes the minimum one, also where it was zero. -/
structure Minimum (queues : List (ClockQueue α)) (m n : Int) : Prop where
  least : Settled queues → IsLeast (insert m (TimesLeft queues)) n
  hidden : ¬Settled queues → n = 1 ∧ 0 ∈ TimesLeft queues

theorem minimum_nil : Minimum ([] : List (ClockQueue α)) m m := by
  refine ⟨fun _ => ?_, fun hsettled => absurd ?_ hsettled⟩
  · have hempty : TimesLeft ([] : List (ClockQueue α)) = ∅ := by
      ext n
      simp [TimesLeft]
    rw [hempty]
    exact ⟨Set.mem_insert _ _, fun n hn => (Set.mem_insert_iff.mp hn).elim Eq.ge False.elim⟩
  · rintro ⟨q, hq, -⟩
    cases hq

theorem Minimum.append_none (h : Minimum queues m n) (ht : ticksLeft q = none) :
    Minimum (queues ++ [q]) m n := by
  have hurgent : urgent q = false := by
    rw [urgent, ht]
    rfl
  have hdue : due q = false := by
    rw [due, ht]
    rfl
  have hsettled : Settled (queues ++ [q]) ↔ Settled queues := settled_append hurgent hdue
  have htimes : TimesLeft (queues ++ [q]) = TimesLeft queues := by
    rw [timesLeft_append, timesLeft_of_none ht, Set.union_empty]
  refine ⟨fun hs => ?_, fun hs => ?_⟩
  · rw [htimes]
    exact h.least (hsettled.mp hs)
  · rw [htimes]
    exact h.hidden fun hfront => hs (hsettled.mpr hfront)

theorem due_eq_false (ht : ticksLeft q = some t) (hpos : 0 < t) : due q = false := by
  rw [due, ht]
  exact decide_eq_false (not_le.mpr hpos)

variable [DecidableEq α]

theorem zero_mem_iff (ho : ∀ q ∈ queues, Ordered (TimerQueue.key q.queue.heap)) :
    0 ∈ TimesLeft queues ↔ ∃ q ∈ queues, due q = true := by
  constructor
  · rintro ⟨q, hq, e, he, hzero⟩
    refine ⟨q, hq, due_iff.mpr ?_⟩
    cases ht : ticksLeft q with
    | none =>
      have hmem : left q.period (subtract e.time q.now) ∈ TimesLeft [q] :=
        ⟨q, List.mem_singleton_self q, e, he, rfl⟩
      rw [timesLeft_of_none ht] at hmem
      cases hmem
    | some t =>
      have hle := (isLeast_timesLeft (ho q hq) ht).2 ⟨q, List.mem_singleton_self q, e, he, hzero⟩
      exact ⟨t, rfl, left_eq_zero_iff.mp (le_antisymm hle left_nonneg)⟩
  · rintro ⟨q, hq, hdue⟩
    obtain ⟨t, ht, hle⟩ := due_iff.mp hdue
    obtain ⟨root, hroot, rfl⟩ := Option.map_eq_some_iff.mp ht
    exact ⟨q, hq, root, List.mem_of_mem_head? hroot, (left_eq_zero_iff.mpr hle).symm⟩

theorem minimum_append_due (hm : 0 ≤ m) (ho : Ordered (TimerQueue.key q.queue.heap))
    (ht : ticksLeft q = some t) (hle : t ≤ 0) : Minimum (queues ++ [q]) m 0 := by
  have hdue : due q = true := due_iff.mpr ⟨t, ht, hle⟩
  have hurgent : urgent q = true := urgent_iff.mpr ⟨t, ht, floor_exact_nonpos hle⟩
  have hleast := isLeast_timesLeft ho ht
  rw [left_eq_zero_iff.mpr hle] at hleast
  refine ⟨fun _ => ⟨?_, ?_⟩, fun hsettled => ?_⟩
  · rw [timesLeft_append]
    exact Set.mem_insert_of_mem _ (Set.mem_union_right _ hleast.1)
  · rintro k (rfl | hk)
    · exact hm
    · exact timesLeft_nonneg hk
  · exact absurd ((settled_append_urgent hurgent).mpr (Or.inl hdue)) hsettled

/-- The minimum so far is only lost where it was zero. -/
theorem Minimum.append_urgent (h : Minimum queues m n) (hm : 1 ≤ m)
    (hofront : ∀ q ∈ queues, Ordered (TimerQueue.key q.queue.heap))
    (ho : Ordered (TimerQueue.key q.queue.heap)) (ht : ticksLeft q = some t) (hpos : 0 < t)
    (hzero : ⌊exact .microseconds q.period t⌋ = 0) : Minimum (queues ++ [q]) m 1 := by
  have hurgent : urgent q = true := urgent_iff.mpr ⟨t, ht, hzero.le⟩
  have hsettled : Settled (queues ++ [q]) ↔ due q = true ∨ ¬∃ r ∈ queues, due r = true :=
    settled_append_urgent hurgent
  rw [due_eq_false ht hpos, ← zero_mem_iff hofront] at hsettled
  have hleast := isLeast_timesLeft ho ht
  rw [left_of_pos hpos, hzero, max_eq_left Int.one_nonneg] at hleast
  refine ⟨fun hs => ?_, fun hs => ⟨rfl, ?_⟩⟩
  · have hnone : 0 ∉ TimesLeft queues := (hsettled.mp hs).resolve_left Bool.false_ne_true
    have hfront := h.least fun hexists => absurd ((zero_mem_iff hofront).mpr hexists) hnone
    have hn : 1 ≤ n := by
      rcases hfront.1 with rfl | hmem
      · exact hm
      · rcases (timesLeft_nonneg hmem).eq_or_lt with rfl | hlt
        · exact absurd hmem hnone
        · exact hlt
    have hunion := hfront.union hleast
    rwa [min_eq_right hn, Set.insert_union, ← timesLeft_append] at hunion
  · rw [timesLeft_append]
    exact Set.mem_union_left _ (not_not.mp fun hnone => hs (hsettled.mpr (Or.inr hnone)))

theorem Minimum.append_later (h : Minimum queues m n)
    (ho : Ordered (TimerQueue.key q.queue.heap)) (ht : ticksLeft q = some t) (hpos : 0 < t)
    (hzero : ⌊exact .microseconds q.period t⌋ ≠ 0) :
    Minimum (queues ++ [q]) m (min n ⌊exact .microseconds q.period t⌋) := by
  have hnonneg : 0 ≤ ⌊exact .microseconds q.period t⌋ := floor_exact_nonneg hpos
  have hurgent : urgent q = false := by
    rw [urgent, ht]
    exact decide_eq_false (by omega)
  have hsettled : Settled (queues ++ [q]) ↔ Settled queues :=
    settled_append hurgent (due_eq_false ht hpos)
  have hleast := isLeast_timesLeft ho ht
  rw [left_of_pos hpos, max_eq_right (by omega)] at hleast
  refine ⟨fun hs => ?_, fun hs => ?_⟩
  · have hunion := (h.least (hsettled.mp hs)).union hleast
    rwa [Set.insert_union, ← timesLeft_append] at hunion
  · obtain ⟨rfl, hmem⟩ := h.hidden fun hfront => hs (hsettled.mpr hfront)
    refine ⟨min_eq_left (by omega), ?_⟩
    rw [timesLeft_append]
    exact Set.mem_union_left _ hmem

theorem waitDuration_spec (hm : 1 ≤ m) (ho : ∀ q ∈ queues, Ordered (TimerQueue.key q.queue.heap))
    (h : ∀ q ∈ queues, q.Representable .microseconds) :
    ∃ n, waitDuration .microseconds queues m = some n ∧ Minimum queues m n := by
  induction queues using List.reverseRecOn with
  | nil => exact ⟨m, rfl, minimum_nil⟩
  | append_singleton queues q ih =>
    have hofront : ∀ q ∈ queues, Ordered (TimerQueue.key q.queue.heap) := fun r hr =>
      ho r (List.mem_append_left _ hr)
    have hoq := ho q (List.mem_append_right _ (List.mem_singleton_self q))
    have hq := h q (List.mem_append_right _ (List.mem_singleton_self q))
    obtain ⟨n, hn, hmin⟩ := ih hofront fun r hr => h r (List.mem_append_left _ hr)
    rw [waitDuration_append, hn, Option.bind_some, waitDuration, queue_waitDuration hq,
      Option.bind_some, waitDuration]
    refine ⟨_, rfl, ?_⟩
    cases ht : ticksLeft q with
    | none => exact hmin.append_none ht
    | some t =>
      dsimp only
      rcases le_or_gt t 0 with hle | hpos
      · rw [if_pos hle]
        exact minimum_append_due (by omega) hoq ht hle
      · rw [if_neg (not_le.mpr hpos)]
        by_cases hzero : ⌊exact .microseconds q.period t⌋ = 0
        · rw [if_pos hzero]
          exact hmin.append_urgent hm hofront hoq ht hpos hzero
        · rw [if_neg hzero]
          exact hmin.append_later hoq ht hpos hzero

end Minimum

/-! ### When the timeout is as it is meant -/

/-- No conversion overflows, and no timer that is due is followed by one that only rounds to zero. -/
structure Exact (queues : List (ClockQueue α)) : Prop where
  representable : ∀ q ∈ queues, q.Representable .microseconds
  settled : Settled queues

def Punctual (s : SelectReactor K α) : Call → Prop
  | .run usec => s.stopThread = true ∨ usec = 0 ∨ Exact s.timerQueues
  | .runThread => s.stopThread = true ∨
    (Exact s.timerQueues ∧ ∃ n ∈ TimesLeft s.timerQueues, n ≤ 1)

section Waiting

variable {s : SelectReactor K α} {usec m : Int}

theorem run_of_ne_zero (hstop : s.stopThread = false) (h : usec ≠ 0) :
    s.run usec = (s.getTimeout usec).map some := by
  rw [run, hstop, if_neg Bool.false_ne_true, if_neg (fun hand => h hand.1), if_neg h]

theorem waits_of_perform {c : Call} (h : s.perform c = some none) : s.Waits c := by
  refine ⟨none, h, ?_⟩
  rintro tv ⟨⟩

theorem waits_of_getTimeout {c : Call} {usec : Int} (hc : c ≠ .run 0)
    (h : s.perform c = (s.getTimeout usec).map some) : s.Waits c ↔
      ∃ tv, s.getTimeout usec = some tv ∧
        ∃ n, IsLeast (insert c.bound (TimesLeft s.timerQueues)) n ∧
          tv = ⟨n / 1000000, n % 1000000⟩ := by
  constructor
  · rintro ⟨handed, hhanded, hspec⟩
    obtain ⟨tv, htv, rfl⟩ := Option.map_eq_some_iff.mp (h.symm.trans hhanded)
    exact ⟨tv, htv, (hspec tv rfl).2⟩
  · rintro ⟨tv, htv, hspec⟩
    refine ⟨some tv, by rw [h, htv, Option.map_some], ?_⟩
    rintro tv' ⟨⟩
    exact ⟨fun h => absurd h hc, hspec⟩

variable [DecidableEq α]

theorem timeval_inj {n n' : Int} (hn : 0 ≤ n)
    (h : (⟨n.tdiv 1000000, n.tmod 1000000⟩ : Timeval) = ⟨n' / 1000000, n' % 1000000⟩) : n = n' := by
  rw [Int.tdiv_eq_ediv_of_nonneg hn, Int.tmod_eq_emod_of_nonneg hn, Timeval.mk.injEq] at h
  rw [← Int.ediv_mul_add_emod n 1000000, ← Int.ediv_mul_add_emod n' 1000000, h.1, h.2]

/-- The timeout for a bound `m`, against that for the bound `m'` which was meant. -/
theorem getTimeout_iff {m' : Int} (hm : 1 ≤ m) (hmm : m ≤ m') :
    (∃ tv, (waitDuration .microseconds s.timerQueues m).map (fun usec =>
        (⟨usec.tdiv 1000000, usec.tmod 1000000⟩ : Timeval)) = some tv ∧
      ∃ n, IsLeast (insert m' (TimesLeft s.timerQueues)) n ∧ tv = ⟨n / 1000000, n % 1000000⟩) ↔
      Exact s.timerQueues ∧ (m = m' ∨ ∃ n ∈ TimesLeft s.timerQueues, n ≤ m) := by
  constructor
  · rintro ⟨tv, htv, n', hleast', rfl⟩
    obtain ⟨k, hk, heq⟩ := Option.map_eq_some_iff.mp htv
    have hrep := representable_of_some hk
    obtain ⟨n, hn, hleast, hone⟩ := waitDuration_spec hm s.ordered hrep
    obtain rfl := Option.some.inj (hk.symm.trans hn)
    by_cases hsettled : Settled s.timerQueues
    · have hmin := hleast hsettled
      have hnonneg : 0 ≤ k := least_nonneg (by omega) hmin
      obtain rfl := timeval_inj hnonneg heq
      refine ⟨⟨hrep, hsettled⟩, ?_⟩
      rcases hleast'.1 with rfl | hmem
      · exact Or.inl (le_antisymm hmm (hmin.2 (Set.mem_insert _ _)))
      · exact Or.inr ⟨k, hmem, hmin.2 (Set.mem_insert _ _)⟩
    · obtain ⟨rfl, hmem⟩ := hone hsettled
      obtain rfl := timeval_inj Int.one_nonneg heq
      exact absurd (hleast'.2 (Set.mem_insert_of_mem _ hmem)) (by decide)
  · rintro ⟨⟨hrep, hsettled⟩, hcases⟩
    obtain ⟨n, hn, hleast, -⟩ := waitDuration_spec hm s.ordered hrep
    have hmin := hleast hsettled
    have hnonneg : 0 ≤ n := least_nonneg (by omega) hmin
    rw [hn, Option.map_some]
    refine ⟨_, rfl, n, ⟨?_, ?_⟩, ?_⟩
    · rcases hmin.1 with rfl | hmem
      · rcases hcases with rfl | ⟨k, hk, hle⟩
        · exact Set.mem_insert _ _
        · have hle' := hmin.2 (Set.mem_insert_of_mem _ hk)
          obtain rfl := le_antisymm hle' hle
          exact Set.mem_insert_of_mem _ hk
      · exact Set.mem_insert_of_mem _ hmem
    · rintro k (rfl | hk)
      · exact (hmin.2 (Set.mem_insert _ _)).trans hmm
      · exact hmin.2 (Set.mem_insert_of_mem _ hk)
    · rw [Int.tdiv_eq_ediv_of_nonneg hnonneg, Int.tmod_eq_emod_of_nonneg hnonneg]

/-- Polling waits for nothing, and other calls as they are meant to except where the conversion
overflows or a timer of less than a microsecond hides one that is due. The thread of the reactor,
which means to block, waits for a microsecond only. -/
theorem waits_iff (s : SelectReactor K α) (c : Call) : s.Waits c ↔ s.Punctual c := by
  cases hstop : s.stopThread with
  | true =>
    cases c with
    | run usec =>
      exact iff_of_true (waits_of_perform (by rw [perform, run, if_pos hstop])) (Or.inl hstop)
    | runThread =>
      exact iff_of_true (waits_of_perform (by rw [perform, runThread, if_pos hstop])) (Or.inl hstop)
  | false =>
    cases c with
    | run usec =>
      by_cases hzero : usec = 0
      · refine iff_of_true ?_ (Or.inr (Or.inl hzero))
        subst hzero
        have hperform : s.perform (.run 0) = some none ∨ s.perform (.run 0) = some (some ⟨0, 0⟩) := by
          simp only [perform, run]
          split_ifs with hnone
          · exact Or.inl rfl
          · exact Or.inl rfl
          · exact Or.inr rfl
        rcases hperform with hnone | hpoll
        · exact waits_of_perform hnone
        · refine ⟨_, hpoll, ?_⟩
          rintro tv ⟨⟩
          refine ⟨fun _ => rfl, 0, ⟨Set.mem_insert _ _, ?_⟩, rfl⟩
          rintro k (rfl | hk)
          · exact le_rfl
          · exact timesLeft_nonneg hk
      · have hbound : (if usec < 0 ∨ maxUsec < usec then maxUsec else usec) =
            Call.bound (.run usec) := by
          simp only [Call.bound, maxUsec]
          split_ifs <;> omega
        have hone : 1 ≤ Call.bound (.run usec) := by
          simp only [Call.bound, maxUsec]
          split_ifs <;> omega
        have hperform : s.perform (.run usec) = (s.getTimeout usec).map some :=
          run_of_ne_zero hstop hzero
        rw [waits_of_getTimeout (fun h => hzero (Call.run.inj h)) hperform, getTimeout, hbound,
          getTimeout_iff hone le_rfl]
        simp [Punctual, hstop, hzero]
    | runThread =>
      have hperform : s.perform .runThread = (s.getTimeout 1).map some := by
        rw [perform, runThread, hstop, if_neg Bool.false_ne_true, run_of_ne_zero hstop one_ne_zero]
      have hbound : (if (1 : Int) < 0 ∨ maxUsec < 1 then maxUsec else 1) = 1 := by
        decide
      rw [waits_of_getTimeout (fun h => by cases h) hperform, getTimeout, hbound,
        getTimeout_iff le_rfl (by decide : 1 ≤ Call.bound .runThread)]
      have hne : ¬(1 : Int) = Call.bound .runThread := by decide
      simp [Punctual, hstop, hne]

end Waiting

/-- A reactor without timers and operations. -/
def idle : SelectReactor Int Nat := ⟨false, [], [], fun _ h => absurd h List.not_mem_nil⟩

/-- Asked to block, it waits for a microsecond. -/
theorem not_waits_runThread : idle.runThread = some (some ⟨0, 1⟩) ∧ ¬idle.Waits .runThread := by
  refine ⟨rfl, fun h => ?_⟩
  rcases (waits_iff idle .runThread).mp h with hstop | ⟨-, n, ⟨q, hq, -⟩, -⟩
  · cases hstop
  · cases hq

end SelectReactor

end Asio.Detail
