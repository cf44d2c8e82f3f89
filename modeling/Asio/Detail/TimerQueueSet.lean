import Mathlib.Tactic.GCongr
import Mathlib.Tactic.Linarith
import Asio.Detail.ChronoTimeTraits
import Asio.Detail.TimerQueue

/-! How long to wait for the timers of several queues. -/

universe u

namespace Asio.Detail.TimerQueueSet

open ChronoTimeTraits

abbrev Ticks := { n : Int // InInt64 n }

instance : TimeTraits Ticks where
  isPositiveInfinity _ := false

/-- `to_msec`, `to_usec` -/
def toUnit (u : TimeUnit) (p : Period) (ticks maxDuration : Int) : Option Int :=
  if ticks ≤ 0 then
    some 0
  else
    (total u p ticks).map fun n =>
      if n = 0 then 1 else if n > maxDuration then maxDuration else n

/-- A queue whose times are of one clock, and the time of that clock. -/
structure ClockQueue (α : Type u) where
  period : Period
  queue : TimerQueue Ticks α
  now : Ticks

section Queues

variable {α : Type u}

/-- `wait_duration_msec`, `wait_duration_usec` -/
def ClockQueue.waitDuration (u : TimeUnit) (q : ClockQueue α) (maxDuration : Int) : Option Int :=
  match q.queue.heap with
  | [] => some maxDuration
  | root :: _ => toUnit u q.period (subtract root.time q.now) maxDuration

def waitDuration (u : TimeUnit) : List (ClockQueue α) → Int → Option Int
  | [], minDuration => some minDuration
  | q :: queues, minDuration => (q.waitDuration u minDuration).bind (waitDuration u queues)

end Queues

section Rounding

variable {u : TimeUnit} {p : Period} {ticks maxDuration : Int}

/-- What is waited for is zero if nothing is left, and otherwise the whole units that are left, one
at least and the maximum at most. -/
def Rounds (u : TimeUnit) (p : Period) (ticks maxDuration : Int) : Prop :=
  ∃ n, toUnit u p ticks maxDuration = some n ∧ (n = 0 ↔ ticks ≤ 0) ∧
    (0 < ticks → n = min maxDuration (max 1 ⌊exact u p ticks⌋))

theorem floor_exact_nonneg (ht : 0 < ticks) : 0 ≤ ⌊exact u p ticks⌋ := by
  rw [floor_exact]
  exact Int.ediv_nonneg (Int.mul_nonneg ht.le (Int.natCast_nonneg _)) (Int.natCast_nonneg _)

theorem toUnit_of_mem (ht : 0 < ticks) (hmem : InInt64 (ticks * factor u p)) :
    toUnit u p ticks maxDuration = some (if ⌊exact u p ticks⌋ = 0 then 1
      else if ⌊exact u p ticks⌋ > maxDuration then maxDuration else ⌊exact u p ticks⌋) := by
  rw [toUnit, if_neg (not_le.mpr ht), total_of_mem ht hmem, Option.map_some]

theorem rounds_iff (hticks : InInt64 ticks) :
    Rounds u p ticks maxDuration ↔ ticks ≤ 0 ∨ (InInt64 (ticks * factor u p) ∧
      (1 ≤ maxDuration ∨ (maxDuration < 0 ∧ 1 ≤ ⌊exact u p ticks⌋))) := by
  rcases le_or_gt ticks 0 with ht | ht
  · refine iff_of_true ⟨0, if_pos ht, iff_of_true rfl ht, fun h => absurd ht (not_le.mpr h)⟩
      (Or.inl ht)
  · have hfloor := floor_exact_nonneg (u := u) (p := p) ht
    have hneg : ¬ticks ≤ 0 := not_le.mpr ht
    simp only [hneg, false_or]
    constructor
    · rintro ⟨n, hn, hzero, hmin⟩
      have hmem : InInt64 (ticks * factor u p) := by
        rw [toUnit, if_neg hneg] at hn
        obtain ⟨m, hm, -⟩ := Option.map_eq_some_iff.mp hn
        exact mem_of_total hticks hm
      rw [toUnit_of_mem ht hmem, Option.some_inj] at hn
      have hmin := hmin ht
      have hne : n ≠ 0 := fun h => hneg (hzero.mp h)
      refine ⟨hmem, ?_⟩
      generalize ⌊exact u p ticks⌋ = f at *
      split_ifs at hn <;> omega
    · rintro ⟨hmem, hmax⟩
      refine ⟨_, toUnit_of_mem ht hmem, ?_, fun _ => ?_⟩
      all_goals
        generalize ⌊exact u p ticks⌋ = f at *
        split_ifs <;> omega

theorem toUnit_le {n : Int} (hticks : InInt64 ticks) (h : toUnit u p ticks maxDuration = some n) :
    n ≤ max maxDuration 1 ∧ (n : ℚ) ≤ max 0 (exact u p ticks) + 1 := by
  rcases le_or_gt ticks 0 with ht | ht
  · rw [toUnit, if_pos ht, Option.some_inj] at h
    subst h
    refine ⟨by omega, ?_⟩
    push_cast
    positivity
  · have hmem : InInt64 (ticks * factor u p) := by
      rw [toUnit, if_neg (not_le.mpr ht)] at h
      obtain ⟨m, hm, -⟩ := Option.map_eq_some_iff.mp h
      exact mem_of_total hticks hm
    rw [toUnit_of_mem ht hmem, Option.some_inj] at h
    have hfloor : n ≤ ⌊exact u p ticks⌋ + 1 ∧ n ≤ max maxDuration 1 := by
      generalize ⌊exact u p ticks⌋ = f at *
      split_ifs at h <;> omega
    refine ⟨hfloor.2, ?_⟩
    calc (n : ℚ) ≤ (⌊exact u p ticks⌋ : ℚ) + 1 := by exact_mod_cast hfloor.1
      _ ≤ exact u p ticks + 1 := by
        have hle := Int.floor_le (exact u p ticks)
        linarith
      _ ≤ max 0 (exact u p ticks) + 1 := by
        have hle := le_max_right 0 (exact u p ticks)
        linarith

end Rounding

/-! ### The queues of a set -/

section Set

variable {α : Type u} {u : TimeUnit} {queues : List (ClockQueue α)} {q : ClockQueue α}
  {maxDuration n : Int}

/-- No product overflows for the time that is left of the earliest timer. -/
def ClockQueue.Representable (u : TimeUnit) (q : ClockQueue α) : Prop :=
  ∀ root ∈ q.queue.heap.head?, subtract root.time q.now ≤ 0 ∨
    InInt64 (subtract root.time q.now * factor u q.period)

theorem inInt64_subtract (t1 t2 : Ticks) : InInt64 (subtract t1 t2) :=
  subtract_eq_clamp t1.2 t2.2 ▸ inInt64_clamp _

theorem exact_mono {p : Period} {t t' : Int} (h : t ≤ t') : exact u p t ≤ exact u p t' := by
  have hle : (t : ℚ) ≤ t' := by exact_mod_cast h
  unfold exact
  gcongr

/-- A difference that is not representable is greater than what is taken for it. -/
theorem exact_subtract_le {p : Period} (t1 t2 : Ticks) :
    max 0 (exact u p (subtract t1 t2)) ≤ max 0 (exact u p (t1 - t2)) := by
  rw [subtract_eq_clamp t1.2 t2.2]
  rcases le_or_gt int64Min ((t1 : Int) - t2) with h | h
  · refine max_le_max_left 0 (exact_mono ?_)
    rw [clamp]
    exact max_le h (min_le_right _ _)
  · have hzero : exact u p (clamp ((t1 : Int) - t2)) ≤ 0 := by
      have hneg : clamp ((t1 : Int) - t2) ≤ 0 := by
        simp only [clamp, int64Min, int64Max] at h ⊢
        omega
      calc exact u p (clamp ((t1 : Int) - t2)) ≤ exact u p 0 := exact_mono hneg
        _ = 0 := by simp [exact]
    rw [max_eq_left hzero]
    exact le_max_left _ _

theorem ClockQueue.waitDuration_isSome (h : q.Representable u) :
    (q.waitDuration u maxDuration).isSome = true := by
  unfold ClockQueue.waitDuration
  split
  · rfl
  · rename_i root rest hheap
    have hroot := h root (by rw [hheap]; rfl)
    rcases le_or_gt (subtract root.time q.now) 0 with ht | ht
    · rw [toUnit, if_pos ht]
      rfl
    · rw [toUnit_of_mem ht (hroot.resolve_left (not_le.mpr ht))]
      rfl

theorem ClockQueue.waitDuration_le (h : q.waitDuration u maxDuration = some n) :
    n ≤ max maxDuration 1 ∧ ∀ root ∈ q.queue.heap.head?,
      (n : ℚ) ≤ max 0 (exact u q.period (root.time - q.now)) + 1 := by
  unfold ClockQueue.waitDuration at h
  split at h
  · rename_i hheap
    cases h
    refine ⟨le_max_left _ _, fun root hroot => ?_⟩
    rw [hheap] at hroot
    cases hroot
  · rename_i root rest hheap
    obtain ⟨hmax, hle⟩ := toUnit_le (inInt64_subtract root.time q.now) h
    refine ⟨hmax, fun root' hroot => ?_⟩
    rw [hheap] at hroot
    obtain rfl := Option.some_inj.mp hroot
    have hsubtract := exact_subtract_le (u := u) (p := q.period) root.time q.now
    linarith

theorem waitDuration_isSome (h : ∀ q ∈ queues, q.Representable u) :
    (waitDuration u queues maxDuration).isSome = true := by
  induction queues generalizing maxDuration with
  | nil => rfl
  | cons q queues ih =>
    have hsome : (q.waitDuration u maxDuration).isSome = true :=
      ClockQueue.waitDuration_isSome (h q List.mem_cons_self)
    obtain ⟨m, hm⟩ := Option.isSome_iff_exists.mp hsome
    rw [waitDuration, hm, Option.bind_some]
    exact ih fun q' hq' => h q' (List.mem_cons_of_mem q hq')

theorem waitDuration_le_max (h : waitDuration u queues maxDuration = some n) :
    n ≤ max maxDuration 1 := by
  induction queues generalizing maxDuration with
  | nil =>
    cases h
    exact le_max_left _ _
  | cons q queues ih =>
    obtain ⟨m, hm, hrest⟩ := Option.bind_eq_some_iff.mp h
    have hle := (ClockQueue.waitDuration_le hm).1
    have hn := ih hrest
    omega

/-- After the queue itself the minimum grows to one unit at most. -/
theorem waitDuration_le (h : waitDuration u queues maxDuration = some n) (hq : q ∈ queues) :
    ∀ root ∈ q.queue.heap.head?,
      (n : ℚ) ≤ max 0 (exact u q.period (root.time - q.now)) + 1 := by
  intro root hroot
  induction queues generalizing maxDuration with
  | nil => cases hq
  | cons q' queues ih =>
    obtain ⟨m, hm, hrest⟩ := Option.bind_eq_some_iff.mp h
    rcases List.mem_cons.mp hq with rfl | hq
    · have hle := (ClockQueue.waitDuration_le hm).2 root hroot
      have hn : (n : ℚ) ≤ max (m : ℚ) 1 := by exact_mod_cast waitDuration_le_max hrest
      have hone : (1 : ℚ) ≤ max 0 (exact u q.period (root.time - q.now)) + 1 := by
        have hzero := le_max_left 0 (exact u q.period (root.time - q.now))
        linarith
      exact hn.trans (max_le hle hone)
    · exact ih hrest hq

end Set

/-- The conversion is exact unless it overflows or the maximum leaves no room for a unit. -/
theorem rounds_iff_and_waitDuration_le {α : Type u} {u : TimeUnit} :
    (∀ {p ticks maxDuration}, InInt64 ticks →
      (Rounds u p ticks maxDuration ↔ ticks ≤ 0 ∨ (InInt64 (ticks * factor u p) ∧
        (1 ≤ maxDuration ∨ (maxDuration < 0 ∧ 1 ≤ ⌊exact u p ticks⌋))))) ∧
      ∀ {queues : List (ClockQueue α)} {maxDuration}, (∀ q ∈ queues, q.Representable u) →
        ∃ n, waitDuration u queues maxDuration = some n ∧ n ≤ max maxDuration 1 ∧
          ∀ q ∈ queues, ∀ root ∈ q.queue.heap.head?,
            (n : ℚ) ≤ max 0 (exact u q.period (root.time - q.now)) + 1 := by
  refine ⟨rounds_iff, fun h => ?_⟩
  obtain ⟨n, hn⟩ := Option.isSome_iff_exists.mp (waitDuration_isSome h)
  exact ⟨n, hn, waitDuration_le_max hn, fun q hq => waitDuration_le hn hq⟩

/-- A clock that counts seconds. -/
def seconds : Period := ⟨1, 1, by decide, by decide, by decide, by decide, by decide⟩

/-- The time that is left until the last time point is multiplied with a thousand. -/
theorem not_rounds_seconds : toUnit .milliseconds seconds int64Max 300000 = none ∧
    ¬Rounds .milliseconds seconds int64Max 300000 := by
  have hnone : toUnit .milliseconds seconds int64Max 300000 = none := by
    decide +kernel
  refine ⟨hnone, ?_⟩
  rintro ⟨n, hn, -⟩
  rw [hnone] at hn
  cases hn

end Asio.Detail.TimerQueueSet
