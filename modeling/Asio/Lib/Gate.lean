import Mathlib.Data.Fintype.Card
import Mathlib.Data.Fintype.Basic
import Mathlib.Data.List.Nodup

/-! Counters in a machine word that tell who is the first to pass, and who is the last to leave. -/

universe u

namespace Asio.Lib

/-! ### The first to pass -/

namespace Gate

/-- Who requests to pass counts, and passes if the count was zero. -/
def request (modulus count : Nat) : Bool × Nat := (count = 0, (count + 1) % modulus)

/-- The gate opens when its bias is taken off, and whoever opens it passes if there have been
requests. -/
def unbar (modulus bias count : Nat) : Bool × Nat :=
  let count := (count + (modulus - bias)) % modulus
  (0 < count, count)

/-- The count of a gate that has been opened or not, and how many have passed. -/
structure Counts (modulus bias : Nat) (opened : Bool) (requests count passes : Nat) : Prop where
  requested : count = (if opened then 0 else bias) + requests
  bounded : count < modulus
  passed : passes = if opened ∧ 0 < requests then 1 else 0

variable {modulus bias requests count passes : Nat} {opened : Bool}

theorem counts_barred (hlt : bias < modulus) : Counts modulus bias false 0 bias 0 :=
  ⟨rfl, hlt, by simp⟩

theorem Counts.passes_le (h : Counts modulus bias opened requests count passes) : passes ≤ 1 := by
  rw [h.passed]
  split
  · exact Nat.le_refl 1
  · exact Nat.zero_le 1

theorem Counts.opened_of_passes (h : Counts modulus bias opened requests count passes)
    (hpasses : 0 < passes) : opened = true ∧ 0 < requests := by
  rw [h.passed] at hpasses
  split at hpasses
  · assumption
  · exact absurd hpasses (Nat.lt_irrefl 0)

/-- Unless the count overflows, only the first request passes, and only once the gate is open. -/
theorem Counts.request (h : Counts modulus bias opened requests count passes) (hbias : 0 < bias)
    (hlt : count + 1 < modulus) :
    Counts modulus bias opened (requests + 1) (request modulus count).2
      (passes + if (request modulus count).1 then 1 else 0) := by
  obtain ⟨hcount, -, hpasses⟩ := h
  simp only [Gate.request, Nat.mod_eq_of_lt hlt, decide_eq_true_eq]
  refine ⟨by omega, hlt, ?_⟩
  cases opened with
  | false =>
    have hne : count ≠ 0 := by
      simp only [Bool.false_eq_true, if_false] at hcount
      omega
    simp [hpasses, hne]
  | true =>
    simp only [if_true, Nat.zero_add] at hcount
    subst hcount
    rcases Nat.eq_zero_or_pos count with hzero | hpos
    · simp [hpasses, hzero]
    · simp [hpasses, hpos, Nat.ne_of_gt hpos]

theorem Counts.unbar (h : Counts modulus bias false requests count passes)
    (hlt : bias < modulus) :
    Counts modulus bias true requests (unbar modulus bias count).2
      (passes + if (unbar modulus bias count).1 then 1 else 0) := by
  obtain ⟨hcount, hle, hpasses⟩ := h
  simp only [Bool.false_eq_true, if_false] at hcount
  have hopen : (count + (modulus - bias)) % modulus = requests := by
    have hsum : count + (modulus - bias) = requests + modulus := by omega
    rw [hsum, Nat.add_mod_right]
    exact Nat.mod_eq_of_lt (by omega)
  simp only [Gate.unbar, hopen]
  exact ⟨by simp, by omega, by simp [hpasses]⟩

theorem Counts.requests_of_unbar (h : Counts modulus bias false requests count passes)
    (hlt : bias < modulus) (hfirst : (Gate.unbar modulus bias count).1 = true) : 0 < requests := by
  refine ((h.unbar hlt).opened_of_passes ?_).2
  rw [hfirst]
  exact Nat.succ_pos passes

end Gate

/-! ### The last to leave -/

namespace Countdown

variable {α : Type u} {modulus count total : Nat} {left : List α} {a : α}

def leave (modulus count : Nat) : Nat := (count + (modulus - 1)) % modulus

/-- Everybody leaves once, and is counted. -/
structure Counts (total count : Nat) (left : List α) : Prop where
  counted : count + left.length = total
  nodup : left.Nodup

theorem counts_nobody : Counts total total ([] : List α) := ⟨rfl, List.nodup_nil⟩

variable [Fintype α]

theorem Counts.pos (h : Counts (Fintype.card α) count left) (ha : a ∉ left) : 0 < count := by
  have hlength : (a :: left).length ≤ Fintype.card α :=
    (List.nodup_cons.mpr ⟨ha, h.nodup⟩).length_le_card
  have hcount := h.counted
  rw [List.length_cons] at hlength
  omega

theorem Counts.leave (h : Counts (Fintype.card α) count left) (hlt : Fintype.card α < modulus)
    (ha : a ∉ left) :
    Counts (Fintype.card α) (leave modulus count) (left ++ [a]) ∧
      leave modulus count + 1 = count := by
  have hpos := h.pos ha
  have hcount := h.counted
  have hleave : Countdown.leave modulus count = count - 1 := by
    have hsum : count + (modulus - 1) = count - 1 + modulus := by omega
    rw [Countdown.leave, hsum, Nat.add_mod_right]
    exact Nat.mod_eq_of_lt (by omega)
  rw [hleave]
  refine ⟨⟨?_, ?_⟩, by omega⟩
  · rw [List.length_append, List.length_singleton]
    omega
  · exact List.nodup_append'.mpr
      ⟨h.nodup, List.nodup_singleton a, List.disjoint_singleton.mpr ha⟩

/-- When the count is down to zero everybody has left. -/
theorem Counts.all_of_zero (h : Counts (Fintype.card α) 0 left) (a : α) : a ∈ left := by
  by_contra ha
  exact Nat.lt_irrefl 0 (h.pos ha)

theorem Counts.zero_of_all (h : Counts (Fintype.card α) count left) (hall : ∀ a, a ∈ left) :
    count = 0 := by
  classical
  have hcard : Fintype.card α ≤ left.length :=
    calc
      Fintype.card α ≤ left.toFinset.card :=
        Finset.card_le_card fun a _ => List.mem_toFinset.mpr (hall a)
      _ ≤ left.length := left.toFinset_card_le
  have hcounted := h.counted
  omega

end Countdown

end Asio.Lib
