import Asio.Lib.Interleaving

/-! A baton that only one component at a time has: nobody has it, it waits in a pool to be picked
up, or a component has it, and no other has anything to do. -/

universe u w

namespace Asio.Lib

open Interleaving

variable {ι : Type u} {Call : Type w}

/-- Whether the baton has been taken, and how often it is in the pool. -/
inductive Baton (calls : ι → List Call) : Bool → Nat → Prop
  | free (idle : ∀ i, calls i = []) : Baton calls false 0
  | pooled (idle : ∀ i, calls i = []) : Baton calls true 1
  | held (i) (busy : calls i ≠ []) (others : ∀ j, j ≠ i → calls j = []) : Baton calls true 0

namespace Baton

variable {calls : ι → List Call} {new : List Call} {taken : Bool} {pool : Nat} {i j : ι}

theorem of_busy (h : Baton calls taken pool) (hi : calls i ≠ []) :
    taken = true ∧ pool = 0 ∧ ∀ j, j ≠ i → calls j = [] := by
  cases h with
  | free idle => exact absurd (idle i) hi
  | pooled idle => exact absurd (idle i) hi
  | held k _ others =>
    obtain rfl : i = k := by
      by_contra hne
      exact hi (others i hne)
    exact ⟨rfl, rfl, others⟩

theorem eq_of_busy (h : Baton calls taken pool) (hi : calls i ≠ []) (hj : calls j ≠ []) :
    i = j := by
  by_contra hne
  exact hi ((h.of_busy hj).2.2 i hne)

theorem idle_of_not_taken (h : Baton calls false pool) : pool = 0 ∧ ∀ i, calls i = [] := by
  cases h with
  | free idle => exact ⟨rfl, idle⟩

theorem idle_of_pooled (h : Baton calls taken (pool + 1)) :
    taken = true ∧ pool = 0 ∧ ∀ i, calls i = [] := by
  cases h with
  | pooled idle => exact ⟨rfl, rfl, idle⟩

/-- The baton is taken just when it is once in the pool or one component has it. -/
theorem taken_iff (h : Baton calls taken pool) : taken = true ↔
    (pool = 1 ∧ ∀ i, calls i = []) ∨
      (pool = 0 ∧ ∃ i, calls i ≠ [] ∧ ∀ j, j ≠ i → calls j = []) := by
  cases h with
  | free idle => simp [idle]
  | pooled idle => simp [idle]
  | held i busy others => exact iff_of_true rfl (.inr ⟨rfl, i, busy, others⟩)

theorem pool_le (h : Baton calls taken pool) : pool ≤ 1 := by
  cases h with
  | free | held => exact Nat.zero_le 1
  | pooled => exact Nat.le_refl 1

theorem pool_eq_one_iff (h : Baton calls taken pool) :
    pool = 1 ↔ taken = true ∧ ∀ i, calls i = [] := by
  cases h with
  | free idle => simp
  | pooled idle => simp [idle]
  | held i busy others => exact iff_of_false nofun fun hidle => busy (hidle.2 i)

/-- What the calls of a component measure is bounded, when none measures least. -/
theorem exists_bound (h : Baton calls taken pool) {f : List Call → Nat}
    (hf : ∀ calls, f [] ≤ f calls) : ∃ n, ∀ i, f (calls i) ≤ n := by
  cases h with
  | free idle | pooled idle => exact ⟨f [], fun i => by rw [idle i]⟩
  | held i busy others =>
    refine ⟨f (calls i), fun j => ?_⟩
    by_cases hj : j = i
    · rw [hj]
    · rw [others j hj]
      exact hf _

variable [DecidableEq ι]

theorem update_lt {calls : ι → List Call} {f : List Call → Nat} {n : Nat}
    (others : ∀ j, j ≠ i → calls j = []) (hf : ∀ calls, f [] ≤ f calls) (hnew : f new < n) (j : ι) :
    f (Function.update calls i new j) < n := by
  by_cases hj : j = i
  · subst hj
    rwa [Function.update_self]
  · rw [Function.update_of_ne hj, others j hj]
    exact Nat.lt_of_le_of_lt (hf new) hnew

theorem update_idle {calls : ι → List Call} {i : ι} (others : ∀ j, j ≠ i → calls j = []) (j : ι) :
    Function.update calls i [] j = [] := by
  by_cases hj : j = i
  · subst hj
    exact Function.update_self ..
  · rw [Function.update_of_ne hj, others j hj]

theorem held_update (hnew : new ≠ []) (others : ∀ j, j ≠ i → calls j = []) :
    Baton (Function.update calls i new) true 0 := by
  refine .held i (by rwa [Function.update_self]) fun j hj => ?_
  rw [Function.update_of_ne hj, others j hj]

theorem take (h : Baton calls false pool) (hnew : new ≠ []) :
    Baton (Function.update calls i new) true pool := by
  obtain ⟨rfl, idle⟩ := h.idle_of_not_taken
  exact held_update hnew fun j _ => idle j

theorem pick (h : Baton calls taken (pool + 1)) (hnew : new ≠ []) :
    Baton (Function.update calls i new) taken pool := by
  obtain ⟨rfl, rfl, idle⟩ := h.idle_of_pooled
  exact held_update hnew fun j _ => idle j

theorem keep (h : Baton calls taken pool) (hi : calls i ≠ []) (hnew : new ≠ []) :
    Baton (Function.update calls i new) taken pool := by
  obtain ⟨rfl, rfl, others⟩ := h.of_busy hi
  exact held_update hnew others

theorem put (h : Baton calls taken pool) (hi : calls i ≠ []) :
    Baton (Function.update calls i []) taken (pool + 1) := by
  obtain ⟨rfl, rfl, others⟩ := h.of_busy hi
  exact .pooled (update_idle others)

theorem release (h : Baton calls taken pool) (hi : calls i ≠ []) :
    Baton (Function.update calls i []) false pool := by
  obtain ⟨rfl, rfl, others⟩ := h.of_busy hi
  exact .free (update_idle others)

end Baton

end Asio.Lib
