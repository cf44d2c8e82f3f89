import Mathlib.Algebra.BigOperators.Group.Finset.Piecewise
import Mathlib.Algebra.BigOperators.Fin
import Mathlib.Algebra.Order.BigOperators.Group.Finset
import Asio.Lib.Transition

/-! Components that take turns on a shared state: an action changes the shared state and the part
of the component that performs it. -/

universe u v w z

namespace Asio.Lib.Interleaving

open Asio.Lib.Transition

structure State (ι : Type u) (Shared : Type v) (Part : Type w) where
  shared : Shared
  part : ι → Part

variable {ι : Type u} {Shared : Type v} {Part : Type w} {Action : Type z} [DecidableEq ι]

def State.set (s : State ι Shared Part) (i : ι) (r : Shared × Part) : State ι Shared Part where
  shared := r.1
  part := Function.update s.part i r.2

def step (perform : ι → Shared → Part → Action → Option (Shared × Part))
    (s : State ι Shared Part) (a : ι × Action) : Option (State ι Shared Part) :=
  (perform a.1 s.shared (s.part a.1) a.2).map (s.set a.1)

section Steps

variable {perform : ι → Shared → Part → Action → Option (Shared × Part)}
variable {s s' : State ι Shared Part} {a : ι × Action}

@[simp] theorem shared_set (i : ι) (r : Shared × Part) : (s.set i r).shared = r.1 := rfl

@[simp] theorem part_set_self (i : ι) (r : Shared × Part) : (s.set i r).part i = r.2 :=
  Function.update_self ..

theorem part_set_of_ne {i j : ι} (h : j ≠ i) (r : Shared × Part) :
    (s.set i r).part j = s.part j :=
  Function.update_of_ne h ..

/-- Only the shared state has changed. -/
theorem set_part (s : State ι Shared Part) (i : ι) (w : Shared) :
    s.set i (w, s.part i) = ⟨w, s.part⟩ := by
  rw [State.set, Function.update_eq_self]

@[simp] theorem set_set (s : State ι Shared Part) (i : ι) (r r' : Shared × Part) :
    (s.set i r).set i r' = s.set i r' := by
  simp only [State.set, Function.update_idem]

theorem step_eq_some : step perform s a = some s' ↔
    ∃ w p, perform a.1 s.shared (s.part a.1) a.2 = some (w, p) ∧ s.set a.1 (w, p) = s' := by
  simp only [step, Option.map_eq_some_iff, Prod.exists]

/-- A property of every part is kept when the part that acts keeps it. -/
theorem forall_part_set {P : Part → Prop} {i : ι} {r : Shared × Part} (h : ∀ j, P (s.part j))
    (new : P r.2) (j : ι) : P ((s.set i r).part j) := by
  by_cases hj : j = i
  · subst hj
    rw [part_set_self]
    exact new
  · rw [part_set_of_ne hj]
    exact h j

end Steps

/-! ### What the parts hold in total -/

section Totals

set_option linter.unusedSectionVars false

variable [Fintype ι] {M : Type z} [AddCommMonoid M]

def State.total (s : State ι Shared Part) (g : Part → M) : M := ∑ i, g (s.part i)

theorem total_set (s : State ι Shared Part) (g : Part → M) (i : ι) (r : Shared × Part) :
    (s.set i r).total g + g (s.part i) = s.total g + g r.2 := by
  have others : ∑ j ∈ Finset.univ.erase i, g ((s.set i r).part j)
      = ∑ j ∈ Finset.univ.erase i, g (s.part j) := by
    apply Finset.sum_congr rfl
    intro j hj
    rw [part_set_of_ne (Finset.ne_of_mem_erase hj)]
  rw [State.total, State.total, ← Finset.add_sum_erase _ _ (Finset.mem_univ i),
    ← Finset.add_sum_erase Finset.univ (fun j => g (s.part j)) (Finset.mem_univ i), others,
    part_set_self, add_right_comm, add_comm (g r.2), add_right_comm]

theorem total_le (s : State ι Shared Part) (g : Part → Nat) (i : ι) :
    g (s.part i) ≤ s.total g :=
  Finset.single_le_sum (f := fun j => g (s.part j)) (fun _ _ => Nat.zero_le _) (Finset.mem_univ i)

theorem total_eq_zero (s : State ι Shared Part) (g : Part → Nat) :
    s.total g = 0 ↔ ∀ i, g (s.part i) = 0 := by
  simp only [State.total, Finset.sum_eq_zero_iff, Finset.mem_univ, true_implies]

/-- Only one component holds anything. -/
theorem total_eq_single (s : State ι Shared Part) (g : Part → M) (i : ι)
    (h : ∀ j, j ≠ i → g (s.part j) = 0) : s.total g = g (s.part i) :=
  Finset.sum_eq_single i (fun j _ hj => h j hj) fun hi => absurd (Finset.mem_univ i) hi

end Totals

/-! ### Components that are stacks of calls -/

section Calls

variable [Fintype ι] {Call : Type w} {s : State ι Shared (List Call)} {i : ι}

/-- What the calls of one component weigh. -/
def load (φ : Call → Nat) (calls : List Call) : Nat := (calls.map φ).sum

omit [DecidableEq ι] [Fintype ι] in
@[simp] theorem load_nil (φ : Call → Nat) : load φ [] = 0 := rfl

omit [DecidableEq ι] [Fintype ι] in
@[simp] theorem load_cons (φ : Call → Nat) (c : Call) (calls : List Call) :
    load φ (c :: calls) = φ c + load φ calls := by
  simp [load]

omit [DecidableEq ι] [Fintype ι] in
@[simp] theorem load_append (φ : Call → Nat) (calls calls' : List Call) :
    load φ (calls ++ calls') = load φ calls + load φ calls' := by
  simp [load]

omit [DecidableEq ι] [Fintype ι] in
theorem load_pos {φ : Call → Nat} {calls : List Call} (h : 0 < load φ calls) :
    ∃ c ∈ calls, 0 < φ c := by
  induction calls with
  | nil => cases h
  | cons c calls ih =>
    rw [load_cons] at h
    by_cases hc : 0 < φ c
    · exact ⟨c, List.mem_cons_self .., hc⟩
    · obtain ⟨c', hc', hpos⟩ := ih (by omega)
      exact ⟨c', List.mem_cons_of_mem _ hc', hpos⟩

omit [DecidableEq ι] [Fintype ι] in
theorem le_load (φ : Call → Nat) {c : Call} {calls : List Call} (h : c ∈ calls) :
    φ c ≤ load φ calls :=
  List.single_le_sum (fun _ _ => Nat.zero_le _) _ (List.mem_map_of_mem h)

/-- What the calls of all components weigh. -/
def State.weight (s : State ι Shared (List Call)) (φ : Call → Nat) : Nat := s.total (load φ)

theorem weight_set (φ : Call → Nat) (i : ι) (w : Shared) (calls : List Call) :
    (s.set i (w, calls)).weight φ + load φ (s.part i) = s.weight φ + load φ calls :=
  total_set s (load φ) i (w, calls)

theorem load_le_weight (φ : Call → Nat) (i : ι) : load φ (s.part i) ≤ s.weight φ :=
  total_le s (load φ) i

theorem weight_pos {φ : Call → Nat} (h : 0 < s.weight φ) : ∃ i, ∃ c ∈ s.part i, 0 < φ c := by
  by_contra hn
  have hzero : s.weight φ = 0 := by
    refine (total_eq_zero s _).mpr fun i => Nat.eq_zero_of_not_pos fun hpos => ?_
    exact hn ⟨i, load_pos hpos⟩
  omega

end Calls

end Asio.Lib.Interleaving
