import Mathlib.Data.List.Basic
import Mathlib.Logic.Function.Basic

/-! Singly linked lists threaded through their elements. -/

universe u

namespace Asio.Lib

variable {α : Type u}

/-- The links lead from `head` through the elements of the list in order, and end there. -/
def Chain (next : α → Option α) : Option α → List α → Prop
  | head, [] => head = none
  | head, a :: l => head = some a ∧ Chain next (next a) l

/-- The link that follows the elements `xs`: that of the last of them, or the head. -/
def linkAfter (next : α → Option α) (head : Option α) (xs : List α) : Option α :=
  (xs.getLast?.map next).getD head

namespace Chain

variable {next next' : α → Option α} {head head' : Option α} {l xs ys zs : List α} {a : α}

theorem head_eq (h : Chain next head l) : head = l.head? := by
  cases l with
  | nil => exact h
  | cons a l => exact h.1

theorem congr (h : Chain next head l) (hnext : ∀ a ∈ l, next' a = next a) :
    Chain next' head l := by
  induction l generalizing head with
  | nil => exact h
  | cons a l ih =>
    refine ⟨h.1, ?_⟩
    rw [hnext a List.mem_cons_self]
    exact ih h.2 fun b hb => hnext b (List.mem_cons_of_mem _ hb)

theorem linkAfter_cons (a : α) (xs : List α) :
    linkAfter next head (a :: xs) = linkAfter next (next a) xs := by
  cases xs with
  | nil => rfl
  | cons b xs => simp [linkAfter, List.getLast?_cons]

theorem suffix (h : Chain next head (xs ++ ys)) : Chain next (linkAfter next head xs) ys := by
  induction xs generalizing head with
  | nil => exact h
  | cons a xs ih =>
    rw [linkAfter_cons]
    exact ih h.2

/-- The link after `xs` is led elsewhere, and the links of `xs` before it stay as they are. -/
theorem splice (h : Chain next head (xs ++ ys)) (hz : Chain next' (linkAfter next' head' xs) zs)
    (hhead : xs ≠ [] → head' = head)
    (hnext : ∀ a ∈ xs, xs.getLast? ≠ some a → next' a = next a) (hnodup : xs.Nodup) :
    Chain next' head' (xs ++ zs) := by
  induction xs generalizing head head' with
  | nil => exact hz
  | cons a xs ih =>
    refine ⟨(hhead (by simp)).trans h.1, ?_⟩
    rw [linkAfter_cons] at hz
    have last (b : α) (hne : xs ≠ []) : (a :: xs).getLast? = some b ↔ xs.getLast? = some b := by
      cases xs with
      | nil => exact absurd rfl hne
      | cons c xs => rw [List.getLast?_cons_cons]
    refine ih h.2 hz (fun hne => ?_) (fun b hb hlast => ?_) (List.nodup_cons.1 hnodup).2
    · apply hnext a List.mem_cons_self
      rw [ne_eq, last a hne]
      intro hlast
      exact (List.nodup_cons.1 hnodup).1 (List.mem_of_getLast? hlast)
    · apply hnext b (List.mem_cons_of_mem _ hb)
      rwa [ne_eq, last b (List.ne_nil_of_mem hb)]

end Chain

end Asio.Lib
