import Mathlib.Data.List.Basic
import Mathlib.Data.List.Sublists

/-! Waiting in line: those at the front leave in turn, and those with a key may be called out. -/

universe u v

namespace Asio.Lib

/-- Those who have joined, those who have left, those of them who left in turn, and those who
wait. -/
structure Line (α : Type u) where
  joined : List α
  left : List α
  inTurn : List α
  waiting : List α

namespace Line

variable {α : Type u} {κ : Type v} [DecidableEq κ] {key : α → κ}

def empty : Line α := ⟨[], [], [], []⟩

inductive Step (key : α → κ) : Line α → Line α → Prop
  | stay {l : Line α} : Step key l l
  | join {j o t w : List α} : Step key ⟨j, o, t, w⟩ ⟨j ++ [a], o, t, w ++ [a]⟩
  | pass {j o t : List α} : Step key ⟨j, o, t, []⟩ ⟨j ++ [a], o ++ [a], t ++ [a], []⟩
  | leave {j o t first rest : List α} : Step key ⟨j, o, t, first ++ rest⟩
      ⟨j, o ++ first, t ++ first, rest⟩
  | withdraw {j o t w : List α} (k : κ) : Step key ⟨j, o, t, w⟩
      ⟨j, o ++ w.filter (key · = k), t, w.filter (key · ≠ k)⟩

/-- Anybody may be called out. -/
inductive Move : Line α → Line α → Prop
  | stay {l : Line α} : Move l l
  | join {j o t w : List α} : Move ⟨j, o, t, w⟩ ⟨j ++ [a], o, t, w ++ [a]⟩
  | pass {j o t : List α} : Move ⟨j, o, t, []⟩ ⟨j ++ [a], o ++ [a], t ++ [a], []⟩
  | leave {j o t first rest : List α} : Move ⟨j, o, t, first ++ rest⟩
      ⟨j, o ++ first, t ++ first, rest⟩
  | callOut {j o t w out rest : List α} : rest.Sublist w → (out ++ rest).Perm w →
      Move ⟨j, o, t, w⟩ ⟨j, o ++ out, t, rest⟩

/-- Everybody has left or waits, and the others than those called out are in turn. -/
structure Turns (l : Line α) : Prop where
  accounted : (l.left ++ l.waiting).Perm l.joined
  turns : (l.inTurn ++ l.waiting).Sublist l.joined

structure InOrder (key : α → κ) (l : Line α) : Prop where
  accounted : (l.left ++ l.waiting).Perm l.joined
  turns : (l.inTurn ++ l.waiting).Sublist l.joined
  keys : ∀ k, (l.left ++ l.waiting).filter (key · = k) = l.joined.filter (key · = k)

variable {l l' : Line α}

theorem turns_empty : Turns (empty : Line α) := ⟨List.Perm.nil, List.Sublist.slnil⟩

theorem inOrder_empty : InOrder key (empty : Line α) :=
  ⟨List.Perm.nil, List.Sublist.slnil, fun _ => rfl⟩

/-- Calling out a key does not change the order of the others, nor that of the same key. -/
theorem filter_withdraw (left waiting : List α) (k k' : κ) :
    (left ++ waiting.filter (key · = k) ++ waiting.filter (key · ≠ k)).filter (key · = k') =
      (left ++ waiting).filter (key · = k') := by
  rw [List.append_assoc, List.filter_append, List.filter_append, List.filter_append,
    List.filter_filter, List.filter_filter]
  congr 1
  by_cases hk : k' = k
  · subst hk
    simp
  · have hnone : waiting.filter (fun a => decide (key a = k') && decide (key a = k)) = [] := by
      rw [List.filter_eq_nil_iff]
      intro a _
      simp only [Bool.and_eq_true, decide_eq_true_eq, not_and]
      rintro rfl
      exact hk
    rw [hnone, List.nil_append]
    apply List.filter_congr
    intro a _
    by_cases ha : key a = k' <;> simp [ha, hk]

theorem Step.move (h : Step key l l') : Move l l' := by
  cases h with
  | stay => exact .stay
  | join => exact .join
  | pass => exact .pass
  | leave => exact .leave
  | withdraw k =>
    refine .callOut List.filter_sublist ?_
    simpa using List.filter_append_perm (key · = k) _

theorem Move.turns (h : Move l l') (hl : Turns l) : Turns l' := by
  cases h with
  | stay => exact hl
  | join =>
    refine ⟨?_, ?_⟩
    · rw [← List.append_assoc]
      exact hl.accounted.append_right _
    · rw [← List.append_assoc]
      exact hl.turns.append_right _
  | pass =>
    refine ⟨?_, ?_⟩
    · have := hl.accounted
      rw [List.append_nil] at this ⊢
      exact this.append_right _
    · have := hl.turns
      rw [List.append_nil] at this ⊢
      exact this.append_right _
  | leave =>
    refine ⟨?_, ?_⟩
    · rw [List.append_assoc]
      exact hl.accounted
    · rw [List.append_assoc]
      exact hl.turns
  | callOut hsub hperm =>
    refine ⟨?_, (hsub.append_left _).trans hl.turns⟩
    rw [List.append_assoc]
    exact (hperm.append_left _).trans hl.accounted

theorem Step.inOrder (h : Step key l l') (hl : InOrder key l) : InOrder key l' := by
  obtain ⟨haccounted, hturns⟩ := h.move.turns ⟨hl.accounted, hl.turns⟩
  refine ⟨haccounted, hturns, fun k => ?_⟩
  cases h with
  | stay => exact hl.keys k
  | join => rw [← List.append_assoc, List.filter_append, hl.keys, List.filter_append]
  | pass =>
    have := hl.keys k
    rw [List.append_nil] at this ⊢
    rw [List.filter_append, this, List.filter_append]
  | leave =>
    rw [List.append_assoc]
    exact hl.keys k
  | withdraw k' =>
    rw [filter_withdraw]
    exact hl.keys k

end Line

end Asio.Lib
