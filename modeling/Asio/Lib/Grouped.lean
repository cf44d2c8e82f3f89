import Mathlib.Data.List.Basic
import Mathlib.Data.List.Nodup

/-! Lists in which equal elements stand next to each other, and walks through the lists of a
doubly linked list's nodes. -/

universe u v

namespace Asio.Lib

variable {α : Type u} {β : Type v}

/-- Every element that occurs again does so at once. -/
def Grouped : List β → Prop
  | [] => True
  | b :: l => Grouped l ∧ (b ∈ l → l.head? = some b)

namespace Grouped

variable {l l' : List β} {b : β}

theorem head_of_sublist (h : Grouped (b :: l)) (hsub : l'.Sublist l) (hb : b ∈ l') :
    l'.head? = some b := by
  induction l with
  | nil =>
    cases hsub
    cases hb
  | cons c l ih =>
    obtain ⟨⟨hl, hc⟩, hhead⟩ := h
    have hbc : c = b := Option.some.inj (hhead (hsub.subset hb))
    cases hsub with
    | cons _ hsub => exact ih (hbc ▸ ⟨hl, hc⟩) hsub
    | cons_cons _ hsub => rw [List.head?_cons, hbc]

theorem sublist (h : Grouped l) (hsub : l'.Sublist l) : Grouped l' := by
  induction hsub with
  | slnil => trivial
  | cons _ _ ih => exact ih h.1
  | cons_cons _ hsub ih => exact ⟨ih h.1, h.head_of_sublist hsub⟩

/-- An element may be repeated in its place. -/
theorem insert_same {xs ys : List β} (h : Grouped (xs ++ b :: ys)) :
    Grouped (xs ++ b :: b :: ys) := by
  induction xs with
  | nil => exact ⟨h, fun _ => rfl⟩
  | cons c xs ih =>
    refine ⟨ih h.1, fun hc => ?_⟩
    have hmem : c ∈ xs ++ b :: ys := by simpa using hc
    have hhead := h.2 hmem
    cases xs with
    | nil => exact hhead
    | cons _ _ => exact hhead

theorem append_new (h : Grouped l) (hb : b ∉ l) : Grouped (l ++ [b]) := by
  induction l with
  | nil => exact ⟨trivial, fun h => by cases h⟩
  | cons c l ih =>
    rw [List.mem_cons, not_or] at hb
    refine ⟨ih h.1 hb.2, fun hc => ?_⟩
    rcases List.mem_append.mp hc with hc | hc
    · change (l ++ [b]).head? = some c
      rw [List.head?_append, h.2 hc]
      rfl
    · exact absurd (List.mem_singleton.mp hc).symm hb.1

variable [DecidableEq β]

/-- The members of a group are a segment of the list. -/
theorem split {f : α → β} {l : List α} (h : Grouped (l.map f)) (b : β) :
    ∃ xs ys, l = xs ++ l.filter (f · = b) ++ ys ∧ (∀ a ∈ xs, f a ≠ b) ∧ ∀ a ∈ ys, f a ≠ b := by
  induction l with
  | nil => exact ⟨[], [], rfl, by simp, by simp⟩
  | cons a l ih =>
    obtain ⟨xs, ys, hl, hxs, hys⟩ := ih h.1
    by_cases hab : f a = b
    · rw [List.filter_cons_of_pos (by simpa using hab)]
      cases xs with
      | nil => exact ⟨[], ys, congrArg (a :: ·) hl, hxs, hys⟩
      | cons x xs =>
        have hnone : l.filter (f · = b) = [] := by
          rw [List.filter_eq_nil_iff]
          intro c hc hcb
          have hhead := h.2 (List.mem_map.mpr ⟨c, hc, by rw [hab]; simpa using hcb⟩)
          rw [hl] at hhead
          exact hxs x (List.mem_cons_self ..) ((Option.some.inj hhead).trans hab)
        refine ⟨[], l, by rw [hnone]; rfl, by simp, fun c hc hcb => ?_⟩
        exact (List.filter_eq_nil_iff.mp hnone) c hc (by simpa using hcb)
    · rw [List.filter_cons_of_neg (by simpa using hab)]
      refine ⟨a :: xs, ys, congrArg (a :: ·) hl, ?_, hys⟩
      intro c hc
      rcases List.mem_cons.mp hc with rfl | hc
      · exact hab
      · exact hxs c hc

end Grouped

end Asio.Lib
