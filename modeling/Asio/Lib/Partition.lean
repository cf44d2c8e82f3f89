import Mathlib.Data.List.Nodup
import Mathlib.Data.List.Perm.Basic

/-! Things that are each in one of several places. -/

universe u v

namespace Asio.Lib

/-- Each thing of the list is in one place, once, and nothing else is in any. -/
structure Partition {K : Type u} {β : Type v} (g : K → List β) (l : List β) : Prop where
  nodup : ∀ k, (g k).Nodup
  unique : ∀ {k k' b}, b ∈ g k → b ∈ g k' → k = k'
  mem : ∀ b, b ∈ l ↔ ∃ k, b ∈ g k

namespace Partition

variable {K : Type u} {β : Type v} {g g' : K → List β} {l : List β} {k k' : K} {b : β}

theorem nil : Partition (fun _ : K => ([] : List β)) [] where
  nodup _ := List.nodup_nil
  unique := nofun
  mem b := by simp only [List.not_mem_nil, exists_false]

/-- What is in two places is put in them in another way, together with something new. -/
theorem add (h : Partition g l) (hne : k ≠ k') {new : List β}
    (hsame : ∀ j, j ≠ k → j ≠ k' → g' j = g j)
    (hperm : (g' k ++ g' k').Perm (g k ++ g k' ++ new)) (hfresh : ∀ b ∈ new, b ∉ l)
    (hnew : new.Nodup) : Partition g' (l ++ new) := by
  have hmem (b : β) : b ∈ g' k ∨ b ∈ g' k' ↔ (b ∈ g k ∨ b ∈ g k') ∨ b ∈ new := by
    rw [← List.mem_append, hperm.mem_iff, List.mem_append, List.mem_append]
  have hall : (g' k ++ g' k').Nodup := by
    rw [hperm.nodup_iff]
    refine List.nodup_append.mpr ⟨List.nodup_append.mpr ⟨h.nodup k, h.nodup k', ?_⟩, hnew, ?_⟩
    · rintro b hb _ hb' rfl
      exact hne (h.unique hb hb')
    · rintro b hb _ hb' rfl
      refine hfresh b hb' ((h.mem b).mpr ?_)
      rcases List.mem_append.mp hb with hb | hb
      · exact ⟨k, hb⟩
      · exact ⟨k', hb⟩
  obtain ⟨hk, hk', hdisjoint⟩ := List.nodup_append.mp hall
  have hmoved {j : K} {b : β} (hj : j = k ∨ j = k') (hb : b ∈ g' j) : b ∈ g' k ∨ b ∈ g' k' := by
    rcases hj with rfl | rfl
    · exact Or.inl hb
    · exact Or.inr hb
  have hother {j : K} {b : β} (hj : j ≠ k) (hj' : j ≠ k') (hb : b ∈ g' j) :
      ¬ (b ∈ g' k ∨ b ∈ g' k') := by
    rw [hsame j hj hj'] at hb
    rw [hmem]
    rintro ((hb' | hb') | hb')
    · exact hj (h.unique hb hb')
    · exact hj' (h.unique hb hb')
    · exact hfresh b hb' ((h.mem b).mpr ⟨j, hb⟩)
  constructor
  · intro j
    by_cases hj : j = k
    · exact hj ▸ hk
    · by_cases hj' : j = k'
      · exact hj' ▸ hk'
      · rw [hsame j hj hj']
        exact h.nodup j
  · intro j j' b hb hb'
    by_cases hin : j = k ∨ j = k'
    · by_cases hin' : j' = k ∨ j' = k'
      · rcases hin with rfl | rfl <;> rcases hin' with rfl | rfl
        · rfl
        · exact absurd rfl (hdisjoint b hb b hb')
        · exact absurd rfl (hdisjoint b hb' b hb)
        · rfl
      · rw [not_or] at hin'
        exact absurd (hmoved hin hb) (hother hin'.1 hin'.2 hb')
    · rw [not_or] at hin
      by_cases hin' : j' = k ∨ j' = k'
      · exact absurd (hmoved hin' hb') (hother hin.1 hin.2 hb)
      · rw [not_or] at hin'
        rw [hsame j hin.1 hin.2] at hb
        rw [hsame j' hin'.1 hin'.2] at hb'
        exact h.unique hb hb'
  · intro b
    rw [List.mem_append, h.mem]
    constructor
    · rintro (⟨j, hb⟩ | hb)
      · by_cases hj : j = k
        · exact ((hmem b).mpr (Or.inl (Or.inl (hj ▸ hb)))).elim (⟨k, ·⟩) (⟨k', ·⟩)
        · by_cases hj' : j = k'
          · exact ((hmem b).mpr (Or.inl (Or.inr (hj' ▸ hb)))).elim (⟨k, ·⟩) (⟨k', ·⟩)
          · exact ⟨j, by rwa [hsame j hj hj']⟩
      · exact ((hmem b).mpr (Or.inr hb)).elim (⟨k, ·⟩) (⟨k', ·⟩)
    · rintro ⟨j, hb⟩
      by_cases hin : j = k ∨ j = k'
      · rcases (hmem b).mp (hmoved hin hb) with (hb | hb) | hb
        · exact Or.inl ⟨k, hb⟩
        · exact Or.inl ⟨k', hb⟩
        · exact Or.inr hb
      · rw [not_or] at hin
        rw [hsame j hin.1 hin.2] at hb
        exact Or.inl ⟨j, hb⟩

/-- Nothing new comes in. -/
theorem rearrange (h : Partition g l) (hne : k ≠ k') (hsame : ∀ j, j ≠ k → j ≠ k' → g' j = g j)
    (hperm : (g' k ++ g' k').Perm (g k ++ g k')) : Partition g' l := by
  have hadd := h.add hne hsame (by rwa [List.append_nil]) (fun _ hb => absurd hb List.not_mem_nil)
    List.nodup_nil
  rwa [List.append_nil] at hadd

theorem congr (h : Partition g l) (hsame : ∀ j, g' j = g j) : Partition g' l := by
  obtain rfl : g' = g := funext hsame
  exact h

end Partition

end Asio.Lib
