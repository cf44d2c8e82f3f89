import Mathlib.Data.List.Perm.Basic
import Mathlib.Data.List.Perm.Lattice
import Mathlib.Data.List.Dedup

/-! What a family of lists holds in all, and how that changes with its members. -/

universe u v

namespace Asio.Lib.Holdings

variable {K : Type u} {β : Type v}

/-- Every member that holds something is in the list, and none is twice. -/
structure Covers (g : K → List β) (l : List K) : Prop where
  nodup : l.Nodup
  mem : ∀ k, g k ≠ [] → k ∈ l

def total (g : K → List β) (l : List K) : List β := l.flatMap g

section Totals

variable {g g' : K → List β} {l l' : List K}

theorem total_filter (g : K → List β) (l : List K) :
    total g (l.filter fun k => !(g k).isEmpty) = total g l := by
  induction l with
  | nil => rfl
  | cons k l ih =>
    simp only [total] at ih ⊢
    by_cases hk : (g k).isEmpty = true
    · rw [List.filter_cons_of_neg (by simp [hk]), ih, List.flatMap_cons, List.isEmpty_iff.mp hk,
        List.nil_append]
    · rw [List.filter_cons_of_pos (by simp [hk]), List.flatMap_cons, List.flatMap_cons, ih]

theorem total_perm (h : Covers g l) (h' : Covers g l') : (total g l).Perm (total g l') := by
  rw [← total_filter g l, ← total_filter g l']
  refine List.Perm.flatMap_right g ((List.perm_ext_iff_of_nodup (h.nodup.filter _)
    (h'.nodup.filter _)).mpr fun k => ?_)
  simp only [List.mem_filter, Bool.not_eq_true', List.isEmpty_eq_false_iff]
  exact ⟨fun hk => ⟨h'.mem k hk.2, hk.2⟩, fun hk => ⟨h.mem k hk.2, hk.2⟩⟩

/-- Every member gives some of what it holds. -/
theorem total_split {r : K → List β} (h : ∀ k ∈ l, (g k).Perm (r k ++ g' k)) :
    (total g l).Perm (l.flatMap r ++ total g' l) := by
  induction l with
  | nil => exact List.Perm.refl _
  | cons k l ih =>
    have hrest := ih fun k hk => h k (List.mem_cons_of_mem _ hk)
    simp only [total, List.flatMap_cons] at hrest ⊢
    calc
      List.Perm _ ((r k ++ g' k) ++ (l.flatMap r ++ l.flatMap g')) :=
        (h k (List.mem_cons_self ..)).append hrest
      List.Perm _ (r k ++ (l.flatMap r ++ (g' k ++ l.flatMap g'))) := by
        rw [List.append_assoc]
        refine List.Perm.append_left _ ?_
        rw [← List.append_assoc, ← List.append_assoc]
        exact List.perm_append_comm.append_right _
      List.Perm _ _ := by rw [List.append_assoc]

variable [DecidableEq K]

/-- One member takes `added` in and gives `removed` out. -/
theorem total_change (h : Covers g l) (h' : Covers g' l') (k : K) {added removed : List β}
    (hsame : ∀ b, b ≠ k → g' b = g b) (hperm : (g k ++ added).Perm (removed ++ g' k)) :
    (total g l ++ added).Perm (removed ++ total g' l') := by
  have hnodup : (k :: (l ++ l').dedup.erase k).Nodup :=
    List.nodup_cons.mpr ⟨(List.nodup_dedup _).not_mem_erase, (List.nodup_dedup _).erase k⟩
  have hmem : ∀ b, b ∈ l ∨ b ∈ l' → b ∈ k :: (l ++ l').dedup.erase k := by
    intro b hb
    rw [List.mem_cons, (List.nodup_dedup _).mem_erase_iff, List.mem_dedup, List.mem_append]
    by_cases hbk : b = k
    · exact .inl hbk
    · exact .inr ⟨hbk, hb⟩
  have hrest : total g' ((l ++ l').dedup.erase k) = total g ((l ++ l').dedup.erase k) := by
    refine List.flatMap_congr fun b hb => hsame b ?_
    exact ((List.nodup_dedup _).mem_erase_iff.mp hb).1
  have hg := total_perm h ⟨hnodup, fun b hb => hmem b (.inl (h.mem b hb))⟩
  have hg' := total_perm h' ⟨hnodup, fun b hb => hmem b (.inr (h'.mem b hb))⟩
  simp only [total, List.flatMap_cons] at hg hg' hrest ⊢
  rw [hrest] at hg'
  calc
    List.Perm _ (g k ++ _ ++ added) := hg.append_right added
    List.Perm _ (g k ++ added ++ _) := by
      rw [List.append_assoc, List.append_assoc]
      exact List.perm_append_comm.append_left _
    List.Perm _ (removed ++ g' k ++ _) := hperm.append_right _
    List.Perm _ _ := by
      rw [List.append_assoc]
      exact hg'.symm.append_left removed

end Totals

end Asio.Lib.Holdings
