import Mathlib.Data.List.Basic

/-! Texts divided by a separator, at the first occurrence of one and of two in a row. -/

universe u

namespace Asio.Lib.Separated

set_option linter.unusedSectionVars false

variable {α : Type u} [DecidableEq α] (sep : α)

/-- What is before the first separator, and what is after it. -/
def cut : List α → List α × Option (List α)
  | [] => ([], none)
  | c :: text => if c = sep then ([], some text) else (c :: (cut text).1, (cut text).2)

/-- What is before the first two separators in a row, and what is after them. -/
def cutDouble : List α → List α × Option (List α)
  | [] => ([], none)
  | c :: text =>
    if c = sep ∧ text.head? = some sep then ([], some text.tail)
    else (c :: (cutDouble text).1, (cutDouble text).2)

variable {sep : α} {text rest : List α} {groups : List (List α)} {c : α}

@[simp] theorem cut_nil : cut sep [] = ([], none) := rfl

theorem cut_cons_self : cut sep (sep :: text) = ([], some text) := if_pos rfl

theorem cut_cons_of_ne (h : c ≠ sep) :
    cut sep (c :: text) = (c :: (cut sep text).1, (cut sep text).2) :=
  if_neg h

theorem cut_of_not_mem (h : sep ∉ text) : cut sep text = (text, none) := by
  induction text with
  | nil => rfl
  | cons c text ih =>
    rw [List.mem_cons, not_or] at h
    rw [cut_cons_of_ne (Ne.symm h.1), ih h.2]

theorem cut_append (h : sep ∉ text) : cut sep (text ++ sep :: rest) = (text, some rest) := by
  induction text with
  | nil => exact cut_cons_self
  | cons c text ih =>
    rw [List.mem_cons, not_or] at h
    rw [List.cons_append, cut_cons_of_ne (Ne.symm h.1), ih h.2]

theorem head?_of_cut (h : (cut sep text).1.head? = some c) : text.head? = some c := by
  cases text with
  | nil => exact h
  | cons d text =>
    by_cases hd : d = sep
    · subst hd
      rw [cut_cons_self] at h
      cases h
    · rwa [cut_cons_of_ne hd] at h

/-- The text is what is before the separator, the separator and what is after it. -/
theorem append_cut (sep : α) (text : List α) :
    (cut sep text).1 ++ (cut sep text).2.elim [] (sep :: ·) = text := by
  induction text with
  | nil => rfl
  | cons c text ih =>
    by_cases hc : c = sep
    · subst hc
      rw [cut_cons_self]
      rfl
    · rw [cut_cons_of_ne hc, List.cons_append, ih]

@[simp] theorem cutDouble_nil : cutDouble sep [] = ([], none) := rfl

theorem cutDouble_double : cutDouble sep (sep :: sep :: text) = ([], some text) :=
  if_pos ⟨rfl, rfl⟩

theorem cutDouble_cons (h : ¬(c = sep ∧ text.head? = some sep)) :
    cutDouble sep (c :: text) = (c :: (cutDouble sep text).1, (cutDouble sep text).2) :=
  if_neg h

theorem append_cutDouble (sep : α) (text : List α) :
    (cutDouble sep text).1 ++ (cutDouble sep text).2.elim [] (sep :: sep :: ·) = text := by
  induction text with
  | nil => rfl
  | cons c text ih =>
    by_cases hc : c = sep ∧ text.head? = some sep
    · obtain ⟨rfl, hhead⟩ := hc
      obtain ⟨rest, rfl⟩ := List.head?_eq_some_iff.mp hhead
      rw [cutDouble_double]
      rfl
    · rw [cutDouble_cons hc, List.cons_append, ih]

theorem mem_splitOn (hc : c ∈ text) (hne : c ≠ sep) : ∃ g ∈ text.splitOn sep, c ∈ g := by
  induction text with
  | nil => cases hc
  | cons d text ih =>
    obtain ⟨g, gs, hg⟩ := List.exists_cons_of_ne_nil (List.splitOn_ne_nil sep text)
    rw [List.splitOn_cons_eq_if_modifyHead, hg]
    rcases List.mem_cons.mp hc with rfl | hc
    · rw [if_neg (by simpa using hne)]
      exact ⟨c :: g, List.mem_cons_self, List.mem_cons_self⟩
    · obtain ⟨g', hg', hcg⟩ := ih hc
      rw [hg] at hg'
      split
      · exact ⟨g', List.mem_cons_of_mem _ hg', hcg⟩
      · rcases List.mem_cons.mp hg' with rfl | hg'
        · exact ⟨d :: g', List.mem_cons_self, List.mem_cons_of_mem _ hcg⟩
        · exact ⟨g', List.mem_cons_of_mem _ hg', hcg⟩

theorem cutDouble_append (h : sep ∉ text) : cutDouble sep (text ++ rest)
    = (text ++ (cutDouble sep rest).1, (cutDouble sep rest).2) := by
  induction text with
  | nil => rfl
  | cons c text ih =>
    rw [List.mem_cons, not_or] at h
    rw [List.cons_append, cutDouble_cons fun hc => h.1 hc.1.symm, ih h.2]
    rfl

theorem head?_intercalate_append {g : List α} (hne : g ≠ []) (hsep : sep ∉ g) :
    ([sep].intercalate (g :: groups) ++ rest).head? ≠ some sep := by
  obtain ⟨c, g, rfl⟩ := List.exists_cons_of_ne_nil hne
  have hc : c ≠ sep := by
    rintro rfl
    exact hsep List.mem_cons_self
  cases groups with
  | nil => simpa using hc
  | cons g' groups => simpa using hc

/-- Groups that are not empty have no two separators in a row between them. -/
theorem cutDouble_intercalate (hne : ∀ g ∈ groups, g ≠ []) (hsep : ∀ g ∈ groups, sep ∉ g)
    (rest : List α) : cutDouble sep ([sep].intercalate groups ++ rest)
      = ([sep].intercalate groups ++ (cutDouble sep rest).1, (cutDouble sep rest).2) := by
  induction groups with
  | nil => rfl
  | cons g groups ih =>
    obtain ⟨_, hne⟩ := List.forall_mem_cons.mp hne
    obtain ⟨hg, hsep⟩ := List.forall_mem_cons.mp hsep
    cases groups with
    | nil =>
      rw [List.intercalate_singleton]
      exact cutDouble_append hg
    | cons g' groups =>
      have hhead : ([sep].intercalate (g' :: groups) ++ rest).head? ≠ some sep :=
        head?_intercalate_append (hne g' List.mem_cons_self) (hsep g' List.mem_cons_self)
      rw [List.intercalate_cons_cons, List.append_assoc, List.append_assoc, cutDouble_append hg,
        List.singleton_append, cutDouble_cons fun h => hhead h.2, ih hne hsep]
      simp only [List.append_assoc, List.cons_append, List.nil_append]

end Asio.Lib.Separated
