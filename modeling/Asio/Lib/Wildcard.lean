import Mathlib.Data.List.DropRight

/-! Patterns in which a wildcard stands for any run of certain characters. -/

universe u

namespace Asio.Lib.Wildcard

variable {α : Type u}

/-- The wildcard `wild` stands for a run of characters in `Runs`, and every other character for one
that is the `Same`. -/
inductive Matches (wild : α) (Runs : α → Prop) (Same : α → α → Prop) : List α → List α → Prop
  | nil : Matches wild Runs Same [] []
  | wild {p rest : List α} (run : List α) (hrun : ∀ d ∈ run, Runs d)
    (h : Matches wild Runs Same p rest) : Matches wild Runs Same (wild :: p) (run ++ rest)
  | char {c d : α} {p rest : List α} (hc : c ≠ wild) (hsame : Same c d)
    (h : Matches wild Runs Same p rest) : Matches wild Runs Same (c :: p) (d :: rest)

variable {wild c : α} {Runs : α → Prop} {Same : α → α → Prop} {p q s : List α}

theorem matches_nil : Matches wild Runs Same [] s ↔ s = [] := by
  constructor
  · intro h
    cases h
    rfl
  · rintro rfl
    exact .nil

theorem matches_wild : Matches wild Runs Same (wild :: p) s ↔
    ∃ run rest, s = run ++ rest ∧ (∀ d ∈ run, Runs d) ∧ Matches wild Runs Same p rest := by
  constructor
  · intro h
    cases h with
    | wild run hrun h => exact ⟨run, _, rfl, hrun, h⟩
    | char hc => exact absurd rfl hc
  · rintro ⟨run, rest, rfl, hrun, h⟩
    exact .wild run hrun h

theorem matches_char (hc : c ≠ wild) : Matches wild Runs Same (c :: p) s ↔
    ∃ d rest, s = d :: rest ∧ Same c d ∧ Matches wild Runs Same p rest := by
  constructor
  · intro h
    cases h with
    | wild => exact absurd rfl hc
    | char _ hsame h => exact ⟨_, _, rfl, hsame, h⟩
  · rintro ⟨d, rest, rfl, hsame, h⟩
    exact .char hc hsame h

/-- A pattern in two parts matches what is in two parts. -/
theorem matches_append : Matches wild Runs Same (p ++ q) s ↔
    ∃ t u, s = t ++ u ∧ Matches wild Runs Same p t ∧ Matches wild Runs Same q u := by
  induction p generalizing s with
  | nil => simp [matches_nil]
  | cons c p ih =>
    by_cases hc : c = wild
    · subst hc
      simp only [List.cons_append, matches_wild, ih]
      constructor
      · rintro ⟨run, _, rfl, hrun, t, u, rfl, ht, hu⟩
        exact ⟨run ++ t, u, by simp, ⟨run, t, rfl, hrun, ht⟩, hu⟩
      · rintro ⟨_, u, rfl, ⟨run, t, rfl, hrun, ht⟩, hu⟩
        exact ⟨run, t ++ u, by simp, hrun, t, u, rfl, ht, hu⟩
    · simp only [List.cons_append, matches_char hc, ih]
      constructor
      · rintro ⟨d, _, rfl, hsame, t, u, rfl, ht, hu⟩
        exact ⟨d :: t, u, rfl, ⟨d, t, rfl, hsame, ht⟩, hu⟩
      · rintro ⟨_, u, rfl, ⟨d, t, rfl, hsame, ht⟩, hu⟩
        exact ⟨d, t ++ u, rfl, hsame, t, u, rfl, ht, hu⟩

/-- Some wildcards together are one. -/
theorem matches_replicate (n : Nat) : Matches wild Runs Same (List.replicate (n + 1) wild) s ↔
    ∀ d ∈ s, Runs d := by
  induction n generalizing s with
  | zero =>
    rw [Nat.zero_add, List.replicate_one, matches_wild]
    simp only [matches_nil]
    constructor
    · rintro ⟨run, _, rfl, hrun, rfl⟩
      simpa using hrun
    · exact fun h => ⟨s, [], by simp, h, rfl⟩
  | succ n ih =>
    rw [List.replicate_succ, matches_wild]
    constructor
    · rintro ⟨run, rest, rfl, hrun, h⟩ d hd
      rcases List.mem_append.mp hd with hd | hd
      · exact hrun d hd
      · exact ih.mp h d hd
    · exact fun h => ⟨[], s, rfl, by simp, ih.mpr h⟩

theorem Matches.eq_nil (h : Matches wild Runs Same p []) : ∀ c ∈ p, c = wild := by
  induction p with
  | nil => simp
  | cons c p ih =>
    by_cases hc : c = wild
    · subst hc
      obtain ⟨run, rest, hnil, -, h⟩ := matches_wild.mp h
      obtain ⟨rfl, rfl⟩ := List.append_eq_nil_iff.mp hnil.symm
      exact List.forall_mem_cons.mpr ⟨rfl, ih h⟩
    · obtain ⟨d, rest, hnil, -⟩ := (matches_char hc).mp h
      cases hnil

/-- Every character but the wildcard is somewhere in what is matched. -/
theorem Matches.exists_same (h : Matches wild Runs Same p s) (hc : c ∈ p) (hne : c ≠ wild) :
    ∃ d ∈ s, Same c d := by
  induction h with
  | nil => cases hc
  | wild run _ _ ih =>
    obtain ⟨d, hd, hsame⟩ := ih ((List.mem_cons.mp hc).resolve_left hne)
    exact ⟨d, List.mem_append_right _ hd, hsame⟩
  | char _ hsame _ ih =>
    rcases List.mem_cons.mp hc with rfl | hc
    · exact ⟨_, List.mem_cons_self .., hsame⟩
    · obtain ⟨d, hd, hsame⟩ := ih hc
      exact ⟨d, List.mem_cons_of_mem _ hd, hsame⟩

end Asio.Lib.Wildcard
