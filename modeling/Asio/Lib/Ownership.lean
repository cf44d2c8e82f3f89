import Mathlib.Logic.Basic

/-! Resources that have one owner each while they are open. -/

universe u v

namespace Asio.Lib

variable {Owner : Type u} {Resource : Type v}

/-- What is held is open, and what is open is held by one owner. -/
structure Exclusive (isOpen : Resource → Prop) (holds : Owner → Resource → Prop) : Prop where
  sound : ∀ {o r}, holds o r → isOpen r
  unique : ∀ {o q r}, holds o r → holds q r → o = q
  covered : ∀ {r}, isOpen r → ∃ o, holds o r

namespace Exclusive

variable {isOpen isOpen' : Resource → Prop} {holds holds' : Owner → Resource → Prop}
variable {o q : Owner} {r : Resource}

theorem congr (h : Exclusive isOpen holds) (hopen : ∀ r, isOpen' r ↔ isOpen r)
    (hholds : ∀ o r, holds' o r ↔ holds o r) : Exclusive isOpen' holds' where
  sound hr := (hopen _).mpr (h.sound ((hholds _ _).mp hr))
  unique hr hr' := h.unique ((hholds _ _).mp hr) ((hholds _ _).mp hr')
  covered hr := by
    obtain ⟨o, ho⟩ := h.covered ((hopen _).mp hr)
    exact ⟨o, (hholds _ _).mpr ho⟩

/-- A resource is opened for an owner. -/
theorem acquire (h : Exclusive isOpen holds) (hr : ¬ isOpen r)
    (hopen : ∀ r', isOpen' r' ↔ isOpen r' ∨ r' = r)
    (hholds : ∀ p r', holds' p r' ↔ holds p r' ∨ (p = o ∧ r' = r)) :
    Exclusive isOpen' holds' where
  sound hp := by
    rcases (hholds _ _).mp hp with hp | ⟨-, rfl⟩
    · exact (hopen _).mpr (Or.inl (h.sound hp))
    · exact (hopen _).mpr (Or.inr rfl)
  unique hp hq := by
    rcases (hholds _ _).mp hp with hp | ⟨rfl, rfl⟩
    · rcases (hholds _ _).mp hq with hq | ⟨rfl, rfl⟩
      · exact h.unique hp hq
      · exact absurd (h.sound hp) hr
    · rcases (hholds _ _).mp hq with hq | ⟨rfl, -⟩
      · exact absurd (h.sound hq) hr
      · rfl
  covered hr' := by
    rcases (hopen _).mp hr' with hr' | rfl
    · obtain ⟨p, hp⟩ := h.covered hr'
      exact ⟨p, (hholds _ _).mpr (Or.inl hp)⟩
    · exact ⟨o, (hholds _ _).mpr (Or.inr ⟨rfl, rfl⟩)⟩

/-- An owner closes what it holds. -/
theorem dispose (h : Exclusive isOpen holds) (ho : holds o r)
    (hopen : ∀ r', isOpen' r' ↔ isOpen r' ∧ r' ≠ r)
    (hholds : ∀ p r', holds' p r' ↔ holds p r' ∧ ¬ (p = o ∧ r' = r)) :
    Exclusive isOpen' holds' where
  sound {p r'} hp := by
    obtain ⟨hp, hne⟩ := (hholds _ _).mp hp
    refine (hopen _).mpr ⟨h.sound hp, ?_⟩
    rintro rfl
    exact hne ⟨h.unique hp ho, rfl⟩
  unique hp hq := h.unique ((hholds _ _).mp hp).1 ((hholds _ _).mp hq).1
  covered hr' := by
    obtain ⟨hr', hne⟩ := (hopen _).mp hr'
    obtain ⟨p, hp⟩ := h.covered hr'
    exact ⟨p, (hholds _ _).mpr ⟨hp, fun hpr => hne hpr.2⟩⟩

/-- An owner gives what it holds to another one. -/
theorem transfer (h : Exclusive isOpen holds) (ho : holds o r)
    (hopen : ∀ r', isOpen' r' ↔ isOpen r')
    (hholds : ∀ p r', holds' p r' ↔
      (holds p r' ∧ ¬ (p = o ∧ r' = r)) ∨ (p = q ∧ r' = r)) : Exclusive isOpen' holds' := by
  have hclosed : Exclusive (fun r' => isOpen r' ∧ r' ≠ r)
      fun p r' => holds p r' ∧ ¬ (p = o ∧ r' = r) :=
    h.dispose ho (fun _ => Iff.rfl) fun _ _ => Iff.rfl
  refine hclosed.acquire (fun hr => hr.2 rfl) (fun r' => (hopen r').trans ?_) hholds
  constructor
  · intro hr'
    by_cases heq : r' = r
    · exact Or.inr heq
    · exact Or.inl ⟨hr', heq⟩
  · rintro (⟨hr', -⟩ | rfl)
    · exact hr'
    · exact h.sound ho

/-- The other one has it before it is given up. -/
theorem handOver (h : Exclusive isOpen holds) (ho : holds o r) (hne : q ≠ o)
    (hopen : ∀ r', isOpen' r' ↔ isOpen r')
    (hholds : ∀ p r', holds' p r' ↔
      (holds p r' ∨ (p = q ∧ r' = r)) ∧ ¬ (p = o ∧ r' = r)) : Exclusive isOpen' holds' := by
  refine h.transfer (q := q) ho hopen fun p r' => (hholds p r').trans ?_
  rw [or_and_right]
  refine or_congr_right (and_iff_left_of_imp ?_)
  rintro ⟨rfl, -⟩ ⟨hp, -⟩
  exact hne hp

end Exclusive

end Asio.Lib
