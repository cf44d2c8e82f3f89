import Mathlib.Data.List.Infix
import Mathlib.Data.Nat.Find

/-! Where a pattern occurs in a text of which only the beginning is known. -/

universe u

namespace Asio.Lib.Occurrence

variable {α : Type u}

def OccursAt (pattern text : List α) (i : Nat) : Prop := pattern <+: text.drop i

/-- However the text goes on, the pattern does not occur at this position. -/
def RuledOut (pattern text : List α) (i : Nat) : Prop :=
  ∀ more, ¬OccursAt pattern (text ++ more) i

/-- The first occurrence of the pattern ends here. -/
def EndsFirst (pattern text : List α) (n : Nat) : Prop :=
  pattern <:+ text.take n ∧ ∀ m < n, ¬pattern <:+ text.take m

section Positions

variable {pattern text more : List α} {i m n : Nat}

theorem OccursAt.length_le (h : OccursAt pattern text i) :
    pattern.length ≤ text.length - i := by
  simpa using List.IsPrefix.length_le h

theorem RuledOut.append (h : RuledOut pattern text i) (more : List α) :
    RuledOut pattern (text ++ more) i := by
  intro rest
  rw [List.append_assoc]
  exact h (more ++ rest)

theorem occursAt_drop {k : Nat} : OccursAt pattern (text.drop k) i ↔ OccursAt pattern text (k + i) := by
  rw [OccursAt, OccursAt, List.drop_drop]

theorem RuledOut.of_drop {k : Nat} (hk : k ≤ text.length) (h : RuledOut pattern (text.drop k) i) :
    RuledOut pattern text (k + i) := by
  intro more
  rw [← occursAt_drop, List.drop_append_of_le_length hk]
  exact h more

theorem EndsFirst.unique (h : EndsFirst pattern text n) (h' : EndsFirst pattern text m) : n = m := by
  rcases Nat.lt_trichotomy n m with hlt | heq | hlt
  · exact absurd h.1 (h'.2 n hlt)
  · exact heq
  · exact absurd h'.1 (h.2 m hlt)

end Positions

end Asio.Lib.Occurrence
