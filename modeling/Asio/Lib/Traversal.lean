import Mathlib.Algebra.GroupWithZero.Nat
import Mathlib.Data.List.Basic

/-! Loops from one iterator to another. -/

universe u

namespace Asio.Lib.Traversal

variable {ι : Type u} [DecidableEq ι]

/-- What a loop visits that starts at an iterator and goes on until it is equal to the last one. -/
def traverse (next : ι → ι) (last : ι) : (fuel : Nat) → ι → Option (List ι)
  | 0, _ => none
  | fuel + 1, i => if i = last then some [] else (traverse next last fuel (next i)).map (i :: ·)

variable {next : ι → ι} {last i : ι} {fuel fuel' : Nat} {visited visited' : List ι}

theorem traverse_mono (h : traverse next last fuel i = some visited) (hle : fuel ≤ fuel') :
    traverse next last fuel' i = some visited := by
  induction fuel generalizing fuel' i visited with
  | zero => cases h
  | succ fuel ih =>
    cases fuel' with
    | zero => cases hle
    | succ fuel' =>
      rw [traverse] at h ⊢
      split
      · rename_i hlast
        rwa [if_pos hlast] at h
      · rename_i hlast
        rw [if_neg hlast] at h
        obtain ⟨rest, hrest, rfl⟩ := Option.map_eq_some_iff.mp h
        rw [ih hrest (Nat.le_of_succ_le_succ hle), Option.map_some]

/-- A loop visits the same whenever it ends. -/
theorem traverse_unique (h : traverse next last fuel i = some visited)
    (h' : traverse next last fuel' i = some visited') : visited = visited' := by
  have hmax := traverse_mono h (Nat.le_max_left fuel fuel')
  have hmax' := traverse_mono h' (Nat.le_max_right fuel fuel')
  exact Option.some.inj (hmax.symm.trans hmax')

section Cyclic

variable {enum : Nat → ι} {bound start count : Nat}

/-- Where the iterators of all the numbers below a bound follow each other, and the first follows
the last, a loop visits those between its ends. -/
theorem traverse_enum (hnext : ∀ n < bound, next (enum n) = enum ((n + 1) % bound))
    (hinj : ∀ m < bound, ∀ n < bound, enum m = enum n → m = n)
    (hstart : start < bound) (hend : start + count ≤ bound) (hcount : count < bound) :
    traverse next (enum ((start + count) % bound)) (count + 1) (enum start) =
      some ((List.range' start count).map enum) := by
  induction count generalizing start with
  | zero => rw [Nat.add_zero, Nat.mod_eq_of_lt hstart, traverse, if_pos rfl]; rfl
  | succ count ih =>
    have hpos : 0 < bound := Nat.zero_lt_of_lt hstart
    have hne : enum start ≠ enum ((start + (count + 1)) % bound) := by
      intro heq
      have hmod := hinj start hstart _ (Nat.mod_lt _ hpos) heq
      rcases Nat.lt_or_eq_of_le hend with hlt | heq
      · rw [Nat.mod_eq_of_lt hlt] at hmod
        omega
      · rw [heq, Nat.mod_self] at hmod
        omega
    rw [traverse, if_neg hne, hnext start hstart, List.range'_succ, List.map_cons]
    cases count with
    | zero =>
      rw [traverse, if_pos rfl]
      rfl
    | succ count =>
      have hlt : start + 1 < bound := by omega
      have hadd : start + (count + 1 + 1) = start + 1 + (count + 1) := by omega
      rw [Nat.mod_eq_of_lt hlt, hadd, ih hlt (by omega) (by omega), Option.map_some]

end Cyclic

end Asio.Lib.Traversal
