import Mathlib.Logic.Function.Basic
import Asio.Lib.Transition

/-! What is obtained and has to be returned as it was obtained. -/

universe u v

namespace Asio.Lib.Lending

open Transition

variable {K : Type u} {V : Type v}

inductive Event (K : Type u) (V : Type v)
  | obtained (k : K) (v : V)
  | returned (k : K) (v : V)
  deriving DecidableEq

variable [DecidableEq K] [DecidableEq V]

/-- What is out is not obtained again, and is returned for what it is. -/
def step (lent : K → Option V) : Event K V → Option (K → Option V)
  | .obtained k v => if lent k = none then some (Function.update lent k (some v)) else none
  | .returned k v => if lent k = some v then some (Function.update lent k none) else none

/-- The history is in order, and leaves out what is lent. -/
def Leaves (history : List (Event K V)) (lent : K → Option V) : Prop :=
  exec step (fun _ => none) history = some lent

variable {history : List (Event K V)} {lent : K → Option V} {k : K} {v : V}

theorem leaves_nil : Leaves ([] : List (Event K V)) fun _ => none := rfl

theorem Leaves.concat {e : Event K V} {lent' : K → Option V} (h : Leaves history lent)
    (hstep : step lent e = some lent') : Leaves (history ++ [e]) lent' := by
  rw [Leaves, exec_append, h, Option.bind_some, exec, hstep]
  rfl

theorem Leaves.obtained (h : Leaves history lent) (hk : lent k = none) :
    Leaves (history ++ [.obtained k v]) (Function.update lent k (some v)) :=
  h.concat (if_pos hk)

theorem Leaves.returned (h : Leaves history lent) (hk : lent k = some v) :
    Leaves (history ++ [.returned k v]) (Function.update lent k none) :=
  h.concat (if_pos hk)

/-- One event keeps the difference between what was obtained and what is out. -/
theorem step_balance {e : Event K V} {lent' : K → Option V} (hstep : step lent e = some lent')
    (k : K) (v : V) :
    [e].count (.obtained k v) + (if lent k = some v then 1 else 0) =
      [e].count (.returned k v) + if lent' k = some v then 1 else 0 := by
  cases e with
  | obtained k' v' =>
    simp only [step] at hstep
    split at hstep
    · rename_i hnone
      cases hstep
      by_cases hk : k' = k
      · subst hk
        simp [List.count_singleton, hnone]
      · simp [hk, Function.update_of_ne (Ne.symm hk)]
    · cases hstep
  | returned k' v' =>
    simp only [step] at hstep
    split at hstep
    · rename_i hsome
      cases hstep
      by_cases hk : k' = k
      · subst hk
        simp [List.count_singleton, hsome]
      · simp [hk, Function.update_of_ne (Ne.symm hk)]
    · cases hstep

/-- Everything that was obtained has been returned as often, but for what is out. -/
theorem Leaves.balance (h : Leaves history lent) (k : K) (v : V) :
    history.count (.obtained k v) =
      history.count (.returned k v) + if lent k = some v then 1 else 0 := by
  suffices hall : ∀ (history : List (Event K V)) (start lent : K → Option V),
      exec step start history = some lent →
      history.count (.obtained k v) + (if start k = some v then 1 else 0) =
        history.count (.returned k v) + if lent k = some v then 1 else 0 by
    simpa using hall history _ _ h
  intro history
  induction history with
  | nil =>
    intro start lent h
    cases h
    rfl
  | cons e history ih =>
    intro start lent h
    obtain ⟨next, hstep, h⟩ := Option.bind_eq_some_iff.mp h
    have hfirst := step_balance hstep k v
    have hrest := ih next lent h
    rw [← List.singleton_append, List.count_append, List.count_append]
    omega

end Asio.Lib.Lending
