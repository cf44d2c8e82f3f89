import Mathlib.Algebra.GroupWithZero.Nat
import Mathlib.Logic.Basic
import Mathlib.Data.Option.Basic

/-! Partial labelled transitions, the states they reach and the invariants of their runs. -/

universe u v

namespace Asio.Lib.Transition

/-- Two components that take steps in turn are numbered by `Fin 2`. -/
instance neZero_two : NeZero 2 := ⟨by decide⟩

variable {State : Type u} {Action : Type v}

/-- The states reached from `start` by steps that satisfy `ok`. -/
inductive Reachable (step : State → Action → Option State) (ok : State → Action → Prop)
    (start : State) : State → Prop
  | start : Reachable step ok start start
  | step {s s' a} : Reachable step ok start s → ok s a → step s a = some s' →
      Reachable step ok start s'

section Invariants

variable {step : State → Action → Option State} {ok ok' : State → Action → Prop}
variable {start s s' : State} {I J : State → Prop}

theorem Reachable.invariant (h : Reachable step ok start s) (init : I start)
    (preserved : ∀ {s a s'}, I s → ok s a → step s a = some s' → I s') : I s := by
  induction h with
  | start => exact init
  | step _ hok hstep ih => exact preserved ih hok hstep

/-- An invariant may use another one that is already known of the states passed through. -/
theorem Reachable.invariant_with (h : Reachable step ok start s)
    (known : ∀ {s}, Reachable step ok start s → J s) (init : I start)
    (preserved : ∀ {s a s'}, J s → I s → ok s a → step s a = some s' → I s') : I s := by
  induction h with
  | start => exact init
  | step hr hok hstep ih => exact preserved (known hr) ih hok hstep

theorem Reachable.mono (sub : ∀ s a, ok s a → ok' s a) (h : Reachable step ok start s) :
    Reachable step ok' start s := by
  induction h with
  | start => exact .start
  | step _ hok hstep ih => exact .step ih (sub _ _ hok) hstep

theorem Reachable.trans (h : Reachable step ok start s) (h' : Reachable step ok s s') :
    Reachable step ok start s' := by
  induction h' with
  | start => exact h
  | step _ hok hstep ih => exact .step ih hok hstep

end Invariants

/-- Perform the actions of a list in order. -/
def exec (step : State → Action → Option State) : State → List Action → Option State
  | s, [] => some s
  | s, a :: as => (step s a).bind fun s' => exec step s' as

/-- `P` holds of every step of the run of `as` from `s`. -/
def Along (step : State → Action → Option State) (P : State → Action → State → Prop) :
    State → List Action → Prop
  | _, [] => True
  | s, a :: as => ∀ s', step s a = some s' → P s a s' ∧ Along step P s' as

/-- The system that also refuses every step that is not `ok`. -/
def guarded (step : State → Action → Option State) (ok : State → Action → Prop)
    [∀ s a, Decidable (ok s a)] (s : State) (a : Action) : Option State :=
  if ok s a then step s a else none

section Runs

variable {step : State → Action → Option State} {ok : State → Action → Prop}
variable {P Q : State → Action → State → Prop}

theorem exec_append (s : State) (as bs : List Action) :
    exec step s (as ++ bs) = (exec step s as).bind fun s' => exec step s' bs := by
  induction as generalizing s with
  | nil => rfl
  | cons a as ih =>
    simp only [List.cons_append, exec]
    cases step s a with
    | none => rfl
    | some s' => exact ih s'

theorem exec_guarded_reachable [∀ s a, Decidable (ok s a)] {s s' : State} {as : List Action}
    (h : exec (guarded step ok) s as = some s') : Reachable step ok s s' := by
  induction as generalizing s with
  | nil => cases h; exact .start
  | cons a as ih =>
    simp only [exec, guarded] at h
    split at h
    · rename_i hok
      cases hstep : step s a with
      | none => simp [hstep] at h
      | some t =>
        rw [hstep, Option.bind_some] at h
        exact (Reachable.start.step hok hstep).trans (ih h)
    · simp at h

theorem exec_invariant {I : State → Prop} {s s' : State} {as : List Action}
    (h : exec step s as = some s') (init : I s)
    (preserved : ∀ {s a s'}, a ∈ as → I s → step s a = some s' → I s') : I s' := by
  induction as generalizing s with
  | nil => cases h; exact init
  | cons a as ih =>
    cases hstep : step s a with
    | none => simp [exec, hstep] at h
    | some t =>
      rw [exec, hstep, Option.bind_some] at h
      refine ih h (preserved (List.mem_cons_self ..) init hstep) ?_
      intro s a s' ha
      exact preserved (List.mem_cons_of_mem _ ha)

theorem guarded_eq_some [∀ s a, Decidable (ok s a)] {s s' : State} {a : Action}
    (h : guarded step ok s a = some s') : ok s a ∧ step s a = some s' := by
  unfold guarded at h
  split at h
  · rename_i hok
    exact ⟨hok, h⟩
  · cases h

/-- What holds after every step holds of the state that a run comes to. -/
theorem Along.last {I : State → Prop} {s s' : State} {as : List Action}
    (h : Along step (fun _ _ s' => I s') s as) (hne : as ≠ []) (hexec : exec step s as = some s') :
    I s' := by
  induction as generalizing s with
  | nil => exact absurd rfl hne
  | cons a as ih =>
    obtain ⟨t, hstep, hexec⟩ := Option.bind_eq_some_iff.mp hexec
    obtain ⟨ht, hrest⟩ := h t hstep
    cases as with
    | nil =>
      cases hexec
      exact ht
    | cons b as => exact ih hrest (List.cons_ne_nil _ _) hexec

/-- What follows from something for each of the steps that keep an invariant. -/
theorem Along.imp {I : State → Prop} {s : State} {as : List Action} (h : Along step P s as)
    (init : I s) (imp : ∀ {s a s'}, I s → step s a = some s' → P s a s' → Q s a s')
    (preserved : ∀ {s a s'}, I s → step s a = some s' → P s a s' → I s') : Along step Q s as := by
  induction as generalizing s with
  | nil => trivial
  | cons a as ih =>
    intro s' hstep
    obtain ⟨hp, hrest⟩ := h s' hstep
    exact ⟨imp init hstep hp, ih hrest (preserved init hstep hp)⟩

/-- What holds of the steps that keep an invariant, if it is equivalent for each of them. -/
theorem along_iff {I : State → Prop} {s : State} {as : List Action} (init : I s)
    (equiv : ∀ {s a s'}, I s → step s a = some s' → (P s a s' ↔ Q s a s'))
    (preserved : ∀ {s a s'}, I s → step s a = some s' → Q s a s' → I s') :
    Along step P s as ↔ Along step Q s as := by
  constructor
  · intro h
    exact h.imp init (fun hi hstep hp => (equiv hi hstep).mp hp)
      fun hi hstep hp => preserved hi hstep ((equiv hi hstep).mp hp)
  · intro h
    exact h.imp init (fun hi hstep hq => (equiv hi hstep).mpr hq) preserved

/-- What an action of the run establishes and every step keeps. -/
theorem exec_of_mem {I : State → Prop} {s s' : State} {as : List Action} {a : Action}
    (h : exec step s as = some s') (hmem : a ∈ as)
    (established : ∀ {s s'}, step s a = some s' → I s')
    (preserved : ∀ {s b s'}, I s → step s b = some s' → I s') : I s' := by
  obtain ⟨before, after, rfl⟩ := List.append_of_mem hmem
  rw [exec_append] at h
  obtain ⟨t, -, h⟩ := Option.bind_eq_some_iff.mp h
  obtain ⟨t', hstep, h⟩ := Option.bind_eq_some_iff.mp h
  exact exec_invariant h (established hstep) fun _ => preserved

/-- Runs of actions that bring a bound down are no longer than the bound. -/
theorem exec_length_le {p : Action → Prop} {I : State → Prop} {B : State → Nat → Prop}
    (preserved : ∀ {s a s'}, I s → p a → step s a = some s' → I s')
    (falls : ∀ {s a s' n}, I s → p a → step s a = some s' → B s n → ∃ m, m < n ∧ B s' m)
    {s s' : State} {as : List Action} {n : Nat} (init : I s) (hn : B s n) (hall : ∀ a ∈ as, p a)
    (h : exec step s as = some s') : as.length ≤ n := by
  induction as generalizing s n with
  | nil => exact Nat.zero_le n
  | cons a as ih =>
    obtain ⟨t, hstep, h⟩ := Option.bind_eq_some_iff.mp h
    obtain ⟨ha, hall⟩ := List.forall_mem_cons.mp hall
    obtain ⟨m, hm, ht⟩ := falls init ha hstep hn
    calc
      (a :: as).length = as.length + 1 := List.length_cons
      _ ≤ m + 1 := Nat.succ_le_succ (ih (preserved init ha hstep) ht hall h)
      _ ≤ n := hm

end Runs

end Asio.Lib.Transition
