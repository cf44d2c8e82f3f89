import Mathlib.Data.List.Basic

/-! Systems that answer every action, their runs, and forward simulation between them. -/

universe u v w x

namespace Asio.Lib.Simulation

variable {State : Type u} {Action : Type v} {Result : Type w}

/-- The runs of a system, with what was done and answered in order. -/
inductive Run (Step : State → Action → Result → State → Prop) :
    State → List (Action × Result) → State → Prop
  | nil : Run Step s [] s
  | cons : Step s a r t → Run Step t l u → Run Step s ((a, r) :: l) u

section Runs

variable {Step : State → Action → Result → State → Prop}
variable {s t : State} {l : List (Action × Result)}

theorem Run.mono {Step' : State → Action → Result → State → Prop} (h : Run Step s l t)
    (sub : ∀ s a r t, Step s a r t → Step' s a r t) : Run Step' s l t := by
  induction h with
  | nil => exact .nil
  | cons hstep _ ih => exact .cons (sub _ _ _ _ hstep) ih

end Runs

/-- A relation that every step of the first system keeps, with a step of the second that has the
same action and the same answer, carries every run over. -/
theorem Run.simulate {Abstract : Type x} {Step : State → Action → Result → State → Prop}
    {AbstractStep : Abstract → Action → Result → Abstract → Prop} {R : State → Abstract → Prop}
    {s t : State} {q : Abstract} {l : List (Action × Result)} (h : Run Step s l t) (init : R s q)
    (simulates : ∀ {s a r t q}, R s q → Step s a r t → ∃ q', AbstractStep q a r q' ∧ R t q') :
    ∃ q', Run AbstractStep q l q' ∧ R t q' := by
  induction h generalizing q with
  | nil => exact ⟨q, .nil, init⟩
  | cons hstep _ ih =>
    obtain ⟨q₁, hq₁, hr₁⟩ := simulates init hstep
    obtain ⟨q₂, hq₂, hr₂⟩ := ih hr₁
    exact ⟨q₂, .cons hq₁ hq₂, hr₂⟩

/-- Perform the actions in order and note the answers. -/
def perform (step : State → Action → Option (State × Result)) :
    State → List Action → Option (State × List (Action × Result))
  | s, [] => some (s, [])
  | s, a :: as => (step s a).bind fun (t, r) =>
      (perform step t as).map fun (u, l) => (u, (a, r) :: l)

theorem run_of_perform {step : State → Action → Option (State × Result)} {s u : State}
    {as : List Action} {l : List (Action × Result)} (h : perform step s as = some (u, l)) :
    Run (fun s a r t => step s a = some (t, r)) s l u := by
  induction as generalizing s l with
  | nil =>
    cases h
    exact .nil
  | cons a as ih =>
    simp only [perform, Option.bind_eq_some_iff, Option.map_eq_some_iff] at h
    obtain ⟨⟨t, r⟩, hstep, ⟨u', l'⟩, hrest, heq⟩ := h
    cases heq
    exact .cons hstep (ih hrest)

theorem run_of_guarded {step : State → Action → Option (State × Result)}
    {ok : State → Action → Prop} [∀ s a, Decidable (ok s a)] {s u : State} {as : List Action}
    {l : List (Action × Result)}
    (h : perform (fun s a => if ok s a then step s a else none) s as = some (u, l)) :
    Run (fun s a r t => ok s a ∧ step s a = some (t, r)) s l u := by
  refine (run_of_perform h).mono fun s a r t hstep => ?_
  split at hstep
  · rename_i hok
    exact ⟨hok, hstep⟩
  · cases hstep

end Asio.Lib.Simulation
