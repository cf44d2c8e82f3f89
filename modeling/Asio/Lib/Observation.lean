import Asio.Lib.Simulation

/-! States that no sequence of later actions tells apart. -/

universe u v w

namespace Asio.Lib.Simulation

variable {State : Type u} {Action : Type v} {Result : Type w}

section Observation

variable {step : State → Action → Option (State × Result)} {s s' : State} {a : Action}

/-- Whatever is done later, the answers are the same, and it fails in both states or in none. -/
def ObservablyEqual (step : State → Action → Option (State × Result)) (s s' : State) : Prop :=
  ∀ as, (perform step s as).map Prod.snd = (perform step s' as).map Prod.snd

theorem ObservablyEqual.of_eq (h : s = s') : ObservablyEqual step s s' := by
  intro as
  rw [h]

/-- The answer to a single action is the same. -/
theorem ObservablyEqual.answer (h : ObservablyEqual step s s') (a : Action) :
    (step s a).map Prod.snd = (step s' a).map Prod.snd := by
  have hlast := congrArg (Option.map fun l => l.map Prod.snd) (h [a])
  have hsingle (s : State) : (perform step s [a]).map Prod.snd =
      (step s a).map fun p => [(a, p.2)] := by
    simp only [perform]
    cases step s a with
    | none => rfl
    | some p => rfl
  rw [hsingle, hsingle] at hlast
  cases hs : step s a <;> cases hs' : step s' a <;> simp_all

/-- The states reached by the same action are not told apart either. -/
theorem ObservablyEqual.after {t t' : State} {r r' : Result} (h : ObservablyEqual step s s')
    (hs : step s a = some (t, r)) (hs' : step s' a = some (t', r')) :
    ObservablyEqual step t t' := by
  intro as
  have hrest := h (a :: as)
  simp only [perform, hs, hs', Option.bind_some, Option.map_map] at hrest
  cases ht : perform step t as <;> cases ht' : perform step t' as <;> simp_all

end Observation

end Asio.Lib.Simulation
