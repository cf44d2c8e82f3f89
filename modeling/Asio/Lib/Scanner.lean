import Mathlib.Data.List.Basic

/-! Scanners that read one symbol at a time until they accept or refuse, and what they accept. -/

universe u v

namespace Asio.Lib.Scanner

inductive Result
  | good
  | bad
  | indeterminate
  deriving DecidableEq

section Parse

variable {σ : Type u} {τ : Type v} (step : σ → τ → Option (Result × σ))

/-- What is read after the result is known is left. A step may be undefined. -/
def parse : σ → List τ → Option (Result × σ × List τ)
  | s, [] => some (.indeterminate, s, [])
  | s, c :: cs => (step s c).bind fun (r, t) =>
      if r = .indeterminate then parse t cs else some (r, t, cs)

def Accepts (s : σ) (w : List τ) (t : σ) (rest : List τ) : Prop :=
  parse step s w = some (.good, t, rest)

variable {step} {s t : σ} {w rest : List τ}

theorem parse_cons (c : τ) (cs : List τ) : parse step s (c :: cs) =
    (step s c).bind fun (r, t) =>
      if r = .indeterminate then parse step t cs else some (r, t, cs) := rfl

theorem parse_append (as bs : List τ) : parse step s (as ++ bs) =
    (parse step s as).bind fun (r, t, rest) =>
      if r = .indeterminate then parse step t bs else some (r, t, rest ++ bs) := by
  induction as generalizing s with
  | nil => rfl
  | cons c as ih =>
    rw [List.cons_append, parse_cons, parse_cons]
    cases step s c with
    | none => rfl
    | some result =>
      obtain ⟨r, t⟩ := result
      simp only [Option.bind_some]
      by_cases hr : r = .indeterminate
      · rw [if_pos hr, if_pos hr]
        exact ih
      · rw [if_neg hr, if_neg hr, Option.bind_some, if_neg hr]

/-- While the result is not known everything is read, and what the steps keep holds. -/
theorem parse_indeterminate {I : σ → Prop}
    (hstep : ∀ {s c t}, I s → step s c = some (.indeterminate, t) → I t) (hs : I s)
    (h : parse step s w = some (.indeterminate, t, rest)) : I t ∧ rest = [] := by
  induction w generalizing s with
  | nil =>
    cases h
    exact ⟨hs, rfl⟩
  | cons c w ih =>
    rw [parse_cons] at h
    obtain ⟨⟨r, s'⟩, hc, h⟩ := Option.bind_eq_some_iff.mp h
    dsimp only at h
    split at h
    · rename_i hr
      subst hr
      exact ih (hstep hs hc) h
    · rename_i hr
      cases h
      exact absurd rfl hr

/-- What is accepted is not known before it has been read. -/
theorem Accepts.of_append {as bs : List τ} (h : Accepts step s (as ++ bs) t [])
    (hbs : bs ≠ []) : ∃ s', parse step s as = some (.indeterminate, s', []) := by
  rw [Accepts, parse_append] at h
  obtain ⟨⟨r, s', rest'⟩, has, h⟩ := Option.bind_eq_some_iff.mp h
  dsimp only at h
  split at h
  · rename_i hr
    subst hr
    obtain ⟨-, rfl⟩ := parse_indeterminate (I := fun _ => True) (fun _ _ => trivial) trivial has
    exact ⟨s', has⟩
  · simp only [Option.some.injEq, Prod.mk.injEq, List.append_eq_nil_iff] at h
    exact absurd h.2.2.2 hbs

theorem not_accepts_nil : ¬ Accepts step s [] t rest := by
  simp [Accepts, parse]

theorem accepts_good {c : τ} {cs : List τ} {s' : σ} (h : step s c = some (.good, s')) :
    Accepts step s (c :: cs) t rest ↔ t = s' ∧ rest = cs := by
  rw [Accepts, parse_cons, h]
  simp [eq_comm]

theorem accepts_indeterminate {c : τ} {cs : List τ} {s' : σ}
    (h : step s c = some (.indeterminate, s')) :
    Accepts step s (c :: cs) t rest ↔ Accepts step s' cs t rest := by
  rw [Accepts, parse_cons, h]
  rfl

/-- The step refuses the symbol, or is undefined. -/
def Refuses (step : σ → τ → Option (Result × σ)) (s : σ) (c : τ) : Prop :=
  ∀ result ∈ step s c, result.1 = .bad

theorem Refuses.not_accepts {c : τ} {cs : List τ} (h : Refuses step s c) :
    ¬ Accepts step s (c :: cs) t rest := by
  rw [Accepts, parse_cons]
  cases hstep : step s c with
  | none => simp
  | some result =>
    have hbad := h result hstep
    simp [hbad]

/-- A state in which one symbol is expected. -/
theorem accepts_expect {c : τ} {next : σ} (hnext : step s c = some (.indeterminate, next))
    (hrefuses : ∀ d, d ≠ c → Refuses step s d) :
    Accepts step s w t rest ↔ ∃ w', w = c :: w' ∧ Accepts step next w' t rest := by
  cases w with
  | nil => simp [not_accepts_nil]
  | cons d w =>
    by_cases hd : d = c
    · subst hd
      rw [accepts_indeterminate hnext]
      simp
    · simp [(hrefuses d hd).not_accepts, hd]

/-- A state that is not left while what has been read is of some kind, until one symbol. -/
theorem accepts_while (Ok : List τ → Prop) (loop next : List τ → σ) {stop : τ}
    (hloop : ∀ us c, c ≠ stop → Ok (us ++ [c]) →
      step (loop us) c = some (.indeterminate, loop (us ++ [c])))
    (hstop : ∀ us, step (loop us) stop = some (.indeterminate, next us))
    (hrefuses : ∀ us c, c ≠ stop → Ok us → ¬ Ok (us ++ [c]) → Refuses step (loop us) c)
    (hok : ∀ us vs, Ok (us ++ vs) → Ok us ∧ stop ∉ vs) {us : List τ} (hus : Ok us) :
    Accepts step (loop us) w t rest ↔ ∃ vs w', w = vs ++ stop :: w' ∧ Ok (us ++ vs) ∧
      Accepts step (next (us ++ vs)) w' t rest := by
  induction w generalizing us with
  | nil => simp [not_accepts_nil]
  | cons c w ih =>
    by_cases hc : c = stop
    · subst hc
      rw [accepts_indeterminate (hstop us)]
      constructor
      · exact fun h => ⟨[], w, rfl, by simpa using hus, by simpa using h⟩
      · rintro ⟨vs, w', hw, hvs, h⟩
        cases vs with
        | nil =>
          obtain ⟨-, rfl⟩ := List.cons.inj hw
          simpa using h
        | cons v vs =>
          obtain ⟨rfl, -⟩ := List.cons.inj hw
          exact absurd List.mem_cons_self (hok us _ hvs).2
    · have hsplit : ∀ vs w', c :: w = vs ++ stop :: w' → ∃ vs', vs = c :: vs' ∧
          w = vs' ++ stop :: w' := by
        intro vs w' hw
        cases vs with
        | nil => exact absurd (List.cons.inj hw).1 hc
        | cons v vs =>
          obtain ⟨rfl, htail⟩ := List.cons.inj hw
          exact ⟨vs, rfl, htail⟩
      by_cases huc : Ok (us ++ [c])
      · rw [accepts_indeterminate (hloop us c hc huc), ih huc]
        constructor
        · rintro ⟨vs, w', rfl, hvs, h⟩
          exact ⟨c :: vs, w', rfl, by simpa using hvs, by simpa using h⟩
        · rintro ⟨vs, w', hw, hvs, h⟩
          obtain ⟨vs, rfl, rfl⟩ := hsplit vs w' hw
          exact ⟨vs, w', rfl, by simpa using hvs, by simpa using h⟩
      · refine iff_of_false (hrefuses us c hc hus huc).not_accepts ?_
        rintro ⟨vs, w', hw, hvs, -⟩
        obtain ⟨vs, rfl, rfl⟩ := hsplit vs w' hw
        exact huc (hok (us ++ [c]) vs (by simpa using hvs)).1

/-- The same for symbols of some kind, which the last symbol is not of. -/
theorem accepts_while_forall (P : τ → Prop) (loop next : List τ → σ) {stop : τ}
    (hloop : ∀ us c, c ≠ stop → P c →
      step (loop us) c = some (.indeterminate, loop (us ++ [c])))
    (hstop : ∀ us, step (loop us) stop = some (.indeterminate, next us))
    (hrefuses : ∀ us c, c ≠ stop → ¬ P c → Refuses step (loop us) c) (hP : ¬ P stop)
    {us : List τ} (hus : ∀ c ∈ us, P c) :
    Accepts step (loop us) w t rest ↔ ∃ vs w', w = vs ++ stop :: w' ∧ (∀ c ∈ us ++ vs, P c) ∧
      Accepts step (next (us ++ vs)) w' t rest := by
  refine accepts_while (fun us => ∀ c ∈ us, P c) loop next ?_ hstop ?_ ?_ hus
  · intro us c hc h
    exact hloop us c hc (h c (List.mem_append_right _ (List.mem_singleton_self c)))
  · intro us c hc hus h
    refine hrefuses us c hc fun hPc => h fun d hd => ?_
    obtain hd | hd := List.mem_append.mp hd
    · exact hus d hd
    · rwa [List.mem_singleton.mp hd]
  · intro us vs h
    exact ⟨fun c hc => h c (List.mem_append_left _ hc),
      fun hmem => hP (h stop (List.mem_append_right _ hmem))⟩

end Parse

end Asio.Lib.Scanner
