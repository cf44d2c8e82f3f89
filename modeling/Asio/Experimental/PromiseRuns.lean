import Mathlib.Data.List.Perm.Basic
import Mathlib.Data.List.Range
import Mathlib.Logic.Function.Basic
import Mathlib.Data.Option.Basic
import Asio.Lib.Transition
import Asio.Experimental.Promise

/-! The first of several promises, and all of them, for every order in which they complete. -/

universe u v

namespace Asio.Experimental.Promise

open Asio.Lib.Transition

variable {α : Type u} {ρ : Type v}

namespace Impl

structure Sane (impl : Impl ρ) : Prop where
  completions : impl.completions = impl.result.toList
  done : impl.done = impl.result.isSome
  installed : impl.completion = .installed → impl.result = none
  posted : ∀ r, impl.completion = .posted r → impl.result = some r
  called : ∀ r, impl.completion = .called r → impl.result = some r

theorem initial_sane : (initial : Impl ρ).Sane := by
  constructor <;> simp [initial]

theorem Sane.result_of_not_done {impl : Impl ρ} (h : impl.Sane) (hd : impl.done = false) :
    impl.result = none := by
  rw [h.done] at hd
  exact Option.isNone_iff_eq_none.mp (by simpa using hd)

theorem finish_sane {impl : Impl ρ} (h : impl.Sane) (hr : impl.result = none) (r : ρ) :
    (impl.finish r).Sane := by
  have hc := h.completions
  have hp := h.posted
  have hcl := h.called
  simp only [hr] at hc hp hcl
  constructor
  · simp [finish, hc]
  · rfl
  · simp only [finish]
    cases hw : impl.completion <;> simp_all
  · simp only [finish]
    cases hw : impl.completion <;> simp_all
  · simp only [finish]
    cases hw : impl.completion <;> simp_all

/-- The user waits, or the handler of the wait is called. -/
inductive Waits (impl : Impl ρ) : Impl ρ → Prop
  | post {r : ρ} (hr : impl.result = some r) : Waits impl { impl with completion := .posted r }
  | install (hd : impl.done = false) : Waits impl { impl with completion := .installed }
  | call {r : ρ} (hp : impl.completion = .posted r) :
    Waits impl { impl with completion := .called r }

theorem asyncWait_waits {impl impl' : Impl ρ} (hw : impl.asyncWait = some impl') :
    impl.Waits impl' := by
  unfold asyncWait at hw
  split at hw
  · split at hw
    · obtain ⟨r, hr, rfl⟩ := Option.map_eq_some_iff.mp hw
      exact .post hr
    · rename_i hd
      cases hw
      exact .install (by simpa using hd)
  · cases hw

theorem runPosted_waits {impl impl' : Impl ρ} (hw : impl.runPosted = some impl') :
    impl.Waits impl' := by
  unfold runPosted at hw
  split at hw
  · rename_i hp
    cases hw
    exact .call hp
  · cases hw

theorem Waits.sane {impl impl' : Impl ρ} (hw : impl.Waits impl') (h : impl.Sane) : impl'.Sane := by
  cases hw with
  | post hr => exact ⟨h.completions, h.done, by simp, by simp [hr], by simp⟩
  | install hd =>
    exact ⟨h.completions, h.done, fun _ => h.result_of_not_done hd, by simp, by simp⟩
  | call hp => exact ⟨h.completions, h.done, by simp, by simp, by simp [h.posted _ hp]⟩

theorem Waits.result {impl impl' : Impl ρ} (hw : impl.Waits impl') :
    impl'.result = impl.result := by
  cases hw <;> rfl

theorem Waits.completions {impl impl' : Impl ρ} (hw : impl.Waits impl') :
    impl'.completions = impl.completions := by
  cases hw <;> rfl

end Impl

def Wait.isCalled : Wait α → Prop
  | .called => True
  | _ => False

/-- The handler of the user gets the only result, and is not left waiting. -/
structure Impl.Delivers (impl : Impl ρ) : Prop where
  once : impl.completions.length ≤ 1
  passed : ∀ r, impl.completion = .called r → impl.completions = [r]
  notLost : impl.completions ≠ [] → impl.completion ≠ .installed

theorem Impl.Sane.delivers {impl : Impl ρ} (h : impl.Sane) : impl.Delivers where
  once := by
    rw [h.completions]
    exact Option.length_toList_le
  passed := by
    intro r hr
    rw [h.completions, h.called r hr, Option.toList_some]
  notLost := by
    intro hne hi
    exact hne (by rw [h.completions, h.installed hi, Option.toList_none])

theorem arrival_eq_some {n : Nat} {waits : Nat → Wait α} {a : Action α} {p : Nat × α}
    (h : arrival n waits a = some p) : p.1 < n ∧ ¬ (waits p.1).isCalled := by
  unfold arrival at h
  split at h
  · split at h
    · rename_i hw
      split at h
      · cases h
        exact ⟨by assumption, by simp [hw, Wait.isCalled]⟩
      · cases h
    · cases h
  · split at h
    · rename_i hw
      split at h
      · cases h
        exact ⟨by assumption, by simp [hw, Wait.isCalled]⟩
      · cases h
    · cases h
  · cases h

theorem exists_arrival [Inhabited α] {n i : Nat} {waits : Nat → Wait α} (hi : i < n)
    (hw : ¬ (waits i).isCalled) :
    ∃ a v, arrival n waits a = some (i, v) := by
  cases hwi : waits i with
  | installed => exact ⟨.complete i default, default, by simp [arrival, hwi, hi]⟩
  | posted value => exact ⟨.runPosted i, value, by simp [arrival, hwi, hi]⟩
  | called => simp [hwi, Wait.isCalled] at hw

/-- All promises but one. -/
def others (n i : Nat) : List Nat := (List.range n).filter (· ≠ i)

/-! ### The first -/

/-- The first promise whose handler is called is the result, and the others are asked to cancel. -/
structure RaceRight (n : Nat) (s : Race α) : Prop where
  delivers : s.impl.Delivers
  first : n ≠ 0 → s.impl.completions = s.arrived.head?.toList
  cancels : (s.requests ++ s.cancelling).Perm (s.arrived.head?.elim [] fun p => others n p.1)

def Form.RaceFits (form : Form) (n : Nat) : Prop :=
  match form with
  | .variadic => n < 2
  | .range => n ≤ 2 ^ 32

namespace Race

structure Sane (form : Form) (n : Nat) (s : Race α) : Prop where
  impl : s.impl.Sane
  inRange : ∀ p ∈ s.arrived, p.1 < n
  first : n ≠ 0 → s.impl.result = s.arrived.head?.map fun p => (form.index p.1, p.2)
  cancels : s.requests ++ s.cancelling = s.arrived.head?.elim [] fun p => form.cancels n p.1

theorem start_sane [Inhabited α] (form : Form) (n : Nat) (early : Nat → Option α) :
    (start form n early).Sane form n where
  impl := by
    unfold start
    split
    · exact Impl.finish_sane Impl.initial_sane rfl _
    · exact Impl.initial_sane
  inRange := by simp [start]
  first := by
    intro hn
    simp [start, hn, Impl.initial]
  cancels := rfl

theorem arrive_sane {form : Form} {n : Nat} {s : Race α} (h : s.Sane form n) {i : Nat} {v : α}
    (hi : i < n) :
    (s.arrive form n (i, v)).Sane form n := by
  have hn : n ≠ 0 := by omega
  have hrange : ∀ p ∈ s.arrived ++ [(i, v)], p.1 < n := by
    intro p hp
    rcases List.mem_append.mp hp with hp | hp
    · exact h.inRange p hp
    · cases List.mem_singleton.mp hp
      exact hi
  have hfirst := h.first hn
  unfold arrive handler
  cases harr : s.arrived with
  | nil =>
    rw [harr, List.head?_nil, Option.map_none] at hfirst
    have hd : s.impl.done = false := by rw [h.impl.done, hfirst]; rfl
    have hc := h.cancels
    simp only [harr, List.head?_nil, Option.elim_none, List.append_eq_nil_iff] at hc
    rw [if_neg (by simp [hd])]
    exact
      { impl := Impl.finish_sane h.impl hfirst _
        inRange := by rwa [harr] at hrange
        first := by intro; rfl
        cancels := by simp [hc.1] }
  | cons p rest =>
    rw [harr, List.head?_cons, Option.map_some] at hfirst
    have hd : s.impl.done = true := by rw [h.impl.done, hfirst]; rfl
    rw [if_pos (by simp [hd])]
    exact
      { impl := h.impl
        inRange := by rwa [harr] at hrange
        first := by intro; exact hfirst
        cancels := by simpa [harr] using h.cancels }

theorem step_sane {form : Form} {n : Nat} {s s' : Race α} {a : Action α} (h : s.Sane form n)
    (hs : step form n s a = some s') : s'.Sane form n := by
  have hwait {impl : Impl (Nat × α)} (hw : s.impl.Waits impl) :
      Sane form n { s with impl := impl } :=
    ⟨hw.sane h.impl, h.inRange, fun hn => hw.result.trans (h.first hn), h.cancels⟩
  cases a with
  | complete | runPosted =>
    obtain ⟨p, hp, rfl⟩ := Option.map_eq_some_iff.mp hs
    exact arrive_sane h (arrival_eq_some hp).1
  | cancelNext =>
    simp only [step] at hs
    split at hs
    · cases hs
    · rename_i j rest hc
      cases hs
      exact ⟨h.impl, h.inRange, h.first, by simpa [cancel, hc] using h.cancels⟩
  | asyncWait =>
    obtain ⟨impl, hw, rfl⟩ := Option.map_eq_some_iff.mp hs
    exact hwait (Impl.asyncWait_waits hw)
  | runWaiter =>
    obtain ⟨impl, hw, rfl⟩ := Option.map_eq_some_iff.mp hs
    exact hwait (Impl.runPosted_waits hw)

end Race

theorem Form.RaceFits.index {form : Form} {n i : Nat} (h : form.RaceFits n) (hi : i < n) :
    form.index i = i := by
  cases form with
  | variadic => rfl
  | range => exact Nat.mod_eq_of_lt (Nat.lt_of_lt_of_le hi h)

theorem Form.RaceFits.cancels {form : Form} {n i : Nat} (h : form.RaceFits n) (hi : i < n) :
    form.cancels n i = others n i := by
  cases form with
  | variadic =>
    have hn : n = 1 := by
      have : n < 2 := h
      omega
    subst hn
    obtain rfl : i = 0 := by omega
    rfl
  | range =>
    refine List.filter_congr fun j hj => ?_
    have hj : j < n := List.mem_range.mp hj
    have hle : n ≤ 2 ^ 32 := h
    rw [Form.RaceFits.index h hi, Nat.mod_eq_of_lt (Nat.lt_of_lt_of_le hj hle)]

theorem Race.Sane.right {form : Form} {n : Nat} {s : Race α} (h : s.Sane form n)
    (hf : form.RaceFits n) : RaceRight n s where
  delivers := h.impl.delivers
  first := by
    intro hn
    rw [h.impl.completions, h.first hn]
    cases harr : s.arrived with
    | nil => rfl
    | cons p rest =>
      have hp : p.1 < n := h.inRange p (by simp [harr])
      simp [hf.index hp]
  cancels := by
    rw [h.cancels]
    cases harr : s.arrived with
    | nil => exact .nil
    | cons p rest =>
      have hp : p.1 < n := h.inRange p (by simp [harr])
      simp [hf.cancels hp]

theorem waitsOf_not_called (early : Nat → Option α) (i : Nat) :
    ¬ (waitsOf early i).isCalled := by
  unfold waitsOf
  split <;> simp [Wait.isCalled]

theorem Race.step_of_arrival (form : Form) {n : Nat} (s : Race α) {a : Action α} {p : Nat × α}
    (h : arrival n s.waits a = some p) :
    step form n s a = some (s.arrive form n p) := by
  cases a with
  | complete i v => simp only [step, h, Option.map_some]
  | runPosted i => simp only [step, h, Option.map_some]
  | cancelNext => cases h
  | asyncWait => cases h
  | runWaiter => cases h

/-- Any of the promises can be the first. -/
theorem Race.exists_first [Inhabited α] (form : Form) {n i : Nat} (early : Nat → Option α)
    (hi : i < n) :
    ∃ s v, Reachable (Race.step form n) (fun _ _ => True) (Race.start form n early) s ∧
      s.impl.completions = [(form.index i, v)] ∧ s.arrived = [(i, v)] ∧
      s.requests ++ s.cancelling = form.cancels n i := by
  obtain ⟨a, v, ha⟩ := exists_arrival hi (waitsOf_not_called early i)
  have hn : n ≠ 0 := by omega
  have hstep := step_of_arrival form (start form n early) ha
  refine ⟨_, v, Reachable.step .start trivial hstep, ?_⟩
  simp [start, arrive, handler, hn, Impl.initial, Impl.finish]

theorem raceFits_of_right [Inhabited α] {form : Form} {n : Nat} {early : Nat → Option α}
    (h : ∀ s, Reachable (Race.step form n) (fun _ _ => True) (Race.start form n early) s →
      RaceRight n s) : form.RaceFits n := by
  cases form with
  | variadic =>
    refine Nat.lt_of_not_le fun hn : 2 ≤ n => ?_
    obtain ⟨s, v, hr, -, harr, hc⟩ := Race.exists_first .variadic early
      (Nat.lt_of_lt_of_le Nat.zero_lt_two hn)
    have hperm := (h s hr).cancels
    rw [hc, harr] at hperm
    have hmem : 1 ∈ others n 0 := by simp [others]; omega
    have hzero : 0 ∈ Form.variadic.cancels n 0 := List.mem_map.mpr ⟨1, hmem, rfl⟩
    simpa [others] using hperm.subset hzero
  | range =>
    refine Nat.le_of_not_lt fun hn : 2 ^ 32 < n => ?_
    obtain ⟨s, v, hr, hc, harr, -⟩ := Race.exists_first .range early hn
    have hfirst := (h s hr).first (Nat.ne_of_gt (Nat.lt_of_le_of_lt (Nat.zero_le _) hn))
    rw [hc, harr] at hfirst
    simp [Form.index] at hfirst

/-! ### All -/

/-- The result is given when all handlers have been called, with every value in its place. -/
structure AllRight (n : Nat) (s : All α) : Prop where
  delivers : s.impl.Delivers
  after : s.impl.completions ≠ [] ↔ ∀ i < n, ∃ v, (i, v) ∈ s.arrived
  places : ∀ vs ∈ s.impl.completions,
    vs.length = n ∧ ∀ i v, (i, v) ∈ s.arrived → vs[i]? = some v

def Form.AllFits (form : Form) (n : Nat) : Prop :=
  match form with
  | .variadic => 0 < n
  | .range => n ≤ 2 ^ 32

theorem Form.AllFits.index {form : Form} {n i : Nat} (h : form.AllFits n) (hi : i < n) :
    form.index i = i := by
  cases form with
  | variadic => rfl
  | range => exact Nat.mod_eq_of_lt (Nat.lt_of_lt_of_le hi h)

/-- The values of all promises, when each of them has one. -/
def gathered (n : Nat) (partialResult : Nat → Option α) : Option (List α) :=
  if ∀ j < n, (partialResult j).isSome = true then some ((List.range n).filterMap partialResult)
  else none

theorem gathered_eq_some {n : Nat} {partialResult : Nat → Option α} {vs : List α}
    (h : gathered n partialResult = some vs) :
    vs.length = n ∧ ∀ i < n, vs[i]? = partialResult i := by
  unfold gathered at h
  split at h
  · rename_i hall
    cases h
    have heq : ((List.range n).filterMap partialResult).map some =
        (List.range n).map partialResult := by
      rw [List.map_filterMap_some_eq_filter_map_isSome, List.filter_eq_self]
      intro o ho
      obtain ⟨i, hi, rfl⟩ := List.mem_map.mp ho
      exact hall i (List.mem_range.mp hi)
    have hlen : ((List.range n).filterMap partialResult).length = n := by
      simpa using congrArg List.length heq
    refine ⟨hlen, fun i hi => ?_⟩
    have hget := congrArg (·[i]?) heq
    simp only [List.getElem?_map, List.getElem?_range hi, Option.map_some] at hget
    obtain ⟨v, hv, hp⟩ := Option.map_eq_some_iff.mp hget
    rw [hv, hp]
  · cases h

namespace All

structure Sane (n : Nat) (s : All α) : Prop where
  impl : s.impl.Sane
  arrived : ∀ i v, (i, v) ∈ s.arrived ↔ i < n ∧ s.partialResult i = some v
  waits : ∀ i < n, (s.waits i).isCalled ↔ (s.partialResult i).isSome = true
  result : s.impl.result = gathered n s.partialResult

theorem start_sane {form : Form} {n : Nat} (hf : form.AllFits n) (early : Nat → Option α) :
    (start form n early).Sane n where
  impl := by
    unfold start
    split
    · exact Impl.finish_sane Impl.initial_sane rfl _
    · exact Impl.initial_sane
  arrived := by simp [start]
  waits := by
    intro i hi
    simp [start, waitsOf_not_called]
  result := by
    cases form with
    | variadic =>
      have hn : 0 < n := hf
      have hall : ¬ ∀ j < n, ((start .variadic n early).partialResult j).isSome = true := by
        intro hall
        simpa [start] using hall 0 hn
      rw [gathered, if_neg hall]
      rfl
    | range =>
      by_cases hn : n = 0
      · subst hn
        rfl
      · have hall : ¬ ∀ j < n, ((start .range n early).partialResult j).isSome = true := by
          intro hall
          simpa [start] using hall 0 (Nat.pos_of_ne_zero hn)
        rw [gathered, if_neg hall]
        simp [start, hn, Impl.initial]

theorem arrive_sane {form : Form} {n : Nat} (hf : form.AllFits n) {s : All α} (h : s.Sane n)
    {i : Nat} {v : α} (hi : i < n) (hw : ¬ (s.waits i).isCalled) :
    (s.arrive form n (i, v)).Sane n := by
  have hnone : s.partialResult i = none := by
    have := (h.waits i hi).not.mp hw
    exact Option.isNone_iff_eq_none.mp (by simpa using this)
  have hresult : s.impl.result = none := by
    rw [h.result, gathered, if_neg]
    intro hall
    simpa [hnone] using hall i hi
  unfold arrive handler
  rw [hf.index hi]
  dsimp only
  exact
    { impl := by
        dsimp only
        split
        · exact Impl.finish_sane h.impl hresult _
        · exact h.impl
      arrived := by
        intro j w
        by_cases hj : j = i
        · subst hj
          have hno : (j, w) ∉ s.arrived := by simp [h.arrived, hnone]
          simp [hno, hi, eq_comm]
        · simp [hj, h.arrived]
      waits := by
        intro j hj
        by_cases hji : j = i
        · subst hji
          simp [Wait.isCalled]
        · simp [hji, h.waits j hj]
      result := by
        dsimp only [gathered]
        split
        · rfl
        · exact hresult }

theorem step_of_arrival {form : Form} {n : Nat} {s : All α} {a : Action α} {p : Nat × α}
    (h : arrival n s.waits a = some p) :
    step form n s a = some (s.arrive form n p) := by
  cases a with
  | complete i v => simp only [step, h, Option.map_some]
  | runPosted i => simp only [step, h, Option.map_some]
  | cancelNext => cases h
  | asyncWait => cases h
  | runWaiter => cases h

/-- A promise comes to its end, or the wait for all of them does something. -/
theorem step_cases {form : Form} {n : Nat} {s s' : All α} {a : Action α}
    (hs : step form n s a = some s') :
    (∃ p, arrival n s.waits a = some p ∧ s' = s.arrive form n p) ∨
      ∃ impl, s.impl.Waits impl ∧ s' = { s with impl := impl } := by
  cases a with
  | complete | runPosted =>
    obtain ⟨p, hp, rfl⟩ := Option.map_eq_some_iff.mp hs
    exact .inl ⟨p, hp, rfl⟩
  | cancelNext => cases hs
  | asyncWait =>
    obtain ⟨impl, hw, rfl⟩ := Option.map_eq_some_iff.mp hs
    exact .inr ⟨impl, Impl.asyncWait_waits hw, rfl⟩
  | runWaiter =>
    obtain ⟨impl, hw, rfl⟩ := Option.map_eq_some_iff.mp hs
    exact .inr ⟨impl, Impl.runPosted_waits hw, rfl⟩

theorem step_sane {form : Form} {n : Nat} (hf : form.AllFits n) {s s' : All α} {a : Action α}
    (h : s.Sane n) (hs : step form n s a = some s') : s'.Sane n := by
  obtain ⟨p, hp, rfl⟩ | ⟨impl, hw, rfl⟩ := step_cases hs
  · exact arrive_sane hf h (arrival_eq_some hp).1 (arrival_eq_some hp).2
  · exact ⟨hw.sane h.impl, h.arrived, h.waits, hw.result.trans h.result⟩

theorem Sane.right {n : Nat} {s : All α} (h : s.Sane n) : AllRight n s where
  delivers := h.impl.delivers
  after := by
    have hiff : (∀ i < n, ∃ v, (i, v) ∈ s.arrived) ↔
        ∀ i < n, (s.partialResult i).isSome = true := by
      refine forall₂_congr fun i hi => ?_
      simp only [h.arrived, hi, true_and, Option.isSome_iff_exists]
    rw [h.impl.completions, h.result, hiff, gathered]
    split
    · rename_i hall
      simpa using hall
    · rename_i hall
      simpa using hall
  places := by
    intro vs hvs
    rw [h.impl.completions, h.result, Option.mem_toList] at hvs
    obtain ⟨hlen, hget⟩ := gathered_eq_some hvs
    refine ⟨hlen, fun i v hmem => ?_⟩
    obtain ⟨hi, hv⟩ := (h.arrived i v).mp hmem
    rw [hget i hi, hv]

/-- Promises that a range does not count are never seen to be complete. -/
structure Wrapped (n : Nat) (s : All α) : Prop where
  never : ∀ j, 2 ^ 32 ≤ j → s.partialResult j = none
  completions : s.impl.completions = []

theorem start_wrapped {n : Nat} (hn : 2 ^ 32 < n) (early : Nat → Option α) :
    (start .range n early).Wrapped n where
  never := fun _ _ => rfl
  completions := by
    have hne : n ≠ 0 := Nat.ne_of_gt (Nat.lt_of_le_of_lt (Nat.zero_le _) hn)
    simp [start, hne, Impl.initial]

theorem arrive_wrapped {n : Nat} (hn : 2 ^ 32 < n) {s : All α} (h : s.Wrapped n) (p : Nat × α) :
    (s.arrive .range n p).Wrapped n := by
  have hnever : ∀ j, 2 ^ 32 ≤ j →
      Function.update s.partialResult (Form.range.index p.1) (some p.2) j = none := by
    intro j hj
    have hlt : Form.range.index p.1 < 2 ^ 32 := Nat.mod_lt _ (by decide)
    rw [Function.update_of_ne (Nat.ne_of_gt (Nat.lt_of_lt_of_le hlt hj)), h.never j hj]
  refine ⟨hnever, ?_⟩
  unfold arrive handler
  dsimp only
  rw [if_neg]
  · exact h.completions
  · intro hall
    have := hall (2 ^ 32) hn
    rw [hnever (2 ^ 32) (Nat.le_refl _)] at this
    cases this

theorem step_wrapped {n : Nat} (hn : 2 ^ 32 < n) {s s' : All α} {a : Action α} (h : s.Wrapped n)
    (hs : step .range n s a = some s') : s'.Wrapped n := by
  obtain ⟨p, -, rfl⟩ | ⟨impl, hw, rfl⟩ := step_cases hs
  · exact arrive_wrapped hn h p
  · exact ⟨h.never, hw.completions.trans h.completions⟩

/-- The promises can become complete one after the other. -/
theorem exists_all_arrived [Inhabited α] (form : Form) {n : Nat} (early : Nat → Option α)
    (k : Nat) (hk : k ≤ n) :
    ∃ s, Reachable (step form n) (fun _ _ => True) (start form n early) s ∧
      (∀ i < k, ∃ v, (i, v) ∈ s.arrived) ∧ ∀ i, k ≤ i → ¬ (s.waits i).isCalled := by
  induction k with
  | zero => exact ⟨_, .start, by simp, fun i _ => waitsOf_not_called early i⟩
  | succ k ih =>
    obtain ⟨s, hr, harr, hw⟩ := ih (Nat.le_of_succ_le hk)
    obtain ⟨a, v, ha⟩ := exists_arrival hk (hw k (Nat.le_refl k))
    refine ⟨_, .step hr trivial (step_of_arrival ha), fun i hi => ?_, fun i hi => ?_⟩
    · rcases Nat.lt_succ_iff_lt_or_eq.mp hi with hi | rfl
      · obtain ⟨w, hmem⟩ := harr i hi
        exact ⟨w, List.mem_append_left _ hmem⟩
      · exact ⟨v, List.mem_append_right _ (List.mem_singleton_self _)⟩
    · have hne : i ≠ k := Nat.ne_of_gt hi
      simp only [arrive, handler, Function.update_of_ne hne]
      exact hw i (Nat.le_of_succ_le hi)

end All

theorem allFits_of_right [Inhabited α] {form : Form} {n : Nat} {early : Nat → Option α}
    (h : ∀ s, Reachable (All.step form n) (fun _ _ => True) (All.start form n early) s →
      AllRight n s) : form.AllFits n := by
  cases form with
  | variadic =>
    refine Nat.pos_of_ne_zero fun hn => ?_
    subst hn
    exact (h _ .start).after.mpr (by simp) rfl
  | range =>
    refine Nat.le_of_not_lt fun hn : 2 ^ 32 < n => ?_
    obtain ⟨s, hr, harr, -⟩ := All.exists_all_arrived .range early n (Nat.le_refl n)
    have hw : s.Wrapped n :=
      hr.invariant (All.start_wrapped hn early) fun hs _ hstep => All.step_wrapped hn hs hstep
    exact (h s hr).after.mpr harr hw.completions

/-- Whatever the order in which the promises complete, the first of them and all of them are
combined as they should be for exactly these numbers of promises. -/
theorem right_iff_fits [Inhabited α] (form : Form) (n : Nat) (early : Nat → Option α) :
    ((∀ s, Reachable (Race.step form n) (fun _ _ => True) (Race.start form n early) s →
        RaceRight n s) ↔ form.RaceFits n) ∧
      ((∀ s, Reachable (All.step form n) (fun _ _ => True) (All.start form n early) s →
        AllRight n s) ↔ form.AllFits n) := by
  refine ⟨⟨raceFits_of_right, fun hf s hr => ?_⟩, ⟨allFits_of_right, fun hf s hr => ?_⟩⟩
  · have hs : s.Sane form n :=
      hr.invariant (Race.start_sane form n early) fun hs _ hstep => Race.step_sane hs hstep
    exact hs.right hf
  · have hs : s.Sane n :=
      hr.invariant (All.start_sane hf early) fun hs _ hstep => All.step_sane hf hs hstep
    exact hs.right

/-- The first of two promises that are given one by one is asked to cancel itself. -/
theorem not_right_two :
    ¬ ∀ s, Reachable (Race.step .variadic 2) (fun _ _ => True)
      (Race.start .variadic 2 fun _ => (none : Option Nat)) s → RaceRight 2 s := by
  intro h
  have hr : Reachable (Race.step .variadic 2) (fun _ _ => True)
      (Race.start .variadic 2 fun _ => (none : Option Nat))
      ((Race.start .variadic 2 fun _ => (none : Option Nat)).arrive .variadic 2 (0, 7)) :=
    .step (a := .complete 0 7) .start trivial rfl
  exact absurd (h _ hr).cancels (by decide)

end Asio.Experimental.Promise
