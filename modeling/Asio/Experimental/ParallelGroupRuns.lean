import Asio.Experimental.ParallelGroup

/-! A parallel group dispatches its handler once, and signals cancellation in one round. -/

universe u

namespace Asio.Experimental.ParallelGroup

open Lib Transition

variable {n : Nat} {ρ : Fin n → Type u} {s s' : State n ρ}

/-! ### Moves -/

/-- What a step does. -/
inductive Move : State n ρ → State n ρ → Prop
  | initiate {s : State n ρ} {i : Fin n} : s.launch = .initiating i →
      Move s { s.setOp i .initiated with launch := .inside i }
  | check {s : State n ρ} {next : Nat} : s.launch = .initiating next → n ≤ next →
      Move s { s with
        cancellationsRequested := (Gate.unbar modulus n s.cancellationsRequested).2
        rounds := s.rounds ++
          if (Gate.unbar modulus n s.cancellationsRequested).1 then [.launch] else []
        launch := if (Gate.unbar modulus n s.cancellationsRequested).1 then .emitting 0
          else .emplacing }
  | returned {s : State n ρ} {i : Fin n} : s.launch = .inside i →
      Move s { s with launch := .initiating (i + 1) }
  | launchEmit {s : State n ρ} {i : Fin n} : s.launch = .emitting i →
      Move s { s.emit .launch i s.cancelType with launch := .emitting (i + 1) }
  | launchEmitted {s : State n ρ} {next : Nat} : s.launch = .emitting next → n ≤ next →
      Move s { s with launch := .emplacing }
  | emplace {s : State n ρ} : s.launch = .emplacing → Move s { s with launch := .finished }
  | complete {s : State n ρ} {i : Fin n} (args : ρ i) : s.ops i = .initiated →
      Move s { s.setOp i (.counted s.completed args) with
        completed := (s.completed + 1) % modulus
        completions := s.completions ++ [⟨i, args⟩] }
  | judge {s : State n ρ} {i : Fin n} {args : ρ i} (cancelType : CancellationType) :
      s.ops i = .ordered args →
      Move s { s.setOp i (.judged args cancelType) with
        verdicts := s.verdicts ++ [(i, cancelType)] }
  | order {s : State n ρ} {i : Fin n} {index : Nat} {args : ρ i} :
      s.ops i = .counted index args →
      Move s { s.setOp i (.ordered args) with
        handler := { s.handler with completionOrder := s.handler.completionOrder.set index i } }
  | store {s : State n ρ} {i : Fin n} {args : ρ i} {cancelType : CancellationType} :
      s.ops i = .judged args cancelType →
      Move s { s.setOp i (if cancelType ≠ .none then .saving cancelType else .releasing) with
        handler := { s.handler with args := Function.update s.handler.args i (some args) } }
  | save {s : State n ρ} {i : Fin n} {cancelType : CancellationType} :
      s.ops i = .saving cancelType →
      Move s { s.setOp i (.requesting cancelType) with cancelType := cancelType }
  | request {s : State n ρ} {i : Fin n} {cancelType : CancellationType} :
      s.ops i = .requesting cancelType → s.cancellationsRequested + 1 < modulus →
      Move s ((s.request (.op i) (.op i)).2.setOp i
        (if (s.request (.op i) (.op i)).1 then .emitting cancelType 0 else .releasing))
  | skip {s : State n ρ} {i : Fin n} {cancelType : CancellationType} :
      s.ops i = .emitting cancelType i → Move s (s.setOp i (.emitting cancelType (i + 1)))
  | emit {s : State n ρ} {i j : Fin n} {cancelType : CancellationType} :
      s.ops i = .emitting cancelType j → j ≠ i →
      Move s ((s.emit (.op i) j cancelType).setOp i (.emitting cancelType (j + 1)))
  | emitted {s : State n ρ} {i : Fin n} {cancelType : CancellationType} {next : Nat} :
      s.ops i = .emitting cancelType next → n ≤ next → Move s (s.setOp i .releasing)
  | release {s : State n ρ} {i : Fin n} : s.ops i = .releasing →
      Move s { s.setOp i (if Countdown.leave modulus s.outstanding = 0 then .dispatching
          else .finished) with
        outstanding := Countdown.leave modulus s.outstanding
        released := s.released ++ [i] }
  | dispatch {s : State n ρ} {i : Fin n} : s.ops i = .dispatching →
      Move s { s.setOp i .finished with dispatched := s.dispatched ++ [s.handler] }
  | ignore {s : State n ρ} : Move s s
  | slot {s : State n ρ} {cancelType : CancellationType} : s.launch = .finished →
      cancelType ≠ .none → s.cancellationsRequested + 1 < modulus →
      Move s { (s.request .slot (.slot s.slotLoops.length)).2 with
        slotLoops := s.slotLoops ++
          if (s.request .slot (.slot s.slotLoops.length)).1 then [(cancelType, 0)] else [] }
  | slotEmit {s : State n ρ} {loop : Nat} {i : Fin n} {cancelType : CancellationType} :
      s.slotLoops[loop]? = some (cancelType, i.val) →
      Move s { s.emit (.slot loop) i cancelType with
        slotLoops := s.slotLoops.set loop (cancelType, i + 1) }

theorem move_of_step {a : Action n ρ} (hfits : Fits s a) (h : step s a = some s') :
    Move s s' := by
  cases a with
  | launch =>
    simp only [step, State.stepLaunch] at h
    split at h
    · rename_i next hlaunch
      split at h
      · rename_i hnext
        cases h
        exact .initiate (i := ⟨next, hnext⟩) hlaunch
      · rename_i hnext
        cases h
        exact .check hlaunch (Nat.le_of_not_lt hnext)
    · rename_i hlaunch
      cases h
      exact .returned hlaunch
    · rename_i next hlaunch
      split at h
      · rename_i hnext
        cases h
        exact .launchEmit (i := ⟨next, hnext⟩) hlaunch
      · rename_i hnext
        cases h
        exact .launchEmitted hlaunch (Nat.le_of_not_lt hnext)
    · rename_i hlaunch
      cases h
      exact .emplace hlaunch
    · cases h
  | complete i args =>
    simp only [step, State.complete] at h
    split at h
    · rename_i hop
      cases h
      exact .complete args hop
    · cases h
  | judge i cancelType =>
    simp only [step, State.judge] at h
    split at h
    · rename_i hop
      cases h
      exact .judge cancelType hop
    · cases h
  | proceed i =>
    simp only [step, State.proceed] at h
    split at h
    · rename_i hop
      cases h
      exact .order hop
    · rename_i hop
      cases h
      exact .store hop
    · rename_i hop
      cases h
      exact .save hop
    · rename_i hop
      cases h
      simp only [Fits, hop] at hfits
      exact .request hop hfits
    · rename_i cancelType next hop
      split at h
      · rename_i hnext
        split at h
        · rename_i hself
          cases h
          subst hself
          exact .skip hop
        · rename_i hother
          cases h
          exact .emit (j := ⟨next, hnext⟩) hop fun heq => hother (congrArg Fin.val heq)
      · rename_i hnext
        cases h
        exact .emitted hop (Nat.le_of_not_lt hnext)
    · rename_i hop
      cases h
      exact .release hop
    · rename_i hop
      cases h
      exact .dispatch hop
    · cases h
  | slot cancelType locked =>
    simp only [step, State.slot] at h
    split at h
    · rename_i hlaunch
      split at h
      · cases h
      · split at h
        · cases h
          exact .ignore
        · rename_i hsome
          cases h
          obtain ⟨hcancel, hlocked⟩ := not_or.mp hsome
          exact .slot hlaunch hcancel (hfits hcancel (eq_true_of_ne_false hlocked))
    · cases h
  | slotEmit loop =>
    simp only [step, State.slotEmit] at h
    split at h
    · rename_i cancelType next hloop
      split at h
      · rename_i hnext
        cases h
        exact .slotEmit (i := ⟨next, hnext⟩) hloop
      · cases h
    · cases h

/-! ### The order of completion -/

section Phases

variable {α : Type u}

def Phase.begun : Phase α → Bool
  | .idle | .initiated => false
  | _ => true

/-- The place in the order that a handler has still to fill. -/
def Phase.index? : Phase α → Option Nat
  | .counted index _ => some index
  | _ => none

/-- The arguments that a handler has still to store. -/
def Phase.args? : Phase α → Option α
  | .counted _ args | .ordered args | .judged args _ => some args
  | _ => none

end Phases

/-- How many operations have been initiated. -/
def Launch.reached : Launch n → Nat
  | .initiating next => next
  | .inside i => i + 1
  | _ => n

/-- The completions are numbered, and their arguments stored. -/
structure Ordered (s : State n ρ) : Prop where
  idle : ∀ i : Fin n, s.launch.reached ≤ i → s.ops i = .idle
  length : s.handler.completionOrder.length = n
  completed : s.completed = s.completions.length
  nodup : (s.completions.map Sigma.fst).Nodup
  begun : ∀ i, i ∈ s.completions.map Sigma.fst ↔ (s.ops i).begun = true
  ordered : ∀ k c, s.completions[k]? = some c →
    (s.ops c.1).index? = some k ∨ s.handler.completionOrder[k]? = some c.1.val
  index : ∀ i k, (s.ops i).index? = some k → ∃ c, s.completions[k]? = some c ∧ c.1 = i
  stored : ∀ c ∈ s.completions, (s.ops c.1).args?.or (s.handler.args c.1) = some c.2

theorem Ordered.length_le (h : Ordered s) : s.completions.length ≤ n := by
  have hle := h.nodup.length_le_card
  rwa [List.length_map, Fintype.card_fin] at hle

/-- What only moves an operation on, after its results are stored or before it has completed. -/
theorem Ordered.setOp (h : Ordered s) {i : Fin n} {phase : Phase (ρ i)}
    (hops : s'.ops = Function.update s.ops i phase)
    (hlaunch : ∀ j : Fin n, s'.launch.reached ≤ j → s.launch.reached ≤ j ∧ j ≠ i)
    (hcompleted : s'.completed = s.completed) (hcompletions : s'.completions = s.completions)
    (hhandler : s'.handler = s.handler) (hbegun : phase.begun = (s.ops i).begun)
    (hindex : phase.index? = (s.ops i).index?) (hargs : phase.args? = (s.ops i).args?) :
    Ordered s' := by
  have hsame (j : Fin n) : (s'.ops j).begun = (s.ops j).begun ∧
      (s'.ops j).index? = (s.ops j).index? ∧ (s'.ops j).args? = (s.ops j).args? := by
    rw [hops]
    by_cases hj : j = i
    · subst hj
      rw [Function.update_self]
      exact ⟨hbegun, hindex, hargs⟩
    · rw [Function.update_of_ne hj]
      exact ⟨rfl, rfl, rfl⟩
  refine ⟨fun j hj => ?_, ?_, ?_, ?_, fun j => ?_, fun k c => ?_, fun j k => ?_, fun c => ?_⟩
  · obtain ⟨hreached, hne⟩ := hlaunch j hj
    rw [hops, Function.update_of_ne hne]
    exact h.idle j hreached
  · rw [hhandler]
    exact h.length
  · rw [hcompleted, hcompletions]
    exact h.completed
  · rw [hcompletions]
    exact h.nodup
  · rw [hcompletions, (hsame j).1]
    exact h.begun j
  · rw [hcompletions, (hsame c.1).2.1, hhandler]
    exact h.ordered k c
  · rw [hcompletions, (hsame j).2.1]
    exact h.index j k
  · rw [hcompletions, (hsame c.1).2.2, hhandler]
    exact h.stored c

/-- An operation that has been initiated is not idle again. -/
theorem Ordered.reached (h : Ordered s) {i : Fin n} (hop : s.ops i ≠ .idle) {j : Fin n}
    (hj : s.launch.reached ≤ j) : s.launch.reached ≤ j ∧ j ≠ i := by
  refine ⟨hj, ?_⟩
  rintro rfl
  exact hop (h.idle j hj)

theorem Ordered.of_launch (h : Ordered s) (hops : s'.ops = s.ops)
    (hlaunch : ∀ j : Fin n, s'.launch.reached ≤ j → s.launch.reached ≤ j)
    (hcompleted : s'.completed = s.completed) (hcompletions : s'.completions = s.completions)
    (hhandler : s'.handler = s.handler) : Ordered s' := by
  refine ⟨fun j hj => ?_, ?_, ?_, ?_, ?_, ?_, ?_, ?_⟩
  · rw [hops]
    exact h.idle j (hlaunch j hj)
  all_goals simp only [hops, hcompleted, hcompletions, hhandler]
  · exact h.length
  · exact h.completed
  · exact h.nodup
  · exact h.begun
  · exact h.ordered
  · exact h.index
  · exact h.stored

theorem getElem?_concat {α : Type u} {l : List α} {a c : α} {k : Nat}
    (h : (l ++ [a])[k]? = some c) : l[k]? = some c ∨ (k = l.length ∧ c = a) := by
  rcases Nat.lt_or_ge k l.length with hk | hk
  · rw [List.getElem?_append_left hk] at h
    exact Or.inl h
  · rw [List.getElem?_append_right hk, List.getElem?_singleton] at h
    split at h
    · rename_i hzero
      cases h
      exact Or.inr ⟨by omega, rfl⟩
    · cases h

theorem Ordered.complete (h : Ordered s) {i : Fin n} (hfits : n < modulus) (args : ρ i)
    (hop : s.ops i = .initiated) :
    Ordered { s.setOp i (.counted s.completed args) with
      completed := (s.completed + 1) % modulus
      completions := s.completions ++ [⟨i, args⟩] } := by
  have hnew : i ∉ s.completions.map Sigma.fst := by
    rw [h.begun, hop]
    exact nofun
  have hnodup : ((s.completions ++ [Sigma.mk i args]).map Sigma.fst).Nodup := by
    rw [List.map_append]
    exact List.nodup_append'.mpr
      ⟨h.nodup, List.nodup_singleton _, List.disjoint_singleton.mpr hnew⟩
  have hother {c : (i : Fin n) × ρ i} (hc : c ∈ s.completions) : c.1 ≠ i := by
    rintro rfl
    exact hnew (List.mem_map_of_mem hc)
  refine ⟨fun j hj => ?_, h.length, ?_, hnodup, fun j => ?_, fun k c hc => ?_,
    fun j k hk => ?_, fun c hc => ?_⟩
  · obtain ⟨hreached, hne⟩ := h.reached (by rw [hop]; exact nofun) hj
    exact (Function.update_of_ne hne ..).trans (h.idle j hreached)
  · have hle : (s.completions ++ [Sigma.mk i args]).length ≤ n := by
      have hle := hnodup.length_le_card
      rwa [List.length_map, Fintype.card_fin] at hle
    rw [List.length_append, List.length_singleton, ← h.completed] at hle ⊢
    exact Nat.mod_eq_of_lt (by omega)
  · rw [List.map_append, List.mem_append, h.begun]
    simp only [State.setOp]
    by_cases hj : j = i
    · subst hj
      rw [Function.update_self]
      exact iff_of_true (Or.inr (List.mem_singleton_self _)) rfl
    · rw [Function.update_of_ne hj]
      exact or_iff_left fun hmem => hj (List.mem_singleton.mp hmem)
  · simp only [State.setOp]
    rcases getElem?_concat hc with hc | ⟨rfl, rfl⟩
    · rw [Function.update_of_ne (hother (List.mem_of_getElem? hc))]
      exact h.ordered k c hc
    · rw [Function.update_self, ← h.completed]
      exact Or.inl rfl
  · simp only [State.setOp] at hk
    by_cases hj : j = i
    · subst hj
      rw [Function.update_self] at hk
      cases hk
      refine ⟨⟨j, args⟩, ?_, rfl⟩
      rw [h.completed]
      exact List.getElem?_concat_length ..
    · rw [Function.update_of_ne hj] at hk
      obtain ⟨c, hc, hcj⟩ := h.index j k hk
      refine ⟨c, ?_, hcj⟩
      rwa [List.getElem?_append_left (List.getElem?_eq_some_iff.mp hc).1]
  · simp only [State.setOp]
    rcases List.mem_append.mp hc with hc | hc
    · rw [Function.update_of_ne (hother hc)]
      exact h.stored c hc
    · obtain rfl := List.mem_singleton.mp hc
      rw [Function.update_self]
      rfl

theorem Ordered.unique (h : Ordered s) {k k' : Nat} {c c' : (i : Fin n) × ρ i}
    (hc : s.completions[k]? = some c) (hc' : s.completions[k']? = some c') (heq : c.1 = c'.1) :
    k = k' := by
  have hk : k < (s.completions.map Sigma.fst).length := by
    rw [List.length_map]
    exact (List.getElem?_eq_some_iff.mp hc).1
  refine (List.getElem?_inj hk h.nodup).mp ?_
  rw [List.getElem?_map, List.getElem?_map, hc, hc']
  exact congrArg some heq

theorem Ordered.inj (h : Ordered s) {c c' : (i : Fin n) × ρ i} (hc : c ∈ s.completions)
    (hc' : c' ∈ s.completions) (heq : c.1 = c'.1) : c = c' :=
  List.inj_on_of_nodup_map h.nodup hc hc' heq

/-- A handler puts its operation in the place that it has counted. -/
theorem Ordered.order (h : Ordered s) {i : Fin n} {index : Nat} {args : ρ i}
    (hop : s.ops i = .counted index args) :
    Ordered { s.setOp i (.ordered args) with
      handler := { s.handler with
        completionOrder := s.handler.completionOrder.set index i } } := by
  have hindex : (s.ops i).index? = some index := by rw [hop]; rfl
  obtain ⟨c, hc, rfl⟩ := h.index i index hindex
  have hplace : index < s.completions.length := (List.getElem?_eq_some_iff.mp hc).1
  refine ⟨fun j hj => ?_, ?_, h.completed, h.nodup, fun j => ?_, fun k c' hc' => ?_,
    fun j k hk => ?_, fun c' hc' => ?_⟩
  · obtain ⟨hreached, hne⟩ := h.reached (by rw [hop]; exact nofun) hj
    exact (Function.update_of_ne hne ..).trans (h.idle j hreached)
  · simp only [List.length_set]
    exact h.length
  · refine (h.begun j).trans ?_
    simp only [State.setOp]
    by_cases hj : j = c.1
    · subst hj
      rw [Function.update_self, hop]
      exact Iff.rfl
    · rw [Function.update_of_ne hj]
  · simp only [State.setOp]
    by_cases hk : index = k
    · subst hk
      obtain rfl : c = c' := Option.some.inj (hc.symm.trans hc')
      refine Or.inr (List.getElem?_set_self ?_)
      rw [h.length]
      exact hplace.trans_le h.length_le
    · have hne : c'.1 ≠ c.1 := fun heq => hk (h.unique hc hc' heq.symm)
      rw [Function.update_of_ne hne, List.getElem?_set_ne hk]
      exact h.ordered k c' hc'
  · simp only [State.setOp] at hk
    by_cases hj : j = c.1
    · subst hj
      rw [Function.update_self] at hk
      cases hk
    · rw [Function.update_of_ne hj] at hk
      exact h.index j k hk
  · simp only [State.setOp]
    have hstored := h.stored c' hc'
    by_cases hj : c'.1 = c.1
    · obtain rfl : c = c' := h.inj (List.mem_of_getElem? hc) hc' hj.symm
      rw [hop] at hstored
      rw [Function.update_self]
      exact hstored
    · rwa [Function.update_of_ne hj]

theorem Ordered.store (h : Ordered s) {i : Fin n} {args : ρ i} {phase : Phase (ρ i)}
    {cancelType : CancellationType} (hop : s.ops i = .judged args cancelType)
    (hbegun : phase.begun = true) (hindex : phase.index? = none) (hargs : phase.args? = none) :
    Ordered { s.setOp i phase with
      handler := { s.handler with args := Function.update s.handler.args i (some args) } } := by
  refine ⟨fun j hj => ?_, h.length, h.completed, h.nodup, fun j => ?_, fun k c hc => ?_,
    fun j k hk => ?_, fun c hc => ?_⟩
  · obtain ⟨hreached, hne⟩ := h.reached (by rw [hop]; exact nofun) hj
    exact (Function.update_of_ne hne ..).trans (h.idle j hreached)
  · refine (h.begun j).trans ?_
    simp only [State.setOp]
    by_cases hj : j = i
    · subst hj
      rw [Function.update_self, hop, hbegun]
      exact Iff.rfl
    · rw [Function.update_of_ne hj]
  · simp only [State.setOp]
    have hordered := h.ordered k c hc
    by_cases hj : c.1 = i
    · subst hj
      rw [hop] at hordered
      exact Or.inr (hordered.resolve_left nofun)
    · rwa [Function.update_of_ne hj]
  · simp only [State.setOp] at hk
    by_cases hj : j = i
    · subst hj
      rw [Function.update_self, hindex] at hk
      cases hk
    · rw [Function.update_of_ne hj] at hk
      exact h.index j k hk
  · simp only [State.setOp]
    have hstored := h.stored c hc
    by_cases hj : c.1 = i
    · subst hj
      rw [hop] at hstored
      rw [Function.update_self, Function.update_self, hargs]
      exact hstored
    · rwa [Function.update_of_ne hj, Function.update_of_ne hj]

theorem ordered_initial (connected : Bool) : Ordered (initial n ρ connected) where
  idle _ _ := rfl
  length := List.length_replicate
  completed := rfl
  nodup := List.nodup_nil
  begun _ := iff_of_false List.not_mem_nil nofun
  ordered _ _ := nofun
  index _ _ := nofun
  stored _ := nofun

theorem reached_of_le {launch launch' : Launch n} (h : n ≤ launch'.reached) (j : Fin n)
    (hj : launch'.reached ≤ j) : launch.reached ≤ j :=
  absurd (h.trans hj) (Nat.not_le_of_lt j.isLt)

theorem Ordered.move (h : Ordered s) (hfits : n < modulus) (hmove : Move s s') : Ordered s' := by
  cases hmove with
  | @initiate i hlaunch =>
    have hidle : s.ops i = .idle := h.idle i (by rw [hlaunch]; exact Nat.le_refl _)
    refine h.setOp rfl (fun j hj => ?_) rfl rfl rfl ?_ ?_ ?_
    · rw [hlaunch]
      exact ⟨Nat.le_of_succ_le hj, fun heq => Nat.lt_irrefl _ (heq ▸ hj)⟩
    · rw [hidle]
      rfl
    · rw [hidle]
      rfl
    · rw [hidle]
      rfl
  | check =>
    refine h.of_launch rfl (reached_of_le ?_) rfl rfl rfl
    dsimp only
    split <;> exact Nat.le_refl n
  | returned hlaunch => exact h.of_launch rfl (fun j hj => by rwa [hlaunch]) rfl rfl rfl
  | launchEmit | launchEmitted | emplace =>
    exact h.of_launch rfl (reached_of_le (Nat.le_refl n)) rfl rfl rfl
  | complete args hop => exact h.complete hfits args hop
  | judge cancelType hop =>
    refine h.setOp rfl (fun j => h.reached (by rw [hop]; exact nofun)) rfl rfl rfl ?_ ?_ ?_
    all_goals
      rw [hop]
      rfl
  | order hop => exact h.order hop
  | store hop =>
    refine h.store hop ?_ ?_ ?_
    all_goals split <;> rfl
  | save hop | skip hop | emit hop | emitted hop | dispatch hop =>
    refine h.setOp rfl (fun j => h.reached (by rw [hop]; exact nofun)) rfl rfl rfl ?_ ?_ ?_
    all_goals
      rw [hop]
      rfl
  | request hop | release hop =>
    refine h.setOp rfl (fun j => h.reached (by rw [hop]; exact nofun)) rfl rfl rfl ?_ ?_ ?_
    all_goals
      rw [hop]
      split <;> rfl
  | ignore => exact h
  | slot | slotEmit => exact h.of_launch rfl (fun j hj => hj) rfl rfl rfl

/-! ### The last to complete -/

def Phase.released {α : Type u} : Phase α → Bool
  | .dispatching | .finished => true
  | _ => false

def Phase.isDispatching {α : Type u} : Phase α → Bool
  | .dispatching => true
  | _ => false

/-- The handlers count down, and the last one dispatches what the proxy handler holds. -/
structure Released (s : State n ρ) : Prop where
  counts : Countdown.Counts (Fintype.card (Fin n)) s.outstanding s.released
  released : ∀ i, i ∈ s.released ↔ (s.ops i).released = true
  waiting : s.outstanding ≠ 0 → s.dispatched = [] ∧ ∀ i, (s.ops i).isDispatching = false
  last : s.outstanding = 0 →
    (s.dispatched = [] ∧ ∃ i, ∀ j, (s.ops j).isDispatching = true ↔ j = i) ∨
      (s.dispatched = [s.handler] ∧ ∀ i, (s.ops i).isDispatching = false)

theorem Released.pos (h : Released s) {i : Fin n} (hop : (s.ops i).released = false) :
    s.outstanding ≠ 0 := by
  have hnot : i ∉ s.released := by
    rw [h.released, hop]
    exact nofun
  exact Nat.ne_of_gt (h.counts.pos hnot)

theorem Released.of_same (h : Released s) (hops : s'.ops = s.ops)
    (houtstanding : s'.outstanding = s.outstanding) (hreleased : s'.released = s.released)
    (hdispatched : s'.dispatched = s.dispatched) (hhandler : s'.handler = s.handler) :
    Released s' := by
  obtain ⟨hcounts, hin, hwaiting, hlast⟩ := h
  constructor <;> simpa only [hops, houtstanding, hreleased, hdispatched, hhandler]

/-- While an operation has not released the group, its handler may change. -/
theorem Released.setOp (h : Released s) {i : Fin n} {phase : Phase (ρ i)}
    (hops : s'.ops = Function.update s.ops i phase) (hbefore : (s.ops i).released = false)
    (hafter : phase.released = false) (houtstanding : s'.outstanding = s.outstanding)
    (hreleased : s'.released = s.released) (hdispatched : s'.dispatched = s.dispatched) :
    Released s' := by
  have hpos := h.pos hbefore
  obtain ⟨hnone, hquiet⟩ := h.waiting hpos
  refine ⟨?_, fun j => ?_, fun _ => ⟨hdispatched.trans hnone, fun j => ?_⟩, fun hzero => ?_⟩
  · rw [houtstanding, hreleased]
    exact h.counts
  · rw [hreleased, h.released, hops]
    by_cases hj : j = i
    · subst hj
      rw [Function.update_self, hbefore, hafter]
    · rw [Function.update_of_ne hj]
  · rw [hops]
    by_cases hj : j = i
    · subst hj
      rw [Function.update_self]
      cases phase with
      | dispatching => cases hafter
      | _ => rfl
    · rw [Function.update_of_ne hj]
      exact hquiet j
  · exact absurd (houtstanding.symm.trans hzero) hpos

theorem Released.release (h : Released s) (hfits : n < modulus) {i : Fin n}
    (hop : s.ops i = .releasing) :
    Released { s.setOp i (if Countdown.leave modulus s.outstanding = 0 then .dispatching
        else .finished) with
      outstanding := Countdown.leave modulus s.outstanding
      released := s.released ++ [i] } := by
  have hbefore : (s.ops i).released = false := by rw [hop]; rfl
  have hnot : i ∉ s.released := by
    rw [h.released, hbefore]
    exact nofun
  obtain ⟨hnone, hquiet⟩ := h.waiting (h.pos hbefore)
  obtain ⟨hcounts, -⟩ := h.counts.leave (by rwa [Fintype.card_fin]) hnot
  refine ⟨hcounts, fun j => ?_, fun hpos => ⟨hnone, fun j => ?_⟩, fun hzero => Or.inl ⟨hnone, i,
    fun j => ?_⟩⟩
  · rw [List.mem_append, h.released]
    simp only [State.setOp]
    by_cases hj : j = i
    · subst hj
      rw [Function.update_self]
      refine iff_of_true (Or.inr (List.mem_singleton_self j)) ?_
      split <;> rfl
    · rw [Function.update_of_ne hj]
      exact or_iff_left fun hmem => hj (List.mem_singleton.mp hmem)
  · simp only [State.setOp]
    by_cases hj : j = i
    · subst hj
      rw [Function.update_self, if_neg hpos]
      rfl
    · rw [Function.update_of_ne hj]
      exact hquiet j
  · simp only [State.setOp]
    by_cases hj : j = i
    · subst hj
      rw [Function.update_self, if_pos hzero]
      exact iff_of_true rfl rfl
    · rw [Function.update_of_ne hj, hquiet j]
      exact iff_of_false nofun hj

theorem Released.dispatch (h : Released s) {i : Fin n} (hop : s.ops i = .dispatching) :
    Released { s.setOp i .finished with dispatched := s.dispatched ++ [s.handler] } := by
  have hdispatching : (s.ops i).isDispatching = true := by rw [hop]; rfl
  have hzero : s.outstanding = 0 := by
    by_contra hpos
    have hquiet := (h.waiting hpos).2 i
    rw [hdispatching] at hquiet
    cases hquiet
  refine ⟨h.counts, fun j => ?_, fun hpos => absurd hzero hpos, fun _ => Or.inr ?_⟩
  · refine (h.released j).trans ?_
    simp only [State.setOp]
    by_cases hj : j = i
    · subst hj
      rw [Function.update_self, hop]
      exact Iff.rfl
    · rw [Function.update_of_ne hj]
  · rcases h.last hzero with ⟨hnone, k, honly⟩ | ⟨-, hquiet⟩
    · obtain rfl := (honly i).mp hdispatching
      refine ⟨by rw [hnone]; rfl, fun j => ?_⟩
      simp only [State.setOp]
      by_cases hj : j = i
      · subst hj
        rw [Function.update_self]
        rfl
      · rw [Function.update_of_ne hj]
        exact eq_false_of_ne_true fun heq => hj ((honly j).mp heq)
    · rw [hquiet i] at hdispatching
      cases hdispatching

theorem released_initial (hpos : 0 < n) (connected : Bool) :
    Released (initial n ρ connected) where
  counts := by
    rw [Fintype.card_fin]
    exact Countdown.counts_nobody
  released _ := iff_of_false List.not_mem_nil nofun
  waiting _ := ⟨rfl, fun _ => rfl⟩
  last hzero := absurd hzero (Nat.ne_of_gt hpos)

theorem Released.move (h : Released s) (hordered : Ordered s) (hfits : n < modulus)
    (hmove : Move s s') : Released s' := by
  cases hmove with
  | @initiate i hlaunch =>
    have hidle : s.ops i = .idle := hordered.idle i (by rw [hlaunch]; exact Nat.le_refl _)
    exact h.setOp rfl (by rw [hidle]; rfl) rfl rfl rfl rfl
  | check | returned | launchEmit | launchEmitted | emplace | ignore | slot | slotEmit =>
    exact h.of_same rfl rfl rfl rfl rfl
  | complete _ hop | judge _ hop | order hop | save hop | skip hop | emit hop | emitted hop =>
    exact h.setOp rfl (by rw [hop]; rfl) rfl rfl rfl rfl
  | store hop | request hop =>
    refine h.setOp rfl (by rw [hop]; rfl) ?_ rfl rfl rfl
    split <;> rfl
  | release hop => exact h.release hfits hop
  | dispatch hop => exact h.dispatch hop

end Asio.Experimental.ParallelGroup
