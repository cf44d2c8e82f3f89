import Asio.Detail.StrandServiceRuns

/-! Every handler that a strand is given is called once, and in turn. -/

universe u v

namespace Asio.Detail.StrandService

open Lib Lib.Interleaving Lib.Transition

variable {ι : Type v} {α : Type u} {impl impl' : StrandImpl α} {calls calls' : List (Call α)}
  {i j : ι}

/-! ### What becomes of the handlers -/

/-- Operations are completed in the order in which they came, and every handler is in one place. -/
structure Records (impl : StrandImpl α) : Prop where
  order : impl.ordered =
    impl.completed ++ (impl.acquired ++ impl.readyQueue ++ impl.waitingQueue)
  all : impl.submitted.Perm (impl.ordered ++ impl.invoked)
  nodup : impl.submitted.Nodup

theorem Records.initial : Records (initial : State ι α).shared where
  order := rfl
  all := .refl _
  nodup := List.nodup_nil

theorem Records.goes (h : Records impl) (hg : Goes impl calls impl' calls') : Records impl' := by
  obtain ⟨horder, hall, hnodup⟩ := h
  cases hg with
  | doDispatch hacquired =>
    refine ⟨?_, hall, hnodup⟩
    simp [horder, hacquired]
  | push hacquired hready =>
    refine ⟨?_, hall, hnodup⟩
    simp [horder, hacquired, hready]
  | pop hacquired hready =>
    refine ⟨?_, hall, hnodup⟩
    simp [horder, hacquired, hready]
  | more hacquired hready =>
    refine ⟨?_, hall, hnodup⟩
    simp [horder]
  | done hacquired hready hwaiting =>
    refine ⟨?_, hall, hnodup⟩
    simp [horder, hready, hwaiting]
  | _ => exact ⟨horder, hall, hnodup⟩

theorem Records.submits (h : Records impl) {op : α} (hnew : op ∉ impl.submitted)
    (hfree : impl.locked = false →
      impl.acquired = [] ∧ impl.readyQueue = [] ∧ impl.waitingQueue = [])
    (hs : Submits impl calls op impl' calls') : Records impl' := by
  obtain ⟨horder, hall, hnodup⟩ := h
  have hnodup' : (impl.submitted ++ [op]).Nodup := by
    rw [List.nodup_append]
    refine ⟨hnodup, List.nodup_singleton op, fun b hb c hc => ?_⟩
    rintro rfl
    exact hnew (List.mem_singleton.mp hc ▸ hb)
  have hmiddle : (impl.submitted ++ [op]).Perm (impl.ordered ++ [op] ++ impl.invoked) := by
    rw [List.append_assoc]
    exact (List.perm_append_comm.trans (hall.cons op)).trans List.perm_middle.symm
  cases hs with
  | invoked hrunning =>
    refine ⟨horder, ?_, hnodup'⟩
    rw [← List.append_assoc]
    exact hall.append_right [op]
  | waiting hlocked =>
    refine ⟨?_, hmiddle, hnodup'⟩
    simp [horder]
  | first hlocked =>
    obtain ⟨ha, hr, hw⟩ := hfree hlocked
    refine ⟨?_, hmiddle, hnodup'⟩
    simp [horder, ha, hr, hw]

section Runs

variable [DecidableEq ι] {s s' : State ι α}

theorem Records.step (h : Records s.shared) (hgood : Good s) {a : ι × Action α} (hok : Fresh s a)
    (hs : step s a = some s') : Records s'.shared := by
  obtain ⟨i, a⟩ := a
  obtain ⟨impl', calls', hp, rfl⟩ := step_eq_some.mp hs
  rw [shared_set]
  have hfree (hlocked : s.shared.locked = false) : s.shared.acquired = [] ∧
      s.shared.readyQueue = [] ∧ s.shared.waitingQueue = [] := by
    have hbaton := hgood.baton
    rw [hlocked] at hbaton
    exact ⟨hgood.idle hbaton.idle_of_not_taken.2, hgood.unlocked hlocked⟩
  cases ha : a.isInternal with
  | true =>
    by_cases hi : s.part i = []
    · simp only [hi] at hp
      obtain ⟨_, rfl, _⟩ := perform_nil ha hp
      exact ⟨h.order, h.all, h.nodup⟩
    · obtain ⟨_, hqueued, _⟩ := hgood.baton.of_busy hi
      exact h.goes ((hgood.phase i hi).goes hqueued ha hp)
  | false =>
    cases a with
    | dispatch canDispatch op =>
      exact h.submits hok hfree (perform_submits (.inl ⟨canDispatch, rfl⟩) hp).2
    | post op => exact h.submits hok hfree (perform_submits (.inr rfl) hp).2
    | _ => cases ha

theorem Records.reachable (h : Reachable StrandService.step Fresh
    (StrandService.initial : State ι α) s) : Records s.shared :=
  h.invariant_with (I := fun s => Records s.shared) (fun hr => Good.reachable hr) .initial
    fun hgood hrecords hok hs => hrecords.step hgood hok hs

end Runs

/-! ### The end of a run -/

/-- How far a call is from the next operation, with nothing in the ready queue or something. -/
def Call.weight (empty : Bool) : Call α → Nat
  | .doDispatch _ | .push _ | .onExit => 7
  | .postImmediateCompletion | .repost => 6
  | .doComplete => if empty then 8 else 4
  | .pop _ | .dispatching => 3
  | .complete _ => 5
  | .invoke _ => 1

def remaining (impl : StrandImpl α) (calls : List (Call α)) : Nat :=
  20 * (impl.acquired.length + impl.readyQueue.length + impl.waitingQueue.length) +
    impl.queued * (if impl.readyQueue.isEmpty then 9 else 5) +
    load (Call.weight impl.readyQueue.isEmpty) calls

theorem Goes.remaining_lt (h : Goes impl calls impl' calls') (hqueued : impl.queued = 0) :
    remaining impl' calls' < remaining impl calls := by
  cases h with
  | pop hacquired hready =>
    simp only [remaining, hqueued, hready, List.length_cons, load_cons, Call.weight]
    split <;> simp <;> omega
  | doDispatch hacquired =>
    simp [remaining, hacquired, Call.weight]
    omega
  | more hacquired hready =>
    have hempty := List.isEmpty_eq_false_iff.mpr hready
    simp [remaining, hqueued, Call.weight]
    omega
  | thrown =>
    simp only [remaining, load_cons, Call.weight]
    split <;> simp
  | _ => simp_all [remaining, Call.weight]

theorem Phase.exists_goes (h : Phase impl calls) :
    ∃ a, Action.isInternal a = true ∧ (perform impl calls a).isSome = true := by
  cases h with
  | doDispatch => exact ⟨.complete, rfl, rfl⟩
  | push => exact ⟨.push, rfl, rfl⟩
  | postImmediateCompletion => exact ⟨.postImmediateCompletion, rfl, rfl⟩
  | doComplete =>
    refine ⟨.front, rfl, ?_⟩
    cases hready : impl.readyQueue <;> simp [perform, hready]
  | pop => exact ⟨.pop, rfl, rfl⟩
  | dispatched ops | complete ops =>
    refine ⟨.return, rfl, ?_⟩
    cases ops <;> rfl
  | onExit => exact ⟨.onExit, rfl, rfl⟩
  | repost => exact ⟨.repost, rfl, rfl⟩

section Runs

variable {s s' : State ι α}

theorem remaining_nil_le (impl : StrandImpl α) (calls : List (Call α)) :
    remaining impl [] ≤ remaining impl calls :=
  Nat.add_le_add_left (Nat.zero_le _) _

variable [DecidableEq ι]

theorem remaining_step (h : Good s) {a : ι × Action α} (ha : a.2.isInternal = true)
    (hs : step s a = some s') (j : ι) :
    remaining s'.shared (s'.part j) < remaining s.shared (s.part a.1) := by
  obtain ⟨i, a⟩ := a
  obtain ⟨impl', calls', hp, rfl⟩ := step_eq_some.mp hs
  have hlt : remaining impl' calls' < remaining s.shared (s.part i) ∧
      ∀ j, j ≠ i → s.part j = [] := by
    by_cases hi : s.part i = []
    · simp only [hi] at hp
      obtain ⟨hpos, rfl, rfl⟩ := perform_nil ha hp
      obtain ⟨n, hn⟩ := Nat.exists_eq_succ_of_ne_zero (Nat.ne_of_gt hpos)
      have hbaton := h.baton
      rw [hn] at hbaton
      obtain ⟨_, rfl, hidle⟩ := hbaton.idle_of_pooled
      refine ⟨?_, fun j _ => hidle j⟩
      simp only [hi, remaining, hn, load_cons, load_nil, Call.weight]
      split <;> simp
    · obtain ⟨_, hqueued, others⟩ := h.baton.of_busy hi
      exact ⟨((h.phase i hi).goes hqueued ha hp).remaining_lt hqueued, others⟩
  exact Baton.update_lt hlt.2 (remaining_nil_le impl') hlt.1 j

/-- Without further handlers there is only so much left to do. -/
theorem Good.exists_length_le (h : Good s) : ∃ n, ∀ as s', (∀ a ∈ as, a.2.isInternal = true) →
    exec StrandService.step s as = some s' → as.length ≤ n := by
  obtain ⟨n, hn⟩ := h.baton.exists_bound (remaining_nil_le s.shared)
  refine ⟨n, fun as s' hall hexec => ?_⟩
  refine exec_length_le (I := Good) (B := fun s n => ∀ i, remaining s.shared (s.part i) ≤ n)
    (fun h ha hs => h.step hs) (fun {s a s' n} h ha hs hn => ?_) h hn hall hexec
  have hlt := remaining_step h ha hs
  have hle := hn a.1
  refine ⟨n - 1, ?_, fun j => ?_⟩
  · have := hlt a.1
    omega
  · have := hlt j
    omega

/-- Nothing is left to do only when the lock is free. -/
theorem Good.unlocked_of_quiet (h : Good s) (hthread : 0 < s.shared.queued → Nonempty ι)
    (hquiet : ∀ i a, a.isInternal = true → StrandService.step s (i, a) = none) :
    s.shared.locked = false := by
  have hidle : ∀ i, s.part i = [] := by
    intro i
    by_contra hi
    obtain ⟨a, ha, hsome⟩ := (h.phase i hi).exists_goes
    have hnone : perform s.shared (s.part i) a = none := Option.map_eq_none_iff.mp (hquiet i a ha)
    rw [hnone] at hsome
    cases hsome
  have hpool : s.shared.queued = 0 := by
    by_contra hne
    obtain ⟨i⟩ := hthread (Nat.pos_of_ne_zero hne)
    have hnone := Option.map_eq_none_iff.mp (hquiet i .doComplete rfl)
    simp [perform, hidle i, inUserCode, Nat.pos_of_ne_zero hne] at hnone
  by_contra hlocked
  rw [Bool.not_eq_false] at hlocked
  rcases h.baton.taken_iff.mp hlocked with ⟨hone, _⟩ | ⟨_, i, hi, _⟩
  · cases hpool.symm.trans hone
  · exact hi (hidle i)

end Runs

/-! ### The strand -/

def Call.isUpcall : Call α → Bool
  | .complete _ | .invoke _ => true
  | _ => false

/-- The thread is in a handler of the strand. -/
def Executes (s : State ι α) (i : ι) : Prop := ∃ c ∈ s.part i, c.isUpcall = true

/-- What holds at every moment. A thread that has the lock executes the strand, from the call that
has taken it until it has queued the strand or has freed the lock. -/
structure Serialised (s : State ι α) : Prop where
  exclusive : ∀ i j, Executes s i → Executes s j → i = j
  nested : ∀ i, Executes s i → ∃ (op : α) (ops : List α) (base : Call α),
    s.part i = ops.map Call.invoke ++ [.complete op, base] ∧
      (base = .dispatching ∨ base = .doComplete)
  queued_le : s.shared.queued ≤ 1
  queued_iff : s.shared.queued = 1 ↔ s.shared.locked = true ∧ ∀ i, s.part i = []
  unlocked : s.shared.locked = false → (∀ i, s.part i = []) ∧
    s.shared.acquired = [] ∧ s.shared.readyQueue = [] ∧ s.shared.waitingQueue = []
  order : s.shared.completed <+: s.shared.ordered
  once : s.shared.submitted.Nodup ∧ s.shared.submitted.Perm
    (s.shared.completed ++ s.shared.invoked ++
      (s.shared.acquired ++ s.shared.readyQueue ++ s.shared.waitingQueue))

section Claims

variable {s s' : State ι α}

theorem Good.serialised (h : Good s) (hrecords : Records s.shared) : Serialised s := by
  have hbusy {i : ι} (hi : Executes s i) : s.part i ≠ [] := by
    obtain ⟨c, hc, _⟩ := hi
    exact List.ne_nil_of_mem hc
  have horder := hrecords.order
  refine ⟨fun i j hi hj => h.baton.eq_of_busy (hbusy hi) (hbusy hj), ?_, h.baton.pool_le,
    h.baton.pool_eq_one_iff, ?_, ?_, hrecords.nodup, ?_⟩
  · intro i hi
    have hphase := h.phase i (hbusy hi)
    obtain ⟨c, hc, hup⟩ := hi
    generalize hcalls : s.part i = calls at hphase hc
    cases hphase with
    | @dispatched op ops => exact ⟨op, ops, .dispatching, rfl, .inl rfl⟩
    | @complete op ops => exact ⟨op, ops, .doComplete, rfl, .inr rfl⟩
    | _ =>
      obtain rfl := List.mem_singleton.mp hc
      cases hup
  · intro hfree
    have hbaton := h.baton
    rw [hfree] at hbaton
    obtain ⟨_, hidle⟩ := hbaton.idle_of_not_taken
    exact ⟨hidle, h.idle hidle, h.unlocked hfree⟩
  · rw [horder]
    exact List.prefix_append _ _
  · have hall := hrecords.all
    rw [horder] at hall
    refine hall.trans ?_
    rw [List.append_assoc, List.append_assoc s.shared.completed]
    exact List.perm_append_comm.append_left _

variable [DecidableEq ι]

/-- At most one thread is in handlers of the strand, which is once in the scheduler's queue just
when the lock is taken and no thread executes it; handlers are completed in turn and once, none is
left behind, and without further ones all are completed. -/
theorem handlers_serialised_of_reachable (h : Reachable step Fresh (initial : State ι α) s) :
    Serialised s ∧
      (∃ n, ∀ as s', (∀ a ∈ as, a.2.isInternal = true) → exec step s as = some s' →
        as.length ≤ n) ∧
      ((∀ i a, a.isInternal = true → step s (i, a) = none) → s.shared.locked = false) := by
  have hgood := Good.reachable h
  refine ⟨hgood.serialised (.reachable h), hgood.exists_length_le,
    hgood.unlocked_of_quiet fun hpos => ?_⟩
  cases h with
  | start => cases hpos
  | step _ _ _ =>
    rename_i a _ _ _
    exact ⟨a.1⟩

/-- A handler that runs at once calls another one and throws, and the strand is queued for the one
that has come meanwhile. -/
def throwing : List (Fin 2 × Action Nat) :=
  [(0, .dispatch true 1), (1, .post 2), (0, .complete), (0, .dispatch true 3), (0, .return),
    (0, .throw), (0, .onExit), (0, .repost), (1, .doComplete), (1, .front), (1, .pop)]

theorem handlers_serialised_throwing :
    ∃ s : State (Fin 2) Nat, exec (guarded step Fresh) initial throwing = some s ∧
      Serialised s := by
  have hrun : (exec (guarded (step (ι := Fin 2) (α := Nat)) Fresh) initial throwing).isSome = true := by
    decide +kernel
  obtain ⟨s, hs⟩ := Option.isSome_iff_exists.mp hrun
  exact ⟨s, hs, (handlers_serialised_of_reachable (exec_guarded_reachable hs)).1⟩

end Claims

end Asio.Detail.StrandService
