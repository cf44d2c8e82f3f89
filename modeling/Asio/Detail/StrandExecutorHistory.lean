import Asio.Detail.StrandExecutorRuns

/-! Every function that a strand is given is called once, and in turn. -/

universe u v

namespace Asio.Detail.StrandExecutorService

open Lib Lib.Interleaving Lib.Transition

variable {ι : Type v} {α : Type u} {impl impl' : StrandImpl α} {calls calls' : List (Call α)}
  {i j : ι}

/-! ### What becomes of the functions -/

/-- Operations leave the queues in the order in which they came, or when the strand is shut down,
and every function is in one place. -/
structure Records (impl : StrandImpl α) : Prop where
  order : ∃ cut, cut.Perm impl.cut ∧ impl.enqueued =
    impl.completed ++ (impl.acquired ++ impl.readyQueue ++ impl.waitingQueue ++ cut)
  opened : impl.shutdown = false → impl.refused = [] ∧ impl.cut = []
  closed : impl.shutdown = true →
    impl.acquired = [] ∧ impl.readyQueue = [] ∧ impl.waitingQueue = []
  all : impl.submitted.Perm (impl.enqueued ++ impl.invoked ++ impl.refused)
  nodup : impl.submitted.Nodup

theorem Records.initial : Records (initial : State ι α).shared where
  order := ⟨[], .refl _, rfl⟩
  opened _ := ⟨rfl, rfl⟩
  closed := nofun
  all := .refl _
  nodup := List.nodup_nil

theorem Records.goes (h : Records impl) (hg : Goes impl calls impl' calls') : Records impl' := by
  obtain ⟨⟨cut, hcut, horder⟩, hopened, hclosed, hall, hnodup⟩ := h
  cases hg with
  | push hacquired hready =>
    refine ⟨⟨cut, hcut, ?_⟩, hopened, fun hshutdown => ?_, hall, hnodup⟩
    · rw [horder, hacquired, hready]
      rfl
    · have := (hclosed hshutdown).1
      rw [hacquired] at this
      cases this
  | @pop op ops hacquired hready =>
    refine ⟨⟨cut, hcut, ?_⟩, hopened, fun hshutdown => ?_, hall, hnodup⟩
    · simp [horder, hacquired, hready]
    · have := (hclosed hshutdown).2.1
      rw [hready] at this
      cases this
  | more hacquired hready =>
    refine ⟨⟨cut, hcut, ?_⟩, hopened, fun hshutdown => ?_, hall, hnodup⟩
    · simp [horder]
    · obtain ⟨_, hr, hw⟩ := hclosed hshutdown
      rw [hr, hw] at hready
      exact absurd rfl hready
  | done hacquired hready hwaiting =>
    refine ⟨⟨cut, hcut, ?_⟩, hopened, fun _ => ⟨hacquired, rfl, rfl⟩, hall, hnodup⟩
    rw [horder, hready, hwaiting]
  | _ => exact ⟨⟨cut, hcut, horder⟩, hopened, hclosed, hall, hnodup⟩

theorem Records.submits (h : Records impl) {how : Submission} {op : α}
    (hnew : op ∉ impl.submitted) (hfree : impl.locked = false →
      impl.acquired = [] ∧ impl.readyQueue = [] ∧ impl.waitingQueue = [])
    (hs : Submits impl calls how op impl' calls') : Records impl' := by
  obtain ⟨⟨cut, hcut, horder⟩, hopened, hclosed, hall, hnodup⟩ := h
  have hnodup' : (impl.submitted ++ [op]).Nodup := by
    rw [List.nodup_append]
    refine ⟨hnodup, List.nodup_singleton op, fun b hb c hc => ?_⟩
    rintro rfl
    exact hnew (List.mem_singleton.mp hc ▸ hb)
  have hcons {l : List α} (hl : (op :: (impl.enqueued ++ impl.invoked ++ impl.refused)).Perm l) :
      (impl.submitted ++ [op]).Perm l :=
    (List.perm_append_comm.trans (hall.cons op)).trans hl
  cases hs with
  | invoked hrunning =>
    refine ⟨⟨cut, hcut, horder⟩, hopened, hclosed, hcons ?_, hnodup'⟩
    have hlast : impl.enqueued ++ (impl.invoked ++ [op]) ++ impl.refused =
        impl.enqueued ++ impl.invoked ++ op :: impl.refused := by simp
    rw [hlast]
    exact List.perm_middle.symm
  | refused hshutdown =>
    refine ⟨⟨cut, hcut, horder⟩, ?_, hclosed, hcons ?_, hnodup'⟩
    · intro hopen
      cases hshutdown.symm.trans hopen
    · rw [← List.append_assoc]
      exact (List.perm_append_singleton op _).symm
  | waiting hshutdown hlocked =>
    obtain ⟨_, hcutnil⟩ := hopened hshutdown
    rw [hcutnil, List.perm_nil] at hcut
    refine ⟨⟨[], by rw [hcutnil], ?_⟩, hopened, ?_, hcons ?_, hnodup'⟩
    · simp [horder, hcut]
    · intro hclose
      cases hshutdown.symm.trans hclose
    · rw [List.append_assoc, List.append_assoc, List.append_assoc]
      exact List.perm_middle.symm
  | first hshutdown hlocked =>
    obtain ⟨_, hcutnil⟩ := hopened hshutdown
    rw [hcutnil, List.perm_nil] at hcut
    obtain ⟨ha, hr, hw⟩ := hfree hlocked
    refine ⟨⟨[], by rw [hcutnil], ?_⟩, hopened, ?_, hcons ?_, hnodup'⟩
    · simp [horder, hcut, ha, hr, hw]
    · intro hclose
      cases hshutdown.symm.trans hclose
    · rw [List.append_assoc, List.append_assoc, List.append_assoc]
      exact List.perm_middle.symm

theorem Records.shutdown (h : Records impl) (hacquired : impl.acquired = []) :
    Records (StrandExecutorService.shutdown impl) := by
  obtain ⟨⟨cut, hcut, horder⟩, hopened, hclosed, hall, hnodup⟩ := h
  refine ⟨⟨impl.readyQueue ++ impl.waitingQueue ++ cut, ?_, ?_⟩, nofun, fun _ => ⟨hacquired, rfl,
    rfl⟩, hall, hnodup⟩
  · exact (List.perm_append_comm.append hcut).trans List.perm_append_comm
  · rw [StrandExecutorService.shutdown, horder, hacquired]
    simp

section Runs

variable [DecidableEq ι] {s s' : State ι α}

theorem Records.step (h : Records s.shared) (hgood : Good s) {a : ι × Action α} (hok : Ok s a)
    (hs : step s a = some s') : Records s'.shared := by
  obtain ⟨i, a⟩ := a
  obtain ⟨impl', calls', hp, rfl⟩ := step_eq_some.mp hs
  rw [shared_set]
  cases ha : a.isInternal with
  | true =>
    by_cases hi : s.part i = []
    · simp only [hi] at hp
      obtain ⟨_, rfl, _⟩ := perform_nil ha hp
      exact ⟨h.order, h.opened, h.closed, h.all, h.nodup⟩
    · obtain ⟨_, hscheduled, _⟩ := hgood.baton.of_busy hi
      exact h.goes ((hgood.phase i hi).goes hscheduled ha hp)
  | false =>
    cases a with
    | submit how op =>
      simp only [perform] at hp
      split_ifs at hp with hcode
      have hsubmits := submit_submits s.shared (s.part i) how op
      rw [Option.some_inj.mp hp] at hsubmits
      refine h.submits hok (fun hfree => ?_) hsubmits
      have hbaton := hgood.baton
      rw [hfree] at hbaton
      exact ⟨hgood.idle hbaton.idle_of_not_taken.2, hgood.unlocked hfree⟩
    | shutdown =>
      have hidle : ∀ j, s.part j = [] := hok
      simp only [perform, hidle i, if_true] at hp
      cases hp
      exact h.shutdown (hgood.idle hidle)
    | _ => cases ha

theorem Records.reachable (h : Reachable StrandExecutorService.step Ok
    (StrandExecutorService.initial : State ι α) s) : Records s.shared :=
  h.invariant_with (I := fun s => Records s.shared) (fun hr => Good.reachable hr) .initial
    fun hgood hrecords hok hs => hrecords.step hgood hok hs

end Runs

/-! ### The end of a run -/

/-- How far a call is from the next operation, with nothing in the ready queue or something. -/
def Call.weight (empty : Bool) : Call α → Nat
  | .enqueue .. | .onInvokerExit => 7
  | .schedule _ | .reschedule => 6
  | .runReadyHandlers => if empty then 8 else 4
  | .pop _ => 3
  | .complete _ => 5
  | .invoke _ => 1

def remaining (impl : StrandImpl α) (calls : List (Call α)) : Nat :=
  20 * (impl.acquired.length + impl.readyQueue.length + impl.waitingQueue.length) +
    impl.scheduled * (if impl.readyQueue.isEmpty then 9 else 5) +
    load (Call.weight impl.readyQueue.isEmpty) calls

theorem Goes.remaining_lt (h : Goes impl calls impl' calls') (hscheduled : impl.scheduled = 0) :
    remaining impl' calls' < remaining impl calls := by
  cases h with
  | pop hacquired hready =>
    simp only [remaining, hscheduled, hready, List.length_cons, load_cons, Call.weight]
    split <;> simp <;> omega
  | more hacquired hready =>
    have hempty := List.isEmpty_eq_false_iff.mpr hready
    simp [remaining, hscheduled, Call.weight]
    omega
  | thrown =>
    simp only [remaining, load_cons, Call.weight]
    split <;> simp
  | _ => simp_all [remaining, Call.weight]

theorem Phase.exists_goes (h : Phase impl calls) :
    ∃ a, Action.isInternal a = true ∧ (perform impl calls a).isSome = true := by
  cases h with
  | enqueue => exact ⟨.push, rfl, rfl⟩
  | schedule => exact ⟨.schedule false, rfl, rfl⟩
  | runReadyHandlers =>
    refine ⟨.front, rfl, ?_⟩
    cases hready : impl.readyQueue <;> simp [perform, hready]
  | pop => exact ⟨.pop, rfl, rfl⟩
  | complete ops =>
    refine ⟨.return, rfl, ?_⟩
    cases ops <;> rfl
  | onInvokerExit => exact ⟨.pushWaitingToReady, rfl, rfl⟩
  | reschedule => exact ⟨.reschedule, rfl, rfl⟩

section Runs

variable {s s' : State ι α}

theorem ok_of_isInternal {a : ι × Action α} (ha : a.2.isInternal = true) : Ok s a := by
  obtain ⟨i, a⟩ := a
  cases a with
  | submit | shutdown => cases ha
  | _ => trivial

theorem remaining_nil_le (impl : StrandImpl α) (calls : List (Call α)) :
    remaining impl [] ≤ remaining impl calls :=
  Nat.add_le_add_left (Nat.zero_le _) _

variable [DecidableEq ι]

theorem remaining_step (h : Good s) {a : ι × Action α} (ha : a.2.isInternal = true)
    (hs : step s a = some s') (j : ι) :
    remaining s'.shared (s'.part j) < remaining s.shared (s.part a.1) := by
  obtain ⟨i, a⟩ := a
  obtain ⟨impl', calls', hp, rfl⟩ := step_eq_some.mp hs
  have hlt : remaining impl' calls' < remaining s.shared (s.part i) ∧
      ∀ j, j ≠ i → s.part j = [] := by
    by_cases hi : s.part i = []
    · simp only [hi] at hp
      obtain ⟨hpos, rfl, rfl⟩ := perform_nil ha hp
      obtain ⟨n, hn⟩ := Nat.exists_eq_succ_of_ne_zero (Nat.ne_of_gt hpos)
      have hbaton := h.baton
      rw [hn] at hbaton
      obtain ⟨_, rfl, hidle⟩ := hbaton.idle_of_pooled
      refine ⟨?_, fun j _ => hidle j⟩
      simp only [hi, remaining, hn, load_cons, load_nil, Call.weight]
      split <;> simp
    · obtain ⟨_, hscheduled, others⟩ := h.baton.of_busy hi
      exact ⟨((h.phase i hi).goes hscheduled ha hp).remaining_lt hscheduled, others⟩
  exact Baton.update_lt hlt.2 (remaining_nil_le impl') hlt.1 j

/-- Without further functions there is only so much left to do. -/
theorem Good.exists_length_le (h : Good s) : ∃ n, ∀ as s', (∀ a ∈ as, a.2.isInternal = true) →
    exec StrandExecutorService.step s as = some s' → as.length ≤ n := by
  obtain ⟨n, hn⟩ := h.baton.exists_bound (remaining_nil_le s.shared)
  refine ⟨n, fun as s' hall hexec => ?_⟩
  refine exec_length_le (I := Good) (B := fun s n => ∀ i, remaining s.shared (s.part i) ≤ n)
    (fun h ha hs => h.step (ok_of_isInternal ha) hs) (fun {s a s' n} h ha hs hn => ?_) h hn hall hexec
  have hlt := remaining_step h ha hs
  have hle := hn a.1
  refine ⟨n - 1, ?_, fun j => ?_⟩
  · have := hlt a.1
    omega
  · have := hlt j
    omega

/-- Nothing is left to do only when the lock is free. -/
theorem Good.unlocked_of_quiet (h : Good s) (hthread : 0 < s.shared.scheduled → Nonempty ι)
    (hquiet : ∀ i a, a.isInternal = true → StrandExecutorService.step s (i, a) = none) :
    s.shared.locked = false := by
  have hidle : ∀ i, s.part i = [] := by
    intro i
    by_contra hi
    obtain ⟨a, ha, hsome⟩ := (h.phase i hi).exists_goes
    have hnone : perform s.shared (s.part i) a = none := Option.map_eq_none_iff.mp (hquiet i a ha)
    rw [hnone] at hsome
    cases hsome
  have hpool : s.shared.scheduled = 0 := by
    by_contra hne
    obtain ⟨i⟩ := hthread (Nat.pos_of_ne_zero hne)
    have hnone := Option.map_eq_none_iff.mp (hquiet i .invoke rfl)
    simp [perform, hidle i, inUserCode, Nat.pos_of_ne_zero hne] at hnone
  by_contra hlocked
  rw [Bool.not_eq_false] at hlocked
  rcases h.baton.taken_iff.mp hlocked with ⟨hone, _⟩ | ⟨_, i, hi, _⟩
  · cases hpool.symm.trans hone
  · exact hi (hidle i)

end Runs

/-! ### The strand -/

def Call.isUpcall : Call α → Bool
  | .complete _ | .invoke _ => true
  | _ => false

/-- The thread is in a function of the strand. -/
def Executes (s : State ι α) (i : ι) : Prop := ∃ c ∈ s.part i, c.isUpcall = true

/-- The steps that look at `ready_queue_`, other than the one that shuts the strand down. -/
def Action.usesReadyQueue : Action α → Bool
  | .push | .front | .pop | .pushWaitingToReady => true
  | _ => false

theorem perform_readyQueue {a : Action α} (ha : a.usesReadyQueue = false) (hne : a ≠ .shutdown)
    (hp : perform impl calls a = some (impl', calls')) : impl'.readyQueue = impl.readyQueue := by
  cases a with
  | submit how op =>
    simp only [perform] at hp
    split_ifs at hp
    have hsubmits := submit_submits impl calls how op
    rw [Option.some_inj.mp hp] at hsubmits
    cases hsubmits <;> rfl
  | schedule atOnce | invoke | «return» | throw | reschedule =>
    simp only [perform] at hp
    split at hp <;> (try split_ifs at hp) <;> cases hp <;> rfl
  | push | front | pop | pushWaitingToReady => cases ha
  | shutdown => exact absurd rfl hne

/-- What holds at every moment. The lock is that of the invoker, from the call that is to schedule
it until it has looked at both queues for the last time. -/
structure Serialised (s : State ι α) : Prop where
  exclusive : ∀ i j, Executes s i → Executes s j → i = j
  nested : ∀ i, Executes s i → ∃ (op : α) (ops : List α),
    s.part i = ops.map Call.invoke ++ [.complete op, .runReadyHandlers]
  locked : s.shared.locked = true →
    (s.shared.scheduled = 1 ∧ ∀ i, s.part i = []) ∨
      (s.shared.scheduled = 0 ∧ ∃ i, s.part i ≠ [] ∧ ∀ j, j ≠ i → s.part j = [])
  unlocked : s.shared.locked = false → s.shared.scheduled = 0 ∧ (∀ i, s.part i = []) ∧
    s.shared.acquired = [] ∧ s.shared.readyQueue = [] ∧ s.shared.waitingQueue = []
  order : s.shared.completed <+: s.shared.enqueued
  once : s.shared.submitted.Nodup ∧ s.shared.submitted.Perm
    (s.shared.completed ++ s.shared.invoked ++ (s.shared.refused ++ s.shared.cut) ++
      (s.shared.acquired ++ s.shared.readyQueue ++ s.shared.waitingQueue))
  kept : s.shared.shutdown = false → s.shared.refused = [] ∧ s.shared.cut = []

section Claims

variable {s s' : State ι α}

theorem Good.serialised (h : Good s) (hrecords : Records s.shared) : Serialised s := by
  have hbusy {i : ι} (hi : Executes s i) : s.part i ≠ [] := by
    obtain ⟨c, hc, _⟩ := hi
    exact List.ne_nil_of_mem hc
  obtain ⟨cut, hcut, horder⟩ := hrecords.order
  refine ⟨fun i j hi hj => h.baton.eq_of_busy (hbusy hi) (hbusy hj), ?_, h.baton.taken_iff.mp, ?_,
    ?_, ⟨hrecords.nodup, ?_⟩, hrecords.opened⟩
  · intro i hi
    have hphase := h.phase i (hbusy hi)
    obtain ⟨c, hc, hup⟩ := hi
    generalize hcalls : s.part i = calls at hphase hc
    cases hphase with
    | @complete op ops => exact ⟨op, ops, rfl⟩
    | _ =>
      obtain rfl := List.mem_singleton.mp hc
      cases hup
  · intro hfree
    have hbaton := h.baton
    rw [hfree] at hbaton
    obtain ⟨hscheduled, hidle⟩ := hbaton.idle_of_not_taken
    exact ⟨hscheduled, hidle, h.idle hidle, h.unlocked hfree⟩
  · rw [horder]
    exact List.prefix_append _ _
  · have hall := hrecords.all
    rw [horder] at hall
    have hrest : (cut ++ (s.shared.invoked ++ s.shared.refused)).Perm
        (s.shared.invoked ++ (s.shared.refused ++ s.shared.cut)) := by
      refine List.perm_append_comm.trans ?_
      rw [List.append_assoc]
      exact (hcut.append_left _).append_left _
    have := (List.perm_append_comm.trans (hrest.append_right
      (s.shared.acquired ++ s.shared.readyQueue ++ s.shared.waitingQueue))).append_left
        s.shared.completed
    simpa only [List.append_assoc] using hall.trans (by simpa only [List.append_assoc] using this)

variable [DecidableEq ι]

/-- At most one thread is in functions of the strand, the lock is taken just when there is one
invoker, and only its thread uses the ready queue; functions are called in turn and once, none is
left behind, and without further ones all are called. -/
theorem serialised_of_reachable
    (h : Reachable step Ok (initial : State ι α) s) : Serialised s ∧
      (∀ i a s', step s (i, a) = some s' → (a.usesReadyQueue = true →
          s.shared.locked = true ∧ s.part i ≠ [] ∧ ∀ j, j ≠ i → s.part j = []) ∧
        (a.usesReadyQueue = false → a ≠ .shutdown →
          s'.shared.readyQueue = s.shared.readyQueue)) ∧
      (∃ n, ∀ as s', (∀ a ∈ as, a.2.isInternal = true) → exec step s as = some s' →
        as.length ≤ n) ∧
      ((∀ i a, a.isInternal = true → step s (i, a) = none) → s.shared.locked = false) := by
  have hgood := Good.reachable h
  refine ⟨hgood.serialised (.reachable h), fun i a s' hs => ⟨fun ha => ?_, fun ha hne => ?_⟩,
    hgood.exists_length_le, hgood.unlocked_of_quiet fun hpos => ?_⟩
  · obtain ⟨impl', calls', hp, rfl⟩ := step_eq_some.mp hs
    have hi : s.part i ≠ [] := by
      intro hnil
      simp only [hnil] at hp
      cases a <;> cases ha <;> cases hp
    obtain ⟨hlocked, _, others⟩ := hgood.baton.of_busy hi
    exact ⟨hlocked, hi, others⟩
  · obtain ⟨impl', calls', hp, rfl⟩ := step_eq_some.mp hs
    exact perform_readyQueue ha hne hp
  · cases h with
    | start => cases hpos
    | step _ _ _ => rename_i a _ _ _; exact ⟨a.1⟩

/-- The second function is given while the first one waits; the first one calls a third at once, and
ends with an exception. -/
def throwing : List (Fin 2 × Action Nat) :=
  [(0, .submit .post 1), (1, .submit (.execute false) 2), (0, .push), (0, .schedule false),
    (1, .invoke), (1, .front), (1, .pop), (1, .submit .dispatch 3), (1, .return), (1, .throw),
    (1, .pushWaitingToReady), (1, .reschedule), (0, .invoke), (0, .front), (0, .pop)]

theorem serialised_throwing :
    ∃ s : State (Fin 2) Nat, exec (guarded step Ok) initial throwing = some s ∧ Serialised s := by
  have hrun : (exec (guarded (step (ι := Fin 2) (α := Nat)) Ok) initial throwing).isSome = true := by
    decide +kernel
  obtain ⟨s, hs⟩ := Option.isSome_iff_exists.mp hrun
  exact ⟨s, hs, (serialised_of_reachable (exec_guarded_reachable hs)).1⟩

end Claims

end Asio.Detail.StrandExecutorService
