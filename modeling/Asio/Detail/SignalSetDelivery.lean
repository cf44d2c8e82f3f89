import Mathlib.Algebra.GroupWithZero.Nat
import Mathlib.Algebra.BigOperators.Group.List.Basic
import Asio.Detail.SignalSetRuns

/-! No signal that is delivered gets lost: it completes the operations that wait for it, or stays
undelivered until an operation asks for it. -/

universe u

namespace Asio.Detail.SignalSetService

open Asio.Lib LinkedList Transition

set_option linter.unusedSectionVars false

variable {υ ι ρ : Type u} [DecidableEq υ] [DecidableEq ι] [DecidableEq ρ]
variable {s s' : SignalState υ ι ρ} {set : ι → List ρ} {table : υ → Int → List ρ}
variable {cfg : Config υ} {a : Action υ ι ρ} {impl : ι} {n : Int} {reg : ρ}

def totalUndelivered (s : SignalState υ ι ρ) : Nat :=
  (s.allocated.map s.undelivered).sum

/-- The lowest registration of a set that has a signal to deliver. -/
def Lowest (s : SignalState υ ι ρ) (impl : ι) (reg : ρ) : Prop :=
  reg ∈ s.allocated ∧ s.queue reg = impl ∧ 0 < s.undelivered reg ∧
    ∀ q ∈ s.allocated, s.queue q = impl → 0 < s.undelivered q →
      s.signalNumber reg ≤ s.signalNumber q

/-! ### One delivery -/

section Deliveries

/-- What the delivery of `n` to the registrations `regs` of different sets does. -/
structure Delivers (n : Int) (s : SignalState υ ι ρ) (regs : List ρ) (s' : SignalState υ ι ρ) :
    Prop where
  opQueue : ∀ i, s'.opQueue i = if i ∈ regs.map s.queue then [] else s.opQueue i
  undelivered : ∀ p, s'.undelivered p = s.undelivered p +
    if p ∈ regs ∧ s.opQueue (s.queue p) = [] then 1 else 0
  posted : s'.posted = s.posted ++
    regs.flatMap fun p => (s.opQueue (s.queue p)).map (SignalOp.receive n)
  missed : s'.missed = s.missed + regs.countP fun p => s.opQueue (s.queue p) = []
  immediate : s'.immediate = s.immediate
  dropped : s'.dropped = s.dropped

theorem deliverTo_delivers (s : SignalState υ ι ρ) (n : Int) (reg : ρ) :
    Delivers n s [reg] (deliverTo s n reg) := by
  rw [deliverTo]
  split
  · rename_i hnil
    refine ⟨fun i => ?_, fun p => ?_, ?_, ?_, rfl, rfl⟩
    · simp only [setUndelivered, List.map_cons, List.map_nil, List.mem_singleton]
      split
      · rename_i hi
        rw [hi, hnil]
      · rfl
    · simp only [setUndelivered, Function.update_apply, List.mem_singleton]
      split
      · rename_i hp
        subst hp
        simp [hnil]
      · rename_i hp
        simp [hp]
    · simp [setUndelivered, hnil]
    · simp [hnil]
  · rename_i hwaiting
    refine ⟨fun i => ?_, fun p => ?_, ?_, ?_, rfl, rfl⟩
    · simp [postDeferredCompletions, setQueue, Function.update_apply]
    · simp only [postDeferredCompletions, setQueue, List.mem_singleton]
      split
      · rename_i hp
        exact absurd (hp.1 ▸ hp.2) hwaiting
      · rfl
    · simp [postDeferredCompletions, setQueue]
    · simp [postDeferredCompletions, setQueue, hwaiting]

theorem deliverAll_delivers (s : SignalState υ ι ρ) (n : Int) {regs : List ρ}
    (hnodup : (regs.map s.queue).Nodup) : Delivers n s regs (deliverAll s n regs) := by
  induction regs generalizing s with
  | nil => exact ⟨by simp [deliverAll], by simp [deliverAll], by simp [deliverAll], rfl, rfl, rfl⟩
  | cons reg regs ih =>
    have first := deliverTo_delivers s n reg
    have queue := (deliverTo_waits s n reg).queue
    rw [List.map_cons, List.nodup_cons] at hnodup
    have rest := ih (deliverTo s n reg) (by rw [queue]; exact hnodup.2)
    have other (p : ρ) (hp : p ∈ regs) : (deliverTo s n reg).opQueue (s.queue p) =
        s.opQueue (s.queue p) := by
      rw [first.opQueue, if_neg]
      intro hmem
      have heq : s.queue p = s.queue reg := by simpa using hmem
      exact hnodup.1 (heq ▸ List.mem_map_of_mem hp)
    have hreg : reg ∉ regs := fun hmem => hnodup.1 (List.mem_map_of_mem hmem)
    have unfolded : deliverAll s n (reg :: regs) = deliverAll (deliverTo s n reg) n regs := rfl
    rw [unfolded]
    refine ⟨fun i => ?_, fun p => ?_, ?_, ?_, rest.immediate.trans first.immediate,
      rest.dropped.trans first.dropped⟩
    · rw [rest.opQueue, first.opQueue, queue]
      grind
    · rw [rest.undelivered, first.undelivered, queue]
      by_cases hp : p ∈ regs
      · have hne : p ≠ reg := by
          rintro rfl
          exact hreg hp
        simp [other p hp, hp, hne]
      · simp [hp]
    · rw [rest.posted, first.posted, List.flatMap_cons, queue, List.append_assoc]
      simp only [List.flatMap_cons, List.flatMap_nil, List.append_nil]
      congr 2
      exact List.flatMap_congr fun p hp => by rw [other p hp]
    · rw [rest.missed, first.missed, queue, List.countP_cons]
      have same : (regs.countP fun p => (deliverTo s n reg).opQueue (s.queue p) = []) =
          regs.countP fun p => s.opQueue (s.queue p) = [] :=
        List.countP_congr fun p hp => by rw [other p hp]
      rw [same, List.countP_cons, List.countP_nil]
      omega

/-- The registrations for one signal, over all services. -/
theorem Managed.mem_deliver (h : Managed s set table) (p : ρ) :
    (p ∈ s.serviceList.flatMap fun v => table v n) ↔ p ∈ s.allocated ∧ s.signalNumber p = n := by
  simp only [List.mem_flatMap, h.tabled.mem]
  constructor
  · rintro ⟨v, -, hp, -, hn⟩
    exact ⟨hp, hn⟩
  · rintro ⟨hp, hn⟩
    refine ⟨s.service (s.queue p), h.hosted _ (.inr ?_), hp, rfl, hn⟩
    exact List.ne_nil_of_mem ((h.allocated p).1 hp)

/-- They belong to different sets. -/
theorem Managed.deliver_nodup (h : Managed s set table) (n : Int) :
    ((s.serviceList.flatMap fun v => table v n).map s.queue).Nodup := by
  have nodup : (s.serviceList.flatMap fun v => table v n).Nodup := by
    rw [List.nodup_flatMap]
    refine ⟨fun v _ => (h.tabled.links v n).nodup, h.services.imp fun hne p hp hp' => hne ?_⟩
    have here := (h.tabled.mem _ _ _).1 hp
    have there := (h.tabled.mem _ _ _).1 hp'
    exact here.2.1.symm.trans there.2.1
  refine (List.nodup_map_iff_inj_on nodup).2 fun p hp q hq heq => ?_
  obtain ⟨hp, hpn⟩ := (h.mem_deliver p).1 hp
  obtain ⟨hq, hqn⟩ := (h.mem_deliver q).1 hq
  refine h.listed.eq_of_signalNumber ((h.allocated p).1 hp) ?_ (hpn.trans hqn.symm)
  rw [heq]
  exact (h.allocated q).1 hq

theorem deliverSignal_delivers (h : Managed s set table) (hs : deliverSignal s n = some s') :
    Waits s s' ∧ Delivers n s (s.serviceList.flatMap fun v => table v n) s' := by
  rw [deliverSignal_spec h.toRegistered, Option.some.injEq] at hs
  subst hs
  exact ⟨deliverAll_waits .., deliverAll_delivers s n (h.deliver_nodup n)⟩

end Deliveries

/-! ### Waiting -/

section Waiting

/-- An operation on a set takes the lowest signal that is not delivered, or waits. -/
def Serves (s : SignalState υ ι ρ) (impl : ι) (op : SignalOp) (s' : SignalState υ ι ρ) : Prop :=
  (∃ reg, Lowest s impl reg ∧
    s'.undelivered = Function.update s.undelivered reg (s.undelivered reg - 1) ∧
    s'.posted = s.posted ++ [op.receive (s.signalNumber reg)] ∧ s'.opQueue = s.opQueue ∧
    s'.immediate = s.immediate + 1) ∨
  (∀ q ∈ s.allocated, s.queue q = impl → s.undelivered q = 0) ∧
    s'.undelivered = s.undelivered ∧ s'.posted = s.posted ∧
    s'.opQueue = Function.update s.opQueue impl (s.opQueue impl ++ [op]) ∧
    s'.immediate = s.immediate

theorem startWith_serves (h : Managed s set table) (impl : ι) (op : SignalOp) :
    Serves s impl op (startWith s impl op ((set impl).find? (0 < s.undelivered ·))) := by
  cases hfind : (set impl).find? (0 < s.undelivered ·) with
  | none =>
    refine .inr ⟨fun q hq hqueue => ?_, rfl, rfl, rfl, rfl⟩
    have hmem := (h.allocated q).1 hq
    rw [hqueue] at hmem
    have hnone := List.find?_eq_none.1 hfind q hmem
    simpa using hnone
  | some reg =>
    obtain ⟨hpos, xs, ys, hset, hbefore⟩ := List.find?_eq_some_iff_append.1 hfind
    have hreg : reg ∈ set impl := by simp [hset]
    have hqueue := h.listed.queue impl reg hreg
    refine .inl ⟨reg, ⟨(h.allocated reg).2 (hqueue ▸ hreg), hqueue, by simpa using hpos, ?_⟩, rfl,
      rfl, rfl, rfl⟩
    intro q hq hqqueue hqpos
    have hmem := (h.allocated q).1 hq
    have sorted := h.listed.sorted impl
    rw [hqqueue, hset, List.mem_append] at hmem
    rw [hset, List.pairwise_append, List.pairwise_cons] at sorted
    rcases hmem with hx | hy
    · have hnot := hbefore q hx
      simp only [hqpos, decide_true, Bool.not_true, Bool.false_eq_true] at hnot
    · cases hy with
      | head => exact Int.le_refl _
      | tail _ hmem => exact Int.le_of_lt (sorted.2.1.1 q hmem)

end Waiting

/-! ### Runs -/

section Runs

/-- Signals stay undelivered only where nothing waits, and none is lost. -/
structure Served (s : SignalState υ ι ρ) : Prop where
  waiting : ∀ p ∈ s.allocated, 0 < s.undelivered p → s.opQueue (s.queue p) = []
  conserved : s.immediate + totalUndelivered s + s.dropped = s.missed

theorem sum_update {l : List ρ} {f : ρ → Nat} {p : ρ} {m : Nat} (hl : l.Nodup) (hp : p ∈ l) :
    (l.map (Function.update f p m)).sum + f p = (l.map f).sum + m := by
  have hperm := List.perm_cons_erase hp
  have rest : (l.erase p).map (Function.update f p m) = (l.erase p).map f :=
    List.map_congr_left fun q hq => Function.update_of_ne (hl.mem_erase_iff.1 hq).1 ..
  rw [(hperm.map f).sum_eq, (hperm.map (Function.update f p m)).sum_eq, List.map_cons, List.map_cons,
    List.sum_cons, List.sum_cons, rest, Function.update_self]
  omega

theorem sum_add_ite {l : List ρ} {f : ρ → Nat} {q : ρ → Bool} :
    (l.map fun p => f p + if q p then 1 else 0).sum = (l.map f).sum + l.countP q := by
  induction l with
  | nil => rfl
  | cons p l ih =>
    rw [List.map_cons, List.sum_cons, ih, List.map_cons, List.sum_cons, List.countP_cons]
    omega

theorem Served.adds (h : Served s) (hnew : reg ∉ s.allocated) (adds : Adds s impl n reg s') :
    Served s' where
  waiting p hp hpos := by
    rw [adds.allocated, List.mem_cons] at hp
    rw [adds.undelivered] at hpos
    rw [adds.opQueue, adds.queue]
    rcases hp with rfl | hp
    · simp at hpos
    · have hne : p ≠ reg := by
        rintro rfl
        exact hnew hp
      rw [Function.update_of_ne hne] at hpos ⊢
      exact h.waiting p hp hpos
  conserved := by
    have same : s.allocated.map (Function.update s.undelivered reg 0) =
        s.allocated.map s.undelivered := by
      refine List.map_congr_left fun p hp => Function.update_of_ne ?_ ..
      rintro rfl
      exact hnew hp
    have before := h.conserved
    simp only [totalUndelivered] at before
    rw [totalUndelivered, adds.allocated, adds.undelivered, adds.immediate, adds.dropped,
      adds.missed, List.map_cons, List.sum_cons, Function.update_self, same]
    omega

theorem Served.dropsAll (h : Served s) {regs : List ρ} (hsub : regs.Subperm s.allocated)
    (drops : DropsAll s regs s') : Served s' where
  waiting p hp hpos := by
    rw [drops.allocated] at hp
    rw [drops.undelivered] at hpos
    rw [drops.opQueue, drops.queue]
    exact h.waiting p (List.diff_subset _ _ hp) hpos
  conserved := by
    have before := h.conserved
    have hperm := (List.subperm_append_diff_self_of_count_le
      (List.subperm_ext_iff.1 hsub)).map s.undelivered
    have sum := hperm.sum_eq
    rw [List.map_append, List.sum_append] at sum
    rw [totalUndelivered] at before
    rw [totalUndelivered, drops.allocated, drops.undelivered, drops.immediate, drops.dropped,
      drops.missed]
    omega

theorem Served.drops (h : Served s) (hreg : reg ∈ s.allocated) (drops : Drops s reg s') :
    Served s' := by
  refine h.dropsAll (show List.Subperm [reg] s.allocated from List.singleton_subperm_iff.2 hreg)
    ⟨drops.toRewires, drops.signalNumber, drops.queue, drops.undelivered, ?_, ?_⟩
  · rw [drops.allocated, List.diff_cons, List.diff_nil]
  · rw [drops.dropped]
    simp

theorem Served.serves (h : Served s) (hnodup : s.allocated.Nodup) {op : SignalOp}
    (w : Waits s s') (hdropped : s'.dropped = s.dropped) (hmissed : s'.missed = s.missed)
    (hs : Serves s impl op s') : Served s' := by
  have before := h.conserved
  rw [totalUndelivered] at before
  rcases hs with ⟨reg, ⟨hreg, -, hpos, -⟩, hund, -, hqueue, himm⟩ | ⟨hnone, hund, -, hqueue, himm⟩
  · constructor
    · intro p hp hp'
      rw [w.allocated] at hp
      rw [hund, Function.update_apply] at hp'
      rw [hqueue, w.queue]
      apply h.waiting p hp
      split at hp'
      · rename_i heq
        rwa [heq]
      · exact hp'
    · have sum := sum_update (m := s.undelivered reg - 1) hnodup hreg (f := s.undelivered)
      rw [totalUndelivered, w.allocated, hund, himm, hdropped, hmissed]
      omega
  · constructor
    · intro p hp hp'
      rw [w.allocated] at hp
      rw [hund] at hp'
      rw [hqueue, w.queue, Function.update_of_ne]
      · exact h.waiting p hp hp'
      · intro heq
        have zero := hnone p hp heq
        omega
    · rw [totalUndelivered, w.allocated, hund, himm, hdropped, hmissed]
      exact before

theorem Served.delivers (h : Served s) {regs : List ρ} (w : Waits s s')
    (hregs : regs.Perm (s.allocated.filter (s.signalNumber · = n))) (hd : Delivers n s regs s') :
    Served s' where
  waiting p hp hpos := by
    rw [w.allocated] at hp
    rw [hd.undelivered] at hpos
    rw [hd.opQueue, w.queue]
    split
    · rfl
    · rename_i hout
      have hout' : p ∉ regs := fun hmem => hout (List.mem_map_of_mem hmem)
      apply h.waiting p hp
      simpa [hout'] using hpos
  conserved := by
    have before := h.conserved
    have sum := sum_add_ite (l := s.allocated) (f := s.undelivered)
      (q := fun p => p ∈ regs ∧ s.opQueue (s.queue p) = [])
    have same : (s.allocated.countP fun p => p ∈ regs ∧ s.opQueue (s.queue p) = []) =
        regs.countP fun p => s.opQueue (s.queue p) = [] := by
      rw [hregs.countP_eq, List.countP_filter]
      apply List.countP_congr
      intro p hp
      simp [hregs.mem_iff, hp, and_comm]
    have total : s.allocated.map s'.undelivered = s.allocated.map fun p =>
        s.undelivered p + if (p ∈ regs ∧ s.opQueue (s.queue p) = []) then 1 else 0 :=
      List.map_congr_left fun p _ => hd.undelivered p
    simp only [decide_eq_true_eq] at sum
    rw [totalUndelivered] at before
    rw [totalUndelivered, w.allocated, total, hd.immediate, hd.dropped, hd.missed, sum, same]
    omega

theorem Served.same (h : Served s) (hallocated : s'.allocated = s.allocated)
    (hqueue : ∀ p ∈ s.allocated, s.opQueue (s.queue p) = [] → s'.opQueue (s.queue p) = [])
    (hreg : s'.queue = s.queue) (hund : s'.undelivered = s.undelivered)
    (himm : s'.immediate = s.immediate) (hdropped : s'.dropped = s.dropped)
    (hmissed : s'.missed = s.missed) : Served s' where
  waiting p hp hpos := by
    rw [hallocated] at hp
    rw [hund] at hpos
    rw [hreg]
    exact hqueue p hp (h.waiting p hp hpos)
  conserved := by
    rw [totalUndelivered, hallocated, hund, himm, hdropped, hmissed]
    exact h.conserved

theorem Managed.deliver_perm (h : Managed s set table) (n : Int) :
    (s.serviceList.flatMap fun v => table v n).Perm
      (s.allocated.filter (s.signalNumber · = n)) := by
  rw [List.perm_ext_iff_of_nodup (h.deliver_nodup n).of_map (h.nodup.filter _)]
  intro p
  rw [h.mem_deliver, List.mem_filter, decide_eq_true_iff]

theorem Managed.take_subperm (h : Managed s set table) (impl : ι) (k : Nat) :
    ((set impl).take k).Subperm s.allocated := by
  refine List.subperm_of_subset ((h.listed.nodup impl).sublist (List.take_sublist ..)) ?_
  intro p hp
  have hmem := List.mem_of_mem_take hp
  rw [h.allocated, h.listed.queue impl p hmem]
  exact hmem

theorem Served.cancel (h : Served s) (impl : ι) : Served (cancel s impl) := by
  refine h.same rfl (fun p _ hnil => ?_) rfl rfl rfl rfl rfl
  simp only [SignalSetService.cancel, postDeferredCompletions, setQueue, Function.update_apply]
  split
  · rfl
  · exact hnil

theorem step_served (h : Managed s set table) (served : Served s) (legal : Legal cfg s a)
    (hs : step cfg s a = some s') : Served s' := by
  cases a with
  | addService v =>
    obtain rfl := Option.some.inj hs
    have same (s' : SignalState υ ι ρ) (hs' : s' = addService cfg s v) : Served s' := by
      simp only [addService] at hs'
      split at hs'
      · subst hs'
        exact served.same rfl (fun _ _ => id) rfl rfl rfl rfl rfl
      · split at hs'
        · subst hs'
          exact served
        · subst hs'
          exact served.same rfl (fun _ _ => id) rfl rfl rfl rfl rfl
    exact same _ rfl
  | construct v impl =>
    obtain rfl := Option.some.inj hs
    refine served.same rfl (fun p _ hnil => ?_) rfl rfl rfl rfl rfl
    simp only [succeed, construct, Function.update_apply]
    split
    · rfl
    · exact hnil
  | add impl n reg ok =>
    obtain ⟨⟨s'', e⟩, hb, -, hsame | ⟨adds, -⟩⟩ := add_spec cfg h.toRegistered impl n legal.2 ok
    · simp only [step, perform, hb, Option.map_some, Option.some.injEq] at hs
      dsimp only at hsame
      rw [← hs, hsame]
      exact served
    · simp only [step, perform, hb, Option.map_some, Option.some.injEq] at hs
      exact hs ▸ served.adds legal.2 adds
  | remove impl n ok =>
    obtain ⟨⟨s'', e⟩, hb, -, hsame | ⟨xs, reg, ys, hset, hdrop⟩⟩ :=
      remove_spec cfg h.toRegistered impl n ok
    · simp only [step, perform, hb, Option.map_some, Option.some.injEq] at hs
      dsimp only at hsame
      rw [← hs, hsame]
      exact served
    · simp only [step, perform, hb, Option.map_some, Option.some.injEq] at hs
      have hmem : reg ∈ set impl := by simp [hset]
      have hreg : reg ∈ s.allocated := by
        rw [h.allocated, h.listed.queue impl reg hmem]
        exact hmem
      dsimp only at hdrop
      rw [← hs, hdrop]
      exact served.drops hreg (drop_drops s impl xs.getLast? reg)
  | clear impl ok =>
    obtain ⟨k, e, hb, -⟩ := clear_spec h.toRegistered impl ok
    simp only [step, perform, hb, Option.map_some, Option.some.injEq] at hs
    exact hs ▸ served.dropsAll (h.take_subperm impl k) (dropAll_drops ..)
  | cancel impl =>
    obtain rfl := Option.some.inj hs
    exact served.cancel impl
  | cancelOpsByKey impl key =>
    obtain rfl := Option.some.inj hs
    refine served.same rfl (fun p _ hnil => ?_) rfl rfl rfl rfl rfl
    simp only [succeed, cancelOpsByKey, postDeferredCompletions, setQueue, Function.update_apply]
    split
    · rename_i heq
      rw [← heq, hnil, List.filter_nil]
    · exact hnil
  | startWaitOp impl id key =>
    have hb := startWaitOp_spec h.toRegistered impl (.start id key)
    simp only [step, perform, hb, Option.map_some, Option.some.injEq] at hs
    subst hs
    refine served.serves h.nodup (startWith_waits ..) ?_ ?_ (startWith_serves h impl _)
    · simp only [succeed]
      cases (set impl).find? (0 < s.undelivered ·) <;> rfl
    · simp only [succeed]
      cases (set impl).find? (0 < s.undelivered ·) <;> rfl
  | deliverSignal n =>
    have hb := deliverSignal_spec h.toRegistered n
    simp only [step, perform, hb, Option.map_some, Option.some.injEq] at hs
    obtain ⟨w, delivers⟩ := deliverSignal_delivers h hb
    exact hs ▸ served.delivers w (h.deliver_perm n) delivers
  | destroy impl ok =>
    obtain ⟨k, e, hb, -⟩ := clear_spec h.toRegistered impl ok
    simp only [step, perform, destroy, hb, Option.map_some, Option.some.injEq] at hs
    have cleared := served.dropsAll (h.take_subperm impl k) (dropAll_drops s impl _)
    subst hs
    exact (cleared.cancel impl).same rfl (fun _ _ => id) rfl rfl rfl rfl rfl

variable [Inhabited υ] [Inhabited ι]

theorem initial_served : Served (initial : SignalState υ ι ρ) :=
  ⟨by simp [initial], rfl⟩

end Runs

end Asio.Detail.SignalSetService
