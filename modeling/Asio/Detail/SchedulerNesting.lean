import Asio.Detail.SchedulerWork
import Asio.Detail.SchedulerConservation

/-! One thread runs the scheduler, and its handlers call `poll` and `poll_one` again. -/

universe u

namespace Asio.Detail.Scheduler

open Asio.Lib Asio.Lib.Transition

set_option linter.unusedSectionVars false

variable {τ : Type u} [DecidableEq τ]

/-! ### Operations that were ready -/

/-- The operation is on the queue, or has been completed. -/
def Reached (w : World τ) (id : Nat) : Prop :=
  id ∈ w.completed ∨ .handler id ∈ w.scheduler.opQueue

/-- Of every call, the operations that were ready when it began are `P`, or are executed by it or
by one nested in it. -/
def Covers (P : Nat → Prop) : List Call → Prop
  | [] => True
  | c :: rest => (∀ id ∈ c.ready, P id ∨ c.pc = .execute (.handler id)) ∧
    Covers (fun id => P id ∨ c.pc = .execute (.handler id)) rest

namespace Covers

variable {P Q : Nat → Prop} {c c' : Call} {rest calls : List Call}

theorem mono (h : Covers P calls) (hpq : ∀ id, P id → Q id) : Covers Q calls := by
  induction calls generalizing P Q with
  | nil => trivial
  | cons c rest ih =>
    have either (id : Nat) : P id ∨ c.pc = .execute (.handler id) →
        Q id ∨ c.pc = .execute (.handler id) := .imp_left (hpq id)
    exact ⟨fun id hid => either id (h.1 id hid), ih h.2 either⟩

theorem top (h : Covers P (c :: rest)) (hready : c'.ready = c.ready)
    (hpq : ∀ id, P id ∨ c.pc = .execute (.handler id) → Q id ∨ c'.pc = .execute (.handler id)) :
    Covers Q (c' :: rest) := by
  refine ⟨fun id hid => hpq id (h.1 id ?_), h.2.mono hpq⟩
  rw [← hready]
  exact hid

theorem pop (h : Covers P (c :: rest))
    (hpq : ∀ id, P id ∨ c.pc = .execute (.handler id) → Q id) : Covers Q rest :=
  h.2.mono hpq

theorem push (h : Covers P calls) (hready : c.ready = []) : Covers P (c :: calls) :=
  ⟨by simp [hready], h.mono fun _ => .inl⟩

/-- A call that executes an operation is on the stack. -/
theorem reached (h : Covers P calls) (hc : c ∈ calls) {id : Nat} (hid : id ∈ c.ready) :
    P id ∨ ∃ d ∈ calls, d.pc = .execute (.handler id) := by
  induction calls generalizing P with
  | nil => cases hc
  | cons d rest ih =>
    cases hc with
    | head => exact (h.1 id hid).imp_right fun hpc => ⟨c, List.mem_cons_self, hpc⟩
    | tail _ hmem =>
      rcases ih h.2 hmem with (hp | hpc) | ⟨e, he, hpc⟩
      · exact .inl hp
      · exact .inr ⟨d, List.mem_cons_self, hpc⟩
      · exact .inr ⟨e, List.mem_cons_of_mem _ he, hpc⟩

end Covers

/-! ### What a step does to calls and their returns -/

def Action.MayStop (act : Action) (w : World τ) : Prop :=
  act.MayFinish ∨ (∃ entry, act = .call entry) ∧ w.scheduler.outstandingWork = 0

/-- A call keeps what it has recorded, or has just begun. -/
def Keeps (a : World τ × Thread) (c : Call) : Prop :=
  (∃ c' ∈ a.2.calls, c.ready = c'.ready) ∨ c.ready = [] ∨
    a.1.scheduler.stopped = false ∧ a.2.pending = .idle

/-- A `poll` returns when all that was ready has been completed, or because the scheduler was
stopped or had no outstanding work. -/
def Justified (a b : World τ × Thread) (r : Return) : Prop :=
  r.entry = .poll → r.value ≠ none →
    (∀ id ∈ r.ready, id ∈ b.1.completed) ∨
    a.1.scheduler.stopped = true ∧ (r.ready = [] ∨ ∃ c ∈ a.2.calls, r.ready = c.ready) ∨
    a.1.scheduler.outstandingWork = 0 ∧ ∀ id ∈ r.ready,
      .handler id ∈ a.1.scheduler.opQueue ∨ .handler id ∈ a.2.held

structure Moves (act : Action) (a b : World τ × Thread) : Prop where
  covers : Covers (Reached a.1) a.2.calls → Covers (Reached b.1) b.2.calls
  reached : a.2.calls = [] → ∀ id, Reached a.1 id → Reached b.1 id
  stopped : b.1.scheduler.stopped = true → a.1.scheduler.stopped = true ∨ a.2.pending = .stop
  pending : b.2.pending = .stop → a.2.pending = .stop ∨ act.MayStop a.1
  keeps : ∀ c ∈ b.2.calls, Keeps a c
  outside : a.2.calls = [] → b.2.calls = [] ∨ ∃ entry, act = .call entry
  returned : Covers (Reached a.1) a.2.calls → ∀ r ∈ b.1.returned,
    r ∈ a.1.returned ∨ (a.2.calls ≠ [] ∨ ∃ entry, act = .call entry) ∧ Justified a b r

section Moves

variable {act : Action} {a : World τ × Thread} {w w' : World τ} {s : Scheduler τ} {c c' : Call}
variable {rest : List Call} {thr thr' : Thread}

theorem keeps_of_mem {d : Call} (h : d ∈ a.2.calls) : Keeps a d := .inl ⟨d, h, rfl⟩

theorem proceed_covers {r : Scheduler τ × Next} (hr : Takes s r)
    (h : Covers (Reached (w.put s)) ({ c with pc := .again } :: rest)) :
    Covers (Reached (proceed w c rest r).1) (proceed w c rest r).2.calls := by
  obtain ⟨s', next⟩ := r
  have queue := hr.opQueue
  dsimp only at queue
  have moved {pc : Pc} (hpc : ∀ id, .handler id ∈ next.taken → pc = .execute (.handler id)) :
      Covers (Reached (w.put s')) ({ c with pc := pc } :: rest) := by
    refine h.top rfl ?_
    rintro id ((hdone | hqueued) | hpc')
    · exact .inl (.inl hdone)
    · rw [World.scheduler_put, queue, List.mem_append] at hqueued
      rcases hqueued with htaken | hleft
      · exact .inr (hpc id htaken)
      · exact .inl (.inr hleft)
    · cases hpc'
  cases next with
  | wait => exact moved fun id hid => by simp [Next.taken] at hid
  | task usec => exact moved fun id hid => by simp [Next.taken] at hid
  | execute op => exact moved fun id hid => by rw [List.mem_singleton.1 hid]
  | ret =>
    refine h.pop ?_
    rintro id ((hdone | hqueued) | hpc')
    · exact .inl hdone
    · rw [World.scheduler_put, queue] at hqueued
      exact .inr hqueued
    · cases hpc'

/-- The section of a pass, after the queues have been put in order in `s`. -/
theorem proceed_moves {r : Scheduler τ × Next} (hr : Takes s r) (hnone : a.2.calls ≠ [])
    (hcovers : Covers (Reached a.1) a.2.calls →
      Covers (Reached (w.put s)) ({ c with pc := .again } :: rest))
    (hstop : s.stopped = a.1.scheduler.stopped) (hreturned : w.returned = a.1.returned)
    (hkeeps : ∀ d ∈ c :: rest, Keeps a d)
    (hready : a.1.scheduler.stopped = true → c.ready = [] ∨ ∃ d ∈ a.2.calls, c.ready = d.ready)
    (hpoll : c.entry = .poll → r.2 = .ret → s.stopped = true ∨ ∀ id, .handler id ∉ s.opQueue) :
    Moves act a (proceed w c rest r) where
  covers hc := proceed_covers hr (hcovers hc)
  reached hnil := absurd hnil hnone
  stopped hstopped := by
    left
    rw [← hstop, ← hr.stopped]
    obtain ⟨s', next⟩ := r
    cases next <;> exact hstopped
  pending hpending := by
    obtain ⟨s', next⟩ := r
    cases next <;> cases hpending
  keeps d hd := by
    obtain ⟨s', next⟩ := r
    have top (pc : Pc) (hd : d ∈ { c with pc := pc } :: rest) : Keeps a d := by
      cases hd with
      | head => exact hkeeps c List.mem_cons_self
      | tail _ hmem => exact hkeeps d (List.mem_cons_of_mem _ hmem)
    cases next with
    | wait => exact top _ hd
    | task usec => exact top _ hd
    | execute op => exact top _ hd
    | ret => exact hkeeps d (List.mem_cons_of_mem _ hd)
  outside hnil := absurd hnil hnone
  returned hc q hq := by
    obtain ⟨s', next⟩ := r
    cases next with
    | wait | task usec | execute op => exact .inl (hreturned ▸ hq)
    | ret =>
      simp only [proceed, leave, World.put, List.mem_append, List.mem_singleton] at hq
      rcases hq with hq | rfl
      · exact .inl (hreturned ▸ hq)
      · refine .inr ⟨.inl hnone, fun hentry _ => ?_⟩
        rcases hpoll hentry rfl with hstopped | hempty
        · have hstopped' := hstop.symm.trans hstopped
          exact .inr (.inl ⟨hstopped', hready hstopped'⟩)
        · left
          intro id hid
          rcases (hcovers hc).1 id hid with (hdone | hqueued) | hpc
          · exact hdone
          · exact absurd hqueued (hempty id)
          · cases hpc

/-- A call is left that is no `poll`, or through an exception. -/
theorem leave_moves {value : Option Nat} (hnone : a.2.calls ≠ [])
    (hcovers : Covers (Reached a.1) a.2.calls →
      Covers (Reached w) ({ c with pc := .again } :: rest))
    (hstop : w.scheduler.stopped = a.1.scheduler.stopped) (hreturned : w.returned = a.1.returned)
    (hkeeps : ∀ d ∈ rest, Keeps a d) (hvalue : value = none ∨ c.entry ≠ .poll) :
    Moves act a (leave w c rest value) where
  covers hc := by
    refine (hcovers hc).pop ?_
    rintro id (hreached | hpc)
    · exact hreached
    · cases hpc
  reached hnil := absurd hnil hnone
  stopped hstopped := .inl (hstop ▸ hstopped)
  pending hpending := by cases hpending
  keeps := hkeeps
  outside hnil := absurd hnil hnone
  returned _ q hq := by
    simp only [leave, List.mem_append, List.mem_singleton] at hq
    rcases hq with hq | rfl
    · exact .inl (hreturned ▸ hq)
    · refine .inr ⟨.inl hnone, fun hentry hreturns => ?_⟩
      rcases hvalue with hthrown | hother
      · exact absurd hthrown hreturns
      · exact absurd hentry hother

/-- The innermost call goes on. -/
theorem top_moves {pending' : Pending} (hready : c'.ready = c.ready)
    (hreached : ∀ id, Reached w id ∨ c.pc = .execute (.handler id) →
      Reached w' id ∨ c'.pc = .execute (.handler id))
    (hstop : w'.scheduler.stopped = w.scheduler.stopped) (hreturned : w'.returned = w.returned)
    (hpending : pending' = .stop → act.MayFinish) :
    Moves act (w, ⟨c :: rest, .idle⟩) (w', ⟨c' :: rest, pending'⟩) where
  covers hc := hc.top hready hreached
  reached hnil := by cases hnil
  stopped hstopped := .inl (hstop ▸ hstopped)
  pending hp := .inr (.inl (hpending hp))
  keeps d hd := by
    cases hd with
    | head => exact .inl ⟨c, List.mem_cons_self, hready⟩
    | tail _ hmem => exact keeps_of_mem (List.mem_cons_of_mem _ hmem)
  outside hnil := by cases hnil
  returned _ q hq := .inl (hreturned ▸ hq)

/-- The calls stay as they are. -/
theorem pend_moves (hcalls : thr'.calls = thr.calls) (hreached : ∀ id, Reached w id → Reached w' id)
    (hstop : w'.scheduler.stopped = true → w.scheduler.stopped = true ∨ thr.pending = .stop)
    (hreturned : w'.returned = w.returned)
    (hpending : thr'.pending = .stop → thr.pending = .stop ∨ act.MayStop w) :
    Moves act (w, thr) (w', thr') where
  covers hc := by
    dsimp only
    rw [hcalls]
    exact hc.mono hreached
  reached _ := hreached
  stopped := hstop
  pending := hpending
  keeps d hd := keeps_of_mem (hcalls ▸ hd)
  outside hnil := .inl (hcalls.trans hnil)
  returned _ q hq := .inl (hreturned ▸ hq)

end Moves

/-! ### Passes of `poll` -/

section Polls

variable {cfg : Config} {t : τ} {s : Scheduler τ}

theorem takeHandler_ne_ret {op : Operation} {rest : List Operation} :
    (takeHandler cfg s op rest).2 ≠ .ret := by
  simp [takeHandler]

theorem doPollOne_ret (h : (doPollOne cfg s).2 = .ret) :
    s.stopped = true ∨ ∀ id, .handler id ∉ s.opQueue := by
  simp only [doPollOne] at h
  split at h
  · exact .inl ‹_›
  · split at h
    · rename_i hnil
      exact .inr fun id hid => by simp [hnil] at hid
    · split at h
      · cases h
      · exact absurd h takeHandler_ne_ret

theorem waitOneAfterWait_ret (h : (waitOneAfterWait cfg s).2 = .ret) : s.opQueue = [] := by
  simp only [waitOneAfterWait] at h
  split at h
  · assumption
  · simp only [takeFront] at h
    split at h
    · cases h
    · exact absurd h takeHandler_ne_ret

/-- When the task comes first again it is all there is. -/
theorem afterTask_ret {q : List Operation} (hq : s.opQueue = q ++ [.taskOperation])
    (hmarker : .taskOperation ∉ q) (h : (afterTask cfg true s).2 = .ret) :
    ∀ id, .handler id ∉ s.opQueue := by
  simp only [afterTask] at h
  split at h
  · rename_i hnil
    simp [hnil] at hq
  · rename_i op rest hqueue
    split at h
    · rename_i hop
      cases q with
      | nil => simp [hq]
      | cons op' q =>
        rw [hqueue] at hq
        obtain ⟨rfl, -⟩ := List.cons.inj hq
        exact absurd (by simp [hop]) hmarker
    · exact absurd h takeHandler_ne_ret

end Polls

/-! ### Actions -/

section Actions

variable {cfg : Config} {t : τ} {w : World τ} {thr : Thread} {b : World τ × Thread}

/-- The actions of a scheduler in use. -/
def Action.InUse : Action → Prop
  | .stop | .shutdown | .drain => False
  | _ => True

theorem reached_put {s : Scheduler τ} (hqueue : w.scheduler.opQueue <+: s.opQueue) (id : Nat)
    (h : Reached w id) : Reached (w.put s) id :=
  h.imp_right fun hid => hqueue.subset hid

/-- A call that executes no handler hands its private queue over. -/
theorem Covers.handOver {c c' : Call} {rest : List Call} {w' : World τ}
    (h : Covers (Reached w) (c :: rest)) (hready : c'.ready = c.ready)
    (hpc : ∀ id, c.pc ≠ .execute (.handler id)) (hreached : ∀ id, Reached w id → Reached w' id) :
    Covers (Reached w') (c' :: rest) := by
  refine h.top hready ?_
  rintro id (hid | hid)
  · exact .inl (hreached id hid)
  · exact absurd hid (hpc id)

theorem takeOuter_splits (s : Scheduler τ) (entry : Entry) (rest : List Call) :
    s.opQueue <+: (takeOuter cfg s entry rest).1.opQueue := by
  cases rest with
  | nil => exact List.prefix_rfl
  | cons outer rest =>
    simp only [takeOuter]
    split
    · exact List.prefix_append ..
    · exact List.prefix_rfl

theorem takeOuter_stopped (s : Scheduler τ) (entry : Entry) (rest : List Call) :
    (takeOuter cfg s entry rest).1.stopped = s.stopped := by
  cases rest with
  | nil => rfl
  | cons outer rest =>
    simp only [takeOuter]
    split <;> rfl

theorem takeOuter_covers {P : Nat → Prop} {s : Scheduler τ} {entry : Entry} {rest : List Call}
    (h : Covers P rest) : Covers P (takeOuter cfg s entry rest).2 := by
  cases rest with
  | nil => exact h
  | cons outer rest =>
    simp only [takeOuter]
    split
    · exact h.top rfl fun _ => id
    · exact h

theorem takeOuter_keeps {a : World τ × Thread} {s : Scheduler τ} {entry : Entry}
    {rest : List Call} (h : ∀ d ∈ rest, d ∈ a.2.calls) :
    ∀ d ∈ (takeOuter cfg s entry rest).2, Keeps a d := by
  cases rest with
  | nil => simp [takeOuter]
  | cons outer rest =>
    intro d hd
    simp only [takeOuter] at hd
    split at hd
    · cases hd with
      | head => exact .inl ⟨outer, h outer List.mem_cons_self, rfl⟩
      | tail _ hmem => exact keeps_of_mem (h d (List.mem_cons_of_mem _ hmem))
    · exact keeps_of_mem (h d hd)

theorem mem_handlers {ops : List Operation} {id : Nat} :
    id ∈ handlers ops ↔ .handler id ∈ ops := by
  simp only [handlers, List.mem_filterMap]
  constructor
  · rintro ⟨op, hop, hid⟩
    cases op with
    | handler id' =>
      simp only [Operation.id?, Option.some.injEq] at hid
      rwa [← hid]
    | taskOperation | descriptor => cases hid
  · intro hid
    exact ⟨.handler id, hid, rfl⟩

theorem readyIds_subset {s : Scheduler τ} {id : Nat} (h : id ∈ readyIds s) :
    s.stopped = false ∧ .handler id ∈ s.opQueue := by
  simp only [readyIds] at h
  split at h
  · cases h
  · rename_i hstop
    exact ⟨by simpa using hstop, mem_handlers.1 h⟩

theorem enter_moves (hb : Performs cfg t w thr .enter b) : Moves .enter (w, thr) b := by
  cases hb with
  | @begin c rest hpc =>
    refine proceed_moves (pass_takes ..) (by simp) ?_ (takeOuter_stopped ..) rfl ?_ ?_ ?_
    · intro hc
      have below : Covers (Reached (w.put (takeOuter cfg w.scheduler c.entry rest).1)) rest := by
        refine hc.pop ?_
        rintro id (hid | hid)
        · exact reached_put (takeOuter_splits ..) id hid
        · simp [hpc] at hid
      refine ⟨fun id hid => .inl (.inr (readyIds_subset hid).2), ?_⟩
      exact (takeOuter_covers below).mono fun _ => .inl
    · intro d hd
      cases hd with
      | head =>
        cases hstop : w.scheduler.stopped with
        | false => exact .inr (.inr ⟨hstop, rfl⟩)
        | true => exact .inr (.inl (by simp [readyIds, takeOuter_stopped, hstop]))
      | tail _ hmem => exact takeOuter_keeps (fun d hd => List.mem_cons_of_mem _ hd) d hmem
    · intro hstop
      left
      simp only [readyIds, takeOuter_stopped]
      exact if_pos hstop
    · intro hentry hret
      dsimp only at hentry
      rw [hentry] at hret ⊢
      exact doPollOne_ret hret
  | @again c rest hpc =>
    refine proceed_moves (pass_takes ..) (by simp) ?_ rfl rfl (fun d hd => keeps_of_mem hd)
      (fun _ => .inr ⟨c, List.mem_cons_self, rfl⟩) ?_
    · intro hc
      exact hc.handOver rfl (by simp [hpc]) fun _ => id
    · intro hentry hret
      rw [hentry] at hret
      exact doPollOne_ret hret

theorem resume_moves {c : Call} {rest : List Call} (hpc : c.pc = .wait) :
    Moves .resume (w, ⟨c :: rest, .idle⟩)
      (proceed w c rest (passAfterWait cfg t w.scheduler c.entry)) := by
  refine proceed_moves (passAfterWait_takes ..) (by simp) ?_ rfl rfl (fun d hd => keeps_of_mem hd)
    (fun _ => .inr ⟨c, List.mem_cons_self, rfl⟩) ?_
  · intro hc
    exact hc.handOver rfl (by simp [hpc]) fun _ => id
  · intro hentry hret
    right
    intro id hid
    rw [hentry] at hret
    have hnil := waitOneAfterWait_ret hret
    rw [(mapEvent_wakes cfg w.scheduler PosixEvent.endWait).opQueue] at hnil
    simp [hnil] at hid

theorem taskCleanup_moves (settled : thr.Settled)
    (hmarker : ∀ c ∈ thr.calls.head?, c.pc.runsTask = true →
      .taskOperation ∉ w.scheduler.opQueue)
    (hb : Performs cfg t w thr .taskCleanup b) : Moves .taskCleanup (w, thr) b := by
  have queue (q : List Operation) :
      w.scheduler.opQueue <+: w.scheduler.opQueue ++ q ++ [.taskOperation] := by
    rw [List.append_assoc]
    exact List.prefix_append ..
  cases hb with
  | @taskThrows c rest hpc =>
    refine leave_moves (by simp) (fun hc => ?_) rfl rfl
      (fun d hd => keeps_of_mem (List.mem_cons_of_mem _ hd)) (.inl rfl)
    exact hc.handOver rfl (by simp [hpc]) (reached_put (queue _))
  | @taskCleanup c rest hpc =>
    refine proceed_moves (passAfterTask_takes ..) (by simp) (fun hc => ?_) rfl rfl ?_
      (fun _ => .inr ⟨c, List.mem_cons_self, rfl⟩) ?_
    · exact hc.handOver rfl (by simp [hpc]) (reached_put (queue _))
    · intro d hd
      cases hd with
      | head => exact .inl ⟨c, List.mem_cons_self, rfl⟩
      | tail _ hmem => exact keeps_of_mem (List.mem_cons_of_mem _ hmem)
    · intro hentry hret
      dsimp only at hentry
      rw [hentry] at hret
      refine .inr (afterTask_ret rfl ?_ hret)
      rw [List.mem_append]
      rintro (hq | hp)
      · exact hmarker c rfl (by simp [hpc, Pc.runsTask]) hq
      · exact (settled.calls c List.mem_cons_self).noMarker hp

theorem workCleanup_moves (hb : Performs cfg t w thr .workCleanup b) :
    Moves .workCleanup (w, thr) b := by
  have queue (q : List Operation) : w.scheduler.opQueue <+: w.scheduler.opQueue ++ q :=
    List.prefix_append ..
  cases hb with
  | workThrows hpc =>
    refine leave_moves (by simp) (fun hc => ?_) rfl rfl
      (fun d hd => keeps_of_mem (List.mem_cons_of_mem _ hd)) (.inl rfl)
    exact hc.handOver rfl (by simp [hpc]) (reached_put (queue _))
  | @workNext c rest hpc =>
    refine proceed_moves (pass_takes ..) (by simp) (fun hc => ?_) rfl rfl ?_
      (fun _ => .inr ⟨c, List.mem_cons_self, rfl⟩) ?_
    · exact hc.handOver rfl (by simp [hpc]) (reached_put (queue _))
    · intro d hd
      cases hd with
      | head => exact .inl ⟨c, List.mem_cons_self, rfl⟩
      | tail _ hmem => exact keeps_of_mem (List.mem_cons_of_mem _ hmem)
    · intro hentry hret
      dsimp only at hentry
      rw [hentry] at hret
      exact doPollOne_ret hret
  | workAgain hpc =>
    refine top_moves rfl ?_ rfl rfl (by simp)
    rintro id (hid | hid)
    · exact .inl (reached_put (queue _) id hid)
    · simp [hpc] at hid
  | workReturns hpc hone =>
    refine leave_moves (by simp) (fun hc => ?_) rfl rfl
      (fun d hd => keeps_of_mem (List.mem_cons_of_mem _ hd)) (.inr ?_)
    · exact hc.handOver rfl (by simp [hpc]) (reached_put (queue _))
    · intro hpoll
      exact hone (.inr hpoll)

theorem call_moves {entry : Entry} (hb : Performs cfg t w thr (.call entry) b) :
    Moves (.call entry) (w, thr) b := by
  cases hb with
  | callIdle free hzero =>
    refine ⟨id, fun _ _ => id, .inl, fun _ => .inr (.inr ⟨⟨entry, rfl⟩, hzero⟩),
      fun d hd => keeps_of_mem hd, .inl, ?_⟩
    intro _ q hq
    simp only [List.mem_append, List.mem_singleton] at hq
    rcases hq with hq | rfl
    · exact .inl hq
    · refine .inr ⟨.inr ⟨entry, rfl⟩, fun _ _ => .inr (.inr ⟨hzero, ?_⟩)⟩
      intro id hid
      have hqueued := (readyIds_subset hid).2
      obtain ⟨calls, pending⟩ := thr
      cases calls with
      | nil => exact .inl hqueued
      | cons outer rest =>
        simp only [takeOuter] at hqueued
        split at hqueued
        · rw [List.mem_append] at hqueued
          refine hqueued.imp_right fun hprivate => ?_
          simp [Call.held, hprivate]
        · exact .inl hqueued
  | call =>
    refine ⟨fun hc => hc.push rfl, fun _ _ => id, .inl, .inl, ?_, fun _ => .inr ⟨entry, rfl⟩,
      fun _ q hq => .inl hq⟩
    intro d hd
    cases hd with
    | head => exact .inr (.inl rfl)
    | tail _ hmem => exact keeps_of_mem hmem

theorem lock_moves (hb : Performs cfg t w thr .lock b) : Moves .lock (w, thr) b := by
  cases hb with
  | @lockPush calls ids =>
    have woken := wakeOneThreadAndUnlock_wakes cfg
      { w.scheduler with opQueue := w.scheduler.opQueue ++ ids.map .handler }
    refine pend_moves rfl ?_ (fun hstop => .inl (woken.stopped.symm.trans hstop)) rfl (by simp)
    intro id hid
    refine hid.imp_right fun hqueued => ?_
    rw [woken.opQueue]
    exact List.mem_append_left _ hqueued
  | lockStop =>
    have woken := stopAllThreads_wakes cfg w.scheduler
    refine pend_moves rfl ?_ (fun _ => .inr rfl) rfl (by simp)
    intro id hid
    refine hid.imp_right fun hqueued => ?_
    rw [World.scheduler_put, woken.opQueue]
    exact hqueued

theorem complete_moves {thrown : Bool} (hb : Performs cfg t w thr (.complete thrown) b) :
    Moves (.complete thrown) (w, thr) b := by
  cases hb with
  | complete hpc =>
    refine top_moves rfl ?_ rfl rfl fun _ => trivial
    rintro id' ((hdone | hqueued) | hid)
    · exact .inl (.inl (List.mem_append_left _ hdone))
    · exact .inl (.inr hqueued)
    · rw [hpc] at hid
      cases hid
      exact .inl (.inl (by simp [World.put]))
  | completeNothing hpc =>
    refine top_moves rfl ?_ rfl rfl fun _ => trivial
    rintro id (hid | hid)
    · exact .inl hid
    · simp [hpc] at hid

theorem initTask_moves : Moves .initTask (w, thr) (w.put (addTask cfg w.scheduler), thr) := by
  have woken := wakeOneThreadAndUnlock_wakes cfg { w.scheduler with
    task := true, opQueue := w.scheduler.opQueue ++ [.taskOperation] }
  refine pend_moves rfl ?_ (fun hstop => .inl ?_) rfl .inl
  · refine reached_put ?_
    simp only [addTask]
    split
    · rw [woken.opQueue]
      exact List.prefix_append ..
    · exact List.prefix_rfl
  · simp only [addTask, World.scheduler_put] at hstop
    split at hstop
    · exact woken.stopped.symm.trans hstop
    · exact hstop

theorem perform_moves {a : Action} (settled : thr.Settled)
    (hmarker : ∀ c ∈ thr.calls.head?, c.pc.runsTask = true →
      .taskOperation ∉ w.scheduler.opQueue)
    (use : a.InUse) (hb : perform cfg t w thr a = some b) : Moves a (w, thr) b := by
  have hb := perform_performs hb
  cases a with
  | call entry => exact call_moves hb
  | enter => exact enter_moves hb
  | wake | signal | signalNobody =>
    cases hb
    exact pend_moves rfl (fun _ => id) .inl rfl .inl
  | resume =>
    cases hb with
    | resume hpc => exact resume_moves hpc
  | taskPush op =>
    cases hb with
    | pushDescriptor => exact top_moves rfl (fun _ => id) rfl rfl (by simp)
    | pushHandler => exact top_moves rfl (fun _ => id) rfl rfl (by simp)
  | taskReturn thrown =>
    cases hb with
    | taskReturn hpc =>
      refine top_moves rfl ?_ rfl rfl (by simp)
      rintro id (hid | hid)
      · exact .inl hid
      · simp [hpc] at hid
  | taskCleanup => exact taskCleanup_moves settled hmarker hb
  | adopt id =>
    cases hb with
    | adopt hpc =>
      refine top_moves rfl ?_ rfl rfl (by simp)
      rintro id' (hid | hid)
      · exact .inl hid
      · simp [hpc] at hid
  | compensate =>
    cases hb with
    | compensate hpc =>
      refine top_moves rfl ?_ rfl rfl (by simp)
      rintro id (hid | hid)
      · exact .inl hid
      · simp [hpc] at hid
  | complete thrown => exact complete_moves hb
  | workCleanup => exact workCleanup_moves hb
  | start id =>
    cases hb
    exact pend_moves rfl (fun _ h => h) .inl rfl .inl
  | postImmediate ids isContinuation =>
    cases hb with
    | postShared => exact pend_moves rfl (fun _ => id) .inl rfl (by simp)
    | postPrivate => exact top_moves rfl (fun _ => id) rfl rfl (by simp)
  | postDeferred ids =>
    cases hb with
    | deferShared => exact pend_moves rfl (fun _ => id) .inl rfl (by simp)
    | deferPrivate => exact top_moves rfl (fun _ => id) rfl rfl (by simp)
  | doDispatch id =>
    cases hb
    exact pend_moves rfl (fun _ h => h) .inl rfl (by simp)
  | lock => exact lock_moves hb
  | workStarted =>
    cases hb
    exact pend_moves rfl (fun _ => id) .inl rfl .inl
  | workFinished =>
    cases hb
    exact pend_moves rfl (fun _ => id) .inl rfl fun _ => .inr (.inl trivial)
  | restart =>
    cases hb
    exact pend_moves rfl (fun _ => id) (fun hstop => by cases hstop) rfl .inl
  | initTask =>
    cases hb
    exact initTask_moves
  | stop | shutdown | drain => exact use.elim

/-- The action calls `work_finished`. -/
def Thread.CallsWorkFinished (thr : Thread) : Action → Prop
  | .workFinished => True
  | .complete _ => ∀ c ∈ thr.calls.head?, c.privateOutstandingWork < 1
  | _ => False

instance (thr : Thread) (act : Action) : Decidable (thr.CallsWorkFinished act) := by
  induction act using Action.casesOn <;> dsimp only [Thread.CallsWorkFinished] <;> infer_instance

theorem callsWorkFinished_complete {c : Call} {rest : List Call} {pending : Pending}
    {thrown : Bool} :
    Thread.CallsWorkFinished ⟨c :: rest, pending⟩ (.complete thrown) ↔
      c.privateOutstandingWork < 1 := by
  simp [Thread.CallsWorkFinished]

/-- No work is finished, and credit is given to a call that executes a handler only. -/
structure Funds (a b : World τ × Thread) : Prop where
  outstandingWork : a.1.scheduler.outstandingWork ≤ b.1.scheduler.outstandingWork
  credit : b.2.credit ≤ a.2.credit ∨ ∃ c ∈ a.2.calls.head?, c.pc.Handling

/-- What a call does with the queue leaves the work and its history alone. -/
structure Idles (a b : World τ) : Prop where
  outstandingWork : b.scheduler.outstandingWork = a.scheduler.outstandingWork
  completed : b.completed = a.completed
  guards : b.guards = a.guards
  issued : b.issued = a.issued

theorem Idles.work_le {a b : World τ} (h : Idles a b) :
    a.scheduler.outstandingWork ≤ b.scheduler.outstandingWork ∧ a.balance ≤ b.balance := by
  simp only [World.balance, h.outstandingWork, h.completed, h.guards, h.issued]
  omega

theorem put_idles {s : Scheduler τ} (h : s.outstandingWork = w.scheduler.outstandingWork) :
    Idles w (w.put s) :=
  ⟨h, rfl, rfl, rfl⟩

theorem proceed_idles {s : Scheduler τ} {c : Call} {rest : List Call} {r : Scheduler τ × Next}
    (hr : Takes s r) (h : s.outstandingWork = w.scheduler.outstandingWork) :
    Idles w (proceed w c rest r).1 := by
  have work := hr.outstandingWork.trans h
  obtain ⟨s', next⟩ := r
  cases next <;> exact ⟨work, rfl, rfl, rfl⟩

theorem leave_idles {s : Scheduler τ} {c : Call} {rest : List Call} {value : Option Nat}
    (h : s.outstandingWork = w.scheduler.outstandingWork) :
    Idles w (leave (w.put s) c rest value).1 :=
  ⟨h, rfl, rfl, rfl⟩

theorem takeOuter_work {s : Scheduler τ} {entry : Entry} {rest : List Call} :
    (takeOuter cfg s entry rest).1.outstandingWork = s.outstandingWork := by
  cases rest with
  | nil => rfl
  | cons outer rest =>
    simp only [takeOuter]
    split <;> rfl

theorem settle_idles {c : Call} (w : World τ) (rest : List Call) (thrown : Bool)
    (hp : 1 ≤ c.privateOutstandingWork) :
    w.scheduler.outstandingWork ≤ (settle w c rest thrown).1.scheduler.outstandingWork ∧
      w.balance ≤ (settle w c rest thrown).1.balance := by
  simp only [settle, World.put, World.balance]
  split
  · omega
  · split <;> omega

theorem complete_work {thrown : Bool} (hfinish : ¬thr.CallsWorkFinished (.complete thrown))
    (hb : Performs cfg t w thr (.complete thrown) b) :
    w.scheduler.outstandingWork ≤ b.1.scheduler.outstandingWork ∧ w.balance ≤ b.1.balance := by
  cases hb with
  | @complete c rest id =>
    have hp := not_lt.1 (mt callsWorkFinished_complete.2 hfinish)
    obtain ⟨work, balance⟩ := settle_idles { w with completed := w.completed ++ [id] } rest thrown hp
    refine ⟨work, Int.le_trans ?_ balance⟩
    simp only [World.balance, List.length_append, Nat.cast_add]
    omega
  | @completeNothing c rest =>
    have hp := not_lt.1 (mt callsWorkFinished_complete.2 hfinish)
    exact settle_idles w rest thrown hp

theorem perform_funds {a : Action} (settled : thr.Settled) (ha : a ≠ .drain)
    (hfinish : ¬thr.CallsWorkFinished a) (hb : perform cfg t w thr a = some b) : Funds (w, thr) b := by
  have accounts := perform_accounts ha settled hb
  have funds (h : w.scheduler.outstandingWork ≤ b.1.scheduler.outstandingWork ∧
      w.balance ≤ b.1.balance) : Funds (w, thr) b := by
    have credit := accounts.credit
    dsimp only at credit
    exact ⟨h.1, .inl (by dsimp only; omega)⟩
  have idles (h : Idles w b.1) : Funds (w, thr) b := funds h.work_le
  cases perform_performs hb with
  | callIdle | call => exact funds ⟨Int.le_refl _, Int.le_refl _⟩
  | begin => exact idles (proceed_idles (pass_takes ..) takeOuter_work)
  | again => exact idles (proceed_idles (pass_takes ..) rfl)
  | wake | signal | signalNobody => exact idles (put_idles rfl)
  | resume => exact idles (proceed_idles (passAfterWait_takes ..) rfl)
  | pushDescriptor | pushHandler => exact funds ⟨Int.le_refl _, Int.le_refl _⟩
  | taskReturn =>
    refine funds ?_
    simp only [World.put, World.balance]
    split <;> omega
  | taskThrows => exact idles (leave_idles rfl)
  | taskCleanup => exact idles (proceed_idles (passAfterTask_takes ..) rfl)
  | adopt | compensate => exact funds ⟨Int.le_refl _, Int.le_refl _⟩
  | complete | completeNothing => exact funds (complete_work hfinish (perform_performs hb))
  | workThrows => exact idles (leave_idles rfl)
  | workNext => exact idles (proceed_idles (pass_takes ..) rfl)
  | workAgain => exact idles (put_idles rfl)
  | workReturns => exact idles (leave_idles rfl)
  | start | doDispatch =>
    refine funds ?_
    simp only [World.balance, List.length_append, List.length_singleton, Nat.cast_add,
      Nat.cast_one]
    omega
  | postShared =>
    refine funds ?_
    simp only [World.balance, List.length_append, Nat.cast_add]
    omega
  | @postPrivate c _ _ _ hhandling => exact ⟨Int.le_refl _, .inr ⟨c, rfl, hhandling⟩⟩
  | deferShared | deferPrivate => exact funds ⟨Int.le_refl _, Int.le_refl _⟩
  | lockPush => exact idles ⟨(wakeOneThreadAndUnlock_wakes ..).outstandingWork, rfl, rfl, rfl⟩
  | lockStop | stop => exact idles (put_idles (stopAllThreads_wakes ..).outstandingWork)
  | workStarted =>
    refine funds ?_
    simp only [World.balance, Nat.cast_add, Nat.cast_one]
    omega
  | workFinished => exact absurd trivial hfinish
  | restart => exact idles (put_idles rfl)
  | initTask =>
    refine idles (put_idles ?_)
    simp only [addTask]
    split
    · exact (wakeOneThreadAndUnlock_wakes ..).outstandingWork
    · rfl
  | shutdown =>
    refine idles (put_idles ?_)
    simp only [beginShutdown]
    split
    · exact (stopAllThreads_wakes ..).outstandingWork
    · rfl
  | drain => exact absurd rfl ha

end Actions

/-! ### Stopping the scheduler -/

section Stopping

variable [Fintype τ] {cfg : Config} {s s' : State τ} {a : τ × Action}

/-- When `work_finished` is called, the credit of the calls that execute handlers is not what is
left to do. -/
def Solvent (s : State τ) (a : τ × Action) : Prop :=
  (s.part a.1).CallsWorkFinished a.2 → s.total Thread.credit = 0 ∨
    s.total Thread.credit ≠ s.shared.guards + unfinished s - 1

instance (s : State τ) (a : τ × Action) : Decidable (Solvent s a) :=
  inferInstanceAs (Decidable (_ → _))

def AllCompleted (w : World τ) : Prop := ∀ id ∈ w.posted, id ∈ w.completed

structure Kept (s : State τ) : Prop extends Sound s where
  kept : s.shared.destroyed = []

theorem initial_kept : Kept (initial cfg : State τ) := ⟨initial_sound, rfl⟩

theorem Kept.set {t : τ} {b : World τ × Thread} (h : Kept s)
    (hb : Accounts (s.shared, s.part t) b) : Kept (s.set t b) :=
  ⟨h.toSound.set hb, hb.destroyed.trans h.kept⟩

theorem Kept.accounting (h : Kept s) :
    s.shared.scheduler.outstandingWork + s.total Thread.credit =
      s.shared.guards + unfinished s := by
  have accounting := h.toSound.accounting
  simp only [h.kept, List.length_nil] at accounting
  omega

theorem Kept.completed_of_unfinished (h : Kept s) (hnone : unfinished s = 0) :
    AllCompleted s.shared := by
  intro id hid
  have once := h.once id
  rw [if_pos hid, h.kept, List.count_nil] at once
  simp only [unfinished] at hnone
  have isHandler : Operation.isHandler (.handler id) = true := rfl
  have queued : s.shared.scheduler.opQueue.count (.handler id) = 0 := by
    have le : s.shared.scheduler.opQueue.count (.handler id) ≤
        s.shared.scheduler.opQueue.countP Operation.isHandler :=
      List.countP_mono_left fun op _ hop => by rwa [beq_iff_eq.1 hop]
    omega
  have held : (s.total fun thr => thr.held.count (.handler id)) = 0 := by
    have all : (s.total fun thr => thr.held.countP Operation.isHandler) = 0 := by omega
    rw [Interleaving.total_eq_zero] at all ⊢
    intro t
    have le : (s.part t).held.count (.handler id) ≤ (s.part t).held.countP Operation.isHandler :=
      List.countP_mono_left fun op _ hop => by rwa [beq_iff_eq.1 hop]
    have none := all t
    omega
  rw [places, queued, held] at once
  exact List.count_pos_iff.1 (by omega)

/-- What a thread holds has been posted and not completed. -/
theorem Kept.not_completed (h : Kept s) {t : τ} {id : Nat}
    (hheld : .handler id ∈ (s.part t).held) : id ∈ s.shared.posted ∧ id ∉ s.shared.completed := by
  have once := h.once id
  have le := Interleaving.total_le s (fun thr => thr.held.count (.handler id)) t
  have pos := List.count_pos_iff.2 hheld
  rw [places] at once
  split at once
  · refine ⟨‹_›, ?_⟩
    rw [← List.count_eq_zero]
    omega
  · omega

/-- A thread with credit executes a handler. -/
theorem Thread.handler_of_credit {thr : Thread} (h : thr.credit ≠ 0) :
    ∃ id, .handler id ∈ thr.held := by
  obtain ⟨c, hc, hcredit⟩ : ∃ c ∈ thr.calls, c.credit ≠ 0 := by
    by_contra hnone
    push Not at hnone
    exact h (List.sum_eq_zero (by simpa using hnone))
  simp only [Call.credit, ne_eq, ite_eq_right_iff, Classical.not_imp] at hcredit
  obtain ⟨id, hpc⟩ := hcredit.1.eq_execute
  exact ⟨id, List.mem_flatMap.2 ⟨c, hc, by simp [Call.held, hpc, Pc.held]⟩⟩

/-- With no outstanding work, only credit stands for operations that are not completed. -/
theorem Kept.allCompleted_iff (h : Kept s) (hzero : s.shared.scheduler.outstandingWork = 0) :
    AllCompleted s.shared ↔ s.total Thread.credit = 0 := by
  have accounting := h.accounting
  constructor
  · intro hall
    by_contra hcredit
    obtain ⟨t, ht⟩ : ∃ t, (s.part t).credit ≠ 0 := by
      by_contra hnone
      push Not at hnone
      exact hcredit (Finset.sum_eq_zero fun t _ => hnone t)
    obtain ⟨id, hheld⟩ := Thread.handler_of_credit ht
    obtain ⟨hposted, hopen⟩ := h.not_completed hheld
    exact hopen (hall id hposted)
  · intro hcredit
    exact h.completed_of_unfinished (by omega)

/-- One operation less is outstanding, and the credit of the other calls is as before. -/
structure Decrements (s s' : State τ) : Prop where
  outstandingWork :
    s'.shared.scheduler.outstandingWork = s.shared.scheduler.outstandingWork - 1
  credit : s'.total Thread.credit = s.total Thread.credit

theorem decrements_set {t : τ} {b : World τ × Thread}
    (work : b.1.scheduler.outstandingWork = s.shared.scheduler.outstandingWork - 1)
    (credit : b.2.credit = (s.part t).credit) : Decrements s (s.set t b) where
  outstandingWork := work
  credit := by
    have total := Interleaving.total_set s Thread.credit t b
    omega

theorem settle_decrements {t : τ} {w : World τ} {c : Call} {rest : List Call} {thrown : Bool}
    (hpart : s.part t = ⟨c :: rest, .idle⟩) (hw : w.scheduler = s.shared.scheduler)
    (hc : c.pc.Handling → 0 ≤ c.privateOutstandingWork) (hp : c.privateOutstandingWork < 1) :
    Decrements s (s.set t (settle w c rest thrown)) := by
  apply decrements_set
  · have hnot : ¬c.privateOutstandingWork > 1 := by omega
    simp only [settle, World.scheduler_put, if_neg hnot, if_pos hp, hw]
  · have zero : c.credit = 0 := by
      rw [Call.credit]
      split
      · have := hc ‹_›
        omega
      · rfl
    rw [hpart, Thread.credit_cons, zero, settle, Thread.credit_cons]
    rfl

theorem settle_stop {w : World τ} {c : Call} {rest : List Call} {thrown : Bool} :
    (settle w c rest thrown).2.pending = .stop ↔ c.privateOutstandingWork < 1 ∧
      (settle w c rest thrown).1.scheduler.outstandingWork = 0 :=
  finish_eq_stop _

/-- The scheduler is stopped exactly when `work_finished` finds nothing outstanding. -/
theorem mayFinish_stops (h : Kept s) (may : a.2.MayFinish) (hs : step cfg s a = some s') :
    ((s.part a.1).CallsWorkFinished a.2 → Decrements s s') ∧
      ((s'.part a.1).pending = .stop ↔ (s.part a.1).CallsWorkFinished a.2 ∧
        s'.shared.scheduler.outstandingWork = 0) := by
  obtain ⟨w, thr, hb, rfl⟩ := Interleaving.step_eq_some.1 hs
  obtain ⟨t, act⟩ := a
  rw [Interleaving.part_set_self, Interleaving.shared_set]
  have hb := perform_performs hb
  have settled := h.settled t
  generalize (w, thr) = b at hb ⊢
  generalize hpart : s.part t = thr at hb settled ⊢
  cases act with
  | workFinished =>
    cases hb
    refine ⟨fun _ => decrements_set rfl ?_, ?_⟩
    · rw [hpart]
      rfl
    · rw [finish_eq_stop]
      exact ⟨fun hzero => ⟨trivial, hzero⟩, And.right⟩
  | complete thrown =>
    cases hb with
    | @complete c _ _ _ hpc =>
      have hp : 0 ≤ c.privateOutstandingWork := (settled.calls c List.mem_cons_self).at hpc
      rw [callsWorkFinished_complete]
      exact ⟨settle_decrements hpart rfl fun _ => hp, settle_stop⟩
    | completeNothing hpc =>
      rw [callsWorkFinished_complete]
      exact ⟨settle_decrements hpart rfl fun hhandling => by simp [hpc, Pc.Handling] at hhandling,
        settle_stop⟩
  | _ => exact may.elim

/-- `work_finished` stops the scheduler too early exactly when the state was not solvent. -/
theorem solvent_iff (h : Kept s) (h' : Kept s') (hs : step cfg s a = some s') :
    Solvent s a ↔
      (a.2.MayFinish → (s'.part a.1).pending = .stop → AllCompleted s'.shared) := by
  by_cases may : a.2.MayFinish
  · obtain ⟨decrements, stops⟩ := mayFinish_stops h may hs
    have accounting := h.accounting
    constructor
    · intro solvent _ hstop
      obtain ⟨hcalls, hzero⟩ := stops.1 hstop
      have dec := decrements hcalls
      have work := dec.outstandingWork
      rw [h'.allCompleted_iff hzero, dec.credit]
      rcases solvent hcalls with hcredit | hcredit
      · exact hcredit
      · omega
    · intro early hcalls
      have dec := decrements hcalls
      have work := dec.outstandingWork
      by_cases hzero : s'.shared.scheduler.outstandingWork = 0
      · left
        rw [← dec.credit, ← h'.allCompleted_iff hzero]
        exact early may (stops.2 ⟨hcalls, hzero⟩)
      · right
        omega
  · refine ⟨fun _ hmay => absurd hmay may, fun _ hcalls => ?_⟩
    obtain ⟨t, act⟩ := a
    cases act with
    | workFinished | complete => exact absurd trivial may
    | _ => exact hcalls.elim

end Stopping

/-! ### Runs with one thread -/

section Runs

variable [Fintype τ] {cfg : Config} {t₀ : τ} {s s' : State τ} {a : τ × Action}

/-- Only `t₀` calls the scheduler to run it, from outside or from handlers, and to finish work;
any thread starts work and hands it over.  The scheduler is not destroyed. -/
def Nests (t₀ : τ) (a : τ × Action) : Prop :=
  match a.2 with
  | .call _ | .workFinished => a.1 = t₀
  | .drain => False
  | _ => True

instance (a : τ × Action) : Decidable (Nests t₀ a) := by
  obtain ⟨t, act⟩ := a
  induction act using Action.casesOn <;> dsimp only [Nests] <;> infer_instance

instance (act : Action) : Decidable act.InUse := by
  induction act using Action.casesOn <;> dsimp only [Action.InUse] <;> infer_instance

def Return.Complete (w : World τ) (r : Return) : Prop :=
  r.entry = .poll → r.value ≠ none → ∀ id ∈ r.ready, id ∈ w.completed

structure Nested (t₀ : τ) (s : State τ) : Prop extends Kept s where
  others : ∀ t, t ≠ t₀ → (s.part t).calls = [] ∧ (s.part t).pending ≠ .stop
  funded : 0 < (s.part t₀).credit → 0 < s.shared.scheduler.outstandingWork
  covered : Covers (Reached s.shared) (s.part t₀).calls
  halted : s.shared.scheduler.stopped = true ∨ (s.part t₀).pending = .stop →
    ∀ c ∈ (s.part t₀).calls, ∀ id ∈ c.ready, id ∈ s.shared.completed
  returned : ∀ r ∈ s.shared.returned, r.Complete s.shared

theorem initial_nested : Nested t₀ (initial cfg : State τ) where
  toKept := initial_kept
  others t _ := ⟨rfl, by simp [initial, Thread.construct]⟩
  funded hpos := by simp [initial, Thread.construct, Thread.credit] at hpos
  covered := trivial
  halted _ c hc := by cases hc
  returned r hr := by cases hr

theorem Nested.total_credit (h : Nested t₀ s) : s.total Thread.credit = (s.part t₀).credit := by
  apply Interleaving.total_eq_single
  intro t ht
  simp [Thread.credit, (h.others t ht).1]

/-- While a handler is executed there is outstanding work. -/
theorem Nested.work_pos (h : Nested t₀ s) (hheld : 0 < (s.part t₀).held.countP Operation.isHandler) :
    0 < s.shared.scheduler.outstandingWork := by
  by_cases hcredit : 0 < (s.part t₀).credit
  · exact h.funded hcredit
  · have accounting := h.accounting
    have total := h.total_credit
    have le := Interleaving.total_le s (fun thr => thr.held.countP Operation.isHandler) t₀
    simp only [unfinished] at accounting
    omega

theorem Nested.unfinished_eq_zero (h : Nested t₀ s)
    (hzero : s.shared.scheduler.outstandingWork = 0) : unfinished s = 0 := by
  have accounting := h.accounting
  have total := h.total_credit
  have nonneg := (h.settled t₀).credit_nonneg
  by_cases hcredit : 0 < (s.part t₀).credit
  · have pos := h.funded hcredit
    omega
  · omega

theorem Nested.marker (h : Nested t₀ s) (t : τ) :
    ∀ c ∈ (s.part t).calls.head?, c.pc.runsTask = true →
      .taskOperation ∉ s.shared.scheduler.opQueue := by
  intro c hc hruns
  have marker := h.toSound.marker
  have le := Interleaving.total_le s (fun thr => thr.calls.countP fun c => c.pc.runsTask) t
  have pos : 0 < (s.part t).calls.countP fun c => c.pc.runsTask :=
    List.countP_pos_iff.2 ⟨c, List.mem_of_mem_head? hc, hruns⟩
  rw [← List.count_eq_zero]
  split at marker <;> omega

/-- What a call found ready has been posted. -/
theorem Kept.posted_of_ready (h : Kept s) (covered : Covers (Reached s.shared) (s.part t₀).calls)
    {c : Call} (hc : c ∈ (s.part t₀).calls) {id : Nat} (hid : id ∈ c.ready) :
    id ∈ s.shared.posted := by
  have once := h.once id
  rcases covered.reached hc hid with (hdone | hqueued) | ⟨d, hd, hpc⟩
  · have pos := List.count_pos_iff.2 hdone
    split at once
    · assumption
    · omega
  · have pos := List.count_pos_iff.2 hqueued
    rw [places] at once
    split at once
    · assumption
    · omega
  · refine (h.not_completed (t := t₀) ?_).1
    exact List.mem_flatMap.2 ⟨d, hd, by simp [Call.held, hpc, Pc.held]⟩

theorem Return.Complete.mono {w w' : World τ} {r : Return} (h : r.Complete w)
    (hsub : w.completed ⊆ w'.completed) : r.Complete w' :=
  fun hentry hvalue id hid => hsub (h hentry hvalue id hid)

/-- A thread that only gives work to the scheduler. -/
theorem Nested.other {t : τ} {act : Action} {b : World τ × Thread} (h : Nested t₀ s) (ht : t ≠ t₀)
    (nests : Nests t₀ (t, act)) (accounts : Accounts (s.shared, s.part t) b)
    (moves : Moves act (s.shared, s.part t) b) (funds : Funds (s.shared, s.part t) b)
    (hfinish : ¬act.MayFinish) : Nested t₀ (s.set t b) := by
  obtain ⟨hnil, hidle⟩ := h.others t ht
  have hcall (entry : Entry) : act ≠ .call entry := by
    rintro rfl
    exact ht nests
  have same : (s.set t b).part t₀ = s.part t₀ := Interleaving.part_set_of_ne ht.symm b
  have completed := accounts.completed.subset
  refine ⟨h.toKept.set accounts, ?_, ?_, ?_, ?_, ?_⟩
  · intro t' ht'
    by_cases heq : t' = t
    · subst heq
      rw [Interleaving.part_set_self]
      refine ⟨?_, fun hstop => ?_⟩
      · rcases moves.outside hnil with hnil' | ⟨entry, hact⟩
        · exact hnil'
        · exact absurd hact (hcall entry)
      · rcases moves.pending hstop with hstop' | hfinish' | ⟨⟨entry, hact⟩, -⟩
        · exact hidle hstop'
        · exact hfinish hfinish'
        · exact hcall entry hact
    · rw [Interleaving.part_set_of_ne heq]
      exact h.others t' ht'
  · rw [same]
    exact fun hpos => Int.lt_of_lt_of_le (h.funded hpos) funds.outstandingWork
  · rw [same]
    exact h.covered.mono (moves.reached hnil)
  · rw [same]
    intro hhalted c hc id hid
    refine completed (h.halted ?_ c hc id hid)
    rcases hhalted with hstop | hpending
    · exact .inl ((moves.stopped hstop).resolve_right hidle)
    · exact .inr hpending
  · intro r hr
    have before : r ∈ s.shared.returned := by
      by_contra hnew
      have returned := moves.returned (by simp [hnil, Covers]) r hr
      rcases returned with hold | ⟨hcalls | ⟨entry, hact⟩, -⟩
      · exact hnew hold
      · exact hcalls hnil
      · exact hcall entry hact
    exact (h.returned r before).mono completed

theorem mayFinish_of_calls {thr : Thread} {act : Action} (h : thr.CallsWorkFinished act) :
    act.MayFinish := by
  cases act with
  | workFinished | complete => trivial
  | _ => exact h.elim

theorem perform_not_mayFinish {t : τ} {act : Action} {w : World τ} {thr : Thread}
    {b : World τ × Thread} (hnil : thr.calls = []) (hact : act ≠ .workFinished)
    (hb : perform cfg t w thr act = some b) : ¬act.MayFinish := by
  intro may
  cases act with
  | workFinished => exact hact rfl
  | complete thrown => cases perform_performs hb <;> cases hnil
  | _ => exact may.elim

theorem Nested.runner_funded {act : Action} {b : World τ × Thread} (h : Nested t₀ s)
    (solvent : Solvent s (t₀, act))
    (funds : ¬(s.part t₀).CallsWorkFinished act → Funds (s.shared, s.part t₀) b)
    (hs : step cfg s (t₀, act) = some (s.set t₀ b)) :
    0 < ((s.set t₀ b).part t₀).credit → 0 < (s.set t₀ b).shared.scheduler.outstandingWork := by
  intro hpos
  by_cases hcalls : (s.part t₀).CallsWorkFinished act
  · have dec := (mayFinish_stops h.toKept (mayFinish_of_calls hcalls) hs).1 hcalls
    have work := dec.outstandingWork
    have credit := h.total_credit
    have credit' := dec.credit
    rw [Interleaving.total_eq_single _ _ t₀ fun t ht => by
      rw [Interleaving.part_set_of_ne ht]
      simp [Thread.credit, (h.others t ht).1]] at credit'
    have before := h.funded (by omega)
    have accounting := h.accounting
    have left := solvent hcalls
    omega
  · have funds := funds hcalls
    rw [Interleaving.part_set_self] at hpos
    refine Int.lt_of_lt_of_le ?_ funds.outstandingWork
    rcases funds.credit with hle | ⟨c, hc, hhandling⟩
    · exact h.funded (Int.lt_of_lt_of_le hpos hle)
    · obtain ⟨id, hpc⟩ := hhandling.eq_execute
      apply h.work_pos
      rw [List.countP_pos_iff]
      refine ⟨.handler id, List.mem_flatMap.2 ⟨c, List.mem_of_mem_head? hc, ?_⟩, rfl⟩
      simp [Call.held, hpc, Pc.held]

theorem Nested.complete_of_keeps {b : World τ × Thread} {c : Call} (h : Nested t₀ s)
    (completed : s.shared.completed ⊆ b.1.completed) (hkeeps : Keeps (s.shared, s.part t₀) c)
    (hhalted : s.shared.scheduler.stopped = true ∨ (s.part t₀).pending = .stop) :
    ∀ id ∈ c.ready, id ∈ b.1.completed := by
  intro id hid
  rcases hkeeps with ⟨c', hc', hready⟩ | hnil | ⟨hrunning, hidle⟩
  · rw [hready] at hid
    exact completed (h.halted hhalted c' hc' id hid)
  · simp [hnil] at hid
  · rcases hhalted with hstop | hpending
    · cases hrunning.symm.trans hstop
    · cases hidle.symm.trans hpending

theorem Nested.runner_halted {act : Action} {b : World τ × Thread} (h : Nested t₀ s)
    (solvent : Solvent s (t₀, act)) (kept : Kept (s.set t₀ b))
    (covered : Covers (Reached (s.set t₀ b).shared) ((s.set t₀ b).part t₀).calls)
    (accounts : Accounts (s.shared, s.part t₀) b) (moves : Moves act (s.shared, s.part t₀) b)
    (hs : step cfg s (t₀, act) = some (s.set t₀ b)) :
    (s.set t₀ b).shared.scheduler.stopped = true ∨ ((s.set t₀ b).part t₀).pending = .stop →
      ∀ c ∈ ((s.set t₀ b).part t₀).calls, ∀ id ∈ c.ready, id ∈ (s.set t₀ b).shared.completed := by
  intro hhalted c hc id hid
  have completed := accounts.completed.subset
  have all (hall : AllCompleted (s.set t₀ b).shared) : id ∈ b.1.completed :=
    hall id (kept.posted_of_ready covered hc hid)
  rw [Interleaving.part_set_self] at hc hhalted
  have keeps := moves.keeps c hc
  rcases hhalted with hstop | hpending
  · exact h.complete_of_keeps completed keeps (moves.stopped hstop) id hid
  · rcases moves.pending hpending with hbefore | may | ⟨⟨entry, rfl⟩, hzero⟩
    · exact h.complete_of_keeps completed keeps (.inr hbefore) id hid
    · refine all ((solvent_iff h.toKept kept hs).1 solvent may ?_)
      rw [Interleaving.part_set_self]
      exact hpending
    · refine all ?_
      have hall := h.completed_of_unfinished (h.unfinished_eq_zero hzero)
      obtain ⟨w, thr, hb, heq⟩ := Interleaving.step_eq_some.1 hs
      rw [← heq]
      have hb : Performs cfg t₀ s.shared (s.part t₀) (.call entry) (w, thr) := perform_performs hb
      generalize s.part t₀ = thr₀ at hb
      cases hb with
      | callIdle => exact hall
      | call => exact hall

theorem Nested.complete_of_justified {b : World τ × Thread} {r : Return} (h : Nested t₀ s)
    (completed : s.shared.completed ⊆ b.1.completed)
    (hr : Justified (s.shared, s.part t₀) b r) : r.Complete b.1 := by
  intro hentry hvalue id hid
  rcases hr hentry hvalue with hdone | ⟨hstop, hready⟩ | ⟨hzero, hready⟩
  · exact hdone id hid
  · rcases hready with hnil | ⟨c, hc, heq⟩
    · simp [hnil] at hid
    · rw [heq] at hid
      exact completed (h.halted (.inl hstop) c hc id hid)
  · have none := h.unfinished_eq_zero hzero
    have le := Interleaving.total_le s (fun thr => thr.held.countP Operation.isHandler) t₀
    simp only [unfinished] at none
    rcases hready id hid with hqueued | hheld
    · have pos : 0 < s.shared.scheduler.opQueue.countP Operation.isHandler :=
        List.countP_pos_iff.2 ⟨_, hqueued, rfl⟩
      omega
    · have pos : 0 < (s.part t₀).held.countP Operation.isHandler :=
        List.countP_pos_iff.2 ⟨_, hheld, rfl⟩
      omega

/-- The thread that runs the scheduler. -/
theorem Nested.runner {act : Action} {b : World τ × Thread} (h : Nested t₀ s)
    (solvent : Solvent s (t₀, act)) (accounts : Accounts (s.shared, s.part t₀) b)
    (moves : Moves act (s.shared, s.part t₀) b)
    (funds : ¬(s.part t₀).CallsWorkFinished act → Funds (s.shared, s.part t₀) b)
    (hs : step cfg s (t₀, act) = some (s.set t₀ b)) : Nested t₀ (s.set t₀ b) := by
  have kept := h.toKept.set accounts
  have completed := accounts.completed.subset
  have covered : Covers (Reached (s.set t₀ b).shared) ((s.set t₀ b).part t₀).calls := by
    rw [Interleaving.part_set_self]
    exact moves.covers h.covered
  refine ⟨kept, ?_, h.runner_funded solvent funds hs, covered, ?_, ?_⟩
  · intro t ht
    rw [Interleaving.part_set_of_ne ht]
    exact h.others t ht
  · exact h.runner_halted solvent kept covered accounts moves hs
  · intro r hr
    rcases moves.returned h.covered r hr with hold | ⟨-, hjustified⟩
    · exact (h.returned r hold).mono completed
    · exact h.complete_of_justified completed hjustified

theorem step_nested (h : Nested t₀ s) (nests : Nests t₀ a) (use : a.2.InUse)
    (solvent : Solvent s a) (hs : step cfg s a = some s') : Nested t₀ s' := by
  obtain ⟨w, thr, hb, rfl⟩ := Interleaving.step_eq_some.1 hs
  obtain ⟨t, act⟩ := a
  have hdrain : act ≠ .drain := by
    rintro rfl
    exact nests
  have settled := h.settled t
  have accounts := perform_accounts hdrain settled hb
  have moves := perform_moves settled (h.marker t) use hb
  by_cases ht : t = t₀
  · subst ht
    exact h.runner solvent accounts moves (fun hcalls => perform_funds settled hdrain hcalls hb) hs
  · have hact : act ≠ .workFinished := by
      rintro rfl
      exact ht nests
    have hfinish := perform_not_mayFinish (h.others t ht).1 hact hb
    have funds := perform_funds settled hdrain (fun hcalls => hfinish (mayFinish_of_calls hcalls)) hb
    exact h.other ht nests accounts moves funds hfinish

theorem step_kept (h : Kept s) (nests : Nests t₀ a) (hs : step cfg s a = some s') : Kept s' := by
  obtain ⟨w, thr, hb, rfl⟩ := Interleaving.step_eq_some.1 hs
  obtain ⟨t, act⟩ := a
  have hdrain : act ≠ .drain := by
    rintro rfl
    exact nests
  exact h.set (perform_accounts hdrain (h.settled t) hb)

/-- In every run `work_finished` stops the scheduler too early in the states that are not solvent
and only there; in runs through solvent states every `poll` completes what was ready. -/
theorem nested_poll (cfg : Config) (t₀ : τ) :
    (∀ s : State τ, Reachable (step cfg) (fun _ => Nests t₀) (initial cfg) s →
      ∀ a s', Nests t₀ a → step cfg s a = some s' →
        (Solvent s a ↔
          (a.2.MayFinish → (s'.part a.1).pending = .stop → AllCompleted s'.shared))) ∧
    ∀ s : State τ,
      Reachable (step cfg) (fun s a => Nests t₀ a ∧ a.2.InUse ∧ Solvent s a) (initial cfg) s →
        ∀ r ∈ s.shared.returned, r.Complete s.shared := by
  constructor
  · intro s h a s' nests hs
    have kept := h.invariant initial_kept fun kept nests hs => step_kept kept nests hs
    exact solvent_iff kept (step_kept kept nests hs) hs
  · intro s h
    have nested := h.invariant (I := Nested t₀) initial_nested fun nested ok hs =>
      step_nested nested ok.1 ok.2.1 ok.2.2 hs
    exact nested.returned

/-- A scheduler for one thread. -/
def unthreaded : Config where
  enabled := true
  oneThread := true
  ownThread := false

/-- Work keeps the scheduler running while a handler polls for the operation it has posted. -/
def pollingRun : List (Fin 1 × Action) :=
  [(0, .workStarted), (0, .postImmediate [0] false), (0, .lock), (0, .call .poll), (0, .enter),
    (0, .postImmediate [1] true), (0, .call .poll), (0, .enter), (0, .complete false),
    (0, .workCleanup), (0, .enter)]

theorem pollingRun_reaches : (exec (guarded (step unthreaded)
    fun s a => Nests 0 a ∧ a.2.InUse ∧ Solvent s a) (initial unthreaded) pollingRun).map
      (·.shared.returned) = some [⟨.poll, some 1, [1]⟩] := by
  decide +kernel

theorem nested_poll_polling : ∃ s : State (Fin 1),
    s.shared.returned = [⟨.poll, some 1, [1]⟩] ∧ 1 ∈ s.shared.completed := by
  obtain ⟨s, hs, hreturned⟩ := Option.map_eq_some_iff.1 pollingRun_reaches
  have complete := (nested_poll unthreaded 0).2 s (exec_guarded_reachable hs) ⟨.poll, some 1, [1]⟩
    (by simp [hreturned])
  exact ⟨s, hreturned, complete rfl (by simp) 1 (by simp)⟩

/-- A handler polls for the two operations it has posted. -/
def overdrawnRun : List (Fin 1 × Action) :=
  [(0, .postImmediate [0] false), (0, .lock), (0, .call .poll), (0, .enter),
    (0, .postImmediate [1, 2] true), (0, .call .poll), (0, .enter)]

instance (w : World τ) : Decidable (AllCompleted w) := List.decidableBAll _ _

instance (w : World τ) (r : Return) : Decidable (r.Complete w) :=
  inferInstanceAs (Decidable (_ → _ → _))

/-- The first of the two is completed and takes the count to zero while its handler still runs;
the scheduler is stopped and the second is left on the queue. -/
theorem nested_poll_stops_early :
    (∃ s s' : State (Fin 1),
      Reachable (step unthreaded) (fun _ => Nests 0) (initial unthreaded) s ∧
        step unthreaded s (0, .complete false) = some s' ∧ (s'.part 0).pending = .stop ∧
        ¬AllCompleted s'.shared) ∧
    ∃ s : State (Fin 1), Reachable (step unthreaded) (fun _ => Nests 0) (initial unthreaded) s ∧
      ∃ r ∈ s.shared.returned, ¬r.Complete s.shared := by
  have stops : (exec (guarded (step unthreaded) fun _ => Nests 0) (initial unthreaded)
      overdrawnRun).any (fun s : State (Fin 1) =>
        (step unthreaded s (0, .complete false)).any fun s' =>
          decide ((s'.part 0).pending = .stop ∧ ¬AllCompleted s'.shared)) = true := by
    decide +kernel
  have strands : (exec (guarded (step unthreaded) fun _ => Nests 0) (initial unthreaded)
      (overdrawnRun ++ [(0, .complete false), (0, .lock), (0, .workCleanup), (0, .enter)])).any
        (fun s : State (Fin 1) => decide (∃ r ∈ s.shared.returned, ¬r.Complete s.shared)) = true := by
    decide +kernel
  constructor
  · obtain ⟨s, hs, hnext⟩ := (Option.any_eq_true ..).1 stops
    obtain ⟨s', hs', hearly⟩ := (Option.any_eq_true ..).1 hnext
    obtain ⟨hstop, hopen⟩ := of_decide_eq_true hearly
    exact ⟨s, s', exec_guarded_reachable hs, hs', hstop, hopen⟩
  · obtain ⟨s, hs, hopen⟩ := (Option.any_eq_true ..).1 strands
    exact ⟨s, exec_guarded_reachable hs, of_decide_eq_true hopen⟩

end Runs

end Asio.Detail.Scheduler
