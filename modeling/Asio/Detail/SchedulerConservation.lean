import Asio.Detail.SchedulerLedger

/-! No operation is lost and none is completed twice; the task is run by one thread at a time. -/

universe u

namespace Asio.Detail.Scheduler

open Asio.Lib Asio.Lib.Transition

set_option linter.unusedSectionVars false

variable {τ : Type u} [DecidableEq τ] [Fintype τ] {cfg : Config} {s s' : State τ} {a : τ × Action}

structure Conserved (s : State τ) : Prop where
  once : ∀ id, places s (.handler id) + s.shared.completed.count id + s.shared.destroyed.count id =
    if id ∈ s.shared.posted then 1 else 0
  marker : s.shared.scheduler.opQueue.count .taskOperation +
      (s.total fun thr => thr.calls.countP fun c => c.pc.runsTask) =
    if s.shared.scheduler.task then 1 else 0

/-- The history only grows, and nothing but the end of `shutdown` destroys operations or takes
the task away. -/
structure Continues (s : State τ) (a : τ × Action) (s' : State τ) : Prop where
  posted : s.shared.posted <+: s'.shared.posted
  completed : s.shared.completed <+: s'.shared.completed
  destroyed : a.2 ≠ .drain → s'.shared.destroyed = s.shared.destroyed
  task : a.2 ≠ .drain → s.shared.scheduler.task = true → s'.shared.scheduler.task = true

theorem count_handler (id : Nat) (ids : List Nat) :
    ids.countP ((· == Operation.handler id) ∘ .handler) = ids.count id := by
  rw [List.count]
  apply List.countP_congr
  intro id' _
  simp

theorem Sound.posted_nodup (h : Sound s) : s.shared.posted.Nodup := by
  rw [List.nodup_iff_count_le_one]
  intro id
  have fresh := List.nodup_iff_count_le_one.1 h.fresh id
  have issued := h.issued (· == id)
  rw [List.count] at fresh ⊢
  omega

theorem Sound.once (h : Sound s) (id : Nat) :
    places s (.handler id) + s.shared.completed.count id + s.shared.destroyed.count id =
      if id ∈ s.shared.posted then 1 else 0 := by
  have held := h.held (· == .handler id) rfl
  simp only [World.assets, World.dues, count_handler, List.countP_singleton] at held
  rw [← List.Nodup.count h.posted_nodup]
  simp only [places, List.count] at held ⊢
  simp at held
  omega

theorem step_continues (h : Sound s) (hs : step cfg s a = some s') : Continues s a s' := by
  obtain ⟨w, thr, hb, rfl⟩ := Interleaving.step_eq_some.1 hs
  by_cases ha : a.2 = .drain
  · rw [ha] at hb
    have hb := perform_performs hb
    generalize s.part a.1 = part at hb
    cases hb
    exact ⟨List.prefix_rfl, List.prefix_rfl, fun hne => absurd ha hne,
      fun hne => absurd ha hne⟩
  · have accounts := perform_accounts ha (h.settled _) hb
    exact ⟨accounts.posted, accounts.completed, fun _ => accounts.destroyed,
      fun _ => accounts.task⟩

theorem operations_conserved (h : Reachable (step cfg) Legal (initial cfg) s) :
    Conserved s ∧ ∀ a s', Legal s a → step cfg s a = some s' → Continues s a s' := by
  have sound := reachable_sound h
  exact ⟨⟨sound.once, sound.marker⟩, fun a s' _ hs => step_continues sound hs⟩

/-- The second thread runs the reactor and then a handler, which posts a continuation. -/
def continuationRun : List (Fin 2 × Action) :=
  [(0, .initTask), (0, .postImmediate [0] false), (0, .lock), (1, .call .run), (1, .enter),
    (1, .taskReturn false), (1, .taskCleanup), (1, .postImmediate [1] true)]

def continuationEnd : World (Fin 2) where
  scheduler := {
    wakeupEvent := { state := 1, blocked := ∅, signals := 0 }
    task := true
    taskInterrupted := true
    outstandingWork := 1
    opQueue := [.taskOperation]
    stopped := false
    shutdown := false }
  guards := 0
  issued := [0, 1]
  started := []
  posted := [0, 1]
  completed := []
  destroyed := []
  returned := []

theorem continuationRun_reaches : (exec (guarded (step threaded) Legal) (initial threaded)
    continuationRun).map (·.shared) = some continuationEnd := by
  decide +kernel

theorem operations_conserved_continuation :
    ∃ s : State (Fin 2), s.shared = continuationEnd ∧ places s (.handler 1) = 1 ∧
      (s.total fun thr => thr.calls.countP fun c => c.pc.runsTask) = 0 := by
  obtain ⟨s, hs, hshared⟩ := Option.map_eq_some_iff.1 continuationRun_reaches
  have h := (operations_conserved (exec_guarded_reachable hs)).1
  refine ⟨s, hshared, ?_, ?_⟩
  · have once := h.once 1
    rw [hshared] at once
    simpa [continuationEnd] using once
  · have marker := h.marker
    rw [hshared] at marker
    simpa [continuationEnd] using marker

end Asio.Detail.Scheduler
