import Asio.Detail.IoUringRuns

/-! The pool from which I/O objects are registered. -/

namespace Asio.Detail.IoUring

open Lib Transition

namespace IoQueue

/-! ### A queue by itself -/

/-- What happens to a queue wherever its object is. -/
inductive Action
  | arm (sqe : Bool)
  | complete (i : Nat) (res : Int)
  | run (i : Nat)
  | dequeue
  | performIo (i : Nat) (outcome : Nat → ReactorOp.Outcome) (sqe : Bool)

/-- The operations that are completed, and the queue. -/
def step (q : IoQueue) : Action → Option (List ReactorOp × IoQueue)
  | .arm sqe => (q.arm sqe).map ([], ·)
  | .complete i res => (q.complete i res).map ([], ·)
  | .run i => (q.run i).map ([], ·)
  | .dequeue => q.dequeue.map ([], ·)
  | .performIo i outcome sqe =>
    q.running[i]?.map fun result =>
      let (ops, q) := q.performIo result outcome sqe
      (ops, { q with running := q.running.eraseIdx i })

/-- There is no operation, and no entry in the ring refers to the queue. -/
structure Idle (q : IoQueue) : Prop where
  opQueue : q.opQueue = []
  entries : q.entries = []
  scheduled : q.scheduled = 0
  running : q.running = []
  arming : q.arming = 0

def identities (q : IoQueue) : List (Nat × Nat) := q.opQueue.map ReactorOp.identity

variable {q q' : IoQueue} {a : Action} {ops : List ReactorOp}

theorem initial_idle : initial.Idle := ⟨rfl, rfl, rfl, rfl, rfl⟩

theorem Placed.idle (h : q.Placed) (hqueue : q.opQueue = []) : q.Idle := by
  rw [Placed, hqueue] at h
  simp only [List.isEmpty_nil, if_true] at h
  exact ⟨hqueue, List.length_eq_zero_iff.mp (by omega), by omega,
    List.length_eq_zero_iff.mp (by omega), by omega⟩

/-- Nothing happens to an idle queue. -/
theorem Idle.step (h : q.Idle) (a : Action) : q.step a = none := by
  cases a with
  | arm sqe => simp [IoQueue.step, IoQueue.arm, h.arming]
  | complete i res => simp [IoQueue.step, IoQueue.complete, h.entries]
  | run i => simp [IoQueue.step, IoQueue.run, h.entries]
  | dequeue => simp [IoQueue.step, IoQueue.dequeue, h.scheduled]
  | performIo i outcome sqe => simp [IoQueue.step, h.running]

theorem Placed.step (h : q.Placed) (hstep : q.step a = some (ops, q')) : q'.Placed := by
  cases a with
  | arm sqe =>
    obtain ⟨_, hq, ⟨⟩⟩ := Option.map_eq_some_iff.mp hstep
    exact h.arm hq
  | complete i res =>
    obtain ⟨_, hq, ⟨⟩⟩ := Option.map_eq_some_iff.mp hstep
    exact h.complete hq
  | run i =>
    obtain ⟨_, hq, ⟨⟩⟩ := Option.map_eq_some_iff.mp hstep
    exact h.run hq
  | dequeue =>
    obtain ⟨_, hq, ⟨⟩⟩ := Option.map_eq_some_iff.mp hstep
    exact h.dequeue hq
  | performIo i outcome sqe =>
    obtain ⟨_, hi, ⟨⟩⟩ := Option.map_eq_some_iff.mp hstep
    exact h.performIo hi outcome sqe

theorem startOp_identities (op : ReactorOp) (outcome : ReactorOp.Outcome) :
    ∀ p ∈ (q.startOp op outcome).2.identities, p ∈ q.identities ∨ p = op.identity := by
  intro p hp
  have hstarts := q.startOp_starts op outcome
  generalize q.startOp op outcome = r at hp hstarts
  obtain ⟨posted, q'⟩ := r
  cases posted with
  | some op' =>
    obtain ⟨-, -, rfl⟩ := hstarts
    exact Or.inl hp
  | none =>
    obtain ⟨⟨op', hid, hqueue⟩, -⟩ := hstarts
    simp only [identities, hqueue, List.map_append, List.map_singleton, List.mem_append,
      List.mem_singleton, hid] at hp
    exact hp

/-- The operations that still wait have waited before. -/
theorem step_identities (hstep : q.step a = some (ops, q')) :
    ∀ p ∈ q'.identities, p ∈ q.identities := by
  unfold identities
  cases a with
  | arm sqe =>
    obtain ⟨_, hq, ⟨⟩⟩ := Option.map_eq_some_iff.mp hstep
    rw [(arm_frame hq).1]
    exact fun _ hp => hp
  | complete i res =>
    obtain ⟨_, hq, ⟨⟩⟩ := Option.map_eq_some_iff.mp hstep
    rw [(complete_frame hq).1]
    exact fun _ hp => hp
  | run i =>
    obtain ⟨_, hq, ⟨⟩⟩ := Option.map_eq_some_iff.mp hstep
    rw [(run_frame hq).1]
    exact fun _ hp => hp
  | dequeue =>
    obtain ⟨_, hq, ⟨⟩⟩ := Option.map_eq_some_iff.mp hstep
    rw [(dequeue_frame hq).1]
    exact fun _ hp => hp
  | performIo i outcome sqe =>
    obtain ⟨result, hi, ⟨⟩⟩ := Option.map_eq_some_iff.mp hstep
    intro p hp
    rw [← q.performIo_identity result outcome sqe]
    exact List.mem_append_right _ hp

end IoQueue

/-! ### Objects -/

/-- The registration is the last one for which the object has been obtained. -/
structure IoObject where
  queues : OpType → IoQueue
  shutdown : Bool
  registration : Nat

namespace IoObject

def initial : IoObject := ⟨fun _ => .initial, false, 0⟩

def setQueue (o : IoObject) (t : OpType) (q : IoQueue) : IoObject :=
  { o with queues := Function.update o.queues t q }

/-- `register_io_object`, for an object that comes from the pool. -/
def register (o : IoObject) (registration : Nat) : IoObject where
  queues t := { o.queues t with cancelRequested := false }
  shutdown := false
  registration := registration

def cancelAll (o : IoObject) : List ReactorOp × IoObject :=
  ([OpType.read, .write, .except].flatMap fun t => (o.queues t).cancel.1,
    { o with queues := fun t => (o.queues t).cancel.2 })

def Idle (o : IoObject) : Prop := ∀ t, (o.queues t).Idle

def Placed (o : IoObject) : Prop := ∀ t, (o.queues t).Placed

theorem initial_idle : initial.Idle := fun _ => IoQueue.initial_idle

theorem initial_placed : initial.Placed := fun _ => IoQueue.placed_initial

end IoObject

/-! ### The service -/

namespace Pool

def badDescriptor : Nat := 9

/-- Objects are numbered in the order in which they are created. A registration has a handle to its
object until this is cleaned up. `startedOn` says on which registration operations have been
started. -/
structure State where
  objects : Nat → IoObject
  created : Nat
  freeList : List Nat
  registrations : Nat
  handle : Nat → Option Nat
  startedOn : List (Nat × Nat)
  completions : List ReactorOp

def initial : State := ⟨fun _ => .initial, 0, [], 0, fun _ => none, [], []⟩

inductive Action
  | registerIoObject
  | startOp (registration : Nat) (t : OpType) (op : ReactorOp) (outcome : ReactorOp.Outcome)
  | cancelOps (registration : Nat)
  | cancelOpsByKey (registration : Nat) (t : OpType) (cancellationKey : Nat)
  | deregisterIoObject (registration : Nat)
  | cleanupIoObject (registration : Nat)
  | queue (object : Nat) (t : OpType) (a : IoQueue.Action)

namespace State

def setObject (s : State) (i : Nat) (o : IoObject) : State :=
  { s with objects := Function.update s.objects i o }

def complete (s : State) (ops : List ReactorOp) : State :=
  { s with completions := s.completions ++ ops }

/-- The object at the start of the free list, or a new one. -/
def allocateIoObject (s : State) : Nat × State :=
  match s.freeList with
  | i :: freeList => (i, { s with freeList := freeList })
  | [] => (s.created, { s with created := s.created + 1 })

def registerIoObject (s : State) : State :=
  let (i, s) := s.allocateIoObject
  { s.setObject i ((s.objects i).register s.registrations) with
    registrations := s.registrations + 1
    handle := Function.update s.handle s.registrations (some i) }

def startOp (s : State) (registration : Nat) (t : OpType) (op : ReactorOp)
    (outcome : ReactorOp.Outcome) : State :=
  let s := { s with startedOn := s.startedOn ++ [(op.id, registration)] }
  match s.handle registration with
  | none => s.complete [op.complete badDescriptor]
  | some i =>
    if (s.objects i).shutdown then
      s.complete [op]
    else
      let (posted, q) := ((s.objects i).queues t).startOp op outcome
      (s.setObject i ((s.objects i).setQueue t q)).complete posted.toList

def cancelOps (s : State) (registration : Nat) : State :=
  match s.handle registration with
  | none => s
  | some i =>
    let (ops, o) := (s.objects i).cancelAll
    (s.setObject i o).complete ops

def cancelOpsByKey (s : State) (registration : Nat) (t : OpType) (cancellationKey : Nat) : State :=
  match s.handle registration with
  | none => s
  | some i =>
    let (ops, q) := ((s.objects i).queues t).cancelByKey cancellationKey
    (s.setObject i ((s.objects i).setQueue t q)).complete ops

def deregisterIoObject (s : State) (registration : Nat) : State :=
  match s.handle registration with
  | none => s
  | some i =>
    if (s.objects i).shutdown then
      { s with handle := Function.update s.handle registration none }
    else
      let (ops, o) := (s.objects i).cancelAll
      (s.setObject i { o with shutdown := true }).complete ops

def cleanupIoObject (s : State) (registration : Nat) : State :=
  match s.handle registration with
  | none => s
  | some i =>
    { s with
      freeList := i :: s.freeList
      handle := Function.update s.handle registration none }

end State

def step (s : State) : Action → Option State
  | .registerIoObject => some s.registerIoObject
  | .startOp registration t op outcome => some (s.startOp registration t op outcome)
  | .cancelOps registration => some (s.cancelOps registration)
  | .cancelOpsByKey registration t cancellationKey =>
    some (s.cancelOpsByKey registration t cancellationKey)
  | .deregisterIoObject registration => some (s.deregisterIoObject registration)
  | .cleanupIoObject registration => some (s.cleanupIoObject registration)
  | .queue i t a =>
    (((s.objects i).queues t).step a).map fun r =>
      (s.setObject i ((s.objects i).setQueue t r.2)).complete r.1

/-- Every operation is started once, and an object is deregistered before it is cleaned up. -/
def Legal (s : State) : Action → Prop
  | .startOp _ _ op _ => op.id ∉ s.startedOn.map (·.1)
  | .cleanupIoObject registration => ∀ i ∈ s.handle registration, (s.objects i).shutdown = true
  | _ => True

instance (s : State) (a : Action) : Decidable (Legal s a) := by
  induction a using Action.casesOn <;> dsimp only [Legal] <;> infer_instance

namespace State

variable {s s' : State}

/-! ### What belongs to a registration -/

/-- An object in the pool is idle, and one that has been registered has only operations of this
registration. -/
structure Owned (s : State) : Prop where
  placed : ∀ i, (s.objects i).Placed
  spare : ∀ i, i ∈ s.freeList ∨ s.created ≤ i → (s.objects i).Idle
  nodup : s.freeList.Nodup
  created : ∀ i ∈ s.freeList, i < s.created
  handle : ∀ r i, s.handle r = some i →
    i ∉ s.freeList ∧ i < s.created ∧ (s.objects i).registration = r
  own : ∀ i t, ∀ p ∈ ((s.objects i).queues t).identities,
    (p.1, (s.objects i).registration) ∈ s.startedOn

theorem initial_owned : Pool.initial.Owned where
  placed _ := IoObject.initial_placed
  spare _ _ := IoObject.initial_idle
  nodup := List.nodup_nil
  created := by rintro _ ⟨⟩
  handle := by rintro _ _ ⟨⟩
  own := by rintro _ _ _ ⟨⟩

theorem Owned.setObject (h : s.Owned) {i : Nat} {o : IoObject} (hfree : i ∉ s.freeList)
    (hcreated : i < s.created) (hplaced : o.Placed)
    (hregistration : o.registration = (s.objects i).registration)
    (hown : ∀ t, ∀ p ∈ (o.queues t).identities, (p.1, o.registration) ∈ s.startedOn) :
    (s.setObject i o).Owned where
  placed j := by
    by_cases hj : j = i
    · simp only [State.setObject, hj, Function.update_self]
      exact hplaced
    · simp only [State.setObject, Function.update_of_ne hj]
      exact h.placed j
  spare j hspare := by
    have hj : j ≠ i := by
      rintro rfl
      exact hspare.elim hfree fun hle => absurd hcreated (Nat.not_lt.mpr hle)
    simp only [State.setObject, Function.update_of_ne hj]
    exact h.spare j hspare
  nodup := h.nodup
  created := h.created
  handle r j hj := by
    obtain ⟨hfree', hcreated', hregistration'⟩ := h.handle r j hj
    refine ⟨hfree', hcreated', ?_⟩
    by_cases hji : j = i
    · subst hji
      simp only [State.setObject, Function.update_self]
      exact hregistration.trans hregistration'
    · simp only [State.setObject, Function.update_of_ne hji]
      exact hregistration'
  own j t := by
    by_cases hj : j = i
    · simp only [State.setObject, hj, Function.update_self]
      exact hown t
    · simp only [State.setObject, Function.update_of_ne hj]
      exact h.own j t

theorem Owned.complete (h : s.Owned) (ops : List ReactorOp) : (s.complete ops).Owned :=
  ⟨h.placed, h.spare, h.nodup, h.created, h.handle, h.own⟩

/-- One queue of an object that is in use changes. -/
theorem Owned.setQueue (h : s.Owned) {i : Nat} {t : OpType} {q : IoQueue}
    (hfree : i ∉ s.freeList) (hcreated : i < s.created) (hplaced : q.Placed)
    (hown : ∀ p ∈ q.identities, (p.1, (s.objects i).registration) ∈ s.startedOn) :
    (s.setObject i ((s.objects i).setQueue t q)).Owned := by
  refine h.setObject hfree hcreated (fun t' => ?_) rfl fun t' => ?_
  · by_cases ht : t' = t
    · simp only [IoObject.setQueue, ht, Function.update_self]
      exact hplaced
    · simp only [IoObject.setQueue, Function.update_of_ne ht]
      exact h.placed i t'
  · by_cases ht : t' = t
    · simp only [IoObject.setQueue, ht, Function.update_self]
      exact hown
    · simp only [IoObject.setQueue, Function.update_of_ne ht]
      exact h.own i t'

theorem Owned.clearHandle (h : s.Owned) (r : Nat) :
    ({ s with handle := Function.update s.handle r none } : State).Owned := by
  refine ⟨h.placed, h.spare, h.nodup, h.created, fun r' i hi => ?_, h.own⟩
  by_cases hr : r' = r
  · simp only [hr, Function.update_self, reduceCtorEq] at hi
  · simp only [Function.update_of_ne hr] at hi
    exact h.handle r' i hi

/-! ### What a step does -/

theorem Owned.startOp (h : s.Owned) (r : Nat) (t : OpType) (op : ReactorOp)
    (outcome : ReactorOp.Outcome) : (s.startOp r t op outcome).Owned := by
  let s₁ : State := { s with startedOn := s.startedOn ++ [(op.id, r)] }
  have h₁ : s₁.Owned := ⟨h.placed, h.spare, h.nodup, h.created, h.handle, fun i t p hp =>
    List.mem_append_left _ (h.own i t p hp)⟩
  simp only [State.startOp]
  split
  · exact h₁.complete _
  · rename_i i hi
    split
    · exact h₁.complete _
    · obtain ⟨hfree, hcreated, hregistration⟩ := h₁.handle r i hi
      refine Owned.complete ?_ _
      refine h₁.setQueue hfree hcreated ((h.placed i t).startOp op outcome) fun p hp => ?_
      rcases IoQueue.startOp_identities op outcome p hp with hp | rfl
      · exact h₁.own i t p hp
      · rw [hregistration]
        exact List.mem_append_right _ (List.mem_singleton_self _)

theorem Owned.cancelAll (h : s.Owned) {i : Nat} (hfree : i ∉ s.freeList) (hcreated : i < s.created)
    (shutdown : Bool) :
    (s.setObject i { (s.objects i).cancelAll.2 with shutdown := shutdown }).Owned := by
  refine h.setObject hfree hcreated (fun t => (h.placed i t).cancel) rfl fun t p hp => ?_
  exact h.own i t p (((s.objects i).queues t).cancel_identity.1.subset hp)

/-- The object that is allocated is idle, and no registration has it. -/
structure Spare (s : State) (i : Nat) : Prop where
  idle : (s.objects i).Idle
  free : i ∉ s.freeList
  created : i < s.created
  handle : ∀ r, s.handle r ≠ some i

theorem Owned.allocateIoObject (h : s.Owned) :
    s.allocateIoObject.2.Owned ∧ s.allocateIoObject.2.Spare s.allocateIoObject.1 := by
  unfold State.allocateIoObject
  split
  · rename_i i freeList hlist
    obtain ⟨hnew, hnodup⟩ := List.nodup_cons.mp (hlist ▸ h.nodup)
    have hmem (j : Nat) (hj : j ∈ freeList) : j ∈ s.freeList := by
      rw [hlist]
      exact List.mem_cons_of_mem _ hj
    have hhead : i ∈ s.freeList := by
      rw [hlist]
      exact List.mem_cons_self ..
    refine ⟨⟨h.placed, fun j hspare => h.spare j (hspare.imp_left (hmem j)), hnodup,
      fun j hj => h.created j (hmem j hj), fun r j hj => ?_, h.own⟩, ?_⟩
    · obtain ⟨hfree, hcreated, hregistration⟩ := h.handle r j hj
      exact ⟨fun hj => hfree (hmem j hj), hcreated, hregistration⟩
    · exact ⟨h.spare i (Or.inl hhead), hnew, h.created i hhead, fun r hr => (h.handle r i hr).1 hhead⟩
  · rename_i hlist
    refine ⟨⟨h.placed, fun j hspare => h.spare j (hspare.imp_right Nat.le_of_succ_le), h.nodup,
      fun j hj => Nat.lt_succ_of_lt (h.created j hj), fun r j hj => ?_, h.own⟩, ?_⟩
    · obtain ⟨hfree, hcreated, hregistration⟩ := h.handle r j hj
      exact ⟨hfree, Nat.lt_succ_of_lt hcreated, hregistration⟩
    · refine ⟨h.spare _ (Or.inr (Nat.le_refl _)), ?_, Nat.lt_succ_self _, fun r hr => ?_⟩
      · rw [hlist]
        exact List.not_mem_nil
      · exact absurd (h.handle r _ hr).2.1 (Nat.lt_irrefl _)

theorem idle_register {o : IoObject} (h : o.Idle) (r : Nat) : (o.register r).Idle :=
  fun t => ⟨(h t).opQueue, (h t).entries, (h t).scheduled, (h t).running, (h t).arming⟩

theorem idle_own {o : IoObject} (h : o.Idle) (t : OpType) : (o.queues t).identities = [] := by
  rw [IoQueue.identities, (h t).opQueue, List.map_nil]

/-- The handle of the new registration is the only one to its object. -/
theorem Owned.register (h : s.Owned) {i : Nat} (hspare : s.Spare i) (r : Nat) :
    ({ s.setObject i ((s.objects i).register r) with
      registrations := r + 1
      handle := Function.update s.handle r (some i) } : State).Owned := by
  have hidle := idle_register hspare.idle r
  refine ⟨fun j => ?_, fun j hj => ?_, h.nodup, h.created, fun r' j hj => ?_, fun j t => ?_⟩
  · by_cases hji : j = i
    · simp only [State.setObject, hji, Function.update_self]
      exact h.placed i
    · simp only [State.setObject, Function.update_of_ne hji]
      exact h.placed j
  · have hji : j ≠ i := by
      rintro rfl
      exact hj.elim hspare.free fun hle => absurd hspare.created (Nat.not_lt.mpr hle)
    simp only [State.setObject, Function.update_of_ne hji]
    exact h.spare j hj
  · by_cases hr : r' = r
    · simp only [hr, Function.update_self, Option.some.injEq] at hj
      subst hj
      refine ⟨hspare.free, hspare.created, ?_⟩
      simp only [State.setObject, Function.update_self, IoObject.register, hr]
    · simp only [Function.update_of_ne hr] at hj
      have hji : j ≠ i := by
        rintro rfl
        exact hspare.handle r' hj
      simp only [State.setObject, Function.update_of_ne hji]
      exact h.handle r' j hj
  · by_cases hji : j = i
    · simp only [State.setObject, hji, Function.update_self, idle_own hidle]
      rintro _ ⟨⟩
    · simp only [State.setObject, Function.update_of_ne hji]
      exact h.own j t

theorem Owned.registerIoObject (h : s.Owned) : s.registerIoObject.Owned := by
  obtain ⟨howned, hspare⟩ := h.allocateIoObject
  exact howned.register hspare _

theorem Owned.cleanupIoObject (h : s.Owned) {r : Nat}
    (hidle : ∀ i ∈ s.handle r, ∀ t, ((s.objects i).queues t).opQueue = []) :
    (s.cleanupIoObject r).Owned := by
  unfold State.cleanupIoObject
  split
  · exact h
  · rename_i i hi
    obtain ⟨hfree, hcreated, hregistration⟩ := h.handle r i hi
    refine ⟨h.placed, fun j hspare => ?_, List.nodup_cons.mpr ⟨hfree, h.nodup⟩, fun j hj => ?_,
      fun r' j hj => ?_, h.own⟩
    · rcases hspare with hspare | hspare
      · rcases List.mem_cons.mp hspare with rfl | hspare
        · exact fun t => (h.placed j t).idle (hidle j hi t)
        · exact h.spare j (Or.inl hspare)
      · exact h.spare j (Or.inr hspare)
    · rcases List.mem_cons.mp hj with rfl | hj
      · exact hcreated
      · exact h.created j hj
    · by_cases hr : r' = r
      · simp only [hr, Function.update_self, reduceCtorEq] at hj
      · simp only [Function.update_of_ne hr] at hj
        obtain ⟨hfree', hcreated', hregistration'⟩ := h.handle r' j hj
        refine ⟨fun hmem => ?_, hcreated', hregistration'⟩
        rcases List.mem_cons.mp hmem with rfl | hmem
        · exact hr (hregistration'.symm.trans hregistration)
        · exact hfree' hmem

theorem Owned.queue (h : s.Owned) {i : Nat} {t : OpType} {a : IoQueue.Action}
    {r : List ReactorOp × IoQueue} (hr : ((s.objects i).queues t).step a = some r) :
    ((s.setObject i ((s.objects i).setQueue t r.2)).complete r.1).Owned := by
  have hbusy : ¬ (i ∈ s.freeList ∨ s.created ≤ i) := by
    intro hspare
    rw [(h.spare i hspare t).step a] at hr
    cases hr
  obtain ⟨hfree, hcreated⟩ := not_or.mp hbusy
  refine Owned.complete ?_ _
  exact h.setQueue hfree (Nat.not_le.mp hcreated) ((h.placed i t).step hr) fun p hp =>
    h.own i t p (IoQueue.step_identities hr p hp)

/-- An object is cleaned up when no operation waits in its queues. -/
def CleansIdle (s : State) : Action → Prop
  | .cleanupIoObject r => ∀ i ∈ s.handle r, ∀ t, ((s.objects i).queues t).opQueue = []
  | _ => True

theorem Owned.step (h : s.Owned) {a : Action} (ha : s.CleansIdle a) (hstep : step s a = some s') :
    s'.Owned := by
  cases a with
  | registerIoObject =>
    cases hstep
    exact h.registerIoObject
  | startOp r t op outcome =>
    cases hstep
    exact h.startOp r t op outcome
  | cancelOps r =>
    cases hstep
    unfold State.cancelOps
    split
    · exact h
    · rename_i i hi
      obtain ⟨hfree, hcreated, -⟩ := h.handle r i hi
      exact (h.cancelAll hfree hcreated _).complete _
  | cancelOpsByKey r t key =>
    cases hstep
    unfold State.cancelOpsByKey
    split
    · exact h
    · rename_i i hi
      obtain ⟨hfree, hcreated, -⟩ := h.handle r i hi
      have hsub := (((s.objects i).queues t).cancelByKey_identity key).1.subset
      exact (h.setQueue hfree hcreated ((h.placed i t).cancelByKey key) fun p hp =>
        h.own i t p (hsub hp)).complete _
  | deregisterIoObject r =>
    cases hstep
    unfold State.deregisterIoObject
    split
    · exact h
    · rename_i i hi
      split
      · exact h.clearHandle r
      · obtain ⟨hfree, hcreated, -⟩ := h.handle r i hi
        exact (h.cancelAll hfree hcreated true).complete _
  | cleanupIoObject r =>
    cases hstep
    exact h.cleanupIoObject ha
  | queue i t a =>
    obtain ⟨r, hr, rfl⟩ := Option.map_eq_some_iff.mp hstep
    exact h.queue hr

/-! ### Runs -/

/-- The object that is obtained by the next registration is idle, and the operations that wait in an
object have been started on its own registration. -/
structure Unshared (s : State) : Prop where
  obtained : (s.registerIoObject.objects s.allocateIoObject.1).Idle
  own : ∀ r i, s.handle r = some i → ∀ t, ∀ p ∈ ((s.objects i).queues t).identities,
    (p.1, r) ∈ s.startedOn

theorem registerIoObject_object (s : State) :
    s.registerIoObject.objects s.allocateIoObject.1 =
      (s.objects s.allocateIoObject.1).register s.registrations := by
  simp only [registerIoObject, allocateIoObject]
  split <;> simp only [setObject, Function.update_self]

theorem allocateIoObject_objects (s : State) : s.allocateIoObject.2.objects = s.objects := by
  unfold allocateIoObject
  split <;> rfl

theorem Owned.unshared (h : s.Owned) : s.Unshared where
  obtained := by
    have hidle := h.allocateIoObject.2.idle
    rw [allocateIoObject_objects] at hidle
    rw [registerIoObject_object]
    exact idle_register hidle _
  own r i hi t p hp := by
    have hown := h.own i t p hp
    rwa [(h.handle r i hi).2.2] at hown

theorem cleansIdle_of_unshared {r : Nat} (h : (s.cleanupIoObject r).Unshared) {i : Nat}
    (hi : s.handle r = some i) (t : OpType) : ((s.objects i).queues t).opQueue = [] := by
  have hobtained := h.obtained
  rw [registerIoObject_object] at hobtained
  simp only [cleanupIoObject, hi] at hobtained
  exact (hobtained t).opQueue

theorem Owned.unshared_iff (h : s.Owned) {a : Action} (hstep : Pool.step s a = some s') :
    s'.Unshared ↔ s.CleansIdle a := by
  refine ⟨fun hunshared => ?_, fun ha => (h.step ha hstep).unshared⟩
  cases a with
  | cleanupIoObject r =>
    cases hstep
    exact fun i hi => cleansIdle_of_unshared hunshared hi
  | _ => exact trivial

/-- The objects that can be obtained are idle and are not shared between registrations in the whole
run, exactly if every object is cleaned up when no operation waits in it. -/
theorem objects_not_shared (run : List Action) :
    Along (guarded step Legal) (fun _ _ s => s.Unshared) Pool.initial run ↔
      Along (guarded step Legal) (fun s a _ => s.CleansIdle a) Pool.initial run := by
  refine along_iff (I := Owned) initial_owned (fun h hstep => ?_) fun h hstep ha => ?_
  · exact h.unshared_iff (guarded_eq_some hstep).2
  · exact h.step ha (guarded_eq_some hstep).2

/-- A read waits for its cancelled completion when its object is cleaned up and registered again. -/
def closedWhileReading : List Action :=
  [.registerIoObject, .startOp 0 .read ⟨0, 0, 1, 0⟩ ⟨.notDone, 0, 0⟩, .queue 0 .read (.arm true),
    .deregisterIoObject 0, .cleanupIoObject 0, .registerIoObject,
    .startOp 1 .read ⟨1, 0, 1, 0⟩ ⟨.notDone, 0, 0⟩]

theorem operation_behind_closed :
    ¬ ∀ run, Along (guarded step Legal) (fun _ _ s => s.Unshared) Pool.initial run := by
  intro hall
  have hrun : (exec (guarded step Legal) Pool.initial closedWhileReading).map
      (fun s => (s.handle 1, ((s.objects 0).queues .read).identities, s.startedOn)) =
      some (some 0, [(0, 1), (1, 1)], [(0, 0), (1, 1)]) := by
    decide +kernel
  obtain ⟨s, hs, heq⟩ := Option.map_eq_some_iff.mp hrun
  simp only [Prod.mk.injEq] at heq
  obtain ⟨hhandle, hqueue, hstarted⟩ := heq
  have hunshared := Along.last (hall closedWhileReading) (by decide) hs
  have hown := hunshared.own 1 0 hhandle .read (0, 1) (by rw [hqueue]; exact List.mem_cons_self ..)
  rw [hstarted] at hown
  exact absurd hown (by decide)

end State

end Pool

end Asio.Detail.IoUring
