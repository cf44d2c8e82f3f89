import Asio.Detail.EpollReactorRuns

/-! The descriptor of the epoll reactor and the kernel, which reports that it becomes ready. -/

namespace Asio.Detail.Epoll

open Lib Transition DescriptorState

/-! ### The kernel -/

/-- For which types the descriptor is ready, for which its events are registered, and for which an
edge has not been delivered. -/
structure Kernel where
  ready : OpType → Bool
  registered : OpType → Bool
  edge : OpType → Bool

namespace Kernel

inductive Event
  | becomesReady (t : OpType)
  | becomesUnready (t : OpType)
  | signal (t : OpType)

/-- `EPOLL_CTL_ADD` reports what is ready, as does `EPOLL_CTL_MOD`. -/
def register (ready : OpType → Bool) (supported : Bool) : Kernel where
  ready := ready
  registered t := supported && t ≠ .write
  edge t := supported && t ≠ .write && ready t

def apply (k : Kernel) : Event → Kernel
  | .becomesReady t => { k with
      ready := Function.update k.ready t true
      edge := if k.registered t && !k.ready t then Function.update k.edge t true else k.edge }
  | .becomesUnready t => { k with ready := Function.update k.ready t false }
  | .signal t => { k with
      edge := if k.registered t then Function.update k.edge t true else k.edge }

def applyAll (k : Kernel) (events : List Event) : Kernel := events.foldl apply k

/-- `EPOLL_CTL_MOD`, for an operation of a type. -/
def rearm (k : Kernel) (t : OpType) : Kernel where
  ready := k.ready
  registered u := k.registered u || (t = .write && u = .write)
  edge u := k.edge u || ((k.registered u || (t = .write && u = .write)) && k.ready u)

/-- An operation that is performed may use up what the descriptor is ready for. -/
def use (k : Kernel) (t : OpType) (stillReady : Bool) : Kernel :=
  { k with ready := Function.update k.ready t (k.ready t && stillReady) }

def deliver (k : Kernel) : Kernel := { k with edge := fun _ => false }

def deregister (k : Kernel) : Kernel := { k with registered := fun _ => false }

/-- The kernel while an operation is performed. If it is not done the descriptor is not ready, and
if it has exhausted the descriptor this is not ready afterwards. -/
def perform (k : Kernel) (t : OpType) (status : ReactorOp.Status) (stillReady : Bool) :
    Option Kernel :=
  match status with
  | .notDone => if k.ready t then none else some k
  | .done => some (k.use t stillReady)
  | .doneAndExhausted =>
    if k.ready t && stillReady then none else some (k.use t stillReady)

/-- What the performance of an operation leaves of the readiness, and what happens then. -/
structure Effect where
  stillReady : Bool
  events : List Event

/-- The kernel while a queue is performed. -/
def performQueue (t : OpType) (outcome : Nat → ReactorOp.Outcome) (effect : Nat → Effect) :
    List ReactorOp → Kernel → Option Kernel
  | [], k => some k
  | op :: queue, k =>
    (k.perform t (outcome op.id).status (effect op.id).stillReady).bind fun k =>
      let k := k.applyAll (effect op.id).events
      if (outcome op.id).status = .done then
        performQueue t outcome effect queue k
      else
        some k

/-- The kernel while `perform_io` goes through the queues. -/
def performFrom (events : BitVec 32) (outcome : Nat → ReactorOp.Outcome) (effect : Nat → Effect) :
    List OpType → DescriptorState → Kernel → Option Kernel
  | [], _, k => some k
  | t :: ts, d, k =>
    if events &&& (flag t ||| errEvent ||| hupEvent) = 0 then
      performFrom events outcome effect ts d k
    else
      (performQueue t outcome effect (d.opQueue t) k).bind fun k =>
        let (_, queue, trySpeculative) := DescriptorState.performQueue outcome (d.opQueue t)
        performFrom events outcome effect ts
          ((d.setQueue t queue).setTrySpeculative t trySpeculative) k

end Kernel

/-! ### The calls of `epoll_ctl` -/

/-- Whether `start_op` calls `epoll_ctl`, and whether it looks at the result. -/
inductive Ctl
  | none | checked | ignored
  deriving DecidableEq

def DescriptorState.epollCtl (d : DescriptorState) (t : OpType) (allowSpeculative : Bool)
    (outcome : ReactorOp.Outcome) : Ctl :=
  if d.shutdown then
    .none
  else if (d.opQueue t).isEmpty then
    if allowSpeculative ∧ (t ≠ .read ∨ (d.opQueue .except).isEmpty) then
      if d.trySpeculative t ∧ outcome.status ≠ .notDone then
        .none
      else if d.registeredEvents ≠ 0 ∧ t = .write ∧ d.registeredEvents &&& outEvent = 0 then
        .checked
      else
        .none
    else if d.registeredEvents = 0 then
      .none
    else
      .ignored
  else
    .none

/-! ### The system -/

structure Watched where
  reactor : State
  kernel : Kernel

namespace Watched

def initial (supported : Bool) (ready : OpType → Bool) : Watched :=
  ⟨Epoll.initial supported, .register ready supported⟩

inductive Action
  | startOp (t : OpType) (op : ReactorOp) (isContinuation allowSpeculative : Bool)
      (outcome : ReactorOp.Outcome) (epollCtl : Option Nat) (effect : Kernel.Effect)
  | cancelOps
  | cancelOpsByKey (t : OpType) (cancellationKey : Nat)
  | deregisterDescriptor
  | run (events : BitVec 32)
  | dequeue
  | performIo (events : BitVec 32) (outcome : Nat → ReactorOp.Outcome)
      (effect : Nat → Kernel.Effect)
  | kernel (event : Kernel.Event)

/-- Events concern the operations of a type. -/
def Concerns (events : BitVec 32) (t : OpType) : Prop :=
  events &&& (flag t ||| errEvent ||| hupEvent) ≠ 0

instance (events : BitVec 32) (t : OpType) : Decidable (Concerns events t) :=
  inferInstanceAs (Decidable (_ ≠ _))

/-- Whether `start_op` performs the operation. -/
def performs (s : State) (t : OpType) (op : ReactorOp) (allowSpeculative : Bool)
    (outcome : ReactorOp.Outcome) (epollCtl : Option Nat) : Bool :=
  s.hasData && (s.data.startOp t op allowSpeculative outcome epollCtl).performed

/-- The operation is performed, something else happens, and the events are registered again. -/
def startKernel (w : Watched) (t : OpType) (op : ReactorOp) (allowSpeculative : Bool)
    (outcome : ReactorOp.Outcome) (epollCtl : Option Nat) (effect : Kernel.Effect) :
    Option Kernel :=
  let performed :=
    if performs w.reactor t op allowSpeculative outcome epollCtl then
      w.kernel.perform t outcome.status effect.stillReady
    else
      some w.kernel
  performed.map fun k =>
    let k := k.applyAll effect.events
    if w.reactor.hasData ∧ w.reactor.data.epollCtl t allowSpeculative outcome ≠ .none ∧
        epollCtl = none then
      k.rearm t
    else
      k

/-- An edge of a descriptor that is ready is delivered. -/
def Delivers (k : Kernel) (events : BitVec 32) : Prop :=
  ∀ t ∈ [OpType.read, .write, .except], k.edge t → k.ready t → Concerns events t

instance (k : Kernel) (events : BitVec 32) : Decidable (Delivers k events) :=
  inferInstanceAs (Decidable (∀ t ∈ [OpType.read, .write, .except], _ → _ → _))

def step (w : Watched) : Action → Option Watched
  | .startOp t op isContinuation allowSpeculative outcome epollCtl effect =>
    (w.startKernel t op allowSpeculative outcome epollCtl effect).map fun k =>
      ⟨w.reactor.startOp t op isContinuation allowSpeculative outcome epollCtl, k⟩
  | .cancelOps => some { w with reactor := w.reactor.cancelOps }
  | .cancelOpsByKey t cancellationKey =>
    some { w with reactor := w.reactor.cancelOpsByKey t cancellationKey }
  | .deregisterDescriptor =>
    some ⟨w.reactor.deregisterDescriptor,
      if w.reactor.hasData ∧ w.reactor.data.shutdown = false then
        w.kernel.deregister
      else
        w.kernel⟩
  | .run events =>
    if Delivers w.kernel events then some ⟨w.reactor.run events, w.kernel.deliver⟩ else none
  | .dequeue => w.reactor.dequeue.map fun s => { w with reactor := s }
  | .performIo events outcome effect =>
    (w.reactor.performIo events outcome).bind fun s =>
      (Kernel.performFrom events outcome effect [.except, .write, .read] w.reactor.data
        w.kernel).map fun k => ⟨s, k⟩
  | .kernel event => some { w with kernel := w.kernel.apply event }

/-- The call of `epoll_ctl` of which `start_op` ignores the result succeeds. -/
def Rearms (w : Watched) : Action → Prop
  | .startOp t _ _ allowSpeculative outcome epollCtl _ =>
    w.reactor.hasData → w.reactor.data.epollCtl t allowSpeculative outcome = .ignored →
      epollCtl = none
  | _ => True

instance (w : Watched) (a : Action) : Decidable (w.Rearms a) := by
  induction a using Action.casesOn <;> dsimp only [Rearms] <;> infer_instance

end Watched

/-! ### What the kernel tells -/

namespace Kernel

/-- If the descriptor is ready for a type, for which its events are registered, there is an edge or
something else. -/
def Told (k : Kernel) (t : OpType) (X : Prop) : Prop :=
  k.registered t = true ∧ (k.ready t = true → k.edge t = true ∨ X)

variable {k k' : Kernel} {t u : OpType} {X : Prop}

theorem Told.imp {Y : Prop} (h : k.Told u X) (hXY : X → Y) : k.Told u Y :=
  ⟨h.1, fun hready => (h.2 hready).imp_right hXY⟩

theorem Told.apply (h : k.Told u X) (event : Event) : (k.apply event).Told u X := by
  obtain ⟨hregistered, htold⟩ := h
  refine ⟨by cases event <;> exact hregistered, ?_⟩
  cases event with
  | becomesReady t =>
    simp only [Kernel.apply]
    by_cases hu : u = t
    · subst hu
      intro _
      cases hready : k.ready u with
      | true => simpa [hready] using htold hready
      | false => simp [hregistered]
    · rw [Function.update_of_ne hu]
      intro hready
      split
      · rw [Function.update_of_ne hu]
        exact htold hready
      · exact htold hready
  | becomesUnready t =>
    simp only [Kernel.apply]
    by_cases hu : u = t
    · subst hu
      rw [Function.update_self]
      rintro ⟨⟩
    · rw [Function.update_of_ne hu]
      exact htold
  | signal t =>
    intro hready
    simp only [Kernel.apply]
    split
    · by_cases hu : u = t
      · exact Or.inl (hu ▸ Function.update_self ..)
      · rw [Function.update_of_ne hu]
        exact htold hready
    · exact htold hready

theorem Told.applyAll (h : k.Told u X) (events : List Event) : (k.applyAll events).Told u X := by
  induction events generalizing k with
  | nil => exact h
  | cons event events ih => exact ih (h.apply event)

theorem Told.use (h : k.Told u X) (t : OpType) (stillReady : Bool) :
    (k.use t stillReady).Told u X := by
  refine ⟨h.1, fun hready => h.2 ?_⟩
  simp only [Kernel.use] at hready
  by_cases hu : u = t
  · subst hu
    rw [Function.update_self, Bool.and_eq_true] at hready
    exact hready.1
  · rwa [Function.update_of_ne hu] at hready

/-- Whatever is ready when it is registered again is told. -/
theorem told_rearm (hregistered : (k.rearm t).registered u = true) : (k.rearm t).Told u X := by
  refine ⟨hregistered, fun hready => Or.inl ?_⟩
  simp only [Kernel.rearm] at hregistered hready ⊢
  rw [hregistered, hready]
  exact Bool.or_true _

theorem registered_again {P : Prop} [Decidable P] (hsame : k'.registered = k.registered)
    (h : k.registered u = true ∨ (u = .write ∧ t = .write ∧ P)) :
    (if P then k'.rearm t else k').registered u = true := by
  rw [← hsame] at h
  split
  · simp only [Kernel.rearm, Bool.or_eq_true, Bool.and_eq_true, decide_eq_true_eq]
    exact h.imp_right fun hwrite => ⟨hwrite.2.1, hwrite.1⟩
  · rename_i hP
    exact h.resolve_right fun hwrite => hP hwrite.2.2

theorem told_of_unready (hregistered : k.registered t = true) (hready : k.ready t = false) :
    k.Told t X :=
  ⟨hregistered, fun h => by rw [hready] at h; cases h⟩

theorem applyAll_registered (k : Kernel) (events : List Event) :
    (k.applyAll events).registered = k.registered := by
  induction events generalizing k with
  | nil => rfl
  | cons event events ih =>
    refine (ih (k.apply event)).trans ?_
    cases event <;> rfl

/-! ### Performing operations -/

variable {status : ReactorOp.Status} {stillReady : Bool}

theorem perform_registered (h : k.perform t status stillReady = some k') :
    k'.registered = k.registered := by
  unfold perform at h
  split at h
  · split at h <;> cases h
    rfl
  · cases h
    rfl
  · split at h <;> cases h
    rfl

theorem Told.perform (htold : k.Told u X) (h : k.perform t status stillReady = some k') :
    k'.Told u X := by
  unfold Kernel.perform at h
  split at h
  · split at h <;> cases h
    exact htold
  · cases h
    exact htold.use t stillReady
  · split at h <;> cases h
    exact htold.use t stillReady

/-- An operation that is not just done leaves the descriptor unready. -/
theorem perform_unready (h : k.perform t status stillReady = some k') (hstatus : status ≠ .done) :
    k'.ready t = false := by
  unfold Kernel.perform at h
  split at h
  · split at h
    · cases h
    · rename_i hready
      cases h
      exact eq_false_of_ne_true hready
  · exact absurd rfl hstatus
  · split at h
    · cases h
    · rename_i hready
      cases h
      simp only [Kernel.use, Function.update_self]
      exact eq_false_of_ne_true hready

section Queues

variable {outcome : Nat → ReactorOp.Outcome} {effect : Nat → Effect}

theorem performQueue_registered {queue : List ReactorOp}
    (h : performQueue t outcome effect queue k = some k') : k'.registered = k.registered := by
  induction queue generalizing k with
  | nil =>
    cases h
    rfl
  | cons op queue ih =>
    obtain ⟨k₁, hperform, h⟩ := Option.bind_eq_some_iff.mp h
    have hregistered := (applyAll_registered k₁ (effect op.id).events).trans
      (perform_registered hperform)
    split at h
    · exact (ih h).trans hregistered
    · cases h
      exact hregistered

theorem Told.performQueue {queue : List ReactorOp} (htold : k.Told u X)
    (h : Kernel.performQueue t outcome effect queue k = some k') : k'.Told u X := by
  induction queue generalizing k with
  | nil =>
    cases h
    exact htold
  | cons op queue ih =>
    obtain ⟨k₁, hperform, h⟩ := Option.bind_eq_some_iff.mp h
    have htold := (htold.perform hperform).applyAll (effect op.id).events
    split at h
    · exact ih htold h
    · cases h
      exact htold

/-- When operations still wait, or speculation is given up, the kernel tells that the descriptor has
become ready since. -/
theorem told_performQueue {queue : List ReactorOp} (hregistered : k.registered t = true)
    (h : performQueue t outcome effect queue k = some k')
    (hleft : (DescriptorState.performQueue outcome queue).2.1 ≠ [] ∨
      (DescriptorState.performQueue outcome queue).2.2 = false) : k'.Told t X := by
  induction queue generalizing k with
  | nil => exact hleft.elim (fun hne => absurd rfl hne) nofun
  | cons op queue ih =>
    obtain ⟨k₁, hperform, h⟩ := Option.bind_eq_some_iff.mp h
    have hregistered₁ : k₁.registered t = true := by rwa [perform_registered hperform]
    by_cases hdone : (outcome op.id).status = .done
    · rw [if_pos hdone] at h
      refine ih (by rwa [applyAll_registered]) h ?_
      simpa only [DescriptorState.performQueue, ReactorOp.perform, hdone] using hleft
    · rw [if_neg hdone] at h
      cases h
      exact (told_of_unready hregistered₁ (perform_unready hperform hdone)).applyAll _

end Queues

end Kernel

namespace DescriptorState

/-- There is an operation that has to be told, or a reason not to try one. -/
def Watches (d : DescriptorState) (t : OpType) : Prop :=
  d.opQueue t ≠ [] ∨ d.trySpeculative t = false

end DescriptorState

section PerformFrom

variable {events : BitVec 32} {outcome : Nat → ReactorOp.Outcome} {effect : Nat → Kernel.Effect}
variable {k k' : Kernel} {ts : List OpType} {d : DescriptorState} {u : OpType} {X : Prop}

theorem Kernel.performFrom_registered
    (h : Kernel.performFrom events outcome effect ts d k = some k') :
    k'.registered = k.registered := by
  induction ts generalizing d k with
  | nil =>
    cases h
    rfl
  | cons t ts ih =>
    simp only [Kernel.performFrom] at h
    split at h
    · exact ih h
    · obtain ⟨k₁, hqueue, h⟩ := Option.bind_eq_some_iff.mp h
      exact (ih h).trans (Kernel.performQueue_registered hqueue)

/-- The types that the events concern are told anew, and the others as before. -/
theorem Kernel.told_performFrom (hregistered : k.registered u = true)
    (h : Kernel.performFrom events outcome effect ts d k = some k')
    (hwatches : (DescriptorState.performFrom events outcome ts d).2.Watches u)
    (hbefore : ¬ (u ∈ ts ∧ Watched.Concerns events u) → d.Watches u → k.Told u X) :
    k'.Told u X := by
  induction ts generalizing d k with
  | nil =>
    cases h
    exact hbefore (fun hmem => List.not_mem_nil hmem.1) hwatches
  | cons t ts ih =>
    simp only [Kernel.performFrom, DescriptorState.performFrom] at h hwatches
    split at h
    · rename_i hnone
      rw [if_pos hnone] at hwatches
      refine ih hregistered h hwatches fun hts => hbefore fun hmem => ?_
      rcases List.mem_cons.mp hmem.1 with rfl | hmem'
      · exact hmem.2 hnone
      · exact hts ⟨hmem', hmem.2⟩
    · rename_i hconcerns
      rw [if_neg hconcerns] at hwatches
      obtain ⟨k₁, hqueue, h⟩ := Option.bind_eq_some_iff.mp h
      have hregistered₁ : k₁.registered u = true := by
        rwa [Kernel.performQueue_registered hqueue]
      refine ih hregistered₁ h hwatches fun hts hwatches₁ => ?_
      by_cases hu : u = t
      · subst hu
        refine Kernel.told_performQueue hregistered hqueue ?_
        simpa only [Watches, setTrySpeculative, setQueue, Function.update_self] using hwatches₁
      · refine (hbefore (fun hmem => ?_) ?_).performQueue hqueue
        · exact hts ⟨(List.mem_cons.mp hmem.1).resolve_left hu, hmem.2⟩
        · simpa only [Watches, setTrySpeculative, setQueue, Function.update_of_ne hu]
            using hwatches₁

end PerformFrom

/-! ### What starting an operation leaves to the kernel -/

namespace DescriptorState

/-- What an operation that is started relies on: it has been performed and is not simply done, or
the kernel has been asked, or nothing has changed. -/
structure Relies (d : DescriptorState) (t : OpType) (ctl : Ctl) (status : ReactorOp.Status)
    (epollCtl : Option Nat) (r : Started) : Prop where
  shutdown : r.data.shutdown = d.shutdown
  taskResult : r.data.taskResult = d.taskResult
  other : ∀ u ≠ t, r.data.opQueue u = d.opQueue u ∧ r.data.trySpeculative u = d.trySpeculative u
  watches : r.data.Watches t → (r.performed = true ∧ status ≠ .done) ∨ d.Watches t ∨ ctl = .ignored
  registered : r.data.registeredEvents ≠ 0 → d.registeredEvents ≠ 0
  out : r.data.registeredEvents &&& outEvent ≠ 0 → d.registeredEvents &&& outEvent ≠ 0 ∨
    (t = .write ∧ ctl ≠ .none ∧ (ctl = .checked → epollCtl = none))
  waits : r.data.opQueue t ≠ [] → d.opQueue t ≠ [] ∨ d.shutdown = false ∧ d.registeredEvents ≠ 0 ∧
    (t = .write → d.registeredEvents &&& outEvent ≠ 0 ∨
      (ctl ≠ .none ∧ (ctl = .checked → epollCtl = none)))

variable {d : DescriptorState} {t : OpType} {ctl : Ctl} {status : ReactorOp.Status}
variable {epollCtl : Option Nat}

theorem Relies.watches_other {r : Started} {u : OpType} (h : d.Relies t ctl status epollCtl r)
    (hu : u ≠ t) (hwatches : r.data.Watches u) : d.Watches u := by
  rwa [Watches, (h.other u hu).1, (h.other u hu).2] at hwatches

theorem Relies.of_posted {op : ReactorOp} {performed : Bool} :
    d.Relies t ctl status epollCtl ⟨some op, performed, d⟩ where
  shutdown := rfl
  taskResult := rfl
  other _ _ := ⟨rfl, rfl⟩
  watches h := Or.inr (Or.inl h)
  registered h := h
  out := Or.inl
  waits := Or.inl

/-- Speculation is given up when the descriptor is exhausted. -/
theorem Relies.of_performed {op : ReactorOp} :
    d.Relies t ctl status epollCtl
      ⟨some op, true,
        if status = .doneAndExhausted ∧ d.registeredEvents ≠ 0 then
          d.setTrySpeculative t false
        else
          d⟩ := by
  split
  · rename_i hexhausted
    refine ⟨rfl, rfl, fun u hu => ⟨rfl, Function.update_of_ne hu ..⟩, fun _ => Or.inl ⟨rfl, ?_⟩,
      fun h => h, Or.inl, Or.inl⟩
    · rw [hexhausted.1]
      exact nofun
  · exact .of_posted

theorem Relies.of_waits {op : ReactorOp} {performed : Bool} {registeredEvents : BitVec 32}
    (hwatches : (performed = true ∧ status ≠ .done) ∨ d.Watches t ∨ ctl = .ignored)
    (hopen : d.shutdown = false) (hregistered : d.registeredEvents ≠ 0)
    (hout : registeredEvents &&& outEvent ≠ 0 → d.registeredEvents &&& outEvent ≠ 0 ∨
      (t = .write ∧ ctl ≠ .none ∧ (ctl = .checked → epollCtl = none)))
    (hwaits : t = .write → d.registeredEvents &&& outEvent ≠ 0 ∨
      (ctl ≠ .none ∧ (ctl = .checked → epollCtl = none))) :
    d.Relies t ctl status epollCtl
      ⟨none, performed, { d with registeredEvents := registeredEvents }.enqueue t op⟩ where
  shutdown := rfl
  taskResult := rfl
  other _ hu := ⟨Function.update_of_ne hu .., rfl⟩
  watches _ := hwatches
  registered _ := hregistered
  out := hout
  waits _ := Or.inr ⟨hopen, hregistered, hwaits⟩

theorem waitForEvent_relies {op : ReactorOp} {performed : Bool} (hopen : d.shutdown = false)
    (hctl : ctl = if d.registeredEvents ≠ 0 ∧ t = .write ∧ d.registeredEvents &&& outEvent = 0 then
      .checked else .none)
    (hwatches : (performed = true ∧ status ≠ .done) ∨ d.Watches t) :
    d.Relies t ctl status epollCtl (d.waitForEvent t op performed epollCtl) := by
  have hwatches' := hwatches.imp_right (Or.inl (b := ctl = .ignored))
  unfold waitForEvent
  split
  · exact .of_posted
  · rename_i hregistered
    split
    · rename_i hwrite
      have hchecked : ctl = .checked := hctl.trans (if_pos ⟨hregistered, hwrite⟩)
      cases epollCtl with
      | none =>
        have hcalls : ctl ≠ .none ∧ (ctl = .checked → (none : Option Nat) = none) :=
          ⟨by rw [hchecked]; exact nofun, fun _ => rfl⟩
        exact .of_waits hwatches' hopen hregistered (fun _ => Or.inr ⟨hwrite.1, hcalls⟩)
          fun _ => Or.inr hcalls
      | some errno => exact .of_posted
    · rename_i hwrite
      exact .of_waits hwatches' hopen hregistered Or.inl fun ht =>
        Or.inl fun hout => hwrite ⟨ht, hout⟩

theorem startOp_relies (d : DescriptorState) (t : OpType) (op : ReactorOp)
    (allowSpeculative : Bool) (outcome : ReactorOp.Outcome) (epollCtl : Option Nat) :
    d.Relies t (d.epollCtl t allowSpeculative outcome) outcome.status epollCtl
      (d.startOp t op allowSpeculative outcome epollCtl) := by
  generalize hctl : d.epollCtl t allowSpeculative outcome = ctl
  unfold DescriptorState.epollCtl at hctl
  unfold startOp
  split
  · exact .of_posted
  · rename_i hopen
    rw [if_neg hopen] at hctl
    have hopen := eq_false_of_ne_true hopen
    split
    · rename_i hempty
      rw [if_pos hempty] at hctl
      split
      · rename_i hallow
        rw [if_pos hallow] at hctl
        split
        · rename_i htry
          split
          · rename_i op' hperform
            have hstatus : outcome.status = .notDone := congrArg Prod.snd hperform
            rw [if_neg (fun h => h.2 hstatus)] at hctl
            exact waitForEvent_relies hopen hctl.symm (Or.inl ⟨rfl, by rw [hstatus]; exact nofun⟩)
          · rename_i op' status hdone hperform
            have hstatus : outcome.status = status := congrArg Prod.snd hperform
            rw [hstatus]
            exact .of_performed
        · rename_i htry
          rw [if_neg (fun h => htry h.1)] at hctl
          exact waitForEvent_relies hopen hctl.symm (Or.inr (Or.inr (eq_false_of_ne_true htry)))
      · rename_i hallow
        rw [if_neg hallow] at hctl
        split
        · exact .of_posted
        · rename_i hregistered
          rw [if_neg hregistered] at hctl
          have hcalls : ctl ≠ .none ∧ (ctl = .checked → epollCtl = none) := by
            rw [← hctl]
            exact ⟨nofun, nofun⟩
          split
          · rename_i hwrite
            exact .of_waits (Or.inr (Or.inr hctl.symm)) hopen hregistered
              (fun _ => Or.inr ⟨hwrite, hcalls⟩) fun _ => Or.inr hcalls
          · exact .of_waits (Or.inr (Or.inr hctl.symm)) hopen hregistered Or.inl
              fun _ => Or.inr hcalls
    · rename_i hqueue
      rw [if_neg hqueue] at hctl
      have hwaits : d.opQueue t ≠ [] := fun h => hqueue (List.isEmpty_iff.mpr h)
      exact ⟨rfl, rfl, fun u hu => ⟨Function.update_of_ne hu .., rfl⟩,
        fun _ => Or.inr (Or.inl (Or.inl hwaits)), fun h => h, Or.inl, fun _ => Or.inl hwaits⟩

end DescriptorState

namespace State

/-- The scheduler has the descriptor in its queue with an event of the type, or a thread has taken it
from there and has still to perform its operations. -/
def Heard (s : State) (t : OpType) : Prop :=
  (s.enqueued = true ∧ Watched.Concerns s.data.taskResult t) ∨
    ∃ events ∈ s.running, Watched.Concerns events t

theorem Heard.of_same {s s' : State} {t : OpType}
    (hresult : s'.data.taskResult = s.data.taskResult) (henqueued : s'.enqueued = s.enqueued)
    (hrunning : s'.running = s.running) (h : s.Heard t) : s'.Heard t := by
  rwa [Heard, hresult, henqueued, hrunning]

end State

namespace Watched

variable {w w' : Watched} {t : OpType}

/-! ### Steps -/

/-- The kernel knows the events that the reactor has registered, and what is watched is told. -/
structure Watching (w : Watched) : Prop where
  quiet : w.reactor.Quiet
  registered : w.reactor.data.shutdown = false → w.reactor.data.registeredEvents ≠ 0 →
    ∀ t, (t = .write → w.reactor.data.registeredEvents &&& outEvent ≠ 0) →
      w.kernel.registered t = true
  waits : ∀ t, w.reactor.data.opQueue t ≠ [] → w.kernel.registered t = true
  told : ∀ t, w.kernel.registered t = true → w.reactor.data.Watches t →
    w.kernel.Told t (w.reactor.Heard t)

theorem Watching.of_reactor {s : State} (h : w.Watching) (hquiet : s.Quiet)
    (hregistered : s.data.shutdown = false → w.reactor.data.shutdown = false ∧
      s.data.registeredEvents = w.reactor.data.registeredEvents)
    (hqueue : ∀ t, s.data.opQueue t ≠ [] → w.reactor.data.opQueue t ≠ [])
    (htry : s.data.trySpeculative = w.reactor.data.trySpeculative)
    (hheard : ∀ t, w.reactor.Heard t → s.Heard t) :
    Watching { w with reactor := s } where
  quiet := hquiet
  registered hopen hne t ht := by
    obtain ⟨hopen', heq⟩ := hregistered hopen
    rw [heq] at hne ht
    exact h.registered hopen' hne t ht
  waits t ht := h.waits t (hqueue t ht)
  told t hreg hwatches := by
    have hwatches' : w.reactor.data.Watches t := by
      refine hwatches.imp (hqueue t) fun hfalse => ?_
      rwa [htry] at hfalse
    exact (h.told t hreg hwatches').imp (hheard t)

/-- The kernel after an operation has been started, with the events registered again or not. -/
theorem startKernel_cases {op : ReactorOp} {allowSpeculative : Bool} {outcome : ReactorOp.Outcome}
    {epollCtl : Option Nat} {effect : Kernel.Effect} {k : Kernel}
    (hk : w.startKernel t op allowSpeculative outcome epollCtl effect = some k) :
    ∃ k₁ : Kernel, k₁.registered = w.kernel.registered ∧
      (∀ u X, w.kernel.Told u X → k₁.Told u X) ∧
      (performs w.reactor t op allowSpeculative outcome epollCtl = true →
        outcome.status ≠ .done → w.kernel.registered t = true → ∀ X, k₁.Told t X) ∧
      k = if w.reactor.hasData ∧ w.reactor.data.epollCtl t allowSpeculative outcome ≠ .none ∧
          epollCtl = none then k₁.rearm t else k₁ := by
  obtain ⟨k₀, hperform, rfl⟩ := Option.map_eq_some_iff.mp hk
  refine ⟨k₀.applyAll effect.events, ?_, fun u X htold => ?_, fun hperforms hstatus hreg X => ?_,
    rfl⟩
  · rw [Kernel.applyAll_registered]
    split at hperform
    · exact Kernel.perform_registered hperform
    · cases hperform
      rfl
  · split at hperform
    · exact (htold.perform hperform).applyAll _
    · cases hperform
      exact htold.applyAll _
  · rw [if_pos hperforms] at hperform
    have hreg₀ : k₀.registered t = true := by rwa [Kernel.perform_registered hperform]
    exact (Kernel.told_of_unready hreg₀ (Kernel.perform_unready hperform hstatus)).applyAll _

/-- An operation has been started and the kernel still tells what it did; it tells too when the
operation has been performed and is not simply done. -/
theorem Watching.started (h : w.Watching) {op : ReactorOp} {isContinuation allowSpeculative : Bool}
    {outcome : ReactorOp.Outcome} {epollCtl : Option Nat}
    (hrearms : w.reactor.hasData →
      w.reactor.data.epollCtl t allowSpeculative outcome = .ignored → epollCtl = none)
    {k₁ : Kernel} (hsame : k₁.registered = w.kernel.registered)
    (htold : ∀ u X, w.kernel.Told u X → k₁.Told u X)
    (hunready : performs w.reactor t op allowSpeculative outcome epollCtl = true →
      outcome.status ≠ .done → w.kernel.registered t = true → ∀ X, k₁.Told t X) :
    Watching ⟨w.reactor.startOp t op isContinuation allowSpeculative outcome epollCtl,
      if w.reactor.hasData ∧ w.reactor.data.epollCtl t allowSpeculative outcome ≠ .none ∧
        epollCtl = none then k₁.rearm t else k₁⟩ := by
  have hquiet := h.quiet.startOp t op isContinuation allowSpeculative outcome epollCtl
  unfold performs at hunready
  simp only [State.startOp] at hquiet ⊢
  cases hdata : w.reactor.hasData with
  | false =>
    rw [hdata] at hquiet
    simp only [Bool.false_eq_true, false_and, if_false] at hquiet ⊢
    refine ⟨hquiet, ?_, ?_, fun u hreg hwatches => ?_⟩
    · rw [hsame]
      exact h.registered
    · rw [hsame]
      exact h.waits
    · rw [hsame] at hreg
      exact htold u _ (h.told u hreg hwatches)
  | true =>
    rw [hdata] at hquiet
    replace hrearms := hrearms hdata
    simp only [hdata, true_and, Bool.true_and, if_true] at hquiet hunready ⊢
    have hrelies := startOp_relies w.reactor.data t op allowSpeculative outcome epollCtl
    generalize w.reactor.data.startOp t op allowSpeculative outcome epollCtl = r
      at hquiet hunready hrelies
    generalize w.reactor.data.epollCtl t allowSpeculative outcome = ctl at hrearms hrelies ⊢
    have hcalled (h : ctl ≠ .none ∧ (ctl = .checked → epollCtl = none)) :
        ctl ≠ .none ∧ epollCtl = none := by
      refine ⟨h.1, ?_⟩
      cases ctl with
      | none => exact absurd rfl h.1
      | checked => exact h.2 rfl
      | ignored => exact hrearms rfl
    refine ⟨hquiet, fun hopen hne u hu => ?_, fun u hu => ?_, fun u hreg hwatches => ?_⟩
    · refine Kernel.registered_again hsame ?_
      by_cases ht : u = .write
      · refine (hrelies.out (hu ht)).imp (fun hout => ?_) fun hout => ⟨ht, hout.1, hcalled hout.2⟩
        exact h.registered (hrelies.shutdown ▸ hopen) (hrelies.registered hne) u fun _ => hout
      · exact Or.inl (h.registered (hrelies.shutdown ▸ hopen) (hrelies.registered hne) u
          fun hwrite => absurd hwrite ht)
    · refine Kernel.registered_again hsame ?_
      by_cases hut : u = t
      · subst hut
        rcases hrelies.waits hu with hwaits | ⟨hopen, hne, hwrite⟩
        · exact Or.inl (h.waits u hwaits)
        · by_cases ht : u = .write
          · refine (hwrite ht).imp (fun hout => ?_) fun hout => ⟨ht, ht, hcalled hout⟩
            exact h.registered hopen hne u fun _ => hout
          · exact Or.inl (h.registered hopen hne u fun hwrite => absurd hwrite ht)
      · exact Or.inl (h.waits u fun hnil => hu ((hrelies.other u hut).1.trans hnil))
    · by_cases hcall : ctl ≠ .none ∧ epollCtl = none
      · simp only [if_pos hcall] at hreg ⊢
        exact Kernel.told_rearm hreg
      · simp only [if_neg hcall, hsame] at hreg ⊢
        by_cases hut : u = t
        · subst hut
          rcases hrelies.watches hwatches with ⟨hperformed, hstatus⟩ | hbefore | hignored
          · exact hunready hperformed hstatus hreg _
          · exact (htold u _ (h.told u hreg hbefore)).imp
              (State.Heard.of_same hrelies.taskResult rfl rfl)
          · exact absurd (hcalled ⟨hignored ▸ by decide, fun _ => hrearms hignored⟩) hcall
        · exact (htold u _ (h.told u hreg (hrelies.watches_other hut hwatches))).imp
            (State.Heard.of_same hrelies.taskResult rfl rfl)

theorem Watching.startOp (h : w.Watching) {op : ReactorOp} {isContinuation allowSpeculative : Bool}
    {outcome : ReactorOp.Outcome} {epollCtl : Option Nat} {effect : Kernel.Effect}
    (hrearms : w.reactor.hasData →
      w.reactor.data.epollCtl t allowSpeculative outcome = .ignored → epollCtl = none)
    {k : Kernel} (hk : w.startKernel t op allowSpeculative outcome epollCtl effect = some k) :
    Watching ⟨w.reactor.startOp t op isContinuation allowSpeculative outcome epollCtl, k⟩ := by
  obtain ⟨k₁, hsame, htold, hunready, rfl⟩ := startKernel_cases hk
  exact h.started hrearms hsame htold hunready

theorem concerns_or {events events' : BitVec 32} :
    Concerns (events ||| events') t ↔ Concerns events t ∨ Concerns events' t := by
  unfold Concerns
  rw [BitVec.and_or_distrib_right, ← not_and_or]
  exact not_congr BitVec.or_eq_zero_iff

theorem run_heard {s : State} {events : BitVec 32} :
    (s.run events).Heard t ↔ Concerns events t ∨ s.Heard t := by
  unfold State.Heard State.run
  split
  · rename_i henqueued
    simp only [henqueued, true_and, concerns_or]
    rw [or_assoc, or_left_comm]
  · rename_i henqueued
    simp only [henqueued, true_and, Bool.false_eq_true, false_and, false_or]

theorem mem_types (t : OpType) : t ∈ [OpType.read, .write, .except] := by
  cases t <;> decide

theorem Watching.run (h : w.Watching) {events : BitVec 32} (hdelivers : Delivers w.kernel events) :
    Watching ⟨w.reactor.run events, w.kernel.deliver⟩ := by
  have hquiet := h.quiet.step (a := .run events) rfl
  have hdata : (w.reactor.run events).data.shutdown = w.reactor.data.shutdown ∧
      (w.reactor.run events).data.registeredEvents = w.reactor.data.registeredEvents ∧
      (w.reactor.run events).data.opQueue = w.reactor.data.opQueue ∧
      (w.reactor.run events).data.trySpeculative = w.reactor.data.trySpeculative := by
    unfold State.run
    split <;> exact ⟨rfl, rfl, rfl, rfl⟩
  obtain ⟨hshutdown, hregistered, hqueue, htry⟩ := hdata
  refine ⟨hquiet, ?_, ?_, fun t hreg hwatches => ⟨hreg, fun hready => Or.inr ?_⟩⟩
  · rw [hshutdown, hregistered]
    exact h.registered
  · rw [hqueue]
    exact h.waits
  · have hwatches' : w.reactor.data.Watches t := by
      unfold Watches at hwatches ⊢
      rwa [hqueue, htry] at hwatches
    rw [run_heard]
    exact ((h.told t hreg hwatches').2 hready).imp_left fun hedge =>
      hdelivers t (mem_types t) hedge hready

theorem performFrom_frame (events : BitVec 32) (outcome : Nat → ReactorOp.Outcome)
    (ts : List OpType) (d : DescriptorState) :
    (DescriptorState.performFrom events outcome ts d).2.registeredEvents = d.registeredEvents ∧
      (DescriptorState.performFrom events outcome ts d).2.taskResult = d.taskResult := by
  induction ts generalizing d with
  | nil => exact ⟨rfl, rfl⟩
  | cons t ts ih =>
    simp only [DescriptorState.performFrom]
    split
    · exact ih d
    · exact ih _

theorem performIo_frame {s s' : State} {events : BitVec 32} {outcome : Nat → ReactorOp.Outcome}
    (h : s.performIo events outcome = some s') :
    s'.data = (DescriptorState.performFrom events outcome [.except, .write, .read] s.data).2 ∧
      s'.enqueued = s.enqueued ∧ s'.running = s.running.erase events := by
  unfold State.performIo at h
  split at h
  · cases h
    exact ⟨rfl, rfl, rfl⟩
  · cases h

/-- Operations have been performed, and the kernel tells what is watched after that if it has told
what was watched before of the types that the events do not concern. -/
theorem Watching.performed (h : w.Watching) {events : BitVec 32}
    {outcome : Nat → ReactorOp.Outcome} {s : State} {k : Kernel}
    (hs : w.reactor.performIo events outcome = some s)
    (hreg : k.registered = w.kernel.registered)
    (htold : ∀ t X, w.kernel.registered t = true →
      (DescriptorState.performFrom events outcome [.except, .write, .read]
        w.reactor.data).2.Watches t →
      (¬ (t ∈ [OpType.except, .write, .read] ∧ Concerns events t) →
        w.reactor.data.Watches t → w.kernel.Told t X) → k.Told t X) : Watching ⟨s, k⟩ := by
  have hquiet := h.quiet.performIo hs
  obtain ⟨hdata, henqueued, hrunning⟩ := performIo_frame hs
  obtain ⟨hregistered, htask⟩ := performFrom_frame events outcome [.except, .write, .read]
    w.reactor.data
  have hshutdown := performFrom_shutdown events outcome [.except, .write, .read] w.reactor.data
  refine ⟨hquiet, ?_, fun t ht => ?_, fun t hregt hwatches => ?_⟩
  · simp only [hdata, hshutdown, hregistered, hreg]
    exact h.registered
  · rw [hdata] at ht
    rw [hreg]
    refine h.waits t fun hnil => ht ?_
    have hqueue := performFrom_identities events outcome [.except, .write, .read]
      w.reactor.data t
    rw [hnil] at hqueue
    exact List.map_eq_nil_iff.mp (List.append_eq_nil_iff.mp hqueue).2
  · rw [hdata] at hwatches
    rw [hreg] at hregt
    refine htold t _ hregt hwatches fun hnot hbefore => ?_
    refine (h.told t hregt hbefore).imp (Or.imp ?_ ?_)
    · rintro ⟨hqueued, hconcerns⟩
      refine ⟨henqueued.trans hqueued, ?_⟩
      rwa [hdata, htask]
    · rintro ⟨events', hmem, hconcerns⟩
      refine ⟨events', ?_, hconcerns⟩
      rw [hrunning]
      refine (List.mem_erase_of_ne ?_).mpr hmem
      rintro rfl
      exact hnot ⟨by cases t <;> decide, hconcerns⟩

theorem Watching.performIo (h : w.Watching) {events : BitVec 32}
    {outcome : Nat → ReactorOp.Outcome} {effect : Nat → Kernel.Effect} {s : State} {k : Kernel}
    (hs : w.reactor.performIo events outcome = some s)
    (hk : Kernel.performFrom events outcome effect [.except, .write, .read] w.reactor.data
      w.kernel = some k) : Watching ⟨s, k⟩ :=
  h.performed hs (Kernel.performFrom_registered hk)
    fun _ _ hreg hwatches hbefore => Kernel.told_performFrom hreg hk hwatches hbefore

theorem Watching.kernel (h : w.Watching) (event : Kernel.Event) :
    Watching { w with kernel := w.kernel.apply event } := by
  have hregistered : (w.kernel.apply event).registered = w.kernel.registered := by
    cases event <;> rfl
  refine ⟨h.quiet, fun hopen hne t ht => ?_, fun t ht => ?_, fun t hreg hwatches => ?_⟩
  · rw [hregistered]
    exact h.registered hopen hne t ht
  · rw [hregistered]
    exact h.waits t ht
  · rw [hregistered] at hreg
    exact (h.told t hreg hwatches).apply event

/-- More edges do no harm. -/
theorem Watching.of_edges (h : w.Watching) {k : Kernel} (hready : k.ready = w.kernel.ready)
    (hregistered : k.registered = w.kernel.registered)
    (hedge : ∀ t, w.kernel.edge t = true → k.edge t = true) : Watching { w with kernel := k } where
  quiet := h.quiet
  registered := by
    rw [hregistered]
    exact h.registered
  waits := by
    rw [hregistered]
    exact h.waits
  told t hreg hwatches := by
    rw [hregistered] at hreg
    obtain ⟨htold, hpending⟩ := h.told t hreg hwatches
    refine ⟨hregistered ▸ htold, fun hr => ?_⟩
    rw [hready] at hr
    exact (hpending hr).imp_left (hedge t)

theorem Watching.dequeue (h : w.Watching) {s : State} (hs : w.reactor.dequeue = some s) :
    Watching { w with reactor := s } := by
  have hquiet := h.quiet.step (a := .dequeue) hs
  unfold State.dequeue at hs
  split at hs
  · rename_i henqueued
    cases hs
    refine h.of_reactor hquiet (fun hopen => ⟨hopen, rfl⟩) (fun _ hne => hne) rfl fun t hheard => ?_
    rcases hheard with ⟨-, hresult⟩ | ⟨events, hmem, hconcerns⟩
    · exact Or.inr ⟨_, List.mem_append_right _ (List.mem_singleton_self _), hresult⟩
    · exact Or.inr ⟨events, List.mem_append_left _ hmem, hconcerns⟩
  · cases hs

theorem Watching.cancelOps (h : w.Watching) :
    Watching { w with reactor := w.reactor.cancelOps } := by
  have hquiet := h.quiet.step (a := .cancelOps) rfl
  unfold State.cancelOps at hquiet ⊢
  split
  · exact h.of_reactor (by simpa [*] using hquiet) (fun hopen => ⟨hopen, rfl⟩)
      (fun t hne => absurd rfl hne) rfl fun t hheard => hheard
  · exact h

theorem Watching.cancelOpsByKey (h : w.Watching) (t : OpType) (key : Nat) :
    Watching { w with reactor := w.reactor.cancelOpsByKey t key } := by
  have hquiet := h.quiet.step (a := .cancelOpsByKey t key) rfl
  unfold State.cancelOpsByKey at hquiet ⊢
  split
  · refine h.of_reactor (by simpa [*] using hquiet) (fun hopen => ⟨hopen, rfl⟩) (fun u hne => ?_)
      rfl fun u hheard => hheard
    by_cases hu : u = t
    · subst hu
      refine fun hnil => hne ?_
      simp only [State.complete, cancelByKey, setQueue, Function.update_self, hnil,
        List.filter_nil]
    · simpa only [State.complete, cancelByKey, setQueue, Function.update_of_ne hu] using hne
  · exact h

theorem Watching.deregisterDescriptor (h : w.Watching) :
    Watching ⟨w.reactor.deregisterDescriptor,
      if w.reactor.hasData ∧ w.reactor.data.shutdown = false then
        w.kernel.deregister
      else
        w.kernel⟩ := by
  have hquiet := h.quiet.step (a := .deregisterDescriptor) rfl
  unfold State.deregisterDescriptor at hquiet ⊢
  cases hdata : w.reactor.hasData with
  | false =>
    simp only [Bool.false_eq_true, false_and, if_false]
    exact h
  | true =>
    rw [hdata] at hquiet
    simp only [if_true, true_and] at hquiet ⊢
    split
    · rename_i hshutdown
      simp only [hshutdown, Bool.true_eq_false, if_false, if_true] at hquiet ⊢
      exact h.of_reactor hquiet (fun hopen => ⟨hopen, rfl⟩) (fun t hne => hne) rfl
        fun t hheard => hheard
    · rename_i hopen
      simp only [eq_false_of_ne_true hopen, Bool.false_eq_true, if_false, if_true] at hquiet ⊢
      exact ⟨hquiet, nofun, fun t hne => absurd rfl hne, fun t hreg => by cases hreg⟩

theorem Watching.step (h : w.Watching) {a : Action} (hrearms : w.Rearms a)
    (hstep : w.step a = some w') : w'.Watching := by
  cases a with
  | startOp t op isContinuation allowSpeculative outcome epollCtl effect =>
    obtain ⟨k, hk, rfl⟩ := Option.map_eq_some_iff.mp hstep
    exact h.startOp hrearms hk
  | cancelOps =>
    cases hstep
    exact h.cancelOps
  | cancelOpsByKey t key =>
    cases hstep
    exact h.cancelOpsByKey t key
  | deregisterDescriptor =>
    cases hstep
    exact h.deregisterDescriptor
  | run events =>
    simp only [Watched.step] at hstep
    split at hstep
    · rename_i hdelivers
      cases hstep
      exact h.run hdelivers
    · cases hstep
  | dequeue =>
    obtain ⟨s, hs, rfl⟩ := Option.map_eq_some_iff.mp hstep
    exact h.dequeue hs
  | performIo events outcome effect =>
    obtain ⟨s, hs, hstep⟩ := Option.bind_eq_some_iff.mp hstep
    obtain ⟨k, hk, rfl⟩ := Option.map_eq_some_iff.mp hstep
    exact h.performIo hs hk
  | kernel event =>
    cases hstep
    exact h.kernel event

/-! ### Runs -/

theorem initial_watching (supported : Bool) (ready : OpType → Bool) :
    (initial supported ready).Watching where
  quiet := ⟨nofun, nofun⟩
  registered _ hne t hwrite := by
    cases supported with
    | false => exact absurd rfl hne
    | true =>
      have hout : (DescriptorState.register true).registeredEvents &&& outEvent = 0 := by decide
      have ht : t ≠ .write := fun ht => hwrite ht hout
      simp only [initial, Kernel.register, Bool.true_and, decide_eq_true_eq]
      exact ht
  waits t hne := absurd rfl hne
  told t _ hwatches := hwatches.elim (fun hne => absurd rfl hne) nofun

/-- The kernel has an edge to deliver, or the scheduler has the descriptor in its queue with an
event of the type. -/
def Pending (w : Watched) (t : OpType) : Prop :=
  w.kernel.edge t = true ∨ (w.reactor.enqueued = true ∧ Concerns w.reactor.data.taskResult t)

instance (w : Watched) (t : OpType) : Decidable (w.Pending t) :=
  inferInstanceAs (Decidable (_ ∨ _))

/-- A thread has taken the descriptor from the scheduler with an event of the type, and is yet to
lock it. -/
def Taken (w : Watched) (t : OpType) : Prop :=
  ∃ events ∈ w.reactor.running, Concerns events t

/-- No edge is lost while the calls of `epoll_ctl` succeed of which the result is ignored. -/
theorem edge_pending {supported : Bool} {ready : OpType → Bool}
    (h : Reachable step Rearms (initial supported ready) w) (t : OpType)
    (hwaits : w.reactor.data.opQueue t ≠ []) (hready : w.kernel.ready t = true) :
    w.Pending t ∨ w.Taken t := by
  have hwatching : w.Watching :=
    h.invariant (initial_watching supported ready) fun hw hrearms hstep => hw.step hrearms hstep
  have hregistered := hwatching.waits t hwaits
  rw [Pending, Taken, or_assoc]
  exact (hwatching.told t hregistered (Or.inl hwaits)).2 hready

/-- A read waits before the descriptor becomes ready. -/
def readWaits : List Action :=
  [.startOp .read ⟨0, 0, 1, 0⟩ false true ⟨.notDone, 0, 0⟩ none ⟨true, []⟩,
    .kernel (.becomesReady .read)]

theorem edge_pending_readWaits :
    ∃ w, Reachable step Rearms (initial true fun _ => false) w ∧
      w.reactor.data.opQueue .read ≠ [] ∧ w.kernel.ready .read = true ∧
      (w.Pending .read ∨ w.Taken .read) := by
  have hrun : (exec (guarded step Rearms) (initial true fun _ => false) readWaits).map
      (fun w => (decide (w.reactor.data.opQueue .read ≠ []), w.kernel.ready .read)) =
        some (true, true) := by
    decide +kernel
  obtain ⟨w, hw, hread⟩ := Option.map_eq_some_iff.mp hrun
  have hreachable := exec_guarded_reachable hw
  obtain ⟨hwaits, hready⟩ := Prod.ext_iff.mp hread
  have hwaits := of_decide_eq_true hwaits
  exact ⟨w, hreachable, hwaits, hready, edge_pending hreachable .read hwaits hready⟩

/-- The edge of an operation that waits has been delivered, and the thread that has taken it is yet
to lock the descriptor; or the kernel has refused to register the events again. -/
theorem edge_not_pending :
    ((exec (guarded step Rearms) (initial true fun _ => false)
        (readWaits ++ [.run inEvent, .dequeue])).map fun w =>
          (decide (w.reactor.data.opQueue .read ≠ []), w.kernel.ready .read,
            decide (w.Pending .read))) = some (true, true, false) ∧
    ((exec step (initial true fun t => t = .read)
        [.run inEvent, .dequeue, .performIo inEvent (fun _ => ⟨.done, 0, 0⟩) fun _ => ⟨true, []⟩,
          .startOp .read ⟨0, 0, 1, 0⟩ false false ⟨.notDone, 0, 0⟩ (some 12) ⟨true, []⟩]).map
        fun w => (decide (w.reactor.data.opQueue .read ≠ []), w.kernel.ready .read,
          decide (w.Pending .read), decide (w.reactor.running = []))) =
      some (true, true, false, true) := by
  constructor <;> decide +kernel

end Watched

end Asio.Detail.Epoll
