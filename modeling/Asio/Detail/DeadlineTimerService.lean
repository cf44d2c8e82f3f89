import Asio.Detail.TimerQueueStale

/-! The services of deadline timers: each has a timer queue, and the timers that belong to it keep
their expiry and whether they might have pending waits. -/

universe u v w

namespace Asio.Detail.DeadlineTimerService

open Asio.Lib Transition

set_option linter.unusedSectionVars false

/-- The implementation of a timer, with the service that the timer object belongs to. -/
structure Implementation (σ : Type w) (T : Type u) where
  expiry : T
  mightHavePendingWaits : Bool
  service : σ
  deriving DecidableEq

structure State (σ : Type w) (T : Type u) (α : Type v) where
  queues : σ → TimerQueue T α
  impls : α → Option (Implementation σ T)

structure Result where
  posted : List WaitOp
  count : Nat
  deriving DecidableEq

def initial {σ : Type w} {T : Type u} {α : Type v} : State σ T α where
  queues _ := .construct
  impls _ := none

variable {σ : Type w} {T : Type u} {α : Type v}
variable [DecidableEq σ] [TimeTraits T] [DecidableEq α]

def nothing : Result := ⟨[], 0⟩

def setQueue (s : State σ T α) (service : σ) (q : TimerQueue T α) : State σ T α :=
  { s with queues := Function.update s.queues service q }

def setImpl (s : State σ T α) (timer : α) (impl : Option (Implementation σ T)) : State σ T α :=
  { s with impls := Function.update s.impls timer impl }

@[simp] theorem setQueue_queues (s : State σ T α) (i : σ) (q : TimerQueue T α) (j : σ) :
    (setQueue s i q).queues j = if j = i then q else s.queues j :=
  Function.update_apply s.queues i q j

@[simp] theorem setQueue_impls (s : State σ T α) (i : σ) (q : TimerQueue T α) :
    (setQueue s i q).impls = s.impls := rfl

@[simp] theorem setImpl_queues (s : State σ T α) (a : α) (impl : Option (Implementation σ T)) :
    (setImpl s a impl).queues = s.queues := rfl

@[simp] theorem setImpl_impls (s : State σ T α) (a : α) (impl : Option (Implementation σ T))
    (b : α) : (setImpl s a impl).impls b = if b = a then impl else s.impls b :=
  Function.update_apply s.impls a impl b

def setData (q : TimerQueue T α) (timer : α) (d : PerTimerData α) : TimerQueue T α :=
  q.modify timer fun _ => d

/-! ### The scheduler -/

section Scheduler

def cancelTimer (s : State σ T α) (service : σ) (timer : α) (maxCancelled : Nat) :
    State σ T α × Result :=
  let r := (s.queues service).cancelTimer timer maxCancelled
  (setQueue s service r.1, ⟨r.2.1, r.2.2⟩)

/-- What waits for the target is cancelled first. -/
def moveTimer (s : State σ T α) (service : σ) (target source : α) : State σ T α × Result :=
  let r := (s.queues service).cancelTimer target maxIndex
  (setQueue s service (r.1.moveTimer target source), ⟨r.2.1, 0⟩)

end Scheduler

/-! ### The operations -/

section Operations

variable [Inhabited T]

/-- `time_type()` is the default time. -/
def construct (s : State σ T α) (timer : α) (service : σ) : State σ T α :=
  setImpl (setQueue s service (setData (s.queues service) timer .construct)) timer
    (some ⟨default, false, service⟩)

def cancel (s : State σ T α) (timer : α) (impl : Implementation σ T) : State σ T α × Result :=
  if impl.mightHavePendingWaits then
    let r := cancelTimer s impl.service timer maxIndex
    (setImpl r.1 timer (some { impl with mightHavePendingWaits := false }), r.2)
  else (s, nothing)

def cancelOne (s : State σ T α) (timer : α) (impl : Implementation σ T) :
    State σ T α × Result :=
  if impl.mightHavePendingWaits then
    let r := cancelTimer s impl.service timer 1
    if r.2.count = 0 then
      (setImpl r.1 timer (some { impl with mightHavePendingWaits := false }), r.2)
    else r
  else (s, nothing)

def destroy (s : State σ T α) (timer : α) (impl : Implementation σ T) : State σ T α × Result :=
  let r := cancel s timer impl
  (setImpl r.1 timer none, r.2)

def setExpiry (s : State σ T α) (timer : α) (expiry : T) : State σ T α :=
  setImpl s timer ((s.impls timer).map fun impl => { impl with expiry := expiry })

def expiresAt (s : State σ T α) (timer : α) (impl : Implementation σ T) (expiryTime : T) :
    State σ T α × Result :=
  let r := cancel s timer impl
  (setExpiry r.1 timer expiryTime, r.2)

/-- `add` is `Time_Traits::add` with the duration. -/
def expiresAfter (s : State σ T α) (timer : α) (impl : Implementation σ T) (now : T)
    (add : T → T) : State σ T α × Result :=
  expiresAt s timer impl (add now)

/-- `none` when `push_back` throws. -/
def asyncWait (s : State σ T α) (timer : α) (impl : Implementation σ T) (op : WaitOp) :
    Option (State σ T α × Result) :=
  let s := setImpl s timer (some { impl with mightHavePendingWaits := true })
  ((s.queues impl.service).enqueueTimer impl.expiry timer op).map fun r =>
    (setQueue s impl.service r.1, nothing)

/-- A wait that ends with the exception of `push_back`. -/
def asyncWaitThrows (s : State σ T α) (timer : α) (impl : Implementation σ T) :
    Option (State σ T α × Result) :=
  let s := setImpl s timer (some { impl with mightHavePendingWaits := true })
  ((s.queues impl.service).enqueueTimerThrows impl.expiry timer).map fun q =>
    (setQueue s impl.service q, nothing)

/-- The expiry and the flag go from `other` to the target. -/
def takeOver (s : State σ T α) (target source : α) (other : Implementation σ T) : State σ T α :=
  setImpl (setImpl s target (some other)) source (some ⟨default, false, other.service⟩)

def moveConstruct (s : State σ T α) (target source : α) (other : Implementation σ T) :
    State σ T α × Result :=
  let s := setQueue s other.service (setData (s.queues other.service) target .construct)
  let r := moveTimer s other.service target source
  (takeOver r.1 target source other, r.2)

/-- The data of a timer, which are in the timer, go with it from one queue to another. -/
def carry (s : State σ T α) (timer : α) (service service' : σ) : State σ T α :=
  setQueue s service' (setData (s.queues service') timer ((s.queues service).data timer))

def moveAssign (s : State σ T α) (target source : α) (impl other : Implementation σ T) :
    State σ T α × Result :=
  let r := if impl.service ≠ other.service ∧ impl.mightHavePendingWaits then
      cancelTimer s impl.service target maxIndex
    else (s, nothing)
  let r' := moveTimer (carry r.1 target impl.service other.service) other.service target source
  (takeOver r'.1 target source other, ⟨r.2.posted ++ r'.2.posted, 0⟩)

end Operations

inductive Action (σ : Type w) (T : Type u) (α : Type v)
  | construct (timer : α) (service : σ)
  | destroy (timer : α)
  | moveConstruct (target source : α)
  | moveAssign (target source : α)
  | asyncWait (timer : α) (op : WaitOp)
  | asyncWaitThrows (timer : α)
  | cancel (timer : α)
  | cancelOne (timer : α)
  | cancelByKey (timer : α) (cancellationKey : Nat)
  | expiresAt (timer : α) (expiryTime : T)
  | expiresAfter (timer : α) (now : T) (add : T → T)
  | expire (service : σ) (now : T)

/-- The timer and the greatest number of its waits that the operation aborts. -/
def Action.aborts : Action σ T α → Option (α × Nat)
  | .cancel timer => some (timer, maxIndex)
  | .cancelOne timer => some (timer, 1)
  | .expiresAt timer _ => some (timer, maxIndex)
  | .expiresAfter timer _ _ => some (timer, maxIndex)
  | _ => none

/-- `none` for a timer that does not exist or a call that throws. -/
def perform [Inhabited T] (s : State σ T α) : Action σ T α → Option (State σ T α × Result)
  | .construct timer service => some (construct s timer service, nothing)
  | .destroy timer => (s.impls timer).map fun impl => destroy s timer impl
  | .moveConstruct target source =>
    (s.impls source).map fun other => moveConstruct s target source other
  | .moveAssign target source =>
    (s.impls target).bind fun impl =>
      (s.impls source).map fun other => moveAssign s target source impl other
  | .asyncWait timer op => (s.impls timer).bind fun impl => asyncWait s timer impl op
  | .asyncWaitThrows timer => (s.impls timer).bind fun impl => asyncWaitThrows s timer impl
  | .cancel timer => (s.impls timer).map fun impl => cancel s timer impl
  | .cancelOne timer => (s.impls timer).map fun impl => cancelOne s timer impl
  | .cancelByKey timer key => (s.impls timer).map fun impl =>
    let r := (s.queues impl.service).cancelTimerByKey timer key
    (setQueue s impl.service r.1, ⟨r.2, 0⟩)
  | .expiresAt timer time => (s.impls timer).map fun impl => expiresAt s timer impl time
  | .expiresAfter timer now add =>
    (s.impls timer).map fun impl => expiresAfter s timer impl now add
  | .expire service now => ((s.queues service).getReadyTimers now).map fun r =>
    (setQueue s service r.1, ⟨r.2, 0⟩)

def step [Inhabited T] (s : State σ T α) (action : Action σ T α) : Option (State σ T α) :=
  (perform s action).map Prod.fst

/-- The operations that wait for a timer. -/
def pending (s : State σ T α) (timer : α) : List WaitOp :=
  (s.impls timer).elim [] fun impl => ((s.queues impl.service).data timer).opQueue

/-- A new timer is not yet there, and the operations of a timer are so many objects. -/
def Legal (s : State σ T α) : Action σ T α → Prop
  | .construct timer _ => (s.impls timer).isNone = true
  | .moveConstruct target _ => (s.impls target).isNone = true
  | .asyncWait timer _ => (pending s timer).length < maxIndex
  | _ => True

instance (s : State σ T α) (action : Action σ T α) :
    Decidable (Legal s action) := by
  induction action using Action.casesOn <;> dsimp only [Legal] <;> infer_instance

/-- No allocation of the heap fails. -/
def Allocates : Action σ T α → Prop
  | .asyncWaitThrows _ => False
  | _ => True

instance (action : Action σ T α) : Decidable (Allocates action) := by
  induction action using Action.casesOn <;> dsimp only [Allocates] <;> infer_instance

end Asio.Detail.DeadlineTimerService
