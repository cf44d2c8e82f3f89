import Asio.Lib.Chain
import Asio.Lib.Transition
import Asio.Detail.TimerQueue

/-! The signal sets of all services.  Every registration of a signal is in the list of its set and
in the table of its service; the counts and the handlers of the operating system are global. -/

universe u

namespace Asio.Detail

open Asio.Lib.Transition

structure SignalOp where
  id : Nat
  ec : ErrorCode
  cancellationKey : Nat
  signalNumber : Int
  deriving DecidableEq

def SignalOp.start (id cancellationKey : Nat) : SignalOp where
  id := id
  ec := .success
  cancellationKey := cancellationKey
  signalNumber := 0

def SignalOp.abort (op : SignalOp) : SignalOp := { op with ec := .operationAborted }

def SignalOp.receive (n : Int) (op : SignalOp) : SignalOp := { op with signalNumber := n }

/-- `max_signal_number`, and for each service whether its scheduler does locking. -/
structure SignalSetService.Config (υ : Type u) where
  maxSignalNumber : Int
  locking : υ → Bool

/-- The global state with the members of all services, of all sets and of all registrations; the
queue that a registration points to is named by its set.  `installed` belongs to the operating
system, `allocated` are the registrations that exist, and the last four fields are the history of
the run. -/
structure SignalState (υ ι ρ : Type u) where
  serviceList : List υ
  registrationCount : Int → Nat
  installed : Int → Bool
  registrations : υ → Int → Option ρ
  sets : List ι
  service : ι → υ
  opQueue : ι → List SignalOp
  signals : ι → Option ρ
  signalNumber : ρ → Int
  queue : ρ → ι
  undelivered : ρ → Nat
  nextInTable : ρ → Option ρ
  prevInTable : ρ → Option ρ
  nextInSet : ρ → Option ρ
  allocated : List ρ
  posted : List SignalOp
  missed : Nat
  immediate : Nat
  dropped : Nat

namespace SignalSetService

inductive Error
  | success | invalidArgument | system
  deriving DecidableEq

variable {υ ι ρ : Type u} [DecidableEq υ] [DecidableEq ι] [DecidableEq ρ]

/-! ### Writing to the state -/

section Writes

def setUndelivered (s : SignalState υ ι ρ) (reg : ρ) (undelivered : Nat) : SignalState υ ι ρ :=
  { s with undelivered := Function.update s.undelivered reg undelivered }

def setNextInTable (s : SignalState υ ι ρ) (reg : ρ) (next : Option ρ) : SignalState υ ι ρ :=
  { s with nextInTable := Function.update s.nextInTable reg next }

def setPrevInTable (s : SignalState υ ι ρ) (reg : ρ) (prev : Option ρ) : SignalState υ ι ρ :=
  { s with prevInTable := Function.update s.prevInTable reg prev }

def setNextInSet (s : SignalState υ ι ρ) (reg : ρ) (next : Option ρ) : SignalState υ ι ρ :=
  { s with nextInSet := Function.update s.nextInSet reg next }

def setSignals (s : SignalState υ ι ρ) (impl : ι) (reg : Option ρ) : SignalState υ ι ρ :=
  { s with signals := Function.update s.signals impl reg }

def setTable (s : SignalState υ ι ρ) (service : υ) (n : Int) (reg : Option ρ) :
    SignalState υ ι ρ :=
  { s with
    registrations := Function.update s.registrations service
      (Function.update (s.registrations service) n reg) }

def setQueue (s : SignalState υ ι ρ) (impl : ι) (ops : List SignalOp) : SignalState υ ι ρ :=
  { s with opQueue := Function.update s.opQueue impl ops }

def setCount (s : SignalState υ ι ρ) (n : Int) (count : Nat) : SignalState υ ι ρ :=
  { s with registrationCount := Function.update s.registrationCount n count }

def setHandler (s : SignalState υ ι ρ) (n : Int) (installed : Bool) : SignalState υ ι ρ :=
  { s with installed := Function.update s.installed n installed }

def postDeferredCompletions (s : SignalState υ ι ρ) (ops : List SignalOp) : SignalState υ ι ρ :=
  { s with posted := s.posted ++ ops }

/-- `*insertion_point = reg`, where no registration stands for `&impl.signals_`. -/
def setLink (s : SignalState υ ι ρ) (impl : ι) (point reg : Option ρ) : SignalState υ ι ρ :=
  match point with
  | none => setSignals s impl reg
  | some q => setNextInSet s q reg

end Writes

/-! ### Registrations -/

section Registrations

/-- The place for a signal in the list of a set: the link that leads to it, and what it leads to.
`none` when the fuel runs out. -/
def findLoop (s : SignalState υ ι ρ) (n : Int) : Nat → Option ρ → Option ρ →
    Option (Option ρ × Option ρ)
  | 0, _, _ => none
  | _ + 1, point, none => some (point, none)
  | fuel + 1, point, some reg =>
    if s.signalNumber reg < n then findLoop s n fuel (some reg) (s.nextInSet reg)
    else some (point, some reg)

def find (s : SignalState υ ι ρ) (impl : ι) (n : Int) : Option (Option ρ × Option ρ) :=
  findLoop s n (s.allocated.length + 1) none (s.signals impl)

def isFor (s : SignalState υ ι ρ) (n : Int) (reg : Option ρ) : Bool :=
  match reg with
  | some reg => s.signalNumber reg = n
  | none => false

/-- `new registration`, with the members that `add` sets at once. -/
def allocate (s : SignalState υ ι ρ) (reg : ρ) (impl : ι) (n : Int) (next : Option ρ) :
    SignalState υ ι ρ :=
  { s with
    allocated := reg :: s.allocated
    signalNumber := Function.update s.signalNumber reg n
    queue := Function.update s.queue reg impl
    undelivered := Function.update s.undelivered reg 0
    nextInTable := Function.update s.nextInTable reg none
    prevInTable := Function.update s.prevInTable reg none
    nextInSet := Function.update s.nextInSet reg next }

def linkTable (s : SignalState υ ι ρ) (service : υ) (n : Int) (reg : ρ) : SignalState υ ι ρ :=
  let s := setNextInTable s reg (s.registrations service n)
  let s := match s.registrations service n with
    | some first => setPrevInTable s first (some reg)
    | none => s
  setTable s service n (some reg)

def unlinkTable (s : SignalState υ ι ρ) (service : υ) (n : Int) (reg : ρ) : SignalState υ ι ρ :=
  let s := if s.registrations service n = some reg then setTable s service n (s.nextInTable reg)
    else s
  let s := match s.prevInTable reg with
    | some prev => setNextInTable s prev (s.nextInTable reg)
    | none => s
  match s.nextInTable reg with
  | some next => setPrevInTable s next (s.prevInTable reg)
  | none => s

/-- `delete reg`; the signals it had not delivered are dropped. -/
def release (s : SignalState υ ι ρ) (reg : ρ) : SignalState υ ι ρ :=
  { s with
    allocated := s.allocated.erase reg
    dropped := s.dropped + s.undelivered reg }

/-- `ok` says for which signals `sigaction` succeeds, and `reg` is what `new` returns. -/
def add (cfg : Config υ) (s : SignalState υ ι ρ) (impl : ι) (n : Int) (reg : ρ) (ok : Int → Bool) :
    Option (SignalState υ ι ρ × Error) :=
  if n < 0 ∨ n ≥ cfg.maxSignalNumber then some (s, .invalidArgument)
  else
    (find s impl n).map fun (point, next) =>
      if isFor s n next then (s, .success)
      else if s.registrationCount n = 0 ∧ !ok n then (s, .system)
      else
        let s := if s.registrationCount n = 0 then setHandler s n true else s
        let s := setLink (allocate s reg impl n next) impl point (some reg)
        let s := linkTable s (s.service impl) n reg
        (setCount s n (s.registrationCount n + 1), .success)

/-- The part of `remove` and of `clear` that follows a successful `sigaction`, apart from the list
of the set. -/
def deregister (s : SignalState υ ι ρ) (service : υ) (reg : ρ) : SignalState υ ι ρ :=
  let n := s.signalNumber reg
  let s := if s.registrationCount n = 1 then setHandler s n false else s
  let s := unlinkTable s service n reg
  setCount s n (s.registrationCount n - 1)

def remove (cfg : Config υ) (s : SignalState υ ι ρ) (impl : ι) (n : Int) (ok : Int → Bool) :
    Option (SignalState υ ι ρ × Error) :=
  if n < 0 ∨ n ≥ cfg.maxSignalNumber then some (s, .invalidArgument)
  else
    (find s impl n).map fun (point, next) =>
      match next with
      | none => (s, .success)
      | some reg =>
        if s.signalNumber reg ≠ n then (s, .success)
        else if s.registrationCount n = 1 ∧ !ok n then (s, .system)
        else
          let s := setLink s impl point (s.nextInSet reg)
          (release (deregister s (s.service impl) reg) reg, .success)

/-- `fuel` bounds the number of registrations that are removed; `none` when it runs out. -/
def clearLoop (impl : ι) (ok : Int → Bool) :
    Nat → SignalState υ ι ρ → Option (SignalState υ ι ρ × Error)
  | 0, _ => none
  | fuel + 1, s =>
    match s.signals impl with
    | none => some (s, .success)
    | some reg =>
      if s.registrationCount (s.signalNumber reg) = 1 ∧ !ok (s.signalNumber reg) then some (s, .system)
      else
        let s := deregister s (s.service impl) reg
        let s := setSignals s impl (s.nextInSet reg)
        clearLoop impl ok fuel (release s reg)

def clear (s : SignalState υ ι ρ) (impl : ι) (ok : Int → Bool) :
    Option (SignalState υ ι ρ × Error) :=
  clearLoop impl ok (s.allocated.length + 1) s

end Registrations

/-! ### Operations -/

section Operations

def cancel (s : SignalState υ ι ρ) (impl : ι) : SignalState υ ι ρ :=
  postDeferredCompletions (setQueue s impl []) ((s.opQueue impl).map SignalOp.abort)

def cancelOpsByKey (s : SignalState υ ι ρ) (impl : ι) (cancellationKey : Nat) :
    SignalState υ ι ρ :=
  let ops := (s.opQueue impl).filter (·.cancellationKey = cancellationKey)
  let otherOps := (s.opQueue impl).filter (·.cancellationKey ≠ cancellationKey)
  postDeferredCompletions (setQueue s impl otherOps) (ops.map SignalOp.abort)

/-- The body of the inner loop of `deliver_signal`. -/
def deliverTo (s : SignalState υ ι ρ) (n : Int) (reg : ρ) : SignalState υ ι ρ :=
  if s.opQueue (s.queue reg) = [] then
    { setUndelivered s reg (s.undelivered reg + 1) with missed := s.missed + 1 }
  else
    postDeferredCompletions (setQueue s (s.queue reg) [])
      ((s.opQueue (s.queue reg)).map (SignalOp.receive n))

def deliverLoop (n : Int) : Nat → SignalState υ ι ρ → Option ρ → Option (SignalState υ ι ρ)
  | 0, _, _ => none
  | _ + 1, s, none => some s
  | fuel + 1, s, some reg =>
    let s := deliverTo s n reg
    deliverLoop n fuel s (s.nextInTable reg)

def deliverSignal (s : SignalState υ ι ρ) (n : Int) : Option (SignalState υ ι ρ) :=
  s.serviceList.foldlM (fun s service =>
    deliverLoop n (s.allocated.length + 1) s (s.registrations service n)) s

/-- The first registration of a set with a signal that is not delivered. -/
def undeliveredLoop (s : SignalState υ ι ρ) : Nat → Option ρ → Option (Option ρ)
  | 0, _ => none
  | _ + 1, none => some none
  | fuel + 1, some reg =>
    if s.undelivered reg > 0 then some (some reg)
    else undeliveredLoop s fuel (s.nextInSet reg)

def startWaitOp (s : SignalState υ ι ρ) (impl : ι) (op : SignalOp) :
    Option (SignalState υ ι ρ) :=
  (undeliveredLoop s (s.allocated.length + 1) (s.signals impl)).map fun
    | some reg =>
      let s := setUndelivered s reg (s.undelivered reg - 1)
      { postDeferredCompletions s [op.receive (s.signalNumber reg)] with
        immediate := s.immediate + 1 }
    | none => setQueue s impl (s.opQueue impl ++ [op])

end Operations

/-! ### Services and sets -/

section Objects

/-- The constructor of a service; `add_service` throws when a scheduler without locking would
share the signals with another. -/
def addService (cfg : Config υ) (s : SignalState υ ι ρ) (service : υ) : SignalState υ ι ρ :=
  match s.serviceList with
  | [] => { s with
      registrations := Function.update s.registrations service fun _ => none
      serviceList := [service] }
  | first :: rest =>
    if !cfg.locking service || !cfg.locking first then s
    else { s with
      registrations := Function.update s.registrations service fun _ => none
      serviceList := service :: first :: rest }

def construct (s : SignalState υ ι ρ) (service : υ) (impl : ι) : SignalState υ ι ρ :=
  { s with
    sets := impl :: s.sets
    service := Function.update s.service impl service
    opQueue := Function.update s.opQueue impl []
    signals := Function.update s.signals impl none }

def destroy (s : SignalState υ ι ρ) (impl : ι) (ok : Int → Bool) : Option (SignalState υ ι ρ) :=
  (clear s impl ok).map fun r => { cancel r.1 impl with sets := r.1.sets.erase impl }

end Objects

inductive Action (υ ι ρ : Type u)
  | addService (service : υ)
  | construct (service : υ) (impl : ι)
  | add (impl : ι) (n : Int) (reg : ρ) (ok : Int → Bool)
  | remove (impl : ι) (n : Int) (ok : Int → Bool)
  | clear (impl : ι) (ok : Int → Bool)
  | cancel (impl : ι)
  | cancelOpsByKey (impl : ι) (cancellationKey : Nat)
  | startWaitOp (impl : ι) (id cancellationKey : Nat)
  | deliverSignal (n : Int)
  | destroy (impl : ι) (ok : Int → Bool)

def succeed {α : Type u} (s : α) : α × Error := (s, .success)

def perform (cfg : Config υ) (s : SignalState υ ι ρ) :
    Action υ ι ρ → Option (SignalState υ ι ρ × Error)
  | .addService service => some (succeed (addService cfg s service))
  | .construct service impl => some (succeed (construct s service impl))
  | .add impl n reg ok => add cfg s impl n reg ok
  | .remove impl n ok => remove cfg s impl n ok
  | .clear impl ok => clear s impl ok
  | .cancel impl => some (succeed (cancel s impl))
  | .cancelOpsByKey impl key => some (succeed (cancelOpsByKey s impl key))
  | .startWaitOp impl id key => (startWaitOp s impl (.start id key)).map succeed
  | .deliverSignal n => (deliverSignal s n).map succeed
  | .destroy impl ok => (destroy s impl ok).map succeed

def step (cfg : Config υ) (s : SignalState υ ι ρ) (a : Action υ ι ρ) :
    Option (SignalState υ ι ρ) :=
  (perform cfg s a).map Prod.fst

/-- Functions are called on sets that exist, and objects are created where there are none. -/
def Legal (cfg : Config υ) (s : SignalState υ ι ρ) : Action υ ι ρ → Prop
  | .addService service => service ∉ s.serviceList
  | .construct service impl => service ∈ s.serviceList ∧ impl ∉ s.sets ∧ s.signals impl = none
  | .add impl _ reg _ => impl ∈ s.sets ∧ reg ∉ s.allocated
  | .remove impl _ _ | .clear impl _ | .cancel impl | .cancelOpsByKey impl _
  | .startWaitOp impl _ _ | .destroy impl _ => impl ∈ s.sets
  | .deliverSignal n => 0 ≤ n ∧ n < cfg.maxSignalNumber

instance (cfg : Config υ) (s : SignalState υ ι ρ) (a : Action υ ι ρ) : Decidable (Legal cfg s a) := by
  induction a using Action.casesOn <;> dsimp only [Legal] <;> infer_instance

end SignalSetService

end Asio.Detail
