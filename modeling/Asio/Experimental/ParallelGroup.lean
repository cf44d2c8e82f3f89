import Mathlib.Algebra.Group.Nat.Defs
import Asio.Lib.Gate
import Asio.Lib.Transition
import Mathlib.Logic.Function.Basic

/-! A group of asynchronous operations that are launched together and complete as one. -/

universe u

namespace Asio.Experimental.ParallelGroup

open Lib

/-- The types of cancellation are bits, and there may be none. -/
abbrev CancellationType := BitVec 32

def CancellationType.none : CancellationType := 0

/-- The counters are unsigned integers. -/
abbrev modulus : Nat := 2 ^ 32

/-! ### The parties -/

/-- How far an operation and its handler have come. -/
inductive Phase (ρ : Type u)
  | idle
  | initiated
  | counted (index : Nat) (args : ρ)
  | ordered (args : ρ)
  | judged (args : ρ) (cancelType : CancellationType)
  | saving (cancelType : CancellationType)
  | requesting (cancelType : CancellationType)
  | emitting (cancelType : CancellationType) (next : Nat)
  | releasing
  | dispatching
  | finished

def Phase.isFinished {ρ : Type u} : Phase ρ → Bool
  | .finished => true
  | _ => false

/-- How far the launch has come. -/
inductive Launch (n : Nat)
  | initiating (next : Nat)
  | inside (i : Fin n)
  | emitting (next : Nat)
  | emplacing
  | finished
  deriving DecidableEq

/-- Who goes through the cancellation signals. -/
inductive Source (n : Nat)
  | launch
  | op (i : Fin n)
  | slot (loop : Nat)
  deriving DecidableEq

/-- Who requests cancellation. -/
inductive Requester (n : Nat)
  | op (i : Fin n)
  | slot
  deriving DecidableEq

structure Emission (n : Nat) where
  source : Source n
  target : Fin n
  cancelType : CancellationType
  deriving DecidableEq

/-- What the proxy handler holds. -/
structure CompletionHandler (n : Nat) (ρ : Fin n → Type u) where
  completionOrder : List Nat
  args : (i : Fin n) → Option (ρ i)

/-- The shared state of the group, the parties that use it, and what has happened. -/
structure State (n : Nat) (ρ : Fin n → Type u) where
  completed : Nat
  cancelType : CancellationType
  cancellationsRequested : Nat
  outstanding : Nat
  handler : CompletionHandler n ρ
  connected : Bool
  launch : Launch n
  ops : (i : Fin n) → Phase (ρ i)
  slotLoops : List (CancellationType × Nat)
  completions : List ((i : Fin n) × ρ i)
  verdicts : List (Fin n × CancellationType)
  requests : List (Requester n)
  rounds : List (Source n)
  emissions : List (Emission n)
  released : List (Fin n)
  dispatched : List (CompletionHandler n ρ)

variable {n : Nat} {ρ : Fin n → Type u}

/-- The group before it is launched, with a slot that is connected or not. -/
def initial (n : Nat) (ρ : Fin n → Type u) (connected : Bool) : State n ρ where
  completed := 0
  cancelType := .none
  cancellationsRequested := n
  outstanding := n
  handler := ⟨List.replicate n 0, fun _ => none⟩
  connected := connected
  launch := .initiating 0
  ops _ := .idle
  slotLoops := []
  completions := []
  verdicts := []
  requests := []
  rounds := []
  emissions := []
  released := []
  dispatched := []

/-! ### Steps -/

inductive Action (n : Nat) (ρ : Fin n → Type u)
  | launch
  | complete (i : Fin n) (args : ρ i)
  | judge (i : Fin n) (cancelType : CancellationType)
  | proceed (i : Fin n)
  | slot (cancelType : CancellationType) (locked : Bool)
  | slotEmit (loop : Nat)

namespace State

variable (s : State n ρ)

def setOp (i : Fin n) (phase : Phase (ρ i)) : State n ρ :=
  { s with ops := Function.update s.ops i phase }

def emit (source : Source n) (target : Fin n) (cancelType : CancellationType) : State n ρ :=
  { s with emissions := s.emissions ++ [⟨source, target, cancelType⟩] }

/-- Whoever requests cancellation first, once the launch does not hold it back, emits signals. -/
def request (requester : Requester n) (source : Source n) : Bool × State n ρ :=
  let (first, count) := Gate.request modulus s.cancellationsRequested
  (first, { s with
    cancellationsRequested := count
    requests := s.requests ++ [requester]
    rounds := s.rounds ++ if first then [source] else [] })

/-- `parallel_group_launch`. -/
def stepLaunch : Option (State n ρ) :=
  match s.launch with
  | .initiating next =>
    if h : next < n then
      some { s.setOp ⟨next, h⟩ .initiated with launch := .inside ⟨next, h⟩ }
    else
      let (requested, count) := Gate.unbar modulus n s.cancellationsRequested
      some { s with
        cancellationsRequested := count
        rounds := s.rounds ++ if requested then [.launch] else []
        launch := if requested then .emitting 0 else .emplacing }
  | .inside i => some { s with launch := .initiating (i + 1) }
  | .emitting next =>
    if h : next < n then
      some { s.emit .launch ⟨next, h⟩ s.cancelType with launch := .emitting (next + 1) }
    else
      some { s with launch := .emplacing }
  | .emplacing => some { s with launch := .finished }
  | .finished => none

/-- `parallel_group_op_handler`, up to its cancellation condition. -/
def complete (i : Fin n) (args : ρ i) : Option (State n ρ) :=
  match s.ops i with
  | .initiated =>
    some { s.setOp i (.counted s.completed args) with
      completed := (s.completed + 1) % modulus
      completions := s.completions ++ [⟨i, args⟩] }
  | _ => none

def judge (i : Fin n) (cancelType : CancellationType) : Option (State n ρ) :=
  match s.ops i with
  | .ordered args =>
    some { s.setOp i (.judged args cancelType) with
      verdicts := s.verdicts ++ [(i, cancelType)] }
  | _ => none

/-- The other steps of `parallel_group_op_handler`. -/
def proceed (i : Fin n) : Option (State n ρ) :=
  match s.ops i with
  | .counted index args =>
    some { s.setOp i (.ordered args) with
      handler := { s.handler with completionOrder := s.handler.completionOrder.set index i } }
  | .judged args cancelType =>
    some { s.setOp i (if cancelType ≠ .none then .saving cancelType else .releasing) with
      handler := { s.handler with args := Function.update s.handler.args i (some args) } }
  | .saving cancelType =>
    some { s.setOp i (.requesting cancelType) with cancelType := cancelType }
  | .requesting cancelType =>
    let (first, s) := s.request (.op i) (.op i)
    some (s.setOp i (if first then .emitting cancelType 0 else .releasing))
  | .emitting cancelType next =>
    if h : next < n then
      let s := if next = i then s else s.emit (.op i) ⟨next, h⟩ cancelType
      some (s.setOp i (.emitting cancelType (next + 1)))
    else
      some (s.setOp i .releasing)
  | .releasing =>
    let outstanding := Countdown.leave modulus s.outstanding
    some { s.setOp i (if outstanding = 0 then .dispatching else .finished) with
      outstanding := outstanding
      released := s.released ++ [i] }
  | .dispatching =>
    some { s.setOp i .finished with dispatched := s.dispatched ++ [s.handler] }
  | _ => none

/-- `parallel_group_cancellation_handler`. The group may be gone when all its operations have
finished. -/
def slot (cancelType : CancellationType) (locked : Bool) : Option (State n ρ) :=
  match s.launch with
  | .finished =>
    if s.connected = false ∨ (locked = false ∧ ∃ i, (s.ops i).isFinished = false) then
      none
    else if cancelType = .none ∨ locked = false then
      some s
    else
      let (first, s) := s.request .slot (.slot s.slotLoops.length)
      some { s with slotLoops := s.slotLoops ++ if first then [(cancelType, 0)] else [] }
  | _ => none

def slotEmit (loop : Nat) : Option (State n ρ) :=
  match s.slotLoops[loop]? with
  | some (cancelType, next) =>
    if h : next < n then
      some { s.emit (.slot loop) ⟨next, h⟩ cancelType with
        slotLoops := s.slotLoops.set loop (cancelType, next + 1) }
    else
      none
  | none => none

end State

def step (s : State n ρ) : Action n ρ → Option (State n ρ)
  | .launch => s.stepLaunch
  | .complete i args => s.complete i args
  | .judge i cancelType => s.judge i cancelType
  | .proceed i => s.proceed i
  | .slot cancelType locked => s.slot cancelType locked
  | .slotEmit loop => s.slotEmit loop

/-- The count of requests does not overflow. -/
def Fits (s : State n ρ) : Action n ρ → Prop
  | .proceed i =>
    match s.ops i with
    | .requesting _ => s.cancellationsRequested + 1 < modulus
    | _ => True
  | .slot cancelType locked =>
    cancelType ≠ .none → locked = true → s.cancellationsRequested + 1 < modulus
  | _ => True

instance (s : State n ρ) (a : Action n ρ) : Decidable (Fits s a) := by
  cases a with
  | proceed i =>
    dsimp only [Fits]
    split <;> infer_instance
  | slot cancelType locked =>
    dsimp only [Fits]
    infer_instance
  | _ => exact inferInstanceAs (Decidable True)

end Asio.Experimental.ParallelGroup
