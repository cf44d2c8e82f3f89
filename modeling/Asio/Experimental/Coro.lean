import Mathlib.Logic.Function.Basic
import Asio.CancellationState
import Asio.Lib.Transition

/-! Coroutines that are resumed asynchronously or awaited by other coroutines, and the cancellation
source that each of them sees. -/

universe u v

namespace Asio.Experimental

open Detail.ReactiveSocketService (CancellationType)
open Lib.Transition

/-! ### Cancellation sources -/

/-- `resumption` tells the sources of different calls of `async_resume` apart, and `relay` is the
`cancel_handler` in the slot of the state. -/
structure CoroCancellationSource where
  resumption : Nat
  isConnected : Bool
  state : CancellationState
  throwIfCancelled : Bool
  relay : Option Nat
  connected : state.impl.isSome = isConnected

namespace CoroCancellationSource

theorem isSome_construct (isConnected : Bool)
    (inFilter outFilter : CancellationType → CancellationType) :
    (CancellationState.construct isConnected inFilter outFilter).impl.isSome = isConnected := by
  cases isConnected <;> rfl

def construct (resumption : Nat) (isConnected : Bool) : CoroCancellationSource where
  resumption := resumption
  isConnected := isConnected
  state := .construct isConnected enableTerminalCancellation enableTerminalCancellation
  throwIfCancelled := true
  relay := none
  connected := isSome_construct ..

variable (src : CoroCancellationSource)

def resetCancellationState (inFilter outFilter : CancellationType → CancellationType) :
    CoroCancellationSource :=
  { src with
    state := .construct src.isConnected inFilter outFilter
    relay := none
    connected := isSome_construct .. }

def setThrowIfCancelled (value : Bool) : CoroCancellationSource :=
  { src with throwIfCancelled := value }

def setRelay (relay : Option Nat) : CoroCancellationSource := { src with relay := relay }

def emit (type : CancellationType) : CoroCancellationSource :=
  { src with
    state := src.state.emit type
    connected := by
      rw [CancellationState.emit, Option.isSome_map]
      exact src.connected }

/-- What the state emits to its own slot. -/
def passed (type : CancellationType) : CancellationType :=
  match src.state.impl with
  | some impl => impl.outFilter (impl.inFilter type)
  | none => 0

/-- Whether a coroutine that is about to be suspended gets an exception instead. -/
def isThrown : Bool := src.state.cancelled ≠ 0 ∧ src.throwIfCancelled = true

end CoroCancellationSource

/-- What a `coro_cancellation_source *` may hold. -/
inductive SourcePointer (ι : Type u)
  | indeterminate
  | null
  | cancelSource (owner : ι) (resumption : Nat)
  | relay (n : Nat)
  deriving DecidableEq

/-! ### Coroutines -/

/-- What is resumed when a coroutine yields or returns. -/
inductive AwaitedFrom (ι : Type u)
  | noop
  | coro (c : ι)
  | handler
  deriving DecidableEq

/-- `awaiting` is the coroutine that the body is suspended for. -/
structure CoroPromise (ι : Type u) (ε : Type v) where
  executor : ε
  isNoexcept : Bool
  awaitedFrom : AwaitedFrom ι
  cancelSource : Option CoroCancellationSource
  cancel : SourcePointer ι
  awaiting : Option ι
  done : Bool

/-- The source that a `cancel_handler` emits to, and the coroutine it was created for. -/
structure CoroRelay (ι : Type u) where
  coro : ι
  source : CoroCancellationSource

structure Coros (ι : Type u) (ε : Type v) where
  promise : ι → CoroPromise ι ε
  relays : List (CoroRelay ι)
  resumptions : Nat

inductive CoroAction (ι : Type u)
  | asyncResume (c : ι) (isConnected : Bool)
  | coAwait (a b : ι)
  | suspend (c : ι) (done : Bool)
  | resetCancellationState (c : ι) (inFilter outFilter : CancellationType → CancellationType)
  | throwIfCancelled (c : ι) (value : Bool)
  | coroInitHandler (c : ι)
  | emit (c : ι) (type : CancellationType)

namespace Coros

variable {ι : Type u} {ε : Type v}

/-- No pointer is initialised by the constructor. -/
def construct (executor : ι → ε) (isNoexcept : ι → Bool) : Coros ι ε where
  promise c :=
    { executor := executor c, isNoexcept := isNoexcept c, awaitedFrom := .noop,
      cancelSource := none, cancel := .indeterminate, awaiting := none, done := false }
  relays := []
  resumptions := 0

/-- The body of the coroutine runs, or waits for an operation that is not a coroutine. -/
def Running (s : Coros ι ε) (c : ι) : Prop :=
  (s.promise c).awaitedFrom ≠ .noop ∧ (s.promise c).awaiting = none

instance [DecidableEq ι] (s : Coros ι ε) (c : ι) : Decidable (s.Running c) :=
  inferInstanceAs (Decidable (_ ∧ _))

/-- The source that a pointer designates, if there still is one. -/
def source (s : Coros ι ε) : SourcePointer ι → Option CoroCancellationSource
  | .indeterminate => none
  | .null => none
  | .cancelSource owner resumption =>
    (s.promise owner).cancelSource.filter fun src => src.resumption = resumption
  | .relay n => s.relays[n]?.map CoroRelay.source

/-- The source that the body sees. -/
def sees (s : Coros ι ε) (c : ι) : Option CoroCancellationSource := s.source (s.promise c).cancel

/-- Whether `await_suspend` throws; undefined if it follows a pointer to no source. -/
def throws (s : Coros ι ε) (a : ι) : Option Bool :=
  if (s.promise a).isNoexcept then
    some false
  else
    (s.sees a).map CoroCancellationSource.isThrown

/-- The chain that ends in the coroutine was started by `async_resume` of the other one. -/
inductive StartedBy (s : Coros ι ε) : ι → ι → Prop
  | handler {c : ι} (h : (s.promise c).awaitedFrom = .handler) : StartedBy s c c
  | coro {a c r : ι} (h : (s.promise c).awaitedFrom = .coro a) (ha : StartedBy s a r) :
      StartedBy s c r

/-- A coroutine is suspended for one with another executor. -/
def Crosses (s : Coros ι ε) : CoroAction ι → Prop
  | .coAwait a b =>
    (s.promise a).executor ≠ (s.promise b).executor ∧ s.throws a = some false
  | _ => False

variable [DecidableEq ι]

def setPromise (s : Coros ι ε) (c : ι) (p : CoroPromise ι ε) : Coros ι ε :=
  { s with promise := Function.update s.promise c p }

def modifySource (s : Coros ι ε) (f : CoroCancellationSource → CoroCancellationSource) :
    SourcePointer ι → Coros ι ε
  | .indeterminate => s
  | .null => s
  | .cancelSource owner _ =>
    s.setPromise owner
      { s.promise owner with cancelSource := (s.promise owner).cancelSource.map f }
  | .relay n =>
    { s with relays := s.relays.modify n fun relay => { relay with source := f relay.source } }

/-- What the body does to the source that it sees; undefined if it sees none. -/
def withSource (s : Coros ι ε) (c : ι) (f : CoroCancellationSource → CoroCancellationSource) :
    Option (Coros ι ε) :=
  (s.sees c).map fun _ => s.modifySource f (s.promise c).cancel

/-- `initiate_async_resume`; a coroutine that is done is not resumed. -/
def asyncResume (s : Coros ι ε) (c : ι) (isConnected : Bool) : Coros ι ε :=
  let p := s.promise c
  { s with resumptions := s.resumptions + 1 }.setPromise c
    { p with
      cancelSource := some (.construct s.resumptions isConnected)
      cancel := .cancelSource c s.resumptions
      awaitedFrom := if p.done then .noop else .handler }

/-- The awaited coroutine runs on, with the pointer that it is given. -/
def transfer (s : Coros ι ε) (a b : ι) (cancel : SourcePointer ι) : Coros ι ε :=
  let s := s.setPromise b { s.promise b with awaitedFrom := .coro a, cancel := cancel }
  s.setPromise a { s.promise a with awaiting := some b }

/-- The slot of the awaiting coroutine relays what it is emitted to a source made for the awaited
one. -/
def emplaceCancelHandler (s : Coros ι ε) (a b : ι) (src : CoroCancellationSource) : Coros ι ε :=
  if src.state.impl.isSome then
    let n := s.relays.length
    let s := s.modifySource (CoroCancellationSource.setRelay · (some n)) (s.promise a).cancel
    { s with relays := s.relays ++ [⟨b, .construct src.resumption true⟩] }
  else
    s

/-- `await_suspend` -/
def coAwait [DecidableEq ε] (s : Coros ι ε) (a b : ι) : Option (Coros ι ε) :=
  (s.throws a).bind fun thrown =>
    if thrown then
      some s
    else if (s.promise a).executor = (s.promise b).executor then
      some (s.transfer a b (s.promise a).cancel)
    else
      (s.sees a).map fun src =>
        (s.emplaceCancelHandler a b src).transfer a b (s.promise b).cancel

/-- The body yields or returns, and a coroutine that awaits it is resumed. -/
def suspend (s : Coros ι ε) (c : ι) (done : Bool) : Coros ι ε :=
  let p := s.promise c
  match p.awaitedFrom with
  | .noop => s
  | .handler => s.setPromise c { p with awaitedFrom := .noop, done := done }
  | .coro a =>
    let s := s.setPromise c { p with awaitedFrom := .noop, done := done, cancel := .null }
    s.setPromise a { s.promise a with awaiting := none }

/-- `await_transform` for an operation whose handler is connected to the slot of the state. -/
def coroInitHandler (s : Coros ι ε) (c : ι) : Option (Coros ι ε) :=
  (s.sees c).map fun src =>
    if (s.promise c).isNoexcept = false ∧ src.isThrown = true then
      s
    else
      s.modifySource (CoroCancellationSource.setRelay · none) (s.promise c).cancel

/-- The signal of the slot that `async_resume` was given is emitted. -/
def emit (s : Coros ι ε) (c : ι) (type : CancellationType) : Coros ι ε :=
  match (s.promise c).cancelSource with
  | none => s
  | some src =>
    let out := src.passed type
    let s := s.modifySource (CoroCancellationSource.emit · type) (.cancelSource c src.resumption)
    match src.relay with
    | none => s
    | some n => if out ≠ 0 then s.modifySource (CoroCancellationSource.emit · out) (.relay n) else s

/-- A coroutine is resumed or awaited when it is not active, and awaited when it is not done. -/
def step [DecidableEq ε] (s : Coros ι ε) : CoroAction ι → Option (Coros ι ε)
  | .asyncResume c isConnected =>
    if (s.promise c).awaitedFrom = .noop then some (s.asyncResume c isConnected) else none
  | .coAwait a b =>
    if s.Running a ∧ (s.promise b).awaitedFrom = .noop ∧ (s.promise b).done = false then
      s.coAwait a b
    else
      none
  | .suspend c done => if s.Running c then some (s.suspend c done) else none
  | .resetCancellationState c inFilter outFilter =>
    if s.Running c then s.withSource c (·.resetCancellationState inFilter outFilter) else none
  | .throwIfCancelled c value =>
    if s.Running c ∧ (s.promise c).isNoexcept = false then
      s.withSource c (·.setThrowIfCancelled value)
    else
      none
  | .coroInitHandler c => if s.Running c then s.coroInitHandler c else none
  | .emit c type => some (s.emit c type)

/-! ### What the bodies see -/

/-- It sees the source of that `async_resume`, in which emissions are recorded. -/
def SeesSource (s : Coros ι ε) (c r : ι) : Prop :=
  ∃ src, (s.promise c).cancel = .cancelSource r src.resumption ∧
    (s.promise r).cancelSource = some src ∧
    ∀ type impl, src.state.impl = some impl →
      ∃ src', (s.emit r type).sees c = some src' ∧ src'.state.cancelled = impl.inFilter type

/-- It sees a source that was made for a coroutine of the chain, in which what reaches it is
recorded. -/
def SeesRelay (s : Coros ι ε) (c r : ι) : Prop :=
  ∃ n relay src, (s.promise c).cancel = .relay n ∧ s.relays[n]? = some relay ∧
    s.StartedBy relay.coro r ∧ (s.promise r).cancelSource = some src ∧
    ∀ type impl, relay.source.state.impl = some impl → src.passed type ≠ 0 →
      ∃ src', (s.emit r type).sees c = some src' ∧
        src'.state.cancelled = impl.inFilter (src.passed type)

/-- Every coroutine whose body runs sees the source that it should. -/
def Right (s : Coros ι ε) : Prop :=
  ∀ c, s.Running c → ∃ r, s.StartedBy c r ∧ (s.SeesSource c r ∨ s.SeesRelay c r)

section Runs

variable [DecidableEq ε]

def AllRight (start : Coros ι ε) (as : List (CoroAction ι)) : Prop :=
  ∀ bs s, bs <+: as → exec step start bs = some s → s.Right

def NeverCrosses (start : Coros ι ε) (as : List (CoroAction ι)) : Prop :=
  ∀ bs a s, bs ++ [a] <+: as → exec step start bs = some s → (s.step a).isSome → ¬s.Crosses a

end Runs

end Coros

end Asio.Experimental
