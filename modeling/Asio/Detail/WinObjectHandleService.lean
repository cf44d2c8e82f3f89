import Mathlib.Algebra.GroupWithZero.Nat
import Asio.Lib.LinkedLists
import Asio.Lib.Transition

/-! Waits for Windows object handles. -/

universe u v w z

namespace Asio.Detail.WinObjectHandleService

open Lib LinkedList

/-- The error codes that complete a wait. -/
inductive ErrorCode
  | success
  | operationAborted
  | badDescriptor
  | system
  deriving DecidableEq, Repr

/-! ### Implementations, waits and services -/

/-- Where a call that has released the lock goes on. The operations are to be completed as aborted,
and `lent` is the object that another one is moved from. -/
inductive Call (α : Type v) (ω : Type w)
  | idle
  | lent
  | cancelling (waitHandle : Option Nat) (ops : List ω)
  | closing (waitHandle : Option Nat) (ops : List ω) (source : Option α)
  | destroying (waitHandle : Option Nat) (ops : List ω)
  | assigning (source : α)
  | unregistering (source : α)
  | registering (source : α)

/-- An implementation, with the service pointer of the object that holds it and the call that is in
progress on it: the calls on one object do not overlap. A handle of none is not open. -/
structure Implementation (σ : Type u) (α : Type v) (η : Type z) (ω : Type w) where
  handle : Option η
  waitHandle : Option Nat
  opQueue : List ω
  owner : Option σ
  service : Option σ
  call : Call α ω

/-- A wait that the system has registered, from its object's signal to the end of its callback. -/
inductive Wait (σ : Type u) (α : Type v) (ω : Type w)
  | closed
  | pending (impl : α)
  | signalled (impl : α)
  | posting (scheduler : σ) (ops : List (ω × ErrorCode))

structure Completion (σ : Type u) (ω : Type w) where
  scheduler : σ
  op : ω
  ec : ErrorCode
  deriving DecidableEq

structure State (σ : Type u) (α : Type v) (η : Type z) (ω : Type w) where
  lists : Lists σ α
  shutdown : σ → Bool
  impl : α → Implementation σ α η ω
  waits : Nat → Wait σ α ω
  registered : Nat
  started : List (σ × ω)
  posted : List (Completion σ ω)

variable {σ : Type u} {α : Type v} {η : Type z} {ω : Type w}

/-- The default constructor. -/
def Implementation.fresh : Implementation σ α η ω where
  handle := .none
  waitHandle := .none
  opQueue := []
  owner := .none
  service := .none
  call := .idle

def initial : State σ α η ω where
  lists := ⟨fun _ => none, fun _ => none, fun _ => none⟩
  shutdown _ := false
  impl _ := .fresh
  waits _ := .closed
  registered := 0
  started := []
  posted := []

namespace Implementation

variable (impl : Implementation σ α η ω)

def isOpen : Bool := impl.handle.isSome

/-- The wait and the operations are taken out under the lock. -/
def release (call : Call α ω) : Implementation σ α η ω :=
  { impl with waitHandle := .none, opQueue := [], call := call }

end Implementation

namespace State

variable [DecidableEq α] [DecidableEq ω] [DecidableEq σ] (s : State σ α η ω)

def setImpl (a : α) (impl : Implementation σ α η ω) : State σ α η ω :=
  { s with impl := Function.update s.impl a impl }

def setWait (w : Nat) (wait : Wait σ α ω) : State σ α η ω :=
  { s with waits := Function.update s.waits w wait }

def setCall (a : α) (call : Call α ω) : State σ α η ω :=
  s.setImpl a { s.impl a with call := call }

/-- `post_deferred_completions` -/
def post (scheduler : σ) (ops : List (ω × ErrorCode)) : State σ α η ω :=
  { s with posted := s.posted ++ ops.map fun p => ⟨scheduler, p.1, p.2⟩ }

def aborted (ops : List ω) : List (ω × ErrorCode) := ops.map (·, .operationAborted)

/-- `UnregisterWaitEx`, which waits for a callback that has begun. -/
def unregister (waitHandle : Option Nat) : Option (State σ α η ω) :=
  match waitHandle with
  | none => some s
  | some w =>
    match s.waits w with
    | .closed => some s
    | .pending _ => some (s.setWait w .closed)
    | _ => none

/-- `RegisterWaitForSingleObject` -/
def registerWait (a : α) : State σ α η ω :=
  { (s.setWait s.registered (.pending a)).setImpl a
    { s.impl a with waitHandle := some s.registered } with registered := s.registered + 1 }

/-- `register_wait_callback`, whose registration may fail. -/
def registerWaitCallback (k : σ) (a : α) (registers : Bool) : State σ α η ω :=
  if registers then
    s.registerWait a
  else
    (s.setImpl a { s.impl a with opQueue := [] }).post k ((s.impl a).opQueue.map (·, .system))

/-- The new object and the list of implementations. -/
def link (k : σ) (a : α) : State σ α η ω :=
  if s.shutdown k then s else { s with lists := s.lists.pushFront k a }

def construct (a : α) (k : σ) : Option (State σ α η ω) :=
  match (s.impl a).service with
  | some _ => none
  | none =>
    some ((s.link k a).setImpl a
      { (.fresh : Implementation σ α η ω) with owner := some k, service := some k })

def assign (a : α) (handle : Option η) : Option (State σ α η ω) :=
  match (s.impl a).service, (s.impl a).call with
  | some _, .idle =>
    if (s.impl a).isOpen then some s else some (s.setImpl a { s.impl a with handle := handle })
  | _, _ => none

def startWaitOp (a : α) (op : ω) (registers : Bool) : Option (State σ α η ω) :=
  match (s.impl a).service, (s.impl a).call with
  | some k, .idle =>
    if op ∈ s.started.map Prod.snd then
      none
    else
      let s := { s with started := s.started ++ [(k, op)] }
      if (s.impl a).isOpen then
        if s.shutdown k then
          some (s.post k [(op, .success)])
        else
          let s := s.setImpl a { s.impl a with opQueue := (s.impl a).opQueue ++ [op] }
          if (s.impl a).opQueue.head? = some op then
            some (s.registerWaitCallback k a registers)
          else
            some s
      else
        some (s.post k [(op, .badDescriptor)])
  | _, _ => none

def cancel (a : α) : Option (State σ α η ω) :=
  match (s.impl a).service, (s.impl a).call with
  | some _, .idle =>
    if (s.impl a).isOpen then
      some (s.setImpl a
        ((s.impl a).release (.cancelling (s.impl a).waitHandle (s.impl a).opQueue)))
    else
      some s
  | _, _ => none

def close (a : α) : Option (State σ α η ω) :=
  match (s.impl a).service, (s.impl a).call with
  | some _, .idle =>
    if (s.impl a).isOpen then
      some (s.setImpl a
        ((s.impl a).release (.closing (s.impl a).waitHandle (s.impl a).opQueue none)))
    else
      some s
  | _, _ => none

/-- The object is gone when its implementation has been destroyed. -/
def destroy (a : α) : Option (State σ α η ω) :=
  match (s.impl a).service, (s.impl a).call with
  | some k, .idle =>
    let s := { s with lists := s.lists.unlink k a }
    if (s.impl a).isOpen then
      some (s.setImpl a
        ((s.impl a).release (.destroying (s.impl a).waitHandle (s.impl a).opQueue)))
    else
      some (s.setImpl a { s.impl a with service := none })
  | _, _ => none

/-- What both kinds of move do with the implementations, under the lock. -/
def moveFrom (k : σ) (a source : α) : State σ α η ω :=
  let from' := s.impl source
  let s := s.setImpl source { from' with handle := none, waitHandle := none, opQueue := [] }
  s.setImpl a { s.impl a with
    handle := from'.handle
    waitHandle := from'.waitHandle
    opQueue := (s.impl a).opQueue ++ from'.opQueue
    owner := some k
    call := .unregistering source }

/-- The new object has the service of the one that it is moved from. -/
def moveConstruct (a source : α) : Option (State σ α η ω) :=
  match (s.impl a).service, (s.impl source).service, (s.impl source).call with
  | none, some k, .idle =>
    let s := s.link k a
    let s := s.setImpl a { (.fresh : Implementation σ α η ω) with service := some k }
    some ((s.setCall source .lent).moveFrom k a source)
  | _, _, _ => none

/-- A move assignment closes the handle first. -/
def moveAssign (a source : α) : Option (State σ α η ω) :=
  match (s.impl a).service, (s.impl a).call, (s.impl source).service, (s.impl source).call with
  | some _, .idle, some _, .idle =>
    if a = source then
      none
    else
      let s := s.setCall source .lent
      if (s.impl a).isOpen then
        some (s.setImpl a
          ((s.impl a).release (.closing (s.impl a).waitHandle (s.impl a).opQueue (some source))))
      else
        some (s.setCall a (.assigning source))
  | _, _, _, _ => none

/-- The next step of a call. The flag says whether the system does what it is asked for. -/
def proceed (a : α) (ok : Bool) : Option (State σ α η ω) :=
  match (s.impl a).service with
  | none => none
  | some k =>
    match (s.impl a).call with
    | .cancelling waitHandle ops =>
      (s.unregister waitHandle).map fun s => (s.setCall a .idle).post k (aborted ops)
    | .closing waitHandle ops source =>
      (s.unregister waitHandle).map fun s =>
        (s.setImpl a { s.impl a with
          handle := if ok then none else (s.impl a).handle
          call := match source with
            | none => .idle
            | some source => .assigning source }).post k (aborted ops)
    | .destroying waitHandle ops =>
      (s.unregister waitHandle).map fun s =>
        (s.setImpl a { s.impl a with handle := none, service := none, call := .idle }).post k
          (aborted ops)
    | .assigning source =>
      match (s.impl source).service with
      | none => none
      | some other =>
        let s := if k = other then s else { s with lists := s.lists.unlink k a }
        let s := s.moveFrom k a source
        some (if k = other then s else { s with lists := s.lists.pushFront other a })
    | .unregistering source =>
      (s.unregister (s.impl a).waitHandle).map fun s => s.setCall a (.registering source)
    | .registering source =>
      let s := if (s.impl a).opQueue = [] then s else s.registerWaitCallback k a ok
      let s := s.setCall source .idle
      some (s.setImpl a { s.impl a with service := (s.impl source).service, call := .idle })
    | _ => none

/-- The object is signalled, and the callback is about to be called. -/
def signal (w : Nat) : Option (State σ α η ω) :=
  match s.waits w with
  | .pending a => some (s.setWait w (.signalled a))
  | _ => none

/-- `UnregisterWaitEx` that does not wait. -/
def unregisterNow (waitHandle : Option Nat) : State σ α η ω :=
  match waitHandle with
  | none => s
  | some w =>
    match s.waits w with
    | .pending _ => s.setWait w .closed
    | _ => s

/-- `wait_callback`, up to where it releases the lock. -/
def waitCallback (w : Nat) (registers : Bool) : Option (State σ α η ω) :=
  match s.waits w with
  | .signalled a =>
    match (s.impl a).owner with
    | none => none
    | some k =>
      let s := s.unregisterNow (s.impl a).waitHandle
      let s := s.setImpl a { s.impl a with waitHandle := none }
      match (s.impl a).opQueue with
      | [] => some (s.setWait w .closed)
      | op :: ops =>
        let s := s.setImpl a { s.impl a with opQueue := ops }
        if ops = [] then
          some (s.setWait w (.posting k [(op, .success)]))
        else if registers then
          some ((s.registerWait a).setWait w (.posting k [(op, .success)]))
        else
          let s := s.setImpl a { s.impl a with opQueue := [] }
          some (s.setWait w (.posting k ((op, .success) :: ops.map (·, .system))))
  | _ => none

def postCompletions (w : Nat) : Option (State σ α η ω) :=
  match s.waits w with
  | .posting k ops => some ((s.post k ops).setWait w .closed)
  | _ => none

end State

/-! ### Runs -/

inductive Action (σ : Type u) (α : Type v) (η : Type z) (ω : Type w)
  | construct (a : α) (k : σ)
  | assign (a : α) (handle : Option η)
  | startWaitOp (a : α) (op : ω) (registers : Bool)
  | cancel (a : α)
  | close (a : α)
  | destroy (a : α)
  | moveConstruct (a source : α)
  | moveAssign (a source : α)
  | proceed (a : α) (ok : Bool)
  | signal (w : Nat)
  | waitCallback (w : Nat) (registers : Bool)
  | postCompletions (w : Nat)

variable [DecidableEq α] [DecidableEq ω] [DecidableEq σ]

def step (s : State σ α η ω) : Action σ α η ω → Option (State σ α η ω)
  | .construct a k => s.construct a k
  | .assign a handle => s.assign a handle
  | .startWaitOp a op registers => s.startWaitOp a op registers
  | .cancel a => s.cancel a
  | .close a => s.close a
  | .destroy a => s.destroy a
  | .moveConstruct a source => s.moveConstruct a source
  | .moveAssign a source => s.moveAssign a source
  | .proceed a ok => s.proceed a ok
  | .signal w => s.signal w
  | .waitCallback w registers => s.waitCallback w registers
  | .postCompletions w => s.postCompletions w

/-- An object is only assigned from one that uses the same service. -/
def SameService (s : State σ α η ω) : Action σ α η ω → Prop
  | .moveAssign a source => (s.impl a).service = (s.impl source).service
  | _ => True

end Asio.Detail.WinObjectHandleService
