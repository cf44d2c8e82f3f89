import Asio.Lib.Chain
import Asio.Lib.Transition

/-! The frames of a coroutine and the objects that own and resume them. -/

universe u v

namespace Asio.Awaitable

/-! ### Frames -/

/-- Where a coroutine is suspended, if it is. A frame that has been created is held by an awaitable
object that nobody awaits as yet. -/
inductive Point
  | free
  | created
  | awaited
  | running
  | awaiting (callee : Nat)
  | initiated
  | ended
  deriving DecidableEq

/-- The coroutine is that of an asynchronous operation, which does nothing but initiate it, or any
other. -/
structure Frame (ε : Type u) (α : Type v) where
  operation : Bool
  point : Point
  attachedThread : Option Nat
  caller : Option Nat
  pendingException : Option ε
  result : Option α

namespace Frame

variable {ε : Type u} {α : Type v}

def free : Frame ε α := ⟨false, .free, none, none, none, none⟩

def created (operation : Bool) : Frame ε α := ⟨operation, .created, none, none, none, none⟩

/-- `return_value`, or `set_except`. -/
def settle (f : Frame ε α) : Except ε α → Frame ε α
  | .ok value => { f with result := some value }
  | .error exception => { f with pendingException := some exception }

/-- The result, if there is no exception to be thrown again. -/
def get (f : Frame ε α) : Option (Except ε α) :=
  match f.pendingException with
  | some exception => some (.error exception)
  | none => f.result.map .ok

end Frame

/-! ### Objects of `awaitable_thread` -/

/-- What becomes of an object: it launches the entry point, or it is a handler that is local to an
initiation, held by an operation, or called; and then it pumps. -/
inductive Role
  | gone
  | constructed
  | pumping
  | running (frame : Nat)
  | initiating (handler : Nat)
  | returned
  | atInitiation
  | pending
  deriving DecidableEq

structure Thread where
  bottomOfStack : Option Nat
  role : Role

def Thread.gone : Thread := ⟨none, .gone⟩

/-- Where the awaitable of the entry point is: in an object, in a function that has been posted, or
destroyed, when a frame may still be about to be. -/
inductive Life
  | owned
  | posted
  | destroying (frame : Nat)
  | destroyed
  deriving DecidableEq

/-- A result that a frame has for the frame that awaits it. -/
structure Delivery (ε : Type u) (α : Type v) where
  caller : Nat
  callee : Nat
  result : Except ε α

/-- The frames and objects by address, the members of the entry point, and what has happened:
who has awaited a frame, the results that frames have got, and those that callers have. -/
structure State (ε : Type u) (α : Type v) where
  frames : Nat → Frame ε α
  threads : Nat → Thread
  topOfStack : Option Nat
  hasContextSwitched : Bool
  life : Life
  escaped : Option ε
  awaitedBy : Nat → Nat
  completions : List (Delivery ε α)
  resumptions : List (Delivery ε α)

variable {ε : Type u} {α : Type v}

/-- The address of the frame of the entry point. -/
def entryPoint : Nat := 0

/-- The entry point is awaited by its thread. -/
def initial (ε : Type u) (α : Type v) : State ε α where
  frames := Function.update (fun _ => .free) entryPoint { Frame.created false with point := .awaited }
  threads := Function.update (fun _ => .gone) 0 ⟨some entryPoint, .constructed⟩
  topOfStack := some entryPoint
  hasContextSwitched := false
  life := .owned
  escaped := none
  awaitedBy _ := 0
  completions := []
  resumptions := []

namespace State

variable (s : State ε α)

def setFrame (f : Nat) (frame : Frame ε α) : State ε α :=
  { s with frames := Function.update s.frames f frame }

def setThread (o : Nat) (thread : Thread) : State ε α :=
  { s with threads := Function.update s.threads o thread }

def setRole (o : Nat) (role : Role) : State ε α :=
  s.setThread o { s.threads o with role := role }

/-! ### Operations on frames -/

def attachThread (f o : Nat) : State ε α :=
  s.setFrame f { s.frames f with attachedThread := some o }

/-- The entry point of the thread to which a frame is attached. -/
def attachedEntryPoint (f : Nat) : Option (Nat × Nat) :=
  (s.frames f).attachedThread.bind fun o => (s.threads o).bottomOfStack.map fun e => (o, e)

def detachThread (f : Nat) : Option (Nat × State ε α) :=
  (s.attachedEntryPoint f).map fun (o, _) =>
    (o, { s.setFrame f { s.frames f with attachedThread := none } with
      hasContextSwitched := true })

def pushFrame (f caller : Nat) : Option (State ε α) :=
  (s.attachedEntryPoint caller).map fun (o, _) =>
    let s := s.setFrame f { s.frames f with caller := some caller, attachedThread := some o }
    let s := { s with topOfStack := some f }
    s.setFrame caller { s.frames caller with attachedThread := none }

def popFrame (f : Nat) : Option (State ε α) :=
  (s.attachedEntryPoint f).map fun (o, _) =>
    let caller := (s.frames f).caller
    let s := match caller with
      | some c => s.setFrame c { s.frames c with attachedThread := some o }
      | none => s
    let s := { s with topOfStack := caller }
    s.setFrame f { s.frames f with attachedThread := none, caller := none }

/-! ### What a frame does while it runs -/

/-- `co_await` of an awaitable object. -/
def await (o g : Nat) : Option (State ε α) :=
  match (s.threads o).role with
  | .running f =>
    if (s.frames f).operation = false ∧ (s.frames g).point = .created then
      (s.pushFrame g f).map fun s =>
        let s := s.setFrame g { s.frames g with point := .awaited }
        let s := s.setFrame f { s.frames f with point := .awaiting g }
        { s.setRole o .returned with awaitedBy := Function.update s.awaitedBy g f }
    else
      none
  | _ => none

/-- A frame has its result, and is popped. That of the entry point is for nobody. -/
def settleAndPop (f : Nat) (result : Except ε α) : Option (State ε α) :=
  let s := s.setFrame f { (s.frames f).settle result with point := .ended }
  (s.popFrame f).map fun s =>
    { s with completions :=
        s.completions ++ if f = entryPoint then [] else [⟨s.awaitedBy f, f, result⟩] }

/-- A coroutine returns or throws, and comes to its final suspension. -/
def finish (o : Nat) (result : Except ε α) : Option (State ε α) :=
  match (s.threads o).role with
  | .running f =>
    if (s.frames f).operation = false then
      (s.settleAndPop f result).map fun s => s.setRole o .returned
    else
      none
  | _ => none

/-- `do_init` makes a handler, to which the ownership of the stack moves. -/
def initiate (o handler : Nat) : Option (State ε α) :=
  match (s.threads o).role with
  | .running f =>
    if (s.frames f).operation = true ∧ (s.threads handler).role = .gone then
      (s.detachThread f).map fun (h, s) =>
        let s := s.setFrame f { s.frames f with point := .initiated }
        let s := s.setThread handler ⟨(s.threads h).bottomOfStack, .atInitiation⟩
        let s := s.setThread h { s.threads h with bottomOfStack := none }
        s.setRole o (.initiating handler)
    else
      none
  | _ => none

/-! ### What becomes of a handler -/

/-- The initiation moves the handler into its operation. -/
def handOver (o handler : Nat) : Option (State ε α) :=
  match (s.threads o).role with
  | .initiating l =>
    if (s.threads l).bottomOfStack.isSome ∧ (s.threads handler).role = .gone then
      let s := s.setThread handler ⟨(s.threads l).bottomOfStack, .pending⟩
      some (s.setThread l { s.threads l with bottomOfStack := none })
    else
      none
  | _ => none

def move (handler handler' : Nat) : Option (State ε α) :=
  if (s.threads handler).role = .pending ∧ (s.threads handler').role = .gone then
    let s := s.setThread handler' (s.threads handler)
    some (s.setThread handler .gone)
  else
    none

/-- An object that still owns the stack posts a function that destroys it. -/
def destroyThread (o : Nat) : State ε α :=
  { s.setThread o .gone with
    life := if (s.threads o).bottomOfStack.isSome then .posted else s.life }

def drop (handler : Nat) : Option (State ε α) :=
  if (s.threads handler).role = .pending then some (s.destroyThread handler) else none

/-- The initiation has returned, and its handler is destroyed. -/
def initiated (o : Nat) : Option (State ε α) :=
  match (s.threads o).role with
  | .initiating l => some ((s.destroyThread l).setRole o .returned)
  | _ => none

/-- A handler is called. -/
def complete (handler : Nat) (result : Except ε α) : Option (State ε α) :=
  if (s.threads handler).role = .pending then
    s.topOfStack.bind fun f =>
      ((s.attachThread f handler).settleAndPop f result).map fun s => s.setRole handler .pumping
  else
    none

/-! ### Pumping -/

def launch (o : Nat) : Option (State ε α) :=
  if (s.threads o).role = .constructed then
    s.topOfStack.map fun f => (s.attachThread f o).setRole o .pumping
  else
    none

/-- The frame at the top is resumed. If it has awaited another it gets its result, and the other
frame is destroyed. -/
def resume (o : Nat) : Option (State ε α) :=
  match (s.threads o).role, (s.threads o).bottomOfStack, s.topOfStack with
  | .pumping, some _, some f =>
    match (s.frames f).point with
    | .awaited => some ((s.setFrame f { s.frames f with point := .running }).setRole o (.running f))
    | .awaiting g =>
      (s.frames g).get.map fun result =>
        let s := s.setFrame g .free
        let s := s.setFrame f { s.frames f with point := .running }
        { s.setRole o (.running f) with resumptions := s.resumptions ++ [⟨f, g, result⟩] }
    | _ => none
  | _, _, _ => none

/-- The condition of the loop, and what follows the loop. -/
def loop (o : Nat) : Option (State ε α) :=
  match (s.threads o).role, (s.threads o).bottomOfStack, s.topOfStack with
  | .returned, none, _ => some (s.setThread o .gone)
  | .returned, some _, some _ => some (s.setRole o .pumping)
  | .returned, some e, none =>
    some { (s.setFrame e .free).setThread o .gone with
      life := .destroyed
      escaped := (s.frames e).pendingException }
  | _, _, _ => none

/-- The frames are destroyed from the entry point on, each with the awaitable that it awaits. -/
def unwind : Option (State ε α) :=
  let destroy (f : Nat) : State ε α :=
    { s.setFrame f .free with
      life := match (s.frames f).point with
        | .awaiting g => .destroying g
        | _ => .destroyed }
  match s.life with
  | .posted => some (destroy entryPoint)
  | .destroying f => some (destroy f)
  | _ => none

/-- A coroutine is called, and suspended at once. -/
def create (f : Nat) (operation : Bool) : Option (State ε α) :=
  if f ≠ entryPoint ∧ (s.frames f).point = .free then
    some (s.setFrame f (.created operation))
  else
    none

/-- An awaitable that nobody has awaited is destroyed. -/
def discard (f : Nat) : Option (State ε α) :=
  if (s.frames f).point = .created then some (s.setFrame f .free) else none

end State

/-! ### Steps -/

inductive Action (ε : Type u) (α : Type v)
  | launch (o : Nat)
  | resume (o : Nat)
  | await (o g : Nat)
  | finish (o : Nat) (result : Except ε α)
  | initiate (o handler : Nat)
  | handOver (o handler : Nat)
  | initiated (o : Nat)
  | move (handler handler' : Nat)
  | complete (handler : Nat) (result : Except ε α)
  | drop (handler : Nat)
  | loop (o : Nat)
  | unwind
  | create (f : Nat) (operation : Bool)
  | discard (f : Nat)

def step (s : State ε α) : Action ε α → Option (State ε α)
  | .launch o => s.launch o
  | .resume o => s.resume o
  | .await o g => s.await o g
  | .finish o result => s.finish o result
  | .initiate o handler => s.initiate o handler
  | .handOver o handler => s.handOver o handler
  | .initiated o => s.initiated o
  | .move handler handler' => s.move handler handler'
  | .complete handler result => s.complete handler result
  | .drop handler => s.drop handler
  | .loop o => s.loop o
  | .unwind => s.unwind
  | .create f operation => s.create f operation
  | .discard f => s.discard f

end Asio.Awaitable
