import Asio.Detail.HashMap
import Asio.Detail.ReactorOp

/-! The queues of operations that a reactor keeps for its descriptors. -/

universe u

namespace Asio.Detail

set_option linter.unusedSectionVars false

/-- The queue of a node, whose copies and assignments leave out the operations. -/
structure MappedType where
  ops : List ReactorOp
  deriving DecidableEq

instance : Assignable MappedType where
  construct := ⟨[]⟩
  copy _ := ⟨[]⟩
  assign old _ := old

structure ReactorOpQueue (K : Type u) where
  operations : HashMap K MappedType

namespace ReactorOpQueue

variable {K : Type u} [DecidableEq K] [Inhabited K] [HashKey K]

/-- What a call leaves behind, the operations it pushes on `ops`, and its answer. -/
structure Outcome (K : Type u) where
  queue : ReactorOpQueue K
  ops : List ReactorOp
  result : Bool

def construct : ReactorOpQueue K := ⟨.construct⟩

def ops (q : ReactorOpQueue K) (n : Nat) : List ReactorOp := (q.operations.value n).ops

def setOps (q : ReactorOpQueue K) (n : Nat) (ops : List ReactorOp) : ReactorOpQueue K :=
  ⟨q.operations.setValue n ⟨ops⟩⟩

def eraseNode (q : ReactorOpQueue K) (n : Nat) : ReactorOpQueue K := ⟨q.operations.erase n⟩

def enqueueOperation (q : ReactorOpQueue K) (descriptor : K) (op : ReactorOp) : Outcome K :=
  let (operations, n, inserted) :=
    q.operations.insert (descriptor, Assignable.copy Assignable.construct)
  let q : ReactorOpQueue K := ⟨operations⟩
  ⟨q.setOps n (q.ops n ++ [op]), [], inserted⟩

/-- Every operation of the queue is popped and pushed on `ops`. -/
def cancelAll (ec : Nat) : List ReactorOp → List ReactorOp → List ReactorOp
  | [], ops => ops
  | op :: queue, ops => cancelAll ec queue (ops ++ [op.complete ec])

def cancelOperationsAt (q : ReactorOpQueue K) (i : Option Nat) (ec : Nat) : Outcome K :=
  match i with
  | some n => ⟨(q.setOps n []).eraseNode n, cancelAll ec (q.ops n) [], true⟩
  | none => ⟨q, [], false⟩

def cancelOperations (q : ReactorOpQueue K) (descriptor : K) (ec : Nat) : Outcome K :=
  q.cancelOperationsAt (q.operations.find descriptor) ec

/-- The operations of the key are pushed on `ops` and the others on `otherOps`. -/
def cancelKey (cancellationKey ec : Nat) :
    List ReactorOp → List ReactorOp → List ReactorOp → Bool →
      List ReactorOp × List ReactorOp × Bool
  | [], ops, otherOps, result => (ops, otherOps, result)
  | op :: queue, ops, otherOps, result =>
    if op.cancellationKey = cancellationKey then
      cancelKey cancellationKey ec queue (ops ++ [op.complete ec]) otherOps true
    else
      cancelKey cancellationKey ec queue ops (otherOps ++ [op]) result

def cancelOperationsByKeyAt (q : ReactorOpQueue K) (i : Option Nat) (cancellationKey ec : Nat) :
    Outcome K :=
  match i with
  | some n =>
    let (ops, otherOps, result) := cancelKey cancellationKey ec (q.ops n) [] [] false
    let q := q.setOps n otherOps
    ⟨if (q.ops n).isEmpty then q.eraseNode n else q, ops, result⟩
  | none => ⟨q, [], false⟩

def cancelOperationsByKey (q : ReactorOpQueue K) (descriptor : K) (cancellationKey ec : Nat) :
    Outcome K :=
  q.cancelOperationsByKeyAt (q.operations.find descriptor) cancellationKey ec

def empty (q : ReactorOpQueue K) : Bool := q.operations.values.isEmpty

def hasOperation (q : ReactorOpQueue K) (descriptor : K) : Bool :=
  (q.operations.find descriptor).isSome

/-- Operations are performed from the front until one is not finished. -/
def performFront (outcome : Nat → ReactorOp.Outcome) :
    List ReactorOp → List ReactorOp → List ReactorOp × List ReactorOp
  | [], ops => (ops, [])
  | op :: queue, ops =>
    match op.perform (outcome op.id) with
    | (op, .notDone) => (ops, op :: queue)
    | (op, _) => performFront outcome queue (ops ++ [op])

def performOperationsAt (q : ReactorOpQueue K) (i : Option Nat)
    (outcome : Nat → ReactorOp.Outcome) : Outcome K :=
  match i with
  | some n =>
    let (ops, queue) := performFront outcome (q.ops n) []
    let q := q.setOps n queue
    if queue.isEmpty then ⟨q.eraseNode n, ops, false⟩ else ⟨q, ops, true⟩
  | none => ⟨q, [], false⟩

def performOperations (q : ReactorOpQueue K) (descriptor : K)
    (outcome : Nat → ReactorOp.Outcome) : Outcome K :=
  q.performOperationsAt (q.operations.find descriptor) outcome

def getAllFrom (q : ReactorOpQueue K) (ops : List ReactorOp) : List Nat → Outcome K
  | [] => ⟨q, ops, false⟩
  | opIter :: rest =>
    ((q.setOps opIter []).eraseNode opIter).getAllFrom (ops ++ q.ops opIter) rest

def getAllOperations (q : ReactorOpQueue K) : Outcome K := q.getAllFrom [] q.operations.values

/-- `posix_fd_set_adapter::perform`: the iterator is advanced before its node is erased. -/
def performSetFrom (isSet : K → Bool) (outcome : Nat → ReactorOp.Outcome) (q : ReactorOpQueue K)
    (ops : List ReactorOp) : List Nat → Outcome K
  | [] => ⟨q, ops, false⟩
  | opIter :: rest =>
    if isSet (q.operations.key opIter) then
      let performed := q.performOperationsAt (some opIter) outcome
      performSetFrom isSet outcome performed.queue (ops ++ performed.ops) rest
    else
      performSetFrom isSet outcome q ops rest

def performSet (q : ReactorOpQueue K) (isSet : K → Bool) (outcome : Nat → ReactorOp.Outcome) :
    Outcome K :=
  performSetFrom isSet outcome q [] q.operations.values

/-- `posix_fd_set_adapter::set`: descriptors that the set cannot hold are cancelled. -/
def cancelUnsetFrom (set : K → Bool) (ec : Nat) (q : ReactorOpQueue K) (ops : List ReactorOp) :
    List Nat → Outcome K
  | [] => ⟨q, ops, false⟩
  | opIter :: rest =>
    if set (q.operations.key opIter) then
      cancelUnsetFrom set ec q ops rest
    else
      let cancelled := q.cancelOperationsAt (some opIter) ec
      cancelUnsetFrom set ec cancelled.queue (ops ++ cancelled.ops) rest

def cancelUnset (q : ReactorOpQueue K) (set : K → Bool) (ec : Nat) : Outcome K :=
  cancelUnsetFrom set ec q [] q.operations.values

end ReactorOpQueue

end Asio.Detail
