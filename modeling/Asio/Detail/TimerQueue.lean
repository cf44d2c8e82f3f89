import Mathlib.Algebra.Group.Nat.Defs
import Asio.Lib.BinaryHeap
import Asio.Lib.LinkedList

/-! The timer queue: a binary heap of the timers that can expire, whose entries point to the
timers and are pointed back to by index, and a linked list of all active timers. -/

universe u v

namespace Asio.Detail

/-- The order of the times is `less_than`. -/
class TimeTraits (T : Type u) extends LinearOrder T where
  isPositiveInfinity : T → Bool

inductive ErrorCode
  | success | operationAborted
  deriving DecidableEq

structure WaitOp where
  id : Nat
  cancellationKey : Nat
  ec : ErrorCode
  deriving DecidableEq

def WaitOp.complete (ec : ErrorCode) (op : WaitOp) : WaitOp := { op with ec := ec }

structure PerTimerData (α : Type v) where
  opQueue : List WaitOp
  heapIndex : Nat
  next : Option α
  prev : Option α
  deriving DecidableEq

structure HeapEntry (T : Type u) (α : Type v) where
  time : T
  timer : α
  deriving DecidableEq

/-- The queue together with the data of every timer, which the timers themselves hold. -/
structure TimerQueue (T : Type u) (α : Type v) where
  timers : Option α
  heap : List (HeapEntry T α)
  data : α → PerTimerData α

/-- `(std::numeric_limits<std::size_t>::max)()` -/
def maxIndex : Nat := 2 ^ 64 - 1

def PerTimerData.construct {α : Type v} : PerTimerData α where
  opQueue := []
  heapIndex := maxIndex
  next := none
  prev := none

namespace TimerQueue

def construct {T : Type u} {α : Type v} : TimerQueue T α where
  timers := none
  heap := []
  data _ := .construct

variable {T : Type u} {α : Type v} [TimeTraits T] [DecidableEq α]

def modify (q : TimerQueue T α) (timer : α) (f : PerTimerData α → PerTimerData α) :
    TimerQueue T α :=
  { q with data := Function.update q.data timer (f (q.data timer)) }

def setHeapIndex (q : TimerQueue T α) (timer : α) (index : Nat) : TimerQueue T α :=
  modify q timer fun d => { d with heapIndex := index }

def setOpQueue (q : TimerQueue T α) (timer : α) (ops : List WaitOp) : TimerQueue T α :=
  modify q timer fun d => { d with opQueue := ops }

/-! ### The heap -/

section Heap

def swapHeap (q : TimerQueue T α) (index1 index2 : Nat) (h1 : index1 < q.heap.length)
    (h2 : index2 < q.heap.length) : TimerQueue T α :=
  let entry1 := q.heap[index1]
  let entry2 := q.heap[index2]
  let swapped := { q with heap := (q.heap.set index1 entry2).set index2 entry1 }
  setHeapIndex (setHeapIndex swapped entry2.timer index1) entry1.timer index2

omit [TimeTraits T] in
@[simp] theorem swapHeap_length (q : TimerQueue T α) (i j : Nat) (hi : i < q.heap.length)
    (hj : j < q.heap.length) : (swapHeap q i j hi hj).heap.length = q.heap.length := by
  simp [swapHeap, setHeapIndex, modify]

def upHeap (q : TimerQueue T α) (index : Nat) (h : index < q.heap.length) : TimerQueue T α :=
  if h0 : 0 < index then
    if q.heap[index].time < q.heap[(index - 1) / 2].time then
      upHeap (swapHeap q index ((index - 1) / 2) h (by omega)) ((index - 1) / 2)
        (by rw [swapHeap_length]; omega)
    else q
  else q
termination_by index

def minChild (heap : List (HeapEntry T α)) (child : Nat) (h : child < heap.length) : Nat :=
  if hl : child + 1 = heap.length then child
  else if heap[child].time < heap[child + 1].time then child
  else child + 1

omit [DecidableEq α] in
theorem minChild_bounds (heap : List (HeapEntry T α)) (child : Nat) (h : child < heap.length) :
    child ≤ minChild heap child h ∧ minChild heap child h < heap.length := by
  unfold minChild
  split
  · omega
  · split <;> omega

def downHeap (q : TimerQueue T α) (index : Nat) (h : index < q.heap.length) : TimerQueue T α :=
  if hc : index * 2 + 1 < q.heap.length then
    have hm := minChild_bounds q.heap (index * 2 + 1) hc
    if q.heap[index].time < q.heap[minChild q.heap (index * 2 + 1) hc].time then q
    else
      downHeap (swapHeap q index (minChild q.heap (index * 2 + 1) hc) h hm.2)
        (minChild q.heap (index * 2 + 1) hc) (by rw [swapHeap_length]; exact hm.2)
  else q
termination_by q.heap.length - index
decreasing_by
  rw [swapHeap_length]
  omega

def pushBack (q : TimerQueue T α) (entry : HeapEntry T α) : TimerQueue T α :=
  { q with heap := q.heap ++ [entry] }

def popBack (q : TimerQueue T α) : TimerQueue T α := { q with heap := q.heap.dropLast }

/-- The end of `remove_timer`'s work on the heap: the entry moved to `index` goes up or down. -/
def restoreHeap (q : TimerQueue T α) (index : Nat) (h : index < q.heap.length) :
    TimerQueue T α :=
  if 0 < index ∧ q.heap[index].time < q.heap[(index - 1) / 2].time then upHeap q index h
  else downHeap q index h

/-- The part of `remove_timer` that takes the timer out of the heap. -/
def removeFromHeap (q : TimerQueue T α) (timer : α) : TimerQueue T α :=
  let index := (q.data timer).heapIndex
  if h : index < q.heap.length then
    if hl : index = q.heap.length - 1 then popBack (setHeapIndex q timer maxIndex)
    else
      let swapped := swapHeap q index (q.heap.length - 1) h (by omega)
      restoreHeap (popBack (setHeapIndex swapped timer maxIndex)) index (by
        simp only [swapped, popBack, setHeapIndex, modify, List.length_dropLast, swapHeap_length]
        omega)
  else q

/-- The part of `enqueue_timer` that puts a new timer into the heap; `none` when `push_back`
throws. -/
def addToHeap (q : TimerQueue T α) (time : T) (timer : α) : Option (TimerQueue T α) :=
  if q.heap.length < maxIndex then
    let pushed := pushBack (setHeapIndex q timer q.heap.length) ⟨time, timer⟩
    some (upHeap pushed q.heap.length (by simp [pushed, pushBack, setHeapIndex, modify]))
  else none

end Heap

/-! ### The list of active timers -/

section Links

def setNext (q : TimerQueue T α) (timer : α) (next : Option α) : TimerQueue T α :=
  modify q timer fun d => { d with next := next }

def setPrev (q : TimerQueue T α) (timer : α) (prev : Option α) : TimerQueue T α :=
  modify q timer fun d => { d with prev := prev }

def setTimers (q : TimerQueue T α) (timers : Option α) : TimerQueue T α :=
  { q with timers := timers }

def link (q : TimerQueue T α) (timer : α) : TimerQueue T α :=
  let q := setPrev (setNext q timer q.timers) timer none
  let q := match q.timers with
    | some first => setPrev q first (some timer)
    | none => q
  setTimers q (some timer)

/-- The part of `remove_timer` that takes the timer out of the list. -/
def unlink (q : TimerQueue T α) (timer : α) : TimerQueue T α :=
  let q := if q.timers = some timer then setTimers q (q.data timer).next else q
  let q := match (q.data timer).prev with
    | some prev => setNext q prev (q.data timer).next
    | none => q
  let q := match (q.data timer).next with
    | some next => setPrev q next (q.data timer).prev
    | none => q
  setPrev (setNext q timer none) timer none

/-- The part of `move_timer` that gives the source's place in the list to the target. -/
def relink (q : TimerQueue T α) (target source : α) : TimerQueue T α :=
  let q := if q.timers = some source then setTimers q (some target) else q
  let q := match (q.data source).prev with
    | some prev => setNext q prev (some target)
    | none => q
  let q := match (q.data source).next with
    | some next => setPrev q next (some target)
    | none => q
  let q := setNext q target (q.data source).next
  let q := setPrev q target (q.data source).prev
  setPrev (setNext q source none) source none

/-- `timer.prev_ != 0 || &timer == timers_` -/
def isListed (q : TimerQueue T α) (timer : α) : Bool :=
  (q.data timer).prev ≠ none || q.timers = some timer

end Links

def removeTimer (q : TimerQueue T α) (timer : α) : TimerQueue T α :=
  unlink (removeFromHeap q timer) timer

/-! ### The operations -/

section Operations

/-- The queue and whether the new operation is the one that expires first. -/
def enqueueTimer (q : TimerQueue T α) (time : T) (timer : α) (op : WaitOp) :
    Option (TimerQueue T α × Bool) :=
  let listed :=
    if isListed q timer then some q
    else if TimeTraits.isPositiveInfinity time then some (link (setHeapIndex q timer maxIndex) timer)
    else (addToHeap q time timer).map fun q => link q timer
  listed.map fun q =>
    let q := setOpQueue q timer ((q.data timer).opQueue ++ [op])
    (q, (q.data timer).heapIndex = 0 && (q.data timer).opQueue.head? = some op)

/-- `fuel` bounds the number of timers that are removed; `none` when it runs out. -/
def readyLoop (now : T) : Nat → TimerQueue T α → Option (TimerQueue T α × List WaitOp)
  | 0, _ => none
  | fuel + 1, q =>
    match q.heap with
    | [] => some (q, [])
    | root :: _ =>
      if now < root.time then some (q, [])
      else
        let ops := (q.data root.timer).opQueue
        let q := removeTimer (setOpQueue q root.timer []) root.timer
        (readyLoop now fuel q).map fun r => (r.1, ops.map (.complete .success) ++ r.2)

def getReadyTimers (q : TimerQueue T α) (now : T) : Option (TimerQueue T α × List WaitOp) :=
  readyLoop now (q.heap.length + 1) q

/-- The operations that are cancelled, those that stay and how many have been cancelled. -/
def cancelLoop (maxCancelled : Nat) : Nat → List WaitOp → List WaitOp × List WaitOp × Nat
  | numCancelled, [] => ([], [], numCancelled)
  | numCancelled, op :: ops =>
    if numCancelled = maxCancelled then ([], op :: ops, numCancelled)
    else
      let r := cancelLoop maxCancelled (numCancelled + 1) ops
      (op.complete .operationAborted :: r.1, r.2)

def removeIfEmpty (q : TimerQueue T α) (timer : α) : TimerQueue T α :=
  if (q.data timer).opQueue = [] then removeTimer q timer else q

def cancelTimer (q : TimerQueue T α) (timer : α) (maxCancelled : Nat) :
    TimerQueue T α × List WaitOp × Nat :=
  if isListed q timer then
    let r := cancelLoop maxCancelled 0 (q.data timer).opQueue
    (removeIfEmpty (setOpQueue q timer r.2.1) timer, r.1, r.2.2)
  else (q, [], 0)

def cancelByKeyLoop (cancellationKey : Nat) : List WaitOp → List WaitOp × List WaitOp
  | [] => ([], [])
  | op :: ops =>
    let r := cancelByKeyLoop cancellationKey ops
    if op.cancellationKey = cancellationKey then (op.complete .operationAborted :: r.1, r.2)
    else (r.1, op :: r.2)

def cancelTimerByKey (q : TimerQueue T α) (timer : α) (cancellationKey : Nat) :
    TimerQueue T α × List WaitOp :=
  if isListed q timer then
    let r := cancelByKeyLoop cancellationKey (q.data timer).opQueue
    (removeIfEmpty (setOpQueue q timer r.2) timer, r.1)
  else (q, [])

/-- The part of `move_timer` that gives the source's place in the heap to the target. -/
def moveHeapEntry (q : TimerQueue T α) (target source : α) : TimerQueue T α :=
  let q := setHeapIndex q target (q.data source).heapIndex
  let q := setHeapIndex q source maxIndex
  match q.heap[(q.data target).heapIndex]? with
  | some entry =>
    { q with heap := q.heap.set (q.data target).heapIndex { entry with timer := target } }
  | none => q

def moveTimer (q : TimerQueue T α) (target source : α) : TimerQueue T α :=
  let q := setOpQueue q target ((q.data target).opQueue ++ (q.data source).opQueue)
  let q := setOpQueue q source []
  relink (moveHeapEntry q target source) target source

end Operations

end TimerQueue

end Asio.Detail
