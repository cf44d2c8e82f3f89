import Asio.ConsumingBuffers

/-! The buffers that are still to be consumed as a cursor into their bytes, and the specialisations
against the general template. -/

universe u v

namespace Asio

variable {κ : Type u} {γ : Type v}

namespace Consuming

inductive Call
  | prepare (maxSize : Nat)
  | consume (size : Nat)
  deriving DecidableEq

/-- `prepare` leaves the buffers as they are. -/
def call (C : Consuming κ γ) (c : κ) : Call → κ
  | .prepare _ => c
  | .consume size => C.consume c size

def calls (C : Consuming κ γ) : κ → List Call → κ
  | c, [] => c
  | c, l :: ls => calls C (C.call c l) ls

def consumed : List Call → Nat
  | [] => 0
  | .prepare _ :: ls => consumed ls
  | .consume size :: ls => size + consumed ls

/-- Nothing is consumed that has not been prepared since the last `prepare`, with `prepared` bytes
at first. -/
def Within (C : Consuming κ γ) : κ → Nat → List Call → Prop
  | _, _, [] => True
  | c, _, .prepare maxSize :: ls => C.Within c (C.prepare c maxSize).flatten.length ls
  | c, prepared, .consume size :: ls =>
    size ≤ prepared ∧ C.Within (C.consume c size) (prepared - size) ls

section Cursors

variable (C : Consuming κ γ) {c : κ} {bytes : List γ} {position prepared : Nat}

end Cursors

end Consuming

/-! ### The specialisations -/

section Loops

variable {buffers : List (List γ)} {offset : Nat}

/-- With room for all the buffers, `prepare` stops at `max_size` only. -/
theorem prepareFrom_flatten {m room : Nat} (h : ∀ b ∈ buffers.head?, offset ≤ b.length)
    (hroom : buffers.length ≤ room) :
    (prepareFrom buffers offset m room).flatten = (buffers.flatten.drop offset).take m := by
  induction buffers generalizing offset m room with
  | nil => simp [prepareFrom]
  | cons b next ih =>
    rw [List.length_cons] at hroom
    rw [flatten_drop_cons (h b rfl)]
    simp only [prepareFrom]
    split
    · split
      · have hrest : m - min m (b.drop offset).length = m - (b.drop offset).length := by omega
        rw [List.flatten_cons, ih (fun _ _ => Nat.zero_le _) (by omega), List.drop_zero,
          List.take_append, List.length_take, hrest]
      · rename_i hzero
        have hempty : b.drop offset = [] := by
          rw [List.length_take] at hzero
          exact List.length_eq_zero_iff.mp (by omega)
        rw [ih (fun _ _ => Nat.zero_le _) (by omega), List.drop_zero, hempty, List.take_nil,
          List.length_nil, Nat.sub_zero, List.nil_append]
    · obtain rfl : m = 0 := by omega
      rw [List.flatten_nil, List.take_zero]

end Loops

theorem ConsumingBuffers.flatten_prepare (c : ConsumingBuffers γ)
    (h : c.buffers.length ≤ c.maxBuffers) (m : Nat) :
    (c.prepare m).flatten = (c.buffers.flatten.drop c.totalConsumed).take m := by
  have hroom : (c.buffers.drop c.nextElem).length ≤ c.maxBuffers := by
    rw [List.length_drop]
    omega
  rw [prepare, prepareFrom_flatten c.positioned.offset hroom, c.positioned.remaining]

theorem ConsumingSingleBuffer.flatten_prepare (c : ConsumingSingleBuffer γ) (m : Nat) :
    (c.prepare m).flatten = (c.buffer.drop c.totalConsumed).take m :=
  List.flatten_singleton

/-- The buffers that `prepare` has room for, if there are as many. -/
def Roomy : ConsumingBuffers γ ⊕ ConsumingSingleBuffer γ ⊕ ConsumingTwoBuffers γ → Prop
  | .inl c => c.buffers.length ≤ c.maxBuffers
  | .inr _ => True

namespace BufferSequence

/-- The general template and a specialisation for the same buffers. -/
inductive Specialises : BufferSequence γ → BufferSequence γ → Prop
  | single (isArray : Bool) (b : List γ) : Specialises (buffers isArray [b]) (single b)
  | two (isArray : Bool) (b b' : List γ) : Specialises (buffers isArray [b, b']) (two b b')

variable {q q' : BufferSequence γ}

theorem flatten_prepare {c : ConsumingBuffers γ ⊕ ConsumingSingleBuffer γ ⊕ ConsumingTwoBuffers γ}
    (h : Roomy c) (m : Nat) : (consumingBuffers.prepare c m).flatten =
      ((consumingBuffers.sequence c).drop (consumingBuffers.totalConsumed c)).take m := by
  match c with
  | .inl c => exact c.flatten_prepare h m
  | .inr (.inl c) => exact c.flatten_prepare m
  | .inr (.inr c) => exact c.flatten_prepare m

theorem Specialises.concatenated (h : Specialises q q') : q.concatenated = q'.concatenated := by
  cases h with
  | single isArray b => exact List.flatten_singleton
  | two isArray b b' =>
    rw [BufferSequence.concatenated, List.flatten_cons, List.flatten_singleton]
    rfl

end BufferSequence

end Asio
