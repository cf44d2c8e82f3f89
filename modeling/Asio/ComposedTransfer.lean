import Mathlib.Algebra.GroupWithZero.Nat
import Asio.ConsumingBuffers
import Asio.ReadUntil

/-! The composed operations that write or read a sequence of buffers, synchronously and
asynchronously. -/

universe u v w

namespace Asio

/-! ### Completion conditions -/

inductive CompletionCondition
  | transferAll
  | transferAtLeast (minimum : Nat)
  | transferExactly (size : Nat)
  deriving DecidableEq

def defaultMaxTransferSize : Nat := 65536

/-- The maximum size of the next transfer; 0 when the operation is complete. -/
def CompletionCondition.check (err : Option ErrorCode) (bytesTransferred : Nat) :
    CompletionCondition → Nat
  | .transferAll => if err ≠ none then 0 else defaultMaxTransferSize
  | .transferAtLeast minimum =>
    if err ≠ none ∨ minimum ≤ bytesTransferred then 0 else defaultMaxTransferSize
  | .transferExactly size =>
    if err ≠ none ∨ size ≤ bytesTransferred then
      0
    else if size - bytesTransferred < defaultMaxTransferSize then
      size - bytesTransferred
    else
      defaultMaxTransferSize

/-- What the count comes to when no error occurs. -/
def CompletionCondition.Reached (total count : Nat) : CompletionCondition → Prop
  | .transferAll => count = total
  | .transferAtLeast minimum => min total minimum ≤ count
  | .transferExactly size => count = min total size

/-! ### Streams -/

/-- What `write_some` and `read_some` have in common: they transfer the first elements of the
buffers, at least one if there is one and no error. -/
structure TransferStream (σ : Type w) (γ : Type v) where
  transferSome : σ → List (List γ) → Nat × Option ErrorCode × σ
  le_length : (transferSome s buffers).1 ≤ buffers.flatten.length
  pos : 0 < buffers.flatten.length → (transferSome s buffers).2.1 = none →
    0 < (transferSome s buffers).1

variable {γ : Type v} {κ : Type u} {σ : Type w}

/-! ### The loop of the synchronous functions -/

section Loop

variable (C : Consuming κ γ) (stream : TransferStream σ γ) (condition : CompletionCondition)

theorem check_error (e : ErrorCode) (n : Nat) : condition.check (some e) n = 0 := by
  cases condition <;> simp [CompletionCondition.check]

/-- Every transfer leaves less to do, and after an error there is none. -/
theorem transfer_decreases {tmp : κ} {ec : Option ErrorCode} {s : σ} {m : Nat}
    (hempty : C.empty tmp = false) (hm : condition.check ec (C.totalConsumed tmp) = m + 1) :
    (C.sequence (C.consume tmp (stream.transferSome s (C.prepare tmp (m + 1))).1)).length -
          C.totalConsumed (C.consume tmp (stream.transferSome s (C.prepare tmp (m + 1))).1) +
        (if (stream.transferSome s (C.prepare tmp (m + 1))).2.1 = none then 1 else 0) <
      (C.sequence tmp).length - C.totalConsumed tmp + if ec = none then 1 else 0 := by
  have hec : ec = none := by
    cases ec with
    | none => rfl
    | some e =>
      rw [check_error] at hm
      cases hm
  have hnot : ¬(C.sequence tmp).length ≤ C.totalConsumed tmp := by
    rw [← C.empty_iff, hempty]
    exact Bool.false_ne_true
  have hpos : 0 < (C.prepare tmp (m + 1)).flatten.length := C.prepare_pos (Nat.succ_pos m) hempty
  have htransferred := stream.pos (s := s) hpos
  rw [C.sequence_consume, C.totalConsumed_consume, if_pos hec]
  split
  · rename_i hnone
    have := htransferred hnone
    omega
  · omega

/-- The loop of `write_buffer_sequence` and of `read_buffer_sequence`. -/
def transferFrom (tmp : κ) (ec : Option ErrorCode) (s : σ) : Nat × Option ErrorCode × σ :=
  if _hempty : C.empty tmp = true then
    (C.totalConsumed tmp, ec, s)
  else
    match _hm : condition.check ec (C.totalConsumed tmp) with
    | 0 => (C.totalConsumed tmp, ec, s)
    | maxSize + 1 =>
      let result := stream.transferSome s (C.prepare tmp (maxSize + 1))
      transferFrom (C.consume tmp result.1) result.2.1 result.2.2
termination_by (C.sequence tmp).length - C.totalConsumed tmp + if ec = none then 1 else 0
decreasing_by
  exact transfer_decreases C stream condition (Bool.eq_false_of_not_eq_true _hempty) _hm

theorem transferFrom_stop {tmp : κ} {ec : Option ErrorCode} (s : σ)
    (h : C.empty tmp = true ∨ condition.check ec (C.totalConsumed tmp) = 0) :
    transferFrom C stream condition tmp ec s = (C.totalConsumed tmp, ec, s) := by
  rw [transferFrom]
  split
  · rfl
  · rename_i hempty
    have hzero := h.resolve_left hempty
    split
    · rfl
    · rename_i hm
      rw [hzero] at hm
      cases hm

theorem transferFrom_next {tmp : κ} {ec : Option ErrorCode} {m : Nat} (s : σ)
    (hempty : ¬C.empty tmp = true) (hm : condition.check ec (C.totalConsumed tmp) = m + 1) :
    transferFrom C stream condition tmp ec s =
      transferFrom C stream condition
        (C.consume tmp (stream.transferSome s (C.prepare tmp (m + 1))).1)
        (stream.transferSome s (C.prepare tmp (m + 1))).2.1
        (stream.transferSome s (C.prepare tmp (m + 1))).2.2 := by
  rw [transferFrom, dif_neg hempty]
  split
  · rename_i hzero
    rw [hm] at hzero
    cases hzero
  · rename_i m' hm'
    rw [hm] at hm'
    cases hm'
    rfl

end Loop

/-! ### The asynchronous operations -/

/-- `write_op` and `read_op`. -/
structure TransferOp (κ : Type u) where
  buffers : κ
  completionCondition : CompletionCondition

/-- What an operation does when it returns: it has started a transfer, or it has called its
handler. -/
inductive TransferNext (κ : Type u) (γ : Type v)
  | transfer (op : TransferOp κ) (prepared : List (List γ))
  | handler (ec : Option ErrorCode) (bytesTransferred : Nat)

namespace TransferOp

variable (C : Consuming κ γ) (op : TransferOp κ)

def checkForCompletion (ec : Option ErrorCode) : Nat :=
  op.completionCondition.check ec (C.totalConsumed op.buffers)

def start : TransferNext κ γ :=
  .transfer op (C.prepare op.buffers (op.checkForCompletion C none))

/-- The transfer is complete. -/
def resume (ec : Option ErrorCode) (bytesTransferred : Nat) (cancelled : Bool) :
    TransferNext κ γ :=
  let op := { op with buffers := C.consume op.buffers bytesTransferred }
  if ec = none ∧ bytesTransferred = 0 ∨ C.empty op.buffers = true then
    .handler ec (C.totalConsumed op.buffers)
  else
    let maxSize := op.checkForCompletion C ec
    if maxSize = 0 then
      .handler ec (C.totalConsumed op.buffers)
    else if cancelled then
      .handler (some .operationAborted) (C.totalConsumed op.buffers)
    else
      .transfer op (C.prepare op.buffers maxSize)

end TransferOp

/-- The stream completes up to `k` transfers of an operation that nobody cancels. -/
def completeTransfer (C : Consuming κ γ) (stream : TransferStream σ γ) :
    Nat → TransferNext κ γ → σ → Option (Nat × Option ErrorCode × σ)
  | _, .handler ec n, s => some (n, ec, s)
  | 0, .transfer .., _ => none
  | k + 1, .transfer op prepared, s =>
    let (n, ec, s') := stream.transferSome s prepared
    completeTransfer C stream k (op.resume C ec n false) s'

/-! ### Writing -/

/-- A stream that writes some of the contents of buffers. -/
structure BufferWriteStream (ρ : Type w) (α : Type v) where
  writeSome : ρ → List (List α) → Nat × Option ErrorCode × ρ
  le_length : (writeSome r buffers).1 ≤ buffers.flatten.length
  pos : 0 < buffers.flatten.length → (writeSome r buffers).2.1 = none → 0 < (writeSome r buffers).1

/-- A stream and what it has been passed. -/
structure Writing (ρ : Type w) (α : Type v) where
  stream : ρ
  written : List α

variable {α : Type v} {ρ : Type w}

def BufferWriteStream.transferStream (stream : BufferWriteStream ρ α) :
    TransferStream (Writing ρ α) α where
  transferSome s buffers :=
    let (n, ec, r) := stream.writeSome s.stream buffers
    (n, ec, ⟨r, s.written ++ buffers.flatten.take n⟩)
  le_length := stream.le_length
  pos := stream.pos

section WritingDefs

variable (C : Consuming κ α) (stream : BufferWriteStream ρ α) (condition : CompletionCondition)

def write (buffers : κ) (s : Writing ρ α) : Nat × Option ErrorCode × Writing ρ α :=
  transferFrom C stream.transferStream condition buffers none s

def asyncWrite (k : Nat) (buffers : κ) (s : Writing ρ α) :
    Option (Nat × Option ErrorCode × Writing ρ α) :=
  completeTransfer C stream.transferStream k (TransferOp.start C ⟨buffers, condition⟩) s

end WritingDefs

/-! ### Reading -/

/-- A stream that reads into buffers of given sizes. -/
structure BufferReadStream (ρ : Type w) (α : Type v) where
  readSome : ρ → List Nat → List α × Option ErrorCode × ρ
  le_sum : (readSome r sizes).1.length ≤ sizes.sum
  nonempty : 0 < sizes.sum → (readSome r sizes).2.1 = none → (readSome r sizes).1 ≠ []

/-- The memory that the buffers are in, and what the stream has supplied. -/
structure Reading (ρ : Type w) (α : Type v) where
  stream : ρ
  memory : Nat → α
  supplied : List α

/-- Store characters at places, in order. -/
def storeAt (memory : Nat → α) : List Nat → List α → Nat → α
  | place :: places, a :: l => storeAt (Function.update memory place a) places l
  | _, _ => memory

/-- A read stores what the stream supplies at the first places of the buffers. -/
def BufferReadStream.transferStream (stream : BufferReadStream ρ α) :
    TransferStream (Reading ρ α) Nat where
  transferSome s buffers :=
    let (l, ec, r) := stream.readSome s.stream (buffers.map List.length)
    (l.length, ec, ⟨r, storeAt s.memory buffers.flatten l, s.supplied ++ l⟩)
  le_length {s buffers} := by
    rw [List.length_flatten]
    exact stream.le_sum
  pos {buffers s} hpos hnone := by
    rw [List.length_flatten] at hpos
    exact List.length_pos_iff.mpr (stream.nonempty hpos hnone)

section ReadingDefs

variable (C : Consuming κ Nat) (stream : BufferReadStream ρ α) (condition : CompletionCondition)

def read (buffers : κ) (s : Reading ρ α) : Nat × Option ErrorCode × Reading ρ α :=
  transferFrom C stream.transferStream condition buffers none s

def asyncRead (k : Nat) (buffers : κ) (s : Reading ρ α) :
    Option (Nat × Option ErrorCode × Reading ρ α) :=
  completeTransfer C stream.transferStream k (TransferOp.start C ⟨buffers, condition⟩) s

end ReadingDefs

end Asio
