import Mathlib.Data.List.Nodup
import Asio.ComposedTransferRuns

/-! The composed operations that transfer a sequence of buffers at an offset of a device. -/

universe u v w x

namespace Asio

/-! ### Positions -/

/-- Where the device has `n` bytes from an offset on; offsets are of type `uint64_t`. -/
def positions (offset n : Nat) : List Nat := (List.range' offset n).map (· % 2 ^ 64)

section Positions

variable (offset m n : Nat)

@[simp] theorem length_positions : (positions offset n).length = n := by
  rw [positions, List.length_map, List.length_range']

theorem positions_mod : positions (offset % 2 ^ 64) n = positions offset n := by
  induction n generalizing offset with
  | zero => rfl
  | succ n ih =>
    have hnext : (offset % 2 ^ 64 + 1) % 2 ^ 64 = (offset + 1) % 2 ^ 64 := Nat.mod_add_mod ..
    have := ih (offset % 2 ^ 64 + 1)
    rw [hnext, ih (offset + 1)] at this
    simp only [positions, List.range'_succ, List.map_cons, Nat.mod_mod] at this ⊢
    rw [this]

theorem positions_add :
    positions offset (m + n) = positions offset m ++ positions ((offset + m) % 2 ^ 64) n := by
  rw [positions_mod, positions, ← List.range'_append_1, List.map_append]
  rfl

variable {n}

theorem nodup_positions (h : n ≤ 2 ^ 64) : (positions offset n).Nodup := by
  refine List.Nodup.map_on ?_ List.nodup_range'
  intro i hi j hj hij
  rw [List.mem_range'_1] at hi hj
  omega

end Positions

/-! ### The operations -/

/-- What a completion condition returns is adapted to the maximum size of the next transfer. -/
def adaptCompletionConditionResult : Bool ⊕ Nat → Nat
  | .inl completed => if completed then 0 else defaultMaxTransferSize
  | .inr maxSize => maxSize

/-- A completion condition is an object that may change when it is called. -/
structure ConditionObject (χ : Type x) where
  call : χ → Option ErrorCode → Nat → (Bool ⊕ Nat) × χ

/-- What `write_some_at` and `read_some_at` have in common. -/
structure RandomAccessDevice (σ : Type w) (γ : Type v) where
  transferSomeAt : σ → Nat → List (List γ) → Nat × Option ErrorCode × σ
  le_length : (transferSomeAt s offset buffers).1 ≤ buffers.flatten.length

/-- An operation between two transfers. -/
structure TransferAt (κ : Type u) (χ : Type x) (σ : Type w) where
  buffers : κ
  completionCondition : χ
  device : σ
  ec : Option ErrorCode
  maxSize : Nat
  done : Bool

namespace TransferAt

variable {γ : Type v} {κ : Type u} {σ : Type w} {χ : Type x}

def construct (buffers : κ) (condition : χ) (device : σ) : TransferAt κ χ σ where
  buffers := buffers
  completionCondition := condition
  device := device
  ec := none
  maxSize := 0
  done := false

section Operations

variable (C : Consuming κ γ) (K : ConditionObject χ) (D : RandomAccessDevice σ γ) (offset : Nat)

def checkForCompletion (t : TransferAt κ χ σ) : TransferAt κ χ σ :=
  let (result, condition) := K.call t.completionCondition t.ec (C.totalConsumed t.buffers)
  { t with completionCondition := condition, maxSize := adaptCompletionConditionResult result }

/-- The next transfer, with the number of bytes transferred. -/
def transferSome (t : TransferAt κ χ σ) : Nat × TransferAt κ χ σ :=
  let (n, ec, device) := D.transferSomeAt t.device ((offset + C.totalConsumed t.buffers) % 2 ^ 64)
    (C.prepare t.buffers t.maxSize)
  (n, { t with buffers := C.consume t.buffers n, device := device, ec := ec })

/-- The head of the loop of `write_at_buffer_sequence` and of `read_at_buffer_sequence`. -/
def loop (t : TransferAt κ χ σ) : TransferAt κ χ σ :=
  if C.empty t.buffers = true then
    { t with done := true }
  else
    let t := t.checkForCompletion C K
    { t with done := t.maxSize = 0 }

def syncStep (t : TransferAt κ χ σ) : TransferAt κ χ σ := (t.transferSome C D offset).2.loop C K

/-- `write_at_op` and `read_at_op` when a transfer of `n` bytes is complete. -/
def resume (cancelled : Bool) (n : Nat) (t : TransferAt κ χ σ) : TransferAt κ χ σ :=
  if t.ec = none ∧ n = 0 ∨ C.empty t.buffers = true then
    { t with done := true }
  else
    let t := t.checkForCompletion C K
    if t.maxSize = 0 then
      { t with done := true }
    else if cancelled then
      { t with ec := some .operationAborted, done := true }
    else
      t

/-- What `cancelled()` returns may depend on all that has happened. -/
def asyncStep (cancelled : σ → Bool) (t : TransferAt κ χ σ) : TransferAt κ χ σ :=
  let result := t.transferSome C D offset
  result.2.resume C K (cancelled result.2.device) result.1

end Operations

/-- An operation after up to `k` transfers. -/
def after (step : TransferAt κ χ σ → TransferAt κ χ σ) (t : TransferAt κ χ σ) :
    Nat → TransferAt κ χ σ
  | 0 => t
  | k + 1 =>
    let t := t.after step k
    if t.done then t else step t

/-- What the operation returns, or passes to its handler. -/
def bytesTransferred (C : Consuming κ γ) (t : TransferAt κ χ σ) : Nat := C.totalConsumed t.buffers

section Calls

variable (C : Consuming κ γ) (K : ConditionObject χ) (D : RandomAccessDevice σ γ) (offset : Nat)
variable (buffers : κ) (condition : χ) (s : σ)

def sync (k : Nat) : TransferAt κ χ σ :=
  ((construct buffers condition s).loop C K).after (syncStep C K D offset) k

def async (cancelled : σ → Bool) (k : Nat) : TransferAt κ χ σ :=
  ((construct buffers condition s).checkForCompletion C K).after
    (asyncStep C K D offset cancelled) k

end Calls

end TransferAt

/-! ### Writing -/

section Writing

variable {κ : Type u} {χ : Type x} {ρ : Type w} {α : Type v}

/-- A device that writes some of the contents of buffers at an offset. -/
structure RandomAccessWriteDevice (ρ : Type w) (α : Type v) where
  writeSomeAt : ρ → Nat → List (List α) → Nat × Option ErrorCode × ρ
  le_length : (writeSomeAt r offset buffers).1 ≤ buffers.flatten.length

/-- A device with its contents, and the bytes that have been written with their positions. -/
structure WritingAt (ρ : Type w) (α : Type v) where
  device : ρ
  contents : Nat → α
  written : List (Nat × α)

def RandomAccessWriteDevice.device (d : RandomAccessWriteDevice ρ α) :
    RandomAccessDevice (WritingAt ρ α) α where
  transferSomeAt s offset buffers :=
    let (n, ec, r) := d.writeSomeAt s.device offset buffers
    let l := buffers.flatten.take n
    (n, ec, ⟨r, storeAt s.contents (positions offset n) l,
      s.written ++ (positions offset n).zip l⟩)
  le_length := d.le_length

variable (C : Consuming κ α) (K : ConditionObject χ) (d : RandomAccessWriteDevice ρ α)
variable (offset : Nat) (buffers : κ) (condition : χ) (s : WritingAt ρ α)

def TransferAt.writeAt (k : Nat) : TransferAt κ χ (WritingAt ρ α) :=
  .sync C K d.device offset buffers condition s k

def TransferAt.asyncWriteAt (cancelled : WritingAt ρ α → Bool) (k : Nat) :
    TransferAt κ χ (WritingAt ρ α) :=
  .async C K d.device offset buffers condition s cancelled k

end Writing

/-! ### Reading -/

section Reading

variable {κ : Type u} {χ : Type x} {ρ : Type w} {α : Type v}

/-- A device that reads into buffers of given sizes from an offset on. -/
structure RandomAccessReadDevice (ρ : Type w) (α : Type v) where
  contents : Nat → α
  readSomeAt : ρ → Nat → List Nat → Nat × Option ErrorCode × ρ
  le_sum : (readSomeAt r offset sizes).1 ≤ sizes.sum

/-- The memory that the buffers are in, and the positions that have been read. -/
structure ReadingAt (ρ : Type w) (α : Type v) where
  device : ρ
  memory : Nat → α
  read : List Nat

/-- What the device has from an offset on. -/
def RandomAccessReadDevice.bytes (d : RandomAccessReadDevice ρ α) (offset n : Nat) : List α :=
  (positions offset n).map d.contents

def RandomAccessReadDevice.device (d : RandomAccessReadDevice ρ α) :
    RandomAccessDevice (ReadingAt ρ α) Nat where
  transferSomeAt s offset buffers :=
    let (n, ec, r) := d.readSomeAt s.device offset (buffers.map List.length)
    (n, ec, ⟨r, storeAt s.memory buffers.flatten (d.bytes offset n),
      s.read ++ positions offset n⟩)
  le_length {s offset buffers} := by
    rw [List.length_flatten]
    exact d.le_sum

variable (C : Consuming κ Nat) (K : ConditionObject χ) (d : RandomAccessReadDevice ρ α)
variable (offset : Nat) (buffers : κ) (condition : χ) (s : ReadingAt ρ α)

def TransferAt.readAt (k : Nat) : TransferAt κ χ (ReadingAt ρ α) :=
  .sync C K d.device offset buffers condition s k

def TransferAt.asyncReadAt (cancelled : ReadingAt ρ α → Bool) (k : Nat) :
    TransferAt κ χ (ReadingAt ρ α) :=
  .async C K d.device offset buffers condition s cancelled k

end Reading

end Asio
