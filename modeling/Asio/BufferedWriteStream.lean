import Asio.BufferedStreamStorage
import Asio.ComposedTransferRuns
import Asio.Lib.Simulation

/-! Buffered writing: what has been written is downstream or in the storage. -/

universe u v w

namespace Asio

open Lib.Simulation

structure BufferedWriteStream (ρ : Type w) (α : Type v) where
  nextLayer : Writing ρ α
  storage : BufferedStreamStorage α

namespace BufferedWriteStream

variable {ρ : Type w} {α : Type v}

def construct [Inhabited α] (nextLayer : Writing ρ α) (capacity : Nat) : BufferedWriteStream ρ α :=
  ⟨nextLayer, .construct capacity⟩

section Flushing

variable (stream : BufferWriteStream ρ α) (b : BufferedWriteStream ρ α)

/-- What `flush` writes to the next layer. -/
def nextWrite : Nat × Option ErrorCode × Writing ρ α :=
  write ConsumingSingleBuffer.consuming stream .transferAll (.construct b.storage.contents)
    b.nextLayer

def asyncNextWrite (k : Nat) : Option (Nat × Option ErrorCode × Writing ρ α) :=
  asyncWrite ConsumingSingleBuffer.consuming stream .transferAll k (.construct b.storage.contents)
    b.nextLayer

/-- The next layer has been passed so many bytes of the storage. -/
def Passed (out : Nat × Option ErrorCode × Writing ρ α) : Prop :=
  Written .transferAll (.single b.storage.contents) b.nextLayer out

variable {b}

theorem Passed.le {out : Nat × Option ErrorCode × Writing ρ α} (h : b.Passed out) :
    out.1 ≤ b.storage.size := by
  rw [← b.storage.length_contents]
  exact Written.le h

theorem passed_of_transferred {out : Nat × Option ErrorCode × Writing ρ α}
    (h : Transferred stream.transferStream .transferAll b.storage.contents b.nextLayer out) :
    b.Passed out :=
  Transferred.written stream .transferAll (.single b.storage.contents) b.nextLayer h

theorem transferred_nextWrite : Transferred stream.transferStream .transferAll b.storage.contents
    b.nextLayer (b.nextWrite stream) :=
  transferred_sync ConsumingSingleBuffer.consuming stream.transferStream .transferAll
    (s := b.nextLayer) (c := .construct b.storage.contents) rfl

theorem passed_nextWrite : b.Passed (b.nextWrite stream) :=
  passed_of_transferred stream (transferred_nextWrite stream)

theorem passed_asyncNextWrite {k : Nat} {out : Nat × Option ErrorCode × Writing ρ α}
    (h : b.asyncNextWrite stream k = some out) : b.Passed out := by
  obtain ⟨m, out', hout, hagree⟩ := exists_async ConsumingSingleBuffer.consuming
    stream.transferStream .transferAll (s := b.nextLayer)
    (c := .construct b.storage.contents) rfl
  have hlast := completeTransfer_mono ConsumingSingleBuffer.consuming stream.transferStream h
    (Nat.le_max_left k m)
  obtain rfl := Option.some.inj (hlast.symm.trans (hout _ (Nat.le_max_right k m)))
  exact passed_of_transferred stream (hagree.transferred _ _ (transferred_nextWrite stream))

/-- The bytes that have been passed on leave the storage. -/
def consume (b : BufferedWriteStream ρ α) (out : Nat × Option ErrorCode × Writing ρ α)
    (h : b.Passed out) : BufferedWriteStream ρ α :=
  ⟨out.2.2, b.storage.consume out.1 h.le⟩

variable (b)

/-- `flush(ec)`. -/
def flush : Nat × Option ErrorCode × BufferedWriteStream ρ α :=
  let out := b.nextWrite stream
  (out.1, out.2.1, b.consume out (passed_nextWrite stream))

/-- `flush()`, which leaves the storage alone when `write` throws. -/
def flushThrowing : Except ErrorCode Nat × BufferedWriteStream ρ α :=
  let out := b.nextWrite stream
  match out.2.1 with
  | none => (.ok out.1, b.consume out (passed_nextWrite stream))
  | some e => (.error e, ⟨out.2.2, b.storage⟩)

/-- An asynchronous flush and its completion. -/
def asyncFlush (k : Nat) : Option (Nat × Option ErrorCode × BufferedWriteStream ρ α) :=
  match h : b.asyncNextWrite stream k with
  | some out => some (out.1, out.2.1, b.consume out (passed_asyncNextWrite stream h))
  | none => none

end Flushing

section Copying

variable (b : BufferedWriteStream ρ α) (data : List α)

def copyLength : Nat :=
  let spaceAvail := b.storage.capacity - b.storage.size
  let bytesAvail := data.length
  if bytesAvail < spaceAvail then bytesAvail else spaceAvail

theorem size_add_copyLength_le : b.storage.size + b.copyLength data ≤ b.storage.capacity := by
  have := b.storage.size_le_capacity
  simp only [copyLength]
  split <;> omega

theorem copyLength_le : b.copyLength data ≤ data.length := by
  simp only [copyLength]
  split <;> omega

def copy : Nat × BufferedWriteStream ρ α :=
  let length := b.copyLength data
  let storage := b.storage.resize (b.storage.size + length) (b.size_add_copyLength_le data)
  (length, ⟨b.nextLayer, storage.store b.storage.size (data.take length)⟩)

end Copying

section Writing

variable (stream : BufferWriteStream ρ α) (b : BufferedWriteStream ρ α)

/-- `write_some(buffers, ec)`. -/
def writeSome (data : List α) : Nat × Option ErrorCode × BufferedWriteStream ρ α :=
  if data.length = 0 then
    (0, none, b)
  else if b.storage.size = b.storage.capacity then
    let (flushed, ec, b) := b.flush stream
    if flushed = 0 then
      (0, ec, b)
    else
      ((b.copy data).1, ec, (b.copy data).2)
  else
    ((b.copy data).1, none, (b.copy data).2)

/-- `write_some(buffers)`. -/
def writeSomeThrowing (data : List α) : Except ErrorCode Nat × BufferedWriteStream ρ α :=
  if data.length = 0 then
    (.ok 0, b)
  else if b.storage.size = b.storage.capacity then
    match b.flushThrowing stream with
    | (.ok _, b) => (.ok (b.copy data).1, (b.copy data).2)
    | (.error e, b) => (.error e, b)
  else
    (.ok (b.copy data).1, (b.copy data).2)

/-- The handler of an asynchronous write. -/
def writeSomeHandler (data : List α) (ec : Option ErrorCode) :
    Nat × Option ErrorCode × BufferedWriteStream ρ α :=
  match ec with
  | some e => (0, some e, b)
  | none => ((b.copy data).1, none, (b.copy data).2)

/-- An asynchronous write and its completion. -/
def asyncWriteSome (k : Nat) (data : List α) :
    Option (Nat × Option ErrorCode × BufferedWriteStream ρ α) :=
  if data.length = 0 ∨ b.storage.size < b.storage.capacity then
    let out := stream.transferStream.transferSome b.nextLayer [[]]
    some (writeSomeHandler ⟨out.2.2, b.storage⟩ data out.2.1)
  else
    (b.asyncFlush stream k).map fun (_, ec, b) => b.writeSomeHandler data ec

end Writing

/-! ### Calls -/

inductive Call (α : Type v)
  | flush
  | flushThrowing
  | asyncFlush (k : Nat)
  | writeSome (data : List α)
  | writeSomeThrowing (data : List α)
  | asyncWriteSome (k : Nat) (data : List α)

/-- What a call reports: a number of bytes and an error, or an exception. -/
structure Answer where
  count : Nat
  ec : Option ErrorCode
  deriving DecidableEq

def Answer.ofExcept : Except ErrorCode Nat → Answer
  | .ok n => ⟨n, none⟩
  | .error e => ⟨0, some e⟩

def call (stream : BufferWriteStream ρ α) (b : BufferedWriteStream ρ α) :
    Call α → Option (BufferedWriteStream ρ α × Answer)
  | .flush => some ((b.flush stream).2.2, ⟨(b.flush stream).1, (b.flush stream).2.1⟩)
  | .flushThrowing => some ((b.flushThrowing stream).2, .ofExcept (b.flushThrowing stream).1)
  | .asyncFlush k => (b.asyncFlush stream k).map fun (n, ec, b) => (b, ⟨n, ec⟩)
  | .writeSome data =>
    some ((b.writeSome stream data).2.2,
      ⟨(b.writeSome stream data).1, (b.writeSome stream data).2.1⟩)
  | .writeSomeThrowing data =>
    some ((b.writeSomeThrowing stream data).2, .ofExcept (b.writeSomeThrowing stream data).1)
  | .asyncWriteSome k data => (b.asyncWriteSome stream k data).map fun (n, ec, b) => (b, ⟨n, ec⟩)

/-- The bytes that a call reports as written. -/
def Call.reported (answer : Answer) : Call α → List α
  | .writeSome data | .writeSomeThrowing data | .asyncWriteSome _ data => data.take answer.count
  | _ => []

/-- A throwing call does not fail after the next layer has accepted some of the storage. -/
def Retriable (stream : BufferWriteStream ρ α) (b : BufferedWriteStream ρ α) : Call α → Prop
  | .flushThrowing => (b.nextWrite stream).2.1 ≠ none → (b.nextWrite stream).1 = 0
  | .writeSomeThrowing data => data.length ≠ 0 → b.storage.size = b.storage.capacity →
    (b.nextWrite stream).2.1 ≠ none → (b.nextWrite stream).1 = 0
  | _ => True

instance (stream : BufferWriteStream ρ α) (b : BufferedWriteStream ρ α) (c : Call α) :
    Decidable (b.Retriable stream c) := by
  induction c using Call.casesOn <;> dsimp only [Retriable] <;> infer_instance

/-! ### Conservation -/

/-- What is downstream and what is still to come. -/
def total (b : BufferedWriteStream ρ α) : List α := b.nextLayer.written ++ b.storage.contents

section Conservation

variable {stream : BufferWriteStream ρ α} {b b' : BufferedWriteStream ρ α} {data : List α}

theorem total_consume {out : Nat × Option ErrorCode × Writing ρ α} (h : b.Passed out) :
    (b.consume out h).total = b.total := by
  rw [total, consume, BufferedStreamStorage.contents_consume, Written.written h,
    List.append_assoc]
  exact congrArg _ (List.take_append_drop ..)

theorem total_copy : (b.copy data).2.total = b.total ++ data.take (b.copy data).1 := by
  have hroom := b.size_add_copyLength_le data
  have hlength : (data.take (b.copyLength data)).length = b.copyLength data := by
    rw [List.length_take, Nat.min_eq_left (b.copyLength_le data)]
  have hcontents : (b.copy data).2.storage.contents =
      b.storage.contents ++ data.take (b.copyLength data) := by
    have hsize : (b.copy data).2.storage.size = b.storage.size + b.copyLength data :=
      BufferedStreamStorage.size_resize hroom
    rw [← List.take_of_length_le (Nat.le_of_eq (b.copy data).2.storage.length_contents), hsize]
    conv_lhs => rw [← hlength]
    rw [copy, BufferedStreamStorage.take_contents_store_add,
      BufferedStreamStorage.take_contents_resize hroom (Nat.le_add_right ..) (Nat.le_refl _),
      List.take_of_length_le (Nat.le_of_eq b.storage.length_contents)]
    rw [hlength, BufferedStreamStorage.size_resize]
  rw [total, hcontents, ← List.append_assoc]
  rfl

/-- A call that has taken `l` in. -/
structure Takes (b : BufferedWriteStream ρ α) (l : List α) (b' : BufferedWriteStream ρ α) :
    Prop where
  total : b'.total = b.total ++ l
  capacity : b'.storage.capacity = b.storage.capacity

theorem takes_nil (b : BufferedWriteStream ρ α) : Takes b [] b := ⟨(List.append_nil _).symm, rfl⟩

theorem takes_copy : Takes b (data.take (b.copy data).1) (b.copy data).2 :=
  ⟨total_copy, (BufferedStreamStorage.capacity_store ..).trans
    (BufferedStreamStorage.capacity_resize _)⟩

theorem takes_consume {out : Nat × Option ErrorCode × Writing ρ α} (h : b.Passed out) :
    Takes b [] (b.consume out h) :=
  ⟨(total_consume h).trans (List.append_nil _).symm, BufferedStreamStorage.capacity_consume h.le⟩

theorem Takes.trans {b'' : BufferedWriteStream ρ α} {l : List α} (h : Takes b [] b')
    (h' : Takes b' l b'') : Takes b l b'' := by
  refine ⟨?_, h'.capacity.trans h.capacity⟩
  rw [h'.total, h.total, List.append_nil]

theorem takes_asyncFlush {k : Nat} {out : Nat × Option ErrorCode × BufferedWriteStream ρ α}
    (h : b.asyncFlush stream k = some out) : Takes b [] out.2.2 := by
  unfold asyncFlush at h
  split at h
  · rename_i hpassed
    cases h
    exact takes_consume (passed_asyncNextWrite stream hpassed)
  · cases h

/-- When `write` throws, nothing may have been passed on. -/
theorem takes_flushThrowing
    (h : (b.nextWrite stream).2.1 ≠ none → (b.nextWrite stream).1 = 0) :
    Takes b [] (b.flushThrowing stream).2 := by
  simp only [flushThrowing]
  split
  · exact takes_consume (passed_nextWrite stream)
  · rename_i e he
    have hwritten := Written.written (passed_nextWrite (b := b) stream)
    rw [h (by rw [he]; exact Option.some_ne_none e), List.take_zero, List.append_nil] at hwritten
    refine ⟨?_, rfl⟩
    rw [total, hwritten, List.append_nil]
    rfl

theorem takes_writeSome : Takes b (data.take (b.writeSome stream data).1)
    (b.writeSome stream data).2.2 := by
  have hflush : Takes b [] (b.flush stream).2.2 := takes_consume (passed_nextWrite stream)
  simp only [writeSome]
  split
  · rw [List.take_zero]
    exact takes_nil b
  · split
    · split
      · rw [List.take_zero]
        exact hflush
      · exact hflush.trans takes_copy
    · exact takes_copy

theorem takes_writeSomeThrowing
    (h : data.length ≠ 0 → b.storage.size = b.storage.capacity →
      (b.nextWrite stream).2.1 ≠ none → (b.nextWrite stream).1 = 0) :
    Takes b (data.take (Answer.ofExcept (b.writeSomeThrowing stream data).1).count)
      (b.writeSomeThrowing stream data).2 := by
  simp only [writeSomeThrowing]
  split
  · rw [Answer.ofExcept, List.take_zero]
    exact takes_nil b
  · rename_i hdata
    split
    · rename_i hfull
      have hflush := takes_flushThrowing (h hdata hfull)
      split
      · rename_i heq
        rw [heq] at hflush
        exact hflush.trans takes_copy
      · rename_i heq
        rw [heq] at hflush
        rw [Answer.ofExcept, List.take_zero]
        exact hflush
    · exact takes_copy

theorem takes_writeSomeHandler (ec : Option ErrorCode) :
    Takes b (data.take (b.writeSomeHandler data ec).1) (b.writeSomeHandler data ec).2.2 := by
  cases ec with
  | some e =>
    rw [writeSomeHandler, List.take_zero]
    exact takes_nil b
  | none => exact takes_copy

theorem takes_asyncWriteSome {k : Nat} {out : Nat × Option ErrorCode × BufferedWriteStream ρ α}
    (h : b.asyncWriteSome stream k data = some out) : Takes b (data.take out.1) out.2.2 := by
  simp only [asyncWriteSome] at h
  split at h
  · cases h
    have hnext : Takes b [] (⟨(stream.transferStream.transferSome b.nextLayer [[]]).2.2, b.storage⟩ :
        BufferedWriteStream ρ α) := by
      refine ⟨?_, rfl⟩
      simp only [BufferWriteStream.transferStream, total, List.flatten_cons, List.flatten_nil,
        List.append_nil, List.take_nil]
    exact hnext.trans (takes_writeSomeHandler _)
  · obtain ⟨flushed, hflush, rfl⟩ := Option.map_eq_some_iff.mp h
    exact (takes_asyncFlush hflush).trans (takes_writeSomeHandler _)

theorem takes_call {c : Call α} {a : Answer} (h : b.call stream c = some (b', a))
    (hretriable : b.Retriable stream c) : Takes b (c.reported a) b' := by
  cases c with
  | flush =>
    cases h
    exact takes_consume (passed_nextWrite stream)
  | flushThrowing =>
    cases h
    exact takes_flushThrowing hretriable
  | asyncFlush k =>
    obtain ⟨out, hout, heq⟩ := Option.map_eq_some_iff.mp h
    cases heq
    exact takes_asyncFlush hout
  | writeSome data =>
    cases h
    exact takes_writeSome
  | writeSomeThrowing data =>
    cases h
    exact takes_writeSomeThrowing hretriable
  | asyncWriteSome k data =>
    obtain ⟨out, hout, heq⟩ := Option.map_eq_some_iff.mp h
    cases heq
    exact takes_asyncWriteSome hout

def Step (stream : BufferWriteStream ρ α) (b : BufferedWriteStream ρ α) (c : Call α) (a : Answer)
    (b' : BufferedWriteStream ρ α) : Prop :=
  b.call stream c = some (b', a)

/-- The bytes that the calls of a run report as written. -/
def reported (log : List (Call α × Answer)) : List α := log.flatMap fun p => p.1.reported p.2

theorem takes_run {log : List (Call α × Answer)}
    (h : Run (fun b c a b' => Step stream b c a b' ∧ b.Retriable stream c) b log b') :
    Takes b (reported log) b' := by
  induction h with
  | nil => exact takes_nil _
  | @cons b c a b₁ log b' hstep _ ih =>
    have hcall := takes_call hstep.1 hstep.2
    refine ⟨?_, ih.capacity.trans hcall.capacity⟩
    rw [ih.total, hcall.total, List.append_assoc]
    rfl

end Conservation

end BufferedWriteStream

end Asio
