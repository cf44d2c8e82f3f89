import Asio.BasicStreambufPointers
import Asio.ComposedTransferAtRuns
import Asio.DynamicBuffer

/-! The composed operations that read into a stream buffer from an offset of a device on. -/

universe u v w

namespace Asio

open Lib.Transition

namespace BasicStreambuf

/-- `capacity` is that of the vector. -/
def readSizeHelper {α : Type u} (capacity : Nat) (s : BasicStreambuf α) (maxSize : Nat) : Nat :=
  min (max 512 (capacity - s.size)) (min maxSize (s.maxSize - s.size))

end BasicStreambuf

/-- An operation between two transfers, with the positions that have been read. -/
structure StreambufReadAt (ρ : Type w) (χ : Type v) (α : Type u) where
  streambuf : BasicStreambuf α
  completionCondition : χ
  device : ρ
  read : List Nat
  totalTransferred : Nat
  ec : Option ErrorCode
  bytesAvailable : Nat
  done : Bool

namespace StreambufReadAt

variable {ρ : Type w} {χ : Type v} {α : Type u}

def construct (streambuf : BasicStreambuf α) (condition : χ) (device : ρ) (read : List Nat) :
    StreambufReadAt ρ χ α where
  streambuf := streambuf
  completionCondition := condition
  device := device
  read := read
  totalTransferred := 0
  ec := none
  bytesAvailable := 0
  done := false

section Operations

variable (K : ConditionObject χ) (d : RandomAccessReadDevice ρ α) (offset : Nat)
variable (capacity : StreambufReadAt ρ χ α → Nat)

def checkForCompletion (t : StreambufReadAt ρ χ α) : StreambufReadAt ρ χ α :=
  let (result, condition) := K.call t.completionCondition t.ec t.totalTransferred
  { t with
    completionCondition := condition
    bytesAvailable :=
      t.streambuf.readSizeHelper (capacity t) (adaptCompletionConditionResult result) }

/-- The synchronous function before a transfer. -/
def loop (t : StreambufReadAt ρ χ α) : StreambufReadAt ρ χ α :=
  let t := t.checkForCompletion K capacity
  { t with done := t.bytesAvailable = 0 }

/-- `read_at_streambuf_op` when a transfer of `n` bytes is complete and has been committed. -/
def resume (cancelled : Bool) (n : Nat) (t : StreambufReadAt ρ χ α) : StreambufReadAt ρ χ α :=
  let t := t.checkForCompletion K capacity
  if t.ec = none ∧ n = 0 ∨ t.bytesAvailable = 0 then
    { t with done := true }
  else if cancelled then
    { t with ec := some .operationAborted, done := true }
  else
    t

/-- What the device is asked for next. -/
def readSome (t : StreambufReadAt ρ χ α) : Nat × Option ErrorCode × ρ :=
  d.readSomeAt t.device ((offset + t.totalTransferred) % 2 ^ 64) [t.bytesAvailable]

/-- The operation when the device has read and the stream buffer has become `b`. -/
def received (t : StreambufReadAt ρ χ α) (b : BasicStreambuf α) : StreambufReadAt ρ χ α :=
  let (n, ec, device) := t.readSome d offset
  { t with
    streambuf := b
    device := device
    read := t.read ++ positions ((offset + t.totalTransferred) % 2 ^ 64) n
    totalTransferred := t.totalTransferred + n
    ec := ec }

variable [Inhabited α]

/-- The next transfer, with the number of bytes transferred; there is none if `prepare` throws, or
if `commit` moves the pointer out of the vector. -/
def transferSome (t : StreambufReadAt ρ χ α) : Option (Nat × StreambufReadAt ρ χ α) :=
  match t.streambuf.prepare t.bytesAvailable with
  | .error _ => none
  | .ok (b, _) =>
    let n := (t.readSome d offset).1
    let b := b.store (d.bytes ((offset + t.totalTransferred) % 2 ^ 64) n)
    (b.commitBump n).map fun b => (n, t.received d offset b)

def syncStep (t : StreambufReadAt ρ χ α) : Option (StreambufReadAt ρ χ α) :=
  (t.transferSome d offset).map fun result => result.2.loop K capacity

/-- What `cancelled()` returns may depend on all that has happened. -/
def asyncStep (cancelled : StreambufReadAt ρ χ α → Bool) (t : StreambufReadAt ρ χ α) :
    Option (StreambufReadAt ρ χ α) :=
  (t.transferSome d offset).map fun result =>
    result.2.resume K capacity (cancelled result.2) result.1

end Operations

/-- An operation after up to `k` transfers. -/
def after (step : StreambufReadAt ρ χ α → Option (StreambufReadAt ρ χ α))
    (t : StreambufReadAt ρ χ α) : Nat → Option (StreambufReadAt ρ χ α)
  | 0 => some t
  | k + 1 => (t.after step k).bind fun t => if t.done then some t else step t

section Calls

variable [Inhabited α] (K : ConditionObject χ) (d : RandomAccessReadDevice ρ α) (offset : Nat)
variable (capacity : StreambufReadAt ρ χ α → Nat) (b : BasicStreambuf α) (condition : χ) (s : ρ)
variable (read : List Nat)

def readAt (k : Nat) : Option (StreambufReadAt ρ χ α) :=
  ((construct b condition s read).loop K capacity).after (syncStep K d offset capacity) k

def asyncReadAt (cancelled : StreambufReadAt ρ χ α → Bool) (k : Nat) :
    Option (StreambufReadAt ρ χ α) :=
  ((construct b condition s read).checkForCompletion K capacity).after
    (asyncStep K d offset capacity cancelled) k

end Calls

/-! ### One transfer -/

section Transfers

variable {K : ConditionObject χ} {d : RandomAccessReadDevice ρ α} {offset : Nat}
variable {capacity : StreambufReadAt ρ χ α → Nat} {b : BasicStreambuf α} {read : List Nat}
variable {t t' : StreambufReadAt ρ χ α} {n : Nat}

/-- What the device has from the offset on has been appended, and each byte of it was read once. -/
structure Appended (d : RandomAccessReadDevice ρ α) (offset : Nat) (b : BasicStreambuf α)
    (read : List Nat) (t : StreambufReadAt ρ χ α) : Prop where
  data : t.streambuf.data = b.data ++ d.bytes offset t.totalTransferred
  read : t.read = read ++ positions offset t.totalTransferred
  once : t.totalTransferred ≤ 2 ^ 64 → (positions offset t.totalTransferred).Nodup

/-- The device transfers a number of bytes that an `int` holds. -/
def Narrow (d : RandomAccessReadDevice ρ α) (offset : Nat) (t : StreambufReadAt ρ χ α) : Prop :=
  (t.readSome d offset).1 < 2 ^ 31

/-- The stream buffer is intact, and what the device is asked for next fits. -/
structure Sane (d : RandomAccessReadDevice ρ α) (offset : Nat) (b : BasicStreambuf α)
    (read : List Nat) (t : StreambufReadAt ρ χ α) : Prop where
  wellFormed : t.streambuf.WellFormed
  appended : t.Appended d offset b read
  fits : t.streambuf.size + t.bytesAvailable ≤ t.streambuf.maxSize

theorem readSizeHelper_le {s : BasicStreambuf α} (h : s.WellFormed) (c m : Nat) :
    s.size + s.readSizeHelper c m ≤ s.maxSize := by
  have := h.size_le
  unfold BasicStreambuf.readSizeHelper
  omega

/-- Only what the next transfer depends on is changed. -/
structure Keeps (t t' : StreambufReadAt ρ χ α) : Prop where
  streambuf : t'.streambuf = t.streambuf
  read : t'.read = t.read
  totalTransferred : t'.totalTransferred = t.totalTransferred
  fits : t.streambuf.WellFormed → t.streambuf.size + t'.bytesAvailable ≤ t.streambuf.maxSize

theorem Keeps.appended (h : Keeps t t') :
    t'.Appended d offset b read ↔ t.Appended d offset b read := by
  constructor
  · intro ha
    refine ⟨?_, ?_, nodup_positions offset⟩
    · rw [← h.streambuf, ← h.totalTransferred, ha.data]
    · rw [← h.read, ← h.totalTransferred, ha.read]
  · intro ha
    refine ⟨?_, ?_, nodup_positions offset⟩
    · rw [h.streambuf, h.totalTransferred, ha.data]
    · rw [h.read, h.totalTransferred, ha.read]

theorem Keeps.sane (h : Keeps t t') (hwf : t.streambuf.WellFormed)
    (ha : t.Appended d offset b read) : t'.Sane d offset b read where
  wellFormed := h.streambuf ▸ hwf
  appended := h.appended.mpr ha
  fits := by
    rw [h.streambuf]
    exact h.fits hwf

theorem check_keeps : Keeps t (t.checkForCompletion K capacity) :=
  ⟨rfl, rfl, rfl, fun hwf => readSizeHelper_le hwf ..⟩

theorem loop_keeps : Keeps t (t.loop K capacity) :=
  ⟨rfl, rfl, rfl, fun hwf => readSizeHelper_le hwf ..⟩

theorem resume_keeps {cancelled : Bool} : Keeps t (t.resume K capacity cancelled n) := by
  simp only [resume]
  split_ifs <;> exact ⟨rfl, rfl, rfl, fun hwf => readSizeHelper_le hwf ..⟩

/-- The amount is not narrowed where as many characters are committed. -/
theorem commitBump_narrow {s s' : BasicStreambuf α} (hwf : s.WellFormed)
    (hn : n ≤ s.epptr - s.pptr) (h : s.commitBump n = some s')
    (hlength : s'.data.length = s.size + n) : n < 2 ^ 31 := by
  have hg := hwf.gptr_le
  have hlt := BasicStreambuf.toInt_lt n
  obtain ⟨pptr, hbump, rfl⟩ := Option.map_eq_some_iff.mp h
  rw [Nat.min_eq_left hn] at hbump
  have hsum := (BasicStreambuf.bump_eq_some.mp hbump).1
  simp only [BasicStreambuf.data, BasicStreambuf.setg, List.length_take, BasicStreambuf.size]
    at hlength
  omega

theorem readSome_le : (t.readSome d offset).1 ≤ t.bytesAvailable := by
  have hle : (t.readSome d offset).1 ≤ [t.bytesAvailable].sum := d.le_sum
  rwa [List.sum_singleton] at hle

theorem received_appended (h : t.Appended d offset b read) {s : BasicStreambuf α}
    (hs : s.data = t.streambuf.data ++
      d.bytes ((offset + t.totalTransferred) % 2 ^ 64) (t.readSome d offset).1) :
    (t.received d offset s).Appended d offset b read := by
  refine ⟨?_, ?_, nodup_positions offset⟩
  · simp only [received]
    rw [hs, h.data, d.bytes_add, List.append_assoc]
  · simp only [received]
    rw [h.read, positions_add, List.append_assoc]

theorem construct_sane (hwf : b.WellFormed) (condition : χ) (s : ρ)
    (hkeeps : Keeps (construct b condition s read) t) : t.Sane d offset b read := by
  refine hkeeps.sane hwf ⟨?_, ?_, nodup_positions offset⟩
  · exact (List.append_nil _).symm
  · exact (List.append_nil _).symm

section Steps

variable [Inhabited α]

/-- The bytes are stored in the put area, of which `n` are committed. -/
structure Storing (b : BasicStreambuf α) (l : List α) (n : Nat) (s : BasicStreambuf α) : Prop where
  wellFormed : s.WellFormed
  data : s.data = b.data
  room : n ≤ s.epptr - s.pptr
  output : s.output n = l

theorem Sane.storing (h : t.Sane d offset b read) : ∃ s,
    Storing t.streambuf (d.bytes ((offset + t.totalTransferred) % 2 ^ 64) (t.readSome d offset).1)
      (t.readSome d offset).1 s ∧
    t.transferSome d offset = (s.commitBump (t.readSome d offset).1).map fun b =>
      ((t.readSome d offset).1, t.received d offset b) := by
  have hspec := BasicStreambuf.reserve_spec (n := t.bytesAvailable) h.wellFormed
  rw [if_pos h.fits] at hspec
  obtain ⟨s, hs, hreserved⟩ := hspec
  have hroom : (t.readSome d offset).1 ≤ s.epptr - s.pptr := readSome_le.trans hreserved.room
  refine ⟨s.store (d.bytes ((offset + t.totalTransferred) % 2 ^ 64) (t.readSome d offset).1),
    ⟨hreserved.wellFormed.store _, ?_, hroom, ?_⟩, ?_⟩
  · rw [hreserved.wellFormed.data_store, hreserved.data]
  · have hprepared := hreserved.wellFormed.prepared_store
      (l := d.bytes ((offset + t.totalTransferred) % 2 ^ 64) (t.readSome d offset).1)
      (by rwa [d.length_bytes])
    rw [BasicStreambuf.prepared, d.length_bytes] at hprepared
    exact (congrArg _ (Nat.min_eq_left hroom).symm).trans hprepared
  · simp only [StreambufReadAt.transferSome, BasicStreambuf.prepare, hs, Except.map]

/-- A transfer of an amount that fits appends it. -/
theorem Sane.transferSome (h : t.Sane d offset b read) (hnarrow : t.Narrow d offset) :
    ∃ r, t.transferSome d offset = some r ∧ r.2.streambuf.WellFormed ∧
      r.2.Appended d offset b read := by
  obtain ⟨s, hs, heq⟩ := h.storing
  have hmin := Nat.min_eq_left hs.room
  have hfits : s.CommitFits (t.readSome d offset).1 := hmin.le.trans_lt hnarrow
  obtain ⟨s', hs', hcommitted⟩ := (BasicStreambuf.commitBump_iff hs.wellFormed).mpr hfits
  refine ⟨_, heq.trans (congrArg _ hs'), hcommitted.wellFormed, received_appended h.appended ?_⟩
  rw [hcommitted.data hs.wellFormed, hmin, hs.data, hs.output]

theorem Sane.narrow (h : t.Sane d offset b read) {r : Nat × StreambufReadAt ρ χ α}
    (hr : t.transferSome d offset = some r) (ha : r.2.Appended d offset b read) :
    t.Narrow d offset := by
  obtain ⟨s, hs, heq⟩ := h.storing
  rw [hr] at heq
  obtain ⟨s', hs', rfl⟩ := Option.map_eq_some_iff.mp heq.symm
  apply commitBump_narrow hs.wellFormed hs.room hs'
  have hdata : s'.data = b.data ++ d.bytes offset (t.totalTransferred + (t.readSome d offset).1) :=
    ha.data
  rw [hdata, d.bytes_add, ← List.append_assoc, ← h.appended.data, List.length_append,
    d.length_bytes, ← hs.data, hs.wellFormed.length_data]

end Steps

end Transfers

/-! ### Runs -/

section Runs

variable [Inhabited α] {d : RandomAccessReadDevice ρ α} {offset : Nat} {b : BasicStreambuf α}
variable {read : List Nat} {t start : StreambufReadAt ρ χ α}
variable {finish : Nat → StreambufReadAt ρ χ α → StreambufReadAt ρ χ α}

/-- Every transfer that is made in a run is of a number of bytes that an `int` holds. -/
def AllNarrow (d : RandomAccessReadDevice ρ α) (offset : Nat)
    (run : Nat → Option (StreambufReadAt ρ χ α)) : Prop :=
  ∀ k t, run k = some t → t.done = false → t.Narrow d offset

def AllAppended (d : RandomAccessReadDevice ρ α) (offset : Nat) (b : BasicStreambuf α)
    (read : List Nat) (run : Nat → Option (StreambufReadAt ρ χ α)) : Prop :=
  ∀ k, ∃ t, run k = some t ∧ t.Appended d offset b read

/-- The steps of both kinds of operation: a transfer, and what is decided then. -/
def stepWith (d : RandomAccessReadDevice ρ α) (offset : Nat)
    (finish : Nat → StreambufReadAt ρ χ α → StreambufReadAt ρ χ α) (t : StreambufReadAt ρ χ α) :
    Option (StreambufReadAt ρ χ α) :=
  (t.transferSome d offset).map fun result => finish result.1 result.2

theorem Sane.stepWith (h : t.Sane d offset b read) (hnarrow : t.Narrow d offset)
    (hfinish : ∀ n t, Keeps t (finish n t)) :
    ∃ t', t.stepWith d offset finish = some t' ∧ t'.Sane d offset b read := by
  obtain ⟨r, hr, hwf, happended⟩ := h.transferSome hnarrow
  exact ⟨_, congrArg _ hr, (hfinish ..).sane hwf happended⟩

/-- As long as the amounts fit, the run goes on and appends them. -/
theorem sane_after (hstart : start.Sane d offset b read) (hfinish : ∀ n t, Keeps t (finish n t))
    (k : Nat) (hnarrow : ∀ j < k, ∀ t, start.after (StreambufReadAt.stepWith d offset finish) j =
      some t → t.done = false → t.Narrow d offset) :
    ∃ t, start.after (StreambufReadAt.stepWith d offset finish) k = some t ∧
      t.Sane d offset b read := by
  induction k with
  | zero => exact ⟨start, rfl, hstart⟩
  | succ k ih =>
    obtain ⟨t, ht, hsane⟩ := ih fun j hj => hnarrow j (Nat.lt_succ_of_lt hj)
    cases hdone : t.done with
    | true => exact ⟨t, by simp only [after, ht, Option.bind_some, hdone, if_true], hsane⟩
    | false =>
      obtain ⟨t', ht', hsane'⟩ := hsane.stepWith (hnarrow k (Nat.lt_succ_self k) t ht hdone) hfinish
      refine ⟨t', ?_, hsane'⟩
      simp only [after, ht, Option.bind_some, hdone, Bool.false_eq_true, if_false, ht']

theorem allAppended_iff (hstart : start.Sane d offset b read)
    (hfinish : ∀ n t, Keeps t (finish n t)) :
    AllAppended d offset b read (start.after (StreambufReadAt.stepWith d offset finish)) ↔
      AllNarrow d offset (start.after (StreambufReadAt.stepWith d offset finish)) := by
  constructor
  · intro hall k
    induction k using Nat.strong_induction_on with
    | _ k ih =>
      intro t ht hdone
      obtain ⟨s, hs, hsane⟩ := sane_after hstart hfinish k ih
      obtain rfl := Option.some.inj (ht.symm.trans hs)
      obtain ⟨t', ht', happended⟩ := hall (k + 1)
      simp only [after, ht, Option.bind_some, hdone, Bool.false_eq_true, if_false] at ht'
      obtain ⟨r, hr, rfl⟩ := Option.map_eq_some_iff.mp ht'
      exact hsane.narrow hr ((hfinish ..).appended.mp happended)
  · intro hnarrow k
    obtain ⟨t, ht, hsane⟩ := sane_after hstart hfinish k fun j _ => hnarrow j
    exact ⟨t, ht, hsane.appended⟩

theorem readAt_iff (hwf : b.WellFormed) (K : ConditionObject χ)
    (capacity : StreambufReadAt ρ χ α → Nat) (condition : χ) (s : ρ) :
    AllAppended d offset b read (readAt K d offset capacity b condition s read) ↔
      AllNarrow d offset (readAt K d offset capacity b condition s read) :=
  allAppended_iff (construct_sane hwf condition s loop_keeps) fun _ _ => loop_keeps

theorem asyncReadAt_iff (hwf : b.WellFormed) (K : ConditionObject χ)
    (capacity : StreambufReadAt ρ χ α → Nat) (condition : χ) (s : ρ)
    (cancelled : StreambufReadAt ρ χ α → Bool) :
    AllAppended d offset b read (asyncReadAt K d offset capacity b condition s read cancelled) ↔
      AllNarrow d offset (asyncReadAt K d offset capacity b condition s read cancelled) := by
  have hfinish (n : Nat) (t : StreambufReadAt ρ χ α) :
      Keeps t (t.resume K capacity (cancelled t) n) := resume_keeps
  exact allAppended_iff (construct_sane hwf condition s check_keeps) hfinish

end Runs

/-! ### All the operations -/

/-- Buffers are always transferred to and from the right positions; into a stream buffer this is so
exactly when no amount that the device transfers is narrowed. -/
theorem transferAt_iff [Inhabited α] {maxSize : Nat} {b : BasicStreambuf α}
    (h : Reachable BasicStreambuf.operate BasicStreambuf.Fitting (.construct maxSize) b)
    (K : ConditionObject χ) (offset : Nat) (condition : χ) :
    (∀ (d : RandomAccessWriteDevice ρ α) (q : BufferSequence α) (s : WritingAt ρ α) (k : Nat),
      (TransferAt.writeAt consumingBuffers K d offset q.construct condition s k).HasWritten
        q offset s ∧
      ∀ cancelled, (TransferAt.asyncWriteAt consumingBuffers K d offset q.construct condition s
        cancelled k).HasWritten q offset s) ∧
    ∀ (d : RandomAccessReadDevice ρ α),
      (∀ (q : BufferSequence Nat) (s : ReadingAt ρ α) (k : Nat),
        (TransferAt.readAt consumingBuffers K d offset q.construct condition s k).HasRead
          d q offset s ∧
        ∀ cancelled, (TransferAt.asyncReadAt consumingBuffers K d offset q.construct condition s
          cancelled k).HasRead d q offset s) ∧
      ∀ (capacity : StreambufReadAt ρ χ α → Nat) (s : ρ) (read : List Nat),
        (AllAppended d offset b read (readAt K d offset capacity b condition s read) ↔
          AllNarrow d offset (readAt K d offset capacity b condition s read)) ∧
        ∀ cancelled,
          (AllAppended d offset b read
              (asyncReadAt K d offset capacity b condition s read cancelled) ↔
            AllNarrow d offset
              (asyncReadAt K d offset capacity b condition s read cancelled)) := by
  have hwf := (BasicStreambuf.intact_of_reachable h).wellFormed
  refine ⟨fun d q s k => ⟨?_, fun cancelled => ?_⟩, fun d => ⟨fun q s k => ⟨?_, fun cancelled => ?_⟩,
    fun capacity s read => ⟨?_, fun cancelled => ?_⟩⟩⟩
  · exact TransferAt.writeAt_hasWritten K offset condition k d q s
  · exact TransferAt.asyncWriteAt_hasWritten K offset condition k d q s cancelled
  · exact TransferAt.readAt_hasRead K offset condition k d q s
  · exact TransferAt.asyncReadAt_hasRead K offset condition k d q s cancelled
  · exact readAt_iff hwf K capacity condition s
  · exact asyncReadAt_iff hwf K capacity condition s cancelled

/-- A device that reads all that it is asked for, up to so many bytes. -/
def countingDevice (limit : Nat) : RandomAccessReadDevice Unit Nat where
  contents := id
  readSomeAt _ _ sizes := (min limit sizes.sum, none, ())
  le_sum := Nat.min_le_right ..

/-- An operation for so many bytes in one transfer. -/
def upTo (total : Nat) : ConditionObject Unit where
  call _ _ n := (.inr (total - n), ())

theorem transferAt_iff_small : AllAppended (countingDevice 3) 5 (.construct 16) []
    (readAt (upTo 8) (countingDevice 3) 5 (fun _ => 0) (.construct 16) () () []) := by
  have hiff := ((transferAt_iff (ρ := Unit) (.start : Reachable BasicStreambuf.operate
    BasicStreambuf.Fitting (.construct 16) (.construct 16 : BasicStreambuf Nat)) (upTo 8) 5 ()).2
      (countingDevice 3)).2 (fun _ => 0) () []
  refine hiff.1.mpr fun k t _ _ => ?_
  exact (Nat.min_le_left 3 _).trans_lt (by decide)

/-- An empty stream buffer in which two gibibytes have been prepared. -/
def largeStreambuf : BasicStreambuf Nat :=
  BasicStreambuf.after ((BasicStreambuf.construct (2 ^ 32)).prepareOrThrow true (2 ^ 31))

theorem largeStreambuf_reachable : Reachable BasicStreambuf.operate BasicStreambuf.Fitting
    (.construct (2 ^ 32)) largeStreambuf :=
  .step (a := .prepare true (2 ^ 31)) .start trivial rfl

theorem largeStreambuf_reserved : BasicStreambuf.Reserved (.construct (2 ^ 32)) (2 ^ 31)
    largeStreambuf := by
  have hspec := BasicStreambuf.reserve_spec (n := 2 ^ 31)
    (BasicStreambuf.construct_wellFormed (α := Nat) (2 ^ 32))
  rw [if_pos (by decide)] at hspec
  obtain ⟨s, hs, hreserved⟩ := hspec
  have hlarge : largeStreambuf = s := by
    rw [largeStreambuf, BasicStreambuf.prepareOrThrow, BasicStreambuf.reserveOrThrow_true, hs]
    rfl
  rwa [hlarge]

theorem readSizeHelper_largeStreambuf :
    largeStreambuf.readSizeHelper largeStreambuf.buffer.length (2 ^ 31) = 2 ^ 31 := by
  have hreserved := largeStreambuf_reserved
  have hwf := hreserved.wellFormed
  have hsize : largeStreambuf.size = 0 := by
    rw [← hwf.length_data, hreserved.data]
    rfl
  have hmax : largeStreambuf.maxSize = 2 ^ 32 := hreserved.maxSize
  have hroom := hreserved.room
  have hbuffer := hwf.buffer
  rw [BasicStreambuf.readSizeHelper, hsize, hmax]
  omega

theorem bytesAvailable_largeStreambuf :
    ((construct largeStreambuf () () []).checkForCompletion (upTo (2 ^ 31))
      fun t => t.streambuf.buffer.length).bytesAvailable = 2 ^ 31 := by
  simp only [checkForCompletion, upTo, construct, adaptCompletionConditionResult, Nat.sub_zero]
  exact readSizeHelper_largeStreambuf

/-- The two gibibytes are read in one transfer, and the amount becomes negative. -/
theorem not_transferAt :
    Reachable BasicStreambuf.operate BasicStreambuf.Fitting (.construct (2 ^ 32)) largeStreambuf ∧
      ¬AllAppended (countingDevice (2 ^ 31)) 0 largeStreambuf []
        (readAt (upTo (2 ^ 31)) (countingDevice (2 ^ 31)) 0 (fun t => t.streambuf.buffer.length)
          largeStreambuf () () []) ∧
      ¬AllAppended (countingDevice (2 ^ 31)) 0 largeStreambuf []
        (asyncReadAt (upTo (2 ^ 31)) (countingDevice (2 ^ 31)) 0
          (fun t => t.streambuf.buffer.length) largeStreambuf () () [] fun _ => false) := by
  have hwf := largeStreambuf_reserved.wellFormed
  have hnot {t : StreambufReadAt Unit Unit Nat} (ht : t.bytesAvailable = 2 ^ 31) :
      ¬t.Narrow (countingDevice (2 ^ 31)) 0 := by
    simp only [Narrow, readSome, countingDevice, ht, List.sum_singleton]
    decide
  refine ⟨largeStreambuf_reachable, ?_, ?_⟩
  · rw [readAt_iff hwf]
    intro hnarrow
    have hbytes : ((construct largeStreambuf () () []).loop (upTo (2 ^ 31))
        fun t => t.streambuf.buffer.length).bytesAvailable = 2 ^ 31 := by
      rw [loop, bytesAvailable_largeStreambuf]
    have hdone : ((construct largeStreambuf () () []).loop (upTo (2 ^ 31))
        fun t => t.streambuf.buffer.length).done = false := by
      rw [loop, bytesAvailable_largeStreambuf]
      rfl
    exact hnot hbytes (hnarrow 0 _ (by rw [readAt, after]) hdone)
  · rw [asyncReadAt_iff hwf]
    intro hnarrow
    exact hnot bytesAvailable_largeStreambuf (hnarrow 0 _ (by rw [asyncReadAt, after]) rfl)

end StreambufReadAt

end Asio
