import Mathlib.Algebra.Group.Nat.Defs
import Asio.DynamicBuffer

/-! Reading into a dynamic buffer until it contains a delimiter, synchronously and asynchronously. -/

universe u v w

namespace Asio

inductive ErrorCode
  | notFound | operationAborted
  | other (value : Nat)
  deriving DecidableEq

/-- A stream that transfers at least one character or fails. A read into no buffers is complete at
once. -/
structure ReadStream (σ : Type w) (α : Type v) where
  readSome : σ → Nat → List α × Option ErrorCode × σ
  length_le : (readSome s n).1.length ≤ n
  nonempty : 0 < n → (readSome s n).2.1 = none → (readSome s n).1 ≠ []
  failed : (readSome s n).2.1 = some e → (readSome s n).1 = []
  empty : readSome s 0 = ([], none, s)

/-- What `read_until` does with a dynamic buffer of either version. -/
structure ReadBuffer (β : Type u) (α : Type v) where
  size : β → Nat
  maxSize : β → Nat
  capacity : β → Nat
  contents : β → List α
  extend : β → Nat → Option β
  receive : β → Nat → Nat → List α → β
  length_contents : (contents b).length = size b
  extend_eq_none : extend b n = none ↔ maxSize b < size b + n
  maxSize_receive : extend b n = some b' → l.length ≤ n →
    maxSize (receive b' (size b) n l) = maxSize b
  contents_receive : extend b n = some b' → l.length ≤ n →
    contents (receive b' (size b) n l) = contents b ++ l

variable {α : Type v} {β : Type u} {σ : Type w}

/-- `commit(read_some(prepare(n)))`. -/
def DynamicBufferV1.readBuffer (B : DynamicBufferV1 β α) : ReadBuffer β α where
  size := B.size
  maxSize := B.maxSize
  capacity := B.capacity
  contents := B.data
  extend := B.prepare
  receive b _ _ l := B.commit (B.write b l) l.length
  length_contents := B.length_data
  extend_eq_none := B.prepare_eq_none
  maxSize_receive h _ := by
    rw [B.maxSize_commit, B.maxSize_write, B.maxSize_prepare h]
  contents_receive h hl := by
    have hout := B.length_output h
    have hwritten := B.output_write hout hl
    rw [B.data_commit (by rw [hwritten]), hwritten, B.data_write hout hl, B.data_prepare h]

/-- `grow(n)`, `read_some(data(pos, n))` and `shrink(n - bytes_transferred)`. -/
def DynamicBufferV2.readBuffer (B : DynamicBufferV2 β α) : ReadBuffer β α where
  size := B.size
  maxSize := B.maxSize
  capacity := B.capacity
  contents b := B.data b 0 (B.size b)
  extend := B.grow
  receive b pos n l := B.shrink (B.write b pos l) (n - l.length)
  length_contents := B.length_data
  extend_eq_none := B.grow_eq_none
  maxSize_receive h _ := by
    rw [B.maxSize_shrink, B.maxSize_write, B.maxSize_grow h]
  contents_receive {b n b' l} h hl := by
    have hgrow := B.size_grow h
    have hsize : B.size (B.write b' (B.size b) l) = B.size b + n := by
      rw [B.size_write (by omega), hgrow]
    have hshrink : n - l.length ≤ B.size (B.write b' (B.size b) l) := by omega
    rw [B.size_shrink hshrink, B.data_shrink hshrink, hsize, ← hgrow,
      show B.size b' - (n - l.length) = B.size b + l.length by omega,
      B.data_write (by omega), B.data_grow h]

/-! ### The search -/

section Search

variable [DecidableEq α]

/-- Compare from a position on: `some true` is a full match, and `some false` a partial match at
the end. `moved` says that `test_iter2` has left `first2`. -/
def testFrom (moved : Bool) : List α → List α → Option Bool
  | _, [] => some true
  | [], _ :: _ => if moved then some false else none
  | a :: l, d :: delim => if a ≠ d then none else testFrom true l delim

theorem testFrom_cons_cons (moved : Bool) (a d : α) (l delim : List α) :
    testFrom moved (a :: l) (d :: delim) = if a ≠ d then none else testFrom true l delim := rfl

/-- The position of a match and whether it is a full one, or the end. -/
def partialSearch (delim : List α) : List α → Nat × Bool
  | [] => (0, false)
  | a :: l =>
    match testFrom false (a :: l) delim with
    | some full => (0, full)
    | none => ((partialSearch delim l).1 + 1, (partialSearch delim l).2)

theorem partialSearch_cons (delim : List α) (a : α) (l : List α) :
    partialSearch delim (a :: l) =
      match testFrom false (a :: l) delim with
      | some full => (0, full)
      | none => ((partialSearch delim l).1 + 1, (partialSearch delim l).2) := rfl

/-- The end of a match, or the position at which the next search starts. -/
inductive Search
  | found (n : Nat)
  | next (searchPosition : Nat)
  deriving DecidableEq

def search (delim data : List α) (searchPosition : Nat) : Search :=
  let result := partialSearch delim (data.drop searchPosition)
  let first := searchPosition + result.1
  if first ≠ data.length then
    if result.2 then .found (first + delim.length) else .next first
  else
    .next data.length

end Search

structure Result where
  ec : Option ErrorCode
  n : Nat
  deriving DecidableEq

namespace ReadBuffer

variable (R : ReadBuffer β α) (stream : ReadStream σ α)

def bytesToRead (b : β) : Nat :=
  min (max 512 (R.capacity b - R.size b)) (min 65536 (R.maxSize b - R.size b))

section Room

variable {R} {b b' : β} {n : Nat} {l : List α}

theorem size_receive (h : R.extend b n = some b') (hl : l.length ≤ n) :
    R.size (R.receive b' (R.size b) n l) = R.size b + l.length := by
  rw [← R.length_contents, R.contents_receive h hl, List.length_append, R.length_contents]

theorem le_maxSize (h : R.extend b n = some b') : R.size b + n ≤ R.maxSize b := by
  by_contra hn
  rw [R.extend_eq_none.mpr (by omega)] at h
  cases h

theorem bytesToRead_pos (h : R.size b < R.maxSize b) : 0 < R.bytesToRead b := by
  simp only [bytesToRead]
  omega

theorem ne_nil_of_read {s s' : σ} (hroom : R.size b ≠ R.maxSize b)
    (h : R.extend b (R.bytesToRead b) = some b')
    (hread : stream.readSome s (R.bytesToRead b) = (l, none, s')) : l ≠ [] := by
  have hle := le_maxSize h
  have := stream.nonempty (s := s) (bytesToRead_pos (R := R) (b := b) (by omega)) (by rw [hread])
  rwa [hread] at this

/-- A successful read fills the buffer up. -/
theorem receive_lt {s s' : σ} (hfull : R.size b ≠ R.maxSize b)
    (h : R.extend b (R.bytesToRead b) = some b')
    (hread : stream.readSome s (R.bytesToRead b) = (l, none, s')) :
    R.maxSize (R.receive b' (R.size b) (R.bytesToRead b) l) -
      R.size (R.receive b' (R.size b) (R.bytesToRead b) l) < R.maxSize b - R.size b := by
  have hle := le_maxSize h
  have hlength : l.length ≤ R.bytesToRead b := by
    have := stream.length_le (s := s) (n := R.bytesToRead b)
    rwa [hread] at this
  have := List.length_pos_iff.mpr (ne_nil_of_read stream hfull h hread)
  rw [R.maxSize_receive h hlength, size_receive h hlength]
  omega

end Room

variable [DecidableEq α]

/-- The loop of `read_until`; without a value it throws. -/
def readUntilFrom (delim : List α) (b : β) (searchPosition : Nat) (s : σ) :
    Option (Result × β × σ) :=
  match search delim (R.contents b) searchPosition with
  | .found n => some (⟨none, n⟩, b, s)
  | .next searchPosition =>
    if _hfull : R.size b = R.maxSize b then
      some (⟨some .notFound, 0⟩, b, s)
    else
      match _hb : R.extend b (R.bytesToRead b) with
      | none => none
      | some b' =>
        match _hs : stream.readSome s (R.bytesToRead b) with
        | (l, some e, s') =>
          some (⟨some e, 0⟩, R.receive b' (R.size b) (R.bytesToRead b) l, s')
        | (l, none, s') =>
          readUntilFrom delim (R.receive b' (R.size b) (R.bytesToRead b) l) searchPosition s'
termination_by R.maxSize b - R.size b
decreasing_by exact receive_lt stream _hfull _hb _hs

def readUntil (delim : List α) (b : β) (s : σ) : Option (Result × β × σ) :=
  readUntilFrom R stream delim b 0 s

end ReadBuffer

def DynamicBufferV1.readUntil [DecidableEq α] (B : DynamicBufferV1 β α) (stream : ReadStream σ α)
    (delim : List α) (b : β) (s : σ) : Option (Result × β × σ) :=
  B.readBuffer.readUntil stream delim b s

def DynamicBufferV2.readUntil [DecidableEq α] (B : DynamicBufferV2 β α) (stream : ReadStream σ α)
    (delim : List α) (b : β) (s : σ) : Option (Result × β × σ) :=
  B.readBuffer.readUntil stream delim b s

/-! ### The asynchronous operation -/

/-- Without a search position nothing has been found. -/
structure ReadUntilDelimStringOp (β : Type u) (α : Type v) where
  buffers : β
  delim : List α
  searchPosition : Option Nat
  pos : Nat
  bytesToRead : Nat

/-- What the operation does when it returns: it has started a read, or it has called its handler. -/
inductive Next (β : Type u) (α : Type v)
  | read (op : ReadUntilDelimStringOp β α)
  | handler (result : Result) (buffers : β)

namespace ReadUntilDelimStringOp

variable [DecidableEq α] (R : ReadBuffer β α) (op : ReadUntilDelimStringOp β α)

def sizeMax : Nat := 2 ^ 64 - 1

/-- Determine what the next read is for. -/
def look : ReadUntilDelimStringOp β α :=
  match search op.delim (R.contents op.buffers) (op.searchPosition.getD sizeMax) with
  | .found n => { op with searchPosition := some n, bytesToRead := 0 }
  | .next searchPosition =>
    if R.size op.buffers = R.maxSize op.buffers then
      { op with searchPosition := none, bytesToRead := 0 }
    else
      { op with
        searchPosition := some searchPosition
        bytesToRead := R.bytesToRead op.buffers }

def finish (ec : Option ErrorCode) : Next β α :=
  .handler
    ⟨if op.searchPosition = none then some .notFound else ec,
      if ec ≠ none ∨ op.searchPosition = none then 0 else op.searchPosition.getD 0⟩
    op.buffers

/-- One turn of the loop; without a value it throws. -/
def iterate (start : Bool) (ec : Option ErrorCode) : Option (Next β α) :=
  let op := op.look R
  if start = false ∧ op.bytesToRead = 0 then
    some (op.finish ec)
  else
    (R.extend op.buffers op.bytesToRead).map fun b =>
      .read { op with buffers := b, pos := R.size op.buffers }

/-- The read is complete. -/
def resume (ec : Option ErrorCode) (l : List α) (cancelled : Bool) : Option (Next β α) :=
  let op := { op with buffers := R.receive op.buffers op.pos op.bytesToRead l }
  if ec ≠ none ∨ l.length = 0 then
    some (op.finish ec)
  else if cancelled then
    some (op.finish (some .operationAborted))
  else
    op.iterate R false ec

end ReadUntilDelimStringOp

/-- The stream completes up to `k` reads of an operation that nobody cancels. -/
def complete [DecidableEq α] (R : ReadBuffer β α) (stream : ReadStream σ α) :
    Nat → Next β α → σ → Option (Result × β × σ)
  | _, .handler result b, s => some (result, b, s)
  | 0, .read _, _ => none
  | k + 1, .read op, s =>
    let (l, ec, s') := stream.readSome s op.bytesToRead
    (op.resume R ec l false).bind fun next => complete R stream k next s'

def ReadBuffer.asyncReadUntil [DecidableEq α] (R : ReadBuffer β α) (stream : ReadStream σ α)
    (k : Nat) (delim : List α) (b : β) (s : σ) : Option (Result × β × σ) :=
  ((⟨b, delim, some 0, 0, 0⟩ : ReadUntilDelimStringOp β α).iterate R true none).bind fun next =>
    complete R stream k next s

def DynamicBufferV1.asyncReadUntil [DecidableEq α] (B : DynamicBufferV1 β α)
    (stream : ReadStream σ α) (k : Nat) (delim : List α) (b : β) (s : σ) :
    Option (Result × β × σ) :=
  B.readBuffer.asyncReadUntil stream k delim b s

def DynamicBufferV2.asyncReadUntil [DecidableEq α] (B : DynamicBufferV2 β α)
    (stream : ReadStream σ α) (k : Nat) (delim : List α) (b : β) (s : σ) :
    Option (Result × β × σ) :=
  B.readBuffer.asyncReadUntil stream k delim b s

end Asio
