import Asio.BufferedWriteStream

/-! Buffered reading: what upstream has supplied is delivered once and in order. -/

universe u v w

namespace Asio

open Lib.Simulation

/-- `supplied` is what the next layer has returned. -/
structure BufferedReadStream (ρ : Type w) (α : Type v) where
  nextLayer : ρ
  supplied : List α
  storage : BufferedStreamStorage α

namespace BufferedReadStream

variable {ρ : Type w} {α : Type v}

def construct [Inhabited α] (nextLayer : ρ) (capacity : Nat) : BufferedReadStream ρ α :=
  ⟨nextLayer, [], .construct capacity⟩

section Filling

variable (stream : BufferReadStream ρ α) (b : BufferedReadStream ρ α)

/-- The storage, resized to its capacity. -/
def room : BufferedStreamStorage α := b.storage.resize b.storage.capacity (Nat.le_refl _)

/-- What the next layer answers when it is asked to fill the storage. -/
def nextRead : List α × Option ErrorCode × ρ :=
  stream.readSome b.nextLayer [b.room.size - b.storage.size]

theorem size_room : b.room.size = b.storage.capacity := BufferedStreamStorage.size_resize _

theorem size_add_nextRead_le :
    b.storage.size + (b.nextRead stream).1.length ≤ b.storage.capacity := by
  have hread : (b.nextRead stream).1.length ≤ [b.room.size - b.storage.size].sum := stream.le_sum
  have hsize := b.storage.size_le_capacity
  rw [size_room, List.sum_singleton] at hread
  omega

/-- The data that has been read is in the storage, which is resized to a length. -/
def filled (length : Nat) (h : length ≤ b.storage.capacity) : BufferedStreamStorage α :=
  (b.room.store b.storage.size (b.nextRead stream).1).resize length
    (by
      rw [BufferedStreamStorage.capacity_store, room, BufferedStreamStorage.capacity_resize]
      exact h)

def fillWith : BufferedReadStream ρ α :=
  ⟨(b.nextRead stream).2.2, b.supplied ++ (b.nextRead stream).1,
    b.filled stream (b.storage.size + (b.nextRead stream).1.length)
      (b.size_add_nextRead_le stream)⟩

/-- `fill(ec)`. -/
def fill : Nat × Option ErrorCode × BufferedReadStream ρ α :=
  ((b.fillWith stream).storage.size - b.storage.size, (b.nextRead stream).2.1, b.fillWith stream)

/-- `fill()`: the guard resizes the storage again when the next layer throws. -/
def fillThrowing : Except ErrorCode Nat × BufferedReadStream ρ α :=
  match (b.nextRead stream).2.1 with
  | none => (.ok ((b.fillWith stream).storage.size - b.storage.size), b.fillWith stream)
  | some e =>
    (.error e, ⟨(b.nextRead stream).2.2, b.supplied,
      b.filled stream b.storage.size b.storage.size_le_capacity⟩)

/-- An asynchronous fill and its completion. -/
def asyncFill : Nat × Option ErrorCode × BufferedReadStream ρ α :=
  ((b.nextRead stream).1.length, (b.nextRead stream).2.1, b.fillWith stream)

end Filling

section Copying

variable (b : BufferedReadStream ρ α) (m : Nat)

/-- The data that `m` places have room for. -/
def peekCopy : List α := b.storage.contents.take m

theorem length_peekCopy_le : (b.peekCopy m).length ≤ b.storage.size := by
  rw [peekCopy, List.length_take, BufferedStreamStorage.length_contents]
  exact Nat.min_le_right ..

def copy : List α × BufferedReadStream ρ α :=
  (b.peekCopy m, { b with
    storage := b.storage.consume (b.peekCopy m).length (b.length_peekCopy_le m) })

end Copying

section Reading

variable (stream : BufferReadStream ρ α) (b : BufferedReadStream ρ α) (m : Nat)

/-- `read_some(buffers, ec)`, for buffers with `m` places. -/
def readSome : List α × Option ErrorCode × BufferedReadStream ρ α :=
  if m = 0 then
    ([], none, b)
  else if b.storage.empty then
    let (filled, ec, b) := b.fill stream
    if filled = 0 then
      ([], ec, b)
    else
      ((b.copy m).1, ec, (b.copy m).2)
  else
    ((b.copy m).1, none, (b.copy m).2)

/-- `read_some(buffers)`. -/
def readSomeThrowing : Except ErrorCode (List α) × BufferedReadStream ρ α :=
  if m = 0 then
    (.ok [], b)
  else if b.storage.empty then
    match b.fillThrowing stream with
    | (.ok _, b) => (.ok (b.copy m).1, (b.copy m).2)
    | (.error e, b) => (.error e, b)
  else
    (.ok (b.copy m).1, (b.copy m).2)

/-- `peek(buffers, ec)`. -/
def peek : List α × Option ErrorCode × BufferedReadStream ρ α :=
  if b.storage.empty then
    let (filled, ec, b) := b.fill stream
    if filled = 0 then
      ([], ec, b)
    else
      (b.peekCopy m, ec, b)
  else
    (b.peekCopy m, none, b)

/-- `peek(buffers)`. -/
def peekThrowing : Except ErrorCode (List α) × BufferedReadStream ρ α :=
  if b.storage.empty then
    match b.fillThrowing stream with
    | (.ok _, b) => (.ok (b.peekCopy m), b)
    | (.error e, b) => (.error e, b)
  else
    (.ok (b.peekCopy m), b)

/-- The handler of an asynchronous read. -/
def readSomeHandler (ec : Option ErrorCode) : List α × Option ErrorCode × BufferedReadStream ρ α :=
  if ec ≠ none ∨ b.storage.empty then
    ([], ec, b)
  else
    ((b.copy m).1, ec, (b.copy m).2)

/-- An asynchronous read and its completion. -/
def asyncReadSome : List α × Option ErrorCode × BufferedReadStream ρ α :=
  if m = 0 ∨ ¬b.storage.empty then
    let out := stream.readSome b.nextLayer [0]
    readSomeHandler ⟨out.2.2, b.supplied ++ out.1, b.storage⟩ m out.2.1
  else
    let (_, ec, b) := b.asyncFill stream
    b.readSomeHandler m ec

end Reading

/-! ### Calls -/

inductive Call
  | fill
  | fillThrowing
  | asyncFill
  | readSome (m : Nat)
  | readSomeThrowing (m : Nat)
  | asyncReadSome (m : Nat)
  | peek (m : Nat)
  | peekThrowing (m : Nat)

/-- The data that a call returns, and an error that it reports or throws. -/
structure Answer (α : Type v) where
  data : List α
  ec : Option ErrorCode
  deriving DecidableEq

def Answer.ofExcept : Except ErrorCode (List α) → Answer α
  | .ok l => ⟨l, none⟩
  | .error e => ⟨[], some e⟩

def call (stream : BufferReadStream ρ α) (b : BufferedReadStream ρ α) :
    Call → BufferedReadStream ρ α × Answer α
  | .fill => ((b.fill stream).2.2, ⟨[], (b.fill stream).2.1⟩)
  | .fillThrowing =>
    ((b.fillThrowing stream).2, .ofExcept ((b.fillThrowing stream).1.map fun _ => []))
  | .asyncFill => ((b.asyncFill stream).2.2, ⟨[], (b.asyncFill stream).2.1⟩)
  | .readSome m =>
    ((b.readSome stream m).2.2, ⟨(b.readSome stream m).1, (b.readSome stream m).2.1⟩)
  | .readSomeThrowing m =>
    ((b.readSomeThrowing stream m).2, .ofExcept (b.readSomeThrowing stream m).1)
  | .asyncReadSome m =>
    ((b.asyncReadSome stream m).2.2, ⟨(b.asyncReadSome stream m).1, (b.asyncReadSome stream m).2.1⟩)
  | .peek m => ((b.peek stream m).2.2, ⟨(b.peek stream m).1, (b.peek stream m).2.1⟩)
  | .peekThrowing m => ((b.peekThrowing stream m).2, .ofExcept (b.peekThrowing stream m).1)

/-- The data that a call delivers; what is peeked at is still to come. -/
def Call.delivered (answer : Answer α) : Call → List α
  | .readSome _ | .readSomeThrowing _ | .asyncReadSome _ => answer.data
  | _ => []

/-! ### Conservation -/

section Conservation

variable {stream : BufferReadStream ρ α} {b b' : BufferedReadStream ρ α} {m : Nat}

/-- A call that delivers `l`, after the next layer may have supplied something: what it delivers
and leaves in the storage is what was there and what has been supplied. -/
structure Gives (b : BufferedReadStream ρ α) (l : List α) (b' : BufferedReadStream ρ α) :
    Prop where
  supplied : ∃ news, b'.supplied = b.supplied ++ news ∧
    l ++ b'.storage.contents = b.storage.contents ++ news
  capacity : b'.storage.capacity = b.storage.capacity

theorem gives_nil (b : BufferedReadStream ρ α) : Gives b [] b :=
  ⟨⟨[], (List.append_nil _).symm, (List.append_nil _).symm⟩, rfl⟩

theorem Gives.trans {b'' : BufferedReadStream ρ α} {l l' : List α} (h : Gives b l b')
    (h' : Gives b' l' b'') : Gives b (l ++ l') b'' := by
  obtain ⟨news, hsupplied, hcontents⟩ := h.supplied
  obtain ⟨news', hsupplied', hcontents'⟩ := h'.supplied
  refine ⟨⟨news ++ news', ?_, ?_⟩, h'.capacity.trans h.capacity⟩
  · rw [hsupplied', hsupplied, List.append_assoc]
  · rw [List.append_assoc, hcontents', ← List.append_assoc, hcontents, List.append_assoc]

theorem peekCopy_prefix (b : BufferedReadStream ρ α) (m : Nat) :
    b.peekCopy m ++ b.storage.contents.drop (b.peekCopy m).length = b.storage.contents := by
  obtain ⟨rest, hrest⟩ := List.take_prefix m b.storage.contents
  conv_lhs => rw [← hrest]
  rw [← peekCopy] at hrest ⊢
  rw [List.drop_left, hrest]

theorem gives_copy : Gives b (b.copy m).1 (b.copy m).2 := by
  have hle := b.length_peekCopy_le m
  refine ⟨⟨[], (List.append_nil _).symm, ?_⟩, BufferedStreamStorage.capacity_consume hle⟩
  rw [List.append_nil, copy, BufferedStreamStorage.contents_consume]
  exact b.peekCopy_prefix m

theorem contents_filled {length : Nat} (h : length ≤ b.storage.capacity)
    (hle : length ≤ b.storage.size + (b.nextRead stream).1.length) :
    (b.filled stream length h).contents =
      (b.storage.contents ++ (b.nextRead stream).1).take length := by
  have hroom := b.size_add_nextRead_le stream
  have hsize := b.size_room
  calc
    (b.filled stream length h).contents =
        (b.room.store b.storage.size (b.nextRead stream).1).contents.take length := by
      rw [filled, BufferedStreamStorage.contents_resize_le]
      rwa [BufferedStreamStorage.size_store, hsize]
    _ = ((b.room.store b.storage.size (b.nextRead stream).1).contents.take
          (b.storage.size + (b.nextRead stream).1.length)).take length := by
      rw [List.take_take, Nat.min_eq_left hle]
    _ = (b.room.contents.take b.storage.size ++ (b.nextRead stream).1).take length := by
      rw [BufferedStreamStorage.take_contents_store_add (hsize ▸ hroom)]
    _ = (b.storage.contents ++ (b.nextRead stream).1).take length := by
      rw [room, BufferedStreamStorage.take_contents_resize _ b.storage.size_le_capacity
        (Nat.le_refl _), List.take_of_length_le (Nat.le_of_eq b.storage.length_contents)]

theorem capacity_filled {length : Nat} (h : length ≤ b.storage.capacity) :
    (b.filled stream length h).capacity = b.storage.capacity := by
  rw [filled, BufferedStreamStorage.capacity_resize, BufferedStreamStorage.capacity_store, room,
    BufferedStreamStorage.capacity_resize]

theorem gives_fillWith : Gives b [] (b.fillWith stream) := by
  refine ⟨⟨(b.nextRead stream).1, rfl, ?_⟩, capacity_filled (b.size_add_nextRead_le stream)⟩
  rw [List.nil_append, fillWith, contents_filled _ (Nat.le_refl _), List.take_of_length_le]
  rw [List.length_append, BufferedStreamStorage.length_contents]

theorem gives_fillThrowing : Gives b [] (b.fillThrowing stream).2 := by
  unfold fillThrowing
  split
  · exact gives_fillWith
  · refine ⟨⟨[], (List.append_nil _).symm, ?_⟩, capacity_filled b.storage.size_le_capacity⟩
    rw [List.nil_append, List.append_nil, contents_filled _ (Nat.le_add_right ..),
      List.take_left' b.storage.length_contents]

/-- What a call returns is the next of what is to come, and what it delivers leaves the storage. -/
structure Returns (b : BufferedReadStream ρ α) (c : Call) (a : Answer α)
    (b' : BufferedReadStream ρ α) : Prop where
  gives : Gives b (c.delivered a) b'
  returned : a.data <+: c.delivered a ++ b'.storage.contents

theorem gives_readSome : Gives b (b.readSome stream m).1 (b.readSome stream m).2.2 := by
  have hfill : Gives b [] (b.fill stream).2.2 := gives_fillWith
  simp only [readSome]
  split
  · exact gives_nil b
  · split
    · split
      · exact hfill
      · exact hfill.trans gives_copy
    · exact gives_copy

theorem gives_readSomeThrowing : Gives b (Answer.ofExcept (b.readSomeThrowing stream m).1).data
    (b.readSomeThrowing stream m).2 := by
  have hfill : Gives b [] (b.fillThrowing stream).2 := gives_fillThrowing
  simp only [readSomeThrowing]
  split
  · exact gives_nil b
  · split
    · split
      · rename_i heq
        rw [heq] at hfill
        exact hfill.trans gives_copy
      · rename_i heq
        rw [heq] at hfill
        exact hfill
    · exact gives_copy

theorem gives_readSomeHandler (ec : Option ErrorCode) :
    Gives b (b.readSomeHandler m ec).1 (b.readSomeHandler m ec).2.2 := by
  unfold readSomeHandler
  split
  · exact gives_nil b
  · exact gives_copy

theorem gives_asyncReadSome :
    Gives b (b.asyncReadSome stream m).1 (b.asyncReadSome stream m).2.2 := by
  simp only [asyncReadSome]
  split
  · have hnone : (stream.readSome b.nextLayer [0]).1 = [] :=
      List.length_eq_zero_iff.mp (Nat.eq_zero_of_le_zero stream.le_sum)
    have hnext : Gives b [] ⟨(stream.readSome b.nextLayer [0]).2.2,
        b.supplied ++ (stream.readSome b.nextLayer [0]).1, b.storage⟩ := by
      rw [hnone, List.append_nil]
      exact ⟨⟨[], (List.append_nil _).symm, (List.append_nil _).symm⟩, rfl⟩
    exact hnext.trans (gives_readSomeHandler _)
  · exact gives_fillWith.trans (gives_readSomeHandler _)

theorem gives_peek : Gives b [] (b.peek stream m).2.2 ∧
    (b.peek stream m).1 <+: (b.peek stream m).2.2.storage.contents := by
  have hfill : Gives b [] (b.fill stream).2.2 := gives_fillWith
  simp only [peek]
  split
  · split
    · exact ⟨hfill, List.nil_prefix⟩
    · exact ⟨hfill, List.take_prefix ..⟩
  · exact ⟨gives_nil b, List.take_prefix ..⟩

theorem gives_peekThrowing : Gives b [] (b.peekThrowing stream m).2 ∧
    (Answer.ofExcept (b.peekThrowing stream m).1).data <+:
      (b.peekThrowing stream m).2.storage.contents := by
  have hfill : Gives b [] (b.fillThrowing stream).2 := gives_fillThrowing
  simp only [peekThrowing]
  split
  · split
    · rename_i heq
      rw [heq] at hfill
      exact ⟨hfill, List.take_prefix ..⟩
    · rename_i heq
      rw [heq] at hfill
      exact ⟨hfill, List.nil_prefix⟩
  · exact ⟨gives_nil b, List.take_prefix ..⟩

theorem returns_call (c : Call) : Returns b c (b.call stream c).2 (b.call stream c).1 := by
  cases c with
  | fill | asyncFill => exact ⟨gives_fillWith, List.nil_prefix⟩
  | fillThrowing =>
    refine ⟨gives_fillThrowing, ?_⟩
    simp only [call]
    cases (b.fillThrowing stream).1 <;> exact List.nil_prefix
  | readSome m => exact ⟨gives_readSome, List.prefix_append ..⟩
  | readSomeThrowing m => exact ⟨gives_readSomeThrowing, List.prefix_append ..⟩
  | asyncReadSome m => exact ⟨gives_asyncReadSome, List.prefix_append ..⟩
  | peek m => exact ⟨gives_peek.1, gives_peek.2⟩
  | peekThrowing m => exact ⟨gives_peekThrowing.1, gives_peekThrowing.2⟩

def Step (stream : BufferReadStream ρ α) (b : BufferedReadStream ρ α) (c : Call) (a : Answer α)
    (b' : BufferedReadStream ρ α) : Prop :=
  b.call stream c = (b', a)

def delivered (log : List (Call × Answer α)) : List α := log.flatMap fun p => p.1.delivered p.2

/-- Every call returns data from where the last delivery stopped. -/
def InOrder (upstream : List α) : List (Call × Answer α) → Prop
  | [] => True
  | (c, a) :: log => a.data <+: upstream ∧ InOrder (upstream.drop (c.delivered a).length) log

theorem gives_run {log : List (Call × Answer α)} (h : Run (Step stream) b log b') :
    ∃ news, b'.supplied = b.supplied ++ news ∧
      delivered log ++ b'.storage.contents = b.storage.contents ++ news ∧
      InOrder (b.storage.contents ++ news) log ∧ b'.storage.capacity = b.storage.capacity := by
  induction h with
  | nil => exact ⟨[], (List.append_nil _).symm, (List.append_nil _).symm, trivial, rfl⟩
  | @cons b c a b₁ log b' hstep _ ih =>
    have hreturns : Returns b c (b.call stream c).2 (b.call stream c).1 := returns_call c
    rw [hstep] at hreturns
    obtain ⟨news, hsupplied, hcontents⟩ := hreturns.gives.supplied
    obtain ⟨news', hsupplied', hcontents', horder, hcapacity⟩ := ih
    have hupstream : c.delivered a ++ (b₁.storage.contents ++ news') =
        b.storage.contents ++ (news ++ news') := by
      rw [← List.append_assoc, hcontents, List.append_assoc]
    refine ⟨news ++ news', ?_, ?_, ⟨?_, ?_⟩, hcapacity.trans hreturns.gives.capacity⟩
    · rw [hsupplied', hsupplied, List.append_assoc]
    · rw [← hupstream, ← hcontents', ← List.append_assoc]
      rfl
    · rw [← hupstream, ← List.append_assoc]
      exact hreturns.returned.trans (List.prefix_append ..)
    · rw [← hupstream, List.drop_left]
      exact horder

end Conservation

end BufferedReadStream

/-! ### Both streams -/

/-- The buffered streams keep the bytes: what calls report as written has been passed on or is in
the storage, unless a throwing call fails halfway; and what upstream has supplied has been delivered
or is in the storage. -/
theorem buffered_streams {ρ : Type w} {α : Type v} [Inhabited α] (capacity : Nat) :
    (∀ (stream : BufferWriteStream ρ α) (nextLayer : Writing ρ α)
      (log : List (BufferedWriteStream.Call α × BufferedWriteStream.Answer))
      (b : BufferedWriteStream ρ α),
      Run (fun b c a b' => b.Step stream c a b' ∧ b.Retriable stream c)
        (.construct nextLayer capacity) log b →
      b.nextLayer.written ++ b.storage.contents =
          nextLayer.written ++ BufferedWriteStream.reported log ∧
        b.storage.capacity = capacity ∧ b.storage.size ≤ capacity) ∧
    ∀ (stream : BufferReadStream ρ α) (nextLayer : ρ)
      (log : List (BufferedReadStream.Call × BufferedReadStream.Answer α))
      (b : BufferedReadStream ρ α),
      Run (BufferedReadStream.Step stream) (.construct nextLayer capacity) log b →
      BufferedReadStream.delivered log ++ b.storage.contents = b.supplied ∧
        BufferedReadStream.InOrder b.supplied log ∧
        b.storage.capacity = capacity ∧ b.storage.size ≤ capacity := by
  have hempty : (BufferedStreamStorage.construct capacity : BufferedStreamStorage α).contents =
      [] := BufferedStreamStorage.contents_construct capacity
  have hcapacity : (BufferedStreamStorage.construct capacity : BufferedStreamStorage α).capacity =
      capacity := BufferedStreamStorage.capacity_construct capacity
  refine ⟨fun stream nextLayer log b h => ?_, fun stream nextLayer log b h => ?_⟩
  · have htakes := BufferedWriteStream.takes_run h
    have hcap := htakes.capacity.trans hcapacity
    refine ⟨?_, hcap, hcap ▸ b.storage.size_le_capacity⟩
    have htotal := htakes.total
    rw [BufferedWriteStream.total, BufferedWriteStream.total, BufferedWriteStream.construct,
      hempty, List.append_nil] at htotal
    exact htotal
  · obtain ⟨news, hsupplied, hcontents, horder, hcap⟩ := BufferedReadStream.gives_run h
    rw [BufferedReadStream.construct] at hsupplied hcontents horder hcap
    rw [List.nil_append] at hsupplied
    rw [hempty, List.nil_append, ← hsupplied] at hcontents horder
    rw [hcapacity] at hcap
    exact ⟨hcontents, horder, hcap, hcap ▸ b.storage.size_le_capacity⟩

/-- A stream that accepts one byte, then fails, then accepts everything. -/
def flakyStream : BufferWriteStream Nat Nat where
  writeSome r buffers :=
    match r with
    | 0 => (min 1 buffers.flatten.length, none, 1)
    | 1 => (0, some .operationAborted, 2)
    | r => (buffers.flatten.length, none, r)
  le_length {r buffers} := by
    match r with
    | 0 => exact Nat.min_le_right ..
    | 1 => exact Nat.zero_le _
    | r + 2 => exact Nat.le_refl _
  pos {r buffers} hpos hnone := by
    match r with
    | 0 => exact Nat.lt_min.mpr ⟨Nat.zero_lt_one, hpos⟩
    | 1 => cases hnone
    | r + 2 => exact hpos

/-- Calls that flush twice, because the stream fails at first. -/
def retriedCalls : List (BufferedWriteStream.Call Nat) :=
  [.writeSome [7, 8], .flush, .writeSomeThrowing [9], .flushThrowing]

theorem buffered_streams_retried : ∃ (b : BufferedWriteStream Nat Nat)
    (log : List (BufferedWriteStream.Call Nat × BufferedWriteStream.Answer)),
    BufferedWriteStream.reported log = [7, 8, 9] ∧
      b.nextLayer.written ++ b.storage.contents = [] ++ BufferedWriteStream.reported log := by
  have hperform : (perform (fun b c => if BufferedWriteStream.Retriable flakyStream b c then
      BufferedWriteStream.call flakyStream b c else none) (.construct ⟨0, []⟩ 4)
        retriedCalls).map (fun r => BufferedWriteStream.reported r.2) = some [7, 8, 9] := by
    decide +kernel
  obtain ⟨⟨b, log⟩, hrun, hlog⟩ := Option.map_eq_some_iff.mp hperform
  refine ⟨b, log, hlog, ((buffered_streams 4).1 flakyStream ⟨0, []⟩ log b ?_).1⟩
  exact (run_of_guarded hrun).mono fun b c a b' h => ⟨h.2, h.1⟩

/-- After a `flush()` that throws, the next one passes the same byte on again. -/
theorem buffered_streams_flush_throws :
    (perform (BufferedWriteStream.call flakyStream) (.construct ⟨0, []⟩ 4)
      [.writeSome [7, 8], .flushThrowing, .flush]).map
        (fun r => (r.1.nextLayer.written, BufferedWriteStream.reported r.2)) =
      some ([7, 7, 8], [7, 8]) := by
  decide +kernel

end Asio
