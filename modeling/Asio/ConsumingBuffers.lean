import Mathlib.Data.List.Infix

/-! The buffers of a composed operation that have not been transferred yet. A buffer is the list of
its elements: characters for a write, and the places of characters for a read. -/

universe u u' v

namespace Asio

/-- What a composed operation does with its buffers. -/
structure Consuming (κ : Type u) (γ : Type v) where
  sequence : κ → List γ
  totalConsumed : κ → Nat
  empty : κ → Bool
  prepare : κ → Nat → List (List γ)
  consume : κ → Nat → κ
  empty_iff : empty c = true ↔ (sequence c).length ≤ totalConsumed c
  prepare_prefix : (prepare c m).flatten <+: (sequence c).drop (totalConsumed c)
  prepare_le : (prepare c m).flatten.length ≤ m
  prepare_pos : 0 < m → empty c = false → 0 < (prepare c m).flatten.length
  sequence_consume : sequence (consume c n) = sequence c
  totalConsumed_consume : totalConsumed (consume c n) = totalConsumed c + n

variable {γ : Type v}

/-! ### A list of buffers -/

/-- The loop of `prepare`, with room for so many buffers. -/
def prepareFrom : List (List γ) → Nat → Nat → Nat → List (List γ)
  | [], _, _, _ => []
  | b :: next, elemOffset, maxSize, room =>
    if 0 < maxSize ∧ 0 < room then
      let elem := (b.drop elemOffset).take maxSize
      if 0 < elem.length then
        elem :: prepareFrom next 0 (maxSize - elem.length) (room - 1)
      else
        prepareFrom next 0 (maxSize - elem.length) room
    else
      []

/-- The loop of `consume`, for `next_elem_` and `next_elem_offset_`. -/
def consumeFrom : List (List γ) → Nat → Nat → Nat → Nat × Nat
  | [], nextElem, nextElemOffset, _ => (nextElem, nextElemOffset)
  | b :: next, nextElem, nextElemOffset, size =>
    if 0 < size then
      let nextBuf := b.drop nextElemOffset
      if size < nextBuf.length then
        (nextElem, nextElemOffset + size)
      else
        consumeFrom next (nextElem + 1) 0 (size - nextBuf.length)
    else
      (nextElem, nextElemOffset)

/-- The position is that of the first element that has not been consumed. -/
structure Positioned (buffers : List (List γ)) (totalConsumed nextElem nextElemOffset : Nat) :
    Prop where
  remaining : (buffers.drop nextElem).flatten.drop nextElemOffset =
    buffers.flatten.drop totalConsumed
  offset : ∀ b ∈ (buffers.drop nextElem).head?, nextElemOffset ≤ b.length

structure ConsumingBuffers (γ : Type v) where
  buffers : List (List γ)
  maxBuffers : Nat
  totalConsumed : Nat
  nextElem : Nat
  nextElemOffset : Nat
  positioned : Positioned buffers totalConsumed nextElem nextElemOffset
  room : buffers ≠ [] → 0 < maxBuffers

section Loops

variable {buffers : List (List γ)} {offset size m n room : Nat}

theorem flatten_drop_cons {b : List γ} (h : offset ≤ b.length) :
    (b :: buffers).flatten.drop offset = b.drop offset ++ buffers.flatten := by
  rw [List.flatten_cons, List.drop_append_of_le_length h]

theorem prepareFrom_prefix (h : ∀ b ∈ buffers.head?, offset ≤ b.length) (m room : Nat) :
    (prepareFrom buffers offset m room).flatten <+: buffers.flatten.drop offset ∧
      (prepareFrom buffers offset m room).flatten.length ≤ m := by
  induction buffers generalizing offset m room with
  | nil => exact ⟨List.nil_prefix, Nat.zero_le _⟩
  | cons b next ih =>
    have hrest (m room : Nat) : (prepareFrom next 0 m room).flatten <+: next.flatten ∧
        (prepareFrom next 0 m room).flatten.length ≤ m :=
      ih (fun _ _ => Nat.zero_le _) m room
    rw [flatten_drop_cons (h b rfl)]
    simp only [prepareFrom]
    split
    · split
      · obtain ⟨hsub, hle⟩ := hrest (m - ((b.drop offset).take m).length) (room - 1)
        rw [List.flatten_cons, List.length_append]
        refine ⟨?_, ?_⟩
        · by_cases hm : (b.drop offset).length ≤ m
          · rw [List.take_of_length_le hm] at hsub ⊢
            exact (List.prefix_append_right_inj _).mpr hsub
          · rw [List.length_take, Nat.min_eq_left (by omega), Nat.sub_self] at hle hsub ⊢
            rw [List.length_eq_zero_iff.mp (Nat.eq_zero_of_le_zero hle), List.append_nil]
            exact (List.take_prefix _ _).trans (List.prefix_append ..)
        · rw [List.length_take] at hle ⊢
          omega
      · rename_i hpos hzero
        have hdrop : b.drop offset = [] := by
          rw [List.length_take] at hzero
          exact List.length_eq_zero_iff.mp (by omega)
        obtain ⟨hsub, hle⟩ := hrest (m - ((b.drop offset).take m).length) room
        rw [hdrop] at hsub hle ⊢
        exact ⟨hsub, hle.trans (Nat.sub_le ..)⟩
    · exact ⟨List.nil_prefix, Nat.zero_le _⟩

theorem prepareFrom_pos (hm : 0 < m) (hroom : 0 < room)
    (h : ∀ b ∈ buffers.head?, offset ≤ b.length) (hrest : buffers.flatten.drop offset ≠ []) :
    0 < (prepareFrom buffers offset m room).flatten.length := by
  induction buffers generalizing offset with
  | nil => simp at hrest
  | cons b next ih =>
    rw [flatten_drop_cons (h b rfl)] at hrest
    simp only [prepareFrom, if_pos (And.intro hm hroom)]
    split
    · rename_i hpos
      rw [List.flatten_cons, List.length_append]
      omega
    · rename_i hzero
      rw [List.length_take] at hzero
      have hdrop : b.drop offset = [] := List.length_eq_zero_iff.mp (by omega)
      rw [hdrop, List.nil_append] at hrest
      rw [hdrop, List.take_nil, List.length_nil, Nat.sub_zero]
      exact ih (fun _ _ => Nat.zero_le _) (by rwa [List.drop_zero])

theorem positioned_zero (buffers : List (List γ)) : Positioned buffers 0 0 0 :=
  ⟨rfl, fun _ _ => Nat.zero_le _⟩

theorem Positioned.remaining_cons {b : List γ} {all next : List (List γ)} {t e o : Nat}
    (h : Positioned all t e o) (hdrop : all.drop e = b :: next) :
    b.drop o ++ next.flatten = all.flatten.drop t := by
  have hoffset : o ≤ b.length := h.offset b (by rw [hdrop]; rfl)
  rw [← h.remaining, hdrop, flatten_drop_cons hoffset]

/-- The loop moves the position on by what is consumed. -/
theorem Positioned.consumeFrom {all : List (List γ)} {t e o : Nat} (h : Positioned all t e o)
    (hdrop : all.drop e = buffers) (size : Nat) :
    Positioned all (t + size) (consumeFrom buffers e o size).1
      (consumeFrom buffers e o size).2 := by
  induction buffers generalizing t e o size with
  | nil =>
    have hremaining := h.remaining
    rw [hdrop, List.flatten_nil, List.drop_nil] at hremaining
    refine ⟨?_, h.offset⟩
    simp only [Asio.consumeFrom]
    rw [hdrop, List.flatten_nil, List.drop_nil, ← List.drop_drop, ← hremaining, List.drop_nil]
  | cons b next ih =>
    have hremaining := h.remaining_cons hdrop
    have hoffset : o ≤ b.length := h.offset b (by rw [hdrop]; rfl)
    simp only [Asio.consumeFrom]
    split
    · split
      · rename_i hlt
        rw [List.length_drop] at hlt
        refine ⟨?_, ?_⟩
        · rw [← List.drop_drop, h.remaining, List.drop_drop]
        · rw [hdrop]
          rintro _ ⟨⟩
          omega
      · rename_i hge
        have hnext : Positioned all (t + (b.drop o).length) (e + 1) 0 := by
          refine ⟨?_, fun _ _ => Nat.zero_le _⟩
          rw [List.drop_zero, ← List.tail_drop, hdrop, List.tail_cons, ← List.drop_drop,
            ← hremaining, List.drop_left]
        have := ih hnext (by rw [← List.tail_drop, hdrop, List.tail_cons])
          (size - (b.drop o).length)
        rwa [Nat.add_assoc, Nat.add_sub_cancel' (by omega)] at this
    · rename_i hzero
      obtain rfl : size = 0 := by omega
      exact h

end Loops

namespace ConsumingBuffers

/-- `max_buffers`, for an array and for other sequences. -/
def maxBuffersOf (isArray : Bool) (buffers : List (List γ)) : Nat :=
  if isArray then min buffers.length 16 else 16

def construct (isArray : Bool) (buffers : List (List γ)) : ConsumingBuffers γ where
  buffers := buffers
  maxBuffers := maxBuffersOf isArray buffers
  totalConsumed := 0
  nextElem := 0
  nextElemOffset := 0
  positioned := positioned_zero buffers
  room h := by
    have := List.length_pos_iff.mpr h
    unfold maxBuffersOf
    split <;> omega

def totalSize (c : ConsumingBuffers γ) : Nat := c.buffers.flatten.length

def empty (c : ConsumingBuffers γ) : Bool := c.totalSize ≤ c.totalConsumed

def prepare (c : ConsumingBuffers γ) (maxSize : Nat) : List (List γ) :=
  prepareFrom (c.buffers.drop c.nextElem) c.nextElemOffset maxSize c.maxBuffers

def consume (c : ConsumingBuffers γ) (size : Nat) : ConsumingBuffers γ :=
  let next := consumeFrom (c.buffers.drop c.nextElem) c.nextElem c.nextElemOffset size
  { c with
    totalConsumed := c.totalConsumed + size
    nextElem := next.1
    nextElemOffset := next.2
    positioned := c.positioned.consumeFrom rfl size }

theorem prepare_prefix (c : ConsumingBuffers γ) (m : Nat) :
    (c.prepare m).flatten <+: c.buffers.flatten.drop c.totalConsumed ∧
      (c.prepare m).flatten.length ≤ m := by
  rw [← c.positioned.remaining]
  exact prepareFrom_prefix c.positioned.offset m c.maxBuffers

theorem prepare_pos (c : ConsumingBuffers γ) {m : Nat} (hm : 0 < m) (h : c.empty = false) :
    0 < (c.prepare m).flatten.length := by
  have h : ¬c.buffers.flatten.length ≤ c.totalConsumed := of_decide_eq_false h
  have hrest : c.buffers.flatten.drop c.totalConsumed ≠ [] := by
    rw [Ne, List.drop_eq_nil_iff]
    exact h
  have hbuffers : c.buffers ≠ [] := by
    intro hnil
    rw [hnil] at h
    exact h (Nat.zero_le _)
  rw [← c.positioned.remaining] at hrest
  exact prepareFrom_pos hm (c.room hbuffers) c.positioned.offset hrest

def consuming : Consuming (ConsumingBuffers γ) γ where
  sequence c := c.buffers.flatten
  totalConsumed := totalConsumed
  empty := empty
  prepare := prepare
  consume := consume
  empty_iff := decide_eq_true_iff
  prepare_prefix {c m} := (c.prepare_prefix m).1
  prepare_le {c m} := (c.prepare_prefix m).2
  prepare_pos {_ c} := c.prepare_pos
  sequence_consume := rfl
  totalConsumed_consume := rfl

end ConsumingBuffers

/-! ### One buffer -/

structure ConsumingSingleBuffer (γ : Type v) where
  buffer : List γ
  totalConsumed : Nat

namespace ConsumingSingleBuffer

def construct (buffer : List γ) : ConsumingSingleBuffer γ := ⟨buffer, 0⟩

def empty (c : ConsumingSingleBuffer γ) : Bool := c.buffer.length ≤ c.totalConsumed

def prepare (c : ConsumingSingleBuffer γ) (maxSize : Nat) : List (List γ) :=
  [(c.buffer.drop c.totalConsumed).take maxSize]

def consume (c : ConsumingSingleBuffer γ) (size : Nat) : ConsumingSingleBuffer γ :=
  { c with totalConsumed := c.totalConsumed + size }

def consuming : Consuming (ConsumingSingleBuffer γ) γ where
  sequence := buffer
  totalConsumed := totalConsumed
  empty := empty
  prepare := prepare
  consume := consume
  empty_iff := decide_eq_true_iff
  prepare_prefix := by
    simp only [prepare, List.flatten_singleton]
    exact List.take_prefix ..
  prepare_le := by
    simp only [prepare, List.flatten_singleton, List.length_take]
    omega
  prepare_pos {m c} hm h := by
    simp only [empty, decide_eq_false_iff_not] at h
    simp only [prepare, List.flatten_singleton, List.length_take, List.length_drop]
    omega
  sequence_consume := rfl
  totalConsumed_consume := rfl

end ConsumingSingleBuffer

/-! ### An array of two buffers -/

structure ConsumingTwoBuffers (γ : Type v) where
  buffer0 : List γ
  buffer1 : List γ
  totalConsumed : Nat

namespace ConsumingTwoBuffers

def construct (buffer0 buffer1 : List γ) : ConsumingTwoBuffers γ := ⟨buffer0, buffer1, 0⟩

def empty (c : ConsumingTwoBuffers γ) : Bool :=
  c.buffer0.length + c.buffer1.length ≤ c.totalConsumed

def prepare (c : ConsumingTwoBuffers γ) (maxSize : Nat) : List (List γ) :=
  let result0 := (c.buffer0.drop c.totalConsumed).take maxSize
  let offset1 :=
    if c.totalConsumed < c.buffer0.length then 0 else c.totalConsumed - c.buffer0.length
  [result0, (c.buffer1.drop offset1).take (maxSize - result0.length)]

def consume (c : ConsumingTwoBuffers γ) (size : Nat) : ConsumingTwoBuffers γ :=
  { c with totalConsumed := c.totalConsumed + size }

/-- Over the two buffers it is one transfer. -/
theorem flatten_prepare (c : ConsumingTwoBuffers γ) (m : Nat) : (c.prepare m).flatten =
    ((c.buffer0 ++ c.buffer1).drop c.totalConsumed).take m := by
  have hoffset : (if c.totalConsumed < c.buffer0.length then 0
      else c.totalConsumed - c.buffer0.length) = c.totalConsumed - c.buffer0.length := by
    split <;> omega
  simp only [prepare, hoffset, List.flatten_cons, List.flatten_nil, List.append_nil]
  rw [List.drop_append, List.take_append, List.length_take, List.length_drop]
  congr 2
  omega

def consuming : Consuming (ConsumingTwoBuffers γ) γ where
  sequence c := c.buffer0 ++ c.buffer1
  totalConsumed := totalConsumed
  empty := empty
  prepare := prepare
  consume := consume
  empty_iff {c} := by
    rw [List.length_append]
    exact decide_eq_true_iff
  prepare_prefix {c m} := by
    rw [flatten_prepare]
    exact List.take_prefix ..
  prepare_le {c m} := by
    rw [flatten_prepare, List.length_take]
    omega
  prepare_pos {m c} hm h := by
    simp only [empty, decide_eq_false_iff_not] at h
    rw [flatten_prepare, List.length_take, List.length_drop, List.length_append]
    omega
  sequence_consume := rfl
  totalConsumed_consume := rfl

end ConsumingTwoBuffers

/-! ### The specialisations together -/

def Consuming.sum {κ : Type u} {κ' : Type u'} (C : Consuming κ γ) (D : Consuming κ' γ) :
    Consuming (κ ⊕ κ') γ where
  sequence := Sum.elim C.sequence D.sequence
  totalConsumed := Sum.elim C.totalConsumed D.totalConsumed
  empty := Sum.elim C.empty D.empty
  prepare := Sum.elim C.prepare D.prepare
  consume c n := Sum.map (C.consume · n) (D.consume · n) c
  empty_iff {c} := by
    cases c with
    | inl c => exact C.empty_iff
    | inr d => exact D.empty_iff
  prepare_prefix {c m} := by
    cases c with
    | inl c => exact C.prepare_prefix
    | inr d => exact D.prepare_prefix
  prepare_le {c m} := by
    cases c with
    | inl c => exact C.prepare_le
    | inr d => exact D.prepare_le
  prepare_pos {m c} hm h := by
    cases c with
    | inl c => exact C.prepare_pos hm h
    | inr d => exact D.prepare_pos hm h
  sequence_consume {c n} := by
    cases c with
    | inl c => exact C.sequence_consume
    | inr d => exact D.sequence_consume
  totalConsumed_consume {c n} := by
    cases c with
    | inl c => exact C.totalConsumed_consume
    | inr d => exact D.totalConsumed_consume

/-- The buffer sequences that `consuming_buffers` is specialised for. -/
inductive BufferSequence (γ : Type v)
  | buffers (isArray : Bool) (buffers : List (List γ))
  | single (buffer : List γ)
  | two (buffer0 buffer1 : List γ)

def consumingBuffers : Consuming
    (ConsumingBuffers γ ⊕ ConsumingSingleBuffer γ ⊕ ConsumingTwoBuffers γ) γ :=
  ConsumingBuffers.consuming.sum (ConsumingSingleBuffer.consuming.sum ConsumingTwoBuffers.consuming)

namespace BufferSequence

def concatenated : BufferSequence γ → List γ
  | buffers _ l => l.flatten
  | single b => b
  | two b b' => b ++ b'

def construct : BufferSequence γ →
    ConsumingBuffers γ ⊕ ConsumingSingleBuffer γ ⊕ ConsumingTwoBuffers γ
  | buffers isArray l => .inl (.construct isArray l)
  | single b => .inr (.inl (.construct b))
  | two b b' => .inr (.inr (.construct b b'))

variable (q : BufferSequence γ)

theorem sequence_construct : consumingBuffers.sequence q.construct = q.concatenated := by
  cases q <;> rfl

theorem totalConsumed_construct : consumingBuffers.totalConsumed q.construct = 0 := by
  cases q <;> rfl

end BufferSequence

end Asio
