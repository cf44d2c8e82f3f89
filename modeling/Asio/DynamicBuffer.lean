import Asio.BasicStreambuf

/-! The requirements on dynamic buffers, in both versions, and buffers that meet them. -/

universe u v

namespace Asio

set_option linter.unusedSectionVars false

/-- The first version keeps an input sequence and an output sequence; `write` is what a stream does
to the buffers that `prepare` returns. -/
structure DynamicBufferV1 (β : Type u) (α : Type v) where
  size : β → Nat
  maxSize : β → Nat
  capacity : β → Nat
  data : β → List α
  prepare : β → Nat → Option β
  output : β → Nat → List α
  write : β → List α → β
  commit : β → Nat → β
  length_data : (data b).length = size b
  prepare_eq_none : prepare b n = none ↔ maxSize b < size b + n
  maxSize_prepare : prepare b n = some b' → maxSize b' = maxSize b
  data_prepare : prepare b n = some b' → data b' = data b
  length_output : prepare b n = some b' → (output b' n).length = n
  maxSize_write : maxSize (write b l) = maxSize b
  data_write : (output b n).length = n → l.length ≤ n → data (write b l) = data b
  output_write : (output b n).length = n → l.length ≤ n → output (write b l) l.length = l
  maxSize_commit : maxSize (commit b k) = maxSize b
  data_commit : (output b k).length = k → data (commit b k) = data b ++ output b k

/-- The second version represents its memory in place; `write` is what a stream does to the buffers
that `data` returns. -/
structure DynamicBufferV2 (β : Type u) (α : Type v) where
  size : β → Nat
  maxSize : β → Nat
  capacity : β → Nat
  data : β → Nat → Nat → List α
  grow : β → Nat → Option β
  write : β → Nat → List α → β
  shrink : β → Nat → β
  length_data : (data b 0 (size b)).length = size b
  grow_eq_none : grow b n = none ↔ maxSize b < size b + n
  size_grow : grow b n = some b' → size b' = size b + n
  maxSize_grow : grow b n = some b' → maxSize b' = maxSize b
  data_grow : grow b n = some b' → (data b' 0 (size b')).take (size b) = data b 0 (size b)
  maxSize_write : maxSize (write b pos l) = maxSize b
  size_write : pos + l.length ≤ size b → size (write b pos l) = size b
  data_write : pos + l.length ≤ size b →
    (data (write b pos l) 0 (size b)).take (pos + l.length) = (data b 0 (size b)).take pos ++ l
  maxSize_shrink : maxSize (shrink b n) = maxSize b
  size_shrink : n ≤ size b → size (shrink b n) = size b - n
  data_shrink : n ≤ size b →
    data (shrink b n) 0 (size b - n) = (data b 0 (size b)).take (size b - n)

/-! ### Writing in place -/

/-- Store characters from an offset on. -/
def writeAt {α : Type u} (l : List α) (i : Nat) : List α → List α
  | [] => l
  | c :: cs => writeAt (l.set i c) (i + 1) cs

section Writing

variable {α : Type u} (l cs : List α) {i : Nat}

theorem writeAt_cons (i : Nat) (c : α) : writeAt l i (c :: cs) = writeAt (l.set i c) (i + 1) cs :=
  rfl

@[simp] theorem length_writeAt (i : Nat) : (writeAt l i cs).length = l.length := by
  induction cs generalizing l i with
  | nil => rfl
  | cons c cs ih => rw [writeAt_cons, ih, List.length_set]

theorem take_writeAt {k : Nat} (hk : k ≤ i) : (writeAt l i cs).take k = l.take k := by
  induction cs generalizing l i with
  | nil => rfl
  | cons c cs ih => rw [writeAt_cons, ih _ (by omega), List.take_set_of_le hk]

theorem take_writeAt_add (h : i + cs.length ≤ l.length) :
    (writeAt l i cs).take (i + cs.length) = l.take i ++ cs := by
  induction cs generalizing l i with
  | nil => rw [List.append_nil]; rfl
  | cons c cs ih =>
    rw [List.length_cons] at h
    rw [writeAt_cons, List.length_cons, show i + (cs.length + 1) = i + 1 + cs.length by omega,
      ih _ (by rw [List.length_set]; omega), List.take_add_one]
    rw [List.take_set_of_le (Nat.le_refl i), List.getElem?_set_self (by omega)]
    simp

theorem drop_writeAt (k pos : Nat) :
    (writeAt l (k + pos) cs).drop k = writeAt (l.drop k) pos cs := by
  induction cs generalizing l pos with
  | nil => rfl
  | cons c cs ih =>
    rw [writeAt_cons, writeAt_cons, Nat.add_assoc, ih, List.drop_set, if_neg (by omega),
      Nat.add_sub_cancel_left]

theorem take_writeAt_of_le {k : Nat} (h : i + cs.length ≤ k) :
    (writeAt l i cs).take k = writeAt (l.take k) i cs := by
  induction cs generalizing l i with
  | nil => rfl
  | cons c cs ih =>
    rw [List.length_cons] at h
    rw [writeAt_cons, writeAt_cons, ih _ (by omega), List.take_set]

end Writing

/-! ### The stream buffer -/

namespace BasicStreambuf

variable {α : Type u} [Inhabited α]

/-- The stream buffers whose sizes an `int` holds. -/
abbrev Valid (α : Type u) := { s : BasicStreambuf α // s.WellFormed ∧ s.maxSize < 2 ^ 31 }

/-- Characters that a stream stores at the start of the output sequence. -/
def store (s : BasicStreambuf α) (l : List α) : BasicStreambuf α :=
  { s with buffer := writeAt s.buffer s.pptr l }

section Storing

variable {s : BasicStreambuf α} {l : List α}

theorem WellFormed.store (h : s.WellFormed) (l : List α) : (s.store l).WellFormed :=
  ⟨h.eback, h.gptr, h.egptr, h.pptr, h.epptr, (length_writeAt ..).trans h.buffer⟩

theorem WellFormed.data_store (h : s.WellFormed) (l : List α) : (s.store l).data = s.data := by
  have hg := h.gptr_le
  simp only [data, BasicStreambuf.store, List.take_drop, Nat.add_sub_cancel' hg]
  rw [take_writeAt _ _ (Nat.le_refl _)]

/-- The first `n` characters of the output sequence. -/
def prepared (s : BasicStreambuf α) (n : Nat) : List α := s.output (min n (s.epptr - s.pptr))

theorem WellFormed.prepared_store (h : s.WellFormed) (hl : l.length ≤ s.epptr - s.pptr) :
    (s.store l).prepared l.length = l := by
  have hb := h.buffer
  have hp := h.pptr
  rw [prepared, show (s.store l).epptr - (s.store l).pptr = s.epptr - s.pptr from rfl,
    Nat.min_eq_left hl]
  simp only [output, BasicStreambuf.store, List.take_drop]
  rw [take_writeAt_add _ _ (by omega), List.drop_append_of_le_length, List.drop_eq_nil_of_le,
    List.nil_append]
  · simp only [List.length_take]
    omega
  · simp only [List.length_take]
    omega

end Storing

def Valid.prepare (s : Valid α) (n : Nat) : Option (Valid α) :=
  match h : s.val.prepare n with
  | .ok (b, _) =>
    some ⟨b, (prepare_ok s.property.1 h).2.1.wellFormed, by
      rw [(prepare_ok s.property.1 h).2.1.maxSize]
      exact s.property.2⟩
  | .error _ => none

def Valid.store (s : Valid α) (l : List α) : Valid α :=
  ⟨s.val.store l, s.property.1.store l, s.property.2⟩

def Valid.commit (s : Valid α) (n : Nat) : Valid α :=
  ⟨s.val.commit n, (commit_spec s.property.1 s.property.2 rfl).1, by
    rw [(commit_spec s.property.1 s.property.2 rfl).2.1]
    exact s.property.2⟩

theorem Valid.prepare_eq_none (s : Valid α) (n : Nat) :
    s.prepare n = none ↔ s.val.maxSize < s.val.size + n := by
  have hspec := reserve_spec (n := n) s.property.1
  unfold Valid.prepare
  split
  · rename_i b region hb
    obtain ⟨hle, -⟩ := prepare_ok s.property.1 hb
    simp only [reduceCtorEq, false_iff]
    omega
  · rename_i e he
    simp only [true_iff]
    by_contra hn
    rw [if_pos (by omega)] at hspec
    obtain ⟨t, ht, -⟩ := hspec
    simp [BasicStreambuf.prepare, ht, Except.map] at he

end BasicStreambuf

/-! ### The string buffer -/

/-- A string used by the second version, which leaves `size_` alone. -/
structure DynamicStringBuffer (α : Type u) where
  string : List α
  maxSize : Nat
  deriving DecidableEq

namespace DynamicStringBuffer

open BasicStreambuf (resize length_resize take_resize)

variable {α : Type u} [Inhabited α] {b b' : DynamicStringBuffer α} {n pos : Nat} {l : List α}

def size (b : DynamicStringBuffer α) : Nat := min b.string.length b.maxSize

def data (b : DynamicStringBuffer α) (pos n : Nat) : List α :=
  ((b.string.take b.maxSize).drop pos).take n

def grow (b : DynamicStringBuffer α) (n : Nat) : Option (DynamicStringBuffer α) :=
  if b.size > b.maxSize ∨ b.maxSize - b.size < n then
    none
  else
    some { b with string := resize b.string (b.size + n) }

def shrink (b : DynamicStringBuffer α) (n : Nat) : DynamicStringBuffer α :=
  { b with string := resize b.string (if n > b.size then 0 else b.size - n) }

/-- Characters that a stream stores at an offset. -/
def store (b : DynamicStringBuffer α) (pos : Nat) (l : List α) : DynamicStringBuffer α :=
  { b with string := writeAt b.string pos l }

theorem data_size (b : DynamicStringBuffer α) : b.data 0 b.size = b.string.take b.size := by
  rw [data, List.drop_zero, List.take_take, size, Nat.min_assoc, Nat.min_self]

theorem grow_eq_some : b.grow n = some b' ↔
    b.size + n ≤ b.maxSize ∧ { b with string := resize b.string (b.size + n) } = b' := by
  have hle : b.size ≤ b.maxSize := Nat.min_le_right ..
  unfold grow
  split
  · simp only [reduceCtorEq, false_iff, not_and]
    omega
  · rw [Option.some.injEq, iff_and_self]
    omega

theorem size_le_length (b : DynamicStringBuffer α) : b.size ≤ b.string.length :=
  Nat.min_le_left ..

theorem size_le_maxSize (b : DynamicStringBuffer α) : b.size ≤ b.maxSize := Nat.min_le_right ..

theorem size_resized {m : Nat} (hm : m ≤ b.maxSize) :
    ({ b with string := resize b.string m } : DynamicStringBuffer α).size = m := by
  simp only [size, length_resize]
  omega

theorem shrink_eq (hn : n ≤ b.size) :
    b.shrink n = { b with string := resize b.string (b.size - n) } := by
  rw [shrink, if_neg (by omega)]

theorem data_shrink (hn : n ≤ b.size) :
    (b.shrink n).data 0 (b.size - n) = (b.data 0 b.size).take (b.size - n) := by
  have hle := b.size_le_length
  have hmax := b.size_le_maxSize
  have hsize : b.size - n = (b.shrink n).size := by
    rw [shrink_eq hn, size_resized (by omega)]
  calc
    (b.shrink n).data 0 (b.size - n) = (b.shrink n).string.take (b.size - n) := by
      rw [hsize, data_size]
    _ = b.string.take (b.size - n) := by
      rw [shrink_eq hn]
      exact take_resize _ (Nat.le_refl _) (by omega)
    _ = (b.data 0 b.size).take (b.size - n) := by
      rw [data_size, List.take_take, Nat.min_eq_left (Nat.sub_le ..)]

theorem data_grow (h : b.grow n = some b') :
    (b'.data 0 b'.size).take b.size = b.data 0 b.size := by
  obtain ⟨hle, rfl⟩ := grow_eq_some.mp h
  rw [data_size, data_size, size_resized hle, List.take_take, Nat.min_eq_left (Nat.le_add_right ..)]
  exact take_resize _ (Nat.le_add_right ..) b.size_le_length

theorem data_store (h : pos + l.length ≤ b.size) :
    ((b.store pos l).data 0 b.size).take (pos + l.length) = (b.data 0 b.size).take pos ++ l := by
  have hle := b.size_le_length
  have hsize : (b.store pos l).size = b.size := by simp only [size, store, length_writeAt]
  rw [← hsize, data_size, hsize, List.take_take, Nat.min_eq_left h, data_size, List.take_take,
    Nat.min_eq_left (by omega)]
  exact take_writeAt_add _ _ (by omega)

end DynamicStringBuffer

end Asio
