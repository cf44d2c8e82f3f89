import Asio.DynamicBuffer

/-! The storage of the buffered streams: a window in a vector. -/

universe u

namespace Asio

open BasicStreambuf (memmove length_memmove take_memmove)

structure BufferedStreamStorage (α : Type u) where
  beginOffset : Nat
  endOffset : Nat
  buffer : List α
  begin_le : beginOffset ≤ endOffset
  end_le : endOffset ≤ buffer.length

namespace BufferedStreamStorage

variable {α : Type u}

def construct [Inhabited α] (capacity : Nat) : BufferedStreamStorage α :=
  ⟨0, 0, List.replicate capacity default, Nat.le_refl _, Nat.zero_le _⟩

def size (s : BufferedStreamStorage α) : Nat := s.endOffset - s.beginOffset

def capacity (s : BufferedStreamStorage α) : Nat := s.buffer.length

def empty (s : BufferedStreamStorage α) : Bool := s.beginOffset = s.endOffset

/-- The unread data. -/
def contents (s : BufferedStreamStorage α) : List α := (s.buffer.drop s.beginOffset).take s.size

def clear (s : BufferedStreamStorage α) : BufferedStreamStorage α :=
  ⟨0, 0, s.buffer, Nat.le_refl _, Nat.zero_le _⟩

theorem begin_add_size_le (s : BufferedStreamStorage α) : s.beginOffset + s.size ≤ s.capacity := by
  have := s.begin_le
  have := s.end_le
  simp only [size, capacity]
  omega

def resize (s : BufferedStreamStorage α) (length : Nat) (h : length ≤ s.capacity) :
    BufferedStreamStorage α :=
  if hfits : s.beginOffset + length ≤ s.capacity then
    ⟨s.beginOffset, s.beginOffset + length, s.buffer, Nat.le_add_right .., hfits⟩
  else
    ⟨0, length, memmove s.buffer s.beginOffset s.size, Nat.zero_le _, by
      rw [length_memmove _ s.begin_add_size_le]
      exact h⟩

def consume (s : BufferedStreamStorage α) (count : Nat) (h : count ≤ s.size) :
    BufferedStreamStorage α :=
  if s.beginOffset + count = s.endOffset then
    s.clear
  else
    { s with
      beginOffset := s.beginOffset + count
      begin_le := by
        have := s.begin_le
        simp only [size] at h
        omega }

/-- Store characters from an offset of the unread data on. -/
def store (s : BufferedStreamStorage α) (offset : Nat) (l : List α) : BufferedStreamStorage α :=
  { s with
    buffer := writeAt s.buffer (s.beginOffset + offset) l
    end_le := by
      rw [length_writeAt]
      exact s.end_le }

variable {s : BufferedStreamStorage α} {n : Nat} {l : List α}

theorem length_contents (s : BufferedStreamStorage α) : s.contents.length = s.size := by
  have := s.begin_add_size_le
  simp only [contents, List.length_take, List.length_drop, capacity] at this ⊢
  omega

theorem size_le_capacity (s : BufferedStreamStorage α) : s.size ≤ s.capacity := by
  have := s.begin_add_size_le
  omega

theorem contents_construct [Inhabited α] (capacity : Nat) :
    (construct capacity : BufferedStreamStorage α).contents = [] := rfl

@[simp] theorem capacity_construct [Inhabited α] (capacity : Nat) :
    (construct capacity : BufferedStreamStorage α).capacity = capacity :=
  List.length_replicate ..

@[simp] theorem capacity_resize (h : n ≤ s.capacity) : (s.resize n h).capacity = s.capacity := by
  unfold resize
  split
  · rfl
  · exact length_memmove _ s.begin_add_size_le

@[simp] theorem size_resize (h : n ≤ s.capacity) : (s.resize n h).size = n := by
  unfold resize
  split
  · exact Nat.add_sub_cancel_left ..
  · rfl

@[simp] theorem capacity_consume (h : n ≤ s.size) : (s.consume n h).capacity = s.capacity := by
  unfold consume
  split <;> rfl

@[simp] theorem capacity_store (k : Nat) : (s.store k l).capacity = s.capacity :=
  length_writeAt ..

@[simp] theorem size_store (k : Nat) : (s.store k l).size = s.size := rfl

/-- Resizing keeps the unread data, wherever it moves to. -/
theorem take_contents_resize (h : n ≤ s.capacity) {k : Nat} (hk : k ≤ n) (hs : k ≤ s.size) :
    (s.resize n h).contents.take k = s.contents.take k := by
  have hroom := s.begin_add_size_le
  rw [contents, size_resize h, contents, List.take_take, List.take_take, Nat.min_eq_left hk,
    Nat.min_eq_left hs]
  unfold resize
  split
  · rfl
  · calc
      ((memmove s.buffer s.beginOffset s.size).drop 0).take k =
          ((memmove s.buffer s.beginOffset s.size).take s.size).take k := by
        rw [List.drop_zero, List.take_take, Nat.min_eq_left hs]
      _ = (s.buffer.drop s.beginOffset).take k := by
        rw [take_memmove _ hroom, List.take_take, Nat.min_eq_left hs]

theorem contents_resize_le (h : n ≤ s.capacity) (hn : n ≤ s.size) :
    (s.resize n h).contents = s.contents.take n := by
  rw [← take_contents_resize h (Nat.le_refl n) hn, List.take_of_length_le]
  rw [length_contents, size_resize]

theorem contents_consume (h : n ≤ s.size) : (s.consume n h).contents = s.contents.drop n := by
  have := s.begin_le
  unfold consume
  split
  · rename_i hend
    have hsize : s.size ≤ n := by
      simp only [size]
      omega
    rw [List.drop_eq_nil_of_le (by rwa [length_contents])]
    rfl
  · simp only [contents, size, List.drop_take, List.drop_drop, Nat.sub_sub]

theorem contents_store (k : Nat) :
    (s.store k l).contents = (writeAt (s.buffer.drop s.beginOffset) k l).take s.size := by
  rw [contents, size_store]
  simp only [store, drop_writeAt]

/-- The first characters stay, and what is stored follows them. -/
theorem take_contents_store_add {k : Nat} (h : k + l.length ≤ s.size) :
    (s.store k l).contents.take (k + l.length) = s.contents.take k ++ l := by
  have hroom := s.begin_add_size_le
  rw [contents_store, contents, List.take_take, List.take_take, Nat.min_eq_left h,
    Nat.min_eq_left (Nat.le_of_add_right_le h), take_writeAt_add]
  rw [List.length_drop]
  simp only [capacity] at hroom
  omega

end BufferedStreamStorage

end Asio
