import Asio.DynamicBuffer
import Asio.Lib.Simulation

/-! The dynamic buffers over a string and over a vector, as both versions of the requirements use
them, and the bounded queue that they are. -/

universe u

namespace Asio

open BasicStreambuf (resize length_resize take_resize)

/-! ### The calls -/

inductive Version
  | v1 | v2
  deriving DecidableEq

/-- The calls of each version; `write` is what a caller stores in the output sequence, and `writeAt`
in the memory that `dataAt` represents. -/
inductive DynamicCall (α : Type u) : Version → Type u
  | prepare (n : Nat) : DynamicCall α .v1
  | write (pos : Nat) (l : List α) : DynamicCall α .v1
  | commit (n : Nat) : DynamicCall α .v1
  | data : DynamicCall α .v1
  | grow (n : Nat) : DynamicCall α .v2
  | shrink (n : Nat) : DynamicCall α .v2
  | dataAt (pos n : Nat) : DynamicCall α .v2
  | writeAt (pos : Nat) (l : List α) : DynamicCall α .v2
  | consume {v : Version} (n : Nat) : DynamicCall α v

/-- Whether the call threw `length_error`, the bytes it represents, and the size after it. -/
structure DynamicAnswer (α : Type u) where
  lengthError : Bool
  bytes : List α
  size : Nat
  deriving DecidableEq

/-! ### The two adapters -/

/-- A container and the fields beside it. `sizeField` is `none` for the largest `size_t`. -/
structure DynamicContainer (α : Type u) where
  container : List α
  sizeField : Option Nat
  maxSize : Nat
  deriving DecidableEq

namespace DynamicContainer

variable {α : Type u}

def construct (container : List α) (maxSize : Nat) : DynamicContainer α := ⟨container, none, maxSize⟩

def size (s : DynamicContainer α) : Nat :=
  match s.sizeField with
  | some size => size
  | none => min s.container.length s.maxSize

def data (s : DynamicContainer α) : List α :=
  match s.sizeField with
  | some size => s.container.take size
  | none => s.container

def dataAt (s : DynamicContainer α) (pos n : Nat) : List α :=
  ((s.container.take s.maxSize).drop pos).take n

section Resizing

variable [Inhabited α]

def prepare (s : DynamicContainer α) (n : Nat) : Option (DynamicContainer α) :=
  if s.size > s.maxSize ∨ s.maxSize - s.size < n then
    none
  else
    let size := s.sizeField.getD s.container.length
    some { s with sizeField := some size, container := resize s.container (size + n) }

/-- `size_` wraps around when it is still the largest `size_t`, and a container cannot be resized to
that. -/
def commit (s : DynamicContainer α) (n : Nat) : Option (DynamicContainer α) :=
  match s.sizeField with
  | some size =>
    let size := size + min n (s.container.length - size)
    some { s with sizeField := some size, container := resize s.container size }
  | none =>
    match min n (s.container.length + 1) with
    | 0 => none
    | size + 1 => some { s with sizeField := some size, container := resize s.container size }

def grow (s : DynamicContainer α) (n : Nat) : Option (DynamicContainer α) :=
  if s.size > s.maxSize ∨ s.maxSize - s.size < n then
    none
  else
    some { s with container := resize s.container (s.size + n) }

def shrink (s : DynamicContainer α) (n : Nat) : DynamicContainer α :=
  { s with container := resize s.container (if n > s.size then 0 else s.size - n) }

end Resizing

/-- `dynamic_string_buffer::consume`. -/
def consumeString (s : DynamicContainer α) (n : Nat) : DynamicContainer α :=
  match s.sizeField with
  | some size =>
    let consumeLength := min n size
    { s with container := s.container.drop consumeLength, sizeField := some (size - consumeLength) }
  | none => { s with container := s.container.drop n }

/-- `dynamic_vector_buffer::consume`. -/
def consumeVector (s : DynamicContainer α) (n : Nat) : DynamicContainer α :=
  match s.sizeField with
  | some size =>
    let consumeLength := min n size
    { s with container := s.container.drop consumeLength, sizeField := some (size - consumeLength) }
  | none => { s with container := s.container.drop (min s.size n) }

/-- The caller stores from the start of the output sequence on. -/
def write (s : DynamicContainer α) (pos : Nat) (l : List α) : DynamicContainer α :=
  { s with container := Asio.writeAt s.container (s.sizeField.getD 0 + pos) l }

def writeAt (s : DynamicContainer α) (pos : Nat) (l : List α) : DynamicContainer α :=
  { s with container := Asio.writeAt s.container pos l }

/-- What a call that may throw leaves behind, and its answer. -/
def answer (s : DynamicContainer α) (result : Option (DynamicContainer α))
    (bytes : DynamicContainer α → List α) : DynamicContainer α × DynamicAnswer α :=
  match result with
  | some s' => (s', ⟨false, bytes s', s'.size⟩)
  | none => (s, ⟨true, [], s.size⟩)

variable [Inhabited α] {v : Version}

/-- A call of an adapter, which only differ in `consume`. -/
def call (consume : DynamicContainer α → Nat → DynamicContainer α) (s : DynamicContainer α) :
    DynamicCall α v → DynamicContainer α × DynamicAnswer α
  | .prepare n => s.answer (s.prepare n) fun s' => (s'.container.drop (s'.sizeField.getD 0)).take n
  | .write pos l => s.answer (some (s.write pos l)) fun _ => []
  | .commit n => s.answer (s.commit n) fun _ => []
  | .data => s.answer (some s) data
  | .grow n => s.answer (s.grow n) fun _ => []
  | .shrink n => s.answer (some (s.shrink n)) fun _ => []
  | .dataAt pos n => s.answer (some s) fun s => s.dataAt pos n
  | .writeAt pos l => s.answer (some (s.writeAt pos l)) fun _ => []
  | .consume n => s.answer (some (consume s n)) fun _ => []

def callString (s : DynamicContainer α) (c : DynamicCall α v) :
    DynamicContainer α × DynamicAnswer α :=
  s.call consumeString c

def callVector (s : DynamicContainer α) (c : DynamicCall α v) :
    DynamicContainer α × DynamicAnswer α :=
  s.call consumeVector c

/-- A caller stores only in the buffers that it has been given. -/
def Legal (s : DynamicContainer α) : DynamicCall α v → Prop
  | .write pos l => s.sizeField.getD 0 + pos + l.length ≤ s.container.length ∧ s.sizeField ≠ none
  | .writeAt pos l => pos + l.length ≤ s.size
  | _ => True

/-- A container that is longer than `max_size` is left alone, and `commit` follows a `prepare`. -/
def Within (s : DynamicContainer α) : DynamicCall α v → Prop
  | .prepare n => s.sizeField = none → n = 0 → s.container.length ≤ s.maxSize
  | .commit _ => s.sizeField ≠ none
  | .data => s.sizeField = none → s.container.length ≤ s.maxSize
  | .consume n => s.sizeField = none → n ≠ 0 → s.container.length ≤ s.maxSize
  | _ => True

instance (s : DynamicContainer α) (c : DynamicCall α v) : Decidable (s.Legal c) := by
  induction c using DynamicCall.casesOn <;> dsimp only [Legal] <;> infer_instance

instance (s : DynamicContainer α) (c : DynamicCall α v) : Decidable (s.Within c) := by
  induction c using DynamicCall.casesOn <;> dsimp only [Within] <;> infer_instance

end DynamicContainer

/-! ### The bounded queue -/

/-- The input sequence, and the output sequence of the first version. -/
structure BoundedQueue (α : Type u) where
  input : List α
  output : List α
  maxSize : Nat
  bounded : input.length + output.length ≤ maxSize

namespace BoundedQueue

variable {α : Type u} {v : Version}

def start (l : List α) (maxSize : Nat) : BoundedQueue α where
  input := l.take maxSize
  output := []
  maxSize := maxSize
  bounded := by
    rw [List.length_take]
    exact Nat.min_le_left ..

variable [Inhabited α]

def prepare (q : BoundedQueue α) (n : Nat) (h : ¬q.maxSize < q.input.length + n) :
    BoundedQueue α :=
  { q with
    output := resize q.output n
    bounded := by
      rw [length_resize]
      omega }

def write (q : BoundedQueue α) (pos : Nat) (l : List α) : BoundedQueue α :=
  { q with
    output := Asio.writeAt q.output pos l
    bounded := by
      rw [length_writeAt]
      exact q.bounded }

def commit (q : BoundedQueue α) (n : Nat) : BoundedQueue α :=
  { q with
    input := q.input ++ q.output.take n
    output := []
    bounded := by
      have := q.bounded
      simp only [List.length_append, List.length_take, List.length_nil]
      omega }

def grow (q : BoundedQueue α) (n : Nat) (h : ¬q.maxSize < q.input.length + n) : BoundedQueue α :=
  { q with
    input := q.input ++ List.replicate n default
    output := []
    bounded := by
      simp only [List.length_append, List.length_replicate, List.length_nil]
      omega }

def shrink (q : BoundedQueue α) (n : Nat) : BoundedQueue α :=
  { q with
    input := q.input.take (q.input.length - n)
    bounded := by
      have := q.bounded
      rw [List.length_take]
      omega }

def writeAt (q : BoundedQueue α) (pos : Nat) (l : List α) : BoundedQueue α :=
  { q with
    input := Asio.writeAt q.input pos l
    bounded := by
      rw [length_writeAt]
      exact q.bounded }

def consume (q : BoundedQueue α) (n : Nat) : BoundedQueue α :=
  { q with
    input := q.input.drop n
    bounded := by
      have := q.bounded
      rw [List.length_drop]
      omega }

def answer (q : BoundedQueue α) (bytes : List α) : BoundedQueue α × DynamicAnswer α :=
  (q, ⟨false, bytes, q.input.length⟩)

def call (q : BoundedQueue α) : DynamicCall α v → BoundedQueue α × DynamicAnswer α
  | .prepare n =>
    if h : q.maxSize < q.input.length + n then
      (q, ⟨true, [], q.input.length⟩)
    else
      (q.prepare n h).answer (q.prepare n h).output
  | .write pos l => (q.write pos l).answer []
  | .commit n => (q.commit n).answer []
  | .data => q.answer q.input
  | .grow n =>
    if h : q.maxSize < q.input.length + n then
      (q, ⟨true, [], q.input.length⟩)
    else
      (q.grow n h).answer []
  | .shrink n => (q.shrink n).answer []
  | .dataAt pos n => q.answer ((q.input.drop pos).take n)
  | .writeAt pos l => (q.writeAt pos l).answer []
  | .consume n => (q.consume n).answer []

end BoundedQueue

/-! ### The adapters are bounded queues -/

namespace DynamicContainer

variable {α : Type u}

/-- What a container holds. The second version has no output sequence. -/
structure Holds (v : Version) (s : DynamicContainer α) (q : BoundedQueue α) : Prop where
  maxSize : q.maxSize = s.maxSize
  field : ∀ size, s.sizeField = some size →
    size ≤ s.container.length ∧ q.input = s.container.take size ∧ q.output = s.container.drop size
  noField : s.sizeField = none → q.input = s.container.take s.maxSize ∧ q.output = []
  version : v = .v2 → s.sizeField = none

variable {v : Version} {s : DynamicContainer α} {q : BoundedQueue α}

theorem holds_start (l : List α) (maxSize : Nat) :
    Holds v (construct l maxSize) (BoundedQueue.start l maxSize) where
  maxSize := rfl
  field _ h := by cases h
  noField _ := ⟨rfl, rfl⟩
  version _ := rfl

theorem Holds.length_input (h : Holds v s q) : q.input.length = s.size := by
  cases hfield : s.sizeField with
  | none =>
    rw [(h.noField hfield).1, List.length_take, size, hfield, Nat.min_comm]
  | some size =>
    obtain ⟨hle, hinput, -⟩ := h.field size hfield
    rw [hinput, List.length_take, DynamicContainer.size, hfield, Nat.min_eq_left hle]

theorem Holds.size_le (h : Holds v s q) : s.size ≤ s.maxSize := by
  have := q.bounded
  rw [h.length_input, h.maxSize] at this
  omega

theorem Holds.tooLong_iff (h : Holds v s q) (n : Nat) :
    (s.size > s.maxSize ∨ s.maxSize - s.size < n) ↔ q.maxSize < q.input.length + n := by
  have := h.size_le
  rw [h.length_input, h.maxSize]
  omega

/-- The calls leave related states behind and answer alike. -/
def Agrees (v : Version) (r : DynamicContainer α × DynamicAnswer α)
    (r' : BoundedQueue α × DynamicAnswer α) : Prop :=
  r.2 = r'.2 ∧ Holds v r.1 r'.1

theorem Holds.agrees {s' : DynamicContainer α} {q' : BoundedQueue α} (h : Holds v s' q')
    {bytes : DynamicContainer α → List α} {l : List α} (hbytes : bytes s' = l) :
    Agrees v (s.answer (some s') bytes) (q'.answer l) :=
  ⟨by rw [answer, BoundedQueue.answer, hbytes, h.length_input], h⟩

theorem Holds.agrees_error (h : Holds v s q) (bytes : DynamicContainer α → List α) :
    Agrees v (s.answer none bytes) (q, ⟨true, [], q.input.length⟩) :=
  ⟨by rw [answer, h.length_input], h⟩

/-- The container is the input sequence followed by the output sequence. -/
theorem Holds.parts (h : Holds v s q)
    (hlong : s.sizeField = none → s.container.length ≤ s.maxSize) :
    s.sizeField.getD s.container.length ≤ s.container.length ∧
      q.input = s.container.take (s.sizeField.getD s.container.length) ∧
      q.output = s.container.drop (s.sizeField.getD s.container.length) := by
  cases hfield : s.sizeField with
  | some size => exact h.field size hfield
  | none =>
    obtain ⟨hinput, houtput⟩ := h.noField hfield
    refine ⟨Nat.le_refl _, ?_, ?_⟩
    · rw [hinput, Option.getD_none, List.take_length, List.take_of_length_le (hlong hfield)]
    · rw [houtput, Option.getD_none, List.drop_length]

section Calls

variable [Inhabited α] {n : Nat}

theorem resize_of_le {l : List α} (h : n ≤ l.length) : resize l n = l.take n := by
  rw [resize, Nat.sub_eq_zero_of_le h, List.replicate_zero, List.append_nil]

theorem resize_of_length_le {l : List α} (h : l.length ≤ n) :
    resize l n = l ++ List.replicate (n - l.length) default := by
  rw [resize, List.take_of_length_le h]

theorem drop_resize {l : List α} {k : Nat} (h : k ≤ l.length) (n : Nat) :
    (resize l (k + n)).drop k = resize (l.drop k) n := by
  rw [resize, resize, List.drop_append_of_le_length, List.drop_take, List.length_drop,
    Nat.add_sub_cancel_left]
  · congr 2
    omega
  · rw [List.length_take]
    omega

theorem Holds.prepare (h : Holds .v1 s q)
    (hwithin : s.sizeField = none → n = 0 → s.container.length ≤ s.maxSize) :
    Agrees .v1 (s.call consumeString (.prepare n)) (q.call (.prepare n)) := by
  have hiff := h.tooLong_iff n
  simp only [call, DynamicContainer.prepare, BoundedQueue.call]
  by_cases hlong : q.maxSize < q.input.length + n
  · rw [if_pos (hiff.mpr hlong), dif_pos hlong]
    exact h.agrees_error _
  · have hnot := mt hiff.mp hlong
    rw [if_neg hnot, dif_neg hlong]
    have hfits : s.sizeField = none → s.container.length ≤ s.maxSize := by
      intro hfield
      by_contra hlt
      refine hlt (hwithin hfield ?_)
      have hsize : s.size = min s.container.length s.maxSize := by simp only [size, hfield]
      omega
    obtain ⟨hle, hinput, houtput⟩ := h.parts hfits
    refine Holds.agrees ?_ ?_
    · refine ⟨h.maxSize, ?_, by rintro ⟨⟩, by rintro ⟨⟩⟩
      rintro _ ⟨⟩
      refine ⟨?_, ?_, ?_⟩
      · rw [length_resize]
        omega
      · rw [take_resize _ (Nat.le_add_right ..) hle]
        exact hinput
      · rw [drop_resize hle, ← houtput]
        rfl
    · simp only [Option.getD_some]
      rw [drop_resize hle, ← houtput, List.take_of_length_le (by rw [length_resize])]
      rfl

theorem Holds.write (h : Holds .v1 s q) {pos : Nat} {l : List α} (hfield : s.sizeField ≠ none) :
    Agrees .v1 (s.call consumeString (.write pos l)) (q.call (.write pos l)) := by
  obtain ⟨size, hsize⟩ := Option.ne_none_iff_exists'.mp hfield
  obtain ⟨hle, hinput, houtput⟩ := h.field size hsize
  refine Holds.agrees ?_ rfl
  refine ⟨h.maxSize, ?_, ?_, ?_⟩
  · intro size' hsize'
    obtain rfl : size = size' := Option.some.inj (hsize.symm.trans hsize')
    simp only [DynamicContainer.write, BoundedQueue.write, hsize, Option.getD_some,
      length_writeAt]
    refine ⟨hle, ?_, ?_⟩
    · rw [take_writeAt _ _ (Nat.le_add_right ..), hinput]
    · rw [drop_writeAt, houtput]
  · exact fun hnone => absurd hnone hfield
  · rintro ⟨⟩

theorem Holds.commit (h : Holds .v1 s q) (hfield : s.sizeField ≠ none) :
    Agrees .v1 (s.call consumeString (.commit n)) (q.call (.commit n)) := by
  obtain ⟨size, hsize⟩ := Option.ne_none_iff_exists'.mp hfield
  obtain ⟨hle, hinput, houtput⟩ := h.field size hsize
  have hroom : size + min n (s.container.length - size) ≤ s.container.length := by omega
  simp only [call, DynamicContainer.commit, hsize, BoundedQueue.call]
  refine Holds.agrees ?_ rfl
  refine ⟨h.maxSize, ?_, ?_, ?_⟩
  · rintro _ ⟨⟩
    simp only [resize_of_le hroom, BoundedQueue.commit, List.length_take]
    refine ⟨by omega, ?_, ?_⟩
    · rw [List.take_take, Nat.min_self, List.take_add, hinput, houtput]
      congr 1
      rw [List.take_eq_take_iff, List.length_drop]
      omega
    · rw [List.drop_eq_nil_of_le]
      rw [List.length_take]
      omega
  · rintro ⟨⟩
  · rintro ⟨⟩

theorem Holds.grow (h : Holds .v2 s q) :
    Agrees .v2 (s.call consumeString (.grow n)) (q.call (.grow n)) := by
  have hfield := h.version rfl
  obtain ⟨hinput, -⟩ := h.noField hfield
  have hiff := h.tooLong_iff n
  simp only [call, DynamicContainer.grow, BoundedQueue.call]
  by_cases hlong : q.maxSize < q.input.length + n
  · rw [if_pos (hiff.mpr hlong), dif_pos hlong]
    exact h.agrees_error _
  · have hnot := mt hiff.mp hlong
    rw [if_neg hnot, dif_neg hlong]
    refine Holds.agrees ?_ rfl
    refine ⟨h.maxSize, ?_, ?_, fun _ => hfield⟩
    · intro size hsize
      cases hfield.symm.trans hsize
    · intro _
      refine ⟨?_, rfl⟩
      simp only [BoundedQueue.grow, hinput, size, hfield] at hnot ⊢
      by_cases hle : s.container.length ≤ s.maxSize
      · rw [Nat.min_eq_left hle, resize_of_length_le (Nat.le_add_right ..),
          Nat.add_sub_cancel_left, List.take_of_length_le hle, List.take_of_length_le]
        rw [List.length_append, List.length_replicate]
        omega
      · obtain rfl : n = 0 := by omega
        rw [Nat.min_eq_right (by omega), Nat.add_zero, resize_of_le (by omega), List.take_take,
          Nat.min_self, List.replicate_zero, List.append_nil]

theorem Holds.shrink (h : Holds .v2 s q) :
    Agrees .v2 (s.call consumeString (.shrink n)) (q.call (.shrink n)) := by
  have hfield := h.version rfl
  obtain ⟨hinput, houtput⟩ := h.noField hfield
  have hle := h.size_le
  have hlength : s.size ≤ s.container.length := by
    simp only [size, hfield]
    exact Nat.min_le_left ..
  refine Holds.agrees ?_ rfl
  refine ⟨h.maxSize, ?_, ?_, fun _ => hfield⟩
  · intro size hsize
    cases hfield.symm.trans hsize
  · intro _
    refine ⟨?_, houtput⟩
    have hsub : (if n > s.size then 0 else s.size - n) = s.size - n := by
      split <;> omega
    simp only [BoundedQueue.shrink, DynamicContainer.shrink, hsub]
    rw [h.length_input, hinput, resize_of_le (by omega), List.take_take, List.take_take,
      Nat.min_comm]

theorem Holds.writeAt (h : Holds .v2 s q) {pos : Nat} {l : List α}
    (hlegal : pos + l.length ≤ s.size) :
    Agrees .v2 (s.call consumeString (.writeAt pos l)) (q.call (.writeAt pos l)) := by
  have hfield := h.version rfl
  obtain ⟨hinput, houtput⟩ := h.noField hfield
  refine Holds.agrees ?_ rfl
  refine ⟨h.maxSize, ?_, ?_, fun _ => hfield⟩
  · intro size hsize
    cases hfield.symm.trans hsize
  · intro _
    refine ⟨?_, houtput⟩
    simp only [BoundedQueue.writeAt, DynamicContainer.writeAt]
    rw [hinput, take_writeAt_of_le _ _ (hlegal.trans h.size_le)]

theorem Holds.consume (h : Holds v s q)
    (hwithin : s.sizeField = none → n ≠ 0 → s.container.length ≤ s.maxSize) :
    Agrees v (s.call consumeString (.consume (v := v) n)) (q.call (.consume (v := v) n)) := by
  refine Holds.agrees ?_ rfl
  cases hfield : s.sizeField with
  | some size =>
    obtain ⟨hle, hinput, houtput⟩ := h.field size hfield
    simp only [consumeString, hfield]
    refine ⟨h.maxSize, ?_, ?_, ?_⟩
    · rintro _ ⟨⟩
      simp only [BoundedQueue.consume, List.length_drop]
      refine ⟨by omega, ?_, ?_⟩
      · rw [hinput, List.drop_take]
        rcases Nat.le_total n size with hn | hn
        · rw [Nat.min_eq_left hn]
        · rw [Nat.min_eq_right hn, Nat.sub_self, Nat.sub_eq_zero_of_le hn, List.take_zero,
            List.take_zero]
      · rw [houtput, List.drop_drop]
        congr 1
        omega
    · rintro ⟨⟩
    · intro hv
      cases (h.version hv).symm.trans hfield
  | none =>
    obtain ⟨hinput, houtput⟩ := h.noField hfield
    simp only [consumeString, hfield]
    refine ⟨h.maxSize, ?_, fun _ => ⟨?_, houtput⟩, fun _ => rfl⟩
    · rintro _ ⟨⟩
    · simp only [BoundedQueue.consume, hinput]
      by_cases hn : n = 0
      · rw [hn, List.drop_zero, List.drop_zero]
      · have hle := hwithin hfield hn
        rw [List.take_of_length_le hle, List.take_of_length_le]
        rw [List.length_drop]
        omega

theorem Holds.data (h : Holds .v1 s q)
    (hwithin : s.sizeField = none → s.container.length ≤ s.maxSize) :
    Agrees .v1 (s.call consumeString .data) (q.call .data) := by
  refine Holds.agrees (s := s) h ?_
  cases hfield : s.sizeField with
  | some size => simp only [DynamicContainer.data, hfield, (h.field size hfield).2.1]
  | none =>
    simp only [DynamicContainer.data, hfield, (h.noField hfield).1]
    exact (List.take_of_length_le (hwithin hfield)).symm

theorem Holds.dataAt (h : Holds .v2 s q) (pos : Nat) :
    Agrees .v2 (s.call consumeString (.dataAt pos n)) (q.call (.dataAt pos n)) := by
  refine Holds.agrees (s := s) h ?_
  rw [DynamicContainer.dataAt, (h.noField (h.version rfl)).1]

/-- One call of the string adapter is one call of the queue. -/
theorem Holds.call (h : Holds v s q) {c : DynamicCall α v} (hlegal : s.Legal c)
    (hwithin : s.Within c) : Agrees v (s.callString c) (q.call c) := by
  cases c with
  | prepare n => exact h.prepare hwithin
  | write pos l => exact h.write hlegal.2
  | commit n => exact h.commit hwithin
  | data => exact h.data hwithin
  | grow n => exact h.grow
  | shrink n => exact h.shrink
  | dataAt pos n => exact h.dataAt pos
  | writeAt pos l => exact h.writeAt hlegal
  | consume n => exact h.consume hwithin

theorem callVector_eq (c : DynamicCall α v) (hwithin : s.Within c) :
    s.callVector c = s.callString c := by
  cases c with
  | consume n =>
    have hconsume : s.consumeVector n = s.consumeString n := by
      cases hfield : s.sizeField with
      | some size => simp only [consumeVector, consumeString, hfield]
      | none =>
        have hsize : s.size = min s.container.length s.maxSize := by simp only [size, hfield]
        simp only [consumeVector, consumeString, hfield]
        by_cases hn : n = 0
        · rw [hn, Nat.min_zero]
        · have hle := hwithin hfield hn
          rw [hsize, Nat.min_eq_left hle]
          rcases Nat.le_total s.container.length n with hlong | hshort
          · rw [Nat.min_eq_left hlong, List.drop_length, List.drop_eq_nil_of_le hlong]
          · rw [Nat.min_eq_right hshort]
    simp only [callVector, callString, DynamicContainer.call, hconsume]
  | prepare | write | commit | data | grow | shrink | dataAt | writeAt => rfl

/-! ### Runs -/

open Lib.Simulation

def StepString (s : DynamicContainer α) (c : DynamicCall α v) (r : DynamicAnswer α)
    (t : DynamicContainer α) : Prop :=
  s.Legal c ∧ s.callString c = (t, r)

def StepVector (s : DynamicContainer α) (c : DynamicCall α v) (r : DynamicAnswer α)
    (t : DynamicContainer α) : Prop :=
  s.Legal c ∧ s.callVector c = (t, r)

def StepQueue (q : BoundedQueue α) (c : DynamicCall α v) (r : DynamicAnswer α)
    (q' : BoundedQueue α) : Prop :=
  q.call c = (q', r)

/-- The queue answers with its size, which its maximum size bounds. -/
theorem call_size_le (q : BoundedQueue α) (c : DynamicCall α v) :
    (q.call c).1.maxSize = q.maxSize ∧ (q.call c).2.size ≤ q.maxSize := by
  have hanswer {q' : BoundedQueue α} {l : List α} (h : q'.maxSize = q.maxSize) :
      (q'.answer l).1.maxSize = q.maxSize ∧ (q'.answer l).2.size ≤ q.maxSize := by
    have := q'.bounded
    exact ⟨h, by simp only [BoundedQueue.answer]; omega⟩
  have hthrow : q.input.length ≤ q.maxSize := by
    have := q.bounded
    omega
  cases c with
  | prepare n | grow n =>
    simp only [BoundedQueue.call]
    split
    · exact ⟨rfl, hthrow⟩
    · exact hanswer rfl
  | write | commit | data | shrink | dataAt | writeAt | consume => exact hanswer rfl

theorem size_le_of_run {q q' : BoundedQueue α} {log : List (DynamicCall α v × DynamicAnswer α)}
    (h : Run StepQueue q log q') : ∀ p ∈ log, p.2.size ≤ q.maxSize := by
  induction h with
  | nil =>
    intro p hp
    cases hp
  | @cons q c r q₁ log q' hstep _ ih =>
    have hsize := call_size_le q c
    rw [hstep] at hsize
    intro p hp
    rcases List.mem_cons.mp hp with rfl | hp
    · exact hsize.2
    · rw [← hsize.1]
      exact ih p hp

/-- While a container that is longer than `max_size` is left alone, the two adapters answer alike,
as the bounded queue does, and their size is not above `max_size`. -/
theorem dynamic_buffers_agree {l : List α} {maxSize : Nat} {t : DynamicContainer α}
    {log : List (DynamicCall α v × DynamicAnswer α)}
    (h : Run (fun s c r t => StepString s c r t ∧ s.Within c) (construct l maxSize) log t) :
    Run StepVector (construct l maxSize) log t ∧
      (∃ q, Run StepQueue (BoundedQueue.start l maxSize) log q ∧ Holds v t q) ∧
      ∀ p ∈ log, p.2.size ≤ maxSize := by
  have hvector : Run StepVector (construct l maxSize) log t := by
    refine h.mono fun s c r t ⟨⟨hlegal, hcall⟩, hwithin⟩ => ⟨hlegal, ?_⟩
    rw [callVector_eq c hwithin, hcall]
  obtain ⟨q, hq, hholds⟩ :
      ∃ q, Run StepQueue (BoundedQueue.start l maxSize) log q ∧ Holds v t q := by
    refine h.simulate (holds_start l maxSize) ?_
    intro s c r t q hholds ⟨⟨hlegal, hcall⟩, hwithin⟩
    obtain ⟨hanswer, hnext⟩ := hholds.call hlegal hwithin
    rw [hcall] at hanswer hnext
    exact ⟨(q.call c).1, Prod.ext rfl hanswer.symm, hnext⟩
  exact ⟨hvector, ⟨q, hq, hholds⟩, size_le_of_run hq⟩

/-- Calls of the first version, on a string that `max_size` bounds. -/
def boundedCalls : List (DynamicCall Nat .v1) :=
  [.prepare 2, .write 0 [7, 8], .prepare 3, .commit 1, .consume 2, .data]

def boundedAnswers : List (DynamicAnswer Nat) :=
  [⟨false, [0, 0], 2⟩, ⟨false, [], 2⟩, ⟨true, [], 2⟩, ⟨false, [], 3⟩, ⟨false, [], 1⟩,
    ⟨false, [7], 1⟩]

theorem dynamic_buffers_agree_bounded :
    ∃ (t : DynamicContainer Nat) (log : List (DynamicCall Nat .v1 × DynamicAnswer Nat)),
      Run StepVector (construct [1, 2] 4) log t ∧ log.map Prod.snd = boundedAnswers := by
  have hperform : (perform (fun s c =>
      if s.Legal c ∧ s.Within c then some (s.callString c) else none)
      (construct [1, 2] 4) boundedCalls).map (fun r => r.2.map Prod.snd) =
        some boundedAnswers := by
    decide +kernel
  obtain ⟨⟨t, log⟩, hrun, hlog⟩ := Option.map_eq_some_iff.mp hperform
  refine ⟨t, log, (dynamic_buffers_agree ?_).1, hlog⟩
  exact (run_of_guarded hrun).mono fun s c r t ⟨⟨hlegal, hwithin⟩, hcall⟩ =>
    ⟨⟨hlegal, Option.some.inj hcall⟩, hwithin⟩

/-- With a container that is longer than `max_size` the string and the vector consume differently,
and the first `prepare` makes the size too large. -/
theorem dynamic_buffers_differ :
    (callString (construct [1, 2, 3, 4] 2) (.consume 3 : DynamicCall Nat .v2)).1.container = [4] ∧
      (callVector (construct [1, 2, 3, 4] 2) (.consume 3 : DynamicCall Nat .v2)).1.container =
        [3, 4] ∧
      (callString (construct [1, 2, 3, 4] 2) (.prepare 0)).2 = ⟨false, [], 4⟩ := by
  decide

end Calls

end DynamicContainer

end Asio
