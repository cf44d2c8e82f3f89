import Asio.BufferCopy

/-! The adapters for buffer sequences, and how they bring the bytes of a sequence together. -/

universe u

namespace Asio.Detail.BufferSequenceAdapter

open BufferCopy

variable {α : Type u}

/-- The kinds of sequences that there are adapters for. -/
inductive Sequence (α : Type u)
  | single (b : List α)
  | array (first second : List α)
  | generic (buffers : List (List α))

namespace Sequence

def buffers : Sequence α → List (List α)
  | single b => [b]
  | array first second => [first, second]
  | generic buffers => buffers

def bytes (s : Sequence α) : List α := s.buffers.flatten

def linearisationStorageSize : Sequence α → Nat
  | single _ => 1
  | array _ _ => 8192
  | generic _ => 8192

end Sequence

/-- A buffer of the sequence, or the start of the storage with the bytes that are there. -/
inductive Linear (α : Type u)
  | buffer (b : List α)
  | storage (bytes : List α)

def Linear.bytes : Linear α → List α
  | buffer b => b
  | storage bytes => bytes

/-- The loop, with so much unused storage at the end of the region. -/
def lineariseFrom (region : List α) (unused : Nat) : List (List α) → Linear α
  | [] => .storage (region.take (region.length - unused))
  | b :: rest =>
    if unused ≠ 0 then
      if b.length = 0 then
        lineariseFrom region unused rest
      else if unused = region.length ∧ (rest.isEmpty ∨ unused ≤ b.length) then
        .buffer b
      else
        let r := bufferCopy1 region (region.length - unused) unused b
        lineariseFrom r.2 (unused - r.1) rest
    else
      .storage (region.take (region.length - unused))

def Sequence.linearise (storage : List α) : Sequence α → Linear α
  | .single b => .buffer b
  | .array first second =>
    if first.length = 0 then .buffer second
    else if second.length = 0 then .buffer first
    else
      let r := bufferCopy none (.one storage) (.multiple [first, second])
      .storage (r.2.flatten.take r.1)
  | .generic buffers => lineariseFrom storage storage.length buffers

/-! ### What is returned -/

/-- The first bytes of the sequence: a buffer with nothing before it, or what fits the storage. -/
inductive Linearised (size : Nat) (bytes : List α) : Linear α → Prop
  | buffer {b rest : List α} : bytes = b ++ rest → (bytes ≠ [] → b ≠ []) →
      Linearised size bytes (.buffer b)
  | storage : Linearised size bytes (.storage (bytes.take size))

section Spec

variable {region copied storage : List α} {size unused : Nat} {bytes : List α} {out : Linear α}

theorem Linearised.isPrefix (h : Linearised size bytes out) : out.bytes <+: bytes := by
  cases h with
  | buffer hbytes _ => exact ⟨_, hbytes.symm⟩
  | storage => exact List.take_prefix size bytes

theorem Linearised.ne_nil (h : Linearised size bytes out) (hsize : size ≠ 0) (hne : bytes ≠ []) :
    out.bytes ≠ [] := by
  cases h with
  | buffer _ hb => exact hb hne
  | storage =>
    rw [Linear.bytes, Ne, List.take_eq_nil_iff, not_or]
    exact ⟨hsize, hne⟩

theorem Linearised.length (h : Linearised size bytes (.storage copied)) :
    copied.length = min size bytes.length := by
  cases h
  exact List.length_take

/-- Where the copies so far have come to. -/
structure Filled (region : List α) (unused : Nat) (copied : List α) : Prop where
  room : unused = region.length - copied.length
  bytes : region.take (region.length - unused) = copied.take region.length

theorem Filled.offset (h : Filled region unused copied) :
    region.length - unused = min region.length copied.length := by
  have := h.room
  omega

theorem filled_nil (region : List α) : Filled region region.length [] where
  room := rfl
  bytes := by rw [Nat.sub_self, List.take_zero, List.take_nil]

/-- What one buffer adds. -/
theorem Filled.copy (h : Filled region unused copied) (b : List α) :
    Filled (bufferCopy1 region (region.length - unused) unused b).2
      (unused - (bufferCopy1 region (region.length - unused) unused b).1) (copied ++ b) ∧
    (bufferCopy1 region (region.length - unused) unused b).2.length = region.length := by
  have hunused := h.room
  have hcount := length_take_min b unused
  have hle : region.length - unused + (b.take (min unused b.length)).length ≤ region.length := by
    omega
  rw [bufferCopy1_eq]
  refine ⟨⟨?_, ?_⟩, length_memcpy hle⟩
  · rw [length_memcpy hle, List.length_append, hunused]
    omega
  · rw [length_memcpy hle]
    have hoffset : (region.take (region.length - unused)).length = region.length - unused := by
      rw [List.length_take]
      omega
    have hend : region.length - (unused - min unused b.length) =
        (region.take (region.length - unused) ++ b.take (min unused b.length)).length := by
      rw [List.length_append, hoffset, hcount]
      omega
    rw [hend, memcpy, List.take_left, h.bytes, List.take_append]
    congr 1
    rw [List.take_eq_take_iff, hunused]
    omega

theorem lineariseFrom_spec {rest : List (List α)} (h : Filled region unused copied) :
    Linearised region.length (copied ++ rest.flatten) (lineariseFrom region unused rest) := by
  induction rest generalizing region unused copied with
  | nil =>
    rw [lineariseFrom, h.bytes, List.flatten_nil, List.append_nil]
    exact .storage
  | cons b rest ih =>
    rw [lineariseFrom]
    split
    · rename_i hroom
      split
      · rename_i hb
        rw [List.flatten_cons, List.length_eq_zero_iff.mp hb, List.nil_append]
        exact ih h
      · rename_i hb
        have hne : b ≠ [] := fun hnil => hb (by rw [hnil, List.length_nil])
        split
        · rename_i hdirect
          -- All of the storage is unused, so nothing comes before this buffer.
          have hcopied : copied = [] := by
            have := h.room
            exact List.length_eq_zero_iff.mp (by omega)
          rw [hcopied]
          exact .buffer rfl fun _ => hne
        · obtain ⟨hfilled, hlength⟩ := h.copy b
          have := ih hfilled
          rwa [hlength, List.append_assoc] at this
    · rename_i hfull
      -- The storage is full of what has been copied.
      have hlong : region.length ≤ copied.length := by
        have := h.room
        omega
      have hall : (copied ++ (b :: rest).flatten).take region.length =
          copied.take region.length := List.take_append_of_le_length hlong
      rw [h.bytes, ← hall]
      exact .storage

/-- What a copy to a region leaves at its start. -/
theorem take_bufferCopy (storage : List α) (sources : List (List α)) :
    (bufferCopy none (.one storage) (.multiple sources)).2.flatten.take
        (bufferCopy none (.one storage) (.multiple sources)).1 =
      sources.flatten.take storage.length := by
  have hcopied : Copied none [storage] sources
      (bufferCopy none (.one storage) (.multiple sources)) := oneMultiple_copied none
  have hbytes := hcopied.bytes
  have hcount : (bufferCopy none (.one storage) (.multiple sources)).1 =
      min [storage].flatten.length sources.flatten.length := hcopied.count
  rw [List.flatten_singleton] at hcount
  change _ = sources.flatten.take _ ++ _ at hbytes
  rw [hbytes, hcount, List.take_left' (by rw [List.length_take]; omega)]
  rw [List.take_eq_take_iff]
  omega

theorem linearise_spec (s : Sequence α) (storage : List α) :
    Linearised storage.length s.bytes (s.linearise storage) := by
  cases s with
  | single b => exact .buffer rfl fun hne hb => hne (by rw [hb]; rfl)
  | array first second =>
    have hbytes : (Sequence.array first second).bytes = first ++ second := by
      rw [Sequence.bytes, Sequence.buffers, List.flatten_cons, List.flatten_singleton]
    have htake := take_bufferCopy storage [first, second]
    rw [Sequence.linearise]
    split
    · rename_i hfirst
      rw [hbytes, List.length_eq_zero_iff.mp hfirst, List.nil_append]
      exact .buffer (List.append_nil _).symm id
    · rename_i hfirst
      split
      · rw [hbytes]
        exact .buffer rfl fun _ hnil => hfirst (by rw [hnil, List.length_nil])
      · dsimp only
        rw [htake]
        exact .storage
  | generic buffers => exact lineariseFrom_spec (filled_nil storage)

end Spec

end Asio.Detail.BufferSequenceAdapter
