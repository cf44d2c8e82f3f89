import Mathlib.Algebra.BigOperators.Group.List.Basic
import Mathlib.Algebra.GroupWithZero.Nat
import Asio.Detail.BufferSequenceAdapter

/-! The native buffers of a sequence: which of its bytes they denote, and when they are taken for
empty. -/

universe u

namespace Asio.Detail.BufferSequenceAdapter

variable {α : Type u}

/-- How many native buffers there may be, and the widths of their lengths and of `size_t`. -/
structure Platform where
  maxBuffers : Nat
  lengthBits : Nat
  sizeBits : Nat
  maxBuffers_pos : 0 < maxBuffers
  lengthBits_le : lengthBits ≤ sizeBits

def maxBuffers (maxIovLen : Nat) : Nat := if 64 < maxIovLen then 64 else maxIovLen

/-- `WSABUF` has a length of 32 bits. -/
def windows : Platform := ⟨maxBuffers 64, 32, 64, by decide, by decide⟩

/-- `iovec` has a length of type `size_t`. -/
def posix (iovMax : Nat) (h : 0 < iovMax) : Platform where
  maxBuffers := maxBuffers iovMax
  lengthBits := 64
  sizeBits := 64
  maxBuffers_pos := by
    unfold maxBuffers
    split <;> omega
  lengthBits_le := Nat.le_refl 64

/-- The buffer of the sequence that the native one points to, and the length. -/
structure NativeBuffer where
  buffer : Nat
  len : Nat

structure Adapter where
  buffers : List NativeBuffer
  totalBufferSize : Nat

namespace Adapter

def count (a : Adapter) : Nat := a.buffers.length

def allEmpty (a : Adapter) : Bool := a.totalBufferSize == 0

end Adapter

namespace Platform

def initNativeBuffer (p : Platform) (i size : Nat) : NativeBuffer := ⟨i, size % 2 ^ p.lengthBits⟩

/-- The loop of `init`, over the sizes of the buffers. -/
def initFrom (p : Platform) (a : Adapter) : List Nat → Adapter
  | [] => a
  | size :: rest =>
    if a.count < p.maxBuffers then
      p.initFrom ⟨a.buffers ++ [p.initNativeBuffer a.count size],
        (a.totalBufferSize + size) % 2 ^ p.sizeBits⟩ rest
    else a

def allEmptyFrom (p : Platform) (i : Nat) : List Nat → Bool
  | [] => true
  | size :: rest =>
    if i < p.maxBuffers then
      if size > 0 then false else p.allEmptyFrom (i + 1) rest
    else true

def adapter (p : Platform) : Sequence α → Adapter
  | .single b => ⟨[p.initNativeBuffer 0 b.length], b.length % 2 ^ p.sizeBits⟩
  | .array first second =>
    ⟨[p.initNativeBuffer 0 first.length, p.initNativeBuffer 1 second.length],
      (first.length + second.length) % 2 ^ p.sizeBits⟩
  | .generic buffers => p.initFrom ⟨[], 0⟩ (buffers.map List.length)

/-- The static function, which goes by the sequence only. -/
def allEmpty (p : Platform) : Sequence α → Bool
  | .single b => b.length == 0
  | .array first second => first.length == 0 && second.length == 0
  | .generic buffers => p.allEmptyFrom 0 (buffers.map List.length)

end Platform

/-! ### The bytes that are denoted -/

/-- The bytes of a buffer, each by the buffer and its place there. -/
def places (i size : Nat) : List (Nat × Nat) := (List.range size).map fun j => (i, j)

def placesFrom (i : Nat) : List Nat → List (Nat × Nat)
  | [] => []
  | size :: rest => places i size ++ placesFrom (i + 1) rest

def Sequence.sizes (s : Sequence α) : List Nat := s.buffers.map List.length

def Sequence.places (s : Sequence α) : List (Nat × Nat) := placesFrom 0 s.sizes

def Adapter.places (a : Adapter) : List (Nat × Nat) :=
  a.buffers.flatMap fun b => BufferSequenceAdapter.places b.buffer b.len

/-- The buffers that have a native one. -/
def Platform.taken (p : Platform) : Sequence α → List Nat
  | .generic buffers => (buffers.map List.length).take p.maxBuffers
  | s => s.sizes

/-- The native buffers denote the first bytes of the sequence, some if there are any, and both
tests tell if there are. -/
structure Denotes (p : Platform) (s : Sequence α) : Prop where
  isPrefix : (p.adapter s).places <+: s.places
  ne_nil : s.places ≠ [] → (p.adapter s).places ≠ []
  allEmpty_iff : (p.adapter s).allEmpty = true ↔ s.places = []
  allEmpty_static_iff : p.allEmpty s = true ↔ s.places = []

/-- No length is cut short before another buffer that has bytes, one of the lengths is not cut to
nothing, and the sum does not come to zero. -/
def Representable (p : Platform) (s : Sequence α) : Prop :=
  (p.taken s).Pairwise (fun n n' => 2 ^ p.lengthBits ≤ n → 2 ^ p.lengthBits ∣ n') ∧
    ((∀ n ∈ s.sizes, n = 0) ∨
      (∃ n ∈ p.taken s, ¬ 2 ^ p.lengthBits ∣ n) ∧ ¬ 2 ^ p.sizeBits ∣ (p.taken s).sum)

/-! ### Places -/

section Places

variable {w i k n : Nat} {sizes rest : List Nat} {x : Nat × Nat}

theorem mem_places : x ∈ places i n ↔ x.1 = i ∧ x.2 < n := by
  rw [places, List.mem_map]
  constructor
  · rintro ⟨j, hj, rfl⟩
    exact ⟨rfl, List.mem_range.mp hj⟩
  · rintro ⟨rfl, hj⟩
    exact ⟨x.2, List.mem_range.mpr hj, rfl⟩

theorem places_eq_nil_iff : places i n = [] ↔ n = 0 := by
  rw [places, List.map_eq_nil_iff, List.range_eq_nil]

theorem placesFrom_eq_nil_iff : placesFrom i sizes = [] ↔ ∀ n ∈ sizes, n = 0 := by
  induction sizes generalizing i with
  | nil => simp [placesFrom]
  | cons n rest ih =>
    rw [placesFrom, List.append_eq_nil_iff, places_eq_nil_iff, ih, List.forall_mem_cons]

/-- The rest of a buffer that is cut short comes before all that follows. -/
theorem places_split (h : k ≤ n) :
    places i n = places i k ++ (List.range' k (n - k)).map fun j => (i, j) := by
  have hrange : List.range n = List.range k ++ List.range' k (n - k) := by
    have := @List.range'_append_1 0 k (n - k)
    rw [Nat.zero_add, Nat.add_sub_cancel' h] at this
    rw [List.range_eq_range', List.range_eq_range', this]
  rw [places, places, hrange, List.map_append]

theorem cut_places_iff (hw : 0 < w) {later all : List (Nat × Nat)} (hlater : ∀ x ∈ later, i < x.1) :
    places i (n % w) ++ later <+: places i n ++ all ↔
      (w ≤ n → later = []) ∧ (n < w → later <+: all) := by
  rcases Nat.lt_or_ge n w with hlt | hge
  · have hnot : ¬ w ≤ n := Nat.not_le.mpr hlt
    rw [Nat.mod_eq_of_lt hlt, List.prefix_append_right_inj]
    simp [hlt, hnot]
  · have hnot : ¬ n < w := Nat.not_lt.mpr hge
    have hcut : n % w < n := Nat.lt_of_lt_of_le (Nat.mod_lt n hw) hge
    rw [places_split hcut.le, List.append_assoc, List.prefix_append_right_inj]
    constructor
    · intro h
      refine ⟨fun _ => ?_, fun hlt => absurd hlt hnot⟩
      cases later with
      | nil => rfl
      | cons x later =>
        obtain ⟨m, hm⟩ := Nat.exists_eq_succ_of_ne_zero (Nat.sub_ne_zero_of_lt hcut)
        rw [hm, List.range'_succ, List.map_cons, List.cons_append, List.cons_prefix_cons] at h
        have := hlater x (List.mem_cons_self ..)
        rw [h.1] at this
        exact absurd this (Nat.lt_irrefl i)
    · rintro ⟨hnil, -⟩
      rw [hnil hge]
      exact List.nil_prefix

/-- What the native buffers for some sizes denote. -/
def cutFrom (w i : Nat) : List Nat → List (Nat × Nat)
  | [] => []
  | size :: rest => places i (size % w) ++ cutFrom w (i + 1) rest

theorem cutFrom_eq_nil_iff : cutFrom w i sizes = [] ↔ ∀ n ∈ sizes, w ∣ n := by
  induction sizes generalizing i with
  | nil => simp [cutFrom]
  | cons n rest ih =>
    rw [cutFrom, List.append_eq_nil_iff, places_eq_nil_iff, ih, List.forall_mem_cons,
      Nat.dvd_iff_mod_eq_zero]

theorem le_of_mem_cutFrom (h : x ∈ cutFrom w i sizes) : i ≤ x.1 := by
  induction sizes generalizing i with
  | nil => cases h
  | cons n rest ih =>
    rw [cutFrom, List.mem_append] at h
    cases h with
    | inl h => exact (mem_places.mp h).1.ge
    | inr h => exact Nat.le_of_succ_le (ih h)

theorem cutFrom_isPrefix_iff (hw : 0 < w) (sizes rest : List Nat) :
    cutFrom w i sizes <+: placesFrom i (sizes ++ rest) ↔
      sizes.Pairwise fun n n' => w ≤ n → w ∣ n' := by
  induction sizes generalizing i with
  | nil => simp [cutFrom]
  | cons n sizes ih =>
    rw [cutFrom, List.cons_append, placesFrom,
      cut_places_iff hw fun x hx => Nat.lt_of_succ_le (le_of_mem_cutFrom hx), ih, cutFrom_eq_nil_iff,
      List.pairwise_cons]
    constructor
    · rintro ⟨hcut, hrest⟩
      refine ⟨fun k hk hge => hcut hge k hk, ?_⟩
      rcases Nat.lt_or_ge n w with hlt | hge
      · exact hrest hlt
      · exact List.pairwise_of_forall_mem_list fun _ _ k hk _ => hcut hge k hk
    · rintro ⟨hcut, hrest⟩
      exact ⟨fun hge k hk => hcut k hk hge, fun _ => hrest⟩

end Places

/-! ### What the loops do -/

section Loops

variable {p : Platform} {s : Sequence α} {i : Nat} {sizes : List Nat} {a : Adapter}

theorem initFrom_spec (p : Platform) (a : Adapter) (sizes : List Nat)
    (hsize : a.totalBufferSize < 2 ^ p.sizeBits) :
    (p.initFrom a sizes).places =
        a.places ++ cutFrom (2 ^ p.lengthBits) a.count (sizes.take (p.maxBuffers - a.count)) ∧
      (p.initFrom a sizes).totalBufferSize =
        (a.totalBufferSize + (sizes.take (p.maxBuffers - a.count)).sum) % 2 ^ p.sizeBits := by
  induction sizes generalizing a with
  | nil =>
    simp [Platform.initFrom, cutFrom, Nat.mod_eq_of_lt hsize]
  | cons n rest ih =>
    rw [Platform.initFrom]
    split
    · rename_i hroom
      obtain ⟨hplaces, htotal⟩ := ih ⟨a.buffers ++ [p.initNativeBuffer a.count n],
        (a.totalBufferSize + n) % 2 ^ p.sizeBits⟩ (Nat.mod_lt _ (Nat.two_pow_pos _))
      have hcount : Adapter.count ⟨a.buffers ++ [p.initNativeBuffer a.count n],
          (a.totalBufferSize + n) % 2 ^ p.sizeBits⟩ = a.count + 1 := List.length_append
      have htake : (n :: rest).take (p.maxBuffers - a.count) =
          n :: rest.take (p.maxBuffers - (a.count + 1)) := by
        rw [show p.maxBuffers - a.count = p.maxBuffers - (a.count + 1) + 1 by omega,
          List.take_succ_cons]
      rw [hplaces, htotal, hcount, htake]
      constructor
      · rw [Adapter.places, List.flatMap_append, List.append_assoc, cutFrom]
        simp [Adapter.places, Platform.initNativeBuffer]
      · rw [List.sum_cons, Nat.mod_add_mod, Nat.add_assoc]
    · rename_i hroom
      rw [show p.maxBuffers - a.count = 0 by omega]
      simp [cutFrom, Nat.mod_eq_of_lt hsize]

theorem allEmptyFrom_iff : p.allEmptyFrom i sizes = true ↔
    ∀ n ∈ sizes.take (p.maxBuffers - i), n = 0 := by
  induction sizes generalizing i with
  | nil => simp [Platform.allEmptyFrom]
  | cons n rest ih =>
    rw [Platform.allEmptyFrom]
    split
    · rw [show p.maxBuffers - i = p.maxBuffers - (i + 1) + 1 by omega, List.take_succ_cons,
        List.forall_mem_cons, ← ih]
      split
      · rename_i hpos
        simp [hpos.ne']
      · rename_i hzero
        simp [Nat.eq_zero_of_not_pos hzero]
    · rename_i hroom
      rw [show p.maxBuffers - i = 0 by omega]
      simp

theorem adapter_spec (p : Platform) (s : Sequence α) :
    (p.adapter s).places = cutFrom (2 ^ p.lengthBits) 0 (p.taken s) ∧
      (p.adapter s).totalBufferSize = (p.taken s).sum % 2 ^ p.sizeBits := by
  cases s with
  | single b =>
    exact ⟨by simp [Platform.adapter, Platform.taken, Sequence.sizes, Sequence.buffers, cutFrom,
      Adapter.places, Platform.initNativeBuffer], by simp [Platform.adapter, Platform.taken,
      Sequence.sizes, Sequence.buffers]⟩
  | array first second =>
    exact ⟨by simp [Platform.adapter, Platform.taken, Sequence.sizes, Sequence.buffers, cutFrom,
      Adapter.places, Platform.initNativeBuffer], by simp [Platform.adapter, Platform.taken,
      Sequence.sizes, Sequence.buffers]⟩
  | generic buffers =>
    have := initFrom_spec p ⟨[], 0⟩ (buffers.map List.length) (Nat.two_pow_pos _)
    simpa [Platform.adapter, Platform.taken, Adapter.places, Adapter.count] using this

theorem allEmpty_iff (p : Platform) (s : Sequence α) :
    p.allEmpty s = true ↔ ∀ n ∈ p.taken s, n = 0 := by
  cases s with
  | single b => simp [Platform.allEmpty, Platform.taken, Sequence.sizes, Sequence.buffers]
  | array first second =>
    simp [Platform.allEmpty, Platform.taken, Sequence.sizes, Sequence.buffers]
  | generic buffers => exact allEmptyFrom_iff

theorem sizes_eq_taken_append (p : Platform) (s : Sequence α) :
    ∃ rest, s.sizes = p.taken s ++ rest := by
  cases s with
  | single b => exact ⟨[], (List.append_nil _).symm⟩
  | array first second => exact ⟨[], (List.append_nil _).symm⟩
  | generic buffers => exact ⟨_, (List.take_append_drop p.maxBuffers _).symm⟩

end Loops

/-! ### Sends and receives -/

inductive ErrorCode
  | badDescriptor | eof | wouldBlock | tryAgain | other (value : Nat)
  deriving DecidableEq

structure SocketState where
  streamOriented : Bool
  userSetNonBlocking : Bool

/-- What the system call answers, and what `poll_read` does if it is called after that. -/
structure Attempt where
  recv : Except ErrorCode Nat
  pollRead : Option ErrorCode

def syncRecvFrom (state : SocketState) : List Attempt → Option (Nat × Option ErrorCode)
  | [] => none
  | attempt :: rest =>
    match attempt.recv with
    | .ok bytes =>
      if state.streamOriented ∧ bytes = 0 then some (0, some .eof) else some (bytes, none)
    | .error ec =>
      if state.userSetNonBlocking ∨ ec ≠ .wouldBlock ∧ ec ≠ .tryAgain then some (0, some ec)
      else
        match attempt.pollRead with
        | some ec => some (0, some ec)
        | none => syncRecvFrom state rest

def syncRecv (invalidSocket : Bool) (state : SocketState) (allEmpty : Bool)
    (attempts : List Attempt) : Option (Nat × Option ErrorCode) :=
  if invalidSocket then some (0, some .badDescriptor)
  else if allEmpty ∧ state.streamOriented then some (0, none)
  else syncRecvFrom state attempts

/-- The errors that `complete_iocp_recv` tells apart. -/
inductive IocpError
  | netnameDeleted | portUnreachable | msgSize | moreData | operationAborted | connectionReset
  | connectionRefused | eof | other (value : Nat)
  deriving DecidableEq

def completeIocpRecv (state : SocketState) (cancelTokenExpired allEmpty : Bool)
    (ec : Option IocpError) (bytesTransferred : Nat) : Option IocpError :=
  match ec with
  | some .netnameDeleted =>
    if cancelTokenExpired then some .operationAborted else some .connectionReset
  | some .portUnreachable => some .connectionRefused
  | some .msgSize | some .moreData => none
  | some ec => some ec
  | none =>
    if bytesTransferred = 0 ∧ state.streamOriented ∧ !allEmpty then some .eof else none

/-- Whether an asynchronous send or receive is started as a no-op. -/
def noop (state : SocketState) (allEmpty : Bool) : Bool := state.streamOriented && allEmpty

/-- As long as the other side has not closed the stream, a receive that has room gets something. -/
def Open (room : List (Nat × Nat)) (bytes : Nat) : Prop := bytes = 0 → room = []

/-- With a sequence that has bytes nothing is a no-op, and the end of the stream is not reported
before the other side has closed it. -/
structure StreamsNonempty (p : Platform) (s : Sequence α) : Prop where
  noop : ∀ nonBlocking, noop ⟨true, nonBlocking⟩ (p.allEmpty s) = false ∧
    BufferSequenceAdapter.noop ⟨true, nonBlocking⟩ (p.adapter s).allEmpty = false
  syncRecv : ∀ invalid nonBlocking attempts n ec,
    (∀ attempt ∈ attempts, ∀ n, attempt.recv = .ok n → Open (p.adapter s).places n) →
    (∀ attempt ∈ attempts, attempt.recv ≠ .error .eof ∧ attempt.pollRead ≠ some .eof) →
    syncRecv invalid ⟨true, nonBlocking⟩ (p.adapter s).allEmpty attempts = some (n, ec) →
    ec ≠ some .eof ∧ (ec = none → n ≠ 0)
  completeIocpRecv : ∀ nonBlocking expired n ec, Open (p.adapter s).places n → ec ≠ some .eof →
    completeIocpRecv ⟨true, nonBlocking⟩ expired (p.adapter s).allEmpty ec n ≠ some .eof

/-- The native buffers denote the bytes of the sequence, and a stream does not mistake them. -/
structure Sound (p : Platform) (s : Sequence α) : Prop where
  denotes : Denotes p s
  streams : s.places ≠ [] → StreamsNonempty p s

section Streams

variable {p : Platform} {s : Sequence α} {state : SocketState} {attempts : List Attempt}
variable {n : Nat} {ec : Option ErrorCode} {room : List (Nat × Nat)}

theorem syncRecvFrom_ne_eof (hroom : room ≠ [])
    (hopen : ∀ attempt ∈ attempts, ∀ n, attempt.recv = .ok n → Open room n)
    (hkernel : ∀ attempt ∈ attempts, attempt.recv ≠ .error .eof ∧ attempt.pollRead ≠ some .eof)
    (h : syncRecvFrom state attempts = some (n, ec)) :
    ec ≠ some .eof ∧ (ec = none → n ≠ 0) := by
  induction attempts with
  | nil => cases h
  | cons attempt rest ih =>
    obtain ⟨hopen, hopenRest⟩ := List.forall_mem_cons.mp hopen
    obtain ⟨hkernel, hkernelRest⟩ := List.forall_mem_cons.mp hkernel
    unfold syncRecvFrom at h
    cases hrecv : attempt.recv with
    | ok bytes =>
      have hbytes : bytes ≠ 0 := fun hzero => hroom (hopen bytes hrecv hzero)
      simp only [hrecv, hbytes, and_false, if_false] at h
      cases h
      exact ⟨by simp, fun _ => hbytes⟩
    | error e =>
      have he : e ≠ .eof := fun heq => hkernel.1 (heq ▸ hrecv)
      simp only [hrecv] at h
      split at h
      · cases h
        exact ⟨fun heq => he (Option.some.inj heq), by simp⟩
      · cases hpoll : attempt.pollRead with
        | none =>
          simp only [hpoll] at h
          exact ih hopenRest hkernelRest h
        | some e' =>
          simp only [hpoll] at h
          cases h
          exact ⟨fun heq => hkernel.2 (hpoll.trans heq), by simp⟩

theorem Denotes.streams (h : Denotes p s) (hne : s.places ≠ []) : StreamsNonempty p s := by
  have hadapter : (p.adapter s).allEmpty = false :=
    Bool.eq_false_iff.mpr fun htrue => hne (h.allEmpty_iff.mp htrue)
  have hstatic : p.allEmpty s = false :=
    Bool.eq_false_iff.mpr fun htrue => hne (h.allEmpty_static_iff.mp htrue)
  refine ⟨fun nonBlocking => ?_, fun invalid nonBlocking attempts n ec hopen hkernel hrecv => ?_,
    fun nonBlocking expired n ec hopen hec => ?_⟩
  · rw [hadapter, hstatic]
    exact ⟨rfl, rfl⟩
  · rw [syncRecv, hadapter] at hrecv
    split at hrecv
    · cases hrecv
      simp
    · rw [if_neg (by simp)] at hrecv
      exact syncRecvFrom_ne_eof (h.ne_nil hne) hopen hkernel hrecv
  · have hn : n ≠ 0 := fun hzero => h.ne_nil hne (hopen hzero)
    cases ec with
    | none => simp [completeIocpRecv, hn]
    | some ec =>
      cases ec with
      | eof => exact absurd rfl hec
      | netnameDeleted => cases expired <;> simp [completeIocpRecv]
      | portUnreachable | msgSize | moreData | operationAborted | connectionReset
      | connectionRefused | other => simp [completeIocpRecv]

theorem allEmpty_eq_true_iff (a : Adapter) : a.allEmpty = true ↔ a.totalBufferSize = 0 :=
  beq_iff_eq

theorem Sequence.places_eq_nil_iff : s.places = [] ↔ ∀ n ∈ s.sizes, n = 0 := placesFrom_eq_nil_iff

/-- A buffer that has a native one is a buffer of the sequence. -/
theorem mem_sizes_of_mem_taken (h : n ∈ p.taken s) : n ∈ s.sizes := by
  obtain ⟨rest, hrest⟩ := sizes_eq_taken_append p s
  rw [hrest]
  exact List.mem_append_left _ h

theorem isPrefix_iff : (p.adapter s).places <+: s.places ↔
    (p.taken s).Pairwise fun n n' => 2 ^ p.lengthBits ≤ n → 2 ^ p.lengthBits ∣ n' := by
  obtain ⟨rest, hrest⟩ := sizes_eq_taken_append p s
  rw [(adapter_spec p s).1, Sequence.places, hrest]
  exact cutFrom_isPrefix_iff (Nat.two_pow_pos _) _ _

/-- The native buffers are sound for just the sequences that they can represent. -/
theorem sound_iff_representable (p : Platform) (s : Sequence α) :
    Sound p s ↔ Representable p s := by
  obtain ⟨hplaces, htotal⟩ := adapter_spec p s
  constructor
  · rintro ⟨h, -⟩
    refine ⟨isPrefix_iff.mp h.isPrefix, ?_⟩
    by_cases hzero : ∀ n ∈ s.sizes, n = 0
    · exact .inl hzero
    · have hne : s.places ≠ [] := fun hnil => hzero (Sequence.places_eq_nil_iff.mp hnil)
      refine .inr ⟨?_, fun hdvd => ?_⟩
      · have hcut := h.ne_nil hne
        rw [hplaces, Ne, cutFrom_eq_nil_iff] at hcut
        simpa using hcut
      · apply hne
        apply h.allEmpty_iff.mp
        rw [allEmpty_eq_true_iff, htotal]
        exact Nat.mod_eq_zero_of_dvd hdvd
  · rintro ⟨hpairwise, hcase⟩
    have hdenotes : Denotes p s := by
      refine ⟨isPrefix_iff.mpr hpairwise, fun hne => ?_, ?_, ?_⟩
      · rw [hplaces, Ne, cutFrom_eq_nil_iff]
        rcases hcase with hzero | ⟨⟨n, hn, hdvd⟩, -⟩
        · exact absurd (Sequence.places_eq_nil_iff.mpr hzero) hne
        · exact fun hall => hdvd (hall n hn)
      · rw [allEmpty_eq_true_iff, htotal, Sequence.places_eq_nil_iff]
        rcases hcase with hzero | ⟨⟨n, hn, hdvd⟩, hsum⟩
        · have hsum : (p.taken s).sum = 0 :=
            List.sum_eq_zero fun n hn => hzero n (mem_sizes_of_mem_taken hn)
          rw [hsum, Nat.zero_mod]
          exact ⟨fun _ => hzero, fun _ => rfl⟩
        · constructor
          · exact fun hmod => absurd (Nat.dvd_of_mod_eq_zero hmod) hsum
          · intro hall
            rw [hall n (mem_sizes_of_mem_taken hn)] at hdvd
            exact absurd (Nat.dvd_zero _) hdvd
      · rw [allEmpty_iff, Sequence.places_eq_nil_iff]
        rcases hcase with hzero | ⟨⟨n, hn, hdvd⟩, -⟩
        · exact ⟨fun _ => hzero, fun _ n hn => hzero n (mem_sizes_of_mem_taken hn)⟩
        · have hne : n ≠ 0 := fun hn0 => hdvd (hn0 ▸ Nat.dvd_zero _)
          exact ⟨fun hall => absurd (hall n hn) hne,
            fun hall => absurd (hall n (mem_sizes_of_mem_taken hn)) hne⟩
    exact ⟨hdenotes, hdenotes.streams⟩

/-- As many empty buffers as there are native ones hide the byte that comes after them. -/
theorem not_sound_of_empty_buffers :
    ¬ ∀ s : Sequence UInt8, Sound (posix 1024 (by decide)) s ∧ Sound windows s := by
  intro h
  have hsound := (h (.generic (List.replicate 64 [] ++ [[0]]))).1
  exact hsound.denotes.ne_nil (by decide) (by decide)

end Streams

end Asio.Detail.BufferSequenceAdapter
