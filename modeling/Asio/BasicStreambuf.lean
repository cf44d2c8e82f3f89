import Mathlib.Algebra.Group.Nat.Defs
import Mathlib.Data.List.Basic
import Mathlib.Order.Lattice

/-! The stream buffer that keeps its input and its output sequence in one vector. -/

universe u

namespace Asio

/-- The pointers of the get and the put area are offsets into the vector. -/
structure BasicStreambuf (α : Type u) where
  maxSize : Nat
  buffer : List α
  eback : Nat
  gptr : Nat
  egptr : Nat
  pptr : Nat
  epptr : Nat
  deriving DecidableEq

namespace BasicStreambuf

structure MutableBuffer where
  start : Nat
  size : Nat
  deriving DecidableEq

/-- `std::length_error`, with the stream buffer as the throw leaves it. -/
structure LengthError (α : Type u) where
  state : BasicStreambuf α

variable {α : Type u}

def bufferDelta : Nat := 128

/-- `static_cast<int>`. -/
def toInt (n : Nat) : Int := (BitVec.ofNat 32 n).toInt

def resize [Inhabited α] (l : List α) (n : Nat) : List α :=
  l.take n ++ List.replicate (n - l.length) default

/-- Move `n` elements from the offset `source` to the start. -/
def memmove (l : List α) (source n : Nat) : List α := (l.drop source).take n ++ l.drop n

def setg (s : BasicStreambuf α) (first next last : Nat) : BasicStreambuf α :=
  { s with eback := first, gptr := next, egptr := last }

def setp (s : BasicStreambuf α) (first last : Nat) : BasicStreambuf α :=
  { s with pptr := first, epptr := last }

def gbump (s : BasicStreambuf α) (n : Int) : BasicStreambuf α :=
  { s with gptr := (s.gptr + n).toNat }

def pbump (s : BasicStreambuf α) (n : Int) : BasicStreambuf α :=
  { s with pptr := (s.pptr + n).toNat }

def size (s : BasicStreambuf α) : Nat := s.pptr - s.gptr

def data (s : BasicStreambuf α) : List α := (s.buffer.drop s.gptr).take (s.pptr - s.gptr)

def commit (s : BasicStreambuf α) (n : Nat) : BasicStreambuf α :=
  let n := min n (s.epptr - s.pptr)
  let s := s.pbump (toInt n)
  s.setg s.eback s.gptr s.pptr

def consume (s : BasicStreambuf α) (n : Nat) : BasicStreambuf α :=
  let s := if s.egptr < s.pptr then s.setg 0 s.gptr s.pptr else s
  let n := if s.pptr < s.gptr + n then s.pptr - s.gptr else n
  s.gbump (toInt n)

/-- The put area's next character becomes `c`. -/
def put (s : BasicStreambuf α) (c : α) : BasicStreambuf α :=
  { s with buffer := s.buffer.set s.pptr c }.pbump 1

section Growth

variable [Inhabited α]

def construct (maximumSize : Nat) : BasicStreambuf α :=
  let pend := min maximumSize bufferDelta
  ({ maxSize := maximumSize, buffer := resize [] (max pend 1), eback := 0, gptr := 0, egptr := 0,
     pptr := 0, epptr := 0 } : BasicStreambuf α).setg 0 0 0 |>.setp 0 pend

def reserve (s : BasicStreambuf α) (n : Nat) : Except (LengthError α) (BasicStreambuf α) :=
  if n ≤ s.epptr - s.pptr then
    .ok s
  else
    let (pnext, s) :=
      if 0 < s.gptr then
        let pnext := s.pptr - s.gptr
        (pnext, { s with buffer := memmove s.buffer s.gptr pnext })
      else
        (s.pptr, s)
    if s.epptr - pnext < n then
      if n ≤ s.maxSize ∧ pnext ≤ s.maxSize - n then
        let pend := pnext + n
        let s := { s with buffer := resize s.buffer (max pend 1) }
        .ok ((s.setg 0 0 pnext).setp pnext pend)
      else
        .error ⟨s⟩
    else
      .ok ((s.setg 0 0 pnext).setp pnext s.epptr)

def prepare (s : BasicStreambuf α) (n : Nat) :
    Except (LengthError α) (BasicStreambuf α × MutableBuffer) :=
  (s.reserve n).map fun s => (s, ⟨s.pptr, n⟩)

/-- The characters of `int_type` other than `eof`, which is `none`. -/
def notEof : Option α → Option α
  | some c => some c
  | none => some default

def overflow (s : BasicStreambuf α) :
    Option α → Except (LengthError α) (BasicStreambuf α × Option α)
  | some c =>
    let reserved :=
      if s.pptr = s.epptr then
        let bufferSize := s.pptr - s.gptr
        if bufferSize < s.maxSize ∧ s.maxSize - bufferSize < bufferDelta then
          s.reserve (s.maxSize - bufferSize)
        else
          s.reserve bufferDelta
      else
        .ok s
    reserved.map fun s => (s.put c, some c)
  | none => .ok (s, notEof none)

def sputc (s : BasicStreambuf α) (c : α) :
    Except (LengthError α) (BasicStreambuf α × Option α) :=
  if s.pptr < s.epptr then .ok (s.put c, some c) else s.overflow (some c)

/-- The get area's next character. -/
def current (s : BasicStreambuf α) : α := s.buffer.getD s.gptr default

def underflow (s : BasicStreambuf α) : BasicStreambuf α × Option α :=
  if s.gptr < s.pptr then
    let s := s.setg 0 s.gptr s.pptr
    (s, some s.current)
  else
    (s, none)

def sgetc (s : BasicStreambuf α) : BasicStreambuf α × Option α :=
  if s.gptr < s.egptr then (s, some s.current) else s.underflow

def uflow (s : BasicStreambuf α) : BasicStreambuf α × Option α :=
  match s.underflow with
  | (s, none) => (s, none)
  | (s, some _) => (s.gbump 1, some s.current)

def sbumpc (s : BasicStreambuf α) : BasicStreambuf α × Option α :=
  if s.gptr < s.egptr then (s.gbump 1, some s.current) else s.uflow

end Growth

/-! ### The layout of the vector -/

structure WellFormed (s : BasicStreambuf α) : Prop where
  eback : s.eback = 0
  gptr : s.gptr ≤ s.egptr
  egptr : s.egptr ≤ s.pptr
  pptr : s.pptr ≤ s.epptr
  epptr : s.epptr ≤ s.maxSize
  buffer : s.buffer.length = max s.epptr 1

section Layout

variable {s s' : BasicStreambuf α} {n : Nat}

theorem toInt_eq (h : n < 2 ^ 31) : toInt n = n := by
  have hn : (BitVec.ofNat 32 n).toNat = n := Nat.mod_eq_of_lt (h.trans (by decide))
  rw [toInt, BitVec.toInt_eq_toNat_of_lt (by omega), hn]

theorem WellFormed.gptr_le (h : s.WellFormed) : s.gptr ≤ s.pptr := h.gptr.trans h.egptr

theorem WellFormed.size_le (h : s.WellFormed) : s.size ≤ s.maxSize :=
  (Nat.sub_le _ _).trans (h.pptr.trans h.epptr)

theorem WellFormed.length_data (h : s.WellFormed) : s.data.length = s.size := by
  have := h.buffer
  have := h.pptr
  simp only [data, size, List.length_take, List.length_drop]
  omega

/-- What is read in the vector from `pptr` on. -/
def output (s : BasicStreambuf α) (n : Nat) : List α := (s.buffer.drop s.pptr).take n

theorem WellFormed.length_output (h : s.WellFormed) (hn : n ≤ s.epptr - s.pptr) :
    (s.output n).length = n := by
  have := h.buffer
  have := h.pptr
  simp only [output, List.length_take, List.length_drop]
  omega

@[simp] theorem length_memmove (l : List α) {source n : Nat} (h : source + n ≤ l.length) :
    (memmove l source n).length = l.length := by
  simp only [memmove, List.length_append, List.length_take, List.length_drop]
  omega

theorem take_memmove (l : List α) {source n : Nat} (h : source + n ≤ l.length) :
    (memmove l source n).take n = (l.drop source).take n := by
  rw [memmove, List.take_append_of_le_length, List.take_take, Nat.min_self]
  simp only [List.length_take, List.length_drop]
  omega

theorem length_resize [Inhabited α] (l : List α) (n : Nat) : (resize l n).length = n := by
  simp only [resize, List.length_append, List.length_take, List.length_replicate]
  omega

theorem take_resize [Inhabited α] (l : List α) {k n : Nat} (hk : k ≤ n) (hl : k ≤ l.length) :
    (resize l n).take k = l.take k := by
  rw [resize, List.take_append_of_le_length, List.take_take, Nat.min_eq_left hk]
  simp only [List.length_take]
  omega

theorem construct_wellFormed [Inhabited α] (maximumSize : Nat) :
    (construct maximumSize : BasicStreambuf α).WellFormed where
  eback := rfl
  gptr := Nat.le_refl 0
  egptr := Nat.le_refl 0
  pptr := Nat.zero_le _
  epptr := Nat.min_le_left ..
  buffer := length_resize ..

/-- A well formed buffer whose pointers are rebuilt over the compacted characters. -/
theorem rebuilt {t : BasicStreambuf α} (hsize : s.size ≤ n) (hmax : n ≤ s.maxSize)
    (hlength : t.buffer.length = max n 1) (htmax : t.maxSize = s.maxSize) :
    ((t.setg 0 0 s.size).setp s.size n).WellFormed where
  eback := rfl
  gptr := Nat.zero_le _
  egptr := Nat.le_refl _
  pptr := hsize
  epptr := htmax ▸ hmax
  buffer := hlength

/-- The characters of `s` moved to the start of the vector. -/
def compacted (s : BasicStreambuf α) : BasicStreambuf α :=
  { s with buffer := memmove s.buffer s.gptr s.size }

theorem compacted_of_gptr_eq (h : s.gptr = 0) : s.compacted = s := by
  have hbuffer : memmove s.buffer s.gptr s.size = s.buffer := by
    rw [h, memmove, List.drop_zero, List.take_append_drop]
  rw [compacted, hbuffer]

theorem reserve_eq [Inhabited α] (s : BasicStreambuf α) (n : Nat) : s.reserve n =
    if n ≤ s.epptr - s.pptr then
      .ok s
    else if s.epptr - s.size < n then
      if n ≤ s.maxSize ∧ s.size ≤ s.maxSize - n then
        .ok ((({ s.compacted with
          buffer := resize s.compacted.buffer (max (s.size + n) 1) } : BasicStreambuf α).setg
            0 0 s.size).setp s.size (s.size + n))
      else
        .error ⟨s.compacted⟩
    else
      .ok ((s.compacted.setg 0 0 s.size).setp s.size s.epptr) := by
  unfold reserve
  by_cases hg : 0 < s.gptr
  · simp only [if_pos hg]
    rfl
  · have hg : s.gptr = 0 := Nat.eq_zero_of_not_pos hg
    rw [compacted_of_gptr_eq hg, size, hg]
    rfl

section Compacted

theorem WellFormed.length_compacted (h : s.WellFormed) :
    s.compacted.buffer.length = max s.epptr 1 := by
  have := h.gptr_le
  have := h.pptr
  have := h.buffer
  rw [compacted, length_memmove, h.buffer]
  rw [size]
  omega

theorem WellFormed.take_compacted (h : s.WellFormed) : s.compacted.buffer.take s.size = s.data := by
  have := h.gptr_le
  have := h.pptr
  have := h.buffer
  apply take_memmove
  rw [size]
  omega

end Compacted

/-- The characters of `s` are kept, and `n` more fit behind them. -/
structure Reserved (s : BasicStreambuf α) (n : Nat) (s' : BasicStreambuf α) : Prop where
  wellFormed : s'.WellFormed
  maxSize : s'.maxSize = s.maxSize
  data : s'.data = s.data
  room : n ≤ s'.epptr - s'.pptr

theorem reserved {t : BasicStreambuf α} {m : Nat}
    (hroom : s.size + n ≤ m) (hmax : m ≤ s.maxSize) (hlength : t.buffer.length = max m 1)
    (htmax : t.maxSize = s.maxSize) (htake : t.buffer.take s.size = s.data) :
    Reserved s n ((t.setg 0 0 s.size).setp s.size m) where
  wellFormed := rebuilt (by omega) hmax hlength htmax
  maxSize := htmax
  data := htake
  room := Nat.le_sub_of_add_le' hroom

/-- `reserve` throws exactly when the characters would no longer fit. -/
theorem reserve_spec [Inhabited α] (h : s.WellFormed) :
    if s.size + n ≤ s.maxSize then ∃ s', s.reserve n = .ok s' ∧ Reserved s n s'
    else ∃ e, s.reserve n = .error e := by
  have hg := h.gptr_le
  have hp := h.pptr
  have he := h.epptr
  have hsize : s.size = s.pptr - s.gptr := rfl
  rw [reserve_eq]
  by_cases hroom : n ≤ s.epptr - s.pptr
  · rw [if_pos (by omega), if_pos hroom]
    exact ⟨s, rfl, h, rfl, rfl, hroom⟩
  · rw [if_neg hroom]
    by_cases hgrow : s.epptr - s.size < n
    · rw [if_pos hgrow]
      by_cases hmax : s.size + n ≤ s.maxSize
      · rw [if_pos hmax, if_pos (by omega)]
        refine ⟨_, rfl, reserved (Nat.le_refl _) hmax (length_resize ..) rfl ?_⟩
        rw [take_resize _ (by omega) (by rw [h.length_compacted]; omega), h.take_compacted]
      · rw [if_neg hmax, if_neg (by omega)]
        exact ⟨_, rfl⟩
    · rw [if_pos (by omega), if_neg hgrow]
      exact ⟨_, rfl, reserved (by omega) he h.length_compacted rfl h.take_compacted⟩

theorem reserve_ok [Inhabited α] (h : s.WellFormed) (hr : s.reserve n = .ok s') :
    s.size + n ≤ s.maxSize ∧ Reserved s n s' := by
  have hspec := reserve_spec (n := n) h
  split at hspec
  · rename_i hmax
    obtain ⟨t, ht, hres⟩ := hspec
    rw [hr] at ht
    cases ht
    exact ⟨hmax, hres⟩
  · obtain ⟨e, he⟩ := hspec
    rw [hr] at he
    cases he

/-! ### What the operations do to the two sequences -/

/-- Only the first `k` characters of the get area are gone. -/
structure Advanced (s : BasicStreambuf α) (k : Nat) (s' : BasicStreambuf α) : Prop where
  wellFormed : s'.WellFormed
  maxSize : s'.maxSize = s.maxSize
  buffer : s'.buffer = s.buffer
  gptr : s'.gptr = s.gptr + k
  pptr : s'.pptr = s.pptr
  epptr : s'.epptr = s.epptr

theorem Advanced.data (h : Advanced s n s') : s'.data = s.data.drop n := by
  rw [BasicStreambuf.data, BasicStreambuf.data, h.buffer, h.gptr, h.pptr, List.drop_take,
    List.drop_drop, Nat.sub_add_eq]

theorem Advanced.output (h : Advanced s n s') (m : Nat) : s'.output m = s.output m := by
  rw [BasicStreambuf.output, BasicStreambuf.output, h.buffer, h.pptr]

theorem Advanced.refl (h : s.WellFormed) : Advanced s 0 s := ⟨h, rfl, rfl, rfl, rfl, rfl⟩

theorem Advanced.trans {s'' : BasicStreambuf α} (h : Advanced s n s') (h' : Advanced s' m s'') :
    Advanced s (n + m) s'' where
  wellFormed := h'.wellFormed
  maxSize := h'.maxSize.trans h.maxSize
  buffer := h'.buffer.trans h.buffer
  gptr := by rw [h'.gptr, h.gptr, Nat.add_assoc]
  pptr := h'.pptr.trans h.pptr
  epptr := h'.epptr.trans h.epptr

theorem setg_advanced (h : s.WellFormed) : Advanced s 0 (s.setg 0 s.gptr s.pptr) where
  wellFormed := ⟨rfl, h.gptr_le, Nat.le_refl _, h.pptr, h.epptr, h.buffer⟩
  maxSize := rfl
  buffer := rfl
  gptr := rfl
  pptr := rfl
  epptr := rfl

theorem gbump_advanced (h : s.WellFormed) (hn : s.gptr + n ≤ s.egptr) :
    Advanced s n (s.gbump n) where
  wellFormed := ⟨h.eback, hn, h.egptr, h.pptr, h.epptr, h.buffer⟩
  maxSize := rfl
  buffer := rfl
  gptr := rfl
  pptr := rfl
  epptr := rfl

theorem consume_advanced (h : s.WellFormed) (hmax : s.maxSize < 2 ^ 31) (n : Nat) :
    Advanced s (min n s.size) (s.consume n) := by
  have hextend : ∃ t, (if s.egptr < s.pptr then s.setg 0 s.gptr s.pptr else s) = t ∧
      Advanced s 0 t ∧ t.egptr = t.pptr := by
    by_cases hlt : s.egptr < s.pptr
    · exact ⟨_, if_pos hlt, setg_advanced h, rfl⟩
    · exact ⟨_, if_neg hlt, .refl h, Nat.le_antisymm h.egptr (Nat.le_of_not_lt hlt)⟩
  obtain ⟨t, ht, hadv, hend⟩ := hextend
  have hsize : s.size = t.pptr - t.gptr := by
    rw [size, hadv.pptr, hadv.gptr]
    rfl
  have hle := hadv.wellFormed.gptr_le
  have hsmax := h.size_le
  have hcount : (if t.pptr < t.gptr + n then t.pptr - t.gptr else n) = min n s.size := by
    rw [hsize]
    split
    · omega
    · omega
  have hmin : min n s.size < 2 ^ 31 := by omega
  simp only [consume, ht, hcount, toInt_eq hmin]
  have := hadv.trans (gbump_advanced hadv.wellFormed (n := min n s.size) (by omega))
  rwa [Nat.zero_add] at this

theorem current_eq [Inhabited α] (h : s.WellFormed) (hlt : s.gptr < s.pptr) :
    s.data = s.current :: s.data.tail := by
  have hb := h.buffer
  have hp := h.pptr
  have hin : s.gptr < s.buffer.length := by omega
  obtain ⟨k, hk⟩ : ∃ k, s.pptr - s.gptr = k + 1 := ⟨s.pptr - s.gptr - 1, by omega⟩
  have hcurrent : s.current = s.buffer[s.gptr] := by simp [current, List.getD, hin]
  rw [data, hk, List.drop_eq_getElem_cons hin, List.take_succ_cons, List.tail_cons, hcurrent]

theorem size_pos_iff (h : s.WellFormed) : s.gptr < s.pptr ↔ s.data ≠ [] := by
  rw [← List.length_pos_iff_ne_nil, h.length_data, size]
  omega

theorem commit_spec (h : s.WellFormed) (hmax : s.maxSize < 2 ^ 31) {k : Nat}
    (hk : min n (s.epptr - s.pptr) = k) :
    (s.commit n).WellFormed ∧ (s.commit n).maxSize = s.maxSize ∧
      (s.commit n).data = s.data ++ s.output k := by
  have hg := h.gptr_le
  have hp := h.pptr
  have he := h.epptr
  have hpptr : ((s.pptr : Int) + toInt k).toNat = s.pptr + k := by
    rw [toInt_eq (by omega)]
    omega
  have hcommit : s.commit n = { s with egptr := s.pptr + k, pptr := s.pptr + k } := by
    simp only [commit, hk, pbump, setg, hpptr]
  rw [hcommit]
  refine ⟨⟨h.eback, by simp only; omega, Nat.le_refl _, by simp only; omega, he, h.buffer⟩, rfl, ?_⟩
  simp only [data, output]
  rw [show s.pptr + k - s.gptr = s.pptr - s.gptr + k by omega, List.take_add, List.drop_drop,
    Nat.add_sub_cancel' hg]

/-- One character more at the end of the queue. -/
structure Appended (s : BasicStreambuf α) (c : α) (s' : BasicStreambuf α) : Prop where
  wellFormed : s'.WellFormed
  maxSize : s'.maxSize = s.maxSize
  data : s'.data = s.data ++ [c]

theorem put_appended (h : s.WellFormed) (hlt : s.pptr < s.epptr) (c : α) :
    Appended s c (s.put c) := by
  have hg := h.gptr_le
  have hb := h.buffer
  have hin : s.pptr < s.buffer.length := by omega
  have hput : s.put c = { s with buffer := s.buffer.set s.pptr c, pptr := s.pptr + 1 } := rfl
  rw [hput]
  refine ⟨⟨h.eback, h.gptr, h.egptr.trans (Nat.le_succ _), hlt, h.epptr, ?_⟩, rfl, ?_⟩
  · simpa using hb
  · simp only [data]
    rw [show s.pptr + 1 - s.gptr = s.pptr - s.gptr + 1 by omega, List.take_add, List.drop_drop,
      Nat.add_sub_cancel' hg, List.drop_set, if_neg (Nat.not_lt.mpr hg),
      List.take_set_of_le (Nat.le_refl _),
      List.drop_eq_getElem_cons (i := s.pptr) (by simpa using hin),
      List.getElem_set_self]
    rfl

theorem underflow_spec [Inhabited α] (h : s.WellFormed) :
    Advanced s 0 s.underflow.1 ∧ s.underflow.2 = s.data.head? := by
  unfold underflow
  split
  · rename_i hlt
    refine ⟨setg_advanced h, ?_⟩
    rw [current_eq h hlt]
    rfl
  · rename_i hlt
    refine ⟨.refl h, ?_⟩
    rw [size_pos_iff h, not_not] at hlt
    rw [hlt]
    rfl

theorem sgetc_spec [Inhabited α] (h : s.WellFormed) :
    Advanced s 0 s.sgetc.1 ∧ s.sgetc.2 = s.data.head? := by
  unfold sgetc
  split
  · rename_i hlt
    refine ⟨.refl h, ?_⟩
    rw [current_eq h (hlt.trans_le h.egptr)]
    rfl
  · exact underflow_spec h

theorem sbumpc_spec [Inhabited α] (h : s.WellFormed) :
    Advanced s (min 1 s.size) s.sbumpc.1 ∧ s.sbumpc.2 = s.data.head? := by
  unfold sbumpc
  split
  · rename_i hlt
    have hlt' := hlt.trans_le h.egptr
    have hone : min 1 s.size = 1 := by
      rw [size]
      omega
    rw [hone, current_eq h hlt']
    exact ⟨gbump_advanced h hlt, rfl⟩
  · unfold uflow underflow
    by_cases hlt : s.gptr < s.pptr
    · have hone : min 1 s.size = 1 := by
        rw [size]
        omega
      rw [hone, if_pos hlt, current_eq h hlt]
      have hbump := (setg_advanced h).trans
        (gbump_advanced (n := 1) (setg_advanced h).wellFormed hlt)
      exact ⟨hbump, rfl⟩
    · have hzero : min 1 s.size = 0 := by
        rw [size]
        omega
      rw [hzero, if_neg hlt]
      rw [size_pos_iff h, not_not] at hlt
      rw [hlt]
      exact ⟨.refl h, rfl⟩

theorem Reserved.put (hr : Reserved s n s') (hn : 0 < n) (c : α) : Appended s c (s'.put c) := by
  have hroom := hr.room
  have hput := put_appended hr.wellFormed (by omega) c
  exact ⟨hput.wellFormed, hput.maxSize.trans hr.maxSize, hr.data ▸ hput.data⟩

theorem Appended.size_lt {c : α} (h : s.WellFormed) (ha : Appended s c s') :
    s.size + 1 ≤ s.maxSize := by
  have hlength := ha.wellFormed.length_data
  have hsize := ha.wellFormed.size_le
  rw [ha.data, List.length_append, h.length_data, List.length_singleton] at hlength
  rw [ha.maxSize, ← hlength] at hsize
  exact hsize

theorem map_eq_ok {β γ : Type u} {f : β → γ} {x : Except (LengthError α) β} {z : γ}
    (h : x.map f = .ok z) : ∃ y, x = .ok y ∧ f y = z := by
  cases x with
  | error e => cases h
  | ok y => exact ⟨y, rfl, Except.ok.inj h⟩

section Growth

variable [Inhabited α]

theorem prepare_ok {region : MutableBuffer} (h : s.WellFormed)
    (hr : s.prepare n = .ok (s', region)) :
    s.size + n ≤ s.maxSize ∧ Reserved s n s' ∧ region = ⟨s'.pptr, n⟩ := by
  obtain ⟨t, ht, heq⟩ := map_eq_ok hr
  cases heq
  obtain ⟨hmax, hreserved⟩ := reserve_ok h ht
  exact ⟨hmax, hreserved, rfl⟩

theorem overflow_ok {c : α} {r : Option α} (h : s.WellFormed)
    (hr : s.overflow (some c) = .ok (s', r)) : r = some c ∧ Appended s c s' := by
  have hp := h.pptr
  obtain ⟨t, ht, heq⟩ := map_eq_ok hr
  cases heq
  refine ⟨rfl, ?_⟩
  split at ht
  · dsimp only at ht
    split at ht
    · exact (reserve_ok h ht).2.put (by omega) c
    · exact (reserve_ok h ht).2.put (by decide) c
  · cases ht
    exact put_appended h (by omega) c

theorem sputc_ok {c : α} {r : Option α} (h : s.WellFormed) (hr : s.sputc c = .ok (s', r)) :
    r = some c ∧ Appended s c s' := by
  unfold sputc at hr
  split at hr
  · rename_i hlt
    cases hr
    exact ⟨rfl, put_appended h hlt c⟩
  · exact overflow_ok h hr

end Growth

end Layout

end BasicStreambuf

end Asio
