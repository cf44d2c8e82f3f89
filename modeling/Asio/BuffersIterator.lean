import Mathlib.Algebra.Order.Ring.Int
import Mathlib.Data.List.Infix

/-! The iterator over the bytes of a buffer sequence: a buffer, a position in it and the position in
all of the buffers. -/

universe u

namespace Asio

variable {α : Type u}

/-- Where in the sequence it points to, for the sequence that its operations are given. -/
structure BuffersIterator (α : Type u) where
  currentBuffer : List α
  currentBufferPosition : Nat
  current : Nat
  position : Nat
  deriving DecidableEq

namespace BuffersIterator

/-! ### Operations -/

/-- The loop over empty buffers: the iterator and the buffer it has read last. -/
def findNext : List (List α) → Nat → List α → Nat × List α
  | [], current, currentBuffer => (current, currentBuffer)
  | b :: next, current, _ => if 0 < b.length then (current, b) else findNext next (current + 1) b

/-- The loop back to the previous buffer that is not empty. -/
def findPrevious (buffers : List (List α)) : Nat → Option (Nat × List α)
  | 0 => none
  | iter + 1 =>
    let buffer := buffers.getD iter []
    if 0 < buffer.length then some (iter, buffer) else findPrevious buffers iter

def begin (buffers : List (List α)) : BuffersIterator α :=
  let next := findNext buffers 0 []
  ⟨next.2, 0, next.1, 0⟩

/-- The loop of `end`. -/
def endFrom : List (List α) → Nat → Nat → Nat × Nat
  | [], current, position => (current, position)
  | b :: next, current, position => endFrom next (current + 1) (position + b.length)

/-- `end` -/
def atEnd (buffers : List (List α)) : BuffersIterator α :=
  let last := endFrom buffers 0 0
  ⟨[], 0, last.1, last.2⟩

def dereference (it : BuffersIterator α) : Option α := it.currentBuffer[it.currentBufferPosition]?

def equal (it other : BuffersIterator α) : Bool := it.position = other.position

/-- Assertions that fail have no result. -/
def increment (buffers : List (List α)) (it : BuffersIterator α) : Option (BuffersIterator α) :=
  if it.current = buffers.length then
    none
  else
    let position := it.position + 1
    let currentBufferPosition := it.currentBufferPosition + 1
    if currentBufferPosition ≠ it.currentBuffer.length then
      some { it with position, currentBufferPosition }
    else
      let next := findNext (buffers.drop (it.current + 1)) (it.current + 1) it.currentBuffer
      some ⟨next.2, 0, next.1, position⟩

def decrement (buffers : List (List α)) (it : BuffersIterator α) : Option (BuffersIterator α) :=
  if it.position = 0 then
    none
  else
    let position := it.position - 1
    if it.currentBufferPosition ≠ 0 then
      some { it with position, currentBufferPosition := it.currentBufferPosition - 1 }
    else
      match findPrevious buffers it.current with
      | some (iter, buffer) => some ⟨buffer, buffer.length - 1, iter, position⟩
      | none => some { it with position }

/-- The loop that advances, with the buffers behind the current one. -/
def advanceForward : List (List α) → BuffersIterator α → Nat → Option (BuffersIterator α)
  | next, it, n =>
    let currentBufferBalance := it.currentBuffer.length - it.currentBufferPosition
    if n < currentBufferBalance then
      some { it with
        position := it.position + n
        currentBufferPosition := it.currentBufferPosition + n }
    else
      let n := n - currentBufferBalance
      let position := it.position + currentBufferBalance
      match next with
      | [] => if n = 0 then some ⟨[], 0, it.current + 1, position⟩ else none
      | b :: next => advanceForward next ⟨b, 0, it.current + 1, position⟩ n

/-- So many iterations of the loop that goes back. -/
def advanceBackward (buffers : List (List α)) :
    Nat → BuffersIterator α → Nat → Option (BuffersIterator α)
  | 0, _, _ => none
  | k + 1, it, absN =>
    if absN ≤ it.currentBufferPosition then
      some { it with
        position := it.position - absN
        currentBufferPosition := it.currentBufferPosition - absN }
    else
      let absN := absN - it.currentBufferPosition
      let position := it.position - it.currentBufferPosition
      if it.current = 0 then
        if absN = 0 then some { it with position, currentBufferPosition := 0 } else none
      else
        match findPrevious buffers it.current with
        | some (iter, buffer) =>
          advanceBackward buffers k ⟨buffer, buffer.length, iter, position⟩ absN
        | none => advanceBackward buffers k { it with position } absN

/-- The loop that goes back takes no more iterations than there are buffers up to the current one,
or it does not end. -/
def advance (buffers : List (List α)) (it : BuffersIterator α) (n : Int) :
    Option (BuffersIterator α) :=
  if 0 < n then
    if it.current = buffers.length then none
    else advanceForward (buffers.drop (it.current + 1)) it n.toNat
  else if n < 0 then
    if it.position < (-n).toNat then none
    else advanceBackward buffers (it.current + 1) it (-n).toNat
  else
    some it

/-! ### Positions -/

/-- The bytes of the buffers before one of them. -/
def before (buffers : List (List α)) (i : Nat) : Nat := (buffers.take i).flatten.length

/-- The iterator of a position: its buffer has the byte, or it is the end. -/
structure At (buffers : List (List α)) (p : Nat) (it : BuffersIterator α) : Prop where
  position : it.position = p
  offset : p = before buffers it.current + it.currentBufferPosition
  buffer : (buffers[it.current]? = some it.currentBuffer ∧
      it.currentBufferPosition < it.currentBuffer.length) ∨
    (it.current = buffers.length ∧ it.currentBufferPosition = 0)

section Positions

variable {buffers next : List (List α)} {b b' : List α} {i j n p : Nat} {it it' : BuffersIterator α}

theorem before_succ (h : buffers[i]? = some b) :
    before buffers (i + 1) = before buffers i + b.length := by
  rw [before, List.take_add_one, h, List.flatten_append, List.length_append]
  simp [before]

theorem before_length (buffers : List (List α)) :
    before buffers buffers.length = buffers.flatten.length := by
  rw [before, List.take_length]

theorem getElem?_of_drop (h : buffers.drop i = b :: next) :
    buffers[i]? = some b ∧ buffers.drop (i + 1) = next := by
  refine ⟨?_, ?_⟩
  · rw [← List.head?_drop, h, List.head?_cons]
  · rw [← List.tail_drop, h, List.tail_cons]

/-- The byte at a position. -/
theorem getElem?_flatten (h : buffers[i]? = some b) (hj : j < b.length) :
    buffers.flatten[before buffers i + j]? = b[j]? := by
  have hlt := (List.getElem?_eq_some_iff.mp h).1
  have hsplit : buffers.flatten =
      (buffers.take i).flatten ++ (b ++ (buffers.drop (i + 1)).flatten) := by
    have hdrop : buffers.drop i = b :: buffers.drop (i + 1) := by
      rw [List.drop_eq_getElem_cons hlt, (List.getElem?_eq_some_iff.mp h).2]
    rw [← List.flatten_cons, ← hdrop, ← List.flatten_append, List.take_append_drop]
  rw [hsplit, before, List.getElem?_append_right (Nat.le_add_right ..), Nat.add_sub_cancel_left,
    List.getElem?_append_left hj]

/-! ### The loops over empty buffers -/

theorem findNext_spec (h : buffers.drop i = next) (hi : i ≤ buffers.length) (b : List α) :
    before buffers (findNext next i b).1 = before buffers i ∧
      ((findNext next i b).1 = buffers.length ∨
        (buffers[(findNext next i b).1]? = some (findNext next i b).2 ∧
          0 < (findNext next i b).2.length)) := by
  induction next generalizing i b with
  | nil =>
    have hlength := List.drop_eq_nil_iff.mp h
    exact ⟨rfl, Or.inl (Nat.le_antisymm hi hlength)⟩
  | cons b' next ih =>
    obtain ⟨hget, hdrop⟩ := getElem?_of_drop h
    have hlt := (List.getElem?_eq_some_iff.mp hget).1
    unfold findNext
    split
    · rename_i hpos
      exact ⟨rfl, Or.inr ⟨hget, hpos⟩⟩
    · rename_i hempty
      obtain ⟨hbefore, hrest⟩ := ih hdrop hlt b'
      refine ⟨hbefore.trans ?_, hrest⟩
      rw [before_succ hget]
      omega

theorem findPrevious_spec (hi : i ≤ buffers.length) (h : 0 < before buffers i) :
    ∃ j b, findPrevious buffers i = some (j, b) ∧ j < i ∧ buffers[j]? = some b ∧ 0 < b.length ∧
      before buffers i = before buffers j + b.length := by
  induction i with
  | zero => simp [before] at h
  | succ i ih =>
    have hget : buffers[i]? = some (buffers.getD i []) := by
      rw [List.getD_eq_getElem?_getD, List.getElem?_eq_getElem hi, Option.getD_some]
    have hsucc := before_succ hget
    unfold findPrevious
    dsimp only
    split
    · rename_i hpos
      exact ⟨i, buffers.getD i [], rfl, Nat.lt_succ_self i, hget, hpos, hsucc⟩
    · rename_i hempty
      have heq : before buffers (i + 1) = before buffers i := by omega
      obtain ⟨j, b, hfind, hj, hb, hpos, hbefore⟩ := ih (Nat.le_of_succ_le hi) (heq ▸ h)
      exact ⟨j, b, hfind, Nat.lt_succ_of_lt hj, hb, hpos, heq.trans hbefore⟩

/-! ### One step -/

theorem At.current_le (h : At buffers p it) : it.current ≤ buffers.length := by
  rcases h.buffer with ⟨hget, -⟩ | ⟨hend, -⟩
  · exact (List.getElem?_eq_some_iff.mp hget).1.le
  · exact hend.le

theorem At.buffer_of_lt (h : At buffers p it) (hp : p < buffers.flatten.length) :
    buffers[it.current]? = some it.currentBuffer ∧
      it.currentBufferPosition < it.currentBuffer.length := by
  rcases h.buffer with hbuffer | ⟨hend, hzero⟩
  · exact hbuffer
  · have hoffset := h.offset
    rw [hend, hzero, before_length] at hoffset
    omega

theorem At.dereference_eq (h : At buffers p it) (hp : p < buffers.flatten.length) :
    it.dereference = buffers.flatten[p]? := by
  obtain ⟨hget, hlt⟩ := h.buffer_of_lt hp
  rw [dereference, h.offset, getElem?_flatten hget hlt]

theorem begin_at (buffers : List (List α)) : At buffers 0 (begin buffers) := by
  obtain ⟨hbefore, hnext⟩ := findNext_spec (i := 0) (List.drop_zero ..) (Nat.zero_le _) ([] : List α)
  refine ⟨rfl, ?_, ?_⟩
  · exact hbefore.symm
  · rcases hnext with hend | hbuffer
    · exact Or.inr ⟨hend, rfl⟩
    · exact Or.inl hbuffer

theorem endFrom_eq (buffers : List (List α)) (current position : Nat) :
    endFrom buffers current position =
      (current + buffers.length, position + buffers.flatten.length) := by
  induction buffers generalizing current position with
  | nil => rfl
  | cons b next ih =>
    rw [endFrom, ih, List.length_cons, List.flatten_cons, List.length_append]
    exact Prod.ext (by dsimp only; omega) (by dsimp only; omega)

theorem atEnd_at (buffers : List (List α)) : At buffers buffers.flatten.length (atEnd buffers) := by
  have heq : atEnd buffers = ⟨[], 0, buffers.length, buffers.flatten.length⟩ := by
    simp only [atEnd, endFrom_eq, Nat.zero_add]
  rw [heq]
  exact ⟨rfl, (before_length buffers).symm, Or.inr ⟨rfl, rfl⟩⟩

theorem increment_at (h : At buffers p it) (hp : p < buffers.flatten.length) :
    ∃ it', increment buffers it = some it' ∧ At buffers (p + 1) it' := by
  obtain ⟨hget, hlt⟩ := h.buffer_of_lt hp
  have hcurrent := (List.getElem?_eq_some_iff.mp hget).1
  have hoffset := h.offset
  rw [increment, if_neg hcurrent.ne]
  dsimp only
  split
  · rename_i hmore
    refine ⟨_, rfl, congrArg (· + 1) h.position, ?_, Or.inl ⟨hget, ?_⟩⟩
    · dsimp only
      omega
    · dsimp only
      omega
  · rename_i hend
    obtain ⟨hbefore, hnext⟩ := findNext_spec rfl hcurrent it.currentBuffer
    refine ⟨_, rfl, congrArg (· + 1) h.position, ?_, ?_⟩
    · dsimp only
      rw [hbefore, before_succ hget]
      omega
    · rcases hnext with hlast | hbuffer
      · exact Or.inr ⟨hlast, rfl⟩
      · exact Or.inl hbuffer

theorem decrement_at (h : At buffers p it) (hp : 0 < p) :
    ∃ it', decrement buffers it = some it' ∧ At buffers (p - 1) it' := by
  have hposition := h.position
  have hoffset := h.offset
  rw [decrement, if_neg (by omega)]
  dsimp only
  split
  · rename_i hinside
    refine ⟨_, rfl, congrArg (· - 1) hposition, ?_, Or.inl ?_⟩
    · dsimp only
      omega
    · rcases h.buffer with ⟨hget, hlt⟩ | ⟨-, hzero⟩
      · exact ⟨hget, lt_of_le_of_lt (Nat.sub_le ..) hlt⟩
      · exact absurd hzero hinside
  · rename_i hfirst
    obtain ⟨j, b, hfind, -, hget, hpos, hbefore⟩ := findPrevious_spec h.current_le (by omega)
    rw [hfind]
    refine ⟨_, rfl, congrArg (· - 1) hposition, ?_, Or.inl ⟨hget, ?_⟩⟩
    · dsimp only
      omega
    · exact Nat.sub_lt hpos Nat.one_pos

theorem advanceForward_at (hget : buffers[it.current]? = some it.currentBuffer)
    (hle : it.currentBufferPosition ≤ it.currentBuffer.length)
    (hposition : it.position = before buffers it.current + it.currentBufferPosition)
    (hnext : buffers.drop (it.current + 1) = next)
    (hn : it.position + n ≤ buffers.flatten.length) :
    ∃ it', advanceForward next it n = some it' ∧ At buffers (it.position + n) it' := by
  have hsucc := before_succ hget
  induction next generalizing it n with
  | nil =>
    have hcurrent := (List.getElem?_eq_some_iff.mp hget).1
    have hlast : it.current + 1 = buffers.length :=
      Nat.le_antisymm hcurrent (List.drop_eq_nil_iff.mp hnext)
    rw [hlast, before_length] at hsucc
    unfold advanceForward
    dsimp only
    split
    · rename_i hinside
      refine ⟨_, rfl, rfl, ?_, Or.inl ⟨hget, ?_⟩⟩
      · dsimp only
        omega
      · dsimp only
        omega
    · rename_i hbeyond
      rw [if_pos (by omega)]
      refine ⟨_, rfl, ?_, ?_, Or.inr ⟨hlast, rfl⟩⟩
      · dsimp only
        omega
      · rw [hlast, before_length]
        dsimp only
        omega
  | cons b next ih =>
    obtain ⟨hb, hdrop⟩ := getElem?_of_drop hnext
    unfold advanceForward
    dsimp only
    split
    · rename_i hinside
      refine ⟨_, rfl, rfl, ?_, Or.inl ⟨hget, ?_⟩⟩
      · dsimp only
        omega
      · dsimp only
        omega
    · rename_i hbeyond
      generalize hbalance : it.currentBuffer.length - it.currentBufferPosition = balance at *
      have heq : it.position + n = it.position + balance + (n - balance) := by
        omega
      rw [heq] at hn ⊢
      have hnext : ∃ it', advanceForward next ⟨b, 0, it.current + 1, it.position + balance⟩
          (n - balance) = some it' ∧ At buffers (it.position + balance + (n - balance)) it' := by
        apply ih hb
        · exact Nat.zero_le _
        · dsimp only
          omega
        · exact hdrop
        · exact hn
        · exact before_succ hb
      exact hnext

theorem advanceBackward_at {k : Nat} (hk : it.current < k) (h : it.current ≤ buffers.length)
    (hbuffer : 0 < it.currentBufferPosition →
      buffers[it.current]? = some it.currentBuffer ∧
        it.currentBufferPosition ≤ it.currentBuffer.length)
    (hposition : it.position = before buffers it.current + it.currentBufferPosition)
    (hpos : 0 < n) (hn : n ≤ it.position) :
    ∃ it', advanceBackward buffers k it n = some it' ∧ At buffers (it.position - n) it' := by
  induction k generalizing it n with
  | zero => exact absurd hk (Nat.not_lt_zero _)
  | succ k ih =>
    unfold advanceBackward
    split
    · rename_i hinside
      obtain ⟨hget, hle⟩ := hbuffer (Nat.lt_of_lt_of_le hpos hinside)
      refine ⟨_, rfl, rfl, ?_, Or.inl ⟨hget, ?_⟩⟩
      · dsimp only
        omega
      · dsimp only
        omega
    · rename_i hbeyond
      have hbefore : 0 < before buffers it.current := by omega
      have hcurrent : it.current ≠ 0 := by
        intro hzero
        rw [hzero] at hbefore
        exact absurd hbefore (Nat.lt_irrefl _)
      obtain ⟨j, b, hfind, hj, hget, -, hsplit⟩ := findPrevious_spec h hbefore
      dsimp only
      rw [if_neg hcurrent, hfind]
      have heq : it.position - n =
          it.position - it.currentBufferPosition - (n - it.currentBufferPosition) := by
        omega
      have hprevious : ∃ it', advanceBackward buffers k
          ⟨b, b.length, j, it.position - it.currentBufferPosition⟩
          (n - it.currentBufferPosition) = some it' ∧ At buffers
            (it.position - it.currentBufferPosition - (n - it.currentBufferPosition)) it' := by
        apply ih
        · exact Nat.lt_of_lt_of_le hj (Nat.le_of_lt_succ hk)
        · exact hj.le.trans h
        · exact fun _ => ⟨hget, le_rfl⟩
        · dsimp only
          omega
        · omega
        · exact Nat.sub_le_sub_right hn _
      rw [heq]
      exact hprevious

theorem advance_at {d : Int} (h : At buffers p it) (hlow : 0 ≤ (p : Int) + d)
    (hhigh : (p : Int) + d ≤ buffers.flatten.length) :
    ∃ it', advance buffers it d = some it' ∧ At buffers ((p : Int) + d).toNat it' := by
  have hposition := h.position
  have hoffset := h.offset
  rcases lt_trichotomy d 0 with hneg | rfl | hpos
  · have hrest := advanceBackward_at (n := (-d).toNat) (Nat.lt_succ_self it.current) h.current_le
      (fun hp => by
        rcases h.buffer with ⟨hget, hlt⟩ | ⟨-, hzero⟩
        · exact ⟨hget, hlt.le⟩
        · exact absurd hzero hp.ne')
      (by omega) (by omega) (by omega)
    have heq : it.position - (-d).toNat = ((p : Int) + d).toNat := by omega
    rw [advance, if_neg (by omega), if_pos hneg, if_neg (by omega), ← heq]
    exact hrest
  · rw [advance, if_neg (lt_irrefl _), if_neg (lt_irrefl _), add_zero, Int.toNat_natCast]
    exact ⟨it, rfl, h⟩
  · obtain ⟨hget, hlt⟩ := h.buffer_of_lt (by omega)
    have hcurrent := (List.getElem?_eq_some_iff.mp hget).1
    have hrest := advanceForward_at (n := d.toNat) hget hlt.le (by omega) rfl (by omega)
    have heq : it.position + d.toNat = ((p : Int) + d).toNat := by omega
    rw [advance, if_pos hpos, if_neg hcurrent.ne, ← heq]
    exact hrest

theorem before_mono (h : i ≤ j) : before buffers i ≤ before buffers j := by
  obtain ⟨k, rfl⟩ := Nat.exists_eq_add_of_le h
  rw [before, before, List.take_add, List.flatten_append, List.length_append]
  exact Nat.le_add_right ..

theorem At.current_le_of_at (h : At buffers p it) (h' : At buffers p it')
    (hp : p < buffers.flatten.length) : it'.current ≤ it.current := by
  obtain ⟨hget, hlt⟩ := h.buffer_of_lt hp
  by_contra hnot
  have hsucc := before_succ hget
  have hmono : before buffers (it.current + 1) ≤ before buffers it'.current :=
    before_mono (Nat.lt_of_not_le hnot)
  have hoffset := h.offset
  have hoffset' := h'.offset
  omega

/-- Before the end the position says where the iterator is. -/
theorem At.unique (h : At buffers p it) (h' : At buffers p it')
    (hp : p < buffers.flatten.length) : it = it' := by
  have hcurrent : it.current = it'.current :=
    Nat.le_antisymm (h'.current_le_of_at h hp) (h.current_le_of_at h' hp)
  have hbuffer := (h.buffer_of_lt hp).1.symm.trans (hcurrent ▸ (h'.buffer_of_lt hp).1)
  have hoffset := h.offset
  have hoffset' := h'.offset
  rw [hcurrent] at hoffset
  obtain ⟨b, k, i, q⟩ := it
  obtain ⟨b', k', i', q'⟩ := it'
  obtain rfl : q = p := h.position
  obtain rfl : q' = q := h'.position
  obtain rfl : i = i' := hcurrent
  obtain rfl : b = b' := Option.some.inj hbuffer
  obtain rfl : k = k' := by
    dsimp only at hoffset hoffset'
    omega
  rfl

end Positions

/-! ### Runs -/

inductive Move where
  | increment
  | decrement
  | plus (n : Int)
  | minus (n : Int)

def Move.delta : Move → Int
  | .increment => 1
  | .decrement => -1
  | .plus n => n
  | .minus n => -n

def move (buffers : List (List α)) (it : BuffersIterator α) :
    Move → Option (BuffersIterator α)
  | .increment => increment buffers it
  | .decrement => decrement buffers it
  | .plus n => advance buffers it n
  | .minus n => advance buffers it (-n)

def run (buffers : List (List α)) (it : BuffersIterator α) :
    List Move → Option (BuffersIterator α)
  | [] => some it
  | m :: moves => (move buffers it m).bind fun it => run buffers it moves

def displacement (moves : List Move) : Int := (moves.map Move.delta).sum

/-- Every move stays between the begin and the end. -/
def InRange (size : Nat) : Int → List Move → Prop
  | _, [] => True
  | p, m :: moves => 0 ≤ p + m.delta ∧ p + m.delta ≤ size ∧ InRange size (p + m.delta) moves

inductive Start where
  | begin
  | atEnd

def Start.iterator (buffers : List (List α)) : Start → BuffersIterator α
  | .begin => BuffersIterator.begin buffers
  | .atEnd => BuffersIterator.atEnd buffers

def Start.position (size : Nat) : Start → Nat
  | .begin => 0
  | .atEnd => size

section Runs

variable {buffers : List (List α)} {p : Nat} {it : BuffersIterator α}

theorem Start.iterator_at (buffers : List (List α)) (s : Start) :
    At buffers (s.position buffers.flatten.length) (s.iterator buffers) := by
  cases s with
  | begin => exact begin_at buffers
  | atEnd => exact atEnd_at buffers

theorem move_at {m : Move} (h : At buffers p it) (hlow : 0 ≤ (p : Int) + m.delta)
    (hhigh : (p : Int) + m.delta ≤ buffers.flatten.length) :
    ∃ it', move buffers it m = some it' ∧ At buffers ((p : Int) + m.delta).toNat it' := by
  cases m with
  | increment =>
    dsimp only [Move.delta] at hhigh
    exact increment_at h (by omega)
  | decrement =>
    dsimp only [Move.delta] at hlow
    have heq : ((p : Int) + Move.delta .decrement).toNat = p - 1 := by
      dsimp only [Move.delta]
      omega
    rw [heq]
    exact decrement_at h (by omega)
  | plus n => exact advance_at h hlow hhigh
  | minus n => exact advance_at h hlow hhigh

theorem run_at {moves : List Move} (h : At buffers p it)
    (hrange : InRange buffers.flatten.length p moves) :
    ∃ it', run buffers it moves = some it' ∧
      At buffers ((p : Int) + displacement moves).toNat it' ∧
        0 ≤ (p : Int) + displacement moves := by
  induction moves generalizing it p with
  | nil =>
    rw [show displacement [] = 0 from rfl, add_zero, Int.toNat_natCast]
    exact ⟨it, rfl, h, Int.natCast_nonneg p⟩
  | cons m moves ih =>
    obtain ⟨hlow, hhigh, hrest⟩ := hrange
    obtain ⟨it₁, hmove, hat⟩ := move_at h hlow hhigh
    have hcast : (((p : Int) + m.delta).toNat : Int) = (p : Int) + m.delta :=
      Int.toNat_of_nonneg hlow
    obtain ⟨it₂, hrun, hat₂, hnonneg⟩ := ih hat (hcast.symm ▸ hrest)
    have hsum : displacement (m :: moves) = m.delta + displacement moves := List.sum_cons
    rw [hcast, add_assoc, ← hsum] at hat₂ hnonneg
    refine ⟨it₂, ?_, hat₂, hnonneg⟩
    rw [run, hmove, Option.bind_some, hrun]

/-- In range the moves end, whatever buffers are empty. They reach the byte at the sum of the moves,
and other moves with that sum reach the same byte. -/
theorem random_access (buffers : List (List α)) (s : Start) (moves : List Move)
    (h : InRange buffers.flatten.length (s.position buffers.flatten.length) moves) :
    ∃ it, run buffers (s.iterator buffers) moves = some it ∧
      (it.position : Int) = s.position buffers.flatten.length + displacement moves ∧
      (∀ hp : it.position < buffers.flatten.length,
        it.dereference = some buffers.flatten[it.position]) ∧
      ∀ (s' : Start) (moves' : List Move),
        InRange buffers.flatten.length (s'.position buffers.flatten.length) moves' →
        s'.position buffers.flatten.length + displacement moves' =
          s.position buffers.flatten.length + displacement moves →
        ∃ it', run buffers (s'.iterator buffers) moves' = some it' ∧ equal it it' = true ∧
          (it.position < buffers.flatten.length → it' = it) := by
  obtain ⟨it, hrun, hat, hnonneg⟩ := run_at (s.iterator_at buffers) h
  refine ⟨it, hrun, ?_, ?_, ?_⟩
  · rw [hat.position]
    exact Int.toNat_of_nonneg hnonneg
  · intro hp
    rw [(hat.position ▸ hat : At buffers it.position it).dereference_eq hp,
      List.getElem?_eq_getElem hp]
  · intro s' moves' h' hsum
    obtain ⟨it', hrun', hat', -⟩ := run_at (s'.iterator_at buffers) h'
    rw [hsum] at hat'
    refine ⟨it', hrun', ?_, ?_⟩
    · exact decide_eq_true (hat.position.trans hat'.position.symm)
    · intro hp
      exact hat'.unique hat (hat.position ▸ hp)

/-- Empty buffers at both ends and between the bytes. -/
theorem random_access_emptyBuffers :
    ∃ it, run [[], ['a', 'b'], [], [], ['c'], []]
        (Start.iterator [[], ['a', 'b'], [], [], ['c'], []] .begin)
        [.increment, .plus 2, .minus 1, .decrement] = some it ∧ it.dereference = some 'b' := by
  obtain ⟨it, hrun, hposition, hderef, -⟩ :=
    random_access [[], ['a', 'b'], [], [], ['c'], []] .begin
      [.increment, .plus 2, .minus 1, .decrement]
      ⟨by decide, by decide, by decide, by decide, by decide, by decide, by decide, by decide,
        trivial⟩
  have hone : it.position = 1 := Int.ofNat.inj (hposition.trans (by decide))
  refine ⟨it, hrun, (hderef (by rw [hone]; decide)).trans ?_⟩
  simp only [hone]
  rfl

end Runs

end BuffersIterator

end Asio
