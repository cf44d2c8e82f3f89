import Asio.ConsumingBuffers

/-! Copying between buffer sequences. The buffers of a sequence are regions of their own, each of
them the list of its bytes. -/

universe u

namespace Asio.BufferCopy

variable {α : Type u}

/-- `asio::buffer` with a size, where no size stands for the greatest one. -/
def limit (maxSize : Option Nat) (b : List α) : List α := maxSize.elim b b.take

def memcpy (region : List α) (offset : Nat) (source : List α) : List α :=
  region.take offset ++ source ++ region.drop (offset + source.length)

/-- `buffer_copy_1`, for `targetSize` bytes of a region. -/
def bufferCopy1 (region : List α) (offset targetSize : Nat) (source : List α) : Nat × List α :=
  let sourceSize := source.length
  let n := if targetSize < sourceSize then targetSize else sourceSize
  (n, if 0 < n then memcpy region offset (source.take n) else region)

/-! ### One buffer on a side -/

def oneOne (maxBytesToCopy : Option Nat) (target source : List α) : Nat × List α :=
  bufferCopy1 target 0 target.length (limit maxBytesToCopy source)

/-- The loop over the sources, for a target buffer that has moved on in its region. -/
def oneMultipleFrom (region : List α) (offset targetSize total : Nat) :
    List (List α) → Nat × List α
  | [] => (total, region)
  | source :: sources =>
    if targetSize ≠ 0 then
      let r := bufferCopy1 region offset targetSize source
      oneMultipleFrom r.2 (offset + r.1) (targetSize - r.1) (total + r.1) sources
    else
      (total, region)

def oneMultiple (maxBytesToCopy : Option Nat) (target : List α) (sources : List (List α)) :
    Nat × List α :=
  oneMultipleFrom target 0 (limit maxBytesToCopy target).length 0 sources

/-- The loop over the targets. -/
def multipleOneFrom (source : List α) (total : Nat) : List (List α) → Nat × List (List α)
  | [] => (total, [])
  | target :: targets =>
    if source.length ≠ 0 then
      let r := bufferCopy1 target 0 target.length source
      let rest := multipleOneFrom (source.drop r.1) (total + r.1) targets
      (rest.1, r.2 :: rest.2)
    else
      (total, target :: targets)

def multipleOne (maxBytesToCopy : Option Nat) (targets : List (List α)) (source : List α) :
    Nat × List (List α) :=
  multipleOneFrom (limit maxBytesToCopy source) 0 targets

/-! ### Many buffers on both sides -/

/-- An iterator in a sequence, and the offset in the buffer that it points to. -/
structure Cursor (α : Type u) where
  passed : List (List α)
  buffers : List (List α)
  offset : Nat

namespace Cursor

def start (buffers : List (List α)) : Cursor α := ⟨[], buffers, 0⟩

def whole (c : Cursor α) : List (List α) := c.passed ++ c.buffers

/-- The buffer that the iterator points to is another one. -/
def setHead (c : Cursor α) (b : List α) : Cursor α := { c with buffers := b :: c.buffers.tail }

/-- The iterator moves on if so many bytes were all that was left of its buffer. -/
def advance (c : Cursor α) (bytesCopied bufferSize : Nat) : Cursor α :=
  if bytesCopied = bufferSize then
    ⟨c.passed ++ c.buffers.take 1, c.buffers.tail, 0⟩
  else
    { c with offset := c.offset + bytesCopied }

end Cursor

theorem bufferCopy1_fst (region : List α) (offset targetSize : Nat) (source : List α) :
    (bufferCopy1 region offset targetSize source).1 = min targetSize source.length := by
  simp only [bufferCopy1]
  split <;> omega

theorem length_limit (maxSize : Option Nat) (b : List α) :
    (limit maxSize b).length = maxSize.elim b.length (min · b.length) := by
  cases maxSize with
  | none => rfl
  | some n => exact List.length_take

section Progress

variable {c : Cursor α} {b : List α} {next : List (List α)} {n size : Nat}

theorem Cursor.setHead_buffers (h : c.buffers = b :: next) (b' : List α) :
    (c.setHead b').buffers = b' :: next := by
  rw [setHead, h, List.tail_cons]

theorem Cursor.length_advance (h : c.buffers = b :: next) : (c.advance n size).buffers.length =
    if n = size then next.length else next.length + 1 := by
  unfold advance
  split
  · rw [h, List.tail_cons]
  · rw [h, List.length_cons]

/-- A step finishes a buffer on one of the sides, or all that may be copied. -/
theorem progress {left : Option Nat} {target source : Cursor α} {t s : List α}
    {ts ss : List (List α)} (hleft : left ≠ some 0) (ht : target.buffers = t :: ts)
    (hs : source.buffers = s :: ss) {r : Nat × List α}
    (hr : r = bufferCopy1 t target.offset (t.length - target.offset)
      (limit left (s.drop source.offset))) :
    Prod.Lex (· < ·) (· < ·)
      (((target.setHead r.2).advance r.1 (t.length - target.offset)).buffers.length +
        (source.advance r.1 (s.drop source.offset).length).buffers.length,
        (left.map (· - r.1)).getD 0)
      (target.buffers.length + source.buffers.length, left.getD 0) := by
  rw [Cursor.length_advance (Cursor.setHead_buffers ht r.2), Cursor.length_advance hs, ht, hs,
    List.length_cons, List.length_cons]
  by_cases hbuffer : r.1 = t.length - target.offset ∨ r.1 = (s.drop source.offset).length
  · apply Prod.Lex.left
    rcases hbuffer with hbuffer | hbuffer
    · rw [if_pos hbuffer]
      split <;> omega
    · rw [if_pos hbuffer]
      split <;> omega
  · rw [if_neg (fun h => hbuffer (Or.inl h)), if_neg (fun h => hbuffer (Or.inr h))]
    apply Prod.Lex.right
    have hcount : r.1 = min (t.length - target.offset) (limit left (s.drop source.offset)).length :=
      hr ▸ bufferCopy1_fst ..
    rw [length_limit] at hcount
    cases left with
    | none =>
      rw [Option.elim_none] at hcount
      omega
    | some m =>
      rw [Option.elim_some] at hcount
      rw [Option.map_some, Option.getD_some, Option.getD_some]
      have hne : m ≠ 0 := fun h => hleft (congrArg some h)
      omega

end Progress

/-- The loop, where `left` is what `max_bytes_to_copy` still allows. -/
def multipleMultipleFrom (left : Option Nat) (target source : Cursor α) (total : Nat) :
    Nat × List (List α) :=
  if left = some 0 then
    (total, target.whole)
  else
    match _ht : target.buffers, _hs : source.buffers with
    | t :: _, s :: _ =>
      let targetSize := t.length - target.offset
      let sourceBuffer := s.drop source.offset
      let r := bufferCopy1 t target.offset targetSize (limit left sourceBuffer)
      multipleMultipleFrom (left.map (· - r.1)) ((target.setHead r.2).advance r.1 targetSize)
        (source.advance r.1 sourceBuffer.length) (total + r.1)
    | _, _ => (total, target.whole)
termination_by (target.buffers.length + source.buffers.length, left.getD 0)
decreasing_by exact progress (by assumption) _ht _hs rfl

def multipleMultiple (maxBytesToCopy : Option Nat) (targets sources : List (List α)) :
    Nat × List (List α) :=
  multipleMultipleFrom maxBytesToCopy (.start targets) (.start sources) 0

/-! ### What is copied -/

section Spec

variable {region source : List α} {offset n size total : Nat}

/-- The first bytes of the source have been written from the offset on. -/
theorem memcpy_append {l l' : List α} (h : offset ≤ region.length) :
    memcpy (memcpy region offset l) (offset + l.length) l' = memcpy region offset (l ++ l') := by
  have hfront : (region.take offset ++ l).length = offset + l.length := by
    rw [List.length_append, List.length_take, Nat.min_eq_left h]
  have htake : (memcpy region offset l).take (offset + l.length) = region.take offset ++ l := by
    rw [memcpy, ← hfront, List.take_left]
  have hdrop : (memcpy region offset l).drop (offset + l.length + l'.length) =
      region.drop (offset + (l.length + l'.length)) := by
    rw [← List.drop_drop, memcpy, ← hfront, List.drop_left, hfront, List.drop_drop, Nat.add_assoc]
  rw [memcpy, htake, hdrop, memcpy, List.length_append, List.append_assoc (region.take offset)]

theorem memcpy_nil (region : List α) (offset : Nat) : memcpy region offset [] = region := by
  rw [memcpy, List.append_nil, List.length_nil, Nat.add_zero, List.take_append_drop]

theorem length_memcpy {l : List α} (h : offset + l.length ≤ region.length) :
    (memcpy region offset l).length = region.length := by
  simp only [memcpy, List.length_append, List.length_take, List.length_drop]
  omega

theorem bufferCopy1_eq (region : List α) (offset size : Nat) (source : List α) :
    bufferCopy1 region offset size source =
      (min size source.length, memcpy region offset (source.take (min size source.length))) := by
  have hfst := bufferCopy1_fst region offset size source
  refine Prod.ext hfst ?_
  rw [← hfst]
  simp only [bufferCopy1]
  generalize (if size < source.length then size else source.length) = k
  split
  · rfl
  · obtain rfl : k = 0 := by omega
    rw [List.take_zero, memcpy_nil]

/-- The least of the two sizes and of the bytes that may be copied. -/
def amount (maxBytesToCopy : Option Nat) (targetSize sourceSize : Nat) : Nat :=
  maxBytesToCopy.elim (min targetSize sourceSize) (min (min targetSize sourceSize))

/-- So many bytes of the sources are copied to the start of the targets, and no others change. -/
structure Copied (maxBytesToCopy : Option Nat) (targets sources : List (List α))
    (out : Nat × List (List α)) : Prop where
  count : out.1 = amount maxBytesToCopy targets.flatten.length sources.flatten.length
  bytes : out.2.flatten = sources.flatten.take out.1 ++ targets.flatten.drop out.1
  sizes : out.2.map List.length = targets.map List.length

/-- What the first part of a sequence takes of an amount. -/
theorem take_min_append (l l' : List α) (size : Nat) :
    (l ++ l').take (min size (l.length + l'.length)) =
      l.take (min size l.length) ++ l'.take (min (size - min size l.length) l'.length) := by
  rw [List.take_append]
  congr 1
  · rw [List.take_eq_take_iff]
    omega
  · rw [List.take_eq_take_iff]
    omega

theorem length_take_min (l : List α) (size : Nat) :
    (l.take (min size l.length)).length = min size l.length := by
  rw [List.length_take]
  omega

theorem oneMultipleFrom_eq {sources : List (List α)} (h : offset + size ≤ region.length) :
    oneMultipleFrom region offset size total sources =
      (total + min size sources.flatten.length,
        memcpy region offset (sources.flatten.take (min size sources.flatten.length))) := by
  induction sources generalizing region offset size total with
  | nil =>
    rw [List.flatten_nil, List.take_nil, memcpy_nil, List.length_nil, Nat.min_zero]
    rfl
  | cons source sources ih =>
    rw [oneMultipleFrom]
    split
    · have hlength := length_take_min source size
      have hfits : offset + (source.take (min size source.length)).length ≤ region.length := by
        omega
      rw [bufferCopy1_eq, ih (by rw [length_memcpy hfits]; omega), List.flatten_cons,
        List.length_append, take_min_append]
      refine Prod.ext ?_ ?_
      · dsimp only
        omega
      · rw [← memcpy_append (show offset ≤ region.length by omega), hlength]
    · rename_i hzero
      obtain rfl : size = 0 := by omega
      rw [Nat.zero_min, List.take_zero, memcpy_nil]
      rfl

theorem multipleOneFrom_spec (targets : List (List α)) (source : List α) (total : Nat) :
    ∃ out, multipleOneFrom source total targets =
        (total + min targets.flatten.length source.length, out) ∧
      out.flatten = source.take (min targets.flatten.length source.length) ++
        targets.flatten.drop (min targets.flatten.length source.length) ∧
      out.map List.length = targets.map List.length := by
  induction targets generalizing source total with
  | nil => exact ⟨[], by simp [multipleOneFrom], by simp, rfl⟩
  | cons target targets ih =>
    rw [multipleOneFrom]
    split
    · rw [bufferCopy1_eq]
      dsimp only
      obtain ⟨out, hout, hbytes, hsizes⟩ := ih (source.drop (min target.length source.length))
        (total + min target.length source.length)
      have hrest : (source.drop (min target.length source.length)).length =
          source.length - min target.length source.length := List.length_drop
      have hstored : memcpy target 0 (source.take (min target.length source.length)) =
          source.take (min target.length source.length) ++
            target.drop (min target.length source.length) := by
        rw [memcpy, List.take_zero, List.nil_append, Nat.zero_add, length_take_min]
      have hcount : min (target :: targets).flatten.length source.length =
          min target.length source.length + min targets.flatten.length
            (source.length - min target.length source.length) := by
        rw [List.flatten_cons, List.length_append]
        omega
      rw [hrest] at hbytes hout
      rw [hout, hcount]
      refine ⟨_, Prod.ext (Nat.add_assoc ..) rfl, ?_, ?_⟩
      · rw [List.flatten_cons, hbytes, hstored, List.take_add, List.flatten_cons, ← List.drop_drop]
        rcases Nat.le_total target.length source.length with hle | hle
        · rw [Nat.min_eq_left hle, List.drop_length, List.append_nil, List.drop_left,
            List.append_assoc]
        · rw [Nat.min_eq_right hle, Nat.sub_self, Nat.min_zero, List.take_zero, List.drop_zero,
            List.nil_append, List.append_nil, List.drop_zero,
            List.drop_append_of_le_length hle, List.append_assoc]
      · rw [List.map_cons, List.map_cons, hsizes, length_memcpy]
        rw [length_take_min]
        omega
    · rename_i hzero
      obtain rfl : source = [] := List.length_eq_zero_iff.mp (by omega)
      exact ⟨target :: targets, by simp, by simp, rfl⟩

end Spec

namespace Cursor

/-- The bytes before the cursor. -/
def front (c : Cursor α) : List α := c.passed.flatten ++ c.buffers.flatten.take c.offset

/-- The bytes from the cursor on. -/
def remaining (c : Cursor α) : List α := c.buffers.flatten.drop c.offset

def sizes (c : Cursor α) : List Nat := c.whole.map List.length

def Valid (c : Cursor α) : Prop := ∀ b ∈ c.buffers.head?, c.offset ≤ b.length

section Moves

variable {c : Cursor α} {b l : List α} {next : List (List α)} {n : Nat}

theorem start_valid (buffers : List (List α)) : (start buffers).Valid := fun _ _ => Nat.zero_le _

theorem front_append_remaining (c : Cursor α) : c.front ++ c.remaining = c.whole.flatten := by
  rw [front, remaining, List.append_assoc, List.take_append_drop, whole, List.flatten_append]

theorem remaining_of_nil (h : c.buffers = []) : c.remaining = [] := by
  rw [remaining, h, List.flatten_nil, List.drop_nil]

theorem Valid.offset_le (hv : c.Valid) (h : c.buffers = b :: next) : c.offset ≤ b.length :=
  hv b (by rw [h]; rfl)

theorem remaining_cons (hv : c.Valid) (h : c.buffers = b :: next) :
    c.remaining = b.drop c.offset ++ next.flatten := by
  rw [remaining, h, flatten_drop_cons (hv.offset_le h)]

theorem front_cons (hv : c.Valid) (h : c.buffers = b :: next) :
    c.front = c.passed.flatten ++ b.take c.offset := by
  rw [front, h, List.flatten_cons, List.take_append_of_le_length (hv.offset_le h)]

/-- The cursor has moved on by `n` bytes. -/
structure Moved (c : Cursor α) (n : Nat) (c' : Cursor α) : Prop where
  valid : c'.Valid
  whole : c'.whole = c.whole
  front : c'.front = c.front ++ c.remaining.take n
  remaining : c'.remaining = c.remaining.drop n

theorem advance_moved (hv : c.Valid) (h : c.buffers = b :: next) (hn : n ≤ b.length - c.offset) :
    Moved c n (c.advance n (b.length - c.offset)) := by
  have hoffset := hv.offset_le h
  have hlength : (b.drop c.offset).length = b.length - c.offset := List.length_drop
  unfold advance
  split
  · rename_i hend
    refine ⟨fun _ _ => Nat.zero_le _, ?_, ?_, ?_⟩
    · simp only [Cursor.whole, h, List.take_succ_cons, List.take_zero, List.tail_cons,
        List.append_assoc, List.singleton_append]
    · rw [remaining_cons hv h, front_cons hv h, hend, ← hlength, List.take_left]
      simp [front, h]
    · rw [remaining_cons hv h, hend, ← hlength, List.drop_left]
      simp [Cursor.remaining, h]
  · rename_i hmore
    refine ⟨?_, rfl, ?_, ?_⟩
    · rintro b' hb'
      rw [h] at hb'
      obtain rfl := Option.some.inj hb'
      dsimp only
      omega
    · rw [front, front, Cursor.remaining, List.append_assoc, ← List.take_add]
    · rw [Cursor.remaining, Cursor.remaining, List.drop_drop]

/-- Bytes are stored in the buffer that the cursor points to. -/
theorem setHead_memcpy (hv : c.Valid) (h : c.buffers = b :: next)
    (hl : l.length ≤ b.length - c.offset) :
    (c.setHead (memcpy b c.offset l)).Valid ∧ (c.setHead (memcpy b c.offset l)).sizes = c.sizes ∧
      (c.setHead (memcpy b c.offset l)).front = c.front ∧
      (c.setHead (memcpy b c.offset l)).remaining = l ++ c.remaining.drop l.length := by
  have hoffset := hv.offset_le h
  have hlength : (memcpy b c.offset l).length = b.length := length_memcpy (by omega)
  have hbuffers := setHead_buffers h (memcpy b c.offset l)
  have hfront : (b.take c.offset).length = c.offset := by
    rw [List.length_take, Nat.min_eq_left hoffset]
  have htake : (memcpy b c.offset l).take c.offset = b.take c.offset := by
    rw [memcpy, List.append_assoc, List.take_left' hfront]
  have hdrop : (memcpy b c.offset l).drop c.offset = l ++ b.drop (c.offset + l.length) := by
    rw [memcpy, List.append_assoc, List.drop_left' hfront]
  have hvalid : (c.setHead (memcpy b c.offset l)).Valid := by
    rintro b' hb'
    rw [hbuffers] at hb'
    obtain rfl := Option.some.inj hb'
    rw [hlength]
    exact hoffset
  refine ⟨hvalid, ?_, ?_, ?_⟩
  · simp only [sizes, Cursor.whole, hbuffers, h, List.map_append, List.map_cons, hlength]
    rfl
  · rw [front_cons hvalid hbuffers, front_cons hv h]
    exact congrArg _ htake
  · rw [remaining_cons hvalid hbuffers, remaining_cons hv h]
    have hle : l.length ≤ (b.drop c.offset).length := by
      rw [List.length_drop]
      omega
    rw [List.drop_append_of_le_length hle, List.drop_drop, ← List.append_assoc]
    exact congrArg (· ++ _) hdrop

end Moves

end Cursor

/-! ### The loop -/

section Loop

variable {left : Option Nat} {target source : Cursor α} {t s : List α} {ts ss : List (List α)}
  {n total : Nat}

theorem amount_add {targetSize sourceSize : Nat} (ht : n ≤ targetSize) (hs : n ≤ sourceSize)
    (hleft : ∀ m ∈ left, n ≤ m) : amount left targetSize sourceSize =
      n + amount (left.map (· - n)) (targetSize - n) (sourceSize - n) := by
  cases left with
  | none =>
    simp only [amount, Option.map_none, Option.elim_none]
    omega
  | some m =>
    have hm := hleft m rfl
    simp only [amount, Option.map_some, Option.elim_some]
    omega

theorem amount_zero_left (left : Option Nat) (sourceSize : Nat) : amount left 0 sourceSize = 0 := by
  cases left with
  | none => exact Nat.zero_min _
  | some m =>
    simp only [amount, Option.elim_some]
    omega

theorem amount_zero_right (left : Option Nat) (targetSize : Nat) :
    amount left targetSize 0 = 0 := by
  cases left with
  | none => exact Nat.min_zero _
  | some m =>
    simp only [amount, Option.elim_some]
    omega

theorem take_limit {b : List α} (h : n ≤ (limit left b).length) :
    (limit left b).take n = b.take n := by
  cases left with
  | none => rfl
  | some m =>
    rw [length_limit, Option.elim_some] at h
    rw [limit, Option.elim_some, List.take_take, Nat.min_eq_left (by omega)]

theorem multipleMultipleFrom_of_zero : multipleMultipleFrom (some 0) target source total =
    (total, target.whole) := by
  rw [multipleMultipleFrom, if_pos rfl]

theorem multipleMultipleFrom_cons (hleft : left ≠ some 0) (ht : target.buffers = t :: ts)
    (hs : source.buffers = s :: ss) {r : Nat × List α}
    (hr : bufferCopy1 t target.offset (t.length - target.offset)
      (limit left (s.drop source.offset)) = r) :
    multipleMultipleFrom left target source total = multipleMultipleFrom (left.map (· - r.1))
      ((target.setHead r.2).advance r.1 (t.length - target.offset))
      (source.advance r.1 (s.drop source.offset).length) (total + r.1) := by
  subst hr
  rw [multipleMultipleFrom, if_neg hleft]
  split
  · rename_i t' ts' s' ss' ht' hs'
    rw [ht] at ht'
    rw [hs] at hs'
    cases ht'
    cases hs'
    rfl
  · rename_i hnone
    exact absurd hs (hnone t ts s ss ht)

theorem multipleMultipleFrom_end (h : target.buffers = [] ∨ source.buffers = []) :
    multipleMultipleFrom left target source total = (total, target.whole) := by
  rw [multipleMultipleFrom]
  split
  · rfl
  · split
    · rename_i ht hs
      rcases h with h | h
      · rw [h] at ht
        cases ht
      · rw [h] at hs
        cases hs
    · rfl

/-- A step writes the next bytes of the source and moves both cursors behind them. -/
theorem step_moved (ht : target.Valid) (hs : source.Valid) (htarget : target.buffers = t :: ts)
    (hsource : source.buffers = s :: ss) {r : Nat × List α}
    (hr : bufferCopy1 t target.offset (t.length - target.offset)
      (limit left (s.drop source.offset)) = r) :
    (∀ m ∈ left, r.1 ≤ m) ∧ r.1 ≤ target.remaining.length ∧ r.1 ≤ source.remaining.length ∧
      ((target.setHead r.2).advance r.1 (t.length - target.offset)).Valid ∧
      ((target.setHead r.2).advance r.1 (t.length - target.offset)).front =
        target.front ++ source.remaining.take r.1 ∧
      ((target.setHead r.2).advance r.1 (t.length - target.offset)).remaining =
        target.remaining.drop r.1 ∧
      ((target.setHead r.2).advance r.1 (t.length - target.offset)).sizes = target.sizes ∧
      Cursor.Moved source r.1 (source.advance r.1 (s.drop source.offset).length) := by
  rw [bufferCopy1_eq] at hr
  obtain ⟨n, t'⟩ := r
  obtain ⟨hn, rfl⟩ := Prod.mk.inj hr
  rw [hn]
  dsimp only
  have hlimit := length_limit left (s.drop source.offset)
  have hdrop : (s.drop source.offset).length = s.length - source.offset := List.length_drop
  have htsize : n ≤ t.length - target.offset := by omega
  have hnlimit : n ≤ (limit left (s.drop source.offset)).length := by omega
  have hssize : n ≤ s.length - source.offset ∧ ∀ m ∈ left, n ≤ m := by
    cases left with
    | none =>
      rw [Option.elim_none] at hlimit
      refine ⟨by omega, ?_⟩
      rintro m ⟨⟩
    | some m =>
      rw [Option.elim_some] at hlimit
      refine ⟨by omega, ?_⟩
      rintro m' ⟨⟩
      omega
  have hl : (s.drop source.offset).take n = source.remaining.take n := by
    rw [Cursor.remaining_cons hs hsource, List.take_append_of_le_length (by omega)]
  have hlength : (source.remaining.take n).length = n := by
    rw [← hl, List.length_take]
    omega
  rw [take_limit hnlimit, hl]
  obtain ⟨hvalid, hsizes, hfront, hremaining⟩ := Cursor.setHead_memcpy ht htarget
    (l := source.remaining.take n) (by omega)
  rw [hlength] at hremaining
  have hmemcpy : (memcpy t target.offset (source.remaining.take n)).length = t.length := by
    have := ht.offset_le htarget
    exact length_memcpy (by omega)
  have hmoved := Cursor.advance_moved hvalid (Cursor.setHead_buffers htarget _) (n := n) (by
    rw [hmemcpy]
    exact htsize)
  rw [hmemcpy] at hmoved
  have htremaining : n ≤ target.remaining.length := by
    rw [Cursor.remaining_cons ht htarget, List.length_append, List.length_drop]
    omega
  have hsremaining : n ≤ source.remaining.length := by
    rw [Cursor.remaining_cons hs hsource, List.length_append, List.length_drop]
    omega
  refine ⟨hssize.2, htremaining, hsremaining, hmoved.valid, ?_, ?_, ?_, ?_⟩
  · refine hmoved.front.trans ?_
    rw [hfront, hremaining, List.take_left' hlength]
  · refine hmoved.remaining.trans ?_
    rw [hremaining, List.drop_left' hlength]
  · exact (congrArg (List.map List.length) hmoved.whole).trans hsizes
  · rw [hdrop]
    exact Cursor.advance_moved hs hsource hssize.1

theorem multipleMultipleFrom_spec (left : Option Nat) (target source : Cursor α) (total : Nat)
    (ht : target.Valid) (hs : source.Valid) :
    ∃ out, multipleMultipleFrom left target source total =
        (total + amount left target.remaining.length source.remaining.length, out) ∧
      out.flatten = target.front ++
        source.remaining.take (amount left target.remaining.length source.remaining.length) ++
        target.remaining.drop (amount left target.remaining.length source.remaining.length) ∧
      out.map List.length = target.sizes := by
  induction left, target, source, total using multipleMultipleFrom.induct with
  | case1 target source total =>
    rw [multipleMultipleFrom_of_zero]
    refine ⟨target.whole, by simp [amount], ?_, rfl⟩
    simp [amount, Cursor.front_append_remaining]
  | case2 left target source total hleft t ts s ss htarget hsource size buffer r ih =>
    obtain ⟨hle, htle, hsle, hvalid, hfront, hremaining, hsizes, hmoved⟩ :=
      step_moved ht hs htarget hsource (r := r) rfl
    obtain ⟨out, hout, hbytes, hmap⟩ := ih hvalid hmoved.valid
    rw [hremaining, hmoved.remaining, List.length_drop (l := target.remaining),
      List.length_drop (l := source.remaining)] at hout hbytes
    rw [multipleMultipleFrom_cons hleft htarget hsource (r := r) rfl, amount_add htle hsle hle]
    refine ⟨out, hout.trans (Prod.ext (Nat.add_assoc ..) rfl), ?_, hmap.trans hsizes⟩
    rw [hbytes, hfront, List.drop_drop, List.take_add, List.append_assoc target.front]
  | case3 left target source total hleft h =>
    have hend : target.buffers = [] ∨ source.buffers = [] := by
      cases htarget : target.buffers with
      | nil => exact Or.inl rfl
      | cons t ts =>
        cases hsource : source.buffers with
        | nil => exact Or.inr rfl
        | cons s ss => exact absurd hsource (h t ts s ss htarget)
    have hzero : amount left target.remaining.length source.remaining.length = 0 := by
      rcases hend with hend | hend
      · rw [Cursor.remaining_of_nil hend]
        exact amount_zero_left ..
      · rw [Cursor.remaining_of_nil hend]
        exact amount_zero_right ..
    rw [multipleMultipleFrom_end hend, hzero]
    refine ⟨target.whole, rfl, ?_, rfl⟩
    rw [List.take_zero, List.append_nil, List.drop_zero, Cursor.front_append_remaining]

end Loop

/-! ### All the overloads -/

/-- A single buffer, or a sequence of buffers. -/
inductive Buffers (α : Type u)
  | one (b : List α)
  | multiple (bs : List (List α))

def Buffers.list : Buffers α → List (List α)
  | one b => [b]
  | multiple bs => bs

/-- `buffer_copy`, with the limit of the overload that has one. -/
def bufferCopy (maxBytesToCopy : Option Nat) : Buffers α → Buffers α → Nat × List (List α)
  | .one target, .one source =>
    let r := oneOne maxBytesToCopy target source
    (r.1, [r.2])
  | .one target, .multiple sources =>
    let r := oneMultiple maxBytesToCopy target sources
    (r.1, [r.2])
  | .multiple targets, .one source => multipleOne maxBytesToCopy targets source
  | .multiple targets, .multiple sources => multipleMultiple maxBytesToCopy targets sources

section Overloads

variable (maxBytesToCopy : Option Nat) {target source : List α} {targets sources : List (List α)}

theorem amount_eq (targetSize sourceSize : Nat) : amount maxBytesToCopy targetSize sourceSize =
    min targetSize (maxBytesToCopy.elim sourceSize (min · sourceSize)) := by
  cases maxBytesToCopy with
  | none => rfl
  | some m =>
    simp only [amount, Option.elim_some]
    omega

theorem amount_eq' (targetSize sourceSize : Nat) : amount maxBytesToCopy targetSize sourceSize =
    min (maxBytesToCopy.elim targetSize (min · targetSize)) sourceSize := by
  cases maxBytesToCopy with
  | none => rfl
  | some m =>
    simp only [amount, Option.elim_some]
    omega

/-- What is copied is a part of what the limit allows of the source. -/
theorem take_amount (targetSize : Nat) :
    (limit maxBytesToCopy source).take (amount maxBytesToCopy targetSize source.length) =
      source.take (amount maxBytesToCopy targetSize source.length) := by
  apply take_limit
  rw [length_limit, amount_eq]
  exact Nat.min_le_right ..

theorem copied_one {n : Nat} (h : n = amount maxBytesToCopy target.length sources.flatten.length) :
    Copied maxBytesToCopy [target] sources (n, [memcpy target 0 (sources.flatten.take n)]) := by
  have hle : n ≤ target.length ∧ n ≤ sources.flatten.length := by
    rw [h, amount_eq]
    refine ⟨Nat.min_le_left .., (Nat.min_le_right ..).trans ?_⟩
    cases maxBytesToCopy with
    | none => exact Nat.le_refl _
    | some m => exact Nat.min_le_right ..
  have hlength : (sources.flatten.take n).length = n := by
    rw [List.length_take, Nat.min_eq_left hle.2]
  refine ⟨by rw [h, List.flatten_singleton], ?_, ?_⟩
  · rw [List.flatten_singleton, List.flatten_singleton, memcpy, List.take_zero, List.nil_append,
      Nat.zero_add, hlength]
  · rw [List.map_singleton, List.map_singleton, length_memcpy (by omega)]

theorem oneOne_copied : Copied maxBytesToCopy [target] [source]
    (bufferCopy maxBytesToCopy (.one target) (.one source)) := by
  have hlength := length_limit maxBytesToCopy source
  have hcount := amount_eq maxBytesToCopy target.length source.length
  rw [bufferCopy, oneOne, bufferCopy1_eq, hlength, ← hcount, take_amount]
  have hcopied : Copied maxBytesToCopy [target] [source] (_, [memcpy target 0 _]) :=
    copied_one maxBytesToCopy rfl
  rwa [List.flatten_singleton] at hcopied

theorem oneMultiple_copied : Copied maxBytesToCopy [target] sources
    (bufferCopy maxBytesToCopy (.one target) (.multiple sources)) := by
  have hle : 0 + (limit maxBytesToCopy target).length ≤ target.length := by
    rw [length_limit, Nat.zero_add]
    cases maxBytesToCopy with
    | none => exact Nat.le_refl _
    | some m => exact Nat.min_le_right ..
  rw [bufferCopy, oneMultiple, oneMultipleFrom_eq hle, Nat.zero_add, length_limit, ← amount_eq']
  exact copied_one maxBytesToCopy rfl

theorem multipleOne_copied : Copied maxBytesToCopy targets [source]
    (bufferCopy maxBytesToCopy (.multiple targets) (.one source)) := by
  obtain ⟨out, hout, hbytes, hsizes⟩ :=
    multipleOneFrom_spec targets (limit maxBytesToCopy source) 0
  rw [length_limit, ← amount_eq, Nat.zero_add] at hout
  rw [length_limit, ← amount_eq, take_amount] at hbytes
  rw [bufferCopy, multipleOne, hout]
  exact ⟨by rw [List.flatten_singleton], by rwa [List.flatten_singleton], hsizes⟩

theorem multipleMultiple_copied : Copied maxBytesToCopy targets sources
    (bufferCopy maxBytesToCopy (.multiple targets) (.multiple sources)) := by
  obtain ⟨out, hout, hbytes, hsizes⟩ := multipleMultipleFrom_spec maxBytesToCopy (.start targets)
    (.start sources) 0 (Cursor.start_valid targets) (Cursor.start_valid sources)
  rw [Nat.zero_add] at hout
  rw [bufferCopy, multipleMultiple, hout]
  exact ⟨rfl, hbytes, hsizes⟩

/-- Each of the overloads copies as many bytes as the two sequences and the limit allow, and no
others change. -/
theorem bufferCopy_copied (target source : Buffers α) :
    Copied maxBytesToCopy target.list source.list (bufferCopy maxBytesToCopy target source) := by
  cases target with
  | one target =>
    cases source with
    | one source => exact oneOne_copied maxBytesToCopy
    | multiple sources => exact oneMultiple_copied maxBytesToCopy
  | multiple targets =>
    cases source with
    | one source => exact multipleOne_copied maxBytesToCopy
    | multiple sources => exact multipleMultiple_copied maxBytesToCopy

end Overloads

end Asio.BufferCopy
