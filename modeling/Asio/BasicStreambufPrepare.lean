import Asio.BasicStreambufPointers

/-! What a `prepare` that throws has done to the characters of the get area. -/

universe u

namespace Asio.BasicStreambuf

open Lib.Transition

variable {α : Type u}

/-! ### The characters after the move -/

section Moving

/-- The characters repeat after as many as have been consumed in front of them, as they do where
none have been or at least as many as are left. -/
def Repeats (s : BasicStreambuf α) : Prop := s.data.drop s.gptr = s.data.take (s.size - s.gptr)

instance [DecidableEq α] (s : BasicStreambuf α) : Decidable s.Repeats :=
  inferInstanceAs (Decidable (_ = _))

variable {s : BasicStreambuf α}

theorem data_compacted (s : BasicStreambuf α) : s.compacted.data =
    ((s.data ++ s.buffer.drop s.size).drop s.gptr).take s.size := rfl

/-- The move has overwritten the characters that the pointers still delimit. -/
theorem data_compacted_eq_iff (h : s.WellFormed) : s.compacted.data = s.data ↔ s.Repeats := by
  have hlength := h.length_data
  rw [data_compacted, Repeats]
  by_cases hle : s.gptr ≤ s.size
  · have htail : (s.buffer.drop s.size).take s.gptr = s.data.drop (s.size - s.gptr) := by
      have hsum : s.gptr + (s.size - s.gptr) = s.size := Nat.add_sub_cancel' hle
      rw [data, ← size, List.drop_take, List.drop_drop, hsum, Nat.sub_sub_self hle]
    have hmoved : ((s.data ++ s.buffer.drop s.size).drop s.gptr).take s.size =
        s.data.drop s.gptr ++ s.data.drop (s.size - s.gptr) := by
      rw [List.drop_append_of_le_length (by omega), List.take_append,
        List.take_of_length_le (by rw [List.length_drop]; omega), List.length_drop, hlength,
        Nat.sub_sub_self hle, htail]
    rw [hmoved]
    constructor
    · intro heq
      have hsplit := List.take_append_drop (s.size - s.gptr) s.data
      exact (List.append_left_inj _).mp (heq.trans hsplit.symm)
    · intro heq
      rw [heq, List.take_append_drop]
  · have hmoved : ((s.data ++ s.buffer.drop s.size).drop s.gptr).take s.size = s.data := by
      have hsum : s.size + (s.gptr - s.size) = s.gptr := by omega
      rw [List.drop_append, List.drop_eq_nil_of_le (by omega), hlength, List.nil_append,
        List.drop_drop, hsum]
      rfl
    refine iff_of_true hmoved ?_
    rw [List.drop_eq_nil_of_le (by omega), Nat.sub_eq_zero_of_le (by omega), List.take_zero]

end Moving

/-! ### Reading on -/

inductive Reading
  | sgetc
  | underflow
  | sbumpc
  deriving DecidableEq

section Reads

variable [Inhabited α]

def read (s : BasicStreambuf α) : Reading → BasicStreambuf α × Option α
  | .sgetc => s.sgetc
  | .underflow => s.underflow
  | .sbumpc => s.sbumpc

/-- What a sequence of reads answers. -/
def reads : BasicStreambuf α → List Reading → List (Option α)
  | _, [] => []
  | s, r :: rs => (s.read r).2 :: reads (s.read r).1 rs

/-- A call that throws leaves the size, the data and everything that is read later. -/
def Atomic (resizes : Bool) (s : BasicStreambuf α) (n : Nat) : Prop :=
  ∀ e, s.prepareOrThrow resizes n = .error e →
    e.state.size = s.size ∧ e.state.data = s.data ∧ ∀ rs, e.state.reads rs = s.reads rs

/-- `prepare` throws, as the vector would have to grow beyond the limit or cannot grow. -/
def Throws (resizes : Bool) (s : BasicStreambuf α) (n : Nat) : Prop :=
  s.epptr < s.size + n ∧ (s.maxSize < s.size + n ∨ resizes = false)

instance (resizes : Bool) (s : BasicStreambuf α) (n : Nat) : Decidable (s.Throws resizes n) :=
  inferInstanceAs (Decidable (_ ∧ _))

variable {s s' : BasicStreambuf α} {n : Nat} {resizes : Bool}

theorem read_spec (h : s.WellFormed) (r : Reading) : ∃ k, Advanced s (min k s.size) (s.read r).1 ∧
    (s.read r).2 = s.data.head? ∧ k = if r = .sbumpc then 1 else 0 := by
  cases r with
  | sgetc => exact ⟨0, (Nat.zero_min s.size).symm ▸ (sgetc_spec h).1, (sgetc_spec h).2, rfl⟩
  | underflow =>
    exact ⟨0, (Nat.zero_min s.size).symm ▸ (underflow_spec h).1, (underflow_spec h).2, rfl⟩
  | sbumpc => exact ⟨1, (sbumpc_spec h).1, (sbumpc_spec h).2, rfl⟩

/-- The reads depend on the data only. -/
theorem reads_eq (h : s.WellFormed) (h' : s'.WellFormed) (hdata : s'.data = s.data)
    (rs : List Reading) : s'.reads rs = s.reads rs := by
  induction rs generalizing s s' with
  | nil => rfl
  | cons r rs ih =>
    obtain ⟨k, hadv, hread, rfl⟩ := read_spec h r
    obtain ⟨k', hadv', hread', rfl⟩ := read_spec h' r
    have hsize : s'.size = s.size := by
      rw [← h'.length_data, ← h.length_data, hdata]
    have hnext : (s'.read r).1.data = (s.read r).1.data := by
      rw [hadv'.data, hadv.data, hdata, hsize]
    rw [reads, reads, hread, hread', hdata, ih hadv.wellFormed hadv'.wellFormed hnext]

/-! ### Throwing -/

theorem prepareOrThrow_error (h : s.WellFormed) {e : LengthError α} :
    s.prepareOrThrow resizes n = .error e ↔ s.Throws resizes n ∧ e = ⟨s.compacted⟩ := by
  have hp := h.pptr
  have he := h.epptr
  have hg := h.gptr_le
  have hsize : s.size = s.pptr - s.gptr := rfl
  have hspec := reserve_spec (n := n) h
  have hmap : s.prepareOrThrow resizes n = .error e ↔ s.reserveOrThrow resizes n = .error e := by
    rw [prepareOrThrow]
    cases s.reserveOrThrow resizes n with
    | ok s' => simp [Except.map]
    | error e' => simp [Except.map]
  rw [hmap, reserveOrThrow_eq]
  split_ifs with hfails
  · have hthrows : s.Throws resizes n := ⟨by omega, Or.inr hfails.2.2⟩
    simp only [hthrows, true_and, Except.error.injEq]
    exact eq_comm
  · by_cases hmax : s.size + n ≤ s.maxSize
    · rw [if_pos hmax] at hspec
      obtain ⟨s', hs', -⟩ := hspec
      have hthrows : ¬s.Throws resizes n := by
        rintro ⟨hgrow, hlimit | hresize⟩
        · omega
        · exact hfails ⟨by omega, by omega, hresize⟩
      simp [hs', hthrows]
    · rw [if_neg hmax] at hspec
      obtain ⟨e', he'⟩ := hspec
      have hthrows : s.Throws resizes n := ⟨by omega, Or.inl (by omega)⟩
      rw [he', error_of_reserve he']
      simp only [hthrows, true_and, Except.error.injEq]
      exact eq_comm

/-- In every stream buffer that can be reached, `prepare` is atomic where it does not throw, and
otherwise only where the characters that it moves repeat. -/
theorem atomic_iff {maxSize : Nat} (h : Reachable operate Fitting (construct maxSize) s) :
    s.Atomic resizes n ↔ ¬s.Throws resizes n ∨ s.Repeats := by
  have hw := (intact_of_reachable h).wellFormed
  by_cases hthrows : s.Throws resizes n
  · have herror := (prepareOrThrow_error hw).mpr ⟨hthrows, rfl⟩
    simp only [hthrows, not_true_eq_false, false_or]
    rw [← data_compacted_eq_iff hw]
    constructor
    · intro hatomic
      exact (hatomic _ herror).2.1
    · rintro hdata e he
      obtain ⟨-, rfl⟩ := (prepareOrThrow_error hw).mp he
      exact ⟨rfl, hdata, reads_eq hw (compacted_wellFormed hw) hdata⟩
  · refine iff_of_true ?_ (Or.inl hthrows)
    intro e he
    exact absurd ((prepareOrThrow_error hw).mp he).1 hthrows

end Reads

theorem atomic_partlyRead : partlyReadState.Atomic true 100 := by
  have hrun : exec (guarded operate Fitting) (construct 16) partlyRead = some partlyReadState := by
    decide +kernel
  exact (atomic_iff (exec_guarded_reachable hrun)).mpr (Or.inr (by decide))

/-- One character of three has been read. -/
def twoLeft : List (Operation Nat) :=
  [.prepare true 3, .write 0 10, .write 1 11, .write 2 12, .commit 3, .sbumpc]

def twoLeftState : BasicStreambuf Nat :=
  { maxSize := 16, buffer := 10 :: 11 :: 12 :: List.replicate 13 0, eback := 0, gptr := 1,
    egptr := 3, pptr := 3, epptr := 16 }

/-- A call that asks for too much loses the first of them. -/
theorem not_atomic_twoLeft :
    exec (guarded operate Fitting) (construct 16) twoLeft = some twoLeftState ∧
      twoLeftState.data = [11, 12] ∧
      (after (twoLeftState.prepareOrThrow true 100)).data = [12, 12] ∧
      ¬twoLeftState.Atomic true 100 := by
  have hrun : exec (guarded operate Fitting) (construct 16) twoLeft = some twoLeftState := by
    decide +kernel
  refine ⟨hrun, rfl, by decide, ?_⟩
  rw [atomic_iff (exec_guarded_reachable hrun)]
  decide

end Asio.BasicStreambuf
