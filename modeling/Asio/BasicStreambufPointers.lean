import Mathlib.Algebra.Order.Ring.Int
import Asio.BasicStreambuf
import Asio.Lib.Transition

/-! The stream buffer with its pointers as addresses: counts are narrowed to `int` and added to
pointers, and the calls that throw leave a stream buffer that is used on. -/

universe u v

namespace Asio.BasicStreambuf

open Lib.Transition

variable {α : Type u}

/-! ### Moving the pointers -/

/-- A pointer into the vector is moved, which is undefined where it would leave the vector. -/
def bump (s : BasicStreambuf α) (next : Nat) (n : Int) : Option Nat :=
  if 0 ≤ next + n ∧ next + n ≤ s.buffer.length then some (next + n).toNat else none

/-- `commit` with `pbump` as it is defined. -/
def commitBump (s : BasicStreambuf α) (n : Nat) : Option (BasicStreambuf α) :=
  let n := min n (s.epptr - s.pptr)
  (s.bump s.pptr (toInt n)).map fun pptr =>
    let s := { s with pptr := pptr }
    s.setg s.eback s.gptr s.pptr

/-- `consume`, for a vector at the address `base`, with `gbump` as it is defined. -/
def consumeBump (base : Nat) (s : BasicStreambuf α) (n : Nat) : Option (BasicStreambuf α) :=
  let s := if s.egptr < s.pptr then s.setg 0 s.gptr s.pptr else s
  let n := if (base + s.pptr) % 2 ^ 64 < (base + s.gptr + n) % 2 ^ 64 then s.pptr - s.gptr else n
  (s.bump s.gptr (toInt n)).map fun gptr => { s with gptr := gptr }

/-- The count survives the narrowing to `int`. -/
def CommitFits (s : BasicStreambuf α) (n : Nat) : Prop := min n (s.epptr - s.pptr) < 2 ^ 31

/-- The count survives the narrowing, and where it is clamped the pointer sum does not wrap, or the
narrowing happens to clamp it. -/
structure ConsumeFits (base : Nat) (s : BasicStreambuf α) (n : Nat) : Prop where
  narrow : min n s.size < 2 ^ 31
  wrap : s.size < n → 2 ^ 64 ≤ base + s.gptr + n → toInt n = s.size

instance (s : BasicStreambuf α) (n : Nat) : Decidable (s.CommitFits n) :=
  inferInstanceAs (Decidable (_ < _))

instance (base : Nat) (s : BasicStreambuf α) (n : Nat) : Decidable (s.ConsumeFits base n) :=
  decidable_of_iff (min n s.size < 2 ^ 31 ∧ (s.size < n → 2 ^ 64 ≤ base + s.gptr + n →
    toInt n = s.size)) ⟨fun h => ⟨h.1, h.2⟩, fun h => ⟨h.1, h.2⟩⟩

/-- The first `k` characters of the put area have become the last ones of the get area. -/
structure Committed (s : BasicStreambuf α) (k : Nat) (s' : BasicStreambuf α) : Prop where
  wellFormed : s'.WellFormed
  maxSize : s'.maxSize = s.maxSize
  buffer : s'.buffer = s.buffer
  gptr : s'.gptr = s.gptr
  pptr : s'.pptr = s.pptr + k
  epptr : s'.epptr = s.epptr

section Amounts

variable {s s' : BasicStreambuf α} {base k n : Nat}

theorem toInt_lt (n : Nat) : toInt n < 2 ^ 31 := by
  rw [toInt, BitVec.toInt_eq_toNat_cond]
  have := (BitVec.ofNat 32 n).isLt
  split <;> omega

theorem toInt_eq_iff : toInt n = n ↔ n < 2 ^ 31 := by
  refine ⟨fun h => ?_, toInt_eq⟩
  have := toInt_lt n
  omega

theorem bump_eq_some {next m : Nat} {i : Int} : s.bump next i = some m ↔
    (m : Int) = next + i ∧ m ≤ s.buffer.length := by
  unfold bump
  split
  · rw [Option.some_inj]
    omega
  · simp only [reduceCtorEq, false_iff]
    omega

theorem Committed.data (h : s.WellFormed) (hc : Committed s k s') :
    s'.data = s.data ++ s.output k := by
  have hg := h.gptr_le
  rw [BasicStreambuf.data, BasicStreambuf.data, output, hc.buffer, hc.gptr, hc.pptr,
    show s.pptr + k - s.gptr = s.pptr - s.gptr + k by omega, List.take_add, List.drop_drop,
    Nat.add_sub_cancel' hg]

theorem Committed.size (h : s.WellFormed) (hc : Committed s k s') : s'.size = s.size + k := by
  have hg := h.gptr_le
  rw [BasicStreambuf.size, BasicStreambuf.size, hc.gptr, hc.pptr]
  omega

theorem Advanced.size (h : Advanced s k s') : s'.size = s.size - k := by
  rw [BasicStreambuf.size, BasicStreambuf.size, h.gptr, h.pptr, Nat.sub_add_eq]

theorem commitBump_iff (h : s.WellFormed) :
    (∃ s', s.commitBump n = some s' ∧ Committed s (min n (s.epptr - s.pptr)) s') ↔
      s.CommitFits n := by
  have hp := h.pptr
  have hb := h.buffer
  have hg := h.gptr_le
  constructor
  · rintro ⟨s', hs', hc⟩
    obtain ⟨pptr, hbump, rfl⟩ := Option.map_eq_some_iff.mp hs'
    have hsum := (bump_eq_some.mp hbump).1
    have hpptr : pptr = s.pptr + min n (s.epptr - s.pptr) := hc.pptr
    apply toInt_eq_iff.mp
    omega
  · intro hfits
    have hint := toInt_eq_iff.mpr hfits
    have hbump : s.bump s.pptr (toInt (min n (s.epptr - s.pptr))) =
        some (s.pptr + min n (s.epptr - s.pptr)) := by
      rw [bump_eq_some, hint]
      omega
    refine ⟨_, by simp only [commitBump, hbump, Option.map_some]; rfl, ?_⟩
    refine ⟨⟨h.eback, ?_, Nat.le_refl _, ?_, h.epptr, h.buffer⟩, rfl, rfl, rfl, rfl, rfl⟩
    · exact hg.trans (Nat.le_add_right ..)
    · exact Nat.add_le_of_le_sub' hp (Nat.min_le_right ..)

/-- The get area is extended up to the put pointer first. -/
theorem exists_extended (h : s.WellFormed) :
    ∃ t, (if s.egptr < s.pptr then s.setg 0 s.gptr s.pptr else s) = t ∧
      Advanced s 0 t ∧ t.egptr = t.pptr := by
  by_cases hlt : s.egptr < s.pptr
  · exact ⟨_, if_pos hlt, setg_advanced h, rfl⟩
  · exact ⟨_, if_neg hlt, .refl h, Nat.le_antisymm h.egptr (Nat.le_of_not_lt hlt)⟩

/-- What the comparison of the two pointers makes of the count. -/
theorem clamped (h : s.WellFormed) (hbase : base + s.buffer.length < 2 ^ 64) (hn : n < 2 ^ 64) :
    (if (base + s.pptr) % 2 ^ 64 < (base + s.gptr + n) % 2 ^ 64 then s.pptr - s.gptr else n) =
      if s.size < n ∧ base + s.gptr + n < 2 ^ 64 then s.size else n := by
  have hp := h.pptr
  have hb := h.buffer
  have hg := h.gptr_le
  have hle : base + s.pptr < 2 ^ 64 := by omega
  rw [size, Nat.mod_eq_of_lt hle]
  by_cases hwrap : base + s.gptr + n < 2 ^ 64
  · rw [Nat.mod_eq_of_lt hwrap]
    split_ifs <;> omega
  · have hmod : (base + s.gptr + n) % 2 ^ 64 = base + s.gptr + n - 2 ^ 64 := by omega
    rw [hmod]
    split_ifs <;> omega

theorem consumeBump_iff (h : s.WellFormed) (hbase : base + s.buffer.length < 2 ^ 64)
    (hn : n < 2 ^ 64) :
    (∃ s', s.consumeBump base n = some s' ∧ Advanced s (min n s.size) s') ↔
      s.ConsumeFits base n := by
  obtain ⟨t, ht, hadv, hend⟩ := exists_extended h
  have hwf := hadv.wellFormed
  have hp := hwf.pptr
  have hb := hwf.buffer
  have hg := hwf.gptr_le
  have hsize : t.size = s.size := hadv.size.trans (Nat.sub_zero _)
  have hgptr : t.gptr = s.gptr := hadv.gptr
  have hcount : (if (base + t.pptr) % 2 ^ 64 < (base + t.gptr + n) % 2 ^ 64 then t.pptr - t.gptr
      else n) = if s.size < n ∧ base + s.gptr + n < 2 ^ 64 then s.size else n := by
    rw [clamped hwf (by rwa [hadv.buffer]) hn, hsize, hgptr]
  have hconsume : s.consumeBump base n = (t.bump t.gptr (toInt
      (if s.size < n ∧ base + s.gptr + n < 2 ^ 64 then s.size else n))).map fun gptr =>
        { t with gptr := gptr } := by
    simp only [consumeBump, ht, hcount]
  have hamount : toInt (if s.size < n ∧ base + s.gptr + n < 2 ^ 64 then s.size else n) =
      (min n s.size : Nat) ↔ s.ConsumeFits base n := by
    have hlt := toInt_lt n
    by_cases hclamp : s.size < n ∧ base + s.gptr + n < 2 ^ 64
    · rw [if_pos hclamp, Nat.min_eq_right hclamp.1.le, toInt_eq_iff]
      constructor
      · intro hfits
        exact ⟨by omega, fun _ hwrap => by omega⟩
      · intro hfits
        have := hfits.narrow
        omega
    · rw [if_neg hclamp]
      by_cases hle : n ≤ s.size
      · rw [Nat.min_eq_left hle, toInt_eq_iff]
        constructor
        · intro hfits
          exact ⟨by omega, fun hgt => by omega⟩
        · intro hfits
          have := hfits.narrow
          omega
      · rw [Nat.min_eq_right (by omega)]
        constructor
        · intro hfits
          exact ⟨by omega, fun _ _ => hfits⟩
        · intro hfits
          exact hfits.wrap (by omega) (by omega)
  rw [← hamount, hconsume]
  have hsizet : t.size = t.pptr - t.gptr := rfl
  constructor
  · rintro ⟨s', hs', hc⟩
    obtain ⟨gptr, hbump, rfl⟩ := Option.map_eq_some_iff.mp hs'
    have hsum := (bump_eq_some.mp hbump).1
    have hto : gptr = s.gptr + min n s.size := hc.gptr
    omega
  · intro hint
    have hbump : t.bump t.gptr (toInt
        (if s.size < n ∧ base + s.gptr + n < 2 ^ 64 then s.size else n)) =
        some (t.gptr + min n s.size) := by
      rw [bump_eq_some, hint]
      omega
    refine ⟨_, congrArg _ hbump, ?_⟩
    refine ⟨⟨hwf.eback, ?_, hwf.egptr, hwf.pptr, hwf.epptr, hwf.buffer⟩, hadv.maxSize, hadv.buffer,
      ?_, hadv.pptr, hadv.epptr⟩
    · show t.gptr + min n s.size ≤ t.egptr
      omega
    · show t.gptr + min n s.size = s.gptr + min n s.size
      rw [hgptr]

theorem compacted_wellFormed (h : s.WellFormed) : s.compacted.WellFormed :=
  ⟨h.eback, h.gptr, h.egptr, h.pptr, h.epptr, h.length_compacted⟩

/-- The pointers are in order and the limit has not changed. -/
structure Intact (maxSize : Nat) (s : BasicStreambuf α) : Prop where
  wellFormed : s.WellFormed
  maxSize : s.maxSize = maxSize

variable {maxSize : Nat}

theorem compacted_intact (h : Intact maxSize s) : Intact maxSize s.compacted :=
  ⟨compacted_wellFormed h.wellFormed, h.maxSize⟩

theorem reserved_intact (h : Intact maxSize s) (hr : Reserved s n s') : Intact maxSize s' :=
  ⟨hr.wellFormed, hr.maxSize.trans h.maxSize⟩

theorem appended_intact {c : α} (h : Intact maxSize s) (ha : Appended s c s') :
    Intact maxSize s' :=
  ⟨ha.wellFormed, ha.maxSize.trans h.maxSize⟩

theorem advanced_intact (h : Intact maxSize s) (ha : Advanced s k s') : Intact maxSize s' :=
  ⟨ha.wellFormed, ha.maxSize.trans h.maxSize⟩

end Amounts

/-! ### Calls that may throw -/

section Throwing

variable [Inhabited α]

/-- `reserve`, for a vector whose `resize` may throw as well and then leaves its elements alone. -/
def reserveOrThrow (resizes : Bool) (s : BasicStreambuf α) (n : Nat) :
    Except (LengthError α) (BasicStreambuf α) :=
  if n ≤ s.epptr - s.pptr then
    .ok s
  else
    let (pnext, s) :=
      if 0 < s.gptr then
        let pnext := s.pptr - s.gptr
        (pnext, { s with buffer := memmove s.buffer s.gptr pnext })
      else
        (s.pptr, s)
    if s.epptr - pnext < n then
      if n ≤ s.maxSize ∧ pnext ≤ s.maxSize - n then
        if resizes then
          let pend := pnext + n
          let s := { s with buffer := resize s.buffer (max pend 1) }
          .ok ((s.setg 0 0 pnext).setp pnext pend)
        else
          .error ⟨s⟩
      else
        .error ⟨s⟩
    else
      .ok ((s.setg 0 0 pnext).setp pnext s.epptr)

def prepareOrThrow (resizes : Bool) (s : BasicStreambuf α) (n : Nat) :
    Except (LengthError α) (BasicStreambuf α × MutableBuffer) :=
  (s.reserveOrThrow resizes n).map fun s => (s, ⟨s.pptr, n⟩)

def overflowOrThrow (resizes : Bool) (s : BasicStreambuf α) :
    Option α → Except (LengthError α) (BasicStreambuf α × Option α)
  | some c =>
    let reserved :=
      if s.pptr = s.epptr then
        let bufferSize := s.pptr - s.gptr
        if bufferSize < s.maxSize ∧ s.maxSize - bufferSize < bufferDelta then
          s.reserveOrThrow resizes (s.maxSize - bufferSize)
        else
          s.reserveOrThrow resizes bufferDelta
      else
        .ok s
    reserved.map fun s => (s.put c, some c)
  | none => .ok (s, notEof none)

def sputcOrThrow (resizes : Bool) (s : BasicStreambuf α) (c : α) :
    Except (LengthError α) (BasicStreambuf α × Option α) :=
  if s.pptr < s.epptr then .ok (s.put c, some c) else s.overflowOrThrow resizes (some c)

/-- The stream buffer after a call, whether it returns or throws. -/
def after {β : Type v} : Except (LengthError α) (BasicStreambuf α × β) → BasicStreambuf α
  | .ok r => r.1
  | .error e => e.state

inductive Operation (α : Type u)
  | prepare (resizes : Bool) (n : Nat)
  | write (i : Nat) (c : α)
  | commit (n : Nat)
  | consume (base n : Nat)
  | sputc (resizes : Bool) (c : α)
  | overflow (resizes : Bool) (c : Option α)
  | sgetc
  | underflow
  | sbumpc
  deriving DecidableEq

def operate (s : BasicStreambuf α) : Operation α → Option (BasicStreambuf α)
  | .prepare resizes n => some (after (s.prepareOrThrow resizes n))
  | .write i c => some { s with buffer := s.buffer.set (s.pptr + i) c }
  | .commit n => s.commitBump n
  | .consume base n => s.consumeBump base n
  | .sputc resizes c => some (after (s.sputcOrThrow resizes c))
  | .overflow resizes c => some (after (s.overflowOrThrow resizes c))
  | .sgetc => some s.sgetc.1
  | .underflow => some s.underflow.1
  | .sbumpc => some s.sbumpc.1

/-- The counts are of type `size_t`, the vector lies in the memory, and the amounts that are
committed and consumed fit. -/
def Fitting (s : BasicStreambuf α) : Operation α → Prop
  | .commit n => s.CommitFits n
  | .consume base n =>
    n < 2 ^ 64 ∧ base + s.buffer.length < 2 ^ 64 ∧ s.ConsumeFits base n
  | _ => True

instance (s : BasicStreambuf α) (o : Operation α) : Decidable (s.Fitting o) := by
  induction o using Operation.casesOn <;> dsimp only [Fitting] <;> infer_instance

section Runs

variable {s s' : BasicStreambuf α} {resizes : Bool} {n maxSize : Nat}

theorem reserveOrThrow_true (s : BasicStreambuf α) (n : Nat) :
    s.reserveOrThrow true n = s.reserve n := rfl

/-- Where it throws, the characters have been moved and the pointers have not. -/
theorem reserveOrThrow_eq (resizes : Bool) (s : BasicStreambuf α) (n : Nat) :
    s.reserveOrThrow resizes n =
      if s.epptr - s.pptr < n ∧ s.epptr - s.size < n ∧ resizes = false then
        .error ⟨s.compacted⟩
      else
        s.reserve n := by
  cases resizes with
  | true => rw [reserveOrThrow_true, if_neg (fun h => Bool.noConfusion h.2.2)]
  | false =>
    have heq : s.reserveOrThrow false n =
        if n ≤ s.epptr - s.pptr then .ok s
        else if s.epptr - s.size < n then .error ⟨s.compacted⟩
        else .ok ((s.compacted.setg 0 0 s.size).setp s.size s.epptr) := by
      unfold reserveOrThrow
      by_cases hg : 0 < s.gptr
      · simp only [if_pos hg, Bool.false_eq_true, if_false, ite_self]
        rfl
      · have hg : s.gptr = 0 := Nat.eq_zero_of_not_pos hg
        rw [compacted_of_gptr_eq hg, size, hg]
        simp only [Nat.lt_irrefl, if_false, Bool.false_eq_true, ite_self, Nat.sub_zero]
    rw [heq, reserve_eq]
    simp only [eq_self, and_true]
    split_ifs <;> first | rfl | omega

theorem error_of_reserve {e : LengthError α} (hr : s.reserve n = .error e) :
    e = ⟨s.compacted⟩ := by
  rw [reserve_eq] at hr
  split_ifs at hr
  cases hr
  rfl

theorem reserveOrThrow_cases (resizes : Bool) (n : Nat) (h : s.WellFormed) :
    (∃ s', s.reserveOrThrow resizes n = .ok s' ∧ Reserved s n s') ∨
      s.reserveOrThrow resizes n = .error ⟨s.compacted⟩ := by
  rw [reserveOrThrow_eq]
  split
  · exact Or.inr rfl
  · cases hr : s.reserve n with
    | ok s' => exact Or.inl ⟨s', rfl, (reserve_ok h hr).2⟩
    | error e => exact Or.inr (congrArg _ (error_of_reserve hr))

theorem overflowOrThrow_intact (resizes : Bool) (c : Option α) (h : Intact maxSize s) :
    Intact maxSize (after (s.overflowOrThrow resizes c)) := by
  cases c with
  | none => exact h
  | some c =>
    have hput {n : Nat} (hn : 0 < n) : Intact maxSize
        (after ((s.reserveOrThrow resizes n).map fun s => (s.put c, some c))) := by
      rcases reserveOrThrow_cases resizes n h.wellFormed with ⟨s', hs', hr⟩ | herror
      · rw [hs']
        exact appended_intact h (hr.put hn c)
      · rw [herror]
        exact compacted_intact h
    simp only [overflowOrThrow]
    split_ifs with hfull hlimit
    · exact hput (by omega)
    · exact hput (by decide)
    · have hp := h.wellFormed.pptr
      exact appended_intact h (put_appended h.wellFormed (by omega) c)

theorem sputcOrThrow_intact (resizes : Bool) (c : α) (h : Intact maxSize s) :
    Intact maxSize (after (s.sputcOrThrow resizes c)) := by
  unfold sputcOrThrow
  split
  · rename_i hlt
    exact appended_intact h (put_appended h.wellFormed hlt c)
  · exact overflowOrThrow_intact resizes (some c) h

theorem operate_intact {o : Operation α} (h : Intact maxSize s) (hfit : s.Fitting o)
    (hstep : s.operate o = some s') : Intact maxSize s' := by
  cases o with
  | prepare resizes n =>
    cases hstep
    rcases reserveOrThrow_cases resizes n h.wellFormed with ⟨s', hs', hr⟩ | herror
    · rw [prepareOrThrow, hs']
      exact reserved_intact h hr
    · rw [prepareOrThrow, herror]
      exact compacted_intact h
  | write i c =>
    cases hstep
    have hw := h.wellFormed
    exact ⟨⟨hw.eback, hw.gptr, hw.egptr, hw.pptr, hw.epptr, by simpa using hw.buffer⟩, h.maxSize⟩
  | commit n =>
    obtain ⟨t, ht, hc⟩ := (commitBump_iff h.wellFormed).mpr hfit
    obtain rfl := Option.some.inj (hstep.symm.trans ht)
    exact ⟨hc.wellFormed, hc.maxSize.trans h.maxSize⟩
  | consume base n =>
    obtain ⟨t, ht, hc⟩ := (consumeBump_iff h.wellFormed hfit.2.1 hfit.1).mpr hfit.2.2
    obtain rfl := Option.some.inj (hstep.symm.trans ht)
    exact advanced_intact h hc
  | sputc resizes c =>
    cases hstep
    exact sputcOrThrow_intact resizes c h
  | overflow resizes c =>
    cases hstep
    exact overflowOrThrow_intact resizes c h
  | sgetc =>
    cases hstep
    exact advanced_intact h (sgetc_spec h.wellFormed).1
  | underflow =>
    cases hstep
    exact advanced_intact h (underflow_spec h.wellFormed).1
  | sbumpc =>
    cases hstep
    exact advanced_intact h (sbumpc_spec h.wellFormed).1

theorem intact_of_reachable (h : Reachable operate Fitting (construct maxSize) s) :
    Intact maxSize s :=
  h.invariant ⟨construct_wellFormed maxSize, rfl⟩ fun hs hok hstep => operate_intact hs hok hstep

/-- Exactly the amounts that fit are committed and consumed as they are documented. -/
theorem clamping {base : Nat} (h : Reachable operate Fitting (construct maxSize) s)
    (hbase : base + s.buffer.length < 2 ^ 64) (hn : n < 2 ^ 64) :
    ((∃ s', s.commitBump n = some s' ∧ Committed s (min n (s.epptr - s.pptr)) s') ↔
      s.CommitFits n) ∧
    ((∃ s', s.consumeBump base n = some s' ∧ Advanced s (min n s.size) s') ↔
      s.ConsumeFits base n) :=
  ⟨commitBump_iff (intact_of_reachable h).wellFormed,
    consumeBump_iff (intact_of_reachable h).wellFormed hbase hn⟩

end Runs

end Throwing

/-- One character is left of two, in a vector near the start of the memory. -/
def partlyRead : List (Operation Nat) :=
  [.prepare true 2, .write 0 10, .write 1 11, .commit 2, .consume 4096 1]

def partlyReadState : BasicStreambuf Nat :=
  { maxSize := 16, buffer := 10 :: 11 :: List.replicate 14 0, eback := 0, gptr := 1, egptr := 2,
    pptr := 2, epptr := 16 }

theorem clamping_partlyRead :
    (∃ s', partlyReadState.commitBump 20 = some s' ∧ Committed partlyReadState 14 s') ∧
      ∃ s', partlyReadState.consumeBump 4096 20 = some s' ∧ Advanced partlyReadState 1 s' := by
  have hrun : exec (guarded operate Fitting) (construct 16) partlyRead = some partlyReadState := by
    decide +kernel
  obtain ⟨hcommit, hconsume⟩ := clamping (exec_guarded_reachable hrun)
    (show 4096 + partlyReadState.buffer.length < 2 ^ 64 by decide) (show 20 < 2 ^ 64 by decide)
  exact ⟨hcommit.mpr (by decide), hconsume.mpr (by decide)⟩

/-- With the greatest count the pointer sum wraps, and the get pointer moves back. -/
theorem not_clamping :
    exec (guarded operate Fitting) (construct 16) partlyRead = some partlyReadState ∧
      (partlyReadState.consumeBump 4096 (2 ^ 64 - 1)).map data = some [10, 11] ∧
      ¬∃ s', partlyReadState.consumeBump 4096 (2 ^ 64 - 1) = some s' ∧
        Advanced partlyReadState (min (2 ^ 64 - 1) partlyReadState.size) s' := by
  have hrun : exec (guarded operate Fitting) (construct 16) partlyRead = some partlyReadState := by
    decide +kernel
  refine ⟨hrun, by decide, ?_⟩
  rw [consumeBump_iff (intact_of_reachable (exec_guarded_reachable hrun)).wellFormed (by decide)
    (by decide)]
  decide

end Asio.BasicStreambuf
