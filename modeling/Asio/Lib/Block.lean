import Mathlib.Algebra.GroupWithZero.Nat
import Mathlib.Algebra.Order.Group.Nat
import Mathlib.Tactic.Ring

/-! Blocks of numbers that differ in their last bits only. -/

namespace Asio.Lib.Block

/-- The numbers that have all but the last `h` bits in common with `a`. -/
def Mem (h a x : Nat) : Prop := x / 2 ^ h = a / 2 ^ h

instance (h a x : Nat) : Decidable (Mem h a x) := inferInstanceAs (Decidable (_ = _))

def first (h a : Nat) : Nat := a / 2 ^ h * 2 ^ h

def last (h a : Nat) : Nat := first h a + (2 ^ h - 1)

variable {h h' w a b x : Nat}

theorem first_le : first h a ≤ a := Nat.div_mul_le_self a (2 ^ h)

theorem last_succ : last h a + 1 = first h a + 2 ^ h := by
  have hpos : 0 < 2 ^ h := Nat.two_pow_pos h
  rw [last]
  omega

theorem mem_self : Mem h a a := rfl

theorem mem_iff : Mem h a x ↔ first h a ≤ x ∧ x ≤ last h a := by
  rw [Mem, Nat.div_eq_iff (Nat.two_pow_pos h), last, ← Nat.add_sub_assoc (Nat.two_pow_pos h)]
  rfl

theorem mem_iff_lt : Mem h a x ↔ first h a ≤ x ∧ x < first h a + 2 ^ h := by
  rw [mem_iff, ← last_succ, Nat.lt_succ_iff]

theorem first_div : first h a / 2 ^ h = a / 2 ^ h := Nat.mul_div_left _ (Nat.two_pow_pos h)

theorem mem_first : Mem h a (first h a) := first_div

theorem first_eq_iff : first h a = first h b ↔ Mem h b a :=
  Nat.mul_left_inj (Nat.two_pow_pos h).ne'

/-- The blocks of numbers below a power of two lie below it. -/
theorem last_lt (ha : a < 2 ^ w) (hw : h ≤ w) : last h a < 2 ^ w := by
  have hpow : 2 ^ (w - h) * 2 ^ h = 2 ^ w := by rw [← Nat.pow_add, Nat.sub_add_cancel hw]
  have hdiv : a / 2 ^ h < 2 ^ (w - h) := by
    rw [Nat.div_lt_iff_lt_mul (Nat.two_pow_pos h), hpow]
    exact ha
  apply Nat.lt_of_succ_le
  calc last h a + 1 = (a / 2 ^ h + 1) * 2 ^ h := by rw [last_succ, first, Nat.add_mul, Nat.one_mul]
    _ ≤ 2 ^ (w - h) * 2 ^ h := Nat.mul_le_mul_right _ hdiv
    _ = 2 ^ w := hpow

/-! ### Blocks of numbers in two parts -/

theorem first_add (hx : 2 ^ h ∣ x) : first h (x + a) = x + first h a := by
  obtain ⟨c, rfl⟩ := hx
  rw [first, first, Nat.mul_add_div (Nat.two_pow_pos h), Nat.add_mul, Nat.mul_comm (2 ^ h)]

theorem last_add (hx : 2 ^ h ∣ x) : last h (x + a) = x + last h a := by
  rw [last, last, first_add hx, Nat.add_assoc]

theorem first_of_lt (ha : a < 2 ^ h) : first h a = 0 := by
  rw [first, Nat.div_eq_of_lt ha, Nat.zero_mul]

/-- The last part of the number does not matter if the whole of it varies. -/
theorem first_mul_add (ha : a < 2 ^ h) : first (h + h') (b * 2 ^ h + a) = first h' b * 2 ^ h := by
  have hdiv : (b * 2 ^ h + a) / 2 ^ h = b := by
    rw [Nat.mul_comm, Nat.mul_add_div (Nat.two_pow_pos h), Nat.div_eq_of_lt ha, Nat.add_zero]
  rw [first, first, Nat.pow_add, ← Nat.div_div_eq_div_mul, hdiv]
  ring

theorem last_mul_add (ha : a < 2 ^ h) :
    last (h + h') (b * 2 ^ h + a) = last h' b * 2 ^ h + (2 ^ h - 1) := by
  apply Nat.succ.inj
  have hpos : 0 < 2 ^ h := Nat.two_pow_pos h
  calc last (h + h') (b * 2 ^ h + a) + 1
      = first h' b * 2 ^ h + 2 ^ (h + h') := by rw [last_succ, first_mul_add ha]
    _ = (last h' b + 1) * 2 ^ h := by rw [last_succ, Nat.pow_add]; ring
    _ = last h' b * 2 ^ h + (2 ^ h - 1) + 1 := by
      rw [Nat.add_mul, Nat.one_mul, Nat.add_assoc, Nat.sub_add_cancel hpos]

/-! ### Masks -/

theorem and_mask {x : BitVec w} : x &&& (BitVec.allOnes w <<< h) = (x >>> h) <<< h := by
  apply BitVec.eq_of_getLsbD_eq
  intro i hi
  simp only [BitVec.getLsbD_and, BitVec.getLsbD_shiftLeft, BitVec.getLsbD_ushiftRight,
    BitVec.getLsbD_allOnes, hi, decide_true, Bool.true_and]
  by_cases hih : i < h
  · simp only [hih, decide_true, Bool.not_true, Bool.false_and, Bool.and_false]
  · have hsub : i - h < w := Nat.lt_of_le_of_lt (Nat.sub_le i h) hi
    simp only [hih, decide_false, Bool.not_false, Bool.true_and, hsub, decide_true, Bool.and_true,
      Nat.add_sub_cancel' (Nat.le_of_not_lt hih)]

theorem toNat_and_mask {x : BitVec w} :
    (x &&& (BitVec.allOnes w <<< h)).toNat = first h x.toNat := by
  have hlt : first h x.toNat < 2 ^ w := Nat.lt_of_le_of_lt first_le x.isLt
  rw [and_mask, BitVec.toNat_shiftLeft, BitVec.toNat_ushiftRight, Nat.shiftRight_eq_div_pow,
    Nat.shiftLeft_eq]
  exact Nat.mod_eq_of_lt hlt

theorem toNat_mask (hw : h ≤ w) : (BitVec.allOnes w <<< h).toNat = 2 ^ w - 2 ^ h := by
  have hself : BitVec.allOnes w &&& (BitVec.allOnes w <<< h) = BitVec.allOnes w <<< h :=
    BitVec.allOnes_and
  have hlast : last h (2 ^ w - 1) + 1 = 2 ^ w := by
    apply Nat.le_antisymm
    · exact last_lt (Nat.sub_lt (Nat.two_pow_pos w) Nat.one_pos) hw
    · have hle := (mem_iff.mp (mem_self (h := h) (a := 2 ^ w - 1))).2
      omega
  rw [← hself, toNat_and_mask, BitVec.toNat_allOnes]
  rw [last_succ] at hlast
  exact Nat.eq_sub_of_add_eq hlast

theorem toNat_or_not_mask {x : BitVec w} (hw : h ≤ w) :
    ((x &&& (BitVec.allOnes w <<< h)) ||| ~~~(BitVec.allOnes w <<< h)).toNat = last h x.toNat := by
  have hzero : (x &&& (BitVec.allOnes w <<< h)) &&& ~~~(BitVec.allOnes w <<< h) = 0#w := by
    rw [BitVec.and_assoc, BitVec.and_not_self]
    exact BitVec.and_zero
  have hpow : 2 ^ h ≤ 2 ^ w := Nat.pow_le_pow_right (by decide) hw
  have hnot : (~~~(BitVec.allOnes w <<< h)).toNat = 2 ^ h - 1 := by
    rw [BitVec.toNat_not, toNat_mask hw]
    omega
  rw [← BitVec.add_eq_or_of_and_eq_zero _ _ hzero, BitVec.toNat_add, toNat_and_mask, hnot]
  exact Nat.mod_eq_of_lt (last_lt x.isLt hw)

theorem and_or_not (x m : BitVec w) : (x &&& m) ||| ~~~m = x ||| ~~~m := by
  apply BitVec.eq_of_getLsbD_eq
  intro i hi
  simp only [BitVec.getLsbD_or, BitVec.getLsbD_and, BitVec.getLsbD_not, hi, decide_true,
    Bool.true_and]
  cases x.getLsbD i with
  | false => rw [Bool.false_and]
  | true => cases m.getLsbD i <;> rfl

/-! ### Inclusion -/

/-- A number in a smaller block has the larger one's bits. -/
theorem Mem.mono (hx : Mem h a x) (hh : h ≤ h') : Mem h' a x := by
  have hpow : 2 ^ h' = 2 ^ h * 2 ^ (h' - h) := by rw [← Nat.pow_add, Nat.add_sub_cancel' hh]
  rw [Mem, hpow, ← Nat.div_div_eq_div_mul, ← Nat.div_div_eq_div_mul, hx]

end Asio.Lib.Block
