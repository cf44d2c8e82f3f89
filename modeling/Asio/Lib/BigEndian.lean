import Mathlib.Algebra.GroupWithZero.Nat
import Mathlib.Data.List.Basic
import Mathlib.Order.Compare
import Mathlib.Tactic.Ring

/-! Numbers as bytes, the most significant one first. -/

namespace Asio.Lib.BigEndian

abbrev Byte := BitVec 8

def value : List Byte → Nat
  | [] => 0
  | b :: bs => b.toNat * 256 ^ bs.length + value bs

/-- The last `k` bytes of a number. -/
def bytes : (k n : Nat) → List Byte
  | 0, _ => []
  | k + 1, n => BitVec.ofNat 8 (n / 256 ^ k) :: bytes k n

/-- `memcmp`, of as many bytes as both have. -/
def memcmp : List Byte → List Byte → Ordering
  | a :: as, b :: bs => if a < b then .lt else if b < a then .gt else memcmp as bs
  | _, _ => .eq

variable {as bs : List Byte} {a b : Byte} {k m n : Nat}

@[simp] theorem value_nil : value [] = 0 := rfl

@[simp] theorem value_cons : value (b :: bs) = b.toNat * 256 ^ bs.length + value bs := rfl

theorem value_append : value (as ++ bs) = value as * 256 ^ bs.length + value bs := by
  induction as with
  | nil => simp only [List.nil_append, value_nil, Nat.zero_mul, Nat.zero_add]
  | cons a as ih =>
    simp only [List.cons_append, value_cons, ih, List.length_append]
    ring

theorem value_concat : value (bs ++ [b]) = value bs * 256 + b.toNat := by
  simp only [value_append, value_cons, value_nil, List.length_cons, List.length_nil]
  ring

theorem value_lt : value bs < 256 ^ bs.length := by
  induction bs with
  | nil => exact Nat.one_pos
  | cons b bs ih =>
    have hb : b.toNat + 1 ≤ 256 := b.isLt
    calc b.toNat * 256 ^ bs.length + value bs
        < b.toNat * 256 ^ bs.length + 256 ^ bs.length := Nat.add_lt_add_left ih _
      _ = (b.toNat + 1) * 256 ^ bs.length := by ring
      _ ≤ 256 * 256 ^ bs.length := Nat.mul_le_mul_right _ hb
      _ = 256 ^ (b :: bs).length := by rw [List.length_cons, Nat.pow_succ, Nat.mul_comm]

/-- The complement of the bytes is that of the number. -/
theorem value_map_not (bs : List Byte) :
    value (bs.map (~~~ ·)) + (value bs + 1) = 256 ^ bs.length := by
  induction bs with
  | nil => rfl
  | cons b bs ih =>
    have hb : (~~~b).toNat + b.toNat = 255 := by
      have hlt := b.isLt
      rw [BitVec.toNat_not]
      omega
    rw [List.map_cons, value_cons, value_cons, List.length_map, List.length_cons]
    calc
      (~~~b).toNat * 256 ^ bs.length + value (bs.map (~~~ ·)) +
          (b.toNat * 256 ^ bs.length + value bs + 1)
        = ((~~~b).toNat + b.toNat) * 256 ^ bs.length +
            (value (bs.map (~~~ ·)) + (value bs + 1)) := by ring
      _ = 255 * 256 ^ bs.length + 256 ^ bs.length := by rw [hb, ih]
      _ = 256 ^ (bs.length + 1) := by ring

@[simp] theorem length_bytes : (bytes k n).length = k := by
  induction k with
  | zero => rfl
  | succ k ih => rw [bytes, List.length_cons, ih]

theorem value_bytes : value (bytes k n) = n % 256 ^ k := by
  induction k with
  | zero => rw [Nat.pow_zero, Nat.mod_one]; rfl
  | succ k ih =>
    rw [bytes, value_cons, ih, length_bytes, BitVec.toNat_ofNat]
    have hmod : n % (256 ^ k * 256) = n % 256 ^ k + 256 ^ k * (n / 256 ^ k % 256) := Nat.mod_mul
    rw [Nat.pow_succ 256, hmod, Nat.mul_comm (256 ^ k), Nat.add_comm]

/-- The comparison of strings of one length is that of the numbers. -/
theorem memcmp_eq (h : as.length = bs.length) : memcmp as bs = compare (value as) (value bs) := by
  induction as generalizing bs with
  | nil =>
    obtain rfl := List.eq_nil_of_length_eq_zero h.symm
    rfl
  | cons a as ih =>
    cases bs with
    | nil => cases h
    | cons b bs =>
      have hlen : as.length = bs.length := Nat.succ.inj h
      have has : value as < 256 ^ bs.length := hlen ▸ value_lt
      have hbs : value bs < 256 ^ bs.length := value_lt
      have hstep {x y u v : Nat} (hxy : x < y) (hu : u < 256 ^ bs.length) :
          x * 256 ^ bs.length + u < y * 256 ^ bs.length + v :=
        calc x * 256 ^ bs.length + u < (x + 1) * 256 ^ bs.length := by
              rw [Nat.add_mul, Nat.one_mul]; exact Nat.add_lt_add_left hu _
          _ ≤ y * 256 ^ bs.length := Nat.mul_le_mul_right _ hxy
          _ ≤ y * 256 ^ bs.length + v := Nat.le_add_right _ _
      rw [memcmp, value_cons, value_cons, hlen]
      split
      · rename_i hab
        exact (compare_lt_iff_lt.mpr (hstep hab has)).symm
      · rename_i hab
        split
        · rename_i hba
          exact (compare_gt_iff_gt.mpr (hstep hba hbs)).symm
        · rename_i hba
          have heq : a.toNat = b.toNat := by
            rw [BitVec.lt_def] at hab hba
            omega
          rw [ih hlen, heq]
          simp only [compare, compareOfLessAndEq, Nat.add_lt_add_iff_left, Nat.add_right_inj]

theorem eq_of_value_eq (hlen : as.length = bs.length) (h : value as = value bs) : as = bs := by
  induction as generalizing bs with
  | nil => exact (List.eq_nil_of_length_eq_zero hlen.symm).symm
  | cons a as ih =>
    cases bs with
    | nil => cases hlen
    | cons b bs =>
      have hlen' : as.length = bs.length := Nat.succ.inj hlen
      have has : value as < 256 ^ bs.length := hlen' ▸ value_lt
      have hbs : value bs < 256 ^ bs.length := value_lt
      rw [value_cons, value_cons, hlen'] at h
      have hrest : value as = value bs := by
        have hmod := congrArg (· % 256 ^ bs.length) h
        simpa only [Nat.mul_add_mod_self_right, Nat.mod_eq_of_lt has, Nat.mod_eq_of_lt hbs]
          using hmod
      rw [hrest] at h
      have hhead : a.toNat = b.toNat :=
        Nat.eq_of_mul_eq_mul_right (Nat.pow_pos (by decide)) (Nat.add_right_cancel h)
      rw [BitVec.eq_of_toNat_eq hhead, ih hlen' hrest]

end Asio.Lib.BigEndian
