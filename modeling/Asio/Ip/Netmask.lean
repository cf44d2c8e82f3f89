import Asio.Ip.Network

/-! Networks from masks. -/

namespace Asio.Ip

open Lib Lib.BigEndian

/-- By how much a byte of the mask makes the prefix longer, and whether it is the last one to do
so: each case falls through to the next one, until that of `0`. -/
def maskCase (b : Byte) : Option (Nat × Bool) :=
  match b.toNat with
  | 255 => some (8, false)
  | 254 => some (7, true)
  | 252 => some (6, true)
  | 248 => some (5, true)
  | 240 => some (4, true)
  | 224 => some (3, true)
  | 192 => some (2, true)
  | 128 => some (1, true)
  | 0 => some (0, true)
  | _ => none

/-- The loop over the bytes of the mask. -/
def maskLoop : List Byte → (finished : Bool) → (prefixLength : Nat) → Except StdException Nat
  | [], _, prefixLength => .ok prefixLength
  | b :: bs, true, prefixLength =>
    if b ≠ 0 then
      .error (.invalidArgument "non-contiguous netmask")
    else
      maskLoop bs true prefixLength
  | b :: bs, false, prefixLength =>
    match maskCase b with
    | some (k, finished) => maskLoop bs finished (prefixLength + k)
    | none => .error (.outOfRange "non-contiguous netmask")

theorem maskCase_of_add {b : Byte} {k : Nat} (hk : k ≤ 8) (h : b.toNat + 2 ^ (8 - k) = 256) :
    maskCase b = some (k, decide (k < 8)) := by
  have hcases : ∀ k ≤ 8, maskCase (BitVec.ofNat 8 (256 - 2 ^ (8 - k))) =
      some (k, decide (k < 8)) := by decide
  have hb : b = BitVec.ofNat 8 (256 - 2 ^ (8 - k)) := by
    rw [← Nat.eq_sub_of_add_eq h, BitVec.ofNat_toNat, BitVec.setWidth_eq]
  rw [hb]
  exact hcases k hk

/-- A byte of the mask is so many ones, and then zeros. -/
theorem add_of_maskCase {b : Byte} {k : Nat} {finished : Bool}
    (h : maskCase b = some (k, finished)) :
    k ≤ 8 ∧ finished = decide (k < 8) ∧ b.toNat + 2 ^ (8 - k) = 256 := by
  rw [maskCase] at h
  split at h <;> rename_i hb <;> cases h <;> rw [hb] <;> decide

theorem maskCase_range (b : Byte) (k : Nat) (finished : Bool)
    (h : maskCase b = some (k, finished)) : k = 8 ∧ finished = false ∨ k < 8 ∧ finished = true := by
  obtain ⟨hk, rfl, -⟩ := add_of_maskCase h
  rcases Nat.lt_or_ge k 8 with hlt | hge
  · exact Or.inr ⟨hlt, decide_eq_true hlt⟩
  · exact Or.inl ⟨Nat.le_antisymm hk hge, decide_eq_false (Nat.not_lt_of_le hge)⟩

theorem maskCase_full (b : Byte) : maskCase b = some (8, false) ↔ b.toNat = 255 :=
  ⟨fun h => Nat.succ.inj (add_of_maskCase h).2.2,
    fun h => maskCase_of_add (Nat.le_refl 8) (congrArg (· + 1) h)⟩

theorem maskCase_part (k : Nat) (hk : k < 8) (b : Byte) :
    maskCase b = some (k, true) ↔ b.toNat + 2 ^ (8 - k) = 256 := by
  refine ⟨fun h => (add_of_maskCase h).2.2, fun h => ?_⟩
  rw [maskCase_of_add hk.le h, decide_eq_true hk]

section Loop

variable {bs : List Byte} {b : Byte} {p q k : Nat} {finished : Bool}

theorem maskLoop_nil : maskLoop [] finished p = .ok p := by
  cases finished <;> rfl

theorem maskLoop_cons_true : maskLoop (b :: bs) true p =
    if b ≠ 0 then .error (.invalidArgument "non-contiguous netmask") else maskLoop bs true p := rfl

theorem maskLoop_cons_false : maskLoop (b :: bs) false p =
    match maskCase b with
    | some (k, finished) => maskLoop bs finished (p + k)
    | none => .error (.outOfRange "non-contiguous netmask") := rfl

theorem maskLoop_finished : maskLoop bs true p = .ok q ↔ q = p ∧ value bs = 0 := by
  induction bs with
  | nil =>
    rw [maskLoop_nil, Except.ok.injEq, value_nil]
    exact ⟨fun h => ⟨h.symm, rfl⟩, fun h => h.1.symm⟩
  | cons b bs ih =>
    have hpos : 0 < 256 ^ bs.length := Nat.pow_pos (by decide)
    rw [maskLoop_cons_true, value_cons, Nat.add_eq_zero_iff, Nat.mul_eq_zero]
    split
    · rename_i hne
      refine iff_of_false (fun h => nomatch h) fun h => ?_
      exact hne (BitVec.eq_of_toNat_eq (h.2.1.resolve_right hpos.ne'))
    · rename_i hzero
      rw [ih]
      have hb : b.toNat = 0 := congrArg BitVec.toNat (not_not.mp hzero)
      exact and_congr_right fun _ => ⟨fun h => ⟨Or.inl hb, h⟩, And.right⟩

theorem le_of_maskLoop (h : maskLoop bs finished p = .ok q) :
    p ≤ q ∧ q ≤ p + 8 * bs.length := by
  induction bs generalizing finished p with
  | nil =>
    rw [maskLoop_nil, Except.ok.injEq] at h
    exact ⟨h.le, h.ge⟩
  | cons b bs ih =>
    rw [List.length_cons]
    cases finished with
    | true =>
      obtain ⟨rfl, -⟩ := maskLoop_finished.mp h
      exact ⟨le_rfl, Nat.le_add_right _ _⟩
    | false =>
      rw [maskLoop_cons_false] at h
      split at h
      · rename_i k finished hcase
        have hrange := maskCase_range b k finished hcase
        have hle := ih h
        omega
      · cases h

/-- So many ones, and then zeros. -/
def Run (k w n : Nat) : Prop := k ≤ w ∧ n + 2 ^ (w - k) = 2 ^ w

theorem mul_add_eq_mul {x y v m : Nat} (hv : v < m) : x * m + v = y * m ↔ x = y ∧ v = 0 := by
  constructor
  · intro h
    have hmod := congrArg (· % m) h
    simp only [Nat.mul_add_mod_self_right, Nat.mod_eq_of_lt hv, Nat.mul_mod_left] at hmod
    rw [hmod, Nat.add_zero] at h
    exact ⟨Nat.eq_of_mul_eq_mul_right (Nat.zero_lt_of_lt hv) h, hmod⟩
  · rintro ⟨rfl, rfl⟩
    rfl

/-- The first byte of a run is full, or the last one that is not zero. -/
theorem run_cons : Run k (8 * (b :: bs).length) (value (b :: bs)) ↔
    (k < 8 ∧ b.toNat + 2 ^ (8 - k) = 256 ∧ value bs = 0) ∨
      (8 ≤ k ∧ b.toNat = 255 ∧ Run (k - 8) (8 * bs.length) (value bs)) := by
  have hlt : value bs < 2 ^ (8 * bs.length) := pow_256 _ ▸ value_lt
  have hlen : 8 * (b :: bs).length = 8 + 8 * bs.length := by
    rw [List.length_cons, Nat.mul_succ, Nat.add_comm]
  have hpow : 2 ^ (8 + 8 * bs.length) = 256 * 2 ^ (8 * bs.length) := Nat.pow_add ..
  rw [Run, Run, value_cons, pow_256, hlen, hpow]
  rcases Nat.lt_or_ge k 8 with hk | hk
  · have hle : k ≤ 8 + 8 * bs.length := hk.le.trans (Nat.le_add_right _ _)
    have hsub : 8 + 8 * bs.length - k = 8 - k + 8 * bs.length := by omega
    have hsum : b.toNat * 2 ^ (8 * bs.length) + value bs + 2 ^ (8 - k) * 2 ^ (8 * bs.length) =
        (b.toNat + 2 ^ (8 - k)) * 2 ^ (8 * bs.length) + value bs := by ring
    rw [hsub, Nat.pow_add, hsum, mul_add_eq_mul hlt]
    simp only [hle, hk, true_and, Nat.not_le_of_lt hk, false_and, or_false]
  · have hsub : 8 + 8 * bs.length - k = 8 * bs.length - (k - 8) := by omega
    have hle : k ≤ 8 + 8 * bs.length ↔ k - 8 ≤ 8 * bs.length := by omega
    have hrest : 2 ^ (8 * bs.length - (k - 8)) ≤ 2 ^ (8 * bs.length) :=
      Nat.pow_le_pow_right (by decide) (Nat.sub_le _ _)
    have hb : b.toNat < 256 := b.isLt
    rw [hsub, hle]
    simp only [Nat.not_lt_of_le hk, false_and, false_or, hk, true_and]
    constructor
    · rintro ⟨hle, heq⟩
      have hfull : b.toNat = 255 := by
        by_contra hne
        have hb : b.toNat * 2 ^ (8 * bs.length) ≤ 254 * 2 ^ (8 * bs.length) :=
          Nat.mul_le_mul_right _ (by omega)
        omega
      rw [hfull] at heq
      exact ⟨hfull, hle, by omega⟩
    · rintro ⟨hfull, hle, heq⟩
      rw [hfull]
      exact ⟨hle, by omega⟩

theorem maskLoop_eq_ok : maskLoop bs false p = .ok (p + k) ↔ Run k (8 * bs.length) (value bs) := by
  induction bs generalizing p k with
  | nil =>
    rw [maskLoop_nil, Except.ok.injEq, Run, value_nil, List.length_nil, Nat.mul_zero, Nat.zero_sub,
      Nat.zero_add]
    omega
  | cons b bs ih =>
    rw [run_cons, maskLoop_cons_false]
    split
    · rename_i j finished hcase
      rcases maskCase_range b j finished hcase with ⟨rfl, rfl⟩ | ⟨hj, rfl⟩
      · have hb := (maskCase_full b).mp hcase
        rcases Nat.lt_or_ge k 8 with hk | hk
        · have hpow : 2 ^ 1 ≤ 2 ^ (8 - k) := Nat.pow_le_pow_right (by decide) (by omega)
          refine iff_of_false (fun h => ?_) (fun h => ?_)
          · have hle := le_of_maskLoop h
            omega
          · omega
        · have hadd : p + k = p + 8 + (k - 8) := by omega
          rw [hadd, ih]
          simp only [Nat.not_lt_of_le hk, false_and, false_or, hk, true_and, hb]
      · have hb := (maskCase_part j hj b).mp hcase
        have hj' : p + k = p + j ↔ k = j := Nat.add_left_cancel_iff
        rw [maskLoop_finished, hj']
        constructor
        · rintro ⟨rfl, hv⟩
          exact Or.inl ⟨hj, hb, hv⟩
        · rintro (⟨hk, hb', hv⟩ | ⟨-, hfull, -⟩)
          · have hsome := hcase.symm.trans ((maskCase_part k hk b).mpr hb')
            simp only [Option.some.injEq, Prod.mk.injEq, and_true] at hsome
            exact ⟨hsome.symm, hv⟩
          · cases hcase.symm.trans ((maskCase_full b).mpr hfull)
    · rename_i hcase
      refine iff_of_false (fun h => nomatch h) ?_
      rintro (⟨hk, hb, -⟩ | ⟨-, hb, -⟩)
      · exact nomatch hcase.symm.trans ((maskCase_part k hk b).mpr hb)
      · exact nomatch hcase.symm.trans ((maskCase_full b).mpr hb)

end Loop

namespace NetworkV4

/-- The constructor from an address and a mask. -/
def constructMask (addr mask : AddressV4) : Except StdException NetworkV4 :=
  match h : maskLoop mask.toBytes false 0 with
  | .ok prefixLength =>
    .ok ⟨addr, prefixLength, (le_of_maskLoop h).2.trans (by rw [AddressV4.toBytes, length_bytes])⟩
  | .error e => .error e

variable {addr mask : AddressV4} {n : NetworkV4} {k : Nat}

/-- The first bits of the mask are ones and the others are zeros. -/
def IsContiguous (mask : AddressV4) (k : Nat) : Prop :=
  k ≤ 32 ∧ ∀ i < 32, mask.toUint.getMsbD i = decide (i < k)

theorem value_toBytes : value mask.toBytes = mask.toNat := by
  rw [AddressV4.toBytes, value_bytes]
  exact Nat.mod_eq_of_lt AddressV4.toNat_lt

theorem run_iff_netmask : Run k 32 mask.toNat ↔
    k ≤ 32 ∧ mask.toUint = BitVec.allOnes 32 <<< (32 - k) := by
  rw [Run]
  refine and_congr_right fun hk => ?_
  have hpow : 2 ^ (32 - k) ≤ 2 ^ 32 := Nat.pow_le_pow_right (by decide) (Nat.sub_le _ _)
  rw [← BitVec.toNat_inj, Block.toNat_mask (Nat.sub_le _ _)]
  exact (eq_tsub_iff_add_eq_of_le hpow).symm

theorem isContiguous_iff : IsContiguous mask k ↔
    k ≤ 32 ∧ mask.toUint = BitVec.allOnes 32 <<< (32 - k) := by
  refine and_congr_right fun hk => ?_
  have hbit (i : Nat) (hi : i < 32) :
      (BitVec.allOnes 32 <<< (32 - k)).getMsbD i = decide (i < k) := by
    rw [BitVec.getMsbD_shiftLeft, BitVec.getMsbD_allOnes, decide_eq_decide]
    omega
  constructor
  · intro h
    exact BitVec.eq_of_getMsbD_eq fun i hi => (h i hi).trans (hbit i hi).symm
  · intro h i hi
    rw [h]
    exact hbit i hi

theorem run_iff : Run k 32 mask.toNat ↔ IsContiguous mask k :=
  run_iff_netmask.trans isContiguous_iff.symm

theorem constructMask_eq_ok : constructMask addr mask = .ok n ↔
    n.address = addr ∧ IsContiguous mask n.prefixLength := by
  have hrun (k : Nat) : maskLoop mask.toBytes false 0 = .ok k ↔ IsContiguous mask k := by
    have h : maskLoop mask.toBytes false 0 = .ok (0 + k) ↔
        Run k (8 * mask.toBytes.length) (value mask.toBytes) := maskLoop_eq_ok
    rw [value_toBytes, AddressV4.toBytes, length_bytes, run_iff, Nat.zero_add] at h
    exact h
  rw [constructMask]
  split
  · rename_i k h
    have hk := (hrun k).mp h
    rw [Except.ok.injEq]
    constructor
    · rintro rfl
      exact ⟨rfl, hk⟩
    · rintro ⟨rfl, hn⟩
      obtain rfl : k = n.prefixLength := Except.ok.inj (h.symm.trans ((hrun _).mpr hn))
      rfl
  · rename_i e h
    exact iff_of_false (fun heq => nomatch heq) fun hn => nomatch h.symm.trans ((hrun _).mpr hn.2)

theorem netmask_eq_iff : n.netmask = mask ↔ IsContiguous mask n.prefixLength := by
  rw [isContiguous_iff, and_iff_right n.prefixLength_le, eq_comm (a := mask.toUint),
    ← hostBits, ← toUint_netmask]
  exact ⟨congrArg AddressV4.toUint, fun h => AddressV4.toNat_inj.mp (congrArg BitVec.toNat h)⟩

theorem constructMask_netmask :
    (∀ addr mask, (∃ n, constructMask addr mask = .ok n) ↔ ∃ k, IsContiguous mask k) ∧
    (∀ addr mask n, constructMask addr mask = .ok n →
      n.address = addr ∧ IsContiguous mask n.prefixLength ∧ n.netmask = mask) ∧
    (∀ n : NetworkV4, constructMask n.address n.netmask = .ok n) := by
  refine ⟨fun addr mask => ⟨?_, ?_⟩, fun addr mask n h => ?_, fun n => ?_⟩
  · rintro ⟨n, h⟩
    exact ⟨n.prefixLength, (constructMask_eq_ok.mp h).2⟩
  · rintro ⟨k, h⟩
    exact ⟨⟨addr, k, h.1⟩, constructMask_eq_ok.mpr ⟨rfl, h⟩⟩
  · obtain ⟨haddr, hmask⟩ := constructMask_eq_ok.mp h
    exact ⟨haddr, hmask, netmask_eq_iff.mpr hmask⟩
  · exact constructMask_eq_ok.mpr ⟨rfl, netmask_eq_iff.mp rfl⟩

end NetworkV4

end Asio.Ip
