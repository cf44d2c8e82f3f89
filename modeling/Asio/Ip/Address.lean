import Asio.Lib.BigEndian

/-! Addresses of both versions. -/

namespace Asio.Ip

open Lib.BigEndian

/-! ### Version 4 -/

/-- The address is kept in host byte order. -/
structure AddressV4 where
  toUint : BitVec 32
  deriving DecidableEq, Repr

namespace AddressV4

def toBytes (a : AddressV4) : List Byte := bytes 4 a.toUint.toNat

def ofBytes (bs : List Byte) : AddressV4 := ⟨BitVec.ofNat 32 (value bs)⟩

def any : AddressV4 := ⟨0⟩

instance : LT AddressV4 := ⟨fun a b => a.toUint < b.toUint⟩

instance : LE AddressV4 := ⟨fun a b => a.toUint ≤ b.toUint⟩

instance (a b : AddressV4) : Decidable (a < b) := inferInstanceAs (Decidable (_ < _))

instance (a b : AddressV4) : Decidable (a ≤ b) := inferInstanceAs (Decidable (_ ≤ _))

def toNat (a : AddressV4) : Nat := a.toUint.toNat

def ofNat (n : Nat) : AddressV4 := ⟨BitVec.ofNat 32 n⟩

variable {a b : AddressV4} {m n : Nat}

theorem toNat_lt : a.toNat < 2 ^ 32 := a.toUint.isLt

theorem lt_iff : a < b ↔ a.toNat < b.toNat := Iff.rfl

theorem le_iff : a ≤ b ↔ a.toNat ≤ b.toNat := Iff.rfl

theorem toNat_ofNat : (ofNat n).toNat = n % 2 ^ 32 := BitVec.toNat_ofNat ..

theorem toNat_inj : a.toNat = b.toNat ↔ a = b := by
  rw [toNat, toNat, BitVec.toNat_inj, AddressV4.mk.injEq]

theorem ofNat_toNat : ofNat a.toNat = a := by
  rw [← toNat_inj, toNat_ofNat, Nat.mod_eq_of_lt toNat_lt]

theorem ofNat_injective (hm : m < 2 ^ 32) (hn : n < 2 ^ 32) (h : ofNat m = ofNat n) : m = n := by
  rwa [← toNat_inj, toNat_ofNat, toNat_ofNat, Nat.mod_eq_of_lt hm, Nat.mod_eq_of_lt hn] at h

end AddressV4

/-! ### Version 6 -/

structure AddressV6 where
  toBytes : List Byte
  scopeId : BitVec 32
  length_toBytes : toBytes.length = 16
  deriving DecidableEq

namespace AddressV6

def any : AddressV6 := ⟨List.replicate 16 0, 0, rfl⟩

def less (a b : AddressV6) : Bool :=
  match memcmp a.toBytes b.toBytes with
  | .lt => true
  | .gt => false
  | .eq => a.scopeId < b.scopeId

instance : LT AddressV6 := ⟨fun a b => less a b = true⟩

instance : LE AddressV6 := ⟨fun a b => ¬ b < a⟩

instance (a b : AddressV6) : Decidable (a < b) := inferInstanceAs (Decidable (_ = true))

instance (a b : AddressV6) : Decidable (a ≤ b) := inferInstanceAs (Decidable (¬ _))

def toNat (a : AddressV6) : Nat := value a.toBytes

def ofNat (scope : BitVec 32) (n : Nat) : AddressV6 := ⟨bytes 16 n, scope, length_bytes⟩

variable {a b : AddressV6} {scope : BitVec 32} {m n : Nat}

theorem toNat_lt : a.toNat < 2 ^ 128 := by
  have h : value a.toBytes < 256 ^ a.toBytes.length := value_lt
  rwa [a.length_toBytes] at h

theorem toNat_ofNat : (ofNat scope n).toNat = n % 2 ^ 128 := value_bytes

theorem toNat_inj (hscope : a.scopeId = b.scopeId) : a.toNat = b.toNat ↔ a = b := by
  constructor
  · intro h
    obtain ⟨as, s, ha⟩ := a
    obtain ⟨bs, t, hb⟩ := b
    obtain rfl : as = bs := eq_of_value_eq (ha.trans hb.symm) h
    obtain rfl : s = t := hscope
    rfl
  · rintro rfl
    rfl

theorem ofNat_toNat : ofNat a.scopeId a.toNat = a := by
  have hscope : (ofNat a.scopeId a.toNat).scopeId = a.scopeId := rfl
  rw [← toNat_inj hscope, toNat_ofNat, Nat.mod_eq_of_lt toNat_lt]

theorem ofNat_injective (hm : m < 2 ^ 128) (hn : n < 2 ^ 128) (h : ofNat scope m = ofNat scope n) :
    m = n := by
  have hval := congrArg toNat h
  rwa [toNat_ofNat, toNat_ofNat, Nat.mod_eq_of_lt hm, Nat.mod_eq_of_lt hn] at hval

/-- Addresses are in the order of their numbers, and then of their scopes. -/
theorem lt_iff : a < b ↔ a.toNat < b.toNat ∨ a.toNat = b.toNat ∧ a.scopeId < b.scopeId := by
  have hcmp : memcmp a.toBytes b.toBytes = compare a.toNat b.toNat :=
    memcmp_eq (a.length_toBytes.trans b.length_toBytes.symm)
  change less a b = true ↔ _
  rw [less, hcmp]
  rcases Nat.lt_trichotomy a.toNat b.toNat with h | h | h
  · rw [compare_lt_iff_lt.mpr h]
    exact ⟨fun _ => Or.inl h, fun _ => rfl⟩
  · rw [compare_eq_iff_eq.mpr h]
    simp only [decide_eq_true_eq]
    refine ⟨fun hscope => Or.inr ⟨h, hscope⟩, fun hlt => hlt.elim (fun hlt => ?_) And.right⟩
    exact absurd h hlt.ne
  · rw [compare_gt_iff_gt.mpr h]
    refine ⟨nofun, fun hlt => hlt.elim (fun hlt => ?_) fun heq => ?_⟩
    · exact (Nat.lt_asymm h hlt).elim
    · exact (h.ne heq.1.symm).elim

/-- In one scope the order is that of the numbers. -/
theorem lt_iff_of_scopeId (h : a.scopeId = b.scopeId) : a < b ↔ a.toNat < b.toNat := by
  rw [lt_iff, h]
  simp only [BitVec.lt_irrefl, and_false, or_false]

end AddressV6

end Asio.Ip
