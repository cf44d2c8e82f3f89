import Asio.Ip.AddressRange
import Asio.Lib.Block

/-! Networks: an address and the length of its prefix. -/

namespace Asio.Ip

open Lib Lib.BigEndian

/-- An exception of the standard library, with its text. -/
inductive StdException
  | outOfRange (what : String)
  | invalidArgument (what : String)
  deriving DecidableEq, Repr

/-! ### Version 4 -/

structure NetworkV4 where
  address : AddressV4
  prefixLength : Nat
  prefixLength_le : prefixLength ≤ 32
  deriving DecidableEq

namespace NetworkV4

def default : NetworkV4 := ⟨.any, 0, Nat.zero_le 32⟩

def construct (addr : AddressV4) (prefixLen : Nat) : Except StdException NetworkV4 :=
  if h : prefixLen > 32 then
    .error (.outOfRange "prefix length too large")
  else
    .ok ⟨addr, prefixLen, Nat.le_of_not_lt h⟩

variable (n other : NetworkV4)

def netmask : AddressV4 :=
  ⟨if n.prefixLength = 0 then 0 else 0xFFFFFFFF <<< (32 - n.prefixLength)⟩

def network : AddressV4 := ⟨n.address.toUint &&& n.netmask.toUint⟩

def broadcast : AddressV4 := ⟨n.network.toUint ||| (n.netmask.toUint ^^^ 0xFFFFFFFF)⟩

def isHost : Bool := n.prefixLength = 32

def hosts : AddressRange AddressV4 :=
  if n.isHost then
    ⟨n.address, ⟨n.address.toUint + 1⟩⟩
  else
    ⟨⟨n.network.toUint + 1⟩, n.broadcast⟩

/-- A length that one network has is accepted for another. -/
def canonical : NetworkV4 := ⟨n.network, n.prefixLength, n.prefixLength_le⟩

def isSubnetOf : Bool :=
  if other.prefixLength ≥ n.prefixLength then
    false
  else
    let me : NetworkV4 := ⟨n.address, other.prefixLength, other.prefixLength_le⟩
    other.canonical = me.canonical

/-! The numbers of the addresses of a block have the prefix in common. -/

def hostBits : Nat := 32 - n.prefixLength

def Contains (a : AddressV4) : Prop := Block.Mem n.hostBits n.address.toNat a.toNat

instance (a : AddressV4) : Decidable (n.Contains a) := inferInstanceAs (Decidable (Block.Mem ..))

theorem construct_eq : construct n.address n.prefixLength = .ok n := by
  rw [construct, dif_neg (Nat.not_lt_of_le n.prefixLength_le)]

theorem hostBits_le : n.hostBits ≤ 32 := Nat.sub_le _ _

theorem toUint_netmask : n.netmask.toUint = BitVec.allOnes 32 <<< n.hostBits := by
  rw [netmask, hostBits]
  split
  · rename_i hzero
    rw [hzero]
    rfl
  · rfl

theorem toNat_network : n.network.toNat = Block.first n.hostBits n.address.toNat := by
  rw [network, toUint_netmask]
  exact Block.toNat_and_mask

theorem toNat_broadcast : n.broadcast.toNat = Block.last n.hostBits n.address.toNat := by
  have hnot (x : BitVec 32) : x ^^^ 0xFFFFFFFF = ~~~x := BitVec.xor_allOnes
  rw [broadcast, network, toUint_netmask, hnot]
  exact Block.toNat_or_not_mask n.hostBits_le

end NetworkV4

/-! ### Version 6 -/

structure NetworkV6 where
  address : AddressV6
  prefixLength : Nat
  prefixLength_le : prefixLength ≤ 128
  deriving DecidableEq

/-- A byte of the first address of a network. -/
def maskByte (prefixLength i : Nat) (b : Byte) : Byte :=
  if prefixLength ≤ i * 8 then
    0
  else if prefixLength < (i + 1) * 8 then
    b &&& BitVec.ofNat 8 (0xFF00 >>> (prefixLength % 8))
  else
    b

/-- A byte of the last address. -/
def fillByte (prefixLength i : Nat) (b : Byte) : Byte :=
  if prefixLength ≤ i * 8 then
    0xFF
  else if prefixLength < (i + 1) * 8 then
    b ||| BitVec.ofNat 8 (0xFF >>> (prefixLength % 8))
  else
    b

section Bytes

variable {p i : Nat} {b : Byte} {bs : List Byte}

theorem maskByte_succ : maskByte p (i + 1) = maskByte (p - 8) i := by
  funext b
  have hle : p ≤ (i + 1) * 8 ↔ p - 8 ≤ i * 8 := by omega
  have hlt : p < (i + 1 + 1) * 8 ↔ p - 8 < (i + 1) * 8 := by omega
  rw [maskByte, maskByte]
  simp only [hle, hlt]
  split
  · rfl
  · have hmod : p % 8 = (p - 8) % 8 := by omega
    rw [hmod]

theorem fillByte_succ : fillByte p (i + 1) = fillByte (p - 8) i := by
  funext b
  have hle : p ≤ (i + 1) * 8 ↔ p - 8 ≤ i * 8 := by omega
  have hlt : p < (i + 1 + 1) * 8 ↔ p - 8 < (i + 1) * 8 := by omega
  rw [fillByte, fillByte]
  simp only [hle, hlt]
  split
  · rfl
  · have hmod : p % 8 = (p - 8) % 8 := by omega
    rw [hmod]

theorem maskByte_of_ge (h : 8 ≤ p) : maskByte p 0 b = b := by
  rw [maskByte, if_neg (by omega), if_neg (by omega)]

theorem fillByte_of_ge (h : 8 ≤ p) : fillByte p 0 b = b := by
  rw [fillByte, if_neg (by omega), if_neg (by omega)]

/-- The mask of a byte keeps the bits in front of those of the hosts. -/
theorem maskByte_of_lt (h : p < 8) : maskByte p 0 b = b &&& (BitVec.allOnes 8 <<< (8 - p)) := by
  have hmask : ∀ p < 8, BitVec.ofNat 8 (0xFF00 >>> (p % 8)) = BitVec.allOnes 8 <<< (8 - p) := by
    decide
  rw [maskByte, Nat.zero_mul, Nat.zero_add, Nat.one_mul, if_pos h]
  split
  · rename_i hzero
    rw [Nat.le_zero.mp hzero]
    exact BitVec.and_zero.symm
  · rw [hmask p h]

theorem fillByte_of_lt (h : p < 8) : fillByte p 0 b = b ||| ~~~(BitVec.allOnes 8 <<< (8 - p)) := by
  have hmask : ∀ p < 8, BitVec.ofNat 8 (0xFF >>> (p % 8)) = ~~~(BitVec.allOnes 8 <<< (8 - p)) := by
    decide
  rw [fillByte, Nat.zero_mul, Nat.zero_add, Nat.one_mul, if_pos h]
  split
  · rename_i hzero
    rw [Nat.le_zero.mp hzero]
    exact BitVec.or_allOnes.symm
  · rw [hmask p h]

theorem toNat_maskByte (h : p < 8) (b : Byte) :
    (maskByte p 0 b).toNat = Block.first (8 - p) b.toNat := by
  rw [maskByte_of_lt h, Block.toNat_and_mask]

theorem toNat_fillByte (h : p < 8) (b : Byte) :
    (fillByte p 0 b).toNat = Block.last (8 - p) b.toNat := by
  rw [fillByte_of_lt h, ← Block.toNat_or_not_mask (Nat.sub_le 8 p), Block.and_or_not]

theorem pow_256 (k : Nat) : 256 ^ k = 2 ^ (8 * k) := by
  rw [Nat.pow_mul]

/-- The bits of the first byte that belong to the hosts, if there are any. -/
theorem value_mask (h : p ≤ 8 * bs.length) :
    value (bs.mapIdx (maskByte p)) = Block.first (8 * bs.length - p) (value bs) := by
  induction bs generalizing p with
  | nil => rw [List.mapIdx_nil, value_nil, Block.first, Nat.zero_div, Nat.zero_mul]
  | cons b bs ih =>
    have hlt : value bs < 2 ^ (8 * bs.length) := pow_256 _ ▸ value_lt
    rw [List.length_cons] at h
    simp only [List.mapIdx_cons, maskByte_succ, value_cons, List.length_mapIdx, List.length_cons,
      pow_256]
    rcases Nat.lt_or_ge p 8 with hp | hp
    · have hbits : 8 * (bs.length + 1) - p = 8 * bs.length + (8 - p) := by omega
      rw [ih (by omega), toNat_maskByte hp, hbits, Block.first_mul_add hlt,
        Nat.sub_eq_zero_of_le hp.le, Nat.sub_zero, Block.first_of_lt hlt, Nat.add_zero]
    · have hbits : 8 * (bs.length + 1) - p = 8 * bs.length - (p - 8) := by omega
      have hdvd : 2 ^ (8 * bs.length - (p - 8)) ∣ b.toNat * 2 ^ (8 * bs.length) :=
        Nat.dvd_mul_left_of_dvd (Nat.pow_dvd_pow 2 (Nat.sub_le _ _)) _
      rw [ih (by omega), maskByte_of_ge hp, hbits, Block.first_add hdvd]

theorem value_fill (h : p ≤ 8 * bs.length) :
    value (bs.mapIdx (fillByte p)) = Block.last (8 * bs.length - p) (value bs) := by
  induction bs generalizing p with
  | nil =>
    rw [List.length_nil, Nat.mul_zero] at h
    rw [Nat.eq_zero_of_le_zero h]
    rfl
  | cons b bs ih =>
    have hlt : value bs < 2 ^ (8 * bs.length) := pow_256 _ ▸ value_lt
    rw [List.length_cons] at h
    simp only [List.mapIdx_cons, fillByte_succ, value_cons, List.length_mapIdx, List.length_cons,
      pow_256]
    rcases Nat.lt_or_ge p 8 with hp | hp
    · have hbits : 8 * (bs.length + 1) - p = 8 * bs.length + (8 - p) := by omega
      have hlast : Block.last (8 * bs.length) (value bs) = 2 ^ (8 * bs.length) - 1 := by
        rw [Block.last, Block.first_of_lt hlt, Nat.zero_add]
      rw [ih (by omega), toNat_fillByte hp, hbits, Block.last_mul_add hlt,
        Nat.sub_eq_zero_of_le hp.le, Nat.sub_zero, hlast]
    · have hbits : 8 * (bs.length + 1) - p = 8 * bs.length - (p - 8) := by omega
      have hdvd : 2 ^ (8 * bs.length - (p - 8)) ∣ b.toNat * 2 ^ (8 * bs.length) :=
        Nat.dvd_mul_left_of_dvd (Nat.pow_dvd_pow 2 (Nat.sub_le _ _)) _
      rw [ih (by omega), fillByte_of_ge hp, hbits, Block.last_add hdvd]

end Bytes

namespace NetworkV6

def default : NetworkV6 := ⟨.any, 0, Nat.zero_le 128⟩

def construct (addr : AddressV6) (prefixLen : Nat) : Except StdException NetworkV6 :=
  if h : prefixLen > 128 then
    .error (.outOfRange "prefix length too large")
  else
    .ok ⟨addr, prefixLen, Nat.le_of_not_lt h⟩

variable (n other : NetworkV6)

/-- An address in the scope of the network, of its bytes changed one by one. -/
def withBytes (f : Nat → Byte → Byte) : AddressV6 :=
  ⟨n.address.toBytes.mapIdx f, n.address.scopeId,
    List.length_mapIdx.trans n.address.length_toBytes⟩

def network : AddressV6 := n.withBytes (maskByte n.prefixLength)

def hosts : AddressRange AddressV6 :=
  ⟨n.withBytes (maskByte n.prefixLength), next (n.withBytes (fillByte n.prefixLength))⟩

def canonical : NetworkV6 := ⟨n.network, n.prefixLength, n.prefixLength_le⟩

def isSubnetOf : Bool :=
  if other.prefixLength ≥ n.prefixLength then
    false
  else
    let me : NetworkV6 := ⟨n.address, other.prefixLength, other.prefixLength_le⟩
    other.canonical = me.canonical

def hostBits : Nat := 128 - n.prefixLength

/-- An address of the network is in its scope. -/
def Contains (a : AddressV6) : Prop :=
  a.scopeId = n.address.scopeId ∧ Block.Mem n.hostBits n.address.toNat a.toNat

instance (a : AddressV6) : Decidable (n.Contains a) := inferInstanceAs (Decidable (_ ∧ _))

theorem construct_eq : construct n.address n.prefixLength = .ok n := by
  rw [construct, dif_neg (Nat.not_lt_of_le n.prefixLength_le)]

theorem hostBits_le : n.hostBits ≤ 128 := Nat.sub_le _ _

theorem toNat_network : n.network.toNat = Block.first n.hostBits n.address.toNat := by
  have hlen := n.address.length_toBytes
  have hle : n.prefixLength ≤ 8 * n.address.toBytes.length := hlen.symm ▸ n.prefixLength_le
  have h := value_mask hle
  rw [hlen] at h
  exact h

theorem toNat_last :
    (n.withBytes (fillByte n.prefixLength)).toNat = Block.last n.hostBits n.address.toNat := by
  have hlen := n.address.length_toBytes
  have hle : n.prefixLength ≤ 8 * n.address.toBytes.length := hlen.symm ▸ n.prefixLength_le
  have h := value_fill hle
  rw [hlen] at h
  exact h

end NetworkV6

end Asio.Ip
