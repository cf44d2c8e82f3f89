import Mathlib.Order.Defs.Unbundled
import Asio.Ip.Network

/-! Subnets: the networks of one version are in the order of their blocks. -/

universe u v

namespace Asio.Ip

open Lib

/-- What holds of the networks of a version, with their addresses. -/
structure SubnetOrder {ν : Type u} {α : Type v} (isSubnetOf : ν → ν → Bool)
    (prefixLength : ν → Nat) (Contains : ν → α → Prop) (network : ν → α) (canonical : ν → ν) :
    Prop where
  iff_subset : ∀ a b, isSubnetOf a b ↔
    prefixLength b < prefixLength a ∧ ∀ x, Contains a x → Contains b x
  strict : IsStrictOrder ν fun a b => isSubnetOf a b
  network_canonical : ∀ n, network (canonical n) = network n
  canonical_canonical : ∀ n, canonical (canonical n) = canonical n
  canonical_left : ∀ a b, isSubnetOf (canonical a) b = isSubnetOf a b
  canonical_right : ∀ a b, isSubnetOf a (canonical b) = isSubnetOf a b

theorem isStrictOrder_of_subset {ν : Type u} {α : Type v} {isSubnetOf : ν → ν → Bool}
    {prefixLength : ν → Nat} {Contains : ν → α → Prop}
    (h : ∀ a b, isSubnetOf a b ↔
      prefixLength b < prefixLength a ∧ ∀ x, Contains a x → Contains b x) :
    IsStrictOrder ν fun a b => isSubnetOf a b where
  irrefl := by
    intro a ha
    exact Nat.lt_irrefl _ ((h a a).mp ha).1
  trans := by
    intro a b c hab hbc
    obtain ⟨hlen, hsub⟩ := (h a b).mp hab
    obtain ⟨hlen', hsub'⟩ := (h b c).mp hbc
    exact (h a c).mpr ⟨hlen'.trans hlen, fun x hx => hsub' x (hsub x hx)⟩

/-! ### Version 4 -/

namespace NetworkV4

variable {a b n : NetworkV4} {x : AddressV4}

theorem hostBits_mono (h : b.prefixLength < a.prefixLength) : a.hostBits ≤ b.hostBits :=
  Nat.sub_le_sub_left h.le 32

theorem isSubnetOf_iff :
    a.isSubnetOf b ↔ b.prefixLength < a.prefixLength ∧ b.Contains a.address := by
  rw [isSubnetOf]
  split
  · rename_i hge
    exact iff_of_false Bool.false_ne_true fun h => Nat.not_lt_of_le hge h.1
  · rename_i hlt
    simp only [decide_eq_true_eq, canonical, NetworkV4.mk.injEq, and_true]
    rw [← AddressV4.toNat_inj, toNat_network, toNat_network]
    exact ⟨fun heq => ⟨Nat.lt_of_not_le hlt, (Block.first_eq_iff.mp heq.symm)⟩,
      fun h => (Block.first_eq_iff.mpr h.2).symm⟩

theorem contains_network : n.Contains n.network := by
  rw [Contains, toNat_network]
  exact Block.mem_first

theorem Contains.mono (hx : a.Contains x) (h : b.prefixLength < a.prefixLength) :
    b.Contains a.address ↔ b.Contains x := by
  have hmem : Block.Mem b.hostBits a.address.toNat x.toNat := Block.Mem.mono hx (hostBits_mono h)
  exact ⟨fun hb => hmem.trans hb, fun hb => hmem.symm.trans hb⟩

theorem network_canonical : n.canonical.network = n.network := by
  rw [← AddressV4.toNat_inj, toNat_network, toNat_network]
  apply Block.first_eq_iff.mpr
  exact contains_network (n := n)

theorem contains_canonical : n.canonical.Contains x ↔ n.Contains x := by
  have hnetwork : Block.Mem n.hostBits n.address.toNat n.network.toNat := contains_network
  exact ⟨fun h => h.trans hnetwork, fun h => h.trans hnetwork.symm⟩

theorem subnetOrder :
    SubnetOrder isSubnetOf prefixLength Contains network canonical := by
  have hsubset (a b : NetworkV4) : a.isSubnetOf b ↔
      b.prefixLength < a.prefixLength ∧ ∀ x, a.Contains x → b.Contains x := by
    rw [isSubnetOf_iff]
    refine and_congr_right fun hlt => ⟨fun hb x hx => (hx.mono hlt).mp hb, fun hsub => ?_⟩
    exact hsub a.address Block.mem_self
  refine ⟨hsubset, isStrictOrder_of_subset hsubset, fun n => network_canonical, fun n => ?_,
    fun a b => ?_, fun a b => ?_⟩
  · rw [canonical, NetworkV4.mk.injEq]
    exact ⟨network_canonical, rfl⟩
  · rw [Bool.eq_iff_iff, isSubnetOf_iff, isSubnetOf_iff]
    exact and_congr_right fun hlt => ((contains_network (n := a)).mono hlt).symm
  · rw [Bool.eq_iff_iff, isSubnetOf_iff, isSubnetOf_iff]
    exact and_congr_right fun _ => contains_canonical

end NetworkV4

/-! ### Version 6 -/

namespace NetworkV6

variable {a b n : NetworkV6} {x : AddressV6}

theorem hostBits_mono (h : b.prefixLength < a.prefixLength) : a.hostBits ≤ b.hostBits :=
  Nat.sub_le_sub_left h.le 128

theorem network_eq_iff {m : NetworkV6} : n.network = m.network ↔
    n.address.scopeId = m.address.scopeId ∧ n.network.toNat = m.network.toNat := by
  constructor
  · intro h
    have hscope : n.network.scopeId = m.network.scopeId := congrArg AddressV6.scopeId h
    exact ⟨hscope, congrArg AddressV6.toNat h⟩
  · rintro ⟨hscope, hnat⟩
    have hscope : n.network.scopeId = m.network.scopeId := hscope
    exact (AddressV6.toNat_inj hscope).mp hnat

theorem isSubnetOf_iff :
    a.isSubnetOf b ↔ b.prefixLength < a.prefixLength ∧ b.Contains a.address := by
  rw [isSubnetOf]
  split
  · rename_i hge
    exact iff_of_false Bool.false_ne_true fun h => Nat.not_lt_of_le hge h.1
  · rename_i hlt
    simp only [decide_eq_true_eq, canonical, NetworkV6.mk.injEq, and_true]
    rw [network_eq_iff, toNat_network, toNat_network]
    exact ⟨fun heq => ⟨Nat.lt_of_not_le hlt, heq.1.symm, (Block.first_eq_iff.mp heq.2.symm)⟩,
      fun h => ⟨h.2.1.symm, (Block.first_eq_iff.mpr h.2.2).symm⟩⟩

theorem contains_network : n.Contains n.network := by
  rw [Contains, toNat_network]
  exact ⟨rfl, Block.mem_first⟩

theorem Contains.mono (hx : a.Contains x) (h : b.prefixLength < a.prefixLength) :
    b.Contains a.address ↔ b.Contains x := by
  have hmem : Block.Mem b.hostBits a.address.toNat x.toNat :=
    Block.Mem.mono hx.2 (hostBits_mono h)
  exact ⟨fun hb => ⟨hx.1.trans hb.1, hmem.trans hb.2⟩,
    fun hb => ⟨hx.1.symm.trans hb.1, hmem.symm.trans hb.2⟩⟩

theorem network_canonical : n.canonical.network = n.network := by
  rw [network_eq_iff, toNat_network, toNat_network]
  refine ⟨rfl, Block.first_eq_iff.mpr ?_⟩
  exact (contains_network (n := n)).2

theorem contains_canonical : n.canonical.Contains x ↔ n.Contains x := by
  have hnetwork : Block.Mem n.hostBits n.address.toNat n.network.toNat := contains_network.2
  exact and_congr_right fun _ => ⟨fun h => h.trans hnetwork, fun h => h.trans hnetwork.symm⟩

theorem subnetOrder :
    SubnetOrder isSubnetOf prefixLength Contains network canonical := by
  have hsubset (a b : NetworkV6) : a.isSubnetOf b ↔
      b.prefixLength < a.prefixLength ∧ ∀ x, a.Contains x → b.Contains x := by
    rw [isSubnetOf_iff]
    refine and_congr_right fun hlt => ⟨fun hb x hx => (hx.mono hlt).mp hb, fun hsub => ?_⟩
    exact hsub a.address ⟨rfl, Block.mem_self⟩
  refine ⟨hsubset, isStrictOrder_of_subset hsubset, fun n => network_canonical, fun n => ?_,
    fun a b => ?_, fun a b => ?_⟩
  · rw [canonical, NetworkV6.mk.injEq]
    exact ⟨network_canonical, rfl⟩
  · rw [Bool.eq_iff_iff, isSubnetOf_iff, isSubnetOf_iff]
    exact and_congr_right fun hlt => ((contains_network (n := a)).mono hlt).symm
  · rw [Bool.eq_iff_iff, isSubnetOf_iff, isSubnetOf_iff]
    exact and_congr_right fun _ => contains_canonical

end NetworkV6

theorem subnets_ordered :
    SubnetOrder NetworkV4.isSubnetOf NetworkV4.prefixLength NetworkV4.Contains NetworkV4.network
      NetworkV4.canonical ∧
    SubnetOrder NetworkV6.isSubnetOf NetworkV6.prefixLength NetworkV6.Contains NetworkV6.network
      NetworkV6.canonical :=
  ⟨NetworkV4.subnetOrder, NetworkV6.subnetOrder⟩

end Asio.Ip
