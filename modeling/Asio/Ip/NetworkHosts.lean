import Asio.Ip.Network

/-! The hosts of a network: which addresses a loop visits, and which are found. -/

universe u

namespace Asio.Ip

open Lib Lib.BigEndian

namespace AddressRange

variable {α : Type u}

theorem find_ne_last [LT α] [LE α] [DecidableLT α] [DecidableLE α] {r : AddressRange α} {a : α}
    (hirrefl : ¬ r.last < r.last) : r.find a ≠ r.last ↔ a ≥ r.first ∧ a < r.last := by
  rw [find]
  split
  · rename_i hin
    refine ⟨fun _ => hin, fun _ heq => ?_⟩
    rw [heq] at hin
    exact hirrefl hin.2
  · rename_i hout
    exact ⟨fun hne => absurd rfl hne, fun hin => absurd hin hout⟩

variable [DecidableEq α] [AddressIterator α]

/-- A loop visits exactly these addresses, each once and in increasing order. -/
def Covers [LT α] (r : AddressRange α) (P : α → Prop) : Prop :=
  ∃ visited, r.Visits visited ∧ visited.Pairwise (· < ·) ∧ ∀ a, a ∈ visited ↔ P a

def Reaches (r : AddressRange α) (P : α → Prop) : Prop :=
  ∃ visited, r.Visits visited ∧ ∃ a ∈ visited, P a

theorem Visits.reaches_iff {r : AddressRange α} {visited : List α} {P : α → Prop}
    (h : r.Visits visited) : r.Reaches P ↔ ∃ a ∈ visited, P a := by
  constructor
  · rintro ⟨visited', h', hmem⟩
    rwa [h.unique h']
  · exact fun hmem => ⟨visited, h, hmem⟩

end AddressRange

open AddressRange

/-! ### Version 4 -/

namespace AddressV4

variable {start count : Nat} {a : AddressV4}

theorem mem_map_range' (hend : start + count ≤ 2 ^ 32) :
    a ∈ (List.range' start count).map ofNat ↔ start ≤ a.toNat ∧ a.toNat < start + count := by
  simp only [List.mem_map, List.mem_range'_1]
  constructor
  · rintro ⟨n, hn, rfl⟩
    rwa [toNat_ofNat, Nat.mod_eq_of_lt (Nat.lt_of_lt_of_le hn.2 hend)]
  · exact fun h => ⟨a.toNat, h, ofNat_toNat⟩

theorem pairwise_map_range' (hend : start + count ≤ 2 ^ 32) :
    ((List.range' start count).map ofNat).Pairwise (· < ·) := by
  rw [List.pairwise_map]
  refine List.Pairwise.imp_of_mem (fun hm hn hlt => ?_) List.pairwise_lt_range'
  rw [List.mem_range'_1] at hm hn
  rwa [lt_iff, toNat_ofNat, toNat_ofNat, Nat.mod_eq_of_lt (Nat.lt_of_lt_of_le hm.2 hend),
    Nat.mod_eq_of_lt (Nat.lt_of_lt_of_le hn.2 hend)]

end AddressV4

namespace NetworkV4

variable {n : NetworkV4}

theorem hosts_of_isHost (h : n.prefixLength = 32) :
    n.hosts = ⟨.ofNat n.address.toNat, .ofNat ((n.address.toNat + 1) % 2 ^ 32)⟩ := by
  have hlast : (⟨n.address.toUint + 1⟩ : AddressV4) =
      .ofNat ((n.address.toNat + 1) % 2 ^ 32) := by
    rw [← AddressV4.toNat_inj, AddressV4.toNat_ofNat, Nat.mod_mod]
    exact BitVec.toNat_add ..
  rw [hosts, isHost, h, AddressV4.ofNat_toNat, ← hlast]
  rfl

/-- A network of more than one address has as many hosts, but for the first and the last. -/
theorem hosts_of_lt (h : n.prefixLength < 32) :
    n.network.toNat + 1 + (2 ^ n.hostBits - 2) = n.broadcast.toNat ∧
      n.hosts = ⟨.ofNat (n.network.toNat + 1),
        .ofNat ((n.network.toNat + 1 + (2 ^ n.hostBits - 2)) % 2 ^ 32)⟩ := by
  have hbits : 1 ≤ n.hostBits := Nat.sub_pos_of_lt h
  have hpow : 2 ^ 1 ≤ 2 ^ n.hostBits := Nat.pow_le_pow_right (by decide) hbits
  have hsum : n.network.toNat + 1 + (2 ^ n.hostBits - 2) = n.broadcast.toNat := by
    rw [toNat_network, toNat_broadcast, Block.last]
    omega
  refine ⟨hsum, ?_⟩
  have hhost : n.isHost = false := decide_eq_false (Nat.ne_of_lt h)
  have hfirst : (⟨n.network.toUint + 1⟩ : AddressV4) = .ofNat (n.network.toNat + 1) := by
    rw [← AddressV4.toNat_inj, AddressV4.toNat_ofNat]
    exact BitVec.toNat_add ..
  rw [hosts, hhost, hfirst, hsum, Nat.mod_eq_of_lt AddressV4.toNat_lt, AddressV4.ofNat_toNat]
  rfl

theorem visits_of_isHost (h : n.prefixLength = 32) : n.hosts.Visits [n.address] := by
  have hlt : n.address.toNat < 2 ^ 32 := AddressV4.toNat_lt
  have hone : 1 < 2 ^ 32 := by decide
  have hvisits := visits_v4 hlt (Nat.succ_le_of_lt hlt) hone
  rw [hosts_of_isHost h]
  simpa only [List.range'_one, List.map_cons, List.map_nil, AddressV4.ofNat_toNat] using hvisits

theorem visits_of_lt (h : n.prefixLength < 32) :
    n.network.toNat + 1 + (2 ^ n.hostBits - 2) ≤ 2 ^ 32 ∧
      n.hosts.Visits ((List.range' (n.network.toNat + 1) (2 ^ n.hostBits - 2)).map .ofNat) := by
  obtain ⟨hsum, hhosts⟩ := hosts_of_lt h
  have hlt : n.broadcast.toNat < 2 ^ 32 := AddressV4.toNat_lt
  rw [hhosts]
  exact ⟨by omega, visits_v4 (by omega) (by omega) (by omega)⟩

theorem covers_of_lt (h : n.prefixLength < 32) :
    n.hosts.Covers fun a => n.network < a ∧ a < n.broadcast := by
  obtain ⟨hend, hvisits⟩ := visits_of_lt h
  obtain ⟨hsum, -⟩ := hosts_of_lt h
  refine ⟨_, hvisits, AddressV4.pairwise_map_range' hend, fun a => ?_⟩
  rw [AddressV4.mem_map_range' hend, hsum]
  rfl

/-- The network of the address from which one cannot go on. -/
theorem find_iff (a : AddressV4) :
    (n.hosts.find a ≠ n.hosts.last ↔ n.hosts.Reaches (· = a)) ↔
      ¬ (n.prefixLength = 32 ∧ a = n.address ∧ a = ⟨0xFFFFFFFF⟩) := by
  have hirrefl : ¬ n.hosts.last < n.hosts.last := Nat.lt_irrefl _
  rw [find_ne_last hirrefl]
  have hlt : a.toNat < 2 ^ 32 := AddressV4.toNat_lt
  rcases Nat.lt_or_eq_of_le n.prefixLength_le with h | h
  · obtain ⟨hend, hvisits⟩ := visits_of_lt h
    obtain ⟨hsum, hhosts⟩ := hosts_of_lt h
    rw [hvisits.reaches_iff, hhosts]
    simp only [exists_eq_right, AddressV4.mem_map_range' hend, ge_iff_le, AddressV4.le_iff,
      AddressV4.lt_iff, AddressV4.toNat_ofNat, Nat.mod_mod]
    have hlast : n.broadcast.toNat < 2 ^ 32 := AddressV4.toNat_lt
    rw [hsum, Nat.mod_eq_of_lt hlast, Nat.mod_eq_of_lt (by omega)]
    exact iff_of_true Iff.rfl fun hhost => h.ne hhost.1
  · have htop : (⟨0xFFFFFFFF⟩ : AddressV4).toNat = 2 ^ 32 - 1 := rfl
    have haddress : n.address.toNat < 2 ^ 32 := AddressV4.toNat_lt
    have hsucc : n.address.toNat + 1 ≤ 2 ^ 32 := haddress
    rw [(visits_of_isHost h).reaches_iff, hosts_of_isHost h]
    simp only [exists_eq_right, List.mem_singleton, ge_iff_le, AddressV4.le_iff, AddressV4.lt_iff,
      AddressV4.toNat_ofNat, Nat.mod_mod, h, true_and, Nat.mod_eq_of_lt haddress]
    rw [← AddressV4.toNat_inj, ← AddressV4.toNat_inj, htop]
    rcases Nat.lt_or_eq_of_le hsucc with hsucc | hsucc
    · rw [Nat.mod_eq_of_lt hsucc]
      omega
    · rw [hsucc, Nat.mod_self]
      omega

end NetworkV4

/-! ### Version 6 -/

namespace AddressV6

variable {start count : Nat} {scope : BitVec 32} {a : AddressV6}

theorem mem_map_range' (hend : start + count ≤ 2 ^ 128) :
    a ∈ (List.range' start count).map (ofNat scope) ↔
      a.scopeId = scope ∧ start ≤ a.toNat ∧ a.toNat < start + count := by
  simp only [List.mem_map, List.mem_range'_1]
  constructor
  · rintro ⟨n, hn, rfl⟩
    rw [toNat_ofNat, Nat.mod_eq_of_lt (Nat.lt_of_lt_of_le hn.2 hend)]
    exact ⟨rfl, hn⟩
  · rintro ⟨rfl, h⟩
    exact ⟨a.toNat, h, ofNat_toNat⟩

theorem pairwise_map_range' (hend : start + count ≤ 2 ^ 128) :
    ((List.range' start count).map (ofNat scope)).Pairwise (· < ·) := by
  rw [List.pairwise_map]
  refine List.Pairwise.imp_of_mem (fun hm hn hlt => ?_) List.pairwise_lt_range'
  rw [List.mem_range'_1] at hm hn
  rwa [lt_iff_of_scopeId (by rfl), toNat_ofNat, toNat_ofNat,
    Nat.mod_eq_of_lt (Nat.lt_of_lt_of_le hm.2 hend),
    Nat.mod_eq_of_lt (Nat.lt_of_lt_of_le hn.2 hend)]

end AddressV6

namespace NetworkV6

variable {n : NetworkV6}

/-- The number of the first address of the block, and that of the last. -/
def firstNat (n : NetworkV6) : Nat := Block.first n.hostBits n.address.toNat

def lastNat (n : NetworkV6) : Nat := Block.last n.hostBits n.address.toNat

theorem lastNat_lt : n.lastNat < 2 ^ 128 := Block.last_lt AddressV6.toNat_lt n.hostBits_le

theorem lastNat_succ : n.lastNat + 1 = n.firstNat + 2 ^ n.hostBits := Block.last_succ

theorem hosts_eq : n.hosts = ⟨.ofNat n.address.scopeId n.firstNat,
    .ofNat n.address.scopeId ((n.firstNat + 2 ^ n.hostBits) % 2 ^ 128)⟩ := by
  have hfirst : n.withBytes (maskByte n.prefixLength) =
      .ofNat n.address.scopeId n.firstNat := by
    rw [firstNat, ← toNat_network]
    exact AddressV6.ofNat_toNat.symm
  have hlast : n.withBytes (fillByte n.prefixLength) = .ofNat n.address.scopeId n.lastNat := by
    rw [lastNat, ← toNat_last]
    exact AddressV6.ofNat_toNat.symm
  rw [hosts, hfirst, hlast, AddressV6.next_ofNat lastNat_lt, lastNat_succ]

/-- How many addresses a loop visits. -/
def hostCount (n : NetworkV6) : Nat := if n.prefixLength = 0 then 0 else 2 ^ n.hostBits

theorem hostBits_lt (h : n.prefixLength ≠ 0) : n.hostBits < 128 :=
  Nat.sub_lt (by decide) (Nat.pos_of_ne_zero h)

theorem visits : n.firstNat + n.hostCount ≤ 2 ^ 128 ∧
    n.hosts.Visits ((List.range' n.firstNat n.hostCount).map (.ofNat n.address.scopeId)) := by
  have hlt := n.lastNat_lt
  have hsucc := n.lastNat_succ
  rw [hosts_eq, hostCount]
  split
  · rename_i hzero
    have hbits : n.hostBits = 128 := by rw [hostBits, hzero]
    have hfirst : n.firstNat = 0 := by
      rw [firstNat, hbits]
      exact Block.first_of_lt AddressV6.toNat_lt
    rw [hbits, hfirst]
    exact ⟨Nat.zero_le _, visits_v6 (Nat.two_pow_pos _) (Nat.zero_le _) (Nat.two_pow_pos _)⟩
  · rename_i hne
    have hpos : 0 < 2 ^ n.hostBits := Nat.two_pow_pos _
    have hpow : 2 ^ n.hostBits < 2 ^ 128 := Nat.pow_lt_pow_right (by decide) (hostBits_lt hne)
    exact ⟨hsucc ▸ hlt, visits_v6 (by omega) (hsucc ▸ hlt) hpow⟩

theorem contains_iff {a : AddressV6} : n.Contains a ↔
    a.scopeId = n.address.scopeId ∧ n.firstNat ≤ a.toNat ∧ a.toNat < n.firstNat + 2 ^ n.hostBits :=
  and_congr_right fun _ => Block.mem_iff_lt

theorem contains_address : n.Contains n.address := ⟨rfl, Block.mem_self⟩

def CoversBlock (n : NetworkV6) : Prop :=
  ∃ visited, n.hosts.Visits visited ∧ visited.Pairwise (· < ·) ∧
    visited.length = 2 ^ (128 - n.prefixLength) ∧ ∀ a, a ∈ visited ↔ n.Contains a

/-- A loop visits the block, unless it is that of all addresses. -/
theorem coversBlock_iff : n.CoversBlock ↔ n.prefixLength ≠ 0 := by
  obtain ⟨hend, hvisits⟩ := n.visits
  constructor
  · rintro ⟨visited, hvisited, -, -, hmem⟩ hzero
    have hself := (hmem n.address).mpr contains_address
    rw [hvisited.unique hvisits, hostCount, if_pos hzero] at hself
    cases hself
  · intro hne
    have hcount : n.hostCount = 2 ^ n.hostBits := if_neg hne
    refine ⟨_, hvisits, AddressV6.pairwise_map_range' hend, ?_, fun a => ?_⟩
    · rw [List.length_map, List.length_range', hcount]
      rfl
    · rw [AddressV6.mem_map_range' hend, contains_iff, hcount]

theorem reaches_iff {a : AddressV6} : n.hosts.Reaches (·.toBytes = a.toBytes) ↔
    n.firstNat ≤ a.toNat ∧ a.toNat < n.firstNat + n.hostCount := by
  obtain ⟨hend, hvisits⟩ := n.visits
  rw [hvisits.reaches_iff]
  simp only [AddressV6.mem_map_range' hend]
  constructor
  · rintro ⟨b, ⟨-, hb⟩, hbytes⟩
    rwa [AddressV6.toNat, hbytes] at hb
  · intro ha
    exact ⟨⟨a.toBytes, n.address.scopeId, a.length_toBytes⟩, ⟨rfl, ha⟩, rfl⟩

/-- Where the block ends with the last of all addresses nothing is found, and elsewhere the scope
matters for the first address and for the one that follows the block. -/
theorem find_iff (a : AddressV6) :
    (n.hosts.find a ≠ n.hosts.last ↔ n.hosts.Reaches (·.toBytes = a.toBytes)) ↔
      if n.lastNat + 1 = 2 ^ 128 then
        n.prefixLength = 0 ∨ a.toNat < n.firstNat
      else
        n.address.scopeId ≤ a.scopeId ∨ a.toNat ≠ n.firstNat ∧ a.toNat ≠ n.lastNat + 1 := by
  have hirrefl : ¬ n.hosts.last < n.hosts.last := by
    rw [AddressV6.lt_iff_of_scopeId rfl]
    exact Nat.lt_irrefl _
  have hlt := n.lastNat_lt
  have hsucc := n.lastNat_succ
  have hpos : 0 < 2 ^ n.hostBits := Nat.two_pow_pos _
  have hle (b : AddressV6) : a ≥ b ↔ ¬ a < b := Iff.rfl
  rw [find_ne_last hirrefl, reaches_iff, hosts_eq, hle, AddressV6.lt_iff, AddressV6.lt_iff,
    AddressV6.toNat_ofNat, AddressV6.toNat_ofNat, Nat.mod_mod, ← hsucc,
    Nat.mod_eq_of_lt (by omega : n.firstNat < 2 ^ 128), ← BitVec.not_lt]
  change (¬ (_ ∨ _ ∧ a.scopeId < n.address.scopeId) ∧ (_ ∨ _ ∧ a.scopeId < n.address.scopeId) ↔ _)
    ↔ _
  generalize (a.scopeId < n.address.scopeId) = lower
  split
  · rename_i htop
    rw [htop, Nat.mod_self, hostCount]
    split
    · rename_i hzero
      have hbits : n.hostBits = 128 := by rw [hostBits, hzero]
      rw [hbits] at hsucc
      have hfirst : n.firstNat = 0 := by omega
      rw [hfirst]
      simp only [hzero, true_or, iff_true]
      by_cases hlower : lower
      · simp only [hlower, and_true]
        omega
      · simp only [hlower, and_false, or_false]
        omega
    · rename_i hne
      have hpow : 2 ^ n.hostBits < 2 ^ 128 := Nat.pow_lt_pow_right (by decide) (hostBits_lt hne)
      have ha := a.toNat_lt
      simp only [hne, false_or]
      by_cases hlower : lower
      · simp only [hlower, and_true]
        omega
      · simp only [hlower, and_false, or_false]
        omega
  · rename_i htop
    have hne : n.prefixLength ≠ 0 := by
      intro hzero
      have hbits : n.hostBits = 128 := by rw [hostBits, hzero]
      rw [hbits] at hsucc
      omega
    rw [Nat.mod_eq_of_lt (by omega), hostCount, if_neg hne, ← hsucc]
    by_cases hlower : lower
    · simp only [hlower, and_true, not_true_eq_false, false_or]
      omega
    · simp only [hlower, and_false, or_false, not_false_eq_true, true_or, iff_true]
      omega

end NetworkV6

/-! ### Both versions -/

theorem hosts_covered_iff (n : NetworkV4) (n' : NetworkV6) :
    ((n.prefixLength < 31 → n.hosts.Covers fun a => n.network < a ∧ a < n.broadcast) ∧
      (n.prefixLength = 32 → n.hosts.Visits [n.address])) ∧
    (n'.CoversBlock ↔ n'.prefixLength ≠ 0) :=
  ⟨⟨fun h => NetworkV4.covers_of_lt (Nat.lt_succ_of_lt h), NetworkV4.visits_of_isHost⟩,
    NetworkV6.coversBlock_iff⟩

/-- The end of the network of all addresses is its beginning. -/
theorem default_not_covered : ¬ NetworkV6.default.CoversBlock := by
  rintro ⟨visited, hvisits, -, hlen, -⟩
  have hnone : NetworkV6.default.hosts.Visits [] := ⟨1, by decide +kernel⟩
  rw [hvisits.unique hnone] at hlen
  cases hlen

theorem hosts_found_iff (n : NetworkV4) (a : AddressV4) (n' : NetworkV6) (a' : AddressV6) :
    ((n.hosts.find a ≠ n.hosts.last ↔ n.hosts.Reaches (· = a)) ↔
      ¬ (n.prefixLength = 32 ∧ a = n.address ∧ a = ⟨0xFFFFFFFF⟩)) ∧
    ((n'.hosts.find a' ≠ n'.hosts.last ↔ n'.hosts.Reaches (·.toBytes = a'.toBytes)) ↔
      if n'.lastNat + 1 = 2 ^ 128 then
        n'.prefixLength = 0 ∨ a'.toNat < n'.firstNat
      else
        n'.address.scopeId ≤ a'.scopeId ∨ a'.toNat ≠ n'.firstNat ∧ a'.toNat ≠ n'.lastNat + 1) :=
  ⟨NetworkV4.find_iff a, NetworkV6.find_iff a'⟩

theorem broadcast_not_found :
    ¬ ∀ (n : NetworkV4) (a : AddressV4),
      n.hosts.find a ≠ n.hosts.last ↔ n.hosts.Reaches (· = a) := by
  intro h
  let n : NetworkV4 := ⟨⟨0xFFFFFFFF⟩, 32, le_rfl⟩
  have hvisits : n.hosts.Visits [n.address] := ⟨2, by decide +kernel⟩
  have hfind : n.hosts.find n.address = n.hosts.last := by decide +kernel
  exact (h n n.address).mpr ⟨_, hvisits, n.address, List.mem_singleton_self _, rfl⟩ hfind

end Asio.Ip
