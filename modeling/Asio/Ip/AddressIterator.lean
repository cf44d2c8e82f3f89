import Asio.Ip.NetworkHosts

/-! Iterators over addresses that also go back, and what a loop between two of them visits. -/

universe u

namespace Asio.Ip

open Lib Lib.BigEndian

/-- `operator--` of the iterators that point to addresses of a type. -/
class AddressIteratorBack (α : Type u) where
  prev : α → α

export AddressIteratorBack (prev)

theorem pred_succ_mod {v n : Nat} (h : v < n) : ((v + 1) % n + n - 1) % n = v := by
  have hle : v + 1 ≤ n := h
  rcases Nat.lt_or_eq_of_le hle with hlt | heq
  · rw [Nat.mod_eq_of_lt hlt, Nat.add_right_comm, Nat.add_sub_cancel, Nat.add_mod_right,
      Nat.mod_eq_of_lt h]
  · rw [heq, Nat.mod_self, Nat.zero_add, ← heq, Nat.add_sub_cancel]
    exact Nat.mod_eq_of_lt (Nat.lt_succ_self v)

theorem succ_pred_mod {v n : Nat} (h : v < n) : ((v + n - 1) % n + 1) % n = v := by
  have hpos : 1 ≤ v + n := Nat.le_trans (Nat.one_le_of_lt h) (Nat.le_add_left n v)
  rw [Nat.mod_add_mod, Nat.sub_add_cancel hpos, Nat.add_mod_right, Nat.mod_eq_of_lt h]

/-! ### Version 4 -/

namespace AddressV4

instance : AddressIteratorBack AddressV4 := ⟨fun a => ⟨(a.toUint - 1) &&& 0xFFFFFFFF⟩⟩

variable {a : AddressV4}

theorem toNat_prev : (prev a).toNat = (a.toNat + 2 ^ 32 - 1) % 2 ^ 32 := by
  have hmask : (a.toUint - 1) &&& 0xFFFFFFFF = a.toUint - 1 := BitVec.and_allOnes
  have hadd : a.toNat + 2 ^ 32 - 1 = 2 ^ 32 - 1 + a.toNat := by
    rw [Nat.add_sub_assoc (by decide), Nat.add_comm]
  change ((a.toUint - 1) &&& 0xFFFFFFFF).toNat = _
  rw [hmask, BitVec.toNat_sub, hadd]
  rfl

theorem prev_next : prev (next a) = a := by
  rw [← toNat_inj, toNat_prev, toNat_next, pred_succ_mod toNat_lt]

theorem next_prev : next (prev a) = a := by
  rw [← toNat_inj, toNat_next, toNat_prev, succ_pred_mod toNat_lt]

end AddressV4

/-! ### Version 6 -/

/-- The loop of `operator--` over the bytes below an index, from the last one on. -/
def decrementFrom : Nat → List Byte → List Byte
  | 0, bs => bs
  | i + 1, bs =>
    if 0 < bs.getD i 0 then bs.set i (bs.getD i 0 - 1) else decrementFrom i (bs.set i 0xFF)

section Decrement

variable {bs : List Byte} {i : Nat}

theorem length_decrementFrom : (decrementFrom i bs).length = bs.length := by
  induction i generalizing bs with
  | zero => rfl
  | succ i ih =>
    rw [decrementFrom]
    split
    · exact List.length_set
    · exact ih.trans List.length_set

theorem pos_not_iff : ∀ b : Byte, 0 < ~~~b ↔ b < 0xFF := by decide

theorem not_sub_one : ∀ b : Byte, ~~~b - 1 = ~~~(b + 1) := by decide

/-- A borrow goes through the complement as a carry goes through the bytes. -/
theorem decrementFrom_map_not (h : i ≤ bs.length) :
    decrementFrom i (bs.map (~~~ ·)) = (incrementFrom i bs).map (~~~ ·) := by
  induction i generalizing bs with
  | zero => rfl
  | succ i ih =>
    have hget : (bs.map (~~~ ·)).getD i 0 = ~~~ bs.getD i 0 := by
      rw [List.getD_eq_getElem _ _ (by rwa [List.length_map]), List.getElem_map,
        List.getD_eq_getElem _ _ h]
    rw [decrementFrom, incrementFrom, hget]
    simp only [pos_not_iff]
    split
    · rw [not_sub_one, List.map_set]
    · have hfull : (0xFF : Byte) = ~~~0 := rfl
      rw [hfull, ← List.map_set, ih (by rw [List.length_set]; exact Nat.le_of_succ_le h)]

theorem map_not_map_not (bs : List Byte) : (bs.map (~~~ ·)).map (~~~ ·) = bs := by
  rw [List.map_map]
  refine List.map_id'' (fun b => ?_) bs
  exact BitVec.not_not

theorem value_decrementFrom (h : bs.length = i) :
    value (decrementFrom i bs) = (value bs + 256 ^ i - 1) % 256 ^ i := by
  have hlength : (bs.map (~~~ ·)).length = i := by rw [List.length_map, h]
  have hincrement : (incrementFrom i (bs.map (~~~ ·))).length = i :=
    length_incrementFrom.trans hlength
  have hresult := value_map_not (incrementFrom i (bs.map (~~~ ·)))
  rw [← decrementFrom_map_not hlength.ge, map_not_map_not, hincrement,
    value_incrementFrom hlength] at hresult
  have hbs := value_map_not bs
  rw [h] at hbs
  have hpos : 0 < 256 ^ i := Nat.pow_pos (by decide)
  generalize value (bs.map (~~~ ·)) = w at hbs hresult
  rcases Nat.eq_zero_or_pos (value bs) with hzero | hpositive
  · have hfull : w + 1 = 256 ^ i := by rwa [hzero] at hbs
    rw [hfull, Nat.mod_self, Nat.zero_add] at hresult
    rw [hzero, Nat.zero_add, Nat.mod_eq_of_lt (Nat.sub_lt hpos Nat.one_pos), ← hresult,
      Nat.add_sub_cancel]
  · have hlt : w + 1 < 256 ^ i := by omega
    have hsum : value bs + 256 ^ i - 1 = value bs - 1 + 256 ^ i := Nat.sub_add_comm hpositive
    rw [Nat.mod_eq_of_lt hlt] at hresult
    rw [hsum, Nat.add_mod_right, Nat.mod_eq_of_lt (by omega)]
    omega

end Decrement

namespace AddressV6

instance : AddressIteratorBack AddressV6 :=
  ⟨fun a => ⟨decrementFrom 16 a.toBytes, a.scopeId,
    length_decrementFrom.trans a.length_toBytes⟩⟩

variable {a b : AddressV6}

theorem toNat_prev : (prev a).toNat = (a.toNat + 2 ^ 128 - 1) % 2 ^ 128 :=
  value_decrementFrom a.length_toBytes

theorem prev_next : prev (next a) = a := by
  have hscope : (prev (next a)).scopeId = a.scopeId := rfl
  rw [← toNat_inj hscope, toNat_prev, toNat_next, pred_succ_mod toNat_lt]

theorem next_prev : next (prev a) = a := by
  have hscope : (next (prev a)).scopeId = a.scopeId := rfl
  rw [← toNat_inj hscope, toNat_next, toNat_prev, succ_pred_mod toNat_lt]

theorem le_iff_of_scopeId (h : a.scopeId = b.scopeId) : a ≤ b ↔ a.toNat ≤ b.toNat := by
  change ¬ b < a ↔ _
  rw [lt_iff_of_scopeId h.symm, Nat.not_lt]

/-- A loop from one address to a later one of its scope comes to those in between, in order. -/
theorem visits_between (h : a.scopeId = b.scopeId) (hlt : a < b) :
    ∃ visited, (⟨a, b⟩ : AddressRange AddressV6).Visits visited ∧
      visited.Pairwise (· < ·) ∧
      ∀ x, x ∈ visited ↔ x.scopeId = a.scopeId ∧ a ≤ x ∧ x < b := by
  have hnum : a.toNat < b.toNat := (lt_iff_of_scopeId h).mp hlt
  have hcount : a.toNat + (b.toNat - a.toNat) = b.toNat := Nat.add_sub_cancel' hnum.le
  have hend : a.toNat + (b.toNat - a.toNat) ≤ 2 ^ 128 := hcount.le.trans toNat_lt.le
  have hvisits : (⟨ofNat a.scopeId a.toNat,
      ofNat a.scopeId ((a.toNat + (b.toNat - a.toNat)) % 2 ^ 128)⟩ :
        AddressRange AddressV6).Visits _ :=
    AddressRange.visits_v6 toNat_lt hend (Nat.lt_of_le_of_lt (Nat.sub_le ..) toNat_lt)
  have hlast : ofNat a.scopeId b.toNat = b := by
    rw [h]
    exact ofNat_toNat
  rw [hcount, Nat.mod_eq_of_lt toNat_lt, ofNat_toNat, hlast] at hvisits
  refine ⟨_, hvisits, pairwise_map_range' hend, fun x => ?_⟩
  rw [mem_map_range' hend, hcount]
  refine and_congr_right fun hx => ?_
  rw [le_iff_of_scopeId hx.symm, lt_iff_of_scopeId (hx.trans h)]

/-- The iterator counts up and down modulo the number of addresses, in the order of the addresses,
so that a loop between two of them comes to the end. -/
theorem iterator_counts (a b : AddressV6) :
    ((next a).toNat = (a.toNat + 1) % 2 ^ 128 ∧ (next a).scopeId = a.scopeId) ∧
      ((prev a).toNat = (a.toNat + 2 ^ 128 - 1) % 2 ^ 128 ∧ (prev a).scopeId = a.scopeId) ∧
      prev (next a) = a ∧ next (prev a) = a ∧
      (a.scopeId = b.scopeId → (a < b ↔ a.toNat < b.toNat) ∧
        (a < b → ∃ visited, (⟨a, b⟩ : AddressRange AddressV6).Visits visited ∧
          visited.Pairwise (· < ·) ∧
          ∀ x, x ∈ visited ↔ x.scopeId = a.scopeId ∧ a ≤ x ∧ x < b)) :=
  ⟨⟨toNat_next, rfl⟩, ⟨toNat_prev, rfl⟩, prev_next, next_prev,
    fun h => ⟨lt_iff_of_scopeId h, visits_between h⟩⟩

/-- Three addresses, with a carry through two bytes after the first. -/
theorem iterator_counts_carried : ∃ visited,
    (⟨.ofNat 3 0xFFFF, .ofNat 3 0x10002⟩ : AddressRange AddressV6).Visits visited ∧
      visited.Pairwise (· < ·) ∧ ofNat 3 0x10001 ∈ visited := by
  obtain ⟨-, -, -, -, hrange⟩ := iterator_counts (ofNat 3 0xFFFF) (ofNat 3 0x10002)
  obtain ⟨visited, hvisits, hordered, hmem⟩ := (hrange rfl).2 (by decide +kernel)
  exact ⟨visited, hvisits, hordered, (hmem _).mpr ⟨rfl, by decide +kernel, by decide +kernel⟩⟩

end AddressV6

end Asio.Ip
