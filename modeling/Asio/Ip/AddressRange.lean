import Mathlib.Data.List.GetD
import Asio.Ip.Address
import Asio.Lib.Traversal

/-! Iterators over addresses, and the ranges between two of them. -/

universe u

namespace Asio.Ip

open Lib Lib.BigEndian

/-- `operator++` of the iterators that point to addresses of a type. -/
class AddressIterator (α : Type u) where
  next : α → α

export AddressIterator (next)

/-! ### Version 4 -/

namespace AddressV4

instance : AddressIterator AddressV4 := ⟨fun a => ⟨(a.toUint + 1) &&& 0xFFFFFFFF⟩⟩

theorem toNat_next {a : AddressV4} : (next a).toNat = (a.toNat + 1) % 2 ^ 32 := by
  have hmask : (a.toUint + 1) &&& 0xFFFFFFFF = a.toUint + 1 := BitVec.and_allOnes
  change ((a.toUint + 1) &&& 0xFFFFFFFF).toNat = _
  rw [hmask, BitVec.toNat_add]
  rfl

theorem next_ofNat {n : Nat} (hn : n < 2 ^ 32) : next (ofNat n) = ofNat ((n + 1) % 2 ^ 32) := by
  rw [← toNat_inj, toNat_next, toNat_ofNat, toNat_ofNat, Nat.mod_eq_of_lt hn, Nat.mod_mod]

end AddressV4

/-! ### Version 6 -/

/-- The loop of `operator++` over the bytes below an index, from the last one on. -/
def incrementFrom : Nat → List Byte → List Byte
  | 0, bs => bs
  | i + 1, bs =>
    if bs.getD i 0 < 0xFF then bs.set i (bs.getD i 0 + 1) else incrementFrom i (bs.set i 0)

section Increment

variable {bs cs : List Byte} {b : Byte} {i : Nat}

theorem length_incrementFrom : (incrementFrom i bs).length = bs.length := by
  induction i generalizing bs with
  | zero => rfl
  | succ i ih =>
    rw [incrementFrom]
    split
    · exact List.length_set
    · exact ih.trans List.length_set

/-- The loop does not reach the bytes from its index on. -/
theorem incrementFrom_append (h : i ≤ bs.length) :
    incrementFrom i (bs ++ cs) = incrementFrom i bs ++ cs := by
  induction i generalizing bs with
  | zero => rfl
  | succ i ih =>
    rw [incrementFrom, incrementFrom, List.getD_append _ _ _ _ h, List.set_append_left _ _ h,
      List.set_append_left _ _ h]
    split
    · rfl
    · exact ih (by rw [List.length_set]; exact Nat.le_of_succ_le h)

theorem incrementFrom_concat (h : bs.length = i) : incrementFrom (i + 1) (bs ++ [b]) =
    if b < 0xFF then bs ++ [b + 1] else incrementFrom i bs ++ [0] := by
  have hget : (bs ++ [b]).getD i 0 = b := by
    rw [← h, List.getD_append_right _ _ _ _ le_rfl, Nat.sub_self]
    rfl
  have hset (c : Byte) : (bs ++ [b]).set i c = bs ++ [c] := by
    rw [← h, List.set_append_right _ _ le_rfl, Nat.sub_self]
    rfl
  rw [incrementFrom, hget, hset, hset, incrementFrom_append h.ge]

theorem value_incrementFrom (h : bs.length = i) :
    value (incrementFrom i bs) = (value bs + 1) % 256 ^ i := by
  have hone : (1 : Byte).toNat = 1 := rfl
  have hzero : (0 : Byte).toNat = 0 := rfl
  induction i generalizing bs with
  | zero =>
    obtain rfl := List.eq_nil_of_length_eq_zero h
    rfl
  | succ i ih =>
    obtain ⟨init, b, rfl⟩ := List.eq_nil_or_concat' bs |>.resolve_left (List.ne_nil_of_length_pos
      (h ▸ Nat.succ_pos i))
    have hinit : init.length = i := by
      rw [List.length_append] at h
      exact Nat.succ.inj h
    have hlt : value init < 256 ^ i := hinit ▸ value_lt
    rw [incrementFrom_concat hinit, value_concat, Nat.pow_succ]
    split
    · rename_i hb
      have hb : b.toNat < 255 := hb
      have hsucc : (b + 1).toNat = b.toNat + 1 := by
        rw [BitVec.toNat_add, hone, Nat.mod_eq_of_lt (Nat.succ_lt_succ hb)]
      rw [value_concat, hsucc, ← Nat.add_assoc, Nat.mod_eq_of_lt]
      omega
    · rename_i hb
      have hb : b.toNat = 255 := by
        have hge : ¬ b.toNat < 255 := hb
        have hlt := b.isLt
        omega
      have hsum : value init * 256 + 255 + 1 = 256 * (value init + 1) := by ring
      rw [value_concat, ih hinit, hb, hsum, hzero, Nat.mul_comm (256 ^ i), Nat.mul_mod_mul_left,
        Nat.mul_comm, Nat.add_zero]

end Increment

namespace AddressV6

instance : AddressIterator AddressV6 :=
  ⟨fun a => ⟨incrementFrom 16 a.toBytes, a.scopeId,
    length_incrementFrom.trans a.length_toBytes⟩⟩

theorem toNat_next {a : AddressV6} : (next a).toNat = (a.toNat + 1) % 2 ^ 128 :=
  value_incrementFrom a.length_toBytes

theorem next_ofNat {scope : BitVec 32} {n : Nat} (hn : n < 2 ^ 128) :
    next (ofNat scope n) = ofNat scope ((n + 1) % 2 ^ 128) := by
  have hscope : (next (ofNat scope n)).scopeId = (ofNat scope ((n + 1) % 2 ^ 128)).scopeId := rfl
  rw [← toNat_inj hscope, toNat_next, toNat_ofNat, toNat_ofNat, Nat.mod_eq_of_lt hn, Nat.mod_mod]

end AddressV6

/-! ### Ranges -/

structure AddressRange (α : Type u) where
  first : α
  last : α

namespace AddressRange

variable {α : Type u} [DecidableEq α]

/-- An iterator to the address, or the end. -/
def find [LT α] [LE α] [DecidableLT α] [DecidableLE α] (r : AddressRange α) (addr : α) : α :=
  if addr ≥ r.first ∧ addr < r.last then addr else r.last

/-- What a loop from the beginning to the end visits. -/
def traverse [AddressIterator α] (r : AddressRange α) (fuel : Nat) : Option (List α) :=
  Traversal.traverse next r.last fuel r.first

def Visits [AddressIterator α] (r : AddressRange α) (visited : List α) : Prop :=
  ∃ fuel, r.traverse fuel = some visited

theorem Visits.unique [AddressIterator α] {r : AddressRange α} {visited visited' : List α}
    (h : r.Visits visited) (h' : r.Visits visited') : visited = visited' := by
  obtain ⟨fuel, h⟩ := h
  obtain ⟨fuel', h'⟩ := h'
  exact Traversal.traverse_unique h h'

/-- So many addresses from a number on, and the one that follows them. -/
theorem visits_v4 {start count : Nat} (hstart : start < 2 ^ 32) (hend : start + count ≤ 2 ^ 32)
    (hcount : count < 2 ^ 32) :
    (⟨.ofNat start, .ofNat ((start + count) % 2 ^ 32)⟩ : AddressRange AddressV4).Visits
      ((List.range' start count).map .ofNat) :=
  ⟨count + 1, Traversal.traverse_enum (fun _ hn => AddressV4.next_ofNat hn)
    (fun _ hm _ hn => AddressV4.ofNat_injective hm hn) hstart hend hcount⟩

theorem visits_v6 {scope : BitVec 32} {start count : Nat} (hstart : start < 2 ^ 128)
    (hend : start + count ≤ 2 ^ 128) (hcount : count < 2 ^ 128) :
    (⟨.ofNat scope start, .ofNat scope ((start + count) % 2 ^ 128)⟩ :
      AddressRange AddressV6).Visits ((List.range' start count).map (.ofNat scope)) :=
  ⟨count + 1, Traversal.traverse_enum (fun _ hn => AddressV6.next_ofNat hn)
    (fun _ hm _ hn => AddressV6.ofNat_injective hm hn) hstart hend hcount⟩

end AddressRange

end Asio.Ip
