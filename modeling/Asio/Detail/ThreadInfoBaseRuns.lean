import Asio.Detail.ThreadInfoBase

/-! The blocks that callers have and the ones that threads keep, over the runs of the allocator. -/

namespace Asio.Detail.ThreadInfoBase

open Lib Transition

/-! ### Sizes and alignments -/

theorem Align.dvd_of_le {a b : Align} (h : a.val ≤ b.val) : a.val ∣ b.val :=
  Nat.pow_dvd_pow 2 ((Nat.pow_le_pow_iff_right (by decide)).mp h)

namespace Config

variable (cfg : Config) (size : Nat) (align : Align)

/-- The request can be rounded up without going beyond the values of `std::size_t`, and what the
system guarantees is enough where it cannot be asked for an alignment. -/
def Serves : Prop :=
  size + cfg.chunkSize - 1 < 2 ^ 64 ∧
    match cfg.backend with
    | .alignedAlloc =>
      cfg.chunks size * cfg.chunkSize + 1 + (cfg.systemAlign align).val ≤ 2 ^ 64
    | .operatorNew guaranteed => align.val ≤ guaranteed.val

variable {cfg size align}

theorem chunkSize_cases : cfg.chunkSize = 8 ∨ cfg.chunkSize = 4 := ite_eq_or_eq ..

theorem le_chunks (h : size + cfg.chunkSize - 1 < 2 ^ 64) :
    size ≤ cfg.chunks size * cfg.chunkSize := by
  rw [chunks, Nat.mod_eq_of_lt h]
  rcases cfg.chunkSize_cases with hc | hc <;> rw [hc] <;> omega

theorem chunks_lt (h : size + cfg.chunkSize - 1 < 2 ^ 64) :
    cfg.chunks size * cfg.chunkSize < size + cfg.chunkSize := by
  rw [chunks, Nat.mod_eq_of_lt h]
  rcases cfg.chunkSize_cases with hc | hc <;> rw [hc] <;> omega

/-- The tag byte does not make the size of the block go around. -/
theorem asked_eq (h : size + cfg.chunkSize - 1 < 2 ^ 64) :
    (cfg.chunks size * cfg.chunkSize + 1) % 2 ^ 64 = cfg.chunks size * cfg.chunkSize + 1 := by
  have hlt := chunks_lt h
  apply Nat.mod_eq_of_lt
  rcases cfg.chunkSize_cases with hc | hc <;> rw [hc] at h hlt ⊢ <;> omega

theorem asked_div (n : Nat) : (n * cfg.chunkSize + 1) / cfg.chunkSize = n := by
  rcases cfg.chunkSize_cases with hc | hc <;> rw [hc] <;> omega

theorem large_of_chunks (h : size + cfg.chunkSize - 1 < 2 ^ 64)
    (hlarge : ucharMax < cfg.chunks size) : cfg.chunkSize * ucharMax < size := by
  have hlt := chunks_lt h
  rw [ucharMax] at hlarge ⊢
  rcases cfg.chunkSize_cases with hc | hc <;> rw [hc] at hlt ⊢ <;> omega

theorem Serves.dvd (h : cfg.Serves size align) : align.val ∣ (cfg.systemAlign align).val := by
  cases hb : cfg.backend with
  | alignedAlloc =>
    simp only [systemAlign, hb]
    split
    · rename_i hlt
      exact Align.dvd_of_le (Nat.le_of_lt hlt)
    · exact Nat.dvd_refl _
  | operatorNew guaranteed =>
    simp only [Serves, hb] at h
    simp only [systemAlign, hb]
    exact Align.dvd_of_le h.2

theorem Serves.le_systemSize (h : cfg.Serves size align) :
    cfg.chunks size * cfg.chunkSize + 1 ≤
      cfg.systemSize align (cfg.chunks size * cfg.chunkSize + 1) := by
  cases hb : cfg.backend with
  | alignedAlloc =>
    simp only [Serves, hb] at h
    simp only [systemSize, hb]
    split
    · exact Nat.le_refl _
    · rename_i hmod
      have hpos : 0 < (cfg.systemAlign align).val := Nat.two_pow_pos _
      rw [Nat.mod_eq_of_lt (by omega)]
      exact Nat.le_add_right ..
  | operatorNew guaranteed => simp only [systemSize, hb, Nat.le_refl]

theorem toNat_tag {n : Nat} (h : n ≤ ucharMax) : (tag n).toNat = n := by
  rw [tag, if_pos h, UInt8.toNat_ofNat']
  exact Nat.mod_eq_of_lt (Nat.lt_succ_of_le h)

theorem tag_toNat (byte : UInt8) : tag byte.toNat = byte := by
  have hle : byte.toNat ≤ ucharMax := Nat.le_of_lt_succ byte.toNat_lt
  rw [tag, if_pos hle, UInt8.ofNat_toNat]

end Config

/-! ### The state of each address -/

/-- A block is where the caller that has it needs it, and its tag tells its chunks. -/
structure Block.Holds (cfg : Config) (b : Block) (pointer : Nat) (loan : Loan) : Prop where
  whole : b.chunks cfg * cfg.chunkSize + 1 ≤ b.bytes
  room : loan.size ≤ b.chunks cfg * cfg.chunkSize
  large : Config.ucharMax < b.chunks cfg → cfg.chunkSize * Config.ucharMax < loan.size
  aligned : pointer % loan.align.val = 0
  tagged : b.mem loan.size = Config.tag (b.chunks cfg)

/-- A block that is kept tells its chunks in front. -/
structure Block.Recyclable (cfg : Config) (b : Block) : Prop where
  whole : b.chunks cfg * cfg.chunkSize + 1 ≤ b.bytes
  small : b.chunks cfg ≤ Config.ucharMax
  tagged : (b.mem 0).toNat = b.chunks cfg

/-- What is at an address is lent once, kept once or not there at all. -/
structure Sane (cfg : Config) (s : State) (p : Nat) : Prop where
  lent : ∀ loan, s.lent p = some loan → ∃ b, s.heap p = some b ∧ b.Holds cfg p loan
  cached : ∀ t i, s.reusableMemory t i = some p →
    i < cfg.maxMemIndex ∧ ∃ b, s.heap p = some b ∧ b.Recyclable cfg
  apart : ∀ t i, s.reusableMemory t i = some p → s.lent p = none
  once : ∀ t i t' i', s.reusableMemory t i = some p → s.reusableMemory t' i' = some p →
    t' = t ∧ i' = i
  owned : s.heap p ≠ none → s.lent p ≠ none ∨ ∃ t i, s.reusableMemory t i = some p
  null : p = 0 → s.heap p = none

section Moves

variable {cfg : Config} {s s' : State} {p q t i : Nat} {b : Block} {loan : Loan}

theorem Sane.congr (h : Sane cfg s p) (hheap : s'.heap p = s.heap p)
    (hlent : s'.lent p = s.lent p)
    (hslots : ∀ t i, s'.reusableMemory t i = some p ↔ s.reusableMemory t i = some p) :
    Sane cfg s' p where
  lent := by
    rw [hheap, hlent]
    exact h.lent
  cached t i hslot := by
    rw [hheap]
    exact h.cached t i ((hslots t i).mp hslot)
  apart t i hslot := hlent.trans (h.apart t i ((hslots t i).mp hslot))
  once t i t' i' hslot hslot' := h.once t i t' i' ((hslots t i).mp hslot) ((hslots t' i').mp hslot')
  owned := by
    simp only [hheap, hlent, hslots]
    exact h.owned
  null hp := hheap.trans (h.null hp)

theorem Sane.gone (hheap : s.heap p = none) (hlent : s.lent p = none)
    (hslots : ∀ t i, s.reusableMemory t i ≠ some p) : Sane cfg s p where
  lent loan h := by rw [hlent] at h; cases h
  cached t i h := absurd h (hslots t i)
  apart t i h := absurd h (hslots t i)
  once t i _ _ h := absurd h (hslots t i)
  owned h := absurd hheap h
  null _ := hheap

theorem Sane.ne_zero (h : Sane cfg s p) (hheap : s.heap p = some b) : p ≠ 0 := by
  intro hp
  rw [h.null hp] at hheap
  cases hheap

theorem Sane.borrowed (hne : p ≠ 0) (hheap : s.heap p = some b) (hlent : s.lent p = some loan)
    (holds : b.Holds cfg p loan) (hslots : ∀ t i, s.reusableMemory t i ≠ some p) :
    Sane cfg s p where
  lent loan' h := by
    rw [hlent] at h
    cases h
    exact ⟨b, hheap, holds⟩
  cached t i h := absurd h (hslots t i)
  apart t i h := absurd h (hslots t i)
  once t i _ _ h := absurd h (hslots t i)
  owned _ := .inl (by simp [hlent])
  null hp := absurd hp hne

theorem Sane.kept (hne : p ≠ 0) (hheap : s.heap p = some b) (hlent : s.lent p = none)
    (recyclable : b.Recyclable cfg) (hi : i < cfg.maxMemIndex)
    (hslot : s.reusableMemory t i = some p)
    (hslots : ∀ t' i', s.reusableMemory t' i' = some p → t' = t ∧ i' = i) : Sane cfg s p where
  lent loan h := by rw [hlent] at h; cases h
  cached t' i' h := by
    obtain ⟨rfl, rfl⟩ := hslots t' i' h
    exact ⟨hi, b, hheap, recyclable⟩
  apart _ _ _ := hlent
  once t₁ i₁ t₂ i₂ h₁ h₂ := by
    obtain ⟨rfl, rfl⟩ := hslots t₁ i₁ h₁
    exact hslots t₂ i₂ h₂
  owned _ := .inr ⟨t, i, hslot⟩
  null hp := absurd hp hne

theorem setSlot_apply (v : Option Nat) (t' i' : Nat) :
    (s.setSlot t i v).reusableMemory t' i' =
      if t' = t ∧ i' = i then v else s.reusableMemory t' i' := by
  by_cases ht : t' = t <;> by_cases hi : i' = i <;> simp [State.setSlot, Function.update, ht, hi]

theorem Sane.slots_of_lent (h : Sane cfg s p) (hlent : s.lent p ≠ none) (t i : Nat) :
    s.reusableMemory t i ≠ some p := fun hslot => hlent (h.apart t i hslot)

theorem Sane.lent_of_gone (h : Sane cfg s p) (hheap : s.heap p = none) : s.lent p = none := by
  rw [Option.eq_none_iff_forall_ne_some]
  intro loan hlent
  obtain ⟨b, hb, -⟩ := h.lent loan hlent
  rw [hheap] at hb
  cases hb

theorem Sane.slots_of_gone (h : Sane cfg s p) (hheap : s.heap p = none) (t i : Nat) :
    s.reusableMemory t i ≠ some p := by
  intro hslot
  obtain ⟨-, b, hb, -⟩ := h.cached t i hslot
  rw [hheap] at hb
  cases hb

/-- A slot that is emptied was the only one with its block. -/
theorem Sane.slots_of_emptied (h : Sane cfg s p) (hslot : s.reusableMemory t i = some p)
    (t' i' : Nat) : (s.setSlot t i none).reusableMemory t' i' ≠ some p := by
  rw [setSlot_apply]
  split
  · exact nofun
  · rename_i hne
    exact fun hslot' => hne (h.once t i t' i' hslot hslot')

theorem slots_of_ne (hslot : s.reusableMemory t i = some p) (hq : q ≠ p) (t' i' : Nat) :
    (s.setSlot t i none).reusableMemory t' i' = some q ↔ s.reusableMemory t' i' = some q := by
  rw [setSlot_apply]
  split
  · rename_i heq
    obtain ⟨rfl, rfl⟩ := heq
    simp [hslot, Ne.symm hq]
  · exact Iff.rfl

/-! ### The operations -/

theorem sane_discard (h : ∀ p, Sane cfg s p) (t i q : Nat) : Sane cfg (discard s t i) q := by
  rw [discard]
  split
  · rename_i p hslot
    by_cases hq : q = p
    · subst hq
      exact .gone (Function.update_self ..) ((h q).apart t i hslot) ((h q).slots_of_emptied hslot)
    · exact (h q).congr (Function.update_of_ne hq ..) rfl (slots_of_ne hslot hq)
  · exact h q

theorem sane_evict (h : ∀ p, Sane cfg s p) (t : Nat) (purpose : Purpose) (q : Nat) :
    Sane cfg (evict cfg s t purpose) q := by
  rw [evict]
  split
  · exact sane_discard h t _ q
  · exact h q

theorem sane_exit (h : ∀ p, Sane cfg s p) (t q : Nat) : Sane cfg (exit cfg s t) q := by
  rw [exit]
  generalize List.range cfg.maxMemIndex = indices
  induction indices generalizing s with
  | nil => exact h q
  | cons i indices ih => exact ih (sane_discard h t i)

theorem mem_memIndices {purpose : Purpose} (h : i ∈ cfg.memIndices purpose) :
    i < cfg.maxMemIndex := by
  simp only [Config.memIndices, List.mem_range'_1] at h
  simp only [Config.maxMemIndex, Config.endMemIndex]
  cases purpose <;> simp only [Config.beginMemIndex] at h ⊢ <;> omega

theorem reusable_eq_some {purpose : Purpose} {size : Nat} {align : Align}
    (h : reusable cfg s t purpose size align = some (i, p)) :
    s.reusableMemory t i = some p ∧ cfg.chunks size ≤ (s.byte p 0).toNat ∧
      p % align.val = 0 := by
  obtain ⟨j, -, h⟩ := List.exists_of_findSome?_eq_some h
  obtain ⟨pointer, hslot, h⟩ := Option.bind_eq_some_iff.mp h
  split at h
  · rename_i hfits
    cases h
    exact ⟨hslot, hfits⟩
  · cases h

/-- A block that is used again has its tag behind the new size. -/
theorem Block.Recyclable.holds {size : Nat} {align : Align} (h : b.Recyclable cfg)
    (hserves : cfg.Serves size align) (hchunks : cfg.chunks size ≤ (b.mem 0).toNat)
    (halign : p % align.val = 0) :
    Block.Holds cfg { b with mem := Function.update b.mem size (b.mem 0) } p ⟨size, align⟩ where
  whole := h.whole
  room := calc
    size ≤ cfg.chunks size * cfg.chunkSize := Config.le_chunks hserves.1
    _ ≤ b.chunks cfg * cfg.chunkSize := Nat.mul_le_mul_right _ (h.tagged ▸ hchunks)
  large hlarge := absurd h.small (Nat.not_le_of_lt hlarge)
  aligned := halign
  tagged := calc
    Function.update b.mem size (b.mem 0) size = b.mem 0 := Function.update_self ..
    _ = Config.tag (b.chunks cfg) := by rw [← h.tagged, Config.tag_toNat]

/-- A block that is new has its tag behind the size that it was made for. -/
theorem holds_new {size : Nat} {align : Align} (hserves : cfg.Serves size align)
    (halign : p % (cfg.systemAlign align).val = 0) (contents : Nat → UInt8) :
    Block.Holds cfg
      ⟨cfg.chunks size * cfg.chunkSize + 1,
        cfg.systemSize align (cfg.chunks size * cfg.chunkSize + 1),
        Function.update contents size (Config.tag (cfg.chunks size))⟩ p ⟨size, align⟩ where
  whole := by
    rw [Block.chunks, Config.asked_div]
    exact hserves.le_systemSize
  room := by
    rw [Block.chunks, Config.asked_div]
    exact Config.le_chunks hserves.1
  large := by
    rw [Block.chunks, Config.asked_div]
    exact Config.large_of_chunks hserves.1
  aligned := Nat.mod_eq_zero_of_dvd (Nat.dvd_trans hserves.dvd (Nat.dvd_of_mod_eq_zero halign))
  tagged := by
    rw [Block.chunks, Config.asked_div]
    exact Function.update_self ..

theorem sane_allocateNew {size : Nat} {align : Align} {answer : Option Answer}
    (h : ∀ p, Sane cfg s p) (hserves : cfg.Serves size align)
    (hstep : allocateNew cfg s size align answer = some s') (q : Nat) : Sane cfg s' q := by
  cases answer with
  | none =>
    cases hstep
    exact h q
  | some answer =>
    simp only [allocateNew, Config.asked_eq hserves.1] at hstep
    split at hstep
    · rename_i hfree
      obtain ⟨hne, halign, hnone⟩ := hfree
      cases hstep
      by_cases hq : q = answer.address
      · subst hq
        refine .borrowed hne ?_ (Function.update_self ..)
          (holds_new hserves halign answer.contents)
          ((h _).slots_of_gone (Option.isNone_iff_eq_none.mp hnone))
        simp [State.lend, State.store, State.create]
      · refine (h q).congr ?_ (Function.update_of_ne hq ..) fun _ _ => Iff.rfl
        simp [State.lend, State.store, State.create, hq]
    · cases hstep

theorem sane_allocate {purpose : Purpose} {size : Nat} {align : Align} {answer : Option Answer}
    {thisThread : Option Nat} (h : ∀ p, Sane cfg s p) (hserves : cfg.Serves size align)
    (hstep : allocate cfg s purpose size align answer thisThread = some s') (q : Nat) :
    Sane cfg s' q := by
  cases thisThread with
  | none => exact sane_allocateNew h hserves hstep q
  | some t =>
    rw [allocate] at hstep
    split at hstep
    · rename_i i p hreusable
      obtain ⟨hslot, hchunks, halign⟩ := reusable_eq_some hreusable
      obtain ⟨-, b, hb, hrecyclable⟩ := (h p).cached t i hslot
      have hbyte : s.byte p 0 = b.mem 0 := by rw [State.byte, hb]; rfl
      rw [hbyte] at hchunks hstep
      cases hstep
      by_cases hq : q = p
      · subst hq
        refine .borrowed ((h q).ne_zero hb) ?_ (Function.update_self ..)
          (hrecyclable.holds hserves hchunks halign) ((h q).slots_of_emptied hslot)
        simp [State.lend, State.store, State.setSlot, hb]
      · refine (h q).congr ?_ (Function.update_of_ne hq ..) (slots_of_ne hslot hq)
        simp [State.lend, State.store, State.setSlot, hq]
    · exact sane_allocateNew (sane_evict h t purpose) hserves hstep q

/-- Callers have what they had, and with it a block that was nobody's unless `allocate` throws. -/
def Lends (s s' : State) (size : Nat) (align : Align) : Prop :=
  s'.lent = s.lent ∨ ∃ p, p ≠ 0 ∧ p % align.val = 0 ∧ s.lent p = none ∧
    s'.lent = Function.update s.lent p (some ⟨size, align⟩)

theorem lends_allocateNew {size : Nat} {align : Align} {answer : Option Answer}
    (h : ∀ p, Sane cfg s p) (hserves : cfg.Serves size align)
    (hstep : allocateNew cfg s size align answer = some s') : Lends s s' size align := by
  cases answer with
  | none =>
    cases hstep
    exact .inl rfl
  | some answer =>
    simp only [allocateNew] at hstep
    split at hstep
    · rename_i hfree
      obtain ⟨hne, halign, hnone⟩ := hfree
      cases hstep
      refine .inr ⟨answer.address, hne, ?_, ?_, rfl⟩
      · exact Nat.mod_eq_zero_of_dvd (Nat.dvd_trans hserves.dvd (Nat.dvd_of_mod_eq_zero halign))
      · exact (h _).lent_of_gone (Option.isNone_iff_eq_none.mp hnone)
    · cases hstep

theorem discard_lent (s : State) (t i : Nat) : (discard s t i).lent = s.lent := by
  rw [discard]
  split <;> rfl

theorem evict_lent (s : State) (t : Nat) (purpose : Purpose) :
    (evict cfg s t purpose).lent = s.lent := by
  rw [evict]
  split
  · exact discard_lent s t _
  · rfl

theorem lends_allocate {purpose : Purpose} {size : Nat} {align : Align} {answer : Option Answer}
    {thisThread : Option Nat} (h : ∀ p, Sane cfg s p) (hserves : cfg.Serves size align)
    (hstep : allocate cfg s purpose size align answer thisThread = some s') :
    Lends s s' size align := by
  cases thisThread with
  | none => exact lends_allocateNew h hserves hstep
  | some t =>
    rw [allocate] at hstep
    split at hstep
    · rename_i i p hreusable
      obtain ⟨hslot, -, halign⟩ := reusable_eq_some hreusable
      obtain ⟨-, b, hb, -⟩ := (h p).cached t i hslot
      cases hstep
      exact .inr ⟨p, (h p).ne_zero hb, halign, (h p).apart t i hslot, rfl⟩
    · have hlends := lends_allocateNew (sane_evict h t purpose) hserves hstep
      rwa [Lends, evict_lent] at hlends

/-- A block that is small enough to be kept has its tag in front. -/
theorem Block.Holds.recyclable (h : b.Holds cfg p loan)
    (hsize : loan.size ≤ cfg.chunkSize * Config.ucharMax) :
    Block.Recyclable cfg { b with mem := Function.update b.mem 0 (b.mem loan.size) } := by
  have hsmall : b.chunks cfg ≤ Config.ucharMax :=
    Nat.le_of_not_lt fun hlarge => Nat.not_le_of_lt (h.large hlarge) hsize
  refine ⟨h.whole, hsmall, ?_⟩
  calc
    (Function.update b.mem 0 (b.mem loan.size) 0).toNat = (b.mem loan.size).toNat := by
      rw [Function.update_self]
    _ = b.chunks cfg := by rw [h.tagged, Config.toNat_tag hsmall]

theorem sane_deallocate {purpose : Purpose} {thisThread : Option Nat} (h : ∀ p, Sane cfg s p)
    (hlent : s.lent p = some loan) (q : Nat) :
    Sane cfg (deallocate cfg s purpose p loan.size thisThread) q := by
  obtain ⟨b, hb, hholds⟩ := (h p).lent loan hlent
  have hslots := (h p).slots_of_lent (by simp [hlent])
  simp only [deallocate]
  split
  · rename_i t i hslot
    split at hslot
    · rename_i hsize
      obtain ⟨t', -, hslot⟩ := Option.bind_eq_some_iff.mp hslot
      obtain ⟨i', hvacant, hslot⟩ := Option.map_eq_some_iff.mp hslot
      cases hslot
      have hnone : s.reusableMemory t i = none := by
        have := List.find?_some hvacant
        rwa [Option.isNone_iff_eq_none] at this
      have hbyte : s.byte p loan.size = b.mem loan.size := by rw [State.byte, hb]; rfl
      by_cases hq : q = p
      · subst hq
        refine .kept ((h q).ne_zero hb) ?_ (Function.update_self ..) (hholds.recyclable hsize)
          (mem_memIndices (List.mem_of_find?_eq_some hvacant)) (t := t) ?_ ?_
        · simp [State.setSlot, State.store, State.giveBack, hb, hbyte]
        · rw [setSlot_apply, if_pos ⟨rfl, rfl⟩]
        · intro t' i' hslot
          rw [setSlot_apply] at hslot
          split at hslot
          · assumption
          · exact absurd hslot (hslots t' i')
      · refine (h q).congr ?_ (Function.update_of_ne hq ..) fun t' i' => ?_
        · simp [State.setSlot, State.store, State.giveBack, hq]
        · rw [setSlot_apply]
          split
          · rename_i heq
            obtain ⟨rfl, rfl⟩ := heq
            simp [hnone, Ne.symm hq]
          · exact Iff.rfl
    · cases hslot
  · by_cases hq : q = p
    · subst hq
      exact .gone (Function.update_self ..) (Function.update_self ..) hslots
    · exact (h q).congr (Function.update_of_ne hq ..) (Function.update_of_ne hq ..)
        fun _ _ => Iff.rfl

theorem deallocate_lent (s : State) (purpose : Purpose) (p size : Nat) (thisThread : Option Nat) :
    (deallocate cfg s purpose p size thisThread).lent = Function.update s.lent p none := by
  simp only [deallocate]
  split <;> rfl

/-- Callers do not write where the tag is. -/
theorem sane_write {index : Nat} {byte : UInt8} (h : ∀ p, Sane cfg s p)
    (hlent : s.lent p = some loan) (hindex : index < loan.size) (q : Nat) :
    Sane cfg (s.store p index byte) q := by
  obtain ⟨b, hb, hholds⟩ := (h p).lent loan hlent
  by_cases hq : q = p
  · subst hq
    have htagged : Function.update b.mem index byte loan.size = Config.tag (b.chunks cfg) := by
      rw [Function.update_of_ne (Nat.ne_of_gt hindex), hholds.tagged]
    refine .borrowed (b := { b with mem := Function.update b.mem index byte })
      ((h q).ne_zero hb) ?_ hlent
      ⟨hholds.whole, hholds.room, hholds.large, hholds.aligned, htagged⟩
      ((h q).slots_of_lent (by simp [hlent]))
    simp [State.store, hb]
  · exact (h q).congr (Function.update_of_ne hq ..) rfl fun _ _ => Iff.rfl

/-! ### Runs -/

/-- What callers and threads rely on, which the tags tell them. -/
structure Sound (cfg : Config) (s : State) : Prop where
  bounds : ∀ p loan, s.lent p = some loan →
    ∃ b, s.heap p = some b ∧ loan.size + 1 ≤ b.bytes ∧ p % loan.align.val = 0
  lentTag : ∀ p loan b, s.lent p = some loan → s.heap p = some b →
    (b.mem loan.size).toNat = if b.chunks cfg ≤ Config.ucharMax then b.chunks cfg else 0
  cachedTag : ∀ t i p, s.reusableMemory t i = some p →
    ∃ b, s.heap p = some b ∧ b.chunks cfg ≤ Config.ucharMax ∧ (b.mem 0).toNat = b.chunks cfg
  apart : ∀ t i p, s.reusableMemory t i = some p → s.lent p = none
  once : ∀ t i t' i' p, s.reusableMemory t i = some p → s.reusableMemory t' i' = some p →
    t' = t ∧ i' = i

theorem sound_of_sane (h : ∀ p, Sane cfg s p) : Sound cfg s where
  bounds p loan hlent := by
    obtain ⟨b, hb, hholds⟩ := (h p).lent loan hlent
    exact ⟨b, hb, Nat.le_trans (Nat.succ_le_succ hholds.room) hholds.whole, hholds.aligned⟩
  lentTag p loan b hlent hb := by
    obtain ⟨b', hb', hholds⟩ := (h p).lent loan hlent
    cases hb.symm.trans hb'
    rw [hholds.tagged]
    split
    · rename_i hsmall
      exact Config.toNat_tag hsmall
    · rename_i hlarge
      rw [Config.tag, if_neg hlarge]
      rfl
  cachedTag t i p hslot := by
    obtain ⟨-, b, hb, hrecyclable⟩ := (h p).cached t i hslot
    exact ⟨b, hb, hrecyclable.small, hrecyclable.tagged⟩
  apart t i p := (h p).apart t i
  once t i t' i' p := (h p).once t i t' i'

instance : ∀ (cfg : Config) (size : Nat) (align : Align), Decidable (cfg.Serves size align)
  | ⟨_, _, _, .alignedAlloc⟩, _, _ => inferInstanceAs (Decidable (_ ∧ _))
  | ⟨_, _, _, .operatorNew _⟩, _, _ => inferInstanceAs (Decidable (_ ∧ _))

/-- What is asked for can be served. -/
def Action.Served (cfg : Config) : Action → Prop
  | .allocate _ _ size align _ => cfg.Serves size align
  | .deallocate .. => True
  | .write .. => True
  | .exit _ => True

instance (cfg : Config) : ∀ a : Action, Decidable (a.Served cfg)
  | .allocate _ _ size align _ => inferInstanceAs (Decidable (cfg.Serves size align))
  | .deallocate .. => isTrue trivial
  | .write .. => isTrue trivial
  | .exit _ => isTrue trivial

theorem sane_step {a : Action} (h : ∀ p, Sane cfg s p) (hserved : a.Served cfg)
    (hstep : step cfg s a = some s') (p : Nat) : Sane cfg s' p := by
  cases a with
  | allocate thisThread purpose size align answer => exact sane_allocate h hserved hstep p
  | deallocate thisThread purpose pointer size =>
    simp only [step] at hstep
    split at hstep
    · rename_i hlent
      obtain ⟨loan, hlent, hsize⟩ := (Option.any_eq_true ..).mp hlent
      cases hstep
      rw [← of_decide_eq_true hsize]
      exact sane_deallocate h hlent p
    · cases hstep
  | write pointer index byte =>
    simp only [step] at hstep
    split at hstep
    · rename_i hlent
      obtain ⟨loan, hlent, hindex⟩ := (Option.any_eq_true ..).mp hlent
      cases hstep
      exact sane_write h hlent (of_decide_eq_true hindex) p
    · cases hstep
  | exit thread =>
    cases hstep
    exact sane_exit h thread p

theorem recycled_blocks_sound
    (h : Reachable (step cfg) (fun _ a => a.Served cfg) State.init s) : Sound cfg s := by
  apply sound_of_sane
  refine h.invariant (I := fun s => ∀ p, Sane cfg s p) ?_ sane_step
  exact fun p => .gone rfl rfl nofun

end Moves

/-- A build with `std::aligned_alloc` -/
def typical : Config := ⟨false, 2, ⟨4⟩, .alignedAlloc⟩

/-- A block of five chunks is used again for three bytes. -/
def reuse : List Action :=
  [.allocate (some 0) .default 20 ⟨3⟩ (some ⟨64, fun _ => 0⟩),
    .deallocate (some 0) .default 64 20, .allocate (some 0) .default 3 ⟨3⟩ none]

theorem recycled_blocks_sound_reused :
    ∃ s, s.byte 64 3 = 5 ∧ s.lent 64 = some ⟨3, ⟨3⟩⟩ ∧ Sound typical s := by
  have hrun : (exec (guarded (step typical) fun _ a => a.Served typical) State.init reuse).isSome :=
    by decide
  obtain ⟨s, hs⟩ := Option.isSome_iff_exists.mp hrun
  refine ⟨s, ?_, ?_, recycled_blocks_sound (exec_guarded_reachable hs)⟩
  · cases hs
    rfl
  · cases hs
    rfl

/-- A size that goes around when it is rounded up leaves no room for itself. -/
theorem not_sound_of_wrap :
    ∃ s, Reachable (step typical) (fun _ _ => True) State.init s ∧ ¬ Sound typical s := by
  refine ⟨_, Reachable.start.step (a := .allocate none .default (2 ^ 64 - 1) ⟨0⟩
    (some ⟨64, fun _ => 0⟩)) trivial rfl, fun h => ?_⟩
  obtain ⟨b, hb, hle, -⟩ := h.bounds 64 ⟨2 ^ 64 - 1, ⟨0⟩⟩ rfl
  cases hb
  exact absurd hle (by decide)

end Asio.Detail.ThreadInfoBase
