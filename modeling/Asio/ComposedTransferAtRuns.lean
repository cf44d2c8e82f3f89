import Asio.ComposedTransferAt

/-! Where the composed operations at an offset transfer to, and that they return. -/

universe u v w x

namespace Asio

/-! ### What every transfer preserves -/

section Runs

variable {γ : Type v} {κ : Type u} {σ : Type w} {χ : Type x}

/-- `I n` is preserved by transfers that follow the first `n` elements of the sequence. -/
def RandomAccessDevice.Preserves (D : RandomAccessDevice σ γ) (offset : Nat) (sequence : List γ)
    (I : Nat → σ → Prop) : Prop :=
  ∀ ⦃n s prepared⦄, I n s → prepared.flatten <+: sequence.drop n →
    I (n + (D.transferSomeAt s ((offset + n) % 2 ^ 64) prepared).1)
      (D.transferSomeAt s ((offset + n) % 2 ^ 64) prepared).2.2

namespace TransferAt

/-- The invariant holds of what has been consumed of the sequence. -/
structure Holds (C : Consuming κ γ) (sequence : List γ) (I : Nat → σ → Prop)
    (t : TransferAt κ χ σ) : Prop where
  sequence : C.sequence t.buffers = sequence
  device : I (C.totalConsumed t.buffers) t.device

variable {C : Consuming κ γ} {K : ConditionObject χ} {D : RandomAccessDevice σ γ} {offset : Nat}
variable {sequence : List γ} {I : Nat → σ → Prop} {t t' : TransferAt κ χ σ}

theorem Holds.congr (h : t.Holds C sequence I) (hbuffers : t'.buffers = t.buffers)
    (hdevice : t'.device = t.device) : t'.Holds C sequence I := by
  refine ⟨?_, ?_⟩
  · rw [hbuffers, h.sequence]
  · rw [hbuffers, hdevice]
    exact h.device

theorem loop_buffers : (t.loop C K).buffers = t.buffers ∧ (t.loop C K).device = t.device := by
  unfold loop
  split <;> exact ⟨rfl, rfl⟩

theorem resume_buffers {cancelled : Bool} {n : Nat} :
    (t.resume C K cancelled n).buffers = t.buffers ∧
      (t.resume C K cancelled n).device = t.device := by
  simp only [resume]
  split_ifs <;> exact ⟨rfl, rfl⟩

theorem totalConsumed_transferSome : C.totalConsumed (t.transferSome C D offset).2.buffers =
    C.totalConsumed t.buffers + (t.transferSome C D offset).1 :=
  C.totalConsumed_consume

theorem Holds.transferSome (hD : D.Preserves offset sequence I) (h : t.Holds C sequence I) :
    (t.transferSome C D offset).2.Holds C sequence I where
  sequence := C.sequence_consume.trans h.sequence
  device := by
    have hprefix : (C.prepare t.buffers t.maxSize).flatten <+:
        sequence.drop (C.totalConsumed t.buffers) := h.sequence ▸ C.prepare_prefix
    rw [totalConsumed_transferSome]
    exact hD h.device hprefix

theorem Holds.syncStep (hD : D.Preserves offset sequence I) (h : t.Holds C sequence I) :
    (t.syncStep C K D offset).Holds C sequence I :=
  (h.transferSome hD).congr loop_buffers.1 loop_buffers.2

theorem Holds.asyncStep (hD : D.Preserves offset sequence I) (cancelled : σ → Bool)
    (h : t.Holds C sequence I) : (t.asyncStep C K D offset cancelled).Holds C sequence I :=
  (h.transferSome hD).congr resume_buffers.1 resume_buffers.2

theorem Holds.after {step : TransferAt κ χ σ → TransferAt κ χ σ}
    (hstep : ∀ t, t.Holds C sequence I → (step t).Holds C sequence I)
    (h : t.Holds C sequence I) (k : Nat) : (t.after step k).Holds C sequence I := by
  induction k with
  | zero => exact h
  | succ k ih =>
    simp only [TransferAt.after]
    split
    · exact ih
    · exact hstep _ ih

section Calls

variable {buffers : κ} {condition : χ} {s : σ} {k : Nat}

theorem holds_construct (hfresh : C.totalConsumed buffers = 0) (hs : I 0 s) :
    (construct buffers condition s).Holds C (C.sequence buffers) I where
  sequence := rfl
  device := by
    simp only [construct, hfresh]
    exact hs

theorem holds_sync (hfresh : C.totalConsumed buffers = 0)
    (hD : D.Preserves offset (C.sequence buffers) I) (hs : I 0 s) :
    (sync C K D offset buffers condition s k).Holds C (C.sequence buffers) I :=
  .after (fun _ => .syncStep hD)
    ((holds_construct hfresh hs).congr loop_buffers.1 loop_buffers.2) k

theorem holds_async {cancelled : σ → Bool} (hfresh : C.totalConsumed buffers = 0)
    (hD : D.Preserves offset (C.sequence buffers) I) (hs : I 0 s) :
    (async C K D offset buffers condition s cancelled k).Holds C (C.sequence buffers) I := by
  have hstart : (construct buffers condition s).Holds C (C.sequence buffers) I :=
    holds_construct hfresh hs
  have hcheck : ((construct buffers condition s).checkForCompletion C K).Holds C
      (C.sequence buffers) I := hstart.congr rfl rfl
  exact hcheck.after (fun _ => .asyncStep hD cancelled) k

end Calls

end TransferAt

/-! ### An operation returns -/

def ConditionObject.StopsAtErrors (K : ConditionObject χ) : Prop :=
  ∀ c e n, adaptCompletionConditionResult (K.call c (some e) n).1 = 0

/-- Without an error something is transferred. -/
def RandomAccessDevice.Progresses (D : RandomAccessDevice σ γ) : Prop :=
  ∀ s offset prepared, 0 < prepared.flatten.length →
    (D.transferSomeAt s offset prepared).2.1 = none →
    0 < (D.transferSomeAt s offset prepared).1

namespace TransferAt

variable {C : Consuming κ γ} {K : ConditionObject χ} {D : RandomAccessDevice σ γ} {offset : Nat}
variable {t : TransferAt κ χ σ} {k n : Nat}

/-- There is more to transfer, and so much has been. -/
structure Running (C : Consuming κ γ) (k : Nat) (t : TransferAt κ χ σ) : Prop where
  consumed : k ≤ C.totalConsumed t.buffers
  empty : C.empty t.buffers = false
  maxSize : 0 < t.maxSize

theorem Running.lt (h : t.Running C k) : k < (C.sequence t.buffers).length := by
  have hnot : ¬(C.sequence t.buffers).length ≤ C.totalConsumed t.buffers := by
    rw [← C.empty_iff, h.empty]
    exact Bool.false_ne_true
  have := h.consumed
  omega

theorem check_running (hK : K.StopsAtErrors) (hempty : ¬C.empty t.buffers = true)
    (hconsumed : t.ec = none → k ≤ C.totalConsumed t.buffers)
    (hmax : ¬(t.checkForCompletion C K).maxSize = 0) :
    (t.checkForCompletion C K).Running C k := by
  refine ⟨?_, Bool.eq_false_of_not_eq_true hempty, Nat.pos_of_ne_zero hmax⟩
  apply hconsumed
  cases hec : t.ec with
  | none => rfl
  | some e =>
    rw [checkForCompletion, hec] at hmax
    exact absurd (hK ..) hmax

theorem loop_running (hK : K.StopsAtErrors)
    (hconsumed : t.ec = none → k ≤ C.totalConsumed t.buffers) :
    (t.loop C K).done = true ∨ (t.loop C K).Running C k := by
  unfold loop
  split
  · exact Or.inl rfl
  · rename_i hempty
    by_cases hmax : (t.checkForCompletion C K).maxSize = 0
    · exact Or.inl (decide_eq_true hmax)
    · have := check_running hK hempty hconsumed hmax
      exact Or.inr ⟨this.consumed, this.empty, this.maxSize⟩

theorem resume_running (hK : K.StopsAtErrors) {cancelled : Bool}
    (hconsumed : t.ec = none → n ≠ 0 → k ≤ C.totalConsumed t.buffers) :
    (t.resume C K cancelled n).done = true ∨ (t.resume C K cancelled n).Running C k := by
  simp only [resume]
  split_ifs with hstop hmax
  · exact Or.inl rfl
  · exact Or.inl rfl
  · exact Or.inl rfl
  · obtain ⟨hsome, hempty⟩ := not_or.mp hstop
    exact Or.inr (check_running hK hempty (fun hec => hconsumed hec fun hn => hsome ⟨hec, hn⟩) hmax)

theorem Running.syncStep (hK : K.StopsAtErrors) (hD : D.Progresses) (h : t.Running C k) :
    (t.syncStep C K D offset).done = true ∨ (t.syncStep C K D offset).Running C (k + 1) := by
  apply loop_running hK
  intro hec
  have hsome : 0 < (t.transferSome C D offset).1 :=
    hD _ _ _ (C.prepare_pos h.maxSize h.empty) hec
  rw [totalConsumed_transferSome]
  exact Nat.add_le_add h.consumed hsome

theorem asyncStep_running (hK : K.StopsAtErrors) (cancelled : σ → Bool)
    (hconsumed : k ≤ C.totalConsumed t.buffers) :
    (t.asyncStep C K D offset cancelled).done = true ∨
      (t.asyncStep C K D offset cancelled).Running C (k + 1) := by
  apply resume_running hK
  intro _ hn
  rw [totalConsumed_transferSome]
  exact Nat.add_le_add hconsumed (Nat.pos_of_ne_zero hn)

/-- A measure that grows with every step is reached, unless the operation is done. -/
theorem after_done {step : TransferAt κ χ σ → TransferAt κ χ σ} {P : Nat → TransferAt κ χ σ → Prop}
    (hstart : t.done = true ∨ P 0 t)
    (hstep : ∀ k t, P k t → (step t).done = true ∨ P (k + 1) (step t)) (k : Nat) :
    (t.after step k).done = true ∨ P k (t.after step k) := by
  induction k with
  | zero => exact hstart
  | succ k ih =>
    simp only [after]
    split
    · exact Or.inl ‹_›
    · exact hstep k _ (ih.resolve_left ‹_›)

variable {buffers : κ} {condition : χ} {s : σ}

theorem sequence_sync (hfresh : C.totalConsumed buffers = 0) :
    C.sequence (sync C K D offset buffers condition s k).buffers = C.sequence buffers :=
  (holds_sync (I := fun _ _ => True) hfresh (fun _ _ _ _ _ => trivial) trivial).sequence

theorem sequence_async {cancelled : σ → Bool} (hfresh : C.totalConsumed buffers = 0) :
    C.sequence (async C K D offset buffers condition s cancelled k).buffers =
      C.sequence buffers :=
  (holds_async (I := fun _ _ => True) hfresh (fun _ _ _ _ _ => trivial) trivial).sequence

theorem sync_running (hK : K.StopsAtErrors) (hD : D.Progresses) (k : Nat) :
    (sync C K D offset buffers condition s k).done = true ∨
      (sync C K D offset buffers condition s k).Running C k :=
  after_done (loop_running hK fun _ => Nat.zero_le _) (fun _ _ h => h.syncStep hK hD) k

theorem async_consumed (hK : K.StopsAtErrors) (cancelled : σ → Bool) (k : Nat) :
    (async C K D offset buffers condition s cancelled k).done = true ∨
      k ≤ C.totalConsumed (async C K D offset buffers condition s cancelled k).buffers :=
  after_done (P := fun k t => k ≤ C.totalConsumed t.buffers) (Or.inr (Nat.zero_le _))
    (fun _ _ h => (asyncStep_running hK cancelled h).imp_right Running.consumed) k

/-- The first transfer is made in any case, and the second if there is more to transfer. -/
theorem async_running (hK : K.StopsAtErrors) (cancelled : σ → Bool) (k : Nat) :
    (async C K D offset buffers condition s cancelled (k + 1)).done = true ∨
      (async C K D offset buffers condition s cancelled (k + 1)).Running C (k + 1) := by
  simp only [async, after]
  split
  · exact Or.inl ‹_›
  · exact asyncStep_running hK cancelled ((async_consumed hK cancelled k).resolve_left ‹_›)

theorem exists_done_sync (hfresh : C.totalConsumed buffers = 0) (hK : K.StopsAtErrors)
    (hD : D.Progresses) : ∃ k, (sync C K D offset buffers condition s k).done = true := by
  refine ⟨(C.sequence buffers).length, (sync_running hK hD _).resolve_right fun hrun => ?_⟩
  have hlt := hrun.lt
  rw [sequence_sync hfresh] at hlt
  exact Nat.lt_irrefl _ hlt

theorem exists_done_async {cancelled : σ → Bool} (hfresh : C.totalConsumed buffers = 0)
    (hK : K.StopsAtErrors) :
    ∃ k, (async C K D offset buffers condition s cancelled k).done = true := by
  refine ⟨(C.sequence buffers).length + 1, (async_running hK cancelled _).resolve_right
    fun hrun => ?_⟩
  have hlt := hrun.lt
  rw [sequence_async hfresh] at hlt
  exact Nat.not_succ_le_self _ hlt.le

end TransferAt

end Runs

/-! ### Writing -/

section Writing

variable {ρ : Type w} {α : Type v} (d : RandomAccessWriteDevice ρ α) (q : BufferSequence α)
variable (offset : Nat) (s : WritingAt ρ α)

/-- A prefix of the buffers has been written at the offset, each byte once, and nothing else has
changed. -/
structure WrittenAt (n : Nat) (s' : WritingAt ρ α) : Prop where
  le : n ≤ q.concatenated.length
  written : s'.written = s.written ++ (positions offset n).zip (q.concatenated.take n)
  once : n ≤ 2 ^ 64 → (positions offset n).Nodup
  contents : n ≤ 2 ^ 64 → (positions offset n).map s'.contents = q.concatenated.take n
  outside : ∀ p ∉ positions offset n, s'.contents p = s.contents p

/-- The invariant of the transfers. -/
structure WritingTo (n : Nat) (s' : WritingAt ρ α) : Prop where
  le : n ≤ q.concatenated.length
  written : s'.written = s.written ++ (positions offset n).zip (q.concatenated.take n)
  contents : s'.contents = storeAt s.contents (positions offset n) (q.concatenated.take n)

/-- Storing at two runs of places is storing at one, then at the other. -/
theorem storeAt_append_append (memory : Nat → α) {places places' : List Nat} {l l' : List α}
    (h : l.length = places.length) : storeAt memory (places ++ places') (l ++ l') =
      storeAt (storeAt memory places l) places' l' := by
  rw [storeAt_append, storeAt_of_prefix memory (List.prefix_append ..) h.le, h, List.drop_left]

theorem writingTo_preserves :
    d.device.Preserves offset q.concatenated (WritingTo q offset s) := by
  rintro n s' prepared h ⟨rest, hrest⟩
  have hle : (d.writeSomeAt s'.device ((offset + n) % 2 ^ 64) prepared).1 ≤
      prepared.flatten.length := d.le_length
  have hlength := congrArg List.length hrest
  rw [List.length_append, List.length_drop] at hlength
  have htake : (q.concatenated.take n).length = (positions offset n).length := by
    rw [length_positions, List.length_take, Nat.min_eq_left h.le]
  simp only [RandomAccessWriteDevice.device]
  generalize (d.writeSomeAt s'.device ((offset + n) % 2 ^ 64) prepared).1 = m at hle ⊢
  have hadd : q.concatenated.take (n + m) = q.concatenated.take n ++ prepared.flatten.take m := by
    rw [List.take_add, ← hrest, List.take_append_of_le_length hle]
  have hn := h.le
  refine ⟨by omega, ?_, ?_⟩
  · rw [h.written, hadd, positions_add, List.zip_append htake.symm, List.append_assoc]
  · rw [h.contents, hadd, positions_add, storeAt_append_append _ htake]

theorem writingTo_start : WritingTo q offset s 0 s where
  le := Nat.zero_le _
  written := (List.append_nil _).symm
  contents := rfl

theorem WritingTo.writtenAt {n : Nat} {s' : WritingAt ρ α} (h : WritingTo q offset s n s') :
    WrittenAt q offset s n s' := by
  have hlength : (q.concatenated.take n).length = n := by
    rw [List.length_take, Nat.min_eq_left h.le]
  have htake : (positions offset n).take (q.concatenated.take n).length = positions offset n := by
    rw [hlength, List.take_of_length_le (length_positions ..).le]
  refine ⟨h.le, h.written, nodup_positions offset, fun hn => ?_, fun p hp => ?_⟩
  · have hmap := map_storeAt s.contents (l := q.concatenated.take n) (nodup_positions offset hn)
      (by rw [hlength, length_positions])
    rwa [htake, ← h.contents] at hmap
  · rw [h.contents]
    exact storeAt_of_notMem _ (by rwa [htake])

end Writing

/-! ### Reading -/

section Reading

variable {ρ : Type w} {α : Type v} (d : RandomAccessReadDevice ρ α) (q : BufferSequence Nat)
variable (offset : Nat) (s : ReadingAt ρ α)

/-- The buffers hold what the device has from the offset on, each byte of it was read once, and
nothing else has changed. -/
structure ReadInAt (n : Nat) (s' : ReadingAt ρ α) : Prop where
  le : n ≤ q.concatenated.length
  read : s'.read = s.read ++ positions offset n
  once : n ≤ 2 ^ 64 → (positions offset n).Nodup
  memory : s'.memory = storeAt s.memory q.concatenated (d.bytes offset n)
  buffers : q.concatenated.Nodup → (q.concatenated.take n).map s'.memory = d.bytes offset n
  outside : ∀ place ∉ q.concatenated.take n, s'.memory place = s.memory place

/-- The invariant of the transfers. -/
structure ReadingFrom (n : Nat) (s' : ReadingAt ρ α) : Prop where
  le : n ≤ q.concatenated.length
  read : s'.read = s.read ++ positions offset n
  memory : s'.memory = storeAt s.memory q.concatenated (d.bytes offset n)

@[simp] theorem RandomAccessReadDevice.length_bytes (n : Nat) : (d.bytes offset n).length = n := by
  rw [bytes, List.length_map, length_positions]

theorem RandomAccessReadDevice.bytes_add (m n : Nat) :
    d.bytes offset (m + n) = d.bytes offset m ++ d.bytes ((offset + m) % 2 ^ 64) n := by
  rw [bytes, positions_add, List.map_append]
  rfl

theorem readingFrom_preserves :
    d.device.Preserves offset q.concatenated (ReadingFrom d q offset s) := by
  intro n s' prepared h hprefix
  have hle : (d.readSomeAt s'.device ((offset + n) % 2 ^ 64) (prepared.map List.length)).1 ≤
      prepared.flatten.length := by
    rw [List.length_flatten]
    exact d.le_sum
  have hlength := hprefix.length_le
  rw [List.length_drop] at hlength
  simp only [RandomAccessReadDevice.device]
  generalize (d.readSomeAt s'.device ((offset + n) % 2 ^ 64)
    (prepared.map List.length)).1 = m at hle ⊢
  have hn := h.le
  refine ⟨by omega, ?_, ?_⟩
  · rw [h.read, positions_add, List.append_assoc]
  · rw [h.memory, d.bytes_add, storeAt_append, d.length_bytes,
      storeAt_of_prefix _ hprefix (by rwa [d.length_bytes])]

theorem readingFrom_start : ReadingFrom d q offset s 0 s where
  le := Nat.zero_le _
  read := (List.append_nil _).symm
  memory := by cases q.concatenated <;> rfl

theorem ReadingFrom.readInAt {n : Nat} {s' : ReadingAt ρ α} (h : ReadingFrom d q offset s n s') :
    ReadInAt d q offset s n s' := by
  have hlength : (d.bytes offset n).length = n := d.length_bytes offset n
  refine ⟨h.le, h.read, nodup_positions offset, h.memory, fun hnodup => ?_, fun p hp => ?_⟩
  · have hmap := map_storeAt s.memory (l := d.bytes offset n) hnodup (by rw [hlength]; exact h.le)
    rwa [hlength, ← h.memory] at hmap
  · rw [h.memory]
    exact storeAt_of_notMem _ (by rwa [hlength])

end Reading

/-! ### The calls -/

namespace TransferAt

variable {χ : Type x} {ρ : Type w} {α : Type v} (K : ConditionObject χ) (offset : Nat)
variable (condition : χ) (k : Nat)

/-- What has been transferred is what the operation reports. -/
def HasWritten (q : BufferSequence α) (offset : Nat) (s : WritingAt ρ α)
    (t : TransferAt (ConsumingBuffers α ⊕ ConsumingSingleBuffer α ⊕ ConsumingTwoBuffers α) χ
      (WritingAt ρ α)) : Prop :=
  WrittenAt q offset s (t.bytesTransferred consumingBuffers) t.device

def HasRead (d : RandomAccessReadDevice ρ α) (q : BufferSequence Nat) (offset : Nat)
    (s : ReadingAt ρ α)
    (t : TransferAt (ConsumingBuffers Nat ⊕ ConsumingSingleBuffer Nat ⊕ ConsumingTwoBuffers Nat) χ
      (ReadingAt ρ α)) : Prop :=
  ReadInAt d q offset s (t.bytesTransferred consumingBuffers) t.device

section Writing

variable (d : RandomAccessWriteDevice ρ α) (q : BufferSequence α) (s : WritingAt ρ α)

theorem writeAt_hasWritten : HasWritten q offset s
    (writeAt consumingBuffers K d offset q.construct condition s k) := by
  have hpreserves := writingTo_preserves d q offset s
  rw [← q.sequence_construct] at hpreserves
  have hstart := writingTo_start q offset s
  exact (holds_sync q.totalConsumed_construct hpreserves hstart).device.writtenAt

theorem asyncWriteAt_hasWritten (cancelled : WritingAt ρ α → Bool) : HasWritten q offset s
    (asyncWriteAt consumingBuffers K d offset q.construct condition s cancelled k) := by
  have hpreserves := writingTo_preserves d q offset s
  rw [← q.sequence_construct] at hpreserves
  have hstart := writingTo_start q offset s
  exact (holds_async q.totalConsumed_construct hpreserves hstart).device.writtenAt

end Writing

section Reading

variable (d : RandomAccessReadDevice ρ α) (q : BufferSequence Nat) (s : ReadingAt ρ α)

theorem readAt_hasRead : HasRead d q offset s
    (readAt consumingBuffers K d offset q.construct condition s k) := by
  have hpreserves := readingFrom_preserves d q offset s
  rw [← q.sequence_construct] at hpreserves
  have hstart := readingFrom_start d q offset s
  exact (holds_sync q.totalConsumed_construct hpreserves hstart).device.readInAt

theorem asyncReadAt_hasRead (cancelled : ReadingAt ρ α → Bool) : HasRead d q offset s
    (asyncReadAt consumingBuffers K d offset q.construct condition s cancelled k) := by
  have hpreserves := readingFrom_preserves d q offset s
  rw [← q.sequence_construct] at hpreserves
  have hstart := readingFrom_start d q offset s
  exact (holds_async q.totalConsumed_construct hpreserves hstart).device.readInAt

end Reading

end TransferAt

end Asio
