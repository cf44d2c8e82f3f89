import Asio.ComposedTransfer

/-! What the composed operations transfer, and that the asynchronous ones do what the synchronous
ones do. -/

universe u v w

namespace Asio

/-! ### Where a transfer stops -/

namespace CompletionCondition

variable (condition : CompletionCondition) {total count m n : Nat}

/-- The counts that an operation passes through. -/
def Allows (count : Nat) : CompletionCondition → Prop
  | .transferExactly size => count ≤ size
  | _ => True

theorem allows_zero : condition.Allows 0 := by
  cases condition with
  | transferExactly size => exact Nat.zero_le size
  | transferAll | transferAtLeast => trivial

theorem check_transferExactly (size n : Nat) :
    (transferExactly size).check none n = min (size - n) defaultMaxTransferSize := by
  simp only [check, ne_eq, not_true_eq_false, false_or]
  split
  · omega
  · split <;> omega

theorem check_transferAtLeast_eq_zero {minimum : Nat}
    (h : (transferAtLeast minimum).check none n = 0) : minimum ≤ n := by
  by_contra hlt
  simp [check, hlt, defaultMaxTransferSize] at h

theorem allows_add (h : condition.Allows n) (hm : m ≤ condition.check none n) :
    condition.Allows (n + m) := by
  cases condition with
  | transferAll | transferAtLeast => trivial
  | transferExactly size =>
    rw [check_transferExactly] at hm
    simp only [Allows] at h ⊢
    omega

theorem reached_of_stopped (hle : count ≤ total) (hallows : condition.Allows count)
    (h : total ≤ count ∨ condition.check none count = 0) : condition.Reached total count := by
  cases condition with
  | transferAll => exact h.elim (fun h => Nat.le_antisymm hle h) (fun h => by cases h)
  | transferAtLeast minimum =>
    have := h.imp_right check_transferAtLeast_eq_zero
    simp only [Reached]
    omega
  | transferExactly size =>
    rw [check_transferExactly, defaultMaxTransferSize] at h
    simp only [Allows, Reached] at hallows ⊢
    omega

/-- There is nothing to transfer. -/
def Idle (total : Nat) : Prop := total = 0 ∨ condition.check none 0 = 0

theorem Idle.reached (h : condition.Idle total) : condition.Reached total 0 := by
  refine condition.reached_of_stopped (Nat.zero_le total) condition.allows_zero ?_
  exact h.imp Nat.le_of_eq id

end CompletionCondition

/-! ### What every transfer preserves -/

section Runs

variable {γ : Type v} {κ : Type u} {σ : Type w}
variable (C : Consuming κ γ) (stream : TransferStream σ γ) (condition : CompletionCondition)
variable {I : Nat → σ → Prop} {tmp : κ} {ec : Option ErrorCode} {m n : Nat} {s : σ}

/-- `I n` is preserved by transfers that follow the first `n` elements of the sequence. -/
def TransferStream.Preserves (sequence : List γ) (I : Nat → σ → Prop) : Prop :=
  ∀ ⦃n s prepared⦄, I n s → prepared.flatten <+: sequence.drop n →
    prepared.flatten.length ≤ condition.check none n →
    I (n + (stream.transferSome s prepared).1) (stream.transferSome s prepared).2.2

theorem preserves_le (sequence : List γ) :
    stream.Preserves condition sequence fun n _ => n ≤ sequence.length := by
  intro n s prepared hle hprefix _
  have hsome : (stream.transferSome s prepared).1 ≤ prepared.flatten.length := stream.le_length
  have hlength := hprefix.length_le
  rw [List.length_drop] at hlength
  omega

theorem preserves_allows (sequence : List γ) :
    stream.Preserves condition sequence fun n _ => condition.Allows n := by
  intro n s prepared hallows _ hm
  exact condition.allows_add hallows (stream.le_length.trans hm)

theorem check_pos (h : condition.check ec n = m + 1) : ec = none := by
  cases ec with
  | none => rfl
  | some e =>
    rw [check_error] at h
    cases h

theorem transferFrom_preserves (h : stream.Preserves condition (C.sequence tmp) I)
    (hs : I (C.totalConsumed tmp) s) :
    I (transferFrom C stream condition tmp ec s).1
      (transferFrom C stream condition tmp ec s).2.2 := by
  induction tmp, ec, s using transferFrom.induct C stream condition with
  | case1 tmp ec s hempty =>
    rw [transferFrom_stop C stream condition s (Or.inl hempty)]
    exact hs
  | case2 tmp ec s hempty hm =>
    rw [transferFrom_stop C stream condition s (Or.inr hm)]
    exact hs
  | case3 tmp ec s hempty m hm result ih =>
    obtain rfl := check_pos condition hm
    rw [transferFrom_next C stream condition s hempty hm]
    apply ih
    · rwa [C.sequence_consume]
    · rw [C.totalConsumed_consume]
      exact h hs C.prepare_prefix (hm ▸ C.prepare_le)

theorem transferFrom_stopped (tmp : κ) (ec : Option ErrorCode) (s : σ) :
    (C.sequence tmp).length ≤ (transferFrom C stream condition tmp ec s).1 ∨
      condition.check (transferFrom C stream condition tmp ec s).2.1
        (transferFrom C stream condition tmp ec s).1 = 0 := by
  induction tmp, ec, s using transferFrom.induct C stream condition with
  | case1 tmp ec s hempty =>
    rw [transferFrom_stop C stream condition s (Or.inl hempty)]
    exact Or.inl (C.empty_iff.mp hempty)
  | case2 tmp ec s hempty hm =>
    rw [transferFrom_stop C stream condition s (Or.inr hm)]
    exact Or.inr hm
  | case3 tmp ec s hempty m hm result ih =>
    rw [transferFrom_next C stream condition s hempty hm]
    rwa [C.sequence_consume] at ih

/-- Without an error the count is what the condition asks for. -/
theorem transferFrom_reached (hfresh : C.totalConsumed tmp = 0)
    (hnone : (transferFrom C stream condition tmp ec s).2.1 = none) :
    condition.Reached (C.sequence tmp).length (transferFrom C stream condition tmp ec s).1 := by
  have hstopped := transferFrom_stopped C stream condition tmp ec s
  rw [hnone] at hstopped
  refine condition.reached_of_stopped ?_ ?_ hstopped
  · apply transferFrom_preserves C stream condition (preserves_le stream condition _)
    rw [hfresh]
    exact Nat.zero_le _
  · apply transferFrom_preserves C stream condition (preserves_allows stream condition _)
    rw [hfresh]
    exact condition.allows_zero

/-! ### The asynchronous operation -/

theorem completeTransfer_handler (k n : Nat) :
    completeTransfer C stream k (.handler ec n) s = some (n, ec, s) := by
  cases k <;> rfl

theorem completeTransfer_transfer (k : Nat) (op : TransferOp κ) (prepared : List (List γ)) :
    completeTransfer C stream (k + 1) (.transfer op prepared) s =
      completeTransfer C stream k
        (op.resume C (stream.transferSome s prepared).2.1 (stream.transferSome s prepared).1 false)
        (stream.transferSome s prepared).2.2 := by
  rfl

theorem completeTransfer_mono {k j : Nat} {next : TransferNext κ γ}
    {out : Nat × Option ErrorCode × σ} (h : completeTransfer C stream k next s = some out)
    (hle : k ≤ j) : completeTransfer C stream j next s = some out := by
  induction k generalizing j next s with
  | zero =>
    cases next with
    | handler ec n =>
      rw [completeTransfer_handler] at h ⊢
      exact h
    | transfer op prepared => cases h
  | succ k ih =>
    obtain ⟨j, rfl⟩ := Nat.exists_eq_add_of_lt (Nat.lt_of_succ_le hle)
    cases next with
    | handler ec n => exact h
    | transfer op prepared =>
      rw [completeTransfer_transfer] at h ⊢
      exact ih h (Nat.le_add_right k j)

section Resume

variable {c : κ}

theorem resume_stop (h : C.empty (C.consume c n) = true ∨
      condition.check ec (C.totalConsumed (C.consume c n)) = 0) :
    TransferOp.resume C ⟨c, condition⟩ ec n false =
      .handler ec (C.totalConsumed (C.consume c n)) := by
  simp only [TransferOp.resume, TransferOp.checkForCompletion]
  split
  · rfl
  · rename_i hnot
    exact if_pos (h.resolve_left fun hempty => hnot (Or.inr hempty))

theorem resume_next (hsome : ¬(ec = none ∧ n = 0)) (hempty : ¬C.empty (C.consume c n) = true)
    (hm : condition.check ec (C.totalConsumed (C.consume c n)) = m + 1) :
    TransferOp.resume C ⟨c, condition⟩ ec n false =
      .transfer ⟨C.consume c n, condition⟩ (C.prepare (C.consume c n) (m + 1)) := by
  simp only [TransferOp.resume, TransferOp.checkForCompletion, hm,
    if_neg (not_or.mpr ⟨hsome, hempty⟩)]
  rfl

/-- Once something has been transferred, or an error has occurred, the operation goes on as the
synchronous loop does. -/
theorem completeTransfer_resume (hsome : ¬(ec = none ∧ n = 0)) :
    ∃ k, completeTransfer C stream k (TransferOp.resume C ⟨c, condition⟩ ec n false) s =
      some (transferFrom C stream condition (C.consume c n) ec s) := by
  generalize htmp : C.consume c n = tmp
  induction tmp, ec, s using transferFrom.induct C stream condition generalizing c n with
  | case1 tmp ec s hempty =>
    subst htmp
    rw [transferFrom_stop C stream _ s (Or.inl hempty), resume_stop C _ (Or.inl hempty)]
    exact ⟨0, rfl⟩
  | case2 tmp ec s hempty hm =>
    subst htmp
    rw [transferFrom_stop C stream _ s (Or.inr hm), resume_stop C _ (Or.inr hm)]
    exact ⟨0, rfl⟩
  | case3 tmp ec s hempty m hm result =>
    rename_i ih
    subst htmp
    have hpos : 0 < (C.prepare (C.consume c n) (m + 1)).flatten.length :=
      C.prepare_pos (Nat.succ_pos m) (Bool.eq_false_of_not_eq_true hempty)
    obtain ⟨k, hk⟩ := ih (fun h => Nat.ne_of_gt (stream.pos hpos h.1) h.2) rfl
    rw [transferFrom_next C stream condition s hempty hm,
      resume_next C condition hsome hempty hm]
    exact ⟨k + 1, hk⟩

end Resume

/-- What the two kinds of operation have in common, and how they differ if there is nothing to
transfer: only the asynchronous one uses the stream. -/
structure Agree (total : Nat) (s : σ) (sync async : Nat × Option ErrorCode × σ) : Prop where
  count : async.1 = sync.1
  same : ¬condition.Idle total → async = sync
  idle : condition.Idle total → sync = (0, none, s) ∧
    ∃ prepared, prepared.flatten = [] ∧ async = stream.transferSome s prepared

theorem transferSome_empty {prepared : List (List γ)} (h : prepared.flatten = []) :
    (stream.transferSome s prepared).1 = 0 := by
  have hle : (stream.transferSome s prepared).1 ≤ prepared.flatten.length := stream.le_length
  rw [h] at hle
  exact Nat.eq_zero_of_le_zero hle

theorem prepare_idle {c : κ} (hfresh : C.totalConsumed c = 0)
    (hidle : condition.Idle (C.sequence c).length) :
    (C.prepare c (condition.check none (C.totalConsumed c))).flatten = [] := by
  rw [hfresh]
  rcases hidle with hnil | hzero
  · have hprefix := C.prepare_prefix (c := c) (m := condition.check none 0)
    rwa [List.length_eq_zero_iff.mp hnil, List.drop_nil, List.prefix_nil] at hprefix
  · have hle := C.prepare_le (c := c) (m := condition.check none 0)
    rw [hzero] at hle ⊢
    exact List.length_eq_zero_iff.mp (Nat.eq_zero_of_le_zero hle)

/-- There is one transfer, of nothing. -/
theorem completeTransfer_start_idle {c : κ} (hfresh : C.totalConsumed c = 0)
    (hidle : condition.Idle (C.sequence c).length) :
    ∃ prepared, prepared.flatten = [] ∧
      completeTransfer C stream 1 (TransferOp.start C ⟨c, condition⟩) s =
        some (stream.transferSome s prepared) := by
  have hflatten := prepare_idle C condition hfresh hidle
  have hcount := transferSome_empty stream (s := s) hflatten
  have hresume (ec : Option ErrorCode) :
      TransferOp.resume C ⟨c, condition⟩ ec 0 false = .handler ec 0 := by
    have htotal : C.totalConsumed (C.consume c 0) = 0 := by
      rw [C.totalConsumed_consume, hfresh]
    cases ec with
    | none => simp only [TransferOp.resume, and_self, true_or, if_true, htotal]
    | some e => rw [resume_stop C condition (Or.inr (check_error condition e _)), htotal]
  refine ⟨_, hflatten, ?_⟩
  rw [TransferOp.start, completeTransfer_transfer]
  simp only [TransferOp.checkForCompletion]
  rw [hcount, hresume, completeTransfer_handler, ← hcount]

theorem completeTransfer_start {c : κ} (hfresh : C.totalConsumed c = 0)
    (hidle : ¬condition.Idle (C.sequence c).length) :
    ∃ k, completeTransfer C stream k (TransferOp.start C ⟨c, condition⟩) s =
      some (transferFrom C stream condition c none s) := by
  obtain ⟨hne, hcheck⟩ := not_or.mp hidle
  have hempty : ¬C.empty c = true := by
    rw [C.empty_iff, hfresh]
    omega
  obtain ⟨m, hm⟩ := Nat.exists_eq_succ_of_ne_zero hcheck
  rw [← hfresh] at hm
  have hpos : 0 < (C.prepare c (m + 1)).flatten.length :=
    C.prepare_pos (Nat.succ_pos m) (Bool.eq_false_of_not_eq_true hempty)
  obtain ⟨k, hk⟩ := completeTransfer_resume C stream condition
    (s := (stream.transferSome s (C.prepare c (m + 1))).2.2) (c := c)
    (fun h => Nat.ne_of_gt (stream.pos (s := s) hpos h.1) h.2)
  refine ⟨k + 1, ?_⟩
  rw [transferFrom_next C stream condition s hempty hm, ← hk]
  simp only [TransferOp.start, TransferOp.checkForCompletion, hm, completeTransfer_transfer]

theorem exists_async {c : κ} (hfresh : C.totalConsumed c = 0) :
    ∃ k out, (∀ j, k ≤ j →
        completeTransfer C stream j (TransferOp.start C ⟨c, condition⟩) s = some out) ∧
      Agree stream condition (C.sequence c).length s (transferFrom C stream condition c none s)
        out := by
  by_cases hidle : condition.Idle (C.sequence c).length
  · obtain ⟨prepared, hflatten, hout⟩ := completeTransfer_start_idle C stream condition (s := s)
      hfresh hidle
    have hsync : transferFrom C stream condition c none s = (0, none, s) := by
      rw [transferFrom_stop C stream condition s, hfresh]
      rw [C.empty_iff, hfresh]
      exact hidle.imp_left Nat.le_of_eq
    refine ⟨1, _, fun j => completeTransfer_mono C stream hout, ?_, ?_, ?_⟩
    · rw [hsync]
      exact transferSome_empty stream hflatten
    · exact fun h => absurd hidle h
    · exact fun _ => ⟨hsync, prepared, hflatten, rfl⟩
  · obtain ⟨k, hk⟩ := completeTransfer_start C stream condition (s := s) hfresh hidle
    exact ⟨k, _, fun j => completeTransfer_mono C stream hk, rfl, fun _ => rfl,
      fun h => absurd h hidle⟩

/-- `out` is what transfers from `s` have come to. -/
structure Transferred (sequence : List γ) (s : σ) (out : Nat × Option ErrorCode × σ) : Prop where
  preserved {I : Nat → σ → Prop} : stream.Preserves condition sequence I → I 0 s → I out.1 out.2.2
  reached : out.2.1 = none → condition.Reached sequence.length out.1

theorem transferred_sync {c : κ} (hfresh : C.totalConsumed c = 0) :
    Transferred stream condition (C.sequence c) s (transferFrom C stream condition c none s) where
  preserved h hs := transferFrom_preserves C stream condition h (by rwa [hfresh])
  reached := transferFrom_reached C stream condition hfresh

theorem Agree.transferred {sequence : List γ} {sync async : Nat × Option ErrorCode × σ}
    (h : Agree stream condition sequence.length s sync async)
    (hsync : Transferred stream condition sequence s sync) :
    Transferred stream condition sequence s async := by
  by_cases hidle : condition.Idle sequence.length
  · obtain ⟨rfl, prepared, hflatten, rfl⟩ := h.idle hidle
    refine ⟨fun hpreserves hs => ?_, fun _ => h.count ▸ hsync.reached rfl⟩
    have := @hpreserves 0 s prepared hs (hflatten ▸ List.nil_prefix)
      (hflatten ▸ Nat.zero_le _)
    rwa [Nat.zero_add] at this
  · rwa [h.same hidle]

end Runs

/-! ### Writing -/

section Writing

variable {ρ : Type w} {α : Type v} (stream : BufferWriteStream ρ α)
variable (condition : CompletionCondition) (q : BufferSequence α) (s : Writing ρ α)

/-- What a write has done: it has passed a prefix of the buffers to the stream. -/
structure Written (out : Nat × Option ErrorCode × Writing ρ α) : Prop where
  le : out.1 ≤ q.concatenated.length
  written : out.2.2.written = s.written ++ q.concatenated.take out.1
  reached : out.2.1 = none → condition.Reached q.concatenated.length out.1

theorem writing_preserves : stream.transferStream.Preserves condition q.concatenated
    fun n s' => s'.written = s.written ++ q.concatenated.take n := by
  rintro n s' prepared hwritten ⟨rest, hrest⟩ -
  have hle : (stream.writeSome s'.stream prepared).1 ≤ prepared.flatten.length := stream.le_length
  simp only [BufferWriteStream.transferStream]
  rw [hwritten, List.append_assoc, List.take_add, ← hrest, List.take_append_of_le_length hle]

theorem Transferred.written {out : Nat × Option ErrorCode × Writing ρ α}
    (h : Transferred stream.transferStream condition q.concatenated s out) :
    Written condition q s out where
  le := h.preserved (preserves_le stream.transferStream condition _) (Nat.zero_le _)
  written := h.preserved (writing_preserves stream condition q s) (List.append_nil _).symm
  reached := h.reached

end Writing

/-! ### Reading -/

section Storing

variable {α : Type v} (memory : Nat → α) {places places' : List Nat} {l l' : List α}

theorem storeAt_of_prefix (h : places <+: places') (hle : l.length ≤ places.length) :
    storeAt memory places' l = storeAt memory places l := by
  induction l generalizing places places' memory with
  | nil => cases places' <;> cases places <;> rfl
  | cons a l ih =>
    obtain ⟨rest, rfl⟩ := h
    cases places with
    | nil => cases hle
    | cons place places => exact ih _ (List.prefix_append ..) (Nat.le_of_succ_le_succ hle)

theorem storeAt_append : storeAt memory places (l ++ l') =
    storeAt (storeAt memory places l) (places.drop l.length) l' := by
  induction l generalizing places memory with
  | nil => cases places <;> rfl
  | cons a l ih =>
    cases places with
    | nil => rfl
    | cons place places => exact ih _

theorem storeAt_of_notMem {place : Nat} (h : place ∉ places.take l.length) :
    storeAt memory places l place = memory place := by
  induction l generalizing places memory with
  | nil => cases places <;> rfl
  | cons a l ih =>
    cases places with
    | nil => rfl
    | cons head places =>
      rw [List.length_cons, List.take_succ_cons, List.mem_cons, not_or] at h
      rw [storeAt, ih _ h.2, Function.update_of_ne h.1]

/-- In places that differ, one finds what was stored. -/
theorem map_storeAt (hnodup : places.Nodup) (hle : l.length ≤ places.length) :
    (places.take l.length).map (storeAt memory places l) = l := by
  induction l generalizing places memory with
  | nil => rfl
  | cons a l ih =>
    cases places with
    | nil => cases hle
    | cons place places =>
      obtain ⟨hnot, hnodup⟩ := List.nodup_cons.mp hnodup
      rw [List.length_cons, List.take_succ_cons, List.map_cons, storeAt,
        storeAt_of_notMem _ fun hmem => hnot (List.mem_of_mem_take hmem),
        Function.update_self, ih _ hnodup (Nat.le_of_succ_le_succ hle)]

end Storing

section ReadingRuns

variable {ρ : Type w} {α : Type v} (stream : BufferReadStream ρ α)
variable (condition : CompletionCondition) (q : BufferSequence Nat) (s : Reading ρ α)

/-- The buffers hold the input, and nothing else has changed. -/
structure Stored (input : List α) (count : Nat) (s' : Reading ρ α) : Prop where
  supplied : s'.supplied = s.supplied ++ input
  length : input.length = count
  memory : s'.memory = storeAt s.memory q.concatenated input
  buffers : q.concatenated.Nodup → (q.concatenated.take count).map s'.memory = input
  outside : ∀ place ∉ q.concatenated.take count, s'.memory place = s.memory place

/-- What a read has done: it has stored what the stream supplied. -/
structure ReadInto (out : Nat × Option ErrorCode × Reading ρ α) : Prop where
  le : out.1 ≤ q.concatenated.length
  stored : ∃ input, Stored q s input out.1 out.2.2
  reached : out.2.1 = none → condition.Reached q.concatenated.length out.1

theorem reading_preserves : stream.transferStream.Preserves condition q.concatenated
    fun n s' => ∃ input, s'.supplied = s.supplied ++ input ∧ input.length = n ∧
      s'.memory = storeAt s.memory q.concatenated input := by
  rintro n s' prepared ⟨input, hsupplied, rfl, hmemory⟩ hprefix -
  have hle : (stream.transferStream.transferSome s' prepared).1 ≤ prepared.flatten.length :=
    stream.transferStream.le_length
  simp only [BufferReadStream.transferStream] at hle ⊢
  refine ⟨input ++ (stream.readSome s'.stream (prepared.map List.length)).1, ?_, ?_, ?_⟩
  · rw [hsupplied, List.append_assoc]
  · rw [List.length_append]
  · rw [storeAt_append, ← hmemory, storeAt_of_prefix _ hprefix hle]

theorem Transferred.readInto {out : Nat × Option ErrorCode × Reading ρ α}
    (h : Transferred stream.transferStream condition q.concatenated s out) :
    ReadInto condition q s out := by
  have hle := h.preserved (preserves_le stream.transferStream condition _) (Nat.zero_le _)
  refine ⟨hle, ?_, h.reached⟩
  have hstart : ∃ input, s.supplied = s.supplied ++ input ∧ input.length = 0 ∧
      s.memory = storeAt s.memory q.concatenated input := by
    refine ⟨[], (List.append_nil _).symm, rfl, ?_⟩
    cases q.concatenated <;> rfl
  obtain ⟨input, hsupplied, hlength, hmemory⟩ :=
    h.preserved (reading_preserves stream condition q s) hstart
  refine ⟨input, hsupplied, hlength, hmemory, ?_, ?_⟩
  · intro hnodup
    rw [hmemory, ← hlength]
    exact map_storeAt _ hnodup (hlength ▸ hle)
  · intro place hplace
    rw [hmemory]
    exact storeAt_of_notMem _ (hlength ▸ hplace)

end ReadingRuns

/-! ### Both -/

/-- However the stream divides a sequence of buffers, it is passed, or has supplied, a prefix of
it, and an asynchronous operation with something to transfer returns what the synchronous function
does. -/
theorem composed_transfer {ρ : Type w} {α : Type v} (condition : CompletionCondition) :
    (∀ (stream : BufferWriteStream ρ α) (q : BufferSequence α) (s : Writing ρ α),
      Written condition q s (write consumingBuffers stream condition q.construct s) ∧
      ∃ k out,
        (∀ j, k ≤ j → asyncWrite consumingBuffers stream condition j q.construct s = some out) ∧
        Written condition q s out ∧
        Agree stream.transferStream condition q.concatenated.length s
          (write consumingBuffers stream condition q.construct s) out) ∧
    ∀ (stream : BufferReadStream ρ α) (q : BufferSequence Nat) (s : Reading ρ α),
      ReadInto condition q s (read consumingBuffers stream condition q.construct s) ∧
      ∃ k out,
        (∀ j, k ≤ j → asyncRead consumingBuffers stream condition j q.construct s = some out) ∧
        ReadInto condition q s out ∧
        Agree stream.transferStream condition q.concatenated.length s
          (read consumingBuffers stream condition q.construct s) out := by
  refine ⟨fun stream q s => ?_, fun stream q s => ?_⟩
  · have hsync := transferred_sync consumingBuffers stream.transferStream condition (s := s)
      q.totalConsumed_construct
    obtain ⟨k, out, hout, hagree⟩ := exists_async consumingBuffers stream.transferStream condition
      (s := s) q.totalConsumed_construct
    rw [q.sequence_construct] at hsync hagree
    exact ⟨hsync.written, k, out, hout, (hagree.transferred _ _ hsync).written, hagree⟩
  · have hsync := transferred_sync consumingBuffers stream.transferStream condition (s := s)
      q.totalConsumed_construct
    obtain ⟨k, out, hout, hagree⟩ := exists_async consumingBuffers stream.transferStream condition
      (s := s) q.totalConsumed_construct
    rw [q.sequence_construct] at hsync hagree
    exact ⟨hsync.readInto, k, out, hout, (hagree.transferred _ _ hsync).readInto, hagree⟩

/-- A stream that is broken. -/
def brokenStream : BufferWriteStream Unit Nat where
  writeSome _ _ := (0, some .operationAborted, ())
  le_length := Nat.zero_le _
  pos _ h := by cases h

/-- With nothing to write, only the asynchronous operation finds out that the stream is broken. -/
theorem composed_transfer_idle :
    write consumingBuffers brokenStream .transferAll (BufferSequence.buffers false []).construct
        ⟨(), []⟩ = (0, none, ⟨(), []⟩) ∧
      ∀ j, asyncWrite consumingBuffers brokenStream .transferAll (j + 1)
        (BufferSequence.buffers false []).construct ⟨(), []⟩ =
          some (0, some .operationAborted, ⟨(), []⟩) := by
  refine ⟨transferFrom_stop _ _ _ _ (Or.inl rfl), fun j => ?_⟩
  rw [asyncWrite, TransferOp.start, completeTransfer_transfer]
  exact completeTransfer_handler consumingBuffers brokenStream.transferStream j 0

end Asio
