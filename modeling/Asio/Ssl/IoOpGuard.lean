import Asio.Ssl.IoOp
import Mathlib.Data.List.InsertIdx

/-! The timers guard the next layer as long as an operation that has waited does not reset the
expiry that another one has set. -/

namespace Asio.Ssl

open Lib.Transition

/-! ### One timer -/

/-- A transfer is outstanding exactly while the timer is at the positive infinity, to which the
operation has set it that started the transfer. -/
inductive Held : Expiry → List IoOp → Prop
  | free : Held .negInfin []
  | taken (op : IoOp) : Held (.posInfin op.id) [op]

namespace Held

variable {expiry : Expiry} {ops : List IoOp}

theorem length_le (h : Held expiry ops) : ops.length ≤ 1 := by
  cases h with
  | free => exact Nat.zero_le 1
  | taken op => exact Nat.le_refl 1

theorem eq_nil (h : Held .negInfin ops) : ops = [] := by
  cases h
  rfl

theorem ne_nil (h : Held expiry ops) (hset : expiry ≠ .negInfin) : ops ≠ [] := by
  cases h with
  | free => exact absurd rfl hset
  | taken op => exact List.cons_ne_nil _ _

theorem posInfin_iff (h : Held expiry ops) {id : Nat} :
    expiry = .posInfin id ↔ ∃ op ∈ ops, op.id = id := by
  cases h with
  | free => simp
  | taken op => simp

end Held

/-- The operations of one timer: those of the transfers that are outstanding, and those that wait or
have waited. -/
structure Lane (wants : Engine.Want → Prop) (t : Timer) (ops : List IoOp) : Prop where
  held : Held t.expiry ops
  fair : ∀ r ∈ t.resets, r.1 = r.2
  wants : ∀ op ∈ ops ++ (t.waiting ++ t.released), wants op.want

namespace Lane

variable {wants : Engine.Want → Prop} {t : Timer} {ops : List IoOp} {op : IoOp}

theorem initial : Lane wants .initial [] where
  held := .free
  fair := by rintro _ ⟨⟩
  wants := by rintro _ ⟨⟩

theorem wants_released (h : Lane wants t ops) (hop : op ∈ t.released) : wants op.want :=
  h.wants op (List.mem_append_right _ (List.mem_append_right _ hop))

theorem wants_transfer (h : Lane wants t ops) (hop : op ∈ ops) : wants op.want :=
  h.wants op (List.mem_append_left _ hop)

theorem start (h : Lane wants t ops) (hfree : t.expiry = .negInfin) (hop : wants op.want) :
    Lane wants (t.setPosInfin op) (ops ++ [op]) := by
  obtain ⟨hheld, hfair, hwants⟩ := h
  rw [hfree] at hheld
  cases hheld
  refine ⟨.taken op, hfair, fun op' hop' => ?_⟩
  simp only [Timer.setPosInfin, List.nil_append, List.mem_append, List.mem_singleton] at hop' hwants
  rcases hop' with rfl | hop' | hop'
  · exact hop
  · exact hwants op' (Or.inr hop')
  · exact hwants op' (Or.inl hop')

theorem wait (h : Lane wants t ops) (hop : wants op.want) : Lane wants (t.asyncWait op) ops := by
  refine ⟨h.held, h.fair, fun op' hop' => ?_⟩
  have hwants := h.wants
  simp only [Timer.asyncWait, List.mem_append, List.mem_singleton] at hop' hwants
  rcases hop' with hop' | (hop' | rfl) | hop'
  · exact hwants op' (Or.inl hop')
  · exact hwants op' (Or.inr (Or.inl hop'))
  · exact hop
  · exact hwants op' (Or.inr (Or.inr hop'))

/-- The operation that has started the transfer resets the expiry. -/
theorem finish (h : Lane wants t ops) (hop : op ∈ ops) (i : Nat)
    (hi : ops[i]? = some op) {op' : IoOp} (hid : op'.id = op.id) :
    Lane wants (t.setNegInfin op') (ops.eraseIdx i) := by
  obtain ⟨hheld, hfair, hwants⟩ := h
  generalize hexpiry : t.expiry = expiry at hheld
  cases hheld with
  | free => cases hop
  | taken owner =>
    obtain rfl := List.mem_singleton.mp hop
    cases i with
    | succ i => cases hi
    | zero =>
      refine ⟨.free, ?_, fun u hu => ?_⟩
      · simp only [Timer.setNegInfin, hexpiry]
        intro r hr
        rcases List.mem_append.mp hr with hr | hr
        · exact hfair r hr
        · obtain rfl := List.mem_singleton.mp hr
          exact hid
      · simp only [Timer.setNegInfin, List.eraseIdx_cons_zero, List.nil_append,
          List.mem_append] at hu
        exact hwants u (List.mem_append_right _ (List.mem_append.mpr hu.symm))

/-- An operation that has waited resets an expiry that is not set. -/
theorem wake (h : Lane wants t ops) (hfree : t.expiry = .negInfin) (i : Nat) (op : IoOp) :
    Lane wants (({ t with released := t.released.eraseIdx i } : Timer).setNegInfin op) ops := by
  obtain ⟨hheld, hfair, hwants⟩ := h
  rw [hfree] at hheld
  refine ⟨hheld, ?_, fun u hu => ?_⟩
  · simp only [Timer.setNegInfin, hfree]
    exact hfair
  · simp only [Timer.setNegInfin, List.nil_append, List.mem_append] at hu hwants
    rcases hu with hu | hu | hu
    · exact hwants u (Or.inl hu)
    · exact hwants u (Or.inr (Or.inr (List.mem_of_mem_eraseIdx hu)))
    · exact hwants u (Or.inr (Or.inl hu))

theorem cancelWait (h : Lane wants t ops) {i : Nat} {t' : Timer} (ht : t.cancelWait i = some t') :
    Lane wants t' ops := by
  obtain ⟨op, hop, rfl⟩ := Option.map_eq_some_iff.mp ht
  refine ⟨h.held, h.fair, fun u hu => ?_⟩
  have hwants := h.wants
  simp only [List.mem_append, List.mem_singleton] at hu hwants
  rcases hu with hu | hu | hu | rfl
  · exact hwants u (Or.inl hu)
  · exact hwants u (Or.inr (Or.inl (List.mem_of_mem_eraseIdx hu)))
  · exact hwants u (Or.inr (Or.inr hu))
  · exact hwants u (Or.inr (Or.inl (List.mem_of_getElem? hop)))

end Lane

/-- A transfer is outstanding whose timer has been reset, or there are two. -/
def Overlaps (t : Timer) (ops : List IoOp) : Prop :=
  t.expiry = .negInfin ∧ ops ≠ [] ∨ 2 ≤ ops.length

theorem Overlaps.start {t t' : Timer} {ops : List IoOp} (h : Overlaps t ops) (op : IoOp) :
    Overlaps t' (ops ++ [op]) := by
  refine Or.inr ?_
  rw [List.length_append, List.length_singleton]
  rcases h with ⟨-, hne⟩ | hlength
  · have := List.length_pos_iff.mpr hne
    omega
  · omega

theorem Overlaps.wait {t : Timer} {ops : List IoOp} (h : Overlaps t ops) (op : IoOp) :
    Overlaps (t.asyncWait op) ops := h

/-! ### The stream -/

namespace Stream

def readers (s : Stream) : List IoOp := s.reads.map (·.op)

def writers (s : Stream) : List IoOp := s.writes.map (·.op)

structure Guarded (s : Stream) : Prop where
  read : Lane WantsInput s.pendingRead s.readers
  write : Lane WantsOutput s.pendingWrite s.writers
  posted : ∀ op ∈ s.posted, op.want = .nothing

variable {s s' : Stream} {op : IoOp}

theorem Guarded.asyncRead (h : s.Guarded) (hop : WantsInput op.want) : (s.asyncRead op).Guarded := by
  unfold Stream.asyncRead
  split
  · rename_i hfree
    refine ⟨?_, h.write, h.posted⟩
    rw [readers, List.map_append]
    exact h.read.start hfree hop
  · exact ⟨h.read.wait hop, h.write, h.posted⟩

theorem Guarded.asyncWrite (h : s.Guarded) (hop : WantsOutput op.want) :
    (s.asyncWrite op).Guarded := by
  unfold Stream.asyncWrite
  split
  · rename_i hfree
    refine ⟨h.read, ?_, h.posted⟩
    rw [writers, List.map_append]
    exact h.write.start hfree hop
  · exact ⟨h.read, h.write.wait hop, h.posted⟩

theorem guarded_keeps : Keeps Guarded where
  perform h := ⟨h.read, h.write, h.posted⟩
  putInput h := ⟨h.read, h.write, h.posted⟩
  asyncRead hop _ h := h.asyncRead hop
  asyncWrite hop _ h := h.asyncWrite hop
  post := by
    intro s op hop h
    refine ⟨h.read, h.write, fun op' hop' => ?_⟩
    rcases List.mem_append.mp hop' with hop' | hop'
    · exact h.posted op' hop'
    · obtain rfl := List.mem_singleton.mp hop'
      exact hop
  callHandler _ h := ⟨h.read, h.write, h.posted⟩

variable {ec : Option ErrorCode} {bytesTransferred : Option Nat} {cancelled : Bool} {room : Nat}
variable {turns : List Turn}

theorem Guarded.resume_wantsOutput (h : (s.resetWrite (resumed op ec bytesTransferred)).Guarded)
    (hop : WantsOutput op.want)
    (hresume : resume op ec bytesTransferred cancelled room turns s = some s') : s'.Guarded := by
  rcases resume_of_wantsOutput hop with heq | ⟨-, heq⟩
  · rw [heq] at hresume
    exact guarded_keeps.retry h hresume
  · rw [heq] at hresume
    cases hresume
    exact ⟨h.read, h.write, h.posted⟩

/-! ### Steps -/

theorem Guarded.resetRead {i : Nat} {r : Read} (h : s.Guarded) (hr : s.reads[i]? = some r)
    (hid : op.id = r.op.id) (bytesTransferred room : Nat) :
    ({ s with reads := s.reads.eraseIdx i }.resetRead op bytesTransferred room).Guarded := by
  have hi : s.readers[i]? = some r.op := by rw [readers, List.getElem?_map, hr]; rfl
  refine ⟨?_, h.write, h.posted⟩
  have hlane := h.read.finish (List.mem_of_getElem? hi) i hi hid
  rw [readers, List.eraseIdx_map] at hlane
  exact hlane

theorem Guarded.resetWrite {i : Nat} {w : Write} (h : s.Guarded) (hw : s.writes[i]? = some w)
    (hid : op.id = w.op.id) :
    ({ s with writes := s.writes.eraseIdx i }.resetWrite op).Guarded := by
  have hi : s.writers[i]? = some w.op := by rw [writers, List.getElem?_map, hw]; rfl
  refine ⟨h.read, ?_, h.posted⟩
  have hlane := h.write.finish (List.mem_of_getElem? hi) i hi hid
  rw [writers, List.eraseIdx_map] at hlane
  exact hlane

theorem Guarded.wantsInput {i : Nat} {r : Read} (h : s.Guarded) (hr : s.reads[i]? = some r) :
    WantsInput r.op.want :=
  h.read.wants_transfer (List.mem_map_of_mem (List.mem_of_getElem? hr))

theorem Guarded.wantsOutput {i : Nat} {w : Write} (h : s.Guarded) (hw : s.writes[i]? = some w) :
    WantsOutput w.op.want :=
  h.write.wants_transfer (List.mem_map_of_mem (List.mem_of_getElem? hw))

theorem Guarded.readDone {i : Nat} (h : s.Guarded)
    (hstep : s.readDone i ec cancelled room turns = some s') : s'.Guarded := by
  obtain ⟨r, hr, hstep⟩ := Option.bind_eq_some_iff.mp hstep
  split at hstep
  · rw [resume_of_wantsInput (h.wantsInput hr)] at hstep
    exact guarded_keeps.retry (h.resetRead hr resumed_id _ _) hstep
  · cases hstep

theorem Guarded.writeDone {i : Nat} (h : s.Guarded)
    (hstep : s.writeDone i ec cancelled turns = some s') : s'.Guarded := by
  obtain ⟨w, hw, hstep⟩ := Option.bind_eq_some_iff.mp hstep
  split at hstep
  · exact Guarded.resume_wantsOutput (h.resetWrite hw resumed_id) (h.wantsOutput hw) hstep
  · cases hstep

theorem Guarded.postDone {i : Nat} (h : s.Guarded) (hstep : s.postDone i ec = some s') :
    s'.Guarded := by
  obtain ⟨op, hop, hstep⟩ := Option.bind_eq_some_iff.mp hstep
  rw [resume_of_wantsNothing (h.posted op (List.mem_of_getElem? hop))] at hstep
  cases hstep
  exact ⟨h.read, h.write, fun op' hop' => h.posted op' (List.mem_of_mem_eraseIdx hop')⟩

theorem Guarded.wakeRead {i : Nat} (h : s.Guarded) (hfree : s.pendingRead.expiry = .negInfin)
    (hstep : s.wakeRead i cancelled room turns = some s') : s'.Guarded := by
  obtain ⟨op, hop, hstep⟩ := Option.bind_eq_some_iff.mp hstep
  rw [resume_of_wantsInput (h.read.wants_released (List.mem_of_getElem? hop))] at hstep
  refine guarded_keeps.retry ?_ hstep
  exact ⟨h.read.wake hfree i _, h.write, h.posted⟩

theorem Guarded.wakeWrite {i : Nat} (h : s.Guarded) (hfree : s.pendingWrite.expiry = .negInfin)
    (hstep : s.wakeWrite i cancelled turns = some s') : s'.Guarded := by
  obtain ⟨op, hop, hstep⟩ := Option.bind_eq_some_iff.mp hstep
  refine Guarded.resume_wantsOutput ?_ (h.write.wants_released (List.mem_of_getElem? hop)) hstep
  exact ⟨h.read, h.write.wake hfree i _, h.posted⟩

theorem map_set {α β : Type} {f : α → β} {l : List α} {i : Nat} {a b : α} (h : l[i]? = some a)
    (hf : f b = f a) : (l.set i b).map f = l.map f := by
  obtain ⟨hi, rfl⟩ := List.getElem?_eq_some_iff.mp h
  have hi' : i < (l.map f).length := List.length_map f ▸ hi
  rw [List.map_set, hf, ← List.getElem_map f (h := hi'), List.set_getElem_self hi']

theorem Guarded.receive {i : Nat} {bytes : List UInt8} (h : s.Guarded)
    (hstep : s.receive i bytes = some s') : s'.Guarded := by
  obtain ⟨r, hr, hstep⟩ := Option.bind_eq_some_iff.mp hstep
  split at hstep
  · cases hstep
    refine ⟨?_, h.write, h.posted⟩
    have hreaders : (s.reads.set i { r with received := some bytes.length }).map (·.op) =
        s.readers := map_set hr rfl
    have hlane := h.read
    rw [← hreaders] at hlane
    exact hlane
  · cases hstep

theorem Guarded.send {i n : Nat} (h : s.Guarded) (hstep : s.send i n = some s') : s'.Guarded := by
  obtain ⟨w, hw, hstep⟩ := Option.bind_eq_some_iff.mp hstep
  split at hstep
  · cases hstep
    refine ⟨h.read, ?_, h.posted⟩
    have hwriters : (s.writes.set i { w with sent := w.sent + n }).map (·.op) = s.writers :=
      map_set hw rfl
    have hlane := h.write
    rw [← hwriters] at hlane
    exact hlane
  · cases hstep

/-- An operation that has waited resumes only when no transfer is outstanding. -/
def Undisturbed (s : Stream) : Action → Prop
  | .wakeRead .. => s.pendingRead.expiry = .negInfin
  | .wakeWrite .. => s.pendingWrite.expiry = .negInfin
  | _ => True

instance (s : Stream) (a : Action) : Decidable (s.Undisturbed a) := by
  induction a using Action.casesOn <;> dsimp only [Undisturbed] <;> infer_instance

theorem Guarded.step {a : Action} (h : s.Guarded) (ha : s.Undisturbed a)
    (hstep : s.step a = some s') : s'.Guarded := by
  cases a with
  | start id operation turns =>
    refine guarded_keeps.loop ?_ hstep
    exact ⟨h.read, h.write, h.posted⟩
  | receive i bytes => exact h.receive hstep
  | readDone i ec cancelled room turns => exact h.readDone hstep
  | send i n => exact h.send hstep
  | writeDone i ec cancelled turns => exact h.writeDone hstep
  | postDone i ec => exact h.postDone hstep
  | cancelReadWait i =>
    obtain ⟨t, ht, rfl⟩ := Option.map_eq_some_iff.mp hstep
    exact ⟨h.read.cancelWait ht, h.write, h.posted⟩
  | cancelWriteWait i =>
    obtain ⟨t, ht, rfl⟩ := Option.map_eq_some_iff.mp hstep
    exact ⟨h.read, h.write.cancelWait ht, h.posted⟩
  | wakeRead i cancelled room turns => exact h.wakeRead ha hstep
  | wakeWrite i cancelled turns => exact h.wakeWrite ha hstep

/-! ### Overlapping transfers -/

def ReadsOverlap (s : Stream) : Prop := Overlaps s.pendingRead s.readers

def WritesOverlap (s : Stream) : Prop := Overlaps s.pendingWrite s.writers

theorem ReadsOverlap.asyncRead (h : s.ReadsOverlap) (op : IoOp) :
    (s.asyncRead op).ReadsOverlap := by
  unfold Stream.asyncRead
  split
  · rw [ReadsOverlap, readers, List.map_append]
    exact Overlaps.start h op
  · exact Overlaps.wait h op

theorem ReadsOverlap.asyncWrite (h : s.ReadsOverlap) (op : IoOp) :
    (s.asyncWrite op).ReadsOverlap := by
  unfold Stream.asyncWrite
  split <;> exact h

theorem WritesOverlap.asyncWrite (h : s.WritesOverlap) (op : IoOp) :
    (s.asyncWrite op).WritesOverlap := by
  unfold Stream.asyncWrite
  split
  · rw [WritesOverlap, writers, List.map_append]
    exact Overlaps.start h op
  · exact Overlaps.wait h op

theorem WritesOverlap.asyncRead (h : s.WritesOverlap) (op : IoOp) :
    (s.asyncRead op).WritesOverlap := by
  unfold Stream.asyncRead
  split <;> exact h

theorem readsOverlap_keeps : Keeps ReadsOverlap where
  perform h := h
  putInput h := h
  asyncRead _ _ h := h.asyncRead _
  asyncWrite _ _ h := h.asyncWrite _
  post _ h := h
  callHandler _ h := h

theorem writesOverlap_keeps : Keeps WritesOverlap where
  perform h := h
  putInput h := h
  asyncRead _ _ h := h.asyncRead _
  asyncWrite _ _ h := h.asyncWrite _
  post _ h := h
  callHandler _ h := h

/-- An operation that has waited resets the expiry that another one has set. -/
theorem Guarded.wakeRead_overlaps {i : Nat} (h : s.Guarded)
    (hset : s.pendingRead.expiry ≠ .negInfin)
    (hstep : s.wakeRead i cancelled room turns = some s') : s'.ReadsOverlap := by
  obtain ⟨op, hop, hstep⟩ := Option.bind_eq_some_iff.mp hstep
  rw [resume_of_wantsInput (h.read.wants_released (List.mem_of_getElem? hop))] at hstep
  refine readsOverlap_keeps.retry ?_ hstep
  exact Or.inl ⟨rfl, h.read.held.ne_nil hset⟩

theorem Guarded.wakeWrite_overlaps {i : Nat} (h : s.Guarded)
    (hset : s.pendingWrite.expiry ≠ .negInfin)
    (hstep : s.wakeWrite i cancelled turns = some s') : s'.WritesOverlap := by
  obtain ⟨op, hop, hstep⟩ := Option.bind_eq_some_iff.mp hstep
  have hwants := h.write.wants_released (List.mem_of_getElem? hop)
  have hoverlap : s.writers ≠ [] := h.write.held.ne_nil hset
  rcases resume_of_wantsOutput hwants with heq | ⟨-, heq⟩
  · rw [heq] at hstep
    refine writesOverlap_keeps.retry ?_ hstep
    exact Or.inl ⟨rfl, hoverlap⟩
  · rw [heq] at hstep
    cases hstep
    exact Or.inl ⟨rfl, hoverlap⟩

/-! ### Runs -/

/-- At most one read and one write of the next layer are outstanding, apart from zero-sized reads;
the timers are at the positive infinity exactly while they are, set by the operations that have
started them, and only these reset them. -/
structure OneTransfer (s : Stream) : Prop where
  reads : s.reads.length ≤ 1
  writes : s.writes.length ≤ 1
  pendingRead : ∀ id, s.pendingRead.expiry = .posInfin id ↔ ∃ r ∈ s.reads, r.op.id = id
  pendingWrite : ∀ id, s.pendingWrite.expiry = .posInfin id ↔ ∃ w ∈ s.writes, w.op.id = id
  readResets : ∀ r ∈ s.pendingRead.resets, r.1 = r.2
  writeResets : ∀ r ∈ s.pendingWrite.resets, r.1 = r.2
  posted : ∀ op ∈ s.posted, op.want = .nothing

theorem Guarded.oneTransfer (h : s.Guarded) : s.OneTransfer where
  reads := by
    have hlength := h.read.held.length_le
    rwa [readers, List.length_map] at hlength
  writes := by
    have hlength := h.write.held.length_le
    rwa [writers, List.length_map] at hlength
  pendingRead id := by
    rw [h.read.held.posInfin_iff, readers]
    simp only [List.mem_map, exists_exists_and_eq_and]
  pendingWrite id := by
    rw [h.write.held.posInfin_iff, writers]
    simp only [List.mem_map, exists_exists_and_eq_and]
  readResets := h.read.fair
  writeResets := h.write.fair
  posted := h.posted

theorem OneTransfer.not_readsOverlap (h : s.OneTransfer) : ¬ s.ReadsOverlap := by
  rintro (⟨hfree, hne⟩ | hlength)
  · obtain ⟨op, hop⟩ := List.exists_mem_of_ne_nil _ hne
    obtain ⟨r, hr, rfl⟩ := List.mem_map.mp hop
    have hset := (h.pendingRead r.op.id).mpr ⟨r, hr, rfl⟩
    rw [hfree] at hset
    cases hset
  · have := h.reads
    rw [readers, List.length_map] at hlength
    omega

theorem OneTransfer.not_writesOverlap (h : s.OneTransfer) : ¬ s.WritesOverlap := by
  rintro (⟨hfree, hne⟩ | hlength)
  · obtain ⟨op, hop⟩ := List.exists_mem_of_ne_nil _ hne
    obtain ⟨w, hw, rfl⟩ := List.mem_map.mp hop
    have hset := (h.pendingWrite w.op.id).mpr ⟨w, hw, rfl⟩
    rw [hfree] at hset
    cases hset
  · have := h.writes
    rw [writers, List.length_map] at hlength
    omega

theorem Guarded.oneTransfer_iff {a : Action} (h : s.Guarded) (hstep : s.step a = some s') :
    s'.OneTransfer ↔ s.Undisturbed a := by
  refine ⟨fun hone => ?_, fun ha => (h.step ha hstep).oneTransfer⟩
  cases a with
  | wakeRead i cancelled room turns =>
    by_contra hset
    exact hone.not_readsOverlap (h.wakeRead_overlaps hset hstep)
  | wakeWrite i cancelled turns =>
    by_contra hset
    exact hone.not_writesOverlap (h.wakeWrite_overlaps hset hstep)
  | _ => exact trivial

theorem initial_guarded : initial.Guarded := ⟨Lane.initial, Lane.initial, by rintro _ ⟨⟩⟩

/-- There is one transfer at a time in the whole run, exactly if no operation that has waited
resumes while a transfer is outstanding. -/
theorem one_transfer_at_a_time (run : List Action) :
    Along (guarded step Legal) (fun _ _ s => s.OneTransfer) initial run ↔
      Along (guarded step Legal) (fun s a _ => s.Undisturbed a) initial run := by
  refine along_iff (I := Guarded) initial_guarded (fun h hstep => ?_) fun h hstep ha => ?_
  · exact h.oneTransfer_iff (guarded_eq_some hstep).2
  · exact h.step ha (guarded_eq_some hstep).2

def wantsInput : Turn := ⟨⟨-1, .wantRead, 0, []⟩, 1⟩

/-- A read of the first operation receives a byte that is not enough; the second one, which has
waited for this, resumes while the next read is outstanding. -/
def twoReaders : List Action :=
  [.start 0 .handshake [wantsInput], .start 1 .write [wantsInput], .receive 0 [22],
    .readDone 0 none false 1 [wantsInput], .wakeRead 0 false 0 [wantsInput]]

theorem two_reads_outstanding :
    ¬ ∀ run, Along (guarded step Legal) (fun _ _ s => s.OneTransfer) initial run := by
  intro hall
  have hrun : (exec (guarded step Legal) initial twoReaders).map (·.reads.length) = some 2 := by
    decide +kernel
  obtain ⟨s, hs, hlength⟩ := Option.map_eq_some_iff.mp hrun
  have hreads := (Along.last (hall twoReaders) (by decide) hs).reads
  omega

end Stream

end Asio.Ssl
