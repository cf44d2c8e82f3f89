import Asio.Ssl.IoOpGuard

/-! No ciphertext is lost or reordered as long as an operation that has waited finds nothing to
spoil. -/

namespace Asio.Ssl

open Lib.Transition

namespace Engine

/-! ### The engine -/

/-- What has been taken and what is pending is all output, and it fits the buffer of the pair. -/
structure Keeping (e : Engine) : Prop where
  produced : e.produced = e.taken ++ e.pendingOutput
  room : e.pendingOutput.length ≤ bioSize

variable {e : Engine}

theorem Keeping.perform (h : e.Keeping) (r : SslResult) : (e.perform r).Keeping where
  produced := by
    simp only [Engine.perform]
    rw [h.produced, List.append_assoc]
  room := by
    simp only [Engine.perform, output, List.length_append, List.length_take]
    have := h.room
    omega

theorem Keeping.getOutput (h : e.Keeping) : (e.getOutput maxTlsRecordSize).2.taken = e.produced := by
  have hall : e.pendingOutput.take maxTlsRecordSize = e.pendingOutput :=
    List.take_of_length_le h.room
  simp only [Engine.getOutput, hall]
  exact h.produced.symm

theorem Keeping.getOutput_keeping (h : e.Keeping) : (e.getOutput maxTlsRecordSize).2.Keeping where
  produced := by
    simp only [Engine.getOutput]
    rw [List.append_assoc, List.take_append_drop, h.produced]
  room := by
    simp only [Engine.getOutput, List.length_drop]
    have := h.room
    omega

end Engine

theorem eq_singleton {α : Type} {l : List α} {i : Nat} {a : α} (hlength : l.length ≤ 1)
    (hi : l[i]? = some a) : l = [a] ∧ i = 0 := by
  match l, i, hlength, hi with
  | [], _, _, hi => cases hi
  | [b], 0, _, hi =>
    cases hi
    exact ⟨rfl, rfl⟩
  | [b], i + 1, _, hi => cases hi

theorem drop_take_min (l : List UInt8) (a b n : Nat) :
    (l.drop (a + min n ((l.drop a).take b).length)).take (b - min n ((l.drop a).take b).length) =
      ((l.drop a).take b).drop n := by
  rw [← List.drop_drop, ← List.drop_take]
  rcases Nat.le_total n ((l.drop a).take b).length with h | h
  · rw [Nat.min_eq_left h]
  · rw [Nat.min_eq_right h, List.drop_length, List.drop_of_length_le h]

theorem take_overwrite (buffer bytes : List UInt8) :
    (Stream.overwrite buffer bytes).take bytes.length = bytes := List.take_left

namespace Stream

/-! ### What is on the way -/

/-- The bytes that reads have received and that have not been delivered. -/
def undelivered (s : Stream) : List UInt8 :=
  s.reads.flatMap fun r => s.inputBuffer.take (r.received.getD 0)

/-- The bytes that writes have still to send. -/
def unsent (s : Stream) : List UInt8 :=
  s.writes.flatMap fun w => (s.outputBuffer.drop w.sent).take (w.length - w.sent)

/-- Every byte received has been accepted or will be, and every byte taken from the engine has been
written or will be, in order; and the output of an operation that has succeeded has been taken. -/
structure InOrder (s : Stream) : Prop where
  input : s.received = s.engine.accepted ++ s.input ++ s.undelivered
  output : s.engine.taken = s.written ++ s.unsent
  produced : s.engine.produced = s.engine.taken ++ s.engine.pendingOutput
  handed : ∀ c ∈ s.completions, c.op.want = .output → c.op.ec = none → c.op.owed ≤ c.taken

structure Intact (s : Stream) : Prop where
  guarded : s.Guarded
  engine : s.engine.Keeping
  empty : s.reads ≠ [] → s.inputSize = 0
  input : s.received = s.engine.accepted ++ s.input ++ s.undelivered
  output : s.engine.taken = s.written ++ s.unsent
  owed : ∀ w ∈ s.writes, w.op.owed ≤ s.engine.taken.length
  handed : ∀ c ∈ s.completions, c.op.want = .output → c.op.ec = none → c.op.owed ≤ c.taken

theorem Intact.inOrder {s : Stream} (h : s.Intact) : s.InOrder :=
  ⟨h.input, h.output, h.engine.produced, h.handed⟩

variable {s s' : Stream} {op : IoOp} {ec : Option ErrorCode} {bytesTransferred : Option Nat}
variable {cancelled : Bool} {room : Nat} {turns : List Turn}

theorem putInput_input (s : Stream) (room : Nat) :
    (s.putInput room).engine.accepted ++ (s.putInput room).input =
      s.engine.accepted ++ s.input := by
  have hrest : (s.putInput room).input = s.input.drop room := drop_take_min s.inputBuffer ..
  rw [hrest]
  simp only [putInput, Engine.putInput]
  rw [List.append_assoc, List.take_append_drop]

theorem Intact.putInput (h : s.Intact) (room : Nat) : (s.putInput room).Intact where
  guarded := guarded_keeps.putInput h.guarded
  engine := ⟨h.engine.produced, h.engine.room⟩
  empty hne := by
    have := h.empty hne
    simp only [Stream.putInput]
    omega
  input := by
    rw [putInput_input]
    exact h.input
  output := h.output
  owed := h.owed
  handed := h.handed

theorem Intact.asyncRead (h : s.Intact) (hop : WantsInput op.want) (hsize : s.inputSize = 0) :
    (s.asyncRead op).Intact := by
  have hguarded := h.guarded.asyncRead hop
  revert hguarded
  unfold Stream.asyncRead
  split
  · intro hguarded
    refine ⟨hguarded, h.engine, fun _ => hsize, ?_, h.output, h.owed, h.handed⟩
    have hinput := h.input
    simp only [undelivered, List.flatMap_append, List.flatMap_singleton, Option.getD_none,
      List.take_zero, List.append_nil]
    exact hinput
  · intro hguarded
    exact ⟨hguarded, h.engine, h.empty, h.input, h.output, h.owed, h.handed⟩

theorem Intact.asyncWrite (h : s.Intact) (hop : WantsOutput op.want)
    (howed : op.owed = s.engine.produced.length) : (s.asyncWrite op).Intact := by
  have hguarded := h.guarded.asyncWrite hop
  revert hguarded
  unfold Stream.asyncWrite
  split
  · rename_i hfree
    intro hguarded
    have hnone : s.writes = [] := by
      have hheld := h.guarded.write.held
      rw [hfree] at hheld
      exact List.map_eq_nil_iff.mp (hheld.eq_nil)
    refine ⟨hguarded, h.engine.getOutput_keeping, h.empty, h.input, ?_, ?_, h.handed⟩
    · have houtput := h.output
      rw [unsent, hnone, List.flatMap_nil, List.append_nil] at houtput
      simp only [unsent, hnone, List.nil_append, List.flatMap_singleton, List.drop_zero,
        Nat.sub_zero, take_overwrite]
      simp only [Engine.getOutput, houtput]
    · intro w hw
      rw [hnone] at hw
      obtain rfl := List.mem_singleton.mp hw
      exact Nat.le_of_eq (howed.trans (congrArg List.length h.engine.getOutput.symm))
  · intro hguarded
    exact ⟨hguarded, h.engine, h.empty, h.input, h.output, h.owed, h.handed⟩

theorem Intact.callHandler (h : s.Intact)
    (hop : op.want = .output → op.ec = none → op.owed ≤ s.engine.taken.length) :
    (s.callHandler op).Intact where
  guarded := ⟨h.guarded.read, h.guarded.write, h.guarded.posted⟩
  engine := h.engine
  empty := h.empty
  input := h.input
  output := h.output
  owed := h.owed
  handed c hc := by
    rcases List.mem_append.mp hc with hc | hc
    · exact h.handed c hc
    · obtain rfl := List.mem_singleton.mp hc
      exact hop

theorem intact_keeps : Keeps Intact where
  perform h := ⟨guarded_keeps.perform h.guarded, h.engine.perform _, h.empty, h.input, h.output,
    h.owed, h.handed⟩
  putInput h := h.putInput _
  asyncRead hop hsize h := h.asyncRead hop hsize
  asyncWrite hop howed h := h.asyncWrite hop howed
  post hop h := ⟨guarded_keeps.post hop h.guarded, h.engine, h.empty, h.input, h.output, h.owed,
    h.handed⟩
  callHandler hop h := by
    refine h.callHandler fun hwant hec => ?_
    rcases hop with hop | hop
    · exact absurd hwant hop
    · rw [hec] at hop
      cases hop

/-! ### Resuming an operation -/

/-- The operation that has read passes on to the engine what it has received. -/
theorem Intact.resetRead_of_done {i : Nat} {r : Read} (h : s.Intact)
    (hr : s.reads[i]? = some r) (hid : op.id = r.op.id) (room : Nat) :
    ({ s with reads := s.reads.eraseIdx i }.resetRead op (r.received.getD 0) room).Intact := by
  obtain ⟨hreads, rfl⟩ := eq_singleton h.guarded.oneTransfer.reads hr
  have hguarded := h.guarded.resetRead hr hid (r.received.getD 0) room
  let t : Stream := { s with
    reads := s.reads.eraseIdx 0
    inputBegin := 0
    inputSize := r.received.getD 0
    pendingRead := s.pendingRead.setNegInfin op }
  have hnone : t.reads = [] := by simp only [t, hreads, List.eraseIdx_cons_zero]
  have hinput : t.received = t.engine.accepted ++ t.input ++ t.undelivered := by
    have hbefore := h.input
    have hsize : s.inputSize = 0 := h.empty (by rw [hreads]; exact List.cons_ne_nil _ _)
    simp only [Stream.input, hsize, List.take_zero, List.append_nil, undelivered, hreads,
      List.flatMap_singleton] at hbefore
    rw [undelivered, hnone, List.flatMap_nil, List.append_nil]
    exact hbefore
  have ht : t.Intact := ⟨⟨hguarded.read, hguarded.write, hguarded.posted⟩, h.engine,
    fun hne => absurd hnone hne, hinput, h.output, h.owed, h.handed⟩
  exact ht.putInput room

/-- An operation that has waited has nothing to pass on, and nothing is overwritten. -/
theorem Intact.resetRead_of_wake (h : s.Intact) (hfree : s.pendingRead.expiry = .negInfin)
    (hsize : s.inputSize = 0) (i : Nat) (op : IoOp) (room : Nat) :
    ({ s with pendingRead := { s.pendingRead with
      released := s.pendingRead.released.eraseIdx i } }.resetRead op 0 room).Intact := by
  let t : Stream := { s with
    inputBegin := 0
    inputSize := 0
    pendingRead := ({ s.pendingRead with
      released := s.pendingRead.released.eraseIdx i } : Timer).setNegInfin op }
  have hinput : t.received = t.engine.accepted ++ t.input ++ t.undelivered := by
    have hbefore := h.input
    simp only [Stream.input, hsize, List.take_zero] at hbefore
    simp only [Stream.input, t, List.take_zero]
    exact hbefore
  have ht : t.Intact := ⟨⟨h.guarded.read.wake hfree i op, h.guarded.write, h.guarded.posted⟩,
    h.engine, fun _ => rfl, hinput, h.output, h.owed, h.handed⟩
  exact ht.putInput room

theorem Intact.resetWrite_of_done {i : Nat} {w : Write} (h : s.Intact)
    (hw : s.writes[i]? = some w) (hid : op.id = w.op.id) (hsent : w.sent = w.length) :
    ({ s with writes := s.writes.eraseIdx i }.resetWrite op).Intact := by
  obtain ⟨hwrites, rfl⟩ := eq_singleton h.guarded.oneTransfer.writes hw
  have hguarded := h.guarded.resetWrite hw hid
  have hnone : s.writes.eraseIdx 0 = [] := by rw [hwrites, List.eraseIdx_cons_zero]
  refine ⟨hguarded, h.engine, h.empty, h.input, ?_, ?_, h.handed⟩
  · have houtput := h.output
    simp only [unsent, hwrites, List.flatMap_singleton, hsent, Nat.sub_self, List.take_zero]
      at houtput
    simp only [unsent, Stream.resetWrite, hnone, List.flatMap_nil]
    exact houtput
  · simp only [Stream.resetWrite, hnone]
    rintro _ ⟨⟩

theorem Intact.resetWrite_of_wake (h : s.Intact) (hfree : s.pendingWrite.expiry = .negInfin)
    (i : Nat) (op : IoOp) :
    ({ s with pendingWrite := { s.pendingWrite with
      released := s.pendingWrite.released.eraseIdx i } }.resetWrite op).Intact :=
  ⟨⟨h.guarded.read, h.guarded.write.wake hfree i op, h.guarded.posted⟩, h.engine, h.empty, h.input,
    h.output, h.owed, h.handed⟩

theorem Intact.resume_wantsOutput
    (h : (s.resetWrite (resumed op ec bytesTransferred)).Intact) (hop : WantsOutput op.want)
    (howed : op.want = .output → (resumed op ec bytesTransferred).ec = none →
      op.owed ≤ s.engine.taken.length)
    (hresume : resume op ec bytesTransferred cancelled room turns s = some s') : s'.Intact := by
  rcases resume_of_wantsOutput hop with heq | ⟨hwant, heq⟩
  · rw [heq] at hresume
    exact intact_keeps.retry h hresume
  · rw [heq] at hresume
    cases hresume
    refine h.callHandler fun _ hec => ?_
    rw [resumed_owed]
    exact howed hwant hec

/-! ### Steps -/

/-- Neither the next layer nor a handler is told of an error or a cancellation. -/
def Clean : Action → Prop
  | .readDone _ ec cancelled _ _ => ec = none ∧ cancelled = false
  | .writeDone _ ec cancelled _ => ec = none ∧ cancelled = false
  | .postDone _ ec => ec = none
  | .cancelReadWait _ => False
  | .cancelWriteWait _ => False
  | .wakeRead _ cancelled _ _ => cancelled = false
  | .wakeWrite _ cancelled _ => cancelled = false
  | _ => True

instance (a : Action) : Decidable (Clean a) := by
  induction a using Action.casesOn <;> dsimp only [Clean] <;> infer_instance

/-- An operation that has waited resumes when no transfer is outstanding and the input is used up,
and its own output has been taken if it is done. -/
def Harmless (s : Stream) : Action → Prop
  | .wakeRead .. => s.pendingRead.expiry = .negInfin ∧ s.inputSize = 0
  | .wakeWrite i _ _ => s.pendingWrite.expiry = .negInfin ∧
      ∀ op ∈ s.pendingWrite.released[i]?, op.want = .output → op.ec = none →
        op.owed ≤ s.engine.taken.length
  | _ => True

instance (s : Stream) (a : Action) : Decidable (s.Harmless a) := by
  induction a using Action.casesOn <;> dsimp only [Harmless] <;> infer_instance

theorem Intact.receive {i : Nat} {bytes : List UInt8} (h : s.Intact)
    (hstep : s.receive i bytes = some s') : s'.Intact := by
  have hguarded := h.guarded.receive hstep
  obtain ⟨r, hr, hstep⟩ := Option.bind_eq_some_iff.mp hstep
  split at hstep
  · rename_i hnew
    cases hstep
    obtain ⟨hreads, rfl⟩ := eq_singleton h.guarded.oneTransfer.reads hr
    have hsize : s.inputSize = 0 := h.empty (by rw [hreads]; exact List.cons_ne_nil _ _)
    refine ⟨hguarded, h.engine, fun _ => hsize, ?_, h.output, h.owed, h.handed⟩
    have hbefore := h.input
    simp only [Stream.input, hsize, List.take_zero, List.append_nil, undelivered, hreads,
      List.flatMap_singleton, hnew.1, Option.getD_none] at hbefore
    simp only [Stream.input, hsize, List.take_zero, List.append_nil, undelivered, hreads,
      List.set_cons_zero, List.flatMap_singleton, Option.getD_some, take_overwrite, hbefore]
  · cases hstep

theorem Intact.send {i n : Nat} (h : s.Intact) (hstep : s.send i n = some s') : s'.Intact := by
  have hguarded := h.guarded.send hstep
  obtain ⟨w, hw, hstep⟩ := Option.bind_eq_some_iff.mp hstep
  split at hstep
  · rename_i hlength
    cases hstep
    obtain ⟨hwrites, rfl⟩ := eq_singleton h.guarded.oneTransfer.writes hw
    refine ⟨hguarded, h.engine, h.empty, h.input, ?_, ?_, h.handed⟩
    · have hbefore := h.output
      have hsplit : w.length - w.sent = n + (w.length - (w.sent + n)) := by omega
      simp only [unsent, hwrites, List.flatMap_singleton] at hbefore
      simp only [unsent, hwrites, List.set_cons_zero, List.flatMap_singleton]
      rw [hbefore, hsplit, List.take_add, List.drop_drop, List.append_assoc]
    · intro w' hw'
      rw [hwrites] at hw'
      obtain rfl := List.mem_singleton.mp hw'
      exact h.owed w (by rw [hwrites]; exact List.mem_singleton_self w)
  · cases hstep

theorem Intact.step {a : Action} (h : s.Intact) (hclean : Clean a) (ha : s.Harmless a)
    (hstep : s.step a = some s') : s'.Intact := by
  cases a with
  | start id operation turns =>
    refine intact_keeps.loop ?_ hstep
    exact ⟨⟨h.guarded.read, h.guarded.write, h.guarded.posted⟩, h.engine, h.empty, h.input,
      h.output, h.owed, h.handed⟩
  | receive i bytes => exact h.receive hstep
  | readDone i ec cancelled room turns =>
    obtain ⟨r, hr, hstep⟩ := Option.bind_eq_some_iff.mp hstep
    split at hstep
    · rw [resume_of_wantsInput (h.guarded.wantsInput hr)] at hstep
      exact intact_keeps.retry (h.resetRead_of_done hr resumed_id room) hstep
    · cases hstep
  | send i n => exact h.send hstep
  | writeDone i ec cancelled turns =>
    obtain ⟨w, hw, hstep⟩ := Option.bind_eq_some_iff.mp hstep
    split at hstep
    · rename_i hsent
      have hall : w.sent = w.length := hsent.resolve_right (by rw [hclean.1]; exact nofun)
      refine Intact.resume_wantsOutput (h.resetWrite_of_done hw resumed_id hall)
        (h.guarded.wantsOutput hw) (fun _ _ => ?_) hstep
      exact h.owed w (List.mem_of_getElem? hw)
    · cases hstep
  | postDone i ec =>
    obtain ⟨op, hop, hstep⟩ := Option.bind_eq_some_iff.mp hstep
    have hnothing := h.guarded.posted op (List.mem_of_getElem? hop)
    rw [resume_of_wantsNothing hnothing] at hstep
    cases hstep
    refine Intact.callHandler ?_ fun hwant _ => ?_
    · refine ⟨⟨h.guarded.read, h.guarded.write, fun op' hop' => ?_⟩, h.engine, h.empty, h.input,
        h.output, h.owed, h.handed⟩
      exact h.guarded.posted op' (List.mem_of_mem_eraseIdx hop')
    · rw [resumed_want, hnothing] at hwant
      cases hwant
  | cancelReadWait i => exact hclean.elim
  | cancelWriteWait i => exact hclean.elim
  | wakeRead i cancelled room turns =>
    obtain ⟨op, hop, hstep⟩ := Option.bind_eq_some_iff.mp hstep
    rw [resume_of_wantsInput (h.guarded.read.wants_released (List.mem_of_getElem? hop))] at hstep
    exact intact_keeps.retry (h.resetRead_of_wake ha.1 ha.2 i _ room) hstep
  | wakeWrite i cancelled turns =>
    obtain ⟨op, hop, hstep⟩ := Option.bind_eq_some_iff.mp hstep
    refine Intact.resume_wantsOutput (h.resetWrite_of_wake ha.1 i _)
      (h.guarded.write.wants_released (List.mem_of_getElem? hop)) ?_ hstep
    exact ha.2 op hop

/-! ### Runs -/

section Runs

theorem initial_intact : initial.Intact where
  guarded := initial_guarded
  engine := ⟨rfl, Nat.zero_le _⟩
  empty _ := rfl
  input := rfl
  output := rfl
  owed := by rintro _ ⟨⟩
  handed := by rintro _ ⟨⟩

/-- The steps of the next layer and of the operations without errors and cancellation. -/
def CleanStep (s : Stream) (a : Action) : Prop := Legal s a ∧ Clean a

instance (s : Stream) (a : Action) : Decidable (CleanStep s a) :=
  inferInstanceAs (Decidable (_ ∧ _))

def HarmlessStep (s : Stream) (a : Action) : Prop := CleanStep s a ∧ s.Harmless a

instance (s : Stream) (a : Action) : Decidable (HarmlessStep s a) :=
  inferInstanceAs (Decidable (_ ∧ _))

/-- No ciphertext is lost or reordered in a run without errors and cancellation, if an operation
that has waited resumes only when no transfer is outstanding, the input is used up and the output of
the operation has been taken if that is all it wanted. -/
theorem bytes_in_order {run : List Action}
    (h : exec (guarded step HarmlessStep) initial run = some s) : s.InOrder := by
  have hreachable := exec_guarded_reachable h
  refine Intact.inOrder (hreachable.invariant initial_intact fun h ha hstep => ?_)
  exact h.step ha.1.2 ha.2 hstep

/-- The first operation reads two bytes of which the engine accepts one; then it is done. -/
def partlyAccepted : List Action :=
  [.start 0 .read [wantsInput], .start 1 .write [wantsInput], .receive 0 [22, 3],
    .readDone 0 none false 1 [⟨⟨1, .none, 0, []⟩, 0⟩]]

/-- The second operation writes as soon as the input is used up. -/
def thenWrites : List Action :=
  [.start 2 .read [⟨⟨-1, .wantRead, 0, []⟩, 1⟩, ⟨⟨1, .none, 0, []⟩, 0⟩],
    .wakeRead 0 false 0 [⟨⟨5, .none, 0, [23, 7]⟩, 0⟩], .send 0 2, .writeDone 0 none false []]

theorem bytes_in_order_thenWrites : ∃ s,
    exec (guarded step HarmlessStep) initial (partlyAccepted ++ thenWrites) = some s ∧
      s.written = [23, 7] ∧ s.InOrder := by
  have hrun : (exec (guarded step HarmlessStep) initial (partlyAccepted ++ thenWrites)).map
      (·.written) = some [23, 7] := by
    decide +kernel
  obtain ⟨s, hs, hwritten⟩ := Option.map_eq_some_iff.mp hrun
  exact ⟨s, hs, hwritten, bytes_in_order hs⟩

/-- The operation that has waited overwrites the byte that the engine has not accepted. -/
theorem unaccepted_byte_lost : ¬ ∀ run s,
    exec (guarded step CleanStep) initial run = some s → s.InOrder := by
  intro hall
  have hrun : (exec (guarded step CleanStep) initial
      (partlyAccepted ++ [.wakeRead 0 false 0 [wantsInput]])).map
      (fun s => (s.received, s.engine.accepted ++ s.input ++ s.undelivered)) =
      some ([22, 3], [22]) := by
    decide +kernel
  obtain ⟨s, hs, heq⟩ := Option.map_eq_some_iff.mp hrun
  simp only [Prod.mk.injEq] at heq
  have hinput := (hall _ s hs).input
  rw [heq.1, heq.2] at hinput
  exact absurd hinput (by decide)

end Runs

end Stream

end Asio.Ssl
