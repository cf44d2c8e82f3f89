import Asio.Detail.EpollReactor
import Asio.Detail.ReactorOpHistory

/-! Every operation that is started on a descriptor is posted once, and in turn unless it is
cancelled by its key. -/

namespace Asio.Detail

open Lib

namespace Epoll

namespace DescriptorState

variable {d : DescriptorState} {t : OpType} {op : ReactorOp}

/-! ### What starting an operation does -/

/-- The operation is posted from an empty queue, or it is the last one in its queue. -/
structure Starts (d : DescriptorState) (t : OpType) (op : ReactorOp) (r : Started) : Prop where
  shutdown : r.data.shutdown = d.shutdown
  posted : ∀ op' ∈ r.posted, op'.identity = op.identity ∧ r.data.opQueue = d.opQueue ∧
    (d.shutdown = true ∨ d.opQueue t = [])
  waits : r.posted = none → d.shutdown = false ∧ ∃ op', op'.identity = op.identity ∧
    r.data.opQueue = Function.update d.opQueue t (d.opQueue t ++ [op'])
  performed : r.performed = true → d.opQueue t = [] ∧ (t = .read → d.opQueue .except = [])

theorem Starts.of_posted {op' : ReactorOp} {performed : Bool} {d' : DescriptorState}
    (hid : op'.identity = op.identity) (hqueue : d'.opQueue = d.opQueue)
    (hshutdown : d'.shutdown = d.shutdown) (hempty : d.shutdown = true ∨ d.opQueue t = [])
    (hperformed : performed = true → d.opQueue t = [] ∧ (t = .read → d.opQueue .except = [])) :
    Starts d t op ⟨some op', performed, d'⟩ where
  shutdown := hshutdown
  posted := by
    rintro _ ⟨⟩
    exact ⟨hid, hqueue, hempty⟩
  waits h := by cases h
  performed := hperformed

theorem Starts.of_waits {op' : ReactorOp} {performed : Bool} {d' : DescriptorState}
    (hid : op'.identity = op.identity) (hqueue : d'.opQueue = d.opQueue)
    (hshutdown : d'.shutdown = d.shutdown) (hopen : d.shutdown = false)
    (hperformed : performed = true → d.opQueue t = [] ∧ (t = .read → d.opQueue .except = [])) :
    Starts d t op ⟨none, performed, d'.enqueue t op'⟩ where
  shutdown := hshutdown
  posted _ h := by cases h
  waits _ := ⟨hopen, op', hid, by rw [enqueue, setQueue, hqueue]⟩
  performed := hperformed

theorem waitForEvent_starts {op' : ReactorOp} {performed : Bool} (epollCtl : Option Nat)
    (hid : op'.identity = op.identity) (hopen : d.shutdown = false) (hempty : d.opQueue t = [])
    (hperformed : performed = true → t = .read → d.opQueue .except = []) :
    Starts d t op (d.waitForEvent t op' performed epollCtl) := by
  have hperformed' (h : performed = true) := And.intro hempty (hperformed h)
  unfold waitForEvent
  split
  · exact .of_posted hid rfl rfl (Or.inr hempty) hperformed'
  · split
    · cases epollCtl with
      | none => exact .of_waits hid rfl rfl hopen hperformed'
      | some errno => exact .of_posted hid rfl rfl (Or.inr hempty) hperformed'
    · exact .of_waits hid rfl rfl hopen hperformed'

theorem startOp_starts (allowSpeculative : Bool) (outcome : ReactorOp.Outcome)
    (epollCtl : Option Nat) :
    Starts d t op (d.startOp t op allowSpeculative outcome epollCtl) := by
  unfold startOp
  split
  · rename_i hshutdown
    exact .of_posted rfl rfl rfl (Or.inl hshutdown) (by rintro ⟨⟩)
  · rename_i hopen
    have hopen := eq_false_of_ne_true hopen
    split
    · rename_i hempty
      have hempty := List.isEmpty_iff.mp hempty
      split
      · rename_i hallow
        have hexcept (h : t = .read) : d.opQueue .except = [] :=
          List.isEmpty_iff.mp (hallow.2.resolve_left fun hne => hne h)
        split
        · split
          · rename_i op' hperform
            have hid := ReactorOp.identity_of_perform hperform
            exact waitForEvent_starts epollCtl hid hopen hempty fun _ => hexcept
          · rename_i op' status _ hperform
            have hid := ReactorOp.identity_of_perform hperform
            refine .of_posted hid ?_ ?_ (Or.inr hempty) fun _ => ⟨hempty, hexcept⟩
            · split <;> rfl
            · split <;> rfl
        · exact waitForEvent_starts epollCtl rfl hopen hempty (by rintro ⟨⟩)
      · split
        · exact .of_posted rfl rfl rfl (Or.inr hempty) (by rintro ⟨⟩)
        · split
          · exact .of_waits rfl rfl rfl hopen (by rintro ⟨⟩)
          · exact .of_waits rfl rfl rfl hopen (by rintro ⟨⟩)
    · exact .of_waits rfl rfl rfl hopen (by rintro ⟨⟩)

/-! ### What performing operations does -/

theorem performQueue_identity (outcome : Nat → ReactorOp.Outcome) (queue : List ReactorOp) :
    (performQueue outcome queue).1.map ReactorOp.identity ++
      (performQueue outcome queue).2.1.map ReactorOp.identity = queue.map ReactorOp.identity := by
  induction queue with
  | nil => rfl
  | cons op queue ih =>
    simp only [performQueue]
    split
    · rename_i op' hperform
      rw [List.map_nil, List.nil_append, List.map_cons, List.map_cons,
        ReactorOp.identity_of_perform hperform]
    · rename_i op' hperform
      rw [List.map_cons, List.cons_append, ih, List.map_cons,
        ReactorOp.identity_of_perform hperform]
    · rename_i op' hperform
      rw [List.map_cons, List.map_nil, List.map_cons, ReactorOp.identity_of_perform hperform]
      rfl

/-- What is performed comes from the front of its queue. -/
theorem performFrom_identities (events : BitVec 32) (outcome : Nat → ReactorOp.Outcome)
    (ts : List OpType) (d : DescriptorState) (t : OpType) :
    identitiesOf t (performFrom events outcome ts d).1 ++
        ((performFrom events outcome ts d).2.opQueue t).map ReactorOp.identity =
      (d.opQueue t).map ReactorOp.identity := by
  induction ts generalizing d with
  | nil => rfl
  | cons t' ts ih =>
    simp only [performFrom]
    split
    · exact ih d
    · rw [identitiesOf_append, List.append_assoc, ih]
      by_cases ht : t' = t
      · subst ht
        rw [identitiesOf_map (fun op => op) fun _ => rfl, if_pos rfl]
        simp only [setTrySpeculative, setQueue, Function.update_self]
        exact performQueue_identity outcome _
      · rw [identitiesOf_map (fun op => op) fun _ => rfl, if_neg ht]
        simp only [setTrySpeculative, setQueue, Function.update_of_ne (Ne.symm ht)]
        rfl

theorem performFrom_shutdown (events : BitVec 32) (outcome : Nat → ReactorOp.Outcome)
    (ts : List OpType) (d : DescriptorState) :
    (performFrom events outcome ts d).2.shutdown = d.shutdown := by
  induction ts generalizing d with
  | nil => rfl
  | cons t ts ih =>
    simp only [performFrom]
    split
    · exact ih d
    · exact ih _

theorem cancelAll_identities (d : DescriptorState) (t : OpType) :
    identitiesOf t d.cancelAll.1 = (d.opQueue t).map ReactorOp.identity := by
  simp only [cancelAll, List.flatMap_cons, List.flatMap_nil, List.append_nil,
    identitiesOf_append, identitiesOf_complete]
  cases t <;> simp

theorem cancelByKey_identities (d : DescriptorState) (t t' : OpType) (key : Nat) :
    identitiesOf t' (d.cancelByKey t key).1 =
      if t = t' then ((d.opQueue t).map ReactorOp.identity).filter (·.2 = key) else [] := by
  simp only [cancelByKey, identitiesOf_complete, List.filter_map]
  rfl

theorem cancelByKey_queue (d : DescriptorState) (t : OpType) (key : Nat) :
    ((d.cancelByKey t key).2.opQueue t).map ReactorOp.identity =
      ((d.opQueue t).map ReactorOp.identity).filter (·.2 ≠ key) := by
  simp only [cancelByKey, setQueue, Function.update_self, List.filter_map]
  rfl

end DescriptorState

open DescriptorState Transition

/-! ### The line of one type -/

namespace State

variable (s : State) (t : OpType)

def startedOf : List (Nat × Nat) := identitiesOf t s.started

def completedOf : List (Nat × Nat) :=
  identitiesOf t (s.completions.map fun c => (c.opType, c.op))

/-- Those that `cancelOpsByKey` has not cancelled. -/
def inTurnOf : List (Nat × Nat) :=
  identitiesOf t ((s.completions.filter (!·.byKey)).map fun c => (c.opType, c.op))

def waitingOf : List (Nat × Nat) := (s.data.opQueue t).map ReactorOp.identity

def line : Line (Nat × Nat) where
  joined := s.startedOf t
  left := s.completedOf t
  inTurn := s.inTurnOf t
  waiting := s.waitingOf t

theorem completedOf_complete (route : Route) (byKey : Bool) (ops : List (OpType × ReactorOp)) :
    (s.complete route byKey ops).completedOf t = s.completedOf t ++ identitiesOf t ops := by
  rw [completedOf, complete, List.map_append, identitiesOf_append, List.map_map]
  simp only [Function.comp_def, Prod.eta, List.map_id']
  rfl

theorem inTurnOf_complete (route : Route) (byKey : Bool) (ops : List (OpType × ReactorOp)) :
    (s.complete route byKey ops).inTurnOf t =
      s.inTurnOf t ++ if byKey then [] else identitiesOf t ops := by
  rw [inTurnOf, complete, List.filter_append, List.map_append, identitiesOf_append,
    List.filter_map]
  cases byKey with
  | false =>
    simp only [Function.comp_def, Bool.not_false, List.filter_true, List.map_map, Prod.eta,
      List.map_id']
    rfl
  | true =>
    simp only [Function.comp_def, Bool.not_true, List.filter_false]
    rfl

theorem line_complete (route : Route) (byKey : Bool) (ops : List (OpType × ReactorOp)) :
    (s.complete route byKey ops).line t =
      ⟨s.startedOf t, s.completedOf t ++ identitiesOf t ops,
        s.inTurnOf t ++ (if byKey then [] else identitiesOf t ops), s.waitingOf t⟩ := by
  rw [line, completedOf_complete, inTurnOf_complete]
  rfl

/-- Once the descriptor is deregistered nothing waits. -/
structure Quiet : Prop where
  shutdown : s.hasData = false → s.data.shutdown = true
  empty : s.data.shutdown = true → ∀ t, s.data.opQueue t = []

variable {s t}

/-! ### What a step does to the lines -/

/-- Those who wait leave from the front, and what is completed is what has left. -/
theorem line_leave {s' : State} (ops : List (OpType × ReactorOp))
    (hstarted : s'.started = s.started)
    (hleft : s'.completedOf t = s.completedOf t ++ identitiesOf t ops)
    (hturn : s'.inTurnOf t = s.inTurnOf t ++ identitiesOf t ops)
    (hwaiting : identitiesOf t ops ++ s'.waitingOf t = s.waitingOf t) :
    Line.Step Prod.snd (s.line t) (s'.line t) := by
  rw [line, line, hleft, hturn, ← hwaiting, startedOf, startedOf, hstarted]
  exact .leave

section Starting

variable {s' : State} {t' : OpType} {op op' : ReactorOp}

theorem startedOf_append (hstarted : s'.started = s.started ++ [(t', op)]) :
    s'.startedOf t = s.startedOf t ++ if t' = t then [op.identity] else [] := by
  rw [startedOf, hstarted, identitiesOf_append, identitiesOf_singleton]
  rfl

theorem completedOf_congr (h : s'.completions = s.completions) :
    s'.completedOf t = s.completedOf t := by
  rw [completedOf, h, completedOf]

theorem inTurnOf_congr (h : s'.completions = s.completions) :
    s'.inTurnOf t = s.inTurnOf t := by
  rw [inTurnOf, h, inTurnOf]

theorem line_pass (op : ReactorOp) (route : Route) (hid : op'.identity = op.identity)
    (hempty : s.data.opQueue t' = []) (hstarted : s'.started = s.started ++ [(t', op)])
    (hcompletions : s'.completions = s.completions)
    (hqueue : s'.data.opQueue = s.data.opQueue) :
    Line.Step Prod.snd (s.line t) ((s'.complete route false [(t', op')]).line t) := by
  rw [line_complete, startedOf_append hstarted, completedOf_congr hcompletions,
    inTurnOf_congr hcompletions, identitiesOf_singleton, hid, waitingOf, hqueue]
  simp only [Bool.false_eq_true, if_false]
  by_cases ht : t' = t
  · subst ht
    rw [if_pos rfl, hempty, line, waitingOf, hempty]
    exact .pass
  · simp only [if_neg ht, List.append_nil]
    exact .stay

theorem line_join (hid : op'.identity = op.identity)
    (hstarted : s'.started = s.started ++ [(t', op)])
    (hcompletions : s'.completions = s.completions)
    (hqueue : s'.data.opQueue = Function.update s.data.opQueue t' (s.data.opQueue t' ++ [op'])) :
    Line.Step Prod.snd (s.line t) (s'.line t) := by
  rw [line, line, startedOf_append hstarted, completedOf_congr hcompletions,
    inTurnOf_congr hcompletions, waitingOf, waitingOf, hqueue]
  by_cases ht : t' = t
  · subst ht
    rw [if_pos rfl, Function.update_self, List.map_append, ← hid]
    exact .join
  · rw [if_neg ht, List.append_nil, Function.update_of_ne (Ne.symm ht)]
    exact .stay

end Starting

theorem startOp_line (hq : s.Quiet) (t' : OpType) (op : ReactorOp)
    (isContinuation allowSpeculative : Bool) (outcome : ReactorOp.Outcome)
    (epollCtl : Option Nat) :
    Line.Step Prod.snd (s.line t)
      ((s.startOp t' op isContinuation allowSpeculative outcome epollCtl).line t) := by
  simp only [startOp]
  split
  · have hstarts := @startOp_starts s.data t' op allowSpeculative outcome
      epollCtl
    generalize s.data.startOp t' op allowSpeculative outcome epollCtl = result at hstarts
    cases hposted : result.posted with
    | some op' =>
      obtain ⟨hid, hqueue, hempty⟩ := hstarts.posted op' hposted
      exact line_pass op _ hid (hempty.elim (fun h => hq.empty h t') id) rfl rfl hqueue
    | none =>
      obtain ⟨-, op', hid, hqueue⟩ := hstarts.waits hposted
      exact line_join hid rfl (List.append_nil _) hqueue
  · rename_i hdata
    have hshutdown := hq.shutdown (eq_false_of_ne_true hdata)
    exact line_pass op _ rfl (hq.empty hshutdown t') rfl rfl rfl

theorem cancelOps_line : Line.Step Prod.snd (s.line t) (s.cancelOps.line t) := by
  unfold cancelOps
  split
  · apply line_leave s.data.cancelAll.1
    · rfl
    · rw [completedOf_complete]
      rfl
    · rw [inTurnOf_complete]
      rfl
    · rw [cancelAll_identities]
      exact List.append_nil _
  · exact .stay

theorem cancelOpsByKey_line (t' : OpType) (key : Nat) :
    Line.Step Prod.snd (s.line t) ((s.cancelOpsByKey t' key).line t) := by
  unfold cancelOpsByKey
  split
  · rw [line_complete, cancelByKey_identities]
    simp only [if_true, List.append_nil, waitingOf]
    by_cases ht : t' = t
    · subst ht
      rw [if_pos rfl, cancelByKey_queue]
      exact .withdraw key
    · simp only [if_neg ht, List.append_nil, cancelByKey, setQueue,
        Function.update_of_ne (Ne.symm ht)]
      exact .stay
  · exact .stay

theorem deregisterDescriptor_line :
    Line.Step Prod.snd (s.line t) (s.deregisterDescriptor.line t) := by
  unfold deregisterDescriptor
  split
  · split
    · exact .stay
    · apply line_leave s.data.cancelAll.1
      · rfl
      · rw [completedOf_complete]
        rfl
      · rw [inTurnOf_complete]
        rfl
      · rw [cancelAll_identities]
        exact List.append_nil _
  · exact .stay

theorem performIo_line {s' : State} {events : BitVec 32} {outcome : Nat → ReactorOp.Outcome}
    (h : s.performIo events outcome = some s') : Line.Step Prod.snd (s.line t) (s'.line t) := by
  unfold performIo at h
  split at h
  · cases h
    apply line_leave (s.data.performIo events outcome).1
    · rfl
    · rw [completedOf_complete, completedOf_complete, List.append_assoc, ← identitiesOf_append,
        List.take_append_drop]
      rfl
    · rw [inTurnOf_complete, inTurnOf_complete, List.append_assoc]
      simp only [Bool.false_eq_true, if_false]
      rw [← identitiesOf_append, List.take_append_drop]
      rfl
    · exact performFrom_identities events outcome _ s.data t
  · cases h

theorem Quiet.step_line (hq : s.Quiet) {a : Action} {s' : State} (h : step s a = some s') :
    Line.Step Prod.snd (s.line t) (s'.line t) := by
  cases a with
  | startOp t' op isContinuation allowSpeculative outcome epollCtl =>
    cases h
    exact startOp_line hq t' op isContinuation allowSpeculative outcome epollCtl
  | cancelOps =>
    cases h
    exact cancelOps_line
  | cancelOpsByKey t' key =>
    cases h
    exact cancelOpsByKey_line t' key
  | deregisterDescriptor =>
    cases h
    exact deregisterDescriptor_line
  | run events =>
    cases h
    unfold run
    split <;> exact .stay
  | dequeue =>
    simp only [step, dequeue] at h
    split at h
    · cases h
      exact .stay
    · cases h
  | performIo events outcome => exact performIo_line h

/-! ### After deregistration -/

theorem Quiet.of_data {s' : State} (hq : s.Quiet) (hdata : s'.hasData = s.hasData)
    (hshutdown : s'.data.shutdown = s.data.shutdown)
    (hempty : s.data.shutdown = true → (∀ t, s.data.opQueue t = []) →
      ∀ t, s'.data.opQueue t = []) : s'.Quiet where
  shutdown h := hshutdown ▸ hq.shutdown (hdata ▸ h)
  empty h := hempty (hshutdown ▸ h) (hq.empty (hshutdown ▸ h))

theorem Quiet.startOp (hq : s.Quiet) (t : OpType) (op : ReactorOp)
    (isContinuation allowSpeculative : Bool) (outcome : ReactorOp.Outcome)
    (epollCtl : Option Nat) :
    (s.startOp t op isContinuation allowSpeculative outcome epollCtl).Quiet := by
  have hstarts := @startOp_starts s.data t op allowSpeculative outcome
    epollCtl
  simp only [State.startOp]
  split
  · refine hq.of_data rfl hstarts.shutdown fun hshutdown hempty t' => ?_
    cases hposted : (s.data.startOp t op allowSpeculative outcome epollCtl).posted with
    | none =>
      rw [(hstarts.waits hposted).1] at hshutdown
      cases hshutdown
    | some op' => exact (congrFun (hstarts.posted op' hposted).2.1 t').trans (hempty t')
  · exact hq.of_data rfl rfl fun _ hempty => hempty

theorem Quiet.performIo (hq : s.Quiet) {events : BitVec 32} {outcome : Nat → ReactorOp.Outcome}
    {s' : State} (h : s.performIo events outcome = some s') : s'.Quiet := by
  unfold State.performIo at h
  split at h
  · cases h
    have hshutdown := performFrom_shutdown events outcome [.except, .write, .read] s.data
    refine hq.of_data rfl hshutdown fun _ hempty t => ?_
    have hwaiting := performFrom_identities events outcome [.except, .write, .read] s.data t
    rw [hempty t] at hwaiting
    exact List.map_eq_nil_iff.mp (List.append_eq_nil_iff.mp hwaiting).2
  · cases h

theorem Quiet.step (hq : s.Quiet) {a : Action} {s' : State} (h : step s a = some s') :
    s'.Quiet := by
  cases a with
  | startOp t op isContinuation allowSpeculative outcome epollCtl =>
    cases h
    exact hq.startOp t op isContinuation allowSpeculative outcome epollCtl
  | cancelOps =>
    cases h
    unfold cancelOps
    split
    · exact hq.of_data rfl rfl fun _ _ _ => rfl
    · exact hq
  | cancelOpsByKey t key =>
    cases h
    unfold cancelOpsByKey
    split
    · refine hq.of_data rfl rfl fun _ hempty t' => ?_
      simp only [complete, cancelByKey, setQueue, hempty, List.filter_nil]
      by_cases ht : t' = t
      · rw [ht, Function.update_self]
      · rw [Function.update_of_ne ht, hempty]
    · exact hq
  | deregisterDescriptor =>
    cases h
    unfold deregisterDescriptor
    split
    · split
      · rename_i hshutdown
        exact ⟨fun _ => hshutdown, hq.empty⟩
      · exact ⟨fun _ => rfl, fun _ _ => rfl⟩
    · exact hq
  | run events =>
    cases h
    unfold run
    split <;> exact hq.of_data rfl rfl fun _ hempty => hempty
  | dequeue =>
    simp only [Epoll.step, dequeue] at h
    split at h
    · cases h
      exact hq.of_data rfl rfl fun _ hempty => hempty
    · cases h
  | performIo events outcome => exact hq.performIo h

/-- The descriptor is deregistered: `shutdown_` is set if there is still a descriptor. -/
def Deregistered (s : State) : Prop := s.hasData = true → s.data.shutdown = true

theorem deregisterDescriptor_deregistered : s.deregisterDescriptor.Deregistered := by
  intro h
  unfold deregisterDescriptor at h ⊢
  split
  · rename_i hdata
    rw [if_pos hdata] at h
    split
    · rename_i hshutdown
      exact hshutdown
    · rfl
  · rename_i hdata
    rw [if_neg hdata] at h
    exact absurd h hdata

theorem Deregistered.step (hs : s.Deregistered) {a : Action} {s' : State}
    (h : step s a = some s') : s'.Deregistered := by
  cases a with
  | startOp t op isContinuation allowSpeculative outcome epollCtl =>
    cases h
    simp only [State.startOp]
    split
    · intro hdata
      exact (startOp_starts allowSpeculative outcome epollCtl).shutdown.trans (hs hdata)
    · exact hs
  | cancelOps =>
    cases h
    unfold cancelOps
    split <;> exact hs
  | cancelOpsByKey t key =>
    cases h
    unfold cancelOpsByKey
    split <;> exact hs
  | deregisterDescriptor =>
    cases h
    exact deregisterDescriptor_deregistered
  | run events =>
    cases h
    unfold run
    split <;> exact hs
  | dequeue =>
    simp only [Epoll.step, dequeue] at h
    split at h
    · cases h
      exact hs
    · cases h
  | performIo events outcome =>
    simp only [Epoll.step, State.performIo] at h
    split at h
    · cases h
      intro hdata
      exact (performFrom_shutdown events outcome [.except, .write, .read] s.data).trans (hs hdata)
    · cases h

/-! ### What only the start of an operation changes -/

theorem step_started {a : Action} {s' : State} (h : step s a = some s') :
    (∃ t op isContinuation allowSpeculative outcome epollCtl,
      a = .startOp t op isContinuation allowSpeculative outcome epollCtl ∧
      s' = s.startOp t op isContinuation allowSpeculative outcome epollCtl) ∨
    s'.started = s.started ∧ s'.speculations = s.speculations := by
  cases a with
  | startOp t op isContinuation allowSpeculative outcome epollCtl =>
    cases h
    exact Or.inl ⟨t, op, isContinuation, allowSpeculative, outcome, epollCtl, rfl, rfl⟩
  | cancelOps =>
    cases h
    unfold cancelOps
    split <;> exact Or.inr ⟨rfl, rfl⟩
  | cancelOpsByKey t key =>
    cases h
    unfold cancelOpsByKey
    split <;> exact Or.inr ⟨rfl, rfl⟩
  | deregisterDescriptor =>
    cases h
    unfold deregisterDescriptor
    split
    · split <;> exact Or.inr ⟨rfl, rfl⟩
    · exact Or.inr ⟨rfl, rfl⟩
  | run events =>
    cases h
    unfold run
    split <;> exact Or.inr ⟨rfl, rfl⟩
  | dequeue =>
    simp only [Epoll.step, dequeue] at h
    split at h
    · cases h
      exact Or.inr ⟨rfl, rfl⟩
    · cases h
  | performIo events outcome =>
    simp only [Epoll.step, State.performIo] at h
    split at h
    · cases h
      exact Or.inr ⟨rfl, rfl⟩
    · cases h

def startedIds (s : State) : List Nat := s.started.map fun p => p.2.id

theorem startOp_started (t : OpType) (op : ReactorOp) (isContinuation allowSpeculative : Bool)
    (outcome : ReactorOp.Outcome) (epollCtl : Option Nat) :
    (s.startOp t op isContinuation allowSpeculative outcome epollCtl).started =
      s.started ++ [(t, op)] := by
  simp only [State.startOp]
  split <;> rfl

theorem startedIds_step (hs : s.startedIds.Nodup) {a : Action} (ha : Legal s a) {s' : State}
    (h : step s a = some s') : s'.startedIds.Nodup := by
  rcases step_started h with ⟨t, op, isContinuation, allowSpeculative, outcome, epollCtl, rfl, rfl⟩
    | ⟨hstarted, -⟩
  · rw [startedIds, startOp_started, List.map_append]
    refine List.nodup_append'.mpr ⟨hs, List.nodup_singleton _, ?_⟩
    exact List.disjoint_singleton.mpr ha
  · rwa [startedIds, hstarted]

/-- An operation is performed speculatively when none of its type waits, and a read when no
exception operation does. -/
def Fair (p : Speculation) : Prop :=
  p.opQueue p.opType = [] ∧ (p.opType = .read → p.opQueue .except = [])

theorem speculations_step (hs : ∀ p ∈ s.speculations, Fair p) {a : Action} {s' : State}
    (h : step s a = some s') : ∀ p ∈ s'.speculations, Fair p := by
  rcases step_started h with ⟨t, op, isContinuation, allowSpeculative, outcome, epollCtl, rfl, rfl⟩
    | ⟨-, hspeculations⟩
  · have hstarts := @startOp_starts s.data t op allowSpeculative outcome
      epollCtl
    simp only [State.startOp]
    split
    · simp only [complete]
      split
      · rename_i hperformed
        intro p hp
        rcases List.mem_append.mp hp with hp | hp
        · exact hs p hp
        · obtain rfl := List.mem_singleton.mp hp
          exact hstarts.performed hperformed
      · exact hs
    · exact hs
  · rwa [hspeculations]

end State

/-! ### Runs -/

section Runs

variable {supported : Bool} {s : State}

theorem reachable_quiet (h : Reachable step Legal (initial supported) s) : s.Quiet :=
  h.invariant ⟨by rintro ⟨⟩, by rintro ⟨⟩⟩ fun hq _ => hq.step

theorem reachable_inOrder (h : Reachable step Legal (initial supported) s) (t : OpType) :
    (s.line t).InOrder Prod.snd :=
  h.invariant_with reachable_quiet Line.inOrder_empty fun hq hl _ hstep =>
    (hq.step_line hstep).inOrder hl

theorem reachable_startedIds (h : Reachable step Legal (initial supported) s) :
    s.startedIds.Nodup :=
  h.invariant List.nodup_nil fun hs ha => State.startedIds_step hs ha

theorem reachable_fair (h : Reachable step Legal (initial supported) s) :
    ∀ p ∈ s.speculations, State.Fair p :=
  h.invariant (by rintro _ ⟨⟩) fun hs _ => State.speculations_step hs

theorem deregistered_of_mem {run : List Action}
    (h : exec (guarded step Legal) (initial supported) run = some s)
    (hmem : .deregisterDescriptor ∈ run) : s.Deregistered := by
  refine exec_of_mem h hmem (fun hstep => ?_) fun hs hstep => hs.step (guarded_eq_some hstep).2
  cases (guarded_eq_some hstep).2
  exact State.deregisterDescriptor_deregistered

/-- Every operation that has been started either waits or has been completed, once; the operations
of a type, apart from those cancelled by their key, and those with the same key are completed in
the order in which they were started; a speculative operation has not overtaken another; and once
the descriptor is deregistered none waits. -/
theorem per_descriptor {run : List Action}
    (h : exec (guarded step Legal) (initial supported) run = some s) :
    s.startedIds.Nodup ∧
      (∀ t, (s.completedOf t ++ s.waitingOf t).Perm (s.startedOf t) ∧
        (s.inTurnOf t ++ s.waitingOf t).Sublist (s.startedOf t) ∧
        ∀ key, (s.completedOf t ++ s.waitingOf t).filter (·.2 = key) =
          (s.startedOf t).filter (·.2 = key)) ∧
      (∀ p ∈ s.speculations, State.Fair p) ∧
      (.deregisterDescriptor ∈ run → ∀ t, s.data.opQueue t = []) := by
  have hreachable := exec_guarded_reachable h
  refine ⟨reachable_startedIds hreachable, fun t => ?_, reachable_fair hreachable,
    fun hmem => ?_⟩
  · obtain ⟨haccounted, hturns, hkeys⟩ := reachable_inOrder hreachable t
    exact ⟨haccounted, hturns, hkeys⟩
  · have hquiet := reachable_quiet hreachable
    have hderegistered := deregistered_of_mem h hmem
    apply hquiet.empty
    cases hdata : s.hasData with
    | false => exact hquiet.shutdown hdata
    | true => exact hderegistered hdata

/-- One operation is performed when its descriptor is ready, one is cancelled and one refused. -/
def threeOperations : List Action :=
  [.startOp .read ⟨0, 0, 1, 0⟩ false true ⟨.notDone, 0, 0⟩ none,
    .startOp .write ⟨1, 0, 1, 0⟩ false true ⟨.notDone, 0, 0⟩ none,
    .run inEvent, .dequeue, .performIo inEvent (fun _ => ⟨.done, 0, 4⟩), .deregisterDescriptor,
    .startOp .read ⟨2, 0, 1, 0⟩ false true ⟨.done, 0, 4⟩ none]

theorem per_descriptor_three : ∃ s, exec (guarded step Legal) (initial true) threeOperations =
    some s ∧ s.startedIds = [0, 1, 2] ∧ s.startedIds.Nodup ∧ ∀ t, s.data.opQueue t = [] := by
  have hrun : (exec (guarded step Legal) (initial true) threeOperations).map State.startedIds =
      some [0, 1, 2] := by
    decide +kernel
  obtain ⟨s, hs, hids⟩ := Option.map_eq_some_iff.mp hrun
  have hall := per_descriptor hs
  exact ⟨s, hs, hids, hall.1, hall.2.2.2 (by simp [threeOperations])⟩

/-- An operation that is cancelled by its key overtakes one that was started before it. -/
theorem cancelled_by_key_overtakes :
    (exec (guarded step Legal) (initial true)
      [.startOp .read ⟨0, 0, 1, 0⟩ false false ⟨.notDone, 0, 0⟩ none,
        .startOp .read ⟨1, 0, 2, 0⟩ false false ⟨.notDone, 0, 0⟩ none,
        .cancelOpsByKey .read 2,
        .run inEvent, .dequeue, .performIo inEvent (fun _ => ⟨.done, 0, 4⟩)]).map
        (fun s => (s.startedOf .read, s.completedOf .read)) =
      some ([(0, 1), (1, 2)], [(1, 2), (0, 1)]) := by
  decide +kernel

end Runs

end Epoll

end Asio.Detail
