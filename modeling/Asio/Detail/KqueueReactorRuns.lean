import Asio.Detail.KqueueReactor

/-! Every operation that is started on a descriptor is placed on a completion queue once, unless an
operation that has failed is performed with success. -/

namespace Asio.Detail.Kqueue

open Lib Transition

namespace DescriptorState

variable {d : DescriptorState} {t : OpType} {op : ReactorOp}

/-! ### What starting an operation does -/

/-- The operation is posted from an empty queue, or it is the last one in its queue. -/
structure Starts (d : DescriptorState) (t : OpType) (op : ReactorOp)
    (r : Option ReactorOp × DescriptorState) : Prop where
  shutdown : r.2.shutdown = d.shutdown
  posted : ∀ op' ∈ r.1, op'.identity = op.identity ∧ r.2.opQueue = d.opQueue ∧
    (d.shutdown = true ∨ d.opQueue t = [])
  waits : r.1 = none → d.shutdown = false ∧ ∃ op', op'.identity = op.identity ∧
    r.2.opQueue = Function.update d.opQueue t (d.opQueue t ++ [op'])

theorem Starts.of_posted {op' : ReactorOp} (hid : op'.identity = op.identity)
    (hempty : d.shutdown = true ∨ d.opQueue t = []) : Starts d t op (some op', d) where
  shutdown := rfl
  posted := by
    rintro _ ⟨⟩
    exact ⟨hid, rfl, hempty⟩
  waits h := by cases h

theorem Starts.of_waits {op' : ReactorOp} {d' : DescriptorState}
    (hid : op'.identity = op.identity) (hqueue : d'.opQueue = d.opQueue)
    (hshutdown : d'.shutdown = d.shutdown) (hopen : d.shutdown = false) :
    Starts d t op (none, d'.enqueue t op') where
  shutdown := hshutdown
  posted _ h := by cases h
  waits _ := ⟨hopen, op', hid, by rw [enqueue, setQueue, hqueue]⟩

theorem startOp_starts (allowSpeculative : Bool) (outcome : ReactorOp.Outcome)
    (kevent : Option Nat) : Starts d t op (d.startOp t op allowSpeculative outcome kevent) := by
  unfold startOp
  split
  · rename_i hshutdown
    exact .of_posted rfl (Or.inl hshutdown)
  · rename_i hopen
    have hopen := eq_false_of_ne_true hopen
    split
    · rename_i hempty
      have hempty := List.isEmpty_iff.mp hempty
      split
      · split
        · rename_i op' hperform
          have hid := ReactorOp.identity_of_perform hperform
          split
          · cases kevent with
            | none => exact .of_waits hid rfl rfl hopen
            | some errno => exact .of_posted hid (Or.inr hempty)
          · exact .of_waits hid rfl rfl hopen
        · rename_i op' _ _ hperform
          exact .of_posted (ReactorOp.identity_of_perform hperform) (Or.inr hempty)
      · split <;> exact .of_waits rfl rfl rfl hopen
    · exact .of_waits rfl rfl rfl hopen

/-! ### What cancelling operations does -/

theorem cancelAll_identities (d : DescriptorState) (t : OpType) :
    identitiesOf t d.cancelAll.1 ++ (d.cancelAll.2.opQueue t).map ReactorOp.identity =
      (d.opQueue t).map ReactorOp.identity := by
  simp only [cancelAll, List.flatMap_cons, List.flatMap_nil, List.append_nil, List.map_nil,
    identitiesOf_append, identitiesOf_complete]
  cases t <;> simp

/-! ### What an event does -/

/-- The first operation is not performed with success if the event is an error. -/
def FailsFirst (event : Event) (outcome : Nat → ReactorOp.Outcome) : List ReactorOp → Prop
  | [] => True
  | op :: _ => event.IsError → (outcome op.id).status = .notDone

instance (event : Event) (outcome : Nat → ReactorOp.Outcome) (queue : List ReactorOp) :
    Decidable (FailsFirst event outcome queue) := by
  induction queue using List.casesOn <;> dsimp only [FailsFirst] <;> infer_instance

variable {event : Event} {outcome : Nat → ReactorOp.Outcome}

theorem performQueue_of_ok (hok : ¬ event.IsError) (queue : List ReactorOp) :
    (performQueue event outcome queue).1.map ReactorOp.identity ++
      (performQueue event outcome queue).2.map ReactorOp.identity =
      queue.map ReactorOp.identity := by
  induction queue with
  | nil =>
    rw [performQueue]
    rfl
  | cons op queue ih =>
    rw [performQueue, if_neg hok]
    split
    · rename_i op' hperform
      rw [List.map_nil, List.nil_append, List.map_cons, List.map_cons,
        ReactorOp.identity_of_perform hperform]
    · rename_i op' _ _ hperform
      rw [List.map_cons, List.cons_append, ih, List.map_cons,
        ReactorOp.identity_of_perform hperform]

theorem performQueue_identity {queue : List ReactorOp} (hfails : FailsFirst event outcome queue) :
    (performQueue event outcome queue).1.map ReactorOp.identity ++
      (performQueue event outcome queue).2.map ReactorOp.identity =
      queue.map ReactorOp.identity := by
  by_cases herror : event.IsError
  · cases queue with
    | nil =>
      rw [performQueue]
      rfl
    | cons op queue =>
      have hstatus := hfails herror
      rw [performQueue, if_pos herror]
      split
      · rename_i op' hperform
        rw [List.map_singleton, List.map_cons, ReactorOp.identity_of_perform hperform]
        rfl
      · rename_i hdone hperform
        cases hperform
        exact absurd hstatus hdone
  · exact performQueue_of_ok herror queue

theorem performFrom_identities {ts : List OpType} (hts : ts.Nodup)
    (hfails : ∀ t ∈ ts, event.Concerns t → FailsFirst event outcome (d.opQueue t))
    (t : OpType) :
    identitiesOf t (performFrom event outcome ts d).1 ++
        ((performFrom event outcome ts d).2.opQueue t).map ReactorOp.identity =
      (d.opQueue t).map ReactorOp.identity := by
  induction ts generalizing d with
  | nil => rfl
  | cons t' ts ih =>
    obtain ⟨hnew, hts⟩ := List.nodup_cons.mp hts
    have hothers : ∀ u ∈ ts, event.Concerns u → FailsFirst event outcome (d.opQueue u) :=
      fun u hu => hfails u (List.mem_cons_of_mem _ hu)
    simp only [performFrom]
    split
    · rename_i hconcerns
      have hqueue := performQueue_identity (hfails t' (List.mem_cons_self ..) hconcerns)
      rw [identitiesOf_append, List.append_assoc, ih hts]
      · rw [identitiesOf_map (fun op => op) fun _ => rfl]
        by_cases ht : t' = t
        · subst ht
          simp only [if_true, setQueue, Function.update_self]
          exact hqueue
        · simp only [if_neg ht, setQueue, Function.update_of_ne (Ne.symm ht)]
          rfl
      · intro u hu
        have hne : u ≠ t' := fun h => hnew (h ▸ hu)
        simp only [setQueue, Function.update_of_ne hne]
        exact hothers u hu
    · exact ih hts hothers

theorem performFrom_shutdown (event : Event) (outcome : Nat → ReactorOp.Outcome)
    (ts : List OpType) (d : DescriptorState) :
    (performFrom event outcome ts d).2.shutdown = d.shutdown := by
  induction ts generalizing d with
  | nil => rfl
  | cons t ts ih =>
    simp only [performFrom]
    split
    · exact ih _
    · exact ih d

/-- No operation that has failed is performed with success. -/
def Fails (d : DescriptorState) (event : Event) (outcome : Nat → ReactorOp.Outcome) : Prop :=
  ∀ t ∈ [OpType.except, .write, .read], event.Concerns t →
    FailsFirst event outcome (d.opQueue t)

instance (d : DescriptorState) : Decidable (d.Fails event outcome) :=
  inferInstanceAs (Decidable (∀ t ∈ [OpType.except, .write, .read], _ → _))

theorem run_identities (hfails : d.Fails event outcome) (t : OpType) :
    identitiesOf t (d.run event outcome).1 ++
        ((d.run event outcome).2.opQueue t).map ReactorOp.identity =
      (d.opQueue t).map ReactorOp.identity := by
  have hnodup : [OpType.except, .write, .read].Nodup := by decide
  simp only [run]
  split
  · exact performFrom_identities (d := { d with numKevents := 1 }) hnodup hfails t
  · exact performFrom_identities hnodup hfails t

theorem run_shutdown (d : DescriptorState) (event : Event)
    (outcome : Nat → ReactorOp.Outcome) : (d.run event outcome).2.shutdown = d.shutdown := by
  simp only [run]
  split <;> exact performFrom_shutdown event outcome _ _

end DescriptorState

open DescriptorState

/-! ### What a step does -/

namespace State

variable {s s' : State}

/-- Once the descriptor is deregistered nothing waits. -/
structure Quiet (s : State) : Prop where
  shutdown : s.hasData = false → s.data.shutdown = true
  empty : s.data.shutdown = true → ∀ t, s.data.opQueue t = []

def Moves (s s' : State) : Prop :=
  s.history.Moves s.data.opQueue s'.history s'.data.opQueue

theorem startOp_moves (hq : s.Quiet) (t : OpType) (op : ReactorOp) (allowSpeculative : Bool)
    (outcome : ReactorOp.Outcome) (kevent : Option Nat) :
    s.Moves (s.startOp t op allowSpeculative outcome kevent) := by
  simp only [startOp]
  split
  · have hstarts := @startOp_starts s.data t op allowSpeculative outcome
      kevent
    split
    · rename_i op' data hresult
      rw [hresult] at hstarts
      obtain ⟨hid, hqueue, hempty⟩ := hstarts.posted op' rfl
      have hnone := hempty.elim (fun h => hq.empty h t) fun h => h
      change data.opQueue = s.data.opQueue at hqueue
      simp only [Moves, hqueue]
      exact .pass hnone hid
    · rename_i data hresult
      rw [hresult] at hstarts
      obtain ⟨-, op', hid, hqueue⟩ := hstarts.waits rfl
      change data.opQueue = _ at hqueue
      simp only [Moves, hqueue]
      exact .join hid
  · rename_i hdata
    have hshutdown := hq.shutdown (eq_false_of_ne_true hdata)
    exact .pass (hq.empty hshutdown t) rfl

/-- A kevent completes no operation twice. -/
def Performs (s : State) : Action → Prop
  | .run event outcome => s.data.Fails event outcome
  | _ => True

instance (s : State) (a : Action) : Decidable (s.Performs a) := by
  induction a using Action.casesOn <;> dsimp only [Performs] <;> infer_instance

theorem Quiet.step_moves (hq : s.Quiet) {a : Action} (ha : s.Performs a)
    (h : step s a = some s') : s.Moves s' := by
  cases a with
  | startOp t op allowSpeculative outcome kevent =>
    cases h
    exact startOp_moves hq t op allowSpeculative outcome kevent
  | cancelOps =>
    cases h
    unfold cancelOps
    split
    · exact .leave (cancelAll_identities s.data)
    · exact .stay
  | cancelOpsByKey t key =>
    cases h
    unfold cancelOpsByKey
    split
    · exact OpHistory.Moves.of_cancelByKey s.history s.data.opQueue t operationAborted key
    · exact .stay
  | deregisterDescriptor =>
    cases h
    unfold deregisterDescriptor
    split
    · split
      · exact .stay
      · exact .leave (cancelAll_identities s.data)
    · exact .stay
  | run event outcome =>
    cases h
    exact .leave (run_identities ha)

theorem Quiet.of_data (hq : s.Quiet) (hdata : s'.hasData = s.hasData)
    (hshutdown : s'.data.shutdown = s.data.shutdown)
    (hempty : s.data.shutdown = true → (∀ t, s.data.opQueue t = []) →
      ∀ t, s'.data.opQueue t = []) : s'.Quiet where
  shutdown h := hshutdown ▸ hq.shutdown (hdata ▸ h)
  empty h := hempty (hshutdown ▸ h) (hq.empty (hshutdown ▸ h))

theorem Quiet.startOp (hq : s.Quiet) (t : OpType) (op : ReactorOp) (allowSpeculative : Bool)
    (outcome : ReactorOp.Outcome) (kevent : Option Nat) :
    (s.startOp t op allowSpeculative outcome kevent).Quiet := by
  have hstarts := @startOp_starts s.data t op allowSpeculative outcome kevent
  simp only [State.startOp]
  split
  · split
    · rename_i op' data hresult
      rw [hresult] at hstarts
      refine hq.of_data rfl hstarts.shutdown fun _ hempty t' => ?_
      exact (congrFun (hstarts.posted op' rfl).2.1 t').trans (hempty t')
    · rename_i data hresult
      rw [hresult] at hstarts
      refine hq.of_data rfl hstarts.shutdown fun hshutdown _ => ?_
      rw [(hstarts.waits rfl).1] at hshutdown
      cases hshutdown
  · exact hq.of_data rfl rfl fun _ hempty => hempty

theorem Quiet.step (hq : s.Quiet) {a : Action} (ha : s.Performs a) (h : step s a = some s') :
    s'.Quiet := by
  cases a with
  | startOp t op allowSpeculative outcome kevent =>
    cases h
    exact hq.startOp t op allowSpeculative outcome kevent
  | cancelOps =>
    cases h
    unfold cancelOps
    split
    · exact hq.of_data rfl rfl fun _ _ _ => rfl
    · exact hq
  | cancelOpsByKey t key =>
    cases h
    unfold cancelOpsByKey
    split
    · refine hq.of_data rfl rfl fun _ hempty t' => ?_
      simp only [cancelByKey, setQueue, hempty, List.filter_nil]
      by_cases ht : t' = t
      · rw [ht, Function.update_self]
      · rw [Function.update_of_ne ht, hempty]
    · exact hq
  | deregisterDescriptor =>
    cases h
    unfold deregisterDescriptor
    split
    · split
      · rename_i hshutdown
        exact ⟨fun _ => hshutdown, hq.empty⟩
      · exact ⟨fun _ => rfl, fun _ _ => rfl⟩
    · exact hq
  | run event outcome =>
    cases h
    refine hq.of_data rfl (run_shutdown ..) fun _ hempty t => ?_
    have hwaiting := run_identities ha t
    rw [hempty t] at hwaiting
    exact List.map_eq_nil_iff.mp (List.append_eq_nil_iff.mp hwaiting).2

theorem startedIds_step (hs : s.history.startedIds.Nodup) {a : Action} (ha : Legal s a)
    (h : step s a = some s') : s'.history.startedIds.Nodup := by
  cases a with
  | startOp t op allowSpeculative outcome kevent =>
    cases h
    have hnodup := s.history.startedIds_start t hs ha
    simp only [startOp]
    split
    · split <;> exact hnodup
    · exact hnodup
  | cancelOps =>
    cases h
    unfold cancelOps
    split <;> exact hs
  | cancelOpsByKey t key =>
    cases h
    unfold cancelOpsByKey
    split <;> exact hs
  | deregisterDescriptor =>
    cases h
    unfold deregisterDescriptor
    split
    · split <;> exact hs
    · exact hs
  | run event outcome =>
    cases h
    exact hs

end State

/-! ### Runs -/

section Runs

variable {s : State}

/-- No step of the run performs with success an operation that has failed. -/
def Ok (s : State) (a : Action) : Prop := Legal s a ∧ s.Performs a

instance (s : State) (a : Action) : Decidable (Ok s a) := inferInstanceAs (Decidable (_ ∧ _))

theorem reachable_quiet (h : Reachable step Ok initial s) : s.Quiet :=
  h.invariant ⟨by rintro ⟨⟩, by rintro ⟨⟩⟩ fun hq ha => hq.step ha.2

theorem reachable_turns (h : Reachable step Ok initial s) (t : OpType) :
    (s.history.line t s.data.opQueue).Turns :=
  h.invariant_with reachable_quiet Line.turns_empty fun hq hl ha hstep =>
    ((hq.step_moves ha.2 hstep).line t).turns hl

theorem reachable_startedIds (h : Reachable step Ok initial s) : s.history.startedIds.Nodup :=
  h.invariant List.nodup_nil fun hs ha => State.startedIds_step hs ha.1

/-- If no operation that has failed is performed with success, every operation that has been
started either waits or has been placed on a completion queue, once; and those of a type, apart
from those cancelled by their key, are completed in the order in which they were started. -/
theorem kevents_complete_once {run : List Action}
    (h : exec (guarded step Ok) initial run = some s) :
    s.history.startedIds.Nodup ∧
      ∀ t, (s.history.completedOf t ++ (s.data.opQueue t).map ReactorOp.identity).Perm
          (s.history.startedOf t) ∧
        (s.history.inTurnOf t ++ (s.data.opQueue t).map ReactorOp.identity).Sublist
          (s.history.startedOf t) := by
  have hreachable := exec_guarded_reachable h
  refine ⟨reachable_startedIds hreachable, fun t => ?_⟩
  obtain ⟨haccounted, hturns⟩ := reachable_turns hreachable t
  exact ⟨haccounted, hturns⟩

def readError : Event := ⟨readFilter, errorFlag, 9⟩

def twoReads : List Action :=
  [.startOp .read ⟨0, 0, 1, 0⟩ true ⟨.notDone, 0, 0⟩ none,
    .startOp .read ⟨1, 0, 1, 0⟩ true ⟨.notDone, 0, 0⟩ none]

theorem kevents_complete_once_two : ∃ s, exec (guarded step Ok) initial
    (twoReads ++ [.run readError fun _ => ⟨.notDone, 35, 0⟩, .cancelOps]) = some s ∧
    s.history.startedIds = [0, 1] ∧
    (s.history.completedOf .read ++ (s.data.opQueue .read).map ReactorOp.identity).Perm
      (s.history.startedOf .read) := by
  have hrun : (exec (guarded step Ok) initial
      (twoReads ++ [.run readError fun _ => ⟨.notDone, 35, 0⟩, .cancelOps])).map
      (fun s => s.history.startedIds) = some [0, 1] := by
    decide +kernel
  obtain ⟨s, hs, hids⟩ := Option.map_eq_some_iff.mp hrun
  exact ⟨s, hs, hids, ((kevents_complete_once hs).2 .read).1⟩

/-- An operation that has failed and is then performed with success is completed twice, and the one
behind it not at all. -/
theorem failed_operation_completed_twice :
    ¬ ∀ run s, exec (guarded step Legal) initial run = some s →
      (s.history.completedOf .read ++ (s.data.opQueue .read).map ReactorOp.identity).Perm
        (s.history.startedOf .read) := by
  intro hall
  have hrun : (exec (guarded step Legal) initial
      (twoReads ++ [.run readError fun _ => ⟨.done, 0, 4⟩])).map
      (fun s => (s.history.completedOf .read, s.data.opQueue .read, s.history.startedOf .read)) =
      some ([(0, 1), (0, 1)], [], [(0, 1), (1, 1)]) := by
    decide +kernel
  obtain ⟨s, hs, heq⟩ := Option.map_eq_some_iff.mp hrun
  simp only [Prod.mk.injEq] at heq
  obtain ⟨hcompleted, hqueue, hstarted⟩ := heq
  have hperm := hall _ s hs
  rw [hcompleted, hqueue, hstarted] at hperm
  exact absurd hperm (by decide)

end Runs

end Asio.Detail.Kqueue
