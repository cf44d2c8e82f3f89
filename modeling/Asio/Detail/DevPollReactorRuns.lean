import Asio.Detail.DevPollReactor

/-! What the reactor waits for is what the kernel has been, or will be, asked for. -/

namespace Asio.Detail.DevPollReactor

open Lib Transition WriteBack OpQueues

/-! ### Event masks -/

def Asks (events : Finset Poll) (t : OpType) : Prop := eventOf t ∈ events

theorem mem_interest {wanted : OpType → Bool} {t : OpType} :
    Asks (interest wanted) t ↔ wanted t = true := by
  rw [Asks, interest]
  cases t with
  | read => cases hr : wanted .read <;> cases wanted .write <;> cases wanted .except <;> decide
  | write => cases wanted .read <;> cases hw : wanted .write <;> cases wanted .except <;> decide
  | except => cases wanted .read <;> cases wanted .write <;> cases he : wanted .except <;> decide

theorem pollremove_notMem_interest (wanted : OpType → Bool) : .pollremove ∉ interest wanted := by
  rw [interest]
  cases wanted .read <;> cases wanted .write <;> cases wanted .except <;> decide

theorem entry_interest (d : Int) (wanted : OpType → Bool) :
    Change.entry (⟨d, interest wanted⟩ : PollFd) = some (interest wanted) :=
  if_neg (pollremove_notMem_interest wanted)

/-! ### The invariant -/

def demand (s : State) (d : Int) (t : OpType) : Prop := hasOperation s t d = true

/-- The entries of the poll set after the pending changes. -/
def shownEntries (s : State) : Int → Option (Finset Poll) :=
  shown s.pendingEventChanges.changes s.kernel

def Kept (s : State) (incoming : List Nat) : Prop :=
  Keeps s.opQueue s.started s.completed incoming

structure Sound (s : State) : Prop where
  kept : Kept s []
  covered : Meets Asks (demand s) (shownEntries s)

/-- Operations are taken out of the queues, and nothing is done about the poll set. -/
structure Drains (s s' : State) : Prop where
  kept : Kept s' []
  fewer : ∀ d t, demand s' d t → demand s d t
  pendingEventChanges : s'.pendingEventChanges = s.pendingEventChanges
  kernel : s'.kernel = s.kernel

section Queues

variable {s s' s'' : State} {t t' : OpType} {a : OperationMap.Action Int} {d : Int} {ec : Nat}

theorem Drains.refl (h : Kept s []) : Drains s s := ⟨h, fun _ _ => id, rfl, rfl⟩

theorem Drains.trans (h : Drains s s') (h' : Drains s' s'') : Drains s s'' where
  kept := h'.kept
  fewer d t hd := h.fewer d t (h'.fewer d t hd)
  pendingEventChanges := h'.pendingEventChanges.trans h.pendingEventChanges
  kernel := h'.kernel.trans h.kernel

theorem Sound.drains (h : Sound s) (hs : Drains s s') : Sound s' := by
  refine ⟨hs.kept, ?_⟩
  rw [shownEntries, hs.pendingEventChanges, hs.kernel]
  exact h.covered.mono hs.fewer

theorem Kept.apply (h : Kept s a.enqueued) (t : OpType) : Kept (apply s t a) [] := Keeps.call h t

theorem apply_opQueue_of_ne (h : t' ≠ t) : (apply s t a).opQueue t' = s.opQueue t' :=
  call_of_ne a h

theorem apply_drains (h : Kept s []) (ha : a.enqueued = []) (t : OpType) :
    Drains s (apply s t a) where
  kept := by
    rw [← ha] at h
    exact h.apply t
  fewer d t' hd := by
    obtain ⟨ms, hms⟩ := h.refines
    rw [demand, hasOperation] at hd
    by_cases ht : t' = t
    · subst ht
      have hself : (apply s t' a).opQueue t' = ((s.opQueue t').step a).1 := call_self a
      rw [hself] at hd
      exact hasOperation_of_step (hms t') ha hd
    · rwa [apply_opQueue_of_ne ht] at hd
  pendingEventChanges := rfl
  kernel := rfl

theorem applyAll_drains (h : Kept s []) (ha : a.enqueued = []) : Drains s (applyAll s a) := by
  have hread := apply_drains h ha .read
  have hwrite := apply_drains hread.kept ha .write
  have hexcept := apply_drains hwrite.kept ha .except
  exact (hread.trans hwrite).trans hexcept

theorem applyAll_opQueue (t : OpType) : (applyAll s a).opQueue t = ((s.opQueue t).step a).1 := by
  cases t <;> rfl

theorem cancelOps_drains (h : Kept s []) (d : Int) (ec : Nat) : Drains s (cancelOps s d ec) :=
  applyAll_drains h rfl

theorem not_demand_cancelOps (h : Kept s []) : ¬demand (cancelOps s d ec) d t := by
  obtain ⟨ms, hms⟩ := h.refines
  rw [demand, hasOperation, cancelOps, applyAll_opQueue, hasOperation_cancelOperations (hms t)]
  exact Bool.false_ne_true

end Queues

/-! ### Starting and cancelling -/

section Starts

variable {s : State} {t t' : OpType} {d d' : Int} {op : ReactorOp}

theorem demand_enqueue (h : Kept s [op.id]) :
    demand (apply s t (.enqueueOperation d op)) d' t' ↔ (t' = t ∧ d' = d) ∨ demand s d' t' := by
  obtain ⟨ms, hms⟩ := h.refines
  rw [demand, demand, hasOperation, hasOperation]
  by_cases ht : t' = t
  · subst ht
    have hself : (apply s t' (.enqueueOperation d op)).opQueue t' =
        ((s.opQueue t').step (.enqueueOperation d op)).1 := call_self _
    rw [hself, hasOperation_enqueueOperation (hms t')]
    simp
  · rw [apply_opQueue_of_ne ht]
    simp [ht]

theorem enqueue_sound (h : Kept s [op.id]) (hc : Meets Asks (demand s) (shownEntries s)) :
    Sound (enqueue s t d op) := by
  obtain ⟨ms, hms⟩ := h.refines
  have hkept : Kept (apply s t (.enqueueOperation d op)) [] :=
    Kept.apply (a := .enqueueOperation d op) h t
  rw [enqueue]
  split
  · refine ⟨hkept, hc.recorded (s.pendingEventChanges.change_change d _) (fun t' ht' => ?_)
      fun d' hd t' ht' => ?_⟩
    · refine ⟨_, entry_interest d _, mem_interest.mpr ?_⟩
      have ht' : hasOperation (apply s t (.enqueueOperation d op)) t' d = true := ht'
      rw [ht', Bool.or_true]
    · exact ((demand_enqueue h).mp ht').resolve_left fun heq => hd heq.2
  · rename_i hfirst
    rw [result_enqueueOperation (hms t), Bool.not_eq_true, Bool.not_eq_false'] at hfirst
    refine ⟨hkept, hc.mono fun d' t' hd' => ?_⟩
    rcases (demand_enqueue h).mp hd' with ⟨rfl, rfl⟩ | hd'
    · exact hfirst
    · exact hd'

theorem Sound.startOp (h : Sound s) (t : OpType) (d : Int) (op : ReactorOp)
    (allowSpeculative : Bool) (outcome : ReactorOp.Outcome) :
    Sound (startOp s t d op allowSpeculative outcome) := by
  have harrived : Kept { s with started := s.started ++ [op.id] } [op.id] := h.kept.arrived op
  rw [DevPollReactor.startOp]
  split
  · exact ⟨harrived.posted, h.covered⟩
  · split
    · have hperformed : Kept { s with started := s.started ++ [op.id] }
        [(op.perform outcome).1.id] := harrived
      split
      · rename_i op' heq
        rw [heq] at hperformed
        exact enqueue_sound hperformed h.covered
      · rename_i op' status _ heq
        rw [heq] at hperformed
        exact ⟨hperformed.posted, h.covered⟩
    · exact enqueue_sound harrived h.covered

/-- The change that removes the descriptor comes when it has no operations any more. -/
theorem Sound.deregisterDescriptor (h : Sound s) (d : Int) (ec : Nat) :
    Sound (deregisterDescriptor ec s d) := by
  have hchanged : Kept (changeEvents s d fun _ => {.pollremove}) [] := h.kept
  have hdrains := cancelOps_drains hchanged d ec
  refine ⟨hdrains.kept, ?_⟩
  rw [shownEntries, DevPollReactor.deregisterDescriptor, hdrains.pendingEventChanges,
    hdrains.kernel]
  refine h.covered.recorded (s.pendingEventChanges.change_change d _) (fun t ht => ?_)
    fun d' _ t ht => hdrains.fewer d' t ht
  exact absurd ht (not_demand_cancelOps hchanged)

end Starts

/-! ### Writing -/

section Writes

variable {s : State}

/-- The descriptors whose changes could not all be written lose their operations. -/
theorem cancelChanges_drains (h : Kept s []) (changes : List PollFd) (errno : Nat) :
    Drains s (changes.foldl (fun s ev => cancelOps s ev.fd errno) s) ∧
      ∀ d ∈ changes.map PollFd.fd, ∀ t,
        ¬demand (changes.foldl (fun s ev => cancelOps s ev.fd errno) s) d t := by
  induction changes generalizing s with
  | nil => exact ⟨.refl h, fun d hd => absurd hd List.not_mem_nil⟩
  | cons ev changes ih =>
    have hfirst := cancelOps_drains h ev.fd errno
    obtain ⟨hrest, hnone⟩ := ih hfirst.kept
    refine ⟨hfirst.trans hrest, fun d hd t ht => ?_⟩
    rcases List.mem_cons.mp hd with rfl | hd
    · exact not_demand_cancelOps h (hrest.fewer _ t ht)
    · exact hnone d hd t ht

theorem Sound.writeChanges (h : Sound s) (w : Written) (errno : Nat) :
    Sound (writeChanges s w errno) := by
  rw [DevPollReactor.writeChanges]
  cases hw : w.full with
  | true =>
    refine ⟨h.kept, ?_⟩
    have hkernel : write s.kernel s.pendingEventChanges.changes w =
        writeAll s.kernel s.pendingEventChanges.changes := by rw [write, if_pos hw]
    show Meets Asks (demand s) (write s.kernel s.pendingEventChanges.changes w)
    rw [hkernel]
    exact h.covered.writtenAll s.pendingEventChanges.positions.nodup
  | false =>
    have hkernel : write s.kernel s.pendingEventChanges.changes w =
        writeAll s.kernel (s.pendingEventChanges.changes.take w.applied) := by
      rw [write, hw, if_neg Bool.false_ne_true]
    have hkept : Kept { s with
      kernel := write s.kernel s.pendingEventChanges.changes w } [] := h.kept
    obtain ⟨hdrains, hnone⟩ := cancelChanges_drains hkept s.pendingEventChanges.changes errno
    simp only [Bool.false_eq_true, if_false]
    generalize s.pendingEventChanges.changes.foldl _ _ = s' at hdrains hnone ⊢
    refine ⟨hdrains.kept, ?_⟩
    show Meets Asks (demand s') s'.kernel
    rw [hdrains.kernel, hkernel]
    refine (h.covered.mono hdrains.fewer).abandoned (fun d hd hmem => hd ?_) hnone
    exact List.map_subset _ (List.take_subset _ _) hmem

theorem Sound.prepare (h : Sound s) (usec : Int) (timersEmpty : Bool) (w : Written)
    (errno : Nat) : Sound (prepare s usec timersEmpty w errno) := by
  rw [DevPollReactor.prepare]
  split
  · exact h
  · split
    · exact ⟨h.kept, h.covered⟩
    · have hwritten := h.writeChanges w errno
      exact ⟨hwritten.kept, hwritten.covered⟩

/-- One entry is written, or it is not. -/
theorem write_singleton (kernel : Int → Option (Finset Poll)) (ev : PollFd) (w : Written) :
    write kernel [ev] w = WriteBack.write kernel ev ∨ write kernel [ev] w = kernel := by
  rw [write]
  split
  · exact .inl rfl
  · cases w.applied with
    | zero => exact .inr rfl
    | succ n =>
      rw [List.take_of_length_le (Nat.succ_le_succ (Nat.zero_le n))]
      exact .inl rfl

theorem Sound.wrote (h : Sound s) (ev : PollFd) (w : Written)
    (hev : ∀ t, demand s ev.fd t → ∃ events ∈ Change.entry ev, Asks events t) :
    Sound { s with kernel := write s.kernel [ev] w } := by
  refine ⟨h.kept, ?_⟩
  show Meets Asks (demand s) (shown s.pendingEventChanges.changes (write s.kernel [ev] w))
  rcases write_singleton s.kernel ev w with hwrite | hwrite
  · rw [hwrite]
    exact h.covered.written hev
  · rw [hwrite]
    exact h.covered

end Writes

/-! ### Dispatching -/

section Dispatch

variable {s : State} {e : Event} {t t' : OpType}

theorem performOperations_drains (h : Kept s []) (e : Event) (t : OpType) :
    Drains s (performOperations s e t).1 := by
  rw [performOperations]
  split
  · exact apply_drains h rfl t
  · exact .refl h

theorem performOperations_opQueue_of_ne (ht : t' ≠ t) :
    (performOperations s e t).1.opQueue t' = s.opQueue t' := by
  rw [performOperations]
  split
  · exact apply_opQueue_of_ne ht
  · rfl

/-- The answer is whether the queue is to be waited for. -/
theorem performOperations_more (h : Kept s []) :
    (performOperations s e t).2 = hasOperation (performOperations s e t).1 t e.fd := by
  obtain ⟨ms, hms⟩ := h.refines
  rw [performOperations]
  split
  · rw [hasOperation, ← hasOperation_performOperations (hms t)]
    exact congrArg (ReactorOpQueue.hasOperation · e.fd) (call_self _).symm
  · rfl

theorem performAll_drains (h : Kept s []) (e : Event) : Drains s (performAll s e).1 := by
  have hexcept := performOperations_drains h e .except
  have hread := performOperations_drains hexcept.kept e .read
  have hwrite := performOperations_drains hread.kept e .write
  exact (hexcept.trans hread).trans hwrite

/-- What is found out about one queue stays true while the others are performed. -/
theorem performAll_more (h : Kept s []) (e : Event) (t : OpType) :
    (performAll s e).2 t = hasOperation (performAll s e).1 t e.fd := by
  have hexcept := performOperations_drains h e .except
  have hread := performOperations_drains hexcept.kept e .read
  have hall : (performAll s e).1 = (performOperations (performOperations
      (performOperations s e .except).1 e .read).1 e .write).1 := rfl
  rw [hall, hasOperation]
  cases t with
  | read =>
    rw [performOperations_opQueue_of_ne (show OpType.read ≠ .write by decide)]
    exact performOperations_more hexcept.kept
  | write => exact performOperations_more hread.kept
  | except =>
    rw [performOperations_opQueue_of_ne (show OpType.except ≠ .write by decide),
      performOperations_opQueue_of_ne (show OpType.except ≠ .read by decide)]
    exact performOperations_more h

theorem Sound.dispatchEvent (h : Sound s) (e : Event) : Sound (dispatchEvent s e) := by
  have hdrains := performAll_drains h.kept e
  have hmore := performAll_more h.kept e
  have hsound := h.drains hdrains
  rw [DevPollReactor.dispatchEvent]
  generalize performAll s e = performed at hdrains hmore hsound ⊢
  obtain ⟨s', more⟩ := performed
  simp only at hdrains hmore hsound ⊢
  split
  · exact h
  · split
    · rename_i hnone
      refine hsound.wrote _ _ fun t ht => ?_
      have hfalse := hnone.2 t (by cases t <;> decide)
      rw [hmore] at hfalse
      exact absurd (ht.symm.trans hfalse) (by decide)
    · have hwrote : Sound { s' with
          kernel := write s'.kernel [⟨e.fd, interest more⟩] e.written } := by
        refine hsound.wrote _ _ fun t ht => ?_
        refine ⟨_, entry_interest e.fd more, mem_interest.mpr ?_⟩
        rw [hmore]
        exact ht
      split
      · exact hwrote
      · exact hwrote.drains (cancelOps_drains hwrote.kept e.fd e.errno)

theorem Sound.dispatch (h : Sound s) (events : List Event) : Sound (dispatch s events) := by
  have hawake : Sound { s with blocked := false } := ⟨h.kept, h.covered⟩
  rw [DevPollReactor.dispatch]
  generalize { s with blocked := false } = s' at hawake ⊢
  induction events generalizing s' with
  | nil => exact hawake
  | cons e events ih => exact ih _ (hawake.dispatchEvent e)

end Dispatch

/-! ### Forking -/

section Forks

variable {changes changes' : PendingEventChanges} {d d' : Int} {t t' : OpType} {s : State}

/-- There is a change that asks for the event of the type. -/
def Registered (changes : PendingEventChanges) (d : Int) (t : OpType) : Prop :=
  ∃ events ∈ changes.events d, Asks events t ∧ .pollremove ∉ events

/-- No descriptor comes to be removed, and every one that was asked for still is. -/
structure Grows (changes changes' : PendingEventChanges) : Prop where
  stays : ∀ d, (∀ events ∈ changes.events d, .pollremove ∉ events) →
    ∀ events ∈ changes'.events d, .pollremove ∉ events
  registered : ∀ d t, Registered changes d t → Registered changes' d t

theorem Grows.refl (changes : PendingEventChanges) : Grows changes changes :=
  ⟨fun _ => id, fun _ _ => id⟩

theorem Grows.trans {changes'' : PendingEventChanges} (h : Grows changes changes')
    (h' : Grows changes' changes'') : Grows changes changes'' where
  stays d hd := h'.stays d (h.stays d hd)
  registered d t hd := h'.registered d t (h.registered d t hd)

section Additions

variable {added : Finset Poll} (hadded : .pollremove ∉ added)
include hadded

theorem pollremove_notMem_union (hd : ∀ events ∈ changes.events d, .pollremove ∉ events) :
    .pollremove ∉ (changes.events d).getD ∅ ∪ added := by
  rw [Finset.mem_union, not_or]
  refine ⟨?_, hadded⟩
  cases hevents : changes.events d with
  | none => exact Finset.notMem_empty _
  | some events => exact hd events hevents

theorem change_grows (changes : PendingEventChanges) (d : Int) :
    Grows changes (changes.change d (· ∪ added)) where
  stays d' hd' events hevents := by
    rw [changes.events_change] at hevents
    by_cases hdd : d' = d
    · subst hdd
      rw [Function.update_self] at hevents
      cases hevents
      exact pollremove_notMem_union hadded hd'
    · rw [Function.update_of_ne hdd] at hevents
      exact hd' events hevents
  registered d' t := by
    rintro ⟨events, hevents, hasks, hremove⟩
    rw [Registered, changes.events_change]
    by_cases hdd : d' = d
    · subst hdd
      rw [Function.update_self]
      refine ⟨_, rfl, ?_, pollremove_notMem_union hadded fun events' hevents' => ?_⟩
      · rw [hevents]
        exact Finset.mem_union_left _ hasks
      · cases hevents.symm.trans hevents'
        exact hremove
    · rw [Function.update_of_ne hdd]
      exact ⟨events, hevents, hasks, hremove⟩

theorem change_registered (hasks : Asks added t)
    (hd : ∀ events ∈ changes.events d, .pollremove ∉ events) :
    Registered (changes.change d (· ∪ added)) d t := by
  rw [Registered, changes.events_change, Function.update_self]
  exact ⟨_, rfl, Finset.mem_union_right _ hasks, pollremove_notMem_union hadded hd⟩

theorem changes_registered (changes : PendingEventChanges) (hasks : Asks added t)
    (ds : List Int) :
    Grows changes (ds.foldl (fun changes d => changes.change d (· ∪ added)) changes) ∧
      ∀ d ∈ ds, (∀ events ∈ changes.events d, .pollremove ∉ events) →
        Registered (ds.foldl (fun changes d => changes.change d (· ∪ added)) changes) d t := by
  induction ds generalizing changes with
  | nil => exact ⟨.refl changes, fun d hd => absurd hd List.not_mem_nil⟩
  | cons d ds ih =>
    have hfirst := change_grows hadded changes d
    obtain ⟨hrest, hregistered⟩ := ih (changes.change d (· ∪ added))
    refine ⟨hfirst.trans hrest, fun d' hd' hstays => ?_⟩
    rcases List.mem_cons.mp hd' with rfl | hd'
    · exact hrest.registered d' t (change_registered hadded hasks hstays)
    · exact hregistered d' hd' (hfirst.stays d' hstays)

end Additions

theorem reregister_spec (s : State) (changes : PendingEventChanges) (t : OpType) :
    Grows changes (reregister s changes t) ∧
      ∀ d ∈ descriptors (s.opQueue t), (∀ events ∈ changes.events d, .pollremove ∉ events) →
        Registered (reregister s changes t) d t := by
  refine changes_registered ?_ changes ?_ _
  · cases t <;> decide
  · show eventOf t ∈ ({.pollerr, .pollhup, eventOf t} : Finset Poll)
    cases t <;> decide

/-- Every type is registered when its turn comes, and stays so. -/
theorem reregister_all (s : State) (changes : PendingEventChanges) (t : OpType) (d : Int)
    (hd : d ∈ descriptors (s.opQueue t))
    (hstays : ∀ events ∈ changes.events d, .pollremove ∉ events) :
    Registered (kinds.foldl (reregister s) changes) d t := by
  obtain ⟨hread, hreads⟩ := reregister_spec s changes .read
  obtain ⟨hwrite, hwrites⟩ := reregister_spec s (reregister s changes .read) .write
  obtain ⟨hexcept, hexcepts⟩ :=
    reregister_spec s (reregister s (reregister s changes .read) .write) .except
  cases t with
  | read => exact hexcept.registered d _ (hwrite.registered d _ (hreads d hd hstays))
  | write => exact hexcept.registered d _ (hwrites d hd (hread.stays d hstays))
  | except => exact hexcepts d hd (hwrite.stays d (hread.stays d hstays))

/-- The events that are shown for a descriptor are those of its change, if that does not remove
it. -/
theorem shown_eq (changes : PendingEventChanges) (kernel : Int → Option (Finset Poll)) (d : Int) :
    shown changes.changes kernel d =
      (changes.events d).elim (kernel d) fun events =>
        if .pollremove ∈ events then none else some events := by
  rw [shown, PendingEventChanges.events]
  cases change changes.changes d with
  | none => rfl
  | some ev => rfl

theorem Sound.notifyFork (h : Sound s) (readDescriptor : Int) (w : Written) :
    Sound (notifyFork s readDescriptor w) := by
  obtain ⟨ms, hms⟩ := h.kept.refines
  refine ⟨h.kept, fun d t ht => ?_⟩
  have hmem : d ∈ descriptors (s.opQueue t) := (mem_descriptors_iff (hms t)).mpr ht
  obtain ⟨events, hevents, -⟩ := h.covered d t ht
  rw [shownEntries, shown_eq] at hevents
  obtain ⟨events', hevents', hasks, hremove⟩ :=
    reregister_all s s.pendingEventChanges t d hmem fun events' hevents' hmem' => by
      rw [hevents', Option.elim_some, if_pos hmem'] at hevents
      cases hevents
  refine ⟨events', ?_, hasks⟩
  rw [shownEntries, shown_eq]
  show Option.elim ((kinds.foldl (reregister s) s.pendingEventChanges).events d) _ _ = _
  rw [hevents', Option.elim_some, if_neg hremove]

end Forks

/-! ### Runs -/

section Runs

variable {s : State} {operationAborted : Nat} {readDescriptor : Int} {w : Written}

theorem Sound.step (h : Sound s) {a : Action} {s' : State}
    (hstep : step operationAborted s a = some s') : Sound s' := by
  cases a with
  | startOp t d op allowSpeculative outcome =>
    cases hstep
    exact h.startOp t d op allowSpeculative outcome
  | cancelOps d =>
    cases hstep
    exact h.drains (cancelOps_drains h.kept d operationAborted)
  | cancelOpsByKey t d cancellationKey =>
    cases hstep
    exact h.drains (apply_drains h.kept rfl t)
  | deregisterDescriptor d =>
    cases hstep
    exact h.deregisterDescriptor d operationAborted
  | shutdown =>
    cases hstep
    have hshutdown : Sound { s with shutdown := true } := ⟨h.kept, h.covered⟩
    exact hshutdown.drains (applyAll_drains hshutdown.kept rfl)
  | prepare usec timersEmpty w errno =>
    obtain ⟨-, hstep⟩ := Option.ite_none_left_eq_some.mp hstep
    cases hstep
    exact h.prepare usec timersEmpty w errno
  | dispatch events =>
    obtain ⟨-, hstep⟩ := Option.ite_none_right_eq_some.mp hstep
    cases hstep
    exact h.dispatch events
  | notifyFork readDescriptor w =>
    obtain ⟨-, hstep⟩ := Option.ite_none_left_eq_some.mp hstep
    cases hstep
    exact h.notifyFork readDescriptor w

theorem init_sound (readDescriptor : Int) (w : Written) : Sound (State.init readDescriptor w) where
  kept := keeps_construct
  covered d t ht := by
    rw [demand, hasOperation, State.init, ReactorOpQueue.construct_refines.hasOperation] at ht
    cases ht

/-- The pending change of the descriptor, or the kernel's entry if there is none, has the event. -/
def Covers (s : State) (d : Int) (t : OpType) : Prop :=
  match change s.pendingEventChanges.changes d with
  | some ev => eventOf t ∈ ev.events ∧ .pollremove ∉ ev.events
  | none => ∃ events ∈ s.kernel d, eventOf t ∈ events

theorem Sound.covers {d : Int} {t : OpType} (h : Sound s) (ht : hasOperation s t d = true) :
    Covers s d t := by
  obtain ⟨events, hevents, hasks⟩ := h.covered d t ht
  rw [shownEntries, shown] at hevents
  rw [Covers]
  cases hchange : change s.pendingEventChanges.changes d with
  | none =>
    rw [hchange] at hevents
    exact ⟨events, hevents, hasks⟩
  | some ev =>
    rw [hchange] at hevents
    obtain ⟨hremove, hevents⟩ := Option.ite_none_left_eq_some.mp hevents
    cases hevents
    exact ⟨hasks, hremove⟩

/-- Whatever the order of the calls, what the kernel returns and what it does of the writes, every
operation that waits is waited for, and none is lost or completed twice. -/
theorem dev_poll_reactor_interest
    (h : Reachable (DevPollReactor.step operationAborted) (fun _ _ => True)
      (State.init readDescriptor w) s) :
    (∀ d t, hasOperation s t d = true → Covers s d t) ∧
      (s.pendingEventChanges.changes.map PollFd.fd).Nodup ∧
      s.started.Perm (s.completed.map ReactorOp.id ++ pending s.opQueue) := by
  have hsound : Sound s := by
    refine h.invariant (init_sound readDescriptor w) ?_
    intro s a s' hs _ hstep
    exact hs.step hstep
  refine ⟨fun d t ht => hsound.covers ht, s.pendingEventChanges.positions.nodup, ?_⟩
  have hbalance := hsound.kept.balance
  rwa [List.append_nil] at hbalance

/-- A descriptor is removed and used again before the next write, and then the process is forked. -/
def forkedRun : List Action :=
  [.startOp .read 3 ⟨1, 0, 0, 0⟩ false ⟨.done, 0, 0⟩,
    .startOp .write 3 ⟨2, 0, 0, 0⟩ true ⟨.notDone, 0, 0⟩, .prepare (-1) true ⟨true, 0⟩ 0,
    .startOp .except 4 ⟨3, 0, 0, 0⟩ false ⟨.done, 0, 0⟩,
    .dispatch [⟨3, {.pollout}, fun _ _ => ⟨.done, 0, 5⟩, ⟨true, 0⟩, 0⟩],
    .deregisterDescriptor 4, .startOp .read 4 ⟨4, 0, 0, 0⟩ false ⟨.done, 0, 0⟩,
    .notifyFork 9 ⟨true, 0⟩]

theorem forkedRun_waits :
    (exec (guarded (DevPollReactor.step 125) fun _ _ => True) (State.init 7 ⟨true, 0⟩)
      forkedRun).map (fun s =>
        (s.completed.map ReactorOp.id, pending s.opQueue, hasOperation s .read 3,
          (s.kernel 3).isNone)) =
    some ([2, 3], [1, 4], true, true) := by
  decide +kernel

theorem dev_poll_reactor_interest_forked : ∃ s, s.kernel 3 = none ∧ Covers s 3 .read ∧
    s.started.Perm ([2, 3] ++ [1, 4]) := by
  obtain ⟨s, hrun, hwaits⟩ := Option.map_eq_some_iff.mp forkedRun_waits
  obtain ⟨hcovers, -, hbalance⟩ := dev_poll_reactor_interest (exec_guarded_reachable hrun)
  simp only [Prod.mk.injEq] at hwaits
  obtain ⟨hcompleted, hpending, hread, hkernel⟩ := hwaits
  rw [hcompleted, hpending] at hbalance
  exact ⟨s, Option.isNone_iff_eq_none.mp hkernel, hcovers 3 .read hread, hbalance⟩

end Runs

end Asio.Detail.DevPollReactor
