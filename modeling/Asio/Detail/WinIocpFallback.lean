import Asio.Detail.WinIocpResults

/-! What becomes of the operations when the system has no room for a packet: they wait among the
completed operations until a thread posts them again, without the results that they hold. -/

universe u

namespace Asio.Detail.WinIocpIoContext

open Asio.Lib Transition Interleaving

set_option linter.unusedSectionVars false

/-- How an operation ends when every packet is taken. One that is only posted succeeds. -/
def World.expected (outcome : Nat → Outcome) (w : World) (op : Nat) : Outcome :=
  if op ∈ w.overlapped then outcome op else .pending 0 0

/-- A thread is about to post a result that a packet without a result does not say. -/
def postsMore (outcome : Nat → Outcome) : List Call → Bool
  | .postResult op :: _ => (outcome op).result ≠ .success
  | _ => false

/-! ### Where an operation is -/

/-- An operation is in one place. It waits to be posted only if its result is success. -/
structure Places.Once (given expected : Outcome) (p : Places) : Prop
    extends p.Coherent given expected where
  one : p.starts + p.holds + (if p.ready then p.pends else 0) + p.kernel + p.packets +
    p.invocations + p.deferred = 1
  starting : p.ready = false → p.starts + p.pends + p.deferred = 1

/-- Where a started operation is. -/
structure Traced (outcome : Nat → Outcome) (op : Nat) (w : World) (p : Places) : Prop where
  absent : op ∉ w.started → op ∉ w.overlapped ∧ p.Empty
  once : op ∈ w.started → p.Once (outcome op) (w.expected outcome op)

section Traces

variable {Refused : Prop} {given expected : Outcome} {p p' : Places}

theorem Places.Empty.startOnce (h : p.Empty) :
    { p with starts := p.starts + 1 }.Once given given := by
  obtain ⟨hr, hsum⟩ := h
  constructor
  case toCoherent => constructor <;> grind
  all_goals grind

theorem Places.Empty.defer (h : p.Empty) (hexpected : expected.result = .success) :
    { p with deferred := p.deferred + 1 }.Once given expected := by
  obtain ⟨hr, hsum⟩ := h
  constructor
  case toCoherent => constructor <;> grind
  all_goals grind

theorem Places.Move.once (h : p.Move Refused p')
    (hrefused : Refused → p.ready = true ∧ expected.result = .success)
    (hp : p.Once given expected) : p'.Once given expected := by
  obtain ⟨⟨ha, hu, hg, hd⟩, ho, hs⟩ := hp
  cases h with
  | stay => exact ⟨⟨ha, hu, hg, hd⟩, ho, hs⟩
  | refuse _ h =>
    obtain ⟨hr, hsuccess⟩ := hrefused h
    constructor
    case toCoherent => constructor <;> grind -ring -linarith
    all_goals grind -ring -linarith
  | _ =>
    constructor
    case toCoherent => constructor <;> grind -ring -linarith
    all_goals grind -ring -linarith

theorem Places.Once.le_one (h : p.Once given expected) : p.invocations ≤ 1 := by
  have := h.one
  omega

/-- An operation that is nowhere else has been invoked. -/
theorem Places.Once.invoked (h : p.Once given expected)
    (hzero : p.starts + p.pends + p.holds + p.deferred + p.kernel + p.packets = 0) :
    p.invocations = 1 := by
  have hone := h.one
  cases hr : p.ready with
  | true =>
    rw [hr, if_pos rfl] at hone
    omega
  | false =>
    have := h.starting hr
    omega

variable {outcome : Nat → Outcome} {op : Nat} {w w' : World}

theorem expected_of_overlapped (overlapped : w'.overlapped = w.overlapped) :
    w'.expected outcome op = w.expected outcome op := by
  rw [World.expected, World.expected, overlapped]

/-- Another operation is started. -/
theorem Traced.other {op' : Nat} (h : Traced outcome op w p) (hop : op' ≠ op)
    (started : w'.started = w.started ++ [op'])
    (overlapped : op ∈ w'.overlapped ↔ op ∈ w.overlapped) : Traced outcome op w' p where
  absent hn := by
    rw [overlapped]
    exact h.absent fun hs => hn (by simp [started, hs])
  once hs := by
    rw [started, List.mem_append, List.mem_singleton] at hs
    rw [World.expected, if_congr overlapped rfl rfl]
    exact h.once (hs.resolve_right (Ne.symm hop))

theorem Traced.moved (h : Traced outcome op w p) (hm : Moved Refused op w w' p p')
    (hrefused : Refused → p.ready = true ∧ (w.expected outcome op).result = .success) :
    Traced outcome op w' p' := by
  cases hm with
  | move started overlapped hmove =>
    refine ⟨fun hn => ?_, fun hs => ?_⟩
    · obtain ⟨ho, hempty⟩ := h.absent (started ▸ hn)
      rw [hmove.empty hempty, overlapped]
      exact ⟨ho, hempty⟩
    · rw [expected_of_overlapped overlapped]
      exact hmove.once hrefused (h.once (started ▸ hs))
  | initiate op' hnew started overlapped hplaces =>
    by_cases hop : op' = op
    · subst hop
      refine ⟨fun hn => absurd (by simp [started]) hn, fun _ => ?_⟩
      rw [hplaces, if_pos rfl, World.expected, if_pos (by simp [overlapped])]
      exact (h.absent hnew).2.startOnce
    · rw [hplaces, if_neg hop]
      exact h.other hop started (by simp [overlapped, Ne.symm hop])
  | defer op' hnew started overlapped hplaces =>
    by_cases hop : op' = op
    · subst hop
      obtain ⟨ho, hempty⟩ := h.absent hnew
      refine ⟨fun hn => absurd (by simp [started]) hn, fun _ => ?_⟩
      rw [hplaces, if_pos rfl, World.expected, overlapped, if_neg ho]
      exact hempty.defer rfl
    · rw [hplaces, if_neg hop]
      exact h.other hop started (by rw [overlapped])

end Traces

/-! ### The calls that post -/

/-- `ready_` is set before a result is posted. -/
def Call.Flagged (w : World) : Call → Prop
  | .storeResult op _ | .postResult op => w.ready op = true
  | _ => True

/-- The call will post what waits among the completed operations, or will tell a thread to. -/
@[simp] def Call.dispatches : Call → Nat
  | .collect _ | .requireDispatch => 1
  | _ => 0

/-- The completed operations wait for somebody, if any of them waits. -/
def Attended (n : Nat) (w : World) (calls : List Call) : Prop :=
  w.completedOps ≠ [] → w.dispatchRequired = true ∨ 0 < n + load Call.dispatches calls

/-- What a thread does with `ready_`, the completed operations and `dispatch_required_`. -/
structure Dispatch (w w' : World) (calls calls' : List Call) : Prop where
  ready : ∀ op, w.ready op = true → w'.ready op = true
  flagged : (∀ c ∈ calls, c.Flagged w) → ∀ c ∈ calls', c.Flagged w'
  attended : ∀ n, Attended n w calls → Attended n w' calls'

section Dispatching

variable {given : Nat → Outcome} {w w' : World} {op : Nat} {c : Call} {new calls calls' : List Call}

theorem ready_setReady {op' : Nat} (h : w.ready op = true) : (w.setReady op').ready op = true := by
  by_cases hop : op' = op
  · subst hop
    exact Function.update_self ..
  · rwa [ready_setReady_of_ne hop]

theorem Call.Flagged.mono (h : c.Flagged w) (ready : ∀ op, w.ready op = true → w'.ready op = true) :
    c.Flagged w' := by
  cases c with
  | storeResult | postResult => exact ready _ h
  | _ => exact h

theorem flagged_of_plain (h : new.all Call.plain = true) : ∀ c ∈ new, c.Flagged w := by
  intro c hc
  have hplain := List.all_eq_true.mp h c hc
  cases c with
  | storeResult | postResult => cases hplain
  | _ => trivial

theorem flagged_received (mode : Mode) (p : Packet) : (received mode p).Flagged w := by
  unfold received
  split
  · trivial
  · split
    · trivial
    · trivial

theorem Attended.quiet {n : Nat} (h : Attended n w calls)
    (completedOps : w'.completedOps = w.completedOps)
    (dispatchRequired : w'.dispatchRequired = w.dispatchRequired)
    (dispatches : load Call.dispatches calls ≤ load Call.dispatches calls') :
    Attended n w' calls' := by
  intro hne
  rw [dispatchRequired]
  rcases h (completedOps ▸ hne) with hflag | hpos
  · exact .inl hflag
  · exact .inr (by omega)

/-- The calls of a thread that it leaves alone. -/
theorem Dispatch.rest {rest : List Call} (h : Dispatch w w' calls calls') :
    Dispatch w w' (calls ++ rest) (calls' ++ rest) where
  ready := h.ready
  flagged hall c hc := by
    rcases List.mem_append.mp hc with hc | hc
    · exact h.flagged (fun c hc => hall c (List.mem_append_left _ hc)) c hc
    · exact (hall c (List.mem_append_right _ hc)).mono h.ready
  attended n hn := by
    have := h.attended (n + load Call.dispatches rest)
    simp only [Attended, load_append] at hn this ⊢
    grind

theorem load_dispatches {n : Nat} (hc : c.dispatches = 0) : load Call.dispatches [c] ≤ n := by
  rw [load_cons, load_nil, hc]
  exact Nat.zero_le n

theorem Dispatch.plain (ready : ∀ op, w.ready op = true → w'.ready op = true)
    (completedOps : w'.completedOps = w.completedOps)
    (dispatchRequired : w'.dispatchRequired = w.dispatchRequired)
    (hc : c.dispatches = 0) (hnew : new.all Call.plain = true) : Dispatch w w' [c] new where
  ready := ready
  flagged _ := flagged_of_plain hnew
  attended _ h := h.quiet completedOps dispatchRequired (load_dispatches hc)

/-- The initiating function sets `ready_`. -/
theorem Dispatch.setReady {op' : Nat} (hc : c.dispatches = 0)
    (hnew : ∀ c ∈ new, c.Flagged (w.setReady op')) : Dispatch w (w.setReady op') [c] new where
  ready _ := ready_setReady
  flagged _ := hnew
  attended _ h := h.quiet rfl rfl (load_dispatches hc)

theorem advance_dispatch (hadv : advance given w c = some (w', new)) : Dispatch w w' [c] new := by
  cases c with
  | doOne mode =>
    cases hadv
    refine ⟨fun _ hr => hr, fun _ => flagged_of_plain ?_, fun n h hne => .inr ?_⟩
    · split
      · rfl
      · rfl
    · split
      · simp
      · rename_i hflag
        have := (h hne).resolve_left hflag
        simpa using this
  | collect mode =>
    cases hadv
    exact ⟨fun _ hr => hr, fun _ => flagged_of_plain rfl, fun n h hne => absurd rfl hne⟩
  | pushCompleted op' =>
    cases hadv
    exact ⟨fun _ hr => hr, fun _ => flagged_of_plain rfl, fun n h hne => .inr (by simp)⟩
  | requireDispatch =>
    cases hadv
    exact ⟨fun _ hr => hr, fun _ => flagged_of_plain rfl, fun n h hne => .inl rfl⟩
  | onPending op' =>
    cases hadv
    refine .setReady rfl ?_
    split
    · rintro _ (_ | ⟨_, ⟨⟩⟩)
      exact Function.update_self ..
    · rintro _ ⟨⟩
  | onCompletion op' r =>
    cases hadv
    refine .setReady rfl ?_
    rintro _ (_ | ⟨_, ⟨⟩⟩)
    exact Function.update_self ..
  | storeResult op' r =>
    cases hadv
    refine ⟨fun _ hr => hr, fun hall => ?_, fun n h => h.quiet rfl rfl (by simp)⟩
    rintro _ (_ | ⟨_, ⟨⟩⟩)
    exact hall _ (List.mem_singleton_self _)
  | exchangeReady mode op' r =>
    simp only [advance] at hadv
    split at hadv
    · cases hadv
      exact .plain (fun _ hr => hr) rfl rfl rfl rfl
    · cases hadv
      exact .setReady rfl (flagged_of_plain rfl)
  | postDeferred op' =>
    cases hadv
    exact .plain (fun _ => ready_setReady) rfl rfl rfl rfl
  | postDeferredAll mode ops =>
    cases ops with
    | nil =>
      cases hadv
      exact .plain (fun _ hr => hr) rfl rfl rfl rfl
    | cons op' ops =>
      cases hadv
      exact .plain (fun _ => ready_setReady) rfl rfl rfl rfl
  | initiate op' =>
    simp only [advance] at hadv
    split at hadv
    · cases hadv
      refine ⟨fun _ hr => hr, fun _ => ?_, fun n h => h.quiet rfl rfl (load_dispatches rfl)⟩
      rintro _ (_ | ⟨_, ⟨⟩⟩)
      trivial
    · cases hadv
      refine ⟨fun _ hr => hr, fun _ => ?_, fun n h => h.quiet rfl rfl (load_dispatches rfl)⟩
      rintro _ (_ | ⟨_, ⟨⟩⟩)
      trivial
  | getQueued mode =>
    simp only [advance] at hadv
    split at hadv
    · cases hadv
    · cases hadv
      refine ⟨fun _ hr => hr, fun _ => ?_, fun n h => h.quiet rfl rfl (load_dispatches rfl)⟩
      rintro _ (_ | ⟨_, ⟨⟩⟩)
      exact flagged_received ..
  | dequeued mode op' key r =>
    simp only [advance] at hadv
    split at hadv
    · cases hadv
      refine ⟨fun _ hr => hr, fun _ => ?_, fun n h => h.quiet rfl rfl (load_dispatches rfl)⟩
      rintro _ (_ | ⟨_, ⟨⟩⟩)
      trivial
    · cases hadv
      refine ⟨fun _ hr => hr, fun _ => ?_, fun n h => h.quiet rfl rfl (load_dispatches rfl)⟩
      rintro _ (_ | ⟨_, ⟨⟩⟩)
      trivial
  | postResult op' | stopPost | repostStop mode | complete mode op' | clearStop mode =>
    cases hadv
    exact .plain (fun _ hr => hr) rfl rfl rfl rfl
  | stop | stopEvent | workFinished | run mode | blockExit mode op' | completed mode
  | checkStopped mode | exchangeStop mode =>
    cases hadv
    refine .plain (fun _ hr => hr) rfl rfl rfl ?_
    split
    · rfl
    · rfl

theorem postFailed_dispatch (hpost : postFailed w c = some (w', new)) :
    Dispatch w w' [c] new := by
  cases c with
  | stopPost | repostStop mode | postResult op' =>
    cases hpost
    exact .plain (fun _ hr => hr) rfl rfl rfl rfl
  | postDeferred op' =>
    cases hpost
    exact .plain (fun _ => ready_setReady) rfl rfl rfl rfl
  | postDeferredAll mode ops =>
    cases ops with
    | nil => cases hpost
    | cons op' ops =>
      cases hpost
      exact ⟨fun _ => ready_setReady, fun _ => flagged_of_plain rfl, fun n h hne => .inl rfl⟩
  | _ => cases hpost

/-- A thread takes up calls or gives them up, and posts nothing. -/
theorem Dispatch.other (ready : w'.ready = w.ready)
    (completedOps : w'.completedOps = w.completedOps)
    (dispatchRequired : w.dispatchRequired = true → w'.dispatchRequired = true)
    (dispatches : load Call.dispatches calls ≤ load Call.dispatches calls')
    (flagged : ∀ c ∈ calls', c ∈ calls ∨ c.Flagged w') : Dispatch w w' calls calls' where
  ready op hr := by rwa [ready]
  flagged hall c hc := by
    rcases flagged c hc with hc | hc
    · exact (hall c hc).mono fun op hr => by rwa [ready]
    · exact hc
  attended n h hne := by
    rcases h (completedOps ▸ hne) with hflag | hpos
    · exact .inl (dispatchRequired hflag)
    · exact .inr (by omega)

/-- A thread takes up one more call. -/
theorem Dispatch.push (ready : w'.ready = w.ready) (completedOps : w'.completedOps = w.completedOps)
    (dispatchRequired : w'.dispatchRequired = w.dispatchRequired) (hc : c.Flagged w') :
    Dispatch w w' calls (c :: calls) := by
  refine .other ready completedOps (fun h => dispatchRequired ▸ h) (by simp) (List.forall_mem_cons.mpr ⟨.inr hc, fun c' hc' => ?_⟩)
  exact .inl hc'

theorem perform_dispatch {ι : Type u} {i : ι} {a : Action}
    (hperform : perform given i w calls a = some (w', calls')) : Dispatch w w' calls calls' := by
  cases perform_performs hperform with
  | step rest hadv => exact (advance_dispatch hadv).rest
  | postFails rest hpost => exact (postFailed_dispatch hpost).rest
  | stop | run mode | workFinished | initiate op' | post op' => exact .push rfl rfl rfl trivial
  | restart | workStarted | timerReady op' | deliver op' | wake =>
    exact .other rfl rfl id le_rfl fun c hc => .inl hc
  | throws mode op' rest =>
    refine .other rfl rfl id (by simp) (List.forall_mem_cons.mpr ⟨.inr trivial, fun c hc => ?_⟩)
    exact .inl (List.mem_cons_of_mem _ hc)
  | timeout mode rest =>
    split
    · refine .other rfl rfl id (by simp) (List.forall_mem_cons.mpr ⟨.inr trivial, fun c hc => ?_⟩)
      exact .inl (List.mem_cons_of_mem _ hc)
    · exact .other rfl rfl id (by simp) fun c hc => .inl (List.mem_cons_of_mem _ hc)
  | getQueuedFails mode rest =>
    exact .other rfl rfl id (by simp) fun c hc => .inl (List.mem_cons_of_mem _ hc)
  | timerExpired => exact .other rfl rfl (fun _ => rfl) le_rfl fun c hc => .inl hc

end Dispatching

/-! ### The threads together -/

section Threads

variable {ι : Type u} [Fintype ι] [DecidableEq ι] {outcome : Nat → Outcome} {s s' : State ι}
variable {op : Nat}

/-- The results that are about to be posted are there, and nobody forgets the completed
operations. -/
structure Attentive (s : State ι) : Prop where
  flagged : ∀ i, ∀ c ∈ s.part i, c.Flagged s.shared
  attended : s.shared.completedOps ≠ [] →
    s.shared.dispatchRequired = true ∨ 0 < s.weight Call.dispatches

theorem step_attentive {a : ι × Action} (h : Attentive s) (hstep : step outcome s a = some s') :
    Attentive s' := by
  obtain ⟨w, calls, hperform, rfl⟩ := step_eq_some.mp hstep
  have hdispatch := perform_dispatch hperform
  refine ⟨fun j c hc => ?_, ?_⟩
  · by_cases hj : j = a.1
    · subst hj
      rw [part_set_self] at hc
      exact hdispatch.flagged (h.flagged a.1) c hc
    · rw [part_set_of_ne hj] at hc
      exact (h.flagged j c hc).mono hdispatch.ready
  · have hle := load_le_weight (s := s) Call.dispatches a.1
    have hattended := hdispatch.attended
      (s.weight Call.dispatches - load Call.dispatches (s.part a.1))
    rw [Attended, Attended, Nat.sub_add_cancel hle, weight_sub_load _ s a.1 w calls] at hattended
    exact hattended h.attended

theorem initial_attentive : Attentive (initial : State ι) where
  flagged _ _ hc := by cases hc
  attended hne := absurd rfl hne

/-- There is no room for the packet with a result that is not success. -/
def forgets (outcome : Nat → Outcome) (s : State ι) (a : ι × Action) : Bool :=
  a.2 = .postFails && postsMore outcome (s.part a.1)

theorem reachable_attentive {ok : State ι → ι × Action → Prop}
    (h : Reachable (step outcome) ok initial s) : Attentive s :=
  h.invariant initial_attentive fun hs _ hstep => step_attentive hs hstep

theorem expected_success {w : World} (h : (outcome op).result = .success) :
    (w.expected outcome op).result = .success := by
  unfold World.expected
  split
  · exact h
  · rfl

theorem step_traced {a : ι × Action} (hkeeps : forgets outcome s a = false) (hs : Attentive s)
    (h : Traced outcome op s.shared (places op (everyone s op) s.shared []))
    (hstep : step outcome s a = some s') :
    Traced outcome op s'.shared (places op (everyone s' op) s'.shared []) := by
  have hrefused : a.2 = .postFails → (s.part a.1).head? = some (.postResult op) →
      s.shared.ready op = true ∧ (s.shared.expected outcome op).result = .success := by
    intro hfails hhead
    obtain ⟨rest, hrest⟩ := List.head?_eq_some_iff.mp hhead
    have hmem : Call.postResult op ∈ s.part a.1 := by simp [hrest]
    refine ⟨hs.flagged a.1 _ hmem, expected_success ?_⟩
    simpa [forgets, hfails, hrest, postsMore] using hkeeps
  exact h.moved (step_moved _ op hrefused hstep) fun h => h

theorem initial_traced :
    Traced outcome op World.construct
      (places op (everyone (initial : State ι) op) .construct []) where
  absent _ := by
    have hweight (φ : Call → Nat) : (initial : State ι).weight φ = 0 :=
      (total_eq_zero _ _).mpr fun _ => rfl
    simp only [places, everyone, hweight]
    exact ⟨List.not_mem_nil, rfl, rfl⟩
  once hs := by cases hs

theorem reachable_traced (op : Nat)
    (h : Reachable (step outcome) (fun s a => forgets outcome s a = false) initial s) :
    Traced outcome op s.shared (places op (everyone s op) s.shared []) :=
  h.invariant_with
    (I := fun s => Traced outcome op s.shared (places op (everyone s op) s.shared []))
    (fun h => reachable_attentive h) initial_traced
    fun hs htraced hkeeps hstep => step_traced hkeeps hs htraced hstep

/-- What is expected of an operation does not change any more. -/
theorem step_expected {a : ι × Action} (hs : op ∈ s.shared.started)
    (hstep : step outcome s a = some s') :
    s'.shared.expected outcome op = s.shared.expected outcome op := by
  cases step_moved True op (fun _ _ => trivial) hstep with
  | move _ overlapped | defer _ _ _ overlapped => exact expected_of_overlapped overlapped
  | initiate op' hnew _ overlapped =>
    have hne : op ≠ op' := fun hop => hnew (hop ▸ hs)
    simp [World.expected, overlapped, hne]

/-- The result that is expected of an operation is carried by whatever has it. -/
def ExpectedBorne (outcome : Nat → Outcome) (op : Nat) (s : State ι) : Prop :=
  op ∈ s.shared.started → Borne (fun _ => s.shared.expected outcome op) op s

theorem step_expectedBorne {a : ι × Action}
    (htraced : Traced outcome op s.shared (places op (everyone s op) s.shared []))
    (h : ExpectedBorne outcome op s) (hstep : step outcome s a = some s') :
    ExpectedBorne outcome op s' := by
  intro _
  by_cases hs : op ∈ s.shared.started
  · rw [step_expected hs hstep]
    exact step_borne (htraced.once hs).toCoherent (h hs) hstep
  · obtain ⟨-, hempty⟩ := htraced.absent hs
    exact step_borne hempty.coherent (borne_of_empty hempty) hstep

theorem reachable_expectedBorne
    (h : Reachable (step outcome) (fun s a => forgets outcome s a = false) initial s) :
    ExpectedBorne outcome op s :=
  h.invariant_with (fun h => reachable_traced op h) (fun hs => by cases hs)
    fun htraced hborne _ hstep => step_expectedBorne htraced hborne hstep

/-- However often the system has no room for a packet, unless for one with a result that is not
success, an operation is invoked once, with the result that it has when every packet is taken, and
none waits among the completed operations without somebody to post it. -/
theorem keeps_results
    (h : Reachable (step outcome) (fun s a => forgets outcome s a = false) initial s)
    (hs : op ∈ s.shared.started) :
    s.shared.invocations op ≤ 1 ∧
      (∀ r, (op, r) ∈ s.shared.invoked → r = (s.shared.expected outcome op).result) ∧
      (s.shared.completedOps ≠ [] →
        s.shared.dispatchRequired = true ∨ ∃ i, ∃ c ∈ s.part i, 0 < c.dispatches) ∧
      (op ∉ s.shared.kernel → s.shared.packets op = 0 → s.shared.deferred op = 0 →
        (∀ i, ∀ c ∈ s.part i, c.involves op = false) → s.shared.invocations op = 1) := by
  have hu := (reachable_traced op h).once hs
  refine ⟨hu.le_one, fun r hr => ?_, fun hne => ?_, fun hkernel hpackets hdeferred hcalls => ?_⟩
  · exact (reachable_expectedBorne h hs).world.handler (op, r) hr rfl
  · exact ((reachable_attentive h).attended hne).imp_right fun hpos => weight_pos hpos
  · refine hu.invoked ?_
    rw [everyone_of_not_involves hcalls]
    simp only [places, load_nil, hpackets, hdeferred, List.count_eq_zero.mpr hkernel]

end Threads

/-- The packet of operation 7 is refused, which has succeeded, and that of operation 8, which is
only posted. -/
def successesRefused : List (Fin 2 × Action) :=
  [(0, .initiate 7), (0, .step), (0, .step), (0, .step), (0, .postFails), (0, .step), (0, .step),
    (0, .post 8), (0, .postFails), (0, .step), (0, .step), (1, .run ⟨true, true⟩)] ++
    List.replicate 28 (1, .step)

theorem successesRefused_completes :
    (exec (guarded (step fun _ => .immediate ⟨.system, 0⟩ 0)
      fun s a => forgets (fun _ => .immediate ⟨.system, 0⟩ 0) s a = false) initial
      successesRefused).map (fun s => (s.shared.started, s.shared.overlapped, s.shared.kernel,
        s.shared.packets 7 + s.shared.deferred 7, s.part 0 ++ s.part 1)) =
    some ([7, 8], [7], [], 0, []) := by
  decide +kernel

theorem keeps_results_refused : ∃ s : State (Fin 2),
    s.shared.invocations 7 = 1 ∧ ∀ r, (7, r) ∈ s.shared.invoked → r = .success := by
  obtain ⟨s, hs, heq⟩ := Option.map_eq_some_iff.mp successesRefused_completes
  simp only [Prod.mk.injEq] at heq
  obtain ⟨hstarted, hoverlapped, hkernel, hplaces, hcalls⟩ := heq
  obtain ⟨h0, h1⟩ := List.append_eq_nil_iff.mp hcalls
  obtain ⟨-, hresult, -, hdone⟩ := keeps_results (exec_guarded_reachable hs)
    (show 7 ∈ s.shared.started by simp [hstarted])
  refine ⟨s, hdone (by simp [hkernel]) (by omega) (by omega) ?_, fun r hr => ?_⟩
  · exact Fin.forall_fin_two.mpr ⟨fun c hc => by simp [h0] at hc, fun c hc => by simp [h1] at hc⟩
  · rw [hresult r hr, World.expected, if_pos (by simp [hoverlapped])]
    rfl

/-- The packet of an operation is refused that has failed at once. -/
def failureRefused : List (Fin 2 × Action) :=
  [(0, .initiate 7), (0, .step), (0, .step), (0, .step), (0, .postFails), (0, .step), (0, .step),
    (1, .run ⟨true, true⟩)] ++ List.replicate 8 (1, .step)

theorem failureRefused_invokes :
    (exec (guarded (step fun _ => .immediate ⟨.system, 10054⟩ 0) fun _ _ => True) initial
      failureRefused).map (fun s => (s.shared.overlapped, s.shared.started, s.shared.invoked)) =
    some ([7], [7], [(7, .success)]) := by
  decide +kernel

theorem not_keeps_results :
    ¬∀ (outcome : Nat → Outcome) (s : State (Fin 2)) (op : Nat) (r : Result),
      Reachable (step outcome) (fun _ _ => True) initial s → op ∈ s.shared.started →
      (op, r) ∈ s.shared.invoked → r = (s.shared.expected outcome op).result := by
  intro hclaim
  obtain ⟨s, hs, heq⟩ := Option.map_eq_some_iff.mp failureRefused_invokes
  simp only [Prod.mk.injEq] at heq
  obtain ⟨hoverlapped, hstarted, hinvoked⟩ := heq
  have hresult := hclaim _ s 7 .success (exec_guarded_reachable hs) (by simp [hstarted])
    (by simp [hinvoked])
  rw [World.expected, if_pos (by simp [hoverlapped])] at hresult
  revert hresult
  decide

end Asio.Detail.WinIocpIoContext
