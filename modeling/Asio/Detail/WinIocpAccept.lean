import Mathlib.Data.List.Count
import Asio.Lib.Transition
import Asio.Detail.WinIocpIoContext

/-! An accept operation on a completion port, which is reset and submitted again when a connection
is aborted before it is accepted. -/

namespace Asio.Detail.WinIocpAccept

open Asio.Lib.Transition

abbrev ErrorCode := WinIocpIoContext.ErrorCode

def operationAborted : ErrorCode := ⟨.system, 995⟩

def connectionAborted : ErrorCode := ⟨.system, 10053⟩

def badDescriptor : ErrorCode := ⟨.system, 10009⟩

def alreadyOpen : ErrorCode := ⟨.other, 1⟩

/-- `ERROR_NETNAME_DELETED` -/
def netnameDeleted : Nat := 64

/-- `WSA_IO_PENDING` -/
def ioPending : Nat := 997

/-! ### The calls that submit the operation -/

/-- The accept operation, or the object in the cancellation slot that stands in for it. -/
inductive Operation
  | accept | proxy
  deriving DecidableEq

structure Config where
  enableConnectionAborted : Bool
  proxy : Bool
  deriving DecidableEq

/-- `proxy_op_ ? proxy_op_ : o` -/
def Config.op (config : Config) : Operation := if config.proxy then .proxy else .accept

/-- What the system answers to `socket` and to `AcceptEx`. -/
structure Attempt where
  socket : Except ErrorCode Nat
  result : Bool
  lastError : Nat

/-- What a call does to the io_context and to the system, in order. -/
inductive Effect
  | workStarted
  | acceptEx (op : Operation) (newSocket : Nat) (taken : Bool)
  | cancelIoEx (op : Operation)
  | onCompletion (op : Operation) (ec : ErrorCode)
  | onPending (op : Operation)
  deriving DecidableEq

def Attempt.taken (a : Attempt) : Bool := a.result || a.lastError = ioPending

/-- The part that both calls share. -/
def submit (op : Operation) (a : Attempt) (recheck : List Effect) : List Effect :=
  match a.socket with
  | .error ec => [.onCompletion op ec]
  | .ok newSocket =>
    .acceptEx op newSocket a.taken ::
      if a.taken then recheck ++ [.onPending op] else [.onCompletion op ⟨.system, a.lastError⟩]

def startAcceptOp (op : Operation) (isOpen peerIsOpen : Bool) (a : Attempt) : List Effect :=
  .workStarted ::
    if !isOpen then [.onCompletion op badDescriptor]
    else if peerIsOpen then [.onCompletion op alreadyOpen]
    else submit op a []

/-- The flag is looked at twice, where there is one. -/
def restartAcceptOp (op : Operation) (cancelRequested : Option (Int × Int)) (a : Attempt) :
    List Effect :=
  .workStarted ::
    ((if cancelRequested.any (·.1 = 1) then [.onCompletion op operationAborted] else []) ++
      submit op a (if cancelRequested.any (·.2 = 1) then [.cancelIoEx op] else []))

inductive Call
  | start (isOpen peerIsOpen : Bool) (attempt : Attempt)
  | restart (cancelRequested : Int × Int) (attempt : Attempt)

def Call.effects (config : Config) : Call → List Effect
  | .start isOpen peerIsOpen attempt => startAcceptOp config.op isOpen peerIsOpen attempt
  | .restart cancelRequested attempt =>
    restartAcceptOp config.op (if config.proxy then some cancelRequested else none) attempt

/-- The first of the two checks finds that the operation has been cancelled. -/
def Call.seesCancel (config : Config) : Call → Bool
  | .start .. => false
  | .restart cancelRequested _ => config.proxy && cancelRequested.1 = 1

def Effect.handsOver : Effect → Bool
  | .onCompletion .. | .onPending _ => true
  | _ => false

def Effect.startsAccept : Effect → Bool
  | .acceptEx .. => true
  | _ => false

/-- A call hands the operation to the completion port once, counts it once, and starts nothing on it
afterwards. -/
structure HandsOverOnce (effects : List Effect) : Prop where
  once : effects.countP Effect.handsOver = 1
  counted : effects.count .workStarted = 1
  last : effects.Pairwise fun e e' => e.handsOver = true → e'.startsAccept = false

theorem submit_handsOver (op : Operation) (a : Attempt) {recheck : List Effect}
    (h : recheck.countP Effect.handsOver = 0) :
    (submit op a recheck).countP Effect.handsOver = 1 := by
  unfold submit
  split
  · rfl
  · rw [List.countP_cons]
    split
    · rw [List.countP_append, h]
      rfl
    · rfl

theorem submit_counted (op : Operation) (a : Attempt) {recheck : List Effect}
    (h : recheck.count .workStarted = 0) : (submit op a recheck).count .workStarted = 0 := by
  unfold submit
  split
  · rfl
  · rw [List.count_cons]
    split
    · rw [List.count_append, h]
      rfl
    · rfl

theorem submit_last (op : Operation) (a : Attempt) {recheck : List Effect}
    (h : recheck.all fun e => !e.startsAccept) :
    (submit op a recheck).Pairwise fun e e' => e.handsOver = true → e'.startsAccept = false := by
  unfold submit
  split
  · exact List.pairwise_singleton ..
  · refine List.pairwise_cons.mpr ⟨fun e _ hover => Bool.noConfusion hover, ?_⟩
    split
    · apply List.pairwise_of_forall_mem_list
      intro e _ e' he' _
      rcases List.mem_append.mp he' with he' | he'
      · exact Bool.not_eq_true' _ |>.mp (List.all_eq_true.mp h e' he')
      · rw [List.mem_singleton.mp he']
        rfl
    · exact List.pairwise_singleton ..

theorem start_handsOverOnce (op : Operation) (isOpen peerIsOpen : Bool) (a : Attempt) :
    HandsOverOnce (startAcceptOp op isOpen peerIsOpen a) := by
  unfold startAcceptOp
  split
  · exact ⟨rfl, rfl, by simp [Effect.startsAccept]⟩
  · split
    · exact ⟨rfl, rfl, by simp [Effect.startsAccept]⟩
    · refine ⟨?_, ?_, ?_⟩
      · rw [List.countP_cons, submit_handsOver op a rfl]
        rfl
      · rw [List.count_cons, submit_counted op a rfl]
        rfl
      · exact List.pairwise_cons.mpr ⟨fun e _ hover => Bool.noConfusion hover, submit_last op a rfl⟩

theorem restart_handsOverOnce_iff (op : Operation) (cancelRequested : Option (Int × Int))
    (a : Attempt) : HandsOverOnce (restartAcceptOp op cancelRequested a) ↔
      cancelRequested.any (·.1 = 1) = false := by
  have hrecheck (p : Bool) :
      (if p then [Effect.cancelIoEx op] else []).countP Effect.handsOver = 0 ∧
      (if p then [Effect.cancelIoEx op] else []).count .workStarted = 0 ∧
        (if p then [Effect.cancelIoEx op] else []).all fun e => !e.startsAccept := by
    cases p with
    | false => exact ⟨rfl, rfl, rfl⟩
    | true => exact ⟨rfl, rfl, rfl⟩
  obtain ⟨hhands, hcounted, hlast⟩ := hrecheck (cancelRequested.any (·.2 = 1))
  unfold restartAcceptOp
  cases hseen : cancelRequested.any (·.1 = 1) with
  | false =>
    refine iff_of_true ⟨?_, ?_, ?_⟩ rfl
    · rw [List.countP_cons, if_neg Bool.false_ne_true, List.nil_append,
        submit_handsOver op a hhands]
      rfl
    · rw [List.count_cons, if_neg Bool.false_ne_true, List.nil_append, submit_counted op a hcounted]
      rfl
    · exact List.pairwise_cons.mpr ⟨fun e _ hover => Bool.noConfusion hover, submit_last op a hlast⟩
  | true =>
    refine iff_of_false (fun h => ?_) Bool.noConfusion
    have honce := h.once
    rw [List.countP_cons, if_pos rfl, List.countP_append, submit_handsOver op a hhands] at honce
    cases honce

theorem Call.handsOverOnce_iff (config : Config) (c : Call) :
    HandsOverOnce (c.effects config) ↔ c.seesCancel config = false := by
  cases c with
  | start isOpen peerIsOpen attempt =>
    exact iff_of_true (start_handsOverOnce config.op isOpen peerIsOpen attempt) rfl
  | restart cancelRequested attempt =>
    refine (restart_handsOverOnce_iff ..).trans ?_
    cases hproxy : config.proxy with
    | false => simp [seesCancel, hproxy]
    | true => simp [seesCancel, hproxy]

/-! ### The run of one operation -/

/-- What the operation's completion is given, and what the system answers meanwhile. -/
structure Completion where
  ec : ErrorCode
  updateContext : ErrorCode
  assign : ErrorCode
  cancelRequested : Int × Int
  attempt : Attempt

/-- The result after the address of the peer is known and the new socket's context is set. -/
def completeIocpAccept (ec updateContext : ErrorCode) : ErrorCode :=
  let ec := if ec.value = netnameDeleted then connectionAborted else ec
  if ec.value = 0 then updateContext else ec

/-- The submitted operation and the io_context: what the system works on, the packets for it, the
calls of `on_pending` that have not come to `ready_`, and what the handler was invoked with. -/
structure State where
  started : Bool
  ready : Bool
  kernel : Nat
  packets : Nat
  pending : Nat
  outstandingWork : Int
  invoked : List ErrorCode
  calls : List Call

def initial : State := ⟨false, false, 0, 0, 0, 0, [], []⟩

def State.effect (s : State) : Effect → State
  | .workStarted => { s with outstandingWork := s.outstandingWork + 1 }
  | .acceptEx _ _ taken => if taken then { s with kernel := s.kernel + 1 } else s
  | .cancelIoEx _ => s
  | .onCompletion .. => { s with ready := true, packets := s.packets + 1 }
  | .onPending _ => { s with pending := s.pending + 1 }

def State.call (config : Config) (s : State) (c : Call) : State :=
  (c.effects config).foldl State.effect { s with calls := s.calls ++ [c] }

/-- The completion of the accept operation, also when it is the stand-in that completes. -/
def State.complete (config : Config) (s : State) (c : Completion) : State :=
  let ec := completeIocpAccept c.ec c.updateContext
  if ec = connectionAborted ∧ config.enableConnectionAborted = false then
    { s with ready := false }.call config (.restart c.cancelRequested c.attempt)
  else
    { s with invoked := s.invoked ++ [if ec.value = 0 then c.assign else ec] }

/-- `exchange` is the one access of `on_pending`, `deliver` the packet of the system. -/
inductive Action
  | start (isOpen peerIsOpen : Bool) (attempt : Attempt)
  | exchange
  | deliver
  | dequeue (c : Completion)

/-- An operation whose handler has been invoked is freed. -/
def step (config : Config) (s : State) : Action → Option State
  | .start isOpen peerIsOpen attempt =>
    if s.started then none
    else some ({ s with started := true }.call config (.start isOpen peerIsOpen attempt))
  | .exchange =>
    if s.pending = 0 then none
    else if s.ready then some { s with pending := s.pending - 1, packets := s.packets + 1 }
    else some { s with pending := s.pending - 1, ready := true }
  | .deliver =>
    if s.kernel = 0 then none
    else some { s with kernel := s.kernel - 1, packets := s.packets + 1 }
  | .dequeue c =>
    if s.packets = 0 ∨ s.invoked ≠ [] then none
    else if s.ready then
      let s := { s with packets := s.packets - 1 }.complete config c
      some { s with outstandingWork := s.outstandingWork - 1 }
    else some { s with packets := s.packets - 1, ready := true }

/-- What is under way for the operation. -/
def State.underWay (s : State) : Nat := s.kernel + s.packets + s.pending

/-- Each call hands the operation over once. Its handler is invoked once, which is when nothing is
under way for it any more, and its work is counted until then. -/
structure State.Once (config : Config) (s : State) : Prop where
  calls : ∀ c ∈ s.calls, HandsOverOnce (c.effects config)
  atMostOnce : s.invoked.length ≤ 1
  invoked : s.started = true → s.underWay = 0 → s.invoked.length = 1
  freed : s.invoked ≠ [] → s.underWay = 0
  work : s.outstandingWork = if s.started = true ∧ s.invoked = [] then 1 else 0

/-- While the handler has not been invoked the operation is with the system or in one packet, or
its packet has come before `on_pending`. -/
structure State.HandedOver (s : State) : Prop where
  invoked : s.invoked = []
  one : s.kernel + s.packets + (if s.ready then s.pending else 0) = 1
  pending : s.pending ≤ 1
  unready : s.ready = false → s.pending = 1

/-- Nothing is under way and the operation has been reset. -/
def State.Idle (s : State) : Prop := s.ready = false ∧ s.underWay = 0 ∧ s.invoked = []

/-- What the invariant says before the operation is started, until it is done, and then. -/
inductive State.Sane (s : State) : Prop
  | fresh (started : s.started = false) (idle : s.Idle) (work : s.outstandingWork = 0)
  | running (started : s.started = true) (handedOver : s.HandedOver) (work : s.outstandingWork = 1)
  | done (started : s.started = true) (invoked : s.invoked.length = 1) (underWay : s.underWay = 0)
    (work : s.outstandingWork = 0)

section Runs

variable {config : Config} {s s' : State} {a : Action}

theorem effect_frame (s : State) (e : Effect) : (s.effect e).calls = s.calls ∧
    (s.effect e).started = s.started ∧ (s.effect e).invoked = s.invoked := by
  cases e with
  | acceptEx op newSocket taken =>
    cases taken with
    | false => exact ⟨rfl, rfl, rfl⟩
    | true => exact ⟨rfl, rfl, rfl⟩
  | workStarted | cancelIoEx | onCompletion | onPending => exact ⟨rfl, rfl, rfl⟩

theorem foldl_effect_frame (s : State) (effects : List Effect) :
    (effects.foldl State.effect s).calls = s.calls ∧
      (effects.foldl State.effect s).started = s.started ∧
        (effects.foldl State.effect s).invoked = s.invoked := by
  induction effects generalizing s with
  | nil => exact ⟨rfl, rfl, rfl⟩
  | cons e effects ih =>
    obtain ⟨hcalls, hstarted, hinvoked⟩ := effect_frame s e
    obtain ⟨hcalls', hstarted', hinvoked'⟩ := ih (s.effect e)
    exact ⟨hcalls'.trans hcalls, hstarted'.trans hstarted, hinvoked'.trans hinvoked⟩

theorem call_frame (config : Config) (s : State) (c : Call) :
    (s.call config c).calls = s.calls ++ [c] ∧ (s.call config c).started = s.started ∧
      (s.call config c).invoked = s.invoked :=
  foldl_effect_frame { s with calls := s.calls ++ [c] } (c.effects config)

theorem onCompletion_handedOver (h : s.Idle) (op : Operation) (ec : ErrorCode) :
    (s.effect (.onCompletion op ec)).HandedOver := by
  obtain ⟨-, hunder, hinvoked⟩ := h
  rw [State.underWay] at hunder
  refine ⟨hinvoked, ?_, ?_, Bool.noConfusion⟩
  · simp only [State.effect, if_true]
    omega
  · simp only [State.effect]
    omega

theorem submit_handedOver (h : s.Idle) (op : Operation) (attempt : Attempt) {recheck : List Effect}
    (hrecheck : ∀ s, recheck.foldl State.effect s = s) :
    ((submit op attempt recheck).foldl State.effect s).HandedOver ∧
      ((submit op attempt recheck).foldl State.effect s).outstandingWork = s.outstandingWork := by
  unfold submit
  split
  · rename_i ec _
    exact ⟨onCompletion_handedOver h op ec, rfl⟩
  · cases htaken : attempt.taken with
    | false => exact ⟨onCompletion_handedOver h op ⟨.system, attempt.lastError⟩, rfl⟩
    | true =>
      obtain ⟨hready, hunder, hinvoked⟩ := h
      rw [State.underWay] at hunder
      simp only [List.foldl_cons, if_true, List.foldl_append, hrecheck, List.foldl_nil,
        State.effect]
      refine ⟨⟨hinvoked, ?_, ?_, fun _ => ?_⟩, trivial⟩
      · simp only [hready, Bool.false_eq_true, if_false]
        omega
      · dsimp only
        omega
      · dsimp only
        omega

theorem foldl_recheck (op : Operation) (again : Bool) (s : State) :
    (if again then [Effect.cancelIoEx op] else []).foldl State.effect s = s := by
  cases again with
  | false => rfl
  | true => rfl

/-- A call on an operation that has been reset hands it over, unless it sees it cancelled. -/
theorem call_handedOver (h : s.Idle) {c : Call} (hseen : c.seesCancel config = false) :
    (s.call config c).HandedOver ∧ (s.call config c).outstandingWork = s.outstandingWork + 1 := by
  let counted : State :=
    { s with calls := s.calls ++ [c], outstandingWork := s.outstandingWork + 1 }
  have hidle : counted.Idle := h
  cases c with
  | start isOpen peerIsOpen attempt =>
    simp only [State.call, Call.effects, startAcceptOp, List.foldl_cons]
    cases isOpen with
    | false => exact ⟨onCompletion_handedOver hidle config.op badDescriptor, rfl⟩
    | true =>
      cases peerIsOpen with
      | true => exact ⟨onCompletion_handedOver hidle config.op alreadyOpen, rfl⟩
      | false => exact submit_handedOver hidle config.op attempt fun _ => rfl
  | restart cancelRequested attempt =>
    have hfirst : ((if config.proxy then some cancelRequested else none).any
        (·.1 = 1)) = false := by
      cases hproxy : config.proxy with
      | false => rfl
      | true => simpa [Call.seesCancel, hproxy] using hseen
    simp only [State.call, Call.effects, restartAcceptOp, List.foldl_cons, hfirst,
      Bool.false_eq_true, if_false, List.nil_append]
    exact submit_handedOver hidle config.op attempt (foldl_recheck config.op _)

theorem State.Sane.running_of_underWay (h : s.Sane) (hunder : s.underWay ≠ 0) :
    s.started = true ∧ s.HandedOver ∧ s.outstandingWork = 1 := by
  cases h with
  | fresh _ idle => exact absurd idle.2.1 hunder
  | running started handedOver work => exact ⟨started, handedOver, work⟩
  | done _ _ underWay => exact absurd underWay hunder

theorem start_sane (h : s.Sane) (hstarted : s.started = false) {isOpen peerIsOpen : Bool}
    {attempt : Attempt} :
    ({ s with started := true }.call config (.start isOpen peerIsOpen attempt)).Sane := by
  cases h with
  | fresh _ idle work =>
    have hidle : { s with started := true }.Idle := idle
    have hseen : (Call.start isOpen peerIsOpen attempt).seesCancel config = false := rfl
    obtain ⟨hhanded, hwork⟩ := call_handedOver hidle hseen
    refine .running (call_frame ..).2.1 hhanded (hwork.trans ?_)
    dsimp only
    rw [work, Int.zero_add]
  | running started => exact absurd (started.symm.trans hstarted) Bool.noConfusion
  | done started => exact absurd (started.symm.trans hstarted) Bool.noConfusion

theorem exchange_sane (h : s.Sane) (hpending : s.pending ≠ 0) :
    (if s.ready then { s with pending := s.pending - 1, packets := s.packets + 1 }
      else { s with pending := s.pending - 1, ready := true } : State).Sane := by
  obtain ⟨started, ⟨hinvoked, hone, hle, hunready⟩, work⟩ :=
    h.running_of_underWay (by rw [State.underWay]; omega)
  split
  · rename_i hready
    rw [if_pos hready] at hone
    refine .running started ⟨hinvoked, ?_, ?_, ?_⟩ work
    · simp only [hready, if_true]
      omega
    · dsimp only
      omega
    · intro hnot
      exact absurd (hready.symm.trans hnot) Bool.noConfusion
  · rename_i hready
    rw [if_neg hready] at hone
    refine .running started ⟨hinvoked, ?_, ?_, Bool.noConfusion⟩ work
    · simp only [if_true]
      omega
    · dsimp only
      omega

theorem deliver_sane (h : s.Sane) (hkernel : s.kernel ≠ 0) :
    { s with kernel := s.kernel - 1, packets := s.packets + 1 }.Sane := by
  obtain ⟨started, ⟨hinvoked, hone, hle, hunready⟩, work⟩ :=
    h.running_of_underWay (by rw [State.underWay]; omega)
  refine .running started ⟨hinvoked, ?_, hle, hunready⟩ work
  dsimp only
  omega

/-- The packet comes first and waits for `on_pending`. -/
theorem dequeue_sane (h : s.Sane) (hpackets : s.packets ≠ 0) (hready : s.ready = false) :
    { s with packets := s.packets - 1, ready := true }.Sane := by
  obtain ⟨started, ⟨hinvoked, hone, hle, hunready⟩, work⟩ :=
    h.running_of_underWay (by rw [State.underWay]; omega)
  have hpending := hunready hready
  rw [hready, if_neg Bool.false_ne_true] at hone
  refine .running started ⟨hinvoked, ?_, hle, Bool.noConfusion⟩ work
  simp only [if_true]
  omega

/-- The completion of an operation for which nothing else is under way. -/
theorem complete_sane (started : s.started = true) (hinvoked : s.invoked = [])
    (hunder : s.underWay = 0) (work : s.outstandingWork = 1) {c : Completion}
    (hcalls : ∀ call ∈ (s.complete config c).calls, call.seesCancel config = false) :
    { s.complete config c with
      outstandingWork := (s.complete config c).outstandingWork - 1 }.Sane := by
  revert hcalls
  unfold State.complete
  dsimp only
  split
  · intro hcalls
    obtain ⟨hmore, hsame, -⟩ := call_frame config { s with ready := false }
      (.restart c.cancelRequested c.attempt)
    have hidle : { s with ready := false }.Idle := ⟨rfl, hunder, hinvoked⟩
    obtain ⟨⟨hinvoked', hone, hle, hunready⟩, hwork⟩ := call_handedOver hidle
      (hcalls (.restart c.cancelRequested c.attempt) (by rw [hmore]; simp))
    refine .running (hsame.trans started) ⟨hinvoked', hone, hle, hunready⟩ ?_
    dsimp only at hwork ⊢
    rw [hwork, work]
    rfl
  · intro _
    refine .done started ?_ hunder ?_
    · dsimp only
      rw [hinvoked]
      rfl
    · dsimp only
      rw [work]
      rfl

/-- One step, as long as no restart of the run has seen the operation cancelled. -/
theorem step_sane (h : s.Sane) (hstep : step config s a = some s')
    (hcalls : ∀ c ∈ s'.calls, c.seesCancel config = false) : s'.Sane := by
  cases a with
  | start isOpen peerIsOpen attempt =>
    rw [step, Option.ite_none_left_eq_some] at hstep
    obtain ⟨hstarted, hstep⟩ := hstep
    cases hstep
    exact start_sane h (Bool.eq_false_of_not_eq_true hstarted)
  | exchange =>
    rw [step, Option.ite_none_left_eq_some, ← apply_ite some] at hstep
    obtain ⟨hpending, hstep⟩ := hstep
    cases hstep
    exact exchange_sane h hpending
  | deliver =>
    rw [step, Option.ite_none_left_eq_some] at hstep
    obtain ⟨hkernel, hstep⟩ := hstep
    cases hstep
    exact deliver_sane h hkernel
  | dequeue c =>
    rw [step, Option.ite_none_left_eq_some, not_or, not_not] at hstep
    obtain ⟨⟨hpackets, hinvoked⟩, hstep⟩ := hstep
    split at hstep
    · rename_i hready
      cases hstep
      obtain ⟨started, ⟨-, hone, -, -⟩, work⟩ :=
        h.running_of_underWay (by rw [State.underWay]; omega)
      rw [if_pos hready] at hone
      have hunder : { s with packets := s.packets - 1 }.underWay = 0 := by
        rw [State.underWay]
        dsimp only
        omega
      exact complete_sane (s := { s with packets := s.packets - 1 }) started hinvoked hunder work
        hcalls
    · rename_i hready
      cases hstep
      exact dequeue_sane h hpackets (Bool.eq_false_of_not_eq_true hready)

theorem complete_calls (config : Config) (s : State) (c : Completion) :
    s.calls ⊆ (s.complete config c).calls := by
  unfold State.complete
  dsimp only
  split
  · rw [(call_frame ..).1]
    exact List.subset_append_left ..
  · exact List.Subset.refl _

theorem step_calls (hstep : step config s a = some s') : s.calls ⊆ s'.calls := by
  cases a with
  | start isOpen peerIsOpen attempt =>
    rw [step, Option.ite_none_left_eq_some] at hstep
    obtain ⟨-, hstep⟩ := hstep
    cases hstep
    rw [(call_frame ..).1]
    exact List.subset_append_left ..
  | exchange =>
    rw [step, Option.ite_none_left_eq_some] at hstep
    obtain ⟨-, hstep⟩ := hstep
    split at hstep
    · cases hstep
      exact List.Subset.refl _
    · cases hstep
      exact List.Subset.refl _
  | deliver =>
    rw [step, Option.ite_none_left_eq_some] at hstep
    obtain ⟨-, hstep⟩ := hstep
    cases hstep
    exact List.Subset.refl _
  | dequeue c =>
    rw [step, Option.ite_none_left_eq_some] at hstep
    obtain ⟨-, hstep⟩ := hstep
    split at hstep
    · cases hstep
      exact (complete_calls config { s with packets := s.packets - 1 } c :)
    · cases hstep
      exact List.Subset.refl _

theorem reachable_sane (h : Reachable (step config) (fun _ _ => True) initial s)
    (hcalls : ∀ c ∈ s.calls, c.seesCancel config = false) : s.Sane := by
  induction h with
  | start => exact .fresh rfl ⟨rfl, rfl, rfl⟩ rfl
  | step _ _ hstep ih =>
    exact step_sane (ih fun c hc => hcalls c (step_calls hstep hc)) hstep hcalls

theorem State.Sane.once (h : s.Sane) (hcalls : ∀ c ∈ s.calls, c.seesCancel config = false) :
    s.Once config := by
  have hhands (c : Call) (hc : c ∈ s.calls) : HandsOverOnce (c.effects config) :=
    (c.handsOverOnce_iff config).mpr (hcalls c hc)
  cases h with
  | fresh started idle work =>
    obtain ⟨-, hunder, hinvoked⟩ := idle
    refine ⟨hhands, ?_, ?_, fun _ => hunder, ?_⟩
    · rw [hinvoked]
      exact Nat.zero_le _
    · intro hstarted
      exact absurd (hstarted.symm.trans started) Bool.noConfusion
    · rw [work, started, if_neg (fun h => Bool.noConfusion h.1)]
  | running started handedOver work =>
    obtain ⟨hinvoked, hone, -, -⟩ := handedOver
    have hunder : s.underWay ≠ 0 := by
      rw [State.underWay]
      split at hone <;> omega
    refine ⟨hhands, ?_, fun _ h => absurd h hunder, fun h => absurd hinvoked h, ?_⟩
    · rw [hinvoked]
      exact Nat.zero_le _
    · rw [work, if_pos ⟨started, hinvoked⟩]
  | done started invoked underWay work =>
    refine ⟨hhands, invoked.le, fun _ _ => invoked, fun _ => underWay, ?_⟩
    rw [work, if_neg]
    rintro ⟨-, hnil⟩
    rw [hnil] at invoked
    cases invoked

/-- However often the operation is restarted, it is completed once exactly when no restart has seen
it cancelled before it submits it again. -/
theorem once_iff (h : Reachable (step config) (fun _ _ => True) initial s) :
    s.Once config ↔ ∀ c ∈ s.calls, c.seesCancel config = false := by
  constructor
  · intro honce c hc
    exact (c.handsOverOnce_iff config).mp (honce.calls c hc)
  · intro hcalls
    exact (reachable_sane h hcalls).once hcalls

end Runs

/-- The system takes the accept. -/
def taken : Attempt := ⟨.ok 4, false, ioPending⟩

/-- A completion of the system with the error. -/
def completion (lastError : Nat) (cancelRequested : Int × Int) : Completion :=
  ⟨⟨.system, lastError⟩, ⟨.system, 0⟩, ⟨.system, 0⟩, cancelRequested, taken⟩

/-- The packet of an aborted connection comes before `on_pending`, and the restart finds the
operation cancelled when the system has taken it again. -/
def restartedRun : List Action :=
  [.start true false taken, .deliver, .dequeue (completion 10053 (0, 0)), .exchange,
    .dequeue (completion 10053 (0, 1)), .exchange, .deliver, .dequeue (completion 995 (0, 0))]

theorem restartedRun_invokes :
    (exec (guarded (step ⟨false, true⟩) fun _ _ => True) initial restartedRun).map
      (fun s => (s.invoked, s.calls.map (Call.seesCancel ⟨false, true⟩))) =
    some ([operationAborted], [false, false]) := by
  decide +kernel

theorem once_restarted : ∃ s : State, s.Once ⟨false, true⟩ ∧ s.invoked = [operationAborted] ∧
    s.calls.length = 2 := by
  obtain ⟨s, hs, heq⟩ := Option.map_eq_some_iff.mp restartedRun_invokes
  obtain ⟨hinvoked, hcalls⟩ := Prod.mk.inj heq
  refine ⟨s, (once_iff (exec_guarded_reachable hs)).mpr fun c hc => ?_, hinvoked, ?_⟩
  · have hmem := List.mem_map_of_mem (f := Call.seesCancel ⟨false, true⟩) hc
    rw [hcalls] at hmem
    simpa using hmem
  · simpa using congrArg List.length hcalls

/-- The restart finds the operation cancelled at once, and submits it as well. -/
def cancelledRun : List Action :=
  [.start true false taken, .deliver, .exchange, .dequeue (completion 10053 (1, 0)),
    .dequeue (completion 995 (0, 0))]

theorem cancelledRun_invokes :
    (exec (guarded (step ⟨false, true⟩) fun _ _ => True) initial cancelledRun).map
      (fun s => (s.invoked, s.kernel, s.pending)) = some ([operationAborted], 1, 1) := by
  decide +kernel

/-- The handler has been invoked, and the system still works on the operation. -/
theorem not_once_cancelled : ∃ s, Reachable (step ⟨false, true⟩) (fun _ _ => True) initial s ∧
    s.invoked = [operationAborted] ∧ s.kernel = 1 ∧ ¬s.Once ⟨false, true⟩ := by
  obtain ⟨s, hs, heq⟩ := Option.map_eq_some_iff.mp cancelledRun_invokes
  simp only [Prod.mk.injEq] at heq
  obtain ⟨hinvoked, hkernel, -⟩ := heq
  refine ⟨s, exec_guarded_reachable hs, hinvoked, hkernel, fun honce => ?_⟩
  have hunder := honce.freed (by rw [hinvoked]; simp)
  rw [State.underWay] at hunder
  omega

end Asio.Detail.WinIocpAccept
