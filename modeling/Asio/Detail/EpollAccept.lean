import Asio.Detail.EpollReactorEdges
import Asio.Detail.SocketAccept

/-! Accepting connections with the epoll reactor, whose edges tell that connections arrive. -/

namespace Asio.Detail.Epoll

open Lib Transition DescriptorState

/-! ### The kernel -/

/-- A connection in the backlog, by what the system call reports of it. -/
inductive Connection
  | acceptable (socket : Nat)
  | aborted
  | protocolError
  deriving DecidableEq

namespace Connection

def result : Connection → SocketAccept.Result
  | acceptable socket => .accepted socket
  | aborted => .failed .connectionAborted
  | protocolError => .failed .eproto

def isAcceptable : Connection → Bool
  | acceptable _ => true
  | aborted => false
  | protocolError => false

end Connection

/-- A listening socket that is watched for the types that are registered. -/
structure Listening where
  registered : OpType → Bool
  edge : Bool
  backlog : List Connection

namespace Listening

inductive Event
  | arrives (c : Connection)
  | aborts (i : Nat) (isProtocolError : Bool)

/-- The system call is interrupted so many times before it answers or fails otherwise, and then
something else happens. -/
structure Attempt where
  interruptions : Nat
  error : Option Nat
  events : List Event

def hasAcceptable (l : Listening) : Bool := l.backlog.any (·.isAcceptable)

/-- `EPOLL_CTL_ADD` -/
def register (supported : Bool) (backlog : List Connection) : Listening where
  registered t := supported && t ≠ .write
  edge := supported && !backlog.isEmpty
  backlog := backlog

def apply (l : Listening) : Event → Listening
  | .arrives c => { l with backlog := l.backlog ++ [c], edge := l.edge || l.registered .read }
  | .aborts i isProtocolError =>
    { l with backlog := l.backlog.set i (if isProtocolError then .protocolError else .aborted) }

def applyAll (l : Listening) (events : List Event) : Listening := events.foldl apply l

/-- `EPOLL_CTL_MOD`, for an operation of a type. -/
def rearm (l : Listening) (t : OpType) : Listening where
  registered u := l.registered u || (t = .write && u = .write)
  edge := l.edge || (l.registered .read && !l.backlog.isEmpty)
  backlog := l.backlog

def deliver (l : Listening) : Listening := { l with edge := false }

def deregister (l : Listening) : Listening := { l with registered := fun _ => false }

/-- What the system call answers, and the connections that it leaves. -/
def answer (l : Listening) : Option Nat → SocketAccept.Result × List Connection
  | some value => (.failed (.other value), l.backlog)
  | none =>
    match l.backlog with
    | [] => (.failed .wouldBlock, [])
    | c :: rest => (c.result, rest)

def results (l : Listening) (a : Attempt) : List SocketAccept.Result :=
  List.replicate a.interruptions (.failed .interrupted) ++ [(l.answer a.error).1]

end Listening

/-! ### Performing operations -/

section Perform

variable (flags : SocketAccept.State) (accepts : Nat → Bool)

namespace Listening

/-- An accept is done or not as `non_blocking_accept` says; an operation that only waits is done. -/
def perform (l : Listening) (isAccept : Bool) (status : ReactorOp.Status) (a : Attempt) :
    Option Listening :=
  if isAccept then
    (SocketAccept.nonBlockingAccept flags (l.results a)).bind fun ((done, _), _) =>
      if status = (if done then .done else .notDone) then
        some { l with backlog := (l.answer a.error).2 }
      else
        none
  else if status = .done then
    some l
  else
    none

/-- The accept meets a connection that it must not report, and there is another behind it. -/
def blocked (l : Listening) (a : Attempt) : Bool :=
  a.error.isNone && !flags.enableConnectionAborted &&
    l.backlog.head?.any (fun c => !c.isAcceptable) && l.hasAcceptable

/-- Whether an operation of the type is an accept. -/
def isAccept (t : OpType) (id : Nat) : Bool := t = .read && accepts id

variable (t : OpType) (outcome : Nat → ReactorOp.Outcome) (attempts : Nat → Attempt)

def performQueue : List ReactorOp → Listening → Option Listening
  | [], l => some l
  | op :: queue, l =>
    (l.perform flags (isAccept accepts t op.id) (outcome op.id).status (attempts op.id)).bind fun l =>
      let l := l.applyAll (attempts op.id).events
      if (outcome op.id).status = .done then performQueue queue l else some l

/-- None of the accepts that are performed is blocked. -/
def clearQueue : List ReactorOp → Listening → Bool
  | [], _ => true
  | op :: queue, l =>
    !(isAccept accepts t op.id && l.blocked flags (attempts op.id)) &&
      (l.perform flags (isAccept accepts t op.id) (outcome op.id).status (attempts op.id)).all
        fun l => (outcome op.id).status ≠ .done ||
          clearQueue queue (l.applyAll (attempts op.id).events)

variable (events : BitVec 32)

/-- The kernel while `perform_io` goes through the queues. -/
def performFrom : List OpType → DescriptorState → Listening → Option Listening
  | [], _, l => some l
  | t :: ts, d, l =>
    if events &&& (flag t ||| errEvent ||| hupEvent) = 0 then
      performFrom ts d l
    else
      (l.performQueue flags accepts t outcome attempts (d.opQueue t)).bind fun l =>
        let (_, queue, trySpeculative) := DescriptorState.performQueue outcome (d.opQueue t)
        performFrom ts ((d.setQueue t queue).setTrySpeculative t trySpeculative) l

def clearFrom : List OpType → DescriptorState → Listening → Bool
  | [], _, _ => true
  | t :: ts, d, l =>
    if events &&& (flag t ||| errEvent ||| hupEvent) = 0 then
      clearFrom ts d l
    else
      l.clearQueue flags accepts t outcome attempts (d.opQueue t) &&
        (l.performQueue flags accepts t outcome attempts (d.opQueue t)).all fun l =>
          let (_, queue, trySpeculative) := DescriptorState.performQueue outcome (d.opQueue t)
          clearFrom ts ((d.setQueue t queue).setTrySpeculative t trySpeculative) l

end Listening

/-! ### The system -/

structure Acceptor where
  reactor : State
  listening : Listening

namespace Acceptor

def initial (supported : Bool) (backlog : List Connection) : Acceptor :=
  ⟨Epoll.initial supported, .register supported backlog⟩

inductive Action
  | startOp (t : OpType) (op : ReactorOp) (isContinuation allowSpeculative : Bool)
      (outcome : ReactorOp.Outcome) (attempt : Listening.Attempt)
  | cancelOps
  | cancelOpsByKey (t : OpType) (cancellationKey : Nat)
  | deregisterDescriptor
  | run (events : BitVec 32)
  | dequeue
  | performIo (events : BitVec 32) (outcome : Nat → ReactorOp.Outcome)
      (attempts : Nat → Listening.Attempt)
  | kernel (event : Listening.Event)

def startListening (s : Acceptor) (t : OpType) (op : ReactorOp) (allowSpeculative : Bool)
    (outcome : ReactorOp.Outcome) (attempt : Listening.Attempt) : Option Listening :=
  let performed :=
    if Watched.performs s.reactor t op allowSpeculative outcome none then
      s.listening.perform flags (Listening.isAccept accepts t op.id) outcome.status attempt
    else
      some s.listening
  performed.map fun l =>
    let l := l.applyAll attempt.events
    if s.reactor.hasData ∧ s.reactor.data.epollCtl t allowSpeculative outcome ≠ .none then
      l.rearm t
    else
      l

/-- The calls of `epoll_ctl` succeed. -/
def step (s : Acceptor) : Action → Option Acceptor
  | .startOp t op isContinuation allowSpeculative outcome attempt =>
    (s.startListening flags accepts t op allowSpeculative outcome attempt).map fun l =>
      ⟨s.reactor.startOp t op isContinuation allowSpeculative outcome none, l⟩
  | .cancelOps => some { s with reactor := s.reactor.cancelOps }
  | .cancelOpsByKey t cancellationKey =>
    some { s with reactor := s.reactor.cancelOpsByKey t cancellationKey }
  | .deregisterDescriptor =>
    some ⟨s.reactor.deregisterDescriptor,
      if s.reactor.hasData ∧ s.reactor.data.shutdown = false then
        s.listening.deregister
      else
        s.listening⟩
  | .run events =>
    if s.listening.edge = true → s.listening.backlog ≠ [] → Watched.Concerns events .read then
      some ⟨s.reactor.run events, s.listening.deliver⟩
    else none
  | .dequeue => s.reactor.dequeue.map fun reactor => { s with reactor := reactor }
  | .performIo events outcome attempts =>
    (s.reactor.performIo events outcome).bind fun reactor =>
      (Listening.performFrom flags accepts outcome attempts events [.except, .write, .read]
        s.reactor.data s.listening).map fun l => ⟨reactor, l⟩
  | .kernel event => some { s with listening := s.listening.apply event }

/-- None of the accepts that are performed is blocked. -/
def Clear (s : Acceptor) : Action → Prop
  | .startOp t op _ allowSpeculative outcome attempt =>
    Watched.performs s.reactor t op allowSpeculative outcome none = true →
      Listening.isAccept accepts t op.id = true → s.listening.blocked flags attempt = false
  | .performIo events outcome attempts =>
    Listening.clearFrom flags accepts outcome attempts events [.except, .write, .read]
      s.reactor.data s.listening = true
  | _ => True

instance (s : Acceptor) (a : Action) : Decidable (s.Clear flags accepts a) := by
  induction a using Action.casesOn <;> dsimp only [Clear] <;> infer_instance

end Acceptor

end Perform

/-! ### What the kernel tells -/

namespace Listening

variable {flags : SocketAccept.State} {accepts : Nat → Bool}
variable {l l₁ l' : Listening} {t u : OpType} {X : Prop} {a : Attempt}
variable {status : ReactorOp.Status} {outcome : Nat → ReactorOp.Outcome} {attempts : Nat → Attempt}

/-- The kernel for which the socket is ready when a connection can be accepted. -/
def kernel (l : Listening) : Kernel where
  ready t := t = .read && l.hasAcceptable
  registered := l.registered
  edge t := t = .read && l.edge

theorem told_iff : l.kernel.Told t X ↔
    l.registered t = true ∧ (t = .read → l.hasAcceptable = true → l.edge = true ∨ X) := by
  unfold Kernel.Told kernel
  by_cases ht : t = .read
  · simp [ht]
  · simp [ht]

/-- Whatever could be accepted only since then comes with an edge. -/
structure Keeps (l l' : Listening) : Prop where
  registered : l'.registered = l.registered
  edge : l.edge = true → l'.edge = true
  acceptable : l.registered .read = true → l'.hasAcceptable = true →
    l'.edge = true ∨ l.hasAcceptable = true

theorem Keeps.refl (l : Listening) : Keeps l l := ⟨rfl, id, fun _ => Or.inr⟩

theorem Keeps.trans (h : Keeps l l₁) (h' : Keeps l₁ l') : Keeps l l' where
  registered := h'.registered.trans h.registered
  edge := h'.edge ∘ h.edge
  acceptable hreg hacceptable := by
    rcases h'.acceptable (h.registered ▸ hreg) hacceptable with hedge | hacceptable
    · exact .inl hedge
    · exact (h.acceptable hreg hacceptable).imp_left h'.edge

theorem Keeps.told (h : Keeps l l') (htold : l.kernel.Told t X) : l'.kernel.Told t X := by
  rw [told_iff] at htold ⊢
  obtain ⟨hreg, htold⟩ := htold
  refine ⟨h.registered ▸ hreg, fun ht hacceptable => ?_⟩
  rcases h.acceptable (ht ▸ hreg) hacceptable with hedge | hacceptable
  · exact .inl hedge
  · exact (htold ht hacceptable).imp_left h.edge

theorem told_of_unacceptable (hreg : l.registered t = true) (h : l.hasAcceptable = false) :
    l.kernel.Told t X :=
  told_iff.mpr ⟨hreg, fun _ hacceptable => by rw [h] at hacceptable; cases hacceptable⟩

theorem any_set {α : Type} {p : α → Bool} {xs : List α} {i : Nat} {x : α} (hx : p x = false)
    (h : (xs.set i x).any p = true) : xs.any p = true := by
  obtain ⟨y, hy, hp⟩ := List.any_eq_true.mp h
  rcases List.mem_or_eq_of_mem_set hy with hy | rfl
  · exact List.any_eq_true.mpr ⟨y, hy, hp⟩
  · rw [hx] at hp
    cases hp

theorem keeps_apply (l : Listening) (event : Event) : Keeps l (l.apply event) := by
  cases event with
  | arrives c =>
    refine ⟨rfl, fun hedge => ?_, fun hreg _ => .inl ?_⟩
    · simp [apply, hedge]
    · simp [apply, hreg]
  | aborts i isProtocolError =>
    refine ⟨rfl, id, fun _ hacceptable => .inr (any_set ?_ hacceptable)⟩
    cases isProtocolError <;> rfl

theorem keeps_applyAll (l : Listening) (events : List Event) : Keeps l (l.applyAll events) := by
  induction events generalizing l with
  | nil => exact .refl l
  | cons event events ih => exact (keeps_apply l event).trans (ih (l.apply event))

/-! ### Performing operations -/

theorem nonBlockingAccept_interrupted (n : Nat) (r : SocketAccept.Result) :
    SocketAccept.nonBlockingAccept flags (List.replicate n (.failed .interrupted) ++ [r]) =
      SocketAccept.nonBlockingAccept flags [r] := by
  induction n with
  | zero => rfl
  | succ n ih =>
    rw [List.replicate_succ, List.cons_append, SocketAccept.nonBlockingAccept, if_pos rfl, ih]

/-- The accept has left what the answer leaves, and it is done as the answer says. -/
theorem perform_accept (h : l.perform flags true status a = some l') :
    l' = { l with backlog := (l.answer a.error).2 } ∧ ∃ done outcome rest,
      SocketAccept.nonBlockingAccept flags [(l.answer a.error).1] = some ((done, outcome), rest) ∧
        status = if done then .done else .notDone := by
  rw [perform, if_pos rfl, results, nonBlockingAccept_interrupted] at h
  obtain ⟨⟨⟨done, outcome⟩, rest⟩, hr, h⟩ := Option.bind_eq_some_iff.mp h
  dsimp only at h
  by_cases hstatus : status = if done then .done else .notDone
  · rw [if_pos hstatus] at h
    cases h
    exact ⟨rfl, done, outcome, rest, hr, hstatus⟩
  · rw [if_neg hstatus] at h
    cases h

theorem perform_wait (h : l.perform flags false status a = some l') : l' = l ∧ status = .done := by
  rw [perform, if_neg (by decide)] at h
  split at h
  · rename_i hstatus
    cases h
    exact ⟨rfl, hstatus⟩
  · cases h

theorem acceptable_of_answer (error : Option Nat)
    (h : (l.answer error).2.any (·.isAcceptable) = true) : l.hasAcceptable = true := by
  unfold answer at h
  cases error with
  | some value => exact h
  | none =>
    unfold hasAcceptable
    cases hbacklog : l.backlog with
    | nil => simp [hbacklog] at h
    | cons c rest =>
      simp only [hbacklog] at h
      rw [List.any_cons, h, Bool.or_true]

theorem keeps_perform {isAccept : Bool} (h : l.perform flags isAccept status a = some l') :
    Keeps l l' := by
  cases isAccept with
  | true =>
    obtain ⟨rfl, -⟩ := perform_accept h
    exact ⟨rfl, id, fun _ hacceptable => .inr (acceptable_of_answer a.error hacceptable)⟩
  | false =>
    obtain ⟨rfl, -⟩ := perform_wait h
    exact .refl _

/-- An accept that is not blocked and not done leaves nothing that could be accepted. -/
theorem perform_unacceptable {isAccept : Bool} (h : l.perform flags isAccept status a = some l')
    (hclear : isAccept = true → l.blocked flags a = false) (hstatus : status ≠ .done) :
    l'.hasAcceptable = false := by
  cases isAccept with
  | false => exact absurd (perform_wait h).2 hstatus
  | true =>
    obtain ⟨rfl, done, outcome, rest, hr, heq⟩ := perform_accept h
    have hclear := hclear rfl
    cases done with
    | true => exact absurd heq hstatus
    | false =>
      apply eq_false_of_ne_true
      intro hacceptable
      have hbefore := acceptable_of_answer a.error hacceptable
      unfold blocked at hclear
      unfold answer at hr
      cases herror : a.error with
      | some value =>
        rw [herror] at hr
        cases hr
      | none =>
        rw [herror] at hr
        cases hbacklog : l.backlog with
        | nil => simp [hasAcceptable, hbacklog] at hbefore
        | cons c connections =>
          rw [hbacklog] at hr
          cases c with
          | acceptable socket => cases hr
          | aborted | protocolError =>
            have henabled : flags.enableConnectionAborted = false := by
              simp [SocketAccept.nonBlockingAccept, Connection.result] at hr
              exact hr.1.1
            simp [herror, henabled, hbacklog, hbefore, Connection.isAcceptable] at hclear

section Queues

variable {queue : List ReactorOp} {events : BitVec 32} {ts : List OpType} {d : DescriptorState}

theorem keeps_performQueue (h : l.performQueue flags accepts t outcome attempts queue = some l') :
    Keeps l l' := by
  induction queue generalizing l with
  | nil =>
    cases h
    exact .refl _
  | cons op queue ih =>
    obtain ⟨l₁, hperform, h⟩ := Option.bind_eq_some_iff.mp h
    have hkeeps := (keeps_perform hperform).trans (keeps_applyAll l₁ (attempts op.id).events)
    split at h
    · exact hkeeps.trans (ih h)
    · cases h
      exact hkeeps

/-- As long as no accept is blocked, what still waits is told. -/
theorem told_performQueue (hreg : l.registered t = true)
    (h : l.performQueue flags accepts t outcome attempts queue = some l')
    (hclear : l.clearQueue flags accepts t outcome attempts queue = true)
    (hleft : (DescriptorState.performQueue outcome queue).2.1 ≠ [] ∨
      (DescriptorState.performQueue outcome queue).2.2 = false) : l'.kernel.Told t X := by
  induction queue generalizing l with
  | nil => exact hleft.elim (fun hne => absurd rfl hne) nofun
  | cons op queue ih =>
    obtain ⟨l₁, hperform, h⟩ := Option.bind_eq_some_iff.mp h
    have hreg₁ : l₁.registered t = true := (keeps_perform hperform).registered ▸ hreg
    simp only [clearQueue, hperform, Option.all_some, Bool.and_eq_true] at hclear
    obtain ⟨hhead, htail⟩ := hclear
    by_cases hdone : (outcome op.id).status = .done
    · rw [if_pos hdone] at h
      refine ih ((keeps_applyAll l₁ _).registered ▸ hreg₁) h ?_ ?_
      · simpa [hdone] using htail
      · simpa only [DescriptorState.performQueue, ReactorOp.perform, hdone] using hleft
    · rw [if_neg hdone] at h
      cases h
      refine (keeps_applyAll l₁ _).told (told_of_unacceptable hreg₁ ?_)
      refine perform_unacceptable hperform (fun haccept => ?_) hdone
      simpa [haccept] using hhead

theorem keeps_performFrom
    (h : performFrom flags accepts outcome attempts events ts d l = some l') : Keeps l l' := by
  induction ts generalizing d l with
  | nil =>
    cases h
    exact .refl _
  | cons t ts ih =>
    simp only [performFrom] at h
    split at h
    · exact ih h
    · obtain ⟨l₁, hqueue, h⟩ := Option.bind_eq_some_iff.mp h
      exact (keeps_performQueue hqueue).trans (ih h)

/-- The types that the events concern are told anew, and the others as before. -/
theorem told_performFrom (hreg : l.registered u = true)
    (h : performFrom flags accepts outcome attempts events ts d l = some l')
    (hclear : clearFrom flags accepts outcome attempts events ts d l = true)
    (hwatches : (DescriptorState.performFrom events outcome ts d).2.Watches u)
    (hbefore : ¬ (u ∈ ts ∧ Watched.Concerns events u) → d.Watches u → l.kernel.Told u X) :
    l'.kernel.Told u X := by
  induction ts generalizing d l with
  | nil =>
    cases h
    exact hbefore (fun hmem => List.not_mem_nil hmem.1) hwatches
  | cons t ts ih =>
    simp only [performFrom, clearFrom, DescriptorState.performFrom] at h hclear hwatches
    split at h
    · rename_i hnone
      rw [if_pos hnone] at hwatches hclear
      refine ih hreg h hclear hwatches fun hts => hbefore fun hmem => ?_
      rcases List.mem_cons.mp hmem.1 with rfl | hmem'
      · exact hmem.2 hnone
      · exact hts ⟨hmem', hmem.2⟩
    · rename_i hconcerns
      rw [if_neg hconcerns] at hwatches hclear
      obtain ⟨l₁, hqueue, h⟩ := Option.bind_eq_some_iff.mp h
      rw [hqueue, Option.all_some, Bool.and_eq_true] at hclear
      have hkeeps := keeps_performQueue hqueue
      refine ih (hkeeps.registered ▸ hreg) h hclear.2 hwatches fun hts hwatches₁ => ?_
      by_cases hu : u = t
      · subst hu
        refine told_performQueue hreg hqueue hclear.1 ?_
        simpa only [Watches, setTrySpeculative, setQueue, Function.update_self] using hwatches₁
      · refine hkeeps.told (hbefore (fun hmem => ?_) ?_)
        · exact hts ⟨(List.mem_cons.mp hmem.1).resolve_left hu, hmem.2⟩
        · simpa only [Watches, setTrySpeculative, setQueue, Function.update_of_ne hu]
            using hwatches₁

end Queues

end Listening

/-! ### Runs -/

namespace Acceptor

variable {flags : SocketAccept.State} {accepts : Nat → Bool} {s s' : Acceptor}

/-- The descriptor and the kernel for which the socket is ready when a connection can be
accepted. -/
def watched (s : Acceptor) : Watched := ⟨s.reactor, s.listening.kernel⟩

/-- An edge tells of any connection in the backlog, so of one that can be accepted. -/
theorem rearm_edge {l : Listening} {t u : OpType} (h : (l.kernel.rearm t).edge u = true) :
    (l.rearm t).kernel.edge u = true := by
  simp only [Kernel.rearm, Listening.kernel, Listening.rearm, Bool.or_eq_true, Bool.and_eq_true,
    decide_eq_true_eq, Bool.not_eq_true'] at h ⊢
  rcases h with ⟨hu, hedge⟩ | ⟨hreg, hu, hacceptable⟩
  · exact ⟨hu, .inl hedge⟩
  · subst hu
    refine ⟨rfl, .inr ⟨hreg.resolve_right fun hwrite => ?_, ?_⟩⟩
    · cases hwrite.2
    · apply eq_false_of_ne_true
      intro hempty
      rw [Listening.hasAcceptable, List.isEmpty_iff.mp hempty] at hacceptable
      cases hacceptable

theorem watching_startOp (h : s.watched.Watching) {t : OpType} {op : ReactorOp}
    {isContinuation allowSpeculative : Bool} {outcome : ReactorOp.Outcome}
    {attempt : Listening.Attempt}
    (hclear : s.Clear flags accepts
      (.startOp t op isContinuation allowSpeculative outcome attempt))
    {l : Listening}
    (hl : s.startListening flags accepts t op allowSpeculative outcome attempt = some l) :
    Watched.Watching ⟨s.reactor.startOp t op isContinuation allowSpeculative outcome none,
      l.kernel⟩ := by
  obtain ⟨l₀, hperform, rfl⟩ := Option.map_eq_some_iff.mp hl
  have hevents := Listening.keeps_applyAll l₀ attempt.events
  have hkeeps : Listening.Keeps s.listening (l₀.applyAll attempt.events) := by
    split at hperform
    · exact (Listening.keeps_perform hperform).trans hevents
    · cases hperform
      exact hevents
  have hunready : Watched.performs s.reactor t op allowSpeculative outcome none = true →
      outcome.status ≠ .done → s.listening.registered t = true →
      ∀ X, (l₀.applyAll attempt.events).kernel.Told t X := by
    intro hperforms hstatus hreg X
    rw [if_pos hperforms] at hperform
    have hreg₀ : l₀.registered t = true := (Listening.keeps_perform hperform).registered ▸ hreg
    exact hevents.told (Listening.told_of_unacceptable hreg₀
      (Listening.perform_unacceptable hperform (hclear hperforms) hstatus))
  have hstarted := @Watched.Watching.started s.watched t h op isContinuation allowSpeculative
    outcome none (fun _ _ => rfl) _ hkeeps.registered (fun _ _ htold => hkeeps.told htold) hunready
  dsimp only
  by_cases hctl : s.reactor.hasData ∧ s.reactor.data.epollCtl t allowSpeculative outcome ≠ .none
  · rw [if_pos ⟨hctl.1, hctl.2, rfl⟩] at hstarted
    rw [if_pos hctl]
    exact hstarted.of_edges rfl rfl fun _ => rearm_edge
  · rw [if_neg fun hc => hctl ⟨hc.1, hc.2.1⟩] at hstarted
    rwa [if_neg hctl]

theorem delivers_of_concerns {events : BitVec 32}
    (h : s.listening.edge = true → s.listening.backlog ≠ [] → Watched.Concerns events .read) :
    Watched.Delivers s.watched.kernel events := by
  intro t _ hedge hready
  simp only [watched, Listening.kernel, Bool.and_eq_true, decide_eq_true_eq] at hedge hready
  obtain ⟨rfl, hedge⟩ := hedge
  refine h hedge fun hnil => ?_
  rw [Listening.hasAcceptable, hnil] at hready
  exact Bool.false_ne_true hready.2

/-- The steps of the reactor keep the kernel told, as long as no accept is blocked. -/
theorem watching_step (h : s.watched.Watching) {a : Action} (hclear : s.Clear flags accepts a)
    (hstep : s.step flags accepts a = some s') : s'.watched.Watching := by
  cases a with
  | startOp t op isContinuation allowSpeculative outcome attempt =>
    obtain ⟨l, hl, rfl⟩ := Option.map_eq_some_iff.mp hstep
    exact watching_startOp h hclear hl
  | cancelOps =>
    cases hstep
    exact h.cancelOps
  | cancelOpsByKey t key =>
    cases hstep
    exact h.cancelOpsByKey t key
  | deregisterDescriptor =>
    cases hstep
    have hd := h.deregisterDescriptor
    unfold watched at hd ⊢
    dsimp only at hd ⊢
    split at hd
    · rename_i hopen
      rw [if_pos hopen]
      exact hd
    · rename_i hopen
      rw [if_neg hopen]
      exact hd
  | run events =>
    simp only [step] at hstep
    split at hstep
    · rename_i hdelivers
      cases hstep
      refine (h.run (delivers_of_concerns hdelivers)).of_edges rfl rfl fun _ hedge => ?_
      cases hedge
    · cases hstep
  | dequeue =>
    obtain ⟨reactor, hreactor, rfl⟩ := Option.map_eq_some_iff.mp hstep
    exact h.dequeue hreactor
  | performIo events outcome attempts =>
    obtain ⟨reactor, hreactor, hstep⟩ := Option.bind_eq_some_iff.mp hstep
    obtain ⟨l, hl, rfl⟩ := Option.map_eq_some_iff.mp hstep
    exact h.performed hreactor (Listening.keeps_performFrom hl).registered
      fun _ _ hreg hwatches hbefore => Listening.told_performFrom hreg hl hclear hwatches hbefore
  | kernel event =>
    cases hstep
    have hkeeps := Listening.keeps_apply s.listening event
    have hsame : (s.listening.apply event).kernel.registered = s.listening.kernel.registered :=
      hkeeps.registered
    refine ⟨h.quiet, fun hopen hne t ht => ?_, fun t ht => ?_, fun t hreg hwatches => ?_⟩
    · exact (congrFun hsame t).trans (h.registered hopen hne t ht)
    · exact (congrFun hsame t).trans (h.waits t ht)
    · exact hkeeps.told (h.told t ((congrFun hsame t).symm.trans hreg) hwatches)

theorem initial_watching (supported : Bool) (backlog : List Connection) :
    (initial supported backlog).watched.Watching := by
  have h := Watched.initial_watching supported fun t =>
    t = .read && (Listening.register supported backlog).hasAcceptable
  refine h.of_edges rfl rfl fun t hedge => ?_
  simp only [Watched.initial, Kernel.register, initial, Listening.kernel,
    Listening.register, Bool.and_eq_true, decide_eq_true_eq, Bool.not_eq_true'] at hedge ⊢
  obtain ⟨⟨hsupported, -⟩, ht, hacceptable⟩ := hedge
  refine ⟨ht, hsupported, eq_false_of_ne_true fun hempty => ?_⟩
  rw [Listening.hasAcceptable, List.isEmpty_iff.mp hempty] at hacceptable
  cases hacceptable

/-- As long as no accept meets an aborted connection in front of one that can be accepted, an accept
that waits has an edge to come, or the scheduler has the descriptor in its queue with the event,
unless a thread has taken it from there. -/
theorem accept_edge_pending {supported : Bool} {backlog : List Connection}
    (h : Reachable (step flags accepts) (Clear flags accepts) (initial supported backlog) s)
    (hwaits : ∃ op ∈ s.reactor.data.opQueue .read, accepts op.id = true)
    (hfree : ∀ events ∈ s.reactor.running, ¬ Watched.Concerns events .read)
    (hacceptable : s.listening.hasAcceptable = true) :
    s.listening.edge = true ∨
      (s.reactor.enqueued = true ∧ Watched.Concerns s.reactor.data.taskResult .read) := by
  have hwatching : s.watched.Watching :=
    h.invariant (initial_watching supported backlog) fun hs hclear hstep =>
      watching_step hs hclear hstep
  obtain ⟨op, hop, -⟩ := hwaits
  have hne : s.reactor.data.opQueue .read ≠ [] := List.ne_nil_of_mem hop
  have hreg := hwatching.waits .read hne
  obtain ⟨-, htold⟩ := Listening.told_iff.mp (hwatching.told .read hreg (.inl hne))
  rcases htold rfl hacceptable with hedge | hqueued | ⟨events, hmem, hconcerns⟩
  · exact .inl hedge
  · exact .inr hqueued
  · exact absurd hconcerns (hfree events hmem)

/-- An accept that is not done. -/
def wouldBlock : ReactorOp.Outcome := ⟨.notDone, 11, 0⟩

/-- An accept waits, and two connections arrive. -/
def acceptWaits (first : Connection) : List Action :=
  [.startOp .read ⟨0, 0, 0, 0⟩ false true wouldBlock ⟨0, none, []⟩, .kernel (.arrives first),
    .kernel (.arrives (.acceptable 7))]

theorem accept_edge_pending_arrivals :
    ∃ s, Reachable (step ⟨false, true, false⟩ fun _ => true) (Clear ⟨false, true, false⟩ fun _ => true)
        (initial true []) s ∧ s.listening.hasAcceptable = true ∧
      (s.listening.edge = true ∨
        (s.reactor.enqueued = true ∧ Watched.Concerns s.reactor.data.taskResult .read)) := by
  have hrun : (exec (guarded (step ⟨false, true, false⟩ fun _ => true)
      (Clear ⟨false, true, false⟩ fun _ => true)) (initial true [])
      (acceptWaits (.acceptable 6))).map (fun s => (s.reactor.data.opQueue .read,
        s.reactor.running, s.listening.hasAcceptable)) =
      some ([⟨0, 11, 0, 0⟩], [], true) := by
    decide +kernel
  obtain ⟨s, hs, hread⟩ := Option.map_eq_some_iff.mp hrun
  simp only [Prod.mk.injEq] at hread
  obtain ⟨hqueue, hrunning, hacceptable⟩ := hread
  have hreachable := exec_guarded_reachable hs
  refine ⟨s, hreachable, hacceptable, accept_edge_pending hreachable ?_ ?_ hacceptable⟩
  · exact ⟨_, by rw [hqueue]; exact List.mem_singleton_self _, rfl⟩
  · simp [hrunning]

/-- The edge has been used up for a connection that was aborted, and the one behind it waits. -/
theorem accept_edge_lost :
    ¬ ∀ s, Reachable (step ⟨false, true, false⟩ fun _ => true) (fun _ _ => True) (initial true []) s →
      s.reactor.data.opQueue .read ≠ [] → s.reactor.running = [] →
      s.listening.hasAcceptable = true →
      s.listening.edge = true ∨ s.reactor.enqueued = true := by
  intro h
  have hrun : (exec (guarded (step ⟨false, true, false⟩ fun _ => true) fun _ _ => True)
      (initial true []) (acceptWaits .aborted ++ [.run inEvent, .dequeue,
        .performIo inEvent (fun _ => wouldBlock) fun _ => ⟨0, none, []⟩])).map (fun s =>
        (s.reactor.data.opQueue .read, s.reactor.running, s.listening.hasAcceptable,
          s.listening.edge, s.reactor.enqueued)) =
      some ([⟨0, 11, 0, 0⟩], [], true, false, false) := by
    decide +kernel
  obtain ⟨s, hs, hread⟩ := Option.map_eq_some_iff.mp hrun
  simp only [Prod.mk.injEq] at hread
  obtain ⟨hqueue, hrunning, hacceptable, hedge, hqueued⟩ := hread
  rcases h s (exec_guarded_reachable hs) (by rw [hqueue]; exact List.cons_ne_nil _ _) hrunning
    hacceptable with hedge' | hqueued'
  · rw [hedge] at hedge'
    cases hedge'
  · rw [hqueued] at hqueued'
    cases hqueued'

end Acceptor

end Asio.Detail.Epoll
