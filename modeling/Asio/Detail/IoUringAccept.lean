import Asio.Detail.SocketAccept

/-! Accepting a connection on io_uring, where the ring accepts it or polls for it. -/

namespace Asio.Detail.IoUring

open SocketAccept

structure SocketAcceptOp where
  state : State
  ec : Option ErrorCode
  bytesTransferred : Nat
  newSocket : Option Nat
  deriving DecidableEq

/-- What is put on the ring. -/
inductive Prepared
  | pollAdd | accept
  deriving DecidableEq

namespace SocketAcceptOp

def new (state : State) : SocketAcceptOp := ⟨state, none, 0, none⟩

def outcome (op : SocketAcceptOp) : Outcome := ⟨op.ec, op.newSocket⟩

def doPrepare (op : SocketAcceptOp) : Prepared :=
  if op.state.internalNonBlocking then .pollAdd else .accept

/-- Whether the operation is done; without an answer of the system call nothing is known. -/
def doPerform (op : SocketAcceptOp) (afterCompletion : Bool) (rs : List Result) :
    Option ((Bool × SocketAcceptOp) × List Result) :=
  if op.state.internalNonBlocking then
    (nonBlockingAccept op.state rs).map fun ((result, outcome), rest) =>
      ((result, { op with ec := outcome.ec, newSocket := outcome.newSocket }), rest)
  else if op.ec = some .wouldBlock then
    some ((false, { op with state := { op.state with internalNonBlocking := true } }), rs)
  else
    some ((afterCompletion,
      if afterCompletion ∧ op.ec = none then { op with newSocket := some op.bytesTransferred }
      else op), rs)

/-- The result of what has been on the ring. -/
def setResult (op : SocketAcceptOp) : Result → SocketAcceptOp
  | .accepted socket => { op with ec := none, bytesTransferred := socket }
  | .failed ec => { op with ec := some ec, bytesTransferred := 0 }

/-- The events of a poll that has completed. -/
def pollIn : Nat := 1

/-- `perform_io` for the operation in front, and with what answers it has been left: it is prepared
again when what has been on the ring was cancelled without a request. -/
def completion (op : SocketAcceptOp) (rs : List Result) :
    Option ((Bool × SocketAcceptOp) × List Result) :=
  match op.doPrepare with
  | .pollAdd => (op.setResult (.accepted pollIn)).doPerform true rs
  | .accept =>
    match rs with
    | [] => none
    | .failed .operationCanceled :: rest => some ((false, op), rest)
    | result :: rest => (op.setResult result).doPerform true rest

theorem doPerform_internal {op : SocketAcceptOp} (h : op.state.internalNonBlocking = true)
    (afterCompletion : Bool) (rs : List Result) :
    op.doPerform afterCompletion rs =
      (nonBlockingAccept op.state rs).map fun ((result, outcome), rest) =>
        ((result, { op with ec := outcome.ec, newSocket := outcome.newSocket }), rest) := by
  rw [doPerform, if_pos h]

theorem completion_length {op op' : SocketAcceptOp} {rs rest : List Result} {done : Bool}
    (h : op.completion rs = some ((done, op'), rest)) : rest.length < rs.length := by
  have hlength {op : SocketAcceptOp} {afterCompletion : Bool}
      (hinternal : op.state.internalNonBlocking = true)
      (h : op.doPerform afterCompletion rs = some ((done, op'), rest)) : rest.length < rs.length := by
    rw [doPerform_internal hinternal, Option.map_eq_some_iff] at h
    obtain ⟨r, hr, heq⟩ := h
    cases heq
    exact nonBlockingAccept_length hr
  have hle {op : SocketAcceptOp} {rs : List Result}
      (hinternal : ¬ op.state.internalNonBlocking = true)
      (h : op.doPerform true rs = some ((done, op'), rest)) : rest = rs := by
    rw [doPerform, if_neg hinternal] at h
    split at h
    · cases h
      rfl
    · cases h
      rfl
  unfold completion doPrepare at h
  by_cases hinternal : op.state.internalNonBlocking = true
  · rw [if_pos hinternal] at h
    exact hlength (by exact hinternal) h
  · rw [if_neg hinternal] at h
    dsimp only at h
    split at h
    · cases h
    · cases h
      exact Nat.lt_succ_self _
    · rename_i result rest' _
      have hrest : rest = rest' := by
        cases result <;> exact hle (by exact hinternal) h
      rw [hrest]
      exact Nat.lt_succ_self _

/-- From one completion of the ring to the next. -/
def run (op : SocketAcceptOp) (rs : List Result) : Option (Outcome × List Result) :=
  match _h : op.completion rs with
  | none => none
  | some ((done, op), rest) => if done then some (op.outcome, rest) else op.run rest
termination_by rs.length
decreasing_by exact completion_length _h

end SocketAcceptOp

/-- An asynchronous accept, which is performed once before there is anything on the ring. -/
def asyncAccept (state : State) (rs : List Result) : Option (Outcome × List Result) :=
  ((SocketAcceptOp.new state).doPerform false rs).bind fun ((done, op), rest) =>
    if done then some (op.outcome, rest) else op.run rest

/-! ### Polling -/

section Polling

variable {op : SocketAcceptOp} {state : State} {rs : List Result}

theorem SocketAcceptOp.run_eq (op : SocketAcceptOp) (rs : List Result) :
    op.run rs = (op.completion rs).bind fun ((done, op), rest) =>
      if done then some (op.outcome, rest) else op.run rest := by
  rw [run]
  split
  · rename_i h
    rw [h, Option.bind_none]
  · rename_i h
    rw [h, Option.bind_some]

theorem completion_polling (h : op.state.internalNonBlocking = true) (rs : List Result) :
    op.completion rs = (op.setResult (.accepted SocketAcceptOp.pollIn)).doPerform true rs := by
  unfold SocketAcceptOp.completion SocketAcceptOp.doPrepare
  rw [h]
  rfl

/-- Every poll that completes is followed by a call of `non_blocking_accept`. -/
theorem run_polling (h : op.state.internalNonBlocking = true) :
    op.run rs = repeatedAccept op.state rs := by
  induction hn : rs.length using Nat.strongRecOn generalizing op rs with
  | ind n ih =>
    rw [SocketAcceptOp.run_eq, repeatedAccept_eq, completion_polling h,
      SocketAcceptOp.doPerform_internal (by exact h)]
    cases hr : nonBlockingAccept op.state rs with
    | none =>
      have : nonBlockingAccept (op.setResult (.accepted SocketAcceptOp.pollIn)).state rs = none := hr
      rw [this]
      rfl
    | some r =>
      obtain ⟨⟨done, outcome⟩, rest⟩ := r
      have : nonBlockingAccept (op.setResult (.accepted SocketAcceptOp.pollIn)).state rs =
          some ((done, outcome), rest) := hr
      rw [this, Option.map_some, Option.bind_some, Option.bind_some]
      cases done with
      | true => rfl
      | false => exact ih _ (hn ▸ nonBlockingAccept_length hr) (by exact h) rfl

theorem asyncAccept_polling (h : state.internalNonBlocking = true) :
    asyncAccept state rs = repeatedAccept state rs := by
  rw [asyncAccept, SocketAcceptOp.doPerform_internal (by exact h), repeatedAccept_eq]
  change Option.bind (Option.map _ (nonBlockingAccept state rs)) _ = _
  cases hr : nonBlockingAccept state rs with
  | none => rfl
  | some r =>
    obtain ⟨⟨done, outcome⟩, rest⟩ := r
    rw [Option.map_some, Option.bind_some, Option.bind_some]
    cases done with
    | true => rfl
    | false => exact run_polling (by exact h)

end Polling

/-! ### Accepting on the ring -/

section Direct

variable {op : SocketAcceptOp} {state : State} {rs rest : List Result} {ec : ErrorCode}
variable {result : Result} {r : Outcome}

/-- Nothing is performed before there is something on the ring. -/
theorem asyncAccept_direct (h : state.internalNonBlocking = false) (rs : List Result) :
    asyncAccept state rs = (SocketAcceptOp.new state).run rs := by
  rw [asyncAccept, SocketAcceptOp.doPerform, SocketAcceptOp.new]
  simp [h]

theorem completion_nil (h : op.state.internalNonBlocking = false) : op.completion [] = none := by
  rw [SocketAcceptOp.completion, SocketAcceptOp.doPrepare, h]
  rfl

theorem completion_canceled (h : op.state.internalNonBlocking = false) (rest : List Result) :
    op.completion (.failed .operationCanceled :: rest) = some ((false, op), rest) := by
  rw [SocketAcceptOp.completion, SocketAcceptOp.doPrepare, h]
  rfl

theorem completion_cons (h : op.state.internalNonBlocking = false)
    (hr : result ≠ .failed .operationCanceled) (rest : List Result) :
    op.completion (result :: rest) = (op.setResult result).doPerform true rest := by
  unfold SocketAcceptOp.completion SocketAcceptOp.doPrepare
  rw [h]
  cases result with
  | accepted socket => rfl
  | failed ec =>
    cases ec with
    | operationCanceled => exact absurd rfl hr
    | wouldBlock | connectionAborted | eproto | interrupted | other => rfl

theorem asyncAccept_nil (state : State) : asyncAccept state [] = none := by
  cases h : state.internalNonBlocking with
  | true => rw [asyncAccept_polling h, repeatedAccept_nil]
  | false => rw [asyncAccept_direct h, SocketAcceptOp.run_eq, completion_nil h, Option.bind_none]

theorem asyncAccept_accepted (h : state.internalNonBlocking = false) (socket : Nat)
    (rest : List Result) :
    asyncAccept state (.accepted socket :: rest) = some (⟨none, some socket⟩, rest) := by
  rw [asyncAccept_direct h, SocketAcceptOp.run_eq, completion_cons h (by simp),
    SocketAcceptOp.doPerform]
  simp [h, SocketAcceptOp.new, SocketAcceptOp.setResult, SocketAcceptOp.outcome]

theorem asyncAccept_canceled (h : state.internalNonBlocking = false) (rest : List Result) :
    asyncAccept state (.failed .operationCanceled :: rest) = asyncAccept state rest := by
  rw [asyncAccept_direct h, asyncAccept_direct h, SocketAcceptOp.run_eq, completion_canceled h]
  rfl

/-- The operation polls from then on. -/
theorem asyncAccept_wouldBlock (h : state.internalNonBlocking = false) (rest : List Result) :
    asyncAccept state (.failed .wouldBlock :: rest) = repeatedAccept state rest := by
  rw [asyncAccept_direct h, SocketAcceptOp.run_eq, completion_cons h (by simp),
    SocketAcceptOp.doPerform]
  simp only [SocketAcceptOp.new, SocketAcceptOp.setResult, h, Bool.false_eq_true, if_false, if_true,
    Option.bind_some]
  rw [run_polling rfl, repeatedAccept_internal]

theorem asyncAccept_failed (h : state.internalNonBlocking = false) (hc : ec ≠ .operationCanceled)
    (hw : ec ≠ .wouldBlock) (rest : List Result) :
    asyncAccept state (.failed ec :: rest) = some (⟨some ec, none⟩, rest) := by
  rw [asyncAccept_direct h, SocketAcceptOp.run_eq, completion_cons h (by simp [hc]),
    SocketAcceptOp.doPerform]
  simp [h, hw, SocketAcceptOp.new, SocketAcceptOp.setResult, SocketAcceptOp.outcome]

theorem asyncAccept_length (h : asyncAccept state rs = some (r, rest)) :
    rest.length < rs.length := by
  cases hinternal : state.internalNonBlocking with
  | true =>
    rw [asyncAccept_polling hinternal] at h
    exact repeatedAccept_length h
  | false =>
    induction rs with
    | nil =>
      rw [asyncAccept_nil] at h
      cases h
    | cons result rs ih =>
      cases result with
      | accepted socket =>
        rw [asyncAccept_accepted hinternal] at h
        cases h
        exact Nat.lt_succ_self _
      | failed ec =>
        by_cases hc : ec = .operationCanceled
        · rw [hc, asyncAccept_canceled hinternal] at h
          exact Nat.lt_succ_of_lt (ih h)
        · by_cases hw : ec = .wouldBlock
          · rw [hw, asyncAccept_wouldBlock hinternal] at h
            exact Nat.lt_succ_of_lt (repeatedAccept_length h)
          · rw [asyncAccept_failed hinternal hc hw] at h
            cases h
            exact Nat.lt_succ_self _

end Direct

/-! ### When it agrees with the others -/

/-- The socket polls from the start, or what the ring answers first is as it would be without it. -/
def RingAnswers (state : State) (rs : List Result) : Prop :=
  state.internalNonBlocking = true ∨ ∀ ec, rs.head? = some (.failed ec) →
    ec = .wouldBlock ∨ ec ≠ .operationCanceled ∧ completes state ec = true

/-- With the same answers the accept ends after the same answer, and in the same way, as calls of
`non_blocking_accept` and as `sync_accept` if that needs all of the answers; and it does not fail
with an aborted connection unless that is enabled. -/
structure Agrees (state : State) (rs : List Result) : Prop where
  repeated : asyncAccept state rs = repeatedAccept state rs
  sync : ∀ r r', asyncAccept state rs = some (r, []) →
    syncAccept state (rs.map fun result => (result, none)) = some (r', []) → r = r'
  aborted : ∀ r rest, asyncAccept state rs = some (r, rest) → r.ec = some .connectionAborted →
    state.enableConnectionAborted = true

theorem asyncAccept_eq_repeatedAccept_iff (state : State) (rs : List Result) :
    asyncAccept state rs = repeatedAccept state rs ↔ RingAnswers state rs := by
  unfold RingAnswers
  cases hinternal : state.internalNonBlocking with
  | true => simp [asyncAccept_polling hinternal]
  | false =>
    cases rs with
    | nil => simp [asyncAccept_nil]
    | cons result rest =>
      cases result with
      | accepted socket => simp [asyncAccept_accepted hinternal]
      | failed ec =>
        simp only [List.head?_cons, Option.some.injEq, Result.failed.injEq, Bool.false_eq_true,
          false_or, forall_eq']
        rw [repeatedAccept_failed]
        by_cases hw : ec = .wouldBlock
        · subst hw
          simp [asyncAccept_wouldBlock hinternal, completes]
        · by_cases hc : ec = .operationCanceled
          · subst hc
            rw [asyncAccept_canceled hinternal]
            simp only [completes, if_true, ne_eq, not_true_eq_false, false_and, or_false, hw, iff_false]
            exact fun h => Nat.lt_irrefl _ (asyncAccept_length h)
          · rw [asyncAccept_failed hinternal hc hw]
            cases hdone : completes state ec with
            | true => simp [hc]
            | false =>
              simp only [hw, Bool.false_eq_true, if_false, and_false, or_false, iff_false]
              exact fun h => Nat.lt_irrefl _ (repeatedAccept_length h.symm)

theorem asyncAccept_agrees_iff (state : State) (rs : List Result) :
    Agrees state rs ↔ RingAnswers state rs := by
  rw [← asyncAccept_eq_repeatedAccept_iff]
  constructor
  · exact Agrees.repeated
  · intro h
    refine ⟨h, fun r r' hr hr' => ?_, fun r rest hr hec => ?_⟩
    · exact repeatedAccept_eq_syncAccept (h ▸ hr) hr'
    · exact enabled_of_connectionAborted (h ▸ hr) hec

/-- A connection that was aborted while it waited, and one that can be accepted. -/
theorem not_agrees_of_connectionAborted :
    ¬ ∀ (state : State) (rs : List Result), Agrees state rs := by
  intro h
  have hec := (h ⟨false, false, false⟩ [.failed .connectionAborted, .accepted 7]).aborted
    ⟨some .connectionAborted, none⟩ [.accepted 7] (asyncAccept_failed rfl (by decide) (by decide) _) rfl
  cases hec

end Asio.Detail.IoUring
