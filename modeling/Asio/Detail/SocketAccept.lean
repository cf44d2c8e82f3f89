import Mathlib.Data.List.Basic

/-! Accepting connections: the loops around the system call. -/

namespace Asio.Detail.SocketAccept

/-- `try_again` is the same value as `would_block`. -/
inductive ErrorCode
  | wouldBlock | connectionAborted | eproto | interrupted | operationCanceled | other (value : Nat)
  deriving DecidableEq

/-- The flags of a socket that accepting goes by. -/
structure State where
  userSetNonBlocking : Bool
  internalNonBlocking : Bool
  enableConnectionAborted : Bool
  deriving DecidableEq

/-- What the system call answers. -/
inductive Result
  | accepted (socket : Nat)
  | failed (ec : ErrorCode)
  deriving DecidableEq

/-- How an operation ends: the error, and the new socket unless it is `invalid_socket`. -/
structure Outcome where
  ec : Option ErrorCode
  newSocket : Option Nat
  deriving DecidableEq

/-- The call is made until it is not interrupted. It is done or it is not, and there are the answers
that are still to come. -/
def nonBlockingAccept (state : State) : List Result → Option ((Bool × Outcome) × List Result)
  | [] => none
  | .accepted socket :: rest => some ((true, ⟨none, some socket⟩), rest)
  | .failed ec :: rest =>
    if ec = .interrupted then
      nonBlockingAccept state rest
    else
      let done :=
        if ec = .wouldBlock then false
        else if ec = .connectionAborted then state.enableConnectionAborted
        else if ec = .eproto then state.enableConnectionAborted
        else true
      some ((done, ⟨some ec, none⟩), rest)

/-- `sync_accept`, with what `poll_read` comes to after each answer if it is called. -/
def syncAccept (state : State) :
    List (Result × Option ErrorCode) → Option (Outcome × List (Result × Option ErrorCode))
  | [] => none
  | (.accepted socket, _) :: rest => some (⟨none, some socket⟩, rest)
  | (.failed ec, pollRead) :: rest =>
    let done :=
      if ec = .wouldBlock then state.userSetNonBlocking
      else if ec = .connectionAborted then state.enableConnectionAborted
      else if ec = .eproto then state.enableConnectionAborted
      else true
    if done then some (⟨some ec, none⟩, rest)
    else
      match pollRead with
      | some ec => some (⟨some ec, none⟩, rest)
      | none => syncAccept state rest

/-- Whether an error ends the calls of `non_blocking_accept`. -/
def completes (state : State) (ec : ErrorCode) : Bool :=
  match ec with
  | .interrupted | .wouldBlock => false
  | .connectionAborted | .eproto => state.enableConnectionAborted
  | .operationCanceled | .other _ => true

/-- Whether an error ends `sync_accept`. -/
def syncCompletes (state : State) (ec : ErrorCode) : Bool :=
  match ec with
  | .wouldBlock => state.userSetNonBlocking
  | .connectionAborted | .eproto => state.enableConnectionAborted
  | .interrupted | .operationCanceled | .other _ => true

theorem syncAccept_failed (state : State) (ec : ErrorCode)
    (rest : List (Result × Option ErrorCode)) : syncAccept state ((.failed ec, none) :: rest) =
      if syncCompletes state ec then some (⟨some ec, none⟩, rest) else syncAccept state rest := by
  rw [syncAccept]
  cases ec <;> rfl

theorem nonBlockingAccept_failed {state : State} {ec : ErrorCode} (h : ec ≠ .interrupted)
    (rest : List Result) : nonBlockingAccept state (.failed ec :: rest) =
      some ((completes state ec, ⟨some ec, none⟩), rest) := by
  rw [nonBlockingAccept, if_neg h]
  cases ec with
  | interrupted => exact absurd rfl h
  | wouldBlock | connectionAborted | eproto | operationCanceled | other => rfl

theorem nonBlockingAccept_length {state : State} {rs rest : List Result} {r : Bool × Outcome}
    (h : nonBlockingAccept state rs = some (r, rest)) : rest.length < rs.length := by
  induction rs with
  | nil => cases h
  | cons result rs ih =>
    cases result with
    | accepted socket =>
      cases h
      exact Nat.lt_succ_self _
    | failed ec =>
      unfold nonBlockingAccept at h
      split at h
      · exact Nat.lt_succ_of_lt (ih h)
      · cases h
        exact Nat.lt_succ_self _

/-- `non_blocking_accept` is called again and again until it is done. -/
def repeatedAccept (state : State) (rs : List Result) : Option (Outcome × List Result) :=
  match _h : nonBlockingAccept state rs with
  | none => none
  | some ((done, outcome), rest) =>
    if done then some (outcome, rest) else repeatedAccept state rest
termination_by rs.length
decreasing_by exact nonBlockingAccept_length _h

section Repeated

variable {state : State} {ec : ErrorCode} {rs rest : List Result} {r : Outcome}

theorem repeatedAccept_eq (state : State) (rs : List Result) :
    repeatedAccept state rs = (nonBlockingAccept state rs).bind fun ((done, outcome), rest) =>
      if done then some (outcome, rest) else repeatedAccept state rest := by
  rw [repeatedAccept]
  split
  · rename_i h
    rw [h, Option.bind_none]
  · rename_i h
    rw [h, Option.bind_some]

@[simp] theorem repeatedAccept_nil (state : State) : repeatedAccept state [] = none := by
  rw [repeatedAccept_eq]
  rfl

@[simp] theorem repeatedAccept_accepted (state : State) (socket : Nat) (rest : List Result) :
    repeatedAccept state (.accepted socket :: rest) = some (⟨none, some socket⟩, rest) := by
  rw [repeatedAccept_eq]
  rfl

theorem repeatedAccept_failed (state : State) (ec : ErrorCode) (rest : List Result) :
    repeatedAccept state (.failed ec :: rest) =
      if completes state ec then some (⟨some ec, none⟩, rest) else repeatedAccept state rest := by
  rw [repeatedAccept_eq]
  by_cases h : ec = .interrupted
  · subst h
    rw [nonBlockingAccept, if_pos rfl, ← repeatedAccept_eq]
    rfl
  · rw [nonBlockingAccept_failed h, Option.bind_some]

theorem repeatedAccept_length (h : repeatedAccept state rs = some (r, rest)) :
    rest.length < rs.length := by
  induction rs with
  | nil =>
    rw [repeatedAccept_nil] at h
    cases h
  | cons result rs ih =>
    cases result with
    | accepted socket =>
      rw [repeatedAccept_accepted] at h
      cases h
      exact Nat.lt_succ_self _
    | failed ec =>
      rw [repeatedAccept_failed] at h
      split at h
      · cases h
        exact Nat.lt_succ_self _
      · exact Nat.lt_succ_of_lt (ih h)

/-- Only the option lets an accept fail with an aborted connection. -/
theorem enabled_of_connectionAborted (h : repeatedAccept state rs = some (r, rest))
    (hec : r.ec = some .connectionAborted) : state.enableConnectionAborted = true := by
  induction rs with
  | nil =>
    rw [repeatedAccept_nil] at h
    cases h
  | cons result rs ih =>
    cases result with
    | accepted socket =>
      rw [repeatedAccept_accepted] at h
      cases h
      cases hec
    | failed ec =>
      rw [repeatedAccept_failed] at h
      split at h
      · rename_i hdone
        cases h
        cases hec
        exact hdone
      · exact ih h

theorem repeatedAccept_internal (state : State) (b : Bool) (rs : List Result) :
    repeatedAccept { state with internalNonBlocking := b } rs = repeatedAccept state rs := by
  induction rs with
  | nil => rw [repeatedAccept_nil, repeatedAccept_nil]
  | cons result rs ih =>
    cases result with
    | accepted socket => rw [repeatedAccept_accepted, repeatedAccept_accepted]
    | failed ec =>
      rw [repeatedAccept_failed, repeatedAccept_failed, ih]
      rfl

/-- What needs all of the answers ends with the last of them. -/
theorem repeatedAccept_eq_syncAccept {r' : Outcome} (h : repeatedAccept state rs = some (r, []))
    (h' : syncAccept state (rs.map fun result => (result, none)) = some (r', [])) : r = r' := by
  induction rs with
  | nil =>
    rw [repeatedAccept_nil] at h
    cases h
  | cons result rs ih =>
    cases result with
    | accepted socket =>
      rw [repeatedAccept_accepted] at h
      cases h
      cases h'
      rfl
    | failed ec =>
      rw [repeatedAccept_failed] at h
      rw [List.map_cons, syncAccept_failed] at h'
      split at h
      · rename_i hdone
        have hsync : syncCompletes state ec = true := by
          cases ec with
          | wouldBlock | interrupted => cases hdone
          | connectionAborted | eproto => exact hdone
          | operationCanceled | other => rfl
        rw [if_pos hsync] at h'
        cases h
        cases h'
        rfl
      · split at h'
        · -- There is an answer left that the calls need.
          rw [Option.some.injEq, Prod.mk.injEq, List.map_eq_nil_iff] at h'
          rw [h'.2, repeatedAccept_nil] at h
          cases h
        · exact ih h h'

end Repeated

end Asio.Detail.SocketAccept
