import Mathlib.Data.List.Basic

/-! Connecting to one endpoint of a sequence, synchronously and asynchronously. -/

universe u v

namespace Asio.Connect

inductive Error
  | notFound
  | operationAborted
  | system (code : Nat)
  deriving DecidableEq

/-- What becomes of an attempt to connect the closed socket: the socket is opened first, and when
that fails it stays closed. -/
inductive Attempt
  | connected
  | refused (ec : Error)
  | notOpened (code : Nat)
  deriving DecidableEq

def Attempt.ec : Attempt → Option Error
  | .connected => none
  | .refused ec => some ec
  | .notOpened code => some (.system code)

def Attempt.isOpen : Attempt → Bool
  | .notOpened _ => false
  | _ => true

/-- What can be seen: a call of the user's condition, an attempt, and the result. Iterators are
positions in the sequence, and one that is not the end is the position of an endpoint. -/
inductive Event
  | condition (ec : Option Error) (iter : Nat)
  | attempt (iter : Nat)
  | done (ec : Option Error) (iter : Option Nat)
  deriving DecidableEq

/-- A connect condition, with the state that it may have. -/
inductive Condition (σ : Type u) (ε : Type v)
  | default
  | predicate (f : σ → Option Error → ε → Bool × σ)
  | legacy (f : σ → Option Error → Nat → Nat × σ)

structure Check (σ : Type u) where
  calls : List Event
  state : σ
  iter : Nat

variable {σ : Type u} {ε : Type v}

/-- The loop of `call_connect_condition` over the endpoints from `next` on. -/
def findNext (f : σ → Option Error → ε → Bool × σ) (ec : Option Error) (state : σ) (next : Nat) :
    List ε → Check σ
  | [] => ⟨[], state, next⟩
  | endpoint :: endpoints =>
    let r := f state ec endpoint
    if r.1 then ⟨[.condition ec next], r.2, next⟩
    else
      let c := findNext f ec r.2 (next + 1) endpoints
      { c with calls := .condition ec next :: c.calls }

section

variable (endpoints : List ε) (condition : Condition σ ε)

/-- The calls of the default condition are not seen. -/
def callConnectCondition (state : σ) (ec : Option Error) (next : Nat) : Check σ :=
  match condition with
  | .default =>
    { findNext (fun state _ _ => (true, state)) ec state next (endpoints.drop next) with
      calls := [] }
  | .predicate f => findNext f ec state next (endpoints.drop next)
  | .legacy f =>
    if next < endpoints.length then
      let r := f state ec next
      ⟨[.condition ec next], r.2, r.1⟩
    else ⟨[], state, next⟩

/-- The default condition is not called at all by the operations. -/
def checkCondition (state : σ) (ec : Option Error) (iter : Nat) : Check σ :=
  match condition with
  | .default => ⟨[], state, iter⟩
  | _ => callConnectCondition endpoints condition state ec iter

/-! ### Synchronously -/

def connectEnd (ec : Option Error) : List Event := [.done (ec.or (some .notFound)) none]

/-- The loop of `connect`, with what becomes of the attempts that it makes. -/
def connectLoop (state : σ) (ec : Option Error) (iter : Nat) (attempts : List Attempt) :
    List Event :=
  if iter < endpoints.length then
    let c := callConnectCondition endpoints condition state ec iter
    c.calls ++
      if c.iter < endpoints.length then
        .attempt c.iter ::
          match attempts with
          | [] => []
          | a :: attempts =>
            match a.ec with
            | none => [.done none (some c.iter)]
            | some ec => connectLoop c.state (some ec) (c.iter + 1) attempts
      else connectEnd ec
  else connectEnd ec

def connect (state : σ) (attempts : List Attempt) : List Event :=
  connectLoop endpoints condition state none 0 attempts

/-! ### Asynchronously -/

/-- Where an operation returns: when it has started an attempt, or calls the handler. -/
inductive Next (α : Type u)
  | attempt (op : α)
  | handler (ec : Option Error) (iter : Option Nat)

end

structure RangeConnectOp (σ : Type u) where
  conditionState : σ
  index : Nat

structure IteratorConnectOp (σ : Type u) where
  conditionState : σ
  iter : Nat

namespace RangeConnectOp

variable (endpoints : List ε) (condition : Condition σ ε)

/-- The beginning of the loop, with what the condition says of `iter`. -/
def check (op : RangeConnectOp σ) (ec : Option Error) (iter : Nat) :
    List Event × RangeConnectOp σ :=
  let c := checkCondition endpoints condition op.conditionState ec iter
  (c.calls, { conditionState := c.state, index := c.iter })

/-- An attempt has come to its end. The rest of the loop goes from the `default` label to the next
attempt, or to the end of it. -/
def resume (op : RangeConnectOp σ) (ec : Option Error) (isOpen : Bool) :
    List Event × Next (RangeConnectOp σ) :=
  let iter := op.index
  if ¬ iter < endpoints.length then ([], .handler ec none)
  else if !isOpen then ([], .handler (some .operationAborted) none)
  else if ec = none then ([], .handler none (some iter))
  else
    let r := { op with index := op.index + 1 }.check endpoints condition ec (iter + 1)
    if r.2.index < endpoints.length then (r.1, .attempt r.2)
    else (r.1, .handler ec none)

/-- The call that starts the operation. At the end of the endpoints it is posted with
`not_found`. -/
def initiate (op : RangeConnectOp σ) (isOpen : Bool) : List Event × Next (RangeConnectOp σ) :=
  let r := op.check endpoints condition none op.index
  if r.2.index < endpoints.length then (r.1, .attempt r.2)
  else
    let posted := r.2.resume endpoints condition (some .notFound) isOpen
    (r.1 ++ posted.1, posted.2)

def run (r : List Event × Next (RangeConnectOp σ)) (attempts : List Attempt) : List Event :=
  r.1 ++
    match r.2 with
    | .handler ec iter => [.done ec iter]
    | .attempt op =>
      .attempt op.index ::
        match attempts with
        | [] => []
        | a :: attempts => run (op.resume endpoints condition a.ec a.isOpen) attempts

end RangeConnectOp

namespace IteratorConnectOp

variable (endpoints : List ε) (condition : Condition σ ε)

def check (op : IteratorConnectOp σ) (ec : Option Error) : List Event × IteratorConnectOp σ :=
  let c := checkCondition endpoints condition op.conditionState ec op.iter
  (c.calls, { conditionState := c.state, iter := c.iter })

/-- The iterator that the handler gets is the end, or that of an endpoint. -/
def result (op : IteratorConnectOp σ) : Option Nat :=
  if op.iter < endpoints.length then some op.iter else none

def resume (op : IteratorConnectOp σ) (ec : Option Error) (isOpen : Bool) :
    List Event × Next (IteratorConnectOp σ) :=
  if ¬ op.iter < endpoints.length then ([], .handler ec (op.result endpoints))
  else if !isOpen then ([], .handler (some .operationAborted) (op.result endpoints))
  else if ec = none then ([], .handler none (op.result endpoints))
  else
    let r := { op with iter := op.iter + 1 }.check endpoints condition ec
    if r.2.iter < endpoints.length then (r.1, .attempt r.2)
    else (r.1, .handler ec (r.2.result endpoints))

def initiate (op : IteratorConnectOp σ) (isOpen : Bool) :
    List Event × Next (IteratorConnectOp σ) :=
  let r := op.check endpoints condition none
  if r.2.iter < endpoints.length then (r.1, .attempt r.2)
  else
    let posted := r.2.resume endpoints condition (some .notFound) isOpen
    (r.1 ++ posted.1, posted.2)

def run (r : List Event × Next (IteratorConnectOp σ)) (attempts : List Attempt) : List Event :=
  r.1 ++
    match r.2 with
    | .handler ec iter => [.done ec iter]
    | .attempt op =>
      .attempt op.iter ::
        match attempts with
        | [] => []
        | a :: attempts => run (op.resume endpoints condition a.ec a.isOpen) attempts

end IteratorConnectOp

section

variable (endpoints : List ε) (condition : Condition σ ε)

/-- `async_connect` with a range of endpoints. The socket may be open before. -/
def asyncConnectRange (isOpen : Bool) (state : σ) (attempts : List Attempt) : List Event :=
  RangeConnectOp.run endpoints condition
    ((RangeConnectOp.mk state 0).initiate endpoints condition isOpen) attempts

/-- `async_connect` with a pair of iterators. -/
def asyncConnectIterator (isOpen : Bool) (state : σ) (attempts : List Attempt) : List Event :=
  IteratorConnectOp.run endpoints condition
    ((IteratorConnectOp.mk state 0).initiate endpoints condition isOpen) attempts

end

/-! ### What is reported -/

/-- What there is to see of connecting after the last attempt has failed with `ec`, if there was
one: the condition is called with this error, the first attempt that succeeds is the result, and
at the end it is this error, or `not_found`. -/
inductive Reports : Option Error → List Attempt → List Event → Prop
  | condition {ec iter attempts events} (h : Reports ec attempts events) :
    Reports ec attempts (.condition ec iter :: events)
  | pending {ec iter} : Reports ec [] [.attempt iter]
  | failed {ec iter a ec' attempts events} (ha : a.ec = some ec')
    (h : Reports (some ec') attempts events) :
    Reports ec (a :: attempts) (.attempt iter :: events)
  | connected {ec iter a attempts} (ha : a.ec = none) :
    Reports ec (a :: attempts) [.attempt iter, .done none (some iter)]
  | done {ec attempts} : Reports ec attempts [.done (some (ec.getD .notFound)) none]

section

variable {endpoints : List ε} {condition : Condition σ ε} {state : σ} {ec : Option Error}
  {iter : Nat} {attempts : List Attempt}

theorem findNext_calls (f : σ → Option Error → ε → Bool × σ) (remaining : List ε) :
    ∀ e ∈ (findNext f ec state iter remaining).calls, ∃ i, e = .condition ec i := by
  induction remaining generalizing state iter with
  | nil => simp [findNext]
  | cons endpoint remaining ih =>
    simp only [findNext]
    split
    · simp
    · intro e he
      rcases List.mem_cons.mp he with rfl | he
      · exact ⟨iter, rfl⟩
      · exact ih e he

theorem callConnectCondition_calls :
    ∀ e ∈ (callConnectCondition endpoints condition state ec iter).calls,
      ∃ i, e = .condition ec i := by
  cases condition with
  | default => simp [callConnectCondition]
  | predicate f => exact findNext_calls f _
  | legacy f =>
    simp only [callConnectCondition]
    split <;> simp

theorem checkCondition_eq :
    checkCondition endpoints condition state ec iter =
      callConnectCondition endpoints condition state ec iter := by
  cases condition with
  | default =>
    simp only [checkCondition, callConnectCondition]
    cases endpoints.drop iter <;> rfl
  | predicate f => rfl
  | legacy f => rfl

theorem callConnectCondition_end (h : endpoints.length ≤ iter) :
    callConnectCondition endpoints condition state ec iter = ⟨[], state, iter⟩ := by
  cases condition with
  | default => simp only [callConnectCondition, List.drop_of_length_le h, findNext]
  | predicate f => simp only [callConnectCondition, List.drop_of_length_le h, findNext]
  | legacy f => simp only [callConnectCondition, if_neg (Nat.not_lt.mpr h)]

/-- What follows the attempt at `iter`. -/
def afterAttempt (endpoints : List ε) (condition : Condition σ ε) (state : σ) (iter : Nat) :
    List Attempt → List Event
  | [] => []
  | a :: attempts =>
    match a.ec with
    | none => [.done none (some iter)]
    | some ec => connectLoop endpoints condition state (some ec) (iter + 1) attempts

theorem connectLoop_eq :
    connectLoop endpoints condition state ec iter attempts =
      (callConnectCondition endpoints condition state ec iter).calls ++
        if (callConnectCondition endpoints condition state ec iter).iter < endpoints.length then
          .attempt (callConnectCondition endpoints condition state ec iter).iter ::
            afterAttempt endpoints condition
              (callConnectCondition endpoints condition state ec iter).state
              (callConnectCondition endpoints condition state ec iter).iter attempts
        else connectEnd ec := by
  rw [connectLoop]
  by_cases hiter : iter < endpoints.length
  · rw [if_pos hiter]
    cases attempts <;> rfl
  · rw [callConnectCondition_end (Nat.le_of_not_lt hiter), if_neg hiter]
    simp only [if_neg hiter, List.nil_append]

theorem reports_calls {calls events : List Event} (hcalls : ∀ e ∈ calls, ∃ i, e = .condition ec i)
    (h : Reports ec attempts events) : Reports ec attempts (calls ++ events) := by
  induction calls with
  | nil => exact h
  | cons e calls ih =>
    obtain ⟨⟨i, rfl⟩, hrest⟩ := List.forall_mem_cons.mp hcalls
    exact .condition (ih hrest)

theorem connectLoop_reports :
    Reports ec attempts (connectLoop endpoints condition state ec iter attempts) := by
  induction attempts generalizing state ec iter with
  | nil =>
    rw [connectLoop_eq]
    refine reports_calls callConnectCondition_calls ?_
    split
    · exact .pending
    · cases ec <;> exact .done
  | cons a attempts ih =>
    rw [connectLoop_eq]
    refine reports_calls callConnectCondition_calls ?_
    split
    · rw [afterAttempt]
      split
      · rename_i ha
        exact .connected ha
      · rename_i ha
        exact .failed ha ih
    · cases ec <;> exact .done

/-- It does not end with another error than that of the last attempt. -/
theorem connectLoop_ne {code : Nat} {result : Option Nat} :
    connectLoop endpoints condition state (some (.system code)) iter attempts ≠
      [.done (some .operationAborted) result] := by
  intro h
  have hreports : Reports (some (.system code)) attempts
      (connectLoop endpoints condition state _ iter attempts) := connectLoop_reports
  rw [h] at hreports
  cases hreports

end

/-! ### Attempts that fail to open the socket -/

/-- The socket is opened in all attempts from the one at `iter` on. -/
def Opens (endpoints : List ε) (condition : Condition σ ε) (state : σ) (iter : Nat) :
    List Attempt → Prop
  | [] => True
  | a :: attempts =>
    a.isOpen ∧ ∀ ec, a.ec = some ec →
      let c := callConnectCondition endpoints condition state (some ec) (iter + 1)
      c.iter < endpoints.length → Opens endpoints condition c.state c.iter attempts

/-- The socket is opened in all attempts that are made. -/
def AllOpen (endpoints : List ε) (condition : Condition σ ε) (state : σ)
    (attempts : List Attempt) : Prop :=
  let c := callConnectCondition endpoints condition state none 0
  c.iter < endpoints.length → Opens endpoints condition c.state c.iter attempts

section

variable {endpoints : List ε} {condition : Condition σ ε}

/-- An operation that goes on as `connect` does when there is an attempt to make, and ends as it does
when there is none. -/
theorem append_attempt_iff {c : Check σ} {ec : Option Error} {attempts : List Attempt}
    {events : List Event}
    (hattempt : c.iter < endpoints.length →
      (events = .attempt c.iter :: afterAttempt endpoints condition c.state c.iter attempts ↔
        Opens endpoints condition c.state c.iter attempts))
    (hend : ¬ c.iter < endpoints.length → events = connectEnd ec) :
    (c.calls ++ events = c.calls ++
        if c.iter < endpoints.length then
          .attempt c.iter :: afterAttempt endpoints condition c.state c.iter attempts
        else connectEnd ec) ↔
      (c.iter < endpoints.length → Opens endpoints condition c.state c.iter attempts) := by
  rw [List.append_cancel_left_eq]
  by_cases hiter : c.iter < endpoints.length
  · simpa [hiter] using hattempt hiter
  · simp [hiter, hend hiter]

theorem opens_refused {state : σ} {iter : Nat} {ec : Error} {attempts : List Attempt} :
    Opens endpoints condition state iter (.refused ec :: attempts) ↔
      ((callConnectCondition endpoints condition state (some ec) (iter + 1)).iter <
          endpoints.length →
        Opens endpoints condition
          (callConnectCondition endpoints condition state (some ec) (iter + 1)).state
          (callConnectCondition endpoints condition state (some ec) (iter + 1)).iter
          attempts) := by
  simp [Opens, Attempt.isOpen, Attempt.ec]

section Loops

variable {α : Type u} {make : σ → Nat → α} {resume : α → Option Error → Bool → List Event × Next α}
  {run : List Event × Next α → List Attempt → List Event}

/-- An operation that goes on in the loop of `connect` when an attempt has come to its end, and
gives up when the socket is closed. -/
structure Resumes (endpoints : List ε) (condition : Condition σ ε) (make : σ → Nat → α)
    (resume : α → Option Error → Bool → List Event × Next α)
    (run : List Event × Next α → List Attempt → List Event) : Prop where
  append : ∀ calls next attempts, run (calls, next) attempts = calls ++ run ([], next) attempts
  handler : ∀ ec iter attempts, run ([], .handler ec iter) attempts = [.done ec iter]
  pending : ∀ state iter, run ([], .attempt (make state iter)) [] = [.attempt iter]
  attempt : ∀ state iter a attempts, run ([], .attempt (make state iter)) (a :: attempts) =
    .attempt iter :: run (resume (make state iter) a.ec a.isOpen) attempts
  connected : ∀ state iter, iter < endpoints.length →
    resume (make state iter) none true = ([], .handler none (some iter))
  refused : ∀ state iter ec, iter < endpoints.length →
    resume (make state iter) (some ec) true =
      let c := callConnectCondition endpoints condition state (some ec) (iter + 1)
      (c.calls,
        if c.iter < endpoints.length then .attempt (make c.state c.iter)
        else .handler (some ec) none)
  notOpened : ∀ state iter ec, iter < endpoints.length →
    ∃ result, resume (make state iter) ec false = ([], .handler (some .operationAborted) result)

theorem Resumes.attempt_iff (h : Resumes endpoints condition make resume run) (state : σ)
    (iter : Nat) (attempts : List Attempt) (hiter : iter < endpoints.length) :
    run ([], .attempt (make state iter)) attempts =
        .attempt iter :: afterAttempt endpoints condition state iter attempts ↔
      Opens endpoints condition state iter attempts := by
  induction attempts generalizing state iter with
  | nil =>
    rw [h.pending]
    simp [afterAttempt, Opens]
  | cons a attempts ih =>
    rw [h.attempt, List.cons.injEq, and_iff_right rfl]
    cases a with
    | connected =>
      simp only [Attempt.ec, Attempt.isOpen]
      rw [h.connected state iter hiter, h.handler]
      simp [afterAttempt, Opens, Attempt.ec, Attempt.isOpen]
    | refused ec =>
      change run (resume (make state iter) (some ec) true) attempts =
        connectLoop endpoints condition state (some ec) (iter + 1) attempts ↔ _
      rw [opens_refused, h.refused state iter ec hiter, h.append, connectLoop_eq]
      refine append_attempt_iff (fun hnext => ?_) fun hend => ?_
      · rw [if_pos hnext]
        exact ih _ _ hnext
      · rw [if_neg hend]
        exact h.handler ..
    | notOpened code =>
      obtain ⟨result, haborted⟩ := h.notOpened state iter (some (.system code)) hiter
      change run (resume (make state iter) (some (.system code)) false) attempts =
        connectLoop endpoints condition state (some (.system code)) (iter + 1) attempts ↔ _
      rw [haborted, h.handler]
      simp [Opens, Attempt.isOpen, connectLoop_ne.symm]

/-- It starts as `connect` does. -/
theorem Resumes.initiate_iff (h : Resumes endpoints condition make resume run)
    (r : List Event × Next α) (state : σ) (attempts : List Attempt)
    (hr : r =
      let c := callConnectCondition endpoints condition state none 0
      (c.calls,
        if c.iter < endpoints.length then .attempt (make c.state c.iter)
        else .handler (some .notFound) none)) :
    run r attempts = connect endpoints condition state attempts ↔
      AllOpen endpoints condition state attempts := by
  rw [hr, h.append, connect, connectLoop_eq]
  refine append_attempt_iff (fun hiter => ?_) fun hend => ?_
  · rw [if_pos hiter]
    exact h.attempt_iff _ _ attempts hiter
  · rw [if_neg hend]
    exact h.handler ..

end Loops

namespace RangeConnectOp

theorem resumes : Resumes endpoints condition RangeConnectOp.mk (resume endpoints condition)
    (run endpoints condition) where
  append calls next attempts := by
    unfold run
    rw [List.nil_append]
  handler ec iter attempts := by
    rw [run]
    rfl
  pending state iter := by
    rw [run]
    rfl
  attempt state iter a attempts := by
    rw [run]
    rfl
  connected state iter hiter := by simp [resume, hiter]
  refused state iter ec hiter := by
    simp only [resume, hiter, not_true, if_false, Bool.not_true, check, checkCondition_eq,
      reduceCtorEq, Bool.false_eq_true]
    split <;> rfl
  notOpened state iter ec hiter := ⟨none, by simp [resume, hiter]⟩

theorem initiate_eq (state : σ) (isOpen : Bool) :
    (RangeConnectOp.mk state 0).initiate endpoints condition isOpen =
      let c := callConnectCondition endpoints condition state none 0
      (c.calls,
        if c.iter < endpoints.length then .attempt ⟨c.state, c.iter⟩
        else .handler (some .notFound) none) := by
  simp only [initiate, check, checkCondition_eq]
  split
  · rfl
  · rename_i hend
    simp [resume, hend]

end RangeConnectOp

namespace IteratorConnectOp

theorem resumes : Resumes endpoints condition IteratorConnectOp.mk (resume endpoints condition)
    (run endpoints condition) where
  append calls next attempts := by
    unfold run
    rw [List.nil_append]
  handler ec iter attempts := by
    rw [run]
    rfl
  pending state iter := by
    rw [run]
    rfl
  attempt state iter a attempts := by
    rw [run]
    rfl
  connected state iter hiter := by simp [resume, hiter, result]
  refused state iter ec hiter := by
    simp only [resume, hiter, not_true, if_false, Bool.not_true, check, checkCondition_eq,
      reduceCtorEq, Bool.false_eq_true]
    split
    · rfl
    · rename_i hend
      rw [result, if_neg hend]
  -- the handler gets the iterator of the attempt, and not the end
  notOpened state iter ec hiter := ⟨some iter, by simp [resume, hiter, result]⟩

theorem initiate_eq (state : σ) (isOpen : Bool) :
    (IteratorConnectOp.mk state 0).initiate endpoints condition isOpen =
      let c := callConnectCondition endpoints condition state none 0
      (c.calls,
        if c.iter < endpoints.length then .attempt ⟨c.state, c.iter⟩
        else .handler (some .notFound) none) := by
  simp only [initiate, check, checkCondition_eq]
  split
  · rfl
  · rename_i hend
    simp [resume, hend, result]

end IteratorConnectOp

theorem asyncConnectRange_iff (isOpen : Bool) (state : σ) (attempts : List Attempt) :
    asyncConnectRange endpoints condition isOpen state attempts =
        connect endpoints condition state attempts ↔
      AllOpen endpoints condition state attempts :=
  RangeConnectOp.resumes.initiate_iff _ state attempts (RangeConnectOp.initiate_eq state isOpen)

theorem asyncConnectIterator_iff (isOpen : Bool) (state : σ) (attempts : List Attempt) :
    asyncConnectIterator endpoints condition isOpen state attempts =
        connect endpoints condition state attempts ↔
      AllOpen endpoints condition state attempts :=
  IteratorConnectOp.resumes.initiate_iff _ state attempts
    (IteratorConnectOp.initiate_eq state isOpen)

end

/-- The three functions call the condition and make attempts in the same way, and report the first
attempt that succeeds or the error of the last one, if and only if no attempt fails to open the
socket. -/
theorem connect_iff (endpoints : List ε) (condition : Condition σ ε) (isOpen : Bool) (state : σ)
    (attempts : List Attempt) :
    (Reports none attempts (connect endpoints condition state attempts) ∧
      asyncConnectRange endpoints condition isOpen state attempts =
        connect endpoints condition state attempts ∧
      asyncConnectIterator endpoints condition isOpen state attempts =
        connect endpoints condition state attempts) ↔
      AllOpen endpoints condition state attempts := by
  rw [asyncConnectRange_iff, asyncConnectIterator_iff, and_self_iff]
  exact and_iff_right connectLoop_reports

/-- There is no socket for the first of two endpoints, but for the second. -/
theorem not_connect_iff : ¬ ∀ (endpoints : List Unit) (condition : Condition Unit Unit) isOpen
    state attempts,
    asyncConnectRange endpoints condition isOpen state attempts =
      connect endpoints condition state attempts := by
  intro hclaim
  have heq := hclaim [(), ()] .default false () [.notOpened 97, .connected]
  revert heq
  decide

end Asio.Connect
