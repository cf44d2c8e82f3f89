import Mathlib.Data.List.Infix
import Asio.Detail.ChronoTimeTraits

/-! How a socket streambuf connects to one of several endpoints before its expiry time. -/

universe u

namespace Asio.BasicSocketStreambuf

open Asio.Detail.ChronoTimeTraits

inductive Error
  | timedOut
  | eof
  | notFound
  | inProgress
  /-- On Linux `would_block` and `try_again` are the same. -/
  | wouldBlock
  | noBufferSpace
  | system (code : Nat)
  deriving DecidableEq

/-! ### The time that is left -/

theorem one_le_int64Max : ((1 : Nat) : Int) ≤ int64Max := by decide

/-- The ticks of the clock, `chrono::steady_clock`. -/
def nanoseconds : Period where
  num := 1
  den := 1000000000
  num_pos := Nat.one_pos
  den_pos := by decide
  coprime := Nat.coprime_one_left _
  num_le := one_le_int64Max
  den_le := by decide

def totalMilliseconds (ticks : Int) : Int := ticks.tdiv 1000000

theorem total_nanoseconds (ticks : Int) :
    total .milliseconds nanoseconds ticks = some (totalMilliseconds ticks) := by
  have hfactor : factor .milliseconds nanoseconds = 1 := by decide
  have hdivisor : divisor .milliseconds nanoseconds = 1000000 := by decide
  rw [total_eq, hfactor, hdivisor]
  rfl

def intMax : Int := 2147483647

def timeout (expiryTime now : Int) : Int :=
  let msec := totalMilliseconds (subtract expiryTime now)
  if msec > intMax then intMax else if msec < 0 then 0 else msec

/-- `poll` never waits for ever. -/
theorem timeout_mem (expiryTime now : Int) :
    0 ≤ timeout expiryTime now ∧ timeout expiryTime now ≤ intMax := by
  have hmax : 0 ≤ intMax := by decide
  simp only [timeout]
  split_ifs <;> omega

/-! ### One endpoint -/

inductive Connection
  | inProgress
  | established
  | failed (ec : Error)
  deriving DecidableEq

/-- What `SO_ERROR` reads, where nothing is zero. -/
def Connection.soError : Connection → Option Error
  | .failed ec => some ec
  | _ => none

/-- The result of `poll` and what has become of the connection afterwards. It is no longer in
progress when the socket is writable. -/
inductive Poll
  | failed (ec : Error) (connection : Connection)
  | timedOut (connection : Connection)
  | ready (connectError : Option Error)
  deriving DecidableEq

def Poll.connection : Poll → Connection
  | .failed _ connection => connection
  | .timedOut connection => connection
  | .ready none => .established
  | .ready (some ec) => .failed ec

/-- What the system does when an endpoint is tried: the time of the check and of the call of
`timeout`, and the results of the calls. -/
structure Attempt (ε : Type u) where
  endpoint : ε
  checked : Int
  openResult : Option Error
  connectResult : Option Error
  polled : Int
  poll : Int → Poll
  getsockoptResult : Option Error

/-- `socket_ops::connect`, with the result of the system. -/
def socketOpsConnect (linux : Bool) : Option Error → Option Error
  | some .wouldBlock => some (if linux then .noBufferSpace else .wouldBlock)
  | result => result

def Waits (ec : Error) : Prop := ec = .inProgress ∨ ec = .wouldBlock

instance (ec : Error) : Decidable (Waits ec) := inferInstanceAs (Decidable (_ ∨ _))

/-- How an iteration of the loop ends. -/
inductive Iteration
  | next (ec : Error)
  | ret (ec : Option Error)
  deriving DecidableEq

def Iteration.ec : Iteration → Option Error
  | .next ec => some ec
  | .ret ec => ec

namespace Attempt

variable {ε : Type u} (linux : Bool) (expiryTime : Int) (a : Attempt ε)

def pollConnect : Poll := a.poll (timeout expiryTime a.polled)

/-- After `poll_connect` has not failed. -/
def readError (connection : Connection) : Iteration :=
  match a.getsockoptResult, connection.soError with
  | some ec, _ => .ret (some ec)
  | none, some ec => .next ec
  | none, none => .ret none

/-- The body of the loop, after the check of the expiry time. -/
def tryConnect : Iteration :=
  match a.openResult, socketOpsConnect linux a.connectResult with
  | some ec, _ => .next ec
  | none, none => .ret none
  | none, some ec =>
    if Waits ec then
      match a.pollConnect expiryTime with
      | .failed ec _ => .next ec
      | result => a.readError result.connection
    else .next ec

/-- What has become of the connection when the streambuf turns away from it. -/
def connection : Connection :=
  match a.openResult, socketOpsConnect linux a.connectResult with
  | some ec, _ => .failed ec
  | none, none => .established
  | none, some ec => if Waits ec then (a.pollConnect expiryTime).connection else .failed ec

end Attempt

structure Outcome (ε : Type u) where
  ec : Option Error
  tried : List (Attempt ε)

def connectLoop (linux : Bool) (expiryTime : Int) :
    Option Error → List (Attempt ε) → Outcome ε
  | ec, [] => ⟨ec, []⟩
  | _, a :: rest =>
    if expiryTime < a.checked then ⟨some .timedOut, []⟩
    else
      match a.tryConnect linux expiryTime with
      | .ret ec => ⟨ec, [a]⟩
      | .next ec =>
        let outcome := connectLoop linux expiryTime (some ec) rest
        ⟨outcome.ec, a :: outcome.tried⟩

/-- `ec` is the error of the resolver, if it has failed. -/
def connectToEndpoints (linux : Bool) (expiryTime : Int) (ec : Option Error)
    (attempts : List (Attempt ε)) : Outcome ε :=
  if ec.isSome then ⟨ec, []⟩ else connectLoop linux expiryTime (some .notFound) attempts

/-- `connect` returns the streambuf, and not null. -/
def Outcome.returnsThis (outcome : Outcome ε) : Bool := outcome.ec.isNone

/-! ### Verdicts -/

/-- The streambuf is connected if and only if the connection to the endpoint that was tried last is
established, endpoints are tried in order, and without a connection there is an error, also when the
expiry time has passed. -/
structure Outcome.Right (linux : Bool) (expiryTime : Int) (attempts : List (Attempt ε))
    (outcome : Outcome ε) : Prop where
  established : outcome.returnsThis ↔
    ∃ a ∈ outcome.tried.getLast?, a.connection linux expiryTime = .established
  inOrder : outcome.tried <+: attempts
  failed : (∀ a ∈ outcome.tried, a.connection linux expiryTime ≠ .established) → outcome.ec ≠ none

namespace Attempt

variable {ε : Type u} (linux : Bool) (expiryTime : Int) (a : Attempt ε)

/-- `SO_ERROR` is read while the connection is in progress, or a call has failed behind which it is
established. -/
def Misread : Prop :=
  a.openResult = none ∧
    match socketOpsConnect linux a.connectResult with
    | none => False
    | some ec => Waits ec ∧
      match a.pollConnect expiryTime with
      | .failed _ connection => connection = .established
      | result =>
        match a.getsockoptResult with
        | some _ => result.connection = .established
        | none => result.connection = .inProgress

/-- No further endpoint is tried. -/
def Stops : Prop :=
  a.openResult = none ∧
    match socketOpsConnect linux a.connectResult with
    | none => True
    | some ec => Waits ec ∧
      match a.pollConnect expiryTime with
      | .failed _ _ => False
      | result => a.getsockoptResult = none → result.connection.soError = none

theorem readError_stops (connection : Connection) :
    (∃ ec, a.readError connection = .ret ec) ↔
      (a.getsockoptResult = none → connection.soError = none) := by
  unfold readError
  split <;> simp_all

theorem readError_ec (connection : Connection) :
    ((a.readError connection).ec = none ↔ connection = .established) ↔
      ¬ match a.getsockoptResult with
        | some _ => connection = .established
        | none => connection = .inProgress := by
  unfold readError
  cases a.getsockoptResult <;> cases connection <;> simp [Iteration.ec, Connection.soError]

theorem tryConnect_stops :
    (∃ ec, a.tryConnect linux expiryTime = .ret ec) ↔ a.Stops linux expiryTime := by
  unfold tryConnect Stops
  cases a.openResult with
  | some ec => simp
  | none =>
    cases socketOpsConnect linux a.connectResult with
    | none => simp
    | some ec =>
      by_cases hwaits : Waits ec
      · cases a.pollConnect expiryTime with
        | failed => simp [hwaits]
        | timedOut | ready => simp only [hwaits, if_true, true_and, readError_stops]
      · simp [hwaits]

theorem tryConnect_ec :
    ((a.tryConnect linux expiryTime).ec = none ↔
      a.connection linux expiryTime = .established) ↔ ¬ a.Misread linux expiryTime := by
  unfold tryConnect Misread connection
  cases a.openResult with
  | some ec => simp [Iteration.ec]
  | none =>
    cases socketOpsConnect linux a.connectResult with
    | none => simp [Iteration.ec]
    | some ec =>
      by_cases hwaits : Waits ec
      · cases a.pollConnect expiryTime with
        | failed ec connection => simp [hwaits, Iteration.ec, Poll.connection]
        | timedOut | ready => simp only [hwaits, if_true, true_and, readError_ec]
      · simp [hwaits, Iteration.ec]

end Attempt

/-- The endpoint that is tried last is not misread: the one at which the loop stops, or before the
end of the endpoints or the expiry time. -/
def Sound (linux : Bool) (expiryTime : Int) : List (Attempt ε) → Prop
  | [] => True
  | a :: rest =>
    a.checked ≤ expiryTime →
      (a.Stops linux expiryTime ∨ (∀ b ∈ rest.head?, expiryTime < b.checked) →
        ¬ a.Misread linux expiryTime) ∧
      (¬ a.Stops linux expiryTime → Sound linux expiryTime rest)

section

variable {ε : Type u} {linux : Bool} {expiryTime : Int}

theorem connectLoop_tried (ec : Option Error) (attempts : List (Attempt ε)) :
    (connectLoop linux expiryTime ec attempts).tried <+: attempts := by
  induction attempts generalizing ec with
  | nil => exact List.prefix_rfl
  | cons a rest ih =>
    unfold connectLoop
    split
    · exact List.nil_prefix
    · split
      · exact List.prefix_cons_inj a |>.mpr List.nil_prefix
      · rename_i ec' _
        exact (List.prefix_cons_inj a).mpr (ih (some ec'))

/-- Where endpoints are tried in order, there is only the verdict on the last of them. -/
theorem right_iff {attempts : List (Attempt ε)} {outcome : Outcome ε}
    (htried : outcome.tried <+: attempts) :
    outcome.Right linux expiryTime attempts ↔ (outcome.returnsThis ↔
      ∃ a ∈ outcome.tried.getLast?, a.connection linux expiryTime = .established) := by
  refine ⟨fun h => h.established, fun h => ⟨h, htried, fun hnone hec => ?_⟩⟩
  obtain ⟨a, hlast, hconnection⟩ := h.mp (by rw [Outcome.returnsThis, hec]; rfl)
  exact hnone a (List.mem_of_getLast? hlast) hconnection

/-- What has not been tried, because there is nothing more or the time is over. -/
theorem connectLoop_tried_eq_nil {ec : Option Error} {attempts : List (Attempt ε)} :
    (connectLoop linux expiryTime ec attempts).tried = [] ↔
      ∀ b ∈ attempts.head?, expiryTime < b.checked := by
  cases attempts with
  | nil => simp [connectLoop]
  | cons a rest =>
    simp only [connectLoop, List.head?_cons, Option.mem_def, Option.some.injEq, forall_eq']
    split
    · simp_all
    · split <;> simp_all

theorem connectLoop_ec_of_tried {ec : Error} {attempts : List (Attempt ε)}
    (h : (connectLoop linux expiryTime (some ec) attempts).tried = []) :
    (connectLoop linux expiryTime (some ec) attempts).ec ≠ none := by
  cases attempts with
  | nil => simp [connectLoop]
  | cons a rest =>
    have hexpired := connectLoop_tried_eq_nil.mp h a rfl
    simp [connectLoop, hexpired]

theorem connectLoop_iff (ec : Error) (attempts : List (Attempt ε)) :
    (connectLoop linux expiryTime (some ec) attempts).Right linux expiryTime attempts ↔
      Sound linux expiryTime attempts := by
  induction attempts generalizing ec with
  | nil =>
    rw [right_iff (connectLoop_tried ..)]
    simp [connectLoop, Outcome.returnsThis, Sound]
  | cons a rest ih =>
    rw [right_iff (connectLoop_tried ..)]
    by_cases hexpired : expiryTime < a.checked
    · simp [connectLoop, hexpired, Outcome.returnsThis, Sound]
    · have hstops := a.tryConnect_stops linux expiryTime
      have hec := a.tryConnect_ec linux expiryTime
      have hchecked : a.checked ≤ expiryTime := Int.not_lt.mp hexpired
      simp only [Sound, connectLoop, if_neg hexpired, hchecked, forall_const]
      cases htry : a.tryConnect linux expiryTime with
      | ret ec' =>
        have hs : a.Stops linux expiryTime := hstops.mp ⟨ec', htry⟩
        rw [htry] at hec
        simpa [hs, Outcome.returnsThis, Iteration.ec] using hec
      | next ec' =>
        have hs : ¬ a.Stops linux expiryTime := by
          rw [← hstops, htry]
          simp
        rw [htry] at hec
        simp only [hs, false_or, not_false_eq_true, forall_const]
        by_cases htried : (connectLoop linux expiryTime (some ec') rest).tried = []
        · -- `a` is the last, and there is an error
          have herror := connectLoop_ec_of_tried htried
          have hsound := (ih ec').mp ((right_iff (connectLoop_tried ..)).mpr (by
            simp [htried, Outcome.returnsThis, herror]))
          have hlast := connectLoop_tried_eq_nil.mp htried
          rw [imp_iff_right hlast]
          simpa [htried, Outcome.returnsThis, herror, hsound, Iteration.ec] using hec
        · have hlast := mt connectLoop_tried_eq_nil.mpr htried
          rw [← ih ec', right_iff (connectLoop_tried ..)]
          obtain ⟨b, bs, htried⟩ := List.exists_cons_of_ne_nil htried
          simp only [htried, List.getLast?_cons_cons, Outcome.returnsThis, hlast, false_imp_iff,
            true_and]

/-- Connecting is right if and only if, when there was no error before, the endpoint that is tried
last is not misread. -/
theorem connectToEndpoints_iff (linux : Bool) (expiryTime : Int) (ec : Option Error)
    (attempts : List (Attempt ε)) :
    (connectToEndpoints linux expiryTime ec attempts).Right linux expiryTime attempts ↔
      (ec = none → Sound linux expiryTime attempts) := by
  cases ec with
  | none => simpa [connectToEndpoints] using connectLoop_iff .notFound attempts
  | some ec =>
    rw [right_iff (by simp [connectToEndpoints])]
    simp [connectToEndpoints, Outcome.returnsThis]

/-- The time is over while the connection to the only endpoint is in progress. -/
theorem not_connectToEndpoints_right : ¬ ∀ linux expiryTime ec (attempts : List (Attempt Unit)),
    (connectToEndpoints linux expiryTime ec attempts).Right linux expiryTime attempts := by
  intro hclaim
  have hright := hclaim true 1000000000 none [{
    endpoint := ()
    checked := 0
    openResult := none
    connectResult := some .inProgress
    polled := 0
    poll := fun _ => .timedOut .inProgress
    getsockoptResult := none }]
  obtain ⟨a, hlast, hconnection⟩ := hright.established.mp rfl
  cases hlast
  cases hconnection

end

end Asio.BasicSocketStreambuf
