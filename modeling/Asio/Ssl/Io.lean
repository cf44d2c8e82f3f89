import Mathlib.Data.List.Basic
import Asio.Ssl.Engine
import Asio.Ssl.IoOp
import Asio.Ssl.BufferedHandshakeOp

/-! The loop of the synchronous operations and that of the asynchronous ones. -/

namespace Asio.Ssl.Io

/-- The operations, with the sizes of their buffers. -/
inductive Op
  | handshake
  | bufferedHandshake (buffers : List (List UInt8))
  | shutdown
  | read (size : Nat)
  | write (size : Nat)
  deriving DecidableEq

/-- What the library does in a call of the engine and the room that it then has for input; what the
next layer does if it is asked to, where a transfer of no bytes may have an error of its own; and
what the library tells at last. -/
structure Round where
  turns : List Stream.Turn
  room : Nat
  received : List UInt8
  readError : Option ErrorCode
  sent : Nat
  writeError : Option ErrorCode
  emptyError : Option ErrorCode
  inputPending : Bool
  receivedShutdown : Bool

/-- A call of the SSL library that is made once. -/
def perform (turns : List Stream.Turn) (engine : Engine) (reportsBytes : Bool)
    (bytesTransferred : Nat) : Option (Engine.Performed × Engine) :=
  turns.head?.map fun turn =>
    (engine.performed turn.ssl reportsBytes bytesTransferred, engine.perform turn.ssl)

def Op.call (op : Op) (turns : List Stream.Turn) (engine : Engine) (bytesTransferred : Nat) :
    Option (Engine.Performed × Engine) :=
  match op with
  | .handshake | .shutdown => perform turns engine false 0
  | .bufferedHandshake buffers =>
    (BufferedHandshakeOp.Process.run (BufferedHandshakeOp.totalBufferSize buffers) turns
      ⟨buffers, 0, bytesTransferred, engine, []⟩).map fun (process, performed) =>
        (⟨performed.want, performed.ec, process.bytesTransferred⟩, process.engine)
  | .read size | .write size =>
    if size = 0 then some (⟨.nothing, none, bytesTransferred⟩, engine)
    else perform turns engine true bytesTransferred

structure Report where
  ec : Option ErrorCode
  bytesTransferred : Nat
  deriving DecidableEq

/-- A shutdown has succeeded when it ends with an eof. -/
def Op.callHandler (op : Op) (ec : Option ErrorCode) (bytesTransferred : Nat) : Report :=
  match op with
  | .shutdown => ⟨if ec = some .eof then none else ec, bytesTransferred⟩
  | _ => ⟨ec, bytesTransferred⟩

/-- Only an eof is mapped. -/
def Round.mapErrorCode (round : Round) (ec : Option ErrorCode) : Option ErrorCode :=
  if ec ≠ some .eof then ec
  else if round.inputPending then some .streamTruncated
  else if round.receivedShutdown then ec
  else some .streamTruncated

/-- What the operations share: the engine, and the input that it has not accepted. What the next
layer has sent is `written`. -/
structure Core where
  engine : Engine
  input : List UInt8
  written : List UInt8

namespace Core

def putInput (s : Core) (room : Nat) : Core :=
  let (length, engine) := s.engine.putInput s.input room
  { s with
    engine := engine
    input := s.input.drop length }

def getOutput (s : Core) : List UInt8 × Core :=
  let (bytes, engine) := s.engine.getOutput maxTlsRecordSize
  (bytes, { s with engine := engine })

/-- The bytes have all been sent when there is no error. -/
def send (s : Core) (bytes : List UInt8) (round : Round) : Core × Option ErrorCode :=
  ({ s with
      written := s.written ++
        if round.writeError.isNone then bytes else bytes.take round.sent },
    round.writeError)

/-- `write` does not call the next layer when there is nothing to write. -/
def write (s : Core) (round : Round) : Core × Option ErrorCode :=
  let (bytes, s) := s.getOutput
  if bytes = [] then (s, none) else s.send bytes round

/-- `async_write` always calls the next layer. -/
def asyncWrite (s : Core) (round : Round) : Core × Option ErrorCode :=
  let (bytes, s) := s.getOutput
  if bytes = [] then (s, round.emptyError) else s.send bytes round

end Core

/-- The local variables of a loop that goes on, or what it reports. -/
inductive Iteration (σ : Type)
  | retry (core : Core) (bytesTransferred : Nat) (rest : σ)
  | done (core : Core) (report : Report)

/-! ### The synchronous loop -/

/-- The test at the end of the loop. -/
def loopWhile (round : Round) (core : Core) (ec : Option ErrorCode) (bytesTransferred : Nat) :
    Iteration Unit :=
  if ec.isNone then .retry core bytesTransferred ()
  else .done core ⟨round.mapErrorCode ec, 0⟩

def iterate (op : Op) (round : Round) (core : Core) (bytesTransferred : Nat) :
    Option (Iteration Unit) :=
  (op.call round.turns core.engine bytesTransferred).map fun (performed, engine) =>
    let core := { core with engine := engine }
    match performed.want with
    | .inputAndRetry =>
      if core.input = [] then
        loopWhile round ({ core with input := round.received }.putInput round.room)
          (performed.ec <|> round.readError) performed.bytesTransferred
      else
        loopWhile round (core.putInput round.room) performed.ec performed.bytesTransferred
    | .outputAndRetry =>
      let (core, ioEc) := core.write round
      loopWhile round core (performed.ec <|> ioEc) performed.bytesTransferred
    | .output =>
      let (core, ioEc) := core.write round
      .done core ⟨round.mapErrorCode (performed.ec <|> ioEc), performed.bytesTransferred⟩
    | .nothing => .done core ⟨round.mapErrorCode performed.ec, performed.bytesTransferred⟩

/-- `io`, as far as it is known what the others do. -/
def io (op : Op) : List Round → Core → Nat → Option (Core × Report)
  | [], _, _ => none
  | round :: rounds, core, bytesTransferred =>
    (iterate op round core bytesTransferred).bind fun
      | .retry core bytesTransferred () => io op rounds core bytesTransferred
      | .done core report => some (core, report)

/-! ### The asynchronous loop -/

/-- How `operator()` has been called. -/
structure Invocation where
  start : Bool
  ec : Option ErrorCode

def asyncWhile (op : Op) (round : Round) (core : Core) (ec : Option ErrorCode)
    (bytesTransferred : Nat) (invocation : Invocation) : Iteration Invocation :=
  if ec.isNone then .retry core bytesTransferred invocation
  else .done core (op.callHandler (round.mapErrorCode ec) 0)

/-- The handler is passed no bytes with an error. -/
def pass (op : Op) (round : Round) (core : Core) (ec : Option ErrorCode)
    (bytesTransferred : Nat) : Iteration Invocation :=
  .done core (op.callHandler (round.mapErrorCode ec) (if ec.isSome then 0 else bytesTransferred))

/-- In the middle of an iteration the operation may wait for a transfer, after which it is called
with the error of that. -/
def asyncIterate (op : Op) (round : Round) (core : Core) (bytesTransferred : Nat)
    (invocation : Invocation) : Option (Iteration Invocation) :=
  (op.call round.turns core.engine bytesTransferred).map fun (performed, engine) =>
    let core := { core with engine := engine }
    match performed.want with
    | .inputAndRetry =>
      if core.input = [] then
        asyncWhile op round ({ core with input := round.received }.putInput round.room)
          (performed.ec <|> round.readError) performed.bytesTransferred ⟨false, round.readError⟩
      else
        asyncWhile op round (core.putInput round.room) performed.ec performed.bytesTransferred
          invocation
    | .outputAndRetry =>
      let (core, ec) := core.asyncWrite round
      asyncWhile op round core (performed.ec <|> ec) performed.bytesTransferred ⟨false, ec⟩
    | .output =>
      let (core, ec) := core.asyncWrite round
      pass op round core (performed.ec <|> ec) performed.bytesTransferred
    | .nothing =>
      let ec := if invocation.start then round.emptyError else invocation.ec
      pass op round core (performed.ec <|> ec) performed.bytesTransferred

/-- `io_op`, from one call of the engine to the next. -/
def ioOp (op : Op) : List Round → Core → Nat → Invocation → Option (Core × Report)
  | [], _, _, _ => none
  | round :: rounds, core, bytesTransferred, invocation =>
    (asyncIterate op round core bytesTransferred invocation).bind fun
      | .retry core bytesTransferred invocation => ioOp op rounds core bytesTransferred invocation
      | .done core report => some (core, report)

/-! ### When they agree -/

/-- The error of the transfer that the engine asks for, if there is anything to be transferred. -/
def Round.outcome (round : Round) (core : Core) : Engine.Want → Option ErrorCode
  | .inputAndRetry => if core.input = [] then round.readError else none
  | .outputAndRetry | .output => if core.getOutput.1 = [] then none else round.writeError
  | .nothing => none

/-- The engine does not give a number of bytes together with an error or with output that cannot be
written, and a shutdown does not come to an eof. -/
def Fits (op : Op) (round : Round) (core : Core) (bytesTransferred : Nat) : Prop :=
  ∀ performed engine,
    op.call round.turns core.engine bytesTransferred = some (performed, engine) →
    let error := performed.ec <|> round.outcome { core with engine := engine } performed.want
    (performed.want = .output ∨ performed.want = .nothing → error ≠ none →
        performed.bytesTransferred = 0) ∧
      (op = .shutdown → round.mapErrorCode error ≠ some .eof)

/-- The same input and output, the same report, and no bytes with an error. -/
structure Agree (op : Op) (rounds : List Round) (core : Core) : Prop where
  same : io op rounds core 0 = ioOp op rounds core 0 ⟨true, none⟩
  noBytes : ∀ core' report, io op rounds core 0 = some (core', report) → report.ec ≠ none →
    report.bytesTransferred = 0

theorem Round.mapErrorCode_eq_none (round : Round) (ec : Option ErrorCode) :
    round.mapErrorCode ec = none ↔ ec = none := by
  unfold mapErrorCode
  split
  · rfl
  · rename_i h
    rw [not_not] at h
    subst h
    split
    · simp
    · split <;> simp

theorem callHandler_of_ne {op : Op} {ec : Option ErrorCode} (n : Nat)
    (h : op = .shutdown → ec ≠ some .eof) : op.callHandler ec n = ⟨ec, n⟩ := by
  cases op with
  | shutdown => simp only [Op.callHandler, if_neg (h rfl)]
  | handshake => rfl
  | bufferedHandshake buffers => rfl
  | read size => rfl
  | write size => rfl

section

variable {op : Op} {round : Round} {core core' : Core} {n : Nat}
variable {performed : Engine.Performed} {engine : Engine} {error : Option ErrorCode}

end

end Asio.Ssl.Io
