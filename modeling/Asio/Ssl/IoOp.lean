import Asio.Ssl.Engine
import Asio.Lib.Transition

/-! The asynchronous operations of an SSL stream within one strand. -/

namespace Asio.Ssl

def maxTlsRecordSize : Nat := 17 * 1024

inductive Operation
  | handshake | shutdown | read | write
  deriving DecidableEq

def Operation.reportsBytes : Operation → Bool
  | .handshake | .shutdown => false
  | .read | .write => true

/-- `owed` is how much output there had been when the engine was last called. -/
structure IoOp where
  id : Nat
  operation : Operation
  want : Engine.Want
  ec : Option ErrorCode
  bytesTransferred : Nat
  owed : Nat
  deriving DecidableEq

namespace IoOp

def new (id : Nat) (operation : Operation) : IoOp := ⟨id, operation, .nothing, none, 0, 0⟩

def perform (op : IoOp) (e : Engine) (r : SslResult) : IoOp :=
  let performed := e.performed r op.operation.reportsBytes op.bytesTransferred
  { op with
    want := performed.want
    ec := performed.ec
    bytesTransferred := performed.bytesTransferred
    owed := (e.perform r).produced.length }

/-- An error is kept. -/
def fail (op : IoOp) (ec : Option ErrorCode) : IoOp := { op with ec := op.ec <|> ec }

end IoOp

/-! ### Timers -/

/-- A timer is set to the positive infinity by an operation. -/
inductive Expiry
  | negInfin
  | posInfin (setBy : Nat)
  deriving DecidableEq

/-- The operations that wait and those whose waits have been cancelled; and who has reset the expiry
that was set by whom. -/
structure Timer where
  expiry : Expiry
  waiting : List IoOp
  released : List IoOp
  resets : List (Nat × Nat)

namespace Timer

def initial : Timer := ⟨.negInfin, [], [], []⟩

def setPosInfin (t : Timer) (op : IoOp) : Timer :=
  { t with expiry := .posInfin op.id, waiting := [], released := t.released ++ t.waiting }

def setNegInfin (t : Timer) (op : IoOp) : Timer where
  expiry := .negInfin
  waiting := []
  released := t.released ++ t.waiting
  resets :=
    match t.expiry with
    | .negInfin => t.resets
    | .posInfin setBy => t.resets ++ [(op.id, setBy)]

def asyncWait (t : Timer) (op : IoOp) : Timer := { t with waiting := t.waiting ++ [op] }

def cancelWait (t : Timer) (i : Nat) : Option Timer :=
  t.waiting[i]?.map fun op =>
    { t with waiting := t.waiting.eraseIdx i, released := t.released ++ [op] }

end Timer

/-! ### The stream -/

/-- A read of the next layer, and how many bytes it has received when it has. -/
structure Read where
  op : IoOp
  received : Option Nat

/-- A write to the next layer from the start of the output buffer. -/
structure Write where
  op : IoOp
  length : Nat
  sent : Nat

/-- How a handler is called, and how much output had been taken for writing by then. -/
structure Completion where
  op : IoOp
  bytesTransferred : Nat
  taken : Nat
  deriving DecidableEq

/-- The contents of the buffers are those that have been written. The reads in `posted` are the
zero-sized ones that are issued to call a handler later. -/
structure Stream where
  engine : Engine
  pendingRead : Timer
  pendingWrite : Timer
  outputBuffer : List UInt8
  inputBuffer : List UInt8
  inputBegin : Nat
  inputSize : Nat
  reads : List Read
  writes : List Write
  posted : List IoOp
  received : List UInt8
  written : List UInt8
  started : List Nat
  completions : List Completion

namespace Stream

def initial : Stream where
  engine := .initial
  pendingRead := .initial
  pendingWrite := .initial
  outputBuffer := []
  inputBuffer := []
  inputBegin := 0
  inputSize := 0
  reads := []
  writes := []
  posted := []
  received := []
  written := []
  started := []
  completions := []

/-- The engine's input that it has not accepted. -/
def input (s : Stream) : List UInt8 := (s.inputBuffer.drop s.inputBegin).take s.inputSize

def putInput (s : Stream) (room : Nat) : Stream :=
  let (length, engine) := s.engine.putInput s.input room
  { s with
    engine := engine
    inputBegin := s.inputBegin + length
    inputSize := s.inputSize - length }

def overwrite (buffer bytes : List UInt8) : List UInt8 := bytes ++ buffer.drop bytes.length

def callHandler (s : Stream) (op : IoOp) : Stream :=
  { s with completions := s.completions ++
      [⟨op, if op.ec.isSome then 0 else op.bytesTransferred, s.engine.taken.length⟩] }

/-- There is to be no more than one read at a time. -/
def asyncRead (s : Stream) (op : IoOp) : Stream :=
  match s.pendingRead.expiry with
  | .negInfin =>
    { s with pendingRead := s.pendingRead.setPosInfin op, reads := s.reads ++ [⟨op, none⟩] }
  | .posInfin _ => { s with pendingRead := s.pendingRead.asyncWait op }

/-- There is to be no more than one write at a time. -/
def asyncWrite (s : Stream) (op : IoOp) : Stream :=
  match s.pendingWrite.expiry with
  | .negInfin =>
    let (bytes, engine) := s.engine.getOutput maxTlsRecordSize
    { s with
      engine := engine
      pendingWrite := s.pendingWrite.setPosInfin op
      outputBuffer := overwrite s.outputBuffer bytes
      writes := s.writes ++ [⟨op, bytes.length, 0⟩] }
  | .posInfin _ => { s with pendingWrite := s.pendingWrite.asyncWait op }

/-! ### Running an operation -/

/-- One round: what the library does, and for how much input it has room then. -/
structure Turn where
  ssl : SslResult
  room : Nat

/-- Call the engine until it is done or something has to be waited for. When it wants to be retried
there is no error. The error is the one with which the operation has been called. -/
def loop (op : IoOp) (start : Bool) (ec : Option ErrorCode) :
    List Turn → Stream → Option Stream
  | [], _ => none
  | turn :: turns, s =>
    let op := op.perform s.engine turn.ssl
    let s := { s with engine := s.engine.perform turn.ssl }
    match op.want with
    | .inputAndRetry =>
      if s.inputSize ≠ 0 then
        loop op start ec turns (s.putInput turn.room)
      else
        some (s.asyncRead op)
    | .outputAndRetry | .output => some (s.asyncWrite op)
    | .nothing =>
      if start then
        some { s with posted := s.posted ++ [op] }
      else
        some (s.callHandler (op.fail ec))

def retry (op : IoOp) (ec : Option ErrorCode) (cancelled : Bool) (turns : List Turn)
    (s : Stream) : Option Stream :=
  if cancelled then
    some (s.callHandler { op with ec := some .operationAborted })
  else if op.ec.isNone then
    s.loop op false ec turns
  else
    some (s.callHandler op)

/-- `operator()`, called when a transfer is complete, or when a wait has been cancelled, which does
not give a number of bytes. -/
def resume (op : IoOp) (ec : Option ErrorCode) (bytesTransferred : Option Nat) (cancelled : Bool)
    (room : Nat) (turns : List Turn) (s : Stream) : Option Stream :=
  let op := if bytesTransferred.isSome then op.fail ec else op
  match op.want with
  | .inputAndRetry =>
    let s := { s with inputBegin := 0, inputSize := bytesTransferred.getD 0 }.putInput room
    retry op ec cancelled turns { s with pendingRead := s.pendingRead.setNegInfin op }
  | .outputAndRetry =>
    retry op ec cancelled turns { s with pendingWrite := s.pendingWrite.setNegInfin op }
  | .output => some ({ s with pendingWrite := s.pendingWrite.setNegInfin op }.callHandler op)
  | .nothing => some (s.callHandler op)

/-! ### Steps -/

inductive Action
  | start (id : Nat) (operation : Operation) (turns : List Turn)
  | receive (i : Nat) (bytes : List UInt8)
  | readDone (i : Nat) (ec : Option ErrorCode) (cancelled : Bool) (room : Nat)
      (turns : List Turn)
  | send (i n : Nat)
  | writeDone (i : Nat) (ec : Option ErrorCode) (cancelled : Bool) (turns : List Turn)
  | postDone (i : Nat) (ec : Option ErrorCode)
  | cancelReadWait (i : Nat)
  | cancelWriteWait (i : Nat)
  | wakeRead (i : Nat) (cancelled : Bool) (room : Nat) (turns : List Turn)
  | wakeWrite (i : Nat) (cancelled : Bool) (turns : List Turn)

/-- The next layer places bytes in the input buffer. -/
def receive (s : Stream) (i : Nat) (bytes : List UInt8) : Option Stream :=
  s.reads[i]?.bind fun r =>
    if r.received = none ∧ bytes.length ≤ maxTlsRecordSize then
      some { s with
        inputBuffer := overwrite s.inputBuffer bytes
        reads := s.reads.set i { r with received := some bytes.length }
        received := s.received ++ bytes }
    else
      none

/-- A read that has received nothing has failed. -/
def readDone (s : Stream) (i : Nat) (ec : Option ErrorCode) (cancelled : Bool) (room : Nat)
    (turns : List Turn) : Option Stream :=
  s.reads[i]?.bind fun r =>
    if r.received.isSome ∨ ec.isSome then
      { s with reads := s.reads.eraseIdx i }.resume r.op ec (some (r.received.getD 0)) cancelled
        room turns
    else
      none

/-- The next layer takes bytes from the output buffer. -/
def send (s : Stream) (i n : Nat) : Option Stream :=
  s.writes[i]?.bind fun w =>
    if w.sent + n ≤ w.length then
      some { s with
        writes := s.writes.set i { w with sent := w.sent + n }
        written := s.written ++ (s.outputBuffer.drop w.sent).take n }
    else
      none

/-- A write that has not sent everything has failed. -/
def writeDone (s : Stream) (i : Nat) (ec : Option ErrorCode) (cancelled : Bool)
    (turns : List Turn) : Option Stream :=
  s.writes[i]?.bind fun w =>
    if w.sent = w.length ∨ ec.isSome then
      { s with writes := s.writes.eraseIdx i }.resume w.op ec (some w.sent) cancelled 0 turns
    else
      none

def postDone (s : Stream) (i : Nat) (ec : Option ErrorCode) : Option Stream :=
  s.posted[i]?.bind fun op =>
    { s with posted := s.posted.eraseIdx i }.resume op ec (some 0) false 0 []

/-- The handler of a wait on `pending_read_` that has been cancelled is called. -/
def wakeRead (s : Stream) (i : Nat) (cancelled : Bool) (room : Nat) (turns : List Turn) :
    Option Stream :=
  s.pendingRead.released[i]?.bind fun op =>
    { s with pendingRead := { s.pendingRead with
        released := s.pendingRead.released.eraseIdx i } }.resume op (some .operationAborted) none
      cancelled room turns

/-- The handler of a wait on `pending_write_` that has been cancelled is called. -/
def wakeWrite (s : Stream) (i : Nat) (cancelled : Bool) (turns : List Turn) : Option Stream :=
  s.pendingWrite.released[i]?.bind fun op =>
    { s with pendingWrite := { s.pendingWrite with
        released := s.pendingWrite.released.eraseIdx i } }.resume op (some .operationAborted) none
      cancelled 0 turns

def step (s : Stream) : Action → Option Stream
  | .start id operation turns =>
    loop (.new id operation) true none turns { s with started := s.started ++ [id] }
  | .receive i bytes => s.receive i bytes
  | .readDone i ec cancelled room turns => s.readDone i ec cancelled room turns
  | .send i n => s.send i n
  | .writeDone i ec cancelled turns => s.writeDone i ec cancelled turns
  | .postDone i ec => s.postDone i ec
  | .cancelReadWait i => (s.pendingRead.cancelWait i).map fun t => { s with pendingRead := t }
  | .cancelWriteWait i => (s.pendingWrite.cancelWait i).map fun t => { s with pendingWrite := t }
  | .wakeRead i cancelled room turns => s.wakeRead i cancelled room turns
  | .wakeWrite i cancelled turns => s.wakeWrite i cancelled turns

/-- Operations have different identities. -/
def Legal (s : Stream) : Action → Prop
  | .start id _ _ => id ∉ s.started
  | _ => True

instance (s : Stream) (a : Action) : Decidable (Legal s a) := by
  induction a using Action.casesOn <;> dsimp only [Legal] <;> infer_instance

/-! ### What running an operation does -/

def WantsInput (want : Engine.Want) : Prop := want = .inputAndRetry

def WantsOutput (want : Engine.Want) : Prop := want = .outputAndRetry ∨ want = .output

/-- What is kept by everything that an operation does between two waits. -/
structure Keeps (I : Stream → Prop) : Prop where
  perform {s r} : I s → I { s with engine := s.engine.perform r }
  putInput {s room} : I s → I (s.putInput room)
  asyncRead {s op} : WantsInput op.want → s.inputSize = 0 → I s → I (s.asyncRead op)
  asyncWrite {s op} : WantsOutput op.want → op.owed = s.engine.produced.length → I s →
    I (s.asyncWrite op)
  post {s op} : op.want = .nothing → I s → I { s with posted := s.posted ++ [op] }
  callHandler {s op} : op.want ≠ .output ∨ op.ec.isSome → I s → I (s.callHandler op)

variable {s s' : Stream} {op : IoOp} {ec : Option ErrorCode} {bytesTransferred : Option Nat}
variable {cancelled : Bool} {room : Nat} {turns : List Turn}

theorem Keeps.loop {I : Stream → Prop} (hI : Keeps I) {start : Bool} (h : I s)
    (hloop : loop op start ec turns s = some s') : I s' := by
  induction turns generalizing s op with
  | nil => cases hloop
  | cons turn turns ih =>
    simp only [Stream.loop] at hloop
    have hperformed := hI.perform (r := turn.ssl) h
    split at hloop
    · rename_i hwant
      split at hloop
      · exact ih (hI.putInput hperformed) hloop
      · rename_i hsize
        cases hloop
        exact hI.asyncRead hwant (of_not_not hsize) hperformed
    · rename_i hwant
      cases hloop
      exact hI.asyncWrite (Or.inl hwant) rfl hperformed
    · rename_i hwant
      cases hloop
      exact hI.asyncWrite (Or.inr hwant) rfl hperformed
    · rename_i hwant
      split at hloop
      · cases hloop
        exact hI.post hwant hperformed
      · cases hloop
        refine hI.callHandler (Or.inl ?_) hperformed
        rw [IoOp.fail, hwant]
        exact nofun

theorem Keeps.retry {I : Stream → Prop} (hI : Keeps I) (h : I s)
    (hretry : retry op ec cancelled turns s = some s') : I s' := by
  unfold Stream.retry at hretry
  split at hretry
  · cases hretry
    exact hI.callHandler (Or.inr rfl) h
  · split at hretry
    · exact hI.loop h hretry
    · rename_i hec
      cases hretry
      refine hI.callHandler (Or.inr ?_) h
      rwa [Option.isNone_iff_eq_none, ← ne_eq, Option.ne_none_iff_isSome] at hec

/-! ### Resuming an operation -/

/-- The stream when an operation that wanted input has been resumed. -/
def resetRead (s : Stream) (op : IoOp) (bytesTransferred room : Nat) : Stream :=
  let s := { s with inputBegin := 0, inputSize := bytesTransferred }.putInput room
  { s with pendingRead := s.pendingRead.setNegInfin op }

def resetWrite (s : Stream) (op : IoOp) : Stream :=
  { s with pendingWrite := s.pendingWrite.setNegInfin op }

/-- The operation with which the handlers of a transfer and of a wait go on. -/
def resumed (op : IoOp) (ec : Option ErrorCode) (bytesTransferred : Option Nat) : IoOp :=
  if bytesTransferred.isSome then op.fail ec else op

@[simp] theorem resumed_id : (resumed op ec bytesTransferred).id = op.id := by
  unfold resumed
  split <;> rfl

@[simp] theorem resumed_want : (resumed op ec bytesTransferred).want = op.want := by
  unfold resumed
  split <;> rfl

@[simp] theorem resumed_owed : (resumed op ec bytesTransferred).owed = op.owed := by
  unfold resumed
  split <;> rfl

theorem resume_of_wantsInput (hop : WantsInput op.want) :
    resume op ec bytesTransferred cancelled room turns s =
      retry (resumed op ec bytesTransferred) ec cancelled turns
        (s.resetRead (resumed op ec bytesTransferred) (bytesTransferred.getD 0) room) := by
  have hwant : (resumed op ec bytesTransferred).want = .inputAndRetry := resumed_want.trans hop
  unfold resumed at hwant
  simp only [resume, hwant]
  rfl

theorem resume_of_wantsOutput (hop : WantsOutput op.want) :
    resume op ec bytesTransferred cancelled room turns s =
        retry (resumed op ec bytesTransferred) ec cancelled turns
          (s.resetWrite (resumed op ec bytesTransferred)) ∨
      op.want = .output ∧ resume op ec bytesTransferred cancelled room turns s =
        some ((s.resetWrite (resumed op ec bytesTransferred)).callHandler
          (resumed op ec bytesTransferred)) := by
  have hwant : (resumed op ec bytesTransferred).want = op.want := resumed_want
  rcases hop with hop | hop
  · rw [hop] at hwant
    unfold resumed at hwant
    refine Or.inl ?_
    simp only [resume, hwant]
    rfl
  · rw [hop] at hwant
    unfold resumed at hwant
    refine Or.inr ⟨hop, ?_⟩
    simp only [resume, hwant]
    rfl

theorem resume_of_wantsNothing (hop : op.want = .nothing) :
    resume op ec bytesTransferred cancelled room turns s =
      some (s.callHandler (resumed op ec bytesTransferred)) := by
  have hwant : (resumed op ec bytesTransferred).want = op.want := resumed_want
  rw [hop] at hwant
  unfold resumed at hwant
  simp only [resume, hwant]
  rfl

end Stream

end Asio.Ssl
