import Mathlib.Data.List.Basic

/-! The engine between the SSL library and the streams: a pair of buffers through which ciphertext
passes. -/

namespace Asio.Ssl

inductive ErrorCode
  | ssl (code : Nat)
  | unspecifiedSystemError
  | unexpectedResult
  | streamTruncated
  | eof
  | operationAborted
  | transport (value : Nat)
  deriving DecidableEq

inductive SslError
  | none | ssl | syscall | wantRead | wantWrite | zeroReturn | other
  deriving DecidableEq

/-- What a call of the SSL library comes to, and the output it has for the other side. -/
structure SslResult where
  result : Int
  sslError : SslError
  sysError : Nat
  output : List UInt8

/-- The size of each buffer of a pair that is made without one. -/
def bioSize : Nat := 17 * 1024

/-- The output that has not been taken yet, all output there has been, and what has been taken and
accepted. -/
structure Engine where
  pendingOutput : List UInt8
  produced : List UInt8
  taken : List UInt8
  accepted : List UInt8

namespace Engine

inductive Want
  | inputAndRetry | outputAndRetry | nothing | output
  deriving DecidableEq

def initial : Engine := ⟨[], [], [], []⟩

/-- The output of a call, as far as there is room for it. -/
def output (e : Engine) (r : SslResult) : List UInt8 :=
  r.output.take (bioSize - e.pendingOutput.length)

structure Performed where
  want : Want
  ec : Option ErrorCode
  bytesTransferred : Nat

/-- `perform`, for a call that reports the bytes it has transferred or not. -/
def performed (e : Engine) (r : SslResult) (reportsBytes : Bool) (bytesTransferred : Nat) :
    Performed :=
  let moreOutput := (e.output r).length > 0
  match r.sslError with
  | .ssl =>
    ⟨if moreOutput then .output else .nothing, some (.ssl r.sysError), bytesTransferred⟩
  | .syscall =>
    ⟨if moreOutput then .output else .nothing,
      if r.sysError = 0 then some .unspecifiedSystemError else some (.ssl r.sysError),
      bytesTransferred⟩
  | sslError =>
    let bytesTransferred :=
      if r.result > 0 ∧ reportsBytes then r.result.toNat else bytesTransferred
    if sslError = .wantWrite then
      ⟨.outputAndRetry, none, bytesTransferred⟩
    else if moreOutput then
      ⟨if r.result > 0 then .output else .outputAndRetry, none, bytesTransferred⟩
    else if sslError = .wantRead then
      ⟨.inputAndRetry, none, bytesTransferred⟩
    else if sslError = .zeroReturn then
      ⟨.nothing, some .eof, bytesTransferred⟩
    else if sslError = .none then
      ⟨.nothing, none, bytesTransferred⟩
    else
      ⟨.nothing, some .unexpectedResult, bytesTransferred⟩

/-- The engine after a call. -/
def perform (e : Engine) (r : SslResult) : Engine :=
  { e with
    pendingOutput := e.pendingOutput ++ e.output r
    produced := e.produced ++ e.output r }

def getOutput (e : Engine) (size : Nat) : List UInt8 × Engine :=
  (e.pendingOutput.take size,
    { e with
      pendingOutput := e.pendingOutput.drop size
      taken := e.taken ++ e.pendingOutput.take size })

/-- How much of the data is passed to the library, if there is room for so much. -/
def putInput (e : Engine) (data : List UInt8) (room : Nat) : Nat × Engine :=
  (min room data.length, { e with accepted := e.accepted ++ data.take room })

end Engine

end Asio.Ssl
