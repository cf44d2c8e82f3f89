import Asio.Lib.BigEndian
import Asio.Lib.Digits
import Asio.Ip.NetworkParsing

/-! The conversion of addresses from text where no system function does it. -/

namespace Asio.Detail

open Lib.BigEndian Lib.Digits

inductive AddressFamily
  | inet | inet6 | unspec
  deriving DecidableEq, Repr

inductive AddressError
  | invalidArgument | addressFamilyNotSupported
  deriving DecidableEq, Repr

/-- The characters of a string up to the terminator. -/
abbrev Text := List Char

def decDigit (c : Char) : Option Nat :=
  if '0' ≤ c ∧ c ≤ '9' then some (c.toNat - '0'.toNat) else none

def hexDigit (c : Char) : Option Nat :=
  if '0' ≤ c ∧ c ≤ '9' then some (c.toNat - '0'.toNat)
  else if 'a' ≤ c ∧ c ≤ 'f' then some (c.toNat - 'a'.toNat + 10)
  else if 'A' ≤ c ∧ c ≤ 'F' then some (c.toNat - 'A'.toNat + 10)
  else none

/-- The two bytes of a word. -/
def wordBytes (word : Nat) : List Byte := [BitVec.ofNat 8 (word >>> 8), BitVec.ofNat 8 word]

namespace InetPton

/-! ### Version 6 -/

inductive ScanState
  | fword | fcolon | bword | scope | done
  deriving DecidableEq, Repr

/-- The lists are the first `num_front_bytes` of `bytes` and the first `num_back_bytes` of
`back_bytes`; there is a scope when `*scope_id` has been written. -/
structure Scan where
  p : Text
  state : ScanState
  currentWord : Nat
  bytes : List Byte
  backBytes : List Byte
  scopeId : Option Nat
  deriving DecidableEq, Repr

def start (src : Text) : Scan := ⟨src, .fword, 0, [], [], none⟩

/-- What follows a word: the terminator, a colon, after which the scan is in the given state, or
a scope; anything else is an error. -/
def afterWord (s : Scan) (colon : ScanState) : Option Scan :=
  match s.p with
  | [] => some { s with state := .done }
  | ':' :: p => some { s with p := p, state := colon }
  | '%' :: p => some { s with p := p, state := .scope }
  | _ => none

def nextDigit (digit : Char → Option Nat) (s : Scan) : Option Nat := s.p.head?.bind digit

def takeDigit (s : Scan) (base d : Nat) : Scan :=
  { s with p := s.p.tail, currentWord := s.currentWord * base + d }

def pushFront (s : Scan) : Scan :=
  { s with bytes := s.bytes ++ wordBytes s.currentWord, currentWord := 0 }

def pushBack (s : Scan) : Scan :=
  { s with backBytes := s.backBytes ++ wordBytes s.currentWord, currentWord := 0 }

/-- The body of the loop; `none` is `invalid_argument`. -/
def step (s : Scan) : Option Scan :=
  if 0xFFFF < s.currentWord then none
  else match s.state with
  | .fword =>
    match nextDigit hexDigit s with
    | some d => some (takeDigit s 16 d)
    | none => if s.bytes.length = 16 then none else afterWord (pushFront s) .fcolon
  | .fcolon =>
    match s.p with
    | ':' :: p => some { s with p := p, state := .bword }
    | _ => some { s with state := .fword }
  | .bword =>
    match nextDigit hexDigit s with
    | some d => some (takeDigit s 16 d)
    | none =>
      if s.bytes.length + s.backBytes.length = 16 then none else afterWord (pushBack s) .bword
  | .scope =>
    match nextDigit decDigit s with
    | some d => some (takeDigit s 10 d)
    | none =>
      if s.p = [] then some { s with scopeId := some s.currentWord, state := .done } else none
  | .done => some s

/-- What is left to read; a colon read in front may still be part of two. -/
def remaining (s : Scan) : Nat :=
  2 * s.p.length + match s.state with
    | .done => 0
    | .fcolon => 2
    | _ => 1

theorem remaining_takeDigit {digit : Char → Option Nat} {s : Scan} {base d : Nat}
    (h : nextDigit digit s = some d) : remaining (takeDigit s base d) < remaining s := by
  obtain ⟨p, state, currentWord, bytes, backBytes, scopeId⟩ := s
  cases p with
  | nil => cases h
  | cons c p =>
    simp only [remaining, takeDigit, List.tail_cons, List.length_cons]
    omega

theorem remaining_afterWord {s s' : Scan} {colon : ScanState} (hdone : s.state ≠ .done)
    (h : afterWord s colon = some s') : remaining s' < remaining s := by
  obtain ⟨p, state, currentWord, bytes, backBytes, scopeId⟩ := s
  unfold afterWord at h
  split at h
  · cases h
    cases state <;> simp_all [remaining]
  · rename_i p' hp
    cases h
    cases hp
    cases state with
    | done => exact absurd rfl hdone
    | fword | fcolon | bword | scope =>
      cases colon <;>
      · simp only [remaining, List.length_cons]
        omega
  · rename_i p' hp
    cases h
    cases hp
    cases state with
    | done => exact absurd rfl hdone
    | fword | fcolon | bword | scope =>
      simp only [remaining, List.length_cons]
      omega
  · cases h

theorem remaining_step {s s' : Scan} (hdone : s.state ≠ .done) (h : step s = some s') :
    remaining s' < remaining s := by
  unfold step at h
  split at h
  · cases h
  · split at h
    · rename_i hstate
      split at h
      · rename_i d hd
        cases h
        exact remaining_takeDigit hd
      · split at h
        · cases h
        · exact remaining_afterWord (s := pushFront s) hdone h
    · rename_i hstate
      split at h
      · rename_i p hp
        cases h
        simp only [remaining, hp, hstate, List.length_cons]
        omega
      · cases h
        simp only [remaining, hstate]
        omega
    · rename_i hstate
      split at h
      · rename_i d hd
        cases h
        exact remaining_takeDigit hd
      · split at h
        · cases h
        · exact remaining_afterWord (s := pushBack s) hdone h
    · rename_i hstate
      split at h
      · rename_i d hd
        cases h
        exact remaining_takeDigit hd
      · split at h
        · rename_i hp
          cases h
          simp only [remaining, hp, hstate]
          omega
        · cases h
    · rename_i hstate
      exact absurd hstate hdone

def loop (s : Scan) : Option Scan :=
  if _ : s.state = .done then some s
  else match _ : step s with
    | none => none
    | some s' => loop s'
termination_by remaining s
decreasing_by exact remaining_step ‹_› ‹_›

/-- The bytes of the front, zeros, and the bytes of the back at the end. -/
def address (s : Scan) : List Byte :=
  s.bytes ++ List.replicate (16 - s.bytes.length - s.backBytes.length) 0 ++ s.backBytes

/-! ### Version 4 -/

/-- The conversion `%u`. -/
def scanU (str : Text) : Option (Nat × Text) :=
  let str := str.dropWhile Ip.isSpace
  let number (negative : Bool) (str : Text) : Option (Nat × Text) :=
    let digits := str.takeWhile Char.isDigit
    if digits = [] then none
    else
      let n : Int := Ip.decimal digits
      some ((BitVec.ofInt 32 (if negative then -n else n)).toNat, str.dropWhile Char.isDigit)
  match str with
  | '-' :: rest => number true rest
  | '+' :: rest => number false rest
  | rest => number false rest

def scanLiteral (c : Char) : Text → Option Text
  | d :: rest => if d = c then some rest else none
  | [] => none

/-- `%u.%u.%u.%u`, when all four are converted. -/
def scanDotted (src : Text) : Option (List Nat) := do
  let (b0, str) ← scanU src
  let str ← scanLiteral '.' str
  let (b1, str) ← scanU str
  let str ← scanLiteral '.' str
  let (b2, str) ← scanU str
  let str ← scanLiteral '.' str
  let (b3, _) ← scanU str
  some [b0, b1, b2, b3]

end InetPton

open InetPton in
/-- The bytes and what is written to `*scope_id`. -/
def inetPton (af : AddressFamily) (src : Text) : Except AddressError (List Byte × Option Nat) :=
  match af with
  | .inet =>
    match scanDotted src with
    | none => .error .invalidArgument
    | some bs =>
      if bs.any (255 < ·) then .error .invalidArgument
      else .ok (bs.map (BitVec.ofNat 8), none)
  | .inet6 =>
    match loop (start src) with
    | none => .error .invalidArgument
    | some s => .ok (address s, s.scopeId)
  | .unspec => .error .addressFamilyNotSupported

end Asio.Detail
