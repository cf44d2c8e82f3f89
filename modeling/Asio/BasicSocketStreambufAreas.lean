import Asio.BasicSocketStreambuf
import Asio.BasicSocketStreambufConnect

/-! The buffers of a socket streambuf and the pointers of its get area and its put area into them. -/

namespace Asio.BasicSocketStreambuf

open Asio.Lib Transition

/-- The part of the get buffer in front of what is received. -/
def putbackMax : Nat := 8

/-- The pointers are positions in the get buffer and in the put buffer. A streambuf that is not
buffered has an empty put buffer. -/
structure Streambuf where
  defaultIoContext : Option Nat
  getBuffer : List UInt8
  putBuffer : List UInt8
  eback : Nat
  gptr : Nat
  egptr : Nat
  pbase : Nat
  pptr : Nat
  epptr : Nat
  socket : Option Nat
  ec : Option Error
  expiryTime : Int
  deriving DecidableEq

/-- What becomes of an iteration of `underflow`: the expiry time has passed, `recv` returns some
bytes, the end of the stream or an error, or it would block and `poll_read` fails or not. -/
inductive Received
  | timedOut
  | bytes (bytes : List UInt8)
  | eof
  | failed (ec : Error)
  | wouldBlock (pollError : Option Error)
  deriving DecidableEq

/-- What becomes of an iteration of `overflow`. -/
inductive Sent
  | timedOut
  | bytes (count : Nat)
  | failed (ec : Error)
  | wouldBlock (pollError : Option Error)
  deriving DecidableEq

namespace Streambuf

def setg (s : Streambuf) (eback gptr egptr : Nat) : Streambuf := { s with eback, gptr, egptr }

def setp (s : Streambuf) (pbase epptr : Nat) : Streambuf :=
  { s with pbase, pptr := pbase, epptr }

/-- An empty put buffer has an empty put area. -/
def initBuffers (s : Streambuf) : Streambuf :=
  (s.setg 0 putbackMax putbackMax).setp 0 s.putBuffer.length

/-! ### Characters in -/

/-- `recv` writes at most as much as there is room for. -/
def receive (s : Streambuf) (bytes : List UInt8) : Streambuf :=
  { s with
    getBuffer := s.getBuffer.take putbackMax ++ bytes ++ s.getBuffer.drop (putbackMax + bytes.length)
    ec := none }.setg 0 putbackMax (putbackMax + bytes.length)

def underflowLoop (s : Streambuf) : List Received → Option (Option UInt8 × Streambuf)
  | [] => none
  | .timedOut :: _ => some (none, { s with ec := some .timedOut })
  | .bytes bytes :: _ =>
    if s.socket.isSome ∧ 0 < bytes.length ∧ putbackMax + bytes.length ≤ s.getBuffer.length then
      some ((s.receive bytes).getBuffer[putbackMax]?, s.receive bytes)
    else none
  | .eof :: _ => some (none, { s with ec := some .eof })
  | .failed ec :: _ => some (none, { s with ec := some ec })
  | .wouldBlock (some ec) :: _ => some (none, { s with ec := some ec })
  | .wouldBlock none :: received => { s with ec := none }.underflowLoop received

/-- The character or eof. -/
def underflow (s : Streambuf) (received : List Received) : Option (Option UInt8 × Streambuf) :=
  if s.gptr ≠ s.egptr then some (none, s) else s.underflowLoop received

def sgetc (s : Streambuf) (received : List Received) : Option (Option UInt8 × Streambuf) :=
  if s.gptr < s.egptr then some (s.getBuffer[s.gptr]?, s) else s.underflow received

/-- `sbumpc`, and `uflow` where the get area is at its end. -/
def sbumpc (s : Streambuf) (received : List Received) : Option (Option UInt8 × Streambuf) :=
  (s.sgetc received).map fun r =>
    (r.1, if r.1.isSome then { r.2 with gptr := r.2.gptr + 1 } else r.2)

/-- `pbackfail` always fails. -/
def sungetc (s : Streambuf) : Option UInt8 × Streambuf :=
  if s.eback < s.gptr then
    (s.getBuffer[s.gptr - 1]?, { s with gptr := s.gptr - 1 })
  else (none, s)

/-- What `underflow` returns and leaves behind: bytes at the start of the get area, or an error. -/
inductive Underflows (s : Streambuf) : Option UInt8 → Streambuf → Prop
  | bytes {bytes : List UInt8} (hpos : 0 < bytes.length)
      (hroom : putbackMax + bytes.length ≤ s.getBuffer.length) :
    Underflows s (s.receive bytes).getBuffer[putbackMax]? (s.receive bytes)
  | fails (ec : Option Error) : Underflows s none { s with ec }

theorem underflowLoop_underflows {s s' : Streambuf} {received : List Received} {c : Option UInt8}
    (h : s.underflowLoop received = some (c, s')) : s.Underflows c s' := by
  induction received generalizing s with
  | nil => cases h
  | cons r received ih =>
    cases r with
    | timedOut | eof | failed =>
      cases h
      exact .fails _
    | bytes bytes =>
      simp only [underflowLoop] at h
      split at h
      · rename_i hbytes
        cases h
        exact .bytes hbytes.2.1 hbytes.2.2
      · cases h
    | wouldBlock pollError =>
      cases pollError with
      | some ec =>
        cases h
        exact .fails _
      | none =>
        cases ih h with
        | bytes hpos hroom => exact .bytes hpos hroom
        | fails ec => exact .fails ec

theorem sgetc_cases {s s' : Streambuf} {received : List Received} {c : Option UInt8}
    (h : s.sgetc received = some (c, s')) (hle : s.gptr ≤ s.egptr) :
    (s.gptr < s.egptr ∧ c = s.getBuffer[s.gptr]? ∧ s' = s) ∨ s.Underflows c s' := by
  unfold sgetc at h
  split at h
  · rename_i hlt
    cases h
    exact .inl ⟨hlt, rfl, rfl⟩
  · rename_i hge
    unfold underflow at h
    rw [if_neg (by omega)] at h
    exact .inr (underflowLoop_underflows h)

/-! ### Characters out -/

/-- What has been put and not sent. -/
def pending (s : Streambuf) : List UInt8 := (s.putBuffer.take s.pptr).drop s.pbase

/-- The loop of `overflow`: whether it comes to its end, what the socket accepts and the error. -/
def send (socket : Option Nat) :
    Option Error → List UInt8 → List Sent → Option (Bool × List UInt8 × Option Error)
  | ec, [], _ => some (true, [], ec)
  | _, _ :: _, [] => none
  | _, _ :: _, .timedOut :: _ => some (false, [], some .timedOut)
  | _, c :: cs, .bytes count :: sent =>
    if socket.isSome ∧ 0 < count ∧ count ≤ (c :: cs).length then
      (send socket none ((c :: cs).drop count) sent).map fun r =>
        (r.1, (c :: cs).take count ++ r.2.1, r.2.2)
    else none
  | _, _ :: _, .failed ec :: _ => some (false, [], some ec)
  | _, _ :: _, .wouldBlock (some ec) :: _ => some (false, [], some ec)
  | _, c :: cs, .wouldBlock none :: sent => send socket none (c :: cs) sent

/-- Whether the result is not eof, and what the socket accepts. -/
def overflow (s : Streambuf) (c : Option UInt8) (sent : List Sent) :
    Option (Bool × List UInt8 × Streambuf) :=
  (send s.socket s.ec (if s.putBuffer = [] then c.toList else s.pending) sent).map fun r =>
    let s := { s with ec := r.2.2 }
    if r.1 ∧ s.putBuffer ≠ [] then
      let s := s.setp 0 s.putBuffer.length
      match c with
      | none => (true, r.2.1, s)
      | some c => (true, r.2.1, { s with putBuffer := s.putBuffer.set 0 c, pptr := 1 })
    else (r.1, r.2.1, s)

def sync (s : Streambuf) (sent : List Sent) : Option (Bool × List UInt8 × Streambuf) :=
  s.overflow none sent

def sputc (s : Streambuf) (c : UInt8) (sent : List Sent) :
    Option (Bool × List UInt8 × Streambuf) :=
  if s.pptr < s.epptr then
    some (true, [], { s with putBuffer := s.putBuffer.set s.pptr c, pptr := s.pptr + 1 })
  else s.overflow (some c) sent

/-- `null` says that the arguments are a null pointer and zero. -/
def setbuf (s : Streambuf) (null : Bool) (sent : List Sent) :
    Option (Bool × List UInt8 × Streambuf) :=
  if s.pptr = s.pbase ∧ null then
    let s := { s with putBuffer := [] }.setp 0 0
    (s.sync sent).map fun r => (true, r.2)
  else some (false, [], s)

/-! ### Connections -/

/-- `closeError` is the error of the system if the socket is open. -/
def close (s : Streambuf) (sent : List Sent) (closeError : Option Error) :
    Option (Bool × List UInt8 × Streambuf) :=
  (s.sync sent).map fun r =>
    let s := r.2.2
    let s := { s with ec := if s.socket.isSome then closeError else none, socket := none }
    (s.ec.isNone, r.2.1, if s.ec.isNone then s.initBuffers else s)

/-- `resolverError` is the error of the resolver, if there is one, and `handle` is what the last
call of `open` returns. -/
def connect (s : Streambuf) (linux : Bool) (resolverError : Option Error)
    (attempts : List (Attempt Unit)) (handle : Nat) : Streambuf :=
  let s := s.initBuffers
  let outcome := connectToEndpoints linux s.expiryTime resolverError attempts
  { s with
    ec := outcome.ec
    socket :=
      match outcome.tried.getLast? with
      | none => s.socket
      | some a => if a.openResult.isNone then some handle else none }

/-- `max_expiry_time` -/
def maxExpiryTime : Int := Asio.Detail.ChronoTimeTraits.int64Max

/-- The members of a streambuf when its constructors begin, but for its socket. -/
def blank (defaultIoContext : Option Nat) (socket : Option Nat) : Streambuf where
  defaultIoContext
  getBuffer := List.replicate bufferSize 0
  putBuffer := List.replicate bufferSize 0
  eback := 0
  gptr := 0
  egptr := 0
  pbase := 0
  pptr := 0
  epptr := 0
  socket
  ec := none
  expiryTime := maxExpiryTime

def construct (ioContext : Nat) : Streambuf := (blank (some ioContext) none).initBuffers

def constructFrom (socket : Nat) : Streambuf := (blank none (some socket)).initBuffers

end Streambuf

/-! ### Characters put back -/

/-- A streambuf that is only read from, and the characters that have been extracted and not put
back, the last of them first. -/
structure Reading where
  streambuf : Streambuf
  taken : List UInt8
  deriving DecidableEq

inductive Get
  | sgetc (received : List Received)
  | sbumpc (received : List Received)
  | sungetc
  deriving DecidableEq

namespace Reading

def step (s : Reading) : Get → Option Reading
  | .sgetc received => (s.streambuf.sgetc received).map fun r => { s with streambuf := r.2 }
  | .sbumpc received =>
    (s.streambuf.sbumpc received).map fun r => ⟨r.2, r.1.toList ++ s.taken⟩
  | .sungetc =>
    let r := s.streambuf.sungetc
    some ⟨r.2, if r.1.isSome then s.taken.tail else s.taken⟩

/-- What `sungetc` makes available again is what was extracted last. -/
def PutsBack (s : Reading) (a : Get) (s' : Reading) : Prop :=
  a = .sungetc → ∀ c, s.streambuf.sungetc.1 = some c →
    s.taken.head? = some c ∧ s'.streambuf.sgetc [] = some (some c, s'.streambuf)

/-- There is something to put back that has been received since the get area was filled. -/
def Filled (s : Reading) (a : Get) : Prop :=
  a = .sungetc → putbackMax < s.streambuf.gptr

/-- What has been extracted from the get area is what has been extracted last, and nothing is ever
put in front of it. -/
structure Sane (s : Reading) : Prop where
  eback : s.streambuf.eback = 0
  gptr : putbackMax ≤ s.streambuf.gptr
  gptr_le : s.streambuf.gptr ≤ s.streambuf.egptr
  egptr_le : s.streambuf.egptr ≤ s.streambuf.getBuffer.length
  front : s.streambuf.getBuffer.take putbackMax = List.replicate putbackMax 0
  taken : ((s.streambuf.getBuffer.take s.streambuf.gptr).drop putbackMax).reverse <+: s.taken

section

variable {s s' : Reading} {received : List Received} {c : Option UInt8} {buf : Streambuf}

theorem constructFrom_sane (socket : Nat) : Sane ⟨.constructFrom socket, []⟩ where
  eback := rfl
  gptr := Nat.le_refl _
  gptr_le := Nat.le_refl _
  egptr_le := by
    change putbackMax ≤ (List.replicate bufferSize (0 : UInt8)).length
    rw [List.length_replicate]
    decide
  front := by
    change (List.replicate bufferSize 0).take putbackMax = _
    rw [List.take_replicate]
    rfl
  taken := by
    rw [show ((Streambuf.constructFrom socket).getBuffer.take _).drop putbackMax = [] from rfl]
    exact List.nil_prefix

theorem underflows_sane (h : s.Sane) (hu : s.streambuf.Underflows c buf) :
    Sane ⟨buf, s.taken⟩ := by
  cases hu with
  | @bytes bytes hpos hroom =>
    have hlength : (s.streambuf.getBuffer.take putbackMax).length = putbackMax := by
      rw [List.length_take]
      omega
    refine ⟨rfl, Nat.le_refl _, Nat.le_add_right _ _, ?_, ?_, ?_⟩
    · simp only [Streambuf.receive, Streambuf.setg, List.length_append, hlength]
      omega
    · simp only [Streambuf.receive, Streambuf.setg, List.append_assoc]
      rw [List.take_left' hlength]
      exact h.front
    · simp only [Streambuf.receive, Streambuf.setg, List.append_assoc]
      rw [List.take_left' hlength, List.drop_of_length_le (Nat.le_of_eq hlength)]
      exact List.nil_prefix
  | fails ec => exact ⟨h.eback, h.gptr, h.gptr_le, h.egptr_le, h.front, h.taken⟩

/-- The next character is at `gptr`. -/
theorem sgetc_sane (h : s.Sane) (hget : s.streambuf.sgetc received = some (c, buf)) :
    Sane ⟨buf, s.taken⟩ ∧ (c.isSome → buf.gptr < buf.egptr ∧ buf.getBuffer[buf.gptr]? = c) := by
  rcases Streambuf.sgetc_cases hget h.gptr_le with ⟨hlt, rfl, rfl⟩ | hu
  · exact ⟨h, fun _ => ⟨hlt, rfl⟩⟩
  · refine ⟨underflows_sane h hu, ?_⟩
    cases hu with
    | bytes hpos hroom => exact fun _ => ⟨Nat.lt_add_of_pos_right hpos, rfl⟩
    | fails ec => exact fun hsome => by cases hsome

/-- One character more of the get area. -/
theorem reverse_drop_take {buffer : List UInt8} {n : Nat} {c : UInt8} (hn : putbackMax ≤ n)
    (hc : buffer[n]? = some c) :
    ((buffer.take (n + 1)).drop putbackMax).reverse =
      c :: ((buffer.take n).drop putbackMax).reverse := by
  obtain ⟨hlt, -⟩ := List.getElem?_eq_some_iff.mp hc
  have hle : putbackMax ≤ (buffer.take n).length := by
    rw [List.length_take]
    omega
  rw [List.take_add_one, hc, Option.toList_some, List.drop_append_of_le_length hle,
    List.reverse_append, List.reverse_singleton, List.singleton_append]

theorem sbumpc_sane (h : s.Sane) (hget : s.streambuf.sbumpc received = some (c, buf)) :
    Sane ⟨buf, c.toList ++ s.taken⟩ := by
  obtain ⟨⟨c', buf'⟩, hsgetc, heq⟩ := Option.map_eq_some_iff.mp hget
  obtain ⟨hsane, hnext⟩ := sgetc_sane h hsgetc
  simp only [Prod.mk.injEq] at heq
  obtain ⟨rfl, rfl⟩ := heq
  cases c' with
  | none => exact hsane
  | some c =>
    obtain ⟨hlt, hc⟩ := hnext rfl
    have hgptr : putbackMax ≤ buf'.gptr := hsane.gptr
    refine ⟨hsane.eback, Nat.le_succ_of_le hsane.gptr, hlt, hsane.egptr_le, hsane.front, ?_⟩
    simp only [Option.isSome_some, if_true, reverse_drop_take hgptr hc, Option.toList_some,
      List.singleton_append]
    exact (List.prefix_cons_inj c).mpr hsane.taken

/-- With a character to put back in the get area. -/
theorem sungetc_sane (h : s.Sane) (hlt : putbackMax < s.streambuf.gptr) :
    ∃ c rest, s.taken = c :: rest ∧ s.streambuf.sungetc.1 = some c ∧
      Sane ⟨s.streambuf.sungetc.2, rest⟩ ∧
      s.streambuf.sungetc.2.sgetc [] = some (some c, s.streambuf.sungetc.2) := by
  obtain ⟨n, hn⟩ := Nat.exists_eq_succ_of_ne_zero (Nat.ne_zero_of_lt hlt)
  have hle : putbackMax ≤ n := by omega
  have hlength : n < s.streambuf.getBuffer.length := by
    have := h.gptr_le
    have := h.egptr_le
    omega
  have hc := List.getElem?_eq_getElem hlength
  have htaken := h.taken
  rw [hn, Nat.succ_eq_add_one, reverse_drop_take hle hc] at htaken
  obtain ⟨rest, hrest⟩ := htaken
  have hsungetc : s.streambuf.sungetc =
      (some s.streambuf.getBuffer[n], { s.streambuf with gptr := n }) := by
    rw [Streambuf.sungetc, if_pos (by rw [h.eback]; omega), hn, Nat.succ_sub_one, hc]
  have hnext : n < s.streambuf.egptr := by
    have := h.gptr_le
    omega
  refine ⟨_, _, hrest.symm, by rw [hsungetc], ?_, ?_⟩
  · rw [hsungetc]
    exact ⟨h.eback, hle, Nat.le_of_lt hnext, h.egptr_le, h.front, List.prefix_append ..⟩
  · rw [hsungetc, Streambuf.sgetc, if_pos hnext, hc]

theorem putsBack_of_filled {a : Get} (h : s.Sane) (hf : s.Filled a) (hstep : s.step a = some s') :
    s.PutsBack a s' := by
  rintro rfl c hc
  obtain ⟨c', rest, htaken, hc', -, hnext⟩ := sungetc_sane h (hf rfl)
  obtain rfl : c' = c := Option.some_inj.mp (hc'.symm.trans hc)
  cases hstep
  exact ⟨by rw [htaken]; rfl, hnext⟩

theorem step_sane {a : Get} (h : s.Sane) (hf : s.Filled a) (hstep : s.step a = some s') :
    s'.Sane := by
  cases a with
  | sgetc received =>
    obtain ⟨⟨c, buf⟩, hget, rfl⟩ := Option.map_eq_some_iff.mp hstep
    exact (sgetc_sane h hget).1
  | sbumpc received =>
    obtain ⟨⟨c, buf⟩, hget, rfl⟩ := Option.map_eq_some_iff.mp hstep
    exact sbumpc_sane h hget
  | sungetc =>
    obtain ⟨c, rest, htaken, hc, hsane, -⟩ := sungetc_sane h (hf rfl)
    cases hstep
    rw [hc, Option.isSome_some, if_pos rfl, htaken]
    exact hsane

/-- What is in front of the get area are null characters. -/
theorem filled_of_putsBack {a : Get} (h : s.Sane) (hnull : 0 ∉ s.taken) (hp : s.PutsBack a s') :
    s.Filled a := by
  rintro rfl
  by_contra hge
  have hgptr : s.streambuf.gptr = putbackMax := Nat.le_antisymm (Nat.le_of_not_lt hge) h.gptr
  have hfront : s.streambuf.getBuffer[putbackMax - 1]? = some 0 := by
    rw [← List.getElem?_take_of_lt (show putbackMax - 1 < putbackMax by decide), h.front]
    rfl
  have hc : s.streambuf.sungetc.1 = some 0 := by
    rw [Streambuf.sungetc, if_pos (by rw [h.eback, hgptr]; decide), hgptr, hfront]
  exact hnull (List.mem_of_head? (hp rfl 0 hc).1)

/-- `sungetc` always makes available what was extracted last, if it is only called when there is
something to put back that has been received since the get area was filled, and otherwise not, if
no null characters are extracted. -/
theorem putsBack (socket : Nat) (as : List Get) :
    (Along step (fun s a _ => s.Filled a) ⟨.constructFrom socket, []⟩ as →
      Along step PutsBack ⟨.constructFrom socket, []⟩ as) ∧
    (Along step (fun s a s' => 0 ∉ s.taken ∧ s.PutsBack a s') ⟨.constructFrom socket, []⟩ as →
      Along step (fun s a _ => s.Filled a) ⟨.constructFrom socket, []⟩ as) := by
  constructor
  · intro h
    exact h.imp (constructFrom_sane socket) (fun hs hstep hf => putsBack_of_filled hs hf hstep)
      fun hs hstep hf => step_sane hs hf hstep
  · intro h
    exact h.imp (constructFrom_sane socket)
      (fun hs hstep hp => filled_of_putsBack hs hp.1 hp.2)
      fun hs hstep hp => step_sane hs (filled_of_putsBack hs hp.1 hp.2) hstep

/-- The first of two characters is put back, before the second is read. -/
theorem putsBack_received : Along step PutsBack ⟨.constructFrom 3, []⟩
    [.sbumpc [.wouldBlock none, .bytes [97, 98]], .sungetc] := by
  refine (putsBack 3 _).1 ?_
  rintro s hs
  refine ⟨fun h => (by cases h), ?_⟩
  rintro s' -
  refine ⟨fun _ => ?_, trivial⟩
  have hgptr : (step ⟨.constructFrom 3, []⟩ (.sbumpc [.wouldBlock none, .bytes [97, 98]])).map
      (fun s => s.streambuf.gptr) = some 9 := by decide +kernel
  rw [hs, Option.map_some, Option.some_inj] at hgptr
  rw [hgptr]
  decide

/-- A character is extracted, the get area is filled again, and the character is put back. -/
def refilled : List Get := [.sbumpc [.bytes [97]], .sgetc [.bytes [98]]]

theorem refilled_taken :
    (exec step ⟨.constructFrom 3, []⟩ refilled).map (fun s => (s.taken, s.streambuf.sungetc.1)) =
      some ([97], some 0) := by
  decide +kernel

theorem not_putsBack : ¬ ∀ (socket : Nat) (as : List Get),
    Along step PutsBack ⟨.constructFrom socket, []⟩ as := by
  intro hclaim
  obtain ⟨s, hs, heq⟩ := Option.map_eq_some_iff.mp refilled_taken
  obtain ⟨s₁, h₁, hs⟩ := Option.bind_eq_some_iff.mp hs
  obtain ⟨s₂, h₂, hs⟩ := Option.bind_eq_some_iff.mp hs
  cases hs
  simp only [Prod.mk.injEq] at heq
  have hback := ((hclaim 3 (refilled ++ [Get.sungetc]) s₁ h₁).2 s h₂).2 _ rfl
  obtain ⟨hhead, -⟩ := hback.1 rfl 0 heq.2
  rw [heq.1] at hhead
  cases hhead

end

end Reading

end Asio.BasicSocketStreambuf
