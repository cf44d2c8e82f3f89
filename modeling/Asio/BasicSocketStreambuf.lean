import Mathlib.Data.List.Infix
import Asio.Lib.Transition

/-! The put area of a socket streambuf: what it holds is sent in parts, and a call that fails leaves
all of it there. -/

universe u

namespace Asio.BasicSocketStreambuf

open Asio.Lib Transition

/-- `buffer_size`, the size of the put buffer. An unbuffered streambuf has one of size zero. -/
def bufferSize : Nat := 512

/-- `overflow` in its loop: what is still to be sent, the new character if it is not eof, and what
`sputn` puts after it. -/
structure Call (α : Type u) where
  outputBuffer : List α
  c : Option α
  rest : List α

/-- What is between `pbase` and `pptr`, and the call in progress. The history is what has been put
successfully, what the socket has accepted, and whether a call has failed part of the way through
the put area. -/
structure State (α : Type u) where
  putArea : List α
  call : Option (Call α)
  put : List α
  accepted : List α
  failedPartway : Bool

/-- The calls of the user, and what becomes of an iteration of the loop: the expiry time has passed,
`send` accepts some bytes or fails, or it would block and `poll_write` fails or not. -/
inductive Action (α : Type u)
  | sputc (c : α)
  | sputn (cs : List α)
  | sync
  | overflow (c : Option α)
  | timedOut
  | sent (bytes : Nat)
  | failed
  | wouldBlock (pollFails : Bool)

variable {α : Type u}

def State.construct : State α where
  putArea := []
  call := none
  put := []
  accepted := []
  failedPartway := false

/-- Put characters for which there is room. -/
def State.store (s : State α) (cs : List α) : State α :=
  { s with putArea := s.putArea ++ cs, put := s.put ++ cs }

section Streambuf

variable (size : Nat)

/-- What `overflow` has to send. -/
def State.outputBuffer (s : State α) (c : Option α) : List α :=
  if size = 0 then c.toList else s.putArea

def State.enter (s : State α) (c : Option α) (rest : List α) : State α :=
  { s with call := some ⟨s.outputBuffer size c, c, rest⟩ }

/-- `xsputn`: what there is room for, and `overflow` for the next character. -/
def State.sputn (s : State α) (cs : List α) : State α :=
  let room := size - s.putArea.length
  let s := { s with call := none }.store (cs.take room)
  match cs.drop room with
  | [] => s
  | c :: rest => s.enter size (some c) rest

/-- The end of `overflow`, when all has been sent, and what `sputn` puts after it. -/
def State.finish (s : State α) (c : Option α) (rest : List α) : State α :=
  if size = 0 then
    { s with put := s.put ++ c.toList }.sputn size rest
  else
    ({ s with putArea := [], failedPartway := false }.store c.toList).sputn size rest

def State.overflow (s : State α) (c : Option α) : State α :=
  if s.outputBuffer size c = [] then s.finish size c [] else s.enter size c []

def State.sputc (s : State α) (c : α) : State α :=
  if s.putArea.length < size then s.store [c] else s.overflow size (some c)

/-- The call returns eof. -/
def State.fail (s : State α) (call : Call α) : State α :=
  { s with
    call := none
    failedPartway := s.failedPartway || decide (call.outputBuffer.length < s.putArea.length) }

/-- The socket accepts the first bytes. -/
def State.send (s : State α) (call : Call α) (bytes : Nat) : State α :=
  let s := { s with accepted := s.accepted ++ call.outputBuffer.take bytes }
  match call.outputBuffer.drop bytes with
  | [] => s.finish size call.c call.rest
  | c :: cs => { s with call := some { call with outputBuffer := c :: cs } }

def step (s : State α) : Action α → Option (State α)
  | .sputc c => if s.call.isNone then some (s.sputc size c) else none
  | .sputn cs => if s.call.isNone then some (s.sputn size cs) else none
  | .sync => if s.call.isNone then some (s.overflow size none) else none
  | .overflow c => if s.call.isNone then some (s.overflow size c) else none
  | .timedOut | .failed => s.call.map s.fail
  | .sent bytes =>
    s.call.bind fun call =>
      if 0 < bytes ∧ bytes ≤ call.outputBuffer.length then some (s.send size call bytes) else none
  | .wouldBlock pollFails => s.call.map fun call => if pollFails then s.fail call else s

end Streambuf

/-! ### What has not been sent -/

/-- The socket accepts nothing after a call that has failed partway. -/
def Fresh (s : State α) : Action α → Bool
  | .sent _ => !s.failedPartway
  | _ => true

/-- What is left to send in a call, or of the put area. -/
def State.unsent (size : Nat) (s : State α) : List α :=
  match s.call with
  | some call => if size = 0 then [] else call.outputBuffer
  | none => s.putArea

/-- What has been put is what the socket has accepted and the end of the put area. -/
structure Sane (size : Nat) (s : State α) : Prop where
  bound : s.putArea.length ≤ size
  area : s.putArea <:+ s.put
  single : size = 0 → ∀ call ∈ s.call, ∃ c, call.c = some c ∧ call.outputBuffer = [c]
  fresh : s.failedPartway = false →
    s.put = s.accepted ++ s.unsent size ∧ s.unsent size <:+ s.putArea
  stale : s.failedPartway = true →
    (∃ waiting, s.put = s.accepted ++ waiting ∧ waiting <:+ s.putArea ∧
      waiting.length < s.putArea.length) ∧
    ∀ call ∈ s.call, call.outputBuffer = s.putArea

section Steps

variable {size : Nat} {s s' : State α} {a : Action α} {c : Option α} {cs rest : List α}

theorem Sane.isPrefix (h : Sane size s) : s.accepted <+: s.put := by
  cases hf : s.failedPartway with
  | false => exact ⟨_, (h.fresh hf).1.symm⟩
  | true =>
    obtain ⟨⟨waiting, hput, -⟩, -⟩ := h.stale hf
    exact ⟨waiting, hput.symm⟩

/-- Nothing is left to wait in an empty put area. -/
theorem Sane.of_empty (h : Sane size s) (hcall : s.call = none) (hempty : s.putArea = []) :
    s.accepted = s.put ∧ s.failedPartway = false := by
  cases hf : s.failedPartway with
  | false =>
    have hput := (h.fresh hf).1
    simp only [State.unsent, hcall, hempty, List.append_nil] at hput
    exact ⟨hput.symm, rfl⟩
  | true =>
    obtain ⟨⟨waiting, -, -, hlt⟩, -⟩ := h.stale hf
    simp [hempty] at hlt

theorem construct_sane : Sane size (.construct : State α) where
  bound := Nat.zero_le size
  area := List.suffix_rfl
  single _ call hcall := by cases hcall
  fresh _ := ⟨rfl, List.suffix_rfl⟩
  stale hf := by cases hf

theorem store_sane (h : Sane size s) (hcall : s.call = none)
    (hroom : s.putArea.length + cs.length ≤ size) : Sane size (s.store cs) where
  bound := by
    rw [State.store, List.length_append]
    exact hroom
  area := by
    obtain ⟨front, hfront⟩ := h.area
    exact ⟨front, by rw [State.store, ← hfront, List.append_assoc]⟩
  single _ call hmem := by
    rw [State.store, hcall] at hmem
    cases hmem
  fresh hf := by
    have hput := (h.fresh hf).1
    simp only [State.unsent, State.store, hcall] at hput ⊢
    exact ⟨by rw [hput, List.append_assoc], List.suffix_rfl⟩
  stale hf := by
    obtain ⟨⟨waiting, hput, ⟨before, hbefore⟩, hlt⟩, -⟩ := h.stale hf
    refine ⟨⟨waiting ++ cs, ?_, ⟨before, ?_⟩, ?_⟩, fun call hmem => ?_⟩
    · rw [State.store, hput, List.append_assoc]
    · rw [State.store, ← hbefore, List.append_assoc]
    · simp only [State.store, List.length_append]
      omega
    · rw [State.store, hcall] at hmem
      cases hmem

theorem enter_sane (h : Sane size s) (hcall : s.call = none) (hc : size = 0 → c.isSome) :
    Sane size (s.enter size c rest) where
  bound := h.bound
  area := h.area
  single hzero call hmem := by
    cases hmem
    obtain ⟨c', rfl⟩ := Option.isSome_iff_exists.mp (hc hzero)
    exact ⟨c', rfl, by rw [State.outputBuffer, if_pos hzero]; rfl⟩
  fresh hf := by
    have hfresh := h.fresh hf
    simp only [State.unsent, State.enter, State.outputBuffer, hcall] at hfresh ⊢
    split
    · rename_i hzero
      have hempty : s.putArea = [] := List.eq_nil_of_length_eq_zero (by have := h.bound; omega)
      rw [hempty] at hfresh
      exact ⟨hfresh.1, List.nil_suffix⟩
    · exact hfresh
  stale hf := by
    obtain ⟨hwaiting, -⟩ := h.stale hf
    refine ⟨hwaiting, fun call hmem => ?_⟩
    cases hmem
    have hne : size ≠ 0 := by
      obtain ⟨waiting, -, -, hlt⟩ := hwaiting
      have := h.bound
      omega
    exact if_neg hne

theorem sputn_sane (h : Sane size { s with call := none }) : Sane size (s.sputn size cs) := by
  have hstored : Sane size (State.store { s with call := none }
      (cs.take (size - s.putArea.length))) := by
    refine store_sane h rfl ?_
    have hbound : s.putArea.length ≤ size := h.bound
    simp only [List.length_take]
    omega
  simp only [State.sputn]
  split
  · exact hstored
  · exact enter_sane hstored rfl fun _ => rfl

/-- Everything that `overflow` had to send has been accepted. -/
theorem finish_sane (haccepted : s.accepted = s.put ++ if size = 0 then c.toList else [])
    (hempty : size = 0 → s.putArea = [] ∧ s.failedPartway = false) :
    Sane size (s.finish size c rest) := by
  unfold State.finish
  split
  · rename_i hzero
    obtain ⟨harea, hf⟩ := hempty hzero
    rw [if_pos hzero] at haccepted
    refine sputn_sane ⟨?_, ?_, ?_, ?_, ?_⟩
    · simp [harea]
    · simp [harea]
    · intro _ call hmem
      cases hmem
    · intro _
      simp [State.unsent, harea, haccepted]
    · intro hf'
      simp [hf] at hf'
  · rename_i hpos
    rw [if_neg hpos, List.append_nil] at haccepted
    refine sputn_sane (store_sane (s := { s with
      putArea := []
      call := none
      failedPartway := false }) ⟨?_, ?_, ?_, ?_, ?_⟩ rfl ?_)
    · exact Nat.zero_le size
    · exact List.nil_suffix
    · intro _ call hmem
      cases hmem
    · intro _
      simp [State.unsent, haccepted]
    · intro hf'
      cases hf'
    · have : c.toList.length ≤ 1 := by cases c <;> simp
      simp only [List.length_nil]
      omega

theorem overflow_sane (h : Sane size s) (hcall : s.call = none) :
    Sane size (s.overflow size c) := by
  unfold State.overflow
  split
  · rename_i houtput
    have hempty : s.putArea = [] := by
      unfold State.outputBuffer at houtput
      split at houtput
      · rename_i hzero
        exact List.eq_nil_of_length_eq_zero (by have := h.bound; omega)
      · exact houtput
    obtain ⟨haccepted, hf⟩ := h.of_empty hcall hempty
    refine finish_sane ?_ fun _ => ⟨hempty, hf⟩
    split
    · rename_i hzero
      rw [State.outputBuffer, if_pos hzero] at houtput
      rw [houtput, List.append_nil, haccepted]
    · rw [List.append_nil, haccepted]
  · rename_i houtput
    refine enter_sane h hcall fun hzero => ?_
    rw [State.outputBuffer, if_pos hzero] at houtput
    cases c with
    | none => exact absurd rfl houtput
    | some => rfl

theorem sputc_sane {c : α} (h : Sane size s) (hcall : s.call = none) :
    Sane size (s.sputc size c) := by
  unfold State.sputc
  split
  · exact store_sane h hcall (by simp only [List.length_singleton]; omega)
  · exact overflow_sane h hcall

/-- What a call has left to send, if none has failed partway before. -/
theorem Sane.outputBuffer {call : Call α} (h : Sane size s) (hcall : s.call = some call)
    (hf : s.failedPartway = false) (hpos : size ≠ 0) :
    s.put = s.accepted ++ call.outputBuffer ∧ call.outputBuffer <:+ s.putArea := by
  have hfresh := h.fresh hf
  simp only [State.unsent, hcall, if_neg hpos] at hfresh
  exact hfresh

/-- An unbuffered streambuf has its characters in the calls. -/
theorem Sane.unbuffered {call : Call α} (h : Sane size s) (hcall : s.call = some call)
    (hzero : size = 0) : s.putArea = [] ∧ s.failedPartway = false ∧ s.put = s.accepted := by
  have hempty : s.putArea = [] := List.eq_nil_of_length_eq_zero (by have := h.bound; omega)
  have hf : s.failedPartway = false := by
    by_contra hf
    obtain ⟨⟨waiting, -, -, hlt⟩, -⟩ := h.stale (by simpa using hf)
    simp [hempty] at hlt
  have hput := (h.fresh hf).1
  simp only [State.unsent, hcall, if_pos hzero, List.append_nil] at hput
  exact ⟨hempty, hf, hput⟩

theorem fail_sane {call : Call α} (h : Sane size s) (hcall : s.call = some call) :
    Sane size (s.fail call) where
  bound := h.bound
  area := h.area
  single _ _ hmem := by cases hmem
  fresh hf := by
    simp only [State.fail, Bool.or_eq_false_iff, decide_eq_false_iff_not] at hf
    refine ⟨?_, List.suffix_rfl⟩
    by_cases hzero : size = 0
    · obtain ⟨hempty, -, hput⟩ := h.unbuffered hcall hzero
      simp only [State.fail, State.unsent, hempty, hput, List.append_nil]
    · obtain ⟨hput, hsuffix⟩ := h.outputBuffer hcall hf.1 hzero
      have heq := hsuffix.eq_of_length_le (Nat.le_of_not_lt hf.2)
      rw [heq] at hput
      exact hput
  stale hf := by
    refine ⟨?_, fun _ hmem => by cases hmem⟩
    cases hfailed : s.failedPartway with
    | true => exact (h.stale hfailed).1
    | false =>
      simp only [State.fail, hfailed, Bool.false_or, decide_eq_true_eq] at hf
      have hpos : size ≠ 0 := by
        have := h.bound
        omega
      obtain ⟨hput, hsuffix⟩ := h.outputBuffer hcall hfailed hpos
      exact ⟨call.outputBuffer, hput, hsuffix, hf⟩

theorem send_sane {call : Call α} {bytes : Nat} (h : Sane size s) (hcall : s.call = some call)
    (hf : s.failedPartway = false) (hpos : 0 < bytes) : Sane size (s.send size call bytes) := by
  have hsplit := List.take_append_drop bytes call.outputBuffer
  simp only [State.send]
  split
  · rename_i hdrop
    rw [hdrop, List.append_nil] at hsplit
    refine finish_sane ?_ fun hzero => ?_
    · rw [hsplit]
      split
      · rename_i hzero
        obtain ⟨c, hc, houtput⟩ := h.single hzero call hcall
        rw [(h.unbuffered hcall hzero).2.2, hc, houtput]
        rfl
      · rename_i hne
        rw [(h.outputBuffer hcall hf hne).1, List.append_nil]
    · obtain ⟨hempty, -, -⟩ := h.unbuffered hcall hzero
      exact ⟨hempty, hf⟩
  · rename_i c cs hdrop
    rw [hdrop] at hsplit
    have hne : size ≠ 0 := by
      intro hzero
      obtain ⟨c', -, houtput⟩ := h.single hzero call hcall
      have hlength := congrArg List.length hdrop
      simp only [houtput, List.length_drop, List.length_cons, List.length_nil] at hlength
      omega
    obtain ⟨hput, hsuffix⟩ := h.outputBuffer hcall hf hne
    refine ⟨h.bound, h.area, fun hzero => absurd hzero hne, fun _ => ?_, fun hf' => ?_⟩
    · simp only [State.unsent, if_neg hne]
      rw [List.append_assoc, hsplit]
      exact ⟨hput, (List.IsSuffix.trans ⟨_, hsplit⟩ hsuffix)⟩
    · simp [hf] at hf'

theorem step_sane (h : Sane size s) (hfresh : Fresh s a) (hstep : step size s a = some s') :
    Sane size s' := by
  cases a with
  | sputc c =>
    simp only [step] at hstep
    split at hstep
    · rename_i hcall
      cases hstep
      exact sputc_sane h (Option.isNone_iff_eq_none.mp hcall)
    · cases hstep
  | sputn cs =>
    simp only [step] at hstep
    split at hstep
    · rename_i hcall
      cases hstep
      refine sputn_sane ?_
      rw [← Option.isNone_iff_eq_none.mp hcall]
      exact h
    · cases hstep
  | sync | overflow c =>
    simp only [step] at hstep
    split at hstep
    · rename_i hcall
      cases hstep
      exact overflow_sane h (Option.isNone_iff_eq_none.mp hcall)
    · cases hstep
  | timedOut | failed =>
    obtain ⟨call, hcall, rfl⟩ := Option.map_eq_some_iff.mp hstep
    exact fail_sane h hcall
  | sent bytes =>
    obtain ⟨call, hcall, hstep⟩ := Option.bind_eq_some_iff.mp hstep
    split at hstep
    · rename_i hbytes
      cases hstep
      exact send_sane h hcall (by simpa [Fresh] using hfresh) hbytes.1
    · cases hstep
  | wouldBlock pollFails =>
    obtain ⟨call, hcall, rfl⟩ := Option.map_eq_some_iff.mp hstep
    split
    · exact fail_sane h hcall
    · exact h

/-! ### What is sent again -/

theorem sputn_put (size : Nat) (s : State α) (cs : List α) :
    s.put <+: (s.sputn size cs).put ∧ (s.sputn size cs).accepted = s.accepted := by
  simp only [State.sputn]
  split
  · exact ⟨List.prefix_append .., rfl⟩
  · exact ⟨List.prefix_append .., rfl⟩

theorem finish_put (size : Nat) (s : State α) (c : Option α) (rest : List α) :
    s.put <+: (s.finish size c rest).put ∧ (s.finish size c rest).accepted = s.accepted := by
  unfold State.finish
  split
  · obtain ⟨hput, haccepted⟩ := sputn_put size { s with put := s.put ++ c.toList } rest
    exact ⟨(List.prefix_append ..).trans hput, haccepted⟩
  · obtain ⟨hput, haccepted⟩ := sputn_put size
      (State.store { s with putArea := [], failedPartway := false } c.toList) rest
    exact ⟨(List.prefix_append ..).trans hput, haccepted⟩

theorem send_put (size : Nat) (s : State α) (call : Call α) (bytes : Nat) :
    s.put <+: (s.send size call bytes).put ∧
      (s.send size call bytes).accepted = s.accepted ++ call.outputBuffer.take bytes := by
  simp only [State.send]
  split
  · exact finish_put size { s with accepted := s.accepted ++ call.outputBuffer.take bytes } _ _
  · exact ⟨List.prefix_rfl, rfl⟩

/-- The first character of the put area has been sent before. -/
theorem Sane.resent {c : α} {area : List α} (h : Sane size s) (hf : s.failedPartway = true)
    (harea : s.putArea = c :: area) : c ∈ s.accepted := by
  obtain ⟨front, hfront⟩ := h.area
  obtain ⟨⟨waiting, hput, -, hlt⟩, -⟩ := h.stale hf
  have hprefix : front ++ [c] <+: s.put := ⟨area, by rw [← hfront, harea]; simp⟩
  have hlength : (front ++ [c]).length ≤ s.accepted.length := by
    have hsum := congrArg List.length hput
    rw [← hfront] at hsum
    simp only [List.length_append] at hsum
    simp only [List.length_append, List.length_singleton]
    omega
  have hle := List.prefix_of_prefix_length_le hprefix h.isPrefix hlength
  exact hle.subset (by simp)

/-- What the socket accepts after a call that has failed partway is sent again, which shows when
all characters are different. -/
theorem fresh_of_isPrefix (h : Sane size s) (hstep : step size s a = some s')
    (hnodup : s'.put.Nodup) (hsent : s'.accepted <+: s'.put) : Fresh s a := by
  cases a with
  | sent bytes =>
    obtain ⟨call, hcall, hstep⟩ := Option.bind_eq_some_iff.mp hstep
    split at hstep
    · rename_i hbytes
      cases hstep
      obtain ⟨-, haccepted⟩ := send_put size s call bytes
      by_contra hfresh
      have hf : s.failedPartway = true := by simpa [Fresh] using hfresh
      obtain ⟨-, houtput⟩ := h.stale hf
      rw [houtput call hcall] at haccepted hbytes
      cases harea : s.putArea with
      | nil =>
        simp only [harea, List.length_nil] at hbytes
        omega
      | cons c area =>
        obtain ⟨n, rfl⟩ := Nat.exists_eq_succ_of_ne_zero hbytes.1.ne'
        rw [harea, List.take_succ_cons] at haccepted
        have hsent := hsent.sublist.nodup hnodup
        rw [haccepted] at hsent
        exact (List.nodup_append.mp hsent).2.2 c (h.resent hf harea) c (List.mem_cons_self ..) rfl
    · cases hstep
  | _ => rfl

end Steps

/-- The bytes that the socket has accepted are always a prefix of the characters that have been put,
if it accepts none after a call has failed partway, and otherwise not, if the characters are all
different. -/
theorem sends_once (size : Nat) (as : List (Action α)) :
    (Along (step size) (fun s a _ => Fresh s a) .construct as →
      Along (step size) (fun _ _ s' => s'.accepted <+: s'.put) .construct as) ∧
    (Along (step size) (fun _ _ s' => s'.put.Nodup ∧ s'.accepted <+: s'.put) .construct as →
      Along (step size) (fun s a _ => Fresh s a) .construct as) := by
  constructor
  · intro h
    exact h.imp construct_sane (fun hs hstep hf => (step_sane hs hf hstep).isPrefix)
      fun hs hstep hf => step_sane hs hf hstep
  · intro h
    exact h.imp construct_sane (fun hs hstep hp => fresh_of_isPrefix hs hstep hp.1 hp.2)
      fun hs hstep hp => step_sane hs (fresh_of_isPrefix hs hstep hp.1 hp.2) hstep

/-- Two characters are sent one by one. -/
theorem sends_once_oneByOne : Along (step bufferSize) (fun _ _ s' => s'.accepted <+: s'.put)
    .construct [.sputn ['a', 'b'], .sync, .sent 1, .wouldBlock false, .sent 1] := by
  refine (sends_once bufferSize _).1 ?_
  rintro _ ⟨⟩
  refine ⟨rfl, ?_⟩
  rintro _ ⟨⟩
  refine ⟨rfl, ?_⟩
  rintro _ ⟨⟩
  refine ⟨rfl, ?_⟩
  rintro _ ⟨⟩
  refine ⟨rfl, ?_⟩
  rintro _ ⟨⟩
  exact ⟨rfl, trivial⟩

/-- The time is out after the first of two characters, and the user tries again. -/
def retried : List (Action Char) :=
  [.sputn ['a', 'b'], .sync, .sent 1, .wouldBlock false, .timedOut, .sync, .sent 2]

theorem retried_sends :
    (exec (step bufferSize) .construct retried).map (fun s => (s.put, s.accepted)) =
      some (['a', 'b'], ['a', 'a', 'b']) := by
  decide +kernel

theorem not_sends_once : ¬∀ as : List (Action Char),
    Along (step bufferSize) (fun _ _ s' => s'.accepted <+: s'.put) .construct as := by
  intro hclaim
  obtain ⟨s, hs, heq⟩ := Option.map_eq_some_iff.mp retried_sends
  simp only [Prod.mk.injEq] at heq
  obtain ⟨hput, haccepted⟩ := heq
  have hprefix := (hclaim retried).last (List.cons_ne_nil _ _) hs
  rw [hput, haccepted] at hprefix
  revert hprefix
  decide

end Asio.BasicSocketStreambuf
