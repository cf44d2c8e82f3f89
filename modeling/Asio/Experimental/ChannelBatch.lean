import Asio.Experimental.ChannelMoves

/-! Sending a value several times at once. -/

universe u v w

namespace Asio.Experimental.ChannelService

open Asio.Lib.Transition

variable {ι : Type u} {α : Type v}

/-! ### The batch -/

def bufferPushN (maxBufferSize : Nat) (payload : α) : Nat → List α → Nat × List α
  | 0, buffer => (0, buffer)
  | count + 1, buffer =>
    if buffer.length < maxBufferSize then
      let (i, buffer) := bufferPushN maxBufferSize payload count (buffer ++ [payload])
      (i + 1, buffer)
    else
      (0, buffer)

/-- How many values the loop sends when `rest` of them are left. -/
def trySendLoop (payload : α) :
    Nat → Implementation α → Option (Nat × Implementation α × List (Event α))
  | 0, impl => some (0, impl, [])
  | rest + 1, impl =>
    match impl.sendState with
    | .block => some (0, impl, [])
    | .buffer =>
      let (i, buffer) := bufferPushN impl.maxBufferSize payload (rest + 1) impl.buffer
      some (i, { impl with
        buffer := buffer
        receiveState := .buffer
        sendState := if buffer.length = impl.maxBufferSize then .block else impl.sendState }, [])
    | .waiter =>
      (handToReceiver impl payload).bind fun r =>
        (trySendLoop payload rest r.1).map fun q => (q.1 + 1, q.2.1, r.2 ++ q.2.2)
    | .closed => some (0, impl, [])

def trySendN (impl : Implementation α) (count : Nat) (payload : α) :
    Option (Nat × Implementation α × List (Event α)) :=
  if count = 0 then
    some (0, impl, [])
  else
    match impl.sendState with
    | .block => some (0, impl, [])
    | .buffer => trySendLoop payload count impl
    | .waiter => trySendLoop payload count impl
    | .closed => some (0, impl, [])

/-- At most `count` sends, until one does not succeed. -/
def repeatSend {σ : Type v} {ε : Type w} (send : σ → Option (Bool × σ × List ε)) :
    Nat → σ → Option (Nat × σ × List ε)
  | 0, s => some (0, s, [])
  | count + 1, s =>
    (send s).bind fun r =>
      if r.1 then
        (repeatSend send count r.2.1).map fun q => (q.1 + 1, q.2.1, r.2.2 ++ q.2.2)
      else
        some (0, r.2.1, r.2.2)

section Batch

variable {impl : Implementation α} {count : Nat} (a : α)

theorem bufferPushN_succ {n : Nat} {buffer : List α} : bufferPushN n a (count + 1) buffer =
    if buffer.length < n then
      ((bufferPushN n a count (buffer ++ [a])).1 + 1, (bufferPushN n a count (buffer ++ [a])).2)
    else (0, buffer) := rfl

theorem trySendLoop_zero : trySendLoop a 0 impl = some (0, impl, []) := rfl

theorem trySendLoop_refuses (h : impl.sendState = .block ∨ impl.sendState = .closed) :
    trySendLoop a count impl = some (0, impl, []) := by
  cases count with
  | zero => rfl
  | succ count => rcases h with h | h <;> simp only [trySendLoop, h]

theorem trySendLoop_buffer (hs : impl.sendState = .buffer) : trySendLoop a (count + 1) impl =
    some ((bufferPushN impl.maxBufferSize a (count + 1) impl.buffer).1, { impl with
      buffer := (bufferPushN impl.maxBufferSize a (count + 1) impl.buffer).2
      receiveState := .buffer
      sendState :=
        if (bufferPushN impl.maxBufferSize a (count + 1) impl.buffer).2.length =
          impl.maxBufferSize then .block else impl.sendState }, []) := by
  simp only [trySendLoop, hs]

theorem trySendLoop_waiter (hs : impl.sendState = .waiter) : trySendLoop a (count + 1) impl =
    (handToReceiver impl a).bind fun r =>
      (trySendLoop a count r.1).map fun q => (q.1 + 1, q.2.1, r.2 ++ q.2.2) := by
  simp only [trySendLoop, hs]

theorem repeatSend_succ {σ : Type v} {ε : Type w} (send : σ → Option (Bool × σ × List ε)) (s : σ) :
    repeatSend send (count + 1) s = (send s).bind fun r =>
      if r.1 then
        (repeatSend send count r.2.1).map fun q => (q.1 + 1, q.2.1, r.2.2 ++ q.2.2)
      else
        some (0, r.2.1, r.2.2) := rfl

theorem repeatSend_of_refuses (h : impl.sendState = .block ∨ impl.sendState = .closed) :
    repeatSend (trySend · a) count impl = some (0, impl, []) := by
  cases count with
  | zero => rfl
  | succ count =>
    have hrefused : trySend impl a = some (false, impl, []) := by
      rcases h with h | h <;> simp only [trySend, h]
    simp [repeatSend_succ, hrefused]

theorem bufferPushN_full {n : Nat} {buffer : List α} (h : n ≤ buffer.length) :
    bufferPushN n a count buffer = (0, buffer) := by
  cases count with
  | zero => rfl
  | succ count => rw [bufferPushN_succ, if_neg (Nat.not_lt.mpr h)]

/-- What is left to do once a value has been put into the buffer. -/
theorem repeatSend_buffer (h : Sane impl) (hs : impl.sendState = .buffer) :
    repeatSend (trySend · a) (count + 1) impl = trySendLoop a (count + 1) impl := by
  have htry : trySend impl a = some (true, bufferPush impl a, []) := by simp only [trySend, hs]
  have hroom := h.sendBuffer hs
  induction count generalizing impl with
  | zero =>
    rw [repeatSend_succ, htry, Option.bind_some, if_pos rfl, trySendLoop_buffer a hs,
      bufferPushN_succ, if_pos hroom, bufferPush]
    rfl
  | succ count ih =>
    have hsane := h.bufferPush hs a
    rw [repeatSend_succ, htry, Option.bind_some, if_pos rfl, trySendLoop_buffer a hs,
      bufferPushN_succ, if_pos hroom]
    by_cases hfull : (impl.buffer ++ [a]).length = impl.maxBufferSize
    · have hblock : (bufferPush impl a).sendState = .block := by
        simp only [bufferPush, if_pos hfull]
      rw [repeatSend_of_refuses a (Or.inl hblock), bufferPushN_full a (Nat.le_of_eq hfull.symm)]
      simp only [bufferPush, if_pos hfull, Option.map_some, List.append_nil]
    · have hbuffer : (bufferPush impl a).sendState = .buffer := by
        simp only [bufferPush, if_neg hfull, hs]
      have htry' : trySend (bufferPush impl a) a =
          some (true, bufferPush (bufferPush impl a) a, []) := by
        simp only [trySend, hbuffer]
      rw [ih hsane hbuffer htry' (hsane.sendBuffer hbuffer), trySendLoop_buffer a hbuffer,
        Option.map_some]
      simp only [bufferPush, if_neg hfull, List.append_nil]

theorem repeatSend_eq_trySendLoop (h : Sane impl) :
    repeatSend (trySend · a) count impl = trySendLoop a count impl := by
  induction count generalizing impl with
  | zero => rfl
  | succ count ih =>
    cases hs : impl.sendState with
    | block =>
      rw [repeatSend_of_refuses a (Or.inl hs), trySendLoop_refuses a (Or.inl hs)]
    | closed =>
      rw [repeatSend_of_refuses a (Or.inr hs), trySendLoop_refuses a (Or.inr hs)]
    | buffer => exact repeatSend_buffer a h hs
    | waiter =>
      have htry : trySend impl a = (handToReceiver impl a).map fun r => (true, r) := by
        simp only [trySend, hs]
      rw [repeatSend_succ, htry, trySendLoop_waiter a hs]
      cases hr : handToReceiver impl a with
      | none => rfl
      | some r => simp [ih (h.handToReceiver hs hr)]

theorem trySendN_eq_repeatSend (h : Sane impl) :
    trySendN impl count a = repeatSend (trySend · a) count impl := by
  rw [repeatSend_eq_trySendLoop a h, trySendN]
  split
  · rename_i hzero
    rw [hzero, trySendLoop_zero]
  · rename_i hcount
    obtain ⟨rest, rfl⟩ := Nat.exists_eq_succ_of_ne_zero hcount
    cases hs : impl.sendState with
    | block => rw [trySendLoop_refuses a (Or.inl hs)]
    | buffer => rfl
    | waiter => rfl
    | closed => rw [trySendLoop_refuses a (Or.inr hs)]

end Batch

/-! ### Values without content -/

/-- The buffer of a channel of `void` is the number of values in it. -/
structure VoidImplementation where
  receiveState : EndState
  sendState : EndState
  maxBufferSize : Nat
  waiters : List (ChannelOperation Unit)
  buffer : Nat

namespace VoidImplementation

def ofImplementation (impl : Implementation Unit) : VoidImplementation where
  receiveState := impl.receiveState
  sendState := impl.sendState
  maxBufferSize := impl.maxBufferSize
  waiters := impl.waiters
  buffer := impl.buffer.length

section Operations

variable (impl : VoidImplementation)

def emptyState : EndState := if impl.maxBufferSize = 0 then .block else .buffer

def bufferPush : VoidImplementation :=
  { impl with
    buffer := impl.buffer + 1
    receiveState := .buffer
    sendState := if impl.buffer + 1 = impl.maxBufferSize then .block else impl.sendState }

def bufferPushN (count : Nat) : Nat × Nat :=
  let available := impl.maxBufferSize - impl.buffer
  let count := if count < available then count else available
  (count, impl.buffer + count)

def handToReceiver : Option (VoidImplementation × List (Event Unit)) :=
  match impl.waiters with
  | [] => none
  | op :: ops =>
    some ({ impl with
      waiters := ops
      sendState := if ops = [] then impl.emptyState else impl.sendState },
      [.complete op (.received (.value ()))])

def trySend : Option (Bool × VoidImplementation × List (Event Unit)) :=
  match impl.sendState with
  | .block => some (false, impl, [])
  | .buffer => some (true, impl.bufferPush, [])
  | .waiter => impl.handToReceiver.map fun r => (true, r)
  | .closed => some (false, impl, [])

def trySendLoop : Nat → VoidImplementation → Option (Nat × VoidImplementation × List (Event Unit))
  | 0, impl => some (0, impl, [])
  | rest + 1, impl =>
    match impl.sendState with
    | .block => some (0, impl, [])
    | .buffer =>
      let (i, buffer) := impl.bufferPushN (rest + 1)
      some (i, { impl with
        buffer := buffer
        receiveState := .buffer
        sendState := if buffer = impl.maxBufferSize then .block else impl.sendState }, [])
    | .waiter =>
      impl.handToReceiver.bind fun r =>
        (trySendLoop rest r.1).map fun q => (q.1 + 1, q.2.1, r.2 ++ q.2.2)
    | .closed => some (0, impl, [])

def trySendN (count : Nat) : Option (Nat × VoidImplementation × List (Event Unit)) :=
  if count = 0 then
    some (0, impl, [])
  else
    match impl.sendState with
    | .block => some (0, impl, [])
    | .buffer => trySendLoop count impl
    | .waiter => trySendLoop count impl
    | .closed => some (0, impl, [])

end Operations

/-! ### The number of values is all there is to a buffer -/

variable {impl : Implementation Unit} {count : Nat}

theorem bufferPush_ofImplementation : (ofImplementation impl).bufferPush =
    ofImplementation (ChannelService.bufferPush impl ()) := by
  have hlength : (impl.buffer ++ [()]).length = impl.buffer.length + 1 := List.length_append
  simp only [bufferPush, ofImplementation, ChannelService.bufferPush, hlength]
  congr

theorem handToReceiver_ofImplementation : (ofImplementation impl).handToReceiver =
    (ChannelService.handToReceiver impl ()).map fun r => (ofImplementation r.1, r.2) := by
  cases hw : impl.waiters <;>
    simp [handToReceiver, ofImplementation, ChannelService.handToReceiver, hw, emptyState,
      Implementation.emptyState]

theorem trySend_ofImplementation : (ofImplementation impl).trySend =
    (ChannelService.trySend impl ()).map fun r => (r.1, ofImplementation r.2.1, r.2.2) := by
  have hs : (ofImplementation impl).sendState = impl.sendState := rfl
  cases himpl : impl.sendState <;> simp only [trySend, hs, himpl, ChannelService.trySend]
  · rw [bufferPush_ofImplementation]
    rfl
  · rw [handToReceiver_ofImplementation, Option.map_map, Option.map_map]
    rfl
  · rfl
  · rfl

/-- Pushing one by one ends where the arithmetic says. -/
theorem bufferPushN_length (count : Nat) {n : Nat} {buffer : List Unit} (h : buffer.length ≤ n) :
    (ChannelService.bufferPushN n () count buffer).1 =
        (if count < n - buffer.length then count else n - buffer.length) ∧
      (ChannelService.bufferPushN n () count buffer).2.length =
        buffer.length + (ChannelService.bufferPushN n () count buffer).1 := by
  induction count generalizing buffer with
  | zero =>
    simp only [ChannelService.bufferPushN]
    split <;> omega
  | succ count ih =>
    rw [ChannelService.bufferPushN]
    split
    · rename_i hroom
      have hlength : (buffer ++ [()]).length = buffer.length + 1 := by simp
      have hle : (buffer ++ [()]).length ≤ n := by omega
      obtain ⟨hcount, hbuffer⟩ := ih hle
      rw [hlength] at hcount hbuffer
      refine ⟨?_, ?_⟩
      · simp only [hcount]
        split <;> split <;> omega
      · simp only [hbuffer]
        omega
    · simp only
      split <;> omega

theorem trySendLoop_ofImplementation (h : Sane impl) :
    trySendLoop count (ofImplementation impl) =
      (ChannelService.trySendLoop () count impl).map fun r =>
        (r.1, ofImplementation r.2.1, r.2.2) := by
  induction count generalizing impl with
  | zero => rfl
  | succ count ih =>
    have hs : (ofImplementation impl).sendState = impl.sendState := rfl
    cases himpl : impl.sendState with
    | block => simp only [trySendLoop, hs, himpl, ChannelService.trySendLoop, Option.map_some]
    | closed => simp only [trySendLoop, hs, himpl, ChannelService.trySendLoop, Option.map_some]
    | buffer =>
      obtain ⟨hcount, hbuffer⟩ := bufferPushN_length (count + 1) h.bounded
      have hpush : (ofImplementation impl).bufferPushN (count + 1) =
          ((ChannelService.bufferPushN impl.maxBufferSize () (count + 1) impl.buffer).1,
            (ChannelService.bufferPushN impl.maxBufferSize () (count + 1) impl.buffer).2.length) := by
        rw [hbuffer, hcount]
        rfl
      simp only [trySendLoop, hs, himpl, ChannelService.trySendLoop, hpush, Option.map_some]
      rfl
    | waiter =>
      simp only [trySendLoop, hs, himpl, ChannelService.trySendLoop,
        handToReceiver_ofImplementation]
      cases hr : ChannelService.handToReceiver impl () with
      | none => rfl
      | some r =>
        simp only [Option.map_some, Option.bind_some, ih (h.handToReceiver himpl hr),
          Option.map_map]
        rfl

theorem trySendN_ofImplementation (h : Sane impl) :
    (ofImplementation impl).trySendN count =
      (ChannelService.trySendN impl count ()).map fun r => (r.1, ofImplementation r.2.1, r.2.2) := by
  have hs : (ofImplementation impl).sendState = impl.sendState := rfl
  simp only [trySendN, ChannelService.trySendN, hs]
  split
  · rfl
  · cases himpl : impl.sendState <;> simp only [trySendLoop_ofImplementation h] <;> rfl

theorem repeatSend_ofImplementation : repeatSend trySend count (ofImplementation impl) =
    (repeatSend (ChannelService.trySend · ()) count impl).map fun r =>
      (r.1, ofImplementation r.2.1, r.2.2) := by
  induction count generalizing impl with
  | zero => rfl
  | succ count ih =>
    rw [repeatSend, repeatSend, trySend_ofImplementation]
    cases hr : ChannelService.trySend impl () with
    | none => rfl
    | some r =>
      simp only [Option.map_some, Option.bind_some]
      split
      · rw [ih, Option.map_map, Option.map_map]
        rfl
      · rfl

end VoidImplementation

/-- The batch does what the sends do one after the other, for any values and for `void`. -/
theorem trySendN_eq [DecidableEq ι] {s : Channels ι α} {v : Channels ι Unit}
    {ok : Channels ι α → ChannelsAction ι α → Prop}
    {okVoid : Channels ι Unit → ChannelsAction ι Unit → Prop}
    (h : Reachable Channels.step ok (fun _ => none) s)
    (hv : Reachable Channels.step okVoid (fun _ => none) v) :
    (∀ i impl, s i = some impl → ∀ count a,
        trySendN impl count a = repeatSend (trySend · a) count impl) ∧
      ∀ i impl, v i = some impl → ∀ count,
        (VoidImplementation.ofImplementation impl).trySendN count =
          repeatSend VoidImplementation.trySend count
            (VoidImplementation.ofImplementation impl) := by
  refine ⟨fun i impl hi count a => ?_, fun i impl hi count => ?_⟩
  · exact trySendN_eq_repeatSend a (Channels.sane_of_reachable h hi)
  · have hsane := Channels.sane_of_reachable hv hi
    rw [VoidImplementation.trySendN_ofImplementation hsane,
      VoidImplementation.repeatSend_ofImplementation, trySendN_eq_repeatSend () hsane]

theorem trySendN_eq_waiting : trySendN (⟨.block, .waiter, 2, [.receive 0 7], []⟩ :
      Implementation Nat) 5 10 =
    repeatSend (trySend · 10) 5 ⟨.block, .waiter, 2, [.receive 0 7], []⟩ := by
  have hrun : Reachable (Channels.step (ι := Unit)) (fun _ _ => True) (fun _ => none)
      (Channels.set (Channels.set (fun _ => none) () (some (construct 2))) ()
        (some (⟨.block, .waiter, 2, [.receive 0 7], []⟩ : Implementation Nat))) :=
    .step (.step .start (a := .construct () 2) trivial rfl)
      (a := .perform () (.startReceiveOp 0 7)) trivial rfl
  have hvoid : Reachable (Channels.step (ι := Unit) (α := Unit)) (fun _ _ => True) (fun _ => none)
      (fun _ => none) :=
    .start
  exact (trySendN_eq hrun hvoid).1 () _ rfl 5 10

end Asio.Experimental.ChannelService
