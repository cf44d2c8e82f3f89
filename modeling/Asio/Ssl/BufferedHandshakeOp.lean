import Mathlib.Data.List.Basic
import Mathlib.Data.List.Flatten
import Asio.Lib.Transition
import Asio.Ssl.Engine
import Asio.Ssl.IoOp

/-! A handshake for which some of the input is there already, in a sequence of buffers. -/

namespace Asio.Ssl.BufferedHandshakeOp

open Asio.Lib.Transition

/-- `total_buffer_size_` -/
def totalBufferSize (buffers : List (List UInt8)) : Nat := (buffers.map List.length).sum

/-- The local variables of `process`. What it has passed to `put_input` and the engine has accepted
is `fed`. -/
structure Process where
  iter : List (List UInt8)
  accumulatedSize : Nat
  bytesTransferred : Nat
  engine : Engine
  fed : List UInt8

/-- Skip over the buffers that have been consumed. -/
def skip (bytesTransferred : Nat) : List (List UInt8) → Nat → List (List UInt8) × Nat
  | [], accumulatedSize => ([], accumulatedSize)
  | buffer :: iter, accumulatedSize =>
    if bytesTransferred ≥ accumulatedSize + buffer.length then
      skip bytesTransferred iter (accumulatedSize + buffer.length)
    else
      (buffer :: iter, accumulatedSize)

namespace Process

def enter (buffers : List (List UInt8)) (s : Process) (engine : Engine) : Process where
  iter := buffers
  accumulatedSize := 0
  bytesTransferred := s.bytesTransferred
  engine := engine
  fed := s.fed

/-- The rest of the current buffer is passed to the engine. -/
def feed (s : Process) (room : Nat) : Process :=
  match s.iter with
  | [] => s
  | buffer :: _ =>
    let piece :=
      if s.bytesTransferred > s.accumulatedSize then
        buffer.drop (s.bytesTransferred - s.accumulatedSize)
      else
        buffer
    let (length, engine) := s.engine.putInput piece room
    { s with
      engine := engine
      bytesTransferred := s.bytesTransferred + piece.length - (piece.drop length).length
      fed := s.fed ++ piece.take length }

/-- One round of the loop, which ends it or not. -/
def iterate (total : Nat) (s : Process) (turn : Stream.Turn) :
    Process × Option Engine.Performed :=
  let performed := s.engine.performed turn.ssl false 0
  let s := { s with engine := s.engine.perform turn.ssl }
  if performed.want ≠ .inputAndRetry ∨ s.bytesTransferred = total then
    (s, some performed)
  else
    let (iter, accumulatedSize) := skip s.bytesTransferred s.iter s.accumulatedSize
    ({ s with iter := iter, accumulatedSize := accumulatedSize }.feed turn.room, none)

/-- The loop, as far as it is known what the library does. -/
def run (total : Nat) : List Stream.Turn → Process → Option (Process × Engine.Performed)
  | [], _ => none
  | turn :: turns, s =>
    match s.iterate total turn with
    | (s, some performed) => some (s, performed)
    | (s, none) => run total turns s

end Process

/-! ### One handshake -/

/-- The function is called again and again, and the engine is used by others in between. -/
inductive Action
  | enter (engine : Engine)
  | turn (turn : Stream.Turn)

structure State where
  process : Process
  inside : Bool

def State.initial : State := ⟨⟨[], 0, 0, .initial, []⟩, false⟩

def step (buffers : List (List UInt8)) (s : State) : Action → Option State
  | .enter engine => if s.inside then none else some ⟨s.process.enter buffers engine, true⟩
  | .turn turn =>
    if s.inside then
      let (process, performed) := s.process.iterate (totalBufferSize buffers) turn
      some ⟨process, performed.isNone⟩
    else
      none

/-- The engine accepts at least one byte whenever it wants input. -/
def Accepting (total : Nat) : List Stream.Turn → Process → Prop
  | [], _ => True
  | turn :: turns, s =>
    ((s.engine.performed turn.ssl false 0).want = .inputAndRetry → 0 < turn.room) ∧
      Accepting total turns (s.iterate total turn).1

/-! ### Where the next piece is -/

theorem totalBufferSize_eq (buffers : List (List UInt8)) :
    totalBufferSize buffers = buffers.flatten.length :=
  List.length_flatten.symm

/-- The buffers before `iter` are those that make up the accumulated size. -/
def At (buffers iter : List (List UInt8)) (accumulatedSize : Nat) : Prop :=
  ∃ before, buffers = before ++ iter ∧ accumulatedSize = before.flatten.length

theorem at_begin (buffers : List (List UInt8)) : At buffers buffers 0 := ⟨[], rfl, rfl⟩

theorem At.next {buffers iter : List (List UInt8)} {buffer : List UInt8} {n : Nat}
    (h : At buffers (buffer :: iter) n) : At buffers iter (n + buffer.length) := by
  obtain ⟨before, rfl, rfl⟩ := h
  exact ⟨before ++ [buffer], by simp, by simp⟩

/-- The unconsumed bytes are the rest of the current buffer and the buffers that follow it. -/
theorem At.drop {buffers iter : List (List UInt8)} {buffer : List UInt8} {n k : Nat}
    (h : At buffers (buffer :: iter) n) (hk : k ≤ buffer.length) :
    buffers.flatten.drop (n + k) = buffer.drop k ++ iter.flatten := by
  obtain ⟨before, rfl, rfl⟩ := h
  rw [List.flatten_append, List.drop_length_add_append, List.flatten_cons,
    List.drop_append_of_le_length hk]

theorem skip_at {buffers : List (List UInt8)} {bytesTransferred : Nat} (iter : List (List UInt8))
    (n : Nat) (h : At buffers iter n) (hn : n ≤ bytesTransferred)
    (hlt : bytesTransferred < buffers.flatten.length) :
    ∃ buffer rest m, skip bytesTransferred iter n = (buffer :: rest, m) ∧
      At buffers (buffer :: rest) m ∧ m ≤ bytesTransferred ∧
      bytesTransferred < m + buffer.length := by
  induction iter generalizing n with
  | nil =>
    obtain ⟨before, rfl, rfl⟩ := h
    rw [List.append_nil] at hlt
    exact absurd hn (Nat.not_le_of_lt hlt)
  | cons buffer iter ih =>
    unfold skip
    split
    · rename_i hge
      exact ih (n + buffer.length) h.next hge
    · rename_i hge
      exact ⟨buffer, iter, n, rfl, h, hn, Nat.lt_of_not_le hge⟩

/-! ### What is fed -/

namespace Process

/-- As much has been fed as is counted. -/
structure Fed (buffers : List (List UInt8)) (s : Process) : Prop where
  fed : s.fed = buffers.flatten.take s.bytesTransferred
  inRange : s.bytesTransferred ≤ buffers.flatten.length

/-- Within a call the place in the buffers is known as well. -/
structure Sane (buffers : List (List UInt8)) (s : Process) : Prop extends Fed buffers s where
  inside : At buffers s.iter s.accumulatedSize
  accumulated : s.accumulatedSize ≤ s.bytesTransferred

variable {buffers : List (List UInt8)} {s : Process}

/-- What is passed to the engine next. -/
def piece (s : Process) (buffer : List UInt8) : List UInt8 :=
  buffer.drop (s.bytesTransferred - s.accumulatedSize)

theorem feed_eq (room : Nat) (buffer : List UInt8) (rest : List (List UInt8))
    (hiter : s.iter = buffer :: rest) :
    s.feed room = { s with
      engine := (s.engine.putInput (s.piece buffer) room).2
      bytesTransferred := s.bytesTransferred + min room (s.piece buffer).length
      fed := s.fed ++ (s.piece buffer).take (min room (s.piece buffer).length) } := by
  have hpiece : (if s.bytesTransferred > s.accumulatedSize then
      buffer.drop (s.bytesTransferred - s.accumulatedSize) else buffer) = s.piece buffer := by
    split
    · rfl
    · rename_i hle
      rw [piece, Nat.sub_eq_zero_of_le (Nat.le_of_not_lt hle), List.drop_zero]
  have hlen (piece : List UInt8) : s.bytesTransferred + piece.length -
      (piece.drop (min room piece.length)).length =
        s.bytesTransferred + min room piece.length := by
    rw [List.length_drop]
    omega
  simp only [feed, hiter, hpiece, Engine.putInput, hlen]

/-- What counts as fed is what the engine has accepted in the same round. -/
theorem iterate_accepted (total : Nat) (s : Process) (turn : Stream.Turn) :
    ∃ piece, (s.iterate total turn).1.fed = s.fed ++ piece ∧
      (s.iterate total turn).1.engine.accepted = s.engine.accepted ++ piece := by
  unfold iterate
  dsimp only
  split
  · exact ⟨[], (List.append_nil _).symm, (List.append_nil _).symm⟩
  · cases hskip : (skip s.bytesTransferred s.iter s.accumulatedSize).1 with
    | nil =>
      refine ⟨[], ?_, ?_⟩
      · simp [feed]
      · simp [feed, Engine.perform]
    | cons buffer rest =>
      rw [feed_eq turn.room buffer rest rfl]
      refine ⟨_, rfl, ?_⟩
      simp only [Engine.putInput, Engine.perform]
      rw [List.take_eq_take_min]

/-- The piece that is passed is what comes next, and as much of it counts as is accepted. -/
theorem Sane.feed {buffer : List UInt8} {rest : List (List UInt8)} (h : s.Sane buffers)
    (hiter : s.iter = buffer :: rest)
    (hlt : s.bytesTransferred < s.accumulatedSize + buffer.length) (room : Nat) :
    (s.feed room).Sane buffers := by
  have hacc := h.accumulated
  have hin := hiter ▸ h.inside
  have hdrop : buffers.flatten.drop s.bytesTransferred = s.piece buffer ++ rest.flatten := by
    rw [piece, ← hin.drop (by omega), Nat.add_sub_cancel' hacc]
  have htake (k : Nat) (hk : k ≤ (s.piece buffer).length) :
      buffers.flatten.take (s.bytesTransferred + k) =
        buffers.flatten.take s.bytesTransferred ++ (s.piece buffer).take k := by
    rw [List.take_add, hdrop, List.take_append_of_le_length hk]
  have hlen := congrArg List.length hdrop
  rw [List.length_drop, List.length_append] at hlen
  have hrange := h.inRange
  rw [feed_eq room _ _ hiter]
  exact
    { fed := by
        dsimp only
        rw [htake _ (Nat.min_le_right _ _), h.fed]
      inRange := by
        dsimp only
        omega
      inside := h.inside
      accumulated := Nat.le_add_right_of_le hacc }

theorem lt_feed {buffer : List UInt8} {rest : List (List UInt8)} {room : Nat}
    (hiter : s.iter = buffer :: rest) (hacc : s.accumulatedSize ≤ s.bytesTransferred)
    (hlt : s.bytesTransferred < s.accumulatedSize + buffer.length) (hroom : 0 < room) :
    s.bytesTransferred < (s.feed room).bytesTransferred := by
  have hpos : 0 < (s.piece buffer).length := by
    rw [piece, List.length_drop]
    omega
  rw [feed_eq room _ _ hiter]
  dsimp only
  omega

/-- What a round that does not end the loop comes to. -/
theorem Sane.iterate (h : s.Sane buffers) (turn : Stream.Turn) :
    (s.iterate (totalBufferSize buffers) turn).1.Sane buffers ∧
      ((s.iterate (totalBufferSize buffers) turn).2 = none →
        ((s.engine.performed turn.ssl false 0).want = .inputAndRetry → 0 < turn.room) →
        s.bytesTransferred < (s.iterate (totalBufferSize buffers) turn).1.bytesTransferred) := by
  have hrange := h.inRange
  unfold Process.iterate
  dsimp only
  split
  · exact ⟨⟨⟨h.fed, hrange⟩, h.inside, h.accumulated⟩, fun hn => by cases hn⟩
  · rename_i hgo
    obtain ⟨hwant, hne⟩ := not_or.mp hgo
    rw [totalBufferSize_eq] at hne
    obtain ⟨buffer, rest, m, hskip, hat, hle, hlt⟩ :=
      skip_at s.iter s.accumulatedSize h.inside h.accumulated (Nat.lt_of_le_of_ne hrange hne)
    simp only [hskip]
    have hs : Sane buffers
        { s with
          engine := s.engine.perform turn.ssl
          iter := buffer :: rest
          accumulatedSize := m } := ⟨⟨h.fed, hrange⟩, hat, hle⟩
    refine ⟨hs.feed rfl hlt turn.room, fun _ hroom => ?_⟩
    exact lt_feed (s := { s with
        engine := s.engine.perform turn.ssl
        iter := buffer :: rest
        accumulatedSize := m }) rfl hle hlt (hroom (not_not.mp hwant))

/-- The loop ends after as many rounds as there are bytes that have not been consumed. -/
theorem Sane.run_isSome {turns : List Stream.Turn} (h : s.Sane buffers)
    (hacc : Accepting (totalBufferSize buffers) turns s)
    (hlen : totalBufferSize buffers - s.bytesTransferred < turns.length) :
    (run (totalBufferSize buffers) turns s).isSome = true := by
  induction turns generalizing s with
  | nil => exact absurd hlen (Nat.not_lt_zero _)
  | cons turn turns ih =>
    obtain ⟨hroom, hacc⟩ := hacc
    obtain ⟨hs, hlt⟩ := h.iterate turn
    unfold run
    generalize hit : s.iterate (totalBufferSize buffers) turn = it at hs hlt hacc
    obtain ⟨s', performed⟩ := it
    cases performed with
    | some performed => rfl
    | none =>
      have hlt : s.bytesTransferred < s'.bytesTransferred := hlt rfl hroom
      have hrange : s'.bytesTransferred ≤ totalBufferSize buffers := by
        rw [totalBufferSize_eq]
        exact hs.inRange
      rw [List.length_cons] at hlen
      exact ih hs hacc (by omega)

theorem Fed.enter (h : s.Fed buffers) (engine : Engine) :
    (s.enter buffers engine).Sane buffers where
  fed := h.fed
  inRange := h.inRange
  inside := at_begin buffers
  accumulated := Nat.zero_le _

end Process

/-! ### Over all calls -/

structure State.Sane (buffers : List (List UInt8)) (s : State) : Prop where
  fed : s.process.Fed buffers
  inside : s.inside = true → s.process.Sane buffers

theorem State.initial_sane (buffers : List (List UInt8)) : State.initial.Sane buffers where
  fed := ⟨rfl, Nat.zero_le _⟩
  inside := fun h => by cases h

theorem step_sane {buffers : List (List UInt8)} {s s' : State} {a : Action}
    (h : s.Sane buffers) (hs : step buffers s a = some s') : s'.Sane buffers := by
  cases a with
  | enter engine =>
    simp only [step] at hs
    split at hs
    · cases hs
    · cases hs
      have := h.fed.enter engine
      exact ⟨this.toFed, fun _ => this⟩
  | turn turn =>
    simp only [step] at hs
    split at hs
    · rename_i hi
      cases hs
      have := ((h.inside hi).iterate turn).1
      exact ⟨this.toFed, fun _ => this⟩
    · cases hs

/-- Over all calls the engine is fed the bytes of the buffers in order, none of them twice; and
every call comes to an end if the engine accepts what it asks for. -/
theorem feeds_prefix (buffers : List (List UInt8)) {s : State}
    (hr : Reachable (step buffers) (fun _ _ => True) .initial s) :
    (s.process.fed <+: buffers.flatten ∧ s.process.bytesTransferred = s.process.fed.length) ∧
      (s.inside = true → ∀ turns, Accepting (totalBufferSize buffers) turns s.process →
        totalBufferSize buffers - s.process.bytesTransferred < turns.length →
        (s.process.run (totalBufferSize buffers) turns).isSome = true) := by
  have h : s.Sane buffers :=
    hr.invariant (State.initial_sane buffers) fun hs _ hstep => step_sane hs hstep
  refine ⟨⟨?_, ?_⟩, fun hi turns hacc hlen => (h.inside hi).run_isSome hacc hlen⟩
  · rw [h.fed.fed]
    exact List.take_prefix _ _
  · rw [h.fed.fed, List.length_take, Nat.min_eq_left h.fed.inRange]

/-- The handshake wants input, for which there is room for one byte. -/
def wantsInput : Stream.Turn := ⟨⟨-1, .wantRead, 0, []⟩, 1⟩

/-- The first buffer has been consumed in part. -/
def partlyFed : State := ⟨⟨[[1, 2], [], [3]], 0, 1, ⟨[], [], [], [1]⟩, [1]⟩, true⟩

theorem feeds_prefix_partlyFed :
    (partlyFed.process.fed <+: [[1, 2], [], [3]].flatten ∧
        partlyFed.process.bytesTransferred = partlyFed.process.fed.length) ∧
      (partlyFed.inside = true → ∀ turns,
        Accepting (totalBufferSize [[1, 2], [], [3]]) turns partlyFed.process →
        totalBufferSize [[1, 2], [], [3]] - partlyFed.process.bytesTransferred < turns.length →
        (partlyFed.process.run (totalBufferSize [[1, 2], [], [3]]) turns).isSome = true) :=
  feeds_prefix [[1, 2], [], [3]]
    (.step (a := .turn wantsInput) (.step (a := .enter .initial) .start trivial rfl) trivial rfl)

end Asio.Ssl.BufferedHandshakeOp
