import Asio.Lib.Observation
import Asio.BasicSocketStreambufAreas

/-! Socket streambufs that are used and moved, and what a move does to the output that has not been
sent. -/

namespace Asio.BasicSocketStreambuf

open Asio.Lib Transition Simulation

namespace Streambuf

/-! ### Moves -/

/-- `swap` of the buffers, and the pointers of the other streambuf. -/
def swapBuffers (s other : Streambuf) : Streambuf × Streambuf :=
  (({ s with getBuffer := other.getBuffer, putBuffer := other.putBuffer }.setg
      other.eback other.gptr other.egptr).setp other.pptr other.epptr,
    { other with getBuffer := s.getBuffer, putBuffer := s.putBuffer })

/-- The new streambuf and what is left of the other one. -/
def moveConstruct (other : Streambuf) : Streambuf × Streambuf :=
  let s := { blank other.defaultIoContext other.socket with
    ec := other.ec
    expiryTime := other.expiryTime }
  let moved := s.swapBuffers { other with socket := none }
  (moved.1, { moved.2 with ec := none, expiryTime := maxExpiryTime }.initBuffers)

def resize (size : Nat) (buffer : List UInt8) : List UInt8 :=
  buffer.take size ++ List.replicate (size - buffer.length) 0

/-- `operator=`, which closes this streambuf first. -/
def moveAssign (s other : Streambuf) (sent : List Sent) (closeError : Option Error) :
    Option (Streambuf × Streambuf) :=
  (s.close sent closeError).map fun closed =>
    let s := { closed.2.2 with
      socket := other.socket
      defaultIoContext := other.defaultIoContext
      ec := other.ec
      expiryTime := other.expiryTime }
    let moved := s.swapBuffers { other with socket := none }
    let other := { moved.2 with ec := none, expiryTime := maxExpiryTime }
    (moved.1, { other with putBuffer := resize bufferSize other.putBuffer }.initBuffers)

/-- The destructor, which sends what has been put. -/
def destruct (s : Streambuf) (sent : List Sent) : Option (Bool × List UInt8 × Streambuf) :=
  if s.pptr ≠ s.pbase then s.sync sent else some (true, [], s)

/-! ### Use -/

inductive Op
  | sgetc (received : List Received)
  | sbumpc (received : List Received)
  | sungetc
  | sputc (c : UInt8) (sent : List Sent)
  | sync (sent : List Sent)
  | setbuf (null : Bool) (sent : List Sent)
  | close (sent : List Sent) (closeError : Option Error)
  | connect (linux : Bool) (resolverError : Option Error) (attempts : List (Attempt Unit))
    (handle : Nat)
  | expiresAt (expiryTime : Int)

/-- What can be told of an operation: the socket that it uses, its result and the bytes that the
socket accepts. -/
structure Answer where
  socket : Option Nat
  done : Bool
  char : Option UInt8
  accepted : List UInt8
  deriving DecidableEq

def got (s : Streambuf) (r : Option UInt8 × Streambuf) : Streambuf × Answer :=
  (r.2, ⟨s.socket, r.1.isSome, r.1, []⟩)

def put (s : Streambuf) (r : Bool × List UInt8 × Streambuf) : Streambuf × Answer :=
  (r.2.2, ⟨s.socket, r.1, none, r.2.1⟩)

def step (s : Streambuf) : Op → Option (Streambuf × Answer)
  | .sgetc received => (s.sgetc received).map s.got
  | .sbumpc received => (s.sbumpc received).map s.got
  | .sungetc => some (s.got s.sungetc)
  | .sputc c sent => (s.sputc c sent).map s.put
  | .sync sent => (s.sync sent).map s.put
  | .setbuf null sent => (s.setbuf null sent).map s.put
  | .close sent closeError => (s.close sent closeError).map s.put
  | .connect linux resolverError attempts handle =>
    let s := s.connect linux resolverError attempts handle
    some (s, ⟨s.socket, s.ec.isNone, none, []⟩)
  | .expiresAt expiryTime => some ({ s with expiryTime }, ⟨s.socket, true, none, []⟩)

end Streambuf

/-- Several streambufs, which are constructed, used, moved and destroyed. -/
inductive Streambufs.Action
  | construct (ioContext : Nat)
  | constructFrom (socket : Nat)
  | use (i : Nat) (op : Streambuf.Op)
  | moveConstruct (i : Nat)
  | moveAssign (i j : Nat) (sent : List Sent) (closeError : Option Error)
  | destruct (i : Nat) (sent : List Sent)

def Streambufs.step (streambufs : List Streambuf) : Streambufs.Action → Option (List Streambuf)
  | .construct ioContext => some (streambufs ++ [.construct ioContext])
  | .constructFrom socket => some (streambufs ++ [.constructFrom socket])
  | .use i op =>
    streambufs[i]?.bind fun s => (s.step op).map fun r => streambufs.set i r.1
  | .moveConstruct i =>
    streambufs[i]?.map fun other =>
      streambufs.set i other.moveConstruct.2 ++ [other.moveConstruct.1]
  | .moveAssign i j sent closeError =>
    if i = j then none
    else
      streambufs[i]?.bind fun s => streambufs[j]?.bind fun other =>
        (s.moveAssign other sent closeError).map fun moved =>
          (streambufs.set i moved.1).set j moved.2
  | .destruct i sent =>
    streambufs[i]?.bind fun s => (s.destruct sent).map fun _ => streambufs.eraseIdx i

/-! ### The pointers stay in the buffers -/

namespace Streambuf

structure Bounded (s : Streambuf) : Prop where
  getBuffer : s.getBuffer.length = bufferSize
  eback_le : s.eback ≤ s.gptr
  gptr_le : s.gptr ≤ s.egptr
  egptr_le : s.egptr ≤ bufferSize
  pbase_le : s.pbase ≤ s.pptr
  pptr_le : s.pptr ≤ s.epptr
  epptr_le : s.epptr ≤ s.putBuffer.length

section

variable {s s' other : Streambuf} {c : Option UInt8} {done : Bool} {accepted : List UInt8}
  {received : List Received} {sent : List Sent}

theorem Bounded.with_other (h : s.Bounded) (defaultIoContext socket : Option Nat)
    (ec : Option Error) (expiryTime : Int) :
    Bounded { s with defaultIoContext, socket, ec, expiryTime } :=
  ⟨h.getBuffer, h.eback_le, h.gptr_le, h.egptr_le, h.pbase_le, h.pptr_le, h.epptr_le⟩

theorem initBuffers_bounded (h : s.getBuffer.length = bufferSize) : s.initBuffers.Bounded where
  getBuffer := h
  eback_le := Nat.zero_le _
  gptr_le := Nat.le_refl _
  egptr_le := by
    change putbackMax ≤ bufferSize
    decide
  pbase_le := Nat.le_refl _
  pptr_le := Nat.zero_le _
  epptr_le := Nat.le_refl _

theorem underflows_bounded (h : s.Bounded) (hu : s.Underflows c s') :
    s'.Bounded ∧ (c.isSome → s'.gptr < s'.egptr) := by
  cases hu with
  | @bytes bytes hpos hroom =>
    refine ⟨⟨?_, Nat.zero_le _, Nat.le_add_right _ _, h.getBuffer ▸ hroom, h.pbase_le, h.pptr_le,
      h.epptr_le⟩, fun _ => Nat.lt_add_of_pos_right hpos⟩
    have hlength := h.getBuffer
    simp only [receive, setg, List.length_append, List.length_take, List.length_drop]
    omega
  | fails ec =>
    exact ⟨h.with_other _ _ _ _, fun hsome => by cases hsome⟩

theorem sgetc_bounded (h : s.Bounded) (hget : s.sgetc received = some (c, s')) :
    s'.Bounded ∧ (c.isSome → s'.gptr < s'.egptr) := by
  rcases sgetc_cases hget h.gptr_le with ⟨hlt, -, rfl⟩ | hu
  · exact ⟨h, fun _ => hlt⟩
  · exact underflows_bounded h hu

theorem sbumpc_bounded (h : s.Bounded) (hget : s.sbumpc received = some (c, s')) :
    s'.Bounded := by
  obtain ⟨⟨c', s₁⟩, hsgetc, heq⟩ := Option.map_eq_some_iff.mp hget
  obtain ⟨hs₁, hlt⟩ := sgetc_bounded h hsgetc
  cases heq
  dsimp only
  split
  · rename_i hsome
    exact ⟨hs₁.getBuffer, Nat.le_succ_of_le hs₁.eback_le, hlt hsome, hs₁.egptr_le, hs₁.pbase_le,
      hs₁.pptr_le, hs₁.epptr_le⟩
  · exact hs₁

theorem sungetc_bounded (h : s.Bounded) : s.sungetc.2.Bounded := by
  unfold sungetc
  split
  · rename_i hlt
    refine ⟨h.getBuffer, Nat.le_sub_one_of_lt hlt, ?_, h.egptr_le, h.pbase_le, h.pptr_le,
      h.epptr_le⟩
    exact (Nat.sub_le _ _).trans h.gptr_le
  · exact h

theorem overflow_bounded (h : s.Bounded) (hput : s.overflow c sent = some (done, accepted, s')) :
    s'.Bounded := by
  obtain ⟨r, -, heq⟩ := Option.map_eq_some_iff.mp hput
  dsimp only at heq
  split at heq
  · rename_i hdone
    have hpos := List.length_pos_iff.mpr hdone.2
    cases c with
    | none =>
      cases heq
      exact ⟨h.getBuffer, h.eback_le, h.gptr_le, h.egptr_le, Nat.le_refl _, Nat.zero_le _,
        Nat.le_refl _⟩
    | some c =>
      cases heq
      refine ⟨h.getBuffer, h.eback_le, h.gptr_le, h.egptr_le, Nat.zero_le _, hpos, ?_⟩
      exact Nat.le_of_eq List.length_set.symm
  · cases heq
    exact h.with_other _ _ _ _

theorem sputc_bounded {c : UInt8} (h : s.Bounded)
    (hput : s.sputc c sent = some (done, accepted, s')) : s'.Bounded := by
  unfold sputc at hput
  split at hput
  · rename_i hlt
    cases hput
    refine ⟨h.getBuffer, h.eback_le, h.gptr_le, h.egptr_le, Nat.le_succ_of_le h.pbase_le, hlt, ?_⟩
    exact h.epptr_le.trans (Nat.le_of_eq List.length_set.symm)
  · exact overflow_bounded h hput

theorem setbuf_bounded {null : Bool} (h : s.Bounded)
    (hput : s.setbuf null sent = some (done, accepted, s')) : s'.Bounded := by
  unfold setbuf at hput
  split at hput
  · obtain ⟨⟨done', r⟩, hsync, heq⟩ := Option.map_eq_some_iff.mp hput
    cases heq
    have hempty : Bounded ({ s with putBuffer := [] }.setp 0 0) :=
      ⟨h.getBuffer, h.eback_le, h.gptr_le, h.egptr_le, Nat.le_refl _, Nat.le_refl _,
        Nat.le_refl _⟩
    exact overflow_bounded hempty hsync
  · cases hput
    exact h

theorem close_bounded {closeError : Option Error} (h : s.Bounded)
    (hput : s.close sent closeError = some (done, accepted, s')) : s'.Bounded := by
  obtain ⟨⟨done', accepted', s₁⟩, hsync, heq⟩ := Option.map_eq_some_iff.mp hput
  have hs₁ := overflow_bounded h hsync
  cases heq
  generalize (if s₁.socket.isSome then closeError else none) = ec
  dsimp only
  split
  · exact initBuffers_bounded hs₁.getBuffer
  · exact hs₁.with_other _ _ _ _

theorem connect_bounded {linux : Bool} {resolverError : Option Error}
    {attempts : List (Attempt Unit)} {handle : Nat} (h : s.Bounded) :
    (s.connect linux resolverError attempts handle).Bounded := by
  have hinit := initBuffers_bounded h.getBuffer
  exact hinit.with_other _ _ _ _

theorem step_bounded {op : Op} {answer : Answer} (h : s.Bounded)
    (hstep : s.step op = some (s', answer)) : s'.Bounded := by
  cases op with
  | sgetc received =>
    obtain ⟨⟨c, s₁⟩, hget, heq⟩ := Option.map_eq_some_iff.mp hstep
    cases heq
    exact (sgetc_bounded h hget).1
  | sbumpc received =>
    obtain ⟨⟨c, s₁⟩, hget, heq⟩ := Option.map_eq_some_iff.mp hstep
    cases heq
    exact sbumpc_bounded h hget
  | sungetc =>
    cases hstep
    exact sungetc_bounded h
  | sputc c sent =>
    obtain ⟨⟨done, accepted, s₁⟩, hput, heq⟩ := Option.map_eq_some_iff.mp hstep
    cases heq
    exact sputc_bounded h hput
  | sync sent =>
    obtain ⟨⟨done, accepted, s₁⟩, hput, heq⟩ := Option.map_eq_some_iff.mp hstep
    cases heq
    exact overflow_bounded h hput
  | setbuf null sent =>
    obtain ⟨⟨done, accepted, s₁⟩, hput, heq⟩ := Option.map_eq_some_iff.mp hstep
    cases heq
    exact setbuf_bounded h hput
  | close sent closeError =>
    obtain ⟨⟨done, accepted, s₁⟩, hput, heq⟩ := Option.map_eq_some_iff.mp hstep
    cases heq
    exact close_bounded h hput
  | connect linux resolverError attempts handle =>
    cases hstep
    exact connect_bounded h
  | expiresAt expiryTime =>
    cases hstep
    exact h.with_other _ _ _ _

theorem moveConstruct_bounded (h : s.Bounded) :
    s.moveConstruct.1.Bounded ∧ s.moveConstruct.2.Bounded := by
  refine ⟨⟨h.getBuffer, h.eback_le, h.gptr_le, h.egptr_le, Nat.le_refl _, h.pptr_le,
    h.epptr_le⟩, initBuffers_bounded ?_⟩
  exact List.length_replicate

theorem moveAssign_bounded {closeError : Option Error} {moved : Streambuf × Streambuf}
    (h : s.Bounded) (hother : other.Bounded)
    (hmove : s.moveAssign other sent closeError = some moved) :
    moved.1.Bounded ∧ moved.2.Bounded := by
  obtain ⟨⟨done, accepted, s₁⟩, hclose, rfl⟩ := Option.map_eq_some_iff.mp hmove
  have hs₁ := close_bounded h hclose
  exact ⟨⟨hother.getBuffer, hother.eback_le, hother.gptr_le, hother.egptr_le, Nat.le_refl _,
    hother.pptr_le, hother.epptr_le⟩, initBuffers_bounded hs₁.getBuffer⟩

end

end Streambuf

namespace Streambufs

theorem set_bounded {streambufs : List Streambuf} {i : Nat} {s : Streambuf}
    (h : ∀ s ∈ streambufs, s.Bounded) (hs : s.Bounded) :
    ∀ s' ∈ streambufs.set i s, s'.Bounded := by
  intro s' hmem
  rcases List.mem_or_eq_of_mem_set hmem with hmem | rfl
  · exact h s' hmem
  · exact hs

theorem append_bounded {streambufs : List Streambuf} {s : Streambuf}
    (h : ∀ s ∈ streambufs, s.Bounded) (hs : s.Bounded) :
    ∀ s' ∈ streambufs ++ [s], s'.Bounded := by
  intro s' hmem
  rcases List.mem_append.mp hmem with hmem | hmem
  · exact h s' hmem
  · rw [List.mem_singleton.mp hmem]
    exact hs

theorem step_bounded {streambufs streambufs' : List Streambuf} {a : Action}
    (h : ∀ s ∈ streambufs, s.Bounded) (hstep : step streambufs a = some streambufs') :
    ∀ s ∈ streambufs', s.Bounded := by
  cases a with
  | construct ioContext =>
    cases hstep
    exact append_bounded h (Streambuf.initBuffers_bounded List.length_replicate)
  | constructFrom socket =>
    cases hstep
    exact append_bounded h (Streambuf.initBuffers_bounded List.length_replicate)
  | use i op =>
    obtain ⟨s, hs, hstep⟩ := Option.bind_eq_some_iff.mp hstep
    obtain ⟨r, hr, rfl⟩ := Option.map_eq_some_iff.mp hstep
    exact set_bounded h (Streambuf.step_bounded (h s (List.mem_of_getElem? hs)) hr)
  | moveConstruct i =>
    obtain ⟨other, hother, rfl⟩ := Option.map_eq_some_iff.mp hstep
    obtain ⟨hnew, hleft⟩ :=
      Streambuf.moveConstruct_bounded (h other (List.mem_of_getElem? hother))
    exact append_bounded (set_bounded h hleft) hnew
  | moveAssign i j sent closeError =>
    simp only [step] at hstep
    split at hstep
    · cases hstep
    · obtain ⟨s, hs, hstep⟩ := Option.bind_eq_some_iff.mp hstep
      obtain ⟨other, hother, hstep⟩ := Option.bind_eq_some_iff.mp hstep
      obtain ⟨moved, hmove, rfl⟩ := Option.map_eq_some_iff.mp hstep
      obtain ⟨hnew, hleft⟩ := Streambuf.moveAssign_bounded (h s (List.mem_of_getElem? hs))
        (h other (List.mem_of_getElem? hother)) hmove
      exact set_bounded (set_bounded h hnew) hleft
  | destruct i sent =>
    obtain ⟨s, hs, hstep⟩ := Option.bind_eq_some_iff.mp hstep
    obtain ⟨r, -, rfl⟩ := Option.map_eq_some_iff.mp hstep
    exact fun s hs => h s (List.mem_of_mem_eraseIdx hs)

theorem reachable_bounded {streambufs : List Streambuf}
    (h : Reachable step (fun _ _ => True) [] streambufs) : ∀ s ∈ streambufs, s.Bounded :=
  h.invariant (by simp) fun hs _ hstep => step_bounded hs hstep

theorem exec_reachable {streambufs : List Streambuf} {as : List Action}
    (h : exec step [] as = some streambufs) : Reachable step (fun _ _ => True) [] streambufs :=
  exec_invariant h .start fun _ hr hstep => hr.step trivial hstep

end Streambufs

/-! ### What a move loses -/

namespace Streambuf

/-- No later operation tells the streambuf from the one that it was moved from, which is left with
empty areas. -/
structure Lossless (other : Streambuf) (moved : Streambuf × Streambuf) : Prop where
  same : ObservablyEqual step moved.1 other
  get : moved.2.gptr = moved.2.egptr
  put : moved.2.pptr = moved.2.pbase

section

variable {s other : Streambuf} {moved : Streambuf × Streambuf} {sent : List Sent}
  {closeError : Option Error}

theorem moveAssign_fst (h : s.moveAssign other sent closeError = some moved) :
    moved.1 = { other with pbase := other.pptr } := by
  obtain ⟨closed, -, rfl⟩ := Option.map_eq_some_iff.mp h
  rfl

theorem moveAssign_snd (h : s.moveAssign other sent closeError = some moved) :
    moved.2.gptr = moved.2.egptr ∧ moved.2.pptr = moved.2.pbase := by
  obtain ⟨closed, -, rfl⟩ := Option.map_eq_some_iff.mp h
  exact ⟨rfl, rfl⟩

theorem pending_eq_nil_iff (h : s.Bounded) : s.pending = [] ↔ s.pptr = s.pbase := by
  have := h.pbase_le
  have := h.pptr_le
  have := h.epptr_le
  rw [pending, List.drop_eq_nil_iff, List.length_take]
  omega

/-- A socket that fails shows whether there is something to send. -/
theorem sync_failed (s : Streambuf) (ec : Error) (hput : s.putBuffer ≠ []) :
    (step s (.sync [.failed ec])).map (fun r => r.2.done) = some (decide (s.pending = [])) := by
  simp only [step, sync, overflow, if_neg hput]
  cases s.pending with
  | nil => simp [send, put, hput]
  | cons c cs => simp [send, put]

/-- What has been put and not sent is lost. -/
theorem observablyEqual_iff (h : other.Bounded) :
    ObservablyEqual step { other with pbase := other.pptr } other ↔ other.pptr = other.pbase := by
  constructor
  · intro hsame
    by_contra hne
    have hput : other.putBuffer ≠ [] := by
      intro hempty
      have := h.pbase_le
      have := h.pptr_le
      have hle := h.epptr_le
      rw [hempty, List.length_nil] at hle
      omega
    have hmoved : Bounded { other with pbase := other.pptr } :=
      ⟨h.getBuffer, h.eback_le, h.gptr_le, h.egptr_le, Nat.le_refl _, h.pptr_le, h.epptr_le⟩
    have hanswer := congrArg (Option.map Answer.done) (hsame.answer (.sync [.failed (.system 32)]))
    rw [Option.map_map, Option.map_map] at hanswer
    have hdone := (sync_failed other (.system 32) hput).symm.trans
      (hanswer.symm.trans (sync_failed { other with pbase := other.pptr } (.system 32) hput))
    rw [(pending_eq_nil_iff hmoved).mpr rfl] at hdone
    simp [(pending_eq_nil_iff h), hne] at hdone
  · intro heq
    refine .of_eq ?_
    cases other
    cases heq
    rfl

end

/-- Nothing is lost when a streambuf is moved if and only if its put area is empty. -/
theorem lossless_iff {streambufs : List Streambuf}
    (h : Reachable Streambufs.step (fun _ _ => True) [] streambufs) {other : Streambuf}
    (hmem : other ∈ streambufs) :
    (Lossless other other.moveConstruct ↔ other.pptr = other.pbase) ∧
    ∀ (s : Streambuf) sent closeError moved, s.moveAssign other sent closeError = some moved →
      (Lossless other moved ↔ other.pptr = other.pbase) := by
  have hiff := observablyEqual_iff (Streambufs.reachable_bounded h other hmem)
  constructor
  · exact ⟨fun hl => hiff.mp hl.same, fun heq => ⟨hiff.mpr heq, rfl, rfl⟩⟩
  · intro s sent closeError moved hmove
    obtain ⟨hget, hput⟩ := moveAssign_snd hmove
    rw [← moveAssign_fst hmove] at hiff
    exact ⟨fun hl => hiff.mp hl.same, fun heq => ⟨hiff.mpr heq, hget, hput⟩⟩

/-- One of two characters has been read, and the other is there after the move. -/
theorem lossless_unread : ∃ other,
    exec Streambufs.step [] [.constructFrom 3, .use 0 (.sbumpc [.bytes [97, 98]])] =
      some [other] ∧ other.gptr < other.egptr ∧ Lossless other other.moveConstruct := by
  have hrun : (exec Streambufs.step []
      [.constructFrom 3, .use 0 (.sbumpc [.bytes [97, 98]])]).map
        (fun streambufs => streambufs.map fun s => (s.gptr, s.egptr, s.pptr, s.pbase)) =
      some [(9, 10, 0, 0)] := by
    decide +kernel
  obtain ⟨streambufs, hexec, hmap⟩ := Option.map_eq_some_iff.mp hrun
  obtain ⟨other, rfl, heq⟩ := List.map_eq_singleton_iff.mp hmap
  simp only [Prod.mk.injEq] at heq
  obtain ⟨hgptr, hegptr, hpptr, hpbase⟩ := heq
  have hreach : Reachable Streambufs.step (fun _ _ => True) [] [other] :=
    Streambufs.exec_reachable hexec
  refine ⟨other, hexec, by omega, ?_⟩
  exact (lossless_iff hreach (List.mem_singleton_self other)).1.mpr (hpptr.trans hpbase.symm)

/-- A character has been put and not sent. -/
def unsent : List Streambufs.Action := [.constructFrom 3, .use 0 (.sputc 97 [])]

theorem unsent_sync :
    (exec Streambufs.step [] unsent).map (fun streambufs => streambufs.map fun s =>
      ((s.step (.sync [.bytes 1])).map fun r => r.2.accepted,
        (s.moveConstruct.1.step (.sync [.bytes 1])).map fun r => r.2.accepted)) =
      some [(some [97], some [])] := by
  decide +kernel

theorem not_lossless : ¬ ∀ streambufs,
    Reachable Streambufs.step (fun _ _ => True) [] streambufs →
      ∀ other ∈ streambufs, Lossless other other.moveConstruct := by
  intro hclaim
  obtain ⟨streambufs, hexec, hmap⟩ := Option.map_eq_some_iff.mp unsent_sync
  obtain ⟨other, rfl, heq⟩ := List.map_eq_singleton_iff.mp hmap
  simp only [Prod.mk.injEq] at heq
  have hl := hclaim _ (Streambufs.exec_reachable hexec) other (List.mem_singleton_self other)
  have hanswer := congrArg (Option.map Answer.accepted) (hl.same.answer (.sync [.bytes 1]))
  rw [Option.map_map, Option.map_map] at hanswer
  cases heq.1.symm.trans (hanswer.symm.trans heq.2)

end Streambuf

end Asio.BasicSocketStreambuf
