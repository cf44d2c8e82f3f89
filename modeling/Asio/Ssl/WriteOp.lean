import Asio.Detail.BufferSequenceAdapter
import Asio.Ssl.Io

/-! Writing a sequence of buffers to an SSL stream: what the library is given, and what it takes. -/

universe u

namespace Asio.Ssl.WriteOp

open Detail.BufferSequenceAdapter Io

def intMax : Nat := 2 ^ 31 - 1

/-- The buffer that the engine is called with. -/
def data (s : Sequence UInt8) (storage : Vector UInt8 s.linearisationStorageSize) : List UInt8 :=
  (s.linearise storage.toList).bytes

/-- The bytes of it that the library is called with. -/
def doWrite (data : List UInt8) : List UInt8 :=
  data.take (if data.length < intMax then data.length else intMax)

def writeOp (s : Sequence UInt8) (storage : Vector UInt8 s.linearisationStorageSize) : Op :=
  .write (data s storage).length

/-- What the library promises of a call: there is no error just when bytes have been taken, which
are some of those that it has been given. -/
structure Documented (given : List UInt8) (r : SslResult) : Prop where
  none_iff : r.sslError = .none ↔ 0 < r.result
  le : r.result ≤ given.length

/-- The bytes that the library takes in a round. -/
def takenIn (given : List UInt8) (round : Round) : List UInt8 :=
  round.turns.head?.elim [] fun turn => given.take turn.ssl.result.toNat

/-! ### Loops -/

/-- A loop over the rounds. -/
def loop {σ : Type} (next : Round → Core → Nat → σ → Option (Iteration σ)) :
    List Round → Core → Nat → σ → Option (Core × Report)
  | [], _, _, _ => none
  | round :: rounds, core, n, x =>
    (next round core n x).bind fun
      | .retry core n x => loop next rounds core n x
      | .done core report => some (core, report)

/-- The bytes that the library takes in a loop. -/
def taken {σ : Type} (next : Round → Core → Nat → σ → Option (Iteration σ)) (given : List UInt8) :
    List Round → Core → Nat → σ → List UInt8
  | [], _, _, _ => []
  | round :: rounds, core, n, x =>
    takenIn given round ++
      match next round core n x with
      | some (.retry core n x) => taken next given rounds core n x
      | _ => []

theorem io_eq_loop (op : Op) (rounds : List Round) (core : Core) (n : Nat) :
    io op rounds core n = loop (fun round core n () => iterate op round core n) rounds core n () := by
  induction rounds generalizing core n with
  | nil => rfl
  | cons round rounds ih =>
    rw [io, loop]
    apply congrArg
    funext iteration
    cases iteration with
    | retry core' n' _ => exact ih core' n'
    | done core' report => rfl

theorem ioOp_eq_loop (op : Op) (rounds : List Round) (core : Core) (n : Nat)
    (invocation : Invocation) :
    ioOp op rounds core n invocation = loop (asyncIterate op) rounds core n invocation := by
  induction rounds generalizing core n invocation with
  | nil => rfl
  | cons round rounds ih =>
    rw [ioOp, loop]
    apply congrArg
    funext iteration
    cases iteration with
    | retry core' n' invocation' => exact ih core' n' invocation'
    | done core' report => rfl

/-! ### One call -/

section Call

variable {e : Engine} {r : SslResult} {n size : Nat} {given : List UInt8}

theorem performed_of_pos (h : Documented given r) (hpos : 0 < r.result) :
    (e.performed r true n).ec = none ∧ (e.performed r true n).bytesTransferred = r.result.toNat ∧
      ((e.performed r true n).want = .output ∨ (e.performed r true n).want = .nothing) := by
  have hnone := h.none_iff.mpr hpos
  unfold Engine.performed
  simp only [hnone]
  by_cases hmore : (e.output r).length > 0
  · simp [hmore, hpos]
  · simp [hmore, hpos]

theorem performed_of_not_pos (h : Documented given r) (hpos : ¬ 0 < r.result) :
    (e.performed r true n).bytesTransferred = n ∧
      ((e.performed r true n).want = .output ∨ (e.performed r true n).want = .nothing →
        (e.performed r true n).ec ≠ none) := by
  unfold Engine.performed
  by_cases hmore : (e.output r).length > 0
  · cases herror : r.sslError with
    | none => exact absurd (h.none_iff.mp herror) hpos
    | syscall =>
      refine ⟨rfl, fun _ => ?_⟩
      dsimp only
      split <;> simp
    | ssl | wantRead | wantWrite | zeroReturn | other => simp [hpos, hmore]
  · cases herror : r.sslError with
    | none => exact absurd (h.none_iff.mp herror) hpos
    | syscall =>
      refine ⟨rfl, fun _ => ?_⟩
      dsimp only
      split <;> simp
    | ssl | wantRead | wantWrite | zeroReturn | other => simp [hpos, hmore]

end Call

/-! ### One iteration -/

/-- As long as the loop goes on nothing has been taken, and in the end just what is reported. -/
inductive Honest {σ : Type} (given : List UInt8) (round : Round) (n : Nat) : Iteration σ → Prop
  | retry {core x} : takenIn given round = [] → Honest given round n (.retry core n x)
  | failed {core report} : report.ec ≠ none → Honest given round n (.done core report)
  | done {core report} : 0 < report.bytesTransferred → report.bytesTransferred ≤ given.length →
      takenIn given round = given.take report.bytesTransferred →
      Honest given round n (.done core report)

section Iteration

variable {σ : Type} {given : List UInt8} {round : Round} {core core' : Core} {n size : Nat}
variable {turn : Stream.Turn}

theorem takenIn_of_head (hturn : round.turns.head? = some turn) :
    takenIn given round = given.take turn.ssl.result.toNat := by
  rw [takenIn, hturn, Option.elim_some]

/-- The library has been called and the loop may go on. -/
theorem honest_retry (h : Documented given turn.ssl) (hturn : round.turns.head? = some turn)
    {performed : Engine.Performed}
    (hperformed : core.engine.performed turn.ssl true n = performed)
    (hwant : ¬ (performed.want = .output ∨ performed.want = .nothing)) :
    takenIn given round = [] ∧ performed.bytesTransferred = n := by
  subst hperformed
  have hpos : ¬ 0 < turn.ssl.result := fun hpos => hwant (performed_of_pos h hpos).2.2
  refine ⟨?_, (performed_of_not_pos h hpos).1⟩
  rw [takenIn_of_head hturn, Int.toNat_of_nonpos (by omega), List.take_zero]

/-- The library has been called and the loop is done, with no error if the report has none. -/
theorem honest_done (h : Documented given turn.ssl) (hturn : round.turns.head? = some turn)
    {performed : Engine.Performed}
    (hperformed : core.engine.performed turn.ssl true n = performed)
    (hwant : performed.want = .output ∨ performed.want = .nothing) {report : Report}
    (hec : report.ec = none → performed.ec = none)
    (hbytes : report.ec = none → report.bytesTransferred = performed.bytesTransferred) :
    Honest given round n (.done core' report : Iteration σ) := by
  subst hperformed
  by_cases hnone : report.ec = none
  · have hpos : 0 < turn.ssl.result := by
      apply Decidable.by_contra
      intro hpos
      exact (performed_of_not_pos h hpos).2 hwant (hec hnone)
    have hcount := (hbytes hnone).trans (performed_of_pos h hpos).2.1
    have hle := h.le
    refine .done (by omega) (by omega) ?_
    rw [takenIn_of_head hturn, hcount]
  · exact .failed hnone

/-- The call of the engine, when there is something to write. -/
theorem call_write {turns : List Stream.Turn} {engine : Engine}
    {performed : Engine.Performed × Engine}
    (hsize : size ≠ 0) (h : (Op.write size).call turns engine n = some performed) :
    ∃ turn, turns.head? = some turn ∧
      performed = (engine.performed turn.ssl true n, engine.perform turn.ssl) := by
  simp only [Op.call, if_neg hsize, perform, Option.map_eq_some_iff] at h
  obtain ⟨turn, hturn, heq⟩ := h
  exact ⟨turn, hturn, heq.symm⟩

theorem orElse_eq_none {a b : Option ErrorCode} (h : (a <|> b) = none) : a = none := by
  cases a with
  | none => rfl
  | some e => cases h

theorem iterate_honest (hsize : size ≠ 0)
    (hdoc : ∀ turn ∈ round.turns.head?, Documented given turn.ssl) {iteration : Iteration Unit}
    (h : iterate (.write size) round core n = some iteration) :
    Honest given round n iteration := by
  unfold iterate at h
  rw [Option.map_eq_some_iff] at h
  obtain ⟨called, hcall, heq⟩ := h
  obtain ⟨turn, hturn, rfl⟩ := call_write hsize hcall
  have hturnDoc := hdoc turn hturn
  dsimp only at heq
  have hwhile {core' : Core} {ec : Option ErrorCode}
      (hwant : ¬ ((core.engine.performed turn.ssl true n).want = .output ∨
        (core.engine.performed turn.ssl true n).want = .nothing)) :
      Honest given round n (loopWhile round core' ec
        (core.engine.performed turn.ssl true n).bytesTransferred) := by
    obtain ⟨htaken, hbytes⟩ := honest_retry hturnDoc hturn rfl hwant
    rw [hbytes, loopWhile]
    split
    · exact .retry htaken
    · rename_i hec
      refine .failed fun hnone => hec ?_
      rw [(round.mapErrorCode_eq_none ec).mp hnone]
      rfl
  cases hwant : (core.engine.performed turn.ssl true n).want with
  | inputAndRetry =>
    simp only [hwant] at heq
    split at heq
    · exact heq ▸ hwhile (by simp [hwant])
    · exact heq ▸ hwhile (by simp [hwant])
  | outputAndRetry =>
    simp only [hwant] at heq
    exact heq ▸ hwhile (by simp [hwant])
  | output =>
    simp only [hwant] at heq
    refine heq ▸ honest_done hturnDoc hturn rfl (.inl hwant) (fun hnone => ?_) fun _ => rfl
    exact orElse_eq_none ((round.mapErrorCode_eq_none _).mp hnone)
  | nothing =>
    simp only [hwant] at heq
    refine heq ▸ honest_done hturnDoc hturn rfl (.inr hwant) (fun hnone => ?_) fun _ => rfl
    exact (round.mapErrorCode_eq_none _).mp hnone

theorem asyncIterate_honest (hsize : size ≠ 0)
    (hdoc : ∀ turn ∈ round.turns.head?, Documented given turn.ssl) {invocation : Invocation}
    {iteration : Iteration Invocation}
    (h : asyncIterate (.write size) round core n invocation = some iteration) :
    Honest given round n iteration := by
  unfold asyncIterate at h
  rw [Option.map_eq_some_iff] at h
  obtain ⟨called, hcall, heq⟩ := h
  obtain ⟨turn, hturn, rfl⟩ := call_write hsize hcall
  have hturnDoc := hdoc turn hturn
  dsimp only at heq
  have hwhile {core' : Core} {ec : Option ErrorCode} {invocation' : Invocation}
      (hwant : ¬ ((core.engine.performed turn.ssl true n).want = .output ∨
        (core.engine.performed turn.ssl true n).want = .nothing)) :
      Honest given round n (asyncWhile (.write size) round core' ec
        (core.engine.performed turn.ssl true n).bytesTransferred invocation') := by
    obtain ⟨htaken, hbytes⟩ := honest_retry hturnDoc hturn rfl hwant
    rw [hbytes, asyncWhile]
    split
    · exact .retry htaken
    · rename_i hec
      refine .failed fun hnone => hec ?_
      rw [(round.mapErrorCode_eq_none ec).mp hnone]
      rfl
  have hpass {core' : Core} {ec : Option ErrorCode}
      (hwant : (core.engine.performed turn.ssl true n).want = .output ∨
        (core.engine.performed turn.ssl true n).want = .nothing) :
      Honest given round n (pass (.write size) round core'
        ((core.engine.performed turn.ssl true n).ec <|> ec)
        (core.engine.performed turn.ssl true n).bytesTransferred) := by
    have hnone {error : Option ErrorCode} (h : round.mapErrorCode error = none) : error = none :=
      (round.mapErrorCode_eq_none error).mp h
    refine honest_done hturnDoc hturn rfl hwant (fun h => orElse_eq_none (hnone h)) fun h => ?_
    rw [callHandler_of_ne _ Op.noConfusion, hnone h]
    rfl
  cases hwant : (core.engine.performed turn.ssl true n).want with
  | inputAndRetry =>
    simp only [hwant] at heq
    split at heq
    · exact heq ▸ hwhile (by simp [hwant])
    · exact heq ▸ hwhile (by simp [hwant])
  | outputAndRetry =>
    simp only [hwant] at heq
    exact heq ▸ hwhile (by simp [hwant])
  | output =>
    simp only [hwant] at heq
    exact heq ▸ hpass (.inl hwant)
  | nothing =>
    simp only [hwant] at heq
    exact heq ▸ hpass (.inr hwant)

end Iteration

/-! ### Runs -/

section Runs

variable {σ : Type} {next : Round → Core → Nat → σ → Option (Iteration σ)} {given : List UInt8}

theorem loop_honest {rounds : List Round} {core core' : Core} {n : Nat} {x : σ} {report : Report}
    (hnext : ∀ round ∈ rounds, ∀ core n x iteration, next round core n x = some iteration →
      Honest given round n iteration)
    (h : loop next rounds core n x = some (core', report)) (hec : report.ec = none) :
    0 < report.bytesTransferred ∧ report.bytesTransferred ≤ given.length ∧
      taken next given rounds core n x = given.take report.bytesTransferred := by
  induction rounds generalizing core n x with
  | nil => cases h
  | cons round rounds ih =>
    obtain ⟨hround, hrest⟩ := List.forall_mem_cons.mp hnext
    obtain ⟨iteration, hiteration, h⟩ := Option.bind_eq_some_iff.mp h
    have hhonest := hround core n x iteration hiteration
    simp only [taken, hiteration]
    cases hhonest with
    | retry hnothing =>
      rw [hnothing, List.nil_append]
      exact ih hrest h
    | failed hfailed =>
      cases h
      exact absurd hec hfailed
    | done hpos hle htaken =>
      cases h
      exact ⟨hpos, hle, by rw [htaken, List.append_nil]⟩

/-- The bytes that the library is given begin the sequence, and there are some unless it is
empty. -/
theorem doWrite_spec (s : Sequence UInt8) (storage : Vector UInt8 s.linearisationStorageSize) :
    doWrite (data s storage) <+: s.bytes ∧ (s.bytes ≠ [] → (data s storage).length ≠ 0) := by
  have hspec := linearise_spec s storage.toList
  refine ⟨(List.take_prefix _ _).trans hspec.isPrefix, fun hne => ?_⟩
  have hsize : storage.toList.length ≠ 0 := by
    rw [Vector.length_toList]
    cases s <;> simp [Sequence.linearisationStorageSize]
  exact List.length_eq_zero_iff.not.mpr (hspec.ne_nil hsize hne)

theorem take_given {given bytes : List UInt8} {n : Nat} (h : given <+: bytes)
    (hn : n ≤ given.length) : given.take n = bytes.take n := by
  obtain ⟨rest, rfl⟩ := h
  exact (List.take_append_of_le_length hn).symm

/-- What is linearised is the first bytes of the sequence; and a write of some data that reports no
error reports how many of its first bytes the library has taken, of which there are some. -/
theorem linearise_and_write (s : Sequence UInt8) :
    (∀ storage : List UInt8, storage ≠ [] → (s.linearise storage).bytes <+: s.bytes ∧
      (s.bytes ≠ [] → (s.linearise storage).bytes ≠ []) ∧
      ∀ bytes, s.linearise storage = .storage bytes →
        bytes.length = min storage.length s.bytes.length) ∧
    ∀ (storage : Vector UInt8 s.linearisationStorageSize) (rounds : List Round) (core : Core),
      s.bytes ≠ [] →
      (∀ round ∈ rounds, ∀ turn ∈ round.turns.head?,
        Documented (doWrite (data s storage)) turn.ssl) →
      (∀ core' report, io (writeOp s storage) rounds core 0 = some (core', report) →
        report.ec = none → 0 < report.bytesTransferred ∧
          taken (fun round core n () => iterate (writeOp s storage) round core n)
            (doWrite (data s storage)) rounds core 0 () = s.bytes.take report.bytesTransferred) ∧
      ∀ core' report, ioOp (writeOp s storage) rounds core 0 ⟨true, none⟩ = some (core', report) →
        report.ec = none → 0 < report.bytesTransferred ∧
          taken (asyncIterate (writeOp s storage)) (doWrite (data s storage)) rounds core 0
            ⟨true, none⟩ = s.bytes.take report.bytesTransferred := by
  refine ⟨fun storage hstorage => ?_, fun storage rounds core hne hdoc => ?_⟩
  · have hspec := linearise_spec s storage
    refine ⟨hspec.isPrefix, hspec.ne_nil (List.length_eq_zero_iff.not.mpr hstorage), ?_⟩
    intro bytes hbytes
    exact (hbytes ▸ hspec).length
  · obtain ⟨hgiven, hsize⟩ := doWrite_spec s storage
    refine ⟨fun core' report h hec => ?_, fun core' report h hec => ?_⟩
    · rw [io_eq_loop] at h
      obtain ⟨hpos, hle, htaken⟩ := loop_honest (fun round hround _ _ _ _ hiteration =>
        iterate_honest (hsize hne) (hdoc round hround) hiteration) h hec
      exact ⟨hpos, htaken.trans (take_given hgiven hle)⟩
    · rw [ioOp_eq_loop] at h
      obtain ⟨hpos, hle, htaken⟩ := loop_honest (fun round hround _ _ _ _ hiteration =>
        asyncIterate_honest (hsize hne) (hdoc round hround) hiteration) h hec
      exact ⟨hpos, htaken.trans (take_given hgiven hle)⟩

/-- The library takes one of two bytes. -/
def partialRound : Round where
  turns := [⟨⟨1, .none, 0, []⟩, 0⟩]
  room := 0
  received := []
  readError := none
  sent := 0
  writeError := none
  emptyError := none
  inputPending := false
  receivedShutdown := false

theorem linearise_and_write_part :
    ∃ core' report, io (writeOp (.array [] [7, 8]) (Vector.replicate _ 0)) [partialRound]
        ⟨.initial, [], []⟩ 0 = some (core', report) ∧ report.ec = none ∧
      0 < report.bytesTransferred ∧
      taken (fun round core n () => iterate (writeOp (.array [] [7, 8]) (Vector.replicate _ 0)) round
        core n) (doWrite (data (.array [] [7, 8]) (Vector.replicate _ 0))) [partialRound]
        ⟨.initial, [], []⟩ 0 () = [7, 8].take report.bytesTransferred := by
  have hdoc : ∀ round ∈ [partialRound], ∀ turn ∈ round.turns.head?,
      Documented (doWrite (data (.array [] [7, 8]) (Vector.replicate _ 0))) turn.ssl := by
    intro round hround turn hturn
    obtain rfl := List.mem_singleton.mp hround
    cases hturn
    exact ⟨by decide, by decide⟩
  exact ⟨_, _, rfl, rfl, ((linearise_and_write (.array [] [7, 8])).2 (Vector.replicate _ 0)
    [partialRound] ⟨.initial, [], []⟩ (by decide) hdoc).1 _ _ rfl rfl⟩

end Runs

end Asio.Ssl.WriteOp
