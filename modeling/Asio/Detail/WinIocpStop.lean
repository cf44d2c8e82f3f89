import Asio.Detail.WinIocpIoContext

/-! The stop protocol: one stop packet is handed from thread to thread. -/

universe u

namespace Asio.Detail.WinIocpIoContext

open Asio.Lib Transition Interleaving

set_option linter.unusedSectionVars false

/-! ### Stop packets -/

/-- The calls that have a stop packet in hand: one that they will post, or one that they have
dequeued and not yet acknowledged. -/
def Call.holdsStop : Call → Nat
  | .stopPost | .repostStop _ | .clearStop _ => 1
  | _ => 0

/-- The calls that will still look at `stop_event_posted_` or at `stopped_` before they leave the
protocol. -/
def Call.watchesStop : Call → Nat
  | .stopEvent | .checkStopped _ | .exchangeStop _ => 1
  | _ => 0

/-- In the middle of `stop()`, or between dequeuing a stop packet and posting it again. -/
def Call.midStop (c : Call) : Prop := 0 < c.holdsStop ∨ 0 < c.watchesStop

def World.stopPackets (w : World) : Nat := w.port.countP Packet.isStop

section Packets

variable {outcome : Nat → Outcome} {w w' : World} {p : Packet}

@[simp] theorem stopPackets_push (w : World) (p : Packet) :
    (w.push p).stopPackets = w.stopPackets + if p.isStop then 1 else 0 := by
  simp [World.stopPackets, World.push, List.countP_append, List.countP_singleton]

theorem isStop_posted_none : (Packet.posted .zero none).isStop = true := rfl

/-- A thread that dequeues a stop packet acknowledges it next. -/
theorem holdsStop_received (mode : Mode) (p : Packet) :
    (received mode p).holdsStop = (if p.isStop then 1 else 0) ∧
      (received mode p).watchesStop = 0 := by
  unfold received Packet.isStop
  cases p.overlapped with
  | some op => exact ⟨rfl, rfl⟩
  | none =>
    by_cases hkey : p.completionKey = .wakeForDispatch
    · simp [hkey, Call.holdsStop, Call.watchesStop]
    · simp [hkey, Call.holdsStop, Call.watchesStop]

theorem received_of_isStop (mode : Mode) (h : p.isStop = true) :
    received mode p = .clearStop mode := by
  simp only [Packet.isStop, Bool.and_eq_true, Option.isNone_iff_eq_none, decide_eq_true_eq] at h
  rw [received, h.1]
  exact if_neg h.2

/-- What a step does to the stop packets: the flag goes with the packet, and whoever sees
`stopped_` without the flag still watches. -/
structure StopStep (w : World) (calls : List Call) (w' : World) (calls' : List Call) : Prop where
  packets : w'.stopPackets + load Call.holdsStop calls' + w.stopEventPosted.toNat =
    w.stopPackets + load Call.holdsStop calls + w'.stopEventPosted.toNat
  watched : w'.stopped = true → w'.stopEventPosted = false →
    0 < load Call.watchesStop calls' ∨ (w.stopped = true ∧ w.stopEventPosted = false ∧
      load Call.watchesStop calls ≤ load Call.watchesStop calls')

/-- Most steps leave the protocol alone. -/
theorem StopStep.quiet {calls calls' : List Call} (packets : w'.stopPackets = w.stopPackets)
    (posted : w'.stopEventPosted = w.stopEventPosted)
    (stopped : w'.stopped = true → w.stopped = true)
    (held : load Call.holdsStop calls' = load Call.holdsStop calls)
    (watching : load Call.watchesStop calls ≤ load Call.watchesStop calls') :
    StopStep w calls w' calls' where
  packets := by rw [packets, posted, held]
  watched hs hp := .inr ⟨stopped hs, posted ▸ hp, watching⟩

theorem advance_stopStep {c : Call} {new : List Call}
    (hposted : c.holdsStop ≤ w.stopEventPosted.toNat)
    (h : advance outcome w c = some (w', new)) : StopStep w [c] w' new := by
  cases c with
  | stop =>
    cases h
    refine ⟨?_, fun _ hp => ?_⟩
    · cases w.stopped <;> rfl
    · cases hs : w.stopped with
      | false => exact .inl (by decide)
      | true => exact .inr ⟨rfl, hp, Nat.le_refl 0⟩
  | stopEvent =>
    cases h
    refine ⟨?_, fun _ hp => by cases hp⟩
    cases hp : w.stopEventPosted with
    | false => rfl
    | true => rfl
  | exchangeStop mode =>
    cases h
    refine ⟨?_, fun _ hp => by cases hp⟩
    cases hp : w.stopEventPosted with
    | false => rfl
    | true => rfl
  | stopPost | repostStop mode =>
    cases h
    refine ⟨?_, fun hs hp => .inr ⟨hs, hp, Nat.le_refl 0⟩⟩
    rw [stopPackets_push, if_pos isStop_posted_none]
    rfl
  | clearStop mode =>
    cases h
    have hp : w.stopEventPosted = true := by
      cases hp : w.stopEventPosted with
      | true => rfl
      | false =>
        rw [hp] at hposted
        cases hposted
    refine ⟨?_, fun _ _ => .inl Nat.one_pos⟩
    rw [hp]
    rfl
  | checkStopped mode =>
    cases h
    refine ⟨?_, fun hs _ => .inl ?_⟩
    · cases w.stopped <;> rfl
    · rw [show w.stopped = true from hs]
      exact Nat.one_pos
  | getQueued mode =>
    simp only [advance] at h
    split at h
    · cases h
    · rename_i p port hport
      cases h
      obtain ⟨hheld, hwatching⟩ := holdsStop_received mode p
      refine ⟨?_, fun hs hp => .inr ⟨hs, hp, ?_⟩⟩
      · simp only [World.stopPackets, hport, List.countP_cons, load_cons, load_nil, hheld]
        simp only [Call.holdsStop]
        omega
      · simp only [load_cons, load_nil, hwatching]
        exact Nat.le_refl 0
  | postDeferredAll mode ops =>
    cases ops with
    | nil =>
      cases h
      exact .quiet rfl rfl id rfl (Nat.le_refl 0)
    | cons op ops =>
      cases h
      exact .quiet (stopPackets_push _ _) rfl id rfl (Nat.le_refl 0)
  | postResult op | postDeferred op =>
    cases h
    exact .quiet (stopPackets_push _ _) rfl id rfl (Nat.le_refl 0)
  | workFinished | run mode | doOne mode | blockExit mode op | completed mode | onPending op =>
    cases h
    split
    · exact .quiet rfl rfl id rfl (Nat.le_refl 0)
    · exact .quiet rfl rfl id rfl (Nat.le_refl 0)
  | dequeued mode op key result | exchangeReady mode op result | initiate op =>
    simp only [advance] at h
    split at h
    · cases h
      exact .quiet rfl rfl id rfl (Nat.le_refl 0)
    · cases h
      exact .quiet rfl rfl id rfl (Nat.le_refl 0)
  | collect mode | complete mode op | onCompletion op result | storeResult op result
  | pushCompleted op | requireDispatch =>
    cases h
    exact .quiet rfl rfl id rfl (Nat.le_refl 0)

theorem StopStep.append {calls calls' rest : List Call} (h : StopStep w calls w' calls') :
    StopStep w (calls ++ rest) w' (calls' ++ rest) where
  packets := by
    have := h.packets
    simp only [load_append]
    omega
  watched hs hp := by
    rw [load_append, load_append]
    rcases h.watched hs hp with hpos | ⟨hs', hp', hle⟩
    · exact .inl (Nat.add_pos_left hpos _)
    · exact .inr ⟨hs', hp', Nat.add_le_add_right hle _⟩

/-- A call that begins has nothing to do with the stop packet yet. -/
theorem StopStep.begin {calls : List Call} {c : Call} (packets : w'.stopPackets = w.stopPackets)
    (posted : w'.stopEventPosted = w.stopEventPosted) (stopped : w'.stopped = w.stopped)
    (held : c.holdsStop = 0) : StopStep w calls w' (c :: calls) :=
  .quiet packets posted (fun h => stopped ▸ h) (by rw [load_cons, held, Nat.zero_add])
    (by rw [load_cons]; exact Nat.le_add_left ..)

theorem StopStep.finish {calls : List Call} {c : Call} (held : c.holdsStop = 0)
    (watching : c.watchesStop = 0) : StopStep w (c :: calls) w calls :=
  .quiet rfl rfl id (by rw [load_cons, held, Nat.zero_add])
    (by rw [load_cons, watching, Nat.zero_add])

theorem perform_stopStep {ι : Type u} {i : ι} {calls calls' : List Call} {a : Action}
    (hposts : a ≠ .postFails) (hposted : load Call.holdsStop calls ≤ w.stopEventPosted.toNat)
    (h : perform outcome i w calls a = some (w', calls')) : StopStep w calls w' calls' := by
  cases perform_performs h with
  | stop | run mode | initiate op | post op | workFinished => exact .begin rfl rfl rfl rfl
  | restart => exact .quiet rfl rfl (fun hs => by cases hs) rfl (Nat.le_refl _)
  | workStarted | timerReady op | timerExpired | throws mode op rest =>
    exact .quiet rfl rfl id rfl (Nat.le_refl _)
  | step rest hadv =>
    rw [load_cons] at hposted
    exact (advance_stopStep (by omega) hadv).append
  | postFails => exact absurd rfl hposts
  | timeout mode rest =>
    split
    · exact .quiet rfl rfl id rfl (Nat.le_refl _)
    · exact .finish rfl rfl
  | getQueuedFails => exact .finish rfl rfl
  | deliver op | wake => exact .quiet (stopPackets_push _ _) rfl id rfl (Nat.le_refl _)

end Packets

/-! ### The threads together -/

section Threads

variable {ι : Type u} [Fintype ι] [DecidableEq ι] {outcome : Nat → Outcome} {s s' : State ι}

structure StopInvariant (s : State ι) : Prop where
  packets : s.shared.stopPackets + s.weight Call.holdsStop = s.shared.stopEventPosted.toNat
  watched : s.shared.stopped = true → s.shared.stopEventPosted = false →
    0 < s.weight Call.watchesStop

theorem initial_stopInvariant : StopInvariant (initial : State ι) where
  packets := by
    have : (initial : State ι).weight Call.holdsStop = 0 :=
      (total_eq_zero _ _).mpr fun _ => rfl
    rw [this]
    rfl
  watched h := by cases h

theorem step_stopInvariant {a : ι × Action} (hinv : StopInvariant s) (hposts : a.2 ≠ .postFails)
    (hstep : step outcome s a = some s') : StopInvariant s' := by
  obtain ⟨w, calls, hperform, rfl⟩ := step_eq_some.mp hstep
  have hle := load_le_weight (s := s) Call.holdsStop a.1
  have hpackets := hinv.packets
  have hstop := perform_stopStep hposts (by omega) hperform
  have hheld := weight_set (s := s) Call.holdsStop a.1 w calls
  have hwatching := weight_set (s := s) Call.watchesStop a.1 w calls
  refine ⟨?_, fun hs hp => ?_⟩
  · have := hstop.packets
    simp only [shared_set]
    omega
  · rcases hstop.watched hs hp with hpos | ⟨hs', hp', hload⟩
    · have := load_le_weight (s := s) Call.watchesStop a.1
      omega
    · have := hinv.watched hs' hp'
      omega

theorem reachable_stopInvariant
    (h : Reachable (step outcome) (fun _ a => a.2 ≠ .postFails) initial s) : StopInvariant s :=
  h.invariant initial_stopInvariant fun hinv hposts hstep => step_stopInvariant hinv hposts hstep

theorem weight_eq_zero_of_quiet (φ : Call → Nat) (h : ∀ i, ∀ c ∈ s.part i, ¬0 < φ c) :
    s.weight φ = 0 := by
  by_contra hn
  obtain ⟨i, c, hc, hpos⟩ := weight_pos (Nat.pos_of_ne_zero hn)
  exact h i c hc hpos

/-- With nobody in the middle of the protocol, the stop packet of a stopped io_context waits in the
port. -/
theorem StopInvariant.packet_in_port (hinv : StopInvariant s) (hs : s.shared.stopped = true)
    (hquiet : ∀ i, ∀ c ∈ s.part i, ¬c.midStop) : s.shared.stopPackets = 1 := by
  have hheld := weight_eq_zero_of_quiet Call.holdsStop fun i c hc hpos => hquiet i c hc (.inl hpos)
  have hwatching :=
    weight_eq_zero_of_quiet Call.watchesStop fun i c hc hpos => hquiet i c hc (.inr hpos)
  have hpackets := hinv.packets
  have hwatched := hinv.watched hs
  cases hp : s.shared.stopEventPosted with
  | false =>
    have := hwatched hp
    omega
  | true =>
    rw [hp, hheld] at hpackets
    exact hpackets

end Threads

/-! ### A thread that finds the stop packet returns -/

/-- The calls that a thread makes inside `run` and its relatives. -/
def Call.inRun : Call → Bool
  | .run _ | .doOne _ | .collect _ | .postDeferredAll .. | .getQueued _ | .dequeued .. |
    .exchangeReady .. | .complete .. | .blockExit .. | .completed _ => true
  | _ => false

/-- The calls of one thread, left alone, come to `calls'`. -/
inductive Leads (outcome : Nat → Outcome) : World → List Call → World → List Call → Prop
  | refl : Leads outcome w calls w calls
  | step : advance outcome w c = some (w₁, new) → Leads outcome w₁ (new ++ rest) w' calls' →
      Leads outcome w (c :: rest) w' calls'

section Alone

variable {outcome : Nat → Outcome} {w w₁ w' : World} {calls calls₁ calls' rest : List Call}

theorem Leads.exec {ι : Type u} [DecidableEq ι] {s : State ι} {i : ι}
    (h : Leads outcome w calls w' calls')
    (hw : s.shared = w) (hcalls : s.part i = calls) :
    ∃ n, exec (WinIocpIoContext.step outcome) s (List.replicate n (i, .step)) =
      some (s.set i (w', calls')) := by
  induction h generalizing s with
  | refl =>
    refine ⟨0, ?_⟩
    rw [← hcalls, set_part, ← hw]
    rfl
  | @step w c w₁ new rest w' calls' hadv _ ih =>
    obtain ⟨n, hn⟩ := ih (s := s.set i (w₁, new ++ rest)) rfl (part_set_self ..)
    refine ⟨n + 1, ?_⟩
    have hstep : WinIocpIoContext.step outcome s (i, .step) = some (s.set i (w₁, new ++ rest)) := by
      refine step_eq_some.mpr ⟨w₁, new ++ rest, ?_, rfl⟩
      simp only [perform, hcalls, hw, hadv]
      rfl
    rw [List.replicate_succ, Transition.exec, hstep, Option.bind_some, hn, set_set]

/-- Left alone, the calls end while the io_context stays stopped. -/
def Returns (outcome : Nat → Outcome) (w : World) (calls rest : List Call) : Prop :=
  ∃ w', Leads outcome w calls w' rest ∧ w'.stopped = true

theorem Returns.step {c : Call} {new : List Call} (hadv : advance outcome w c = some (w₁, new))
    (h : Returns outcome w₁ (new ++ calls) rest) : Returns outcome w (c :: calls) rest := by
  obtain ⟨w', hleads, hs⟩ := h
  exact ⟨w', .step hadv hleads, hs⟩

theorem returns_now (hs : w.stopped = true) : Returns outcome w rest rest := ⟨w, .refl, hs⟩

/-- The io_context is stopped, and `n` packets come before the stop packet. -/
def StopAhead (n : Nat) (w : World) : Prop :=
  w.stopped = true ∧ ∃ pre p post, w.port = pre ++ p :: post ∧ p.isStop = true ∧ pre.length = n

theorem stopAhead_of_stopPackets (hs : w.stopped = true) (h : 0 < w.stopPackets) :
    ∃ n, StopAhead n w := by
  obtain ⟨p, hp, hstop⟩ := List.countP_pos_iff.mp h
  obtain ⟨pre, post, hport⟩ := List.append_of_mem hp
  exact ⟨pre.length, hs, pre, p, post, hport, hstop, rfl⟩

theorem StopAhead.push {n : Nat} (h : StopAhead n w) (p : Packet) : StopAhead n (w.push p) := by
  obtain ⟨hs, pre, q, post, hport, hstop, hlength⟩ := h
  exact ⟨hs, pre, q, post ++ [p], by simp [World.push, hport], hstop, hlength⟩

theorem StopAhead.congr {n : Nat} (h : StopAhead n w) (stopped : w'.stopped = w.stopped)
    (port : w'.port = w.port) : StopAhead n w' := by
  obtain ⟨hs, hport⟩ := h
  exact ⟨stopped ▸ hs, port ▸ hport⟩

/-- A thread that dequeues the stop packet posts it again and returns. -/
theorem returns_clearStop (hs : w.stopped = true) (mode : Mode) (rest : List Call) :
    Returns outcome w (.clearStop mode :: rest) rest := by
  refine .step rfl (.step rfl ?_)
  rw [if_pos hs]
  exact .step rfl (.step rfl (returns_now hs))

section Waiting

variable {n : Nat}
variable (ih : ∀ {w : World}, StopAhead n w → ∀ mode rest,
  Returns outcome w (.getQueued mode :: rest) rest)

include ih

theorem returns_postDeferredAll (mode : Mode) (ops : List Nat) (h : StopAhead n w) :
    Returns outcome w (.postDeferredAll mode ops :: rest) rest := by
  induction ops generalizing w with
  | nil => exact .step rfl (ih h mode rest)
  | cons op ops ihops => exact .step rfl (ihops ((h.congr rfl rfl).push _))

theorem returns_collect (mode : Mode) (h : StopAhead n w) :
    Returns outcome w (.collect mode :: rest) rest :=
  .step rfl (returns_postDeferredAll ih mode _ (h.congr rfl rfl))

theorem returns_doOne (mode : Mode) (h : StopAhead n w) :
    Returns outcome w (.doOne mode :: rest) rest := by
  refine .step rfl ?_
  split
  · exact returns_collect ih mode (h.congr rfl rfl)
  · exact ih (w := { w with dispatchRequired := false }) (h.congr rfl rfl) mode rest

theorem returns_completed (mode : Mode) (h : StopAhead n w) :
    Returns outcome w (.completed mode :: rest) rest := by
  refine .step rfl ?_
  split
  · exact returns_doOne ih mode h
  · exact returns_now h.1

theorem returns_blockExit (mode : Mode) (op : Nat) (h : StopAhead n w) :
    Returns outcome w (.blockExit mode op :: rest) rest := by
  refine .step rfl ?_
  split
  · refine .step rfl ?_
    rw [if_pos h.1]
    exact returns_completed ih mode (h.congr h.1.symm rfl)
  · exact returns_completed ih mode (h.congr rfl rfl)

theorem returns_exchangeReady (mode : Mode) (op : Nat) (result : Result) (h : StopAhead n w) :
    Returns outcome w (.exchangeReady mode op result :: rest) rest := by
  cases hready : w.ready op with
  | true =>
    refine .step (if_pos hready) (.step rfl ?_)
    exact returns_blockExit ih mode op (h.congr rfl rfl)
  | false =>
    refine .step (if_neg (by simp [hready])) ?_
    exact returns_doOne ih mode (h.congr rfl rfl)

theorem returns_dequeued (mode : Mode) (op : Nat) (key : CompletionKey) (result : Result)
    (h : StopAhead n w) : Returns outcome w (.dequeued mode op key result :: rest) rest := by
  by_cases hkey : key = .overlappedContainsResult
  · refine .step (if_pos hkey) ?_
    exact returns_exchangeReady ih mode op _ h
  · refine .step (if_neg hkey) ?_
    exact returns_exchangeReady ih mode op _ (h.congr rfl rfl)

theorem returns_received (mode : Mode) (p : Packet) (h : StopAhead n w) :
    Returns outcome w (received mode p :: rest) rest := by
  unfold received
  split
  · exact returns_dequeued ih mode _ _ _ h
  · split
    · exact returns_doOne ih mode h
    · exact returns_clearStop h.1 mode rest

/-- Every call of a thread that is in `run` leads back to the port. -/
theorem returns_inRun {c : Call} (hc : c.inRun = true) (h : StopAhead n w) :
    Returns outcome w (c :: rest) rest := by
  cases c with
  | run mode =>
    refine .step rfl ?_
    split
    · refine .step rfl ?_
      rw [if_pos h.1]
      exact returns_now rfl
    · exact returns_doOne ih mode h
  | doOne mode => exact returns_doOne ih mode h
  | collect mode => exact returns_collect ih mode h
  | postDeferredAll mode ops => exact returns_postDeferredAll ih mode ops h
  | getQueued mode => exact ih h mode rest
  | dequeued mode op key result => exact returns_dequeued ih mode op key result h
  | exchangeReady mode op result => exact returns_exchangeReady ih mode op result h
  | complete mode op => exact .step rfl (returns_blockExit ih mode op h)
  | blockExit mode op => exact returns_blockExit ih mode op h
  | completed mode => exact returns_completed ih mode h
  | _ => cases hc

end Waiting

theorem returns_getQueued (n : Nat) (h : StopAhead n w) (mode : Mode) (rest : List Call) :
    Returns outcome w (.getQueued mode :: rest) rest := by
  induction n generalizing w mode rest with
  | zero =>
    obtain ⟨hs, pre, p, post, hport, hstop, hlength⟩ := h
    obtain rfl := List.length_eq_zero_iff.mp hlength
    have hadv : advance outcome w (.getQueued mode) =
        some ({ w with port := post }, [received mode p]) := by
      simp [advance, hport]
    refine .step hadv ?_
    rw [received_of_isStop mode hstop]
    exact returns_clearStop (w := { w with port := post }) hs mode rest
  | succ n ih =>
    obtain ⟨hs, pre, p, post, hport, hstop, hlength⟩ := h
    obtain ⟨q, pre, rfl⟩ := List.exists_cons_of_length_eq_add_one hlength
    have hadv : advance outcome w (.getQueued mode) =
        some ({ w with port := pre ++ p :: post }, [received mode q]) := by
      simp [advance, hport]
    refine .step hadv ?_
    exact returns_received (fun h mode rest => ih h mode rest) mode q
      ⟨hs, pre, p, post, rfl, hstop, Nat.succ.inj hlength⟩

end Alone

/-- The stop packet is there at most once, and once the io_context is stopped it is in the port
whenever nobody is in the middle of passing it on; every thread in `run` then returns, and leaves
the io_context stopped. -/
theorem stop_protocol {ι : Type u} [Fintype ι] [DecidableEq ι] {outcome : Nat → Outcome}
    {s : State ι} (h : Reachable (step outcome) (fun _ a => a.2 ≠ .postFails) initial s) :
    s.shared.stopPackets + s.weight Call.holdsStop ≤ 1 ∧
      (s.shared.stopped = true → (∀ i, ∀ c ∈ s.part i, ¬c.midStop) →
        s.shared.stopPackets = 1 ∧
        ∀ i c rest, s.part i = c :: rest → c.inRun = true →
          ∃ n w, exec (step outcome) s (List.replicate n (i, .step)) = some (s.set i (w, rest)) ∧
            w.stopped = true) := by
  have hinv := reachable_stopInvariant h
  refine ⟨?_, fun hs hquiet => ?_⟩
  · have := hinv.packets
    have := Bool.toNat_le s.shared.stopEventPosted
    omega
  · have hpacket := hinv.packet_in_port hs hquiet
    refine ⟨hpacket, fun i c rest hc hrun => ?_⟩
    obtain ⟨n, hahead⟩ := stopAhead_of_stopPackets hs (by omega)
    obtain ⟨w, hleads, hw⟩ : Returns outcome s.shared (c :: rest) rest := returns_inRun
      (fun h mode rest => returns_getQueued n h mode rest) hrun hahead
    obtain ⟨k, hk⟩ := hleads.exec rfl hc
    exact ⟨k, w, hk, hw⟩

def restartedRun : List (Fin 2 × Action) :=
  [(0, .workStarted), (0, .run ⟨true, true⟩), (0, .step), (0, .step), (1, .stop), (1, .step),
    (1, .step), (1, .step), (1, .restart), (1, .stop), (1, .step), (1, .step),
    (1, .run ⟨true, true⟩), (1, .step), (1, .step)]

theorem restartedRun_waits :
    (exec (guarded (step fun _ => .pending 0 0) fun _ a => a.2 ≠ .postFails) initial
      restartedRun).map (fun s => (s.part 0, s.part 1, s.shared.stopped)) =
    some ([.getQueued ⟨true, true⟩], [.getQueued ⟨true, true⟩], true) := by
  decide +kernel

theorem stop_protocol_restarted : ∃ s : State (Fin 2), s.shared.stopPackets = 1 ∧
    ∃ n w, exec (step fun _ => .pending 0 0) s (List.replicate n (0, .step)) =
      some (s.set 0 (w, [])) ∧ w.stopped = true := by
  obtain ⟨s, hs, hwaits⟩ := Option.map_eq_some_iff.mp restartedRun_waits
  simp only [Prod.mk.injEq] at hwaits
  obtain ⟨h0, h1, hstopped⟩ := hwaits
  obtain ⟨_, hrest⟩ := stop_protocol (exec_guarded_reachable hs)
  have hquiet : ∀ i, ∀ c ∈ s.part i, ¬c.midStop := by
    intro i c hc
    have hcall : c = .getQueued ⟨true, true⟩ := by
      match i with
      | 0 => simpa [h0] using hc
      | 1 => simpa [h1] using hc
    rw [hcall]
    rintro (h | h) <;> cases h
  obtain ⟨hpacket, hreturns⟩ := hrest hstopped hquiet
  exact ⟨s, hpacket, hreturns 0 _ [] h0 rfl⟩

end Asio.Detail.WinIocpIoContext
