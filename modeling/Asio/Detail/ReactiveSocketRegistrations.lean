import Asio.Detail.EpollReactorRuns
import Asio.Detail.ReactiveSocketOwners

/-! The states that are registered for sockets, and the interest set of epoll. -/

universe u v w

namespace Asio.Detail

open Lib Transition

namespace Epoll.DescriptorState

variable (d : DescriptorState) (t : OpType) (op : ReactorOp) (allowSpeculative : Bool)
variable (outcome : ReactorOp.Outcome)

theorem waitForEvent_shutdown (performed : Bool) (epollCtl : Option Nat) :
    (d.waitForEvent t op performed epollCtl).data.shutdown = d.shutdown := by
  unfold waitForEvent
  split
  · rfl
  · split
    · split <;> rfl
    · rfl

theorem startOp_shutdown (epollCtl : Option Nat) :
    (d.startOp t op allowSpeculative outcome epollCtl).data.shutdown = d.shutdown := by
  unfold startOp
  split
  · rfl
  · split
    · split
      · split
        · split
          · exact waitForEvent_shutdown ..
          · dsimp only
            split <;> rfl
        · exact waitForEvent_shutdown ..
      · split
        · rfl
        · split <;> rfl
    · rfl

/-- Waiting for an event changes what is registered as the kernel is told. -/
theorem waitForEvent_registeredEvents (performed : Bool) :
    (d.waitForEvent t op performed none).data.registeredEvents =
      if d.registeredEvents = 0 then d.registeredEvents
      else if t = .write ∧ d.registeredEvents &&& outEvent = 0 then
        d.registeredEvents ||| outEvent
      else d.registeredEvents := by
  unfold waitForEvent
  split
  · rfl
  · split
    · change d.registeredEvents ||| (d.registeredEvents ||| outEvent) = _
      rw [← BitVec.or_assoc, BitVec.or_self]
    · rfl

theorem or_ne_zero {events : BitVec 32} (h : events ≠ 0) (events' : BitVec 32) :
    events ||| events' ≠ 0 :=
  fun hor => h (BitVec.or_eq_zero_iff.mp hor).1

theorem modification_ne_zero {events : BitVec 32}
    (h : d.modification t op allowSpeculative outcome = some events) :
    d.registeredEvents ≠ 0 ∧ events ≠ 0 := by
  unfold modification at h
  split at h
  · cases h
  · split at h
    · split at h
      · split at h
        · cases h
        · split at h
          · cases h
          · rename_i hevents
            split at h
            · cases h
              exact ⟨hevents, or_ne_zero hevents _⟩
            · cases h
      · split at h
        · cases h
        · rename_i hevents
          cases h
          refine ⟨hevents, ?_⟩
          split
          · exact or_ne_zero hevents _
          · exact hevents
    · cases h

/-- Starting an operation changes what is registered as the kernel is told. -/
theorem startOp_registeredEvents :
    (d.startOp t op allowSpeculative outcome none).data.registeredEvents =
      (d.modification t op allowSpeculative outcome).getD d.registeredEvents := by
  have hwait (op : ReactorOp) (performed : Bool) :
      (d.waitForEvent t op performed none).data.registeredEvents =
        Option.getD (if d.registeredEvents = 0 then none
          else if t = .write ∧ d.registeredEvents &&& outEvent = 0 then
            some (d.registeredEvents ||| outEvent)
          else none) d.registeredEvents := by
    rw [waitForEvent_registeredEvents]
    split
    · rfl
    · split <;> rfl
  unfold startOp modification
  by_cases hshutdown : d.shutdown = true
  · rw [if_pos hshutdown, if_pos hshutdown]
    rfl
  · rw [if_neg hshutdown, if_neg hshutdown]
    by_cases hempty : (d.opQueue t).isEmpty = true
    · rw [if_pos hempty, if_pos hempty]
      by_cases hspeculative : allowSpeculative = true ∧ (t ≠ .read ∨ (d.opQueue .except).isEmpty)
      · rw [if_pos hspeculative, if_pos hspeculative]
        by_cases htry : d.trySpeculative t = true
        · rw [if_pos htry]
          obtain ⟨op', status⟩ := op.perform outcome
          cases status with
          | notDone =>
            rw [if_neg fun h => h.2 rfl]
            exact hwait op' true
          | done =>
            rw [if_pos ⟨htry, nofun⟩]
            dsimp only
            split <;> rfl
          | doneAndExhausted =>
            rw [if_pos ⟨htry, nofun⟩]
            dsimp only
            split <;> rfl
        · rw [if_neg htry, if_neg fun h => htry h.1]
          exact hwait op false
      · rw [if_neg hspeculative, if_neg hspeculative]
        split
        · rfl
        · split <;> rfl
    · rw [if_neg hempty, if_neg hempty]
      rfl

theorem performFrom_registeredEvents (events : BitVec 32) (outcome : Nat → ReactorOp.Outcome)
    (ts : List OpType) (d : DescriptorState) :
    (performFrom events outcome ts d).2.registeredEvents = d.registeredEvents := by
  induction ts generalizing d with
  | nil => rfl
  | cons t ts ih =>
    simp only [performFrom]
    split
    · exact ih d
    · exact ih _

/-- Where no operation waits none does after others have been performed. -/
theorem performIo_opQueue (events : BitVec 32) (outcome : Nat → ReactorOp.Outcome)
    (h : d.opQueue t = []) : (d.performIo events outcome).2.opQueue t = [] := by
  have hidentities := performFrom_identities events outcome [.except, .write, .read] d t
  rw [h, List.map_nil, List.append_eq_nil_iff] at hidentities
  exact List.map_eq_nil_iff.mp hidentities.2

end Epoll.DescriptorState

namespace ReactiveSocketServiceBase

open Epoll

variable {ι : Type u} {κ : Type v} {φ : Type w}

/-! ### What is registered -/

/-- The descriptors of the open sockets, with the reactor's data. -/
def Opened (s : State ι κ φ) (fd : φ) (reactorData : Option Nat) : Prop :=
  ∃ i, ∃ x ∈ s.impls i, x.socket = some fd ∧ x.reactorData = reactorData

/-- A state that has no events is not in the interest set. -/
def watched (r : Registration φ) (n : Nat) : Option Interest :=
  if r.registeredEvents = 0 then none else some (r.registeredEvents, n)

theorem watched_register (r : Registration φ) (fd : φ) (events : BitVec 32) (n : Nat) :
    watched (r.register fd events) n = if events = 0 then none else some (events, n) := rfl

/-- A state is registered for a descriptor. -/
structure Attached (s : State ι κ φ) (fd : φ) (n : Nat) : Prop where
  live : n ∈ s.liveList
  descriptor : (s.states n).descriptor = some fd
  shutdown : (s.states n).shutdown = false
  entry : s.kernel.entry fd = watched (s.states n) n
  pollable : (s.states n).registeredEvents ≠ 0 ↔ s.kernel.Pollable fd

theorem Attached.congr {s s' : State ι κ φ} {fd : φ} {n : Nat} (h : Attached s fd n)
    (hlive : n ∈ s'.liveList) (hdescriptor : (s'.states n).descriptor = (s.states n).descriptor)
    (hshutdown : (s'.states n).shutdown = (s.states n).shutdown)
    (hevents : (s'.states n).registeredEvents = (s.states n).registeredEvents)
    (hentry : s'.kernel.entry fd = s.kernel.entry fd)
    (hpollable : s'.kernel.Pollable fd ↔ s.kernel.Pollable fd) : Attached s' fd n where
  live := hlive
  descriptor := hdescriptor.trans h.descriptor
  shutdown := hshutdown.trans h.shutdown
  entry := by rw [hentry, h.entry, watched, watched, hevents]
  pollable := by rw [hevents, h.pollable, hpollable]

/-- The states in the lists of the pool. -/
structure Pooled (s : State ι κ φ) : Prop where
  live : s.liveList.Nodup
  free : s.freeList.Nodup
  created : ∀ n, n ∈ s.liveList ∨ n ∈ s.freeList → n < s.created
  disjoint : ∀ n ∈ s.liveList, n ∉ s.freeList

/-- Each open descriptor of a socket has a state of its own, which is live, and nothing else is in
the interest set or has operations. -/
structure Registered (s : State ι κ φ) (opened : φ → Option Nat → Prop) : Prop where
  valid : s.kernel.Valid
  pooled : Pooled s
  functional : ∀ {fd data data'}, opened fd data → opened fd data' → data = data'
  attached : ∀ {fd data}, opened fd data → ∃ n, data = some n ∧ Attached s fd n
  entries : ∀ {fd}, s.kernel.entry fd ≠ none → ∃ data, opened fd data
  queues : ∀ {n t}, (s.states n).opQueue t ≠ [] → ∃ fd, opened fd (some n)

namespace Registered

variable {s s' : State ι κ φ} {opened opened' : φ → Option Nat → Prop} {fd fd' : φ} {n : Nat}

theorem congr (h : Registered s opened) (hopened : ∀ fd data, opened' fd data ↔ opened fd data) :
    Registered s opened' := by
  obtain rfl : opened' = opened := by
    funext fd data
    exact propext (hopened fd data)
  exact h

/-- Nothing but the kernel, the states and the pool matters. -/
theorem frame (h : Registered s opened) (hkernel : s'.kernel = s.kernel)
    (hstates : s'.states = s.states) (hlive : s'.liveList = s.liveList)
    (hfree : s'.freeList = s.freeList) (hcreated : s'.created = s.created) :
    Registered s' opened := by
  obtain ⟨hvalid, ⟨hl, hf, hc, hd⟩, hfunctional, hattached, hentries, hqueues⟩ := h
  obtain ⟨kernel, states, liveList, freeList, created, _, _, _, _⟩ := s'
  subst hkernel hstates hlive hfree hcreated
  refine ⟨hvalid, ⟨hl, hf, hc, hd⟩, hfunctional, fun hfd => ?_, hentries, hqueues⟩
  obtain ⟨n, hn, ha⟩ := hattached hfd
  exact ⟨n, hn, ha.live, ha.descriptor, ha.shutdown, ha.entry, ha.pollable⟩

theorem of_eq (h : Registered s opened) (hkernel : s'.kernel = s.kernel)
    (hstates : s'.states = s.states) (hlive : s'.liveList = s.liveList)
    (hfree : s'.freeList = s.freeList) (hcreated : s'.created = s.created)
    (hopened : ∀ fd data, opened' fd data ↔ opened fd data) : Registered s' opened' :=
  (h.frame hkernel hstates hlive hfree hcreated).congr hopened

/-- Two descriptors do not have the same state. -/
theorem unique (h : Registered s opened) (hfd : opened fd (some n)) (hfd' : opened fd' (some n)) :
    fd = fd' := by
  obtain ⟨_, ⟨⟩, hn⟩ := h.attached hfd
  obtain ⟨_, ⟨⟩, hn'⟩ := h.attached hfd'
  exact Option.some.inj (hn.descriptor.symm.trans hn'.descriptor)

/-- The kernel changes in nothing that concerns the sockets. -/
theorem same (h : Registered s opened) {k : FileDescriptors φ Interest}
    (hk : FileDescriptors.Same s.kernel k) : Registered { s with kernel := k } opened where
  valid := hk.valid
  pooled := ⟨h.pooled.live, h.pooled.free, h.pooled.created, h.pooled.disjoint⟩
  functional := h.functional
  attached hfd := by
    obtain ⟨n, hn, ha⟩ := h.attached hfd
    exact ⟨n, hn, ha.congr ha.live rfl rfl rfl (congrFun hk.entry _) (hk.pollable _)⟩
  entries hne := h.entries (congrFun hk.entry _ ▸ hne)
  queues := h.queues

/-- The kernel changes for a descriptor that is not that of a socket. -/
theorem elsewhere [DecidableEq φ] (h : Registered s opened) {k : FileDescriptors φ Interest}
    (hk : FileDescriptors.Change s.kernel k fd none) (hfd : ∀ data, ¬ opened fd data) :
    Registered { s with kernel := k } opened where
  valid := hk.valid
  pooled := ⟨h.pooled.live, h.pooled.free, h.pooled.created, h.pooled.disjoint⟩
  functional := h.functional
  attached {fd' data} hfd' := by
    have hne : fd' ≠ fd := by
      rintro rfl
      exact hfd data hfd'
    obtain ⟨n, hn, ha⟩ := h.attached hfd'
    refine ⟨n, hn, ha.congr ha.live rfl rfl rfl ?_ (hk.pollable _ hne)⟩
    exact (congrFun hk.entry _).trans (Function.update_of_ne hne ..)
  entries {fd'} hne := by
    refine h.entries fun hnone => hne ?_
    refine (congrFun hk.entry _).trans ?_
    by_cases heq : fd' = fd
    · rw [heq, Function.update_self]
    · rw [Function.update_of_ne heq, hnone]
  queues := h.queues

/-- What a state holds changes, but not what is registered. -/
theorem setData (h : Registered s opened) (n : Nat) {d : DescriptorState}
    (hshutdown : d.shutdown = (s.states n).shutdown)
    (hevents : d.registeredEvents = (s.states n).registeredEvents)
    (hqueue : (∀ t, (s.states n).opQueue t = [] → d.opQueue t = []) ∨ ∃ fd, opened fd (some n)) :
    Registered (s.setState n { s.states n with toDescriptorState := d }) opened where
  valid := h.valid
  pooled := ⟨h.pooled.live, h.pooled.free, h.pooled.created, h.pooled.disjoint⟩
  functional := h.functional
  attached hfd := by
    obtain ⟨m, hm, ha⟩ := h.attached hfd
    refine ⟨m, hm, ?_⟩
    by_cases heq : m = n
    · subst heq
      have hm : (s.setState m { s.states m with toDescriptorState := d }).states m =
          { s.states m with toDescriptorState := d } := Function.update_self ..
      exact ha.congr ha.live (by rw [hm]) (by rw [hm, hshutdown]) (by rw [hm, hevents]) rfl Iff.rfl
    · have hm : (s.setState n { s.states n with toDescriptorState := d }).states m = s.states m :=
        Function.update_of_ne heq ..
      exact ha.congr ha.live (by rw [hm]) (by rw [hm]) (by rw [hm]) rfl Iff.rfl
  entries := h.entries
  queues {m t} hne := by
    by_cases heq : m = n
    · subst heq
      rcases hqueue with hqueue | hfd
      · refine h.queues (n := m) (t := t) fun hnil => hne ?_
        simp only [State.setState, Function.update_self]
        exact hqueue t hnil
      · exact hfd
    · refine h.queues (n := m) (t := t) fun hnil => hne ?_
      simp only [State.setState, Function.update_of_ne heq]
      exact hnil

/-- What is registered for a socket changes together with what the kernel has for it. -/
theorem modify [DecidableEq φ] (h : Registered s opened) (hfd : opened fd (some n))
    {d : DescriptorState} {k : FileDescriptors φ Interest}
    (hshutdown : d.shutdown = (s.states n).shutdown) (hevents : d.registeredEvents ≠ 0)
    (hwas : (s.states n).registeredEvents ≠ 0)
    (hk : FileDescriptors.Change s.kernel k fd (some (d.registeredEvents, n)))
    (hpollable : k.Pollable fd ↔ s.kernel.Pollable fd) :
    Registered
      { s.setState n { s.states n with toDescriptorState := d } with kernel := k } opened where
  valid := hk.valid
  pooled := ⟨h.pooled.live, h.pooled.free, h.pooled.created, h.pooled.disjoint⟩
  functional := h.functional
  attached {fd' data} hfd' := by
    obtain ⟨m, hm, ha⟩ := h.attached hfd'
    refine ⟨m, hm, ?_⟩
    by_cases heq : fd' = fd
    · subst heq
      obtain rfl : m = n := Option.some.inj (hm.symm.trans (h.functional hfd' hfd))
      have hm : (s.setState m { s.states m with toDescriptorState := d }).states m =
          { s.states m with toDescriptorState := d } := Function.update_self ..
      constructor
      · exact ha.live
      · exact (congrArg (·.descriptor) hm).trans ha.descriptor
      · exact (congrArg (·.shutdown) hm).trans (hshutdown.trans ha.shutdown)
      · refine (congrFun hk.entry _).trans ((Function.update_self ..).trans ?_)
        rw [watched, congrArg (·.registeredEvents) hm, if_neg hevents]
      · rw [congrArg (·.registeredEvents) hm]
        exact ⟨fun _ => hpollable.mpr (ha.pollable.mp hwas), fun _ => hevents⟩
    · have hmn : m ≠ n := by
        rintro rfl
        exact heq (h.unique (hm ▸ hfd') hfd)
      have hm : (s.setState n { s.states n with toDescriptorState := d }).states m = s.states m :=
        Function.update_of_ne hmn ..
      refine ha.congr ha.live (congrArg (·.descriptor) hm) (congrArg (·.shutdown) hm)
        (congrArg (·.registeredEvents) hm) ?_ (hk.pollable _ heq)
      exact (congrFun hk.entry _).trans (Function.update_of_ne heq ..)
  entries {fd'} hne := by
    by_cases heq : fd' = fd
    · exact ⟨some n, heq ▸ hfd⟩
    · refine h.entries fun hnone => hne ?_
      exact (congrFun hk.entry _).trans ((Function.update_of_ne heq ..).trans hnone)
  queues {m t} hne := by
    by_cases heq : m = n
    · exact ⟨fd, heq ▸ hfd⟩
    · refine h.queues (n := m) (t := t) fun hnil => hne ?_
      have hm : (s.setState n { s.states n with toDescriptorState := d }).states m = s.states m :=
        Function.update_of_ne heq ..
      exact (congrArg (fun r : Registration φ => r.opQueue t) hm).trans hnil

/-- A socket gives up its descriptor, and its state goes back to the pool. -/
theorem detach [DecidableEq φ] (h : Registered s opened) (hfd : opened fd (some n))
    {r : Registration φ} {k : FileDescriptors φ Interest} (hqueue : ∀ t, r.opQueue t = [])
    (hk : FileDescriptors.Change s.kernel k fd none) :
    Registered (({ s.setState n r with kernel := k } : State ι κ φ).freeDescriptorState n)
      fun fd' data => opened fd' data ∧ fd' ≠ fd := by
  obtain ⟨_, ⟨⟩, hn⟩ := h.attached hfd
  constructor
  · exact hk.valid
  · constructor
    · exact h.pooled.live.erase n
    · exact List.nodup_cons.mpr ⟨h.pooled.disjoint n hn.live, h.pooled.free⟩
    · rintro m (hm | hm)
      · exact h.pooled.created m (Or.inl (List.mem_of_mem_erase hm))
      · rcases List.mem_cons.mp hm with rfl | hm
        · exact h.pooled.created m (Or.inl hn.live)
        · exact h.pooled.created m (Or.inr hm)
    · intro m hm hfree
      rcases List.mem_cons.mp hfree with rfl | hfree
      · exact h.pooled.live.not_mem_erase hm
      · exact h.pooled.disjoint m (List.mem_of_mem_erase hm) hfree
  · exact fun hdata hdata' => h.functional hdata.1 hdata'.1
  · rintro fd' data ⟨hfd', hne⟩
    obtain ⟨m, hm, ha⟩ := h.attached hfd'
    have hmn : m ≠ n := by
      rintro rfl
      exact hne (h.unique (hm ▸ hfd') hfd)
    have hm' : (s.setState n r).states m = s.states m := Function.update_of_ne hmn ..
    refine ⟨m, hm, ha.congr ((List.mem_erase_of_ne hmn).mpr ha.live)
      (congrArg (·.descriptor) hm') (congrArg (·.shutdown) hm')
      (congrArg (·.registeredEvents) hm') ?_ (hk.pollable _ hne)⟩
    exact (congrFun hk.entry _).trans (Function.update_of_ne hne ..)
  · intro fd' hne
    have hentry : k.entry fd' = Function.update s.kernel.entry fd none fd' := congrFun hk.entry fd'
    by_cases heq : fd' = fd
    · rw [heq, Function.update_self] at hentry
      exact absurd (heq ▸ hentry) hne
    · rw [Function.update_of_ne heq] at hentry
      obtain ⟨data, hdata⟩ := h.entries fun hnone => hne (hentry.trans hnone)
      exact ⟨data, hdata, heq⟩
  · intro m t hne
    by_cases heq : m = n
    · subst heq
      have hm : (s.setState m r).states m = r := Function.update_self ..
      exact absurd ((congrArg (fun r : Registration φ => r.opQueue t) hm).trans (hqueue t)) hne
    · have hm : (s.setState n r).states m = s.states m := Function.update_of_ne heq ..
      obtain ⟨fd', hfd'⟩ := h.queues (n := m) (t := t) fun hnil =>
        hne ((congrArg (fun r : Registration φ => r.opQueue t) hm).trans hnil)
      refine ⟨fd', hfd', ?_⟩
      rintro rfl
      exact heq (Option.some.inj (h.functional hfd' hfd))

/-- A state that comes from the pool is that of no socket. -/
theorem allocate (h : Registered s opened) {t : State ι κ φ} {r : Registration φ}
    (halloc : s.allocateDescriptorState = (n, t)) (hqueue : r.opQueue = (s.states n).opQueue) :
    Registered (t.setState n r) opened ∧ n ∈ t.liveList := by
  obtain ⟨hkernel, hstates, hlive, hpooled, hfresh⟩ : t.kernel = s.kernel ∧ t.states = s.states ∧
      t.liveList = n :: s.liveList ∧ Pooled t ∧ n ∉ s.liveList := by
    unfold State.allocateDescriptorState at halloc
    split at halloc
    · rename_i freeList hfree
      obtain ⟨rfl, rfl⟩ := halloc
      have hp := h.pooled
      have hnodup := List.nodup_cons.mp (hfree ▸ hp.free)
      have hn : n ∉ s.liveList := fun hn => hp.disjoint n hn (hfree ▸ List.mem_cons_self ..)
      refine ⟨rfl, rfl, rfl, ⟨List.nodup_cons.mpr ⟨hn, hp.live⟩, hnodup.2, ?_, ?_⟩, hn⟩
      · rintro m (hm | hm)
        · rcases List.mem_cons.mp hm with rfl | hm
          · exact hp.created m (Or.inr (hfree ▸ List.mem_cons_self ..))
          · exact hp.created m (Or.inl hm)
        · exact hp.created m (Or.inr (hfree ▸ List.mem_cons_of_mem _ hm))
      · intro m hm hmfree
        rcases List.mem_cons.mp hm with rfl | hm
        · exact hnodup.1 hmfree
        · exact hp.disjoint m hm (hfree ▸ List.mem_cons_of_mem _ hmfree)
    · rename_i hfree
      obtain ⟨rfl, rfl⟩ := halloc
      have hp := h.pooled
      have hn : s.created ∉ s.liveList := fun hn => absurd (hp.created _ (Or.inl hn)) (lt_irrefl _)
      refine ⟨rfl, rfl, rfl, ⟨List.nodup_cons.mpr ⟨hn, hp.live⟩, hp.free, ?_, ?_⟩, hn⟩
      · rintro m (hm | hm)
        · rcases List.mem_cons.mp hm with rfl | hm
          · exact Nat.lt_succ_self _
          · exact Nat.lt_succ_of_lt (hp.created m (Or.inl hm))
        · exact Nat.lt_succ_of_lt (hp.created m (Or.inr hm))
      · intro m _ hmfree
        rw [show s.freeList = [] from hfree] at hmfree
        cases hmfree
  have hsame {m : Nat} (hm : m ∈ s.liveList) : (t.setState n r).states m = s.states m := by
    have hne : m ≠ n := fun heq => hfresh (heq ▸ hm)
    exact (Function.update_of_ne hne ..).trans (congrFun hstates m)
  refine ⟨⟨hkernel ▸ h.valid, ⟨hpooled.live, hpooled.free, hpooled.created, hpooled.disjoint⟩,
    h.functional, ?_, fun hne => h.entries (hkernel ▸ hne), ?_⟩, hlive ▸ List.mem_cons_self ..⟩
  · intro fd data hdata
    obtain ⟨m, hm, ha⟩ := h.attached hdata
    have hmlive : m ∈ t.liveList := hlive ▸ List.mem_cons_of_mem _ ha.live
    refine ⟨m, hm, ha.congr hmlive (congrArg (·.descriptor) (hsame ha.live))
      (congrArg (·.shutdown) (hsame ha.live)) (congrArg (·.registeredEvents) (hsame ha.live)) ?_ ?_⟩
    · exact congrArg (fun k : FileDescriptors φ Interest => k.entry fd) hkernel
    · exact Iff.of_eq (congrArg (fun k : FileDescriptors φ Interest => k.Pollable fd) hkernel)
  · intro m t' hne
    refine h.queues (n := m) (t := t') fun hnil => hne ?_
    by_cases heq : m = n
    · have hm : (t.setState n r).states m = r := heq ▸ Function.update_self ..
      exact (congrArg (fun r : Registration φ => r.opQueue t') hm).trans
        ((congrFun hqueue t').trans (heq ▸ hnil))
    · have hm : (t.setState n r).states m = s.states m :=
        (Function.update_of_ne heq ..).trans (congrFun hstates m)
      exact (congrArg (fun r : Registration φ => r.opQueue t') hm).trans hnil

/-- A state is registered for a descriptor that no socket has had. -/
theorem adopt [DecidableEq φ] (h : Registered s opened) {k : FileDescriptors φ Interest}
    (hlive : n ∈ s.liveList)
    (hfresh : ∀ data, ¬ opened fd data) (hdescriptor : (s.states n).descriptor = some fd)
    (hshutdown : (s.states n).shutdown = false)
    (hk : FileDescriptors.Change s.kernel k fd (watched (s.states n) n))
    (hpollable : (s.states n).registeredEvents ≠ 0 ↔ k.Pollable fd) :
    Registered { s with kernel := k }
      fun fd' data => opened fd' data ∨ (fd' = fd ∧ data = some n) where
  valid := hk.valid
  pooled := ⟨h.pooled.live, h.pooled.free, h.pooled.created, h.pooled.disjoint⟩
  functional := by
    rintro fd' data data' (hdata | ⟨rfl, rfl⟩) (hdata' | ⟨heq, rfl⟩)
    · exact h.functional hdata hdata'
    · exact absurd (heq ▸ hdata) (hfresh data)
    · exact absurd hdata' (hfresh data')
    · rfl
  attached := by
    rintro fd' data (hdata | ⟨rfl, rfl⟩)
    · have hne : fd' ≠ fd := by
        rintro rfl
        exact hfresh data hdata
      obtain ⟨m, hm, ha⟩ := h.attached hdata
      refine ⟨m, hm, ha.congr ha.live rfl rfl rfl ?_ (hk.pollable _ hne)⟩
      exact (congrFun hk.entry _).trans (Function.update_of_ne hne ..)
    · refine ⟨n, rfl, hlive, hdescriptor, hshutdown, ?_, hpollable⟩
      exact (congrFun hk.entry _).trans (Function.update_self ..)
  entries {fd'} hne := by
    by_cases heq : fd' = fd
    · exact ⟨some n, Or.inr ⟨heq, rfl⟩⟩
    · obtain ⟨data, hdata⟩ := h.entries fun hnone => hne
        ((congrFun hk.entry _).trans ((Function.update_of_ne heq ..).trans hnone))
      exact ⟨data, Or.inl hdata⟩
  queues hne := by
    obtain ⟨fd', hfd'⟩ := h.queues hne
    exact ⟨fd', Or.inl hfd'⟩

end Registered

end ReactiveSocketServiceBase

end Asio.Detail
