import Asio.Detail.ReactiveSocketRegistrations

/-! What is registered for sockets in any run, and what is registered again after a fork. -/

universe u v w

namespace Asio.Detail.ReactiveSocketServiceBase

open Lib Transition Epoll

variable {ι : Type u} {κ : Type v} {φ : Type w}

namespace Registered

variable {s s' : State ι κ φ} {opened : φ → Option Nat → Prop} {fd : φ} {n : Nat}

theorem entry_eq_none (h : Registered s opened) (hfresh : ∀ data, ¬ opened fd data) :
    s.kernel.entry fd = none := by
  by_contra hne
  obtain ⟨data, hdata⟩ := h.entries hne
  exact hfresh data hdata

variable [DecidableEq φ]

/-- What has been registered without an error is attached to a new state. -/
theorem registerDescriptor (h : Registered s opened)
    (hfresh : ∀ data, ¬ opened fd data) (exhausted : Option Shortage) :
    Registered (s.registerDescriptor fd exhausted).2.2 fun fd' data => opened fd' data ∨
      ((s.registerDescriptor fd exhausted).1 = none ∧ fd' = fd ∧
        data = some (s.registerDescriptor fd exhausted).2.1) := by
  rcases halloc : s.allocateDescriptorState with ⟨n, t⟩
  obtain ⟨hkernel, hstates⟩ : t.kernel = s.kernel ∧ t.states = s.states := by
    unfold State.allocateDescriptorState at halloc
    split at halloc <;> obtain ⟨rfl, rfl⟩ := halloc <;> exact ⟨rfl, rfl⟩
  have hadopted (r : Registration φ) (hqueue : r.opQueue = (s.states n).opQueue)
      (hdescriptor : r.descriptor = some fd) (hshutdown : r.shutdown = false)
      {k : FileDescriptors φ Interest} (hk : FileDescriptors.Change s.kernel k fd (watched r n))
      (hpollable : r.registeredEvents ≠ 0 ↔ k.Pollable fd) :
      Registered { t.setState n r with kernel := k } fun fd' data => opened fd' data ∨
        ((none : Option Nat) = none ∧ fd' = fd ∧ data = some n) := by
    obtain ⟨hreg, hlive⟩ := h.allocate halloc hqueue
    have hn : (t.setState n r).states n = r := Function.update_self ..
    refine (hreg.adopt hlive hfresh (congrArg (·.descriptor) hn |>.trans hdescriptor)
      (congrArg (·.shutdown) hn |>.trans hshutdown) ?_ ?_).congr fun fd' data => by simp
    · rw [hn]
      exact hkernel ▸ hk
    · rw [hn]
      exact hpollable
  unfold State.registerDescriptor
  rw [halloc]
  dsimp only
  rw [hkernel, hstates]
  rcases hadd : s.kernel.epollAdd fd (registeredForAll, n) exhausted with ⟨error, k⟩
  cases error with
  | none =>
    have hnone : (s.kernel.epollAdd fd (registeredForAll, n) exhausted).1 = none := by rw [hadd]
    obtain ⟨hchange, hsame⟩ := h.valid.epollAdd hnone
    have hpollable := ((FileDescriptors.epollAdd_eq_none exhausted).mp hnone).1
    rw [hadd] at hchange hsame
    refine hadopted ((s.states n).register fd registeredForAll) rfl rfl rfl ?_ ?_
    · rwa [watched_register, if_neg (show registeredForAll ≠ 0 by decide)]
    · exact ⟨fun _ => hsame.mpr hpollable, fun _ => show registeredForAll ≠ 0 by decide⟩
  | some errno =>
    have hne : (s.kernel.epollAdd fd (registeredForAll, n) exhausted).1 ≠ none := by simp [hadd]
    obtain rfl : k = s.kernel := by
      rw [← FileDescriptors.epollAdd_of_ne_none hne, hadd]
    dsimp only
    split
    · rename_i herrno
      refine hadopted ((s.states n).register fd 0) rfl rfl rfl ⟨h.valid, ?_, fun _ _ => Iff.rfl⟩ ?_
      · rw [watched_register, if_pos rfl, ← h.entry_eq_none hfresh, Function.update_eq_self]
      · refine ⟨fun hne => absurd rfl hne, fun hpollable => absurd hpollable ?_⟩
        exact FileDescriptors.epollAdd_notPermitted (by rw [hadd, herrno])
    · obtain ⟨hreg, -⟩ := h.allocate halloc (r := (s.states n).register fd registeredForAll) rfl
      rw [← hkernel]
      exact hreg.congr fun fd' data => by simp

/-- The reactor gives up a state, and its descriptor is closed or taken from the interest set. -/
theorem deregisterDescriptor (h : Registered s opened) (hfd : opened fd (some n)) (closing : Bool)
    (finish : FileDescriptors φ Interest → FileDescriptors φ Interest)
    (hfinish : ∀ k, FileDescriptors.Change s.kernel k fd none →
      FileDescriptors.Change s.kernel (finish k) fd none)
    (hclosing : closing = true → FileDescriptors.Change s.kernel (finish s.kernel) fd none) :
    let r := s.deregisterDescriptor fd (some n) closing
    Registered ({ r.2 with kernel := finish r.2.kernel } |>.cleanupDescriptorData r.1)
      fun fd' data => opened fd' data ∧ fd' ≠ fd := by
  obtain ⟨_, ⟨⟩, hn⟩ := h.attached hfd
  have hshutdown : (s.states n).shutdown ≠ true := by simp [hn.shutdown]
  dsimp only [State.deregisterDescriptor]
  rw [if_neg hshutdown]
  have hk : FileDescriptors.Change s.kernel
      (finish (if closing = false ∧ (s.states n).registeredEvents ≠ 0 then s.kernel.epollDel fd
        else s.kernel)) fd none := by
    cases closing with
    | true => exact hclosing rfl
    | false =>
      refine hfinish _ ?_
      split
      · exact h.valid.epollDel
      · rename_i hevents
        have hzero : (s.states n).registeredEvents = 0 := by simpa using hevents
        have hentry : s.kernel.entry fd = none := by rw [hn.entry, watched, if_pos hzero]
        exact ⟨h.valid, by rw [← hentry, Function.update_eq_self], fun _ _ => Iff.rfl⟩
  exact (h.detach hfd (r := { (s.states n).cancelAll.2 with shutdown := true, descriptor := none })
    (fun _ => rfl) hk).frame rfl rfl rfl rfl rfl

theorem closeSocket_change [Fintype φ] {k : FileDescriptors φ Interest} (h : k.Valid)
    (hfd : k.entry fd = none ∨ k.Sole fd) (refused : Bool) :
    FileDescriptors.Change k (closeSocket k fd refused) fd none := by
  unfold closeSocket
  split
  · have hsame := h.setNonBlocking fd false
    refine hsame.trans_change (hsame.valid.close (hfd.imp ?_ fun hsole => hsole.setNonBlocking _))
    exact fun hnone => (congrFun hsame.entry fd).trans hnone
  · exact h.close hfd

/-- A socket that is open is destroyed. If its descriptor cannot have been duplicated, nothing else
refers to what is closed. -/
theorem destroy [Fintype φ] (h : Registered s opened) {x : Implementation φ}
    (hsocket : x.socket = some fd) (hfd : opened fd x.reactorData)
    (hsole : x.possibleDup = false → s.kernel.Sole fd) (refused : Bool) :
    Registered (s.destroy x refused) fun fd' data => opened fd' data ∧ fd' ≠ fd := by
  obtain ⟨n, hn, -⟩ := h.attached hfd
  unfold State.destroy
  rw [hsocket, hn]
  refine h.deregisterDescriptor (hn ▸ hfd) (!x.possibleDup)
    (fun k => closeSocket k fd refused) (fun k hk => ?_) fun hclosing => ?_
  · refine hk.trans (closeSocket_change hk.valid (Or.inl ?_) refused)
    rw [hk.entry, Function.update_self]
  · exact closeSocket_change h.valid (Or.inr (hsole (by simpa using hclosing))) refused

theorem release (h : Registered s opened) {x : Implementation φ} (hfd : opened fd x.reactorData) :
    let r := s.deregisterDescriptor fd x.reactorData false
    Registered (r.2.cleanupDescriptorData r.1) fun fd' data => opened fd' data ∧ fd' ≠ fd := by
  obtain ⟨n, hn, -⟩ := h.attached hfd
  rw [hn]
  exact h.deregisterDescriptor (hn ▸ hfd) false id (fun _ hk => hk) nofun

/-- An operation is started on the state of an open socket. -/
theorem reactorStartOp (h : Registered s opened) {data : Option Nat} (hfd : opened fd data)
    (t : OpType) (op : ReactorOp) (allowSpeculative : Bool) (outcome : ReactorOp.Outcome) :
    Registered (s.reactorStartOp t (some fd) data op allowSpeculative outcome) opened := by
  obtain ⟨n, rfl, hn⟩ := h.attached hfd
  have hshutdown := (s.states n).startOp_shutdown t op allowSpeculative outcome
  unfold State.reactorStartOp
  dsimp only
  cases hmodification : (s.states n).modification t op allowSpeculative outcome with
  | none =>
    dsimp only
    have hevents := (s.states n).startOp_registeredEvents t op allowSpeculative outcome
    rw [hmodification] at hevents
    exact (h.setData n (hshutdown none) hevents (Or.inr ⟨fd, hfd⟩)).frame rfl rfl rfl rfl rfl
  | some events =>
    obtain ⟨hwas, hne⟩ := (s.states n).modification_ne_zero t op allowSpeculative outcome
      hmodification
    have hevents := (s.states n).startOp_registeredEvents t op allowSpeculative outcome
    rw [hmodification, Option.getD_some] at hevents
    have hentry : s.kernel.entry fd ≠ none := by
      rw [hn.entry, watched, if_neg hwas]
      simp
    obtain ⟨herror, hk, hpollable⟩ := h.valid.epollMod (v := (events, n)) hentry
    dsimp only
    rcases hmod : s.kernel.epollMod fd (events, n) with ⟨error, k⟩
    rw [hmod] at herror hk hpollable
    subst herror
    exact (h.modify hfd (hshutdown none) (hevents ▸ hne) hwas (hevents ▸ hk) hpollable).frame
      rfl rfl rfl rfl rfl

end Registered

/-! ### Registering again -/

section Reregister

variable [DecidableEq φ] {states : Nat → Registration φ} {exhausted : Nat → Option Shortage}
variable {k : FileDescriptors φ Interest} {ns : List Nat}

/-- What the interest set is after every state of a list has been registered. -/
structure Reregistered (states : Nat → Registration φ) (ns : List Nat)
    (k k' : FileDescriptors φ Interest) : Prop where
  valid : k'.Valid
  pollable : ∀ fd, k'.Pollable fd ↔ k.Pollable fd
  entry : ∀ n ∈ ns, ∃ fd, (states n).descriptor = some fd ∧ k.Pollable fd ∧
    k'.entry fd = some ((states n).registeredEvents, n)
  kept : ∀ fd, k.entry fd ≠ none → k'.entry fd = k.entry fd
  only : ∀ fd, k'.entry fd ≠ none → k.entry fd ≠ none ∨ ∃ n ∈ ns, (states n).descriptor = some fd

theorem reregister_succeeded (hk : k.Valid)
    (h : (State.reregister states exhausted ns k).1 = none) :
    Reregistered states ns k (State.reregister states exhausted ns k).2 := by
  induction ns generalizing k with
  | nil => exact ⟨hk, fun _ => Iff.rfl, nofun, fun _ _ => rfl, fun _ => Or.inl⟩
  | cons n ns ih =>
    unfold State.reregister at h ⊢
    cases hdescriptor : (states n).descriptor with
    | none => simp [hdescriptor] at h
    | some fd =>
      simp only [hdescriptor] at h ⊢
      rcases hadd : k.epollAdd fd ((states n).registeredEvents, n) (exhausted n) with ⟨error, k'⟩
      simp only [hadd] at h ⊢
      cases error with
      | some errno => cases h
      | none =>
        have hnone : (k.epollAdd fd ((states n).registeredEvents, n) (exhausted n)).1 = none := by
          rw [hadd]
        obtain ⟨hchange, hsame⟩ := hk.epollAdd hnone
        obtain ⟨hpollable, hentry, -⟩ := (FileDescriptors.epollAdd_eq_none (exhausted n)).mp hnone
        rw [hadd] at hchange hsame
        have hrest := ih hchange.valid h
        have hfd : k'.entry fd = some ((states n).registeredEvents, n) := by
          rw [hchange.entry, Function.update_self]
        have hother {fd' : φ} (hne : fd' ≠ fd) : k'.entry fd' = k.entry fd' := by
          rw [hchange.entry, Function.update_of_ne hne]
        have hsame (fd' : φ) : k'.Pollable fd' ↔ k.Pollable fd' := by
          by_cases heq : fd' = fd
          · exact heq ▸ hsame
          · exact hchange.pollable fd' heq
        constructor
        · exact hrest.valid
        · exact fun fd' => (hrest.pollable fd').trans (hsame fd')
        · intro m hm
          rcases List.mem_cons.mp hm with rfl | hm
          · exact ⟨fd, hdescriptor, hpollable, (hrest.kept fd (by simp [hfd])).trans hfd⟩
          · obtain ⟨fd', hfd', hp, he⟩ := hrest.entry m hm
            exact ⟨fd', hfd', (hsame fd').mp hp, he⟩
        · intro fd' hne
          have hneq : fd' ≠ fd := fun heq => hne (heq ▸ hentry)
          rw [hrest.kept fd' (by rwa [hother hneq]), hother hneq]
        · intro fd' hne
          rcases hrest.only fd' hne with hne | ⟨m, hm, hfd'⟩
          · by_cases heq : fd' = fd
            · exact Or.inr ⟨n, List.mem_cons_self .., heq ▸ hdescriptor⟩
            · exact Or.inl (hother heq ▸ hne)
          · exact Or.inr ⟨m, List.mem_cons_of_mem _ hm, hfd'⟩

omit [DecidableEq φ] in
theorem epollCreate_valid (hk : k.Valid) : k.epollCreate.Valid :=
  hk.of_current rfl rfl fun _ _ hne => absurd rfl hne

omit [DecidableEq φ] in
theorem entry_epollCreate (fd : φ) : k.epollCreate.entry fd = none := by
  simp [FileDescriptors.entry, FileDescriptors.epollCreate]

/-- Every live state is that of an open socket. -/
def NoOrphans (s : State ι κ φ) : Prop := ∀ n ∈ s.liveList, ∃ fd, Opened s fd (some n)

theorem Registered.notifyFork {s : State ι κ φ} (h : Registered s (Opened s))
    (horphans : NoOrphans s) (herror : (s.notifyFork exhausted).1 = none) :
    Registered (s.notifyFork exhausted).2 (Opened s) := by
  have hre : Reregistered s.states s.liveList s.kernel.epollCreate (State.reregister s.states
      exhausted s.liveList s.kernel.epollCreate).2 :=
    reregister_succeeded (epollCreate_valid h.valid) herror
  have hentry {fd : φ} {n : Nat} (hn : Attached s fd n) :
      (s.notifyFork exhausted).2.kernel.entry fd = some ((s.states n).registeredEvents, n) ∧
        s.kernel.Pollable fd := by
    obtain ⟨fd', hfd', hp, he⟩ := hre.entry n hn.live
    obtain rfl := Option.some.inj (hn.descriptor.symm.trans hfd')
    exact ⟨he, hp⟩
  refine ⟨hre.valid, ⟨h.pooled.live, h.pooled.free, h.pooled.created, h.pooled.disjoint⟩,
    h.functional, fun {fd data} hfd => ?_, fun {fd} hne => ?_, h.queues⟩
  · obtain ⟨n, rfl, hn⟩ := h.attached hfd
    obtain ⟨he, hp⟩ := hentry hn
    refine ⟨n, rfl, hn.live, hn.descriptor, hn.shutdown, ?_,
      hn.pollable.trans (hre.pollable _).symm⟩
    exact he.trans (if_neg (hn.pollable.mpr hp)).symm
  · rcases hre.only fd hne with hne | ⟨n, hn, hfd⟩
    · exact absurd (entry_epollCreate fd) hne
    · obtain ⟨fd', hfd'⟩ := horphans n hn
      obtain ⟨_, ⟨⟩, ha⟩ := h.attached hfd'
      obtain rfl := Option.some.inj (ha.descriptor.symm.trans hfd)
      exact ⟨_, hfd'⟩

end Reregister

/-! ### The open sockets -/

section Sockets

variable {s s' : State ι κ φ} {fd r : φ} {data : Option Nat}

theorem opened_congr (h : s'.impls = s.impls) (r : φ) (data : Option Nat) :
    Opened s' r data ↔ Opened s r data := by
  simp only [Opened, h]

theorem Owned.not_opened (h : Owned s) {o : Owner ι κ} (ho : Holds s o fd)
    (hne : ∀ i, o ≠ .socket i) (data : Option Nat) : ¬ Opened s fd data := by
  rintro ⟨i, x, hx, hfd, -⟩
  exact hne i (h.unique ho ⟨x, hx, hfd⟩)

theorem Owned.not_opened_of_closed (h : Owned s) (hfd : ¬ s.kernel.IsOpen fd) (data : Option Nat) :
    ¬ Opened s fd data := by
  rintro ⟨i, x, hx, hxfd, -⟩
  exact hfd (h.sound (o := .socket i) ⟨x, hx, hxfd⟩)

variable [DecidableEq ι] {i j : ι} {x y : Implementation φ}

theorem impls_setImpl_self {y : Option (Implementation φ)} : (s.setImpl i y).impls i = y :=
  Function.update_self ..

theorem impls_setImpl_of_ne {y : Option (Implementation φ)} (h : j ≠ i) :
    (s.setImpl i y).impls j = s.impls j :=
  Function.update_of_ne h ..

theorem opened_setImpl {y : Option (Implementation φ)} : Opened (s.setImpl i y) r data ↔
    (∃ j, j ≠ i ∧ ∃ x ∈ s.impls j, x.socket = some r ∧ x.reactorData = data) ∨
      ∃ x ∈ y, x.socket = some r ∧ x.reactorData = data := by
  constructor
  · rintro ⟨j, x, hx, hr⟩
    by_cases hj : j = i
    · subst hj
      exact Or.inr ⟨x, impls_setImpl_self.symm.trans hx, hr⟩
    · exact Or.inl ⟨j, hj, x, (impls_setImpl_of_ne hj).symm.trans hx, hr⟩
  · rintro (⟨j, hj, x, hx, hr⟩ | ⟨x, hx, hr⟩)
    · exact ⟨j, x, (impls_setImpl_of_ne hj).trans hx, hr⟩
    · exact ⟨i, x, impls_setImpl_self.trans hx, hr⟩

/-- A socket that is not open may get a descriptor. -/
theorem opened_setImpl_open {y : Option (Implementation φ)}
    (hi : ∀ x ∈ s.impls i, x.socket = none) : Opened (s.setImpl i y) r data ↔
      Opened s r data ∨ ∃ x ∈ y, x.socket = some r ∧ x.reactorData = data := by
  rw [opened_setImpl]
  refine or_congr ⟨fun ⟨j, _, h⟩ => ⟨j, h⟩, fun ⟨j, x, hx, hr, hdata⟩ => ?_⟩ Iff.rfl
  refine ⟨j, ?_, x, hx, hr, hdata⟩
  rintro rfl
  rw [hi x hx] at hr
  cases hr

theorem opened_setImpl_same (hx : s.impls i = some x) (hsocket : y.socket = x.socket)
    (hdata : x.socket ≠ none → y.reactorData = x.reactorData) (r : φ) (data : Option Nat) :
    Opened (s.setImpl i (some y)) r data ↔ Opened s r data := by
  rw [opened_setImpl]
  constructor
  · rintro (⟨j, -, h⟩ | ⟨_, ⟨⟩, hr, hd⟩)
    · exact ⟨j, h⟩
    · refine ⟨i, x, hx, hsocket ▸ hr, ?_⟩
      rw [← hd, hdata]
      rw [← hsocket, hr]
      simp
  · rintro ⟨j, x', hx', hr, hd⟩
    by_cases hj : j = i
    · subst hj
      obtain rfl := Option.some.inj (hx.symm.trans hx')
      refine Or.inr ⟨y, rfl, hsocket.trans hr, (hdata ?_).trans hd⟩
      rw [hr]
      simp
    · exact Or.inl ⟨j, hj, x', hx', hr, hd⟩

/-- A socket gives up its descriptor, which no other one has. -/
theorem opened_setImpl_closed (h : Owned s) {y : Option (Implementation φ)}
    (hx : s.impls i = some x) (hsocket : x.socket = some fd) (hy : ∀ y' ∈ y, y'.socket = none)
    (r : φ) (data : Option Nat) :
    Opened (s.setImpl i y) r data ↔ Opened s r data ∧ r ≠ fd := by
  rw [opened_setImpl]
  constructor
  · rintro (⟨j, hj, x', hx', hr, hd⟩ | ⟨y', hy', hr, -⟩)
    · refine ⟨⟨j, x', hx', hr, hd⟩, ?_⟩
      rintro rfl
      exact hj (Owner.socket.inj
        (h.unique (o := .socket j) (q := .socket i) ⟨x', hx', hr⟩ ⟨x, hx, hsocket⟩))
    · rw [hy y' hy'] at hr
      cases hr
  · rintro ⟨⟨j, x', hx', hr, hd⟩, hne⟩
    refine Or.inl ⟨j, ?_, x', hx', hr, hd⟩
    rintro rfl
    obtain rfl := Option.some.inj (hx.symm.trans hx')
    exact hne (Option.some.inj (hr.symm.trans hsocket))

theorem opened_moveFrom (hij : i ≠ j) (hi : ∀ x ∈ s.impls i, x.socket = none)
    (hy : s.impls j = some y) (r : φ) (data : Option Nat) :
    Opened (s.moveFrom i j y) r data ↔ Opened s r data := by
  rw [State.moveFrom, opened_setImpl]
  constructor
  · rintro (⟨l, hl, x, hx, hr, hd⟩ | ⟨_, ⟨⟩, hr, -⟩)
    · by_cases hli : l = i
      · subst hli
        cases impls_setImpl_self.symm.trans hx
        exact ⟨j, y, hy, hr, hd⟩
      · exact ⟨l, x, (impls_setImpl_of_ne hli).symm.trans hx, hr, hd⟩
    · cases hr
  · rintro ⟨l, x, hx, hr, hd⟩
    by_cases hlj : l = j
    · subst hlj
      obtain rfl := Option.some.inj (hy.symm.trans hx)
      exact Or.inl ⟨i, hij, y, impls_setImpl_self, hr, hd⟩
    · refine Or.inl ⟨l, hlj, x, (impls_setImpl_of_ne ?_).trans hx, hr, hd⟩
      rintro rfl
      rw [hi x hx] at hr
      cases hr

end Sockets

/-! ### Steps -/

section Steps

set_option linter.unusedSectionVars false

variable [DecidableEq ι] [DecidableEq κ] [DecidableEq φ] [Fintype φ]
variable {s s' : State ι κ φ} {i j : ι} {x y : Implementation φ} {fd : φ}

theorem Registered.doOpen (h : Registered s (Opened s)) (hs : Owned s) (hx : s.impls i = some x)
    (socket : Except Nat (φ × Bool)) (hunused : Unused s (socket.toOption.map Prod.fst))
    (exhausted : Option Shortage) :
    Registered (s.doOpen i x socket exhausted).2 (Opened (s.doOpen i x socket exhausted).2) := by
  unfold State.doOpen
  split
  · exact h
  · rename_i hsocket
    have hsocket : x.socket = none := by simpa using hsocket
    cases socket with
    | error errno => exact h
    | ok opened =>
      obtain ⟨fd, pollable⟩ := opened
      have hclosed : ¬ s.kernel.IsOpen fd := hunused fd rfl
      have hfresh := hs.not_opened_of_closed hclosed
      have hcreated := h.elsewhere (h.valid.create hclosed pollable) hfresh
      have hsame := State.register_sameOwners { s with kernel := s.kernel.create fd pollable } fd
        exhausted
      have hregister := hcreated.registerDescriptor hfresh exhausted
      dsimp only
      generalize State.registerDescriptor { s with kernel := s.kernel.create fd pollable } fd
        exhausted = r at hsame hregister
      obtain ⟨error, n, t⟩ := r
      have himpls : t.impls i = some x := (congrFun hsame.impls i).trans hx
      have hopened (r : φ) (data : Option Nat) : Opened t r data ↔ Opened s r data :=
        opened_congr hsame.impls r data
      cases error with
      | none =>
        refine hregister.of_eq rfl rfl rfl rfl rfl fun r data => ?_
        rw [opened_setImpl_open (by rw [himpls]; rintro _ ⟨⟩; exact hsocket), hopened]
        simp [Implementation.opened, eq_comm]
      | some errno =>
        have hregister : Registered t (Opened s) := hregister.congr fun r data => by simp
        have hkernel := closeSocket_change hregister.valid
          (Or.inl (hregister.entry_eq_none hfresh)) false
        refine (hregister.elsewhere hkernel hfresh).of_eq rfl rfl rfl rfl rfl fun r data => ?_
        refine (opened_setImpl_same (y := { x with reactorData := some n }) himpls rfl
          (fun hne => absurd hsocket hne) r data).trans (hopened r data)

theorem Registered.doAssign (h : Registered s (Opened s)) (hx : s.impls i = some x)
    (hfresh : ∀ data, ¬ Opened s fd data) (exhausted : Option Shortage) :
    Registered (s.doAssign i x fd exhausted).2 (Opened (s.doAssign i x fd exhausted).2) := by
  unfold State.doAssign
  split
  · exact h
  · rename_i hsocket
    have hsocket : x.socket = none := by simpa using hsocket
    have hsame := s.register_sameOwners fd exhausted
    have hregister := h.registerDescriptor hfresh exhausted
    generalize s.registerDescriptor fd exhausted = r at hsame hregister
    obtain ⟨error, n, t⟩ := r
    have himpls : t.impls i = some x := (congrFun hsame.impls i).trans hx
    have hopened (r : φ) (data : Option Nat) : Opened t r data ↔ Opened s r data :=
      opened_congr hsame.impls r data
    cases error with
    | none =>
      refine hregister.of_eq rfl rfl rfl rfl rfl fun r data => ?_
      rw [opened_setImpl_open (by rw [himpls]; rintro _ ⟨⟩; exact hsocket), hopened]
      simp [Implementation.opened, eq_comm]
    | some errno =>
      refine hregister.of_eq rfl rfl rfl rfl rfl fun r data => ?_
      refine (opened_setImpl_same (y := { x with reactorData := some n }) himpls rfl
        (fun hne => absurd hsocket hne) r data).trans ((hopened r data).trans ?_)
      simp

/-- What a descriptor of a socket refers to is not referred to otherwise when it is closed without
being taken from the interest set. -/
def SoleIfRegistered (s : State ι κ φ) (i : ι) : Prop :=
  ∀ x ∈ s.impls i, ∀ fd ∈ x.socket, x.possibleDup = false → s.kernel.Sole fd

instance (s : State ι κ φ) (i : ι) : Decidable (SoleIfRegistered s i) :=
  inferInstanceAs (Decidable
    (∀ x ∈ s.impls i, ∀ fd ∈ x.socket, x.possibleDup = false → s.kernel.Sole fd))

theorem Registered.destroy_setImpl (h : Registered s (Opened s)) (hs : Owned s)
    (hx : s.impls i = some x) (hsole : SoleIfRegistered s i) (refused : Bool)
    {y : Option (Implementation φ)} (hy : ∀ y' ∈ y, y'.socket = none) :
    Registered ((s.destroy x refused).setImpl i y)
      (Opened ((s.destroy x refused).setImpl i y)) := by
  have hsame := s.destroy_owners x refused
  have himpls : (s.destroy x refused).impls = s.impls := hsame.impls
  cases hsocket : x.socket with
  | none =>
    have hdestroy : s.destroy x refused = s := by
      unfold State.destroy
      rw [hsocket]
    rw [hdestroy]
    refine h.of_eq rfl rfl rfl rfl rfl fun r data => ?_
    rw [opened_setImpl_open (by rw [hx]; rintro _ ⟨⟩; exact hsocket)]
    refine or_iff_left ?_
    rintro ⟨y', hy', hr, -⟩
    rw [hy y' hy'] at hr
    cases hr
  | some fd =>
    have hfd : Opened s fd x.reactorData := ⟨i, x, hx, hsocket, rfl⟩
    refine (h.destroy hsocket hfd (hsole x hx fd hsocket) refused).of_eq rfl rfl rfl rfl rfl
      fun r data => ?_
    have hopened : Opened ((s.destroy x refused).setImpl i y) r data ↔
        Opened (s.setImpl i y) r data :=
      opened_congr (by simp only [State.setImpl, himpls]) r data
    rw [hopened]
    exact opened_setImpl_closed hs hx hsocket hy r data

theorem Registered.release_setHandle (h : Registered s (Opened s)) (hs : Owned s)
    (hx : s.impls i = some x)
    (hrelease : (match s.release i x with
      | (.ok fd, s) => s.setHandle fd true
      | (.error _, s) => s) = s') : Registered s' (Opened s') := by
  unfold State.release at hrelease
  cases hsocket : x.socket with
  | none =>
    simp only [hsocket] at hrelease
    exact hrelease ▸ h
  | some fd =>
    have hfd : Opened s fd x.reactorData := ⟨i, x, hx, hsocket, rfl⟩
    have hreleased := h.release hfd
    have hderegister := s.deregister_sameOwners fd x.reactorData false
    simp only [hsocket] at hrelease
    generalize s.deregisterDescriptor fd x.reactorData false = r at hrelease hderegister hreleased
    obtain ⟨reactorData, t⟩ := r
    have hsame : SameOwners s (t.cleanupDescriptorData reactorData) :=
      hderegister.trans (t.cleanup_sameOwners reactorData)
    subst hrelease
    refine hreleased.of_eq rfl rfl rfl rfl rfl fun r data => ?_
    have hopened : Opened (((t.cleanupDescriptorData reactorData).setImpl i
        (some { x with reactorData := none }.construct)).setHandle fd true) r data ↔
        Opened (s.setImpl i (some { x with reactorData := none }.construct)) r data :=
      opened_congr (by simp only [State.setImpl, State.setHandle, hsame.impls]) r data
    exact hopened.trans (opened_setImpl_closed hs hx hsocket (by rintro _ ⟨⟩; rfl) r data)

theorem Registered.setNonBlocking (h : Registered s (Opened s)) (hx : s.impls i = some x)
    (user value : Bool) (ioctl : Option Nat) :
    Registered (s.setNonBlocking i x user value ioctl).2
      (Opened (s.setNonBlocking i x user value ioctl).2) := by
  unfold State.setNonBlocking
  split
  · exact h
  · rename_i fd hsocket
    split
    · exact h
    · split
      · exact h
      · refine (h.same (h.valid.setNonBlocking fd value)).of_eq rfl rfl rfl rfl rfl
          fun r data => opened_setImpl_same hx ?_ (fun _ => ?_) r data
        · cases user <;> cases value <;> rfl
        · cases user <;> cases value <;> rfl

theorem setNonBlocking_opened (hx : s.impls i = some x) (user value : Bool) (ioctl : Option Nat)
    (h : (s.setNonBlocking i x user value ioctl).1 = none) :
    ∃ fd, x.socket = some fd ∧
      Opened (s.setNonBlocking i x user value ioctl).2 fd x.reactorData := by
  revert h
  unfold State.setNonBlocking
  split
  · rintro ⟨⟩
  · rename_i fd hsocket
    split
    · rintro ⟨⟩
    · split
      · rintro ⟨⟩
      · refine fun _ => ⟨fd, hsocket, (opened_setImpl_same hx ?_ (fun _ => ?_) fd _).mpr
          ⟨i, x, hx, hsocket, rfl⟩⟩
        · cases user <;> cases value <;> rfl
        · cases user <;> cases value <;> rfl

theorem Registered.startOp (h : Registered s (Opened s)) (hx : s.impls i = some x) (t : OpType)
    (op : ReactorOp) (isNonBlocking noop : Bool) (outcome : ReactorOp.Outcome)
    (ioctl : Option Nat) :
    Registered (s.startOp i x t op isNonBlocking noop outcome ioctl)
      (Opened (s.startOp i x t op isNonBlocking noop outcome ioctl)) := by
  have hstart {u : State ι κ φ} {fd : φ} (hu : Registered u (Opened u)) (hfd : x.socket = some fd)
      (hopened : Opened u fd x.reactorData) :
      Registered (u.reactorStartOp t x.socket x.reactorData op isNonBlocking outcome)
        (Opened (u.reactorStartOp t x.socket x.reactorData op isNonBlocking outcome)) := by
    have hsame := u.reactorStartOp_sameOwners t (some fd) x.reactorData op isNonBlocking outcome
    rw [hfd]
    exact (hu.reactorStartOp hopened t op isNonBlocking outcome).congr (opened_congr hsame.impls)
  unfold State.startOp
  split
  · exact h.of_eq rfl rfl rfl rfl rfl fun _ _ => Iff.rfl
  · split
    · rename_i hblocking
      cases hsocket : x.socket with
      | none => simp [Implementation.nonBlocking, x.clear hsocket] at hblocking
      | some fd => exact hsocket ▸ hstart h hsocket ⟨i, x, hx, hsocket, rfl⟩
    · have hset := h.setNonBlocking hx false true ioctl
      have hopened := setNonBlocking_opened hx false true ioctl
      generalize s.setNonBlocking i x false true ioctl = r at hset hopened
      obtain ⟨error, u⟩ := r
      cases error with
      | none =>
        obtain ⟨fd, hfd, hopened⟩ := hopened rfl
        exact hstart hset hfd hopened
      | some errno => exact hset.of_eq rfl rfl rfl rfl rfl fun _ _ => Iff.rfl

theorem Registered.cancelOps (h : Registered s (Opened s)) {n : Nat} (hfd : Opened s fd (some n)) :
    Registered (s.cancelOps (some n)) (Opened s) :=
  (h.setData n (d := (s.states n).cancelAll.2) rfl rfl (Or.inr ⟨fd, hfd⟩)).frame rfl rfl rfl rfl rfl

theorem Registered.performIo (h : Registered s (Opened s)) (n : Nat) (events : BitVec 32)
    (outcome : Nat → ReactorOp.Outcome) :
    Registered (s.performIo n events outcome) (Opened (s.performIo n events outcome)) := by
  refine (h.setData n (d := ((s.states n).performIo events outcome).2) ?_ ?_ (Or.inl ?_)).of_eq
    rfl rfl rfl rfl rfl fun _ _ => Iff.rfl
  · exact DescriptorState.performFrom_shutdown ..
  · exact DescriptorState.performFrom_registeredEvents ..
  · exact fun t ht => (s.states n).performIo_opQueue t events outcome ht

/-- What no socket has is closed. -/
theorem Registered.closeOther (h : Registered s (Opened s)) (hfresh : ∀ data, ¬ Opened s fd data)
    (refused : Bool) :
    Registered { s with kernel := closeSocket s.kernel fd refused } (Opened s) :=
  h.elsewhere (closeSocket_change h.valid (Or.inl (h.entry_eq_none hfresh)) refused) hfresh

/-- The reactor is not shut down. A descriptor is closed without being taken from the interest set
only if nothing else refers to what it does, and the child of a fork goes on if everything has been
registered again. -/
def Careful (s : State ι κ φ) : Action ι κ φ → Prop
  | .close i _ | .destroy i _ | .moveAssign i _ _ => SoleIfRegistered s i
  | .notifyFork exhausted => NoOrphans s ∧ (s.notifyFork exhausted).1 = none
  | .shutdown => False
  | _ => True

theorem Registered.step {a : Action ι κ φ} (h : Registered s (Opened s)) (hs : Owned s)
    (hok : Careful s a) (hstep : step s a = some s') : Registered s' (Opened s') := by
  cases a with
  | construct i =>
    obtain ⟨hi, ⟨⟩⟩ := Option.ite_none_right_eq_some.mp hstep
    refine h.of_eq rfl rfl rfl rfl rfl fun r data => ?_
    rw [opened_setImpl_open (by rw [Option.isNone_iff_eq_none.mp hi]; rintro _ ⟨⟩)]
    simp [Implementation.new]
  | doOpen i socket exhausted =>
    obtain ⟨x, hx, hstep⟩ := Option.bind_eq_some_iff.mp hstep
    obtain ⟨hunused, ⟨⟩⟩ := Option.ite_none_right_eq_some.mp hstep
    exact h.doOpen hs hx socket hunused exhausted
  | assign i fd exhausted =>
    obtain ⟨x, hx, hstep⟩ := Option.bind_eq_some_iff.mp hstep
    obtain ⟨hfd, hstep⟩ := Option.ite_none_right_eq_some.mp hstep
    have hassign := h.doAssign hx (hs.not_opened (o := .user) hfd (by simp)) exhausted
    generalize s.doAssign i x fd exhausted = r at hstep hassign
    obtain ⟨error, t⟩ := r
    cases error with
    | none =>
      cases hstep
      exact hassign.of_eq rfl rfl rfl rfl rfl fun _ _ => Iff.rfl
    | some errno =>
      cases hstep
      exact hassign
  | close i refused =>
    obtain ⟨x, hx, hstep⟩ := Option.bind_eq_some_iff.mp hstep
    obtain ⟨-, ⟨⟩⟩ := Option.ite_none_right_eq_some.mp hstep
    unfold State.close
    split
    · rename_i hsocket
      have hdestroy : s.destroy x refused = s := by
        unfold State.destroy
        rw [hsocket]
      rw [← hdestroy]
      exact h.destroy_setImpl hs hx hok refused (by rintro _ ⟨⟩; rfl)
    · exact h.destroy_setImpl hs hx hok refused (by rintro _ ⟨⟩; rfl)
  | destroy i refused =>
    obtain ⟨x, hx, hstep⟩ := Option.bind_eq_some_iff.mp hstep
    obtain ⟨-, ⟨⟩⟩ := Option.ite_none_right_eq_some.mp hstep
    exact h.destroy_setImpl hs hx hok refused (by rintro _ ⟨⟩)
  | release i =>
    obtain ⟨x, hx, hstep⟩ := Option.map_eq_some_iff.mp hstep
    exact h.release_setHandle hs hx hstep
  | moveConstruct i j =>
    obtain ⟨y, hy, hstep⟩ := Option.bind_eq_some_iff.mp hstep
    obtain ⟨hi, ⟨⟩⟩ := Option.ite_none_right_eq_some.mp hstep
    have hi := Option.isNone_iff_eq_none.mp hi
    have hij : i ≠ j := by
      rintro rfl
      rw [hi] at hy
      cases hy
    exact h.of_eq rfl rfl rfl rfl rfl (opened_moveFrom hij (by rw [hi]; rintro _ ⟨⟩) hy)
  | moveAssign i j refused =>
    obtain ⟨x, hx, hstep⟩ := Option.bind_eq_some_iff.mp hstep
    obtain ⟨y, hy, hstep⟩ := Option.bind_eq_some_iff.mp hstep
    obtain ⟨⟨hij, -⟩, ⟨⟩⟩ := Option.ite_none_right_eq_some.mp hstep
    have hdestroy := h.destroy_setImpl hs hx hok refused (y := none) (by rintro _ ⟨⟩)
    have hj : ((s.destroy x refused).setImpl i none).impls j = some y :=
      (impls_setImpl_of_ne hij.symm).trans
        ((congrFun (s.destroy_owners x refused).impls j).trans hy)
    refine hdestroy.of_eq rfl rfl rfl rfl rfl fun r data => ?_
    have hmoved := opened_moveFrom hij (by rw [impls_setImpl_self]; rintro _ ⟨⟩) hj r data
    have himpls : ((s.destroy x refused).moveFrom i j y).impls =
        (((s.destroy x refused).setImpl i none).moveFrom i j y).impls := by
      simp only [State.moveFrom, State.setImpl, Function.update_idem]
    exact (opened_congr himpls r data).trans hmoved
  | setNonBlocking i user value ioctl =>
    obtain ⟨x, hx, ⟨⟩⟩ := Option.map_eq_some_iff.mp hstep
    exact h.setNonBlocking hx user value ioctl
  | startOp i t op isNonBlocking noop outcome ioctl =>
    obtain ⟨x, hx, ⟨⟩⟩ := Option.map_eq_some_iff.mp hstep
    exact h.startOp hx t op isNonBlocking noop outcome ioctl
  | cancel i =>
    obtain ⟨x, hx, ⟨⟩⟩ := Option.map_eq_some_iff.mp hstep
    split
    · rename_i hsocket
      obtain ⟨fd, hfd⟩ := Option.isSome_iff_exists.mp hsocket
      have hopened : Opened s fd x.reactorData := ⟨i, x, hx, hfd, rfl⟩
      obtain ⟨n, hn, -⟩ := h.attached hopened
      rw [hn] at hopened ⊢
      exact (h.cancelOps hopened).congr (opened_congr (s.cancelOps_sameOwners (some n)).impls)
    · exact h
  | performIo n events outcome =>
    obtain ⟨-, ⟨⟩⟩ := Option.ite_none_right_eq_some.mp hstep
    exact h.performIo n events outcome
  | acceptPerform l newSocket =>
    obtain ⟨hunused, ⟨⟩⟩ := Option.ite_none_right_eq_some.mp hstep
    unfold State.acceptPerform
    cases newSocket with
    | none =>
      dsimp only [State.resetNewSocket]
      cases hl : s.newSockets l with
      | none => exact h.of_eq rfl rfl rfl rfl rfl fun _ _ => Iff.rfl
      | some old =>
        exact (h.closeOther (hs.not_opened (o := .acceptOp l) hl (by simp)) false).of_eq
          rfl rfl rfl rfl rfl fun _ _ => Iff.rfl
    | some fd =>
      have hclosed : ¬ s.kernel.IsOpen fd := hunused fd rfl
      have hcreated := h.elsewhere (h.valid.create hclosed true) (hs.not_opened_of_closed hclosed)
      dsimp only [State.resetNewSocket]
      cases hl : s.newSockets l with
      | none => exact hcreated.of_eq rfl rfl rfl rfl rfl fun _ _ => Iff.rfl
      | some old =>
        have hclose := Registered.closeOther hcreated
          (hs.not_opened (o := .acceptOp l) hl (by simp)) false
        exact hclose.of_eq rfl rfl rfl rfl rfl fun _ _ => Iff.rfl
  | acceptAssign l peer exhausted =>
    obtain ⟨x, hx, ⟨⟩⟩ := Option.map_eq_some_iff.mp hstep
    unfold State.acceptAssign
    split
    · exact h
    · rename_i fd hl
      have hassign := h.doAssign hx (hs.not_opened (o := .acceptOp l) hl (by simp)) exhausted
      generalize s.doAssign peer x fd exhausted = r at hassign
      obtain ⟨error, t⟩ := r
      cases error with
      | none => exact hassign.of_eq rfl rfl rfl rfl rfl fun _ _ => Iff.rfl
      | some errno => exact hassign
  | acceptDestroy l =>
    cases hstep
    dsimp only [State.resetNewSocket]
    cases hl : s.newSockets l with
    | none => exact h.of_eq rfl rfl rfl rfl rfl fun _ _ => Iff.rfl
    | some old =>
      exact (h.closeOther (hs.not_opened (o := .acceptOp l) hl (by simp)) false).of_eq
        rfl rfl rfl rfl rfl fun _ _ => Iff.rfl
  | createHandle fd pollable =>
    obtain ⟨hfd, ⟨⟩⟩ := Option.ite_none_left_eq_some.mp hstep
    exact (h.elsewhere (h.valid.create hfd pollable) (hs.not_opened_of_closed hfd)).of_eq
      rfl rfl rfl rfl rfl fun _ _ => Iff.rfl
  | dupHandle fd fd' =>
    obtain ⟨⟨hfd, hfd'⟩, ⟨⟩⟩ := Option.ite_none_right_eq_some.mp hstep
    obtain ⟨d, hd⟩ := Option.ne_none_iff_exists'.mp hfd
    exact (h.elsewhere (h.valid.dup hd hfd') (hs.not_opened_of_closed hfd')).of_eq
      rfl rfl rfl rfl rfl fun _ _ => Iff.rfl
  | closeHandle fd =>
    obtain ⟨hfd, ⟨⟩⟩ := Option.ite_none_right_eq_some.mp hstep
    exact (h.closeOther (hs.not_opened (o := .user) hfd (by simp)) false).of_eq
      rfl rfl rfl rfl rfl fun _ _ => Iff.rfl
  | fork =>
    cases hstep
    exact h.same (k := s.kernel.fork) (h.valid.same rfl rfl rfl rfl)
  | closeElsewhere d =>
    cases hstep
    exact (h.same (h.valid.closeElsewhere d)).of_eq rfl rfl rfl rfl rfl fun _ _ => Iff.rfl
  | notifyFork exhausted =>
    cases hstep
    exact h.notifyFork hok.1 hok.2
  | shutdown => exact hok.elim

end Steps

end Asio.Detail.ReactiveSocketServiceBase
