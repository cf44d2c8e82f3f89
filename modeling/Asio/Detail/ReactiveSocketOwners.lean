import Asio.Detail.ReactiveSocketServiceBase
import Asio.Lib.Ownership

/-! Every descriptor that is open has one owner: a socket, an operation that has accepted it, or the
user. -/

universe u v w

namespace Asio.Detail.ReactiveSocketServiceBase

open Lib Transition Epoll

variable {ι : Type u} {κ : Type v} {φ : Type w}

/-! ### What the reactor leaves as it is -/

/-- The descriptors and who has them. -/
structure SameOwners (s s' : State ι κ φ) : Prop where
  description : s'.kernel.description = s.kernel.description
  impls : s'.impls = s.impls
  newSockets : s'.newSockets = s.newSockets
  handles : s'.handles = s.handles

namespace SameOwners

variable {s s' s'' : State ι κ φ}

theorem refl (s : State ι κ φ) : SameOwners s s := ⟨rfl, rfl, rfl, rfl⟩

theorem trans (h : SameOwners s s') (h' : SameOwners s' s'') : SameOwners s s'' :=
  ⟨h'.description.trans h.description, h'.impls.trans h.impls, h'.newSockets.trans h.newSockets,
    h'.handles.trans h.handles⟩

theorem holds (h : SameOwners s s') (o : Owner ι κ) (fd : φ) : Holds s' o fd ↔ Holds s o fd := by
  cases o with
  | socket i => simp only [Holds, h.impls]
  | acceptOp k => simp only [Holds, h.newSockets]
  | user => simp only [Holds, h.handles]

theorem isOpen (h : SameOwners s s') (fd : φ) : s'.kernel.IsOpen fd ↔ s.kernel.IsOpen fd :=
  FileDescriptors.isOpen_congr h.description fd

end SameOwners

@[simp] theorem description_closeSocket [DecidableEq φ] [Fintype φ]
    (k : FileDescriptors φ Interest) (fd : φ) (refused : Bool) :
    (closeSocket k fd refused).description = Function.update k.description fd none := by
  unfold closeSocket
  split
  · rw [FileDescriptors.description_close, FileDescriptors.description_setNonBlocking]
  · rw [FileDescriptors.description_close]

namespace State

variable (s : State ι κ φ)

theorem allocate_sameOwners : SameOwners s s.allocateDescriptorState.2 := by
  unfold allocateDescriptorState
  split <;> exact ⟨rfl, rfl, rfl, rfl⟩

theorem cleanup_sameOwners (reactorData : Option Nat) :
    SameOwners s (s.cleanupDescriptorData reactorData) := by
  cases reactorData with
  | none => exact .refl s
  | some n => exact ⟨rfl, rfl, rfl, rfl⟩

theorem cancelOps_sameOwners (reactorData : Option Nat) :
    SameOwners s (s.cancelOps reactorData) := by
  cases reactorData with
  | none => exact .refl s
  | some n => exact ⟨rfl, rfl, rfl, rfl⟩

variable [DecidableEq φ]

theorem register_sameOwners (fd : φ) (exhausted : Option Shortage) :
    SameOwners s (s.registerDescriptor fd exhausted).2.2 := by
  have halloc := s.allocate_sameOwners
  unfold registerDescriptor
  generalize s.allocateDescriptorState = r at halloc
  obtain ⟨n, t⟩ := r
  dsimp only
  have hadd : (t.kernel.epollAdd fd (registeredForAll, n) exhausted).2.description =
      t.kernel.description := t.kernel.description_epollAdd exhausted
  refine halloc.trans ?_
  generalize t.kernel.epollAdd fd (registeredForAll, n) exhausted = r at hadd
  obtain ⟨error, kernel⟩ := r
  cases error with
  | none => exact ⟨hadd, rfl, rfl, rfl⟩
  | some errno =>
    dsimp only
    split <;> exact ⟨hadd, rfl, rfl, rfl⟩

theorem deregister_sameOwners (fd : φ) (reactorData : Option Nat) (closing : Bool) :
    SameOwners s (s.deregisterDescriptor fd reactorData closing).2 := by
  cases reactorData with
  | none => exact .refl s
  | some n =>
    unfold deregisterDescriptor
    dsimp only
    split
    · exact .refl s
    · refine ⟨?_, rfl, rfl, rfl⟩
      dsimp only
      split
      · exact FileDescriptors.description_epollDel
      · rfl

theorem reactorStartOp_sameOwners (t : OpType) (fd : Option φ) (reactorData : Option Nat)
    (op : ReactorOp) (allowSpeculative : Bool) (outcome : ReactorOp.Outcome) :
    SameOwners s (s.reactorStartOp t fd reactorData op allowSpeculative outcome) := by
  cases reactorData with
  | none => exact ⟨rfl, rfl, rfl, rfl⟩
  | some n =>
    refine ⟨?_, rfl, rfl, rfl⟩
    unfold reactorStartOp
    dsimp only
    split
    · rfl
    · rfl
    · exact FileDescriptors.description_epollMod

/-- With the closing of its descriptor, which everything else about a socket allows for. -/
theorem destroy_owners [Fintype φ] (x : Implementation φ) (refused : Bool) :
    SameOwners { s with kernel := x.socket.elim s.kernel (closeSocket s.kernel · refused) }
      (s.destroy x refused) := by
  unfold destroy
  cases hx : x.socket with
  | none => exact ⟨rfl, rfl, rfl, rfl⟩
  | some fd =>
    have hderegister := s.deregister_sameOwners fd x.reactorData (!x.possibleDup)
    dsimp only
    generalize s.deregisterDescriptor fd x.reactorData (!x.possibleDup) = r at hderegister
    obtain ⟨reactorData, t⟩ := r
    have hdescription : t.kernel.description = s.kernel.description := hderegister.description
    refine .trans ?_ (cleanup_sameOwners _ reactorData)
    refine ⟨?_, hderegister.impls, hderegister.newSockets, hderegister.handles⟩
    simp only [Option.elim_some, description_closeSocket, hdescription]

end State

/-! ### Giving and taking -/

section Holding

variable {s : State ι κ φ} {i : ι} {k : κ} {fd : φ}

section Sockets

variable [DecidableEq ι]

theorem holds_setImpl {x : Option (Implementation φ)} {o : Owner ι κ} {r : φ} :
    Holds (s.setImpl i x) o r ↔
      (Holds s o r ∧ o ≠ .socket i) ∨ (o = .socket i ∧ ∃ y ∈ x, y.socket = some r) := by
  cases o with
  | socket j =>
    by_cases hj : j = i
    · subst hj
      simp only [Holds, State.setImpl, Function.update_self, ne_eq, not_true, and_false, false_or,
        true_and]
    · simp only [Holds, State.setImpl, Function.update_of_ne hj, ne_eq, Owner.socket.injEq, hj,
        not_false_eq_true, and_true, false_and, or_false]
  | acceptOp k => simp [Holds, State.setImpl]
  | user => simp [Holds, State.setImpl]

/-- A socket that is not open gets a descriptor. -/
theorem holds_setImpl_open {x y : Implementation φ} (hx : s.impls i = some x)
    (hxsocket : x.socket = none) (hysocket : y.socket = some fd) (o : Owner ι κ) (r : φ) :
    Holds (s.setImpl i (some y)) o r ↔ Holds s o r ∨ (o = .socket i ∧ r = fd) := by
  rw [holds_setImpl]
  simp only [Option.mem_some_iff, exists_eq_left', hysocket, Option.some.injEq, @eq_comm _ fd]
  refine or_congr ⟨And.left, fun ho => ⟨ho, ?_⟩⟩ Iff.rfl
  rintro rfl
  obtain ⟨y, hy, hr⟩ := ho
  obtain rfl := Option.some.inj (hx.symm.trans hy)
  rw [hxsocket] at hr
  cases hr

/-- A socket gives up its descriptor. -/
theorem holds_setImpl_closed {x : Implementation φ} {y : Option (Implementation φ)}
    (hx : s.impls i = some x) (hxsocket : x.socket = some fd) (hy : ∀ y' ∈ y, y'.socket = none)
    (o : Owner ι κ) (r : φ) :
    Holds (s.setImpl i y) o r ↔ Holds s o r ∧ ¬ (o = .socket i ∧ r = fd) := by
  rw [holds_setImpl]
  constructor
  · rintro (⟨ho, hne⟩ | ⟨-, y', hy', hr⟩)
    · exact ⟨ho, fun h => hne h.1⟩
    · rw [hy y' hy'] at hr
      cases hr
  · rintro ⟨ho, hne⟩
    refine Or.inl ⟨ho, ?_⟩
    rintro rfl
    obtain ⟨y, hy, hr⟩ := ho
    obtain rfl := Option.some.inj (hx.symm.trans hy)
    rw [hxsocket] at hr
    exact hne ⟨rfl, (Option.some.inj hr).symm⟩

/-- Something about a socket changes, but not its descriptor. -/
theorem holds_setImpl_same {x y : Option (Implementation φ)} (hx : s.impls i = x)
    (hsocket : y.bind (·.socket) = x.bind (·.socket)) (o : Owner ι κ) (r : φ) :
    Holds (s.setImpl i y) o r ↔ Holds s o r := by
  rw [holds_setImpl]
  have hholds : Holds s (.socket i) r ↔ x.bind (·.socket) = some r := by
    rw [Holds, hx, Option.bind_eq_some_iff]
    rfl
  have hy : (∃ y' ∈ y, y'.socket = some r) ↔ y.bind (·.socket) = some r := by
    rw [Option.bind_eq_some_iff]
    rfl
  rw [hy, hsocket, ← hholds]
  by_cases ho : o = .socket i
  · simp [ho]
  · simp [ho]

end Sockets

section AcceptOps

variable [DecidableEq κ]

theorem holds_setNewSocket {newSocket : Option φ} {o : Owner ι κ} {r : φ} :
    Holds (s.setNewSocket k newSocket) o r ↔
      (Holds s o r ∧ o ≠ .acceptOp k) ∨ (o = .acceptOp k ∧ newSocket = some r) := by
  cases o with
  | socket i => simp [Holds, State.setNewSocket]
  | acceptOp k' =>
    by_cases hk : k' = k
    · simp [Holds, State.setNewSocket, hk]
    · simp [Holds, State.setNewSocket, hk]
  | user => simp [Holds, State.setNewSocket]

theorem holds_setNewSocket_taken (hk : s.newSockets k = none) (o : Owner ι κ) (r : φ) :
    Holds (s.setNewSocket k (some fd)) o r ↔ Holds s o r ∨ (o = .acceptOp k ∧ r = fd) := by
  rw [holds_setNewSocket]
  simp only [Option.some.injEq, @eq_comm _ fd]
  refine or_congr ⟨And.left, fun ho => ⟨ho, ?_⟩⟩ Iff.rfl
  rintro rfl
  rw [Holds, hk] at ho
  cases ho

theorem holds_setNewSocket_given (hk : s.newSockets k = some fd) (o : Owner ι κ) (r : φ) :
    Holds (s.setNewSocket k none) o r ↔ Holds s o r ∧ ¬ (o = .acceptOp k ∧ r = fd) := by
  rw [holds_setNewSocket]
  simp only [reduceCtorEq, and_false, or_false]
  refine and_congr_right fun ho => ⟨fun hne h => hne h.1, fun hne h => hne ⟨h, ?_⟩⟩
  subst h
  rw [Holds, hk] at ho
  exact (Option.some.inj ho).symm

end AcceptOps

section Handles

variable [DecidableEq φ]

theorem holds_setHandle_true (o : Owner ι κ) (r : φ) :
    Holds (s.setHandle fd true) o r ↔ Holds s o r ∨ (o = .user ∧ r = fd) := by
  cases o with
  | socket i => simp [Holds, State.setHandle]
  | acceptOp k => simp [Holds, State.setHandle]
  | user =>
    by_cases hr : r = fd
    · simp [Holds, State.setHandle, hr]
    · simp [Holds, State.setHandle, hr]

theorem holds_setHandle_false (o : Owner ι κ) (r : φ) :
    Holds (s.setHandle fd false) o r ↔ Holds s o r ∧ ¬ (o = .user ∧ r = fd) := by
  cases o with
  | socket i => simp [Holds, State.setHandle]
  | acceptOp k => simp [Holds, State.setHandle]
  | user =>
    by_cases hr : r = fd
    · simp [Holds, State.setHandle, hr]
    · simp [Holds, State.setHandle, hr]

end Handles

end Holding

/-! ### Runs -/

/-- Every open descriptor has one owner, and what has an owner is open. -/
def Owned (s : State ι κ φ) : Prop := Exclusive s.kernel.IsOpen (Holds s)

theorem SameOwners.owned {s s' : State ι κ φ} (h : SameOwners s s') (hs : Owned s) : Owned s' :=
  hs.congr h.isOpen h.holds

section Steps

variable [DecidableEq φ] {s s' : State ι κ φ} {k k' : FileDescriptors φ Interest} {fd : φ} {d : Nat}

theorem isOpen_described (h : k'.description = Function.update k.description fd (some d)) (r : φ) :
    k'.IsOpen r ↔ k.IsOpen r ∨ r = fd := by
  rw [FileDescriptors.IsOpen, FileDescriptors.IsOpen, h]
  by_cases hr : r = fd
  · simp [hr]
  · simp [hr]

theorem isOpen_closed (h : k'.description = Function.update k.description fd none) (r : φ) :
    k'.IsOpen r ↔ k.IsOpen r ∧ r ≠ fd := by
  rw [FileDescriptors.IsOpen, FileDescriptors.IsOpen, h]
  by_cases hr : r = fd
  · simp [hr]
  · simp [hr]

section Sockets

set_option linter.unusedSectionVars false

variable [DecidableEq ι] [DecidableEq κ] [Fintype φ] {i j : ι} {x y : Implementation φ}

theorem doOpen_owned (hs : Owned s) (hx : s.impls i = some x) (socket : Except Nat (φ × Bool))
    (hunused : Unused s (socket.toOption.map Prod.fst)) (exhausted : Option Shortage) :
    Owned (s.doOpen i x socket exhausted).2 := by
  unfold State.doOpen
  split
  · exact hs
  · rename_i hsocket
    cases socket with
    | error errno => exact hs
    | ok opened =>
      obtain ⟨fd, pollable⟩ := opened
      have hfd : ¬ s.kernel.IsOpen fd := hunused fd rfl
      have hsame := State.register_sameOwners { s with kernel := s.kernel.create fd pollable } fd
        exhausted
      dsimp only
      generalize State.registerDescriptor { s with kernel := s.kernel.create fd pollable } fd
        exhausted = r at hsame
      obtain ⟨error, n, t⟩ := r
      have hdescription : t.kernel.description =
          Function.update s.kernel.description fd (some s.kernel.next) := hsame.description
      have himpls : t.impls i = some x := (congrFun hsame.impls i).trans hx
      have hholds (o : Owner ι κ) (r : φ) : Holds t o r ↔ Holds s o r := hsame.holds o r
      cases error with
      | none =>
        refine Exclusive.acquire (o := .socket i) hs hfd (isOpen_described hdescription)
          fun o r => ?_
        rw [holds_setImpl_open himpls (by simpa using hsocket) rfl, hholds]
      | some errno =>
        have hclosed : (closeSocket t.kernel fd false).description = s.kernel.description := by
          rw [description_closeSocket, hdescription, Function.update_idem]
          exact Function.update_eq_self_iff.mpr (Not.imp_symm id hfd).symm
        refine Exclusive.congr hs (FileDescriptors.isOpen_congr hclosed) fun o r => ?_
        have hsame := holds_setImpl_same (y := some { x with reactorData := some n }) himpls rfl o r
        exact hsame.trans (hholds o r)

/-- What is assigned goes to the socket besides who has it, unless there is an error. -/
theorem doAssign_holds (hx : s.impls i = some x) (fd : φ) (exhausted : Option Shortage) :
    (s.doAssign i x fd exhausted).2.kernel.description = s.kernel.description ∧
    (s.doAssign i x fd exhausted).2.newSockets = s.newSockets ∧
    ∀ o r, Holds (s.doAssign i x fd exhausted).2 o r ↔
      Holds s o r ∨ ((s.doAssign i x fd exhausted).1 = none ∧ o = .socket i ∧ r = fd) := by
  unfold State.doAssign
  split
  · exact ⟨rfl, rfl, fun o r => by simp⟩
  · rename_i hsocket
    have hsame := s.register_sameOwners fd exhausted
    generalize s.registerDescriptor fd exhausted = r at hsame
    obtain ⟨error, n, t⟩ := r
    have himpls : t.impls i = some x := (congrFun hsame.impls i).trans hx
    have hholds (o : Owner ι κ) (r : φ) : Holds t o r ↔ Holds s o r := hsame.holds o r
    cases error with
    | none =>
      refine ⟨hsame.description, hsame.newSockets, fun o r => ?_⟩
      dsimp only
      rw [holds_setImpl_open himpls (by simpa using hsocket) rfl, hholds]
      simp only [true_and]
    | some errno =>
      refine ⟨hsame.description, hsame.newSockets, fun o r => ?_⟩
      dsimp only
      rw [holds_setImpl_same (y := some { x with reactorData := some n }) himpls rfl, hholds]
      simp only [reduceCtorEq, false_and, or_false]

theorem assign_owned (hs : Owned s) (hx : s.impls i = some x) (hfd : s.handles fd = true)
    (exhausted : Option Shortage)
    (h : (match s.doAssign i x fd exhausted with
      | (none, s) => s.setHandle fd false
      | (some _, s) => s) = s') : Owned s' := by
  obtain ⟨hdescription, -, hholds⟩ := doAssign_holds hx fd exhausted
  generalize s.doAssign i x fd exhausted = r at h hdescription hholds
  obtain ⟨error, t⟩ := r
  have hopen := FileDescriptors.isOpen_congr hdescription
  cases error with
  | none =>
    subst h
    refine Exclusive.handOver (o := .user) (q := .socket i) hs hfd (by simp) hopen fun o r => ?_
    rw [holds_setHandle_false, hholds]
    simp only [true_and]
  | some errno =>
    subst h
    exact Exclusive.congr hs hopen fun o r => (hholds o r).trans (by simp)

theorem acceptAssign_owned (hs : Owned s) (hx : s.impls i = some x) (l : κ)
    (exhausted : Option Shortage) : Owned (s.acceptAssign l i x exhausted).2 := by
  unfold State.acceptAssign
  split
  · exact hs
  · rename_i fd hl
    obtain ⟨hdescription, hnewSockets, hholds⟩ := doAssign_holds hx fd exhausted
    generalize s.doAssign i x fd exhausted = r at hdescription hnewSockets hholds
    obtain ⟨error, t⟩ := r
    have hopen := FileDescriptors.isOpen_congr hdescription
    cases error with
    | none =>
      refine Exclusive.handOver (o := .acceptOp l) (q := .socket i) hs hl (by simp) hopen
        fun o r => ?_
      rw [holds_setNewSocket_given ((congrFun hnewSockets l).trans hl), hholds]
      simp only [true_and]
    | some errno => exact Exclusive.congr hs hopen fun o r => (hholds o r).trans (by simp)

/-- A socket that is closed, destroyed or assigned to gives up its descriptor. -/
theorem destroy_owned (hs : Owned s) (hx : s.impls i = some x) (refused : Bool)
    {y : Option (Implementation φ)} (hy : ∀ y' ∈ y, y'.socket = none) :
    Owned ((s.destroy x refused).setImpl i y) := by
  have hsame := s.destroy_owners x refused
  have himpls : (s.destroy x refused).impls i = some x := (congrFun hsame.impls i).trans hx
  cases hsocket : x.socket with
  | none =>
    rw [hsocket] at hsame
    refine Exclusive.congr hs hsame.isOpen fun o r => ?_
    have hbind : y.bind (·.socket) = (some x).bind (·.socket) := by
      rw [Option.bind_some, hsocket, Option.bind_eq_none_iff]
      exact hy
    rw [holds_setImpl_same himpls hbind]
    exact hsame.holds o r
  | some fd =>
    rw [hsocket] at hsame
    refine Exclusive.dispose (o := .socket i) hs ⟨x, hx, hsocket⟩ (r := fd) (isOpen_closed ?_)
      fun o r => ?_
    · exact hsame.description.trans (description_closeSocket _ _ _)
    · rw [holds_setImpl_closed himpls hsocket hy]
      exact and_congr_left' (hsame.holds o r)

theorem release_owned (hs : Owned s) (hx : s.impls i = some x)
    (h : (match s.release i x with
      | (.ok fd, s) => s.setHandle fd true
      | (.error _, s) => s) = s') : Owned s' := by
  unfold State.release at h
  cases hsocket : x.socket with
  | none =>
    simp only [hsocket] at h
    exact h ▸ hs
  | some fd =>
    have hderegister := s.deregister_sameOwners fd x.reactorData false
    simp only [hsocket] at h
    generalize s.deregisterDescriptor fd x.reactorData false = r at h hderegister
    obtain ⟨reactorData, t⟩ := r
    have hsame : SameOwners s (t.cleanupDescriptorData reactorData) :=
      hderegister.trans (t.cleanup_sameOwners reactorData)
    subst h
    refine Exclusive.transfer (o := .socket i) (q := .user) hs ⟨x, hx, hsocket⟩ (r := fd)
      hsame.isOpen fun o r => ?_
    rw [holds_setHandle_true, holds_setImpl_closed ((congrFun hsame.impls i).trans hx) hsocket
      (by rintro _ ⟨⟩; rfl), hsame.holds]

/-- What a socket gives to another one that is not open. -/
theorem moveFrom_owned (hs : Owned s) (hij : i ≠ j) (hi : ∀ x ∈ s.impls i, x.socket = none)
    (hy : s.impls j = some y) : Owned (s.moveFrom i j y) := by
  have hemptied : ∀ y' ∈ some { y with reactorData := none }.construct, y'.socket = none := by
    rintro _ ⟨⟩
    rfl
  have hj : (s.setImpl i (some y)).impls j = some y := (Function.update_of_ne hij.symm ..).trans hy
  cases hsocket : y.socket with
  | none =>
    refine Exclusive.congr hs (fun _ => Iff.rfl) fun o r => ?_
    rw [State.moveFrom, holds_setImpl_same hj (by simp [hsocket, Implementation.construct]),
      holds_setImpl_same rfl]
    rw [Option.bind_some, hsocket]
    exact (Option.bind_eq_none_iff.mpr hi).symm
  | some fd =>
    have hholds (o : Owner ι κ) (r : φ) : Holds (s.setImpl i (some y)) o r ↔
        Holds s o r ∨ (o = .socket i ∧ r = fd) := by
      rw [holds_setImpl]
      simp only [Option.mem_some_iff, exists_eq_left', hsocket, Option.some.injEq, @eq_comm _ fd]
      refine or_congr ⟨And.left, fun ho => ⟨ho, ?_⟩⟩ Iff.rfl
      rintro rfl
      obtain ⟨x, hx, hr⟩ := ho
      rw [hi x hx] at hr
      cases hr
    refine Exclusive.handOver (o := .socket j) (q := .socket i) hs ⟨y, hy, hsocket⟩ (r := fd)
      (fun h => hij (Owner.socket.inj h)) (fun _ => Iff.rfl) fun o r => ?_
    rw [State.moveFrom, holds_setImpl_closed hj hsocket hemptied, hholds]

/-- A holder that is reset closes what it has. -/
theorem resetNewSocket_owned (hs : Owned s) (l : κ) : Owned (s.resetNewSocket l none) := by
  unfold State.resetNewSocket
  cases hl : s.newSockets l with
  | none =>
    refine Exclusive.congr hs (fun _ => Iff.rfl) fun o r => ?_
    dsimp only
    rw [holds_setNewSocket]
    simp only [reduceCtorEq, and_false, or_false, and_iff_left_iff_imp]
    rintro ho rfl
    rw [Holds, hl] at ho
    cases ho
  | some fd =>
    exact Exclusive.dispose (o := .acceptOp l) hs hl
      (isOpen_closed (description_closeSocket _ _ _)) (holds_setNewSocket_given hl)

/-- What an operation has accepted takes the place of what its holder had. -/
theorem acceptPerform_owned (hs : Owned s) (l : κ) {newSocket : Option φ}
    (hunused : Unused s newSocket) : Owned (s.acceptPerform l newSocket) := by
  unfold State.acceptPerform
  cases newSocket with
  | none => exact resetNewSocket_owned hs l
  | some fd =>
    have hfd : ¬ s.kernel.IsOpen fd := hunused fd rfl
    have hcreated (r : φ) : (s.kernel.create fd true).IsOpen r ↔ s.kernel.IsOpen r ∨ r = fd :=
      isOpen_described rfl r
    dsimp only [State.resetNewSocket]
    cases hl : s.newSockets l with
    | none => exact Exclusive.acquire hs hfd hcreated (holds_setNewSocket_taken hl)
    | some old =>
      have hholds : Holds s (.acceptOp l) old := hl
      have hold : s.kernel.IsOpen old := hs.sound hholds
      have hclosed : Exclusive (fun r => s.kernel.IsOpen r ∧ r ≠ old)
          fun o r => Holds s o r ∧ ¬ (o = .acceptOp l ∧ r = old) :=
        hs.dispose hholds (fun _ => Iff.rfl) fun _ _ => Iff.rfl
      refine hclosed.acquire (r := fd) (o := .acceptOp l) (fun h => hfd h.1) (fun r => ?_)
        fun o r => ?_
      · refine (isOpen_closed (description_closeSocket _ old false) r).trans ?_
        rw [hcreated]
        constructor
        · rintro ⟨hr | hr, hne⟩
          · exact Or.inl ⟨hr, hne⟩
          · exact Or.inr hr
        · rintro (⟨hr, hne⟩ | rfl)
          · exact ⟨Or.inl hr, hne⟩
          · exact ⟨Or.inr rfl, fun h => hfd (h ▸ hold)⟩
      · change Holds (s.setNewSocket l (some fd)) o r ↔ _
        refine holds_setNewSocket.trans (or_congr (and_congr_right fun ho => ?_) ?_)
        · refine not_congr ⟨fun h => ⟨h, ?_⟩, And.left⟩
          subst h
          rw [Holds, hl] at ho
          exact (Option.some.inj ho).symm
        · rw [Option.some.injEq, @eq_comm _ fd]

/-- Neither flags nor what an operation does concern the descriptors. -/
theorem setNonBlocking_owned (hs : Owned s) (hx : s.impls i = some x) (user value : Bool)
    (ioctl : Option Nat) : Owned (s.setNonBlocking i x user value ioctl).2 := by
  unfold State.setNonBlocking
  split
  · exact hs
  · rename_i fd hsocket
    split
    · exact hs
    · split
      · exact hs
      · dsimp only
        refine Exclusive.congr hs (fun r => ?_) fun o r => ?_
        · rw [FileDescriptors.IsOpen, FileDescriptors.description_setNonBlocking]
          rfl
        · change Holds (s.setImpl i _) o r ↔ _
          refine holds_setImpl_same hx ?_ o r
          cases user <;> cases value <;> rfl

theorem startOp_owned (hs : Owned s) (hx : s.impls i = some x) (t : OpType) (op : ReactorOp)
    (isNonBlocking noop : Bool) (outcome : ReactorOp.Outcome) (ioctl : Option Nat) :
    Owned (s.startOp i x t op isNonBlocking noop outcome ioctl) := by
  unfold State.startOp
  split
  · exact hs
  · split
    · exact (s.reactorStartOp_sameOwners t x.socket x.reactorData op isNonBlocking outcome).owned hs
    · have hset := setNonBlocking_owned hs hx false true ioctl
      generalize s.setNonBlocking i x false true ioctl = r at hset
      obtain ⟨error, u⟩ := r
      cases error with
      | none =>
        exact (u.reactorStartOp_sameOwners t x.socket x.reactorData op isNonBlocking outcome).owned
          hset
      | some errno => exact hset

/-- The states that are registered are other than descriptors. -/
theorem reregister_description (states : Nat → Registration φ) (exhausted : Nat → Option Shortage)
    (ns : List Nat) (k : FileDescriptors φ Interest) :
    (State.reregister states exhausted ns k).2.description = k.description := by
  induction ns generalizing k with
  | nil => rfl
  | cons n ns ih =>
    unfold State.reregister
    split
    · rfl
    · rename_i fd hfd
      have hadd : (k.epollAdd fd ((states n).registeredEvents, n) (exhausted n)).2.description =
          k.description := k.description_epollAdd (exhausted n)
      split
      · rename_i k' hk'
        rw [hk'] at hadd
        exact (ih k').trans hadd
      · rename_i errno k' hk'
        rw [hk'] at hadd
        exact hadd

/-- Every action leaves every open descriptor with one owner. -/
theorem Owned.step {a : Action ι κ φ} (hs : Owned s) (h : step s a = some s') : Owned s' := by
  cases a with
  | construct i =>
    obtain ⟨hi, ⟨⟩⟩ := Option.ite_none_right_eq_some.mp h
    refine Exclusive.congr hs (fun _ => Iff.rfl) ?_
    exact holds_setImpl_same (Option.isNone_iff_eq_none.mp hi) rfl
  | doOpen i socket exhausted =>
    obtain ⟨x, hx, h⟩ := Option.bind_eq_some_iff.mp h
    obtain ⟨hunused, ⟨⟩⟩ := Option.ite_none_right_eq_some.mp h
    exact doOpen_owned hs hx socket hunused exhausted
  | assign i fd exhausted =>
    obtain ⟨x, hx, h⟩ := Option.bind_eq_some_iff.mp h
    obtain ⟨hfd, h⟩ := Option.ite_none_right_eq_some.mp h
    exact assign_owned hs hx hfd exhausted (Option.some.inj h)
  | close i refused =>
    obtain ⟨x, hx, h⟩ := Option.bind_eq_some_iff.mp h
    obtain ⟨-, ⟨⟩⟩ := Option.ite_none_right_eq_some.mp h
    unfold State.close
    split
    · rename_i hsocket
      have hdestroy : s.destroy x refused = s := by
        unfold State.destroy
        rw [hsocket]
      rw [← hdestroy]
      exact destroy_owned hs hx refused (by rintro _ ⟨⟩; rfl)
    · exact destroy_owned hs hx refused (by rintro _ ⟨⟩; rfl)
  | destroy i refused =>
    obtain ⟨x, hx, h⟩ := Option.bind_eq_some_iff.mp h
    obtain ⟨-, ⟨⟩⟩ := Option.ite_none_right_eq_some.mp h
    exact destroy_owned hs hx refused nofun
  | release i =>
    obtain ⟨x, hx, h⟩ := Option.map_eq_some_iff.mp h
    exact release_owned hs hx h
  | moveConstruct i j =>
    obtain ⟨y, hy, h⟩ := Option.bind_eq_some_iff.mp h
    obtain ⟨hi, ⟨⟩⟩ := Option.ite_none_right_eq_some.mp h
    have hi := Option.isNone_iff_eq_none.mp hi
    have hij : i ≠ j := by
      rintro rfl
      rw [hi] at hy
      cases hy
    exact moveFrom_owned hs hij (by rw [hi]; nofun) hy
  | moveAssign i j refused =>
    obtain ⟨x, hx, h⟩ := Option.bind_eq_some_iff.mp h
    obtain ⟨y, hy, h⟩ := Option.bind_eq_some_iff.mp h
    obtain ⟨⟨hij, -⟩, ⟨⟩⟩ := Option.ite_none_right_eq_some.mp h
    have hmoved : (s.destroy x refused).moveFrom i j y =
        ((s.destroy x refused).setImpl i none).moveFrom i j y := by
      simp only [State.moveFrom, State.setImpl, Function.update_idem]
    rw [hmoved]
    refine moveFrom_owned (destroy_owned hs hx refused nofun) hij ?_ ?_
    · simp [State.setImpl]
    · refine (Function.update_of_ne hij.symm ..).trans ?_
      exact (congrFun (s.destroy_owners x refused).impls j).trans hy
  | setNonBlocking i user value ioctl =>
    obtain ⟨x, hx, ⟨⟩⟩ := Option.map_eq_some_iff.mp h
    exact setNonBlocking_owned hs hx user value ioctl
  | startOp i t op isNonBlocking noop outcome ioctl =>
    obtain ⟨x, hx, ⟨⟩⟩ := Option.map_eq_some_iff.mp h
    exact startOp_owned hs hx t op isNonBlocking noop outcome ioctl
  | cancel i =>
    obtain ⟨x, hx, ⟨⟩⟩ := Option.map_eq_some_iff.mp h
    split
    · exact (s.cancelOps_sameOwners x.reactorData).owned hs
    · exact hs
  | performIo n events outcome =>
    obtain ⟨-, ⟨⟩⟩ := Option.ite_none_right_eq_some.mp h
    exact SameOwners.owned ⟨rfl, rfl, rfl, rfl⟩ hs
  | acceptPerform l newSocket =>
    obtain ⟨hunused, ⟨⟩⟩ := Option.ite_none_right_eq_some.mp h
    exact acceptPerform_owned hs l hunused
  | acceptAssign l peer exhausted =>
    obtain ⟨x, hx, ⟨⟩⟩ := Option.map_eq_some_iff.mp h
    exact acceptAssign_owned hs hx l exhausted
  | acceptDestroy l =>
    cases h
    exact resetNewSocket_owned hs l
  | createHandle fd pollable =>
    obtain ⟨hfd, ⟨⟩⟩ := Option.ite_none_left_eq_some.mp h
    exact Exclusive.acquire hs hfd (isOpen_described rfl) holds_setHandle_true
  | dupHandle fd fd' =>
    obtain ⟨⟨hfd, hfd'⟩, ⟨⟩⟩ := Option.ite_none_right_eq_some.mp h
    obtain ⟨d, hd⟩ := Option.ne_none_iff_exists'.mp hfd
    have hdescription : (s.kernel.dup fd fd').description =
        Function.update s.kernel.description fd' (some d) :=
      congrArg (Function.update s.kernel.description fd') hd
    exact Exclusive.acquire hs hfd' (isOpen_described hdescription) holds_setHandle_true
  | closeHandle fd =>
    obtain ⟨hfd, ⟨⟩⟩ := Option.ite_none_right_eq_some.mp h
    exact Exclusive.dispose (o := .user) hs hfd
      (isOpen_closed (FileDescriptors.description_close _ _)) holds_setHandle_false
  | fork =>
    cases h
    exact SameOwners.owned ⟨rfl, rfl, rfl, rfl⟩ hs
  | closeElsewhere d =>
    cases h
    exact SameOwners.owned ⟨FileDescriptors.description_forget _, rfl, rfl, rfl⟩ hs
  | notifyFork exhausted =>
    cases h
    exact SameOwners.owned ⟨reregister_description _ _ _ _, rfl, rfl, rfl⟩ hs
  | shutdown =>
    cases h
    exact SameOwners.owned ⟨rfl, rfl, rfl, rfl⟩ hs

end Sockets

end Steps

theorem not_holds_initial (o : Owner ι κ) (fd : φ) : ¬ Holds (initial : State ι κ φ) o fd := by
  cases o with
  | socket i => exact fun ⟨_, hx, _⟩ => absurd hx nofun
  | acceptOp k => nofun
  | user => nofun

theorem initial_owned : Owned (initial : State ι κ φ) where
  sound ho := (not_holds_initial _ _ ho).elim
  unique ho := (not_holds_initial _ _ ho).elim
  covered h := absurd rfl h

section Runs

variable [DecidableEq ι] [DecidableEq κ] [DecidableEq φ] [Fintype φ] {s : State ι κ φ}
variable {ok : State ι κ φ → Action ι κ φ → Prop}

end Runs

end Asio.Detail.ReactiveSocketServiceBase
