import Asio.Lib.Partition
import Asio.Detail.WinObjectHandleService

/-! Runs of the waits for object handles: who owns an implementation, and where its waits are. -/

universe u v w z

namespace Asio.Detail.WinObjectHandleService

open Lib LinkedList Transition

set_option linter.unusedSectionVars false

variable {σ : Type u} {α : Type v} {η : Type z} {ω : Type w}
variable [DecidableEq α] [DecidableEq ω] [DecidableEq σ] {s s' : State σ α η ω}

/-! ### What a step can do -/

/-- The wait and the operations that a call has taken out of its implementation. -/
def Call.released? : Call α ω → Option (Option Nat × List ω)
  | .cancelling waitHandle ops | .closing waitHandle ops _ | .destroying waitHandle ops =>
    some (waitHandle, ops)
  | _ => none

/-- The object that is moved from. -/
def Call.source? : Call α ω → Option α
  | .closing _ _ source => source
  | .assigning source | .unregistering source | .registering source => some source
  | _ => none

def Call.isDestroying : Call α ω → Bool
  | .destroying _ _ => true
  | _ => false

namespace State

/-- The object can be used by a call. -/
def Ready (s : State σ α η ω) (a : α) (k : σ) : Prop :=
  (s.impl a).service = some k ∧ (s.impl a).call = .idle

def start (s : State σ α η ω) (k : σ) (op : ω) : State σ α η ω :=
  { s with started := s.started ++ [(k, op)] }

/-- The implementation with the wait and the operations of `a`, and nothing left to `a`. -/
def taken (s : State σ α η ω) (a : α) (call : Call α ω) : State σ α η ω :=
  s.setImpl a ((s.impl a).release call)

end State

/-- An object is constructed or assigned a handle, or a wait is started on it. -/
inductive Starting (s : State σ α η ω) : State σ α η ω → Prop
  | same : Starting s s
  | construct {a k} (hnone : (s.impl a).service = none) : Starting s ((s.link k a).setImpl a
      { (.fresh : Implementation σ α η ω) with owner := some k, service := some k })
  | assign {a k handle} (hready : s.Ready a k) (hclosed : (s.impl a).handle = none) :
    Starting s (s.setImpl a { s.impl a with handle := handle })
  | reject {a k op ec} (hready : s.Ready a k) (hfresh : op ∉ s.started.map Prod.snd) :
    Starting s ((s.start k op).post k [(op, ec)])
  | enqueue {a k op} (hready : s.Ready a k) (hfresh : op ∉ s.started.map Prod.snd)
    (hopen : (s.impl a).isOpen = true) (hqueue : (s.impl a).opQueue ≠ []) :
    Starting s ((s.start k op).setImpl a
      { s.impl a with opQueue := (s.impl a).opQueue ++ [op] })
  | watch {a k op} (hready : s.Ready a k) (hfresh : op ∉ s.started.map Prod.snd)
    (hopen : (s.impl a).isOpen = true) (hqueue : (s.impl a).opQueue = []) :
    Starting s (((s.start k op).setImpl a { s.impl a with opQueue := [op] }).registerWait a)

/-- A call takes the wait and the operations of an object, and completes them. -/
inductive Taking (s : State σ α η ω) : State σ α η ω → Prop
  | take {a k call} (hready : s.Ready a k) (hopen : (s.impl a).isOpen = true)
    (hcall : call.released? = some ((s.impl a).waitHandle, (s.impl a).opQueue))
    (hdestroying : call.isDestroying = false) (hsource : call.source? = none) :
    Taking s (s.taken a call)
  | destroyOpen {a k} (hready : s.Ready a k) (hopen : (s.impl a).isOpen = true) :
    Taking s ({ s with lists := s.lists.unlink k a }.taken a
      (.destroying (s.impl a).waitHandle (s.impl a).opQueue))
  | destroyClosed {a k} (hready : s.Ready a k) (hclosed : (s.impl a).handle = none) :
    Taking s ({ s with lists := s.lists.unlink k a }.setImpl a { s.impl a with service := none })
  | takeAssign {a source k} (hready : s.Ready a k) (hready' : s.Ready source k)
    (hne : a ≠ source) (hopen : (s.impl a).isOpen = true) :
    Taking s ((s.setCall source .lent).taken a
      (.closing (s.impl a).waitHandle (s.impl a).opQueue (some source)))
  | complete {a k waitHandle ops t handle} (hservice : (s.impl a).service = some k)
    (hcall : (s.impl a).call.released? = some (waitHandle, ops))
    (hun : s.unregister waitHandle = some t)
    (hhandle : handle = (s.impl a).handle ∨ handle = none) :
    Taking s ((t.setImpl a { t.impl a with
      handle := handle
      service := if (s.impl a).call.isDestroying then none else (s.impl a).service
      call := (s.impl a).call.source?.elim .idle .assigning }).post k (State.aborted ops))

/-- An object is moved from. -/
inductive Moving (s : State σ α η ω) : State σ α η ω → Prop
  | moveConstruct {a source k} (hnone : (s.impl a).service = none) (hready : s.Ready source k) :
    Moving s ((((s.link k a).setImpl a
      { (.fresh : Implementation σ α η ω) with service := some k }).setCall source .lent).moveFrom
        k a source)
  | moveAssign {a source k} (hready : s.Ready a k) (hready' : s.Ready source k)
    (hne : a ≠ source) (hclosed : (s.impl a).handle = none) :
    Moving s ((s.setCall source .lent).setCall a (.assigning source))
  | moveAssigned {a source k} (hservice : (s.impl a).service = some k)
    (hcall : (s.impl a).call = .assigning source) : Moving s (s.moveFrom k a source)
  | unregistered {a source t} (hcall : (s.impl a).call = .unregistering source)
    (hun : s.unregister (s.impl a).waitHandle = some t) :
    Moving s (t.setCall a (.registering source))
  | moved {a source} (hcall : (s.impl a).call = .registering source)
    (hqueue : (s.impl a).opQueue = []) : Moving s ((s.setCall source .idle).setCall a .idle)
  | rewatch {a source} (hcall : (s.impl a).call = .registering source)
    (hqueue : (s.impl a).opQueue ≠ []) :
    Moving s (((s.registerWait a).setCall source .idle).setCall a .idle)
  | abandon {a source k} (hservice : (s.impl a).service = some k)
    (hcall : (s.impl a).call = .registering source) (hqueue : (s.impl a).opQueue ≠ []) :
    Moving s (((s.registerWaitCallback k a false).setCall source .idle).setCall a .idle)

/-- An object is signalled, and the callback runs. -/
inductive Calling (s : State σ α η ω) : State σ α η ω → Prop
  | signal {w a} (hwait : s.waits w = .pending a) : Calling s (s.setWait w (.signalled a))
  | callbackIdle {w a} (hwait : s.waits w = .signalled a) (hqueue : (s.impl a).opQueue = []) :
    Calling s (((s.unregisterNow (s.impl a).waitHandle).setImpl a
      { s.impl a with waitHandle := none }).setWait w .closed)
  | callbackLast {w a k op} (hwait : s.waits w = .signalled a) (howner : (s.impl a).owner = some k)
    (hqueue : (s.impl a).opQueue = [op]) :
    Calling s (((s.unregisterNow (s.impl a).waitHandle).setImpl a
      { s.impl a with waitHandle := none, opQueue := [] }).setWait w (.posting k [(op, .success)]))
  | callbackNext {w a k op ops} (hwait : s.waits w = .signalled a)
    (howner : (s.impl a).owner = some k) (hqueue : (s.impl a).opQueue = op :: ops)
    (hne : ops ≠ []) :
    Calling s ((((s.unregisterNow (s.impl a).waitHandle).setImpl a
      { s.impl a with waitHandle := none, opQueue := ops }).registerWait a).setWait w
        (.posting k [(op, .success)]))
  | callbackFail {w a k op ops} (hwait : s.waits w = .signalled a)
    (howner : (s.impl a).owner = some k) (hqueue : (s.impl a).opQueue = op :: ops) :
    Calling s (((s.unregisterNow (s.impl a).waitHandle).setImpl a
      { s.impl a with waitHandle := none, opQueue := [] }).setWait w
        (.posting k ((op, .success) :: ops.map (·, .system))))
  | posted {w k ops} (hwait : s.waits w = .posting k ops) :
    Calling s ((s.post k ops).setWait w .closed)

inductive Move (s s' : State σ α η ω) : Prop
  | starting (h : Starting s s')
  | taking (h : Taking s s')
  | moving (h : Moving s s')
  | calling (h : Calling s s')

section Update

variable {a b : α} {w : Nat} {impl impl' : Implementation σ α η ω} {wait : Wait σ α ω}
  {call : Call α ω} {waitHandle : Option Nat} {t : State σ α η ω}

@[simp] theorem impl_setImpl_self : (s.setImpl a impl).impl a = impl := Function.update_self ..

theorem impl_setImpl_of_ne (h : b ≠ a) : (s.setImpl a impl).impl b = s.impl b :=
  Function.update_of_ne h ..

@[simp] theorem setImpl_setImpl : (s.setImpl a impl).setImpl a impl' = s.setImpl a impl' := by
  simp only [State.setImpl, Function.update_idem]

theorem setImpl_impl : s.setImpl a (s.impl a) = s := by
  rw [State.setImpl, Function.update_eq_self]

theorem unregister_eq_some (h : s.unregister waitHandle = some t) :
    t = s ∨ ∃ w b, waitHandle = some w ∧ s.waits w = .pending b ∧ t = s.setWait w .closed := by
  cases waitHandle with
  | none => exact Or.inl (Option.some.inj h).symm
  | some w =>
    simp only [State.unregister] at h
    split at h
    · exact Or.inl (Option.some.inj h).symm
    · rename_i b hwait
      exact Or.inr ⟨w, b, rfl, hwait, (Option.some.inj h).symm⟩
    · cases h

theorem impl_unregister (h : s.unregister waitHandle = some t) : t.impl = s.impl := by
  rcases unregister_eq_some h with rfl | ⟨w, b, -, -, rfl⟩ <;> rfl

theorem impl_unregisterNow : (s.unregisterNow waitHandle).impl = s.impl := by
  cases waitHandle with
  | none => rfl
  | some w =>
    simp only [State.unregisterNow]
    split <;> rfl

theorem service_setCall : ((s.setCall a call).impl b).service = (s.impl b).service := by
  by_cases hb : b = a
  · rw [State.setCall, hb, impl_setImpl_self]
  · rw [State.setCall, impl_setImpl_of_ne hb]

theorem service_registerWaitCallback {k : σ} {registers : Bool} :
    ((s.registerWaitCallback k a registers).impl b).service = (s.impl b).service := by
  have hself {impl : Implementation σ α η ω} (h : impl.service = (s.impl a).service) :
      (Function.update s.impl a impl b).service = (s.impl b).service := by
    by_cases hb : b = a
    · rw [hb, Function.update_self, h]
    · rw [Function.update_of_ne hb]
  cases registers with
  | true => exact hself rfl
  | false => exact hself rfl

/-- The object that is assigned keeps its service if the other one has the same. -/
theorem setImpl_service {t : State σ α η ω} (h : (t.impl b).service = (t.impl a).service) :
    (t.setCall b .idle).setImpl a { (t.setCall b .idle).impl a with
      service := ((t.setCall b .idle).impl b).service, call := .idle } =
        (t.setCall b .idle).setCall a .idle := by
  have hservice :
      ((t.setCall b .idle).impl b).service = ((t.setCall b .idle).impl a).service := by
    rw [service_setCall, service_setCall, h]
  rw [hservice]
  rfl

end Update

theorem isOpen_eq_false {impl : Implementation σ α η ω} (h : ¬ impl.isOpen = true) :
    impl.handle = none := by
  rwa [Implementation.isOpen, Option.not_isSome_iff_eq_none] at h

/-- No service is shut down, both objects of a move have one service, and what waits was started. -/
structure Usual (s : State σ α η ω) : Prop where
  shutdown : ∀ k, s.shutdown k = false
  paired : ∀ a source, (s.impl a).call.source? = some source →
    (s.impl source).service = (s.impl a).service
  queued : ∀ a, ∀ op ∈ (s.impl a).opQueue, op ∈ s.started.map Prod.snd

section Steps

variable {a source : α} {k : σ} {w : Nat}

theorem move_of_startWaitOp {op : ω} {registers : Bool} (husual : Usual s)
    (h : s.startWaitOp a op registers = some s') : Move s s' := by
  rw [State.startWaitOp] at h
  split at h
  · rename_i k hservice hcall
    split at h
    · cases h
    · rename_i hfresh
      simp only [husual.shutdown, Bool.false_eq_true, if_false, impl_setImpl_self] at h
      split at h
      · rename_i hopen
        by_cases hqueue : (s.impl a).opQueue = []
        · rw [hqueue] at h
          simp only [List.nil_append, List.head?_cons, if_true] at h
          cases Option.some.inj h
          cases registers with
          | true => exact .starting (.watch ⟨hservice, hcall⟩ hfresh hopen hqueue)
          | false =>
            have hsame : s.setImpl a { s.impl a with opQueue := [] } = s := by
              have himpl : { s.impl a with opQueue := [] } = s.impl a := by rw [← hqueue]
              rw [himpl, setImpl_impl]
            have hstate : (s.start k op).setImpl a { s.impl a with opQueue := [] } =
                s.start k op := congrArg (State.start · k op) hsame
            simp only [State.registerWaitCallback, Bool.false_eq_true, if_false, impl_setImpl_self,
              setImpl_setImpl]
            change Move s (((s.start k op).setImpl a { s.impl a with opQueue := [] }).post k _)
            rw [hstate]
            exact .starting (.reject ⟨hservice, hcall⟩ hfresh)
        · have hhead : ((s.impl a).opQueue ++ [op]).head? ≠ some op := by
            obtain ⟨op', ops, hcons⟩ := List.exists_cons_of_ne_nil hqueue
            rw [hcons, List.cons_append, List.head?_cons]
            intro heq
            refine hfresh (husual.queued a op ?_)
            rw [hcons, Option.some.inj heq]
            exact List.mem_cons_self
          rw [if_neg hhead] at h
          cases Option.some.inj h
          exact .starting (.enqueue ⟨hservice, hcall⟩ hfresh hopen hqueue)
      · cases Option.some.inj h
        exact .starting (.reject ⟨hservice, hcall⟩ hfresh)
  · cases h

theorem move_of_proceed {ok : Bool} (husual : Usual s) (h : s.proceed a ok = some s') :
    Move s s' := by
  rw [State.proceed] at h
  split at h
  · cases h
  · rename_i k hservice
    split at h
    · rename_i waitHandle ops hcall
      obtain ⟨t, hun, rfl⟩ := Option.map_eq_some_iff.mp h
      have hmove : Move s _ := .taking (.complete hservice (by rw [hcall]; rfl) hun (Or.inl rfl))
      rw [hcall] at hmove
      simpa only [State.setCall, impl_unregister hun, Call.isDestroying, Call.source?, if_false,
        Bool.false_eq_true, Option.elim] using hmove
    · rename_i waitHandle ops source hcall
      obtain ⟨t, hun, rfl⟩ := Option.map_eq_some_iff.mp h
      have hmove (handle : Option η) (hhandle : handle = (s.impl a).handle ∨ handle = none) :
          Move s _ := .taking (.complete hservice (by rw [hcall]; rfl) hun hhandle)
      rw [hcall] at hmove
      simp only [Call.isDestroying, Call.source?, if_false, Bool.false_eq_true] at hmove
      cases ok with
      | true =>
        have hmove := hmove none (Or.inr rfl)
        rw [← impl_unregister hun] at hmove
        cases source <;> exact hmove
      | false =>
        have hmove := hmove (t.impl a).handle (Or.inl (by rw [impl_unregister hun]))
        rw [← impl_unregister hun] at hmove
        cases source <;> exact hmove
    · rename_i waitHandle ops hcall
      obtain ⟨t, hun, rfl⟩ := Option.map_eq_some_iff.mp h
      have hmove : Move s _ := .taking (.complete hservice (by rw [hcall]; rfl) hun (Or.inr rfl))
      rw [hcall] at hmove
      simpa only [impl_unregister hun, Call.isDestroying, Call.source?, if_true,
        Option.elim] using hmove
    · rename_i source hcall
      have hservice' : (s.impl source).service = some k := by
        rw [husual.paired a source (by rw [hcall]; rfl), hservice]
      simp only [hservice', if_true] at h
      cases Option.some.inj h
      exact .moving (.moveAssigned hservice hcall)
    · rename_i source hcall
      obtain ⟨t, hun, rfl⟩ := Option.map_eq_some_iff.mp h
      exact .moving (.unregistered hcall hun)
    · rename_i source hcall
      have hservice' : (s.impl source).service = (s.impl a).service :=
        husual.paired a source (by rw [hcall]; rfl)
      cases Option.some.inj h
      by_cases hqueue : (s.impl a).opQueue = []
      · rw [if_pos hqueue]
        rw [setImpl_service hservice']
        exact .moving (.moved hcall hqueue)
      · rw [if_neg hqueue, setImpl_service]
        · cases ok with
          | true => exact .moving (.rewatch hcall hqueue)
          | false => exact .moving (.abandon hservice hcall hqueue)
        · rw [service_registerWaitCallback, service_registerWaitCallback, hservice']
    · cases h

theorem move_of_moveAssign (hsame : (s.impl a).service = (s.impl source).service)
    (h : s.moveAssign a source = some s') : Move s s' := by
  rw [State.moveAssign] at h
  split at h
  · rename_i k k' hservice hcall hservice' hcall'
    obtain rfl : k = k' := by rwa [hservice, hservice', Option.some.injEq] at hsame
    split at h
    · cases h
    · rename_i hne
      have himpl : (s.setCall source .lent).impl a = s.impl a := impl_setImpl_of_ne hne
      simp only [himpl] at h
      split at h
      · rename_i hopen
        cases Option.some.inj h
        have hmove : Move s _ := .taking (.takeAssign ⟨hservice, hcall⟩ ⟨hservice', hcall'⟩ hne hopen)
        rwa [State.taken, himpl] at hmove
      · rename_i hclosed
        cases Option.some.inj h
        exact .moving (.moveAssign ⟨hservice, hcall⟩ ⟨hservice', hcall'⟩ hne (isOpen_eq_false hclosed))
  · cases h

theorem move_of_waitCallback {registers : Bool} (h : s.waitCallback w registers = some s') :
    Move s s' := by
  rw [State.waitCallback] at h
  split at h
  · rename_i a hwait
    split at h
    · cases h
    · rename_i k howner
      simp only [impl_setImpl_self, impl_unregisterNow, setImpl_setImpl] at h
      split at h
      · rename_i hqueue
        cases Option.some.inj h
        exact .calling (.callbackIdle hwait hqueue)
      · rename_i op ops hqueue
        split at h
        · rename_i hnil
          cases Option.some.inj h
          rw [hnil] at hqueue
          subst hnil
          exact .calling (.callbackLast hwait howner hqueue)
        · rename_i hne
          split at h
          · cases Option.some.inj h
            exact .calling (.callbackNext hwait howner hqueue hne)
          · cases Option.some.inj h
            exact .calling (.callbackFail hwait howner hqueue)
  · cases h

theorem move_of_step {act : Action σ α η ω} (husual : Usual s) (hsame : SameService s act)
    (h : step s act = some s') : Move s s' := by
  cases act with
  | construct a k =>
    simp only [step, State.construct] at h
    split at h
    · cases h
    · rename_i hnone
      cases Option.some.inj h
      exact .starting (.construct hnone)
  | assign a handle =>
    simp only [step, State.assign] at h
    split at h
    · rename_i k hservice hcall
      split at h
      · cases Option.some.inj h
        exact .starting .same
      · rename_i hclosed
        cases Option.some.inj h
        exact .starting (.assign ⟨hservice, hcall⟩ (isOpen_eq_false hclosed))
    · cases h
  | startWaitOp a op registers => exact move_of_startWaitOp husual h
  | cancel a =>
    simp only [step, State.cancel] at h
    split at h
    · rename_i k hservice hcall
      split at h
      · rename_i hopen
        cases Option.some.inj h
        exact .taking (.take ⟨hservice, hcall⟩ hopen rfl rfl rfl)
      · cases Option.some.inj h
        exact .starting .same
    · cases h
  | close a =>
    simp only [step, State.close] at h
    split at h
    · rename_i k hservice hcall
      split at h
      · rename_i hopen
        cases Option.some.inj h
        exact .taking (.take ⟨hservice, hcall⟩ hopen rfl rfl rfl)
      · cases Option.some.inj h
        exact .starting .same
    · cases h
  | destroy a =>
    simp only [step, State.destroy] at h
    split at h
    · rename_i k hservice hcall
      split at h
      · rename_i hopen
        cases Option.some.inj h
        exact .taking (.destroyOpen ⟨hservice, hcall⟩ hopen)
      · rename_i hclosed
        cases Option.some.inj h
        exact .taking (.destroyClosed ⟨hservice, hcall⟩ (isOpen_eq_false hclosed))
    · cases h
  | moveConstruct a source =>
    simp only [step, State.moveConstruct] at h
    split at h
    · rename_i k hnone hservice hcall
      cases Option.some.inj h
      exact .moving (.moveConstruct hnone ⟨hservice, hcall⟩)
    · cases h
  | moveAssign a source => exact move_of_moveAssign hsame h
  | proceed a ok => exact move_of_proceed husual h
  | signal w =>
    simp only [step, State.signal] at h
    split at h
    · rename_i a hwait
      cases Option.some.inj h
      exact .calling (.signal hwait)
    · cases h
  | waitCallback w registers => exact move_of_waitCallback h
  | postCompletions w =>
    simp only [step, State.postCompletions] at h
    split at h
    · rename_i k ops hwait
      cases Option.some.inj h
      exact .calling (.posted hwait)
    · cases h

end Steps

end Asio.Detail.WinObjectHandleService
