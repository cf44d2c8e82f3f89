import Asio.Detail.WinObjectHandleRuns

/-! Who owns an implementation, and which calls are in progress. -/

universe u v w z

namespace Asio.Detail.WinObjectHandleService

open Lib LinkedList

set_option linter.unusedSectionVars false

variable {σ : Type u} {α : Type v} {η : Type z} {ω : Type w}
variable [DecidableEq α] [DecidableEq ω] [DecidableEq σ] {s s' t : State σ α η ω}

/-! ### Frames -/

section Frames

variable {a b source : α} {k : σ} {w : Nat} {impl : Implementation σ α η ω} {call : Call α ω}

@[grind =]
theorem impl_setImpl : (s.setImpl a impl).impl b = if b = a then impl else s.impl b := by
  simp only [State.setImpl, Function.update_apply]

@[grind =]
theorem impl_setCall : (s.setCall a call).impl b =
    if b = a then { s.impl a with call := call } else s.impl b :=
  impl_setImpl

@[grind =]
theorem impl_taken : (s.taken a call).impl b =
    if b = a then (s.impl a).release call else s.impl b :=
  impl_setImpl

@[grind =]
theorem impl_link : (s.link k a).impl b = s.impl b := by
  rw [State.link]
  split <;> rfl

@[grind =]
theorem impl_post {ops : List (ω × ErrorCode)} : (s.post k ops).impl b = s.impl b := rfl

@[grind =]
theorem impl_start {op : ω} : (s.start k op).impl b = s.impl b := rfl

@[grind =]
theorem impl_setWait {wait : Wait σ α ω} : (s.setWait w wait).impl b = s.impl b := rfl

@[grind =]
theorem impl_registerWait : (s.registerWait a).impl b =
    if b = a then { s.impl a with waitHandle := some s.registered } else s.impl b :=
  impl_setImpl

@[grind =]
theorem impl_registerWaitCallback : (s.registerWaitCallback k a false).impl b =
    if b = a then { s.impl a with opQueue := [] } else s.impl b :=
  impl_setImpl

@[grind =]
theorem impl_moveFrom : (s.moveFrom k a source).impl b =
    if b = a then
      { s.impl a with
        handle := (s.impl source).handle
        waitHandle := (s.impl source).waitHandle
        opQueue := (if a = source then [] else (s.impl a).opQueue) ++ (s.impl source).opQueue
        owner := some k
        call := .unregistering source }
    else if b = source then
      { s.impl source with handle := none, waitHandle := none, opQueue := [] }
    else
      s.impl b := by
  simp only [State.moveFrom, impl_setImpl]
  split
  · split
    · rename_i ha
      subst ha
      simp only
    · rfl
  · rfl

@[grind =]
theorem impl_unregisterNow_apply {waitHandle : Option Nat} :
    (s.unregisterNow waitHandle).impl b = s.impl b :=
  congrFun impl_unregisterNow b

end Frames

/-! ### Calls -/

section Calls

attribute [grind =] Call.source?.eq_1 Call.source?.eq_2 Call.source?.eq_3 Call.source?.eq_4

@[grind =]
theorem source?_idle : (Call.idle : Call α ω).source? = none := rfl

@[grind =]
theorem source?_lent : (Call.lent : Call α ω).source? = none := rfl

@[grind =]
theorem released?_lent : (Call.lent : Call α ω).released? = none := rfl

/-- A call that has released the lock is a move, or it goes on from its operations to the end. -/
theorem released?_cases {call : Call α ω} {waitHandle : Option Nat} {ops : List ω}
    (h : call.released? = some (waitHandle, ops)) :
    (call.isDestroying = true ∧ call.source? = none) ∨
      (call.isDestroying = false ∧ call.source? = none) ∨
      ∃ source, call.isDestroying = false ∧ call.source? = some source := by
  cases call with
  | cancelling => exact Or.inr (Or.inl ⟨rfl, rfl⟩)
  | destroying => exact Or.inl ⟨rfl, rfl⟩
  | closing waitHandle ops source =>
    cases source with
    | none => exact Or.inr (Or.inl ⟨rfl, rfl⟩)
    | some source => exact Or.inr (Or.inr ⟨source, rfl, rfl⟩)
  | _ => cases h

/-- What an object is moved from stays as it is until the move has ended. -/
structure Paired (s : State σ α η ω) : Prop where
  absent : ∀ a, (s.impl a).service = none → (s.impl a).call = .idle
  lent : ∀ a source, (s.impl a).call.source? = some source →
    (s.impl source).call = .lent ∧ (s.impl source).service = (s.impl a).service
  unique : ∀ a b source, (s.impl a).call.source? = some source →
    (s.impl b).call.source? = some source → a = b

theorem Paired.starting (h : Paired s) (hmove : Starting s s') : Paired s' := by
  obtain ⟨habsent, hlent, hunique⟩ := h
  cases hmove with
  | same | reject => exact ⟨habsent, hlent, hunique⟩
  | construct => constructor <;> grind [Implementation.fresh]
  | _ => constructor <;> grind

theorem Paired.taking (h : Paired s) (hmove : Taking s s') : Paired s' := by
  obtain ⟨habsent, hlent, hunique⟩ := h
  cases hmove with
  | complete hservice hcall hun =>
    have himpl := congrFun (impl_unregister hun)
    rcases released?_cases hcall with ⟨hdestroying, hsource⟩ | ⟨hdestroying, hsource⟩ |
      ⟨source, hdestroying, hsource⟩
    · constructor <;> grind
    · constructor <;> grind
    · constructor <;> grind
  | destroyClosed => constructor <;> grind [State.Ready]
  | _ => constructor <;> grind [State.Ready, Implementation.release, Call.source?]

theorem Paired.moving (h : Paired s) (hmove : Moving s s') : Paired s' := by
  obtain ⟨habsent, hlent, hunique⟩ := h
  cases hmove with
  | moveConstruct => constructor <;> grind [State.Ready, Implementation.fresh]
  | unregistered hcall hun =>
    have himpl := congrFun (impl_unregister hun)
    constructor <;> grind
  | _ => constructor <;> grind [State.Ready]

theorem Paired.calling (h : Paired s) (hmove : Calling s s') : Paired s' := by
  obtain ⟨habsent, hlent, hunique⟩ := h
  cases hmove with
  | signal | posted => exact ⟨habsent, hlent, hunique⟩
  | _ => constructor <;> grind

theorem Paired.move (h : Paired s) (hmove : Move s s') : Paired s' := by
  cases hmove with
  | starting hmove => exact h.starting hmove
  | taking hmove => exact h.taking hmove
  | moving hmove => exact h.moving hmove
  | calling hmove => exact h.calling hmove

end Calls

/-! ### The lists of implementations -/

section Lists

variable {a : α} {k : σ} {lists : σ → List α}

/-- The object is in the list of a service. -/
def Implementation.LinkedTo (impl : Implementation σ α η ω) (k : σ) : Prop :=
  impl.service = some k ∧ impl.call.isDestroying = false

structure Linked (s : State σ α η ω) (lists : σ → List α) : Prop where
  represents : s.lists.Represents lists
  mem : ∀ a k, a ∈ lists k ↔ (s.impl a).LinkedTo k

/-- Every object is known by its owner, and no service has been shut down. -/
structure Owned (s : State σ α η ω) : Prop where
  owner : ∀ a k, (s.impl a).service = some k → (s.impl a).owner = some k
  shutdown : ∀ k, s.shutdown k = false

theorem Linked.frame (h : Linked s lists) (hlists : s'.lists = s.lists)
    (hlinked : ∀ b k, (s'.impl b).LinkedTo k ↔ (s.impl b).LinkedTo k) : Linked s' lists where
  represents := hlists ▸ h.represents
  mem b k := by rw [h.mem, hlinked]

/-- A new object is linked. -/
theorem Linked.insert (h : Linked s lists) (hnone : (s.impl a).service = none)
    (hlists : s'.lists = s.lists.pushFront k a)
    (hlinked : ∀ b k', (s'.impl b).LinkedTo k' ↔ k' = k ∧ b = a ∨ (s.impl b).LinkedTo k') :
    Linked s' (Function.update lists k (a :: lists k)) where
  represents := by
    rw [hlists]
    apply h.represents.pushFront
    intro k' ha
    have hservice := ((h.mem a k').mp ha).1
    rw [hnone] at hservice
    cases hservice
  mem b k' := by rw [Lists.mem_update_cons, hlinked, h.mem]

/-- An object that is destroyed is unlinked. -/
theorem Linked.remove (h : Linked s lists) (ha : (s.impl a).LinkedTo k)
    (hlists : s'.lists = s.lists.unlink k a)
    (hlinked : ∀ b k', (s'.impl b).LinkedTo k' ↔ (s.impl b).LinkedTo k' ∧ ¬ (k' = k ∧ b = a)) :
    Linked s' (Function.update lists k ((lists k).erase a)) where
  represents := by
    rw [hlists]
    exact h.represents.unlink ((h.mem a k).mpr ha)
  mem b k' := by rw [Lists.mem_update_erase (h.represents.nodup k), hlinked, h.mem]

theorem link_lists (h : Owned s) : (s.link k a).lists = s.lists.pushFront k a := by
  rw [State.link, h.shutdown k]
  rfl

theorem lists_unregister {waitHandle : Option Nat} (h : s.unregister waitHandle = some t) :
    t.lists = s.lists ∧ t.shutdown = s.shutdown := by
  rcases unregister_eq_some h with rfl | ⟨w, b, -, -, rfl⟩ <;> exact ⟨rfl, rfl⟩

theorem lists_unregisterNow {waitHandle : Option Nat} :
    (s.unregisterNow waitHandle).lists = s.lists ∧
      (s.unregisterNow waitHandle).shutdown = s.shutdown := by
  cases waitHandle with
  | none => exact ⟨rfl, rfl⟩
  | some w =>
    simp only [State.unregisterNow]
    split <;> exact ⟨rfl, rfl⟩

theorem Linked.starting (h : Linked s lists) (howned : Owned s) (hmove : Starting s s') :
    ∃ lists', Linked s' lists' := by
  cases hmove with
  | construct hnone =>
    refine ⟨_, h.insert hnone (link_lists howned) ?_⟩
    grind [Implementation.LinkedTo, Implementation.fresh, Call.isDestroying]
  | _ =>
    refine ⟨_, h.frame rfl ?_⟩
    grind [Implementation.LinkedTo]

theorem Linked.taking (h : Linked s lists) (hmove : Taking s s') :
    ∃ lists', Linked s' lists' := by
  cases hmove with
  | destroyOpen hready =>
    refine ⟨_, h.remove ⟨hready.1, hready.2 ▸ rfl⟩ rfl ?_⟩
    grind [Implementation.LinkedTo, Implementation.release, Call.isDestroying, State.Ready]
  | destroyClosed hready =>
    refine ⟨_, h.remove ⟨hready.1, hready.2 ▸ rfl⟩ rfl ?_⟩
    grind [Implementation.LinkedTo, Call.isDestroying, State.Ready]
  | complete hservice hcall hun =>
    have himpl := congrFun (impl_unregister hun)
    refine ⟨_, h.frame (lists_unregister hun).1 ?_⟩
    rcases released?_cases hcall with ⟨hdestroying, hsource⟩ | ⟨hdestroying, hsource⟩ |
      ⟨source, hdestroying, hsource⟩
    all_goals grind [Implementation.LinkedTo, Call.isDestroying]
  | take | takeAssign =>
    refine ⟨_, h.frame rfl ?_⟩
    grind [Implementation.LinkedTo, Implementation.release, Call.isDestroying, State.Ready]

theorem Linked.moving (h : Linked s lists) (howned : Owned s) (hpaired : Paired s)
    (hmove : Moving s s') : ∃ lists', Linked s' lists' := by
  have hlent (a source : α) := hpaired.lent a source
  cases hmove with
  | moveConstruct hnone hready =>
    refine ⟨_, h.insert hnone (link_lists howned) ?_⟩
    grind [Implementation.LinkedTo, Implementation.fresh, Call.isDestroying, State.Ready]
  | unregistered hcall hun =>
    have himpl := congrFun (impl_unregister hun)
    refine ⟨_, h.frame (lists_unregister hun).1 ?_⟩
    grind [Implementation.LinkedTo, Call.isDestroying]
  | _ =>
    refine ⟨_, h.frame rfl ?_⟩
    grind [Implementation.LinkedTo, Call.isDestroying, State.Ready]

theorem Linked.calling (h : Linked s lists) (hmove : Calling s s') :
    ∃ lists', Linked s' lists' := by
  cases hmove with
  | signal | posted => exact ⟨_, h.frame rfl fun _ _ => Iff.rfl⟩
  | _ =>
    refine ⟨_, h.frame lists_unregisterNow.1 ?_⟩
    grind [Implementation.LinkedTo]

theorem Linked.move (h : Linked s lists) (howned : Owned s) (hpaired : Paired s)
    (hmove : Move s s') : ∃ lists', Linked s' lists' := by
  cases hmove with
  | starting hmove => exact h.starting howned hmove
  | taking hmove => exact h.taking hmove
  | moving hmove => exact h.moving howned hpaired hmove
  | calling hmove => exact h.calling hmove

theorem shutdown_link : (s.link k a).shutdown = s.shutdown := by
  rw [State.link]
  split <;> rfl

/-- No service shuts down. -/
theorem shutdown_move (hmove : Move s s') : s'.shutdown = s.shutdown := by
  cases hmove with
  | starting hmove =>
    cases hmove with
    | construct => exact shutdown_link
    | _ => rfl
  | taking hmove =>
    cases hmove with
    | complete _ _ hun => exact (lists_unregister hun).2
    | _ => rfl
  | moving hmove =>
    cases hmove with
    | moveConstruct => exact shutdown_link
    | unregistered _ hun => exact (lists_unregister hun).2
    | _ => rfl
  | calling hmove =>
    cases hmove with
    | signal | posted => rfl
    | _ => exact lists_unregisterNow.2

theorem Owned.move (h : Owned s) (hmove : Move s s') : Owned s' := by
  refine ⟨?_, fun k => (congrFun (shutdown_move hmove) k).trans (h.shutdown k)⟩
  have howner := h.owner
  cases hmove with
  | starting hmove =>
    cases hmove with
    | same | reject => exact howner
    | _ => grind
  | taking hmove =>
    cases hmove with
    | complete hservice hcall hun =>
      have himpl := congrFun (impl_unregister hun)
      grind
    | _ => grind [State.Ready, Implementation.release]
  | moving hmove =>
    cases hmove with
    | unregistered hcall hun =>
      have himpl := congrFun (impl_unregister hun)
      grind
    | _ => grind [State.Ready]
  | calling hmove =>
    cases hmove with
    | signal | posted => exact howner
    | _ => grind

end Lists

end Asio.Detail.WinObjectHandleService
