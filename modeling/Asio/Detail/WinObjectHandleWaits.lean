import Asio.Detail.WinObjectHandleOwners

/-! Which waits are registered, and for what. -/

universe u v w z

namespace Asio.Detail.WinObjectHandleService

open Lib LinkedList

set_option linter.unusedSectionVars false

variable {σ : Type u} {α : Type v} {η : Type z} {ω : Type w}
variable [DecidableEq α] [DecidableEq ω] [DecidableEq σ] {s s' t : State σ α η ω}

/-! ### Frames -/

section Frames

variable {a b source : α} {k : σ} {w w' : Nat} {impl : Implementation σ α η ω} {call : Call α ω}
  {waitHandle : Option Nat}

@[grind =]
theorem waits_setImpl : (s.setImpl a impl).waits w = s.waits w := rfl

@[grind =]
theorem waits_setCall : (s.setCall a call).waits w = s.waits w := rfl

@[grind =]
theorem waits_moveFrom : (s.moveFrom k a source).waits w = s.waits w := rfl

@[grind =]
theorem waits_post {ops : List (ω × ErrorCode)} : (s.post k ops).waits w = s.waits w := rfl

@[grind =]
theorem waits_start {op : ω} : (s.start k op).waits w = s.waits w := rfl

@[grind =]
theorem waits_link : (s.link k a).waits w = s.waits w := by
  rw [State.link]
  split <;> rfl

@[grind =]
theorem waits_setWait {wait : Wait σ α ω} :
    (s.setWait w wait).waits w' = if w' = w then wait else s.waits w' := by
  simp only [State.setWait, Function.update_apply]

@[grind =]
theorem waits_registerWait :
    (s.registerWait a).waits w = if w = s.registered then .pending a else s.waits w :=
  waits_setWait

@[grind =]
theorem registered_setImpl : (s.setImpl a impl).registered = s.registered := rfl

@[grind =]
theorem registered_setCall : (s.setCall a call).registered = s.registered := rfl

@[grind =]
theorem registered_moveFrom : (s.moveFrom k a source).registered = s.registered := rfl

@[grind =]
theorem registered_start {op : ω} : (s.start k op).registered = s.registered := rfl

@[grind =]
theorem registered_link : (s.link k a).registered = s.registered := by
  rw [State.link]
  split <;> rfl

/-- What has been unregistered is closed, and nothing else happens. -/
theorem waits_unregister (h : s.unregister waitHandle = some t) (w : Nat) :
    t.waits w = if waitHandle = some w then .closed else s.waits w := by
  cases waitHandle with
  | none =>
    cases Option.some.inj h
    simp only [reduceCtorEq, if_false]
  | some w' =>
    simp only [State.unregister] at h
    split at h
    · rename_i hclosed
      cases Option.some.inj h
      split
      · rename_i heq
        rw [← Option.some.inj heq, hclosed]
      · rfl
    · cases Option.some.inj h
      rw [waits_setWait]
      simp only [Option.some.injEq, eq_comm]
    · cases h

theorem registered_unregister (h : s.unregister waitHandle = some t) :
    t.registered = s.registered := by
  rcases unregister_eq_some h with rfl | ⟨w, b, -, -, rfl⟩ <;> rfl

end Frames

/-! ### Empty queues -/

/-- The operations of an object are nowhere else while a call has them. -/
structure Quiet (s : State σ α η ω) : Prop where
  released : ∀ a p, (s.impl a).call.released? = some p →
    (s.impl a).opQueue = [] ∧ (s.impl a).waitHandle = none
  assigning : ∀ a c, (s.impl a).call = .assigning c → (s.impl a).opQueue = []
  source : ∀ a c, (s.impl a).call = .unregistering c ∨ (s.impl a).call = .registering c →
    (s.impl c).opQueue = [] ∧ (s.impl c).waitHandle = none
  opened : ∀ a, (s.impl a).opQueue ≠ [] → (s.impl a).handle ≠ none
  absent : ∀ a, (s.impl a).service = none → (s.impl a).opQueue = []

section Calls

variable {call : Call α ω} {a source : α}

@[grind =]
theorem released?_idle : (Call.idle : Call α ω).released? = none := rfl

@[grind =]
theorem released?_assigning : (Call.assigning source : Call α ω).released? = none := rfl

@[grind =]
theorem released?_unregistering : (Call.unregistering source : Call α ω).released? = none := rfl

@[grind =]
theorem released?_registering : (Call.registering source : Call α ω).released? = none := rfl

end Calls

theorem Quiet.starting (h : Quiet s) (hpaired : Paired s) (hmove : Starting s s') : Quiet s' := by
  obtain ⟨hreleased, hassigning, hsource, hopened, habsent⟩ := h
  have hlent (a source : α) := hpaired.lent a source
  cases hmove with
  | same | reject => exact ⟨hreleased, hassigning, hsource, hopened, habsent⟩
  | construct => constructor <;> grind -linarith [Implementation.fresh]
  | assign => constructor <;> grind -linarith [State.Ready]
  | watch | enqueue => constructor <;> grind -linarith [State.Ready, Implementation.isOpen]

theorem Quiet.taking (h : Quiet s) (hmove : Taking s s') : Quiet s' := by
  obtain ⟨hreleased, hassigning, hsource', hopened, habsent⟩ := h
  cases hmove with
  | complete hservice hcall hun =>
    have himpl := congrFun (impl_unregister hun)
    have hempty := hreleased _ _ hcall
    rcases released?_cases hcall with ⟨hdestroying, hsource⟩ | ⟨hdestroying, hsource⟩ |
      ⟨source, hdestroying, hsource⟩
    all_goals constructor <;> grind -linarith
  | destroyClosed => constructor <;> grind -linarith [State.Ready]
  | _ => constructor <;> grind -linarith [State.Ready, Implementation.release, Call.source?]

theorem Quiet.moving (h : Quiet s) (hpaired : Paired s) (hmove : Moving s s') : Quiet s' := by
  obtain ⟨hreleased, hassigning, hsource, hopened, habsent⟩ := h
  have hlent (a source : α) := hpaired.lent a source
  have hidle (a : α) := hpaired.absent a
  cases hmove with
  | moveConstruct => constructor <;> grind -linarith [State.Ready, Implementation.fresh]
  | unregistered hcall hun =>
    have himpl := congrFun (impl_unregister hun)
    constructor <;> grind -linarith
  | _ => constructor <;> grind -linarith [State.Ready]

theorem Quiet.calling (h : Quiet s) (hmove : Calling s s') : Quiet s' := by
  obtain ⟨hreleased, hassigning, hsource, hopened, habsent⟩ := h
  cases hmove with
  | signal | posted => exact ⟨hreleased, hassigning, hsource, hopened, habsent⟩
  | _ => constructor <;> grind -linarith

theorem Quiet.move (h : Quiet s) (hpaired : Paired s) (hmove : Move s s') : Quiet s' := by
  cases hmove with
  | starting hmove => exact h.starting hpaired hmove
  | taking hmove => exact h.taking hmove
  | moving hmove => exact h.moving hpaired hmove
  | calling hmove => exact h.calling hmove

/-! ### The waits of an object -/

/-- The object for which a callback is still to run. -/
def Wait.active? : Wait σ α ω → Option α
  | .pending a | .signalled a => some a
  | _ => none

/-- The wait that a call has taken out of its implementation. -/
def Call.waitHandle? : Call α ω → Option Nat
  | .cancelling waitHandle _ | .closing waitHandle _ _ | .destroying waitHandle _ => waitHandle
  | _ => none

section Active

variable {a : α}

@[grind =]
theorem active?_pending : (Wait.pending a : Wait σ α ω).active? = some a := rfl

@[grind =]
theorem active?_signalled : (Wait.signalled a : Wait σ α ω).active? = some a := rfl

@[grind =]
theorem active?_closed : (Wait.closed : Wait σ α ω).active? = none := rfl

@[grind =]
theorem active?_posting {k : σ} {ops : List (ω × ErrorCode)} :
    (Wait.posting k ops : Wait σ α ω).active? = none := rfl

end Active

/-- No call has taken the wait of the object, nor is the object being moved to. -/
def Call.settled : Call α ω → Bool
  | .idle | .lent | .assigning _ => true
  | _ => false

namespace Implementation

variable (impl : Implementation σ α η ω)

def Has (w : Nat) : Prop := impl.waitHandle = some w ∨ impl.call.waitHandle? = some w

/-- The object that the wait of `a` has been registered for. -/
def target (a : α) : α :=
  match impl.call with
  | .unregistering source => source
  | _ => a

/-- The wait of the object may still call back. -/
def Expecting : Prop :=
  match impl.call with
  | .idle | .lent | .assigning _ => impl.opQueue ≠ []
  | .registering _ => False
  | _ => True

section Kinds

variable {impl} {w : Nat} {a b source : α} {p : Option Nat × List ω}

@[grind =]
theorem has_of_settled (h : impl.call.settled = true) : impl.Has w ↔ impl.waitHandle = some w := by
  have hcall : impl.call.waitHandle? = none := by
    cases hcall : impl.call <;> first | rfl | (rw [hcall] at h; cases h)
  rw [Has, hcall]
  simp only [reduceCtorEq, or_false]

@[grind =]
theorem target_of_settled (h : impl.call.settled = true) : impl.target a = a := by
  rw [target]
  split
  · rename_i hcall
    rw [hcall] at h
    cases h
  · rfl

@[grind =]
theorem expecting_of_settled (h : impl.call.settled = true) :
    impl.Expecting ↔ impl.opQueue ≠ [] := by
  cases hcall : impl.call with
  | idle | lent | assigning => simp only [Expecting, hcall]
  | _ =>
    rw [hcall] at h
    cases h

@[grind =>]
theorem has_of_released (h : impl.call.released? = some p) :
    impl.Has w ↔ impl.waitHandle = some w ∨ p.1 = some w := by
  have hcall : impl.call.waitHandle? = p.1 := by
    cases hcall : impl.call with
    | cancelling | closing | destroying =>
      rw [hcall] at h
      cases h
      rfl
    | _ =>
      rw [hcall] at h
      cases h
  rw [Has, hcall]

@[grind =>]
theorem target_of_released (h : impl.call.released? = some p) : impl.target a = a := by
  rw [target]
  split
  · rename_i hcall
    rw [hcall] at h
    cases h
  · rfl

@[grind =>]
theorem expecting_of_released (h : impl.call.released? = some p) : impl.Expecting := by
  cases hcall : impl.call with
  | cancelling | closing | destroying => simp only [Expecting, hcall]
  | _ =>
    rw [hcall] at h
    cases h

@[grind =>]
theorem has_of_unregistering (h : impl.call = .unregistering source) :
    impl.Has w ↔ impl.waitHandle = some w := by
  simp only [Has, h, Call.waitHandle?, reduceCtorEq, or_false]

@[grind =>]
theorem has_of_registering (h : impl.call = .registering source) :
    impl.Has w ↔ impl.waitHandle = some w := by
  simp only [Has, h, Call.waitHandle?, reduceCtorEq, or_false]

@[grind →]
theorem not_expecting_of_registering (h : impl.call = .registering source) :
    ¬ impl.Expecting := by
  simp only [Expecting, h, not_false_eq_true]

end Kinds

end Implementation

attribute [grind =] Call.settled.eq_1 Call.settled.eq_2 Call.settled.eq_3

structure Watched (s : State σ α η ω) : Prop where
  fresh : ∀ w, s.registered ≤ w → s.waits w = .closed
  current : ∀ a w, (s.impl a).Has w → w < s.registered
  active : ∀ w b, (s.waits w).active? = some b → ∃ a, (s.impl a).Has w ∧ (s.impl a).target a = b ∧
    (s.impl a).Expecting ∧ ∀ a', (s.impl a').Has w → a' = a
  queued : ∀ a, (s.impl a).call.settled = true → (s.impl a).opQueue ≠ [] →
    ∃ w, (s.impl a).Has w ∧ (s.waits w).active? ≠ none

section Watched

variable {w : Nat}

/-- A wait ends, or none does. -/
theorem Watched.close (h : Watched s) (ended : Option Nat)
    (hregistered : s'.registered = s.registered)
    (hclosed : ∀ w, s.waits w = .closed → s'.waits w = .closed)
    (hactive : ∀ w, (s'.waits w).active? = if ended = some w then none else (s.waits w).active?)
    (hhas : ∀ b w, (s'.impl b).Has w → (s.impl b).Has w)
    (hkeep : ∀ b w, ended ≠ some w → (s.waits w).active? ≠ none → (s.impl b).Has w →
      (s.impl b).Expecting →
        (s'.impl b).Has w ∧ (s'.impl b).target b = (s.impl b).target b ∧ (s'.impl b).Expecting)
    (hqueued : ∀ b, (s'.impl b).call.settled = true → (s'.impl b).opQueue ≠ [] →
      (s.impl b).call.settled = true ∧ (s.impl b).opQueue ≠ [] ∧
        ∀ w, (s.impl b).Has w → (s.waits w).active? ≠ none → (s'.impl b).Has w ∧ ended ≠ some w) :
    Watched s' where
  fresh w hw := hclosed w (h.fresh w (hregistered ▸ hw))
  current b w hb := hregistered ▸ h.current b w (hhas b w hb)
  active w b hb := by
    rw [hactive] at hb
    split at hb
    · cases hb
    · rename_i hne
      obtain ⟨a, ha, htarget, hexpecting, hunique⟩ := h.active w b hb
      obtain ⟨ha', htarget', hexpecting'⟩ :=
        hkeep a w hne (by rw [hb]; exact Option.some_ne_none b) ha hexpecting
      exact ⟨a, ha', htarget'.trans htarget, hexpecting', fun a' hhas' =>
        hunique a' (hhas a' w hhas')⟩
  queued b hsettled hqueue := by
    obtain ⟨hsettled', hqueue', hstays⟩ := hqueued b hsettled hqueue
    obtain ⟨w, hw, hsome⟩ := h.queued b hsettled' hqueue'
    obtain ⟨hw', hne⟩ := hstays w hw hsome
    refine ⟨w, hw', ?_⟩
    rwa [hactive, if_neg hne]

/-- What the steps of a call leave as it is. -/
def Implementation.Agrees (impl impl' : Implementation σ α η ω) (b : α) : Prop :=
  (∀ w, impl'.Has w ↔ impl.Has w) ∧ impl'.target b = impl.target b ∧
    (impl'.Expecting ↔ impl.Expecting) ∧ impl'.call.settled = impl.call.settled ∧
      impl'.opQueue = impl.opQueue

/-- A wait is registered, after another one may have ended. -/
theorem Watched.register (h : Watched s) (a : α) (ended : Option Nat)
    (hregistered : s'.registered = s.registered + 1)
    (hclosed : ∀ w, w ≠ s.registered → s.waits w = .closed → s'.waits w = .closed)
    (hactive : ∀ w, (s'.waits w).active? =
      if w = s.registered then some a else if ended = some w then none else (s.waits w).active?)
    (hself : ∀ w, (s'.impl a).Has w ↔ w = s.registered)
    (htarget : (s'.impl a).target a = a) (hexpecting : (s'.impl a).Expecting)
    (hgone : ∀ w, ended ≠ some w → (s.impl a).Has w → (s.waits w).active? = none)
    (hended : ∀ w, ended = some w → (s.waits w).active? ≠ none → (s.impl a).Has w)
    (hother : ∀ b, b ≠ a → (s.impl b).Agrees (s'.impl b) b) : Watched s' where
  fresh w hw := by
    rw [hregistered] at hw
    exact hclosed w (by omega) (h.fresh w (by omega))
  current b w hb := by
    rw [hregistered]
    by_cases hba : b = a
    · subst hba
      rw [(hself w).mp hb]
      omega
    · have hlt := h.current b w (((hother b hba).1 w).mp hb)
      omega
  active w b hb := by
    rw [hactive] at hb
    split at hb
    · rename_i hw
      subst hw
      cases hb
      refine ⟨a, (hself _).mpr rfl, htarget, hexpecting, fun a' ha' => ?_⟩
      by_contra hne
      have hlt := h.current a' _ (((hother a' hne).1 _).mp ha')
      omega
    · rename_i hw
      split at hb
      · cases hb
      · rename_i hne
        obtain ⟨c, hc, htargetc, hexpectingc, hunique⟩ := h.active w b hb
        have hca : c ≠ a := by
          rintro rfl
          rw [hgone w hne hc] at hb
          cases hb
        obtain ⟨hhas, htarget', hexpecting', -, -⟩ := hother c hca
        refine ⟨c, (hhas w).mpr hc, htarget'.trans htargetc, hexpecting'.mpr hexpectingc,
          fun a' ha' => ?_⟩
        by_cases haa : a' = a
        · subst haa
          exact absurd ((hself w).mp ha') hw
        · exact hunique a' (((hother a' haa).1 w).mp ha')
  queued b hsettled hqueue := by
    by_cases hba : b = a
    · subst hba
      refine ⟨s.registered, (hself _).mpr rfl, ?_⟩
      rw [hactive, if_pos rfl]
      exact Option.some_ne_none b
    · obtain ⟨hhas, -, -, hsettled', hqueue'⟩ := hother b hba
      obtain ⟨w, hw, hsome⟩ := h.queued b (hsettled' ▸ hsettled) (hqueue' ▸ hqueue)
      refine ⟨w, (hhas w).mpr hw, ?_⟩
      have hlt := h.current b w hw
      rw [hactive, if_neg (by omega)]
      split
      · rename_i hend
        obtain ⟨b', hb'⟩ := Option.ne_none_iff_exists'.mp hsome
        obtain ⟨c, -, -, -, hunique⟩ := h.active w b' hb'
        exact absurd ((hunique b hw).trans (hunique a (hended w hend hsome)).symm) hba
      · exact hsome

/-- The wait of an object is taken over by another one. -/
theorem Watched.transfer (h : Watched s) (a source : α)
    (hregistered : s'.registered = s.registered)
    (hwaits : s'.waits = s.waits) (hne : a ≠ source)
    (hself : ∀ w, (s'.impl a).Has w ↔ (s.impl source).Has w)
    (hcall : (s'.impl a).call = .unregistering source)
    (hgone : ∀ w, (s.impl a).Has w → (s.waits w).active? = none)
    (htarget : (s.impl source).target source = source)
    (hhas : ∀ w, ¬ (s'.impl source).Has w) (hqueue : (s'.impl source).opQueue = [])
    (hother : ∀ b, b ≠ a → b ≠ source → (s.impl b).Agrees (s'.impl b) b) : Watched s' where
  fresh w hw := by
    rw [hwaits]
    exact h.fresh w (hregistered ▸ hw)
  current b w hb := by
    rw [hregistered]
    by_cases hba : b = a
    · subst hba
      exact h.current source w ((hself w).mp hb)
    · by_cases hbs : b = source
      · subst hbs
        exact absurd hb (hhas w)
      · exact h.current b w (((hother b hba hbs).1 w).mp hb)
  active w b hb := by
    rw [hwaits] at hb
    obtain ⟨c, hc, htargetc, hexpecting, hunique⟩ := h.active w b hb
    have hca : c ≠ a := by
      rintro rfl
      rw [hgone w hc] at hb
      cases hb
    by_cases hcs : c = source
    · subst hcs
      refine ⟨a, (hself w).mpr hc, ?_, ?_, fun a' ha' => ?_⟩
      · rw [← htargetc, htarget, Implementation.target, hcall]
      · rw [Implementation.Expecting, hcall]
        trivial
      · by_contra haa
        have has : a' ≠ c := by
          rintro rfl
          exact hhas w ha'
        exact has (hunique a' (((hother a' haa has).1 w).mp ha'))
    · obtain ⟨hhasc, htarget', hexpecting', -, -⟩ := hother c hca hcs
      refine ⟨c, (hhasc w).mpr hc, htarget'.trans htargetc, hexpecting'.mpr hexpecting,
        fun a' ha' => ?_⟩
      by_cases haa : a' = a
      · subst haa
        exact absurd (hunique source ((hself w).mp ha')) (Ne.symm hcs)
      · by_cases has : a' = source
        · subst has
          exact absurd ha' (hhas w)
        · exact hunique a' (((hother a' haa has).1 w).mp ha')
  queued b hsettled hqueueb := by
    have hba : b ≠ a := by
      rintro rfl
      rw [hcall] at hsettled
      cases hsettled
    have hbs : b ≠ source := by
      rintro rfl
      exact hqueueb hqueue
    obtain ⟨hhasb, -, -, hsettled', hqueue'⟩ := hother b hba hbs
    obtain ⟨w, hw, hsome⟩ := h.queued b (hsettled' ▸ hsettled) (hqueue' ▸ hqueueb)
    exact ⟨w, (hhasb w).mpr hw, hwaits ▸ hsome⟩

variable {a a' : α}

theorem Watched.gone (h : Watched s) (hnot : ¬ (s.impl a).Expecting) (hhas : (s.impl a).Has w) :
    (s.waits w).active? = none := by
  by_contra hsome
  obtain ⟨b, hb⟩ := Option.ne_none_iff_exists'.mp hsome
  obtain ⟨c, -, -, hexpecting, hunique⟩ := h.active w b hb
  exact hnot (hunique a hhas ▸ hexpecting)

theorem Watched.unique (h : Watched s) (hactive : (s.waits w).active? ≠ none)
    (ha : (s.impl a).Has w) (ha' : (s.impl a').Has w) : a = a' := by
  obtain ⟨b, hb⟩ := Option.ne_none_iff_exists'.mp hactive
  obtain ⟨c, -, -, -, hunique⟩ := h.active w b hb
  rw [hunique a ha, hunique a' ha']

/-- A callback finds the wait that it has been called for, or nothing at all. -/
theorem Watched.callback (h : Watched s) (hquiet : Quiet s)
    (hwait : (s.waits w).active? = some a) :
    ((s.impl a).waitHandle = none ∧ (s.impl a).opQueue = []) ∨
      ((s.impl a).call.settled = true ∧ (s.impl a).waitHandle = some w ∧
        (s.impl a).opQueue ≠ []) := by
  obtain ⟨b, hhas, htarget, hexpecting, hunique⟩ := h.active w a hwait
  have hreleased := hquiet.released
  have hsource := hquiet.source
  cases hcall : (s.impl b).call with
  | idle | lent | assigning => grind -linarith
  | cancelling waitHandle ops | closing waitHandle ops | destroying waitHandle ops =>
    have hcall' : (s.impl b).call.released? = some (waitHandle, ops) := by
      rw [hcall, Call.released?]
    grind -linarith
  | unregistering => grind -linarith [Implementation.target]
  | registering => grind -linarith

theorem Watched.unregisterNow_eq (h : Watched s) (hquiet : Quiet s)
    (hwait : s.waits w = .signalled a) : s.unregisterNow (s.impl a).waitHandle = s := by
  have hactive : (s.waits w).active? = some a := by rw [hwait, Wait.active?]
  rcases h.callback hquiet hactive with ⟨hhandle, -⟩ | ⟨-, hhandle, -⟩
  · rw [hhandle]
    rfl
  · simp only [hhandle, State.unregisterNow, hwait]

theorem Watched.starting (h : Watched s) (hquiet : Quiet s) (hpaired : Paired s)
    (hmove : Starting s s') : Watched s' := by
  have hgone (a : α) (w : Nat) := h.gone (a := a) (w := w)
  cases hmove with
  | same => exact h
  | construct hnone =>
    have hidle (a : α) := hpaired.absent a
    have habsent (a : α) := hquiet.absent a
    refine h.close none registered_link ?_ ?_ ?_ ?_ ?_
    · grind -linarith
    · grind -linarith
    · grind -linarith [Implementation.fresh]
    · grind -linarith [Implementation.fresh]
    · grind -linarith [Implementation.fresh]
  | assign | reject | enqueue =>
    refine h.close none rfl (fun _ h => h) (fun _ => rfl) ?_ ?_ ?_
    · grind -linarith [State.Ready]
    · grind -linarith [State.Ready, List.append_eq_nil_iff]
    · grind -linarith [State.Ready]
  | @watch a k op hready hfresh hopen hqueue =>
    refine h.register a none rfl ?_ ?_ ?_ ?_ ?_ ?_ ?_ ?_
    all_goals grind -linarith [State.Ready, Implementation.Agrees]

theorem Watched.taking (h : Watched s) (hquiet : Quiet s) (hmove : Taking s s') :
    Watched s' := by
  have hreleased := hquiet.released
  cases hmove with
  | take =>
    refine h.close none rfl (fun _ h => h) (fun _ => rfl) ?_ ?_ ?_
    · grind -linarith [Implementation.release, State.Ready]
    · grind -linarith [Implementation.release, State.Ready]
    · grind -linarith [Implementation.release, State.Ready]
  | @destroyOpen a =>
    have hcall : (Call.destroying (s.impl a).waitHandle (s.impl a).opQueue : Call α ω).released? =
        some ((s.impl a).waitHandle, (s.impl a).opQueue) := rfl
    refine h.close none rfl (fun _ h => h) (fun _ => rfl) ?_ ?_ ?_
    · grind -linarith [Implementation.release, State.Ready]
    · grind -linarith [Implementation.release, State.Ready]
    · grind -linarith [Implementation.release, State.Ready]
  | @takeAssign a source =>
    have hcall : (Call.closing (s.impl a).waitHandle (s.impl a).opQueue (some source)).released? =
        some ((s.impl a).waitHandle, (s.impl a).opQueue) := rfl
    refine h.close none rfl (fun _ h => h) (fun _ => rfl) ?_ ?_ ?_
    · grind -linarith [Implementation.release, State.Ready]
    · grind -linarith [Implementation.release, State.Ready]
    · grind -linarith [Implementation.release, State.Ready]
  | destroyClosed =>
    refine h.close none rfl (fun _ h => h) (fun _ => rfl) ?_ ?_ ?_
    · grind -linarith [State.Ready]
    · grind -linarith [State.Ready]
    · grind -linarith [State.Ready]
  | @complete a k waitHandle ops t handle hservice hcall hun =>
    have himpl := congrFun (impl_unregister hun)
    have hwaits := waits_unregister hun
    have hunique (b c : α) (w : Nat) (hactive : (s.waits w).active? ≠ none)
        (hb : (s.impl b).Has w) (hc : (s.impl c).Has w) : b = c := h.unique hactive hb hc
    have hempty := hreleased _ _ hcall
    have hregistered := registered_unregister hun
    refine h.close waitHandle hregistered ?_ ?_ ?_ ?_ ?_
    · grind -linarith
    · grind -linarith
    · rcases released?_cases hcall with ⟨hdestroying, hsource⟩ | ⟨hdestroying, hsource⟩ |
        ⟨source, hdestroying, hsource⟩
      all_goals grind -linarith
    · grind -linarith
    · rcases released?_cases hcall with ⟨hdestroying, hsource⟩ | ⟨hdestroying, hsource⟩ |
        ⟨source, hdestroying, hsource⟩
      all_goals grind -linarith

theorem Watched.moving (h : Watched s) (hquiet : Quiet s) (hpaired : Paired s)
    (hmove : Moving s s') : Watched s' := by
  have hlent (a source : α) := hpaired.lent a source
  have hgone (a : α) (w : Nat) := h.gone (a := a) (w := w)
  cases hmove with
  | moveAssign =>
    refine h.close none rfl (fun _ h => h) (fun _ => rfl) ?_ ?_ ?_
    · grind -linarith [State.Ready]
    · grind -linarith [State.Ready]
    · grind -linarith [State.Ready]
  | @unregistered a source t hcall hun =>
    have himpl := congrFun (impl_unregister hun)
    have hunique (b c : α) (w : Nat) (hactive : (s.waits w).active? ≠ none)
        (hb : (s.impl b).Has w) (hc : (s.impl c).Has w) : b = c := h.unique hactive hb hc
    have hwaits := waits_unregister hun
    have hregistered := registered_unregister hun
    refine h.close (s.impl a).waitHandle hregistered ?_ ?_ ?_ ?_ ?_
    all_goals grind -linarith
  | moved hcall | abandon _ hcall =>
    have hsource := hquiet.source
    refine h.close none rfl (fun _ h => h) (fun _ => rfl) ?_ ?_ ?_
    all_goals grind -linarith
  | @moveConstruct a source k hnone hready =>
    have hidle (a : α) := hpaired.absent a
    have habsent (a : α) := hquiet.absent a
    refine h.transfer a source ?_ ?_ ?_ ?_ ?_ ?_ ?_ ?_ ?_ ?_
    all_goals grind -linarith [State.Ready, Implementation.Agrees]
  | @moveAssigned a source k hservice hcall =>
    have hlent' := hlent a source
    have hassigning := hquiet.assigning
    refine h.transfer a source rfl rfl ?_ ?_ ?_ ?_ ?_ ?_ ?_ ?_
    all_goals grind -linarith [Implementation.Agrees]
  | @rewatch a source hcall hqueue =>
    have hlent' := hlent a source
    have hsource := hquiet.source
    refine h.register a none rfl ?_ ?_ ?_ ?_ ?_ ?_ ?_ ?_
    all_goals grind -linarith [Implementation.Agrees]

theorem Watched.calling (h : Watched s) (hquiet : Quiet s) (hmove : Calling s s') :
    Watched s' := by
  have hgone (a : α) (w : Nat) := h.gone (a := a) (w := w)
  have hunique (b c : α) (w : Nat) (hactive : (s.waits w).active? ≠ none) (hb : (s.impl b).Has w)
      (hc : (s.impl c).Has w) : b = c := h.unique hactive hb hc
  cases hmove with
  | signal | posted =>
    refine h.close none rfl ?_ ?_ (fun _ _ hhas => hhas)
      (fun _ _ _ _ hhas hexpecting => ⟨hhas, rfl, hexpecting⟩) ?_
    · grind -linarith
    · grind -linarith
    · grind -linarith
  | @callbackIdle w a hwait hqueue =>
    have hactive : (s.waits w).active? = some a := by rw [hwait, Wait.active?]
    have hsame : { s.impl a with waitHandle := none } = s.impl a := by
      rcases h.callback hquiet hactive with ⟨hhandle, -⟩ | ⟨-, -, hne⟩
      · rw [← hhandle]
      · exact absurd hqueue hne
    rw [h.unregisterNow_eq hquiet hwait, hsame, setImpl_impl]
    obtain ⟨c, hc, htarget, -, hunique⟩ := h.active w a hactive
    refine h.close (some w) rfl ?_ ?_ (fun _ _ hhas => hhas)
      (fun _ _ _ _ hhas hexpecting => ⟨hhas, rfl, hexpecting⟩) ?_
    all_goals grind -linarith
  | @callbackLast w a _ _ hwait | @callbackFail w a _ _ _ hwait =>
    have hactive : (s.waits w).active? = some a := by rw [hwait, Wait.active?]
    have hcallback := h.callback hquiet hactive
    rw [h.unregisterNow_eq hquiet hwait]
    refine h.close (some w) rfl ?_ ?_ ?_ ?_ ?_
    all_goals grind -linarith
  | @callbackNext w a k op ops hwait =>
    have hactive : (s.waits w).active? = some a := by rw [hwait, Wait.active?]
    have hcallback := h.callback hquiet hactive
    rw [h.unregisterNow_eq hquiet hwait]
    have hcurrent := h.current a w
    refine h.register a (some w) rfl ?_ ?_ ?_ ?_ ?_ ?_ ?_ ?_
    all_goals grind -linarith [Implementation.Agrees]

theorem Watched.move (h : Watched s) (hquiet : Quiet s) (hpaired : Paired s)
    (hmove : Move s s') : Watched s' := by
  cases hmove with
  | starting hmove => exact h.starting hquiet hpaired hmove
  | taking hmove => exact h.taking hquiet hmove
  | moving hmove => exact h.moving hquiet hpaired hmove
  | calling hmove => exact h.calling hquiet hmove

end Watched

end Asio.Detail.WinObjectHandleService
