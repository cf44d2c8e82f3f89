import Asio.Detail.WinObjectHandleWaits

/-! Every wait that has been started is completed once, by the service that it was started on. -/

universe u v w z

namespace Asio.Detail.WinObjectHandleService

open Lib LinkedList Transition

set_option linter.unusedSectionVars false

variable {σ : Type u} {α : Type v} {η : Type z} {ω : Type w}
variable [DecidableEq α] [DecidableEq ω] [DecidableEq σ] {s s' t : State σ α η ω}

/-! ### Where the operations are -/

def Call.ops : Call α ω → List ω
  | .cancelling _ ops | .closing _ ops _ | .destroying _ ops => ops
  | _ => []

/-- Operations with the service that they were started on. -/
def tagged (service : Option σ) (ops : List ω) : List (σ × ω) :=
  service.elim [] fun k => ops.map (k, ·)

def Implementation.held (impl : Implementation σ α η ω) : List (σ × ω) :=
  tagged impl.service (impl.opQueue ++ impl.call.ops)

/-- The operations that a callback is about to post. -/
def Wait.held : Wait σ α ω → List (σ × ω)
  | .posting k ops => ops.map fun p => (k, p.1)
  | _ => []

inductive Place (α : Type v)
  | object (a : α)
  | callback (w : Nat)
  | scheduler

def State.held (s : State σ α η ω) : Place α → List (σ × ω)
  | .object a => (s.impl a).held
  | .callback w => (s.waits w).held
  | .scheduler => s.posted.map fun c => (c.scheduler, c.op)

section Held

variable {a source : α} {k : σ} {w : Nat} {ops : List ω} {waitHandle : Option Nat}
  {call : Call α ω} {impl : Implementation σ α η ω} {service : Option σ}

@[grind =]
theorem tagged_nil : tagged service ([] : List ω) = [] := by cases service <;> rfl

@[grind =]
theorem tagged_none : tagged (none : Option σ) ops = [] := rfl

@[grind =]
theorem tagged_some : tagged (some k) ops = ops.map (k, ·) := rfl

@[grind =>]
theorem ops_of_released (h : call.released? = some (waitHandle, ops)) : call.ops = ops := by
  cases call with
  | cancelling | closing | destroying =>
    cases h
    rfl
  | _ => cases h

@[grind =]
theorem ops_of_not_released (h : call.released? = none) : call.ops = [] := by
  cases call with
  | cancelling | closing | destroying => cases h
  | _ => rfl

@[grind =]
theorem held_object : s.held (.object a) =
    tagged (s.impl a).service ((s.impl a).opQueue ++ (s.impl a).call.ops) :=
  rfl

@[grind =]
theorem held_callback : s.held (.callback w) = (s.waits w).held := rfl

@[grind =]
theorem held_closed : (Wait.closed : Wait σ α ω).held = [] := rfl

@[grind =]
theorem held_pending : (Wait.pending a : Wait σ α ω).held = [] := rfl

@[grind =]
theorem held_signalled : (Wait.signalled a : Wait σ α ω).held = [] := rfl

@[grind =]
theorem held_posting {ops : List (ω × ErrorCode)} :
    (Wait.posting k ops : Wait σ α ω).held = ops.map fun p => (k, p.1) :=
  rfl

theorem held_unregister (h : s.unregister waitHandle = some t) :
    t.held = s.held ∧ t.started = s.started ∧ t.posted = s.posted := by
  rcases unregister_eq_some h with rfl | ⟨w, b, rfl, hwait, rfl⟩
  · exact ⟨rfl, rfl, rfl⟩
  · refine ⟨funext fun j => ?_, rfl, rfl⟩
    cases j with
    | object | scheduler => rfl
    | callback w' => grind -linarith

theorem started_link : (s.link k a).started = s.started ∧ (s.link k a).posted = s.posted := by
  rw [State.link]
  split <;> exact ⟨rfl, rfl⟩

end Held

abbrev Delivered (s : State σ α η ω) : Prop := Partition s.held s.started

section Delivered

variable {a source : α} {k : σ} {w : Nat} {op : ω}

theorem Delivered.start (h : Delivered s) (hstarted : s'.started = s.started ++ [(k, op)])
    (hfresh : op ∉ s.started.map Prod.snd)
    (hself : s'.held (.object a) = s.held (.object a) ++ [(k, op)])
    (hobject : ∀ b, b ≠ a → s'.held (.object b) = s.held (.object b))
    (hcallback : ∀ w, (s'.waits w).held = (s.waits w).held) (hposted : s'.posted = s.posted) :
    Delivered s' := by
  have hscheduler : s'.held .scheduler = s.held .scheduler := congrArg _ hposted
  have hne : Place.object a ≠ .scheduler := nofun
  rw [Delivered, hstarted]
  refine h.add hne ?_ ?_ ?_ (List.nodup_singleton _)
  · intro j hj hj'
    cases j with
    | object b => exact hobject b fun hb => hj (hb ▸ rfl)
    | callback w => exact hcallback w
    | scheduler => exact absurd rfl hj'
  · rw [hself, hscheduler, List.append_assoc, List.append_assoc]
    exact List.perm_append_comm.append_left _
  · intro p hp hmem
    rw [List.mem_singleton.mp hp] at hmem
    exact hfresh (List.mem_map_of_mem hmem)

/-- The operations of an object are posted. -/
theorem Delivered.complete (h : Delivered s) (hstarted : s'.started = s.started)
    (hself : s'.held (.object a) = [])
    (hposted : s'.held .scheduler = s.held .scheduler ++ s.held (.object a))
    (hobject : ∀ b, b ≠ a → s'.held (.object b) = s.held (.object b))
    (hcallback : ∀ w, (s'.waits w).held = (s.waits w).held) : Delivered s' := by
  have hne : Place.object a ≠ .scheduler := nofun
  rw [Delivered, hstarted]
  refine h.rearrange hne ?_ ?_
  · intro j hj hj'
    cases j with
    | object b => exact hobject b fun hb => hj (hb ▸ rfl)
    | callback w => exact hcallback w
    | scheduler => exact absurd rfl hj'
  · rw [hself, hposted, List.nil_append]
    exact List.perm_append_comm

/-- A callback takes the first operations of an object. -/
theorem Delivered.callback (h : Delivered s) (hstarted : s'.started = s.started)
    (hbefore : s.held (.callback w) = [])
    (hself : s'.held (.callback w) ++ s'.held (.object a) = s.held (.object a))
    (hobject : ∀ b, b ≠ a → s'.held (.object b) = s.held (.object b))
    (hcallback : ∀ w', w' ≠ w → (s'.waits w').held = (s.waits w').held)
    (hposted : s'.posted = s.posted) : Delivered s' := by
  have hne : Place.callback w ≠ .object a := nofun
  rw [Delivered, hstarted]
  refine h.rearrange hne ?_ ?_
  · intro j hj hj'
    cases j with
    | object b => exact hobject b fun hb => hj' (hb ▸ rfl)
    | callback w' => exact hcallback w' fun hw => hj (hw ▸ rfl)
    | scheduler => exact congrArg _ hposted
  · rw [hself, hbefore, List.nil_append]

/-- The operations of an object go over to another one. -/
theorem Delivered.transfer (h : Delivered s) (a source : α) (hne : a ≠ source)
    (hstarted : s'.started = s.started) (hself : s'.held (.object a) = s.held (.object source))
    (hsource : s'.held (.object source) = s.held (.object a))
    (hobject : ∀ b, b ≠ a → b ≠ source → s'.held (.object b) = s.held (.object b))
    (hwaits : s'.waits = s.waits) (hposted : s'.posted = s.posted) : Delivered s' := by
  have hne' : Place.object a ≠ .object source := fun heq => hne (Place.object.inj heq)
  rw [Delivered, hstarted]
  refine h.rearrange hne' ?_ ?_
  · intro j hj hj'
    cases j with
    | object b => exact hobject b (fun hb => hj (hb ▸ rfl)) fun hb => hj' (hb ▸ rfl)
    | callback w' => exact congrArg (fun waits => (waits w').held) hwaits
    | scheduler => exact congrArg _ hposted
  · rw [hself, hsource]
    exact List.perm_append_comm

/-- A callback posts what it has taken. -/
theorem Delivered.post (h : Delivered s) (hstarted : s'.started = s.started)
    (hself : s'.held (.callback w) = [])
    (hposted : s'.held .scheduler = s.held .scheduler ++ s.held (.callback w))
    (hobject : ∀ b, s'.held (.object b) = s.held (.object b))
    (hcallback : ∀ w', w' ≠ w → (s'.waits w').held = (s.waits w').held) : Delivered s' := by
  have hne : Place.callback (α := α) w ≠ .scheduler := nofun
  rw [Delivered, hstarted]
  refine h.rearrange hne ?_ ?_
  · intro j hj hj'
    cases j with
    | object b => exact hobject b
    | callback w' => exact hcallback w' fun hw => hj (hw ▸ rfl)
    | scheduler => exact absurd rfl hj'
  · rw [hself, hposted, List.nil_append]
    exact List.perm_append_comm

/-- An operation is posted as soon as it has been started. -/
theorem Delivered.reject (h : Delivered s) (a : α) (hstarted : s'.started = s.started ++ [(k, op)])
    (hfresh : op ∉ s.started.map Prod.snd)
    (hposted : s'.held .scheduler = s.held .scheduler ++ [(k, op)])
    (hobject : ∀ b, s'.held (.object b) = s.held (.object b))
    (hcallback : ∀ w, (s'.waits w).held = (s.waits w).held) : Delivered s' := by
  have hne : Place.object a ≠ .scheduler := nofun
  rw [Delivered, hstarted]
  refine h.add hne ?_ ?_ ?_ (List.nodup_singleton _)
  · intro j hj hj'
    cases j with
    | object b => exact hobject b
    | callback w => exact hcallback w
    | scheduler => exact absurd rfl hj'
  · rw [hobject, hposted, List.append_assoc]
  · intro p hp hmem
    rw [List.mem_singleton.mp hp] at hmem
    exact hfresh (List.mem_map_of_mem hmem)

theorem Delivered.frame (h : Delivered s) (hstarted : s'.started = s.started)
    (hobject : ∀ b, s'.held (.object b) = s.held (.object b))
    (hcallback : ∀ w, (s'.waits w).held = (s.waits w).held) (hposted : s'.posted = s.posted) :
    Delivered s' := by
  rw [Delivered, hstarted]
  refine h.congr fun j => ?_
  cases j with
  | object b => exact hobject b
  | callback w => exact hcallback w
  | scheduler => exact congrArg _ hposted

theorem held_post {ops : List (ω × ErrorCode)} : (s.post k ops).held .scheduler =
    s.held .scheduler ++ ops.map fun p => (k, p.1) := by
  simp only [State.held, State.post, List.map_append, List.map_map, Function.comp_def]

theorem map_tag {ops : List ω} {ec : ErrorCode} :
    (ops.map (·, ec)).map (fun p => (k, p.1)) = ops.map (k, ·) := by
  simp only [List.map_map, Function.comp_def]

theorem callback_service (hquiet : Quiet s) (howned : Owned s)
    (howner : (s.impl a).owner = some k) (hqueue : (s.impl a).opQueue ≠ []) :
    (s.impl a).service = some k ∧ (s.impl a).call.ops = [] := by
  constructor
  · cases hservice : (s.impl a).service with
    | none => exact absurd (hquiet.absent a hservice) hqueue
    | some k' => rw [← howner, howned.owner a k' hservice]
  · apply ops_of_not_released
    by_contra hreleased
    obtain ⟨p, hp⟩ := Option.ne_none_iff_exists'.mp hreleased
    exact hqueue (hquiet.released a p hp).1

theorem Delivered.starting (h : Delivered s) (hquiet : Quiet s) (hpaired : Paired s)
    (hwatched : Watched s) (hmove : Starting s s') : Delivered s' := by
  cases hmove with
  | same => exact h
  | construct hnone =>
    have hidle (a : α) := hpaired.absent a
    have habsent (a : α) := hquiet.absent a
    refine h.frame started_link.1 ?_ ?_ started_link.2
    · grind -linarith [Implementation.fresh]
    · grind -linarith
  | assign =>
    refine h.frame rfl ?_ (fun _ => rfl) rfl
    grind -linarith [State.Ready]
  | @reject a k op ec hready hfresh' =>
    exact h.reject a rfl hfresh' held_post (fun _ => rfl) fun _ => rfl
  | @enqueue a k op hready hfresh' | @watch a k op hready hfresh' =>
    have hfresh := hwatched.fresh
    refine h.start (a := a) rfl hfresh' ?_ ?_ ?_ rfl
    · grind -linarith [State.Ready]
    · grind -linarith
    · grind -linarith

theorem Delivered.taking (h : Delivered s) (hquiet : Quiet s) (hmove : Taking s s') :
    Delivered s' := by
  have hopened (a : α) := hquiet.opened a
  cases hmove with
  | destroyClosed =>
    refine h.frame rfl ?_ (fun _ => rfl) rfl
    grind -linarith [State.Ready]
  | take | takeAssign | destroyOpen =>
    refine h.frame rfl ?_ (fun _ => rfl) rfl
    grind -linarith [State.Ready, Implementation.release, Call.released?]
  | @complete a k waitHandle ops t handle hservice hcall hun =>
    have himpl := congrFun (impl_unregister hun)
    obtain ⟨hheld, hstarted, hposted⟩ := held_unregister hun
    have hempty := hquiet.released a _ hcall
    refine Delivered.complete (a := a) h hstarted ?_ ?_ ?_ (fun w => congrFun hheld (.callback w))
    · rcases released?_cases hcall with ⟨hdestroying, hsource⟩ | ⟨hdestroying, hsource⟩ |
        ⟨source, hdestroying, hsource⟩
      all_goals grind -linarith
    · rw [held_post, State.aborted, map_tag]
      have hscheduler : t.held .scheduler = s.held .scheduler := congrFun hheld .scheduler
      have hobject : s.held (.object a) = ops.map (k, ·) := by grind -linarith
      rw [hobject, ← hscheduler]
      rfl
    · grind -linarith

theorem Delivered.moving (h : Delivered s) (hquiet : Quiet s) (hpaired : Paired s)
    (hwatched : Watched s) (hmove : Moving s s') : Delivered s' := by
  have hlent (a source : α) := hpaired.lent a source
  cases hmove with
  | moveAssign | moved hcall =>
    refine h.frame rfl ?_ (fun _ => rfl) rfl
    grind -linarith [State.Ready]
  | @unregistered a source t hcall hun =>
    have himpl := congrFun (impl_unregister hun)
    obtain ⟨hheld, hstarted, hposted⟩ := held_unregister hun
    refine h.frame hstarted ?_ (fun w => congrFun hheld (.callback w)) hposted
    grind -linarith
  | rewatch hcall =>
    have hfresh := hwatched.fresh
    refine h.frame rfl ?_ ?_ rfl
    · grind -linarith
    · grind -linarith
  | @abandon a source k hservice hcall hqueue =>
    refine Delivered.complete (a := a) h rfl ?_ ?_ ?_ fun w => rfl
    · grind -linarith
    · have hobject : s.held (.object a) = (s.impl a).opQueue.map (k, ·) := by grind -linarith
      rw [hobject]
      rw [← map_tag]
      exact held_post
    · grind -linarith
  | @moveConstruct a source k hnone hready =>
    have habsent (a : α) := hquiet.absent a
    have hidle (a : α) := hpaired.absent a
    have hwaits : (s.link k a).waits = s.waits := funext fun _ => waits_link
    refine h.transfer a source ?_ started_link.1 ?_ ?_ ?_ hwaits started_link.2
    all_goals grind -linarith [State.Ready, Implementation.fresh]
  | @moveAssigned a source k hservice hcall =>
    have hassigning := hquiet.assigning
    have hlent' := hlent a source
    refine h.transfer a source ?_ rfl ?_ ?_ ?_ rfl rfl
    all_goals grind -linarith

theorem Delivered.calling (h : Delivered s) (hquiet : Quiet s) (howned : Owned s)
    (hwatched : Watched s) (hmove : Calling s s') : Delivered s' := by
  cases hmove with
  | signal hwait =>
    refine h.frame rfl (fun _ => rfl) ?_ rfl
    grind -linarith
  | callbackIdle hwait hqueue =>
    rw [hwatched.unregisterNow_eq hquiet hwait]
    refine h.frame rfl ?_ ?_ rfl
    · grind -linarith
    · grind -linarith
  | @callbackLast w a k op hwait howner hqueue
  | @callbackFail w a k op ops hwait howner hqueue
  | @callbackNext w a k op ops hwait howner hqueue =>
    obtain ⟨hservice, hops⟩ := callback_service hquiet howned howner (by rw [hqueue]; nofun)
    have hfresh := hwatched.fresh
    have htag (ops : List ω) : (ops.map (·, ErrorCode.system)).map (fun p => (k, p.1)) =
        ops.map (k, ·) := map_tag
    rw [hwatched.unregisterNow_eq hquiet hwait]
    refine Delivered.callback (a := a) (w := w) h rfl ?_ ?_ ?_ ?_ rfl
    all_goals grind -linarith
  | @posted w k ops hwait =>
    refine Delivered.post (w := w) h rfl ?_ ?_ (fun _ => rfl) ?_
    · grind -linarith
    · have hcallback : s.held (.callback w) = ops.map fun p => (k, p.1) := by grind -linarith
      rw [hcallback]
      exact held_post
    · grind -linarith

theorem Delivered.move (h : Delivered s) (hquiet : Quiet s) (hpaired : Paired s)
    (howned : Owned s) (hwatched : Watched s) (hmove : Move s s') : Delivered s' := by
  cases hmove with
  | starting hmove => exact h.starting hquiet hpaired hwatched hmove
  | taking hmove => exact h.taking hquiet hmove
  | moving hmove => exact h.moving hquiet hpaired hwatched hmove
  | calling hmove => exact h.calling hquiet howned hwatched hmove

end Delivered

/-! ### Runs -/

section Runs

/-- What holds of the objects, the calls in progress, the waits and the operations. -/
structure Sound (s : State σ α η ω) : Prop where
  linked : ∃ lists, Linked s lists
  owned : Owned s
  paired : Paired s
  quiet : Quiet s
  watched : Watched s
  delivered : Delivered s
  distinct : (s.started.map Prod.snd).Nodup

theorem sound_initial : Sound (initial : State σ α η ω) where
  linked := ⟨fun _ => [], Lists.represents_nil, fun a k => by
    simp only [List.not_mem_nil, initial, Implementation.LinkedTo, Implementation.fresh,
      reduceCtorEq, false_and]⟩
  owned := ⟨nofun, fun _ => rfl⟩
  paired := ⟨fun _ _ => rfl, nofun, nofun⟩
  quiet := ⟨nofun, nofun, nofun, fun _ h => absurd rfl h, fun _ _ => rfl⟩
  watched := ⟨fun _ _ => rfl, nofun, nofun, fun _ _ h => absurd rfl h⟩
  delivered := Partition.nil.congr fun j => by cases j <;> rfl
  distinct := List.nodup_nil

theorem Sound.usual (h : Sound s) : Usual s where
  shutdown := h.owned.shutdown
  paired a source hsource := (h.paired.lent a source hsource).2
  queued a op hop := by
    cases hservice : (s.impl a).service with
    | none =>
      rw [h.quiet.absent a hservice] at hop
      cases hop
    | some k =>
      have hheld : (k, op) ∈ s.held (.object a) := by
        rw [held_object, hservice, tagged_some]
        exact List.mem_map_of_mem (List.mem_append_left _ hop)
      exact List.mem_map_of_mem ((h.delivered.mem _).mpr ⟨_, hheld⟩)

theorem started_unregisterNow {waitHandle : Option Nat} :
    (s.unregisterNow waitHandle).started = s.started := by
  cases waitHandle with
  | none => rfl
  | some w =>
    simp only [State.unregisterNow]
    split <;> rfl

theorem distinct_of_move (h : (s.started.map Prod.snd).Nodup) (hmove : Move s s') :
    (s'.started.map Prod.snd).Nodup := by
  have hadd {k : σ} {op : ω} (hfresh : op ∉ s.started.map Prod.snd) :
      ((s.started ++ [(k, op)]).map Prod.snd).Nodup := by
    rw [List.map_append, List.map_singleton, ← List.concat_eq_append]
    exact h.concat hfresh
  have hframe (hstarted : s'.started = s.started) : (s'.started.map Prod.snd).Nodup := by
    rwa [hstarted]
  cases hmove with
  | starting hmove =>
    cases hmove with
    | reject _ hfresh | enqueue _ hfresh | watch _ hfresh => exact hadd hfresh
    | construct => exact hframe started_link.1
    | _ => exact h
  | taking hmove =>
    cases hmove with
    | complete _ _ hun => exact hframe (held_unregister hun).2.1
    | _ => exact h
  | moving hmove =>
    cases hmove with
    | moveConstruct => exact hframe started_link.1
    | unregistered _ hun => exact hframe (held_unregister hun).2.1
    | _ => exact h
  | calling hmove =>
    cases hmove with
    | signal | posted => exact h
    | _ => exact hframe started_unregisterNow

theorem Sound.step {act : Action σ α η ω} (h : Sound s) (hsame : SameService s act)
    (hstep : step s act = some s') : Sound s' := by
  have hmove := move_of_step h.usual hsame hstep
  obtain ⟨lists, hlinked⟩ := h.linked
  exact ⟨hlinked.move h.owned h.paired hmove, h.owned.move hmove, h.paired.move hmove,
    h.quiet.move h.paired hmove, h.watched.move h.quiet h.paired hmove,
    h.delivered.move h.quiet h.paired h.owned h.watched hmove, distinct_of_move h.distinct hmove⟩

/-- The object exists, and its destruction has not begun. -/
def Implementation.Live (impl : Implementation σ α η ω) : Prop :=
  impl.service ≠ none ∧ impl.call.isDestroying = false

/-- Every live implementation is linked once, in the list of its owner, where its object has a wait
registered whenever it has operations and no call is in progress on it, and each operation that has
been started is in one place, with the service that it was started on. -/
structure Correct (s : State σ α η ω) : Prop where
  linked : ∃ lists, s.lists.Represents lists ∧
    ∀ a k, a ∈ lists k ↔ (s.impl a).owner = some k ∧ (s.impl a).Live
  service : ∀ a k, (s.impl a).service = some k → (s.impl a).owner = some k
  registered : ∀ a, (s.impl a).call = .idle →
    ((s.impl a).opQueue ≠ [] ↔ ∃ w, (s.waits w).active? = some a)
  unique : ∀ a w w', (s.impl a).call = .idle → (s.waits w).active? = some a →
    (s.waits w').active? = some a → w = w'
  completed : Partition s.held s.started
  distinct : (s.started.map Prod.snd).Nodup

/-- The wait of an idle object is its own. -/
theorem Sound.handle_of_active {a : α} {w : Nat} (h : Sound s) (hidle : (s.impl a).call = .idle)
    (hactive : (s.waits w).active? = some a) :
    (s.impl a).waitHandle = some w ∧ (s.impl a).opQueue ≠ [] := by
  obtain ⟨b, hhas, htarget, hexpecting, hunique⟩ := h.watched.active w a hactive
  have hba : b = a := by
    rw [Implementation.target] at htarget
    split at htarget
    · rename_i source hcall
      have hlent := (h.paired.lent b source (by rw [hcall]; rfl)).1
      rw [htarget, hidle] at hlent
      cases hlent
    · exact htarget
  subst hba
  grind -linarith

theorem Sound.correct (h : Sound s) : Correct s where
  linked := by
    obtain ⟨lists, hrepresents, hmem⟩ := h.linked
    refine ⟨lists, hrepresents, fun a k => ?_⟩
    rw [hmem, Implementation.LinkedTo, Implementation.Live, ← and_assoc]
    refine and_congr_left fun _ => ⟨fun hservice => ?_, ?_⟩
    · exact ⟨h.owned.owner a k hservice, by rw [hservice]; exact Option.some_ne_none k⟩
    · rintro ⟨howner, hne⟩
      obtain ⟨k', hk'⟩ := Option.ne_none_iff_exists'.mp hne
      rwa [← h.owned.owner a k' hk', howner] at hk'
  service := h.owned.owner
  registered a hidle := by
    constructor
    · intro hqueue
      obtain ⟨w, hhas, hactive⟩ := h.watched.queued a (by rw [hidle]; rfl) hqueue
      obtain ⟨b, hb⟩ := Option.ne_none_iff_exists'.mp hactive
      obtain ⟨c, -, htarget, -, hunique⟩ := h.watched.active w b hb
      obtain rfl := hunique a hhas
      rw [Implementation.target_of_settled (by rw [hidle]; rfl)] at htarget
      exact ⟨w, htarget ▸ hb⟩
    · rintro ⟨w, hw⟩
      exact (h.handle_of_active hidle hw).2
  unique a w w' hidle hw hw' := by
    have hhandle := (h.handle_of_active hidle hw).1
    rw [(h.handle_of_active hidle hw').1] at hhandle
    exact (Option.some.inj hhandle).symm
  completed := h.delivered
  distinct := h.distinct

theorem correct_of_reachable (h : Reachable step SameService initial s) : Correct s :=
  (h.invariant sound_initial fun hsound hok hstep => hsound.step hok hstep).correct

instance (s : State σ α η ω) (act : Action σ α η ω) : Decidable (SameService s act) := by
  induction act using Action.casesOn <;> dsimp only [SameService] <;> infer_instance

end Runs

/-- The object that the wait has moved to completes it. -/
theorem correct_of_reachable_moved : ∃ s : State Nat Nat Unit Nat,
    s.posted = [⟨0, 7, .success⟩] ∧ (s.impl 0).handle = some () ∧ Correct s := by
  have hrun : (exec (guarded step SameService) (initial : State Nat Nat Unit Nat)
      [.construct 0 0, .construct 1 0, .assign 1 (some ()), .startWaitOp 1 7 true, .moveAssign 0 1,
        .proceed 0 true, .proceed 0 true, .proceed 0 true, .signal 1, .waitCallback 1 true,
        .postCompletions 1]).map (fun s => (s.posted, (s.impl 0).handle)) =
          some ([⟨0, 7, .success⟩], some ()) := by
    decide +kernel
  obtain ⟨s, hs, hmoved⟩ := Option.map_eq_some_iff.mp hrun
  simp only [Prod.mk.injEq] at hmoved
  exact ⟨s, hmoved.1, hmoved.2, correct_of_reachable (exec_guarded_reachable hs)⟩

/-- An object that is assigned from one of another service is linked where its owner does not look,
and its waits are completed by the service that it had before. -/
theorem moved_between_services : ∃ s : State Nat Nat Unit Nat,
    Reachable step (fun _ _ => True) initial s ∧ (s.impl 0).owner = some 0 ∧
      s.lists.head 1 = some 0 ∧ s.started = [(1, 7)] ∧ s.posted = [⟨0, 7, .success⟩] ∧
        ¬ Correct s := by
  have hrun : (exec (guarded step fun _ _ => True) (initial : State Nat Nat Unit Nat)
      [.construct 0 0, .construct 1 1, .assign 1 (some ()), .startWaitOp 1 7 true, .moveAssign 0 1,
        .proceed 0 true, .proceed 0 true, .proceed 0 true, .signal 1, .waitCallback 1 true,
        .postCompletions 1]).map (fun s =>
          (((s.impl 0).owner, s.lists.head 1), s.started, s.posted)) =
          some ((some 0, some 0), [(1, 7)], [⟨0, 7, .success⟩]) := by
    decide +kernel
  obtain ⟨s, hs, hmoved⟩ := Option.map_eq_some_iff.mp hrun
  simp only [Prod.mk.injEq] at hmoved
  obtain ⟨⟨howner, hhead⟩, hstarted, hposted⟩ := hmoved
  refine ⟨s, exec_guarded_reachable hs, howner, hhead, hstarted, hposted, fun hcorrect => ?_⟩
  have hmem : (0, 7) ∈ s.started := by
    refine (hcorrect.completed.mem (0, 7)).mpr ⟨.scheduler, ?_⟩
    rw [State.held, hposted]
    exact List.mem_singleton_self _
  rw [hstarted, List.mem_singleton] at hmem
  cases hmem

end Asio.Detail.WinObjectHandleService
