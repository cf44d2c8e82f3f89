import Asio.Awaitable

/-! The frames of a coroutine are a stack, which one object owns. -/

universe u v

namespace Asio.Awaitable

open Lib Transition

variable {ε : Type u} {α : Type v}

/-! ### The stack -/

/-- What is done with the stack: an object owns it, which is about to resume the frame at the top,
perhaps with the result of another frame, or has resumed it, or waits to be called. -/
inductive Mode (ε : Type u) (α : Type v)
  | constructed (o : Nat)
  | ready (o : Nat) (delivery : Option (Delivery ε α))
  | running (o : Nat)
  | detached (o : Nat)
  | posted

namespace Mode

def owner : Mode ε α → Option Nat
  | .constructed o | .ready o _ | .running o | .detached o => some o
  | .posted => none

/-- The object that pumps the stack. -/
def attached : Mode ε α → Option Nat
  | .ready o _ | .running o => some o
  | _ => none

def inFlight : Mode ε α → List (Delivery ε α)
  | .ready _ (some delivery) => [delivery]
  | _ => []

end Mode

/-- The role of an object that does not own the stack. -/
inductive Role.Stale : Role → Prop
  | gone : Role.Stale .gone
  | initiating (handler : Nat) : Role.Stale (.initiating handler)
  | returned : Role.Stale .returned
  | atInitiation : Role.Stale .atInitiation

/-- A frame awaits the one above it. -/
def Awaits (s : State ε α) (above f : Nat) : Prop :=
  (s.frames f).point = .awaiting above ∧ s.awaitedBy above = f

/-- Where the frame at the top of the stack is. -/
def AtTop (s : State ε α) (stack : List Nat) : Mode ε α → Prop
  | .constructed _ => stack.head? = some entryPoint ∧ (s.frames entryPoint).point = .awaited
  | .ready _ none =>
    (∃ f, stack.head? = some f ∧ (s.frames f).point = .awaited) ∨
      (stack = [] ∧ (s.frames entryPoint).point = .ended)
  | .ready _ (some delivery) =>
    stack.head? = some delivery.caller ∧
      (s.frames delivery.caller).point = .awaiting delivery.callee ∧
      delivery.callee ∉ stack ∧ (s.frames delivery.callee).point = .ended ∧
      (s.frames delivery.callee).get = some delivery.result
  | .running _ => ∃ f, stack.head? = some f ∧ (s.frames f).point = .running
  | .detached _ | .posted =>
    ∃ f, stack.head? = some f ∧ (s.frames f).point = .initiated ∧ f ≠ entryPoint

/-- What the owner of the stack does. -/
def Plays (stack : List Nat) : Mode ε α → Role → Prop
  | .constructed _, role => role = .constructed
  | .ready _ _, role => (role = .pumping ∧ stack ≠ []) ∨ role = .returned
  | .running _, role => ∃ f, stack.head? = some f ∧ role = .running f
  | .detached _, role => role = .atInitiation ∨ role = .pending
  | .posted, _ => False

/-- The pointers of the frames represent the stack. -/
structure Linked (s : State ε α) (stack : List Nat) (mode : Mode ε α) : Prop where
  chain : Chain (fun f => (s.frames f).caller) s.topOfStack stack
  nodup : stack.Nodup
  bottom : ∀ f, stack.getLast? = some f → f = entryPoint
  awaits : stack.IsChain (Awaits s)
  top : AtTop s stack mode
  started : ∀ f ∈ stack, (s.frames f).point ≠ .free ∧ (s.frames f).point ≠ .created
  attached : ∀ f, (s.frames f).attachedThread =
    if stack.head? = some f then mode.attached else none
  unsettled : ∀ f, (s.frames f).point ≠ .ended → (s.frames f).pendingException = none
  entry : (s.frames entryPoint).operation = false
  log : s.completions = s.resumptions ++ mode.inFlight

/-- The objects represent the ownership. -/
structure Owned (s : State ε α) (stack : List Nat) (mode : Mode ε α) : Prop where
  owner : ∀ o, (s.threads o).bottomOfStack =
    if mode.owner = some o then some entryPoint else none
  plays : ∀ o, mode.owner = some o → Plays stack mode (s.threads o).role
  stale : ∀ o, mode.owner ≠ some o → (s.threads o).role.Stale
  handlers : ∀ o l, (s.threads o).role = .initiating l → (s.threads l).role = .atInitiation
  inits : ∀ o o' l, (s.threads o).role = .initiating l → (s.threads o').role = .initiating l →
    o = o'
  life : s.life = if mode.owner.isSome then .owned else .posted

section Stack

variable {s s' : State ε α} {stack rest : List Nat} {mode mode' : Mode ε α} {f g o : Nat}

theorem isChain_congr (h : (f :: rest).IsChain (Awaits s))
    (hpoint : ∀ x ∈ rest, (s'.frames x).point = (s.frames x).point)
    (hawaitedBy : ∀ x ∈ f :: rest, s'.awaitedBy x = s.awaitedBy x) :
    (f :: rest).IsChain (Awaits s') := by
  induction rest generalizing f with
  | nil => exact .singleton f
  | cons c rest ih =>
    obtain ⟨hawaits, hrest⟩ := List.isChain_cons_cons.mp h
    refine List.isChain_cons_cons.mpr ⟨⟨?_, ?_⟩, ih hrest ?_ ?_⟩
    · rw [hpoint c List.mem_cons_self]
      exact hawaits.1
    · rw [hawaitedBy f List.mem_cons_self]
      exact hawaits.2
    · exact fun x hx => hpoint x (List.mem_cons_of_mem _ hx)
    · exact fun x hx => hawaitedBy x (List.mem_cons_of_mem _ hx)

/-- Only the frame at the top changes, and frames outside the stack. -/
theorem Linked.of_top (h : Linked s (f :: rest) mode)
    (hrest : ∀ x ∈ rest, s'.frames x = s.frames x)
    (hcaller : (s'.frames f).caller = (s.frames f).caller)
    (hstarted : (s'.frames f).point ≠ .free ∧ (s'.frames f).point ≠ .created)
    (htopOfStack : s'.topOfStack = s.topOfStack) (hawaitedBy : s'.awaitedBy = s.awaitedBy)
    (htop : AtTop s' (f :: rest) mode')
    (hattached : ∀ x, (s'.frames x).attachedThread = if f = x then mode'.attached else none)
    (hunsettled : ∀ x, (s'.frames x).point ≠ .ended → (s'.frames x).pendingException = none)
    (hentry : (s'.frames entryPoint).operation = false)
    (hlog : s'.completions = s'.resumptions ++ mode'.inFlight) :
    Linked s' (f :: rest) mode' where
  chain := by
    rw [htopOfStack]
    refine h.chain.congr fun x hx => ?_
    rcases List.mem_cons.mp hx with rfl | hx
    · exact hcaller
    · rw [hrest x hx]
  nodup := h.nodup
  bottom := h.bottom
  awaits := isChain_congr h.awaits (fun x hx => by rw [hrest x hx])
    fun x _ => by rw [hawaitedBy]
  top := htop
  started x hx := by
    rcases List.mem_cons.mp hx with rfl | hx
    · exact hstarted
    · rw [hrest x hx]
      exact h.started x (List.mem_cons_of_mem _ hx)
  attached x := by
    rw [hattached x, List.head?_cons]
    simp only [Option.some.injEq]
  unsettled := hunsettled
  entry := hentry
  log := hlog

theorem Linked.of_mode (h : Linked s stack mode) (hattached : mode'.attached = mode.attached)
    (htop : AtTop s stack mode') (hinFlight : mode'.inFlight = mode.inFlight) :
    Linked s stack mode' where
  chain := h.chain
  nodup := h.nodup
  bottom := h.bottom
  awaits := h.awaits
  top := htop
  started := h.started
  attached := by
    rw [hattached]
    exact h.attached
  unsettled := h.unsettled
  entry := h.entry
  log := by
    rw [hinFlight]
    exact h.log

theorem Linked.of_same (h : Linked s stack mode) (hframes : s'.frames = s.frames)
    (htopOfStack : s'.topOfStack = s.topOfStack) (hawaitedBy : s'.awaitedBy = s.awaitedBy)
    (hcompletions : s'.completions = s.completions)
    (hresumptions : s'.resumptions = s.resumptions) : Linked s' stack mode := by
  have hawaits : Awaits s' = Awaits s := by
    funext above f
    rw [Awaits, Awaits, hframes, hawaitedBy]
  have htop : AtTop s' stack mode = AtTop s stack mode := by
    cases mode with
    | ready o delivery => cases delivery <;> simp only [AtTop, hframes]
    | _ => simp only [AtTop, hframes]
  obtain ⟨hchain, hnodup, hbottom, hchained, hattop, hstarted, hattached, hunsettled, hentry, hlog⟩ :=
    h
  constructor <;> simpa only [hframes, htopOfStack, hcompletions, hresumptions, hawaits, htop]

/-! ### Ownership -/

theorem Owned.owner_of_role (h : Owned s stack mode) (hrole : ¬ (s.threads o).role.Stale) :
    mode.owner = some o := by
  by_contra hne
  exact hrole (h.stale o hne)

theorem Owned.owner_of_bottom (h : Owned s stack mode) {e : Nat}
    (hbottom : (s.threads o).bottomOfStack = some e) : mode.owner = some o ∧ e = entryPoint := by
  rw [h.owner] at hbottom
  split at hbottom
  · rename_i howner
    cases hbottom
    exact ⟨howner, rfl⟩
  · cases hbottom

theorem Owned.bottom (h : Owned s stack mode) (howner : mode.owner = some o) :
    (s.threads o).bottomOfStack = some entryPoint := by
  rw [h.owner, if_pos howner]

theorem Owned.constructed (h : Owned s stack mode)
    (hrole : (s.threads o).role = .constructed) : mode = .constructed o := by
  have howner := h.owner_of_role (o := o) (by rw [hrole]; exact nofun)
  have hplays := h.plays o howner
  rw [hrole] at hplays
  cases mode with
  | constructed o' => rw [Option.some.inj howner]
  | ready | running | detached => simp [Plays] at hplays
  | posted => cases howner

theorem Owned.pumping (h : Owned s stack mode) (hrole : (s.threads o).role = .pumping) :
    (∃ delivery, mode = .ready o delivery) ∧ stack ≠ [] := by
  have howner := h.owner_of_role (o := o) (by rw [hrole]; exact nofun)
  have hplays := h.plays o howner
  rw [hrole] at hplays
  cases mode with
  | ready o' delivery =>
    simp only [Plays, true_and, reduceCtorEq, or_false] at hplays
    exact ⟨⟨delivery, by rw [Option.some.inj howner]⟩, hplays⟩
  | constructed | running | detached => simp [Plays] at hplays
  | posted => cases howner

theorem Owned.running (h : Owned s stack mode) (hrole : (s.threads o).role = .running f) :
    mode = .running o ∧ stack.head? = some f := by
  have howner := h.owner_of_role (o := o) (by rw [hrole]; exact nofun)
  have hplays := h.plays o howner
  rw [hrole] at hplays
  cases mode with
  | running o' =>
    obtain ⟨g, hg, heq⟩ := hplays
    cases heq
    exact ⟨by rw [Option.some.inj howner], hg⟩
  | constructed | ready | detached => simp [Plays] at hplays
  | posted => cases howner

theorem Owned.pending (h : Owned s stack mode) (hrole : (s.threads o).role = .pending) :
    mode = .detached o := by
  have howner := h.owner_of_role (o := o) (by rw [hrole]; exact nofun)
  have hplays := h.plays o howner
  rw [hrole] at hplays
  cases mode with
  | detached o' => rw [Option.some.inj howner]
  | constructed | ready | running => simp [Plays] at hplays
  | posted => cases howner

theorem Owned.returned (h : Owned s stack mode) (hrole : (s.threads o).role = .returned)
    (howner : mode.owner = some o) : ∃ delivery, mode = .ready o delivery := by
  have hplays := h.plays o howner
  rw [hrole] at hplays
  cases mode with
  | ready o' delivery => exact ⟨delivery, by rw [Option.some.inj howner]⟩
  | constructed | running | detached => simp [Plays] at hplays
  | posted => cases howner

theorem Owned.atInitiation (h : Owned s stack mode) (hrole : (s.threads o).role = .atInitiation)
    (howner : mode.owner = some o) : mode = .detached o := by
  have hplays := h.plays o howner
  rw [hrole] at hplays
  cases mode with
  | detached o' => rw [Option.some.inj howner]
  | constructed | ready | running => simp [Plays] at hplays
  | posted => cases howner

/-- The owner of the stack goes on to another role. -/
theorem Owned.setRole (h : Owned s stack mode) {stack' : List Nat} {role : Role}
    (howner : mode.owner = some o) (howner' : mode'.owner = some o)
    (hthreads : s'.threads = Function.update s.threads o { s.threads o with role := role })
    (hplays : Plays stack' mode' role)
    (hnot : (s.threads o).role ≠ .atInitiation) (hrole : ∀ l, role ≠ .initiating l)
    (hlife : s'.life = s.life) : Owned s' stack' mode' := by
  have hsame (x : Nat) (hx : x ≠ o) : s'.threads x = s.threads x := by
    rw [hthreads, Function.update_of_ne hx]
  have hself : s'.threads o = { s.threads o with role := role } := by
    rw [hthreads, Function.update_self]
  refine ⟨fun x => ?_, fun x hx => ?_, fun x hx => ?_, fun x l hx => ?_,
    fun x x' l hx hx' => ?_, ?_⟩
  · rw [howner', ← howner, ← h.owner]
    by_cases hx : x = o
    · rw [hx, hself]
    · rw [hsame x hx]
  · obtain rfl : o = x := Option.some.inj (howner'.symm.trans hx)
    rw [hself]
    exact hplays
  · have hne : x ≠ o := by
      rintro rfl
      exact hx howner'
    rw [hsame x hne]
    exact h.stale x fun heq => hne (Option.some.inj (heq.symm.trans howner))
  · have hne : x ≠ o := by
      rintro rfl
      rw [hself] at hx
      exact hrole l hx
    rw [hsame x hne] at hx
    have hl := h.handlers x l hx
    have hlo : l ≠ o := by
      rintro rfl
      exact hnot hl
    rw [hsame l hlo]
    exact hl
  · have hne (y : Nat) (hy : (s'.threads y).role = .initiating l) : y ≠ o := by
      rintro rfl
      rw [hself] at hy
      exact hrole l hy
    have hne' := hne x' hx'
    have hne := hne x hx
    rw [hsame x hne] at hx
    rw [hsame x' hne'] at hx'
    exact h.inits x x' l hx hx'
  · rw [hlife, h.life, howner, howner']

end Stack

/-- A thread that is not over. -/
def Represents (s : State ε α) (stack : List Nat) (mode : Mode ε α) : Prop :=
  Linked s stack mode ∧ Owned s stack mode

section Steps

variable {s s' : State ε α} {stack rest : List Nat} {mode mode' : Mode ε α} {f g o : Nat}

/-! ### Launching and resuming -/

@[simp] theorem frames_setFrame (frame : Frame ε α) :
    (s.setFrame f frame).frames = Function.update s.frames f frame := rfl

@[simp] theorem frames_setThread (thread : Thread) : (s.setThread o thread).frames = s.frames :=
  rfl

@[simp] theorem threads_setFrame (frame : Frame ε α) : (s.setFrame f frame).threads = s.threads :=
  rfl

@[simp] theorem threads_setThread (thread : Thread) :
    (s.setThread o thread).threads = Function.update s.threads o thread := rfl

@[simp] theorem threads_setRole (role : Role) : (s.setRole o role).threads =
    Function.update s.threads o { s.threads o with role := role } := rfl

@[simp] theorem frames_setRole (role : Role) : (s.setRole o role).frames = s.frames := rfl

theorem Linked.head (h : Linked s stack mode) : s.topOfStack = stack.head? := h.chain.head_eq

theorem Linked.attached_cons (h : Linked s (f :: rest) mode) (x : Nat) :
    (s.frames x).attachedThread = if f = x then mode.attached else none := by
  rw [h.attached, List.head?_cons]
  simp only [Option.some.injEq]

/-- Only the frame at the top changes. -/
theorem Linked.setTop (h : Linked s (f :: rest) mode) {frame : Frame ε α}
    (hframes : s'.frames = Function.update s.frames f frame)
    (hoperation : frame.operation = (s.frames f).operation)
    (hcaller : frame.caller = (s.frames f).caller)
    (hstarted : frame.point ≠ .free ∧ frame.point ≠ .created)
    (hattached : frame.attachedThread = mode'.attached)
    (hunsettled : frame.point ≠ .ended → frame.pendingException = none)
    (htopOfStack : s'.topOfStack = s.topOfStack) (hawaitedBy : s'.awaitedBy = s.awaitedBy)
    (htop : AtTop s' (f :: rest) mode') (hlog : s'.completions = s'.resumptions ++ mode'.inFlight) :
    Linked s' (f :: rest) mode' := by
  have hnot : f ∉ rest := (List.nodup_cons.mp h.nodup).1
  have hself : s'.frames f = frame := by rw [hframes, Function.update_self]
  have hother {x : Nat} (hx : x ≠ f) : s'.frames x = s.frames x := by
    rw [hframes, Function.update_of_ne hx]
  refine h.of_top (fun x hx => hother fun heq => hnot (heq ▸ hx)) ?_ ?_ htopOfStack hawaitedBy htop
    (fun x => ?_) (fun x hx => ?_) ?_ hlog
  · rw [hself, hcaller]
  · rw [hself]
    exact hstarted
  · by_cases hx : f = x
    · rw [← hx, hself, hattached, if_pos rfl]
    · rw [hother (Ne.symm hx), h.attached_cons, if_neg hx, if_neg hx]
  · by_cases heq : x = f
    · subst heq
      rw [hself] at hx ⊢
      exact hunsettled hx
    · rw [hother heq] at hx ⊢
      exact h.unsettled x hx
  · by_cases heq : entryPoint = f
    · rw [heq, hself, hoperation, ← heq]
      exact h.entry
    · rw [hother heq]
      exact h.entry

theorem represents_launch (h : Represents s stack mode) (hstep : s.launch o = some s') :
    ∃ mode', Represents s' stack mode' := by
  obtain ⟨hlinked, howned⟩ := h
  unfold State.launch at hstep
  split at hstep
  · rename_i hrole
    obtain rfl := howned.constructed hrole
    obtain ⟨f, hf, rfl⟩ := Option.map_eq_some_iff.mp hstep
    obtain ⟨hentry, hpoint⟩ := hlinked.top
    rw [hlinked.head, hentry] at hf
    cases hf
    obtain ⟨rest, rfl⟩ := List.head?_eq_some_iff.mp hentry
    refine ⟨.ready o none, hlinked.setTop rfl rfl rfl (hlinked.started _ List.mem_cons_self) rfl
      (hlinked.unsettled _) rfl rfl (Or.inl ⟨entryPoint, rfl, ?_⟩) hlinked.log,
      howned.setRole rfl rfl rfl (Or.inl ⟨rfl, nofun⟩) (by rw [hrole]; exact nofun) nofun rfl⟩
    simp only [frames_setRole, State.attachThread, frames_setFrame, Function.update_self]
    exact hpoint
  · cases hstep

/-- The frame at the top takes the result of the one that it has awaited. -/
theorem Linked.resumed {result : Except ε α}
    (h : Linked s (f :: rest) (.ready o (some ⟨f, g, result⟩)))
    (hattached : (s.frames f).attachedThread = some o)
    (hpoint : (s.frames f).point = .awaiting g) (hnotin : g ∉ f :: rest) :
    Linked { (((s.setFrame g .free).setFrame f { (s.setFrame g .free).frames f with
      point := .running }).setRole o (.running f)) with
        resumptions := s.resumptions ++ [⟨f, g, result⟩] } (f :: rest) (.running o) := by
  have hnot : f ∉ rest := (List.nodup_cons.mp h.nodup).1
  have hfg : f ≠ g := fun heq => hnotin (heq ▸ List.mem_cons_self)
  have hunsettled := h.unsettled f (by rw [hpoint]; exact nofun)
  refine h.of_top (fun x hx => ?_) ?_ ?_ rfl rfl ⟨f, rfl, ?_⟩ (fun x => ?_) (fun x => ?_) ?_ ?_
  all_goals simp only [frames_setRole, frames_setFrame]
  · have hxf : x ≠ f := fun heq => hnot (heq ▸ hx)
    have hxg : x ≠ g := fun heq => hnotin (List.mem_cons_of_mem _ (heq ▸ hx))
    rw [Function.update_of_ne hxf, Function.update_of_ne hxg]
  · rw [Function.update_self, Function.update_of_ne hfg]
  · rw [Function.update_self]
    exact ⟨nofun, nofun⟩
  · rw [Function.update_self]
  · by_cases hxf : f = x
    · subst hxf
      rw [Function.update_self, Function.update_of_ne hfg, if_pos rfl, hattached]
      rfl
    · rw [Function.update_of_ne (Ne.symm hxf), if_neg hxf]
      by_cases hxg : x = g
      · rw [hxg, Function.update_self]
        rfl
      · rw [Function.update_of_ne hxg, h.attached_cons, if_neg hxf]
  · by_cases hxf : x = f
    · subst hxf
      rw [Function.update_self, Function.update_of_ne hfg]
      exact fun _ => hunsettled
    · rw [Function.update_of_ne hxf]
      by_cases hxg : x = g
      · rw [hxg, Function.update_self]
        exact fun _ => rfl
      · rw [Function.update_of_ne hxg]
        exact h.unsettled x
  · by_cases heq : entryPoint = f
    · rw [heq, Function.update_self, Function.update_of_ne hfg, ← heq]
      exact h.entry
    · rw [Function.update_of_ne heq]
      by_cases heq' : entryPoint = g
      · rw [heq', Function.update_self]
        rfl
      · rw [Function.update_of_ne heq']
        exact h.entry
  · exact h.log.trans (List.append_nil _).symm

theorem represents_resume (h : Represents s stack mode) (hstep : s.resume o = some s') :
    ∃ mode', Represents s' stack mode' := by
  obtain ⟨hlinked, howned⟩ := h
  unfold State.resume at hstep
  split at hstep
  · rename_i e f hrole hbottom htop
    obtain ⟨⟨delivery, rfl⟩, -⟩ := howned.pumping hrole
    have hhead : stack.head? = some f := hlinked.head.symm.trans htop
    obtain ⟨rest, rfl⟩ := List.head?_eq_some_iff.mp hhead
    have hattached : (s.frames f).attachedThread = some o := by
      rw [hlinked.attached_cons, if_pos rfl]
      rfl
    have hplays : Plays (f :: rest) (.running o : Mode ε α) (.running f) := ⟨f, rfl, rfl⟩
    have hrole' : (s.threads o).role ≠ .atInitiation := by rw [hrole]; exact nofun
    split at hstep
    · rename_i hpoint
      cases hstep
      have hunsettled := hlinked.unsettled f (by rw [hpoint]; exact nofun)
      have hlog : s.completions = s.resumptions ++ [] := by
        cases delivery with
        | some delivery =>
          obtain ⟨hcaller, hawaiting, -⟩ := hlinked.top
          cases hhead.symm.trans hcaller
          rw [hpoint] at hawaiting
          cases hawaiting
        | none => exact hlinked.log
      refine ⟨.running o, hlinked.setTop rfl rfl rfl ⟨nofun, nofun⟩ hattached (fun _ => hunsettled)
        rfl rfl ⟨f, rfl, ?_⟩ hlog, howned.setRole rfl rfl rfl hplays hrole' nofun rfl⟩
      simp only [frames_setRole, frames_setFrame, Function.update_self]
    · rename_i g hpoint
      obtain ⟨result, hget, rfl⟩ := Option.map_eq_some_iff.mp hstep
      cases delivery with
      | none =>
        rcases hlinked.top with ⟨f', hf', hawaited⟩ | ⟨hnil, -⟩
        · cases hf'
          rw [hpoint] at hawaited
          cases hawaited
        · cases hnil
      | some delivery =>
        obtain ⟨c, callee, r⟩ := delivery
        obtain ⟨hcaller, hawaiting, hnotin, -, hresult⟩ := hlinked.top
        obtain rfl : f = c := Option.some.inj (hhead.symm.trans hcaller)
        obtain rfl : g = callee := Point.awaiting.inj (hpoint.symm.trans hawaiting)
        obtain rfl : result = r := Option.some.inj (hget.symm.trans hresult)
        exact ⟨.running o, hlinked.resumed hattached hpoint hnotin,
          howned.setRole rfl rfl rfl hplays hrole' nofun rfl⟩
    · cases hstep
  · cases hstep

/-! ### Awaiting -/

theorem Represents.attachedEntryPoint (h : Represents s (f :: rest) mode)
    (howner : mode.owner = some o) (hattached : mode.attached = some o) :
    s.attachedEntryPoint f = some (o, entryPoint) := by
  rw [State.attachedEntryPoint, h.1.attached_cons, if_pos rfl, hattached, Option.bind_some,
    h.2.bottom howner]
  rfl

/-- A frame that has been created is pushed on the stack. -/
theorem Linked.push (h : Linked s (f :: rest) (.running o))
    (hpoint : (s.frames f).point = .running) (hcreated : (s.frames g).point = .created)
    (hframes : s'.frames = Function.update (Function.update s.frames g { s.frames g with
      point := .awaited, caller := some f, attachedThread := some o }) f { s.frames f with
        point := .awaiting g, attachedThread := none })
    (htopOfStack : s'.topOfStack = some g)
    (hawaitedBy : s'.awaitedBy = Function.update s.awaitedBy g f)
    (hlog : s'.completions = s'.resumptions) :
    Linked s' (g :: f :: rest) (.ready o none) := by
  have hnot : g ∉ f :: rest := fun hmem => (h.started g hmem).2 hcreated
  have hfg : f ≠ g := fun heq => hnot (heq ▸ List.mem_cons_self)
  have hfrest : f ∉ rest := (List.nodup_cons.mp h.nodup).1
  have hf : s'.frames f = { s.frames f with point := .awaiting g, attachedThread := none } := by
    rw [hframes, Function.update_self]
  have hg : s'.frames g = { s.frames g with
      point := .awaited, caller := some f, attachedThread := some o } := by
    rw [hframes, Function.update_of_ne (Ne.symm hfg), Function.update_self]
  have hother {x : Nat} (hxf : x ≠ f) (hxg : x ≠ g) : s'.frames x = s.frames x := by
    rw [hframes, Function.update_of_ne hxf, Function.update_of_ne hxg]
  have hrest {x : Nat} (hx : x ∈ rest) : s'.frames x = s.frames x :=
    hother (fun heq => hfrest (heq ▸ hx)) fun heq => hnot (List.mem_cons_of_mem _ (heq ▸ hx))
  have hcaller : Chain (fun x => (s'.frames x).caller) (some f) (f :: rest) := by
    rw [← h.chain.1]
    refine h.chain.congr fun x hx => ?_
    rcases List.mem_cons.mp hx with rfl | hx
    · rw [hf]
    · rw [hrest hx]
  have hchain : Chain (fun x => (s'.frames x).caller) s'.topOfStack (g :: f :: rest) := by
    refine ⟨htopOfStack, ?_⟩
    simpa only [hg] using hcaller
  have hawaits : (g :: f :: rest).IsChain (Awaits s') := by
    refine List.isChain_cons_cons.mpr ⟨⟨by rw [hf], ?_⟩, ?_⟩
    · rw [hawaitedBy, Function.update_self]
    · refine isChain_congr h.awaits (fun x hx => by rw [hrest hx]) fun x hx => ?_
      rw [hawaitedBy, Function.update_of_ne fun heq : x = g => hnot (heq ▸ hx)]
  refine ⟨hchain, List.nodup_cons.mpr ⟨hnot, h.nodup⟩, fun x hx => ?_, hawaits,
    Or.inl ⟨g, rfl, by rw [hg]⟩, fun x hx => ?_, fun x => ?_, fun x hx => ?_, ?_,
    hlog.trans (List.append_nil _).symm⟩
  · rw [List.getLast?_cons_cons] at hx
    exact h.bottom x hx
  · rcases List.mem_cons.mp hx with rfl | hx
    · rw [hg]
      exact ⟨nofun, nofun⟩
    · rcases List.mem_cons.mp hx with rfl | hx
      · rw [hf]
        exact ⟨nofun, nofun⟩
      · rw [hrest hx]
        exact h.started x (List.mem_cons_of_mem _ hx)
  · rw [List.head?_cons]
    by_cases hxg : g = x
    · rw [← hxg, hg, if_pos rfl]
      rfl
    · rw [if_neg (fun heq => hxg (Option.some.inj heq))]
      by_cases hxf : x = f
      · rw [hxf, hf]
      · rw [hother hxf (Ne.symm hxg), h.attached_cons, if_neg (Ne.symm hxf)]
  · by_cases hxf : x = f
    · rw [hxf, hf]
      exact h.unsettled f (by rw [hpoint]; exact nofun)
    · by_cases hxg : x = g
      · rw [hxg, hg]
        exact h.unsettled g (by rw [hcreated]; exact nofun)
      · rw [hother hxf hxg] at hx ⊢
        exact h.unsettled x hx
  · by_cases hef : entryPoint = f
    · rw [hef, hf, ← hef]
      exact h.entry
    · by_cases heg : entryPoint = g
      · rw [heg, hg, ← heg]
        exact h.entry
      · rw [hother hef heg]
        exact h.entry

theorem represents_await (h : Represents s stack mode) (hstep : s.await o g = some s') :
    ∃ stack' mode', Represents s' stack' mode' := by
  obtain ⟨hlinked, howned⟩ := h
  unfold State.await at hstep
  split at hstep
  · rename_i f hrole
    obtain ⟨rfl, hhead⟩ := howned.running hrole
    obtain ⟨rest, rfl⟩ := List.head?_eq_some_iff.mp hhead
    split at hstep
    · rename_i hguard
      have hcreated := hguard.2
      have hattached := Represents.attachedEntryPoint ⟨hlinked, howned⟩ rfl rfl
      rw [State.pushFrame, hattached] at hstep
      cases hstep
      obtain ⟨f', hf', hpoint⟩ := hlinked.top
      cases hf'
      have hfg : f ≠ g := by
        rintro rfl
        rw [hpoint] at hcreated
        cases hcreated
      refine ⟨g :: f :: rest, .ready o none, hlinked.push hpoint hcreated ?_ rfl rfl ?_,
        howned.setRole rfl rfl rfl (Or.inr rfl) (by rw [hrole]; exact nofun) nofun rfl⟩
      · funext x
        simp only [frames_setRole, frames_setFrame, Function.update_self,
          Function.update_of_ne hfg, Function.update_of_ne (Ne.symm hfg)]
        by_cases hxf : x = f
        · rw [hxf, Function.update_self, Function.update_self]
        · by_cases hxg : x = g
          · rw [hxg, Function.update_of_ne (Ne.symm hfg), Function.update_self,
              Function.update_of_ne (Ne.symm hfg), Function.update_self]
          · rw [Function.update_of_ne hxf, Function.update_of_ne hxg, Function.update_of_ne hxf,
              Function.update_of_ne hxg, Function.update_of_ne hxf, Function.update_of_ne hxg]
      · exact hlinked.log.trans (List.append_nil _)
    · cases hstep
  · cases hstep

/-! ### Getting a result -/

theorem get_settle {frame : Frame ε α} (h : frame.pendingException = none)
    (result : Except ε α) (point : Point) :
    { frame.settle result with point := point, attachedThread := none, caller := none }.get =
      some result := by
  cases result with
  | ok value => simp only [Frame.settle, Frame.get, h, Option.map_some]
  | error exception => rfl

/-- What getting a result and popping the frame does. -/
structure Popped (s : State ε α) (f o : Nat) (rest : List Nat) (result : Except ε α)
    (s' : State ε α) : Prop where
  top : s'.frames f = { (s.frames f).settle result with
    point := .ended, attachedThread := none, caller := none }
  caller : ∀ c, rest.head? = some c → s'.frames c = { s.frames c with attachedThread := some o }
  other : ∀ x, x ≠ f → rest.head? ≠ some x → s'.frames x = s.frames x
  topOfStack : s'.topOfStack = rest.head?
  awaitedBy : s'.awaitedBy = s.awaitedBy
  resumptions : s'.resumptions = s.resumptions
  completions : s'.completions = s.completions ++
    if f = entryPoint then [] else [⟨s.awaitedBy f, f, result⟩]
  threads : s'.threads = s.threads
  life : s'.life = s.life

theorem settleAndPop_popped {result : Except ε α} {e : Nat}
    (hstep : s.settleAndPop f result = some s')
    (hattached : s.attachedEntryPoint f = some (o, e))
    (hcaller : (s.frames f).caller = rest.head?) (hnot : f ∉ rest) :
    Popped s f o rest result s' := by
  have hattached' : (s.setFrame f { (s.frames f).settle result with
      point := .ended }).attachedEntryPoint f = some (o, e) := by
    rw [← hattached]
    unfold State.attachedEntryPoint
    rw [frames_setFrame, Function.update_self]
    cases result <;> rfl
  have hcaller' : ((s.setFrame f { (s.frames f).settle result with
      point := .ended }).frames f).caller = rest.head? := by
    rw [frames_setFrame, Function.update_self, ← hcaller]
    cases result <;> rfl
  simp only [State.settleAndPop, State.popFrame, hattached', hcaller', Option.map_some] at hstep
  cases hstep
  cases rest with
  | nil =>
    refine ⟨?_, nofun, fun x hx _ => ?_, rfl, rfl, rfl, rfl, rfl, rfl⟩
    all_goals simp only [List.head?_nil, frames_setFrame]
    · simp only [Function.update_self]
    · rw [Function.update_of_ne hx, Function.update_of_ne hx]
  | cons c rest =>
    have hcf : c ≠ f := fun heq => hnot (heq ▸ List.mem_cons_self)
    refine ⟨?_, fun c' hc' => ?_, fun x hx hne => ?_, rfl, rfl, rfl, rfl, rfl, rfl⟩
    all_goals simp only [List.head?_cons, frames_setFrame]
    · simp only [Function.update_self, Function.update_of_ne (Ne.symm hcf)]
    · cases hc'
      simp only [Function.update_self, Function.update_of_ne hcf]
    · have hxc : x ≠ c := fun heq => hne (congrArg some heq.symm)
      rw [Function.update_of_ne hx, Function.update_of_ne hxc, Function.update_of_ne hx]

/-- It does not matter that the frame has just been attached. -/
theorem Popped.of_attached {result : Except ε α}
    (h : Popped (s.attachThread f o) f o rest result s') (hnot : f ∉ rest) :
    Popped s f o rest result s' := by
  have hframe : (s.attachThread f o).frames f = { s.frames f with attachedThread := some o } := by
    rw [State.attachThread, frames_setFrame, Function.update_self]
  have hother {x : Nat} (hx : x ≠ f) : (s.attachThread f o).frames x = s.frames x := by
    rw [State.attachThread, frames_setFrame, Function.update_of_ne hx]
  refine ⟨?_, fun c hc => ?_, fun x hx hne => ?_, h.topOfStack, h.awaitedBy, h.resumptions,
    h.completions, h.threads, h.life⟩
  · rw [h.top, hframe]
    cases result <;> rfl
  · rw [h.caller c hc, hother]
    rintro rfl
    exact hnot (List.mem_of_mem_head? hc)
  · rw [h.other x hx hne, hother hx]

/-- The result of a frame is for the one that awaits it. -/
def deliveryOf (s : State ε α) (f : Nat) (result : Except ε α) : Option (Delivery ε α) :=
  if f = entryPoint then none else some ⟨s.awaitedBy f, f, result⟩

/-- The frame of the entry point is alone at the bottom of the stack. -/
theorem Linked.entryPoint_iff (h : Linked s (f :: rest) mode) : f = entryPoint ↔ rest = [] := by
  constructor
  · rintro rfl
    by_contra hne
    obtain ⟨xs, z, rfl⟩ := List.eq_nil_or_concat' rest |>.resolve_left hne
    have hz : z = entryPoint := by
      apply h.bottom
      rw [← List.cons_append, List.getLast?_concat]
    apply (List.nodup_cons.mp h.nodup).1
    exact List.mem_append_right _ (List.mem_singleton.mpr hz.symm)
  · rintro rfl
    exact h.bottom f rfl

theorem Linked.awaits_head (h : Linked s (f :: rest) mode) (hf : f ≠ entryPoint) :
    rest.head? = some (s.awaitedBy f) ∧ (s.frames (s.awaitedBy f)).point = .awaiting f := by
  cases rest with
  | nil => exact absurd (h.entryPoint_iff.mpr rfl) hf
  | cons c rest =>
    obtain ⟨⟨hpoint, rfl⟩, -⟩ := List.isChain_cons_cons.mp h.awaits
    exact ⟨rfl, hpoint⟩

theorem Linked.awaits_tail (h : Linked s (f :: rest) mode)
    (hpoint : ∀ x ∈ rest, (s'.frames x).point = (s.frames x).point)
    (hawaitedBy : s'.awaitedBy = s.awaitedBy) : rest.IsChain (Awaits s') := by
  cases rest with
  | nil => exact .nil
  | cons c rest =>
    obtain ⟨-, hrest⟩ := List.isChain_cons_cons.mp h.awaits
    exact isChain_congr hrest (fun x hx => hpoint x (List.mem_cons_of_mem _ hx))
      fun x _ => by rw [hawaitedBy]

theorem Linked.pop (h : Linked s (f :: rest) mode) {result : Except ε α}
    (hpopped : Popped s f o rest result s') (hpoint : (s.frames f).point ≠ .ended)
    (hnone : mode.inFlight = []) :
    Linked s' rest (.ready o (deliveryOf s f result)) := by
  obtain ⟨htop, hcaller, hother, htopOfStack, hawaitedBy, hresumptions, hcompletions, -⟩ := hpopped
  have hnot : f ∉ rest := (List.nodup_cons.mp h.nodup).1
  have hsame (x : Nat) (hx : x ≠ f) : (s'.frames x).point = (s.frames x).point ∧
      (s'.frames x).caller = (s.frames x).caller ∧
      (s'.frames x).pendingException = (s.frames x).pendingException ∧
      (s'.frames x).operation = (s.frames x).operation := by
    by_cases hhead : rest.head? = some x
    · rw [hcaller x hhead]
      exact ⟨rfl, rfl, rfl, rfl⟩
    · rw [hother x hx hhead]
      exact ⟨rfl, rfl, rfl, rfl⟩
  have hin (x : Nat) (hx : x ∈ rest) := hsame x fun heq => hnot (heq ▸ hx)
  refine ⟨?_, (List.nodup_cons.mp h.nodup).2, fun x hx => h.bottom x ?_,
    h.awaits_tail (fun x hx => (hin x hx).1) hawaitedBy, ?_, fun x hx => ?_, fun x => ?_,
    fun x hx => ?_, ?_, ?_⟩
  · rw [htopOfStack, ← h.chain.2.head_eq]
    exact h.chain.2.congr fun x hx => (hin x hx).2.1
  · cases rest with
    | nil => cases hx
    | cons c rest => rwa [List.getLast?_cons_cons]
  · unfold deliveryOf
    split
    · rename_i hentry
      refine Or.inr ⟨h.entryPoint_iff.mp hentry, ?_⟩
      rw [← hentry, htop]
    · rename_i hentry
      obtain ⟨hhead, hawaiting⟩ := h.awaits_head hentry
      have hawaiter : s.awaitedBy f ∈ rest := List.mem_of_mem_head? hhead
      refine ⟨hhead, (hin _ hawaiter).1.trans hawaiting, hnot, by rw [htop], ?_⟩
      rw [htop]
      exact get_settle (h.unsettled f hpoint) result .ended
  · rw [(hin x hx).1]
    exact h.started x (List.mem_cons_of_mem _ hx)
  · split
    · rename_i hhead
      rw [hcaller x hhead]
      rfl
    · rename_i hhead
      by_cases hx : x = f
      · rw [hx, htop]
      · rw [hother x hx hhead, h.attached_cons, if_neg (Ne.symm hx)]
  · have hxf : x ≠ f := by
      rintro rfl
      rw [htop] at hx
      exact hx rfl
    rw [(hsame x hxf).1] at hx
    rw [(hsame x hxf).2.2.1]
    exact h.unsettled x hx
  · by_cases hef : entryPoint = f
    · rw [hef, htop, ← h.entry, hef]
      cases result <;> rfl
    · rw [(hsame entryPoint hef).2.2.2]
      exact h.entry
  · rw [hcompletions, hresumptions, h.log, hnone, List.append_nil]
    unfold deliveryOf
    split <;> rfl

theorem represents_finish (h : Represents s stack mode) {result : Except ε α}
    (hstep : s.finish o result = some s') : ∃ stack' mode', Represents s' stack' mode' := by
  obtain ⟨hlinked, howned⟩ := h
  unfold State.finish at hstep
  split at hstep
  · rename_i f hrole
    obtain ⟨rfl, hhead⟩ := howned.running hrole
    obtain ⟨rest, rfl⟩ := List.head?_eq_some_iff.mp hhead
    split at hstep
    · obtain ⟨t, ht, rfl⟩ := Option.map_eq_some_iff.mp hstep
      have hattached := Represents.attachedEntryPoint ⟨hlinked, howned⟩ rfl rfl
      have hnot : f ∉ rest := (List.nodup_cons.mp hlinked.nodup).1
      have hpopped := settleAndPop_popped ht hattached hlinked.chain.2.head_eq hnot
      obtain ⟨f', hf', hpoint⟩ := hlinked.top
      cases hf'
      have hlinked' := hlinked.pop hpopped (by rw [hpoint]; exact nofun) rfl
      have hthreads : (t.setRole o .returned).threads =
          Function.update s.threads o { s.threads o with role := .returned } := by
        simp only [State.setRole, State.setThread, hpopped.threads]
      exact ⟨rest, _, hlinked'.of_same rfl rfl rfl rfl rfl, howned.setRole rfl rfl hthreads
        (Or.inr rfl) (by rw [hrole]; exact nofun) nofun hpopped.life⟩
    · cases hstep
  · cases hstep

/-! ### Handlers -/

theorem Plays.ne_gone {role : Role} (h : Plays stack mode role) : role ≠ .gone := by
  rintro rfl
  cases mode with
  | posted => exact h
  | _ => simp [Plays] at h

theorem Plays.ne_initiating {role : Role} (h : Plays stack mode role) (l : Nat) :
    role ≠ .initiating l := by
  rintro rfl
  cases mode with
  | posted => exact h
  | _ => simp [Plays] at h

/-- The stack passes from one object to another, which was not there. -/
theorem Owned.passTo (h : Owned s stack mode) {stack' : List Nat} {m : Nat}
    (howner : mode.owner = some o) (howner' : mode'.owner = some m)
    (hgone : (s.threads m).role = .gone)
    (hself : (s'.threads o).bottomOfStack = none ∧ (s'.threads o).role.Stale)
    (hnew : (s'.threads m).bottomOfStack = some entryPoint)
    (hplays : Plays stack' mode' (s'.threads m).role)
    (hother : ∀ x, x ≠ o → x ≠ m → s'.threads x = s.threads x)
    (hinits : ∀ x l, (s'.threads x).role = .initiating l →
      (s.threads x).role = .initiating l ∨ (x = o ∧ l = m))
    (hat : ∀ l, (s'.threads o).role = .initiating l → (s'.threads l).role = .atInitiation)
    (hkept : (s.threads o).role = .atInitiation → (s'.threads o).role = .atInitiation)
    (hlife : s'.life = s.life) : Owned s' stack' mode' := by
  have hom : o ≠ m := by
    rintro rfl
    exact (h.plays o howner).ne_gone hgone
  have hnot (x l : Nat) (hx : (s.threads x).role = .initiating l) : l ≠ m := by
    rintro rfl
    have hl := h.handlers x l hx
    rw [hgone] at hl
    cases hl
  refine ⟨fun x => ?_, fun x hx => ?_, fun x hx => ?_, fun x l hx => ?_,
    fun x x' l hx hx' => ?_, ?_⟩
  · by_cases hxm : x = m
    · rw [hxm, hnew, if_pos howner']
    · rw [if_neg fun heq => hxm (Option.some.inj (heq.symm.trans howner'))]
      by_cases hxo : x = o
      · rw [hxo]
        exact hself.1
      · rw [hother x hxo hxm, h.owner,
          if_neg fun heq => hxo (Option.some.inj (heq.symm.trans howner))]
  · obtain rfl : m = x := Option.some.inj (howner'.symm.trans hx)
    exact hplays
  · by_cases hxo : x = o
    · rw [hxo]
      exact hself.2
    · have hxm : x ≠ m := fun heq => hx (heq ▸ howner')
      rw [hother x hxo hxm]
      exact h.stale x fun heq => hxo (Option.some.inj (heq.symm.trans howner))
  · rcases hinits x l hx with hold | ⟨rfl, rfl⟩
    · have hl := h.handlers x l hold
      by_cases hlo : l = o
      · subst hlo
        exact hkept hl
      · rw [hother l hlo (hnot x l hold)]
        exact hl
    · exact hat l hx
  · rcases hinits x l hx with hold | ⟨rfl, rfl⟩
    · rcases hinits x' l hx' with hold' | ⟨-, rfl⟩
      · exact h.inits x x' l hold hold'
      · exact absurd rfl (hnot x l hold)
    · rcases hinits x' l hx' with hold' | ⟨rfl, -⟩
      · exact absurd rfl (hnot x' l hold')
      · rfl
  · rw [hlife, h.life, howner, howner']
    rfl

theorem represents_initiate (h : Represents s stack mode) {l : Nat}
    (hstep : s.initiate o l = some s') : ∃ mode', Represents s' stack mode' := by
  obtain ⟨hlinked, howned⟩ := h
  unfold State.initiate at hstep
  split at hstep
  · rename_i f hrole
    obtain ⟨rfl, hhead⟩ := howned.running hrole
    obtain ⟨rest, rfl⟩ := List.head?_eq_some_iff.mp hhead
    split at hstep
    · rename_i hguard
      obtain ⟨hoperation, hgone⟩ := hguard
      have hentry : f ≠ entryPoint := by
        rintro rfl
        rw [hlinked.entry] at hoperation
        cases hoperation
      have hattached := Represents.attachedEntryPoint ⟨hlinked, howned⟩ rfl rfl
      rw [State.detachThread, hattached] at hstep
      have hs' := Option.some.inj hstep
      obtain ⟨f', hf', hpoint⟩ := hlinked.top
      cases hf'
      have hunsettled := hlinked.unsettled f (by rw [hpoint]; exact nofun)
      have hol : o ≠ l := by
        rintro rfl
        rw [hrole] at hgone
        cases hgone
      have hframes : s'.frames = Function.update s.frames f { s.frames f with
          point := .initiated, attachedThread := none } := by
        subst hs'
        simp only [frames_setRole, frames_setThread, frames_setFrame, Function.update_self,
          Function.update_idem]
      have ho : s'.threads o = ⟨none, .initiating l⟩ := by
        subst hs'
        simp only [threads_setRole, threads_setThread, Function.update_self]
      have hl : s'.threads l = ⟨some entryPoint, .atInitiation⟩ := by
        subst hs'
        simp only [threads_setRole, threads_setThread, Function.update_of_ne (Ne.symm hol),
          Function.update_self, threads_setFrame]
        rw [howned.bottom rfl]
      have hother (x : Nat) (hxo : x ≠ o) (hxl : x ≠ l) : s'.threads x = s.threads x := by
        subst hs'
        simp only [threads_setRole, threads_setThread, Function.update_of_ne hxo,
          Function.update_of_ne hxl, threads_setFrame]
      refine ⟨.detached l, hlinked.setTop hframes rfl rfl ⟨nofun, nofun⟩ rfl
        (fun _ => hunsettled) ?_ ?_ ⟨f, rfl, ?_, hentry⟩ ?_, howned.passTo rfl rfl hgone ?_ ?_ ?_
        hother (fun x l' hx => ?_) (fun l' hx => ?_) (fun hx => ?_) ?_⟩
      · subst hs'
        rfl
      · subst hs'
        rfl
      · rw [hframes, Function.update_self]
      · subst hs'
        exact hlinked.log
      · rw [ho]
        exact ⟨rfl, .initiating l⟩
      · rw [hl]
      · rw [hl]
        exact Or.inl rfl
      · by_cases hxo : x = o
        · subst hxo
          rw [ho] at hx
          cases hx
          exact Or.inr ⟨rfl, rfl⟩
        · by_cases hxl : x = l
          · rw [hxl, hl] at hx
            cases hx
          · rw [hother x hxo hxl] at hx
            exact Or.inl hx
      · rw [ho] at hx
        cases hx
        rw [hl]
      · rw [hrole] at hx
        cases hx
      · subst hs'
        rfl
    · cases hstep
  · cases hstep

theorem represents_handOver (h : Represents s stack mode) {m : Nat}
    (hstep : s.handOver o m = some s') : ∃ mode', Represents s' stack mode' := by
  obtain ⟨hlinked, howned⟩ := h
  unfold State.handOver at hstep
  split at hstep
  · rename_i l hrole
    split at hstep
    · rename_i hguard
      obtain ⟨hbottom, hgone⟩ := hguard
      obtain ⟨e, he⟩ := Option.isSome_iff_exists.mp hbottom
      obtain ⟨howner, rfl⟩ := howned.owner_of_bottom he
      have hat := howned.handlers o l hrole
      obtain rfl := howned.atInitiation hat howner
      have hs' := Option.some.inj hstep
      have hml : m ≠ l := by
        rintro rfl
        rw [hat] at hgone
        cases hgone
      have hm : s'.threads m = ⟨some entryPoint, .pending⟩ := by
        subst hs'
        simp only [threads_setThread, Function.update_of_ne hml, Function.update_self, he]
      have hl : s'.threads l = ⟨none, .atInitiation⟩ := by
        subst hs'
        simp only [threads_setThread, Function.update_self, Function.update_of_ne (Ne.symm hml),
          hat]
      have hother (x : Nat) (hxl : x ≠ l) (hxm : x ≠ m) : s'.threads x = s.threads x := by
        subst hs'
        simp only [threads_setThread, Function.update_of_ne hxl, Function.update_of_ne hxm]
      have hmode : Linked s stack (.detached m) := hlinked.of_mode rfl hlinked.top rfl
      have hlinked' : Linked s' stack (.detached m) := by
        subst hs'
        exact hmode.of_same rfl rfl rfl rfl rfl
      refine ⟨.detached m, hlinked', howned.passTo rfl rfl hgone ?_ ?_ ?_ hother
        (fun x l' hx => Or.inl ?_) (fun l' hx => ?_) (fun _ => ?_) ?_⟩
      · rw [hl]
        exact ⟨rfl, .atInitiation⟩
      · rw [hm]
      · rw [hm]
        exact Or.inr rfl
      · by_cases hxl : x = l
        · rw [hxl, hl] at hx
          cases hx
        · by_cases hxm : x = m
          · rw [hxm, hm] at hx
            cases hx
          · rwa [hother x hxl hxm] at hx
      · rw [hl] at hx
        cases hx
      · rw [hl]
      · subst hs'
        rfl
    · cases hstep
  · cases hstep

theorem represents_move (h : Represents s stack mode) {m : Nat}
    (hstep : s.move o m = some s') : ∃ mode', Represents s' stack mode' := by
  obtain ⟨hlinked, howned⟩ := h
  unfold State.move at hstep
  split at hstep
  · rename_i hguard
    obtain ⟨hrole, hgone⟩ := hguard
    obtain rfl := howned.pending hrole
    have hs' := Option.some.inj hstep
    have hmo : m ≠ o := by
      rintro rfl
      rw [hrole] at hgone
      cases hgone
    have hm : s'.threads m = s.threads o := by
      subst hs'
      simp only [threads_setThread, Function.update_of_ne hmo, Function.update_self]
    have ho : s'.threads o = .gone := by
      subst hs'
      simp only [threads_setThread, Function.update_self]
    have hother (x : Nat) (hxo : x ≠ o) (hxm : x ≠ m) : s'.threads x = s.threads x := by
      subst hs'
      simp only [threads_setThread, Function.update_of_ne hxo, Function.update_of_ne hxm]
    have hmode : Linked s stack (.detached m) := hlinked.of_mode rfl hlinked.top rfl
    have hlinked' : Linked s' stack (.detached m) := by
      subst hs'
      exact hmode.of_same rfl rfl rfl rfl rfl
    refine ⟨.detached m, hlinked', howned.passTo rfl rfl hgone ?_ ?_ ?_ hother
      (fun x l' hx => Or.inl ?_) (fun l' hx => ?_) (fun hx => ?_) ?_⟩
    · rw [ho]
      exact ⟨rfl, .gone⟩
    · rw [hm]
      exact howned.bottom rfl
    · rw [hm]
      exact Or.inr hrole
    · by_cases hxo : x = o
      · rw [hxo, ho] at hx
        cases hx
      · by_cases hxm : x = m
        · rw [hxm, hm, hrole] at hx
          cases hx
        · rwa [hother x hxo hxm] at hx
    · rw [ho] at hx
      cases hx
    · rw [hrole] at hx
      cases hx
    · subst hs'
      rfl
  · cases hstep

/-- Objects are destroyed or return from an initiation, with the ownership or without. -/
theorem Owned.retire (h : Owned s stack mode) (retired : Nat → Prop)
    (hin : ∀ x, retired x → (s'.threads x).bottomOfStack = none ∧
      ((s'.threads x).role = .gone ∨ (s'.threads x).role = .returned))
    (hout : ∀ x, ¬ retired x → s'.threads x = s.threads x)
    (hrefs : ∀ x l, ¬ retired x → (s.threads x).role = .initiating l → ¬ retired l)
    (hkept : ∀ x, mode'.owner = some x → mode.owner = some x ∧ ¬ retired x ∧
      Plays stack mode' (s.threads x).role)
    (hlost : ∀ x, mode.owner = some x → mode'.owner ≠ some x → retired x)
    (hlife : s'.life = if mode'.owner.isSome then .owned else .posted) :
    Owned s' stack mode' := by
  have hnot {x l : Nat} (hx : (s'.threads x).role = .initiating l) : ¬ retired x := by
    intro hretired
    rcases (hin x hretired).2 with hrole | hrole
    · rw [hrole] at hx
      cases hx
    · rw [hrole] at hx
      cases hx
  refine ⟨fun x => ?_, fun x hx => ?_, fun x hx => ?_, fun x l hx => ?_,
    fun x x' l hx hx' => ?_, hlife⟩
  · by_cases hretired : retired x
    · rw [(hin x hretired).1, if_neg fun hx => (hkept x hx).2.1 hretired]
    · rw [hout x hretired, h.owner]
      by_cases hx : mode'.owner = some x
      · rw [if_pos hx, if_pos (hkept x hx).1]
      · rw [if_neg hx, if_neg fun howner => hretired (hlost x howner hx)]
  · obtain ⟨-, hretired, hplays⟩ := hkept x hx
    rw [hout x hretired]
    exact hplays
  · by_cases hretired : retired x
    · rcases (hin x hretired).2 with hrole | hrole
      · rw [hrole]
        exact .gone
      · rw [hrole]
        exact .returned
    · rw [hout x hretired]
      exact h.stale x fun howner => hretired (hlost x howner hx)
  · have hretired := hnot hx
    rw [hout x hretired] at hx
    rw [hout l (hrefs x l hretired hx)]
    exact h.handlers x l hx
  · rw [hout x (hnot hx)] at hx
    rw [hout x' (hnot hx')] at hx'
    exact h.inits x x' l hx hx'

theorem represents_drop (h : Represents s stack mode) (hstep : s.drop o = some s') :
    ∃ mode', Represents s' stack mode' := by
  obtain ⟨hlinked, howned⟩ := h
  unfold State.drop at hstep
  split at hstep
  · rename_i hrole
    obtain rfl := howned.pending hrole
    cases hstep
    have hmode : Linked s stack .posted := hlinked.of_mode rfl hlinked.top rfl
    refine ⟨.posted, hmode.of_same rfl rfl rfl rfl rfl,
      howned.retire (· = o) (fun x hx => ?_) (fun x hx => ?_) (fun x l _ hx hl => ?_) nofun
      (fun x hx _ => (Option.some.inj hx).symm) ?_⟩
    · subst hx
      simp only [State.destroyThread, threads_setThread, Function.update_self]
      exact ⟨rfl, Or.inl rfl⟩
    · simp only [State.destroyThread, threads_setThread, Function.update_of_ne hx]
    · have hat := howned.handlers x l hx
      rw [hl, hrole] at hat
      cases hat
    · simp only [State.destroyThread, howned.bottom rfl]
      rfl
  · cases hstep

theorem represents_initiated (h : Represents s stack mode) (hstep : s.initiated o = some s') :
    ∃ mode', Represents s' stack mode' := by
  obtain ⟨hlinked, howned⟩ := h
  unfold State.initiated at hstep
  split at hstep
  · rename_i l hrole
    have hat := howned.handlers o l hrole
    have hs' := Option.some.inj hstep
    have hol : o ≠ l := by
      rintro rfl
      rw [hrole] at hat
      cases hat
    have hne : mode.owner ≠ some o := fun howner =>
      (howned.plays o howner).ne_initiating l hrole
    have hbottom : (s.threads o).bottomOfStack = none := by
      rw [howned.owner, if_neg hne]
    have hin (x : Nat) (hx : x = o ∨ x = l) : (s'.threads x).bottomOfStack = none ∧
        ((s'.threads x).role = .gone ∨ (s'.threads x).role = .returned) := by
      subst hs'
      simp only [State.destroyThread, threads_setRole]
      rcases hx with rfl | rfl
      · simp only [Function.update_self, threads_setThread, Function.update_of_ne hol]
        exact ⟨hbottom, Or.inr trivial⟩
      · simp only [Function.update_of_ne (Ne.symm hol), threads_setThread, Function.update_self]
        exact ⟨rfl, Or.inl rfl⟩
    have hout (x : Nat) (hx : ¬ (x = o ∨ x = l)) : s'.threads x = s.threads x := by
      obtain ⟨hxo, hxl⟩ := not_or.mp hx
      subst hs'
      simp only [State.destroyThread, threads_setRole, threads_setThread,
        Function.update_of_ne hxo, Function.update_of_ne hxl]
    have hrefs (x l' : Nat) (hx : ¬ (x = o ∨ x = l)) (hl' : (s.threads x).role = .initiating l') :
        ¬ (l' = o ∨ l' = l) := by
      rintro (rfl | rfl)
      · have hat' := howned.handlers x l' hl'
        rw [hrole] at hat'
        cases hat'
      · exact hx (Or.inl (howned.inits x o l' hl' hrole))
    by_cases howner : mode.owner = some l
    · obtain rfl := howned.atInitiation hat howner
      have hmode : Linked s stack .posted := hlinked.of_mode rfl hlinked.top rfl
      have hlinked' : Linked s' stack .posted := by
        subst hs'
        exact hmode.of_same rfl rfl rfl rfl rfl
      refine ⟨.posted, hlinked', howned.retire (fun x => x = o ∨ x = l) hin hout hrefs nofun
        (fun x hx _ => Or.inr (Option.some.inj hx).symm) ?_⟩
      subst hs'
      simp only [State.destroyThread, State.setRole, State.setThread, howned.bottom rfl]
      rfl
    · have hlinked' : Linked s' stack mode := by
        subst hs'
        exact hlinked.of_same rfl rfl rfl rfl rfl
      refine ⟨mode, hlinked', howned.retire (fun x => x = o ∨ x = l) hin hout hrefs
        (fun x hx => ⟨hx, ?_, howned.plays x hx⟩) (fun x hx hx' => absurd hx hx') ?_⟩
      · rintro (rfl | rfl)
        · exact hne hx
        · exact howner hx
      · have hnone : (s.threads l).bottomOfStack = none := by rw [howned.owner, if_neg howner]
        subst hs'
        simp only [State.destroyThread, State.setRole, State.setThread, hnone]
        exact howned.life
  · cases hstep

theorem represents_complete (h : Represents s stack mode) {result : Except ε α}
    (hstep : s.complete o result = some s') : ∃ stack' mode', Represents s' stack' mode' := by
  obtain ⟨hlinked, howned⟩ := h
  unfold State.complete at hstep
  split at hstep
  · rename_i hrole
    obtain rfl := howned.pending hrole
    obtain ⟨f, hf, hstep⟩ := Option.bind_eq_some_iff.mp hstep
    obtain ⟨t, ht, rfl⟩ := Option.map_eq_some_iff.mp hstep
    obtain ⟨f', hf', hpoint, hentry⟩ := hlinked.top
    obtain rfl : f = f' := Option.some.inj (hf.symm.trans (hlinked.head.trans hf'))
    obtain ⟨rest, rfl⟩ := List.head?_eq_some_iff.mp hf'
    have hnot : f ∉ rest := (List.nodup_cons.mp hlinked.nodup).1
    have hframe : (s.attachThread f o).frames f = { s.frames f with attachedThread := some o } := by
      rw [State.attachThread, frames_setFrame, Function.update_self]
    have hattached : (s.attachThread f o).attachedEntryPoint f = some (o, entryPoint) := by
      rw [State.attachedEntryPoint, hframe, Option.bind_some]
      exact congrArg _ (howned.bottom rfl)
    have hcaller : ((s.attachThread f o).frames f).caller = rest.head? := by
      rw [hframe]
      exact hlinked.chain.2.head_eq
    have hpopped := settleAndPop_popped ht hattached hcaller hnot
    have hlinked' := hlinked.pop (hpopped.of_attached hnot) (by rw [hpoint]; exact nofun) rfl
    have hthreads : (t.setRole o .pumping).threads =
        Function.update s.threads o { s.threads o with role := .pumping } := by
      simp only [State.setRole, State.setThread, hpopped.threads]
      rfl
    have hrest : rest ≠ [] := fun hnil => hentry (hlinked.entryPoint_iff.mpr hnil)
    exact ⟨rest, _, hlinked'.of_same rfl rfl rfl rfl rfl, howned.setRole rfl rfl hthreads
      (Or.inl ⟨rfl, hrest⟩) (by rw [hrole]; exact nofun) nofun hpopped.life⟩
  · cases hstep

/-! ### Frames outside the stack -/

/-- A frame changes that nobody awaits or is about to take a result from. -/
theorem Linked.outside (h : Linked s stack mode) {frame : Frame ε α} (hnot : f ∉ stack)
    (hpoint : (s.frames f).point ≠ .ended) (hattached : frame.attachedThread = none)
    (hunsettled : frame.pendingException = none)
    (hoperation : f = entryPoint → frame.operation = false) :
    Linked (s.setFrame f frame) stack mode := by
  have hin {x : Nat} (hx : x ∈ stack) : (s.setFrame f frame).frames x = s.frames x := by
    rw [frames_setFrame, Function.update_of_ne fun heq : x = f => hnot (heq ▸ hx)]
  have hended {x : Nat} (hx : (s.frames x).point = .ended) :
      (s.setFrame f frame).frames x = s.frames x := by
    rw [frames_setFrame, Function.update_of_ne fun heq : x = f => hpoint (heq ▸ hx)]
  have hhead {x : Nat} (hx : stack.head? = some x) := hin (List.mem_of_mem_head? hx)
  refine ⟨h.chain.congr fun x hx => by rw [hin hx], h.nodup, h.bottom, ?_, ?_,
    fun x hx => by rw [hin hx]; exact h.started x hx, fun x => ?_, fun x hx => ?_, ?_, h.log⟩
  · cases stack with
    | nil => exact .nil
    | cons x rest =>
      exact isChain_congr h.awaits (fun y hy => by rw [hin (List.mem_cons_of_mem _ hy)])
        fun _ _ => rfl
  · have htop := h.top
    cases mode with
    | constructed o => exact ⟨htop.1, by rw [hhead htop.1]; exact htop.2⟩
    | ready o delivery =>
      cases delivery with
      | none =>
        rcases htop with ⟨x, hx, hpoint⟩ | ⟨hnil, hpoint⟩
        · exact Or.inl ⟨x, hx, by rw [hhead hx]; exact hpoint⟩
        · exact Or.inr ⟨hnil, by rw [hended hpoint]; exact hpoint⟩
      | some delivery =>
        obtain ⟨hcaller, hawaiting, hnotin, hpoint, hget⟩ := htop
        exact ⟨hcaller, by rw [hhead hcaller]; exact hawaiting, hnotin,
          by rw [hended hpoint]; exact hpoint, by rw [hended hpoint]; exact hget⟩
    | running o =>
      obtain ⟨x, hx, hpoint⟩ := htop
      exact ⟨x, hx, by rw [hhead hx]; exact hpoint⟩
    | detached | posted =>
      obtain ⟨x, hx, hpoint, hentry⟩ := htop
      exact ⟨x, hx, by rw [hhead hx]; exact hpoint, hentry⟩
  · by_cases hx : x = f
    · have hne : stack.head? ≠ some x := fun hhead => hnot (hx ▸ List.mem_of_mem_head? hhead)
      rw [if_neg hne, hx, frames_setFrame, Function.update_self, hattached]
    · rw [frames_setFrame, Function.update_of_ne hx]
      exact h.attached x
  · by_cases hxf : x = f
    · rw [hxf, frames_setFrame, Function.update_self, hunsettled]
    · rw [frames_setFrame, Function.update_of_ne hxf] at hx ⊢
      exact h.unsettled x hx
  · by_cases hx : entryPoint = f
    · rw [hx, frames_setFrame, Function.update_self]
      exact hoperation hx.symm
    · rw [frames_setFrame, Function.update_of_ne hx]
      exact h.entry

theorem Owned.of_same (h : Owned s stack mode) (hthreads : s'.threads = s.threads)
    (hlife : s'.life = s.life) : Owned s' stack mode := by
  obtain ⟨howner, hplays, hstale, hhandlers, hinits, hmode⟩ := h
  constructor <;> simpa only [hthreads, hlife]

theorem represents_create (h : Represents s stack mode) {operation : Bool}
    (hstep : s.create f operation = some s') : Represents s' stack mode := by
  obtain ⟨hlinked, howned⟩ := h
  unfold State.create at hstep
  split at hstep
  · rename_i hguard
    obtain ⟨hentry, hfree⟩ := hguard
    cases hstep
    exact ⟨hlinked.outside (fun hmem => (hlinked.started f hmem).1 hfree)
      (by rw [hfree]; exact nofun) rfl rfl fun heq => absurd heq hentry, howned.of_same rfl rfl⟩
  · cases hstep

theorem represents_discard (h : Represents s stack mode) (hstep : s.discard f = some s') :
    Represents s' stack mode := by
  obtain ⟨hlinked, howned⟩ := h
  unfold State.discard at hstep
  split at hstep
  · rename_i hcreated
    cases hstep
    exact ⟨hlinked.outside (fun hmem => (hlinked.started f hmem).2 hcreated)
      (by rw [hcreated]; exact nofun) rfl rfl fun _ => rfl, howned.of_same rfl rfl⟩
  · cases hstep

end Steps

/-! ### The end of a thread -/

/-- The entry point has been destroyed, and nobody owns it. -/
structure Over (s : State ε α) : Prop where
  life : s.life = .destroyed ∨ ∃ f, s.life = .destroying f
  attached : ∀ f, (s.frames f).attachedThread = none
  bottom : ∀ o, (s.threads o).bottomOfStack = none
  stale : ∀ o, (s.threads o).role.Stale
  log : s.completions = s.resumptions

section Ends

variable {s s' : State ε α} {stack : List Nat} {mode : Mode ε α} {f o : Nat}

theorem attachedThread_free (h : ∀ x, (s.frames x).attachedThread = none) (x : Nat) :
    (Function.update s.frames f .free x).attachedThread = none := by
  by_cases hx : x = f
  · rw [hx, Function.update_self]
    rfl
  · rw [Function.update_of_ne hx]
    exact h x

theorem represents_loop (h : Represents s stack mode) (hstep : s.loop o = some s') :
    (∃ mode', Represents s' stack mode') ∨ Over s' := by
  obtain ⟨hlinked, howned⟩ := h
  unfold State.loop at hstep
  split at hstep
  · rename_i hrole hbottom
    cases hstep
    have hne : mode.owner ≠ some o := by
      intro howner
      rw [howned.bottom howner] at hbottom
      cases hbottom
    refine Or.inl ⟨mode, hlinked.of_same rfl rfl rfl rfl rfl,
      howned.retire (· = o) (fun x hx => ?_) (fun x hx => ?_) (fun x l _ hx hl => ?_)
        (fun x hx => ⟨hx, ?_, howned.plays x hx⟩) (fun x hx hx' => absurd hx hx') howned.life⟩
    · rw [hx, threads_setThread, Function.update_self]
      exact ⟨rfl, Or.inl rfl⟩
    · rw [threads_setThread, Function.update_of_ne hx]
    · have hat := howned.handlers x l hx
      rw [hl, hrole] at hat
      cases hat
    · rintro rfl
      exact hne hx
  · rename_i e f hrole hbottom htop
    cases hstep
    obtain ⟨howner, rfl⟩ := howned.owner_of_bottom hbottom
    obtain ⟨delivery, rfl⟩ := howned.returned hrole howner
    have hne : stack ≠ [] := by
      rintro rfl
      cases htop.symm.trans hlinked.head
    exact Or.inl ⟨.ready o delivery, hlinked.of_same rfl rfl rfl rfl rfl,
      howned.setRole rfl rfl rfl (Or.inl ⟨rfl, hne⟩) (by rw [hrole]; exact nofun) nofun rfl⟩
  · rename_i e hrole hbottom htop
    cases hstep
    obtain ⟨howner, rfl⟩ := howned.owner_of_bottom hbottom
    obtain ⟨delivery, rfl⟩ := howned.returned hrole howner
    have hhead : stack.head? = none := hlinked.head.symm.trans htop
    have ho : (s.setThread o .gone).threads o = .gone := by
      rw [threads_setThread, Function.update_self]
    have hother (x : Nat) (hx : x ≠ o) : (s.setThread o .gone).threads x = s.threads x := by
      rw [threads_setThread, Function.update_of_ne hx]
    have hnotOwner (x : Nat) (hx : x ≠ o) : (Mode.ready o delivery).owner ≠ some x :=
      fun heq => hx (Option.some.inj heq).symm
    refine Or.inr ⟨Or.inl rfl, fun x => ?_, fun x => ?_, fun x => ?_, ?_⟩
    · apply attachedThread_free
      intro x
      rw [hlinked.attached, hhead]
      rfl
    · by_cases hx : x = o
      · rw [hx]
        exact congrArg Thread.bottomOfStack ho
      · refine (congrArg Thread.bottomOfStack (hother x hx)).trans ?_
        rw [howned.owner, if_neg (hnotOwner x hx)]
    · by_cases hx : x = o
      · rw [hx]
        exact (congrArg (Role.Stale ·.role) ho).mpr .gone
      · exact (congrArg (Role.Stale ·.role) (hother x hx)).mpr (howned.stale x (hnotOwner x hx))
    · cases delivery with
      | none => exact hlinked.log.trans (List.append_nil _)
      | some delivery => cases hhead.symm.trans hlinked.top.1
  · cases hstep

/-- The frame of the entry point is destroyed by a function that has been posted. -/
theorem represents_unwind (h : Represents s stack mode) (hstep : s.unwind = some s') : Over s' := by
  obtain ⟨hlinked, howned⟩ := h
  unfold State.unwind at hstep
  split at hstep
  · rename_i hlife
    have hposted : mode = .posted := by
      have hmode := howned.life.symm.trans hlife
      cases mode with
      | posted => rfl
      | _ => cases hmode
    subst hposted
    cases hstep
    refine ⟨?_, fun x => ?_, fun x => ?_, fun x => howned.stale x nofun,
      hlinked.log.trans (List.append_nil _)⟩
    · dsimp only
      split
      · exact Or.inr ⟨_, rfl⟩
      · exact Or.inl rfl
    · apply attachedThread_free
      intro x
      rw [hlinked.attached]
      exact ite_self _
    · exact (howned.owner x).trans (if_neg nofun)
  · rename_i f hlife
    have hmode := howned.life.symm.trans hlife
    cases mode with
    | _ => cases hmode
  · cases hstep

/-- Frames that are destroyed or created and objects that are destroyed belong to nobody. -/
theorem Over.of_frame (h : Over s) (frame : Frame ε α) (hattached : frame.attachedThread = none)
    (hframes : s'.frames = Function.update s.frames f frame) (hthreads : s'.threads = s.threads)
    (hlife : s'.life = .destroyed ∨ ∃ f, s'.life = .destroying f)
    (hlog : s'.completions = s'.resumptions) : Over s' where
  life := hlife
  attached x := by
    rw [hframes]
    by_cases hx : x = f
    · rw [hx, Function.update_self, hattached]
    · rw [Function.update_of_ne hx]
      exact h.attached x
  bottom := by
    rw [hthreads]
    exact h.bottom
  stale := by
    rw [hthreads]
    exact h.stale
  log := hlog

theorem Over.setThread (h : Over s) {thread : Thread} (hbottom : thread.bottomOfStack = none)
    (hstale : thread.role.Stale) : Over (s.setThread o thread) where
  life := h.life
  attached := h.attached
  bottom x := by
    rw [threads_setThread]
    by_cases hx : x = o
    · rw [hx, Function.update_self, hbottom]
    · rw [Function.update_of_ne hx]
      exact h.bottom x
  stale x := by
    rw [threads_setThread]
    by_cases hx : x = o
    · rw [hx, Function.update_self]
      exact hstale
    · rw [Function.update_of_ne hx]
      exact h.stale x
  log := h.log

theorem Over.destroyThread (h : Over s) : Over (s.destroyThread o) := by
  have hlife : (s.destroyThread o).life = s.life := by
    simp only [State.destroyThread, h.bottom o]
    rfl
  have hgone : Over (s.setThread o .gone) := h.setThread rfl .gone
  obtain ⟨-, hattached, hbottom, hstale, hlog⟩ := hgone
  exact ⟨hlife ▸ h.life, hattached, hbottom, hstale, hlog⟩

theorem Over.loop (h : Over s) (hstep : s.loop o = some s') : Over s' := by
  unfold State.loop at hstep
  split at hstep
  · cases hstep
    exact h.setThread rfl .gone
  · rename_i hbottom _
    rw [h.bottom o] at hbottom
    cases hbottom
  · rename_i hbottom _
    rw [h.bottom o] at hbottom
    cases hbottom
  · cases hstep

theorem Over.unwind (h : Over s) (hstep : s.unwind = some s') : Over s' := by
  unfold State.unwind at hstep
  split at hstep
  · rename_i hlife
    rcases h.life with hlife' | ⟨f, hlife'⟩ <;> cases hlife.symm.trans hlife'
  · cases hstep
    refine h.of_frame .free rfl rfl rfl ?_ h.log
    dsimp only
    split
    · exact Or.inr ⟨_, rfl⟩
    · exact Or.inl rfl
  · cases hstep

/-- Nothing happens to the coroutine any more. -/
theorem Over.step (h : Over s) {a : Action ε α} (hstep : step s a = some s') : Over s' := by
  have hnot {o : Nat} {role : Role} (hrole : (s.threads o).role = role) : role.Stale :=
    hrole ▸ h.stale o
  cases a with
  | launch o =>
    obtain ⟨hrole, -⟩ := Option.ite_none_right_eq_some.mp hstep
    cases hnot hrole
  | resume o =>
    simp only [Awaitable.step, State.resume] at hstep
    split at hstep
    · rename_i hrole _ _
      cases hnot hrole
    · cases hstep
  | await o g =>
    simp only [Awaitable.step, State.await] at hstep
    split at hstep
    · rename_i hrole
      cases hnot hrole
    · cases hstep
  | finish o result =>
    simp only [Awaitable.step, State.finish] at hstep
    split at hstep
    · rename_i hrole
      cases hnot hrole
    · cases hstep
  | initiate o l =>
    simp only [Awaitable.step, State.initiate] at hstep
    split at hstep
    · rename_i hrole
      cases hnot hrole
    · cases hstep
  | handOver o m =>
    simp only [Awaitable.step, State.handOver] at hstep
    split at hstep
    · rename_i l _
      rw [h.bottom l] at hstep
      cases hstep
    · cases hstep
  | initiated o =>
    simp only [Awaitable.step, State.initiated] at hstep
    split at hstep
    · cases hstep
      exact h.destroyThread.setThread (h.destroyThread.bottom o) .returned
    · cases hstep
  | move o m =>
    obtain ⟨⟨hrole, -⟩, -⟩ := Option.ite_none_right_eq_some.mp hstep
    cases hnot hrole
  | complete o result =>
    obtain ⟨hrole, -⟩ := Option.ite_none_right_eq_some.mp hstep
    cases hnot hrole
  | drop o =>
    obtain ⟨hrole, -⟩ := Option.ite_none_right_eq_some.mp hstep
    cases hnot hrole
  | loop o => exact h.loop hstep
  | unwind => exact h.unwind hstep
  | create f operation =>
    obtain ⟨-, hs'⟩ := Option.ite_none_right_eq_some.mp hstep
    cases hs'
    exact h.of_frame (.created operation) rfl rfl rfl h.life h.log
  | discard f =>
    obtain ⟨-, hs'⟩ := Option.ite_none_right_eq_some.mp hstep
    cases hs'
    exact h.of_frame .free rfl rfl rfl h.life h.log

end Ends

/-! ### Runs -/

/-- A thread has a stack, or is over. -/
def Sound (s : State ε α) : Prop := (∃ stack mode, Represents s stack mode) ∨ Over s

section Initial

theorem frames_initial_entryPoint :
    (initial ε α).frames entryPoint = { Frame.created false with point := .awaited } := by
  simp only [initial, Function.update_self]

theorem frames_initial_of_ne {x : Nat} (hx : x ≠ entryPoint) :
    (initial ε α).frames x = .free := by
  simp only [initial, Function.update_of_ne hx]

theorem threads_initial_zero : (initial ε α).threads 0 = ⟨some entryPoint, .constructed⟩ := by
  simp only [initial, Function.update_self]

theorem threads_initial_of_ne {x : Nat} (hx : x ≠ 0) : (initial ε α).threads x = .gone := by
  simp only [initial, Function.update_of_ne hx]

theorem linked_initial : Linked (initial ε α) [entryPoint] (.constructed 0) := by
  refine ⟨⟨rfl, ?_⟩, List.pairwise_singleton _ _, fun x hx => ?_, .singleton _, ⟨rfl, ?_⟩,
    fun x hx => ?_, fun x => ?_, fun x _ => ?_, ?_, rfl⟩
  · simp only [frames_initial_entryPoint]
    rfl
  · exact (Option.some.inj hx).symm
  · rw [frames_initial_entryPoint]
  · rw [List.mem_singleton.mp hx, frames_initial_entryPoint]
    exact ⟨nofun, nofun⟩
  · refine Eq.trans ?_ (ite_self _).symm
    by_cases hx : x = entryPoint
    · rw [hx, frames_initial_entryPoint]
      rfl
    · rw [frames_initial_of_ne hx]
      rfl
  · by_cases hx : x = entryPoint
    · rw [hx, frames_initial_entryPoint]
      rfl
    · rw [frames_initial_of_ne hx]
      rfl
  · rw [frames_initial_entryPoint]
    rfl

theorem owned_initial : Owned (initial ε α) [entryPoint] (.constructed 0) := by
  have hnot (x l : Nat) : ((initial ε α).threads x).role ≠ .initiating l := by
    by_cases hx : x = 0
    · rw [hx, threads_initial_zero]
      exact nofun
    · rw [threads_initial_of_ne hx]
      exact nofun
  refine ⟨fun x => ?_, fun x hx => ?_, fun x hx => ?_, fun x l hx => absurd hx (hnot x l),
    fun x _ l hx => absurd hx (hnot x l), rfl⟩
  · by_cases hx : x = 0
    · rw [hx, threads_initial_zero]
      rfl
    · rw [threads_initial_of_ne hx]
      exact (if_neg fun heq => hx (Option.some.inj heq).symm).symm
  · cases hx
    rw [threads_initial_zero]
    rfl
  · rw [threads_initial_of_ne fun heq => hx (congrArg some heq.symm)]
    exact .gone

theorem sound_initial : Sound (initial ε α) := Or.inl ⟨_, _, linked_initial, owned_initial⟩

end Initial

section Runs

variable {s s' : State ε α} {stack : List Nat} {mode : Mode ε α}

theorem Represents.step (h : Represents s stack mode) {a : Action ε α}
    (hstep : step s a = some s') : Sound s' := by
  cases a with
  | launch o => exact Or.inl ⟨_, represents_launch h hstep⟩
  | resume o => exact Or.inl ⟨_, represents_resume h hstep⟩
  | await o g => exact Or.inl (represents_await h hstep)
  | finish o result => exact Or.inl (represents_finish h hstep)
  | initiate o l => exact Or.inl ⟨_, represents_initiate h hstep⟩
  | handOver o m => exact Or.inl ⟨_, represents_handOver h hstep⟩
  | initiated o => exact Or.inl ⟨_, represents_initiated h hstep⟩
  | move o m => exact Or.inl ⟨_, represents_move h hstep⟩
  | complete o result => exact Or.inl (represents_complete h hstep)
  | drop o => exact Or.inl ⟨_, represents_drop h hstep⟩
  | loop o =>
    rcases represents_loop h hstep with hlive | hover
    · exact Or.inl ⟨_, hlive⟩
    · exact Or.inr hover
  | unwind => exact Or.inr (represents_unwind h hstep)
  | create f operation => exact Or.inl ⟨_, _, represents_create h hstep⟩
  | discard f => exact Or.inl ⟨_, _, represents_discard h hstep⟩

theorem Sound.step (h : Sound s) {a : Action ε α} (hstep : step s a = some s') : Sound s' := by
  rcases h with ⟨stack, mode, h⟩ | h
  · exact h.step hstep
  · exact Or.inr (h.step hstep)

theorem sound_of_reachable (h : Reachable step (fun _ _ => True) (initial ε α) s) : Sound s :=
  h.invariant sound_initial fun hs _ hstep => hs.step hstep

/-! ### The discipline -/

/-- The object is in `pump`. -/
def Role.Pumps : Role → Prop
  | .pumping | .running _ | .returned => True
  | _ => False

/-- The frame that has awaited another is resumed with the result, as soon as it is at the top. -/
def Resumes (s : State ε α) (delivery : Delivery ε α) : Prop :=
  s.topOfStack = some delivery.caller ∧
    ∃ o s', (s.resume o = some s' ∨ (s.loop o).bind (·.resume o) = some s') ∧
      s'.resumptions = s.resumptions ++ [delivery]

structure Disciplined (s : State ε α) : Prop where
  stack : s.life = .owned ∨ s.life = .posted → ∃ stack,
    Chain (fun f => (s.frames f).caller) s.topOfStack stack ∧ stack.Nodup ∧
      stack.IsChain (Awaits s) ∧
      (stack.getLast? = some entryPoint ∨ stack = [] ∧ (s.frames entryPoint).point = .ended)
  owned : s.life = .owned → ∃! o, (s.threads o).bottomOfStack = some entryPoint
  disowned : s.life ≠ .owned → ∀ o, (s.threads o).bottomOfStack = none
  attached : ∀ f o, (s.frames f).attachedThread = some o →
    s.topOfStack = some f ∧ (s.threads o).bottomOfStack = some entryPoint ∧
      (s.threads o).role.Pumps
  delivered : s.completions = s.resumptions ∨
    ∃ delivery, s.completions = s.resumptions ++ [delivery] ∧ Resumes s delivery

theorem Linked.getLast? (h : Linked s stack mode) : stack.getLast? = some entryPoint ∨
    stack = [] ∧ (s.frames entryPoint).point = .ended := by
  cases hlast : stack.getLast? with
  | some f => exact Or.inl (congrArg some (h.bottom f hlast))
  | none =>
    obtain rfl := List.getLast?_eq_none_iff.mp hlast
    refine Or.inr ⟨rfl, ?_⟩
    have htop := h.top
    cases mode with
    | ready o delivery =>
      cases delivery with
      | none => exact htop.resolve_left (fun ⟨_, hf, _⟩ => nomatch hf) |>.2
      | some delivery => cases htop.1
    | constructed => cases htop.1
    | running | detached | posted =>
      obtain ⟨f, hf, -⟩ := htop
      cases hf

theorem Owned.life_owned (h : Owned s stack mode) :
    s.life = .owned ↔ ∃ o, mode.owner = some o := by
  rw [h.life, ← Option.isSome_iff_exists]
  cases mode.owner with
  | none => exact ⟨nofun, nofun⟩
  | some o => exact ⟨fun _ => rfl, fun _ => rfl⟩

theorem Owned.existsUnique (h : Owned s stack mode) (hlife : s.life = .owned) :
    ∃! o, (s.threads o).bottomOfStack = some entryPoint := by
  obtain ⟨o, howner⟩ := h.life_owned.mp hlife
  refine ⟨o, h.bottom howner, fun o' hbottom => ?_⟩
  have howner' := (h.owner_of_bottom hbottom).1
  exact Option.some.inj (howner'.symm.trans howner)

theorem Owned.disowned (h : Owned s stack mode) (hlife : s.life ≠ .owned) (o : Nat) :
    (s.threads o).bottomOfStack = none := by
  rw [h.owner, if_neg fun howner => hlife (h.life_owned.mpr ⟨o, howner⟩)]

theorem Mode.owner_of_attached {o : Nat} (h : mode.attached = some o) : mode.owner = some o := by
  cases mode with
  | ready | running => exact h
  | constructed | detached | posted => cases h

theorem Plays.pumps {o : Nat} {role : Role} (h : Plays stack mode role)
    (hattached : mode.attached = some o) : role.Pumps := by
  cases mode with
  | ready =>
    rcases h with ⟨rfl, -⟩ | rfl
    · trivial
    · trivial
  | running =>
    obtain ⟨f, -, rfl⟩ := h
    trivial
  | constructed | detached | posted => cases hattached

theorem Represents.attached (h : Represents s stack mode) {f o : Nat}
    (hattached : (s.frames f).attachedThread = some o) :
    s.topOfStack = some f ∧ (s.threads o).bottomOfStack = some entryPoint ∧
      (s.threads o).role.Pumps := by
  obtain ⟨hlinked, howned⟩ := h
  rw [hlinked.attached] at hattached
  split at hattached
  · rename_i hhead
    have howner := Mode.owner_of_attached hattached
    exact ⟨hlinked.head.trans hhead, howned.bottom howner, (howned.plays o howner).pumps hattached⟩
  · cases hattached

/-- The caller takes its result when it is resumed. -/
theorem Linked.resumes {o : Nat} {delivery : Delivery ε α}
    (h : Linked s stack (.ready o (some delivery))) (hrole : (s.threads o).role = .pumping)
    (hbottom : (s.threads o).bottomOfStack = some entryPoint) :
    ∃ s', s.resume o = some s' ∧ s'.resumptions = s.resumptions ++ [delivery] := by
  obtain ⟨hcaller, hawaiting, -, -, hget⟩ := h.top
  have htop := h.head.trans hcaller
  simp only [State.resume, hrole, hbottom, htop, hawaiting, hget, Option.map_some]
  exact ⟨_, rfl, rfl⟩

theorem Represents.resumes {o : Nat} {delivery : Delivery ε α}
    (h : Represents s stack (.ready o (some delivery))) : Resumes s delivery := by
  obtain ⟨hlinked, howned⟩ := h
  have htop := hlinked.head.trans hlinked.top.1
  have hbottom := howned.bottom (o := o) rfl
  refine ⟨htop, o, ?_⟩
  rcases howned.plays o rfl with ⟨hrole, -⟩ | hrole
  · obtain ⟨s', hresume, hresumptions⟩ := hlinked.resumes hrole hbottom
    exact ⟨s', Or.inl hresume, hresumptions⟩
  · have hloop : s.loop o = some (s.setRole o .pumping) := by
      simp only [State.loop, hrole, hbottom, htop]
    have hlinked' : Linked (s.setRole o .pumping) stack (.ready o (some delivery)) :=
      hlinked.of_same rfl rfl rfl rfl rfl
    have hthread : (s.setRole o .pumping).threads o = ⟨some entryPoint, .pumping⟩ := by
      rw [threads_setRole, Function.update_self, ← hbottom]
    obtain ⟨s', hresume, hresumptions⟩ := hlinked'.resumes (congrArg Thread.role hthread)
      (congrArg Thread.bottomOfStack hthread)
    refine ⟨s', Or.inr ?_, hresumptions⟩
    rw [hloop, Option.bind_some, hresume]

theorem Represents.disciplined (h : Represents s stack mode) : Disciplined s where
  stack _ := ⟨stack, h.1.chain, h.1.nodup, h.1.awaits, h.1.getLast?⟩
  owned := h.2.existsUnique
  disowned := h.2.disowned
  attached _ _ := h.attached
  delivered := by
    have hlog := h.1.log
    cases mode with
    | ready o delivery =>
      cases delivery with
      | none => exact Or.inl (hlog.trans (List.append_nil _))
      | some delivery => exact Or.inr ⟨delivery, hlog, h.resumes⟩
    | constructed | running | detached | posted => exact Or.inl (hlog.trans (List.append_nil _))

theorem Sound.disowned (h : Sound s) (hlife : s.life ≠ .owned) (o : Nat) :
    (s.threads o).bottomOfStack = none := by
  rcases h with ⟨stack, mode, h⟩ | h
  · exact h.2.disowned hlife o
  · exact h.bottom o

theorem Over.disciplined (h : Over s) : Disciplined s where
  stack hlife := by
    rcases h.life with hover | ⟨f, hover⟩ <;> rw [hover] at hlife <;> simp at hlife
  owned hlife := by
    rcases h.life with hover | ⟨f, hover⟩ <;> cases hlife.symm.trans hover
  disowned _ := h.bottom
  attached f o hattached := by
    rw [h.attached f] at hattached
    cases hattached
  delivered := Or.inl h.log

theorem Sound.disciplined (h : Sound s) : Disciplined s := by
  rcases h with ⟨stack, mode, h⟩ | h
  · exact h.disciplined
  · exact h.disciplined

theorem disciplined_of_reachable (h : Reachable step (fun _ _ => True) (initial ε α) s) :
    Disciplined s := (sound_of_reachable h).disciplined

end Runs

/-- An operation completes while its initiation has not returned to the coroutine yet. -/
theorem disciplined_of_reachable_inline : ∃ s : State Unit Nat,
    s.resumptions.length = 1 ∧ (s.threads 0).role = .initiating 1 ∧
      (s.frames entryPoint).attachedThread = some 3 ∧ Disciplined s := by
  have hrun : (exec (guarded step fun _ _ => True) (initial Unit Nat)
      [.launch 0, .resume 0, .create 1 true, .await 0 1, .loop 0, .resume 0, .initiate 0 1,
        .handOver 0 2, .move 2 3, .complete 3 (.ok 7), .resume 3]).map (fun s =>
          (s.resumptions.length, (s.threads 0).role, (s.frames entryPoint).attachedThread)) =
            some (1, .initiating 1, some 3) := by
    decide +kernel
  obtain ⟨s, hs, hheld⟩ := Option.map_eq_some_iff.mp hrun
  simp only [Prod.mk.injEq] at hheld
  exact ⟨s, hheld.1, hheld.2.1, hheld.2.2, disciplined_of_reachable (exec_guarded_reachable hs)⟩

/-- No object owns the entry point once a handler has been destroyed without being called, and no
frame is left on the stack once the entry point has returned. -/
theorem not_owned_of_dropped :
    (∃ s : State Unit Unit, Reachable step (fun _ _ => True) (initial Unit Unit) s ∧
      (s.frames entryPoint).point = .awaiting 1 ∧
        ¬ ∃ o, (s.threads o).bottomOfStack = some entryPoint) ∧
    ∃ s : State Unit Unit, Reachable step (fun _ _ => True) (initial Unit Unit) s ∧
      (s.frames entryPoint).point = .ended ∧ s.topOfStack = none := by
  have hdropped : (exec (guarded step fun _ _ => True) (initial Unit Unit)
      [.launch 0, .resume 0, .create 1 true, .await 0 1, .loop 0, .resume 0, .initiate 0 1,
        .handOver 0 2, .drop 2]).map (fun s => ((s.frames entryPoint).point, s.life)) =
          some (.awaiting 1, .posted) := by
    decide +kernel
  have hended : (exec (guarded step fun _ _ => True) (initial Unit Unit)
      [.launch 0, .resume 0, .finish 0 (.ok ())]).map (fun s =>
        ((s.frames entryPoint).point, s.topOfStack)) = some (.ended, none) := by
    decide +kernel
  obtain ⟨s, hs, hheld⟩ := Option.map_eq_some_iff.mp hdropped
  obtain ⟨t, ht, hheld'⟩ := Option.map_eq_some_iff.mp hended
  simp only [Prod.mk.injEq] at hheld hheld'
  have hreachable := exec_guarded_reachable hs
  refine ⟨⟨s, hreachable, hheld.1, ?_⟩, t, exec_guarded_reachable ht, hheld'⟩
  rintro ⟨o, hbottom⟩
  have hnone := (sound_of_reachable hreachable).disowned (by rw [hheld.2]; exact nofun) o
  cases hbottom.symm.trans hnone

end Asio.Awaitable
