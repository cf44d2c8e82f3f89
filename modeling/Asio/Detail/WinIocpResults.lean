import Asio.Detail.WinIocpHandshake

/-! The result of an overlapped operation, on its way from the system to the handler. -/

universe u

namespace Asio.Detail.WinIocpIoContext

open Asio.Lib Transition Interleaving

set_option linter.unusedSectionVars false

/-- What a packet without a result says. -/
def Result.success : Result := ⟨⟨.system, 0⟩, 0⟩

/-! ### Carrying the result -/

section Carrying

variable (outcome : Nat → Outcome) (op : Nat)

/-- The result is in the OVERLAPPED structure of the operation. -/
def World.HasResult (w : World) : Prop := w.stored op = (outcome op).result

def Call.Carries (w : World) : Call → Prop
  | .onPending o => o = op → w.ready op = true → w.HasResult outcome op
  | .onCompletion o result | .storeResult o result => o = op → result = (outcome op).result
  | .postResult o => o = op → w.HasResult outcome op
  | .dequeued _ o key result => o = op →
    if key = .overlappedContainsResult then w.HasResult outcome op else result = (outcome op).result
  | .exchangeReady _ o result =>
    o = op → result = (outcome op).result ∧ w.HasResult outcome op
  | _ => True

/-- A call that knows nothing of a result. -/
def Call.plain : Call → Bool
  | .onPending _ | .onCompletion .. | .storeResult .. | .postResult _ | .dequeued ..
  | .exchangeReady .. => false
  | _ => true

structure World.Carries (w : World) : Prop where
  packet : ∀ p ∈ w.port, ∀ mode, (received mode p).Carries outcome op w
  handler : ∀ x ∈ w.invoked, x.1 = op → x.2 = (outcome op).result

/-- What the others may still rely on after a step. -/
structure Keeps (o : Others) (w w' : World) : Prop where
  stored : w.HasResult outcome op → w'.HasResult outcome op
  ready : 0 < o.pends → w'.ready op = true → w.ready op = true ∨ w'.HasResult outcome op

/-- A step that carries the result on. -/
structure ResultStep (o : Others) (w w' : World) (new : List Call) : Prop where
  keeps : Keeps outcome op o w w'
  world : w'.Carries outcome op
  calls : ∀ c ∈ new, c.Carries outcome op w'

end Carrying

section Steps

variable {outcome given : Nat → Outcome} {op : Nat} {o : Others} {w w' : World} {c : Call}
variable {new : List Call}

theorem Keeps.call (h : Keeps outcome op o w w') (hpends : c.pends op ≤ o.pends)
    (hc : c.Carries outcome op w) : c.Carries outcome op w' := by
  cases c with
  | onPending op' =>
    intro hop hready
    have hpos : 0 < o.pends := by
      simp only [Call.pends, if_pos hop] at hpends
      omega
    rcases h.ready hpos hready with hr | hr
    · exact h.stored (hc hop hr)
    · exact hr
  | postResult op' => exact fun hop => h.stored (hc hop)
  | dequeued mode op' key r =>
    intro hop
    have := hc hop
    split
    · rename_i hkey
      rw [if_pos hkey] at this
      exact h.stored this
    · rename_i hkey
      rwa [if_neg hkey] at this
  | exchangeReady mode op' r => exact fun hop => ⟨(hc hop).1, h.stored (hc hop).2⟩
  | _ => exact hc

theorem carries_of_plain (h : new.all Call.plain = true) : ∀ c ∈ new, c.Carries outcome op w := by
  intro c hc
  have hplain := List.all_eq_true.mp h c hc
  cases c with
  | onPending | onCompletion | storeResult | postResult | dequeued | exchangeReady => cases hplain
  | _ => exact True.intro

theorem pends_received (mode : Mode) (p : Packet) : (received mode p).pends op = 0 := by
  unfold received
  split
  · rfl
  · split
    · rfl
    · rfl

/-- The packets that stay carry on. -/
theorem Keeps.world (h : Keeps outcome op o w w') (hw : w.Carries outcome op)
    (port : ∀ p ∈ w'.port, p ∈ w.port ∨ ∀ mode, (received mode p).Carries outcome op w')
    (invoked : ∀ x ∈ w'.invoked, x ∈ w.invoked ∨ (x.1 = op → x.2 = (outcome op).result)) :
    w'.Carries outcome op where
  packet p hp mode := by
    rcases port p hp with hp | hcarries
    · exact h.call (by rw [pends_received]; exact Nat.zero_le _) (hw.packet p hp mode)
    · exact hcarries mode
  handler x hx := by
    rcases invoked x hx with hx | hresult
    · exact hw.handler x hx
    · exact hresult

/-- Most steps do not touch the result of the operation. -/
theorem ResultStep.same (hw : w.Carries outcome op)
    (ready : 0 < o.pends → w'.ready op = true → w.ready op = true)
    (stored : w'.stored op = w.stored op) (port : w'.port = w.port)
    (invoked : w'.invoked = w.invoked) (calls : ∀ c ∈ new, c.Carries outcome op w') :
    ResultStep outcome op o w w' new := by
  have hkeeps : Keeps outcome op o w w' :=
    ⟨fun h => by rw [World.HasResult, stored]; exact h, fun hpos hr => .inl (ready hpos hr)⟩
  exact ⟨hkeeps, hkeeps.world hw (fun p hp => .inl (port ▸ hp)) (fun x hx => .inl (invoked ▸ hx)),
    calls⟩

theorem ResultStep.quiet (hw : w.Carries outcome op) (ready : w'.ready op = w.ready op)
    (stored : w'.stored op = w.stored op) (port : w'.port = w.port)
    (invoked : w'.invoked = w.invoked) (calls : ∀ c ∈ new, c.Carries outcome op w') :
    ResultStep outcome op o w w' new :=
  .same hw (fun _ hr => ready ▸ hr) stored port invoked calls

/-- A step that posts a packet. -/
theorem ResultStep.push {p : Packet} (hw : w.Carries outcome op)
    (ready : 0 < o.pends → w'.ready op = true → w.ready op = true)
    (stored : w'.stored op = w.stored op) (port : w'.port = w.port ++ [p])
    (invoked : w'.invoked = w.invoked)
    (packet : ∀ mode, (received mode p).Carries outcome op w')
    (calls : ∀ c ∈ new, c.Carries outcome op w') : ResultStep outcome op o w w' new := by
  have hkeeps : Keeps outcome op o w w' :=
    ⟨fun h => by rw [World.HasResult, stored]; exact h, fun hpos hr => .inl (ready hpos hr)⟩
  refine ⟨hkeeps, hkeeps.world hw (fun q hq => ?_) (fun x hx => .inl (invoked ▸ hx)), calls⟩
  rw [port, List.mem_append, List.mem_singleton] at hq
  rcases hq with hq | rfl
  · exact .inl hq
  · exact .inr packet

theorem carries_none {p : Packet} (hp : p.overlapped ≠ some op) (mode : Mode) :
    (received mode p).Carries outcome op w := by
  unfold received
  cases hov : p.overlapped with
  | some op' => exact fun hop => absurd (hop ▸ hov) hp
  | none =>
    simp only
    split
    · exact True.intro
    · exact True.intro

/-- What the places of an operation say about the result that is expected of it. -/
structure Places.Coherent (given expected : Outcome) (p : Places) : Prop where
  alone : p.ready = false → p.starts + p.pends + p.deferred ≤ 1
  unset : 0 < p.starts → p.ready = false
  given : 0 < p.starts + p.kernel → expected = given
  plain : 0 < p.deferred → expected.result = .success

theorem Places.Unique.coherent {p : Places} {x : Outcome} (h : p.Unique) : p.Coherent x x where
  alone hr := by
    have := h.starting hr
    have := h.deferred
    omega
  unset := h.unset
  given _ := rfl
  plain hpos := absurd h.deferred (by omega)

theorem Places.Empty.coherent {p : Places} {x y : Outcome} (h : p.Empty) :
    p.Coherent x y where
  alone _ := by
    have := h.2
    omega
  unset _ := h.1
  given hpos := absurd h.2 (by omega)
  plain hpos := absurd h.2 (by omega)

/-- Nobody else is about to exchange `ready_` before the initiating function does. -/
theorem Places.Coherent.no_pends {x y : Outcome} (h : (places op o w [c]).Coherent x y)
    (hpos : 0 < c.starts op + c.pends op + c.defers op) (hr : w.ready op = false) :
    o.pends = 0 := by
  have := h.alone hr
  simp only [places, load_cons, load_nil] at this
  omega

theorem Places.Coherent.not_ready {x y : Outcome} (h : (places op o w [c]).Coherent x y)
    (hpos : 0 < c.starts op) : w.ready op = false := by
  refine h.unset ?_
  simp only [places, load_cons, load_nil]
  omega

theorem Places.Coherent.success {x y : Outcome} (h : (places op o w [c]).Coherent x y)
    (hpos : 0 < c.defers op) : y.result = .success := by
  refine h.plain ?_
  simp only [places, load_cons, load_nil]
  omega

/-- The initiating function sets `ready_`. -/
theorem ResultStep.setReady (hw : w.Carries outcome op)
    (ready : w.ready op = false → o.pends = 0 ∨ w.HasResult outcome op)
    (calls : ∀ c ∈ new, c.Carries outcome op (w.setReady op)) :
    ResultStep outcome op o w (w.setReady op) new := by
  have hkeeps : Keeps outcome op o w (w.setReady op) := by
    refine ⟨id, fun hpos _ => ?_⟩
    cases hr : w.ready op with
    | true => exact .inl rfl
    | false => exact .inr ((ready hr).resolve_left (by omega))
  exact ⟨hkeeps, hkeeps.world hw (fun p hp => .inl hp) (fun x hx => .inl hx), calls⟩

theorem ResultStep.store (hw : w.Carries outcome op)
    (calls : ∀ c ∈ new, c.Carries outcome op (w.store op (outcome op).result)) :
    ResultStep outcome op o w (w.store op (outcome op).result) new := by
  have hresult : (w.store op (outcome op).result).HasResult outcome op := Function.update_self ..
  have hkeeps : Keeps outcome op o w (w.store op (outcome op).result) :=
    ⟨fun _ => hresult, fun _ hr => .inl hr⟩
  exact ⟨hkeeps, hkeeps.world hw (fun p hp => .inl hp) (fun x hx => .inl hx), calls⟩

theorem ready_setReady_of_ne {op' : Nat} (hop : op' ≠ op) : (w.setReady op').ready op = w.ready op :=
  Function.update_of_ne (Ne.symm hop) ..

theorem stored_store_of_ne {op' : Nat} {r : Result} (hop : op' ≠ op) :
    (w.store op' r).stored op = w.stored op :=
  Function.update_of_ne (Ne.symm hop) ..

theorem resultStep_dequeued {mode : Mode} {op' : Nat} {key : CompletionKey} {r : Result}
    (hw : w.Carries outcome op) (hc : (Call.dequeued mode op' key r).Carries outcome op w)
    (hadv : advance given w (.dequeued mode op' key r) = some (w', new)) :
    ResultStep outcome op o w w' new := by
  simp only [advance] at hadv
  split at hadv
  · rename_i hkey
    cases hadv
    refine .quiet hw rfl rfl rfl rfl ?_
    rintro _ (_ | ⟨_, ⟨⟩⟩)
    rintro rfl
    have hresult := hc rfl
    rw [if_pos hkey] at hresult
    exact ⟨hresult, hresult⟩
  · rename_i hkey
    cases hadv
    by_cases hop : op' = op
    · subst hop
      have hresult := hc rfl
      rw [if_neg hkey] at hresult
      rw [hresult]
      refine .store hw ?_
      rintro _ (_ | ⟨_, ⟨⟩⟩)
      exact fun _ => ⟨rfl, Function.update_self ..⟩
    · refine .quiet hw rfl (stored_store_of_ne hop) rfl rfl ?_
      rintro _ (_ | ⟨_, ⟨⟩⟩)
      exact fun h => absurd h hop

theorem resultStep_exchangeReady {mode : Mode} {op' : Nat} {r : Result}
    (hw : w.Carries outcome op) (hc : (Call.exchangeReady mode op' r).Carries outcome op w)
    (hadv : advance given w (.exchangeReady mode op' r) = some (w', new)) :
    ResultStep outcome op o w w' new := by
  simp only [advance] at hadv
  split at hadv
  · cases hadv
    have hkeeps : Keeps outcome op o w { w with invoked := w.invoked ++ [(op', r)] } :=
      ⟨id, fun _ hr => .inl hr⟩
    refine ⟨hkeeps, hkeeps.world hw (fun p hp => .inl hp) (fun x hx => ?_), carries_of_plain rfl⟩
    rw [List.mem_append, List.mem_singleton] at hx
    rcases hx with hx | rfl
    · exact .inl hx
    · exact .inr fun hop => (hc hop).1
  · cases hadv
    by_cases hop : op' = op
    · subst hop
      exact .setReady hw (fun _ => .inr (hc rfl).2) (carries_of_plain rfl)
    · exact .quiet hw (ready_setReady_of_ne hop) rfl rfl rfl (carries_of_plain rfl)

theorem resultStep_onPending {op' : Nat}
    (hcoherent : (places op o w [.onPending op']).Coherent (given op) (outcome op))
    (hw : w.Carries outcome op) (hc : (Call.onPending op').Carries outcome op w)
    (hadv : advance given w (.onPending op') = some (w', new)) :
    ResultStep outcome op o w w' new := by
  cases hadv
  by_cases hop : op' = op
  · subst hop
    refine .setReady hw (fun hr => .inl (hcoherent.no_pends (by simp) hr)) ?_
    split
    · rename_i hr
      rintro _ (_ | ⟨_, ⟨⟩⟩)
      exact fun _ => hc rfl hr
    · rintro _ ⟨⟩
  · refine .quiet hw (ready_setReady_of_ne hop) rfl rfl rfl ?_
    split
    · rintro _ (_ | ⟨_, ⟨⟩⟩)
      exact fun h => absurd h hop
    · rintro _ ⟨⟩

/-- An operation without a packet is not what another initiating function waits for. -/
theorem Places.Coherent.ready_setReady {op' : Nat}
    (h : (places op o w [c]).Coherent (given op) (outcome op))
    (hpos : op' = op → 0 < c.defers op) (hpends : 0 < o.pends)
    (hr : (w.setReady op').ready op = true) : w.ready op = true := by
  by_cases hop : op' = op
  · by_contra hready
    have := h.no_pends (by have := hpos hop; omega) (Bool.eq_false_of_not_eq_true hready)
    omega
  · rwa [ready_setReady_of_ne hop] at hr

/-- An operation is posted without a result. -/
theorem resultStep_postDeferred {op' : Nat}
    (hcoherent : (places op o w [c]).Coherent (given op) (outcome op))
    (hpos : op' = op → 0 < c.defers op) (hw : w.Carries outcome op)
    (hnew : new.all Call.plain = true) :
    ResultStep outcome op o w ((w.setReady op').push (.posted .zero (some op'))) new := by
  refine .push hw (hcoherent.ready_setReady hpos) rfl rfl rfl (fun mode hop => ?_)
    (carries_of_plain hnew)
  exact (hcoherent.success (hpos hop)).symm

theorem advance_resultStep (hcoherent : (places op o w [c]).Coherent (given op) (outcome op))
    (hw : w.Carries outcome op) (hc : c.Carries outcome op w)
    (hadv : advance given w c = some (w', new)) : ResultStep outcome op o w w' new := by
  cases c with
  | dequeued mode op' key r => exact resultStep_dequeued hw hc hadv
  | exchangeReady mode op' r => exact resultStep_exchangeReady hw hc hadv
  | onPending op' => exact resultStep_onPending hcoherent hw hc hadv
  | onCompletion op' r =>
    cases hadv
    by_cases hop : op' = op
    · subst hop
      refine .setReady hw (fun hr => .inl (hcoherent.no_pends (by simp) hr)) ?_
      rintro _ (_ | ⟨_, ⟨⟩⟩)
      exact hc
    · refine .quiet hw (ready_setReady_of_ne hop) rfl rfl rfl ?_
      rintro _ (_ | ⟨_, ⟨⟩⟩)
      exact hc
  | storeResult op' r =>
    cases hadv
    by_cases hop : op' = op
    · subst hop
      rw [hc rfl]
      refine .store hw ?_
      rintro _ (_ | ⟨_, ⟨⟩⟩)
      exact fun _ => Function.update_self ..
    · refine .quiet hw rfl (stored_store_of_ne hop) rfl rfl ?_
      rintro _ (_ | ⟨_, ⟨⟩⟩)
      exact fun h => absurd h hop
  | postResult op' =>
    cases hadv
    refine .push hw (fun _ hr => hr) rfl rfl rfl (fun mode => ?_) ?_
    · exact fun hop => hc hop
    · rintro _ ⟨⟩
  | initiate op' =>
    simp only [advance] at hadv
    split at hadv
    · cases hadv
      refine .quiet hw rfl rfl rfl rfl ?_
      rintro _ (_ | ⟨_, ⟨⟩⟩)
      rintro rfl hr
      exact absurd (hcoherent.not_ready (by simp)) (by simp [show w.ready op' = true from hr])
    · rename_i ec bytes houtcome
      cases hadv
      refine .quiet hw rfl rfl rfl rfl ?_
      rintro _ (_ | ⟨_, ⟨⟩⟩)
      rintro rfl
      rw [hcoherent.given (by simp [places]), houtcome]
      rfl
  | getQueued mode =>
    simp only [advance] at hadv
    split at hadv
    · cases hadv
    · rename_i p port hport
      cases hadv
      have hkeeps : Keeps outcome op o w { w with port := port } := ⟨id, fun _ hr => .inl hr⟩
      have hmem : ∀ q ∈ p :: port, q ∈ w.port := fun q hq => hport ▸ hq
      refine ⟨hkeeps, hkeeps.world hw (fun q hq => .inl (hmem q (List.mem_cons_of_mem _ hq)))
        (fun x hx => .inl hx), ?_⟩
      rintro _ (_ | ⟨_, ⟨⟩⟩)
      exact hkeeps.call (by rw [pends_received]; exact Nat.zero_le _)
        (hw.packet p (hmem p (List.mem_cons_self ..)) mode)
  | postDeferred op' =>
    cases hadv
    exact resultStep_postDeferred hcoherent (fun hop => by simp [hop]) hw rfl
  | postDeferredAll mode ops =>
    cases ops with
    | nil =>
      cases hadv
      exact .quiet hw rfl rfl rfl rfl (carries_of_plain rfl)
    | cons op' ops =>
      cases hadv
      exact resultStep_postDeferred hcoherent (fun hop => by simp [hop]) hw rfl
  | stopPost | repostStop mode =>
    cases hadv
    exact .push hw (fun _ hr => hr) rfl rfl rfl (carries_none (by simp [Packet.posted]))
      (carries_of_plain rfl)
  | stop | stopEvent | workFinished | run mode | doOne mode | blockExit mode op' | completed mode
  | checkStopped mode | exchangeStop mode =>
    cases hadv
    refine .quiet hw rfl rfl rfl rfl (carries_of_plain ?_)
    split
    · rfl
    · rfl
  | collect mode | complete mode op' | clearStop mode | pushCompleted op' | requireDispatch =>
    cases hadv
    exact .quiet hw rfl rfl rfl rfl (carries_of_plain rfl)

theorem postFailed_resultStep
    (hcoherent : (places op o w [c]).Coherent (given op) (outcome op))
    (hw : w.Carries outcome op) (hpost : postFailed w c = some (w', new)) :
    ResultStep outcome op o w w' new := by
  cases c with
  | stopPost | repostStop mode | postResult op' =>
    cases hpost
    exact .quiet hw rfl rfl rfl rfl (carries_of_plain rfl)
  | postDeferred op' =>
    cases hpost
    exact .same hw (hcoherent.ready_setReady fun hop => by simp [hop]) rfl rfl rfl
      (carries_of_plain rfl)
  | postDeferredAll mode ops =>
    cases ops with
    | nil => cases hpost
    | cons op' ops =>
      cases hpost
      exact .same hw (hcoherent.ready_setReady fun hop => by simp [hop]) rfl rfl rfl
        (carries_of_plain rfl)
  | _ => cases hpost

/-- Everything that carries the result of an operation, seen by one thread. -/
structure Carried (outcome : Nat → Outcome) (op : Nat) (w : World) (calls : List Call) : Prop where
  world : w.Carries outcome op
  calls : ∀ c ∈ calls, c.Carries outcome op w

/-- What the calls of a thread carry stays with the calls that it leaves alone. -/
theorem Keeps.rest {rest : List Call} (h : Keeps outcome op (o.add op rest) w w')
    (hrest : ∀ c ∈ rest, c.Carries outcome op w) : ∀ c ∈ rest, c.Carries outcome op w' := by
  intro c hc
  refine h.call ?_ (hrest c hc)
  have := le_load (Call.pends op) hc
  simp only [Others.add]
  omega

theorem Keeps.others {rest : List Call} (h : Keeps outcome op (o.add op rest) w w') :
    Keeps outcome op o w w' where
  stored := h.stored
  ready hpos := h.ready (Nat.add_pos_left hpos _)

theorem ResultStep.carried {rest : List Call}
    (h : ResultStep outcome op (o.add op rest) w w' new)
    (hrest : ∀ c ∈ rest, c.Carries outcome op w) :
    Carried outcome op w' (new ++ rest) ∧ Keeps outcome op o w w' := by
  refine ⟨⟨h.world, fun c hc => ?_⟩, h.keeps.others⟩
  rcases List.mem_append.mp hc with hc | hc
  · exact h.calls c hc
  · exact h.keeps.rest hrest c hc

/-- The calls of a thread change, and nothing that carries a result. -/
theorem Carried.quiet {calls calls' : List Call} (h : Carried outcome op w calls)
    (ready : w'.ready op = w.ready op) (stored : w'.stored op = w.stored op)
    (port : w'.port = w.port) (invoked : w'.invoked = w.invoked)
    (same : ∀ c ∈ calls', c ∈ calls ∨ c.plain = true) :
    Carried outcome op w' calls' ∧ Keeps outcome op o w w' := by
  have hstep (o : Others) : ResultStep outcome op o w w' [] :=
    .quiet h.world ready stored port invoked (carries_of_plain rfl)
  refine ⟨⟨(hstep o).world, fun c hc => ?_⟩, (hstep o).keeps⟩
  rcases same c hc with hc | hplain
  · exact (hstep (o.add op calls)).keeps.rest h.calls c hc
  · exact carries_of_plain (show [c].all Call.plain = true by simp [hplain]) c
      (List.mem_singleton_self c)

/-- A packet comes from outside. -/
theorem Carried.post {calls : List Call} {p : Packet} (h : Carried outcome op w calls)
    (ready : w'.ready op = w.ready op) (stored : w'.stored op = w.stored op)
    (port : w'.port = w.port ++ [p]) (invoked : w'.invoked = w.invoked)
    (packet : ∀ mode, (received mode p).Carries outcome op w') :
    Carried outcome op w' calls ∧ Keeps outcome op o w w' := by
  have hstep : ResultStep outcome op (o.add op calls) w w' [] :=
    .push h.world (fun _ hr => ready ▸ hr) stored port invoked packet (carries_of_plain rfl)
  exact hstep.carried h.calls

theorem perform_carried {ι : Type u} {i : ι} {calls calls' : List Call} {a : Action}
    (hcoherent : (places op o w calls).Coherent (given op) (outcome op))
    (h : Carried outcome op w calls) (hperform : perform given i w calls a = some (w', calls')) :
    Carried outcome op w' calls' ∧ Keeps outcome op o w w' := by
  cases perform_performs hperform with
  | stop | run mode | workFinished | initiate op' | post op' =>
    refine h.quiet rfl rfl rfl rfl (List.forall_mem_cons.mpr ⟨.inr rfl, fun c hc => ?_⟩)
    exact .inl hc
  | restart | workStarted | timerReady op' | timerExpired =>
    exact h.quiet rfl rfl rfl rfl fun c hc => .inl hc
  | step rest hadv =>
    refine ResultStep.carried (advance_resultStep ?_ h.world (h.calls _ ?_) hadv) fun c hc => ?_
    · rwa [← places_append]
    · exact List.mem_cons_self ..
    · exact h.calls c (List.mem_cons_of_mem _ hc)
  | throws mode op' rest =>
    refine h.quiet rfl rfl rfl rfl (List.forall_mem_cons.mpr ⟨.inr rfl, fun c hc => ?_⟩)
    exact .inl (List.mem_cons_of_mem _ hc)
  | @postFails c new w' rest hpost =>
    rw [show c :: rest = [c] ++ rest from rfl, places_append] at hcoherent
    refine ResultStep.carried (postFailed_resultStep hcoherent h.world hpost) fun c hc => ?_
    exact h.calls c (List.mem_cons_of_mem _ hc)
  | timeout mode rest =>
    split
    · refine h.quiet rfl rfl rfl rfl (List.forall_mem_cons.mpr ⟨.inr rfl, fun c hc => ?_⟩)
      exact .inl (List.mem_cons_of_mem _ hc)
    · exact h.quiet rfl rfl rfl rfl fun c hc => .inl (List.mem_cons_of_mem _ hc)
  | getQueuedFails mode rest =>
    exact h.quiet rfl rfl rfl rfl fun c hc => .inl (List.mem_cons_of_mem _ hc)
  | deliver op' _ houtcome hkernel =>
    refine h.post rfl rfl rfl rfl fun mode hop => ?_
    have hpos : 0 < w.kernel.count op := List.count_pos_iff.mpr (hop ▸ hkernel)
    rw [hcoherent.given (Nat.add_pos_right _ hpos), ← hop, houtcome]
    rfl
  | wake => exact h.post rfl rfl rfl rfl (carries_none (by simp [Packet.posted]))

/-- A call that has nothing of an operation carries nothing for it. -/
theorem carries_of_absent (h : c.starts op + c.pends op + c.holds op = 0) :
    c.Carries outcome op w := by
  cases c with
  | onPending o | onCompletion o | storeResult o | postResult o | dequeued _ o
  | exchangeReady _ o =>
    intro hop
    simp [hop] at h
  | _ => exact True.intro

/-- Nothing carries anything for an operation that is nowhere. -/
theorem carries_of_nowhere (packets : w.packets op = 0) (invocations : w.invocations op = 0) :
    w.Carries outcome op where
  packet p hp mode := by
    refine carries_none (fun hop => ?_) mode
    have hpos : 0 < w.packets op := List.countP_pos_iff.mpr ⟨p, hp, by simp [hop]⟩
    omega
  handler x hx hop := by
    have hpos : 0 < w.invocations op := List.countP_pos_iff.mpr ⟨x, hx, by simp [hop]⟩
    omega

end Steps

/-! ### The threads together -/

section Threads

variable {ι : Type u} [Fintype ι] [DecidableEq ι] {outcome : Nat → Outcome} {s s' : State ι}
variable {op : Nat}

/-- Whatever has the operation carries its result. -/
structure Borne (outcome : Nat → Outcome) (op : Nat) (s : State ι) : Prop where
  world : s.shared.Carries outcome op
  calls : ∀ i, ∀ c ∈ s.part i, c.Carries outcome op s.shared

/-- The result of an overlapped operation is carried by whatever carries the operation. -/
def ResultInvariant (outcome : Nat → Outcome) (op : Nat) (s : State ι) : Prop :=
  op ∈ s.shared.overlapped → s.shared.Carries outcome op ∧
    ∀ i, ∀ c ∈ s.part i, c.Carries outcome op s.shared

theorem pends_le_others {i j : ι} {c : Call} (hj : j ≠ i) (hc : c ∈ s.part j) :
    c.pends op ≤ (others s i op).pends := by
  have hle := le_load (Call.pends op) hc
  have hset := weight_set (s := s) (Call.pends op) i s.shared []
  have hpart := load_le_weight (s := s.set i (s.shared, [])) (Call.pends op) j
  rw [part_set_of_ne hj] at hpart
  simp only [load_nil] at hset
  simp only [others]
  omega

theorem step_borne {given : Nat → Outcome} {a : ι × Action}
    (hcoherent : (places op (everyone s op) s.shared []).Coherent (given op) (outcome op))
    (h : Borne outcome op s) (hstep : step given s a = some s') : Borne outcome op s' := by
  obtain ⟨w, calls, hperform, rfl⟩ := step_eq_some.mp hstep
  rw [places_thread s a.1] at hcoherent
  obtain ⟨hcarried, hkeeps⟩ := perform_carried hcoherent ⟨h.world, h.calls a.1⟩ hperform
  refine ⟨hcarried.world, fun j c hc => ?_⟩
  by_cases hj : j = a.1
  · subst hj
    rw [part_set_self] at hc
    exact hcarried.calls c hc
  · rw [part_set_of_ne hj] at hc
    exact hkeeps.call (pends_le_others hj hc) (h.calls j c hc)

/-- An operation that is nowhere has every result. -/
theorem borne_of_empty (h : (places op (everyone s op) s.shared []).Empty) :
    Borne outcome op s where
  world := by
    have hsum := h.2
    simp only [places] at hsum
    exact carries_of_nowhere (by omega) (by omega)
  calls i c hc := by
    have hsum := h.2
    simp only [places, everyone, load_nil] at hsum
    have hs := (le_load (Call.starts op) hc).trans (load_le_weight _ i)
    have hp := (le_load (Call.pends op) hc).trans (load_le_weight _ i)
    have hh := (le_load (Call.holds op) hc).trans (load_le_weight _ i)
    exact carries_of_absent (by omega)

theorem step_resultInvariant {a : ι × Action}
    (haccounted : Accounted op (everyone s op) s.shared []) (hinv : ResultInvariant outcome op s)
    (hstep : step outcome s a = some s') : ResultInvariant outcome op s' := by
  intro ho
  suffices h : Borne outcome op s' from ⟨h.world, h.calls⟩
  by_cases hs : op ∈ s.shared.overlapped
  · obtain ⟨hw, hcalls⟩ := hinv hs
    exact step_borne (haccounted.unique hs).2.coherent ⟨hw, hcalls⟩ hstep
  · have hnew : op ∉ s.shared.started := by
      have hmoved := step_moved True op (fun _ _ => trivial) hstep
      cases hmoved with
      | move _ overlapped | defer _ _ _ overlapped => exact absurd (overlapped ▸ ho) hs
      | initiate op' hnew _ overlapped =>
        rw [overlapped, List.mem_append, List.mem_singleton] at ho
        exact (ho.resolve_left hs) ▸ hnew
    have hempty := haccounted.absent hnew
    exact step_borne hempty.coherent (borne_of_empty hempty) hstep

theorem reachable_resultInvariant
    (h : Reachable (step outcome) (fun s a => losesResult s a = false) initial s) :
    ResultInvariant outcome op s :=
  h.invariant_with (fun h => reachable_accounted h) (fun ho => by cases ho)
    fun haccounted hinv _ hstep => step_resultInvariant haccounted hinv hstep

/-- The initiating function still has the operation. -/
def Call.initiates (op : Nat) : Call → Bool
  | .initiate o | .onPending o | .onCompletion o _ | .storeResult o _ | .postResult o
  | .pushCompleted o => o = op
  | _ => false

/-- The call has the operation in hand. -/
def Call.involves (op : Nat) (c : Call) : Bool :=
  0 < c.starts op + c.pends op + c.holds op + c.completes op + c.defers op

theorem initiates_weight {c : Call} (h : c.initiates op = true) :
    0 < c.starts op + c.pends op + c.holds op + c.defers op := by
  cases c with
  | initiate | onPending | onCompletion | storeResult | postResult | pushCompleted =>
    simp only [Call.initiates, decide_eq_true_eq] at h
    simp [h]
  | _ => cases h

theorem everyone_eq_zero (φ : Call → Nat) (h : ∀ i, ∀ c ∈ s.part i, φ c = 0) : s.weight φ = 0 := by
  by_contra hn
  obtain ⟨i, c, hc, hpos⟩ := weight_pos (Nat.pos_of_ne_zero hn)
  have := h i c hc
  omega

/-- No thread has the operation. -/
theorem everyone_of_not_involves (h : ∀ i, ∀ c ∈ s.part i, c.involves op = false) :
    everyone s op = ⟨0, 0, 0, 0, 0⟩ := by
  have habsent (i : ι) (c : Call) (hc : c ∈ s.part i) :
      c.starts op + c.pends op + c.holds op + c.completes op + c.defers op = 0 := by
    have := h i c hc
    simp only [Call.involves, decide_eq_false_iff_not] at this
    omega
  have hzero (φ : Call → Nat)
      (hφ : ∀ c : Call,
        φ c ≤ c.starts op + c.pends op + c.holds op + c.completes op + c.defers op) :
      s.weight φ = 0 :=
    everyone_eq_zero φ fun i c hc => Nat.eq_zero_of_le_zero (habsent i c hc ▸ hφ c)
  rw [everyone, hzero (Call.starts op) fun c => by omega, hzero (Call.pends op) fun c => by omega,
    hzero (Call.holds op) fun c => by omega, hzero (Call.completes op) fun c => by omega,
    hzero (Call.defers op) fun c => by omega]

/-- As long as no packet with a result is refused, the handler of an overlapped operation is invoked
once, with the result that the system has given, when the initiating function is done, and its work
is finished once. -/
theorem overlapped_once
    (h : Reachable (step outcome) (fun s a => losesResult s a = false) initial s)
    (ho : op ∈ s.shared.overlapped) :
    s.shared.invocations op ≤ 1 ∧ s.shared.finished.count op ≤ 1 ∧
      (∀ r, (op, r) ∈ s.shared.invoked →
        r = (outcome op).result ∧ ∀ i, ∀ c ∈ s.part i, c.initiates op = false) ∧
      (op ∉ s.shared.kernel → s.shared.packets op = 0 →
        (∀ i, ∀ c ∈ s.part i, c.involves op = false) →
        s.shared.invocations op = 1 ∧ s.shared.finished.count op = 1) := by
  have hu := ((reachable_accounted h).unique ho).2
  refine ⟨hu.le_one.1, hu.le_one.2, fun r hr => ⟨?_, fun i c hc => ?_⟩,
    fun hkernel hpackets hcalls => ?_⟩
  · exact (reachable_resultInvariant h ho).1.handler (op, r) hr rfl
  · have hpos : 0 < s.shared.invocations op := List.countP_pos_iff.mpr ⟨(op, r), hr, by simp⟩
    have hzero := hu.invoked hpos
    simp only [places, everyone, load_nil] at hzero
    by_contra hn
    have hinitiates := initiates_weight (Bool.eq_true_of_not_eq_false hn)
    have hs := (le_load (Call.starts op) hc).trans (load_le_weight _ i)
    have hp := (le_load (Call.pends op) hc).trans (load_le_weight _ i)
    have hh := (le_load (Call.holds op) hc).trans (load_le_weight _ i)
    have hd := (le_load (Call.defers op) hc).trans (load_le_weight _ i)
    omega
  · refine hu.completed ?_
    rw [everyone_of_not_involves hcalls]
    simp only [places, load_nil, hpackets, List.count_eq_zero.mpr hkernel]

end Threads

/-- The packet of the system comes before the initiating function, which posts its own. -/
def postedRun : List (Fin 2 × Action) :=
  [(0, .initiate 7), (1, .run ⟨true, false⟩), (1, .step), (1, .step), (0, .step), (0, .deliver 7),
    (1, .step), (1, .step), (1, .step), (0, .step), (0, .step), (1, .step), (1, .step), (1, .step),
    (1, .step), (1, .step), (1, .step), (1, .step), (1, .step), (1, .step), (1, .step)]

theorem postedRun_completes :
    (exec (guarded (step fun _ => .pending 0 5) fun s a => losesResult s a = false) initial
      postedRun).map (fun s => (s.shared.overlapped, s.shared.kernel, s.shared.packets 7, s.part 0,
        s.part 1)) =
    some ([7], [], 0, [], []) := by
  decide +kernel

theorem overlapped_once_posted : ∃ s : State (Fin 2),
    s.shared.invocations 7 = 1 ∧ s.shared.finished.count 7 = 1 := by
  obtain ⟨s, hs, heq⟩ := Option.map_eq_some_iff.mp postedRun_completes
  simp only [Prod.mk.injEq] at heq
  obtain ⟨hoverlapped, hkernel, hpackets, h0, h1⟩ := heq
  obtain ⟨-, -, -, hdone⟩ := overlapped_once (exec_guarded_reachable hs)
    (show 7 ∈ s.shared.overlapped by simp [hoverlapped])
  refine ⟨s, hdone (by simp [hkernel]) hpackets fun i c hc => ?_⟩
  match i with
  | 0 => simp [h0] at hc
  | 1 => simp [h1] at hc

/-- The packet of the system comes before the initiating function, which has no room for its own. -/
def refusedRun : List (Fin 2 × Action) :=
  [(0, .initiate 7), (1, .run ⟨true, false⟩), (1, .step), (1, .step), (0, .step), (0, .deliver 7),
    (1, .step), (1, .step), (1, .step), (0, .step), (0, .postFails), (0, .step), (0, .step),
    (1, .step), (1, .step), (1, .step), (1, .step), (1, .step), (1, .step), (1, .step)]

theorem refusedRun_invokes :
    (exec (guarded (step fun _ => .pending 0 5) fun _ _ => True) initial refusedRun).map
      (fun s => (s.shared.overlapped, s.shared.invoked)) =
    some ([7], [(7, ⟨⟨.system, 0⟩, 0⟩)]) := by
  decide +kernel

theorem overlapped_once_fails : ¬∀ (outcome : Nat → Outcome) (s : State (Fin 2)) (op : Nat)
    (r : Result), Reachable (step outcome) (fun _ _ => True) initial s →
    op ∈ s.shared.overlapped → (op, r) ∈ s.shared.invoked → r = (outcome op).result := by
  intro hclaim
  obtain ⟨s, hs, heq⟩ := Option.map_eq_some_iff.mp refusedRun_invokes
  simp only [Prod.mk.injEq] at heq
  obtain ⟨hoverlapped, hinvoked⟩ := heq
  have hresult := hclaim _ s 7 ⟨⟨.system, 0⟩, 0⟩ (exec_guarded_reachable hs)
    (by simp [hoverlapped]) (by simp [hinvoked])
  revert hresult
  decide

end Asio.Detail.WinIocpIoContext
