import Asio.Experimental.Coro

/-! Every coroutine of a chain sees the cancellation source of the chain, as long as all have one
executor. -/

universe u v

namespace Asio.Experimental.Coros

open Detail.ReactiveSocketService (CancellationType)
open Lib.Transition

variable {ι : Type u} {ε : Type v}

/-! ### The invariant -/

section Invariant

variable {s s' : Coros ι ε} {c r : ι}

/-- The pointer designates the source of the `async_resume`. -/
def Owned (s : Coros ι ε) (c r : ι) : Prop :=
  ∃ src, (s.promise c).cancel = .cancelSource r src.resumption ∧
    (s.promise r).cancelSource = some src

/-- The pointer of a coroutine that is not active is not one to the source of a chain. -/
structure Idle (s : Coros ι ε) (c : ι) : Prop where
  awaiting : (s.promise c).awaiting = none
  owner : ∀ r k, (s.promise c).cancel = .cancelSource r k → r = c
  relay : ∀ n, (s.promise c).cancel ≠ .relay n

structure Sane (s : Coros ι ε) : Prop where
  awaited : ∀ a b, (s.promise b).awaitedFrom = .coro a → (s.promise a).awaiting = some b
  active : ∀ c, (s.promise c).awaitedFrom ≠ .noop → ∃ r, s.StartedBy c r ∧ s.Owned c r
  idle : ∀ c, (s.promise c).awaitedFrom = .noop → s.Idle c

theorem construct_sane (executor : ι → ε) (isNoexcept : ι → Bool) :
    (construct executor isNoexcept).Sane where
  awaited a b h := by cases h
  active c h := absurd rfl h
  idle c _ := ⟨rfl, fun _ _ h => (by cases h), fun _ h => (by cases h)⟩

/-- A chain is the same as long as the coroutines that it goes through are awaited the same. -/
theorem StartedBy.congr (P : ι → Prop) (h : s.StartedBy c r) (hc : P c)
    (hnext : ∀ x a, P x → (s.promise x).awaitedFrom = .coro a → P a)
    (hsame : ∀ x, P x → (s'.promise x).awaitedFrom = (s.promise x).awaitedFrom) :
    s'.StartedBy c r ∧ P r := by
  induction h with
  | handler h => exact ⟨.handler ((hsame _ hc).trans h), hc⟩
  | coro h ha ih =>
    obtain ⟨hstarted, hr⟩ := ih (hnext _ _ hc h)
    exact ⟨.coro ((hsame _ hc).trans h) hstarted, hr⟩

theorem StartedBy.active (h : s.StartedBy c r) : (s.promise c).awaitedFrom ≠ .noop := by
  cases h with
  | handler h => simp [h]
  | coro h => simp [h]

theorem StartedBy.root (h : s.StartedBy c r) : (s.promise r).awaitedFrom = .handler := by
  induction h with
  | handler h => exact h
  | coro _ _ ih => exact ih

/-- Only sources have changed, and each is still that of the same `async_resume`. -/
structure Reshaped (s s' : Coros ι ε) : Prop where
  awaitedFrom : ∀ c, (s'.promise c).awaitedFrom = (s.promise c).awaitedFrom
  awaiting : ∀ c, (s'.promise c).awaiting = (s.promise c).awaiting
  cancel : ∀ c, (s'.promise c).cancel = (s.promise c).cancel
  cancelSource : ∀ c src, (s.promise c).cancelSource = some src →
    ∃ src', (s'.promise c).cancelSource = some src' ∧ src'.resumption = src.resumption

theorem Reshaped.refl (s : Coros ι ε) : Reshaped s s :=
  ⟨fun _ => rfl, fun _ => rfl, fun _ => rfl, fun _ src h => ⟨src, h, rfl⟩⟩

theorem Reshaped.trans {s'' : Coros ι ε} (h : Reshaped s s') (h' : Reshaped s' s'') :
    Reshaped s s'' where
  awaitedFrom c := (h'.awaitedFrom c).trans (h.awaitedFrom c)
  awaiting c := (h'.awaiting c).trans (h.awaiting c)
  cancel c := (h'.cancel c).trans (h.cancel c)
  cancelSource c src hsrc := by
    obtain ⟨src', hsrc', hresumption⟩ := h.cancelSource c src hsrc
    obtain ⟨src'', hsrc'', hresumption'⟩ := h'.cancelSource c src' hsrc'
    exact ⟨src'', hsrc'', hresumption'.trans hresumption⟩

theorem modifySource_reshaped [DecidableEq ι] {f : CoroCancellationSource → CoroCancellationSource}
    (hf : ∀ src, (f src).resumption = src.resumption) (s : Coros ι ε) (p : SourcePointer ι) :
    Reshaped s (s.modifySource f p) := by
  cases p with
  | indeterminate | null => exact .refl s
  | relay n => exact ⟨fun _ => rfl, fun _ => rfl, fun _ => rfl, fun _ src h => ⟨src, h, rfl⟩⟩
  | cancelSource owner k =>
    refine ⟨fun c => ?_, fun c => ?_, fun c => ?_, fun c src h => ?_⟩
    · simp only [modifySource, setPromise, Function.update_apply]
      split <;> simp_all
    · simp only [modifySource, setPromise, Function.update_apply]
      split <;> simp_all
    · simp only [modifySource, setPromise, Function.update_apply]
      split <;> simp_all
    · simp only [modifySource, setPromise, Function.update_apply]
      split
      · rename_i hc
        subst hc
        exact ⟨f src, by simp only [h, Option.map_some], hf src⟩
      · exact ⟨src, h, rfl⟩

theorem Sane.reshaped (h : s.Sane) (hs : Reshaped s s') : s'.Sane where
  awaited a b hb := by
    rw [hs.awaitedFrom] at hb
    rw [hs.awaiting]
    exact h.awaited a b hb
  active c hc := by
    rw [hs.awaitedFrom] at hc
    obtain ⟨r, hstarted, src, hcancel, hsource⟩ := h.active c hc
    obtain ⟨src', hsource', hresumption⟩ := hs.cancelSource r src hsource
    refine ⟨r, (hstarted.congr (fun _ => True) trivial (fun _ _ _ _ => trivial)
      fun x _ => hs.awaitedFrom x).1, src', ?_, hsource'⟩
    rw [hs.cancel, hcancel, hresumption]
  idle c hc := by
    rw [hs.awaitedFrom] at hc
    obtain ⟨hawaiting, howner, hrelay⟩ := h.idle c hc
    refine ⟨?_, ?_, ?_⟩
    · rw [hs.awaiting, hawaiting]
    · rw [hs.cancel]
      exact howner
    · rw [hs.cancel]
      exact hrelay

theorem Sane.awaiter_active {a : ι} (h : s.Sane) (hc : (s.promise c).awaitedFrom = .coro a) :
    (s.promise a).awaitedFrom ≠ .noop := by
  obtain ⟨r, hstarted, -⟩ := h.active c (by simp [hc])
  cases hstarted with
  | handler hhandler => simp [hc] at hhandler
  | coro hcoro ha =>
    rw [hc] at hcoro
    cases hcoro
    exact ha.active

end Invariant

/-! ### The steps -/

section Steps

variable [DecidableEq ι] {s s' : Coros ι ε} {a b c : ι}

section Transfer

variable (s a b) (cancel : SourcePointer ι) (x : ι)

theorem awaitedFrom_transfer : ((s.transfer a b cancel).promise x).awaitedFrom =
    if x = b then .coro a else (s.promise x).awaitedFrom := by
  simp only [transfer, setPromise, Function.update_apply]
  split_ifs <;> simp_all

theorem awaiting_transfer : ((s.transfer a b cancel).promise x).awaiting =
    if x = a then some b else (s.promise x).awaiting := by
  simp only [transfer, setPromise, Function.update_apply]
  split_ifs <;> simp_all

theorem cancel_transfer : ((s.transfer a b cancel).promise x).cancel =
    if x = b then cancel else (s.promise x).cancel := by
  simp only [transfer, setPromise, Function.update_apply]
  split_ifs <;> simp_all

theorem cancelSource_transfer :
    ((s.transfer a b cancel).promise x).cancelSource = (s.promise x).cancelSource := by
  simp only [transfer, setPromise, Function.update_apply]
  split_ifs <;> simp_all

end Transfer

/-- A coroutine that is awaited on the same executor is given the pointer. -/
theorem Sane.transfer (h : s.Sane) (ha : s.Running a) (hb : (s.promise b).awaitedFrom = .noop) :
    (s.transfer a b (s.promise a).cancel).Sane := by
  have hchain {x r : ι} (hx : s.StartedBy x r) :
      (s.transfer a b (s.promise a).cancel).StartedBy x r := by
    refine (hx.congr (fun y => (s.promise y).awaitedFrom ≠ .noop) hx.active
      (fun y z _ hz => h.awaiter_active hz) fun y hy => ?_).1
    rw [awaitedFrom_transfer, if_neg]
    rintro rfl
    exact hy hb
  refine ⟨fun x y hy => ?_, fun x hx => ?_, fun x hx => ?_⟩
  · rw [awaitedFrom_transfer] at hy
    rw [awaiting_transfer]
    split at hy
    · rename_i hyb
      cases hy
      rw [if_pos rfl, hyb]
    · have hawaiting := h.awaited x y hy
      rw [if_neg, hawaiting]
      rintro rfl
      rw [ha.2] at hawaiting
      cases hawaiting
  · by_cases hxb : x = b
    · subst hxb
      obtain ⟨r, hstarted, src, hcancel, hsource⟩ := h.active a ha.1
      refine ⟨r, .coro (by rw [awaitedFrom_transfer, if_pos rfl]) (hchain hstarted), src, ?_, ?_⟩
      · rw [cancel_transfer, if_pos rfl, hcancel]
      · rw [cancelSource_transfer, hsource]
    · rw [awaitedFrom_transfer, if_neg hxb] at hx
      obtain ⟨r, hstarted, src, hcancel, hsource⟩ := h.active x hx
      refine ⟨r, hchain hstarted, src, ?_, ?_⟩
      · rw [cancel_transfer, if_neg hxb, hcancel]
      · rw [cancelSource_transfer, hsource]
  · rw [awaitedFrom_transfer] at hx
    split at hx
    · cases hx
    · rename_i hxb
      obtain ⟨hawaiting, howner, hrelay⟩ := h.idle x hx
      refine ⟨?_, ?_, ?_⟩
      · rw [awaiting_transfer, if_neg, hawaiting]
        rintro rfl
        exact ha.1 hx
      · rw [cancel_transfer, if_neg hxb]
        exact howner
      · rw [cancel_transfer, if_neg hxb]
        exact hrelay

section AsyncResume

variable (s c) (isConnected : Bool) (x : ι)

theorem promise_asyncResume : (s.asyncResume c isConnected).promise x =
    if x = c then
      { s.promise c with
        cancelSource := some (.construct s.resumptions isConnected)
        cancel := .cancelSource c s.resumptions
        awaitedFrom := if (s.promise c).done then .noop else .handler }
    else
      s.promise x :=
  Function.update_apply ..

end AsyncResume

/-- A coroutine that is resumed is given a source of its own. -/
theorem Sane.asyncResume (h : s.Sane) (hc : (s.promise c).awaitedFrom = .noop)
    (isConnected : Bool) : (s.asyncResume c isConnected).Sane := by
  have hother {x : ι} (hx : x ≠ c) : (s.asyncResume c isConnected).promise x = s.promise x := by
    rw [promise_asyncResume, if_neg hx]
  have hself := promise_asyncResume s c isConnected c
  rw [if_pos rfl] at hself
  refine ⟨fun x y hy => ?_, fun x hx => ?_, fun x hx => ?_⟩
  · by_cases hyc : y = c
    · subst hyc
      rw [hself] at hy
      split at hy <;> cases hy
    · rw [hother hyc] at hy
      have hactive := h.awaiter_active hy
      rw [hother (by rintro rfl; exact hactive hc)]
      exact h.awaited x y hy
  · by_cases hxc : x = c
    · subst hxc
      rw [hself] at hx
      have hhandler : ((s.asyncResume x isConnected).promise x).awaitedFrom = .handler := by
        rw [hself]
        exact if_neg fun hdone => hx (if_pos hdone)
      refine ⟨x, .handler hhandler, .construct s.resumptions isConnected, ?_, ?_⟩ <;> rw [hself]
      rfl
    · rw [hother hxc] at hx
      obtain ⟨r, hstarted, src, hcancel, hsource⟩ := h.active x hx
      obtain ⟨hchain, hr⟩ := hstarted.congr (fun y => (s.promise y).awaitedFrom ≠ .noop) hx
        (fun y z _ hz => h.awaiter_active hz)
        (fun y hy => by rw [hother (by rintro rfl; exact hy hc)])
      refine ⟨r, hchain, src, ?_, ?_⟩
      · rw [hother hxc, hcancel]
      · rw [hother (by rintro rfl; exact hr hc), hsource]
  · by_cases hxc : x = c
    · subst hxc
      obtain ⟨hawaiting, -, -⟩ := h.idle x hc
      refine ⟨?_, fun r k hcancel => ?_, fun n hcancel => ?_⟩
      · rw [hself, hawaiting]
      · rw [hself] at hcancel
        cases hcancel
        rfl
      · rw [hself] at hcancel
        cases hcancel
    · rw [hother hxc] at hx
      obtain ⟨hawaiting, howner, hrelay⟩ := h.idle x hx
      refine ⟨?_, ?_, ?_⟩ <;> rwa [hother hxc]

section Suspend

variable (s c) (done : Bool) (x : ι)

theorem awaitedFrom_suspend (hc : s.Running c) : ((s.suspend c done).promise x).awaitedFrom =
    if x = c then .noop else (s.promise x).awaitedFrom := by
  cases h : (s.promise c).awaitedFrom with
  | noop => exact absurd h hc.1
  | handler =>
    simp only [suspend, h, setPromise, Function.update_apply]
    split_ifs <;> rfl
  | coro a =>
    simp only [suspend, h, setPromise, Function.update_apply]
    split_ifs <;> simp_all

theorem cancelSource_suspend :
    ((s.suspend c done).promise x).cancelSource = (s.promise x).cancelSource := by
  cases h : (s.promise c).awaitedFrom with
  | noop => simp only [suspend, h]
  | handler =>
    simp only [suspend, h, setPromise, Function.update_apply]
    split_ifs <;> simp_all
  | coro a =>
    simp only [suspend, h, setPromise, Function.update_apply]
    split_ifs <;> simp_all

/-- The pointer of a coroutine that another one awaits is reset. -/
theorem cancel_suspend (hc : s.Running c) : ((s.suspend c done).promise x).cancel =
    if x = c ∧ (s.promise c).awaitedFrom ≠ .handler then .null else (s.promise x).cancel := by
  cases h : (s.promise c).awaitedFrom with
  | noop => exact absurd h hc.1
  | handler =>
    simp only [suspend, h, setPromise, Function.update_apply]
    split_ifs <;> simp_all
  | coro a =>
    simp only [suspend, h, setPromise, Function.update_apply]
    split_ifs <;> simp_all

theorem awaiting_suspend : ((s.suspend c done).promise x).awaiting =
    if (s.promise c).awaitedFrom = .coro x then none else (s.promise x).awaiting := by
  cases h : (s.promise c).awaitedFrom with
  | noop => simp [suspend, h]
  | handler =>
    simp only [suspend, h, setPromise, Function.update_apply]
    split_ifs <;> simp_all
  | coro a =>
    simp only [suspend, h, setPromise, Function.update_apply]
    split_ifs <;> simp_all

end Suspend

/-- What is left in a coroutine that is suspended. -/
theorem Sane.cancel_suspend (h : s.Sane) (hc : s.Running c) (done : Bool) :
    ((s.suspend c done).promise c).cancel = .null ∨
      ∃ k, ((s.suspend c done).promise c).cancel = .cancelSource c k := by
  rw [Coros.cancel_suspend s c done c hc]
  split
  · exact Or.inl rfl
  · rename_i hnot
    have hhandler : (s.promise c).awaitedFrom = .handler := by
      by_contra hne
      exact hnot ⟨rfl, hne⟩
    obtain ⟨r, hstarted, src, hcancel, -⟩ := h.active c hc.1
    cases hstarted with
    | handler => exact Or.inr ⟨_, hcancel⟩
    | coro hcoro =>
      rw [hhandler] at hcoro
      cases hcoro

/-- The coroutine that is suspended was the last one of its chain. -/
theorem Sane.suspend (h : s.Sane) (hc : s.Running c) (done : Bool) : (s.suspend c done).Sane := by
  have hlast {x y : ι} (hx : (s.promise x).awaitedFrom = .coro y) : y ≠ c := by
    rintro rfl
    have hawaiting := h.awaited y x hx
    rw [hc.2] at hawaiting
    cases hawaiting
  refine ⟨fun x y hy => ?_, fun x hx => ?_, fun x hx => ?_⟩
  · rw [awaitedFrom_suspend s c done y hc] at hy
    split at hy
    · cases hy
    · rename_i hyc
      have hawaiting := h.awaited x y hy
      rw [awaiting_suspend, if_neg, hawaiting]
      intro hcx
      rw [h.awaited x c hcx] at hawaiting
      exact hyc (Option.some.inj hawaiting).symm
  · rw [awaitedFrom_suspend s c done x hc] at hx
    split at hx
    · exact absurd rfl hx
    · rename_i hxc
      obtain ⟨r, hstarted, src, hcancel, hsource⟩ := h.active x hx
      have hsame (y : ι) (hy : y ≠ c) :
          ((s.suspend c done).promise y).awaitedFrom = (s.promise y).awaitedFrom := by
        rw [awaitedFrom_suspend s c done y hc, if_neg hy]
      obtain ⟨hchain, -⟩ := hstarted.congr (fun y => y ≠ c) hxc (fun y z _ hz => hlast hz) hsame
      refine ⟨r, hchain, src, ?_, ?_⟩
      · rw [Coros.cancel_suspend s c done x hc, if_neg fun hand => hxc hand.1, hcancel]
      · rw [cancelSource_suspend, hsource]
  · have hawaiting (hnone : (s.promise x).awaiting = none) :
        ((s.suspend c done).promise x).awaiting = none := by
      rw [awaiting_suspend, hnone, ite_self]
    rw [awaitedFrom_suspend s c done x hc] at hx
    by_cases hxc : x = c
    · subst hxc
      have hleft := h.cancel_suspend hc done
      refine ⟨hawaiting hc.2, fun r k hcancel => ?_, fun n hcancel => ?_⟩
      · obtain hnull | ⟨k', hown⟩ := hleft
        · rw [hnull] at hcancel
          cases hcancel
        · rw [hown] at hcancel
          cases hcancel
          rfl
      · obtain hnull | ⟨k', hown⟩ := hleft
        · rw [hnull] at hcancel
          cases hcancel
        · rw [hown] at hcancel
          cases hcancel
    · rw [if_neg hxc] at hx
      have hcancel := Coros.cancel_suspend s c done x hc
      rw [if_neg fun hand => hxc hand.1] at hcancel
      obtain ⟨hnone, howner, hrelay⟩ := h.idle x hx
      refine ⟨hawaiting hnone, ?_, ?_⟩ <;> rwa [hcancel]

end Steps

/-! ### Runs -/

section Runs

variable [DecidableEq ι] {s s' : Coros ι ε} {a b c : ι}

theorem emit_reshaped (s : Coros ι ε) (c : ι) (type : CancellationType) :
    Reshaped s (s.emit c type) := by
  have hmodify (s : Coros ι ε) (p : SourcePointer ι) (type : CancellationType) :
      Reshaped s (s.modifySource (CoroCancellationSource.emit · type) p) :=
    modifySource_reshaped (fun _ => by rfl) s p
  unfold emit
  split
  · exact .refl s
  · dsimp only
    split
    · exact hmodify ..
    · split
      · exact (hmodify ..).trans (hmodify ..)
      · exact hmodify ..

theorem emplaceCancelHandler_reshaped (s : Coros ι ε) (a b : ι) (src : CoroCancellationSource) :
    Reshaped s (s.emplaceCancelHandler a b src) := by
  unfold emplaceCancelHandler
  split
  · have hmodify := modifySource_reshaped (f := (CoroCancellationSource.setRelay · (some s.relays.length)))
      (fun _ => rfl) s (s.promise a).cancel
    exact hmodify.trans ⟨fun _ => rfl, fun _ => rfl, fun _ => rfl, fun _ src h => ⟨src, h, rfl⟩⟩
  · exact .refl s

theorem withSource_reshaped {f : CoroCancellationSource → CoroCancellationSource}
    (hf : ∀ src, (f src).resumption = src.resumption) (h : s.withSource c f = some s') :
    Reshaped s s' := by
  obtain ⟨src, -, rfl⟩ := Option.map_eq_some_iff.mp h
  exact modifySource_reshaped hf ..

theorem coroInitHandler_reshaped (h : s.coroInitHandler c = some s') : Reshaped s s' := by
  obtain ⟨src, -, rfl⟩ := Option.map_eq_some_iff.mp h
  split
  · exact .refl s
  · exact modifySource_reshaped (fun _ => by rfl) ..

/-- What the source has recorded is seen wherever a pointer designates it. -/
theorem sees_emit {r : ι} {src : CoroCancellationSource}
    (hcancel : (s.promise c).cancel = .cancelSource r src.resumption)
    (hsource : (s.promise r).cancelSource = some src) (type : CancellationType) :
    (s.emit r type).sees c = some (src.emit type) := by
  have hpromise : (s.emit r type).promise =
      (s.modifySource (CoroCancellationSource.emit · type)
        (.cancelSource r src.resumption)).promise := by
    simp only [emit, hsource]
    split
    · rfl
    · split <;> rfl
  rw [sees, (emit_reshaped s r type).cancel, hcancel]
  simp only [source, hpromise, modifySource, setPromise, Function.update_self, hsource,
    Option.map_some]
  exact if_pos (decide_eq_true rfl)

theorem Owned.seesSource {r : ι} (h : s.Owned c r) : s.SeesSource c r := by
  obtain ⟨src, hcancel, hsource⟩ := h
  refine ⟨src, hcancel, hsource, fun type impl himpl => ⟨_, sees_emit hcancel hsource type, ?_⟩⟩
  simp only [CoroCancellationSource.emit, CancellationState.emit, CancellationState.cancelled, himpl,
    Option.map_some]
  rfl

theorem Sane.right (h : s.Sane) : s.Right := by
  intro c hc
  obtain ⟨r, hstarted, howned⟩ := h.active c hc.1
  exact ⟨r, hstarted, Or.inl howned.seesSource⟩

variable [DecidableEq ε]

theorem Sane.coAwait (h : s.Sane) (ha : s.Running a) (hb : (s.promise b).awaitedFrom = .noop)
    (hcrosses : ¬s.Crosses (.coAwait a b)) (hstep : s.coAwait a b = some s') : s'.Sane := by
  obtain ⟨thrown, hthrows, hstep⟩ := Option.bind_eq_some_iff.mp hstep
  cases thrown with
  | true =>
    cases hstep
    exact h
  | false =>
    have hexecutor : (s.promise a).executor = (s.promise b).executor := by
      by_contra hne
      exact hcrosses ⟨hne, hthrows⟩
    rw [if_neg Bool.false_ne_true, if_pos hexecutor] at hstep
    cases hstep
    exact h.transfer ha hb

theorem Sane.step {action : CoroAction ι} (h : s.Sane) (hcrosses : ¬s.Crosses action)
    (hstep : s.step action = some s') : s'.Sane := by
  cases action with
  | asyncResume c isConnected =>
    obtain ⟨hc, hstep⟩ := Option.ite_none_right_eq_some.mp hstep
    cases hstep
    exact h.asyncResume hc isConnected
  | coAwait a b =>
    obtain ⟨⟨ha, hb, -⟩, hstep⟩ := Option.ite_none_right_eq_some.mp hstep
    exact h.coAwait ha hb hcrosses hstep
  | suspend c done =>
    obtain ⟨hc, hstep⟩ := Option.ite_none_right_eq_some.mp hstep
    cases hstep
    exact h.suspend hc done
  | resetCancellationState c inFilter outFilter =>
    obtain ⟨-, hstep⟩ := Option.ite_none_right_eq_some.mp hstep
    exact h.reshaped (withSource_reshaped (fun _ => by rfl) hstep)
  | throwIfCancelled c value =>
    obtain ⟨-, hstep⟩ := Option.ite_none_right_eq_some.mp hstep
    exact h.reshaped (withSource_reshaped (fun _ => by rfl) hstep)
  | coroInitHandler c =>
    obtain ⟨-, hstep⟩ := Option.ite_none_right_eq_some.mp hstep
    exact h.reshaped (coroInitHandler_reshaped hstep)
  | emit c type =>
    cases hstep
    exact h.reshaped (emit_reshaped s c type)

/-- A coroutine that runs on another executor sees what it saw before. -/
theorem Sane.not_right (h : s.Sane) (hcrosses : s.Crosses (.coAwait a b))
    (hstep : s.step (.coAwait a b) = some s') : ¬s'.Right := by
  obtain ⟨⟨ha, hb, -⟩, hstep⟩ := Option.ite_none_right_eq_some.mp hstep
  obtain ⟨hexecutor, hthrows⟩ := hcrosses
  obtain ⟨thrown, hthrown, hstep⟩ := Option.bind_eq_some_iff.mp hstep
  obtain rfl := Option.some.inj (hthrows.symm.trans hthrown)
  rw [if_neg Bool.false_ne_true, if_neg hexecutor] at hstep
  obtain ⟨src, -, rfl⟩ := Option.map_eq_some_iff.mp hstep
  obtain ⟨hawaiting, howner, hrelay⟩ := h.idle b hb
  have hreshaped := emplaceCancelHandler_reshaped s a b src
  have hawaited := awaitedFrom_transfer (s.emplaceCancelHandler a b src) a b (s.promise b).cancel b
  have hcancel := cancel_transfer (s.emplaceCancelHandler a b src) a b (s.promise b).cancel b
  rw [if_pos rfl] at hawaited hcancel
  intro hright
  have hrunning : ((s.emplaceCancelHandler a b src).transfer a b (s.promise b).cancel).Running b := by
    refine ⟨by simp [hawaited], ?_⟩
    rw [awaiting_transfer, if_neg, hreshaped.awaiting, hawaiting]
    rintro rfl
    exact ha.1 hb
  obtain ⟨r, hstarted, ⟨src', hpointer, -⟩ | ⟨n, relay, src', hpointer, -⟩⟩ := hright b hrunning
  · rw [hcancel] at hpointer
    have hroot := hstarted.root
    rw [howner r _ hpointer, hawaited] at hroot
    cases hroot
  · rw [hcancel] at hpointer
    exact hrelay n hpointer

section AllRight

variable {start : Coros ι ε} {as bs : List (CoroAction ι)} {action : CoroAction ι}

/-- The invariant holds up to the first step that crosses from one executor to another. -/
theorem sane_of_exec (h : start.Sane)
    (hnot : ∀ bs action s s', bs ++ [action] <+: as → exec step start (bs ++ [action]) = some s' →
      exec step start bs = some s → s.step action = some s' → s.Sane → ¬s.Crosses action)
    (hbs : bs <+: as) (hexec : exec step start bs = some s) : s.Sane := by
  induction bs using List.reverseRecOn generalizing s with
  | nil =>
    cases hexec
    exact h
  | append_singleton bs action ih =>
    have hexec' := hexec
    rw [exec_append] at hexec'
    obtain ⟨t, ht, hstep⟩ := Option.bind_eq_some_iff.mp hexec'
    obtain ⟨s', hstep, hs'⟩ := Option.bind_eq_some_iff.mp hstep
    cases hs'
    have hsane := ih ((List.prefix_append ..).trans hbs) ht
    exact hsane.step (hnot bs action t s hbs hexec ht hstep hsane) hstep

theorem Sane.not_crosses (h : s.Sane) (hstep : s.step action = some s') (hright : s'.Right) :
    ¬s.Crosses action := by
  intro hcrosses
  cases action with
  | coAwait a b => exact h.not_right hcrosses hstep hright
  | _ => exact hcrosses

end AllRight

/-- The property holds in all states of a run exactly if no coroutine in it awaits one with another
executor. -/
theorem allRight_iff (executor : ι → ε) (isNoexcept : ι → Bool) (as : List (CoroAction ι)) :
    AllRight (construct executor isNoexcept) as ↔
      NeverCrosses (construct executor isNoexcept) as := by
  have hstart : (construct executor isNoexcept).Sane := construct_sane executor isNoexcept
  constructor
  · intro hright bs action s hbs hexec hstep
    obtain ⟨s', hs'⟩ := Option.isSome_iff_exists.mp hstep
    have hexec' : exec step (construct executor isNoexcept) (bs ++ [action]) = some s' := by
      rw [exec_append, hexec, Option.bind_some, exec, hs', Option.bind_some, exec]
    have hsane : s.Sane := sane_of_exec hstart
      (fun _ _ _ _ hp he _ hs h => h.not_crosses hs (hright _ _ hp he))
      ((List.prefix_append ..).trans hbs) hexec
    exact hsane.not_crosses hs' (hright _ _ hbs hexec')
  · intro hnever bs s hbs hexec
    have hsane : s.Sane := sane_of_exec hstart
      (fun _ _ _ _ hp _ he hs _ => hnever _ _ _ hp he (Option.isSome_of_eq_some hs)) hbs hexec
    exact hsane.right

end Runs

/-- A coroutine awaits one on another executor, which starts an operation with the pointer that its
constructor has left indeterminate. -/
theorem not_allRight :
    ¬AllRight (construct (id : Nat → Nat) fun _ => false) [.asyncResume 0 true, .coAwait 0 1] ∧
      (exec step (construct (id : Nat → Nat) fun _ => false)
        [.asyncResume 0 true, .coAwait 0 1]).map (fun s => (s.promise 1).cancel) =
          some .indeterminate ∧
      exec step (construct (id : Nat → Nat) fun _ => false)
        [.asyncResume 0 true, .coAwait 0 1, .coroInitHandler 1] = none := by
  refine ⟨fun hright => ?_, rfl, rfl⟩
  have hsane := (construct_sane (id : Nat → Nat) fun _ => false).asyncResume rfl true (c := 0)
  have hcrosses : ((construct (id : Nat → Nat) fun _ => false).asyncResume 0 true).Crosses
      (.coAwait 0 1) := ⟨by decide, rfl⟩
  exact hsane.not_right hcrosses rfl (hright _ _ (List.prefix_refl _) rfl)

end Asio.Experimental.Coros
