import Asio.Detail.DeadlineTimerService

/-! The flag, the counts and the expiry of deadline timers over whole runs. -/

universe u v w

namespace Asio.Detail.DeadlineTimerService

open Asio.Lib Transition TimerMap

set_option linter.unusedSectionVars false

variable {σ : Type w} {T : Type u} {α : Type v}
variable [DecidableEq σ] [TimeTraits T] [DecidableEq α]

/-- Every queue represents its map; an active timer belongs to the service in whose map it is, its
flag is set and its expiry is the one in the map. -/
structure Follows (s : State σ T α) (maps : σ → TimerMap T α) : Prop where
  refines : ∀ i, ∃ l, TimerQueue.Refines (s.queues i) (maps i) l
  owner : ∀ i a e, maps i a = some e → ∃ impl, s.impls a = some impl ∧ impl.service = i ∧
    impl.mightHavePendingWaits = true ∧ impl.expiry = e.time
  short : ∀ i a, ((maps i).ops a).length ≤ maxIndex

/-- The first `max` operations of the timer are aborted and counted, the others stay. -/
structure Aborts (s s' : State σ T α) (r : Result) (a : α) (max : Nat) : Prop where
  posted : r.posted = ((pending s a).take max).map (.complete .operationAborted)
  count : r.count = r.posted.length
  rest : pending s' a = (pending s a).drop max
  others : ∀ b, b ≠ a → pending s' b = pending s b

section Maps

variable {m : TimerMap T α} {a b : α} {e : Entry T}

theorem setOps_eq_some {ops : List WaitOp} (h : m.setOps a ops b = some e) :
    ∃ e', m b = some e' ∧ e'.time = e.time := by
  by_cases hb : b = a
  · subst hb
    rw [setOps, set_self] at h
    split at h
    · cases h
    · obtain ⟨e', he', rfl⟩ := Option.map_eq_some_iff.mp h
      exact ⟨e', he', rfl⟩
  · rw [setOps_of_ne m ops hb] at h
    exact ⟨e, h, rfl⟩

theorem ops_setOps_length {ops : List WaitOp} (hops : ops.length ≤ (m.ops a).length) (b : α) :
    ((m.setOps a ops).ops b).length ≤ (m.ops b).length := by
  by_cases hb : b = a
  · subst hb
    rw [ops_setOps]
    · exact hops
    · intro ht
      rw [ops_of_time_none ht] at hops
      exact List.length_eq_zero_iff.mp (Nat.le_zero.mp hops)
  · rw [TimerMap.ops, setOps_of_ne m ops hb]
    exact Nat.le_refl _

theorem setOps_nil_self : m.setOps a [] a = none := by
  rw [setOps, set_self, if_pos rfl]

end Maps

namespace Follows

variable {s : State σ T α} {maps : σ → TimerMap T α} {a b : α} {i j : σ}
variable {impl : Implementation σ T}

theorem initial : Follows (initial : State σ T α) (fun _ _ => none) where
  refines _ := ⟨[], TimerQueue.initial_good.toRefines⟩
  owner _ _ _ h := by cases h
  short _ _ := Nat.zero_le _

theorem idle_of_none (h : Follows s maps) (hs : s.impls a = none) (i : σ) : maps i a = none := by
  cases he : maps i a with
  | none => rfl
  | some e =>
    obtain ⟨impl, himpl, _⟩ := h.owner i a e he
    rw [hs] at himpl
    cases himpl

theorem idle_of_flag (h : Follows s maps) (hs : s.impls a = some impl)
    (hflag : impl.mightHavePendingWaits = false) (i : σ) : maps i a = none := by
  cases he : maps i a with
  | none => rfl
  | some e =>
    obtain ⟨impl', himpl, _, hpending, _⟩ := h.owner i a e he
    rw [hs] at himpl
    cases himpl
    rw [hflag] at hpending
    cases hpending

theorem idle_elsewhere (h : Follows s maps) (hs : s.impls a = some impl) (hi : i ≠ impl.service) :
    maps i a = none := by
  cases he : maps i a with
  | none => rfl
  | some e =>
    obtain ⟨impl', himpl, hservice, _⟩ := h.owner i a e he
    rw [hs] at himpl
    cases himpl
    exact absurd hservice.symm hi

theorem time_none (hidle : maps i a = none) : (maps i).time a = none := by
  rw [TimerMap.time, hidle, Option.map_none]

theorem data_idle (h : Follows s maps) (hidle : maps i a = none) :
    (s.queues i).data a = .construct := by
  obtain ⟨l, hl⟩ := h.refines i
  exact hl.data_idle (time_none hidle)

theorem pending_eq (h : Follows s maps) (a : α) :
    pending s a = (s.impls a).elim [] fun impl => (maps impl.service).ops a := by
  rw [pending]
  cases s.impls a with
  | none => rfl
  | some impl =>
    obtain ⟨l, hl⟩ := h.refines impl.service
    exact hl.opQueue a

/-- One queue changes, and the implementations of the timers that are active then fit. -/
theorem of_queue (h : Follows s maps) {s' : State σ T α} {q : TimerQueue T α} {m : TimerMap T α}
    {l : List α} (hqueues : s'.queues = Function.update s.queues i q)
    (hr : TimerQueue.Refines q m l)
    (howner : ∀ j a e, Function.update maps i m j a = some e → ∃ impl, s'.impls a = some impl ∧
      impl.service = j ∧ impl.mightHavePendingWaits = true ∧ impl.expiry = e.time)
    (hshort : ∀ a, (m.ops a).length ≤ maxIndex) : Follows s' (Function.update maps i m) := by
  refine ⟨?_, howner, ?_⟩
  · intro j
    rw [hqueues, Function.update_apply, Function.update_apply]
    split
    · exact ⟨l, hr⟩
    · exact h.refines j
  · intro j a
    rw [Function.update_apply]
    split
    · exact hshort a
    · exact h.short j a

theorem setQueue (h : Follows s maps) {q : TimerQueue T α} {m : TimerMap T α} {l : List α}
    (hr : TimerQueue.Refines q m l)
    (howner : ∀ a e, m a = some e → ∃ impl, s.impls a = some impl ∧ impl.service = i ∧
      impl.mightHavePendingWaits = true ∧ impl.expiry = e.time)
    (hshort : ∀ a, (m.ops a).length ≤ maxIndex) :
    Follows (setQueue s i q) (Function.update maps i m) := by
  refine h.of_queue rfl hr ?_ hshort
  intro j a e he
  rw [Function.update_apply] at he
  split at he
  · rename_i hj
    rw [hj]
    exact howner a e he
  · exact h.owner j a e he

/-- The implementation of a timer that is not active changes. -/
theorem setImpl (h : Follows s maps) (hidle : ∀ i, maps i a = none)
    (impl : Option (Implementation σ T)) : Follows (setImpl s a impl) maps where
  refines := h.refines
  owner i b e he := by
    have hb : b ≠ a := by
      rintro rfl
      rw [hidle] at he
      cases he
    rw [setImpl_impls, if_neg hb]
    exact h.owner i b e he
  short := h.short

theorem setFlag (h : Follows s maps) (hs : s.impls a = some impl) :
    Follows (DeadlineTimerService.setImpl s a
      (some { impl with mightHavePendingWaits := true })) maps where
  refines := h.refines
  owner i b e he := by
    obtain ⟨impl', himpl, hservice, hflag, hexpiry⟩ := h.owner i b e he
    by_cases hb : b = a
    · subst hb
      rw [hs] at himpl
      cases himpl
      exact ⟨{ impl with mightHavePendingWaits := true }, by rw [setImpl_impls, if_pos rfl],
        hservice, rfl, hexpiry⟩
    · refine ⟨impl', ?_, hservice, hflag, hexpiry⟩
      rw [setImpl_impls, if_neg hb]
      exact himpl
  short := h.short

theorem cancelTimer (h : Follows s maps) (i : σ) (a : α) (max : Nat) :
    Follows (cancelTimer s i a max).1
        (Function.update maps i ((maps i).next (.cancelTimer a max))) ∧
      (cancelTimer s i a max).2.posted
        = (((maps i).ops a).take max).map (.complete .operationAborted) ∧
      (cancelTimer s i a max).2.count = min max ((maps i).ops a).length := by
  obtain ⟨l, hl⟩ := h.refines i
  obtain ⟨q', r, hq', hanswer, l', hl'⟩ := hl.cancelTimer a max
  cases hq'
  refine ⟨h.setQueue hl' ?_ ?_, hanswer.1, hanswer.2⟩
  · intro b e he
    obtain ⟨e', he', htime⟩ := setOps_eq_some he
    rw [← htime]
    exact h.owner i b e' he'
  · intro b
    refine Nat.le_trans (ops_setOps_length ?_ b) (h.short i b)
    rw [List.length_drop]
    exact Nat.sub_le _ _

theorem cancelTimer_aborts (h : Follows s maps) (hs : s.impls a = some impl) (max : Nat)
    {s' : State σ T α} (h' : Follows s' (Function.update maps impl.service
      ((maps impl.service).next (.cancelTimer a max))))
    (hservice : ∀ b, (s'.impls b).map Implementation.service
      = (s.impls b).map Implementation.service) :
    Aborts s s' (DeadlineTimerService.cancelTimer s impl.service a max).2 a max := by
  obtain ⟨_, hposted, hcount⟩ := h.cancelTimer impl.service a max
  have hpending : pending s a = (maps impl.service).ops a := by
    rw [h.pending_eq, hs]
    rfl
  have hpending' (b : α) : pending s' b = ((s.impls b).map Implementation.service).elim []
      fun i => (Function.update maps impl.service
        ((maps impl.service).next (.cancelTimer a max)) i).ops b := by
    rw [h'.pending_eq, ← hservice]
    cases s'.impls b <;> rfl
  refine ⟨?_, ?_, ?_, ?_⟩
  · rw [hposted, hpending]
  · rw [hcount, hposted, List.length_map, List.length_take]
  · rw [hpending', hs, hpending]
    simp only [Option.map_some, Option.elim_some, Function.update_self, next]
    rw [ops_setOps]
    intro ht
    rw [ops_of_time_none ht, List.drop_nil]
  · intro b hb
    rw [hpending', h.pending_eq]
    cases s.impls b with
    | none => rfl
    | some other =>
      simp only [Option.map_some, Option.elim_some, Function.update_apply]
      split
      · rename_i hi
        rw [hi, next, TimerMap.ops, setOps_of_ne _ _ hb]
        rfl
      · rfl

/-- Nothing waits for a timer whose flag is not set. -/
theorem nothing_aborts (h : Follows s maps) (hs : s.impls a = some impl)
    (hflag : impl.mightHavePendingWaits = false) (max : Nat) : Aborts s s nothing a max := by
  have hpending : pending s a = [] := by
    rw [h.pending_eq, hs]
    exact ops_of_time_none (time_none (h.idle_of_flag hs hflag _))
  refine ⟨?_, rfl, ?_, fun _ _ => rfl⟩
  · rw [hpending, List.take_nil]
    rfl
  · rw [hpending, List.drop_nil]

theorem cancelAll_idle (h : Follows s maps) (hs : s.impls a = some impl) (j : σ) :
    Function.update maps impl.service
      ((maps impl.service).next (.cancelTimer a maxIndex)) j a = none := by
  rw [Function.update_apply]
  split
  · rw [next, List.drop_eq_nil_of_le (h.short impl.service a)]
    exact setOps_nil_self
  · rename_i hj
    exact h.idle_elsewhere hs hj

/-- Everything that waits for the timer is aborted; what is at the other timers is as before. -/
theorem cancel (h : Follows s maps) (hs : s.impls a = some impl) :
    (∃ maps', Follows (cancel s a impl).1 maps' ∧ ∀ i, maps' i a = none) ∧
      Aborts s (cancel s a impl).1 (cancel s a impl).2 a maxIndex ∧
      ∃ impl', (cancel s a impl).1.impls a = some impl' ∧ impl'.service = impl.service := by
  rw [DeadlineTimerService.cancel]
  split
  · have hc := (h.cancelTimer impl.service a maxIndex).1
    have hidle := h.cancelAll_idle hs
    have hset := hc.setImpl hidle (some { impl with mightHavePendingWaits := false })
    refine ⟨⟨_, hset, hidle⟩, h.cancelTimer_aborts hs maxIndex hset ?_,
      { impl with mightHavePendingWaits := false }, by rw [setImpl_impls, if_pos rfl], rfl⟩
    intro b
    rw [setImpl_impls]
    split
    · rename_i hb
      rw [hb, hs]
      rfl
    · rfl
  · rename_i hflag
    have hflag := Bool.eq_false_iff.mpr hflag
    exact ⟨⟨maps, h, h.idle_of_flag hs hflag⟩, h.nothing_aborts hs hflag _, impl, hs, rfl⟩

theorem cancelOne (h : Follows s maps) (hs : s.impls a = some impl) :
    (∃ maps', Follows (cancelOne s a impl).1 maps') ∧
      Aborts s (cancelOne s a impl).1 (cancelOne s a impl).2 a 1 := by
  rw [DeadlineTimerService.cancelOne]
  split
  · obtain ⟨hc, _, hcount⟩ := h.cancelTimer impl.service a 1
    simp only
    split
    · rename_i hzero
      have hops : (maps impl.service).ops a = [] := by
        rw [hcount] at hzero
        exact List.length_eq_zero_iff.mp (by omega)
      have hidle (j : σ) : Function.update maps impl.service
          ((maps impl.service).next (.cancelTimer a 1)) j a = none := by
        rw [Function.update_apply]
        split
        · rw [next, hops]
          exact setOps_nil_self
        · rename_i hj
          exact h.idle_elsewhere hs hj
      have hset := hc.setImpl hidle (some { impl with mightHavePendingWaits := false })
      refine ⟨⟨_, hset⟩, h.cancelTimer_aborts hs 1 hset ?_⟩
      intro b
      rw [setImpl_impls]
      split
      · rename_i hb
        rw [hb, hs]
        rfl
      · rfl
    · exact ⟨⟨_, hc⟩, h.cancelTimer_aborts hs 1 hc fun _ => rfl⟩
  · rename_i hflag
    exact ⟨⟨maps, h⟩, h.nothing_aborts hs (Bool.eq_false_iff.mpr hflag) _⟩

/-- The expiry is set when nothing waits any more. -/
theorem expiresAt (h : Follows s maps) (hs : s.impls a = some impl) (t : T) :
    (∃ maps', Follows (expiresAt s a impl t).1 maps') ∧
      Aborts s (expiresAt s a impl t).1 (expiresAt s a impl t).2 a maxIndex := by
  obtain ⟨⟨maps', h', hidle⟩, haborts, impl', hs', _⟩ := h.cancel hs
  have hset := h'.setImpl hidle (some { impl' with expiry := t })
  have heq : setExpiry (DeadlineTimerService.cancel s a impl).1 a t
      = DeadlineTimerService.setImpl (DeadlineTimerService.cancel s a impl).1 a
        (some { impl' with expiry := t }) := by
    rw [setExpiry, hs', Option.map_some]
  have hpending (b : α) : pending (setExpiry (DeadlineTimerService.cancel s a impl).1 a t) b
      = pending (DeadlineTimerService.cancel s a impl).1 b := by
    rw [heq, pending, pending, setImpl_impls, setImpl_queues]
    split
    · rename_i hb
      rw [hb, hs']
      rfl
    · rfl
  refine ⟨⟨maps', ?_⟩, haborts.posted, haborts.count, ?_, ?_⟩
  · rw [DeadlineTimerService.expiresAt, heq]
    exact hset
  · exact (hpending a).trans haborts.rest
  · exact fun b hb => (hpending b).trans (haborts.others b hb)

theorem destroy (h : Follows s maps) (hs : s.impls a = some impl) :
    ∃ maps', Follows (destroy s a impl).1 maps' := by
  obtain ⟨⟨maps', h', hidle⟩, _⟩ := h.cancel hs
  exact ⟨maps', h'.setImpl hidle none⟩

/-- The data of a timer that is not active are as new already. -/
theorem setData_idle (h : Follows s maps) (hidle : maps i a = none) :
    DeadlineTimerService.setQueue s i (setData (s.queues i) a .construct) = s := by
  have hq : setData (s.queues i) a .construct = s.queues i := by
    rw [setData, TimerQueue.modify, ← h.data_idle hidle, Function.update_eq_self]
  rw [hq, DeadlineTimerService.setQueue, Function.update_eq_self]

theorem construct [Inhabited T] (h : Follows s maps) (hs : s.impls a = none) (i : σ) :
    Follows (construct s a i) maps := by
  rw [DeadlineTimerService.construct, h.setData_idle (h.idle_of_none hs i)]
  exact h.setImpl (h.idle_of_none hs) _

theorem asyncWait (h : Follows s maps) (hs : s.impls a = some impl) {op : WaitOp}
    (hshort : (pending s a).length < maxIndex) {s' : State σ T α} {r : Result}
    (hr : asyncWait s a impl op = some (s', r)) : ∃ maps', Follows s' maps' := by
  obtain ⟨⟨q', first⟩, hq', heq⟩ := Option.map_eq_some_iff.mp hr
  cases heq
  have hq' : (s.queues impl.service).enqueueTimer impl.expiry a op = some (q', first) := hq'
  obtain ⟨l, hl⟩ := h.refines impl.service
  have hset := h.setFlag hs
  obtain ⟨q, r, hq, _, l', hl'⟩ :=
    @TimerQueue.Refines.perform _ _ _ _ _ _ _ hl (.enqueueTimer impl.expiry a op)
    (fun _ _ _ heq => by cases heq; rw [hq']; rfl) (fun _ _ heq => by cases heq)
  rw [TimerQueue.perform, hq', Option.map_some] at hq
  cases hq
  refine ⟨_, hset.setQueue hl' ?_ ?_⟩
  · intro b e he
    rw [next] at he
    by_cases hb : b = a
    · subst hb
      rw [set_self] at he
      cases he
      refine ⟨{ impl with mightHavePendingWaits := true }, by rw [setImpl_impls, if_pos rfl], rfl,
        rfl, ?_⟩
      cases hm : maps impl.service b with
      | none => simp [TimerMap.time, hm]
      | some e =>
        obtain ⟨impl', himpl, _, _, hexpiry⟩ := h.owner impl.service b e hm
        rw [hs] at himpl
        cases himpl
        simpa [TimerMap.time, hm] using hexpiry
    · rw [set_of_ne _ _ hb] at he
      exact hset.owner impl.service b e he
  · intro b
    rw [next, ops_set]
    split
    · have hpending : pending s a = (maps impl.service).ops a := by
        rw [h.pending_eq, hs]
        rfl
      rw [hpending] at hshort
      rw [Option.elim_some, List.length_append]
      exact hshort
    · exact h.short impl.service b

theorem cancelByKey (h : Follows s maps) (i : σ) (a : α) (key : Nat) :
    ∃ maps', Follows (DeadlineTimerService.setQueue s i
      ((s.queues i).cancelTimerByKey a key).1) maps' := by
  obtain ⟨l, hl⟩ := h.refines i
  obtain ⟨q', r, hq', _, l', hl'⟩ := hl.cancelTimerByKey a key
  cases hq'
  refine ⟨_, h.setQueue hl' ?_ ?_⟩
  · intro b e he
    obtain ⟨e', he', htime⟩ := setOps_eq_some he
    rw [← htime]
    exact h.owner i b e' he'
  · intro b
    exact Nat.le_trans (ops_setOps_length (List.length_filter_le _ _) b) (h.short i b)

theorem expire (h : Follows s maps) {now : T} {r : TimerQueue T α × List WaitOp}
    (hr : (s.queues i).getReadyTimers now = some r) :
    ∃ maps', Follows (DeadlineTimerService.setQueue s i r.1) maps' := by
  obtain ⟨l, hl⟩ := h.refines i
  obtain ⟨q', r', hq', _, l', hl'⟩ := hl.getReadyTimers now
  rw [TimerQueue.perform, hr, Option.map_some] at hq'
  cases hq'
  refine ⟨_, h.setQueue hl' ?_ ?_⟩
  · intro b e he
    simp only [next] at he
    split at he
    · cases he
    · exact h.owner i b e he
  · intro b
    simp only [TimerMap.ops, next]
    split
    · exact Nat.zero_le _
    · exact h.short i b

/-- What waits for the target is aborted, and what waits for the source goes to it with the
expiry and the flag. -/
theorem moveTimer (h : Follows s maps) {target source : α} {other : Implementation σ T}
    [Inhabited T] (hs : s.impls source = some other)
    (hidle : ∀ j, j ≠ other.service → maps j target = none) :
    ∃ maps', Follows (takeOver (moveTimer s other.service target source).1 target source other)
      maps' := by
  obtain ⟨l, hl⟩ := h.refines other.service
  obtain ⟨q₁, r₁, hq₁, _, l₁, hl₁⟩ := hl.cancelTimer target maxIndex
  cases hq₁
  rw [next, List.drop_eq_nil_of_le (h.short other.service target)] at hl₁
  obtain ⟨q₂, r₂, hq₂, _, l₂, hl₂⟩ := hl₁.moveTimer source (by
    rw [TimerMap.time, setOps_nil_self]
    rfl)
  cases hq₂
  have hmap (b : α) : ((maps other.service).setOps target []).next (.moveTimer target source) b
      = if b = source then none else if b = target then
          (maps other.service).setOps target [] source else maps other.service b := by
    simp only [next, TimerMap.set]
    split
    · rfl
    · split
      · rfl
      · rename_i hb
        exact setOps_of_ne _ _ hb
  have himpls (b : α) : (takeOver (DeadlineTimerService.moveTimer s other.service target source).1
      target source other).impls b = if b = source then some ⟨default, false, other.service⟩
        else if b = target then some other else s.impls b := by
    rw [takeOver, setImpl_impls, setImpl_impls]
    rfl
  refine ⟨_, h.of_queue rfl hl₂ ?_ ?_⟩
  · intro j b e he
    rw [himpls]
    rw [Function.update_apply] at he
    split at he
    · rename_i hj
      rw [hmap] at he
      split_ifs at he with hbs hbt
      · rw [if_neg hbs, if_pos hbt]
        obtain ⟨e', he', htime⟩ := setOps_eq_some he
        obtain ⟨impl, himpl, hservice, hflag, hexpiry⟩ := h.owner _ _ _ he'
        rw [hs] at himpl
        cases himpl
        exact ⟨other, rfl, hj.symm, hflag, hexpiry.trans htime⟩
      · rw [if_neg hbs, if_neg hbt, hj]
        exact h.owner _ _ _ he
    · rename_i hj
      have hbs : b ≠ source := by
        rintro rfl
        rw [h.idle_elsewhere hs hj] at he
        cases he
      have hbt : b ≠ target := by
        rintro rfl
        rw [hidle j hj] at he
        cases he
      rw [if_neg hbs, if_neg hbt]
      exact h.owner _ _ _ he
  · intro b
    have hops : (((maps other.service).setOps target []).next (.moveTimer target source)).ops b
        = if b = source then [] else if b = target then
          ((maps other.service).setOps target []).ops source else (maps other.service).ops b := by
      rw [TimerMap.ops, hmap]
      split_ifs <;> rfl
    rw [hops]
    split_ifs
    · exact Nat.zero_le _
    · exact Nat.le_trans (ops_setOps_length (Nat.zero_le _) source) (h.short _ _)
    · exact h.short _ _

theorem moveConstruct [Inhabited T] (h : Follows s maps) {target source : α}
    {other : Implementation σ T} (ht : s.impls target = none) (hs : s.impls source = some other) :
    ∃ maps', Follows (moveConstruct s target source other).1 maps' := by
  rw [DeadlineTimerService.moveConstruct, h.setData_idle (h.idle_of_none ht other.service)]
  exact h.moveTimer hs fun j _ => h.idle_of_none ht j

/-- The data of a timer that is active in neither queue are the same in both. -/
theorem carry_eq (h : Follows s maps) (hij : i ≠ j → maps i a = none ∧ maps j a = none) :
    carry s a i j = s := by
  by_cases h' : i = j
  · subst h'
    have hq : setData (s.queues i) a ((s.queues i).data a) = s.queues i := by
      rw [setData, TimerQueue.modify, Function.update_eq_self]
    rw [carry, hq, DeadlineTimerService.setQueue, Function.update_eq_self]
  · obtain ⟨hi, hj⟩ := hij h'
    rw [carry, h.data_idle hi]
    exact h.setData_idle hj

theorem moveAssign [Inhabited T] (h : Follows s maps) {target source : α}
    {other : Implementation σ T} (ht : s.impls target = some impl)
    (hs : s.impls source = some other) :
    ∃ maps', Follows (moveAssign s target source impl other).1 maps' := by
  rw [DeadlineTimerService.moveAssign]
  split
  · have hc := (h.cancelTimer impl.service target maxIndex).1
    have hidle := h.cancelAll_idle ht
    simp only
    rw [hc.carry_eq fun _ => ⟨hidle _, hidle _⟩]
    exact hc.moveTimer hs fun j _ => hidle j
  · rename_i hsame
    have hidle (hne : impl.service ≠ other.service) (j : σ) : maps j target = none := by
      apply h.idle_of_flag ht
      exact Bool.eq_false_iff.mpr fun hflag => hsame ⟨hne, hflag⟩
    simp only
    rw [h.carry_eq fun hne => ⟨hidle hne _, hidle hne _⟩]
    refine h.moveTimer hs fun j hj => ?_
    by_cases hne : impl.service = other.service
    · exact h.idle_elsewhere ht (hne ▸ hj)
    · exact hidle hne j

theorem perform [Inhabited T] (h : Follows s maps) {action : Action σ T α}
    (ha : Legal s action) (hallocates : Allocates action) {s' : State σ T α} {r : Result}
    (hs : perform s action = some (s', r)) : ∃ maps', Follows s' maps' := by
  cases action with
  | construct timer service =>
    cases hs
    exact ⟨maps, h.construct (Option.isNone_iff_eq_none.mp ha) service⟩
  | destroy timer =>
    obtain ⟨impl, himpl, heq⟩ := Option.map_eq_some_iff.mp hs
    obtain rfl := congrArg Prod.fst heq
    exact h.destroy himpl
  | moveConstruct target source =>
    obtain ⟨other, hother, heq⟩ := Option.map_eq_some_iff.mp hs
    obtain rfl := congrArg Prod.fst heq
    exact h.moveConstruct (Option.isNone_iff_eq_none.mp ha) hother
  | moveAssign target source =>
    obtain ⟨impl, himpl, hrest⟩ := Option.bind_eq_some_iff.mp hs
    obtain ⟨other, hother, heq⟩ := Option.map_eq_some_iff.mp hrest
    obtain rfl := congrArg Prod.fst heq
    exact h.moveAssign himpl hother
  | asyncWait timer op =>
    obtain ⟨impl, himpl, hr⟩ := Option.bind_eq_some_iff.mp hs
    exact h.asyncWait himpl ha hr
  | asyncWaitThrows timer => exact hallocates.elim
  | cancel timer =>
    obtain ⟨impl, himpl, heq⟩ := Option.map_eq_some_iff.mp hs
    obtain rfl := congrArg Prod.fst heq
    obtain ⟨⟨maps', h', _⟩, _⟩ := h.cancel himpl
    exact ⟨maps', h'⟩
  | cancelOne timer =>
    obtain ⟨impl, himpl, heq⟩ := Option.map_eq_some_iff.mp hs
    obtain rfl := congrArg Prod.fst heq
    exact (h.cancelOne himpl).1
  | cancelByKey timer key =>
    obtain ⟨impl, _, heq⟩ := Option.map_eq_some_iff.mp hs
    obtain rfl := congrArg Prod.fst heq
    exact h.cancelByKey impl.service timer key
  | expiresAt timer time =>
    obtain ⟨impl, himpl, heq⟩ := Option.map_eq_some_iff.mp hs
    obtain rfl := congrArg Prod.fst heq
    exact (h.expiresAt himpl time).1
  | expiresAfter timer now add =>
    obtain ⟨impl, himpl, heq⟩ := Option.map_eq_some_iff.mp hs
    obtain rfl := congrArg Prod.fst heq
    exact (h.expiresAt himpl (add now)).1
  | expire service now =>
    obtain ⟨q, hq, heq⟩ := Option.map_eq_some_iff.mp hs
    obtain rfl := congrArg Prod.fst heq
    exact h.expire hq

theorem aborts [Inhabited T] (h : Follows s maps) {action : Action σ T α} {max : Nat}
    (haborts : action.aborts = some (a, max)) {s' : State σ T α} {r : Result}
    (hs : DeadlineTimerService.perform s action = some (s', r)) : Aborts s s' r a max := by
  cases action with
  | cancel timer =>
    cases haborts
    obtain ⟨impl, himpl, heq⟩ := Option.map_eq_some_iff.mp hs
    have haborts := (h.cancel himpl).2.1
    rwa [heq] at haborts
  | cancelOne timer =>
    cases haborts
    obtain ⟨impl, himpl, heq⟩ := Option.map_eq_some_iff.mp hs
    have haborts := (h.cancelOne himpl).2
    rwa [heq] at haborts
  | expiresAt timer time =>
    cases haborts
    obtain ⟨impl, himpl, heq⟩ := Option.map_eq_some_iff.mp hs
    have haborts := (h.expiresAt himpl time).2
    rwa [heq] at haborts
  | expiresAfter timer now add =>
    cases haborts
    obtain ⟨impl, himpl, heq⟩ := Option.map_eq_some_iff.mp hs
    have haborts := (h.expiresAt himpl (add now)).2
    rwa [← expiresAfter, heq] at haborts
  | _ => cases haborts

theorem pending_length (h : Follows s maps) (a : α) : (pending s a).length ≤ maxIndex := by
  rw [h.pending_eq]
  cases s.impls a with
  | none => exact Nat.zero_le _
  | some impl => exact h.short impl.service a

/-- There is nothing to cancel for a timer that is not active. -/
theorem cancelTimer_idle (h : Follows s maps) (hidle : maps i a = none) (max : Nat) :
    DeadlineTimerService.cancelTimer s i a max = (s, nothing) := by
  obtain ⟨l, hl⟩ := h.refines i
  have hlisted := hl.not_isListed (time_none hidle)
  rw [DeadlineTimerService.cancelTimer, TimerQueue.cancelTimer, hlisted]
  simp only [Bool.false_eq_true, if_false, DeadlineTimerService.setQueue, Function.update_eq_self]
  rfl

theorem expiry (h : Follows s maps) (hs : s.impls a = some impl) (hpending : pending s a ≠ []) :
    ∃ e, maps impl.service a = some e ∧ e.time = impl.expiry := by
  rw [h.pending_eq, hs] at hpending
  cases he : maps impl.service a with
  | none => exact absurd (ops_of_time_none (time_none he)) hpending
  | some e =>
    obtain ⟨impl', himpl, _, _, hexpiry⟩ := h.owner impl.service a e he
    rw [hs] at himpl
    cases himpl
    exact ⟨e, rfl, hexpiry.symm⟩

end Follows

/-- The flag is not set only where nothing waits and there is nothing to cancel; what the
operations count is what they abort; the heap has the expiry of every timer with operations. -/
structure Consistent [Inhabited T] (s : State σ T α) : Prop where
  flag : ∀ a impl, s.impls a = some impl → impl.mightHavePendingWaits = false →
    pending s a = [] ∧ ∀ max, cancelTimer s impl.service a max = (s, nothing)
  counts : ∀ (action : Action σ T α) a max s' r, action.aborts = some (a, max) →
    perform s action = some (s', r) → Aborts s s' r a max ∧ (max = maxIndex → pending s' a = [])
  expiry : ∀ a impl, s.impls a = some impl → pending s a ≠ [] →
    (∀ e ∈ (s.queues impl.service).heap, e.timer = a → e.time = impl.expiry) ∧
    (TimeTraits.isPositiveInfinity impl.expiry = false →
      ⟨impl.expiry, a⟩ ∈ (s.queues impl.service).heap)

section Runs

variable [Inhabited T] {s : State σ T α} {maps : σ → TimerMap T α}

theorem Follows.consistent (h : Follows s maps) : Consistent s where
  flag a impl hs hflag := by
    have hidle := h.idle_of_flag hs hflag impl.service
    refine ⟨?_, h.cancelTimer_idle hidle⟩
    rw [h.pending_eq, hs]
    exact ops_of_time_none (time_none hidle)
  counts action a max s' r haborts hs := by
    have hab := h.aborts haborts hs
    refine ⟨hab, ?_⟩
    rintro rfl
    rw [hab.rest]
    exact List.drop_eq_nil_of_le (h.pending_length a)
  expiry a impl hs hpending := by
    obtain ⟨l, hl⟩ := h.refines impl.service
    obtain ⟨e, he, htime⟩ := h.expiry hs hpending
    have htime' : (maps impl.service).time a = some impl.expiry := by
      rw [TimerMap.time, he, Option.map_some, htime]
    constructor
    · rintro x hx rfl
      have hx := ((hl.heap x).mp hx).1
      rw [htime'] at hx
      exact (Option.some.inj hx).symm
    · exact fun hfinite => (hl.heap ⟨impl.expiry, a⟩).mpr ⟨htime', hfinite⟩

/-- As long as no allocation of the heap fails. -/
theorem consistent_of_reachable
    (h : Reachable step (fun s action => Legal s action ∧ Allocates action)
      (initial : State σ T α) s) : Consistent s := by
  obtain ⟨maps, hmaps⟩ : ∃ maps, Follows s maps := by
    apply h.invariant ⟨_, Follows.initial⟩
    rintro s action s' ⟨maps, hmaps⟩ ⟨ha, hallocates⟩ hs
    obtain ⟨⟨t, r⟩, ht, heq⟩ := Option.map_eq_some_iff.mp hs
    cases heq
    exact hmaps.perform ha hallocates ht
  exact hmaps.consistent

/-- Timer 1 is moved to another service with one of its two waits left. -/
theorem consistent_moved : ∃ s : State Nat (WithTop Nat) Nat,
    (pending s 2).map WaitOp.id = [2] ∧ Consistent s := by
  obtain ⟨s, hs, hpending⟩ := Option.map_eq_some_iff.mp (show
    (exec (guarded step fun s action => Legal s action ∧ Allocates action)
      (initial : State Nat (WithTop Nat) Nat)
      [.construct 1 0, .expiresAt 1 (WithTop.some 5), .asyncWait 1 ⟨1, 0, .success⟩,
        .asyncWait 1 ⟨2, 0, .success⟩, .cancelOne 1, .construct 2 1, .asyncWait 2 ⟨3, 0, .success⟩,
        .moveAssign 2 1]).map (fun s => (pending s 2).map WaitOp.id) = some [2] by decide +kernel)
  exact ⟨s, hpending, consistent_of_reachable (exec_guarded_reachable hs)⟩

/-- A wait on timer 0 throws; timer 1 then waits at the position that timer 0 still points to, and
loses it when timer 0 is moved. -/
theorem not_consistent_after_throw : ¬∀ s : State Nat (WithTop Nat) Nat,
    Reachable step Legal initial s → Consistent s := by
  intro h
  obtain ⟨s, hs, hproj⟩ := Option.map_eq_some_iff.mp (show
    (exec (guarded step Legal) (initial : State Nat (WithTop Nat) Nat)
      [.construct 0 0, .construct 1 0, .expiresAt 0 (WithTop.some 5), .asyncWaitThrows 0,
        .expiresAt 1 (WithTop.some 10), .asyncWait 1 ⟨1, 0, .success⟩, .moveConstruct 2 0]).map
      (fun s => (s.impls 1, (pending s 1).length, (s.queues 0).heap.map HeapEntry.timer))
      = some (some ⟨WithTop.some 10, true, 0⟩, 1, [2]) by decide +kernel)
  simp only [Prod.mk.injEq] at hproj
  obtain ⟨himpl, hlength, hheap⟩ := hproj
  have hpending : pending s 1 ≠ [] := by
    intro hn
    rw [hn] at hlength
    cases hlength
  have hentry := ((h s (exec_guarded_reachable hs)).expiry 1 _ himpl hpending).2 rfl
  have htimer := List.mem_map_of_mem (f := HeapEntry.timer) hentry
  rw [hheap] at htimer
  exact absurd htimer (by decide)

end Runs

end Asio.Detail.DeadlineTimerService
