import Asio.Lib.Transition
import Asio.Detail.TimerMap
import Asio.Detail.TimerQueueShape

/-! Runs of a timer queue follow the map from active timers to expiry and operations. -/

universe u v

namespace Asio.Detail.TimerQueue

open Asio.Lib BinaryHeap LinkedList Transition TimerMap

set_option linter.unusedSectionVars false

variable {T : Type u} {α : Type v} [TimeTraits T] [DecidableEq α]

/-- `q` represents the map `m`, whose active timers `l` lists. -/
structure Refines (q : TimerQueue T α) (m : TimerMap T α) (l : List α) : Prop
    extends Shape q m.time l where
  opQueue : ∀ a, (q.data a).opQueue = m.ops a
  nonempty : ∀ a, m.time a ≠ none → m.ops a ≠ []

def perform (q : TimerQueue T α) : Action T α → Option (TimerQueue T α × Result)
  | .enqueueTimer time timer op =>
    (enqueueTimer q time timer op).map fun r => (r.1, ⟨[], r.2, 0⟩)
  | .getReadyTimers now => (getReadyTimers q now).map fun r => (r.1, ⟨r.2, false, 0⟩)
  | .cancelTimer timer max =>
    some ((cancelTimer q timer max).1, ⟨(cancelTimer q timer max).2.1, false,
      (cancelTimer q timer max).2.2⟩)
  | .cancelTimerByKey timer key =>
    some ((cancelTimerByKey q timer key).1, ⟨(cancelTimerByKey q timer key).2, false, 0⟩)
  | .moveTimer target source => some (moveTimer q target source, ⟨[], false, 0⟩)

section Loops

theorem cancelLoop_eq (max : Nat) (n : Nat) (ops : List WaitOp) (h : n ≤ max) :
    cancelLoop max n ops = ((ops.take (max - n)).map (.complete .operationAborted),
      ops.drop (max - n), n + min (max - n) ops.length) := by
  induction ops generalizing n with
  | nil => simp [cancelLoop]
  | cons op ops ih =>
    rw [cancelLoop]
    split
    · rename_i hn
      subst hn
      simp
    · rename_i hn
      have hsucc : max - n = (max - (n + 1)) + 1 := by omega
      rw [ih (n + 1) (by omega), hsucc, List.take_succ_cons, List.drop_succ_cons, List.map_cons,
        List.length_cons]
      simp only [Prod.mk.injEq, true_and]
      omega

theorem cancelByKeyLoop_eq (key : Nat) (ops : List WaitOp) :
    cancelByKeyLoop key ops
      = ((ops.filter (·.cancellationKey = key)).map (.complete .operationAborted),
        ops.filter (·.cancellationKey ≠ key)) := by
  induction ops with
  | nil => rfl
  | cons op ops ih =>
    simp only [cancelByKeyLoop, ih]
    split
    · rename_i hk
      simp [hk]
    · rename_i hk
      simp [hk]

end Loops

namespace Refines

variable {q : TimerQueue T α} {m : TimerMap T α} {l : List α} {a b : α}

theorem setOpQueue_opQueue (q : TimerQueue T α) (a : α) (ops : List WaitOp) (b : α) :
    ((setOpQueue q a ops).data b).opQueue = if b = a then ops else (q.data b).opQueue := by
  simp only [setOpQueue, modify, Function.update_apply]
  split <;> rfl

theorem enumerates (h : Refines q m l) : m.Enumerates l where
  nodup := h.list.nodup
  mem := h.mem

theorem mem_heap (h : Refines q m l) {t : T} : ⟨t, a⟩ ∈ q.heap ↔ m.Expires a t :=
  h.heap ⟨t, a⟩

/-- A timer that is not active is as new. -/
theorem data_idle (h : Refines q m l) (ha : m.time a = none) : q.data a = .construct := by
  have hal : a ∉ l := by rw [h.mem, ha]; simp
  have hops : (q.data a).opQueue = [] := by rw [h.opQueue, ops_of_time_none ha]
  have hindex : (q.data a).heapIndex = maxIndex := h.index a (h.out_of_heap ha)
  have hnext : (q.data a).next = none := (h.list.outside a hal).1
  have hprev : (q.data a).prev = none := (h.list.outside a hal).2
  cases hd : q.data a
  simp_all [PerTimerData.construct]

/-- The operations of an active timer are replaced, and the timer removed when none is left. -/
theorem setOps (h : Refines q m l) (ha : m.time a ≠ none) (ops : List WaitOp) :
    ∃ l', Refines (removeIfEmpty (setOpQueue q a ops) a) (m.setOps a ops) l' := by
  have hs := h.toShape.setOpQueue a ops
  have hq := setOpQueue_opQueue q a ops
  rw [removeIfEmpty, hq, if_pos rfl]
  split
  · rename_i hn
    subst hn
    obtain ⟨hr, hrq⟩ := hs.remove ha
    refine ⟨l.erase a, ?_, ?_, ?_⟩
    · convert hr using 1
      funext b
      rw [TimerMap.setOps, if_pos rfl, time_set, Function.update_apply]
      rfl
    · intro b
      rw [hrq, hq, TimerMap.setOps, if_pos rfl, ops_set]
      split
      · rfl
      · exact h.opQueue b
    · intro b hb
      rw [TimerMap.setOps, if_pos rfl, time_set] at hb
      rw [TimerMap.setOps, if_pos rfl, ops_set]
      split at hb
      · exact absurd rfl hb
      · rename_i hne
        rw [if_neg hne]
        exact h.nonempty b hb
  · rename_i hn
    refine ⟨l, ?_, ?_, ?_⟩
    · convert hs using 1
      funext b
      rw [TimerMap.setOps, if_neg hn, time_set]
      split
      · rename_i hb
        rw [hb, Option.map_map]
        rfl
      · rfl
    · intro b
      rw [hq]
      split
      · rename_i hb
        rw [hb, ops_setOps m fun hne => absurd hne ha]
      · rename_i hb
        rw [TimerMap.setOps, ops_set, if_neg hb]
        exact h.opQueue b
    · intro b hb
      by_cases hba : b = a
      · rw [hba, ops_setOps m fun hne => absurd hne ha]
        exact hn
      · rw [TimerMap.setOps, time_set, if_neg hba] at hb
        rw [TimerMap.setOps, ops_set, if_neg hba]
        exact h.nonempty b hb

/-- There is nothing to replace for a timer that is not active. -/
theorem setOps_idle (h : Refines q m l) (ha : m.time a = none) : Refines q (m.setOps a []) l := by
  convert h using 1
  funext b
  by_cases hb : b = a
  · subst hb
    have : m b = none := by simpa [TimerMap.time] using ha
    rw [TimerMap.setOps, set_self, if_pos rfl, this]
  · exact setOps_of_ne m _ hb

theorem cancelTimer (h : Refines q m l) (a : α) (max : Nat) :
    ∃ q' r, perform q (.cancelTimer a max) = some (q', r) ∧ m.Answer (.cancelTimer a max) r ∧
      ∃ l', Refines q' (m.next (.cancelTimer a max)) l' := by
  refine ⟨_, _, rfl, ?_⟩
  simp only [TimerQueue.cancelTimer]
  split
  · rename_i hl
    have ha : m.time a ≠ none := (h.mem a).mp ((h.isListed_iff a).mp hl)
    rw [cancelLoop_eq max 0 _ (Nat.zero_le _), h.opQueue, Nat.sub_zero, Nat.zero_add]
    exact ⟨⟨rfl, rfl⟩, h.setOps ha _⟩
  · rename_i hl
    have ha : m.time a = none := by
      rw [h.isListed_iff, h.mem] at hl
      exact not_not.mp hl
    have hops := ops_of_time_none ha
    refine ⟨⟨by simp [hops], by simp [hops]⟩, l, ?_⟩
    rw [next, hops, List.drop_nil]
    exact h.setOps_idle ha

theorem cancelTimerByKey (h : Refines q m l) (a : α) (key : Nat) :
    ∃ q' r, perform q (.cancelTimerByKey a key) = some (q', r) ∧
      m.Answer (.cancelTimerByKey a key) r ∧
      ∃ l', Refines q' (m.next (.cancelTimerByKey a key)) l' := by
  refine ⟨_, _, rfl, ?_⟩
  simp only [TimerQueue.cancelTimerByKey]
  split
  · rename_i hl
    have ha : m.time a ≠ none := (h.mem a).mp ((h.isListed_iff a).mp hl)
    rw [cancelByKeyLoop_eq, h.opQueue]
    exact ⟨rfl, h.setOps ha _⟩
  · rename_i hl
    have ha : m.time a = none := by
      rw [h.isListed_iff, h.mem] at hl
      exact not_not.mp hl
    have hops := ops_of_time_none ha
    refine ⟨by simp [Answer, hops], l, ?_⟩
    rw [next, hops, List.filter_nil]
    exact h.setOps_idle ha

theorem moveTimer (h : Refines q m l) {target : α} (source : α) (ht : m.time target = none) :
    ∃ q' r, perform q (.moveTimer target source) = some (q', r) ∧
      m.Answer (.moveTimer target source) r ∧
      ∃ l', Refines q' (m.next (.moveTimer target source)) l' := by
  refine ⟨_, _, rfl, rfl, ?_⟩
  have htarget : (q.data target).opQueue = [] := by rw [h.opQueue, ops_of_time_none ht]
  have hs := (h.toShape.setOpQueue target
    ((q.data target).opQueue ++ (q.data source).opQueue)).setOpQueue source []
  have hops : ∀ b, ((setOpQueue (setOpQueue q target ((q.data target).opQueue
      ++ (q.data source).opQueue)) source []).data b).opQueue
      = (m.next (.moveTimer target source)).ops b := by
    intro b
    rw [setOpQueue_opQueue, setOpQueue_opQueue, htarget, List.nil_append, next, ops_set, ops_set,
      h.opQueue, h.opQueue]
    rfl
  have hnonempty : ∀ b, (m.next (.moveTimer target source)).time b ≠ none →
      (m.next (.moveTimer target source)).ops b ≠ [] := by
    intro b hb
    rw [next, time_set, time_set] at hb
    rw [next, ops_set, ops_set]
    split
    · rename_i hbs
      rw [if_pos hbs] at hb
      exact absurd rfl hb
    · rename_i hbs
      rw [if_neg hbs] at hb
      split
      · rename_i hbt
        rw [if_pos hbt] at hb
        exact h.nonempty source hb
      · rename_i hbt
        rw [if_neg hbt] at hb
        exact h.nonempty b hb
  simp only [TimerQueue.moveTimer]
  by_cases ha : m.time source = none
  · obtain ⟨hshape, hopq⟩ := hs.move_idle ha ht
    refine ⟨l, ?_, fun b => (hopq b).trans (hops b), hnonempty⟩
    convert hshape using 1
    funext b
    rw [next, time_set, time_set]
    split
    · rename_i hb
      rw [hb, ha]
      rfl
    · split
      · rename_i hb
        rw [hb, ht]
        exact ha
      · rfl
  · obtain ⟨⟨l', hshape⟩, hopq⟩ := hs.move ha ht
    refine ⟨l', ?_, fun b => (hopq b).trans (hops b), hnonempty⟩
    convert hshape using 1
    funext b
    rw [next, time_set, time_set, Function.update_apply, Function.update_apply]
    rfl

/-- A new operation on a timer that is represented by `q'` after it has become active. -/
theorem push {q' : TimerQueue T α} {l' : List α} (h : Refines q m l) (time : T) (op : WaitOp)
    (hshape : Shape q' (Function.update m.time a (some ((m.time a).getD time))) l')
    (hops : ∀ b, (q'.data b).opQueue = (q.data b).opQueue) :
    Refines (setOpQueue q' a ((q'.data a).opQueue ++ [op]))
      (m.next (.enqueueTimer time a op)) l' where
  toShape := by
    convert hshape.setOpQueue a _ using 1
    funext b
    rw [next, time_set, Function.update_apply]
    rfl
  opQueue b := by
    rw [setOpQueue_opQueue, next, ops_set, hops, hops, h.opQueue, h.opQueue]
    rfl
  nonempty b hb := by
    rw [next, time_set] at hb
    rw [next, ops_set]
    split
    · exact List.append_ne_nil_of_right_ne_nil _ (List.cons_ne_nil _ _)
    · rename_i hne
      rw [if_neg hne] at hb
      exact h.nonempty b hb

/-- The timer that expires before all others is at the root of the heap. -/
theorem index_zero (h : Refines q m l) {t : T} (ha : m.Expires a t)
    (hmin : ∀ b t', m.Expires b t' → b ≠ a → t < t') : (q.data a).heapIndex = 0 := by
  have hmem := h.mem_heap.mpr ha
  cases hroot : q.heap[0]? with
  | none =>
    rw [List.getElem?_eq_none_iff, Nat.le_zero, List.length_eq_zero_iff] at hroot
    rw [hroot] at hmem
    cases hmem
  | some root =>
    have hr : root ∈ q.heap := List.mem_of_getElem? hroot
    have hle : root.time ≤ t := root_le h.ordered hroot hmem
    by_cases hra : root.timer = a
    · rw [← hra]
      exact h.back 0 root hroot
    · exact absurd hle (not_le.mpr (hmin root.timer root.time ((h.heap root).mp hr) hra))

theorem enqueueTimer (h : Refines q m l) {time : T} {op : WaitOp}
    (hpush : (TimerQueue.enqueueTimer q time a op).isSome) :
    ∃ q' r, perform q (.enqueueTimer time a op) = some (q', r) ∧
      m.Answer (.enqueueTimer time a op) r ∧
      ∃ l', Refines q' (m.next (.enqueueTimer time a op)) l' := by
  have hlisted : ∃ q' l', TimerQueue.enqueueTimer q time a op =
      some (setOpQueue q' a ((q'.data a).opQueue ++ [op]),
        ((setOpQueue q' a ((q'.data a).opQueue ++ [op])).data a).heapIndex = 0 &&
          ((setOpQueue q' a ((q'.data a).opQueue ++ [op])).data a).opQueue.head? = some op) ∧
      (∀ b, (q'.data b).opQueue = (q.data b).opQueue) ∧
      Shape q' (Function.update m.time a (some ((m.time a).getD time))) l' := by
    by_cases hl : isListed q a
    · refine ⟨q, l, ?_, fun _ => rfl, ?_⟩
      · simp only [TimerQueue.enqueueTimer, hl, if_true, Option.map_some]
      · obtain ⟨t, ht⟩ := Option.ne_none_iff_exists'.mp ((h.mem a).mp ((h.isListed_iff a).mp hl))
        rw [ht, Option.getD_some, ← ht, Function.update_eq_self]
        exact h.toShape
    · have ha : m.time a = none := by
        rw [h.isListed_iff, h.mem] at hl
        exact not_not.mp hl
      rw [ha, Option.getD_none]
      by_cases hinf : TimeTraits.isPositiveInfinity time
      · refine ⟨link (setHeapIndex q a maxIndex) a, a :: l, ?_, ?_, h.insert_infinite ha hinf⟩
        · simp only [TimerQueue.enqueueTimer, hl, hinf, if_true, if_false, Option.map_some,
            Bool.false_eq_true]
        · intro b
          rw [(link_linksOnly _ a).opQueue]
          exact (setHeapIndex_heapOnly q a maxIndex q.heap).opQueue b
      · have hlen : q.heap.length < maxIndex := by
          by_contra hn
          simp [TimerQueue.enqueueTimer, hl, hinf, addToHeap, hn] at hpush
        obtain ⟨q', hq', honly, hshape⟩ :=
          h.insert_finite ha (Bool.eq_false_iff.mpr hinf) hlen
        refine ⟨link q' a, a :: l, ?_, ?_, hshape⟩
        · simp only [TimerQueue.enqueueTimer, hl, hinf, hq', if_false, Option.map_some,
            Bool.false_eq_true]
        · intro b
          rw [(link_linksOnly _ a).opQueue]
          exact honly.opQueue b
  obtain ⟨q', l', hq', hops, hshape⟩ := hlisted
  have hr := h.push time op hshape hops
  refine ⟨_, _, by rw [perform, hq', Option.map_some], ⟨rfl, ?_⟩, l', hr⟩
  rintro ⟨b, t, ht, hmin⟩
  -- Only the timer of the new operation can have got an earlier expiry, and only by becoming active.
  have hother : ∀ c t', c ≠ a → (m.next (.enqueueTimer time a op)).Expires c t' →
      m.Expires c t' := by
    rintro c t' hca ⟨hc, hfin⟩
    rw [next, time_set, if_neg hca] at hc
    exact ⟨hc, hfin⟩
  have hba : b = a := by
    by_contra hne
    exact lt_irrefl t (hmin b t (hother b t hne ht))
  subst hba
  have hnone : m.time b = none := by
    by_contra hne
    obtain ⟨t', ht'⟩ := Option.ne_none_iff_exists'.mp hne
    have htt := ht.1
    rw [next, time_set, if_pos rfl, ht'] at htt
    cases htt
    exact lt_irrefl _ (hmin b t' ⟨ht', ht.2⟩)
  have hzero := hr.index_zero ht fun c t' hc hcb => hmin c t' (hother c t' hcb hc)
  simp only [hzero, setOpQueue_opQueue]
  simp [hops, h.opQueue, ops_of_time_none hnone]

/-- No timer is due when none is in the heap, or when the root is later than `now`. -/
theorem not_isDue (h : Refines q m l) {now : T} (hroot : ∀ e ∈ q.heap, now < e.time) (a : α) :
    m.isDue now a = false := by
  rw [Bool.eq_false_iff]
  intro hd
  obtain ⟨t, ht, hle⟩ := isDue_iff.mp hd
  exact absurd hle (not_le.mpr (hroot _ (h.mem_heap.mpr ht)))

theorem ready_done (h : Refines q m l) {now : T} (hroot : ∀ e ∈ q.heap, now < e.time) :
    Refines q (m.next (.getReadyTimers now)) l := by
  convert h using 1
  funext a
  simp only [next, h.not_isDue hroot a]
  rfl

/-- One round of the loop: the timer of the root is removed. -/
theorem remove_root (h : Refines q m l) {root : HeapEntry T α} (hr : root ∈ q.heap) :
    Refines (removeTimer (setOpQueue q root.timer []) root.timer) (m.set root.timer none)
        (l.erase root.timer) ∧
      (removeTimer (setOpQueue q root.timer []) root.timer).heap.length < q.heap.length := by
  have ha : m.time root.timer ≠ none := by
    rw [((h.heap root).mp hr).1]
    simp
  obtain ⟨hshape, hops⟩ := (h.toShape.setOpQueue root.timer []).remove ha
  constructor
  · refine ⟨?_, ?_, ?_⟩
    · convert hshape using 1
      funext b
      rw [time_set, Function.update_apply]
      rfl
    · intro b
      rw [hops, setOpQueue_opQueue, ops_set, h.opQueue]
      rfl
    · intro b hb
      rw [time_set] at hb
      rw [ops_set]
      split at hb
      · exact absurd rfl hb
      · rename_i hne
        rw [if_neg hne]
        exact h.nonempty b hb
  · have hnot : root ∉ (removeTimer (setOpQueue q root.timer []) root.timer).heap := by
      intro hm
      have := ((hshape.heap root).mp hm).1
      rw [Function.update_self] at this
      cases this
    have hsub : root :: (removeTimer (setOpQueue q root.timer []) root.timer).heap ⊆ q.heap := by
      intro e he
      rcases List.mem_cons.mp he with rfl | he
      · exact hr
      · have hm := (hshape.heap e).mp he
        rw [Function.update_apply] at hm
        split at hm
        · cases hm.1
        · exact (h.heap e).mpr hm
    exact (List.subperm_of_subset (List.nodup_cons.mpr ⟨hnot, hshape.back.nodup⟩) hsub).length_le

theorem isDue_set (m : TimerMap T α) (now : T) (a b : α) :
    (m.set a none).isDue now b = if b = a then false else m.isDue now b := by
  by_cases hb : b = a
  · simp only [isDue, time_set, if_pos hb]
    rfl
  · simp only [isDue, time_set, if_neg hb]

theorem readyLoop (now : T) (fuel : Nat) (h : Refines q m l) (hf : q.heap.length < fuel) :
    ∃ q' ops, TimerQueue.readyLoop now fuel q = some (q', ops) ∧
      (∃ l', Refines q' (m.next (.getReadyTimers now)) l') ∧
      ∃ order : List α, order.Nodup ∧ (∀ a, a ∈ order ↔ m.isDue now a = true) ∧
        (order.Pairwise fun a b => ∀ t t', m.Expires a t → m.Expires b t' → t ≤ t') ∧
        ops = order.flatMap fun a => (m.ops a).map (.complete .success) := by
  induction fuel generalizing q m l with
  | zero => exact absurd hf (Nat.not_lt_zero _)
  | succ fuel ih =>
    have hdone : (∀ e ∈ q.heap, now < e.time) →
        (∃ l', Refines q (m.next (.getReadyTimers now)) l') ∧
        ∃ order : List α, order.Nodup ∧ (∀ a, a ∈ order ↔ m.isDue now a = true) ∧
          (order.Pairwise fun a b => ∀ t t', m.Expires a t → m.Expires b t' → t ≤ t') ∧
          [] = order.flatMap fun a => (m.ops a).map (WaitOp.complete .success) := by
      intro hroot
      refine ⟨⟨l, h.ready_done hroot⟩, [], List.nodup_nil, ?_, .nil, rfl⟩
      intro a
      simp [h.not_isDue hroot a]
    cases hheap : q.heap with
    | nil =>
      refine ⟨q, [], by simp only [TimerQueue.readyLoop, hheap], hdone ?_⟩
      simp [hheap]
    | cons root rest =>
      have hr : root ∈ q.heap := by simp [hheap]
      have hroot : ∀ e ∈ q.heap, root.time ≤ e.time :=
        fun e he => root_le h.ordered (by simp [hheap]) he
      by_cases hlt : now < root.time
      · refine ⟨q, [], by simp only [TimerQueue.readyLoop, hheap, if_pos hlt], hdone ?_⟩
        exact fun e he => hlt.trans_le (hroot e he)
      · have hexp : m.Expires root.timer root.time := (h.heap root).mp hr
        obtain ⟨hrem, hlen⟩ := h.remove_root hr
        obtain ⟨q', ops, hq', ⟨l', hl'⟩, order, hn, hmem, hsorted, hops⟩ :=
          ih hrem (by omega)
        have hnot : root.timer ∉ order := by
          rw [hmem, isDue_set, if_pos rfl]
          simp
        have hexpires : ∀ b t, b ∈ order → m.Expires b t →
            (m.set root.timer none).Expires b t := by
          rintro b t hb ⟨ht, hfin⟩
          refine ⟨?_, hfin⟩
          have hne : b ≠ root.timer := fun he => hnot (he ▸ hb)
          rw [time_set, if_neg hne]
          exact ht
        refine ⟨q', (m.ops root.timer).map (.complete .success) ++ ops, ?_, ⟨l', ?_⟩,
          root.timer :: order, List.nodup_cons.mpr ⟨hnot, hn⟩, ?_, ?_, ?_⟩
        · simp only [TimerQueue.readyLoop, hheap, if_neg hlt]
          rw [hq', h.opQueue]
          rfl
        · convert hl' using 1
          funext b
          simp only [next, isDue_set]
          split
          · rename_i hd
            split
            · rename_i hb
              rw [hb, set_self, if_neg Bool.false_ne_true]
            · rfl
          · rename_i hd
            split
            · rename_i hb
              exact absurd (hb ▸ isDue_iff.mpr ⟨_, hexp, not_lt.mp hlt⟩) hd
            · rename_i hb
              exact (set_of_ne _ _ hb).symm
        · intro b
          rw [List.mem_cons, hmem, isDue_set]
          split
          · rename_i hb
            simp only [hb, true_or, true_iff]
            exact isDue_iff.mpr ⟨_, hexp, not_lt.mp hlt⟩
          · rename_i hb
            simp [hb]
        · refine List.pairwise_cons.mpr ⟨?_, ?_⟩
          · intro b _ t t' ht ht'
            have htt := ht.1
            rw [hexp.1] at htt
            cases htt
            exact hroot _ (h.mem_heap.mpr ht')
          · refine hsorted.imp_of_mem ?_
            intro b c hb hc hbc t t' ht ht'
            exact hbc t t' (hexpires b t hb ht) (hexpires c t' hc ht')
        · rw [List.flatMap_cons, hops]
          congr 1
          apply List.flatMap_congr
          intro b hb
          have hne : b ≠ root.timer := fun he => hnot (he ▸ hb)
          rw [ops_set, if_neg hne]

theorem getReadyTimers (h : Refines q m l) (now : T) :
    ∃ q' r, perform q (.getReadyTimers now) = some (q', r) ∧
      m.Answer (.getReadyTimers now) r ∧
      ∃ l', Refines q' (m.next (.getReadyTimers now)) l' := by
  obtain ⟨q', ops, hq', hl', hanswer⟩ := h.readyLoop now (q.heap.length + 1) (Nat.lt_succ_self _)
  refine ⟨q', ⟨ops, false, 0⟩, ?_, hanswer, hl'⟩
  rw [perform, TimerQueue.getReadyTimers, hq', Option.map_some]

theorem perform (h : Refines q m l) {action : Action T α}
    (hpush : ∀ time a op, action = .enqueueTimer time a op →
      (TimerQueue.enqueueTimer q time a op).isSome)
    (htarget : ∀ target source, action = .moveTimer target source → m.time target = none) :
    ∃ q' r, TimerQueue.perform q action = some (q', r) ∧ m.Answer action r ∧
      ∃ l', Refines q' (m.next action) l' := by
  cases action with
  | enqueueTimer time a op => exact h.enqueueTimer (hpush time a op rfl)
  | getReadyTimers now => exact h.getReadyTimers now
  | cancelTimer a max => exact h.cancelTimer a max
  | cancelTimerByKey a key => exact h.cancelTimerByKey a key
  | moveTimer target source => exact h.moveTimer source (htarget target source rfl)

end Refines

/-- The queue, the map that it represents and a history of the operations. -/
structure State (T : Type u) (α : Type v) where
  queue : TimerQueue T α
  map : TimerMap T α
  enqueued : List Nat
  delivered : List WaitOp

def initial : State T α where
  queue := construct
  map _ := none
  enqueued := []
  delivered := []

def step (s : State T α) (action : Action T α) : Option (State T α) :=
  (perform s.queue action).map fun r =>
    { queue := r.1
      map := s.map.next action
      enqueued := s.enqueued ++ action.enqueues
      delivered := s.delivered ++ r.2.delivered }

/-- Operations are new objects and `push_back` does not fail; the target of a move is empty and
not listed. -/
def Legal (s : State T α) : Action T α → Prop
  | .enqueueTimer time timer op =>
    op.id ∉ s.enqueued ∧ (enqueueTimer s.queue time timer op).isSome = true
  | .moveTimer target _ =>
    (s.queue.data target).opQueue = [] ∧ isListed s.queue target = false
  | _ => True

instance (s : State T α) (action : Action T α) : Decidable (Legal s action) := by
  induction action using TimerMap.Action.casesOn <;> dsimp only [Legal] <;> infer_instance

/-- Every operation was enqueued once, and has been delivered or still waits. -/
structure Good (s : State T α) (l : List α) : Prop extends Refines s.queue s.map l where
  fresh : s.enqueued.Nodup
  once : s.enqueued.Perm (s.delivered.map WaitOp.id ++ s.map.pending l)

section Runs

variable {s s' : State T α} {l : List α}

theorem initial_good : Good (initial : State T α) [] where
  toShape := construct_shape
  opQueue _ := rfl
  nonempty _ h := absurd rfl h
  fresh := List.nodup_nil
  once := List.Perm.refl _

theorem Good.perform (h : Good s l) {action : Action T α} (ha : Legal s action) :
    ∃ q' r, TimerQueue.perform s.queue action = some (q', r) ∧ s.map.Answer action r ∧
      ∃ l', Good ⟨q', s.map.next action, s.enqueued ++ action.enqueues,
        s.delivered ++ r.delivered⟩ l' := by
  have hpush : ∀ time a op, action = .enqueueTimer time a op →
      (TimerQueue.enqueueTimer s.queue time a op).isSome := by
    rintro time a op rfl
    exact ha.2
  have htarget : ∀ target source, action = .moveTimer target source →
      s.map.time target = none := by
    rintro target source rfl
    have := ha.2
    rw [Bool.eq_false_iff, ne_eq, h.isListed_iff, h.mem] at this
    exact not_not.mp this
  obtain ⟨q', r, hq', hanswer, l', hl'⟩ := h.toRefines.perform hpush htarget
  refine ⟨q', r, hq', hanswer, l', hl', ?_, ?_⟩
  · cases action with
    | enqueueTimer time a op =>
      exact List.nodup_append_comm.mp (List.nodup_cons.mpr ⟨ha.1, h.fresh⟩)
    | _ => simpa [Action.enqueues] using h.fresh
  · have hc := hanswer.conserves h.enumerates hl'.enumerates htarget
    rw [List.map_append, List.append_assoc]
    refine (h.once.append_right _).trans ?_
    rw [List.append_assoc]
    exact hc.append_left _

theorem Good.step (h : Good s l) {action : Action T α} (ha : Legal s action)
    (hs : step s action = some s') : ∃ l', Good s' l' := by
  obtain ⟨q', r, hq', _, hgood⟩ := h.perform ha
  rw [TimerQueue.step, hq', Option.map_some] at hs
  cases hs
  exact hgood

theorem Good.reachable (h : Good s l) (hs : Reachable TimerQueue.step Legal s s') :
    ∃ l', Good s' l' := by
  apply hs.invariant ⟨l, h⟩
  rintro s action s' ⟨l, hl⟩ ha hs
  exact hl.step ha hs

theorem reachable_good (h : Reachable step Legal (initial : State T α) s) : ∃ l, Good s l :=
  initial_good.reachable h

/-- The representation invariant.  `map.time` is the time with which a timer became active. -/
theorem timer_queue_representation (h : Reachable step Legal (initial : State T α) s) :
    (∀ i (_ : i < s.queue.heap.length), 0 < i →
      s.queue.heap[(i - 1) / 2].time ≤ s.queue.heap[i].time) ∧
    (∀ i (_ : i < s.queue.heap.length), (s.queue.data s.queue.heap[i].timer).heapIndex = i) ∧
    (∃ l, s.queue.links.Represents l ∧ ∀ a, a ∈ l ↔ isListed s.queue a) ∧
    (∀ a b, (s.queue.data a).next = some b ↔ (s.queue.data b).prev = some a) ∧
    (∀ a t, s.map.Expires a t → ∃! i : Nat, s.queue.heap[i]?.map HeapEntry.timer = some a) ∧
    (∀ e ∈ s.queue.heap, isListed s.queue e.timer) ∧
    (∀ a t, s.map.time a = some t → TimeTraits.isPositiveInfinity t →
      (s.queue.data a).heapIndex = maxIndex) ∧
    (∀ a, isListed s.queue a ↔ s.map.time a ≠ none) ∧
    ∀ a, isListed s.queue a ↔ (s.queue.data a).opQueue ≠ [] := by
  obtain ⟨l, hl⟩ := reachable_good h
  have hlisted : ∀ a, isListed s.queue a ↔ s.map.time a ≠ none :=
    fun a => (hl.isListed_iff a).trans (hl.mem a)
  refine ⟨?_, ?_, ⟨l, hl.list, fun a => (hl.isListed_iff a).symm⟩, ?_, ?_, ?_, ?_, hlisted, ?_⟩
  · intro i hi h0
    have := hl.ordered i h0
    rw [key_of_lt hi, key_of_lt ((parent_lt h0).trans hi)] at this
    exact WithTop.coe_le_coe.mp this
  · intro i hi
    exact hl.back i _ (List.getElem?_eq_getElem hi)
  · intro a b
    exact hl.list.next_eq_iff
  · intro a t ht
    have hmem := hl.mem_heap.mpr ht
    refine ⟨(s.queue.data a).heapIndex, ?_, ?_⟩
    · simp only
      rw [hl.back.of_mem hmem]
      rfl
    · intro i hi
      obtain ⟨e, he, rfl⟩ := Option.map_eq_some_iff.mp hi
      exact (hl.back i e he).symm
  · intro e he
    rw [hlisted, ((hl.heap e).mp he).1]
    simp
  · intro a t ht hinf
    apply hl.index
    rintro e he rfl
    obtain ⟨htime, hfin⟩ := (hl.heap e).mp he
    rw [ht] at htime
    cases htime
    rw [hinf] at hfin
    cases hfin
  · intro a
    rw [hlisted, hl.opQueue]
    exact ⟨hl.nonempty a, fun hops htime => hops (ops_of_time_none htime)⟩

/-- Times with an infinite one. -/
instance {K : Type u} [LinearOrder K] : TimeTraits (WithTop K) where
  isPositiveInfinity t := t = ⊤

/-- Four timers expire, one never does; one is cancelled in part and then gone, and the timer that
had two operations is moved. -/
def timersRun : List (TimerMap.Action (WithTop Nat) Nat) :=
  [.enqueueTimer (WithTop.some 50) 1 ⟨1, 0, .success⟩,
    .enqueueTimer (WithTop.some 40) 2 ⟨2, 0, .success⟩,
    .enqueueTimer (WithTop.some 30) 3 ⟨3, 0, .success⟩,
    .enqueueTimer (WithTop.some 20) 4 ⟨4, 0, .success⟩,
    .enqueueTimer ⊤ 5 ⟨5, 7, .success⟩,
    .enqueueTimer (WithTop.some 20) 4 ⟨6, 0, .success⟩,
    .cancelTimer 2 1, .moveTimer 2 4, .cancelTimerByKey 5 7]

theorem timersRun_heap : (exec (guarded step Legal) initial timersRun).map
    (fun s => s.queue.heap.map HeapEntry.timer) = some [2, 3, 1] := by
  decide +kernel

theorem timer_queue_representation_timersRun : ∃ s : State (WithTop Nat) Nat,
    s.queue.heap.map HeapEntry.timer = [2, 3, 1] ∧
    (∀ i (_ : i < s.queue.heap.length), (s.queue.data s.queue.heap[i].timer).heapIndex = i) ∧
    ∃ l, s.queue.links.Represents l ∧ ∀ a, a ∈ l ↔ isListed s.queue a := by
  obtain ⟨s, hs, hheap⟩ := Option.map_eq_some_iff.mp timersRun_heap
  have h := timer_queue_representation (exec_guarded_reachable hs)
  exact ⟨s, hheap, h.2.1, h.2.2.1⟩

/-- The queue refines the map: it holds the operations and the expiries of the map, answers every
action as the map does and goes on to represent the map after the action; what was enqueued has
been delivered once or still waits once. -/
theorem timer_queue_refines_map (h : Reachable step Legal (initial : State T α) s) :
    (∀ a, (s.queue.data a).opQueue = s.map.ops a) ∧
    (∀ a t, ⟨t, a⟩ ∈ s.queue.heap ↔ s.map.Expires a t) ∧
    (s.enqueued.Nodup ∧ ∃ l, s.map.Enumerates l ∧
      s.enqueued.Perm (s.delivered.map WaitOp.id ++ s.map.pending l)) ∧
    ∀ action, Legal s action → ∃ q' r, perform s.queue action = some (q', r) ∧
      s.map.Answer action r ∧ (∀ a, (q'.data a).opQueue = (s.map.next action).ops a) ∧
      ∀ a t, ⟨t, a⟩ ∈ q'.heap ↔ (s.map.next action).Expires a t := by
  obtain ⟨l, hl⟩ := reachable_good h
  refine ⟨hl.opQueue, fun _ _ => hl.mem_heap, ⟨hl.fresh, l, hl.enumerates, hl.once⟩, ?_⟩
  intro action ha
  obtain ⟨q', r, hq', hanswer, l', hl'⟩ := hl.perform ha
  exact ⟨q', r, hq', hanswer, hl'.opQueue, fun _ _ => hl'.mem_heap⟩

theorem timersRun_delivers : (exec (guarded step Legal) initial
    (timersRun ++ [.getReadyTimers (WithTop.some 30)])).map
    (fun s => s.delivered.map WaitOp.id) = some [2, 5, 4, 6, 3] := by
  decide +kernel

theorem timer_queue_refines_map_timersRun : ∃ s : State (WithTop Nat) Nat,
    s.delivered.map WaitOp.id = [2, 5, 4, 6, 3] ∧ ∃ l, s.map.Enumerates l ∧
      s.enqueued.Perm ([2, 5, 4, 6, 3] ++ s.map.pending l) := by
  obtain ⟨s, hs, hdelivered⟩ := Option.map_eq_some_iff.mp timersRun_delivers
  obtain ⟨_, _, ⟨_, l, hl, honce⟩, _⟩ := timer_queue_refines_map (exec_guarded_reachable hs)
  exact ⟨s, hdelivered, l, hl, hdelivered ▸ honce⟩

end Runs

end Asio.Detail.TimerQueue
