import Mathlib.Order.WithBot
import Mathlib.Data.List.Nodup
import Mathlib.Data.List.Perm.Basic
import Asio.Detail.TimerQueue

/-! The heap of a timer queue stays ordered and keeps its back pointers. -/

universe u v

namespace Asio.Detail.TimerQueue

open Asio.Lib BinaryHeap

set_option linter.unusedSectionVars false

variable {T : Type u} {α : Type v} [TimeTraits T] [DecidableEq α]

/-- The time at each position, and the greatest one outside the vector. -/
def key (heap : List (HeapEntry T α)) (i : Nat) : WithTop T :=
  (heap[i]?).elim ⊤ fun e => (e.time : WithTop T)

/-- `heap_[i].timer_->heap_index_ == i` -/
def BackPointers (q : TimerQueue T α) : Prop :=
  ∀ i e, q.heap[i]? = some e → (q.data e.timer).heapIndex = i

/-- `q'` is `q` except for the heap and the indices into it. -/
structure HeapOnly (q q' : TimerQueue T α) : Prop where
  timers : q'.timers = q.timers
  opQueue : ∀ a, (q'.data a).opQueue = (q.data a).opQueue
  next : ∀ a, (q'.data a).next = (q.data a).next
  prev : ∀ a, (q'.data a).prev = (q.data a).prev

/-- `q'` is `q` with the heap entries in another order. -/
structure Rearranged (q q' : TimerQueue T α) : Prop extends HeapOnly q q' where
  perm : q'.heap.Perm q.heap
  outside : ∀ a, (∀ e ∈ q.heap, e.timer ≠ a) → (q'.data a).heapIndex = (q.data a).heapIndex
  back : BackPointers q → BackPointers q'

section Basic

theorem key_of_lt {heap : List (HeapEntry T α)} {i : Nat} (h : i < heap.length) :
    key heap i = heap[i].time := by
  simp [key, h]

theorem key_of_ge {heap : List (HeapEntry T α)} {i : Nat} (h : heap.length ≤ i) :
    key heap i = ⊤ := by
  simp [key, h]

theorem key_of_some {heap : List (HeapEntry T α)} {i : Nat} {e : HeapEntry T α}
    (h : heap[i]? = some e) : key heap i = e.time := by
  simp [key, h]

theorem HeapOnly.trans {q q' q'' : TimerQueue T α} (h : HeapOnly q q') (h' : HeapOnly q' q'') :
    HeapOnly q q'' where
  timers := h'.timers.trans h.timers
  opQueue a := (h'.opQueue a).trans (h.opQueue a)
  next a := (h'.next a).trans (h.next a)
  prev a := (h'.prev a).trans (h.prev a)

theorem setHeapIndex_heapOnly (q : TimerQueue T α) (timer : α) (index : Nat)
    (heap : List (HeapEntry T α)) :
    HeapOnly q (setHeapIndex { q with heap := heap } timer index) := by
  constructor <;> intros <;> simp only [setHeapIndex, modify, Function.update_apply] <;>
    split <;> simp_all

theorem setHeapIndex_heapIndex (q : TimerQueue T α) (timer : α) (index : Nat) (a : α) :
    ((setHeapIndex q timer index).data a).heapIndex
      = if a = timer then index else (q.data a).heapIndex := by
  simp only [setHeapIndex, modify, Function.update_apply]
  split <;> rfl

theorem Rearranged.refl (q : TimerQueue T α) : Rearranged q q where
  timers := rfl
  opQueue _ := rfl
  next _ := rfl
  prev _ := rfl
  perm := .refl _
  outside _ _ := rfl
  back := id

theorem Rearranged.trans {q q' q'' : TimerQueue T α} (h : Rearranged q q')
    (h' : Rearranged q' q'') : Rearranged q q'' where
  toHeapOnly := h.toHeapOnly.trans h'.toHeapOnly
  perm := h'.perm.trans h.perm
  outside a ha := (h'.outside a fun e he => ha e (h.perm.subset he)).trans (h.outside a ha)
  back hb := h'.back (h.back hb)

/-- Two entries of one timer are the same entry. -/
theorem BackPointers.index_eq {q : TimerQueue T α} (h : BackPointers q) {i j : Nat}
    {e e' : HeapEntry T α} (hi : q.heap[i]? = some e) (hj : q.heap[j]? = some e')
    (ht : e.timer = e'.timer) : i = j := by
  rw [← h i e hi, ← h j e' hj, ht]

end Basic

section Swap

variable {q : TimerQueue T α} {i j : Nat} {hi : i < q.heap.length} {hj : j < q.heap.length}

theorem swapHeap_getElem? (k : Nat) :
    (swapHeap q i j hi hj).heap[k]? = q.heap[Equiv.swap i j k]? := by
  simp only [swapHeap, setHeapIndex, modify, List.getElem?_set, List.length_set]
  by_cases hkj : k = j
  · simp [hkj, hj, hi]
  · by_cases hki : k = i
    · simp [hki, hi, hj, Ne.symm (hki ▸ hkj)]
    · simp [Ne.symm hkj, Ne.symm hki, Equiv.swap_apply_of_ne_of_ne hki hkj]

theorem key_swapHeap : key (swapHeap q i j hi hj).heap = key q.heap ∘ Equiv.swap i j := by
  funext k
  simp only [key, swapHeap_getElem?, Function.comp_apply]

theorem swapHeap_heapIndex (a : α) : ((swapHeap q i j hi hj).data a).heapIndex =
    if a = q.heap[i].timer then j else if a = q.heap[j].timer then i
      else (q.data a).heapIndex := by
  simp only [swapHeap, setHeapIndex_heapIndex]

theorem swapHeap_heap :
    (swapHeap q i j hi hj).heap = (q.heap.set i q.heap[j]).set j q.heap[i] := rfl

theorem swapHeap_rearranged : Rearranged q (swapHeap q i j hi hj) where
  toHeapOnly := (setHeapIndex_heapOnly q _ i _).trans (setHeapIndex_heapOnly _ _ j _)
  perm := by
    rw [swapHeap_heap]
    exact List.set_set_perm hi hj
  outside a ha := by
    rw [swapHeap_heapIndex, if_neg, if_neg]
    · exact (ha _ (List.getElem_mem hj)).symm
    · exact (ha _ (List.getElem_mem hi)).symm
  back hb := by
    intro k e hk
    rw [swapHeap_getElem?] at hk
    have hei : q.heap[i]? = some q.heap[i] := List.getElem?_eq_getElem hi
    have hej : q.heap[j]? = some q.heap[j] := List.getElem?_eq_getElem hj
    rw [swapHeap_heapIndex]
    split
    · rename_i ht
      have := hb.index_eq hk hei ht
      rw [Equiv.swap_apply_eq_iff, Equiv.swap_apply_left] at this
      exact this.symm
    · split
      · rename_i ht
        have := hb.index_eq hk hej ht
        rw [Equiv.swap_apply_eq_iff, Equiv.swap_apply_right] at this
        exact this.symm
      · rename_i hni hnj
        have hki : k ≠ j := by
          rintro rfl
          rw [Equiv.swap_apply_right, hei] at hk
          exact hni (Option.some.inj hk ▸ rfl)
        have hkj : k ≠ i := by
          rintro rfl
          rw [Equiv.swap_apply_left, hej] at hk
          exact hnj (Option.some.inj hk ▸ rfl)
        rw [Equiv.swap_apply_of_ne_of_ne hkj hki] at hk
        exact hb k e hk

end Swap

section Sift

theorem upHeap_rearranged (q : TimerQueue T α) (index : Nat) (h : index < q.heap.length) :
    Rearranged q (upHeap q index h) := by
  induction q, index, h using upHeap.induct with
  | case1 q index h h0 hlt ih =>
    rw [upHeap, dif_pos h0, if_pos hlt]
    exact swapHeap_rearranged.trans ih
  | case2 q index h h0 hlt =>
    rw [upHeap, dif_pos h0, if_neg hlt]
    exact .refl q
  | case3 q index h h0 =>
    rw [upHeap, dif_neg h0]
    exact .refl q

theorem downHeap_rearranged (q : TimerQueue T α) (index : Nat) (h : index < q.heap.length) :
    Rearranged q (downHeap q index h) := by
  induction q, index, h using downHeap.induct with
  | case1 q index h hc hm hlt =>
    rw [downHeap, dif_pos hc, if_pos hlt]
    exact .refl q
  | case2 q index h hc hm hlt ih =>
    rw [downHeap, dif_pos hc, if_neg hlt]
    exact swapHeap_rearranged.trans ih
  | case3 q index h hc =>
    rw [downHeap, dif_neg hc]
    exact .refl q

theorem upHeap_ordered (q : TimerQueue T α) (index : Nat) (h : index < q.heap.length)
    (ho : UpOrder (key q.heap) index) : Ordered (key (upHeap q index h).heap) := by
  induction q, index, h using upHeap.induct with
  | case1 q index h h0 hlt ih =>
    rw [upHeap, dif_pos h0, if_pos hlt]
    apply ih
    rw [key_swapHeap]
    apply ho.swap h0
    rw [key_of_lt h, key_of_lt ((parent_lt h0).trans h)]
    exact WithTop.coe_lt_coe.mpr hlt
  | case2 q index h h0 hlt =>
    rw [upHeap, dif_pos h0, if_neg hlt]
    apply ho.finish
    intro _
    rw [key_of_lt h, key_of_lt ((parent_lt h0).trans h)]
    exact WithTop.coe_le_coe.mpr (not_lt.mp hlt)
  | case3 q index h h0 =>
    rw [upHeap, dif_neg h0]
    exact ho.finish fun h => absurd h h0

theorem minChild_le (heap : List (HeapEntry T α)) {index : Nat}
    (h : index * 2 + 1 < heap.length) {c : Nat} (h0 : 0 < c) (hc : parent c = index) :
    key heap (minChild heap (index * 2 + 1) h) ≤ key heap c := by
  have hc := (parent_eq_iff h0).mp hc
  unfold minChild
  split
  · rename_i hl
    rcases hc with rfl | rfl
    · exact le_rfl
    · rw [key_of_ge hl.ge]
      exact le_top
  · have hl : index * 2 + 1 + 1 < heap.length := by omega
    split
    · rename_i hlt
      rcases hc with rfl | rfl
      · exact le_rfl
      · rw [key_of_lt h, key_of_lt hl]
        exact WithTop.coe_le_coe.mpr hlt.le
    · rename_i hlt
      rcases hc with rfl | rfl
      · rw [key_of_lt h, key_of_lt hl]
        exact WithTop.coe_le_coe.mpr (not_lt.mp hlt)
      · exact le_rfl

theorem parent_minChild (heap : List (HeapEntry T α)) {index : Nat}
    (h : index * 2 + 1 < heap.length) :
    0 < minChild heap (index * 2 + 1) h ∧ parent (minChild heap (index * 2 + 1) h) = index := by
  unfold minChild parent
  split
  · omega
  · split <;> omega

theorem downHeap_ordered (q : TimerQueue T α) (index : Nat) (h : index < q.heap.length)
    (ho : DownOrder (key q.heap) index) : Ordered (key (downHeap q index h).heap) := by
  induction q, index, h using downHeap.induct with
  | case1 q index h hc hm hlt =>
    rw [downHeap, dif_pos hc, if_pos hlt]
    apply ho.finish
    intro c h0 hp
    refine le_trans ?_ (minChild_le q.heap hc h0 hp)
    rw [key_of_lt h, key_of_lt hm.2]
    exact WithTop.coe_le_coe.mpr hlt.le
  | case2 q index h hc hm hlt ih =>
    rw [downHeap, dif_pos hc, if_neg hlt]
    apply ih
    rw [key_swapHeap]
    obtain ⟨h0, hp⟩ := parent_minChild q.heap hc
    refine ho.swap h0 hp (fun c => minChild_le q.heap hc) ?_
    rw [key_of_lt h, key_of_lt hm.2]
    exact WithTop.coe_le_coe.mpr (not_lt.mp hlt)
  | case3 q index h hc =>
    rw [downHeap, dif_neg hc]
    apply ho.finish
    intro c h0 hp
    rw [parent_eq_iff h0] at hp
    rw [key_of_ge (show q.heap.length ≤ c by omega)]
    exact le_top

theorem restoreHeap_spec (q : TimerQueue T α) (index : Nat) (h : index < q.heap.length)
    (ho : HoleOrder (key q.heap) index) :
    Rearranged q (restoreHeap q index h) ∧ Ordered (key (restoreHeap q index h).heap) := by
  unfold restoreHeap
  split
  · rename_i hlt
    refine ⟨upHeap_rearranged q index h, upHeap_ordered q index h (ho.up hlt.1 ?_)⟩
    rw [key_of_lt h, key_of_lt ((parent_lt hlt.1).trans h)]
    exact WithTop.coe_lt_coe.mpr hlt.2
  · rename_i hlt
    refine ⟨downHeap_rearranged q index h, downHeap_ordered q index h (ho.down ?_)⟩
    intro h0
    rw [key_of_lt h, key_of_lt ((parent_lt h0).trans h)]
    exact WithTop.coe_le_coe.mpr (not_lt.mp fun hlt' => hlt ⟨h0, hlt'⟩)

end Sift

section Entries

variable {q : TimerQueue T α}

theorem BackPointers.of_mem (h : BackPointers q) {e : HeapEntry T α} (he : e ∈ q.heap) :
    q.heap[(q.data e.timer).heapIndex]? = some e := by
  obtain ⟨i, hi⟩ := List.mem_iff_getElem?.mp he
  rw [h i e hi, hi]

theorem BackPointers.eq_of_timer (h : BackPointers q) {e e' : HeapEntry T α} (he : e ∈ q.heap)
    (he' : e' ∈ q.heap) (ht : e.timer = e'.timer) : e = e' := by
  have h1 := h.of_mem he
  rw [ht, h.of_mem he'] at h1
  exact (Option.some.inj h1).symm

theorem BackPointers.nodup (h : BackPointers q) : q.heap.Nodup := by
  apply List.nodup_iff_injective_getElem.mpr
  intro i j hij
  have hi := List.getElem?_eq_getElem i.isLt
  have hj := List.getElem?_eq_getElem j.isLt
  exact Fin.ext (h.index_eq hi hj (congrArg HeapEntry.timer hij))

theorem root_le (h : Ordered (key q.heap)) {root : HeapEntry T α} (hr : q.heap[0]? = some root)
    {e : HeapEntry T α} (he : e ∈ q.heap) : root.time ≤ e.time := by
  obtain ⟨i, hi⟩ := List.mem_iff_getElem?.mp he
  have := h.root_le i
  rw [key_of_some hr, key_of_some hi] at this
  exact WithTop.coe_le_coe.mp this

theorem addToHeap_spec (ho : Ordered (key q.heap)) (hb : BackPointers q) {timer : α}
    (hout : ∀ e ∈ q.heap, e.timer ≠ timer) (hl : q.heap.length < maxIndex) (time : T) :
    ∃ q', addToHeap q time timer = some q' ∧ HeapOnly q q' ∧
      q'.heap.Perm (⟨time, timer⟩ :: q.heap) ∧ Ordered (key q'.heap) ∧ BackPointers q' ∧
      ∀ a, a ≠ timer → (∀ e ∈ q.heap, e.timer ≠ a) →
        (q'.data a).heapIndex = (q.data a).heapIndex := by
  obtain ⟨pushed, hp⟩ : ∃ pushed,
      pushed = pushBack (setHeapIndex q timer q.heap.length) ⟨time, timer⟩ := ⟨_, rfl⟩
  have hheap : pushed.heap = q.heap ++ [⟨time, timer⟩] := by
    rw [hp]
    rfl
  have honly : HeapOnly q pushed := by
    rw [hp]
    exact setHeapIndex_heapOnly q timer _ (q.heap ++ [⟨time, timer⟩])
  have hindex : ∀ a, (pushed.data a).heapIndex
      = if a = timer then q.heap.length else (q.data a).heapIndex := by
    intro a
    rw [hp]
    exact setHeapIndex_heapIndex q timer _ a
  have hlen : q.heap.length < pushed.heap.length := by simp [hheap]
  have hr := upHeap_rearranged pushed q.heap.length hlen
  have hkey : ∀ k, k < q.heap.length → key pushed.heap k = key q.heap k := by
    intro k hk
    simp only [key, hheap, List.getElem?_append_left hk]
  have hup : UpOrder (key pushed.heap) q.heap.length := by
    constructor
    · intro c hc hne
      rcases Nat.lt_or_gt_of_ne hne with hlt | hgt
      · rw [hkey c hlt, hkey _ ((parent_lt hc).trans hlt)]
        exact ho c hc
      · rw [key_of_ge (show pushed.heap.length ≤ c by simp only [hheap,
          List.length_append, List.length_singleton]; omega)]
        exact le_top
    · intro _ c hc hpc
      have := parent_lt hc
      rw [key_of_ge (show pushed.heap.length ≤ c by simp only [hheap,
          List.length_append, List.length_singleton]; omega)]
      exact le_top
  have hback : BackPointers pushed := by
    intro i e hi
    rw [hindex]
    rw [hheap, List.getElem?_append] at hi
    split at hi
    · rw [if_neg (hout e (List.mem_of_getElem? hi))]
      exact hb i e hi
    · rw [List.getElem?_singleton] at hi
      split at hi
      · cases hi
        rw [if_pos rfl]
        omega
      · cases hi
  refine ⟨upHeap pushed q.heap.length hlen, ?_, honly.trans hr.toHeapOnly, ?_,
    upHeap_ordered pushed _ hlen hup, hr.back hback, ?_⟩
  · rw [addToHeap, if_pos hl]
    subst hp
    rfl
  · refine hr.perm.trans ?_
    rw [hheap]
    exact List.perm_append_singleton _ _
  · intro a ha hout'
    rw [hr.outside a, hindex, if_neg ha]
    simpa [hheap, or_imp, forall_and] using ⟨hout', Ne.symm ha⟩

/-- What is left when `e` leaves from the last position. -/
theorem popBack_spec (hb : BackPointers q) {e : HeapEntry T α}
    (he : q.heap[q.heap.length - 1]? = some e) :
    HeapOnly q (popBack (setHeapIndex q e.timer maxIndex)) ∧
      q.heap.Perm (e :: (popBack (setHeapIndex q e.timer maxIndex)).heap) ∧
      BackPointers (popBack (setHeapIndex q e.timer maxIndex)) ∧
      key (popBack (setHeapIndex q e.timer maxIndex)).heap
        = fun k => if k = q.heap.length - 1 then ⊤ else key q.heap k := by
  have hsplit : q.heap = q.heap.dropLast ++ [e] := by
    rw [← List.getLast?_eq_getElem?] at he
    obtain ⟨entries, hentries⟩ := List.getLast?_eq_some_iff.mp he
    rw [hentries, List.dropLast_concat]
  refine ⟨setHeapIndex_heapOnly q e.timer _ q.heap.dropLast, ?_, ?_, ?_⟩
  · refine List.Perm.trans ?_ (List.perm_append_singleton e q.heap.dropLast)
    rw [← hsplit]
  · intro i x hx
    have hx : q.heap.dropLast[i]? = some x := hx
    rw [List.getElem?_dropLast] at hx
    split at hx
    · rename_i hi
      have hne : x.timer ≠ e.timer := by
        intro ht
        have := hb.index_eq hx he ht
        omega
      rw [show (popBack (setHeapIndex q e.timer maxIndex)).data
        = (setHeapIndex q e.timer maxIndex).data from rfl, setHeapIndex_heapIndex, if_neg hne]
      exact hb i x hx
    · cases hx
  · funext k
    show key q.heap.dropLast k = _
    simp only [key, List.getElem?_dropLast]
    split
    · rw [if_neg (by omega)]
    · split
      · rfl
      · rw [List.getElem?_eq_none (by omega)]

theorem removeFromHeap_spec (ho : Ordered (key q.heap)) (hb : BackPointers q)
    {e : HeapEntry T α} (he : e ∈ q.heap) :
    HeapOnly q (removeFromHeap q e.timer) ∧
      q.heap.Perm (e :: (removeFromHeap q e.timer).heap) ∧
      Ordered (key (removeFromHeap q e.timer).heap) ∧
      BackPointers (removeFromHeap q e.timer) ∧
      ∀ a, (∀ x ∈ (removeFromHeap q e.timer).heap, x.timer ≠ a) →
        ((removeFromHeap q e.timer).data a).heapIndex
          = if a = e.timer then maxIndex else (q.data a).heapIndex := by
  have hi := hb.of_mem he
  have hlt : (q.data e.timer).heapIndex < q.heap.length := (List.getElem?_eq_some_iff.mp hi).1
  have hlast : ∀ k, q.heap.length - 1 < k → key q.heap k = ⊤ := by
    intro k hk
    exact key_of_ge (by omega)
  rw [removeFromHeap]
  simp only [hlt, dif_pos]
  split
  · rename_i hl
    obtain ⟨honly, hperm, hback, hkey⟩ := popBack_spec hb (hl ▸ hi)
    refine ⟨honly, hperm, ?_, hback, fun a _ => setHeapIndex_heapIndex q e.timer maxIndex a⟩
    rw [hkey]
    exact ho.truncate hlast
  · rename_i hl
    have hlt' : q.heap.length - 1 < q.heap.length := by omega
    have hswap : Rearranged q (swapHeap q (q.data e.timer).heapIndex (q.heap.length - 1) hlt hlt') :=
      swapHeap_rearranged
    obtain ⟨honly, hperm, hback, hkey⟩ := popBack_spec (e := e) (hswap.back hb) (by
      rw [swapHeap_length, swapHeap_getElem?, Equiv.swap_apply_right, hi])
    rw [swapHeap_length] at hkey
    have hhole := ho.remove (q.data e.timer).heapIndex hlast
    rw [key_swapHeap] at hkey
    obtain ⟨hr, hord⟩ := restoreHeap_spec _ (q.data e.timer).heapIndex (by
        simp only [popBack, setHeapIndex, modify, List.length_dropLast, swapHeap_length]
        omega) (hkey ▸ hhole)
    refine ⟨(hswap.toHeapOnly.trans honly).trans hr.toHeapOnly, ?_, hord, hr.back hback, ?_⟩
    · exact hswap.perm.symm.trans (hperm.trans (hr.perm.symm.cons e))
    · intro a ha
      rw [hr.outside a fun x hx => ha x (hr.perm.symm.subset hx)]
      refine (setHeapIndex_heapIndex _ e.timer maxIndex a).trans ?_
      split
      · rfl
      · rename_i hne
        apply hswap.outside
        intro x hx
        rcases List.mem_cons.mp ((hswap.perm.symm.trans (hperm.trans (hr.perm.symm.cons e))).subset hx)
          with rfl | hx
        · exact Ne.symm hne
        · exact ha x hx

end Entries

end Asio.Detail.TimerQueue
