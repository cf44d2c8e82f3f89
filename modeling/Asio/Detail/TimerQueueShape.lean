import Asio.Detail.TimerQueueHeap

/-! The heap and the list of a timer queue agree on which timers are active. -/

universe u v

namespace Asio.Detail.TimerQueue

open Asio.Lib BinaryHeap LinkedList

set_option linter.unusedSectionVars false

variable {T : Type u} {α : Type v} [TimeTraits T] [DecidableEq α]

def links (q : TimerQueue T α) : Links α where
  head := q.timers
  next a := (q.data a).next
  prev a := (q.data a).prev

/-- `q'` is `q` except for the list of active timers. -/
structure LinksOnly (q q' : TimerQueue T α) : Prop where
  heap : q'.heap = q.heap
  opQueue : ∀ a, (q'.data a).opQueue = (q.data a).opQueue
  heapIndex : ∀ a, (q'.data a).heapIndex = (q.data a).heapIndex

section Links

variable {q q' : TimerQueue T α} {l : List α} {a b : α}

theorem LinksOnly.refl (q : TimerQueue T α) : LinksOnly q q where
  heap := rfl
  opQueue _ := rfl
  heapIndex _ := rfl

theorem LinksOnly.trans {q'' : TimerQueue T α} (h : LinksOnly q q') (h' : LinksOnly q' q'') :
    LinksOnly q q'' where
  heap := h'.heap.trans h.heap
  opQueue a := (h'.opQueue a).trans (h.opQueue a)
  heapIndex a := (h'.heapIndex a).trans (h.heapIndex a)

theorem HeapOnly.links (h : HeapOnly q q') : q'.links = q.links :=
  Links.ext h.timers h.next h.prev

theorem setNext_linksOnly (q : TimerQueue T α) (a : α) (b : Option α) :
    LinksOnly q (setNext q a b) := by
  constructor <;> intros <;> simp only [setNext, modify, Function.update_apply] <;>
    split <;> simp_all

theorem setPrev_linksOnly (q : TimerQueue T α) (a : α) (b : Option α) :
    LinksOnly q (setPrev q a b) := by
  constructor <;> intros <;> simp only [setPrev, modify, Function.update_apply] <;>
    split <;> simp_all

theorem setTimers_linksOnly (q : TimerQueue T α) (a : Option α) :
    LinksOnly q (setTimers q a) where
  heap := rfl
  opQueue _ := rfl
  heapIndex _ := rfl

@[simp] theorem setNext_next (q : TimerQueue T α) (a : α) (b : Option α) (c : α) :
    ((setNext q a b).data c).next = if c = a then b else (q.data c).next := by
  simp only [setNext, modify, Function.update_apply]
  split <;> rfl

@[simp] theorem setNext_prev (q : TimerQueue T α) (a : α) (b : Option α) (c : α) :
    ((setNext q a b).data c).prev = (q.data c).prev := by
  simp only [setNext, modify, Function.update_apply]
  split <;> simp_all

@[simp] theorem setPrev_prev (q : TimerQueue T α) (a : α) (b : Option α) (c : α) :
    ((setPrev q a b).data c).prev = if c = a then b else (q.data c).prev := by
  simp only [setPrev, modify, Function.update_apply]
  split <;> rfl

@[simp] theorem setPrev_next (q : TimerQueue T α) (a : α) (b : Option α) (c : α) :
    ((setPrev q a b).data c).next = (q.data c).next := by
  simp only [setPrev, modify, Function.update_apply]
  split <;> simp_all

@[simp] theorem setNext_timers (q : TimerQueue T α) (a : α) (b : Option α) :
    (setNext q a b).timers = q.timers := rfl

@[simp] theorem setPrev_timers (q : TimerQueue T α) (a : α) (b : Option α) :
    (setPrev q a b).timers = q.timers := rfl

@[simp] theorem setTimers_data (q : TimerQueue T α) (a : Option α) :
    (setTimers q a).data = q.data := rfl

@[simp] theorem setTimers_timers (q : TimerQueue T α) (a : Option α) :
    (setTimers q a).timers = a := rfl

theorem link_links (q : TimerQueue T α) (a : α) : (link q a).links = q.links.pushFront a := by
  cases ht : q.timers <;>
    apply Links.ext <;> intros <;>
      simp [link, links, ht, Links.pushFront, Links.setNext, Links.setPrev, Function.update_apply]

theorem unlink_links (q : TimerQueue T α) (a : α) : (unlink q a).links = q.links.unlink a := by
  cases hp : (q.data a).prev <;> cases hn : (q.data a).next <;> by_cases ht : q.timers = some a <;>
    apply Links.ext <;> intros <;>
      simp [unlink, links, Links.unlink, hp, hn, ht, eq_comm]

theorem relink_links (q : TimerQueue T α) {a b : α} (hpa : (q.data a).prev ≠ some a)
    (hna : (q.data a).next ≠ some a) : (relink q b a).links = q.links.replace a b := by
  cases hp : (q.data a).prev <;> cases hn : (q.data a).next <;> by_cases ht : q.timers = some a <;>
    simp only [hp, hn, ne_eq, Option.some.injEq] at hpa hna <;>
      apply Links.ext <;> intros <;>
        simp [relink, links, Links.replace, hp, hn, ht, eq_comm, Ne.symm hpa, Ne.symm hna]

theorem link_linksOnly (q : TimerQueue T α) (a : α) : LinksOnly q (link q a) := by
  have h := (setNext_linksOnly q a q.timers).trans (setPrev_linksOnly _ a none)
  simp only [link]
  split
  · exact h.trans ((setPrev_linksOnly _ _ _).trans (setTimers_linksOnly _ _))
  · exact h.trans (setTimers_linksOnly _ _)

theorem ite_linksOnly {c : Prop} [Decidable c] (h : LinksOnly q q') :
    LinksOnly q (if c then q' else q) := by
  split
  · exact h
  · exact .refl q

theorem match_linksOnly {f : α → TimerQueue T α} (o : Option α) (h : ∀ b, LinksOnly q (f b)) :
    LinksOnly q (match o with | some b => f b | none => q) := by
  cases o with
  | none => exact .refl q
  | some b => exact h b

theorem unlink_linksOnly (q : TimerQueue T α) (a : α) : LinksOnly q (unlink q a) := by
  simp only [unlink]
  refine .trans ?_ ((setNext_linksOnly _ _ _).trans (setPrev_linksOnly _ _ _))
  refine .trans ?_ (match_linksOnly _ fun _ => setPrev_linksOnly _ _ _)
  refine .trans ?_ (match_linksOnly _ fun _ => setNext_linksOnly _ _ _)
  exact ite_linksOnly (setTimers_linksOnly _ _)

theorem relink_linksOnly (q : TimerQueue T α) (a b : α) : LinksOnly q (relink q b a) := by
  simp only [relink]
  refine .trans ?_ ((setNext_linksOnly _ _ _).trans (setPrev_linksOnly _ _ _))
  refine .trans ?_ ((setNext_linksOnly _ _ _).trans (setPrev_linksOnly _ _ _))
  refine .trans ?_ (match_linksOnly _ fun _ => setPrev_linksOnly _ _ _)
  refine .trans ?_ (match_linksOnly _ fun _ => setNext_linksOnly _ _ _)
  exact ite_linksOnly (setTimers_linksOnly _ _)

end Links

/-- `time` gives the expiry of the active timers, `l` lists them. -/
structure Shape (q : TimerQueue T α) (time : α → Option T) (l : List α) : Prop where
  list : q.links.Represents l
  mem : ∀ a, a ∈ l ↔ time a ≠ none
  ordered : Ordered (key q.heap)
  back : BackPointers q
  heap : ∀ e, e ∈ q.heap ↔
    time e.timer = some e.time ∧ TimeTraits.isPositiveInfinity e.time = false
  index : ∀ a, (∀ e ∈ q.heap, e.timer ≠ a) → (q.data a).heapIndex = maxIndex
  size : q.heap.length ≤ maxIndex

theorem construct_shape : Shape (construct : TimerQueue T α) (fun _ => none) [] where
  list := represents_nil
  mem := by simp
  ordered c _ := by simp [construct, key]
  back i e h := by simp [construct] at h
  heap := by simp [construct]
  index _ _ := rfl
  size := Nat.zero_le _

namespace Shape

variable {q q' : TimerQueue T α} {time : α → Option T} {l : List α} {a b : α} {t : T}

theorem isListed_iff (h : Shape q time l) (a : α) : isListed q a = true ↔ a ∈ l := by
  rw [h.list.mem_iff]
  simp [isListed, links]

theorem not_isListed (h : Shape q time l) (ha : time a = none) : isListed q a = false := by
  rw [Bool.eq_false_iff, ne_eq, h.isListed_iff, h.mem, ha]
  simp

theorem out_of_heap (h : Shape q time l) (ha : time a = none) : ∀ e ∈ q.heap, e.timer ≠ a := by
  rintro e he rfl
  rw [((h.heap e).mp he).1] at ha
  cases ha

theorem setOpQueue (h : Shape q time l) (a : α) (ops : List WaitOp) :
    Shape (setOpQueue q a ops) time l := by
  have hdata : ∀ b, ((TimerQueue.setOpQueue q a ops).data b).heapIndex = (q.data b).heapIndex ∧
      ((TimerQueue.setOpQueue q a ops).data b).next = (q.data b).next ∧
      ((TimerQueue.setOpQueue q a ops).data b).prev = (q.data b).prev := by
    intro b
    simp only [TimerQueue.setOpQueue, modify, Function.update_apply]
    split <;> simp_all
  have hlinks : (TimerQueue.setOpQueue q a ops).links = q.links :=
    Links.ext rfl (fun b => (hdata b).2.1) (fun b => (hdata b).2.2)
  constructor
  · rw [hlinks]
    exact h.list
  · exact h.mem
  · exact h.ordered
  · intro i e he
    rw [(hdata _).1]
    exact h.back i e he
  · exact h.heap
  · intro b hb
    rw [(hdata b).1]
    exact h.index b hb
  · exact h.size

/-- The heap and the list change one after the other. -/
theorem of_only {time' : α → Option T} {l' : List α} (honly : LinksOnly q q')
    (hlist : q'.links.Represents l') (hmem : ∀ a, a ∈ l' ↔ time' a ≠ none)
    (hord : Ordered (key q.heap)) (hback : BackPointers q)
    (hheap : ∀ e, e ∈ q.heap ↔
      time' e.timer = some e.time ∧ TimeTraits.isPositiveInfinity e.time = false)
    (hindex : ∀ a, (∀ e ∈ q.heap, e.timer ≠ a) → (q.data a).heapIndex = maxIndex)
    (hsize : q.heap.length ≤ maxIndex) : Shape q' time' l' where
  list := hlist
  mem := hmem
  ordered := by rw [honly.heap]; exact hord
  back i e he := by
    rw [honly.heap] at he
    rw [honly.heapIndex]
    exact hback i e he
  heap := by rw [honly.heap]; exact hheap
  index a ha := by
    rw [honly.heap] at ha
    rw [honly.heapIndex]
    exact hindex a ha
  size := by rw [honly.heap]; exact hsize

theorem mem_update (h : Shape q time l) (c : α) :
    c ∈ a :: l ↔ Function.update time a (some t) c ≠ none := by
  rw [List.mem_cons, h.mem, Function.update_apply]
  split
  · simp_all
  · simp_all

/-- A timer that never expires gets no heap entry. -/
theorem insert_infinite (h : Shape q time l) (ha : time a = none)
    (ht : TimeTraits.isPositiveInfinity t = true) :
    Shape (link (setHeapIndex q a maxIndex) a) (Function.update time a (some t)) (a :: l) := by
  have hout := h.out_of_heap ha
  have honly := setHeapIndex_heapOnly q a maxIndex q.heap
  have hal : a ∉ l := by rw [h.mem, ha]; simp
  apply of_only (link_linksOnly _ a)
  · rw [link_links, honly.links]
    exact h.list.pushFront hal
  · exact h.mem_update
  · exact h.ordered
  · intro i e he
    rw [setHeapIndex_heapIndex, if_neg (hout e (List.mem_of_getElem? he))]
    exact h.back i e he
  · intro e
    refine (h.heap e).trans ?_
    rw [Function.update_apply]
    split
    · rename_i he
      rw [he, ha]
      simp only [reduceCtorEq, false_and, Option.some.injEq, false_iff, not_and]
      rintro rfl
      simp [ht]
    · rfl
  · intro b hb
    rw [setHeapIndex_heapIndex]
    split
    · rfl
    · exact h.index b hb
  · exact h.size

theorem insert_finite (h : Shape q time l) (ha : time a = none)
    (ht : TimeTraits.isPositiveInfinity t = false) (hl : q.heap.length < maxIndex) :
    ∃ q', addToHeap q t a = some q' ∧ HeapOnly q q' ∧
      Shape (link q' a) (Function.update time a (some t)) (a :: l) := by
  have hout := h.out_of_heap ha
  have hal : a ∉ l := by rw [h.mem, ha]; simp
  obtain ⟨q', hq', honly, hperm, hord, hback, hindex⟩ :=
    addToHeap_spec h.ordered h.back hout hl t
  refine ⟨q', hq', honly, ?_⟩
  apply of_only (link_linksOnly _ a)
  · rw [link_links, honly.links]
    exact h.list.pushFront hal
  · exact h.mem_update
  · exact hord
  · exact hback
  · intro e
    rw [hperm.mem_iff, List.mem_cons, h.heap, Function.update_apply]
    split
    · rename_i he
      subst he
      rw [ha]
      simp only [reduceCtorEq, false_and, or_false, Option.some.injEq]
      constructor
      · intro he
        have htime : e.time = t := congrArg HeapEntry.time he
        exact ⟨htime.symm, htime ▸ ht⟩
      · rintro ⟨rfl, _⟩
        rfl
    · rename_i he
      simp only [or_iff_right_iff_imp]
      rintro rfl
      exact absurd rfl he
  · intro b hb
    have hb' : b ≠ a := by
      rintro rfl
      exact hb ⟨t, b⟩ (hperm.symm.subset (List.mem_cons_self ..)) rfl
    have hbout : ∀ e ∈ q.heap, e.timer ≠ b :=
      fun e he => hb e (hperm.symm.subset (List.mem_cons_of_mem _ he))
    rw [hindex b hb' hbout]
    exact h.index b hbout
  · rw [hperm.length_eq]
    exact hl

theorem remove (h : Shape q time l) (ha : time a ≠ none) :
    Shape (removeTimer q a) (Function.update time a none) (l.erase a) ∧
      ∀ b, ((removeTimer q a).data b).opQueue = (q.data b).opQueue := by
  have hal : a ∈ l := (h.mem a).mpr ha
  obtain ⟨xs, ys, rfl⟩ := List.append_of_mem hal
  have hax : a ∉ xs := by
    have := h.list.nodup
    grind
  have herase : (xs ++ a :: ys).erase a = xs ++ ys := by
    rw [List.erase_append_right _ hax, List.erase_cons_head]
  have hmem : ∀ c, c ∈ xs ++ ys ↔ Function.update time a none c ≠ none := by
    intro c
    rw [← herase, h.list.nodup.mem_erase_iff, h.mem, Function.update_apply]
    split <;> simp_all
  rw [herase, removeTimer]
  by_cases hheap : ∃ e ∈ q.heap, e.timer = a
  · obtain ⟨e, he, rfl⟩ := hheap
    obtain ⟨honly, hperm, hord, hback, hindex⟩ := removeFromHeap_spec h.ordered h.back he
    have hnot : ∀ x ∈ (removeFromHeap q e.timer).heap, x.timer ≠ e.timer := by
      intro x hx hxe
      have hxq : x ∈ q.heap := hperm.symm.subset (List.mem_cons_of_mem _ hx)
      have heq : x = e := h.back.eq_of_timer hxq he hxe
      have hnodup : q.heap.Nodup := h.back.nodup
      rw [hperm.nodup_iff, List.nodup_cons] at hnodup
      exact hnodup.1 (heq ▸ hx)
    refine ⟨?_, fun b => ((unlink_linksOnly _ _).opQueue b).trans (honly.opQueue b)⟩
    apply of_only (unlink_linksOnly _ _)
    · rw [unlink_links, honly.links]
      exact h.list.unlink
    · exact hmem
    · exact hord
    · exact hback
    · intro x
      rw [Function.update_apply]
      split
      · rename_i hx
        simp only [reduceCtorEq, false_and, iff_false]
        exact fun hmem => hnot x hmem hx
      · rename_i hx
        rw [← h.heap, hperm.mem_iff, List.mem_cons, or_iff_right]
        rintro rfl
        exact hx rfl
    · intro b hb
      rw [hindex b hb]
      split
      · rfl
      · rename_i hbe
        apply h.index
        intro x hx
        rcases List.mem_cons.mp (hperm.subset hx) with rfl | hx
        · exact Ne.symm hbe
        · exact hb x hx
    · have := hperm.length_eq
      rw [List.length_cons] at this
      have := h.size
      omega
  · have hout : ∀ e ∈ q.heap, e.timer ≠ a := fun e he hea => hheap ⟨e, he, hea⟩
    have hsame : removeFromHeap q a = q := by
      rw [removeFromHeap]
      simp only [h.index a hout]
      rw [dif_neg (Nat.not_lt.mpr h.size)]
    rw [hsame]
    refine ⟨?_, (unlink_linksOnly _ _).opQueue⟩
    apply of_only (unlink_linksOnly _ _)
    · rw [unlink_links]
      exact h.list.unlink
    · exact hmem
    · exact h.ordered
    · exact h.back
    · intro e
      rw [Function.update_apply]
      split
      · rename_i hea
        simp only [reduceCtorEq, false_and, iff_false]
        exact fun he => hout e he hea
      · exact h.heap e
    · exact h.index
    · exact h.size

theorem moveHeapEntry_of_some {e : HeapEntry T α} (hba : b ≠ a)
    (he : q.heap[(q.data a).heapIndex]? = some e) :
    (moveHeapEntry q b a).heap = q.heap.set (q.data a).heapIndex ⟨e.time, b⟩ ∧
      HeapOnly q (moveHeapEntry q b a) ∧ ∀ c, ((moveHeapEntry q b a).data c).heapIndex =
        if c = a then maxIndex else if c = b then (q.data a).heapIndex
          else (q.data c).heapIndex := by
  have hb : ((setHeapIndex (setHeapIndex q b (q.data a).heapIndex) a maxIndex).data b).heapIndex
      = (q.data a).heapIndex := by
    rw [setHeapIndex_heapIndex, if_neg hba, setHeapIndex_heapIndex, if_pos rfl]
  have he' : (setHeapIndex (setHeapIndex q b (q.data a).heapIndex) a maxIndex).heap[
      (q.data a).heapIndex]? = some e := he
  simp only [moveHeapEntry, hb, he']
  refine ⟨rfl, ?_, ?_⟩
  · exact (setHeapIndex_heapOnly q b _ q.heap).trans
      (setHeapIndex_heapOnly _ a _ (q.heap.set (q.data a).heapIndex ⟨e.time, b⟩))
  · intro c
    simp only [setHeapIndex_heapIndex]

theorem moveHeapEntry_of_ge (h : q.heap.length ≤ maxIndex) (ha : (q.data a).heapIndex = maxIndex) :
    (moveHeapEntry q b a).heap = q.heap ∧
      HeapOnly q (moveHeapEntry q b a) ∧ ∀ c, ((moveHeapEntry q b a).data c).heapIndex =
        if c = a ∨ c = b then maxIndex else (q.data c).heapIndex := by
  have hb : ((setHeapIndex (setHeapIndex q b (q.data a).heapIndex) a maxIndex).data b).heapIndex
      = maxIndex := by
    rw [setHeapIndex_heapIndex]
    split
    · rfl
    · rw [setHeapIndex_heapIndex, if_pos rfl, ha]
  have hn : (setHeapIndex (setHeapIndex q b (q.data a).heapIndex) a maxIndex).heap[maxIndex]?
      = none := List.getElem?_eq_none h
  simp only [moveHeapEntry, hb, hn]
  refine ⟨rfl, ?_, ?_⟩
  · exact (setHeapIndex_heapOnly q b _ q.heap).trans (setHeapIndex_heapOnly _ a _ q.heap)
  · intro c
    rw [setHeapIndex_heapIndex, setHeapIndex_heapIndex, ha]
    split
    · simp_all
    · split <;> simp_all

/-- Moving from a timer that is not active changes nothing. -/
theorem move_idle (h : Shape q time l) (ha : time a = none) (hb : time b = none) :
    Shape (relink (moveHeapEntry q b a) b a) time l ∧
      ∀ c, ((relink (moveHeapEntry q b a) b a).data c).opQueue = (q.data c).opQueue := by
  have hal : a ∉ l := by rw [h.mem, ha]; simp
  have hbl : b ∉ l := by rw [h.mem, hb]; simp
  obtain ⟨hheap, honly, hindex⟩ :=
    moveHeapEntry_of_ge (b := b) h.size (h.index a (h.out_of_heap ha))
  have hindex' : ∀ c, ((moveHeapEntry q b a).data c).heapIndex = (q.data c).heapIndex := by
    intro c
    rw [hindex]
    split
    · rename_i hc
      rcases hc with rfl | rfl
      · exact (h.index c (h.out_of_heap ha)).symm
      · exact (h.index c (h.out_of_heap hb)).symm
    · rfl
  have hlinks : (relink (moveHeapEntry q b a) b a).links = q.links := by
    obtain ⟨hna, hpa⟩ := h.list.outside a hal
    obtain ⟨hnb, hpb⟩ := h.list.outside b hbl
    have hhead : q.links.head ≠ some a := fun hh => hal (h.list.mem_iff.mpr (.inr hh))
    rw [relink_links, honly.links]
    · apply Links.ext
      · simp only [Links.replace, if_neg hhead]
      · intro c
        simp only [Links.replace, hna, hpa]
        split
        · simp_all
        · split <;> simp_all
      · intro c
        simp only [Links.replace, hna, hpa]
        split
        · simp_all
        · split <;> simp_all
    · rw [honly.prev, show (q.data a).prev = none from hpa]
      simp
    · rw [honly.next, show (q.data a).next = none from hna]
      simp
  refine ⟨?_, fun c => ((relink_linksOnly _ a b).opQueue c).trans (honly.opQueue c)⟩
  apply of_only (relink_linksOnly _ a b)
  · rw [hlinks]
    exact h.list
  · exact h.mem
  · rw [hheap]
    exact h.ordered
  · intro i e he
    rw [hheap] at he
    rw [hindex']
    exact h.back i e he
  · rw [hheap]
    exact h.heap
  · intro c hc
    rw [hheap] at hc
    rw [hindex']
    exact h.index c hc
  · rw [hheap]
    exact h.size

theorem key_set_timer {heap : List (HeapEntry T α)} {i : Nat} {e : HeapEntry T α}
    (he : heap[i]? = some e) (b : α) : key (heap.set i ⟨e.time, b⟩) = key heap := by
  funext k
  simp only [key, List.getElem?_set]
  split
  · rename_i hik
    subst hik
    rw [he, if_pos (List.getElem?_eq_some_iff.mp he).1]
    rfl
  · rfl

theorem mem_set_timer (h : BackPointers q) {e : HeapEntry T α}
    (he : q.heap[(q.data e.timer).heapIndex]? = some e) (x : HeapEntry T α) :
    x ∈ q.heap.set (q.data e.timer).heapIndex ⟨e.time, b⟩ ↔
      x = ⟨e.time, b⟩ ∨ x ∈ q.heap ∧ x.timer ≠ e.timer := by
  have hlt := (List.getElem?_eq_some_iff.mp he).1
  constructor
  · intro hx
    obtain ⟨k, hk⟩ := List.mem_iff_getElem?.mp hx
    rw [List.getElem?_set] at hk
    split_ifs at hk with hne
    · exact .inl (Option.some.inj hk).symm
    · refine .inr ⟨List.mem_of_getElem? hk, fun hxe => hne ?_⟩
      rw [← hxe]
      exact h k x hk
  · rintro (rfl | ⟨hx, hne⟩)
    · exact List.mem_iff_getElem?.mpr ⟨_, by rw [List.getElem?_set, if_pos rfl, if_pos hlt]⟩
    · obtain ⟨k, hk⟩ := List.mem_iff_getElem?.mp hx
      refine List.mem_iff_getElem?.mpr ⟨k, ?_⟩
      rw [List.getElem?_set, if_neg]
      · exact hk
      · intro hik
        rw [hik, hk] at he
        exact hne (Option.some.inj he ▸ rfl)

/-- The heap of a timer's entry after the entry has been given to `b`. -/
theorem move_heap (h : Shape q time l) (ha : time a ≠ none) (hb : time b = none) :
    let q' := moveHeapEntry q b a
    HeapOnly q q' ∧ Ordered (key q'.heap) ∧ BackPointers q' ∧ q'.heap.length = q.heap.length ∧
      (∀ e, e ∈ q'.heap ↔ Function.update (Function.update time b (time a)) a none e.timer
        = some e.time ∧ TimeTraits.isPositiveInfinity e.time = false) ∧
      ∀ c, (∀ e ∈ q'.heap, e.timer ≠ c) → (q'.data c).heapIndex = maxIndex := by
  have hba : b ≠ a := by
    rintro rfl
    exact ha hb
  have hbout := h.out_of_heap hb
  by_cases hheap : ∃ e ∈ q.heap, e.timer = a
  · obtain ⟨e, he, rfl⟩ := hheap
    have hi := h.back.of_mem he
    obtain ⟨hset, honly, hindex⟩ := moveHeapEntry_of_some hba hi
    have hmem := mem_set_timer (b := b) h.back hi
    have he' := (h.heap e).mp he
    refine ⟨honly, ?_, ?_, ?_, ?_, ?_⟩
    · rw [hset, key_set_timer hi]
      exact h.ordered
    · intro k x hk
      rw [hset, List.getElem?_set] at hk
      rw [hindex]
      split at hk
      · rename_i hik
        rw [if_pos (List.getElem?_eq_some_iff.mp hi).1] at hk
        cases hk
        rw [if_neg hba, if_pos rfl, hik]
      · rename_i hik
        have hx := List.mem_of_getElem? hk
        rw [if_neg, if_neg (hbout x hx)]
        · exact h.back k x hk
        · intro hxe
          exact hik (h.back.index_eq hi hk hxe.symm)
    · rw [hset, List.length_set]
    · intro x
      rw [hset, hmem, Function.update_apply, Function.update_apply]
      split
      · rename_i hxe
        simp only [reduceCtorEq, false_and, iff_false, not_or, not_and, not_not]
        exact ⟨fun hx => hba (by rw [← hxe, hx]), fun _ => hxe⟩
      · rename_i hxe
        split
        · rename_i hxb
          rw [he'.1]
          constructor
          · rintro (hx | ⟨hx, _⟩)
            · rw [hx]
              exact ⟨rfl, he'.2⟩
            · exact absurd hxb (hbout x hx)
          · rintro ⟨ht, _⟩
            left
            rw [Option.some.inj ht, ← hxb]
        · rename_i hxb
          rw [← h.heap, or_iff_right, and_iff_left hxe]
          intro hx
          exact hxb (by rw [hx])
    · intro c hc
      rw [hset] at hc
      rw [hindex]
      split
      · rfl
      · rename_i hce
        rw [if_neg]
        · apply h.index
          intro x hx hxc
          exact hc x ((hmem x).mpr (.inr ⟨hx, fun hxe => hce (hxc ▸ hxe)⟩)) hxc
        · rintro rfl
          exact hc ⟨e.time, c⟩ ((hmem _).mpr (.inl rfl)) rfl
  · have hout : ∀ e ∈ q.heap, e.timer ≠ a := fun e he hea => hheap ⟨e, he, hea⟩
    obtain ⟨hsame, honly, hindex⟩ := moveHeapEntry_of_ge (b := b) h.size (h.index a hout)
    refine ⟨honly, ?_, ?_, ?_, ?_, ?_⟩
    · rw [hsame]
      exact h.ordered
    · intro k x hk
      rw [hsame] at hk
      have hx := List.mem_of_getElem? hk
      rw [hindex, if_neg (not_or.mpr ⟨hout x hx, hbout x hx⟩)]
      exact h.back k x hk
    · rw [hsame]
    · intro x
      rw [hsame, Function.update_apply, Function.update_apply]
      split
      · rename_i hxa
        simp only [reduceCtorEq, false_and, iff_false]
        exact fun hx => hout x hx hxa
      · split
        · rename_i hxb
          constructor
          · exact fun hx => absurd hxb (hbout x hx)
          · rintro ⟨ht, hfin⟩
            exact absurd rfl (hout ⟨x.time, a⟩ ((h.heap _).mpr ⟨ht, hfin⟩))
        · exact h.heap x
    · intro c hc
      rw [hsame] at hc
      rw [hindex]
      split
      · rfl
      · exact h.index c hc

theorem move (h : Shape q time l) (ha : time a ≠ none) (hb : time b = none) :
    (∃ l', Shape (relink (moveHeapEntry q b a) b a)
      (Function.update (Function.update time b (time a)) a none) l') ∧
      ∀ c, ((relink (moveHeapEntry q b a) b a).data c).opQueue = (q.data c).opQueue := by
  have hal : a ∈ l := (h.mem a).mpr ha
  have hbl : b ∉ l := by rw [h.mem, hb]; simp
  obtain ⟨honly, hord, hback, hlen, hheap, hindex⟩ := h.move_heap ha hb
  obtain ⟨xs, ys, rfl⟩ := List.append_of_mem hal
  have hn := h.list.nodup
  have hax : a ∉ xs := by grind
  have hay : a ∉ ys := by grind
  refine ⟨⟨xs ++ b :: ys, ?_⟩,
    fun c => ((relink_linksOnly _ a b).opQueue c).trans (honly.opQueue c)⟩
  apply of_only (relink_linksOnly _ a b)
  · rw [relink_links, honly.links]
    · exact h.list.replace hbl
    · rw [honly.prev]
      intro hp
      exact hax (List.mem_of_getLast? (h.list.prev xs a ys rfl ▸ hp))
    · rw [honly.next]
      intro hp
      exact hay (List.mem_of_mem_head? (h.list.next xs a ys rfl ▸ hp))
  · intro c
    rw [Function.update_apply, Function.update_apply]
    split
    · rename_i hca
      subst hca
      have hcb : c ≠ b := fun he => hbl (he ▸ hal)
      simp [hax, hay, hcb]
    · rename_i hca
      split
      · rename_i hcb
        simp [hcb, ha]
      · rename_i hcb
        rw [← h.mem]
        simp [hca, hcb]
  · exact hord
  · exact hback
  · exact hheap
  · exact hindex
  · rw [hlen]
    exact h.size

end Shape

end Asio.Detail.TimerQueue
