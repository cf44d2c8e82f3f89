import Mathlib.Data.Fintype.EquivFin
import Asio.Lib.Observation
import Asio.Detail.TimerQueueRuns

/-! An inactive timer whose `heap_index_` is not the maximal one: the position that it points to
is given to another timer later, and a move then takes the entry of that timer. -/

universe u v

namespace Asio.Detail.TimerQueue

open Asio.Lib Simulation Transition LinkedList TimerMap

set_option linter.unusedSectionVars false

variable {T : Type u} {α : Type v} [TimeTraits T] [DecidableEq α]

/-- A legal action and its answer. -/
def respond (s : State T α) (action : Action T α) : Option (State T α × Result) :=
  if Legal s action then
    (perform s.queue action).map fun r =>
      (⟨r.1, s.map.next action, s.enqueued ++ action.enqueues, s.delivered ++ r.2.delivered⟩, r.2)
  else none

/-- The two queues differ in the indices of timers without a heap entry only. -/
structure SameEntries (q q' : TimerQueue T α) : Prop where
  links : q'.links = q.links
  heap : q'.heap = q.heap
  opQueue : ∀ a, (q'.data a).opQueue = (q.data a).opQueue

/-- What `enqueue_timer` leaves behind when `push_back` throws; `none` when it is not called. -/
def enqueueTimerThrows (q : TimerQueue T α) (time : T) (timer : α) : Option (TimerQueue T α) :=
  if isListed q timer then none
  else if TimeTraits.isPositiveInfinity time then none
  else some (setHeapIndex q timer q.heap.length)

section Loops

variable {q q' : TimerQueue T α} {a : α} {id : Nat}

/-- No timer with an entry in the heap has the operation. -/
def Avoids (q : TimerQueue T α) (id : Nat) : Prop :=
  ∀ e ∈ q.heap, ∀ op ∈ (q.data e.timer).opQueue, op.id ≠ id

theorem Avoids.of_subset (h : Avoids q id) (hheap : q'.heap ⊆ q.heap)
    (hops : ∀ b, (q'.data b).opQueue ⊆ (q.data b).opQueue) : Avoids q' id :=
  fun e he op hop => h e (hheap he) op (hops _ hop)

theorem HeapOnly.refl (q : TimerQueue T α) : HeapOnly q q := (Rearranged.refl q).toHeapOnly

theorem popBack_subset (q : TimerQueue T α) (a : α) :
    HeapOnly q (popBack (setHeapIndex q a maxIndex)) ∧
      (popBack (setHeapIndex q a maxIndex)).heap ⊆ q.heap :=
  ⟨setHeapIndex_heapOnly q a maxIndex q.heap.dropLast, List.dropLast_subset _⟩

theorem restoreHeap_rearranged (q : TimerQueue T α) (index : Nat) (h : index < q.heap.length) :
    Rearranged q (restoreHeap q index h) := by
  unfold restoreHeap
  split
  · exact upHeap_rearranged q index h
  · exact downHeap_rearranged q index h

/-- Whatever `heap_index_` is, only the heap changes, and it gets no new entry. -/
theorem removeFromHeap_subset (q : TimerQueue T α) (a : α) :
    HeapOnly q (removeFromHeap q a) ∧ (removeFromHeap q a).heap ⊆ q.heap := by
  rw [removeFromHeap]
  simp only
  split
  · rename_i hlt
    split
    · exact popBack_subset q a
    · rename_i hl
      have hlast : q.heap.length - 1 < q.heap.length := by omega
      have hswap : Rearranged q (swapHeap q (q.data a).heapIndex (q.heap.length - 1) hlt hlast) :=
        swapHeap_rearranged
      obtain ⟨honly, hsub⟩ := popBack_subset (swapHeap q _ _ hlt hlast) a
      have hr := restoreHeap_rearranged
        (popBack (setHeapIndex (swapHeap q _ _ hlt hlast) a maxIndex)) (q.data a).heapIndex (by
          simp only [popBack, setHeapIndex, modify, List.length_dropLast, swapHeap_length]
          omega)
      refine ⟨(hswap.toHeapOnly.trans honly).trans hr.toHeapOnly, ?_⟩
      exact fun e he => hswap.perm.subset (hsub (hr.perm.subset he))
  · exact ⟨.refl q, List.Subset.refl _⟩

theorem readyLoop_avoids {now : T} {fuel : Nat} {ops : List WaitOp} (h : Avoids q id)
    (hloop : readyLoop now fuel q = some (q', ops)) : ∀ op ∈ ops, op.id ≠ id := by
  induction fuel generalizing q ops with
  | zero => cases hloop
  | succ fuel ih =>
    rw [readyLoop] at hloop
    cases hheap : q.heap with
    | nil =>
      simp only [hheap] at hloop
      cases hloop
      simp
    | cons root rest =>
      simp only [hheap] at hloop
      split at hloop
      · cases hloop
        simp
      · obtain ⟨⟨q₁, ops₁⟩, hrest, heq⟩ := Option.map_eq_some_iff.mp hloop
        cases heq
        have hroot : root ∈ q.heap := by simp [hheap]
        have hset := Refines.setOpQueue_opQueue q root.timer []
        obtain ⟨honly, hsub⟩ := removeFromHeap_subset (setOpQueue q root.timer []) root.timer
        have hlinks := unlink_linksOnly (removeFromHeap (setOpQueue q root.timer []) root.timer)
          root.timer
        have hops (b : α) : ((removeTimer (setOpQueue q root.timer []) root.timer).data b).opQueue
            ⊆ (q.data b).opQueue := by
          rw [removeTimer, hlinks.opQueue, honly.opQueue, hset]
          split
          · exact List.nil_subset _
          · exact List.Subset.refl _
        have hkept : Avoids (removeTimer (setOpQueue q root.timer []) root.timer) id :=
          h.of_subset (by rw [removeTimer, hlinks.heap]; exact hsub) hops
        intro op hop
        rcases List.mem_append.mp hop with hop | hop
        · obtain ⟨op', hop', rfl⟩ := List.mem_map.mp hop
          exact h root hroot op' hop'
        · exact ih hkept hrest op hop

end Loops

section Stale

variable {q q' : TimerQueue T α} {a b c : α} {t : T} {s : State T α} {l : List α}

theorem isListed_eq (q : TimerQueue T α) (a : α) :
    isListed q a = (q.links.prev a ≠ none || q.links.head = some a) := rfl

theorem isListed_pushFront (h : q'.links = q.links.pushFront b) (hcb : c ≠ b)
    (hc : isListed q c = false) : isListed q' c = false := by
  simp only [isListed_eq, ne_eq, decide_not, Bool.or_eq_false_iff, Bool.not_eq_false',
    decide_eq_true_eq, decide_eq_false_iff_not] at hc ⊢
  rw [h, Links.pushFront_head, Links.pushFront_prev, if_neg hcb, if_neg hc.2]
  exact ⟨hc.1, fun hbc => hcb (Option.some.inj hbc).symm⟩

/-- A timer that expires last stays at the end of the heap. -/
theorem enqueueTimer_last (hb : isListed q b = false)
    (ht : TimeTraits.isPositiveInfinity t = false) (hl : q.heap.length < maxIndex)
    (hlast : ∀ e ∈ q.heap, e.time ≤ t) (op : WaitOp) :
    ∃ r, enqueueTimer q t b op = some r ∧ r.1.links = q.links.pushFront b ∧
      r.1.heap = q.heap ++ [⟨t, b⟩] ∧ ∀ c, c ≠ b →
        (r.1.data c).heapIndex = (q.data c).heapIndex ∧
          (r.1.data c).opQueue = (q.data c).opQueue := by
  obtain ⟨pushed, hp⟩ : ∃ pushed,
      pushed = pushBack (setHeapIndex q b q.heap.length) ⟨t, b⟩ := ⟨_, rfl⟩
  have hheap : pushed.heap = q.heap ++ [⟨t, b⟩] := by
    rw [hp]
    rfl
  have hlen : q.heap.length < pushed.heap.length := by simp [hheap]
  have hup : upHeap pushed q.heap.length hlen = pushed := by
    rw [upHeap]
    split
    · rename_i h0
      have hparent : (q.heap.length - 1) / 2 < q.heap.length := by omega
      rw [if_neg]
      simp only [hheap, List.getElem_append_left hparent, List.getElem_concat_length]
      exact not_lt.mpr (hlast _ (List.getElem_mem hparent))
    · rfl
  have hadd : addToHeap q t b = some pushed := by
    rw [addToHeap, if_pos hl]
    simp only [← hp, hup]
  have honly : HeapOnly q pushed := by
    rw [hp]
    exact setHeapIndex_heapOnly q b _ (q.heap ++ [⟨t, b⟩])
  have hlinks := link_linksOnly pushed b
  have henqueue : enqueueTimer q t b op = (some (link pushed b)).map fun q =>
      let q := setOpQueue q b ((q.data b).opQueue ++ [op])
      (q, (q.data b).heapIndex = 0 && (q.data b).opQueue.head? = some op) := by
    simp only [enqueueTimer, hb, ht, hadd, Bool.false_eq_true, if_false, Option.map_some]
  refine ⟨_, henqueue, ?_, hlinks.heap.trans hheap, ?_⟩
  · rw [← honly.links, ← link_links]
    apply Links.ext
    · rfl
    · intro c
      simp only [links, setOpQueue, modify, Function.update_apply]
      split
      · simp_all
      · rfl
    · intro c
      simp only [links, setOpQueue, modify, Function.update_apply]
      split
      · simp_all
      · rfl
  · intro c hc
    have hdata : ((setOpQueue (link pushed b) b (((link pushed b).data b).opQueue ++ [op])).data c)
        = (link pushed b).data c := Function.update_of_ne hc _ _
    constructor
    · refine (congrArg PerTimerData.heapIndex hdata).trans ?_
      rw [hlinks.heapIndex, hp]
      exact (setHeapIndex_heapIndex q b _ c).trans (if_neg hc)
    · refine (congrArg PerTimerData.opQueue hdata).trans ?_
      rw [hlinks.opQueue, honly.opQueue]

/-- A move gives the entry at `heap_index_` to the target, whoever's it is. -/
theorem moveTimer_entry (hca : c ≠ a) (hi : q.heap[(q.data a).heapIndex]? = some ⟨t, b⟩) :
    (moveTimer q c a).heap = q.heap.set (q.data a).heapIndex ⟨t, c⟩ ∧
      ∀ d, ((moveTimer q c a).data d).opQueue =
        if d = a then [] else if d = c then (q.data c).opQueue ++ (q.data a).opQueue
          else (q.data d).opQueue := by
  obtain ⟨q₁, hq₁⟩ : ∃ q₁, q₁ = setOpQueue (setOpQueue q c
      ((q.data c).opQueue ++ (q.data a).opQueue)) a [] := ⟨_, rfl⟩
  have hsame : (q₁.data a).heapIndex = (q.data a).heapIndex ∧ q₁.heap = q.heap := by
    rw [hq₁]
    simp [setOpQueue, modify, Ne.symm hca]
  obtain ⟨hset, honly, _⟩ := Shape.moveHeapEntry_of_some (q := q₁) hca
    (by rw [hsame.1, hsame.2]; exact hi)
  have hmove : moveTimer q c a = relink (moveHeapEntry q₁ c a) c a := by
    rw [hq₁]
    rfl
  have hlinks := relink_linksOnly (moveHeapEntry q₁ c a) a c
  rw [hmove]
  constructor
  · rw [hlinks.heap, hset, hsame.1, hsame.2]
  · intro d
    rw [hlinks.opQueue, honly.opQueue, hq₁, Refines.setOpQueue_opQueue,
      Refines.setOpQueue_opQueue]

theorem exists_last (ht : TimeTraits.isPositiveInfinity t = false)
    (heap : List (HeapEntry T α))
    (hfinite : ∀ e ∈ heap, TimeTraits.isPositiveInfinity e.time = false) :
    ∃ t', TimeTraits.isPositiveInfinity t' = false ∧ ∀ e ∈ heap, e.time ≤ t' := by
  induction heap with
  | nil => exact ⟨t, ht, by simp⟩
  | cons e heap ih =>
    obtain ⟨t', ht', hlast⟩ := ih fun e he => hfinite e (List.mem_cons_of_mem _ he)
    rcases le_total e.time t' with hle | hle
    · exact ⟨t', ht', by simpa [hle] using hlast⟩
    · refine ⟨e.time, hfinite e (List.mem_cons_self ..), ?_⟩
      simpa using fun e he => (hlast e he).trans hle

theorem respond_of_perform {action : Action T α} {r : Result} (ha : Legal s action)
    (h : perform s.queue action = some (q', r)) : respond s action =
      some (⟨q', s.map.next action, s.enqueued ++ action.enqueues, s.delivered ++ r.delivered⟩,
        r) := by
  rw [respond, if_pos ha, h, Option.map_some]

theorem respond_good (h : Good s l) {action : Action T α} (ha : Legal s action) :
    ∃ s' r, respond s action = some (s', r) ∧ s.map.Answer action r ∧
      s'.map = s.map.next action ∧ ∃ l', Good s' l' := by
  obtain ⟨q', r, hq', hanswer, hgood⟩ := h.perform ha
  exact ⟨_, r, respond_of_perform ha hq', hanswer, rfl, hgood⟩

theorem Good.mem_enqueued (h : Good s l) {op : WaitOp} (hop : op ∈ s.map.ops a) :
    op.id ∈ s.enqueued := by
  have ha : a ∈ l := by
    rw [h.mem]
    intro hn
    rw [ops_of_time_none hn] at hop
    cases hop
  apply h.once.symm.subset
  exact List.mem_append_right _ (List.mem_flatMap.mpr ⟨a, ha, List.mem_map_of_mem hop⟩)

theorem map_after_move (m : TimerMap T α) (hb : m.time b = none) (hbc : b ≠ c) (hba : b ≠ a)
    (t : T) (op : WaitOp) :
    (m.next (.enqueueTimer t b op)).next (.moveTimer c a) b = some ⟨t, [op]⟩ := by
  have hmove : (m.next (.enqueueTimer t b op)).next (.moveTimer c a) b =
      m.next (.enqueueTimer t b op) b := (set_of_ne _ _ hba).trans (set_of_ne _ _ hbc)
  rw [hmove, next, set_self, hb, ops_of_time_none hb]
  rfl

/-- A move from an inactive timer leaves the operation of another timer to expire. -/
theorem delivered_after_move (h : Good s l) (hb : s.map.time b = none)
    (hc : s.map.time c = none) (hbc : b ≠ c) (hba : b ≠ a)
    (ht : TimeTraits.isPositiveInfinity t = false) {op : WaitOp}
    (hlegal : Legal s (.enqueueTimer t b op)) :
    ∃ s₁ r₁ s₂ r₂ s₃ r₃, respond s (.enqueueTimer t b op) = some (s₁, r₁) ∧
      respond s₁ (.moveTimer c a) = some (s₂, r₂) ∧
      respond s₂ (.getReadyTimers t) = some (s₃, r₃) ∧
      op.id ∈ r₃.delivered.map WaitOp.id := by
  obtain ⟨s₁, r₁, hs₁, _, hmap₁, l₁, h₁⟩ := respond_good h hlegal
  have hc₁ : s₁.map.time c = none := by
    rw [hmap₁, next, time_set, if_neg (Ne.symm hbc), hc]
  have hlegal₁ : Legal s₁ (.moveTimer c a) :=
    ⟨by rw [h₁.opQueue, ops_of_time_none hc₁], h₁.not_isListed hc₁⟩
  obtain ⟨s₂, r₂, hs₂, _, hmap₂, l₂, h₂⟩ := respond_good h₁ hlegal₁
  obtain ⟨s₃, r₃, hs₃, hanswer, _⟩ :=
    respond_good h₂ (show Legal s₂ (.getReadyTimers t) from trivial)
  have hentry : s₂.map b = some ⟨t, [op]⟩ := by
    rw [hmap₂, hmap₁]
    exact map_after_move s.map hb hbc hba t op
  have hdue : s₂.map.isDue t b = true := isDue_iff.mpr ⟨t, ⟨by rw [time, hentry]; rfl, ht⟩, le_rfl⟩
  obtain ⟨order, _, hmem, _, hdelivered⟩ := hanswer
  refine ⟨s₁, r₁, s₂, r₂, s₃, r₃, hs₁, hs₂, hs₃, List.mem_map.mpr ⟨op.complete .success, ?_, rfl⟩⟩
  rw [hdelivered]
  refine List.mem_flatMap.mpr ⟨b, (hmem b).mpr hdue, List.mem_map.mpr ⟨op, ?_, rfl⟩⟩
  simp [ops, hentry]

/-- With a stale index the move takes the entry of the other timer. -/
theorem avoids_after_move (hb : isListed s.queue b = false) (hc : isListed s.queue c = false)
    (hops : ∀ d, d = a ∨ d = c → (s.queue.data d).opQueue = []) (hbc : b ≠ c) (hba : b ≠ a)
    (hca : c ≠ a) (hentries : ∀ e ∈ s.queue.heap, e.timer ≠ b)
    (hlast : ∀ e ∈ s.queue.heap, e.time ≤ t)
    (hl : s.queue.heap.length < maxIndex) (ht : TimeTraits.isPositiveInfinity t = false)
    (op : WaitOp) (hop : op.id ∉ s.enqueued) (havoids : Avoids s.queue op.id)
    (hindex : (s.queue.data a).heapIndex = s.queue.heap.length) :
    ∃ s₁ r₁ s₂ r₂, respond s (.enqueueTimer t b op) = some (s₁, r₁) ∧
      respond s₁ (.moveTimer c a) = some (s₂, r₂) ∧ Avoids s₂.queue op.id ∧
      s₂.map = (s.map.next (.enqueueTimer t b op)).next (.moveTimer c a) ∧
      ∀ e ∈ s₂.queue.heap, e.timer ≠ b := by
  obtain ⟨r, hr, hlinks, hheap, hother⟩ := enqueueTimer_last hb ht hl hlast op
  have hlegal : Legal s (.enqueueTimer t b op) := ⟨hop, by rw [hr]; rfl⟩
  have hops₁ (d : α) (hd : d = a ∨ d = c) : (r.1.data d).opQueue = [] := by
    have hdb : d ≠ b := by
      rcases hd with rfl | rfl
      · exact Ne.symm hba
      · exact Ne.symm hbc
    rw [(hother d hdb).2, hops d hd]
  have hi : r.1.heap[(r.1.data a).heapIndex]? = some ⟨t, b⟩ := by
    rw [(hother a (Ne.symm hba)).1, hindex, hheap, List.getElem?_concat_length]
  obtain ⟨hset, hopq⟩ := moveTimer_entry hca hi
  have hperform : perform s.queue (.enqueueTimer t b op) = some (r.1, ⟨[], r.2, 0⟩) := by
    rw [perform, hr, Option.map_some]
  have hheap₂ : (moveTimer r.1 c a).heap = s.queue.heap ++ [⟨t, c⟩] := by
    rw [hset, (hother a (Ne.symm hba)).1, hindex, hheap, List.set_append_right _ _ le_rfl,
      Nat.sub_self, List.set_cons_zero]
  refine ⟨_, _, _, _, respond_of_perform hlegal hperform, respond_of_perform
    ⟨hops₁ c (.inr rfl), isListed_pushFront hlinks (Ne.symm hbc) hc⟩ rfl, ?_, rfl, ?_⟩
  · intro e he op' hop'
    have he : e ∈ (moveTimer r.1 c a).heap := he
    have hop' : op' ∈ ((moveTimer r.1 c a).data e.timer).opQueue := hop'
    rw [hheap₂, List.mem_append, List.mem_singleton] at he
    rw [hopq, hops₁ c (.inr rfl), hops₁ a (.inl rfl), List.append_nil] at hop'
    rcases he with he | rfl
    · split_ifs at hop'
      · simp at hop'
      · simp at hop'
      · rw [(hother _ (hentries e he)).2] at hop'
        exact havoids e he op' hop'
    · simp at hop'
  · intro e he
    have he : e ∈ (moveTimer r.1 c a).heap := he
    rw [hheap₂, List.mem_append, List.mem_singleton] at he
    rcases he with he | rfl
    · exact hentries e he
    · exact Ne.symm hbc

/-- A new timer gets the entry that the stale index points to, and a move from the stale timer
takes it away. -/
theorem stale_run [Infinite α] (h : Good s l) (hsame : SameEntries s.queue q')
    (ha : s.map.time a = none) (hindex : (q'.data a).heapIndex = s.queue.heap.length)
    (hl : s.queue.heap.length < maxIndex) (ht : TimeTraits.isPositiveInfinity t = false) :
    ∃ t' b c op, TimeTraits.isPositiveInfinity t' = false ∧ s.map.time b = none ∧
      s.map.time c = none ∧ b ≠ c ∧ b ≠ a ∧ Legal s (.enqueueTimer t' b op) ∧
      ∃ s₁ r₁ s₂ r₂, respond { s with queue := q' } (.enqueueTimer t' b op) = some (s₁, r₁) ∧
        respond s₁ (.moveTimer c a) = some (s₂, r₂) ∧ Avoids s₂.queue op.id ∧
        s₂.map.Expires b t' ∧ ∀ e ∈ s₂.queue.heap, e.timer ≠ b := by
  obtain ⟨b, hb⟩ := Infinite.exists_notMem_finset (a :: l).toFinset
  obtain ⟨c, hc⟩ := Infinite.exists_notMem_finset (b :: a :: l).toFinset
  obtain ⟨id, hid⟩ := Infinite.exists_notMem_finset s.enqueued.toFinset
  obtain ⟨t', ht', hlast⟩ := exists_last ht s.queue.heap fun e he => ((h.heap e).mp he).2
  simp only [List.mem_toFinset, List.mem_cons, not_or] at hb hc hid
  obtain ⟨hba, hbl⟩ := hb
  obtain ⟨hcb, hca, hcl⟩ := hc
  have htime (d : α) (hd : d ∉ l) : s.map.time d = none := not_not.mp (mt (h.mem d).mpr hd)
  have hlisted (d : α) (hd : d ∉ l) : isListed q' d = false := by
    rw [isListed_eq, hsame.links]
    exact h.not_isListed (htime d hd)
  have hops (d : α) (hd : d = a ∨ d = c) : (q'.data d).opQueue = [] := by
    rw [hsame.opQueue, h.opQueue, ops_of_time_none]
    rcases hd with rfl | rfl
    · exact ha
    · exact htime d hcl
  have hentries (e : HeapEntry T α) (he : e ∈ q'.heap) : e.timer ≠ b := by
    rw [hsame.heap] at he
    exact h.out_of_heap (htime b hbl) e he
  have havoids : Avoids q' id := by
    intro e _ op hop
    rw [hsame.opQueue, h.opQueue] at hop
    rintro rfl
    exact hid (h.mem_enqueued hop)
  obtain ⟨r, hr, _⟩ := enqueueTimer_last (h.not_isListed (htime b hbl)) ht' hl hlast
    ⟨id, 0, .success⟩
  rw [← hsame.heap] at hindex hlast
  obtain ⟨s₁, r₁, s₂, r₂, hs₁, hs₂, havoids', hmap, hout⟩ := avoids_after_move
    (s := { s with queue := q' }) (hlisted b hbl) (hlisted c hcl) hops (Ne.symm hcb) hba hca
    hentries hlast (hsame.heap ▸ hl) ht' ⟨id, 0, .success⟩ hid havoids hindex
  refine ⟨t', b, c, ⟨id, 0, .success⟩, ht', htime b hbl, htime c hcl, Ne.symm hcb, hba,
    ⟨hid, by rw [hr]; rfl⟩, s₁, r₁, s₂, r₂, hs₁, hs₂, havoids', ⟨?_, ht'⟩, hout⟩
  rw [hmap, time, map_after_move s.map (htime b hbl) (Ne.symm hcb) hba]
  rfl

/-- The operation of the new timer expires only where the index is not stale. -/
theorem not_observablyEqual_of_stale [Infinite α] (h : Good s l)
    (hsame : SameEntries s.queue q') (ha : s.map.time a = none)
    (hindex : (q'.data a).heapIndex = s.queue.heap.length)
    (hl : s.queue.heap.length < maxIndex) (ht : TimeTraits.isPositiveInfinity t = false) :
    ¬ObservablyEqual respond { s with queue := q' } s := by
  obtain ⟨t', b, c, op, ht', hb, hc, hbc, hba, hlegal, s₁', r₁', s₂', r₂', hs₁', hs₂', havoids,
    _, _⟩ := stale_run h hsame ha hindex hl ht
  obtain ⟨s₁, r₁, s₂, r₂, s₃, r₃, hs₁, hs₂, hs₃, hdelivered⟩ :=
    delivered_after_move h hb hc hbc hba ht' hlegal
  intro heq
  have hanswer := ((heq.after hs₁' hs₁).after hs₂' hs₂).answer (.getReadyTimers t')
  rw [hs₃, Option.map_some, Option.map_eq_some_iff] at hanswer
  obtain ⟨⟨s₃', r₃'⟩, hs₃', rfl⟩ := hanswer
  rw [respond, if_pos (show Legal s₂' (.getReadyTimers t') from trivial), perform,
    getReadyTimers, Option.map_map, Option.map_eq_some_iff] at hs₃'
  obtain ⟨⟨q₃, ops⟩, hloop, heq⟩ := hs₃'
  cases heq
  obtain ⟨op', hop', hid⟩ := List.mem_map.mp hdelivered
  exact readyLoop_avoids havoids hloop op' hop' hid

theorem step_of_respond {action : Action T α} {r : Result} {s' : State T α}
    (h : respond s action = some (s', r)) : Legal s action ∧ step s action = some s' := by
  unfold respond at h
  split at h
  · rename_i ha
    obtain ⟨p, hp, heq⟩ := Option.map_eq_some_iff.mp h
    cases heq
    exact ⟨ha, by rw [step, hp, Option.map_some]⟩
  · cases h

/-- A timer that expires can be without a heap entry later. -/
theorem exists_lost_of_stale [Infinite α] (h : Good s l) (hsame : SameEntries s.queue q')
    (ha : s.map.time a = none) (hindex : (q'.data a).heapIndex = s.queue.heap.length)
    (hl : s.queue.heap.length < maxIndex) (ht : TimeTraits.isPositiveInfinity t = false) :
    ∃ s' b t', Reachable step Legal { s with queue := q' } s' ∧ s'.map.Expires b t' ∧
      ⟨t', b⟩ ∉ s'.queue.heap := by
  obtain ⟨t', b, _, _, _, _, _, _, _, _, s₁, _, s₂, _, hs₁, hs₂, _, hexpires, hout⟩ :=
    stale_run h hsame ha hindex hl ht
  obtain ⟨hlegal₁, hstep₁⟩ := step_of_respond hs₁
  obtain ⟨hlegal₂, hstep₂⟩ := step_of_respond hs₂
  exact ⟨s₂, b, t', .step (.step .start hlegal₁ hstep₁) hlegal₂ hstep₂, hexpires,
    fun he => hout _ he rfl⟩

end Stale

section Throws

variable {q q' : TimerQueue T α} {a : α} {t : T} {s : State T α}

theorem enqueueTimerThrows_eq_some (h : enqueueTimerThrows q t a = some q') :
    isListed q a = false ∧ TimeTraits.isPositiveInfinity t = false ∧
      q' = setHeapIndex q a q.heap.length := by
  unfold enqueueTimerThrows at h
  split_ifs at h with hl ht
  exact ⟨Bool.eq_false_iff.mpr hl, Bool.eq_false_iff.mpr ht, (Option.some.inj h).symm⟩

theorem setHeapIndex_sameEntries (q : TimerQueue T α) (a : α) (index : Nat) :
    SameEntries q (setHeapIndex q a index) where
  links := (setHeapIndex_heapOnly q a index q.heap).links
  heap := rfl
  opQueue := (setHeapIndex_heapOnly q a index q.heap).opQueue

theorem setHeapIndex_self (q : TimerQueue T α) (a : α) :
    setHeapIndex q a (q.data a).heapIndex = q := by
  simp only [setHeapIndex, modify, Function.update_eq_self]

/-- The index written before the push is the timer's own only in a heap that is full. -/
theorem enqueueTimer_atomic_iff [Infinite α] (h : Reachable step Legal (initial : State T α) s)
    (hthrows : enqueueTimerThrows s.queue t a = some q') :
    ObservablyEqual respond { s with queue := q' } s ↔ s.queue.heap.length = maxIndex := by
  obtain ⟨l, hl⟩ := reachable_good h
  obtain ⟨hlisted, ht, rfl⟩ := enqueueTimerThrows_eq_some hthrows
  have ha : s.map.time a = none := by
    rw [Bool.eq_false_iff, ne_eq, hl.isListed_iff, hl.mem] at hlisted
    exact not_not.mp hlisted
  have hindex : (s.queue.data a).heapIndex = maxIndex := hl.index a (hl.out_of_heap ha)
  constructor
  · intro heq
    by_contra hne
    refine not_observablyEqual_of_stale hl (setHeapIndex_sameEntries _ a _) ha ?_
      (Nat.lt_of_le_of_ne hl.size hne) ht heq
    rw [setHeapIndex_heapIndex, if_pos rfl]
  · intro hfull
    apply ObservablyEqual.of_eq
    rw [hfull, ← hindex, setHeapIndex_self]

theorem enqueueTimer_atomic_iff_initial :
    ObservablyEqual respond
      ({ initial with queue := setHeapIndex construct 0 0 } : State (WithTop Nat) Nat) initial ↔
        0 = maxIndex :=
  enqueueTimer_atomic_iff (a := 0) (t := WithTop.some 5) .start rfl

/-- The operation of timer 1 expires at 10, but not after timer 0, with which the call failed, has
been moved to timer 2. -/
theorem enqueueTimer_not_atomic : ¬∀ (s : State (WithTop Nat) Nat) time timer q',
    Reachable step Legal initial s → enqueueTimerThrows s.queue time timer = some q' →
      ObservablyEqual respond { s with queue := q' } s := by
  intro h
  have hrun := h initial (WithTop.some 5) 0 (setHeapIndex construct 0 0) .start rfl
    [.enqueueTimer (WithTop.some 10) 1 ⟨1, 0, .success⟩, .moveTimer 2 0,
      .getReadyTimers (WithTop.some 10)]
  have hdelivered := congrArg (Option.map (List.map fun p => p.2.delivered)) hrun
  revert hdelivered
  decide +kernel

end Throws

end Asio.Detail.TimerQueue
