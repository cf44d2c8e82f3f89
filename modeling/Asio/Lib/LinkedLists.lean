import Asio.Lib.LinkedList

/-! Several doubly linked lists whose elements hold one pair of links each. -/

universe u v

namespace Asio.Lib.LinkedList

variable {σ : Type u} {α : Type v}

structure Lists (σ : Type u) (α : Type v) where
  head : σ → Option α
  next : α → Option α
  prev : α → Option α

/-- The links of the elements of `l`. -/
def Links.on [DecidableEq α] (L : Links α) (l : List α) : Links α where
  head := L.head
  next a := if a ∈ l then L.next a else none
  prev a := if a ∈ l then L.prev a else none

theorem Links.on_congr [DecidableEq α] {L L' : Links α} {l : List α} (hhead : L'.head = L.head)
    (hnext : ∀ a ∈ l, L'.next a = L.next a) (hprev : ∀ a ∈ l, L'.prev a = L.prev a) :
    L'.on l = L.on l := by
  apply Links.ext
  · exact hhead
  · intro a
    simp only [Links.on]
    split
    · exact hnext a ‹_›
    · rfl
  · intro a
    simp only [Links.on]
    split
    · exact hprev a ‹_›
    · rfl

namespace Lists

def links (L : Lists σ α) (k : σ) : Links α := ⟨L.head k, L.next, L.prev⟩

section Operations

set_option linter.unusedSectionVars false

variable [DecidableEq σ] [DecidableEq α]

def setLinks (L : Lists σ α) (k : σ) (M : Links α) : Lists σ α :=
  ⟨Function.update L.head k M.head, M.next, M.prev⟩

def pushFront (L : Lists σ α) (k : σ) (a : α) : Lists σ α :=
  L.setLinks k ((L.links k).pushFront a)

def unlink (L : Lists σ α) (k : σ) (a : α) : Lists σ α := L.setLinks k ((L.links k).unlink a)

/-- Each head leads through a list of its own. -/
structure Represents (L : Lists σ α) (lists : σ → List α) : Prop where
  links : ∀ k, ((L.links k).on (lists k)).Represents (lists k)
  unique : ∀ {k k' a}, a ∈ lists k → a ∈ lists k' → k = k'

variable {L : Lists σ α} {lists : σ → List α} {k : σ} {a : α}

theorem links_setLinks_self {M : Links α} : (L.setLinks k M).links k = M := by
  simp only [links, setLinks, Function.update_self]

theorem links_setLinks_of_ne {k' : σ} {M : Links α} (h : k' ≠ k) :
    (L.setLinks k M).links k' = ⟨L.head k', M.next, M.prev⟩ := by
  simp only [links, setLinks, Function.update_of_ne h]

theorem represents_nil : Represents (⟨fun _ => none, fun _ => none, fun _ => none⟩ : Lists σ α)
    fun _ => [] where
  links _ := by
    simp only [Lists.links, Links.on, List.not_mem_nil, if_false]
    exact LinkedList.represents_nil
  unique := nofun

theorem Represents.nodup (h : L.Represents lists) (k : σ) : (lists k).Nodup := (h.links k).nodup

theorem Represents.head_mem (h : L.Represents lists) (ha : L.head k = some a) : a ∈ lists k := by
  have hhead : L.head k = (lists k).head? := (h.links k).head
  exact List.mem_of_mem_head? (hhead ▸ ha)

theorem mem_update_cons {k' : σ} {c : α} :
    c ∈ Function.update lists k (a :: lists k) k' ↔ k' = k ∧ c = a ∨ c ∈ lists k' := by
  by_cases hk : k' = k
  · subst hk
    rw [Function.update_self, List.mem_cons]
    simp only [true_and]
  · rw [Function.update_of_ne hk]
    simp only [hk, false_and, false_or]

theorem mem_update_erase (hnodup : (lists k).Nodup) {k' : σ} {c : α} :
    c ∈ Function.update lists k ((lists k).erase a) k' ↔ c ∈ lists k' ∧ ¬ (k' = k ∧ c = a) := by
  by_cases hk : k' = k
  · subst hk
    rw [Function.update_self, hnodup.mem_erase_iff, and_comm]
    simp only [true_and]
  · rw [Function.update_of_ne hk]
    simp only [hk, false_and, not_false_eq_true, and_true]

theorem mem_of_mem_update_erase {k' : σ} {c : α}
    (hc : c ∈ Function.update lists k ((lists k).erase a) k') : c ∈ lists k' := by
  by_cases hk : k' = k
  · subst hk
    rw [Function.update_self] at hc
    exact List.mem_of_mem_erase hc
  · rwa [Function.update_of_ne hk] at hc

theorem Represents.pushFront (h : L.Represents lists) (ha : ∀ k, a ∉ lists k) :
    (L.pushFront k a).Represents (Function.update lists k (a :: lists k)) := by
  have hout := ha k
  constructor
  · intro k'
    by_cases hk : k' = k
    · subst hk
      have hpushed : ((L.links k').pushFront a).on (a :: lists k') =
          ((L.links k').on (lists k')).pushFront a := by
        apply Links.ext
        · simp only [Links.on, Links.pushFront_head]
        · intro c
          by_cases hc : c = a <;>
            simp [Links.on, Links.pushFront_next, hc]
        · intro c
          have hhead (hc : (L.links k').head = some c) : c ∈ lists k' := h.head_mem hc
          by_cases hc : c = a
          · subst hc
            simp [Links.on, Links.pushFront_prev]
          · by_cases hfirst : (L.links k').head = some c
            · simp [Links.on, Links.pushFront_prev, hfirst, hhead hfirst]
            · simp [Links.on, Links.pushFront_prev, hc, hfirst]
      rw [Lists.pushFront, links_setLinks_self, Function.update_self, hpushed]
      exact (h.links k').pushFront hout
    · rw [Lists.pushFront, links_setLinks_of_ne hk, Function.update_of_ne hk]
      have hframe : Links.on ⟨L.head k', ((L.links k).pushFront a).next,
          ((L.links k).pushFront a).prev⟩ (lists k') = (L.links k').on (lists k') := by
        refine Links.on_congr rfl (fun c hc => ?_) fun c hc => ?_
        · have hca : c ≠ a := fun heq => ha k' (heq ▸ hc)
          rw [Links.pushFront_next, if_neg hca]
          rfl
        · have hca : c ≠ a := fun heq => ha k' (heq ▸ hc)
          have hfirst : (L.links k).head ≠ some c := fun hfirst =>
            hk (h.unique hc (h.head_mem hfirst))
          rw [Links.pushFront_prev, if_neg hfirst, if_neg hca]
          rfl
      rw [hframe]
      exact h.links k'
  · intro k' k'' c hc hc'
    rw [mem_update_cons] at hc hc'
    rcases hc with ⟨hk, rfl⟩ | hc
    · rcases hc' with ⟨hk', -⟩ | hc'
      · rw [hk, hk']
      · exact absurd hc' (ha k'')
    · rcases hc' with ⟨-, rfl⟩ | hc'
      · exact absurd hc (ha k')
      · exact h.unique hc hc'

theorem Represents.unlink (h : L.Represents lists) (ha : a ∈ lists k) :
    (L.unlink k a).Represents (Function.update lists k ((lists k).erase a)) := by
  have hlinks := h.links k
  have hnext {c : α} (hc : L.next a = some c) : c ∈ lists k := by
    apply hlinks.next_mem (a := a)
    simpa only [Links.on, Lists.links, if_pos ha] using hc
  have hprev {c : α} (hc : L.prev a = some c) : c ∈ lists k := by
    apply hlinks.prev_mem (a := a)
    simpa only [Links.on, Lists.links, if_pos ha] using hc
  constructor
  · intro k'
    by_cases hk : k' = k
    · subst hk
      have hunlinked : ((L.links k').unlink a).on ((lists k').erase a) =
          ((L.links k').on (lists k')).unlink a := by
        apply Links.ext
        · simp only [Links.on, Links.unlink, if_pos ha]
        · intro c
          by_cases hc : c = a
          · simp [Links.on, Links.unlink, hc, ha]
          · by_cases hmem : c ∈ lists k'
            · simp [Links.on, Links.unlink, List.mem_erase_of_ne hc, hc, ha, hmem]
            · have hne : L.prev a ≠ some c := fun heq => hmem (hprev heq)
              simp [Links.on, Links.unlink, Lists.links, List.mem_erase_of_ne hc, hc, ha, hmem, hne]
        · intro c
          by_cases hc : c = a
          · simp [Links.on, Links.unlink, hc, ha]
          · by_cases hmem : c ∈ lists k'
            · simp [Links.on, Links.unlink, List.mem_erase_of_ne hc, hc, ha, hmem]
            · have hne : L.next a ≠ some c := fun heq => hmem (hnext heq)
              simp [Links.on, Links.unlink, Lists.links, List.mem_erase_of_ne hc, hc, ha, hmem, hne]
      rw [Lists.unlink, links_setLinks_self, Function.update_self, hunlinked]
      obtain ⟨xs, ys, hl⟩ := List.append_of_mem ha
      have hnodup := h.nodup k'
      rw [hl] at hlinks hnodup ⊢
      have hxs : a ∉ xs := fun hmem =>
        (List.nodup_append.mp hnodup).2.2 a hmem a List.mem_cons_self rfl
      rw [List.erase_append_right _ hxs, List.erase_cons_head]
      exact hlinks.unlink
    · rw [Lists.unlink, links_setLinks_of_ne hk, Function.update_of_ne hk]
      have hout {c : α} (hc : c ∈ lists k') : c ∉ lists k := fun hc' => hk (h.unique hc hc')
      have hframe : Links.on ⟨L.head k', ((L.links k).unlink a).next,
          ((L.links k).unlink a).prev⟩ (lists k') = (L.links k').on (lists k') := by
        refine Links.on_congr rfl (fun c hc => ?_) fun c hc => ?_
        · have hca : c ≠ a := fun heq => hout hc (heq ▸ ha)
          have hne : (L.links k).prev a ≠ some c := fun heq => hout hc (hprev heq)
          simp only [Links.unlink, if_neg hca, if_neg hne]
          rfl
        · have hca : c ≠ a := fun heq => hout hc (heq ▸ ha)
          have hne : (L.links k).next a ≠ some c := fun heq => hout hc (hnext heq)
          simp only [Links.unlink, if_neg hca, if_neg hne]
          rfl
      rw [hframe]
      exact h.links k'
  · intro k' k'' c hc hc'
    exact h.unique (mem_of_mem_update_erase hc) (mem_of_mem_update_erase hc')

end Operations

end Lists

end Asio.Lib.LinkedList
