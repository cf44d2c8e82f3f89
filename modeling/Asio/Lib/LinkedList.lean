import Mathlib.Data.List.Basic
import Mathlib.Logic.Function.Basic
import Asio.Lib.Chain

/-! Doubly linked lists threaded through their elements, and the lists that they represent. -/

universe u

namespace Asio.Lib.LinkedList

variable {α : Type u}

structure Links (α : Type u) where
  head : Option α
  next : α → Option α
  prev : α → Option α

@[ext] theorem Links.ext {L L' : Links α} (head : L.head = L'.head)
    (next : ∀ a, L.next a = L'.next a) (prev : ∀ a, L.prev a = L'.prev a) : L = L' := by
  cases L
  cases L'
  simp only [Links.mk.injEq]
  exact ⟨head, funext next, funext prev⟩

/-- The links lead through the elements of `l` in order, both ways, and through nothing else. -/
structure Links.Represents (L : Links α) (l : List α) : Prop where
  nodup : l.Nodup
  head : L.head = l.head?
  next : ∀ xs a ys, l = xs ++ a :: ys → L.next a = ys.head?
  prev : ∀ xs a ys, l = xs ++ a :: ys → L.prev a = xs.getLast?
  outside : ∀ a, a ∉ l → L.next a = none ∧ L.prev a = none

namespace Links.Represents

variable {L : Links α} {l xs ys : List α} {a b : α}

/-- An element is in the list when something links to it. -/
theorem mem_iff (h : Links.Represents L l) : a ∈ l ↔ L.prev a ≠ none ∨ L.head = some a := by
  constructor
  · intro ha
    obtain ⟨xs, ys, rfl⟩ := List.append_of_mem ha
    rw [h.prev xs a ys rfl, h.head]
    cases xs with
    | nil => exact .inr rfl
    | cons x xs => exact .inl (by simp [List.getLast?_cons])
  · intro ha
    by_contra hn
    rcases ha with hp | hh
    · exact hp (h.outside a hn).2
    · rw [h.head] at hh
      exact hn (List.mem_of_mem_head? hh)

theorem next_mem (h : Links.Represents L l) (hb : L.next a = some b) : b ∈ l := by
  by_cases ha : a ∈ l
  · obtain ⟨xs, ys, rfl⟩ := List.append_of_mem ha
    rw [h.next xs a ys rfl] at hb
    exact List.mem_append_right _ (List.mem_cons_of_mem _ (List.mem_of_mem_head? hb))
  · rw [(h.outside a ha).1] at hb
    cases hb

/-- `next` and `prev` are inverse to each other. -/
theorem next_eq_iff (h : Links.Represents L l) : L.next a = some b ↔ L.prev b = some a := by
  constructor
  · intro hb
    by_cases ha : a ∈ l
    · obtain ⟨xs, ys, rfl⟩ := List.append_of_mem ha
      rw [h.next xs a ys rfl] at hb
      obtain ⟨zs, rfl⟩ := List.head?_eq_some_iff.mp hb
      rw [h.prev (xs ++ [a]) b zs (by simp)]
      simp
    · rw [(h.outside a ha).1] at hb
      cases hb
  · intro ha
    by_cases hb : b ∈ l
    · obtain ⟨xs, ys, rfl⟩ := List.append_of_mem hb
      rw [h.prev xs b ys rfl] at ha
      obtain ⟨zs, rfl⟩ := List.getLast?_eq_some_iff.mp ha
      rw [h.next zs a (b :: ys) (by simp)]
      rfl
    · rw [(h.outside b hb).2] at ha
      cases ha

theorem prev_mem (h : Links.Represents L l) (hb : L.prev a = some b) : b ∈ l := by
  by_contra hout
  rw [← h.next_eq_iff, (h.outside b hout).1] at hb
  cases hb

theorem chain (h : Links.Represents L l) : Chain L.next L.head l := by
  have rest (xs ys : List α) (hl : l = xs ++ ys) : Chain L.next ys.head? ys := by
    induction ys generalizing xs with
    | nil => rfl
    | cons a ys ih =>
      refine ⟨rfl, ?_⟩
      rw [h.next xs a ys hl]
      exact ih (xs ++ [a]) (by simp [hl])
  rw [h.head]
  exact rest [] l rfl

end Links.Represents

theorem represents_nil : Links.Represents (⟨none, fun _ => none, fun _ => none⟩ : Links α) [] where
  nodup := List.nodup_nil
  head := rfl
  next xs a ys h := by simp at h
  prev xs a ys h := by simp at h
  outside _ _ := ⟨rfl, rfl⟩

section Operations

variable [DecidableEq α]

def Links.setNext (L : Links α) (a : α) (b : Option α) : Links α :=
  { L with next := Function.update L.next a b }

def Links.setPrev (L : Links α) (a : α) (b : Option α) : Links α :=
  { L with prev := Function.update L.prev a b }

def Links.pushFront (L : Links α) (a : α) : Links α :=
  let linked := (L.setNext a L.head).setPrev a none
  match L.head with
  | some b => { linked.setPrev b (some a) with head := some a }
  | none => { linked with head := some a }

/-- Close the gap that `a` leaves between its neighbours. -/
def Links.unlink (L : Links α) (a : α) : Links α where
  head := if L.head = some a then L.next a else L.head
  next b := if b = a then none else if L.prev a = some b then L.next a else L.next b
  prev b := if b = a then none else if L.next a = some b then L.prev a else L.prev b

/-- Put `b` where `a` was. -/
def Links.replace (L : Links α) (a b : α) : Links α where
  head := if L.head = some a then some b else L.head
  next c := if c = a then none else if c = b then L.next a
    else if L.prev a = some c then some b else L.next c
  prev c := if c = a then none else if c = b then L.prev a
    else if L.next a = some c then some b else L.prev c

variable {L : Links α} {l xs ys : List α} {a b : α}

@[simp] theorem Links.pushFront_head (L : Links α) (a : α) : (L.pushFront a).head = some a := by
  unfold Links.pushFront
  split <;> rfl

theorem Links.pushFront_next (L : Links α) (a c : α) :
    (L.pushFront a).next c = if c = a then L.head else L.next c := by
  unfold Links.pushFront
  split <;> simp [Links.setNext, Links.setPrev, Function.update_apply, *]

theorem Links.pushFront_prev (L : Links α) (a c : α) : (L.pushFront a).prev c =
    if L.head = some c then some a else if c = a then none else L.prev c := by
  unfold Links.pushFront
  split <;> rename_i hhead <;>
    simp [Links.setNext, Links.setPrev, Function.update_apply, hhead, eq_comm]

theorem Links.Represents.pushFront (h : Links.Represents L l) (ha : a ∉ l) :
    Links.Represents (L.pushFront a) (a :: l) := by
  have hnext (c : α) := L.pushFront_next a c
  have hprev (c : α) := L.pushFront_prev a c
  simp only [h.head] at hnext hprev
  constructor
  · exact List.nodup_cons.mpr ⟨ha, h.nodup⟩
  · exact L.pushFront_head a
  · intro xs c ys hl
    rw [hnext]
    cases xs with
    | nil =>
      obtain ⟨rfl, rfl⟩ := List.cons.inj hl
      rw [if_pos rfl]
    | cons x xs =>
      simp only [List.cons_append, List.cons.injEq] at hl
      obtain ⟨rfl, rfl⟩ := hl
      have hca : c ≠ a := by
        rintro rfl
        simp at ha
      rw [if_neg hca, h.next xs c ys rfl]
  · intro xs c ys hl
    rw [hprev]
    cases xs with
    | nil =>
      obtain ⟨rfl, rfl⟩ := List.cons.inj hl
      rw [if_neg, if_pos rfl]
      · rfl
      · exact fun he => ha (List.mem_of_mem_head? he)
    | cons x xs =>
      simp only [List.cons_append, List.cons.injEq] at hl
      obtain ⟨rfl, rfl⟩ := hl
      have hca : c ≠ a := by
        rintro rfl
        simp at ha
      cases xs with
      | nil => simp
      | cons y xs =>
        have hyc : y ≠ c := by
          rintro rfl
          simpa using h.nodup
        rw [List.cons_append, List.head?_cons, if_neg (by simpa using hyc), if_neg hca,
          h.prev (y :: xs) c ys rfl, List.getLast?_cons_cons]
  · intro c hc
    simp only [List.mem_cons, not_or] at hc
    have hh : l.head? ≠ some c := fun he => hc.2 (List.mem_of_mem_head? he)
    rw [hnext, hprev, if_neg hc.1, if_neg hh, if_neg hc.1]
    exact h.outside c hc.2

theorem Links.Represents.unlink (h : Links.Represents L (xs ++ a :: ys)) :
    Links.Represents (L.unlink a) (xs ++ ys) := by
  have hn := h.nodup
  have hna := h.next xs a ys rfl
  have hpa := h.prev xs a ys rfl
  have hax : a ∉ xs := by grind
  have hay : a ∉ ys := by grind
  have hxy : ∀ c, ys.head? = some c → c ∉ xs := by
    intro c hc
    have := List.mem_of_mem_head? hc
    grind
  constructor
  · grind
  · simp only [Links.unlink, h.head, hna]
    cases xs with
    | nil => simp
    | cons x xs =>
      have hxa : x ≠ a := by grind
      simp [hxa]
  · intro us b vs hl
    have hba : b ≠ a := by grind
    simp only [Links.unlink, if_neg hba, hna, hpa]
    rcases List.append_eq_append_iff.mp hl with ⟨ws, rfl, rfl⟩ | ⟨ws, rfl, hw⟩
    · rw [if_neg (by grind), h.next (xs ++ a :: ws) b vs (by simp)]
    · cases ws with
      | nil =>
        have hys : ys = b :: vs := hw.symm
        subst hys
        rw [if_neg (by grind), h.next (us ++ [a]) b vs (by simp)]
      | cons w ws =>
        simp only [List.cons_append, List.cons.injEq] at hw
        obtain ⟨rfl, rfl⟩ := hw
        cases ws with
        | nil => simp
        | cons w ws =>
          rw [if_neg (by grind), h.next us b (w :: ws ++ a :: ys) (by simp)]
          rfl
  · intro us b vs hl
    have hba : b ≠ a := by grind
    simp only [Links.unlink, if_neg hba, hna, hpa]
    rcases List.append_eq_append_iff.mp hl with ⟨ws, rfl, rfl⟩ | ⟨ws, rfl, hw⟩
    · cases ws with
      | nil => simp
      | cons w ws =>
        rw [if_neg (by grind), h.prev (xs ++ a :: w :: ws) b vs (by simp)]
        simp [List.getLast?_append, List.getLast?_cons]
    · cases ws with
      | nil =>
        have hys : ys = b :: vs := hw.symm
        subst hys
        simp
      | cons w ws =>
        simp only [List.cons_append, List.cons.injEq] at hw
        obtain ⟨rfl, rfl⟩ := hw
        rw [if_neg (fun he => hxy b he (by simp)), h.prev us b (ws ++ a :: ys) (by simp)]
  · intro b hb
    by_cases hba : b = a
    · simp [Links.unlink, hba]
    · have hb' : b ∉ xs ++ a :: ys := by grind
      simp only [Links.unlink, if_neg hba, hna, hpa]
      rw [if_neg (by grind), if_neg]
      · exact h.outside b hb'
      · exact fun he => hb (List.mem_append_right _ (List.mem_of_mem_head? he))

theorem Links.Represents.replace (h : Links.Represents L (xs ++ a :: ys)) (hb : b ∉ xs ++ a :: ys) :
    Links.Represents (L.replace a b) (xs ++ b :: ys) := by
  have hn := h.nodup
  have hna := h.next xs a ys rfl
  have hpa := h.prev xs a ys rfl
  have hax : a ∉ xs := by grind
  have hay : a ∉ ys := by grind
  have hba : b ≠ a := by grind
  have hxy : ∀ c, ys.head? = some c → c ∉ xs := by
    intro c hc
    have := List.mem_of_mem_head? hc
    grind
  constructor
  · grind
  · simp only [Links.replace, h.head]
    cases xs with
    | nil => simp
    | cons x xs =>
      have hxa : x ≠ a := by grind
      simp [hxa]
  · intro us c vs hl
    have hc : c ∈ xs ++ b :: ys := by simp [hl]
    have hca : c ≠ a := by grind
    simp only [Links.replace, if_neg hca, hna, hpa]
    rcases List.append_eq_append_iff.mp hl with ⟨ws, rfl, hw⟩ | ⟨ws, rfl, hw⟩
    · cases ws with
      | nil =>
        obtain ⟨rfl, rfl⟩ := List.cons.inj hw
        rw [if_pos rfl]
      | cons w ws =>
        simp only [List.cons_append, List.cons.injEq] at hw
        obtain ⟨rfl, rfl⟩ := hw
        rw [if_neg (by grind), if_neg (by grind), h.next (xs ++ a :: ws) c vs (by simp)]
    · cases ws with
      | nil =>
        obtain ⟨rfl, rfl⟩ := List.cons.inj hw
        rw [if_pos rfl]
      | cons w ws =>
        simp only [List.cons_append, List.cons.injEq] at hw
        obtain ⟨rfl, rfl⟩ := hw
        rw [if_neg (by grind)]
        cases ws with
        | nil => simp
        | cons w ws =>
          rw [if_neg (by grind), h.next us c (w :: ws ++ a :: ys) (by simp)]
          rfl
  · intro us c vs hl
    have hc : c ∈ xs ++ b :: ys := by simp [hl]
    have hca : c ≠ a := by grind
    simp only [Links.replace, if_neg hca, hna, hpa]
    rcases List.append_eq_append_iff.mp hl with ⟨ws, rfl, hw⟩ | ⟨ws, rfl, hw⟩
    · cases ws with
      | nil =>
        obtain ⟨rfl, rfl⟩ := List.cons.inj hw
        simp
      | cons w ws =>
        simp only [List.cons_append, List.cons.injEq] at hw
        obtain ⟨rfl, rfl⟩ := hw
        rw [if_neg (by grind)]
        cases ws with
        | nil => simp
        | cons w ws =>
          rw [if_neg (by grind), h.prev (xs ++ a :: w :: ws) c vs (by simp)]
          simp [List.getLast?_append, List.getLast?_cons]
    · cases ws with
      | nil =>
        obtain ⟨rfl, rfl⟩ := List.cons.inj hw
        simp
      | cons w ws =>
        simp only [List.cons_append, List.cons.injEq] at hw
        obtain ⟨rfl, rfl⟩ := hw
        rw [if_neg (by grind), if_neg (fun he => hxy c he (by simp)),
          h.prev us c (ws ++ a :: ys) (by simp)]
  · intro c hc
    by_cases hca : c = a
    · simp [Links.replace, hca]
    · have hc' : c ∉ xs ++ a :: ys := by grind
      have hcb : c ≠ b := by grind
      simp only [Links.replace, if_neg hca, if_neg hcb, hna, hpa]
      rw [if_neg (by grind), if_neg]
      · exact h.outside c hc'
      · exact fun he => hc (by simp [List.mem_of_mem_head? he])

end Operations

end Asio.Lib.LinkedList
