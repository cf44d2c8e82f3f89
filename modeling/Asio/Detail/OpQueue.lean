import Mathlib.Data.List.Nodup
import Asio.Lib.Chain

/-! Queues of operations, which are linked through the operations. -/

universe u v

namespace Asio.Detail

open Lib

/-- Queues whose operations hold one link each. -/
structure OpQueues (κ : Type u) (α : Type v) where
  front : κ → Option α
  back : κ → Option α
  next : α → Option α

namespace OpQueues

variable {κ : Type u} {α : Type v} [DecidableEq κ] [DecidableEq α]

section Operations

variable (Q : OpQueues κ α) (q q' : κ) (a : α)

def setFront (front : Option α) : OpQueues κ α := { Q with front := Function.update Q.front q front }

def setBack (back : Option α) : OpQueues κ α := { Q with back := Function.update Q.back q back }

def setNext (next : Option α) : OpQueues κ α := { Q with next := Function.update Q.next a next }

def pop : OpQueues κ α :=
  match Q.front q with
  | none => Q
  | some tmp =>
    let Q := Q.setFront q (Q.next tmp)
    let Q := if Q.front q = none then Q.setBack q none else Q
    Q.setNext tmp none

def push : OpQueues κ α :=
  let Q := Q.setNext a none
  match Q.back q with
  | some back => (Q.setNext back (some a)).setBack q (some a)
  | none => (Q.setFront q (some a)).setBack q (some a)

/-- All operations of `q'` are pushed. -/
def pushAll : OpQueues κ α :=
  match Q.front q' with
  | none => Q
  | some otherFront =>
    let Q :=
      match Q.back q with
      | some back => Q.setNext back (some otherFront)
      | none => Q.setFront q (some otherFront)
    let Q := Q.setBack q (Q.back q')
    (Q.setFront q' none).setBack q' none

end Operations

/-- Each queue leads through a list of its own. -/
structure Represents (Q : OpQueues κ α) (lists : κ → List α) : Prop where
  chain : ∀ q, Chain Q.next (Q.front q) (lists q)
  back : ∀ q, Q.back q = (lists q).getLast?
  nodup : ∀ q, (lists q).Nodup
  unique : ∀ {q q' a}, a ∈ lists q → a ∈ lists q' → q = q'

section Represents

variable {Q : OpQueues κ α} {lists : κ → List α} {q q' : κ} {a b : α} {l : List α}

omit [DecidableEq κ] [DecidableEq α] in
theorem Represents.front (h : Q.Represents lists) (q : κ) : Q.front q = (lists q).head? :=
  (h.chain q).head_eq

omit [DecidableEq κ] [DecidableEq α] in
theorem represents_empty {next : α → Option α} :
    Represents (⟨fun _ => none, fun _ => none, next⟩ : OpQueues κ α) fun _ => [] where
  chain _ := rfl
  back _ := rfl
  nodup _ := List.nodup_nil
  unique := nofun

/-- The link of an operation that is in no list does not count. -/
theorem chain_update {next : α → Option α} {head : Option α} {link : Option α}
    (h : Chain next head l) (ha : a ∉ l) : Chain (Function.update next a link) head l :=
  h.congr fun _ hb => Function.update_of_ne (ne_of_mem_of_not_mem hb ha) ..

/-- Another chain is linked to the last element. -/
theorem chain_append {next : α → Option α} {head : Option α} {l' : List α} {last : α}
    (h : Chain next head l) (hlast : l.getLast? = some last) (hnodup : l.Nodup)
    (h' : Chain next (some b) l') (hout : last ∉ l') :
    Chain (Function.update next last (some b)) head (l ++ l') := by
  rw [← List.append_nil l] at h
  refine Chain.splice h ?_ (fun _ => rfl) ?_ hnodup
  · rw [linkAfter, hlast, Option.map_some, Option.getD_some, Function.update_self]
    exact chain_update h' hout
  · intro c hc hne
    apply Function.update_of_ne
    rintro rfl
    exact hne hlast

theorem Represents.pop (h : Q.Represents lists) (hl : lists q = a :: l) :
    (Q.pop q).Represents (Function.update lists q l) := by
  have hchain := h.chain q
  rw [hl] at hchain
  obtain ⟨hfront, hchain⟩ := hchain
  have hnodup : (a :: l).Nodup := hl ▸ h.nodup q
  have hmem {q' : κ} {c : α} (hc : c ∈ Function.update lists q l q') : c ∈ lists q' := by
    by_cases hq : q' = q
    · subst hq
      rw [Function.update_self] at hc
      exact hl ▸ List.mem_cons_of_mem a hc
    · rwa [Function.update_of_ne hq] at hc
  have hpop : Q.pop q =
      { front := Function.update Q.front q (Q.next a)
        back := if l = [] then Function.update Q.back q none else Q.back
        next := Function.update Q.next a none } := by
    have hnil : Q.next a = none ↔ l = [] := by rw [hchain.head_eq, List.head?_eq_none_iff]
    simp only [OpQueues.pop, hfront, setFront, setBack, setNext, Function.update_self, hnil]
    split <;> rfl
  rw [hpop]
  constructor
  · intro q'
    by_cases hq : q' = q
    · subst hq
      simp only [Function.update_self]
      exact chain_update hchain (List.nodup_cons.mp hnodup).1
    · simp only [Function.update_of_ne hq]
      refine chain_update (h.chain q') fun ha => hq (h.unique ha ?_)
      rw [hl]
      exact List.mem_cons_self
  · intro q'
    by_cases hq : q' = q
    · subst hq
      have hback := h.back q'
      rw [hl] at hback
      rw [Function.update_self]
      cases l with
      | nil => simp only [if_true, Function.update_self, List.getLast?_nil]
      | cons b l => simpa only [reduceCtorEq, if_false, List.getLast?_cons_cons] using hback
    · rw [Function.update_of_ne hq, ← h.back q']
      split
      · exact Function.update_of_ne hq ..
      · rfl
  · intro q'
    by_cases hq : q' = q
    · subst hq
      rw [Function.update_self]
      exact (List.nodup_cons.mp hnodup).2
    · rw [Function.update_of_ne hq]
      exact h.nodup q'
  · intro q₁ q₂ c hc hc'
    exact h.unique (hmem hc) (hmem hc')

theorem Represents.push (h : Q.Represents lists) (ha : ∀ q, a ∉ lists q) :
    (Q.push q a).Represents (Function.update lists q (lists q ++ [a])) := by
  have hmem {q' : κ} {c : α} (hc : c ∈ Function.update lists q (lists q ++ [a]) q') :
      c ∈ lists q' ∨ q' = q ∧ c = a := by
    by_cases hq : q' = q
    · subst hq
      rwa [Function.update_self, List.mem_append, List.mem_singleton, ← true_and (c = a),
        ← eq_self q'] at hc
    · rw [Function.update_of_ne hq] at hc
      exact Or.inl hc
  have hself : Chain (Function.update Q.next a none) (some a) [a] :=
    ⟨rfl, Function.update_self ..⟩
  have hother (q' : κ) : Chain (Function.update Q.next a none) (Q.front q') (lists q') :=
    chain_update (h.chain q') (ha q')
  constructor
  · intro q'
    rw [OpQueues.push]
    split
    · rename_i last hlast
      have hlast : (lists q).getLast? = some last := (h.back q).symm.trans hlast
      have hne : last ≠ a := ne_of_mem_of_not_mem (List.mem_of_getLast? hlast) (ha q)
      simp only [setBack, setNext]
      by_cases hq : q' = q
      · subst hq
        rw [Function.update_self]
        exact chain_append (hother q') hlast (h.nodup q') hself
          (fun hmem => hne (List.mem_singleton.mp hmem))
      · rw [Function.update_of_ne hq]
        refine chain_update (hother q') fun hmem => hq ?_
        exact h.unique hmem (List.mem_of_getLast? hlast)
    · rename_i hnone
      have hnil : lists q = [] := List.getLast?_eq_none_iff.mp ((h.back q).symm.trans hnone)
      simp only [setBack, setFront, setNext]
      by_cases hq : q' = q
      · subst hq
        rw [Function.update_self, Function.update_self, hnil]
        exact hself
      · rw [Function.update_of_ne hq, Function.update_of_ne hq]
        exact hother q'
  · intro q'
    have hback : (Q.push q a).back = Function.update Q.back q (some a) := by
      rw [OpQueues.push]
      split <;> rfl
    rw [hback]
    by_cases hq : q' = q
    · subst hq
      rw [Function.update_self, Function.update_self, List.getLast?_concat]
    · rw [Function.update_of_ne hq, Function.update_of_ne hq, h.back q']
  · intro q'
    by_cases hq : q' = q
    · subst hq
      rw [Function.update_self, ← List.concat_eq_append]
      exact List.Nodup.concat (ha q') (h.nodup q')
    · rw [Function.update_of_ne hq]
      exact h.nodup q'
  · intro q₁ q₂ c hc hc'
    rcases hmem hc with hc | ⟨hq, heq⟩
    · rcases hmem hc' with hc' | ⟨hq', heq⟩
      · exact h.unique hc hc'
      · exact absurd (heq ▸ hc) (ha q₁)
    · rcases hmem hc' with hc' | ⟨hq', -⟩
      · exact absurd (heq ▸ hc') (ha q₂)
      · rw [hq, hq']

omit [DecidableEq α] in
/-- What `pushAll` leaves in a queue. -/
theorem mem_moved (hne : q ≠ q') {k : κ} {c : α} :
    c ∈ Function.update (Function.update lists q (lists q ++ lists q')) q' [] k ↔
      (k = q ∧ c ∈ lists q') ∨ (k ≠ q' ∧ c ∈ lists k) := by
  by_cases hk' : k = q'
  · subst hk'
    simp [Ne.symm hne]
  · rw [Function.update_of_ne hk']
    by_cases hk : k = q
    · subst hk
      simp [hne, or_comm]
    · simp [hk, hk']

theorem Represents.pushAll (h : Q.Represents lists) (hne : q ≠ q') :
    (Q.pushAll q q').Represents
      (Function.update (Function.update lists q (lists q ++ lists q')) q' []) := by
  have hdisjoint : ∀ c ∈ lists q, ∀ c' ∈ lists q', c ≠ c' := by
    rintro c hc _ hc' rfl
    exact hne (h.unique hc hc')
  constructor
  · intro k
    rw [OpQueues.pushAll]
    split
    · rename_i hnone
      have hnil : lists q' = [] := by rwa [h.front, List.head?_eq_none_iff] at hnone
      rw [hnil, List.append_nil, Function.update_eq_self, ← hnil, Function.update_eq_self]
      exact h.chain k
    · rename_i b hfront
      have hchain : Chain Q.next (some b) (lists q') := hfront ▸ h.chain q'
      by_cases hk' : k = q'
      · subst hk'
        cases hback : Q.back q <;> simp only [setFront, setBack, setNext, Function.update_self] <;>
          rfl
      · rw [Function.update_of_ne hk']
        cases hback : Q.back q with
        | none =>
          have hnil : lists q = [] := by rwa [h.back, List.getLast?_eq_none_iff] at hback
          simp only [setFront, setBack, Function.update_of_ne hk']
          by_cases hk : k = q
          · subst hk
            rw [Function.update_self, Function.update_self, hnil]
            exact hchain
          · rw [Function.update_of_ne hk, Function.update_of_ne hk]
            exact h.chain k
        | some last =>
          rw [h.back] at hback
          have hlast := List.mem_of_getLast? hback
          simp only [setFront, setBack, setNext, Function.update_of_ne hk']
          by_cases hk : k = q
          · subst hk
            rw [Function.update_self]
            exact chain_append (h.chain k) hback (h.nodup k) hchain
              fun hmem => hdisjoint last hlast last hmem rfl
          · rw [Function.update_of_ne hk]
            exact chain_update (h.chain k) fun hmem => hk (h.unique hmem hlast)
  · intro k
    rw [OpQueues.pushAll]
    split
    · rename_i hnone
      have hnil : lists q' = [] := by rwa [h.front, List.head?_eq_none_iff] at hnone
      rw [hnil, List.append_nil, Function.update_eq_self, ← hnil, Function.update_eq_self]
      exact h.back k
    · rename_i b hfront
      have hne' : lists q' ≠ [] := by
        intro hnil
        rw [h.front, hnil] at hfront
        cases hfront
      have hback : (Q.pushAll q q').back =
          Function.update (Function.update Q.back q (Q.back q')) q' none := by
        rw [OpQueues.pushAll, hfront]
        cases Q.back q <;> rfl
      rw [OpQueues.pushAll, hfront] at hback
      rw [hback]
      by_cases hk' : k = q'
      · subst hk'
        rw [Function.update_self, Function.update_self, List.getLast?_nil]
      · rw [Function.update_of_ne hk', Function.update_of_ne hk']
        by_cases hk : k = q
        · subst hk
          rw [Function.update_self, Function.update_self, h.back,
            List.getLast?_append_of_ne_nil _ hne']
        · rw [Function.update_of_ne hk, Function.update_of_ne hk]
          exact h.back k
  · intro k
    by_cases hk' : k = q'
    · subst hk'
      rw [Function.update_self]
      exact List.nodup_nil
    · rw [Function.update_of_ne hk']
      by_cases hk : k = q
      · subst hk
        rw [Function.update_self]
        exact List.nodup_append.mpr ⟨h.nodup k, h.nodup q', hdisjoint⟩
      · rw [Function.update_of_ne hk]
        exact h.nodup k
  · intro k k' c hc hc'
    rw [mem_moved hne] at hc hc'
    rcases hc with ⟨rfl, hc⟩ | ⟨hk, hc⟩
    · rcases hc' with ⟨rfl, -⟩ | ⟨hk', hc'⟩
      · rfl
      · exact absurd (h.unique hc' hc) hk'
    · rcases hc' with ⟨rfl, hc'⟩ | ⟨-, hc'⟩
      · exact absurd (h.unique hc hc') hk
      · exact h.unique hc hc'

end Represents

end OpQueues

end Asio.Detail
