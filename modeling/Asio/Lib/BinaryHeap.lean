import Mathlib.Order.Lattice
import Mathlib.Order.BoundedOrder.Basic
import Mathlib.Order.Nat
import Mathlib.Logic.Equiv.Basic

/-! The order of a binary heap, on the function that gives the key at each position.  Positions
outside the heap hold the greatest key. -/

universe u

namespace Asio.Lib.BinaryHeap

open Equiv

variable {K : Type u} [LinearOrder K]

def parent (i : Nat) : Nat := (i - 1) / 2

theorem parent_lt {i : Nat} (h : 0 < i) : parent i < i := by
  unfold parent
  omega

theorem parent_ne {i : Nat} (h : 0 < i) : parent i ≠ i :=
  (parent_lt h).ne

theorem parent_eq_iff {c i : Nat} (h : 0 < c) : parent c = i ↔ c = i * 2 + 1 ∨ c = i * 2 + 2 := by
  unfold parent
  omega

def Ordered (f : Nat → K) : Prop := ∀ c, 0 < c → f (parent c) ≤ f c

/-- The children of `i` are at or above its parent. -/
def Bridged (f : Nat → K) (i : Nat) : Prop :=
  0 < i → ∀ c, 0 < c → parent c = i → f (parent i) ≤ f c

/-- Only the edges that meet `i` may be out of order. -/
structure HoleOrder (f : Nat → K) (i : Nat) : Prop where
  away : ∀ c, 0 < c → c ≠ i → parent c ≠ i → f (parent c) ≤ f c
  bridged : Bridged f i

/-- Only the edge above `i` may be out of order. -/
structure UpOrder (f : Nat → K) (i : Nat) : Prop where
  away : ∀ c, 0 < c → c ≠ i → f (parent c) ≤ f c
  bridged : Bridged f i

/-- Only the edges below `i` may be out of order. -/
structure DownOrder (f : Nat → K) (i : Nat) : Prop where
  away : ∀ c, 0 < c → parent c ≠ i → f (parent c) ≤ f c
  bridged : Bridged f i

section Order

variable {f : Nat → K} {i m : Nat}

theorem Ordered.root_le (h : Ordered f) (i : Nat) : f 0 ≤ f i := by
  induction i using Nat.strongRecOn with
  | ind i ih =>
    rcases Nat.eq_zero_or_pos i with rfl | hi
    · exact le_rfl
    · exact (ih _ (parent_lt hi)).trans (h i hi)

theorem UpOrder.finish (h : UpOrder f i) (hi : 0 < i → f (parent i) ≤ f i) : Ordered f := by
  intro c hc
  by_cases hci : c = i
  · subst hci
    exact hi hc
  · exact h.away c hc hci

theorem DownOrder.finish (h : DownOrder f i) (hi : ∀ c, 0 < c → parent c = i → f i ≤ f c) :
    Ordered f := by
  intro c hc
  by_cases hp : parent c = i
  · rw [hp]
    exact hi c hc hp
  · exact h.away c hc hp

theorem HoleOrder.up (h : HoleOrder f i) (hi : 0 < i) (hlt : f i < f (parent i)) :
    UpOrder f i where
  away c hc hci := by
    by_cases hp : parent c = i
    · rw [hp]
      exact hlt.le.trans (h.bridged hi c hc hp)
    · exact h.away c hc hci hp
  bridged := h.bridged

theorem HoleOrder.down (h : HoleOrder f i) (hi : 0 < i → f (parent i) ≤ f i) :
    DownOrder f i where
  away c hc hp := by
    by_cases hci : c = i
    · subst hci
      exact hi hc
    · exact h.away c hc hci hp
  bridged := h.bridged

/-- One step of moving up: the edge out of order is now the one above the parent. -/
theorem UpOrder.swap (h : UpOrder f i) (hi : 0 < i) (hlt : f i < f (parent i)) :
    UpOrder (f ∘ swap i (parent i)) (parent i) := by
  have hne := parent_ne hi
  constructor
  · intro c hc hcp
    simp only [Function.comp_apply]
    by_cases hci : c = i
    · subst hci
      rw [swap_apply_left, swap_apply_right]
      exact hlt.le
    · rw [swap_apply_of_ne_of_ne hci hcp]
      by_cases hpi : parent c = i
      · rw [hpi, swap_apply_left]
        exact h.bridged hi c hc hpi
      · by_cases hpp : parent c = parent i
        · rw [hpp, swap_apply_right]
          exact hlt.le.trans (hpp ▸ h.away c hc hci)
        · rw [swap_apply_of_ne_of_ne hpi hpp]
          exact h.away c hc hci
  · intro hp c hc hcp
    have hpp : parent (parent i) ≠ i := ((parent_lt hp).trans (parent_lt hi)).ne
    simp only [Function.comp_apply]
    rw [swap_apply_of_ne_of_ne hpp (parent_ne hp)]
    have hup : f (parent (parent i)) ≤ f (parent i) := h.away _ hp hne
    by_cases hci : c = i
    · rw [hci, swap_apply_left]
      exact hup
    · have hcp' : c ≠ parent i := fun he => parent_ne hc (hcp.trans he.symm)
      rw [swap_apply_of_ne_of_ne hci hcp']
      exact hup.trans (hcp ▸ h.away c hc hci)

/-- One step of moving down, to a least child `m`. -/
theorem DownOrder.swap (h : DownOrder f i) (hm : 0 < m) (hmi : parent m = i)
    (hmin : ∀ c, 0 < c → parent c = i → f m ≤ f c) (hle : f m ≤ f i) :
    DownOrder (f ∘ swap i m) m := by
  have him : i < m := hmi ▸ parent_lt hm
  constructor
  · intro c hc hpm
    simp only [Function.comp_apply]
    by_cases hci : c = i
    · subst hci
      have hp := parent_lt hc
      rw [swap_apply_left, swap_apply_of_ne_of_ne hp.ne (hp.trans him).ne]
      exact h.bridged hc m hm hmi
    · by_cases hpi : parent c = i
      · rw [hpi, swap_apply_left]
        by_cases hcm : c = m
        · rw [hcm, swap_apply_right]
          exact hle
        · rw [swap_apply_of_ne_of_ne hci hcm]
          exact hmin c hc hpi
      · have hcm : c ≠ m := fun he => hpi (he ▸ hmi)
        rw [swap_apply_of_ne_of_ne hpi hpm, swap_apply_of_ne_of_ne hci hcm]
        exact h.away c hc hpi
  · intro _ c hc hcm
    have hmc : m < c := hcm ▸ parent_lt hc
    simp only [Function.comp_apply]
    rw [hmi, swap_apply_left, swap_apply_of_ne_of_ne (him.trans hmc).ne' hmc.ne']
    exact hcm ▸ h.away c hc (hcm ▸ him.ne')

/-- Dropping the last position `n`. -/
theorem Ordered.truncate [OrderTop K] (h : Ordered f) {n : Nat} (hlast : ∀ k, n < k → f k = ⊤) :
    Ordered fun k => if k = n then ⊤ else f k := by
  intro c hc
  simp only
  split
  · rename_i hp
    split
    · exact le_rfl
    · rw [hlast c (hp ▸ parent_lt hc)]
  · split
    · exact le_top
    · exact h c hc

/-- Dropping the last position `n` after its key has been moved to `i`. -/
theorem Ordered.remove [OrderTop K] (h : Ordered f) (i : Nat) {n : Nat}
    (hlast : ∀ k, n < k → f k = ⊤) :
    HoleOrder (fun k => if k = n then ⊤ else f (Equiv.swap i n k)) i := by
  have ht := h.truncate hlast
  have hval : ∀ k, k ≠ i →
      (if k = n then ⊤ else f (Equiv.swap i n k)) = if k = n then ⊤ else f k := by
    intro k hk
    split
    · rfl
    · rename_i hkn
      rw [swap_apply_of_ne_of_ne hk hkn]
  constructor
  · intro c hc hci hpi
    rw [hval c hci, hval _ hpi]
    exact ht c hc
  · intro hi c hc hpi
    simp only
    rw [hval _ (parent_lt hi).ne, hval c (hpi ▸ parent_lt hc).ne']
    exact (ht i hi).trans (hpi ▸ ht c hc)

end Order

end Asio.Lib.BinaryHeap
