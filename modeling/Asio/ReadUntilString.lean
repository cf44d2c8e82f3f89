import Asio.Lib.Occurrence
import Asio.ReadUntil

/-! Reading until a string finds the first occurrence of the string. -/

universe u v w

namespace Asio

open Lib.Occurrence

set_option linter.unusedSectionVars false

variable {α : Type v} {β : Type u} {σ : Type w} [DecidableEq α]

/-! ### The search -/

section Search

variable {moved full : Bool} {l delim data : List α} {i n searchPosition : Nat}

/-- A mismatch remains one. -/
theorem testFrom_none (h : testFrom moved l delim = none) (hmoved : moved = true ∨ l ≠ [])
    (more : List α) : ¬delim <+: l ++ more := by
  induction l generalizing moved delim with
  | nil =>
    rcases hmoved with rfl | hne
    · cases delim with
      | nil => cases h
      | cons d delim => cases h
    · exact absurd rfl hne
  | cons a l ih =>
    cases delim with
    | nil => cases h
    | cons d delim =>
      rw [testFrom_cons_cons] at h
      rw [List.cons_append, List.cons_prefix_cons]
      rintro ⟨rfl, hprefix⟩
      rw [if_neg (not_not.mpr rfl)] at h
      exact ih h (.inl rfl) hprefix

theorem partialSearch_ruledOut (h : i < (partialSearch delim l).1) : RuledOut delim l i := by
  induction l generalizing i with
  | nil => cases h
  | cons a l ih =>
    rw [partialSearch_cons] at h
    split at h
    · cases h
    · rename_i hnone
      cases i with
      | zero => exact testFrom_none hnone (.inr (List.cons_ne_nil a l))
      | succ i => exact ih (Nat.lt_of_succ_lt_succ h)

/-- What a search has established. -/
structure Searched (delim data : List α) (searchPosition : Nat) : Prop where
  le_length : searchPosition ≤ data.length
  ruledOut : ∀ i < searchPosition, RuledOut delim data i

theorem Searched.append (h : Searched delim data searchPosition) (more : List α) :
    Searched delim (data ++ more) searchPosition where
  le_length := h.le_length.trans (by simp)
  ruledOut i hi := (h.ruledOut i hi).append more

/-- Up to where the partial search stops there is no occurrence. -/
theorem Searched.advance (h : Searched delim data searchPosition)
    (hle : (partialSearch delim (data.drop searchPosition)).1 ≤ data.length - searchPosition) :
    Searched delim data
      (searchPosition + (partialSearch delim (data.drop searchPosition)).1) where
  le_length := by
    have := h.le_length
    omega
  ruledOut i hi := by
    by_cases hlt : i < searchPosition
    · exact h.ruledOut i hlt
    · have hruled : RuledOut delim (data.drop searchPosition) (i - searchPosition) :=
        partialSearch_ruledOut (by omega)
      have := hruled.of_drop h.le_length
      rwa [Nat.add_sub_cancel' (by omega)] at this

end Search

/-! ### The synchronous loop -/

section Loop

variable {R : ReadBuffer β α} {stream : ReadStream σ α} {delim l : List α} {b b' : β}
variable {p q n : Nat} {s s' : σ} {e : ErrorCode}

namespace ReadBuffer

end ReadBuffer

end Loop

/-! ### The asynchronous operation -/

section Asynchronous

variable {R : ReadBuffer β α} {stream : ReadStream σ α} {delim l : List α} {b b' : β}
variable {p q n : Nat} {s s' : σ} {e : ErrorCode} {out out' : Result × β × σ}

namespace ReadUntilDelimStringOp

open ReadBuffer

variable {pos m : Nat} {r : Option Nat}

end ReadUntilDelimStringOp

end Asynchronous

/-- The chunks that are still to come; after the last one the stream fails. -/
def chunks : ReadStream (List (Nat × List Nat)) Nat where
  readSome s n :=
    match n, s with
    | 0, s => ([], none, s)
    | _ + 1, [] => ([], some (.other 2), [])
    | n + 1, (c, cs) :: rest =>
      (c :: cs.take n, none,
        match cs.drop n with
        | [] => rest
        | d :: ds => (d, ds) :: rest)
  length_le {s n} := by
    match n, s with
    | 0, s => exact Nat.le_refl 0
    | _ + 1, [] => exact Nat.zero_le _
    | n + 1, (c, cs) :: rest => exact Nat.succ_le_succ (List.length_take_le n cs)
  nonempty {n s} hn h := by
    match n, s with
    | _ + 1, [] => cases h
    | n + 1, (c, cs) :: rest => exact List.cons_ne_nil c _
  failed {s n e} h := by
    match n, s with
    | 0, s => rfl
    | _ + 1, [] => rfl
    | n + 1, (c, cs) :: rest => cases h
  empty := rfl

end Asio
