import Mathlib.Data.List.Infix

/-! Items that are sent one after the other as a stream of symbols, and read back from it. -/

universe u v

namespace Asio.Lib.Transmission

variable {α : Type u} {β : Type v}

/-- What is written for an item is not empty, and shows where it ends. -/
structure PrefixCode (code : β → List α) : Prop where
  nonempty : ∀ b, code b ≠ []
  unique : ∀ {b c u v}, code b ++ u = code c ++ v → b = c

namespace PrefixCode

variable {code : β → List α} {bs cs : List β}

theorem isPrefix_of_flatMap (h : PrefixCode code) (hp : bs.flatMap code <+: cs.flatMap code) :
    bs <+: cs := by
  induction bs generalizing cs with
  | nil => exact List.nil_prefix
  | cons b bs ih =>
    obtain ⟨v, hv⟩ := hp
    rw [List.flatMap_cons, List.append_assoc] at hv
    cases cs with
    | nil => exact absurd (List.append_eq_nil_iff.mp hv).1 (h.nonempty b)
    | cons c cs =>
      rw [List.flatMap_cons] at hv
      obtain rfl := h.unique hv
      exact List.prefix_cons_inj b |>.mpr (ih ⟨v, List.append_cancel_left hv⟩)

end PrefixCode

/-- What is written for the first item of a queue. -/
def front (code : β → List α) (queue : List β) : List α := queue.head?.elim [] code

/-- The items that have been given to the sender are in its queue, of whose first one `sent`
symbols have been sent, or they have been sent before: the items that the reader has taken from
the stream, what it has read of the next one, and what is under way. -/
structure Carries (code : β → List α) (items queue : List β) (sent : Nat) (taken : List β)
    (part underWay : List α) : Prop where
  sent_le : sent ≤ (front code queue).length
  before : ∃ before, items = before ++ queue ∧
    taken.flatMap code ++ part ++ underWay = before.flatMap code ++ (front code queue).take sent

namespace Carries

variable {code : β → List α} {items queue taken : List β} {sent : Nat} {part underWay : List α}

theorem nothing : Carries code [] [] 0 [] [] [] where
  sent_le := Nat.zero_le _
  before := ⟨[], rfl, rfl⟩

theorem sent_eq_zero (h : Carries code items [] sent taken part underWay) : sent = 0 :=
  Nat.le_zero.mp h.sent_le

theorem push (h : Carries code items queue sent taken part underWay) (b : β) :
    Carries code (items ++ [b]) (queue ++ [b]) sent taken part underWay where
  sent_le := by
    cases queue with
    | nil => exact h.sent_eq_zero ▸ Nat.zero_le _
    | cons c queue => exact h.sent_le
  before := by
    obtain ⟨before, rfl, hbefore⟩ := h.before
    refine ⟨before, List.append_assoc .., hbefore.trans ?_⟩
    cases queue with
    | nil => simp [front, h.sent_eq_zero]
    | cons c queue => rfl

theorem send {k : Nat} (h : Carries code items queue sent taken part underWay)
    (hk : sent + k ≤ (front code queue).length) : Carries code items queue (sent + k) taken part
      (underWay ++ ((front code queue).drop sent).take k) where
  sent_le := hk
  before := by
    obtain ⟨before, hitems, hbefore⟩ := h.before
    refine ⟨before, hitems, ?_⟩
    rw [← List.append_assoc, hbefore, List.take_add, List.append_assoc]

theorem finish {b : β} (h : Carries code items (b :: queue) sent taken part underWay)
    (hsent : (code b).length ≤ sent) : Carries code items queue 0 taken part underWay where
  sent_le := Nat.zero_le _
  before := by
    obtain ⟨before, rfl, hbefore⟩ := h.before
    refine ⟨before ++ [b], by simp, hbefore.trans ?_⟩
    rw [front, List.head?_cons, Option.elim_some, List.take_of_length_le hsent]
    simp

/-- The reader reads more of an item. -/
theorem read {more : List α} (h : Carries code items queue sent taken part (more ++ underWay)) :
    Carries code items queue sent taken (part ++ more) underWay where
  sent_le := h.sent_le
  before := by simpa using h.before

/-- The reader has read a whole item. -/
theorem take {b : β} (h : Carries code items queue sent taken part underWay)
    (hpart : part = code b) : Carries code items queue sent (taken ++ [b]) [] underWay where
  sent_le := h.sent_le
  before := by simpa [hpart] using h.before

theorem isPrefix (h : Carries code items queue sent taken part underWay)
    (hcode : PrefixCode code) : taken <+: items := by
  obtain ⟨before, rfl, hbefore⟩ := h.before
  refine hcode.isPrefix_of_flatMap ?_
  have hfront : (front code queue).take sent <+: queue.flatMap code := by
    cases queue with
    | nil => simp [front]
    | cons b queue =>
      exact (List.take_prefix _ _).trans (by simp [front])
  calc
    taken.flatMap code <+: taken.flatMap code ++ part ++ underWay := by
      rw [List.append_assoc]
      exact List.prefix_append _ _
    _ = before.flatMap code ++ (front code queue).take sent := hbefore
    _ <+: before.flatMap code ++ queue.flatMap code := (List.prefix_append_right_inj _).mpr hfront
    _ = (before ++ queue).flatMap code := List.flatMap_append.symm

/-- When nothing is queued, the items that are not taken are half read or under way. -/
theorem exists_flatMap_eq (h : Carries code items [] sent taken part underWay)
    (hcode : PrefixCode code) :
    ∃ more, items = taken ++ more ∧ part ++ underWay = more.flatMap code := by
  obtain ⟨more, rfl⟩ := h.isPrefix hcode
  obtain ⟨before, hitems, hbefore⟩ := h.before
  rw [List.append_nil] at hitems
  subst hitems
  rw [List.flatMap_append, List.append_assoc, List.append_assoc] at hbefore
  exact ⟨more, rfl, by simpa [front] using hbefore⟩

end Carries

end Asio.Lib.Transmission
