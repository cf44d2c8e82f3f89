import Mathlib.Data.List.Basic
import Mathlib.Algebra.Group.Nat.Defs
import Mathlib.Algebra.GroupWithZero.Nat

/-! Numbers in a base, read digit by digit, with or without a bound. -/

namespace Asio.Lib.Digits

variable (base : Nat) (digit : Char → Option Nat)

/-- The number so far, continued by the digits of the text. -/
def value (w : Nat) (text : List Char) : Nat :=
  text.foldl (fun w c => w * base + (digit c).getD 0) w

/-- `none` as soon as the number is too great or a character is no digit. -/
def bounded (bound : Nat) : Nat → List Char → Option Nat
  | w, [] => if bound < w then none else some w
  | w, c :: text =>
    if bound < w then none
    else (digit c).bind fun d => bounded bound (w * base + d) text

def AllDigits (text : List Char) : Prop := ∀ c ∈ text, (digit c).isSome = true

instance (text : List Char) : Decidable (AllDigits digit text) :=
  List.decidableBAll (fun c => (digit c).isSome = true) text

variable {base : Nat} {digit : Char → Option Nat} {bound w v : Nat} {text text' : List Char}

@[simp] theorem value_nil : value base digit w [] = w := rfl

@[simp] theorem value_cons (c : Char) :
    value base digit w (c :: text) = value base digit (w * base + (digit c).getD 0) text := rfl

theorem bounded_nil : bounded base digit bound w [] = if bound < w then none else some w := rfl

theorem bounded_cons (c : Char) : bounded base digit bound w (c :: text) =
    if bound < w then none
    else (digit c).bind fun d => bounded base digit bound (w * base + d) text := rfl

theorem value_append : value base digit w (text ++ text')
    = value base digit (value base digit w text) text' :=
  List.foldl_append

theorem le_value (hbase : 0 < base) : w ≤ value base digit w text := by
  induction text generalizing w with
  | nil => exact Nat.le_refl w
  | cons c text ih =>
    calc
      w ≤ w * base := Nat.le_mul_of_pos_right w hbase
      _ ≤ w * base + (digit c).getD 0 := Nat.le_add_right _ _
      _ ≤ _ := ih

theorem allDigits_cons {c : Char} :
    AllDigits digit (c :: text) ↔ (digit c).isSome = true ∧ AllDigits digit text :=
  List.forall_mem_cons

theorem not_mem_of_allDigits {c : Char} (hall : AllDigits digit text) (hc : digit c = none) :
    c ∉ text := by
  intro hmem
  have := hall c hmem
  rw [hc] at this
  cases this

theorem bounded_eq_some_iff (hbase : 0 < base) : bounded base digit bound w text = some v ↔
    AllDigits digit text ∧ value base digit w text = v ∧ v ≤ bound := by
  induction text generalizing w with
  | nil =>
    simp only [bounded_nil, value_nil]
    split
    · rename_i hw
      simp only [reduceCtorEq, false_iff, not_and, Nat.not_le]
      rintro _ rfl
      exact hw
    · rename_i hw
      simp only [Option.some.injEq, AllDigits, List.not_mem_nil, false_imp_iff, implies_true,
        true_and]
      constructor
      · rintro rfl
        exact ⟨rfl, Nat.not_lt.mp hw⟩
      · exact fun h => h.1
  | cons c text ih =>
    rw [bounded_cons, allDigits_cons, value_cons]
    split
    · rename_i hw
      simp only [reduceCtorEq, false_iff, not_and, Nat.not_le]
      rintro _ rfl
      calc
        bound < w := hw
        _ ≤ value base digit w (c :: text) := le_value hbase
    · cases hc : digit c with
      | none => simp
      | some d => simp [ih]

/-- Every digit is less than the base. -/
def Small (base : Nat) (digit : Char → Option Nat) : Prop := ∀ c d, digit c = some d → d < base

theorem value_lt (hsmall : Small base digit) (hall : AllDigits digit text) :
    value base digit w text < (w + 1) * base ^ text.length := by
  induction text generalizing w with
  | nil => simp
  | cons c text ih =>
    obtain ⟨hc, hall⟩ := allDigits_cons.mp hall
    obtain ⟨d, hd⟩ := Option.isSome_iff_exists.mp hc
    have hlt := hsmall c d hd
    rw [value_cons, hd, Option.getD_some]
    calc
      value base digit (w * base + d) text < (w * base + d + 1) * base ^ text.length := ih hall
      _ ≤ ((w + 1) * base) * base ^ text.length := by
        apply Nat.mul_le_mul_right
        rw [Nat.add_mul, Nat.one_mul]
        omega
      _ = (w + 1) * base ^ (c :: text).length := by
        rw [List.length_cons, Nat.pow_succ, Nat.mul_assoc, Nat.mul_comm base]

/-- `digit` reads the digits that are written for the numbers less than the base. -/
def Reads (base : Nat) (digit : Char → Option Nat) : Prop :=
  ∀ d, d < base → digit d.digitChar = some d

theorem allDigits_toDigits (hbase : 1 < base) (hreads : Reads base digit) (n : Nat) :
    AllDigits digit (Nat.toDigits base n) := by
  induction n using Nat.strongRecOn with
  | ind n ih =>
    rw [Nat.toDigits_eq_if hbase]
    split
    · rename_i hn
      intro c hc
      obtain rfl := List.mem_singleton.mp hc
      rw [hreads n hn]
      rfl
    · rename_i hn
      intro c hc
      rcases List.mem_append.mp hc with hc | hc
      · exact ih (n / base) (Nat.div_lt_self (by omega) hbase) c hc
      · obtain rfl := List.mem_singleton.mp hc
        rw [hreads _ (Nat.mod_lt n (by omega))]
        rfl

theorem value_toDigits (hbase : 1 < base) (hreads : Reads base digit) (n : Nat) :
    value base digit 0 (Nat.toDigits base n) = n := by
  induction n using Nat.strongRecOn with
  | ind n ih =>
    rw [Nat.toDigits_eq_if hbase]
    split
    · rename_i hn
      simp [hreads n hn]
    · rename_i hn
      rw [value_append, ih (n / base) (Nat.div_lt_self (by omega) hbase), value_cons, value_nil,
        hreads _ (Nat.mod_lt n (by omega)), Option.getD_some]
      exact Nat.div_add_mod' n base

end Asio.Lib.Digits
