import Mathlib.Data.Rat.Floor
import Mathlib.Tactic.FieldSimp
import Mathlib.Tactic.Ring
import Mathlib.Tactic.Positivity

/-! Times of a clock, the difference between them and its conversion to other units. -/

namespace Asio.Detail.ChronoTimeTraits

/-! ### Integers of 64 bits -/

def int64Min : Int := -9223372036854775808

def int64Max : Int := 9223372036854775807

def InInt64 (n : Int) : Prop := int64Min ≤ n ∧ n ≤ int64Max

instance (n : Int) : Decidable (InInt64 n) := inferInstanceAs (Decidable (_ ∧ _))

/-- A product that is not representable is undefined. -/
def mul (a b : Int) : Option Int := if InInt64 (a * b) then some (a * b) else none

/-! ### Differences of times -/

/-- Times are the ticks since the epoch. -/
def add (t d : Int) : Int :=
  if 0 ≤ t then
    if int64Max - t < d then int64Max else t + d
  else
    if -(t - int64Min) > d then int64Min else t + d

def subtract (t1 t2 : Int) : Int :=
  if 0 ≤ t1 then
    if 0 ≤ t2 then
      t1 - t2
    else if t2 = int64Min then
      int64Max
    else if int64Max - t1 < 0 - t2 then
      int64Max
    else
      t1 - t2
  else
    if t2 < 0 then
      t1 - t2
    else if t1 = int64Min then
      int64Min
    else if int64Max - t2 < 0 - t1 then
      int64Min
    else
      -(t2 - t1)

def clamp (n : Int) : Int := max int64Min (min int64Max n)

theorem inInt64_clamp (n : Int) : InInt64 (clamp n) := by
  simp only [InInt64, clamp, int64Min, int64Max]
  omega

theorem add_eq_clamp {t d : Int} (ht : InInt64 t) (hd : InInt64 d) : add t d = clamp (t + d) := by
  simp only [InInt64, int64Min, int64Max] at ht hd
  simp only [add, clamp, int64Min, int64Max]
  split_ifs <;> omega

theorem subtract_eq_clamp {t1 t2 : Int} (h1 : InInt64 t1) (h2 : InInt64 t2) :
    subtract t1 t2 = clamp (t1 - t2) := by
  simp only [InInt64, int64Min, int64Max] at h1 h2
  simp only [subtract, clamp, int64Min, int64Max]
  split_ifs <;> omega

/-! ### Representable intermediate results -/

/-- A sum that is not representable is undefined. -/
def plus (a b : Int) : Option Int := if InInt64 (a + b) then some (a + b) else none

def minus (a b : Int) : Option Int := if InInt64 (a - b) then some (a - b) else none

/-- `add`, with each of its expressions as it is computed. -/
def checkedAdd (t d : Int) : Option Int :=
  if 0 ≤ t then
    (minus int64Max t).bind fun room =>
    if room < d then some int64Max else plus t d
  else
    (minus t int64Min).bind fun room =>
    (minus 0 room).bind fun lowest =>
    if lowest > d then some int64Min else plus t d

/-- `subtract`, with each of its expressions as it is computed. -/
def checkedSubtract (t1 t2 : Int) : Option Int :=
  if 0 ≤ t1 then
    if 0 ≤ t2 then
      minus t1 t2
    else if t2 = int64Min then
      some int64Max
    else
      (minus int64Max t1).bind fun room =>
      (minus 0 t2).bind fun distance =>
      if room < distance then some int64Max else minus t1 t2
  else
    if t2 < 0 then
      minus t1 t2
    else if t1 = int64Min then
      some int64Min
    else
      (minus int64Max t2).bind fun room =>
      (minus 0 t1).bind fun distance =>
      if room < distance then some int64Min else (minus t2 t1).bind (minus 0)

section Representable

variable {a b t d t1 t2 : Int}

theorem plus_eq (h : InInt64 (a + b)) : plus a b = some (a + b) := if_pos h

theorem minus_eq (h : InInt64 (a - b)) : minus a b = some (a - b) := if_pos h

/-- The distances to the two ends of the range, each taken on its own side of the epoch. -/
theorem minus_max (h : InInt64 t) (hpos : 0 ≤ t) : minus int64Max t = some (int64Max - t) := by
  apply minus_eq
  simp only [InInt64, int64Min, int64Max] at h ⊢
  omega

theorem minus_min (h : InInt64 t) (hneg : t < 0) : minus t int64Min = some (t - int64Min) := by
  apply minus_eq
  simp only [InInt64, int64Min, int64Max] at h ⊢
  omega

theorem minus_zero (h : InInt64 t) (hmin : t ≠ int64Min) : minus 0 t = some (0 - t) := by
  apply minus_eq
  simp only [InInt64, int64Min, int64Max] at h hmin ⊢
  omega

theorem checkedAdd_eq (ht : InInt64 t) (hd : InInt64 d) : checkedAdd t d = some (add t d) := by
  unfold checkedAdd add
  by_cases hpos : 0 ≤ t
  · rw [if_pos hpos, if_pos hpos, minus_max ht hpos, Option.bind_some]
    split_ifs with hfull
    · rfl
    · apply plus_eq
      simp only [InInt64, int64Min, int64Max] at *
      omega
  · have hneg : t < 0 := not_le.mp hpos
    have hroom : InInt64 (t - int64Min) ∧ t - int64Min ≠ int64Min := by
      simp only [InInt64, int64Min, int64Max] at *
      omega
    rw [if_neg hpos, if_neg hpos, minus_min ht hneg, Option.bind_some, minus_zero hroom.1 hroom.2,
      Option.bind_some, zero_sub]
    split_ifs with hfull
    · rfl
    · apply plus_eq
      simp only [InInt64, int64Min, int64Max] at *
      omega

theorem checkedSubtract_eq (h1 : InInt64 t1) (h2 : InInt64 t2) :
    checkedSubtract t1 t2 = some (subtract t1 t2) := by
  unfold checkedSubtract subtract
  by_cases hpos1 : 0 ≤ t1
  · rw [if_pos hpos1, if_pos hpos1]
    by_cases hpos2 : 0 ≤ t2
    · rw [if_pos hpos2, if_pos hpos2]
      apply minus_eq
      simp only [InInt64, int64Min, int64Max] at *
      omega
    · rw [if_neg hpos2, if_neg hpos2]
      by_cases hmin : t2 = int64Min
      · rw [if_pos hmin, if_pos hmin]
      · rw [if_neg hmin, if_neg hmin, minus_max h1 hpos1, Option.bind_some, minus_zero h2 hmin,
          Option.bind_some]
        split_ifs with hfull
        · rfl
        · apply minus_eq
          simp only [InInt64, int64Min, int64Max] at *
          omega
  · rw [if_neg hpos1, if_neg hpos1]
    by_cases hneg2 : t2 < 0
    · rw [if_pos hneg2, if_pos hneg2]
      apply minus_eq
      simp only [InInt64, int64Min, int64Max] at *
      omega
    · rw [if_neg hneg2, if_neg hneg2]
      by_cases hmin : t1 = int64Min
      · rw [if_pos hmin, if_pos hmin]
      · rw [if_neg hmin, if_neg hmin, minus_max h2 (not_lt.mp hneg2), Option.bind_some,
          minus_zero h1 hmin, Option.bind_some]
        split_ifs with hfull
        · rfl
        · have hdifference : InInt64 (t2 - t1) ∧ t2 - t1 ≠ int64Min := by
            simp only [InInt64, int64Min, int64Max] at *
            omega
          rw [minus_eq hdifference.1, Option.bind_some,
            minus_zero hdifference.1 hdifference.2, zero_sub]

/-- Both operations saturate, and nothing that they compute on the way overflows. -/
theorem saturating (ha : InInt64 a) (hb : InInt64 b) :
    checkedAdd a b = some (clamp (a + b)) ∧ checkedSubtract a b = some (clamp (a - b)) := by
  rw [checkedAdd_eq ha hb, checkedSubtract_eq ha hb, add_eq_clamp ha hb, subtract_eq_clamp ha hb]
  exact ⟨rfl, rfl⟩

theorem saturating_corners :
    checkedAdd int64Min (-1) = some int64Min ∧ checkedSubtract int64Min 1 = some int64Min := by
  have h := saturating (a := int64Min) (b := -1) (by decide) (by decide)
  have h' := saturating (a := int64Min) (b := 1) (by decide) (by decide)
  exact ⟨h.1.trans (by decide), h'.2.trans (by decide)⟩

end Representable

/-! ### Conversion -/

/-- `std::ratio`, in lowest terms. -/
structure Period where
  num : Nat
  den : Nat
  num_pos : 0 < num
  den_pos : 0 < den
  coprime : num.Coprime den
  num_le : (num : Int) ≤ int64Max
  den_le : (den : Int) ≤ int64Max

def gcd (v1 v2 : Nat) : Nat := if v2 = 0 then v1 else gcd v2 (v1 % v2)
termination_by v2
decreasing_by exact Nat.mod_lt v1 (Nat.pos_of_ne_zero ‹_›)

theorem gcd_eq (v1 v2 : Nat) : gcd v1 v2 = Nat.gcd v1 v2 := by
  induction v1, v2 using gcd.induct with
  | case1 v1 =>
    rw [gcd]
    simp
  | case2 v1 v2 h ih =>
    rw [gcd, if_neg h, ih, Nat.gcd_comm v1 v2, Nat.gcd_rec v2 v1, Nat.gcd_comm]

/-- Units of a second divided by `den`. -/
inductive TimeUnit
  | milliseconds | microseconds
  deriving DecidableEq

def TimeUnit.den : TimeUnit → Nat
  | .milliseconds => 1000
  | .microseconds => 1000000

/-- `duration_cast<Num, Den>` -/
def durationCast (p : Period) (Num Den : Nat) (ticks : Int) : Option Int :=
  let num1 := p.num / gcd p.num Num
  let num2 := Num / gcd p.num Num
  let den1 := p.den / gcd p.den Den
  let den2 := Den / gcd p.den Den
  (mul num1 den2).bind fun num =>
  (mul num2 den1).bind fun den =>
    if num = 1 ∧ den = 1 then
      some ticks
    else if num ≠ 1 ∧ den = 1 then
      mul ticks num
    else if num = 1 ∧ p.den ≠ 1 then
      some (ticks.tdiv den)
    else
      (mul ticks num).map fun product => product.tdiv den

/-- `total_milliseconds`, `total_microseconds` -/
def total (u : TimeUnit) (p : Period) (ticks : Int) : Option Int := durationCast p 1 u.den ticks

/-- The factor that the ticks are multiplied with. -/
def factor (u : TimeUnit) (p : Period) : Nat := p.num * (u.den / Nat.gcd p.den u.den)

def divisor (u : TimeUnit) (p : Period) : Nat := p.den / Nat.gcd p.den u.den

/-- The duration in the unit, exactly. -/
def exact (u : TimeUnit) (p : Period) (ticks : Int) : ℚ :=
  ticks * (p.num / p.den) * u.den

section Conversion

variable {u : TimeUnit} {p : Period} {ticks : Int}

theorem divisor_pos : 0 < divisor u p :=
  Nat.div_pos (Nat.le_of_dvd p.den_pos (Nat.gcd_dvd_left _ _))
    (Nat.gcd_pos_of_pos_left _ p.den_pos)

theorem divisor_le : (divisor u p : Int) ≤ int64Max :=
  le_trans (by exact_mod_cast Nat.div_le_self _ _) p.den_le

theorem exact_eq : exact u p ticks = ((ticks * factor u p : Int) : ℚ) / (divisor u p : ℕ) := by
  obtain ⟨d, hd⟩ := Nat.gcd_dvd_left p.den u.den
  obtain ⟨e, he⟩ := Nat.gcd_dvd_right p.den u.den
  have hg : 0 < Nat.gcd p.den u.den := Nat.gcd_pos_of_pos_left _ p.den_pos
  have hdivisor : divisor u p = d := by
    rw [divisor]
    exact Nat.div_eq_of_eq_mul_right hg hd
  have hfactor : factor u p = p.num * e := by
    rw [factor, Nat.div_eq_of_eq_mul_right hg he]
  have hpos : 0 < d := hdivisor ▸ divisor_pos
  have hden : (p.den : ℚ) = Nat.gcd p.den u.den * d := by exact_mod_cast hd
  have hunit : (u.den : ℚ) = Nat.gcd p.den u.den * e := by exact_mod_cast he
  rw [exact, hdivisor, hfactor, hden, hunit]
  have hgq : (Nat.gcd p.den u.den : ℚ) ≠ 0 := by exact_mod_cast hg.ne'
  have hdq : (d : ℚ) ≠ 0 := by exact_mod_cast hpos.ne'
  push_cast
  field_simp

theorem floor_exact : ⌊exact u p ticks⌋ = ticks * factor u p / divisor u p := by
  rw [exact_eq]
  exact Rat.floor_intCast_div_natCast _ _

theorem mul_eq_some {a b c : Int} : mul a b = some c ↔ InInt64 (a * b) ∧ a * b = c := by
  rw [mul]
  split
  · rename_i h
    simp [h]
  · rename_i h
    simp [h]

/-- The constants are computed first. -/
theorem total_eq : total u p ticks = (mul 1 (factor u p)).bind fun num =>
    if num = 1 ∧ (divisor u p : Int) = 1 then
      some ticks
    else if num ≠ 1 ∧ (divisor u p : Int) = 1 then
      mul ticks num
    else if num = 1 ∧ p.den ≠ 1 then
      some (ticks.tdiv (divisor u p))
    else
      (mul ticks num).map fun product => product.tdiv (divisor u p) := by
  have hfactor : mul (p.num / gcd p.num 1 : Nat) (u.den / gcd p.den u.den : Nat) =
      mul 1 (factor u p) := by
    have heq : (p.num : Int) * (u.den / Nat.gcd p.den u.den : Nat) = factor u p := by
      rw [factor]
      push_cast
      rfl
    rw [gcd_eq, gcd_eq, Nat.gcd_one_right, Nat.div_one, mul, mul, heq, Int.one_mul]
  have hdivisor : mul (1 / gcd p.num 1 : Nat) (p.den / gcd p.den u.den : Nat) =
      some (divisor u p : Int) := by
    have heq : ((1 / 1 : Nat) : Int) * (p.den / Nat.gcd p.den u.den : Nat) = divisor u p := by
      rw [divisor]
      push_cast
      rw [Int.one_mul]
    rw [gcd_eq, gcd_eq, Nat.gcd_one_right, mul_eq_some, heq]
    exact ⟨⟨(by decide : int64Min ≤ 0).trans (Int.natCast_nonneg _), divisor_le⟩, rfl⟩
  simp only [total, durationCast, hfactor, hdivisor, Option.bind_some]

theorem mem_of_total {n : Int} (hticks : InInt64 ticks) (h : total u p ticks = some n) :
    InInt64 (ticks * factor u p) := by
  rw [total_eq, Option.bind_eq_some_iff] at h
  obtain ⟨num, hnum, h⟩ := h
  obtain ⟨-, rfl⟩ := mul_eq_some.mp hnum
  rw [Int.one_mul] at h
  split at h
  · rename_i hone
    rwa [hone.1, Int.mul_one]
  · split at h
    · exact (mul_eq_some.mp h).1
    · split at h
      · rename_i hone
        rwa [hone.1, Int.mul_one]
      · obtain ⟨product, hproduct, -⟩ := Option.map_eq_some_iff.mp h
        exact (mul_eq_some.mp hproduct).1

/-- Where no product overflows, the conversion is exact but for the remainder. -/
theorem total_of_mem (ht : 0 < ticks) (hmem : InInt64 (ticks * factor u p)) :
    total u p ticks = some ⌊exact u p ticks⌋ := by
  have hle : (factor u p : Int) ≤ ticks * factor u p := by
    have hmul := Int.mul_le_mul_of_nonneg_right (c := (factor u p : Int)) (show 1 ≤ ticks from ht)
      (Int.natCast_nonneg _)
    rwa [Int.one_mul] at hmul
  have hfactor : mul 1 (factor u p) = some (factor u p : Int) := by
    rw [mul_eq_some, Int.one_mul]
    exact ⟨⟨(by decide : int64Min ≤ 0).trans (Int.natCast_nonneg _), hle.trans hmem.2⟩, rfl⟩
  have hnonneg : 0 ≤ ticks * factor u p := Int.mul_nonneg ht.le (Int.natCast_nonneg _)
  have hproduct : mul ticks (factor u p) = some (ticks * factor u p) :=
    mul_eq_some.mpr ⟨hmem, rfl⟩
  rw [total_eq, hfactor, Option.bind_some, floor_exact]
  split
  · rename_i h
    rw [h.1, h.2, Int.mul_one, Int.ediv_one]
  · split
    · rename_i h
      rw [hproduct, h.2, Int.ediv_one]
    · split
      · rename_i h
        rw [h.1, Int.mul_one, Int.tdiv_eq_ediv_of_nonneg ht.le]
      · rw [hproduct, Option.map_some, Int.tdiv_eq_ediv_of_nonneg hnonneg]

end Conversion

end Asio.Detail.ChronoTimeTraits
