import Asio.Detail.TimerQueueSet

/-! Blocking until a timer expires: each iteration sleeps for what is left at that time. -/

universe u

namespace Asio.Detail.DeadlineTimerWait

open ChronoTimeTraits TimerQueueSet

/-! ### A sleep -/

structure Timeval where
  sec : Int
  usec : Int
  deriving DecidableEq

/-- What `do_wait` is compiled to. -/
inductive Branch
  | windowsRuntime | select
  deriving DecidableEq

/-- The microseconds of `sleep_for`, or the timeout of `select`. -/
inductive Request
  | sleepFor (count : Int)
  | select (tv : Timeval)
  deriving DecidableEq

def Request.microseconds : Request → Int
  | .sleepFor count => count
  | .select tv => tv.sec * 1000000 + tv.usec

/-- `total_seconds` -/
def totalSeconds (p : Period) (ticks : Int) : Option Int := durationCast p 1 1 ticks

def doWait (p : Period) (timeout : Int) : Branch → Option Request
  | .windowsRuntime =>
    (totalSeconds p timeout).bind fun sec =>
    (total .microseconds p timeout).bind fun usec =>
    (mul sec 1000000).bind fun count =>
    (plus count usec).map .sleepFor
  | .select =>
    (totalSeconds p timeout).bind fun sec =>
    (total .microseconds p timeout).map fun usec => .select ⟨sec, usec.tmod 1000000⟩

section Sleep

variable {p : Period} {ticks : Int}

theorem factor_microseconds : ∃ d e, p.den = d * Nat.gcd p.den 1000000 ∧
    1000000 = e * Nat.gcd p.den 1000000 ∧ 0 < e ∧ factor .microseconds p = p.num * e ∧
      divisor .microseconds p = d := by
  obtain ⟨d, hd⟩ := Nat.gcd_dvd_left p.den 1000000
  obtain ⟨e, he⟩ := Nat.gcd_dvd_right p.den 1000000
  have hg : 0 < Nat.gcd p.den 1000000 := Nat.gcd_pos_of_pos_left _ p.den_pos
  refine ⟨d, e, by rwa [Nat.mul_comm], by rwa [Nat.mul_comm], ?_, ?_, ?_⟩
  · apply Nat.pos_of_ne_zero
    rintro rfl
    cases he
  · rw [factor, TimeUnit.den, Nat.div_eq_of_eq_mul_right hg he]
  · rw [divisor, TimeUnit.den, Nat.div_eq_of_eq_mul_right hg hd]

theorem num_le_factor : p.num ≤ factor .microseconds p := by
  obtain ⟨d, e, -, -, hpos, hfactor, -⟩ := factor_microseconds (p := p)
  rw [hfactor]
  exact Nat.le_mul_of_pos_right _ hpos

/-- The whole seconds are those of the whole microseconds. -/
theorem floor_exact_div : ⌊exact .microseconds p ticks⌋ / 1000000 = ticks * p.num / p.den := by
  obtain ⟨d, e, hden, hunit, hpos, hfactor, hdivisor⟩ := factor_microseconds (p := p)
  rw [floor_exact, hfactor, hdivisor, Int.ediv_ediv_of_nonneg (Int.natCast_nonneg d)]
  calc ticks * (p.num * e : Nat) / ((d : Int) * 1000000)
      = e * (ticks * p.num) / (e * (d * Nat.gcd p.den 1000000 : Nat)) := by
        have hdenominator : (d : Int) * 1000000 = e * (d * Nat.gcd p.den 1000000 : Nat) := by
          have := congrArg (fun n : Nat => (d : Int) * n) hunit
          push_cast at this ⊢
          rw [this]
          ring
        rw [hdenominator]
        congr 1
        push_cast
        ring
    _ = ticks * p.num / (d * Nat.gcd p.den 1000000 : Nat) :=
        Int.mul_ediv_mul_of_pos _ _ (by exact_mod_cast hpos)
    _ = ticks * p.num / p.den := by rw [← hden]

theorem totalSeconds_eq (ht : 0 < ticks) (hmem : InInt64 (ticks * factor .microseconds p)) :
    totalSeconds p ticks = some (⌊exact .microseconds p ticks⌋ / 1000000) := by
  have hnum : mul (p.num / ChronoTimeTraits.gcd p.num 1 : Nat)
      (1 / ChronoTimeTraits.gcd p.den 1 : Nat) = some (p.num : Int) := by
    rw [gcd_eq, gcd_eq, Nat.gcd_one_right, Nat.gcd_one_right, mul_eq_some, Nat.div_one, Nat.div_one,
      Nat.cast_one, Int.mul_one]
    exact ⟨⟨(by decide : int64Min ≤ 0).trans (Int.natCast_nonneg _), p.num_le⟩, rfl⟩
  have hden : mul (1 / ChronoTimeTraits.gcd p.num 1 : Nat)
      (p.den / ChronoTimeTraits.gcd p.den 1 : Nat) = some (p.den : Int) := by
    rw [gcd_eq, gcd_eq, Nat.gcd_one_right, Nat.gcd_one_right, mul_eq_some, Nat.div_one, Nat.div_one,
      Nat.cast_one, Int.one_mul]
    exact ⟨⟨(by decide : int64Min ≤ 0).trans (Int.natCast_nonneg _), p.den_le⟩, rfl⟩
  have hnonneg : 0 ≤ ticks * p.num := Int.mul_nonneg ht.le (Int.natCast_nonneg _)
  have hproduct : mul ticks p.num = some (ticks * p.num) := by
    rw [mul_eq_some]
    refine ⟨⟨(by decide : int64Min ≤ 0).trans hnonneg, ?_⟩, rfl⟩
    refine le_trans (Int.mul_le_mul_of_nonneg_left ?_ ht.le) hmem.2
    exact_mod_cast num_le_factor
  rw [totalSeconds, durationCast, hnum, hden, floor_exact_div]
  simp only [Option.bind_some]
  split_ifs with hone hwhole hfraction
  · rw [hone.1, hone.2, Int.mul_one, Int.ediv_one]
  · rw [hproduct, hwhole.2, Int.ediv_one]
  · rw [hfraction.1, Int.mul_one, Int.tdiv_eq_ediv_of_nonneg ht.le]
  · rw [hproduct, Option.map_some, Int.tdiv_eq_ediv_of_nonneg hnonneg]

/-- The timeout of `select` is what is left, in whole microseconds. -/
theorem doWait_select (ht : 0 < ticks) (hticks : InInt64 ticks) :
    doWait p ticks .select = if InInt64 (ticks * factor .microseconds p) then
      some (.select ⟨⌊exact .microseconds p ticks⌋ / 1000000,
        ⌊exact .microseconds p ticks⌋ % 1000000⟩)
    else
      none := by
  by_cases hmem : InInt64 (ticks * factor .microseconds p)
  · rw [if_pos hmem, doWait, totalSeconds_eq ht hmem, total_of_mem ht hmem, Option.bind_some,
      Option.map_some, Int.tmod_eq_emod_of_nonneg (floor_exact_nonneg ht)]
  · have hnone : total .microseconds p ticks = none := by
      rw [Option.eq_none_iff_forall_ne_some]
      intro n hn
      exact hmem (mem_of_total hticks hn)
    rw [if_neg hmem, doWait, hnone]
    simp only [Option.map_none, Option.bind_fun_none]

end Sleep

/-! ### The loop -/

/-- What `select` reports, and the time that is read after it. -/
structure Awakening (ε : Type u) where
  now : Ticks
  ec : Option ε

/-- What an iteration asks for at the time that it has read. -/
structure Iteration where
  now : Ticks
  request : Option Request

section Loop

variable {ε : Type u} (b : Branch) (p : Period) (expiry : Ticks)

/-- The error of `do_wait` once the sleep is over. -/
def doWaitError (ec : Option ε) : Option ε :=
  match b with
  | .windowsRuntime => none
  | .select => ec

def iteration (now : Ticks) : Iteration := ⟨now, doWait p (subtract expiry now) b⟩

/-- The iterations of the loop and how it ends, unless the last of them still sleeps. -/
def waitFrom (now : Ticks) (ec : Option ε) :
    List (Awakening ε) → List Iteration × Option (Awakening ε)
  | [] => if now.1 < expiry.1 ∧ ec.isNone then ([iteration b p expiry now], none)
    else ([], some ⟨now, ec⟩)
  | a :: as => if now.1 < expiry.1 ∧ ec.isNone then
      let rest := waitFrom a.now (doWaitError b a.ec) as
      (iteration b p expiry now :: rest.1, rest.2)
    else ([], some ⟨now, ec⟩)

def wait (now : Ticks) (as : List (Awakening ε)) : List Iteration × Option (Awakening ε) :=
  waitFrom b p expiry now none as

variable {b p expiry} {now : Ticks} {ec : Option ε} {as : List (Awakening ε)}

theorem waitFrom_iterations {i : Iteration} (h : i ∈ (waitFrom b p expiry now ec as).1) :
    i.now.1 < expiry.1 ∧ i.request = doWait p (subtract expiry i.now) b := by
  induction as generalizing now ec with
  | nil =>
    unfold waitFrom at h
    split at h
    · rename_i hcond
      obtain rfl := List.mem_singleton.mp h
      exact ⟨hcond.1, rfl⟩
    · cases h
  | cons a as ih =>
    unfold waitFrom at h
    split at h
    · rename_i hcond
      rcases List.mem_cons.mp h with rfl | h
      · exact ⟨hcond.1, rfl⟩
      · exact ih h
    · cases h

theorem stopped (h : ¬(now.1 < expiry.1 ∧ ec.isNone = true))
    (hec : b = .windowsRuntime → ec = none) :
    expiry.1 ≤ now.1 ∨ (b = .select ∧ ec.isSome = true) := by
  cases ec with
  | none => exact Or.inl (not_lt.mp fun hlt => h ⟨hlt, rfl⟩)
  | some e =>
    refine Or.inr ⟨?_, rfl⟩
    cases b with
    | windowsRuntime => exact absurd (hec rfl) (Option.some_ne_none e)
    | select => rfl

theorem waitFrom_end {last : Awakening ε} (h : (waitFrom b p expiry now ec as).2 = some last)
    (hec : b = .windowsRuntime → ec = none) :
    expiry.1 ≤ last.now.1 ∨ (b = .select ∧ last.ec.isSome = true) := by
  induction as generalizing now ec with
  | nil =>
    unfold waitFrom at h
    split at h
    · cases h
    · rename_i hcond
      cases h
      exact stopped hcond hec
  | cons a as ih =>
    unfold waitFrom at h
    split at h
    · apply ih h
      rintro rfl
      rfl
    · rename_i hcond
      cases h
      exact stopped hcond hec

/-- An iteration asks for whole microseconds of what is left, and for no more than is left. -/
structure Asks (p : Period) (expiry : Ticks) (i : Iteration) : Prop where
  early : i.now.1 < expiry.1
  isSome_iff : i.request.isSome = true ↔
    InInt64 (subtract expiry i.now * factor .microseconds p)
  eq_floor : ∀ r ∈ i.request, r.microseconds = ⌊exact .microseconds p (subtract expiry i.now)⌋
  le_left : ∀ r ∈ i.request, (r.microseconds : ℚ) ≤ exact .microseconds p (expiry - i.now)

theorem left_pos (h : now.1 < expiry.1) : 0 < subtract expiry now := by
  rw [subtract_eq_clamp expiry.2 now.2]
  simp only [clamp, int64Min, int64Max]
  omega

theorem exact_nonneg {ticks : Int} (h : 0 ≤ ticks) : 0 ≤ exact .microseconds p ticks := by
  have hticks : (0 : ℚ) ≤ ticks := by exact_mod_cast h
  unfold exact
  positivity

theorem exact_left_le (h : now.1 < expiry.1) :
    exact .microseconds p (subtract expiry now) ≤ exact .microseconds p (expiry - now) := by
  have hle := exact_subtract_le (u := .microseconds) (p := p) expiry now
  rwa [max_eq_right (exact_nonneg (left_pos h).le),
    max_eq_right (exact_nonneg (Int.sub_nonneg.mpr h.le))] at hle

theorem asks (h : now.1 < expiry.1) : Asks p expiry (iteration .select p expiry now) := by
  have hrequest := doWait_select (p := p) (left_pos h) (inInt64_subtract expiry now)
  have hfloor : ∀ r ∈ (iteration .select p expiry now).request,
      r.microseconds = ⌊exact .microseconds p (subtract expiry now)⌋ := by
    intro r hr
    rw [iteration, hrequest] at hr
    split at hr
    · obtain rfl := Option.some.inj hr
      exact Int.ediv_mul_add_emod _ _
    · cases hr
  refine ⟨h, ?_, hfloor, fun r hr => ?_⟩
  · rw [iteration, hrequest]
    split
    · rename_i hmem
      exact iff_of_true rfl hmem
    · rename_i hmem
      exact iff_of_false Bool.false_ne_true hmem
  · rw [hfloor r hr]
    exact (Int.floor_le _).trans (exact_left_le h)

/-- Blocking in `select`, `wait` asks for nothing but what is left, however much that is. Either way
it goes on until the timer has expired, or `select` has failed. -/
theorem wait_spec (p : Period) (expiry now : Ticks) (as : List (Awakening ε)) :
    (∀ i ∈ (wait .select p expiry now as).1, Asks p expiry i) ∧
      ∀ b, ∀ last ∈ (wait b p expiry now as).2,
        expiry.1 ≤ last.now.1 ∨ (b = .select ∧ last.ec.isSome = true) := by
  refine ⟨fun i hi => ?_, fun b last hlast => waitFrom_end hlast fun _ => rfl⟩
  obtain ⟨hearly, hrequest⟩ := waitFrom_iterations hi
  have heq : i = iteration .select p expiry i.now := by
    rw [iteration, ← hrequest]
  rw [heq]
  exact asks hearly

end Loop

/-! ### What it does not promise -/

/-- No sleep is longer than what is left, rounded up, or than five minutes, and both branches sleep
for the same time. -/
structure Bounded (p : Period) (expiry now : Ticks) : Prop where
  defined : ∀ b, ∃ r, (iteration b p expiry now).request = some r
  le_left : ∀ b, ∀ r ∈ (iteration b p expiry now).request,
    r.microseconds ≤ ⌈exact .microseconds p (expiry - now)⌉
  le_cap : ∀ b, ∀ r ∈ (iteration b p expiry now).request, r.microseconds ≤ 300000000
  agree : ∀ b b', ∀ r ∈ (iteration b p expiry now).request,
    ∀ r' ∈ (iteration b' p expiry now).request, r.microseconds = r'.microseconds

/-- A clock that counts milliseconds. -/
def milliseconds : Period :=
  ⟨1, 1000, seconds.num_pos, by decide, by decide, seconds.num_le, by decide⟩

def tenMinutes : Ticks := ⟨600000, by decide⟩

theorem wait_spec_tenMinutes :
    Asks milliseconds tenMinutes (iteration .select milliseconds tenMinutes ⟨0, by decide⟩) :=
  (wait_spec milliseconds tenMinutes ⟨0, by decide⟩ ([] : List (Awakening Unit))).1 _
    (List.mem_singleton_self _)

/-- Ten minutes are slept for at once, a failure of `select` ends the loop before the timer has
expired, and the time until the last second of a clock cannot be converted. -/
theorem not_bounded :
    ¬Bounded milliseconds tenMinutes ⟨0, by decide⟩ ∧
    (∃ last ∈ (wait .select milliseconds tenMinutes ⟨0, by decide⟩
      [⟨⟨1, by decide⟩, some ()⟩]).2, last.now.1 < tenMinutes.1) ∧
    ¬Bounded seconds ⟨int64Max, by decide⟩ ⟨0, by decide⟩ := by
  refine ⟨fun h => ?_, ⟨⟨⟨1, by decide⟩, some ()⟩, rfl, by decide⟩, fun h => ?_⟩
  · have hrequest : (iteration .select milliseconds tenMinutes ⟨0, by decide⟩).request =
        some (.select ⟨600, 0⟩) := by
      decide +kernel
    exact absurd (h.le_cap .select _ hrequest) (by decide)
  · have hrequest : (iteration .select seconds ⟨int64Max, by decide⟩ ⟨0, by decide⟩).request =
        none := by
      decide +kernel
    obtain ⟨r, hr⟩ := h.defined .select
    rw [hrequest] at hr
    cases hr

end Asio.Detail.DeadlineTimerWait
