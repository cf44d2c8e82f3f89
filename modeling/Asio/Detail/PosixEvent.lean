import Mathlib.Data.Finset.Basic

/-! The event on which idle threads wait: the lowest bit of its state is the signalled flag, the
rest counts the waiters. -/

universe u

namespace Asio.Detail

/-- `blocked` are the threads inside `pthread_cond_wait` that nothing has woken yet, `signals` the
calls of `pthread_cond_signal` that are still to be made, since they follow the unlock. -/
structure PosixEvent (τ : Type u) where
  state : Nat
  blocked : Finset τ
  signals : Nat
  deriving DecidableEq

namespace PosixEvent

variable {τ : Type u}

def construct : PosixEvent τ where
  state := 0
  blocked := ∅
  signals := 0

def signalAll (e : PosixEvent τ) : PosixEvent τ :=
  { e with state := e.state ||| 1, blocked := ∅ }

def unlockAndSignalOne (e : PosixEvent τ) : PosixEvent τ :=
  let state := e.state ||| 1
  { e with state := state, signals := if state > 1 then e.signals + 1 else e.signals }

/-- Whether a waiter is signalled; the flag is set in any case. -/
def maybeUnlockAndSignalOne (e : PosixEvent τ) : Bool × PosixEvent τ :=
  let state := e.state ||| 1
  if state > 1 then (true, { e with state := state, signals := e.signals + 1 })
  else (false, { e with state := state })

/-- `state_ &= ~std::size_t(1)` -/
def clear (e : PosixEvent τ) : PosixEvent τ := { e with state := e.state / 2 * 2 }

def isSignalled (e : PosixEvent τ) : Bool := e.state % 2 = 1

def waiters (e : PosixEvent τ) : Nat := e.state / 2

variable [DecidableEq τ]

/-- The waiter counts itself and releases the mutex. -/
def beginWait (e : PosixEvent τ) (t : τ) : PosixEvent τ :=
  { e with state := e.state + 2, blocked := insert t e.blocked }

/-- The waiter has the mutex again. -/
def endWait {τ : Type u} (e : PosixEvent τ) : PosixEvent τ := { e with state := e.state - 2 }

/-- A waiter leaves `pthread_cond_wait`, to lock the mutex: woken by nothing, or by its timeout. -/
def wake (e : PosixEvent τ) (t : τ) : PosixEvent τ := { e with blocked := e.blocked.erase t }

/-- A call of `pthread_cond_signal` that wakes `t`. -/
def signal (e : PosixEvent τ) (t : τ) : PosixEvent τ :=
  { e with blocked := e.blocked.erase t, signals := e.signals - 1 }

/-- A call of `pthread_cond_signal` that finds nobody blocked. -/
def signalNobody {τ : Type u} (e : PosixEvent τ) : PosixEvent τ :=
  { e with signals := e.signals - 1 }

section State

omit [DecidableEq τ]

theorem or_one (n : Nat) : n ||| 1 = n / 2 * 2 + 1 := by
  have h : (n ||| 1) / 2 = n / 2 := by
    rw [Nat.or_div_two]
    simp
  have h' : (n ||| 1) % 2 = 1 := by
    simp [Nat.or_mod_two_eq_one]
  omega

variable (e : PosixEvent τ) (t : τ)

@[simp] theorem waiters_signalAll : e.signalAll.waiters = e.waiters := by
  simp only [signalAll, waiters, or_one]
  omega

@[simp] theorem isSignalled_signalAll : e.signalAll.isSignalled = true := by
  simp only [signalAll, isSignalled, or_one, decide_eq_true_eq]
  omega

@[simp] theorem waiters_unlockAndSignalOne : e.unlockAndSignalOne.waiters = e.waiters := by
  simp only [unlockAndSignalOne, waiters, or_one]
  omega

@[simp] theorem isSignalled_unlockAndSignalOne : e.unlockAndSignalOne.isSignalled = true := by
  simp only [unlockAndSignalOne, isSignalled, or_one, decide_eq_true_eq]
  omega

@[simp] theorem waiters_maybe : e.maybeUnlockAndSignalOne.2.waiters = e.waiters := by
  simp only [maybeUnlockAndSignalOne]
  split
  · simp only [waiters, or_one]
    omega
  · simp only [waiters, or_one]
    omega

@[simp] theorem isSignalled_maybe : e.maybeUnlockAndSignalOne.2.isSignalled = true := by
  simp only [maybeUnlockAndSignalOne]
  split
  · simp only [isSignalled, or_one, decide_eq_true_eq]
    omega
  · simp only [isSignalled, or_one, decide_eq_true_eq]
    omega

theorem maybe_fst : e.maybeUnlockAndSignalOne.1 = true ↔ 0 < e.waiters := by
  simp only [maybeUnlockAndSignalOne, waiters]
  split
  · rename_i h
    rw [or_one] at h
    simp only [true_iff]
    omega
  · rename_i h
    rw [or_one] at h
    simp only [Bool.false_eq_true, false_iff]
    omega

@[simp] theorem waiters_clear : e.clear.waiters = e.waiters := by
  simp only [clear, waiters]
  omega

@[simp] theorem waiters_beginWait [DecidableEq τ] : (e.beginWait t).waiters = e.waiters + 1 := by
  simp only [beginWait, waiters]
  omega

theorem waiters_endWait : e.endWait.waiters = e.waiters - 1 := by
  simp only [endWait, waiters]
  omega

theorem isSignalled_endWait (h : 0 < e.waiters) : e.endWait.isSignalled = e.isSignalled := by
  have hmod : (e.state - 2) % 2 = e.state % 2 := by
    simp only [waiters] at h
    omega
  simp only [endWait, isSignalled, hmod]

@[simp] theorem blocked_unlockAndSignalOne : e.unlockAndSignalOne.blocked = e.blocked := rfl

@[simp] theorem blocked_maybe : e.maybeUnlockAndSignalOne.2.blocked = e.blocked := by
  simp only [maybeUnlockAndSignalOne]
  split <;> rfl

theorem signals_unlockAndSignalOne : e.unlockAndSignalOne.signals =
    if 0 < e.waiters then e.signals + 1 else e.signals := by
  simp only [unlockAndSignalOne, waiters, or_one]
  congr 1
  simp only [eq_iff_iff]
  omega

theorem signals_maybe : e.maybeUnlockAndSignalOne.2.signals =
    if 0 < e.waiters then e.signals + 1 else e.signals := by
  have hfst := maybe_fst e
  simp only [maybeUnlockAndSignalOne] at hfst ⊢
  split
  · rename_i h
    rw [if_pos (by simpa [h] using hfst)]
  · rename_i h
    rw [if_neg (by simpa [h] using hfst)]

end State

end PosixEvent

end Asio.Detail
