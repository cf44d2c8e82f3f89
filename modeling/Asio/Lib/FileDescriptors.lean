import Mathlib.Data.Fintype.Basic
import Mathlib.Logic.Function.Basic

/-! File descriptors, the descriptions that they refer to, and the set of descriptors in which an
interest is registered. -/

universe u v

namespace Asio.Lib

/-- The entries of the interest set belong to a descriptor and to the description it referred to
when it was added. A description may have references in other processes. -/
structure FileDescriptors (φ : Type u) (δ : Type v) where
  description : φ → Option Nat
  next : Nat
  elsewhere : Nat → Bool
  pollable : Nat → Bool
  nonBlocking : Nat → Bool
  interest : φ → Nat → Option δ

/-- What `epoll_ctl` may be short of. -/
inductive Shortage
  | memory | watches
  deriving DecidableEq

def Shortage.errno : Shortage → Nat
  | memory => 12
  | watches => 28

namespace FileDescriptors

def badDescriptor : Nat := 9
def notPermitted : Nat := 1
def alreadyExists : Nat := 17
def notFound : Nat := 2

variable {φ : Type u} {δ : Type v}

def initial : FileDescriptors φ δ where
  description _ := none
  next := 0
  elsewhere _ := false
  pollable _ := false
  nonBlocking _ := false
  interest _ _ := none

def IsOpen (k : FileDescriptors φ δ) (fd : φ) : Prop := k.description fd ≠ none

instance (k : FileDescriptors φ δ) (fd : φ) : Decidable (k.IsOpen fd) :=
  inferInstanceAs (Decidable (k.description fd ≠ none))

theorem isOpen_congr {k k' : FileDescriptors φ δ} (h : k'.description = k.description) (fd : φ) :
    k'.IsOpen fd ↔ k.IsOpen fd := by
  rw [IsOpen, IsOpen, h]

/-- No other descriptor refers to what this one refers to. -/
def Sole (k : FileDescriptors φ δ) (fd : φ) : Prop :=
  ∀ d ∈ k.description fd, k.elsewhere d = false ∧ ∀ fd', k.description fd' = some d → fd' = fd

instance [Fintype φ] [DecidableEq φ] (k : FileDescriptors φ δ) (fd : φ) : Decidable (k.Sole fd) :=
  inferInstanceAs (Decidable (∀ d ∈ k.description fd,
    k.elsewhere d = false ∧ ∀ fd', k.description fd' = some d → fd' = fd))

def Referred (k : FileDescriptors φ δ) (d : Nat) : Prop :=
  k.elsewhere d = true ∨ ∃ fd, k.description fd = some d

instance [Fintype φ] (k : FileDescriptors φ δ) (d : Nat) : Decidable (k.Referred d) :=
  inferInstanceAs (Decidable (k.elsewhere d = true ∨ ∃ fd, k.description fd = some d))

section Operations

variable [DecidableEq φ] (k : FileDescriptors φ δ)

def setDescription (fd : φ) (d : Option Nat) : FileDescriptors φ δ :=
  { k with description := Function.update k.description fd d }

/-- A new description. -/
def create (fd : φ) (pollable : Bool) : FileDescriptors φ δ :=
  { k with
    description := Function.update k.description fd (some k.next)
    next := k.next + 1
    elsewhere := Function.update k.elsewhere k.next false
    pollable := Function.update k.pollable k.next pollable
    nonBlocking := Function.update k.nonBlocking k.next false }

def dup (fd fd' : φ) : FileDescriptors φ δ :=
  k.setDescription fd' (k.description fd)

def setNonBlocking {φ : Type u} {δ : Type v} (k : FileDescriptors φ δ) (fd : φ) (value : Bool) : FileDescriptors φ δ :=
  match k.description fd with
  | none => k
  | some d => { k with nonBlocking := Function.update k.nonBlocking d value }

/-- The entries of a description go with its last reference. -/
def forget [Fintype φ] (d : Nat) : FileDescriptors φ δ :=
  if k.Referred d then k
  else { k with interest := fun fd => Function.update (k.interest fd) d none }

def close [Fintype φ] (fd : φ) : FileDescriptors φ δ :=
  match k.description fd with
  | none => k
  | some d => (k.setDescription fd none).forget d

/-- Another process has closed what referred to a description. -/
def closeElsewhere [Fintype φ] (d : Nat) : FileDescriptors φ δ :=
  { k with elsewhere := Function.update k.elsewhere d false }.forget d

/-- Another process has all the descriptors too. -/
def fork [Fintype φ] : FileDescriptors φ δ :=
  { k with elsewhere := fun d => decide (k.Referred d) }

def setInterest (fd : φ) (d : Nat) (v : Option δ) : FileDescriptors φ δ :=
  { k with
    interest := Function.update k.interest fd (Function.update (k.interest fd) d v) }

/-- An empty interest set takes the place of the present one. -/
def epollCreate {φ : Type u} {δ : Type v} (k : FileDescriptors φ δ) : FileDescriptors φ δ :=
  { k with interest := fun _ _ => none }

/-- The error, if there is one. -/
def epollAdd (fd : φ) (v : δ) (exhausted : Option Shortage) : Option Nat × FileDescriptors φ δ :=
  match k.description fd with
  | none => (some badDescriptor, k)
  | some d =>
    if k.pollable d then
      if (k.interest fd d).isSome then (some alreadyExists, k)
      else
        match exhausted with
        | some shortage => (some shortage.errno, k)
        | none => (none, k.setInterest fd d (some v))
    else (some notPermitted, k)

def epollMod (fd : φ) (v : δ) : Option Nat × FileDescriptors φ δ :=
  match k.description fd with
  | none => (some badDescriptor, k)
  | some d =>
    if (k.interest fd d).isSome then (none, k.setInterest fd d (some v)) else (some notFound, k)

def epollDel (fd : φ) : FileDescriptors φ δ :=
  match k.description fd with
  | none => k
  | some d => k.setInterest fd d none

end Operations

/-- Every entry is for a descriptor that still refers to what it did, and new descriptions are not
referred to. -/
structure Valid (k : FileDescriptors φ δ) : Prop where
  current : ∀ fd d, k.interest fd d ≠ none → k.description fd = some d
  numbered : ∀ fd, ∀ d ∈ k.description fd, d < k.next

/-- What is registered for a descriptor as it is now. -/
def entry (k : FileDescriptors φ δ) (fd : φ) : Option δ :=
  (k.description fd).bind (k.interest fd)

def Pollable (k : FileDescriptors φ δ) (fd : φ) : Prop :=
  ∃ d ∈ k.description fd, k.pollable d = true

instance (k : FileDescriptors φ δ) (fd : φ) : Decidable (k.Pollable fd) :=
  inferInstanceAs (Decidable (∃ d ∈ k.description fd, k.pollable d = true))

/-! ### What descriptors refer to -/

section Descriptions

variable {k : FileDescriptors φ δ} {fd : φ} {v : δ}

@[simp] theorem description_setNonBlocking (value : Bool) :
    (k.setNonBlocking fd value).description = k.description := by
  unfold setNonBlocking
  split <;> rfl

variable [DecidableEq φ]

@[simp] theorem description_epollAdd (exhausted : Option Shortage) :
    (k.epollAdd fd v exhausted).2.description = k.description := by
  unfold epollAdd
  split
  · rfl
  · split
    · split
      · rfl
      · split <;> rfl
    · rfl

@[simp] theorem description_epollMod : (k.epollMod fd v).2.description = k.description := by
  unfold epollMod
  split
  · rfl
  · split <;> rfl

@[simp] theorem description_epollDel : (k.epollDel fd).description = k.description := by
  unfold epollDel
  split <;> rfl

variable [Fintype φ]

omit [DecidableEq φ] in
@[simp] theorem description_forget (d : Nat) : (k.forget d).description = k.description := by
  unfold forget
  split <;> rfl

theorem description_close (k : FileDescriptors φ δ) (fd : φ) :
    (k.close fd).description = Function.update k.description fd none := by
  unfold close
  split
  · rename_i hfd
    rw [← hfd, Function.update_eq_self]
  · rw [description_forget]
    rfl

end Descriptions

/-! ### Entries -/

section Entries

variable {k k' k'' : FileDescriptors φ δ} {fd fd' : φ} {d d' : Nat} {v v' : Option δ}

theorem entry_of_description (h : k.description fd = some d) : k.entry fd = k.interest fd d := by
  rw [entry, h, Option.bind_some]

theorem entry_of_none (h : k.description fd = none) : k.entry fd = none := by
  rw [entry, h, Option.bind_none]

/-- What is in the set is in it under the present description. -/
theorem Valid.interest_eq (h : k.Valid) (fd : φ) (d : Nat) :
    k.interest fd d = if k.description fd = some d then k.entry fd else none := by
  split
  · rename_i hd
    rw [entry_of_description hd]
  · rename_i hd
    by_contra hne
    exact hd (h.current fd d hne)

theorem Valid.of_current (h : k.Valid) (hdescription : k'.description = k.description)
    (hnext : k'.next = k.next)
    (hcurrent : ∀ fd d, k'.interest fd d ≠ none → k.description fd = some d) : k'.Valid where
  current fd d hne := hdescription ▸ hcurrent fd d hne
  numbered fd d hd := by
    rw [hdescription] at hd
    exact hnext ▸ h.numbered fd d hd

/-- There is another entry for one descriptor, and for the other ones nothing changes. -/
structure Change [DecidableEq φ] (k k' : FileDescriptors φ δ) (fd : φ) (v : Option δ) : Prop where
  valid : k'.Valid
  entry : k'.entry = Function.update k.entry fd v
  pollable : ∀ fd', fd' ≠ fd → (k'.Pollable fd' ↔ k.Pollable fd')

/-- Nothing changes for any descriptor. -/
structure Same (k k' : FileDescriptors φ δ) : Prop where
  valid : k'.Valid
  entry : k'.entry = k.entry
  pollable : ∀ fd, k'.Pollable fd ↔ k.Pollable fd

theorem Valid.same (h : k.Valid) (hdescription : k'.description = k.description)
    (hnext : k'.next = k.next) (hpollable : k'.pollable = k.pollable)
    (hinterest : k'.interest = k.interest) : Same k k' where
  valid := h.of_current hdescription hnext fun fd d hne => h.current fd d (hinterest ▸ hne)
  entry := by
    funext fd
    rw [FileDescriptors.entry, FileDescriptors.entry, hdescription, hinterest]
  pollable fd := by rw [Pollable, Pollable, hdescription, hpollable]

theorem Valid.setNonBlocking (h : k.Valid) (fd : φ) (value : Bool) :
    Same k (k.setNonBlocking fd value) := by
  unfold FileDescriptors.setNonBlocking
  split <;> exact h.same rfl rfl rfl rfl

theorem Sole.setNonBlocking (h : k.Sole fd) (value : Bool) :
    (k.setNonBlocking fd value).Sole fd := by
  unfold FileDescriptors.setNonBlocking
  split <;> exact h

variable [DecidableEq φ]

theorem Change.trans (h : Change k k' fd v) (h' : Change k' k'' fd v') : Change k k'' fd v' where
  valid := h'.valid
  entry := by rw [h'.entry, h.entry, Function.update_idem]
  pollable fd' hne := (h'.pollable fd' hne).trans (h.pollable fd' hne)

theorem Same.trans_change (h : Same k k') (h' : Change k' k'' fd v) : Change k k'' fd v where
  valid := h'.valid
  entry := by rw [h'.entry, h.entry]
  pollable fd' hne := (h'.pollable fd' hne).trans (h.pollable fd')

/-- A descriptor that was not open refers to something. -/
theorem Valid.describe (h : k.Valid) (hfd : k.description fd = none)
    (hdescription : k'.description = Function.update k.description fd (some d))
    (hd : d < k'.next) (hnext : k.next ≤ k'.next) (hinterest : k'.interest = k.interest)
    (hpollable : ∀ d < k.next, k'.pollable d = k.pollable d) : Change k k' fd none where
  valid := by
    constructor
    · intro fd' d' hne
      rw [hinterest] at hne
      have hfd' := h.current fd' d' hne
      rw [hdescription, Function.update_of_ne, hfd']
      rintro rfl
      rw [hfd] at hfd'
      cases hfd'
    · intro fd' d' hd'
      rw [hdescription] at hd'
      by_cases heq : fd' = fd
      · rw [heq, Function.update_self] at hd'
        cases hd'
        exact hd
      · rw [Function.update_of_ne heq] at hd'
        exact Nat.lt_of_lt_of_le (h.numbered fd' d' hd') hnext
  entry := by
    funext fd'
    by_cases heq : fd' = fd
    · rw [heq, FileDescriptors.entry, hinterest, hdescription, Function.update_self,
        Function.update_self, Option.bind_some, h.interest_eq, hfd, if_neg nofun]
    · rw [Function.update_of_ne heq]
      simp only [FileDescriptors.entry, hinterest, hdescription, Function.update_of_ne heq]
  pollable fd' hne := by
    rw [Pollable, Pollable, hdescription, Function.update_of_ne hne]
    refine exists_congr fun d' => and_congr_right fun hd' => ?_
    rw [hpollable d' (h.numbered fd' d' hd')]

theorem Valid.create (h : k.Valid) (hfd : ¬ k.IsOpen fd) (pollable : Bool) :
    Change k (k.create fd pollable) fd none := by
  refine h.describe (not_not.mp hfd) rfl (Nat.lt_succ_self _) (Nat.le_succ _) rfl fun d hd => ?_
  exact Function.update_of_ne (Nat.ne_of_lt hd) ..

theorem Valid.dup (h : k.Valid) (hfd : k.description fd = some d) (hfd' : ¬ k.IsOpen fd') :
    Change k (k.dup fd fd') fd' none :=
  h.describe (not_not.mp hfd') (congrArg (Function.update k.description fd') hfd)
    (h.numbered fd d hfd) le_rfl rfl fun _ _ => rfl

theorem Valid.setInterest (h : k.Valid) (hd : k.description fd = some d) (v : Option δ) :
    Change k (k.setInterest fd d v) fd v where
  valid := by
    refine h.of_current rfl rfl fun fd' d' hne => ?_
    by_cases heq : fd' = fd
    · subst heq
      by_cases hd' : d' = d
      · exact hd' ▸ hd
      · simp only [FileDescriptors.setInterest, Function.update_self,
          Function.update_of_ne hd'] at hne
        exact h.current fd' d' hne
    · simp only [FileDescriptors.setInterest, Function.update_of_ne heq] at hne
      exact h.current fd' d' hne
  entry := by
    funext fd'
    by_cases heq : fd' = fd
    · subst heq
      rw [FileDescriptors.entry, Function.update_self]
      simp only [FileDescriptors.setInterest, hd, Option.bind_some, Function.update_self]
    · simp only [FileDescriptors.entry, FileDescriptors.setInterest, Function.update_of_ne heq]
  pollable _ _ := Iff.rfl

variable [Fintype φ]

omit [DecidableEq φ] in
theorem interest_forget_of_kept (h : k.Referred d ∨ d' ≠ d) :
    (k.forget d).interest fd d' = k.interest fd d' := by
  unfold forget
  split
  · rfl
  · rename_i hd
    exact Function.update_of_ne (h.resolve_left hd) ..

omit [DecidableEq φ] in
theorem interest_forget_of_lost (h : ¬ k.Referred d) : (k.forget d).interest fd d = none := by
  rw [FileDescriptors.forget, if_neg h]
  exact Function.update_self ..

omit [DecidableEq φ] in
theorem forget_frame (k : FileDescriptors φ δ) (d : Nat) :
    (k.forget d).next = k.next ∧ (k.forget d).pollable = k.pollable := by
  unfold forget
  split <;> exact ⟨rfl, rfl⟩

omit [DecidableEq φ] in
/-- Nothing is lost that belongs to a descriptor. -/
theorem Valid.closeElsewhere (h : k.Valid) (d : Nat) : Same k (k.closeElsewhere d) := by
  refine h.same (description_forget d) (forget_frame _ d).1 (forget_frame _ d).2 ?_
  funext fd d'
  by_cases hd : Referred { k with elsewhere := Function.update k.elsewhere d false } d ∨ d' ≠ d
  · exact interest_forget_of_kept hd
  · rw [not_or, not_not] at hd
    obtain ⟨hd, rfl⟩ := hd
    rw [h.interest_eq, if_neg fun hfd => hd (Or.inr ⟨fd, hfd⟩)]
    exact interest_forget_of_lost hd

omit [Fintype φ] in
theorem referred_setDescription_none : (k.setDescription fd none).Referred d ↔
    k.elsewhere d = true ∨ ∃ fd', fd' ≠ fd ∧ k.description fd' = some d := by
  refine or_congr Iff.rfl (exists_congr fun fd' => ?_)
  by_cases heq : fd' = fd
  · simp [setDescription, heq]
  · simp [setDescription, heq]

theorem close_eq_forget (hd : k.description fd = some d) :
    k.close fd = (k.setDescription fd none).forget d := by
  unfold close
  rw [hd]

/-- The entry of a descriptor goes with it, unless another reference keeps it. -/
theorem Valid.interest_close_self (h : k.Valid) (hd : k.description fd = some d)
    (hfd : k.entry fd = none ∨ k.Sole fd) (d' : Nat) : (k.close fd).interest fd d' = none := by
  rw [close_eq_forget hd]
  by_cases hkept : (k.setDescription fd none).Referred d ∨ d' ≠ d
  · rw [interest_forget_of_kept hkept]
    change k.interest fd d' = none
    rw [h.interest_eq, hd]
    rcases hfd with hfd | hfd
    · rw [hfd, ite_self]
    · refine if_neg fun heq => ?_
      obtain ⟨helsewhere, hother⟩ := hfd d hd
      rcases hkept with hkept | hkept
      · rcases referred_setDescription_none.mp hkept with hkept | ⟨fd', hne, hfd'⟩
        · simp [helsewhere] at hkept
        · exact hne (hother fd' hfd')
      · exact hkept (Option.some.inj heq).symm
  · rw [not_or, not_not] at hkept
    obtain ⟨hlost, rfl⟩ := hkept
    exact interest_forget_of_lost hlost

/-- The entries of the others stay: what they refer to is still referred to. -/
theorem Valid.interest_close_of_ne (h : k.Valid) (hd : k.description fd = some d)
    (hne : fd' ≠ fd) : (k.close fd).interest fd' = k.interest fd' := by
  funext d'
  rw [close_eq_forget hd]
  by_cases hkept : (k.setDescription fd none).Referred d ∨ d' ≠ d
  · rw [interest_forget_of_kept hkept]
    rfl
  · rw [not_or, not_not] at hkept
    obtain ⟨hlost, rfl⟩ := hkept
    rw [interest_forget_of_lost hlost, h.interest_eq, if_neg]
    exact fun hfd' => hlost (referred_setDescription_none.mpr (Or.inr ⟨fd', hne, hfd'⟩))

/-- A descriptor is closed without an entry, or without another reference to what it refers to. -/
theorem Valid.close (h : k.Valid) (hfd : k.entry fd = none ∨ k.Sole fd) :
    Change k (k.close fd) fd none := by
  cases hd : k.description fd with
  | none =>
    have hk : k.close fd = k := by
      unfold FileDescriptors.close
      rw [hd]
    rw [hk]
    exact ⟨h, by rw [← entry_of_none hd, Function.update_eq_self], fun _ _ => Iff.rfl⟩
  | some d =>
    have hdescription {fd' : φ} (hne : fd' ≠ fd) :
        (k.close fd).description fd' = k.description fd' := by
      rw [description_close, Function.update_of_ne hne]
    have hclosed : (k.close fd).description fd = none := by
      rw [description_close, Function.update_self]
    have hframe : (k.close fd).next = k.next ∧ (k.close fd).pollable = k.pollable :=
      close_eq_forget hd ▸ forget_frame _ d
    constructor
    · constructor
      · intro fd' d' hne
        by_cases heq : fd' = fd
        · subst heq
          exact absurd (h.interest_close_self hd hfd d') hne
        · rw [hdescription heq]
          rw [h.interest_close_of_ne hd heq] at hne
          exact h.current fd' d' hne
      · intro fd' d' hd'
        by_cases heq : fd' = fd
        · rw [heq, hclosed] at hd'
          cases hd'
        · rw [hdescription heq] at hd'
          exact hframe.1 ▸ h.numbered fd' d' hd'
    · funext fd'
      by_cases heq : fd' = fd
      · rw [heq, Function.update_self]
        exact entry_of_none hclosed
      · rw [Function.update_of_ne heq, entry, entry, hdescription heq,
          h.interest_close_of_ne hd heq]
    · intro fd' hne
      rw [Pollable, Pollable, hdescription hne, hframe.2]

end Entries

/-! ### The interest set -/

section Interest

variable [DecidableEq φ] {k : FileDescriptors φ δ} {fd : φ} {v : δ}

theorem epollAdd_eq_none (exhausted : Option Shortage) : (k.epollAdd fd v exhausted).1 = none ↔
    k.Pollable fd ∧ k.entry fd = none ∧ exhausted = none := by
  unfold epollAdd Pollable
  cases hd : k.description fd with
  | none => simp
  | some d =>
    cases hpollable : k.pollable d <;> cases hentry : k.interest fd d <;> cases exhausted <;>
      simp [entry_of_description hd, hpollable, hentry]

theorem epollAdd_notPermitted {exhausted : Option Shortage}
    (h : (k.epollAdd fd v exhausted).1 = some notPermitted) : ¬ k.Pollable fd := by
  rintro ⟨d, hd, hpollable⟩
  rw [Option.mem_def] at hd
  revert h
  cases hentry : k.interest fd d with
  | some v' => simp [epollAdd, hd, hpollable, hentry, alreadyExists, notPermitted]
  | none =>
    cases exhausted with
    | none => simp [epollAdd, hd, hpollable, hentry]
    | some shortage =>
      cases shortage <;> simp [epollAdd, hd, hpollable, hentry, Shortage.errno, notPermitted]

theorem epollAdd_of_ne_none {exhausted : Option Shortage}
    (h : (k.epollAdd fd v exhausted).1 ≠ none) : (k.epollAdd fd v exhausted).2 = k := by
  unfold epollAdd at h ⊢
  split
  · rfl
  · split
    · split
      · rfl
      · split
        · rfl
        · simp_all
    · rfl

theorem Valid.epollAdd (h : k.Valid) {exhausted : Option Shortage}
    (hadd : (k.epollAdd fd v exhausted).1 = none) :
    Change k (k.epollAdd fd v exhausted).2 fd (some v) ∧
      ((k.epollAdd fd v exhausted).2.Pollable fd ↔ k.Pollable fd) := by
  obtain ⟨⟨d, hd, hpollable⟩, hentry, rfl⟩ := (epollAdd_eq_none exhausted).mp hadd
  rw [entry_of_description hd] at hentry
  have hk : (k.epollAdd fd v none).2 = k.setInterest fd d (some v) := by
    simp only [Option.mem_def] at hd
    simp [FileDescriptors.epollAdd, hd, hpollable, hentry]
  rw [hk]
  exact ⟨h.setInterest hd (some v), Iff.rfl⟩

theorem Valid.epollMod (h : k.Valid) (hentry : k.entry fd ≠ none) :
    (k.epollMod fd v).1 = none ∧ Change k (k.epollMod fd v).2 fd (some v) ∧
      ((k.epollMod fd v).2.Pollable fd ↔ k.Pollable fd) := by
  cases hd : k.description fd with
  | none => exact absurd (entry_of_none hd) hentry
  | some d =>
    rw [entry_of_description hd] at hentry
    have hk : k.epollMod fd v = (none, k.setInterest fd d (some v)) := by
      simp [FileDescriptors.epollMod, hd, Option.isSome_iff_ne_none.mpr hentry]
    rw [hk]
    exact ⟨rfl, h.setInterest hd (some v), Iff.rfl⟩

theorem Valid.epollDel (h : k.Valid) : Change k (k.epollDel fd) fd none := by
  cases hd : k.description fd with
  | none =>
    have hk : k.epollDel fd = k := by
      simp [FileDescriptors.epollDel, hd]
    rw [hk]
    exact ⟨h, by rw [← entry_of_none hd, Function.update_eq_self], fun _ _ => Iff.rfl⟩
  | some d =>
    have hk : k.epollDel fd = k.setInterest fd d none := by
      simp [FileDescriptors.epollDel, hd]
    rw [hk]
    exact h.setInterest hd none

end Interest

end FileDescriptors

end Asio.Lib
