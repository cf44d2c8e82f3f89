import Mathlib.Algebra.GroupWithZero.Nat
import Mathlib.Data.List.Perm.Subperm
import Asio.Detail.SignalSetLists

/-! Adding and removing registrations keeps the lists, the tables and the counts in step. -/

universe u

namespace Asio.Detail.SignalSetService

open Asio.Lib LinkedList Transition

set_option linter.unusedSectionVars false

variable {υ ι ρ : Type u} [DecidableEq υ] [DecidableEq ι] [DecidableEq ρ]
variable {s s' : SignalState υ ι ρ} {set : ι → List ρ} {table : υ → Int → List ρ}
variable {impl : ι} {n : Int} {reg : ρ} {xs ys all : List ρ} {v : υ}

/-- The operations on registrations leave the services, the sets and their queues alone. -/
structure Rewires (s s' : SignalState υ ι ρ) : Prop where
  serviceList : s'.serviceList = s.serviceList
  sets : s'.sets = s.sets
  service : s'.service = s.service
  opQueue : s'.opQueue = s.opQueue
  posted : s'.posted = s.posted
  missed : s'.missed = s.missed
  immediate : s'.immediate = s.immediate

theorem Rewires.refl (s : SignalState υ ι ρ) : Rewires s s := ⟨rfl, rfl, rfl, rfl, rfl, rfl, rfl⟩

theorem Rewires.trans {s'' : SignalState υ ι ρ} (h : Rewires s s') (h' : Rewires s' s'') :
    Rewires s s'' :=
  ⟨h'.serviceList.trans h.serviceList, h'.sets.trans h.sets, h'.service.trans h.service,
    h'.opQueue.trans h.opQueue, h'.posted.trans h.posted, h'.missed.trans h.missed,
    h'.immediate.trans h.immediate⟩

theorem Registered.length_le (h : Registered s set table) (i : ι) :
    (set i).length ≤ s.allocated.length := by
  refine (List.subperm_of_subset (h.listed.nodup i) fun p hp => ?_).length_le
  rw [h.allocated, h.listed.queue i p hp]
  exact hp

/-! ### Removing -/

section Removing

theorem unlinkTable_handler (s : SignalState υ ι ρ) (v : υ) (n : Int) (reg : ρ) (b : Bool) :
    unlinkTable (setHandler s n b) v n reg = setHandler (unlinkTable s v n reg) n b := by
  by_cases hhead : s.registrations v n = some reg <;> cases hprev : s.prevInTable reg <;>
    simp only [unlinkTable, setTable, setNextInTable, setPrevInTable, setHandler, hhead, if_true,
      if_false, hprev] <;>
    split <;> rename_i hnext <;> simp only [hnext]

theorem deregister_frame (s : SignalState υ ι ρ) (v : υ) (reg : ρ) :
    deregister s v reg = { s with
      installed := if s.registrationCount (s.signalNumber reg) = 1 then
          Function.update s.installed (s.signalNumber reg) false
        else s.installed
      registrationCount := Function.update s.registrationCount (s.signalNumber reg)
        (s.registrationCount (s.signalNumber reg) - 1)
      nextInTable := (unlinkTable s v (s.signalNumber reg) reg).nextInTable
      prevInTable := (unlinkTable s v (s.signalNumber reg) reg).prevInTable
      registrations := (unlinkTable s v (s.signalNumber reg) reg).registrations } := by
  simp only [deregister]
  split
  · rw [unlinkTable_handler, unlinkTable_frame]
    rfl
  · rw [unlinkTable_frame]
    rfl

theorem Counted.erase (h : Counted s all) (hreg : reg ∈ all)
    (hnumber : s'.signalNumber = s.signalNumber)
    (hcount : s'.registrationCount = Function.update s.registrationCount (s.signalNumber reg)
      (s.registrationCount (s.signalNumber reg) - 1))
    (hhandler : s'.installed = if s.registrationCount (s.signalNumber reg) = 1 then
        Function.update s.installed (s.signalNumber reg) false
      else s.installed) : Counted s' (all.erase reg) := by
  have pos : 0 < s.registrationCount (s.signalNumber reg) := by
    rw [h.count, List.countP_pos_iff]
    exact ⟨reg, hreg, by simp⟩
  constructor
  · intro n
    have all := h.count n
    rw [(List.perm_cons_erase hreg).countP_eq, List.countP_cons] at all
    rw [hcount, hnumber, Function.update_apply]
    split
    · rename_i hn
      subst hn
      simp only [decide_true, if_true] at all
      omega
    · rename_i hn
      simpa [Ne.symm hn] using all
  · intro n
    have before := h.handler n
    rw [hhandler, hcount, Function.update_apply]
    split
    · rename_i hone
      rw [Function.update_apply]
      split
      · rename_i hn
        simp [hone]
      · exact before
    · rename_i hmany
      split
      · rename_i hn
        subst hn
        rw [before]
        omega
      · exact before

theorem Tabled.deregister (h : Tabled s all table) (hnodup : all.Nodup) (hreg : reg ∈ all)
    (hservice : s.service (s.queue reg) = v) :
    Tabled (deregister s v reg) (all.erase reg)
      (updateTable table v (s.signalNumber reg) ((table v (s.signalNumber reg)).erase reg)) := by
  have frame := deregister_frame s v reg
  have same := unlinkTable_frame s v (s.signalNumber reg) reg
  refine (h.unlink hnodup hreg hservice rfl).congr ?_ ?_ ?_ ?_ ?_
  · rw [frame]
  · intro p _
    rw [frame]
  · intro p _
    rw [frame]
  · intro p _
    rw [frame, same]
  · intro p _
    rw [frame, same]

/-- A registration leaves its set and its table, and is deleted. -/
def drop (s : SignalState υ ι ρ) (impl : ι) (point : Option ρ) (reg : ρ) : SignalState υ ι ρ :=
  release (deregister (setLink s impl point (s.nextInSet reg)) (s.service impl) reg) reg

/-- What a deleted registration leaves as it was. -/
structure Drops (s : SignalState υ ι ρ) (reg : ρ) (s' : SignalState υ ι ρ) : Prop
    extends Rewires s s' where
  signalNumber : s'.signalNumber = s.signalNumber
  queue : s'.queue = s.queue
  undelivered : s'.undelivered = s.undelivered
  allocated : s'.allocated = s.allocated.erase reg
  dropped : s'.dropped = s.dropped + s.undelivered reg

theorem drop_drops (s : SignalState υ ι ρ) (impl : ι) (point : Option ρ) (reg : ρ) :
    Drops s reg (drop s impl point reg) := by
  rw [drop, deregister_frame, setLink_frame]
  exact ⟨⟨rfl, rfl, rfl, rfl, rfl, rfl, rfl⟩, rfl, rfl, rfl, rfl, rfl⟩

theorem Registered.drop (h : Registered s set table) (hset : set impl = xs ++ reg :: ys) :
    Registered (drop s impl xs.getLast? reg) (Function.update set impl (xs ++ ys))
      (updateTable table (s.service impl) (s.signalNumber reg)
        ((table (s.service impl) (s.signalNumber reg)).erase reg)) := by
  have hmem : reg ∈ set impl := by simp [hset]
  have hqueue : s.queue reg = impl := h.listed.queue impl reg hmem
  have hreg : reg ∈ s.allocated := by
    rw [h.allocated, hqueue]
    exact hmem
  have nodup := h.listed.nodup impl
  rw [hset] at nodup
  have drops := drop_drops s impl xs.getLast? reg
  generalize hs₁ : setLink s impl xs.getLast? (s.nextInSet reg) = s₁
  have link := setLink_frame s impl xs.getLast? (s.nextInSet reg)
  rw [hs₁] at link
  have listed : Listed s₁ (Function.update set impl (xs ++ ys)) := hs₁ ▸ h.listed.remove hset
  have tabled : Tabled s₁ s.allocated table := by
    rw [link]
    exact h.tabled.congr rfl (fun _ _ => rfl) (fun _ _ => rfl) (fun _ _ => rfl) fun _ _ => rfl
  have counted : Counted s₁ s.allocated := by
    rw [link]
    exact h.counted.congr rfl rfl fun _ _ => rfl
  have number : s₁.signalNumber = s.signalNumber := by rw [link]
  have service : s₁.service (s₁.queue reg) = s.service impl := by rw [link, ← hqueue]
  have frame := deregister_frame s₁ (s.service impl) reg
  have dropped : SignalSetService.drop s impl xs.getLast? reg =
      release (deregister s₁ (s.service impl) reg) reg := by rw [← hs₁]; rfl
  have allocated : s₁.allocated = s.allocated := by rw [link]
  constructor
  · rw [dropped, frame]
    exact listed.congr rfl (fun _ _ _ => rfl) (fun _ _ _ => rfl) fun _ _ _ => rfl
  · rw [drops.allocated, dropped]
    have unlinked := tabled.deregister h.nodup hreg service
    rw [number] at unlinked
    exact unlinked.congr rfl (fun _ _ => rfl) (fun _ _ => rfl) (fun _ _ => rfl) fun _ _ => rfl
  · rw [drops.allocated, dropped, frame]
    exact counted.erase hreg rfl rfl rfl
  · rw [drops.allocated]
    exact h.nodup.erase reg
  · intro p
    rw [drops.allocated, drops.queue, h.nodup.mem_erase_iff, h.allocated, Function.update_apply]
    split
    · rename_i hp
      rw [hp, hset]
      grind
    · rename_i hp
      refine ⟨And.right, fun hmem => ⟨?_, hmem⟩⟩
      rintro rfl
      exact hp hqueue

theorem remove_spec (cfg : Config υ) (h : Registered s set table) (impl : ι) (n : Int)
    (ok : Int → Bool) : ∃ r, remove cfg s impl n ok = some r ∧ (r.2 ≠ .success → r.1 = s) ∧
      (r.1 = s ∨ ∃ xs reg ys, set impl = xs ++ reg :: ys ∧ r.1 = drop s impl xs.getLast? reg) := by
  simp only [remove]
  split
  · exact ⟨_, rfl, fun _ => rfl, .inl rfl⟩
  · obtain ⟨xs, ys, hset, hfind, -, -⟩ := find_spec h.listed (h.length_le impl) n
    simp only [hfind, Option.map_some, Option.some.injEq, exists_eq_left']
    cases ys with
    | nil => exact ⟨fun _ => rfl, .inl rfl⟩
    | cons reg ys =>
      simp only [List.head?_cons]
      split
      · exact ⟨fun _ => rfl, .inl rfl⟩
      · split
        · exact ⟨fun _ => rfl, .inl rfl⟩
        · refine ⟨fun hne => absurd rfl hne, .inr ⟨xs, reg, ys, hset, ?_⟩⟩
          have service : (setLink s impl xs.getLast? (s.nextInSet reg)).service = s.service := by
            rw [setLink_frame]
          dsimp only
          rw [service, drop]

/-! ### Clearing a set -/

def dropAll (s : SignalState υ ι ρ) (impl : ι) (regs : List ρ) : SignalState υ ι ρ :=
  regs.foldl (fun s reg => drop s impl none reg) s

theorem unlinkTable_signals (s : SignalState υ ι ρ) (v : υ) (n : Int) (reg : ρ)
    (x : Option ρ) : unlinkTable (setSignals s impl x) v n reg =
      setSignals (unlinkTable s v n reg) impl x := by
  by_cases hhead : s.registrations v n = some reg <;> cases hprev : s.prevInTable reg <;>
    simp only [unlinkTable, setTable, setNextInTable, setPrevInTable, setSignals, hhead, if_true,
      if_false, hprev] <;>
    split <;> rename_i hnext <;> simp only [hnext]

theorem deregister_signals (s : SignalState υ ι ρ) (v : υ) (reg : ρ) (x : Option ρ) :
    setSignals (deregister s v reg) impl x = deregister (setSignals s impl x) v reg := by
  rw [deregister_frame, deregister_frame, unlinkTable_signals]
  rfl

theorem clearLoop_drop (s : SignalState υ ι ρ) (impl : ι) (reg : ρ) :
    release (setSignals (deregister s (s.service impl) reg) impl
      ((deregister s (s.service impl) reg).nextInSet reg)) reg = drop s impl none reg := by
  have next : (deregister s (s.service impl) reg).nextInSet = s.nextInSet := by
    rw [deregister_frame]
  rw [next, deregister_signals, drop]
  rfl

theorem drop_count (s : SignalState υ ι ρ) (impl : ι) (point : Option ρ) (reg : ρ) :
    (drop s impl point reg).registrationCount = Function.update s.registrationCount
      (s.signalNumber reg) (s.registrationCount (s.signalNumber reg) - 1) := by
  rw [drop, deregister_frame, setLink_frame]
  rfl

/-- `clear` drops the registrations in front of the first whose handler stays, or all. -/
theorem clearLoop_spec {ok : Int → Bool} {fuel : Nat} {l : List ρ} (h : Registered s set table)
    (hset : set impl = l) (hfuel : l.length < fuel) :
    ∃ k e, clearLoop impl ok fuel s = some (dropAll s impl (l.take k), e) ∧
      (e = .success ↔ l.drop k = []) ∧
      (e = .success ↔ ∀ p ∈ l, s.registrationCount (s.signalNumber p) = 1 →
        ok (s.signalNumber p) = true) ∧
      ∃ table', Registered (dropAll s impl (l.take k))
        (Function.update set impl (l.drop k)) table' ∧
          ∀ v n, (table' v n).Sublist (table v n) := by
  induction l generalizing s set table fuel with
  | nil =>
    have hnil : s.signals impl = none := by
      have chain := h.listed.chain impl
      rwa [hset] at chain
    cases fuel with
    | zero => cases hfuel
    | succ fuel =>
      refine ⟨0, .success, by simp [clearLoop, hnil, dropAll], by simp, by simp, table, ?_,
        fun _ _ => .refl _⟩
      rw [List.drop_nil, ← hset, Function.update_eq_self]
      exact h
  | cons reg l ih =>
    have head : s.signals impl = some reg := by
      have chain := h.listed.chain impl
      rw [hset] at chain
      exact chain.1
    cases fuel with
    | zero => cases hfuel
    | succ fuel =>
      simp only [clearLoop, head]
      split
      · rename_i hfails
        refine ⟨0, .system, rfl, by simp, ?_, table, ?_, fun _ _ => .refl _⟩
        · simp only [reduceCtorEq, false_iff, not_forall]
          exact ⟨reg, List.mem_cons_self, hfails.1, by simpa using hfails.2⟩
        · rw [List.drop_zero, ← hset, Function.update_eq_self]
          exact h
      · rename_i hsucceeds
        rw [clearLoop_drop]
        have dropped := h.drop (show set impl = [] ++ reg :: l from hset)
        have hset' : (Function.update set impl ([] ++ l)) impl = l := Function.update_self ..
        have hfuel' : l.length < fuel := by simpa using hfuel
        obtain ⟨k, e, hloop, hall, hiff, table', hreg, hsub⟩ := ih dropped hset' hfuel'
        refine ⟨k + 1, e, hloop, hall, ?_, table', ?_, fun v n => (hsub v n).trans ?_⟩
        · rw [hiff, List.forall_mem_cons]
          have number : (drop s impl none reg).signalNumber = s.signalNumber :=
            (drop_drops s impl none reg).signalNumber
          have first : s.registrationCount (s.signalNumber reg) = 1 →
              ok (s.signalNumber reg) = true := by
            intro hone
            simpa [hone] using hsucceeds
          have rest (p : ρ) (hp : p ∈ l) : (drop s impl none reg).registrationCount
              (s.signalNumber p) = s.registrationCount (s.signalNumber p) := by
            rw [drop_count, Function.update_of_ne]
            have sorted := h.listed.sorted impl
            rw [hset] at sorted
            exact (Int.ne_of_lt ((List.pairwise_cons.1 sorted).1 p hp)).symm
          rw [List.getLast?_nil, number]
          constructor
          · intro hrest
            exact ⟨first, fun p hp => rest p hp ▸ hrest p hp⟩
          · rintro ⟨-, hrest⟩ p hp
            rw [rest p hp]
            exact hrest p hp
        · rw [Function.update_idem] at hreg
          exact hreg
        · rw [updateTable_apply]
          split
          · rename_i hvn
            rw [hvn.1, hvn.2]
            exact List.erase_sublist
          · exact .refl _

theorem clear_spec (h : Registered s set table) (impl : ι) (ok : Int → Bool) :
    ∃ k e, clear s impl ok = some (dropAll s impl ((set impl).take k), e) ∧
      (e = .success ↔ (set impl).drop k = []) ∧
      (e = .success ↔ ∀ p ∈ set impl, s.registrationCount (s.signalNumber p) = 1 →
        ok (s.signalNumber p) = true) ∧
      ∃ table', Registered (dropAll s impl ((set impl).take k))
        (Function.update set impl ((set impl).drop k)) table' ∧
          ∀ v n, (table' v n).Sublist (table v n) :=
  clearLoop_spec h rfl (Nat.lt_succ_of_le (h.length_le impl))

/-- What a number of deleted registrations leave as it was. -/
structure DropsAll (s : SignalState υ ι ρ) (regs : List ρ) (s' : SignalState υ ι ρ) : Prop
    extends Rewires s s' where
  signalNumber : s'.signalNumber = s.signalNumber
  queue : s'.queue = s.queue
  undelivered : s'.undelivered = s.undelivered
  allocated : s'.allocated = s.allocated.diff regs
  dropped : s'.dropped = s.dropped + (regs.map s.undelivered).sum

theorem dropAll_drops (s : SignalState υ ι ρ) (impl : ι) (regs : List ρ) :
    DropsAll s regs (dropAll s impl regs) := by
  induction regs generalizing s with
  | nil => exact ⟨.refl s, rfl, rfl, rfl, rfl, rfl⟩
  | cons reg regs ih =>
    have first := drop_drops s impl none reg
    have rest := ih (drop s impl none reg)
    refine ⟨first.toRewires.trans rest.toRewires, rest.signalNumber.trans first.signalNumber,
      rest.queue.trans first.queue, rest.undelivered.trans first.undelivered, ?_, ?_⟩
    · exact rest.allocated.trans (by rw [first.allocated, List.diff_cons])
    · refine rest.dropped.trans ?_
      rw [first.dropped, first.undelivered, List.map_cons, List.sum_cons]
      omega

end Removing

/-! ### Adding -/

section Adding

/-- What a new registration leaves as it was. -/
structure Adds (s : SignalState υ ι ρ) (impl : ι) (n : Int) (reg : ρ) (s' : SignalState υ ι ρ) :
    Prop extends Rewires s s' where
  signalNumber : s'.signalNumber = Function.update s.signalNumber reg n
  queue : s'.queue = Function.update s.queue reg impl
  undelivered : s'.undelivered = Function.update s.undelivered reg 0
  allocated : s'.allocated = reg :: s.allocated
  dropped : s'.dropped = s.dropped

theorem Counted.cons (h : Counted s all) (hreg : reg ∉ all) (hnumber : s'.signalNumber =
      Function.update s.signalNumber reg n)
    (hcount : s'.registrationCount =
      Function.update s.registrationCount n (s.registrationCount n + 1))
    (hhandler : s'.installed = if s.registrationCount n = 0 then
        Function.update s.installed n true
      else s.installed) : Counted s' (reg :: all) := by
  constructor
  · intro m
    have same : (all.countP fun p => s'.signalNumber p = m) = s.registrationCount m := by
      rw [h.count]
      apply List.countP_congr
      intro p hp
      rw [hnumber, Function.update_of_ne]
      rintro rfl
      exact hreg hp
    rw [List.countP_cons, same, hcount, hnumber, Function.update_self, Function.update_apply]
    split
    · rename_i hm
      simp [hm]
    · rename_i hm
      simp [Ne.symm hm]
  · intro m
    have before := h.handler m
    rw [hcount, hhandler, Function.update_apply]
    split
    · rw [Function.update_apply]
      split
      · simp
      · exact before
    · split
      · rename_i hm
        subst hm
        rw [before]
        omega
      · exact before

/-- The state after a successful `add` of a signal that was not in the set. -/
def insert (s : SignalState υ ι ρ) (impl : ι) (n : Int) (reg : ρ) (point next : Option ρ) :
    SignalState υ ι ρ :=
  let s := if s.registrationCount n = 0 then setHandler s n true else s
  let s := setLink (allocate s reg impl n next) impl point (some reg)
  let s := linkTable s (s.service impl) n reg
  setCount s n (s.registrationCount n + 1)

theorem insert_frame (s : SignalState υ ι ρ) (impl : ι) (n : Int) (reg : ρ)
    (point next : Option ρ) : insert s impl n reg point next =
      { linkTable (setLink (allocate s reg impl n next) impl point (some reg)) (s.service impl) n
          reg with
        installed := if s.registrationCount n = 0 then Function.update s.installed n true
          else s.installed
        registrationCount := Function.update s.registrationCount n (s.registrationCount n + 1) } := by
  simp only [insert]
  split <;> cases point <;> cases hfirst : s.registrations (s.service impl) n <;>
    simp [linkTable, setLink, setSignals, setNextInSet, setNextInTable, setPrevInTable, setTable,
      setHandler, setCount, allocate, hfirst]

theorem Registered.insert (h : Registered s set table) (hset : set impl = xs ++ ys)
    (hlt : ∀ x ∈ xs, s.signalNumber x < n) (hgt : ∀ y ∈ ys, n < s.signalNumber y)
    (hnew : reg ∉ s.allocated) :
    Adds s impl n reg (insert s impl n reg xs.getLast? ys.head?) ∧
      ∃ table', Registered (insert s impl n reg xs.getLast? ys.head?)
        (Function.update set impl (xs ++ reg :: ys)) table' := by
  have frame := insert_frame s impl n reg xs.getLast? ys.head?
  have hout (i : ι) : reg ∉ set i := by
    intro hmem
    apply hnew
    rw [h.allocated, h.listed.queue i reg hmem]
    exact hmem
  have hne (p : ρ) (hp : p ∈ s.allocated) : p ≠ reg := by
    rintro rfl
    exact hnew hp
  generalize hs₁ : allocate s reg impl n ys.head? = s₁ at frame
  generalize hs₂ : setLink s₁ impl xs.getLast? (some reg) = s₂ at frame
  have link := setLink_frame s₁ impl xs.getLast? (some reg)
  have table₂ := linkTable_frame s₂ (s.service impl) n reg
  rw [hs₂] at link
  have number : s₂.signalNumber = Function.update s.signalNumber reg n := by rw [link, ← hs₁]; rfl
  have queue : s₂.queue = Function.update s.queue reg impl := by rw [link, ← hs₁]; rfl
  have service : s₂.service = s.service := by rw [link, ← hs₁]; rfl
  have adds : Adds s impl n reg (SignalSetService.insert s impl n reg xs.getLast? ys.head?) := by
    rw [frame, table₂, link, ← hs₁]
    exact ⟨⟨rfl, rfl, rfl, rfl, rfl, rfl, rfl⟩, rfl, rfl, rfl, rfl, rfl⟩
  have listed : Listed s₂ (Function.update set impl (xs ++ reg :: ys)) := by
    rw [← hs₂, ← hs₁]
    exact h.listed.insert hset hlt hgt hout
  have tabled : Tabled s₂ s.allocated table := by
    refine h.tabled.congr ?_ (fun p hp => ?_) (fun p hp => ?_) (fun p hp => ?_) fun p hp => ?_
    · rw [link, ← hs₁]
      rfl
    · rw [link, ← hs₁]
      exact Function.update_of_ne (hne p hp) ..
    · rw [link, ← hs₁]
      exact Function.update_of_ne (hne p hp) ..
    · rw [service, queue, Function.update_of_ne (hne p hp)]
    · rw [number, Function.update_of_ne (hne p hp)]
  have linked := tabled.link hnew
    (show s₂.service (s₂.queue reg) = s.service impl by rw [service, queue, Function.update_self])
    (show s₂.signalNumber reg = n by rw [number, Function.update_self])
    (by rw [link, ← hs₁]; exact Function.update_self ..)
  refine ⟨adds, updateTable table (s.service impl) n (reg :: table (s.service impl) n), ?_, ?_,
    ?_, ?_, ?_⟩
  · rw [frame, table₂]
    exact listed.congr rfl (fun _ _ _ => rfl) (fun _ _ _ => rfl) fun _ _ _ => rfl
  · rw [adds.allocated, frame]
    exact linked.congr rfl (fun _ _ => rfl) (fun _ _ => rfl) (fun _ _ => rfl) fun _ _ => rfl
  · rw [adds.allocated]
    exact h.counted.cons hnew adds.signalNumber (by rw [frame]) (by rw [frame])
  · rw [adds.allocated]
    exact List.nodup_cons.2 ⟨hnew, h.nodup⟩
  · intro p
    rw [adds.allocated, adds.queue, List.mem_cons, h.allocated]
    by_cases hp : p = reg
    · subst hp
      simp
    · rw [Function.update_of_ne hp, Function.update_apply]
      split
      · rename_i himpl
        rw [himpl, hset]
        simp [hp]
      · simp [hp]

theorem add_spec (cfg : Config υ) (h : Registered s set table) (impl : ι) (n : Int)
    (hnew : reg ∉ s.allocated) (ok : Int → Bool) :
    ∃ r, add cfg s impl n reg ok = some r ∧ (r.2 ≠ .success → r.1 = s) ∧
      (r.1 = s ∨ Adds s impl n reg r.1 ∧ ∃ set' table', Registered r.1 set' table' ∧
        ∀ i, i ≠ impl → set' i = set i) := by
  simp only [add]
  split
  · exact ⟨_, rfl, fun _ => rfl, .inl rfl⟩
  · obtain ⟨xs, ys, hset, hfind, hlt, hge⟩ := find_spec h.listed (h.length_le impl) n
    simp only [hfind, Option.map_some, Option.some.injEq, exists_eq_left']
    split
    · exact ⟨fun _ => rfl, .inl rfl⟩
    · rename_i hother
      split
      · exact ⟨fun _ => rfl, .inl rfl⟩
      · have hgt (y : ρ) (hy : y ∈ ys) : n < s.signalNumber y := by
          have sorted := h.listed.sorted impl
          rw [hset, List.pairwise_append] at sorted
          cases ys with
          | nil => cases hy
          | cons z zs =>
            have hz := hge z List.mem_cons_self
            have hne : s.signalNumber z ≠ n := by simpa [isFor] using hother
            cases hy with
            | head => omega
            | tail _ hmem =>
              have hzy := (List.pairwise_cons.1 sorted.2.1).1 y hmem
              omega
        obtain ⟨adds, table', registered⟩ := h.insert hset hlt hgt hnew
        refine ⟨fun hne => absurd rfl hne, .inr ⟨adds, _, table', registered, ?_⟩⟩
        intro i hi
        exact Function.update_of_ne hi ..

end Adding

end Asio.Detail.SignalSetService
