import Mathlib.Data.List.Nodup
import Mathlib.Data.List.TakeWhile
import Asio.Lib.LinkedList
import Asio.Detail.SignalSetService

/-! The lists of registrations that the pointers of the sets and of the tables represent. -/

universe u

namespace Asio.Detail.SignalSetService

open Asio.Lib LinkedList

set_option linter.unusedSectionVars false

variable {υ ι ρ : Type u} [DecidableEq υ] [DecidableEq ι] [DecidableEq ρ]

/-- Each set links the registrations that `set` gives for it, the lowest signal first. -/
structure Listed (s : SignalState υ ι ρ) (set : ι → List ρ) : Prop where
  chain : ∀ i, Chain s.nextInSet (s.signals i) (set i)
  sorted : ∀ i, (set i).Pairwise fun p q => s.signalNumber p < s.signalNumber q
  queue : ∀ i, ∀ p ∈ set i, s.queue p = i

/-- The links of the table of a service for one signal, as far as the elements of `l` hold them. -/
def tableLinks (s : SignalState υ ι ρ) (v : υ) (n : Int) (l : List ρ) : Links ρ where
  head := s.registrations v n
  next p := if p ∈ l then s.nextInTable p else none
  prev p := if p ∈ l then s.prevInTable p else none

/-- The tables hold the registrations `all` by service and by signal. -/
structure Tabled (s : SignalState υ ι ρ) (all : List ρ) (table : υ → Int → List ρ) : Prop where
  links : ∀ v n, (tableLinks s v n (table v n)).Represents (table v n)
  mem : ∀ v n p, p ∈ table v n ↔ p ∈ all ∧ s.service (s.queue p) = v ∧ s.signalNumber p = n

/-- The registrations `all` are counted, and their signals handled. -/
structure Counted (s : SignalState υ ι ρ) (all : List ρ) : Prop where
  count : ∀ n, s.registrationCount n = all.countP fun p => s.signalNumber p = n
  handler : ∀ n, s.installed n = true ↔ 0 < s.registrationCount n

structure Registered (s : SignalState υ ι ρ) (set : ι → List ρ) (table : υ → Int → List ρ) :
    Prop where
  listed : Listed s set
  tabled : Tabled s s.allocated table
  counted : Counted s s.allocated
  nodup : s.allocated.Nodup
  allocated : ∀ p, p ∈ s.allocated ↔ p ∈ set (s.queue p)

/-! ### Frames -/

section Frames

variable {s s' : SignalState υ ι ρ} {set : ι → List ρ} {table : υ → Int → List ρ} {all : List ρ}

theorem Listed.congr (h : Listed s set) (hsignals : s'.signals = s.signals)
    (hnext : ∀ i, ∀ p ∈ set i, s'.nextInSet p = s.nextInSet p)
    (hnumber : ∀ i, ∀ p ∈ set i, s'.signalNumber p = s.signalNumber p)
    (hqueue : ∀ i, ∀ p ∈ set i, s'.queue p = s.queue p) : Listed s' set where
  chain i := by
    rw [hsignals]
    exact (h.chain i).congr (hnext i)
  sorted i := by
    refine (h.sorted i).imp_of_mem fun {p q} hp hq hlt => ?_
    rwa [hnumber i p hp, hnumber i q hq]
  queue i p hp := (hqueue i p hp).trans (h.queue i p hp)

theorem Listed.mem_iff (h : Listed s set) {i : ι} {p : ρ} (hp : p ∈ set i) (j : ι) :
    p ∈ set j ↔ j = i := by
  constructor
  · intro hj
    rw [← h.queue i p hp, h.queue j p hj]
  · rintro rfl
    exact hp

theorem Listed.nodup (h : Listed s set) (i : ι) : (set i).Nodup :=
  (h.sorted i).imp fun hlt heq => by simp [heq] at hlt

/-- A set has one registration for a signal at most. -/
theorem Listed.eq_of_signalNumber (h : Listed s set) {i : ι} {p q : ρ} (hp : p ∈ set i)
    (hq : q ∈ set i) (heq : s.signalNumber p = s.signalNumber q) : p = q := by
  have distinct : ((set i).map s.signalNumber).Nodup :=
    List.pairwise_map.2 ((h.sorted i).imp fun hlt => Int.ne_of_lt hlt)
  exact List.inj_on_of_nodup_map distinct hp hq heq

theorem tableLinks_congr {v : υ} {n : Int} {l : List ρ}
    (hhead : s'.registrations v n = s.registrations v n)
    (hnext : ∀ p ∈ l, s'.nextInTable p = s.nextInTable p)
    (hprev : ∀ p ∈ l, s'.prevInTable p = s.prevInTable p) :
    tableLinks s' v n l = tableLinks s v n l := by
  apply Links.ext
  · exact hhead
  · intro p
    simp only [tableLinks]
    split
    · exact hnext p ‹_›
    · rfl
  · intro p
    simp only [tableLinks]
    split
    · exact hprev p ‹_›
    · rfl

theorem Tabled.congr (h : Tabled s all table) (hheads : s'.registrations = s.registrations)
    (hnext : ∀ p ∈ all, s'.nextInTable p = s.nextInTable p)
    (hprev : ∀ p ∈ all, s'.prevInTable p = s.prevInTable p)
    (hservice : ∀ p ∈ all, s'.service (s'.queue p) = s.service (s.queue p))
    (hnumber : ∀ p ∈ all, s'.signalNumber p = s.signalNumber p) : Tabled s' all table where
  links v n := by
    rw [tableLinks_congr (congrFun (congrFun hheads v) n) (fun p hp => hnext p ?_)
      fun p hp => hprev p ?_]
    · exact h.links v n
    · exact ((h.mem v n p).1 hp).1
    · exact ((h.mem v n p).1 hp).1
  mem v n p := by
    rw [h.mem]
    refine and_congr_right fun hp => ?_
    rw [hservice p hp, hnumber p hp]

theorem Counted.congr (h : Counted s all)
    (hcount : s'.registrationCount = s.registrationCount) (hhandler : s'.installed = s.installed)
    (hnumber : ∀ p ∈ all, s'.signalNumber p = s.signalNumber p) : Counted s' all where
  count n := by
    rw [hcount, h.count]
    apply List.countP_congr
    intro p hp
    rw [hnumber p hp]
  handler n := by
    rw [hcount, hhandler]
    exact h.handler n

end Frames

/-! ### Tables -/

section Tables

variable {s : SignalState υ ι ρ} {table : υ → Int → List ρ} {all : List ρ} {v : υ} {n : Int}
variable {reg : ρ}

theorem linkTable_frame (s : SignalState υ ι ρ) (v : υ) (n : Int) (reg : ρ) :
    linkTable s v n reg = { s with
      nextInTable := Function.update s.nextInTable reg (s.registrations v n)
      prevInTable := (linkTable s v n reg).prevInTable
      registrations := Function.update s.registrations v
        (Function.update (s.registrations v) n (some reg)) } := by
  cases hfirst : s.registrations v n <;>
    simp only [linkTable, setNextInTable, setPrevInTable, setTable, hfirst]

theorem linkTable_prevInTable (s : SignalState υ ι ρ) (v : υ) (n : Int) (reg p : ρ) :
    (linkTable s v n reg).prevInTable p =
      if s.registrations v n = some p then some reg else s.prevInTable p := by
  cases hfirst : s.registrations v n <;>
    simp [linkTable, setNextInTable, setPrevInTable, setTable, hfirst, Function.update_apply,
      eq_comm]

/-- The table of `v` for `n` changes, and the others stay as they are. -/
def updateTable (table : υ → Int → List ρ) (v : υ) (n : Int) (l : List ρ) : υ → Int → List ρ :=
  Function.update table v (Function.update (table v) n l)

theorem updateTable_apply (table : υ → Int → List ρ) (v v' : υ) (n n' : Int) (l : List ρ) :
    updateTable table v n l v' n' = if v' = v ∧ n' = n then l else table v' n' := by
  simp only [updateTable, Function.update_apply]
  split
  · rename_i hv
    subst hv
    simp [Function.update_apply]
  · rename_i hv
    simp [hv]

theorem Tabled.head_mem (h : Tabled s all table) {p : ρ} (hp : s.registrations v n = some p) :
    p ∈ table v n := by
  have head := (h.links v n).head
  rw [show s.registrations v n = _ from head] at hp
  exact List.mem_of_mem_head? hp

/-- A new registration becomes the first of its table. -/
theorem Tabled.link (h : Tabled s all table) (hreg : reg ∉ all)
    (hservice : s.service (s.queue reg) = v) (hnumber : s.signalNumber reg = n)
    (hprev : s.prevInTable reg = none) :
    Tabled (linkTable s v n reg) (reg :: all) (updateTable table v n (reg :: table v n)) := by
  have hout (v' : υ) (n' : Int) : reg ∉ table v' n' := fun hmem => hreg ((h.mem v' n' reg).1 hmem).1
  have frame := linkTable_frame s v n reg
  constructor
  · intro v' n'
    rw [updateTable_apply]
    split
    · rename_i hvn
      obtain ⟨rfl, rfl⟩ := hvn
      have pushed : tableLinks (linkTable s v' n' reg) v' n' (reg :: table v' n') =
          (tableLinks s v' n' (table v' n')).pushFront reg := by
        apply Links.ext
        · rw [Links.pushFront_head, frame]
          simp [tableLinks]
        · intro p
          rw [Links.pushFront_next, frame]
          by_cases hp : p = reg <;> simp [tableLinks, hp, Function.update_apply]
        · intro p
          rw [Links.pushFront_prev]
          simp only [tableLinks, linkTable_prevInTable]
          by_cases hp : p = reg
          · subst hp
            have hne : s.registrations v' n' ≠ some p := fun hp => hout v' n' (h.head_mem hp)
            simp [hne, hprev]
          · by_cases hfirst : s.registrations v' n' = some p
            · simp [hp, hfirst, h.head_mem hfirst]
            · simp [hp, hfirst]
      rw [pushed]
      exact (h.links v' n').pushFront (hout v' n')
    · rename_i hvn
      have hne (p : ρ) (hp : p ∈ table v' n') : p ≠ reg ∧ s.registrations v n ≠ some p := by
        refine ⟨fun heq => hout v' n' (heq ▸ hp), fun hfirst => hvn ?_⟩
        have old := (h.mem v' n' p).1 hp
        have new := (h.mem v n p).1 (h.head_mem hfirst)
        exact ⟨old.2.1.symm.trans new.2.1, old.2.2.symm.trans new.2.2⟩
      rw [tableLinks_congr (s := s)]
      · exact h.links v' n'
      · rw [frame]
        simp only [Function.update_apply]
        split
        · rename_i hv
          subst hv
          rw [Function.update_of_ne (fun hn => hvn ⟨rfl, hn⟩)]
        · rfl
      · intro p hp
        rw [frame]
        exact Function.update_of_ne (hne p hp).1 ..
      · intro p hp
        rw [linkTable_prevInTable, if_neg (hne p hp).2]
  · intro v' n' p
    rw [updateTable_apply, frame]
    split
    · rename_i hvn
      obtain ⟨rfl, rfl⟩ := hvn
      rw [List.mem_cons, h.mem, List.mem_cons]
      grind
    · rename_i hvn
      rw [h.mem, List.mem_cons]
      grind

theorem unlinkTable_nextInTable (s : SignalState υ ι ρ) (v : υ) (n : Int) (reg p : ρ) :
    (unlinkTable s v n reg).nextInTable p =
      if s.prevInTable reg = some p then s.nextInTable reg else s.nextInTable p := by
  by_cases hhead : s.registrations v n = some reg <;> cases hprev : s.prevInTable reg <;>
    simp only [unlinkTable, setTable, setNextInTable, setPrevInTable, hhead, if_true, if_false,
      hprev] <;>
    split <;> simp [Function.update_apply, eq_comm]

theorem unlinkTable_prevInTable (s : SignalState υ ι ρ) (v : υ) (n : Int) (reg p : ρ) :
    (unlinkTable s v n reg).prevInTable p =
      if s.nextInTable reg = some p then s.prevInTable reg else s.prevInTable p := by
  by_cases hhead : s.registrations v n = some reg <;> cases hprev : s.prevInTable reg <;>
    cases hnext : s.nextInTable reg <;>
      simp [unlinkTable, setTable, setNextInTable, setPrevInTable, hhead, hprev, hnext,
        Function.update_apply] <;> grind

theorem unlinkTable_frame (s : SignalState υ ι ρ) (v : υ) (n : Int) (reg : ρ) :
    unlinkTable s v n reg = { s with
      nextInTable := (unlinkTable s v n reg).nextInTable
      prevInTable := (unlinkTable s v n reg).prevInTable
      registrations := if s.registrations v n = some reg then
          Function.update s.registrations v
            (Function.update (s.registrations v) n (s.nextInTable reg))
        else s.registrations } := by
  by_cases hhead : s.registrations v n = some reg <;> cases hprev : s.prevInTable reg <;>
    simp only [unlinkTable, setTable, setNextInTable, setPrevInTable, hhead, if_true, if_false,
      hprev] <;>
    split <;> rfl

/-- The table of `v` for the signal of `reg` loses it. -/
theorem Tabled.unlink (h : Tabled s all table) (hnodup : all.Nodup) (hreg : reg ∈ all)
    (hservice : s.service (s.queue reg) = v) (hnumber : s.signalNumber reg = n) :
    Tabled (unlinkTable s v n reg) (all.erase reg)
      (updateTable table v n ((table v n).erase reg)) := by
  have hmem : reg ∈ table v n := (h.mem v n reg).2 ⟨hreg, hservice, hnumber⟩
  have links := h.links v n
  have frame := unlinkTable_frame s v n reg
  have next_mem {p : ρ} (hp : s.nextInTable reg = some p) : p ∈ table v n := by
    apply links.next_mem (a := reg)
    simpa only [tableLinks, if_pos hmem] using hp
  have prev_mem {p : ρ} (hp : s.prevInTable reg = some p) : p ∈ table v n := by
    apply links.prev_mem (a := reg)
    simpa only [tableLinks, if_pos hmem] using hp
  constructor
  · intro v' n'
    rw [updateTable_apply]
    split
    · rename_i hvn
      obtain ⟨rfl, rfl⟩ := hvn
      have unlinked : tableLinks (unlinkTable s v' n' reg) v' n' ((table v' n').erase reg) =
          (tableLinks s v' n' (table v' n')).unlink reg := by
        apply Links.ext
        · rw [frame]
          simp only [tableLinks, Links.unlink, if_pos hmem]
          split <;> simp
        · intro p
          simp only [tableLinks, Links.unlink, if_pos hmem, unlinkTable_nextInTable,
            links.nodup.mem_erase_iff]
          by_cases hp : p = reg
          · simp [hp]
          · by_cases hpt : p ∈ table v' n'
            · simp [hp, hpt]
            · have hne : s.prevInTable reg ≠ some p := fun hprev => hpt (prev_mem hprev)
              simp [hp, hpt, hne]
        · intro p
          simp only [tableLinks, Links.unlink, if_pos hmem, unlinkTable_prevInTable,
            links.nodup.mem_erase_iff]
          by_cases hp : p = reg
          · simp [hp]
          · by_cases hpt : p ∈ table v' n'
            · simp [hp, hpt]
            · have hne : s.nextInTable reg ≠ some p := fun hnext => hpt (next_mem hnext)
              simp [hp, hpt, hne]
      rw [unlinked]
      obtain ⟨xs, ys, hl⟩ := List.append_of_mem hmem
      have hnot : reg ∉ xs := by
        have nodup := links.nodup
        rw [hl] at nodup
        grind
      rw [hl, List.erase_append_right _ hnot, List.erase_cons_head]
      rw [hl] at links
      exact links.unlink
    · rename_i hvn
      have apart (p : ρ) (hp : p ∈ table v' n') : p ∉ table v n := by
        intro hp'
        have here := (h.mem v' n' p).1 hp
        have there := (h.mem v n p).1 hp'
        exact hvn ⟨here.2.1.symm.trans there.2.1, here.2.2.symm.trans there.2.2⟩
      rw [tableLinks_congr (s := s)]
      · exact h.links v' n'
      · rw [frame]
        dsimp only
        split
        · simp only [Function.update_apply]
          split
          · rename_i hv
            subst hv
            rw [Function.update_of_ne (fun hn => hvn ⟨rfl, hn⟩)]
          · rfl
        · rfl
      · intro p hp
        rw [unlinkTable_nextInTable, if_neg fun hprev => apart p hp (prev_mem hprev)]
      · intro p hp
        rw [unlinkTable_prevInTable, if_neg fun hnext => apart p hp (next_mem hnext)]
  · intro v' n' p
    rw [updateTable_apply, frame, hnodup.mem_erase_iff]
    split
    · rename_i hvn
      obtain ⟨rfl, rfl⟩ := hvn
      rw [links.nodup.mem_erase_iff, h.mem, and_assoc]
    · rename_i hvn
      rw [h.mem, and_assoc]
      refine ⟨fun hp => ⟨?_, hp⟩, And.right⟩
      rintro rfl
      exact hvn ⟨hp.2.1.symm.trans hservice, hp.2.2.symm.trans hnumber⟩

end Tables

/-! ### Sets -/

section Sets

variable {s : SignalState υ ι ρ} {set : ι → List ρ} {impl : ι} {n : Int} {reg : ρ}
variable {xs ys : List ρ}

theorem findLoop_spec {fuel : Nat} {point next : Option ρ} {l : List ρ}
    (h : Chain s.nextInSet next l) (hfuel : l.length < fuel) :
    findLoop s n fuel point next =
      some ((l.takeWhile (s.signalNumber · < n)).getLast?.or point,
        (l.dropWhile (s.signalNumber · < n)).head?) := by
  induction l generalizing fuel point next with
  | nil =>
    obtain rfl : next = none := h
    cases fuel with
    | zero => cases hfuel
    | succ fuel => rfl
  | cons p l ih =>
    obtain ⟨rfl, htail⟩ := h
    cases fuel with
    | zero => cases hfuel
    | succ fuel =>
      rw [findLoop, List.takeWhile_cons, List.dropWhile_cons]
      by_cases hp : s.signalNumber p < n
      · simp only [hp, if_true, decide_true]
        rw [ih htail (by simpa using hfuel)]
        cases hxs : l.takeWhile (s.signalNumber · < n) <;> simp [List.getLast?_cons]
      · simp [hp]

theorem find_spec (h : Listed s set) (hfuel : (set impl).length ≤ s.allocated.length) (n : Int) :
    ∃ xs ys, set impl = xs ++ ys ∧ find s impl n = some (xs.getLast?, ys.head?) ∧
      (∀ x ∈ xs, s.signalNumber x < n) ∧ ∀ y ∈ ys, n ≤ s.signalNumber y := by
  refine ⟨(set impl).takeWhile (s.signalNumber · < n), (set impl).dropWhile (s.signalNumber · < n),
    List.takeWhile_append_dropWhile.symm, ?_, ?_, ?_⟩
  · rw [find, findLoop_spec (h.chain impl) (by omega), Option.or_none]
  · intro x hx
    simpa using List.mem_takeWhile_imp hx
  · intro y hy
    have sorted := (h.sorted impl).sublist (List.dropWhile_sublist (s.signalNumber · < n))
    cases hys : (set impl).dropWhile (s.signalNumber · < n) with
    | nil => simp [hys] at hy
    | cons z zs =>
      rw [hys] at hy sorted
      have hz : ¬s.signalNumber z < n := by
        have hhead := List.head?_dropWhile_not (s.signalNumber · < n) (set impl)
        simpa [hys] using hhead
      cases hy with
      | head => omega
      | tail _ hmem =>
        have hlt := (List.pairwise_cons.1 sorted).1 y hmem
        omega

theorem setLink_signals (s : SignalState υ ι ρ) (impl : ι) (point v : Option ρ) (i : ι) :
    (setLink s impl point v).signals i =
      if point = none ∧ i = impl then v else s.signals i := by
  cases point <;> simp [setLink, setSignals, setNextInSet, Function.update_apply]

theorem setLink_nextInSet (s : SignalState υ ι ρ) (impl : ι) (point v : Option ρ) (p : ρ) :
    (setLink s impl point v).nextInSet p = if point = some p then v else s.nextInSet p := by
  cases point <;> simp [setLink, setSignals, setNextInSet, Function.update_apply, eq_comm]

theorem setLink_frame (s : SignalState υ ι ρ) (impl : ι) (point v : Option ρ) :
    setLink s impl point v = { s with
      signals := (setLink s impl point v).signals
      nextInSet := (setLink s impl point v).nextInSet } := by
  cases point <;> rfl

/-- The list of `impl` goes on with `zs` after `xs`. -/
theorem Listed.relink {zs : List ρ} {v : Option ρ} (h : Listed s set)
    (hset : set impl = xs ++ ys)
    (hz : Chain (setLink s impl xs.getLast? v).nextInSet v zs)
    (hsorted : (xs ++ zs).Pairwise fun p q => s.signalNumber p < s.signalNumber q)
    (hqueue : ∀ p ∈ zs, s.queue p = impl) :
    Listed (setLink s impl xs.getLast? v) (Function.update set impl (xs ++ zs)) := by
  have frame := setLink_frame s impl xs.getLast? v
  constructor
  · intro i
    by_cases hi : i = impl
    · subst hi
      rw [Function.update_self]
      have chain := h.chain i
      rw [hset] at chain
      refine chain.splice ?_ ?_ ?_ ?_
      · cases hlast : xs.getLast? with
        | none =>
          simpa [linkAfter, hlast, setLink_signals] using hz
        | some p =>
          simpa [linkAfter, hlast, setLink_nextInSet] using hz
      · intro hne
        have hlast : xs.getLast? ≠ none := by simpa using hne
        rw [setLink_signals, if_neg fun hnone => hlast hnone.1]
      · intro p _ hlast
        rw [setLink_nextInSet, if_neg hlast]
      · exact (List.nodup_append.1 (hset ▸ h.nodup i)).1
    · rw [Function.update_of_ne hi, setLink_signals, if_neg fun hboth => hi hboth.2]
      refine (h.chain i).congr fun p hp => ?_
      rw [setLink_nextInSet, if_neg]
      intro hlast
      have himpl : p ∈ set impl := hset ▸ List.mem_append_left _ (List.mem_of_getLast? hlast)
      exact hi ((h.mem_iff himpl i).1 hp)
  · intro i
    rw [frame]
    by_cases hi : i = impl
    · subst hi
      rw [Function.update_self]
      exact hsorted
    · rw [Function.update_of_ne hi]
      exact h.sorted i
  · intro i p hp
    rw [frame]
    by_cases hi : i = impl
    · subst hi
      rw [Function.update_self, List.mem_append] at hp
      rcases hp with hp | hp
      · exact h.queue i p (hset ▸ List.mem_append_left _ hp)
      · exact hqueue p hp
    · rw [Function.update_of_ne hi] at hp
      exact h.queue i p hp

theorem Listed.head_after (h : Listed s set) (hset : set impl = xs ++ reg :: ys) :
    Chain s.nextInSet (s.nextInSet reg) ys := by
  have chain := h.chain impl
  rw [hset] at chain
  exact chain.suffix.2

theorem Listed.remove (h : Listed s set) (hset : set impl = xs ++ reg :: ys) :
    Listed (setLink s impl xs.getLast? (s.nextInSet reg)) (Function.update set impl (xs ++ ys)) := by
  have sub : (xs ++ ys).Sublist (xs ++ reg :: ys) :=
    (List.Sublist.refl xs).append (List.sublist_cons_self reg ys)
  have nodup := h.nodup impl
  rw [hset] at nodup
  refine h.relink hset ((h.head_after hset).congr fun p hp => ?_) ?_ fun p hp => ?_
  · rw [setLink_nextInSet, if_neg]
    intro hlast
    have hx := List.mem_of_getLast? hlast
    grind
  · exact (hset ▸ h.sorted impl).sublist sub
  · apply h.queue impl p
    rw [hset]
    simp [hp]

/-- A new registration is linked between those of lower and of higher signals. -/
theorem Listed.insert (h : Listed s set) (hset : set impl = xs ++ ys)
    (hlt : ∀ x ∈ xs, s.signalNumber x < n) (hgt : ∀ y ∈ ys, n < s.signalNumber y)
    (hnew : ∀ i, reg ∉ set i) :
    Listed (setLink (allocate s reg impl n ys.head?) impl xs.getLast? (some reg))
      (Function.update set impl (xs ++ reg :: ys)) := by
  have hne (i : ι) (p : ρ) (hp : p ∈ set i) : p ≠ reg := by
    rintro rfl
    exact hnew i hp
  have hx (p : ρ) (hp : p ∈ xs) : p ≠ reg := hne impl p (hset ▸ List.mem_append_left _ hp)
  have hy (p : ρ) (hp : p ∈ ys) : p ≠ reg := hne impl p (hset ▸ List.mem_append_right _ hp)
  have allocated : Listed (allocate s reg impl n ys.head?) set :=
    h.congr rfl (fun i p hp => Function.update_of_ne (hne i p hp) ..)
      (fun i p hp => Function.update_of_ne (hne i p hp) ..)
      fun i p hp => Function.update_of_ne (hne i p hp) ..
  have nodup := h.nodup impl
  rw [hset] at nodup
  have sorted := h.sorted impl
  rw [hset] at sorted
  have hlast (p : ρ) (hp : p ∈ reg :: ys) : xs.getLast? ≠ some p := by
    intro hlast
    have hp' := List.mem_of_getLast? hlast
    cases hp with
    | head => exact hx reg hp' rfl
    | tail _ hmem => exact (List.disjoint_of_nodup_append nodup) hp' hmem
  have spliced : Chain (setLink (allocate s reg impl n ys.head?) impl xs.getLast?
      (some reg)).nextInSet (some reg) (reg :: ys) := by
    refine ⟨rfl, ?_⟩
    rw [setLink_nextInSet, if_neg (hlast reg List.mem_cons_self)]
    have chain := allocated.chain impl
    rw [hset] at chain
    have suffix := chain.suffix
    rw [suffix.head_eq] at suffix
    have next : (allocate s reg impl n ys.head?).nextInSet reg = ys.head? := Function.update_self ..
    rw [next]
    refine suffix.congr fun p hp => ?_
    rw [setLink_nextInSet, if_neg (hlast p (List.mem_cons_of_mem _ hp))]
  refine allocated.relink hset spliced ?_ ?_
  · have number (p : ρ) : (allocate s reg impl n ys.head?).signalNumber p =
        if p = reg then n else s.signalNumber p := Function.update_apply ..
    simp only [number]
    rw [List.pairwise_append, List.pairwise_cons]
    rw [List.pairwise_append] at sorted
    refine ⟨?_, ⟨?_, ?_⟩, ?_⟩
    · refine sorted.1.imp_of_mem fun {p q} hp hq hpq => ?_
      rwa [if_neg (hx p hp), if_neg (hx q hq)]
    · intro q hq
      rw [if_pos rfl, if_neg (hy q hq)]
      exact hgt q hq
    · refine sorted.2.1.imp_of_mem fun {p q} hp hq hpq => ?_
      rwa [if_neg (hy p hp), if_neg (hy q hq)]
    · intro p hp q hq
      rw [if_neg (hx p hp)]
      cases hq with
      | head =>
        rw [if_pos rfl]
        exact hlt p hp
      | tail _ hmem =>
        rw [if_neg (hy q hmem)]
        exact sorted.2.2 p hp q hmem
  · intro p hp
    cases hp with
    | head => exact Function.update_self ..
    | tail _ hmem =>
      refine (Function.update_of_ne (hy p hmem) ..).trans ?_
      exact h.queue impl p (hset ▸ List.mem_append_right _ hmem)

end Sets

end Asio.Detail.SignalSetService
