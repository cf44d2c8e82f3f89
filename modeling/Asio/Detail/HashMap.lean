import Mathlib.Algebra.Group.Int.Defs
import Mathlib.Logic.Function.Basic
import Asio.Lib.Grouped

/-! The hash map whose values are one list of recycled nodes, grouped by bucket. -/

universe u v

set_option linter.unusedSectionVars false

namespace Asio.Detail

class HashKey (K : Type u) where
  calculateHashValue : K → Nat

instance : HashKey Int := ⟨fun i => (i % 2 ^ 64).toNat⟩

/-- A class with its constructor, its copy constructor and its assignment. -/
class Assignable (V : Type v) where
  construct : V
  copy : V → V
  assign : V → V → V

/-- The iterators of a bucket, `none` being the end of the values. -/
structure Bucket where
  first : Option Nat
  last : Option Nat
  deriving DecidableEq

structure HashMap (K : Type u) (V : Type v) where
  size : Nat
  values : List Nat
  spares : List Nat
  node : Nat → K × V
  allocated : Nat
  buckets : Nat → Bucket
  numBuckets : Nat

namespace HashMap

variable {K : Type u} {V : Type v}

/-! ### Iterators into a list of nodes -/

/-- `++it`. -/
def next (l : List Nat) (it : Option Nat) : Option Nat :=
  it.bind fun n => (l.dropWhile (· ≠ n)).tail.head?

/-- `--it`. -/
def prev (l : List Nat) (it : Option Nat) : Option Nat :=
  (l.takeWhile (some · ≠ it)).getLast?

def insertBefore (l : List Nat) (it : Option Nat) (n : Nat) : List Nat :=
  l.takeWhile (some · ≠ it) ++ n :: l.dropWhile (some · ≠ it)

def splice (l : List Nat) (it : Option Nat) (n : Nat) : List Nat :=
  insertBefore (l.erase n) it n

/-! ### Operations -/

def key (m : HashMap K V) (n : Nat) : K := (m.node n).1

def value (m : HashMap K V) (n : Nat) : V := (m.node n).2

def construct [Inhabited K] [Assignable V] : HashMap K V where
  size := 0
  values := []
  spares := []
  node _ := (default, Assignable.construct)
  allocated := 0
  buckets _ := ⟨none, none⟩
  numBuckets := 0

def sizes : List Nat :=
  [3, 13, 23, 53, 97, 193, 389, 769, 1543, 3079, 6151, 12289, 24593, 49157, 98317, 196613, 393241,
    786433, 1572869, 3145739, 6291469, 12582917, 25165843]

def hashSize (numElems : Nat) : Nat :=
  (sizes.dropLast.find? fun size => numElems < size).getD 25165843

/-- The walk over the list from an iterator to `stop`. -/
def search [DecidableEq K] (m : HashMap K V) (k : K) (stop : Option Nat) : List Nat → Option Nat
  | [] => none
  | n :: rest =>
    if some n = stop then none else if m.key n = k then some n else m.search k stop rest

section Hashing

variable [HashKey K]

def bucketOf (m : HashMap K V) (k : K) : Nat := HashKey.calculateHashValue k % m.numBuckets

def find [DecidableEq K] (m : HashMap K V) (k : K) : Option Nat :=
  if m.numBuckets ≠ 0 then
    let bucket := m.bucketOf k
    match (m.buckets bucket).first with
    | none => none
    | some it =>
      m.search k (next m.values (m.buckets bucket).last) (m.values.dropWhile (· ≠ it))
  else
    none

/-- Put the values from an iterator on back into the hash. -/
def rehashFrom (m : HashMap K V) : List Nat → HashMap K V
  | [] => m
  | iter :: rest =>
    let bucket := m.bucketOf (m.key iter)
    match (m.buckets bucket).last with
    | none =>
      { m with buckets := Function.update m.buckets bucket ⟨some iter, some iter⟩ }.rehashFrom rest
    | some last =>
      let last := next m.values (some last)
      if last = some iter then
        { m with
          buckets := Function.update m.buckets bucket
            { m.buckets bucket with last := last } }.rehashFrom rest
      else
        let values := splice m.values last iter
        { m with
          values := values
          buckets := Function.update m.buckets bucket
            { m.buckets bucket with last := prev values last } }.rehashFrom rest

def rehash (m : HashMap K V) (numBuckets : Nat) : HashMap K V :=
  if numBuckets = m.numBuckets then
    m
  else
    { m with numBuckets := numBuckets, buckets := fun _ => ⟨none, none⟩ }.rehashFrom m.values

def valuesInsert [Assignable V] (m : HashMap K V) (it : Option Nat) (v : K × V) :
    HashMap K V × Nat :=
  match m.spares with
  | [] =>
    let n := m.allocated
    ({ m with
        node := Function.update m.node n (v.1, Assignable.copy v.2)
        values := insertBefore m.values it n
        allocated := n + 1 }, n)
  | n :: spares =>
    ({ m with
        node := Function.update m.node n (v.1, Assignable.assign (m.value n) v.2)
        values := insertBefore m.values it n
        spares := spares }, n)

def insert [DecidableEq K] [Assignable V] (m : HashMap K V) (v : K × V) :
    HashMap K V × Nat × Bool :=
  let m := if m.numBuckets ≤ m.size + 1 then m.rehash (hashSize (m.size + 1)) else m
  let bucket := m.bucketOf v.1
  match (m.buckets bucket).first with
  | none =>
    let (m, n) := m.valuesInsert none v
    ({ m with
        buckets := Function.update m.buckets bucket ⟨some n, some n⟩
        size := m.size + 1 }, n, true)
  | some it =>
    let endIt := next m.values (m.buckets bucket).last
    match m.search v.1 endIt (m.values.dropWhile (· ≠ it)) with
    | some n => (m, n, false)
    | none =>
      let (m, n) := m.valuesInsert endIt v
      ({ m with
          buckets := Function.update m.buckets bucket { m.buckets bucket with last := some n }
          size := m.size + 1 }, n, true)

def valuesErase [Inhabited K] [Assignable V] (m : HashMap K V) (n : Nat) : HashMap K V :=
  { m with
    node := Function.update m.node n
      (default, Assignable.assign (m.value n) Assignable.construct)
    values := m.values.erase n
    spares := n :: m.spares }

def erase [Inhabited K] [Assignable V] (m : HashMap K V) (n : Nat) : HashMap K V :=
  let bucket := m.bucketOf (m.key n)
  let b := m.buckets bucket
  let isFirst := b.first = some n
  let isLast := b.last = some n
  let b :=
    if isFirst ∧ isLast then ⟨none, none⟩
    else if isFirst then { b with first := next m.values b.first }
    else if isLast then { b with last := prev m.values b.last }
    else b
  let m := { m with buckets := Function.update m.buckets bucket b }.valuesErase n
  { m with size := m.size - 1 }

end Hashing

/-- What a node holds becomes `v`. -/
def setValue (m : HashMap K V) (n : Nat) (v : V) : HashMap K V :=
  { m with node := Function.update m.node n (m.key n, v) }

/-! ### Positions in a list without duplicates -/

section Positions

variable {l xs ys : List Nat} {n s : Nat}

theorem takeWhile_until (h : (xs ++ ys).Nodup) :
    (xs ++ ys).takeWhile (some · ≠ ys.head?) = xs := by
  induction xs with
  | nil => cases ys <;> simp
  | cons x xs ih =>
    rw [List.cons_append, List.nodup_cons] at h
    have hx : some x ≠ ys.head? := fun hx =>
      h.1 (List.mem_append_right _ (List.mem_of_mem_head? hx.symm))
    rw [List.cons_append, List.takeWhile_cons_of_pos (by simpa using hx), ih h.2]

theorem dropWhile_until (h : (xs ++ ys).Nodup) :
    (xs ++ ys).dropWhile (some · ≠ ys.head?) = ys := by
  have hall := List.takeWhile_append_dropWhile (p := (some · ≠ ys.head?)) (l := xs ++ ys)
  rw [takeWhile_until h] at hall
  exact List.append_cancel_left hall

theorem insertBefore_eq (h : (xs ++ ys).Nodup) (n : Nat) :
    insertBefore (xs ++ ys) ys.head? n = xs ++ n :: ys := by
  rw [insertBefore, takeWhile_until h, dropWhile_until h]

theorem prev_eq (h : (xs ++ ys).Nodup) : prev (xs ++ ys) ys.head? = xs.getLast? := by
  rw [prev, takeWhile_until h]

theorem dropWhile_node (h : (xs ++ n :: ys).Nodup) :
    (xs ++ n :: ys).dropWhile (· ≠ n) = n :: ys := by
  have := dropWhile_until h
  simpa using this

theorem next_eq (h : (xs ++ n :: ys).Nodup) : next (xs ++ n :: ys) (some n) = ys.head? := by
  rw [next, Option.bind_some, dropWhile_node h, List.tail_cons]

theorem insert_after (h : (xs ++ s :: ys).Nodup) (n : Nat) :
    insertBefore (xs ++ s :: ys) (next (xs ++ s :: ys) (some s)) n = xs ++ s :: n :: ys := by
  rw [next_eq h]
  have := insertBefore_eq (show ((xs ++ [s]) ++ ys).Nodup by simpa using h) n
  simpa using this

theorem insertBefore_end (h : l.Nodup) (n : Nat) : insertBefore l none n = l ++ [n] := by
  have := insertBefore_eq (show (l ++ []).Nodup by simpa using h) n
  simpa using this

end Positions

/-! ### The list is grouped, and every bucket is where its group is -/

structure Indexed (f : Nat → Nat) (num : Nat) (buckets : Nat → Bucket) (l : List Nat) : Prop where
  nodup : l.Nodup
  grouped : Lib.Grouped (l.map f)
  range : ∀ i, i < num →
    buckets i = ⟨(l.filter (f · = i)).head?, (l.filter (f · = i)).getLast?⟩

section Index

variable {f : Nat → Nat} {num : Nat} {buckets : Nat → Bucket} {l xs ys : List Nat} {i n s : Nat}

theorem indexed_nil (f : Nat → Nat) (num : Nat) : Indexed f num (fun _ => ⟨none, none⟩) [] where
  nodup := List.nodup_nil
  grouped := trivial
  range _ _ := rfl

theorem Indexed.congr {g : Nat → Nat} (h : Indexed f num buckets l) (hfg : ∀ a ∈ l, f a = g a) :
    Indexed g num buckets l where
  nodup := h.nodup
  grouped := List.map_congr_left hfg ▸ h.grouped
  range i hi := by
    rw [h.range i hi, List.filter_congr fun a ha => by rw [hfg a ha]]

theorem Indexed.first_eq_none_iff (h : Indexed f num buckets l) (hi : i < num) :
    (buckets i).first = none ↔ i ∉ l.map f := by
  rw [h.range i hi, List.head?_eq_none_iff, List.filter_eq_nil_iff]
  simp

theorem Indexed.last_eq_none_iff (h : Indexed f num buckets l) (hi : i < num) :
    (buckets i).last = none ↔ i ∉ l.map f := by
  rw [h.range i hi, List.getLast?_eq_none_iff, List.filter_eq_nil_iff]
  simp

/-- The last node of a bucket has only nodes of other buckets behind it. -/
theorem Indexed.last_split (h : Indexed f num buckets l) (hi : i < num)
    (hs : (buckets i).last = some s) :
    ∃ xs ys, l = xs ++ s :: ys ∧ f s = i ∧ ∀ y ∈ ys, f y ≠ i := by
  rw [h.range i hi] at hs
  obtain ⟨seg, hseg⟩ := List.getLast?_eq_some_iff.mp hs
  obtain ⟨l₁, l₂, rfl, _, hl₂⟩ := List.filter_eq_append_iff.mp hseg
  obtain ⟨m₁, m₂, rfl, _, hfs, hm₂⟩ := List.filter_eq_cons_iff.mp hl₂
  refine ⟨l₁ ++ m₁, m₂, by simp, by simpa using hfs, fun y hy => ?_⟩
  have := List.filter_eq_nil_iff.mp hm₂ y hy
  simpa using this

theorem Indexed.append_new (h : Indexed f num buckets l) (hn : n ∉ l) (hi : f n ∉ l.map f) :
    Indexed f num (Function.update buckets (f n) ⟨some n, some n⟩) (l ++ [n]) where
  nodup := List.nodup_append'.mpr ⟨h.nodup, List.nodup_singleton n, by simpa using hn⟩
  grouped := by
    rw [List.map_append]
    exact h.grouped.append_new hi
  range i hlt := by
    rw [List.filter_append]
    by_cases hin : f n = i
    · have hnone : l.filter (f · = i) = [] := by
        rw [List.filter_eq_nil_iff]
        intro a ha hai
        exact hi (List.mem_map.mpr ⟨a, ha, by rw [hin]; simpa using hai⟩)
      rw [hnone, ← hin, Function.update_self]
      simp
    · rw [Function.update_of_ne (Ne.symm hin), h.range i hlt]
      simp [hin]

theorem Indexed.insert_after (h : Indexed f num buckets (xs ++ s :: ys))
    (hn : n ∉ xs ++ s :: ys) (hs : f s = f n) (hys : ∀ y ∈ ys, f y ≠ f n) :
    Indexed f num
      (Function.update buckets (f n) { buckets (f n) with last := some n })
      (xs ++ s :: n :: ys) where
  nodup := by
    have hperm : (xs ++ s :: n :: ys).Perm (n :: (xs ++ s :: ys)) := by
      have : ((xs ++ [s]) ++ n :: ys).Perm (n :: ((xs ++ [s]) ++ ys)) := List.perm_middle
      simpa using this
    exact hperm.nodup_iff.mpr (List.nodup_cons.mpr ⟨hn, h.nodup⟩)
  grouped := by
    have hg := h.grouped
    simp only [List.map_append, List.map_cons, hs] at hg ⊢
    exact hg.insert_same
  range i hlt := by
    by_cases hin : f n = i
    · have hrest : ys.filter (f · = i) = [] := by
        rw [List.filter_eq_nil_iff]
        intro a ha
        simpa [← hin] using hys a ha
      rw [← hin] at hlt hrest ⊢
      rw [Function.update_self, h.range _ hlt]
      simp [hs, hrest, List.head?_append]
    · rw [Function.update_of_ne (Ne.symm hin), h.range i hlt]
      simp [hs, hin]

/-- The nodes of a bucket stand between nodes of other buckets. -/
theorem Indexed.split (h : Indexed f num buckets l) (i : Nat) :
    ∃ xs ys, l = xs ++ l.filter (f · = i) ++ ys ∧ (∀ a ∈ xs, f a ≠ i) ∧ ∀ a ∈ ys, f a ≠ i :=
  h.grouped.split i

/-- The bucket of a node that leaves the list. -/
theorem Indexed.erase (h : Indexed f num buckets l) (hn : n ∈ l) (hlt : f n < num) {b : Bucket}
    (hb : b =
      if (buckets (f n)).first = some n ∧ (buckets (f n)).last = some n then ⟨none, none⟩
      else if (buckets (f n)).first = some n then
        { buckets (f n) with first := next l (buckets (f n)).first }
      else if (buckets (f n)).last = some n then
        { buckets (f n) with last := prev l (buckets (f n)).last }
      else buckets (f n)) :
    Indexed f num (Function.update buckets (f n) b) (l.erase n) := by
  obtain ⟨xs, ys, hl, hxs, hys⟩ := h.split (f n)
  have hmem : n ∈ l.filter (f · = f n) := by simpa using hn
  obtain ⟨as, cs, hseg⟩ := List.append_of_mem hmem
  have hrange := h.range (f n) hlt
  rw [hseg] at hl hrange
  have hsplit : l = (xs ++ as) ++ n :: (cs ++ ys) := by simpa using hl
  have hnodup := h.nodup
  rw [hsplit] at hnodup
  have hnotin : n ∉ xs ++ as := fun hx =>
    (List.nodup_append'.mp hnodup).2.2 hx (List.mem_cons_self ..)
  have herase : l.erase n = (xs ++ as) ++ (cs ++ ys) := by
    rw [hsplit, List.erase_append_right _ hnotin, List.erase_cons_head]
  have hne : ∀ a ∈ as ++ cs, a ≠ n := by
    intro a ha han
    have hperm := (show (as ++ n :: cs).Perm (n :: (as ++ cs)) from List.perm_middle).nodup_iff
    have hsegNodup := h.nodup.filter (f · = f n)
    rw [hseg, hperm, List.nodup_cons] at hsegNodup
    exact hsegNodup.1 (han ▸ ha)
  have hfirst : (as ++ n :: cs).head? = some n ↔ as = [] := by
    cases as with
    | nil => simp
    | cons a as => simpa using hne a (by simp)
  have hlast : (as ++ n :: cs).getLast? = some n ↔ cs = [] := by
    rw [List.getLast?_append_of_ne_nil _ (List.cons_ne_nil n cs)]
    cases cs with
    | nil => simp
    | cons c cs =>
      rw [List.getLast?_cons_cons]
      simpa using fun hn => hne n (List.mem_append_right _ (List.mem_of_getLast? hn)) rfl
  have hb' : b = ⟨(as ++ cs).head?, (as ++ cs).getLast?⟩ := by
    rw [hb, hrange]
    simp only [hfirst, hlast]
    cases as with
    | nil =>
      cases cs with
      | nil => simp
      | cons c cs =>
        have hnext : next l (some n) = some c := by
          rw [hsplit, next_eq hnodup]
          rfl
        simp [hnext]
    | cons a as =>
      cases cs with
      | nil =>
        have hprev : prev l (some n) = (a :: as).getLast? := by
          rw [hsplit]
          rw [List.nil_append] at hnodup ⊢
          have := prev_eq hnodup
          rw [List.head?_cons] at this
          rw [this, List.getLast?_append_of_ne_nil _ (List.cons_ne_nil a as)]
        have hend : (a :: as ++ [n]).getLast? = some n := List.getLast?_concat
        simp only [hend, hprev]
        simp
      | cons c cs =>
        have hend : (a :: as ++ n :: c :: cs).getLast? = (c :: cs).getLast? := by
          rw [List.getLast?_append_of_ne_nil _ (List.cons_ne_nil n (c :: cs)),
            List.getLast?_cons_cons]
        simp only [hend, List.getLast?_append_of_ne_nil _ (List.cons_ne_nil c cs)]
        simp
  refine ⟨h.nodup.erase n, ?_, fun i hi => ?_⟩
  · exact h.grouped.sublist (List.erase_sublist.map f)
  · have hfilter : (l.erase n).filter (f · = f n) = as ++ cs := by
      rw [h.nodup.erase_eq_filter, List.filter_comm, hseg, List.filter_append,
        List.filter_cons_of_neg (by simp), ← List.filter_append]
      exact List.filter_eq_self.mpr fun a ha => by simpa using hne a ha
    by_cases hin : f n = i
    · rw [← hin, Function.update_self, hb', hfilter]
    · have hsame : (l.erase n).filter (f · = i) = l.filter (f · = i) := by
        rw [herase, hsplit]
        simp [hin]
      rw [Function.update_of_ne (Ne.symm hin), h.range i hi, hsame]

theorem search_until {K : Type u} {V : Type v} [DecidableEq K] (m : HashMap K V) (k : K)
    (h : (xs ++ ys).Nodup) : m.search k ys.head? (xs ++ ys) = xs.find? (m.key · = k) := by
  induction xs with
  | nil => cases ys <;> simp [search]
  | cons x xs ih =>
    rw [List.cons_append, List.nodup_cons] at h
    have hx : some x ≠ ys.head? := fun hx =>
      h.1 (List.mem_append_right _ (List.mem_of_mem_head? hx.symm))
    rw [List.cons_append, search, if_neg hx, ih h.2, List.find?_cons]
    by_cases hk : m.key x = k <;> simp [hk]

/-- The search through a bucket finds what is in the list. -/
theorem Indexed.search {K : Type u} {V : Type v} [DecidableEq K] {m : HashMap K V} {k : K}
    {it : Nat} (h : Indexed f num buckets l) (hlt : i < num) (hit : (buckets i).first = some it)
    (hk : ∀ a ∈ l, m.key a = k → f a = i) :
    m.search k (next l (buckets i).last) (l.dropWhile (· ≠ it)) = l.find? (m.key · = k) := by
  obtain ⟨xs, ys, hl, hxs, hys⟩ := h.split i
  have hnodup := h.nodup
  rw [h.range i hlt] at hit ⊢
  generalize hseg : l.filter (f · = i) = seg at hl hit
  obtain ⟨rest, rfl⟩ := List.head?_eq_some_iff.mp hit
  obtain ⟨init, s, hlast⟩ : ∃ init s, it :: rest = init ++ [s] :=
    ⟨_, _, (List.dropLast_append_getLast (List.cons_ne_nil it rest)).symm⟩
  have hnext : next l (it :: rest).getLast? = ys.head? := by
    have hl' : l = (xs ++ init) ++ s :: ys := by
      rw [hl, hlast]
      simp
    rw [hlast, List.getLast?_concat, hl']
    exact next_eq (hl' ▸ hnodup)
  have hdrop : l.dropWhile (· ≠ it) = (it :: rest) ++ ys := by
    have hl' : l = xs ++ it :: (rest ++ ys) := by
      rw [hl]
      simp
    rw [hl']
    exact dropWhile_node (hl' ▸ hnodup)
  have hnone : ∀ zs : List Nat, (∀ a ∈ zs, a ∈ l) → (∀ a ∈ zs, f a ≠ i) →
      zs.find? (m.key · = k) = none := by
    intro zs hin hne
    rw [List.find?_eq_none]
    intro a ha hak
    exact hne a ha (hk a (hin a ha) (by simpa using hak))
  rw [hl, List.append_assoc] at hnodup
  rw [hnext, hdrop, search_until m k (List.nodup_append'.mp hnodup).2.1]
  conv => rhs; rw [hl]
  rw [List.find?_append, List.find?_append, hnone xs (fun a ha => by rw [hl]; simp [ha]) hxs,
    hnone ys (fun a ha => by rw [hl]; simp [ha]) hys]
  simp

end Index

/-! ### The map -/

structure WellFormed [HashKey K] (m : HashMap K V) : Prop where
  indexed : Indexed (fun n => m.bucketOf (m.key n)) m.numBuckets m.buckets m.values
  keys : (m.values.map m.key).Nodup
  nodup : (m.values ++ m.spares).Nodup
  allocated : ∀ n ∈ m.values ++ m.spares, n < m.allocated
  size : m.size = m.values.length
  unbucketed : m.numBuckets = 0 → m.values = []

section Map

variable [HashKey K] {m : HashMap K V} {n : Nat} {k : K}

theorem bucketOf_lt (m : HashMap K V) (k : K) (h : m.numBuckets ≠ 0) :
    m.bucketOf k < m.numBuckets :=
  Nat.mod_lt _ (Nat.pos_of_ne_zero h)

theorem construct_wellFormed [Inhabited K] [Assignable V] :
    (construct : HashMap K V).WellFormed where
  indexed := indexed_nil _ _
  keys := List.nodup_nil
  nodup := List.nodup_nil
  allocated _ h := by cases h
  size := rfl
  unbucketed _ := rfl

theorem find_eq [DecidableEq K] (h : m.WellFormed) (k : K) :
    m.find k = m.values.find? (m.key · = k) := by
  unfold find
  by_cases hnum : m.numBuckets = 0
  · simp [hnum, h.unbucketed hnum]
  · rw [if_pos hnum]
    have hlt := bucketOf_lt m k hnum
    cases hit : (m.buckets (m.bucketOf k)).first with
    | none =>
      simp only [hit]
      rw [eq_comm, List.find?_eq_none]
      intro n hn hk
      refine (h.indexed.first_eq_none_iff hlt).mp hit (List.mem_map.mpr ⟨n, hn, ?_⟩)
      rw [show m.key n = k by simpa using hk]
    | some it =>
      simp only [hit]
      exact h.indexed.search hlt hit fun n _ hk => by rw [hk]

theorem find_eq_some_iff [DecidableEq K] (h : m.WellFormed) :
    m.find k = some n ↔ n ∈ m.values ∧ m.key n = k := by
  rw [find_eq h]
  constructor
  · intro hf
    exact ⟨List.mem_of_find?_eq_some hf, by simpa using List.find?_some hf⟩
  · rintro ⟨hn, rfl⟩
    cases hf : m.values.find? (m.key · = m.key n) with
    | none => exact absurd (List.find?_eq_none.mp hf n hn) (by simp)
    | some n' =>
      have hn' := List.mem_of_find?_eq_some hf
      have hk : m.key n' = m.key n := by simpa using List.find?_some hf
      rw [List.inj_on_of_nodup_map h.keys hn' hn hk]

theorem find_eq_none_iff [DecidableEq K] (h : m.WellFormed) :
    m.find k = none ↔ k ∉ m.values.map m.key := by
  rw [find_eq h, List.find?_eq_none]
  simp

/-- The same nodes, listed and indexed otherwise. -/
def arranged (m : HashMap K V) (values : List Nat) (buckets : Nat → Bucket) : HashMap K V :=
  { m with values := values, buckets := buckets }

theorem arranged_rehashFrom_cons (m : HashMap K V) (values : List Nat) (buckets : Nat → Bucket)
    (n : Nat) (rest : List Nat) :
    (m.arranged values buckets).rehashFrom (n :: rest) =
      match (buckets (m.bucketOf (m.key n))).last with
      | none =>
        (m.arranged values (Function.update buckets (m.bucketOf (m.key n))
          ⟨some n, some n⟩)).rehashFrom rest
      | some s =>
        if next values (some s) = some n then
          (m.arranged values (Function.update buckets (m.bucketOf (m.key n))
            { buckets (m.bucketOf (m.key n)) with
              last := next values (some s) })).rehashFrom rest
        else
          (m.arranged (splice values (next values (some s)) n)
            (Function.update buckets (m.bucketOf (m.key n))
              { buckets (m.bucketOf (m.key n)) with
                last := prev (splice values (next values (some s)) n)
                  (next values (some s)) })).rehashFrom rest := by
  rfl

/-- The values that stand before the iterator are in the hash again. -/
theorem rehashFrom_spec (m : HashMap K V) (hnum : m.numBuckets ≠ 0) (rest : List Nat)
    {done values : List Nat} {buckets : Nat → Bucket} (hvalues : values = done ++ rest)
    (hnodup : values.Nodup)
    (h : Indexed (fun n => m.bucketOf (m.key n)) m.numBuckets buckets done) :
    ∃ values' buckets',
      (m.arranged values buckets).rehashFrom rest = m.arranged values' buckets' ∧
      values'.Perm values ∧
      Indexed (fun n => m.bucketOf (m.key n)) m.numBuckets buckets' values' := by
  induction rest generalizing done values buckets with
  | nil =>
    rw [List.append_nil] at hvalues
    exact ⟨values, buckets, rfl, List.Perm.refl _, hvalues ▸ h⟩
  | cons n rest ih =>
    have hlt := bucketOf_lt m (m.key n) hnum
    have hn : n ∉ done := by
      intro hn
      rw [hvalues] at hnodup
      exact (List.nodup_append'.mp hnodup).2.2 hn (List.mem_cons_self ..)
    rw [arranged_rehashFrom_cons]
    cases hlast : (buckets (m.bucketOf (m.key n))).last with
    | none =>
      have hnew := (h.last_eq_none_iff hlt).mp hlast
      exact ih (by simpa using hvalues) hnodup (h.append_new hn hnew)
    | some s =>
      obtain ⟨xs, ys, rfl, hs, hys⟩ := h.last_split hlt hlast
      have hind := h.insert_after hn hs hys
      have hvalues' : values = xs ++ s :: (ys ++ n :: rest) := by simpa using hvalues
      have hnext : next values (some s) = (ys ++ n :: rest).head? := by
        rw [hvalues']
        exact next_eq (hvalues' ▸ hnodup)
      simp only [hnext]
      cases ys with
      | nil =>
        rw [List.nil_append, List.head?_cons, if_pos rfl]
        exact ih (by simpa using hvalues) hnodup hind
      | cons y ys =>
        have hy : some y ≠ some n := fun hy => hn (by simp [Option.some.inj hy])
        rw [List.cons_append, List.head?_cons, if_neg hy]
        have herase : values.erase n = (xs ++ [s]) ++ (y :: ys ++ rest) := by
          rw [hvalues', ← List.cons_append, ← List.append_assoc,
            List.erase_append_right _ hn, List.erase_cons_head]
          simp
        have hnodup' : ((xs ++ [s]) ++ (y :: ys ++ rest)).Nodup := herase ▸ hnodup.erase n
        have hsplice : splice values (some y) n = (xs ++ s :: n :: y :: ys) ++ rest := by
          have := insertBefore_eq hnodup' n
          rw [splice, herase]
          simpa using this
        have hperm : (splice values (some y) n).Perm values := by
          rw [hsplice, hvalues]
          refine List.Perm.trans ?_ List.perm_middle.symm
          have : ((xs ++ [s]) ++ n :: (y :: ys ++ rest)).Perm (n :: ((xs ++ [s]) ++ (y :: ys ++ rest))) :=
            List.perm_middle
          simpa using this
        have hprev : prev (splice values (some y) n) (some y) = some n := by
          have hnodup'' := hperm.nodup_iff.mpr hnodup
          rw [hsplice] at hnodup'' ⊢
          have := prev_eq (show ((xs ++ [s, n]) ++ (y :: ys ++ rest)).Nodup by simpa using hnodup'')
          simpa using this
        rw [hprev]
        obtain ⟨values', buckets', heq, hperm', hind'⟩ :=
          ih hsplice (hperm.nodup_iff.mpr hnodup) hind
        exact ⟨values', buckets', heq, hperm'.trans hperm, hind'⟩

/-- The same nodes and contents, listed in another order. -/
structure Rearranged (m m' : HashMap K V) : Prop where
  values : m'.values.Perm m.values
  spares : m'.spares = m.spares
  node : m'.node = m.node
  size : m'.size = m.size
  allocated : m'.allocated = m.allocated

theorem Rearranged.refl (m : HashMap K V) : Rearranged m m :=
  ⟨List.Perm.refl _, rfl, rfl, rfl, rfl⟩

theorem Rearranged.wellFormed {m' : HashMap K V} (hr : Rearranged m m') (h : m.WellFormed)
    (hnum : m'.numBuckets ≠ 0)
    (hind : Indexed (fun n => m'.bucketOf (m'.key n)) m'.numBuckets m'.buckets m'.values) :
    m'.WellFormed where
  indexed := hind
  keys := by
    have hkey : m'.key = m.key := by
      funext n
      rw [key, key, hr.node]
    rw [hkey]
    exact (hr.values.map _).nodup_iff.mpr h.keys
  nodup := by
    rw [hr.spares]
    exact (hr.values.append_right _).nodup_iff.mpr h.nodup
  allocated n hn := by
    rw [hr.allocated]
    rw [hr.spares, (hr.values.append_right _).mem_iff] at hn
    exact h.allocated n hn
  size := by rw [hr.size, h.size, hr.values.length_eq]
  unbucketed hzero := absurd hzero hnum

theorem rehash_spec (h : m.WellFormed) {num : Nat} (hnum : num ≠ 0) :
    (m.rehash num).WellFormed ∧ (m.rehash num).numBuckets = num ∧ Rearranged m (m.rehash num) := by
  unfold rehash
  by_cases hsame : num = m.numBuckets
  · rw [if_pos hsame]
    exact ⟨h, hsame.symm, .refl m⟩
  · rw [if_neg hsame]
    obtain ⟨values, buckets, heq, hperm, hind⟩ :=
      rehashFrom_spec { m with numBuckets := num } hnum m.values
        (show m.values = [] ++ m.values from rfl) (List.nodup_append'.mp h.nodup).1
        (indexed_nil _ _)
    have hm : ({ m with numBuckets := num, buckets := fun _ => ⟨none, none⟩ } :
        HashMap K V).rehashFrom m.values =
        ({ m with numBuckets := num } : HashMap K V).arranged values buckets := heq
    have hr : Rearranged m (({ m with numBuckets := num } : HashMap K V).arranged values buckets) :=
      ⟨hperm, rfl, rfl, rfl, rfl⟩
    rw [hm]
    exact ⟨hr.wellFormed h hnum hind, rfl, hr⟩

theorem hashSize_ne_zero (numElems : Nat) : hashSize numElems ≠ 0 := by
  unfold hashSize
  cases hf : sizes.dropLast.find? fun size => numElems < size with
  | none => simp
  | some size =>
    have hmem := List.mem_of_find?_eq_some hf
    have hall : ∀ size ∈ sizes.dropLast, size ≠ 0 := by decide
    exact hall size hmem

/-- The node that a new value comes into, and what it holds then. -/
inductive Taken [Assignable V] (m : HashMap K V) (v : V) : Nat → V → List Nat → Nat → Prop
  | new : m.spares = [] → Taken m v m.allocated (Assignable.copy v) [] (m.allocated + 1)
  | recycled {a : Nat} {rest : List Nat} : m.spares = a :: rest →
      Taken m v a (Assignable.assign (m.value a) v) rest m.allocated

theorem valuesInsert_eq [Assignable V] (m : HashMap K V) (it : Option Nat) (v : K × V) :
    ∃ n x spares allocated, Taken m v.2 n x spares allocated ∧
      m.valuesInsert it v = ({ m with
        node := Function.update m.node n (v.1, x)
        values := insertBefore m.values it n
        spares := spares
        allocated := allocated }, n) := by
  unfold valuesInsert
  split
  · rename_i hspares
    exact ⟨_, _, _, _, .new hspares, by rw [hspares]⟩
  · rename_i n spares hspares
    exact ⟨_, _, _, _, .recycled hspares, rfl⟩

theorem Taken.nodup [Assignable V] {v x : V} {spares : List Nat} {allocated : Nat}
    (ht : Taken m v n x spares allocated) (h : m.WellFormed) :
    (n :: (m.values ++ spares)).Nodup ∧ ∀ a ∈ n :: (m.values ++ spares), a < allocated := by
  have hnodup := h.nodup
  have halloc := h.allocated
  cases ht with
  | new hspares =>
    rw [hspares] at hnodup halloc
    refine ⟨List.nodup_cons.mpr ⟨fun hn => Nat.lt_irrefl _ (halloc _ hn), hnodup⟩, ?_⟩
    intro a ha
    rcases List.mem_cons.mp ha with rfl | ha
    · exact Nat.lt_succ_self _
    · exact Nat.lt_succ_of_lt (halloc a ha)
  | recycled hspares =>
    rw [hspares] at hnodup halloc
    have hperm : (m.values ++ n :: spares).Perm (n :: (m.values ++ spares)) := List.perm_middle
    exact ⟨hperm.nodup_iff.mp hnodup, fun a ha => halloc a (hperm.mem_iff.mpr ha)⟩

/-- A new value under a new key. -/
structure Inserted [Assignable V] (m : HashMap K V) (v : K × V) (m' : HashMap K V) (n : Nat) :
    Prop where
  wellFormed : m'.WellFormed
  values : m'.values.Perm (n :: m.values)
  taken : ∃ x, Taken m v.2 n x m'.spares m'.allocated ∧
    m'.node = Function.update m.node n (v.1, x)

theorem Rearranged.taken [Assignable V] {r : HashMap K V} {v x : V} {spares : List Nat}
    {allocated : Nat} (hr : Rearranged m r) (ht : Taken r v n x spares allocated) :
    Taken m v n x spares allocated := by
  cases ht with
  | new hspares =>
    rw [hr.allocated]
    exact .new (hr.spares ▸ hspares)
  | recycled hspares =>
    rw [hr.allocated, value, hr.node]
    exact .recycled (hr.spares ▸ hspares)

theorem inserted_of_indexed [Assignable V] {r : HashMap K V} {v : K × V} {x : V}
    {spares : List Nat} {allocated : Nat} (hr : Rearranged m r)
    (hwf : r.WellFormed) (hnum : r.numBuckets ≠ 0) (hk : v.1 ∉ m.values.map m.key)
    (ht : Taken r v.2 n x spares allocated) {values : List Nat} {buckets : Nat → Bucket}
    (hperm : values.Perm (n :: r.values))
    (hind : Indexed (fun a => r.bucketOf (Function.update r.node n (v.1, x) a).1) r.numBuckets
      buckets values) :
    Inserted m v { r with
      node := Function.update r.node n (v.1, x)
      values := values
      spares := spares
      allocated := allocated
      buckets := buckets
      size := r.size + 1 } n where
  wellFormed := by
    obtain ⟨hnodup, halloc⟩ := ht.nodup hwf
    have hperm' : (values ++ spares).Perm (n :: (r.values ++ spares)) := hperm.append_right _
    have hn : n ∉ r.values := fun hn =>
      (List.nodup_cons.mp hnodup).1 (List.mem_append_left _ hn)
    exact {
      indexed := hind
      keys := by
        refine (hperm.map _).nodup_iff.mpr ?_
        have hrest : r.values.map (fun a => (Function.update r.node n (v.1, x) a).1) =
            r.values.map r.key := by
          apply List.map_congr_left
          intro a ha
          rw [Function.update_of_ne (ne_of_mem_of_not_mem ha hn)]
          rfl
        have hkey : r.key = m.key := by
          funext a
          rw [key, key, hr.node]
        change (List.map (fun a => (Function.update r.node n (v.1, x) a).1) (n :: r.values)).Nodup
        rw [List.map_cons, hrest, Function.update_self, List.nodup_cons]
        refine ⟨?_, hwf.keys⟩
        rwa [hkey, (hr.values.map _).mem_iff]
      nodup := hperm'.nodup_iff.mpr hnodup
      allocated := fun a ha => halloc a (hperm'.mem_iff.mp ha)
      size := by
        rw [hperm.length_eq, List.length_cons, hwf.size]
      unbucketed := fun hzero => absurd hzero hnum }
  values := hperm.trans (hr.values.cons n)
  taken := ⟨x, hr.taken ht, by rw [hr.node]⟩

/-- What `insert` answers when the key is in the map, and when it is not. -/
theorem insert_spec [DecidableEq K] [Assignable V] (h : m.WellFormed) (v : K × V) :
    ∃ m' n inserted, m.insert v = (m', n, inserted) ∧
      (inserted = false ∧ m'.WellFormed ∧ Rearranged m m' ∧ n ∈ m.values ∧ m.key n = v.1 ∨
        inserted = true ∧ v.1 ∉ m.values.map m.key ∧ Inserted m v m' n) := by
  have hr : ∃ r, (if m.numBuckets ≤ m.size + 1 then m.rehash (hashSize (m.size + 1)) else m) = r ∧
      r.WellFormed ∧ r.numBuckets ≠ 0 ∧ Rearranged m r := by
    split
    · obtain ⟨hwf, hnum, hr⟩ := rehash_spec h (hashSize_ne_zero (m.size + 1))
      exact ⟨_, rfl, hwf, by rw [hnum]; exact hashSize_ne_zero _, hr⟩
    · exact ⟨m, rfl, h, by omega, .refl m⟩
  obtain ⟨r, hreq, hwf, hnum, hr⟩ := hr
  have hkey : r.key = m.key := by
    funext a
    rw [key, key, hr.node]
  have hkeys : ∀ k, k ∈ m.values.map m.key ↔ k ∈ r.values.map r.key := by
    intro k
    rw [hkey, (hr.values.map m.key).mem_iff]
  have hlt := bucketOf_lt r v.1 hnum
  have hnodup := hwf.indexed.nodup
  -- The new node is indexed under its own key, and the others as they were.
  have hnew {n : Nat} {x : V} {spares : List Nat} {allocated : Nat}
      (ht : Taken r v.2 n x spares allocated) : n ∉ r.values ∧
      r.bucketOf (Function.update r.node n (v.1, x) n).1 = r.bucketOf v.1 ∧
      ∀ a ∈ r.values, r.bucketOf (r.key a) =
        r.bucketOf (Function.update r.node n (v.1, x) a).1 := by
    have hn : n ∉ r.values := fun hn =>
      (List.nodup_cons.mp (ht.nodup hwf).1).1 (List.mem_append_left _ hn)
    refine ⟨hn, by rw [Function.update_self], fun a ha => ?_⟩
    rw [Function.update_of_ne (ne_of_mem_of_not_mem ha hn)]
    rfl
  unfold insert
  simp only [hreq]
  cases hit : (r.buckets (r.bucketOf v.1)).first with
  | none =>
    have habsent := (hwf.indexed.first_eq_none_iff hlt).mp hit
    have hk : v.1 ∉ m.values.map m.key := by
      rw [hkeys]
      intro hk
      obtain ⟨a, ha, hak⟩ := List.mem_map.mp hk
      exact habsent (List.mem_map.mpr ⟨a, ha, by rw [hak]⟩)
    obtain ⟨n, x, spares, allocated, ht, heq⟩ := valuesInsert_eq r none v
    obtain ⟨hn, hbucket, hsame⟩ := hnew ht
    refine ⟨_, n, true, by rw [heq], .inr ⟨rfl, hk, ?_⟩⟩
    refine inserted_of_indexed hr hwf hnum hk ht ?_ ?_
    · rw [insertBefore_end hnodup]
      exact List.perm_append_singleton n r.values
    · rw [insertBefore_end hnodup, ← hbucket]
      refine (hwf.indexed.congr hsame).append_new hn ?_
      rwa [hbucket, ← List.map_congr_left hsame]
  | some it =>
    have hsearch := hwf.indexed.search hlt hit fun a _ hak => by rw [hak]
    have hpresent : (r.buckets (r.bucketOf v.1)).last ≠ none := by
      rw [Ne, hwf.indexed.last_eq_none_iff hlt, ← hwf.indexed.first_eq_none_iff hlt, hit]
      simp
    obtain ⟨s, hs⟩ := Option.ne_none_iff_exists'.mp hpresent
    obtain ⟨xs, ys, hvalues, hsbucket, hys⟩ := hwf.indexed.last_split hlt hs
    simp only [hsearch]
    cases hfind : r.values.find? (r.key · = v.1) with
    | some n =>
      have hn := List.mem_of_find?_eq_some hfind
      refine ⟨r, n, false, rfl, .inl ⟨rfl, hwf, hr, (hr.values.mem_iff).mp hn, ?_⟩⟩
      rw [← hkey]
      simpa using List.find?_some hfind
    | none =>
      have hk : v.1 ∉ m.values.map m.key := by
        rw [hkeys]
        simpa using List.find?_eq_none.mp hfind
      obtain ⟨n, x, spares, allocated, ht, heq⟩ :=
        valuesInsert_eq r (next r.values (r.buckets (r.bucketOf v.1)).last) v
      obtain ⟨hn, hbucket, hsame⟩ := hnew ht
      refine ⟨_, n, true, by rw [heq], .inr ⟨rfl, hk, ?_⟩⟩
      have hinsert : insertBefore r.values (next r.values (r.buckets (r.bucketOf v.1)).last) n =
          xs ++ s :: n :: ys := by
        rw [hs, hvalues, insert_after (hvalues ▸ hnodup)]
      refine inserted_of_indexed hr hwf hnum hk ht ?_ ?_
      · rw [hinsert, hvalues]
        have : ((xs ++ [s]) ++ n :: ys).Perm (n :: ((xs ++ [s]) ++ ys)) := List.perm_middle
        simpa using this
      · have hind := hwf.indexed.congr hsame
        rw [hvalues] at hind hn hsame
        rw [hinsert, ← hbucket]
        refine hind.insert_after hn ?_ fun y hy => ?_
        · rw [hbucket, ← hsbucket]
          exact (hsame s (by simp)).symm
        · rw [hbucket, ← hsame y (by simp [hy])]
          exact hys y hy

theorem key_erase [Inhabited K] [Assignable V] (m : HashMap K V) {a : Nat} (h : a ≠ n) :
    (m.erase n).key a = m.key a :=
  congrArg Prod.fst (Function.update_of_ne h _ m.node)

/-- A value leaves the map: its node is spare, holding what assignment leaves in it. -/
structure Erased [Inhabited K] [Assignable V] (m : HashMap K V) (n : Nat) (m' : HashMap K V) :
    Prop where
  wellFormed : m'.WellFormed
  values : m'.values = m.values.erase n
  spares : m'.spares = n :: m.spares
  node : m'.node = Function.update m.node n
    (default, Assignable.assign (m.value n) Assignable.construct)

theorem erase_spec [Inhabited K] [Assignable V] (h : m.WellFormed) (hn : n ∈ m.values) :
    Erased m n (m.erase n) where
  wellFormed := by
    have hnum : m.numBuckets ≠ 0 := fun hzero => by simp [h.unbucketed hzero] at hn
    have hlt := bucketOf_lt m (m.key n) hnum
    have hperm : (m.values.erase n ++ n :: m.spares).Perm (m.values ++ m.spares) :=
      List.perm_middle.trans ((List.perm_cons_erase hn).symm.append_right _)
    have hkey : ∀ a ∈ m.values.erase n, m.key a = (m.erase n).key a := fun a ha =>
      (key_erase m (h.indexed.nodup.mem_erase_iff.mp ha).1).symm
    exact {
      indexed := (h.indexed.erase hn hlt rfl).congr fun a ha => by
        rw [← hkey a ha]
        rfl
      keys := by
        rw [show (m.erase n).values = m.values.erase n from rfl, ← List.map_congr_left hkey]
        exact h.keys.sublist (List.erase_sublist.map _)
      nodup := hperm.nodup_iff.mpr h.nodup
      allocated := fun a ha => h.allocated a (hperm.mem_iff.mp ha)
      size := by
        rw [show (m.erase n).values = m.values.erase n from rfl, List.length_erase_of_mem hn,
          ← h.size]
        rfl
      unbucketed := fun hzero => absurd hzero hnum }
  values := rfl
  spares := rfl
  node := rfl

theorem key_setValue (m : HashMap K V) (n : Nat) (x : V) : (m.setValue n x).key = m.key := by
  funext a
  by_cases han : a = n
  · simp [han, key, setValue]
  · exact congrArg Prod.fst (Function.update_of_ne han _ m.node)

theorem setValue_wellFormed (h : m.WellFormed) (n : Nat) (x : V) :
    (m.setValue n x).WellFormed where
  indexed := by
    rw [key_setValue]
    exact h.indexed
  keys := by
    rw [key_setValue]
    exact h.keys
  nodup := h.nodup
  allocated := h.allocated
  size := h.size
  unbucketed := h.unbucketed

theorem value_erase [Inhabited K] [Assignable V] (m : HashMap K V) (n a : Nat) :
    (m.erase n).value a =
      if a = n then Assignable.assign (m.value n) Assignable.construct else m.value a := by
  by_cases han : a = n
  · simp [han, value, erase, valuesErase]
  · rw [if_neg han]
    exact congrArg Prod.snd (Function.update_of_ne han _ m.node)

theorem value_setValue (m : HashMap K V) (n : Nat) (x : V) (a : Nat) :
    (m.setValue n x).value a = if a = n then x else m.value a := by
  by_cases han : a = n
  · simp [han, value, setValue]
  · simp [han, value, setValue]

end Map

end HashMap

end Asio.Detail
