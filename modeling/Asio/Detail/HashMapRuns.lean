import Mathlib.Data.Set.Card
import Asio.Detail.HashMap
import Asio.Lib.Simulation

/-! Every run of a hash map is a run of a finite map whose entries stay where they are. -/

universe u v

set_option linter.unusedSectionVars false

namespace Asio.Detail.HashMap

variable {K : Type u} {V : Type v}

/-- The types that the map is made for: a copy is the value, and so is what assignment leaves. -/
class Pod (V : Type v) [Assignable V] : Prop where
  copy (v : V) : Assignable.copy v = v
  assign (x v : V) : Assignable.assign x v = v

inductive Action (K : Type u) (V : Type v)
  | insert (v : K × V)
  | find (k : K)
  | erase (it : Nat)
  | eraseKey (k : K)
  | clear

inductive Answer
  | inserted (it : Nat) (isNew : Bool)
  | found (it : Option Nat)
  | done
  deriving DecidableEq

/-! ### What the map is for -/

/-- A finite map that also tells where each of its entries is. -/
abbrev Entries (K : Type u) (V : Type v) := K → Option (Nat × V)

namespace Entries

variable [DecidableEq K]

def empty : Entries K V := fun _ => none

inductive Step : Entries K V → Action K V → Answer → Entries K V → Prop
  | insertNew : s v.1 = none → (∀ k e, s k = some e → e.1 ≠ it) →
      Step s (.insert v) (.inserted it true) (Function.update s v.1 (some (it, v.2)))
  | insertOld : s v.1 = some e → Step s (.insert v) (.inserted e.1 false) s
  | find : Step s (.find k) (.found ((s k).map Prod.fst)) s
  | erase : s k = some (it, x) → Step s (.erase it) .done (Function.update s k none)
  | eraseKey : Step s (.eraseKey k) .done (Function.update s k none)
  | clear : Step s .clear .done empty

end Entries

/-! ### The operations -/

section Operations

variable [HashKey K] [DecidableEq K] [Inhabited K] [Assignable V]

def eraseKey (m : HashMap K V) (k : K) : HashMap K V :=
  match m.find k with
  | none => m
  | some it => m.erase it

def clear (m : HashMap K V) : HashMap K V :=
  { m with
    values := []
    size := 0
    buckets := fun i => if i < m.numBuckets then ⟨none, none⟩ else m.buckets i }

/-- The iterator that `erase` is given stands at a value of the map. -/
def step (m : HashMap K V) : Action K V → Option (HashMap K V × Answer)
  | .insert v =>
    let (m', it, isNew) := m.insert v
    some (m', .inserted it isNew)
  | .find k => some (m, .found (m.find k))
  | .erase it => if it ∈ m.values then some (m.erase it, .done) else none
  | .eraseKey k => some (m.eraseKey k, .done)
  | .clear => some (m.clear, .done)

end Operations

/-! ### The entries of a map -/

section Entry

variable [HashKey K] [DecidableEq K] {m m' : HashMap K V} {k : K} {n : Nat} {x : V}

/-- What `find` leads to, and where. -/
def entry (m : HashMap K V) (k : K) : Option (Nat × V) :=
  (m.find k).map fun n => (n, m.value n)

theorem entry_eq_some_iff (h : m.WellFormed) :
    m.entry k = some (n, x) ↔ n ∈ m.values ∧ m.node n = (k, x) := by
  have hnode : m.node n = (k, x) ↔ m.key n = k ∧ m.value n = x := Prod.ext_iff
  rw [entry, Option.map_eq_some_iff, hnode]
  constructor
  · rintro ⟨n', hfind, heq⟩
    cases heq
    obtain ⟨hn, hk⟩ := (find_eq_some_iff h).mp hfind
    exact ⟨hn, hk, rfl⟩
  · rintro ⟨hn, hk, rfl⟩
    exact ⟨n, (find_eq_some_iff h).mpr ⟨hn, hk⟩, rfl⟩

theorem entry_eq_none_iff (h : m.WellFormed) : m.entry k = none ↔ k ∉ m.values.map m.key := by
  rw [entry, Option.map_eq_none_iff, find_eq_none_iff h]

theorem map_fst_entry (m : HashMap K V) (k : K) : (m.entry k).map Prod.fst = m.find k := by
  rw [entry, Option.map_map]
  exact Option.map_id_apply

/-- An entry is known by the nodes that are in the list and what they hold. -/
theorem entry_congr (h : m.WellFormed) (h' : m'.WellFormed) {k' : K}
    (hsame : ∀ n x, n ∈ m'.values ∧ m'.node n = (k', x) ↔ n ∈ m.values ∧ m.node n = (k, x)) :
    m'.entry k' = m.entry k := by
  apply Option.ext
  rintro ⟨n, x⟩
  rw [entry_eq_some_iff h, entry_eq_some_iff h']
  exact hsame n x

theorem entry_rearranged (h : m.WellFormed) (h' : m'.WellFormed) (hr : Rearranged m m') :
    m'.entry = m.entry := by
  funext k
  apply entry_congr h h'
  intro n x
  rw [hr.values.mem_iff, hr.node]

theorem Taken.eq [Assignable V] [Pod V] {v x : V} {spares : List Nat} {allocated : Nat}
    (ht : Taken m v n x spares allocated) : x = v := by
  cases ht with
  | new => exact Pod.copy v
  | recycled => exact Pod.assign _ v

theorem Inserted.entry [Assignable V] [Pod V] {v : K × V} (h : m.WellFormed)
    (hi : Inserted m v m' n) : m'.entry = Function.update m.entry v.1 (some (n, v.2)) := by
  obtain ⟨x, ht, hnode⟩ := hi.taken
  have hn : n ∉ m.values := fun hn =>
    (List.nodup_cons.mp (ht.nodup h).1).1 (List.mem_append_left _ hn)
  rw [ht.eq] at hnode
  funext k
  by_cases hkv : k = v.1
  · subst hkv
    rw [Function.update_self]
    apply (entry_eq_some_iff hi.wellFormed).mpr
    rw [hi.values.mem_iff, hnode, Function.update_self]
    exact ⟨List.mem_cons_self .., rfl⟩
  · rw [Function.update_of_ne hkv]
    apply entry_congr h hi.wellFormed
    intro a y
    rw [hi.values.mem_iff, hnode, List.mem_cons]
    by_cases han : a = n
    · subst han
      have hne : v ≠ (k, y) := fun heq => hkv (congrArg Prod.fst heq).symm
      rw [Function.update_self]
      simp [hn, hne]
    · rw [Function.update_of_ne han]
      simp [han]

theorem Erased.entry [Inhabited K] [Assignable V] (h : m.WellFormed) (hn : n ∈ m.values)
    (he : Erased m n m') : m'.entry = Function.update m.entry (m.key n) none := by
  have hmem (a : Nat) : a ∈ m'.values ↔ a ≠ n ∧ a ∈ m.values := by
    rw [he.values]
    exact h.indexed.nodup.mem_erase_iff
  have hnode {a : Nat} (ha : a ≠ n) : m'.node a = m.node a := by
    rw [he.node, Function.update_of_ne ha]
  funext k
  by_cases hkn : k = m.key n
  · subst hkn
    rw [Function.update_self, entry_eq_none_iff he.wellFormed, List.mem_map]
    rintro ⟨a, ha, hak⟩
    obtain ⟨han, ha⟩ := (hmem a).mp ha
    rw [key, hnode han] at hak
    exact han (List.inj_on_of_nodup_map h.keys ha hn hak)
  · rw [Function.update_of_ne hkn]
    apply entry_congr h he.wellFormed
    intro a y
    rw [hmem]
    by_cases han : a = n
    · subst han
      have hne : m.node a ≠ (k, y) := fun heq => hkn (congrArg Prod.fst heq).symm
      simp [hne]
    · rw [hnode han]
      simp [han]

theorem eraseKey_wellFormed [Inhabited K] [Assignable V] (h : m.WellFormed) (k : K) :
    (m.eraseKey k).WellFormed := by
  unfold eraseKey
  cases hfind : m.find k with
  | none => exact h
  | some n => exact (erase_spec h ((find_eq_some_iff h).mp hfind).1).wellFormed

theorem entry_eraseKey [Inhabited K] [Assignable V] (h : m.WellFormed) (k : K) :
    (m.eraseKey k).entry = Function.update m.entry k none := by
  unfold eraseKey
  cases hfind : m.find k with
  | none =>
    have hnone : m.entry k = none := by rw [entry, hfind, Option.map_none]
    rw [← hnone, Function.update_eq_self]
  | some n =>
    obtain ⟨hn, hk⟩ := (find_eq_some_iff h).mp hfind
    rw [← hk]
    exact (erase_spec h hn).entry h hn

theorem clear_wellFormed [Inhabited K] [Assignable V] (h : m.WellFormed) :
    m.clear.WellFormed where
  indexed := {
    nodup := List.nodup_nil
    grouped := trivial
    range := fun _ hi => if_pos hi }
  keys := List.nodup_nil
  nodup := (List.nodup_append'.mp h.nodup).2.1
  allocated n hn := h.allocated n (List.mem_append_right _ hn)
  size := rfl
  unbucketed _ := rfl

theorem entry_of_values_nil (h : m.WellFormed) (hnil : m.values = []) :
    m.entry = Entries.empty := by
  funext k
  apply (entry_eq_none_iff h).mpr
  rw [hnil]
  exact List.not_mem_nil

end Entry

/-! ### The buckets -/

section Ranges

variable [HashKey K] [DecidableEq K] {m : HashMap K V}

/-- The bucket is a range of the list, with just the keys of the map that hash to it. -/
def BucketRange (m : HashMap K V) (s : Entries K V) (i : Nat) : Prop :=
  ∃ before range after, m.values = before ++ range ++ after ∧
    m.buckets i = ⟨range.head?, range.getLast?⟩ ∧ (range.map m.key).Nodup ∧
    ∀ k, k ∈ range.map m.key ↔ s k ≠ none ∧ m.bucketOf k = i

theorem bucketRange (h : m.WellFormed) {i : Nat} (hi : i < m.numBuckets) :
    m.BucketRange m.entry i := by
  obtain ⟨before, after, hsplit, -, -⟩ := h.indexed.split i
  refine ⟨before, _, after, hsplit, h.indexed.range i hi,
    h.keys.sublist (List.filter_sublist.map _), fun k => ?_⟩
  rw [Ne, entry_eq_none_iff h, not_not, List.mem_map, List.mem_map]
  constructor
  · rintro ⟨n, hn, rfl⟩
    obtain ⟨hn, hbucket⟩ := List.mem_filter.mp hn
    exact ⟨⟨n, hn, rfl⟩, by simpa using hbucket⟩
  · rintro ⟨⟨n, hn, rfl⟩, hbucket⟩
    exact ⟨n, List.mem_filter.mpr ⟨hn, by simpa using hbucket⟩, rfl⟩

theorem size_eq_ncard (h : m.WellFormed) : m.size = Set.ncard {k | m.entry k ≠ none} := by
  have hkeys : {k | m.entry k ≠ none} = ((m.values.map m.key).toFinset : Set K) := by
    ext k
    rw [Set.mem_ofPred_eq, Ne, entry_eq_none_iff h, not_not, List.coe_toFinset, Set.mem_ofPred_eq]
  rw [hkeys, Set.ncard_coe_finset, List.toFinset_card_of_nodup h.keys, List.length_map, h.size]

end Ranges

/-! ### Runs -/

section Runs

variable [HashKey K] [DecidableEq K] [Inhabited K] [Assignable V] {m m' : HashMap K V}

/-- A map that stands for a finite map. -/
structure Represents (m : HashMap K V) (s : Entries K V) : Prop where
  wellFormed : m.WellFormed
  entry : m.entry = s

theorem step_simulates [Pod V] {a : Action K V} {r : Answer} {s : Entries K V}
    (hs : m.Represents s) (h : m.step a = some (m', r)) :
    ∃ s', Entries.Step s a r s' ∧ m'.Represents s' := by
  obtain ⟨hwf, rfl⟩ := hs
  cases a with
  | insert v =>
    obtain ⟨t, n, isNew, heq, hcase⟩ := insert_spec hwf v
    simp only [step, heq] at h
    cases h
    rcases hcase with ⟨rfl, hwf', hr, hn, hk⟩ | ⟨rfl, hk, hi⟩
    · have hentry : m.entry v.1 = some (n, m.value n) :=
        (entry_eq_some_iff hwf).mpr ⟨hn, Prod.ext hk rfl⟩
      exact ⟨_, .insertOld hentry, hwf', entry_rearranged hwf hwf' hr⟩
    · obtain ⟨x, ht, -⟩ := hi.taken
      refine ⟨_, .insertNew ((entry_eq_none_iff hwf).mpr hk) ?_, hi.wellFormed, hi.entry hwf⟩
      rintro k ⟨a, y⟩ hentry rfl
      have ha := ((entry_eq_some_iff hwf).mp hentry).1
      exact (List.nodup_cons.mp (ht.nodup hwf).1).1 (List.mem_append_left _ ha)
  | find k =>
    cases h
    rw [← map_fst_entry]
    exact ⟨_, .find, hwf, rfl⟩
  | erase it =>
    simp only [step] at h
    split at h
    · rename_i hit
      cases h
      have he := erase_spec hwf hit
      have hentry : m.entry (m.key it) = some (it, m.value it) :=
        (entry_eq_some_iff hwf).mpr ⟨hit, rfl⟩
      exact ⟨_, .erase hentry, he.wellFormed, he.entry hwf hit⟩
    · cases h
  | eraseKey k =>
    cases h
    exact ⟨_, .eraseKey, eraseKey_wellFormed hwf k, entry_eraseKey hwf k⟩
  | clear =>
    cases h
    have hclear := clear_wellFormed hwf
    exact ⟨_, .clear, hclear, entry_of_values_nil hclear rfl⟩

theorem construct_represents : (construct : HashMap K V).Represents Entries.empty :=
  ⟨construct_wellFormed, entry_of_values_nil construct_wellFormed rfl⟩

/-- Every run answers as a finite map does, and ends in a map whose buckets and size are those of
the finite map; an erasure there takes away no entry but the one of its key. -/
theorem run_refines_finite_map [Pod V] {as : List (Action K V)} {l : List (Action K V × Answer)}
    (h : Lib.Simulation.perform step (construct : HashMap K V) as = some (m, l)) :
    ∃ s : Entries K V, Lib.Simulation.Run Entries.Step Entries.empty l s ∧
      (∀ k, m.entry k = s k) ∧ m.size = Set.ncard {k | s k ≠ none} ∧
      m.values.Nodup ∧ (∀ i < m.numBuckets, m.BucketRange s i) ∧
      (∀ it ∈ m.values, ∀ k ≠ m.key it, (m.erase it).entry k = m.entry k) ∧
      ∀ k k', k' ≠ k → (m.eraseKey k).entry k' = m.entry k' := by
  obtain ⟨s, hrun, hwf, rfl⟩ :=
    (Lib.Simulation.run_of_perform h).simulate construct_represents step_simulates
  refine ⟨m.entry, hrun, fun _ => rfl, size_eq_ncard hwf, hwf.indexed.nodup,
    fun i hi => bucketRange hwf hi, ?_, ?_⟩
  · intro it hit k hk
    rw [(erase_spec hwf hit).entry hwf hit, Function.update_of_ne hk]
  · intro k k' hk
    rw [entry_eraseKey hwf, Function.update_of_ne hk]

end Runs

instance : Assignable Int := ⟨0, id, fun _ v => v⟩

instance : Pod Int := ⟨fun _ => rfl, fun _ _ => rfl⟩

/-- Two keys of one bucket, a key that is there already, and a node that is recycled. -/
theorem run_refines_finite_map_recycled :
    ∃ (m : HashMap Int Int) (l : _), Lib.Simulation.perform step construct
        [.insert (1, 10), .insert (4, 40), .insert (1, 11), .eraseKey 1, .insert (7, 70), .find 4,
          .erase 1] = some (m, l) ∧
      ∃ s : Entries Int Int, Lib.Simulation.Run Entries.Step Entries.empty l s ∧
        (∀ k, m.entry k = s k) ∧ m.size = Set.ncard {k | s k ≠ none} ∧
        m.values.Nodup ∧ (∀ i < m.numBuckets, m.BucketRange s i) ∧
        (∀ it ∈ m.values, ∀ k ≠ m.key it, (m.erase it).entry k = m.entry k) ∧
        ∀ k k', k' ≠ k → (m.eraseKey k).entry k' = m.entry k' := by
  obtain ⟨⟨m, l⟩, h⟩ : ∃ r, Lib.Simulation.perform step (construct : HashMap Int Int)
      [.insert (1, 10), .insert (4, 40), .insert (1, 11), .eraseKey 1, .insert (7, 70), .find 4,
        .erase 1] = some r := ⟨_, rfl⟩
  exact ⟨m, l, h, run_refines_finite_map h⟩

end Asio.Detail.HashMap
