import Asio.Detail.OperationMap
import Asio.Detail.ReactorOpQueue

/-! The operation queues refine the map from descriptors to waiting operations. -/

universe u

namespace Asio.Detail.ReactorOpQueue

open OperationMap (Action Result finished unfinished)
open Lib.Simulation

set_option linter.unusedSectionVars false

variable {K : Type u} [DecidableEq K] [Inhabited K] [HashKey K]

def step (q : ReactorOpQueue K) (a : Action K) : ReactorOpQueue K × Result :=
  let outcome : Outcome K :=
    match a with
    | .enqueueOperation descriptor op => q.enqueueOperation descriptor op
    | .cancelOperations descriptor ec => q.cancelOperations descriptor ec
    | .cancelOperationsByKey descriptor cancellationKey ec =>
      q.cancelOperationsByKey descriptor cancellationKey ec
    | .performOperations descriptor outcome => q.performOperations descriptor outcome
    | .performSet isSet outcome => q.performSet isSet outcome
    | .cancelUnset set ec => q.cancelUnset set ec
    | .getAllOperations => q.getAllOperations
  (outcome.queue, ⟨outcome.ops, outcome.result⟩)

/-- No queue in the map is empty, and every queue that is recycled is. -/
structure Refines (q : ReactorOpQueue K) (m : OperationMap K) : Prop where
  wellFormed : q.operations.WellFormed
  nonempty : ∀ n ∈ q.operations.values, q.ops n ≠ []
  spares : ∀ n ∈ q.operations.spares, q.ops n = []
  contents : ∀ n ∈ q.operations.values, m (q.operations.key n) = q.ops n
  absent : ∀ d, d ∉ q.operations.values.map q.operations.key → m d = []

section Loops

theorem cancelAll_eq (ec : Nat) (queue ops : List ReactorOp) :
    cancelAll ec queue ops = ops ++ queue.map (·.complete ec) := by
  induction queue generalizing ops with
  | nil => simp [cancelAll]
  | cons op queue ih => simp [cancelAll, ih]

theorem cancelKey_eq (key ec : Nat) (queue ops otherOps : List ReactorOp) (result : Bool) :
    cancelKey key ec queue ops otherOps result =
      (ops ++ (queue.filter (·.cancellationKey = key)).map (·.complete ec),
        otherOps ++ queue.filter (·.cancellationKey ≠ key),
        result || queue.any (·.cancellationKey = key)) := by
  induction queue generalizing ops otherOps result with
  | nil => simp [cancelKey]
  | cons op queue ih =>
    rw [cancelKey]
    split
    · rename_i hkey
      simp [ih, hkey]
    · rename_i hkey
      simp [ih, hkey]

theorem performFront_eq (outcome : Nat → ReactorOp.Outcome) (queue ops : List ReactorOp) :
    performFront outcome queue ops = (ops ++ finished outcome queue, unfinished outcome queue) := by
  induction queue generalizing ops with
  | nil => simp [performFront, finished, unfinished]
  | cons op queue ih =>
    have hop : op.perform (outcome op.id) =
        (OperationMap.performed outcome op, (outcome op.id).status) := rfl
    rw [performFront, hop, finished, unfinished, List.takeWhile_cons, List.dropWhile_cons,
      OperationMap.isFinished]
    cases (outcome op.id).status with
    | notDone => simp
    | done => simp [ih, finished, unfinished]
    | doneAndExhausted => simp [ih, finished, unfinished]

end Loops

/-- The queue of a node becomes `ops`, and the node is erased when that is empty. -/
def settle (q : ReactorOpQueue K) (n : Nat) (ops : List ReactorOp) : ReactorOpQueue K :=
  if ops.isEmpty then (q.setOps n ops).eraseNode n else q.setOps n ops

section Nodes

variable {q : ReactorOpQueue K} {m : OperationMap K} {n : Nat}

theorem cancelOperationsAt_eq (q : ReactorOpQueue K) (n ec : Nat) :
    q.cancelOperationsAt (some n) ec =
      ⟨q.settle n [], (q.ops n).map (·.complete ec), true⟩ := by
  rw [cancelOperationsAt, cancelAll_eq]
  rfl

theorem ops_setOps (q : ReactorOpQueue K) (n : Nat) (ops : List ReactorOp) (a : Nat) :
    (q.setOps n ops).ops a = if a = n then ops else q.ops a := by
  rw [ReactorOpQueue.ops, setOps, HashMap.value_setValue]
  split <;> rfl

theorem cancelOperationsByKeyAt_eq (q : ReactorOpQueue K) (n key ec : Nat) :
    q.cancelOperationsByKeyAt (some n) key ec =
      ⟨q.settle n ((q.ops n).filter (·.cancellationKey ≠ key)),
        ((q.ops n).filter (·.cancellationKey = key)).map (·.complete ec),
        (q.ops n).any (·.cancellationKey = key)⟩ := by
  rw [cancelOperationsByKeyAt, cancelKey_eq]
  simp only [List.nil_append, Bool.false_or, ops_setOps, if_true]
  rfl

theorem performOperationsAt_eq (q : ReactorOpQueue K) (n : Nat)
    (outcome : Nat → ReactorOp.Outcome) :
    q.performOperationsAt (some n) outcome =
      ⟨q.settle n (unfinished outcome (q.ops n)), finished outcome (q.ops n),
        !(unfinished outcome (q.ops n)).isEmpty⟩ := by
  rw [performOperationsAt, performFront_eq]
  simp only [List.nil_append, settle]
  split
  · rename_i hempty
    rw [hempty]
    rfl
  · rename_i hempty
    rw [Bool.not_eq_true] at hempty
    rw [hempty]
    rfl

theorem Refines.lists (h : Refines q m) :
    m.Lists (q.operations.values.map q.operations.key) where
  nodup := h.wellFormed.keys
  mem d := by
    constructor
    · intro hd
      obtain ⟨n, hn, rfl⟩ := List.mem_map.mp hd
      rw [h.contents n hn]
      exact h.nonempty n hn
    · intro hd
      by_contra hout
      exact hd (h.absent d hout)

/-- A node holds other operations, and is in the list as before. -/
theorem Refines.setOps (h : Refines q m) (hn : n ∈ q.operations.values) {ops : List ReactorOp}
    (hops : ops ≠ []) :
    Refines (q.setOps n ops) (Function.update m (q.operations.key n) ops) where
  wellFormed := HashMap.setValue_wellFormed h.wellFormed n ⟨ops⟩
  nonempty a ha := by
    rw [ops_setOps]
    split
    · exact hops
    · exact h.nonempty a ha
  spares a ha := by
    have hne : a ≠ n := fun han =>
      (List.nodup_append'.mp h.wellFormed.nodup).2.2 hn (han ▸ ha)
    rw [ops_setOps, if_neg hne]
    exact h.spares a ha
  contents a ha := by
    rw [ops_setOps, show (q.setOps n ops).operations.key = q.operations.key from
      HashMap.key_setValue ..]
    by_cases han : a = n
    · rw [han, Function.update_self, if_pos rfl]
    · have hkey : q.operations.key a ≠ q.operations.key n := fun hkey =>
        han (List.inj_on_of_nodup_map h.wellFormed.keys ha hn hkey)
      rw [Function.update_of_ne hkey, if_neg han]
      exact h.contents a ha
  absent d hd := by
    rw [show (q.setOps n ops).operations.key = q.operations.key from
      HashMap.key_setValue ..] at hd
    have hkey : d ≠ q.operations.key n := fun hkey =>
      hd (hkey ▸ List.mem_map_of_mem hn)
    rw [Function.update_of_ne hkey]
    exact h.absent d hd

/-- Assignment leaves the queue of an erased node as it is. -/
theorem ops_eraseNode (q : ReactorOpQueue K) (n a : Nat) : (q.eraseNode n).ops a = q.ops a := by
  rw [ReactorOpQueue.ops, eraseNode, HashMap.value_erase]
  split
  · rename_i han
    rw [han]
    rfl
  · rfl

/-- A node goes to the spares after its operations. -/
theorem Refines.erased (h : Refines q m) (hn : n ∈ q.operations.values) :
    Refines ((q.setOps n []).eraseNode n) (Function.update m (q.operations.key n) []) := by
  have he := HashMap.erase_spec (HashMap.setValue_wellFormed h.wellFormed n ⟨[]⟩) hn
  have hnodup := h.wellFormed.indexed.nodup
  have hvalues : ((q.setOps n []).eraseNode n).operations.values = q.operations.values.erase n :=
    he.values
  have hspares : ((q.setOps n []).eraseNode n).operations.spares = n :: q.operations.spares :=
    he.spares
  have hkey : ∀ a, a ≠ n →
      ((q.setOps n []).eraseNode n).operations.key a = q.operations.key a := by
    intro a hne
    rw [eraseNode, HashMap.key_erase _ hne, ReactorOpQueue.setOps, HashMap.key_setValue]
  refine ⟨he.wellFormed, fun a ha => ?_, fun a ha => ?_, fun a ha => ?_, fun d hd => ?_⟩
  · rw [hvalues, hnodup.mem_erase_iff] at ha
    rw [ops_eraseNode, ops_setOps, if_neg ha.1]
    exact h.nonempty a ha.2
  · rw [ops_eraseNode, ops_setOps]
    split
    · rfl
    · rename_i hne
      rw [hspares, List.mem_cons] at ha
      exact h.spares a (ha.resolve_left hne)
  · rw [hvalues, hnodup.mem_erase_iff] at ha
    have hne : q.operations.key a ≠ q.operations.key n := fun hka =>
      ha.1 (List.inj_on_of_nodup_map h.wellFormed.keys ha.2 hn hka)
    rw [hkey a ha.1, Function.update_of_ne hne, ops_eraseNode, ops_setOps, if_neg ha.1]
    exact h.contents a ha.2
  · by_cases hdn : d = q.operations.key n
    · rw [hdn, Function.update_self]
    · rw [Function.update_of_ne hdn]
      refine h.absent d fun hmem => hd ?_
      obtain ⟨a, ha, rfl⟩ := List.mem_map.mp hmem
      have hne : a ≠ n := fun han => hdn (by rw [han])
      rw [hvalues]
      exact List.mem_map.mpr ⟨a, hnodup.mem_erase_iff.mpr ⟨hne, ha⟩, hkey a hne⟩

theorem Refines.settle (h : Refines q m) (hn : n ∈ q.operations.values) (ops : List ReactorOp) :
    Refines (q.settle n ops) (Function.update m (q.operations.key n) ops) := by
  unfold ReactorOpQueue.settle
  cases ops with
  | nil => exact h.erased hn
  | cons op ops => exact h.setOps hn (List.cons_ne_nil op ops)

theorem settle_values (q : ReactorOpQueue K) {a : Nat} (hne : a ≠ n) (ops : List ReactorOp)
    (ha : a ∈ q.operations.values) : a ∈ (q.settle n ops).operations.values ∧
      (q.settle n ops).operations.key a = q.operations.key a := by
  unfold ReactorOpQueue.settle
  split
  · refine ⟨(List.mem_erase_of_ne hne).mpr ha, ?_⟩
    rw [eraseNode, HashMap.key_erase _ hne, ReactorOpQueue.setOps, HashMap.key_setValue]
  · refine ⟨ha, ?_⟩
    rw [ReactorOpQueue.setOps, HashMap.key_setValue]

end Nodes

/-! ### The loops over all nodes -/

/-- The walk whose chosen nodes give `out` of their operations and keep `keep`. -/
def sweepFrom (p : K → Bool) (out keep : List ReactorOp → List ReactorOp) (q : ReactorOpQueue K)
    (ops : List ReactorOp) : List Nat → Outcome K
  | [] => ⟨q, ops, false⟩
  | n :: rest =>
    if p (q.operations.key n) then
      sweepFrom p out keep (q.settle n (keep (q.ops n))) (ops ++ out (q.ops n)) rest
    else
      sweepFrom p out keep q ops rest

section Sweeps

variable {q : ReactorOpQueue K} {m : OperationMap K}

theorem performSetFrom_eq (isSet : K → Bool) (outcome : Nat → ReactorOp.Outcome)
    (q : ReactorOpQueue K) (ops : List ReactorOp) (rest : List Nat) :
    performSetFrom isSet outcome q ops rest =
      sweepFrom isSet (finished outcome) (unfinished outcome) q ops rest := by
  induction rest generalizing q ops with
  | nil => rfl
  | cons n rest ih =>
    simp only [performSetFrom, sweepFrom, performOperationsAt_eq, ih]

theorem cancelUnsetFrom_eq (set : K → Bool) (ec : Nat) (q : ReactorOpQueue K)
    (ops : List ReactorOp) (rest : List Nat) :
    cancelUnsetFrom set ec q ops rest =
      sweepFrom (!set ·) (·.map (·.complete ec)) (fun _ => []) q ops rest := by
  induction rest generalizing q ops with
  | nil => rfl
  | cons n rest ih =>
    simp only [cancelUnsetFrom, sweepFrom, cancelOperationsAt_eq, ih]
    cases set (q.operations.key n) <;> rfl

theorem getAllFrom_eq (q : ReactorOpQueue K) (ops : List ReactorOp) (rest : List Nat) :
    q.getAllFrom ops rest = sweepFrom (fun _ => true) id (fun _ => []) q ops rest := by
  induction rest generalizing q ops with
  | nil => rfl
  | cons n rest ih =>
    simp only [getAllFrom, sweepFrom, ih, if_true]
    rfl

/-- What a sweep over some of the nodes makes of the map. -/
theorem sweepFrom_spec (p : K → Bool) (out keep : List ReactorOp → List ReactorOp)
    (h : Refines q m) (ops : List ReactorOp) {rest : List Nat} (hrest : rest ⊆ q.operations.values)
    (hnodup : rest.Nodup) :
    ∃ q', sweepFrom p out keep q ops rest =
        ⟨q', ops ++ ((rest.map q.operations.key).filter p).flatMap fun d => out (m d), false⟩ ∧
      Refines q' fun d =>
        if d ∈ rest.map q.operations.key ∧ p d then keep (m d) else m d := by
  induction rest generalizing q m ops with
  | nil => exact ⟨q, by simp [sweepFrom], by simpa using h⟩
  | cons n rest ih =>
    have hn : n ∈ q.operations.values := hrest (List.mem_cons_self ..)
    obtain ⟨hnrest, hnodup⟩ := List.nodup_cons.mp hnodup
    have hsub : rest ⊆ q.operations.values := fun a ha => hrest (List.mem_cons_of_mem _ ha)
    have hkn : q.operations.key n ∉ rest.map q.operations.key := by
      intro hk
      obtain ⟨a, ha, hka⟩ := List.mem_map.mp hk
      exact hnrest (List.inj_on_of_nodup_map h.wellFormed.keys (hsub ha) hn hka ▸ ha)
    rw [sweepFrom, List.map_cons]
    by_cases hp : p (q.operations.key n) = true
    · rw [if_pos hp, List.filter_cons_of_pos hp, List.flatMap_cons]
      have hsettled (a : Nat) (ha : a ∈ rest) :=
        settle_values q (ne_of_mem_of_not_mem ha hnrest) (keep (q.ops n)) (hsub ha)
      have hkeys : rest.map (q.settle n (keep (q.ops n))).operations.key =
          rest.map q.operations.key :=
        List.map_congr_left fun a ha => (hsettled a ha).2
      obtain ⟨q', heq, hq'⟩ := ih (h.settle hn (keep (q.ops n))) (ops ++ out (q.ops n))
        (fun a ha => (hsettled a ha).1) hnodup
      rw [hkeys] at heq hq'
      refine ⟨q', ?_, ?_⟩
      · rw [heq, h.contents n hn, List.append_assoc]
        congr 3
        refine List.flatMap_congr fun d hd => ?_
        rw [Function.update_of_ne (ne_of_mem_of_not_mem (List.mem_filter.mp hd).1 hkn)]
      · convert hq' using 2 with d
        by_cases hd : d = q.operations.key n
        · simp [hd, hp, hkn, h.contents n hn]
        · simp [hd]
    · rw [if_neg hp, List.filter_cons_of_neg hp]
      obtain ⟨q', heq, hq'⟩ := ih h ops hsub hnodup
      refine ⟨q', heq, ?_⟩
      convert hq' using 2 with d
      by_cases hd : d = q.operations.key n
      · simp [hd, hp]
      · simp [hd]

/-- The sweep over all nodes. -/
theorem sweep_spec (p : K → Bool) (out keep : List ReactorOp → List ReactorOp)
    (hkeep : keep [] = []) (h : Refines q m) :
    ∃ q', sweepFrom p out keep q [] q.operations.values =
        ⟨q', ((q.operations.values.map q.operations.key).filter p).flatMap fun d => out (m d),
          false⟩ ∧
      Refines q' fun d => if p d then keep (m d) else m d := by
  obtain ⟨q', heq, hq'⟩ := sweepFrom_spec p out keep h [] (List.Subset.refl _)
    h.wellFormed.indexed.nodup
  refine ⟨q', heq, ?_⟩
  convert hq' using 2 with d
  by_cases hd : d ∈ q.operations.values.map q.operations.key
  · simp only [hd, true_and]
  · simp only [hd, false_and, h.absent d hd, hkeep, ite_self]

end Sweeps

section Refinement

variable {q q' : ReactorOpQueue K} {m : OperationMap K}

theorem construct_refines : Refines (construct : ReactorOpQueue K) OperationMap.empty where
  wellFormed := HashMap.construct_wellFormed
  nonempty n hn := by cases hn
  spares n hn := by cases hn
  contents n hn := by cases hn
  absent _ _ := rfl

/-- The node of a descriptor, when it has one. -/
theorem Refines.find (h : Refines q m) (d : K) :
    (∃ n, q.operations.find d = some n ∧ n ∈ q.operations.values ∧ q.operations.key n = d) ∨
      q.operations.find d = none ∧ m d = [] := by
  cases hf : q.operations.find d with
  | none => exact .inr ⟨rfl, h.absent d ((HashMap.find_eq_none_iff h.wellFormed).mp hf)⟩
  | some n => exact .inl ⟨n, rfl, (HashMap.find_eq_some_iff h.wellFormed).mp hf⟩

theorem update_nil {d : K} (hd : m d = []) : Function.update m d [] = m := by
  rw [← hd, Function.update_eq_self]

/-- A rehash changes nothing that the map shows. -/
theorem Refines.rearranged (h : Refines q m) {r : HashMap K MappedType} (hwf : r.WellFormed)
    (hr : HashMap.Rearranged q.operations r) : Refines ⟨r⟩ m := by
  have hops : (⟨r⟩ : ReactorOpQueue K).ops = q.ops := by
    funext n
    rw [ReactorOpQueue.ops, ReactorOpQueue.ops, HashMap.value, HashMap.value, hr.node]
  have hkey : r.key = q.operations.key := by
    funext n
    rw [HashMap.key, HashMap.key, hr.node]
  refine ⟨hwf, fun n hn => ?_, fun n hn => ?_, fun n hn => ?_, fun d hd => ?_⟩
  · rw [hops]
    exact h.nonempty n (hr.values.mem_iff.mp hn)
  · rw [hops]
    exact h.spares n (hr.spares ▸ hn)
  · rw [hops, hkey]
    exact h.contents n (hr.values.mem_iff.mp hn)
  · rw [hkey, (hr.values.map _).mem_iff] at hd
    exact h.absent d hd

/-- A node that is taken for a new value comes with an empty queue. -/
theorem Refines.taken (h : Refines q m) {v x : MappedType} {n allocated : Nat} {spares : List Nat}
    (ht : HashMap.Taken q.operations v n x spares allocated) :
    x.ops = [] ∧ n ∉ q.operations.values ∧ spares ⊆ q.operations.spares := by
  have hn := (ht.nodup h.wellFormed).1
  refine ⟨?_, fun hmem => (List.nodup_cons.mp hn).1 (List.mem_append_left _ hmem), ?_⟩
  · cases ht with
    | new _ => rfl
    | recycled hspares => exact h.spares n (by simp [hspares])
  · cases ht with
    | new _ => exact List.nil_subset _
    | recycled hspares =>
      rw [hspares]
      exact List.subset_cons_self ..

/-- A descriptor without a queue gets one that holds the new operation. -/
theorem Refines.inserted (h : Refines q m) {v : K × MappedType} {r : HashMap K MappedType} {n : Nat}
    (hk : v.1 ∉ q.operations.values.map q.operations.key)
    (hins : HashMap.Inserted q.operations v r n) (op : ReactorOp) :
    (⟨r⟩ : ReactorOpQueue K).ops n = [] ∧
      Refines ((⟨r⟩ : ReactorOpQueue K).setOps n [op]) (Function.update m v.1 [op]) := by
  obtain ⟨x, ht, hnode⟩ := hins.taken
  obtain ⟨hx, hn, hspares⟩ := h.taken ht
  have hkeyn : r.key n = v.1 := by rw [HashMap.key, hnode, Function.update_self]
  have hkey : ∀ a ∈ q.operations.values, r.key a = q.operations.key a := by
    intro a ha
    rw [HashMap.key, hnode, Function.update_of_ne (ne_of_mem_of_not_mem ha hn)]
    rfl
  have hops : ∀ a, a ≠ n → (⟨r⟩ : ReactorOpQueue K).ops a = q.ops a := by
    intro a ha
    rw [ReactorOpQueue.ops, HashMap.value, hnode, Function.update_of_ne ha]
    rfl
  have hsetkey : ((⟨r⟩ : ReactorOpQueue K).setOps n [op]).operations.key = r.key :=
    HashMap.key_setValue ..
  have hmem : ∀ a ∈ r.values, a = n ∨ a ∈ q.operations.values := fun a ha =>
    List.mem_cons.mp (hins.values.mem_iff.mp ha)
  refine ⟨?_, HashMap.setValue_wellFormed hins.wellFormed n ⟨[op]⟩, fun a ha => ?_, fun a ha => ?_,
    fun a ha => ?_, fun d hd => ?_⟩
  · rw [ReactorOpQueue.ops, HashMap.value, hnode, Function.update_self]
    exact hx
  · rw [ops_setOps]
    split
    · exact List.cons_ne_nil op []
    · rename_i hne
      rw [hops a hne]
      exact h.nonempty a ((hmem a ha).resolve_left hne)
  · have hne : a ≠ n := fun han =>
      (List.nodup_append'.mp hins.wellFormed.nodup).2.2
        (hins.values.mem_iff.mpr (List.mem_cons_self ..)) (han ▸ ha)
    rw [ops_setOps, if_neg hne, hops a hne]
    exact h.spares a (hspares ha)
  · rw [hsetkey, ops_setOps]
    split
    · rename_i han
      rw [han, hkeyn, Function.update_self]
    · rename_i hne
      have ha := (hmem a ha).resolve_left hne
      have hkv : q.operations.key a ≠ v.1 := fun hkv => hk (hkv ▸ List.mem_map_of_mem ha)
      rw [hkey a ha, hops a hne, Function.update_of_ne hkv]
      exact h.contents a ha
  · rw [hsetkey, show ((⟨r⟩ : ReactorOpQueue K).setOps n [op]).operations.values = r.values from rfl,
      (hins.values.map _).mem_iff, List.map_cons, hkeyn, List.map_congr_left hkey,
      List.mem_cons, not_or] at hd
    rw [Function.update_of_ne hd.1]
    exact h.absent d hd.2

theorem enqueue_refines (h : Refines q m) (d : K) (op : ReactorOp) :
    ∃ q', q.enqueueOperation d op = ⟨q', [], (m d).isEmpty⟩ ∧
      Refines q' (Function.update m d (m d ++ [op])) := by
  obtain ⟨r, n, inserted, heq, hspec⟩ :=
    HashMap.insert_spec h.wellFormed (d, Assignable.copy (Assignable.construct : MappedType))
  simp only [enqueueOperation, heq]
  rcases hspec with ⟨rfl, hwf, hr, hn, hkey⟩ | ⟨rfl, hk, hins⟩
  · have href := h.rearranged hwf hr
    have hn' : n ∈ r.values := hr.values.mem_iff.mpr hn
    have hkey' : r.key n = d := by
      rw [HashMap.key, hr.node]
      exact hkey
    have hm : m d = (⟨r⟩ : ReactorOpQueue K).ops n := hkey' ▸ href.contents n hn'
    refine ⟨(⟨r⟩ : ReactorOpQueue K).setOps n ((⟨r⟩ : ReactorOpQueue K).ops n ++ [op]), ?_, ?_⟩
    · rw [hm, List.isEmpty_eq_false_iff.mpr (href.nonempty n hn')]
    · have := href.setOps hn' (show (⟨r⟩ : ReactorOpQueue K).ops n ++ [op] ≠ [] by simp)
      rw [show (⟨r⟩ : ReactorOpQueue K).operations.key n = d from hkey'] at this
      rwa [hm]
  · obtain ⟨hops, href⟩ := h.inserted hk hins op
    refine ⟨(⟨r⟩ : ReactorOpQueue K).setOps n ((⟨r⟩ : ReactorOpQueue K).ops n ++ [op]), ?_, ?_⟩
    · rw [h.absent d hk]
      rfl
    · rw [hops, h.absent d hk]
      exact href

theorem step_refines (h : Refines q m) (a : Action K) :
    ∃ m', OperationMap.Step m a (q.step a).2 m' ∧ Refines (q.step a).1 m' := by
  cases a with
  | enqueueOperation d op =>
    obtain ⟨q', heq, href⟩ := enqueue_refines h d op
    simp only [step, heq]
    exact ⟨_, .enqueueOperation, href⟩
  | cancelOperations d ec =>
    have hstep : OperationMap.Step m (.cancelOperations d ec) _ _ := .cancelOperations
    rcases h.find d with ⟨n, hf, hn, rfl⟩ | ⟨hf, hm⟩
    · simp only [step, cancelOperations, hf, cancelOperationsAt_eq]
      rw [h.contents n hn, List.isEmpty_eq_false_iff.mpr (h.nonempty n hn)] at hstep
      exact ⟨_, hstep, h.settle hn []⟩
    · simp only [step, cancelOperations, hf, cancelOperationsAt]
      rw [update_nil hm, hm] at hstep
      exact ⟨_, hstep, h⟩
  | cancelOperationsByKey d key ec =>
    have hstep : OperationMap.Step m (.cancelOperationsByKey d key ec) _ _ := .cancelOperationsByKey
    rcases h.find d with ⟨n, hf, hn, rfl⟩ | ⟨hf, hm⟩
    · simp only [step, cancelOperationsByKey, hf, cancelOperationsByKeyAt_eq]
      rw [h.contents n hn] at hstep
      exact ⟨_, hstep, h.settle hn _⟩
    · simp only [step, cancelOperationsByKey, hf, cancelOperationsByKeyAt]
      rw [hm, List.filter_nil, List.filter_nil, update_nil hm] at hstep
      exact ⟨_, hstep, h⟩
  | performOperations d outcome =>
    have hstep : OperationMap.Step m (.performOperations d outcome) _ _ := .performOperations
    rcases h.find d with ⟨n, hf, hn, rfl⟩ | ⟨hf, hm⟩
    · simp only [step, performOperations, hf, performOperationsAt_eq]
      rw [h.contents n hn] at hstep
      exact ⟨_, hstep, h.settle hn _⟩
    · simp only [step, performOperations, hf, performOperationsAt]
      rw [hm, show unfinished outcome [] = [] from rfl, update_nil hm] at hstep
      exact ⟨_, hstep, h⟩
  | performSet isSet outcome =>
    obtain ⟨q', heq, href⟩ := sweep_spec isSet (finished outcome) (unfinished outcome) rfl h
    simp only [step, performSet, performSetFrom_eq, heq]
    exact ⟨_, .performSet h.lists, href⟩
  | cancelUnset set ec =>
    obtain ⟨q', heq, href⟩ := sweep_spec (!set ·) (·.map (·.complete ec)) (fun _ => []) rfl h
    simp only [step, cancelUnset, cancelUnsetFrom_eq, heq]
    refine ⟨_, .cancelUnset h.lists, ?_⟩
    convert href using 2 with d
    cases set d <;> rfl
  | getAllOperations =>
    obtain ⟨q', heq, href⟩ := sweep_spec (fun _ => true) id (fun _ => []) rfl h
    simp only [step, getAllOperations, getAllFrom_eq, heq]
    have hstep := OperationMap.Step.getAllOperations h.lists
    rw [List.filter_true]
    exact ⟨_, hstep, href⟩

end Refinement

section Runs

variable {q q' : ReactorOpQueue K} {m : OperationMap K} {l : List (Action K × Result)}

def Steps (q : ReactorOpQueue K) (a : Action K) (r : Result) (q' : ReactorOpQueue K) : Prop :=
  q.step a = (q', r)

/-- The operations that wait for a descriptor. -/
def waiting (q : ReactorOpQueue K) (d : K) : List ReactorOp :=
  (q.operations.find d).elim [] q.ops

/-- The operations that wait in the nodes of the map. -/
def pending (q : ReactorOpQueue K) : List Nat :=
  q.operations.values.flatMap fun n => (q.ops n).map ReactorOp.id

def enqueued (l : List (Action K × Result)) : List Nat := l.flatMap fun e => e.1.enqueued

def delivered (l : List (Action K × Result)) : List Nat :=
  l.flatMap fun e => e.2.ops.map ReactorOp.id

theorem Refines.waiting (h : Refines q m) (d : K) : q.waiting d = m d := by
  rcases h.find d with ⟨n, hf, hn, rfl⟩ | ⟨hf, hm⟩
  · rw [ReactorOpQueue.waiting, hf, h.contents n hn]
    rfl
  · rw [ReactorOpQueue.waiting, hf, hm]
    rfl

theorem Refines.hasOperation (h : Refines q m) (d : K) :
    q.hasOperation d = !(m d).isEmpty := by
  rcases h.find d with ⟨n, hf, hn, rfl⟩ | ⟨hf, hm⟩
  · rw [ReactorOpQueue.hasOperation, hf, h.contents n hn,
      List.isEmpty_eq_false_iff.mpr (h.nonempty n hn)]
    rfl
  · rw [ReactorOpQueue.hasOperation, hf, hm]
    rfl

theorem Refines.pending (h : Refines q m) :
    Lib.Holdings.total m.ids (q.operations.values.map q.operations.key) = q.pending := by
  rw [Lib.Holdings.total, List.flatMap_map]
  refine List.flatMap_congr fun n hn => ?_
  rw [OperationMap.ids, h.contents n hn]

/-- Over a run, what was enqueued was delivered or still waits. -/
theorem run_conserves (h : Run Steps q l q') (href : Refines q m) :
    (q.pending ++ enqueued l).Perm (delivered l ++ q'.pending) := by
  induction h generalizing m with
  | nil => simp [enqueued, delivered]
  | @cons q a r q₁ l q' hstep _ ih =>
    obtain ⟨m₁, hm₁, href₁⟩ := step_refines href a
    rw [hstep] at hm₁ href₁
    have hone := hm₁.conserves href.lists.covers href₁.lists.covers
    rw [href.pending, href₁.pending] at hone
    have hrest := ih href₁
    simp only [enqueued, delivered, List.flatMap_cons] at hrest ⊢
    calc
      List.Perm _ ((r.ops.map ReactorOp.id ++ q₁.pending) ++ l.flatMap fun e => e.1.enqueued) := by
        rw [← List.append_assoc]
        exact hone.append_right _
      List.Perm _ _ := by
        rw [List.append_assoc, List.append_assoc]
        exact hrest.append_left _

/-- The queues answer as the map does and hold what it holds, nothing is lost or duplicated, and
the nodes that will be recycled are empty. -/
theorem reactor_op_queue_refines_map (h : Run Steps (construct : ReactorOpQueue K) l q) :
    ∃ m, Run OperationMap.Step .empty l m ∧ (∀ d, q.waiting d = m d) ∧
      (∀ d, q.hasOperation d = !(m d).isEmpty) ∧
      (enqueued l).Perm (delivered l ++ q.pending) ∧
      ∀ n ∈ q.operations.spares, q.ops n = [] := by
  obtain ⟨m, hm, href⟩ := h.simulate construct_refines fun {q a r t m} href hstep => by
    obtain ⟨m', hm', href'⟩ := step_refines href a
    rw [hstep] at hm' href'
    exact ⟨m', hm', href'⟩
  exact ⟨m, hm, href.waiting, href.hasOperation, run_conserves h construct_refines, href.spares⟩

def recyclingRun : List (Action Int) :=
  [.enqueueOperation 1 ⟨1, 0, 7, 0⟩, .enqueueOperation 4 ⟨2, 0, 0, 0⟩,
    .enqueueOperation 1 ⟨3, 0, 0, 0⟩, .cancelOperationsByKey 1 7 125,
    .performSet (fun d => d = 1) (fun _ => ⟨.done, 0, 5⟩), .enqueueOperation 14 ⟨4, 0, 0, 0⟩,
    .enqueueOperation 2 ⟨5, 0, 0, 0⟩, .cancelUnset (fun d => d < 14) 9]

theorem recyclingRun_delivers :
    (perform (fun q a => some (q.step a)) (construct : ReactorOpQueue Int) recyclingRun).map
      (fun p => (delivered p.2, p.1.pending, p.1.operations.numBuckets)) =
    some ([1, 3, 4], [2, 5], 13) := by
  decide +kernel

theorem reactor_op_queue_refines_map_recycling : ∃ l : List (Action Int × Result),
    ∃ m, Run OperationMap.Step .empty l m ∧ (enqueued l).Perm ([1, 3, 4] ++ [2, 5]) := by
  obtain ⟨⟨q, l⟩, hrun, hdelivers⟩ := Option.map_eq_some_iff.mp recyclingRun_delivers
  obtain ⟨m, hm, _, _, honce, _⟩ := reactor_op_queue_refines_map
    ((run_of_perform hrun).mono fun _ _ _ _ => Option.some.inj)
  obtain ⟨hdelivered, hrest⟩ := Prod.mk.inj hdelivers
  rw [hdelivered, (Prod.mk.inj hrest).1] at honce
  exact ⟨l, m, hm, honce⟩

end Runs

end Asio.Detail.ReactorOpQueue
