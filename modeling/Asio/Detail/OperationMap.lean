import Asio.Lib.Holdings
import Asio.Lib.Simulation
import Asio.Detail.ReactorOp

/-! What a reactor's operation queue is for: a map from descriptors to the operations that wait
there, first come first served. -/

universe u

namespace Asio.Detail

/-- A descriptor without operations has the empty list. -/
abbrev OperationMap (K : Type u) := K → List ReactorOp

namespace OperationMap

variable {K : Type u}

inductive Action (K : Type u)
  | enqueueOperation (descriptor : K) (op : ReactorOp)
  | cancelOperations (descriptor : K) (ec : Nat)
  | cancelOperationsByKey (descriptor : K) (cancellationKey ec : Nat)
  | performOperations (descriptor : K) (outcome : Nat → ReactorOp.Outcome)
  | performSet (isSet : K → Bool) (outcome : Nat → ReactorOp.Outcome)
  | cancelUnset (set : K → Bool) (ec : Nat)
  | getAllOperations

structure Result where
  ops : List ReactorOp
  result : Bool
  deriving DecidableEq

def empty : OperationMap K := fun _ => []

def isFinished (outcome : Nat → ReactorOp.Outcome) (op : ReactorOp) : Bool :=
  (outcome op.id).status ≠ .notDone

def performed (outcome : Nat → ReactorOp.Outcome) (op : ReactorOp) : ReactorOp :=
  (op.perform (outcome op.id)).1

/-- The operations up to the first that is not finished. -/
def finished (outcome : Nat → ReactorOp.Outcome) (l : List ReactorOp) : List ReactorOp :=
  (l.takeWhile (isFinished outcome)).map (performed outcome)

def unfinished (outcome : Nat → ReactorOp.Outcome) (l : List ReactorOp) : List ReactorOp :=
  (l.dropWhile (isFinished outcome)).modifyHead (performed outcome)

/-- The descriptors that have operations, in some order. -/
structure Lists (m : OperationMap K) (order : List K) : Prop where
  nodup : order.Nodup
  mem : ∀ d, d ∈ order ↔ m d ≠ []

section Steps

variable [DecidableEq K]

inductive Step : OperationMap K → Action K → Result → OperationMap K → Prop
  | enqueueOperation {m : OperationMap K} : Step m (.enqueueOperation d op)
      ⟨[], (m d).isEmpty⟩ (Function.update m d (m d ++ [op]))
  | cancelOperations {m : OperationMap K} : Step m (.cancelOperations d ec)
      ⟨(m d).map (·.complete ec), !(m d).isEmpty⟩ (Function.update m d [])
  | cancelOperationsByKey {m : OperationMap K} : Step m (.cancelOperationsByKey d key ec)
      ⟨((m d).filter (·.cancellationKey = key)).map (·.complete ec),
        (m d).any (·.cancellationKey = key)⟩
      (Function.update m d ((m d).filter (·.cancellationKey ≠ key)))
  | performOperations {m : OperationMap K} : Step m (.performOperations d outcome)
      ⟨finished outcome (m d), !(unfinished outcome (m d)).isEmpty⟩
      (Function.update m d (unfinished outcome (m d)))
  | performSet {m : OperationMap K} : m.Lists order → Step m (.performSet isSet outcome)
      ⟨(order.filter isSet).flatMap fun d => finished outcome (m d), false⟩
      (fun d => if isSet d then unfinished outcome (m d) else m d)
  | cancelUnset {m : OperationMap K} {set : K → Bool} : m.Lists order → Step m (.cancelUnset set ec)
      ⟨(order.filter (!set ·)).flatMap fun d => (m d).map (·.complete ec), false⟩
      (fun d => if set d then m d else [])
  | getAllOperations {m : OperationMap K} : m.Lists order → Step m .getAllOperations
      ⟨order.flatMap m, false⟩ empty

def Action.enqueued : Action K → List Nat
  | .enqueueOperation _ op => [op.id]
  | _ => []

def ids (m : OperationMap K) (d : K) : List Nat := (m d).map ReactorOp.id

/-! ### No operation is lost or duplicated -/

section Conservation

open Lib.Holdings

set_option linter.unusedSectionVars false

variable {m m' : OperationMap K} {l l' : List K}

@[simp] theorem map_id_complete (ec : Nat) (ops : List ReactorOp) :
    (ops.map (·.complete ec)).map ReactorOp.id = ops.map ReactorOp.id := by
  simp [Function.comp_def]

theorem finished_unfinished_ids (outcome : Nat → ReactorOp.Outcome) (ops : List ReactorOp) :
    (finished outcome ops).map ReactorOp.id ++ (unfinished outcome ops).map ReactorOp.id =
      ops.map ReactorOp.id := by
  have hid : ReactorOp.id ∘ performed outcome = ReactorOp.id := rfl
  have hmodify : ∀ l : List ReactorOp,
      (l.modifyHead (performed outcome)).map ReactorOp.id = l.map ReactorOp.id := by
    intro l
    cases l <;> rfl
  rw [finished, unfinished, hmodify, List.map_map, hid, ← List.map_append,
    List.takeWhile_append_dropWhile]

theorem Lists.covers (h : m.Lists l) : Covers m.ids l where
  nodup := h.nodup
  mem d hd := (h.mem d).mpr fun hm => hd (by rw [ids, hm]; rfl)

theorem ids_update_of_ne (m : OperationMap K) {b d : K} (ops : List ReactorOp) (h : b ≠ d) :
    OperationMap.ids (Function.update m d ops) b = m.ids b := by
  rw [ids, Function.update_of_ne h, ids]

/-- One descriptor takes `added` in and gives `removed` out. -/
theorem update_conserves (m : OperationMap K) (d : K) (ops : List ReactorOp)
    {added removed : List Nat} (hl : Covers m.ids l)
    (hl' : Covers (OperationMap.ids (Function.update m d ops)) l')
    (h : (m.ids d ++ added).Perm (removed ++ ops.map ReactorOp.id)) :
    (total m.ids l ++ added).Perm (removed ++ total (OperationMap.ids (Function.update m d ops)) l') := by
  refine total_change hl hl' d (fun b hb => ids_update_of_ne m ops hb) ?_
  rwa [show OperationMap.ids (Function.update m d ops) d = ops.map ReactorOp.id by
    rw [ids, Function.update_self]]

theorem flatMap_ite {β : Type} (p : K → Bool) (f : K → List β) (order : List K) :
    (order.flatMap fun d => if p d then f d else []) = (order.filter p).flatMap f := by
  induction order with
  | nil => rfl
  | cons d order ih =>
    cases hd : p d with
    | false => simp [hd, ih]
    | true => simp [hd, ih]

/-- Every chosen descriptor gives some operations out, and the others keep theirs. -/
theorem Lists.conserves {order : List K} (horder : m.Lists order) (hl : Covers m.ids l)
    (hl' : Covers m'.ids l') (p : K → Bool) (out : K → List ReactorOp)
    (hchosen : ∀ d, p d = true → (out d).map ReactorOp.id ++ m'.ids d = m.ids d)
    (hkept : ∀ d, p d = false → m' d = m d) :
    (total m.ids l).Perm
      (((order.filter p).flatMap out).map ReactorOp.id ++ total m'.ids l') := by
  have hsplit : ∀ d ∈ order, (m.ids d).Perm
      ((if p d then (out d).map ReactorOp.id else []) ++ m'.ids d) := by
    intro d _
    cases hp : p d with
    | false => exact List.Perm.of_eq (congrArg _ (hkept d hp).symm)
    | true => exact List.Perm.of_eq (hchosen d hp).symm
  have hcovers : Covers m'.ids order := by
    refine ⟨horder.nodup, fun d hd => horder.covers.mem d fun hm => hd ?_⟩
    cases hp : p d with
    | false => rwa [ids, hkept d hp]
    | true =>
      have := hchosen d hp
      rw [hm] at this
      exact (List.append_eq_nil_iff.mp this).2
  have hout := total_split hsplit
  rw [flatMap_ite, ← List.map_flatMap] at hout
  exact (total_perm hl horder.covers).trans
    (hout.trans ((total_perm hcovers hl').append_left _))

/-- What is enqueued is delivered or waits, and nothing else is. -/
theorem Step.conserves {a : Action K} {r : Result} (h : Step m a r m') (hl : Covers m.ids l)
    (hl' : Covers m'.ids l') :
    (total m.ids l ++ a.enqueued).Perm (r.ops.map ReactorOp.id ++ total m'.ids l') := by
  cases h with
  | enqueueOperation =>
    refine update_conserves m _ _ hl hl' ?_
    simp [ids, Action.enqueued]
  | cancelOperations =>
    refine update_conserves m _ _ hl hl' ?_
    rw [map_id_complete]
    simp [ids, Action.enqueued]
  | cancelOperationsByKey =>
    refine update_conserves m _ _ hl hl' ?_
    rw [map_id_complete, ← List.map_append]
    simp only [Action.enqueued, List.append_nil, ids]
    refine List.Perm.map _ ?_
    simpa using (List.filter_append_perm _ (m _)).symm
  | performOperations =>
    refine update_conserves m _ _ hl hl' ?_
    rw [finished_unfinished_ids]
    simp [ids, Action.enqueued]
  | @performSet order isSet outcome m horder =>
    simp only [Action.enqueued, List.append_nil]
    refine horder.conserves hl hl' isSet _ (fun d hd => ?_) fun d hd => by simp [hd]
    simp only [ids, hd, if_true]
    exact finished_unfinished_ids outcome (m d)
  | @cancelUnset order ec m set horder =>
    simp only [Action.enqueued, List.append_nil]
    refine horder.conserves hl hl' (!set ·) _ (fun d hd => ?_) fun d hd => ?_
    · have hd : set d = false := by simpa using hd
      simp [ids, hd, Function.comp_def]
    · have hd : set d = true := by simpa using hd
      simp [hd]
  | getAllOperations horder =>
    simp only [Action.enqueued, List.append_nil]
    have := horder.conserves hl hl' (fun _ => true) m (fun d _ => List.append_nil _)
      fun d hd => by cases hd
    rwa [List.filter_true] at this

end Conservation

end Steps

end OperationMap

end Asio.Detail
