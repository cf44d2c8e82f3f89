import Asio.Detail.ReactorOp
import Asio.Lib.Line
import Mathlib.Logic.Function.Basic

/-! What happens to the operations of one descriptor: of each type they wait in line. -/

namespace Asio.Detail

open Lib

/-- What does not change while an operation is performed and completed. -/
def ReactorOp.identity (op : ReactorOp) : Nat × Nat := (op.id, op.cancellationKey)

theorem ReactorOp.identity_of_perform {op op' : ReactorOp} {outcome : ReactorOp.Outcome}
    {status : ReactorOp.Status} (h : op.perform outcome = (op', status)) :
    op'.identity = op.identity := by
  cases h
  rfl

/-! ### The operations of one type -/

/-- The operations of one type, out of those that a call passes on. -/
def identitiesOf (t : OpType) (ops : List (OpType × ReactorOp)) : List (Nat × Nat) :=
  (ops.filter (·.1 = t)).map fun p => p.2.identity

theorem identitiesOf_append (t : OpType) (ops ops' : List (OpType × ReactorOp)) :
    identitiesOf t (ops ++ ops') = identitiesOf t ops ++ identitiesOf t ops' := by
  rw [identitiesOf, List.filter_append, List.map_append, identitiesOf, identitiesOf]

theorem identitiesOf_map (f : ReactorOp → ReactorOp) (hf : ∀ op, (f op).identity = op.identity)
    (t t' : OpType) (ops : List ReactorOp) :
    identitiesOf t (ops.map fun op => (t', f op)) =
      if t' = t then ops.map ReactorOp.identity else [] := by
  rw [identitiesOf, List.filter_map, List.map_map]
  split
  · rename_i h
    subst h
    rw [List.filter_eq_self.mpr (by simp)]
    exact List.map_congr_left fun op _ => hf op
  · rename_i h
    rw [List.filter_eq_nil_iff.mpr (by simp [h]), List.map_nil]

theorem identitiesOf_singleton (t t' : OpType) (op : ReactorOp) :
    identitiesOf t [(t', op)] = if t' = t then [op.identity] else [] :=
  identitiesOf_map (fun op => op) (fun _ => rfl) t t' [op]

theorem identitiesOf_complete (ec : Nat) (t t' : OpType) (ops : List ReactorOp) :
    identitiesOf t (ops.map fun op => (t', op.complete ec)) =
      if t' = t then ops.map ReactorOp.identity else [] :=
  identitiesOf_map (·.complete ec) (fun _ => rfl) t t' ops

/-! ### Histories -/

/-- An operation is completed in turn, or because it is cancelled. -/
structure OpCompletion where
  opType : OpType
  op : ReactorOp
  calledOut : Bool
  deriving DecidableEq

/-- The operations that have been started on a descriptor, and those that have been placed on a
completion queue. -/
structure OpHistory where
  started : List (OpType × ReactorOp)
  completions : List OpCompletion

namespace OpHistory

def empty : OpHistory := ⟨[], []⟩

def start (h : OpHistory) (t : OpType) (op : ReactorOp) : OpHistory :=
  { h with started := h.started ++ [(t, op)] }

def complete (h : OpHistory) (calledOut : Bool) (ops : List (OpType × ReactorOp)) : OpHistory :=
  { h with completions := h.completions ++ ops.map fun p => ⟨p.1, p.2, calledOut⟩ }

variable (h : OpHistory) (t : OpType)

def startedIds : List Nat := h.started.map fun p => p.2.id

def startedOf : List (Nat × Nat) := identitiesOf t h.started

def completedOf : List (Nat × Nat) :=
  identitiesOf t (h.completions.map fun c => (c.opType, c.op))

/-- Those that have not been called out. -/
def inTurnOf : List (Nat × Nat) :=
  identitiesOf t ((h.completions.filter (!·.calledOut)).map fun c => (c.opType, c.op))

def line (queue : OpType → List ReactorOp) : Line (Nat × Nat) where
  joined := h.startedOf t
  left := h.completedOf t
  inTurn := h.inTurnOf t
  waiting := (queue t).map ReactorOp.identity

theorem startedIds_start {op : ReactorOp} (hnodup : h.startedIds.Nodup)
    (hnew : op.id ∉ h.startedIds) : (h.start t op).startedIds.Nodup := by
  rw [startedIds, start, List.map_append]
  refine List.nodup_append'.mpr ⟨hnodup, List.nodup_singleton _, ?_⟩
  exact List.disjoint_singleton.mpr hnew

theorem startedOf_start (t' : OpType) (op : ReactorOp) :
    (h.start t' op).startedOf t = h.startedOf t ++ if t' = t then [op.identity] else [] := by
  rw [startedOf, start, identitiesOf_append, identitiesOf_singleton]
  rfl

theorem completedOf_complete (calledOut : Bool) (ops : List (OpType × ReactorOp)) :
    (h.complete calledOut ops).completedOf t = h.completedOf t ++ identitiesOf t ops := by
  rw [completedOf, complete, List.map_append, identitiesOf_append, List.map_map]
  simp only [Function.comp_def, Prod.eta, List.map_id']
  rfl

theorem inTurnOf_complete (calledOut : Bool) (ops : List (OpType × ReactorOp)) :
    (h.complete calledOut ops).inTurnOf t =
      h.inTurnOf t ++ if calledOut then [] else identitiesOf t ops := by
  rw [inTurnOf, complete, List.filter_append, List.map_append, identitiesOf_append,
    List.filter_map]
  cases calledOut with
  | false =>
    simp only [Function.comp_def, Bool.not_false, List.filter_true, List.map_map, Prod.eta,
      List.map_id']
    rfl
  | true =>
    simp only [Function.comp_def, Bool.not_true, List.filter_false]
    rfl

/-! ### What a step does -/

/-- How the operations of a descriptor move: one that is started is completed at once if none of
its type waits, or it waits; those at the front of the queues leave them; and others are called
out. -/
inductive Moves (h : OpHistory) (queue : OpType → List ReactorOp) :
    OpHistory → (OpType → List ReactorOp) → Prop
  | stay : Moves h queue h queue
  | pass {t op op'} : queue t = [] → op'.identity = op.identity →
      Moves h queue ((h.start t op).complete false [(t, op')]) queue
  | join {t op op'} : op'.identity = op.identity →
      Moves h queue (h.start t op) (Function.update queue t (queue t ++ [op']))
  | leave {ops queue'} : (∀ t, identitiesOf t ops ++ (queue' t).map ReactorOp.identity =
      (queue t).map ReactorOp.identity) → Moves h queue (h.complete false ops) queue'
  | callOut {ops queue'} : (∀ t, ((queue' t).map ReactorOp.identity).Sublist
        ((queue t).map ReactorOp.identity) ∧
      (identitiesOf t ops ++ (queue' t).map ReactorOp.identity).Perm
        ((queue t).map ReactorOp.identity)) → Moves h queue (h.complete true ops) queue'

variable {h h' : OpHistory} {queue queue' : OpType → List ReactorOp}

theorem Moves.line (hmoves : Moves h queue h' queue') (t : OpType) :
    Line.Move (h.line t queue) (h'.line t queue') := by
  cases hmoves with
  | stay => exact .stay
  | @pass t' op op' hempty hid =>
    simp only [OpHistory.line, completedOf_complete, inTurnOf_complete, Bool.false_eq_true,
      if_false, identitiesOf_singleton, hid]
    by_cases ht : t' = t
    · subst ht
      rw [if_pos rfl, hempty]
      have hstarted := h.startedOf_start t' t' op
      rw [if_pos rfl] at hstarted
      exact hstarted ▸ .pass
    · have hstarted := h.startedOf_start t t' op
      rw [if_neg ht, List.append_nil] at hstarted
      rw [if_neg ht, List.append_nil, List.append_nil]
      exact hstarted ▸ .stay
  | @join t' op op' hid =>
    simp only [OpHistory.line, startedOf_start]
    by_cases ht : t' = t
    · subst ht
      rw [if_pos rfl, Function.update_self, List.map_append, ← hid]
      exact .join
    · rw [if_neg ht, List.append_nil, Function.update_of_ne (Ne.symm ht)]
      exact .stay
  | @leave ops _ hfront =>
    rw [OpHistory.line, OpHistory.line, completedOf_complete, inTurnOf_complete, ← hfront t]
    exact .leave
  | callOut hout =>
    rw [OpHistory.line, OpHistory.line, completedOf_complete, inTurnOf_complete]
    simp only [if_true, List.append_nil]
    exact .callOut (hout t).1 (hout t).2

/-! ### Moves in one queue -/

theorem identitiesOf_queue (t t' : OpType) (ops : List ReactorOp) :
    identitiesOf t' (ops.map (t, ·)) = if t = t' then ops.map ReactorOp.identity else [] :=
  identitiesOf_map (fun op => op) (fun _ => rfl) t' t ops

theorem Moves.leave_queue {t : OpType} {ops rest : List ReactorOp}
    (hfront : ops.map ReactorOp.identity ++ rest.map ReactorOp.identity =
      (queue t).map ReactorOp.identity) :
    Moves h queue (h.complete false (ops.map (t, ·))) (Function.update queue t rest) := by
  refine .leave fun t' => ?_
  rw [identitiesOf_queue]
  by_cases ht : t = t'
  · subst ht
    rw [if_pos rfl, Function.update_self]
    exact hfront
  · rw [if_neg ht, List.nil_append, Function.update_of_ne (Ne.symm ht)]

theorem Moves.callOut_queue {t : OpType} {ops rest : List ReactorOp}
    (hsub : (rest.map ReactorOp.identity).Sublist ((queue t).map ReactorOp.identity))
    (hperm : (ops.map ReactorOp.identity ++ rest.map ReactorOp.identity).Perm
      ((queue t).map ReactorOp.identity)) :
    Moves h queue (h.complete true (ops.map (t, ·))) (Function.update queue t rest) := by
  refine .callOut fun t' => ?_
  rw [identitiesOf_queue]
  by_cases ht : t = t'
  · subst ht
    rw [if_pos rfl, Function.update_self]
    exact ⟨hsub, hperm⟩
  · rw [if_neg ht, List.nil_append, Function.update_of_ne (Ne.symm ht)]
    exact ⟨List.Sublist.refl _, List.Perm.refl _⟩

/-- The operations with a key are called out. -/
theorem Moves.of_cancelByKey (h : OpHistory) (queue : OpType → List ReactorOp) (t : OpType)
    (ec key : Nat) :
    Moves h queue
      (h.complete true (((queue t).filter (·.cancellationKey = key)).map fun op =>
        (t, op.complete ec)))
      (Function.update queue t ((queue t).filter (·.cancellationKey ≠ key))) := by
  have hsplit : ((queue t).filter (·.cancellationKey = key) ++
      (queue t).filter (·.cancellationKey ≠ key)).Perm (queue t) := by
    simpa using List.filter_append_perm (·.cancellationKey = key) (queue t)
  have hperm := hsplit.map ReactorOp.identity
  rw [List.map_append] at hperm
  have hmoves : Moves h queue
      (h.complete true ((((queue t).filter (·.cancellationKey = key)).map (·.complete ec)).map
        (t, ·))) (Function.update queue t ((queue t).filter (·.cancellationKey ≠ key))) := by
    refine .callOut_queue (List.filter_sublist.map ReactorOp.identity) ?_
    rw [List.map_map]
    exact hperm
  rwa [List.map_map] at hmoves

end OpHistory

end Asio.Detail
