import Asio.Detail.EpollReactor
import Asio.Detail.OpQueue

/-! Operations are taken out of the queue of a descriptor by their key. -/

universe u

namespace Asio.Detail.Epoll

open OpQueues

/-- The queues of a descriptor, and those that `cancel_ops_by_key` has of its own. -/
inductive QueueName
  | opQueue (t : OpType)
  | ops
  | otherOps
  deriving DecidableEq

/-- The operations of a descriptor, as objects that are linked to each other. -/
structure LinkedOps (α : Type u) where
  queues : OpQueues QueueName α
  op : α → ReactorOp

namespace LinkedOps

variable {α : Type u} [DecidableEq α]

/-- Each operation goes over to one of the other queues. -/
def cancelLoop (t : OpType) (cancellationKey : Nat) : Nat → LinkedOps α → LinkedOps α
  | 0, d => d
  | n + 1, d =>
    match d.queues.front (.opQueue t) with
    | none => d
    | some a =>
      let queues := d.queues.pop (.opQueue t)
      if (d.op a).cancellationKey = cancellationKey then
        cancelLoop t cancellationKey n
          { queues := queues.push .ops a
            op := Function.update d.op a ((d.op a).complete operationAborted) }
      else
        cancelLoop t cancellationKey n { d with queues := queues.push .otherOps a }

/-- The loop has as many turns as it needs. -/
def cancelOpsByKey (d : LinkedOps α) (t : OpType) (cancellationKey n : Nat) : LinkedOps α :=
  let d := d.cancelLoop t cancellationKey n
  { d with queues := d.queues.pushAll (.opQueue t) .otherOps }

def keyed (d : LinkedOps α) (cancellationKey : Nat) (a : α) : Bool :=
  (d.op a).cancellationKey = cancellationKey

variable {d d' : LinkedOps α} {lists lists' : QueueName → List α} {t : OpType} {key n : Nat}

theorem keyed_update {a : α} {ec : Nat} {queues : OpQueues QueueName α} :
    keyed ⟨queues, Function.update d.op a ((d.op a).complete ec)⟩ key = d.keyed key := by
  funext b
  by_cases hb : b = a
  · subst hb
    simp only [keyed, Function.update_self]
    rfl
  · simp only [keyed, Function.update_of_ne hb]

/-- The operations `l` that `p` holds of are with those to be completed, the others aside. -/
structure Sorted (d d' : LinkedOps α) (lists lists' : QueueName → List α) (t : OpType)
    (p : α → Bool) (l : List α) : Prop where
  represents : d'.queues.Represents lists'
  opQueue : lists' (.opQueue t) = []
  ops : lists' .ops = lists .ops ++ l.filter p
  otherOps : lists' .otherOps = lists .otherOps ++ l.filter (!p ·)
  others : ∀ t', t' ≠ t → lists' (.opQueue t') = lists (.opQueue t')
  op : ∀ a, d'.op a = if a ∈ l.filter p then (d.op a).complete operationAborted else d.op a

/-- The first operation goes over to the queue `q`. -/
def shift (lists : QueueName → List α) (t : OpType) (q : QueueName) (a : α) (l : List α) :
    QueueName → List α :=
  Function.update (Function.update lists (.opQueue t) l) q (lists q ++ [a])

section Shift

variable {q : QueueName} {a : α} {l : List α}

omit [DecidableEq α] in
theorem shift_self : shift lists t q a l q = lists q ++ [a] := Function.update_self ..

omit [DecidableEq α] in
theorem shift_opQueue (hq : q ≠ .opQueue t) : shift lists t q a l (.opQueue t) = l := by
  rw [shift, Function.update_of_ne hq.symm, Function.update_self]

omit [DecidableEq α] in
theorem shift_of_ne (q' : QueueName) (hq : q' ≠ q) (ht : q' ≠ .opQueue t) :
    shift lists t q a l q' = lists q' := by
  rw [shift, Function.update_of_ne hq, Function.update_of_ne ht]

theorem represents_shift (h : d.queues.Represents lists) (hl : lists (.opQueue t) = a :: l)
    (hq : q ≠ .opQueue t) :
    ((d.queues.pop (.opQueue t)).push q a).Represents (shift lists t q a l) := by
  have hnodup : (a :: l).Nodup := hl ▸ h.nodup (.opQueue t)
  have hpush := (h.pop hl).push (q := q) (a := a) fun q' ha => by
    by_cases hq' : q' = .opQueue t
    · subst hq'
      rw [Function.update_self] at ha
      exact (List.nodup_cons.mp hnodup).1 ha
    · rw [Function.update_of_ne hq'] at ha
      exact hq' (h.unique ha (hl ▸ List.mem_cons_self))
  rwa [Function.update_of_ne hq] at hpush

end Shift

theorem cancelLoop_sorted (key : Nat) (h : d.queues.Represents lists)
    (hn : (lists (.opQueue t)).length ≤ n) :
    ∃ lists', Sorted d (d.cancelLoop t key n) lists lists' t (d.keyed key)
      (lists (.opQueue t)) := by
  induction n generalizing d lists with
  | zero =>
    have hnil : lists (.opQueue t) = [] := List.eq_nil_of_length_eq_zero (Nat.le_zero.mp hn)
    refine ⟨lists, ⟨h, hnil, ?_, ?_, fun _ _ => rfl, fun a => ?_⟩⟩
    all_goals simp [hnil, cancelLoop]
  | succ n ih =>
    cases hl : lists (.opQueue t) with
    | nil =>
      have hfront : d.queues.front (.opQueue t) = none := by rw [h.front, hl, List.head?_nil]
      have hloop : d.cancelLoop t key (n + 1) = d := by rw [cancelLoop, hfront]
      rw [hloop]
      refine ⟨lists, ⟨h, hl, ?_, ?_, fun _ _ => rfl, fun a => ?_⟩⟩
      all_goals simp
    | cons a l =>
      have hfront : d.queues.front (.opQueue t) = some a := by rw [h.front, hl, List.head?_cons]
      have hnodup : (a :: l).Nodup := hl ▸ h.nodup (.opQueue t)
      have ha : a ∉ l := (List.nodup_cons.mp hnodup).1
      have hlen : l.length ≤ n := by
        rw [hl, List.length_cons] at hn
        omega
      rw [cancelLoop, hfront]
      simp only
      split
      · rename_i hkey
        have hkeyed : d.keyed key a = true := decide_eq_true hkey
        have hshift := represents_shift (q := .ops) h hl nofun
        have hne : QueueName.ops ≠ .opQueue t := nofun
        obtain ⟨lists', hrepresents, hnil, hops, hotherOps, hothers, hop⟩ := ih
          (d := ⟨(d.queues.pop (.opQueue t)).push .ops a,
            Function.update d.op a ((d.op a).complete operationAborted)⟩) hshift
              ((shift_opQueue hne).symm ▸ hlen)
        rw [keyed_update, shift_opQueue hne] at hops hotherOps hop
        refine ⟨lists', ⟨hrepresents, hnil, ?_, ?_, fun t' ht => ?_, fun b => ?_⟩⟩
        · rw [hops, shift_self, List.append_assoc, List.filter_cons_of_pos hkeyed]
          rfl
        · rw [hotherOps, shift_of_ne (q := .ops) .otherOps nofun nofun,
            List.filter_cons_of_neg (by rw [hkeyed]; nofun)]
        · rw [hothers t' ht, shift_of_ne (q := .ops) (.opQueue t') nofun
            fun heq => ht (QueueName.opQueue.inj heq)]
        · rw [hop b]
          by_cases hb : b = a
          · subst hb
            simp [ha, hkeyed]
          · simp [hb]
      · rename_i hkey
        have hkeyed : d.keyed key a = false := decide_eq_false hkey
        have hshift := represents_shift (q := .otherOps) h hl nofun
        have hne : QueueName.otherOps ≠ .opQueue t := nofun
        obtain ⟨lists', hrepresents, hnil, hops, hotherOps, hothers, hop⟩ := ih
          (d := ⟨(d.queues.pop (.opQueue t)).push .otherOps a, d.op⟩) hshift ((shift_opQueue hne).symm ▸ hlen)
        rw [shift_opQueue hne] at hops hotherOps hop
        refine ⟨lists', ⟨hrepresents, hnil, ?_, ?_, fun t' ht => ?_, fun b => ?_⟩⟩
        · rw [hops, shift_of_ne (q := .otherOps) .ops nofun nofun,
            List.filter_cons_of_neg (by rw [hkeyed]; nofun)]
          rfl
        · rw [hotherOps, shift_self, List.append_assoc,
            List.filter_cons_of_pos (by rw [hkeyed]; rfl)]
          rfl
        · rw [hothers t' ht, shift_of_ne (q := .otherOps) (.opQueue t') nofun
            fun heq => ht (QueueName.opQueue.inj heq)]
        · rw [hop b]
          by_cases hb : b = a
          · subst hb
            simp [ha, hkey, keyed]
          · simp [hb, keyed]

/-- The lists that the queues of a descriptor lead through hold the operations of `data`. -/
structure Implements (d : LinkedOps α) (lists : QueueName → List α) (data : DescriptorState) :
    Prop where
  represents : d.queues.Represents lists
  otherOps : lists .otherOps = []
  opQueue : ∀ t, data.opQueue t = (lists (.opQueue t)).map d.op

theorem Sorted.op_of_keyed {p : α → Bool} {l : List α} {a : α}
    (h : Sorted d d' lists lists' t p l) (ha : a ∈ l.filter p) :
    d'.op a = (d.op a).complete operationAborted := by
  rw [h.op, if_pos ha]

theorem Sorted.op_of_not_mem {p : α → Bool} {l : List α} {a : α}
    (h : Sorted d d' lists lists' t p l) (ha : a ∉ l.filter p) : d'.op a = d.op a := by
  rw [h.op, if_neg ha]

/-- The loop takes out just the operations with the key, and the others stay in order. -/
theorem cancelOpsByKey_refines (key : Nat) {data : DescriptorState} (h : d.Implements lists data)
    (hops : lists .ops = []) (hn : (lists (.opQueue t)).length ≤ n) :
    ∃ lists', (d.cancelOpsByKey t key n).Implements lists' (data.cancelByKey t key).2 ∧
      (lists' .ops).map (fun a => (t, (d.cancelOpsByKey t key n).op a)) =
        (data.cancelByKey t key).1 := by
  obtain ⟨mid, hsorted⟩ := cancelLoop_sorted key h.represents hn
  have hne : QueueName.opQueue t ≠ .otherOps := nofun
  have hpushed := hsorted.represents.pushAll hne
  have hops' : QueueName.ops ≠ .opQueue t ∧ QueueName.ops ≠ .otherOps := ⟨nofun, nofun⟩
  refine ⟨_, ⟨hpushed, Function.update_self .., fun t' => ?_⟩, ?_⟩
  · have hne' : QueueName.opQueue t' ≠ .otherOps := nofun
    rw [Function.update_of_ne hne']
    by_cases ht : t' = t
    · subst ht
      rw [Function.update_self, hsorted.opQueue, hsorted.otherOps, h.otherOps]
      simp only [DescriptorState.cancelByKey, DescriptorState.setQueue, Function.update_self,
        h.opQueue, List.nil_append, List.filter_map]
      have hsame : (lists (.opQueue t')).filter ((fun op => op.cancellationKey ≠ key) ∘ d.op) =
          (lists (.opQueue t')).filter (!d.keyed key ·) :=
        List.filter_congr fun a _ => by simp [keyed]
      rw [hsame]
      refine List.map_congr_left fun a ha => (hsorted.op_of_not_mem fun hmem => ?_).symm
      have hkeyed := (List.mem_filter.mp ha).2
      rw [(List.mem_filter.mp hmem).2] at hkeyed
      cases hkeyed
    · have hother : QueueName.opQueue t' ≠ .opQueue t := fun heq => ht (QueueName.opQueue.inj heq)
      rw [Function.update_of_ne hother, hsorted.others t' ht]
      simp only [DescriptorState.cancelByKey, DescriptorState.setQueue, Function.update_of_ne ht,
        h.opQueue]
      refine List.map_congr_left fun a ha => (hsorted.op_of_not_mem fun hmem => hother ?_).symm
      exact h.represents.unique ha (List.mem_of_mem_filter hmem)
  · rw [Function.update_of_ne hops'.2, Function.update_of_ne hops'.1, hsorted.ops, hops,
      List.nil_append]
    simp only [DescriptorState.cancelByKey, h.opQueue, List.filter_map, List.map_map]
    have hsame : (lists (.opQueue t)).filter ((fun op => op.cancellationKey = key) ∘ d.op) =
        (lists (.opQueue t)).filter (d.keyed key) :=
      List.filter_congr fun a _ => by simp [keyed]
    rw [hsame]
    refine List.map_congr_left fun a ha => ?_
    rw [Function.comp_apply, ← hsorted.op_of_keyed ha]
    rfl

end LinkedOps

end Asio.Detail.Epoll
