import Asio.Lib.Simulation
import Asio.ByteQueue
import Asio.BasicStreambuf

/-! A stream buffer and the code that writes in what `prepare` returns refine the byte queue. -/

universe u

namespace Asio

namespace ByteQueue

section Agreement

variable {α : Type u} {pattern pattern' : List (Option α)} {l l' : List α}

theorem Agrees.length_eq (h : Agrees pattern l) : pattern.length = l.length :=
  List.Forall₂.length_eq h

theorem Agrees.append (h : Agrees pattern l) (h' : Agrees pattern' l') :
    Agrees (pattern ++ pattern') (l ++ l') :=
  List.rel_append h h'

theorem Agrees.drop (h : Agrees pattern l) (n : Nat) : Agrees (pattern.drop n) (l.drop n) :=
  List.forall₂_drop n h

theorem Agrees.take (h : Agrees pattern l) (n : Nat) : Agrees (pattern.take n) (l.take n) :=
  List.forall₂_take n h

theorem agrees_replicate (l : List α) : Agrees (List.replicate l.length none) l := by
  induction l with
  | nil => exact .nil
  | cons a l ih => exact .cons (fun c hc => by cases hc) ih

theorem agrees_singleton (c : α) : Agrees [some c] [c] :=
  .cons (fun _ h => Option.some.inj h) .nil

theorem Agrees.set (h : Agrees pattern l) (i : Nat) (c : α) :
    Agrees (pattern.set i (some c)) (l.set i c) := by
  induction h generalizing i with
  | nil => exact .nil
  | cons ha hrest ih =>
    cases i with
    | zero => exact .cons (fun _ h => Option.some.inj h) hrest
    | succ i => exact .cons ha (ih i)

theorem Agrees.next (h : Agrees pattern l) : Next pattern l.head? := by
  cases h with
  | nil => exact .eof
  | cons ha _ => exact .char ha

/-- The first `k` characters of a longer output sequence, written or not. -/
theorem Agrees.padded (h : Agrees pattern (l.take pattern.length)) (k : Nat) (hk : k ≤ l.length) :
    Agrees (pattern.take k ++ List.replicate (k - pattern.length) none) (l.take k) := by
  by_cases hle : k ≤ pattern.length
  · rw [Nat.sub_eq_zero_of_le hle, List.replicate_zero, List.append_nil]
    have := h.take k
    rwa [List.take_take, Nat.min_eq_left hle] at this
  · have hlt := Nat.le_of_not_le hle
    have hrest : ((l.drop pattern.length).take (k - pattern.length)).length =
        k - pattern.length := by
      simp only [List.length_take, List.length_drop]
      omega
    have hpad := agrees_replicate ((l.drop pattern.length).take (k - pattern.length))
    rw [hrest] at hpad
    rw [List.take_of_length_le hlt, ← Nat.add_sub_cancel' hlt, List.take_add,
      Nat.add_sub_cancel_left]
    exact h.append hpad

end Agreement

end ByteQueue

namespace BasicStreambuf

open ByteQueue (Action Result Agrees)
open Lib.Simulation

set_option linter.unusedSectionVars false

variable {α : Type u} [Inhabited α]

/-- A stream buffer and the region that a caller may write in. -/
structure State (α : Type u) where
  streambuf : BasicStreambuf α
  prepared : Option MutableBuffer

def initial (maximumSize : Nat) : State α := ⟨construct maximumSize, none⟩

def write (s : BasicStreambuf α) (region : MutableBuffer) (i : Nat) (c : α) : BasicStreambuf α :=
  { s with buffer := s.buffer.set (region.start + i) c }

def step (s : State α) : Action α → Option (State α × Result α)
  | .prepare n =>
    (s.streambuf.prepare n).toOption.map fun (b, region) => (⟨b, some region⟩, .buffer region.size)
  | .write i c =>
    s.prepared.map fun region => ({ s with streambuf := s.streambuf.write region i c }, .done)
  | .commit n => some (⟨s.streambuf.commit n, none⟩, .done)
  | .consume n => some ({ s with streambuf := s.streambuf.consume n }, .done)
  | .sputc c => (s.streambuf.sputc c).toOption.map fun (b, r) => (⟨b, none⟩, .char r)
  | .overflow (some c) =>
    (s.streambuf.overflow (some c)).toOption.map fun (b, r) => (⟨b, none⟩, .char r)
  | .overflow none =>
    (s.streambuf.overflow none).toOption.map fun (b, r) => ({ s with streambuf := b }, .char r)
  | .sgetc => some ({ s with streambuf := s.streambuf.sgetc.1 }, .char s.streambuf.sgetc.2)
  | .underflow =>
    some ({ s with streambuf := s.streambuf.underflow.1 }, .char s.streambuf.underflow.2)
  | .sbumpc => some ({ s with streambuf := s.streambuf.sbumpc.1 }, .char s.streambuf.sbumpc.2)

/-- Sizes that an `int` holds, and writes inside the region. -/
def Legal (s : State α) : Action α → Prop
  | .prepare n => n < 2 ^ 31
  | .write i _ => i < s.prepared.elim 0 MutableBuffer.size
  | .commit n => n < 2 ^ 31
  | .consume n => n < 2 ^ 31
  | _ => True

instance : ∀ (s : State α) (a : Action α), Decidable (Legal s a)
  | _, .prepare _ => inferInstanceAs (Decidable (_ < _))
  | _, .write .. => inferInstanceAs (Decidable (_ < _))
  | _, .commit _ => inferInstanceAs (Decidable (_ < _))
  | _, .consume _ => inferInstanceAs (Decidable (_ < _))
  | _, .sputc _ => .isTrue trivial
  | _, .overflow _ => .isTrue trivial
  | _, .sgetc => .isTrue trivial
  | _, .underflow => .isTrue trivial
  | _, .sbumpc => .isTrue trivial

/-- The queue's characters are those of the get area, and its region is where `prepare` said. -/
structure Refines (maxSize : Nat) (s : State α) (q : ByteQueue α) : Prop where
  wellFormed : s.streambuf.WellFormed
  maxSize : s.streambuf.maxSize = maxSize
  contents : Agrees q.contents s.streambuf.data
  prepared : ∀ region, s.prepared = some region →
    region.start = s.streambuf.pptr ∧ region.size = q.region.length
  room : q.region.length ≤ s.streambuf.epptr - s.streambuf.pptr
  region : Agrees q.region (s.streambuf.output q.region.length)

section Refinement

variable {maxSize : Nat} {s : State α} {q : ByteQueue α}

theorem Refines.length_contents (h : Refines maxSize s q) :
    q.contents.length = s.streambuf.size :=
  h.contents.length_eq.trans h.wellFormed.length_data

theorem construct_refines (maxSize : Nat) :
    Refines maxSize (initial maxSize : State α) ByteQueue.empty where
  wellFormed := construct_wellFormed maxSize
  maxSize := rfl
  contents := by
    rw [show (initial maxSize : State α).streambuf.data = [] from rfl]
    exact .nil
  prepared _ h := by cases h
  room := Nat.zero_le _
  region := by
    rw [show (initial maxSize : State α).streambuf.output _ = [] from rfl]
    exact .nil

/-- Taking characters out of the get area leaves the region as it is. -/
theorem Refines.advanced (h : Refines maxSize s q) {b : BasicStreambuf α} {k : Nat}
    (hb : Advanced s.streambuf k b) :
    Refines maxSize { s with streambuf := b } { q with contents := q.contents.drop k } where
  wellFormed := hb.wellFormed
  maxSize := hb.maxSize.trans h.maxSize
  contents := hb.data ▸ h.contents.drop k
  prepared region hr := hb.pptr ▸ h.prepared region hr
  room := by
    simp only [hb.epptr, hb.pptr]
    exact h.room
  region := by
    simp only [hb.output]
    exact h.region

theorem Refines.reading (h : Refines maxSize s q) {b : BasicStreambuf α}
    (hb : Advanced s.streambuf 0 b) : Refines maxSize { s with streambuf := b } q :=
  h.advanced hb

/-- Without a region only the characters count. -/
theorem refines_of_contents {b : BasicStreambuf α} {contents : List (Option α)}
    (hwf : b.WellFormed) (hmax : b.maxSize = maxSize) (hcontents : Agrees contents b.data) :
    Refines maxSize ⟨b, none⟩ ⟨contents, []⟩ where
  wellFormed := hwf
  maxSize := hmax
  contents := hcontents
  prepared _ hr := by cases hr
  room := Nat.zero_le _
  region := by
    rw [show b.output ([] : List (Option α)).length = [] from rfl]
    exact .nil

theorem Refines.appended (h : Refines maxSize s q) {b : BasicStreambuf α} {c : α}
    (hb : Appended s.streambuf c b) :
    Refines maxSize ⟨b, none⟩ ⟨q.contents ++ [some c], []⟩ :=
  refines_of_contents hb.wellFormed (hb.maxSize.trans h.maxSize)
    (hb.data ▸ h.contents.append (ByteQueue.agrees_singleton c))

theorem Refines.prepare (h : Refines maxSize s q) {n : Nat} {b : BasicStreambuf α}
    (hb : Reserved s.streambuf n b) :
    Refines maxSize ⟨b, some ⟨b.pptr, n⟩⟩ { q with region := List.replicate n none } where
  wellFormed := hb.wellFormed
  maxSize := hb.maxSize.trans h.maxSize
  contents := hb.data ▸ h.contents
  prepared region hr := by
    cases hr
    exact ⟨rfl, List.length_replicate.symm⟩
  room := by
    rw [List.length_replicate]
    exact hb.room
  region := by
    have hlength := hb.wellFormed.length_output hb.room
    have := ByteQueue.agrees_replicate (b.output n)
    rw [hlength] at this
    rwa [List.length_replicate]

theorem Refines.write (h : Refines maxSize s q) {region : MutableBuffer}
    (hr : s.prepared = some region) (i : Nat) (c : α) :
    Refines maxSize { s with streambuf := s.streambuf.write region i c }
      { q with region := q.region.set i (some c) } := by
  obtain ⟨hstart, hsize⟩ := h.prepared region hr
  have hwf := h.wellFormed
  have hdata : (s.streambuf.write region i c).data = s.streambuf.data := by
    have hle := hwf.gptr_le
    simp only [data, BasicStreambuf.write, hstart, List.drop_set]
    rw [if_neg (by omega), List.take_set_of_le (by omega)]
  have houtput (m : Nat) :
      (s.streambuf.write region i c).output m = (s.streambuf.output m).set i c := by
    simp only [output, BasicStreambuf.write, hstart, List.drop_set]
    rw [if_neg (by omega), Nat.add_sub_cancel_left, List.take_set]
  exact {
    wellFormed := ⟨hwf.eback, hwf.gptr, hwf.egptr, hwf.pptr, hwf.epptr,
      List.length_set.trans hwf.buffer⟩
    maxSize := h.maxSize
    contents := hdata ▸ h.contents
    prepared := fun region' hr' => by
      rw [List.length_set]
      exact h.prepared region' hr'
    room := by
      rw [List.length_set]
      exact h.room
    region := by
      rw [List.length_set, houtput]
      exact h.region.set i c }

theorem Refines.commit (h : Refines maxSize s q) (hmax : maxSize < 2 ^ 31) {n k : Nat}
    (hk : min n (s.streambuf.epptr - s.streambuf.pptr) = k) :
    Refines maxSize ⟨s.streambuf.commit n, none⟩
      ⟨q.contents ++ q.region.take k ++ List.replicate (k - q.region.length) none, []⟩ := by
  obtain ⟨hwf, hsame, hdata⟩ := commit_spec h.wellFormed (by rwa [h.maxSize]) hk
  refine refines_of_contents hwf (hsame.trans h.maxSize) ?_
  have hlength := h.wellFormed.length_output (Nat.le_refl _)
  have hb := h.wellFormed.buffer
  rw [hdata, List.append_assoc]
  refine h.contents.append (ByteQueue.Agrees.padded h.region k ?_)
  rw [List.length_drop]
  omega

theorem toOption_eq_some {ε β : Type u} {x : Except ε β} {y : β} (h : x.toOption = some y) :
    x = .ok y := by
  cases x with
  | error e => cases h
  | ok z => exact congrArg Except.ok (Option.some.inj h)

theorem step_refines (hmax : maxSize < 2 ^ 31) {a : Action α} {s' : State α} {r : Result α}
    (h : Refines maxSize s q) (hok : Legal s a) (hstep : step s a = some (s', r)) :
    ∃ q', ByteQueue.Step maxSize q a r q' ∧ Refines maxSize s' q' := by
  have hwf := h.wellFormed
  have hlength := h.length_contents
  have hsmax := h.maxSize
  cases a with
  | prepare n =>
    obtain ⟨⟨b, region⟩, hb, heq⟩ := Option.map_eq_some_iff.mp hstep
    obtain ⟨hfit, hres, hregion⟩ := prepare_ok hwf (toOption_eq_some hb)
    cases hregion
    cases heq
    exact ⟨_, .prepare (by omega), h.prepare hres⟩
  | write i c =>
    obtain ⟨region, hr, heq⟩ := Option.map_eq_some_iff.mp hstep
    cases heq
    have hi : i < region.size := by
      rw [Legal, hr] at hok
      exact hok
    exact ⟨_, .write ((h.prepared region hr).2 ▸ hi), h.write hr i c⟩
  | commit n =>
    cases hstep
    refine ⟨_, .commit (Nat.min_le_left ..) ?_ ?_, h.commit hmax rfl⟩
    · have := h.room
      omega
    · have := hwf.epptr
      have := hwf.pptr
      have := hwf.gptr_le
      rw [hlength, size]
      omega
  | consume n =>
    cases hstep
    have hadv := consume_advanced hwf (by omega) n
    have hdrop : q.contents.drop (min n s.streambuf.size) = q.contents.drop n := by
      rw [← hlength]
      exact List.drop_eq_drop_min.symm
    exact ⟨_, .consume, hdrop ▸ h.advanced hadv⟩
  | sputc c =>
    obtain ⟨⟨b, r⟩, hb, heq⟩ := Option.map_eq_some_iff.mp hstep
    cases heq
    obtain ⟨rfl, happ⟩ := sputc_ok hwf (toOption_eq_some hb)
    have := happ.size_lt hwf
    exact ⟨_, .sputc (by omega), h.appended happ⟩
  | overflow c =>
    cases c with
    | none =>
      cases hstep
      exact ⟨q, .overflowEof, h⟩
    | some c =>
      obtain ⟨⟨b, r⟩, hb, heq⟩ := Option.map_eq_some_iff.mp hstep
      cases heq
      obtain ⟨rfl, happ⟩ := overflow_ok hwf (toOption_eq_some hb)
      have := happ.size_lt hwf
      exact ⟨_, .overflow (by omega), h.appended happ⟩
  | sgetc =>
    cases hstep
    obtain ⟨hadv, hr⟩ := sgetc_spec hwf
    exact ⟨q, .sgetc (hr ▸ h.contents.next), h.reading hadv⟩
  | underflow =>
    cases hstep
    obtain ⟨hadv, hr⟩ := underflow_spec hwf
    exact ⟨q, .underflow (hr ▸ h.contents.next), h.reading hadv⟩
  | sbumpc =>
    cases hstep
    obtain ⟨hadv, hr⟩ := sbumpc_spec hwf
    have htail : q.contents.drop (min 1 s.streambuf.size) = q.contents.tail := by
      rw [← List.drop_one, ← hlength]
      exact List.drop_eq_drop_min.symm
    exact ⟨_, .sbumpc (hr ▸ h.contents.next), htail ▸ h.advanced hadv⟩

end Refinement

/-- Whatever is done without a throw, a byte queue does, and its characters are those of `data`. -/
theorem streambuf_refines_byte_queue {maxSize : Nat} (hmax : maxSize < 2 ^ 31) {s : State α}
    {l : List (Action α × Result α)}
    (h : Run (fun s a r t => Legal s a ∧ step s a = some (t, r)) (initial maxSize) l s) :
    ∃ q, Run (ByteQueue.Step maxSize) .empty l q ∧ Agrees q.contents s.streambuf.data ∧
      s.streambuf.data.length = s.streambuf.size ∧ s.streambuf.size ≤ maxSize := by
  obtain ⟨q, hq, href⟩ := h.simulate (construct_refines maxSize)
    fun href hstep => step_refines hmax href hstep.1 hstep.2
  have hsize := href.wellFormed.size_le
  rw [href.maxSize] at hsize
  exact ⟨q, hq, href.contents, href.wellFormed.length_data, hsize⟩

def compactingRun : List (Action Nat) :=
  [.prepare 5, .write 0 10, .write 1 11, .write 2 12, .commit 3, .sbumpc, .consume 1, .sputc 13,
    .sgetc, .prepare 6, .write 0 14, .sbumpc, .commit 1]

theorem compactingRun_data :
    (perform (fun s a => if Legal s a then step s a else none) (initial 8) compactingRun).map
      (fun p => (p.1.streambuf.data, p.2.map Prod.snd)) =
    some ([13, 14], [.buffer 5, .done, .done, .done, .done, .char (some 10), .done,
      .char (some 13), .char (some 12), .buffer 6, .done, .char (some 12), .done]) := by
  decide +kernel

theorem streambuf_refines_byte_queue_compacting : ∃ l : List (Action Nat × Result Nat),
    ∃ q, Run (ByteQueue.Step 8) .empty l q ∧ Agrees q.contents [13, 14] := by
  obtain ⟨⟨s, l⟩, hrun, hdata⟩ := Option.map_eq_some_iff.mp compactingRun_data
  obtain ⟨q, hq, hcontents, _, _⟩ :=
    streambuf_refines_byte_queue (by decide) (run_of_guarded hrun)
  rw [(Prod.mk.inj hdata).1] at hcontents
  exact ⟨l, q, hq, hcontents⟩

end BasicStreambuf

end Asio
