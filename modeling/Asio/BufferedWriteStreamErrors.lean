import Asio.BufferedReadStream

/-! Writing through a full storage whose flush fails. -/

universe v w

namespace Asio.BufferedWriteStream

open BufferedStreamStorage

variable {ρ : Type w} {α : Type v} (stream : BufferWriteStream ρ α) (b : BufferedWriteStream ρ α)
  (data : List α)

/-- `write_some` flushes the storage first. -/
def Flushes : Prop := data.length ≠ 0 ∧ b.storage.size = b.storage.capacity

/-- The flush that `write_some` performs reports an error. -/
def FlushFails : Prop := b.Flushes data ∧ (b.nextWrite stream).2.1 ≠ none

instance : Decidable (b.Flushes data) := inferInstanceAs (Decidable (_ ∧ _))

instance : Decidable (b.FlushFails stream data) := inferInstanceAs (Decidable (_ ∧ _))

/-- When its flush fails, `write_some` returns zero and the error and leaves what the flush has left,
so that the data are not sent twice by a caller who then writes them again. -/
structure Refuses (out : Nat × Option ErrorCode × BufferedWriteStream ρ α) : Prop where
  count : out.1 = 0
  ec : out.2.1 = (b.nextWrite stream).2.1
  stored : out.2.2.storage.contents = b.storage.contents.drop (b.nextWrite stream).1
  again : (out.2.2.writeSome stream data).2.2.total =
    b.total ++ data.take (out.2.2.writeSome stream data).1

variable {stream b data}

theorem writeSome_of_flushes (h : b.Flushes data) : b.writeSome stream data =
    if (b.nextWrite stream).1 = 0 then
      (0, (b.nextWrite stream).2.1, (b.flush stream).2.2)
    else
      (((b.flush stream).2.2.copy data).1, (b.nextWrite stream).2.1,
        ((b.flush stream).2.2.copy data).2) := by
  rw [writeSome, if_neg h.1, if_pos h.2]
  rfl

/-- A flush that has passed something on leaves room for the caller's data. -/
theorem copyLength_pos (h : b.Flushes data) (hsome : (b.nextWrite stream).1 ≠ 0) :
    0 < (b.flush stream).2.2.copyLength data := by
  have hle := (passed_nextWrite (b := b) stream).le
  have hsize : (b.flush stream).2.2.storage.size = b.storage.size - (b.nextWrite stream).1 := by
    rw [← length_contents, ← length_contents]
    exact (congrArg _ (contents_consume hle)).trans List.length_drop
  have hcapacity : (b.flush stream).2.2.storage.capacity = b.storage.capacity :=
    capacity_consume (passed_nextWrite stream).le
  have hdata := h.1
  have hfull := h.2
  simp only [copyLength, hsize, hcapacity]
  split <;> omega

theorem refuses_of_accepts_none (h : b.FlushFails stream data)
    (hnone : (b.nextWrite stream).1 = 0) :
    b.Refuses stream data (b.writeSome stream data) := by
  have hwrite : b.writeSome stream data = _ := writeSome_of_flushes h.1
  rw [if_pos hnone] at hwrite
  rw [hwrite]
  refine ⟨rfl, rfl, contents_consume (passed_nextWrite stream).le, ?_⟩
  rw [takes_writeSome.total, flush, total_consume]

/-- Exactly when the next layer has accepted nothing, an error is reported as it should be. -/
theorem refuses_iff (stream : BufferWriteStream ρ α) (b : BufferedWriteStream ρ α) (data : List α) :
    (b.FlushFails stream data → b.Refuses stream data (b.writeSome stream data)) ↔
      (b.FlushFails stream data → (b.nextWrite stream).1 = 0) := by
  constructor
  · intro h hfails
    by_contra hsome
    have hcount := (h hfails).count
    rw [writeSome_of_flushes hfails.1, if_neg hsome] at hcount
    exact absurd hcount (copyLength_pos hfails.1 hsome).ne'
  · intro h hfails
    exact refuses_of_accepts_none hfails (h hfails)

/-- The asynchronous form refuses always. -/
theorem refuses_writeSomeHandler (h : b.FlushFails stream data) :
    b.Refuses stream data ((b.flush stream).2.2.writeSomeHandler data (b.flush stream).2.1) := by
  have hec : (b.flush stream).2.1 = (b.nextWrite stream).2.1 := rfl
  obtain ⟨e, he⟩ := Option.ne_none_iff_exists'.mp h.2
  rw [hec, he, writeSomeHandler]
  refine ⟨rfl, he.symm, contents_consume (passed_nextWrite stream).le, ?_⟩
  rw [takes_writeSome.total, flush, total_consume]

/-- Two bytes in a storage of two, over a stream that accepts one byte and then fails. -/
def fullStorage : BufferedWriteStream Nat Nat :=
  ((construct ⟨0, []⟩ 2).writeSome flakyStream [7, 8]).2.2

/-- The byte that is reported together with the error is sent twice by a caller who writes again. -/
theorem not_refuses_fullStorage :
    (fullStorage.writeSome flakyStream [9]).1 = 1 ∧
      (fullStorage.writeSome flakyStream [9]).2.1 = some .operationAborted ∧
      ((fullStorage.writeSome flakyStream [9]).2.2.writeSome flakyStream [9]).2.2.total =
        [7, 8, 9, 9] ∧
      ¬(fullStorage.FlushFails flakyStream [9] →
        fullStorage.Refuses flakyStream [9] (fullStorage.writeSome flakyStream [9])) := by
  have hcount : (fullStorage.writeSome flakyStream [9]).1 = 1 := by
    decide +kernel
  have hfails : fullStorage.FlushFails flakyStream [9] := by
    decide +kernel
  refine ⟨hcount, by decide +kernel, by decide +kernel, fun h => ?_⟩
  have hzero := (h hfails).count
  rw [hcount] at hzero
  cases hzero

end Asio.BufferedWriteStream
