import Mathlib.Data.Finset.Insert
import Asio.Detail.HashMapRuns
import Asio.Lib.WriteBack

/-! The changes that a reactor has yet to write to `/dev/poll`, and the index that tells where in
the list the one of a descriptor is. -/

namespace Asio.Detail

open Lib WriteBack

inductive Poll
  | pollin | pollpri | pollout | pollerr | pollhup | pollremove
  deriving DecidableEq

structure PollFd where
  fd : Int
  events : Finset Poll
  deriving DecidableEq

/-- The kernel replaces the entry of the descriptor, and `POLLREMOVE` deletes it. -/
instance : Change PollFd Int (Finset Poll) where
  key := PollFd.fd
  entry e := if .pollremove ∈ e.events then none else some e.events

instance : Assignable Nat := ⟨0, id, fun _ v => v⟩

instance : HashMap.Pod Nat := ⟨fun _ => rfl, fun _ _ => rfl⟩

/-- The index leads to where the descriptors are, and nowhere else. -/
structure Positions (index : HashMap Int Nat) (fds : List Int) : Prop where
  wellFormed : index.WellFormed
  nodup : fds.Nodup
  position : ∀ d, (index.find d).map index.value = fds.idxOf? d

structure PendingEventChanges where
  changes : List PollFd
  index : HashMap Int Nat
  positions : Positions index (changes.map PollFd.fd)

/-! ### The index -/

namespace Positions

variable {index : HashMap Int Nat} {fds : List Int} {d : Int}

theorem map_value_find (index : HashMap Int Nat) (d : Int) :
    (index.find d).map index.value = (index.entry d).map Prod.snd := by
  rw [HashMap.entry, Option.map_map]
  rfl

theorem construct : Positions .construct [] where
  wellFormed := HashMap.construct_wellFormed
  nodup := List.nodup_nil
  position d := by
    rw [map_value_find, HashMap.construct_represents.entry]
    rfl

theorem clear (h : Positions index fds) : Positions index.clear [] where
  wellFormed := HashMap.clear_wellFormed h.wellFormed
  nodup := List.nodup_nil
  position d := by
    rw [map_value_find, HashMap.entry_of_values_nil (HashMap.clear_wellFormed h.wellFormed) rfl]
    rfl

theorem notMem (h : Positions index fds) (hd : index.find d = none) : d ∉ fds := by
  have hposition := h.position d
  rw [hd, Option.map_none] at hposition
  exact List.idxOf?_eq_none_iff.mp hposition.symm

/-- A new descriptor gets the next position. -/
theorem insert (h : Positions index fds) (hd : index.find d = none) :
    Positions (index.insert (d, fds.length)).1 (fds ++ [d]) := by
  obtain ⟨r, n, isNew, heq, hcase⟩ := HashMap.insert_spec h.wellFormed (d, fds.length)
  have hout := h.notMem hd
  rw [heq]
  rcases hcase with ⟨-, -, -, hn, hk⟩ | ⟨-, -, hins⟩
  · refine absurd ?_ ((HashMap.find_eq_none_iff h.wellFormed).mp hd)
    exact List.mem_map.mpr ⟨n, hn, hk⟩
  · refine ⟨hins.wellFormed, List.nodup_append_comm.mp (h.nodup.cons hout), fun d' => ?_⟩
    rw [map_value_find, hins.entry h.wellFormed, List.idxOf?, List.findIdx?_append, ← List.idxOf?]
    by_cases hdd : d' = d
    · subst hdd
      rw [Function.update_self, List.idxOf?_eq_none_iff.mpr hout]
      simp
    · rw [Function.update_of_ne hdd, ← map_value_find, h.position]
      simp [Ne.symm hdd]

end Positions

/-! ### The list -/

namespace PendingEventChanges

def construct : PendingEventChanges := ⟨[], .construct, .construct⟩

def clear (p : PendingEventChanges) : PendingEventChanges :=
  ⟨[], p.index.clear, p.positions.clear⟩

/-- The list with an entry for the descriptor, and where that is. -/
def addPendingEventChange (p : PendingEventChanges) (descriptor : Int) :
    PendingEventChanges × Nat :=
  match h : p.index.find descriptor with
  | none =>
    ({  changes := p.changes ++ [⟨descriptor, ∅⟩]
        index := (p.index.insert (descriptor, p.changes.length)).1
        positions := by simpa using p.positions.insert h },
      p.changes.length)
  | some n => (p, p.index.value n)

/-- The caller sets the events of the entry that it has been given. -/
def setEvents (p : PendingEventChanges) (i : Nat) (f : Finset Poll → Finset Poll) :
    PendingEventChanges where
  changes := p.changes.modify i fun ev => { ev with events := f ev.events }
  index := p.index
  positions := by
    have hfds : (p.changes.modify i fun ev => { ev with events := f ev.events }).map PollFd.fd =
        p.changes.map PollFd.fd := by
      apply List.ext_getElem?
      intro j
      rw [List.getElem?_map, List.getElem?_map, List.getElem?_modify]
      cases p.changes[j]? with
      | none => rfl
      | some ev => by_cases hij : i = j <;> simp [hij]
    rw [hfds]
    exact p.positions

/-- `add_pending_event_change`, and what becomes of the events. -/
def change (p : PendingEventChanges) (descriptor : Int) (f : Finset Poll → Finset Poll) :
    PendingEventChanges :=
  let (p, i) := p.addPendingEventChange descriptor
  p.setEvents i f

def events (p : PendingEventChanges) (descriptor : Int) : Option (Finset Poll) :=
  (WriteBack.change p.changes descriptor).map PollFd.events

variable {p : PendingEventChanges} {d : Int}

/-- The entry that is handed out is the one of the descriptor. -/
theorem addPendingEventChange_spec (p : PendingEventChanges) (d : Int) :
    (p.addPendingEventChange d).1.changes[(p.addPendingEventChange d).2]? =
        some ⟨d, (p.events d).getD ∅⟩ ∧
      WriteBack.change (p.addPendingEventChange d).1.changes =
        Function.update (WriteBack.change p.changes) d (some ⟨d, (p.events d).getD ∅⟩) := by
  rw [addPendingEventChange]
  split
  · rename_i h
    have hout := p.positions.notMem h
    have hnone : WriteBack.change p.changes d = none := change_eq_none_iff.mpr hout
    rw [events, hnone]
    exact ⟨by simp, change_concat (e := (⟨d, ∅⟩ : PollFd)) hout⟩
  · rename_i n h
    have hposition := p.positions.position d
    rw [h] at hposition
    obtain ⟨hlt, hd, -⟩ := List.idxOf?_eq_some_iff.mp hposition.symm
    have hfd : (p.changes.map PollFd.fd)[p.index.value n]? = some d := by
      rw [List.getElem?_eq_getElem hlt, hd]
    rw [List.getElem?_map] at hfd
    obtain ⟨ev, hev, rfl⟩ := Option.map_eq_some_iff.mp hfd
    have hchange : WriteBack.change p.changes ev.fd = some ev :=
      change_of_mem p.positions.nodup (List.mem_of_getElem? hev)
    rw [events, hchange]
    refine ⟨hev, ?_⟩
    rw [Option.map_some, Option.getD_some, ← hchange, Function.update_eq_self]

/-- The events of one descriptor become something else, and there is a change for it. -/
theorem change_change (p : PendingEventChanges) (d : Int) (f : Finset Poll → Finset Poll) :
    WriteBack.change (p.change d f).changes =
      Function.update (WriteBack.change p.changes) d (some ⟨d, f ((p.events d).getD ∅)⟩) := by
  obtain ⟨hat, hchange⟩ := p.addPendingEventChange_spec d
  have hset := change_modify (p.addPendingEventChange d).1.positions.nodup hat
    (fun ev => { ev with events := f ev.events }) rfl
  rw [hchange] at hset
  exact hset.trans (Function.update_idem ..)

theorem events_change (p : PendingEventChanges) (d : Int) (f : Finset Poll → Finset Poll) :
    (p.change d f).events = Function.update p.events d (some (f ((p.events d).getD ∅))) := by
  funext d'
  rw [events, change_change]
  by_cases hd : d' = d
  · rw [hd, Function.update_self, Function.update_self, Option.map_some]
  · rw [Function.update_of_ne hd, Function.update_of_ne hd]
    rfl

end PendingEventChanges

end Asio.Detail
