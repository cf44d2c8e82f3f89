import Mathlib.Data.List.Nodup
import Mathlib.Logic.Function.Basic

/-! A store, changes that have yet to be written to it, and what its users may rely on meanwhile. -/

universe u v w x

namespace Asio.Lib.WriteBack

set_option linter.unusedSectionVars false

/-- A change is made to the entry of one key, which it replaces or removes. -/
class Change (E : Type w) (K : outParam (Type u)) (V : outParam (Type v)) where
  key : E → K
  entry : E → Option V

open Change

variable {K : Type u} {V : Type v} {E : Type w} [Change E K V] [DecidableEq K]

def write (store : K → Option V) (e : E) : K → Option V :=
  Function.update store (key e) (entry e)

def writeAll (store : K → Option V) (es : List E) : K → Option V := es.foldl write store

def change (es : List E) (k : K) : Option E := es.find? (key · = k)

/-- What the store comes to have under a key, unless the key is changed again. -/
def shown (es : List E) (store : K → Option V) (k : K) : Option V :=
  (change es k).elim (store k) entry

section Changes

variable {es : List E} {e : E} {k : K} {i : Nat}

theorem key_of_change (h : change es k = some e) : key e = k := by
  have hkey := List.find?_some h
  exact of_decide_eq_true hkey

theorem mem_of_change (h : change es k = some e) : e ∈ es := List.mem_of_find?_eq_some h

theorem change_eq_none_iff : change es k = none ↔ k ∉ es.map key := by
  rw [change, List.find?_eq_none]
  simp only [decide_eq_true_eq, List.mem_map, not_exists, not_and]

theorem change_of_mem (h : (es.map key).Nodup) (he : e ∈ es) : change es (key e) = some e := by
  cases hchange : change es (key e) with
  | none => exact absurd (List.mem_map_of_mem he) (change_eq_none_iff.mp hchange)
  | some e' =>
    rw [List.inj_on_of_nodup_map h (mem_of_change hchange) he (key_of_change hchange)]

theorem change_cons (e : E) (es : List E) (k : K) :
    change (e :: es) k = if key e = k then some e else change es k := by
  rw [change, change, List.find?_cons]
  by_cases hk : key e = k
  · simp only [hk, decide_true, if_true]
  · simp only [hk, decide_false, if_false]

theorem change_append (es es' : List E) (k : K) :
    change (es ++ es') k = (change es k).or (change es' k) := List.find?_append

theorem change_concat (h : key e ∉ es.map key) :
    change (es ++ [e]) = Function.update (change es) (key e) (some e) := by
  funext k
  rw [change_append, change_cons]
  by_cases hk : key e = k
  · subst hk
    rw [change_eq_none_iff.mpr h, if_pos rfl, Function.update_self]
    rfl
  · rw [if_neg hk, Function.update_of_ne (Ne.symm hk)]
    exact Option.or_none

/-- A change is replaced by another one of its key. -/
theorem change_modify (h : (es.map key).Nodup) (hi : es[i]? = some e) (g : E → E)
    (hg : key (g e) = key e) :
    change (es.modify i g) = Function.update (change es) (key e) (some (g e)) := by
  obtain ⟨hlt, rfl⟩ := List.getElem?_eq_some_iff.mp hi
  have hes : es = es.take i ++ es[i] :: es.drop (i + 1) := by
    rw [← List.drop_eq_getElem_cons hlt, List.take_append_drop]
  have hfront : change (es.take i) (key es[i]) = none := by
    rw [hes, List.map_append, List.map_cons] at h
    exact change_eq_none_iff.mpr fun hmem =>
      (List.nodup_append'.mp h).2.2 hmem (List.mem_cons_self ..)
  have hold (k : K) : change es k = (change (es.take i) k).or
      (if key es[i] = k then some es[i] else change (es.drop (i + 1)) k) := by
    rw [← change_cons, ← change_append, ← hes]
  funext k
  rw [List.modify_eq_take_cons_drop hlt, change_append, change_cons, hg]
  by_cases hk : key es[i] = k
  · subst hk
    rw [hfront, if_pos rfl, Function.update_self]
    rfl
  · rw [Function.update_of_ne (Ne.symm hk), hold, if_neg hk, if_neg hk]

end Changes

section Writes

variable {es es' : List E} {e : E} {k : K} {store : K → Option V}

theorem writeAll_of_notMem (store : K → Option V) (h : k ∉ es.map key) :
    writeAll store es k = store k := by
  induction es generalizing store with
  | nil => rfl
  | cons e es ih =>
    rw [List.map_cons, List.mem_cons, not_or] at h
    rw [writeAll, List.foldl_cons]
    exact (ih _ h.2).trans (Function.update_of_ne h.1 ..)

/-- When no key is changed twice, the order of the changes does not matter. -/
theorem writeAll_eq_shown (h : (es.map key).Nodup) : writeAll store es = shown es store := by
  induction es generalizing store with
  | nil => rfl
  | cons e es ih =>
    obtain ⟨hhead, hrest⟩ := List.nodup_cons.mp h
    funext k
    rw [writeAll, List.foldl_cons]
    by_cases hk : key e = k
    · subst hk
      have hwritten := writeAll_of_notMem (write store e) hhead
      rw [writeAll] at hwritten
      rw [hwritten, write, Function.update_self, shown, change_cons, if_pos rfl]
      rfl
    · rw [← writeAll, ih hrest, shown, shown, change_cons, if_neg hk, write,
        Function.update_of_ne (Ne.symm hk)]

theorem shown_of_none (h : change es k = none) : shown es store k = store k := by
  rw [shown, h]
  rfl

theorem shown_of_update (h : change es' = Function.update (change es) k (some e)) :
    shown es' store = Function.update (shown es store) k (entry e) := by
  funext k'
  rw [shown, h]
  by_cases hk : k' = k
  · rw [hk, Function.update_self, Function.update_self]
    rfl
  · rw [Function.update_of_ne hk, Function.update_of_ne hk]
    rfl

/-- A write behind the back of a change is not seen. -/
theorem shown_write : shown es (write store e) =
    if change es (key e) = none then Function.update (shown es store) (key e) (entry e)
    else shown es store := by
  funext k
  split
  · rename_i hnone
    by_cases hk : k = key e
    · rw [hk, Function.update_self, shown_of_none hnone, write, Function.update_self]
    · rw [Function.update_of_ne hk, shown, shown, write, Function.update_of_ne hk]
  · rename_i hsome
    obtain ⟨e', he'⟩ := Option.ne_none_iff_exists'.mp hsome
    by_cases hk : k = key e
    · rw [hk, shown, shown, he']
      rfl
    · rw [shown, shown, write, Function.update_of_ne hk]

end Writes

/-! ### Demands on the entries -/

variable {T : Type x}

/-- Every demand on a key is met by the entry that is shown for it. -/
def Meets (has : V → T → Prop) (demand : K → T → Prop) (entries : K → Option V) : Prop :=
  ∀ k t, demand k t → ∃ v ∈ entries k, has v t

section Demands

variable {has : V → T → Prop} {demand demand' : K → T → Prop} {entries : K → Option V}
variable {es es' : List E} {e : E} {k : K} {store : K → Option V} {v? : Option V}

theorem Meets.mono (h : Meets has demand entries) (hsub : ∀ k t, demand' k t → demand k t) :
    Meets has demand' entries := fun k t hk => h k t (hsub k t hk)

/-- One entry is replaced by what meets the demands on it, which may be new. -/
theorem Meets.update (h : Meets has demand entries)
    (hk : ∀ t, demand' k t → ∃ v ∈ v?, has v t)
    (hother : ∀ k', k' ≠ k → ∀ t, demand' k' t → demand k' t) :
    Meets has demand' (Function.update entries k v?) := by
  intro k' t ht
  by_cases hkk : k' = k
  · subst hkk
    rw [Function.update_self]
    exact hk t ht
  · rw [Function.update_of_ne hkk]
    exact h k' t (hother k' hkk t ht)

theorem Meets.recorded (h : Meets has demand (shown es store))
    (hes : change es' = Function.update (change es) k (some e))
    (hk : ∀ t, demand' k t → ∃ v ∈ entry e, has v t)
    (hother : ∀ k', k' ≠ k → ∀ t, demand' k' t → demand k' t) :
    Meets has demand' (shown es' store) := by
  rw [shown_of_update hes]
  exact h.update hk hother

/-- A direct write that meets the demands does no harm, also where a change is yet to come. -/
theorem Meets.written (h : Meets has demand (shown es store))
    (hk : ∀ t, demand (key e) t → ∃ v ∈ entry e, has v t) :
    Meets has demand (shown es (write store e)) := by
  rw [shown_write]
  split
  · exact h.update hk fun _ _ _ => id
  · exact h

theorem Meets.writtenAll (h : Meets has demand (shown es store)) (hnodup : (es.map key).Nodup) :
    Meets has demand (writeAll store es) := by
  rwa [writeAll_eq_shown hnodup]

/-- Whatever part of the changes has been written, the keys that they are for must do without. -/
theorem Meets.abandoned (h : Meets has demand (shown es store))
    (hpart : ∀ k, k ∉ es.map key → k ∉ es'.map key)
    (hnone : ∀ k ∈ es.map key, ∀ t, ¬demand k t) : Meets has demand (writeAll store es') := by
  intro k t hk
  have hout : k ∉ es.map key := fun hmem => hnone k hmem t hk
  have hstore : writeAll store es' k = shown es store k := by
    rw [writeAll_of_notMem store (hpart k hout), shown_of_none (change_eq_none_iff.mpr hout)]
  rw [hstore]
  exact h k t hk

end Demands

end Asio.Lib.WriteBack
