import Asio.Lib.Interleaving

/-! The registry of the services of an execution context.  Its mutex is free while a service is
constructed, so that other threads, and the constructor itself, may call the registry meanwhile. -/

universe u

namespace Asio.Detail.ServiceRegistry

open Asio.Lib Transition

set_option linter.unusedSectionVars false

/-- The key of a service is the type of its class or the address of its `id`. -/
structure Key (κ : Type u) where
  typeInfo : Option κ
  id : Option κ
  one : typeInfo.isSome ≠ id.isSome
  deriving DecidableEq

structure Service (α κ : Type u) where
  ptr : α
  key : Key κ
  deriving DecidableEq

inductive AddError
  | invalidServiceOwner | serviceAlreadyExists
  deriving DecidableEq

variable {α κ τ : Type u} [DecidableEq α] [DecidableEq κ] [DecidableEq τ]

/-! ### The sections under the mutex -/

section Sections

def keysMatch (key1 key2 : Key κ) : Bool :=
  (key1.id.isSome && key2.id.isSome && key1.id = key2.id) ||
    (key1.typeInfo.isSome && key2.typeInfo.isSome && key1.typeInfo = key2.typeInfo)

/-- The loop that each section begins with. -/
def find (key : Key κ) : List (Service α κ) → Option α
  | [] => none
  | service :: rest => if keysMatch service.key key then some service.ptr else find key rest

/-- The end of `do_use_service`, after the factory has returned: the service of the caller and the
list. -/
def linkService (services : List (Service α κ)) (key : Key κ) (newService : α) :
    α × List (Service α κ) :=
  match find key services with
  | some service => (service, services)
  | none => (newService, ⟨newService, key⟩ :: services)

def doAddService (owned : Bool) (services : List (Service α κ)) (key : Key κ) (newService : α) :
    Except AddError (List (Service α κ)) :=
  if !owned then .error .invalidServiceOwner
  else if (find key services).isSome then .error .serviceAlreadyExists
  else .ok (⟨newService, key⟩ :: services)

def doHasService (services : List (Service α κ)) (key : Key κ) : Bool := (find key services).isSome

/-- The services in the order in which `shutdown` is called. -/
def shutdownServices : List (Service α κ) → List α
  | [] => []
  | service :: rest => service.ptr :: shutdownServices rest

/-- The services in the order in which they are destroyed, and the list that is left. -/
def destroyServices : List (Service α κ) → List α × List (Service α κ)
  | [] => ([], [])
  | first :: next => (first.ptr :: (destroyServices next).1, (destroyServices next).2)

end Sections

/-! ### Threads -/

/-- What a service that is being constructed is for: `use_service` has called its factory, or a
user wants to add it. -/
inductive Purpose (κ : Type u)
  | use (key : Key κ)
  | add
  deriving DecidableEq

/-- A constructor that runs, with the services that it has obtained. -/
structure Construction (α κ : Type u) where
  purpose : Purpose κ
  obtained : List α
  deriving DecidableEq

/-- The list and the history of its use: what calls of `use_service` have returned, which services
a linked service had obtained in its constructor, and the errors of `add_service`. -/
structure World (α κ : Type u) where
  services : List (Service α κ)
  used : List (Key κ × α)
  dependencies : List (α × α)
  errors : List AddError
  deriving DecidableEq

inductive Action (α κ : Type u)
  | useService (key : Key κ)
  | created (newService : α)
  | construct
  | addService (owned : Bool) (key : Key κ) (newService : α)
  | hasService (key : Key κ)
  | fail
  deriving DecidableEq

/-- `use_service` returns to its caller, which may be a constructor. -/
def finishUse (w : World α κ) (calls : List (Construction α κ)) (key : Key κ) (service : α) :
    World α κ × List (Construction α κ) :=
  ({ w with used := w.used ++ [(key, service)] },
    match calls with
    | [] => []
    | c :: rest => { c with obtained := c.obtained ++ [service] } :: rest)

def perform (w : World α κ) (calls : List (Construction α κ)) :
    Action α κ → Option (World α κ × List (Construction α κ))
  | .useService key =>
    match find key w.services with
    | some service => some (finishUse w calls key service)
    | none => some (w, ⟨.use key, []⟩ :: calls)
  | .created newService =>
    match calls with
    | ⟨.use key, obtained⟩ :: rest =>
      let r := linkService w.services key newService
      let new := if (find key w.services).isSome then [] else obtained.map fun x => (newService, x)
      some (finishUse { w with
        services := r.2
        dependencies := w.dependencies ++ new } rest key r.1)
    | _ => none
  | .construct => some (w, ⟨.add, []⟩ :: calls)
  | .addService owned key newService =>
    match calls with
    | ⟨.add, obtained⟩ :: rest =>
      match doAddService owned w.services key newService with
      | .ok services => some ({ w with
          services := services
          dependencies := w.dependencies ++ obtained.map fun x => (newService, x) }, rest)
      | .error e => some ({ w with errors := w.errors ++ [e] }, rest)
    | _ => none
  | .hasService _ => some (w, calls)
  | .fail =>
    match calls with
    | _ :: rest => some (w, rest)
    | [] => none

abbrev State (τ α κ : Type u) := Interleaving.State τ (World α κ) (List (Construction α κ))

def initial : State τ α κ where
  shared := ⟨[], [], [], []⟩
  part _ := []

def step : State τ α κ → τ × Action α κ → Option (State τ α κ) :=
  Interleaving.step fun _ => perform

/-- A service that has just been created is none of those in the list. -/
def Legal (s : State τ α κ) (a : τ × Action α κ) : Prop :=
  match a.2 with
  | .created newService | .addService _ _ newService => newService ∉ s.shared.services.map (·.ptr)
  | _ => True

instance (s : State τ α κ) (a : τ × Action α κ) : Decidable (Legal s a) := by
  obtain ⟨t, act⟩ := a
  induction act using Action.casesOn <;> dsimp only [Legal] <;> infer_instance

/-! ### Keys -/

section Keys

variable {key key' : Key κ} {services : List (Service α κ)} {x : α}

theorem keysMatch_iff : keysMatch key key' = true ↔ key = key' := by
  obtain ⟨t, i, h⟩ := key
  obtain ⟨t', i', h'⟩ := key'
  cases t <;> cases i <;> first
    | exact absurd rfl h
    | cases t' <;> cases i' <;> first
      | exact absurd rfl h'
      | simp [keysMatch]

theorem find_eq_some (h : find key services = some x) : ⟨x, key⟩ ∈ services := by
  induction services with
  | nil => cases h
  | cons service rest ih =>
    rw [find] at h
    split at h
    · rename_i hmatch
      rw [← keysMatch_iff.1 hmatch, ← Option.some.inj h]
      exact List.mem_cons_self
    · exact List.mem_cons_of_mem _ (ih h)

theorem find_eq_none (h : find key services = none) : key ∉ services.map (·.key) := by
  induction services with
  | nil => simp
  | cons service rest ih =>
    rw [find] at h
    split at h
    · cases h
    · rename_i hmatch
      rw [List.map_cons, List.mem_cons, not_or]
      refine ⟨fun heq => hmatch ?_, ih h⟩
      exact keysMatch_iff.2 heq.symm

theorem find_isSome_iff : (find key services).isSome = true ↔ key ∈ services.map (·.key) := by
  constructor
  · intro h
    obtain ⟨x, hx⟩ := Option.isSome_iff_exists.1 h
    exact List.mem_map_of_mem (find_eq_some hx)
  · intro hmem
    by_contra hnone
    rw [Bool.not_eq_true, Option.isSome_eq_false_iff, Option.isNone_iff_eq_none] at hnone
    exact find_eq_none hnone hmem

theorem shutdownServices_eq (services : List (Service α κ)) :
    shutdownServices services = services.map (·.ptr) := by
  induction services with
  | nil => rfl
  | cons service rest ih => rw [shutdownServices, ih, List.map_cons]

theorem destroyServices_eq (services : List (Service α κ)) :
    destroyServices services = (services.map (·.ptr), []) := by
  induction services with
  | nil => rfl
  | cons service rest ih => rw [destroyServices, ih, List.map_cons]

end Keys

/-! ### Runs -/

section Runs

variable {s s' : State τ α κ} {a : τ × Action α κ} {l : List α} {x y : α}

/-- `x` comes before `y`. -/
def Precedes (x y : α) (l : List α) : Prop := ∃ l₁ l₂, l = l₁ ++ l₂ ∧ x ∈ l₁ ∧ y ∈ l₂

theorem Precedes.cons (h : Precedes x y l) (z : α) : Precedes x y (z :: l) := by
  obtain ⟨l₁, l₂, rfl, hx, hy⟩ := h
  exact ⟨z :: l₁, l₂, rfl, List.mem_cons_of_mem z hx, hy⟩

theorem precedes_head (h : y ∈ l) : Precedes x y (x :: l) := ⟨[x], l, rfl, List.mem_cons_self, h⟩

structure Ordered (s : State τ α κ) : Prop where
  keys : (s.shared.services.map (·.key)).Nodup
  ptrs : (s.shared.services.map (·.ptr)).Nodup
  used : ∀ r ∈ s.shared.used, ⟨r.2, r.1⟩ ∈ s.shared.services
  obtained : ∀ t, ∀ c ∈ s.part t, ∀ y ∈ c.obtained, y ∈ s.shared.services.map (·.ptr)
  dependencies : ∀ d ∈ s.shared.dependencies,
    Precedes d.1 d.2 (s.shared.services.map (·.ptr))

/-- What a step leaves of the list and adds to it. -/
structure Extends (w w' : World α κ) (calls calls' : List (Construction α κ)) : Prop where
  keys : (w.services.map (·.key)).Nodup → (w'.services.map (·.key)).Nodup
  ptrs : (w.services.map (·.ptr)).Nodup → (w'.services.map (·.ptr)).Nodup
  services : w.services ⊆ w'.services
  used : ∀ r ∈ w'.used, r ∈ w.used ∨ ⟨r.2, r.1⟩ ∈ w'.services
  obtained : ∀ c ∈ calls', ∀ y ∈ c.obtained,
    (∃ c' ∈ calls, y ∈ c'.obtained) ∨ y ∈ w'.services.map (·.ptr)
  dependencies : (∀ c ∈ calls, ∀ y ∈ c.obtained, y ∈ w.services.map (·.ptr)) →
    (∀ d ∈ w.dependencies, Precedes d.1 d.2 (w.services.map (·.ptr))) →
      ∀ d ∈ w'.dependencies, Precedes d.1 d.2 (w'.services.map (·.ptr))

theorem mem_obtained {w : World α κ} {calls : List (Construction α κ)} {key : Key κ} {z : α}
    {c : Construction α κ} (hc : c ∈ (finishUse w calls key z).2) (hy : y ∈ c.obtained) :
    (∃ c' ∈ calls, y ∈ c'.obtained) ∨ y = z := by
  cases calls with
  | nil => cases hc
  | cons d rest =>
    cases hc with
    | head =>
      rw [List.mem_append, List.mem_singleton] at hy
      exact hy.imp_left fun hmem => ⟨d, List.mem_cons_self, hmem⟩
    | tail _ hmem => exact .inl ⟨c, List.mem_cons_of_mem _ hmem, hy⟩

/-- `use_service` finds the service or has just linked it. -/
theorem finishUse_extends {w w' : World α κ} {calls rest : List (Construction α κ)} {key : Key κ}
    (h : Extends w w' calls rest) (hused : w'.used = w.used) (hz : ⟨x, key⟩ ∈ w'.services) :
    Extends w (finishUse w' rest key x).1 calls (finishUse w' rest key x).2 where
  keys := h.keys
  ptrs := h.ptrs
  services := h.services
  used r hr := by
    simp only [finishUse, List.mem_append, List.mem_singleton] at hr
    rcases hr with hr | rfl
    · exact .inl (hused ▸ hr)
    · exact .inr hz
  obtained c hc y hy := by
    rcases mem_obtained hc hy with ⟨c', hc', hy'⟩ | rfl
    · exact h.obtained c' hc' y hy'
    · exact .inr (List.mem_map_of_mem hz)
  dependencies := h.dependencies

/-- Calls end, and the list stays as it is. -/
theorem extends_pop {w : World α κ} {calls rest : List (Construction α κ)} {errors : List AddError}
    (hsub : rest ⊆ calls) : Extends w { w with errors := errors } calls rest :=
  ⟨id, id, List.Subset.refl _, fun _ => .inl, fun c hc _ hy => .inl ⟨c, hsub hc, hy⟩, fun _ h => h⟩

/-- A new service comes first, before all that its constructor has obtained. -/
theorem extends_link {w : World α κ} {key : Key κ} {p : Purpose κ} {obtained : List α}
    {rest : List (Construction α κ)} (hkey : key ∉ w.services.map (·.key))
    (hptr : x ∉ w.services.map (·.ptr)) :
    Extends w { w with
        services := ⟨x, key⟩ :: w.services
        dependencies := w.dependencies ++ obtained.map fun y => (x, y) }
      (⟨p, obtained⟩ :: rest) rest where
  keys h := List.nodup_cons.2 ⟨hkey, h⟩
  ptrs h := List.nodup_cons.2 ⟨hptr, h⟩
  services := List.subset_cons_self ..
  used _ := .inl
  obtained c hc y hy := .inl ⟨c, List.mem_cons_of_mem _ hc, hy⟩
  dependencies hobtained h d hd := by
    rw [List.mem_append, List.mem_map] at hd
    rcases hd with hd | ⟨y, hy, rfl⟩
    · exact (h d hd).cons x
    · exact precedes_head (hobtained _ List.mem_cons_self y hy)

theorem doAddService_ok {owned : Bool} {services l : List (Service α κ)} {key : Key κ}
    (h : doAddService owned services key x = .ok l) :
    key ∉ services.map (·.key) ∧ l = ⟨x, key⟩ :: services := by
  simp only [doAddService] at h
  split at h
  · cases h
  · split at h
    · cases h
    · rename_i hnone
      exact ⟨fun hmem => hnone (find_isSome_iff.2 hmem), (Except.ok.inj h).symm⟩

theorem perform_extends {w w' : World α κ} {calls calls' : List (Construction α κ)}
    {act : Action α κ} (hb : perform w calls act = some (w', calls'))
    (fresh : ∀ x, act = .created x ∨ (∃ owned key, act = .addService owned key x) →
      x ∉ w.services.map (·.ptr)) : Extends w w' calls calls' := by
  cases act with
  | useService key =>
    simp only [perform] at hb
    split at hb
    · rename_i service hfind
      cases Option.some.inj hb
      exact finishUse_extends (extends_pop (List.Subset.refl _)) rfl (find_eq_some hfind)
    · cases Option.some.inj hb
      refine ⟨id, id, List.Subset.refl _, fun _ => .inl, fun c hc y hy => ?_, fun _ h => h⟩
      cases hc with
      | head => cases hy
      | tail _ hmem => exact .inl ⟨c, hmem, hy⟩
  | created x =>
    simp only [perform] at hb
    split at hb
    · rename_i key obtained rest
      cases Option.some.inj hb
      simp only [linkService]
      split
      · rename_i service hfind
        simp only [hfind, Option.isSome_some, if_true, List.append_nil]
        exact finishUse_extends (extends_pop (List.subset_cons_self ..)) rfl (find_eq_some hfind)
      · rename_i hfind
        simp only [hfind, Option.isSome_none, Bool.false_eq_true, if_false]
        exact finishUse_extends (extends_link (find_eq_none hfind) (fresh x (.inl rfl))) rfl
          List.mem_cons_self
    · simp at hb
  | construct =>
    cases Option.some.inj hb
    refine ⟨id, id, List.Subset.refl _, fun _ => .inl, fun c hc y hy => ?_, fun _ h => h⟩
    cases hc with
    | head => cases hy
    | tail _ hmem => exact .inl ⟨c, hmem, hy⟩
  | addService owned key x =>
    simp only [perform] at hb
    split at hb
    · rename_i obtained rest
      split at hb
      · rename_i services hok
        cases Option.some.inj hb
        obtain ⟨hkey, rfl⟩ := doAddService_ok hok
        exact extends_link hkey (fresh x (.inr ⟨owned, key, rfl⟩))
      · cases Option.some.inj hb
        exact extends_pop (List.subset_cons_self ..)
    · simp at hb
  | hasService key =>
    cases Option.some.inj hb
    exact extends_pop (List.Subset.refl _)
  | fail =>
    simp only [perform] at hb
    split at hb
    · cases Option.some.inj hb
      exact extends_pop (List.subset_cons_self ..)
    · simp at hb

theorem initial_ordered : Ordered (initial : State τ α κ) :=
  ⟨List.nodup_nil, List.nodup_nil, by simp [initial], by simp [initial], by simp [initial]⟩

theorem step_ordered (h : Ordered s) (legal : Legal s a) (hs : step s a = some s') :
    Ordered s' := by
  obtain ⟨w, calls, hb, rfl⟩ := Interleaving.step_eq_some.1 hs
  obtain ⟨t, act⟩ := a
  have fresh (x : α) (hx : act = .created x ∨ ∃ owned key, act = .addService owned key x) :
      x ∉ s.shared.services.map (·.ptr) := by
    rcases hx with rfl | ⟨owned, key, rfl⟩
    · exact legal
    · exact legal
  have ext := perform_extends hb fresh
  have ptrs : s.shared.services.map (·.ptr) ⊆ w.services.map (·.ptr) := List.map_subset _ ext.services
  refine ⟨ext.keys h.keys, ext.ptrs h.ptrs, fun r hr => ?_, fun t' => ?_,
    ext.dependencies (h.obtained t) h.dependencies⟩
  · rcases ext.used r hr with hold | hnew
    · exact ext.services (h.used r hold)
    · exact hnew
  · by_cases ht : t' = t
    · subst ht
      rw [Interleaving.part_set_self]
      intro c hc y hy
      rcases ext.obtained c hc y hy with ⟨c', hc', hy'⟩ | hy'
      · exact ptrs (h.obtained t' c' hc' y hy')
      · exact hy'
    · rw [Interleaving.part_set_of_ne ht]
      exact fun c hc y hy => ptrs (h.obtained t' c hc y hy)

/-- Each key has one service, which all calls of `use_service` for it have returned; `add_service`
refuses another; and services are shut down and destroyed before those that they depend on. -/
theorem registry_ordered (h : Reachable step Legal initial s) :
    (s.shared.services.map (·.key)).Nodup ∧
    (∀ key x y, (key, x) ∈ s.shared.used → (key, y) ∈ s.shared.used → x = y) ∧
    (∀ owned key x, key ∈ s.shared.services.map (·.key) →
      ∃ e, doAddService owned s.shared.services key x = .error e ∧
        (owned = true → e = .serviceAlreadyExists)) ∧
    (∀ t owned key x s', key ∈ s.shared.services.map (·.key) →
      step s (t, .addService owned key x) = some s' →
        s'.shared.services = s.shared.services ∧ ∃ e, s'.shared.errors = s.shared.errors ++ [e]) ∧
    (∀ key, doHasService s.shared.services key = true ↔ key ∈ s.shared.services.map (·.key)) ∧
    ∀ d ∈ s.shared.dependencies, Precedes d.1 d.2 (shutdownServices s.shared.services) ∧
      Precedes d.1 d.2 (destroyServices s.shared.services).1 := by
  have ordered : Ordered s := h.invariant initial_ordered fun ordered legal hs =>
    step_ordered ordered legal hs
  have refuses (owned : Bool) (key : Key κ) (x : α) (hkey : key ∈ s.shared.services.map (·.key)) :
      ∃ e, doAddService owned s.shared.services key x = .error e ∧
        (owned = true → e = .serviceAlreadyExists) := by
    simp only [doAddService]
    split
    · rename_i howned
      exact ⟨_, rfl, fun hyes => by simp [hyes] at howned⟩
    · rw [if_pos (find_isSome_iff.2 hkey)]
      exact ⟨_, rfl, fun _ => rfl⟩
  refine ⟨ordered.keys, fun key x y hx hy => ?_, refuses, fun t owned key x s' hkey hs => ?_,
    fun key => find_isSome_iff, fun d hd => ?_⟩
  · have same := List.inj_on_of_nodup_map ordered.keys (ordered.used _ hx) (ordered.used _ hy) rfl
    exact congrArg Service.ptr same
  · obtain ⟨w, calls, hb, rfl⟩ := Interleaving.step_eq_some.1 hs
    obtain ⟨e, herror, -⟩ := refuses owned key x hkey
    simp only [perform, herror] at hb
    split at hb
    · cases Option.some.inj hb
      exact ⟨rfl, e, rfl⟩
    · simp at hb
  · rw [shutdownServices_eq, destroyServices_eq]
    exact ⟨ordered.dependencies d hd, ordered.dependencies d hd⟩

def keyOf (n : Nat) : Key Nat := ⟨some n, none, by simp⟩

/-- Two threads race for one service, whose constructor uses another. -/
def racingRun : List (Fin 2 × Action Nat Nat) :=
  [(0, .useService (keyOf 1)), (1, .useService (keyOf 1)), (0, .useService (keyOf 2)),
    (0, .created 20), (1, .created 11), (0, .created 10)]

theorem racingRun_reaches : (exec (guarded step Legal) (initial : State (Fin 2) Nat Nat)
    racingRun).map (fun s => s.shared.used) =
      some [(keyOf 2, 20), (keyOf 1, 11), (keyOf 1, 11)] := by
  decide +kernel

theorem registry_ordered_racing : ∃ s : State (Fin 2) Nat Nat,
    s.shared.used = [(keyOf 2, 20), (keyOf 1, 11), (keyOf 1, 11)] ∧
      (s.shared.services.map (·.key)).Nodup := by
  obtain ⟨s, hs, hused⟩ := Option.map_eq_some_iff.1 racingRun_reaches
  exact ⟨s, hused, (registry_ordered (exec_guarded_reachable hs)).1⟩

end Runs

end Asio.Detail.ServiceRegistry
