import Asio.Detail.SignalSetRegistry

/-! Runs of the signal sets of any number of services. -/

universe u

namespace Asio.Detail.SignalSetService

open Asio.Lib LinkedList Transition

set_option linter.unusedSectionVars false

variable {υ ι ρ : Type u} [DecidableEq υ] [DecidableEq ι] [DecidableEq ρ]
variable {s s' : SignalState υ ι ρ} {set : ι → List ρ} {table : υ → Int → List ρ}
variable {cfg : Config υ} {a : Action υ ι ρ} {impl : ι} {n : Int} {reg : ρ}

def initial [Inhabited υ] [Inhabited ι] : SignalState υ ι ρ where
  serviceList := []
  registrationCount _ := 0
  installed _ := false
  registrations _ _ := none
  sets := []
  service _ := default
  opQueue _ := []
  signals _ := none
  signalNumber _ := 0
  queue _ := default
  undelivered _ := 0
  nextInTable _ := none
  prevInTable _ := none
  nextInSet _ := none
  allocated := []
  posted := []
  missed := 0
  immediate := 0
  dropped := 0

/-! ### Operations that leave the registrations where they are -/

section Waits

/-- The operations on the queues leave the links, the tables and the counts alone. -/
structure Waits (s s' : SignalState υ ι ρ) : Prop where
  serviceList : s'.serviceList = s.serviceList
  registrationCount : s'.registrationCount = s.registrationCount
  installed : s'.installed = s.installed
  registrations : s'.registrations = s.registrations
  sets : s'.sets = s.sets
  service : s'.service = s.service
  signals : s'.signals = s.signals
  signalNumber : s'.signalNumber = s.signalNumber
  queue : s'.queue = s.queue
  nextInTable : s'.nextInTable = s.nextInTable
  prevInTable : s'.prevInTable = s.prevInTable
  nextInSet : s'.nextInSet = s.nextInSet
  allocated : s'.allocated = s.allocated

theorem Waits.refl (s : SignalState υ ι ρ) : Waits s s :=
  ⟨rfl, rfl, rfl, rfl, rfl, rfl, rfl, rfl, rfl, rfl, rfl, rfl, rfl⟩

theorem Waits.trans {s'' : SignalState υ ι ρ} (h : Waits s s') (h' : Waits s' s'') : Waits s s'' where
  serviceList := h'.serviceList.trans h.serviceList
  registrationCount := h'.registrationCount.trans h.registrationCount
  installed := h'.installed.trans h.installed
  registrations := h'.registrations.trans h.registrations
  sets := h'.sets.trans h.sets
  service := h'.service.trans h.service
  signals := h'.signals.trans h.signals
  signalNumber := h'.signalNumber.trans h.signalNumber
  queue := h'.queue.trans h.queue
  nextInTable := h'.nextInTable.trans h.nextInTable
  prevInTable := h'.prevInTable.trans h.prevInTable
  nextInSet := h'.nextInSet.trans h.nextInSet
  allocated := h'.allocated.trans h.allocated

theorem Registered.waits (h : Registered s set table) (w : Waits s s') : Registered s' set table where
  listed := h.listed.congr w.signals (fun _ _ _ => congrFun w.nextInSet _)
    (fun _ _ _ => congrFun w.signalNumber _) fun _ _ _ => congrFun w.queue _
  tabled := by
    rw [w.allocated]
    refine h.tabled.congr w.registrations (fun _ _ => congrFun w.nextInTable _)
      (fun _ _ => congrFun w.prevInTable _) (fun p _ => ?_) fun _ _ => congrFun w.signalNumber _
    rw [w.service, w.queue]
  counted := by
    rw [w.allocated]
    exact h.counted.congr w.registrationCount w.installed fun _ _ => congrFun w.signalNumber _
  nodup := by
    rw [w.allocated]
    exact h.nodup
  allocated p := by
    rw [w.allocated, w.queue]
    exact h.allocated p

theorem cancel_waits (s : SignalState υ ι ρ) (impl : ι) : Waits s (cancel s impl) :=
  ⟨rfl, rfl, rfl, rfl, rfl, rfl, rfl, rfl, rfl, rfl, rfl, rfl, rfl⟩

theorem cancelOpsByKey_waits (s : SignalState υ ι ρ) (impl : ι) (key : Nat) :
    Waits s (cancelOpsByKey s impl key) :=
  ⟨rfl, rfl, rfl, rfl, rfl, rfl, rfl, rfl, rfl, rfl, rfl, rfl, rfl⟩

theorem undeliveredLoop_spec {fuel : Nat} {next : Option ρ} {l : List ρ}
    (h : Chain s.nextInSet next l) (hfuel : l.length < fuel) :
    undeliveredLoop s fuel next = some (l.find? (0 < s.undelivered ·)) := by
  induction l generalizing fuel next with
  | nil =>
    obtain rfl : next = none := h
    cases fuel with
    | zero => cases hfuel
    | succ fuel => rfl
  | cons p l ih =>
    obtain ⟨rfl, htail⟩ := h
    cases fuel with
    | zero => cases hfuel
    | succ fuel =>
      rw [undeliveredLoop, List.find?_cons]
      by_cases hp : 0 < s.undelivered p
      · simp [hp]
      · simp only [gt_iff_lt, hp, if_false, decide_false]
        exact ih htail (by simpa using hfuel)

/-- What `start_wait_op` does when it has found the registration. -/
def startWith (s : SignalState υ ι ρ) (impl : ι) (op : SignalOp) : Option ρ → SignalState υ ι ρ
  | some reg =>
    { postDeferredCompletions (setUndelivered s reg (s.undelivered reg - 1))
        [op.receive (s.signalNumber reg)] with immediate := s.immediate + 1 }
  | none => setQueue s impl (s.opQueue impl ++ [op])

theorem startWaitOp_spec (h : Registered s set table) (impl : ι) (op : SignalOp) :
    startWaitOp s impl op =
      some (startWith s impl op ((set impl).find? (0 < s.undelivered ·))) := by
  rw [startWaitOp, undeliveredLoop_spec (h.listed.chain impl) (Nat.lt_succ_of_le (h.length_le impl)),
    Option.map_some]
  cases (set impl).find? (0 < s.undelivered ·) <;> rfl

theorem startWith_waits (s : SignalState υ ι ρ) (impl : ι) (op : SignalOp) (reg : Option ρ) :
    Waits s (startWith s impl op reg) := by
  cases reg <;> exact ⟨rfl, rfl, rfl, rfl, rfl, rfl, rfl, rfl, rfl, rfl, rfl, rfl, rfl⟩

theorem deliverTo_waits (s : SignalState υ ι ρ) (n : Int) (reg : ρ) :
    Waits s (deliverTo s n reg) := by
  rw [deliverTo]
  split <;> exact ⟨rfl, rfl, rfl, rfl, rfl, rfl, rfl, rfl, rfl, rfl, rfl, rfl, rfl⟩

def deliverAll (s : SignalState υ ι ρ) (n : Int) (regs : List ρ) : SignalState υ ι ρ :=
  regs.foldl (fun s reg => deliverTo s n reg) s

theorem deliverAll_waits (s : SignalState υ ι ρ) (n : Int) (regs : List ρ) :
    Waits s (deliverAll s n regs) := by
  induction regs generalizing s with
  | nil => exact .refl s
  | cons reg regs ih => exact (deliverTo_waits s n reg).trans (ih _)

theorem deliverAll_append (s : SignalState υ ι ρ) (n : Int) (regs regs' : List ρ) :
    deliverAll s n (regs ++ regs') = deliverAll (deliverAll s n regs) n regs' :=
  List.foldl_append

theorem deliverLoop_spec {fuel : Nat} {next : Option ρ} {l : List ρ}
    (h : Chain s.nextInTable next l) (hfuel : l.length < fuel) :
    deliverLoop n fuel s next = some (deliverAll s n l) := by
  induction l generalizing s fuel next with
  | nil =>
    obtain rfl : next = none := h
    cases fuel with
    | zero => cases hfuel
    | succ fuel => rfl
  | cons p l ih =>
    obtain ⟨rfl, htail⟩ := h
    cases fuel with
    | zero => cases hfuel
    | succ fuel =>
      rw [deliverLoop]
      have same := (deliverTo_waits s n p).nextInTable
      refine ih ?_ (by simpa using hfuel)
      rw [same]
      exact htail

theorem Registered.table_chain (h : Registered s set table) (v : υ) (n : Int) :
    Chain s.nextInTable (s.registrations v n) (table v n) := by
  refine (h.tabled.links v n).chain.congr fun p hp => ?_
  exact (if_pos hp).symm

theorem Registered.table_length_le (h : Registered s set table) (v : υ) (n : Int) :
    (table v n).length ≤ s.allocated.length :=
  (List.subperm_of_subset (h.tabled.links v n).nodup fun p hp =>
    ((h.tabled.mem v n p).1 hp).1).length_le

/-- A signal reaches the tables of all services, one after the other. -/
theorem deliverSignal_spec (h : Registered s set table) (n : Int) :
    deliverSignal s n = some (deliverAll s n (s.serviceList.flatMap fun v => table v n)) := by
  rw [deliverSignal]
  generalize s.serviceList = services
  induction services generalizing s with
  | nil => rfl
  | cons v services ih =>
    have loop := deliverLoop_spec (n := n) (h.table_chain v n) (Nat.lt_succ_of_le (h.table_length_le v n))
    rw [List.foldlM_cons, loop, List.flatMap_cons, deliverAll_append]
    exact ih (h.waits (deliverAll_waits s n (table v n)))

end Waits

/-! ### Services and sets -/

/-- The services of sets are on the list. -/
structure Managed (s : SignalState υ ι ρ) (set : ι → List ρ) (table : υ → Int → List ρ) : Prop
    extends Registered s set table where
  hosted : ∀ i, i ∈ s.sets ∨ set i ≠ [] → s.service i ∈ s.serviceList
  distinct : s.sets.Nodup
  services : s.serviceList.Nodup

theorem initial_managed [Inhabited υ] [Inhabited ι] :
    Managed (initial : SignalState υ ι ρ) (fun _ => []) (fun _ _ => []) where
  listed := ⟨fun _ => rfl, fun _ => .nil, by simp⟩
  tabled := by
    refine ⟨fun v n => ?_, by simp [initial]⟩
    have none : tableLinks (initial : SignalState υ ι ρ) v n [] =
        ⟨.none, fun _ => .none, fun _ => .none⟩ := by
      apply Links.ext
      · rfl
      · intro p
        simp [tableLinks]
      · intro p
        simp [tableLinks]
    rw [none]
    exact represents_nil
  counted := ⟨fun n => rfl, by simp [initial]⟩
  nodup := List.nodup_nil
  allocated := by simp [initial]
  hosted := by simp [initial]
  distinct := List.nodup_nil
  services := List.nodup_nil

namespace Managed

theorem rewire {set' : ι → List ρ} {table' : υ → Int → List ρ} (h : Managed s set table)
    (registered : Registered s' set' table') (w : Rewires s s')
    (hset : ∀ i, set' i ≠ [] → i ∈ s.sets ∨ set i ≠ []) : Managed s' set' table' where
  toRegistered := registered
  hosted i hi := by
    rw [w.sets] at hi
    rw [w.service, w.serviceList]
    exact h.hosted i (hi.elim .inl (hset i))
  distinct := w.sets ▸ h.distinct
  services := w.serviceList ▸ h.services

theorem waits (h : Managed s set table) (w : Waits s s') : Managed s' set table where
  toRegistered := h.toRegistered.waits w
  hosted := by
    rw [w.sets, w.service, w.serviceList]
    exact h.hosted
  distinct := w.sets ▸ h.distinct
  services := w.serviceList ▸ h.services

theorem signals_eq_none (h : Managed s set table) (i : ι) : s.signals i = none ↔ set i = [] := by
  have chain := h.listed.chain i
  cases hset : set i with
  | nil =>
    rw [hset] at chain
    exact ⟨fun _ => rfl, fun _ => chain⟩
  | cons p l =>
    rw [hset] at chain
    simp [chain.1]

theorem table_eq_nil (h : Managed s set table) {v : υ} (hv : v ∉ s.serviceList) (n : Int) :
    table v n = [] := by
  rw [List.eq_nil_iff_forall_not_mem]
  intro p hp
  obtain ⟨hall, hservice, -⟩ := (h.tabled.mem v n p).1 hp
  refine hv (hservice ▸ h.hosted (s.queue p) (.inr ?_))
  exact List.ne_nil_of_mem ((h.allocated p).1 hall)

/-- The constructor of a service finds the tables of its address empty. -/
theorem addService (cfg : Config υ) (h : Managed s set table) {v : υ} (hv : v ∉ s.serviceList) :
    Managed (addService cfg s v) set table := by
  have old (n : Int) : s.registrations v n = none := by
    have head := (h.tabled.links v n).head
    rw [h.table_eq_nil hv] at head
    exact head
  have same : Function.update s.registrations v (fun _ => none) = s.registrations := by
    rw [Function.update_eq_self_iff]
    exact (funext old).symm
  have listed (l : List υ) (hl : l = v :: s.serviceList) : Managed { s with
      registrations := Function.update s.registrations v fun _ => none
      serviceList := l } set table := by
    rw [same, hl]
    exact ⟨⟨⟨h.listed.chain, h.listed.sorted, h.listed.queue⟩, ⟨h.tabled.links, h.tabled.mem⟩,
      ⟨h.counted.count, h.counted.handler⟩, h.nodup, h.allocated⟩,
      fun i hi => List.mem_cons_of_mem _ (h.hosted i hi), h.distinct,
      List.nodup_cons.2 ⟨hv, h.services⟩⟩
  simp only [SignalSetService.addService]
  split
  · rename_i hnil
    exact listed [v] (by rw [hnil])
  · rename_i first rest hlist
    split
    · exact h
    · exact listed (v :: first :: rest) (by rw [hlist])

theorem construct (h : Managed s set table) {v : υ} (hv : v ∈ s.serviceList) (hnew : impl ∉ s.sets)
    (hnone : s.signals impl = none) : Managed (construct s v impl) set table := by
  have hset := (h.signals_eq_none impl).1 hnone
  have signals : Function.update s.signals impl none = s.signals := by
    rw [Function.update_eq_self_iff]
    exact hnone.symm
  have other {p : ρ} (hp : p ∈ s.allocated) : s.queue p ≠ impl := by
    intro hq
    have hmem := (h.allocated p).1 hp
    rw [hq, hset] at hmem
    cases hmem
  refine ⟨⟨?_, ?_, ?_, h.nodup, h.allocated⟩, ?_, List.nodup_cons.2 ⟨hnew, h.distinct⟩, h.services⟩
  · exact h.listed.congr signals (fun _ _ _ => rfl) (fun _ _ _ => rfl) fun _ _ _ => rfl
  · refine h.tabled.congr rfl (fun _ _ => rfl) (fun _ _ => rfl) (fun p hp => ?_) fun _ _ => rfl
    exact Function.update_of_ne (other hp) ..
  · exact h.counted.congr rfl rfl fun _ _ => rfl
  · intro i hi
    dsimp only [SignalSetService.construct] at hi ⊢
    rw [Function.update_apply]
    split
    · exact hv
    · rename_i hne
      refine h.hosted i (hi.imp_left fun hmem => ?_)
      exact (List.mem_cons.1 hmem).resolve_left hne

theorem clear (h : Managed s set table) (impl : ι) (k : Nat) {table' : υ → Int → List ρ}
    (registered : Registered (dropAll s impl ((set impl).take k))
      (Function.update set impl ((set impl).drop k)) table') :
    Managed (dropAll s impl ((set impl).take k)) (Function.update set impl ((set impl).drop k))
      table' := by
  refine h.rewire registered (dropAll_drops ..).toRewires fun i hi => .inr ?_
  intro hnil
  apply hi
  rw [Function.update_apply]
  split
  · rename_i heq
    rw [← heq, hnil, List.drop_nil]
  · exact hnil

theorem finish (h : Managed s set table) (impl : ι) :
    Managed { cancel s impl with sets := s.sets.erase impl } set table where
  toRegistered := by
    have r := h.toRegistered.waits (cancel_waits s impl)
    exact ⟨⟨r.listed.chain, r.listed.sorted, r.listed.queue⟩, ⟨r.tabled.links, r.tabled.mem⟩,
      ⟨r.counted.count, r.counted.handler⟩, r.nodup, r.allocated⟩
  hosted i hi := h.hosted i (hi.imp_left List.mem_of_mem_erase)
  distinct := h.distinct.erase impl
  services := h.services

end Managed

/-! ### Steps -/

section Steps

/-- The sets that exist, and only they, have registrations. -/
def Intact (s : SignalState υ ι ρ) : Prop :=
  ∃ set table, Registered s set table ∧ ∀ i, i ∉ s.sets → set i = []

/-- A set is destroyed only when the operating system takes back every handler whose last
registration it holds. -/
def Clears (s : SignalState υ ι ρ) : Action υ ι ρ → Prop
  | .destroy impl ok => ∀ p ∈ s.allocated, s.queue p = impl →
      s.registrationCount (s.signalNumber p) = 1 → ok (s.signalNumber p) = true
  | _ => True

instance (s : SignalState υ ι ρ) (a : Action υ ι ρ) : Decidable (Clears s a) := by
  induction a using Action.casesOn <;> dsimp only [Clears] <;> infer_instance

/-- What an operation that returns an error leaves behind: the same state, or for `clear` the state
without the registrations in front of the one whose handler stays. -/
def Leaves (s : SignalState υ ι ρ) (a : Action υ ι ρ) (s' : SignalState υ ι ρ) : Prop :=
  match a with
  | .clear impl _ => ∃ set table table' k, Registered s set table ∧
      Registered s' (Function.update set impl ((set impl).drop k)) table' ∧
      (∀ v n, (table' v n).Sublist (table v n)) ∧ DropsAll s ((set impl).take k) s'
  | _ => s' = s

/-- All that an action does to the registrations. -/
structure Does (cfg : Config υ) (s : SignalState υ ι ρ) (set : ι → List ρ) (a : Action υ ι ρ)
    (s' : SignalState υ ι ρ) (e : Error) (set' : ι → List ρ) (table' : υ → Int → List ρ) :
    Prop where
  performs : perform cfg s a = some (s', e)
  managed : Managed s' set' table'
  leaves : e ≠ .success → Leaves s a s'
  others : ∀ i, i ∉ s'.sets → i ∉ s.sets → set i = [] → set' i = []
  destroyed : ∀ i, i ∈ s.sets → i ∉ s'.sets → (set' i = [] ↔ Clears s a)
  clears : (∀ i ∈ s.sets, i ∈ s'.sets) → Clears s a

/-- The registrations and the sets are as before. -/
theorem does_waits (h : Managed s set table) (hb : perform cfg s a = some (s', .success))
    (w : Waits s s') (hclears : Clears s a) : Does cfg s set a s' .success set table where
  performs := hb
  managed := h.waits w
  leaves hne := absurd rfl hne
  others _ _ _ hi := hi
  destroyed _ hi hi' := absurd (w.sets ▸ hi) hi'
  clears _ := hclears

theorem clears_iff (h : Managed s set table) (impl : ι) (ok : Int → Bool) :
    Clears s (.destroy impl ok) ↔ ∀ p ∈ set impl,
      s.registrationCount (s.signalNumber p) = 1 → ok (s.signalNumber p) = true := by
  constructor
  · intro hclears p hp
    have hq := h.listed.queue impl p hp
    exact hclears p ((h.allocated p).2 (by rw [hq]; exact hp)) hq
  · intro hall p hp hq
    apply hall p
    rw [← hq, ← h.allocated]
    exact hp

theorem perform_does (h : Managed s set table) (legal : Legal cfg s a) :
    ∃ s' e set' table', Does cfg s set a s' e set' table' := by
  cases a with
  | addService v =>
    refine ⟨_, .success, set, table, rfl, h.addService cfg legal, fun hne => absurd rfl hne,
      fun _ _ _ hi => hi, fun _ hi hi' => absurd ?_ hi', fun _ => trivial⟩
    simp only [addService]
    split
    · exact hi
    · split <;> exact hi
  | construct v impl =>
    exact ⟨_, .success, set, table, rfl, h.construct legal.1 legal.2.1 legal.2.2,
      fun hne => absurd rfl hne, fun _ _ _ hi => hi,
      fun i hi hi' => absurd (List.mem_cons_of_mem _ hi) hi', fun _ => trivial⟩
  | add impl n reg ok =>
    obtain ⟨⟨s', e⟩, hb, herror, hsame | ⟨adds, set', table', registered, hothers⟩⟩ :=
      add_spec cfg h.toRegistered impl n legal.2 ok
    · dsimp only at hsame
      subst hsame
      exact ⟨s', e, set, table, hb, h, fun _ => rfl, fun _ _ _ hi => hi,
        fun i hi hi' => absurd hi hi', fun _ => trivial⟩
    · have himpl (i : ι) (hi : i ∉ s.sets) : i ≠ impl := by
        rintro rfl
        exact hi legal.1
      refine ⟨s', e, set', table', hb, ?_, herror, fun i _ hi hset => ?_, fun i hi hi' => ?_,
        fun _ => trivial⟩
      · refine h.rewire registered adds.toRewires fun i hi => ?_
        by_cases heq : i = impl
        · exact .inl (heq ▸ legal.1)
        · exact .inr (hothers i heq ▸ hi)
      · rw [hothers i (himpl i hi), hset]
      · exact absurd (adds.sets ▸ hi) hi'
  | remove impl n ok =>
    obtain ⟨⟨s', e⟩, hb, herror, hsame | ⟨xs, reg, ys, hset, hdrop⟩⟩ :=
      remove_spec cfg h.toRegistered impl n ok
    · dsimp only at hsame
      subst hsame
      exact ⟨s', e, set, table, hb, h, fun _ => rfl, fun _ _ _ hi => hi,
        fun i hi hi' => absurd hi hi', fun _ => trivial⟩
    · dsimp only at hdrop
      subst hdrop
      have rewires := (drop_drops s impl xs.getLast? reg).toRewires
      refine ⟨_, e, _, _, hb, h.rewire (h.toRegistered.drop hset) rewires fun i hi => ?_, herror,
        fun i _ hi hnil => ?_, fun i hi hi' => ?_, fun _ => trivial⟩
      · by_cases heq : i = impl
        · exact .inl (heq ▸ legal)
        · rw [Function.update_of_ne heq] at hi
          exact .inr hi
      · rw [Function.update_of_ne, hnil]
        rintro rfl
        exact hi legal
      · exact absurd (rewires.sets ▸ hi) hi'
  | clear impl ok =>
    obtain ⟨k, e, hb, -, -, table', registered, hsub⟩ := clear_spec h.toRegistered impl ok
    have drops := dropAll_drops s impl ((set impl).take k)
    refine ⟨_, e, _, table', hb, h.clear impl k registered,
      fun _ => ⟨set, table, table', k, h.toRegistered, registered, hsub, drops⟩,
      fun i _ hi hnil => ?_, fun i hi hi' => ?_, fun _ => trivial⟩
    · rw [Function.update_of_ne, hnil]
      rintro rfl
      exact hi legal
    · exact absurd (drops.sets ▸ hi) hi'
  | cancel impl => exact ⟨_, _, _, _, does_waits h rfl (cancel_waits s impl) trivial⟩
  | cancelOpsByKey impl key =>
    exact ⟨_, _, _, _, does_waits h rfl (cancelOpsByKey_waits s impl key) trivial⟩
  | startWaitOp impl id key =>
    have hb : perform cfg s (.startWaitOp impl id key) = some (startWith s impl (.start id key)
        ((set impl).find? (0 < s.undelivered ·)), .success) := by
      simp only [perform, startWaitOp_spec h.toRegistered]
      rfl
    exact ⟨_, _, _, _, does_waits h hb (startWith_waits ..) trivial⟩
  | deliverSignal n =>
    have hb : perform cfg s (.deliverSignal n) =
        some (deliverAll s n (s.serviceList.flatMap fun v => table v n), .success) := by
      simp only [perform, deliverSignal_spec h.toRegistered]
      rfl
    exact ⟨_, _, _, _, does_waits h hb (deliverAll_waits ..) trivial⟩
  | destroy impl ok =>
    obtain ⟨k, e, hb, hall, hok, table', registered, -⟩ := clear_spec h.toRegistered impl ok
    have drops := dropAll_drops s impl ((set impl).take k)
    have managed := (h.clear impl k registered).finish impl
    have hperform : perform cfg s (.destroy impl ok) = some (succeed
        { cancel (dropAll s impl ((set impl).take k)) impl with
          sets := (dropAll s impl ((set impl).take k)).sets.erase impl }) := by
      simp only [perform, destroy, hb]
      rfl
    refine ⟨_, .success, _, table', hperform, managed, fun hne => absurd rfl hne,
      fun i _ hi hnil => ?_, fun i hi hi' => ?_, fun hkept => ?_⟩
    · rw [Function.update_apply]
      split
      · rename_i heq
        rw [← heq, hnil, List.drop_nil]
      · exact hnil
    · have heq : i = impl := by
        by_contra hne
        apply hi'
        rw [drops.sets]
        exact (List.mem_erase_of_ne hne).2 hi
      rw [heq, Function.update_self, ← hall, hok, clears_iff h]
    · have hmem := hkept impl legal
      rw [drops.sets] at hmem
      exact absurd hmem (h.distinct.not_mem_erase)

theorem intact_iff (h : Managed s set table) : Intact s ↔ ∀ i, i ∉ s.sets → set i = [] := by
  constructor
  · rintro ⟨set', table', registered, hnil⟩ i hi
    rw [← h.signals_eq_none]
    have chain := registered.listed.chain i
    rw [hnil i hi] at chain
    exact chain
  · intro hnil
    exact ⟨set, table, h.toRegistered, hnil⟩

theorem intact_step (h : Managed s set table) (intact : Intact s) (legal : Legal cfg s a) :
    ∃ s' e, perform cfg s a = some (s', e) ∧ (∃ set' table', Managed s' set' table') ∧
      (Intact s' ↔ Clears s a) ∧ (e ≠ .success → Leaves s a s') := by
  obtain ⟨s', e, set', table', does⟩ := perform_does h legal
  rw [intact_iff h] at intact
  refine ⟨s', e, does.performs, ⟨set', table', does.managed⟩, ?_, does.leaves⟩
  rw [intact_iff does.managed]
  constructor
  · intro hnil
    by_cases hkept : ∀ i ∈ s.sets, i ∈ s'.sets
    · exact does.clears hkept
    · push Not at hkept
      obtain ⟨i, hi, hi'⟩ := hkept
      exact (does.destroyed i hi hi').1 (hnil i hi')
  · intro hclears i hi'
    by_cases hi : i ∈ s.sets
    · exact (does.destroyed i hi hi').2 hclears
    · exact does.others i hi' hi (intact i hi)

variable [Inhabited υ] [Inhabited ι]

theorem reachable_intact
    (h : Reachable (step cfg) (fun s a => Legal cfg s a ∧ Clears s a) initial s) :
    Intact s ∧ ∃ set table, Managed s set table := by
  refine h.invariant (I := fun s => Intact s ∧ ∃ set table, Managed s set table) ?_ ?_
  · exact ⟨⟨_, _, initial_managed.toRegistered, fun _ _ => rfl⟩, _, _, initial_managed⟩
  · rintro s a s' ⟨intact, set, table, managed⟩ ⟨legal, hclears⟩ hs
    obtain ⟨s'', e, hb, managed', hiff, -⟩ := intact_step managed intact legal
    simp only [step, hb, Option.map_some, Option.some.injEq] at hs
    subst hs
    exact ⟨hiff.2 hclears, managed'⟩

/-- As long as every set that is destroyed can be cleared, the registrations of the sets, the
tables, the counts and the handlers agree; the first `destroy` that fails breaks it. -/
theorem registrations_intact
    (h : Reachable (step cfg) (fun s a => Legal cfg s a ∧ Clears s a) initial s) :
    Intact s ∧ ∀ a, Legal cfg s a → ∃ s' e, perform cfg s a = some (s', e) ∧
      (Intact s' ↔ Clears s a) ∧ (e ≠ .success → Leaves s a s') := by
  obtain ⟨intact, set, table, managed⟩ := reachable_intact h
  refine ⟨intact, fun a legal => ?_⟩
  obtain ⟨s', e, hb, -, hrest⟩ := intact_step managed intact legal
  exact ⟨s', e, hb, hrest⟩

def oneService : Config Unit where
  maxSignalNumber := 65
  locking _ := true

/-- Two sets are registered for one signal. -/
def sharedRun : List (Action Unit (Fin 2) Nat) :=
  [.addService (), .construct () 0, .construct () 1, .add 0 2 0 fun _ => true,
    .add 1 2 1 fun _ => true]

theorem sharedRun_reaches : (exec (guarded (step oneService) fun s a =>
    Legal oneService s a ∧ Clears s a) initial sharedRun).map
      (fun s => (s.allocated, s.registrationCount 2)) = some ([1, 0], 2) := by
  decide +kernel

theorem registrations_intact_shared : ∃ s : SignalState Unit (Fin 2) Nat,
    s.allocated = [1, 0] ∧ s.registrationCount 2 = 2 ∧ Intact s := by
  obtain ⟨s, hs, heq⟩ := Option.map_eq_some_iff.1 sharedRun_reaches
  obtain ⟨hallocated, hcount⟩ := Prod.mk.inj heq
  exact ⟨s, hallocated, hcount, (registrations_intact (exec_guarded_reachable hs)).1⟩

/-- `sigaction` fails when the set is destroyed. -/
def leakingRun : List (Action Unit (Fin 2) Nat) :=
  [.addService (), .construct () 0, .add 0 2 0 fun _ => true, .destroy 0 fun _ => false]

theorem leakingRun_reaches : (exec (guarded (step oneService) (Legal oneService)) initial
    leakingRun).map (fun s => (s.sets, s.signals 0, s.registrations () 2)) =
      some ([], some 0, some 0) := by
  decide +kernel

/-- The table of the service keeps a registration whose set is gone. -/
theorem destroy_leaks_registration : ∃ s : SignalState Unit (Fin 2) Nat,
    Reachable (step oneService) (Legal oneService) initial s ∧ s.sets = [] ∧
      s.registrations () 2 = some 0 ∧ ¬Intact s := by
  obtain ⟨s, hs, heq⟩ := Option.map_eq_some_iff.1 leakingRun_reaches
  simp only [Prod.mk.injEq] at heq
  obtain ⟨hsets, hsignals, htable⟩ := heq
  refine ⟨s, exec_guarded_reachable hs, hsets, htable, ?_⟩
  rintro ⟨set, table, registered, hnil⟩
  have chain := registered.listed.chain 0
  rw [hnil 0 (by simp [hsets]), hsignals] at chain
  cases chain

end Steps

end Asio.Detail.SignalSetService
