import Asio.Experimental.ParallelGroupRuns

/-! The cancellation signals of a parallel group. -/

universe u

namespace Asio.Experimental.ParallelGroup

open Lib Transition

variable {n : Nat} {ρ : Fin n → Type u} {s s' : State n ρ}

/-! ### Who is the first to request -/

def Launch.checked : Launch n → Bool
  | .initiating _ | .inside _ => false
  | _ => true

def Gated (s : State n ρ) : Prop :=
  Gate.Counts modulus n s.launch.checked s.requests.length s.cancellationsRequested
    s.rounds.length

theorem gated_initial (hfits : n < modulus) (connected : Bool) :
    Gated (initial n ρ connected) :=
  Gate.counts_barred hfits

theorem length_append_ite {α : Type u} (l : List α) (a : α) (b : Bool) :
    (l ++ if b then [a] else []).length = l.length + if b then 1 else 0 := by
  cases b <;> simp

theorem Gated.request (h : Gated s) (hpos : 0 < n)
    (hfits : s.cancellationsRequested + 1 < modulus) (requester : Requester n)
    (source : Source n) : Gated (s.request requester source).2 := by
  unfold Gated State.request
  rw [List.length_append, List.length_singleton, length_append_ite]
  exact Gate.Counts.request h hpos hfits

theorem Gated.of_same (h : Gated s) (hlaunch : s'.launch.checked = s.launch.checked)
    (hcount : s'.cancellationsRequested = s.cancellationsRequested)
    (hrequests : s'.requests = s.requests) (hrounds : s'.rounds = s.rounds) : Gated s' := by
  unfold Gated
  rw [hlaunch, hcount, hrequests, hrounds]
  exact h

theorem Gated.move (h : Gated s) (hpos : 0 < n) (hfits : n < modulus) (hmove : Move s s') :
    Gated s' := by
  cases hmove with
  | check hlaunch =>
    unfold Gated at h ⊢
    rw [hlaunch] at h
    rw [length_append_ite]
    have hchecked (b : Bool) :
        (if b then Launch.emitting 0 else Launch.emplacing : Launch n).checked = true := by
      cases b <;> rfl
    rw [hchecked]
    exact h.unbar hfits
  | initiate hlaunch | returned hlaunch | launchEmit hlaunch | launchEmitted hlaunch
  | emplace hlaunch => exact h.of_same (by rw [hlaunch]; rfl) rfl rfl rfl
  | request _ hlt => exact h.request hpos hlt _ _
  | slot _ _ hlt => exact h.request hpos hlt _ _
  | _ => exact h.of_same rfl rfl rfl rfl

/-! ### The types of cancellation -/

section Phases

variable {α : Type u}

/-- The type with which a handler requests cancellation, or signals it. -/
def Phase.cancelType? : Phase α → Option CancellationType
  | .saving cancelType | .requesting cancelType | .emitting cancelType _ => some cancelType
  | _ => none

def Phase.requests : Phase α → Bool
  | .requesting _ => true
  | _ => false

/-- Where a loop over the signals is. -/
def Phase.position (n : Nat) : Phase α → Nat
  | .emitting _ next => next
  | _ => n

end Phases

def Launch.position : Launch n → Nat
  | .emitting next => next
  | _ => n

structure Typed (s : State n ρ) : Prop where
  types : ∀ i cancelType, (s.ops i).cancelType? = some cancelType → cancelType ≠ .none
  saved : ∀ i, (s.ops i).requests = true → s.cancelType ≠ .none
  early : s.launch.checked = false → s.requests ≠ [] → s.cancelType ≠ .none
  launched : s.launch.position < n → s.cancelType ≠ .none
  loops : ∀ loop ∈ s.slotLoops, loop.1 ≠ .none
  emitted : ∀ e ∈ s.emissions, e.cancelType ≠ .none

theorem typed_initial (connected : Bool) : Typed (initial n ρ connected) where
  types _ _ := nofun
  saved _ := nofun
  early _ hne := absurd rfl hne
  launched hlt := absurd hlt (Nat.lt_irrefl n)
  loops _ := nofun
  emitted _ := nofun

theorem mem_concat {α : Type u} {P : α → Prop} {l : List α} {a : α} (h : ∀ b ∈ l, P b)
    (ha : P a) : ∀ b ∈ l ++ [a], P b := by
  intro b hb
  rcases List.mem_append.mp hb with hb | hb
  · exact h b hb
  · obtain rfl := List.mem_singleton.mp hb
    exact ha

/-- A handler moves on. -/
theorem Typed.setOp (h : Typed s) {i : Fin n} {phase : Phase (ρ i)}
    (hops : s'.ops = Function.update s.ops i phase)
    (htypes : ∀ cancelType, phase.cancelType? = some cancelType → cancelType ≠ .none)
    (hcancelType : s.cancelType ≠ .none → s'.cancelType ≠ .none)
    (hsaved : phase.requests = true → s'.cancelType ≠ .none)
    (hearly : s'.requests ≠ [] → s.requests ≠ [] ∨ s'.cancelType ≠ .none)
    (hlaunch : s'.launch.checked = s.launch.checked ∧ s'.launch.position = s.launch.position)
    (hloops : s'.slotLoops = s.slotLoops)
    (hemissions : ∀ e ∈ s'.emissions, e.cancelType ≠ .none) : Typed s' := by
  refine ⟨fun j => ?_, fun j => ?_, fun hchecked hne => ?_, fun hlt => ?_, ?_, hemissions⟩
  · rw [hops]
    by_cases hj : j = i
    · subst hj
      rw [Function.update_self]
      exact htypes
    · rw [Function.update_of_ne hj]
      exact h.types j
  · rw [hops]
    by_cases hj : j = i
    · subst hj
      rw [Function.update_self]
      exact hsaved
    · rw [Function.update_of_ne hj]
      exact fun hrequests => hcancelType (h.saved j hrequests)
  · rw [hlaunch.1] at hchecked
    exact (hearly hne).elim (fun hne => hcancelType (h.early hchecked hne)) id
  · rw [hlaunch.2] at hlt
    exact hcancelType (h.launched hlt)
  · rw [hloops]
    exact h.loops

theorem Typed.of_launch (h : Typed s) {launch : Launch n} {count : Nat}
    {rounds : List (Source n)} {emissions : List (Emission n)}
    (hearly : launch.checked = false → s.launch.checked = false)
    (hlaunched : launch.position < n → s.cancelType ≠ .none)
    (hemissions : ∀ e ∈ emissions, e.cancelType ≠ .none) :
    Typed { s with
      launch := launch, cancellationsRequested := count, rounds := rounds
      emissions := emissions } :=
  ⟨h.types, h.saved, fun hchecked => h.early (hearly hchecked), hlaunched, h.loops, hemissions⟩

theorem Typed.check (h : Typed s) (hgated : Gated s) (hfits : n < modulus) {next : Nat}
    (hlaunch : s.launch = .initiating next) :
    Typed { s with
      cancellationsRequested := (Gate.unbar modulus n s.cancellationsRequested).2
      rounds := s.rounds ++
        if (Gate.unbar modulus n s.cancellationsRequested).1 then [.launch] else []
      launch := if (Gate.unbar modulus n s.cancellationsRequested).1 then .emitting 0
        else .emplacing } := by
  unfold Gated at hgated
  rw [hlaunch] at hgated
  refine h.of_launch (fun hchecked => ?_) (fun hlt => ?_) h.emitted
  · split at hchecked <;> cases hchecked
  · split at hlt
    · rename_i hfirst
      have hrequests := hgated.requests_of_unbar hfits hfirst
      exact h.early (by rw [hlaunch]; rfl) (List.ne_nil_of_length_pos hrequests)
    · exact absurd hlt (Nat.lt_irrefl n)

theorem Typed.move (h : Typed s) (hgated : Gated s) (hfits : n < modulus) (hmove : Move s s') :
    Typed s' := by
  cases hmove with
  | initiate hlaunch =>
    exact h.setOp rfl nofun id nofun Or.inl (by rw [hlaunch]; exact ⟨rfl, rfl⟩) rfl h.emitted
  | check hlaunch => exact h.check hgated hfits hlaunch
  | returned hlaunch =>
    exact h.of_launch (fun _ => by rw [hlaunch]; rfl) (fun hlt => absurd hlt (Nat.lt_irrefl n))
      h.emitted
  | @launchEmit i hlaunch =>
    have hcancelType := h.launched (by rw [hlaunch]; exact i.isLt)
    exact h.of_launch nofun (fun _ => hcancelType) (mem_concat h.emitted hcancelType)
  | launchEmitted | emplace =>
    exact h.of_launch nofun (fun hlt => absurd hlt (Nat.lt_irrefl n)) h.emitted
  | complete | judge | order | emitted | dispatch =>
    exact h.setOp rfl nofun id nofun Or.inl ⟨rfl, rfl⟩ rfl h.emitted
  | release =>
    refine h.setOp rfl ?_ id ?_ Or.inl ⟨rfl, rfl⟩ rfl h.emitted
    all_goals split <;> exact nofun
  | store =>
    refine h.setOp rfl ?_ id ?_ Or.inl ⟨rfl, rfl⟩ rfl h.emitted
    · split
      · rename_i hcancelType
        rintro _ ⟨⟩
        exact hcancelType
      · exact nofun
    · split <;> exact nofun
  | save hop =>
    have hcancelType := h.types _ _ (by rw [hop]; rfl)
    refine h.setOp rfl ?_ (fun _ => hcancelType) (fun _ => hcancelType) Or.inl ⟨rfl, rfl⟩ rfl
      h.emitted
    rintro _ ⟨⟩
    exact hcancelType
  | request hop =>
    have hcancelType := h.types _ _ (by rw [hop]; rfl)
    have hsaved := h.saved _ (by rw [hop]; rfl)
    refine h.setOp rfl ?_ id ?_ (fun _ => Or.inr hsaved) ⟨rfl, rfl⟩ rfl h.emitted
    · split
      · rintro _ ⟨⟩
        exact hcancelType
      · exact nofun
    · split <;> exact nofun
  | skip hop =>
    have hcancelType := h.types _ _ (by rw [hop]; rfl)
    refine h.setOp rfl ?_ id nofun Or.inl ⟨rfl, rfl⟩ rfl h.emitted
    rintro _ ⟨⟩
    exact hcancelType
  | emit hop =>
    have hcancelType := h.types _ _ (by rw [hop]; rfl)
    refine h.setOp rfl ?_ id nofun Or.inl ⟨rfl, rfl⟩ rfl (mem_concat h.emitted hcancelType)
    rintro _ ⟨⟩
    exact hcancelType
  | ignore => exact h
  | slot hlaunch hcancelType =>
    refine ⟨h.types, h.saved, fun hchecked => ?_, h.launched, ?_, h.emitted⟩
    · simp only [State.request, hlaunch] at hchecked
      cases hchecked
    · dsimp only
      split
      · exact mem_concat h.loops hcancelType
      · rw [List.append_nil]
        exact h.loops
  | slotEmit hloop =>
    have hcancelType := h.loops _ (List.mem_of_getElem? hloop)
    refine ⟨h.types, h.saved, h.early, h.launched, fun loop hmem => ?_,
      mem_concat h.emitted hcancelType⟩
    rcases List.mem_or_eq_of_mem_set hmem with hmem | rfl
    · exact h.loops loop hmem
    · exact hcancelType

/-! ### Rounds of signals -/

/-- Those who go through the signals have begun a round, and have signalled the operations that
they have passed, apart from their own. -/
structure Rounds (rounds : List (Source n)) (emissions : List (Emission n))
    (position : Source n → Nat) : Prop where
  active : ∀ source, position source < n → source ∈ rounds
  emitted : ∀ e ∈ emissions, e.source ∈ rounds
  covered : ∀ source ∈ rounds, ∀ j : Fin n, source ≠ .op j →
    position source ≤ j ∨ ∃ cancelType, ⟨source, j, cancelType⟩ ∈ emissions

section Abstract

variable {rounds : List (Source n)} {emissions : List (Emission n)}
variable {position position' : Source n → Nat} {source : Source n}

theorem Rounds.still (h : Rounds rounds emissions position)
    (hposition : ∀ source, position' source = position source ∨
      (n ≤ position source ∧ n ≤ position' source)) :
    Rounds rounds emissions position' := by
  refine ⟨fun source hlt => ?_, h.emitted, fun source hmem j hne => ?_⟩
  · rcases hposition source with heq | ⟨-, hle⟩
    · exact h.active source (heq ▸ hlt)
    · exact absurd hlt (Nat.not_lt.mpr hle)
  · rcases hposition source with heq | ⟨hle, -⟩
    · rw [heq]
      exact h.covered source hmem j hne
    · refine Or.inr ((h.covered source hmem j hne).resolve_left fun hj => ?_)
      exact absurd j.isLt (Nat.not_lt.mpr (hle.trans hj))

theorem Rounds.begin (h : Rounds rounds emissions position) (hself : position' source = 0)
    (hother : ∀ source' ≠ source, position' source' = position source') :
    Rounds (rounds ++ [source]) emissions position' := by
  refine ⟨fun source' hlt => ?_, fun e he => List.mem_append_left _ (h.emitted e he),
    fun source' hmem j hne => ?_⟩
  · by_cases heq : source' = source
    · rw [heq]
      exact List.mem_append_right _ (List.mem_singleton_self source)
    · rw [hother source' heq] at hlt
      exact List.mem_append_left _ (h.active source' hlt)
  · by_cases heq : source' = source
    · rw [heq, hself]
      exact Or.inl (Nat.zero_le j)
    · rw [hother source' heq]
      refine h.covered source' ?_ j hne
      exact (List.mem_append.mp hmem).resolve_right fun hmem => heq (List.mem_singleton.mp hmem)

theorem Rounds.pass (h : Rounds rounds emissions position) {i : Fin n}
    (hbefore : position source = i) (hself : position' source = i + 1)
    (hother : ∀ source' ≠ source, position' source' = position source')
    {emissions' : List (Emission n)} (hsub : emissions ⊆ emissions')
    (hsources : ∀ e ∈ emissions', e ∈ emissions ∨ e.source = source)
    (hpassed : source ≠ .op i → ∃ cancelType, ⟨source, i, cancelType⟩ ∈ emissions') :
    Rounds rounds emissions' position' := by
  have hin : source ∈ rounds := h.active source (hbefore ▸ i.isLt)
  refine ⟨fun source' hlt => ?_, fun e he => ?_, fun source' hmem j hne => ?_⟩
  · by_cases heq : source' = source
    · rw [heq]
      exact hin
    · rw [hother source' heq] at hlt
      exact h.active source' hlt
  · rcases hsources e he with he | heq
    · exact h.emitted e he
    · rw [heq]
      exact hin
  · have hcovered := (h.covered source' hmem j hne).imp_right
      (Exists.imp fun _ hcancel => hsub hcancel)
    by_cases heq : source' = source
    · subst heq
      rw [hbefore] at hcovered
      rw [hself]
      by_cases hij : j = i
      · subst hij
        exact Or.inr (hpassed hne)
      · have hval : j.val ≠ i.val := fun hval => hij (Fin.ext hval)
        exact hcovered.imp_left fun hle => by omega
    · rwa [hother source' heq]

theorem Rounds.emit (h : Rounds rounds emissions position) {i : Fin n}
    {cancelType : CancellationType} (hbefore : position source = i)
    (hself : position' source = i + 1)
    (hother : ∀ source' ≠ source, position' source' = position source') :
    Rounds rounds (emissions ++ [⟨source, i, cancelType⟩]) position' := by
  refine h.pass hbefore hself hother (List.subset_append_left ..) (fun e he => ?_)
    fun _ => ⟨cancelType, List.mem_append_right _ (List.mem_singleton_self _)⟩
  refine (List.mem_append.mp he).imp_right fun he => ?_
  rw [List.mem_singleton.mp he]

end Abstract

def slotPosition (n : Nat) (loops : List (CancellationType × Nat)) (loop : Nat) : Nat :=
  loops[loop]?.elim n Prod.snd

def State.position (s : State n ρ) : Source n → Nat
  | .launch => s.launch.position
  | .op i => (s.ops i).position n
  | .slot loop => slotPosition n s.slotLoops loop

theorem position_op {i : Fin n} {phase : Phase (ρ i)}
    (hops : s'.ops = Function.update s.ops i phase) :
    s'.position (.op i) = phase.position n := by
  simp only [State.position, hops, Function.update_self]

theorem position_emitting {i : Fin n} {cancelType : CancellationType} {next : Nat}
    (hops : s'.ops = Function.update s.ops i (.emitting cancelType next)) :
    s'.position (.op i) = next :=
  position_op hops

theorem position_setOp {i : Fin n} {phase : Phase (ρ i)}
    (hops : s'.ops = Function.update s.ops i phase)
    (hlaunch : s'.launch.position = s.launch.position) (hloops : s'.slotLoops = s.slotLoops) :
    ∀ source ≠ .op i, s'.position source = s.position source := by
  intro source hne
  cases source with
  | launch => exact hlaunch
  | op j =>
    have hj : j ≠ i := fun heq => hne (congrArg Source.op heq)
    simp only [State.position, hops, Function.update_of_ne hj]
  | slot loop => simp only [State.position, hloops]

abbrev Signalled (s : State n ρ) : Prop := Rounds s.rounds s.emissions s.position

theorem signalled_initial (connected : Bool) : Signalled (initial n ρ connected) where
  active source hlt := by
    cases source with
    | launch | op _ | slot _ => exact absurd hlt (Nat.lt_irrefl n)
  emitted _ := nofun
  covered _ := nofun

theorem Signalled.of_still (h : Signalled s) (hrounds : s'.rounds = s.rounds)
    (hemissions : s'.emissions = s.emissions)
    (hposition : ∀ source, s'.position source = s.position source ∨
      (n ≤ s.position source ∧ n ≤ s'.position source)) : Signalled s' := by
  unfold Signalled
  rw [hrounds, hemissions]
  exact h.still hposition

theorem Signalled.begin (h : Signalled s) {source : Source n}
    (hrounds : s'.rounds = s.rounds ++ [source]) (hemissions : s'.emissions = s.emissions)
    (hself : s'.position source = 0)
    (hother : ∀ source' ≠ source, s'.position source' = s.position source') : Signalled s' := by
  unfold Signalled
  rw [hrounds, hemissions]
  exact Rounds.begin h hself hother

/-- A handler moves on outside its loop. -/
theorem Signalled.setOp (h : Signalled s) {i : Fin n} {phase : Phase (ρ i)}
    (hops : s'.ops = Function.update s.ops i phase)
    (hlaunch : s'.launch.position = s.launch.position) (hloops : s'.slotLoops = s.slotLoops)
    (hrounds : s'.rounds = s.rounds) (hemissions : s'.emissions = s.emissions)
    (hbefore : n ≤ (s.ops i).position n) (hafter : n ≤ phase.position n) : Signalled s' := by
  refine h.of_still hrounds hemissions fun source => ?_
  by_cases heq : source = .op i
  · rw [heq, position_op hops]
    exact Or.inr ⟨hbefore, hafter⟩
  · exact Or.inl (position_setOp hops hlaunch hloops source heq)

theorem Signalled.of_launch (h : Signalled s) (hops : s'.ops = s.ops)
    (hloops : s'.slotLoops = s.slotLoops) (hrounds : s'.rounds = s.rounds)
    (hemissions : s'.emissions = s.emissions) (hbefore : n ≤ s.launch.position)
    (hafter : n ≤ s'.launch.position) : Signalled s' := by
  refine h.of_still hrounds hemissions fun source => ?_
  cases source with
  | launch => exact Or.inr ⟨hbefore, hafter⟩
  | op i => exact Or.inl (by simp only [State.position, hops])
  | slot loop => exact Or.inl (by simp only [State.position, hloops])

theorem position_launch (hops : s'.ops = s.ops) (hloops : s'.slotLoops = s.slotLoops) :
    ∀ source ≠ .launch, s'.position source = s.position source := by
  intro source hne
  cases source with
  | launch => exact absurd rfl hne
  | op i => simp only [State.position, hops]
  | slot loop => simp only [State.position, hloops]

theorem position_slot {loops : List (CancellationType × Nat)} {loop : Nat}
    (hops : s'.ops = s.ops) (hlaunch : s'.launch = s.launch) (hloops : s'.slotLoops = loops)
    (hother : ∀ loop' ≠ loop, loops[loop']? = s.slotLoops[loop']?) :
    ∀ source ≠ .slot loop, s'.position source = s.position source := by
  intro source hne
  cases source with
  | launch => simp only [State.position, hlaunch]
  | op i => simp only [State.position, hops]
  | slot loop' =>
    have hloop : loop' ≠ loop := fun heq => hne (congrArg Source.slot heq)
    simp only [State.position, slotPosition, hloops, hother loop' hloop]

theorem getElem?_concat_of_ne {α : Type u} {l : List α} {a : α} {k : Nat} (hk : k ≠ l.length) :
    (l ++ [a])[k]? = l[k]? := by
  rcases Nat.lt_or_ge k l.length with hlt | hge
  · exact List.getElem?_append_left hlt
  · rw [List.getElem?_eq_none hge, List.getElem?_eq_none]
    rw [List.length_append, List.length_singleton]
    omega

theorem request_rounds {requester : Requester n} {source : Source n} {first : Bool}
    (hfirst : (s.request requester source).1 = first) :
    (s.request requester source).2.rounds = s.rounds ++ if first then [source] else [] := by
  subst hfirst
  rfl

theorem Signalled.skip (h : Signalled s) {i : Fin n} {cancelType : CancellationType}
    (hop : s.ops i = .emitting cancelType i) :
    Signalled (s.setOp i (.emitting cancelType (i + 1))) := by
  have hself : (s.setOp i (.emitting cancelType (i + 1))).position (.op i) = i + 1 :=
    position_emitting rfl
  have hother : ∀ source ≠ .op i, (s.setOp i (.emitting cancelType (i + 1))).position source =
      s.position source := position_setOp rfl rfl rfl
  exact Rounds.pass h (by rw [State.position, hop]; rfl) hself hother (List.Subset.refl _)
    (fun _ => Or.inl) (absurd rfl)

theorem Signalled.move (h : Signalled s) (hordered : Ordered s) (hmove : Move s s') :
    Signalled s' := by
  cases hmove with
  | @initiate i hlaunch =>
    have hidle : s.ops i = .idle := hordered.idle i (by rw [hlaunch]; exact Nat.le_refl _)
    exact h.setOp rfl (by rw [hlaunch]; rfl) rfl rfl rfl (by rw [hidle]; exact Nat.le_refl n)
      (Nat.le_refl n)
  | check hlaunch =>
    generalize (Gate.unbar modulus n s.cancellationsRequested).1 = first
    cases first with
    | false =>
      exact h.of_launch rfl rfl (List.append_nil _) rfl (by rw [hlaunch]; exact Nat.le_refl n)
        (Nat.le_refl n)
    | true => exact h.begin rfl rfl rfl (position_launch rfl rfl)
  | returned hlaunch =>
    exact h.of_launch rfl rfl rfl rfl (by rw [hlaunch]; exact Nat.le_refl n) (Nat.le_refl n)
  | launchEmit hlaunch =>
    exact Rounds.emit h (by rw [State.position, hlaunch]; rfl) rfl (position_launch rfl rfl)
  | launchEmitted hlaunch hle =>
    exact h.of_launch rfl rfl rfl rfl (by rw [hlaunch]; exact hle) (Nat.le_refl n)
  | emplace hlaunch =>
    exact h.of_launch rfl rfl rfl rfl (by rw [hlaunch]; exact Nat.le_refl n) (Nat.le_refl n)
  | complete _ hop | judge _ hop | order hop | save hop | dispatch hop =>
    exact h.setOp rfl rfl rfl rfl rfl (by rw [hop]; exact Nat.le_refl n) (Nat.le_refl n)
  | store hop | release hop =>
    refine h.setOp rfl rfl rfl rfl rfl (by rw [hop]; exact Nat.le_refl n) ?_
    split <;> exact Nat.le_refl n
  | emitted hop hle =>
    exact h.setOp rfl rfl rfl rfl rfl (by rw [hop]; exact hle) (Nat.le_refl n)
  | request hop =>
    cases hfirst : (s.request _ _).1 with
    | false =>
      exact h.setOp rfl rfl rfl ((request_rounds hfirst).trans (List.append_nil _)) rfl
        (by rw [hop]; exact Nat.le_refl n) (Nat.le_refl n)
    | true =>
      exact h.begin (request_rounds hfirst) rfl (position_emitting rfl)
        (position_setOp rfl rfl rfl)
  | skip hop => exact h.skip hop
  | emit hop =>
    exact Rounds.emit h (by rw [State.position, hop]; rfl) (position_emitting rfl)
      (position_setOp rfl rfl rfl)
  | ignore => exact h
  | slot hlaunch hcancelType =>
    cases hfirst : (s.request _ _).1 with
    | false =>
      refine h.of_still ((request_rounds hfirst).trans (List.append_nil _)) rfl fun source => Or.inl ?_
      cases source with
      | launch | op i => rfl
      | slot loop => simp only [State.position, Bool.false_eq_true, if_false, List.append_nil]
    | true =>
      refine h.begin (request_rounds hfirst) rfl ?_ (position_slot rfl rfl rfl fun loop hne => ?_)
      · simp only [State.position, slotPosition, if_true, List.getElem?_concat_length]
        rfl
      · exact getElem?_concat_of_ne hne
  | @slotEmit loop i cancelType hloop =>
    refine Rounds.emit h ?_ ?_ (position_slot rfl rfl rfl fun loop' hne => ?_)
    · rw [State.position, slotPosition, hloop]
      rfl
    · simp only [State.position, slotPosition,
        List.getElem?_set_self (List.getElem?_eq_some_iff.mp hloop).1]
      rfl
    · exact List.getElem?_set_ne (Ne.symm hne)

/-! ### Who has requested cancellation -/

/-- The verdict of the condition, while the handler has still to request cancellation. -/
def Phase.verdict? {α : Type u} : Phase α → Option CancellationType
  | .judged _ cancelType | .saving cancelType | .requesting cancelType => some cancelType
  | _ => none

def Asked (s : State n ρ) : Prop :=
  ∀ v ∈ s.verdicts, v.2 ≠ .none →
    .op v.1 ∈ s.requests ∨ (s.ops v.1).verdict? = some v.2

theorem Asked.setOp (h : Asked s) {i : Fin n} {phase : Phase (ρ i)}
    (hops : s'.ops = Function.update s.ops i phase) (hverdicts : s'.verdicts = s.verdicts)
    (hrequests : s.requests ⊆ s'.requests)
    (hverdict : ∀ cancelType ≠ .none, (s.ops i).verdict? = some cancelType →
      .op i ∈ s'.requests ∨ phase.verdict? = some cancelType) : Asked s' := by
  intro v hv hne
  rw [hverdicts] at hv
  rcases h v hv hne with hmem | hstill
  · exact Or.inl (hrequests hmem)
  · rw [hops]
    by_cases hi : v.1 = i
    · subst hi
      rw [Function.update_self]
      exact hverdict v.2 hne hstill
    · rw [Function.update_of_ne hi]
      exact Or.inr hstill

theorem Asked.of_same (h : Asked s) (hops : s'.ops = s.ops) (hverdicts : s'.verdicts = s.verdicts)
    (hrequests : s.requests ⊆ s'.requests) : Asked s' := by
  intro v hv hne
  rw [hverdicts] at hv
  rw [hops]
  exact (h v hv hne).imp_left fun hmem => hrequests hmem

theorem Asked.judge (h : Asked s) {i : Fin n} {args : ρ i} (cancelType : CancellationType)
    (hop : s.ops i = .ordered args) :
    Asked { s.setOp i (.judged args cancelType) with
      verdicts := s.verdicts ++ [(i, cancelType)] } := by
  intro v hv hne
  simp only [State.setOp]
  rcases List.mem_append.mp hv with hv | hv
  · rcases h v hv hne with hmem | hstill
    · exact Or.inl hmem
    · have hi : v.1 ≠ i := by
        intro hi
        subst hi
        rw [hop] at hstill
        cases hstill
      rw [Function.update_of_ne hi]
      exact Or.inr hstill
  · obtain rfl := List.mem_singleton.mp hv
    rw [Function.update_self]
    exact Or.inr rfl

theorem Asked.move (h : Asked s) (hordered : Ordered s) (hmove : Move s s') : Asked s' := by
  cases hmove with
  | @initiate i hlaunch =>
    have hidle : s.ops i = .idle := hordered.idle i (by rw [hlaunch]; exact Nat.le_refl _)
    exact h.setOp rfl rfl (List.Subset.refl _) (by rw [hidle]; exact fun _ _ => nofun)
  | judge cancelType hop => exact h.judge cancelType hop
  | complete _ hop | order hop | skip hop | emit hop | emitted hop | release hop
  | dispatch hop =>
    exact h.setOp rfl rfl (List.Subset.refl _) (by rw [hop]; exact fun _ _ => nofun)
  | store hop =>
    refine h.setOp rfl rfl (List.Subset.refl _) fun cancelType hne hverdict => Or.inr ?_
    rw [hop] at hverdict
    cases hverdict
    rw [if_pos hne]
    rfl
  | save hop =>
    refine h.setOp rfl rfl (List.Subset.refl _) fun cancelType hne hverdict => Or.inr ?_
    rwa [hop] at hverdict
  | request hop =>
    exact h.setOp rfl rfl (List.subset_append_left ..) fun _ _ _ =>
      Or.inl (List.mem_append_right _ (List.mem_singleton_self _))
  | slot => exact h.of_same rfl rfl (List.subset_append_left ..)
  | check | returned | launchEmit | launchEmitted | emplace | ignore | slotEmit =>
    exact h.of_same rfl rfl (List.Subset.refl _)

/-! ### Runs -/

/-- How many initiating functions have returned. -/
def Launch.returned : Launch n → Nat
  | .initiating next => next
  | .inside i => i
  | _ => n

def Phase.resting {α : Type u} : Phase α → Bool
  | .idle | .initiated | .finished => true
  | _ => false

namespace State

/-- Nobody has anything to do until another operation completes or the slot is signalled. -/
structure AtRest (s : State n ρ) : Prop where
  launch : s.launch = .finished
  ops : ∀ i, (s.ops i).resting = true
  loops : ∀ loop, n ≤ slotPosition n s.slotLoops loop

def Requested (s : State n ρ) : Prop :=
  (∃ v ∈ s.verdicts, v.2 ≠ .none) ∨ .slot ∈ s.requests

/-- The handler is dispatched once, after all operations have completed, with the order in which
they did and with their results. -/
structure DispatchedOnce (s : State n ρ) : Prop where
  once : s.dispatched.length ≤ 1
  dispatched : (∀ i, s.ops i = .finished) → s.dispatched.length = 1
  finished : s.dispatched ≠ [] → ∀ i, s.ops i = .finished
  permutation : s.dispatched ≠ [] → (s.completions.map Sigma.fst).Perm (List.finRange n)
  order : ∀ d ∈ s.dispatched, d.completionOrder = s.completions.map fun c => c.1.val
  results : ∀ d ∈ s.dispatched, ∀ c ∈ s.completions, d.args c.1 = some c.2

/-- The signals are emitted in one round after the launch, if cancellation is requested. -/
structure CancelledOnce (s : State n ρ) : Prop where
  once : s.rounds.length ≤ 1
  emitted : ∀ e ∈ s.emissions,
    e.source ∈ s.rounds ∧ s.launch.returned = n ∧ e.cancelType ≠ .none
  reached : s.AtRest → s.Requested → ∃ source, s.rounds = [source] ∧
    ∀ j, source ≠ .op j → ∃ cancelType, ⟨source, j, cancelType⟩ ∈ s.emissions
  slot : ∀ cancelType ≠ .none, ∀ locked s', step s (.slot cancelType locked) = some s' →
    (∃ i, s.ops i ≠ .finished) → .slot ∈ s'.requests

end State

theorem Released.finished (h : Released s) (hne : s.dispatched ≠ []) :
    s.dispatched = [s.handler] ∧ ∀ i, s.ops i = .finished := by
  have hzero : s.outstanding = 0 := by
    by_contra hpos
    exact hne (h.waiting hpos).1
  obtain ⟨hdispatched, hquiet⟩ := (h.last hzero).resolve_left fun hnone => hne hnone.1
  have hcounts := h.counts
  rw [hzero] at hcounts
  refine ⟨hdispatched, fun i => ?_⟩
  have hreleased := (h.released i).mp (hcounts.all_of_zero i)
  have hnot := hquiet i
  cases hop : s.ops i with
  | finished => rfl
  | dispatching =>
    rw [hop] at hnot
    cases hnot
  | _ =>
    rw [hop] at hreleased
    cases hreleased

theorem Released.dispatched (h : Released s) (hall : ∀ i, s.ops i = .finished) :
    s.dispatched = [s.handler] := by
  have hzero : s.outstanding = 0 := by
    refine h.counts.zero_of_all fun i => (h.released i).mpr ?_
    rw [hall i]
    rfl
  rcases h.last hzero with ⟨-, i, honly⟩ | ⟨hdispatched, -⟩
  · have hdispatching := (honly i).mpr rfl
    rw [hall i] at hdispatching
    cases hdispatching
  · exact hdispatched

theorem Ordered.permutation (h : Ordered s) (hall : ∀ i, s.ops i = .finished) :
    (s.completions.map Sigma.fst).Perm (List.finRange n) := by
  refine (List.perm_ext_iff_of_nodup h.nodup (List.nodup_finRange n)).mpr fun i => ?_
  rw [h.begun, hall i]
  exact iff_of_true rfl (List.mem_finRange i)

theorem Ordered.completionOrder (h : Ordered s) (hall : ∀ i, s.ops i = .finished) :
    s.handler.completionOrder = s.completions.map fun c => c.1.val := by
  have hlength : s.completions.length = n := by
    have hlength := (h.permutation hall).length_eq
    rwa [List.length_map, List.length_finRange] at hlength
  refine List.ext_getElem? fun k => ?_
  rw [List.getElem?_map]
  cases hc : s.completions[k]? with
  | none =>
    rw [List.getElem?_eq_none_iff, hlength, ← h.length] at hc
    rw [List.getElem?_eq_none hc]
    rfl
  | some c =>
    have hindex : (s.ops c.1).index? = none := by
      rw [hall c.1]
      rfl
    have hordered := h.ordered k c hc
    rw [hindex] at hordered
    exact hordered.resolve_left nofun

theorem dispatchedOnce (hreleased : Released s) (hordered : Ordered s) : s.DispatchedOnce where
  once := by
    by_cases hnone : s.dispatched = []
    · rw [hnone]
      exact Nat.zero_le 1
    · rw [(hreleased.finished hnone).1]
      exact Nat.le_refl 1
  dispatched hall := by rw [hreleased.dispatched hall]; rfl
  finished hne := (hreleased.finished hne).2
  permutation hne := hordered.permutation (hreleased.finished hne).2
  order d hd := by
    obtain ⟨hdispatched, hall⟩ := hreleased.finished (List.ne_nil_of_mem hd)
    rw [hdispatched] at hd
    rw [List.mem_singleton.mp hd]
    exact hordered.completionOrder hall
  results d hd c hc := by
    obtain ⟨hdispatched, hall⟩ := hreleased.finished (List.ne_nil_of_mem hd)
    rw [hdispatched] at hd
    have hstored := hordered.stored c hc
    rw [hall c.1] at hstored
    rw [List.mem_singleton.mp hd]
    exact hstored

theorem State.AtRest.position (h : s.AtRest) (source : Source n) : n ≤ s.position source := by
  cases source with
  | launch =>
    rw [State.position, h.launch]
    exact Nat.le_refl n
  | op i =>
    have hresting := h.ops i
    rw [State.position]
    cases hop : s.ops i with
    | emitting =>
      rw [hop] at hresting
      cases hresting
    | _ => exact Nat.le_refl n
  | slot loop => exact h.loops loop

/-- Whoever has requested cancellation is counted when nobody has anything to do. -/
theorem Asked.requests_ne_nil (h : Asked s) (hrest : s.AtRest) (hrequested : s.Requested) :
    s.requests ≠ [] := by
  rcases hrequested with ⟨v, hv, hne⟩ | hslot
  · refine List.ne_nil_of_mem ((h v hv hne).resolve_right fun hverdict => ?_)
    have hresting := hrest.ops v.1
    cases hop : s.ops v.1 with
    | judged | saving | requesting =>
      rw [hop] at hresting
      cases hresting
    | _ =>
      rw [hop] at hverdict
      cases hverdict
  · exact List.ne_nil_of_mem hslot

theorem slot_requests {cancelType : CancellationType} {locked : Bool}
    (hne : cancelType ≠ .none) (hstep : step s (.slot cancelType locked) = some s')
    (hopen : ∃ i, s.ops i ≠ .finished) : .slot ∈ s'.requests := by
  simp only [step, State.slot] at hstep
  split at hstep
  · split at hstep
    · cases hstep
    · rename_i hnot
      have hlocked : locked ≠ false := by
        intro hlocked
        obtain ⟨i, hi⟩ := hopen
        refine hnot (Or.inr ⟨hlocked, i, ?_⟩)
        cases hop : s.ops i with
        | finished => exact absurd hop hi
        | _ => rfl
      rw [if_neg (not_or.mpr ⟨hne, hlocked⟩)] at hstep
      cases hstep
      exact List.mem_append_right _ (List.mem_singleton_self _)
  · cases hstep

theorem cancelledOnce (hgated : Gated s) (htyped : Typed s) (hsignalled : Signalled s)
    (hasked : Asked s) : s.CancelledOnce where
  once := hgated.passes_le
  emitted e he := by
    have hround := hsignalled.emitted e he
    have hchecked := (hgated.opened_of_passes (List.length_pos_of_mem hround)).1
    refine ⟨hround, ?_, htyped.emitted e he⟩
    cases hlaunch : s.launch with
    | initiating | inside =>
      rw [hlaunch] at hchecked
      cases hchecked
    | _ => rfl
  reached hrest hrequested := by
    have hrequests := List.length_pos_iff.mpr (hasked.requests_ne_nil hrest hrequested)
    have hone : s.rounds.length = 1 := by
      have hpassed := hgated.passed
      rwa [hrest.launch, if_pos ⟨rfl, hrequests⟩] at hpassed
    obtain ⟨source, hrounds⟩ := List.length_eq_one_iff.mp hone
    refine ⟨source, hrounds, fun j hne => ?_⟩
    have hmem : source ∈ s.rounds := hrounds ▸ List.mem_singleton_self source
    refine (hsignalled.covered source hmem j hne).resolve_left fun hle => ?_
    exact absurd j.isLt (Nat.not_lt.mpr ((hrest.position source).trans hle))
  slot _ hne _ _ := slot_requests hne

/-- What every step keeps. -/
structure Sound (s : State n ρ) : Prop where
  ordered : Ordered s
  released : Released s
  gated : Gated s
  typed : Typed s
  signalled : Signalled s
  asked : Asked s

theorem Sound.step (h : Sound s) (hpos : 0 < n) (hfits : n < modulus) {a : Action n ρ}
    (ha : Fits s a) (hstep : step s a = some s') : Sound s' :=
  have hmove := move_of_step ha hstep
  { ordered := h.ordered.move hfits hmove
    released := h.released.move h.ordered hfits hmove
    gated := h.gated.move hpos hfits hmove
    typed := h.typed.move h.gated hfits hmove
    signalled := h.signalled.move h.ordered hmove
    asked := h.asked.move h.ordered hmove }

theorem sound_initial (hpos : 0 < n) (hfits : n < modulus) (connected : Bool) :
    Sound (initial n ρ connected) where
  ordered := ordered_initial connected
  released := released_initial hpos connected
  gated := gated_initial hfits connected
  typed := typed_initial connected
  signalled := signalled_initial connected
  asked _ := nofun

/-- While the count of requests does not overflow, the handler is dispatched once and the signals
are emitted in one round. The number of operations fits the counters, which it initialises. -/
theorem dispatched_and_cancelled_once {connected : Bool} (hpos : 0 < n) (hfits : n < modulus)
    (h : Reachable step Fits (initial n ρ connected) s) : s.DispatchedOnce ∧ s.CancelledOnce := by
  have hsound : Sound s :=
    h.invariant (sound_initial hpos hfits connected) fun hs ha hstep =>
      hs.step hpos hfits ha hstep
  exact ⟨dispatchedOnce hsound.released hsound.ordered,
    cancelledOnce hsound.gated hsound.typed hsound.signalled hsound.asked⟩

/-- The first operation completes while the second is being launched, and requests cancellation. -/
def cancelledWhileLaunching : List (Action 2 fun _ => Nat) :=
  [.launch, .complete 0 7, .proceed 0, .judge 0 1, .proceed 0, .proceed 0, .proceed 0, .proceed 0,
    .launch, .launch, .launch, .launch, .launch, .launch, .launch, .launch,
    .complete 1 8, .proceed 1, .judge 1 .none, .proceed 1, .proceed 1, .proceed 1]

theorem dispatched_and_cancelled_once_launching :
    ∃ s : State 2 fun _ => Nat, Reachable step Fits (initial 2 (fun _ => Nat) true) s ∧
      s.dispatched.map (·.completionOrder) = [[0, 1]] ∧ s.rounds = [.launch] ∧
      s.DispatchedOnce ∧ s.CancelledOnce := by
  have hrun : (exec (guarded step Fits) (initial 2 (fun _ => Nat) true)
      cancelledWhileLaunching).map (fun s => (s.dispatched.map (·.completionOrder), s.rounds)) =
        some ([[0, 1]], [.launch]) := by
    decide +kernel
  obtain ⟨s, hs, hheld⟩ := Option.map_eq_some_iff.mp hrun
  have hreachable := exec_guarded_reachable hs
  obtain ⟨hdispatched, hrounds⟩ := Prod.ext_iff.mp hheld
  exact ⟨s, hreachable, hdispatched, hrounds,
    dispatched_and_cancelled_once (by decide) (by decide) hreachable⟩

/-! ### The count of requests overflows -/

/-- The slot is connected, so many requests have been counted and so many rounds begun. -/
structure Armed (s : State n ρ) (count rounds : Nat) : Prop where
  launch : s.launch = .finished
  connected : s.connected = true
  count : s.cancellationsRequested = count
  rounds : s.rounds.length = rounds

theorem Armed.slot {count rounds : Nat} (h : Armed s count rounds) :
    ∃ s', step s (.slot 1 true) = some s' ∧
      Armed s' ((count + 1) % modulus) (rounds + if count = 0 then 1 else 0) := by
  obtain ⟨hlaunch, hconnected, hcount, hrounds⟩ := h
  refine ⟨{ (s.request .slot (.slot s.slotLoops.length)).2 with
    slotLoops := s.slotLoops ++
      if (s.request .slot (.slot s.slotLoops.length)).1 then [(1, 0)] else [] }, ?_, hlaunch,
    hconnected, ?_, ?_⟩
  · have hne : ¬ ((1 : CancellationType) = .none ∨ true = false) := by decide
    simp only [step, State.slot, hlaunch, hconnected]
    rw [if_neg (by simp), if_neg hne]
    rfl
  · rw [← hcount]
    rfl
  · simp only [State.request, Gate.request, hcount, decide_eq_true_eq]
    split
    · rw [List.length_append, hrounds, List.length_singleton]
    · rw [List.append_nil, hrounds, Nat.add_zero]

theorem Armed.slots {ok : State n ρ → Action n ρ → Prop} (hok : ∀ s a, ok s a)
    (h : Armed s 1 1) {start : State n ρ} (hreachable : Reachable step ok start s) {k : Nat}
    (hk : k < modulus) :
    ∃ s', Reachable step ok start s' ∧ Armed s' ((1 + k) % modulus) 1 := by
  induction k with
  | zero => exact ⟨s, hreachable, h⟩
  | succ k ih =>
    obtain ⟨t, ht, harmed⟩ := ih (Nat.lt_of_succ_lt hk)
    obtain ⟨s', hstep, harmed'⟩ := harmed.slot
    have hmod : (1 + k) % modulus = 1 + k := Nat.mod_eq_of_lt (by omega)
    rw [hmod, if_neg (by omega)] at harmed'
    exact ⟨s', ht.step (hok t _) hstep, harmed'⟩

/-- When the slot has been signalled so often that the count is zero again, the next signal begins
another round. -/
theorem cancelled_twice : ∃ s : State 1 fun _ => Unit,
    Reachable step (fun _ _ => True) (initial 1 (fun _ => Unit) true) s ∧ s.rounds.length = 2 := by
  have hrun : (exec (guarded step fun _ _ => True) (initial 1 (fun _ => Unit) true)
      [.launch, .launch, .launch, .launch, .slot 1 true]).map (fun s =>
        (s.launch, s.connected, s.cancellationsRequested, s.rounds.length)) =
          some (.finished, true, 1, 1) := by
    decide +kernel
  obtain ⟨s, hs, hheld⟩ := Option.map_eq_some_iff.mp hrun
  have harmed : Armed s 1 1 := by
    simp only [Prod.mk.injEq] at hheld
    exact ⟨hheld.1, hheld.2.1, hheld.2.2.1, hheld.2.2.2⟩
  obtain ⟨t, ht, hzero⟩ := harmed.slots (fun _ _ => trivial) (exec_guarded_reachable hs)
    (Nat.sub_lt (by decide) Nat.one_pos : modulus - 1 < modulus)
  have hoverflow : (1 + (modulus - 1)) % modulus = 0 := by decide
  rw [hoverflow] at hzero
  obtain ⟨s', hstep, htwice⟩ := hzero.slot
  exact ⟨s', ht.step trivial hstep, htwice.rounds⟩

end Asio.Experimental.ParallelGroup
