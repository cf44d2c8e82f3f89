import Asio.Detail.WinIocpIoContext

/-! The handshake over `ready_`: an operation is handed from its initiating function to the thread
that has dequeued its packet, whoever comes last. -/

universe u

namespace Asio.Detail.WinIocpIoContext

open Asio.Lib Transition Interleaving

set_option linter.unusedSectionVars false

/-! ### Where an operation is -/

/-- The initiating function has not come to `ready_` yet, and no packet can be under way. -/
@[simp] def Call.starts (op : Nat) : Call → Nat
  | .initiate o | .onCompletion o _ => if o = op then 1 else 0
  | _ => 0

/-- The initiating function will exchange `ready_`. -/
@[simp] def Call.pends (op : Nat) : Call → Nat
  | .onPending o => if o = op then 1 else 0
  | _ => 0

/-- The call has the operation in hand, and nobody else has. -/
@[simp] def Call.holds (op : Nat) : Call → Nat
  | .storeResult o _ | .postResult o | .dequeued _ o _ _ | .exchangeReady _ o _ =>
    if o = op then 1 else 0
  | _ => 0

/-- The handler runs, or has run and the work is about to be finished. -/
@[simp] def Call.completes (op : Nat) : Call → Nat
  | .complete _ o | .blockExit _ o => if o = op then 1 else 0
  | _ => 0

/-- The call will post the operation without a result. -/
@[simp] def Call.defers (op : Nat) : Call → Nat
  | .postDeferred o | .pushCompleted o => if o = op then 1 else 0
  | .postDeferredAll _ ops => ops.count op
  | _ => 0

def World.packets (w : World) (op : Nat) : Nat := w.port.countP (·.overlapped = some op)

def World.invocations (w : World) (op : Nat) : Nat := w.invoked.countP (·.1 = op)

def World.deferred (w : World) (op : Nat) : Nat := w.completedOps.count op + w.timers.count op

/-- What other calls have of an operation. -/
structure Others where
  starts : Nat
  pends : Nat
  holds : Nat
  completes : Nat
  defers : Nat

/-- How often an operation is in each place. -/
structure Places where
  ready : Bool
  starts : Nat
  pends : Nat
  holds : Nat
  completes : Nat
  deferred : Nat
  kernel : Nat
  packets : Nat
  invocations : Nat
  finished : Nat

def places (op : Nat) (o : Others) (w : World) (calls : List Call) : Places where
  ready := w.ready op
  starts := o.starts + load (Call.starts op) calls
  pends := o.pends + load (Call.pends op) calls
  holds := o.holds + load (Call.holds op) calls
  completes := o.completes + load (Call.completes op) calls
  deferred := o.defers + load (Call.defers op) calls + w.deferred op
  kernel := w.kernel.count op
  packets := w.packets op
  invocations := w.invocations op
  finished := w.finished.count op

def Places.Empty (p : Places) : Prop :=
  p.ready = false ∧ p.starts + p.pends + p.holds + p.completes + p.deferred + p.kernel + p.packets +
    p.invocations + p.finished = 0

/-- The operation is in one place, which is its initiating function if `ready_` is set before that
has come to it. -/
structure Places.Unique (p : Places) : Prop where
  deferred : p.deferred = 0
  one : p.starts + p.holds + (if p.ready then p.pends else 0) + p.kernel + p.packets +
    p.invocations = 1
  starting : p.ready = false → p.starts + p.pends = 1
  unset : 0 < p.starts → p.ready = false
  done : 0 < p.invocations → p.ready = true
  finishing : p.invocations = p.finished + p.completes

/-- The operation is accounted for, by the calls `calls` and by others. -/
structure Accounted (op : Nat) (o : Others) (w : World) (calls : List Call) : Prop where
  absent : op ∉ w.started → (places op o w calls).Empty
  unique : op ∈ w.overlapped → op ∈ w.started ∧ (places op o w calls).Unique

section Accounts

variable {w : World} {op : Nat} {o : Others}

@[simp] theorem packets_push (w : World) (p : Packet) (op : Nat) :
    (w.push p).packets op = w.packets op + if p.overlapped = some op then 1 else 0 := by
  simp [World.packets, World.push, List.countP_append, List.countP_singleton]

/-- The places of an operation with one more call. -/
@[simp] def Places.add (p : Places) (op : Nat) (c : Call) : Places :=
  { p with
    starts := p.starts + c.starts op
    pends := p.pends + c.pends op
    holds := p.holds + c.holds op
    completes := p.completes + c.completes op
    deferred := p.deferred + c.defers op }

@[simp] theorem places_cons (op : Nat) (o : Others) (w : World) (c : Call) (calls : List Call) :
    places op o w (c :: calls) = (places op o w calls).add op c := by
  simp only [places, Places.add, load_cons, Places.mk.injEq, true_and, and_true]
  omega

end Accounts

/-! ### The moves of an operation -/

/-- What one access does to an operation. Only a refused packet makes a result wait. -/
inductive Places.Move (Refused : Prop) : Places → Places → Prop
  | stay (p : Places) : Move Refused p p
  | systemCall (p : Places) : Move Refused { p with starts := p.starts + 1 }
      { p with pends := p.pends + 1, kernel := p.kernel + 1 }
  /-- The packet has been there before the initiating function. -/
  | takeBack (p : Places) (hready : p.ready = true) : Move Refused { p with pends := p.pends + 1 }
      { p with holds := p.holds + 1 }
  /-- The initiating function is done before the packet comes. -/
  | leave (p : Places) (hready : p.ready = false) : Move Refused { p with pends := p.pends + 1 }
      { p with ready := true }
  | setReady (p : Places) : Move Refused { p with starts := p.starts + 1 }
      { p with ready := true, holds := p.holds + 1 }
  | post (p : Places) : Move Refused { p with holds := p.holds + 1 }
      { p with packets := p.packets + 1 }
  | refuse (p : Places) (hrefused : Refused) : Move Refused { p with holds := p.holds + 1 }
      { p with deferred := p.deferred + 1 }
  | defer (p : Places) : Move Refused { p with deferred := p.deferred + 1 }
      { p with ready := true, deferred := p.deferred + 1 }
  | postDeferred (p : Places) : Move Refused { p with deferred := p.deferred + 1 }
      { p with ready := true, packets := p.packets + 1 }
  | dequeue (p : Places) : Move Refused { p with packets := p.packets + 1 }
      { p with holds := p.holds + 1 }
  | invoke (p : Places) (hready : p.ready = true) : Move Refused { p with holds := p.holds + 1 }
      { p with invocations := p.invocations + 1, completes := p.completes + 1 }
  /-- The thread that has dequeued the packet leaves the operation to its initiating function. -/
  | leaveBehind (p : Places) (hready : p.ready = false) :
      Move Refused { p with holds := p.holds + 1 } { p with ready := true }
  | finish (p : Places) : Move Refused { p with completes := p.completes + 1 }
      { p with finished := p.finished + 1 }
  | deliver (p : Places) : Move Refused { p with kernel := p.kernel + 1 }
      { p with packets := p.packets + 1 }

section Moves

variable {Refused : Prop} {p p' : Places}

/-- An operation that is nowhere does not move. -/
theorem Places.Move.empty (h : p.Move Refused p') (hp : p.Empty) : p' = p := by
  have hsum := hp.2
  cases h with
  | stay => rfl
  | _ =>
    simp only at hsum
    omega

theorem Places.Empty.start (h : p.Empty) : { p with starts := p.starts + 1 }.Unique := by
  obtain ⟨hr, hsum⟩ := h
  constructor <;> grind

/-- An operation with a result stays in one place, unless the packet with its result is refused. -/
theorem Places.Move.unique (h : p.Move False p') (hp : p.Unique) : p'.Unique := by
  obtain ⟨hd, ho, hs, hu, hr, hf⟩ := hp
  cases h with
  | stay => exact ⟨hd, ho, hs, hu, hr, hf⟩
  | refuse _ hrefused => exact hrefused.elim
  | _ => constructor <;> grind -ring -linarith

theorem Places.Unique.le_one (h : p.Unique) : p.invocations ≤ 1 ∧ p.finished ≤ 1 := by
  obtain ⟨hd, ho, hs, hu, hr, hf⟩ := h
  constructor <;> grind

/-- Nobody has an operation in hand whose handler has been invoked. -/
theorem Places.Unique.invoked (h : p.Unique) (hpos : 0 < p.invocations) :
    p.starts + p.pends + p.holds + p.deferred = 0 := by
  obtain ⟨hd, ho, hs, hu, hr, hf⟩ := h
  grind

/-- An operation that is nowhere else has been completed. -/
theorem Places.Unique.completed (h : p.Unique)
    (hzero : p.starts + p.pends + p.holds + p.completes + p.kernel + p.packets = 0) :
    p.invocations = 1 ∧ p.finished = 1 := by
  obtain ⟨hd, ho, hs, hu, hr, hf⟩ := h
  constructor <;> grind

end Moves

section Advance

variable {outcome : Nat → Outcome} {w w' : World} {op : Nat} {o : Others} {c : Call}
variable {new : List Call} {Refused : Prop}

@[simp] theorem places_setReady (op' : Nat) (calls : List Call) :
    places op o (w.setReady op') calls =
      { places op o w calls with ready := if op' = op then true else w.ready op } := by
  by_cases hop : op' = op
  · subst hop
    simp [places, World.setReady]
    exact ⟨rfl, rfl, rfl⟩
  · simp [places, World.setReady, hop, Function.update_of_ne (Ne.symm hop)]
    exact ⟨rfl, rfl, rfl⟩

@[simp] theorem places_push (p : Packet) (calls : List Call) :
    places op o (w.push p) calls = { places op o w calls with
      packets := (places op o w calls).packets + if p.overlapped = some op then 1 else 0 } := by
  simp only [places, packets_push]
  rfl

@[simp] theorem places_store (op' : Nat) (r : Result) (calls : List Call) :
    places op o (w.store op' r) calls = places op o w calls := rfl

@[simp] theorem places_ready (calls : List Call) : (places op o w calls).ready = w.ready op := rfl

/-- The operation is where it was. -/
theorem Places.Move.quiet {p p' : Places} (same : p' = p) : p.Move Refused p' := by
  rw [same]
  exact .stay p

theorem move_onPending {op' : Nat}
    (hadv : advance outcome w (.onPending op') = some (w', new)) :
    (places op o w [.onPending op']).Move Refused (places op o w' new) := by
  cases hadv
  by_cases hop : op' = op
  · subst hop
    cases hr : w.ready op' with
    | false => simpa using Places.Move.leave (places op' o w []) hr
    | true => simpa [hr] using Places.Move.takeBack (places op' o w []) hr
  · refine .quiet ?_
    split
    · simp [hop]
    · simp [hop]

theorem move_exchangeReady {mode : Mode} {op' : Nat} {r : Result}
    (hadv : advance outcome w (.exchangeReady mode op' r) = some (w', new)) :
    (places op o w [.exchangeReady mode op' r]).Move Refused (places op o w' new) := by
  simp only [advance] at hadv
  split at hadv
  · rename_i hr
    cases hadv
    by_cases hop : op' = op
    · subst hop
      have : Places.Move Refused _ _ := .invoke (places op' o w []) hr
      simp [places, World.invocations, List.countP_append] at this ⊢
      exact this
    · refine .quiet ?_
      simp [places, World.invocations, List.countP_append, hop]
      exact ⟨rfl, rfl⟩
  · rename_i hr
    cases hadv
    by_cases hop : op' = op
    · subst hop
      simpa using Places.Move.leaveBehind (places op' o w []) (by simpa using hr)
    · exact .quiet (by simp [hop])

theorem move_initiate {op' : Nat} (hadv : advance outcome w (.initiate op') = some (w', new)) :
    (places op o w [.initiate op']).Move Refused (places op o w' new) := by
  simp only [advance] at hadv
  split at hadv
  · cases hadv
    by_cases hop : op' = op
    · subst hop
      have : Places.Move Refused _ _ := .systemCall (places op' o w [])
      simp [places, List.count_append] at this ⊢
      exact this
    · refine .quiet ?_
      simp [places, List.count_append, hop]
      exact ⟨rfl, rfl, rfl⟩
  · cases hadv
    exact .quiet (by simp)

theorem move_blockExit {mode : Mode} {op' : Nat}
    (hadv : advance outcome w (.blockExit mode op') = some (w', new)) :
    (places op o w [.blockExit mode op']).Move Refused (places op o w' new) := by
  cases hadv
  by_cases hop : op' = op
  · subst hop
    have : Places.Move Refused _ _ := .finish (places op' o w [])
    split
    · simp [places, List.count_append] at this ⊢
      exact this
    · simp [places, List.count_append] at this ⊢
      exact this
  · refine .quiet ?_
    split
    · simp [places, List.count_append, hop]
      exact ⟨rfl, rfl, rfl⟩
    · simp [places, List.count_append, hop]
      exact ⟨rfl, rfl, rfl⟩

/-- A packet of another operation. -/
theorem places_received {p : Packet} (mode : Mode) (hop : p.overlapped ≠ some op) :
    places op o w [received mode p] = places op o w [] := by
  unfold received
  cases hp : p.overlapped with
  | some op' =>
    have hne : op' ≠ op := fun h => hop (h ▸ hp)
    simp only [places_cons, Places.add, Call.starts, Call.pends, Call.holds, Call.completes,
      Call.defers, if_neg hne, Nat.add_zero]
  | none =>
    simp only
    split
    · rfl
    · rfl

theorem move_getQueued {mode : Mode}
    (hadv : advance outcome w (.getQueued mode) = some (w', new)) :
    (places op o w [.getQueued mode]).Move Refused (places op o w' new) := by
  simp only [advance] at hadv
  split at hadv
  · cases hadv
  · rename_i p port hport
    cases hadv
    have hpackets : w.packets op = World.packets { w with port := port } op +
        if p.overlapped = some op then 1 else 0 := by
      simp [World.packets, hport, List.countP_cons]
    by_cases hop : p.overlapped = some op
    · rw [if_pos hop] at hpackets
      have hreceived : received mode p =
          .dequeued mode op p.completionKey ⟨⟨.system, p.lastError⟩, p.bytesTransferred⟩ := by
        rw [received, hop]
      have hplaces : places op o w [.getQueued mode] =
          { places op o { w with port := port } [] with
            packets := (places op o { w with port := port } []).packets + 1 } := by
        simp [places, hpackets]
        exact ⟨rfl, rfl⟩
      rw [hplaces, hreceived]
      simpa using Places.Move.dequeue (places op o { w with port := port } [])
    · rw [if_neg hop, Nat.add_zero] at hpackets
      refine .quiet ?_
      rw [places_received mode hop]
      simp [places, hpackets]
      exact ⟨rfl, rfl⟩

theorem advance_move (hadv : advance outcome w c = some (w', new)) :
    (places op o w [c]).Move Refused (places op o w' new) := by
  cases c with
  | onPending op' => exact move_onPending hadv
  | exchangeReady mode op' r => exact move_exchangeReady hadv
  | initiate op' => exact move_initiate hadv
  | blockExit mode op' => exact move_blockExit hadv
  | getQueued mode => exact move_getQueued hadv
  | onCompletion op' r =>
    cases hadv
    by_cases hop : op' = op
    · subst hop
      simpa using Places.Move.setReady (places op' o w [])
    · exact .quiet (by simp [hop])
  | postResult op' =>
    cases hadv
    by_cases hop : op' = op
    · subst hop
      simpa [Packet.posted] using Places.Move.post (places op' o w [])
    · exact .quiet (by simp [hop, Packet.posted])
  | postDeferred op' =>
    cases hadv
    by_cases hop : op' = op
    · subst hop
      simpa [Packet.posted] using Places.Move.postDeferred (places op' o w [])
    · exact .quiet (by simp [hop, Packet.posted])
  | pushCompleted op' =>
    cases hadv
    refine .quiet ?_
    by_cases hop : op' = op
    · simp [places, World.deferred, List.count_append, hop]
      exact ⟨by omega, rfl, rfl⟩
    · simp [places, World.deferred, List.count_append, hop]
      exact ⟨rfl, rfl⟩
  | postDeferredAll mode ops =>
    cases ops with
    | nil =>
      cases hadv
      exact .quiet (by simp)
    | cons op' ops =>
      cases hadv
      by_cases hop : op' = op
      · subst hop
        simpa [Packet.posted, Nat.add_assoc] using
          Places.Move.postDeferred (places op' o w [.postDeferredAll mode ops])
      · exact .quiet (by simp [hop, Packet.posted])
  | collect mode =>
    cases hadv
    have hdeferred : o.defers + ((w.completedOps ++ w.timers).count op + 0) + 0 =
        o.defers + 0 + w.deferred op := by
      rw [List.count_append]
      rfl
    exact .quiet (congrArg (fun n => { places op o w [] with deferred := n }) hdeferred)
  | dequeued mode op' key r =>
    simp only [advance] at hadv
    split at hadv
    · cases hadv
      exact .quiet (by simp)
    · cases hadv
      exact .quiet (by simp)
  | complete mode op' =>
    cases hadv
    exact .quiet (by simp)
  | storeResult op' r =>
    cases hadv
    exact .stay _
  | stop | stopEvent | workFinished | doOne mode | exchangeStop mode =>
    cases hadv
    refine .quiet ?_
    split
    · rfl
    · rfl
  | run mode | completed mode | checkStopped mode =>
    cases hadv
    refine .quiet ?_
    split
    · rfl
    · rfl
  | stopPost | repostStop mode =>
    cases hadv
    exact .quiet (by simp [Packet.posted])
  | clearStop mode | requireDispatch =>
    cases hadv
    exact .stay _

/-- What a refused packet does to an operation. -/
theorem postFailed_move (hrefused : c = .postResult op → Refused)
    (hpost : postFailed w c = some (w', new)) :
    (places op o w [c]).Move Refused (places op o w' new) := by
  cases c with
  | stopPost | repostStop mode =>
    cases hpost
    exact .stay _
  | postResult op' =>
    cases hpost
    by_cases hop : op' = op
    · subst hop
      simpa using Places.Move.refuse (places op' o w []) (hrefused rfl)
    · exact .quiet (by simp [hop])
  | postDeferred op' =>
    cases hpost
    by_cases hop : op' = op
    · subst hop
      simpa using Places.Move.defer (places op' o w [])
    · exact .quiet (by simp [hop])
  | postDeferredAll mode ops =>
    cases ops with
    | nil => cases hpost
    | cons op' ops =>
      cases hpost
      have hdeferred :
          o.defers + (0 + 0) + ((w.completedOps ++ op' :: ops).count op + w.timers.count op) =
            o.defers + ((op' :: ops).count op + 0) +
              (w.completedOps.count op + w.timers.count op) := by
        rw [List.count_append]
        omega
      have hplaces (ready : Bool) (hready : (w.setReady op').ready op = ready) :
          places op o { w.setReady op' with
            completedOps := w.completedOps ++ op' :: ops
            dispatchRequired := true } [.postDeferredAll mode []] =
          { places op o w [.postDeferredAll mode (op' :: ops)] with ready := ready } :=
        congrArg₂ (fun b n => { places op o w [] with ready := b, deferred := n }) hready hdeferred
      by_cases hop : op' = op
      · subst hop
        rw [hplaces true (Function.update_self ..)]
        have : Places.Move Refused _ _ := .defer (places op' o w [.postDeferredAll mode ops])
        simpa [Nat.add_assoc] using this
      · exact .quiet (hplaces (w.ready op) (Function.update_of_ne (Ne.symm hop) ..))
  | _ => cases hpost

/-- What the others have, and these calls. -/
def Others.add (o : Others) (op : Nat) (calls : List Call) : Others where
  starts := o.starts + load (Call.starts op) calls
  pends := o.pends + load (Call.pends op) calls
  holds := o.holds + load (Call.holds op) calls
  completes := o.completes + load (Call.completes op) calls
  defers := o.defers + load (Call.defers op) calls

theorem places_append (calls rest : List Call) :
    places op o w (calls ++ rest) = places op (o.add op rest) w calls := by
  simp only [places, Others.add, load_append, Places.mk.injEq, true_and, and_true]
  omega

/-- The thread is about to post the result of an operation. -/
def postsResult : List Call → Bool
  | .postResult _ :: _ => true
  | _ => false

theorem places_initiate (calls : List Call) : places op o w (.initiate op :: calls) =
    { places op o w calls with starts := (places op o w calls).starts + 1 } := by
  simp only [places_cons, Places.add, Call.starts, if_true]
  rfl

theorem places_initiate_other {op' : Nat} (hop : op' ≠ op) (calls : List Call) :
    places op o w (.initiate op' :: calls) = places op o w calls := by
  simp only [places_cons, Places.add, Call.starts, if_neg hop]
  rfl

/-- What an action does to an operation, which it may start. -/
inductive Moved (Refused : Prop) (op : Nat) (w w' : World) (p p' : Places) : Prop
  | move (started : w'.started = w.started) (overlapped : w'.overlapped = w.overlapped)
      (h : p.Move Refused p')
  | initiate (op' : Nat) (hnew : op' ∉ w.started) (started : w'.started = w.started ++ [op'])
      (overlapped : w'.overlapped = w.overlapped ++ [op'])
      (h : p' = if op' = op then { p with starts := p.starts + 1 } else p)
  | defer (op' : Nat) (hnew : op' ∉ w.started) (started : w'.started = w.started ++ [op'])
      (overlapped : w'.overlapped = w.overlapped)
      (h : p' = if op' = op then { p with deferred := p.deferred + 1 } else p)

theorem Moved.quiet {p p' : Places} (started : w'.started = w.started)
    (overlapped : w'.overlapped = w.overlapped) (same : p' = p) : Moved Refused op w w' p p' :=
  .move started overlapped (.quiet same)

theorem Moved.rest {calls rest : List Call} (started : w'.started = w.started)
    (overlapped : w'.overlapped = w.overlapped)
    (h : (places op (o.add op rest) w calls).Move Refused (places op (o.add op rest) w' new)) :
    Moved Refused op w w' (places op o w (calls ++ rest)) (places op o w' (new ++ rest)) := by
  refine .move started overlapped ?_
  rw [places_append, places_append]
  exact h

theorem advance_history (hadv : advance outcome w c = some (w', new)) :
    w'.started = w.started ∧ w'.overlapped = w.overlapped := by
  cases c with
  | getQueued | dequeued | exchangeReady | initiate =>
    simp only [advance] at hadv
    split at hadv
    · cases hadv
      try exact ⟨rfl, rfl⟩
    · cases hadv
      exact ⟨rfl, rfl⟩
  | postDeferredAll mode ops =>
    cases ops with
    | nil =>
      cases hadv
      exact ⟨rfl, rfl⟩
    | cons =>
      cases hadv
      exact ⟨rfl, rfl⟩
  | _ =>
    cases hadv
    exact ⟨rfl, rfl⟩

theorem postFailed_history (hpost : postFailed w c = some (w', new)) :
    w'.started = w.started ∧ w'.overlapped = w.overlapped := by
  cases c with
  | stopPost | repostStop | postResult | postDeferred =>
    cases hpost
    exact ⟨rfl, rfl⟩
  | postDeferredAll mode ops =>
    cases ops with
    | nil => cases hpost
    | cons =>
      cases hpost
      exact ⟨rfl, rfl⟩
  | _ => cases hpost

theorem moved_deliver {calls : List Call} {op' lastError bytes : Nat} (hkernel : op' ∈ w.kernel)
    (hw : w' = { w with kernel := w.kernel.erase op' }.push ⟨some op', .zero, lastError, bytes⟩) :
    Moved Refused op w w' (places op o w calls) (places op o w' calls) := by
  subst hw
  by_cases hop : op' = op
  · subst hop
    have hcount : w.kernel.count op' = (w.kernel.erase op').count op' + 1 := by
      rw [List.count_erase_self, Nat.sub_add_cancel (List.count_pos_iff.mpr hkernel)]
    have hplaces : places op' o w calls =
        { places op' o { w with kernel := w.kernel.erase op' } calls with
          kernel := (w.kernel.erase op').count op' + 1 } := by
      rw [← hcount]
      rfl
    refine .move rfl rfl ?_
    rw [hplaces, places_push, if_pos rfl]
    exact .deliver (places op' o { w with kernel := w.kernel.erase op' } calls)
  · refine .quiet rfl rfl ?_
    have hcount : (w.kernel.erase op').count op = w.kernel.count op :=
      List.count_erase_of_ne (Ne.symm hop)
    rw [places_push]
    simp only [Option.some.injEq, if_neg hop]
    exact congrArg (fun n => { places op o w calls with kernel := n }) hcount

theorem perform_moved {ι : Type u} {i : ι} {calls calls' : List Call} {a : Action}
    (hrefused : a = .postFails → calls.head? = some (.postResult op) → Refused)
    (hperform : perform outcome i w calls a = some (w', calls')) :
    Moved Refused op w w' (places op o w calls) (places op o w' calls') := by
  cases perform_performs hperform with
  | stop | run mode | workFinished => exact .quiet rfl rfl (places_cons ..)
  | restart | workStarted | timerExpired => exact .quiet rfl rfl rfl
  | initiate op' _ hnew =>
    refine .initiate op' hnew rfl rfl ?_
    split
    · rename_i hop
      subst hop
      exact places_initiate calls
    · rename_i hop
      exact places_initiate_other hop calls
  | post op' _ hnew =>
    have hplaces := places_cons op o w (.postDeferred op') calls
    refine .defer op' hnew rfl rfl ?_
    split
    · rename_i hop
      simp only [Places.add, Call.defers, if_pos hop] at hplaces
      exact hplaces
    · rename_i hop
      simp only [Places.add, Call.defers, if_neg hop] at hplaces
      exact hplaces
  | step rest hadv =>
    obtain ⟨hstarted, hoverlapped⟩ := advance_history hadv
    exact .rest hstarted hoverlapped (advance_move hadv)
  | throws mode op' rest => exact .quiet rfl rfl (by simp)
  | postFails rest hpost =>
    obtain ⟨hstarted, hoverlapped⟩ := postFailed_history hpost
    refine .rest hstarted hoverlapped (postFailed_move (fun hc => ?_) hpost)
    exact hrefused rfl (congrArg some hc)
  | timeout mode rest =>
    split
    · exact .quiet rfl rfl (by simp)
    · exact .quiet rfl rfl (places_cons op o w (.getQueued _) _).symm
  | getQueuedFails mode rest => exact .quiet rfl rfl (places_cons op o w (.getQueued _) _).symm
  | deliver op' _ houtcome hkernel => exact moved_deliver hkernel rfl
  | timerReady op' _ hnew =>
    have hcount :
        (w.timers ++ [op']).count op = w.timers.count op + if op' = op then 1 else 0 := by
      simp [List.count_append, List.count_singleton]
    have hplaces := congrArg (fun n => { places op o w calls with
      deferred := o.defers + load (Call.defers op) calls + (w.completedOps.count op + n) }) hcount
    refine .defer op' hnew rfl rfl ?_
    split
    · rename_i hop
      rw [if_pos hop] at hplaces
      exact hplaces
    · rename_i hop
      rw [if_neg hop] at hplaces
      exact hplaces
  | wake => exact .quiet rfl rfl (places_push ..)

end Advance

/-! ### Overlapped operations -/

section Accounts

variable {w w' : World} {op : Nat} {o o' : Others} {calls calls' : List Call}

theorem Accounted.moved (h : Accounted op o w calls)
    (hm : Moved False op w w' (places op o w calls) (places op o' w' calls')) :
    Accounted op o' w' calls' := by
  cases hm with
  | move started overlapped hmove =>
    refine ⟨fun hn => ?_, fun ho => ?_⟩
    · have hempty := h.absent (started ▸ hn)
      rw [hmove.empty hempty]
      exact hempty
    · obtain ⟨hs, hu⟩ := h.unique (overlapped ▸ ho)
      exact ⟨started ▸ hs, hmove.unique hu⟩
  | initiate op' hnew started overlapped hplaces =>
    by_cases hop : op' = op
    · subst hop
      rw [if_pos rfl] at hplaces
      have hmem : op' ∈ w'.started := by simp [started]
      refine ⟨fun hn => absurd hmem hn, fun _ => ⟨hmem, ?_⟩⟩
      rw [hplaces]
      exact (h.absent hnew).start
    · rw [if_neg hop] at hplaces
      refine ⟨fun hn => ?_, fun ho => ?_⟩
      · rw [hplaces]
        exact h.absent fun hs => hn (by simp [started, hs])
      · rw [overlapped, List.mem_append, List.mem_singleton] at ho
        obtain ⟨hs, hu⟩ := h.unique (ho.resolve_right (Ne.symm hop))
        rw [hplaces]
        exact ⟨by simp [started, hs], hu⟩
  | defer op' hnew started overlapped hplaces =>
    by_cases hop : op' = op
    · subst hop
      refine ⟨fun hn => absurd (by simp [started]) hn, fun ho => ?_⟩
      exact absurd (h.unique (overlapped ▸ ho)).1 hnew
    · rw [if_neg hop] at hplaces
      refine ⟨fun hn => ?_, fun ho => ?_⟩
      · rw [hplaces]
        exact h.absent fun hs => hn (by simp [started, hs])
      · obtain ⟨hs, hu⟩ := h.unique (overlapped ▸ ho)
        rw [hplaces]
        exact ⟨by simp [started, hs], hu⟩

end Accounts

/-! ### The threads together -/

section Threads

variable {ι : Type u} [Fintype ι] [DecidableEq ι] {outcome : Nat → Outcome} {s s' : State ι}
variable {op : Nat}

/-- What all threads have of an operation. -/
def everyone (s : State ι) (op : Nat) : Others where
  starts := s.weight (Call.starts op)
  pends := s.weight (Call.pends op)
  holds := s.weight (Call.holds op)
  completes := s.weight (Call.completes op)
  defers := s.weight (Call.defers op)

/-- What all threads but one have of an operation. -/
def others (s : State ι) (i : ι) (op : Nat) : Others where
  starts := s.weight (Call.starts op) - load (Call.starts op) (s.part i)
  pends := s.weight (Call.pends op) - load (Call.pends op) (s.part i)
  holds := s.weight (Call.holds op) - load (Call.holds op) (s.part i)
  completes := s.weight (Call.completes op) - load (Call.completes op) (s.part i)
  defers := s.weight (Call.defers op) - load (Call.defers op) (s.part i)

theorem weight_sub_load (φ : Call → Nat) (s : State ι) (i : ι) (w : World) (calls : List Call) :
    s.weight φ - load φ (s.part i) + load φ calls = (s.set i (w, calls)).weight φ := by
  have := weight_set (s := s) φ i w calls
  have := load_le_weight (s := s) φ i
  omega

theorem places_everyone (s : State ι) (i : ι) (w : World) (calls : List Call) (op : Nat) :
    places op (everyone (s.set i (w, calls)) op) w [] = places op (others s i op) w calls := by
  simp only [places, everyone, others, weight_sub_load _ s i w calls, load_nil, Nat.add_zero]

theorem places_thread (s : State ι) (i : ι) (op : Nat) :
    places op (everyone s op) s.shared [] = places op (others s i op) s.shared (s.part i) := by
  have := places_everyone s i s.shared (s.part i) op
  rwa [set_part] at this

/-- What an action of one thread does to an operation. -/
theorem step_moved (Refused : Prop) (op : Nat) {a : ι × Action}
    (hrefused : a.2 = .postFails → (s.part a.1).head? = some (.postResult op) → Refused)
    (hstep : step outcome s a = some s') :
    Moved Refused op s.shared s'.shared (places op (everyone s op) s.shared [])
      (places op (everyone s' op) s'.shared []) := by
  obtain ⟨w, calls, hperform, rfl⟩ := step_eq_some.mp hstep
  rw [places_thread s a.1, shared_set, places_everyone]
  exact perform_moved hrefused hperform

/-- The system has no room for a packet with a result, and the result is lost. -/
def losesResult (s : State ι) (a : ι × Action) : Bool :=
  a.2 = .postFails && postsResult (s.part a.1)

theorem step_accounted {a : ι × Action} (hresult : losesResult s a = false)
    (h : Accounted op (everyone s op) s.shared []) (hstep : step outcome s a = some s') :
    Accounted op (everyone s' op) s'.shared [] := by
  refine h.moved (step_moved False op (fun hfails hhead => ?_) hstep)
  obtain ⟨rest, hrest⟩ := List.head?_eq_some_iff.mp hhead
  simp [losesResult, hfails, hrest, postsResult] at hresult

theorem initial_accounted : Accounted op (everyone (initial : State ι) op) World.construct [] where
  absent _ := by
    have hweight (φ : Call → Nat) : (initial : State ι).weight φ = 0 :=
      (total_eq_zero _ _).mpr fun _ => rfl
    simp only [places, everyone, hweight]
    exact ⟨rfl, rfl⟩
  unique ho := by cases ho

theorem reachable_accounted
    (h : Reachable (step outcome) (fun s a => losesResult s a = false) initial s) :
    Accounted op (everyone s op) s.shared [] :=
  h.invariant (I := fun s => Accounted op (everyone s op) s.shared []) initial_accounted
    fun hinv hresult hstep => step_accounted hresult hinv hstep

end Threads

end Asio.Detail.WinIocpIoContext
