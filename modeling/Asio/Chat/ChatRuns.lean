import Mathlib.Algebra.Order.BigOperators.Group.Finset
import Mathlib.Data.List.Nodup
import Mathlib.Order.WellFounded
import Asio.Chat.ChatServer

/-! What holds in every run of the chat: the clients print pieces of one log, in which the messages
of each of them stand in the order in which it wrote them, and nothing is lost. -/

universe u

namespace Asio.Chat

open Lib.Transition Lib.Transmission

/-! ### A connection -/

section Connection

variable {c c' : Connection} {x : ChatSession} {op : Operation} {call : Call} {msg : ChatMessage}
variable {isClient member member' : Prop} {delivered taken : List ChatMessage}

def Connection.writer (c : Connection) : Writer := c.session.elim .empty ChatSession.writer

def Connection.reading (c : Connection) : Reading := c.session.elim .header ChatSession.reading

def Call.delivers : Call → List ChatMessage
  | .deliver msg => [msg]
  | _ => []

/-- What is known of a connection, if its session is a member of the room or not, `delivered` has
been delivered and `taken` is what the room has been given by this session. -/
structure Linked (isClient member : Prop) (delivered taken : List ChatMessage) (c : Connection) :
    Prop where
  joinedAt_le : ∀ x ∈ c.session, x.joinedAt ≤ delivered.length
  member_session : member → ∃ x ∈ c.session, x.reading ≠ .stopped ∧ x.writer.failed = false
  running : c.client.closed = false →
    c.client.writer.failed = false ∧ c.client.reading ≠ .stopped
  down : ∃ given part, Carries ChatMessage.data given c.writer.writeMsgs c.writer.sent
      c.client.printed part c.down ∧ c.client.reading.Holds part ∧
    given <+: c.owed delivered ∧ (member → given = c.owed delivered)
  up : isClient → ∃ part, Carries ChatMessage.data c.client.wrote c.client.writer.writeMsgs
      c.client.writer.sent taken part c.up ∧ c.reading.Holds part

theorem linked_initial :
    Linked isClient False [] [] ⟨none, .initial, [], []⟩ where
  joinedAt_le := nofun
  member_session := False.elim
  running _ := ⟨rfl, nofun⟩
  down := ⟨[], [], .nothing, rfl, List.prefix_rfl, fun _ => rfl⟩
  up _ := ⟨[], .nothing, rfl⟩

/-- What the room is given does not change what is owed to those who are not members. -/
theorem owed_append (h : ∀ x ∈ c.session, x.joinedAt ≤ delivered.length)
    (hsession : c.session ≠ none) (msg : ChatMessage) :
    c.owed (delivered ++ [msg]) = c.owed delivered ++ [msg] := by
  obtain ⟨x, hx⟩ := Option.ne_none_iff_exists'.mp hsession
  have hle := h x hx
  simp only [Connection.owed, hx, Option.elim_some]
  exact List.drop_append_of_le_length (by omega)

theorem owed_isPrefix (h : ∀ x ∈ c.session, x.joinedAt ≤ delivered.length) (msg : ChatMessage) :
    c.owed delivered <+: c.owed (delivered ++ [msg]) := by
  by_cases hsession : c.session = none
  · simp [Connection.owed, hsession]
  · rw [owed_append h hsession]
    exact List.prefix_append _ _

theorem Linked.elsewhere (h : Linked isClient False delivered taken c) (msg : ChatMessage) :
    Linked isClient False (delivered ++ [msg]) taken c where
  joinedAt_le x hx := (h.joinedAt_le x hx).trans (by simp)
  member_session := False.elim
  running := h.running
  down := by
    obtain ⟨given, part, hcarries, hholds, hgiven, -⟩ := h.down
    exact ⟨given, part, hcarries, hholds, hgiven.trans (owed_isPrefix h.joinedAt_le msg),
      False.elim⟩
  up := h.up

/-- A message is delivered to a member of the room. -/
theorem Linked.deliver (h : Linked isClient True delivered taken c) (msg : ChatMessage) :
    Linked isClient True (delivered ++ [msg]) taken (c.deliver msg) := by
  obtain ⟨x, hx, hreading, hfailed⟩ := h.member_session trivial
  have hsession : c.session = some x := hx
  have hdeliver : c.deliver msg =
      { c with session := some { x with writer := x.writer.deliver msg } } := by
    rw [Connection.deliver, hsession, Option.map_some]
  rw [hdeliver]
  refine ⟨?_, fun _ => ⟨_, rfl, hreading, ?_⟩, h.running, ?_, ?_⟩
  · rintro _ ⟨⟩
    exact (h.joinedAt_le x hx).trans (by simp)
  · exact (Writer.deliver_failed _ _).trans hfailed
  · obtain ⟨given, part, hcarries, hholds, -, hgiven⟩ := h.down
    have howed := owed_append h.joinedAt_le (by simp [hsession]) msg
    rw [← hgiven trivial] at howed
    have hnew : Connection.owed { c with session := some { x with writer := x.writer.deliver msg } }
        (delivered ++ [msg]) = given ++ [msg] := by
      rw [← howed, Connection.owed, Connection.owed, hsession]
      rfl
    rw [Connection.writer, hsession] at hcarries
    exact ⟨given ++ [msg], part, Writer.deliver_carries msg hcarries, hholds,
      hnew ▸ List.prefix_rfl, fun _ => hnew.symm⟩
  · intro hclient
    obtain ⟨part, hcarries, hholds⟩ := h.up hclient
    rw [Connection.reading, hsession] at hholds
    exact ⟨part, hcarries, hholds⟩

theorem Linked.setSession {reading : Reading} {writer : Writer} {up down : List Char}
    {taken' : List ChatMessage} (h : Linked isClient member delivered taken c)
    (hx : c.session = some x)
    (hmember : member' → member ∧ (x.reading ≠ .stopped → reading ≠ .stopped) ∧
      (x.writer.failed = false → writer.failed = false))
    (hdown : ∀ given part, Carries ChatMessage.data given x.writer.writeMsgs x.writer.sent
        c.client.printed part c.down →
      Carries ChatMessage.data given writer.writeMsgs writer.sent c.client.printed part down)
    (hup : ∀ part, Carries ChatMessage.data c.client.wrote c.client.writer.writeMsgs
        c.client.writer.sent taken part c.up → x.reading.Holds part →
      ∃ part', reading.Holds part' ∧ Carries ChatMessage.data c.client.wrote
        c.client.writer.writeMsgs c.client.writer.sent taken' part' up) :
    Linked isClient member' delivered taken' { c with
      session := some { x with reading := reading, writer := writer }, up := up, down := down } where
  joinedAt_le := by
    rintro _ ⟨⟩
    exact h.joinedAt_le x hx
  member_session := by
    intro hm
    obtain ⟨hm, hreading, hfailed⟩ := hmember hm
    obtain ⟨y, hy, hr, hf⟩ := h.member_session hm
    obtain rfl : x = y := Option.some_inj.mp (hx.symm.trans hy)
    exact ⟨_, rfl, hreading hr, hfailed hf⟩
  running := h.running
  down := by
    obtain ⟨given, part, hcarries, hholds, hgiven, hall⟩ := h.down
    rw [Connection.writer, hx] at hcarries
    rw [Connection.owed, hx] at hgiven hall
    exact ⟨given, part, hdown given part hcarries, hholds, hgiven, fun hm => hall (hmember hm).1⟩
  up := by
    intro hclient
    obtain ⟨part, hcarries, hholds⟩ := h.up hclient
    rw [Connection.reading, hx] at hholds
    obtain ⟨part', hholds, hcarries⟩ := hup part hcarries hholds
    exact ⟨part', hcarries, hholds⟩

/-- The handlers of a session, which may have called the room. -/
theorem Linked.stepSession (h : Linked isClient member delivered taken c) (hx : c.session = some x)
    (hstep : c.stepSession x op = some (c', call)) :
    Linked isClient (member ∧ call ≠ .leave) delivered (taken ++ call.delivers) c' := by
  cases op with
  | received =>
    obtain ⟨⟨reading, msg, rest⟩, hcomplete, heq⟩ := Option.map_eq_some_iff.mp hstep
    simp only [Prod.mk.injEq] at heq
    obtain ⟨rfl, rfl⟩ := heq
    refine h.setSession hx ?_ (fun _ _ hdown => hdown) fun part hcarries hholds => ?_
    · rintro ⟨hm, hcall⟩
      refine ⟨hm, fun _ => ?_, id⟩
      rintro rfl
      cases msg with
      | none => exact hcall rfl
      | some msg => cases Reading.complete_some hcomplete
    · obtain ⟨part', hholds, hcarries⟩ := Reading.complete_carries hcarries hholds hcomplete
      refine ⟨part', hholds, ?_⟩
      cases msg with
      | none =>
        dsimp only
        split <;> exact hcarries
      | some msg => exact hcarries
  | readFailed =>
    simp only [Connection.stepSession] at hstep
    split at hstep
    · cases hstep
    · cases hstep
      refine h.setSession hx ?_ (fun _ _ hdown => hdown) fun part hcarries _ => ?_
      · exact fun hm => absurd rfl hm.2
      · exact ⟨part, trivial, by simpa [Call.delivers] using hcarries⟩
  | transferred k =>
    obtain ⟨⟨writer, bytes⟩, htransfer, heq⟩ := Option.map_eq_some_iff.mp hstep
    simp only [Prod.mk.injEq] at heq
    obtain ⟨rfl, rfl⟩ := heq
    refine h.setSession hx ?_ (fun _ _ hdown => Writer.transfer_carries hdown htransfer)
      fun part hcarries hholds => ⟨part, hholds, ?_⟩
    · exact fun hm => ⟨hm.1, id, fun hfailed => (Writer.transfer_failed htransfer).trans hfailed⟩
    · simpa [Call.delivers] using hcarries
  | written =>
    obtain ⟨writer, hwritten, heq⟩ := Option.map_eq_some_iff.mp hstep
    simp only [Prod.mk.injEq] at heq
    obtain ⟨rfl, rfl⟩ := heq
    refine h.setSession hx ?_ (fun _ _ hdown => Writer.written_carries hdown hwritten)
      fun part hcarries hholds => ⟨part, hholds, ?_⟩
    · exact fun hm => ⟨hm.1, id, fun hfailed => (Writer.written_failed hwritten).trans hfailed⟩
    · simpa [Call.delivers] using hcarries
  | writeFailed =>
    obtain ⟨writer, hfail, heq⟩ := Option.map_eq_some_iff.mp hstep
    simp only [Prod.mk.injEq] at heq
    obtain ⟨rfl, rfl⟩ := heq
    obtain ⟨-, ⟨⟩⟩ := Option.ite_none_right_eq_some.mp hfail
    refine h.setSession hx ?_ (fun _ _ hdown => hdown) fun part hcarries hholds =>
      ⟨part, hholds, ?_⟩
    · exact fun hm => absurd rfl hm.2
    · simpa [Call.delivers] using hcarries

theorem Linked.setClient {client : ChatClient} {up down : List Char}
    (h : Linked isClient member delivered taken c)
    (hrunning : client.closed = false → client.writer.failed = false ∧ client.reading ≠ .stopped)
    (hdown : ∀ given part, Carries ChatMessage.data given c.writer.writeMsgs c.writer.sent
        c.client.printed part c.down → c.client.reading.Holds part →
      ∃ part', client.reading.Holds part' ∧ Carries ChatMessage.data given c.writer.writeMsgs
        c.writer.sent client.printed part' down)
    (hup : isClient → ∀ part, Carries ChatMessage.data c.client.wrote c.client.writer.writeMsgs
        c.client.writer.sent taken part c.up →
      Carries ChatMessage.data client.wrote client.writer.writeMsgs client.writer.sent taken part
        up) :
    Linked isClient member delivered taken { c with client := client, up := up, down := down } where
  joinedAt_le := h.joinedAt_le
  member_session := h.member_session
  running := hrunning
  down := by
    obtain ⟨given, part, hcarries, hholds, hgiven⟩ := h.down
    obtain ⟨part', hholds, hcarries⟩ := hdown given part hcarries hholds
    exact ⟨given, part', hcarries, hholds, hgiven⟩
  up := by
    intro hclient
    obtain ⟨part, hcarries, hholds⟩ := h.up hclient
    exact ⟨part, hup hclient part hcarries, hholds⟩

theorem Reading.Holds.abort {reading : Reading} {part : List Char} (h : reading.Holds part) :
    reading.abort.Holds part := by
  cases reading with
  | header => trivial
  | body msgHeader =>
    rw [Reading.abort]
    split
    · exact h
    · trivial
  | stopped => trivial

/-- The handlers of a client. -/
theorem Linked.stepClient (h : Linked isClient member delivered taken c)
    (hstep : c.stepClient op = some c') : Linked isClient member delivered taken c' := by
  cases op with
  | received =>
    simp only [Connection.stepClient, Option.ite_none_right_eq_some] at hstep
    obtain ⟨⟨reading, msg, rest⟩, hcomplete, rfl⟩ := Option.map_eq_some_iff.mp hstep.2
    refine h.setClient ?_ ?_ fun _ _ hup => hup
    · intro hclosed
      simp only [Bool.or_eq_false_iff, decide_eq_false_iff_not] at hclosed
      obtain ⟨hclosed, hreading⟩ := hclosed
      refine ⟨(h.running hclosed).1, ?_⟩
      simpa [hclosed] using hreading
    · intro given part hcarries hholds
      obtain ⟨part', hholds, hcarries⟩ := Reading.complete_carries hcarries hholds hcomplete
      refine ⟨part', ?_, hcarries⟩
      dsimp only
      split
      · exact hholds.abort
      · exact hholds
  | readFailed =>
    simp only [Connection.stepClient] at hstep
    split at hstep
    · cases hstep
    · cases hstep
      exact h.setClient (by rintro ⟨⟩) (fun _ part hcarries _ => ⟨part, trivial, hcarries⟩)
        fun _ _ hup => hup
  | transferred k =>
    simp only [Connection.stepClient] at hstep
    split at hstep
    · cases hstep
    · obtain ⟨⟨writer, bytes⟩, htransfer, rfl⟩ := Option.map_eq_some_iff.mp hstep
      refine h.setClient (fun hclosed => ?_) (fun _ part hcarries hholds =>
        ⟨part, hholds, hcarries⟩) fun _ _ hup => Writer.transfer_carries hup htransfer
      have hrunning := h.running hclosed
      exact ⟨(Writer.transfer_failed htransfer).trans hrunning.1, hrunning.2⟩
  | written =>
    obtain ⟨writer, hwritten, rfl⟩ := Option.map_eq_some_iff.mp hstep
    refine h.setClient (fun hclosed => ?_) (fun _ part hcarries hholds =>
      ⟨part, hholds, hcarries⟩) fun _ _ hup => Writer.written_carries hup hwritten
    have hrunning := h.running hclosed
    exact ⟨(Writer.written_failed hwritten).trans hrunning.1, hrunning.2⟩
  | writeFailed =>
    obtain ⟨writer, hfail, rfl⟩ := Option.map_eq_some_iff.mp hstep
    obtain ⟨-, ⟨⟩⟩ := Option.ite_none_right_eq_some.mp hfail
    exact h.setClient (by rintro ⟨⟩) (fun _ part hcarries hholds => ⟨part, hholds, hcarries⟩)
      fun _ _ hup => hup

theorem Linked.connect (h : Linked isClient member delivered taken c)
    (hstep : c.connect = some c') : Linked isClient member delivered taken c' := by
  obtain ⟨-, ⟨⟩⟩ := Option.ite_none_left_eq_some.mp hstep
  exact h.setClient h.running (fun _ part hcarries hholds => ⟨part, hholds, hcarries⟩)
    fun _ _ hup => hup

theorem Linked.write (h : Linked isClient member delivered taken c) (line : List Char) :
    Linked isClient member delivered taken (c.write line) := by
  refine h.setClient (fun hclosed => ?_) (fun _ part hcarries hholds => ⟨part, hholds, hcarries⟩)
    fun _ _ hup => Writer.deliver_carries _ hup
  have hrunning := h.running hclosed
  refine ⟨?_, hrunning.2⟩
  exact (Writer.deliver_failed _ _).trans hrunning.1

theorem Linked.close (h : Linked isClient member delivered taken c) :
    Linked isClient member delivered taken c.close :=
  h.setClient (by rintro ⟨⟩) (fun _ part hcarries hholds => ⟨part, hholds, hcarries⟩)
    fun _ _ hup => hup

/-- The other end, which is no client, has sent something. -/
theorem Linked.peerSent (h : Linked isClient member delivered taken c) (hclient : ¬ isClient)
    (bytes : List Char) :
    Linked isClient member delivered taken { c with up := c.up ++ bytes } :=
  h.setClient h.running (fun _ part hcarries hholds => ⟨part, hholds, hcarries⟩)
    fun hc => absurd hc hclient

/-- A new session joins the room, and is given what is recent. -/
theorem Linked.start (h : Linked isClient member delivered taken c) (hx : c.session = none)
    {recentMsgs : List ChatMessage}
    (hrecent : recentMsgs = delivered.drop (delivered.length - maxRecentMsgs)) :
    Linked isClient True delivered taken { c with
      session := some {
        reading := .header
        writer := recentMsgs.foldl Writer.deliver .empty
        joinedAt := delivered.length } } where
  joinedAt_le := by
    rintro _ ⟨⟩
    exact Nat.le_refl _
  member_session _ := ⟨_, rfl, nofun, Writer.deliverAll_failed _ _⟩
  running := h.running
  down := by
    obtain ⟨given, part, hcarries, hholds, hgiven, -⟩ := h.down
    rw [Connection.owed, hx, Option.elim_none, List.prefix_nil] at hgiven
    rw [Connection.writer, hx, Option.elim_none, hgiven] at hcarries
    exact ⟨recentMsgs, part, Writer.deliverAll_carries recentMsgs hcarries, hholds,
      hrecent ▸ List.prefix_rfl, fun _ => hrecent⟩
  up := by
    intro hclient
    obtain ⟨part, hcarries, hholds⟩ := h.up hclient
    rw [Connection.reading, hx] at hholds
    exact ⟨part, hcarries, hholds⟩

/-- Everything that is owed to a member of the room has been printed, if no operation goes on. -/
theorem Linked.printed_eq (h : Linked isClient member delivered taken c) (hm : member)
    (hconnected : c.client.connected = true) (hclosed : c.client.closed = false)
    (hsession : ∀ x ∈ c.session, ∀ op : Operation, op.Proceeds → c.stepSession x op = none)
    (hquiet : ∀ op : Operation, op.Proceeds → c.stepClient op = none) :
    c.client.printed = c.owed delivered := by
  obtain ⟨x, hx, -, hfailed⟩ := h.member_session hm
  have hwriter : c.writer = x.writer := by
    have hsome : c.session = some x := hx
    rw [Connection.writer, hsome, Option.elim_some]
  obtain ⟨given, part, hcarries, hholds, -, hgiven⟩ := h.down
  have hnil : c.writer.writeMsgs = [] := by
    refine Writer.writeMsgs_eq_nil hcarries (hwriter ▸ hfailed) (fun k => ?_) ?_
    · rw [hwriter]
      exact Option.map_eq_none_iff.mp (hsession x hx (.transferred k) trivial)
    · rw [hwriter]
      exact Option.map_eq_none_iff.mp (hsession x hx .written trivial)
  rw [hnil] at hcarries
  have hreceived := hquiet .received trivial
  simp only [Connection.stepClient, hconnected, if_true, Option.map_eq_none_iff] at hreceived
  exact (Reading.taken_eq hcarries hholds (h.running hclosed).2 hreceived).trans (hgiven hm)

theorem Linked.taken_eq (h : Linked isClient member delivered taken c) (hm : member)
    (hclient : isClient) (hclosed : c.client.closed = false)
    (hsession : ∀ x ∈ c.session, ∀ op : Operation, op.Proceeds → c.stepSession x op = none)
    (hquiet : ∀ op : Operation, op.Proceeds → c.stepClient op = none) :
    taken = c.client.wrote := by
  obtain ⟨x, hx, hreading, -⟩ := h.member_session hm
  have hsome : c.session = some x := hx
  obtain ⟨part, hcarries, hholds⟩ := h.up hclient
  rw [Connection.reading, hsome, Option.elim_some] at hholds
  have hnil : c.client.writer.writeMsgs = [] := by
    refine Writer.writeMsgs_eq_nil hcarries (h.running hclosed).1 (fun k => ?_) ?_
    · have htransferred := hquiet (.transferred k) trivial
      simpa [Connection.stepClient, hclosed] using htransferred
    · exact Option.map_eq_none_iff.mp (hquiet .written trivial)
  rw [hnil] at hcarries
  exact Reading.taken_eq hcarries hholds hreading
    (Option.map_eq_none_iff.mp (hsession x hx .received trivial))

end Connection

/-! ### The room -/

theorem trim_eq (msgs : List ChatMessage) :
    trim msgs = msgs.drop (msgs.length - maxRecentMsgs) := by
  induction msgs with
  | nil => rfl
  | cons msg msgs ih =>
    rw [trim]
    split
    · rename_i hgreat
      have hsub : (msg :: msgs).length - maxRecentMsgs = msgs.length - maxRecentMsgs + 1 := by
        rw [List.length_cons] at hgreat ⊢
        omega
      rw [ih, hsub, List.drop_succ_cons]
    · rename_i hsmall
      rw [Nat.sub_eq_zero_of_le (Nat.not_lt.mp hsmall), List.drop_zero]

theorem trim_recent (msgs : List ChatMessage) (msg : ChatMessage) :
    trim (msgs.drop (msgs.length - maxRecentMsgs) ++ [msg]) =
      (msgs ++ [msg]).drop ((msgs ++ [msg]).length - maxRecentMsgs) := by
  have happend : msgs.drop (msgs.length - maxRecentMsgs) ++ [msg] =
      (msgs ++ [msg]).drop (msgs.length - maxRecentMsgs) :=
    (List.drop_append_of_le_length (Nat.sub_le _ _)).symm
  rw [trim_eq, happend, List.drop_drop]
  generalize maxRecentMsgs = n
  rw [List.length_drop, List.length_append, List.length_singleton]
  congr 1
  omega

section Room

variable {ι : Type u} [DecidableEq ι] {isClient : ι → Bool} {s s' : State ι} {i j : ι}
variable {taken : ι → List ChatMessage} {t : List ChatMessage} {c : Connection}
variable {es : List (Event ι)}

theorem foldl_deliverTo {ps : List ι} (hps : ps.Nodup) (msg : ChatMessage)
    (connections : ι → Connection) (j : ι) : ps.foldl (State.deliverTo msg) connections j =
      if j ∈ ps then (connections j).deliver msg else connections j := by
  induction ps generalizing connections with
  | nil => rfl
  | cons p ps ih =>
    obtain ⟨hp, hps⟩ := List.nodup_cons.mp hps
    rw [List.foldl_cons, ih hps, State.deliverTo]
    by_cases hj : j = p
    · subst hj
      simp [hp]
    · simp [hj]

theorem deliveredFrom_deliver (s : State ι) (i : ι) (msg : ChatMessage) :
    (s.deliver i msg).deliveredFrom =
      Function.update s.deliveredFrom i (s.deliveredFrom i ++ [msg]) := by
  funext j
  by_cases hj : j = i
  · subst hj
    simp [State.deliveredFrom, State.deliver]
  · simp [State.deliveredFrom, State.deliver, hj, Ne.symm hj]

/-- What is known of the chat, when the room has been given `taken` by each session. -/
structure Inv (isClient : ι → Bool) (s : State ι) (taken : ι → List ChatMessage) : Prop where
  nodup : s.participants.Nodup
  recent : s.recentMsgs = s.delivered.drop (s.delivered.length - maxRecentMsgs)
  linked : ∀ i, Linked (isClient i = true) (i ∈ s.participants) s.delivered (taken i)
    (s.connections i)

theorem inv_initial : Inv isClient (initial : State ι) initial.deliveredFrom where
  nodup := List.nodup_nil
  recent := rfl
  linked i := by
    have hmember : (i ∈ (initial : State ι).participants) = False := eq_false List.not_mem_nil
    rw [hmember]
    exact linked_initial

theorem Inv.setConnection (h : Inv isClient s taken)
    (hc : Linked (isClient i = true) (i ∈ s.participants) s.delivered t c) :
    Inv isClient (s.setConnection i c) (Function.update taken i t) where
  nodup := h.nodup
  recent := h.recent
  linked j := by
    by_cases hj : j = i
    · subst hj
      simpa using hc
    · simpa [hj] using h.linked j

theorem Inv.setConnection_same (h : Inv isClient s taken)
    (hc : Linked (isClient i = true) (i ∈ s.participants) s.delivered (taken i) c) :
    Inv isClient (s.setConnection i c) taken := by
  simpa using h.setConnection hc

theorem Inv.leave (h : Inv isClient s taken)
    (hc : Linked (isClient i = true) False s.delivered (taken i) c) :
    Inv isClient ((s.setConnection i c).leave i) taken where
  nodup := h.nodup.erase i
  recent := h.recent
  linked j := by
    by_cases hj : j = i
    · subst hj
      have hleft : (j ∈ ((s.setConnection j c).leave j).participants) = False :=
        eq_false h.nodup.not_mem_erase
      rw [hleft]
      simpa using hc
    · have hsame : (j ∈ ((s.setConnection i c).leave i).participants) = (j ∈ s.participants) :=
        propext (List.mem_erase_of_ne hj)
      rw [hsame]
      simpa [hj] using h.linked j

theorem Inv.deliver {msg : ChatMessage}
    (h : Inv isClient s (Function.update s.deliveredFrom i (s.deliveredFrom i ++ [msg]))) :
    Inv isClient (s.deliver i msg) (s.deliver i msg).deliveredFrom := by
  rw [deliveredFrom_deliver]
  refine ⟨h.nodup, ?_, fun j => ?_⟩
  · rw [State.delivered_deliver, ← trim_recent, ← h.recent]
    rfl
  · rw [State.delivered_deliver]
    have hlinked := h.linked j
    have hconnection := foldl_deliverTo h.nodup msg s.connections j
    change Linked _ (j ∈ s.participants) _ _
      (s.participants.foldl (State.deliverTo msg) s.connections j)
    rw [hconnection]
    by_cases hj : j ∈ s.participants
    · rw [if_pos hj]
      simp only [hj] at hlinked ⊢
      exact hlinked.deliver msg
    · rw [if_neg hj]
      simp only [hj] at hlinked ⊢
      exact hlinked.elsewhere msg

theorem Inv.start (h : Inv isClient s taken) (hx : (s.connections i).session = none) :
    Inv isClient (s.start i) taken where
  nodup := List.Nodup.insert h.nodup
  recent := h.recent
  linked j := by
    rw [State.delivered_start]
    by_cases hj : j = i
    · subst hj
      have hlinked := (h.linked j).start hx h.recent
      have hlength : s.delivered.length = s.log.length := List.length_map _
      rw [hlength] at hlinked
      simpa [State.start] using hlinked
    · simpa [State.start, hj] using h.linked j

theorem Inv.stepSession {x : ChatSession} {op : Operation} {call : Call}
    (h : Inv isClient s s.deliveredFrom) (hx : (s.connections i).session = some x)
    (hstep : (s.connections i).stepSession x op = some (c, call)) :
    Inv isClient ((s.setConnection i c).call i call)
      ((s.setConnection i c).call i call).deliveredFrom := by
  have hc := (h.linked i).stepSession hx hstep
  cases call with
  | nothing => exact h.setConnection_same (by simpa [Call.delivers] using hc)
  | deliver msg => exact (h.setConnection (by simpa [Call.delivers] using hc)).deliver
  | leave => exact h.leave (by simpa [Call.delivers] using hc)

theorem Inv.step {e : Event ι} (h : Inv isClient s s.deliveredFrom)
    (hstep : step isClient s e = some s') : Inv isClient s' s'.deliveredFrom := by
  cases e with
  | accept i =>
    obtain ⟨hx, ⟨⟩⟩ := Option.ite_none_left_eq_some.mp hstep
    exact h.start (by simpa using hx)
  | connect i =>
    obtain ⟨c, hc, rfl⟩ := Option.map_eq_some_iff.mp hstep
    exact h.setConnection_same ((h.linked i).connect hc)
  | write i line =>
    cases hstep
    exact h.setConnection_same ((h.linked i).write line)
  | close i =>
    cases hstep
    exact h.setConnection_same (h.linked i).close
  | session i op =>
    obtain ⟨x, hx, hstep⟩ := Option.bind_eq_some_iff.mp hstep
    obtain ⟨⟨c, call⟩, hc, rfl⟩ := Option.map_eq_some_iff.mp hstep
    exact h.stepSession hx hc
  | client i op =>
    obtain ⟨c, hc, rfl⟩ := Option.map_eq_some_iff.mp hstep
    exact h.setConnection_same ((h.linked i).stepClient hc)
  | peerSent i bytes =>
    obtain ⟨hclient, ⟨⟩⟩ := Option.ite_none_left_eq_some.mp hstep
    exact h.setConnection_same ((h.linked i).peerSent hclient bytes)

theorem run_inv (h : exec (step isClient) initial es = some s) : Inv isClient s s.deliveredFrom :=
  exec_invariant (I := fun s => Inv isClient s s.deliveredFrom) h inv_initial
    fun _ hs hstep => hs.step hstep

/-- What the room has been given by a client is what it has written, in order, up to some
message. -/
theorem deliveredFrom_isPrefix (h : exec (step isClient) initial es = some s)
    (hclient : isClient i = true) : s.deliveredFrom i <+: (s.connections i).client.wrote := by
  obtain ⟨part, hcarries, -⟩ := ((run_inv h).linked i).up hclient
  exact hcarries.isPrefix prefixCode_data

theorem printed_isPrefix (h : exec (step isClient) initial es = some s) (i : ι) :
    (s.connections i).client.printed <+: (s.connections i).owed s.delivered := by
  obtain ⟨given, part, hcarries, -, hgiven, -⟩ := ((run_inv h).linked i).down
  exact (hcarries.isPrefix prefixCode_data).trans hgiven

/-- Whatever the connections do, a client has printed a piece of the one log, from the messages on
that were recent when its session joined the room, and in this piece the messages of each client
are those it has written, one after the other. -/
theorem printed_order (h : exec (step isClient) initial es = some s) (i : ι) :
    ∃ piece, (s.connections i).client.printed = piece.map Prod.snd ∧
      (∀ x ∈ (s.connections i).session, piece <+: s.log.drop (x.joinedAt - maxRecentMsgs)) ∧
      ∀ j, isClient j = true → (piece.filter fun sent => sent.1 = j).map Prod.snd <:+:
        (s.connections j).client.wrote := by
  have hprinted := printed_isPrefix h i
  cases hx : (s.connections i).session with
  | none =>
    rw [Connection.owed, hx, Option.elim_none, List.prefix_nil] at hprinted
    exact ⟨[], hprinted, nofun, fun j _ => List.nil_infix⟩
  | some x =>
    rw [Connection.owed, hx, Option.elim_some, State.delivered, ← List.map_drop] at hprinted
    obtain ⟨piece, hpiece, heq⟩ := List.prefix_map_iff.mp hprinted
    refine ⟨piece, heq, ?_, fun j hj => ?_⟩
    · rintro _ ⟨⟩
      exact hpiece
    · have hlog : piece <:+: s.log := hpiece.isInfix.trans (List.drop_suffix _ _).isInfix
      exact ((hlog.filter _).map _).trans (deliveredFrom_isPrefix h hj).isInfix

/-- A client is connected, and what it writes comes back to it. -/
def echoed : List (Event Unit) :=
  [.accept (), .connect (), .write () ['h', 'i'], .client () (.transferred 6), .client () .written,
    .session () .received, .session () .received, .session () (.transferred 2),
    .session () (.transferred 4), .session () .written, .client () .received, .client () .received]

theorem printed_order_echoed : ∃ s, exec (step fun _ => true) initial echoed = some s ∧
    ∃ piece : List (Unit × ChatMessage), (s.connections ()).client.printed = piece.map Prod.snd ∧
      (piece.filter fun sent => sent.1 = ()).map Prod.snd <:+: [.ofLine ['h', 'i']] := by
  obtain ⟨s, hs⟩ : ∃ s, exec (step fun _ => true) initial echoed = some s := ⟨_, rfl⟩
  obtain ⟨piece, hprinted, -, hwrote⟩ := printed_order hs ()
  have hline : (s.connections ()).client.wrote = [.ofLine ['h', 'i']] := by
    cases hs
    rfl
  exact ⟨s, hs, piece, hprinted, hline ▸ hwrote () rfl⟩

/-! ### Nothing is lost -/

theorem State.Quiet.stepSession (h : s.Quiet isClient) (i : ι) :
    ∀ x ∈ (s.connections i).session, ∀ op : Operation, op.Proceeds →
      (s.connections i).stepSession x op = none := by
  intro x hx op hop
  have hsome : (s.connections i).session = some x := hx
  have hnone := (h i op hop).1
  simpa [step, hsome] using hnone

theorem State.Quiet.stepClient (h : s.Quiet isClient) (i : ι) :
    ∀ op : Operation, op.Proceeds → (s.connections i).stepClient op = none :=
  fun op hop => Option.map_eq_none_iff.mp (h i op hop).2

/-- When nothing more happens, the room has been given all that was written by a client whose
session is in it, and a client whose session is in it has printed all that was delivered since, and
what was recent then. -/
theorem quiet_nothing_lost (h : exec (step isClient) initial es = some s)
    (hquiet : s.Quiet isClient) (hi : i ∈ s.participants)
    (hclosed : (s.connections i).client.closed = false) :
    ((s.connections i).client.connected = true →
      (s.connections i).client.printed = (s.connections i).owed s.delivered) ∧
    (isClient i = true → s.deliveredFrom i = (s.connections i).client.wrote) := by
  have hlinked := (run_inv h).linked i
  exact ⟨fun hconnected => hlinked.printed_eq hi hconnected hclosed (hquiet.stepSession i)
      (hquiet.stepClient i),
    fun hclient => hlinked.taken_eq hi hclient hclosed (hquiet.stepSession i)
      (hquiet.stepClient i)⟩

theorem quiet_nothing_lost_echoed : ∃ s, exec (step fun _ => true) initial echoed = some s ∧
    (s.connections ()).client.printed = [.ofLine ['h', 'i']] := by
  obtain ⟨s, hs⟩ : ∃ s, exec (step fun _ => true) initial echoed = some s := ⟨_, rfl⟩
  refine ⟨s, hs, ?_⟩
  have hquiet : s.Quiet fun _ => true := by
    cases hs
    intro i op hop
    cases op with
    | received => exact ⟨rfl, rfl⟩
    | transferred k => exact ⟨rfl, rfl⟩
    | written => exact ⟨rfl, rfl⟩
    | readFailed => exact hop.elim
    | writeFailed => exact hop.elim
  have hstate : () ∈ s.participants ∧ (s.connections ()).client.closed = false ∧
      (s.connections ()).client.connected = true ∧
      (s.connections ()).owed s.delivered = [.ofLine ['h', 'i']] := by
    cases hs
    decide
  obtain ⟨hmember, hclosed, hconnected, howed⟩ := hstate
  exact ((quiet_nothing_lost hs hquiet hmember hclosed).1 hconnected).trans howed

end Room

/-! ### What goes on comes to an end -/

section Load

variable {c c' : Connection} {x : ChatSession} {op : Operation} {call : Call}

def Connection.upLoad (c : Connection) : Nat :=
  c.client.writer.load + c.up.length + c.reading.load

def Connection.downLoad (c : Connection) : Nat :=
  c.writer.load + c.down.length + c.client.reading.load

theorem Reading.abort_load (reading : Reading) : reading.abort.load ≤ reading.load := by
  cases reading with
  | header => exact Nat.le_refl _
  | body msgHeader =>
    rw [Reading.abort]
    split
    · exact Nat.le_refl _
    · exact Nat.zero_le _
  | stopped => exact Nat.le_refl _

/-- A session reads on, or writes on and does not call the room. -/
theorem Connection.stepSession_load (hop : op.Proceeds) (hx : c.session = some x)
    (hstep : c.stepSession x op = some (c', call)) :
    c'.upLoad < c.upLoad ∨ c'.upLoad = c.upLoad ∧ c'.downLoad < c.downLoad ∧ call = .nothing := by
  have hreading : c.reading = x.reading := by rw [Connection.reading, hx, Option.elim_some]
  have hwriter : c.writer = x.writer := by rw [Connection.writer, hx, Option.elim_some]
  cases op with
  | received =>
    obtain ⟨⟨reading, msg, rest⟩, hcomplete, heq⟩ := Option.map_eq_some_iff.mp hstep
    simp only [Prod.mk.injEq] at heq
    obtain ⟨rfl, -⟩ := heq
    have hload := Reading.complete_load hcomplete
    left
    simp only [Connection.upLoad, hreading]
    simp only [Connection.reading, Option.elim_some]
    omega
  | transferred k =>
    obtain ⟨⟨writer, bytes⟩, htransfer, heq⟩ := Option.map_eq_some_iff.mp hstep
    simp only [Prod.mk.injEq] at heq
    obtain ⟨rfl, rfl⟩ := heq
    have hload := Writer.transfer_load htransfer
    refine .inr ⟨?_, ?_, rfl⟩
    · simp only [Connection.upLoad, hreading]
      rfl
    · simp only [Connection.downLoad, hwriter]
      simp only [Connection.writer, Option.elim_some, List.length_append]
      omega
  | written =>
    obtain ⟨writer, hwritten, heq⟩ := Option.map_eq_some_iff.mp hstep
    simp only [Prod.mk.injEq] at heq
    obtain ⟨rfl, rfl⟩ := heq
    have hload := Writer.written_load hwritten
    refine .inr ⟨?_, ?_, rfl⟩
    · simp only [Connection.upLoad, hreading]
      rfl
    · simp only [Connection.downLoad, hwriter]
      simp only [Connection.writer, Option.elim_some]
      omega
  | readFailed => exact hop.elim
  | writeFailed => exact hop.elim

/-- A client writes on, or reads on. -/
theorem Connection.stepClient_load (hop : op.Proceeds) (hstep : c.stepClient op = some c') :
    c'.upLoad < c.upLoad ∨ c'.upLoad = c.upLoad ∧ c'.downLoad < c.downLoad := by
  cases op with
  | received =>
    simp only [Connection.stepClient, Option.ite_none_right_eq_some] at hstep
    obtain ⟨⟨reading, msg, rest⟩, hcomplete, rfl⟩ := Option.map_eq_some_iff.mp hstep.2
    have hload := Reading.complete_load hcomplete
    have habort := reading.abort_load
    refine .inr ⟨rfl, ?_⟩
    simp only [Connection.downLoad, Connection.writer]
    split <;> omega
  | transferred k =>
    simp only [Connection.stepClient] at hstep
    split at hstep
    · cases hstep
    · obtain ⟨⟨writer, bytes⟩, htransfer, rfl⟩ := Option.map_eq_some_iff.mp hstep
      have hload := Writer.transfer_load htransfer
      left
      simp only [Connection.upLoad, Connection.reading, List.length_append]
      omega
  | written =>
    obtain ⟨writer, hwritten, rfl⟩ := Option.map_eq_some_iff.mp hstep
    have hload := Writer.written_load hwritten
    left
    simp only [Connection.upLoad, Connection.reading]
    omega
  | readFailed => exact hop.elim
  | writeFailed => exact hop.elim

theorem Connection.deliver_upLoad (c : Connection) (msg : ChatMessage) :
    (c.deliver msg).upLoad = c.upLoad := by
  cases hx : c.session with
  | none => simp [Connection.deliver, Connection.upLoad, Connection.reading, hx]
  | some x => simp [Connection.deliver, Connection.upLoad, Connection.reading, hx]

variable {ι : Type u} [DecidableEq ι]

theorem foldl_deliverTo_upLoad (ps : List ι) (msg : ChatMessage) (connections : ι → Connection)
    (j : ι) : (ps.foldl (State.deliverTo msg) connections j).upLoad = (connections j).upLoad := by
  induction ps generalizing connections with
  | nil => rfl
  | cons p ps ih =>
    rw [List.foldl_cons, ih, State.deliverTo]
    by_cases hj : j = p
    · subst hj
      rw [Function.update_self, Connection.deliver_upLoad]
    · rw [Function.update_of_ne hj]

variable [Fintype ι] {isClient : ι → Bool} {s s' : State ι} {i : ι}

def State.upLoad (s : State ι) : Nat := ∑ i, (s.connections i).upLoad

def State.downLoad (s : State ι) : Nat := ∑ i, (s.connections i).downLoad

theorem State.call_upLoad (s : State ι) (i : ι) (call : Call) :
    (s.call i call).upLoad = s.upLoad := by
  cases call with
  | nothing => rfl
  | deliver msg =>
    exact Finset.sum_congr rfl fun j _ =>
      foldl_deliverTo_upLoad s.participants msg s.connections j
  | leave => rfl

theorem sum_update_lt {load : Connection → Nat} (h : load c < load (s.connections i)) :
    ∑ j, load ((s.setConnection i c).connections j) < ∑ j, load (s.connections j) := by
  refine Finset.sum_lt_sum (fun j _ => ?_) ⟨i, Finset.mem_univ i, by simpa using h⟩
  by_cases hj : j = i
  · subst hj
    simpa using h.le
  · simp [hj]

theorem sum_update_eq {load : Connection → Nat} (h : load c = load (s.connections i)) :
    ∑ j, load ((s.setConnection i c).connections j) = ∑ j, load (s.connections j) := by
  refine Finset.sum_congr rfl fun j _ => ?_
  by_cases hj : j = i
  · subst hj
    simpa using h
  · simp [hj]

theorem step_lt {op : Operation} (hop : op.Proceeds)
    (hstep : step isClient s (.session i op) = some s' ∨ step isClient s (.client i op) = some s') :
    s'.upLoad < s.upLoad ∨ s'.upLoad = s.upLoad ∧ s'.downLoad < s.downLoad := by
  obtain hstep | hstep := hstep
  · obtain ⟨x, hx, hstep⟩ := Option.bind_eq_some_iff.mp hstep
    obtain ⟨⟨c, call⟩, hc, rfl⟩ := Option.map_eq_some_iff.mp hstep
    obtain hup | ⟨hup, hdown, rfl⟩ := Connection.stepSession_load hop hx hc
    · left
      rw [State.call_upLoad]
      exact sum_update_lt hup
    · exact .inr ⟨sum_update_eq hup, sum_update_lt hdown⟩
  · obtain ⟨c, hc, rfl⟩ := Option.map_eq_some_iff.mp hstep
    obtain hup | ⟨hup, hdown⟩ := Connection.stepClient_load hop hc
    · exact .inl (sum_update_lt hup)
    · exact .inr ⟨sum_update_eq hup, sum_update_lt hdown⟩

/-- The operations do not go on for ever, unless something is written. -/
theorem wellFounded_proceeds : WellFounded fun s' s : State ι => ∃ i op, Operation.Proceeds op ∧
    (step isClient s (.session i op) = some s' ∨ step isClient s (.client i op) = some s') := by
  have hloads := InvImage.wf (fun s : State ι => (s.upLoad, s.downLoad))
    (WellFounded.prod_lex (wellFounded_lt (α := Nat)) (wellFounded_lt (α := Nat)))
  refine Subrelation.wf ?_ hloads
  rintro s' s ⟨i, op, hop, hstep⟩
  exact Prod.lex_def.mpr (step_lt hop hstep)

end Load

end Asio.Chat
