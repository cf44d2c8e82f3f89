import Mathlib.Logic.Function.Basic
import Asio.Chat.ChatMessage
import Asio.Lib.Transition

/-! The chat: a server with its room and its sessions, the clients at the other ends of their
connections, and what is under way between them. -/

universe u

namespace Asio.Chat

def maxRecentMsgs : Nat := 100

/-- `joinedAt` is how many messages had been delivered when the session joined the room, which
nothing but the properties speaks of. -/
structure ChatSession where
  reading : Reading
  writer : Writer
  joinedAt : Nat

/-- The bodies of the messages in `printed` have been printed. Those in `wrote` have been given to
`write`, which nothing but the properties speaks of. -/
structure ChatClient where
  reading : Reading
  writer : Writer
  connected : Bool
  closed : Bool
  printed : List ChatMessage
  wrote : List ChatMessage

/-- Both ends of a connection, and what is under way to the server and to the client. -/
structure Connection where
  session : Option ChatSession
  client : ChatClient
  up : List Char
  down : List Char

/-- `log` is what has been delivered, with who sent it, which nothing but the properties speaks
of. -/
structure State (ι : Type u) where
  participants : List ι
  recentMsgs : List ChatMessage
  connections : ι → Connection
  log : List (ι × ChatMessage)

/-- What happens to the operations at one end of a connection. An operation that fails may be one
that is cancelled because its socket is closed. -/
inductive Operation
  | received
  | readFailed
  | transferred (k : Nat)
  | written
  | writeFailed
  deriving DecidableEq

inductive Event (ι : Type u)
  | accept (i : ι)
  | connect (i : ι)
  | write (i : ι) (line : List Char)
  | close (i : ι)
  | session (i : ι) (op : Operation)
  | client (i : ι) (op : Operation)
  | peerSent (i : ι) (bytes : List Char)
  deriving DecidableEq

/-- What the handler of a session calls of the room. -/
inductive Call
  | nothing
  | deliver (msg : ChatMessage)
  | leave
  deriving DecidableEq

/-! ### Sessions and clients -/

/-- A read operation that is started on a socket that is closed fails, unless it is to read
nothing. -/
def Reading.abort : Reading → Reading
  | .body msgHeader => if msgHeader.bodyLength = 0 then .body msgHeader else .stopped
  | _ => .stopped

namespace Connection

def stepSession (c : Connection) (x : ChatSession) : Operation → Option (Connection × Call)
  | .received =>
    (x.reading.complete c.up).map fun (reading, msg, rest) =>
      ({ c with session := some { x with reading := reading }, up := rest },
        match msg with
        | some msg => .deliver msg
        | none => if reading = .stopped then .leave else .nothing)
  | .readFailed =>
    if x.reading = .stopped then none
    else some ({ c with session := some { x with reading := .stopped } }, .leave)
  | .transferred k =>
    (x.writer.transfer k).map fun (writer, bytes) =>
      ({ c with session := some { x with writer := writer }, down := c.down ++ bytes }, .nothing)
  | .written =>
    x.writer.written.map fun writer =>
      ({ c with session := some { x with writer := writer } }, .nothing)
  | .writeFailed =>
    x.writer.fail.map fun writer =>
      ({ c with session := some { x with writer := writer } }, .leave)

def stepClient (c : Connection) : Operation → Option Connection
  | .received =>
    if c.client.connected then
      (c.client.reading.complete c.down).map fun (reading, msg, rest) =>
        { c with
          client := { c.client with
            reading := if c.client.closed then reading.abort else reading
            closed := c.client.closed || reading = .stopped
            printed := c.client.printed ++ msg.toList }
          down := rest }
    else none
  | .readFailed =>
    if c.client.connected = false ∨ c.client.reading = .stopped then none
    else some { c with client := { c.client with reading := .stopped, closed := true } }
  | .transferred k =>
    if c.client.closed then none
    else (c.client.writer.transfer k).map fun (writer, bytes) =>
      { c with client := { c.client with writer := writer }, up := c.up ++ bytes }
  | .written =>
    c.client.writer.written.map fun writer =>
      { c with client := { c.client with writer := writer } }
  | .writeFailed =>
    c.client.writer.fail.map fun writer =>
      { c with client := { c.client with writer := writer, closed := true } }

/-- The client is connected, and begins to read. -/
def connect (c : Connection) : Option Connection :=
  if c.client.connected || c.client.closed then none
  else some { c with client := { c.client with connected := true } }

/-- What has been posted by `write`. -/
def write (c : Connection) (line : List Char) : Connection :=
  let msg := ChatMessage.ofLine line
  { c with client := { c.client with
      writer := c.client.writer.deliver msg
      wrote := c.client.wrote ++ [msg] } }

def close (c : Connection) : Connection :=
  { c with client := { c.client with closed := true } }

/-- `deliver` of the session. -/
def deliver (c : Connection) (msg : ChatMessage) : Connection :=
  { c with session := c.session.map fun x => { x with writer := x.writer.deliver msg } }

end Connection

/-! ### The room -/

/-- The loop that leaves no more than the most recent messages. -/
def trim : List ChatMessage → List ChatMessage
  | [] => []
  | msg :: msgs => if (msg :: msgs).length > maxRecentMsgs then trim msgs else msg :: msgs

namespace State

variable {ι : Type u} [DecidableEq ι]

def setConnection (s : State ι) (i : ι) (c : Connection) : State ι :=
  { s with connections := Function.update s.connections i c }

def deliverTo (msg : ChatMessage) (connections : ι → Connection) (i : ι) : ι → Connection :=
  Function.update connections i ((connections i).deliver msg)

def deliver (s : State ι) (i : ι) (msg : ChatMessage) : State ι :=
  { s with
    recentMsgs := trim (s.recentMsgs ++ [msg])
    connections := s.participants.foldl (deliverTo msg) s.connections
    log := s.log ++ [(i, msg)] }

def leave (s : State ι) (i : ι) : State ι := { s with participants := s.participants.erase i }

/-- `start` of a new session, which joins the room. -/
def start (s : State ι) (i : ι) : State ι :=
  let x : ChatSession := {
    reading := .header
    writer := s.recentMsgs.foldl Writer.deliver .empty
    joinedAt := s.log.length }
  { s.setConnection i { s.connections i with session := some x } with
    participants := s.participants.insert i }

def call (s : State ι) (i : ι) : Call → State ι
  | .nothing => s
  | .deliver msg => s.deliver i msg
  | .leave => s.leave i

end State

/-! ### The chat -/

section Step

variable {ι : Type u} [DecidableEq ι]

/-- The other end of a connection that is no client may send anything. -/
def step (isClient : ι → Bool) (s : State ι) : Event ι → Option (State ι)
  | .accept i => if (s.connections i).session.isSome then none else some (s.start i)
  | .connect i => (s.connections i).connect.map (s.setConnection i)
  | .write i line => some (s.setConnection i ((s.connections i).write line))
  | .close i => some (s.setConnection i (s.connections i).close)
  | .session i op =>
    (s.connections i).session.bind fun x =>
      ((s.connections i).stepSession x op).map fun (c, call) => (s.setConnection i c).call i call
  | .client i op => ((s.connections i).stepClient op).map (s.setConnection i)
  | .peerSent i bytes =>
    if isClient i then none
    else some (s.setConnection i { s.connections i with up := (s.connections i).up ++ bytes })

end Step

def ChatClient.initial : ChatClient where
  reading := .header
  writer := .empty
  connected := false
  closed := false
  printed := []
  wrote := []

def initial {ι : Type u} : State ι where
  participants := []
  recentMsgs := []
  connections := fun _ => ⟨none, .initial, [], []⟩
  log := []

/-! ### What has been delivered -/

namespace State

variable {ι : Type u} [DecidableEq ι]

def delivered (s : State ι) : List ChatMessage := s.log.map Prod.snd

def deliveredFrom (s : State ι) (i : ι) : List ChatMessage :=
  (s.log.filter fun sent => sent.1 = i).map Prod.snd

section Fields

variable (s : State ι) (i : ι) (c : Connection)

@[simp] theorem participants_setConnection :
    (s.setConnection i c).participants = s.participants := rfl

@[simp] theorem connections_setConnection :
    (s.setConnection i c).connections = Function.update s.connections i c := rfl

@[simp] theorem delivered_setConnection : (s.setConnection i c).delivered = s.delivered := rfl

@[simp] theorem deliveredFrom_setConnection :
    (s.setConnection i c).deliveredFrom = s.deliveredFrom := rfl

@[simp] theorem connections_leave : (s.leave i).connections = s.connections := rfl

@[simp] theorem delivered_leave : (s.leave i).delivered = s.delivered := rfl

@[simp] theorem delivered_start : (s.start i).delivered = s.delivered := rfl

@[simp] theorem delivered_deliver (msg : ChatMessage) :
    (s.deliver i msg).delivered = s.delivered ++ [msg] := List.map_append

end Fields

end State

/-- What a session is to write: the messages since it joined the room, and those that were recent
then. -/
def Connection.owed (c : Connection) (delivered : List ChatMessage) : List ChatMessage :=
  c.session.elim [] fun x => delivered.drop (x.joinedAt - maxRecentMsgs)

/-- An operation that has not failed. -/
def Operation.Proceeds : Operation → Prop
  | .readFailed | .writeFailed => False
  | _ => True

/-- Nothing happens any more unless something is written, or fails. -/
def State.Quiet {ι : Type u} [DecidableEq ι] (isClient : ι → Bool) (s : State ι) : Prop :=
  ∀ i op, op.Proceeds →
    step isClient s (.session i op) = none ∧ step isClient s (.client i op) = none

end Asio.Chat
