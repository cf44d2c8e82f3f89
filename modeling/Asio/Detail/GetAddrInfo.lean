import Mathlib.Logic.Function.Basic
import Asio.Detail.InetPton

/-! The lists of addresses where no system function resolves names: how they are built, and how
they get the ports of a service. -/

namespace Asio.Detail.GetAddrInfo

open Ip (atoi)

/-! ### Memory -/

inductive Address
  | v4 (addr : BitVec 32)
  | v6 (addr : BitVec 128)
  deriving DecidableEq

/-- `sockaddr_in4_type` and `sockaddr_in6_type`, with the port in network byte order. -/
structure SockAddr where
  port : BitVec 16
  address : Address
  deriving DecidableEq

inductive Family
  | inet
  | inet6
  | other (value : Int)
  deriving DecidableEq

structure Header where
  flags : BitVec 32
  family : Family
  socktype : Int
  protocol : Int
  canonname : Option Nat
  addrlen : Nat
  deriving DecidableEq

structure AddrInfo extends Header where
  addr : Option Nat
  next : Option Nat

/-- Pointers count the allocations. The socket addresses whose ports have been set are noted. -/
structure Memory where
  infos : Nat → Option AddrInfo
  addrs : Nat → Option SockAddr
  used : Nat
  succeeds : Nat → Bool
  portsSet : List Nat

namespace Memory

def init (succeeds : Nat → Bool) : Memory := ⟨fun _ => none, fun _ => none, 0, succeeds, []⟩

variable (m : Memory)

/-- `gai_alloc` -/
def alloc : Option Nat × Memory :=
  (if m.succeeds m.used then some m.used else none, { m with used := m.used + 1 })

def setInfo (p : Nat) (ai : AddrInfo) : Memory :=
  { m with infos := Function.update m.infos p (some ai) }

def setAddr (p : Nat) (sa : SockAddr) : Memory :=
  { m with addrs := Function.update m.addrs p (some sa) }

section Fields

variable (p : Nat) (ai : AddrInfo) (sa : SockAddr)

@[simp] theorem setInfo_infos : (m.setInfo p ai).infos = Function.update m.infos p (some ai) := rfl

@[simp] theorem setInfo_addrs : (m.setInfo p ai).addrs = m.addrs := rfl

@[simp] theorem setInfo_used : (m.setInfo p ai).used = m.used := rfl

@[simp] theorem setInfo_succeeds : (m.setInfo p ai).succeeds = m.succeeds := rfl

@[simp] theorem setInfo_portsSet : (m.setInfo p ai).portsSet = m.portsSet := rfl

@[simp] theorem setAddr_infos : (m.setAddr p sa).infos = m.infos := rfl

@[simp] theorem setAddr_addrs : (m.setAddr p sa).addrs = Function.update m.addrs p (some sa) := rfl

@[simp] theorem setAddr_used : (m.setAddr p sa).used = m.used := rfl

@[simp] theorem setAddr_succeeds : (m.setAddr p sa).succeeds = m.succeeds := rfl

@[simp] theorem setAddr_portsSet : (m.setAddr p sa).portsSet = m.portsSet := rfl

end Fields

end Memory

/-! ### Building the list -/

inductive Eai
  | memory
  | noname
  | service
  deriving DecidableEq

structure Hints where
  numericServ : Bool
  socktype : Int
  protocol : Int

def cloneFlag : BitVec 32 := 1 <<< 30

/-- An address as `inet_pton` or a host entry has it. -/
inductive Host
  | inet (addr : BitVec 32)
  | inet6 (addr : BitVec 128)
  | other (family : Int)

def Host.family : Host → Family
  | inet _ => .inet
  | inet6 _ => .inet6
  | other family => .other family

/-- The list so far, with `next` at `aihead` or at the `ai_next` of an entry. -/
structure Building where
  memory : Memory
  head : Option Nat
  next : Option Nat

namespace Building

def init (succeeds : Nat → Bool) : Building := ⟨.init succeeds, none, none⟩

def link (b : Building) (p : Nat) : Building :=
  match b.next with
  | none => { b with head := some p, next := some p }
  | some q =>
    { b with
      memory := match b.memory.infos q with
        | some ai => b.memory.setInfo q { ai with next := some p }
        | none => b.memory
      next := some p }

end Building

/-- `gai_aistruct`, once it has a socket address for the entry or does without. -/
def gaiAistructAddr (b : Building) (p : Nat) (ai : AddrInfo) (addr : Address) (addrlen : Nat) :
    Option Eai × Building :=
  match b.memory.alloc with
  | (none, m) => (some .memory, { b with memory := m })
  | (some q, m) =>
    (none, { b with
      memory := (m.setAddr q ⟨0, addr⟩).setInfo p { ai with addr := some q, addrlen := addrlen } })

def gaiAistruct (b : Building) (hints : Hints) (host : Host) : Option Eai × Building :=
  match b.memory.alloc with
  | (none, m) => (some .memory, { b with memory := m })
  | (some p, m) =>
    let ai : AddrInfo :=
      { flags := if hints.socktype = 0 then cloneFlag else 0
        family := host.family
        socktype := hints.socktype
        protocol := hints.protocol
        canonname := none
        addrlen := 0
        addr := none
        next := none }
    let b := { b with memory := m.setInfo p ai }.link p
    match host with
    | .inet addr => gaiAistructAddr b p ai (.v4 addr) 16
    | .inet6 addr => gaiAistructAddr b p ai (.v6 addr) 28
    | .other _ => (none, b)

def gaiAistructAll (b : Building) (hints : Hints) : List Host → Option Eai × Building
  | [] => (none, b)
  | host :: hosts =>
    match gaiAistruct b hints host with
    | (none, b) => gaiAistructAll b hints hosts
    | (some e, b) => (some e, b)

/-! ### Services -/

/-- `gai_clone`. Where the memory for the address is missing, nothing is copied. -/
def gaiClone (m : Memory) (p : Nat) (ai : AddrInfo) : Option Nat × Memory :=
  match m.alloc with
  | (none, m) => (none, m)
  | (some c, m) =>
    let (q, m) := m.alloc
    let m := m.setInfo p { ai with next := some c }
    let m := m.setInfo c
      { flags := 0
        family := ai.family
        socktype := ai.socktype
        protocol := ai.protocol
        canonname := none
        addrlen := ai.addrlen
        addr := q
        next := ai.next }
    match q, ai.addr.bind m.addrs with
    | some q, some sa => (some c, m.setAddr q sa)
    | _, _ => (some c, m)

/-- The socket type and the port of an entry are set, and the entry counts if it has a port. -/
def assign (m : Memory) (p : Nat) (port : BitVec 16) (socktype : Int) : Nat × Memory :=
  match m.infos p with
  | none => (0, m)
  | some ai =>
    let m := m.setInfo p { ai with socktype := socktype }
    match ai.family, ai.addr with
    | .other _, _ => (0, m)
    | _, none => (1, m)
    | _, some q =>
      match m.addrs q with
      | none => (1, m)
      | some sa => (1, { m.setAddr q { sa with port := port } with portsSet := m.portsSet ++ [q] })

/-- `gai_port`, which answers with the number of ports it has found or with `-1`, unless its steps
run out. -/
def gaiPort (port : BitVec 16) (socktype : Int) :
    Nat → Memory → Option Nat → Nat → Option (Option Nat × Memory)
  | 0, _, _, _ => none
  | _ + 1, m, none, numFound => some (some numFound, m)
  | fuel + 1, m, some p, numFound =>
    let assignAt (m : Memory) (p : Nat) :=
      let (found, m) := assign m p port socktype
      gaiPort port socktype fuel m ((m.infos p).bind (·.next)) (numFound + found)
    match m.infos p with
    | none => none
    | some ai =>
      if ai.flags &&& cloneFlag ≠ 0 then
        if ai.socktype ≠ 0 then
          match gaiClone m p ai with
          | (none, m) => some (none, m)
          | (some c, m) => assignAt m c
        else
          assignAt m p
      else if ai.socktype ≠ socktype then
        gaiPort port socktype fuel m ai.next numFound
      else
        assignAt m p

def sockStream : Int := 1

def sockDgram : Int := 2

def htons (n : BitVec 16) : BitVec 16 := (n <<< 8) ||| (n >>> 8)

section Serv

variable (fuel : Nat) (head : Option Nat) (hints : Hints)

/-- A walk of `gai_port` and what `gai_serv` does next with the number of ports. -/
def walk (m : Memory) (port : BitVec 16) (socktype : Int) (numFound : Nat)
    (next : Nat → Memory → Option (Option Eai × Memory)) : Option (Option Eai × Memory) :=
  match gaiPort port socktype fuel m head 0 with
  | none => none
  | some (none, m) => some (some .memory, m)
  | some (some rc, m) => next (numFound + rc) m

/-- The service by its name, for one protocol. -/
def named (socktype : Int) (servent : Option (BitVec 16)) (m : Memory) (numFound : Nat)
    (next : Nat → Memory → Option (Option Eai × Memory)) : Option (Option Eai × Memory) :=
  if hints.socktype = 0 ∨ hints.socktype = socktype then
    match servent with
    | some port => walk fuel head m port socktype numFound next
    | none => next numFound m
  else
    next numFound m

def finish (numFound : Nat) (m : Memory) : Option (Option Eai × Memory) :=
  if numFound = 0 then
    some (some (if hints.socktype = 0 then .noname else .service), m)
  else
    some (none, m)

def isNumeric (serv : Text) : Bool :=
  hints.numericServ || serv.head?.any fun c => '0' ≤ c ∧ c ≤ '9'

def gaiServ (serv : Text) (getservbyname : String → Option (BitVec 16)) (m : Memory) :
    Option (Option Eai × Memory) :=
  if isNumeric hints serv then
    let port := htons (BitVec.ofInt 16 (atoi serv))
    if hints.socktype ≠ 0 then
      walk fuel head m port hints.socktype 0 (finish hints)
    else
      walk fuel head m port sockStream 0 fun numFound m =>
        walk fuel head m port sockDgram numFound (finish hints)
  else
    named fuel head hints sockStream (getservbyname "tcp") m 0 fun numFound m =>
      named fuel head hints sockDgram (getservbyname "udp") m numFound (finish hints)

end Serv

end Asio.Detail.GetAddrInfo
