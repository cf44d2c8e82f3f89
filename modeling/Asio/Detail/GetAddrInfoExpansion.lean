import Mathlib.Data.List.Forall2
import Asio.Detail.GetAddrInfoServices

/-! What a service makes of the list: an entry for each address, socket type and port. -/

namespace Asio.Detail.GetAddrInfo

open Ip (atoi)

/-! ### What is expected -/

def Address.family : Address → Family
  | v4 _ => .inet
  | v6 _ => .inet6

def Host.ofAddress : Address → Host
  | .v4 addr => .inet addr
  | .v6 addr => .inet6 addr

/-- What a caller sees of an entry. -/
structure View where
  family : Family
  address : Address
  socktype : Int
  port : BitVec 16

def Entry.view (e : Entry) : View :=
  ⟨e.header.family, e.sock.address, e.header.socktype, e.sock.port⟩

/-- The port of a service for a type, if the caller has asked for the type or for any. -/
def offered (hints : Hints) (socktype : Int) (servent : Option (BitVec 16)) : Option (BitVec 16) :=
  if hints.socktype = 0 ∨ hints.socktype = socktype then servent else none

/-- The socket types and ports of a service. -/
def applicable (hints : Hints) (serv : Text) (getservbyname : String → Option (BitVec 16)) :
    List (Int × BitVec 16) :=
  if isNumeric hints serv then
    let port := htons (BitVec.ofInt 16 (atoi serv))
    if hints.socktype ≠ 0 then [(hints.socktype, port)] else [(sockStream, port), (sockDgram, port)]
  else
    ((offered hints sockStream (getservbyname "tcp")).map fun port => (sockStream, port)).toList ++
      ((offered hints sockDgram (getservbyname "udp")).map fun port => (sockDgram, port)).toList

/-- An entry is followed by its clones, which are where nothing was. -/
structure Group (pairs : List (Int × BitVec 16)) (used : Nat) (e : Entry) (g : List Entry) :
    Prop where
  views : g.map Entry.view = pairs.map fun (socktype, port) =>
    ⟨e.header.family, e.sock.address, socktype, port⟩
  original : g.head?.map (fun x => (x.node, x.addr)) = some (e.node, e.addr)
  clones : ∀ c ∈ g.tail, used ≤ c.node ∧ used ≤ c.addr

/-- The list has the entries of each address after each other, and they share nothing. -/
def Expanded (pairs : List (Int × BitVec 16)) (m m' : Memory) (head : Option Nat)
    (l : List Entry) : Prop :=
  ∃ groups : List (List Entry), Holds m' head groups.flatten ∧ Spread m'.used groups.flatten ∧
    List.Forall₂ (Group pairs m.used) l groups

/-! ### One walk and two -/

section Walks

variable {m m' m₁ : Memory} {head : Option Nat} {l l' l₁ : List Entry} {port port' : BitVec 16}
variable {socktype socktype' : Int} {used n n' : Nat}

/-- A walk of entries that all take the port clones nothing. -/
theorem Pass.of_takes (h : Pass port socktype used l l' n)
    (htakes : ∀ e ∈ l, (e.flagged → e.header.socktype = 0) ∧
      (¬ e.flagged → e.header.socktype = socktype)) :
    l' = l.map (·.assign port socktype) ∧ n = l.length := by
  induction h with
  | nil => exact ⟨rfl, rfl⟩
  | skip hf ht _ ih => exact absurd ((htakes _ List.mem_cons_self).2 hf) ht
  | assign _ _ _ ih =>
    obtain ⟨rfl, rfl⟩ := ih fun e he => htakes e (List.mem_cons_of_mem _ he)
    exact ⟨rfl, rfl⟩
  | clone hf ht => exact absurd ((htakes _ List.mem_cons_self).1 hf) ht

/-- A walk of entries that have all been given a port clones each. -/
theorem Pass.of_assigned (h : Pass port socktype used l l' n)
    (hassigned : ∀ e ∈ l, e.flagged ∧ e.header.socktype ≠ 0) :
    n = l.length ∧ ∃ groups : List (List Entry), l' = groups.flatten ∧
      List.Forall₂ (fun e g => ∃ c : Entry, g = [e, c] ∧ used ≤ c.node ∧ used ≤ c.addr ∧
        c.view = ⟨e.header.family, e.sock.address, socktype, port⟩) l groups := by
  induction h with
  | nil => exact ⟨rfl, [], rfl, .nil⟩
  | skip hf => exact absurd (hassigned _ List.mem_cons_self).1 hf
  | assign hf =>
    obtain ⟨hflagged, hne⟩ := hassigned _ List.mem_cons_self
    exact absurd (hf hflagged) hne
  | clone hf ht hnode haddr hheader hsock _ ih =>
    obtain ⟨rfl, groups, rfl, hgroups⟩ := ih fun e he => hassigned e (List.mem_cons_of_mem _ he)
    rename_i e c _
    refine ⟨rfl, [e, c.assign port socktype] :: groups, rfl,
      .cons ⟨c.assign port socktype, rfl, hnode, haddr, ?_⟩ hgroups⟩
    simp [Entry.view, Entry.assign, hheader, hsock]

theorem Walked.expanded (h : Walked m m' port socktype head l l' n)
    (htakes : ∀ e ∈ l, (e.flagged → e.header.socktype = 0) ∧
      (¬ e.flagged → e.header.socktype = socktype)) :
    Expanded [(socktype, port)] m m' head l := by
  obtain ⟨rfl, -⟩ := h.pass.of_takes htakes
  have hflatten : (l.map fun e => [e.assign port socktype]).flatten =
      l.map (·.assign port socktype) := by
    rw [← List.flatMap_def, ← List.map_eq_flatMap]
  refine ⟨l.map fun e => [e.assign port socktype], hflatten ▸ h.holds, hflatten ▸ h.spread, ?_⟩
  rw [List.forall₂_map_right_iff, List.forall₂_same]
  exact fun e _ => ⟨rfl, rfl, nofun⟩

/-- The second walk finds the entries as the first has left them. -/
theorem Walked.expanded_twice (h : Walked m m₁ port socktype head l l₁ n)
    (h' : Walked m₁ m' port' socktype' head l₁ l' n')
    (hfresh : ∀ e ∈ l, e.flagged ∧ e.header.socktype = 0) (ht : socktype ≠ 0) :
    Expanded [(socktype, port), (socktype', port')] m m' head l := by
  obtain ⟨rfl, -⟩ := h.pass.of_takes fun e he =>
    ⟨fun _ => (hfresh e he).2, fun hf => absurd (hfresh e he).1 hf⟩
  obtain ⟨-, groups, rfl, hgroups⟩ := h'.pass.of_assigned fun e he => by
    obtain ⟨x, hx, rfl⟩ := List.mem_map.mp he
    exact ⟨(hfresh x hx).1, ht⟩
  refine ⟨groups, h'.holds, h'.spread, (List.forall₂_map_left_iff.mp hgroups).imp ?_⟩
  intro e g hg
  obtain ⟨c, rfl, hnode, haddr, hview⟩ := hg
  refine ⟨?_, rfl, fun x hx => ?_⟩
  · simp only [List.map_cons, List.map_nil, hview]
    rfl
  · rw [List.tail_cons, List.mem_singleton] at hx
    subst hx
    exact ⟨Nat.le_trans h.frame.used_le hnode, Nat.le_trans h.frame.used_le haddr⟩

end Walks

/-! ### Building the list -/

section Build

variable {m m' : Memory} {b : Building} {hints : Hints} {head : Option Nat} {l : List Entry}
variable {e x : Entry} {addresses : List Address} {a : Address}

theorem Holds.snoc (h : Holds m head (l ++ [x]))
    (hlast : m'.infos x.node = some (x.info (some e.node)))
    (hinfo : m'.infos e.node = some (e.info none)) (haddr : m'.addrs e.addr = some e.sock)
    (hinfos : ∀ y ∈ l, m'.infos y.node = m.infos y.node)
    (haddrs : ∀ y ∈ l ++ [x], m'.addrs y.addr = m.addrs y.addr) :
    Holds m' head (l ++ [x, e]) := by
  induction l generalizing head with
  | nil =>
    obtain ⟨next, rfl, -, hsock, -⟩ := h.uncons
    exact .cons hlast ((haddrs x List.mem_cons_self).trans hsock) (.cons hinfo haddr .nil)
  | cons y l ih =>
    obtain ⟨next, rfl, hyinfo, hsock, hl⟩ := h.uncons
    refine .cons ((hinfos y List.mem_cons_self).trans hyinfo)
      ((haddrs y List.mem_cons_self).trans hsock) (ih hl ?_ ?_)
    · exact fun z hz => hinfos z (List.mem_cons_of_mem _ hz)
    · exact fun z hz => haddrs z (List.mem_cons_of_mem _ hz)

def Address.length : Address → Nat
  | v4 _ => 16
  | v6 _ => 28

/-- The entry that is made for an address, at the two allocations that come next. -/
def made (m : Memory) (hints : Hints) (a : Address) : Entry where
  node := m.used
  addr := m.used + 1
  header :=
    { flags := if hints.socktype = 0 then cloneFlag else 0
      family := a.family
      socktype := hints.socktype
      protocol := hints.protocol
      canonname := none
      addrlen := a.length }
  sock := ⟨0, a⟩

/-- The entries that have been made for the addresses. -/
structure Built (b : Building) (hints : Hints) (addresses : List Address) (l : List Entry) :
    Prop where
  holds : Holds b.memory b.head l
  spread : Spread b.memory.used l
  next : b.next = l.getLast?.map Entry.node
  fresh : ∀ e ∈ l, e.header.flags = (if hints.socktype = 0 then cloneFlag else 0) ∧
    e.header.socktype = hints.socktype ∧ e.header.family = e.sock.address.family
  addresses : l.map (·.sock.address) = addresses
  portsSet : b.memory.portsSet = []
  succeeds : ∀ n, b.memory.succeeds n = true

theorem gaiAistruct_first (hsucceeds : ∀ n, b.memory.succeeds n = true) (hnext : b.next = none)
    (a : Address) :
    gaiAistruct b hints (Host.ofAddress a) = (none,
      ⟨({ b.memory with used := b.memory.used + 2 }.setInfo b.memory.used
        ((made b.memory hints a).info none)).setAddr (b.memory.used + 1) ⟨0, a⟩,
        some b.memory.used, some b.memory.used⟩) := by
  cases a <;>
    simp [gaiAistruct, gaiAistructAddr, Memory.alloc, hsucceeds, Building.link, hnext,
      Host.ofAddress, Host.family, made, Entry.info, Memory.setInfo, Memory.setAddr, Address.family,
      Address.length]

/-- The last entry is led on to the new one. -/
theorem gaiAistruct_next (hsucceeds : ∀ n, b.memory.succeeds n = true)
    (hnext : b.next = some x.node) (hx : b.memory.infos x.node = some (x.info none))
    (hne : x.node ≠ b.memory.used) (a : Address) :
    gaiAistruct b hints (Host.ofAddress a) = (none,
      ⟨(({ b.memory with used := b.memory.used + 2 }.setInfo x.node
        (x.info (some b.memory.used))).setInfo b.memory.used
          ((made b.memory hints a).info none)).setAddr (b.memory.used + 1) ⟨0, a⟩,
        b.head, some b.memory.used⟩) := by
  cases a <;>
    simp [gaiAistruct, gaiAistructAddr, Memory.alloc, hsucceeds, Building.link, hnext,
      Host.ofAddress, Host.family, made, Entry.info, Memory.setInfo, Memory.setAddr, Address.family,
      Address.length, hx, hne, Function.update_comm hne]

theorem Holds.last (h : Holds m head (l ++ [x])) : m.infos x.node = some (x.info none) := by
  induction l generalizing head with
  | nil =>
    obtain ⟨next, rfl, hinfo, -, hnil⟩ := h.uncons
    cases hnil
    exact hinfo
  | cons y l ih =>
    obtain ⟨next, rfl, -, -, hl⟩ := h.uncons
    exact ih hl

theorem Spread.snoc (h : Spread m.used l) (hints : Hints) (a : Address) :
    Spread (m.used + 2) (l ++ [made m hints a]) where
  nodes := by
    rw [List.map_append, List.map_singleton]
    refine List.nodup_append.mpr ⟨h.nodes, List.pairwise_singleton .., fun p hp q hq => ?_⟩
    obtain ⟨y, hy, rfl⟩ := List.mem_map.mp hp
    cases List.mem_singleton.mp hq
    exact Nat.ne_of_lt (h.below y hy).1
  addrs := by
    rw [List.map_append, List.map_singleton]
    refine List.nodup_append.mpr ⟨h.addrs, List.pairwise_singleton .., fun p hp q hq => ?_⟩
    obtain ⟨y, hy, rfl⟩ := List.mem_map.mp hp
    cases List.mem_singleton.mp hq
    exact Nat.ne_of_lt (Nat.lt_succ_of_lt (h.below y hy).2)
  below y hy := by
    rcases List.mem_append.mp hy with hy | hy
    · have hy := h.below y hy
      exact ⟨Nat.lt_add_right 2 hy.1, Nat.lt_add_right 2 hy.2⟩
    · cases List.mem_singleton.mp hy
      exact ⟨Nat.lt_add_of_pos_right (by decide), Nat.lt_succ_self _⟩

theorem Built.snoc (h : Built b hints addresses l) (a : Address) :
    ∃ b', gaiAistruct b hints (Host.ofAddress a) = (none, b') ∧
      Built b' hints (addresses ++ [a]) (l ++ [made b.memory hints a]) := by
  have hfresh : ∀ e ∈ l ++ [made b.memory hints a],
      e.header.flags = (if hints.socktype = 0 then cloneFlag else 0) ∧
        e.header.socktype = hints.socktype ∧ e.header.family = e.sock.address.family := by
    intro e he
    rcases List.mem_append.mp he with he | he
    · exact h.fresh e he
    · cases List.mem_singleton.mp he
      exact ⟨rfl, rfl, rfl⟩
  have haddresses : (l ++ [made b.memory hints a]).map (·.sock.address) = addresses ++ [a] := by
    rw [List.map_append, h.addresses]
    rfl
  rcases List.eq_nil_or_concat' l with rfl | ⟨l, x, rfl⟩
  · refine ⟨_, gaiAistruct_first h.succeeds h.next a, ?_, h.spread.snoc hints a, rfl, hfresh,
      haddresses, h.portsSet, h.succeeds⟩
    exact .cons (e := made b.memory hints a) (Function.update_self ..) (Function.update_self ..)
      .nil
  · have hx := h.spread.below x (List.mem_append_right _ (List.mem_singleton_self x))
    have hnext : b.next = some x.node := by rw [h.next, List.getLast?_concat, Option.map_some]
    refine ⟨_, gaiAistruct_next h.succeeds hnext h.holds.last (Nat.ne_of_lt hx.1) a, ?_,
      h.spread.snoc hints a, ?_, hfresh, haddresses, h.portsSet, h.succeeds⟩
    · rw [List.append_assoc]
      refine h.holds.snoc ?_ ?_ ?_ (fun y hy => ?_) fun y hy => ?_
      · simp [Nat.ne_of_lt hx.1, made]
      · simp [made]
      · simp [made]
      · have hy' := h.spread.below y (List.mem_append_left _ hy)
        have hne : y.node ≠ x.node := by
          have hnodes := h.spread.nodes
          rw [List.map_append, List.nodup_append] at hnodes
          exact hnodes.2.2 y.node (List.mem_map_of_mem hy) x.node (List.mem_singleton_self _)
        simp [Nat.ne_of_lt hy'.1, hne]
      · have hy' := h.spread.below y hy
        simp [Nat.ne_of_lt (Nat.lt_succ_of_lt hy'.2)]
    · rw [List.getLast?_concat]
      rfl

theorem built_all (h : Built b hints addresses l) (more : List Address) :
    ∃ b' l', gaiAistructAll b hints (more.map Host.ofAddress) = (none, b') ∧
      Built b' hints (addresses ++ more) l' := by
  induction more generalizing b addresses l with
  | nil => exact ⟨b, l, rfl, by rwa [List.append_nil]⟩
  | cons a more ih =>
    obtain ⟨b₁, hb₁, h₁⟩ := h.snoc a
    obtain ⟨b', l', hb', h'⟩ := ih h₁
    refine ⟨b', l', ?_, by rwa [List.append_assoc] at h'⟩
    rw [List.map_cons, gaiAistructAll, hb₁]
    exact hb'

end Build

/-! ### The services of a list -/

section Services

variable {hints : Hints} {m m' : Memory} {head : Option Nat} {l : List Entry} {fuel n : Nat}
variable {next : Nat → Memory → Option (Option Eai × Memory)} {port port' : BitVec 16}
variable {socktype socktype' : Int}

/-- A list that a service may be looked up for. -/
structure Ready (hints : Hints) (m : Memory) (head : Option Nat) (l : List Entry) : Prop where
  holds : Holds m head l
  spread : Spread m.used l
  inet : ∀ e ∈ l, e.isInet
  flags : ∀ e ∈ l, e.header.flags = if hints.socktype = 0 then cloneFlag else 0
  socktype : ∀ e ∈ l, e.header.socktype = hints.socktype
  succeeds : ∀ k, m.succeeds k = true

/-- What a number of ports that have been found stands for. -/
structure Served (pairs : List (Int × BitVec 16)) (m m' : Memory) (head : Option Nat)
    (l : List Entry) (n : Nat) : Prop where
  counted : m'.portsSet.length = m.portsSet.length + n
  expanded : n ≠ 0 → Expanded pairs m m' head l

theorem Built.ready {b : Building} {addresses : List Address} (h : Built b hints addresses l) :
    Ready hints b.memory b.head l where
  holds := h.holds
  spread := h.spread
  inet e he value := by
    rw [(h.fresh e he).2.2]
    cases e.sock.address <;> exact nofun
  flags e he := (h.fresh e he).1
  socktype e he := (h.fresh e he).2.1
  succeeds := h.succeeds

theorem Ready.flagged_iff (h : Ready hints m head l) {e : Entry} (he : e ∈ l) :
    e.flagged ↔ hints.socktype = 0 := by
  rw [Entry.flagged, h.flags e he]
  split
  · rename_i ht
    exact iff_of_true (by decide) ht
  · rename_i ht
    exact iff_of_false (by decide) ht

theorem Ready.takes (h : Ready hints m head l)
    (ht : hints.socktype = 0 ∨ hints.socktype = socktype) :
    ∀ e ∈ l, (e.flagged → e.header.socktype = 0) ∧
      (¬ e.flagged → e.header.socktype = socktype) := by
  intro e he
  rw [h.flagged_iff he, h.socktype e he]
  exact ⟨id, fun hne => ht.resolve_left hne⟩

theorem walk_once (h : Ready hints m head l) (hfuel : l.length < fuel)
    (ht : hints.socktype = 0 ∨ hints.socktype = socktype) :
    ∃ m', walk fuel head m port socktype 0 next = next l.length m' ∧
      Served [(socktype, port)] m m' head l l.length := by
  obtain ⟨m', l', n, hport, hwalked⟩ := gaiPort_walked port socktype
    h.succeeds h.holds h.spread h.inet hfuel 0
  obtain ⟨-, rfl⟩ := hwalked.pass.of_takes (h.takes ht)
  refine ⟨m', ?_, hwalked.portsSet, fun _ => hwalked.expanded (h.takes ht)⟩
  rw [walk, hport]
  simp only [Nat.zero_add]

theorem walk_twice (h : Ready hints m head l) (hfuel : l.length < fuel) (hany : hints.socktype = 0)
    (ht : socktype ≠ 0) :
    ∃ m', walk fuel head m port socktype 0 (fun numFound m =>
        walk fuel head m port' socktype' numFound next) = next (l.length + l.length) m' ∧
      Served [(socktype, port), (socktype', port')] m m' head l (l.length + l.length) := by
  have hfresh : ∀ e ∈ l, e.flagged ∧ e.header.socktype = 0 := fun e he =>
    ⟨(h.flagged_iff he).mpr hany, (h.socktype e he).trans hany⟩
  obtain ⟨m₁, l₁, n, hport, hwalked⟩ := gaiPort_walked port socktype
    h.succeeds h.holds h.spread h.inet hfuel 0
  obtain ⟨rfl, rfl⟩ := hwalked.pass.of_takes (h.takes (.inl hany))
  have hinet : ∀ e ∈ l.map (·.assign port socktype), e.isInet := by
    intro e he
    obtain ⟨x, hx, rfl⟩ := List.mem_map.mp he
    exact h.inet x hx
  have hsucceeds : ∀ k, m₁.succeeds k = true := by
    rw [hwalked.frame.succeeds]
    exact h.succeeds
  obtain ⟨m', l', n', hport', hwalked'⟩ := gaiPort_walked port' socktype'
    hsucceeds hwalked.holds hwalked.spread hinet (by rwa [List.length_map]) 0
  have hcount : n' = l.length := by
    have hassigned : ∀ e ∈ l.map (·.assign port socktype), e.flagged ∧ e.header.socktype ≠ 0 := by
      intro e he
      obtain ⟨x, hx, rfl⟩ := List.mem_map.mp he
      exact ⟨(hfresh x hx).1, ht⟩
    rw [(hwalked'.pass.of_assigned hassigned).1, List.length_map]
  subst hcount
  refine ⟨m', ?_, ?_, fun _ => hwalked.expanded_twice hwalked' hfresh ht⟩
  · rw [walk, hport]
    simp only [Nat.zero_add]
    rw [walk, hport']
    simp only [Nat.zero_add]
  · rw [hwalked'.portsSet, hwalked.portsSet, Nat.add_assoc]

theorem named_eq (servent : Option (BitVec 16)) (m : Memory) (n : Nat) :
    named fuel head hints socktype servent m n next =
      match offered hints socktype servent with
      | some port => walk fuel head m port socktype n next
      | none => next n m := by
  unfold named offered
  split <;> rfl

theorem offered_eq_some {servent : Option (BitVec 16)}
    (h : offered hints socktype servent = some port) :
    hints.socktype = 0 ∨ hints.socktype = socktype := by
  by_contra hne
  rw [offered, if_neg hne] at h
  cases h

theorem gaiServ_served (h : Ready hints m head l) (hfuel : l.length < fuel) (serv : Text)
    (getservbyname : String → Option (BitVec 16)) :
    ∃ m' n, gaiServ fuel head hints serv getservbyname m = finish hints n m' ∧
      Served (applicable hints serv getservbyname) m m' head l n := by
  rw [gaiServ, applicable]
  split
  · by_cases hany : hints.socktype = 0
    · simp only [hany, ne_eq, not_true, if_false]
      obtain ⟨m', heq, hserved⟩ := walk_twice h hfuel hany (by decide : sockStream ≠ 0)
      exact ⟨m', _, heq, hserved⟩
    · simp only [ne_eq, hany, not_false_iff, if_true]
      obtain ⟨m', heq, hserved⟩ := walk_once h hfuel (.inr rfl)
      exact ⟨m', _, heq, hserved⟩
  · simp only [named_eq]
    cases htcp : offered hints sockStream (getservbyname "tcp") with
    | none =>
      cases hudp : offered hints sockDgram (getservbyname "udp") with
      | none => exact ⟨m, 0, rfl, rfl, fun hne => absurd rfl hne⟩
      | some port =>
        obtain ⟨m', heq, hserved⟩ := walk_once h hfuel (offered_eq_some hudp)
        exact ⟨m', _, heq, hserved⟩
    | some port =>
      cases hudp : offered hints sockDgram (getservbyname "udp") with
      | none =>
        obtain ⟨m', heq, hserved⟩ := walk_once h hfuel (offered_eq_some htcp)
        exact ⟨m', _, heq, hserved⟩
      | some port' =>
        have hany : hints.socktype = 0 := by
          rcases offered_eq_some htcp with hany | hstream
          · exact hany
          · rcases offered_eq_some hudp with hany | hdgram
            · exact hany
            · exact absurd (hstream.symm.trans hdgram) (by decide)
        obtain ⟨m', heq, hserved⟩ := walk_twice h hfuel hany (by decide : sockStream ≠ 0)
        exact ⟨m', _, heq, hserved⟩

/-! ### The result -/

theorem applicable_ne_zero {serv : Text} {getservbyname : String → Option (BitVec 16)} :
    ∀ pair ∈ applicable hints serv getservbyname, pair.1 ≠ 0 := by
  have hlookup (socktype : Int) (ht : socktype ≠ 0) (servent : Option (BitVec 16)) :
      ∀ pair ∈ (servent.map fun port => (socktype, port)).toList, pair.1 ≠ 0 := by
    intro pair hpair
    rw [Option.mem_toList, Option.map_eq_some_iff] at hpair
    obtain ⟨port, -, rfl⟩ := hpair
    exact ht
  rw [applicable]
  split
  · dsimp only
    split
    · rename_i ht
      exact List.forall_mem_singleton.mpr ht
    · exact List.forall_mem_cons.mpr ⟨(by decide : sockStream ≠ 0),
      List.forall_mem_singleton.mpr (by decide : sockDgram ≠ 0)⟩
  · exact List.forall_mem_append.mpr ⟨hlookup _ (by decide) _, hlookup _ (by decide) _⟩

theorem socktype_ne_zero {pairs : List (Int × BitVec 16)} {used : Nat} {groups : List (List Entry)}
    (hgroups : List.Forall₂ (Group pairs used) l groups) (hpairs : ∀ pair ∈ pairs, pair.1 ≠ 0) :
    ∀ e ∈ groups.flatten, e.header.socktype ≠ 0 := by
  induction hgroups with
  | nil => exact nofun
  | cons hgroup _ ih =>
    rw [List.flatten_cons]
    refine List.forall_mem_append.mpr ⟨fun x hx => ?_, ih⟩
    have hview := List.mem_map_of_mem (f := Entry.view) hx
    rw [hgroup.views] at hview
    obtain ⟨pair, hpair, heq⟩ := List.mem_map.mp hview
    have hsocktype : pair.1 = x.header.socktype := congrArg View.socktype heq
    rw [← hsocktype]
    exact hpairs pair hpair

theorem finish_eq (hints : Hints) (n : Nat) (m : Memory) :
    ∃ rc, finish hints n m = some (rc, m) ∧ (rc = none ↔ n ≠ 0) := by
  rw [finish]
  split
  · rename_i hn
    exact ⟨_, rfl, iff_of_false nofun fun hne => hne hn⟩
  · rename_i hn
    exact ⟨_, rfl, iff_of_true rfl hn⟩

end Services

theorem gaiServ_expands (succeeds : Nat → Bool) (hsucceeds : ∀ n, succeeds n = true)
    (hints : Hints) (addresses : List Address) (serv : Text)
    (getservbyname : String → Option (BitVec 16)) :
    ∃ b l, gaiAistructAll (.init succeeds) hints (addresses.map Host.ofAddress) = (none, b) ∧
      Holds b.memory b.head l ∧ l.map (·.sock.address) = addresses ∧
      (∀ e ∈ l, e.header.family = e.sock.address.family) ∧
      ∀ fuel, l.length < fuel → ∃ rc m',
        gaiServ fuel b.head hints serv getservbyname b.memory = some (rc, m') ∧
        (rc = none ↔ m'.portsSet ≠ []) ∧
        (rc = none → ∃ groups : List (List Entry), Holds m' b.head groups.flatten ∧
          Spread m'.used groups.flatten ∧
          List.Forall₂ (Group (applicable hints serv getservbyname) b.memory.used) l groups ∧
          ∀ e ∈ groups.flatten, e.header.socktype ≠ 0) := by
  have hstart : Built (.init succeeds) hints [] [] :=
    ⟨.nil, ⟨.nil, .nil, nofun⟩, rfl, nofun, rfl, rfl, hsucceeds⟩
  obtain ⟨b, l, hb, hbuilt⟩ := built_all hstart addresses
  refine ⟨b, l, hb, hbuilt.holds, hbuilt.addresses, fun e he => (hbuilt.fresh e he).2.2, ?_⟩
  intro fuel hfuel
  obtain ⟨m', n, hserv, hserved⟩ := gaiServ_served hbuilt.ready hfuel serv getservbyname
  obtain ⟨rc, hfinish, hrc⟩ := finish_eq hints n m'
  have hcounted : m'.portsSet.length = n := by
    rw [hserved.counted, hbuilt.portsSet, List.length_nil, Nat.zero_add]
  refine ⟨rc, m', hserv.trans hfinish, ?_, fun hok => ?_⟩
  · rw [hrc, ← hcounted, ne_eq, List.length_eq_zero_iff]
  · obtain ⟨groups, hholds, hspread, hgroups⟩ := hserved.expanded (hrc.mp hok)
    exact ⟨groups, hholds, hspread, hgroups, socktype_ne_zero hgroups applicable_ne_zero⟩

/-- Two addresses, and a service that has the same port for both protocols. -/
theorem gaiServ_expands_both :
    ∃ (b : Building) (l : List Entry), gaiAistructAll (.init fun _ => true) ⟨false, 0, 0⟩
        ([.v4 1, .v6 2].map Host.ofAddress) = (none, b) ∧
      l.map (·.sock.address) = [.v4 1, .v6 2] ∧
      ∃ rc m', gaiServ 3 b.head ⟨false, 0, 0⟩ ['h', 't', 't', 'p'] (fun _ => some 20480) b.memory =
        some (rc, m') ∧ (rc = none ↔ m'.portsSet ≠ []) := by
  obtain ⟨b, l, hb, -, haddresses, -, hserv⟩ := gaiServ_expands (fun _ => true) (fun _ => rfl)
    ⟨false, 0, 0⟩ [.v4 1, .v6 2] ['h', 't', 't', 'p'] fun _ => some 20480
  have hlength : l.length = 2 := by
    rw [← List.length_map, haddresses]
    rfl
  obtain ⟨rc, m', hrun, hrc, -⟩ := hserv 3 (by rw [hlength]; decide)
  exact ⟨b, l, hb, haddresses, rc, m', hrun, hrc⟩

end Asio.Detail.GetAddrInfo
