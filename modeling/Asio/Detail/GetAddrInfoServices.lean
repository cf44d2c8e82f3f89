import Asio.Detail.GetAddrInfo

/-! The entries of a list, what each walk for a port makes of them, and what they are in the end. -/

namespace Asio.Detail.GetAddrInfo

/-! ### Entries -/

/-- An entry of a list: where it and its address are, and what is there. -/
structure Entry where
  node : Nat
  addr : Nat
  header : Header
  sock : SockAddr

namespace Entry

variable (e : Entry)

def isInet : Prop := ∀ value, e.header.family ≠ .other value

def flagged : Prop := e.header.flags &&& cloneFlag ≠ 0

def assign (port : BitVec 16) (socktype : Int) : Entry :=
  { e with
    header := { e.header with socktype := socktype }
    sock := { e.sock with port := port } }

def info (next : Option Nat) : AddrInfo := ⟨e.header, some e.addr, next⟩

end Entry

/-- The entries that the links lead through. -/
inductive Holds (m : Memory) : Option Nat → List Entry → Prop
  | nil : Holds m none []
  | cons : m.infos e.node = some (e.info next) → m.addrs e.addr = some e.sock →
      Holds m next l → Holds m (some e.node) (e :: l)

/-- No two entries share anything, and all of it has been allocated. -/
structure Spread (used : Nat) (l : List Entry) : Prop where
  nodes : (l.map Entry.node).Nodup
  addrs : (l.map Entry.addr).Nodup
  below : ∀ e ∈ l, e.node < used ∧ e.addr < used

/-- What is not at the entries stays as it is. -/
structure Frame (m m' : Memory) (l : List Entry) : Prop where
  infos : ∀ p, p < m.used → p ∉ l.map Entry.node → m'.infos p = m.infos p
  addrs : ∀ p, p < m.used → p ∉ l.map Entry.addr → m'.addrs p = m.addrs p
  used_le : m.used ≤ m'.used
  succeeds : m'.succeeds = m.succeeds

section Entries

variable {m m' m₁ : Memory} {head next : Option Nat} {l l' : List Entry} {e x : Entry}
variable {used : Nat}

theorem Holds.congr (h : Holds m head l) (hinfos : ∀ e ∈ l, m'.infos e.node = m.infos e.node)
    (haddrs : ∀ e ∈ l, m'.addrs e.addr = m.addrs e.addr) : Holds m' head l := by
  induction h with
  | nil => exact .nil
  | cons hinfo haddr _ ih =>
    refine .cons ((hinfos _ List.mem_cons_self).trans hinfo)
      ((haddrs _ List.mem_cons_self).trans haddr) (ih ?_ ?_)
    · exact fun e he => hinfos e (List.mem_cons_of_mem _ he)
    · exact fun e he => haddrs e (List.mem_cons_of_mem _ he)

theorem Holds.uncons (h : Holds m head (e :: l)) :
    ∃ next, head = some e.node ∧ m.infos e.node = some (e.info next) ∧
      m.addrs e.addr = some e.sock ∧ Holds m next l := by
  cases h with
  | cons hinfo haddr hl => exact ⟨_, rfl, hinfo, haddr, hl⟩

theorem Spread.tail (h : Spread used (e :: l)) : Spread used l :=
  ⟨(List.nodup_cons.mp h.nodes).2, (List.nodup_cons.mp h.addrs).2,
    fun x hx => h.below x (List.mem_cons_of_mem _ hx)⟩

theorem Spread.mono {used' : Nat} (h : Spread used l) (hle : used ≤ used') : Spread used' l :=
  ⟨h.nodes, h.addrs, fun e he =>
    ⟨Nat.lt_of_lt_of_le (h.below e he).1 hle, Nat.lt_of_lt_of_le (h.below e he).2 hle⟩⟩

theorem Spread.cons (h : Spread used l) (hnode : e.node < used) (haddr : e.addr < used)
    (hne : ∀ x ∈ l, x.node ≠ e.node ∧ x.addr ≠ e.addr) : Spread used (e :: l) where
  nodes := by
    rw [List.map_cons, List.nodup_cons, List.mem_map]
    exact ⟨fun ⟨x, hx, heq⟩ => (hne x hx).1 heq, h.nodes⟩
  addrs := by
    rw [List.map_cons, List.nodup_cons, List.mem_map]
    exact ⟨fun ⟨x, hx, heq⟩ => (hne x hx).2 heq, h.addrs⟩
  below := List.forall_mem_cons.mpr ⟨⟨hnode, haddr⟩, h.below⟩

theorem Spread.ne (h : Spread used (e :: l)) (hx : x ∈ l) : x.node ≠ e.node ∧ x.addr ≠ e.addr := by
  constructor
  · exact fun heq => (List.nodup_cons.mp h.nodes).1 (heq ▸ List.mem_map_of_mem hx)
  · exact fun heq => (List.nodup_cons.mp h.addrs).1 (heq ▸ List.mem_map_of_mem hx)

theorem Frame.refl (m : Memory) : Frame m m l :=
  ⟨fun _ _ _ => rfl, fun _ _ _ => rfl, Nat.le_refl _, rfl⟩

theorem Frame.trans (h : Frame m m₁ [e]) (h' : Frame m₁ m' l) : Frame m m' (e :: l) where
  infos p hp hmem := by
    rw [List.map_cons, List.mem_cons, not_or] at hmem
    rw [h'.infos p (Nat.lt_of_lt_of_le hp h.used_le) hmem.2]
    exact h.infos p hp (by simpa using hmem.1)
  addrs p hp hmem := by
    rw [List.map_cons, List.mem_cons, not_or] at hmem
    rw [h'.addrs p (Nat.lt_of_lt_of_le hp h.used_le) hmem.2]
    exact h.addrs p hp (by simpa using hmem.1)
  used_le := Nat.le_trans h.used_le h'.used_le
  succeeds := h'.succeeds.trans h.succeeds

/-- The rest of the list does not see what is done at an entry. -/
theorem Frame.rest (h : Frame m m' [e]) (hs : Spread m.used (e :: l)) (hl : Holds m head l) :
    Holds m' head l := by
  refine hl.congr (fun x hx => h.infos x.node ?_ ?_) (fun x hx => h.addrs x.addr ?_ ?_)
  · exact (hs.below x (List.mem_cons_of_mem _ hx)).1
  · simpa using (hs.ne hx).1
  · exact (hs.below x (List.mem_cons_of_mem _ hx)).2
  · simpa using (hs.ne hx).2

/-- An entry does not see what is done to the rest of the list. -/
theorem Frame.first (h : Frame m m' l) (hnode : e.node < m.used) (haddr : e.addr < m.used)
    (hne : ∀ x ∈ l, x.node ≠ e.node ∧ x.addr ≠ e.addr) :
    m'.infos e.node = m.infos e.node ∧ m'.addrs e.addr = m.addrs e.addr := by
  constructor
  · refine h.infos e.node hnode fun hmem => ?_
    obtain ⟨x, hx, heq⟩ := List.mem_map.mp hmem
    exact (hne x hx).1 heq
  · refine h.addrs e.addr haddr fun hmem => ?_
    obtain ⟨x, hx, heq⟩ := List.mem_map.mp hmem
    exact (hne x hx).2 heq

end Entries

/-! ### The functions at one entry -/

section Steps

variable {m : Memory} {e : Entry} {next : Option Nat}

theorem assign_eq (hinfo : m.infos e.node = some (e.info next))
    (haddr : m.addrs e.addr = some e.sock)
    (hinet : e.isInet) (port : BitVec 16) (socktype : Int) :
    ∃ m', assign m e.node port socktype = (1, m') ∧ Frame m m' [e] ∧ m'.used = m.used ∧
      m'.infos e.node = some ((e.assign port socktype).info next) ∧
      m'.addrs e.addr = some (e.assign port socktype).sock ∧
      m'.portsSet.length = m.portsSet.length + 1 := by
  have hassign : assign m e.node port socktype =
      (1, { (m.setInfo e.node ((e.assign port socktype).info next)).setAddr e.addr
        (e.assign port socktype).sock with portsSet := m.portsSet ++ [e.addr] }) := by
    cases hf : e.header.family with
    | inet => simp [GetAddrInfo.assign, hinfo, haddr, Entry.assign, Entry.info, hf]
    | inet6 => simp [GetAddrInfo.assign, hinfo, haddr, Entry.assign, Entry.info, hf]
    | other value => exact absurd hf (hinet value)
  refine ⟨_, hassign, ⟨fun p _ hp => ?_, fun p _ hp => ?_, Nat.le_refl _, rfl⟩, rfl,
    Function.update_self .., Function.update_self .., List.length_append⟩
  · exact Function.update_of_ne (by simpa using hp) ..
  · exact Function.update_of_ne (by simpa using hp) ..

/-- The entry that is cloned from another, at the two allocations that come next. -/
def cloned (m : Memory) (e : Entry) : Entry where
  node := m.used
  addr := m.used + 1
  header := { e.header with flags := 0, canonname := none }
  sock := e.sock

theorem gaiClone_eq (next : Option Nat) (hsucceeds : ∀ n, m.succeeds n = true)
    (haddr : m.addrs e.addr = some e.sock) (hbelow : e.node < m.used ∧ e.addr < m.used) :
    ∃ m', gaiClone m e.node (e.info next) = (some m.used, m') ∧ Frame m m' [e] ∧
      m'.used = m.used + 2 ∧ m'.infos e.node = some (e.info (some m.used)) ∧
      m'.addrs e.addr = some e.sock ∧
      m'.infos (cloned m e).node = some ((cloned m e).info next) ∧
      m'.addrs (cloned m e).addr = some (cloned m e).sock ∧ m'.portsSet = m.portsSet := by
  have hclone : gaiClone m e.node (e.info next) = (some m.used,
      (({ m with used := m.used + 2 }.setInfo e.node (e.info (some m.used))).setInfo m.used
        ((cloned m e).info next)).setAddr (m.used + 1) e.sock) := by
    simp [gaiClone, Memory.alloc, hsucceeds, Entry.info, cloned, haddr]
  obtain ⟨hnode, hlt⟩ := hbelow
  have haddr' : e.addr ≠ m.used + 1 := Nat.ne_of_lt (Nat.lt_succ_of_lt hlt)
  refine ⟨_, hclone, ⟨fun p hp hmem => ?_, fun p hp hmem => ?_, Nat.le_add_right .., rfl⟩, rfl,
    ?_, ?_, ?_, ?_, rfl⟩
  · have hne : p ≠ e.node := by simpa using hmem
    simp [Nat.ne_of_lt hp, hne]
  · simp [Nat.ne_of_lt (Nat.lt_succ_of_lt hp)]
  · simp [Nat.ne_of_lt hnode]
  · simp [haddr', haddr]
  · simp [cloned]
  · simp [cloned]

/-- The clone is made and gets the port, while the entry now leads to it. -/
theorem clone_assign_eq (next : Option Nat) (hsucceeds : ∀ n, m.succeeds n = true)
    (haddr : m.addrs e.addr = some e.sock) (hbelow : e.node < m.used ∧ e.addr < m.used)
    (hinet : e.isInet) (port : BitVec 16) (socktype : Int) :
    ∃ m₁ m₂, gaiClone m e.node (e.info next) = (some (cloned m e).node, m₁) ∧
      assign m₁ (cloned m e).node port socktype = (1, m₂) ∧ Frame m m₂ [e] ∧
      m₂.used = m.used + 2 ∧ m₂.infos e.node = some (e.info (some (cloned m e).node)) ∧
      m₂.addrs e.addr = some e.sock ∧
      m₂.infos (cloned m e).node = some (((cloned m e).assign port socktype).info next) ∧
      m₂.addrs (cloned m e).addr = some ((cloned m e).assign port socktype).sock ∧
      m₂.portsSet.length = m.portsSet.length + 1 := by
  obtain ⟨m₁, hclone, hframe₁, hused₁, hinfo₁, haddr₁, hcinfo₁, hcaddr₁, hset₁⟩ :=
    gaiClone_eq next hsucceeds haddr hbelow
  obtain ⟨m₂, hassign, hframe₂, hused₂, hcinfo₂, hcaddr₂, hset₂⟩ :=
    assign_eq hcinfo₁ hcaddr₁ hinet port socktype
  -- The clone is where nothing was.
  have hold : ∀ p, p < m.used → m₂.infos p = m₁.infos p ∧ m₂.addrs p = m₁.addrs p := by
    intro p hp
    have hlt : p < m₁.used := Nat.lt_of_lt_of_le hp hframe₁.used_le
    constructor
    · exact hframe₂.infos p hlt (by simpa [cloned] using Nat.ne_of_lt hp)
    · exact hframe₂.addrs p hlt (by simpa [cloned] using Nat.ne_of_lt (Nat.lt_succ_of_lt hp))
  refine ⟨m₁, m₂, hclone, hassign, ⟨fun p hp hmem => ?_, fun p hp hmem => ?_, ?_, ?_⟩,
    hused₂.trans hused₁, (hold _ hbelow.1).1.trans hinfo₁, (hold _ hbelow.2).2.trans haddr₁,
    hcinfo₂, hcaddr₂, by rw [hset₂, hset₁]⟩
  · rw [(hold p hp).1, hframe₁.infos p hp hmem]
  · rw [(hold p hp).2, hframe₁.addrs p hp hmem]
  · exact Nat.le_trans hframe₁.used_le hframe₂.used_le
  · exact hframe₂.succeeds.trans hframe₁.succeeds

end Steps

/-! ### A walk -/

/-- What a walk makes of the entries, and how many of them it gives the port. -/
inductive Pass (port : BitVec 16) (socktype : Int) (used : Nat) :
    List Entry → List Entry → Nat → Prop
  | nil : Pass port socktype used [] [] 0
  | skip : ¬ e.flagged → e.header.socktype ≠ socktype → Pass port socktype used l l' n →
      Pass port socktype used (e :: l) (e :: l') n
  | assign : (e.flagged → e.header.socktype = 0) → (¬ e.flagged → e.header.socktype = socktype) →
      Pass port socktype used l l' n →
      Pass port socktype used (e :: l) (e.assign port socktype :: l') (n + 1)
  | clone {c : Entry} : e.flagged → e.header.socktype ≠ 0 → used ≤ c.node → used ≤ c.addr →
      c.header = { e.header with flags := 0, canonname := none } → c.sock = e.sock →
      Pass port socktype used l l' n →
      Pass port socktype used (e :: l) (e :: c.assign port socktype :: l') (n + 1)

/-- A walk from a link on is done. -/
structure Walked (m m' : Memory) (port : BitVec 16) (socktype : Int) (head : Option Nat)
    (l l' : List Entry) (n : Nat) : Prop where
  holds : Holds m' head l'
  spread : Spread m'.used l'
  frame : Frame m m' l
  pass : Pass port socktype m.used l l' n
  portsSet : m'.portsSet.length = m.portsSet.length + n

section Walk

variable {port : BitVec 16} {socktype : Int} {used used' n : Nat} {l l' : List Entry}
variable {m m₁ m' : Memory} {head next : Option Nat} {e x : Entry}

theorem Pass.mono (h : Pass port socktype used' l l' n) (hle : used ≤ used') :
    Pass port socktype used l l' n := by
  induction h with
  | nil => exact .nil
  | skip hf ht _ ih => exact .skip hf ht ih
  | assign hf ht _ ih => exact .assign hf ht ih
  | clone hf ht hnode haddr hheader hsock _ ih =>
    exact .clone hf ht (Nat.le_trans hle hnode) (Nat.le_trans hle haddr) hheader hsock ih

/-- The entries after a walk are at old places or at new ones. -/
theorem Pass.places (h : Pass port socktype used l l' n) (hx : x ∈ l') :
    (∃ e ∈ l, x.node = e.node ∧ x.addr = e.addr) ∨ used ≤ x.node ∧ used ≤ x.addr := by
  induction h with
  | nil => exact absurd hx List.not_mem_nil
  | skip _ _ _ ih =>
    rcases List.mem_cons.mp hx with rfl | hx
    · exact .inl ⟨x, List.mem_cons_self, rfl, rfl⟩
    · exact (ih hx).imp_left fun ⟨e, he, heq⟩ => ⟨e, List.mem_cons_of_mem _ he, heq⟩
  | assign _ _ _ ih =>
    rcases List.mem_cons.mp hx with rfl | hx
    · exact .inl ⟨_, List.mem_cons_self, rfl, rfl⟩
    · exact (ih hx).imp_left fun ⟨e, he, heq⟩ => ⟨e, List.mem_cons_of_mem _ he, heq⟩
  | clone _ _ hnode haddr _ _ _ ih =>
    rcases List.mem_cons.mp hx with rfl | hx
    · exact .inl ⟨x, List.mem_cons_self, rfl, rfl⟩
    · rcases List.mem_cons.mp hx with rfl | hx
      · exact .inr ⟨hnode, haddr⟩
      · exact (ih hx).imp_left fun ⟨e, he, heq⟩ => ⟨e, List.mem_cons_of_mem _ he, heq⟩

/-- An old entry that is not among those of the walk is at none of the places after it. -/
theorem Pass.ne (h : Pass port socktype used l l' n) (hnode : e.node < used) (haddr : e.addr < used)
    (hne : ∀ x ∈ l, x.node ≠ e.node ∧ x.addr ≠ e.addr) (hx : x ∈ l') :
    x.node ≠ e.node ∧ x.addr ≠ e.addr := by
  rcases h.places hx with ⟨y, hy, heqn, heqa⟩ | ⟨hlen, hlea⟩
  · rw [heqn, heqa]
    exact hne y hy
  · exact ⟨Nat.ne_of_gt (Nat.lt_of_lt_of_le hnode hlen),
      Nat.ne_of_gt (Nat.lt_of_lt_of_le haddr hlea)⟩

/-- An entry in front of a walk that was done behind it. -/
theorem Walked.front (h : Walked m₁ m' port socktype next l l' n) (hnode : e.node < m₁.used)
    (haddr : e.addr < m₁.used) (hne : ∀ x ∈ l, x.node ≠ e.node ∧ x.addr ≠ e.addr)
    (hinfo : m₁.infos e.node = some (e.info next)) (hsock : m₁.addrs e.addr = some e.sock) :
    Holds m' (some e.node) (e :: l') ∧ Spread m'.used (e :: l') := by
  obtain ⟨hinfos, haddrs⟩ := h.frame.first hnode haddr hne
  constructor
  · exact .cons (hinfos.trans hinfo) (haddrs.trans hsock) h.holds
  · exact h.spread.cons (Nat.lt_of_lt_of_le hnode h.frame.used_le)
      (Nat.lt_of_lt_of_le haddr h.frame.used_le) fun x hx => h.pass.ne hnode haddr hne hx

section Iterations

variable {fuel numFound : Nat} {c : Entry} {m₂ : Memory}

theorem gaiPort_skip (hinfo : m.infos e.node = some (e.info next)) (hf : ¬ e.flagged)
    (ht : e.header.socktype ≠ socktype) :
    gaiPort port socktype (fuel + 1) m (some e.node) numFound =
      gaiPort port socktype fuel m next numFound := by
  have hflags : e.header.flags &&& cloneFlag = 0 := Decidable.not_not.mp hf
  simp [gaiPort, hinfo, Entry.info, hflags, ht]

theorem gaiPort_assign (hinfo : m.infos e.node = some (e.info next))
    (hf : e.flagged → e.header.socktype = 0) (hf' : ¬ e.flagged → e.header.socktype = socktype)
    (hassign : GetAddrInfo.assign m e.node port socktype = (1, m₁))
    (hinfo₁ : m₁.infos e.node = some ((e.assign port socktype).info next)) :
    gaiPort port socktype (fuel + 1) m (some e.node) numFound =
      gaiPort port socktype fuel m₁ next (numFound + 1) := by
  by_cases hflagged : e.flagged
  · have hflags : e.header.flags &&& cloneFlag ≠ 0#32 := hflagged
    simp [gaiPort, hinfo, Entry.info, hflags, hf hflagged, hassign, hinfo₁]
  · have hflags : e.header.flags &&& cloneFlag = 0 := Decidable.not_not.mp hflagged
    simp [gaiPort, hinfo, Entry.info, hflags, hf' hflagged, hassign, hinfo₁]

theorem gaiPort_clone (hinfo : m.infos e.node = some (e.info next)) (hf : e.flagged)
    (ht : e.header.socktype ≠ 0) (hclone : gaiClone m e.node (e.info next) = (some c.node, m₁))
    (hassign : GetAddrInfo.assign m₁ c.node port socktype = (1, m₂))
    (hinfo₂ : m₂.infos c.node = some ((c.assign port socktype).info next)) :
    gaiPort port socktype (fuel + 1) m (some e.node) numFound =
      gaiPort port socktype fuel m₂ next (numFound + 1) := by
  have hflags : e.header.flags &&& cloneFlag ≠ 0#32 := hf
  rw [Entry.info] at hclone
  simp [gaiPort, hinfo, Entry.info, hflags, ht, hclone, hassign, hinfo₂]

end Iterations

theorem Walked.skip (h : Walked m m' port socktype next l l' n) (hs : Spread m.used (e :: l))
    (hinfo : m.infos e.node = some (e.info next)) (haddr : m.addrs e.addr = some e.sock)
    (hf : ¬ e.flagged) (ht : e.header.socktype ≠ socktype) :
    Walked m m' port socktype (some e.node) (e :: l) (e :: l') n := by
  have hbelow := hs.below e List.mem_cons_self
  obtain ⟨hholds, hspread⟩ := h.front hbelow.1 hbelow.2 (fun x hx => hs.ne hx) hinfo haddr
  exact ⟨hholds, hspread, (Frame.refl m).trans h.frame, .skip hf ht h.pass, h.portsSet⟩

theorem Walked.assign (h : Walked m₁ m' port socktype next l l' n) (hs : Spread m.used (e :: l))
    (hf : e.flagged → e.header.socktype = 0) (hf' : ¬ e.flagged → e.header.socktype = socktype)
    (hframe : Frame m m₁ [e]) (hinfo : m₁.infos e.node = some ((e.assign port socktype).info next))
    (haddr : m₁.addrs e.addr = some (e.assign port socktype).sock)
    (hset : m₁.portsSet.length = m.portsSet.length + 1) :
    Walked m m' port socktype (some e.node) (e :: l) (e.assign port socktype :: l') (n + 1) := by
  have hbelow := hs.below e List.mem_cons_self
  obtain ⟨hholds, hspread⟩ := h.front (e := e.assign port socktype)
    (Nat.lt_of_lt_of_le hbelow.1 hframe.used_le) (Nat.lt_of_lt_of_le hbelow.2 hframe.used_le)
    (fun x hx => hs.ne hx) hinfo haddr
  refine ⟨hholds, hspread, hframe.trans h.frame, .assign hf hf' (h.pass.mono hframe.used_le), ?_⟩
  rw [h.portsSet, hset, Nat.add_assoc, Nat.add_comm 1]

theorem Walked.clone (h : Walked m₁ m' port socktype next l l' n) (hs : Spread m.used (e :: l))
    (hf : e.flagged) (ht : e.header.socktype ≠ 0) (hframe : Frame m m₁ [e])
    (hused : m₁.used = m.used + 2)
    (hinfo : m₁.infos e.node = some (e.info (some (cloned m e).node)))
    (haddr : m₁.addrs e.addr = some e.sock)
    (hcinfo : m₁.infos (cloned m e).node = some (((cloned m e).assign port socktype).info next))
    (hcaddr : m₁.addrs (cloned m e).addr = some ((cloned m e).assign port socktype).sock)
    (hset : m₁.portsSet.length = m.portsSet.length + 1) :
    Walked m m' port socktype (some e.node) (e :: l)
      (e :: (cloned m e).assign port socktype :: l') (n + 1) := by
  have hne : ∀ x ∈ l, x.node ≠ e.node ∧ x.addr ≠ e.addr := fun x hx => hs.ne hx
  have hbelow := hs.below e List.mem_cons_self
  have hnode := Nat.lt_of_lt_of_le hbelow.1 hframe.used_le
  have haddr' := Nat.lt_of_lt_of_le hbelow.2 hframe.used_le
  -- The clone is where nothing was.
  have hcne : ∀ x ∈ l, x.node ≠ (cloned m e).node ∧ x.addr ≠ (cloned m e).addr := by
    intro x hx
    have hx := hs.below x (List.mem_cons_of_mem _ hx)
    exact ⟨Nat.ne_of_lt hx.1, Nat.ne_of_lt (Nat.lt_succ_of_lt hx.2)⟩
  have hcnode : (cloned m e).node < m₁.used := by
    rw [hused]
    exact Nat.lt_add_of_pos_right (by decide)
  have hcaddr' : (cloned m e).addr < m₁.used := by
    rw [hused]
    exact Nat.lt_succ_self _
  obtain ⟨hcholds, hcspread⟩ := h.front (e := (cloned m e).assign port socktype) hcnode hcaddr'
    hcne hcinfo hcaddr
  obtain ⟨hinfo', hsock'⟩ := h.frame.first hnode haddr' hne
  refine ⟨.cons (hinfo'.trans hinfo) (hsock'.trans haddr) hcholds, ?_, hframe.trans h.frame,
    .clone hf ht (Nat.le_refl _) (Nat.le_succ _) rfl rfl (h.pass.mono hframe.used_le), ?_⟩
  · refine hcspread.cons (Nat.lt_of_lt_of_le hnode h.frame.used_le)
      (Nat.lt_of_lt_of_le haddr' h.frame.used_le) fun x hx => ?_
    rcases List.mem_cons.mp hx with rfl | hx
    · exact ⟨Nat.ne_of_gt hbelow.1, Nat.ne_of_gt (Nat.lt_succ_of_lt hbelow.2)⟩
    · exact h.pass.ne hnode haddr' hne hx
  · rw [h.portsSet, hset, Nat.add_assoc, Nat.add_comm 1]

/-- A walk comes to the end of its list, whatever is cloned on the way. -/
theorem gaiPort_walked (port : BitVec 16) (socktype : Int) {fuel : Nat}
    (hsucceeds : ∀ k, m.succeeds k = true) (h : Holds m head l) (hs : Spread m.used l) (hinet : ∀ e ∈ l, e.isInet)
    (hfuel : l.length < fuel) (numFound : Nat) :
    ∃ m' l' n, gaiPort port socktype fuel m head numFound = some (some (numFound + n), m') ∧
      Walked m m' port socktype head l l' n := by
  induction l generalizing m head fuel numFound with
  | nil =>
    cases h
    obtain ⟨fuel, rfl⟩ := Nat.exists_eq_succ_of_ne_zero (Nat.ne_of_gt hfuel)
    exact ⟨m, [], 0, rfl, .nil, hs, .refl m, .nil, rfl⟩
  | cons e l ih =>
    obtain ⟨fuel, rfl⟩ := Nat.exists_eq_succ_of_ne_zero (Nat.ne_of_gt (Nat.zero_lt_of_lt hfuel))
    have hfuel : l.length < fuel := Nat.lt_of_succ_lt_succ hfuel
    obtain ⟨hinet, hinet'⟩ := List.forall_mem_cons.mp hinet
    obtain ⟨next, rfl, hinfo, haddr, hl⟩ := h.uncons
    by_cases hskip : ¬ e.flagged ∧ e.header.socktype ≠ socktype
    · obtain ⟨m', l', n, hport, hwalked⟩ := ih hsucceeds hl hs.tail hinet' hfuel numFound
      exact ⟨m', e :: l', n, (gaiPort_skip hinfo hskip.1 hskip.2).trans hport,
        hwalked.skip hs hinfo haddr hskip.1 hskip.2⟩
    by_cases hclone : e.flagged ∧ e.header.socktype ≠ 0
    · obtain ⟨m₁, m₂, hcloned, hassign, hframe, hused, hinfo₂, haddr₂, hcinfo, hcaddr, hset⟩ :=
        clone_assign_eq next hsucceeds haddr (hs.below e List.mem_cons_self) hinet port
          socktype
      have hsucceeds₂ : ∀ k, m₂.succeeds k = true := by rwa [hframe.succeeds]
      obtain ⟨m', l', n, hport, hwalked⟩ := ih hsucceeds₂ (hframe.rest hs hl)
        (hs.tail.mono hframe.used_le) hinet' hfuel (numFound + 1)
      refine ⟨m', _, n + 1, ?_, hwalked.clone hs hclone.1 hclone.2 hframe hused hinfo₂ haddr₂
        hcinfo hcaddr hset⟩
      rw [gaiPort_clone hinfo hclone.1 hclone.2 hcloned hassign hcinfo, hport, Nat.add_assoc,
        Nat.add_comm 1]
    · have hf : e.flagged → e.header.socktype = 0 := by
        intro hf
        exact Decidable.not_not.mp fun ht => hclone ⟨hf, ht⟩
      have hf' : ¬ e.flagged → e.header.socktype = socktype := by
        intro hf
        exact Decidable.not_not.mp fun ht => hskip ⟨hf, ht⟩
      obtain ⟨m₁, hassign, hframe, -, hinfo₁, haddr₁, hset⟩ :=
        assign_eq hinfo haddr hinet port socktype
      have hsucceeds₁ : ∀ k, m₁.succeeds k = true := by rwa [hframe.succeeds]
      obtain ⟨m', l', n, hport, hwalked⟩ := ih hsucceeds₁ (hframe.rest hs hl)
        (hs.tail.mono hframe.used_le) hinet' hfuel (numFound + 1)
      refine ⟨m', _, n + 1, ?_, hwalked.assign hs hf hf' hframe hinfo₁ haddr₁ hset⟩
      rw [gaiPort_assign hinfo hf hf' hassign hinfo₁, hport, Nat.add_assoc, Nat.add_comm 1]

end Walk

end Asio.Detail.GetAddrInfo
