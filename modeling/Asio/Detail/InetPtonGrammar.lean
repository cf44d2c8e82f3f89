import Asio.Detail.InetPtonLanguage

/-! The text of addresses of version 6: eight groups of one to four hexadecimal digits, two colons
in a row for one or more groups of zeros, the last two groups as four decimal numbers, and a
scope after a `%`. -/

namespace Asio.Detail.InetPton

open Lib.BigEndian Lib.Digits Lib.Separated

/-! ### The grammar -/

def IsGroup (g : Text) : Prop := g ≠ [] ∧ g.length ≤ 4 ∧ AllDigits hexDigit g

def octet (t : Text) : Nat := value 10 decDigit 0 t

def IsOctet (t : Text) : Prop :=
  t ≠ [] ∧ t.length ≤ 3 ∧ AllDigits decDigit t ∧ octet t ≤ 255

/-- Groups and their words; four decimal numbers stand for the last two words. -/
inductive Groups : List Text → List Nat → Prop
  | plain {gs} (h : ∀ g ∈ gs, IsGroup g) : Groups gs (gs.map word)
  | dotted {gs a b c d} (h : ∀ g ∈ gs, IsGroup g) (ha : IsOctet a) (hb : IsOctet b)
      (hc : IsOctet c) (hd : IsOctet d) :
      Groups (gs ++ [['.'].intercalate [a, b, c, d]])
        (gs.map word ++ [octet a * 256 + octet b, octet c * 256 + octet d])

/-- The eight words of which the front and the back are given. -/
def expand (front back : List Nat) : List Nat :=
  front ++ List.replicate (8 - front.length - back.length) 0 ++ back

/-- The text denotes the address of the words. -/
inductive Denotes : Text → List Nat → Prop
  | full {gs ws} (h : Groups gs ws) (hlen : ws.length = 8) :
      Denotes ([':'].intercalate gs) ws
  | compressed {ls gs ws} (hl : ∀ g ∈ ls, IsGroup g) (h : Groups gs ws)
      (hlen : ls.length + ws.length ≤ 7) :
      Denotes ([':'].intercalate ls ++ ':' :: ':' :: [':'].intercalate gs)
        (expand (ls.map word) ws)

/-- The text with or without a scope. -/
inductive DenotesScoped : Text → List Nat → Option Nat → Prop
  | noScope {text ws} (h : Denotes text ws) : DenotesScoped text ws none
  | withScope {text ws digits} (h : Denotes text ws) (hne : digits ≠ [])
      (hall : AllDigits decDigit digits) (hlt : value 10 decDigit 0 digits < 2 ^ 32) :
      DenotesScoped (text ++ '%' :: digits) ws (some (value 10 decDigit 0 digits))

/-! ### The grammar and the scan -/

section Groups

variable {g : Text} {gs ls : List Text} {ws fs bs : List Nat} {c : Char}

theorem toNat_le_of_le {c d : Char} (h : c ≤ d) : c.toNat ≤ d.toNat :=
  UInt32.le_iff_toNat_le.mp h

theorem small_hexDigit : Small 16 hexDigit := by
  intro c d h
  unfold hexDigit at h
  split_ifs at h with h0 ha hA
  · have := toNat_le_of_le h0.2
    obtain rfl := Option.some.inj h
    change c.toNat - 48 < 16
    change c.toNat ≤ 57 at this
    omega
  · have := toNat_le_of_le ha.2
    obtain rfl := Option.some.inj h
    change c.toNat - 97 + 10 < 16
    change c.toNat ≤ 102 at this
    omega
  · have := toNat_le_of_le hA.2
    obtain rfl := Option.some.inj h
    change c.toNat - 65 + 10 < 16
    change c.toNat ≤ 70 at this
    omega

theorem IsGroup.isWord (h : IsGroup g) : IsWord g := by
  refine ⟨h.2.2, ?_⟩
  have hlt := value_lt (w := 0) small_hexDigit h.2.2
  have hpow : 16 ^ g.length ≤ 16 ^ 4 := Nat.pow_le_pow_right (by decide) h.2.1
  rw [word]
  omega

theorem IsGroup.not_mem (h : IsGroup g) : ':' ∉ g ∧ '%' ∉ g ∧ '.' ∉ g :=
  ⟨not_mem_of_allDigits h.2.2 rfl, not_mem_of_allDigits h.2.2 rfl, not_mem_of_allDigits h.2.2 rfl⟩

theorem mem_intercalate {sep : Char} (h : c ∈ [sep].intercalate gs) :
    c = sep ∨ ∃ g ∈ gs, c ∈ g := by
  induction gs with
  | nil => cases h
  | cons g gs ih =>
    cases gs with
    | nil =>
      rw [List.intercalate_singleton] at h
      exact .inr ⟨g, List.mem_cons_self, h⟩
    | cons g' gs =>
      rw [List.intercalate_cons_cons, List.append_assoc, List.mem_append, List.mem_append,
        List.mem_singleton] at h
      rcases h with h | h | h
      · exact .inr ⟨g, List.mem_cons_self, h⟩
      · exact .inl h
      · rcases ih h with h | ⟨g'', hg, hc⟩
        · exact .inl h
        · exact .inr ⟨g'', List.mem_cons_of_mem _ hg, hc⟩

theorem mem_intercalate_of_mem {sep : Char} (hg : g ∈ gs) (hc : c ∈ g) :
    c ∈ [sep].intercalate gs := by
  induction gs with
  | nil => cases hg
  | cons g' gs ih =>
    cases gs with
    | nil =>
      obtain rfl := List.mem_singleton.mp hg
      rwa [List.intercalate_singleton]
    | cons g'' gs =>
      rw [List.intercalate_cons_cons, List.append_assoc, List.mem_append, List.mem_append]
      rcases List.mem_cons.mp hg with rfl | hg
      · exact .inl hc
      · exact .inr (.inr (ih hg))

/-- Without a dot all groups are hexadecimal. -/
theorem Groups.plain_of_not_mem (h : Groups gs ws) (hdot : '.' ∉ [':'].intercalate gs) :
    (∀ g ∈ gs, IsGroup g) ∧ ws = gs.map word := by
  cases h with
  | plain h => exact ⟨h, rfl⟩
  | dotted h ha hb hc hd =>
    exfalso
    apply hdot
    refine mem_intercalate_of_mem (List.mem_append_right _ (List.mem_singleton_self _)) ?_
    rw [List.intercalate_cons_cons, List.append_assoc]
    simp

theorem flatMap_replicate (n : Nat) :
    (List.replicate n 0).flatMap wordBytes = List.replicate (2 * n) 0 := by
  induction n with
  | zero => rfl
  | succ n ih =>
    rw [List.replicate_succ, List.flatMap_cons, ih, show 2 * (n + 1) = 2 + 2 * n by omega,
      List.replicate_add]
    rfl

theorem fill_eq (h : fs.length + bs.length ≤ 8) :
    fill fs bs = (expand fs bs).flatMap wordBytes := by
  rw [fill, expand, List.flatMap_append, List.flatMap_append, flatMap_replicate]
  congr 3
  omega

theorem expand_zero_left (h : bs.length ≤ 7) : expand [0] bs = expand [] bs := by
  obtain ⟨n, hn⟩ := Nat.exists_eq_add_of_le h
  rw [expand, expand, List.length_singleton, List.length_nil,
    show 8 - 0 - bs.length = 8 - 1 - bs.length + 1 by omega, List.replicate_succ]
  rfl

theorem expand_zero_right (h : fs.length ≤ 7) : expand fs [0] = expand fs [] := by
  rw [expand, expand, List.length_singleton, List.length_nil,
    show 8 - fs.length - 0 = 8 - fs.length - 1 + 1 by omega, List.replicate_succ', List.append_nil,
    List.append_assoc]

/-- The groups of a side of two colons, which is one empty group when there is nothing. -/
def side (gs : List Text) : List Text := if gs = [] then [[]] else gs

theorem splitOn_intercalate (h : ∀ g ∈ gs, IsGroup g) :
    ([':'].intercalate gs).splitOn ':' = side gs := by
  unfold side
  split
  · rename_i hgs
    rw [hgs]
    rfl
  · rename_i hgs
    exact List.splitOn_intercalate ':' (fun g hg => (h g hg).not_mem.1) hgs

theorem isWord_side (h : ∀ g ∈ gs, IsGroup g) : ∀ g ∈ side gs, IsWord g := by
  unfold side
  split
  · intro g hg
    obtain rfl := List.mem_singleton.mp hg
    exact ⟨fun c hc => (List.not_mem_nil hc).elim, Nat.zero_le _⟩
  · exact fun g hg => (h g hg).isWord

@[simp] theorem side_nil : side [] = [[]] := rfl

theorem side_of_ne (h : gs ≠ []) : side gs = gs := if_neg h

theorem expand_side (h : ls.length + gs.length ≤ 7) :
    expand ((side ls).map word) ((side gs).map word) = expand (ls.map word) (gs.map word) := by
  have hleft (bs : List Nat) (hbs : bs.length ≤ 7) :
      expand ((side ls).map word) bs = expand (ls.map word) bs := by
    by_cases hls : ls = []
    · subst hls
      exact expand_zero_left hbs
    · rw [side_of_ne hls]
  by_cases hgs : gs = []
  · subst hgs
    rw [hleft _ (by simp)]
    exact expand_zero_right (by simpa using h)
  · rw [side_of_ne hgs, hleft]
    rw [List.length_map]
    omega

theorem length_side (h : ls.length + gs.length ≤ 7) :
    (side ls).length + (side gs).length ≤ 8 := by
  by_cases hls : ls = [] <;> by_cases hgs : gs = []
  · simp [hls, hgs]
  · simp only [hls, side_nil, side_of_ne hgs, List.length_singleton]
    omega
  · simp only [hgs, side_nil, side_of_ne hls, List.length_singleton]
    omega
  · rw [side_of_ne hls, side_of_ne hgs]
    omega

end Groups

section Denotes

variable {src text : Text} {ws : List Nat} {z : Option Nat}

/-- What an address without a dot is cut into. -/
theorem Denotes.cut_eq (h : Denotes text ws) (hdot : '.' ∉ text) : '%' ∉ text ∧
    ∃ ls bs, (cutDouble ':' text).1.splitOn ':' = ls ∧
      (cutDouble ':' text).2.elim [] (List.splitOn ':') = bs ∧
      (∀ g ∈ ls, IsWord g) ∧ (∀ g ∈ bs, IsWord g) ∧ ls.length + bs.length ≤ 8 ∧
      expand (ls.map word) (bs.map word) = ws := by
  cases h with
  | @full gs _ h hlen =>
    obtain ⟨hgs, rfl⟩ := h.plain_of_not_mem hdot
    rw [List.length_map] at hlen
    have hcut : cutDouble ':' ([':'].intercalate gs) = ([':'].intercalate gs, none) := by
      have := cutDouble_intercalate (fun g hg => (hgs g hg).1)
        (fun g hg => (hgs g hg).not_mem.1) []
      simpa using this
    have hne : gs ≠ [] := by
      rintro rfl
      cases hlen
    refine ⟨?_, gs, [], ?_, ?_, fun g hg => (hgs g hg).isWord, by simp, by simp [hlen], ?_⟩
    · intro hmem
      rcases mem_intercalate hmem with hc | ⟨g, hg, hc⟩
      · cases hc
      · exact (hgs g hg).not_mem.2.1 hc
    · rw [hcut, splitOn_intercalate hgs, side_of_ne hne]
    · rw [hcut]
      rfl
    · simp [expand, hlen]
  | @compressed ls gs _ hls h hlen =>
    have hdot' : '.' ∉ [':'].intercalate gs := by
      intro hmem
      apply hdot
      simp [hmem]
    obtain ⟨hgs, rfl⟩ := h.plain_of_not_mem hdot'
    rw [List.length_map] at hlen
    have hcut := cutDouble_intercalate (fun g hg => (hls g hg).1)
      (fun g hg => (hls g hg).not_mem.1) (':' :: ':' :: [':'].intercalate gs)
    rw [cutDouble_double, List.append_nil] at hcut
    refine ⟨?_, side ls, side gs, ?_, ?_, isWord_side hls, isWord_side hgs, length_side hlen,
      expand_side hlen⟩
    · intro hmem
      simp only [List.mem_append, List.mem_cons] at hmem
      rcases hmem with hmem | hc | hc | hmem
      · rcases mem_intercalate hmem with hc | ⟨g, hg, hc⟩
        · cases hc
        · exact (hls g hg).not_mem.2.1 hc
      · cases hc
      · cases hc
      · rcases mem_intercalate hmem with hc | ⟨g, hg, hc⟩
        · cases hc
        · exact (hgs g hg).not_mem.2.1 hc
    · rw [hcut, splitOn_intercalate hls]
    · rw [hcut]
      exact splitOn_intercalate hgs

/-- A text without a dot is read as what it denotes, but for a scope that does not fit. -/
theorem DenotesScoped.reads (h : DenotesScoped src ws z) (hdot : '.' ∉ src) :
    fill ((frontGroups src).map word) ((backGroups src).map word) = ws.flatMap wordBytes ∧
      (scopeText src).map (value 10 decDigit 0) = z ∧ (Loose src ↔ ∀ n ∈ z, n ≤ 0xFFFF) := by
  have hcut : ∃ text, Denotes text ws ∧ '.' ∉ text ∧ (cut '%' src).1 = text ∧
      (scopeText src).map (value 10 decDigit 0) = z ∧
      ∀ t ∈ scopeText src, AllDigits decDigit t := by
    cases h with
    | noScope h =>
      obtain ⟨hpercent, _⟩ := h.cut_eq hdot
      have hc := cut_of_not_mem hpercent
      exact ⟨src, h, hdot, by rw [hc], by rw [scopeText, hc]; rfl, by simp [scopeText, hc]⟩
    | @withScope text _ digits h hne hall hlt =>
      have hdot' : '.' ∉ text := fun hmem => hdot (List.mem_append_left _ hmem)
      obtain ⟨hpercent, _⟩ := h.cut_eq hdot'
      have hc : cut '%' (text ++ '%' :: digits) = (text, some digits) := cut_append hpercent
      exact ⟨text, h, hdot', by rw [hc], by rw [scopeText, hc]; rfl,
        by simpa [scopeText, hc] using hall⟩
  obtain ⟨text, htext, hdot', rfl, rfl, hdigits⟩ := hcut
  obtain ⟨_, ls, bs, hls, hbs, hlsw, hbsw, hcount, hexpand⟩ := htext.cut_eq hdot'
  have hfront : frontGroups src = ls := hls
  have hback : backGroups src = bs := hbs
  refine ⟨?_, rfl, ?_⟩
  · rw [hfront, hback, fill_eq (by simpa using hcount), hexpand]
  · constructor
    · intro hloose n hn
      obtain ⟨t, ht, rfl⟩ := Option.map_eq_some_iff.mp hn
      exact (hloose.scope t ht).2
    · intro hz
      refine ⟨hfront ▸ hlsw, hback ▸ hbsw, by rw [hfront, hback]; exact hcount, ?_⟩
      exact fun t ht => ⟨hdigits t ht, hz _ (Option.map_eq_some_iff.mpr ⟨t, ht, rfl⟩)⟩

/-- A text without a dot gives the bytes of what it denotes, when the scope fits. -/
theorem DenotesScoped.inetPton_eq_ok_iff (h : DenotesScoped src ws z) (hdot : '.' ∉ src)
    {r : List Byte × Option Nat} : inetPton .inet6 src = .ok r ↔
      (∀ n ∈ z, n ≤ 0xFFFF) ∧ r = (ws.flatMap wordBytes, z) := by
  obtain ⟨hbytes, hscope, hloose⟩ := h.reads hdot
  rw [InetPton.inetPton_eq_ok_iff, hbytes, hscope, hloose]

theorem not_mem_of_groups {groups : List Text} {c : Char} (hgroups : text.splitOn ':' = groups)
    (hwords : ∀ g ∈ groups, IsWord g) (hc : hexDigit c = none) (hcolon : c ≠ ':') : c ∉ text := by
  intro hmem
  obtain ⟨g, hg, hcg⟩ := mem_splitOn hmem hcolon
  exact not_mem_of_allDigits (hwords g (hgroups ▸ hg)).1 hc hcg

theorem Loose.not_mem (h : Loose src) : '.' ∉ src := by
  have hfront := not_mem_of_groups (c := '.') rfl h.front rfl (by decide)
  have haddress : '.' ∉ (cut '%' src).1 := by
    rw [← append_cutDouble ':' (cut '%' src).1, List.mem_append, not_or]
    refine ⟨hfront, ?_⟩
    have hback := h.back
    rw [backGroups] at hback
    cases hb : (cutDouble ':' (cut '%' src).1).2 with
    | none => simp
    | some text =>
      rw [hb] at hback
      have := not_mem_of_groups (c := '.') rfl hback rfl (by decide)
      simpa using this
  rw [← append_cut '%' src, List.mem_append, not_or]
  refine ⟨haddress, ?_⟩
  have hscope := h.scope
  rw [scopeText] at hscope
  cases hz : (cut '%' src).2 with
  | none => simp
  | some text =>
    have hall := (hscope text hz).1
    have : '.' ∉ text := by
      intro hmem
      cases hall '.' hmem
    simpa using this

end Denotes

/-- A text is accepted just when it denotes an address, and the bytes are those of the address. -/
def MeetsGrammar (src : Text) : Prop :=
  ((∃ r, inetPton .inet6 src = .ok r) ↔ ∃ ws z, DenotesScoped src ws z) ∧
    ∀ r ws z, inetPton .inet6 src = .ok r → DenotesScoped src ws z →
      r.1 = ws.flatMap wordBytes

section Accepts

variable {src : Text} {ws : List Nat} {z : Option Nat}

/-- Of the texts that denote an address those without a dot and with a scope of 16 bits, and of
the others those that are not in the language of the scan either. -/
theorem meetsGrammar_iff (src : Text) : MeetsGrammar src ↔
    (∃ ws z, DenotesScoped src ws z ∧ '.' ∉ src ∧ ∀ n ∈ z, n ≤ 0xFFFF) ∨
      (¬∃ ws z, DenotesScoped src ws z) ∧ ¬Loose src := by
  rw [MeetsGrammar, inetPton_isOk_iff]
  constructor
  · rintro ⟨hiff, _⟩
    by_cases hgrammar : ∃ ws z, DenotesScoped src ws z
    · have hloose := hiff.mpr hgrammar
      obtain ⟨ws, z, h⟩ := hgrammar
      exact .inl ⟨ws, z, h, hloose.not_mem, (h.reads hloose.not_mem).2.2.mp hloose⟩
    · exact .inr ⟨hgrammar, mt hiff.mp hgrammar⟩
  · rintro (⟨ws, z, h, hdot, hz⟩ | ⟨hgrammar, hloose⟩)
    · refine ⟨iff_of_true ((h.reads hdot).2.2.mpr hz) ⟨ws, z, h⟩, ?_⟩
      intro r ws' z' hr h'
      obtain ⟨_, rfl⟩ := inetPton_eq_ok_iff.mp hr
      exact (h'.reads hdot).1
    · exact ⟨iff_of_false hloose hgrammar, fun _ ws z _ h => absurd ⟨ws, z, h⟩ hgrammar⟩

theorem intercalate_colon_mem {g g' : Text} {gs : List Text} :
    ':' ∈ [':'].intercalate (g :: g' :: gs) := by
  rw [List.intercalate_cons_cons, List.append_assoc]
  simp

theorem Denotes.colon_mem (h : Denotes src ws) : ':' ∈ src := by
  cases h with
  | @full gs _ h hlen =>
    cases h with
    | plain h =>
      obtain ⟨g, g', gs, rfl⟩ : ∃ g g' gs', gs = g :: g' :: gs' := by
        match gs, hlen with
        | g :: g' :: gs', _ => exact ⟨g, g', gs', rfl⟩
      exact intercalate_colon_mem
    | @dotted gs a b c d h =>
      obtain ⟨g, g', gs, rfl⟩ : ∃ g g' gs', gs = g :: g' :: gs' := by
        match gs, hlen with
        | g :: g' :: gs', _ => exact ⟨g, g', gs', rfl⟩
      exact intercalate_colon_mem
  | compressed => simp

theorem DenotesScoped.colon_mem (h : DenotesScoped src ws z) : ':' ∈ src := by
  cases h with
  | noScope h => exact h.colon_mem
  | withScope h => exact List.mem_append_left _ h.colon_mem

/-- The empty text is accepted. -/
theorem not_meetsGrammar : ¬∀ src, MeetsGrammar src := by
  intro h
  have hword : IsWord [] := ⟨fun c hc => (List.not_mem_nil hc).elim, Nat.zero_le _⟩
  have hloose : Loose [] := by
    refine ⟨?_, by simp [backGroups], by simp [frontGroups, backGroups], by simp [scopeText]⟩
    simpa [frontGroups] using hword
  rcases (meetsGrammar_iff []).mp (h []) with ⟨ws, z, h, _⟩ | ⟨_, hnot⟩
  · cases h.colon_mem
  · exact hnot hloose

end Accepts

end Asio.Detail.InetPton
