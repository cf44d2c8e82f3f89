import Mathlib.Data.List.TakeWhile
import Asio.Ip.Network

/-! Networks from their text: an address, a slash and the length of the prefix. -/

universe u v

namespace Asio.Ip

/-! ### Conversion of decimal numbers -/

def isSpace (c : Char) : Bool := c ∈ [' ', '\t', '\n', '\x0b', '\x0c', '\r']

def decimal (digits : List Char) : Nat := digits.foldl (fun n c => 10 * n + (c.toNat - 48)) 0

/-- `strtol` in base 10, of a type of 64 bits. -/
def strtol (str : List Char) : Int :=
  match str.dropWhile isSpace with
  | '-' :: rest => max (-(decimal (rest.takeWhile Char.isDigit) : Int)) (-2 ^ 63)
  | '+' :: rest => min (decimal (rest.takeWhile Char.isDigit)) (2 ^ 63 - 1)
  | rest => min (decimal (rest.takeWhile Char.isDigit)) (2 ^ 63 - 1)

/-- The conversion to `int` keeps the last 32 bits. -/
def atoi (str : List Char) : Int := (BitVec.ofInt 32 (strtol str)).toInt

section Digits

variable {digits : List Char} {m : Nat}

theorem isSpace_of_isDigit {c : Char} (h : c.isDigit) : isSpace c = false := by
  by_contra hspace
  rw [Bool.not_eq_false, isSpace, decide_eq_true_eq] at hspace
  simp only [List.mem_cons, List.not_mem_nil, or_false] at hspace
  rcases hspace with rfl | rfl | rfl | rfl | rfl | rfl <;> revert h <;> decide

theorem strtol_of_digits (h : ∀ c ∈ digits, c.isDigit) :
    strtol digits = min (decimal digits : Int) (2 ^ 63 - 1) := by
  have hdrop : digits.dropWhile isSpace = digits := by
    cases digits with
    | nil => rfl
    | cons c rest =>
      rw [List.dropWhile_cons_of_neg]
      rw [isSpace_of_isDigit (h c List.mem_cons_self)]
      exact Bool.false_ne_true
  have htake : digits.takeWhile Char.isDigit = digits := List.takeWhile_eq_self_iff.mpr h
  rw [strtol, hdrop]
  split
  · exact absurd (h '-' List.mem_cons_self) (by decide)
  · exact absurd (h '+' List.mem_cons_self) (by decide)
  · rw [htake]

/-- A number that does not fit becomes negative. -/
theorem atoi_of_digits (h : ∀ c ∈ digits, c.isDigit) (hm : m < 2 ^ 31) :
    0 ≤ atoi digits ∧ atoi digits ≤ m ↔
      decimal digits < 2 ^ 63 ∧ decimal digits % 2 ^ 32 ≤ m := by
  rw [atoi, strtol_of_digits h, BitVec.toInt_ofInt, Int.bmod]
  split <;> omega

theorem toNat_atoi (h : ∀ c ∈ digits, c.isDigit) (hm : m < 2 ^ 31)
    (hv : decimal digits < 2 ^ 63) (hle : decimal digits % 2 ^ 32 ≤ m) :
    (atoi digits).toNat = decimal digits % 2 ^ 32 := by
  rw [atoi, strtol_of_digits h, BitVec.toInt_ofInt, Int.bmod]
  split <;> omega

end Digits

/-! ### Networks -/

inductive ParseError
  | invalidArgument
  | system (code : Nat)
  deriving DecidableEq, Repr

/-- What the functions for both versions do, of the longest prefix and the network of an address
that they differ in. The function gives an error code, or none, and a network. -/
def makeNetwork {α : Type u} {ν : Type v} (maxLen : Nat) (default : ν)
    (network : α → (prefixLen : Nat) → prefixLen ≤ maxLen → ν)
    (makeAddress : List Char → Except ParseError α) (str : List Char) : Option ParseError × ν :=
  match str.findIdx? (· = '/') with
  | none => (some .invalidArgument, default)
  | some pos =>
    if pos = str.length - 1 then
      (some .invalidArgument, default)
    else if ((str.drop (pos + 1)).findIdx? fun c => !c.isDigit).isSome then
      (some .invalidArgument, default)
    else
      match makeAddress (str.take pos) with
      | .error ec => (some ec, default)
      | .ok addr =>
        let prefixLen := atoi (str.drop (pos + 1))
        if h : prefixLen < 0 ∨ prefixLen > maxLen then
          (some .invalidArgument, default)
        else
          (none, network addr prefixLen.toNat (by omega))

def makeNetworkV4 (makeAddressV4 : List Char → Except ParseError AddressV4) (str : List Char) :
    Option ParseError × NetworkV4 :=
  makeNetwork 32 .default .mk makeAddressV4 str

def makeNetworkV6 (makeAddressV6 : List Char → Except ParseError AddressV6) (str : List Char) :
    Option ParseError × NetworkV6 :=
  makeNetwork 128 .default .mk makeAddressV6 str

/-! ### What is accepted -/

section Parsing

variable {α : Type u} {ν : Type v} {maxLen : Nat} {default : ν}
  {network : α → (prefixLen : Nat) → prefixLen ≤ maxLen → ν}
  {makeAddress : List Char → Except ParseError α} {str host rest : List Char} {addr : α} {n : Nat}

/-- The string is an accepted address, a single slash, and a number in decimal digits. -/
def Spells (makeAddress : List Char → Except ParseError α) (str : List Char) (addr : α) (n : Nat) :
    Prop :=
  ∃ host digits, str = host ++ '/' :: digits ∧ '/' ∉ host ∧ digits ≠ [] ∧
    (∀ c ∈ digits, c.isDigit) ∧ makeAddress host = .ok addr ∧ decimal digits = n

theorem findIdx?_slash (h : '/' ∉ host) :
    (host ++ '/' :: rest).findIdx? (· = '/') = some host.length := by
  rw [List.findIdx?_append, List.findIdx?_eq_none_iff.mpr, List.findIdx?_cons]
  · simp
  · intro c hc
    exact decide_eq_false fun heq => h (heq ▸ hc)

theorem mem_slash (h : '/' ∈ str) : ∃ host rest, str = host ++ '/' :: rest ∧ '/' ∉ host := by
  obtain ⟨host, rest, heq, hnot⟩ := List.eq_append_cons_of_mem h
  exact ⟨host, rest, heq, hnot⟩

theorem makeNetwork_of_notMem (h : '/' ∉ str) :
    makeNetwork maxLen default network makeAddress str = (some .invalidArgument, default) := by
  have hnone : str.findIdx? (· = '/') = none := by
    rw [List.findIdx?_eq_none_iff]
    intro c hc
    exact decide_eq_false fun heq => h (heq ▸ hc)
  rw [makeNetwork, hnone]

theorem findIdx?_isDigit : (rest.findIdx? fun c => !c.isDigit).isSome ↔
    ¬ ∀ c ∈ rest, c.isDigit := by
  rw [List.findIdx?_isSome, List.any_eq_true]
  simp

theorem makeNetwork_append (h : '/' ∉ host) :
    makeNetwork maxLen default network makeAddress (host ++ '/' :: rest) =
      if rest = [] ∨ (rest.findIdx? fun c => !c.isDigit).isSome then
        (some .invalidArgument, default)
      else
        match makeAddress host with
        | .error ec => (some ec, default)
        | .ok addr =>
          if h : atoi rest < 0 ∨ atoi rest > maxLen then
            (some .invalidArgument, default)
          else
            (none, network addr (atoi rest).toNat (by omega)) := by
  have hdrop : (host ++ '/' :: rest).drop (host.length + 1) = rest := by
    rw [← List.drop_drop, List.drop_left]
    rfl
  have hend : host.length = (host ++ '/' :: rest).length - 1 ↔ rest = [] := by
    rw [List.length_append, List.length_cons, ← List.length_eq_zero_iff]
    omega
  rw [makeNetwork, findIdx?_slash h]
  simp only [hdrop, List.take_left, hend]
  by_cases hnil : rest = []
  · simp only [hnil, true_or, if_true]
  · simp only [hnil, false_or, if_false]

theorem Spells.unique {addr' : α} {n' : Nat} (h : Spells makeAddress str addr n)
    (h' : Spells makeAddress str addr' n') : addr = addr' ∧ n = n' := by
  obtain ⟨host, digits, rfl, hhost, -, -, haddr, hn⟩ := h
  obtain ⟨host', digits', heq, hhost', -, -, haddr', hn'⟩ := h'
  have hpos := congrArg (List.findIdx? (· = '/')) heq
  rw [findIdx?_slash hhost, findIdx?_slash hhost', Option.some.injEq] at hpos
  obtain ⟨rfl, htail⟩ := List.append_inj heq hpos
  obtain rfl := (List.cons.inj htail).2
  exact ⟨Except.ok.inj (haddr.symm.trans haddr'), hn.symm.trans hn'⟩

/-- The number is taken without its bits from the 32nd on. -/
theorem makeNetwork_of_spells (h : Spells makeAddress str addr n) (hmax : maxLen < 2 ^ 31) :
    makeNetwork maxLen default network makeAddress str =
      if h : n < 2 ^ 63 ∧ n % 2 ^ 32 ≤ maxLen then
        (none, network addr (n % 2 ^ 32) h.2)
      else
        (some .invalidArgument, default) := by
  obtain ⟨host, digits, rfl, hhost, hne, hdigits, haddr, rfl⟩ := h
  have hrange := atoi_of_digits hdigits hmax
  have hrest : ¬ (digits = [] ∨ (digits.findIdx? fun c => !c.isDigit).isSome) := by
    rw [findIdx?_isDigit]
    exact not_or.mpr ⟨hne, not_not.mpr hdigits⟩
  rw [makeNetwork_append hhost, if_neg hrest, haddr]
  by_cases hin : decimal digits < 2 ^ 63 ∧ decimal digits % 2 ^ 32 ≤ maxLen
  · have hout : ¬ (atoi digits < 0 ∨ atoi digits > maxLen) := by
      have hle := hrange.mpr hin
      omega
    simp only [dif_neg hout, dif_pos hin, toNat_atoi hdigits hmax hin.1 hin.2]
  · have hout : atoi digits < 0 ∨ atoi digits > maxLen := by
      by_contra hle
      exact hin (hrange.mp (by omega))
    simp only [dif_pos hout, dif_neg hin]

theorem makeNetwork_of_not_spells (hmake : ∀ str ec, makeAddress str = .error ec →
    ec = .invalidArgument) (h : ¬ ∃ addr n, Spells makeAddress str addr n) :
    makeNetwork maxLen default network makeAddress str = (some .invalidArgument, default) := by
  by_cases hslash : '/' ∈ str
  · obtain ⟨host, rest, rfl, hhost⟩ := mem_slash hslash
    rw [makeNetwork_append hhost]
    split
    · rfl
    · rename_i hrest
      rw [findIdx?_isDigit, not_or, not_not] at hrest
      split
      · rename_i ec hec
        rw [hmake host ec hec]
      · rename_i addr haddr
        exact absurd ⟨addr, _, host, rest, rfl, hhost, hrest.1, hrest.2, haddr, rfl⟩ h
  · exact makeNetwork_of_notMem hslash

/-- A string is accepted just if it spells an address and a length that is not too large. -/
def ParsesAsSpelled (makeAddress : List Char → Except ParseError α) (maxLen : Nat) (default : ν)
    (network : α → (prefixLen : Nat) → prefixLen ≤ maxLen → ν)
    (parse : List Char → Option ParseError × ν) (str : List Char) : Prop :=
  (∃ addr n, ∃ h : n ≤ maxLen, Spells makeAddress str addr n ∧
    parse str = (none, network addr n h)) ∨
  (¬ ∃ addr n, n ≤ maxLen ∧ Spells makeAddress str addr n) ∧
    parse str = (some .invalidArgument, default)

/-- The number is one that the conversion takes for a length. -/
def Wraps (makeAddress : List Char → Except ParseError α) (maxLen : Nat) (str : List Char) : Prop :=
  ∃ addr n, Spells makeAddress str addr n ∧ 2 ^ 32 ≤ n ∧ n < 2 ^ 63 ∧ n % 2 ^ 32 ≤ maxLen

theorem makeNetwork_parses_iff (hmax : maxLen < 2 ^ 31)
    (hmake : ∀ str ec, makeAddress str = .error ec → ec = .invalidArgument) :
    ParsesAsSpelled makeAddress maxLen default network
        (makeNetwork maxLen default network makeAddress) str ↔
      ¬ Wraps makeAddress maxLen str := by
  by_cases hspells : ∃ addr n, Spells makeAddress str addr n
  · obtain ⟨addr, n, h⟩ := hspells
    have hparse : makeNetwork maxLen default network makeAddress str = _ :=
      makeNetwork_of_spells h hmax
    constructor
    · rintro hcorrect ⟨addr', n', h', hge, hlt, hle⟩
      obtain ⟨rfl, rfl⟩ := h.unique h'
      rw [dif_pos ⟨hlt, hle⟩] at hparse
      rcases hcorrect with ⟨addr', n', hn', h', -⟩ | ⟨-, hcorrect⟩
      · obtain ⟨-, rfl⟩ := h.unique h'
        omega
      · rw [hparse] at hcorrect
        cases hcorrect
    · intro hwraps
      by_cases hle : n ≤ maxLen
      · have hmod : n % 2 ^ 32 = n := Nat.mod_eq_of_lt (by omega)
        rw [dif_pos ⟨by omega, hmod.trans_le hle⟩] at hparse
        refine Or.inl ⟨addr, n, hle, h, hparse.trans ?_⟩
        simp only [hmod]
      · refine Or.inr ⟨?_, hparse.trans (dif_neg ?_)⟩
        · rintro ⟨addr', n', hn', h'⟩
          obtain ⟨-, rfl⟩ := h.unique h'
          exact hle hn'
        · rintro ⟨hlt, hmod⟩
          refine hwraps ⟨addr, n, h, ?_, hlt, hmod⟩
          by_contra hsmall
          rw [Nat.mod_eq_of_lt (Nat.lt_of_not_le hsmall)] at hmod
          exact hle hmod
  · refine iff_of_true (Or.inr ⟨?_, makeNetwork_of_not_spells hmake hspells⟩) ?_
    · rintro ⟨addr, n, -, h⟩
      exact hspells ⟨addr, n, h⟩
    · rintro ⟨addr, n, h, -⟩
      exact hspells ⟨addr, n, h⟩

end Parsing

theorem makeNetworks_parse_iff {makeAddressV4 : List Char → Except ParseError AddressV4}
    {makeAddressV6 : List Char → Except ParseError AddressV6}
    (hmakeV4 : ∀ str ec, makeAddressV4 str = .error ec → ec = .invalidArgument)
    (hmakeV6 : ∀ str ec, makeAddressV6 str = .error ec → ec = .invalidArgument)
    (str : List Char) :
    (ParsesAsSpelled makeAddressV4 32 .default .mk (makeNetworkV4 makeAddressV4) str ↔
      ¬ Wraps makeAddressV4 32 str) ∧
    (ParsesAsSpelled makeAddressV6 128 .default .mk (makeNetworkV6 makeAddressV6) str ↔
      ¬ Wraps makeAddressV6 128 str) :=
  ⟨makeNetwork_parses_iff (by decide) hmakeV4, makeNetwork_parses_iff (by decide) hmakeV6⟩

/-- A parser of the text of one address. -/
def makeOnly {α : Type u} (text : String) (addr : α) (str : List Char) : Except ParseError α :=
  if str = text.toList then .ok addr else .error .invalidArgument

theorem makeOnly_error {α : Type u} {text : String} {addr : α} (str : List Char)
    (ec : ParseError) (h : makeOnly text addr str = .error ec) : ec = .invalidArgument := by
  rw [makeOnly] at h
  split at h
  · cases h
  · exact (Except.error.inj h).symm

theorem makeNetworks_parse_prefix :
    ParsesAsSpelled (makeOnly "1.2.3.4" (⟨0x01020304⟩ : AddressV4)) 32 .default .mk
      (makeNetworkV4 (makeOnly "1.2.3.4" ⟨0x01020304⟩)) "1.2.3.4/024".toList := by
  have hmakeV6 (str : List Char) (ec : ParseError)
      (h : makeOnly "::" AddressV6.any str = .error ec) : ec = .invalidArgument :=
    makeOnly_error str ec h
  refine (makeNetworks_parse_iff makeOnly_error hmakeV6 "1.2.3.4/024".toList).1.mpr ?_
  rintro ⟨addr, n, h, hge, -⟩
  have hspells : Spells (makeOnly "1.2.3.4" (⟨0x01020304⟩ : AddressV4)) "1.2.3.4/024".toList
      ⟨0x01020304⟩ 24 :=
    ⟨"1.2.3.4".toList, "024".toList, by decide, by decide, by decide, List.all_eq_true.mp rfl,
      rfl, rfl⟩
  obtain ⟨-, rfl⟩ := hspells.unique h
  omega

theorem makeNetworkV4_wraps :
    ¬ ∀ makeAddressV4 : List Char → Except ParseError AddressV4,
      (∀ str ec, makeAddressV4 str = .error ec → ec = .invalidArgument) →
      ∀ str, ParsesAsSpelled makeAddressV4 32 .default .mk (makeNetworkV4 makeAddressV4) str := by
  intro hclaim
  have hspells : Spells (makeOnly "1.2.3.4" (⟨0x01020304⟩ : AddressV4))
      "1.2.3.4/4294967296".toList ⟨0x01020304⟩ (2 ^ 32) :=
    ⟨"1.2.3.4".toList, "4294967296".toList, by decide, by decide, by decide, List.all_eq_true.mp rfl,
      rfl, rfl⟩
  have hparse : makeNetworkV4 (makeOnly "1.2.3.4" ⟨0x01020304⟩) "1.2.3.4/4294967296".toList =
      (none, ⟨⟨0x01020304⟩, 0, Nat.zero_le 32⟩) := by
    decide +kernel
  rcases hclaim _ makeOnly_error "1.2.3.4/4294967296".toList with ⟨addr, n, hn, h, -⟩ | ⟨-, h⟩
  · obtain ⟨-, rfl⟩ := hspells.unique h
    omega
  · cases hparse.symm.trans h

end Asio.Ip
