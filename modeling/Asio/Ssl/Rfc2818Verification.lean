import Asio.Ip.Address
import Asio.Lib.Wildcard

/-! The verification of a certificate against a host name. -/

namespace Asio.Ssl.Rfc2818Verification

open Lib.BigEndian Lib.Wildcard Ip

/-! ### Patterns -/

def star : Byte := 42#8

def dot : Byte := 46#8

/-- `tolower` -/
def toLower (c : Byte) : Byte := if 65#8 ≤ c ∧ c ≤ 90#8 then c + 32#8 else c

/-- The characters before the terminating null character. -/
def cString (s : List Byte) : List Byte := s.takeWhile (· ≠ 0)

/-- The inner loop, with the call in it: the cursor of the host at the end, if no call returns
true. -/
def tryEach (callee : List Byte → Bool) : List Byte → Option (List Byte)
  | [] => some []
  | h :: host =>
    if h ≠ dot then if callee (h :: host) then none else tryEach callee host
    else some (h :: host)

/-- `match_pattern`, from where the cursors are. The host is at its end when the pattern may not
be. -/
def matchFrom : List Byte → List Byte → Bool
  | [], host => host.isEmpty
  | _ :: _, [] => false
  | p :: pattern, h :: host =>
    if p = star then
      (tryEach (matchFrom pattern) (h :: host)).elim true (matchFrom pattern)
    else if toLower p = toLower h then matchFrom pattern host
    else false

def matchPattern (pattern host : List Byte) : Bool := matchFrom pattern (cString host)

/-- What a pattern stands for: a star for a run without dots, any other character for itself in
either case. -/
abbrev Covers : List Byte → List Byte → Prop :=
  Matches star (· ≠ dot) fun p h => toLower p = toLower h

section Matching

variable {pattern host stars : List Byte} {callee : List Byte → Bool}

theorem tryEach_elim : (tryEach callee host).elim true callee = true ↔
    ∃ run rest, host = run ++ rest ∧ (∀ h ∈ run, h ≠ dot) ∧ callee rest = true := by
  induction host with
  | nil =>
    constructor
    · exact fun h => ⟨[], [], rfl, by simp, h⟩
    · rintro ⟨run, rest, hnil, -, h⟩
      obtain ⟨rfl, rfl⟩ := List.append_eq_nil_iff.mp hnil.symm
      exact h
  | cons h host ih =>
    unfold tryEach
    split
    · rename_i hdot
      split
      · rename_i hcall
        exact ⟨fun _ => ⟨[], h :: host, rfl, by simp, hcall⟩, fun _ => rfl⟩
      · rename_i hcall
        rw [ih]
        constructor
        · rintro ⟨run, rest, rfl, hrun, hrest⟩
          exact ⟨h :: run, rest, rfl, List.forall_mem_cons.mpr ⟨hdot, hrun⟩, hrest⟩
        · rintro ⟨run, rest, hsplit, hrun, hrest⟩
          cases run with
          | nil =>
            rw [List.nil_append] at hsplit
            exact absurd (hsplit ▸ hrest) hcall
          | cons d run =>
            obtain ⟨rfl, rfl⟩ := List.cons.inj hsplit
            exact ⟨run, rest, rfl, (List.forall_mem_cons.mp hrun).2, hrest⟩
    · rename_i hdot
      constructor
      · exact fun hcall => ⟨[], h :: host, rfl, by simp, hcall⟩
      · rintro ⟨run, rest, hsplit, hrun, hrest⟩
        cases run with
        | nil =>
          rw [List.nil_append] at hsplit
          rw [hsplit]
          exact hrest
        | cons d run =>
          obtain ⟨rfl, rfl⟩ := List.cons.inj hsplit
          exact absurd (hrun h (List.mem_cons_self ..)) hdot

theorem matchFrom_star : matchFrom (star :: pattern) host = true ↔ host ≠ [] ∧
    ∃ run rest, host = run ++ rest ∧ (∀ h ∈ run, h ≠ dot) ∧ matchFrom pattern rest = true := by
  cases host with
  | nil => simp [matchFrom]
  | cons h host =>
    rw [matchFrom, if_pos rfl, tryEach_elim]
    exact (and_iff_right (List.cons_ne_nil _ _)).symm

theorem matchFrom_char {p : Byte} (hp : p ≠ star) : matchFrom (p :: pattern) host = true ↔
    ∃ h rest, host = h :: rest ∧ toLower p = toLower h ∧ matchFrom pattern rest = true := by
  cases host with
  | nil => simp [matchFrom]
  | cons h host =>
    rw [matchFrom, if_neg hp]
    split
    · rename_i hsame
      constructor
      · exact fun hmatch => ⟨h, host, rfl, hsame, hmatch⟩
      · rintro ⟨_, _, ⟨⟩, -, hmatch⟩
        exact hmatch
    · rename_i hsame
      constructor
      · intro hmatch
        cases hmatch
      · rintro ⟨_, _, ⟨⟩, hsame', -⟩
        exact absurd hsame' hsame

/-- Only stars that are the end of the pattern are taken in another way. -/
theorem matchFrom_append (hlast : pattern.getLast? ≠ some star) :
    matchFrom (pattern ++ stars) host = true ↔
      ∃ t u, host = t ++ u ∧ Covers pattern t ∧ matchFrom stars u = true := by
  induction pattern generalizing host with
  | nil => simp [matches_nil]
  | cons p pattern ih =>
    rw [List.cons_append]
    by_cases hp : p = star
    · subst hp
      cases pattern with
      | nil => exact absurd rfl hlast
      | cons q pattern =>
        rw [List.getLast?_cons_cons] at hlast
        simp only [matchFrom_star, matches_wild, ih hlast]
        constructor
        · rintro ⟨-, run, _, rfl, hrun, t, u, rfl, ht, hu⟩
          exact ⟨run ++ t, u, by simp, ⟨run, t, rfl, hrun, ht⟩, hu⟩
        · rintro ⟨_, u, rfl, ⟨run, t, rfl, hrun, ht⟩, hu⟩
          refine ⟨fun hnil => ?_, run, t ++ u, by simp, hrun, t, u, rfl, ht, hu⟩
          have ht' : t = [] := by simp_all
          have hstars := (ht' ▸ ht).eq_nil
          exact hlast (by
            rw [List.getLast?_eq_some_getLast (List.cons_ne_nil _ _)]
            exact congrArg some (hstars _ (List.getLast_mem _)))
    · have hlast' : pattern.getLast? ≠ some star := by
        cases pattern with
        | nil => simp
        | cons q pattern => rwa [List.getLast?_cons_cons] at hlast
      simp only [matchFrom_char hp, matches_char hp, ih hlast']
      constructor
      · rintro ⟨h, _, rfl, hsame, t, u, rfl, ht, hu⟩
        exact ⟨h :: t, u, rfl, ⟨h, t, rfl, hsame, ht⟩, hu⟩
      · rintro ⟨_, u, rfl, ⟨h, t, rfl, hsame, ht⟩, hu⟩
        exact ⟨h, t ++ u, rfl, hsame, t, u, rfl, ht, hu⟩

/-- Stars at the end of the pattern must be given something. -/
theorem matchFrom_replicate (n : Nat) : matchFrom (List.replicate (n + 1) star) host = true ↔
    host ≠ [] ∧ ∀ h ∈ host, h ≠ dot := by
  induction n generalizing host with
  | zero =>
    rw [Nat.zero_add, List.replicate_one, matchFrom_star]
    refine and_congr_right fun _ => ?_
    simp only [matchFrom, List.isEmpty_iff]
    constructor
    · rintro ⟨run, _, rfl, hrun, rfl⟩
      simpa using hrun
    · exact fun h => ⟨host, [], by simp, h, rfl⟩
  | succ n ih =>
    rw [List.replicate_succ, matchFrom_star]
    refine and_congr_right fun hne => ?_
    simp only [ih]
    constructor
    · rintro ⟨run, rest, rfl, hrun, -, hrest⟩ h hh
      rcases List.mem_append.mp hh with hh | hh
      · exact hrun h hh
      · exact hrest h hh
    · exact fun h => ⟨[], host, rfl, by simp, hne, h⟩

/-- The pattern without the stars at its end. -/
def stem (pattern : List Byte) : List Byte := pattern.rdropWhile (· = star)

/-- If the stars at the end of the pattern can be left empty, they need not. -/
def Leaves (pattern host : List Byte) : Prop :=
  pattern.getLast? = some star → Covers (stem pattern) host →
    ∃ t u, host = t ++ u ∧ u ≠ [] ∧ (∀ h ∈ u, h ≠ dot) ∧ Covers (stem pattern) t

theorem stem_append (pattern : List Byte) :
    ∃ n, stem pattern ++ List.replicate n star = pattern := by
  have hstars : ∀ c ∈ pattern.rtakeWhile (· = star), c = star := by
    intro c hc
    simpa using List.mem_rtakeWhile_imp hc
  refine ⟨(pattern.rtakeWhile (· = star)).length, ?_⟩
  rw [← List.eq_replicate_of_mem hstars]
  exact List.rdropWhile_append_rtakeWhile

theorem getLast?_stem (pattern : List Byte) : (stem pattern).getLast? ≠ some star := by
  intro hlast
  have hne : stem pattern ≠ [] := by
    rintro hnil
    rw [hnil] at hlast
    cases hlast
  rw [List.getLast?_eq_some_getLast hne] at hlast
  exact List.rdropWhile_last_not _ _ hne (decide_eq_true (Option.some.inj hlast))

/-- The stars at the end can be left empty. -/
theorem covers_of_stem (h : Covers (stem pattern) host) : Covers pattern host := by
  obtain ⟨n, hsplit⟩ := stem_append pattern
  rw [← hsplit]
  refine matches_append.mpr ⟨host, [], by simp, h, ?_⟩
  cases n with
  | zero => exact .nil
  | succ n => exact (matches_replicate n).mpr (by simp)

theorem matchFrom_iff :
    matchFrom pattern host = true ↔ Covers pattern host ∧ Leaves pattern host := by
  obtain ⟨n, hsplit⟩ := stem_append pattern
  have hlast := getLast?_stem pattern
  cases n with
  | zero =>
    rw [List.replicate_zero, List.append_nil] at hsplit
    rw [hsplit] at hlast
    have hiff : matchFrom (pattern ++ []) host = true ↔
        ∃ t u, host = t ++ u ∧ Covers pattern t ∧ matchFrom [] u = true := matchFrom_append hlast
    rw [List.append_nil] at hiff
    have hleaves : Leaves pattern host := fun hstar => absurd hstar hlast
    rw [hiff, and_iff_left hleaves]
    simp [matchFrom]
  | succ n =>
    have hstar : pattern.getLast? = some star := by
      rw [← hsplit, List.replicate_succ', ← List.append_assoc, List.getLast?_concat]
    have hmatch : matchFrom (stem pattern ++ List.replicate (n + 1) star) host = true ↔
        ∃ t u, host = t ++ u ∧ Covers (stem pattern) t ∧
          matchFrom (List.replicate (n + 1) star) u = true := matchFrom_append hlast
    have hcovers : Covers pattern host ↔ ∃ t u, host = t ++ u ∧ Covers (stem pattern) t ∧
        ∀ h ∈ u, h ≠ dot := by
      conv_lhs => rw [← hsplit]
      simp only [matches_append, matches_replicate]
    rw [hsplit] at hmatch
    simp only [matchFrom_replicate] at hmatch
    rw [hmatch, hcovers]
    constructor
    · rintro ⟨t, u, rfl, ht, hne, hu⟩
      exact ⟨⟨t, u, rfl, ht, hu⟩, fun _ _ => ⟨t, u, rfl, hne, hu, ht⟩⟩
    · rintro ⟨⟨t, u, rfl, ht, hu⟩, hleaves⟩
      cases u with
      | nil =>
        rw [List.append_nil] at hleaves ⊢
        obtain ⟨t', u', hsplit', hne', hu', ht'⟩ := hleaves hstar ht
        exact ⟨t', u', hsplit', ht', hne', hu'⟩
      | cons h u => exact ⟨t, h :: u, rfl, ht, List.cons_ne_nil _ _, hu⟩

theorem toLower_eq_zero {c : Byte} (h : toLower c = 0) : c = 0 := by
  unfold toLower at h
  split at h
  · bv_omega
  · exact h

theorem not_covers_of_mem_zero (hzero : 0 ∈ pattern) : ¬ Covers pattern (cString host) := by
  intro h
  obtain ⟨c, hc, hsame⟩ := h.exists_same hzero (by decide)
  have hne : c ≠ 0 := by simpa using List.mem_takeWhile_imp hc
  exact hne (toLower_eq_zero hsame.symm)

/-- The pattern only matches what it stands for, and all of that unless its last stars would have
to be left empty. -/
theorem matchPattern_iff (pattern host : List Byte) :
    (matchPattern pattern host = true → Covers pattern (cString host)) ∧
      (0 ∈ pattern → matchPattern pattern host = false) ∧
      ((matchPattern pattern host = true ↔ Covers pattern (cString host)) ↔
        Leaves pattern (cString host)) := by
  unfold matchPattern
  refine ⟨fun h => (matchFrom_iff.mp h).1, fun hzero => ?_, ?_⟩
  · by_contra h
    exact not_covers_of_mem_zero hzero (matchFrom_iff.mp (by simpa using h)).1
  · rw [matchFrom_iff]
    constructor
    · exact fun h hstar hcovers => (h.mpr (covers_of_stem hcovers)).2 hstar hcovers
    · exact fun h => ⟨fun hboth => hboth.1, fun hcovers => ⟨hcovers, h⟩⟩

end Matching

/-- The last star is left nothing by the whole host. -/
theorem not_matchPattern_iff_covers : ¬∀ pattern host : List Byte,
    matchPattern pattern host = true ↔ Covers pattern (cString host) := by
  intro hclaim
  have hcovers : Covers [102#8, 111#8, 111#8, star] (cString [102#8, 111#8, 111#8]) :=
    .char (by decide) rfl <| .char (by decide) rfl <| .char (by decide) rfl <|
      .wild [] (by simp) .nil
  exact absurd ((hclaim _ _).mpr hcovers) (by decide)

/-! ### Certificates -/

inductive Asn1Type
  | ia5String | octetString | other
  deriving DecidableEq

structure Asn1String where
  type : Asn1Type
  data : Option (List Byte)

inductive GeneralName
  | dNSName (domain : Asn1String)
  | iPAddress (ipAddress : Asn1String)
  | other

/-- The alternate names and the common names of the subject, the most specific of which is the
last. -/
structure Certificate where
  subjectAltName : List GeneralName
  commonNames : List Asn1String

inductive Address
  | v4 (address : AddressV4)
  | v6 (address : AddressV6)

def Address.toBytes : Address → List Byte
  | .v4 address => address.toBytes
  | .v6 address => address.toBytes

/-- A pattern that is there and not empty. -/
def Asn1String.matchesHost (pattern : Asn1String) (host : List Byte) : Bool :=
  match pattern.data with
  | none => false
  | some data => data.length ≠ 0 && matchPattern data host

/-- The bytes are as many as those of an address of the same version, and the same. -/
def Asn1String.equalsAddress (ipAddress : Asn1String) (address : Address) : Bool :=
  match ipAddress.data with
  | none => false
  | some data =>
    match address with
    | .v4 address => data.length = 4 && address.toBytes = data
    | .v6 address => data.length = 16 && address.toBytes = data

/-- What the loop looks for. The host is a name if it has no address. -/
def GeneralName.identifies (host : List Byte) (address : Option Address) : GeneralName → Bool
  | .dNSName domain =>
    address.isNone && domain.type = .ia5String && domain.matchesHost host
  | .iPAddress ipAddress =>
    match address with
    | none => false
    | some address => ipAddress.type = .octetString && ipAddress.equalsAddress address
  | .other => false

def Certificate.commonNameMatches (cert : Certificate) (host : List Byte) : Bool :=
  match cert.commonNames.getLast? with
  | none => false
  | some commonName => commonName.matchesHost host

/-- `operator()` -/
def call (makeAddress : List Byte → Option Address) (host : List Byte) (preverified : Bool)
    (depth : Nat) (cert : Certificate) : Bool :=
  if !preverified then false
  else if depth > 0 then true
  else if cert.subjectAltName.any (·.identifies host (makeAddress (cString host))) then true
  else cert.commonNameMatches host

/-- The rules of section 3.1: an address must be among the alternate names, and the common name is
only for a certificate without any dNSName. -/
def Accepts (host : List Byte) (address : Option Address) (cert : Certificate) : Prop :=
  match address with
  | some address => ∃ ipAddress, .iPAddress ipAddress ∈ cert.subjectAltName ∧
      ipAddress.type = .octetString ∧ ipAddress.data = some address.toBytes
  | none => (∃ domain, .dNSName domain ∈ cert.subjectAltName ∧
        domain.type = .ia5String ∧ domain.matchesHost host = true) ∨
      (∀ domain, .dNSName domain ∉ cert.subjectAltName) ∧ cert.commonNameMatches host = true

/-- The common name does not match, or it makes no difference, or there is no other name. -/
def Settled (host : List Byte) (address : Option Address) (cert : Certificate) : Prop :=
  cert.commonNameMatches host = true →
    (∃ name ∈ cert.subjectAltName, name.identifies host address = true) ∨
      address = none ∧ ∀ domain, .dNSName domain ∉ cert.subjectAltName

section Certificates

variable {host : List Byte} {address : Address} {cert : Certificate}

theorem equalsAddress_iff {ipAddress : Asn1String} :
    ipAddress.equalsAddress address = true ↔ ipAddress.data = some address.toBytes := by
  unfold Asn1String.equalsAddress
  cases ipAddress.data with
  | none => simp
  | some data =>
    cases address with
    | v4 address =>
      have hlen : address.toBytes.length = 4 := length_bytes
      simp only [Address.toBytes, Bool.and_eq_true, decide_eq_true_eq, Option.some.injEq]
      exact ⟨fun h => h.2.symm, fun h => ⟨h ▸ hlen, h.symm⟩⟩
    | v6 address =>
      simp only [Address.toBytes, Bool.and_eq_true, decide_eq_true_eq, Option.some.injEq]
      exact ⟨fun h => h.2.symm, fun h => ⟨h ▸ address.length_toBytes, h.symm⟩⟩

theorem exists_identifies_some :
    (∃ name ∈ cert.subjectAltName, name.identifies host (some address) = true) ↔
      Accepts host (some address) cert := by
  constructor
  · rintro ⟨name, hname, h⟩
    cases name with
    | iPAddress ipAddress =>
      simp only [GeneralName.identifies, Bool.and_eq_true, decide_eq_true_eq] at h
      exact ⟨ipAddress, hname, h.1, equalsAddress_iff.mp h.2⟩
    | dNSName | other => cases h
  · rintro ⟨ipAddress, hname, htype, hdata⟩
    refine ⟨_, hname, ?_⟩
    simp only [GeneralName.identifies, Bool.and_eq_true, decide_eq_true_eq]
    exact ⟨htype, equalsAddress_iff.mpr hdata⟩

theorem exists_identifies_none :
    (∃ name ∈ cert.subjectAltName, name.identifies host none = true) ↔
      ∃ domain, .dNSName domain ∈ cert.subjectAltName ∧
        domain.type = .ia5String ∧ domain.matchesHost host = true := by
  constructor
  · rintro ⟨name, hname, h⟩
    cases name with
    | dNSName domain =>
      simp only [GeneralName.identifies, Option.isNone_none, Bool.true_and, Bool.and_eq_true,
        decide_eq_true_eq] at h
      exact ⟨domain, hname, h⟩
    | iPAddress | other => cases h
  · rintro ⟨domain, hname, h⟩
    refine ⟨_, hname, ?_⟩
    simp only [GeneralName.identifies, Option.isNone_none, Bool.true_and, Bool.and_eq_true,
      decide_eq_true_eq]
    exact h

theorem call_eq_true {makeAddress : List Byte → Option Address} :
    call makeAddress host true 0 cert = true ↔
      (∃ name ∈ cert.subjectAltName, name.identifies host (makeAddress (cString host)) = true) ∨
        cert.commonNameMatches host = true := by
  rw [← List.any_eq_true]
  unfold call
  split
  · contradiction
  · split
    · contradiction
    · split
      · rename_i hany
        simp [hany]
      · rename_i hany
        simp [hany]

/-- What should be accepted is, and nothing else unless it is for a common name that should not be
looked at. -/
theorem call_iff (makeAddress : List Byte → Option Address) (host : List Byte)
    (cert : Certificate) :
    (Accepts host (makeAddress (cString host)) cert → call makeAddress host true 0 cert = true) ∧
      ((call makeAddress host true 0 cert = true ↔
          Accepts host (makeAddress (cString host)) cert) ↔
        Settled host (makeAddress (cString host)) cert) := by
  rw [call_eq_true]
  generalize makeAddress (cString host) = address
  unfold Settled
  cases address with
  | some address =>
    rw [exists_identifies_some]
    simp only [reduceCtorEq, false_and, or_false]
    exact ⟨.inl, ⟨fun h hname => h.mp (.inr hname), fun h => ⟨fun hor => hor.elim id h, .inl⟩⟩⟩
  | none =>
    rw [exists_identifies_none]
    simp only [Accepts, true_and]
    refine ⟨fun h => h.imp_right fun hname => hname.2, ?_⟩
    constructor
    · intro h hname
      exact (h.mp (.inr hname)).imp_right fun hno => hno.1
    · intro h
      refine ⟨fun hor => ?_, fun hor => hor.imp_right fun hname => hname.2⟩
      rcases hor with hdns | hname
      · exact .inl hdns
      · exact (h hname).imp_right fun hno => ⟨hno, hname⟩

/-- The common name is "a", and the only alternate name is "b". -/
theorem not_call_iff_accepts : ¬∀ (makeAddress : List Byte → Option Address) (host : List Byte)
    (cert : Certificate), call makeAddress host true 0 cert = true ↔
      Accepts host (makeAddress (cString host)) cert := by
  intro hclaim
  have haccepts := (hclaim (fun _ => none) [97#8]
    ⟨[.dNSName ⟨.ia5String, some [98#8]⟩], [⟨.other, some [97#8]⟩]⟩).mp (by decide)
  rcases haccepts with ⟨domain, hmem, -, hmatch⟩ | ⟨hno, -⟩
  · cases List.mem_singleton.mp hmem
    revert hmatch
    decide
  · exact hno _ (List.mem_singleton_self _)

end Certificates

end Asio.Ssl.Rfc2818Verification
