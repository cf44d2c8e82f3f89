import Asio.Detail.InetPtonGrammar

/-! The conversion of addresses to text, and back again. -/

namespace Asio.Detail

open Lib.BigEndian Lib.Digits

namespace InetNtop

/-- `sprintf_s` after what has been written already; it does not return when there is no room. -/
def sprintfS (length : Nat) (dest text : Text) : Option Text :=
  if dest.length + text.length < length then some (dest ++ text) else none

/-- `%x` -/
def hex (n : Nat) : Text := Nat.toDigits 16 n

/-- `%u` and `%lu` -/
def decimal (n : Nat) : Text := Nat.toDigits 10 n

/-- The `do` loop, which leaves out the words that are zero. -/
def skipZeros : List Byte → List Byte
  | hi :: lo :: bytes => if hi = 0 ∧ lo = 0 then skipZeros bytes else hi :: lo :: bytes
  | bytes => bytes

theorem length_skipZeros_le (bytes : List Byte) : (skipZeros bytes).length ≤ bytes.length := by
  induction bytes using skipZeros.induct with
  | case1 hi lo bytes h ih =>
    rw [skipZeros, if_pos h]
    simp only [List.length_cons]
    omega
  | case2 hi lo bytes h =>
    rw [skipZeros, if_neg h]
  | case3 bytes h =>
    rw [skipZeros]
    exact h

/-- The list has the bytes from `b` on. -/
def loop (length : Nat) (b z : Nat) (bytes : List Byte) (dest : Text) : Option Text :=
  match bytes with
  | hi :: lo :: bytes =>
    if dest.length < length then
      if hi = 0 ∧ lo = 0 ∧ z = 0 then
        (sprintfS length dest (':' :: if skipZeros bytes = [] then [':'] else [])).bind
          (loop length (16 - (skipZeros bytes).length) (z + 1) (skipZeros bytes))
      else
        (sprintfS length dest ((if b = 0 then [] else [':']) ++
          hex (hi.toNat <<< 8 ||| lo.toNat))).bind (loop length (b + 2) z bytes)
    else none
  | _ => some dest
termination_by bytes.length
decreasing_by
  · have := length_skipZeros_le bytes
    simp only [List.length_cons]
    omega
  · simp only [List.length_cons]
    omega

end InetNtop

open InetNtop in
/-- The text, unless there is no room for it. -/
def inetNtop (af : AddressFamily) (src : List Byte) (length : Nat) (scopeId : BitVec 32) :
    Except AddressError (Option Text) :=
  match af with
  | .inet =>
    .ok (sprintfS length [] (['.'].intercalate ((src.take 4).map fun b => decimal b.toNat)))
  | .inet6 =>
    .ok ((loop length 0 0 (src.take 16) []).bind fun dest =>
      if scopeId = 0 then some dest
      else sprintfS length dest ('%' :: decimal scopeId.toNat))
  | .unspec => .error .addressFamilyNotSupported

namespace InetNtop

/-! ### The text of version 6 -/

def words : List Byte → List Nat
  | hi :: lo :: bytes => (hi.toNat <<< 8 ||| lo.toNat) :: words bytes
  | _ => []

/-- Words that follow others, each after a colon. -/
def following (ws : List Nat) : Text := ws.flatMap fun w => ':' :: hex w

/-- What is written for the words from the first that is zero on. -/
def gap (ws : List Nat) : Text :=
  match ws with
  | [] => []
  | _ :: ws =>
    let rest := ws.dropWhile (· = 0)
    ':' :: if rest = [] then [':'] else following rest

section Loop

variable {hi lo : Byte} {bytes : List Byte} {length b z : Nat} {dest text : Text}

theorem word_eq (hi lo : Byte) : hi.toNat <<< 8 ||| lo.toNat = hi.toNat * 256 + lo.toNat := by
  rw [← Nat.shiftLeft_add_eq_or_of_lt lo.isLt, Nat.shiftLeft_eq]

theorem word_eq_zero : hi.toNat <<< 8 ||| lo.toNat = 0 ↔ hi = 0 ∧ lo = 0 := by
  rw [word_eq, Nat.add_eq_zero_iff, Nat.mul_eq_zero]
  constructor
  · rintro ⟨hhi | h, hlo⟩
    · exact ⟨BitVec.eq_of_toNat_eq hhi, BitVec.eq_of_toNat_eq hlo⟩
    · cases h
  · rintro ⟨rfl, rfl⟩
    exact ⟨.inl rfl, rfl⟩

theorem words_skipZeros (bytes : List Byte) :
    words (skipZeros bytes) = (words bytes).dropWhile (· = 0) := by
  induction bytes using skipZeros.induct with
  | case1 hi lo bytes h ih =>
    rw [skipZeros, if_pos h, ih, words, List.dropWhile_cons_of_pos]
    simpa using word_eq_zero.mpr h
  | case2 hi lo bytes h =>
    rw [skipZeros, if_neg h, words, List.dropWhile_cons_of_neg]
    simpa using mt word_eq_zero.mp h
  | case3 bytes h =>
    rw [skipZeros]
    · cases bytes with
      | nil => rfl
      | cons hi bytes =>
        cases bytes with
        | nil => rfl
        | cons lo bytes => exact absurd rfl (h hi lo bytes)
    · exact h

/-- One `sprintf_s` after another has room when there is room for both. -/
theorem sprintfS_bind {f : Text → Option Text} {rest : Text}
    (h : dest.length + text.length < length → f (dest ++ text) =
      if (dest ++ text).length + rest.length < length then some (dest ++ text ++ rest) else none) :
    (sprintfS length dest text).bind f =
      if dest.length + (text ++ rest).length < length then some (dest ++ (text ++ rest))
      else none := by
  rw [sprintfS]
  by_cases hroom : dest.length + text.length < length
  · rw [if_pos hroom, Option.bind_some, h hroom]
    simp only [List.length_append, List.append_assoc, Nat.add_assoc]
  · rw [if_neg hroom, if_neg]
    · rfl
    · rw [List.length_append]
      omega

theorem loop_following (hb : b ≠ 0) (hz : z ≠ 0) (hdest : dest.length < length) :
    loop length b z bytes dest =
      if dest.length + (following (words bytes)).length < length then
        some (dest ++ following (words bytes))
      else none := by
  induction bytes using words.induct generalizing b dest with
  | case1 hi lo bytes ih =>
    rw [loop, if_pos hdest, if_neg (fun h => hz h.2.2), if_neg hb, words, following,
      List.flatMap_cons]
    apply sprintfS_bind
    intro hroom
    exact ih (by omega) (by simpa using hroom)
  | case2 bytes h =>
    have hwords : words bytes = [] := by
      rw [words]
      exact h
    rw [loop, hwords]
    · simp [following, hdest]
    · exact h

theorem takeWhile_word {w : Nat} (hw : w ≠ 0) (ws : List Nat) :
    (w :: ws).takeWhile (· ≠ 0) = w :: ws.takeWhile (· ≠ 0) :=
  List.takeWhile_cons_of_pos (by simpa using hw)

theorem dropWhile_word {w : Nat} (hw : w ≠ 0) (ws : List Nat) :
    (w :: ws).dropWhile (· ≠ 0) = ws.dropWhile (· ≠ 0) :=
  List.dropWhile_cons_of_pos (by simpa using hw)

theorem length_skipZeros_mod (bytes : List Byte) :
    (skipZeros bytes).length % 2 = bytes.length % 2 := by
  induction bytes using skipZeros.induct with
  | case1 hi lo bytes h ih =>
    rw [skipZeros, if_pos h, ih, List.length_cons, List.length_cons]
    omega
  | case2 hi lo bytes h => rw [skipZeros, if_neg h]
  | case3 bytes h =>
    rw [skipZeros]
    exact h

theorem words_eq_nil_iff (heven : bytes.length % 2 = 0) : words bytes = [] ↔ bytes = [] := by
  match bytes with
  | [] => simp [words]
  | [_] => cases heven
  | _ :: _ :: _ => simp [words]

/-- From the first zero words on. -/
theorem loop_zeros (hle : bytes.length < 16) (heven : bytes.length % 2 = 0)
    (hdest : dest.length < length) : loop length b 0 (0 :: 0 :: bytes) dest =
      if dest.length + (gap (0 :: words bytes)).length < length then
        some (dest ++ gap (0 :: words bytes))
      else none := by
  have hlen := length_skipZeros_le bytes
  have hnil := words_eq_nil_iff ((length_skipZeros_mod bytes).trans heven)
  rw [words_skipZeros] at hnil
  have hgap : gap (0 :: words bytes) =
      (':' :: if skipZeros bytes = [] then [':'] else []) ++ following (words (skipZeros bytes)) := by
    rw [gap, words_skipZeros]
    by_cases hrest : (words bytes).dropWhile (· = 0) = []
    · rw [if_pos hrest, if_pos (hnil.mp hrest), hrest]
      rfl
    · rw [if_neg hrest, if_neg (mt hnil.mpr hrest)]
      rfl
  rw [loop, if_pos hdest, if_pos ⟨rfl, rfl, rfl⟩, hgap]
  apply sprintfS_bind
  intro hroom
  exact loop_following (by omega) (by omega) (by simpa using hroom)

theorem loop_gap (hb : b ≠ 0) (hle : bytes.length ≤ 16) (heven : bytes.length % 2 = 0)
    (hdest : dest.length < length) :
    loop length b 0 bytes dest =
      if dest.length + (following ((words bytes).takeWhile (· ≠ 0)) ++
          gap ((words bytes).dropWhile (· ≠ 0))).length < length then
        some (dest ++ (following ((words bytes).takeWhile (· ≠ 0)) ++
          gap ((words bytes).dropWhile (· ≠ 0))))
      else none := by
  induction bytes using words.induct generalizing b dest with
  | case1 hi lo bytes ih =>
    simp only [List.length_cons] at hle heven
    by_cases hzero : hi = 0 ∧ lo = 0
    · obtain ⟨rfl, rfl⟩ := hzero
      rw [loop_zeros (by omega) (by omega) hdest]
      rfl
    · have hword := mt word_eq_zero.mp hzero
      rw [loop, if_pos hdest, if_neg (fun h => hzero ⟨h.1, h.2.1⟩), if_neg hb, words,
        takeWhile_word hword, dropWhile_word hword, following, List.flatMap_cons,
        List.append_assoc]
      apply sprintfS_bind
      intro hroom
      exact ih (by omega) (by omega) (by omega) (by simpa using hroom)
  | case2 bytes h =>
    have hwords : words bytes = [] := by
      rw [words]
      exact h
    rw [loop, hwords]
    · simp [following, gap, hdest]
    · exact h

/-- The text of an address, without the scope. -/
def body (ws : List Nat) : Text :=
  [':'].intercalate ((ws.takeWhile (· ≠ 0)).map hex) ++ gap (ws.dropWhile (· ≠ 0))

theorem intercalate_following (w : Nat) (ws : List Nat) :
    [':'].intercalate ((w :: ws).map hex) = hex w ++ following ws := by
  induction ws generalizing w with
  | nil => simp [following]
  | cons w' ws ih =>
    rw [List.map_cons, List.map_cons, List.intercalate_cons_cons, ← List.map_cons, ih,
      List.append_assoc]
    rfl

theorem loop_body (hle : bytes.length ≤ 16) (heven : bytes.length % 2 = 0) (hlength : 0 < length) :
    loop length 0 0 bytes [] =
      if (body (words bytes)).length < length then some (body (words bytes)) else none := by
  match bytes with
  | [] => simp [loop, body, words, gap, hlength]
  | [_] => cases heven
  | hi :: lo :: bytes =>
    simp only [List.length_cons] at hle heven
    by_cases hzero : hi = 0 ∧ lo = 0
    · obtain ⟨rfl, rfl⟩ := hzero
      rw [loop_zeros (by omega) (by omega) hlength]
      simp [body, words]
    · have hword := mt word_eq_zero.mp hzero
      have hbody : body (words (hi :: lo :: bytes)) = hex (hi.toNat <<< 8 ||| lo.toNat) ++
          (following ((words bytes).takeWhile (· ≠ 0)) ++
            gap ((words bytes).dropWhile (· ≠ 0))) := by
        rw [body, words, takeWhile_word hword, dropWhile_word hword, intercalate_following,
          List.append_assoc]
      have hdest : ([] : Text).length < length := hlength
      rw [loop, if_pos hdest, if_neg (fun h => hzero ⟨h.1, h.2.1⟩), if_pos rfl, hbody,
        List.nil_append]
      have := @sprintfS_bind length [] (hex (hi.toNat <<< 8 ||| lo.toNat))
        (loop length (0 + 2) 0 bytes) (following ((words bytes).takeWhile (· ≠ 0)) ++
          gap ((words bytes).dropWhile (· ≠ 0))) fun hroom =>
          loop_gap (by omega) (by omega) (by omega) (by simpa using hroom)
      simpa using this

end Loop

end InetNtop

end Asio.Detail
