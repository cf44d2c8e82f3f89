import Asio.Detail.InetNtop

/-! The text of an address is read back as the address. -/

namespace Asio.Detail.InetNtop

open Lib.BigEndian Lib.Digits InetPton

/-! ### The text of version 6 and the grammar -/

section Words

variable {w : Nat} {ws : List Nat} {bytes : List Byte} {c : Char}

theorem reads_hexDigit : Reads 16 hexDigit := by
  unfold Reads
  decide

theorem reads_decDigit : Reads 10 decDigit := by
  unfold Reads
  decide

theorem word_hex (w : Nat) : word (hex w) = w := value_toDigits (by decide) reads_hexDigit w

theorem isGroup_hex (hw : w < 2 ^ 16) : IsGroup (hex w) := by
  refine ⟨Nat.toDigits_ne_nil, ?_, allDigits_toDigits (by decide) reads_hexDigit w⟩
  exact (Nat.length_toDigits_le_iff (by decide) (by decide)).mpr hw

theorem map_word_hex (ws : List Nat) : (ws.map hex).map word = ws := by
  rw [List.map_map]
  exact List.map_id'' word_hex ws

theorem isGroup_of_mem_map (h : ∀ w ∈ ws, w < 2 ^ 16) : ∀ g ∈ ws.map hex, IsGroup g := by
  intro g hg
  obtain ⟨w, hw, rfl⟩ := List.mem_map.mp hg
  exact isGroup_hex (h w hw)

theorem words_lt (bytes : List Byte) : ∀ w ∈ words bytes, w < 2 ^ 16 := by
  induction bytes using words.induct with
  | case1 hi lo bytes ih =>
    rw [words, List.forall_mem_cons, word_eq]
    have := hi.isLt
    have := lo.isLt
    exact ⟨by omega, ih⟩
  | case2 bytes h =>
    rw [words]
    · exact fun w hw => (List.not_mem_nil hw).elim
    · exact h

theorem length_words (bytes : List Byte) : (words bytes).length = bytes.length / 2 := by
  induction bytes using words.induct with
  | case1 hi lo bytes ih =>
    rw [words, List.length_cons, ih, List.length_cons, List.length_cons]
    omega
  | case2 bytes h =>
    cases bytes with
    | nil => rfl
    | cons hi bytes =>
      cases bytes with
      | nil => simp [words]
      | cons lo bytes => exact absurd rfl (h hi lo bytes)

theorem wordBytes_word (hi lo : Byte) : wordBytes (hi.toNat <<< 8 ||| lo.toNat) = [hi, lo] := by
  have hhi := hi.isLt
  have hlo := lo.isLt
  rw [wordBytes, word_eq, Nat.shiftRight_eq_div_pow]
  congr 1
  · apply BitVec.eq_of_toNat_eq
    rw [BitVec.toNat_ofNat]
    omega
  · congr 1
    apply BitVec.eq_of_toNat_eq
    rw [BitVec.toNat_ofNat]
    omega

theorem flatMap_words (heven : bytes.length % 2 = 0) :
    (words bytes).flatMap wordBytes = bytes := by
  induction bytes using words.induct with
  | case1 hi lo bytes ih =>
    simp only [List.length_cons] at heven
    rw [words, List.flatMap_cons, wordBytes_word, ih (by omega)]
    rfl
  | case2 bytes h =>
    cases bytes with
    | nil => rfl
    | cons hi bytes =>
      cases bytes with
      | nil => cases heven
      | cons lo bytes => exact absurd rfl (h hi lo bytes)

theorem gap_cons (w : Nat) (ws : List Nat) : gap (w :: ws) =
    ':' :: ':' :: [':'].intercalate ((ws.dropWhile (· = 0)).map hex) := by
  rw [gap]
  cases ws.dropWhile (· = 0) with
  | nil => rfl
  | cons w' ws => rw [if_neg (List.cons_ne_nil w' ws), intercalate_following]; rfl

theorem replicate_takeWhile (ws : List Nat) :
    List.replicate (ws.takeWhile (· = 0)).length 0 = ws.takeWhile (· = 0) := by
  symm
  rw [List.eq_replicate_iff]
  refine ⟨rfl, fun w hw => ?_⟩
  simpa using List.mem_takeWhile_imp hw

theorem expand_gap {front : List Nat} (hlen : (front ++ 0 :: ws).length = 8) :
    expand front (ws.dropWhile (· = 0)) = front ++ 0 :: ws := by
  have hws := congrArg List.length (List.takeWhile_append_dropWhile (p := (· = 0)) (l := ws))
  rw [List.length_append] at hws
  rw [List.length_append, List.length_cons] at hlen
  have hzeros : 8 - front.length - (ws.dropWhile (· = 0)).length
      = (ws.takeWhile (· = 0)).length + 1 := by
    omega
  rw [expand, hzeros, List.replicate_succ, replicate_takeWhile, List.append_assoc, List.cons_append,
    List.takeWhile_append_dropWhile]

/-- The text is in the grammar and denotes the address. -/
theorem denotes_body (hlen : ws.length = 8) (hlt : ∀ w ∈ ws, w < 2 ^ 16) :
    Denotes (body ws) ws := by
  have hws := List.takeWhile_append_dropWhile (p := (· ≠ 0)) (l := ws)
  rw [body]
  cases hdrop : ws.dropWhile (· ≠ 0) with
  | nil =>
    rw [hdrop, List.append_nil] at hws
    rw [hws, gap, List.append_nil]
    have hplain := Groups.plain (isGroup_of_mem_map hlt)
    rw [map_word_hex] at hplain
    exact .full hplain hlen
  | cons w rest =>
    obtain rfl : w = 0 := by
      have := List.head?_dropWhile_not (· ≠ 0) ws
      rw [hdrop] at this
      simpa using this
    rw [hdrop] at hws
    have hfront : ∀ w ∈ ws.takeWhile (· ≠ 0), w < 2 ^ 16 :=
      fun w hw => hlt w ((List.takeWhile_prefix _).subset hw)
    have hrest : ∀ w ∈ rest.dropWhile (· = 0), w < 2 ^ 16 := by
      intro w hw
      apply hlt
      rw [← hws]
      exact List.mem_append_right _ (List.mem_cons_of_mem _ ((List.dropWhile_suffix _).subset hw))
    have hplain := Groups.plain (isGroup_of_mem_map hrest)
    have hlen' := hlen
    rw [← hws] at hlen'
    have hexpand := expand_gap hlen'
    rw [hws] at hexpand
    have hcount := (List.dropWhile_suffix (· = 0) (l := rest)).length_le
    rw [List.length_append, List.length_cons] at hlen'
    have := Denotes.compressed (isGroup_of_mem_map hfront) hplain (by
      rw [map_word_hex, List.length_map]
      omega)
    rwa [map_word_hex, map_word_hex, hexpand, ← gap_cons 0] at this

theorem not_mem_body (hlt : ∀ w ∈ ws, w < 2 ^ 16) (hdigit : hexDigit c = none) (hcolon : c ≠ ':') :
    c ∉ body ws := by
  have hjoin (vs : List Nat) (hvs : ∀ w ∈ vs, w < 2 ^ 16) : c ∉ [':'].intercalate (vs.map hex) := by
    intro hmem
    rcases mem_intercalate hmem with hc | ⟨g, hg, hc⟩
    · exact hcolon hc
    · exact not_mem_of_allDigits (isGroup_of_mem_map hvs g hg).2.2 hdigit hc
  rw [body, List.mem_append, not_or]
  refine ⟨hjoin _ fun w hw => hlt w ((List.takeWhile_prefix _).subset hw), ?_⟩
  have hgap : ∀ w ∈ ws.dropWhile (· ≠ 0), w < 2 ^ 16 :=
    fun w hw => hlt w ((List.dropWhile_suffix _).subset hw)
  cases hdrop : ws.dropWhile (· ≠ 0) with
  | nil => exact List.not_mem_nil
  | cons w rest =>
    rw [hdrop] at hgap
    have hrest := hjoin (rest.dropWhile (· = 0)) fun w hw =>
      hgap w (List.mem_cons_of_mem _ ((List.dropWhile_suffix _).subset hw))
    rw [gap_cons, List.mem_cons, List.mem_cons, not_or, not_or]
    exact ⟨hcolon, hcolon, hrest⟩

theorem length_intercalate_le {sep : Char} {k : Nat} {gs : List Text} (h : ∀ g ∈ gs, g.length ≤ k) :
    ([sep].intercalate gs).length ≤ gs.length * (k + 1) := by
  induction gs with
  | nil => exact Nat.zero_le _
  | cons g gs ih =>
    obtain ⟨hg, hgs⟩ := List.forall_mem_cons.mp h
    have hle := ih hgs
    cases gs with
    | nil =>
      rw [List.intercalate_singleton, List.length_singleton]
      omega
    | cons g' gs =>
      rw [List.intercalate_cons_cons, List.length_append, List.length_append,
        List.length_singleton, List.length_cons, Nat.succ_mul]
      omega

theorem length_body_le (hlen : ws.length = 8) (hlt : ∀ w ∈ ws, w < 2 ^ 16) :
    (body ws).length ≤ 42 := by
  have hjoin (vs : List Nat) (hvs : ∀ w ∈ vs, w ∈ ws) :
      ([':'].intercalate (vs.map hex)).length ≤ vs.length * 5 := by
    have := @length_intercalate_le ':' 4 (vs.map hex) fun g hg =>
      (isGroup_of_mem_map (fun w hw => hlt w (hvs w hw)) g hg).2.1
    rwa [List.length_map] at this
  have hfront := hjoin (ws.takeWhile (· ≠ 0)) fun w hw => (List.takeWhile_prefix _).subset hw
  have hws := congrArg List.length (List.takeWhile_append_dropWhile (p := (· ≠ 0)) (l := ws))
  rw [List.length_append, hlen] at hws
  have hgap : ∀ w ∈ ws.dropWhile (· ≠ 0), w ∈ ws := fun w hw => (List.dropWhile_suffix _).subset hw
  rw [body, List.length_append]
  cases hdrop : ws.dropWhile (· ≠ 0) with
  | nil =>
    rw [hdrop] at hws
    simp only [gap, List.length_nil] at hws ⊢
    omega
  | cons w rest =>
    rw [hdrop] at hws hgap
    have hrest := hjoin (rest.dropWhile (· = 0)) fun w hw =>
      hgap w (List.mem_cons_of_mem _ ((List.dropWhile_suffix _).subset hw))
    have hcount := (List.dropWhile_suffix (· = 0) (l := rest)).length_le
    rw [gap_cons]
    simp only [List.length_cons] at hws ⊢
    omega

end Words

/-- The text of an address of version 6. -/
def text6 (bytes : List Byte) (scopeId : BitVec 32) : Text :=
  body (words bytes) ++ if scopeId = 0 then [] else '%' :: decimal scopeId.toNat

section Scope

variable {bytes : List Byte} {scopeId : BitVec 32} {n length : Nat}

theorem inetNtop_inet6 (hlen : bytes.length = 16) : inetNtop .inet6 bytes length scopeId =
    .ok (if (text6 bytes scopeId).length < length then some (text6 bytes scopeId) else none) := by
  rw [inetNtop, text6, List.take_of_length_le hlen.le]
  congr 1
  by_cases hlength : 0 < length
  · rw [loop_body hlen.le (by rw [hlen]) hlength]
    by_cases hscope : scopeId = 0
    · simp only [hscope, if_true, List.append_nil, Option.bind_fun_some]
    · simp only [hscope, if_false]
      by_cases hbody : (body (words bytes)).length < length
      · rw [if_pos hbody, Option.bind_some, sprintfS, List.length_append]
      · rw [if_neg hbody, if_neg]
        · rfl
        · rw [List.length_append]
          omega
  · obtain rfl : length = 0 := by omega
    obtain ⟨hi, tail, rfl⟩ := List.exists_cons_of_length_pos (show 0 < bytes.length by omega)
    rw [List.length_cons] at hlen
    obtain ⟨lo, bytes, rfl⟩ := List.exists_cons_of_length_pos (show 0 < tail.length by omega)
    rw [loop, if_neg (Nat.not_lt_zero _), if_neg (Nat.not_lt_zero _)]
    rfl

theorem length_text6_lt (hlen : bytes.length = 16) : (text6 bytes scopeId).length < 256 := by
  have hwords : (words bytes).length = 8 := by rw [length_words, hlen]
  have hbody := length_body_le hwords (words_lt bytes)
  have hdecimal : (decimal scopeId.toNat).length ≤ 10 :=
    (Nat.length_toDigits_le_iff (by decide) (by decide)).mpr
      (Nat.lt_of_lt_of_le scopeId.isLt (by decide))
  rw [text6, List.length_append]
  split_ifs
  · rw [List.length_nil]
    omega
  · rw [List.length_cons]
    omega

theorem value_decimal (n : Nat) : value 10 decDigit 0 (decimal n) = n :=
  value_toDigits (by decide) reads_decDigit n

theorem allDigits_decimal (n : Nat) : AllDigits decDigit (decimal n) :=
  allDigits_toDigits (by decide) reads_decDigit n

/-- What the text says of the scope. -/
def scopeIn (scopeId : BitVec 32) : Option Nat := if scopeId = 0 then none else some scopeId.toNat

theorem denotesScoped_text6 (hlen : bytes.length = 16) :
    DenotesScoped (text6 bytes scopeId) (words bytes) (scopeIn scopeId) := by
  have hwords : (words bytes).length = 8 := by rw [length_words, hlen]
  have hbody := denotes_body hwords (words_lt bytes)
  rw [text6, scopeIn]
  split_ifs
  · rw [List.append_nil]
    exact .noScope hbody
  · have hvalue := value_decimal scopeId.toNat
    have hne : decimal scopeId.toNat ≠ [] := Nat.toDigits_ne_nil
    have := DenotesScoped.withScope hbody hne (allDigits_decimal scopeId.toNat)
      (by rw [hvalue]; exact scopeId.isLt)
    rwa [hvalue] at this

theorem dot_not_mem_text6 (bytes : List Byte) (scopeId : BitVec 32) : '.' ∉ text6 bytes scopeId := by
  rw [text6, List.mem_append, not_or]
  refine ⟨not_mem_body (words_lt bytes) rfl (by decide), ?_⟩
  split_ifs
  · exact List.not_mem_nil
  · rw [List.mem_cons, not_or]
    exact ⟨by decide, not_mem_of_allDigits (allDigits_decimal _) rfl⟩

/-- The address is read back when the scope is one of 16 bits. -/
theorem inetPton_text6 (hlen : bytes.length = 16) {r : List Byte × Option Nat} :
    inetPton .inet6 (text6 bytes scopeId) = .ok r ↔
      scopeId.toNat ≤ 0xFFFF ∧ r = (bytes, scopeIn scopeId) := by
  rw [(denotesScoped_text6 hlen).inetPton_eq_ok_iff (dot_not_mem_text6 bytes scopeId),
    flatMap_words (by rw [hlen])]
  apply and_congr_left'
  rw [scopeIn]
  split_ifs with h
  · simp [h]
  · simp

end Scope

/-! ### Version 4 -/

section Dotted

variable {n length : Nat} {rest : Text} {bytes : List Byte}

theorem isDigit_decimal (n : Nat) : ∀ c ∈ decimal n, c.isDigit :=
  fun _ hc => Nat.isDigit_of_mem_toDigits (by decide) (by decide) hc

theorem decimal_decimal (n : Nat) : Ip.decimal (decimal n) = n := by
  rw [Ip.decimal]
  exact Nat.ofDigitChars_ten_toDigits

theorem scanU_decimal (hn : n < 2 ^ 32) (hrest : ∀ c ∈ rest.head?, ¬c.isDigit) :
    scanU (decimal n ++ rest) = some (n, rest) := by
  have hdigits := isDigit_decimal n
  have htake : (decimal n ++ rest).takeWhile Char.isDigit = decimal n := by
    rw [List.takeWhile_append_of_pos hdigits]
    cases rest with
    | nil => simp
    | cons c rest => simp [hrest c rfl]
  have hdropd : (decimal n ++ rest).dropWhile Char.isDigit = rest := by
    rw [List.dropWhile_append_of_pos hdigits]
    cases rest with
    | nil => simp
    | cons c rest => simp [hrest c rfl]
  have hne : decimal n ≠ [] := Nat.toDigits_ne_nil
  have hdrop : (decimal n ++ rest).dropWhile Ip.isSpace = decimal n ++ rest := by
    obtain ⟨c, cs, hc⟩ := List.exists_cons_of_ne_nil hne
    rw [hc, List.cons_append, List.dropWhile_cons_of_neg]
    rw [Ip.isSpace_of_isDigit (hdigits c (hc ▸ List.mem_cons_self))]
    exact Bool.false_ne_true
  have hsign (c : Char) (cs : Text) (hc : ¬c.isDigit) : decimal n ++ rest ≠ c :: cs := by
    intro heq
    obtain ⟨d, ds, hd⟩ := List.exists_cons_of_ne_nil hne
    rw [hd, List.cons_append] at heq
    obtain ⟨rfl, _⟩ := List.cons.inj heq
    exact hc (hdigits d (hd ▸ List.mem_cons_self))
  have hmod : (BitVec.ofInt 32 n).toNat = n := by
    rw [BitVec.ofInt_natCast, BitVec.toNat_ofNat, Nat.mod_eq_of_lt hn]
  unfold scanU
  rw [hdrop]
  simp only
  split
  · rename_i cs heq
    exact absurd heq (hsign '-' cs (by decide))
  · rename_i cs heq
    exact absurd heq (hsign '+' cs (by decide))
  · rw [htake, hdropd, if_neg hne, decimal_decimal]
    simp only [Bool.false_eq_true, if_false, hmod]

/-- The text of an address of version 4. -/
def text4 (bytes : List Byte) : Text := ['.'].intercalate (bytes.map fun b => decimal b.toNat)

theorem inetNtop_inet {scopeId : BitVec 32} (hlen : bytes.length = 4) :
    inetNtop .inet bytes length scopeId =
      .ok (if (text4 bytes).length < length then some (text4 bytes) else none) := by
  rw [inetNtop, List.take_of_length_le hlen.le, sprintfS, text4, List.length_nil, Nat.zero_add,
    List.nil_append]

theorem length_text4_lt (hlen : bytes.length = 4) : (text4 bytes).length < 256 := by
  have hle : (text4 bytes).length ≤ (bytes.map fun b => decimal b.toNat).length * (3 + 1) := by
    apply length_intercalate_le
    intro g hg
    obtain ⟨b, _, rfl⟩ := List.mem_map.mp hg
    exact (Nat.length_toDigits_le_iff (by decide) (by decide)).mpr
      (Nat.lt_of_lt_of_le b.isLt (by decide))
  rw [List.length_map] at hle
  omega

theorem scanDotted_text4 (hlen : bytes.length = 4) :
    scanDotted (text4 bytes) = some (bytes.map BitVec.toNat) := by
  match bytes, hlen with
  | [b0, b1, b2, b3], _ =>
    have hdot (c : Char) (rest : Text) (hc : c ∈ ('.' :: rest).head?) : ¬c.isDigit := by
      obtain rfl := Option.some.inj hc
      decide
    have hscan (b : Byte) (rest : Text) :
        scanU (decimal b.toNat ++ '.' :: rest) = some (b.toNat, '.' :: rest) :=
      scanU_decimal (Nat.lt_of_lt_of_le b.isLt (by decide)) (hdot · rest)
    have hlast : scanU (decimal b3.toNat) = some (b3.toNat, []) := by
      have := @scanU_decimal b3.toNat [] (Nat.lt_of_lt_of_le b3.isLt (by decide)) (by simp)
      rwa [List.append_nil] at this
    have htext : text4 [b0, b1, b2, b3] = decimal b0.toNat ++ '.' :: (decimal b1.toNat ++
        '.' :: (decimal b2.toNat ++ '.' :: decimal b3.toNat)) := by
      simp [text4]
    rw [htext, scanDotted, hscan]
    simp [scanLiteral, hscan, hlast]

theorem inetPton_text4 (hlen : bytes.length = 4) :
    inetPton .inet (text4 bytes) = .ok (bytes, none) := by
  have hsmall : ((bytes.map BitVec.toNat).any (255 < ·)) = false := by
    rw [List.any_eq_false]
    intro n hn
    obtain ⟨b, _, rfl⟩ := List.mem_map.mp hn
    have := b.isLt
    simp only [decide_eq_true_eq]
    omega
  have hbytes : (bytes.map BitVec.toNat).map (BitVec.ofNat 8) = bytes := by
    rw [List.map_map]
    exact List.map_id'' (fun b => BitVec.ofNat_toNat 8 b) bytes
  simp only [inetPton, scanDotted_text4 hlen, hsmall, hbytes, Bool.false_eq_true, if_false]

end Dotted

/-! ### There and back -/

/-- `max_addr_v4_str_len` and `max_addr_v6_str_len`. -/
def maxAddrStrLen : Nat := 256

/-- `inet_pton` gives the bytes, and leaves the scope in a variable that was `before` until then. -/
def ReadsBack (text : Text) (bytes : List Byte) (scopeId : BitVec 32) (before : Nat) : Prop :=
  ∃ z, inetPton .inet6 text = .ok (bytes, z) ∧ z.getD before = scopeId.toNat

section RoundTrip

variable {bytes : List Byte} {scopeId : BitVec 32} {before length : Nat} {text : Text}

theorem eq_of_written {t : Text}
    (h : (Except.ok (if t.length < length then some t else none) : Except AddressError _) =
      .ok (some text)) : t = text := by
  by_cases hroom : t.length < length
  · rw [if_pos hroom] at h
    exact Option.some.inj (Except.ok.inj h)
  · rw [if_neg hroom] at h
    cases h

theorem readsBack_text6_iff (hlen : bytes.length = 16) :
    ReadsBack (text6 bytes scopeId) bytes scopeId before ↔
      scopeId.toNat ≤ 0xFFFF ∧ (scopeId = 0 → before = 0) := by
  rw [ReadsBack]
  simp only [inetPton_text6 hlen, Prod.mk.injEq, true_and, and_assoc, exists_and_left,
    exists_eq_left]
  apply and_congr_right'
  rw [scopeIn]
  split_ifs with h
  · simp [h]
  · exact iff_of_true rfl fun hzero => absurd hzero h

/-- Every address of either version is read back, with its scope when that is one of 16 bits and,
when it is zero, so was the variable that it is left in. There is room for every text. -/
theorem inetPton_inetNtop_iff (scopeId : BitVec 32) (before length : Nat) :
    (∀ bytes text, bytes.length = 16 →
      inetNtop .inet6 bytes length scopeId = .ok (some text) →
      (ReadsBack text bytes scopeId before ↔
        scopeId.toNat ≤ 0xFFFF ∧ (scopeId = 0 → before = 0))) ∧
    (∀ bytes text, bytes.length = 4 → inetNtop .inet bytes length scopeId = .ok (some text) →
      inetPton .inet text = .ok (bytes, none)) ∧
    (maxAddrStrLen ≤ length → ∀ bytes,
      (bytes.length = 16 → ∃ text, inetNtop .inet6 bytes length scopeId = .ok (some text)) ∧
      (bytes.length = 4 → ∃ text, inetNtop .inet bytes length scopeId = .ok (some text))) := by
  refine ⟨?_, ?_, ?_⟩
  · intro bytes text hlen h
    rw [inetNtop_inet6 hlen] at h
    obtain rfl := eq_of_written h
    exact readsBack_text6_iff hlen
  · intro bytes text hlen h
    rw [inetNtop_inet hlen] at h
    obtain rfl := eq_of_written h
    exact inetPton_text4 hlen
  · intro hlength bytes
    refine ⟨fun hlen => ⟨text6 bytes scopeId, ?_⟩, fun hlen => ⟨text4 bytes, ?_⟩⟩
    · rw [inetNtop_inet6 hlen, if_pos (Nat.lt_of_lt_of_le (length_text6_lt hlen) hlength)]
    · rw [inetNtop_inet hlen, if_pos (Nat.lt_of_lt_of_le (length_text4_lt hlen) hlength)]

theorem inetPton_inetNtop_scope :
    ReadsBack "fe80::1%5".toList [0xfe, 0x80, 0, 0, 0, 0, 0, 0, 0, 0, 0, 0, 0, 0, 0, 1] 5 0 :=
  ((inetPton_inetNtop_iff 5 0 maxAddrStrLen).1 _ _ rfl (by decide +kernel)).mpr
    ⟨by decide, by decide⟩

/-- A scope of more than 16 bits is not read. -/
theorem not_inetPton_inetNtop : ¬∀ (bytes : List Byte) (scopeId : BitVec 32) (text : Text),
    bytes.length = 16 → inetNtop .inet6 bytes maxAddrStrLen scopeId = .ok (some text) →
    ReadsBack text bytes scopeId 0 := by
  intro h
  have hread := h (List.replicate 16 0) 65536 "::%65536".toList rfl (by decide +kernel)
  obtain ⟨z, hz, _⟩ := hread
  have hnone : inetPton .inet6 "::%65536".toList = .error .invalidArgument := by decide +kernel
  rw [hnone] at hz
  cases hz

end RoundTrip

end Asio.Detail.InetNtop
