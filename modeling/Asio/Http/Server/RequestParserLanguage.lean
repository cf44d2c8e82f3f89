import Mathlib.Data.List.Induction
import Asio.Http.Server.RequestParser

/-! The parser accepts the requests of the grammar, and refuses what cannot become one. -/

namespace Asio.Http.Server.RequestParser

open Lib.Scanner

/-! ### What each state accepts -/

section Accepts

variable {w rest : List Byte} {c : Byte} {t : State × Request} {req req' : Request}
  {s next : State}

theorem modifyBack_concat (f : Header → Header) (hs : List Header) (h : Header) :
    modifyBack f (hs ++ [h]) = hs ++ [f h] := by
  induction hs with
  | nil => rfl
  | cons h' hs ih =>
    cases hs with
    | nil => rfl
    | cons h'' hs => simpa [modifyBack] using ih

theorem accepts_char {c : Char} (h : ∀ input, consume (s, req) input =
      if input = byte c then some (.indeterminate, next, req') else some (.bad, s, req)) :
    Accepts consume (s, req) w t rest ↔
      ∃ w', w = byte c :: w' ∧ Accepts consume (next, req') w' t rest := by
  refine accepts_expect (by rw [h, if_pos rfl]) fun d hd => ?_
  rw [Refuses, h, if_neg hd]
  rintro _ ⟨⟩
  rfl

theorem accepts_newline1 : Accepts consume (.expectingNewline1, req) w t rest ↔
    ∃ w', w = byte '\n' :: w' ∧ Accepts consume (.headerLineStart, req) w' t rest :=
  accepts_char fun _ => rfl

theorem accepts_newline2 : Accepts consume (.expectingNewline2, req) w t rest ↔
    ∃ w', w = byte '\n' :: w' ∧ Accepts consume (.headerLineStart, req) w' t rest :=
  accepts_char fun _ => rfl

theorem accepts_newline3 : Accepts consume (.expectingNewline3, req) w t rest ↔
    w = byte '\n' :: rest ∧ t = (.expectingNewline3, req) := by
  cases w with
  | nil => simp [not_accepts_nil]
  | cons c w =>
    by_cases hc : c = byte '\n'
    · subst hc
      have hstep : consume (.expectingNewline3, req) (byte '\n') =
          some (.good, .expectingNewline3, req) := rfl
      rw [accepts_good hstep, List.cons.injEq, and_comm]
      simp [eq_comm]
    · have hrefuses : Refuses consume (.expectingNewline3, req) c := by
        simp only [Refuses, consume, if_neg hc]
        rintro _ ⟨⟩
        rfl
      simp [hrefuses.not_accepts, hc]

theorem accepts_versionH : Accepts consume (.httpVersionH, req) w t rest ↔
    ∃ w', w = byte 'H' :: w' ∧ Accepts consume (.httpVersionT1, req) w' t rest :=
  accepts_char fun _ => rfl

theorem accepts_versionT1 : Accepts consume (.httpVersionT1, req) w t rest ↔
    ∃ w', w = byte 'T' :: w' ∧ Accepts consume (.httpVersionT2, req) w' t rest :=
  accepts_char fun _ => rfl

theorem accepts_versionT2 : Accepts consume (.httpVersionT2, req) w t rest ↔
    ∃ w', w = byte 'T' :: w' ∧ Accepts consume (.httpVersionP, req) w' t rest :=
  accepts_char fun _ => rfl

theorem accepts_versionP : Accepts consume (.httpVersionP, req) w t rest ↔
    ∃ w', w = byte 'P' :: w' ∧ Accepts consume (.httpVersionSlash, req) w' t rest :=
  accepts_char fun _ => rfl

theorem accepts_versionSlash : Accepts consume (.httpVersionSlash, req) w t rest ↔
    ∃ w', w = byte '/' :: w' ∧ Accepts consume (.httpVersionMajorStart,
      { req with httpVersionMajor := 0, httpVersionMinor := 0 }) w' t rest :=
  accepts_char fun _ => rfl

/-- The name of the protocol, after which the version is zero. -/
theorem accepts_http : Accepts consume (.httpVersionH, req) w t rest ↔
    ∃ w', w = "HTTP/".toList.map byte ++ w' ∧ Accepts consume (.httpVersionMajorStart,
      { req with httpVersionMajor := 0, httpVersionMinor := 0 }) w' t rest := by
  simp only [accepts_versionH, accepts_versionT1, accepts_versionT2, accepts_versionP,
    accepts_versionSlash]
  constructor
  · rintro ⟨_, rfl, _, rfl, _, rfl, _, rfl, w', rfl, h⟩
    exact ⟨w', rfl, h⟩
  · rintro ⟨w', rfl, h⟩
    exact ⟨_, rfl, _, rfl, _, rfl, _, rfl, w', rfl, h⟩

theorem refuses_of_bad (h : consume (s, req) c = some (.bad, s, req)) :
    Refuses consume (s, req) c := by
  rw [Refuses, h]
  rintro _ ⟨⟩
  rfl

theorem refuses_of_none (h : consume (s, req) c = none) : Refuses consume (s, req) c := by
  rw [Refuses, h]
  rintro _ ⟨⟩

/-- A state that takes what is of some kind, until one character. -/
theorem accepts_kind {P : Byte → Bool} {stop : Char} {us : List Byte} (set : List Byte → Request)
    (hconsume : ∀ us c, consume (s, set us) c =
      if c = byte stop then some (.indeterminate, next, set us)
      else if P c then some (.indeterminate, s, set (us ++ [c])) else some (.bad, s, set us))
    (hstop : P (byte stop) = false) (hus : ∀ c ∈ us, P c) :
    Accepts consume (s, set us) w t rest ↔ ∃ vs w', w = vs ++ byte stop :: w' ∧
      (∀ c ∈ us ++ vs, P c) ∧ Accepts consume (next, set (us ++ vs)) w' t rest := by
  refine accepts_while_forall (fun c => P c = true) (fun us => (s, set us))
    (fun us => (next, set us)) ?_ ?_ ?_ (by simp [hstop]) hus
  · intro us c hc hP
    rw [hconsume, if_neg hc, if_pos hP]
  · intro us
    rw [hconsume, if_pos rfl]
  · intro us c hc hP
    exact refuses_of_bad (by rw [hconsume, if_neg hc, if_neg hP])

/-- A state that takes a first symbol before the others. -/
theorem accepts_nonempty {P : Byte → Bool} {first : State} {stop : Char}
    (set : List Byte → Request)
    (hfirst : ∀ c, P c → consume (first, req) c = some (.indeterminate, s, set [c]))
    (hconsume : ∀ us c, consume (s, set us) c =
      if c = byte stop then some (.indeterminate, next, set us)
      else if P c then some (.indeterminate, s, set (us ++ [c])) else some (.bad, s, set us))
    (hstop : P (byte stop) = false) (hc : P c) :
    Accepts consume (first, req) (c :: w) t rest ↔ ∃ us w', c :: w = us ++ byte stop :: w' ∧
      us ≠ [] ∧ (∀ c ∈ us, P c) ∧ Accepts consume (next, set us) w' t rest := by
  rw [accepts_indeterminate (hfirst c hc), accepts_kind set hconsume hstop (by simpa using hc)]
  constructor
  · rintro ⟨vs, w', rfl, hvs, h⟩
    exact ⟨c :: vs, w', rfl, List.cons_ne_nil _ _, hvs, h⟩
  · rintro ⟨us, w', hw, hne, hus, h⟩
    cases us with
    | nil => exact absurd rfl hne
    | cons d us =>
      obtain ⟨rfl, rfl⟩ := List.cons.inj hw
      exact ⟨us, w', rfl, hus, h⟩

theorem head_of_append {P : Byte → Bool} {stop : Char} {us w' : List Byte}
    (hw : c :: w = us ++ byte stop :: w') (hne : us ≠ []) (hus : ∀ c ∈ us, P c) : P c := by
  cases us with
  | nil => exact absurd rfl hne
  | cons d us =>
    obtain ⟨rfl, -⟩ := List.cons.inj hw
    exact hus c List.mem_cons_self

theorem accepts_method (hreq : req.method = []) :
    Accepts consume (.methodStart, req) w t rest ↔ ∃ name w', w = name ++ byte ' ' :: w' ∧
      name ≠ [] ∧ (∀ c ∈ name, isToken c) ∧
        Accepts consume (.uri, { req with method := name }) w' t rest := by
  cases w with
  | nil => simp [not_accepts_nil]
  | cons c w =>
    by_cases hc : isToken c = true
    · refine accepts_nonempty (s := .method) (fun us => { req with method := us }) ?_
        (fun _ _ => rfl) (by decide) hc
      intro d hd
      simp only [consume, if_pos hd, hreq, List.nil_append]
    · have hrefuses : Refuses consume (.methodStart, req) c :=
        refuses_of_bad (by simp only [consume, if_neg hc])
      refine iff_of_false hrefuses.not_accepts ?_
      rintro ⟨name, w', hw, hne, hname, -⟩
      exact hc (head_of_append hw hne hname)

theorem accepts_uri (hreq : req.uri = []) :
    Accepts consume (.uri, req) w t rest ↔ ∃ uri w', w = uri ++ byte ' ' :: w' ∧
      (∀ c ∈ uri, isUriText c) ∧
        Accepts consume (.httpVersionH, { req with uri := uri }) w' t rest := by
  have hloop : req = { req with uri := [] } := by
    rw [← hreq]
  rw [hloop]
  refine accepts_kind (P := isUriText) (fun us => { req with uri := us }) ?_ (by decide) (by simp)
  intro us c
  by_cases hc : c = byte ' '
  · simp [consume, hc]
  · cases hctl : isCtl c <;> simp [consume, hc, hctl, isUriText, isText]

/-! ### Numbers -/

theorem numeral_concat (us : List Byte) (c : Byte) :
    numeral (us ++ [c]) = numeral us * 10 + (c.toNat - (byte '0').toNat) := by
  simp [numeral]

theorem numeral_le (us vs : List Byte) : numeral us ≤ numeral (us ++ vs) := by
  induction vs using List.reverseRecOn with
  | nil => simp
  | append_singleton vs c ih =>
    rw [← List.append_assoc, numeral_concat]
    omega

theorem digit_bounds (h : isDigit c = true) : 48 ≤ c.toNat ∧ c.toNat ≤ 57 := by
  have hzero : (byte '0').toNat = 48 := rfl
  have hnine : (byte '9').toNat = 57 := rfl
  simpa [isDigit, UInt8.le_iff_toNat_le, hzero, hnine] using h

theorem appendDigit_numeral (us : List Byte) (h : isDigit c = true) :
    appendDigit (numeral us) c =
      if numeral (us ++ [c]) + 48 ≤ intMax then some (numeral (us ++ [c])) else none := by
  have hbounds := digit_bounds h
  have hzero : (byte '0').toNat = 48 := rfl
  rw [appendDigit, numeral_concat, hzero]
  split_ifs
  · congr 1
    omega
  · omega
  · omega
  · rfl

/-- What has been read of a number that does not overflow. -/
def IsNumber (us : List Byte) : Prop := (∀ c ∈ us, isDigit c) ∧ numeral us + 48 ≤ intMax

theorem isNumber_concat {us : List Byte} (h : ∀ c ∈ us, isDigit c) :
    IsNumber (us ++ [c]) ↔ isDigit c = true ∧ numeral (us ++ [c]) + 48 ≤ intMax := by
  simp only [IsNumber, List.forall_mem_append, List.forall_mem_singleton]
  exact ⟨fun hc => ⟨hc.1.2, hc.2⟩, fun hc => ⟨⟨h, hc.1⟩, hc.2⟩⟩

theorem accepts_digits {stop : Char} {us : List Byte} (set : Nat → Request)
    (hmore : ∀ n c, consume (s, set n) c =
      if c = byte stop then some (.indeterminate, next, set n)
      else if isDigit c then (appendDigit n c).bind fun n => some (.indeterminate, s, set n)
      else some (.bad, s, set n))
    (hstop : isDigit (byte stop) = false) (hus : IsNumber us) :
    Accepts consume (s, set (numeral us)) w t rest ↔ ∃ vs w', w = vs ++ byte stop :: w' ∧
      IsNumber (us ++ vs) ∧ Accepts consume (next, set (numeral (us ++ vs))) w' t rest := by
  refine accepts_while IsNumber (fun us => (s, set (numeral us)))
    (fun us => (next, set (numeral us))) ?_ ?_ ?_ ?_ hus
  · intro us c hc h
    have hdigit := h.1 c (List.mem_append_right _ (List.mem_singleton_self c))
    rw [hmore, if_neg hc, if_pos hdigit, appendDigit_numeral us hdigit, if_pos h.2,
      Option.bind_some]
  · intro us
    rw [hmore, if_pos rfl]
  · intro us c hc hus h
    rw [isNumber_concat hus.1, not_and] at h
    by_cases hdigit : isDigit c = true
    · refine refuses_of_none ?_
      rw [hmore, if_neg hc, if_pos hdigit, appendDigit_numeral us hdigit, if_neg (h hdigit),
        Option.bind_none]
    · exact refuses_of_bad (by rw [hmore, if_neg hc, if_neg hdigit])
  · rintro us vs ⟨hdigits, hle⟩
    have hmono := numeral_le us vs
    refine ⟨⟨fun c hc => hdigits c (List.mem_append_left _ hc), by omega⟩, fun hmem => ?_⟩
    have hdigit := hdigits _ (List.mem_append_right _ hmem)
    exact absurd (hstop.symm.trans hdigit) (by decide)

theorem accepts_number {start : State} {stop : Char} (set : Nat → Request)
    (hstart : ∀ c, consume (start, set 0) c =
      if isDigit c then (appendDigit 0 c).bind fun n => some (.indeterminate, s, set n)
      else some (.bad, start, set 0))
    (hmore : ∀ n c, consume (s, set n) c =
      if c = byte stop then some (.indeterminate, next, set n)
      else if isDigit c then (appendDigit n c).bind fun n => some (.indeterminate, s, set n)
      else some (.bad, s, set n))
    (hstop : isDigit (byte stop) = false) :
    Accepts consume (start, set 0) w t rest ↔ ∃ (n : Number) (w' : List Byte),
      w = n.digits ++ byte stop :: w' ∧
        Accepts consume (next, set (numeral n.digits)) w' t rest := by
  cases w with
  | nil => simp [not_accepts_nil]
  | cons c w =>
    by_cases hc : isDigit c = true
    · have hnumber : IsNumber [c] := by
        have hbounds := digit_bounds hc
        have hzero : (byte '0').toNat = 48 := rfl
        refine ⟨by simpa using hc, ?_⟩
        simp only [numeral, List.foldl_cons, List.foldl_nil, hzero, intMax]
        omega
      have hfirst : consume (start, set 0) c = some (.indeterminate, s, set (numeral [c])) := by
        have happend := appendDigit_numeral [] hc
        rw [List.nil_append, if_pos hnumber.2] at happend
        rw [hstart, if_pos hc, show (0 : Nat) = numeral [] from rfl, happend, Option.bind_some]
      rw [accepts_indeterminate hfirst, accepts_digits set hmore hstop hnumber]
      constructor
      · rintro ⟨vs, w', rfl, hvs, h⟩
        exact ⟨⟨c :: vs, List.cons_ne_nil _ _, hvs.1, hvs.2⟩, w', rfl, h⟩
      · rintro ⟨⟨us, hne, hdigits, hle⟩, w', hw, h⟩
        cases us with
        | nil => exact absurd rfl hne
        | cons d us =>
          obtain ⟨rfl, rfl⟩ := List.cons.inj hw
          exact ⟨us, w', rfl, ⟨hdigits, hle⟩, h⟩
    · have hrefuses : Refuses consume (start, set 0) c :=
        refuses_of_bad (by rw [hstart, if_neg hc])
      refine iff_of_false hrefuses.not_accepts ?_
      rintro ⟨n, w', hw, -⟩
      exact hc (head_of_append hw n.nonempty n.isDigit)

/-! ### Lines -/

/-- The rest of a value, and the end of its line. -/
theorem accepts_value {hs : List Header} {name value : List Byte}
    (hreq : req.headers = hs ++ [⟨name, value⟩]) :
    Accepts consume (.headerValue, req) w t rest ↔ ∃ text w', w = text ++ crlf ++ w' ∧
      (∀ c ∈ text, isText c) ∧ Accepts consume
        (.headerLineStart, { req with headers := hs ++ [⟨name, value ++ text⟩] }) w' t rest := by
  have hloop : req = { req with headers := hs ++ [⟨name, value ++ []⟩] } := by
    rw [List.append_nil, ← hreq]
  have hconsume : ∀ us c, consume (.headerValue,
      { req with headers := hs ++ [⟨name, value ++ us⟩] }) c =
        if c = byte '\r' then some (.indeterminate, .expectingNewline2,
          { req with headers := hs ++ [⟨name, value ++ us⟩] })
        else if isText c then some (.indeterminate, .headerValue,
          { req with headers := hs ++ [⟨name, value ++ (us ++ [c])⟩] })
        else some (.bad, .headerValue, { req with headers := hs ++ [⟨name, value ++ us⟩] }) := by
    intro us c
    by_cases hc : c = byte '\r'
    · simp [consume, hc]
    · cases hctl : isCtl c <;> simp [consume, hc, hctl, isText, modifyBack_concat]
  rw [hloop, accepts_kind _ hconsume (by decide) (by simp)]
  simp only [accepts_newline2, List.nil_append]
  constructor
  · rintro ⟨text, _, rfl, htext, w', rfl, h⟩
    exact ⟨text, w', by simp [crlf], htext, h⟩
  · rintro ⟨text, w', rfl, htext, h⟩
    exact ⟨text, byte '\n' :: w', by simp [crlf], htext, w', rfl, h⟩

theorem lws_cases {space text w' : List Byte} (h : c :: w = space ++ text ++ crlf ++ w') :
    (c = byte '\r' ∧ space = [] ∧ text = [] ∧ w = byte '\n' :: w') ∨
    (∃ space', space = c :: space' ∧ w = space' ++ text ++ crlf ++ w') ∨
    space = [] ∧ ∃ text', text = c :: text' ∧ w = text' ++ crlf ++ w' := by
  cases space with
  | cons d space =>
    obtain ⟨rfl, rfl⟩ := List.cons.inj h
    exact .inr (.inl ⟨space, rfl, rfl⟩)
  | nil =>
    cases text with
    | cons d text =>
      obtain ⟨rfl, rfl⟩ := List.cons.inj h
      exact .inr (.inr ⟨rfl, text, rfl, rfl⟩)
    | nil =>
      obtain ⟨rfl, rfl⟩ := List.cons.inj h
      exact .inl ⟨rfl, rfl, rfl, rfl⟩

/-- The rest of the space at the start of a line that is folded, what follows it, and its end. -/
theorem accepts_lws {hs : List Header} {name value : List Byte}
    (hreq : req.headers = hs ++ [⟨name, value⟩]) :
    Accepts consume (.headerLws, req) w t rest ↔ ∃ space text w', w = space ++ text ++ crlf ++ w' ∧
      (∀ c ∈ space, isSpace c) ∧ (∀ c ∈ text, isText c) ∧ (∀ c ∈ text.head?, isSpace c = false) ∧
        Accepts consume
          (.headerLineStart, { req with headers := hs ++ [⟨name, value ++ text⟩] }) w' t rest := by
  have hreturn : isSpace (byte '\r') = false ∧ isText (byte '\r') = false := by decide
  induction w with
  | nil => simp [not_accepts_nil, crlf]
  | cons c w ih =>
    by_cases hc : c = byte '\r'
    · subst hc
      have hstep : consume (.headerLws, req) (byte '\r') =
          some (.indeterminate, .expectingNewline2, req) := rfl
      rw [accepts_indeterminate hstep, accepts_newline2]
      constructor
      · rintro ⟨w', rfl, h⟩
        refine ⟨[], [], w', rfl, by simp, by simp, by simp, ?_⟩
        rwa [List.append_nil, ← hreq]
      · rintro ⟨space, text, w', hw, hspace, htext, -, h⟩
        obtain ⟨-, rfl, rfl, rfl⟩ | ⟨space', rfl, -⟩ | ⟨-, text', rfl, -⟩ := lws_cases hw
        · refine ⟨w', rfl, ?_⟩
          rwa [List.append_nil, ← hreq] at h
        · exact absurd (hspace _ List.mem_cons_self) (by simp [hreturn.1])
        · exact absurd (htext _ List.mem_cons_self) (by simp [hreturn.2])
    · by_cases hcspace : isSpace c = true
      · have hstep : consume (.headerLws, req) c = some (.indeterminate, .headerLws, req) := by
          simp only [consume, if_neg hc, if_pos hcspace]
        refine (accepts_indeterminate hstep).trans (ih.trans ?_)
        constructor
        · rintro ⟨space, text, w', rfl, hspace, hrest⟩
          exact ⟨c :: space, text, w', rfl, List.forall_mem_cons.mpr ⟨hcspace, hspace⟩, hrest⟩
        · rintro ⟨space, text, w', hw, hspace, htext, hhead, h⟩
          obtain ⟨hr, -⟩ | ⟨space', rfl, rfl⟩ | ⟨-, text', rfl, -⟩ := lws_cases hw
          · exact absurd hr hc
          · exact ⟨space', text, w', rfl, (List.forall_mem_cons.mp hspace).2, htext, hhead, h⟩
          · exact absurd hcspace (by simp [hhead c rfl])
      · have hfalse : isSpace c = false := by simpa using hcspace
        cases hctl : isCtl c with
        | true =>
          have hrefuses : Refuses consume (.headerLws, req) c :=
            refuses_of_bad (by simp [consume, hc, hfalse, hctl])
          refine iff_of_false hrefuses.not_accepts ?_
          rintro ⟨space, text, w', hw, hspace, htext, -⟩
          obtain ⟨hr, -⟩ | ⟨space', rfl, -⟩ | ⟨-, text', rfl, -⟩ := lws_cases hw
          · exact hc hr
          · exact hcspace (hspace c List.mem_cons_self)
          · exact absurd (htext c List.mem_cons_self) (by simp [isText, hctl])
        | false =>
          have hstep : consume (.headerLws, req) c = some (.indeterminate, .headerValue,
              { req with headers := hs ++ [⟨name, value ++ [c]⟩] }) := by
            simp [consume, hc, hfalse, hctl, hreq, modifyBack_concat]
          rw [accepts_indeterminate hstep, accepts_value rfl]
          constructor
          · rintro ⟨text, w', rfl, htext, h⟩
            exact ⟨[], c :: text, w', rfl, by simp,
              List.forall_mem_cons.mpr ⟨by simp [isText, hctl], htext⟩, by simp [hfalse],
              by simpa using h⟩
          · rintro ⟨space, text, w', hw, hspace, htext, -, h⟩
            obtain ⟨hr, -⟩ | ⟨space', rfl, -⟩ | ⟨-, text', rfl, rfl⟩ := lws_cases hw
            · exact absurd hr hc
            · exact absurd (hspace c List.mem_cons_self) hcspace
            · exact ⟨text', w', rfl, (List.forall_mem_cons.mp htext).2, by simpa using h⟩

theorem isSpace_of_isToken (h : isToken c = true) : isSpace c = false := by
  rw [Bool.eq_false_iff]
  intro hspace
  simp only [isSpace, Bool.or_eq_true, decide_eq_true_eq] at hspace
  obtain rfl | rfl := hspace
  · exact absurd h (by decide)
  · exact absurd h (by decide)

/-- A line that starts with the name of a field. -/
theorem accepts_field (hc : isToken c = true) :
    Accepts consume (.headerLineStart, req) (c :: w) t rest ↔ ∃ name value w',
      c :: w = (Line.field name value).encode ++ w' ∧ (Line.field name value).Valid ∧
        Accepts consume (.headerLineStart,
          { req with headers := req.headers ++ [⟨name, value⟩] }) w' t rest := by
  have hfirst : ∀ c, isToken c → consume (.headerLineStart, req) c = some (.indeterminate,
      .headerName, { req with headers := req.headers ++ [⟨[c], []⟩] }) := by
    intro c hc
    have hreturn : c ≠ byte '\r' := by
      rintro rfl
      exact absurd hc (by decide)
    simp [consume, hreturn, isSpace_of_isToken hc, hc]
  have hconsume : ∀ us c, consume (.headerName,
      { req with headers := req.headers ++ [⟨us, []⟩] }) c =
        if c = byte ':' then some (.indeterminate, .spaceBeforeHeaderValue,
          { req with headers := req.headers ++ [⟨us, []⟩] })
        else if isToken c then some (.indeterminate, .headerName,
          { req with headers := req.headers ++ [⟨us ++ [c], []⟩] })
        else some (.bad, .headerName, { req with headers := req.headers ++ [⟨us, []⟩] }) := by
    intro us c
    simp only [consume, modifyBack_concat]
  refine (accepts_nonempty _ hfirst hconsume (by decide) hc).trans ?_
  constructor
  · rintro ⟨name, w', hw, hne, hname, h⟩
    obtain ⟨w', rfl, h⟩ := (accepts_char fun _ => rfl).mp h
    obtain ⟨value, w', rfl, hvalue, h⟩ := (accepts_value rfl).mp h
    exact ⟨name, value, w', by simp [hw, Line.encode], ⟨hne, hname, hvalue⟩, by simpa using h⟩
  · rintro ⟨name, value, w', hw, ⟨hne, hname, hvalue⟩, h⟩
    refine ⟨name, byte ' ' :: (value ++ crlf ++ w'), by simpa [Line.encode] using hw, hne, hname,
      ?_⟩
    refine (accepts_char fun _ => rfl).mpr ⟨_, rfl, (accepts_value rfl).mpr ?_⟩
    exact ⟨value, w', rfl, hvalue, by simpa using h⟩

/-- A line that continues the last field. -/
theorem accepts_fold (hc : isSpace c = true) (hne : req.headers ≠ []) :
    Accepts consume (.headerLineStart, req) (c :: w) t rest ↔ ∃ space text w',
      c :: w = (Line.fold space text).encode ++ w' ∧ (Line.fold space text).Valid ∧
        Accepts consume (.headerLineStart, { req with
          headers := (Line.fold space text).extend req.headers }) w' t rest := by
  obtain ⟨hs, ⟨name, value⟩, hreq⟩ := List.eq_nil_or_concat' req.headers |>.resolve_left hne
  have hreturn : c ≠ byte '\r' := by
    rintro rfl
    exact absurd hc (by decide)
  have hstep : consume (.headerLineStart, req) c = some (.indeterminate, .headerLws, req) := by
    simp [consume, hreturn, hne, hc]
  rw [accepts_indeterminate hstep, accepts_lws hreq]
  simp only [Line.extend, hreq, modifyBack_concat]
  constructor
  · rintro ⟨space, text, w', rfl, hspace, htext, hhead, h⟩
    exact ⟨c :: space, text, w', rfl, ⟨List.cons_ne_nil _ _,
      List.forall_mem_cons.mpr ⟨hc, hspace⟩, htext, hhead⟩, h⟩
  · rintro ⟨space, text, w', hw, ⟨hspacene, hspace, htext, hhead⟩, h⟩
    cases space with
    | nil => exact absurd rfl hspacene
    | cons d space =>
      obtain ⟨rfl, rfl⟩ := List.cons.inj hw
      exact ⟨space, text, w', rfl, (List.forall_mem_cons.mp hspace).2, htext, hhead, h⟩

theorem field_head {name value w' : List Byte} (h : (Line.field name value).Valid)
    (hw : c :: w = (Line.field name value).encode ++ w') : isToken c = true := by
  obtain ⟨hne, hname, -⟩ := h
  cases name with
  | nil => exact absurd rfl hne
  | cons d name =>
    obtain ⟨rfl, -⟩ := List.cons.inj hw
    exact hname c List.mem_cons_self

theorem fold_head {space text w' : List Byte} (h : (Line.fold space text).Valid)
    (hw : c :: w = (Line.fold space text).encode ++ w') : isSpace c = true := by
  obtain ⟨hne, hspace, -⟩ := h
  cases space with
  | nil => exact absurd rfl hne
  | cons d space =>
    obtain ⟨rfl, -⟩ := List.cons.inj hw
    exact hspace c List.mem_cons_self

/-- At the start of a line there is the end of the request, or a line. -/
theorem accepts_line : Accepts consume (.headerLineStart, req) w t rest ↔
    (w = crlf ++ rest ∧ t = (.expectingNewline3, req)) ∨ ∃ (line : Line) (w' : List Byte),
      line.Valid ∧ (req.headers = [] → line.IsField) ∧ w = line.encode ++ w' ∧ Accepts consume
        (.headerLineStart, { req with headers := line.extend req.headers }) w' t rest := by
  have hreturn : isSpace (byte '\r') = false ∧ isToken (byte '\r') = false := by decide
  constructor
  · intro h
    cases w with
    | nil => exact absurd h not_accepts_nil
    | cons c w =>
      by_cases hc : c = byte '\r'
      · subst hc
        have hstep : consume (.headerLineStart, req) (byte '\r') =
            some (.indeterminate, .expectingNewline3, req) := rfl
        rw [accepts_indeterminate hstep, accepts_newline3] at h
        obtain ⟨rfl, rfl⟩ := h
        exact .inl ⟨rfl, rfl⟩
      · refine .inr ?_
        by_cases hfold : req.headers ≠ [] ∧ isSpace c = true
        · obtain ⟨space, text, w', hw, hvalid, h⟩ := (accepts_fold hfold.2 hfold.1).mp h
          exact ⟨_, w', hvalid, fun hnil => absurd hnil hfold.1, hw, h⟩
        · by_cases htoken : isToken c = true
          · obtain ⟨name, value, w', hw, hvalid, h⟩ := (accepts_field htoken).mp h
            exact ⟨_, w', hvalid, fun _ => trivial, hw, h⟩
          · have hrefuses : Refuses consume (.headerLineStart, req) c :=
              refuses_of_bad (by simp only [consume, if_neg hc, if_neg hfold, if_neg htoken])
            exact absurd h hrefuses.not_accepts
  · rintro (⟨rfl, rfl⟩ | ⟨line, w', hvalid, hfirst, hw, h⟩)
    · have hstep : consume (.headerLineStart, req) (byte '\r') =
          some (.indeterminate, .expectingNewline3, req) := rfl
      exact (accepts_indeterminate hstep).mpr (accepts_newline3.mpr ⟨rfl, rfl⟩)
    · cases w with
      | nil => cases line <;> simp [Line.encode, crlf] at hw
      | cons c w =>
        cases line with
        | field name value =>
          exact (accepts_field (field_head hvalid hw)).mpr ⟨name, value, w', hw, hvalid, h⟩
        | fold space text =>
          have hne : req.headers ≠ [] := fun hnil => hfirst hnil
          exact (accepts_fold (fold_head hvalid hw) hne).mpr ⟨space, text, w', hw, hvalid, h⟩

theorem encode_ne_nil (line : Line) : line.encode ≠ [] := by
  cases line <;> simp [Line.encode, crlf]

theorem modifyBack_ne_nil {f : Header → Header} {hs : List Header} (h : hs ≠ []) :
    modifyBack f hs ≠ [] := by
  obtain ⟨hs, last, rfl⟩ := List.eq_nil_or_concat' hs |>.resolve_left h
  simp [modifyBack_concat]

theorem extend_ne_nil {line : Line} {hs : List Header} (h : hs = [] → line.IsField) :
    line.extend hs ≠ [] := by
  cases line with
  | field name value => simp [Line.extend]
  | fold space text => exact modifyBack_ne_nil fun hnil => h hnil

/-- All lines of a request, the first of which is a field if there has been none. -/
theorem accepts_lines : Accepts consume (.headerLineStart, req) w t rest ↔
    ∃ lines : List Line, (∀ line ∈ lines, line.Valid) ∧
      (req.headers = [] → ∀ line ∈ lines.head?, line.IsField) ∧
        w = lines.flatMap Line.encode ++ crlf ++ rest ∧
          t = (.expectingNewline3,
            { req with headers := lines.foldl Line.extend req.headers }) := by
  constructor
  · intro h
    generalize hn : w.length = n
    induction n using Nat.strongRecOn generalizing w req with
    | ind n ih =>
      obtain ⟨rfl, rfl⟩ | ⟨line, w', hvalid, hfirst, rfl, hlines⟩ := accepts_line.mp h
      · exact ⟨[], by simp, by simp, rfl, rfl⟩
      · have hlt : w'.length < n := by
          have hpos := List.length_pos_of_ne_nil (encode_ne_nil line)
          rw [List.length_append] at hn
          omega
        obtain ⟨lines, hall, -, rfl, rfl⟩ := ih _ hlt hlines rfl
        exact ⟨line :: lines, List.forall_mem_cons.mpr ⟨hvalid, hall⟩,
          fun hnil l hl => Option.some_inj.mp hl ▸ hfirst hnil, by simp, rfl⟩
  · rintro ⟨lines, hvalid, hfirst, rfl, rfl⟩
    induction lines generalizing req with
    | nil => exact accepts_line.mpr (.inl ⟨rfl, rfl⟩)
    | cons line lines ih =>
      obtain ⟨hline, hlines⟩ := List.forall_mem_cons.mp hvalid
      have hfield : req.headers = [] → line.IsField := fun hnil => hfirst hnil line rfl
      refine accepts_line.mpr (.inr ⟨line, lines.flatMap Line.encode ++ crlf ++ rest, hline, hfield,
        by simp, ?_⟩)
      exact ih hlines fun hnil => absurd hnil (extend_ne_nil hfield)

theorem accepts_major (hreq : req.httpVersionMajor = 0) :
    Accepts consume (.httpVersionMajorStart, req) w t rest ↔ ∃ (n : Number) (w' : List Byte),
      w = n.digits ++ byte '.' :: w' ∧ Accepts consume
        (.httpVersionMinorStart, { req with httpVersionMajor := numeral n.digits }) w' t rest := by
  have hset : req = { req with httpVersionMajor := 0 } := by
    rw [← hreq]
  rw [hset]
  exact accepts_number (fun n => { req with httpVersionMajor := n }) (fun _ => rfl)
    (fun _ _ => rfl) (by decide)

theorem accepts_minor (hreq : req.httpVersionMinor = 0) :
    Accepts consume (.httpVersionMinorStart, req) w t rest ↔ ∃ (n : Number) (w' : List Byte),
      w = n.digits ++ byte '\r' :: w' ∧ Accepts consume
        (.expectingNewline1, { req with httpVersionMinor := numeral n.digits }) w' t rest := by
  have hset : req = { req with httpVersionMinor := 0 } := by
    rw [← hreq]
  rw [hset]
  exact accepts_number (fun n => { req with httpVersionMinor := n }) (fun _ => rfl)
    (fun _ _ => rfl) (by decide)

theorem Message.accepted (m : Message) (major minor : Nat) (rest : List Byte) :
    Accepts consume (initial major minor) (m.encode ++ rest) (.expectingNewline3, m.request)
      rest := by
  have hencode : m.encode ++ rest = m.method ++ byte ' ' :: (m.uri ++ byte ' ' ::
      ("HTTP/".toList.map byte ++ (m.major.digits ++ byte '.' :: (m.minor.digits ++
        byte '\r' :: byte '\n' :: (m.lines.flatMap Line.encode ++ crlf ++ rest))))) := by
    simp [Message.encode, crlf, byte]
  rw [hencode]
  refine (accepts_method (by rfl)).mpr ⟨_, _, rfl, m.method_nonempty, m.method_token, ?_⟩
  refine (accepts_uri (by rfl)).mpr ⟨_, _, rfl, m.uri_text, ?_⟩
  refine accepts_http.mpr ⟨_, rfl, ?_⟩
  refine (accepts_major (by rfl)).mpr ⟨m.major, _, rfl, ?_⟩
  refine (accepts_minor (by rfl)).mpr ⟨m.minor, _, rfl, ?_⟩
  refine accepts_newline1.mpr ⟨_, rfl, ?_⟩
  exact accepts_lines.mpr ⟨m.lines, m.lines_valid, fun _ => m.lines_first, rfl, rfl⟩

end Accepts

/-! ### Requests that are not complete -/

section Prefixes

variable {w rest : List Byte} {c : Byte} {s t : State × Request} {req : Request}

/-- The numbers of the version are zero until a digit of theirs has been read. -/
structure Versioned (s : State × Request) : Prop where
  major : s.1 = .httpVersionMajorStart → s.2.httpVersionMajor = 0
  minor : s.1 = .httpVersionMajorStart ∨ s.1 = .httpVersionMajor ∨ s.1 = .httpVersionMinorStart →
    s.2.httpVersionMinor = 0

theorem versioned_of_ne (h : s.1 ≠ .httpVersionMajorStart ∧ s.1 ≠ .httpVersionMajor ∧
    s.1 ≠ .httpVersionMinorStart) : Versioned s where
  major := fun hs => absurd hs h.1
  minor := fun hs => by simp [h.1, h.2.1, h.2.2] at hs

theorem Versioned.step (h : Versioned s) (hs : consume s c = some (.indeterminate, t)) :
    Versioned t := by
  obtain ⟨state, req⟩ := s
  cases state with
  | httpVersionSlash =>
    simp only [consume] at hs
    split at hs
    · cases hs
      exact ⟨fun _ => rfl, fun _ => rfl⟩
    · cases hs
  | httpVersionMajorStart =>
    simp only [consume] at hs
    split at hs
    · obtain ⟨n, -, hn⟩ := Option.bind_eq_some_iff.mp hs
      cases hn
      exact ⟨nofun, fun _ => h.minor (.inl rfl)⟩
    · cases hs
  | httpVersionMajor =>
    simp only [consume] at hs
    split at hs
    · cases hs
      exact ⟨nofun, fun _ => h.minor (.inr (.inl rfl))⟩
    · split at hs
      · obtain ⟨n, -, hn⟩ := Option.bind_eq_some_iff.mp hs
        cases hn
        exact ⟨nofun, fun _ => h.minor (.inr (.inl rfl))⟩
      · cases hs
  | _ =>
    refine versioned_of_ne ?_
    grind [consume, Option.bind_eq_some_iff]

/-- Something that completes the request may follow. -/
def Completes (s : State × Request) : Prop := ∃ v t, Accepts consume s v t []

theorem Completes.of_step {t : State × Request} (h : Completes t) (c : Byte)
    (hs : consume s c = some (.indeterminate, t)) : Completes s := by
  obtain ⟨v, u, h⟩ := h
  exact ⟨c :: v, u, (accepts_indeterminate hs).mpr h⟩

theorem completes_newline3 (req : Request) : Completes (.expectingNewline3, req) :=
  ⟨_, _, accepts_newline3.mpr ⟨rfl, rfl⟩⟩

theorem completes_line (req : Request) : Completes (.headerLineStart, req) :=
  (completes_newline3 req).of_step (byte '\r') rfl

theorem completes_newline2 (req : Request) : Completes (.expectingNewline2, req) :=
  (completes_line req).of_step (byte '\n') rfl

theorem completes_value (req : Request) : Completes (.headerValue, req) :=
  (completes_newline2 req).of_step (byte '\r') rfl

theorem completes_space (req : Request) : Completes (.spaceBeforeHeaderValue, req) :=
  (completes_value req).of_step (byte ' ') rfl

theorem completes_newline1 (req : Request) : Completes (.expectingNewline1, req) :=
  (completes_line req).of_step (byte '\n') rfl

theorem completes_minor (req : Request) : Completes (.httpVersionMinor, req) :=
  (completes_newline1 req).of_step (byte '\r') rfl

theorem completes_minorStart (h : req.httpVersionMinor = 0) :
    Completes (.httpVersionMinorStart, req) := by
  refine (completes_minor { req with httpVersionMinor := 0 }).of_step (byte '0') ?_
  simp only [consume, h]
  rfl

theorem completes_major (h : req.httpVersionMinor = 0) : Completes (.httpVersionMajor, req) :=
  (completes_minorStart h).of_step (byte '.') rfl

theorem completes_majorStart (hmajor : req.httpVersionMajor = 0)
    (hminor : req.httpVersionMinor = 0) : Completes (.httpVersionMajorStart, req) := by
  have hnext : Completes (.httpVersionMajor, { req with httpVersionMajor := 1 }) :=
    completes_major hminor
  refine hnext.of_step (byte '1') ?_
  simp only [consume, hmajor]
  rfl

theorem completes_slash (req : Request) : Completes (.httpVersionSlash, req) := by
  have hnext : Completes (.httpVersionMajorStart,
      { req with httpVersionMajor := 0, httpVersionMinor := 0 }) := completes_majorStart rfl rfl
  exact hnext.of_step (byte '/') rfl

theorem completes_t2 (req : Request) : Completes (.httpVersionT2, req) :=
  ((completes_slash req).of_step (s := (.httpVersionP, req)) (byte 'P') rfl).of_step (byte 'T') rfl

theorem completes_http (req : Request) : Completes (.httpVersionH, req) :=
  ((completes_t2 req).of_step (s := (.httpVersionT1, req)) (byte 'T') rfl).of_step (byte 'H') rfl

theorem completes_uri (req : Request) : Completes (.uri, req) :=
  (completes_http req).of_step (byte ' ') rfl

theorem Versioned.completes (h : Versioned s) : Completes s := by
  obtain ⟨state, req⟩ := s
  cases state with
  | methodStart => exact ((completes_uri _).of_step (byte ' ') rfl).of_step (byte 'A') rfl
  | method => exact (completes_uri _).of_step (byte ' ') rfl
  | uri => exact completes_uri req
  | httpVersionH => exact completes_http req
  | httpVersionT1 => exact (completes_t2 req).of_step (byte 'T') rfl
  | httpVersionT2 => exact completes_t2 req
  | httpVersionP => exact (completes_slash req).of_step (byte 'P') rfl
  | httpVersionSlash => exact completes_slash req
  | httpVersionMajorStart => exact completes_majorStart (h.major rfl) (h.minor (.inl rfl))
  | httpVersionMajor => exact completes_major (h.minor (.inr (.inl rfl)))
  | httpVersionMinorStart => exact completes_minorStart (h.minor (.inr (.inr rfl)))
  | httpVersionMinor => exact completes_minor req
  | expectingNewline1 => exact completes_newline1 req
  | headerLineStart => exact completes_line req
  | headerLws => exact (completes_newline2 req).of_step (byte '\r') rfl
  | headerName => exact (completes_space req).of_step (byte ':') rfl
  | spaceBeforeHeaderValue => exact completes_space req
  | headerValue => exact completes_value req
  | expectingNewline2 => exact completes_newline2 req
  | expectingNewline3 => exact completes_newline3 req

end Prefixes

end Asio.Http.Server.RequestParser
