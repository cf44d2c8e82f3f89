import Asio.Lib.Separated
import Asio.Detail.InetPton

/-! What the scan of an address accepts: the text is cut at the first `%`, at the first two colons
in a row and at every other colon, and every piece is a number of 16 bits. -/

namespace Asio.Detail.InetPton

open Lib.BigEndian Lib.Digits Lib.Separated

/-! ### The scan as functions of the text -/

def backWords : Nat → Text → Option (List Nat × Option Nat)
  | w, [] => if 0xFFFF < w then none else some ([w], none)
  | w, c :: text =>
    if 0xFFFF < w then none
    else match hexDigit c with
    | some d => backWords (w * 16 + d) text
    | none =>
      if c = ':' then (backWords 0 text).map fun r => (w :: r.1, r.2)
      else if c = '%' then (bounded 10 decDigit 0xFFFF 0 text).map fun z => ([w], some z)
      else none

def frontWords : Nat → Text → Option (List Nat × Option (List Nat) × Option Nat)
  | w, [] => if 0xFFFF < w then none else some ([w], none, none)
  | w, c :: text =>
    if 0xFFFF < w then none
    else match hexDigit c with
    | some d => frontWords (w * 16 + d) text
    | none =>
      if c = ':' then
        if text.head? = some ':' then (backWords 0 text.tail).map fun r => ([w], some r.1, r.2)
        else (frontWords 0 text).map fun r => (w :: r.1, r.2)
      else if c = '%' then (bounded 10 decDigit 0xFFFF 0 text).map fun z => ([w], none, some z)
      else none

section Loop

variable {text : Text} {w : Nat} {front back : List Byte} {scopeId : Option Nat}

theorem backWords_nil : backWords w [] = if 0xFFFF < w then none else some ([w], none) := rfl

theorem backWords_cons (c : Char) : backWords w (c :: text) =
    if 0xFFFF < w then none
    else match hexDigit c with
    | some d => backWords (w * 16 + d) text
    | none =>
      if c = ':' then (backWords 0 text).map fun r => (w :: r.1, r.2)
      else if c = '%' then (bounded 10 decDigit 0xFFFF 0 text).map fun z => ([w], some z)
      else none := rfl

theorem frontWords_nil : frontWords w [] = if 0xFFFF < w then none else some ([w], none, none) :=
  rfl

theorem frontWords_cons (c : Char) : frontWords w (c :: text) =
    if 0xFFFF < w then none
    else match hexDigit c with
    | some d => frontWords (w * 16 + d) text
    | none =>
      if c = ':' then
        if text.head? = some ':' then (backWords 0 text.tail).map fun r => ([w], some r.1, r.2)
        else (frontWords 0 text).map fun r => (w :: r.1, r.2)
      else if c = '%' then (bounded 10 decDigit 0xFFFF 0 text).map fun z => ([w], none, some z)
      else none := rfl

theorem loop_done {s : Scan} (h : s.state = .done) : loop s = some s := by
  rw [loop, dif_pos h]

theorem loop_eq {s : Scan} (h : s.state ≠ .done) : loop s = (step s).bind loop := by
  rw [loop, dif_neg h]
  split
  · rename_i hs
    rw [hs]
    rfl
  · rename_i s' hs
    rw [hs]
    rfl

theorem loop_scope : loop ⟨text, .scope, w, front, back, scopeId⟩
    = (bounded 10 decDigit 0xFFFF w text).map fun z =>
      ⟨[], .done, z, front, back, some z⟩ := by
  induction text generalizing w with
  | nil =>
    rw [loop_eq (by simp), step, bounded_nil]
    split
    · rfl
    · simp [nextDigit, loop_done]
  | cons c text ih =>
    rw [loop_eq (by simp), step, bounded_cons]
    split
    · rfl
    · cases hc : decDigit c with
      | none => simp [nextDigit, hc]
      | some d => simp [nextDigit, hc, takeDigit, ih]

theorem length_flatMap_wordBytes (ws : List Nat) :
    (ws.flatMap wordBytes).length = 2 * ws.length := by
  induction ws with
  | nil => rfl
  | cons w ws ih =>
    rw [List.flatMap_cons, List.length_append, ih]
    simp only [wordBytes, List.length_cons, List.length_nil]
    omega

/-- The end of the scan, when the words fit. -/
def finish (front back : List Byte) (fronts backs : List Nat) (z : Option Nat) : Option Scan :=
  if front.length + back.length + 2 * (fronts.length + backs.length) ≤ 16 then
    some ⟨[], .done, z.getD 0, front ++ fronts.flatMap wordBytes,
      back ++ backs.flatMap wordBytes, z⟩
  else none

theorem finish_nil (hle : front.length + back.length ≤ 16) (z : Option Nat) :
    finish front back [] [] z = some ⟨[], .done, z.getD 0, front, back, z⟩ := by
  rw [finish, if_pos (by simpa using hle)]
  simp

theorem finish_pushBack (ws : List Nat) (z : Option Nat) :
    finish front back [] (w :: ws) z = finish front (back ++ wordBytes w) [] ws z := by
  have hlen : (wordBytes w).length = 2 := rfl
  simp only [finish, List.length_append, hlen, List.length_cons, List.flatMap_cons,
    List.append_assoc]
  congr 1
  simp only [List.length_nil, eq_iff_iff]
  omega

theorem finish_pushFront (fs bs : List Nat) (z : Option Nat) :
    finish front back (w :: fs) bs z = finish (front ++ wordBytes w) back fs bs z := by
  have hlen : (wordBytes w).length = 2 := rfl
  simp only [finish, List.length_append, hlen, List.length_cons, List.flatMap_cons,
    List.append_assoc]
  congr 1
  simp only [eq_iff_iff]
  omega

theorem finish_full (hfull : front.length + back.length = 16) {fs bs : List Nat}
    (hne : fs ≠ [] ∨ bs ≠ []) (z : Option Nat) : finish front back fs bs z = none := by
  rw [finish, if_neg]
  rcases hne with h | h
  · have := List.length_pos_iff.mpr h
    omega
  · have := List.length_pos_iff.mpr h
    omega

/-- Words take two bytes each, and no more than 16. -/
def Even (front back : List Byte) : Prop := ∃ k, front.length + back.length = 2 * k ∧ k ≤ 8

theorem Even.pushBack (h : Even front back) (hne : front.length + back.length ≠ 16) (w : Nat) :
    Even front (back ++ wordBytes w) := by
  obtain ⟨k, hk, hle⟩ := h
  have hlen : (wordBytes w).length = 2 := rfl
  refine ⟨k + 1, ?_, by omega⟩
  rw [List.length_append, hlen]
  omega

theorem Even.pushFront (h : Even front back) (hne : front.length + back.length ≠ 16) (w : Nat) :
    Even (front ++ wordBytes w) back := by
  obtain ⟨k, hk, hle⟩ := h
  have hlen : (wordBytes w).length = 2 := rfl
  refine ⟨k + 1, ?_, by omega⟩
  rw [List.length_append, hlen]
  omega

theorem Even.le (h : Even front back) : front.length + back.length ≤ 16 := by
  obtain ⟨k, hk, hle⟩ := h
  omega

theorem step_bword (hw : ¬0xFFFF < w) (hdigit : text.head?.bind hexDigit = none) :
    step ⟨text, .bword, w, front, back, none⟩ =
      if front.length + back.length = 16 then none
      else afterWord ⟨text, .bword, 0, front, back ++ wordBytes w, none⟩ .bword := by
  simp only [step, nextDigit, hw, hdigit, if_false, pushBack]

theorem step_fword (hw : ¬0xFFFF < w) (hdigit : text.head?.bind hexDigit = none) :
    step ⟨text, .fword, w, front, back, none⟩ =
      if front.length = 16 then none
      else afterWord ⟨text, .fword, 0, front ++ wordBytes w, back, none⟩ .fcolon := by
  simp only [step, nextDigit, hw, hdigit, if_false, pushFront]

theorem loop_fcolon : loop ⟨text, .fcolon, 0, front, back, none⟩ =
    if text.head? = some ':' then loop ⟨text.tail, .bword, 0, front, back, none⟩
    else loop ⟨text, .fword, 0, front, back, none⟩ := by
  rw [loop_eq (by simp), step, if_neg (by simp)]
  simp only
  split
  · simp
  · rename_i htext
    rw [if_neg]
    · rfl
    · intro hhead
      obtain ⟨rest, rfl⟩ := List.head?_eq_some_iff.mp hhead
      exact htext rest rfl

theorem bind_finish_full {β : Type} (hfull : front.length + back.length = 16) (o : Option β)
    (fs bs : β → List Nat) (z : β → Option Nat) (hne : ∀ x, fs x ≠ [] ∨ bs x ≠ []) :
    (o.bind fun x => finish front back (fs x) (bs x) (z x)) = none := by
  cases o with
  | none => rfl
  | some x => exact finish_full hfull (hne x) (z x)

theorem loop_bword (h : Even front back) : loop ⟨text, .bword, w, front, back, none⟩
    = (backWords w text).bind fun r => finish front back [] r.1 r.2 := by
  induction text generalizing w back with
  | nil =>
    rw [loop_eq (by simp), backWords_nil]
    by_cases hw : 0xFFFF < w
    · simp [step, hw]
    · rw [step_bword hw rfl, if_neg hw]
      by_cases hfull : front.length + back.length = 16
      · simp [hfull, finish_full hfull]
      · simp [hfull, afterWord, loop_done, finish_pushBack, finish_nil (h.pushBack hfull w).le]
  | cons c text ih =>
    rw [loop_eq (by simp), backWords_cons]
    by_cases hw : 0xFFFF < w
    · simp [step, hw]
    rw [if_neg hw]
    cases hc : hexDigit c with
    | some d => simp [step, hw, nextDigit, hc, takeDigit, ih h]
    | none =>
      have hdigit : (c :: text).head?.bind hexDigit = none := hc
      rw [step_bword hw hdigit]
      by_cases hfull : front.length + back.length = 16
      · rw [if_pos hfull]
        split_ifs
        · rw [Option.bind_map]
          exact (bind_finish_full hfull _ _ _ _ fun r => .inr (by simp)).symm
        · rw [Option.bind_map]
          exact (bind_finish_full hfull _ _ _ _ fun r => .inr (by simp)).symm
        · rfl
      · rw [if_neg hfull]
        by_cases hcolon : c = ':'
        · subst hcolon
          simp [afterWord, ih (h.pushBack hfull w), finish_pushBack, Option.bind_map]
        · by_cases hpercent : c = '%'
          · subst hpercent
            simp only [afterWord, Option.bind_some, loop_scope, if_neg hcolon, if_pos,
              Option.bind_map, Function.comp_def, finish_pushBack,
              finish_nil (h.pushBack hfull w).le, Option.getD_some]
            rw [Option.map_eq_bind]
            rfl
          · simp [afterWord, hcolon, hpercent]

theorem loop_fword (h : Even front []) : loop ⟨text, .fword, w, front, [], none⟩
    = (frontWords w text).bind fun r => finish front [] r.1 (r.2.1.getD []) r.2.2 := by
  induction text generalizing w front with
  | nil =>
    rw [loop_eq (by simp), frontWords_nil]
    by_cases hw : 0xFFFF < w
    · simp [step, hw]
    · rw [step_fword hw rfl, if_neg hw]
      by_cases hfull : front.length = 16
      · have hnone := @finish_full front [] hfull
        simp [hfull, hnone]
      · simp [hfull, afterWord, loop_done, finish_pushFront, finish_nil (h.pushFront hfull w).le]
  | cons c text ih =>
    rw [loop_eq (by simp), frontWords_cons]
    by_cases hw : 0xFFFF < w
    · simp [step, hw]
    rw [if_neg hw]
    cases hc : hexDigit c with
    | some d => simp [step, hw, nextDigit, hc, takeDigit, ih h]
    | none =>
      have hdigit : (c :: text).head?.bind hexDigit = none := hc
      rw [step_fword hw hdigit]
      by_cases hfull : front.length = 16
      · rw [if_pos hfull]
        have hfull : front.length + ([] : List Byte).length = 16 := hfull
        split_ifs
        · rw [Option.bind_map]
          exact (bind_finish_full hfull _ _ _ _ fun r => .inl (by simp)).symm
        · rw [Option.bind_map]
          exact (bind_finish_full hfull _ _ _ _ fun r => .inl (by simp)).symm
        · rw [Option.bind_map]
          exact (bind_finish_full hfull _ _ _ _ fun r => .inl (by simp)).symm
        · rfl
      · rw [if_neg hfull]
        have hnext := h.pushFront hfull w
        by_cases hcolon : c = ':'
        · subst hcolon
          simp only [afterWord, Option.bind_some, loop_fcolon, if_true]
          split_ifs
          · simp [loop_bword hnext, finish_pushFront, Option.bind_map]
          · simp [ih hnext, finish_pushFront, Option.bind_map]
        · by_cases hpercent : c = '%'
          · subst hpercent
            simp only [afterWord, Option.bind_some, loop_scope, if_neg hcolon, if_pos,
              Option.bind_map, Function.comp_def, finish_pushFront, Option.getD_none,
              finish_nil hnext.le, Option.getD_some]
            rw [Option.map_eq_bind]
            rfl
          · simp [afterWord, hcolon, hpercent]

end Loop

/-! ### The pieces of the text -/

def wordsOf : Nat → List Text → Option (List Nat)
  | _, [] => some []
  | w, g :: gs => (bounded 16 hexDigit 0xFFFF w g).bind fun v => (wordsOf 0 gs).map (v :: ·)

def backOf : Option Text → Option (Option (List Nat))
  | none => some none
  | some text => (wordsOf 0 (text.splitOn ':')).map some

def scopeOf : Option Text → Option (Option Nat)
  | none => some none
  | some text => (bounded 10 decDigit 0xFFFF 0 text).map some

section Pieces

variable {text : Text} {w : Nat}

theorem splitOn_cons_self (text : Text) : (':' :: text).splitOn ':' = [] :: text.splitOn ':' := by
  rw [List.splitOn_cons_eq_if_modifyHead, if_pos (by rfl)]

theorem splitOn_cons_of_ne {c : Char} (hc : c ≠ ':') (text : Text) :
    ∃ g gs, text.splitOn ':' = g :: gs ∧ (c :: text).splitOn ':' = (c :: g) :: gs := by
  obtain ⟨g, gs, hg⟩ := List.exists_cons_of_ne_nil (List.splitOn_ne_nil ':' text)
  refine ⟨g, gs, hg, ?_⟩
  rw [List.splitOn_cons_eq_if_modifyHead, if_neg (by simpa using hc), hg]
  rfl

@[simp] theorem wordsOf_nil : wordsOf w [] = some [] := rfl

theorem wordsOf_cons_eq (g : Text) (gs : List Text) : wordsOf w (g :: gs) =
    (bounded 16 hexDigit 0xFFFF w g).bind fun v => (wordsOf 0 gs).map (v :: ·) := rfl

theorem wordsOf_cons (c : Char) (g : Text) (gs : List Text) (hw : ¬0xFFFF < w) :
    wordsOf w ((c :: g) :: gs) =
      (hexDigit c).bind fun d => wordsOf (w * 16 + d) (g :: gs) := by
  rw [wordsOf_cons_eq, bounded_cons, if_neg hw, Option.bind_assoc]
  rfl

theorem wordsOf_too_great (g : Text) (gs : List Text) (hw : 0xFFFF < w) :
    wordsOf w (g :: gs) = none := by
  cases g <;> simp [wordsOf_cons_eq, bounded_nil, bounded_cons, hw]

theorem wordsOf_nil_cons (gs : List Text) (hw : ¬0xFFFF < w) :
    wordsOf w ([] :: gs) = (wordsOf 0 gs).map (w :: ·) := by
  simp [wordsOf_cons_eq, bounded_nil, hw]

theorem backWords_eq : backWords w text = (wordsOf w ((cut '%' text).1.splitOn ':')).bind fun ws =>
    (scopeOf (cut '%' text).2).map fun z => (ws, z) := by
  induction text generalizing w with
  | nil =>
    by_cases hw : 0xFFFF < w
    · simp [backWords_nil, wordsOf_cons_eq, bounded_nil, hw]
    · simp [backWords_nil, wordsOf_cons_eq, bounded_nil, scopeOf, hw]
  | cons c text ih =>
    rw [backWords_cons]
    by_cases hw : 0xFFFF < w
    · obtain ⟨g, gs, hg⟩ := List.exists_cons_of_ne_nil
        (List.splitOn_ne_nil ':' (cut '%' (c :: text)).1)
      rw [if_pos hw, hg, wordsOf_too_great g gs hw]
      rfl
    rw [if_neg hw]
    by_cases hpercent : c = '%'
    · subst hpercent
      rw [cut_cons_self, List.splitOn_nil, wordsOf_nil_cons _ hw]
      have hdigit : hexDigit '%' = none := rfl
      simp [scopeOf, hdigit]
      rfl
    rw [cut_cons_of_ne hpercent]
    by_cases hcolon : c = ':'
    · subst hcolon
      simp only [splitOn_cons_self, wordsOf_nil_cons _ hw]
      have hdigit : hexDigit ':' = none := rfl
      simp [hdigit, ih]
      rw [Option.bind_map]
      rfl
    obtain ⟨g, gs, hg, hsplit⟩ := splitOn_cons_of_ne hcolon (cut '%' text).1
    simp only [hsplit, wordsOf_cons c g gs hw]
    cases hc : hexDigit c with
    | none => simp [hcolon, hpercent]
    | some d => simp [ih, hg]

theorem frontWords_eq : frontWords w text =
    (wordsOf w ((cutDouble ':' (cut '%' text).1).1.splitOn ':')).bind fun fs =>
      (backOf (cutDouble ':' (cut '%' text).1).2).bind fun bs =>
        (scopeOf (cut '%' text).2).map fun z => (fs, bs, z) := by
  induction text generalizing w with
  | nil =>
    by_cases hw : 0xFFFF < w
    · simp [frontWords_nil, wordsOf_cons_eq, bounded_nil, hw]
    · simp [frontWords_nil, wordsOf_cons_eq, bounded_nil, backOf, scopeOf, hw]
  | cons c text ih =>
    rw [frontWords_cons]
    by_cases hw : 0xFFFF < w
    · obtain ⟨g, gs, hg⟩ := List.exists_cons_of_ne_nil
        (List.splitOn_ne_nil ':' (cutDouble ':' (cut '%' (c :: text)).1).1)
      rw [if_pos hw, hg, wordsOf_too_great g gs hw]
      rfl
    rw [if_neg hw]
    by_cases hpercent : c = '%'
    · subst hpercent
      have hdigit : hexDigit '%' = none := rfl
      rw [cut_cons_self, cutDouble_nil, List.splitOn_nil, wordsOf_nil_cons _ hw]
      simp [backOf, scopeOf, hdigit]
      rfl
    rw [cut_cons_of_ne hpercent]
    by_cases hcolon : c = ':'
    · subst hcolon
      have hdigit : hexDigit ':' = none := rfl
      by_cases hdouble : text.head? = some ':'
      · obtain ⟨rest, rfl⟩ := List.head?_eq_some_iff.mp hdouble
        rw [cut_cons_of_ne hpercent, cutDouble_double]
        simp only [List.splitOn_nil, wordsOf_nil_cons _ hw, wordsOf_nil, backOf]
        simp [hdigit, backWords_eq, Option.bind_map]
        rfl
      · have hhead : ¬(':' = ':' ∧ (cut '%' text).1.head? = some ':') :=
          fun h => hdouble (head?_of_cut h.2)
        rw [cutDouble_cons hhead]
        simp only [splitOn_cons_self, wordsOf_nil_cons _ hw]
        simp [hdigit, hdouble, ih, Option.bind_map]
        rfl
    rw [cutDouble_cons fun h => hcolon h.1]
    obtain ⟨g, gs, hg, hsplit⟩ := splitOn_cons_of_ne hcolon (cutDouble ':' (cut '%' text).1).1
    simp only [hsplit, wordsOf_cons c g gs hw]
    cases hc : hexDigit c with
    | none => simp [hcolon, hpercent]
    | some d => simp [ih, hg]

end Pieces

/-! ### What is accepted -/

def frontGroups (src : Text) : List Text := (cutDouble ':' (cut '%' src).1).1.splitOn ':'

def backGroups (src : Text) : List Text :=
  (cutDouble ':' (cut '%' src).1).2.elim [] (List.splitOn ':')

def scopeText (src : Text) : Option Text := (cut '%' src).2

/-- The value of a group, which is 0 without any digit. -/
def word (group : Text) : Nat := value 16 hexDigit 0 group

def IsWord (group : Text) : Prop := AllDigits hexDigit group ∧ word group ≤ 0xFFFF

def IsScope (text : Text) : Prop :=
  AllDigits decDigit text ∧ value 10 decDigit 0 text ≤ 0xFFFF

/-- The language of the scan: the groups are numbers of 16 bits, written with any number of digits
or none, no more than eight, and the scope is a number of 16 bits. -/
structure Loose (src : Text) : Prop where
  front : ∀ g ∈ frontGroups src, IsWord g
  back : ∀ g ∈ backGroups src, IsWord g
  count : (frontGroups src).length + (backGroups src).length ≤ 8
  scope : ∀ text ∈ scopeText src, IsScope text

/-- The words of the front, zeros, and the words of the back at the end. -/
def fill (front back : List Nat) : List Byte :=
  front.flatMap wordBytes ++ List.replicate (16 - 2 * front.length - 2 * back.length) 0 ++
    back.flatMap wordBytes

section Accepts

variable {src : Text} {groups : List Text} {ws : List Nat} {w : Nat}

theorem wordsOf_eq_some_iff :
    wordsOf 0 groups = some ws ↔ (∀ g ∈ groups, IsWord g) ∧ ws = groups.map word := by
  induction groups generalizing ws with
  | nil => simp [eq_comm]
  | cons g gs ih =>
    simp only [wordsOf_cons_eq, Option.bind_eq_some_iff, Option.map_eq_some_iff, ih,
      bounded_eq_some_iff (show 0 < 16 by decide), List.forall_mem_cons, List.map_cons]
    constructor
    · rintro ⟨v, ⟨hall, rfl, hle⟩, vs, ⟨hgs, rfl⟩, rfl⟩
      exact ⟨⟨⟨hall, hle⟩, hgs⟩, rfl⟩
    · rintro ⟨⟨⟨hall, hle⟩, hgs⟩, rfl⟩
      exact ⟨_, ⟨hall, rfl, hle⟩, _, ⟨hgs, rfl⟩, rfl⟩

theorem backOf_eq_some_iff {bs : Option (List Nat)} :
    backOf (cutDouble ':' (cut '%' src).1).2 = some bs ↔
      (∀ g ∈ backGroups src, IsWord g) ∧
        bs = (cutDouble ':' (cut '%' src).1).2.map fun _ => (backGroups src).map word := by
  rw [backGroups]
  cases (cutDouble ':' (cut '%' src).1).2 with
  | none => simp [backOf, eq_comm]
  | some text =>
    simp only [backOf, Option.map_eq_some_iff, wordsOf_eq_some_iff, Option.elim_some,
      Option.map_some]
    constructor
    · rintro ⟨ws, ⟨hall, rfl⟩, rfl⟩
      exact ⟨hall, rfl⟩
    · rintro ⟨hall, rfl⟩
      exact ⟨_, ⟨hall, rfl⟩, rfl⟩

theorem scopeOf_eq_some_iff {z : Option Nat} : scopeOf (scopeText src) = some z ↔
    (∀ text ∈ scopeText src, IsScope text) ∧
      z = (scopeText src).map (value 10 decDigit 0) := by
  cases scopeText src with
  | none => simp [scopeOf, eq_comm]
  | some text =>
    simp only [scopeOf, Option.map_eq_some_iff, bounded_eq_some_iff (show 0 < 10 by decide),
      Option.mem_some_iff, forall_eq', Option.map_some]
    constructor
    · rintro ⟨v, ⟨hall, rfl, hle⟩, rfl⟩
      exact ⟨⟨hall, hle⟩, rfl⟩
    · rintro ⟨⟨hall, hle⟩, rfl⟩
      exact ⟨_, ⟨hall, rfl, hle⟩, rfl⟩

theorem address_of_finish {fs bs : List Nat} {z : Option Nat} {s : Scan}
    (h : finish [] [] fs bs z = some s) :
    fs.length + bs.length ≤ 8 ∧ address s = fill fs bs ∧ s.scopeId = z := by
  unfold finish at h
  split at h
  · rename_i hle
    cases h
    simp only [List.length_nil] at hle
    refine ⟨by omega, ?_, rfl⟩
    simp only [address, fill, List.nil_append, length_flatMap_wordBytes]
  · cases h

theorem loop_start_eq_some_iff {s : Scan} : loop (start src) = some s ↔
    (∀ g ∈ frontGroups src, IsWord g) ∧ (∀ g ∈ backGroups src, IsWord g) ∧
      (∀ text ∈ scopeText src, IsScope text) ∧
      finish [] [] ((frontGroups src).map word) ((backGroups src).map word)
        ((scopeText src).map (value 10 decDigit 0)) = some s := by
  have hback : (((cutDouble ':' (cut '%' src).1).2.map fun _ => (backGroups src).map word).getD [])
      = (backGroups src).map word := by
    rw [backGroups]
    cases (cutDouble ':' (cut '%' src).1).2 <;> rfl
  rw [start, loop_fword ⟨0, rfl, Nat.zero_le _⟩, frontWords_eq]
  simp only [Option.bind_eq_some_iff, Option.map_eq_some_iff]
  constructor
  · rintro ⟨_, ⟨fs, hfs, bs, hbs, z, hz, rfl⟩, hfinish⟩
    obtain ⟨hfront, rfl⟩ := wordsOf_eq_some_iff.mp hfs
    obtain ⟨hback', rfl⟩ := backOf_eq_some_iff.mp hbs
    obtain ⟨hscope, rfl⟩ := scopeOf_eq_some_iff.mp hz
    rw [hback] at hfinish
    exact ⟨hfront, hback', hscope, hfinish⟩
  · rintro ⟨hfront, hback', hscope, hfinish⟩
    refine ⟨_, ⟨_, wordsOf_eq_some_iff.mpr ⟨hfront, rfl⟩, _,
      backOf_eq_some_iff.mpr ⟨hback', rfl⟩, _, scopeOf_eq_some_iff.mpr ⟨hscope, rfl⟩, rfl⟩, ?_⟩
    rw [hback]
    exact hfinish

theorem inetPton_eq_ok_iff {r : List Byte × Option Nat} : inetPton .inet6 src = .ok r ↔
    Loose src ∧ r = (fill ((frontGroups src).map word) ((backGroups src).map word),
      (scopeText src).map (value 10 decDigit 0)) := by
  constructor
  · intro h
    cases hs : loop (start src) with
    | none =>
      simp only [inetPton, hs] at h
      cases h
    | some s =>
      simp only [inetPton, hs] at h
      cases h
      obtain ⟨hfront, hback, hscope, hfinish⟩ := loop_start_eq_some_iff.mp hs
      obtain ⟨hcount, haddress, hid⟩ := address_of_finish hfinish
      rw [List.length_map, List.length_map] at hcount
      exact ⟨⟨hfront, hback, hcount, hscope⟩, by rw [haddress, hid]⟩
  · rintro ⟨h, rfl⟩
    have hcount := h.count
    obtain ⟨s, hfinish⟩ : ∃ s, finish [] [] ((frontGroups src).map word)
        ((backGroups src).map word) ((scopeText src).map (value 10 decDigit 0)) = some s := by
      rw [finish, if_pos]
      · exact ⟨_, rfl⟩
      · simp only [List.length_nil, List.length_map]
        omega
    obtain ⟨_, haddress, hid⟩ := address_of_finish hfinish
    simp only [inetPton, loop_start_eq_some_iff.mpr ⟨h.front, h.back, h.scope, hfinish⟩, haddress,
      hid]

theorem inetPton_isOk_iff : (∃ r, inetPton .inet6 src = .ok r) ↔ Loose src := by
  constructor
  · rintro ⟨r, hr⟩
    exact (inetPton_eq_ok_iff.mp hr).1
  · exact fun h => ⟨_, inetPton_eq_ok_iff.mpr ⟨h, rfl⟩⟩

end Accepts

end Asio.Detail.InetPton
