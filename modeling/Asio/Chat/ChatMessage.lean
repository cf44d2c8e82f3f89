import Asio.Ip.NetworkParsing
import Asio.Lib.Transmission

/-! The messages of the chat, which are written and read in the same way by the server and its
clients. -/

namespace Asio.Chat

open Lib.Transmission
open Ip (atoi)

def headerLength : Nat := 4

def maxBodyLength : Nat := 512

/-- `strncat`, which stops at a null character. -/
def strncat (dest src : List Char) (n : Nat) : List Char :=
  dest ++ (src.take n).takeWhile (· ≠ '\x00')

/-- A number that is negative becomes a very great length. -/
def decodeHeader (data : List Char) : Option Nat :=
  let bodyLength := (BitVec.ofInt 64 (atoi (strncat [] data headerLength))).toNat
  if bodyLength > maxBodyLength then none else some bodyLength

/-- `%4d` -/
def encodeHeader (bodyLength : Nat) : List Char :=
  let digits := Nat.toDigits 10 bodyLength
  (List.replicate (headerLength - digits.length) ' ' ++ digits).take headerLength

/-! ### What is encoded is decoded -/

section Header

variable {n : Nat}

theorem digits_length (h : n ≤ maxBodyLength) : (Nat.toDigits 10 n).length ≤ headerLength := by
  have hlt : n < 10 ^ headerLength := lt_of_le_of_lt h (by decide)
  exact (Nat.length_toDigits_le_iff (by decide) (by decide)).mpr hlt

theorem encodeHeader_eq (h : n ≤ maxBodyLength) : encodeHeader n =
    List.replicate (headerLength - (Nat.toDigits 10 n).length) ' ' ++ Nat.toDigits 10 n := by
  have hlength := digits_length h
  rw [encodeHeader, List.take_of_length_le]
  rw [List.length_append, List.length_replicate]
  omega

theorem length_encodeHeader (h : n ≤ maxBodyLength) : (encodeHeader n).length = headerLength := by
  have hlength := digits_length h
  rw [encodeHeader_eq h, List.length_append, List.length_replicate]
  omega

theorem isDigit_of_mem {c : Char} (hc : c ∈ Nat.toDigits 10 n) : c.isDigit = true :=
  Nat.isDigit_of_mem_toDigits (by decide) (by decide) hc

theorem decimal_toDigits (n : Nat) : Ip.decimal (Nat.toDigits 10 n) = n :=
  Nat.ofDigitChars_toDigits (by decide) (by decide)

theorem strtol_spaces (k : Nat) (str : List Char) :
    Ip.strtol (List.replicate k ' ' ++ str) = Ip.strtol str := by
  induction k with
  | zero => rfl
  | succ k ih =>
    rw [List.replicate_succ, List.cons_append, Ip.strtol, List.dropWhile_cons_of_pos (by decide)]
    exact ih

theorem atoi_encodeHeader (h : n ≤ maxBodyLength) : atoi (encodeHeader n) = n := by
  have hdigits : ∀ c ∈ Nat.toDigits 10 n, c.isDigit := fun _ hc => isDigit_of_mem hc
  have hsmall : n ≤ 512 := h
  rw [atoi, encodeHeader_eq h, strtol_spaces, Ip.strtol_of_digits hdigits, decimal_toDigits,
    BitVec.toInt_ofInt, Int.bmod]
  split <;> omega

theorem strncat_encodeHeader (h : n ≤ maxBodyLength) :
    strncat [] (encodeHeader n) headerLength = encodeHeader n := by
  rw [strncat, List.nil_append, List.take_of_length_le (length_encodeHeader h).le,
    List.takeWhile_eq_self_iff]
  intro c hc
  rw [encodeHeader_eq h] at hc
  rw [decide_eq_true_eq]
  rintro rfl
  rcases List.mem_append.mp hc with hc | hc
  · exact absurd (List.eq_of_mem_replicate hc) (by decide)
  · exact absurd (isDigit_of_mem hc) (by decide)

theorem decode_encodeHeader (h : n ≤ maxBodyLength) : decodeHeader (encodeHeader n) = some n := by
  have hsmall : n < 2 ^ 64 := lt_of_le_of_lt h (by decide)
  rw [decodeHeader, strncat_encodeHeader h, atoi_encodeHeader h]
  simp only [BitVec.ofInt_natCast, BitVec.toNat_ofNat, Nat.mod_eq_of_lt hsmall]
  exact if_neg (Nat.not_lt.mpr h)

end Header

/-! ### Messages -/

/-- A header that has been decoded. -/
structure Header where
  text : List Char
  bodyLength : Nat
  length_text : text.length = headerLength
  decoded : decodeHeader text = some bodyLength
  deriving DecidableEq

structure ChatMessage where
  header : Header
  body : List Char
  length_body : body.length = header.bodyLength
  deriving DecidableEq

/-- `data()`, of which `length()` characters are written. -/
def ChatMessage.data (msg : ChatMessage) : List Char := msg.header.text ++ msg.body

/-- A line of the input, of which no more is taken than fits. -/
def ChatMessage.ofLine (line : List Char) : ChatMessage where
  header := {
    text := encodeHeader (line.take maxBodyLength).length
    bodyLength := (line.take maxBodyLength).length
    length_text := length_encodeHeader (List.length_take_le _ _)
    decoded := decode_encodeHeader (List.length_take_le _ _) }
  body := line.take maxBodyLength
  length_body := rfl

/-- The header shows where a message ends. -/
theorem prefixCode_data : PrefixCode ChatMessage.data where
  nonempty msg := by
    intro hnil
    have hlength := msg.header.length_text
    rw [(List.append_eq_nil_iff.mp hnil).1] at hlength
    exact absurd hlength (by decide)
  unique {msg msg' u v} h := by
    obtain ⟨⟨text, n, htext, hn⟩, body, hbody⟩ := msg
    obtain ⟨⟨text', n', htext', hn'⟩, body', hbody'⟩ := msg'
    simp only [ChatMessage.data, List.append_assoc] at h
    obtain ⟨rfl, hbodies⟩ := List.append_inj h (htext.trans htext'.symm)
    obtain rfl : n = n' := Option.some_inj.mp (hn.symm.trans hn')
    dsimp only at hbody hbody'
    obtain ⟨rfl, -⟩ := List.append_inj hbodies (hbody.trans hbody'.symm)
    rfl

/-! ### Reading -/

/-- What is being read. -/
inductive Reading
  | header
  | body (msgHeader : Header)
  | stopped
  deriving DecidableEq

/-- The read operation completes when it has read all that it is to read. -/
def Reading.complete (stream : List Char) :
    Reading → Option (Reading × Option ChatMessage × List Char)
  | .header =>
    if hlength : headerLength ≤ stream.length then
      let text := stream.take headerLength
      let reading := match hdecoded : decodeHeader text with
        | some n => .body ⟨text, n, List.length_take_of_le hlength, hdecoded⟩
        | none => .stopped
      some (reading, none, stream.drop headerLength)
    else none
  | .body msgHeader =>
    if hlength : msgHeader.bodyLength ≤ stream.length then
      let body := stream.take msgHeader.bodyLength
      some (.header, some ⟨msgHeader, body, List.length_take_of_le hlength⟩,
        stream.drop msgHeader.bodyLength)
    else none
  | .stopped => none

/-- What has been read of a message. -/
def Reading.Holds : Reading → List Char → Prop
  | .header, part => part = []
  | .body msgHeader, part => part = msgHeader.text
  | .stopped, _ => True

section Reading

variable {items queue taken : List ChatMessage} {sent : Nat} {part stream rest : List Char}
variable {reading reading' : Reading} {msg : Option ChatMessage}

theorem Reading.complete_carries (h : Carries ChatMessage.data items queue sent taken part stream)
    (hpart : reading.Holds part)
    (hcomplete : reading.complete stream = some (reading', msg, rest)) :
    ∃ part', reading'.Holds part' ∧
      Carries ChatMessage.data items queue sent (taken ++ msg.toList) part' rest := by
  cases reading with
  | header =>
    obtain rfl : part = [] := hpart
    simp only [Reading.complete] at hcomplete
    split at hcomplete
    · cases hcomplete
      rw [← List.take_append_drop headerLength stream] at h
      have hread := h.read
      refine ⟨stream.take headerLength, ?_, by simpa using hread⟩
      split
      · rfl
      · trivial
    · cases hcomplete
  | body msgHeader =>
    obtain rfl : part = msgHeader.text := hpart
    simp only [Reading.complete] at hcomplete
    split at hcomplete
    · cases hcomplete
      rw [← List.take_append_drop msgHeader.bodyLength stream] at h
      exact ⟨[], rfl, h.read.take rfl⟩
    · cases hcomplete
  | stopped => cases hcomplete

/-- After a message its successor is read. -/
theorem Reading.complete_some {msg : ChatMessage}
    (hcomplete : reading.complete stream = some (reading', some msg, rest)) :
    reading' = .header := by
  cases reading with
  | header =>
    simp only [Reading.complete] at hcomplete
    split at hcomplete <;> cases hcomplete
  | body msgHeader =>
    simp only [Reading.complete] at hcomplete
    split at hcomplete
    · cases hcomplete
      rfl
    · cases hcomplete
  | stopped => cases hcomplete

/-- The body is still to be read. -/
def Reading.load : Reading → Nat
  | .body _ => 1
  | _ => 0

theorem Reading.complete_load (hcomplete : reading.complete stream = some (reading', msg, rest)) :
    reading'.load + rest.length < reading.load + stream.length := by
  cases reading with
  | header =>
    simp only [Reading.complete] at hcomplete
    split at hcomplete
    · rename_i hlength
      cases hcomplete
      have hle : ∀ r : Reading, r.load ≤ 1 := fun r => by cases r <;> simp [Reading.load]
      refine lt_of_le_of_lt (Nat.add_le_add_right (hle _) _) ?_
      simp only [Reading.load, List.length_drop, headerLength] at hlength ⊢
      omega
    · cases hcomplete
  | body msgHeader =>
    simp only [Reading.complete] at hcomplete
    split at hcomplete
    · cases hcomplete
      simp only [Reading.load, List.length_drop]
      omega
    · cases hcomplete
  | stopped => cases hcomplete

/-- A read operation that cannot complete, when nothing is queued, has read all there is. -/
theorem Reading.taken_eq (h : Carries ChatMessage.data items [] sent taken part stream)
    (hpart : reading.Holds part) (hne : reading ≠ .stopped)
    (hcomplete : reading.complete stream = none) : taken = items := by
  obtain ⟨more, rfl, hrest⟩ := h.exists_flatMap_eq prefixCode_data
  cases more with
  | nil => rw [List.append_nil]
  | cons msg more =>
    rw [List.flatMap_cons, ChatMessage.data, List.append_assoc] at hrest
    have htext := msg.header.length_text
    cases reading with
    | header =>
      obtain rfl : part = [] := hpart
      rw [List.nil_append] at hrest
      have hlength : headerLength ≤ stream.length := by
        rw [hrest, List.length_append, htext]
        exact Nat.le_add_right _ _
      simp [Reading.complete, hlength] at hcomplete
    | body msgHeader =>
      obtain rfl : part = msgHeader.text := hpart
      obtain ⟨htexts, hstream⟩ := List.append_inj hrest (msgHeader.length_text.trans htext.symm)
      have hdecoded := msgHeader.decoded
      rw [htexts, msg.header.decoded, Option.some_inj] at hdecoded
      have hlength : msgHeader.bodyLength ≤ stream.length := by
        rw [hstream, List.length_append, msg.length_body, hdecoded]
        exact Nat.le_add_right _ _
      simp [Reading.complete, hlength] at hcomplete
    | stopped => exact absurd rfl hne

end Reading

/-! ### Writing -/

/-- The queue, the first message of which is being written: how much of it has been transferred,
and whether writing it has failed. -/
structure Writer where
  writeMsgs : List ChatMessage
  sent : Nat
  failed : Bool
  deriving DecidableEq

namespace Writer

def empty : Writer := ⟨[], 0, false⟩

def doWrite (w : Writer) : Writer := { w with sent := 0 }

/-- `deliver` of a session and `write` of a client. -/
def deliver (w : Writer) (msg : ChatMessage) : Writer :=
  let writeInProgress := !w.writeMsgs.isEmpty
  let w := { w with writeMsgs := w.writeMsgs ++ [msg] }
  if writeInProgress then w else w.doWrite

/-- Some more of the first message is transferred. -/
def transfer (w : Writer) (k : Nat) : Option (Writer × List Char) :=
  match w.writeMsgs with
  | [] => none
  | msg :: _ =>
    if w.failed = false ∧ 0 < k ∧ w.sent + k ≤ msg.data.length then
      some ({ w with sent := w.sent + k }, (msg.data.drop w.sent).take k)
    else none

/-- The write operation completes. -/
def written (w : Writer) : Option Writer :=
  match w.writeMsgs with
  | [] => none
  | msg :: writeMsgs =>
    if w.failed = false ∧ w.sent = msg.data.length then
      let w := { w with writeMsgs := writeMsgs, sent := 0 }
      some (if w.writeMsgs.isEmpty then w else w.doWrite)
    else none

def fail (w : Writer) : Option Writer :=
  if w.writeMsgs ≠ [] ∧ w.failed = false then some { w with failed := true } else none

end Writer

section Writing

variable {items taken : List ChatMessage} {part stream : List Char} {w w' : Writer} {k : Nat}

theorem Writer.deliver_carries (msg : ChatMessage)
    (h : Carries ChatMessage.data items w.writeMsgs w.sent taken part stream) :
    Carries ChatMessage.data (items ++ [msg]) (w.deliver msg).writeMsgs (w.deliver msg).sent
      taken part stream := by
  have hpush := h.push msg
  simp only [Writer.deliver]
  split
  · exact hpush
  · rename_i hempty
    have hnil : w.writeMsgs = [] := by simpa using hempty
    have hzero : w.sent = 0 := (hnil ▸ h).sent_eq_zero
    rw [hzero] at hpush
    exact hpush

theorem Writer.deliverAll_carries (msgs : List ChatMessage)
    (h : Carries ChatMessage.data items w.writeMsgs w.sent taken part stream) :
    Carries ChatMessage.data (items ++ msgs) (msgs.foldl Writer.deliver w).writeMsgs
      (msgs.foldl Writer.deliver w).sent taken part stream := by
  induction msgs generalizing items w with
  | nil => simpa using h
  | cons msg msgs ih => simpa using ih (Writer.deliver_carries msg h)

theorem Writer.transfer_carries {bytes : List Char}
    (h : Carries ChatMessage.data items w.writeMsgs w.sent taken part stream)
    (htransfer : w.transfer k = some (w', bytes)) :
    Carries ChatMessage.data items w'.writeMsgs w'.sent taken part (stream ++ bytes) := by
  unfold Writer.transfer at htransfer
  split at htransfer
  · cases htransfer
  · rename_i msg writeMsgs hqueue
    split at htransfer
    · rename_i hk
      cases htransfer
      have hfront : front ChatMessage.data w.writeMsgs = msg.data := by rw [hqueue]; rfl
      have hsend := h.send (hfront ▸ hk.2.2)
      rwa [hfront] at hsend
    · cases htransfer

theorem Writer.written_carries
    (h : Carries ChatMessage.data items w.writeMsgs w.sent taken part stream)
    (hwritten : w.written = some w') :
    Carries ChatMessage.data items w'.writeMsgs w'.sent taken part stream := by
  unfold Writer.written at hwritten
  split at hwritten
  · cases hwritten
  · rename_i msg writeMsgs hqueue
    split at hwritten
    · rename_i hsent
      rw [hqueue] at h
      have hfinish := h.finish hsent.2.ge
      cases hwritten
      split <;> exact hfinish
    · cases hwritten

@[simp] theorem Writer.deliver_failed (w : Writer) (msg : ChatMessage) :
    (w.deliver msg).failed = w.failed := by
  simp only [Writer.deliver]
  split <;> rfl

theorem Writer.deliverAll_failed (w : Writer) (msgs : List ChatMessage) :
    (msgs.foldl Writer.deliver w).failed = w.failed := by
  induction msgs generalizing w with
  | nil => rfl
  | cons msg msgs ih => rw [List.foldl_cons, ih, Writer.deliver_failed]

theorem Writer.transfer_failed {bytes : List Char} (htransfer : w.transfer k = some (w', bytes)) :
    w'.failed = w.failed := by
  unfold Writer.transfer at htransfer
  split at htransfer
  · cases htransfer
  · split at htransfer
    · cases htransfer
      rfl
    · cases htransfer

theorem Writer.written_failed (hwritten : w.written = some w') : w'.failed = w.failed := by
  unfold Writer.written at hwritten
  split at hwritten
  · cases hwritten
  · split at hwritten
    · cases hwritten
      split <;> rfl
    · cases hwritten

/-- What is still to be done for the messages in the queue. -/
def Writer.load (w : Writer) : Nat :=
  2 * ((w.writeMsgs.map fun msg => msg.data.length).sum - w.sent) + w.writeMsgs.length

theorem Writer.transfer_load {bytes : List Char} (htransfer : w.transfer k = some (w', bytes)) :
    w'.load + bytes.length < w.load := by
  unfold Writer.transfer at htransfer
  split at htransfer
  · cases htransfer
  · rename_i msg writeMsgs hqueue
    split at htransfer
    · rename_i hk
      cases htransfer
      obtain ⟨-, hpos, hle⟩ := hk
      simp only [Writer.load, hqueue, List.map_cons, List.sum_cons, List.length_take,
        List.length_drop]
      omega
    · cases htransfer

theorem Writer.written_load (hwritten : w.written = some w') : w'.load < w.load := by
  unfold Writer.written at hwritten
  split at hwritten
  · cases hwritten
  · rename_i msg writeMsgs hqueue
    split at hwritten
    · rename_i hsent
      have hw' : w'.writeMsgs = writeMsgs ∧ w'.sent = 0 := by
        cases hwritten
        split <;> exact ⟨rfl, rfl⟩
      simp only [Writer.load, hqueue, hw', List.map_cons, List.sum_cons, List.length_cons]
      omega
    · cases hwritten

/-- A write operation that can neither go on nor complete is one that has failed. -/
theorem Writer.writeMsgs_eq_nil
    (h : Carries ChatMessage.data items w.writeMsgs w.sent taken part stream)
    (hfailed : w.failed = false) (htransfer : ∀ k, w.transfer k = none)
    (hwritten : w.written = none) : w.writeMsgs = [] := by
  cases hqueue : w.writeMsgs with
  | nil => rfl
  | cons msg writeMsgs =>
    have hle : w.sent ≤ msg.data.length := (hqueue ▸ h).sent_le
    by_cases heq : w.sent = msg.data.length
    · simp [Writer.written, hqueue, hfailed, heq] at hwritten
    · have hone := htransfer 1
      simp only [Writer.transfer, hqueue, hfailed] at hone
      rw [if_pos ⟨trivial, Nat.one_pos, by omega⟩] at hone
      cases hone

end Writing

end Asio.Chat
