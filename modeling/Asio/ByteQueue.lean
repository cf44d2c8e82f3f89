import Mathlib.Data.List.Forall2

/-! What a stream buffer is for: a bounded queue of characters with a region in which the next ones
are written. -/

universe u

namespace Asio

/-- A character that nobody has written is `none`. -/
structure ByteQueue (α : Type u) where
  contents : List (Option α)
  region : List (Option α)

namespace ByteQueue

variable {α : Type u}

inductive Action (α : Type u)
  | prepare (n : Nat)
  | write (i : Nat) (c : α)
  | commit (n : Nat)
  | consume (n : Nat)
  | sputc (c : α)
  | overflow (c : Option α)
  | sgetc
  | underflow
  | sbumpc

inductive Result (α : Type u)
  | done
  | buffer (size : Nat)
  | char (c : Option α)
  deriving DecidableEq

def empty : ByteQueue α := ⟨[], []⟩

def Allows (a : Option α) (b : α) : Prop := ∀ c, a = some c → b = c

/-- `l` has every character of `pattern` in its place. -/
def Agrees (pattern : List (Option α)) (l : List α) : Prop := List.Forall₂ Allows pattern l

/-- The next character, and `eof` when there is none. -/
inductive Next : List (Option α) → Option α → Prop
  | eof : Next [] none
  | char : Allows a c → Next (a :: l) (some c)

inductive Step (maxSize : Nat) : ByteQueue α → Action α → Result α → ByteQueue α → Prop
  | prepare {q : ByteQueue α} : q.contents.length + n ≤ maxSize →
      Step maxSize q (.prepare n) (.buffer n) { q with region := List.replicate n none }
  | write {q : ByteQueue α} : i < q.region.length →
      Step maxSize q (.write i c) .done { q with region := q.region.set i (some c) }
  | commit {q : ByteQueue α} : k ≤ n → min n q.region.length ≤ k →
      q.contents.length + k ≤ maxSize →
      Step maxSize q (.commit n) .done
        ⟨q.contents ++ q.region.take k ++ List.replicate (k - q.region.length) none, []⟩
  | consume {q : ByteQueue α} :
      Step maxSize q (.consume n) .done { q with contents := q.contents.drop n }
  | sputc {q : ByteQueue α} : q.contents.length + 1 ≤ maxSize →
      Step maxSize q (.sputc c) (.char (some c)) ⟨q.contents ++ [some c], []⟩
  | overflow {q : ByteQueue α} : q.contents.length + 1 ≤ maxSize →
      Step maxSize q (.overflow (some c)) (.char (some c)) ⟨q.contents ++ [some c], []⟩
  | overflowEof {q : ByteQueue α} : Step maxSize q (.overflow none) (.char (some c)) q
  | sgetc {q : ByteQueue α} : Next q.contents r → Step maxSize q .sgetc (.char r) q
  | underflow {q : ByteQueue α} : Next q.contents r → Step maxSize q .underflow (.char r) q
  | sbumpc {q : ByteQueue α} : Next q.contents r →
      Step maxSize q .sbumpc (.char r) { q with contents := q.contents.tail }

end ByteQueue

end Asio
