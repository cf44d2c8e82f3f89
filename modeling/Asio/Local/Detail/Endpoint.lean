import Mathlib.Algebra.Group.Nat.Defs
import Mathlib.Data.List.Basic

/-! The address of a socket of the local domain. -/

namespace Asio.Local.Detail

/-- Where `sun_path` is in the address, and how long it is. -/
def offset : Nat := 2
def sunPathSize : Nat := 108

def modulus : Nat := 2 ^ 64

inductive Error
  | invalidArgument
  | nameTooLong
  /-- A read outside of `sun_path`. -/
  | undefined
  deriving DecidableEq

structure Endpoint where
  sunPath : List UInt8
  pathLength : Nat
  length_sunPath : sunPath.length = sunPathSize
  deriving DecidableEq

namespace Endpoint

def size (e : Endpoint) : Nat := (e.pathLength + offset) % modulus

def capacity : Nat := offset + sunPathSize

def path (e : Endpoint) : List UInt8 := e.sunPath.take e.pathLength

theorem length_padded {pathName : List UInt8} (h : ¬ pathName.length > sunPathSize - 1) :
    (pathName ++ List.replicate (sunPathSize - pathName.length) 0).length = sunPathSize := by
  have hpos : 0 < sunPathSize := by decide
  rw [List.length_append, List.length_replicate]
  omega

def init (pathName : List UInt8) : Except Error Endpoint :=
  if h : pathName.length > sunPathSize - 1 then .error .nameTooLong
  else
    .ok ⟨pathName ++ List.replicate (sunPathSize - pathName.length) 0, pathName.length,
      length_padded h⟩

def resize (e : Endpoint) (newSize : Nat) : Except Error Endpoint :=
  if newSize > capacity then .error .invalidArgument
  else if newSize = 0 then .ok { e with pathLength := 0 }
  else
    let pathLength := (newSize + (modulus - offset)) % modulus
    -- the system may have put a null character at the end
    if pathLength > 0 then
      match e.sunPath[pathLength - 1]? with
      | none => .error .undefined
      | some c => .ok { e with pathLength := if c = 0 then pathLength - 1 else pathLength }
    else
      .ok { e with pathLength := pathLength }

section

variable {e : Endpoint} {pathName : List UInt8} {newSize n : Nat}

theorem path_init (h : init pathName = .ok e) :
    e.path = pathName ∧ e.pathLength = pathName.length ∧ pathName.length < sunPathSize := by
  unfold init at h
  split at h
  · cases h
  · rename_i hlength
    cases h
    refine ⟨List.take_left, rfl, ?_⟩
    have hpos : 0 < sunPathSize := by decide
    omega

/-- What `resize` makes of a size from the start of `sun_path` on. -/
theorem resize_add (h : n ≤ sunPathSize) :
    e.resize (offset + n) = .ok { e with
      pathLength := if (e.sunPath.take n).getLast? = some 0 then n - 1 else n } := by
  have hle : ¬ offset + n > capacity := by
    unfold capacity
    omega
  have hne : offset + n ≠ 0 := by simp [offset]
  have hlength : (offset + n + (modulus - offset)) % modulus = n := by
    simp only [sunPathSize] at h
    simp only [offset, modulus]
    omega
  unfold resize
  rw [if_neg hle, if_neg hne]
  simp only [hlength]
  cases n with
  | zero => simp
  | succ n =>
    have hlt : n < e.sunPath.length := e.length_sunPath.symm ▸ h
    rw [if_pos (Nat.succ_pos n), Nat.add_sub_cancel, List.getElem?_eq_getElem hlt,
      List.take_succ_eq_append_getElem hlt, List.getLast?_concat]
    simp only [Option.some.injEq]

/-- A name stays the same, but for a null character at its end, and a size that leaves room for
the start of the address gives a path that there is room for. -/
theorem resize_keeps :
    (∀ pathName e, init pathName = .ok e → ∃ e', e.resize e.size = .ok e' ∧
      e'.path = if pathName.getLast? = some 0 then pathName.dropLast else pathName) ∧
    ∀ (e : Endpoint) newSize, newSize ≤ capacity → newSize = 0 ∨ offset ≤ newSize →
      ∃ e', e.resize newSize = .ok e' ∧ e'.pathLength ≤ sunPathSize := by
  constructor
  · intro pathName e h
    obtain ⟨hpath, hlength, hlt⟩ := path_init h
    have hsize : e.size = offset + pathName.length := by
      simp only [sunPathSize] at hlt
      simp only [size, hlength, offset, modulus]
      omega
    rw [hsize, resize_add (Nat.le_of_lt hlt)]
    refine ⟨_, rfl, ?_⟩
    rw [path, hlength] at hpath
    simp only [path, hpath]
    split
    · rw [List.dropLast_eq_take, ← hpath, List.take_take, hpath,
        Nat.min_eq_left (Nat.sub_le _ 1)]
    · exact hpath
  · rintro e newSize hle (rfl | hoffset)
    · exact ⟨_, rfl, Nat.zero_le _⟩
    · obtain ⟨n, rfl⟩ := Nat.exists_eq_add_of_le hoffset
      have hn : n ≤ sunPathSize := Nat.le_of_add_le_add_left hle
      rw [resize_add hn]
      refine ⟨_, rfl, ?_⟩
      dsimp only
      split
      · omega
      · exact hn

/-- An abstract name. -/
theorem resize_keeps_abstract : ∃ e', (Endpoint.mk (0 :: 97 :: List.replicate 106 0) 2 rfl).resize 4
    = .ok e' ∧ e'.path = [0, 97] :=
  resize_keeps.1 [0, 97] _ rfl

/-- An abstract name with a null character at its end. -/
theorem not_resize_keeps : ¬ ∀ pathName e, init pathName = .ok e →
    ∃ e', e.resize e.size = .ok e' ∧ e'.path = e.path := by
  intro hclaim
  obtain ⟨e', hresize, hpath⟩ := hclaim [0, 97, 0] ⟨0 :: 97 :: List.replicate 106 0, 3, rfl⟩ rfl
  cases hresize
  revert hpath
  decide

end

end Endpoint

end Asio.Local.Detail
