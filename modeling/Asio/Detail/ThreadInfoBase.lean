import Mathlib.Logic.Function.Basic
import Asio.Lib.Transition

/-! The memory of handlers that are done, which threads keep for the handlers to come. -/

namespace Asio.Detail.ThreadInfoBase

open Lib Transition

/-! ### Sizes -/

/-- A power of two among the values of `std::size_t`. -/
structure Align where
  exponent : Fin 64

def Align.val (a : Align) : Nat := 2 ^ a.exponent.val

inductive Purpose
  | default
  | awaitableFrame
  | executorFunction
  | cancellationSignal
  | parallelGroup

/-- What `aligned_new` is built on. -/
inductive Backend
  | alignedAlloc
  | operatorNew (guaranteed : Align)

structure Config where
  hasIoUring : Bool
  cacheSize : Nat
  defaultAlign : Align
  backend : Backend

namespace Config

variable (cfg : Config)

def chunkSize : Nat := if cfg.hasIoUring then 8 else 4

def ucharMax : Nat := 255

def beginMemIndex : Purpose → Nat
  | .default => 0
  | .awaitableFrame => cfg.cacheSize
  | .executorFunction => cfg.cacheSize + cfg.cacheSize
  | .cancellationSignal => cfg.cacheSize + cfg.cacheSize + cfg.cacheSize
  | .parallelGroup => cfg.cacheSize + cfg.cacheSize + cfg.cacheSize + cfg.cacheSize

def endMemIndex (purpose : Purpose) : Nat := cfg.beginMemIndex purpose + cfg.cacheSize

def maxMemIndex : Nat := cfg.endMemIndex .parallelGroup

def memIndices (purpose : Purpose) : List Nat :=
  List.range' (cfg.beginMemIndex purpose) cfg.cacheSize

def chunks (size : Nat) : Nat := (size + cfg.chunkSize - 1) % 2 ^ 64 / cfg.chunkSize

def tag (chunks : Nat) : UInt8 := if chunks ≤ ucharMax then UInt8.ofNat chunks else 0

/-- The alignment that the system is asked for. -/
def systemAlign (align : Align) : Align :=
  match cfg.backend with
  | .alignedAlloc => if align.val < cfg.defaultAlign.val then cfg.defaultAlign else align
  | .operatorNew guaranteed => guaranteed

/-- The size that the system is asked for. -/
def systemSize (align : Align) (size : Nat) : Nat :=
  match cfg.backend with
  | .alignedAlloc =>
    let align := (cfg.systemAlign align).val
    if size % align = 0 then size else (size + (align - size % align)) % 2 ^ 64
  | .operatorNew _ => size

end Config

/-! ### Memory -/

/-- A block that `aligned_new` was asked for, and the memory that there is. -/
structure Block where
  asked : Nat
  bytes : Nat
  mem : Nat → UInt8

def Block.chunks (cfg : Config) (b : Block) : Nat := b.asked / cfg.chunkSize

/-- What the caller of `allocate` asked for. -/
structure Loan where
  size : Nat
  align : Align

/-- The blocks by their addresses, those that the threads keep, and those that callers have. -/
structure State where
  heap : Nat → Option Block
  reusableMemory : Nat → Nat → Option Nat
  lent : Nat → Option Loan

namespace State

def init : State := ⟨fun _ => none, fun _ _ => none, fun _ => none⟩

variable (s : State)

def byte (pointer index : Nat) : UInt8 := (s.heap pointer).elim 0 (·.mem index)

def store (pointer index : Nat) (byte : UInt8) : State :=
  { s with
    heap := Function.update s.heap pointer
      ((s.heap pointer).map fun b => { b with mem := Function.update b.mem index byte }) }

def create (pointer : Nat) (b : Block) : State :=
  { s with heap := Function.update s.heap pointer (some b) }

/-- `aligned_delete` -/
def free (pointer : Nat) : State := { s with heap := Function.update s.heap pointer none }

def setSlot (thread memIndex : Nat) (pointer : Option Nat) : State :=
  { s with
    reusableMemory := Function.update s.reusableMemory thread
      (Function.update (s.reusableMemory thread) memIndex pointer) }

def lend (pointer : Nat) (loan : Loan) : State :=
  { s with lent := Function.update s.lent pointer (some loan) }

def giveBack (pointer : Nat) : State := { s with lent := Function.update s.lent pointer none }

end State

/-! ### The operations -/

/-- What the system answers: where the block is, and what was left there. -/
structure Answer where
  address : Nat
  contents : Nat → UInt8

section Operations

variable (cfg : Config) (s : State)

/-- The block that the first loop of `allocate` comes to. -/
def reusable (thread : Nat) (purpose : Purpose) (size : Nat) (align : Align) :
    Option (Nat × Nat) :=
  (cfg.memIndices purpose).findSome? fun memIndex =>
    (s.reusableMemory thread memIndex).bind fun pointer =>
      if cfg.chunks size ≤ (s.byte pointer 0).toNat ∧ pointer % align.val = 0 then
        some (memIndex, pointer)
      else
        none

def discard (thread memIndex : Nat) : State :=
  match s.reusableMemory thread memIndex with
  | some pointer => (s.setSlot thread memIndex none).free pointer
  | none => s

/-- The second loop of `allocate` -/
def evict (thread : Nat) (purpose : Purpose) : State :=
  match (cfg.memIndices purpose).find? fun memIndex =>
      (s.reusableMemory thread memIndex).isSome with
  | some memIndex => discard s thread memIndex
  | none => s

/-- `allocate` from `aligned_new` on, which throws if the system has no answer. -/
def allocateNew (size : Nat) (align : Align) : Option Answer → Option State
  | none => some s
  | some answer =>
    if answer.address ≠ 0 ∧ answer.address % (cfg.systemAlign align).val = 0 ∧
        (s.heap answer.address).isNone then
      let asked := (cfg.chunks size * cfg.chunkSize + 1) % 2 ^ 64
      let b : Block := ⟨asked, cfg.systemSize align asked, answer.contents⟩
      some (((s.create answer.address b).store answer.address size
        (Config.tag (cfg.chunks size))).lend answer.address ⟨size, align⟩)
    else
      none

def allocate (purpose : Purpose) (size : Nat) (align : Align) (answer : Option Answer) :
    Option Nat → Option State
  | none => allocateNew cfg s size align answer
  | some thread =>
    match reusable cfg s thread purpose size align with
    | some (memIndex, pointer) =>
      some (((s.setSlot thread memIndex none).store pointer size (s.byte pointer 0)).lend pointer
        ⟨size, align⟩)
    | none => allocateNew cfg (evict cfg s thread purpose) size align answer

def vacant (thread : Nat) (purpose : Purpose) : Option Nat :=
  (cfg.memIndices purpose).find? fun memIndex => (s.reusableMemory thread memIndex).isNone

def deallocate (purpose : Purpose) (pointer size : Nat) (thisThread : Option Nat) : State :=
  let slot :=
    if size ≤ cfg.chunkSize * Config.ucharMax then
      thisThread.bind fun thread =>
        (vacant cfg s thread purpose).map fun memIndex => (thread, memIndex)
    else
      none
  match slot with
  | some (thread, memIndex) =>
    (((s.giveBack pointer).store pointer 0 (s.byte pointer size)).setSlot thread memIndex
      (some pointer))
  | none => (s.giveBack pointer).free pointer

/-- `~thread_info_base`; the next thread of this number starts without a block. -/
def exit (thread : Nat) : State :=
  (List.range cfg.maxMemIndex).foldl (fun s memIndex => discard s thread memIndex) s

inductive Action
  | allocate (thisThread : Option Nat) (purpose : Purpose) (size : Nat) (align : Align)
      (answer : Option Answer)
  | deallocate (thisThread : Option Nat) (purpose : Purpose) (pointer size : Nat)
  | write (pointer index : Nat) (byte : UInt8)
  | exit (thread : Nat)

/-- A caller gives back what it has, as it asked for it, and writes to what it asked for. -/
def step : Action → Option State
  | .allocate thisThread purpose size align answer =>
    allocate cfg s purpose size align answer thisThread
  | .deallocate thisThread purpose pointer size =>
    if (s.lent pointer).any fun loan => loan.size = size then
      some (deallocate cfg s purpose pointer size thisThread)
    else
      none
  | .write pointer index byte =>
    if (s.lent pointer).any fun loan => index < loan.size then
      some (s.store pointer index byte)
    else
      none
  | .exit thread => some (exit cfg s thread)

end Operations

end Asio.Detail.ThreadInfoBase
