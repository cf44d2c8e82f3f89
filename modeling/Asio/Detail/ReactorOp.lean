import Mathlib.Data.List.Basic

/-! Operations that a reactor performs when their descriptor is ready. -/

namespace Asio.Detail

/-- A connect operation is a write operation. -/
inductive OpType
  | read | write | except
  deriving DecidableEq

structure ReactorOp where
  id : Nat
  ec : Nat
  cancellationKey : Nat
  bytesTransferred : Nat
  deriving DecidableEq

namespace ReactorOp

inductive Status
  | notDone | done | doneAndExhausted
  deriving DecidableEq

/-- What a call of `perform_func_` comes to. -/
structure Outcome where
  status : Status
  ec : Nat
  bytesTransferred : Nat
  deriving DecidableEq

def perform (op : ReactorOp) (o : Outcome) : ReactorOp × Status :=
  ({ op with ec := o.ec, bytesTransferred := o.bytesTransferred }, o.status)

def complete (ec : Nat) (op : ReactorOp) : ReactorOp := { op with ec := ec }

@[simp] theorem complete_id (ec : Nat) (op : ReactorOp) : (op.complete ec).id = op.id := rfl

@[simp] theorem perform_id (op : ReactorOp) (o : Outcome) : (op.perform o).1.id = op.id := rfl

end ReactorOp

end Asio.Detail
