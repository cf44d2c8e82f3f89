import Asio.Experimental.ParallelGroupSignals

/-! The operators `&&` and `||` of awaitables, which wait for a group of two. -/

universe u

namespace Asio.Experimental.AwaitableOperators

open Lib Transition ParallelGroup

/-! ### Results -/

def Tuple : List (Type u) → Type u
  | [] => PUnit
  | τ :: τs => τ × Tuple τs

def Variant : List (Type u) → Type u
  | [] => PEmpty
  | τ :: τs => τ ⊕ Variant τs

/-- What an awaitable returns. -/
inductive Ty : Type (u + 1)
  | void
  | value (τ : Type u)
  | tuple (τs : List (Type u))
  | variant (τs : List (Type u))

/-- A value of each type; that of none is the one of `std::monostate`. -/
def Ty.Val : Ty → Type u
  | .void => PUnit
  | .value τ => τ
  | .tuple τs => Tuple τs
  | .variant τs => Variant τs

/-- A value with its type. -/
abbrev Any : Type (u + 1) := (τ : Type u) × τ

variable {τs : List (Type u)} {τ σ ρ : Type u}

/-- `std::tuple_cat` with one more value. -/
def Tuple.concat : {τs : List (Type u)} → Tuple τs → σ → Tuple (τs ++ [σ])
  | [], _, y => (y, ⟨⟩)
  | _ :: _, (x, xs), y => (x, Tuple.concat xs y)

def Tuple.elems : {τs : List (Type u)} → Tuple τs → List Any
  | [], _ => []
  | τ :: _, (x, xs) => ⟨τ, x⟩ :: Tuple.elems xs

/-- `widen_variant`, which goes through the alternatives to the one that the variant has. -/
def Variant.widen : {τs : List (Type u)} → Variant τs → Variant (τs ++ [σ])
  | _ :: _, .inl x => .inl x
  | _ :: _, .inr w => .inr (Variant.widen w)

/-- The variant of the last alternative. -/
def Variant.last : (τs : List (Type u)) → σ → Variant (τs ++ [σ])
  | [], y => .inl y
  | _ :: τs, y => .inr (Variant.last τs y)

def Variant.index : {τs : List (Type u)} → Variant τs → Nat
  | _ :: _, .inl _ => 0
  | _ :: _, .inr w => Variant.index w + 1

def Variant.held : {τs : List (Type u)} → Variant τs → Any
  | τ :: _, .inl x => ⟨τ, x⟩
  | _ :: _, .inr w => Variant.held w

theorem Tuple.elems_concat {xs : Tuple τs} {y : σ} :
    (xs.concat y).elems = xs.elems ++ [⟨σ, y⟩] := by
  induction τs with
  | nil => rfl
  | cons τ τs ih =>
    obtain ⟨x, xs⟩ := xs
    exact congrArg (⟨τ, x⟩ :: ·) ih

theorem Variant.index_widen {w : Variant τs} : (w.widen (σ := σ)).index = w.index := by
  induction τs with
  | nil => exact w.elim
  | cons τ τs ih =>
    cases w with
    | inl x => rfl
    | inr w => exact congrArg (· + 1) ih

theorem Variant.held_widen {w : Variant τs} : (w.widen (σ := σ)).held = w.held := by
  induction τs with
  | nil => exact w.elim
  | cons τ τs ih =>
    cases w with
    | inl x => rfl
    | inr w => exact ih (w := w)

theorem Variant.index_last {y : σ} : (Variant.last τs y).index = τs.length := by
  induction τs with
  | nil => rfl
  | cons τ τs ih => exact congrArg (· + 1) ih

theorem Variant.held_last {y : σ} : (Variant.last τs y).held = ⟨σ, y⟩ := by
  induction τs with
  | nil => rfl
  | cons τ τs ih => exact ih

/-! ### The operators -/

/-- An exception, or that there are several, with the first one. -/
inductive ExceptionPtr (ε : Type u)
  | exception (e : ε)
  | multipleExceptions (first : ExceptionPtr ε)
  deriving DecidableEq

variable {ε : Type u}

abbrev Result (ε τ : Type u) := Except (ExceptionPtr ε) τ

def Result.ex (r : Result ε τ) : Option (ExceptionPtr ε) :=
  match r with
  | .error e => some e
  | .ok _ => none

def waitForOneError (r : Result ε τ) (cancelType : CancellationType) : CancellationType :=
  if r.ex.isSome then cancelType else .none

def waitForOneSuccess (r : Result ε τ) (cancelType : CancellationType) : CancellationType :=
  if r.ex.isSome then .none else cancelType

/-- What the overloads of `&&` do with the results of both operations. -/
def both (r0 : Result ε τ) (r1 : Result ε σ) (coReturn : τ → σ → ρ) : Result ε ρ :=
  match r0, r1 with
  | .error ex0, .error _ => .error (.multipleExceptions ex0)
  | .error ex0, .ok _ => .error ex0
  | .ok _, .error ex1 => .error ex1
  | .ok r0, .ok r1 => .ok (coReturn r0 r1)

/-- The branches of the overloads of `||`, for the operation that completed first and the other. -/
def firstOf (r : Result ε τ) (r' : Result ε σ) (coReturn : τ → ρ) (coReturn' : σ → ρ) :
    Result ε ρ :=
  match r, r' with
  | .ok r, _ => .ok (coReturn r)
  | .error _, .ok r' => .ok (coReturn' r')
  | .error ex, .error _ => .error (.multipleExceptions ex)

/-- What the overloads of `||` do. -/
def either (order : List Nat) (r0 : Result ε τ) (r1 : Result ε σ) (coReturn0 : τ → ρ)
    (coReturn1 : σ → ρ) : Result ε ρ :=
  if order[0]? = some 0 then
    firstOf r0 r1 coReturn0 coReturn1
  else
    firstOf r1 r0 coReturn1 coReturn0

/-- What an awaitable has come to. -/
structure Outcome (ε : Type u) where
  ty : Ty.{u}
  result : Result ε ty.Val

/-- The overloads of `&&`. The one of a tuple and an operand that returns nothing is declared to
return one more `std::monostate` than the tuple that it returns, and does not compile. -/
def operatorAnd (t u : Outcome ε) : Option (Outcome ε) :=
  match t, u with
  | ⟨.void, r0⟩, ⟨.void, r1⟩ => some ⟨.void, both r0 r1 fun _ _ => ⟨⟩⟩
  | ⟨.void, r0⟩, ⟨ty, r1⟩ => some ⟨ty, both r0 r1 fun _ r1 => r1⟩
  | ⟨.tuple _, _⟩, ⟨.void, _⟩ => none
  | ⟨.tuple τs, r0⟩, ⟨ty, r1⟩ => some ⟨.tuple (τs ++ [ty.Val]), both r0 r1 Tuple.concat⟩
  | ⟨ty, r0⟩, ⟨.void, r1⟩ => some ⟨ty, both r0 r1 fun r0 _ => r0⟩
  | ⟨ty, r0⟩, ⟨ty', r1⟩ => some ⟨.tuple [ty.Val, ty'.Val], both r0 r1 fun r0 r1 => (r0, r1, ⟨⟩)⟩

/-- The overloads of `||`, which differ in whether the first operand is a variant already. -/
def operatorOr (order : List Nat) (t u : Outcome ε) : Outcome ε :=
  match t, u with
  | ⟨.variant τs, r0⟩, ⟨ty, r1⟩ =>
    ⟨.variant (τs ++ [ty.Val]), either order r0 r1 Variant.widen (Variant.last τs)⟩
  | ⟨ty, r0⟩, ⟨ty', r1⟩ =>
    ⟨.variant [ty.Val, ty'.Val], either order r0 r1 .inl fun r1 => .inr (.inl r1)⟩

/-! ### What the operators return -/

namespace Ty

/-- The values that an operand contributes to a tuple. -/
def parts : (ty : Ty.{u}) → ty.Val → List Any
  | .void, _ => []
  | .tuple _, xs => xs.elems
  | ty, x => [⟨ty.Val, x⟩]

/-- The alternatives that an operand contributes to a variant. -/
def alternatives : Ty.{u} → List (Type u)
  | .variant τs => τs
  | ty => [ty.Val]

def chosen : (ty : Ty.{u}) → ty.Val → Nat × Any
  | .variant _, w => (w.index, w.held)
  | ty, x => (0, ⟨ty.Val, x⟩)

end Ty

/-- An operand that returns nothing is left out, and a tuple is taken apart. -/
structure ReturnsBoth (x y z : (ty : Ty.{u}) × ty.Val) : Prop where
  left_void : x.1 = .void → z = y
  right_void : y.1 = .void → x.1 ≠ .void → z = x
  tuple : x.1 ≠ .void → y.1 ≠ .void → ∃ τs, ∃ xs : Tuple τs,
    z = ⟨.tuple τs, xs⟩ ∧ xs.elems = x.1.parts x.2 ++ [⟨y.1.Val, y.2⟩]

section Overloads

variable {t u r : Outcome ε} {order : List Nat}

theorem operatorAnd_eq_none_iff :
    operatorAnd t u = none ↔ (∃ τs, t.ty = .tuple τs) ∧ u.ty = .void := by
  obtain ⟨ty, r0⟩ := t
  obtain ⟨ty', r1⟩ := u
  cases ty <;> cases ty' <;> simp [operatorAnd]

theorem operatorAnd_eq_some (h : operatorAnd t u = some r) :
    ∃ coReturn : t.ty.Val → u.ty.Val → r.ty.Val, r.result = both t.result u.result coReturn ∧
      ∀ x y, ReturnsBoth ⟨t.ty, x⟩ ⟨u.ty, y⟩ ⟨r.ty, coReturn x y⟩ := by
  obtain ⟨ty, r0⟩ := t
  obtain ⟨ty', r1⟩ := u
  cases ty with
  | void =>
    obtain rfl : r = ⟨ty', both r0 r1 fun _ r1 => r1⟩ := by
      cases ty' <;> exact (Option.some.inj h).symm
    exact ⟨_, rfl, fun x y => ⟨fun _ => rfl, fun _ hne => absurd rfl hne, fun hne => absurd rfl hne⟩⟩
  | tuple τs =>
    cases ty' with
    | void => cases h
    | _ =>
      cases h
      exact ⟨_, rfl, fun x y => ⟨nofun, nofun, fun _ _ => ⟨_, _, rfl, Tuple.elems_concat⟩⟩⟩
  | _ =>
    cases ty' with
    | void =>
      cases h
      exact ⟨_, rfl, fun x y => ⟨nofun, fun _ _ => rfl, fun _ hne => absurd rfl hne⟩⟩
    | _ =>
      cases h
      exact ⟨_, rfl, fun x y => ⟨nofun, nofun, fun _ _ => ⟨_, _, rfl, rfl⟩⟩⟩

theorem operatorOr_eq (t u : Outcome ε) (order : List Nat) :
    ∃ τs, ∃ coReturn0 : t.ty.Val → Variant τs, ∃ coReturn1 : u.ty.Val → Variant τs,
      operatorOr order t u =
        ⟨.variant τs, either order t.result u.result coReturn0 coReturn1⟩ ∧
      τs = t.ty.alternatives ++ [u.ty.Val] ∧
      (∀ x, ((coReturn0 x).index, (coReturn0 x).held) = t.ty.chosen x) ∧
      ∀ y, ((coReturn1 y).index, (coReturn1 y).held) =
        (t.ty.alternatives.length, ⟨u.ty.Val, y⟩) := by
  obtain ⟨ty, r0⟩ := t
  obtain ⟨ty', r1⟩ := u
  cases ty with
  | variant τs =>
    refine ⟨_, _, _, rfl, rfl, fun x => ?_, fun y => ?_⟩
    · exact Prod.ext Variant.index_widen Variant.held_widen
    · exact Prod.ext Variant.index_last Variant.held_last
  | _ => exact ⟨_, _, _, rfl, rfl, fun _ => rfl, fun _ => rfl⟩

end Overloads

/-! ### The group of both operands -/

abbrev Args (ε : Type u) (operands : Fin 2 → Ty.{u}) (i : Fin 2) : Type u :=
  Result ε (operands i).Val

variable {operands : Fin 2 → Ty.{u}} {s : State 2 (Args ε operands)}
  {d : CompletionHandler 2 (Args ε operands)}

/-- The coroutine goes on with what the handler of the group gets. -/
def resume (op : List Nat → Outcome ε → Outcome ε → Option (Outcome ε))
    (d : CompletionHandler 2 (Args ε operands)) : Option (Outcome ε) :=
  match d.args 0, d.args 1 with
  | some r0, some r1 => op d.completionOrder ⟨operands 0, r0⟩ ⟨operands 1, r1⟩
  | _, _ => none

abbrev opAnd (_ : List Nat) (t u : Outcome ε) : Option (Outcome ε) := operatorAnd t u

abbrev opOr (order : List Nat) (t u : Outcome ε) : Option (Outcome ε) := some (operatorOr order t u)

def resumeAnd (d : CompletionHandler 2 (Args ε operands)) : Option (Outcome ε) :=
  resume opAnd d

def resumeOr (d : CompletionHandler 2 (Args ε operands)) : Option (Outcome ε) :=
  resume opOr d

/-- The exceptions of the operands, in the order in which they completed. -/
def failures (completions : List ((i : Fin 2) × Args ε operands i)) : List (ExceptionPtr ε) :=
  completions.filterMap fun c => c.2.ex

/-- The operand that completed first among those that succeeded. -/
def firstSuccess (completions : List ((i : Fin 2) × Args ε operands i)) :
    Option ((i : Fin 2) × (operands i).Val) :=
  completions.findSome? fun c =>
    match c.2 with
    | .ok x => some ⟨c.1, x⟩
    | .error _ => none

/-- Where an operand's value is in the variant. -/
def alternative (operands : Fin 2 → Ty.{u}) : (i : Fin 2) → (operands i).Val → Nat × Any
  | 0, x => (operands 0).chosen x
  | 1, x => ((operands 0).alternatives.length, ⟨(operands 1).Val, x⟩)

/-- Both values are returned, or an exception is thrown and the one reported came first. -/
def AndMeets (s : State 2 (Args ε operands)) (d : CompletionHandler 2 (Args ε operands)) : Prop :=
  ∃ r, resumeAnd d = some r ∧
    (failures s.completions = [] → ∃ x y z, ⟨0, .ok x⟩ ∈ s.completions ∧
      ⟨1, .ok y⟩ ∈ s.completions ∧ r.result = .ok z ∧
      ReturnsBoth ⟨operands 0, x⟩ ⟨operands 1, y⟩ ⟨r.ty, z⟩) ∧
    ∀ e rest, failures s.completions = e :: rest →
      r.result = .error (if rest.isEmpty then e else .multipleExceptions e)

/-- The value of the operand that succeeded first is returned as its alternative, or an exception is
thrown since both failed. -/
def OrMeets (s : State 2 (Args ε operands)) (d : CompletionHandler 2 (Args ε operands)) : Prop :=
  ∃ r, resumeOr d = some r ∧
    (∀ i x, firstSuccess s.completions = some ⟨i, x⟩ → ∃ τs, ∃ w : Variant τs,
      r = ⟨.variant τs, .ok w⟩ ∧ (w.index, w.held) = alternative operands i x) ∧
    (firstSuccess s.completions = none → ∃ e e', failures s.completions = [e, e'] ∧
      r.result = .error (.multipleExceptions e))

/-- Both operands have failed, the second one first. -/
def SecondFailedFirst (s : State 2 (Args ε operands)) : Prop :=
  ∃ e0 e1, s.completions = [⟨1, .error e1⟩, ⟨0, .error e0⟩] ∧ e0 ≠ e1

/-- The overload does not compile. -/
def TupleAndVoid (operands : Fin 2 → Ty.{u}) : Prop :=
  (∃ τs, operands 0 = .tuple τs) ∧ operands 1 = .void

/-- The group has completed after both operands. -/
theorem completed_both (h : s.DispatchedOnce) (hd : d ∈ s.dispatched) :
    ∃ r0 r1, d.args 0 = some r0 ∧ d.args 1 = some r1 ∧
      (s.completions = [⟨0, r0⟩, ⟨1, r1⟩] ∧ d.completionOrder = [0, 1] ∨
        s.completions = [⟨1, r1⟩, ⟨0, r0⟩] ∧ d.completionOrder = [1, 0]) := by
  have hperm := h.permutation (List.ne_nil_of_mem hd)
  have hlen := hperm.length_eq
  rw [List.length_map, List.length_finRange] at hlen
  obtain ⟨⟨i, r⟩, ⟨j, r'⟩, hcompletions⟩ := List.length_eq_two.mp hlen
  have hnodup := hperm.nodup_iff.mpr (List.nodup_finRange 2)
  have horder := h.order d hd
  have hargs := h.results d hd
  rw [hcompletions] at hnodup horder hargs
  have hfirst := hargs ⟨i, r⟩ List.mem_cons_self
  have hsecond := hargs ⟨j, r'⟩ (List.mem_cons_of_mem _ List.mem_cons_self)
  have hne : i ≠ j := by
    have hnotMem : i ∉ [j] := (List.nodup_cons.mp hnodup).1
    exact fun heq => hnotMem (List.mem_singleton.mpr heq)
  have hcases : i = 0 ∧ j = 1 ∨ i = 1 ∧ j = 0 := by omega
  rcases hcases with ⟨rfl, rfl⟩ | ⟨rfl, rfl⟩
  · exact ⟨r, r', hfirst, hsecond, Or.inl ⟨hcompletions, horder⟩⟩
  · exact ⟨r', r, hsecond, hfirst, Or.inr ⟨hcompletions, horder⟩⟩

theorem andMeets_iff (h : s.DispatchedOnce) (hd : d ∈ s.dispatched) :
    AndMeets s d ↔ ¬ SecondFailedFirst s ∧ ¬ TupleAndVoid operands := by
  obtain ⟨r0, r1, h0, h1, hcompletions⟩ := completed_both h hd
  have hresume : resumeAnd d = operatorAnd ⟨operands 0, r0⟩ ⟨operands 1, r1⟩ := by
    rw [resumeAnd, resume, h0, h1]
  have hnone : operatorAnd ⟨operands 0, r0⟩ ⟨operands 1, r1⟩ = none ↔ TupleAndVoid operands :=
    operatorAnd_eq_none_iff
  rw [AndMeets, hresume]
  cases hop : operatorAnd (⟨operands 0, r0⟩ : Outcome ε) ⟨operands 1, r1⟩ with
  | none =>
    refine iff_of_false ?_ fun hmeets => hmeets.2 (hnone.mp hop)
    rintro ⟨r, hr, -⟩
    cases hr
  | some r =>
    have hcompiles : ¬ TupleAndVoid operands := by
      intro hvoid
      rw [hnone.mpr hvoid] at hop
      cases hop
    obtain ⟨coReturn, hr, hreturns⟩ := operatorAnd_eq_some hop
    have hlate (hlen : (failures s.completions).length < 2) : ¬ SecondFailedFirst s := by
      rintro ⟨e0, e1, hcs, -⟩
      rw [hcs] at hlen
      exact Nat.lt_irrefl 2 hlen
    cases r0 with
    | ok x =>
      cases r1 with
      | ok y =>
        have hfailures : failures s.completions = [] := by
          rcases hcompletions with ⟨hcs, -⟩ | ⟨hcs, -⟩ <;> rw [hcs] <;> rfl
        have hmem : ⟨0, .ok x⟩ ∈ s.completions ∧ ⟨1, .ok y⟩ ∈ s.completions := by
          rcases hcompletions with ⟨hcs, -⟩ | ⟨hcs, -⟩ <;> rw [hcs] <;>
            simp only [List.mem_cons, true_or, or_true, and_self]
        rw [hfailures] at hlate ⊢
        refine iff_of_true ⟨r, rfl, fun _ => ?_, fun _ _ => nofun⟩ ⟨hlate Nat.two_pos, hcompiles⟩
        exact ⟨x, y, coReturn x y, hmem.1, hmem.2, hr, hreturns x y⟩
      | error e1 =>
        have hfailures : failures s.completions = [e1] := by
          rcases hcompletions with ⟨hcs, -⟩ | ⟨hcs, -⟩ <;> rw [hcs] <;> rfl
        rw [hfailures] at hlate ⊢
        refine iff_of_true ⟨r, rfl, nofun, fun e rest hcons => ?_⟩
          ⟨hlate Nat.one_lt_two, hcompiles⟩
        cases hcons
        exact hr
    | error e0 =>
      cases r1 with
      | ok y =>
        have hfailures : failures s.completions = [e0] := by
          rcases hcompletions with ⟨hcs, -⟩ | ⟨hcs, -⟩ <;> rw [hcs] <;> rfl
        rw [hfailures] at hlate ⊢
        refine iff_of_true ⟨r, rfl, nofun, fun e rest hcons => ?_⟩
          ⟨hlate Nat.one_lt_two, hcompiles⟩
        cases hcons
        exact hr
      | error e1 =>
        rcases hcompletions with ⟨hcs, -⟩ | ⟨hcs, -⟩
        · have hfailures : failures s.completions = [e0, e1] := by rw [hcs]; rfl
          rw [hfailures]
          refine iff_of_true ⟨r, rfl, nofun, fun e rest hcons => ?_⟩ ⟨?_, hcompiles⟩
          · cases hcons
            exact hr
          · rintro ⟨e0', e1', hcs', -⟩
            cases hcs.symm.trans hcs'
        · have hfailures : failures s.completions = [e1, e0] := by rw [hcs]; rfl
          rw [hfailures]
          constructor
          · rintro ⟨r', hr', -, hthrown⟩
            obtain rfl := Option.some.inj hr'
            refine ⟨?_, hcompiles⟩
            rintro ⟨e0', e1', hcs', hne⟩
            cases hcs.symm.trans hcs'
            have heq := hr.symm.trans (hthrown e1 [e0] rfl)
            simp only [both, List.isEmpty_cons, Bool.false_eq_true, if_false, Except.error.injEq,
              ExceptionPtr.multipleExceptions.injEq] at heq
            exact hne heq
          · rintro ⟨hordered, -⟩
            have heq : e0 = e1 := by
              by_contra hne
              exact hordered ⟨e0, e1, hcs, hne⟩
            refine ⟨r, rfl, nofun, fun e rest hcons => ?_⟩
            cases hcons
            rw [hr, heq]
            rfl

theorem orMeets (h : s.DispatchedOnce) (hd : d ∈ s.dispatched) : OrMeets s d := by
  obtain ⟨r0, r1, h0, h1, hcompletions⟩ := completed_both h hd
  have hresume : resumeOr d =
      some (operatorOr d.completionOrder ⟨operands 0, r0⟩ ⟨operands 1, r1⟩) := by
    rw [resumeOr, resume, h0, h1]
  obtain ⟨τs, coReturn0, coReturn1, hor, -, hchosen0, hchosen1⟩ :=
    operatorOr_eq _ _ _
  refine ⟨_, hresume.trans (congrArg some hor), ?_⟩
  rcases hcompletions with ⟨hcs, horder⟩ | ⟨hcs, horder⟩
  · rw [hcs, horder]
    cases r0 with
    | ok x =>
      refine ⟨fun i x' hfirst => ?_, nofun⟩
      cases hfirst
      exact ⟨τs, coReturn0 x, rfl, hchosen0 x⟩
    | error e0 =>
      cases r1 with
      | ok y =>
        refine ⟨fun i x' hfirst => ?_, nofun⟩
        cases hfirst
        exact ⟨τs, coReturn1 y, rfl, hchosen1 y⟩
      | error e1 => exact ⟨nofun, fun _ => ⟨e0, e1, rfl, rfl⟩⟩
  · rw [hcs, horder]
    cases r1 with
    | ok y =>
      refine ⟨fun i x' hfirst => ?_, nofun⟩
      cases hfirst
      exact ⟨τs, coReturn1 y, rfl, hchosen1 y⟩
    | error e1 =>
      cases r0 with
      | ok x =>
        refine ⟨fun i x' hfirst => ?_, nofun⟩
        cases hfirst
        exact ⟨τs, coReturn0 x, rfl, hchosen0 x⟩
      | error e0 => exact ⟨nofun, fun _ => ⟨e1, e0, rfl, rfl⟩⟩

/-! ### Chains -/

def Ty.IsOperand : Ty.{u} → Prop
  | .void | .value _ => True
  | _ => False

def pair (t u : Ty.{u}) : Fin 2 → Ty.{u}
  | 0 => t
  | 1 => u

/-- A group of two operands has completed, and the operator with it. -/
def Runs (op : List Nat → Outcome ε → Outcome ε → Option (Outcome ε)) (t u r : Outcome ε) : Prop :=
  ∃ s : State 2 (Args ε (pair t.ty u.ty)), s.DispatchedOnce ∧ ∃ d ∈ s.dispatched,
    d.args 0 = some t.result ∧ d.args 1 = some u.result ∧ resume op d = some r

/-- A chain from left to right, of two operands or more. -/
inductive Chain (op : List Nat → Outcome ε → Outcome ε → Option (Outcome ε)) :
    List (Outcome ε) → Outcome ε → Prop
  | pair {t u r : Outcome ε} : Runs op t u r → Chain op [t, u] r
  | next {ts : List (Outcome ε)} {t u r : Outcome ε} :
    Chain op ts t → Runs op t u r → Chain op (ts ++ [u]) r

def Outcome.Succeeds (t : Outcome ε) : Prop := ∃ x, t.result = .ok x

/-- The values that an operand has returned. -/
def Outcome.parts (t : Outcome ε) : List Any :=
  match t.result with
  | .ok x => t.ty.parts x
  | .error _ => []

section Chains

variable {op : List Nat → Outcome ε → Outcome ε → Option (Outcome ε)} {t u r : Outcome ε}
  {ts : List (Outcome ε)}

theorem Runs.exists_order (h : Runs op t u r) : ∃ order, op order t u = some r := by
  obtain ⟨s, -, d, -, h0, h1, hresume⟩ := h
  rw [resume, h0, h1] at hresume
  exact ⟨d.completionOrder, hresume⟩

theorem both_eq_ok {r0 : Result ε τ} {r1 : Result ε σ} {coReturn : τ → σ → ρ} {z : ρ} :
    both r0 r1 coReturn = .ok z ↔ ∃ x y, r0 = .ok x ∧ r1 = .ok y ∧ z = coReturn x y := by
  cases r0 with
  | ok x =>
    cases r1 with
    | ok y =>
      constructor
      · intro h
        exact ⟨x, y, rfl, rfl, (Except.ok.inj h).symm⟩
      · rintro ⟨x', y', hx, hy, rfl⟩
        cases hx
        cases hy
        rfl
    | error e1 => exact iff_of_false nofun (by rintro ⟨x', y', -, hy, -⟩; cases hy)
  | error e0 =>
    refine iff_of_false ?_ (by rintro ⟨x', y', hx, -⟩; cases hx)
    cases r1 <;> exact nofun

theorem firstOf_eq_ok {r : Result ε τ} {r' : Result ε σ} {coReturn : τ → ρ} {coReturn' : σ → ρ}
    {z : ρ} (h : firstOf r r' coReturn coReturn' = .ok z) :
    (∃ x, r = .ok x ∧ z = coReturn x) ∨ ∃ y, r' = .ok y ∧ z = coReturn' y := by
  cases r with
  | ok x => exact Or.inl ⟨x, rfl, (Except.ok.inj h).symm⟩
  | error e =>
    cases r' with
    | ok y => exact Or.inr ⟨y, rfl, (Except.ok.inj h).symm⟩
    | error e' => cases h

theorem firstOf_ok {r : Result ε τ} {r' : Result ε σ} {coReturn : τ → ρ} {coReturn' : σ → ρ}
    (h : (∃ x, r = .ok x) ∨ ∃ y, r' = .ok y) : ∃ z, firstOf r r' coReturn coReturn' = .ok z := by
  rcases h with ⟨x, rfl⟩ | ⟨y, rfl⟩
  · exact ⟨_, rfl⟩
  · cases r <;> exact ⟨_, rfl⟩

theorem either_eq_ok {order : List Nat} {r0 : Result ε τ} {r1 : Result ε σ} {coReturn0 : τ → ρ}
    {coReturn1 : σ → ρ} {z : ρ} (h : either order r0 r1 coReturn0 coReturn1 = .ok z) :
    (∃ x, r0 = .ok x ∧ z = coReturn0 x) ∨ ∃ y, r1 = .ok y ∧ z = coReturn1 y := by
  rw [either] at h
  split at h
  · exact firstOf_eq_ok h
  · exact (firstOf_eq_ok h).symm

theorem either_ok {order : List Nat} {r0 : Result ε τ} {r1 : Result ε σ} {coReturn0 : τ → ρ}
    {coReturn1 : σ → ρ} (h : (∃ x, r0 = .ok x) ∨ ∃ y, r1 = .ok y) :
    ∃ z, either order r0 r1 coReturn0 coReturn1 = .ok z := by
  rw [either]
  split
  · exact firstOf_ok h
  · exact firstOf_ok h.symm

theorem Ty.IsOperand.alternatives {ty : Ty.{u}} (h : ty.IsOperand) :
    ty.alternatives = [ty.Val] ∧ ∀ x, ty.chosen x = (0, ⟨ty.Val, x⟩) := by
  cases ty with
  | void | value => exact ⟨rfl, fun _ => rfl⟩
  | _ => exact h.elim

/-- An operator of a chain that has got as far as its first operands. -/
def Widened (ts : List (Outcome ε)) (r : Outcome ε) : Prop :=
  ∃ τs, ∃ res : Result ε (Variant τs), r = ⟨.variant τs, res⟩ ∧ τs = ts.map (·.ty.Val) ∧
    ((∃ w, res = .ok w) ↔ ∃ t ∈ ts, t.Succeeds) ∧
    ∀ w, res = .ok w → ∃ t x, ts[w.index]? = some t ∧ t.result = .ok x ∧ w.held = ⟨t.ty.Val, x⟩

theorem Widened.pair (h : Runs opOr t u r) (ht : t.ty.IsOperand) : Widened [t, u] r := by
  obtain ⟨order, hop⟩ := h.exists_order
  obtain ⟨halternatives, hchosen⟩ := ht.alternatives
  obtain ⟨τs, coReturn0, coReturn1, hor, hτs, hchosen0, hchosen1⟩ :=
    operatorOr_eq t u order
  obtain rfl := (Option.some.inj hop).symm.trans hor
  rw [halternatives] at hτs hchosen1
  refine ⟨τs, _, rfl, hτs, ⟨fun ⟨w, hw⟩ => ?_, fun hsucceeds => ?_⟩, fun w hw => ?_⟩
  · rcases either_eq_ok hw with ⟨x, hx, -⟩ | ⟨y, hy, -⟩
    · exact ⟨t, List.mem_cons_self, x, hx⟩
    · exact ⟨u, List.mem_cons_of_mem _ List.mem_cons_self, y, hy⟩
  · have hsucceeds : t.Succeeds ∨ u.Succeeds := by
      simpa only [List.mem_cons, List.not_mem_nil, or_false, exists_eq_or_imp, exists_eq_left]
        using hsucceeds
    exact either_ok hsucceeds
  · rcases either_eq_ok hw with ⟨x, hx, rfl⟩ | ⟨y, hy, rfl⟩
    · have hindex : (coReturn0 x).index = 0 := congrArg Prod.fst ((hchosen0 x).trans (hchosen x))
      exact ⟨t, x, by rw [hindex]; rfl, hx, congrArg Prod.snd ((hchosen0 x).trans (hchosen x))⟩
    · have hindex : (coReturn1 y).index = 1 := congrArg Prod.fst (hchosen1 y)
      exact ⟨u, y, by rw [hindex]; rfl, hy, congrArg Prod.snd (hchosen1 y)⟩

theorem Widened.next (h : Widened ts t) (hruns : Runs opOr t u r) : Widened (ts ++ [u]) r := by
  obtain ⟨τs, res, rfl, hτs, hok, hpos⟩ := h
  obtain ⟨order, hop⟩ := hruns.exists_order
  obtain rfl := Option.some.inj hop
  have hlen : τs.length = ts.length := by rw [hτs, List.length_map]
  refine ⟨τs ++ [u.ty.Val], _, rfl, ?_, ⟨fun ⟨w, hw⟩ => ?_, fun hsucceeds => ?_⟩, fun w hw => ?_⟩
  · rw [List.map_append, ← hτs]
    rfl
  · rcases either_eq_ok hw with ⟨x, hx, -⟩ | ⟨y, hy, -⟩
    · obtain ⟨t, ht, hsucceeds⟩ := hok.mp ⟨x, hx⟩
      exact ⟨t, List.mem_append_left _ ht, hsucceeds⟩
    · exact ⟨u, List.mem_append_right _ (List.mem_singleton_self u), y, hy⟩
  · obtain ⟨t, ht, hsucceeds⟩ := hsucceeds
    apply either_ok
    rcases List.mem_append.mp ht with ht | ht
    · exact Or.inl (hok.mpr ⟨t, ht, hsucceeds⟩)
    · rw [List.mem_singleton.mp ht] at hsucceeds
      exact Or.inr hsucceeds
  · rcases either_eq_ok hw with ⟨x, hx, rfl⟩ | ⟨y, hy, rfl⟩
    · obtain ⟨t, v, hget, hv, hheld⟩ := hpos x hx
      have hget' : (ts ++ [u])[Variant.index x]? = some t := by
        rw [List.getElem?_append_left (List.getElem?_eq_some_iff.mp hget).1, hget]
      exact ⟨t, v, (congrArg _ Variant.index_widen).trans hget', hv,
        Variant.held_widen.trans hheld⟩
    · have hget : (ts ++ [u])[τs.length]? = some u := by
        rw [hlen, List.getElem?_append_right le_rfl, Nat.sub_self]
        rfl
      exact ⟨u, y, (congrArg _ Variant.index_last).trans hget, hy, Variant.held_last⟩

theorem Chain.widened (h : Chain opOr ts r) (hoperands : ∀ t ∈ ts, t.ty.IsOperand) :
    Widened ts r := by
  induction h with
  | pair hruns => exact Widened.pair hruns (hoperands _ List.mem_cons_self)
  | next _ hruns ih =>
    exact (ih fun t ht => hoperands t (List.mem_append_left _ ht)).next hruns

theorem ReturnsBoth.parts {x y z : (ty : Ty.{u}) × ty.Val} (h : ReturnsBoth x y z)
    (hy : y.1.IsOperand) : z.1.parts z.2 = x.1.parts x.2 ++ y.1.parts y.2 := by
  obtain ⟨ty, x⟩ := x
  obtain ⟨ty', y⟩ := y
  have htuple (hne : ty ≠ .void) (hne' : ty' ≠ .void) :
      z.1.parts z.2 = ty.parts x ++ [⟨ty'.Val, y⟩] := by
    obtain ⟨τs, xs, rfl, helems⟩ := h.tuple hne hne'
    exact helems
  cases ty with
  | void => rw [h.left_void rfl, Ty.parts, List.nil_append]
  | _ =>
    cases ty' with
    | void =>
      rw [h.right_void rfl nofun]
      exact (List.append_nil _).symm
    | value τ => exact htuple nofun nofun
    | _ => exact hy.elim

/-- Both operands of a run of `&&` succeed if it does, and it has the values of both. -/
theorem Runs.gathered (h : Runs opAnd t u r) (hu : u.ty.IsOperand) :
    (r.Succeeds ↔ t.Succeeds ∧ u.Succeeds) ∧ (r.Succeeds → r.parts = t.parts ++ u.parts) := by
  obtain ⟨order, hop⟩ := h.exists_order
  obtain ⟨coReturn, hr, hreturns⟩ := operatorAnd_eq_some hop
  refine ⟨⟨?_, ?_⟩, ?_⟩
  · rintro ⟨z, hz⟩
    obtain ⟨x, y, hx, hy, -⟩ := both_eq_ok.mp (hr.symm.trans hz)
    exact ⟨⟨x, hx⟩, y, hy⟩
  · rintro ⟨⟨x, hx⟩, y, hy⟩
    exact ⟨coReturn x y, hr.trans (both_eq_ok.mpr ⟨x, y, hx, hy, rfl⟩)⟩
  · rintro ⟨z, hz⟩
    obtain ⟨x, y, hx, hy, rfl⟩ := both_eq_ok.mp (hr.symm.trans hz)
    rw [Outcome.parts, Outcome.parts, Outcome.parts, hz, hx, hy]
    exact (hreturns x y).parts hu

/-- A chain of `&&` succeeds if all its operands do, and has their values in order. -/
theorem Chain.gathered (h : Chain opAnd ts r) (hoperands : ∀ t ∈ ts, t.ty.IsOperand) :
    (r.Succeeds ↔ ∀ t ∈ ts, t.Succeeds) ∧ (r.Succeeds → r.parts = ts.flatMap Outcome.parts) := by
  induction h with
  | @pair t u r hruns =>
    obtain ⟨hsucceeds, hparts⟩ :=
      hruns.gathered (hoperands u (List.mem_cons_of_mem _ List.mem_cons_self))
    rw [hsucceeds]
    simp only [List.mem_cons, List.not_mem_nil, or_false, forall_eq_or_imp, forall_eq, true_and,
      List.flatMap_cons, List.flatMap_nil, List.append_nil]
    exact fun h => hparts (hsucceeds.mpr h)
  | @next ts t u r _ hruns ih =>
    obtain ⟨hts, htparts⟩ := ih fun t ht => hoperands t (List.mem_append_left _ ht)
    obtain ⟨hsucceeds, hparts⟩ :=
      hruns.gathered (hoperands u (List.mem_append_right _ (List.mem_singleton_self u)))
    refine ⟨?_, fun hr => ?_⟩
    · rw [hsucceeds, hts, List.forall_mem_append, List.forall_mem_singleton]
    · rw [hparts hr, htparts (hsucceeds.mp hr).1, List.flatMap_append, List.flatMap_singleton]

end Chains

theorem operators_meet_iff {ε : Type u} :
    (∀ (operands : Fin 2 → Ty.{u}) (s : State 2 (Args ε operands)), s.DispatchedOnce →
      ∀ d ∈ s.dispatched, (∀ i, s.ops i = .finished) ∧
        (AndMeets s d ↔ ¬ SecondFailedFirst s ∧ ¬ TupleAndVoid operands) ∧ OrMeets s d) ∧
    (∀ (ts : List (Outcome ε)) (r : Outcome ε), (∀ t ∈ ts, t.ty.IsOperand) →
      (Chain opAnd ts r → (r.Succeeds ↔ ∀ t ∈ ts, t.Succeeds) ∧
        (r.Succeeds → r.parts = ts.flatMap Outcome.parts)) ∧
      (Chain opOr ts r → Widened ts r)) := by
  refine ⟨fun operands s h d hd => ?_, fun ts r hoperands => ?_⟩
  · exact ⟨h.finished (List.ne_nil_of_mem hd), andMeets_iff h hd, orMeets h hd⟩
  · exact ⟨fun h => h.gathered hoperands, fun h => h.widened hoperands⟩

/-- The second operand fails, and the first one when it is cancelled. -/
def secondFailsFirst : List (Action 2 (Args Nat fun _ => .void)) :=
  let r0 : Result Nat PUnit := .error (.exception 0)
  let r1 : Result Nat PUnit := .error (.exception 1)
  [.launch, .launch, .launch, .launch, .launch, .launch,
    .complete 1 r1, .proceed 1, .judge 1 (waitForOneError r1 1), .proceed 1, .proceed 1, .proceed 1,
    .proceed 1, .proceed 1, .proceed 1, .proceed 1,
    .complete 0 r0, .proceed 0, .judge 0 (waitForOneError r0 1), .proceed 0, .proceed 0, .proceed 0,
    .proceed 0, .proceed 0]

theorem secondary_exception_reported :
    ¬ ∀ (operands : Fin 2 → Ty) (s : State 2 (Args Nat operands)), s.DispatchedOnce →
      ∀ d ∈ s.dispatched, AndMeets s d := by
  intro hclaim
  have hrun : (exec (guarded step Fits) (initial 2 (Args Nat fun _ => .void) true)
      secondFailsFirst).map (fun s => (failures s.completions,
        s.dispatched.map fun d => (resumeAnd d).map fun r => r.result.ex)) =
      some ([.exception 1, .exception 0], [some (some (.multipleExceptions (.exception 0)))]) := by
    decide +kernel
  obtain ⟨s, hs, hheld⟩ := Option.map_eq_some_iff.mp hrun
  obtain ⟨hfailures, hdispatched⟩ := Prod.ext_iff.mp hheld
  have hsound : Sound s :=
    (exec_guarded_reachable hs).invariant (sound_initial (by decide) (by decide) true)
      fun h ha hstep => h.step (by decide) (by decide) ha hstep
  obtain ⟨d, hd, hresume⟩ := List.map_eq_singleton_iff.mp hdispatched
  obtain ⟨r, hr, -, hthrown⟩ := hclaim _ s (dispatchedOnce hsound.released hsound.ordered) d
    (hd ▸ List.mem_singleton_self d)
  rw [hr, Option.map_some, hthrown _ _ hfailures] at hresume
  cases hresume

end Asio.Experimental.AwaitableOperators
