import LongCtxSpecDecode.Library.ExceptLoop

/-!
# Exceptions

The modelled code is Python: a function either returns or raises. Both outcomes are kept
in `Except Exn`, with the exception class and the message of the source.
-/

namespace LongCtxSpecDecode

inductive Exn where
  | assertionError (msg : String)
  | valueError (msg : String)
  | runtimeError (msg : String)
  | indexError (msg : String)
  | keyError (msg : String)
  | attributeError (msg : String)
  | zeroDivisionError (msg : String)
  | typeError (msg : String)
  /-- A `while` loop of the source ran longer than the bound the model gives it. -/
  | outOfFuel
deriving DecidableEq, Repr

/-- Python's `assert c, msg`. -/
def require (c : Prop) [Decidable c] (msg : String) : Except Exn Unit :=
  if c then .ok () else .error (.assertionError msg)

@[simp] theorem require_of_true {c : Prop} [Decidable c] (hc : c) (msg : String) :
    require c msg = .ok () :=
  if_pos hc

theorem require_eq_ok {c : Prop} [Decidable c] {msg : String} {u : Unit} :
    require c msg = .ok u ↔ c := by
  by_cases hc : c <;> simp [require]

end LongCtxSpecDecode
