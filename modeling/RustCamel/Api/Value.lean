-- The JSON values of `serde_json`, which properties, headers and the answers of
-- expressions hold.
import Mathlib.Algebra.Order.Ring.Nat

namespace camel_api

/-- A number as `serde_json` keeps it. A float stands as its bits. -/
inductive Number where
  | PosInt (n : UInt64)
  | NegInt (n : Int64)
  | Float (bits : UInt64)

def Number.as_u64 : Number → Option Nat
  | .PosInt n => some n.toNat
  | .NegInt _ => none
  | .Float _ => none

inductive Value where
  | Null
  | Bool (b : Bool)
  | Number (n : camel_api.Number)
  | String (s : String)
  | Array (items : List Value)
  | Object (entries : List (String × Value))

/-- `value.get(key)`: the value under a key. Only an object has one. -/
def value_get (value : Value) (key : String) : Option Value :=
  match value with
  | .Object entries => entries.lookup key
  | _ => none

def Value.as_u64 : Value → Option Nat
  | .Number n => n.as_u64
  | _ => none

theorem Number.as_u64_lt {n : Number} {m : Nat} (h : n.as_u64 = some m) : m < 2 ^ 64 := by
  cases n with
  | PosInt n =>
    simp only [Number.as_u64, Option.some.injEq] at h
    rw [← h]
    exact n.toNat_lt
  | NegInt n | Float bits => simp [Number.as_u64] at h

end camel_api
