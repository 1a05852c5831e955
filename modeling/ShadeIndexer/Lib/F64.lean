import Mathlib.Data.Rat.Defs
import Mathlib.Data.BitVec
import Mathlib.Algebra.Order.Ring.Rat

/-!
Floating-point values with exact arithmetic: the finite ones are rationals, and
no operation rounds its result as an `f64` does. The infinities and NaN are kept
apart, so that what a function does with them can still be told.
-/

namespace ShadeIndexer.Lib

inductive F64 where
  | nan
  | inf (negative : Bool)
  | finite (q : ℚ)
  deriving DecidableEq

namespace F64

/-- `x > 0.0`, which NaN does not satisfy. -/
def isPos : F64 → Bool
  | .nan => false
  | .inf negative => !negative
  | .finite q => 0 < q

/-- Division by a positive value. -/
def divPos : F64 → F64 → F64
  | .nan, _ => .nan
  | _, .nan => .nan
  | .inf _, .inf _ => .nan
  | .inf negative, .finite _ => .inf negative
  | .finite _, .inf _ => .finite 0
  | .finite a, .finite b => .finite (a / b)

/-- `x as f64` for an unsigned integer. -/
def ofUnsigned {w : Nat} (x : BitVec w) : F64 := .finite x.toNat

end F64

end ShadeIndexer.Lib
