import HdfsBrowser.Number.Power
import HdfsBrowser.Number.Rounding

/-!
# Binary floating point of 64 bits

A finite value is a signed natural number times a power of two.  `ofRatio`
gives the value nearest to a quotient, with ties to the even mantissa; all
other conversions go through it, so that each rounds once.
-/

namespace HdfsBrowser

/-- A number of the format: `finite s m e` is `m * 2 ^ e`, negated when `s` holds. -/
inductive Binary64 where
  | nan
  | infinite (negative : Bool)
  | finite (negative : Bool) (mantissa : Nat) (exponent : Int)
  deriving DecidableEq, Repr, Inhabited

namespace Binary64

def minExponent : Int := -1074

def maxExponent : Int := 971

def leastNormal : Nat := twoTo 52

/-- The mantissa is full, or the exponent is the least. -/
structure Regular (m : Nat) (e : Int) : Prop where
  lt : m < 2 * leastNormal
  least_le : minExponent ≤ e
  le_greatest : e ≤ maxExponent
  full : minExponent < e → leastNormal ≤ m

instance (m : Nat) (e : Int) : Decidable (Regular m e) :=
  decidable_of_iff (m < 2 * leastNormal ∧ minExponent ≤ e ∧ e ≤ maxExponent ∧
      (minExponent < e → leastNormal ≤ m))
    ⟨fun ⟨hlt, hleast, hgreatest, hfull⟩ => ⟨hlt, hleast, hgreatest, hfull⟩,
      fun h => ⟨h.lt, h.least_le, h.le_greatest, h.full⟩⟩

def IsRegular : Binary64 → Prop
  | .finite _ m e => Regular m e
  | _ => True

instance : (x : Binary64) → Decidable x.IsRegular
  | .finite _ m e => inferInstanceAs (Decidable (Regular m e))
  | .nan => isTrue trivial
  | .infinite _ => isTrue trivial

def zero (negative : Bool) : Binary64 := .finite negative 0 minExponent

def scaled (n d : Nat) (e : Int) : Nat × Nat :=
  (n * twoTo (-e).toNat, d * twoTo e.toNat)

/-- The exponent at which the mantissa of `n / d` has 53 bits, or the least one. -/
def exponentFor (n d : Nat) : Int :=
  let e : Int := (n.log2 : Int) - (d.log2 : Int) - 53
  let (a, b) := scaled n d e
  max minExponent (if 2 * leastNormal ≤ a / b then e + 1 else e)

def ofRatio (negative : Bool) (n d : Nat) : Binary64 :=
  if n = 0 then zero negative
  else
    let e := exponentFor n d
    let (a, b) := scaled n d e
    let m := roundDiv a b
    let (m, e) := if m = 2 * leastNormal then (leastNormal, e + 1) else (m, e)
    if maxExponent < e then .infinite negative else .finite negative m e

def ofInt (n : Int) : Binary64 := ofRatio (n < 0) n.natAbs 1

/-- The value nearest to `n * 10 ^ e`.  Far out of range no power is computed. -/
def ofDecimal (negative : Bool) (n : Nat) (e : Int) : Binary64 :=
  if n = 0 then zero negative
  else
    let top : Int := e + (Nat.toDigits 10 n).length
    if top > 400 then .infinite negative
    else if top < -400 then zero negative
    else ofRatio negative (n * tenTo e.toNat) (tenTo (-e).toNat)

def isFinite : Binary64 → Bool
  | .finite .. => true
  | _ => false

def isZero : Binary64 → Bool
  | .finite _ 0 _ => true
  | _ => false

def ratio (mantissa : Nat) (exponent : Int) : Nat × Nat :=
  (mantissa * twoTo exponent.toNat, twoTo (-exponent).toNat)

def truncate? : Binary64 → Option Int
  | .finite negative m e =>
    let (a, b) := ratio m e
    some (if negative then -((a / b : Nat) : Int) else ((a / b : Nat) : Int))
  | _ => none

def floor? : Binary64 → Option Int
  | .finite negative m e =>
    let (a, b) := ratio m e
    some (if negative then (-(a : Int)) / (b : Int) else ((a / b : Nat) : Int))
  | _ => none

end Binary64

end HdfsBrowser
