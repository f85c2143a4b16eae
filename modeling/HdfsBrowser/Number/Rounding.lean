/-!
# Rounding of quotients

Division to the nearest natural number; a tie goes to the even one.
-/

namespace HdfsBrowser

/-- `n / d` to the nearest, ties to even. -/
def roundDiv (n d : Nat) : Nat :=
  let q := n / d
  let r := n % d
  if 2 * r < d then q
  else if d < 2 * r then q + 1
  else if q % 2 = 0 then q
  else q + 1

end HdfsBrowser
