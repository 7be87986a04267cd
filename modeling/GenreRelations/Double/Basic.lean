/-!
Finite binary numbers of double precision, and their rounded arithmetic. Every result is the
double nearest to the exact one, and the one with the even significand where two are as near.
-/

namespace GenreRelations

/-- The number `significand * 2 ^ exponent`, negated if `negative`. The significand is below
`2 ^ 53`, and at least `2 ^ 52` unless the exponent is the least one. -/
structure Double where
  negative : Bool
  significand : Nat
  exponent : Int
  deriving DecidableEq, Repr

namespace Double

def leastExponent : Int := -1074

def greatestExponent : Int := 971

def zero (negative : Bool) : Double := ⟨negative, 0, leastExponent⟩

def isZero (x : Double) : Bool := x.significand == 0

/-- The quotient rounded to the nearest natural number, a half to the even one. -/
def roundDiv (n d : Nat) : Nat :=
  let q := n / d
  let r := n % d
  if 2 * r < d then q
  else if d < 2 * r then q + 1
  else q + q % 2

/-- The exponent of the greatest power of two that is not above `n / d`. -/
def floorLog (n d : Nat) : Int :=
  let k : Int := (n.log2 : Int) - d.log2
  if d * Nat.pow 2 k.toNat ≤ n * Nat.pow 2 (-k).toNat then k else k - 1

/-- The double nearest to `n / d`; none if the number is too large. -/
def nearest (negative : Bool) (n d : Nat) : Option Double :=
  if n = 0 then some (zero negative)
  else
    let e := max (floorLog n d - 52) leastExponent
    let m := roundDiv (n * Nat.pow 2 (-e).toNat) (d * Nat.pow 2 e.toNat)
    let x : Double :=
      if m = Nat.pow 2 53 then ⟨negative, Nat.pow 2 52, e + 1⟩ else ⟨negative, m, e⟩
    if greatestExponent < x.exponent then none else some x

def ofNat? (n : Nat) : Option Double := nearest false n 1

def mul? (x y : Double) : Option Double :=
  let e := x.exponent + y.exponent
  nearest (x.negative != y.negative) (x.significand * y.significand * Nat.pow 2 e.toNat)
    (Nat.pow 2 (-e).toNat)

def div? (x y : Double) : Option Double :=
  let e := x.exponent - y.exponent
  nearest (x.negative != y.negative) (x.significand * Nat.pow 2 e.toNat)
    (y.significand * Nat.pow 2 (-e).toNat)

def powerOfTen? (k : Nat) : Option Double := nearest false (Nat.pow 10 k) 1

end Double

end GenreRelations
