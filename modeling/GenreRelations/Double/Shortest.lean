import GenreRelations.Double.Basic

/-!
The shortest decimal that reads back as a given double. For one digit, two, and so on, the two
neighbours of the number among the decimals with so many digits are compared with the interval of
the reals that round to it. The first count of digits with a neighbour inside wins; of two
neighbours inside the nearer one wins, and the even one if both are as near.
-/

namespace GenreRelations

namespace Double

/-- A decimal `digits * 10 ^ exponent`. -/
structure Decimal where
  digits : Nat
  exponent : Int
  deriving DecidableEq, Repr

/-- The number of decimal digits; zero has none. -/
def digitCount (n : Nat) : Nat := if n = 0 then 0 else (Nat.toDigits 10 n).length

/-- The exponent of the greatest power of ten that is not above `n / d`. -/
def decimalExponent (n d : Nat) : Int :=
  if d ≤ n then (digitCount (n / d) : Int) - 1
  else -(digitCount ((d + n - 1) / n - 1) : Int)

/-- The decimal on the grid of `10 ^ p` that reads back as `x`, if there is one. All numbers are
compared as multiples of a common unit, a quarter of the last place of `x` being `quarter`. -/
def onGrid? (x : Double) (p : Int) : Option Decimal :=
  let s := x.exponent - 2
  let step := Nat.pow 10 p.toNat * Nat.pow 2 (-s).toNat
  let quarter := Nat.pow 2 s.toNat * Nat.pow 10 (-p).toNat
  let value := 4 * x.significand * quarter
  let toPrevious := if x.significand = Nat.pow 2 52 ∧ leastExponent < x.exponent then 1 else 2
  let low := value - toPrevious * quarter
  let high := value + 2 * quarter
  let inside (n : Nat) : Bool :=
    if x.significand % 2 = 0 then low ≤ n && n ≤ high else low < n && n < high
  let c := value / step
  let below := value - c * step
  let above := (c + 1) * step - value
  match inside (c * step), inside ((c + 1) * step) with
  | false, false => none
  | true, false => some ⟨c, p⟩
  | false, true => some ⟨c + 1, p⟩
  | true, true =>
    if below < above then some ⟨c, p⟩
    else if above < below then some ⟨c + 1, p⟩
    else some ⟨c + c % 2, p⟩

/-- The shortest decimal that reads back as a double other than zero. Seventeen digits are always
enough. -/
def shortest (x : Double) : Decimal :=
  let k := decimalExponent (x.significand * Nat.pow 2 x.exponent.toNat)
    (Nat.pow 2 (-x.exponent).toNat)
  ((List.range 17).findSome? fun (n : Nat) => x.onGrid? (k - n)).getD ⟨0, 0⟩

end Double

end GenreRelations
