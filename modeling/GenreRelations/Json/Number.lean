import GenreRelations.Double.Shortest
import GenreRelations.Text.Integer

/-!
Numbers of a JSON document. A number without point and exponent that fits 64 bits stays an
integer; every other one becomes a double.
-/

namespace GenreRelations

namespace Json

inductive Number where
  | integer (value : Int)
  | real (value : Double)
  deriving DecidableEq, Repr

namespace Number

/-! ### Reading -/

/-- The greatest significand that is kept while digits are read. -/
def greatestSignificand : Nat := Nat.pow 2 64 - 1

/-- Appends digits to a significand as long as it stays in range, and says how many were left. -/
def accumulate (n : Nat) : List Char → Nat × Nat
  | [] => (n, 0)
  | c :: cs =>
    let m := n * 10 + Text.digitValue c
    if m ≤ greatestSignificand then accumulate m cs else (n, cs.length + 1)

/-- The double divided by a power of ten, in steps that stay within the range of doubles. -/
def scaleDown (x : Double) (n : Nat) : Option Double :=
  if n ≤ 308 then do x.div? (← Double.powerOfTen? n)
  else if x.isZero then some x
  else do
    let y ← x.div? (← Double.powerOfTen? 308)
    scaleDown y (n - 308)
  termination_by n

/-- The double times a power of ten; none if it is out of range. -/
def scale (x : Double) (e : Int) : Option Double :=
  if e < 0 then scaleDown x (-e).toNat
  else if e ≤ 308 then do x.mul? (← Double.powerOfTen? e.toNat)
  else if x.isZero then some x
  else none

/-- The parts of a number's text. -/
structure Parts where
  negative : Bool
  whole : List Char
  /-- The digits after the point, if there is one. -/
  fraction : Option (List Char)
  exponent : Option Int

/-- Reads digits, of which there has to be one at least. -/
def digits? (s : Text) : Option (Text × Text) :=
  let ds := s.takeWhile Char.isDigit
  if ds.isEmpty then none else some (ds, s.dropWhile Char.isDigit)

def sign : Text → Bool × Text
  | '-' :: s => (true, s)
  | '+' :: s => (false, s)
  | s => (false, s)

def fraction? : Text → Option (Option Text × Text)
  | '.' :: s => do
    let (ds, r) ← digits? s
    return (some ds, r)
  | s => some (none, s)

def exponent? (s : Text) : Option (Option Int) :=
  match s with
  | [] => some none
  | c :: s =>
    if c = 'e' ∨ c = 'E' then do
      let (negative, s) := sign s
      let (ds, r) ← digits? s
      guard r.isEmpty
      let n : Int := Text.natural ds
      return some (if negative then -n else n)
    else none

/-- Splits the text of a number. A whole part of several digits does not start with zero. -/
def parts? (s : Text) : Option Parts := do
  let (negative, s) := match s with
    | '-' :: s => (true, s)
    | s => (false, s)
  let (whole, s) ← digits? s
  guard (whole.length = 1 ∨ whole.head? ≠ some '0')
  let (fraction, s) ← fraction? s
  let exponent ← exponent? s
  return ⟨negative, whole, fraction, exponent⟩

/-- The value of the parts. Digits beyond 64 bits only count as places. -/
def ofParts? (p : Parts) : Option Number := do
  let (n, overflow) := accumulate 0 p.whole
  if p.fraction.isNone ∧ p.exponent.isNone ∧ overflow = 0 then
    if !p.negative then return .integer n
    else if 0 < n ∧ Text.fitsWord true n then return .integer (-n)
  let decimals := p.fraction.getD []
  let (m, left) := accumulate n decimals
  let e := (overflow : Int) - (decimals.length - left : Nat) + p.exponent.getD 0
  let x ← scale (← Double.ofNat? m) e
  return .real { x with negative := p.negative }

/-- The number that a text writes; none if it writes none or one out of range. -/
def read? (s : Text) : Option Number := parts? s >>= ofParts?

/-! ### Writing -/

/-- Doubles show their point up to sixteen places before it and four zeros after it. -/
def pointed (places : Int) : Bool := -5 < places && places ≤ 16

/-- The text of digits with the point behind so many places of them. -/
def realText (digits : Text) (places : Int) : Text :=
  if pointed places then
    if places ≤ 0 then '0' :: '.' :: List.replicate (-places).toNat '0' ++ digits
    else
      let n := places.toNat
      if digits.length ≤ n then
        digits ++ List.replicate (n - digits.length) '0' ++ ['.', '0']
      else digits.take n ++ '.' :: digits.drop n
  else
    let e := places - 1
    let mantissa := match digits with
      | d :: d' :: ds => d :: '.' :: d' :: ds
      | ds => ds
    mantissa ++ 'e' :: (if e < 0 then '-' else '+') :: Text.ofNat e.natAbs

/-- The text without the zeros at its end. -/
def dropZeros (s : Text) : Text := (s.reverse.dropWhile (· == '0')).reverse

/-- The text of a number: an integer as it is, a double by its shortest digits. -/
def text : Number → Text
  | integer n => (if n < 0 then ['-'] else []) ++ Text.ofNat n.natAbs
  | real x =>
    (if x.negative then ['-'] else []) ++
      if x.isZero then ['0', '.', '0']
      else
        let d := x.shortest
        let digits := Text.ofNat d.digits
        realText (dropZeros digits) (digits.length + d.exponent)

end Number

end Json

end GenreRelations
