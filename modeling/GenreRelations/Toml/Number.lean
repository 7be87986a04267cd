import GenreRelations.Text.Integer
import GenreRelations.Toml.Quoted

/-!
Numbers in TOML. A reader gives the text after the number. Integers fit 64 bits with sign, and a
number with point or exponent does not exceed the range of doubles.
-/

namespace GenreRelations.Toml.Number

/-- The digits that follow, any two of which may be parted by one low line. -/
def moreDigits (isDigit : Char → Bool) : Text → Text × Text
  | [] => ([], [])
  | '_' :: c :: s =>
    if isDigit c then
      let (ds, r) := moreDigits isDigit s
      (c :: ds, r)
    else ([], '_' :: c :: s)
  | c :: s =>
    if isDigit c then
      let (ds, r) := moreDigits isDigit s
      (c :: ds, r)
    else ([], c :: s)

/-- Digits, at least one of them. -/
def digits? (isDigit : Char → Bool) : Text → Option (Text × Text)
  | c :: s => if isDigit c then some (moreDigits isDigit (c :: s)) else none
  | [] => none

def value (base : Nat) (ds : Text) : Nat :=
  ds.foldl (fun n d => n * base + (Quoted.hexDigit? d).getD 0) 0

/-! ### Whole numbers -/

/-- Whether a minus stands first, and the text behind the sign. -/
def sign : Text → Bool × Text
  | '-' :: s => (true, s)
  | '+' :: s => (false, s)
  | s => (false, s)

/-- Decimal digits that do not start with a zero, unless there is no other. -/
def whole? : Text → Option (Text × Text)
  | '0' :: s => some (['0'], s)
  | s => digits? Char.isDigit s

def isDigitOf (base : Nat) (c : Char) : Bool :=
  match Quoted.hexDigit? c with
  | some d => d < base
  | none => false

/-- The text after an integer in the given base, read behind the mark of the base. -/
def based? (base : Nat) (s : Text) : Option Text := do
  let (ds, r) ← digits? (isDigitOf base) s
  guard (Text.fitsWord false (value base ds))
  return r

def integer? (s : Text) : Option Text :=
  match s with
  | '0' :: 'x' :: s => based? 16 s
  | '0' :: 'o' :: s => based? 8 s
  | '0' :: 'b' :: s => based? 2 s
  | s => do
    let (negative, s) := sign s
    let (ds, r) ← whole? s
    guard (Text.fitsWord negative (value 10 ds))
    return r

/-! ### Numbers with point or exponent -/

/-- The number `n * 10 ^ e` is nearer to the greatest double than to the one that would come after
it. -/
def isFinite (n : Nat) (e : Int) : Bool :=
  n * Nat.pow 10 e.toNat < (Nat.pow 2 54 - 1) * Nat.pow 2 970 * Nat.pow 10 (-e).toNat

/-- The digits written, without zeros at the start, make a double when the point is moved so many
places to the right. The power of ten is only computed near the limit of the range. -/
def inRange (ds : Text) (e : Int) : Bool :=
  let ds := ds.dropWhile (· == '0')
  ds.isEmpty || ds.length + e < 308 || (ds.length + e ≤ 310 && isFinite (value 10 ds) e)

/-- The digits behind a point, if there is one. -/
def fraction? : Text → Option (Text × Text)
  | '.' :: s => digits? Char.isDigit s
  | _ => none

/-- The exponent, if there is one. -/
def exponent? : Text → Option (Int × Text)
  | c :: s =>
    if c = 'e' ∨ c = 'E' then do
      let (negative, s) := sign s
      let (ds, r) ← digits? Char.isDigit s
      let n : Int := value 10 ds
      return (if negative then -n else n, r)
    else none
  | [] => none

/-- Infinity or no number, behind a sign. -/
def special? : Text → Option Text
  | 'i' :: 'n' :: 'f' :: s => some s
  | 'n' :: 'a' :: 'n' :: s => some s
  | _ => none

/-- The text after a number with point or exponent. A negative one may exceed the range. -/
def real? (s : Text) : Option Text :=
  let (negative, s) := sign s
  match whole? s with
  | none => special? s
  | some (ds, r) => do
    let (ds, e, r) ← match fraction? r with
      | some (fs, r) =>
        match exponent? r with
        | some (e, r) => some (ds ++ fs, e - fs.length, r)
        | none => some (ds ++ fs, -(fs.length : Int), r)
      | none => (exponent? r).map fun (e, r) => (ds, e, r)
    guard (negative ∨ inRange ds e)
    return r

end GenreRelations.Toml.Number
