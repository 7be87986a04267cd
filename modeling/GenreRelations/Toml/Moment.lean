import GenreRelations.Toml.Number

/-!
Dates and times in TOML: a date, a time of day, or both together, perhaps with an offset. A reader
gives the text after what it read.
-/

namespace GenreRelations.Toml.Moment

/-- A number of exactly so many digits. -/
def fixed? (digits : Nat) (s : Text) : Option (Nat × Text) :=
  let ds := s.take digits
  if ds.length = digits ∧ ds.all Char.isDigit then some (Number.value 10 ds, s.drop digits)
  else none

/-- A number of two digits within bounds. -/
def pair? (least greatest : Nat) (s : Text) : Option (Nat × Text) := do
  let (n, r) ← fixed? 2 s
  guard (least ≤ n ∧ n ≤ greatest)
  return (n, r)

/-- The text after the given character. -/
def mark? (c : Char) : Text → Option Text
  | d :: s => if d = c then some s else none
  | [] => none

def isLeap (year : Nat) : Bool := year % 4 == 0 && (year % 100 != 0 || year % 400 == 0)

def days (year month : Nat) : Nat :=
  if month = 2 then if isLeap year then 29 else 28
  else if month ∈ [4, 6, 9, 11] then 30
  else 31

def date? (s : Text) : Option Text := do
  let (year, s) ← fixed? 4 s
  let (month, s) ← pair? 1 12 (← mark? '-' s)
  let (_, s) ← pair? 1 (days year month) (← mark? '-' s)
  return s

/-- The text after a point and digits, if they are there. -/
def skipFraction (s : Text) : Text :=
  match s with
  | '.' :: r => if (r.takeWhile Char.isDigit).isEmpty then s else r.dropWhile Char.isDigit
  | _ => s

/-- A time of day with its seconds, of which there may be one more than usual. -/
def time? (s : Text) : Option Text := do
  let (_, s) ← pair? 0 23 s
  let (_, s) ← pair? 0 59 (← mark? ':' s)
  let (_, s) ← pair? 0 60 (← mark? ':' s)
  return skipFraction s

/-- The offset from universal time. -/
def offset? : Text → Option Text
  | 'Z' :: s => some s
  | 'z' :: s => some s
  | c :: s =>
    if c = '+' ∨ c = '-' then do
      let (_, s) ← pair? 0 23 s
      let (_, s) ← pair? 0 59 (← mark? ':' s)
      return s
    else none
  | [] => none

/-- The time and the offset behind a date. -/
def timeOfDate? : Text → Option Text
  | c :: s =>
    if c = 'T' ∨ c = 't' ∨ c = ' ' then
      (time? s).map fun r => (offset? r).getD r
    else none
  | [] => none

/-- A date, with a time or without, or a time alone. -/
def any? (s : Text) : Option Text :=
  match date? s with
  | some r => some ((timeOfDate? r).getD r)
  | none => time? s

end GenreRelations.Toml.Moment
