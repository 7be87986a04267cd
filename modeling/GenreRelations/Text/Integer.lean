import GenreRelations.Text.Basic

/-!
Whole numbers as they are written in base ten, and the range of those that fit 64 bits with sign.
-/

namespace GenreRelations.Text

def digitValue (c : Char) : Nat := c.toNat - '0'.toNat

def natural (ds : Text) : Nat := ds.foldl (fun n c => n * 10 + digitValue c) 0

/-- What an integer stays below, and a negative one does not go under. -/
def signLimit : Nat := Nat.pow 2 63

/-- The integer with this sign and this absolute value fits 64 bits. -/
def fitsWord (negative : Bool) (n : Nat) : Bool := n < signLimit || (negative && n == signLimit)

end GenreRelations.Text
