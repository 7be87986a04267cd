/-!
Text and its blank characters. Trimming removes blanks at both ends, and the weight of a text
is the number of its characters that are not blank.
-/

namespace GenreRelations

/-- A text is the list of its characters. -/
abbrev Text := List Char

namespace Text

/-- The characters with the Unicode property `White_Space`. -/
def isBlank (c : Char) : Bool :=
  let n := c.toNat
  (0x9 ≤ n && n ≤ 0xD) || n == 0x20 || n == 0x85 || n == 0xA0 || n == 0x1680 ||
    (0x2000 ≤ n && n ≤ 0x200A) || n == 0x2028 || n == 0x2029 || n == 0x202F || n == 0x205F ||
    n == 0x3000

def trimStart (s : Text) : Text := s.dropWhile isBlank

def trimEnd (s : Text) : Text := (s.reverse.dropWhile isBlank).reverse

/-- The text without the blanks at its two ends. -/
def trim (s : Text) : Text := trimEnd (trimStart s)

/-- The number of characters that are not blank. -/
def weight (s : Text) : Nat := s.countP fun c => !isBlank c

theorem weight_nil : weight [] = 0 := rfl

theorem weight_append (s t : Text) : weight (s ++ t) = weight s + weight t :=
  List.countP_append

theorem weight_cons (c : Char) (s : Text) :
    weight (c :: s) = (if isBlank c then 0 else 1) + weight s := by
  unfold weight
  rw [List.countP_cons]
  by_cases h : isBlank c <;> simp [h, Nat.add_comm]

/-- The digits of a natural number, base ten. -/
def ofNat (n : Nat) : Text := Nat.toDigits 10 n

end Text

end GenreRelations
