import GenreRelations.Toml.Spacing

/-!
The four kinds of quoted text in TOML: in double quotes with escapes, in single quotes without,
and either of them over several lines between tripled quotes. Each reader starts behind the opening
quotes and gives the text and what follows the closing ones.
-/

namespace GenreRelations.Toml.Quoted

/-- Puts a character before the text that was read. -/
def cons (c : Char) (read : Option (Text × Text)) : Option (Text × Text) :=
  read.map fun (text, rest) => (c :: text, rest)

/-! ### Escapes -/

def hexDigit? (c : Char) : Option Nat :=
  if '0' ≤ c ∧ c ≤ '9' then some (c.toNat - '0'.toNat)
  else if 'a' ≤ c ∧ c ≤ 'f' then some (c.toNat - 'a'.toNat + 10)
  else if 'A' ≤ c ∧ c ≤ 'F' then some (c.toNat - 'A'.toNat + 10)
  else none

/-- The character whose code point stands in so many digits. -/
def codePoint? (digits : Nat) (s : Text) : Option (Char × Text) := do
  guard (digits ≤ s.length)
  let ds ← (s.take digits).mapM hexDigit?
  let n := ds.foldl (fun n d => n * 16 + d) 0
  guard (n.isValidChar)
  return (Char.ofNat n, s.drop digits)

/-- The character that an escape stands for, read behind the backslash. -/
def escape? : Text → Option (Char × Text)
  | 'b' :: s => some ('\x08', s)
  | 't' :: s => some ('\t', s)
  | 'n' :: s => some ('\n', s)
  | 'f' :: s => some ('\x0c', s)
  | 'r' :: s => some ('\r', s)
  | '"' :: s => some ('"', s)
  | '\\' :: s => some ('\\', s)
  | 'u' :: s => codePoint? 4 s
  | 'U' :: s => codePoint? 8 s
  | _ => none

/-! ### One line -/

/-- Reads up to the closing double quote, over so many characters at most. -/
def basic : Nat → Text → Option (Text × Text)
  | 0, _ => none
  | n + 1, s =>
    match s with
    | [] => none
    | '"' :: r => some ([], r)
    | '\\' :: r => do
      let (c, r) ← escape? r
      cons c (basic n r)
    | c :: r => if isPlain c then cons c (basic n r) else none

/-- Reads up to the closing single quote. -/
def literal : Text → Option (Text × Text)
  | [] => none
  | '\'' :: s => some ([], s)
  | c :: s => if isPlain c then cons c (literal s) else none

/-! ### Several lines -/

/-- Three quotes close a text of several lines, and up to two more right before them belong to
it. -/
def closing? (quote : Char) : Text → Option (Text × Text)
  | a :: b :: c :: s =>
    if a = quote ∧ b = quote ∧ c = quote then
      match s with
      | d :: e :: r =>
        if d = quote ∧ e = quote then some ([quote, quote], r)
        else if d = quote then some ([quote], e :: r)
        else some ([], s)
      | [d] => if d = quote then some ([quote], []) else some ([], s)
      | [] => some ([], [])
    else none
  | _ => none

/-- Reads up to the closing double quotes, over so many characters at most. A backslash at the end
of a line leaves out the line break and all blanks that follow. -/
def basicLines : Nat → Text → Option (Text × Text)
  | 0, _ => none
  | n + 1, s =>
    match closing? '"' s with
    | some read => some read
    | none =>
      match s with
      | [] => none
      | '\\' :: r =>
        match lineBreak? (skipSpace r) with
        | some r => basicLines n (skipBreaks r)
        | none => do
          let (c, r) ← escape? r
          cons c (basicLines n r)
      | c :: r =>
        match lineBreak? (c :: r) with
        | some r => cons '\n' (basicLines n r)
        | none => if isPlain c then cons c (basicLines n r) else none

/-- Reads up to the closing single quotes, over so many characters at most. -/
def literalLines : Nat → Text → Option (Text × Text)
  | 0, _ => none
  | n + 1, s =>
    match closing? '\'' s with
    | some read => some read
    | none =>
      match s with
      | [] => none
      | c :: r =>
        match lineBreak? (c :: r) with
        | some r => cons '\n' (literalLines n r)
        | none => if isPlain c then cons c (literalLines n r) else none

/-- The text after a line break right behind the opening quotes. -/
def afterOpening (s : Text) : Text := (lineBreak? s).getD s

/-! ### All kinds -/

/-- Reads a quoted text that stands on one line. -/
def line? : Text → Option (Text × Text)
  | '"' :: s => basic (s.length + 1) s
  | '\'' :: s => literal s
  | _ => none

/-- Reads a quoted text of any kind. -/
def any? : Text → Option (Text × Text)
  | '"' :: '"' :: '"' :: s => basicLines (s.length + 1) (afterOpening s)
  | '\'' :: '\'' :: '\'' :: s => literalLines (s.length + 1) (afterOpening s)
  | s => line? s

end GenreRelations.Toml.Quoted
