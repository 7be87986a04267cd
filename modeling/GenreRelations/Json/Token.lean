import GenreRelations.Json.Basic

/-!
Tokens of a JSON document: punctuation, strings, and the values that are written by one token.
-/

namespace GenreRelations

namespace Json

inductive Token where
  | openArray
  | closeArray
  | openObject
  | closeObject
  | comma
  | colon
  | string (value : Text)
  /-- A literal or a number. -/
  | scalar (value : Json)

namespace Token

/-! ### Strings -/

def hexValue? (c : Char) : Option Nat :=
  if '0' ≤ c && c ≤ '9' then some (c.toNat - '0'.toNat)
  else if 'a' ≤ c && c ≤ 'f' then some (c.toNat - 'a'.toNat + 10)
  else if 'A' ≤ c && c ≤ 'F' then some (c.toNat - 'A'.toNat + 10)
  else none

/-- Reads four hexadecimal digits. -/
def codeUnit? : Text → Option (Nat × Text)
  | a :: b :: c :: d :: s => do
    let x ← hexValue? a
    let y ← hexValue? b
    let z ← hexValue? c
    let w ← hexValue? d
    return (((x * 16 + y) * 16 + z) * 16 + w, s)
  | _ => none

def isHighSurrogate (n : Nat) : Bool := 0xD800 ≤ n && n ≤ 0xDBFF

def isLowSurrogate (n : Nat) : Bool := 0xDC00 ≤ n && n ≤ 0xDFFF

/-- Reads an escaped character behind its backslash and `u`. A character above U+FFFF takes two
escapes, and half of such a pair is refused. -/
def unicodeEscape? (s : Text) : Option (Char × Text) := do
  let (n, r) ← codeUnit? s
  if isHighSurrogate n then
    match r with
    | '\\' :: 'u' :: r' =>
      let (m, r'') ← codeUnit? r'
      if isLowSurrogate m then
        return (Char.ofNat (0x10000 + (n - 0xD800) * 0x400 + (m - 0xDC00)), r'')
      else none
    | _ => none
  else if isLowSurrogate n then none
  else return (Char.ofNat n, r)

/-- Reads an escaped character behind its backslash. -/
def escape? : Text → Option (Char × Text)
  | '"' :: s => some ('"', s)
  | '\\' :: s => some ('\\', s)
  | '/' :: s => some ('/', s)
  | 'b' :: s => some ('\x08', s)
  | 'f' :: s => some ('\x0c', s)
  | 'n' :: s => some ('\n', s)
  | 'r' :: s => some ('\r', s)
  | 't' :: s => some ('\t', s)
  | 'u' :: s => unicodeEscape? s
  | _ => none

theorem length_codeUnit? {s r : Text} {n : Nat} (h : codeUnit? s = some (n, r)) :
    r.length < s.length := by
  unfold codeUnit? at h
  split at h
  · simp only [Option.bind_eq_bind, Option.bind_eq_some_iff, Option.pure_def, Option.some.injEq,
      Prod.mk.injEq] at h
    obtain ⟨_, -, _, -, _, -, _, -, -, rfl⟩ := h
    simp only [List.length_cons]
    omega
  · simp at h

theorem length_unicodeEscape? {s r : Text} {c : Char} (h : unicodeEscape? s = some (c, r)) :
    r.length < s.length := by
  unfold unicodeEscape? at h
  rw [Option.bind_eq_bind, Option.bind_eq_some_iff] at h
  obtain ⟨⟨n, t⟩, ht, h⟩ := h
  have hlt := length_codeUnit? ht
  simp only at h
  split at h
  · split at h
    · rw [Option.bind_eq_some_iff] at h
      obtain ⟨⟨m, u⟩, hu, h⟩ := h
      have hlt' := length_codeUnit? hu
      simp only at h
      split at h
      · obtain ⟨-, rfl⟩ := by simpa using h
        simp only [List.length_cons] at hlt
        omega
      · simp at h
    · simp at h
  · split at h
    · simp at h
    · obtain ⟨-, rfl⟩ := by simpa using h
      exact hlt

theorem length_escape? {s r : Text} {c : Char} (h : escape? s = some (c, r)) :
    r.length < s.length := by
  unfold escape? at h
  split at h
  case h_9 =>
    have := length_unicodeEscape? h
    simp only [List.length_cons]
    omega
  case h_10 => simp at h
  all_goals
    obtain ⟨-, rfl⟩ := by simpa using h
    simp

/-- Reads a string behind its opening quote. -/
def stringBody? (s : Text) : Option (Text × Text) :=
  match s with
  | [] => none
  | '"' :: r => some ([], r)
  | '\\' :: r =>
    match _h : escape? r with
    | none => none
    | some (c, t) => (stringBody? t).map fun (cs, u) => (c :: cs, u)
  | c :: r =>
    if c.toNat < 0x20 then none else (stringBody? r).map fun (cs, u) => (c :: cs, u)
  termination_by s.length
  decreasing_by
    · have := length_escape? _h
      simp only [List.length_cons]
      omega
    · simp

theorem length_stringBody? {s r : Text} {cs : Text} (h : stringBody? s = some (cs, r)) :
    r.length < s.length := by
  fun_induction stringBody? s generalizing cs with
  | case1 => simp at h
  | case2 t =>
    obtain ⟨-, rfl⟩ := by simpa using h
    simp
  | case3 => simp at h
  | case4 t c u hu ih =>
    obtain ⟨⟨ds, v⟩, hv, hr⟩ := Option.map_eq_some_iff.mp h
    obtain ⟨-, rfl⟩ := by simpa using hr
    have h₁ := ih hv
    have h₂ := length_escape? hu
    simp only [List.length_cons]
    omega
  | case5 => simp at h
  | case6 c t _ _ _ ih =>
    obtain ⟨⟨ds, v⟩, hv, hr⟩ := Option.map_eq_some_iff.mp h
    obtain ⟨-, rfl⟩ := by simpa using hr
    have := ih hv
    simp only [List.length_cons]
    omega

/-! ### Documents -/

/-- The characters that may stand between tokens. -/
def isSpace (c : Char) : Bool := c == ' ' || c == '\t' || c == '\n' || c == '\r'

/-- The characters that a number is made of. -/
def isNumeral (c : Char) : Bool :=
  c.isDigit || c == '-' || c == '+' || c == '.' || c == 'e' || c == 'E'

/-- Reads the token at the front of a text that does not start with a space. -/
def first? : Text → Option (Token × Text)
  | '[' :: s => some (openArray, s)
  | ']' :: s => some (closeArray, s)
  | '\x7b' :: s => some (openObject, s)
  | '\x7d' :: s => some (closeObject, s)
  | ',' :: s => some (comma, s)
  | ':' :: s => some (colon, s)
  | '"' :: s => (stringBody? s).map fun (cs, r) => (string cs, r)
  | 'n' :: 'u' :: 'l' :: 'l' :: s => some (scalar .null, s)
  | 't' :: 'r' :: 'u' :: 'e' :: s => some (scalar (.bool true), s)
  | 'f' :: 'a' :: 'l' :: 's' :: 'e' :: s => some (scalar (.bool false), s)
  | c :: s =>
    if isNumeral c then
      (Number.read? (c :: s.takeWhile isNumeral)).map fun n =>
        (scalar (.number n), s.dropWhile isNumeral)
    else none
  | [] => none

theorem length_first? {s r : Text} {t : Token} (h : first? s = some (t, r)) :
    r.length < s.length := by
  unfold first? at h
  split at h
  case h_7 =>
    obtain ⟨⟨cs, v⟩, hv, hr⟩ := Option.map_eq_some_iff.mp h
    obtain ⟨-, rfl⟩ := by simpa using hr
    have := length_stringBody? hv
    simp only [List.length_cons]
    omega
  case h_11 c u _ _ _ _ _ _ _ _ _ _ =>
    split at h
    · obtain ⟨n, -, hr⟩ := Option.map_eq_some_iff.mp h
      obtain ⟨-, rfl⟩ := by simpa using hr
      have := (List.dropWhile_suffix isNumeral (l := u)).length_le
      simp only [List.length_cons]
      omega
    · simp at h
  case h_12 => simp at h
  all_goals
    obtain ⟨-, rfl⟩ := by simpa using h
    simp only [List.length_cons]
    omega

def all? (s : Text) : Option (List Token) :=
  match s with
  | [] => some []
  | c :: r =>
    if isSpace c then all? r
    else
      match _h : first? (c :: r) with
      | none => none
      | some (t, u) => (all? u).map (t :: ·)
  termination_by s.length
  decreasing_by
    · simp
    · exact length_first? _h

end Token

end Json

end GenreRelations
