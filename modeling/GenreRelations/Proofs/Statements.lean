import GenreRelations.Proofs.Printing
import GenreRelations.Toml.Read

/-!
Documents that are written line by line. A header is read as the table that it opens and a bare key
with a value as an assignment, whatever lines follow; so a document is read as what its lines mean,
which is `Toml.statements_unlines`.
-/

namespace GenreRelations

namespace Toml

/-! ### Keys -/

/-- The key can be written without quotes. -/
def IsBareKey (key : Text) : Prop := key ≠ [] ∧ key.all isBare = true

instance (key : Text) : Decidable (IsBareKey key) := by unfold IsBareKey; infer_instance

theorem IsBareKey.exists_cons {key : Text} (bare : IsBareKey key) :
    ∃ c cs, key = c :: cs ∧ isBare c = true := by
  obtain ⟨nonempty, each⟩ := bare
  obtain ⟨c, cs, rfl⟩ := List.exists_cons_of_ne_nil nonempty
  exact ⟨c, cs, rfl, List.all_eq_true.mp each c List.mem_cons_self⟩

theorem ne_of_isBare {c d : Char} (bare : isBare c = true) (other : isBare d = false) : c ≠ d := by
  rintro rfl
  exact Bool.false_ne_true (other.symm.trans bare)

theorem isSpace_of_isBare {c : Char} (bare : isBare c = true) : isSpace c = false := by
  have noSpace : c ≠ ' ' := ne_of_isBare bare (by decide)
  have noTab : c ≠ '\t' := ne_of_isBare bare (by decide)
  simp [isSpace, noSpace, noTab]

theorem skipSpace_cons {c : Char} (solid : isSpace c = false) (s : Text) :
    skipSpace (c :: s) = c :: s := by
  simp [skipSpace, solid]

theorem keyPart?_bare {key rest : Text} {c : Char} (bare : IsBareKey key)
    (after : isBare c = false) : keyPart? (key ++ c :: rest) = some (key, c :: rest) := by
  have each := List.all_eq_true.mp bare.2
  have taken : (key ++ c :: rest).takeWhile isBare = key := by
    rw [List.takeWhile_append_of_pos each, List.takeWhile_cons_of_neg (by simp [after]),
      List.append_nil]
  have left : (key ++ c :: rest).dropWhile isBare = c :: rest := by
    rw [List.dropWhile_append_of_pos each, List.dropWhile_cons_of_neg (by simp [after])]
  obtain ⟨k, ks, rfl, first⟩ := bare.exists_cons
  have noQuote : k ≠ '"' := ne_of_isBare first (by decide)
  have noApostrophe : k ≠ '\'' := ne_of_isBare first (by decide)
  rw [keyPart?]
  · rw [taken, left]
    rfl
  · simp [noQuote]
  · simp [noApostrophe]

theorem keyParts_bare {key rest ds : Text} {c d : Char} (bare : IsBareKey key)
    (after : isBare c = false) (behind : skipSpace (c :: rest) = d :: ds) (noPoint : d ≠ '.')
    (n : Nat) : keyParts (n + 1) (key ++ c :: rest) = some ([key], d :: ds) := by
  have start : skipSpace (key ++ c :: rest) = key ++ c :: rest := by
    obtain ⟨k, ks, rfl, first⟩ := bare.exists_cons
    exact skipSpace_cons (isSpace_of_isBare first) _
  rw [keyParts, start, keyPart?_bare bare after]
  simp only [Option.bind_eq_bind, Option.bind_some, behind]
  split
  · rename_i same
    exact absurd (List.cons.inj same).1 noPoint
  · rfl

/-- A key is read up to the first character that is no part of it. -/
theorem key?_bare {key rest ds : Text} {c d : Char} (bare : IsBareKey key)
    (after : isBare c = false) (behind : skipSpace (c :: rest) = d :: ds) (noPoint : d ≠ '.') :
    key? (key ++ c :: rest) = some (([], key), d :: ds) := by
  rw [key?, keyParts_bare bare after behind noPoint]
  rfl

/-! ### Values -/

/-- The text is read as the value, up to the end of its line. -/
structure WritesValue (s : Text) (v : Value) : Prop where
  start : ∀ rest, skipSpace (s ++ '\n' :: rest) = s ++ '\n' :: rest
  read : ∀ depth rest, value? depth (s ++ '\n' :: rest) = some (v, '\n' :: rest)

/-- The text stands for itself between double quotes. -/
def IsPlainText (s : Text) : Prop := (s.all fun c => isPlain c && c != '"' && c != '\\') = true

instance (s : Text) : Decidable (IsPlainText s) := by unfold IsPlainText; infer_instance

theorem isPlainText_cons {c : Char} {s : Text} :
    IsPlainText (c :: s) ↔ (isPlain c = true ∧ c ≠ '"' ∧ c ≠ '\\') ∧ IsPlainText s := by
  simp [IsPlainText, and_assoc]

theorem basic_plain {s : Text} (plain : IsPlainText s) (rest : Text) {n : Nat}
    (enough : s.length < n) : Quoted.basic n (s ++ '"' :: rest) = some (s, rest) := by
  induction s generalizing n with
  | nil =>
    obtain ⟨n, rfl⟩ : ∃ k, n = k + 1 := ⟨n - 1, by simp at enough; omega⟩
    rfl
  | cons c s ih =>
    obtain ⟨n, rfl⟩ : ∃ k, n = k + 1 := ⟨n - 1, by simp at enough; omega⟩
    obtain ⟨⟨plainHead, noQuote, noEscape⟩, plainTail⟩ := isPlainText_cons.mp plain
    have later := ih plainTail (n := n) (by simpa using enough)
    rw [List.cons_append, Quoted.basic]
    · rw [if_pos plainHead, later]
      rfl
    · exact noQuote
    · exact noEscape

/-- A text that stands for itself between double quotes. -/
def quoted (s : Text) : Text := '"' :: s ++ ['"']

theorem writesValue_quoted {s : Text} (plain : IsPlainText s) (nonempty : s ≠ []) :
    WritesValue (quoted s) (.string s) := by
  refine ⟨fun _ => rfl, fun depth rest => ?_⟩
  have written : quoted s ++ '\n' :: rest = '"' :: (s ++ '"' :: '\n' :: rest) := by simp [quoted]
  have single : Quoted.any? ('"' :: (s ++ '"' :: '\n' :: rest)) =
      Quoted.line? ('"' :: (s ++ '"' :: '\n' :: rest)) := by
    cases s with
    | nil => exact absurd rfl nonempty
    | cons c s =>
      -- a plain text does not start with the second of three quotes
      have noQuote : c ≠ '"' := (isPlainText_cons.mp plain).1.2.1
      rw [List.cons_append, Quoted.any?]
      · simp [noQuote]
      · simp
  rw [written, value?, single, Quoted.line?, basic_plain plain]
  · rfl
  · rw [List.length_append]
    omega

/-! ### Lines -/

/-- The line that opens a table. -/
def header (key : Text) : Text := '[' :: key ++ [']']

/-- The line that gives a value to a key. -/
def assignment (key value : Text) : Text := key ++ " = ".toList ++ value

/-- No statement starts with one of these. -/
def lineMarks : List Char := [' ', '\t', '#', '\n', '\r']

/-- What a line says, whatever follows it. -/
inductive Means : Text → List Statement → Prop
  | blank : Means [] []
  | statement {c : Char} {cs : Text} {s : Statement} (start : c ∉ lineMarks)
      (read : ∀ rest, statement? (c :: cs ++ '\n' :: rest) = some (s, rest)) : Means (c :: cs) [s]

theorem not_mem_lineMarks {c : Char} (bare : isBare c = true) : c ∉ lineMarks := by
  have none : lineMarks.all (fun d => !isBare d) = true := by decide
  intro member
  simpa [bare] using List.all_eq_true.mp none c member

theorem nextLine?_eq_none {c : Char} (start : c ∉ lineMarks) (s : Text) :
    nextLine? (c :: s) = none := by
  simp only [lineMarks, List.mem_cons, List.not_mem_nil, or_false, not_or] at start
  obtain ⟨noSpace, noTab, noComment, noFeed, noReturn⟩ := start
  have solid : isSpace c = false := by simp [isSpace, noSpace, noTab]
  rw [nextLine?, skipSpace_cons solid, skipComment]
  · simp only
    rw [lineBreak?]
    · exact fun s same => absurd (List.cons.inj same).1 noFeed
    · exact fun s same => absurd (List.cons.inj same).1 noReturn
  · exact fun s same => absurd (List.cons.inj same).1 noComment

theorem means_header {key : Text} (bare : IsBareKey key) :
    Means (header key) [.openTable [] key] := by
  obtain ⟨k, ks, rfl, first⟩ := bare.exists_cons
  have noBracket : k ≠ '[' := ne_of_isBare first (by decide)
  refine .statement (by decide) fun rest => ?_
  have named : key? (k :: ks ++ ']' :: '\n' :: rest) = some (([], k :: ks), ']' :: '\n' :: rest) :=
    key?_bare bare (by decide) rfl (by decide)
  have written : header (k :: ks) ++ '\n' :: rest = '[' :: (k :: ks ++ ']' :: '\n' :: rest) := by
    simp [header]
  refine Eq.trans (congrArg statement? written) ?_
  rw [statement?]
  · rw [named]
    rfl
  · simp [noBracket]

theorem means_assignment {key value : Text} {v : Value} (bare : IsBareKey key)
    (writes : WritesValue value v) : Means (assignment key value) [.assign [] key v] := by
  obtain ⟨k, ks, rfl, first⟩ := bare.exists_cons
  have noBracket : k ≠ '[' := ne_of_isBare first (by decide)
  refine .statement (not_mem_lineMarks first) fun rest => ?_
  have written : assignment (k :: ks) value ++ '\n' :: rest =
      k :: ks ++ ' ' :: '=' :: ' ' :: (value ++ '\n' :: rest) := by simp [assignment]
  have named : key? (k :: ks ++ ' ' :: '=' :: ' ' :: (value ++ '\n' :: rest)) =
      some (([], k :: ks), '=' :: ' ' :: (value ++ '\n' :: rest)) :=
    key?_bare bare (by decide) rfl (by decide)
  have given : assigned? (value? 79) ('=' :: ' ' :: (value ++ '\n' :: rest)) =
      some (v, '\n' :: rest) := by
    have behind : skipSpace (' ' :: (value ++ '\n' :: rest)) = value ++ '\n' :: rest :=
      writes.start rest
    rw [assigned?, behind, writes.read]
  refine Eq.trans (congrArg statement? written) ?_
  rw [statement?]
  · rw [named]
    simp only [Option.bind_eq_bind, Option.bind_some, given]
    rfl
  · simp [noBracket]
  · simp [noBracket]

theorem statements_cons {c : Char} {s r : Text} {first : Statement} {later : List Statement}
    {n : Nat} (start : c ∉ lineMarks) (read : statement? (c :: s) = some (first, r))
    (readLater : statements n r = some later) :
    statements (n + 1) (c :: s) = some (first :: later) := by
  have solid : isSpace c = false := by
    simp only [lineMarks, List.mem_cons, not_or] at start
    simp [isSpace, start]
  rw [statements, skipSpace_cons solid]
  simp only [nextLine?_eq_none start, read, readLater, Option.bind_eq_bind, Option.bind_some]
  rfl

/-- Every line of a document is read on its own. -/
theorem statements_unlines {ls : List Text} {ss : List (List Statement)}
    (means : List.Forall₂ Means ls ss) {n : Nat} (enough : ls.length < n) :
    statements n (Text.unlines ls) = some ss.flatten := by
  induction means generalizing n with
  | nil =>
    obtain ⟨n, rfl⟩ : ∃ k, n = k + 1 := ⟨n - 1, by simp at enough; omega⟩
    rfl
  | @cons l s ls ss line _ ih =>
    obtain ⟨n, rfl⟩ : ∃ k, n = k + 1 := ⟨n - 1, by simp at enough; omega⟩
    have later := ih (n := n) (by simpa using enough)
    rw [Text.unlines_cons]
    cases line with
    | blank => exact later
    | statement start read => exact statements_cons start (read _) later

end Toml

end GenreRelations
