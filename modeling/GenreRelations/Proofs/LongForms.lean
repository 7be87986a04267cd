import GenreRelations.Proofs.Listing

/-!
Lines that lose their first two words. Only a line that begins with `short for` does, though its
second word may go on behind `for`; every other line behind the first is cut before its first
remark, `given_cut_iff`. The words that are left of a line are never its cut.
-/

namespace GenreRelations

/-- Of a list that goes on as it began two places before, every item is one of the first two. -/
theorem eq_or_eq_of_mem_repeated {α : Type} {a b x : α} {l r : List α}
    (repeated : a :: b :: l = l ++ r) (member : x ∈ r) : x = a ∨ x = b := by
  induction l generalizing a b with
  | nil =>
    rw [← (show [a, b] = r from repeated)] at member
    simpa using member
  | cons c l ih =>
    obtain ⟨rfl, later⟩ := List.cons.inj repeated
    exact (ih later).symm

/-! ### Small letters -/

namespace Text

theorem CapitalRun.target_le_of_lower? {r : CapitalRun} {n m : Nat} (lower : r.lower? n = some m) :
    r.target ≤ m := by
  unfold lower? at lower
  split at lower
  · have small := Option.some.inj lower
    omega
  · cases lower

/-- No character beyond ASCII has a small letter before `k`. -/
theorem toNat_lt_of_lowerChar {c x : Char} (lowered : lowerChar c = [x])
    (early : x.toNat < 'k'.toNat) (visible : 0 < x.toNat) : c.toNat < 0x80 := by
  refine Nat.lt_of_not_le fun beyond => ?_
  have targets : ∀ r ∈ capitalsBelow500 ++ capitalsBelow2000 ++ capitalsAbove2000,
      'k'.toNat ≤ r.target := by decide +kernel
  unfold lowerChar at lowered
  rw [if_neg (Nat.not_lt.mpr beyond)] at lowered
  split at lowered
  · simp at lowered
  · dsimp only at lowered
    generalize runs : (if c.toNat < 0x500 then capitalsBelow500
      else if c.toNat < 0x2000 then capitalsBelow2000 else capitalsAbove2000) = rs at lowered
    have late : ∀ r ∈ rs, 'k'.toNat ≤ r.target := by
      intro r member
      refine targets r ?_
      subst runs
      split at member
      · simp [member]
      · split at member <;> simp [member]
    cases found : rs.findSome? fun r => r.lower? c.toNat with
    | none =>
      rw [found] at lowered
      obtain rfl : c = x := by simpa using lowered
      simp at early
      omega
    | some m =>
      obtain ⟨r, member, lower⟩ := List.exists_of_findSome?_eq_some found
      have from_target := CapitalRun.target_le_of_lower? lower
      have from_k := late r member
      rw [found] at lowered
      obtain rfl : Char.ofNat m = x := by simpa using lowered
      have value : (Char.ofNat m).toNat = m ∨ (Char.ofNat m).toNat = 0 := by
        by_cases valid : m.isValidChar
        · rw [Char.ofNat, dif_pos valid]
          exact .inl rfl
        · rw [Char.ofNat, dif_neg valid]
          exact .inr rfl
      omega

/-- What holds of the ASCII characters with a small letter before `k` holds of all. -/
theorem of_lowerChar {P : Char → Prop} {c x : Char} (lowered : lowerChar c = [x])
    (early : x.toNat < 'k'.toNat) (visible : 0 < x.toNat)
    (each : ∀ n < 0x80, lowerChar (Char.ofNat n) = [x] → P (Char.ofNat n)) : P c := by
  have holds := each c.toNat (toNat_lt_of_lowerChar lowered early visible)
  rw [Char.ofNat_toNat] at holds
  exact holds lowered

theorem eq_space_of_lowerChar {c : Char} (lowered : lowerChar c = [' ']) : c = ' ' :=
  of_lowerChar (P := (· = ' ')) lowered (by decide) (by decide) (by decide +kernel)

theorem solid_of_lowerChar {c : Char} (lowered : lowerChar c = ['f']) : isBlank c = false :=
  of_lowerChar (P := (isBlank · = false)) lowered (by decide) (by decide) (by decide +kernel)

theorem lowerChar_cases (c : Char) : (∃ x, lowerChar c = [x]) ∨ lowerChar c = ['i', '\u0307'] := by
  unfold lowerChar
  dsimp only
  split
  · exact .inl ⟨_, rfl⟩
  · split
    · exact .inr rfl
    · exact .inl ⟨_, rfl⟩

theorem exists_cons_of_prefix_lower {x : Char} {xs s : Text} (start : x :: xs <+: lower s)
    (other : x ≠ 'i') : ∃ c t, s = c :: t ∧ lowerChar c = [x] ∧ xs <+: lower t := by
  cases s with
  | nil => simp [lower] at start
  | cons c t =>
    rw [lower, List.flatMap_cons, ← lower] at start
    rcases lowerChar_cases c with ⟨y, single⟩ | dotted
    · rw [single, List.singleton_append, List.cons_prefix_cons] at start
      exact ⟨c, t, rfl, by rw [single, start.1], start.2⟩
    · rw [dotted, List.cons_append, List.cons_prefix_cons] at start
      exact absurd start.1 other

theorem exists_append_of_prefix_lower {xs ys s : Text} (start : xs ++ ys <+: lower s)
    (other : 'i' ∉ xs) : ∃ p t, s = p ++ t ∧ (∀ c ∈ p, ∃ x ∈ xs, lowerChar c = [x]) ∧
      ys <+: lower t := by
  induction xs generalizing s with
  | nil => exact ⟨[], s, rfl, by simp, start⟩
  | cons x xs ih =>
    rw [List.mem_cons, not_or] at other
    obtain ⟨c, t, rfl, first, later⟩ := exists_cons_of_prefix_lower start (Ne.symm other.1)
    obtain ⟨p, u, rfl, each, rest⟩ := ih later other.2
    refine ⟨c :: p, u, rfl, List.forall_mem_cons.mpr ⟨⟨x, List.mem_cons_self, first⟩, ?_⟩, rest⟩
    intro d member
    obtain ⟨y, isIn, small⟩ := each d member
    exact ⟨y, List.mem_cons_of_mem x isIn, small⟩

end Text

namespace Note

open Text (IsCut MarkedAt isCut_beforeFolded)

/-- The first two words of a line that begins with `short for` begin with no parenthesis. -/
theorem exists_words_of_short {line : Text} (nonempty : line ≠ []) (trimmed : line.trim = line)
    (short : "short for".toList <+: line.lower) : ∃ v w ws, line.words = v :: w :: ws ∧
      v.head? ≠ some '(' ∧ w.head? ≠ some '(' := by
  have start : "short".toList ++ " for".toList <+: line.lower := short
  obtain ⟨p, s, rfl, letters, behind⟩ := Text.exists_append_of_prefix_lower start (by decide)
  obtain ⟨c, t, rfl, space, behind⟩ := Text.exists_cons_of_prefix_lower behind (by decide)
  obtain ⟨d, u, rfl, letter, -⟩ := Text.exists_cons_of_prefix_lower behind (by decide)
  obtain rfl := Text.eq_space_of_lowerChar space
  obtain ⟨w, ws, later⟩ := Text.exists_words_cons (Text.solid_of_lowerChar letter) u
  have other : d ≠ '(' := by
    rintro rfl
    exact absurd letter (by decide)
  have plain : '(' ∉ p := by
    intro isIn
    obtain ⟨x, member, same⟩ := letters '(' isIn
    obtain rfl : '(' = x := List.singleton_inj.mp same
    exact absurd member (by decide)
  have early : ∀ v ∈ p.words, v.head? ≠ some '(' := fun v member first =>
    plain (Text.mem_of_mem_words member (List.mem_of_mem_head? first))
  have parted : (p ++ ' ' :: d :: u).words = p.words ++ (d :: w) :: ws := by
    rw [Text.words_append_blank Text.isBlank_space, later]
  cases p with
  | nil =>
    have solid := (Text.trim_eq_self_iff.mp trimmed).1 ' ' rfl
    rw [Text.isBlank_space] at solid
    cases solid
  | cons e p =>
    have solid := (Text.trim_eq_self_iff.mp trimmed).1 e rfl
    obtain ⟨v, vs, first⟩ := Text.exists_words_cons solid p
    rw [first] at parted early
    cases vs with
    | nil => exact ⟨e :: v, d :: w, ws, parted, early _ (by simp), by simpa using other⟩
    | cons x xs =>
      exact ⟨e :: v, x, xs ++ (d :: w) :: ws, parted, early _ (by simp), early _ (by simp)⟩

/-- What is left of a line without its first two words is not its cut. -/
theorem not_isCut_of_short {line : Text} (nonempty : line ≠ []) (trimmed : line.trim = line)
    (short : "short for".toList <+: line.lower) :
    ¬ IsCut remarks line (Text.unwords (line.words.drop 2)) := by
  intro cut
  obtain ⟨v, w, ws, split, first, second⟩ := exists_words_of_short nonempty trimmed short
  have words : ∀ x ∈ line.words, Text.IsWord x := fun x => Text.isWord_of_mem_words
  rw [split] at words
  rw [split, List.drop_succ_cons, List.drop_succ_cons, List.drop_zero] at cut
  have left : (Text.unwords ws).words = ws :=
    Text.words_unwords fun x member => words x (by simp [member])
  generalize Text.unwords ws = n at cut left
  cases cut with
  | whole _ =>
    -- a whole line has more words than are left of it
    have length := congrArg List.length (left.symm.trans split)
    simp only [List.length_cons] at length
    omega
  | @before i marked _ =>
    obtain ⟨t, behind⟩ := drop_of_markedAt marked
    obtain ⟨x, xs, later⟩ := Text.exists_words_cons (show Text.isBlank '(' = false by decide) t
    have parted : line.words = ws ++ ('(' :: x) :: xs := by
      rw [← List.take_append_drop i line, behind, Text.words_append_blank Text.isBlank_space, left,
        later]
    -- the words of the line go on as they began, but the remark begins with a parenthesis
    rcases eq_or_eq_of_mem_repeated (split.symm.trans parted) List.mem_cons_self with same | same
    · exact first (same ▸ rfl)
    · exact second (same ▸ rfl)

/-- A line behind the first that is no header is cut before its first remark in every note that has
it, unless it begins with `short for`: then each of these notes has what is left of it without its
first two words. -/
theorem given_cut_iff {note line : Text} (member : line ∈ entries note)
    (named : line.lower ≠ "alternative names:".toList) :
    ((∀ other ns, names other = .ok ns → line ∈ (entries other).tail →
      ∃ n ∈ ns, IsCut remarks line n) ↔ ¬ "short for".toList <+: line.lower) ∧
    ("short for".toList <+: line.lower → ∀ other ns, names other = .ok ns →
      line ∈ (entries other).tail → Text.unwords (line.words.drop 2) ∈ ns) := by
  obtain ⟨nonempty, trimmed, feedFree⟩ := of_mem_entries member
  have given : ∀ {other ns n}, names other = .ok ns → line ∈ (entries other).tail →
      lineName? line = some n → n ∈ ns := fun read later name =>
    (mem_names_iff read).mpr (.inr ⟨line, later, name⟩)
  refine ⟨⟨fun cut short => ?_, fun long other ns read later => ?_⟩,
    fun short other ns read later => given read later (lineName?_of_short short)⟩
  · -- alone in a note, the line gives one name, which is not its cut
    have lines : entries (listing [line]) = ["Alternative names:".toList, line] :=
      entries_listing (by simpa using ⟨nonempty, trimmed, feedFree⟩)
    have read := names_of_header lines
    obtain ⟨n, isIn, isCut⟩ := cut _ _ read (by simp [lines])
    rw [Text.mem_sorted, List.filterMap_cons_some (lineName?_of_short short), List.filterMap_nil,
      List.mem_singleton] at isIn
    exact not_isCut_of_short nonempty trimmed short (isIn ▸ isCut)
  · exact ⟨_, given read later (lineName?_of_long named long), isCut_beforeFolded remarks line⟩

theorem given_cut_iff_plural :
    "Breaks (Plural)".toList ∈
      entries "Alternative names:\nBreaks (Plural)\nShort Form Jungle".toList ∧
    (∃ n ∈ ["Breaks".toList, "Jungle".toList], IsCut remarks "Breaks (Plural)".toList n) ∧
    "Short Form Jungle".toList ∈
      entries "Alternative names:\nBreaks (Plural)\nShort Form Jungle".toList ∧
    Text.unwords ((Text.words "Short Form Jungle".toList).drop 2) ∈
      ["Breaks".toList, "Jungle".toList] := by
  have read : names "Alternative names:\nBreaks (Plural)\nShort Form Jungle".toList =
      .ok ["Breaks".toList, "Jungle".toList] := by rfl
  have lines : entries "Alternative names:\nBreaks (Plural)\nShort Form Jungle".toList =
      ["Alternative names:".toList, "Breaks (Plural)".toList, "Short Form Jungle".toList] := by
    decide
  have plural : "Breaks (Plural)".toList ∈
      entries "Alternative names:\nBreaks (Plural)\nShort Form Jungle".toList := by
    rw [lines]
    decide
  have short : "Short Form Jungle".toList ∈
      entries "Alternative names:\nBreaks (Plural)\nShort Form Jungle".toList := by
    rw [lines]
    decide
  obtain ⟨cut, -⟩ := given_cut_iff plural (by decide)
  obtain ⟨-, left⟩ := given_cut_iff short (by decide)
  exact ⟨plural, cut.mpr (by decide) _ _ read (by rw [lines]; decide), short,
    left (by decide) _ _ read (by rw [lines]; decide)⟩

/-- The second word of this line only begins with `for`. -/
theorem not_given_cut : ¬ ∀ note ns line, names note = .ok ns → line ∈ (entries note).tail →
    line.lower ≠ "alternative names:".toList →
    (line.words.take 2).map Text.lower ≠ ["short".toList, "for".toList] →
    ∃ n ∈ ns, IsCut remarks line n := by
  intro all
  have read : names "Alternative names:\nShort Form Jungle".toList = .ok ["Jungle".toList] := by
    rfl
  have words : Text.words "Short Form Jungle".toList =
      ["Short".toList, "Form".toList, "Jungle".toList] := by rfl
  obtain ⟨n, member, cut⟩ :=
    all _ _ "Short Form Jungle".toList read (by decide) (by decide) (by rw [words]; decide)
  rw [List.mem_singleton.mp member] at cut
  have whole := cut.unique (isCut_beforeFolded remarks "Short Form Jungle".toList)
  exact absurd whole (by decide)

end Note

end GenreRelations
