import GenreRelations.Proofs.Notes
import GenreRelations.Proofs.Words

/-!
Names and the remarks behind them. A line is cut where its first remark begins, and a line that
begins with `short for` loses its first two words. Either cut can leave what is no name:
`names_tidy_iff` says which lines do.
-/

namespace GenreRelations

namespace Text

/-! ### Cutting at marks -/

/-- One of the marks stands at this place of the text, whatever the case of its letters. -/
def MarkedAt (marks : List Text) (s : Text) (i : Nat) : Prop :=
  ∃ mark ∈ marks, mark <+: (s.drop i).map foldChar

/-- What is left of the text is what stands before its first mark, or all of it if it has none. -/
inductive IsCut (marks : List Text) (s : Text) : Text → Prop
  | whole (unmarked : ∀ i, ¬ MarkedAt marks s i) : IsCut marks s s
  | before {i : Nat} (marked : MarkedAt marks s i) (first : ∀ j < i, ¬ MarkedAt marks s j) :
    IsCut marks s (s.take i)

theorem startsWithFolded_iff {mark s : Text} :
    startsWithFolded mark s = true ↔ mark <+: s.map foldChar := by
  fun_induction startsWithFolded mark s with
  | case1 s => simp
  | case2 m mark => simp
  | case3 m mark c s ih =>
    rw [List.map_cons, List.cons_prefix_cons, Bool.and_eq_true, ih, beq_iff_eq, eq_comm]

theorem any_startsWithFolded {marks : List Text} {s : Text} :
    (marks.any fun mark => startsWithFolded mark s) = true ↔ MarkedAt marks s 0 := by
  simp [MarkedAt, startsWithFolded_iff]

theorem markedAt_nil {marks : List Text} {i : Nat} :
    MarkedAt marks [] i ↔ MarkedAt marks [] 0 := by
  rw [MarkedAt, List.drop_nil, MarkedAt, List.drop_zero]

theorem IsCut.cons {marks : List Text} {s p : Text} {c : Char} (cut : IsCut marks s p)
    (unmarked : ¬ MarkedAt marks (c :: s) 0) : IsCut marks (c :: s) (c :: p) := by
  cases cut with
  | whole none =>
    refine .whole fun i => ?_
    cases i with
    | zero => exact unmarked
    | succ i => exact none i
  | @before i marked first =>
    refine .before (i := i + 1) marked fun j before => ?_
    cases j with
    | zero => exact unmarked
    | succ j => exact first j (by omega)

theorem isCut_beforeFolded (marks : List Text) (s : Text) :
    IsCut marks s (beforeFolded marks s) := by
  induction s with
  | nil =>
    by_cases marked : MarkedAt marks [] 0
    · exact .before marked (by simp)
    · exact .whole fun i => mt markedAt_nil.mp marked
  | cons c s ih =>
    by_cases marked : MarkedAt marks (c :: s) 0
    · rw [beforeFolded, if_pos (any_startsWithFolded.mpr marked)]
      exact .before marked (by simp)
    · rw [beforeFolded, if_neg (mt any_startsWithFolded.mp marked)]
      exact ih.cons marked

/-- A text is cut in one way. -/
theorem IsCut.unique {marks : List Text} {s p q : Text} (cut : IsCut marks s p)
    (other : IsCut marks s q) : p = q := by
  cases cut with
  | whole unmarked =>
    cases other with
    | whole _ => rfl
    | @before i marked _ => exact absurd marked (unmarked i)
  | @before i marked first =>
    cases other with
    | whole unmarked => exact absurd marked (unmarked i)
    | @before j found early =>
      obtain rfl : i = j := Nat.le_antisymm (Nat.not_lt.mp fun before => first j before found)
        (Nat.not_lt.mp fun before => early i before marked)
      rfl

/-! ### Ends of cut texts -/

/-- Only letters are folded. -/
theorem eq_of_foldChar {c x : Char} (folded : foldChar c = x) (other : x.toNat < 'a'.toNat) :
    c = x := by
  subst folded
  unfold foldChar at other ⊢
  split at other
  · rename_i capital
    have from_A : 'A'.toNat ≤ c.toNat := capital.1
    have to_Z : c.toNat ≤ 'Z'.toNat := capital.2
    have small : (Char.ofNat (c.toNat + 32)).toNat = c.toNat + 32 := by
      rw [Char.ofNat, dif_pos (.inl (by simp at to_Z; omega))]
      rfl
    rw [small] at other
    exact absurd other (by simp at from_A ⊢; omega)
  · split at other
    · exact absurd other (by decide)
    · split at other
      · exact absurd other (by decide)
      · simp [*]

theorem unwords_eq_nil_iff {ws : List Text} (words : ∀ w ∈ ws, IsWord w) :
    unwords ws = [] ↔ ws = [] := by
  cases ws with
  | nil => simp [unwords_nil]
  | cons w ws =>
    obtain ⟨c, t, rfl⟩ := List.exists_cons_of_ne_nil (words w List.mem_cons_self).1
    simp [unwords_cons_char]

theorem trim_unwords {ws : List Text} (words : ∀ w ∈ ws, IsWord w) :
    trim (unwords ws) = unwords ws := by
  refine trim_eq_self_iff.mpr ⟨fun c first => ?_, fun c last => ?_⟩
  · cases ws with
    | nil => simp [unwords_nil] at first
    | cons w ws =>
      obtain ⟨nonempty, solid⟩ := words w List.mem_cons_self
      obtain ⟨d, t, rfl⟩ := List.exists_cons_of_ne_nil nonempty
      rw [unwords_cons_char, List.head?_cons, Option.some.injEq] at first
      exact first ▸ solid d List.mem_cons_self
  · rcases List.eq_nil_or_concat ws with rfl | ⟨vs, w, rfl⟩
    · simp [unwords_nil] at last
    · rw [List.concat_eq_append] at words last
      obtain ⟨nonempty, solid⟩ := words w (by simp)
      obtain ⟨t, d, rfl⟩ := (List.eq_nil_or_concat w).resolve_left nonempty
      rw [List.concat_eq_append, unwords_concat_char, List.getLast?_concat, Option.some.injEq]
        at last
      exact last ▸ solid d (by simp)

end Text

namespace Note

open Text (IsCut MarkedAt isCut_beforeFolded)

/-! ### Lines and their names -/

theorem lineName?_of_short {line : Text} (short : "short for".toList <+: line.lower) :
    lineName? line = some (Text.unwords (line.words.drop 2)) := by
  have noHeader : line.lower ≠ "alternative names:".toList := by
    intro header
    rw [header] at short
    revert short
    decide
  rw [lineName?, Line.ofText, if_neg noHeader, if_pos (List.isPrefixOf_iff_prefix.mpr short)]
  rfl

theorem lineName?_of_long {line : Text} (named : line.lower ≠ "alternative names:".toList)
    (long : ¬ "short for".toList <+: line.lower) :
    lineName? line = some (Text.beforeFolded remarks line) := by
  rw [lineName?, Line.ofText, if_neg named, if_neg (mt List.isPrefixOf_iff_prefix.mp long)]
  rfl

/-- Only the header gives no name. -/
theorem lineName?_eq_none_iff {line : Text} :
    lineName? line = none ↔ line.lower = "alternative names:".toList := by
  constructor
  · intro unnamed
    by_contra named
    by_cases short : "short for".toList <+: line.lower
    · simp [lineName?_of_short short] at unnamed
    · simp [lineName?_of_long named short] at unnamed
  · intro header
    rw [lineName?, Line.ofText, if_pos header]
    rfl

theorem of_mem_entries {note line : Text} (member : line ∈ entries note) :
    line ≠ [] ∧ line.trim = line ∧ '\n' ∉ line := by
  rw [entries_eq, List.mem_filter, List.mem_map] at member
  obtain ⟨⟨piece, isPiece, rfl⟩, nonempty⟩ := member
  refine ⟨by simpa using nonempty, Text.trim_trim piece, fun feed => ?_⟩
  have other := Text.eq_false_of_mem_splitOnP isPiece '\n' (Text.mem_of_mem_trim feed)
  simp at other

/-- The names of a note are those of its lines, but for a first line that opens it in other words
than the header. -/
theorem mem_names_iff {note : Text} {ns : List Text} (read : names note = .ok ns) {n : Text} :
    n ∈ ns ↔ (∃ line, (entries note).head? = some line ∧ openingName? line = some n) ∨
      ∃ line ∈ (entries note).tail, lineName? line = some n := by
  cases lines : entries note with
  | nil =>
    rw [names_of_nil lines] at read
    obtain rfl := Except.ok.inj read
    simp
  | cons line rest =>
    by_cases opens : Opens line
    · rw [names_of_opens lines opens] at read
      obtain rfl := Except.ok.inj read
      simp [Text.mem_sorted, List.mem_append, List.mem_filterMap]
    · simp [names_of_not_opens lines opens] at read

/-! ### Names that hold nothing, or blanks at their ends -/

/-- The name holds something, and nothing blank at its ends. -/
structure IsTidy (n : Text) : Prop where
  nonempty : n ≠ []
  trimmed : n.trim = n

/-- What is left of the line is no name: nothing stands behind `short for`, or more than one blank
before its first remark. -/
inductive Spoils (s : Text) : Prop
  | unnamed (short : "short for".toList <+: s.lower) (few : s.words.length ≤ 2)
  | loose {i : Nat} {c : Char} (long : ¬ "short for".toList <+: s.lower)
    (marked : MarkedAt remarks s (i + 1)) (first : ∀ j ≤ i, ¬ MarkedAt remarks s j)
    (stands : s[i]? = some c) (blank : Text.isBlank c = true)

theorem isTidy_unwords_iff {ws : List Text} (words : ∀ w ∈ ws, Text.IsWord w) :
    IsTidy (Text.unwords ws) ↔ ws ≠ [] :=
  ⟨fun tidy => mt (Text.unwords_eq_nil_iff words).mpr tidy.nonempty,
    fun nonempty => ⟨mt (Text.unwords_eq_nil_iff words).mp nonempty, Text.trim_unwords words⟩⟩

/-- A remark begins with a space and a parenthesis. -/
theorem drop_of_markedAt {line : Text} {i : Nat} (marked : MarkedAt remarks line i) :
    ∃ t, line.drop i = ' ' :: '(' :: t := by
  obtain ⟨mark, member, start⟩ := marked
  obtain ⟨word, rfl⟩ : ∃ word, mark = ' ' :: '(' :: word := by
    rcases List.mem_cons.mp member with rfl | member
    · exact ⟨_, rfl⟩
    · rcases List.mem_cons.mp member with rfl | member
      · exact ⟨_, rfl⟩
      · exact ⟨_, List.mem_singleton.mp member⟩
  obtain ⟨more, folded⟩ := start
  obtain ⟨c, s, behind, space, folded⟩ := List.map_eq_cons_iff.mp folded.symm
  obtain ⟨d, t, rfl, parenthesis, -⟩ := List.map_eq_cons_iff.mp folded
  obtain rfl := Text.eq_of_foldChar space (by decide)
  obtain rfl := Text.eq_of_foldChar parenthesis (by decide)
  exact ⟨t, behind⟩

/-- The lines that announce names give none themselves, so there is nothing to spoil. -/
theorem not_spoils_of_announcing {line s : Text}
    (announcing : s ∈ "alternative names:".toList :: openings) (same : line.lower = s) :
    ¬ Spoils line := by
  have plain : ∀ s ∈ "alternative names:".toList :: openings,
      ¬ "short for".toList <+: s ∧ '(' ∉ s := by decide
  obtain ⟨long, plain⟩ := plain s announcing
  rw [← same] at long plain
  intro spoils
  cases spoils with
  | unnamed short _ => exact long short
  | @loose i _ _ marked _ _ _ =>
    obtain ⟨t, behind⟩ := drop_of_markedAt marked
    have isIn : '(' ∈ line.drop (i + 1) := by simp [behind]
    exact plain (List.mem_flatMap.mpr ⟨'(', List.mem_of_mem_drop isIn, by decide⟩)

/-- A line without remarks is left whole. -/
theorem unmarked_iff {line : Text} :
    (∀ i, ¬ MarkedAt remarks line i) ↔ Text.beforeFolded remarks line = line := by
  have cut := isCut_beforeFolded remarks line
  refine ⟨fun unmarked => cut.unique (.whole unmarked), fun same => ?_⟩
  generalize Text.beforeFolded remarks line = left at cut same
  cases cut with
  | whole unmarked => exact unmarked
  | @before i marked first =>
    obtain ⟨t, behind⟩ := drop_of_markedAt marked
    have length := congrArg List.length same
    have shorter := congrArg List.length behind
    rw [List.length_take] at length
    rw [List.length_drop, List.length_cons] at shorter
    omega

theorem isTidy_take_iff {s : Text} {i : Nat} {c : Char} (trimmed : s.trim = s)
    (stands : s[i]? = some c) : IsTidy (s.take (i + 1)) ↔ Text.isBlank c = false := by
  have nonempty : s.take (i + 1) ≠ [] := by
    rintro empty
    rw [List.take_add_one, stands] at empty
    simp at empty
  have last : (s.take (i + 1)).getLast? = some c := by simp [List.take_add_one, stands]
  constructor
  · intro tidy
    exact (Text.trim_eq_self_iff.mp tidy.trimmed).2 c last
  · intro solid
    refine ⟨nonempty, Text.trim_eq_self_iff.mpr ⟨fun d first => ?_, fun d found => ?_⟩⟩
    · rw [List.head?_take, if_neg (by omega)] at first
      exact (Text.trim_eq_self_iff.mp trimmed).1 d first
    · rw [last, Option.some.injEq] at found
      exact found ▸ solid

section

variable {line n : Text} (nonempty : line ≠ []) (trimmed : line.trim = line)

include nonempty trimmed

theorem isTidy_cut_iff (long : ¬ "short for".toList <+: line.lower)
    (cut : IsCut remarks line n) : IsTidy n ↔ ¬ Spoils line := by
  cases cut with
  | whole unmarked =>
    refine ⟨fun _ spoils => ?_, fun _ => ⟨nonempty, trimmed⟩⟩
    cases spoils with
    | unnamed short _ => exact long short
    | loose _ marked _ _ _ => exact unmarked _ marked
  | @before i marked first =>
    obtain ⟨t, behind⟩ := drop_of_markedAt marked
    cases i with
    | zero =>
      -- a line starts with no blank, so no remark stands at its start
      have start : line.head? = some ' ' := by rw [← List.drop_zero (l := line), behind]; rfl
      have solid := (Text.trim_eq_self_iff.mp trimmed).1 ' ' start
      rw [Text.isBlank_space] at solid
      cases solid
    | succ i =>
      have within : i + 1 < line.length := by
        rw [← Nat.sub_pos_iff_lt, ← List.length_drop, behind]
        simp
      have stands := List.getElem?_eq_getElem (l := line) (Nat.lt_of_succ_lt within)
      rw [isTidy_take_iff trimmed stands]
      constructor
      · intro solid spoils
        cases spoils with
        | unnamed short _ => exact long short
        | @loose j d _ found early there blank =>
          obtain rfl : j = i := by
            have notBefore : ¬ j < i := fun before => first (j + 1) (by omega) found
            have notBehind : ¬ i < j := fun before => early (i + 1) (by omega) marked
            omega
          rw [stands, Option.some.injEq] at there
          rw [there, blank] at solid
          cases solid
      · intro whole
        refine Bool.eq_false_iff.mpr fun blank => whole ?_
        exact .loose long marked (fun j before => first j (by omega)) stands blank

theorem isTidy_lineName?_iff (given : lineName? line = some n) : IsTidy n ↔ ¬ Spoils line := by
  by_cases short : "short for".toList <+: line.lower
  · rw [lineName?_of_short short, Option.some.injEq] at given
    have words : ∀ w ∈ line.words.drop 2, Text.IsWord w := fun w member =>
      Text.isWord_of_mem_words (List.mem_of_mem_drop member)
    rw [← given, isTidy_unwords_iff words, ne_eq, List.drop_eq_nil_iff, not_iff_not]
    refine ⟨.unnamed short, fun spoils => ?_⟩
    cases spoils with
    | unnamed _ few => exact few
    | loose long _ _ _ _ => exact absurd short long
  · have named : line.lower ≠ "alternative names:".toList :=
      mt lineName?_eq_none_iff.mpr (by simp [given])
    rw [lineName?_of_long named short, Option.some.injEq] at given
    exact isTidy_cut_iff nonempty trimmed short (given ▸ isCut_beforeFolded remarks line)

theorem forall_isTidy_lineName?_iff :
    (∀ n, lineName? line = some n → IsTidy n) ↔ ¬ Spoils line := by
  cases given : lineName? line with
  | some n => simp [isTidy_lineName?_iff nonempty trimmed given]
  | none => simp [not_spoils_of_announcing (.head _) (lineName?_eq_none_iff.mp given)]

theorem forall_isTidy_openingName?_iff :
    (∀ n, openingName? line = some n → IsTidy n) ↔ ¬ Spoils line := by
  rw [openingName?]
  split
  · rename_i listed
    have opening : line.lower ∈ openings := by simpa using listed
    simp [not_spoils_of_announcing (.tail _ opening) rfl]
  · exact forall_isTidy_lineName?_iff nonempty trimmed

end

/-- The names of a note all hold something, and nothing blank at their ends, exactly if none of its
lines is left without words behind `short for`, or with a blank before its first remark. -/
theorem names_tidy_iff {note : Text} {ns : List Text} (read : names note = .ok ns) :
    (∀ n ∈ ns, IsTidy n) ↔ ∀ line ∈ entries note, ¬ Spoils line := by
  have member : ∀ n, n ∈ ns ↔ _ := fun n => mem_names_iff read
  cases lines : entries note with
  | nil => simp [member, lines]
  | cons line rest =>
    have each : ∀ l ∈ line :: rest, l ≠ [] ∧ l.trim = l := by
      intro l isIn
      obtain ⟨nonempty, trimmed, -⟩ := of_mem_entries (lines ▸ isIn)
      exact ⟨nonempty, trimmed⟩
    obtain ⟨⟨nonempty, trimmed⟩, later⟩ := List.forall_mem_cons.mp each
    rw [List.forall_mem_cons, ← forall_isTidy_openingName?_iff nonempty trimmed]
    simp only [member, lines, List.head?_cons, List.tail_cons, Option.some.injEq]
    constructor
    · intro tidy
      refine ⟨fun n given => tidy n (.inl ⟨line, rfl, given⟩), fun l isIn => ?_⟩
      obtain ⟨nonempty, trimmed⟩ := later l isIn
      rw [← forall_isTidy_lineName?_iff nonempty trimmed]
      exact fun n given => tidy n (.inr ⟨l, isIn, given⟩)
    · rintro ⟨first, others⟩ n (⟨l, rfl, given⟩ | ⟨l, isIn, given⟩)
      · exact first n given
      · obtain ⟨nonempty, trimmed⟩ := later l isIn
        exact (isTidy_lineName?_iff nonempty trimmed given).mpr (others l isIn)

theorem names_tidy_iff_long :
    names "Alternative names:\nDnB (Plural)\nshort for Drum & Bass".toList =
      .ok ["DnB".toList, "Drum & Bass".toList] ∧
    ∀ line ∈ ["Alternative names:".toList, "DnB (Plural)".toList, "short for Drum & Bass".toList],
      ¬ Spoils line := by
  have read : names "Alternative names:\nDnB (Plural)\nshort for Drum & Bass".toList =
      .ok ["DnB".toList, "Drum & Bass".toList] := by rfl
  have tidy : ∀ n ∈ ["DnB".toList, "Drum & Bass".toList], IsTidy n :=
    List.forall_mem_cons.mpr ⟨⟨by decide, by decide⟩,
      List.forall_mem_singleton.mpr ⟨by decide, by decide⟩⟩
  exact ⟨read, (names_tidy_iff read).mp tidy⟩

/-- Nothing stands behind `short for` here, and two blanks before the remark. -/
theorem not_names_tidy : ¬ ∀ note ns, names note = .ok ns → ∀ n ∈ ns, IsTidy n := by
  intro all
  have read : names "Alternative names:\nShort for\nFilthstep  (retronym)".toList =
      .ok [[], "Filthstep ".toList] := by rfl
  have tidy := all _ _ read
  exact (tidy [] List.mem_cons_self).nonempty rfl

end Note

end GenreRelations
