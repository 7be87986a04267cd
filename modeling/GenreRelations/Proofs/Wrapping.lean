import GenreRelations.Proofs.Parentheses
import GenreRelations.Proofs.Parsing
import GenreRelations.Proofs.Pieces

/-!
Parentheses around a whole expression. They join its first and its last name, wherever the blanks
of the text are, and make one group of all of it: `Segment.encloses_parenthesized`. A group that is
all of a level is read as what is inside it, so that any number of them leaves the tree as it is,
`Tree.parse_wrapped`.
-/

namespace GenreRelations

open Expression (Mixed)
open Segment (Alternating IsLevel Stays ofWords tokenize)

namespace Text

/-- The text between as many opening and closing parentheses. -/
def wrapped (k : Nat) (s : Text) : Text := List.replicate k '(' ++ s ++ List.replicate k ')'

theorem wrapped_succ (k : Nat) (s : Text) : wrapped (k + 1) s = '(' :: wrapped k s ++ [')'] := by
  unfold wrapped
  rw [List.replicate_succ, List.replicate_succ']
  simp

/-! ### Words next to a parenthesis -/

/-- A parenthesis before a text is put before its first word, or stands alone before a blank. -/
theorem words_opening (s : Text) : ∃ w ws, words s = ([w].filter fun v => !v.isEmpty) ++ ws ∧
    words ('(' :: s) = ('(' :: w) :: ws := by
  have paren : isBlank '(' = false := by decide
  have word : ∀ w : Text, (∀ c ∈ w, isBlank c = false) → words ('(' :: w) = ['(' :: w] :=
    fun w solid => words_of_isWord ⟨by simp, by simpa [paren] using solid⟩
  rcases exists_first_blank s with solid | ⟨first, b, after, rfl, blank, solid⟩
  · exact ⟨s, [], by rw [words_of_solid solid, List.append_nil], word s solid⟩
  · refine ⟨first, words after, ?_, ?_⟩
    · rw [words_append_blank blank, words_of_solid solid]
    · rw [← List.cons_append, words_append_blank blank, word first solid]
      rfl

/-- A parenthesis behind a text is put behind its last word, or stands alone behind a blank. -/
theorem words_closing (s : Text) : ∃ ws w, words s = ws ++ ([w].filter fun v => !v.isEmpty) ∧
    words (s ++ [')']) = ws ++ [w ++ [')']] := by
  have paren : isBlank ')' = false := by decide
  have word : ∀ w : Text, (∀ c ∈ w, isBlank c = false) → words (w ++ [')']) = [w ++ [')']] := by
    intro w solid
    refine words_of_isWord ⟨by simp, fun c isIn => ?_⟩
    rcases List.mem_append.mp isIn with isIn | isIn
    · exact solid c isIn
    · rwa [List.mem_singleton.mp isIn]
  rcases exists_last_blank s with solid | ⟨before, b, last, rfl, blank, solid⟩
  · exact ⟨[], s, words_of_solid solid, word s solid⟩
  · refine ⟨words before, last, ?_, ?_⟩
    · rw [words_append_blank blank, words_of_solid solid]
    · rw [List.append_assoc, List.cons_append, words_append_blank blank, word last solid]

end Text

namespace Segment

/-! ### Segments next to a parenthesis -/

theorem exists_ofWords_append_plain (vs : List Text) : ∃ front c, ∀ ws, ws ≠ [] →
    (∀ w ∈ ws, Symbol.ofWord? w = none) →
      ofWords (vs ++ ws) = front ++ [name (c ++ Text.unwords ws)] := by
  induction vs with
  | nil => exact ⟨[], [], fun ws nonempty plain => ofWords_plain nonempty plain⟩
  | cons v vs ih =>
    obtain ⟨front, c, ending⟩ := ih
    cases symbol : Symbol.ofWord? v with
    | some s =>
      refine ⟨.symbol s :: front, c, fun ws nonempty plain => ?_⟩
      rw [List.cons_append, ofWords, symbol, ending ws nonempty plain]
      rfl
    | none =>
      rcases front with _ | ⟨n | s, front⟩
      · refine ⟨[], v ++ ' ' :: c, fun ws nonempty plain => ?_⟩
        rw [List.cons_append, ofWords, symbol, ending ws nonempty plain]
        simp
      · refine ⟨.name (v ++ ' ' :: n) :: front, c, fun ws nonempty plain => ?_⟩
        rw [List.cons_append, ofWords, symbol, ending ws nonempty plain]
        rfl
      · refine ⟨.name v :: .symbol s :: front, c, fun ws nonempty plain => ?_⟩
        rw [List.cons_append, ofWords, symbol, ending ws nonempty plain]
        rfl

theorem exists_ofWords_cons_plain (ws : List Text) : ∃ c rest, ∀ w, Symbol.ofWord? w = none →
    ofWords (w :: ws) = .name (w ++ c) :: rest := by
  cases later : ofWords ws with
  | nil => exact ⟨[], [], fun w plain => by rw [ofWords, plain, later, List.append_nil]⟩
  | cons s ss =>
    cases s with
    | name n => exact ⟨' ' :: n, ss, fun w plain => by rw [ofWords, plain, later]⟩
    | symbol s =>
      exact ⟨[], .symbol s :: ss, fun w plain => by rw [ofWords, plain, later, List.append_nil]⟩

theorem tokenize_opening {s a : Text} {rest : List Segment} (first : tokenize s = .name a :: rest) :
    ∃ n, tokenize ('(' :: s) = .name ('(' :: n) :: rest ∧ (n = a ∨ n = ' ' :: a) := by
  obtain ⟨w, ws, words, opened⟩ := Text.words_opening s
  rw [tokenize, words] at first
  rw [tokenize, opened]
  cases w with
  | nil =>
    -- the text starts with a blank, and the parenthesis is a word before its first one
    change ofWords ws = _ at first
    rw [ofWords, Text.ofWord?_opening, first]
    exact ⟨' ' :: a, rfl, .inr rfl⟩
  | cons d w =>
    change ofWords ((d :: w) :: ws) = _ at first
    obtain ⟨c, later, start⟩ := exists_ofWords_cons_plain ws
    have plain : Symbol.ofWord? (d :: w) = none := by
      cases symbol : Symbol.ofWord? (d :: w) with
      | none => rfl
      | some t => simp [ofWords, symbol] at first
    rw [start _ plain] at first
    obtain ⟨same, rfl⟩ := List.cons.inj first
    obtain rfl := Segment.name.inj same
    exact ⟨_, start _ (Text.ofWord?_opening _), .inl rfl⟩

/-- Where words end with a name, others may stand in the place of the last word. -/
theorem ofWords_concat_name {ws : List Text} {w b : Text} {front : List Segment}
    (last : ofWords (ws ++ [w]) = front ++ [.name b]) :
    Symbol.ofWord? w = none ∧ ∃ c, b = c ++ w ∧ ∀ us, us ≠ [] →
      (∀ u ∈ us, Symbol.ofWord? u = none) →
        ofWords (ws ++ us) = front ++ [.name (c ++ Text.unwords us)] := by
  have plain : Symbol.ofWord? w = none := by
    cases symbol : Symbol.ofWord? w with
    | none => rfl
    | some t =>
      rw [← Symbol.text_of_ofWord? symbol, ofWords_append_symbol] at last
      simp [ofWords] at last
  obtain ⟨before, c, ending⟩ := exists_ofWords_append_plain ws
  have alone := ending [w] (by simp) (by simpa using plain)
  rw [alone, Text.unwords_singleton] at last
  obtain ⟨rfl, same⟩ := List.append_inj' last rfl
  have name : c ++ w = b := by simpa using same
  exact ⟨plain, c, name.symm, ending⟩

theorem tokenize_closing {s b : Text} {front : List Segment}
    (last : tokenize s = front ++ [.name b]) :
    ∃ m, tokenize (s ++ [')']) = front ++ [.name (m ++ [')'])] ∧ (m = b ∨ m = b ++ [' ']) := by
  obtain ⟨ws, w, words, closed⟩ := Text.words_closing s
  rw [tokenize, words] at last
  rw [tokenize, closed]
  cases w with
  | nil =>
    -- the text ends with a blank, and the parenthesis is a word behind its last one
    change ofWords (ws ++ []) = _ at last
    rw [List.append_nil] at last
    have nonempty : ws ≠ [] := by
      rintro rfl
      simp [ofWords] at last
    obtain ⟨vs, v, rfl⟩ := (List.eq_nil_or_concat ws).resolve_left nonempty
    rw [List.concat_eq_append] at last ⊢
    obtain ⟨plain, c, rfl, ending⟩ := ofWords_concat_name last
    have plainToo : ∀ w ∈ [v, [')']], Symbol.ofWord? w = none := by
      simpa using And.intro plain (Text.ofWord?_closing [])
    have behind := ending [v, [')']] (by simp) plainToo
    refine ⟨c ++ v ++ [' '], ?_, .inr rfl⟩
    rw [List.append_assoc, List.nil_append]
    exact behind.trans (by simp [Text.unwords_cons_cons, Text.unwords_singleton])
  | cons d w =>
    change ofWords (ws ++ [d :: w]) = _ at last
    obtain ⟨-, c, rfl, ending⟩ := ofWords_concat_name last
    have plain : ∀ u ∈ [d :: w ++ [')']], Symbol.ofWord? u = none := by
      simpa using Text.ofWord?_closing (d :: w)
    refine ⟨c ++ d :: w, ?_, .inl rfl⟩
    rw [ending _ (by simp) plain, Text.unwords_singleton, List.append_assoc]

/-- The segments of a text in parentheses are those of the text in parentheses. -/
theorem encloses_parenthesized {s : Text} (alternating : Alternating (tokenize s))
    (several : 2 ≤ (tokenize s).length) :
    Group.Encloses (tokenize ('(' :: s ++ [')'])) (tokenize s) ∧
      Alternating (tokenize ('(' :: s ++ [')'])) := by
  obtain ⟨a, ms, b, parts⟩ := alternating.ends several
  obtain ⟨n, opened, opening⟩ := tokenize_opening parts
  obtain ⟨m, closed, closing⟩ := @tokenize_closing _ b (.name ('(' :: n) :: ms) opened
  have outer : tokenize ('(' :: s ++ [')']) =
      .name ('(' :: n) :: (ms ++ [.name (m ++ [')'])]) := closed
  have proper := proper_tokenize ('(' :: s ++ [')'])
  rw [parts] at alternating ⊢
  rw [outer] at proper ⊢
  refine ⟨.intro opening closing, ?_⟩
  have last : Text.IsName (m ++ [')']) :=
    (@Proper.of_append (.name ('(' :: n) :: ms) _ proper).2.1
  exact @Alternating.with_last (.name ('(' :: n) :: ms) _ _ (alternating.with_head proper.1) last

theorem stays_of_running {d : Int} {ss : List Segment}
    (running : ∀ front back, ss = front ++ back → front ≠ [] → 0 < d + balance front) :
    Stays d ss := by
  induction ss generalizing d with
  | nil => trivial
  | cons s ss ih =>
    have first := running [s] ss rfl (by simp)
    rw [balance_singleton] at first
    refine ⟨first, ih fun front back parts _ => ?_⟩
    have later := running (s :: front) back (by rw [parts]; rfl) (by simp)
    rw [balance] at later
    omega

end Segment

/-! ### Expressions in parentheses -/

/-- A level of several relations that is read as the tree, and closes what it opens but nothing
before it. -/
structure Whole (ss : List Segment) (t : Tree) : Prop where
  reads : Reads ss t
  mixed : Mixed ss
  stays : Stays 1 ss.dropLast
  balanced : Segment.balance ss = 0

namespace Whole

variable {ss : List Segment} {t : Tree}

theorem several (whole : Whole ss t) : 2 ≤ ss.length := by
  obtain ⟨r, isIn, -⟩ := whole.mixed
  obtain ⟨s, symbol, -⟩ := Expression.mem_relationsOf.mp isIn
  exact whole.reads.isLevel.alternating.several symbol

theorem enclosed (whole : Whole ss t) {outer : List Segment} (encloses : Group.Encloses outer ss)
    (alternating : Alternating outer) : Whole outer t := by
  obtain ⟨reads, mixed, stays, balanced⟩ := whole
  obtain ⟨group, inside⟩ :=
    encloses.isGroup alternating reads.isLevel stays (Int.le_of_eq balanced)
  have mixes : Mixed outer := by
    simpa only [Mixed, Expression.mem_relationsOf, encloses.symbol_mem] using mixed
  refine ⟨.enclosed mixes group (inside.symm ▸ reads), mixes, ?_, ?_⟩
  · exact encloses.stays.mpr (stays.mono (by omega))
  · rw [encloses.balance, balanced]

theorem wrapped {s : Text} (whole : Whole (tokenize s) t) (k : Nat) :
    Whole (tokenize (Text.wrapped k s)) t := by
  induction k with
  | zero => simpa [Text.wrapped] using whole
  | succ k ih =>
    obtain ⟨encloses, alternating⟩ :=
      Segment.encloses_parenthesized ih.reads.isLevel.alternating ih.several
    rw [Text.wrapped_succ]
    exact ih.enclosed encloses alternating

end Whole

namespace Tree

/-- Parentheses around an expression that mixes operators do not change its tree. -/
theorem parse_wrapped {text : Text} {t : Tree}
    (undivided : ∀ s ∈ tokenize text, s.isDivider = false)
    (several : 1 < (Expression.relationsOf (tokenize text)).length)
    (running : ∀ front back, tokenize text = front ++ back → back ≠ [] →
      0 ≤ Segment.balance front)
    (closed : Segment.balance (tokenize text) = 0) (read : parse text = .ok t) (k : Nat) :
    parse (text.wrapped k) = .ok t := by
  obtain ⟨r, q, rest, relations⟩ := Expression.exists_relations several
  have mixed := Expression.mixed_of_relationsOf relations
  obtain ⟨s, symbol, -⟩ := Expression.mem_relationsOf.mp (relations ▸ List.mem_cons_self)
  have stays : Stays 1 (tokenize text).dropLast := by
    refine Segment.stays_of_running fun front back parts _ => ?_
    have nonempty : tokenize text ≠ [] := fun empty => by simp [empty] at symbol
    have whole := List.dropLast_concat_getLast nonempty
    rw [parts, List.append_assoc] at whole
    have below := running front _ whole.symm (by simp)
    omega
  have whole : Whole (tokenize text) t :=
    ⟨Expression.reads_of_parse undivided symbol read, mixed, stays, closed⟩
  exact (whole.wrapped k).reads.parse (whole.wrapped k).several

theorem parse_wrapped_spaced :
    Text.wrapped 2 " (A > B) | C".toList = "(( (A > B) | C))".toList ∧
    parse (Text.wrapped 2 " (A > B) | C".toList) = .ok (.sequence [.tree (.chain .derive
      [.leaf "A".toList, .leaf "B".toList]), .symbol .blend, .tree (.leaf "C".toList)]) := by
  have run : Group.IsRun (tokenize "(A > B)".toList) := by decide
  have spans : Group.spans 0 (tokenize " (A > B) | C".toList) = .ok [⟨0, 3⟩] :=
    @Group.IsRun.spans _ [.symbol (.operator .blend), .name ['C']] run 0 []
      (by simp [Group.spans, Group.opens])
  have read : parse " (A > B) | C".toList = .ok (.sequence [.tree (.chain .derive
      [.leaf "A".toList, .leaf "B".toList]), .symbol .blend, .tree (.leaf "C".toList)]) :=
    Expression.parse_of_spans [⟨0, 3⟩] [.chain .derive [.leaf "A".toList, .leaf "B".toList]]
      (by decide) (by rfl) (by decide) spans (by cbv) (by rfl)
  refine ⟨by decide, parse_wrapped (by decide) (by decide) ?_ (by decide) read 2⟩
  intro front back parts more
  have balances : ∀ k < 5, 0 ≤ Segment.balance ((tokenize " (A > B) | C".toList).take k) := by
    decide
  have five : (tokenize " (A > B) | C".toList).length = 5 := by decide
  have length := congrArg List.length parts
  have positive := List.length_pos_iff.mpr more
  rw [List.length_append] at length
  have prefixed := balances front.length (by omega)
  rwa [parts, List.take_left] at prefixed

end Tree

end GenreRelations
