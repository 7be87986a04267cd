import GenreRelations.Proofs.Respacing

/-!
Segments and texts are two forms of the same words. `Segment.tokenize_eq_iff` says that the segments
of a text are the only ones, cut as the tokenizer cuts them, that write its words; so joining and
tokenizing undo each other, `Segment.tokenize_join_inverse`.
-/

namespace GenreRelations.Segment

/-- No two names are side by side, and each name is some words that are no symbols. -/
structure Tokenized (ss : List Segment) : Prop where
  parted : ∀ front m n back, ss ≠ front ++ name m :: name n :: back
  names : ∀ n, name n ∈ ss →
    ∃ ws, ws ≠ [] ∧ (∀ w ∈ ws, Text.IsPlain w) ∧ n = Text.unwords ws

theorem Tokenized.tail {s : Segment} {ss : List Segment} (tokenized : Tokenized (s :: ss)) :
    Tokenized ss := by
  refine ⟨?_, fun n member => tokenized.names n (List.mem_cons_of_mem _ member)⟩
  rintro front m n back rfl
  exact tokenized.parted (s :: front) m n back rfl

theorem proper_of_tokenized {ss : List Segment} (tokenized : Tokenized ss) : Proper ss := by
  induction ss with
  | nil => trivial
  | cons s ss ih =>
    have rest := ih tokenized.tail
    cases s with
    | symbol s => exact rest
    | name n =>
      obtain ⟨ws, nonempty, plain, rfl⟩ := tokenized.names n List.mem_cons_self
      refine ⟨Text.isName_unwords nonempty plain, ?_, rest⟩
      rintro m later rfl
      exact tokenized.parted [] _ m later rfl

theorem Proper.isName {ss : List Segment} (proper : Proper ss) {n : Text} (member : name n ∈ ss) :
    n.IsName := by
  obtain ⟨front, back, rfl⟩ := List.append_of_mem member
  exact proper.of_append.2.1

theorem Proper.tokenized {ss : List Segment} (proper : Proper ss) : Tokenized ss := by
  constructor
  · rintro front m n back rfl
    have sideBySide : Proper (name m :: name n :: back) := proper.of_append.2
    exact sideBySide.2.1 n back rfl
  · intro n member
    obtain ⟨w, ws, written, plain⟩ := (proper.isName member).exists_cons
    exact ⟨w :: ws, List.cons_ne_nil w ws, plain, written⟩

/-- The segments of a text are those, cut as the tokenizer does it, that write its words. -/
theorem tokenize_eq_iff {text : Text} {ss : List Segment} :
    tokenize text = ss ↔ Tokenized ss ∧ (join ss).words = text.words := by
  constructor
  · rintro rfl
    refine ⟨(proper_tokenize text).tokenized, ?_⟩
    rw [join_tokenize, Text.words_unwords fun w member => Text.isWord_of_mem_words member]
  · rintro ⟨tokenized, words⟩
    rw [← tokenize_eq_of_words words]
    exact tokenize_join (proper_of_tokenized tokenized)

/-- Tokenizing keeps the words of a text and cuts them in one way only, and what is cut so is
joined to a text that is cut so again. -/
theorem tokenize_join_inverse :
    (∀ text : Text, Tokenized (tokenize text) ∧ (join (tokenize text)).words = text.words) ∧
    (∀ ss, Tokenized ss → tokenize (join ss) = ss) ∧
    ∀ text : Text, tokenize (join (tokenize text)) = tokenize text := by
  have cut : ∀ text : Text,
      Tokenized (tokenize text) ∧ (join (tokenize text)).words = text.words :=
    fun text => tokenize_eq_iff.mp rfl
  have back : ∀ ss, Tokenized ss → tokenize (join ss) = ss :=
    fun ss tokenized => tokenize_eq_iff.mpr ⟨tokenized, rfl⟩
  exact ⟨cut, back, fun text => back _ (cut text).1⟩

theorem tokenize_join_inverse_names :
    Tokenized [symbol (.operator .blend), name "(Drum &".toList, symbol (.divider .derive),
      symbol (.divider .derive), name "Bass)".toList] ∧
    tokenize "| (Drum & >> >> Bass)".toList = [symbol (.operator .blend), name "(Drum &".toList,
      symbol (.divider .derive), symbol (.divider .derive), name "Bass)".toList] := by
  have tokenized : Tokenized [symbol (.operator .blend), name "(Drum &".toList,
      symbol (.divider .derive), symbol (.divider .derive), name "Bass)".toList] := by
    have first : Text.IsName "(Drum &".toList := ⟨by decide, by decide, by decide⟩
    have last : Text.IsName "Bass)".toList := ⟨by decide, by decide, by decide⟩
    refine Proper.tokenized ⟨first, ?_, last, ?_, trivial⟩
    · rintro m rest ⟨⟩
    · rintro m rest ⟨⟩
  exact ⟨tokenized, tokenize_join_inverse.2.1 _ tokenized⟩

end GenreRelations.Segment
