import GenreRelations.Proofs.Enclosure

/-!
Pieces of texts. Segments next to each other are written by a piece of the text that writes all of
them, and the text inside a group is such a piece, with the parentheses right before and behind it.
-/

namespace GenreRelations

namespace Text

theorem unwords_piece {vs ws : List Text} (piece : vs <:+: ws) : unwords vs <:+: unwords ws := by
  obtain ⟨before, after, rfl⟩ := piece
  by_cases nothing : vs = []
  · subst nothing
    exact ⟨[], _, rfl⟩
  · have front : unwords vs <:+: unwords (before ++ vs) := by
      by_cases first : before = []
      · subst first
        exact List.infix_refl _
      · rw [unwords_append first nothing]
        exact ((List.suffix_cons _ _).trans (List.suffix_append _ _)).isInfix
    have back : unwords (before ++ vs) <:+: unwords (before ++ vs ++ after) := by
      by_cases last : after = []
      · subst last
        simp
      · rw [unwords_append (by simp [nothing]) last]
        exact (List.prefix_append _ _).isInfix
    exact front.trans back

theorem words_of_solid {w : Text} (solid : ∀ c ∈ w, isBlank c = false) :
    words w = [w].filter fun v => !v.isEmpty := by
  rw [words, List.splitOnP_eq_singleton solid]

/-- Texts without blanks are the words of their join, except for the empty ones. -/
theorem words_unwords_of_solid {ws : List Text} (solid : ∀ w ∈ ws, ∀ c ∈ w, isBlank c = false) :
    words (unwords ws) = ws.filter fun w => !w.isEmpty := by
  rw [words_unwords_eq_flatMap]
  induction ws with
  | nil => rfl
  | cons w ws ih =>
    rw [List.flatMap_cons, words_of_solid (solid w List.mem_cons_self),
      ih fun v member => solid v (List.mem_cons_of_mem _ member), ← List.filter_append]
    rfl

theorem filter_piece_of_ends {v u : Text} {ms : List Text} (middle : ∀ w ∈ ms, w ≠ []) :
    ((v :: (ms ++ [u])).filter fun w => !w.isEmpty) <:+: v :: (ms ++ [u]) := by
  have kept : (ms.filter fun w => !w.isEmpty) = ms :=
    List.filter_eq_self.mpr fun w member => by simpa using middle w member
  rw [List.filter_cons, List.filter_append, kept]
  cases v with
  | nil =>
    cases u with
    | nil => exact ⟨[[]], [[]], by simp⟩
    | cons d u => exact ⟨[[]], [], by simp⟩
  | cons c v =>
    cases u with
    | nil => exact ⟨[], [[]], by simp⟩
    | cons d u => exact ⟨[], [], by simp⟩

/-- What parentheses enclose in words with single spaces has single spaces between its own words,
and at most one more at each end. -/
theorem unwords_words_piece {ws : List Text} {s : Text} (isWord : ∀ w ∈ ws, IsWord w)
    (written : unwords ws = '(' :: s ++ [')']) : unwords s.words <:+: s := by
  cases ws with
  | nil => simp [unwords_nil] at written
  | cons w ws =>
    obtain ⟨c, v, rfl⟩ := List.exists_cons_of_ne_nil (isWord w List.mem_cons_self).1
    rw [unwords_cons_char, List.cons_append] at written
    obtain ⟨rfl, inner⟩ := List.cons.inj written
    have first : ∀ c ∈ v, isBlank c = false :=
      fun c isIn => (isWord _ List.mem_cons_self).2 c (List.mem_cons_of_mem _ isIn)
    have later : ∀ u ∈ ws, IsWord u := fun u member => isWord u (List.mem_cons_of_mem _ member)
    rcases List.eq_nil_or_concat ws with rfl | ⟨ms, u, rfl⟩
    · rw [unwords_singleton] at inner
      subst inner
      have kept : ([s].filter fun w => !w.isEmpty) <:+: [s] := by cases s <;> simp
      rw [words_of_solid fun c isIn => first c (List.mem_append_left _ isIn)]
      simpa only [unwords_singleton] using unwords_piece kept
    · rw [List.concat_eq_append] at later inner
      obtain ⟨last, d, rfl⟩ := (List.eq_nil_or_concat u).resolve_left (later u (by simp)).1
      rw [List.concat_eq_append] at later inner
      rw [← List.cons_append, unwords_concat_char] at inner
      obtain ⟨rfl, -⟩ := List.append_inj' inner rfl
      -- only the two words that lost a parenthesis may be empty now
      rw [words_unwords_of_solid]
      · exact unwords_piece (filter_piece_of_ends fun w member => (later w (by simp [member])).1)
      · intro w member
        rw [List.cons_append, List.mem_cons, List.mem_append, List.mem_singleton] at member
        rcases member with rfl | member | rfl
        · exact first
        · exact (later w (List.mem_append_left _ member)).2
        · exact fun c isIn => (later (w ++ [d]) (by simp)).2 c (List.mem_append_left _ isIn)

end Text

namespace Segment

theorem ofWords_ne_nil {ws : List Text} (nonempty : ws ≠ []) : ofWords ws ≠ [] := by
  cases ws with
  | nil => exact absurd rfl nonempty
  | cons w ws =>
    rw [ofWords]
    split
    · simp
    · split <;> simp

theorem join_cons (s : Segment) {ss : List Segment} (nonempty : ss ≠ []) :
    join (s :: ss) = s.text ++ ' ' :: join ss := by
  rw [join, List.map_cons, Text.unwords_cons _ (by simpa using nonempty), join]

theorem join_ofWords (ws : List Text) : join (ofWords ws) = Text.unwords ws := by
  induction ws with
  | nil => rfl
  | cons w ws ih =>
    by_cases last : ws = []
    · subst last
      rw [ofWords, Text.unwords_singleton]
      cases symbol : Symbol.ofWord? w with
      | some s => exact (Text.unwords_singleton _).trans (Symbol.text_of_ofWord? symbol)
      | none => exact Text.unwords_singleton w
    · rw [Text.unwords_cons w last, ← ih, ofWords]
      cases symbol : Symbol.ofWord? w with
      | some s => rw [join_cons _ (ofWords_ne_nil last), text, Symbol.text_of_ofWord? symbol]
      | none =>
        cases rest : ofWords ws with
        | nil => exact absurd rest (ofWords_ne_nil last)
        | cons s ss =>
          cases s with
          | symbol s => exact join_cons (.name w) (by simp)
          | name n =>
            -- the word joins the name behind it, with the space that stands before a segment
            by_cases alone : ss = []
            · subst alone
              simp [join, text, Text.unwords_singleton]
            · rw [join_cons _ alone, join_cons _ alone]
              simp [text]

/-- The segments of a text are written by its words with single spaces. -/
theorem join_tokenize (s : Text) : join (tokenize s) = Text.unwords s.words := join_ofWords _

theorem join_piece {ss ts : List Segment} (piece : ss <:+: ts) : join ss <:+: join ts :=
  Text.unwords_piece (piece.map text)

theorem Proper.of_append {ss ts : List Segment} (proper : Proper (ss ++ ts)) :
    Proper ss ∧ Proper ts := by
  induction ss with
  | nil => exact ⟨trivial, proper⟩
  | cons s ss ih =>
    cases s with
    | symbol s => exact ih proper
    | name n =>
      obtain ⟨name, alone, rest⟩ := proper
      obtain ⟨front, back⟩ := ih rest
      refine ⟨⟨name, fun m later same => ?_, front⟩, back⟩
      subst same
      exact alone m (later ++ ts) rfl

theorem Proper.of_piece {ss ts : List Segment} (proper : Proper ts) (piece : ss <:+: ts) :
    Proper ss := by
  obtain ⟨before, after, rfl⟩ := piece
  exact proper.of_append.1.of_append.2

/-- Proper segments are written by their words with single spaces. -/
theorem join_eq_unwords_words {ss : List Segment} (proper : Proper ss) :
    join ss = Text.unwords (ss.flatMap words) := by
  rw [← words_join, ← join_tokenize, tokenize_join proper]

end Segment

namespace Group

open Segment (join tokenize)

/-- A group is written by the text inside it in parentheses. -/
theorem join_enclosed {g : List Segment} (enclosed : Enclosed g) :
    join g = '(' :: inner g ++ [')'] := by
  obtain ⟨n, ms, m, rfl⟩ := enclosed.names
  rw [inner_names, join, join]
  simp only [List.map_cons, List.map_append, List.map_nil, Segment.text]
  rw [Text.unwords_cons_char, ← List.cons_append, Text.unwords_concat_char]
  rfl

/-- The text inside a group holds the text of the segments inside. -/
theorem join_inside_piece {g : List Segment} (enclosed : Enclosed g) (proper : Segment.Proper g) :
    join (inside g) <:+: inner g := by
  rw [inside, Segment.join_tokenize]
  refine @Text.unwords_words_piece (g.flatMap Segment.words) _ ?_ ?_
  · intro w member
    obtain ⟨s, -, isIn⟩ := List.mem_flatMap.mp member
    exact Text.isWord_of_mem_words isIn
  · rw [← Segment.join_eq_unwords_words proper, join_enclosed enclosed]

end Group

end GenreRelations
