import GenreRelations.Text.Words

/-!
Words of texts put together. A blank parts the words on its two sides, so joining texts with
spaces joins their lists of words: `words_unwords_eq_flatMap`. In particular the words of joined
words are these words again.
-/

namespace GenreRelations.Text

/-- A word has a character, and none of its characters is blank. -/
def IsWord (w : Text) : Prop := w ≠ [] ∧ ∀ c ∈ w, isBlank c = false

theorem isBlank_space : isBlank ' ' = true := by decide

theorem words_nil : words [] = [] := by
  simp [words, List.splitOnP_nil]

theorem words_append_blank {c : Char} (blank : isBlank c = true) (s t : Text) :
    words (s ++ c :: t) = words s ++ words t := by
  unfold words
  rw [List.splitOnP_append_cons s t blank, List.filter_append]

theorem words_cons_blank {c : Char} (blank : isBlank c = true) (s : Text) :
    words (c :: s) = words s := by
  have parted := words_append_blank blank [] s
  rwa [List.nil_append, words_nil, List.nil_append] at parted

theorem exists_solid_of_words_ne_nil {s : Text} (h : words s ≠ []) :
    ∃ c ∈ s, isBlank c = false := by
  induction s with
  | nil => exact absurd words_nil h
  | cons c s ih =>
    by_cases blank : isBlank c = true
    · rw [words_cons_blank blank] at h
      obtain ⟨d, member, solid⟩ := ih h
      exact ⟨d, List.mem_cons_of_mem _ member, solid⟩
    · exact ⟨c, List.mem_cons_self, by simpa using blank⟩

theorem words_of_isWord {w : Text} (word : IsWord w) : words w = [w] := by
  obtain ⟨nonempty, solid⟩ := word
  rw [words, List.splitOnP_eq_singleton solid]
  simp [nonempty]

theorem eq_false_of_mem_splitOnP {p : Char → Bool} {s w : Text} (h : w ∈ s.splitOnP p) :
    ∀ c ∈ w, p c = false := by
  induction s generalizing w with
  | nil =>
    obtain rfl : w = [] := by simpa [List.splitOnP_nil] using h
    simp
  | cons d s ih =>
    rw [List.splitOnP_cons_eq_if_modifyHead] at h
    by_cases parts : p d = true
    · rw [if_pos parts, List.mem_cons] at h
      cases h with
      | inl empty => simp [empty]
      | inr later => exact ih later
    · rw [if_neg parts] at h
      cases split : s.splitOnP p with
      | nil => exact absurd split (List.splitOnP_ne_nil _ _)
      | cons v vs =>
        rw [split, List.modifyHead_cons, List.mem_cons] at h
        rw [split] at ih
        cases h with
        | inl first =>
          have solid : p d = false := by simpa using parts
          have more := ih List.mem_cons_self
          simpa [first, solid] using more
        | inr later => exact ih (List.mem_cons_of_mem _ later)

theorem isWord_of_mem_words {s w : Text} (h : w ∈ words s) : IsWord w := by
  obtain ⟨member, nonempty⟩ := List.mem_filter.mp h
  exact ⟨by simpa using nonempty, eq_false_of_mem_splitOnP member⟩

theorem flatten_splitOnP (s : Text) :
    (s.splitOnP isBlank).flatten = s.filter fun c => !isBlank c := by
  induction s with
  | nil => rfl
  | cons c s ih =>
    rw [List.splitOnP_cons_eq_if_modifyHead, List.filter_cons, ← ih]
    by_cases blank : isBlank c = true
    · simp [blank]
    · cases parts : s.splitOnP isBlank with
      | nil => exact absurd parts (List.splitOnP_ne_nil _ _)
      | cons w ws => simp [blank]

theorem flatten_words (s : Text) : s.words.flatten = s.filter fun c => !isBlank c := by
  rw [words, ← flatten_splitOnP]
  exact List.flatten_filter_not_isEmpty

theorem exists_first_blank (s : Text) : (∀ c ∈ s, isBlank c = false) ∨
    ∃ first b after, s = first ++ b :: after ∧ isBlank b = true ∧
      ∀ c ∈ first, isBlank c = false := by
  induction s with
  | nil => exact .inl (by simp)
  | cons d s ih =>
    by_cases blank : isBlank d = true
    · exact .inr ⟨[], d, s, rfl, blank, by simp⟩
    · have solid : isBlank d = false := by simpa using blank
      rcases ih with all | ⟨first, b, after, rfl, isBlank, before⟩
      · exact .inl (by simpa [solid] using all)
      · exact .inr ⟨d :: first, b, after, rfl, isBlank, by simpa [solid] using before⟩

theorem exists_last_blank (s : Text) : (∀ c ∈ s, isBlank c = false) ∨
    ∃ before b last, s = before ++ b :: last ∧ isBlank b = true ∧
      ∀ c ∈ last, isBlank c = false := by
  induction s with
  | nil => exact .inl (by simp)
  | cons d s ih =>
    rcases ih with all | ⟨before, b, last, rfl, blank, behind⟩
    · by_cases blank : isBlank d = true
      · exact .inr ⟨[], d, s, rfl, blank, all⟩
      · exact .inl (by simpa [blank] using all)
    · exact .inr ⟨d :: before, b, last, rfl, blank, behind⟩

theorem words_append_solid {h w : Text} (word : IsWord h) (solid : ∀ c ∈ w, isBlank c = false) :
    words (h ++ w) = [h ++ w] := by
  refine words_of_isWord ⟨by simp [word.1], fun c isIn => ?_⟩
  rcases List.mem_append.mp isIn with isIn | isIn
  · exact word.2 c isIn
  · exact solid c isIn

/-- What is put before a text meets no more than its first word. -/
theorem exists_first_word (s : Text) : ∃ w ws, (∀ c ∈ w, isBlank c = false) ∧
    ∀ x, words (x ++ s) = words (x ++ w) ++ ws := by
  rcases exists_first_blank s with solid | ⟨first, b, after, rfl, blank, solid⟩
  · exact ⟨s, [], solid, fun x => (List.append_nil _).symm⟩
  · refine ⟨first, words after, solid, fun x => ?_⟩
    rw [← List.append_assoc, words_append_blank blank]

theorem exists_words_cons {c : Char} (solid : isBlank c = false) (s : Text) :
    ∃ w ws, words (c :: s) = (c :: w) :: ws := by
  obtain ⟨w, ws, behind, parted⟩ := exists_first_word s
  have word : IsWord [c] := ⟨by simp, by simpa using solid⟩
  have first := parted [c]
  rw [words_append_solid word behind] at first
  exact ⟨w, ws, first⟩

theorem mem_of_mem_words {s w : Text} {c : Char} (word : w ∈ words s) (isIn : c ∈ w) : c ∈ s := by
  have member : c ∈ s.words.flatten := List.mem_flatten_of_mem word isIn
  rw [flatten_words] at member
  exact (List.mem_filter.mp member).1

theorem words_unwords_eq_flatMap (ts : List Text) : words (unwords ts) = ts.flatMap words := by
  induction ts with
  | nil => exact words_nil
  | cons s ts ih =>
    cases ts with
    | nil => simp [unwords_singleton]
    | cons t ts =>
      rw [unwords_cons_cons, words_append_blank isBlank_space, ih]
      rfl

/-- Words that are joined and split again stay the same. -/
theorem words_unwords {ws : List Text} (h : ∀ w ∈ ws, IsWord w) : words (unwords ws) = ws := by
  rw [words_unwords_eq_flatMap]
  induction ws with
  | nil => rfl
  | cons w ws ih =>
    rw [List.flatMap_cons, words_of_isWord (h w List.mem_cons_self),
      ih fun v hv => h v (List.mem_cons_of_mem _ hv)]
    rfl

theorem unwords_append {vs ws : List Text} (hv : vs ≠ []) (hw : ws ≠ []) :
    unwords (vs ++ ws) = unwords vs ++ ' ' :: unwords ws := by
  obtain ⟨w, ws, rfl⟩ := List.exists_cons_of_ne_nil hw
  induction vs with
  | nil => exact absurd rfl hv
  | cons v vs ih =>
    cases vs with
    | nil => simp [unwords_singleton, unwords_cons_cons]
    | cons u vs =>
      rw [List.cons_append, List.cons_append, unwords_cons_cons, ← List.cons_append,
        ih (by simp), unwords_cons_cons]
      simp

theorem unwords_cons (w : Text) {ws : List Text} (nonempty : ws ≠ []) :
    unwords (w :: ws) = w ++ ' ' :: unwords ws := by
  obtain ⟨v, vs, rfl⟩ := List.exists_cons_of_ne_nil nonempty
  exact unwords_cons_cons w v vs

theorem unwords_concat_char (ws : List Text) (w : Text) (c : Char) :
    unwords (ws ++ [w ++ [c]]) = unwords (ws ++ [w]) ++ [c] := by
  cases ws with
  | nil => simp [unwords_singleton]
  | cons v ws =>
    rw [unwords_append (by simp) (by simp), unwords_append (by simp) (by simp),
      unwords_singleton, unwords_singleton, List.append_assoc, List.cons_append]

end GenreRelations.Text
