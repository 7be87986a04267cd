import GenreRelations.Proofs.Words
import GenreRelations.Segment

/-!
Segments and the text that writes them. Segments are proper when no two names are neighbours and
every name is made of words that are no symbols. The tokenizer yields proper segments, and
`tokenize_join` says that it reads proper segments back from their text.
-/

namespace GenreRelations

/-- A genre name: words that are no symbols, one space between neighbours. -/
structure Text.IsName (n : Text) : Prop where
  words_ne_nil : n.words ≠ []
  spaced : Text.unwords n.words = n
  plain : ∀ w ∈ n.words, Symbol.ofWord? w = none

namespace Text

/-- A word that is no symbol. -/
def IsPlain (w : Text) : Prop := IsWord w ∧ Symbol.ofWord? w = none

theorem isName_unwords {ws : List Text} (nonempty : ws ≠ []) (plain : ∀ w ∈ ws, IsPlain w) :
    (unwords ws).IsName := by
  have words := words_unwords fun w member => (plain w member).1
  exact ⟨by rwa [words], by rw [words], by simpa [words] using fun w member => (plain w member).2⟩

theorem IsName.isPlain {n : Text} (name : n.IsName) : ∀ w ∈ n.words, IsPlain w :=
  fun w member => ⟨isWord_of_mem_words member, name.plain w member⟩

theorem IsName.exists_cons {n : Text} (name : n.IsName) :
    ∃ w ws, n = unwords (w :: ws) ∧ ∀ u ∈ w :: ws, IsPlain u := by
  obtain ⟨w, ws, split⟩ := List.exists_cons_of_ne_nil name.words_ne_nil
  exact ⟨w, ws, by rw [← split, name.spaced], split ▸ name.isPlain⟩

theorem IsName.exists_concat {n : Text} (name : n.IsName) :
    ∃ ws w, n = unwords (ws ++ [w]) ∧ ∀ u ∈ ws ++ [w], IsPlain u := by
  obtain ⟨ws, w, split⟩ := (List.eq_nil_or_concat _).resolve_left name.words_ne_nil
  rw [List.concat_eq_append] at split
  exact ⟨ws, w, by rw [← split, name.spaced], split ▸ name.isPlain⟩

theorem IsName.ofWord? {n : Text} (name : n.IsName) : Symbol.ofWord? n = none := by
  cases symbol : Symbol.ofWord? n with
  | none => rfl
  | some s =>
    have same : s.text = n := Symbol.text_of_ofWord? symbol
    have single : n.words = [n] := by
      rw [← same]
      rcases s with r | r <;> cases r <;> decide
    have plain := name.plain n (by simp [single])
    rw [symbol] at plain
    exact absurd plain (by simp)

theorem IsName.ne_text {n : Text} (name : n.IsName) (s : Symbol) : n ≠ s.text := by
  rintro rfl
  have plain := name.ofWord?
  rw [Symbol.ofWord?_text] at plain
  simp at plain

end Text

namespace Segment

theorem isWord_text (s : Symbol) : Text.IsWord s.text := by
  have solid : ∀ r : Relation, Text.isBlank r.char = false := by
    intro r
    cases r <;> decide
  cases s with
  | operator r =>
    refine ⟨List.cons_ne_nil _ _, fun c member => ?_⟩
    obtain rfl : c = r.char := by simpa [Symbol.text, Relation.operator] using member
    exact solid r
  | divider r =>
    refine ⟨List.cons_ne_nil _ _, fun c member => ?_⟩
    obtain rfl : c = r.char := by simpa [Symbol.text, Relation.divider] using member
    exact solid r

/-- The words of a segment. -/
def words (s : Segment) : List Text := s.text.words

theorem words_name (n : Text) : (name n).words = n.words := rfl

theorem words_symbol (s : Symbol) : (symbol s).words = [s.text] :=
  Text.words_of_isWord (isWord_text s)

/-- No two names are neighbours, and every name is one. -/
def Proper : List Segment → Prop
  | [] => True
  | symbol _ :: ss => Proper ss
  | name n :: ss => n.IsName ∧ (∀ m rest, ss ≠ name m :: rest) ∧ Proper ss

/-! ### Words of segments -/

theorem words_join (ss : List Segment) : (join ss).words = ss.flatMap words := by
  rw [join, Text.words_unwords_eq_flatMap, List.flatMap_map]
  rfl

theorem ofWords_symbol (s : Symbol) (ws : List Text) :
    ofWords (s.text :: ws) = symbol s :: ofWords ws := by
  simp [ofWords, Symbol.ofWord?_text]

theorem ofWords_append_symbol (vs : List Text) (s : Symbol) (ws : List Text) :
    ofWords (vs ++ s.text :: ws) = ofWords vs ++ symbol s :: ofWords ws := by
  induction vs with
  | nil => exact ofWords_symbol s ws
  | cons v vs ih =>
    rw [List.cons_append, ofWords, ofWords, ih]
    cases Symbol.ofWord? v with
    | some r => rfl
    | none =>
      cases ofWords vs with
      | nil => rfl
      | cons t ts => cases t <;> rfl

theorem ofWords_plain {ws : List Text} (nonempty : ws ≠ [])
    (plain : ∀ w ∈ ws, Symbol.ofWord? w = none) : ofWords ws = [name (Text.unwords ws)] := by
  induction ws with
  | nil => exact absurd rfl nonempty
  | cons w ws ih =>
    rw [ofWords, plain w List.mem_cons_self]
    cases ws with
    | nil => simp [ofWords, Text.unwords_singleton]
    | cons v vs =>
      rw [ih (by simp) fun u hu => plain u (List.mem_cons_of_mem _ hu), Text.unwords_cons_cons]

theorem tokenize_name {n : Text} (h : n.IsName) : tokenize n = [name n] := by
  rw [tokenize, ofWords_plain h.words_ne_nil h.plain, h.spaced]

/-- Proper segments are read back from their words. -/
theorem ofWords_words {ss : List Segment} (proper : Proper ss) :
    ofWords (ss.flatMap words) = ss := by
  fun_induction Proper ss with
  | case1 => rfl
  | case2 s ss ih =>
    rw [List.flatMap_cons, words_symbol, List.singleton_append, ofWords_symbol, ih proper]
  | case3 n ss ih =>
    obtain ⟨isName, alone, proper⟩ := proper
    have first : ofWords n.words = [name n] := tokenize_name isName
    have rest := ih proper
    rw [List.flatMap_cons, words_name]
    cases ss with
    | nil => simpa using first
    | cons s ss =>
      cases s with
      | name m => exact absurd rfl (alone m ss)
      | symbol s =>
        rw [List.flatMap_cons, words_symbol, List.singleton_append] at rest ⊢
        rw [ofWords_append_symbol, first, ← ofWords_symbol, rest]
        rfl

theorem tokenize_join {ss : List Segment} (proper : Proper ss) : tokenize (join ss) = ss := by
  rw [tokenize, words_join, ofWords_words proper]

/-! ### The segments of a text are proper -/

theorem proper_ofWords {ws : List Text} (word : ∀ w ∈ ws, Text.IsWord w) : Proper (ofWords ws) := by
  induction ws with
  | nil => trivial
  | cons w ws ih =>
    have proper := ih fun v hv => word v (List.mem_cons_of_mem _ hv)
    have isWord := word w List.mem_cons_self
    have words := Text.words_of_isWord isWord
    rw [ofWords]
    cases plain : Symbol.ofWord? w with
    | some s => exact proper
    | none =>
      have single : w.IsName :=
        ⟨by simp [words], by rw [words, Text.unwords_singleton], by simpa [words] using plain⟩
      cases rest : ofWords ws with
      | nil => exact ⟨single, by simp, trivial⟩
      | cons s ss =>
        rw [rest] at proper
        cases s with
        | symbol s => exact ⟨single, by simp, proper⟩
        | name n =>
          obtain ⟨isName, alone, proper⟩ := proper
          have longer : (w ++ ' ' :: n).words = w :: n.words := by
            rw [Text.words_append_blank Text.isBlank_space, words, List.singleton_append]
          refine ⟨⟨by simp [longer], ?_, ?_⟩, alone, proper⟩
          · obtain ⟨v, vs, split⟩ := List.exists_cons_of_ne_nil isName.words_ne_nil
            rw [longer, split, Text.unwords_cons_cons, ← split, isName.spaced]
          · simpa [longer, plain] using isName.plain

theorem proper_tokenize (s : Text) : Proper (tokenize s) :=
  proper_ofWords fun _ h => Text.isWord_of_mem_words h

/-- A text has no segment if all of it is blank. -/
theorem tokenize_eq_nil_iff {s : Text} : tokenize s = [] ↔ ∀ c ∈ s, Text.isBlank c = true := by
  constructor
  · intro empty
    have weight := weight_tokenize s
    rw [empty, weight_nil] at weight
    have blank := List.countP_eq_zero.mp (show s.countP _ = 0 from weight.symm)
    simpa using blank
  · intro blank
    cases split : s.words with
    | nil => rw [tokenize, split, ofWords]
    | cons w ws =>
      obtain ⟨c, member, solid⟩ := @Text.exists_solid_of_words_ne_nil s (by simp [split])
      simp [blank c member] at solid

end Segment

end GenreRelations
