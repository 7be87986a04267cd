import GenreRelations.Proofs.Enclosure

/-!
Texts put in parentheses, and texts put side by side with symbols between them. What their
segments are follows from the segments of the texts alone: `tokenize_enclosed`, `tokenize_joined`.
-/

namespace GenreRelations

open Segment (Alternating Stays tokenize)

namespace Text

/-- A word with a character that writes no relation is no symbol. -/
theorem ofWord?_of_mem {w : Text} {c : Char} (isIn : c ∈ w)
    (strange : ∀ r ∈ Relation.all, c ≠ r.char) : Symbol.ofWord? w = none := by
  cases symbol : Symbol.ofWord? w with
  | none => rfl
  | some s =>
    rw [← Symbol.text_of_ofWord? symbol] at isIn
    cases s with
    | operator r => exact absurd (List.mem_singleton.mp isIn) (strange r r.mem_all)
    | divider r =>
      rcases List.mem_cons.mp isIn with same | same
      · exact absurd same (strange r r.mem_all)
      · exact absurd (List.mem_singleton.mp same) (strange r r.mem_all)

theorem ofWord?_opening (w : Text) : Symbol.ofWord? ('(' :: w) = none :=
  ofWord?_of_mem List.mem_cons_self (by decide)

theorem ofWord?_closing (w : Text) : Symbol.ofWord? (w ++ [')']) = none :=
  ofWord?_of_mem List.mem_concat_self (by decide)

theorem isName_opening {n : Text} (name : n.IsName) : IsName ('(' :: n) := by
  obtain ⟨w, ws, rfl, plain⟩ := name.exists_cons
  rw [← unwords_cons_char]
  refine isName_unwords (by simp) fun u member => ?_
  rcases List.mem_cons.mp member with rfl | member
  · have solid := (plain w List.mem_cons_self).1.2
    have paren : isBlank '(' = false := by decide
    exact ⟨⟨by simp, by simpa [paren] using solid⟩, ofWord?_opening w⟩
  · exact plain u (List.mem_cons_of_mem _ member)

theorem isName_closing {n : Text} (name : n.IsName) : IsName (n ++ [')']) := by
  obtain ⟨ws, w, rfl, plain⟩ := name.exists_concat
  rw [← unwords_concat_char]
  refine isName_unwords (by simp) fun u member => ?_
  rcases List.mem_append.mp member with member | member
  · exact plain u (List.mem_append_left _ member)
  · obtain rfl := List.mem_singleton.mp member
    have solid := (plain w (by simp)).1.2
    have paren : isBlank ')' = false := by decide
    refine ⟨⟨by simp, fun c isIn => ?_⟩, ofWord?_closing w⟩
    rcases List.mem_append.mp isIn with isIn | isIn
    · exact solid c isIn
    · rwa [List.mem_singleton.mp isIn]

end Text

namespace Segment

theorem Alternating.ends {ss : List Segment} (alternating : Alternating ss)
    (several : 2 ≤ ss.length) : ∃ a ms b, ss = .name a :: (ms ++ [.name b]) := by
  have last : ∃ front b, ss = front ++ [.name b] := by
    clear several
    induction alternating with
    | @name n => exact ⟨[], n, rfl⟩
    | @cons n s ss _ _ ih =>
      obtain ⟨front, b, rfl⟩ := ih
      exact ⟨.name n :: .symbol s :: front, b, rfl⟩
  obtain ⟨front, b, rfl⟩ := last
  cases front with
  | nil => simp at several
  | cons x ms =>
    cases x with
    | symbol s => exact absurd alternating Alternating.not_symbol
    | name a => exact ⟨a, ms, b, rfl⟩

/-- A level in parentheses is written by its text in parentheses. -/
theorem exists_enclosing {ss : List Segment} (alternating : Alternating ss)
    (several : 2 ≤ ss.length) : ∃ g, Group.Encloses g ss ∧ Alternating g ∧
      join g = '(' :: join ss ++ [')'] := by
  obtain ⟨a, ms, b, rfl⟩ := alternating.ends several
  have last := (@Alternating.before_last (.name a :: ms) _ alternating).1
  have opened := alternating.with_head (Text.isName_opening alternating.head)
  have closed := @Alternating.with_last (.name ('(' :: a) :: ms) _ _ opened
    (Text.isName_closing last)
  refine ⟨_, .intro (.inl rfl) (.inl rfl), closed, ?_⟩
  simp only [join, List.map_cons, List.map_append, List.map_nil, text]
  rw [← List.cons_append, Text.unwords_concat_char, List.cons_append, Text.unwords_cons_char]

theorem tokenize_enclosed {s : Text} (alternating : Alternating (tokenize s))
    (spaced : join (tokenize s) = s) (several : 2 ≤ (tokenize s).length) :
    Group.Encloses (tokenize ('(' :: s ++ [')'])) (tokenize s) ∧
      Alternating (tokenize ('(' :: s ++ [')'])) ∧
      join (tokenize ('(' :: s ++ [')'])) = '(' :: s ++ [')'] := by
  obtain ⟨g, encloses, outer, written⟩ := exists_enclosing alternating several
  rw [spaced] at written
  rw [← written, tokenize_join outer.proper]
  exact ⟨encloses, outer, rfl⟩

/-! ### Texts with a symbol between neighbours -/

theorem joined_ne_nil {s : Symbol} {ss : List Segment} (nonempty : ss ≠ [])
    (sss : List (List Segment)) : joined s (ss :: sss) ≠ [] := by
  cases sss <;> simp [joined_singleton, joined_cons_cons, nonempty]

theorem join_joined (s : Symbol) {sss : List (List Segment)} (nonempty : ∀ ss ∈ sss, ss ≠ []) :
    join (joined s sss) = Text.unwords ((sss.map join).intersperse s.text) := by
  induction sss with
  | nil => rfl
  | cons ss sss ih =>
    have rest := ih fun ts member => nonempty ts (List.mem_cons_of_mem _ member)
    have first : ss.map text ≠ [] := by simpa using nonempty ss List.mem_cons_self
    cases sss with
    | nil => simp [joined_singleton, Text.unwords_singleton]
    | cons ts sss =>
      have second : (joined s (ts :: sss)).map text ≠ [] := by
        simpa using joined_ne_nil (nonempty ts (by simp)) sss
      have texts : List.intersperse s.text ((ts :: sss).map join) ≠ [] := by
        cases sss <;> simp
      rw [List.map_cons, List.map_cons, List.intersperse_cons_cons, ← List.map_cons,
        Text.unwords_cons _ (by simp), Text.unwords_cons _ texts, ← rest, joined_cons_cons, join,
        List.map_append, List.map_cons, Text.unwords_append first (by simp),
        Text.unwords_cons _ second]
      rfl

theorem tokenize_joined {texts : List Text} (nonempty : texts ≠ []) (s : Symbol)
    (alternating : ∀ u ∈ texts, Alternating (tokenize u))
    (spaced : ∀ u ∈ texts, join (tokenize u) = u) :
    tokenize (Text.unwords (texts.intersperse s.text)) = joined s (texts.map tokenize) := by
  have parts : ∀ ss ∈ texts.map tokenize, Alternating ss := by
    intro ss member
    obtain ⟨u, isIn, rfl⟩ := List.mem_map.mp member
    exact alternating u isIn
  have written : (texts.map tokenize).map join = texts := by
    rw [List.map_map]
    exact (List.map_congr_left spaced).trans (List.map_id texts)
  have whole := join_joined s fun ss member => (parts ss member).ne_nil
  have levels : Alternating (joined s (texts.map tokenize)) :=
    alternating_joined.mpr ⟨by simpa using nonempty, parts⟩
  rw [written] at whole
  rw [← whole, tokenize_join levels.proper]

/-! ### Balance between symbols -/

theorem stays_iff_dropLast {d : Int} {ss : List Segment} (nonempty : ss ≠ []) :
    Stays d ss ↔ Stays d ss.dropLast ∧ 0 < d + balance ss := by
  obtain ⟨front, last, rfl⟩ := (List.eq_nil_or_concat ss).resolve_left nonempty
  rw [List.concat_eq_append, List.dropLast_concat, stays_append, balance_append, balance_singleton]
  simp only [Stays, and_true, Int.add_assoc]

theorem balance_joined_cons_cons (s : Symbol) (ss ts : List Segment)
    (rest : List (List Segment)) :
    balance (joined s (ss :: ts :: rest)) = balance ss + balance (joined s (ts :: rest)) := by
  rw [joined_cons_cons, balance_append, balance, balance_text_symbol]
  omega

theorem stays_joined_cons_cons {d : Int} {s : Symbol} {ss ts : List Segment}
    {rest : List (List Segment)} (first : ss ≠ []) (second : ts ≠ []) :
    Stays d (joined s (ss :: ts :: rest)).dropLast ↔ Stays d ss.dropLast ∧ 0 < d + balance ss ∧
      Stays (d + balance ss) (joined s (ts :: rest)).dropLast := by
  have more := joined_ne_nil (s := s) second rest
  rw [joined_cons_cons, List.dropLast_append_of_ne_nil (by simp), List.dropLast_cons_of_ne_nil more,
    stays_append, stays_iff_dropLast first]
  simp only [Stays, balance_text_symbol, Int.add_zero]
  constructor
  · rintro ⟨⟨inner, positive⟩, -, later⟩
    exact ⟨inner, positive, later⟩
  · rintro ⟨inner, positive, later⟩
    exact ⟨⟨inner, positive⟩, positive, later⟩

/-- Levels that close what they open, and nothing more, make such a level when joined. -/
theorem closed_joined {s : Symbol} {sss : List (List Segment)} (nonempty : ∀ ss ∈ sss, ss ≠ [])
    (closed : ∀ ss ∈ sss, balance ss = 0) (stays : ∀ ss ∈ sss, Stays 1 ss.dropLast) :
    balance (joined s sss) = 0 ∧ Stays 1 (joined s sss).dropLast := by
  induction sss with
  | nil => exact ⟨rfl, trivial⟩
  | cons ss sss ih =>
    cases sss with
    | nil => simpa [joined_singleton] using And.intro (closed ss (by simp)) (stays ss (by simp))
    | cons ts sss =>
      obtain ⟨balanced, running⟩ := ih
        (fun us member => nonempty us (List.mem_cons_of_mem _ member))
        (fun us member => closed us (List.mem_cons_of_mem _ member))
        (fun us member => stays us (List.mem_cons_of_mem _ member))
      have first := closed ss (by simp)
      constructor
      · rw [balance_joined_cons_cons, first, balanced]
        rfl
      · rw [stays_joined_cons_cons (nonempty ss (by simp)) (nonempty ts (by simp)), first]
        exact ⟨stays ss (by simp), by omega, running⟩

end Segment

end GenreRelations
