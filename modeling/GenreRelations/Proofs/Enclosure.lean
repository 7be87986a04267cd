import GenreRelations.Proofs.Alternation
import GenreRelations.Proofs.Balance

/-!
Groups and what they enclose. The text inside a group is read into segments anew, so words can
vanish with their parenthesis or turn into symbols. `Group.encloses_inside` says that names and
symbols can only take turns inside if nothing of the kind happened: the inside is the group without
one parenthesis, and perhaps one space, at its first and its last name.
-/

namespace GenreRelations

namespace Group

open Segment (Alternating Stays ofWords)

/-- The segments between the outer parentheses of a group. -/
def inside (g : List Segment) : List Segment := Segment.tokenize (inner g)

/-- The first segments are the second in parentheses, which a space may keep off the names. -/
inductive Encloses : List Segment → List Segment → Prop
  | intro {n a m b : Text} {ms : List Segment} (opening : n = a ∨ n = ' ' :: a)
      (closing : m = b ∨ m = b ++ [' ']) :
      Encloses (.name ('(' :: n) :: (ms ++ [.name (m ++ [')'])])) (.name a :: (ms ++ [.name b]))

theorem Enclosed.names {g : List Segment} (enclosed : Enclosed g) :
    ∃ n ms m, g = .name ('(' :: n) :: (ms ++ [.name (m ++ [')'])]) := by
  obtain ⟨n, ms, t, rfl, closes⟩ := enclosed.parts
  have last : t.text.getLast? = some ')' := by simpa [Group.closes] using closes
  cases t with
  | symbol s =>
    exfalso
    revert last
    rcases s with r | r <;> cases r <;> decide
  | name u =>
    obtain ⟨m, rfl⟩ := List.getLast?_eq_some_iff.mp last
    exact ⟨n, ms, m, rfl⟩

theorem inner_names (n m : Text) (ms : List Segment) :
    inner (.name ('(' :: n) :: (ms ++ [.name (m ++ [')'])])) =
      Segment.join (.name n :: (ms ++ [.name m])) := by
  have joined : ∀ u v : Text, Segment.join (.name u :: (ms ++ [.name v])) =
      Text.unwords (u :: ms.map Segment.text) ++ ' ' :: v := by
    intro u v
    rw [Segment.join, ← Text.unwords_concat]
    simp [Segment.text]
  rw [inner, joined, joined, Text.unwords_cons_char, List.cons_append, dropOpening, dropClosing]
  have last : (Text.unwords (n :: ms.map Segment.text) ++ ' ' :: (m ++ [')'])).getLast? =
      some ')' := by simp [List.getLast?_append, List.getLast?_cons]
  rw [if_pos last, ← List.cons_append, ← List.append_assoc, List.dropLast_concat]

/-! ### Names without a parenthesis -/

theorem plain_of_alternating {w : Text} {ws : List Text}
    (alternating : Alternating (ofWords (w :: ws))) : Symbol.ofWord? w = none := by
  cases symbol : Symbol.ofWord? w with
  | none => rfl
  | some s =>
    rw [ofWords, symbol] at alternating
    exact absurd alternating Alternating.not_symbol

/-- A name that is left when `(` is taken off starts at the parenthesis or behind one space. -/
theorem exists_name_of_opening {n : Text} (outer : Text.IsName ('(' :: n))
    (alternating : Alternating (ofWords n.words)) :
    ∃ a : Text, a.IsName ∧ a.words = n.words ∧ (n = a ∨ n = ' ' :: a) := by
  obtain ⟨v, vs, spaced, plain⟩ := outer.exists_cons
  obtain ⟨word, -⟩ := plain v List.mem_cons_self
  obtain ⟨c, w, rfl⟩ := List.exists_cons_of_ne_nil word.1
  rw [Text.unwords_cons_char] at spaced
  obtain ⟨-, rfl⟩ := List.cons.inj spaced
  have later : ∀ u ∈ vs, Text.IsPlain u := fun u member => plain u (List.mem_cons_of_mem _ member)
  -- the first word was the parenthesis alone, or the rest of it is a word still
  by_cases emptied : w = []
  · subst emptied
    have remains : vs ≠ [] := by
      rintro rfl
      rw [Text.unwords_singleton, Text.words_nil] at alternating
      exact alternating.ne_nil rfl
    have behind := Text.unwords_cons [] remains
    refine ⟨Text.unwords vs, Text.isName_unwords remains later, ?_, .inr behind⟩
    rw [behind, List.nil_append, Text.words_cons_blank Text.isBlank_space]
  · have first : Text.IsWord w :=
      ⟨emptied, fun x member => word.2 x (List.mem_cons_of_mem _ member)⟩
    have words : (Text.unwords (w :: vs)).words = w :: vs := by
      refine Text.words_unwords fun u member => ?_
      rcases List.mem_cons.mp member with rfl | member
      · exact first
      · exact (later u member).1
    rw [words] at alternating
    refine ⟨_, Text.isName_unwords (by simp) fun u member => ?_, rfl, .inl rfl⟩
    rcases List.mem_cons.mp member with rfl | member
    · exact ⟨first, plain_of_alternating alternating⟩
    · exact later u member

theorem not_alternating_ofWords_symbol (ws : List Text) (s : Symbol) :
    ¬ Alternating (ofWords (ws ++ [s.text])) := by
  intro alternating
  rw [Segment.ofWords_append_symbol, Segment.alternating_append_symbol] at alternating
  exact alternating.2.ne_nil rfl

theorem plain_of_alternating_concat {ws : List Text} {w : Text}
    (alternating : Alternating (ofWords (ws ++ [w]))) : Symbol.ofWord? w = none := by
  cases symbol : Symbol.ofWord? w with
  | none => rfl
  | some s =>
    rw [← Symbol.text_of_ofWord? symbol] at alternating
    exact absurd alternating (not_alternating_ofWords_symbol ws s)

/-- A name that is left when `)` is taken off ends at the parenthesis or before one space. -/
theorem exists_name_of_closing {m : Text} (outer : Text.IsName (m ++ [')']))
    (alternating : Alternating (ofWords m.words)) :
    ∃ b : Text, b.IsName ∧ b.words = m.words ∧ (m = b ∨ m = b ++ [' ']) := by
  obtain ⟨vs, v, spaced, plain⟩ := outer.exists_concat
  obtain ⟨word, -⟩ := plain v (by simp)
  obtain ⟨w, c, rfl⟩ := (List.eq_nil_or_concat v).resolve_left word.1
  rw [List.concat_eq_append] at word spaced
  rw [Text.unwords_concat_char] at spaced
  obtain ⟨rfl, -⟩ := List.append_inj' spaced rfl
  have before : ∀ u ∈ vs, Text.IsPlain u := fun u member => plain u (List.mem_append_left _ member)
  -- the last word was the parenthesis alone, or the rest of it is a word still
  by_cases emptied : w = []
  · subst emptied
    have remains : vs ≠ [] := by
      rintro rfl
      rw [List.nil_append, Text.unwords_singleton, Text.words_nil] at alternating
      exact alternating.ne_nil rfl
    have behind : Text.unwords (vs ++ [[]]) = Text.unwords vs ++ [' '] := by
      rw [Text.unwords_append remains (by simp), Text.unwords_singleton]
    refine ⟨Text.unwords vs, Text.isName_unwords remains before, ?_, .inr behind⟩
    rw [behind, Text.words_append_blank Text.isBlank_space, Text.words_nil, List.append_nil]
  · have last : Text.IsWord w :=
      ⟨emptied, fun x member => word.2 x (List.mem_append_left _ member)⟩
    have words : (Text.unwords (vs ++ [w])).words = vs ++ [w] := by
      refine Text.words_unwords fun u member => ?_
      rcases List.mem_append.mp member with member | member
      · exact (before u member).1
      · exact List.mem_singleton.mp member ▸ last
    rw [words] at alternating
    refine ⟨_, Text.isName_unwords (by simp) fun u member => ?_, rfl, .inl rfl⟩
    rcases List.mem_append.mp member with member | member
    · exact before u member
    · obtain rfl := List.mem_singleton.mp member
      exact ⟨last, plain_of_alternating_concat alternating⟩

/-! ### The inside of a group -/

theorem inside_names (n m : Text) (ms : List Segment) :
    inside (.name ('(' :: n) :: (ms ++ [.name (m ++ [')'])])) =
      ofWords ((Segment.name n :: (ms ++ [.name m])).flatMap Segment.words) := by
  rw [inside, Segment.tokenize, inner_names, Segment.words_join]

/-- Between the first and the last name of an alternation a symbol comes first and a symbol last. -/
theorem exists_symbols {n m : Text} {ms : List Segment}
    (alternating : Alternating (.name n :: (ms ++ [.name m]))) :
    (∃ s back, ms = .symbol s :: back) ∧ ∃ t front, ms = front ++ [.symbol t] := by
  constructor
  · obtain ⟨-, behind⟩ := @Alternating.behind [] _ _ alternating
    rcases behind with empty | ⟨s, after, start, -⟩
    · simp at empty
    · cases ms with
      | nil => simp at start
      | cons t ms =>
        obtain ⟨rfl, -⟩ := List.cons.inj start
        exact ⟨s, ms, rfl⟩
  · obtain ⟨-, before⟩ := @Alternating.before_last (.name n :: ms) _ alternating
    rcases before with empty | ⟨front, t, ending, front_alternating⟩
    · simp at empty
    · cases front with
      | nil => exact absurd rfl front_alternating.ne_nil
      | cons u front =>
        obtain ⟨-, ending⟩ := List.cons.inj ending
        exact ⟨t, front, ending⟩

/-- If names and symbols take turns inside, then the inside is the group without its parentheses. -/
theorem encloses_inside {g : List Segment} (alternating : Alternating g) (enclosed : Enclosed g)
    (within : Alternating (inside g)) : Encloses g (inside g) := by
  obtain ⟨n, ms, m, rfl⟩ := enclosed.names
  obtain ⟨last, -⟩ := @Alternating.before_last (.name ('(' :: n) :: ms) _ alternating
  have first := alternating.head
  obtain ⟨⟨s, back, start⟩, t, front, ending⟩ := exists_symbols alternating
  have opens : Alternating (ofWords (Text.words n)) := by
    have parted : (Segment.name n :: (ms ++ [.name m])).flatMap Segment.words =
        Text.words n ++ s.text :: (back ++ [Segment.name m]).flatMap Segment.words := by
      simp [start, Segment.words_name, Segment.words_symbol]
    rw [inside_names, parted, Segment.ofWords_append_symbol,
      Segment.alternating_append_symbol] at within
    exact within.1
  have closes : Alternating (ofWords m.words) := by
    have parted : (Segment.name n :: (ms ++ [.name m])).flatMap Segment.words =
        (Segment.name n :: front).flatMap Segment.words ++ t.text :: m.words := by
      simp [ending, Segment.words_name, Segment.words_symbol]
    rw [inside_names, parted, Segment.ofWords_append_symbol,
      Segment.alternating_append_symbol] at within
    exact within.2
  obtain ⟨a, aName, aWords, opening⟩ := exists_name_of_opening first opens
  obtain ⟨b, bName, bWords, closing⟩ := exists_name_of_closing last closes
  have renamed : Alternating (.name a :: (ms ++ [.name b])) :=
    @Alternating.with_last (.name a :: ms) _ _ (alternating.with_head aName) bName
  have restored : inside (.name ('(' :: n) :: (ms ++ [.name (m ++ [')'])])) =
      .name a :: (ms ++ [.name b]) := by
    rw [inside_names, ← Segment.ofWords_words renamed.proper]
    simp [Segment.words_name, aWords, bWords]
  rw [restored]
  exact .intro opening closing

/-- Segments in parentheses are the inside of the group that they make. -/
theorem inside_of_encloses {outer inner : List Segment} (encloses : Encloses outer inner)
    (alternating : Alternating inner) : inside outer = inner := by
  obtain @⟨n, a, m, b, ms, opening, closing⟩ := encloses
  have opened : Text.words n = a.words := by
    rcases opening with rfl | rfl
    · rfl
    · exact Text.words_cons_blank Text.isBlank_space a
  have closed : m.words = b.words := by
    rcases closing with rfl | rfl
    · rfl
    · rw [Text.words_append_blank Text.isBlank_space, Text.words_nil, List.append_nil]
  rw [inside_names, ← Segment.ofWords_words alternating.proper]
  simp [Segment.words_name, opened, closed]

namespace Encloses

variable {outer inner : List Segment}

theorem symbol_mem (encloses : Encloses outer inner) {s : Symbol} :
    .symbol s ∈ outer ↔ .symbol s ∈ inner := by
  obtain @⟨n, a, m, b, ms, -, -⟩ := encloses
  simp

theorem undivided_iff (encloses : Encloses outer inner) :
    (∀ s ∈ outer, s.isDivider = false) ↔ ∀ s ∈ inner, s.isDivider = false := by
  constructor
  · rintro undivided (n | s) member
    · rfl
    · exact undivided _ (encloses.symbol_mem.mpr member)
  · rintro undivided (n | s) member
    · rfl
    · exact undivided _ (encloses.symbol_mem.mp member)

theorem several (encloses : Encloses outer inner) : 2 ≤ inner.length := by
  obtain @⟨n, a, m, b, ms, -, -⟩ := encloses
  simp

theorem enclosed (encloses : Encloses outer inner) : Enclosed outer := by
  obtain @⟨n, a, m, b, ms, -, -⟩ := encloses
  exact ⟨_, ms, _, rfl, rfl, by simp [closes, Segment.text]⟩

theorem text_balance (encloses : Encloses outer inner) :
    ∃ n a ms m b, outer = .name n :: (ms ++ [.name m]) ∧ inner = .name a :: (ms ++ [.name b]) ∧
      n.balance = a.balance + 1 ∧ m.balance = b.balance - 1 := by
  obtain @⟨n, a, m, b, ms, opening, closing⟩ := encloses
  have opened : Text.balance n = a.balance := by
    rcases opening with rfl | rfl
    · rfl
    · exact Text.balance_space a
  have closed : m.balance = b.balance := by
    rcases closing with rfl | rfl
    · rfl
    · have space : Text.balance [' '] = 0 := by decide
      rw [Text.balance_append, space, Int.add_zero]
  refine ⟨_, a, ms, _, b, rfl, rfl, ?_, ?_⟩
  · rw [Text.balance_opening, opened]
  · rw [Text.balance_closing, closed]

theorem balance (encloses : Encloses outer inner) :
    Segment.balance outer = Segment.balance inner := by
  obtain ⟨n, a, ms, m, b, rfl, rfl, opened, closed⟩ := encloses.text_balance
  simp only [Segment.balance, Segment.balance_append, Segment.text]
  omega

theorem stays (encloses : Encloses outer inner) {d : Int} :
    Stays d outer.dropLast ↔ Stays (d + 1) inner.dropLast := by
  obtain ⟨n, a, ms, m, b, rfl, rfl, opened, -⟩ := encloses.text_balance
  rw [← List.cons_append, ← List.cons_append, List.dropLast_concat, List.dropLast_concat]
  simp only [Stays, Segment.text, opened]
  rw [show d + (a.balance + 1) = d + 1 + a.balance by omega]

/-- Segments in parentheses are a run if the balance of the inside never falls below zero. -/
theorem isRun_iff (encloses : Encloses outer inner) :
    IsRun outer ↔ Stays 1 inner.dropLast ∧ Segment.balance inner ≤ 0 := by
  constructor
  · rintro ⟨-, stays, closed⟩
    exact ⟨encloses.stays.mp stays, encloses.balance ▸ closed⟩
  · rintro ⟨stays, closed⟩
    exact ⟨encloses.enclosed, encloses.stays.mpr stays, encloses.balance.symm ▸ closed⟩

end Encloses

end Group

/-- Segments that an operator level is made of: names and operators in turn. -/
structure Segment.IsLevel (ss : List Segment) : Prop where
  alternating : Segment.Alternating ss
  undivided : ∀ s ∈ ss, s.isDivider = false

/-- A run whose inside is a level of its own. -/
structure Group.IsGroup (g : List Segment) : Prop where
  run : Group.IsRun g
  level : Segment.IsLevel g
  inside : Segment.IsLevel (Group.inside g)

namespace Group

theorem IsGroup.encloses {g : List Segment} (group : IsGroup g) :
    Encloses g (Group.inside g) :=
  encloses_inside group.level.alternating group.run.enclosed group.inside.alternating

/-- A level whose balance never falls below zero makes a group, put in parentheses. -/
theorem Encloses.isGroup {outer inner : List Segment} (encloses : Encloses outer inner)
    (alternating : Segment.Alternating outer) (level : Segment.IsLevel inner)
    (stays : Segment.Stays 1 inner.dropLast) (closed : Segment.balance inner ≤ 0) :
    IsGroup outer ∧ Group.inside outer = inner := by
  have inside : Group.inside outer = inner := inside_of_encloses encloses level.alternating
  refine ⟨⟨encloses.isRun_iff.mpr ⟨stays, closed⟩, ⟨alternating, ?_⟩, ?_⟩, inside⟩
  · exact encloses.undivided_iff.mpr level.undivided
  · rwa [inside]

end Group

end GenreRelations
