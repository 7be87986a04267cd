import GenreRelations.Proofs.Compositional

/-!
White space between words. Two texts of the same words have the same segments, so reading one
follows the other step by step; only a fault of the whole text shows which of the two was read.
`Tree.parse_respaced` says so for texts with a symbol among their words. A text without one is a
single name, blanks included.
-/

namespace GenreRelations

open Segment (tokenize)

/-- The second outcome is the first, but for an error that carries the one text in the place of the
other. -/
def Restates {α : Type} (s t : Text) (x y : Except ParseError α) : Prop :=
  y = x.mapError (ParseError.restate s t)

namespace Restates

variable {α β : Type} {s t : Text}

theorem bind {x y : Except ParseError α} {f g : α → Except ParseError β} (first : Restates s t x y)
    (later : ∀ a, Restates s t (f a) (g a)) : Restates s t (x >>= f) (y >>= g) := by
  subst first
  cases x with
  | error e => rfl
  | ok a => exact later a

theorem mapM {f g : β → Except ParseError α} {xs : List β}
    (each : ∀ x ∈ xs, Restates s t (f x) (g x)) : Restates s t (xs.mapM f) (xs.mapM g) := by
  induction xs with
  | nil => rfl
  | cons x xs ih =>
    rw [List.mapM_cons, List.mapM_cons]
    refine (each x List.mem_cons_self).bind fun a => ?_
    exact (ih fun y member => each y (List.mem_cons_of_mem _ member)).bind fun as => rfl

end Restates

namespace Segment

theorem tokenize_eq_of_words {s t : Text} (same : s.words = t.words) : tokenize s = tokenize t :=
  congrArg ofWords same

theorem symbol_mem_tokenize {s : Text} {q : Symbol} (word : q.text ∈ s.words) :
    .symbol q ∈ tokenize s := by
  obtain ⟨front, back, parts⟩ := List.append_of_mem word
  rw [tokenize, parts, ofWords_append_symbol]
  simp

end Segment

namespace Expression

theorem parse_restates {s t : Text} {q : Symbol} (same : s.words = t.words)
    (word : q.text ∈ s.words) : Restates s t (Tree.parse s) (Tree.parse t) := by
  have segments : tokenize s = tokenize t := Segment.tokenize_eq_of_words same
  have symbol : .symbol q ∈ tokenize s := Segment.symbol_mem_tokenize word
  -- the levels are pieces of the text, so no error of a group in them carries the text
  have level : ∀ ss, ss <:+: tokenize s →
      Restates s t (Tree.parseLevel s ss) (Tree.parseLevel t ss) := by
    intro ss piece
    exact parseLevel_restate (Segment.weight_tokenize s ▸ weight_le_of_piece piece) t
  rw [parse_of_symbol symbol, parse_of_symbol (segments ▸ symbol), ← segments]
  refine .bind ((carriesText_dividerOf _).restate s t) fun found => ?_
  refine .bind ((carriesText_checkPositions _).restate s t) fun _ => ?_
  cases found with
  | none => exact level _ (List.infix_refl _)
  | some d =>
    refine .bind (.mapM fun ss member => ?_) fun trees => rfl
    exact level ss (piece_of_mem_splitOnP member)

end Expression

namespace Tree

open Expression

/-- Texts of the same words, a symbol among them, are parsed as the same tree or fail with the same
error. An error of the whole text carries each text as it is spelled; that of a group carries what
stands in parentheses between the words with single spaces. -/
theorem parse_respaced {s t : Text} {q : Symbol} (same : s.words = t.words)
    (word : q.text ∈ s.words) :
    (∀ u, parse s = .ok u ↔ parse t = .ok u) ∧
    ∀ e, parse s = .error e →
      (e.text = s → parse t = .error (e.withText t)) ∧
      (e.text ≠ s → parse t = .error e ∧ ('(' :: e.text ++ [')']) <:+: Text.unwords s.words) := by
  have restates : parse t = (parse s).mapError (.restate s t) := parse_restates same word
  constructor
  · intro u
    rw [restates]
    cases parse s <;> simp [Except.mapError]
  · intro e failed
    rw [failed] at restates
    refine ⟨fun own => ?_, fun other => ⟨?_, ?_⟩⟩
    · rw [restates, Except.mapError, ParseError.restate, if_pos own]
    · rw [restates, Except.mapError, ParseError.restate, if_neg other]
    · rw [← Segment.join_tokenize]
      exact (enclosed_text_of_failure failed).resolve_left other

theorem parse_respaced_ambiguous :
    Text.words "A | B > C".toList = Text.words " A\t|  B >\u3000C ".toList ∧
    ['|'] ∈ Text.words "A | B > C".toList ∧
    parse "A | B > C".toList = .error (.ambiguousGrouping "A | B > C".toList) ∧
    parse " A\t|  B >\u3000C ".toList = .error (.ambiguousGrouping " A\t|  B >\u3000C ".toList) := by
  have same : Text.words "A | B > C".toList = Text.words " A\t|  B >\u3000C ".toList := by decide
  have word : (Symbol.operator .blend).text ∈ Text.words "A | B > C".toList := by decide
  exact ⟨same, word, parse_ambiguous, ((parse_respaced same word).2 _ parse_ambiguous).1 rfl⟩

end Tree

end GenreRelations
