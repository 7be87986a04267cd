import GenreRelations.Text.Basic

/-!
Words: the maximal runs of characters that are not blank. Joining words puts one space between
neighbours. Splitting and joining both keep the weight of a text.
-/

namespace GenreRelations.Text

/-- The words of a text, in order. -/
def words (s : Text) : List Text := (s.splitOnP isBlank).filter fun w => !w.isEmpty

/-- The words with one space between neighbours. -/
def unwords (ws : List Text) : Text := [' '].intercalate ws

/-! ### Weight -/

def totalWeight : List Text → Nat
  | [] => 0
  | w :: ws => weight w + totalWeight ws

theorem unwords_nil : unwords [] = [] := rfl

theorem unwords_singleton (w : Text) : unwords [w] = w := by
  simp [unwords, List.intercalate]

theorem unwords_cons_cons (v w : Text) (ws : List Text) :
    unwords (v :: w :: ws) = v ++ ' ' :: unwords (w :: ws) := by
  simp [unwords, List.intercalate]

theorem unwords_cons_char (c : Char) (v : Text) (ws : List Text) :
    unwords ((c :: v) :: ws) = c :: unwords (v :: ws) := by
  cases ws with
  | nil => simp [unwords_singleton]
  | cons w ws => simp [unwords_cons_cons]

theorem unwords_concat (v w : Text) (ws : List Text) :
    unwords (v :: ws ++ [w]) = unwords (v :: ws) ++ ' ' :: w := by
  induction ws generalizing v with
  | nil => simp [unwords_singleton, unwords_cons_cons]
  | cons u ws ih =>
    rw [List.cons_append, List.cons_append, unwords_cons_cons, ← List.cons_append, ih,
      unwords_cons_cons]
    simp

theorem weight_unwords (ws : List Text) : weight (unwords ws) = totalWeight ws := by
  induction ws with
  | nil => rfl
  | cons v rest ih =>
    cases rest with
    | nil => simp [unwords_singleton, totalWeight]
    | cons w ws =>
      have hspace : isBlank ' ' = true := by decide
      rw [unwords_cons_cons, weight_append, weight_cons, ih, hspace]
      simp [totalWeight]

theorem totalWeight_splitOnP (s : Text) : totalWeight (s.splitOnP isBlank) = weight s := by
  induction s with
  | nil => rfl
  | cons c s ih =>
    rw [List.splitOnP_cons_eq_if_modifyHead, weight_cons, ← ih]
    by_cases h : isBlank c
    · simp [h, totalWeight, weight_nil]
    · cases hs : s.splitOnP isBlank with
      | nil => exact absurd hs (List.splitOnP_ne_nil _ _)
      | cons w ws => simp [h, totalWeight, weight_cons, Nat.add_assoc]

theorem totalWeight_nonempty (ws : List Text) :
    totalWeight (ws.filter fun w => !w.isEmpty) = totalWeight ws := by
  induction ws with
  | nil => rfl
  | cons w ws ih =>
    cases w with
    | nil => simp [totalWeight, weight_nil, ih]
    | cons c s => simp [totalWeight, ih]

theorem totalWeight_words (s : Text) : totalWeight (words s) = weight s := by
  rw [words, totalWeight_nonempty, totalWeight_splitOnP]

end GenreRelations.Text
