import GenreRelations.Relation
import GenreRelations.Text.Words

/-!
Segments of an expression: genre names and the symbols between them. A name is a maximal run of
words that are no symbols, with single spaces. No run means no segment, so two symbols in a row
stay neighbours.
-/

namespace GenreRelations

/-- A genre name or one symbol. -/
inductive Segment where
  | name (name : Text)
  | symbol (symbol : Symbol)
  deriving DecidableEq, Repr

namespace Segment

def text : Segment → Text
  | name n => n
  | symbol s => s.text

def symbol? : Segment → Option Symbol
  | name _ => none
  | symbol s => some s

def name? : Segment → Option Text
  | name n => some n
  | symbol _ => none

def isName : Segment → Bool
  | name _ => true
  | symbol _ => false

def isDivider : Segment → Bool
  | symbol (.divider _) => true
  | _ => false

def ofWords : List Text → List Segment
  | [] => []
  | w :: ws =>
    match Symbol.ofWord? w with
    | some s => symbol s :: ofWords ws
    | none =>
      match ofWords ws with
      | name n :: rest => name (w ++ ' ' :: n) :: rest
      | rest => name w :: rest

/-- The segments of a text. -/
def tokenize (s : Text) : List Segment := ofWords s.words

/-- The segments as text, one space between neighbours. -/
def join (ss : List Segment) : Text := Text.unwords (ss.map text)

/-! ### Weight -/

/-- The number of characters of the segments that are not blank. -/
def weight (ss : List Segment) : Nat := Text.totalWeight (ss.map text)

theorem weight_nil : weight [] = 0 := rfl

theorem weight_cons (s : Segment) (ss : List Segment) :
    weight (s :: ss) = s.text.weight + weight ss := rfl

theorem weight_append (ss ts : List Segment) : weight (ss ++ ts) = weight ss + weight ts := by
  induction ss with
  | nil => simp [weight_nil]
  | cons s ss ih => simp [weight_cons, ih, Nat.add_assoc]

theorem weight_join (ss : List Segment) : (join ss).weight = weight ss := by
  rw [join, Text.weight_unwords, weight]

theorem weight_ofWords (ws : List Text) : weight (ofWords ws) = Text.totalWeight ws := by
  induction ws with
  | nil => rfl
  | cons w ws ih =>
    rw [ofWords, Text.totalWeight, ← ih]
    cases hw : Symbol.ofWord? w with
    | some s => simp [weight_cons, text, Symbol.text_of_ofWord? hw]
    | none =>
      have hspace : Text.isBlank ' ' = true := by decide
      cases hs : ofWords ws with
      | nil => simp [weight_cons, text]
      | cons s rest =>
        cases s with
        | name n =>
          simp [weight_cons, text, Text.weight_append, Text.weight_cons, hspace, Nat.add_assoc]
        | symbol t => simp [weight_cons, text]

theorem weight_tokenize (s : Text) : weight (tokenize s) = s.weight := by
  rw [tokenize, weight_ofWords, Text.totalWeight_words]

end Segment

end GenreRelations
