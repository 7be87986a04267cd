import GenreRelations.Tree.Basic

/-!
Walks over the tokens of a tree. A walk is suspended between two tokens: it holds what it has
still to visit, and nothing below that is opened before it is reached. `Walk.remaining_eq_tokens`
says that what a walk yields from here on is the tokens of what it holds. A session keeps several
walks over one tree, each of which moves on its own.
-/

namespace GenreRelations

/-- A tree or an operator that a walk has still to visit. -/
inductive Pending where
  | tree (tree : Tree)
  | operator (relation : Relation)

namespace Pending

/-- The operands of a chain after the first, each behind its operator. -/
def ofOperands (r : Relation) : List Tree → List Pending
  | [] => []
  | t :: ts => operator r :: tree t :: ofOperands r ts

def ofElements : List Element → List Pending
  | [] => []
  | .tree t :: es => tree t :: ofElements es
  | .symbol r :: es => operator r :: ofElements es

end Pending

/-- The visits that a walk has before it, the next one first. -/
abbrev Walk := List Pending

namespace Walk

/-- The walk before the first token of a tree. -/
def start (t : Tree) : Walk := [.tree t]

/-! ### Work -/

mutual

/-- The number of visits below and including a tree. -/
def treeWork : Tree → Nat
  | .leaf _ => 1
  | .pair l _ r => 2 + treeWork l + treeWork r
  | .chain _ ts => 1 + operandsWork ts
  | .sequence es => 1 + elementsWork es

def operandsWork : List Tree → Nat
  | [] => 0
  | t :: ts => 1 + treeWork t + operandsWork ts

def elementsWork : List Element → Nat
  | [] => 0
  | .tree t :: es => treeWork t + elementsWork es
  | .symbol _ :: es => 1 + elementsWork es

end

/-- The number of visits that a walk has before it. -/
def work : Walk → Nat
  | [] => 0
  | .tree t :: w => treeWork t + work w
  | .operator _ :: w => 1 + work w

theorem work_append (v w : Walk) : work (v ++ w) = work v + work w := by
  induction v with
  | nil => simp [work]
  | cons p v ih => cases p <;> simp [work, ih, Nat.add_assoc]

theorem work_ofOperands (r : Relation) (ts : List Tree) :
    work (Pending.ofOperands r ts) = operandsWork ts := by
  induction ts with
  | nil => rfl
  | cons t ts ih => simp [Pending.ofOperands, work, operandsWork, ih, Nat.add_assoc]

theorem work_ofElements (es : List Element) : work (Pending.ofElements es) = elementsWork es := by
  induction es with
  | nil => rfl
  | cons e es ih => cases e <;> simp [Pending.ofElements, work, elementsWork, ih]

/-! ### Steps -/

/-- The next token and the walk behind it, or nothing at the end. -/
def next : Walk → Option (Text × Walk)
  | [] => none
  | .operator r :: w => some (r.operator, w)
  | .tree (.leaf n) :: w => some (n, w)
  | .tree (.pair l r t) :: w => next (.tree l :: .operator r :: .tree t :: w)
  | .tree (.chain _ []) :: w => next w
  | .tree (.chain r (t :: ts)) :: w => next (.tree t :: (Pending.ofOperands r ts ++ w))
  | .tree (.sequence es) :: w => next (Pending.ofElements es ++ w)
  termination_by w => work w
  decreasing_by
    all_goals
      simp only [work, treeWork, operandsWork, work_append, work_ofOperands, work_ofElements]
      omega

theorem work_next {w v : Walk} {s : Text} (h : next w = some (s, v)) : work v < work w := by
  fun_induction next w with
  | case1 => simp at h
  | case2 r w =>
    obtain ⟨-, rfl⟩ := by simpa using h
    simp [work]
  | case3 n w =>
    obtain ⟨-, rfl⟩ := by simpa using h
    simp [work, treeWork]
  | case4 l r t w ih =>
    have := ih h
    simp only [work, treeWork] at this ⊢
    omega
  | case5 r w ih =>
    have := ih h
    simp only [work, treeWork, operandsWork] at this ⊢
    omega
  | case6 r t ts w ih =>
    have := ih h
    simp only [work, treeWork, operandsWork, work_append, work_ofOperands] at this ⊢
    omega
  | case7 es w ih =>
    have := ih h
    simp only [work, treeWork, work_append, work_ofElements] at this ⊢
    omega

/-- All tokens that a walk has before it. -/
def remaining (w : Walk) : List Text :=
  match _h : next w with
  | none => []
  | some (s, v) => s :: remaining v
  termination_by work w
  decreasing_by exact work_next _h

/-! ### Tokens -/

/-- The tokens of the visits that a walk holds. -/
def tokens : Walk → List Text
  | [] => []
  | .tree t :: w => t.tokens ++ tokens w
  | .operator r :: w => r.operator :: tokens w

theorem tokens_append (v w : Walk) : tokens (v ++ w) = tokens v ++ tokens w := by
  induction v with
  | nil => rfl
  | cons p v ih => cases p <;> simp [tokens, ih]

theorem tokens_ofOperands (r : Relation) (ts : List Tree) :
    tokens (Pending.ofOperands r ts) = Tree.operandsTokens r ts := by
  induction ts with
  | nil => rfl
  | cons t ts ih => simp [Pending.ofOperands, tokens, Tree.operandsTokens, ih]

theorem tokens_ofElements (es : List Element) :
    tokens (Pending.ofElements es) = Tree.elementsTokens es := by
  induction es with
  | nil => rfl
  | cons e es ih => cases e <;> simp [Pending.ofElements, tokens, Tree.elementsTokens, ih]

theorem tokens_eq_nil_of_next {w : Walk} (h : next w = none) : tokens w = [] := by
  fun_induction next w with
  | case1 => rfl
  | case2 => simp at h
  | case3 => simp at h
  | case4 l r t w ih => exact absurd (ih h) (by simp [tokens])
  | case5 r w ih => simpa [tokens, Tree.tokens] using ih h
  | case6 r t ts w ih =>
    simpa [tokens, Tree.tokens, tokens_append, tokens_ofOperands] using ih h
  | case7 es w ih =>
    simpa [tokens, Tree.tokens, tokens_append, tokens_ofElements] using ih h

theorem tokens_eq_cons_of_next {w v : Walk} {s : Text} (h : next w = some (s, v)) :
    tokens w = s :: tokens v := by
  fun_induction next w with
  | case1 => simp at h
  | case2 r w =>
    obtain ⟨rfl, rfl⟩ := by simpa using h
    rfl
  | case3 n w =>
    obtain ⟨rfl, rfl⟩ := by simpa using h
    rfl
  | case4 l r t w ih => simpa [tokens, Tree.tokens] using ih h
  | case5 r w ih => simpa [tokens, Tree.tokens] using ih h
  | case6 r t ts w ih =>
    simpa [tokens, Tree.tokens, tokens_append, tokens_ofOperands] using ih h
  | case7 es w ih =>
    simpa [tokens, Tree.tokens, tokens_append, tokens_ofElements] using ih h

theorem remaining_eq_tokens (w : Walk) : remaining w = tokens w := by
  fun_induction remaining w with
  | case1 w h => rw [tokens_eq_nil_of_next h]
  | case2 w s v h ih => rw [tokens_eq_cons_of_next h, ih]

end Walk

/-- The tokens of a tree, as a walk yields them. -/
def Tree.flat (t : Tree) : List Text := (Walk.start t).remaining

theorem Tree.flat_eq_tokens (t : Tree) : t.flat = t.tokens := by
  simp [flat, Walk.remaining_eq_tokens, Walk.start, Walk.tokens]

/-! ### Sessions -/

/-- Several walks over one tree, numbered from zero in the order in which they were made. -/
structure WalkSession where
  tree : Tree
  walks : List Walk

namespace WalkSession

/-- What can be asked of one walk. -/
inductive Request where
  /-- Move over the next token. -/
  | next
  /-- Make a new walk that stands at the same place. -/
  | fork
  /-- Go back to the first token. -/
  | restart
  /-- Move over all tokens up to the end. -/
  | rest
  /-- Say how many tokens remain, and stay. -/
  | count
  deriving DecidableEq, Repr

inductive Answer where
  /-- The token moved over, or none at the end. -/
  | token (token : Option Text)
  /-- The number of the new walk. -/
  | forked (walk : Nat)
  | restarted
  | tokens (tokens : List Text)
  | count (count : Nat)
  deriving DecidableEq, Repr

/-- One fresh walk over a tree. -/
def start (t : Tree) : WalkSession := ⟨t, [Walk.start t]⟩

/-- Asks walk `i`; there is no answer if it does not exist. -/
def ask (s : WalkSession) (i : Nat) (q : Request) : Option (Answer × WalkSession) :=
  s.walks[i]?.map fun w =>
    match q with
    | .next =>
      match w.next with
      | none => (.token none, { s with walks := s.walks.set i [] })
      | some (token, v) => (.token (some token), { s with walks := s.walks.set i v })
    | .fork => (.forked s.walks.length, { s with walks := s.walks ++ [w] })
    | .restart => (.restarted, { s with walks := s.walks.set i (Walk.start s.tree) })
    | .rest => (.tokens w.remaining, { s with walks := s.walks.set i [] })
    | .count => (.count w.remaining.length, s)

/-- The answers to a list of requests, each with the number of the walk that is asked. -/
def answers (s : WalkSession) : List (Nat × Request) → Option (List Answer)
  | [] => some []
  | (i, q) :: qs => do
    let (a, s') ← s.ask i q
    return a :: (← s'.answers qs)

end WalkSession

end GenreRelations
