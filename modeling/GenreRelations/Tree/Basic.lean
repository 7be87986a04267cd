import GenreRelations.Relation
import GenreRelations.Text.Order
import GenreRelations.Text.Words

/-!
Trees of genres: what an expression means. A tree shows as canonical text, as the tokens of its
names and symbols in order, and as the unordered sets of its names and relations.
-/

namespace GenreRelations

mutual

/-- A tree of genres joined by relations. -/
inductive Tree where
  /-- A genre name. -/
  | leaf (name : Text)
  /-- Two operands of one relation. -/
  | pair (left : Tree) (relation : Relation) (right : Tree)
  /-- Operands all joined by one relation, with no grouping among them. -/
  | chain (relation : Relation) (operands : List Tree)
  /-- Trees and symbols side by side. -/
  | sequence (elements : List Element)

/-- One position of a sequence. -/
inductive Element where
  | tree (tree : Tree)
  | symbol (relation : Relation)

end

namespace Tree

def isLeaf : Tree → Bool
  | leaf _ => true
  | _ => false

/-! ### Depth -/

mutual

/-- The number of nesting levels; a leaf has one. -/
def depth : Tree → Nat
  | leaf _ => 1
  | pair l _ r => 1 + max l.depth r.depth
  | chain _ ts => 1 + operandsDepth ts
  | sequence es => 1 + elementsDepth es

def operandsDepth : List Tree → Nat
  | [] => 0
  | t :: ts => max t.depth (operandsDepth ts)

/-- The depth of the deepest element; symbols have none. -/
def elementsDepth : List Element → Nat
  | [] => 0
  | .tree t :: es => max t.depth (elementsDepth es)
  | .symbol _ :: es => elementsDepth es

end

/-! ### Canonical text -/

/-- The text of an operand: a composite tree stands in parentheses. -/
def enclose (isLeaf : Bool) (s : Text) : Text := if isLeaf then s else '(' :: s ++ [')']

mutual

/-- The expression that writes the tree, with every grouping explicit. -/
def canonical : Tree → Text
  | leaf n => n
  | pair l r t =>
    Text.unwords [enclose l.isLeaf l.canonical, r.operator, enclose t.isLeaf t.canonical]
  | chain r ts => Text.unwords ((operandTexts ts).intersperse r.operator)
  | sequence es => Text.unwords (elementTexts es)

def operandTexts : List Tree → List Text
  | [] => []
  | t :: ts => enclose t.isLeaf t.canonical :: operandTexts ts

def elementTexts : List Element → List Text
  | [] => []
  | .tree t :: es => enclose t.isLeaf t.canonical :: elementTexts es
  | .symbol r :: es => r.operator :: elementTexts es

end

/-! ### Tokens -/

mutual

/-- The names and operators of the tree from left to right. -/
def tokens : Tree → List Text
  | leaf n => [n]
  | pair l r t => l.tokens ++ r.operator :: t.tokens
  | chain _ [] => []
  | chain r (t :: ts) => t.tokens ++ operandsTokens r ts
  | sequence es => elementsTokens es

/-- The tokens of the operands after the first, each behind its operator. -/
def operandsTokens (r : Relation) : List Tree → List Text
  | [] => []
  | t :: ts => r.operator :: t.tokens ++ operandsTokens r ts

def elementsTokens : List Element → List Text
  | [] => []
  | .tree t :: es => t.tokens ++ elementsTokens es
  | .symbol r :: es => r.operator :: elementsTokens es

end

/-! ### The unordered view -/

mutual

/-- The names at the leaves, from left to right. -/
def leaves : Tree → List Text
  | leaf n => [n]
  | pair l _ r => l.leaves ++ r.leaves
  | chain _ ts => operandsLeaves ts
  | sequence es => elementsLeaves es

def operandsLeaves : List Tree → List Text
  | [] => []
  | t :: ts => t.leaves ++ operandsLeaves ts

def elementsLeaves : List Element → List Text
  | [] => []
  | .tree t :: es => t.leaves ++ elementsLeaves es
  | .symbol _ :: es => elementsLeaves es

end

mutual

/-- The relations that join something: a chain relates only two operands or more. -/
def relations : Tree → List Relation
  | leaf _ => []
  | pair l r t => l.relations ++ r :: t.relations
  | chain r ts => (if 1 < ts.length then [r] else []) ++ operandsRelations ts
  | sequence es => elementsRelations es

def operandsRelations : List Tree → List Relation
  | [] => []
  | t :: ts => t.relations ++ operandsRelations ts

def elementsRelations : List Element → List Relation
  | [] => []
  | .tree t :: es => t.relations ++ elementsRelations es
  | .symbol r :: es => r :: elementsRelations es

end

/-- The distinct names and relations of a tree, both in increasing order. -/
structure Unordered where
  names : List Text
  relations : List Relation
  deriving DecidableEq, Repr

def unordered (t : Tree) : Unordered :=
  ⟨Text.sorted t.leaves, Relation.distinct t.relations⟩

end Tree

end GenreRelations
