import GenreRelations.Expression.Parse
import GenreRelations.Tree.Wire

/-!
Composite trees by their elements. A pair, a chain and a sequence show the same text, tokens and
relations as the trees and symbols that they hold, so what is proved of elements holds of all three.
-/

namespace GenreRelations

open Expression (joined)

namespace Element

/-- Trees and the symbol of one relation take turns, a tree first and last. -/
inductive Alternate (r : Relation) : List Element → Prop
  | tree (t : Tree) : Alternate r [.tree t]
  | cons (t : Tree) {es : List Element} (rest : Alternate r es) :
      Alternate r (.tree t :: .symbol r :: es)

theorem Alternate.odd {r : Relation} {es : List Element} (alternate : Alternate r es) :
    es.length % 2 = 1 := by
  induction alternate with
  | tree => rfl
  | cons _ _ ih =>
    rw [List.length_cons, List.length_cons]
    omega

theorem alternate_joined (r : Relation) {ts : List Tree} (nonempty : ts ≠ []) :
    Alternate r (joined r ts) := by
  induction ts with
  | nil => exact absurd rfl nonempty
  | cons t ts ih =>
    cases ts with
    | nil => exact .tree t
    | cons u ts => exact .cons t (ih (by simp))

theorem Alternate.exists_trees {r : Relation} {es : List Element} (alternate : Alternate r es) :
    ∃ ts, es = joined r ts := by
  induction alternate with
  | tree t => exact ⟨[t], rfl⟩
  | @cons t es rest ih =>
    obtain ⟨ts, rfl⟩ := ih
    cases ts with
    | nil => cases rest
    | cons u ts => exact ⟨t :: u :: ts, rfl⟩

end Element

namespace Tree

/-! ### Trees between symbols -/

theorem length_joined (r : Relation) (ts : List Tree) :
    (joined r ts).length = 2 * ts.length - 1 := by
  induction ts with
  | nil => rfl
  | cons t ts ih =>
    cases ts with
    | nil => rfl
    | cons u ts =>
      simp only [joined, List.length_cons] at ih ⊢
      omega

theorem symbol_mem_joined {r q : Relation} {ts : List Tree} :
    .symbol q ∈ joined r ts ↔ 2 ≤ ts.length ∧ q = r := by
  induction ts with
  | nil => simp [joined]
  | cons t ts ih =>
    cases ts with
    | nil => simp [joined]
    | cons u ts =>
      simp only [joined, List.mem_cons, reduceCtorEq, false_or, Element.symbol.injEq, ih]
      constructor
      · rintro (same | ⟨-, same⟩)
        · exact ⟨by simp, same⟩
        · exact ⟨by simp, same⟩
      · rintro ⟨-, same⟩
        exact .inl same

theorem treesOf_joined (r : Relation) (ts : List Tree) : treesOf (joined r ts) = ts := by
  induction ts with
  | nil => rfl
  | cons t ts ih =>
    cases ts with
    | nil => rfl
    | cons u ts => rw [joined, treesOf, treesOf, ih]

/-- The text of a tree where it is an operand. -/
def operandText (t : Tree) : Text := enclose t.isLeaf t.canonical

theorem operandTexts_eq_map (ts : List Tree) : operandTexts ts = ts.map operandText := by
  induction ts with
  | nil => rfl
  | cons t ts ih =>
    rw [operandTexts, ih]
    rfl

theorem elementTexts_joined (r : Relation) (ts : List Tree) :
    elementTexts (joined r ts) = (ts.map operandText).intersperse r.operator := by
  induction ts with
  | nil => rfl
  | cons t ts ih =>
    cases ts with
    | nil => rfl
    | cons u ts =>
      rw [joined, elementTexts, elementTexts, ih]
      rfl

theorem elementsTokens_joined_cons (r : Relation) (t : Tree) (ts : List Tree) :
    elementsTokens (joined r (t :: ts)) = t.tokens ++ operandsTokens r ts := by
  induction ts generalizing t with
  | nil => rfl
  | cons u ts ih =>
    rw [joined, elementsTokens, elementsTokens, ih]
    rfl

theorem elementsTokens_joined (r : Relation) (ts : List Tree) :
    elementsTokens (joined r ts) = [r.operator].intercalate (ts.map tokens) := by
  induction ts with
  | nil => rfl
  | cons t ts ih =>
    cases ts with
    | nil => simp [joined, elementsTokens, List.intercalate]
    | cons u ts =>
      rw [joined, elementsTokens, elementsTokens, ih]
      simp [List.intercalate]

theorem leaf_or_composite (t : Tree) : (∃ n, t = leaf n) ∨ t.isLeaf = false := by
  cases t with
  | leaf n => exact .inl ⟨n, rfl⟩
  | pair l r t => exact .inr rfl
  | chain r ts => exact .inr rfl
  | sequence es => exact .inr rfl

/-! ### Elements -/

/-- The trees and symbols side by side in a composite tree. -/
def elements : Tree → List Element
  | leaf _ => []
  | pair l r t => [.tree l, .symbol r, .tree t]
  | chain r ts => joined r ts
  | sequence es => es

/-- The trees directly below a tree. -/
def children : Tree → List Tree
  | leaf _ => []
  | pair l _ t => [l, t]
  | chain _ ts => ts
  | sequence es => treesOf es

theorem children_eq_treesOf (t : Tree) : t.children = treesOf t.elements := by
  cases t with
  | chain r ts => exact (treesOf_joined r ts).symm
  | _ => rfl

theorem canonical_eq_unwords {t : Tree} (composite : t.isLeaf = false) :
    t.canonical = Text.unwords (elementTexts t.elements) := by
  cases t with
  | leaf n => simp [isLeaf] at composite
  | pair l r t => rfl
  | chain r ts => rw [canonical, operandTexts_eq_map, elements, elementTexts_joined]
  | sequence es => rfl

theorem tokens_eq_elementsTokens {t : Tree} (composite : t.isLeaf = false) :
    t.tokens = elementsTokens t.elements := by
  cases t with
  | leaf n => simp [isLeaf] at composite
  | pair l r t => simp [tokens, elements, elementsTokens]
  | chain r ts =>
    cases ts with
    | nil => rfl
    | cons t ts => rw [tokens, elements, elementsTokens_joined_cons]
  | sequence es => rfl

theorem tokens_chain (r : Relation) (ts : List Tree) :
    (chain r ts).tokens = [r.operator].intercalate (ts.map tokens) := by
  rw [tokens_eq_elementsTokens rfl, elements, elementsTokens_joined]

theorem mem_elementsRelations {es : List Element} {q : Relation} :
    q ∈ elementsRelations es ↔ (∃ c ∈ treesOf es, q ∈ c.relations) ∨ .symbol q ∈ es := by
  induction es with
  | nil => simp [elementsRelations, treesOf]
  | cons e es ih =>
    cases e with
    | tree t => simp [elementsRelations, treesOf, ih, or_assoc]
    | symbol r => simp [elementsRelations, treesOf, ih, or_left_comm]

theorem mem_operandsRelations {ts : List Tree} {q : Relation} :
    q ∈ operandsRelations ts ↔ ∃ c ∈ ts, q ∈ c.relations := by
  induction ts with
  | nil => simp [operandsRelations]
  | cons t ts ih => simp [operandsRelations, ih]

/-- The relations of a tree are those of its symbols and of the trees below it. -/
theorem mem_relations {t : Tree} {q : Relation} :
    q ∈ t.relations ↔ (∃ c ∈ t.children, q ∈ c.relations) ∨ .symbol q ∈ t.elements := by
  cases t with
  | leaf n => simp [relations, children, elements]
  | pair l r t => simp [relations, children, elements, or_left_comm, or_comm]
  | chain r ts =>
    rw [relations, List.mem_append, mem_operandsRelations, elements, symbol_mem_joined, children,
      or_comm]
    by_cases several : 1 < ts.length
    · rw [if_pos several, List.mem_singleton]
      simp [show 2 ≤ ts.length from several]
    · rw [if_neg several]
      simp [show ¬ 2 ≤ ts.length from several]
  | sequence es => exact mem_elementsRelations

theorem elementsLeaves_eq_flatMap (es : List Element) :
    elementsLeaves es = (treesOf es).flatMap leaves := by
  induction es with
  | nil => rfl
  | cons e es ih => cases e <;> simp [elementsLeaves, treesOf, ih]

theorem operandsLeaves_eq_flatMap (ts : List Tree) : operandsLeaves ts = ts.flatMap leaves := by
  induction ts with
  | nil => rfl
  | cons t ts ih => simp [operandsLeaves, ih]

theorem leaves_eq_flatMap {t : Tree} (composite : t.isLeaf = false) :
    t.leaves = t.children.flatMap leaves := by
  cases t with
  | leaf n => simp [isLeaf] at composite
  | pair l r t => simp [leaves, children]
  | chain r ts => exact operandsLeaves_eq_flatMap ts
  | sequence es => exact elementsLeaves_eq_flatMap es

theorem elementsDepth_eq (es : List Element) : elementsDepth es = operandsDepth (treesOf es) := by
  induction es with
  | nil => rfl
  | cons e es ih => cases e <;> simp [elementsDepth, operandsDepth, treesOf, ih]

theorem depth_eq {t : Tree} (composite : t.isLeaf = false) :
    t.depth = 1 + operandsDepth t.children := by
  cases t with
  | leaf n => simp [isLeaf] at composite
  | pair l r t => simp [depth, children, operandsDepth]
  | chain r ts => rfl
  | sequence es => rw [depth, elementsDepth_eq, children]

/-! ### Trees below a tree -/

theorem sizeOf_lt_of_mem_treesOf {c : Tree} {es : List Element} (member : c ∈ treesOf es) :
    sizeOf c < sizeOf es := by
  induction es with
  | nil => simp [treesOf] at member
  | cons e es ih =>
    cases e with
    | symbol r =>
      have := ih member
      simp only [List.cons.sizeOf_spec]
      omega
    | tree t =>
      simp only [List.cons.sizeOf_spec, Element.tree.sizeOf_spec]
      rcases List.mem_cons.mp member with rfl | member
      · omega
      · have := ih member
        omega

theorem sizeOf_lt_of_mem_children {c t : Tree} (member : c ∈ t.children) :
    sizeOf c < sizeOf t := by
  cases t with
  | leaf n => simp [children] at member
  | pair l r t =>
    simp only [pair.sizeOf_spec]
    rcases List.mem_cons.mp member with rfl | member
    · omega
    · obtain rfl := List.mem_singleton.mp member
      omega
  | chain r ts =>
    have := List.sizeOf_lt_of_mem (show c ∈ ts from member)
    simp only [chain.sizeOf_spec]
    omega
  | sequence es =>
    have := sizeOf_lt_of_mem_treesOf (show c ∈ treesOf es from member)
    simp only [sequence.sizeOf_spec]
    omega

/-- What carries over from the trees directly below a tree to the tree holds of all trees. -/
@[elab_as_elim]
theorem induction_on_children {motive : Tree → Prop} (t : Tree)
    (step : ∀ t, (∀ c ∈ t.children, motive c) → motive t) : motive t :=
  step t fun c _ => induction_on_children c step
  termination_by sizeOf t
  decreasing_by exact sizeOf_lt_of_mem_children ‹_›

/-- The first tree is the second or lies somewhere below it. -/
inductive Within : Tree → Tree → Prop
  | refl (t : Tree) : Within t t
  | child {u c t : Tree} (child : c ∈ t.children) (within : Within u c) : Within u t

theorem within_iff {u t : Tree} : Within u t ↔ u = t ∨ ∃ c ∈ t.children, Within u c := by
  constructor
  · rintro (- | ⟨child, within⟩)
    · exact .inl rfl
    · exact .inr ⟨_, child, within⟩
  · rintro (rfl | ⟨c, child, within⟩)
    · exact .refl u
    · exact .child child within

theorem within_leaf {u : Tree} {n : Text} : Within u (.leaf n) ↔ u = .leaf n := by
  rw [within_iff, children]
  simp

theorem within_sequence_joined {u : Tree} {r : Relation} {ts : List Tree} :
    Within u (.sequence (joined r ts)) ↔ u = .sequence (joined r ts) ∨ ∃ t ∈ ts, Within u t := by
  rw [within_iff, children, treesOf_joined]

end Tree

end GenreRelations
