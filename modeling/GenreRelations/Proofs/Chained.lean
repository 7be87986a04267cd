import GenreRelations.Proofs.Dividers
import GenreRelations.Proofs.Settled

/-!
Parsed trees and their wire forms. The wire form does not tell pairs, chains and sequences apart,
so a parsed tree comes back with every composite tree in it a chain (`Tree.chained`), and shows the
same text, tokens, names, relations and depth: `Tree.ofWire_wire_of_parse`.
-/

namespace GenreRelations

open Expression (joined pairUp)
open Segment (tokenize)

theorem Relation.distinct_congr {rs qs : List Relation} (same : ∀ r, r ∈ rs ↔ r ∈ qs) :
    distinct rs = distinct qs := by
  refine List.filter_congr fun r _ => ?_
  rw [Bool.eq_iff_iff, List.contains_iff_mem, List.contains_iff_mem, same]

namespace Tree

/-! ### Chains in place of pairs and sequences -/

mutual

/-- The tree with every pair and sequence in it turned into the chain of its relation. -/
def chained : Tree → Tree
  | leaf n => .leaf n
  | pair l r t => .chain r [l.chained, t.chained]
  | chain r ts => .chain r (operandsChained ts)
  | sequence es =>
    match es.findSome? Element.symbol? with
    | some r => .chain r (elementsChained es)
    -- without a symbol there is no relation to take
    | none => .sequence es

def operandsChained : List Tree → List Tree
  | [] => []
  | t :: ts => t.chained :: operandsChained ts

def elementsChained : List Element → List Tree
  | [] => []
  | .tree t :: es => t.chained :: elementsChained es
  | .symbol _ :: es => elementsChained es

end

theorem operandsChained_eq_map (ts : List Tree) : operandsChained ts = ts.map chained := by
  induction ts with
  | nil => rfl
  | cons t ts ih =>
    rw [operandsChained, ih]
    rfl

theorem elementsChained_joined (r : Relation) (ts : List Tree) :
    elementsChained (joined r ts) = ts.map chained := by
  induction ts with
  | nil => rfl
  | cons t ts ih =>
    cases ts with
    | nil => rfl
    | cons u ts =>
      rw [joined, elementsChained, elementsChained, ih]
      rfl

/-- Names that are no operators, and two operands or more with one relation between them. -/
inductive Uniform : Tree → Prop
  | leaf {n : Text} (name : ∀ r : Relation, n ≠ r.operator) : Uniform (.leaf n)
  | composite {t : Tree} {r : Relation} {ts : List Tree} (elements : t.elements = joined r ts)
      (several : 2 ≤ ts.length) (operands : ∀ c ∈ ts, Uniform c) : Uniform t

section Composite

variable {t : Tree} {r : Relation} {ts : List Tree}

theorem isLeaf_of_elements (elements : t.elements = joined r ts) (several : 2 ≤ ts.length) :
    t.isLeaf = false := by
  cases t with
  | leaf n =>
    have length := congrArg List.length elements
    rw [length_joined, Tree.elements, List.length_nil] at length
    omega
  | _ => rfl

theorem children_of_elements (elements : t.elements = joined r ts) : t.children = ts := by
  rw [children_eq_treesOf, elements, treesOf_joined]

theorem joined_inj {q : Relation} {us : List Tree} (several : 2 ≤ ts.length)
    (same : joined q us = joined r ts) : q = r ∧ us = ts := by
  have trees := congrArg treesOf same
  rw [treesOf_joined, treesOf_joined] at trees
  subst trees
  have symbol : .symbol q ∈ joined r us := same ▸ symbol_mem_joined.mpr ⟨several, rfl⟩
  exact ⟨(symbol_mem_joined.mp symbol).2, rfl⟩

theorem findSome?_joined (several : 2 ≤ ts.length) :
    (joined r ts).findSome? Element.symbol? = some r := by
  cases ts with
  | nil => simp at several
  | cons t ts =>
    cases ts with
    | nil => simp at several
    | cons u ts => rfl

theorem chained_of_elements (elements : t.elements = joined r ts) (several : 2 ≤ ts.length) :
    t.chained = .chain r (ts.map chained) := by
  cases t with
  | leaf n => simpa [isLeaf] using isLeaf_of_elements elements several
  | pair l q u =>
    obtain ⟨rfl, rfl⟩ := @joined_inj r ts q [l, u] several elements
    rfl
  | chain q us =>
    obtain ⟨rfl, rfl⟩ := joined_inj several elements
    rw [chained, operandsChained_eq_map]
  | sequence es =>
    obtain rfl : es = joined r ts := elements
    rw [chained, findSome?_joined several, elementsChained_joined]

end Composite

/-! ### What stays the same -/

theorem settled_chained {t : Tree} (uniform : t.Uniform) : t.chained.Settled := by
  induction uniform with
  | leaf name => exact .of_children name (by simp [chained, children])
  | composite elements several _ ih =>
    rw [chained_of_elements elements several]
    refine .of_children (by simpa [SettledRoot] using several) fun c child => ?_
    obtain ⟨u, member, rfl⟩ := List.mem_map.mp child
    exact ih u member

theorem within_chained {t : Tree} (uniform : t.Uniform) {u : Tree} (within : Within u t.chained) :
    u.isLeaf = true ∨ ∃ r ts, u = .chain r ts := by
  induction uniform with
  | leaf name =>
    obtain rfl := within_leaf.mp within
    exact .inl rfl
  | @composite t r ts elements several _ ih =>
    rw [chained_of_elements elements several] at within
    rcases within_iff.mp within with rfl | ⟨c, child, within⟩
    · exact .inr ⟨r, _, rfl⟩
    · obtain ⟨o, member, rfl⟩ := List.mem_map.mp child
      exact ih o member within

theorem nested_chained {t : Tree} (uniform : t.Uniform) : t.chained.nested = t.nested := by
  induction uniform with
  | leaf name => rfl
  | @composite t r ts elements several _ ih =>
    have operands : (ts.map chained).map nested = ts.map nested := by
      rw [List.map_map]
      exact List.map_congr_left ih
    rw [chained_of_elements elements several, nested_eq_array rfl, Tree.elements,
      nestedElements_joined, operands, nested_eq_array (isLeaf_of_elements elements several),
      elements, nestedElements_joined]

theorem isLeaf_chained {t : Tree} (uniform : t.Uniform) : t.chained.isLeaf = t.isLeaf := by
  cases uniform with
  | leaf name => rfl
  | composite elements several _ =>
    rw [chained_of_elements elements several, isLeaf_of_elements elements several]
    rfl

theorem toJson_chained {t : Tree} (uniform : t.Uniform) : t.chained.toJson = t.toJson := by
  have nested := nested_chained uniform
  rcases t.leaf_or_composite with ⟨n, rfl⟩ | composite
  · rfl
  · have chain := (isLeaf_chained uniform).trans composite
    rw [toJson_eq_nested composite, toJson_eq_nested chain, nested]

theorem canonical_chained {t : Tree} (uniform : t.Uniform) : t.chained.canonical = t.canonical := by
  induction uniform with
  | leaf name => rfl
  | @composite t r ts elements several operands ih =>
    have texts : (ts.map chained).map operandText = ts.map operandText := by
      rw [List.map_map]
      refine List.map_congr_left fun c member => ?_
      rw [Function.comp_apply, operandText, ih c member, isLeaf_chained (operands c member),
        operandText]
    rw [chained_of_elements elements several, canonical_eq_unwords rfl, Tree.elements,
      elementTexts_joined, texts, canonical_eq_unwords (isLeaf_of_elements elements several),
      elements, elementTexts_joined]

theorem tokens_chained {t : Tree} (uniform : t.Uniform) : t.chained.tokens = t.tokens := by
  rw [← strings_nested, nested_chained uniform, strings_nested]

theorem leaves_chained {t : Tree} (uniform : t.Uniform) : t.chained.leaves = t.leaves := by
  induction uniform with
  | leaf name => rfl
  | @composite t r ts elements several _ ih =>
    rw [chained_of_elements elements several, leaves_eq_flatMap rfl, children, List.flatMap_map,
      leaves_eq_flatMap (isLeaf_of_elements elements several), children_of_elements elements]
    exact List.flatMap_congr ih

theorem mem_relations_chained {t : Tree} (uniform : t.Uniform) (q : Relation) :
    q ∈ t.chained.relations ↔ q ∈ t.relations := by
  induction uniform with
  | leaf name => rfl
  | @composite t r ts elements several _ ih =>
    rw [chained_of_elements elements several, mem_relations, mem_relations, children,
      Tree.elements, symbol_mem_joined, children_of_elements elements, elements,
      symbol_mem_joined, List.length_map]
    refine or_congr ?_ Iff.rfl
    simp only [List.mem_map, exists_exists_and_eq_and]
    exact exists_congr fun c => and_congr_right fun member => ih c member

theorem unordered_chained {t : Tree} (uniform : t.Uniform) : t.chained.unordered = t.unordered := by
  rw [unordered, unordered, leaves_chained uniform,
    Relation.distinct_congr (mem_relations_chained uniform)]

/-! ### Depth -/

theorem operandsDepth_map {f : Tree → Tree} {ts : List Tree}
    (each : ∀ t ∈ ts, (f t).depth = t.depth) : operandsDepth (ts.map f) = operandsDepth ts := by
  induction ts with
  | nil => rfl
  | cons t ts ih =>
    rw [List.map_cons, operandsDepth, operandsDepth, each t List.mem_cons_self,
      ih fun u member => each u (List.mem_cons_of_mem _ member)]

theorem depth_chained {t : Tree} (uniform : t.Uniform) : t.chained.depth = t.depth := by
  induction uniform with
  | leaf name => rfl
  | @composite t r ts elements several _ ih =>
    rw [chained_of_elements elements several, depth_eq rfl, children, operandsDepth_map ih,
      depth_eq (isLeaf_of_elements elements several), children_of_elements elements]

theorem nesting_joined {r : Relation} {ts : List Tree} (several : ts ≠ [])
    (each : ∀ t ∈ ts, t.nested.nesting + 1 = t.depth) :
    Json.itemsNesting (nestedElements (joined r ts)) + 1 = operandsDepth ts := by
  induction ts with
  | nil => exact absurd rfl several
  | cons t ts ih =>
    have first := each t List.mem_cons_self
    cases ts with
    | nil =>
      simp only [joined, nestedElements, Json.itemsNesting, operandsDepth]
      omega
    | cons u ts =>
      have rest := ih (by simp) fun c member => each c (List.mem_cons_of_mem _ member)
      rw [joined, nestedElements, nestedElements, operandsDepth, ← rest, ← first]
      simp only [Json.itemsNesting, Json.nesting]
      omega

theorem nesting_nested {t : Tree} (uniform : t.Uniform) : t.nested.nesting + 1 = t.depth := by
  induction uniform with
  | leaf name => rfl
  | @composite t r ts elements several _ ih =>
    have nonempty : ts ≠ [] := List.ne_nil_of_length_pos (by omega)
    have composite := isLeaf_of_elements elements several
    rw [depth_eq composite, children_of_elements elements, nested_eq_array composite, elements,
      Json.nesting, Nat.add_assoc, nesting_joined nonempty ih]

theorem nesting_toJson_le {t : Tree} (uniform : t.Uniform) (shallow : t.depth ≤ 128) :
    t.toJson.nesting ≤ 127 := by
  have nesting := nesting_nested uniform
  rcases t.leaf_or_composite with ⟨n, rfl⟩ | composite
  · exact (by decide : 1 ≤ 127)
  · rw [toJson_eq_nested composite]
    omega

end Tree

/-! ### Parsed expressions -/

theorem Text.IsName.uniform {n : Text} (name : n.IsName) : (Tree.leaf n).Uniform :=
  .leaf fun r => name.ne_text (.operator r)

theorem Reads.uniform {ss : List Segment} {t : Tree} (reads : Reads ss t) : t.Uniform := by
  induction reads with
  | name name => exact name.uniform
  | @chain r ns names several =>
    refine .composite rfl (by simpa using several) fun c member => ?_
    obtain ⟨n, isIn, rfl⟩ := List.mem_map.mp member
    exact (names n isIn).uniform
  | enclosed _ _ _ ih => exact ih
  | @sequence r os operands several _ _ ih =>
    refine .composite rfl (by simpa using several) fun c member => ?_
    obtain ⟨o, isIn, rfl⟩ := List.mem_map.mp member
    cases o with
    | name n => exact (operands _ isIn).1.uniform
    | group g t => exact ih g t isIn

namespace Tree

theorem Uniform.pairUp {t : Tree} (uniform : t.Uniform) : (pairUp t).Uniform := by
  unfold Expression.pairUp
  split
  · rename_i r left right
    cases uniform with
    | composite elements several operands =>
      have children := children_of_elements elements
      subst children
      exact @Uniform.composite _ r [left, right] rfl (by simp) operands
  · exact uniform

theorem uniform_of_parse {text : Text} {t : Tree} (read : parse text = .ok t) : t.Uniform := by
  rcases Expression.parse_forms read with ⟨names, -, rfl⟩ | reads | ⟨d, ps, divides, rfl⟩
  -- a text that is an operator has its symbol as a segment
  · refine .leaf fun r same => names (.operator r) ?_
    rw [same, tokenize, show r.operator = (Symbol.operator r).text from rfl,
      Text.words_of_isWord (Segment.isWord_text _), Segment.ofWords_symbol]
    exact List.mem_cons_self
  · exact reads.uniform
  · refine .composite rfl (by simpa using divides.several) fun c member => ?_
    obtain ⟨p, isIn, rfl⟩ := List.mem_map.mp member
    exact (divides.reads p isIn).uniform.pairUp

/-- The wire form of a parsed tree is read back as the tree with chains in place of its pairs and
sequences, which shows everything else as before. -/
theorem ofWire_wire_of_parse {text : Text} {t : Tree} (read : parse text = .ok t)
    (shallow : t.depth ≤ 128) :
    ofWire t.wire = .ok t.chained ∧
      (∀ u, Within u t.chained → u.isLeaf = true ∨ ∃ r ts, u = .chain r ts) ∧
      t.chained.flat = t.flat ∧ t.chained.unordered = t.unordered ∧
      t.chained.canonical = t.canonical ∧ t.chained.depth = t.depth := by
  have uniform := uniform_of_parse read
  have same := toJson_chained uniform
  have back : ofWire t.chained.wire = .ok t.chained := by
    refine ofWire_wire_of_settled (settled_chained uniform) ?_
    rw [same]
    exact nesting_toJson_le uniform shallow
  rw [wire, same] at back
  refine ⟨back, fun u within => within_chained uniform within, ?_, unordered_chained uniform,
    canonical_chained uniform, depth_chained uniform⟩
  rw [flat_eq_tokens, flat_eq_tokens, tokens_chained uniform]

theorem ofWire_wire_of_parse_divided :
    parse "A | B || C".toList = .ok (.sequence [.tree (.pair (.leaf "A".toList) .blend
      (.leaf "B".toList)), .symbol .blend, .tree (.leaf "C".toList)]) ∧
    depth (.sequence [.tree (.pair (.leaf "A".toList) .blend (.leaf "B".toList)), .symbol .blend,
      .tree (.leaf "C".toList)]) ≤ 128 ∧
    ofWire "[[\"A\",\"|\",\"B\"],\"|\",\"C\"]".toList = .ok (.chain .blend
      [.chain .blend [.leaf "A".toList, .leaf "B".toList], .leaf "C".toList]) := by
  have read : parse "A | B || C".toList = .ok (.sequence [.tree (.pair (.leaf "A".toList) .blend
      (.leaf "B".toList)), .symbol .blend, .tree (.leaf "C".toList)]) := by cbv
  exact ⟨read, by decide, (ofWire_wire_of_parse read (by decide)).1⟩

end Tree

end GenreRelations
