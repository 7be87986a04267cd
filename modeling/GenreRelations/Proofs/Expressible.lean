import GenreRelations.Proofs.Writing
import GenreRelations.Tree.Walk

/-!
Trees that can be written. The canonical text of a well-shaped tree is parsed as its normal form,
in which a composite tree over leaves is a chain and every other composite tree is a sequence:
`Tree.parse_canonical_eq_normal`.
-/

namespace GenreRelations

open Expression (Mixed joined mem_relationsOf)
open Segment (Alternating Stays tokenize)

namespace Tree

/-! ### Normal form -/

/-- The composite tree over the elements: a chain if all trees among them are leaves. -/
def regroup (es : List Element) : Tree :=
  match es.findSome? Element.symbol? with
  | some r => if (treesOf es).all isLeaf then .chain r (treesOf es) else .sequence es
  | none => .sequence es

mutual

/-- The tree with each composite tree in it a chain over leaves or else a sequence. -/
def normal : Tree → Tree
  | leaf n => .leaf n
  | pair l r t => regroup [.tree l.normal, .symbol r, .tree t.normal]
  | chain r ts => regroup (joined r (operandsNormal ts))
  | sequence es => regroup (elementsNormal es)

def operandsNormal : List Tree → List Tree
  | [] => []
  | t :: ts => t.normal :: operandsNormal ts

def elementsNormal : List Element → List Element
  | [] => []
  | .tree t :: es => .tree t.normal :: elementsNormal es
  | .symbol r :: es => .symbol r :: elementsNormal es

end

theorem operandsNormal_eq_map (ts : List Tree) : operandsNormal ts = ts.map normal := by
  induction ts with
  | nil => rfl
  | cons t ts ih =>
    rw [operandsNormal, ih]
    rfl

theorem elementsNormal_joined (r : Relation) (ts : List Tree) :
    elementsNormal (joined r ts) = joined r (ts.map normal) := by
  induction ts with
  | nil => rfl
  | cons t ts ih =>
    cases ts with
    | nil => rfl
    | cons u ts =>
      rw [joined, elementsNormal, elementsNormal, ih]
      rfl

theorem regroup_joined {r : Relation} {ts : List Tree} (several : 2 ≤ ts.length) :
    regroup (joined r ts) = if ts.all isLeaf then .chain r ts else .sequence (joined r ts) := by
  match ts, several with
  | t :: u :: ts, _ =>
    have first : (joined r (t :: u :: ts)).findSome? Element.symbol? = some r := rfl
    rw [regroup, first, treesOf_joined]

section Composite

variable {t : Tree} {r : Relation} {ts : List Tree}

theorem normal_eq_regroup (composite : t.isLeaf = false) (elements : t.elements = joined r ts) :
    t.normal = regroup (joined r (ts.map normal)) := by
  rw [← elementsNormal_joined, ← elements]
  cases t with
  | leaf n => simp [isLeaf] at composite
  | pair l r t => rfl
  | chain r ts => rw [normal, Tree.elements, elementsNormal_joined, operandsNormal_eq_map]
  | sequence es => rfl

theorem elements_regroup (several : 2 ≤ ts.length) :
    (regroup (joined r ts)).elements = joined r ts ∧ (regroup (joined r ts)).isLeaf = false := by
  rw [regroup_joined several]
  by_cases leaves : ts.all isLeaf = true
  · rw [if_pos leaves]
    exact ⟨rfl, rfl⟩
  · rw [if_neg leaves]
    exact ⟨rfl, rfl⟩

end Composite

theorem isLeaf_regroup (es : List Element) : (regroup es).isLeaf = false := by
  unfold regroup
  split
  · split <;> rfl
  · rfl

theorem isLeaf_normal (t : Tree) : t.normal.isLeaf = t.isLeaf := by
  cases t with
  | leaf n => rfl
  | pair l r t => exact isLeaf_regroup _
  | chain r ts => exact isLeaf_regroup _
  | sequence es => exact isLeaf_regroup _

/-! ### Well-shaped trees -/

/-- A tree that can be written. The names need to close all that they open, but they need not open
it first. -/
structure WellShaped (t : Tree) : Prop where
  chains : ∀ r ts, Within (.chain r ts) t → 2 ≤ ts.length
  sequences : ∀ es, Within (.sequence es) t → 3 ≤ es.length ∧ ∃ r, Element.Alternate r es
  names : ∀ n, Within (.leaf n) t → n.IsName ∧ n.balance = 0
  mixed : ∀ u, Within u t → (∃ c ∈ u.children, c.isLeaf = false) →
    ∃ r ∈ u.relations, ∃ q ∈ u.relations, r ≠ q

namespace WellShaped

theorem child {c t : Tree} (shaped : t.WellShaped) (child : c ∈ t.children) : c.WellShaped where
  chains r ts within := shaped.chains r ts (.child child within)
  sequences es within := shaped.sequences es (.child child within)
  names n within := shaped.names n (.child child within)
  mixed u within := shaped.mixed u (.child child within)

/-- A tree over well-shaped trees needs to be shaped well at its root alone. -/
theorem of_children {t : Tree} (below : ∀ c ∈ t.children, c.WellShaped)
    (chains : ∀ r ts, t = .chain r ts → 2 ≤ ts.length)
    (sequences : ∀ es, t = .sequence es → 3 ≤ es.length ∧ ∃ r, Element.Alternate r es)
    (names : ∀ n, t = .leaf n → n.IsName ∧ n.balance = 0)
    (mixed : (∃ c ∈ t.children, c.isLeaf = false) →
      ∃ r ∈ t.relations, ∃ q ∈ t.relations, r ≠ q) : t.WellShaped := by
  constructor
  · intro r ts within
    rcases within_iff.mp within with same | ⟨c, child, within⟩
    · exact chains r ts same.symm
    · exact (below c child).chains r ts within
  · intro es within
    rcases within_iff.mp within with same | ⟨c, child, within⟩
    · exact sequences es same.symm
    · exact (below c child).sequences es within
  · intro n within
    rcases within_iff.mp within with same | ⟨c, child, within⟩
    · exact names n same.symm
    · exact (below c child).names n within
  · intro u within
    rcases within_iff.mp within with rfl | ⟨c, child, within⟩
    · exact mixed
    · exact (below c child).mixed u within

theorem leaf {n : Text} (name : n.IsName) (closed : n.balance = 0) : (Tree.leaf n).WellShaped := by
  refine of_children (by simp [children]) (by simp) (by simp) ?_ (by simp [children])
  rintro m same
  obtain rfl := Tree.leaf.inj same
  exact ⟨name, closed⟩

theorem elements {t : Tree} (shaped : t.WellShaped) (composite : t.isLeaf = false) :
    ∃ r ts, t.elements = joined r ts ∧ t.children = ts ∧ 2 ≤ ts.length := by
  cases t with
  | leaf n => simp [isLeaf] at composite
  | pair l r t => exact ⟨r, [l, t], rfl, rfl, by simp⟩
  | chain r ts => exact ⟨r, ts, rfl, rfl, shaped.chains r ts (.refl _)⟩
  | sequence es =>
    obtain ⟨long, r, alternate⟩ := shaped.sequences es (.refl _)
    obtain ⟨ts, rfl⟩ := alternate.exists_trees
    rw [length_joined] at long
    exact ⟨r, ts, rfl, treesOf_joined r ts, by omega⟩

end WellShaped

/-! ### Tokens -/

theorem tokens_normal {t : Tree} (shaped : t.WellShaped) : t.normal.tokens = t.tokens := by
  induction t using induction_on_children with
  | step t ih =>
    rcases t.leaf_or_composite with ⟨n, rfl⟩ | composite
    · rfl
    · obtain ⟨r, ts, elements, children, several⟩ := shaped.elements composite
      have each : (ts.map normal).map tokens = ts.map tokens := by
        rw [List.map_map]
        refine List.map_congr_left fun c member => ?_
        have child : c ∈ t.children := children ▸ member
        exact ih c child (shaped.child child)
      obtain ⟨regrouped, kept⟩ := @elements_regroup r (ts.map normal) (by simpa using several)
      rw [normal_eq_regroup composite elements, tokens_eq_elementsTokens kept, regrouped,
        tokens_eq_elementsTokens composite, elements, elementsTokens_joined,
        elementsTokens_joined, each]

/-! ### Writing and reading -/

/-- The tree is written as an operand that is read as the normal form, and that closes what it
opens. The relations of the tree are those of the operators in the operand. -/
structure Expressed (t : Tree) : Prop where
  stands : ∃ o, Stands t t.normal o
  closed : Segment.balance t.operandSegments = 0
  stays : Stays 1 t.operandSegments.dropLast
  relations : ∀ q, .symbol (.operator q) ∈ t.operandSegments ↔ q ∈ t.relations

theorem Expressed.spaced {t : Tree} (expressed : Expressed t) : t.Spaced := by
  obtain ⟨o, stands⟩ := expressed.stands
  exact stands.spaced

theorem expressed_leaf {n : Text} (name : n.IsName) (closed : n.balance = 0) :
    Expressed (leaf n) := by
  have single : (leaf n).operandSegments = [.name n] := Segment.tokenize_name name
  refine ⟨⟨_, stands_leaf name closed⟩, ?_, ?_, ?_⟩
  · rw [single, Segment.balance_singleton]
    exact closed
  · rw [single]
    trivial
  · simp [single, relations]

section Composite

variable {t : Tree} {r : Relation} {ts : List Tree}

/-- Operands with one symbol between neighbours are read as the composite tree over them. -/
theorem reads_regroup (several : 2 ≤ ts.length) (expressed : ∀ c ∈ ts, Expressed c)
    (names : ∀ n, leaf n ∈ ts → n.IsName)
    (mixed : (∃ c ∈ ts, c.isLeaf = false) →
      Mixed (Segment.joined (.operator r) (ts.map operandSegments))) :
    Reads (Segment.joined (.operator r) (ts.map operandSegments))
      (regroup (joined r (ts.map normal))) := by
  rw [regroup_joined (by simpa using several)]
  by_cases leaves : ∀ c ∈ ts, c.isLeaf = true
  · obtain ⟨ns, rfl⟩ := exists_leaves leaves
    have isName : ∀ n ∈ ns, n.IsName := fun n member => names n (List.mem_map.mpr ⟨n, member, rfl⟩)
    have unchanged : (ns.map leaf).map normal = ns.map leaf := by
      rw [List.map_map]
      exact List.map_congr_left fun n _ => rfl
    have all : (ns.map leaf).all isLeaf = true := by simpa [List.all_eq_true] using leaves
    rw [unchanged, if_pos all, map_operandSegments_leaf isName]
    exact .chain r isName (by simpa using several)
  · obtain ⟨c, member, composite⟩ : ∃ c ∈ ts, c.isLeaf = false := by simpa using leaves
    have some_composite : ¬ (ts.map normal).all isLeaf = true := by
      rw [List.all_eq_true]
      intro all
      have isLeaf := all c.normal (List.mem_map.mpr ⟨c, member, rfl⟩)
      rw [isLeaf_normal, composite] at isLeaf
      simp at isLeaf
    rw [if_neg some_composite]
    exact reads_joined (fun c member => (expressed c member).stands) several
      (mixed ⟨c, member, composite⟩)

theorem closed_operands (expressed : ∀ c ∈ ts, Expressed c) :
    Segment.balance (Segment.joined (.operator r) (ts.map operandSegments)) = 0 ∧
      Stays 1 (Segment.joined (.operator r) (ts.map operandSegments)).dropLast := by
  refine Segment.closed_joined ?_ ?_ ?_
  · intro ss member
    obtain ⟨c, isIn, rfl⟩ := List.mem_map.mp member
    exact (expressed c isIn).spaced.alternating.ne_nil
  · intro ss member
    obtain ⟨c, isIn, rfl⟩ := List.mem_map.mp member
    exact (expressed c isIn).closed
  · intro ss member
    obtain ⟨c, isIn, rfl⟩ := List.mem_map.mp member
    exact (expressed c isIn).stays

theorem reads_canonical (composite : t.isLeaf = false) (elements : t.elements = joined r ts)
    (children : t.children = ts) (several : 2 ≤ ts.length) (shaped : t.WellShaped)
    (expressed : ∀ c ∈ ts, Expressed c) :
    Reads (tokenize t.canonical) t.normal ∧ 2 ≤ (tokenize t.canonical).length ∧ Expressed t := by
  have spaced : ∀ c ∈ ts, c.Spaced := fun c member => (expressed c member).spaced
  have nonempty : ts ≠ [] := by
    rintro rfl
    simp at several
  have segments := tokenize_canonical composite elements nonempty spaced
  have written := join_tokenize_canonical composite elements nonempty spaced
  have operators : ∀ q, .symbol (.operator q) ∈
      Segment.joined (.operator r) (ts.map operandSegments) ↔ q ∈ t.relations :=
    operator_mem_joined (g := id) (by rwa [List.map_id])
      fun c member => (expressed c member).relations
  have names : ∀ n, leaf n ∈ ts → n.IsName := fun n member =>
    (shaped.names n (.child (children.symm ▸ member) (.refl _))).1
  have mixed : (∃ c ∈ ts, c.isLeaf = false) →
      Mixed (Segment.joined (.operator r) (ts.map operandSegments)) := by
    intro below
    obtain ⟨p, hasP, q, hasQ, different⟩ := shaped.mixed t (.refl t) (children.symm ▸ below)
    refine ⟨p, mem_relationsOf.mpr ⟨_, (operators p).mpr hasP, rfl⟩, q, ?_, different⟩
    exact mem_relationsOf.mpr ⟨_, (operators q).mpr hasQ, rfl⟩
  -- a level whose operators are the relations of the tree is mixed where the tree is
  have reads : Reads (tokenize t.canonical) t.normal := by
    rw [segments, normal_eq_regroup composite elements]
    exact reads_regroup several expressed names mixed
  obtain ⟨closed, stays⟩ := closed_operands (r := r) expressed
  rw [← segments] at operators closed stays
  have symbol : .symbol (.operator r) ∈ tokenize t.canonical := by
    rw [operators, mem_relations, elements, symbol_mem_joined]
    exact .inr ⟨several, rfl⟩
  have long := reads.isLevel.alternating.several symbol
  have stands := stands_group composite reads written long stays (by omega)
  have encloses := (encloses_operandSegments composite reads written long).1
  refine ⟨reads, long, ⟨_, stands⟩, encloses.balance.trans closed, ?_, ?_⟩
  · have run : Group.IsRun t.operandSegments := stands.operand.run
    exact run.stays.mono (by omega)
  · intro q
    rw [encloses.symbol_mem, operators]

end Composite

theorem expressed_of_wellShaped {t : Tree} (shaped : t.WellShaped) : Expressed t := by
  induction t using induction_on_children with
  | step t ih =>
    rcases t.leaf_or_composite with ⟨n, rfl⟩ | composite
    · obtain ⟨name, closed⟩ := shaped.names n (.refl _)
      exact expressed_leaf name closed
    · obtain ⟨r, ts, elements, children, several⟩ := shaped.elements composite
      refine (reads_canonical composite elements children several shaped ?_).2.2
      intro c member
      have child : c ∈ t.children := children ▸ member
      exact ih c child (shaped.child child)

/-- The canonical text of a well-shaped tree is parsed as its normal form, with the same tokens. -/
theorem parse_canonical_eq_normal {t : Tree} (shaped : t.WellShaped) :
    parse t.canonical = .ok t.normal ∧ t.normal.flat = t.flat := by
  refine ⟨?_, by rw [flat_eq_tokens, flat_eq_tokens, tokens_normal shaped]⟩
  rcases t.leaf_or_composite with ⟨n, rfl⟩ | composite
  · have single := Segment.tokenize_name (shaped.names n (.refl _)).1
    rw [canonical, parse_eq, single]
    rfl
  · obtain ⟨r, ts, elements, children, several⟩ := shaped.elements composite
    have expressed : ∀ c ∈ ts, Expressed c := by
      intro c member
      exact expressed_of_wellShaped (shaped.child (children ▸ member))
    obtain ⟨reads, long, -⟩ :=
      reads_canonical composite elements children several shaped expressed
    exact reads.parse long

theorem parse_canonical_eq_normal_pair :
    WellShaped (.sequence [.tree (.pair (.leaf "Trap (EDM)".toList) .fuse
      (.leaf "(Untitled)".toList)), .symbol .derive, .tree (.leaf "C".toList)]) ∧
    parse "(Trap (EDM) ~ (Untitled)) > C".toList = .ok (.sequence [.tree (.chain .fuse
      [.leaf "Trap (EDM)".toList, .leaf "(Untitled)".toList]), .symbol .derive,
      .tree (.leaf "C".toList)]) := by
  have pair : WellShaped (.pair (.leaf "Trap (EDM)".toList) .fuse (.leaf "(Untitled)".toList)) := by
    refine .of_children ?_ (by simp) (by simp) (by simp) (by simp [children, isLeaf])
    intro c member
    rcases List.mem_pair.mp member with rfl | rfl
    · exact .leaf ⟨by decide, by decide, by decide⟩ (by decide)
    · exact .leaf ⟨by decide, by decide, by decide⟩ (by decide)
  have shaped : WellShaped (.sequence [.tree (.pair (.leaf "Trap (EDM)".toList) .fuse
      (.leaf "(Untitled)".toList)), .symbol .derive, .tree (.leaf "C".toList)]) := by
    refine .of_children ?_ (by simp) ?_ (by simp) ?_
    · intro c member
      rcases List.mem_pair.mp member with rfl | rfl
      · exact pair
      · exact .leaf ⟨by decide, by decide, by decide⟩ (by decide)
    · intro es same
      obtain rfl := Tree.sequence.inj same
      exact ⟨by decide, .derive, .cons _ (.tree _)⟩
    · intro _
      exact ⟨.fuse, by decide, .derive, by decide, by decide⟩
  exact ⟨shaped, (parse_canonical_eq_normal shaped).1⟩

end Tree

end GenreRelations
