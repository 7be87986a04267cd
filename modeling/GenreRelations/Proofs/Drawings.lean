import GenreRelations.Proofs.Outlines
import GenreRelations.Proofs.Printing
import GenreRelations.Proofs.Trees
import Mathlib.Data.List.Forall2

/-!
Drawings of trees. Every tree and symbol has one line, parents first, on which its label stands
behind four columns for each level; and trees whose names are none of the other labels can be told
apart by their drawings: `Tree.drawing_unambiguous`.
-/

namespace GenreRelations

/-- What the label of a line tells of the tree or symbol that is drawn there. -/
inductive Label where
  | leaf (name : Text)
  | symbol (relation : Relation)
  | pair (relation : Relation)
  | chain (relation : Relation)
  | sequence
  deriving DecidableEq, Repr

namespace Label

def text : Label → Text
  | leaf n => n
  | symbol r => r.operator
  | pair r => r.operator ++ " pair".toList
  | chain r => r.operator ++ " chain".toList
  | sequence => "sequence".toList

/-- All labels but those of leaves. -/
def unnamed : List Label := sequence :: Relation.all.flatMap fun r => [symbol r, pair r, chain r]

theorem leaf_or_unnamed (s : Label) : (∃ n, s = leaf n) ∨ s ∈ unnamed := by
  cases s with
  | leaf n => exact .inl ⟨n, rfl⟩
  | sequence => exact .inr (by decide)
  | _ r => exact .inr (by cases r <;> decide)

end Label

/-- The name can be drawn: it is on one line, and no label of anything but a leaf. -/
structure Text.IsDrawable (n : Text) : Prop where
  feedFree : '\n' ∉ n
  own : n ∉ Label.unnamed.map Label.text

namespace Element

def label : Element → Label
  | tree (.leaf n) => .leaf n
  | tree (.pair _ r _) => .pair r
  | tree (.chain r _) => .chain r
  | tree (.sequence _) => .sequence
  | symbol r => .symbol r

/-- The trees and symbols on the lines below. The symbol of a pair has no line of its own. -/
def parts : Element → List Element
  | tree (.leaf _) => []
  | tree (.pair l _ t) => [tree l, tree t]
  | tree (.chain _ ts) => ts.map tree
  | tree (.sequence es) => es
  | symbol _ => []

def outline : Element → Outline
  | tree t => t.outline
  | symbol r => .node r.operator []

theorem operandOutlines_eq_map (ts : List Tree) :
    Tree.operandOutlines ts = (ts.map tree).map outline := by
  induction ts with
  | nil => rfl
  | cons t ts ih =>
    rw [Tree.operandOutlines, ih]
    rfl

theorem elementOutlines_eq_map (es : List Element) :
    Tree.elementOutlines es = es.map outline := by
  induction es with
  | nil => rfl
  | cons e es ih =>
    cases e with
    | tree t => rw [Tree.elementOutlines, ih]; rfl
    | symbol r => rw [Tree.elementOutlines, ih]; rfl

theorem outline_eq (e : Element) : e.outline = .node e.label.text (e.parts.map outline) := by
  cases e with
  | symbol r => rfl
  | tree t =>
    cases t with
    | leaf n => rfl
    | pair l r t => rfl
    | chain r ts => rw [outline, Tree.outline, operandOutlines_eq_map]; rfl
    | sequence es => rw [outline, Tree.outline, elementOutlines_eq_map]; rfl

/-- A tree or symbol is known by its label and what is below it. -/
theorem ext_parts {e f : Element} (labels : e.label = f.label) (parts : e.parts = f.parts) :
    e = f := by
  rcases e with (n | ⟨l, r, t⟩ | ⟨r, ts⟩ | es) | r
  · rcases f with (m | _ | _ | _) | _ <;> cases labels
    rfl
  · rcases f with (_ | ⟨l', q, t'⟩ | _ | _) | _ <;> cases labels
    cases parts
    rfl
  · rcases f with (_ | _ | ⟨q, us⟩ | _) | _ <;> cases labels
    obtain rfl := (List.map_inj_right fun _ _ => Element.tree.inj).mp parts
    rfl
  · rcases f with (_ | _ | _ | fs) | _ <;> cases labels
    obtain rfl : es = fs := parts
    rfl
  · rcases f with (_ | _ | _ | _) | q <;> cases labels
    rfl

theorem sizeOf_lt_of_mem_parts {p e : Element} (part : p ∈ e.parts) : sizeOf p < sizeOf e := by
  rcases e with (n | ⟨l, r, t⟩ | ⟨r, ts⟩ | es) | r
  · cases part
  · rcases List.mem_pair.mp part with rfl | rfl
    · simp only [Element.tree.sizeOf_spec, Tree.pair.sizeOf_spec]
      omega
    · simp only [Element.tree.sizeOf_spec, Tree.pair.sizeOf_spec]
      omega
  · obtain ⟨t, member, rfl⟩ := List.mem_map.mp part
    have := List.sizeOf_lt_of_mem member
    simp only [Element.tree.sizeOf_spec, Tree.chain.sizeOf_spec]
    omega
  · have := List.sizeOf_lt_of_mem (show p ∈ es from part)
    simp only [Element.tree.sizeOf_spec, Tree.sequence.sizeOf_spec]
    omega
  · cases part

/-- What carries over from the lines below to a line holds of all trees and symbols. -/
@[elab_as_elim]
theorem induction_on_parts {motive : Element → Prop} (e : Element)
    (step : ∀ e, (∀ p ∈ e.parts, motive p) → motive e) : motive e :=
  step e fun p _ => induction_on_parts p step
  termination_by sizeOf e
  decreasing_by exact sizeOf_lt_of_mem_parts ‹_›

/-! ### Names -/

/-- The names at the leaves; a symbol has none. -/
def names : Element → List Text
  | tree t => t.leaves
  | symbol _ => []

theorem elementsLeaves_eq_flatMap_names (es : List Element) :
    Tree.elementsLeaves es = es.flatMap names := by
  induction es with
  | nil => rfl
  | cons e es ih =>
    cases e with
    | tree t => rw [Tree.elementsLeaves, ih]; rfl
    | symbol r => rw [Tree.elementsLeaves, ih]; rfl

theorem names_of_part {p e : Element} (part : p ∈ e.parts) : p.names ⊆ e.names := by
  have below : e.names = e.parts.flatMap names := by
    rcases e with (n | ⟨l, r, t⟩ | ⟨r, ts⟩ | es) | r
    · cases part
    · simp [names, parts, Tree.leaves]
    · simp [names, parts, Tree.leaves, Tree.operandsLeaves_eq_flatMap, List.flatMap_map]
    · exact elementsLeaves_eq_flatMap_names es
    · rfl
  intro n member
  rw [below]
  exact List.mem_flatMap.mpr ⟨p, part, member⟩

theorem name_mem_names {e : Element} {n : Text} (leaf : e.label = .leaf n) : n ∈ e.names := by
  rcases e with (m | _ | _ | _) | _ <;> cases leaf
  exact List.mem_singleton.mpr rfl

/-- Labels tell labels apart if the names of leaves are no other labels. -/
theorem label_of_text {e f : Element} (left : ∀ n ∈ e.names, n.IsDrawable)
    (right : ∀ n ∈ f.names, n.IsDrawable) (labels : e.label.text = f.label.text) :
    e.label = f.label := by
  have unnamed : ∀ s ∈ Label.unnamed, ∀ q ∈ Label.unnamed, s.text = q.text → s = q := by decide
  rcases e.label.leaf_or_unnamed with ⟨n, leaf⟩ | plain
  · rcases f.label.leaf_or_unnamed with ⟨m, leaf'⟩ | plain'
    · rw [leaf, leaf'] at labels ⊢
      exact congrArg Label.leaf labels
    · have own := (left n (name_mem_names leaf)).own
      rw [leaf] at labels
      exact absurd (List.mem_map.mpr ⟨_, plain', labels.symm⟩) own
  · rcases f.label.leaf_or_unnamed with ⟨m, leaf'⟩ | plain'
    · have own := (right m (name_mem_names leaf')).own
      rw [leaf'] at labels
      exact absurd (List.mem_map.mpr ⟨_, plain, labels⟩) own
    · exact unnamed _ plain _ plain' labels

theorem eq_of_map_outline {es fs : List Element}
    (each : ∀ e ∈ es, ∀ f ∈ fs, e.outline = f.outline → e = f)
    (same : es.map outline = fs.map outline) : es = fs := by
  induction es generalizing fs with
  | nil => exact (List.map_eq_nil_iff.mp same.symm).symm
  | cons e es ih =>
    cases fs with
    | nil => cases same
    | cons f fs =>
      obtain ⟨first, rest⟩ := List.cons.inj same
      rw [each e List.mem_cons_self f List.mem_cons_self first,
        ih (fun a isIn b isIn' => each a (List.mem_cons_of_mem _ isIn) b
          (List.mem_cons_of_mem _ isIn')) rest]

theorem outline_injective {e f : Element} (left : ∀ n ∈ e.names, n.IsDrawable)
    (right : ∀ n ∈ f.names, n.IsDrawable) (same : e.outline = f.outline) : e = f := by
  induction e using induction_on_parts generalizing f with
  | step e ih =>
    rw [outline_eq, outline_eq] at same
    obtain ⟨labels, below⟩ := Outline.node.inj same
    refine ext_parts (label_of_text left right labels) (eq_of_map_outline ?_ below)
    intro p part q part' drawn
    exact ih p part (fun n member => left n (names_of_part part member))
      (fun n member => right n (names_of_part part' member)) drawn

end Element

/-! ### Lines -/

mutual

/-- The trees and symbols in a tree in the order of their lines, parents first, each with its level
and its label. -/
def Tree.nodes (level : Nat) : Tree → List (Nat × Label)
  | .leaf n => [(level, .leaf n)]
  | .pair l r t => (level, .pair r) :: (l.nodes (level + 1) ++ t.nodes (level + 1))
  | .chain r ts => (level, .chain r) :: Tree.operandsNodes (level + 1) ts
  | .sequence es => (level, .sequence) :: Tree.elementsNodes (level + 1) es

def Tree.operandsNodes (level : Nat) : List Tree → List (Nat × Label)
  | [] => []
  | t :: ts => t.nodes level ++ Tree.operandsNodes level ts

def Tree.elementsNodes (level : Nat) : List Element → List (Nat × Label)
  | [] => []
  | .tree t :: es => t.nodes level ++ Tree.elementsNodes level es
  | .symbol r :: es => (level, .symbol r) :: Tree.elementsNodes level es

end

namespace Element

def nodes (level : Nat) : Element → List (Nat × Label)
  | tree t => t.nodes level
  | symbol r => [(level, .symbol r)]

theorem operandsNodes_eq_flatMap (level : Nat) (ts : List Tree) :
    Tree.operandsNodes level ts = (ts.map tree).flatMap (nodes level) := by
  induction ts with
  | nil => rfl
  | cons t ts ih => rw [Tree.operandsNodes, ih]; rfl

theorem elementsNodes_eq_flatMap (level : Nat) (es : List Element) :
    Tree.elementsNodes level es = es.flatMap (nodes level) := by
  induction es with
  | nil => rfl
  | cons e es ih =>
    cases e with
    | tree t => rw [Tree.elementsNodes, ih]; rfl
    | symbol r => rw [Tree.elementsNodes, ih]; rfl

theorem nodes_eq (level : Nat) (e : Element) :
    e.nodes level = (level, e.label) :: e.parts.flatMap (nodes (level + 1)) := by
  rcases e with (n | ⟨l, r, t⟩ | ⟨r, ts⟩ | es) | r
  · rfl
  · simp [nodes, Tree.nodes, label, parts]
  · rw [nodes, Tree.nodes, operandsNodes_eq_flatMap]; rfl
  · rw [nodes, Tree.nodes, elementsNodes_eq_flatMap]; rfl
  · rfl

/-- What stands on the lines are names and labels that are no names. -/
theorem mem_nodes {e : Element} {level : Nat} {n : Nat × Label} (member : n ∈ e.nodes level) :
    (∃ name ∈ e.names, n.2 = .leaf name) ∨ n.2 ∈ Label.unnamed := by
  induction e using induction_on_parts generalizing level with
  | step e ih =>
    rw [nodes_eq] at member
    rcases List.mem_cons.mp member with rfl | member
    · rcases e.label.leaf_or_unnamed with ⟨name, leaf⟩ | unnamed
      · exact .inl ⟨name, name_mem_names leaf, leaf⟩
      · exact .inr unnamed
    · obtain ⟨p, part, isIn⟩ := List.mem_flatMap.mp member
      exact (ih p part isIn).imp_left fun ⟨name, isName, leaf⟩ =>
        ⟨name, names_of_part part isName, leaf⟩

end Element

/-- What the four columns of a level can hold. -/
def Outline.columns : List Text :=
  ["│   ".toList, "    ".toList, "├── ".toList, "└── ".toList]

/-- The text is that of so many levels. -/
inductive Outline.Columns : Nat → Text → Prop
  | nil : Columns 0 []
  | concat {level : Nat} {s c : Text} (front : Columns level s) (column : c ∈ columns) :
      Columns (level + 1) (s ++ c)

namespace Outline.Columns

theorem length_eq {level : Nat} {s : Text} (columns : Columns level s) : s.length = 4 * level := by
  have four : ∀ c ∈ Outline.columns, c.length = 4 := by decide
  induction columns with
  | nil => rfl
  | concat _ column ih =>
    rw [List.length_append, ih, four _ column]
    omega

theorem feedFree {level : Nat} {s : Text} (columns : Columns level s) : '\n' ∉ s := by
  have free : ∀ c ∈ Outline.columns, '\n' ∉ c := by decide
  induction columns with
  | nil => exact List.not_mem_nil
  | concat _ column ih =>
    rw [List.mem_append]
    exact fun feed => feed.elim ih (free _ column)

theorem mark {level : Nat} {s : Text} (columns : Columns level s) (last : Bool) :
    Columns (level + 1) (s ++ Outline.mark last) :=
  .concat columns (by cases last <;> decide)

theorem bar {level : Nat} {s : Text} (columns : Columns level s) (last : Bool) :
    Columns (level + 1) (s ++ Outline.bar last) :=
  .concat columns (by cases last <;> decide)

end Outline.Columns

/-- The line shows the label behind the columns of its level. -/
def Label.Shown (line : Text) (n : Nat × Label) : Prop :=
  ∃ s, Outline.Columns n.1 s ∧ line = s ++ n.2.text

namespace Element

theorem shown_siblings {es : List Element} {level : Nat} {rest : Text}
    (columns : Outline.Columns level rest)
    (each : ∀ e ∈ es, ∀ first rest, Outline.Columns (level + 1) first →
      Outline.Columns (level + 1) rest →
      List.Forall₂ Label.Shown ((first ++ e.label.text) ::
        (Outline.childrenLines (e.parts.map outline)).map (rest ++ ·)) (e.nodes (level + 1))) :
    List.Forall₂ Label.Shown ((Outline.childrenLines (es.map outline)).map (rest ++ ·))
      (es.flatMap (nodes (level + 1))) := by
  induction es with
  | nil => exact .nil
  | cons e es ih =>
    have first := each e List.mem_cons_self _ _ (columns.mark es.isEmpty) (columns.bar es.isEmpty)
    have later := ih fun f member => each f (List.mem_cons_of_mem _ member)
    rw [List.map_cons, Outline.childrenLines_cons, outline_eq e, List.flatMap_cons]
    simpa [Outline.label, Outline.children, Function.comp_def] using List.rel_append first later

theorem shown (e : Element) {level : Nat} {first rest : Text}
    (columnsFirst : Outline.Columns level first) (columnsRest : Outline.Columns level rest) :
    List.Forall₂ Label.Shown ((first ++ e.label.text) ::
      (Outline.childrenLines (e.parts.map outline)).map (rest ++ ·)) (e.nodes level) := by
  induction e using induction_on_parts generalizing level first rest with
  | step e ih =>
    rw [nodes_eq]
    -- below a child other columns stand than on its own line, so both are arbitrary here
    refine .cons ⟨first, columnsFirst, rfl⟩ (shown_siblings columnsRest ?_)
    intro p part first rest columnsFirst columnsRest
    exact ih p part columnsFirst columnsRest

end Element

namespace Tree

theorem shown (t : Tree) : List.Forall₂ Label.Shown t.outline.lines (t.nodes 0) := by
  have lines : t.outline.lines =
      ([] ++ (Element.tree t).label.text) ::
        (Outline.childrenLines ((Element.tree t).parts.map Element.outline)).map ([] ++ ·) := by
    have outline := (Element.tree t).outline_eq
    rw [show t.outline = (Element.tree t).outline from rfl, outline, Outline.lines_eq]
    simp [Outline.label, Outline.children]
  rw [lines]
  exact (Element.tree t).shown .nil .nil

/-- No label breaks a line if no name does. -/
theorem feedFree_lines {t : Tree} (names : ∀ n ∈ t.leaves, '\n' ∉ n) :
    ∀ l ∈ t.outline.lines, '\n' ∉ l := by
  have unnamed : ∀ s ∈ Label.unnamed, '\n' ∉ s.text := by decide
  intro l member
  obtain ⟨n, isIn, s, columns, rfl⟩ : ∃ n ∈ t.nodes 0, Label.Shown l n := by
    obtain ⟨length, shown⟩ := List.forall₂_iff_get.mp t.shown
    obtain ⟨i, rfl⟩ := List.mem_iff_get.mp member
    have inside : i.1 < (t.nodes 0).length := length ▸ i.2
    exact ⟨_, List.get_mem _ ⟨i.1, inside⟩, shown i.1 i.2 inside⟩
  rw [List.mem_append]
  rintro (feed | feed)
  · exact columns.feedFree feed
  · rcases Element.mem_nodes (e := .tree t) isIn with ⟨name, isName, leaf⟩ | plain
    · rw [leaf] at feed
      exact names name isName feed
    · exact unnamed _ plain feed

theorem splitOn_drawing {t : Tree} (names : ∀ n ∈ t.leaves, '\n' ∉ n) :
    t.drawing.splitOn '\n' = t.outline.lines ++ [[]] :=
  Text.splitOn_unlines (feedFree_lines names)

/-- Two trees whose names are on one line and are no other labels are drawn alike only if they are
the same. The drawing of a tree whose names are on one line has a line for each tree and symbol in
it, parents before children, which shows its label behind four columns for each level. -/
theorem drawing_unambiguous :
    (∀ t u : Tree, (∀ n ∈ t.leaves, n.IsDrawable) → (∀ n ∈ u.leaves, n.IsDrawable) →
      (t.drawing = u.drawing ↔ t = u)) ∧
    (∀ t : Tree, (∀ n ∈ t.leaves, '\n' ∉ n) → ∃ ls, t.drawing.splitOn '\n' = ls ++ [[]] ∧
      List.Forall₂ Label.Shown ls (t.nodes 0)) := by
  refine ⟨fun t u left right => ⟨fun same => ?_, congrArg drawing⟩,
    fun t names => ⟨_, splitOn_drawing names, t.shown⟩⟩
  have lines : t.outline.lines = u.outline.lines := by
    have split := splitOn_drawing fun n member => (left n member).feedFree
    rw [same, splitOn_drawing fun n member => (right n member).feedFree] at split
    exact (List.append_inj_left' split rfl).symm
  have outlines : (Element.tree t).outline = (Element.tree u).outline :=
    Outline.lines_injective lines
  exact Element.tree.inj (Element.outline_injective left right outlines)

theorem drawing_unambiguous_marks :
    (∀ n ∈ (chain .blend [.leaf "└── B".toList]).leaves, n.IsDrawable) ∧
    (∀ n ∈ (chain .blend [.chain .blend [.leaf "B".toList]]).leaves, n.IsDrawable) ∧
    (chain .blend [.leaf "└── B".toList]).drawing ≠
      (chain .blend [.chain .blend [.leaf "B".toList]]).drawing ∧
    ∃ ls, (sequence [.tree (.leaf "A\r".toList), .symbol .fuse]).drawing.splitOn '\n' = ls ++ [[]] ∧
      List.Forall₂ Label.Shown ls
        [(0, .sequence), (1, .leaf "A\r".toList), (1, .symbol .fuse)] := by
  have left : ∀ n ∈ (chain .blend [.leaf "└── B".toList]).leaves, n.IsDrawable := by
    intro n member
    obtain rfl := List.mem_singleton.mp member
    exact ⟨by decide, by decide⟩
  have right : ∀ n ∈ (chain .blend [.chain .blend [.leaf "B".toList]]).leaves, n.IsDrawable := by
    intro n member
    obtain rfl := List.mem_singleton.mp member
    exact ⟨by decide, by decide⟩
  refine ⟨left, right, fun same => ?_, drawing_unambiguous.2 _ (by decide)⟩
  cases (drawing_unambiguous.1 _ _ left right).mp same

end Tree

end GenreRelations
