import GenreRelations.Expression.Error
import GenreRelations.Expression.Group

/-!
Reading an expression. A divider splits it into levels, an operator joins the names of a level,
and a level that mixes operators is read through its groups: the inside of each is an expression
again. `Tree.parse` recurs on the weight of the text, which drops with every pair of parentheses;
`Tree.parse_eq` and `Tree.parseLevel_eq` are its equations.
-/

namespace GenreRelations

namespace Element

def symbol? : Element → Option Relation
  | tree _ => none
  | symbol r => some r

end Element

namespace Expression

/-! ### The whole expression -/

def divider? : Segment → Option Relation
  | .symbol (.divider r) => some r
  | _ => none

/-- The relation whose divider splits the expression, if any does. -/
def dividerOf (text : Text) (ss : List Segment) : Except ParseError (Option Relation) :=
  match ss.filterMap divider? with
  | [] => .ok none
  | d :: ds =>
    match ds.find? (· ≠ d) with
    | none => .ok (some d)
    | some e => .error (.ambiguousDividers text d e)

/-- The first segment that is a name at an odd place or a symbol at an even one, where the first
segment of the list has number `i`. -/
def misplaced? (i : Nat) : List Segment → Option Nat
  | [] => none
  | s :: ss => if s.isName = (i % 2 == 0) then misplaced? (i + 1) ss else some i

/-- Names and symbols take turns, and a name comes last. -/
def checkPositions (text : Text) (ss : List Segment) : Except ParseError Unit :=
  match misplaced? 0 ss with
  | some i => .error (.misplacedOperator text i)
  | none =>
    match ss.getLast? with
    | some (.name _) => .ok ()
    | _ => .error (.misplacedOperator text (ss.length - 1))

/-! ### One level -/

/-- The relations of the symbols of a level. -/
def relationsOf (ss : List Segment) : List Relation :=
  Relation.distinct (ss.filterMap fun s => s.symbol?.map Symbol.relation)

def namesOf (ss : List Segment) : List Text := ss.filterMap Segment.name?

/-- The level with its groups in place, put there from the last to the first so that the spans
before them stay right. -/
def spliced (ss : List Segment) (spans : List Span) (groups : List Tree)
    (A : Storage Slot := Arena.storage) : Level A :=
  (spans.zip groups).foldr (fun p l => l.splice p.1 p.2) (Level.ofSegments ss A)

/-- What a slot contributes to the level; a name outside all groups has to balance. -/
def elementOf (text : Text) : Slot → Except ParseError Element
  | .group t => .ok (.tree t)
  | .segment (.symbol s) => .ok (.symbol s.relation)
  | .segment (.name n) =>
    if n.balance = 0 then .ok (.tree (.leaf n)) else .error (.malformed text (.unbalanced n))

/-- The tree of a level whose groups are in place. -/
def assemble (text : Text) (slots : List Slot) : Except ParseError Tree := do
  match ← slots.mapM (elementOf text) with
  | [.tree t] => return t
  | es =>
    if 1 < (Relation.distinct (es.filterMap Element.symbol?)).length then
      throw (.ambiguousGrouping text)
    else
      return .sequence es

/-- Reads a level without dividers, given how the inside of a group is read. Where all operators
are the same, parentheses stay in the names. -/
def readLevel (text : Text) (ss : List Segment)
    (read : (inner : Text) → inner.weight < Segment.weight ss → Except ParseError Tree) :
    Except ParseError Tree :=
  match relationsOf ss with
  | [] =>
    match namesOf ss with
    | [n] => .ok (.leaf n)
    | _ => .error (.malformed text .noRelation)
  | [r] => .ok (.chain r ((namesOf ss).map .leaf))
  | _ =>
    match h : Group.spans 0 ss with
    | .error i => .error (.malformed text (.unclosed i))
    | .ok spans => do
      let groups ← spans.attach.mapM fun ⟨span, hs⟩ =>
        read (Group.inner (span.slice ss)) (by have := Group.weight_inner_slice h hs; omega)
      assemble text (spliced ss spans groups).slots

theorem readLevel_eq (text : Text) (ss : List Segment) (read : Text → Except ParseError Tree) :
    (readLevel text ss fun inner _ => read inner) =
      match relationsOf ss with
      | [] =>
        match namesOf ss with
        | [n] => .ok (.leaf n)
        | _ => .error (.malformed text .noRelation)
      | [r] => .ok (.chain r ((namesOf ss).map .leaf))
      | _ =>
        match Group.spans 0 ss with
        | .error i => .error (.malformed text (.unclosed i))
        | .ok spans =>
          (spans.mapM fun span => read (Group.inner (span.slice ss))) >>= fun groups =>
            assemble text (spliced ss spans groups).slots := by
  unfold readLevel
  split
  · rfl
  · rfl
  · split
    · rename_i h
      simp only [h]
    · rename_i h
      simp only [h]
      rw [List.mapM_subtype (g := fun s => read (Group.inner (s.slice ss)))
        (fun _ _ => rfl), List.unattach_attach]

/-! ### Levels between dividers -/

/-- A chain of two operands between dividers is a pair. -/
def pairUp : Tree → Tree
  | .chain r [left, right] => .pair left r right
  | t => t

/-- The trees with a symbol between neighbours. -/
def joined (r : Relation) : List Tree → List Element
  | [] => []
  | [t] => [.tree t]
  | t :: u :: ts => .tree t :: .symbol r :: joined r (u :: ts)

theorem weight_le_of_mem_splitOnP {p : Segment → Bool} {ss level : List Segment}
    (h : level ∈ ss.splitOnP p) : Segment.weight level ≤ Segment.weight ss := by
  induction ss generalizing level with
  | nil =>
    obtain rfl : level = [] := by simpa using h
    exact Nat.le_refl _
  | cons s ss ih =>
    rw [List.splitOnP_cons_eq_if_modifyHead] at h
    rw [Segment.weight_cons]
    split at h
    · rcases List.mem_cons.mp h with rfl | h
      · exact Nat.zero_le _
      · exact Nat.le_trans (ih h) (Nat.le_add_left _ _)
    · cases hs : ss.splitOnP p with
      | nil => exact absurd hs (List.splitOnP_ne_nil _ _)
      | cons l ls =>
        rw [hs, List.modifyHead_cons] at h
        rcases List.mem_cons.mp h with rfl | h
        · rw [Segment.weight_cons]
          exact Nat.add_le_add_left (ih (by simp [hs])) _
        · exact Nat.le_trans (ih (by simp [hs, h])) (Nat.le_add_left _ _)

end Expression

namespace Tree

open Expression

/-- The tree of an expression. A text without any symbol is a single name, taken as it stands. -/
def parse (text : Text) : Except ParseError Tree :=
  if (Segment.tokenize text).all Segment.isName then
    if (Segment.tokenize text).isEmpty then .error (.malformed text .noGenre)
    else .ok (.leaf text)
  else do
    let divider ← dividerOf text (Segment.tokenize text)
    checkPositions text (Segment.tokenize text)
    match divider with
    | none => readLevel text (Segment.tokenize text) fun inner _ => parse inner
    | some d =>
      let trees ← ((Segment.tokenize text).splitOnP Segment.isDivider).attach.mapM
        fun ⟨level, _⟩ => readLevel text level fun inner _ => parse inner
      return .sequence (joined d (trees.map pairUp))
  termination_by text.weight
  decreasing_by
    · rename_i h
      rwa [Segment.weight_tokenize] at h
    · rename_i hmem h
      have hle := weight_le_of_mem_splitOnP hmem
      rw [Segment.weight_tokenize] at hle
      exact Nat.lt_of_lt_of_le h hle

/-- The tree of one level of an expression. -/
def parseLevel (text : Text) (ss : List Segment) : Except ParseError Tree :=
  readLevel text ss fun inner _ => parse inner

theorem parse_eq (text : Text) :
    parse text =
      if (Segment.tokenize text).all Segment.isName then
        if (Segment.tokenize text).isEmpty then .error (.malformed text .noGenre)
        else .ok (.leaf text)
      else do
        let divider ← dividerOf text (Segment.tokenize text)
        checkPositions text (Segment.tokenize text)
        match divider with
        | none => parseLevel text (Segment.tokenize text)
        | some d =>
          let trees ← ((Segment.tokenize text).splitOnP Segment.isDivider).mapM (parseLevel text)
          return .sequence (joined d (trees.map pairUp)) := by
  rw [parse]
  congr
  funext divider
  congr
  funext _
  cases divider with
  | none => rfl
  | some d =>
    simp only
    rw [List.mapM_subtype (g := parseLevel text) (fun _ _ => rfl), List.unattach_attach]

theorem parseLevel_eq (text : Text) (ss : List Segment) :
    parseLevel text ss =
      match relationsOf ss with
      | [] =>
        match namesOf ss with
        | [n] => .ok (.leaf n)
        | _ => .error (.malformed text .noRelation)
      | [r] => .ok (.chain r ((namesOf ss).map .leaf))
      | _ =>
        match Group.spans 0 ss with
        | .error i => .error (.malformed text (.unclosed i))
        | .ok spans =>
          (spans.mapM fun span => parse (Group.inner (span.slice ss))) >>= fun groups =>
            assemble text (spliced ss spans groups).slots :=
  readLevel_eq text ss parse

end Tree

end GenreRelations
