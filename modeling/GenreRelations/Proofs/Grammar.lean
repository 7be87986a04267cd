import GenreRelations.Proofs.Enclosure
import GenreRelations.Proofs.Parts

/-!
The grammar of levels. `Reads ss t` says that segments without dividers stand for the tree `t`: a
name, a chain of names, a level in parentheses, or operands joined by one relation, each of them a
name or a group. `reads_of_parse` and `Reads.parse` say that parsing follows the grammar exactly.
-/

namespace GenreRelations

open Segment (Alternating IsLevel)

namespace Operand

/-- A name that closes what it opens, or a group. -/
def IsOperand : Operand → Prop
  | name n => n.IsName ∧ n.balance = 0
  | group g _ => Group.IsGroup g

end Operand

/-- The tree that the segments of a level stand for. -/
inductive Reads : List Segment → Tree → Prop
  | name {n : Text} (name : n.IsName) : Reads [.name n] (.leaf n)
  | chain (r : Relation) {ns : List Text} (names : ∀ n ∈ ns, n.IsName) (several : 2 ≤ ns.length) :
      Reads (Segment.joined (.operator r) (ns.map fun n => [.name n])) (.chain r (ns.map .leaf))
  | enclosed {g : List Segment} {t : Tree} (mixed : Expression.Mixed g) (group : Group.IsGroup g)
      (read : Reads (Group.inside g) t) : Reads g t
  | sequence (r : Relation) {os : List Operand} (operands : ∀ o ∈ os, o.IsOperand)
      (several : 2 ≤ os.length)
      (mixed : Expression.Mixed (Segment.joined (.operator r) (os.map Operand.segments)))
      (read : ∀ g t, .group g t ∈ os → Reads (Group.inside g) t) :
      Reads (Segment.joined (.operator r) (os.map Operand.segments))
        (.sequence (Expression.joined r (os.map Operand.tree)))

/-! ### Levels -/

namespace Segment

theorem mem_joined {x : Segment} {s : Symbol} {sss : List (List Segment)} :
    x ∈ joined s sss ↔ (∃ ss ∈ sss, x ∈ ss) ∨ (2 ≤ sss.length ∧ x = symbol s) := by
  induction sss with
  | nil => simp [joined]
  | cons ss sss ih =>
    cases sss with
    | nil => simp [joined_singleton]
    | cons ts rest =>
      rw [joined_cons_cons, List.mem_append, List.mem_cons, ih]
      simp only [List.mem_cons, exists_eq_or_imp, List.length_cons]
      constructor
      · rintro (member | same | member | ⟨-, same⟩)
        · exact .inl (.inl member)
        · exact .inr ⟨by omega, same⟩
        · exact .inl (.inr member)
        · exact .inr ⟨by omega, same⟩
      · rintro ((member | member) | ⟨-, same⟩)
        · exact .inl member
        · exact .inr (.inr (.inl member))
        · exact .inr (.inl same)

theorem isLevel_joined {r : Relation} {sss : List (List Segment)} (nonempty : sss ≠ [])
    (levels : ∀ ss ∈ sss, IsLevel ss) : IsLevel (joined (.operator r) sss) := by
  refine ⟨alternating_joined.mpr ⟨nonempty, fun ss h => (levels ss h).alternating⟩, ?_⟩
  intro x member
  rcases mem_joined.mp member with ⟨ss, h, member⟩ | ⟨-, rfl⟩
  · exact (levels ss h).undivided x member
  · rfl

theorem isLevel_name {n : Text} (name : n.IsName) : IsLevel [.name n] :=
  ⟨.name name, by simp [isDivider]⟩

theorem Alternating.several {ss : List Segment} (alternating : Alternating ss) {s : Symbol}
    (symbol : .symbol s ∈ ss) : 2 ≤ ss.length := by
  cases alternating with
  | name => simp at symbol
  | cons => simp

theorem Alternating.exists_symbol {ss : List Segment} (alternating : Alternating ss)
    (several : 2 ≤ ss.length) : ∃ s, .symbol s ∈ ss := by
  cases alternating with
  | name => simp at several
  | @cons n s rest => exact ⟨s, by simp⟩

end Segment

theorem Operand.IsOperand.isLevel {o : Operand} (operand : o.IsOperand) : IsLevel o.segments := by
  cases o with
  | name n => exact Segment.isLevel_name operand.1
  | group g t => exact operand.level

theorem Reads.isLevel {ss : List Segment} {t : Tree} (reads : Reads ss t) : IsLevel ss := by
  cases reads with
  | name name => exact Segment.isLevel_name name
  | chain r names several =>
    refine Segment.isLevel_joined (by rintro empty; simp_all) ?_
    intro ss member
    obtain ⟨n, isIn, rfl⟩ := List.mem_map.mp member
    exact Segment.isLevel_name (names n isIn)
  | enclosed _ group => exact group.level
  | sequence r operands several =>
    refine Segment.isLevel_joined (by rintro empty; simp_all) ?_
    intro ss member
    obtain ⟨o, isIn, rfl⟩ := List.mem_map.mp member
    exact (operands o isIn).isLevel

/-! ### Operands and parts -/

namespace Part

theorem flatMap_segments_intersperse (os : List Operand) (s : Symbol) :
    ((os.map operand).intersperse (symbol s)).flatMap segments =
      Segment.joined s (os.map Operand.segments) := by
  induction os with
  | nil => rfl
  | cons o os ih =>
    cases os with
    | nil => simp [Segment.joined_singleton, segments]
    | cons u rest =>
      simp only [List.map_cons, List.intersperse_cons_cons, List.flatMap_cons] at ih ⊢
      rw [ih, Segment.joined_cons_cons]
      rfl

theorem map_element_intersperse (os : List Operand) (r : Relation) :
    ((os.map operand).intersperse (symbol (.operator r))).map element =
      Expression.joined r (os.map Operand.tree) := by
  induction os with
  | nil => rfl
  | cons o os ih =>
    cases os with
    | nil => rfl
    | cons u rest =>
      simp only [List.map_cons, List.intersperse_cons_cons] at ih ⊢
      rw [ih]
      rfl

theorem mem_intersperse {os : List Operand} {s : Symbol} {p : Part}
    (member : p ∈ (os.map operand).intersperse (symbol s)) :
    p = symbol s ∨ ∃ o ∈ os, p = operand o := by
  induction os with
  | nil => simp at member
  | cons o os ih =>
    cases os with
    | nil => exact .inr ⟨o, by simp, by simpa using member⟩
    | cons u rest =>
      simp only [List.map_cons, List.intersperse_cons_cons, List.mem_cons] at member ih
      rcases member with rfl | rfl | member
      · exact .inr ⟨o, by simp, rfl⟩
      · exact .inl rfl
      · rcases ih member with same | ⟨v, isIn, same⟩
        · exact .inl same
        · exact .inr ⟨v, List.mem_cons_of_mem _ (by simpa using isIn), same⟩

theorem operand_mem_intersperse {os : List Operand} {o : Operand} (member : o ∈ os) (s : Symbol) :
    operand o ∈ (os.map operand).intersperse (symbol s) := by
  induction os with
  | nil => simp at member
  | cons u os ih =>
    cases os with
    | nil => simpa using member
    | cons v rest =>
      simp only [List.map_cons, List.intersperse_cons_cons, List.mem_cons] at ih ⊢
      rcases List.mem_cons.mp member with rfl | member
      · exact .inl rfl
      · exact .inr (.inr (ih (by simpa using member)))

theorem ends_with_name {o : Operand} (sound : (operand o).Sound) :
    ∃ front n, o.segments = front ++ [.name n] ∧ ∃ m rest, o.segments = .name m :: rest := by
  cases o with
  | name n => exact ⟨[], n, rfl, n, [], rfl⟩
  | group g t =>
    obtain ⟨n, ms, m, rfl⟩ := (show Group.IsRun g from sound).enclosed.names
    exact ⟨_, _, List.cons_append.symm, _, _, rfl⟩

/-- Parts of an alternation are operands with symbols between them. -/
theorem exists_operands {ps : List Part} {s : Symbol}
    (alternating : Alternating (ps.flatMap segments)) (sound : ∀ p ∈ ps, p.Sound)
    (agree : ∀ t, symbol t ∈ ps → t = s) :
    ∃ os : List Operand, ps = (os.map operand).intersperse (symbol s) ∧
      ∀ o ∈ os, Alternating o.segments := by
  induction length : ps.length using Nat.strongRecOn generalizing ps with
  | ind k ih =>
    cases ps with
    | nil => exact absurd rfl alternating.ne_nil
    | cons p ps =>
      cases p with
      | symbol t => exact absurd alternating Alternating.not_symbol
      | operand o =>
        obtain ⟨front, n, ending, -⟩ := ends_with_name (sound _ List.mem_cons_self)
        rw [List.flatMap_cons] at alternating
        simp only [segments, ending, List.append_assoc, List.singleton_append] at alternating
        -- an operand ends with a name, so that a symbol or nothing is behind it
        obtain ⟨first, rest⟩ := alternating.behind
        rw [← ending] at first
        cases ps with
        | nil => exact ⟨[o], rfl, by simpa using first⟩
        | cons p ps =>
          cases p with
          | operand u =>
            exfalso
            obtain ⟨-, -, -, m, more, start⟩ := ends_with_name (sound (operand u) (by simp))
            rw [List.flatMap_cons] at rest
            simp only [segments, start, List.cons_append] at rest
            rcases rest with empty | ⟨t, later, same, -⟩
            · simp at empty
            · simp at same
          | symbol t =>
            obtain rfl := agree t (by simp)
            rw [List.flatMap_cons] at rest
            simp only [segments, List.singleton_append] at rest
            rcases rest with empty | ⟨u, later, same, later_alternating⟩
            · simp at empty
            · obtain ⟨-, rfl⟩ := List.cons.inj same
              have shorter : ps.length < k := by
                rw [← length, List.length_cons, List.length_cons]
                omega
              obtain ⟨os, rfl, levels⟩ := ih _ shorter later_alternating
                (fun p hp => sound p (by simp [hp])) (fun v hv => agree v (by simp [hv])) rfl
              cases os with
              | nil => exact absurd rfl later_alternating.ne_nil
              | cons v os =>
                exact ⟨o :: v :: os, rfl, by simpa using ⟨first, by simpa using levels⟩⟩

end Part

end GenreRelations
