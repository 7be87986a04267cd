import GenreRelations.Proofs.Pieces
import GenreRelations.Proofs.Shape

/-!
How deep parsed trees are. Every group costs an opening parenthesis, and no more than three levels
come without one: that of the dividers, that of the operators and that of the names.
-/

namespace GenreRelations

open Expression (joined pairUp)
open Segment (join tokenize)

namespace Text

theorem count_unwords {c : Char} (solid : c ≠ ' ') (ws : List Text) :
    (unwords ws).count c = ws.flatten.count c := by
  induction ws with
  | nil => rfl
  | cons w ws ih =>
    cases ws with
    | nil => simp [unwords_singleton]
    | cons v ws =>
      rw [unwords_cons_cons, List.flatten_cons, List.count_append, List.count_append,
        List.count_cons_of_ne solid.symm, ih]

/-- Words with single spaces have the same characters as the text they come from. -/
theorem count_unwords_words {c : Char} (solid : isBlank c = false) (s : Text) :
    (unwords s.words).count c = s.count c := by
  have space : c ≠ ' ' := by
    rintro rfl
    simp [isBlank_space] at solid
  rw [count_unwords space, flatten_words, List.count_filter (by simp [solid])]

end Text

namespace Segment

/-- The number of opening parentheses in the segments. -/
def openings : List Segment → Nat
  | [] => 0
  | s :: ss => s.text.count '(' + openings ss

theorem openings_append (ss ts : List Segment) :
    openings (ss ++ ts) = openings ss + openings ts := by
  induction ss with
  | nil => rw [List.nil_append, openings, Nat.zero_add]
  | cons s ss ih => rw [List.cons_append, openings, openings, ih, Nat.add_assoc]

theorem openings_eq_count_join (ss : List Segment) : openings ss = (join ss).count '(' := by
  rw [join, Text.count_unwords (by decide)]
  induction ss with
  | nil => rfl
  | cons s ss ih => rw [openings, ih, List.map_cons, List.flatten_cons, List.count_append]

theorem openings_tokenize (text : Text) : openings (tokenize text) = text.count '(' := by
  rw [openings_eq_count_join, join_tokenize, Text.count_unwords_words (by decide)]

theorem openings_le_joined {s : Symbol} {ss : List Segment} {sss : List (List Segment)}
    (member : ss ∈ sss) : openings ss ≤ openings (joined s sss) := by
  induction sss with
  | nil => simp at member
  | cons ts sss ih =>
    cases sss with
    | nil =>
      obtain rfl := List.mem_singleton.mp member
      exact Nat.le_of_eq (congrArg openings (joined_singleton s ss).symm)
    | cons us sss =>
      rw [joined_cons_cons, openings_append, openings]
      rcases List.mem_cons.mp member with rfl | member
      · omega
      · have later := ih member
        omega

end Segment

theorem Group.Encloses.openings {outer inner : List Segment} (encloses : Group.Encloses outer inner) :
    Segment.openings outer = Segment.openings inner + 1 := by
  obtain @⟨n, a, m, b, ms, opening, closing⟩ := encloses
  have first : n.count '(' = a.count '(' := by
    rcases opening with rfl | rfl
    · rfl
    · simp
  have last : m.count '(' = b.count '(' := by
    rcases closing with rfl | rfl
    · rfl
    · simp
  simp only [Segment.openings, Segment.openings_append, Segment.text, List.count_cons_self,
    List.count_append, first, last]
  simp
  omega

namespace Tree

theorem operandsDepth_le {ts : List Tree} {k : Nat} (each : ∀ t ∈ ts, t.depth ≤ k) :
    operandsDepth ts ≤ k := by
  induction ts with
  | nil => exact Nat.zero_le _
  | cons t ts ih =>
    rw [operandsDepth]
    exact Nat.max_le.mpr ⟨each t List.mem_cons_self,
      ih fun u member => each u (List.mem_cons_of_mem _ member)⟩

theorem depth_sequence_joined_le {r : Relation} {ts : List Tree} {k : Nat}
    (each : ∀ t ∈ ts, t.depth ≤ k) : (sequence (joined r ts)).depth ≤ k + 1 := by
  have below := operandsDepth_le each
  rw [depth_eq rfl, children, treesOf_joined]
  omega

theorem depth_pairUp (t : Tree) : (pairUp t).depth = t.depth := by
  rcases pairUp_cases t with same | ⟨l, r, u, rfl, paired⟩
  · rw [same]
  · rw [paired, depth, depth, operandsDepth, operandsDepth, operandsDepth]
    simp

end Tree

/-- The tree of a level is at most two levels deeper than there are parentheses. -/
theorem Reads.depth_le {ss : List Segment} {t : Tree} (reads : Reads ss t) :
    t.depth ≤ Segment.openings ss + 2 := by
  induction reads with
  | name => exact Nat.le_add_left 1 _
  | @chain r ns _ _ =>
    have names : Tree.operandsDepth (ns.map .leaf) ≤ 1 := by
      refine Tree.operandsDepth_le fun t member => ?_
      obtain ⟨n, -, rfl⟩ := List.mem_map.mp member
      exact Nat.le_refl _
    rw [Tree.depth]
    omega
  | enclosed _ group _ ih =>
    rw [group.encloses.openings]
    omega
  | @sequence r os operands _ _ _ ih =>
    refine Tree.depth_sequence_joined_le fun t member => ?_
    obtain ⟨o, isIn, rfl⟩ := List.mem_map.mp member
    have within : Segment.openings o.segments ≤
        Segment.openings (Segment.joined (.operator r) (os.map Operand.segments)) :=
      Segment.openings_le_joined (List.mem_map.mpr ⟨o, isIn, rfl⟩)
    cases o with
    | name n => exact Nat.le_add_left 1 _
    -- the level around a group is paid for by the parenthesis that opens the group
    | group g u =>
      have group : Group.IsGroup g := operands _ isIn
      have inside := ih g u isIn
      have outside := group.encloses.openings
      simp only [Operand.segments] at within
      simp only [Operand.tree]
      omega

/-- A parsed tree is at most three levels deeper than there are parentheses. -/
theorem Tree.depth_le_of_parse {text : Text} {t : Tree} (read : parse text = .ok t) :
    t.depth ≤ text.count '(' + 3 := by
  rw [← Segment.openings_tokenize]
  rcases Expression.parse_forms read with ⟨-, -, rfl⟩ | reads | ⟨d, ps, divides, rfl⟩
  · exact Nat.le_add_left 1 _
  · exact Nat.le_succ_of_le reads.depth_le
  · refine depth_sequence_joined_le fun t member => ?_
    obtain ⟨p, isIn, rfl⟩ := List.mem_map.mp member
    have level := (divides.reads p isIn).depth_le
    have within : Segment.openings p.1 ≤ Segment.openings (tokenize text) :=
      divides.joined ▸ Segment.openings_le_joined (List.mem_map.mpr ⟨p, isIn, rfl⟩)
    rw [depth_pairUp]
    omega

end GenreRelations
