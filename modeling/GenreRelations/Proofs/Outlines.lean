import GenreRelations.Tree.Drawing

/-!
Outlines from their lines. The first four columns of a line tell whether it belongs to a child that
was begun before or begins another, and whether that one is the last; so equal lines are drawn of
equal outlines, whatever the labels are: `Outline.childrenLines_injective`.
-/

namespace GenreRelations.Outline

def label : Outline → Text
  | node label _ => label

def children : Outline → List Outline
  | node _ children => children

theorem lines_eq (o : Outline) : o.lines = o.label :: childrenLines o.children := by
  cases o
  rfl

/-! ### Columns -/

/-- The columns before the label of a child, which may be the last one. -/
def mark (last : Bool) : Text := if last then "└── ".toList else "├── ".toList

/-- The columns before the lines below a child. -/
def bar (last : Bool) : Text := if last then "    ".toList else "│   ".toList

/-- The lines of a child come before those of its later siblings. -/
theorem childrenLines_cons (o : Outline) (os : List Outline) : childrenLines (o :: os) =
    (mark os.isEmpty ++ o.label) ::
      ((childrenLines o.children).map (bar os.isEmpty ++ ·) ++ childrenLines os) := by
  cases os with
  | nil => simp [childrenLines, lines_eq, indent, mark, bar]
  | cons p os => simp [childrenLines, lines_eq, indent, mark, bar]

/-- The line begins a child. -/
def Begins (l : Text) : Prop := mark false <+: l ∨ mark true <+: l

instance (l : Text) : Decidable (Begins l) := by unfold Begins; infer_instance

theorem begins_mark (last : Bool) (s : Text) : Begins (mark last ++ s) := by
  cases last with
  | false => exact .inl ⟨s, rfl⟩
  | true => exact .inr ⟨s, rfl⟩

theorem not_begins_bar (last : Bool) (s : Text) : ¬ Begins (bar last ++ s) := by
  cases last <;> simp [Begins, bar, mark]

theorem mark_append_inj {a b : Bool} {s t : Text} (same : mark a ++ s = mark b ++ t) :
    a = b ∧ s = t := by
  cases a <;> cases b <;> simp_all [mark]

/-! ### Lines of siblings -/

/-- The lines below a child end where the next child begins. -/
theorem takeWhile_below {ls : List Text} (below : ∀ l ∈ ls, ¬ Begins l) (os : List Outline) :
    (ls ++ childrenLines os).takeWhile (fun l => ¬ Begins l) = ls := by
  have next : (childrenLines os).takeWhile (fun l => ¬ Begins l) = [] := by
    cases os with
    | nil => rfl
    | cons o os =>
      rw [childrenLines_cons, List.takeWhile_cons_of_neg]
      simpa using begins_mark _ _
  rw [List.takeWhile_append_of_pos (by simpa using below), next, List.append_nil]

theorem below_inj {ks ls : List Text} {os ps : List Outline} (left : ∀ l ∈ ks, ¬ Begins l)
    (right : ∀ l ∈ ls, ¬ Begins l) (same : ks ++ childrenLines os = ls ++ childrenLines ps) :
    ks = ls ∧ childrenLines os = childrenLines ps := by
  have below : ks = ls := by rw [← takeWhile_below left os, same, takeWhile_below right ps]
  exact ⟨below, List.append_cancel_left (below ▸ same)⟩

theorem childrenLines_injective : (os ps : List Outline) →
    childrenLines os = childrenLines ps → os = ps
  | [], [], _ => rfl
  | [], p :: ps, same => by
    rw [childrenLines_cons] at same
    cases same
  | o :: os, [], same => by
    rw [childrenLines_cons] at same
    cases same
  | node l cs :: os, node m ds :: ps, same => by
    rw [childrenLines_cons, childrenLines_cons] at same
    obtain ⟨first, rest⟩ := List.cons.inj same
    -- the mark tells whether siblings follow, and so how all lines below this child begin
    obtain ⟨last, labels⟩ := mark_append_inj first
    rw [last] at rest
    have apart : ∀ (ls : List Text), ∀ l ∈ ls.map (bar ps.isEmpty ++ ·), ¬ Begins l := by
      simp [not_begins_bar]
    obtain ⟨below, beside⟩ := below_inj (apart _) (apart _) rest
    have children : childrenLines cs = childrenLines ds :=
      (List.map_inj_right fun _ _ => List.append_cancel_left).mp below
    rw [childrenLines_injective cs ds children, childrenLines_injective os ps beside,
      show l = m from labels]

theorem lines_injective {o p : Outline} (same : o.lines = p.lines) : o = p := by
  rw [lines_eq, lines_eq] at same
  obtain ⟨labels, below⟩ := List.cons.inj same
  obtain ⟨l, os⟩ := o
  obtain ⟨m, ps⟩ := p
  rw [childrenLines_injective os ps below, show l = m from labels]

end GenreRelations.Outline
