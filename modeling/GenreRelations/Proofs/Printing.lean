import GenreRelations.Catalog.Report
import GenreRelations.Proofs.Lines

/-!
Lines that are printed. The compact text of a value holds no control character, so it stands on a
line of its own, and the lines of what is printed are the texts that were printed:
`Text.lines_unlines`.
-/

namespace GenreRelations

namespace Text

/-- There is no control character of ASCII in the text, which a line feed is. -/
def ControlFree (s : Text) : Prop := ∀ c ∈ s, 0x20 ≤ c.toNat

/-! ### Texts without control characters -/

@[simp] theorem controlFree_nil : ControlFree [] := by simp [ControlFree]

@[simp] theorem controlFree_cons {c : Char} {s : Text} :
    ControlFree (c :: s) ↔ 0x20 ≤ c.toNat ∧ ControlFree s := List.forall_mem_cons

@[simp] theorem controlFree_append {s t : Text} :
    ControlFree (s ++ t) ↔ ControlFree s ∧ ControlFree t := List.forall_mem_append

theorem ControlFree.subset {s t : Text} (free : ControlFree t) (part : s ⊆ t) : ControlFree s :=
  fun c member => free c (part member)

theorem controlFree_flatMap {f : Char → Text} (each : ∀ c, ControlFree (f c)) (s : Text) :
    ControlFree (s.flatMap f) := by
  intro c member
  obtain ⟨d, -, isIn⟩ := List.mem_flatMap.mp member
  exact each d c isIn

theorem controlFree_ofNat (n : Nat) : ControlFree (ofNat n) := by
  intro c member
  have digit := Nat.isDigit_of_mem_toDigits (by decide) (by decide) member
  have least : '0'.toNat ≤ c.toNat := by
    simp only [Char.isDigit, Bool.and_eq_true, decide_eq_true_eq] at digit
    exact digit.1
  exact Nat.le_trans (by decide) least

/-! ### Lines -/

theorem unlines_cons (l : Text) (ls : List Text) : unlines (l :: ls) = l ++ '\n' :: unlines ls := by
  simp [unlines]

theorem unlines_eq_nil_iff {ls : List Text} : unlines ls = [] ↔ ls = [] := by
  cases ls with
  | nil => simp [unlines]
  | cons l ls => simp [unlines]

theorem infix_unlines {l : Text} {ls : List Text} (member : l ∈ ls) : l <:+: unlines ls := by
  have line : l ++ ['\n'] <:+: unlines ls :=
    List.infix_of_mem_flatten (List.mem_map_of_mem member)
  exact (List.prefix_append l ['\n']).isInfix.trans line

theorem length_le_length_unlines (ls : List Text) : ls.length ≤ (unlines ls).length := by
  induction ls with
  | nil => exact Nat.le_refl 0
  | cons l ls ih =>
    rw [unlines_cons, List.length_append, List.length_cons, List.length_cons]
    omega

theorem splitOn_unlines {ls : List Text} (feedFree : ∀ l ∈ ls, '\n' ∉ l) :
    (unlines ls).splitOn '\n' = ls ++ [[]] := by
  induction ls with
  | nil => exact List.splitOn_nil _
  | cons l ls ih =>
    obtain ⟨first, later⟩ := List.forall_mem_cons.mp feedFree
    have single : l.splitOn '\n' = [l] :=
      List.splitOnP_eq_singleton fun c member => by
        simpa using fun same : c = '\n' => first (same ▸ member)
    rw [unlines_cons, splitOn_append_feed, single, ih later]
    rfl

/-- Texts that were printed without control characters are the lines of what was printed. -/
theorem lines_unlines {ls : List Text} (free : ∀ l ∈ ls, ControlFree l) :
    lines (unlines ls) = ls := by
  have feedFree : ∀ l ∈ ls, '\n' ∉ l := fun l member feed =>
    absurd (free l member _ feed) (by decide)
  have closed : ∀ l ∈ ls, withoutReturn l = l := by
    intro l member
    refine (withoutReturn_cases l).resolve_right fun longer => ?_
    have control : '\r' ∈ l := longer ▸ List.mem_append_right _ (by simp)
    exact absurd (free l member _ control) (by decide)
  obtain ⟨ms, last, parts, lines⟩ := exists_splitOn_lines (unlines ls)
  rw [splitOn_unlines feedFree] at parts
  obtain ⟨rfl, single⟩ := List.append_inj' parts rfl
  obtain rfl := (List.cons.inj single).1
  rw [lines, List.map_congr_left (g := id) closed]
  simp

end Text

namespace Json

open Text (ControlFree controlFree_cons controlFree_append controlFree_nil)

theorem controlFree_escapeChar (c : Char) : ControlFree (escapeChar c) := by
  unfold escapeChar
  split
  case h_8 c _ _ _ _ _ _ _ =>
    split
    · rename_i control
      have digit : ∀ n < 16, 0x20 ≤ (Nat.digitChar n).toNat := by decide
      simp only [hexByte, controlFree_cons]
      exact ⟨by decide, by decide, by decide, by decide, digit _ (by omega), digit _ (by omega),
        controlFree_nil⟩
    · rename_i printed
      exact controlFree_cons.mpr ⟨Nat.not_lt.mp printed, controlFree_nil⟩
  all_goals simp

theorem controlFree_stringText (s : Text) : ControlFree (stringText s) := by
  rw [stringText, List.cons_append, controlFree_cons, controlFree_append, controlFree_cons]
  exact ⟨by decide, Text.controlFree_flatMap controlFree_escapeChar s, by decide, controlFree_nil⟩

/-! ### Numbers -/

theorem Number.controlFree_realText {digits : Text} (free : ControlFree digits) (places : Int) :
    ControlFree (realText digits places) := by
  have zeros : ∀ n, ControlFree (List.replicate n '0') := by
    intro n c member
    rw [List.eq_of_mem_replicate member]
    decide
  have taken : ∀ n, ControlFree (digits.take n) := fun n => free.subset (List.take_subset n digits)
  have dropped : ∀ n, ControlFree (digits.drop n) := fun n =>
    free.subset (List.drop_subset n digits)
  unfold realText
  split
  · split
    · simp [zeros, free]
    · dsimp only
      split
      · simp [zeros, free]
      · simp [taken, dropped]
  · have sign : 0x20 ≤ (if places - 1 < 0 then '-' else '+').toNat := by
      split
      · decide
      · decide
    dsimp only
    split
    · simp_all [Text.controlFree_ofNat]
    · simp_all [Text.controlFree_ofNat]

theorem Number.controlFree_text (n : Number) : ControlFree n.text := by
  have sign : ∀ p : Prop, [Decidable p] → ControlFree (if p then ['-'] else []) := by
    intro p _
    split <;> simp
  cases n with
  | integer n => simp [text, sign, Text.controlFree_ofNat]
  | real x =>
    rw [text, controlFree_append]
    refine ⟨sign _, ?_⟩
    split
    · simp
    · have digits := Text.controlFree_ofNat x.shortest.digits
      refine controlFree_realText (digits.subset fun c member => ?_) _
      have kept := (List.dropWhile_suffix _).subset (List.mem_reverse.mp member)
      exact List.mem_reverse.mp kept

/-! ### Values -/

mutual

theorem controlFree_compact : (v : Json) → ControlFree v.compact
  | null => by simp [compact]
  | bool true => by simp [compact]
  | bool false => by simp [compact]
  | number n => n.controlFree_text
  | string s => controlFree_stringText s
  | array [] => by simp [compact]
  | array (v :: vs) => by simp [compact, controlFree_compact v, controlFree_itemsText vs]
  | object [] => by simp [compact]
  | object ((k, v) :: ms) => by
    simp [compact, controlFree_stringText, controlFree_compact v, controlFree_membersText ms]

theorem controlFree_itemsText : (vs : List Json) → ControlFree (itemsText vs)
  | [] => by simp [itemsText]
  | v :: vs => by simp [itemsText, controlFree_compact v, controlFree_itemsText vs]

theorem controlFree_membersText : (ms : List (Text × Json)) → ControlFree (membersText ms)
  | [] => by simp [membersText]
  | (k, v) :: ms => by
    simp [membersText, controlFree_stringText, controlFree_compact v, controlFree_membersText ms]

end

end Json

end GenreRelations
