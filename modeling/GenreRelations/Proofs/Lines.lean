import GenreRelations.Text.Lines
import Mathlib.Data.List.DropRight

/-!
Lines and the blanks at their ends. The lines of a text are what stands between its line feeds, each
but the last without the carriage return that belongs to its ending: `exists_splitOn_lines`. What is
read from lines without the blanks at their ends does not see these carriage returns.
-/

namespace GenreRelations.Text

/-! ### Trimming -/

theorem isBlank_return : isBlank '\r' = true := by decide

theorem trimEnd_eq (s : Text) : trimEnd s = s.rdropWhile isBlank := rfl

theorem prefix_trimStart (s : Text) : trim s <+: trimStart s := List.rdropWhile_prefix isBlank _

theorem mem_of_mem_trim {s : Text} {c : Char} (member : c ∈ trim s) : c ∈ s :=
  (List.dropWhile_suffix isBlank).subset ((prefix_trimStart s).subset member)

theorem trim_concat_blank {c : Char} (blank : isBlank c = true) (s : Text) :
    trim (s ++ [c]) = trim s := by
  rw [trim, trim, trimStart, trimStart, List.dropWhile_append]
  by_cases nothing : s.dropWhile isBlank = []
  · rw [nothing]
    simp [blank]
  · rw [if_neg (by simpa using nothing)]
    exact List.rdropWhile_concat_pos isBlank _ c blank

theorem trim_cons_of_solid {c : Char} (solid : isBlank c = false) (s : Text) :
    trim (c :: s) = c :: trimEnd s := by
  rw [trim, trimStart, List.dropWhile_cons_of_neg (by simp [solid]), trimEnd, List.reverse_cons,
    List.dropWhile_append]
  by_cases nothing : s.reverse.dropWhile isBlank = []
  · simp [nothing, solid, trimEnd]
  · rw [if_neg (by simpa using nothing), List.reverse_concat, trimEnd]

/-- A text that is left by trimming starts with a character that is not blank. -/
theorem solid_of_trim {s t : Text} {c : Char} (left : trim s = c :: t) : isBlank c = false := by
  obtain ⟨u, start⟩ := left ▸ prefix_trimStart s
  have first := List.head?_dropWhile_not isBlank s
  rw [← trimStart, ← start] at first
  simpa using first

theorem trim_trim (s : Text) : trim (trim s) = trim s := by
  have start : trimStart (trim s) = trim s := by
    cases left : trim s with
    | nil => rfl
    | cons c t => exact List.dropWhile_cons_of_neg (by simp [solid_of_trim left])
  rw [trim, start, trim, trimEnd_eq, trimEnd_eq, List.rdropWhile_idempotent]

/-- Trimming leaves a text as it is if no blank stands at its ends. -/
theorem trim_eq_self_iff {s : Text} : trim s = s ↔
    (∀ c, s.head? = some c → isBlank c = false) ∧ ∀ c, s.getLast? = some c → isBlank c = false := by
  cases s with
  | nil => simp [trim, trimStart, trimEnd]
  | cons c t =>
    have last : trimEnd (c :: t) = c :: t ↔
        ∀ d, (c :: t).getLast? = some d → isBlank d = false := by
      rw [trimEnd_eq, List.rdropWhile_eq_self_iff,
        List.getLast?_eq_some_getLast (List.cons_ne_nil c t)]
      simp
    by_cases solid : isBlank c = false
    · have start : trimStart (c :: t) = c :: t := List.dropWhile_cons_of_neg (by simp [solid])
      rw [trim, start, last]
      simp [solid]
    · exact ⟨fun left => absurd (solid_of_trim left) solid, fun ends => absurd (ends.1 c rfl) solid⟩

/-! ### Lines -/

/-- A line without the carriage return at its end. -/
def withoutReturn : Text → Text
  | [] => []
  | ['\r'] => []
  | c :: s => c :: withoutReturn s

theorem withoutReturn_cons {c : Char} {s : Text} (other : c = '\r' → s ≠ []) :
    withoutReturn (c :: s) = c :: withoutReturn s := by
  rw [withoutReturn]
  rintro rfl rfl
  exact other rfl rfl

theorem withoutReturn_cases (s : Text) : withoutReturn s = s ∨ s = withoutReturn s ++ ['\r'] := by
  fun_induction withoutReturn s with
  | case1 => exact .inl rfl
  | case2 => exact .inr rfl
  | case3 c s _ ih => simpa using ih

theorem trim_withoutReturn (s : Text) : trim (withoutReturn s) = trim s := by
  rcases withoutReturn_cases s with same | longer
  · rw [same]
  · conv_rhs => rw [longer]
    exact (trim_concat_blank isBlank_return _).symm

theorem splitOn_feed (s : Text) : ('\n' :: s).splitOn '\n' = [] :: s.splitOn '\n' := by
  rw [List.splitOn_cons_eq_if_modifyHead, if_pos (by rfl)]

theorem splitOn_cons_of_ne {c : Char} (other : c ≠ '\n') (s : Text) :
    (c :: s).splitOn '\n' = (s.splitOn '\n').modifyHead (c :: ·) := by
  rw [List.splitOn_cons_eq_if_modifyHead, if_neg (by simpa using other)]

theorem splitOn_append_feed (s t : Text) :
    (s ++ '\n' :: t).splitOn '\n' = s.splitOn '\n' ++ t.splitOn '\n' :=
  List.splitOnP_append_cons s t (by rfl)

theorem length_splitOn (s : Text) : (s.splitOn '\n').length = 1 + s.count '\n' := by
  induction s with
  | nil => rfl
  | cons c s ih =>
    by_cases feed : c = '\n'
    · subst feed
      rw [splitOn_feed, List.length_cons, ih, List.count_cons_self]
      omega
    · rw [splitOn_cons_of_ne feed, List.length_modifyHead, ih, List.count_cons_of_ne feed]

theorem exists_feed_of_splitOn {s : Text} {ps : List Text} (parts : s.splitOn '\n' = [] :: ps)
    (more : ps ≠ []) : ∃ t, s = '\n' :: t := by
  cases s with
  | nil =>
    rw [List.splitOn_nil] at parts
    exact absurd (List.cons.inj parts).2.symm more
  | cons c s =>
    by_cases feed : c = '\n'
    · exact ⟨s, by rw [feed]⟩
    · obtain ⟨p, qs, later⟩ := List.exists_cons_of_ne_nil (List.splitOn_ne_nil '\n' s)
      rw [splitOn_cons_of_ne feed, later] at parts
      exact absurd (List.cons.inj parts).1 (List.cons_ne_nil c p)

/-- What stands between line feeds are the lines, but for their carriage returns, and something
empty behind a line feed at the end. -/
theorem exists_splitOn_lines (s : Text) : ∃ ls last, s.splitOn '\n' = ls ++ [last] ∧
    lines s = ls.map withoutReturn ++ [last].filter fun l => !l.isEmpty := by
  fun_induction lines s with
  | case1 => exact ⟨[], [], List.splitOn_nil _, rfl⟩
  | case2 s ih =>
    obtain ⟨ls, last, parts, lines⟩ := ih
    exact ⟨[] :: ls, last, by rw [splitOn_feed, parts]; rfl, by rw [lines]; rfl⟩
  | case3 s ih =>
    obtain ⟨ls, last, parts, lines⟩ := ih
    refine ⟨['\r'] :: ls, last, ?_, by rw [lines]; rfl⟩
    rw [splitOn_cons_of_ne (by decide), splitOn_feed, parts]
    rfl
  | case4 c s notFeed notReturn nothing ih =>
    obtain ⟨ls, last, parts, lines⟩ := ih
    rw [nothing] at lines
    obtain ⟨none, empty⟩ := List.append_eq_nil_iff.mp lines.symm
    obtain rfl := List.map_eq_nil_iff.mp none
    obtain rfl : last = [] := by simpa using empty
    exact ⟨[], [c], by rw [splitOn_cons_of_ne notFeed, parts]; rfl, rfl⟩
  | case5 c s notFeed notReturn l rest found ih =>
    obtain ⟨ls, last, parts, lines⟩ := ih
    rw [found] at lines
    cases ls with
    | nil =>
      obtain ⟨rfl, rfl⟩ : last = l ∧ rest = [] := by
        cases last with
        | nil => simp at lines
        | cons d last => simpa [eq_comm] using lines
      exact ⟨[], c :: last, by rw [splitOn_cons_of_ne notFeed, parts]; rfl, rfl⟩
    | cons p ps =>
      obtain ⟨rfl, rfl⟩ := List.cons.inj lines
      -- a carriage return ends no line here, for the line feed would follow it
      have inside : c = '\r' → p ≠ [] := by
        rintro rfl rfl
        obtain ⟨t, feed⟩ := exists_feed_of_splitOn parts (by simp)
        exact notReturn t rfl feed
      refine ⟨(c :: p) :: ps, last, by rw [splitOn_cons_of_ne notFeed, parts]; rfl, ?_⟩
      rw [List.map_cons, withoutReturn_cons inside]
      rfl

end GenreRelations.Text
