import GenreRelations.Note
import GenreRelations.Proofs.Lines
import GenreRelations.Proofs.Sorted

/-!
Notes as sets of lines. The first line says whether a note is read at all; the names are those of
its lines, whatever their order, and no line behind the first takes a name away: `names_linewise`.
-/

namespace GenreRelations.Note

/-! ### Lines of a note -/

theorem entries_eq (note : Text) :
    entries note = ((note.splitOn '\n').map Text.trim).filter fun l => !l.isEmpty := by
  obtain ⟨ls, last, parts, lines⟩ := Text.exists_splitOn_lines note
  have trimmed : (ls.map Text.withoutReturn).map Text.trim = ls.map Text.trim := by
    rw [List.map_map]
    exact List.map_congr_left fun l _ => Text.trim_withoutReturn l
  rw [entries, lines, parts, List.map_append, List.map_append, trimmed, List.filter_append,
    List.filter_append]
  cases last with
  | nil => rfl
  | cons c last => rfl

theorem entries_append (note more : Text) :
    entries (note ++ '\n' :: more) = entries note ++ entries more := by
  rw [entries_eq, entries_eq, entries_eq, Text.splitOn_append_feed, List.map_append,
    List.filter_append]

/-- The longer note is the note with more lines behind it. -/
def IsExtendedBy (note longer : Text) : Prop :=
  ∃ more, longer = note ++ '\n' :: more ∨
    (∃ before, note = before ++ ['\n']) ∧ longer = note ++ more

theorem IsExtendedBy.exists_entries {note longer : Text} (extended : IsExtendedBy note longer) :
    ∃ ls, entries longer = entries note ++ ls := by
  obtain ⟨more, rfl | ⟨⟨before, rfl⟩, rfl⟩⟩ := extended
  · exact ⟨entries more, entries_append note more⟩
  · refine ⟨entries more, ?_⟩
    rw [List.append_assoc, List.singleton_append, entries_append, entries_append]
    simp [entries, Text.lines]

/-! ### The first line and the others -/

/-- The line says what the note is. -/
def Opens (line : Text) : Prop :=
  "short for".toList <+: line.lower ∨ line.lower ∈
    ["alternative names:".toList, "umbrella term".toList, "variations:".toList]

/-- The name that a line gives behind the first one. -/
def lineName? (line : Text) : Option Text := (Line.ofText line).name?

/-- The name that the first line gives. -/
def openingName? (line : Text) : Option Text :=
  if openings.contains line.lower then none else lineName? line

theorem ofText_of_mem_openings {line : Text} (member : line.lower ∈ openings) :
    Line.ofText line = .other line := by
  have plain : ∀ s ∈ openings, s ≠ "alternative names:".toList ∧
      "short for".toList.isPrefixOf s = false := by decide
  obtain ⟨noHeader, noShort⟩ := plain _ member
  rw [Line.ofText, if_neg noHeader, if_neg (Bool.eq_false_iff.mp noShort)]

theorem eq_of_ofText_other {line l : Text} (other : Line.ofText line = .other l) :
    l = line ∧ line.lower ≠ "alternative names:".toList ∧ ¬ "short for".toList <+: line.lower := by
  unfold Line.ofText at other
  split at other
  · simp at other
  · rename_i noHeader
    split at other
    · simp at other
    · rename_i noShort
      exact ⟨(Line.other.inj other).symm, noHeader,
        fun short => noShort (List.isPrefixOf_iff_prefix.mpr short)⟩

theorem ofText_of_opens {line : Text} (opens : Opens line) :
    line.lower ∈ openings ∨ ∀ l, Line.ofText line ≠ .other l := by
  by_cases member : line.lower ∈ openings
  · exact .inl member
  · refine .inr fun l other => ?_
    obtain ⟨-, noHeader, noShort⟩ := eq_of_ofText_other other
    rcases opens with short | known
    · exact noShort short
    · exact member ((List.mem_cons.mp known).resolve_left noHeader)

theorem ofText_of_not_opens {line : Text} (unopened : ¬ Opens line) :
    line.lower ∉ openings ∧ Line.ofText line = .other line := by
  obtain ⟨noShort, unknown⟩ := not_or.mp unopened
  obtain ⟨noHeader, noOpening⟩ := not_or.mp (mt List.mem_cons.mpr unknown)
  refine ⟨noOpening, ?_⟩
  rw [Line.ofText, if_neg noHeader, if_neg (by simpa using noShort)]

theorem names_of_nil {note : Text} (blank : entries note = []) : names note = .ok [] := by
  rw [names, blank]
  rfl

section

variable {note line : Text} {rest : List Text} (lines : entries note = line :: rest)

include lines

theorem names_of_opens (opens : Opens line) :
    names note = .ok (Text.sorted ((openingName? line).toList ++ rest.filterMap lineName?)) := by
  have later : (rest.map Line.ofText).filterMap Line.name? = rest.filterMap lineName? :=
    List.filterMap_map
  rw [names, lines, List.map_cons, ← later]
  rcases ofText_of_opens opens with member | noOther
  · rw [ofText_of_mem_openings member, openingName?]
    simp [member]
  · have unlisted : line.lower ∉ openings := fun member =>
      noOther line (ofText_of_mem_openings member)
    have name : openingName? line = (Line.ofText line).name? := by
      rw [openingName?, if_neg (by simpa using unlisted), lineName?]
    rw [name]
    cases kind : Line.ofText line with
    | header => rfl
    | shortFor n => rfl
    | other l => exact absurd kind (noOther l)

theorem names_of_not_opens (unopened : ¬ Opens line) : names note = .error ⟨note⟩ := by
  obtain ⟨unlisted, other⟩ := ofText_of_not_opens unopened
  rw [names, lines, List.map_cons, other]
  simp [unlisted]

end

/-- A note is read if it is blank or its first line says what it is. -/
theorem exists_names_eq_error_iff {note : Text} : (∃ e, names note = .error e) ↔
    ∃ line rest, entries note = line :: rest ∧ ¬ Opens line := by
  cases lines : entries note with
  | nil => simp [names_of_nil lines]
  | cons line rest =>
    by_cases opens : Opens line
    · simp [names_of_opens lines opens, opens]
    · simp [names_of_not_opens lines opens, opens]

theorem names_congr {note other : Text} (first : (entries note).head? = (entries other).head?)
    (rest : ∀ l, l ∈ (entries note).tail ↔ l ∈ (entries other).tail) :
    (∃ ns, names note = .ok ns ∧ names other = .ok ns) ∨
      ∃ e f, names note = .error e ∧ names other = .error f := by
  cases lines : entries note with
  | nil =>
    rw [lines] at first
    have blank : entries other = [] := List.head?_eq_none_iff.mp first.symm
    exact .inl ⟨[], names_of_nil lines, names_of_nil blank⟩
  | cons line ls =>
    rw [lines] at first rest
    obtain ⟨ms, lines'⟩ := List.head?_eq_some_iff.mp first.symm
    rw [lines'] at rest
    by_cases opens : Opens line
    · refine .inl ⟨_, names_of_opens lines opens, ?_⟩
      rw [names_of_opens lines' opens]
      refine congrArg Except.ok (Text.sorted_congr fun t => ?_)
      -- names behind the first line are those of some line, wherever it stands
      simp only [List.mem_append, List.mem_filterMap]
      simp only [List.tail_cons] at rest
      simp only [rest]
    · exact .inr ⟨_, _, names_of_not_opens lines opens, names_of_not_opens lines' opens⟩

theorem exists_names_of_isExtendedBy {note longer : Text} {ns : List Text}
    (nonblank : entries note ≠ []) (read : names note = .ok ns)
    (extended : IsExtendedBy note longer) :
    ∃ ms, names longer = .ok ms ∧ ∀ n ∈ ns, n ∈ ms := by
  obtain ⟨more, longerLines⟩ := extended.exists_entries
  obtain ⟨line, rest, lines⟩ := List.exists_cons_of_ne_nil nonblank
  rw [lines, List.cons_append] at longerLines
  by_cases opens : Opens line
  · refine ⟨_, names_of_opens longerLines opens, fun n member => ?_⟩
    rw [names_of_opens lines opens] at read
    obtain rfl := Except.ok.inj read
    rw [Text.mem_sorted] at member ⊢
    rw [List.filterMap_append, ← List.append_assoc]
    exact List.mem_append_left _ member
  · simp [names_of_not_opens lines opens] at read

/-- Notes with the same first line and the same set of lines behind it are both rejected or give the
same names. More lines behind a note that is read, and is not blank, leave it readable and keep its
names. A note is rejected exactly if it has a first line and that says nothing of what the note
is. -/
theorem names_linewise (note other : Text) :
    ((entries note).head? = (entries other).head? →
      (∀ l, l ∈ (entries note).tail ↔ l ∈ (entries other).tail) →
        (∃ ns, names note = .ok ns ∧ names other = .ok ns) ∨
        ∃ e f, names note = .error e ∧ names other = .error f) ∧
    (∀ ns longer, entries note ≠ [] → names note = .ok ns → IsExtendedBy note longer →
      ∃ ms, names longer = .ok ms ∧ ∀ n ∈ ns, n ∈ ms) ∧
    ((∃ e, names note = .error e) ↔ ∃ line rest, entries note = line :: rest ∧ ¬ Opens line) :=
  ⟨names_congr, fun _ _ nonblank read extended =>
    exists_names_of_isExtendedBy nonblank read extended, exists_names_eq_error_iff⟩

theorem names_linewise_umbrella :
    names "Umbrella term\nBass\nDnB (Plural)".toList = .ok ["Bass".toList, "DnB".toList] ∧
    names " Umbrella term\r\n\nDnB (Plural) \nBass\nBass".toList =
      .ok ["Bass".toList, "DnB".toList] ∧
    (∃ ms, names ("Umbrella term\nBass\nDnB (Plural)".toList ++ '\n' :: "Breaks:".toList) = .ok ms ∧
      "DnB".toList ∈ ms) ∧
    ∃ e, names "Also known as:\nBass".toList = .error e := by
  have read : names "Umbrella term\nBass\nDnB (Plural)".toList =
      .ok ["Bass".toList, "DnB".toList] := by rfl
  have lines : entries "Umbrella term\nBass\nDnB (Plural)".toList =
      ["Umbrella term".toList, "Bass".toList, "DnB (Plural)".toList] := by decide
  have others : entries " Umbrella term\r\n\nDnB (Plural) \nBass\nBass".toList =
      ["Umbrella term".toList, "DnB (Plural)".toList, "Bass".toList, "Bass".toList] := by decide
  obtain ⟨same, longer, -⟩ := names_linewise "Umbrella term\nBass\nDnB (Plural)".toList
    " Umbrella term\r\n\nDnB (Plural) \nBass\nBass".toList
  obtain ⟨-, -, rejected⟩ := names_linewise "Also known as:\nBass".toList []
  refine ⟨read, ?_, ?_, rejected.mpr ?_⟩
  · have first : (entries "Umbrella term\nBass\nDnB (Plural)".toList).head? =
        (entries " Umbrella term\r\n\nDnB (Plural) \nBass\nBass".toList).head? := by
      rw [lines, others]
      rfl
    have rest : ∀ l, l ∈ (entries "Umbrella term\nBass\nDnB (Plural)".toList).tail ↔
        l ∈ (entries " Umbrella term\r\n\nDnB (Plural) \nBass\nBass".toList).tail := by
      intro l
      rw [lines, others]
      simp only [List.tail_cons, List.mem_cons]
      grind
    rcases same first rest with ⟨ns, left, right⟩ | ⟨e, -, left, -⟩
    · rw [right, ← left, read]
    · rw [read] at left
      cases left
  · obtain ⟨ms, whole, kept⟩ := longer _ _ (by rw [lines]; simp) read
      ⟨"Breaks:".toList, .inl rfl⟩
    exact ⟨ms, whole, kept _ (by decide)⟩
  · refine ⟨"Also known as:".toList, ["Bass".toList], by decide, ?_⟩
    unfold Opens
    decide

end GenreRelations.Note
