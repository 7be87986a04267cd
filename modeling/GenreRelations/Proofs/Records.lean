import GenreRelations.Catalog.Record
import GenreRelations.Proofs.Lines
import Mathlib.Data.List.Basic

/-!
Record files. A file is read line by line: two files with a line feed between them are read as the
one and then the other with its lines counted on, and what is read are the columns of the lines that
are neither blank nor a comment, `readAll_linewise`. Columns that are written on such lines are read
again: `readAll_written`.
-/

namespace GenreRelations.Record

open Text (withoutReturn withoutReturn_cases isBlank_return)

/-- The columns of a record hold something, and nothing blank at their ends. -/
structure IsTidy (genre : Option Text) (subgenre : Text) : Prop where
  nonempty : subgenre ≠ []
  trimmed : subgenre.trim = subgenre
  known : ∀ g, genre = some g → g ≠ [] ∧ g.trim = g ∧ '\t' ∉ g

/-! ### One line -/

theorem isSkipped_eq_false_iff {line : Text} :
    isSkipped line = false ↔ line.trim ≠ [] ∧ line.trim.head? ≠ some '#' := by
  simp [isSkipped]

theorem bne_tab_of_mem {s : Text} (tabFree : '\t' ∉ s) : ∀ c ∈ s, (c != '\t') = true := by
  intro c isIn
  have other : c ≠ '\t' := fun same => tabFree (same ▸ isIn)
  simpa using other

theorem columns_of_tab_free {line : Text} (tabFree : '\t' ∉ line) :
    columns line = (none, line.trim) := by
  rw [columns, List.dropWhile_eq_nil_iff.mpr (bne_tab_of_mem tabFree)]

theorem columns_tab {genre : Text} (tabFree : '\t' ∉ genre) (subgenre : Text) :
    columns (genre ++ '\t' :: subgenre) = (nonempty? genre.trim, subgenre.trim) := by
  have before := bne_tab_of_mem tabFree
  rw [columns, List.dropWhile_append_of_pos before, List.takeWhile_append_of_pos before]
  simp

theorem columns_withoutReturn (line : Text) : columns (withoutReturn line) = columns line := by
  rcases withoutReturn_cases line with same | longer
  · rw [same]
  · generalize withoutReturn line = short at longer ⊢
    subst longer
    by_cases tab : '\t' ∈ short
    · obtain ⟨genre, subgenre, rfl, tabFree⟩ := List.eq_append_cons_of_mem tab
      rw [List.append_assoc, List.cons_append, columns_tab tabFree, columns_tab tabFree,
        Text.trim_concat_blank isBlank_return]
    · rw [columns_of_tab_free tab, columns_of_tab_free (by simpa using tab),
        Text.trim_concat_blank isBlank_return]

theorem isSkipped_withoutReturn (line : Text) :
    isSkipped (withoutReturn line) = isSkipped line := by
  rw [isSkipped, isSkipped, Text.trim_withoutReturn]

theorem isTidy_columns {line : Text} (nonempty : (columns line).2 ≠ []) :
    IsTidy (columns line).1 (columns line).2 := by
  by_cases tab : '\t' ∈ line
  · obtain ⟨genre, subgenre, rfl, tabFree⟩ := List.eq_append_cons_of_mem tab
    rw [columns_tab tabFree] at nonempty ⊢
    refine ⟨nonempty, Text.trim_trim subgenre, fun g known => ?_⟩
    by_cases blank : Text.trim genre = []
    · simp [nonempty?, blank] at known
    · obtain rfl : Text.trim genre = g := by simpa [nonempty?, blank] using known
      exact ⟨blank, Text.trim_trim genre, fun isIn => tabFree (Text.mem_of_mem_trim isIn)⟩
  · rw [columns_of_tab_free tab] at nonempty ⊢
    exact ⟨nonempty, Text.trim_trim line, by simp⟩

/-- The record on the line with number `n`, unless the line is blank or a comment. -/
def recordOn (n : Nat) (line : Text) : Option Record :=
  if line.trim = [] ∨ line.trim.head? = some '#' then none
  else some ⟨n, (columns line).1, (columns line).2⟩

theorem of_recordOn {n : Nat} {line : Text} {r : Record} (found : recordOn n line = some r) :
    isSkipped line = false ∧ r = ⟨n, (columns line).1, (columns line).2⟩ := by
  unfold recordOn at found
  split at found
  · simp at found
  · rename_i kept
    exact ⟨isSkipped_eq_false_iff.mpr (not_or.mp kept), (Option.some.inj found).symm⟩

/-- A line with a record gives its subgenre. -/
def IsComplete (line : Text) : Prop := isSkipped line = false → (columns line).2 ≠ []

/-- What the line with number `n` is read as: no record, a fault or a record. -/
def readLine (n : Nat) (line : Text) : Except Nat (Option Record) :=
  if isSkipped line then .ok none
  else if (columns line).2.isEmpty then .error n
  else .ok (some ⟨n, (columns line).1, (columns line).2⟩)

theorem readLine_of_isComplete {line : Text} (complete : IsComplete line) (n : Nat) :
    readLine n line = .ok (recordOn n line) := by
  rw [readLine, recordOn]
  cases skipped : isSkipped line with
  | true =>
    have nothing : line.trim = [] ∨ line.trim.head? = some '#' := by
      simpa [isSkipped] using skipped
    rw [if_pos nothing]
    rfl
  | false =>
    obtain ⟨solid, other⟩ := isSkipped_eq_false_iff.mp skipped
    have filled := complete skipped
    simp [solid, other, filled]

theorem isComplete_of_readLine {n : Nat} {line : Text} {r : Option Record}
    (read : readLine n line = .ok r) : IsComplete line := by
  intro skipped missing
  simp [readLine, skipped, missing] at read

theorem readLine_withoutReturn (n : Nat) (line : Text) :
    readLine n (withoutReturn line) = readLine n line := by
  rw [readLine, readLine, isSkipped_withoutReturn, columns_withoutReturn]

/-! ### Several lines -/

theorem readFrom_cons (n : Nat) (line : Text) (lines : List Text) :
    readFrom n (line :: lines) = do
      let r ← readLine n line
      let rs ← readFrom (n + 1) lines
      return r.toList ++ rs := by
  rw [readFrom, readLine]
  by_cases skipped : isSkipped line = true
  · rw [if_pos skipped, if_pos skipped]
    cases readFrom (n + 1) lines <;> rfl
  · rw [if_neg skipped, if_neg skipped]
    by_cases missing : (columns line).2.isEmpty = true
    · simp [missing, bind, Except.bind]
    · simp [missing, bind, Except.bind]

theorem readFrom_append (n : Nat) (ls ms : List Text) :
    readFrom n (ls ++ ms) = do
      let rs ← readFrom n ls
      let qs ← readFrom (n + ls.length) ms
      return rs ++ qs := by
  induction ls generalizing n with
  | nil =>
    change readFrom n ms = _
    cases readFrom n ms <;> rfl
  | cons l ls ih =>
    have count : n + 1 + ls.length = n + (l :: ls).length := by
      rw [List.length_cons]
      omega
    rw [List.cons_append, readFrom_cons, readFrom_cons, ih, count]
    cases readLine n l with
    | error m => rfl
    | ok r =>
      cases readFrom (n + 1) ls with
      | error m => rfl
      | ok rs =>
        cases readFrom (n + (l :: ls).length) ms with
        | error m => rfl
        | ok qs => simp [bind, Except.bind, pure, Except.pure]

theorem readFrom_map_withoutReturn (n : Nat) (ls : List Text) :
    readFrom n (ls.map withoutReturn) = readFrom n ls := by
  induction ls generalizing n with
  | nil => rfl
  | cons l ls ih => rw [List.map_cons, readFrom_cons, readFrom_cons, readLine_withoutReturn, ih]

/-- A file is read by what stands between its line feeds. -/
theorem readAll_eq (content : Text) : readAll content = readFrom 1 (content.splitOn '\n') := by
  obtain ⟨ls, last, parts, lines⟩ := Text.exists_splitOn_lines content
  rw [readAll, lines, parts, readFrom_append, readFrom_append, readFrom_map_withoutReturn,
    List.length_map]
  cases last with
  | nil => rfl
  | cons c last => rfl

/-- What was read, with the lines counted from `k` on. -/
def countedFrom (k : Nat) : Except Nat (List Record) → Except Nat (List Record)
  | .error n => .error (k + n)
  | .ok rs => .ok (rs.map fun r => { r with line := k + r.line })

theorem readFrom_add (k n : Nat) (ls : List Text) :
    readFrom (k + n) ls = countedFrom k (readFrom n ls) := by
  induction ls generalizing n with
  | nil => rfl
  | cons l ls ih =>
    rw [readFrom_cons, readFrom_cons, Nat.add_assoc, ih]
    unfold readLine
    by_cases skipped : isSkipped l = true
    · rw [if_pos skipped, if_pos skipped]
      cases readFrom (n + 1) ls <;> rfl
    · rw [if_neg skipped, if_neg skipped]
      by_cases missing : (columns l).2.isEmpty = true
      · rw [if_pos missing, if_pos missing]
        rfl
      · rw [if_neg missing, if_neg missing]
        cases readFrom (n + 1) ls <;> rfl

theorem readAll_append (c d : Text) : readAll (c ++ '\n' :: d) = do
    let rs ← readAll c
    let qs ← countedFrom (1 + c.count '\n') (readAll d)
    return rs ++ qs := by
  rw [readAll_eq, readAll_eq, readAll_eq, Text.splitOn_append_feed, readFrom_append,
    Text.length_splitOn, ← readFrom_add, Nat.add_comm]

/-- The records on the lines that are neither blank nor a comment, the first line having number
`n`. -/
def recordsFrom (n : Nat) (lines : List Text) : List Record :=
  (lines.zipIdx n).filterMap fun l => recordOn l.2 l.1

theorem recordsFrom_cons (n : Nat) (line : Text) (lines : List Text) :
    recordsFrom n (line :: lines) = (recordOn n line).toList ++ recordsFrom (n + 1) lines := by
  rw [recordsFrom, List.zipIdx_cons, List.filterMap_cons, recordsFrom]
  cases recordOn n line <;> rfl

theorem readFrom_of_isComplete {ls : List Text} (complete : ∀ l ∈ ls, IsComplete l) (n : Nat) :
    readFrom n ls = .ok (recordsFrom n ls) := by
  induction ls generalizing n with
  | nil => rfl
  | cons l ls ih =>
    obtain ⟨first, later⟩ := List.forall_mem_cons.mp complete
    rw [readFrom_cons, readLine_of_isComplete first, ih later, recordsFrom_cons]
    rfl

theorem isComplete_of_readFrom {n : Nat} {ls : List Text} {rs : List Record}
    (read : readFrom n ls = .ok rs) : ∀ l ∈ ls, IsComplete l := by
  induction ls generalizing n rs with
  | nil => simp
  | cons l ls ih =>
    rw [readFrom_cons] at read
    cases first : readLine n l with
    | error m => simp [first, bind, Except.bind] at read
    | ok r =>
      cases later : readFrom (n + 1) ls with
      | error m => simp [first, later, bind, Except.bind] at read
      | ok qs => exact List.forall_mem_cons.mpr ⟨isComplete_of_readLine first, ih later⟩

theorem eq_recordsFrom_of_readFrom {n : Nat} {ls : List Text} {rs : List Record}
    (read : readFrom n ls = .ok rs) : rs = recordsFrom n ls := by
  rw [readFrom_of_isComplete (isComplete_of_readFrom read)] at read
  exact (Except.ok.inj read).symm

theorem pairwise_line_recordsFrom (n : Nat) (ls : List Text) :
    ((recordsFrom n ls).map line).Pairwise (· < ·) := by
  have numbers : (ls.zipIdx n).Pairwise fun l m => l.2 < m.2 := by
    rw [← List.pairwise_map, List.zipIdx_map_snd]
    exact List.pairwise_lt_range'
  rw [List.pairwise_map]
  refine numbers.filterMap _ fun l m before r first q second => ?_
  rw [(of_recordOn first).2, (of_recordOn second).2]
  exact before

theorem isTidy_of_mem_recordsFrom {n : Nat} {ls : List Text} {r : Record}
    (complete : ∀ l ∈ ls, IsComplete l) (member : r ∈ recordsFrom n ls) :
    IsTidy r.genre r.subgenre := by
  obtain ⟨⟨l, m⟩, isIn, found⟩ := List.mem_filterMap.mp member
  obtain ⟨kept, rfl⟩ := of_recordOn found
  exact isTidy_columns (complete l (List.fst_mem_of_mem_zipIdx isIn) kept)

/-- A file and another one behind a line feed are read one after the other: the first fault of the
first file is the fault, then that of the second, counted on from the lines of the first, and else
the records of both are read. A file that is read has one record for each line that is neither blank
nor a comment, in order and with its number, and its columns hold something and are trimmed. -/
theorem readAll_linewise (c d : Text) :
    (∀ n, readAll c = .error n → readAll (c ++ '\n' :: d) = .error n) ∧
    (∀ rs n, readAll c = .ok rs → readAll d = .error n →
      readAll (c ++ '\n' :: d) = .error (1 + c.count '\n' + n)) ∧
    (∀ rs qs, readAll c = .ok rs → readAll d = .ok qs →
      readAll (c ++ '\n' :: d) =
        .ok (rs ++ qs.map fun q => { q with line := 1 + c.count '\n' + q.line })) ∧
    ∀ rs, readAll c = .ok rs →
      (rs.map line).Pairwise (· < ·) ∧
      rs = recordsFrom 1 c.lines ∧
      ∀ r ∈ rs, IsTidy r.genre r.subgenre := by
  have both := readAll_append c d
  refine ⟨fun n first => ?_, fun rs n first second => ?_, fun rs qs first second => ?_,
    fun rs first => ?_⟩
  · rw [both, first]
    rfl
  · rw [both, first, second]
    rfl
  · rw [both, first, second]
    rfl
  · have complete := isComplete_of_readFrom first
    obtain rfl := eq_recordsFrom_of_readFrom first
    exact ⟨pairwise_line_recordsFrom 1 c.lines, rfl,
      fun r member => isTidy_of_mem_recordsFrom complete member⟩

theorem readAll_linewise_returns :
    readAll ("# tracks\r\nHip Hop\tTrap\r".toList ++ '\n' :: "\nHouse".toList) =
      .ok [⟨2, some "Hip Hop".toList, "Trap".toList⟩, ⟨4, none, "House".toList⟩] ∧
    readAll ("# tracks\r\nHip Hop\tTrap\r".toList ++ '\n' :: "House\t ".toList) = .error 3 ∧
    readAll ("House\t ".toList ++ '\n' :: "Trap".toList) = .error 1 ∧
    recordsFrom 1 (Text.lines "# tracks\r\nHip Hop\tTrap\r".toList) =
      [⟨2, some "Hip Hop".toList, "Trap".toList⟩] ∧
    IsTidy (some "Hip Hop".toList) "Trap".toList := by
  have read : readAll "# tracks\r\nHip Hop\tTrap\r".toList =
      .ok [⟨2, some "Hip Hop".toList, "Trap".toList⟩] := by decide
  obtain ⟨-, -, records, whole⟩ :=
    readAll_linewise "# tracks\r\nHip Hop\tTrap\r".toList "\nHouse".toList
  obtain ⟨-, fault, -⟩ := readAll_linewise "# tracks\r\nHip Hop\tTrap\r".toList "House\t ".toList
  obtain ⟨-, all, tidy⟩ := whole _ read
  refine ⟨records _ [⟨2, none, "House".toList⟩] read (by decide), fault _ 1 read (by decide),
    (readAll_linewise "House\t ".toList "Trap".toList).1 1 (by decide), all.symm, ?_⟩
  exact tidy ⟨2, some "Hip Hop".toList, "Trap".toList⟩ List.mem_cons_self

/-! ### Writing -/

/-- The columns can be written on a line of their own: they hold no line feed, the line is no
comment, and a subgenre without genre has no tab. -/
structure IsWritable (genre : Option Text) (subgenre : Text) : Prop
    extends IsTidy genre subgenre where
  feedFree : '\n' ∉ subgenre
  named : ∀ g, genre = some g → '\n' ∉ g ∧ g.head? ≠ some '#'
  alone : genre = none → '\t' ∉ subgenre ∧ subgenre.head? ≠ some '#'

/-- The line with these columns. -/
def lineOf : Option Text → Text → Text
  | none, subgenre => subgenre
  | some genre, subgenre => genre ++ '\t' :: subgenre

/-- The lines with these columns, a line feed between neighbours. -/
def written (cs : List (Option Text × Text)) : Text :=
  ['\n'].intercalate (cs.map fun c => lineOf c.1 c.2)

theorem isSkipped_cons_of_solid {c : Char} (solid : Text.isBlank c = false) (s : Text) :
    isSkipped (c :: s) = (c == '#') := by
  simp [isSkipped, Text.trim_cons_of_solid solid]

namespace IsWritable

variable {genre : Option Text} {subgenre : Text} (writable : IsWritable genre subgenre)

include writable

theorem feed_not_mem_lineOf : '\n' ∉ lineOf genre subgenre := by
  cases genre with
  | none => exact writable.feedFree
  | some g => simp [lineOf, writable.feedFree, (writable.named g rfl).1]

theorem columns_lineOf : columns (lineOf genre subgenre) = (genre, subgenre) := by
  cases genre with
  | none =>
    rw [lineOf, columns_of_tab_free (writable.alone rfl).1, writable.trimmed]
  | some g =>
    obtain ⟨nonempty, trimmed, tabFree⟩ := writable.known g rfl
    rw [lineOf, columns_tab tabFree, trimmed, writable.trimmed]
    simp [nonempty?, nonempty]

theorem isSkipped_lineOf : isSkipped (lineOf genre subgenre) = false := by
  -- the first column is trimmed, so its first character decides
  have kept : ∀ s t : Text, s ≠ [] → s.trim = s → s.head? ≠ some '#' →
      isSkipped (s ++ t) = false := by
    intro s t nonempty trimmed other
    cases s with
    | nil => exact absurd rfl nonempty
    | cons c s =>
      rw [List.cons_append, isSkipped_cons_of_solid (Text.solid_of_trim trimmed)]
      simpa using other
  cases genre with
  | none =>
    have first := kept subgenre [] writable.nonempty writable.trimmed (writable.alone rfl).2
    rwa [List.append_nil] at first
  | some g =>
    obtain ⟨nonempty, trimmed, -⟩ := writable.known g rfl
    exact kept g ('\t' :: subgenre) nonempty trimmed (writable.named g rfl).2

theorem recordOn_lineOf (n : Nat) :
    recordOn n (lineOf genre subgenre) = some ⟨n, genre, subgenre⟩ := by
  obtain ⟨solid, other⟩ := isSkipped_eq_false_iff.mp writable.isSkipped_lineOf
  rw [recordOn, if_neg (not_or.mpr ⟨solid, other⟩), writable.columns_lineOf]

theorem isComplete_lineOf : IsComplete (lineOf genre subgenre) := by
  intro _
  rw [writable.columns_lineOf]
  exact writable.nonempty

end IsWritable

theorem recordsFrom_written {cs : List (Option Text × Text)}
    (writable : ∀ c ∈ cs, IsWritable c.1 c.2) (n : Nat) :
    recordsFrom n (cs.map fun c => lineOf c.1 c.2) =
      (cs.zipIdx n).map fun c => ⟨c.2, c.1.1, c.1.2⟩ := by
  induction cs generalizing n with
  | nil => rfl
  | cons c cs ih =>
    obtain ⟨first, later⟩ := List.forall_mem_cons.mp writable
    rw [List.map_cons, recordsFrom_cons, first.recordOn_lineOf, ih later, List.zipIdx_cons,
      List.map_cons]
    rfl

/-- Columns that are written line by line are read again, with the numbers of their lines. -/
theorem readAll_written {cs : List (Option Text × Text)}
    (writable : ∀ c ∈ cs, IsWritable c.1 c.2) :
    readAll (written cs) = .ok ((cs.zipIdx 1).map fun c => ⟨c.2, c.1.1, c.1.2⟩) := by
  by_cases nothing : cs = []
  · subst nothing
    rfl
  · have feedFree : ∀ l ∈ cs.map (fun c => lineOf c.1 c.2), '\n' ∉ l :=
      List.forall_mem_map.mpr fun c member => (writable c member).feed_not_mem_lineOf
    have complete : ∀ l ∈ cs.map (fun c => lineOf c.1 c.2), IsComplete l :=
      List.forall_mem_map.mpr fun c member => (writable c member).isComplete_lineOf
    rw [readAll_eq, written, List.splitOn_intercalate '\n' feedFree (by simpa using nothing),
      readFrom_of_isComplete complete, recordsFrom_written writable]

theorem readAll_written_tab :
    (∀ c ∈ [(some "Hip Hop".toList, "#1\tTrap\r| Phonk".toList), (none, "House".toList)],
      IsWritable c.1 c.2) ∧
    readAll "Hip Hop\t#1\tTrap\r| Phonk\nHouse".toList =
      .ok [⟨1, some "Hip Hop".toList, "#1\tTrap\r| Phonk".toList⟩, ⟨2, none, "House".toList⟩] := by
  have first : IsWritable (some "Hip Hop".toList) "#1\tTrap\r| Phonk".toList :=
    { nonempty := by decide
      trimmed := by decide
      known := by
        rintro g ⟨⟩
        decide
      feedFree := by decide
      named := by
        rintro g ⟨⟩
        decide
      alone := by simp }
  have second : IsWritable none "House".toList :=
    { nonempty := by decide
      trimmed := by decide
      known := by simp
      feedFree := by decide
      named := by simp
      alone := by decide }
  have writable : ∀ c ∈ [(some "Hip Hop".toList, "#1\tTrap\r| Phonk".toList),
      (none, "House".toList)], IsWritable c.1 c.2 :=
    List.forall_mem_cons.mpr ⟨first, List.forall_mem_singleton.mpr second⟩
  exact ⟨writable, readAll_written writable⟩

end GenreRelations.Record
