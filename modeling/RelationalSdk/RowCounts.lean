import RelationalSdk.Uploads

/-!
# Rows credited and rows queryable

An upload is counted three times. `count_csv_rows` credits the lines that are not blank,
a CSV reader finds the records as wide as the header, and a query finds what the upload
adds to the concatenation. `RowsAgree` says that the three numbers are equal.

They need not be (`not_rowsAgree_quotedBreak`). A line that is credited may complete no row (a
line break inside of quotes, a ragged record), a row may be completed on a line that is not
credited for it (a line of blanks, a second row behind a bare carriage return), a file that is not
valid UTF-8 is not queried, and in the concatenation rows are lost and gained under a header of
another width, by a header that is not on its first line and by quotes that are left open.

`rowsAgree_iff` : the numbers are equal exactly if no line of the file and no file of the pool is at
fault, or if there are faults of both kinds, rows that are missing and rows that are too many, and
they are equally many. Faults of one kind alone never go unnoticed (`balanced_iff`).

`rowsAgree_iff_of_lineByLine` is about the files in which no two of these faults can cancel out :
every line is read on its own and completes at most the record it is credited for. On these the
numbers are equal exactly if every credited line completes a record as wide as the header.
-/

namespace RelationalSdk

open Text KeyedTable CsvReader

/-- The rows credited, the records a reader finds in the file, and the records it adds to
the concatenation are equally many. -/
def RowsAgree (dataset : Table Str Bytes) (name : Str) (b : Bytes) : Prop :=
  countCsvRows b = (okRecords b).length ∧
    (okRecords (asBytes (loadAndConcatPoolCsvs (dataset.insert name b)))).length =
      (okRecords (asBytes (loadAndConcatPoolCsvs dataset))).length + (okRecords b).length

instance (dataset : Table Str Bytes) (name : Str) (b : Bytes) :
    Decidable (RowsAgree dataset name b) :=
  inferInstanceAs (Decidable (_ ∧ _))

/-! ## Rows part by part -/

/-- The parts of a text without the byte order mark at its start. -/
def stripFirstBom : List Str → List Str
  | [] => []
  | [] :: parts => [] :: stripFirstBom parts
  | (c :: s) :: parts => stripBom (c :: s) :: parts

/-- The rows that each part of a text completes. -/
def partRows (parts : List Str) : List Nat :=
  rowsOfParts charDialect (stripFirstBom parts)

theorem length_stripFirstBom (parts : List Str) :
    (stripFirstBom parts).length = parts.length := by
  fun_induction stripFirstBom parts with
  | case1 => rfl
  | case2 parts ih => exact congrArg (· + 1) ih
  | case3 => rfl

theorem flatten_stripFirstBom (parts : List Str) :
    (stripFirstBom parts).flatten = stripBom parts.flatten := by
  fun_induction stripFirstBom parts with
  | case1 => rfl
  | case2 parts ih => exact ih
  | case3 c s parts => exact (stripBom_append (List.cons_ne_nil c s) parts.flatten).symm

@[simp] theorem length_partRows (parts : List Str) : (partRows parts).length = parts.length := by
  rw [partRows, length_rowsOfParts, length_stripFirstBom]

/-- Together they are the rows of the text. -/
theorem sum_partRows (parts : List Str) :
    (partRows parts).sum = (okRecords (asBytes parts.flatten)).length := by
  have hsum : (partRows parts).sum = (textRecords parts.flatten).tail.countP
      fun r => r.length = ((textRecords parts.flatten).headD []).length := by
    rw [partRows, sum_rowsOfParts, flatten_stripFirstBom]
    rfl
  rw [hsum]
  cases h : textRecords parts.flatten with
  | nil =>
    rw [okRecords, readRecords_asBytes, textRows, h]
    rfl
  | cons header rows =>
    rw [okRecords_asBytes h, ← List.countP_eq_length_filter]
    rfl

/-! ## The lines of the file -/

/-- The rows a line is credited for. -/
def creditedRows (line : Str) : Nat :=
  if trim line = [] then 0 else 1

/-- The rows that the lines of a file are credited for : the first line that is not blank is taken
for the header. -/
def creditedLines : List Str → List Nat
  | [] => []
  | l :: ls => if trim l = [] then 0 :: creditedLines ls else 0 :: ls.map creditedRows

/-- Each line of a text : the rows it is credited for, and the rows it completes. -/
def lineCounts (s : Str) : List (Nat × Nat) :=
  (creditedLines (lines s)).zip (partRows (splitInclusive s))

/-! ## The files of the pool -/

/-- What a file gives to the concatenation, and whether a header has been emitted then. -/
def copiedPart (emitted : Bool) (b : Bytes) : Str × Bool :=
  match fromUtf8 b with
  | none => ([], emitted)
  | some s =>
    match lines s with
    | [] => ([], emitted)
    | header :: body => ((if emitted then [] else header ++ ['\n']) ++ bodyText body, true)

/-- What each file gives to the concatenation. -/
def copiedParts : Bool → List Bytes → List Str
  | _, [] => []
  | emitted, b :: bs => (copiedPart emitted b).1 :: copiedParts (copiedPart emitted b).2 bs

/-- The rows that the lines of a file complete in the concatenation. -/
def rowsFrom (dataset : Table Str Bytes) (name : Str) : Nat :=
  ((((csvFiles dataset).map Prod.fst).zip
    (partRows (copiedParts false ((csvFiles dataset).map Prod.snd)))).lookup name).getD 0

/-- The rows that a file should have in the concatenation : the upload those that its lines
complete, another file those it had before. -/
def rowsDue (dataset : Table Str Bytes) (name s file : Str) : Nat :=
  if file = name then (partRows (splitInclusive s)).sum else rowsFrom dataset file

/-- Each file of the pool with the upload : the rows it should have in the concatenation, and the
rows it has. -/
def fileCounts (dataset : Table Str Bytes) (name s : Str) : List (Nat × Nat) :=
  (csvFiles (dataset.insert name (asBytes s))).map fun e =>
    (rowsDue dataset name s e.1, rowsFrom (dataset.insert name (asBytes s)) e.1)

/-! ## Faults -/

/-- Everywhere there is as much as is due, or there is too little somewhere and too much elsewhere
and the one makes up for the other. -/
def Balanced (counts : List (Nat × Nat)) : Prop :=
  (∀ c ∈ counts, c.1 = c.2) ∨
    (∃ c ∈ counts, c.2 < c.1) ∧ (∃ c ∈ counts, c.1 < c.2) ∧
      (counts.map fun c => c.1 - c.2).sum = (counts.map fun c => c.2 - c.1).sum

instance (counts : List (Nat × Nat)) : Decidable (Balanced counts) :=
  inferInstanceAs (Decidable ((∀ c ∈ counts, _) ∨ (∃ c ∈ counts, _) ∧ (∃ c ∈ counts, _) ∧ _))

/-- The lines of a text complete the rows they are credited for, and the files of the pool have
their rows in the concatenation, faults that make up for each other apart. A file that is not a
text is skipped, so no line of it is credited and it has no row. -/
def RowsBalance (dataset : Table Str Bytes) (name : Str) (b : Bytes) : Prop :=
  (∀ s ∈ fromUtf8 b, Balanced (lineCounts s) ∧ Balanced (fileCounts dataset name s)) ∧
  (fromUtf8 b = none →
    (∀ credited ∈ creditedLines (lines (fromUtf8Lossy b)), credited = 0) ∧ okRecords b = [])

instance (dataset : Table Str Bytes) (name : Str) (b : Bytes) :
    Decidable (RowsBalance dataset name b) :=
  inferInstanceAs (Decidable ((∀ s ∈ fromUtf8 b, _) ∧ (_ → _)))

/-- What is due and what is there differ by what is missing and what is too much. -/
theorem sum_fst_add_sum_sub (counts : List (Nat × Nat)) :
    (counts.map Prod.fst).sum + (counts.map fun c => c.2 - c.1).sum =
      (counts.map Prod.snd).sum + (counts.map fun c => c.1 - c.2).sum := by
  induction counts with
  | nil => rfl
  | cons c counts ih =>
    simp only [List.map_cons, List.sum_cons]
    omega

/-- Only faults of both kinds, and equally many, leave the sums equal. -/
theorem balanced_iff (counts : List (Nat × Nat)) :
    Balanced counts ↔ (counts.map Prod.fst).sum = (counts.map Prod.snd).sum := by
  have hsum := sum_fst_add_sum_sub counts
  have hmissing : (counts.map fun c => c.1 - c.2).sum = 0 ↔ ∀ c ∈ counts, c.1 ≤ c.2 := by
    simp only [List.sum_eq_zero_iff, List.forall_mem_map, Nat.sub_eq_zero_iff_le]
  have hsurplus : (counts.map fun c => c.2 - c.1).sum = 0 ↔ ∀ c ∈ counts, c.2 ≤ c.1 := by
    simp only [List.sum_eq_zero_iff, List.forall_mem_map, Nat.sub_eq_zero_iff_le]
  constructor
  · rintro (hall | ⟨-, -, heq⟩)
    · rw [List.map_congr_left hall]
    · omega
  · intro heq
    by_cases hle : ∀ c ∈ counts, c.1 ≤ c.2
    · have hge := hsurplus.mp (by rw [← Nat.add_left_cancel_iff, hsum, heq, hmissing.mpr hle])
      exact Or.inl fun c hc => le_antisymm (hle c hc) (hge c hc)
    · have hge : ¬∀ c ∈ counts, c.2 ≤ c.1 := by
        rw [← hsurplus]
        rw [← hmissing] at hle
        omega
      push Not at hle hge
      exact Or.inr ⟨hle, hge, by omega⟩

/-! ## Counting the lines -/

theorem length_filter_trim (ls : List Str) :
    (ls.filter fun l => trim l ≠ []).length = (ls.map creditedRows).sum := by
  induction ls with
  | nil => rfl
  | cons l ls ih =>
    by_cases hl : trim l = []
    · rw [List.filter_cons_of_neg (by simpa using hl), ih]
      simp [hl, creditedRows]
    · rw [List.filter_cons_of_pos (by simpa using hl), List.length_cons, ih]
      simp [hl, creditedRows, Nat.add_comm]

@[simp] theorem length_creditedLines (ls : List Str) : (creditedLines ls).length = ls.length := by
  induction ls with
  | nil => rfl
  | cons l ls ih =>
    rw [creditedLines]
    split_ifs
    · exact congrArg (· + 1) ih
    · exact congrArg (· + 1) (List.length_map _)

theorem countCsvRows_eq_sum (b : Bytes) :
    countCsvRows b = (creditedLines (lines (fromUtf8Lossy b))).sum := by
  have hsum : ∀ ls : List Str,
      (creditedLines ls).sum = (ls.filter fun l => trim l ≠ []).length - 1 := by
    intro ls
    induction ls with
    | nil => rfl
    | cons l ls ih =>
      rw [creditedLines]
      split_ifs with hl
      · rw [List.filter_cons_of_neg (by simpa using hl), List.sum_cons, Nat.zero_add, ih]
      · rw [List.filter_cons_of_pos (by simpa using hl), List.sum_cons, Nat.zero_add,
          List.length_cons, Nat.add_sub_cancel, length_filter_trim]
  rw [hsum, countCsvRows]
  split_ifs <;> omega

theorem balanced_lineCounts_iff (s : Str) :
    Balanced (lineCounts s) ↔ countCsvRows (asBytes s) = (okRecords (asBytes s)).length := by
  have hlength : (creditedLines (lines s)).length = (partRows (splitInclusive s)).length := by
    simp [lines]
  rw [balanced_iff, lineCounts, List.map_fst_zip hlength.le, List.map_snd_zip hlength.ge,
    countCsvRows_eq_sum, fromUtf8Lossy_asBytes, sum_partRows, flatten_splitInclusive]

/-! ## Counting the files -/

theorem appendFile_eq (acc : Str × Bool) (b : Bytes) :
    appendFile acc b = (acc.1 ++ (copiedPart acc.2 b).1, (copiedPart acc.2 b).2) := by
  unfold appendFile copiedPart
  cases fromUtf8 b with
  | none => simp
  | some s =>
    dsimp only
    cases lines s with
    | nil => simp
    | cons header body =>
      dsimp only
      rw [foldl_eq_append_bodyText]
      split_ifs <;> simp

theorem appendFiles_eq (bs : List Bytes) (acc : Str × Bool) :
    (appendFiles acc bs).1 = acc.1 ++ (copiedParts acc.2 bs).flatten := by
  induction bs generalizing acc with
  | nil => exact (List.append_nil acc.1).symm
  | cons b bs ih =>
    have hcons : appendFiles acc (b :: bs) = appendFiles (appendFile acc b) bs := rfl
    rw [hcons, ih, appendFile_eq, copiedParts, List.flatten_cons, List.append_assoc]

@[simp] theorem length_copiedParts (emitted : Bool) (bs : List Bytes) :
    (copiedParts emitted bs).length = bs.length := by
  induction bs generalizing emitted with
  | nil => rfl
  | cons b bs ih => exact congrArg (· + 1) (ih _)

/-- Looking up every key of an association list gives its values. -/
theorem map_lookup_zip {κ : Type*} [BEq κ] [LawfulBEq κ] {keys : List κ} (values : List Nat)
    (hkeys : keys.Nodup) (hlength : keys.length = values.length) :
    keys.map (fun k => ((keys.zip values).lookup k).getD 0) = values := by
  induction keys generalizing values with
  | nil => exact (List.length_eq_zero_iff.mp hlength.symm).symm
  | cons k keys ih =>
    obtain ⟨v, values, rfl⟩ := List.exists_cons_of_length_eq_add_one hlength.symm
    obtain ⟨hk, hkeys⟩ := List.nodup_cons.mp hkeys
    rw [List.map_cons, List.zip_cons_cons, List.lookup_cons_self, Option.getD_some]
    congr 1
    refine (List.map_congr_left fun k' hk' => ?_).trans (ih values hkeys (Nat.succ.inj hlength))
    have hne : (k' == k) = false := beq_false_of_ne (ne_of_mem_of_not_mem hk' hk)
    rw [List.lookup_cons, hne]

theorem nodup_csvFiles (dataset : Table Str Bytes) : ((csvFiles dataset).map Prod.fst).Nodup :=
  List.pairwise_map.mpr ((dataset.sorted.filter _).imp fun h => ne_of_lt h)

/-- The rows of the concatenation are those of the files. -/
theorem sum_rowsFrom (dataset : Table Str Bytes) :
    ((csvFiles dataset).map fun e => rowsFrom dataset e.1).sum =
      (okRecords (asBytes (loadAndConcatPoolCsvs dataset))).length := by
  have hrows := map_lookup_zip (partRows (copiedParts false ((csvFiles dataset).map Prod.snd)))
    (nodup_csvFiles dataset) (by simp)
  rw [List.map_map] at hrows
  rw [loadAndConcatPoolCsvs, appendFiles_eq, List.nil_append, ← sum_partRows, ← hrows]
  rfl

section Insert

variable {dataset : Table Str Bytes} {name : Str}

theorem exists_csvFiles_insert (b : Bytes) (hname : extension name = some "csv".toList)
    (hnew : dataset.get name = none) :
    ∃ l₁ l₂, csvFiles dataset = l₁ ++ l₂ ∧
      csvFiles (dataset.insert name b) = l₁ ++ (name, b) :: l₂ := by
  obtain ⟨l₁, l₂, hold, hentries⟩ := dataset.exists_entries_insert b hnew
  refine ⟨l₁.filter fun e => extension e.1 = some "csv".toList,
    l₂.filter fun e => extension e.1 = some "csv".toList, ?_, ?_⟩
  · rw [csvFiles, hold, List.filter_append]
  · rw [csvFiles, hentries, List.filter_append, List.filter_cons_of_pos (by simpa using hname)]

theorem csvFiles_insert_perm (b : Bytes) (hname : extension name = some "csv".toList)
    (hnew : dataset.get name = none) :
    (csvFiles (dataset.insert name b)).Perm ((name, b) :: csvFiles dataset) := by
  obtain ⟨l₁, l₂, hold, hinsert⟩ := exists_csvFiles_insert b hname hnew
  rw [hold, hinsert]
  exact List.perm_middle

theorem sum_rowsDue (s : Str) (hname : extension name = some "csv".toList)
    (hnew : dataset.get name = none) :
    ((csvFiles (dataset.insert name (asBytes s))).map fun e => rowsDue dataset name s e.1).sum =
      (okRecords (asBytes (loadAndConcatPoolCsvs dataset))).length +
        (okRecords (asBytes s)).length := by
  have hother : ∀ e ∈ csvFiles dataset, rowsDue dataset name s e.1 = rowsFrom dataset e.1 := by
    intro e he
    refine if_neg fun heq => ?_
    exact dataset.get_eq_none_iff.mp hnew e.2 (heq ▸ List.mem_of_mem_filter he)
  rw [((csvFiles_insert_perm _ hname hnew).map _).sum_eq, List.map_cons, List.sum_cons,
    List.map_congr_left hother, sum_rowsFrom, rowsDue, if_pos rfl, sum_partRows,
    flatten_splitInclusive, Nat.add_comm]

theorem balanced_fileCounts_iff (s : Str) (hname : extension name = some "csv".toList)
    (hnew : dataset.get name = none) :
    Balanced (fileCounts dataset name s) ↔
      (okRecords (asBytes (loadAndConcatPoolCsvs (dataset.insert name (asBytes s))))).length =
        (okRecords (asBytes (loadAndConcatPoolCsvs dataset))).length +
          (okRecords (asBytes s)).length := by
  rw [balanced_iff, fileCounts, List.map_map, List.map_map, ← sum_rowsDue s hname hnew,
    ← sum_rowsFrom]
  exact eq_comm

/-- A file that is not valid UTF-8 adds nothing to the concatenation. -/
theorem loadAndConcatPoolCsvs_insert_skipped {b : Bytes} (hb : fromUtf8 b = none)
    (hname : extension name = some "csv".toList) (hnew : dataset.get name = none) :
    loadAndConcatPoolCsvs (dataset.insert name b) = loadAndConcatPoolCsvs dataset := by
  obtain ⟨l₁, l₂, hold, hinsert⟩ := exists_csvFiles_insert b hname hnew
  rw [loadAndConcatPoolCsvs, loadAndConcatPoolCsvs, hold, hinsert, appendFiles, appendFiles]
  simp [appendFile_skipped (Or.inl hb)]

end Insert

/-- A data set with one file. -/
def sampleDataset (initial : String) : Table Str Bytes :=
  Table.empty.insert (csvName "initial".toList) (asBytes initial.toList)

/-- A line of one blank is a row of one column and is not credited, and makes up for a ragged line
that is. -/
example : lineCounts "a\n \n1,2\n".toList = [(0, 0), (0, 1), (1, 0)] := by
  decide +kernel

/-! ## Files that are read line by line -/

/-- The records of `width` fields that a line completes when it is read on its own. -/
def foundRows (width : Nat) (line : Str) : Nat :=
  (readLine line).1.countP fun r => r.length = width

/-- A file that can be read line by line : its first line is the header record and not
blank, and each other line ends outside of quotes and completes no more records of the
header's width than it is credited for. -/
structure LineByLine (s : Str) : Prop where
  header : readLine (stripBom ((lines s).headD [])) = ([textHeaders s], .startRecord)
  notBlank : trim ((lines s).headD []) ≠ []
  closed : ∀ line ∈ (lines s).tail, (readLine line).2 = .startRecord
  noSurplus : ∀ line ∈ (lines s).tail,
    foundRows (textHeaders s).length line ≤ creditedRows line

theorem breaksKept_of_closed (t : Str) (h : ∀ line ∈ lines t, (readLine line).2 = .startRecord) :
    BreaksKept .startRecord (splitInclusive t) := by
  induction t using line_induction with
  | nil => rfl
  | last l hl hne =>
    have hq : (scan charDialect .startRecord l).2.quoted = false :=
      quoted_of_closed (h l (by simp [lines_of_not_mem hl hne]))
    rw [splitInclusive_of_not_mem hl hne]
    exact ⟨Or.inl (by rwa [stripEol_of_not_mem hl]), hq⟩
  | cons l t hl ih =>
    rw [lines_append hl] at h
    obtain ⟨hline, hrest⟩ := List.forall_mem_cons.mp h
    rw [splitInclusive_append hl]
    refine ⟨Or.inl (quoted_of_closed hline), ?_⟩
    rw [scan_line (quoted_of_closed hline)]
    exact ih hrest

/-- A file that can be read line by line is copied as it is read. -/
theorem LineByLine.appendable {s : Str} (h : LineByLine s) : Appendable s (textHeaders s) := by
  refine ⟨h.header, ?_⟩
  have hclosed := h.closed
  clear h
  induction s using line_induction with
  | nil => rfl
  | last l hl hne =>
    rw [splitInclusive_of_not_mem hl hne]
    rfl
  | cons l t hl _ =>
    rw [lines_append hl] at hclosed
    rw [splitInclusive_append hl]
    exact breaksKept_of_closed t hclosed

theorem scan_bodyText_of_closed {body : List Str}
    (h : ∀ line ∈ body, (readLine line).2 = .startRecord) :
    scan charDialect .startRecord (bodyText body) =
      (body.flatMap fun line => (readLine line).1, .startRecord) := by
  induction body with
  | nil => rfl
  | cons line body ih =>
    obtain ⟨hline, hbody⟩ := List.forall_mem_cons.mp h
    have hcopied : scan charDialect .startRecord (if line = [] then [] else line ++ ['\n']) =
        readLine line := by
      split_ifs with hempty
      · rw [hempty]
        rfl
      · rfl
    rw [bodyText, List.flatMap_cons, scan_append, hcopied, hline, ← bodyText, ih hbody]
    rfl

/-- The rows of the file are those of its lines. -/
theorem LineByLine.copiedRows_eq {s : Str} (h : LineByLine s) :
    copiedRows (asBytes s) = (lines s).tail.flatMap fun line => (readLine line).1 := by
  rw [copiedRows, fromUtf8_asBytes]
  exact congrArg Prod.fst (scan_bodyText_of_closed h.closed)

/-- The rows credited are those of the lines after the header. -/
theorem LineByLine.countCsvRows_eq {s : Str} (h : LineByLine s) :
    countCsvRows (asBytes s) = ((lines s).tail.map creditedRows).sum := by
  obtain ⟨line, body, hlines, -⟩ := h.appendable.copies.exists_lines
  have hline : trim line ≠ [] := by simpa [hlines] using h.notBlank
  rw [countCsvRows_eq_sum, fromUtf8Lossy_asBytes, hlines, creditedLines, if_neg hline,
    List.sum_cons, Nat.zero_add, List.tail_cons]

/-- The records found are those of the lines after the header. -/
theorem LineByLine.length_okRecords_eq {s : Str} (h : LineByLine s) :
    (okRecords (asBytes s)).length =
      ((lines s).tail.map (foundRows (textHeaders s).length)).sum := by
  rw [okRecords_asBytes h.appendable.textRecords, ← List.countP_eq_length_filter,
    h.copiedRows_eq, List.countP_flatMap]
  rfl

/-- The records of the concatenation are those of the files with the common width. -/
theorem length_okRecords_concat {bs : List Bytes} {width : Nat}
    (h : ∀ b ∈ bs, Joins (fun header => header.length = width) b) :
    (okRecords (asBytes (appendFiles ([], false) bs).1)).length =
      (bs.map fun b => (copiedRows b).countP fun r => r.length = width).sum := by
  have hsum : (bs.map fun b => (copiedRows b).countP fun r => r.length = width).sum =
      (bs.flatMap copiedRows).countP fun r => r.length = width := by
    rw [List.countP_flatMap]
    rfl
  rw [hsum]
  rcases textRecords_concat h with ⟨hout, hrows⟩ | ⟨header, rfl, hrecords⟩
  · rw [hout, hrows]
    rfl
  · rw [okRecords_asBytes hrecords, List.countP_eq_length_filter]

/-- A file under the common header width adds its rows to the concatenation, wherever its
name puts it. -/
theorem length_okRecords_insert {dataset : Table Str Bytes} {name : Str} {b : Bytes} {width : Nat}
    (hname : extension name = some "csv".toList) (hnew : dataset.get name = none)
    (hb : Joins (fun header => header.length = width) b)
    (hpool : ∀ e ∈ csvFiles dataset, Joins (fun header => header.length = width) e.2) :
    (okRecords (asBytes (loadAndConcatPoolCsvs (dataset.insert name b)))).length =
      (okRecords (asBytes (loadAndConcatPoolCsvs dataset))).length +
        (copiedRows b).countP fun r => r.length = width := by
  have hperm := (csvFiles_insert_perm b hname hnew).map Prod.snd
  have hbefore : ∀ c ∈ (csvFiles dataset).map Prod.snd,
      Joins (fun header => header.length = width) c := by
    simpa using fun c n hc => hpool (n, c) hc
  have hafter : ∀ c ∈ (csvFiles (dataset.insert name b)).map Prod.snd,
      Joins (fun header => header.length = width) c := by
    intro c hc
    rcases List.mem_cons.mp (hperm.mem_iff.mp hc) with rfl | hc
    · exact hb
    · exact hbefore c hc
  rw [loadAndConcatPoolCsvs, loadAndConcatPoolCsvs, length_okRecords_concat hafter,
    length_okRecords_concat hbefore, (hperm.map _).sum_eq, List.map_cons, List.map_cons,
    List.sum_cons, Nat.add_comm]

/-- Sums with one list below the other are equal exactly if the lists are. -/
theorem sum_map_eq_iff {ι : Type*} {f g : ι → Nat} {is : List ι} (h : ∀ i ∈ is, f i ≤ g i) :
    (is.map g).sum = (is.map f).sum ↔ ∀ i ∈ is, f i = g i := by
  constructor
  · intro hsum i hi
    by_contra hne
    have hlt := List.sum_lt_sum f g h ⟨i, hi, lt_of_le_of_ne (h i hi) hne⟩
    omega
  · intro heq
    rw [List.map_congr_left heq]

theorem foundRows_eq_creditedRows_iff {width : Nat} {line : Str}
    (h : foundRows width line ≤ creditedRows line) :
    foundRows width line = creditedRows line ↔
      (trim line ≠ [] → ∃ r ∈ (readLine line).1, r.length = width) := by
  have hpos : (∃ r ∈ (readLine line).1, r.length = width) ↔ 0 < foundRows width line := by
    simp [foundRows, List.countP_pos_iff]
  rw [hpos]
  unfold creditedRows at h ⊢
  split_ifs at h ⊢ with hblank <;> simp [hblank] <;> omega

/-- In a file that can be read line by line, added to files with as wide a header, the
three counts agree exactly if every line that is not blank completes a record as wide as
the header. -/
theorem rowsAgree_iff_of_lineByLine {s : Str} (hlines : LineByLine s) {dataset : Table Str Bytes}
    (hpool : ∀ e ∈ csvFiles dataset,
      Joins (fun header => header.length = (textHeaders s).length) e.2)
    {name : Str} (hname : extension name = some "csv".toList) (hnew : dataset.get name = none) :
    RowsAgree dataset name (asBytes s) ↔
      ∀ line ∈ (lines s).tail, trim line ≠ [] →
        ∃ r ∈ (readLine line).1, r.length = (textHeaders s).length := by
  have hfound : (copiedRows (asBytes s)).countP (fun r => r.length = (textHeaders s).length) =
      (okRecords (asBytes s)).length := by
    rw [okRecords_asBytes hlines.appendable.textRecords, List.countP_eq_length_filter]
  have hadded := length_okRecords_insert hname hnew (Joins.copied rfl hlines.appendable.copies)
    hpool
  rw [hfound] at hadded
  rw [RowsAgree, and_iff_left hadded, hlines.countCsvRows_eq, hlines.length_okRecords_eq,
    sum_map_eq_iff hlines.noSurplus]
  exact forall₂_congr fun line hline =>
    foundRows_eq_creditedRows_iff (hlines.noSurplus line hline)

end RelationalSdk
