import RelationalSdk.DataValidation

/-!
# The data set of a pool

A query reads the data set of a pool as one text. `load_and_concat_pool_csvs` takes the
`.csv` files in the order of their names, emits the first line of the first one as the
header, and copies the later lines of each file that are not empty.

`Copies` says when one file is copied well : its first line is read as the header, and its
copied lines end outside of quotes. `textRecords_concat` puts the files together : when
every file is copied well or skipped, the concatenation is read as a header and the rows
of the files in order. `Appendable` is a condition on a file under which the copied lines
are read as the file itself is (`Appendable.textRecords`).
-/

namespace RelationalSdk

open Text KeyedTable CsvReader

/-! ## The concatenation -/

/-- `Path::extension` of a file name. -/
def extension (name : Str) : Option Str :=
  let ext := rsplitNext '.' name
  if '.' ∈ name ∧ name ≠ '.' :: ext then some ext else none

/-- The `.csv` files of a directory, sorted by name. -/
def csvFiles (dataset : Table Str Bytes) : List (Str × Bytes) :=
  dataset.entries.filter fun e => extension e.1 = some "csv".toList

/-- Append one file to the text so far. The flag is whether a header has been emitted. A
file that is not valid UTF-8 or has no line is skipped. -/
def appendFile (acc : Str × Bool) (b : Bytes) : Str × Bool :=
  match fromUtf8 b with
  | none => acc
  | some buf =>
    match lines buf with
    | [] => acc
    | header :: body =>
      let out := if acc.2 then acc.1 else acc.1 ++ header ++ ['\n']
      (body.foldl (fun out line => if line = [] then out else out ++ line ++ ['\n']) out, true)

/-- Append several files. -/
def appendFiles (acc : Str × Bool) (bs : List Bytes) : Str × Bool :=
  bs.foldl appendFile acc

/-- The text a query reads. -/
def loadAndConcatPoolCsvs (dataset : Table Str Bytes) : Str :=
  (appendFiles ([], false) ((csvFiles dataset).map Prod.snd)).1

/-- The lines of a body as they are copied. -/
def bodyText (body : List Str) : Str :=
  body.flatMap fun line => if line = [] then [] else line ++ ['\n']

theorem foldl_eq_append_bodyText (body : List Str) (out : Str) :
    body.foldl (fun out line => if line = [] then out else out ++ line ++ ['\n']) out =
      out ++ bodyText body := by
  induction body generalizing out with
  | nil => simp [bodyText]
  | cons line body ih =>
    rw [List.foldl_cons, ih]
    by_cases hline : line = [] <;> simp [bodyText, hline]

/-! ## Reading a copied file -/

/-- Read a line on its own. -/
def readLine (line : Str) : List (List Str) × Scanner Char :=
  scan charDialect .startRecord (line ++ ['\n'])

/-- The rows that the copied lines of a file are read as. -/
def copiedRows (b : Bytes) : List (List Str) :=
  match fromUtf8 b with
  | none => []
  | some s => (scan charDialect .startRecord (bodyText (lines s).tail)).1

/-- The first line of a file is read as the header, and its copied lines end outside of
quotes. -/
structure Copies (s : Str) (header : List Str) : Prop where
  header : readLine (stripBom ((lines s).headD [])) = ([header], .startRecord)
  closed : (scan charDialect .startRecord (bodyText (lines s).tail)).2 = .startRecord

/-- A file that the concatenation skips, or copies well with a header that has `P`. -/
inductive Joins (P : List Str → Prop) : Bytes → Prop
  | skipped {b : Bytes} (h : fromUtf8 b = none ∨ b = []) : Joins P b
  | copied {s : Str} {header : List Str} (hP : P header) (h : Copies s header) :
    Joins P (asBytes s)

theorem stripBom_append {s : Str} (hs : s ≠ []) (t : Str) :
    stripBom (s ++ t) = stripBom s ++ t := by
  cases s with
  | nil => exact absurd rfl hs
  | cons c s =>
    rw [List.cons_append]
    unfold stripBom
    split <;> split <;> simp_all

theorem readLine_nil : readLine (stripBom []) = ([], .startRecord) :=
  rfl

theorem quoted_of_closed {line : Str} (h : (readLine line).2 = .startRecord) :
    (scan charDialect .startRecord line).2.quoted = false :=
  quoted_eq_false_of_append_lf (d := charDialect) h

/-- A copied file has a first line, and it is not empty. -/
theorem Copies.exists_lines {s : Str} {header : List Str} (h : Copies s header) :
    ∃ line body, lines s = line :: body ∧ line ≠ [] := by
  have hheader := h.header
  cases hl : lines s with
  | nil => simp [hl, readLine_nil] at hheader
  | cons line body =>
    refine ⟨line, body, rfl, ?_⟩
    rintro rfl
    simp [hl, readLine_nil] at hheader

theorem scan_bodyText_tail {s : Str} {header : List Str} (h : Copies s header) :
    scan charDialect .startRecord (bodyText (lines s).tail) =
      (copiedRows (asBytes s), .startRecord) := by
  rw [copiedRows, fromUtf8_asBytes]
  exact Prod.ext rfl h.closed

theorem copiedRows_skipped {b : Bytes} (h : fromUtf8 b = none ∨ b = []) : copiedRows b = [] := by
  unfold copiedRows
  rcases h with h | rfl
  · rw [h]
  · rw [fromUtf8_eq_some_iff.mpr asBytes_nil.symm]
    rfl

theorem appendFile_skipped {b : Bytes} (h : fromUtf8 b = none ∨ b = []) (acc : Str × Bool) :
    appendFile acc b = acc := by
  unfold appendFile
  rcases h with h | rfl
  · rw [h]
  · rw [fromUtf8_eq_some_iff.mpr asBytes_nil.symm]
    rfl

theorem appendFile_lines {s line : Str} {body : List Str} (h : lines s = line :: body)
    (acc : Str × Bool) :
    appendFile acc (asBytes s) =
      ((if acc.2 then acc.1 else acc.1 ++ line ++ ['\n']) ++ bodyText body, true) := by
  unfold appendFile
  rw [fromUtf8_asBytes]
  simp only [h, foldl_eq_append_bodyText]

/-- The text so far is read as `rs`, and ends between two records. -/
def Reads (out : Str) (rs : List (List Str)) : Prop :=
  out ≠ [] ∧ scan charDialect .startRecord (stripBom out) = (rs, .startRecord)

theorem Reads.textRecords {out : Str} {rs : List (List Str)} (h : Reads out rs) :
    textRecords out = rs := by
  simp [RelationalSdk.textRecords, records, recordsFrom, h.2, Scanner.flush]

theorem Reads.append {out t : Str} {rs rs' : List (List Str)} (h : Reads out rs)
    (ht : scan charDialect .startRecord t = (rs', .startRecord)) :
    Reads (out ++ t) (rs ++ rs') := by
  refine ⟨by simp [h.1], ?_⟩
  rw [stripBom_append h.1, scan_append, h.2, ht]

section Files

variable {P : List Str → Prop}

/-- After the header each file adds its rows. -/
theorem reads_appendFiles {bs : List Bytes} (h : ∀ b ∈ bs, Joins P b) {out : Str}
    {rs : List (List Str)} (hout : Reads out rs) :
    Reads (appendFiles (out, true) bs).1 (rs ++ bs.flatMap copiedRows) := by
  induction bs generalizing out rs with
  | nil => simpa [appendFiles] using hout
  | cons b bs ih =>
    obtain ⟨hb, hbs⟩ := List.forall_mem_cons.mp h
    have hcons : appendFiles (out, true) (b :: bs) = appendFiles (appendFile (out, true) b) bs :=
      rfl
    rw [hcons, List.flatMap_cons, ← List.append_assoc]
    cases hb with
    | skipped hskip =>
      rw [appendFile_skipped hskip, copiedRows_skipped hskip, List.append_nil]
      exact ih hbs hout
    | copied _ hcopies =>
      obtain ⟨line, body, hlines, -⟩ := hcopies.exists_lines
      rw [appendFile_lines hlines, if_pos rfl]
      refine ih hbs (hout.append ?_)
      simpa [hlines] using scan_bodyText_tail hcopies

/-- The concatenation is read as the header of a file and the rows of all files. -/
theorem textRecords_concat {bs : List Bytes} (h : ∀ b ∈ bs, Joins P b) :
    (appendFiles ([], false) bs).1 = [] ∧ bs.flatMap copiedRows = [] ∨
      ∃ header, P header ∧
        textRecords (appendFiles ([], false) bs).1 = header :: bs.flatMap copiedRows := by
  induction bs with
  | nil => exact Or.inl ⟨rfl, rfl⟩
  | cons b bs ih =>
    obtain ⟨hb, hbs⟩ := List.forall_mem_cons.mp h
    have hcons : appendFiles ([], false) (b :: bs) =
        appendFiles (appendFile ([], false) b) bs := rfl
    rw [hcons, List.flatMap_cons]
    cases hb with
    | skipped hskip =>
      rw [appendFile_skipped hskip, copiedRows_skipped hskip, List.nil_append]
      exact ih hbs
    | @copied s header hP hcopies =>
      obtain ⟨line, body, hlines, hne⟩ := hcopies.exists_lines
      refine Or.inr ⟨header, hP, ?_⟩
      have hfirst : Reads (line ++ ['\n']) [header] := by
        refine ⟨by simp, ?_⟩
        rw [stripBom_append hne]
        simpa [hlines, readLine] using hcopies.header
      have hbody : scan charDialect .startRecord (bodyText body) =
          (copiedRows (asBytes s), .startRecord) := by
        simpa [hlines] using scan_bodyText_tail hcopies
      have hall := reads_appendFiles hbs (hfirst.append hbody)
      rw [appendFile_lines hlines]
      simpa using hall.textRecords

end Files

/-! ## Files that are copied as they are read -/

/-- A reader at the start of a line. -/
def AtLineStart (c : Scanner Char) : Prop :=
  c = .startRecord ∨ c.quoted

/-- The lines of a file, read from `c` on, lose nothing when they are copied : a line break
inside of quotes is `\n` at the end of a line that is not empty, and the file ends outside
of quotes. -/
def BreaksKept : Scanner Char → List Str → Prop
  | c, [] => c.quoted = false
  | c, p :: ps =>
    ((scan charDialect c (stripEol p)).2.quoted = false ∨
      stripEol p ≠ [] ∧ p = stripEol p ++ ['\n']) ∧
    BreaksKept (scan charDialect c p).2 ps

/-- The first line of the file is its header record, and its other lines lose nothing
when they are copied. -/
structure Appendable (s : Str) (header : List Str) : Prop where
  header : readLine (stripBom ((lines s).headD [])) = ([header], .startRecord)
  breaks : BreaksKept .startRecord (splitInclusive s).tail

instance decidableBreaksKept : ∀ (c : Scanner Char) (ps : List Str), Decidable (BreaksKept c ps)
  | c, [] => inferInstanceAs (Decidable (c.quoted = false))
  | c, p :: ps =>
    have : Decidable (BreaksKept (scan charDialect c p).2 ps) :=
      decidableBreaksKept (scan charDialect c p).2 ps
    inferInstanceAs (Decidable (((scan charDialect c (stripEol p)).2.quoted = false ∨
      stripEol p ≠ [] ∧ p = stripEol p ++ ['\n']) ∧ BreaksKept (scan charDialect c p).2 ps))

instance (s : Str) (header : List Str) : Decidable (Appendable s header) :=
  decidable_of_iff (readLine (stripBom ((lines s).headD [])) = ([header], .startRecord) ∧
    BreaksKept .startRecord (splitInclusive s).tail) ⟨fun h => ⟨h.1, h.2⟩, fun h => ⟨h.1, h.2⟩⟩

theorem atLineStart_append_lf (c : Scanner Char) (l : Str) :
    AtLineStart (scan charDialect c (l ++ ['\n'])).2 := by
  have hlf : charDialect.isTerminator '\n' := by decide
  rw [scan_append, scan_singleton]
  cases hq : (scan charDialect c l).2.quoted with
  | false => exact Or.inl (by rw [step_terminator hq hlf])
  | true => exact Or.inr (quoted_step_terminator hq hlf)

/-- Outside of quotes a line is read alike with either line ending. -/
theorem scan_line {c : Scanner Char} {l : Str}
    (h : (scan charDialect c (stripEol (l ++ ['\n']))).2.quoted = false) :
    scan charDialect c (l ++ ['\n']) =
      (recordsFrom charDialect c (stripEol (l ++ ['\n'])), .startRecord) := by
  rcases stripEol_append l with hl | hl
  · conv_lhs => rw [hl]
    exact scan_append_lf h
  · conv_lhs => rw [hl, List.append_assoc]
    exact scan_append_crlf h

/-- A line that loses nothing is read alike when it is copied. An empty line is not copied,
and between two records it is not read either. -/
theorem scan_copiedLine {c : Scanner Char} (hc : AtLineStart c) {l : Str}
    (h : (scan charDialect c (stripEol (l ++ ['\n']))).2.quoted = false ∨
      stripEol (l ++ ['\n']) ≠ [] ∧ l ++ ['\n'] = stripEol (l ++ ['\n']) ++ ['\n']) :
    scan charDialect c
        (if stripEol (l ++ ['\n']) = [] then [] else stripEol (l ++ ['\n']) ++ ['\n']) =
      scan charDialect c (l ++ ['\n']) := by
  rcases h with hq | ⟨hne, heq⟩
  · rw [scan_line hq]
    split_ifs with hempty
    · rw [hempty] at hq ⊢
      obtain rfl : c = .startRecord := hc.resolve_right (by simpa using hq)
      rfl
    · exact scan_append_lf hq
  · rw [if_neg hne, ← heq]

/-- The copied lines are read as the lines of the file. -/
theorem scan_bodyText (t : Str) : ∀ {c : Scanner Char}, AtLineStart c →
    BreaksKept c (splitInclusive t) →
      scan charDialect c (bodyText (lines t)) = (recordsFrom charDialect c t, .startRecord) := by
  induction t using line_induction with
  | nil =>
    intro c hc h
    obtain rfl : c = .startRecord :=
      hc.resolve_right (by simpa [splitInclusive, BreaksKept] using h)
    rfl
  | last l hl hne =>
    intro c hc h
    rw [splitInclusive_of_not_mem hl hne, BreaksKept, stripEol_of_not_mem hl] at h
    have hquoted : (scan charDialect c l).2.quoted = false := by
      rcases h.1 with hq | ⟨-, heq⟩
      · exact hq
      · exact absurd (congrArg List.length heq) (by simp)
    have hbody : bodyText (lines l) = l ++ ['\n'] := by
      simp [lines_of_not_mem hl hne, bodyText, hne]
    rw [hbody]
    exact scan_append_lf hquoted
  | cons l t hl ih =>
    intro c hc h
    rw [splitInclusive_append hl, BreaksKept] at h
    obtain ⟨hline, hrest⟩ := h
    have hbody : bodyText (lines (l ++ '\n' :: t)) =
        (if stripEol (l ++ ['\n']) = [] then [] else stripEol (l ++ ['\n']) ++ ['\n']) ++
          bodyText (lines t) := by
      simp [lines_append hl, bodyText]
    have hcut : l ++ '\n' :: t = (l ++ ['\n']) ++ t := by simp
    rw [hbody, scan_append, scan_copiedLine hc hline, ih (atLineStart_append_lf c l) hrest, hcut,
      recordsFrom_append]

/-- The header line of a file is read alike with its line ending. -/
theorem scan_headerLine {l : Str} {header : List Str} (hne : stripEol (l ++ ['\n']) ≠ [])
    (h : readLine (stripBom (stripEol (l ++ ['\n']))) = ([header], .startRecord)) :
    scan charDialect .startRecord (stripBom (l ++ ['\n'])) = ([header], .startRecord) := by
  rcases stripEol_append l with hl | hl
  · rw [← hl] at h hne
    rw [stripBom_append hne]
    exact h
  · have hq := quoted_of_closed (congrArg Prod.snd h)
    have hrecords := (scan_append_lf hq).symm.trans h
    conv_lhs => rw [hl, List.append_assoc, stripBom_append hne]
    exact (scan_append_crlf hq).trans hrecords

/-- The file is copied well, with the records it has. -/
theorem Appendable.copies_and_textRecords {s : Str} {header : List Str} (h : Appendable s header) :
    Copies s header ∧ RelationalSdk.textRecords s = header :: copiedRows (asBytes s) := by
  obtain ⟨hheader, hbreaks⟩ := h
  suffices hbody : ∃ rest, RelationalSdk.textRecords s = header :: rest ∧
      scan charDialect .startRecord (bodyText (lines s).tail) = (rest, .startRecord) by
    obtain ⟨rest, hrecords, hscan⟩ := hbody
    refine ⟨⟨hheader, congrArg Prod.snd hscan⟩, ?_⟩
    rw [hrecords, copiedRows, fromUtf8_asBytes]
    exact congrArg (header :: ·) (congrArg Prod.fst hscan).symm
  induction s using line_induction with
  | nil => simp [lines, splitInclusive, readLine_nil] at hheader
  | last l hl hne =>
    rw [lines_of_not_mem hl hne] at hheader ⊢
    have hq := quoted_of_closed (congrArg Prod.snd hheader)
    exact ⟨[], congrArg Prod.fst ((scan_append_lf hq).symm.trans hheader), rfl⟩
  | cons l t hl _ =>
    rw [lines_append hl] at hheader ⊢
    rw [splitInclusive_append hl] at hbreaks
    have hne : stripEol (l ++ ['\n']) ≠ [] := by
      intro hempty
      simp [hempty, readLine_nil] at hheader
    have hcut : l ++ '\n' :: t = (l ++ ['\n']) ++ t := by simp
    refine ⟨recordsFrom charDialect .startRecord t, ?_, scan_bodyText t (Or.inl rfl) hbreaks⟩
    rw [RelationalSdk.textRecords, records, hcut, stripBom_append (by simp), recordsFrom_append,
      scan_headerLine hne hheader]
    rfl

theorem Appendable.copies {s : Str} {header : List Str} (h : Appendable s header) :
    Copies s header :=
  h.copies_and_textRecords.1

/-- The copied lines are read as the file itself. -/
theorem Appendable.textRecords {s : Str} {header : List Str} (h : Appendable s header) :
    RelationalSdk.textRecords s = header :: copiedRows (asBytes s) :=
  h.copies_and_textRecords.2

theorem Appendable.textHeaders_eq {s : Str} {header : List Str} (h : Appendable s header) :
    textHeaders s = header := by
  rw [textHeaders, h.textRecords]
  rfl

end RelationalSdk
