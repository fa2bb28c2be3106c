import RelationalSdk.Uploads

/-!
# The sample script and the validator

`drt-examples/mean` computes the mean of a column. It cuts the file at line feeds and a line at
commas, whether or not they are quoted, and takes the first column with the name, up to blanks.
The validator reads the file with the csv crate and takes the last column with the name.

`readsSameCells_iff` : on an accepted file the script examines the values the validator has checked
if and only if the first line has the name as it is, there are as many rows as records, and each row
is alike to its record. Where both look at one place of the file, this means that the cell is not
quoted and that the value has no whitespace but blanks at its ends. Where they look at two places,
as after a quoted comma or with two columns of one name, the texts there have to be equal by chance.
The mean is then that of the values that were checked (`ReadsSameCells.computeMean_eq`).

`readsSameCells_iff_of_cutAlike` : if every line is one record, with no comma in the fields before
the column and no other header that is the name up to blanks, then the condition is on the header
and the cells of the column alone.
-/

namespace RelationalSdk

open Text KeyedTable CsvReader

/-! ## The script -/

/-- A space or a tab. -/
def isBlank (b : UInt8) : Bool :=
  b = 32 || b = 9

/-- Without the blanks at both ends. -/
def trimAscii (s : Bytes) : Bytes :=
  trimBy isBlank s

/-- Without one carriage return at the end. -/
def stripCr (line : Bytes) : Bytes :=
  if line.getLast? = some 13 then line.dropLast else line

/-- The first line and what follows it. -/
def splitFirstLine (buf : Bytes) : Bytes × Bytes :=
  (stripCr (buf.takeWhile fun a => a ≠ 10), (buf.dropWhile fun a => a ≠ 10).drop 1)

/-- The loop of `header_column_index`, in the cell number `idx` after some bytes of it. -/
def headerScan (column : Bytes) : Nat → Bytes → Bytes → Option Nat
  | idx, cell, [] => if trimAscii cell = column then some idx else none
  | idx, cell, a :: header =>
    if a = 44 then
      if trimAscii cell = column then some idx else headerScan column (idx + 1) [] header
    else headerScan column idx (cell ++ [a]) header

/-- The number of the first cell of the header that is the name of the column. -/
def headerColumnIndex (header column : Bytes) : Option Nat :=
  headerScan column 0 [] header

/-- The loop of `field_at`, in the cell number `idx` after some bytes of it. -/
def fieldScan (n : Nat) : Nat → Bytes → Bytes → Option Bytes
  | idx, cell, [] => if idx = n then some cell else none
  | idx, cell, a :: row =>
    if a = 44 then if idx = n then some cell else fieldScan n (idx + 1) [] row
    else fieldScan n idx (cell ++ [a]) row

/-- The cell number `n` of a row. -/
def fieldAt (row : Bytes) (n : Nat) : Option Bytes :=
  fieldScan n 0 [] row

/-- A line of the body as a row, if something is left of it. -/
def rowOf (line : Bytes) : List Bytes :=
  if stripCr line = [] then [] else [stripCr line]

/-- The rows that the loop of `compute_mean` visits, between two rows or after some bytes of a
line. -/
def rowScan : Option Bytes → Bytes → List Bytes
  | none, [] => []
  | none, a :: body => if a = 13 || a = 10 then rowScan none body else rowScan (some [a]) body
  | some line, [] => rowOf line
  | some line, a :: body =>
    if a = 10 then rowOf line ++ rowScan none body else rowScan (some (line ++ [a])) body

/-- The rows of the body. -/
def bodyRows (body : Bytes) : List Bytes :=
  rowScan none body

/-- The trimmed cells that `compute_mean` examines, one for each row that it visits, if the row
has the column. -/
def examinedCells (csv column : Bytes) : Except String (List (Option Bytes)) :=
  if csv = [] then .error "empty CSV"
  else
    match headerColumnIndex (splitFirstLine csv).1 column with
    | none =>
      let name := (fromUtf8 column).elim "" String.ofList
      .error s!"column '{name}' not in header"
    | some colIdx =>
      .ok ((bodyRows (splitFirstLine csv).2).map fun row => (fieldAt row colIdx).map trimAscii)

/-- What `compute_mean` adds up, in the order of the rows, and how many rows it skips. The sum
and the mean are floating point numbers. -/
def computeMean {V : Type} (parseF64Bytes : Bytes → Option V) (csv column : Bytes) :
    Except String (List V × Nat) :=
  match examinedCells csv column with
  | .error e => .error e
  | .ok cells =>
    let values := cells.filterMap fun cell =>
      cell.bind fun trimmed => if trimmed = [] then none else parseF64Bytes trimmed
    if values.isEmpty then .error "no numeric values in column"
    else .ok (values, cells.length - values.length)

/-! ## Cells -/

/-- A cell of a row is what stands between two commas. -/
theorem fieldScan_eq {n : Nat} {row : Bytes} : ∀ {idx : Nat} {cell : Bytes}, idx ≤ n →
    (44 : UInt8) ∉ cell → fieldScan n idx cell row = ((cell ++ row).splitOn 44)[n - idx]? := by
  induction row with
  | nil =>
    intro idx cell hidx hcell
    rw [List.append_nil, List.splitOn_eq_singleton hcell, fieldScan, List.getElem?_singleton]
    split_ifs <;> first | rfl | omega
  | cons a row ih =>
    intro idx cell hidx hcell
    rw [fieldScan]
    by_cases ha : a = 44
    · rw [if_pos ha, ha, List.splitOn_append_cons_self_of_not_mem hcell]
      split_ifs with hn
      · rw [hn, Nat.sub_self]
        rfl
      · have hpred : n - idx = (n - (idx + 1)) + 1 := by omega
        rw [ih (by omega) (by simp), hpred, List.getElem?_cons_succ, List.nil_append]
    · have hcell' : (44 : UInt8) ∉ cell ++ [a] := by
        simp [hcell, Ne.symm ha]
      rw [if_neg ha, ih hidx hcell', List.append_assoc, List.singleton_append]

theorem fieldAt_eq (row : Bytes) (n : Nat) : fieldAt row n = (row.splitOn 44)[n]? :=
  fieldScan_eq (Nat.zero_le n) (by simp)

/-- The scan of the header returns the first cell that is the name. -/
theorem headerScan_eq {column header : Bytes} : ∀ {idx : Nat} {cell : Bytes},
    (44 : UInt8) ∉ cell → headerScan column idx cell header =
      (((cell ++ header).splitOn 44).findIdx? fun cell => trimAscii cell = column).map
        (· + idx) := by
  induction header with
  | nil =>
    intro idx cell hcell
    rw [List.append_nil, List.splitOn_eq_singleton hcell, headerScan]
    split_ifs with heq <;> simp [List.findIdx?_cons, heq]
  | cons a header ih =>
    intro idx cell hcell
    rw [headerScan]
    by_cases ha : a = 44
    · rw [if_pos ha, ha, List.splitOn_append_cons_self_of_not_mem hcell, List.findIdx?_cons]
      by_cases heq : trimAscii cell = column
      · rw [if_pos heq, if_pos (decide_eq_true heq), Option.map_some, Nat.zero_add]
      · rw [if_neg heq, if_neg (by simpa using heq), ih (by simp), Option.map_map,
          List.nil_append]
        congr 1
        ext i
        simp only [Function.comp_apply]
        omega
    · have hcell' : (44 : UInt8) ∉ cell ++ [a] := by
        simp [hcell, Ne.symm ha]
      rw [if_neg ha, ih hcell', List.append_assoc, List.singleton_append]

theorem headerColumnIndex_eq (header column : Bytes) :
    headerColumnIndex header column =
      (header.splitOn 44).findIdx? fun cell => trimAscii cell = column := by
  rw [headerColumnIndex, headerScan_eq (by simp)]
  simp

/-! ## Rows -/

/-- A line ends with nothing or with a carriage return. -/
theorem eq_stripCr (line : Bytes) : ∃ e, (e = [] ∨ e = [13]) ∧ line = stripCr line ++ e := by
  unfold stripCr
  split_ifs with hlast
  · exact ⟨[13], Or.inr rfl, (List.dropLast_append_getLast? 13 hlast).symm⟩
  · exact ⟨[], Or.inl rfl, (List.append_nil line).symm⟩

theorem ne_cr {a : UInt8} (ha : byteDialect.isTerminator a = false) : a ≠ 13 := by
  rintro rfl
  cases ha

theorem rowOf_cons {a : UInt8} (ha : a ≠ 13) (line : Bytes) :
    rowOf (a :: line) = [stripCr (a :: line)] := by
  refine if_neg fun hnil => ha ?_
  obtain ⟨e, rfl | rfl, heq⟩ := eq_stripCr (a :: line)
  · rw [hnil] at heq
    cases heq
  · rw [hnil, List.nil_append] at heq
    exact (List.cons.inj heq).1

/-- A line ends at the next line feed, -/
theorem rowScan_append {x : Bytes} (hx : (10 : UInt8) ∉ x) (body : Bytes) : ∀ line : Bytes,
    rowScan (some line) (x ++ 10 :: body) = rowOf (line ++ x) ++ rowScan none body := by
  induction x with
  | nil =>
    intro line
    rw [List.nil_append, rowScan, if_pos rfl, List.append_nil]
  | cons a x ih =>
    intro line
    obtain ⟨ha, hx⟩ := not_or.mp (mt List.mem_cons.mpr hx)
    rw [List.cons_append, rowScan, if_neg (Ne.symm ha), ih hx, List.append_assoc,
      List.singleton_append]

/-- or at the end of the body. -/
theorem rowScan_last {x : Bytes} (hx : (10 : UInt8) ∉ x) : ∀ line : Bytes,
    rowScan (some line) x = rowOf (line ++ x) := by
  induction x with
  | nil =>
    intro line
    rw [rowScan, List.append_nil]
  | cons a x ih =>
    intro line
    obtain ⟨ha, hx⟩ := not_or.mp (mt List.mem_cons.mpr hx)
    rw [rowScan, if_neg (Ne.symm ha), ih hx, List.append_assoc, List.singleton_append]

/-- The validator reads a line that is one record, and then the lines after it. -/
theorem recordsFrom_line {l e s : Bytes} (h : OneRecord byteDialect l) (he : e = [] ∨ e = [13])
    (hs : s = [] ∨ ∃ t, s = 10 :: t) :
    recordsFrom byteDialect .startRecord (l ++ (e ++ s)) =
      fieldsOf byteDialect l :: recordsFrom byteDialect .startRecord (s.drop 1) := by
  rcases hs with rfl | ⟨t, rfl⟩
  · rw [List.append_nil]
    rcases he with rfl | rfl
    · rw [List.append_nil, h.recordsFrom_eq]
      rfl
    · exact h.recordsFrom_cr
  · rcases he with rfl | rfl
    · exact h.recordsFrom_lf t
    · exact h.recordsFrom_crlf t

theorem bodyRows_terminator {a : UInt8} (ha : byteDialect.isTerminator a) (body : Bytes) :
    bodyRows (a :: body) = bodyRows body :=
  if_pos ha

theorem bodyRows_line {a : UInt8} (ha : byteDialect.isTerminator a = false) {x : Bytes}
    (hx : (10 : UInt8) ∉ x) (rest : Bytes) :
    bodyRows (a :: (x ++ 10 :: rest)) = stripCr (a :: x) :: bodyRows rest := by
  have hstart : bodyRows (a :: (x ++ 10 :: rest)) = rowScan (some [a]) (x ++ 10 :: rest) :=
    if_neg (Bool.eq_false_iff.mp ha)
  rw [hstart, rowScan_append hx, List.singleton_append, rowOf_cons (ne_cr ha)]
  rfl

theorem bodyRows_lastLine {a : UInt8} (ha : byteDialect.isTerminator a = false) {x : Bytes}
    (hx : (10 : UInt8) ∉ x) : bodyRows (a :: x) = [stripCr (a :: x)] := by
  have hstart : bodyRows (a :: x) = rowScan (some [a]) x := if_neg (Bool.eq_false_iff.mp ha)
  rw [hstart, rowScan_last hx, List.singleton_append, rowOf_cons (ne_cr ha)]

/-- Induction on the lines of a body. -/
theorem body_induction {P : Bytes → Prop} (nil : P [])
    (terminator : ∀ a body, byteDialect.isTerminator a → P body → P (a :: body))
    (line : ∀ a x rest, byteDialect.isTerminator a = false → (10 : UInt8) ∉ x → P rest →
      P (a :: (x ++ 10 :: rest)))
    (lastLine : ∀ a x, byteDialect.isTerminator a = false → (10 : UInt8) ∉ x → P (a :: x))
    (body : Bytes) : P body := by
  induction hn : body.length using Nat.strong_induction_on generalizing body with
  | h n ih =>
    rcases body with _ | ⟨a, body⟩
    · exact nil
    rw [List.length_cons] at hn
    cases ha : byteDialect.isTerminator a with
    | true => exact terminator a body ha (ih body.length (by omega) body rfl)
    | false =>
      by_cases hmem : (10 : UInt8) ∈ body
      · obtain ⟨x, rest, rfl, hx⟩ := List.eq_append_cons_of_mem hmem
        rw [List.length_append, List.length_cons] at hn
        exact line a x rest ha hx (ih rest.length (by omega) rest rfl)
      · exact lastLine a body ha hmem

/-- If each row is one record, then the records of the body are its rows. -/
theorem recordsFrom_bodyRows {body : Bytes}
    (hrows : ∀ row ∈ bodyRows body, OneRecord byteDialect row) :
    recordsFrom byteDialect .startRecord body = (bodyRows body).map (fieldsOf byteDialect) := by
  induction body using body_induction with
  | nil => rfl
  | terminator a body ha ih =>
    rw [bodyRows_terminator ha] at hrows ⊢
    rw [← ih hrows, recordsFrom, scan_cons, step_terminator rfl ha]
    rfl
  | line a x rest ha hx ih =>
    rw [bodyRows_line ha hx] at hrows ⊢
    obtain ⟨hrow, hrows⟩ := List.forall_mem_cons.mp hrows
    obtain ⟨e, he, heq⟩ := eq_stripCr (a :: x)
    have hline := recordsFrom_line hrow he (Or.inr ⟨rest, rfl⟩)
    rw [← List.append_assoc, ← heq] at hline
    exact hline.trans (congrArg _ (ih hrows))
  | lastLine a x ha hx =>
    rw [bodyRows_lastLine ha hx] at hrows ⊢
    obtain ⟨e, he, heq⟩ := eq_stripCr (a :: x)
    have hline := recordsFrom_line (hrows _ List.mem_cons_self) he (Or.inl rfl)
    rw [List.append_nil, ← heq] at hline
    exact hline

/-! ## The first line -/

/-- The byte order mark. -/
def utf8Bom : Bytes :=
  [0xEF, 0xBB, 0xBF]

theorem stripUtf8Bom_append_mark (b : Bytes) : stripUtf8Bom (utf8Bom ++ b) = b :=
  rfl

theorem stripUtf8Bom_of_no_mark {b : Bytes} (h : ∀ t, b ≠ utf8Bom ++ t) : stripUtf8Bom b = b := by
  unfold stripUtf8Bom
  split
  · exact absurd rfl (h _)
  · rfl

/-- The validator drops the byte order mark of the first line. -/
theorem stripUtf8Bom_append (x : Bytes) {y : Bytes}
    (hy : ∀ a, y.head? = some a → byteDialect.isTerminator a) :
    stripUtf8Bom (x ++ y) = stripUtf8Bom x ++ y := by
  by_cases hmark : ∃ t, x = utf8Bom ++ t
  · obtain ⟨t, rfl⟩ := hmark
    rw [List.append_assoc, stripUtf8Bom_append_mark, stripUtf8Bom_append_mark]
  · have hx : ∀ t, x ≠ utf8Bom ++ t := fun t ht => hmark ⟨t, ht⟩
    rw [stripUtf8Bom_of_no_mark hx, stripUtf8Bom_of_no_mark]
    intro t ht
    rcases List.append_eq_append_iff.mp ht with ⟨z, hz, hyz⟩ | ⟨z, hz, -⟩
    · -- the mark would go on in what follows the line
      rcases z with _ | ⟨a, z⟩
      · exact hx [] (by rw [hz, List.append_nil, List.append_nil])
      · have ha : a ∈ utf8Bom := hz ▸ List.mem_append_right x List.mem_cons_self
        have hplain : ∀ a ∈ utf8Bom, byteDialect.isTerminator a = false := by
          simp [utf8Bom, byteDialect, Dialect.isTerminator]
        rw [hyz] at hy
        exact Bool.false_ne_true ((hplain a ha).symm.trans (hy a rfl))
    · exact hx z hz

/-- The file is its first line, a line ending and the body. -/
theorem eq_splitFirstLine (b : Bytes) : ∃ e s, (e = [] ∨ e = [13]) ∧ (s = [] ∨ ∃ t, s = 10 :: t) ∧
    b = (splitFirstLine b).1 ++ (e ++ s) ∧ (splitFirstLine b).2 = s.drop 1 := by
  obtain ⟨e, he, heq⟩ := eq_stripCr (b.takeWhile fun a => a ≠ 10)
  refine ⟨e, b.dropWhile fun a => a ≠ 10, he, ?_, ?_, rfl⟩
  · have hhead := List.head?_dropWhile_not (fun a : UInt8 => decide (a ≠ 10)) b
    cases hrest : b.dropWhile fun a => decide (a ≠ 10) with
    | nil => exact Or.inl rfl
    | cons a t =>
      rw [hrest] at hhead
      exact Or.inr ⟨t, by simpa using hhead⟩
  · rw [← List.append_assoc]
    exact List.takeWhile_append_dropWhile.symm.trans (congrArg (· ++ _) heq)

/-- The header that the script reads, without the byte order mark. -/
def headerLine (b : Bytes) : Bytes :=
  stripUtf8Bom (splitFirstLine b).1

/-- If the header and each row are one record, then the records are the header and the rows. -/
theorem byteRecords_eq {b : Bytes} (hheader : OneRecord byteDialect (headerLine b))
    (hrows : ∀ row ∈ bodyRows (splitFirstLine b).2, OneRecord byteDialect row) :
    byteRecords b = fieldsOf byteDialect (headerLine b) ::
      (bodyRows (splitFirstLine b).2).map (fieldsOf byteDialect) := by
  obtain ⟨e, s, he, hs, hsplit, hbody⟩ := eq_splitFirstLine b
  have hends : ∀ a, (e ++ s).head? = some a → byteDialect.isTerminator a := by
    rcases he with rfl | rfl
    · rcases hs with rfl | ⟨t, rfl⟩
      · exact nofun
      · rintro a ⟨⟩
        rfl
    · rintro a ⟨⟩
      rfl
  rw [byteRecords, hsplit, stripUtf8Bom_append _ hends, ← hsplit,
    ← recordsFrom_bodyRows hrows, hbody]
  exact recordsFrom_line hheader he hs

/-! ## Blanks -/

/-- The blanks as characters. -/
def isBlankChar (c : Char) : Bool :=
  c = ' ' || c = '\t'

/-- The text has no whitespace but blanks at its ends. -/
def BlankEnds (v : Str) : Prop :=
  (∀ c ∈ v.takeWhile isWhitespace, isBlankChar c) ∧
    ∀ c ∈ v.reverse.takeWhile isWhitespace, isBlankChar c

instance (v : Str) : Decidable (BlankEnds v) :=
  decidable_of_iff ((v.takeWhile isWhitespace).all isBlankChar ∧
    (v.reverse.takeWhile isWhitespace).all isBlankChar)
    (and_congr List.all_eq_true List.all_eq_true)

theorem isWhitespace_of_isBlankChar (c : Char) (hc : isBlankChar c) : isWhitespace c := by
  rcases (by simpa [isBlankChar] using hc : c = ' ' ∨ c = '\t') with rfl | rfl <;> rfl

/-- A blank octet is a blank. -/
theorem isBlank_eq_of_mem {c : Char} {b : UInt8} (hb : b ∈ String.utf8EncodeChar c) :
    isBlank b = isBlankChar c := by
  have hspace : b = 32 ↔ c = ' ' := eq_iff_of_mem_utf8EncodeChar hb (by decide) (by decide)
  have htab : b = 9 ↔ c = '\t' := eq_iff_of_mem_utf8EncodeChar hb (by decide) (by decide)
  simp only [isBlank, isBlankChar, hspace, htab]

theorem isBlank_asBytes {s : Str} (hs : ∀ c ∈ s, isBlankChar c) : ∀ b ∈ asBytes s, isBlank b := by
  intro b hb
  obtain ⟨c, hc, hb⟩ := List.mem_flatMap.mp hb
  rw [isBlank_eq_of_mem hb]
  exact hs c hc

theorem trimmed_asBytes {m : Str} (hm : Trimmed isBlankChar m) : Trimmed isBlank (asBytes m) := by
  refine ⟨fun b hb => ?_, fun b hb => ?_⟩
  · rcases m with _ | ⟨c, m⟩
    · cases hb
    · rw [asBytes_cons, List.head?_append_of_ne_nil _ String.utf8EncodeChar_ne_nil] at hb
      rw [isBlank_eq_of_mem (List.mem_of_head? hb)]
      exact hm.1 c rfl
  · rcases List.eq_nil_or_concat m with rfl | ⟨m, c, rfl⟩
    · cases hb
    · rw [List.concat_eq_append, asBytes_append, asBytes_cons, asBytes_nil, List.append_nil,
        List.getLast?_append_of_ne_nil _ String.utf8EncodeChar_ne_nil] at hb
      rw [isBlank_eq_of_mem (List.mem_of_getLast? hb)]
      exact hm.2 c (by simp)

theorem trimAscii_asBytes (v : Str) : trimAscii (asBytes v) = asBytes (trimBy isBlankChar v) := by
  obtain ⟨x, y, hx, hy, hv, hm⟩ := exists_trimBy isBlankChar v
  nth_rewrite 1 [hv]
  rw [asBytes_append, asBytes_append]
  exact trimBy_eq (isBlank_asBytes hx) (trimmed_asBytes hm) (isBlank_asBytes hy)

/-- The script and the validator trim a value alike. -/
theorem trimAscii_eq_trim_iff (v : Str) :
    trimAscii (asBytes v) = asBytes (trim v) ↔ BlankEnds v := by
  rw [trimAscii_asBytes, asBytes_inj]
  exact trimBy_eq_trimBy_iff isWhitespace_of_isBlankChar

/-! ## A cell and the value that was read from it -/

theorem count_trimAscii (p : Bytes) : (trimAscii p).count 34 = p.count 34 := by
  obtain ⟨x, y, hx, hy, hp, -⟩ := exists_trimBy isBlank p
  have hx' : (34 : UInt8) ∉ x := fun h => Bool.false_ne_true (hx _ h)
  have hy' : (34 : UInt8) ∉ y := fun h => Bool.false_ne_true (hy _ h)
  nth_rewrite 2 [hp]
  rw [List.count_append, List.count_append, List.count_eq_zero.mpr hx',
    List.count_eq_zero.mpr hy', Nat.zero_add, Nat.add_zero]
  rfl

theorem count_trim_le (v : Str) : (asBytes (trim v)).count 34 ≤ (asBytes v).count 34 := by
  obtain ⟨x, y, -, -, hv, -⟩ := exists_trimBy isWhitespace v
  nth_rewrite 2 [hv]
  rw [asBytes_append, asBytes_append, List.count_append, List.count_append]
  exact (Nat.le_add_right _ _).trans (Nat.le_add_left _ _)

theorem comma_mem_asBytes_iff {s : Str} : (44 : UInt8) ∈ asBytes s ↔ ',' ∈ s := by
  refine ⟨fun h => ?_, fun h => List.mem_flatMap.mpr ⟨',', h, by decide⟩⟩
  obtain ⟨c, hc, hb⟩ := List.mem_flatMap.mp h
  have heq : (44 : UInt8) = 44 ↔ c = ',' :=
    eq_iff_of_mem_utf8EncodeChar hb (by decide) (by decide)
  exact heq.mp rfl ▸ hc

/-- A comma is not trimmed. -/
theorem comma_mem_trim {v : Str} (h : (44 : UInt8) ∈ asBytes v) :
    (44 : UInt8) ∈ asBytes (trim v) := by
  have hcomma : ∀ s : Str, (∀ c ∈ s, isWhitespace c) → (44 : UInt8) ∉ asBytes s :=
    fun s hs hmem => Bool.false_ne_true (hs ',' (comma_mem_asBytes_iff.mp hmem))
  obtain ⟨x, y, hx, hy, hv, -⟩ := exists_trimBy isWhitespace v
  rw [hv, asBytes_append, asBytes_append, List.mem_append, List.mem_append] at h
  rcases h with h | h | h
  · exact absurd h (hcomma x hx)
  · exact h
  · exact absurd h (hcomma y hy)

/-- The script examines the value that was checked if and only if the cell is not quoted and
both trim the value alike. -/
theorem cell_eq_iff {p : Bytes} {v : Str} (hp : (44 : UInt8) ∉ p)
    (hread : ReadAs byteDialect p (asBytes v)) :
    trimAscii p = asBytes (trim v) ↔ p.head? ≠ some 34 ∧ BlankEnds v := by
  unfold ReadAs at hread
  split_ifs at hread with hquote
  · refine ⟨fun heq => ?_, fun h => absurd hquote h.1⟩
    rcases hread with hcomma | hcount
    · have hmem := comma_mem_trim hcomma
      rw [← heq] at hmem
      obtain ⟨x, y, -, -, hsplit, -⟩ := exists_trimBy isBlank p
      refine absurd ?_ hp
      rw [hsplit]
      exact List.mem_append_right x (List.mem_append_left y hmem)
    · have hle := count_trim_le v
      rw [← heq, count_trimAscii] at hle
      exact absurd hcount (Nat.not_lt.mpr hle)
  · rw [← hread, trimAscii_eq_trim_iff]
    exact ⟨fun h => ⟨hread ▸ hquote, h⟩, fun h => h.2⟩

theorem fieldAt_eq_iff {row p : Bytes} {col : Nat} {v : Str}
    (hp : (row.splitOn 44)[col]? = some p) (hcomma : (44 : UInt8) ∉ p)
    (hread : ReadAs byteDialect p (asBytes v)) :
    (fieldAt row col).map trimAscii = some (asBytes (trim v)) ↔
      (row.splitOn 44)[col]?.bind List.head? ≠ some 34 ∧ BlankEnds v := by
  rw [fieldAt_eq, hp, Option.map_some, Option.some_inj, cell_eq_iff hcomma hread,
    Option.bind_some]

/-- The script finds the name in the header if and only if it stands there as it is. -/
theorem header_eq_iff {m p : Bytes} {c : Str} (hm : m = [] ∨ m = utf8Bom)
    (hread : ReadAs byteDialect p (asBytes c)) (hcomma : ',' ∉ c)
    (hblank : trimAscii (asBytes c) = asBytes c) :
    trimAscii (m ++ p) = asBytes c ↔ m ++ p = asBytes c := by
  refine ⟨fun heq => ?_, fun heq => heq ▸ hblank⟩
  unfold ReadAs at hread
  split_ifs at hread with hquote
  · rcases hread with hdelim | hcount
    · exact absurd (comma_mem_asBytes_iff.mp hdelim) hcomma
    · have hle : p.count 34 ≤ (trimAscii (m ++ p)).count 34 := by
        rw [count_trimAscii, List.count_append]
        exact Nat.le_add_left _ _
      rw [heq] at hle
      exact absurd hcount (Nat.not_lt.mpr hle)
  · -- neither the mark nor the name can be trimmed
    have hname : Trimmed isBlank p := by
      rw [← hread, ← hblank]
      exact trimmed_trimBy isBlank (asBytes c)
    have hmark : Trimmed isBlank m := by
      rcases hm with rfl | rfl
      · exact ⟨nofun, nofun⟩
      · exact ⟨by rintro a ⟨⟩; rfl, by rintro a ⟨⟩; rfl⟩
    have hkeep : trimAscii (m ++ p) = m ++ p := (hmark.append hname).trimBy_eq
    rw [← hkeep]
    exact heq

/-! ## The header -/

theorem splitOn_append_of_not_mem {m : Bytes} (hm : (44 : UInt8) ∉ m) (s : Bytes) :
    (m ++ s).splitOn 44 = (s.splitOn 44).modifyHead (m ++ ·) := by
  by_cases hmem : (44 : UInt8) ∈ s
  · obtain ⟨x, t, rfl, hx⟩ := List.eq_append_cons_of_mem hmem
    have hmx : (44 : UInt8) ∉ m ++ x := fun h => (List.mem_append.mp h).elim hm hx
    rw [← List.append_assoc, List.splitOn_append_cons_self_of_not_mem hmx,
      List.splitOn_append_cons_self_of_not_mem hx]
    rfl
  · have hms : (44 : UInt8) ∉ m ++ s := fun h => (List.mem_append.mp h).elim hm hmem
    rw [List.splitOn_eq_singleton hms, List.splitOn_eq_singleton hmem]
    rfl

/-- The cells of the first line are those of the header, the first one with the byte order
mark. -/
theorem exists_mark_of_headerLine {b p : Bytes} {j : Nat}
    (h : ((headerLine b).splitOn 44)[j]? = some p) :
    ∃ m, (m = [] ∨ m = utf8Bom) ∧ ((splitFirstLine b).1.splitOn 44)[j]? = some (m ++ p) := by
  by_cases hmark : ∃ t, (splitFirstLine b).1 = utf8Bom ++ t
  · obtain ⟨t, ht⟩ := hmark
    rw [headerLine, ht, stripUtf8Bom_append_mark] at h
    rw [ht, splitOn_append_of_not_mem (by decide), List.getElem?_modifyHead, h]
    rcases j with _ | j
    · exact ⟨utf8Bom, Or.inr rfl, rfl⟩
    · exact ⟨[], Or.inl rfl, rfl⟩
  · rw [headerLine, stripUtf8Bom_of_no_mark fun t ht => hmark ⟨t, ht⟩] at h
    exact ⟨[], Or.inl rfl, h⟩

/-- No other cell of the header can be taken for the column. -/
def OnlyHeader (header column : Bytes) (col : Nat) : Prop :=
  ∀ e ∈ (header.splitOn 44).zipIdx, trimAscii e.1 = column → e.2 = col

instance (header column : Bytes) (col : Nat) : Decidable (OnlyHeader header column col) :=
  inferInstanceAs (Decidable (∀ e ∈ (header.splitOn 44).zipIdx, _))

theorem OnlyHeader.headerColumnIndex_eq {header column cell : Bytes} {col : Nat}
    (h : OnlyHeader header column col) (hcell : (header.splitOn 44)[col]? = some cell) :
    headerColumnIndex header column = if trimAscii cell = column then some col else none := by
  have honly : ∀ i c, (header.splitOn 44)[i]? = some c → trimAscii c = column → i = col :=
    fun i c hc => h (c, i) (List.mem_zipIdx_iff_getElem?.mpr hc)
  rw [RelationalSdk.headerColumnIndex_eq]
  obtain ⟨hlt, hget⟩ := List.getElem?_eq_some_iff.mp hcell
  split_ifs with heq
  · refine List.findIdx?_eq_some_iff_getElem.mpr ⟨hlt, by simpa [hget] using heq, ?_⟩
    intro i hi htrim
    have hi' := honly i _ (List.getElem?_eq_getElem (hi.trans hlt)) (by simpa using htrim)
    exact absurd hi' (Nat.ne_of_lt hi)
  · refine List.findIdx?_eq_none_iff.mpr fun c hc => decide_eq_false fun htrim => heq ?_
    obtain ⟨i, hi, rfl⟩ := List.getElem_of_mem hc
    have hi' := honly i _ (List.getElem?_eq_getElem hi) htrim
    rw [← hget, ← htrim]
    simp only [hi']

/-! ## What the validator has checked -/

/-- The number of the column that the validator checks as `c`. -/
def columnNumber (b : Bytes) (c : Str) : Nat :=
  ((headerToIndex ((readHeaders b).getD [])).get c).getD 0

/-- An accepted file has every column of the schema. -/
theorem exists_column_of_valid {parseFromStr : Str → Str → Bool} {b : Bytes}
    {schema : List FieldSchema} {field : FieldSchema}
    (hvalid : (validateCsvBytes parseFromStr b schema .strict).valid) (hfield : field ∈ schema) :
    ∃ headers, readHeaders b = some headers ∧
      headers[columnNumber b field.name]? = some field.name ∧
      columnValues b field.name =
        (okRecords b).map fun record => record.getD (columnNumber b field.name) [] := by
  obtain ⟨headers, hheaders, hschema, -⟩ := exists_headers_of_valid parseFromStr hvalid
  obtain ⟨col, hcol⟩ := Option.isSome_iff_exists.mp (hschema field hfield)
  have hnumber : columnNumber b field.name = col := by
    rw [columnNumber, hheaders, Option.getD_some, hcol, Option.getD_some]
  rw [columnValues, columnOf, hheaders, Option.getD_some, hcol, hnumber]
  exact ⟨headers, rfl, getElem?_of_headerToIndex hcol, rfl⟩

/-- The number of the first piece of the first line that is the name of the column. -/
def nameCell (b : Bytes) (c : Str) : Option Nat :=
  ((splitFirstLine b).1.splitOn 44).findIdx? fun cell => trimAscii cell = asBytes c

/-- The script, in the piece `k` of the row, looks at the place from which the validator has read
the column `col` of the record. -/
def SamePlace (k col : Nat) (row : Bytes) (record : List Str) : Prop :=
  k = col ∧ ReadsTo byteDialect row (record.map asBytes) ∧ ∀ v ∈ record.take col, ',' ∉ v

instance (k col : Nat) (row : Bytes) (record : List Str) :
    Decidable (SamePlace k col row record) :=
  inferInstanceAs (Decidable (_ ∧ _ ∧ ∀ v ∈ _, _))

/-- At one place, the cell is not quoted and the value has no whitespace but blanks at its ends. At
two places, one happens to hold the text of the other. -/
def CellAlike (k col : Nat) (row : Bytes) (record : List Str) : Prop :=
  if SamePlace k col row record then
    (row.splitOn 44)[col]?.bind List.head? ≠ some 34 ∧ BlankEnds (record.getD col [])
  else (row.splitOn 44)[k]?.map trimAscii = some (asBytes (trim (record.getD col [])))

instance (k col : Nat) (row : Bytes) (record : List Str) :
    Decidable (CellAlike k col row record) :=
  inferInstanceAs (Decidable (if SamePlace k col row record then _ else _))

/-- The first line has the name of the column, and the rows are alike to the records, one to
one. -/
def CellsAlike (b : Bytes) (c : Str) : Prop :=
  match nameCell b c with
  | none => False
  | some k =>
    List.Forall₂ (CellAlike k (columnNumber b c)) (bodyRows (splitFirstLine b).2) (okRecords b)

instance (b : Bytes) (c : Str) : Decidable (CellsAlike b c) := by
  unfold CellsAlike
  split <;> infer_instance

/-- The script finds the column, visits one row for each record that was checked, and examines
in each the value that was checked. -/
def ReadsSameCells (b : Bytes) (c : Str) : Prop :=
  examinedCells b (asBytes c) = .ok ((columnValues b c).map fun v => some (asBytes (trim v)))

instance (b : Bytes) (c : Str) : Decidable (ReadsSameCells b c) :=
  inferInstanceAs (Decidable (_ = _))

/-- The mean is then that of the values that were checked. -/
theorem ReadsSameCells.computeMean_eq {V : Type} {parseF64Bytes : Bytes → Option V} {b : Bytes}
    {c : Str} (h : ReadsSameCells b c) : computeMean parseF64Bytes b (asBytes c) =
      let trimmed := (columnValues b c).map fun v => asBytes (trim v)
      let values := trimmed.filterMap fun t => if t = [] then none else parseF64Bytes t
      if values.isEmpty then .error "no numeric values in column"
      else .ok (values, trimmed.length - values.length) := by
  have hvalues : ∀ vs : List Str,
      (vs.map fun v => some (asBytes (trim v))).filterMap (fun cell =>
        cell.bind fun t => if t = [] then none else parseF64Bytes t) =
      (vs.map fun v => asBytes (trim v)).filterMap fun t =>
        if t = [] then none else parseF64Bytes t := by
    intro vs
    rw [List.filterMap_map, List.filterMap_map]
    rfl
  unfold ReadsSameCells at h
  unfold computeMean
  rw [h]
  dsimp only
  rw [hvalues, List.length_map, List.length_map]

theorem length_of_mem_okRecords {b : Bytes} {headers : List Str}
    (hheaders : readHeaders b = some headers) {record : List Str} (h : record ∈ okRecords b) :
    record.length = headers.length := by
  have hlength : ∀ {r : List Bytes} {vs : List Str}, decodeRecord r = some vs →
      r.length = vs.length := fun hvs => by
    rw [eq_map_asBytes_of_decodeRecord hvs, List.length_map]
  obtain ⟨_, hr, rfl⟩ := List.mem_filterMap.mp h
  unfold readRecords at hr
  unfold readHeaders at hheaders
  cases hbytes : byteRecords b with
  | nil =>
    rw [hbytes] at hr
    cases hr
  | cons header rs =>
    rw [hbytes] at hr hheaders
    obtain ⟨fields, -, heq⟩ := List.mem_map.mp hr
    split_ifs at heq with hlen
    rw [← hlength heq, hlen, hlength hheaders]

/-- The script examines the value that was checked if and only if the row is alike to the
record. -/
theorem cellAlike_iff {k col : Nat} {row : Bytes} {record : List Str} (hcol : col < record.length) :
    (fieldAt row k).map trimAscii = some (asBytes (trim (record.getD col []))) ↔
      CellAlike k col row record := by
  unfold CellAlike
  split_ifs with hplace
  · obtain ⟨rfl, hread, hplain⟩ := hplace
    have hplain' : ∀ f ∈ (record.map asBytes).take k, (44 : UInt8) ∉ f := by
      rw [← List.map_take]
      exact List.forall_mem_map.mpr fun v hv => mt comma_mem_asBytes_iff.mp (hplain v hv)
    obtain ⟨p, f, hp, hf, hcomma, hcell⟩ :=
      hread.readAs hplain' (by rwa [List.length_map])
    have hvalue : asBytes (record.getD k []) = f := by
      rw [List.getElem?_map, List.getElem?_eq_getElem hcol] at hf
      rw [List.getD_eq_getElem _ _ hcol]
      exact Option.some.inj hf
    exact fieldAt_eq_iff hp hcomma (hvalue ▸ hcell)
  · rw [fieldAt_eq]

/-- The script examines the values that the validator has checked if and only if the cells are
alike. -/
theorem readsSameCells_iff (parseFromStr : Str → Str → Bool) (b : Bytes)
    (schema : List FieldSchema) (field : FieldSchema)
    (hvalid : (validateCsvBytes parseFromStr b schema .strict).valid) (hfield : field ∈ schema) :
    ReadsSameCells b field.name ↔ CellsAlike b field.name := by
  obtain ⟨headers, hheaders, hname, hvalues⟩ := exists_column_of_valid hvalid hfield
  obtain ⟨hlt, -⟩ := List.getElem?_eq_some_iff.mp hname
  have hne : b ≠ [] := by
    rintro rfl
    obtain rfl := Option.some.inj hheaders
    exact absurd hlt (Nat.not_lt_zero _)
  rw [ReadsSameCells, examinedCells, if_neg hne, headerColumnIndex_eq, CellsAlike, nameCell,
    hvalues]
  generalize columnNumber b field.name = col at hlt ⊢
  cases ((splitFirstLine b).1.splitOn 44).findIdx? fun cell =>
    trimAscii cell = asBytes field.name with
  | none => exact iff_of_false (fun h => by cases h) not_false
  | some k =>
    -- each row is looked at on its own
    have halike : ∀ e ∈ (bodyRows (splitFirstLine b).2).zip (okRecords b),
        ((fieldAt e.1 k).map trimAscii = some (asBytes (trim (e.2.getD col []))) ↔
          CellAlike k col e.1 e.2) := fun e he =>
      cellAlike_iff (length_of_mem_okRecords hheaders (List.of_mem_zip he).2 ▸ hlt)
    dsimp only
    rw [Except.ok.injEq, List.map_map, ← List.forall₂_eq_eq_eq, List.forall₂_map_left_iff,
      List.forall₂_map_right_iff, List.forall₂_iff_zip, List.forall₂_iff_zip]
    exact and_congr_right fun _ =>
      ⟨fun h _ _ he => (halike _ he).mp (h he), fun h _ _ he => (halike _ he).mpr (h he)⟩

/-- A number and a note for each row. -/
def numberAndNote : List FieldSchema :=
  [⟨"v".toList, .integer, false⟩, ⟨"note".toList, .varchar 8, true⟩]

/-- A file with a quoted note, two kinds of line endings, blanks around a number, a second header
that is the name up to blanks and a quote that is not closed. -/
def notedCsv : Bytes :=
  asBytes "v,note, v\r\n 4 ,\"x, y\",1\r\n5,,\"z".toList

/-- The schema with a third column, whose name is that of the first up to blanks. -/
def twoNotes : List FieldSchema :=
  numberAndNote ++ [⟨" v".toList, .varchar 8, true⟩]

theorem readsSameCells_noted :
    (validateCsvBytes (fun _ _ => false) notedCsv twoNotes .strict).valid ∧
      columnValues notedCsv "v".toList = [" 4 ".toList, "5".toList] ∧
      ReadsSameCells notedCsv "v".toList := by
  have hvalid : (validateCsvBytes (fun _ _ => false) notedCsv twoNotes .strict).valid := by
    decide +kernel
  refine ⟨hvalid, by decide +kernel, ?_⟩
  exact (readsSameCells_iff (fun _ _ => false) notedCsv twoNotes
    ⟨"v".toList, .integer, false⟩ hvalid (by decide +kernel)).mpr (by decide +kernel)

/-- The note comes first, and has commas and a number in it. -/
def noteFirstCsv : Bytes :=
  asBytes "note,v\n\"a,7,b\",1\n".toList

/-- The validator has checked a 1, the script examines a 7. -/
theorem not_readsSameCells_noteFirst :
    (validateCsvBytes (fun _ _ => false) noteFirstCsv numberAndNote .strict).valid ∧
      columnValues noteFirstCsv "v".toList = ["1".toList] ∧
      examinedCells noteFirstCsv (asBytes "v".toList) = .ok [some (asBytes "7".toList)] ∧
      ¬ReadsSameCells noteFirstCsv "v".toList := by
  decide +kernel

/-! ## Files that both cut alike

Let every line of an accepted file be one record, with no comma in the fields before the column and
no other header that is the name up to blanks. Then both look at one place in every row, and the
condition is on the cells alone. -/

/-- The record that is read from a row. -/
def recordOf (row : Bytes) : List Str :=
  (decodeRecord (fieldsOf byteDialect row)).getD []

section Accepted

variable {parseFromStr : Str → Str → Bool} {b : Bytes} {schema : List FieldSchema}
  {headers : List Str} (hvalid : (validateCsvBytes parseFromStr b schema .strict).valid)
  (hheaders : readHeaders b = some headers)
  (hheader : OneRecord byteDialect (headerLine b))
  (hrows : ∀ row ∈ bodyRows (splitFirstLine b).2, OneRecord byteDialect row)

include hvalid hheaders hheader hrows

/-- Every row of an accepted file is a record with as many fields as the header. -/
theorem headers_of_rows : fieldsOf byteDialect (headerLine b) = headers.map asBytes ∧
    (∀ row ∈ bodyRows (splitFirstLine b).2,
      fieldsOf byteDialect row = (recordOf row).map asBytes ∧
        (recordOf row).length = headers.length) ∧
    okRecords b = (bodyRows (splitFirstLine b).2).map recordOf := by
  obtain ⟨-, -, -, hsome⟩ := exists_headers_of_valid parseFromStr hvalid
  have hrecords := byteRecords_eq hheader hrows
  have hfirst : fieldsOf byteDialect (headerLine b) = headers.map asBytes := by
    rw [readHeaders, hrecords] at hheaders
    exact eq_map_asBytes_of_decodeRecord hheaders
  have hread : ∀ row ∈ bodyRows (splitFirstLine b).2,
      (fieldsOf byteDialect row).length = (fieldsOf byteDialect (headerLine b)).length ∧
        decodeRecord (fieldsOf byteDialect row) = some (recordOf row) := by
    intro row hrow
    rw [readRecords, hrecords] at hsome
    have hrow' := hsome _ (List.mem_map_of_mem (List.mem_map_of_mem hrow))
    split_ifs at hrow' with hlen
    · obtain ⟨vs, hvs⟩ := Option.isSome_iff_exists.mp hrow'
      exact ⟨hlen, by rw [recordOf, hvs]; rfl⟩
    · cases hrow'
  refine ⟨hfirst, fun row hrow => ?_, ?_⟩
  · obtain ⟨hlen, hdecode⟩ := hread row hrow
    have hfields := eq_map_asBytes_of_decodeRecord hdecode
    refine ⟨hfields, ?_⟩
    rw [hfields, hfirst, List.length_map, List.length_map] at hlen
    exact hlen
  · rw [okRecords, readRecords, hrecords]
    dsimp only
    rw [List.map_map, List.filterMap_map, ← List.filterMap_eq_map]
    refine List.filterMap_congr fun row hrow => ?_
    obtain ⟨hlen, hdecode⟩ := hread row hrow
    simp only [Function.comp_apply, id, if_pos hlen, hdecode]

end Accepted

/-- The line is one record, with no comma in the fields before the column. -/
def ColumnCut (col : Nat) (line : Bytes) : Prop :=
  OneRecord byteDialect line ∧ ∀ f ∈ (fieldsOf byteDialect line).take col, (44 : UInt8) ∉ f

instance (col : Nat) (line : Bytes) : Decidable (ColumnCut col line) :=
  inferInstanceAs (Decidable (_ ∧ ∀ f ∈ _, _))

/-- The cell of a column and the value that is read from it. -/
theorem ColumnCut.readAs {col : Nat} {line : Bytes} {vs : List Str} {v : Str}
    (h : ColumnCut col line) (hfields : fieldsOf byteDialect line = vs.map asBytes)
    (hv : vs[col]? = some v) : ∃ p, (line.splitOn 44)[col]? = some p ∧ (44 : UInt8) ∉ p ∧
      ReadAs byteDialect p (asBytes v) := by
  obtain ⟨hlt, -⟩ := List.getElem?_eq_some_iff.mp hv
  obtain ⟨p, f, hp, hf, hcomma, hread⟩ :=
    h.1.readsTo.readAs h.2 (by rwa [hfields, List.length_map])
  rw [hfields, List.getElem?_map, hv] at hf
  obtain rfl := Option.some.inj hf
  exact ⟨p, hp, hcomma, hread⟩

/-- The script and the validator cut the file alike, up to the column `c` : its lines are its
records, no field before the column has a comma, and no other header is the name up to
blanks. -/
structure CutAlike (b : Bytes) (c : Str) : Prop where
  header : ColumnCut (columnNumber b c) (headerLine b)
  rows : ∀ row ∈ bodyRows (splitFirstLine b).2, ColumnCut (columnNumber b c) row
  onlyHeader : OnlyHeader (splitFirstLine b).1 (asBytes c) (columnNumber b c)

/-- The header and the cells of the column are not quoted, there is no byte order mark before
the header, and the values have no whitespace but blanks at their ends. -/
structure PlainCells (b : Bytes) (c : Str) : Prop where
  header : ((splitFirstLine b).1.splitOn 44)[columnNumber b c]? = some (asBytes c)
  unquoted : ∀ row ∈ bodyRows (splitFirstLine b).2,
    (row.splitOn 44)[columnNumber b c]?.bind List.head? ≠ some 34
  blanks : ∀ v ∈ columnValues b c, BlankEnds v

/-- An accepted file that both cut alike, column by column. -/
theorem CutAlike.exists_cells {parseFromStr : Str → Str → Bool} {b : Bytes}
    {schema : List FieldSchema} {field : FieldSchema}
    (hvalid : (validateCsvBytes parseFromStr b schema .strict).valid) (hfield : field ∈ schema)
    (h : CutAlike b field.name) :
    (∃ p, ((headerLine b).splitOn 44)[columnNumber b field.name]? = some p ∧
      ReadAs byteDialect p (asBytes field.name)) ∧
    ∃ value : Bytes → Str,
      columnValues b field.name = (bodyRows (splitFirstLine b).2).map value ∧
      ∀ row ∈ bodyRows (splitFirstLine b).2, ∃ p,
        (row.splitOn 44)[columnNumber b field.name]? = some p ∧ (44 : UInt8) ∉ p ∧
          ReadAs byteDialect p (asBytes (value row)) := by
  obtain ⟨headers, hheaders, hname, hvalues⟩ := exists_column_of_valid hvalid hfield
  obtain ⟨hfirst, hrows, hok⟩ :=
    headers_of_rows hvalid hheaders h.header.1 fun row hrow => (h.rows row hrow).1
  have hheader := h.header
  have hcells := h.rows
  generalize columnNumber b field.name = col at *
  refine ⟨?_, fun row => (recordOf row).getD col [], ?_, fun row hrow => ?_⟩
  · obtain ⟨p, hp, -, hread⟩ := hheader.readAs hfirst hname
    exact ⟨p, hp, hread⟩
  · rw [hvalues, hok]
    exact List.map_map
  · obtain ⟨hfields, hlen⟩ := hrows row hrow
    obtain ⟨hlt, -⟩ := List.getElem?_eq_some_iff.mp hname
    refine (hcells row hrow).readAs hfields ?_
    dsimp only
    rw [List.getD_eq_getElem?_getD, List.getElem?_eq_getElem (hlen ▸ hlt)]
    rfl

/-- On an accepted file that both cut alike, the script examines the values that the validator
has checked if and only if the cells are plain. -/
theorem readsSameCells_iff_of_cutAlike (parseFromStr : Str → Str → Bool) (b : Bytes)
    (schema : List FieldSchema) (field : FieldSchema)
    (hvalid : (validateCsvBytes parseFromStr b schema .strict).valid) (hfield : field ∈ schema)
    (hblank : trimAscii (asBytes field.name) = asBytes field.name) (hcomma : ',' ∉ field.name)
    (hcut : CutAlike b field.name) :
    ReadsSameCells b field.name ↔ PlainCells b field.name := by
  obtain ⟨⟨p, hp, hread⟩, value, hvalues, hcells⟩ := hcut.exists_cells hvalid hfield
  obtain ⟨m, hm, hcell⟩ := exists_mark_of_headerLine hp
  have hne : b ≠ [] := by
    rintro rfl
    cases hcut.header.1.1
  -- the column is found, and then each row is looked at on its own
  have hexamined : ReadsSameCells b field.name ↔ trimAscii (m ++ p) = asBytes field.name ∧
      ∀ row ∈ bodyRows (splitFirstLine b).2,
        (fieldAt row (columnNumber b field.name)).map trimAscii =
          some (asBytes (trim (value row))) := by
    rw [ReadsSameCells, examinedCells, if_neg hne, hcut.onlyHeader.headerColumnIndex_eq hcell,
      hvalues, List.map_map]
    split_ifs with heq
    · rw [Except.ok.injEq, List.map_inj_left, and_iff_right heq]
      rfl
    · exact ⟨nofun, fun h => absurd h.1 heq⟩
  have hrow : ∀ row ∈ bodyRows (splitFirstLine b).2,
      ((fieldAt row (columnNumber b field.name)).map trimAscii =
        some (asBytes (trim (value row))) ↔
          (row.splitOn 44)[columnNumber b field.name]?.bind List.head? ≠ some 34 ∧
            BlankEnds (value row)) := by
    intro row hrow
    obtain ⟨q, hq, hnone, hcellRead⟩ := hcells row hrow
    exact fieldAt_eq_iff hq hnone hcellRead
  rw [hexamined, header_eq_iff hm hread hcomma hblank]
  refine ⟨fun ⟨hhead, hall⟩ => ⟨?_, ?_, ?_⟩, fun h => ⟨?_, fun row hmem => ?_⟩⟩
  · rw [hcell, hhead]
  · exact fun row hmem => ((hrow row hmem).mp (hall row hmem)).1
  · rw [hvalues]
    refine List.forall_mem_map.mpr fun row hmem => ?_
    exact ((hrow row hmem).mp (hall row hmem)).2
  · exact Option.some.inj (hcell.symm.trans h.header)
  · refine (hrow row hmem).mpr ⟨h.unquoted row hmem, h.blanks _ ?_⟩
    rw [hvalues]
    exact List.mem_map_of_mem hmem

end RelationalSdk
