import RelationalSdk.IndexLoops
import RelationalSdk.MeanScript

/-!
# The scan of the sample script

`compute_mean` of `drt-examples/mean` finds rows, cuts out cells and trims them in loops over the
indices of the file. Here the loops are as in the source, with checked accesses and with fuel. Each
of them computes what the corresponding function on lists computes (`Indexed.trimAscii_eq`,
`Indexed.splitFirstLine_eq`, `Indexed.headerColumnIndex_eq`, `Indexed.fieldAt_eq`).

`plainMean` is the definition that the scan stands for : the lines of the body without carriage
returns at both ends, the column of the first header with the name, and the sum of the cells that
are numbers. `computeMean_eq_plainMean` : with fuel for every byte and one round more the scan
returns that, and reads no byte outside of the file. The values are those of the script on lists
(`scan_eq_map`), so the result on a file where both readers agree is the mean of the checked values
(`ReadsSameCells.scan_eq`).

The floating point numbers are a parameter with a zero, a sum, a quotient and the counts, and
`parse_f64_bytes` is a parameter.
-/

namespace RelationalSdk

open Text CsvReader IndexLoops

/-- The statistics of a column. -/
structure MeanStats (V : Type) where
  count : Nat
  skipped : Nat
  mean : V
  deriving DecidableEq

namespace Indexed

/-! ## The loops -/

/-- `while start < end && (s[start] == b' ' || s[start] == b'\t')`. -/
def trimStart (s : Bytes) (start : Nat) : Exec (Nat ⊕ Nat) :=
  if start < s.length then do
    let a ← index s start
    if isBlank a then pure (.inl (start + 1)) else pure (.inr start)
  else pure (.inr start)

/-- `while end > start && (s[end - 1] == b' ' || s[end - 1] == b'\t')`. -/
def trimEnd (s : Bytes) (start stop : Nat) : Exec (Nat ⊕ Nat) :=
  if start < stop then do
    let a ← index s (stop - 1)
    if isBlank a then pure (.inl (stop - 1)) else pure (.inr stop)
  else pure (.inr stop)

def trimAscii (fuel : Nat) (s : Bytes) : Exec Bytes := do
  let start ← whileLoop (trimStart s) fuel 0
  let stop ← whileLoop (trimEnd s start) fuel s.length
  slice s start stop

/-- `while i < buf.len() && buf[i] != b'\n'`. -/
def lineEnd (buf : Bytes) (i : Nat) : Exec (Nat ⊕ Nat) :=
  if i < buf.length then do
    let a ← index buf i
    if a ≠ 10 then pure (.inl (i + 1)) else pure (.inr i)
  else pure (.inr i)

/-- One step back from `stop` if a carriage return stands there. -/
def stripCrAt (buf : Bytes) (start stop : Nat) : Exec Nat :=
  if start < stop then do
    let a ← index buf (stop - 1)
    if a = 13 then pure (stop - 1) else pure stop
  else pure stop

def splitFirstLine (fuel : Nat) (buf : Bytes) : Exec (Bytes × Bytes) := do
  let i ← whileLoop (lineEnd buf) fuel 0
  let headerEnd ← stripCrAt buf 0 i
  let bodyStart := min (i + 1) buf.length
  let header ← slice buf 0 headerEnd
  let body ← slice buf bodyStart buf.length
  pure (header, body)

/-- Where a scan over cells stands : the start and the number of the cell, and the index. -/
structure CellScan where
  start : Nat
  idx : Nat
  i : Nat

/-- `while i <= header.len()`. -/
def headerStep (fuel : Nat) (header column : Bytes) (s : CellScan) :
    Exec (CellScan ⊕ Option Nat) :=
  if s.i ≤ header.length then do
    let cut ← if s.i = header.length then pure true else do
      let a ← index header s.i
      pure (decide (a = 44))
    if cut then do
      let raw ← slice header s.start s.i
      let cell ← trimAscii fuel raw
      if cell = column then pure (.inr (some s.idx))
      else pure (.inl ⟨s.i + 1, s.idx + 1, s.i + 1⟩)
    else pure (.inl { s with i := s.i + 1 })
  else pure (.inr none)

def headerColumnIndex (fuel : Nat) (header column : Bytes) : Exec (Option Nat) :=
  whileLoop (headerStep fuel header column) fuel ⟨0, 0, 0⟩

/-- `while i < row.len()`, and what follows the loop. -/
def fieldStep (row : Bytes) (n : Nat) (s : CellScan) : Exec (CellScan ⊕ Option Bytes) :=
  if s.i < row.length then do
    let a ← index row s.i
    if a = 44 then
      if s.idx = n then do
        let cell ← slice row s.start s.i
        pure (.inr (some cell))
      else pure (.inl ⟨s.i + 1, s.idx + 1, s.i + 1⟩)
    else pure (.inl { s with i := s.i + 1 })
  else if s.idx = n then do
    let cell ← slice row s.start row.length
    pure (.inr (some cell))
  else pure (.inr none)

def fieldAt (fuel : Nat) (row : Bytes) (n : Nat) : Exec (Option Bytes) :=
  whileLoop (fieldStep row n) fuel ⟨0, 0, 0⟩

section Mean

variable {V : Type} [Zero V] [Add V] [Div V] [NatCast V] (parseF64Bytes : Bytes → Option V)

/-- What `compute_mean` has added up. -/
structure Totals (V : Type) where
  sum : V
  count : Nat
  skipped : Nat

/-- One row : the cell is missing, empty, no number, or added. -/
def addRow (fuel : Nat) (row : Bytes) (colIdx : Nat) (t : Totals V) : Exec (Totals V) := do
  match ← fieldAt fuel row colIdx with
  | none => pure { t with skipped := t.skipped + 1 }
  | some field =>
    let trimmed ← trimAscii fuel field
    if trimmed = [] then pure { t with skipped := t.skipped + 1 }
    else
      match parseF64Bytes trimmed with
      | some v => pure { t with sum := t.sum + v, count := t.count + 1 }
      | none => pure { t with skipped := t.skipped + 1 }

/-- `while i < n`. -/
def rowStep (fuel : Nat) (body : Bytes) (colIdx : Nat) (s : Nat × Totals V) :
    Exec ((Nat × Totals V) ⊕ Totals V) :=
  if s.1 < body.length then do
    let a ← index body s.1
    if a = 13 || a = 10 then pure (.inl (s.1 + 1, s.2))
    else
      let i ← whileLoop (lineEnd body) fuel s.1
      let rowEnd ← stripCrAt body s.1 i
      let next := if i < body.length then i + 1 else i
      let row ← slice body s.1 rowEnd
      if row = [] then pure (.inl (next, s.2))
      else
        let t ← addRow parseF64Bytes fuel row colIdx s.2
        pure (.inl (next, t))
  else pure (.inr s.2)

def computeMean (fuel : Nat) (csv column : Bytes) : Exec (Except String (MeanStats V)) := do
  if csv = [] then pure (.error "empty CSV")
  else
    let (header, body) ← splitFirstLine fuel csv
    match ← headerColumnIndex fuel header column with
    | none =>
      let name := (fromUtf8 column).elim "" String.ofList
      pure (.error s!"column '{name}' not in header")
    | some colIdx =>
      let t ← whileLoop (rowStep parseF64Bytes fuel body colIdx) fuel (0, ⟨0, 0, 0⟩)
      if t.count = 0 then pure (.error "no numeric values in column")
      else pure (.ok ⟨t.count, t.skipped, t.sum / (t.count : V)⟩)

end Mean

end Indexed

/-! ## The plain definition -/

/-- The lines of a body, without carriage returns at the start and without one at the end, if
something is left of them. -/
def lineRows (body : Bytes) : List Bytes :=
  ((body.splitOn 10).map fun line => stripCr (line.dropWhile fun a => a = 13)).filter
    fun row => row ≠ []

/-- The rows after the first line. -/
def plainRows (csv : Bytes) : List Bytes :=
  lineRows ((csv.dropWhile fun a => a ≠ 10).drop 1)

/-- The first cell of the first line that is the name of the column. -/
def plainColumn (csv column : Bytes) : Option Nat :=
  ((stripCr (csv.takeWhile fun a => a ≠ 10)).splitOn 44).findIdx? fun cell =>
    trimAscii cell = column

section Plain

variable {V : Type} (parseF64Bytes : Bytes → Option V)

/-- The number in the cell `k` of a row, if the row has the cell, it is not blank, and it is a
number. -/
def cellValue (k : Nat) (row : Bytes) : Option V :=
  (row.splitOn 44)[k]?.bind fun cell =>
    if trimAscii cell = [] then none else parseF64Bytes (trimAscii cell)

/-- The mean of the numbers in the column, added in the order of the rows. -/
def plainMean [Zero V] [Add V] [Div V] [NatCast V] (csv column : Bytes) :
    Except String (MeanStats V) :=
  if csv = [] then .error "empty CSV"
  else
    match plainColumn csv column with
    | none =>
      let name := (fromUtf8 column).elim "" String.ofList
      .error s!"column '{name}' not in header"
    | some k =>
      let values := (plainRows csv).filterMap (cellValue parseF64Bytes k)
      if values.length = 0 then .error "no numeric values in column"
      else .ok ⟨values.length, (plainRows csv).length - values.length,
        values.foldl (· + ·) 0 / (values.length : V)⟩

end Plain

/-- A line that does not start with a carriage return is not empty without it. -/
theorem stripCr_ne_nil {a : UInt8} (ha : a ≠ 13) (line : Bytes) : stripCr (a :: line) ≠ [] := by
  intro hnil
  have hrow := rowOf_cons ha line
  rw [rowOf, if_pos hnil] at hrow
  cases hrow

theorem length_stripCr_le (line : Bytes) : (stripCr line).length ≤ line.length := by
  obtain ⟨e, -, he⟩ := eq_stripCr line
  have hlen := congrArg List.length he
  rw [List.length_append] at hlen
  omega

/-- A cell is not longer than its row. -/
theorem length_le_of_mem_splitOn {row cell : Bytes} (h : cell ∈ row.splitOn 44) :
    cell.length ≤ row.length := by
  induction hn : row.length using Nat.strong_induction_on generalizing row with
  | h n ih =>
    by_cases hmem : (44 : UInt8) ∈ row
    · obtain ⟨x, rest, rfl, hx⟩ := List.eq_append_cons_of_mem hmem
      rw [List.splitOn_append_cons_self_of_not_mem hx] at h
      rw [List.length_append, List.length_cons] at hn
      rcases List.mem_cons.mp h with rfl | h
      · omega
      · exact (ih rest.length (by omega) h rfl).trans (by omega)
    · rw [List.splitOn_eq_singleton hmem, List.mem_singleton] at h
      rw [h, hn]

theorem lineRows_append (x rest : Bytes) :
    lineRows (x ++ 10 :: rest) = lineRows x ++ lineRows rest := by
  unfold lineRows
  rw [List.splitOn_append_cons_self, List.map_append, List.filter_append]

/-- A carriage return before a line does not change its row. -/
theorem lineRows_cr {x : Bytes} (hx : (10 : UInt8) ∉ x) : lineRows (13 :: x) = lineRows x := by
  have hcr : (10 : UInt8) ∉ 13 :: x := by simpa using hx
  unfold lineRows
  rw [List.splitOn_eq_singleton hcr, List.splitOn_eq_singleton hx]
  rfl

/-- A line that starts with another byte is one row. -/
theorem lineRows_line {a : UInt8} (ha : byteDialect.isTerminator a = false) {x : Bytes}
    (hx : (10 : UInt8) ∉ x) : lineRows (a :: x) = [stripCr (a :: x)] := by
  have hlf : (10 : UInt8) ∉ a :: x := by
    rintro hmem
    rcases List.mem_cons.mp hmem with rfl | hmem
    · cases ha
    · exact hx hmem
  have hstart : (a :: x).dropWhile (fun a => decide (a = 13)) = a :: x :=
    List.dropWhile_cons_of_neg (by simpa using ne_cr ha)
  unfold lineRows
  rw [List.splitOn_eq_singleton hlf, List.map_singleton, hstart, List.filter_singleton,
    decide_eq_true (stripCr_ne_nil (ne_cr ha) x), cond_true]

/-- The scan visits the rows of the lines. -/
theorem lineRows_eq_bodyRows (body : Bytes) : lineRows body = bodyRows body := by
  induction body using body_induction with
  | nil => rfl
  | terminator a body ha ih =>
    rw [bodyRows_terminator ha, ← ih]
    have hor : (decide (a = 13) || decide (a = 10)) = true := ha
    obtain rfl | rfl : a = 13 ∨ a = 10 := by simpa using hor
    · by_cases hmem : (10 : UInt8) ∈ body
      · obtain ⟨x, rest, rfl, hx⟩ := List.eq_append_cons_of_mem hmem
        rw [← List.cons_append, lineRows_append, lineRows_append, lineRows_cr hx]
      · exact lineRows_cr hmem
    · exact lineRows_append [] body
  | line a x rest ha hx ih =>
    rw [bodyRows_line ha hx, ← List.cons_append, lineRows_append, lineRows_line ha hx, ih,
      List.singleton_append]
  | lastLine a x ha hx => rw [bodyRows_lastLine ha hx, lineRows_line ha hx]

namespace Indexed

/-! ## What the loops compute -/

theorem trimStart_eq {fuel : Nat} {s : Bytes} (hfuel : s.length < fuel) :
    whileLoop (trimStart s) fuel 0 = .ok (s.length - (s.dropWhile isBlank).length) := by
  refine whileLoop_eq (fun i => s.length - ((s.drop i).dropWhile isBlank).length)
    (fun i => i ≤ s.length) (fun i => s.length - i) (fun i hi => ?_) (Nat.zero_le _) (by omega)
  unfold trimStart
  split_ifs with hlt
  · have hdrop := List.drop_eq_getElem_cons hlt
    rw [index_eq_ok hdrop, ok_bind]
    by_cases ha : isBlank s[i]
    · refine Or.inr ⟨i + 1, if_pos ha, hlt, by omega, ?_⟩
      rw [hdrop, List.dropWhile_cons_of_pos ha]
    · rw [if_neg ha, hdrop, List.dropWhile_cons_of_neg ha, ← hdrop, List.length_drop,
        Nat.sub_sub_self hi]
      exact Or.inl rfl
  · obtain rfl : i = s.length := le_antisymm hi (not_lt.mp hlt)
    rw [List.drop_length, List.dropWhile_nil, List.length_nil]
    exact Or.inl rfl

theorem trimEnd_eq {fuel : Nat} {s : Bytes} {start stop : Nat} (hle : start ≤ stop)
    (hstop : stop ≤ s.length) (hfuel : stop < fuel) :
    whileLoop (trimEnd s start) fuel stop =
      .ok (start + (((s.take stop).drop start).rdropWhile isBlank).length) := by
  refine whileLoop_eq (fun stop => start + (((s.take stop).drop start).rdropWhile isBlank).length)
    (fun stop => start ≤ stop ∧ stop ≤ s.length) (fun stop => stop) ?_ ⟨hle, hstop⟩ hfuel
  rintro stop ⟨hle, hstop⟩
  unfold trimEnd
  split_ifs with hlt
  · obtain ⟨k, rfl⟩ : ∃ k, stop = k + 1 := ⟨stop - 1, by omega⟩
    have hk : k < s.length := by omega
    have hlast : (s.take (k + 1)).drop start = (s.take k).drop start ++ [s[k]] := by
      rw [List.take_succ_eq_append_getElem hk, List.drop_append_of_le_length]
      rw [List.length_take]
      omega
    rw [Nat.add_sub_cancel, index_eq_ok (List.drop_eq_getElem_cons hk), ok_bind]
    by_cases ha : isBlank s[k]
    · refine Or.inr ⟨k, if_pos ha, ⟨by omega, by omega⟩, by omega, ?_⟩
      rw [hlast, List.rdropWhile_concat_pos _ _ _ ha]
    · refine Or.inl ?_
      rw [if_neg ha, hlast, List.rdropWhile_concat_neg _ _ _ ha, ← hlast, List.length_drop,
        List.length_take]
      congr 2
      omega
  · obtain rfl : stop = start := le_antisymm (not_lt.mp hlt) hle
    rw [List.drop_eq_nil_of_le (by rw [List.length_take]; omega)]
    exact Or.inl rfl

theorem trimAscii_eq {fuel : Nat} {s : Bytes} (hfuel : s.length < fuel) :
    trimAscii fuel s = .ok (RelationalSdk.trimAscii s) := by
  have hdrop := (List.suffix_iff_eq_drop.mp (List.dropWhile_suffix isBlank (l := s))).symm
  have hkept := List.rdropWhile_prefix isBlank (s.dropWhile isBlank)
  have htake := (List.prefix_iff_eq_take.mp hkept).symm
  have hlen := hkept.length_le
  have hlen' := (List.dropWhile_suffix isBlank (l := s)).length_le
  unfold trimAscii
  rw [trimStart_eq hfuel, ok_bind, trimEnd_eq (Nat.sub_le _ _) le_rfl hfuel, ok_bind,
    List.take_length, hdrop, slice_eq_ok (by omega) (by omega), hdrop, Nat.add_sub_cancel_left,
    htake]
  rfl

/-- The line that starts at `i` ends at the next line feed. -/
theorem lineEnd_eq {fuel : Nat} {buf : Bytes} {i : Nat} (hi : i ≤ buf.length)
    (hfuel : buf.length < fuel) :
    whileLoop (lineEnd buf) fuel i =
      .ok (i + ((buf.drop i).takeWhile fun a => a ≠ 10).length) := by
  refine whileLoop_eq (fun i => i + ((buf.drop i).takeWhile fun a => a ≠ 10).length)
    (fun i => i ≤ buf.length) (fun i => buf.length - i) (fun i hi => ?_) hi (by omega)
  unfold lineEnd
  split_ifs with hlt
  · have hdrop := List.drop_eq_getElem_cons hlt
    rw [index_eq_ok hdrop, ok_bind]
    by_cases ha : buf[i] ≠ 10
    · refine Or.inr ⟨i + 1, if_pos ha, hlt, by omega, ?_⟩
      rw [hdrop, List.takeWhile_cons_of_pos (by simpa using ha), List.length_cons]
      omega
    · rw [if_neg ha, hdrop, List.takeWhile_cons_of_neg (by simpa using ha)]
      exact Or.inl rfl
  · rw [List.drop_eq_nil_of_le (not_lt.mp hlt)]
    exact Or.inl rfl

/-- A line without its carriage return is read where it stands. -/
theorem stripCrAt_eq {buf line rest : Bytes} {start : Nat} (hstart : start ≤ buf.length)
    (hdrop : buf.drop start = line ++ rest) :
    ∃ stop, stripCrAt buf start (start + line.length) = .ok stop ∧
      slice buf start stop = .ok (stripCr line) := by
  rcases List.eq_nil_or_concat' line with rfl | ⟨x, a, rfl⟩
  · exact ⟨start, if_neg (lt_irrefl _), slice_eq_of_drop hstart hdrop⟩
  have hlast : buf.drop (start + x.length) = a :: rest := by
    rw [← List.drop_drop, hdrop, List.append_assoc, List.drop_left, List.singleton_append]
  unfold stripCrAt
  rw [List.length_append, List.length_singleton, ← Nat.add_assoc, Nat.add_sub_cancel,
    if_pos (by omega), index_eq_ok hlast, ok_bind]
  by_cases ha : a = 13
  · refine ⟨_, if_pos ha, ?_⟩
    rw [List.append_assoc] at hdrop
    rw [slice_eq_of_drop hstart hdrop, stripCr, if_pos (by simp [ha]), List.dropLast_concat]
  · refine ⟨_, if_neg ha, ?_⟩
    have hline := slice_eq_of_drop hstart hdrop
    rw [List.length_append, List.length_singleton, ← Nat.add_assoc] at hline
    rw [hline, stripCr, if_neg (by simpa using ha)]

theorem splitFirstLine_eq {fuel : Nat} {buf : Bytes} (hfuel : buf.length < fuel) :
    splitFirstLine fuel buf = .ok (RelationalSdk.splitFirstLine buf) := by
  have hline : buf.drop 0 = buf.takeWhile (fun a => decide (a ≠ 10)) ++
      buf.dropWhile fun a => decide (a ≠ 10) := by
    rw [List.takeWhile_append_dropWhile, List.drop_zero]
  obtain ⟨stop, hstop, hheader⟩ := stripCrAt_eq (Nat.zero_le _) hline
  have hbody : slice buf (min (0 + (buf.takeWhile fun a => decide (a ≠ 10)).length + 1) buf.length)
      buf.length = .ok ((buf.dropWhile fun a => decide (a ≠ 10)).drop 1) := by
    rw [slice_min_length, ← List.drop_drop, ← List.drop_drop, hline, List.drop_left]
  unfold splitFirstLine
  rw [lineEnd_eq (Nat.zero_le _) hfuel, ok_bind, List.drop_zero, hstop, ok_bind, hheader, ok_bind,
    hbody]
  rfl

/-- One byte more of a cell. -/
theorem take_drop_succ {b s : Bytes} {a : UInt8} {start i : Nat} (hi : start ≤ i)
    (hdrop : b.drop i = a :: s) :
    (b.drop start).take (i + 1 - start) = (b.drop start).take (i - start) ++ [a] := by
  have hget : (b.drop start)[i - start]? = some a := by
    rw [List.getElem?_drop, Nat.add_sub_cancel' hi, ← List.head?_drop, hdrop, List.head?_cons]
  rw [Nat.sub_add_comm hi, List.take_add_one, hget, Option.toList_some]

theorem headerLoop_eq {fuel : Nat} {header column : Bytes} {s : CellScan} (hs : s.start ≤ s.i)
    (hfuel : header.length + 1 < fuel) :
    whileLoop (headerStep fuel header column) fuel s = .ok (if s.i ≤ header.length then
        headerScan column s.idx ((header.drop s.start).take (s.i - s.start)) (header.drop s.i)
      else none) := by
  refine whileLoop_eq
    (fun s : CellScan => if s.i ≤ header.length then
        headerScan column s.idx ((header.drop s.start).take (s.i - s.start)) (header.drop s.i)
      else none)
    (fun s => s.start ≤ s.i) (fun s => header.length + 1 - s.i) ?_ hs (by omega)
  rintro ⟨start, idx, i⟩ (hi : start ≤ i)
  dsimp only [headerStep]
  by_cases hlen : i ≤ header.length
  swap
  · rw [if_neg hlen, if_neg hlen]
    exact Or.inl rfl
  have hcell : trimAscii fuel ((header.drop start).take (i - start)) =
      .ok (RelationalSdk.trimAscii ((header.drop start).take (i - start))) :=
    trimAscii_eq (by rw [List.length_take, List.length_drop]; omega)
  rw [if_pos hlen, if_pos hlen]
  by_cases hend : i = header.length
  · rw [if_pos hend, List.drop_eq_nil_of_le hend.ge, headerScan]
    simp only [ok_bind, pure_eq_ok, if_pos, slice_eq_ok hi hlen, hcell]
    refine round_ite (⟨i + 1, idx + 1, i + 1⟩ : CellScan) ?_ ?_ ?_
    · exact le_rfl
    · simp
      omega
    · exact if_neg (by simp; omega)
  · have hlt : i < header.length := by omega
    have hdrop := List.drop_eq_getElem_cons hlt
    rw [if_neg hend, index_eq_ok hdrop]
    by_cases ha : header[i] = 44
    · simp only [ok_bind, pure_eq_ok, if_pos, slice_eq_ok hi hlen, hcell, ha, decide_true]
      rw [hdrop, headerScan, if_pos ha]
      refine round_ite (⟨i + 1, idx + 1, i + 1⟩ : CellScan) ?_ ?_ ?_
      · exact le_rfl
      · simp
        omega
      · refine (if_pos (Nat.succ_le_of_lt hlt)).trans ?_
        dsimp only
        rw [Nat.sub_self, List.take_zero]
    · simp only [ok_bind, pure_eq_ok, ha, decide_false]
      refine Or.inr ⟨⟨start, idx, i + 1⟩, rfl, by simp; omega, by simp; omega, ?_⟩
      refine (if_pos (Nat.succ_le_of_lt hlt)).trans ?_
      dsimp only
      rw [hdrop, headerScan, if_neg ha, take_drop_succ hi hdrop]

theorem headerColumnIndex_eq {fuel : Nat} {header : Bytes} (column : Bytes)
    (hfuel : header.length + 1 < fuel) :
    headerColumnIndex fuel header column = .ok (RelationalSdk.headerColumnIndex header column) := by
  rw [headerColumnIndex, headerLoop_eq le_rfl hfuel, if_pos (Nat.zero_le _)]
  rfl

theorem fieldLoop_eq {fuel : Nat} {row : Bytes} {n : Nat} {s : CellScan}
    (hs : s.start ≤ s.i ∧ s.i ≤ row.length) (hfuel : row.length < fuel) :
    whileLoop (fieldStep row n) fuel s =
      .ok (fieldScan n s.idx ((row.drop s.start).take (s.i - s.start)) (row.drop s.i)) := by
  refine whileLoop_eq
    (fun s => fieldScan n s.idx ((row.drop s.start).take (s.i - s.start)) (row.drop s.i))
    (fun s : CellScan => s.start ≤ s.i ∧ s.i ≤ row.length) (fun s => row.length - s.i) ?_ hs
    (by omega)
  rintro ⟨start, idx, i⟩ ⟨hi : start ≤ i, hlen : i ≤ row.length⟩
  dsimp only [fieldStep]
  by_cases hlt : i < row.length
  · have hdrop := List.drop_eq_getElem_cons hlt
    rw [if_pos hlt, index_eq_ok hdrop, ok_bind, hdrop, fieldScan]
    by_cases ha : row[i] = 44
    · rw [if_pos ha, if_pos ha]
      by_cases hidx : idx = n
      · rw [if_pos hidx, if_pos hidx, slice_eq_ok hi hlen]
        exact Or.inl rfl
      · rw [if_neg hidx, if_neg hidx]
        refine Or.inr ⟨⟨i + 1, idx + 1, i + 1⟩, rfl, ⟨le_rfl, hlt⟩, by simp; omega, ?_⟩
        dsimp only
        rw [Nat.sub_self, List.take_zero]
    · rw [if_neg ha, if_neg ha]
      refine Or.inr ⟨⟨start, idx, i + 1⟩, rfl, ⟨by simp; omega, hlt⟩, by simp; omega, ?_⟩
      rw [take_drop_succ hi hdrop]
  · obtain rfl : i = row.length := le_antisymm hlen (not_lt.mp hlt)
    rw [if_neg hlt, List.drop_length, fieldScan, slice_eq_ok hi hlen]
    by_cases hidx : idx = n
    · rw [if_pos hidx, if_pos hidx]
      exact Or.inl rfl
    · rw [if_neg hidx, if_neg hidx]
      exact Or.inl rfl

theorem fieldAt_eq {fuel : Nat} {row : Bytes} (n : Nat) (hfuel : row.length < fuel) :
    fieldAt fuel row n = .ok (RelationalSdk.fieldAt row n) :=
  fieldLoop_eq ⟨le_rfl, Nat.zero_le _⟩ hfuel

section Mean

variable {V : Type} [Add V] (parseF64Bytes : Bytes → Option V)

/-- A row with its number, or without one. -/
def Totals.add (t : Totals V) : Option V → Totals V
  | some v => { t with sum := t.sum + v, count := t.count + 1 }
  | none => { t with skipped := t.skipped + 1 }

theorem addRow_eq {fuel : Nat} {row : Bytes} (colIdx : Nat) (t : Totals V)
    (hfuel : row.length < fuel) :
    addRow parseF64Bytes fuel row colIdx t = .ok (t.add (cellValue parseF64Bytes colIdx row)) := by
  unfold addRow cellValue
  rw [fieldAt_eq colIdx hfuel, ok_bind, RelationalSdk.fieldAt_eq]
  rcases hcell : (row.splitOn 44)[colIdx]? with _ | field
  · rfl
  have hlen := (length_le_of_mem_splitOn (List.mem_of_getElem? hcell)).trans_lt hfuel
  dsimp only [Option.bind_some]
  rw [trimAscii_eq hlen, ok_bind]
  split_ifs
  · rfl
  · rcases parseF64Bytes (RelationalSdk.trimAscii field) with _ | v
    · rfl
    · rfl

/-- The first row ends at the next line feed. -/
theorem bodyRows_cons {a : UInt8} (ha : byteDialect.isTerminator a = false) (s : Bytes) :
    bodyRows (a :: s) = stripCr ((a :: s).takeWhile fun a => a ≠ 10) ::
      bodyRows (((a :: s).dropWhile fun a => a ≠ 10).drop 1) := by
  have hall : ∀ x : Bytes, (10 : UInt8) ∉ x → ∀ b ∈ a :: x, decide (b ≠ 10) := by
    intro x hx b hb
    refine decide_eq_true ?_
    rintro rfl
    rcases List.mem_cons.mp hb with rfl | hb
    · cases ha
    · exact hx hb
  by_cases hmem : (10 : UInt8) ∈ s
  · obtain ⟨x, rest, rfl, hx⟩ := List.eq_append_cons_of_mem hmem
    rw [bodyRows_line ha hx, ← List.cons_append, List.takeWhile_append_of_pos (hall x hx),
      List.dropWhile_append_of_pos (hall x hx)]
    simp
  · rw [bodyRows_lastLine ha hmem, List.takeWhile_eq_self_iff.mpr (hall s hmem),
      List.dropWhile_eq_nil_iff.mpr (hall s hmem)]
    rfl

/-- One round of the loop at the start of a row. -/
theorem rowStep_row {fuel : Nat} {body : Bytes} (colIdx : Nat) {i : Nat} (t : Totals V)
    (hfuel : body.length < fuel) (hlt : i < body.length)
    (ha : byteDialect.isTerminator body[i] = false) :
    ∃ next, rowStep parseF64Bytes fuel body colIdx (i, t) = .ok (.inl (next,
        t.add (cellValue parseF64Bytes colIdx
          (stripCr ((body.drop i).takeWhile fun a => a ≠ 10))))) ∧
      i < next ∧ body.drop next = ((body.drop i).dropWhile fun a => a ≠ 10).drop 1 := by
  have hdrop := List.drop_eq_getElem_cons hlt
  have hne : decide (body[i] ≠ 10) := by
    refine decide_eq_true fun h => ?_
    rw [h] at ha
    cases ha
  have hcons : (body.drop i).takeWhile (fun a => decide (a ≠ 10)) =
      body[i] :: (body.drop (i + 1)).takeWhile fun a => decide (a ≠ 10) := by
    rw [hdrop]
    exact List.takeWhile_cons_of_pos hne
  have hnil : stripCr ((body.drop i).takeWhile fun a => decide (a ≠ 10)) ≠ [] := by
    rw [hcons]
    exact stripCr_ne_nil (ne_cr ha) _
  have hpos : 0 < ((body.drop i).takeWhile fun a => decide (a ≠ 10)).length := by
    rw [hcons]
    exact Nat.succ_pos _
  have hend := lineEnd_eq hlt.le hfuel
  have hline := (List.takeWhile_append_dropWhile (p := fun a => decide (a ≠ 10))
    (l := body.drop i)).symm
  revert hnil hpos hend hline
  generalize (body.drop i).takeWhile (fun a => decide (a ≠ 10)) = line
  generalize (body.drop i).dropWhile (fun a => decide (a ≠ 10)) = rest
  intro hnil hpos hend hline
  obtain ⟨stop, hstop, hrow⟩ := stripCrAt_eq hlt.le hline
  have hlen := congrArg List.length hline
  rw [List.length_drop, List.length_append] at hlen
  have hadd := addRow_eq parseF64Bytes colIdx t
    (lt_of_le_of_lt (length_stripCr_le line) (by omega : _ < fuel))
  refine ⟨if i + line.length < body.length then i + line.length + 1 else i + line.length,
    ?_, ?_, ?_⟩
  · dsimp only [rowStep]
    rw [if_pos hlt, index_eq_ok hdrop, ok_bind]
    refine (if_neg (Bool.eq_false_iff.mp ha)).trans ?_
    rw [hend, ok_bind, hstop, ok_bind, hrow, ok_bind, if_neg hnil, hadd, ok_bind]
    rfl
  · split_ifs <;> omega
  · have hrest : body.drop (i + line.length) = rest := by
      rw [← List.drop_drop, hline, List.drop_left]
    split_ifs with hmore
    · rw [← List.drop_drop, hrest]
    · have hempty : rest = [] := List.length_eq_zero_iff.mp (by omega)
      rw [hrest, hempty, List.drop_nil]

theorem rowLoop_eq {fuel : Nat} {body : Bytes} (colIdx : Nat) (s : Nat × Totals V)
    (hfuel : body.length < fuel) :
    whileLoop (rowStep parseF64Bytes fuel body colIdx) fuel s =
      .ok (((bodyRows (body.drop s.1)).map (cellValue parseF64Bytes colIdx)).foldl
        Totals.add s.2) := by
  refine whileLoop_eq
    (fun s => ((bodyRows (body.drop s.1)).map (cellValue parseF64Bytes colIdx)).foldl
        Totals.add s.2)
    (fun s : Nat × Totals V => True) (fun s => body.length - s.1) ?_ trivial (by omega)
  rintro ⟨i, t⟩ -
  by_cases hlt : i < body.length
  · have hdrop := List.drop_eq_getElem_cons hlt
    refine Or.inr ?_
    by_cases ha : byteDialect.isTerminator body[i]
    · refine ⟨(i + 1, t), ?_, trivial, by simp; omega, ?_⟩
      · dsimp only [rowStep]
        rw [if_pos hlt, index_eq_ok hdrop, ok_bind]
        exact if_pos ha
      · dsimp only
        rw [hdrop, bodyRows_terminator ha]
    · obtain ⟨next, hnext, hlt', hrest⟩ :=
        rowStep_row parseF64Bytes colIdx t hfuel hlt (Bool.eq_false_iff.mpr ha)
      refine ⟨_, hnext, trivial, by simp; omega, ?_⟩
      have hrows := bodyRows_cons (Bool.eq_false_iff.mpr ha) (body.drop (i + 1))
      rw [← hdrop] at hrows
      dsimp only
      rw [hrest, hrows, List.map_cons, List.foldl_cons]
  · refine Or.inl ?_
    dsimp only [rowStep]
    rw [if_neg hlt, List.drop_eq_nil_of_le (not_lt.mp hlt)]
    rfl

/-- The totals of the rows, and of the rows with a number. -/
theorem foldl_add (vs : List (Option V)) : ∀ t : Totals V, vs.foldl Totals.add t =
    ⟨vs.reduceOption.foldl (· + ·) t.sum, t.count + vs.reduceOption.length,
      t.skipped + (vs.length - vs.reduceOption.length)⟩ := by
  induction vs with
  | nil => exact fun t => rfl
  | cons v vs ih =>
    intro t
    have hle := List.reduceOption_length_le vs
    rw [List.foldl_cons, ih]
    rcases v with _ | v
    · rw [List.reduceOption_cons_of_none, List.length_cons]
      simp only [Totals.add, Totals.mk.injEq, true_and]
      omega
    · rw [List.reduceOption_cons_of_some, List.length_cons, List.length_cons, List.foldl_cons]
      simp only [Totals.add, Totals.mk.injEq, true_and]
      omega

end Mean

end Indexed

theorem length_splitFirstLine (csv : Bytes) :
    (splitFirstLine csv).1.length ≤ csv.length ∧ (splitFirstLine csv).2.length ≤ csv.length := by
  have hsplit := congrArg List.length
    (List.takeWhile_append_dropWhile (p := fun a => decide (a ≠ 10)) (l := csv))
  rw [List.length_append] at hsplit
  have hheader := length_stripCr_le (csv.takeWhile fun a => decide (a ≠ 10))
  refine ⟨hheader.trans (by omega), ?_⟩
  dsimp only [splitFirstLine]
  rw [List.length_drop]
  omega

/-- Every row has a number or is skipped. -/
theorem plainMean_count_add_skipped {V : Type} [Zero V] [Add V] [Div V] [NatCast V]
    {parseF64Bytes : Bytes → Option V} {csv column : Bytes} {stats : MeanStats V}
    (h : plainMean parseF64Bytes csv column = .ok stats) :
    stats.count + stats.skipped = (plainRows csv).length := by
  unfold plainMean at h
  split_ifs at h
  rcases hcol : plainColumn csv column with _ | k
  · rw [hcol] at h
    cases h
  · rw [hcol] at h
    have hle := List.length_filterMap_le (cellValue parseF64Bytes k) (plainRows csv)
    dsimp only at h
    split_ifs at h
    cases h
    exact Nat.add_sub_cancel' hle

/-- There are not more rows than bytes. -/
theorem length_plainRows_le (csv : Bytes) : (plainRows csv).length ≤ csv.length := by
  have hrows : ∀ body, (bodyRows body).length ≤ body.length := by
    intro body
    induction body using body_induction with
    | nil => exact le_rfl
    | terminator a body ha ih =>
      rw [bodyRows_terminator ha]
      exact ih.trans (Nat.le_succ _)
    | line a x rest ha hx ih =>
      rw [bodyRows_line ha hx, List.length_cons, List.length_cons, List.length_append,
        List.length_cons]
      omega
    | lastLine a x ha hx =>
      rw [bodyRows_lastLine ha hx, List.length_singleton, List.length_cons]
      omega
  have hplain : plainRows csv = bodyRows (splitFirstLine csv).2 := lineRows_eq_bodyRows _
  rw [hplain]
  exact (hrows _).trans (length_splitFirstLine csv).2

/-- The scan returns the mean of the plain definition. -/
theorem scan_eq_plainMean {V : Type} [Zero V] [Add V] [Div V] [NatCast V]
    (parseF64Bytes : Bytes → Option V) {fuel : Nat} {csv : Bytes} (column : Bytes)
    (hfuel : csv.length + 1 < fuel) :
    Indexed.computeMean parseF64Bytes fuel csv column =
      .ok (plainMean parseF64Bytes csv column) := by
  obtain ⟨hheader, hbody⟩ := length_splitFirstLine csv
  unfold Indexed.computeMean plainMean
  by_cases hempty : csv = []
  · rw [if_pos hempty, if_pos hempty]
    rfl
  rw [if_neg hempty, if_neg hempty, Indexed.splitFirstLine_eq (by omega), ok_bind]
  dsimp only
  rw [Indexed.headerColumnIndex_eq column (by omega), ok_bind, headerColumnIndex_eq]
  have hcolumn : ((splitFirstLine csv).1.splitOn 44).findIdx?
      (fun cell => decide (trimAscii cell = column)) = plainColumn csv column := rfl
  rw [hcolumn]
  rcases plainColumn csv column with _ | k
  · rfl
  have hrows : bodyRows ((splitFirstLine csv).2.drop 0) = plainRows csv :=
    (lineRows_eq_bodyRows _).symm
  have hvalues : ((plainRows csv).map (cellValue parseF64Bytes k)).reduceOption =
      (plainRows csv).filterMap (cellValue parseF64Bytes k) := List.filterMap_map
  dsimp only
  rw [Indexed.rowLoop_eq parseF64Bytes k _ (by omega), ok_bind, Indexed.foldl_add, hrows, hvalues,
    List.length_map]
  dsimp only
  rw [Nat.zero_add, Nat.zero_add]
  split_ifs <;> rfl

/-- The scan returns the mean of the plain definition, and every row is counted or skipped. -/
theorem computeMean_eq_plainMean {V : Type} [Zero V] [Add V] [Div V] [NatCast V]
    (parseF64Bytes : Bytes → Option V) {fuel : Nat} {csv : Bytes} (column : Bytes)
    (hfuel : csv.length + 1 < fuel) :
    Indexed.computeMean parseF64Bytes fuel csv column = .ok (plainMean parseF64Bytes csv column) ∧
      ∀ stats, plainMean parseF64Bytes csv column = .ok stats →
        stats.count + stats.skipped = (plainRows csv).length :=
  ⟨scan_eq_plainMean parseF64Bytes column hfuel, fun _ => plainMean_count_add_skipped⟩

/-- A column of digits, with blanks, an empty cell, a short row and lone line ends. -/
def digitsCsv : Bytes :=
  asBytes "id, n \r\n1,2\r\n\r\n2,\n3\n\r4,\t4".toList

/-- A number of one digit. -/
def oneDigit : Bytes → Option Int
  | [a] => if 48 ≤ a ∧ a ≤ 57 then some (a.toNat - 48) else none
  | _ => none

theorem computeMean_digits :
    Indexed.computeMean oneDigit 40 digitsCsv (asBytes ['n']) = .ok (.ok ⟨2, 2, 3⟩) := by
  have hplain : plainMean oneDigit digitsCsv (asBytes ['n']) = .ok ⟨2, 2, 3⟩ := by decide +kernel
  rw [(computeMean_eq_plainMean oneDigit (asBytes ['n']) (by decide)).1, hplain]

/-! ## The mean of the values -/

section Values

variable {V : Type} [Zero V] [Add V] [Div V] [NatCast V] {parseF64Bytes : Bytes → Option V}

/-- The statistics of the numbers in the order of the rows, and of the number of rows without
one. -/
def meanOf (added : List V × Nat) : MeanStats V :=
  ⟨added.1.length, added.2, added.1.foldl (· + ·) 0 / (added.1.length : V)⟩

/-- The plain definition takes the mean of what the script on lists adds up. -/
theorem plainMean_eq_map (csv column : Bytes) : plainMean parseF64Bytes csv column =
    (computeMean parseF64Bytes csv column).map meanOf := by
  have hcolumn : headerColumnIndex (splitFirstLine csv).1 column = plainColumn csv column :=
    headerColumnIndex_eq _ _
  have hrows : bodyRows (splitFirstLine csv).2 = plainRows csv := (lineRows_eq_bodyRows _).symm
  unfold plainMean computeMean examinedCells
  rw [hcolumn, hrows]
  by_cases hempty : csv = []
  · rw [if_pos hempty, if_pos hempty]
    rfl
  rw [if_neg hempty, if_neg hempty]
  rcases plainColumn csv column with _ | k
  · rfl
  have hvalues : ((plainRows csv).map fun row => (fieldAt row k).map trimAscii).filterMap
      (fun cell => cell.bind fun trimmed =>
        if trimmed = [] then none else parseF64Bytes trimmed) =
      (plainRows csv).filterMap (cellValue parseF64Bytes k) := by
    rw [List.filterMap_map]
    refine List.filterMap_congr fun row _ => ?_
    rw [Function.comp_apply, fieldAt_eq, Option.bind_map]
    rfl
  dsimp only
  rw [hvalues, List.length_map]
  rcases (plainRows csv).filterMap (cellValue parseF64Bytes k) with _ | ⟨v, values⟩
  · rfl
  · rfl

/-- The scan of the bytes takes the mean of what the script on lists adds up. -/
theorem scan_eq_map {fuel : Nat} {csv : Bytes} (column : Bytes) (hfuel : csv.length + 1 < fuel) :
    Indexed.computeMean parseF64Bytes fuel csv column =
      .ok ((computeMean parseF64Bytes csv column).map meanOf) := by
  rw [scan_eq_plainMean parseF64Bytes column hfuel, plainMean_eq_map]

/-- Where the script examines the values that the validator has checked, the scan of the bytes
returns the mean of those that are numbers. -/
theorem ReadsSameCells.scan_eq {fuel : Nat} {b : Bytes} {c : Str} (h : ReadsSameCells b c)
    (hfuel : b.length + 1 < fuel) : Indexed.computeMean parseF64Bytes fuel b (asBytes c) = .ok (
      let trimmed := (columnValues b c).map fun v => asBytes (trim v)
      let values := trimmed.filterMap fun t => if t = [] then none else parseF64Bytes t
      if values.isEmpty then .error "no numeric values in column"
      else .ok (meanOf (values, trimmed.length - values.length))) := by
  rw [scan_eq_map (asBytes c) hfuel, h.computeMean_eq]
  dsimp only
  split_ifs
  · rfl
  · rfl

end Values

end RelationalSdk
