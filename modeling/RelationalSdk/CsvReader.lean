import Mathlib

/-!
# Reading CSV records

A CSV reader is a machine that reads one symbol at a time. `Scanner` is what it remembers
between two symbols, `step` reads one symbol and may complete a record, and `scan` reads
a text. At the end of the text an open record is flushed, so `records` is what was
completed and what was flushed. Outside of quotes a carriage return or a line feed ends a
record, between records they are skipped, and inside of quotes they are data.

The alphabet is a parameter. `Encodes.scan_flatMap` : reading an encoded text is reading the text
and encoding the records, for any encoding that keeps the four special symbols and uses
none of them for another symbol.

A text can be read part by part, and `rowsOfParts` are the rows that each part completes.

The lemmas on line endings say how a text can be cut into lines. Outside of quotes the
two line endings do the same (`scan_append_lf`, `scan_append_crlf`). The fields of a line that
is one record are compared with its pieces, which are what stands between its delimiters :
up to the first field with a delimiter in it, a piece is the field, or it begins with a quote
and then it is not (`ReadsTo.readAs`).
-/

namespace CsvReader

variable {α β : Type*} [DecidableEq α] [DecidableEq β]

/-- The symbols with a meaning. -/
structure Dialect (α : Type*) where
  delimiter : α
  quote : α
  cr : α
  lf : α
  nodup : [delimiter, quote, cr, lf].Nodup

namespace Dialect

variable (d : Dialect α)

/-- The symbol ends a record outside of quotes. -/
def isTerminator (a : α) : Bool :=
  a = d.cr || a = d.lf

/-- The symbol is data wherever it stands. -/
def isPlain (a : α) : Bool :=
  !(a = d.delimiter || a = d.quote || d.isTerminator a)

@[simp] theorem isTerminator_cr : d.isTerminator d.cr := by
  simp [isTerminator]

@[simp] theorem isTerminator_lf : d.isTerminator d.lf := by
  simp [isTerminator]

omit [DecidableEq α] in
theorem delimiter_ne_quote : d.delimiter ≠ d.quote :=
  fun h => by simpa [h] using d.nodup

theorem isTerminator_delimiter : d.isTerminator d.delimiter = false := by
  have h := d.nodup
  simp at h
  simp [isTerminator, h]

theorem isTerminator_quote : d.isTerminator d.quote = false := by
  have h := d.nodup
  simp at h
  simp [isTerminator, h]

variable {d}

theorem ne_delimiter_of_isTerminator {a : α} (h : d.isTerminator a) : a ≠ d.delimiter := by
  rintro rfl
  simp [isTerminator_delimiter] at h

theorem ne_quote_of_isTerminator {a : α} (h : d.isTerminator a) : a ≠ d.quote := by
  rintro rfl
  simp [isTerminator_quote] at h

theorem isPlain_iff {a : α} :
    d.isPlain a ↔ a ≠ d.delimiter ∧ a ≠ d.quote ∧ d.isTerminator a = false := by
  simp [isPlain, and_assoc]

end Dialect

/-- What the reader remembers : the complete fields of the record it reads, and what it
has of the field it reads. -/
inductive Scanner (α : Type*) where
  | startRecord
  | startField (fields : List (List α))
  | inField (fields : List (List α)) (field : List α)
  | inQuotedField (fields : List (List α)) (field : List α)
  | inDoubleEscapedQuote (fields : List (List α)) (field : List α)
  deriving DecidableEq

namespace Scanner

/-- The record that the end of the text completes. -/
def flush : Scanner α → Option (List (List α))
  | startRecord => none
  | startField fields => some (fields ++ [[]])
  | inField fields field => some (fields ++ [field])
  | inQuotedField fields field => some (fields ++ [field])
  | inDoubleEscapedQuote fields field => some (fields ++ [field])

/-- The reader is inside of quotes. -/
def quoted : Scanner α → Bool
  | inQuotedField _ _ => true
  | _ => false

/-- The reader of the encoded text. -/
def map (e : α → List β) : Scanner α → Scanner β
  | startRecord => startRecord
  | startField fields => startField (fields.map (List.flatMap e))
  | inField fields field => inField (fields.map (List.flatMap e)) (field.flatMap e)
  | inQuotedField fields field => inQuotedField (fields.map (List.flatMap e)) (field.flatMap e)
  | inDoubleEscapedQuote fields field =>
    inDoubleEscapedQuote (fields.map (List.flatMap e)) (field.flatMap e)

end Scanner

open Scanner

/-- Read the first symbol of a field. -/
def stepStart (d : Dialect α) (fields : List (List α)) (a : α) :
    Option (List (List α)) × Scanner α :=
  if a = d.quote then (none, inQuotedField fields [])
  else if a = d.delimiter then (none, startField (fields ++ [[]]))
  else if d.isTerminator a then (some (fields ++ [[]]), startRecord)
  else (none, inField fields [a])

/-- Read a later symbol of a field that is not inside of quotes. -/
def stepField (d : Dialect α) (fields : List (List α)) (field : List α) (a : α) :
    Option (List (List α)) × Scanner α :=
  if a = d.delimiter then (none, startField (fields ++ [field]))
  else if d.isTerminator a then (some (fields ++ [field]), startRecord)
  else (none, inField fields (field ++ [a]))

/-- Read one symbol, and return the record it completes. -/
def step (d : Dialect α) : Scanner α → α → Option (List (List α)) × Scanner α
  | startRecord, a => if d.isTerminator a then (none, startRecord) else stepStart d [] a
  | startField fields, a => stepStart d fields a
  | inField fields field, a => stepField d fields field a
  | inQuotedField fields field, a =>
    if a = d.quote then (none, inDoubleEscapedQuote fields field)
    else (none, inQuotedField fields (field ++ [a]))
  | inDoubleEscapedQuote fields field, a =>
    if a = d.quote then (none, inQuotedField fields (field ++ [a]))
    else stepField d fields field a

/-- Read a text, and return the records it completes. -/
def scan (d : Dialect α) : Scanner α → List α → List (List (List α)) × Scanner α
  | c, [] => ([], c)
  | c, a :: s =>
    let r := step d c a
    let rs := scan d r.2 s
    (r.1.toList ++ rs.1, rs.2)

/-- The records of a text, read from `c` on. -/
def recordsFrom (d : Dialect α) (c : Scanner α) (s : List α) : List (List (List α)) :=
  (scan d c s).1 ++ (scan d c s).2.flush.toList

/-- The records of a text. -/
def records (d : Dialect α) (s : List α) : List (List (List α)) :=
  recordsFrom d startRecord s

variable {d : Dialect α} {d' : Dialect β} {e : α → List β}

@[simp] theorem scan_nil (c : Scanner α) : scan d c [] = ([], c) :=
  rfl

theorem scan_cons (c : Scanner α) (a : α) (s : List α) :
    scan d c (a :: s) = ((step d c a).1.toList ++ (scan d (step d c a).2 s).1,
      (scan d (step d c a).2 s).2) :=
  rfl

@[simp] theorem scan_singleton (c : Scanner α) (a : α) :
    scan d c [a] = ((step d c a).1.toList, (step d c a).2) := by
  simp [scan_cons]

/-- A text is read part by part. -/
theorem scan_append (c : Scanner α) (s t : List α) :
    scan d c (s ++ t) = ((scan d c s).1 ++ (scan d (scan d c s).2 t).1,
      (scan d (scan d c s).2 t).2) := by
  induction s generalizing c with
  | nil => simp
  | cons a s ih => simp [scan_cons, ih]

theorem recordsFrom_append (c : Scanner α) (s t : List α) :
    recordsFrom d c (s ++ t) = (scan d c s).1 ++ recordsFrom d (scan d c s).2 t := by
  simp [recordsFrom, scan_append]

/-! ## Line endings -/

/-- Outside of quotes a terminator completes what the end of the text would. -/
theorem step_terminator {c : Scanner α} (hc : c.quoted = false) {a : α}
    (ha : d.isTerminator a) : step d c a = (c.flush, startRecord) := by
  have hdelim := Dialect.ne_delimiter_of_isTerminator ha
  have hquote := Dialect.ne_quote_of_isTerminator ha
  cases c with
  | startRecord => simp [step, ha, flush]
  | startField fields => simp [step, stepStart, hdelim, hquote, ha, flush]
  | inField fields field => simp [step, stepField, hdelim, ha, flush]
  | inQuotedField fields field => simp [quoted] at hc
  | inDoubleEscapedQuote fields field => simp [step, stepField, hdelim, hquote, ha, flush]

/-- Inside of quotes a terminator is data. -/
theorem quoted_step_terminator {c : Scanner α} (hc : c.quoted) {a : α}
    (ha : d.isTerminator a) : (step d c a).2.quoted := by
  have hquote := Dialect.ne_quote_of_isTerminator ha
  cases c with
  | inQuotedField fields field => simp [step, hquote, quoted]
  | _ => simp [quoted] at hc

/-- A line that is read outside of quotes at its end. -/
theorem scan_append_lf {c : Scanner α} {l : List α} (h : (scan d c l).2.quoted = false) :
    scan d c (l ++ [d.lf]) = (recordsFrom d c l, startRecord) := by
  rw [scan_append, scan_singleton, step_terminator h d.isTerminator_lf]
  rfl

theorem scan_append_crlf {c : Scanner α} {l : List α} (h : (scan d c l).2.quoted = false) :
    scan d c (l ++ [d.cr, d.lf]) = (recordsFrom d c l, startRecord) := by
  rw [scan_append, scan_cons, scan_singleton, step_terminator h d.isTerminator_cr,
    step_terminator rfl d.isTerminator_lf]
  simp [recordsFrom, flush]

/-- A reader that is between two records after a line feed was outside of quotes. -/
theorem quoted_eq_false_of_append_lf {c : Scanner α} {l : List α}
    (h : (scan d c (l ++ [d.lf])).2 = startRecord) : (scan d c l).2.quoted = false := by
  by_contra hq
  have hquoted : (scan d c l).2.quoted := by simpa using hq
  have hlf := quoted_step_terminator hquoted d.isTerminator_lf
  rw [scan_append, scan_singleton] at h
  rw [h] at hlf
  simp [quoted] at hlf

/-! ## The fields of a line

A line is read inside of one record if it completes none. Its fields are then compared with
its pieces, which are what stands between its delimiters whether or not these are quoted. -/

namespace Scanner

/-- The complete fields of the record that is read. -/
def fields : Scanner α → List (List α)
  | startRecord => []
  | startField fields => fields
  | inField fields _ => fields
  | inQuotedField fields _ => fields
  | inDoubleEscapedQuote fields _ => fields

/-- What was read of the current field. -/
def field : Scanner α → List α
  | startRecord => []
  | startField _ => []
  | inField _ field => field
  | inQuotedField _ field => field
  | inDoubleEscapedQuote _ field => field

omit [DecidableEq α] in
theorem flush_eq {c : Scanner α} (hc : c ≠ startRecord) :
    c.flush = some (c.fields ++ [c.field]) := by
  cases c with
  | startRecord => exact absurd rfl hc
  | _ => rfl

end Scanner

/-- The reader goes on in the same field, which grows by the symbol or by nothing. -/
def Grows (a : α) (c c' : Scanner α) : Prop :=
  c'.fields = c.fields ∧ (c'.field = c.field ∨ c'.field = c.field ++ [a])

/-- What a symbol does inside of a record that it does not complete. -/
theorem step_cases {c : Scanner α} (hc : c ≠ startRecord) {a : α} (h : (step d c a).1 = none) :
    (step d c a).2 ≠ startRecord ∧ (Grows a c (step d c a).2 ∧ (a = d.delimiter → c.quoted) ∨
      a = d.delimiter ∧ (step d c a).2 = startField (c.fields ++ [c.field])) := by
  have hstart : ∀ fs, (stepStart d fs a).1 = none → (stepStart d fs a).2 ≠ startRecord ∧
      (Grows a (startField fs) (stepStart d fs a).2 ∧ a ≠ d.delimiter ∨
        a = d.delimiter ∧ (stepStart d fs a).2 = startField (fs ++ [[]])) := by
    intro fs hnone
    unfold stepStart at hnone ⊢
    split_ifs at hnone ⊢ with hquote hdelim
    · refine ⟨nofun, Or.inl ⟨⟨rfl, Or.inl rfl⟩, ?_⟩⟩
      rw [hquote]
      exact d.delimiter_ne_quote.symm
    · exact ⟨nofun, Or.inr ⟨hdelim, rfl⟩⟩
    · exact ⟨nofun, Or.inl ⟨⟨rfl, Or.inr rfl⟩, hdelim⟩⟩
  have hfield : ∀ fs f, (stepField d fs f a).1 = none → (stepField d fs f a).2 ≠ startRecord ∧
      (Grows a (inField fs f) (stepField d fs f a).2 ∧ a ≠ d.delimiter ∨
        a = d.delimiter ∧ (stepField d fs f a).2 = startField (fs ++ [f])) := by
    intro fs f hnone
    unfold stepField at hnone ⊢
    split_ifs at hnone ⊢ with hdelim
    · exact ⟨nofun, Or.inr ⟨hdelim, rfl⟩⟩
    · exact ⟨nofun, Or.inl ⟨⟨rfl, Or.inr rfl⟩, hdelim⟩⟩
  cases c with
  | startRecord => exact absurd rfl hc
  | startField fs =>
    exact (hstart fs h).imp_right fun h => h.imp_left fun h => ⟨h.1, fun ha => absurd ha h.2⟩
  | inField fs f =>
    exact (hfield fs f h).imp_right fun h => h.imp_left fun h => ⟨h.1, fun ha => absurd ha h.2⟩
  | inQuotedField fs f =>
    rw [step]
    split_ifs
    · exact ⟨nofun, Or.inl ⟨⟨rfl, Or.inl rfl⟩, fun _ => rfl⟩⟩
    · exact ⟨nofun, Or.inl ⟨⟨rfl, Or.inr rfl⟩, fun _ => rfl⟩⟩
  | inDoubleEscapedQuote fs f =>
    rw [step] at h ⊢
    split_ifs at h ⊢ with hquote
    · refine ⟨nofun, Or.inl ⟨⟨rfl, Or.inr rfl⟩, fun ha => ?_⟩⟩
      exact absurd (ha.symm.trans hquote) d.delimiter_ne_quote
    · exact (hfield fs f h).imp_right fun h => h.imp_left fun h => ⟨h.1, fun ha => absurd ha h.2⟩

/-- A text that completes no record, read symbol by symbol. -/
theorem scan_cons_eq_nil {c : Scanner α} {a : α} {s : List α} (h : (scan d c (a :: s)).1 = []) :
    (step d c a).1 = none ∧ (scan d (step d c a).2 s).1 = [] := by
  rw [scan_cons, List.append_eq_nil_iff, Option.toList_eq_nil_iff] at h
  exact h

/-- A record only grows, at its end. -/
theorem flush_scan {s : List α} : ∀ {c : Scanner α}, c ≠ startRecord → (scan d c s).1 = [] →
    ∃ t rest, (scan d c s).2.flush = some (c.fields ++ (c.field ++ t) :: rest) := by
  induction s with
  | nil =>
    intro c hc _
    exact ⟨[], [], by rw [scan_nil, flush_eq hc, List.append_nil]⟩
  | cons a s ih =>
    intro c hc h
    obtain ⟨hnone, hrest⟩ := scan_cons_eq_nil h
    obtain ⟨hopen, hstep⟩ := step_cases hc hnone
    obtain ⟨t, rest, hflush⟩ := ih hopen hrest
    rw [scan_cons]
    rcases hstep with ⟨⟨hfields, hfield | hfield⟩, -⟩ | ⟨-, hstart⟩
    · exact ⟨t, rest, by rw [hflush, hfields, hfield]⟩
    · exact ⟨a :: t, rest, by rw [hflush, hfields, hfield, List.append_assoc]; rfl⟩
    · refine ⟨[], t :: rest, ?_⟩
      rw [hflush, hstart, List.append_nil]
      simp [fields, field]

/-- A piece is read in one field, which gets no more quotes than the piece has. -/
theorem scan_piece {p : List α} (hp : d.delimiter ∉ p) : ∀ {c : Scanner α}, c ≠ startRecord →
    (scan d c p).1 = [] → (scan d c p).2 ≠ startRecord ∧ (scan d c p).2.fields = c.fields ∧
      (scan d c p).2.field.count d.quote ≤ c.field.count d.quote + p.count d.quote := by
  induction p with
  | nil =>
    intro c hc _
    exact ⟨hc, rfl, le_rfl⟩
  | cons a p ih =>
    intro c hc h
    obtain ⟨ha, hp⟩ := not_or.mp (mt List.mem_cons.mpr hp)
    obtain ⟨hnone, hrest⟩ := scan_cons_eq_nil h
    obtain ⟨hopen, hstep⟩ := step_cases hc hnone
    obtain ⟨hopen', hfields', hcount⟩ := ih hp hopen hrest
    rw [scan_cons]
    refine ⟨hopen', ?_, hcount.trans ?_⟩
    · rcases hstep with ⟨⟨hfields, -⟩, -⟩ | ⟨hdelim, -⟩
      · rw [hfields', hfields]
      · exact absurd hdelim.symm ha
    · rcases hstep with ⟨⟨-, hfield | hfield⟩, -⟩ | ⟨hdelim, -⟩
      · rw [hfield, List.count_cons]
        omega
      · rw [hfield, List.count_append, List.count_cons, List.count_cons, List.count_nil]
        omega
      · exact absurd hdelim.symm ha

/-- Outside of quotes a piece is read as it is. -/
theorem scan_inField_piece {p : List α} (hp : d.delimiter ∉ p) : ∀ {fs : List (List α)}
    {f : List α}, (scan d (inField fs f) p).1 = [] →
      (scan d (inField fs f) p).2 = inField fs (f ++ p) := by
  induction p with
  | nil =>
    intro fs f _
    rw [scan_nil, List.append_nil]
  | cons a p ih =>
    intro fs f h
    obtain ⟨ha, hp⟩ := not_or.mp (mt List.mem_cons.mpr hp)
    obtain ⟨hnone, hrest⟩ := scan_cons_eq_nil h
    have hstep : (step d (inField fs f) a).2 = inField fs (f ++ [a]) := by
      rw [step, stepField, if_neg (Ne.symm ha)] at hnone ⊢
      split_ifs at hnone ⊢
      rfl
    rw [hstep] at hrest
    rw [scan_cons, hstep, ih hp hrest, List.append_assoc, List.singleton_append]

/-- A piece that does not begin with a quote is the field. -/
theorem scan_plain_piece {p : List α} (hp : d.delimiter ∉ p) (hquote : p.head? ≠ some d.quote)
    {fs : List (List α)} (h : (scan d (startField fs) p).1 = []) :
    (scan d (startField fs) p).2.quoted = false ∧ (scan d (startField fs) p).2.field = p := by
  cases p with
  | nil => exact ⟨rfl, rfl⟩
  | cons a p =>
    obtain ⟨ha, hp⟩ := not_or.mp (mt List.mem_cons.mpr hp)
    obtain ⟨hnone, hrest⟩ := scan_cons_eq_nil h
    have hstep : (step d (startField fs) a).2 = inField fs [a] := by
      have hne : a ≠ d.quote := fun heq => hquote (congrArg some heq)
      rw [step, stepStart, if_neg hne, if_neg (Ne.symm ha)] at hnone ⊢
      split_ifs at hnone ⊢
      rfl
    rw [hstep] at hrest
    rw [scan_cons, hstep, scan_inField_piece hp hrest]
    exact ⟨rfl, rfl⟩

/-- A piece that begins with a quote has more quotes than what is read of it. -/
theorem scan_quoted_piece {p : List α} (hp : d.delimiter ∉ p) (hquote : p.head? = some d.quote)
    {fs : List (List α)} (h : (scan d (startField fs) p).1 = []) :
    (scan d (startField fs) p).2.field.count d.quote < p.count d.quote := by
  cases p with
  | nil => cases hquote
  | cons a p =>
    obtain rfl : a = d.quote := Option.some.inj hquote
    obtain ⟨-, hrest⟩ := scan_cons_eq_nil h
    have hstep : (step d (startField fs) d.quote).2 = inQuotedField fs [] := by
      rw [step, stepStart, if_pos rfl]
    have hcount := (scan_piece (not_or.mp (mt List.mem_cons.mpr hp)).2 (c := inQuotedField fs [])
      nofun (hstep ▸ hrest)).2.2
    rw [scan_cons, hstep, List.count_cons_self]
    exact Nat.lt_succ_of_le (by simpa [field] using hcount)

/-- How a piece of a line was read as a field : as it is, or with its quotes taken off, which
may have hidden delimiters. -/
def ReadAs (d : Dialect α) (p f : List α) : Prop :=
  if p.head? = some d.quote then d.delimiter ∈ f ∨ f.count d.quote < p.count d.quote else f = p

theorem readAs_piece {p : List α} (hp : d.delimiter ∉ p) {fs : List (List α)}
    (h : (scan d (startField fs) p).1 = []) :
    ReadAs d p (scan d (startField fs) p).2.field := by
  unfold ReadAs
  split_ifs with hquote
  · exact Or.inr (scan_quoted_piece hp hquote h)
  · exact (scan_plain_piece hp hquote h).2

/-- Inside of quotes a delimiter is data. -/
theorem step_delimiter_quoted {c : Scanner α} (hc : c.quoted) :
    step d c d.delimiter = (none, inQuotedField c.fields (c.field ++ [d.delimiter])) := by
  cases c with
  | inQuotedField fs f => simp [step, d.delimiter_ne_quote, fields, field]
  | _ => simp [quoted] at hc

/-- Outside of quotes a delimiter completes the field. -/
theorem step_delimiter {c : Scanner α} (hc : c ≠ startRecord) (hq : c.quoted = false) :
    step d c d.delimiter = (none, startField (c.fields ++ [c.field])) := by
  cases c with
  | startRecord => exact absurd rfl hc
  | inQuotedField => simp [quoted] at hq
  | _ => simp [step, stepStart, stepField, d.delimiter_ne_quote, fields, field]

/-- The last piece of a line. -/
theorem readAs_last {p : List α} (hp : d.delimiter ∉ p) {fs : List (List α)}
    (h : (scan d (startField fs) p).1 = []) :
    ∃ f, (scan d (startField fs) p).2.flush = some (fs ++ [f]) ∧ ReadAs d p f := by
  obtain ⟨hopen, hfields, -⟩ := scan_piece hp (c := startField fs) nofun h
  exact ⟨_, by rw [flush_eq hopen, hfields]; rfl, readAs_piece hp h⟩

/-- A piece with another one after it : the reader goes on with the next field, or the
delimiter was quoted. -/
theorem readAs_cons {p s : List α} (hp : d.delimiter ∉ p) {fs : List (List α)}
    (h : (scan d (startField fs) (p ++ d.delimiter :: s)).1 = []) :
    (∃ f, scan d (startField fs) (p ++ d.delimiter :: s) = scan d (startField (fs ++ [f])) s ∧
      ReadAs d p f) ∨
    p.head? = some d.quote ∧ ∃ f rest, d.delimiter ∈ f ∧
      (scan d (startField fs) (p ++ d.delimiter :: s)).2.flush = some (fs ++ f :: rest) := by
  rw [scan_append] at h ⊢
  obtain ⟨hfirst, hsecond⟩ := List.append_eq_nil_iff.mp h
  obtain ⟨hopen, hfields, -⟩ := scan_piece hp (c := startField fs) nofun hfirst
  rw [hfirst, List.nil_append]
  have hrest := (scan_cons_eq_nil hsecond).2
  cases hq : (scan d (startField fs) p).2.quoted with
  | false =>
    refine Or.inl ⟨(scan d (startField fs) p).2.field, ?_, readAs_piece hp hfirst⟩
    rw [scan_cons, step_delimiter hopen hq, hfields]
    rfl
  | true =>
    have hquote : p.head? = some d.quote := by
      by_contra hne
      rw [(scan_plain_piece hp hne hfirst).1] at hq
      cases hq
    rw [step_delimiter_quoted hq] at hrest
    obtain ⟨t, rest, hflush⟩ := flush_scan (c := inQuotedField _ _) nofun hrest
    refine Or.inr ⟨hquote, (scan d (startField fs) p).2.field ++ [d.delimiter] ++ t, rest,
      by simp, ?_⟩
    rw [scan_cons, step_delimiter_quoted hq, hflush, fields, hfields]
    rfl

/-- A record that was begun with the field `f` has it. -/
theorem exists_cons_of_flush {s : List α} {fs r : List (List α)} {f : List α}
    (h : (scan d (startField (fs ++ [f])) s).1 = [])
    (hr : (scan d (startField (fs ++ [f])) s).2.flush = some (fs ++ r)) : ∃ r', r = f :: r' := by
  obtain ⟨t, rest, hflush⟩ := flush_scan (c := startField (fs ++ [f])) nofun h
  have heq := Option.some.inj (hr.symm.trans hflush)
  rw [fields, List.append_assoc] at heq
  exact ⟨_, List.append_cancel_left heq⟩

/-- The pieces of a line and its fields, up to the first field that has a delimiter in it. -/
theorem readAs_getElem {j : Nat} : ∀ {l : List α} {fs r : List (List α)},
    (scan d (startField fs) l).1 = [] → (scan d (startField fs) l).2.flush = some (fs ++ r) →
      (∀ f ∈ r.take j, d.delimiter ∉ f) → j < r.length →
        ∃ p f, (l.splitOn d.delimiter)[j]? = some p ∧ r[j]? = some f ∧ d.delimiter ∉ p ∧
          ReadAs d p f := by
  induction j with
  | zero =>
    intro l fs r h hr _ _
    by_cases hmem : d.delimiter ∈ l
    · obtain ⟨p, s, rfl, hp⟩ := List.eq_append_cons_of_mem hmem
      rw [List.splitOn_append_cons_self_of_not_mem hp]
      rcases readAs_cons hp h with ⟨f, hscan, hread⟩ | ⟨hquote, f, rest, hdelim, hflush⟩
      · obtain ⟨r', rfl⟩ := exists_cons_of_flush (hscan ▸ h) (hscan ▸ hr)
        exact ⟨p, f, rfl, rfl, hp, hread⟩
      · obtain rfl := List.append_cancel_left (Option.some.inj (hflush.symm.trans hr))
        exact ⟨p, f, rfl, rfl, hp, by rw [ReadAs, if_pos hquote]; exact Or.inl hdelim⟩
    · obtain ⟨f, hflush, hread⟩ := readAs_last hmem h
      obtain rfl := List.append_cancel_left (Option.some.inj (hflush.symm.trans hr))
      rw [List.splitOn_eq_singleton hmem]
      exact ⟨l, f, rfl, rfl, hmem, hread⟩
  | succ j ih =>
    intro l fs r h hr hplain hj
    by_cases hmem : d.delimiter ∈ l
    · obtain ⟨p, s, rfl, hp⟩ := List.eq_append_cons_of_mem hmem
      rw [List.splitOn_append_cons_self_of_not_mem hp]
      rcases readAs_cons hp h with ⟨f, hscan, -⟩ | ⟨-, f, rest, hdelim, hflush⟩
      · rw [hscan] at h hr
        obtain ⟨r', rfl⟩ := exists_cons_of_flush h hr
        refine ih h (r := r') (by rw [hr]; simp) (fun g hg => hplain g ?_) (by simpa using hj)
        exact List.mem_cons_of_mem f hg
      · obtain rfl := List.append_cancel_left (Option.some.inj (hflush.symm.trans hr))
        exact absurd hdelim (hplain f List.mem_cons_self)
    · obtain ⟨f, hflush, -⟩ := readAs_last hmem h
      obtain rfl := List.append_cancel_left (Option.some.inj (hflush.symm.trans hr))
      exact absurd hj (by simp)

theorem scan_startRecord_eq {l : List α} (h : l.head?.map d.isTerminator = some false) :
    scan d startRecord l = scan d (startField []) l := by
  obtain ⟨a, hhead, ha⟩ := Option.map_eq_some_iff.mp h
  obtain ⟨s, rfl⟩ := List.head?_eq_some_iff.mp hhead
  have hstep : step d startRecord a = step d (startField []) a := by
    rw [step, ha]
    rfl
  rw [scan_cons, scan_cons, hstep]

/-- The line reads as the record `r` : it does not begin with a line ending, no record is completed
inside of it, and its end completes `r`. -/
def ReadsTo (d : Dialect α) (l : List α) (r : List (List α)) : Prop :=
  l.head?.map d.isTerminator = some false ∧ (scan d startRecord l).1 = [] ∧
    (scan d startRecord l).2.flush = some r

instance (l : List α) (r : List (List α)) : Decidable (ReadsTo d l r) :=
  inferInstanceAs (Decidable (_ ∧ _ ∧ _))

/-- The pieces of a line and the fields that are read from it. -/
theorem ReadsTo.readAs {l : List α} {r : List (List α)} (h : ReadsTo d l r) {j : Nat}
    (hplain : ∀ f ∈ r.take j, d.delimiter ∉ f) (hj : j < r.length) :
    ∃ p f, (l.splitOn d.delimiter)[j]? = some p ∧ r[j]? = some f ∧ d.delimiter ∉ p ∧
      ReadAs d p f := by
  have hscan := scan_startRecord_eq h.1
  refine readAs_getElem (hscan ▸ h.2.1) ?_ hplain hj
  rw [← hscan, h.2.2]
  rfl

/-- The line is one record : it does not begin with a line ending, no record is completed
inside of it, and its quotes are closed. -/
def OneRecord (d : Dialect α) (l : List α) : Prop :=
  l.head?.map d.isTerminator = some false ∧ (scan d startRecord l).1 = [] ∧
    (scan d startRecord l).2.quoted = false

instance (l : List α) : Decidable (OneRecord d l) :=
  inferInstanceAs (Decidable (_ ∧ _ ∧ _))

/-- The fields of a line that is one record. -/
def fieldsOf (d : Dialect α) (l : List α) : List (List α) :=
  (scan d startRecord l).2.flush.getD []

namespace OneRecord

variable {l : List α} (h : OneRecord d l)

include h

theorem flush_eq : (scan d startRecord l).2.flush = some (fieldsOf d l) := by
  have hscan := scan_startRecord_eq h.1
  obtain ⟨t, rest, hflush⟩ := flush_scan (c := startField []) nofun (hscan ▸ h.2.1)
  rw [fieldsOf, hscan, hflush]
  rfl

theorem readsTo : ReadsTo d l (fieldsOf d l) :=
  ⟨h.1, h.2.1, h.flush_eq⟩

theorem recordsFrom_eq : recordsFrom d startRecord l = [fieldsOf d l] := by
  rw [recordsFrom, h.2.1, h.flush_eq]
  rfl

/-- The rest of the text is read after it. -/
theorem recordsFrom_lf (s : List α) :
    recordsFrom d startRecord (l ++ d.lf :: s) = fieldsOf d l :: recordsFrom d startRecord s := by
  rw [← List.singleton_append, ← List.append_assoc, recordsFrom_append, scan_append_lf h.2.2,
    h.recordsFrom_eq]
  rfl

theorem recordsFrom_crlf (s : List α) :
    recordsFrom d startRecord (l ++ d.cr :: d.lf :: s) =
      fieldsOf d l :: recordsFrom d startRecord s := by
  have hsplit : l ++ d.cr :: d.lf :: s = (l ++ [d.cr, d.lf]) ++ s := by simp
  rw [hsplit, recordsFrom_append, scan_append_crlf h.2.2, h.recordsFrom_eq]
  rfl

theorem recordsFrom_cr : recordsFrom d startRecord (l ++ [d.cr]) = [fieldsOf d l] := by
  rw [recordsFrom, scan_append, scan_singleton, step_terminator h.2.2 d.isTerminator_cr, h.2.1,
    h.flush_eq]
  rfl

end OneRecord

/-! ## The parts of a text -/

/-- The records that each part of a text completes, the last part with what the end of the text
completes. -/
def recordsOfParts (d : Dialect α) : Scanner α → List (List α) → List (List (List (List α)))
  | _, [] => []
  | c, [s] => [recordsFrom d c s]
  | c, s :: t :: parts => (scan d c s).1 :: recordsOfParts d (scan d c s).2 (t :: parts)

@[simp] theorem length_recordsOfParts (c : Scanner α) (parts : List (List α)) :
    (recordsOfParts d c parts).length = parts.length := by
  induction c, parts using recordsOfParts.induct d with
  | case1 => rfl
  | case2 => rfl
  | case3 c s t parts ih => exact congrArg (· + 1) ih

theorem flatten_recordsOfParts (parts : List (List α)) :
    (recordsOfParts d startRecord parts).flatten = records d parts.flatten := by
  have hfrom : ∀ c : Scanner α, parts ≠ [] →
      (recordsOfParts d c parts).flatten = recordsFrom d c parts.flatten := by
    intro c
    induction c, parts using recordsOfParts.induct d with
    | case1 => exact fun h => absurd rfl h
    | case2 c s => simp [recordsOfParts]
    | case3 c s t parts ih =>
      intro _
      rw [recordsOfParts, List.flatten_cons, ih (List.cons_ne_nil t parts)]
      exact (recordsFrom_append c s (t :: parts).flatten).symm
  cases parts with
  | nil => rfl
  | cons s parts => exact hfrom startRecord (List.cons_ne_nil s parts)

/-- The records of the parts without the first one of all. -/
def dropFirst {ρ : Type*} : List (List ρ) → List (List ρ)
  | [] => []
  | [] :: parts => [] :: dropFirst parts
  | (_ :: rs) :: parts => rs :: parts

@[simp] theorem length_dropFirst {ρ : Type*} (parts : List (List ρ)) :
    (dropFirst parts).length = parts.length := by
  fun_induction dropFirst parts with
  | case1 => rfl
  | case2 parts ih => rw [List.length_cons, ih, List.length_cons]
  | case3 => rfl

theorem flatten_dropFirst {ρ : Type*} (parts : List (List ρ)) :
    (dropFirst parts).flatten = parts.flatten.tail := by
  fun_induction dropFirst parts with
  | case1 => rfl
  | case2 parts ih => simpa using ih
  | case3 => rfl

/-- The rows that each part of a text completes : the records behind the first one that are as
wide as it. -/
def rowsOfParts (d : Dialect α) (parts : List (List α)) : List Nat :=
  let rs := recordsOfParts d startRecord parts
  (dropFirst rs).map (List.countP fun r => r.length = (rs.flatten.headD []).length)

@[simp] theorem length_rowsOfParts (parts : List (List α)) :
    (rowsOfParts d parts).length = parts.length := by
  simp [rowsOfParts]

theorem sum_rowsOfParts (parts : List (List α)) :
    (rowsOfParts d parts).sum = (records d parts.flatten).tail.countP
      fun r => r.length = ((records d parts.flatten).headD []).length := by
  rw [rowsOfParts, ← List.countP_flatten, flatten_dropFirst, flatten_recordsOfParts]

/-! ## Encodings -/

/-- The encoding keeps the special symbols and uses them for nothing else. -/
structure Encodes (d : Dialect α) (d' : Dialect β) (e : α → List β) : Prop where
  delimiter : e d.delimiter = [d'.delimiter]
  quote : e d.quote = [d'.quote]
  cr : e d.cr = [d'.cr]
  lf : e d.lf = [d'.lf]
  ne_nil : ∀ a, e a ≠ []
  plain : ∀ a, d.isPlain a → ∀ b ∈ e a, d'.isPlain b

theorem step_inField_plain (fields : List (List α)) (field : List α) {a : α} (ha : d.isPlain a) :
    step d (inField fields field) a = (none, inField fields (field ++ [a])) := by
  obtain ⟨hdelim, -, hterm⟩ := Dialect.isPlain_iff.mp ha
  simp [step, stepField, hdelim, hterm]

theorem step_inQuotedField_plain (fields : List (List α)) (field : List α) {a : α}
    (ha : d.isPlain a) :
    step d (inQuotedField fields field) a = (none, inQuotedField fields (field ++ [a])) := by
  simp [step, (Dialect.isPlain_iff.mp ha).2.1]

theorem scan_inField_plain (fields : List (List α)) (field : List α) {s : List α}
    (hs : ∀ a ∈ s, d.isPlain a) :
    scan d (inField fields field) s = ([], inField fields (field ++ s)) := by
  induction s generalizing field with
  | nil => simp
  | cons a s ih =>
    obtain ⟨ha, hs⟩ := List.forall_mem_cons.mp hs
    simp [scan_cons, step_inField_plain fields field ha, ih _ hs]

theorem scan_inQuotedField_plain (fields : List (List α)) (field : List α) {s : List α}
    (hs : ∀ a ∈ s, d.isPlain a) :
    scan d (inQuotedField fields field) s = ([], inQuotedField fields (field ++ s)) := by
  induction s generalizing field with
  | nil => simp
  | cons a s ih =>
    obtain ⟨ha, hs⟩ := List.forall_mem_cons.mp hs
    simp [scan_cons, step_inQuotedField_plain fields field ha, ih _ hs]

omit [DecidableEq α] [DecidableEq β] in
theorem flush_map (c : Scanner α) :
    (c.map e).flush = c.flush.map (List.map (List.flatMap e)) := by
  cases c <;> simp [Scanner.map, flush]

omit [DecidableEq α] [DecidableEq β] in
@[simp] theorem quoted_map (c : Scanner α) : (c.map e).quoted = c.quoted := by
  cases c <;> rfl

namespace Encodes

variable (h : Encodes d d' e)

include h

theorem scan_delimiter (c : Scanner α) :
    scan d' (c.map e) (e d.delimiter) =
      ((step d c d.delimiter).1.toList.map (List.map (List.flatMap e)),
        (step d c d.delimiter).2.map e) := by
  rw [h.delimiter, scan_singleton]
  cases c <;>
    simp [step, stepStart, stepField, Scanner.map, Dialect.isTerminator_delimiter,
      Dialect.delimiter_ne_quote, h.delimiter]

theorem scan_quote (c : Scanner α) :
    scan d' (c.map e) (e d.quote) =
      ((step d c d.quote).1.toList.map (List.map (List.flatMap e)),
        (step d c d.quote).2.map e) := by
  rw [h.quote, scan_singleton]
  cases c <;>
    simp [step, stepStart, stepField, Scanner.map, Dialect.isTerminator_quote,
      d.delimiter_ne_quote.symm, d'.delimiter_ne_quote.symm, h.quote]

theorem scan_terminator (c : Scanner α) {a : α} (ha : d.isTerminator a) :
    scan d' (c.map e) (e a) =
      ((step d c a).1.toList.map (List.map (List.flatMap e)), (step d c a).2.map e) := by
  obtain ⟨b, hb, hea⟩ : ∃ b, d'.isTerminator b ∧ e a = [b] := by
    rcases (by simpa [Dialect.isTerminator] using ha : a = d.cr ∨ a = d.lf) with rfl | rfl
    · exact ⟨d'.cr, d'.isTerminator_cr, h.cr⟩
    · exact ⟨d'.lf, d'.isTerminator_lf, h.lf⟩
  cases hc : c.quoted with
  | false =>
    rw [hea, scan_singleton, step_terminator (by simpa using hc) hb, step_terminator hc ha,
      flush_map]
    cases c.flush <;> rfl
  | true =>
    cases c with
    | inQuotedField fields field =>
      simp [hea, step, Scanner.map, Dialect.ne_quote_of_isTerminator ha,
        Dialect.ne_quote_of_isTerminator hb]
    | _ => simp [quoted] at hc

theorem scan_plain (c : Scanner α) {a : α} (ha : d.isPlain a) :
    scan d' (c.map e) (e a) =
      ((step d c a).1.toList.map (List.map (List.flatMap e)), (step d c a).2.map e) := by
  obtain ⟨hdelim, hquote, hterm⟩ := Dialect.isPlain_iff.mp ha
  obtain ⟨b, bs, hea⟩ := List.exists_cons_of_ne_nil (h.ne_nil a)
  have hplain := h.plain a ha
  rw [hea] at hplain ⊢
  obtain ⟨hb, hbs⟩ := List.forall_mem_cons.mp hplain
  obtain ⟨hdelim', hquote', hterm'⟩ := Dialect.isPlain_iff.mp hb
  cases c <;>
    simp [scan_cons, step, stepStart, stepField, Scanner.map, hdelim, hquote, hterm, hdelim',
      hquote', hterm', scan_inField_plain _ _ hbs, scan_inQuotedField_plain _ _ hbs, hea]

/-- Reading the encoded text is reading the text. -/
theorem scan_flatMap (c : Scanner α) (s : List α) :
    scan d' (c.map e) (s.flatMap e) =
      ((scan d c s).1.map (List.map (List.flatMap e)), (scan d c s).2.map e) := by
  induction s generalizing c with
  | nil => rfl
  | cons a s ih =>
    have hstep : scan d' (c.map e) (e a) =
        ((step d c a).1.toList.map (List.map (List.flatMap e)), (step d c a).2.map e) := by
      by_cases hdelim : a = d.delimiter
      · exact hdelim ▸ h.scan_delimiter c
      · by_cases hquote : a = d.quote
        · exact hquote ▸ h.scan_quote c
        · cases hterm : d.isTerminator a with
          | true => exact h.scan_terminator c hterm
          | false => exact h.scan_plain c (Dialect.isPlain_iff.mpr ⟨hdelim, hquote, hterm⟩)
    rw [List.flatMap_cons, scan_append, hstep, scan_cons, ih]
    simp

theorem records_flatMap (s : List α) :
    records d' (s.flatMap e) = (records d s).map (List.map (List.flatMap e)) := by
  have hscan := h.scan_flatMap startRecord s
  change scan d' startRecord _ = _ at hscan
  rw [records, recordsFrom, hscan, flush_map, records, recordsFrom]
  cases (scan d startRecord s).2.flush <;> simp

end Encodes

end CsvReader
