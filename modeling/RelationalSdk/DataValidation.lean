import RelationalSdk.CsvReader
import RelationalSdk.Domain
import RelationalSdk.KeyedTable

/-!
# CSV validation

`data_validation.rs` : the schema of a pool, and `validate_csv_bytes`, which checks an
upload against it. The reader is that of the csv crate : it drops a byte order mark,
takes the first record as the header, and returns an error for a later record that is
not valid UTF-8 or has not as many fields as the header. chrono's date parser is the
parameter `parseFromStr`.

On valid UTF-8 the reader can be run on the characters (`readHeaders_asBytes`,
`readRecords_asBytes`), and so can the validator (`validateCsvBytes_asBytes`). An upload that
is accepted in strict mode has all columns of the schema and only records that can be read
(`exists_headers_of_valid`).
-/

namespace RelationalSdk

open Text KeyedTable CsvReader

/-! ## The reader -/

/-- The symbols of CSV as octets. -/
def byteDialect : Dialect UInt8 :=
  ⟨44, 34, 13, 10, by decide⟩

/-- The symbols of CSV as characters. -/
def charDialect : Dialect Char :=
  ⟨',', '"', '\r', '\n', by decide⟩

/-- A byte string without the byte order mark at its start. -/
def stripUtf8Bom : Bytes → Bytes
  | 0xEF :: 0xBB :: 0xBF :: b => b
  | b => b

/-- A text without the byte order mark at its start. -/
def stripBom : Str → Str
  | '\uFEFF' :: s => s
  | s => s

/-- The records of a byte string, the header first. -/
def byteRecords (b : Bytes) : List (List Bytes) :=
  records byteDialect (stripUtf8Bom b)

/-- The records of a text, the header first. -/
def textRecords (s : Str) : List (List Str) :=
  records charDialect (stripBom s)

/-- A record as text, if every field of it is valid UTF-8. -/
def decodeRecord (r : List Bytes) : Option (List Str) :=
  r.mapM fromUtf8

/-- `reader.headers()`. -/
def readHeaders (b : Bytes) : Option (List Str) :=
  match byteRecords b with
  | [] => some []
  | header :: _ => decodeRecord header

/-- `reader.records()`, an error as `none`. -/
def readRecords (b : Bytes) : List (Option (List Str)) :=
  match byteRecords b with
  | [] => []
  | header :: rs =>
    rs.map fun r => if r.length = header.length then decodeRecord r else none

/-- The header of a text. -/
def textHeaders (s : Str) : List Str :=
  (textRecords s).headD []

/-- The later records of a text, an error as `none`. -/
def textRows (s : Str) : List (Option (List Str)) :=
  (textRecords s).tail.map fun r => if r.length = (textHeaders s).length then some r else none

theorem encodes_utf8 : Encodes charDialect byteDialect String.utf8EncodeChar where
  delimiter := by decide
  quote := by decide
  cr := by decide
  lf := by decide
  ne_nil _ := String.utf8EncodeChar_ne_nil
  plain c hc b hb := by
    obtain ⟨hdelim, hquote, hterm⟩ := Dialect.isPlain_iff.mp hc
    simp only [Dialect.isTerminator, Bool.or_eq_false_iff, decide_eq_false_iff_not] at hterm
    have key : ∀ (c' : Char) (b' : UInt8), String.utf8EncodeChar c' = [b'] → b'.toNat < 128 →
        c ≠ c' → b ≠ b' :=
      fun c' b' h hlt hne => mt (eq_iff_of_mem_utf8EncodeChar hb h hlt).mp hne
    refine Dialect.isPlain_iff.mpr ⟨key ',' 44 (by decide) (by decide) hdelim,
      key '"' 34 (by decide) (by decide) hquote, ?_⟩
    simp only [Dialect.isTerminator, Bool.or_eq_false_iff, decide_eq_false_iff_not]
    exact ⟨key '\r' 13 (by decide) (by decide) hterm.1,
      key '\n' 10 (by decide) (by decide) hterm.2⟩

theorem stripUtf8Bom_asBytes (s : Str) : stripUtf8Bom (asBytes s) = asBytes (stripBom s) := by
  have hbom : String.utf8EncodeChar '\uFEFF' = [0xEF, 0xBB, 0xBF] := by decide
  cases s with
  | nil => rfl
  | cons c s =>
    by_cases hc : c = '\uFEFF'
    · subst hc
      rw [asBytes_cons, hbom]
      rfl
    · have hs : stripBom (c :: s) = c :: s := by
        unfold stripBom
        split
        · next h => exact absurd (List.cons.inj h).1 hc
        · rfl
      rw [hs]
      unfold stripUtf8Bom
      split
      · next b h =>
        -- the octets of the mark would be read as the mark
        have hdecode := utf8DecodeChar?_append c (asBytes s)
        have hmark := utf8DecodeChar?_append '\uFEFF' b
        rw [asBytes_cons] at h
        rw [hbom] at hmark
        rw [h] at hdecode
        exact absurd (Option.some.inj (hdecode.symm.trans hmark)) hc
      · rfl

theorem decodeRecord_map_asBytes (r : List Str) : decodeRecord (r.map asBytes) = some r := by
  induction r with
  | nil => rfl
  | cons f r ih =>
    simp only [decodeRecord] at ih
    simp [decodeRecord, ih]

theorem eq_map_asBytes_of_decodeRecord {r : List Bytes} {vs : List Str}
    (h : decodeRecord r = some vs) : r = vs.map asBytes := by
  induction r generalizing vs with
  | nil =>
    obtain rfl := Option.some.inj h
    rfl
  | cons f r ih =>
    rw [decodeRecord, List.mapM_cons] at h
    obtain ⟨v, hv, h⟩ := Option.bind_eq_some_iff.mp h
    obtain ⟨vs', hvs, h⟩ := Option.bind_eq_some_iff.mp h
    obtain rfl := Option.some.inj h
    rw [List.map_cons, ← fromUtf8_eq_some_iff.mp hv, ← ih hvs]

theorem byteRecords_asBytes (s : Str) :
    byteRecords (asBytes s) = (textRecords s).map (List.map asBytes) := by
  rw [byteRecords, stripUtf8Bom_asBytes]
  exact encodes_utf8.records_flatMap (stripBom s)

theorem readHeaders_asBytes (s : Str) : readHeaders (asBytes s) = some (textHeaders s) := by
  unfold readHeaders textHeaders
  rw [byteRecords_asBytes]
  cases textRecords s with
  | nil => rfl
  | cons header rs => exact decodeRecord_map_asBytes header

theorem readRecords_asBytes (s : Str) : readRecords (asBytes s) = textRows s := by
  unfold readRecords textRows textHeaders
  rw [byteRecords_asBytes]
  cases textRecords s with
  | nil => rfl
  | cons header rs => simp [Function.comp_def, decodeRecord_map_asBytes]

/-! ## Field values -/

/-- Field type constraints. -/
inductive FieldType where
  | char (max : Nat)
  | varchar (max : Nat)
  | integer
  | decimal (precision scale : Nat)
  | dateDdMmYyyy
  | flag01
  deriving DecidableEq

/-- The schema of one column. -/
structure FieldSchema where
  name : Str
  fieldType : FieldType
  nullable : Bool
  deriving DecidableEq

/-- A text without the sign at its start. -/
def stripSign : Str → Str
  | '+' :: s => s
  | '-' :: s => s
  | s => s

/-- The number a non-empty text of ASCII digits denotes. -/
def digitsValue (s : Str) : Option Nat :=
  if s ≠ [] ∧ s.all Char.isDigit then
    some (s.foldl (fun n c => 10 * n + (c.toNat - '0'.toNat)) 0)
  else none

/-- `value.parse::<i64>().is_ok()`. -/
def parsesI64 (value : Str) : Bool :=
  match digitsValue (stripSign value) with
  | some n => if value.head? = some '-' then n ≤ 2 ^ 63 else n < 2 ^ 63
  | none => false

/-- An exponent, or nothing. -/
def isExponent : Str → Bool
  | [] => true
  | c :: s => (c = 'e' || c = 'E') && (digitsValue (stripSign s)).isSome

/-- `value.parse::<f64>().is_ok()`. -/
def parsesF64 (value : Str) : Bool :=
  let s := stripSign value
  let whole := s.takeWhile Char.isDigit
  let special := ["inf".toList, "infinity".toList, "nan".toList]
  special.contains (s.map Char.toLower) ||
    match s.dropWhile Char.isDigit with
    | '.' :: t =>
      (whole ≠ [] || t.takeWhile Char.isDigit ≠ []) && isExponent (t.dropWhile Char.isDigit)
    | t => whole ≠ [] && isExponent t

/-- The checks of a decimal number, as the message of the first that fails. -/
def validateDecimal (value : Str) (precision scale : Nat) : Option String :=
  let text := String.ofList value
  if 'e' ∈ value ∨ 'E' ∈ value then
    some s!"Scientific notation is not allowed, got '{text}'"
  else if ¬parsesF64 value then
    some s!"Must be a decimal number, got '{text}'"
  else
    let value := value.dropWhile fun c => c = '+' || c = '-'
    let text := String.ofList value
    let parts := value.splitOn '.'
    if 2 < parts.length then
      some s!"Invalid decimal format, got '{text}'"
    else if parts.any fun part => !part.all Char.isDigit then
      some s!"Invalid decimal format, got '{text}'"
    else
      let decimals := if parts.length = 2 then len (parts.getD 1 []) else 0
      let totalDigits := value.countP Char.isDigit
      if scale < decimals then
        some s!"Maximum {scale} decimal places, got {decimals}"
      else if precision < totalDigits then
        some s!"Maximum {precision} total digits, got {totalDigits}"
      else none

/-- The check of a date with an optional time, which is dropped. -/
def validateDateLenient (parseFromStr : Str → Str → Bool) (value : Str) : Option String :=
  let datePart := value.takeWhile fun c => c ≠ ' ' && c ≠ 'T'
  let text := String.ofList value
  if parseFromStr datePart "%d/%m/%Y".toList || parseFromStr datePart "%Y-%m-%d".toList then none
  else some s!"Date must be DD/MM/YYYY or YYYY-MM-DD (with optional time), got '{text}'"

/-- The check of a boolean. -/
def validateFlag (value : Str) : Option String :=
  let text := String.ofList value
  let spellings := ["0", "1", "true", "false", "yes", "no", "y", "n"].map String.toList
  if spellings.contains ((trim value).map Char.toLower) then none
  else some s!"Must be a boolean (0/1, true/false, yes/no), got '{text}'"

/-- The message for a value that does not fit its column. -/
def validateFieldValue (parseFromStr : Str → Str → Bool) (value : Str) (field : FieldSchema) :
    Option String :=
  if value = [] then
    if field.nullable then none else some "field is required"
  else
    let text := String.ofList value
    let checkLength (max : Nat) : Option String :=
      let len := value.length
      if max < len then some s!"Maximum length is {max} characters, got {len}" else none
    match field.fieldType with
    | .char max => checkLength max
    | .varchar max => checkLength max
    | .integer => if parsesI64 value then none else some s!"Must be an integer, got '{text}'"
    | .decimal precision scale => validateDecimal value precision scale
    | .dateDdMmYyyy => validateDateLenient parseFromStr value
    | .flag01 => validateFlag value

/-! ## The validator -/

/-- Maximum number of validation errors returned per request. -/
def maxValidationErrors : Nat := 100

/-- One validation error. Row 0 is the header. -/
structure ValidationError where
  row : Nat
  field : Str
  message : String
  deriving DecidableEq

/-- The outcome of a validation. -/
structure ValidationSummary where
  valid : Bool
  errors : List ValidationError
  rowsValidated : Nat
  deriving DecidableEq

/-- The column each header names, the last one if several have the name. -/
def headerToIndex (headers : List Str) : Table Str Nat :=
  headers.zipIdx.foldl (fun t e => t.insert e.1 e.2) Table.empty

/-- The column that is found has the name. -/
theorem getElem?_of_headerToIndex {headers : List Str} {name : Str} {col : Nat}
    (h : (headerToIndex headers).get name = some col) : headers[col]? = some name := by
  rw [headerToIndex, Table.get_foldl_insert, Table.get_empty, Option.or_none] at h
  obtain ⟨e, he, rfl⟩ := Option.map_eq_some_iff.mp h
  have hname : e.1 = name := by simpa using List.find?_some he
  rw [← hname]
  exact List.mem_zipIdx_iff_getElem?.mp (List.mem_reverse.mp (List.mem_of_find?_eq_some he))

/-- Look for the columns of the schema, and return early with too many errors. -/
def checkMissing (index : Table Str Nat) :
    List FieldSchema → List ValidationError → Except (List ValidationError) (List ValidationError)
  | [], errors => .ok errors
  | field :: schema, errors =>
    if (index.get field.name).isSome then checkMissing index schema errors
    else
      let name := String.ofList field.name
      let errors := errors ++ [⟨0, field.name, s!"Missing required column: {name}"⟩]
      if maxValidationErrors ≤ errors.length then .error errors
      else checkMissing index schema errors

/-- Look for columns that are not in the schema. -/
def checkExtra (schema : List FieldSchema) (headers : List Str) (errors : List ValidationError) :
    List ValidationError :=
  headers.foldl (fun errors header =>
    if header ∉ schema.map FieldSchema.name ∧ errors.length < maxValidationErrors then
      let name := String.ofList header
      errors ++ [⟨0, header, s!"Unexpected column not in schema: {name}"⟩]
    else errors) errors

section Strict

variable (parseFromStr : Str → Str → Bool)

/-- Check the fields of a record. -/
def checkRecord (index : Table Str Nat) (row : Nat) (record : List Str) :
    List FieldSchema → List ValidationError → List ValidationError
  | [], errors => errors
  | field :: schema, errors =>
    if maxValidationErrors ≤ errors.length then errors
    else
      match index.get field.name with
      | none => checkRecord index row record schema errors
      | some col =>
        match validateFieldValue parseFromStr (trim (record.getD col [])) field with
        | none => checkRecord index row record schema errors
        | some message =>
          checkRecord index row record schema (errors ++ [⟨row, field.name, message⟩])

/-- Check the records, the first of which is number `row`. -/
def checkRecords (headers : List Str) (schema : List FieldSchema) (row : Nat) :
    List (Option (List Str)) → List ValidationError → Nat → List ValidationError × Nat
  | [], errors, rows => (errors, rows)
  | result :: results, errors, rows =>
    if maxValidationErrors ≤ errors.length then (errors, rows)
    else
      match result with
      | none =>
        checkRecords headers schema (row + 1) results
          (errors ++ [⟨row, "row".toList, "Malformed CSV row"⟩]) rows
      | some record =>
        let errors := checkRecord parseFromStr (headerToIndex headers) row record schema errors
        let errors :=
          if record.length < headers.length ∧ errors.length < maxValidationErrors then
            errors ++ [⟨row, "row".toList, "Row has fewer columns than header"⟩]
          else errors
        checkRecords headers schema (row + 1) results errors (rows + 1)

/-- `validate_csv_bytes` once the header has been read. -/
def validateRecords (headers : List Str) (results : List (Option (List Str)))
    (schema : List FieldSchema) (mode : ValidationMode) : ValidationSummary :=
  let okRows := results.countP Option.isSome
  if mode = .none then ⟨true, [], okRows⟩
  else
    match checkMissing (headerToIndex headers) schema [] with
    | .error errors => ⟨false, errors, 0⟩
    | .ok errors =>
      let errors := checkExtra schema headers errors
      if mode = .headersOnly then ⟨errors.isEmpty, errors, okRows⟩
      else
        let (errors, rows) := checkRecords parseFromStr headers schema 1 results errors 0
        ⟨errors.isEmpty, errors, rows⟩

/-- Check an upload against the schema. -/
def validateCsvBytes (data : Bytes) (schema : List FieldSchema) (mode : ValidationMode) :
    ValidationSummary :=
  match readHeaders data with
  | none => ⟨false, [⟨0, "header".toList, "Could not parse CSV headers"⟩], 0⟩
  | some headers => validateRecords parseFromStr headers (readRecords data) schema mode

theorem validateCsvBytes_asBytes (s : Str) (schema : List FieldSchema) (mode : ValidationMode) :
    validateCsvBytes parseFromStr (asBytes s) schema mode =
      validateRecords parseFromStr (textHeaders s) (textRows s) schema mode := by
  simp [validateCsvBytes, readHeaders_asBytes, readRecords_asBytes]

/-! ## Accepted uploads -/

/-- Errors that were found stay. -/
theorem checkMissing_ok_nil {index : Table Str Nat} {schema : List FieldSchema}
    {errors : List ValidationError} (h : checkMissing index schema errors = .ok []) :
    errors = [] ∧ ∀ field ∈ schema, (index.get field.name).isSome := by
  induction schema generalizing errors with
  | nil =>
    rw [checkMissing, Except.ok.injEq] at h
    exact ⟨h, by simp⟩
  | cons field schema ih =>
    unfold checkMissing at h
    dsimp only at h
    split_ifs at h with hfound hmany
    · obtain ⟨herrors, hschema⟩ := ih h
      exact ⟨herrors, List.forall_mem_cons.mpr ⟨hfound, hschema⟩⟩
    · exact absurd (ih h).1 (by simp)

theorem checkExtra_eq_nil {schema : List FieldSchema} {headers : List Str}
    {errors : List ValidationError} (h : checkExtra schema headers errors = []) :
    errors = [] := by
  induction headers generalizing errors with
  | nil => exact h
  | cons header headers ih =>
    have hnext := ih h
    dsimp only at hnext
    split_ifs at hnext
    · exact absurd hnext (by simp)
    · exact hnext

theorem checkRecord_eq_nil {index : Table Str Nat} {row : Nat} {record : List Str}
    {schema : List FieldSchema} {errors : List ValidationError}
    (h : checkRecord parseFromStr index row record schema errors = []) : errors = [] := by
  induction schema generalizing errors with
  | nil => exact h
  | cons field schema ih =>
    rw [checkRecord] at h
    split_ifs at h
    · exact h
    · split at h
      · exact ih h
      · split at h
        · exact ih h
        · exact absurd (ih h) (by simp)

theorem checkRecords_eq_nil {headers : List Str} {schema : List FieldSchema}
    {results : List (Option (List Str))} : ∀ {row rows : Nat} {errors : List ValidationError},
    (checkRecords parseFromStr headers schema row results errors rows).1 = [] →
      errors = [] ∧ ∀ r ∈ results, r.isSome := by
  induction results with
  | nil =>
    intro row rows errors h
    exact ⟨h, by simp⟩
  | cons result results ih =>
    intro row rows errors h
    unfold checkRecords at h
    split_ifs at h with hmany
    · rw [show errors = [] from h] at hmany
      exact absurd hmany (by decide)
    · cases result with
      | none => exact absurd (ih h).1 (by simp)
      | some record =>
        obtain ⟨herrors, hresults⟩ := ih h
        split_ifs at herrors
        · exact absurd herrors (by simp)
        · exact ⟨checkRecord_eq_nil parseFromStr herrors, List.forall_mem_cons.mpr ⟨rfl, hresults⟩⟩

/-- An upload that is accepted in strict mode has all columns of the schema, and all of its
records can be read. -/
theorem exists_headers_of_valid {data : Bytes} {schema : List FieldSchema}
    (h : (validateCsvBytes parseFromStr data schema .strict).valid) :
    ∃ headers, readHeaders data = some headers ∧
      (∀ field ∈ schema, ((headerToIndex headers).get field.name).isSome) ∧
        ∀ r ∈ readRecords data, r.isSome := by
  unfold validateCsvBytes at h
  cases hheaders : readHeaders data with
  | none =>
    rw [hheaders] at h
    cases h
  | some headers =>
    rw [hheaders] at h
    dsimp only [validateRecords] at h
    rw [if_neg (by simp)] at h
    cases hmissing : checkMissing (headerToIndex headers) schema [] with
    | error errors =>
      rw [hmissing] at h
      cases h
    | ok errors =>
      rw [hmissing] at h
      dsimp only at h
      rw [if_neg (by simp)] at h
      obtain ⟨hextra, hrecords⟩ :=
        checkRecords_eq_nil parseFromStr (List.isEmpty_iff.mp h)
      rw [checkExtra_eq_nil hextra] at hmissing
      exact ⟨headers, rfl, (checkMissing_ok_nil hmissing).2, hrecords⟩

end Strict

end RelationalSdk
