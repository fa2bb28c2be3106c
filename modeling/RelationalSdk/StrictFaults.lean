import RelationalSdk.DataValidation

/-!
# The faults that strict validation reports

`validate_csv_bytes` stops at 100 errors, which it checks at six places. `allFaults` is the list of
all faults of a file in the order of the checks : the columns of the schema that are missing, the
headers that are not in the schema, and then the faults of each record.

`strictErrors` : in strict mode the errors are the first 100 faults, and the file is valid if and
only if there is none. A column that is missing is one fault of the header and is not looked up in
the records. With an empty value in its place a required column would be reported again for every
record (`not_strictErrors_absent`).
-/

namespace RelationalSdk

open Text KeyedTable CsvReader

/-! ## The faults of a file -/

/-- The number of the last header with the name. -/
def lastHeader (headers : List Str) (name : Str) : Option Nat :=
  (headers.zipIdx.reverse.find? fun e => e.1 = name).map Prod.snd

/-- The trimmed value of a field in a record, empty if the record is too short. -/
def valueAt (headers record : List Str) (field : FieldSchema) : Option Str :=
  (lastHeader headers field.name).map fun col => trim (record.getD col [])

/-- The same, empty also if no header has the name. -/
def valueOrEmpty (headers record : List Str) (field : FieldSchema) : Option Str :=
  some ((valueAt headers record field).getD [])

/-- A column of the schema is missing. -/
def missingFault (field : FieldSchema) : ValidationError :=
  let name := String.ofList field.name
  ⟨0, field.name, s!"Missing required column: {name}"⟩

/-- A header is not in the schema. -/
def extraFault (header : Str) : ValidationError :=
  let name := String.ofList header
  ⟨0, header, s!"Unexpected column not in schema: {name}"⟩

def missingFaults (headers : List Str) (schema : List FieldSchema) : List ValidationError :=
  (schema.filter fun field => field.name ∉ headers).map missingFault

def extraFaults (headers : List Str) (schema : List FieldSchema) : List ValidationError :=
  (headers.filter fun header => header ∉ schema.map FieldSchema.name).map extraFault

section Faults

variable (parseFromStr : Str → Str → Bool)

/-- The value of a field, if there is one, does not fit. -/
def fieldFault (row : Nat) (value : FieldSchema → Option Str) (field : FieldSchema) :
    Option ValidationError :=
  (value field).bind fun v =>
    (validateFieldValue parseFromStr v field).map fun message => ⟨row, field.name, message⟩

def fieldFaults (row : Nat) (value : FieldSchema → Option Str) (schema : List FieldSchema) :
    List ValidationError :=
  schema.filterMap (fieldFault parseFromStr row value)

/-- A record with fewer fields than the header. -/
def lengthFaults (headers : List Str) (row : Nat) (record : List Str) : List ValidationError :=
  if record.length < headers.length then
    [⟨row, "row".toList, "Row has fewer columns than header"⟩]
  else []

/-- The faults of the record number `row`. -/
def recordFaults (value : List Str → FieldSchema → Option Str) (headers : List Str)
    (schema : List FieldSchema) (row : Nat) : Option (List Str) → List ValidationError
  | none => [⟨row, "row".toList, "Malformed CSV row"⟩]
  | some record =>
    fieldFaults parseFromStr row (value record) schema ++ lengthFaults headers row record

/-- All faults of a file, where `value` says what is looked up for a field. -/
def allFaults (value : List Str → FieldSchema → Option Str) (headers : List Str)
    (results : List (Option (List Str))) (schema : List FieldSchema) : List ValidationError :=
  missingFaults headers schema ++ extraFaults headers schema ++
    (results.zipIdx 1).flatMap fun e => recordFaults parseFromStr value headers schema e.2 e.1

end Faults

/-! ## Looking up a column -/

theorem get_headerToIndex (headers : List Str) (name : Str) :
    (headerToIndex headers).get name = lastHeader headers name := by
  rw [headerToIndex, Table.get_foldl_insert, lastHeader, Table.get_empty, Option.or_none]
  congr
  funext e
  congr

theorem isSome_get_headerToIndex (headers : List Str) (name : Str) :
    ((headerToIndex headers).get name).isSome ↔ name ∈ headers := by
  rw [get_headerToIndex, lastHeader, Option.isSome_map, List.find?_isSome]
  refine ⟨fun ⟨e, he, hname⟩ => ?_, fun hmem => ?_⟩
  · rw [← of_decide_eq_true hname]
    exact (List.mem_zipIdx' (List.mem_reverse.mp he)).2 ▸ List.getElem_mem _
  · obtain ⟨i, hi, rfl⟩ := List.getElem_of_mem hmem
    refine ⟨(headers[i], i), List.mem_reverse.mpr ?_, decide_eq_true rfl⟩
    exact List.mem_zipIdx_iff_getElem?.mpr (List.getElem?_eq_getElem hi)

/-! ## At most `n` errors -/

section Capped

variable {ε : Type*} {n : Nat} (es : List ε)

/-- An error is added while there are fewer than `n`. -/
theorem capped_push (e : ε) :
    (if (es.take n).length < n then es.take n ++ [e] else es.take n) = (es ++ [e]).take n := by
  rw [List.length_take]
  split_ifs with hlt
  · rw [List.take_of_length_le (by omega), List.take_of_length_le]
    rw [List.length_append, List.length_singleton]
    omega
  · rw [List.take_append_of_le_length (by omega)]

/-- Nothing is added once there are `n`. -/
theorem capped_full (hfull : n ≤ (es.take n).length) (fs : List ε) :
    es.take n = (es ++ fs).take n := by
  rw [List.length_take] at hfull
  rw [List.take_append_of_le_length (by omega)]

end Capped

theorem missingFaults_cons (headers : List Str) (field : FieldSchema)
    (schema : List FieldSchema) : missingFaults headers (field :: schema) =
      if field.name ∈ headers then missingFaults headers schema
      else missingFault field :: missingFaults headers schema := by
  unfold missingFaults
  split_ifs with hmem
  · rw [List.filter_cons_of_neg (by simpa using hmem)]
  · rw [List.filter_cons_of_pos (by simpa using hmem), List.map_cons]

theorem extraFaults_cons (header : Str) (headers : List Str) (schema : List FieldSchema) :
    extraFaults (header :: headers) schema =
      if header ∈ schema.map FieldSchema.name then extraFaults headers schema
      else extraFault header :: extraFaults headers schema := by
  unfold extraFaults
  split_ifs with hmem
  · rw [List.filter_cons_of_neg (by simpa using hmem)]
  · rw [List.filter_cons_of_pos (by simpa using hmem), List.map_cons]

/-- With `maxValidationErrors` missing columns the validator returns early. -/
theorem checkMissing_capped (headers : List Str) (schema : List FieldSchema)
    (es : List ValidationError) (hes : es.length < maxValidationErrors) :
    checkMissing (headerToIndex headers) schema es =
      if (es ++ missingFaults headers schema).length < maxValidationErrors then
        .ok (es ++ missingFaults headers schema)
      else .error ((es ++ missingFaults headers schema).take maxValidationErrors) := by
  induction schema generalizing es with
  | nil =>
    rw [missingFaults, List.filter_nil, List.map_nil, List.append_nil, if_pos hes, checkMissing]
  | cons field schema ih =>
    rw [checkMissing, missingFaults_cons]
    by_cases hmem : field.name ∈ headers
    · rw [if_pos ((isSome_get_headerToIndex headers field.name).mpr hmem), if_pos hmem, ih es hes]
    · rw [if_neg (mt (isSome_get_headerToIndex headers field.name).mp hmem), if_neg hmem,
        List.append_cons]
      change (if maxValidationErrors ≤ (es ++ [missingFault field]).length then
        .error (es ++ [missingFault field])
        else checkMissing (headerToIndex headers) schema (es ++ [missingFault field])) = _
      split_ifs with hfull hlt hlt
      · rw [List.length_append] at hlt
        omega
      · rw [List.take_append_of_le_length hfull, List.take_of_length_le]
        rw [List.length_append, List.length_singleton]
        omega
      · rw [ih _ (not_le.mp hfull), if_pos hlt]
      · rw [ih _ (not_le.mp hfull), if_neg hlt]

theorem checkExtra_capped (schema : List FieldSchema) (headers : List Str)
    (es : List ValidationError) :
    checkExtra schema headers (es.take maxValidationErrors) =
      (es ++ extraFaults headers schema).take maxValidationErrors := by
  induction headers generalizing es with
  | nil =>
    rw [extraFaults, List.filter_nil, List.map_nil, List.append_nil]
    rfl
  | cons header headers ih =>
    rw [checkExtra, List.foldl_cons, ← checkExtra, extraFaults_cons]
    by_cases hmem : header ∈ schema.map FieldSchema.name
    · rw [if_neg fun h => h.1 hmem, if_pos hmem, ih]
    · simp only [hmem, not_false_eq_true, true_and, if_false]
      rw [List.append_cons es, ← ih, ← capped_push es (extraFault header)]
      rfl

section Records

variable (parseFromStr : Str → Str → Bool)

theorem checkRecord_capped (headers : List Str) (row : Nat) (record : List Str)
    (schema : List FieldSchema) (es : List ValidationError) :
    checkRecord parseFromStr (headerToIndex headers) row record schema
        (es.take maxValidationErrors) =
      (es ++ fieldFaults parseFromStr row (valueAt headers record) schema).take
        maxValidationErrors := by
  induction schema generalizing es with
  | nil =>
    rw [fieldFaults, List.filterMap_nil, List.append_nil]
    rfl
  | cons field schema ih =>
    rw [checkRecord]
    split_ifs with hfull
    · exact capped_full es hfull _
    have hpush : ∀ e : ValidationError, es.take maxValidationErrors ++ [e] =
        (es ++ [e]).take maxValidationErrors := by
      intro e
      rw [← capped_push, if_pos (not_le.mp hfull)]
    rw [get_headerToIndex, fieldFaults]
    cases hcol : lastHeader headers field.name with
    | none =>
      have hvalue : valueAt headers record field = none := by rw [valueAt, hcol]; rfl
      rw [List.filterMap_cons_none (by rw [fieldFault, hvalue]; rfl)]
      exact ih es
    | some col =>
      have hvalue : valueAt headers record field = some (trim (record.getD col [])) := by
        rw [valueAt, hcol]
        rfl
      dsimp only
      cases hmessage : validateFieldValue parseFromStr (trim (record.getD col [])) field with
      | none =>
        rw [List.filterMap_cons_none (by rw [fieldFault, hvalue, Option.bind_some, hmessage]; rfl)]
        exact ih es
      | some message =>
        dsimp only
        rw [hpush, ih, List.append_assoc, List.singleton_append, List.filterMap_cons_some
          (by rw [fieldFault, hvalue, Option.bind_some, hmessage]; rfl)]
        rfl

/-- The records that are left, the first of which is number `row`. -/
theorem checkRecords_capped (headers : List Str) (schema : List FieldSchema)
    (results : List (Option (List Str))) (row rows : Nat) (es : List ValidationError) :
    (checkRecords parseFromStr headers schema row results (es.take maxValidationErrors) rows).1 =
      (es ++ (results.zipIdx row).flatMap fun e =>
        recordFaults parseFromStr (valueAt headers) headers schema e.2 e.1).take
          maxValidationErrors := by
  induction results generalizing row rows es with
  | nil =>
    rw [List.zipIdx_nil, List.flatMap_nil, List.append_nil]
    rfl
  | cons result results ih =>
    rw [List.zipIdx_cons, List.flatMap_cons, ← List.append_assoc]
    unfold checkRecords
    split_ifs with hfull
    · rw [List.append_assoc]
      exact capped_full es hfull _
    cases result with
    | none =>
      dsimp only
      rw [← ih, recordFaults, ← capped_push, if_pos (not_le.mp hfull)]
    | some record =>
      dsimp only
      have hlength : ∀ es : List ValidationError,
          (if record.length < headers.length ∧
              (es.take maxValidationErrors).length < maxValidationErrors then
            es.take maxValidationErrors ++
              [⟨row, "row".toList, "Row has fewer columns than header"⟩]
          else es.take maxValidationErrors) =
            (es ++ lengthFaults headers row record).take maxValidationErrors := by
        intro es
        unfold lengthFaults
        by_cases hlen : record.length < headers.length
        · simp only [hlen, true_and, if_true]
          exact capped_push es _
        · simp only [hlen, false_and, if_false, List.append_nil]
      rw [checkRecord_capped, hlength, ih, recordFaults, ← List.append_assoc]

theorem validateRecords_strict (headers : List Str) (results : List (Option (List Str)))
    (schema : List FieldSchema) :
    ∃ rows, validateRecords parseFromStr headers results schema .strict =
      ⟨((allFaults parseFromStr (valueAt headers) headers results schema).take
          maxValidationErrors).isEmpty,
        (allFaults parseFromStr (valueAt headers) headers results schema).take
          maxValidationErrors, rows⟩ := by
  have hmissing := checkMissing_capped headers schema [] (by decide)
  rw [List.nil_append] at hmissing
  unfold validateRecords
  rw [if_neg (by decide), hmissing]
  by_cases hlt : (missingFaults headers schema).length < maxValidationErrors
  · rw [if_pos hlt]
    have hextra := checkExtra_capped schema headers (missingFaults headers schema)
    rw [List.take_of_length_le hlt.le] at hextra
    dsimp only
    rw [if_neg (by decide), hextra]
    rw [checkRecords_capped, allFaults]
    exact ⟨_, rfl⟩
  · -- the early return, with as many missing columns as there may be errors
    rw [if_neg hlt]
    have htake : (allFaults parseFromStr (valueAt headers) headers results schema).take
        maxValidationErrors = (missingFaults headers schema).take maxValidationErrors := by
      rw [allFaults, List.append_assoc, List.take_append_of_le_length (not_lt.mp hlt)]
    have hne : ((missingFaults headers schema).take maxValidationErrors).isEmpty = false := by
      rw [List.isEmpty_eq_false_iff_exists_mem]
      have hlen : 0 < ((missingFaults headers schema).take maxValidationErrors).length := by
        rw [List.length_take]
        exact lt_min (by decide) ((by decide : 0 < maxValidationErrors).trans_le (not_lt.mp hlt))
      exact List.length_pos_iff_exists_mem.mp hlen
    rw [htake, hne]
    exact ⟨_, rfl⟩

end Records

/-- In strict mode the errors are the first 100 faults, and the file is valid if and only if it
has none. -/
theorem strictErrors (parseFromStr : Str → Str → Bool) (headers : List Str)
    (results : List (Option (List Str))) (schema : List FieldSchema) :
    (validateRecords parseFromStr headers results schema .strict).errors =
        (allFaults parseFromStr (valueAt headers) headers results schema).take 100 ∧
      ((validateRecords parseFromStr headers results schema .strict).valid = true ↔
        (allFaults parseFromStr (valueAt headers) headers results schema).length = 0) ∧
      ∀ data, readHeaders data = some headers → readRecords data = results →
        validateCsvBytes parseFromStr data schema .strict =
          validateRecords parseFromStr headers results schema .strict := by
  obtain ⟨rows, hsummary⟩ := validateRecords_strict parseFromStr headers results schema
  refine ⟨by rw [hsummary]; rfl, ?_, fun data hheaders hresults => ?_⟩
  · rw [hsummary, List.isEmpty_iff, List.take_eq_nil_iff, List.length_eq_zero_iff]
    exact ⟨fun h => h.resolve_left (by decide), Or.inr⟩
  · rw [validateCsvBytes, hheaders, hresults]

/-- One required column. -/
def requiredColumn : List FieldSchema :=
  [⟨"a".toList, .integer, false⟩]

/-- The required column is missing : it is reported once, and not once more for the record. -/
theorem not_strictErrors_absent :
    (validateRecords (fun _ _ => false) ["b".toList] [some ["1".toList]] requiredColumn
        .strict).errors.length = 2 ∧
      ((allFaults (fun _ _ => false) (valueOrEmpty ["b".toList]) ["b".toList] [some ["1".toList]]
        requiredColumn).take 100).length = 3 ∧
      (validateRecords (fun _ _ => false) ["b".toList] [some ["1".toList]] requiredColumn
          .strict).errors ≠
        (allFaults (fun _ _ => false) (valueOrEmpty ["b".toList]) ["b".toList]
          [some ["1".toList]] requiredColumn).take 100 := by
  decide +kernel

end RelationalSdk
