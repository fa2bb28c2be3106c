import RelationalSdk.Dataset
import RelationalSdk.Runs

/-!
# Uploads to a pool

`upload_schema`, `initialize_pool` and `issue_credentials` on one pool, as far as they
change its schema, its metadata and its data set. An upload is checked against the schema
that is stored at that moment and then written as it came, so a data set holds files that
were checked against different schemas and whose headers name the columns in different
orders.

`ColumnsAligned` is what a query relies on : a column of the concatenation is that column
of the files, one after the other. The validator compares header names as sets, so it
accepts a file whose columns stand in another order (`not_columnsAligned_swapped`).
`columnsAligned_of_cleanUploads` : the columns are aligned along every run whose accepted
uploads have the header of the files before them and are copied as they are read.
-/

namespace RelationalSdk

open Text KeyedTable CsvReader Runs

/-! ## The handlers -/

/-- Count CSV rows, without the header. -/
def countCsvRows (csvBytes : Bytes) : Nat :=
  let nonEmpty := (lines (fromUtf8Lossy csvBytes)).filter fun l => trim l ≠ []
  if 1 < nonEmpty.length then nonEmpty.length - 1 else 0

/-- A pool : `pool.meta.json`, `schema.json` and the files of its data set. -/
structure CsvPool where
  poolPda : Str
  metadata : PoolMetadata
  schema : Option (List FieldSchema)
  dataset : Table Str Bytes

/-- The file of a record. -/
def csvName (recordId : Str) : Str :=
  recordId ++ ".csv".toList

/-- The anchor of a record. -/
def metaName (recordId : Str) : Str :=
  recordId ++ ".meta.json".toList

section Handlers

variable (parseFromStr : Str → Str → Bool)

/-- Validate an upload against the stored schema. -/
def validatePayload (p : CsvPool) (csvBytes : Bytes) : Except ApiError ValidationSummary :=
  if p.metadata.validationMode = .none then
    .ok (validateCsvBytes parseFromStr csvBytes [] .none)
  else
    match p.schema with
    | none =>
      let pda := String.ofList p.poolPda
      .error (.badRequest s!"schema for pool {pda} not found — upload one to the enclave first")
    | some schema =>
      .ok (validateCsvBytes parseFromStr csvBytes schema p.metadata.validationMode)

/-- Replace the schema. -/
def uploadSchema (p : CsvPool) (schemaId : Str) (fields : List FieldSchema) :
    Except ApiError CsvPool :=
  if schemaId = [] ∨ 128 < len schemaId ∨
      ¬schemaId.all fun c => c.isAlphanum || c = '-' || c = '_' then
    .error (.badRequest
      "schema_id must be 1-128 characters, alphanumeric with hyphens/underscores only")
  else if fields = [] then
    .error (.badRequest "schema must have at least one field")
  else if p.metadata.schemaId ≠ schemaId then
    let stored := String.ofList p.metadata.schemaId
    let given := String.ofList schemaId
    .error (.badRequest s!"pool's schema_id is '{stored}', but you are uploading '{given}'")
  else .ok { p with schema := some fields }

/-- Validate an upload, and store it with its anchor and the metadata that follow. -/
def storeCsv (p : CsvPool) (recordId : Str) (csvBytes anchor : Bytes)
    (change : Nat → PoolMetadata) : Except ApiError CsvPool :=
  match validatePayload parseFromStr p csvBytes with
  | .error e => .error e
  | .ok summary =>
    if summary.valid then
      .ok { p with
        metadata := change (countCsvRows csvBytes)
        dataset :=
          (p.dataset.insert (csvName recordId) csvBytes).insert (metaName recordId) anchor }
    else
      let errors := summary.errors.length
      .error (.badRequest s!"CSV validation failed: {errors} error(s)")

/-- Seed the initial data set. -/
def initializePool (p : CsvPool) (csvBytes anchor : Bytes) : Except ApiError CsvPool :=
  if p.metadata.state ≠ .needsInit then
    .error (.badRequest "pool is already initialized — use /issue to add credentials")
  else if p.metadata.kind = .iobErp then
    .error (.conflict "IOB ERP pools cannot be initialised via dashboard upload")
  else
    storeCsv parseFromStr p "initial".toList csvBytes anchor fun rows =>
      { p.metadata with state := .ready, totalCredentials := rows }

/-- Add a data set under a new record id. -/
def issueCredentials (p : CsvPool) (recordId : Str) (csvBytes anchor : Bytes) :
    Except ApiError CsvPool :=
  if p.metadata.state ≠ .ready then
    .error (.badRequest "pool not initialized — call /initialize first")
  else if p.metadata.kind = .iobErp then
    .error (.conflict "IOB ERP pools do not accept credential issuance")
  else
    storeCsv parseFromStr p recordId csvBytes anchor fun rows =>
      { p.metadata with totalCredentials := p.metadata.totalCredentials + rows }

/-- A request to the pool. The anchor is the JSON that is written beside the file. -/
inductive UploadRequest where
  | uploadSchema (schemaId : Str) (fields : List FieldSchema)
  | initializePool (csvBytes anchor : Bytes)
  | issueCredentials (recordId : Str) (csvBytes anchor : Bytes)

/-- The CSV a request uploads. -/
def UploadRequest.upload : UploadRequest → Option Bytes
  | uploadSchema _ _ => none
  | initializePool csvBytes _ => some csvBytes
  | issueCredentials _ csvBytes _ => some csvBytes

/-- A request that fails changes nothing. The record id of an issuance is a new UUID, so
it names no file yet. -/
def uploadStep (p : CsvPool) : UploadRequest → CsvPool
  | .uploadSchema schemaId fields => (uploadSchema p schemaId fields).toOption.getD p
  | .initializePool csvBytes anchor =>
    (initializePool parseFromStr p csvBytes anchor).toOption.getD p
  | .issueCredentials recordId csvBytes anchor =>
    if isUuid recordId ∧ (p.dataset.get (csvName recordId)).isNone then
      (issueCredentials parseFromStr p recordId csvBytes anchor).toOption.getD p
    else p

end Handlers

/-- A pool as `create_pool` leaves it. -/
def newCsvPool (poolPda : Str) (kind : PoolKind) (schemaId : Str) (mode : ValidationMode) :
    CsvPool :=
  ⟨poolPda, ⟨kind, schemaId, mode, .needsInit, 0, 0⟩, none, Table.empty⟩

/-! ## Columns -/

/-- The records a reader returns without an error. -/
def okRecords (b : Bytes) : List (List Str) :=
  (readRecords b).filterMap id

/-- The values of a column in the records `rows` under `headers`. -/
def columnOf (headers : List Str) (rows : List (List Str)) (column : Str) : List Str :=
  match (headerToIndex headers).get column with
  | none => []
  | some col => rows.map fun record => record.getD col []

/-- The values of a column of a CSV file, none if it does not have the column. -/
def columnValues (b : Bytes) (column : Str) : List Str :=
  columnOf ((readHeaders b).getD []) (okRecords b) column

/-- Each column of the schema holds, in the concatenation, what it holds in the files, one
after the other. -/
def ColumnsAligned (p : CsvPool) : Prop :=
  ∀ field ∈ p.schema.getD [],
    columnValues (asBytes (loadAndConcatPoolCsvs p.dataset)) field.name =
      (csvFiles p.dataset).flatMap fun e => columnValues e.2 field.name

instance (p : CsvPool) : Decidable (ColumnsAligned p) :=
  inferInstanceAs (Decidable (∀ field ∈ p.schema.getD [], _ = _))

/-- The validator accepts the upload. -/
def accepts (parseFromStr : Str → Str → Bool) (p : CsvPool) (csvBytes : Bytes) : Bool :=
  match validatePayload parseFromStr p csvBytes with
  | .ok summary => summary.valid
  | .error _ => false

/-- The upload is a text that is copied as it is read, with the header of the files that
are stored already. -/
def CleanUpload (p : CsvPool) (csvBytes : Bytes) : Prop :=
  ∃ s, fromUtf8 csvBytes = some s ∧ Appendable s (textHeaders s) ∧
    ∀ e ∈ csvFiles p.dataset, readHeaders e.2 = some (textHeaders s)

/-- The upload of the request, if the validator accepts it, is clean. -/
def CleanRequest (parseFromStr : Str → Str → Bool) (p : CsvPool) (r : UploadRequest) : Prop :=
  ∀ b, r.upload = some b → accepts parseFromStr p b → CleanUpload p b

/-- Every file of the data set is copied as it is read, and they have one header. -/
def OneHeader (p : CsvPool) : Prop :=
  ∃ header, ∀ e ∈ csvFiles p.dataset, ∃ s, e.2 = asBytes s ∧ Appendable s header

/-- The good records of a text, from its records. -/
theorem okRecords_asBytes {s : Str} {header : List Str} {rows : List (List Str)}
    (h : textRecords s = header :: rows) :
    okRecords (asBytes s) = rows.filter fun r => r.length = header.length := by
  have hguard : ∀ rows : List (List Str),
      (rows.map fun r => if r.length = header.length then some r else none).filterMap id =
        rows.filter fun r => r.length = header.length := by
    intro rows
    induction rows with
    | nil => rfl
    | cons r rows ih => by_cases hr : r.length = header.length <;> simp_all
  rw [okRecords, readRecords_asBytes, textRows, textHeaders, h]
  exact hguard rows

theorem columnValues_asBytes {s : Str} {header : List Str} {rows : List (List Str)}
    (h : textRecords s = header :: rows) (column : Str) :
    columnValues (asBytes s) column =
      columnOf header (rows.filter fun r => r.length = header.length) column := by
  rw [columnValues, readHeaders_asBytes, okRecords_asBytes h, textHeaders, h]
  rfl

theorem columnOf_flatMap {ι : Type*} (headers : List Str) (column : Str)
    (rows : ι → List (List Str)) (is : List ι) :
    columnOf headers (is.flatMap rows) column =
      is.flatMap fun i => columnOf headers (rows i) column := by
  unfold columnOf
  cases (headerToIndex headers).get column with
  | none => simp
  | some col => simp [List.map_flatMap]

/-- Files that are copied as they are read, under one header, are aligned. -/
theorem OneHeader.columnsAligned {p : CsvPool} (h : OneHeader p) : ColumnsAligned p := by
  obtain ⟨header, hfiles⟩ := h
  intro field _
  have hjoins : ∀ b ∈ (csvFiles p.dataset).map Prod.snd, Joins (· = header) b := by
    intro b hb
    obtain ⟨e, he, rfl⟩ := List.mem_map.mp hb
    obtain ⟨s, hs, happ⟩ := hfiles e he
    rw [hs]
    exact Joins.copied rfl happ.copies
  have hcolumn : ∀ e ∈ csvFiles p.dataset, columnValues e.2 field.name =
      columnOf header ((copiedRows e.2).filter fun r => r.length = header.length) field.name := by
    intro e he
    obtain ⟨s, hs, happ⟩ := hfiles e he
    rw [hs]
    exact columnValues_asBytes happ.textRecords field.name
  have hright : (csvFiles p.dataset).flatMap (fun e => columnValues e.2 field.name) =
      columnOf header ((((csvFiles p.dataset).map Prod.snd).flatMap copiedRows).filter
        fun r => r.length = header.length) field.name := by
    rw [List.flatMap_congr hcolumn, ← columnOf_flatMap, List.flatMap_map, List.filter_flatMap]
  rw [hright, loadAndConcatPoolCsvs]
  rcases textRecords_concat hjoins with ⟨hout, hrows⟩ | ⟨_, rfl, hrecords⟩
  · rw [hout, hrows]
    unfold columnOf
    split <;> rfl
  · exact columnValues_asBytes hrecords field.name

/-! ## Runs -/

theorem extension_append {id ext : Str} (hid : id ≠ []) (hext : '.' ∉ ext) :
    extension (id ++ '.' :: ext) = some ext := by
  unfold extension
  rw [rsplitNext_append_cons hext]
  refine if_pos ⟨by simp, fun h => hid ?_⟩
  simpa using h

theorem mem_csvFiles_insert {dataset : Table Str Bytes} {name : Str} {b : Bytes}
    {e : Str × Bytes} (h : e ∈ csvFiles (dataset.insert name b)) :
    e = (name, b) ∧ extension name = some "csv".toList ∨ e ∈ csvFiles dataset := by
  obtain ⟨he, hext⟩ := List.mem_filter.mp h
  rcases dataset.mem_insert.mp he with rfl | ⟨-, hmem⟩
  · exact Or.inl ⟨rfl, by simpa using hext⟩
  · exact Or.inr (List.mem_filter.mpr ⟨hmem, hext⟩)

theorem extension_metaName {recordId : Str} (h : recordId ≠ []) :
    extension (metaName recordId) = some "json".toList := by
  have hsplit : metaName recordId = (recordId ++ ".meta".toList) ++ '.' :: "json".toList := by
    simp [metaName]
  rw [hsplit, extension_append (by simp [h]) (by decide)]

section Steps

variable {parseFromStr : Str → Str → Bool} {p : CsvPool}

/-- What an accepted upload writes to the data set. -/
theorem storeCsv_eq_ok {recordId : Str} {csvBytes anchor : Bytes} {change : Nat → PoolMetadata}
    {p' : CsvPool} (h : storeCsv parseFromStr p recordId csvBytes anchor change = .ok p') :
    accepts parseFromStr p csvBytes ∧
      p'.dataset = (p.dataset.insert (csvName recordId) csvBytes).insert (metaName recordId)
        anchor := by
  unfold storeCsv at h
  unfold accepts
  cases hsummary : validatePayload parseFromStr p csvBytes with
  | error e => simp [hsummary] at h
  | ok summary =>
    simp only [hsummary] at h
    split_ifs at h with hvalid
    cases h
    exact ⟨hvalid, rfl⟩

/-- A request leaves the data set as it is, or adds an upload that the validator accepts. -/
theorem dataset_uploadStep (r : UploadRequest) :
    (uploadStep parseFromStr p r).dataset = p.dataset ∨
      ∃ recordId csvBytes anchor, recordId ≠ [] ∧ r.upload = some csvBytes ∧
        accepts parseFromStr p csvBytes ∧
        (uploadStep parseFromStr p r).dataset =
          (p.dataset.insert (csvName recordId) csvBytes).insert (metaName recordId) anchor := by
  cases r with
  | uploadSchema schemaId fields =>
    refine Or.inl ?_
    simp only [uploadStep, uploadSchema]
    split_ifs <;> rfl
  | initializePool csvBytes anchor =>
    cases h : initializePool parseFromStr p csvBytes anchor with
    | error e => exact Or.inl (by simp [uploadStep, h, Except.toOption])
    | ok p' =>
      have hstep : uploadStep parseFromStr p (.initializePool csvBytes anchor) = p' := by
        simp [uploadStep, h, Except.toOption]
      unfold initializePool at h
      split_ifs at h
      obtain ⟨haccepts, hdataset⟩ := storeCsv_eq_ok h
      exact Or.inr ⟨"initial".toList, csvBytes, anchor, by simp, rfl, haccepts,
        hstep ▸ hdataset⟩
  | issueCredentials recordId csvBytes anchor =>
    by_cases hid : isUuid recordId ∧ (p.dataset.get (csvName recordId)).isNone
    · cases h : issueCredentials parseFromStr p recordId csvBytes anchor with
      | error e => exact Or.inl (by simp [uploadStep, h, Except.toOption])
      | ok p' =>
        have hstep : uploadStep parseFromStr p (.issueCredentials recordId csvBytes anchor) =
            p' := by
          rw [uploadStep, if_pos hid, h]
          rfl
        unfold issueCredentials at h
        split_ifs at h
        obtain ⟨haccepts, hdataset⟩ := storeCsv_eq_ok h
        refine Or.inr ⟨recordId, csvBytes, anchor, ?_, rfl, haccepts, hstep ▸ hdataset⟩
        rintro rfl
        simp [isUuid] at hid
    · exact Or.inl (by rw [uploadStep, if_neg hid])

/-- A clean request keeps one header. -/
theorem OneHeader.uploadStep (h : OneHeader p) {r : UploadRequest}
    (hr : CleanRequest parseFromStr p r) : OneHeader (uploadStep parseFromStr p r) := by
  rcases dataset_uploadStep r with heq | ⟨recordId, b, anchor, hid, hupload, haccepts, heq⟩
  · unfold OneHeader
    rw [heq]
    exact h
  · obtain ⟨s, hs, happ, hsame⟩ := hr b hupload haccepts
    obtain ⟨header, hfiles⟩ := h
    refine ⟨textHeaders s, fun e he => ?_⟩
    rw [heq] at he
    rcases mem_csvFiles_insert he with ⟨-, hext⟩ | he
    · rw [extension_metaName hid] at hext
      exact absurd hext (by decide)
    · rcases mem_csvFiles_insert he with ⟨rfl, -⟩ | he
      · exact ⟨s, fromUtf8_eq_some_iff.mp hs, happ⟩
      · obtain ⟨s', hs', happ'⟩ := hfiles e he
        have hheader := hsame e he
        rw [hs', readHeaders_asBytes, happ'.textHeaders_eq] at hheader
        exact ⟨s', hs', Option.some.inj hheader ▸ happ'⟩

end Steps

/-- The columns stay aligned along every run whose accepted uploads are clean. -/
theorem columnsAligned_of_cleanUploads (parseFromStr : Str → Str → Bool) (poolPda schemaId : Str)
    (kind : PoolKind) (mode : ValidationMode) {requests : List UploadRequest}
    (h : Along (uploadStep parseFromStr) (CleanRequest parseFromStr)
      (newCsvPool poolPda kind schemaId mode) requests) :
    Always (uploadStep parseFromStr) ColumnsAligned (newCsvPool poolPda kind schemaId mode)
      requests := by
  have hinit : OneHeader (newCsvPool poolPda kind schemaId mode) := by
    refine ⟨[], fun e he => ?_⟩
    simp [newCsvPool, csvFiles] at he
  have halways : Always (uploadStep parseFromStr) OneHeader
      (newCsvPool poolPda kind schemaId mode) requests :=
    always_of_along (fun _ _ hp hr => hp.uploadStep hr) hinit h
  exact halways.imp fun _ hp => hp.columnsAligned

/-- A schema of two text columns. -/
def sampleFields : List FieldSchema :=
  [⟨"a".toList, .varchar 10, true⟩, ⟨"b".toList, .varchar 10, true⟩]

/-- The record id of the second upload. -/
def sampleRecordId : Str :=
  "11111111-2222-4333-8444-555555555555".toList

/-- A schema, an initial file, and a second file. -/
def sampleUploads (second : String) : List UploadRequest :=
  [.uploadSchema "pilot_v1".toList sampleFields,
    .initializePool (asBytes "a,b\n1,2\n".toList) [],
    .issueCredentials sampleRecordId (asBytes second.toList) []]

/-- A pool that checks headers only. -/
def samplePool : CsvPool :=
  newCsvPool "Pool1".toList .malta "pilot_v1".toList .headersOnly

/-- Both uploads are valid UTF-8 and accepted, and the columns of the second stand in the
other order. -/
theorem not_columnsAligned_swapped :
    (csvFiles (exec (uploadStep fun _ _ => false) samplePool
        (sampleUploads "b,a\n3,4\n")).dataset).map Prod.snd =
        [asBytes "b,a\n3,4\n".toList, asBytes "a,b\n1,2\n".toList] ∧
      ¬Always (uploadStep fun _ _ => false) ColumnsAligned samplePool
        (sampleUploads "b,a\n3,4\n") := by
  refine ⟨by decide +kernel, fun h => ?_⟩
  exact absurd h.last (by decide +kernel)

/-- A second file with the same header, and a line break inside of quotes. -/
theorem columnsAligned_quotedBreak :
    Along (uploadStep fun _ _ => false) (CleanRequest fun _ _ => false) samplePool
        (sampleUploads "a,b\n\"3\nx\",4\n") ∧
      Always (uploadStep fun _ _ => false) ColumnsAligned samplePool
        (sampleUploads "a,b\n\"3\nx\",4\n") := by
  have hclean : Along (uploadStep fun _ _ => false) (CleanRequest fun _ _ => false) samplePool
      (sampleUploads "a,b\n\"3\nx\",4\n") := by
    refine ⟨by simp [CleanRequest, UploadRequest.upload], ?_, ?_, trivial⟩
    · rintro _ ⟨⟩ -
      exact ⟨"a,b\n1,2\n".toList, by decide +kernel, by decide +kernel, by decide +kernel⟩
    · rintro _ ⟨⟩ -
      exact ⟨"a,b\n\"3\nx\",4\n".toList, by decide +kernel, by decide +kernel, by decide +kernel⟩
  exact ⟨hclean, columnsAligned_of_cleanUploads _ _ _ _ _ hclean⟩

end RelationalSdk
