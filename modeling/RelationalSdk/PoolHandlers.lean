import RelationalSdk.Uploads

/-!
# The handlers of a pool and their failures

The five requests that write to a pool, each with the outcome of every read, write and
remote call it makes as an argument : creation, `upload_schema`, `initialize_pool`,
`issue_credentials` and `revoke_credentials`. A handler returns its result together with
the pool, because a request that fails may have written some of its files.

`atomic_write` either replaces its target or leaves it alone. A transaction that was built
has a fate of its own, and what the handler is told about it can come too late or not at
all : `signSendAndParse` returns an error for a transaction that lands after the last poll.
-/

namespace RelationalSdk

open Text KeyedTable

/-! ## Transactions -/

/-- What becomes of a transaction that was signed and handed to the network. -/
inductive TxFate where
  /-- It is never included in a block. -/
  | dropped
  /-- It is included and fails. -/
  | failed
  /-- It is included and takes effect. -/
  | landed
  deriving DecidableEq

/-- A commitment level, as it is asked for and as a status reports it. -/
inductive Commitment where
  | processed
  | confirmed
  | finalized
  deriving DecidableEq

/-- What a poll of `get_signature_statuses` can do : fail, know nothing of the signature
yet, or report the level it has reached, if the transaction was included at all. -/
inductive PollAnswer where
  | rpcError
  | unknown
  | included (level : Commitment)
  deriving DecidableEq

/-- The outcome of the remote calls of `sign_send_and_parse`. `polls` are the answers that
arrive before the time-out. -/
structure ChainIo where
  blockhash : Except String Unit
  send : Except String Str
  polls : List PollAnswer
  fate : TxFate

/-- Poll until the transaction reaches the level. -/
def awaitConfirmation (fate : TxFate) (commitment : Commitment) :
    List PollAnswer → Except ApiError Unit
  | [] =>
    .error (.serviceUnavailable (if commitment = .finalized
      then "transaction confirmation timed out (60s) at finalized"
      else "transaction confirmation timed out (30s) at confirmed"))
  | .rpcError :: polls | .unknown :: polls => awaitConfirmation fate commitment polls
  | .included level :: polls =>
    match fate with
    | .dropped => awaitConfirmation fate commitment polls
    | .failed => .error (.serviceUnavailable "transaction failed on-chain")
    | .landed =>
      if level = .finalized ∨ level = .confirmed ∧ commitment ≠ .finalized then .ok ()
      else awaitConfirmation fate commitment polls

/-- Sign and send a transaction and wait for it. Returns its signature. -/
def signSendAndParse (io : ChainIo) (commitment : Commitment) : Except ApiError Str :=
  match io.blockhash with
  | .error e => .error (.serviceUnavailable s!"blockhash fetch failed: {e}")
  | .ok _ =>
    match io.send with
    | .error e => .error (.serviceUnavailable s!"transaction send failed: {e}")
    | .ok signature =>
      match awaitConfirmation io.fate commitment io.polls with
      | .error e => .error e
      | .ok _ => .ok signature

/-- The transaction takes effect. Without a block hash there is none. -/
def ChainIo.takesEffect (io : ChainIo) : Bool :=
  io.blockhash.isOk && io.fate = .landed

/-- A transaction that takes effect is confirmed as final exactly if a poll says so. -/
theorem awaitConfirmation_landed_iff {polls : List PollAnswer} :
    awaitConfirmation .landed .finalized polls = .ok () ↔
      .included .finalized ∈ polls := by
  induction polls with
  | nil => simp [awaitConfirmation]
  | cons a polls ih =>
    cases a with
    | rpcError => simp [awaitConfirmation, ih]
    | unknown => simp [awaitConfirmation, ih]
    | included level => cases level <;> simp [awaitConfirmation, ih]

/-- A transaction is only confirmed if it took effect. -/
theorem landed_of_awaitConfirmation {fate : TxFate} {commitment : Commitment}
    {polls : List PollAnswer} (h : awaitConfirmation fate commitment polls = .ok ()) :
    fate = .landed := by
  induction polls with
  | nil => simp [awaitConfirmation] at h
  | cons a polls ih =>
    cases a with
    | rpcError => exact ih h
    | unknown => exact ih h
    | included level =>
      cases fate with
      | dropped => exact ih h
      | failed => simp [awaitConfirmation] at h
      | landed => rfl

/-- A burn that takes effect is reported to the handler exactly if the submission went
through and a poll saw it finalized. -/
theorem signSendAndParse_isOk_iff {io : ChainIo} (h : io.takesEffect) :
    (signSendAndParse io .finalized).isOk ↔
      io.send.isOk ∧ .included .finalized ∈ io.polls := by
  obtain ⟨hblockhash, hfate⟩ := by simpa [ChainIo.takesEffect] using h
  rw [← awaitConfirmation_landed_iff, ← hfate, signSendAndParse]
  cases hb : io.blockhash with
  | error e => simp [hb, Except.isOk, Except.toBool] at hblockhash
  | ok _ =>
    cases hsend : io.send with
    | error e => simp [Except.isOk, Except.toBool]
    | ok signature =>
      cases hawait : awaitConfirmation io.fate .finalized io.polls <;>
        simp [Except.isOk, Except.toBool]

/-- What is reported as sent has taken effect. -/
theorem takesEffect_of_signSendAndParse {io : ChainIo} {commitment : Commitment}
    {signature : Str} (h : signSendAndParse io commitment = .ok signature) :
    io.takesEffect ∧ io.send = .ok signature := by
  unfold signSendAndParse at h
  split at h
  · cases h
  rename_i hblockhash
  split at h
  · cases h
  rename_i hsend
  split at h
  · cases h
  rename_i hawait
  have hfate := landed_of_awaitConfirmation hawait
  simp [ChainIo.takesEffect, hblockhash, hfate, Except.isOk, Except.toBool, hsend,
    Except.ok.inj h]

/-! ## A pool -/

/-- A record id, a version 4 UUID in text form. -/
structure RecordId where
  text : Str
  isUuid : isUuid text

/-- The sidecar of a CSV file. -/
structure DatasetAnchor where
  recordId : Str
  sha256 : Str
  commitment : Option Str
  deriving DecidableEq

/-- What is offered to the issuance records. -/
structure DatasetFileMeta where
  recordId : Str
  uploadedBy : Str
  rows : Nat
  uploadedAt : DateTime
  redeemTxSignature : Option Str
  deriving DecidableEq

/-- A revocation. -/
structure RevocationEntry where
  credentialId : Str
  revokedBy : Str
  revokedAt : DateTime
  reason : Option Str
  deriving DecidableEq

/-- The audit events of the handlers, with the part of their details that is not chain
data. -/
inductive PoolEvent where
  | poolCreated (kind : PoolKind)
  | schemaUploaded (schemaId : Str) (fieldCount : Nat)
  | datasetInitialized (recordId : Str) (rowCount : Nat)
  | credentialIssuanceFailed (recordId redeemTxSig : Str) (error : String)
  | credentialIssued (recordId : Str) (rowCount : Nat) (redeemTxSig : Str) (total : Nat)
  | credentialRevoked (credentialIds : List Str) (revokedCount : Nat) (reason : Option Str)
  deriving DecidableEq

/-- The files of a pool, what the chain knows of it, the revocation table, the records
offered to the issuance table, and the audit events that were written to the log file and
to the database. -/
structure PoolWorld where
  poolPda : Str
  onChain : Bool
  burned : List Str
  metadata : Option PoolMetadata
  schema : Option (List FieldSchema)
  dataset : Table Str Bytes
  anchors : Table Str DatasetAnchor
  offered : List DatasetFileMeta
  revocations : Table Str RevocationEntry
  auditFile : List PoolEvent
  auditDb : List PoolEvent

/-- A pool that was never created. -/
def PoolWorld.absent (poolPda : Str) (revocations : Table Str RevocationEntry) : PoolWorld :=
  ⟨poolPda, false, [], none, none, Table.empty, Table.empty, [], revocations, [], []⟩

/-- Whether the two writes of an audit event succeed. -/
structure AuditIo where
  file : Bool
  db : Bool

/-- How `fs::write` of the schema ends. A failure may leave anything behind. -/
inductive SchemaWrite where
  | done
  | failed (e : String) (left : Option (List FieldSchema))

namespace PoolWorld

variable (w : PoolWorld)

/-- Log an audit event. Failures are not propagated. -/
def log (io : AuditIo) (event : PoolEvent) : PoolWorld :=
  { w with
    auditFile := if io.file then w.auditFile ++ [event] else w.auditFile
    auditDb := if io.db then w.auditDb ++ [event] else w.auditDb }

@[simp] theorem log_poolPda (io : AuditIo) (event : PoolEvent) :
    (w.log io event).poolPda = w.poolPda :=
  rfl

@[simp] theorem log_onChain (io : AuditIo) (event : PoolEvent) :
    (w.log io event).onChain = w.onChain :=
  rfl

@[simp] theorem log_burned (io : AuditIo) (event : PoolEvent) :
    (w.log io event).burned = w.burned :=
  rfl

@[simp] theorem log_metadata (io : AuditIo) (event : PoolEvent) :
    (w.log io event).metadata = w.metadata :=
  rfl

@[simp] theorem log_dataset (io : AuditIo) (event : PoolEvent) :
    (w.log io event).dataset = w.dataset :=
  rfl

@[simp] theorem log_anchors (io : AuditIo) (event : PoolEvent) :
    (w.log io event).anchors = w.anchors :=
  rfl

@[simp] theorem log_offered (io : AuditIo) (event : PoolEvent) :
    (w.log io event).offered = w.offered :=
  rfl

@[simp] theorem log_revocations (io : AuditIo) (event : PoolEvent) :
    (w.log io event).revocations = w.revocations :=
  rfl

/-- Load `pool.meta.json`, if it can be read. -/
def loadPoolMeta (readable : Bool) : Except ApiError PoolMetadata :=
  match w.metadata with
  | some m => if readable then .ok m else missing
  | none => missing
where
  /-- The error, whatever went wrong. -/
  missing : Except ApiError PoolMetadata :=
    let pda := String.ofList w.poolPda
    .error (.notFound s!"pool metadata not found for {pda} — pool may need initialization")

/-- Replace `pool.meta.json`. -/
def savePoolMeta (m : PoolMetadata) : Except String Unit → Except ApiError PoolWorld
  | .error e => .error (.internal s!"failed to write pool metadata: {e}")
  | .ok _ => .ok { w with metadata := some m }

variable {w} in
theorem savePoolMeta_eq_ok {m : PoolMetadata} {write : Except String Unit} {saved : PoolWorld}
    (h : w.savePoolMeta m write = .ok saved) : saved = { w with metadata := some m } := by
  cases write with
  | error e => cases h
  | ok _ => exact (Except.ok.inj h).symm

/-- Offer a record to the issuance table. Whether it is written is not propagated. -/
def offer (record : DatasetFileMeta) : PoolWorld :=
  { w with offered := w.offered ++ [record] }

/-- The pool as the validator sees it. -/
def csvPool (m : PoolMetadata) : CsvPool :=
  ⟨w.poolPda, m, w.schema, w.dataset⟩

/-- Validate an upload. -/
def validateUpload (parseFromStr : Str → Str → Bool) (m : PoolMetadata) (csvBytes : Bytes) :
    Except ApiError Unit :=
  match validatePayload parseFromStr (w.csvPool m) csvBytes with
  | .error e => .error e
  | .ok summary =>
    if summary.valid then .ok ()
    else
      let errors := summary.errors.length
      .error (.badRequest s!"CSV validation failed: {errors} error(s)")

/-- Write the schema. -/
def savePoolSchema (fields : List FieldSchema) : SchemaWrite → Except ApiError Unit × PoolWorld
  | .done => (.ok (), { w with schema := some fields })
  | .failed e left =>
    (.error (.internal s!"failed to write schema file: {e}"), { w with schema := left })

/-! ## Creation and schema -/

/-- The outcomes of a creation. `checks` are the validation of the request and the wallet. -/
structure CreateIo where
  checks : Except ApiError Unit
  chain : ChainIo
  metaWrite : Except String Unit
  schemaWrite : SchemaWrite
  audit : AuditIo

/-- The fate of the transaction that creates the pool account : it cannot take effect
twice. -/
def createChain (chain : ChainIo) : ChainIo :=
  if w.onChain ∧ chain.fate = .landed then { chain with fate := .failed } else chain

/-- The part the two endpoints share : create the pool on chain and write its metadata. -/
def createPool (kind : PoolKind) (schemaId : Str) (mode : ValidationMode) (io : CreateIo) :
    Except ApiError Unit × PoolWorld :=
  match io.checks with
  | .error e => (.error e, w)
  | .ok _ =>
    let chain := w.createChain io.chain
    let sent := { w with onChain := w.onChain || chain.takesEffect }
    match signSendAndParse chain .confirmed with
    | .error e => (.error e, sent)
    | .ok _ =>
      match sent.savePoolMeta ⟨kind, schemaId, mode, .needsInit, 0, 0⟩ io.metaWrite with
      | .error e => (.error e, sent)
      | .ok saved => (.ok (), saved)

/-- Create a MALTA pool with its schema. -/
def createMaltaPool (schemaId : Str) (fields : List FieldSchema) (io : CreateIo) :
    Except ApiError Unit × PoolWorld :=
  match w.createPool .malta schemaId .headersOnly io with
  | (.error e, w') => (.error e, w')
  | (.ok _, w') =>
    match w'.savePoolSchema fields io.schemaWrite with
    | (.error e, w'') => (.error e, w'')
    | (.ok _, w'') => (.ok (), w''.log io.audit (.poolCreated .malta))

/-- Create an IOB ERP pool. -/
def createIobErpPool (io : CreateIo) : Except ApiError Unit × PoolWorld :=
  match w.createPool .iobErp [] .none io with
  | (.error e, w') => (.error e, w')
  | (.ok _, w') => (.ok (), w'.log io.audit (.poolCreated .iobErp))

/-- The outcomes of a schema upload. `checks` are the caller's wallet and the pool account. -/
structure SchemaIo where
  checks : Except ApiError Unit
  load : Bool
  write : SchemaWrite
  audit : AuditIo

/-- Replace the schema. -/
def uploadSchema (schemaId : Str) (fields : List FieldSchema) (io : SchemaIo) :
    Except ApiError Nat × PoolWorld :=
  if schemaId = [] ∨ 128 < len schemaId ∨
      ¬schemaId.all fun c => c.isAlphanum || c = '-' || c = '_' then
    (.error (.badRequest
      "schema_id must be 1-128 characters, alphanumeric with hyphens/underscores only"), w)
  else if fields = [] then
    (.error (.badRequest "schema must have at least one field"), w)
  else
    match io.checks with
    | .error e => (.error e, w)
    | .ok _ =>
      match w.loadPoolMeta io.load with
      | .error e => (.error e, w)
      | .ok m =>
        if m.schemaId ≠ schemaId then
          let stored := String.ofList m.schemaId
          let given := String.ofList schemaId
          (.error (.badRequest
            s!"pool's schema_id is '{stored}', but you are uploading '{given}'"), w)
        else
          match w.savePoolSchema fields io.write with
          | (.error e, w') => (.error e, w')
          | (.ok _, w') =>
            (.ok fields.length, w'.log io.audit (.schemaUploaded schemaId fields.length))

/-! ## Initialization -/

/-- The outcomes of an initialization. `checks` are the payload, the caller's wallet, the
pool account and the directories. -/
structure InitializeIo where
  checks : Except ApiError Unit
  load : Bool
  csvWrite : Except String Unit
  anchorWrite : Except String Unit
  metaWrite : Except String Unit
  now : DateTime
  audit : AuditIo

section Uploads

variable (sha256Hex : Bytes → Str) (parseFromStr : Str → Str → Bool)

/-- The checks before anything is written. -/
def initializeChecks (csvBytes : Bytes) (io : InitializeIo) : Except ApiError PoolMetadata :=
  match io.checks with
  | .error e => .error e
  | .ok _ =>
    match w.loadPoolMeta io.load with
    | .error e => .error e
    | .ok m =>
      if m.state ≠ .needsInit then
        .error (.badRequest "pool is already initialized — use /issue to add credentials")
      else if m.kind = .iobErp then
        .error (.conflict "IOB ERP pools cannot be initialised via dashboard upload")
      else
        match w.validateUpload parseFromStr m csvBytes with
        | .error e => .error e
        | .ok _ => .ok m

/-- The id of the initial data set. -/
def initialRecordId : Str :=
  "initial".toList

/-- `initial.csv` is written. -/
def putInitialCsv (csvBytes : Bytes) : PoolWorld :=
  { w with dataset := w.dataset.insert (csvName initialRecordId) csvBytes }

/-- `initial.meta.json` is written. -/
def putInitialAnchor (csvBytes : Bytes) : PoolWorld :=
  { w with
    anchors := w.anchors.insert (metaName initialRecordId)
      ⟨initialRecordId, sha256Hex csvBytes, none⟩ }

/-- The writes of an initialization that passed its checks. -/
def initializeWrites (m : PoolMetadata) (user : Str) (csvBytes : Bytes) (io : InitializeIo) :
    Except ApiError Nat × PoolWorld :=
  let rows := countCsvRows csvBytes
  match io.csvWrite with
  | .error e => (.error (.internal s!"failed to write initial dataset: {e}"), w)
  | .ok _ =>
    let stored := w.putInitialCsv csvBytes
    match io.anchorWrite with
    | .error e => (.error (.internal s!"failed to write dataset anchor: {e}"), stored)
    | .ok _ =>
      let anchored := stored.putInitialAnchor sha256Hex csvBytes
      match anchored.savePoolMeta { m with state := .ready, totalCredentials := rows }
          io.metaWrite with
      | .error e => (.error e, anchored)
      | .ok saved =>
        let offered := saved.offer ⟨initialRecordId, user, rows, io.now, none⟩
        (.ok rows, offered.log io.audit (.datasetInitialized initialRecordId rows))

/-- Seed the initial data set. -/
def initializePool (user : Str) (csvBytes : Bytes) (io : InitializeIo) :
    Except ApiError Nat × PoolWorld :=
  match w.initializeChecks parseFromStr csvBytes io with
  | .error e => (.error e, w)
  | .ok m => w.initializeWrites sha256Hex m user csvBytes io

/-! ## Issuance -/

/-- The outcomes of an issuance. `payload` is the parsing of the request, `checks` are the
append right, the caller's wallet, the pool account and the balance. -/
structure IssueIo where
  payload : Except ApiError Unit
  load : Bool
  checks : Except ApiError Unit
  recordId : RecordId
  commitment : Str
  chain : ChainIo
  csvWrite : Except String Unit
  anchorWrite : Except String Unit
  reload : Bool
  metaWrite : Except String Unit
  now : DateTime
  audit : AuditIo

/-- The response to an issuance. -/
structure IssueResponse where
  recordId : Str
  rowsIssued : Nat
  redeemSignature : Str
  totalRows : Nat
  deriving DecidableEq

/-- The checks before the burn. -/
def issueChecks (csvBytes : Bytes) (io : IssueIo) : Except ApiError PoolMetadata :=
  match io.payload with
  | .error e => .error e
  | .ok _ =>
    match w.loadPoolMeta io.load with
    | .error e => .error e
    | .ok m =>
      if m.state ≠ .ready then
        .error (.badRequest "pool not initialized — call /initialize first")
      else if m.kind = .iobErp then
        .error (.conflict "IOB ERP pools do not accept credential issuance")
      else
        match io.checks with
        | .error e => .error e
        | .ok _ =>
          match w.validateUpload parseFromStr m csvBytes with
          | .error e => .error e
          | .ok _ => .ok m

/-- The CSV of a record is written. -/
def putCsv (recordId : RecordId) (csvBytes : Bytes) : PoolWorld :=
  { w with dataset := w.dataset.insert (csvName recordId.text) csvBytes }

/-- The anchor of a record is written, if that succeeds. -/
def putAnchor (csvBytes : Bytes) (io : IssueIo) : PoolWorld :=
  match io.anchorWrite with
  | .error _ => w
  | .ok _ =>
    { w with
      anchors := w.anchors.insert (metaName io.recordId.text)
        ⟨io.recordId.text, sha256Hex csvBytes, some io.commitment⟩ }

/-- What follows a confirmed burn. -/
def issueWrites (user signature : Str) (csvBytes : Bytes) (io : IssueIo) :
    Except ApiError IssueResponse × PoolWorld :=
  let rows := countCsvRows csvBytes
  let id := io.recordId.text
  match io.csvWrite with
  | .error e =>
    let sig := String.ofList signature
    (.error (.internal
      s!"DRT burned (sig: {sig}) but file write failed — contact admin for recovery"),
      w.log io.audit (.credentialIssuanceFailed id signature e))
  | .ok _ =>
    let stored := (w.putCsv io.recordId csvBytes).putAnchor sha256Hex csvBytes io
    match stored.loadPoolMeta io.reload with
    | .error e => (.error e, stored)
    | .ok m =>
      let total := m.totalCredentials + rows
      match stored.savePoolMeta { m with totalCredentials := total } io.metaWrite with
      | .error e => (.error e, stored)
      | .ok saved =>
        let offered := saved.offer ⟨id, user, rows, io.now, some signature⟩
        (.ok ⟨id, rows, signature, total⟩,
          offered.log io.audit (.credentialIssued id rows signature total))

/-- The chain records the burn of a record, if the transaction takes effect. -/
def recordBurn (io : IssueIo) : PoolWorld :=
  if io.chain.takesEffect then { w with burned := w.burned ++ [io.recordId.text] } else w

/-- Burn an append right and store the data set. -/
def issueCredentials (user : Str) (csvBytes : Bytes) (io : IssueIo) :
    Except ApiError IssueResponse × PoolWorld :=
  match w.issueChecks parseFromStr csvBytes io with
  | .error e => (.error e, w)
  | .ok _ =>
    let sent := w.recordBurn io
    match signSendAndParse io.chain .finalized with
    | .error e => (.error e, sent)
    | .ok signature => sent.issueWrites sha256Hex user signature csvBytes io

end Uploads

/-! ## Revocation -/

/-- The outcomes of a revocation. `checks` are the wallet and the pool account, `elsewhere`
tells whether a credential id with a `/` in it leads to a file, and `failedUpserts` are the
positions at which writing the revocation table fails. -/
structure RevokeIo where
  checks : Except ApiError Unit
  load : Bool
  elsewhere : Str → Bool
  append : Except ApiError Unit
  reload : Bool
  metaWrite : Except String Unit
  failedUpserts : List Nat
  now : DateTime
  audit : AuditIo

/-- Whether the CSV file of a credential id exists. -/
def credentialExists (elsewhere : Str → Bool) (credentialId : Str) : Bool :=
  if '/' ∈ credentialId then elsewhere credentialId
  else (w.dataset.get (csvName credentialId)).isSome

/-- The key of a revocation. -/
def revocationKey (credentialId : Str) : Str :=
  w.poolPda ++ '|' :: credentialId

/-- Insert a revocation. -/
def upsertRevocation (entry : RevocationEntry) : PoolWorld :=
  { w with revocations := w.revocations.insert (w.revocationKey entry.credentialId) entry }

/-- Insert the revocations of a request, from a position on, but for those that fail. -/
def upsertRevocations (user : Str) (reason : Option Str) (io : RevokeIo) :
    Nat → List Str → PoolWorld → PoolWorld
  | _, [], w => w
  | i, cid :: cids, w =>
    upsertRevocations user reason io (i + 1) cids
      (if i ∈ io.failedUpserts then w else w.upsertRevocation ⟨cid, user, io.now, reason⟩)

/-- Only the table of revocations changes. -/
theorem exists_upsertRevocations_eq (user : Str) (reason : Option Str) (io : RevokeIo) :
    ∀ (i : Nat) (cids : List Str) (w : PoolWorld), ∃ revocations,
      upsertRevocations user reason io i cids w = { w with revocations := revocations }
  | _, [], w => ⟨w.revocations, rfl⟩
  | i, cid :: cids, w => by
    rw [upsertRevocations]
    split_ifs
    · exact exists_upsertRevocations_eq user reason io (i + 1) cids w
    · exact exists_upsertRevocations_eq user reason io (i + 1) cids _

@[simp] theorem metadata_upsertRevocations (user : Str) (reason : Option Str) (io : RevokeIo)
    (i : Nat) (cids : List Str) (w : PoolWorld) :
    (upsertRevocations user reason io i cids w).metadata = w.metadata := by
  obtain ⟨_, h⟩ := exists_upsertRevocations_eq user reason io i cids w
  rw [h]

@[simp] theorem dataset_upsertRevocations (user : Str) (reason : Option Str) (io : RevokeIo)
    (i : Nat) (cids : List Str) (w : PoolWorld) :
    (upsertRevocations user reason io i cids w).dataset = w.dataset := by
  obtain ⟨_, h⟩ := exists_upsertRevocations_eq user reason io i cids w
  rw [h]

/-- Revoke credentials. Returns how many. -/
def revokeCredentials (user : Str) (credentialIds : List Str) (reason : Option Str)
    (io : RevokeIo) : Except ApiError Nat × PoolWorld :=
  if credentialIds = [] then (.error (.badRequest "credential_ids must not be empty"), w)
  else
    match io.checks with
    | .error e => (.error e, w)
    | .ok _ =>
      match w.loadPoolMeta io.load with
      | .error e => (.error e, w)
      | .ok _ =>
        match credentialIds.find? fun cid => !w.credentialExists io.elsewhere cid with
        | some cid =>
          let id := String.ofList cid
          (.error (.notFound s!"credential record '{id}' not found in pool"), w)
        | none =>
          match io.append with
          | .error e => (.error e, w)
          | .ok _ =>
            match w.loadPoolMeta io.reload with
            | .error e => (.error e, w)
            | .ok m =>
              let count := credentialIds.length
              match w.savePoolMeta { m with revokedCount := m.revokedCount + count }
                  io.metaWrite with
              | .error e => (.error e, w)
              | .ok saved =>
                (.ok count, (upsertRevocations user reason io 0 credentialIds saved).log io.audit
                  (.credentialRevoked credentialIds count reason))

/-- Count total revocations for the pool. -/
def countRevocations : Nat :=
  (w.revocations.scan (w.poolPda ++ ['|'])).length

end PoolWorld

end RelationalSdk
