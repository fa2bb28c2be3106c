import RelationalSdk.PoolHandlers

/-!
# A burned right leaves a trace

`issue_credentials` burns an append right in the middle of its work. `NoSilentBurn` is what
a pool owner should be able to rely on : a burn that takes effect is answered by a stored,
counted and offered data set, or by an audit event that names the record, and a request
that reports an error leaves the data set of the pool as it was.

The handler takes every error of `sign_send_and_parse` for a transaction that did not
happen, and it returns without an audit event when the metadata cannot be reloaded or saved
after the data set was stored. `noSilentBurn_iff` says exactly which outcomes are safe.
-/

namespace RelationalSdk

open Text KeyedTable PoolWorld

/-- The event reports that the issuance of the record failed. -/
def PoolEvent.isFailureOf (recordId : Str) : PoolEvent → Bool
  | .credentialIssuanceFailed id _ _ => id = recordId
  | _ => false

/-- The log file or the database has an event that reports the failure. -/
def PoolWorld.failureLogged (w : PoolWorld) (recordId : Str) : Bool :=
  w.auditFile.any (PoolEvent.isFailureOf recordId) ||
    w.auditDb.any (PoolEvent.isFailureOf recordId)

/-- A new UUID names nothing yet. -/
structure FreshRecord (w : PoolWorld) (recordId : RecordId) : Prop where
  csv : w.dataset.get (csvName recordId.text) = none
  burned : recordId.text ∉ w.burned
  failure : w.failureLogged recordId.text = false

section Issue

variable (sha256Hex : Bytes → Str) (parseFromStr : Str → Str → Bool) (w : PoolWorld)
  (user : Str) (csvBytes : Bytes) (io : IssueIo)

/-- The data set of the request is stored, counted and offered in `w'`. -/
def Accounted (w' : PoolWorld) : Prop :=
  w'.dataset.get (csvName io.recordId.text) = some csvBytes ∧
    w'.metadata.map PoolMetadata.totalCredentials =
      w.metadata.map (fun m => m.totalCredentials + countCsvRows csvBytes) ∧
    ∃ record ∈ w'.offered, record.recordId = io.recordId.text ∧
      record.rows = countCsvRows csvBytes

/-- If the burn has taken effect, the request has succeeded and its data set is accounted
for, or a failure is logged; if the request has failed, the data set of the pool is
unchanged. -/
def Traced (r : Except ApiError IssueResponse × PoolWorld) : Prop :=
  (io.recordId.text ∈ r.2.burned →
      r.1.isOk ∧ Accounted w csvBytes io r.2 ∨ r.2.failureLogged io.recordId.text) ∧
    (¬r.1.isOk → csvFiles r.2.dataset = csvFiles w.dataset)

/-- The request leaves a trace of its burn. -/
def NoSilentBurn : Prop :=
  Traced w csvBytes io (w.issueCredentials sha256Hex parseFromStr user csvBytes io)

instance : Decidable (NoSilentBurn sha256Hex parseFromStr w user csvBytes io) :=
  inferInstanceAs (Decidable ((_ → _ ∧ _ ∧ _ ∧ _ ∨ _) ∧ (_ → _)))

/-- The request passes its checks, so that the burn is submitted. -/
def Issuable : Prop :=
  io.payload = .ok () ∧ io.load ∧ io.checks = .ok () ∧
    ∃ m ∈ w.metadata, m.state = .ready ∧ m.kind ≠ .iobErp ∧
      accepts parseFromStr (w.csvPool m) csvBytes

/-- The burn is not submitted or does not take effect, or else : the submission reports no
error, a poll sees the transaction finalized before the time-out, and either the CSV is
written and then the metadata is read and written, or the CSV is not written and one of the
two audit writes succeeds. -/
def SafeIssue : Prop :=
  Issuable parseFromStr w csvBytes io → io.chain.takesEffect →
    io.chain.send.isOk ∧ .included .finalized ∈ io.chain.polls ∧
      match io.csvWrite with
      | .ok _ => io.reload ∧ io.metaWrite = .ok ()
      | .error _ => io.audit.file ∨ io.audit.db

end Issue

section Outcomes

variable {sha256Hex : Bytes → Str} {parseFromStr : Str → Str → Bool} {w : PoolWorld}
  {user : Str} {csvBytes : Bytes} {io : IssueIo}

/-! ## The checks -/

theorem loadPoolMeta_eq_ok_iff {readable : Bool} {m : PoolMetadata} :
    w.loadPoolMeta readable = .ok m ↔ readable ∧ w.metadata = some m := by
  unfold loadPoolMeta
  cases w.metadata with
  | none => simp [loadPoolMeta.missing]
  | some m' => cases readable <;> simp [loadPoolMeta.missing]

theorem validateUpload_eq_ok_iff {m : PoolMetadata} :
    w.validateUpload parseFromStr m csvBytes = .ok () ↔
      accepts parseFromStr (w.csvPool m) csvBytes := by
  unfold validateUpload accepts
  cases validatePayload parseFromStr (w.csvPool m) csvBytes with
  | error e => simp
  | ok summary => cases hvalid : summary.valid <;> simp [hvalid]

theorem issueChecks_eq_ok_iff {m : PoolMetadata} :
    w.issueChecks parseFromStr csvBytes io = .ok m ↔
      io.payload = .ok () ∧ io.load ∧ io.checks = .ok () ∧ w.metadata = some m ∧
        m.state = .ready ∧ m.kind ≠ .iobErp ∧ accepts parseFromStr (w.csvPool m) csvBytes := by
  unfold issueChecks
  constructor
  · intro h
    split at h
    · cases h
    split at h
    · cases h
    rename_i hpayload _ m' hload
    split_ifs at h with hstate hkind
    split at h
    · cases h
    split at h
    · cases h
    rename_i hchecks _ _ hvalid
    obtain rfl := Except.ok.inj h
    obtain ⟨hreadable, hm⟩ := loadPoolMeta_eq_ok_iff.mp hload
    exact ⟨hpayload, hreadable, hchecks, hm, not_not.mp hstate, hkind,
      validateUpload_eq_ok_iff.mp hvalid⟩
  · rintro ⟨hpayload, hreadable, hchecks, hm, hstate, hkind, hvalid⟩
    have hload := loadPoolMeta_eq_ok_iff.mpr ⟨hreadable, hm⟩
    have hvalid' := validateUpload_eq_ok_iff.mpr hvalid
    simp [hpayload, hload, hstate, hkind, hchecks, hvalid']

theorem issuable_iff : Issuable parseFromStr w csvBytes io ↔
    ∃ m, w.issueChecks parseFromStr csvBytes io = .ok m := by
  constructor
  · rintro ⟨hpayload, hload, hchecks, m, hm, hstate, hkind, hvalid⟩
    exact ⟨m, issueChecks_eq_ok_iff.mpr
      ⟨hpayload, hload, hchecks, hm, hstate, hkind, hvalid⟩⟩
  · rintro ⟨m, h⟩
    obtain ⟨hpayload, hload, hchecks, hm, hstate, hkind, hvalid⟩ := issueChecks_eq_ok_iff.mp h
    exact ⟨hpayload, hload, hchecks, m, hm, hstate, hkind, hvalid⟩

/-! ## After the burn -/

theorem failureLogged_log (audit : AuditIo) (event : PoolEvent) (recordId : Str) :
    (w.log audit event).failureLogged recordId =
      (w.failureLogged recordId ||
        (audit.file || audit.db) && event.isFailureOf recordId) := by
  have hany : ∀ (written : Bool) (events : List PoolEvent),
      (if written then events ++ [event] else events).any (PoolEvent.isFailureOf recordId) =
        (events.any (PoolEvent.isFailureOf recordId) ||
          written && event.isFailureOf recordId) := by
    intro written events
    cases written <;> simp
  unfold failureLogged PoolWorld.log
  rw [hany, hany, Bool.and_or_distrib_right, Bool.or_assoc, Bool.or_assoc,
    Bool.or_left_comm (audit.file && _)]

theorem extension_csvName (recordId : RecordId) :
    extension (csvName recordId.text) = some "csv".toList := by
  have hne : recordId.text ≠ [] := by
    intro h
    have := recordId.isUuid
    simp [h, isUuid] at this
  exact extension_append hne (by decide)

/-- A new record changes the data set that queries see. -/
theorem csvFiles_insert_ne {recordId : RecordId}
    (h : w.dataset.get (csvName recordId.text) = none) :
    csvFiles (w.dataset.insert (csvName recordId.text) csvBytes) ≠ csvFiles w.dataset := by
  intro heq
  have hmem : (csvName recordId.text, csvBytes) ∈
      csvFiles (w.dataset.insert (csvName recordId.text) csvBytes) := by
    refine List.mem_filter.mpr ⟨Table.mem_insert _ |>.mpr (Or.inl rfl), ?_⟩
    simpa using extension_csvName recordId
  rw [heq] at hmem
  exact Table.get_eq_none_iff _ |>.mp h _ (List.mem_filter.mp hmem).1

theorem putAnchor_eq (sha256Hex : Bytes → Str) (csvBytes : Bytes) (io : IssueIo) (w : PoolWorld) :
    ∃ anchors, w.putAnchor sha256Hex csvBytes io = { w with anchors := anchors } := by
  unfold putAnchor
  cases io.anchorWrite with
  | error e => exact ⟨w.anchors, rfl⟩
  | ok _ => exact ⟨_, rfl⟩

/-- When the CSV is not stored, the failure is logged as far as the log can be written. -/
theorem traced_of_csvFailed_iff {sent : PoolWorld} {signature : Str} {e : String}
    (hburned : io.recordId.text ∈ sent.burned) (hdataset : sent.dataset = w.dataset)
    (hfailure : sent.failureLogged io.recordId.text = false) (h : io.csvWrite = .error e) :
    Traced w csvBytes io (sent.issueWrites sha256Hex user signature csvBytes io) ↔
      io.audit.file ∨ io.audit.db := by
  unfold issueWrites
  rw [h]
  unfold Traced
  simp [Except.isOk, Except.toBool, hburned, hdataset, failureLogged_log, hfailure,
    PoolEvent.isFailureOf]

/-- What the pool looks like once the CSV is stored, before the metadata is read again. -/
structure CsvStored (sent stored : PoolWorld) (csvBytes : Bytes) (io : IssueIo) : Prop where
  burned : stored.burned = sent.burned
  metadata : stored.metadata = sent.metadata
  dataset : stored.dataset = sent.dataset.insert (csvName io.recordId.text) csvBytes
  failure : stored.failureLogged io.recordId.text = sent.failureLogged io.recordId.text

theorem csvStored_putAnchor (sent : PoolWorld) :
    CsvStored sent ((sent.putCsv io.recordId csvBytes).putAnchor sha256Hex csvBytes io)
      csvBytes io := by
  obtain ⟨anchors, hanchors⟩ :=
    putAnchor_eq sha256Hex csvBytes io (sent.putCsv io.recordId csvBytes)
  rw [hanchors]
  exact ⟨rfl, rfl, rfl, rfl⟩

/-- An error after the CSV is stored leaves the data set changed. -/
theorem CsvStored.not_traced {sent stored : PoolWorld} (h : CsvStored sent stored csvBytes io)
    (hdataset : sent.dataset = w.dataset)
    (hcsv : w.dataset.get (csvName io.recordId.text) = none) (e : ApiError) :
    ¬Traced w csvBytes io (.error e, stored) := by
  rintro ⟨-, hfiles⟩
  have hsame := hfiles (by simp [Except.isOk, Except.toBool])
  rw [h.dataset, hdataset] at hsame
  exact csvFiles_insert_ne hcsv hsame

/-- Saved metadata accounts for the data set. -/
theorem CsvStored.traced {sent stored : PoolWorld} (h : CsvStored sent stored csvBytes io)
    {m m' : PoolMetadata} (hm : w.metadata = some m)
    (htotal : m'.totalCredentials = m.totalCredentials + countCsvRows csvBytes)
    {record : DatasetFileMeta} (hrecord : record.recordId = io.recordId.text)
    (hrows : record.rows = countCsvRows csvBytes) (response : IssueResponse) (event : PoolEvent) :
    Traced w csvBytes io (.ok response,
      (PoolWorld.offer { stored with metadata := some m' } record).log io.audit event) := by
  refine ⟨fun _ => Or.inl ⟨rfl, ?_, ?_, record, ?_, hrecord, hrows⟩, fun hno => absurd rfl hno⟩
  · rw [log_dataset]
    change stored.dataset.get _ = _
    rw [h.dataset, Table.get_insert_self]
  · rw [log_metadata, hm]
    exact congrArg some htotal
  · simp [offer]

/-- Once the CSV is stored, the request leaves a trace exactly if it gets to save the
metadata. -/
theorem traced_of_csvStored_iff {sent : PoolWorld} {signature : Str} {m : PoolMetadata}
    (hdataset : sent.dataset = w.dataset) (hmeta : sent.metadata = w.metadata)
    (hm : w.metadata = some m) (hcsv : w.dataset.get (csvName io.recordId.text) = none)
    (h : io.csvWrite = .ok ()) :
    Traced w csvBytes io (sent.issueWrites sha256Hex user signature csvBytes io) ↔
      io.reload ∧ io.metaWrite = .ok () := by
  have hstored : CsvStored sent
      ((sent.putCsv io.recordId csvBytes).putAnchor sha256Hex csvBytes io) csvBytes io :=
    csvStored_putAnchor sent
  unfold issueWrites
  rw [h]
  generalize (sent.putCsv io.recordId csvBytes).putAnchor sha256Hex csvBytes io = stored at hstored
  have hmeta' : stored.metadata = some m := by rw [hstored.metadata, hmeta, hm]
  dsimp only
  cases hreload : io.reload with
  | false =>
    have hload : stored.loadPoolMeta false = loadPoolMeta.missing stored := by
      simp [loadPoolMeta, hmeta']
    rw [hload]
    refine iff_of_false (hstored.not_traced hdataset hcsv _) ?_
    simp
  | true =>
    rw [loadPoolMeta_eq_ok_iff.mpr ⟨rfl, hmeta'⟩]
    cases hwrite : io.metaWrite with
    | error e =>
      refine iff_of_false (hstored.not_traced hdataset hcsv _) ?_
      simp
    | ok _ =>
      refine iff_of_true ?_ ⟨rfl, rfl⟩
      exact hstored.traced hm rfl rfl rfl _ _

/-! ## The request as a whole -/

/-- A request that changes nothing is safe. -/
theorem traced_of_unchanged (hfresh : FreshRecord w io.recordId) (e : ApiError) :
    Traced w csvBytes io (.error e, w) :=
  ⟨fun hburned => absurd hburned hfresh.burned, fun _ => rfl⟩

/-- A burn that takes effect and is reported as an error leaves no trace. -/
theorem not_traced_of_unreported {sent : PoolWorld} (hburned : io.recordId.text ∈ sent.burned)
    (hfailure : sent.failureLogged io.recordId.text = false) (e : ApiError) :
    ¬Traced w csvBytes io (.error e, sent) := by
  rintro ⟨htrace, -⟩
  rcases htrace hburned with ⟨hok, -⟩ | hlogged
  · cases hok
  · rw [hfailure] at hlogged
    cases hlogged

theorem exists_error_signSendAndParse (commitment : Commitment) (h : ¬io.chain.takesEffect) :
    ∃ e, signSendAndParse io.chain commitment = .error e := by
  cases hsend : signSendAndParse io.chain commitment with
  | error e => exact ⟨e, rfl⟩
  | ok signature => exact absurd (takesEffect_of_signSendAndParse hsend).1 h

end Outcomes

/-- A request to issue leaves a trace of its burn exactly for the safe outcomes. -/
theorem noSilentBurn_iff (sha256Hex : Bytes → Str) (parseFromStr : Str → Str → Bool)
    (w : PoolWorld) (user : Str) (csvBytes : Bytes) (io : IssueIo)
    (hfresh : FreshRecord w io.recordId) :
    NoSilentBurn sha256Hex parseFromStr w user csvBytes io ↔
      SafeIssue parseFromStr w csvBytes io := by
  unfold NoSilentBurn SafeIssue
  rw [issuable_iff, PoolWorld.issueCredentials]
  cases hchecks : w.issueChecks parseFromStr csvBytes io with
  | error e => exact iff_of_true (traced_of_unchanged hfresh e) (by simp)
  | ok m =>
    have hm : w.metadata = some m := (issueChecks_eq_ok_iff.mp hchecks).2.2.2.1
    dsimp only
    by_cases heffect : io.chain.takesEffect
    · have hsent : w.recordBurn io = { w with burned := w.burned ++ [io.recordId.text] } :=
        if_pos heffect
      have hburned : io.recordId.text ∈ (w.recordBurn io).burned := by simp [hsent]
      have hdataset : (w.recordBurn io).dataset = w.dataset := by rw [hsent]
      have hmeta : (w.recordBurn io).metadata = w.metadata := by rw [hsent]
      have hfailure : (w.recordBurn io).failureLogged io.recordId.text = false := by
        rw [hsent]
        exact hfresh.failure
      have hreported := signSendAndParse_isOk_iff heffect
      cases hsend : signSendAndParse io.chain .finalized with
      | error e =>
        rw [hsend] at hreported
        refine iff_of_false (not_traced_of_unreported hburned hfailure e) fun hsafe => ?_
        have hpolled := hsafe ⟨m, rfl⟩ heffect
        exact absurd (hreported.mpr ⟨hpolled.1, hpolled.2.1⟩) Bool.false_ne_true
      | ok signature =>
        obtain ⟨hsubmitted, hpolled⟩ := hreported.mp (by rw [hsend]; rfl)
        cases hcsv : io.csvWrite with
        | error e =>
          refine (traced_of_csvFailed_iff hburned hdataset hfailure hcsv).trans ?_
          exact ⟨fun haudit _ _ => ⟨hsubmitted, hpolled, haudit⟩,
            fun hsafe => (hsafe ⟨m, rfl⟩ heffect).2.2⟩
        | ok _ =>
          refine (traced_of_csvStored_iff hdataset hmeta hm hfresh.csv hcsv).trans ?_
          exact ⟨fun hsaved _ _ => ⟨hsubmitted, hpolled, hsaved⟩,
            fun hsafe => (hsafe ⟨m, rfl⟩ heffect).2.2⟩
    · obtain ⟨e, he⟩ := exists_error_signSendAndParse .finalized heffect
      have hsent : w.recordBurn io = w := if_neg heffect
      rw [he, hsent]
      exact iff_of_true (traced_of_unchanged hfresh e) fun _ h => absurd h heffect

/-- A pool with its initial data set. -/
def sampleReadyPool : PoolWorld where
  poolPda := "Pool1".toList
  onChain := true
  burned := []
  metadata := some ⟨.malta, "pilot_v1".toList, .headersOnly, .ready, 1, 0⟩
  schema := some sampleFields
  dataset := Table.empty.insert "initial.csv".toList (asBytes "a,b\n1,2\n".toList)
  anchors := Table.empty.insert "initial.meta.json".toList ⟨initialRecordId,
    "492d5ea496056f1a6a6592241032fab764c321596317930b4fa0e1e8bc3b7470".toList, none⟩
  offered := [⟨initialRecordId, "admin".toList, 1, sampleDate, none⟩]
  revocations := Table.empty
  auditFile := [.poolCreated .malta, .datasetInitialized initialRecordId 1]
  auditDb := [.poolCreated .malta, .datasetInitialized initialRecordId 1]

/-- An issuance whose burn lands. The polls and the outcome of the last write are given. -/
def sampleIssueIo (polls : List PollAnswer) (metaWrite : Except String Unit) : IssueIo where
  payload := .ok ()
  load := true
  checks := .ok ()
  recordId := ⟨sampleRecordId, by decide⟩
  commitment := []
  chain := ⟨.ok (), .ok "5Sig".toList, polls, .landed⟩
  csvWrite := .ok ()
  anchorWrite := .ok ()
  reload := true
  metaWrite := metaWrite
  now := sampleDate
  audit := ⟨true, true⟩

/-- The SHA-256 of the CSV that the sample issuance uploads. -/
def sampleSha256 : Str :=
  "57f6579a0b708406e70a305ed12e45b74c383b82abb6ac2f23556d65d5d0b807".toList

/-- The transaction is confirmed when the time-out comes and is finalized afterwards : the
right is burned, the request returns an error, and nothing tells of it. A failed write of
the metadata after the data set was stored has the same result, with the data set changed. -/
theorem burned_without_trace :
    FreshRecord sampleReadyPool ⟨sampleRecordId, by decide⟩ ∧
      ¬NoSilentBurn (fun _ => sampleSha256) (fun _ _ => false) sampleReadyPool "admin".toList
        (asBytes "a,b\n3,4\n".toList) (sampleIssueIo [.unknown, .included .confirmed] (.ok ())) ∧
      ¬NoSilentBurn (fun _ => sampleSha256) (fun _ _ => false) sampleReadyPool "admin".toList
        (asBytes "a,b\n3,4\n".toList) (sampleIssueIo [.included .finalized] (.error "disk full")) :=
  ⟨⟨by decide, by decide, by decide⟩, by decide, by decide⟩

/-- The same burn, seen as final by the third poll, and all writes succeed. -/
theorem noSilentBurn_finalized :
    FreshRecord sampleReadyPool ⟨sampleRecordId, by decide⟩ ∧
      NoSilentBurn (fun _ => sampleSha256) (fun _ _ => false) sampleReadyPool "admin".toList
        (asBytes "a,b\n3,4\n".toList)
        (sampleIssueIo [.unknown, .included .confirmed, .included .finalized] (.ok ())) := by
  have hfresh : FreshRecord sampleReadyPool ⟨sampleRecordId, by decide⟩ :=
    ⟨by decide, by decide, by decide⟩
  refine ⟨hfresh, (noSilentBurn_iff _ _ _ _ _ _ hfresh).mpr fun _ _ => ?_⟩
  exact ⟨rfl, by simp [sampleIssueIo], rfl, rfl⟩

end RelationalSdk
