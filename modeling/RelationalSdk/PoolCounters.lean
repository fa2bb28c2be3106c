import RelationalSdk.PoolHandlers
import RelationalSdk.Threads

/-!
# The counters of a pool

`initialize_pool`, `issue_credentials` and `revoke_credentials` each read `pool.meta.json`,
change a counter and write the whole file back. Only issuance holds the pool's mutex.
Each request is a thread whose reads, writes and lock acquisitions are separate actions,
so any interleaving of them is a run.

`CountersExact` is what the counters should be once every request has returned Ok. A save
that overwrites a file changed since the request read it loses the other update
(`lost_update`), and this is the only way to go wrong. `countersExact_of_freshCopy` : the
counters are exact in every run whose saves find the file as the request read it.
-/

namespace RelationalSdk

open Text KeyedTable Threads PoolWorld

/-- A request on the pool. The rows are those of the uploaded CSV. -/
inductive PoolCall where
  | initializePool (rows : Nat)
  | issueCredentials (rows : Nat)
  | revokeCredentials (credentialIds : List Str)
  deriving DecidableEq

/-- Where a request is. -/
inductive PoolPc where
  | start
  /-- `initialize_pool`, with the metadata it checked. -/
  | storing (copy : PoolMetadata)
  /-- Checked, before the lock or the reload of the metadata. -/
  | checked
  /-- `issue_credentials`, holding the lock. -/
  | locked
  /-- `issue_credentials`, with its data set stored. -/
  | stored
  /-- With the metadata it is about to change and write back. -/
  | saving (copy : PoolMetadata)
  /-- `issue_credentials`, before it releases the lock. -/
  | saved
  | returned (result : Except ApiError Unit)
  deriving DecidableEq

/-- A request being handled. -/
structure PoolRequest where
  call : PoolCall
  pc : PoolPc
  deriving DecidableEq

/-- Only `issue_credentials` holds the pool lock, from before it stores its data set. -/
def PoolRequest.holdsLock (r : PoolRequest) : Bool :=
  match r.call, r.pc with
  | .issueCredentials _, .locked => true
  | .issueCredentials _, .stored => true
  | .issueCredentials _, .saving _ => true
  | .issueCredentials _, .saved => true
  | _, _ => false

/-- `pool.meta.json`, the rows of each `{record_id}.csv`, and the pool's mutex. -/
structure PoolFiles where
  metadata : PoolMetadata
  dataset : Table Str Nat
  locked : Bool

/-- What a request does next. -/
inductive PoolAction where
  /-- The checks at the start, on the metadata as it is now. -/
  | check
  /-- Take the pool lock. -/
  | acquire
  /-- Store the data set, under a new record id in `issue_credentials`. -/
  | store (recordId : Str)
  /-- Load the metadata that is about to be changed. -/
  | reload
  /-- Write the changed metadata. -/
  | save
  /-- Release the lock and return. -/
  | finish
  /-- Any other error before the metadata is written. -/
  | abort (e : ApiError)

/-- The checks of `initialize_pool`. -/
def checkInitialize (m : PoolMetadata) : PoolPc :=
  if m.state ≠ .needsInit then
    .returned (.error (.badRequest "pool is already initialized — use /issue to add credentials"))
  else if m.kind = .iobErp then
    .returned (.error (.conflict "IOB ERP pools cannot be initialised via dashboard upload"))
  else .storing m

/-- The checks of `issue_credentials`. -/
def checkIssue (m : PoolMetadata) : PoolPc :=
  if m.state ≠ .ready then
    .returned (.error (.badRequest "pool not initialized — call /initialize first"))
  else if m.kind = .iobErp then
    .returned (.error (.conflict "IOB ERP pools do not accept credential issuance"))
  else .checked

/-- The checks of `revoke_credentials`. -/
def checkRevoke (dataset : Table Str Nat) (credentialIds : List Str) : PoolPc :=
  if credentialIds = [] then
    .returned (.error (.badRequest "credential_ids must not be empty"))
  else
    match credentialIds.find? fun cid => (dataset.get cid).isNone with
    | some cid =>
      let id := String.ofList cid
      .returned (.error (.notFound s!"credential record '{id}' not found in pool"))
    | none => .checked

/-- The metadata a request writes back, from the copy it loaded. -/
def PoolCall.change (copy : PoolMetadata) : PoolCall → PoolMetadata
  | initializePool rows => { copy with state := .ready, totalCredentials := rows }
  | issueCredentials rows => { copy with totalCredentials := copy.totalCredentials + rows }
  | revokeCredentials credentialIds =>
    { copy with revokedCount := copy.revokedCount + credentialIds.length }

/-- One action of a request. An action that is not possible now does nothing. Record ids
are UUIDs, so a new one names no file yet. -/
def poolAct (f : PoolFiles) (r : PoolRequest) : PoolAction → PoolFiles × PoolRequest
  | .check =>
    if r.pc = .start then
      match r.call with
      | .initializePool _ => (f, { r with pc := checkInitialize f.metadata })
      | .issueCredentials _ => (f, { r with pc := checkIssue f.metadata })
      | .revokeCredentials credentialIds =>
        (f, { r with pc := checkRevoke f.dataset credentialIds })
    else (f, r)
  | .acquire =>
    match r.call, r.pc with
    | .issueCredentials _, .checked =>
      if f.locked then (f, r) else ({ f with locked := true }, { r with pc := .locked })
    | _, _ => (f, r)
  | .store recordId =>
    match r.call, r.pc with
    | .initializePool rows, .storing copy =>
      ({ f with dataset := f.dataset.insert initialRecordId rows }, { r with pc := .saving copy })
    | .issueCredentials rows, .locked =>
      if recordId = initialRecordId ∨ (f.dataset.get recordId).isSome then (f, r)
      else ({ f with dataset := f.dataset.insert recordId rows }, { r with pc := .stored })
    | _, _ => (f, r)
  | .reload =>
    match r.call, r.pc with
    | .issueCredentials _, .stored => (f, { r with pc := .saving f.metadata })
    | .revokeCredentials _, .checked => (f, { r with pc := .saving f.metadata })
    | _, _ => (f, r)
  | .save =>
    match r.pc with
    | .saving copy =>
      ({ f with metadata := r.call.change copy },
        { r with pc := match r.call with
          | .issueCredentials _ => .saved
          | _ => .returned (.ok ()) })
    | _ => (f, r)
  | .finish =>
    match r.call, r.pc with
    | .issueCredentials _, .saved =>
      ({ f with locked := false }, { r with pc := .returned (.ok ()) })
    | _, _ => (f, r)
  | .abort e =>
    match r.pc with
    | .saved | .returned _ => (f, r)
    | _ =>
      ({ f with locked := f.locked && !r.holdsLock }, { r with pc := .returned (.error e) })

/-- The three handlers as threads. -/
def poolProgram : Program PoolFiles PoolCall PoolRequest PoolAction :=
  ⟨fun call => ⟨call, .start⟩, poolAct⟩

/-- A pool as `create_pool` leaves it. -/
def freshPool (kind : PoolKind) (schemaId : Str) (mode : ValidationMode) :
    System PoolFiles PoolRequest :=
  ⟨⟨⟨kind, schemaId, mode, .needsInit, 0, 0⟩, Table.empty, false⟩, []⟩

/-! ## Exact counters -/

/-- The rows of all stored data sets. -/
def storedRows (dataset : Table Str Nat) : Nat :=
  (dataset.entries.map Prod.snd).sum

/-- The credentials a request revokes. -/
def PoolCall.revocations : PoolCall → Nat
  | revokeCredentials credentialIds => credentialIds.length
  | _ => 0

/-- The request is to `initialize_pool`. -/
def PoolCall.isInitialize : PoolCall → Bool
  | initializePool _ => true
  | _ => false

/-- The request has returned Ok. -/
def PoolRequest.ok (r : PoolRequest) : Bool :=
  r.pc = .returned (.ok ())

/-- Once all requests have returned Ok, the counters are the stored rows and the revoked
credentials, and at most one request initialised the pool. -/
def CountersExact (s : System PoolFiles PoolRequest) : Prop :=
  (∀ r ∈ s.threads, r.ok) →
    s.shared.metadata.totalCredentials = storedRows s.shared.dataset ∧
    s.shared.metadata.revokedCount = (s.threads.map fun r => r.call.revocations).sum ∧
    s.threads.countP (fun r => r.call.isInitialize) ≤ 1

/-- A save finds the file as the request loaded it. -/
def FreshCopy (f : PoolFiles) (r : PoolRequest) : PoolAction → Prop
  | .save => ∀ copy, r.pc = .saving copy → f.metadata = copy
  | _ => True

/-! ## What a request has contributed -/

namespace PoolRequest

/-- The request has returned an error. -/
def failed (r : PoolRequest) : Bool :=
  match r.pc with
  | .returned (.error _) => true
  | _ => false

/-- Rows that are stored and not yet in the total. -/
def pending (r : PoolRequest) : Nat :=
  match r.call, r.pc with
  | .initializePool rows, .saving _ => rows
  | .issueCredentials rows, .stored => rows
  | .issueCredentials rows, .saving _ => rows
  | _, _ => 0

/-- Revocations that are in the counter. -/
def revoked (r : PoolRequest) : Nat :=
  if r.ok then r.call.revocations else 0

/-- The request has initialised the pool. -/
def initialized (r : PoolRequest) : Bool :=
  r.call.isInitialize && r.ok

/-- The request has stored `initial.csv` and has not failed. -/
def initStored (r : PoolRequest) : Bool :=
  match r.call, r.pc with
  | .initializePool _, .saving _ => true
  | .initializePool _, .returned (.ok _) => true
  | _, _ => false

/-- The request is to initialise the pool, has passed the checks and has not failed. -/
def admitted (r : PoolRequest) : Bool :=
  match r.call, r.pc with
  | .initializePool _, .storing _ => true
  | _, _ => r.initStored

/-- An initialisation works on a copy from before any, and an issuance that has passed
its checks finds the pool ready. -/
def Consistent (f : PoolFiles) (r : PoolRequest) : Prop :=
  match r.call, r.pc with
  | .initializePool _, .storing copy => copy.state = .needsInit
  | .initializePool _, .saving copy => copy.state = .needsInit
  | .issueCredentials _, .start => True
  | .issueCredentials _, .returned (.error _) => True
  | .issueCredentials _, _ => f.metadata.state = .ready
  | _, _ => True

end PoolRequest

/-- Not all requests can return Ok any more : one has failed, or two have been admitted
to initialise the pool. -/
def Doomed (rs : List PoolRequest) : Prop :=
  (∃ r ∈ rs, r.failed) ∨ 2 ≤ rs.countP PoolRequest.admitted

/-- The counters follow what the requests have contributed. -/
structure Tallied (f : PoolFiles) (rs : List PoolRequest) : Prop where
  consistent : ∀ r ∈ rs, r.Consistent f
  once : rs.countP PoolRequest.initialized ≤ 1
  notYet : f.metadata.state = .needsInit → rs.countP PoolRequest.initialized = 0
  untouched : f.metadata.state = .needsInit → f.metadata.totalCredentials = 0
  revoked : f.metadata.revokedCount = (rs.map PoolRequest.revoked).sum
  total : Doomed rs ∨
    f.metadata.totalCredentials + (rs.map PoolRequest.pending).sum = storedRows f.dataset ∧
      ((f.dataset.get initialRecordId).isSome → ∃ r ∈ rs, r.initStored)

theorem PoolRequest.Consistent.mono {f f' : PoolFiles} {r : PoolRequest} (h : r.Consistent f)
    (hready : f.metadata.state = .ready → f'.metadata.state = .ready) : r.Consistent f' := by
  obtain ⟨call, pc⟩ := r
  unfold Consistent at h ⊢
  split at h <;> first | exact h | exact hready h

theorem Doomed.replace {pre post : List PoolRequest} {r r' : PoolRequest}
    (h : Doomed (pre ++ r :: post)) (hfailed : r.failed → r'.failed)
    (hadmitted : r.admitted → r'.failed ∨ r'.admitted) : Doomed (pre ++ r' :: post) := by
  rcases h with hfail | hcount
  · exact Or.inl (exists_mem_replace hfail hfailed)
  · by_cases hr' : r'.failed
    · exact Or.inl ⟨r', by simp, hr'⟩
    · refine Or.inr (hcount.trans ?_)
      simp only [List.countP_append, List.countP_cons]
      by_cases hr : r.admitted
      · simp [hr, (hadmitted hr).resolve_left hr']
      · simp [hr]

/-- A request that moves on without touching the files : it contributes as before,
unless it fails. -/
structure QuietMove (f : PoolFiles) (r r' : PoolRequest) : Prop where
  consistent : r.Consistent f → r'.Consistent f
  failed : r.failed → r'.failed
  pending : r'.failed ∨ r'.pending = r.pending
  revoked : r'.revoked = r.revoked
  initialized : r'.initialized = r.initialized
  admitted : r.admitted → r'.failed ∨ r'.admitted
  initStored : r.initStored → r'.failed ∨ r'.initStored

theorem Tallied.quiet {f f' : PoolFiles} {pre post : List PoolRequest} {r r' : PoolRequest}
    (h : Tallied f (pre ++ r :: post)) (hr : QuietMove f r r')
    (hmeta : f'.metadata = f.metadata) (hdata : f'.dataset = f.dataset) :
    Tallied f' (pre ++ r' :: post) := by
  have hmono : ∀ q : PoolRequest, q.Consistent f → q.Consistent f' :=
    fun q hq => hq.mono fun hready => hmeta ▸ hready
  refine ⟨forall_mem_replace h.consistent hmono fun hc => hmono _ (hr.consistent hc),
    (countP_replace hr.initialized).trans_le h.once, ?_, ?_, ?_, ?_⟩
  · rw [hmeta, countP_replace hr.initialized]
    exact h.notYet
  · rw [hmeta]
    exact h.untouched
  · simpa [hr.revoked, hmeta] using h.revoked
  · rcases h.total with hdoomed | ⟨htotal, hstored⟩
    · exact Or.inl (hdoomed.replace hr.failed hr.admitted)
    · by_cases hfail : r'.failed
      · exact Or.inl (Or.inl ⟨r', by simp, hfail⟩)
      · refine Or.inr ⟨?_, fun hinit => ?_⟩
        · simpa [hr.pending.resolve_left hfail, hmeta, hdata] using htotal
        · exact exists_mem_replace (hstored (hdata ▸ hinit)) fun hs =>
            (hr.initStored hs).resolve_left hfail

theorem storedRows_insert {dataset : Table Str Nat} {recordId : Str} (rows : Nat)
    (h : dataset.get recordId = none) :
    storedRows (dataset.insert recordId rows) = rows + storedRows dataset := by
  unfold storedRows
  rw [((dataset.entries_insert_perm rows h).map Prod.snd).sum_eq]
  simp

/-- Two admitted initialisations doom the run. -/
theorem doomed_of_initStored {pre post : List PoolRequest} {r : PoolRequest} (hr : r.admitted)
    (hnot : r.initStored = false) (h : ∃ q ∈ pre ++ r :: post, q.initStored) :
    Doomed (pre ++ r :: post) := by
  obtain ⟨q, hq, hstored⟩ := h
  have hadmitted : q.admitted := by
    unfold PoolRequest.admitted
    split
    · rfl
    · exact hstored
  have hne : q ≠ r := by
    rintro rfl
    simp [hnot] at hstored
  have hq' : q ∈ pre ++ post := by simpa [hne] using hq
  have hpos : 0 < (pre ++ post).countP PoolRequest.admitted :=
    List.countP_pos_iff.mpr ⟨q, hq', hadmitted⟩
  refine Or.inr ?_
  simp only [List.countP_append, List.countP_cons, hr, if_true] at hpos ⊢
  omega

theorem Tallied.initStore {f : PoolFiles} {pre post : List PoolRequest} {rows : Nat}
    {copy : PoolMetadata} (h : Tallied f (pre ++ ⟨.initializePool rows, .storing copy⟩ :: post)) :
    Tallied { f with dataset := f.dataset.insert initialRecordId rows }
      (pre ++ ⟨.initializePool rows, .saving copy⟩ :: post) := by
  refine ⟨forall_mem_replace h.consistent (fun _ hq => hq.mono id) id,
    (countP_replace (by rfl)).trans_le h.once,
    fun hneeds => (countP_replace (by rfl)).trans (h.notYet hneeds), h.untouched, ?_, ?_⟩
  · simpa [PoolRequest.revoked, PoolRequest.ok] using h.revoked
  · rcases h.total with hdoomed | ⟨htotal, hstored⟩
    · exact Or.inl (hdoomed.replace id fun _ => Or.inr rfl)
    · by_cases hinit : (f.dataset.get initialRecordId).isSome
      · have hdoomed := doomed_of_initStored rfl rfl (hstored hinit)
        exact Or.inl (hdoomed.replace id fun _ => Or.inr rfl)
      · refine Or.inr ⟨?_, fun _ => ⟨_, List.mem_append_right _ List.mem_cons_self, rfl⟩⟩
        have hnone : f.dataset.get initialRecordId = none := by simpa using hinit
        simp only [storedRows_insert rows hnone, ← htotal, List.map_append, List.map_cons,
          List.sum_append, List.sum_cons, PoolRequest.pending]
        omega

theorem Tallied.issueStore {f : PoolFiles} {pre post : List PoolRequest} {rows : Nat}
    (h : Tallied f (pre ++ ⟨.issueCredentials rows, .locked⟩ :: post)) {recordId : Str}
    (hid : recordId ≠ initialRecordId) (hfresh : f.dataset.get recordId = none) :
    Tallied { f with dataset := f.dataset.insert recordId rows }
      (pre ++ ⟨.issueCredentials rows, .stored⟩ :: post) := by
  refine ⟨forall_mem_replace h.consistent (fun _ hq => hq.mono id) id,
    (countP_replace (by rfl)).trans_le h.once,
    fun hneeds => (countP_replace (by rfl)).trans (h.notYet hneeds), h.untouched, ?_, ?_⟩
  · simpa [PoolRequest.revoked, PoolRequest.ok] using h.revoked
  · rcases h.total with hdoomed | ⟨htotal, hstored⟩
    · exact Or.inl (hdoomed.replace id fun hadm => absurd hadm (by simp [PoolRequest.admitted,
        PoolRequest.initStored]))
    · refine Or.inr ⟨?_, fun hinit => exists_mem_replace (hstored ?_) id⟩
      · simp only [storedRows_insert rows hfresh, ← htotal, List.map_append, List.map_cons,
          List.sum_append, List.sum_cons, PoolRequest.pending]
        omega
      · rwa [Table.get_insert_of_ne _ _ (Ne.symm hid)] at hinit

theorem Tallied.initSave {f : PoolFiles} {pre post : List PoolRequest} {rows : Nat}
    (h : Tallied f (pre ++ ⟨.initializePool rows, .saving f.metadata⟩ :: post)) :
    Tallied { f with metadata := (PoolCall.initializePool rows).change f.metadata }
      (pre ++ ⟨.initializePool rows, .returned (.ok ())⟩ :: post) := by
  have hstate : f.metadata.state = .needsInit :=
    h.consistent _ (List.mem_append_right _ List.mem_cons_self)
  refine ⟨forall_mem_replace h.consistent (fun _ hq => hq.mono fun _ => rfl) fun _ => trivial,
    ?_, ?_, ?_, ?_, ?_⟩
  · have hnone := h.notYet hstate
    simp only [List.countP_append, List.countP_cons] at hnone ⊢
    split_ifs at hnone ⊢ <;> omega
  · intro hneeds
    simp [PoolCall.change] at hneeds
  · intro hneeds
    simp [PoolCall.change] at hneeds
  · simpa [PoolRequest.revoked, PoolRequest.ok, PoolCall.revocations, PoolCall.change]
      using h.revoked
  · rcases h.total with hdoomed | ⟨htotal, hstored⟩
    · exact Or.inl (hdoomed.replace id fun _ => Or.inr rfl)
    · refine Or.inr ⟨?_, fun hinit => exists_mem_replace (hstored hinit) fun _ => rfl⟩
      have hzero := h.untouched hstate
      simp only [← htotal, hzero, PoolCall.change, List.map_append, List.map_cons,
        List.sum_append, List.sum_cons, PoolRequest.pending]
      omega

theorem Tallied.issueSave {f : PoolFiles} {pre post : List PoolRequest} {rows : Nat}
    (h : Tallied f (pre ++ ⟨.issueCredentials rows, .saving f.metadata⟩ :: post)) :
    Tallied { f with metadata := (PoolCall.issueCredentials rows).change f.metadata }
      (pre ++ ⟨.issueCredentials rows, .saved⟩ :: post) := by
  have hstate : f.metadata.state = .ready :=
    h.consistent _ (List.mem_append_right _ List.mem_cons_self)
  refine ⟨forall_mem_replace h.consistent (fun _ hq => hq.mono id) fun _ => hstate,
    (countP_replace (by rfl)).trans_le h.once,
    fun hneeds => (countP_replace (by rfl)).trans (h.notYet hneeds), ?_, ?_, ?_⟩
  · intro hneeds
    simp [PoolCall.change, hstate] at hneeds
  · simpa [PoolRequest.revoked, PoolRequest.ok, PoolCall.change] using h.revoked
  · rcases h.total with hdoomed | ⟨htotal, hstored⟩
    · exact Or.inl (hdoomed.replace id fun hadm => absurd hadm (by simp [PoolRequest.admitted,
        PoolRequest.initStored]))
    · refine Or.inr ⟨?_, fun hinit => exists_mem_replace (hstored hinit) id⟩
      simp only [← htotal, PoolCall.change, List.map_append, List.map_cons,
        List.sum_append, List.sum_cons, PoolRequest.pending]
      omega

theorem Tallied.revokeSave {f : PoolFiles} {pre post : List PoolRequest} {ids : List Str}
    (h : Tallied f (pre ++ ⟨.revokeCredentials ids, .saving f.metadata⟩ :: post)) :
    Tallied { f with metadata := (PoolCall.revokeCredentials ids).change f.metadata }
      (pre ++ ⟨.revokeCredentials ids, .returned (.ok ())⟩ :: post) := by
  refine ⟨forall_mem_replace h.consistent (fun _ hq => hq.mono id) fun _ => trivial,
    (countP_replace (by rfl)).trans_le h.once,
    fun hneeds => (countP_replace (by rfl)).trans (h.notYet hneeds), h.untouched, ?_, ?_⟩
  · have hbefore : PoolRequest.revoked ⟨.revokeCredentials ids, .saving f.metadata⟩ = 0 := rfl
    have hafter : PoolRequest.revoked ⟨.revokeCredentials ids, .returned (.ok ())⟩ = ids.length :=
      rfl
    have hrevoked := h.revoked
    simp only [PoolCall.change, List.map_append, List.map_cons, List.sum_append, List.sum_cons,
      hbefore, hafter] at hrevoked ⊢
    omega
  · rcases h.total with hdoomed | ⟨htotal, hstored⟩
    · exact Or.inl (hdoomed.replace id fun hadm => absurd hadm (by simp [PoolRequest.admitted,
        PoolRequest.initStored]))
    · refine Or.inr ⟨?_, fun hinit => exists_mem_replace (hstored hinit) id⟩
      simpa [PoolCall.change, PoolRequest.pending] using htotal

/-! ## Every action keeps the tally -/

theorem QuietMove.fail {f : PoolFiles} {r : PoolRequest} (h : r.ok = false) (e : ApiError) :
    QuietMove f r { r with pc := .returned (.error e) } := by
  have hok : PoolRequest.ok { r with pc := .returned (.error e) } = false := by
    simp [PoolRequest.ok]
  refine ⟨fun _ => ?_, fun _ => rfl, Or.inl rfl, ?_, ?_, fun _ => Or.inl rfl, fun _ => Or.inl rfl⟩
  · unfold PoolRequest.Consistent
    cases r.call <;> trivial
  · simp only [PoolRequest.revoked, h, hok]
  · simp only [PoolRequest.initialized, h, hok]

theorem quietMove_checkInitialize (f : PoolFiles) (rows : Nat) :
    QuietMove f ⟨.initializePool rows, .start⟩
      ⟨.initializePool rows, checkInitialize f.metadata⟩ := by
  unfold checkInitialize
  split_ifs with hstate hkind
  · exact QuietMove.fail rfl _
  · exact QuietMove.fail rfl _
  · exact ⟨fun _ => not_not.mp hstate, id, Or.inr rfl, rfl, rfl, fun _ => Or.inr rfl, nofun⟩

theorem quietMove_checkIssue (f : PoolFiles) (rows : Nat) :
    QuietMove f ⟨.issueCredentials rows, .start⟩
      ⟨.issueCredentials rows, checkIssue f.metadata⟩ := by
  unfold checkIssue
  split_ifs with hstate hkind
  · exact QuietMove.fail rfl _
  · exact QuietMove.fail rfl _
  · exact ⟨fun _ => not_not.mp hstate, id, Or.inr rfl, rfl, rfl, nofun, nofun⟩

theorem quietMove_checkRevoke (f : PoolFiles) (ids : List Str) :
    QuietMove f ⟨.revokeCredentials ids, .start⟩
      ⟨.revokeCredentials ids, checkRevoke f.dataset ids⟩ := by
  unfold checkRevoke
  split_ifs
  · exact QuietMove.fail rfl _
  · split
    · exact QuietMove.fail rfl _
    · exact ⟨id, id, Or.inr rfl, rfl, rfl, nofun, nofun⟩

theorem tallied_poolAct (f : PoolFiles) (pre : List PoolRequest) (r : PoolRequest)
    (post : List PoolRequest) (a : PoolAction) (h : Tallied f (pre ++ r :: post))
    (hok : FreshCopy f r a) : Tallied (poolAct f r a).1 (pre ++ (poolAct f r a).2 :: post) := by
  obtain ⟨call, pc⟩ := r
  cases a with
  | check =>
    simp only [poolAct]
    split_ifs with hpc
    · subst hpc
      cases call with
      | initializePool rows => exact h.quiet (quietMove_checkInitialize f rows) rfl rfl
      | issueCredentials rows => exact h.quiet (quietMove_checkIssue f rows) rfl rfl
      | revokeCredentials ids => exact h.quiet (quietMove_checkRevoke f ids) rfl rfl
    · exact h
  | acquire =>
    simp only [poolAct]
    split
    · split_ifs
      · exact h
      · exact h.quiet ⟨id, id, Or.inr rfl, rfl, rfl, nofun, nofun⟩ rfl rfl
    · exact h
  | store recordId =>
    simp only [poolAct]
    split
    · exact h.initStore
    · split_ifs with hused
      · exact h
      · obtain ⟨hid, hfresh⟩ := not_or.mp hused
        exact h.issueStore hid (by simpa using hfresh)
    · exact h
  | reload =>
    simp only [poolAct]
    split
    · exact h.quiet ⟨id, id, Or.inr rfl, rfl, rfl, nofun, nofun⟩ rfl rfl
    · exact h.quiet ⟨id, id, Or.inr rfl, rfl, rfl, nofun, nofun⟩ rfl rfl
    · exact h
  | save =>
    simp only [poolAct]
    split
    · obtain rfl := hok _ rfl
      cases call with
      | initializePool rows => exact h.initSave
      | issueCredentials rows => exact h.issueSave
      | revokeCredentials ids => exact h.revokeSave
    · exact h
  | finish =>
    simp only [poolAct]
    split
    · exact h.quiet ⟨id, id, Or.inr rfl, rfl, rfl, nofun, nofun⟩ rfl rfl
    · exact h
  | abort e =>
    simp only [poolAct]
    split
    · exact h
    · exact h
    · rename_i hsaved hreturned
      refine h.quiet (QuietMove.fail ?_ e) rfl rfl
      simpa [PoolRequest.ok] using hreturned (.ok ())

theorem tallied_spawn (f : PoolFiles) (rs : List PoolRequest) (call : PoolCall)
    (h : Tallied f rs) : Tallied f (rs ++ [⟨call, .start⟩]) := by
  have hstart : PoolRequest.Consistent f ⟨call, .start⟩ := by cases call <;> trivial
  have hinit : PoolRequest.initialized ⟨call, .start⟩ = false := by cases call <;> rfl
  have hpending : PoolRequest.pending ⟨call, .start⟩ = 0 := by cases call <;> rfl
  have hadmitted : PoolRequest.admitted ⟨call, .start⟩ = false := by cases call <;> rfl
  refine ⟨?_, ?_, ?_, h.untouched, ?_, ?_⟩
  · intro r hr
    rcases List.mem_append.mp hr with hr | hr
    · exact h.consistent r hr
    · rwa [List.mem_singleton.mp hr]
  · simpa [hinit] using h.once
  · simpa [List.countP_append, hinit] using h.notYet
  · simpa [PoolRequest.revoked, PoolRequest.ok] using h.revoked
  · rcases h.total with (⟨r, hr, hfail⟩ | hcount) | ⟨htotal, hstored⟩
    · exact Or.inl (Or.inl ⟨r, List.mem_append_left _ hr, hfail⟩)
    · exact Or.inl (Or.inr (by simpa [hadmitted] using hcount))
    · refine Or.inr ⟨by simpa [hpending] using htotal, fun hinit => ?_⟩
      obtain ⟨r, hr, hrs⟩ := hstored hinit
      exact ⟨r, List.mem_append_left _ hr, hrs⟩

/-- A request that has returned Ok has contributed all it does. -/
theorem PoolRequest.of_ok {r : PoolRequest} (h : r.ok) :
    r.failed = false ∧ r.pending = 0 ∧ r.revoked = r.call.revocations ∧
      r.initialized = r.call.isInitialize ∧ r.admitted = r.call.isInitialize := by
  obtain ⟨call, pc⟩ := r
  have hpc : pc = .returned (.ok ()) := by simpa [ok] using h
  subst hpc
  cases call <;> exact ⟨rfl, rfl, rfl, rfl, rfl⟩

/-- When all requests have returned Ok, the tally is the counters. -/
theorem Tallied.countersExact {s : System PoolFiles PoolRequest}
    (h : Tallied s.shared s.threads) : CountersExact s := by
  intro hok
  have hfacts := fun r hr => PoolRequest.of_ok (hok r hr)
  have hinit : s.threads.countP PoolRequest.initialized =
      s.threads.countP fun r => r.call.isInitialize :=
    List.countP_congr fun r hr => by rw [(hfacts r hr).2.2.2.1]
  have hadmitted : s.threads.countP PoolRequest.admitted =
      s.threads.countP fun r => r.call.isInitialize :=
    List.countP_congr fun r hr => by rw [(hfacts r hr).2.2.2.2]
  have hpending : (s.threads.map PoolRequest.pending).sum = 0 := by
    refine List.sum_eq_zero fun n hn => ?_
    obtain ⟨r, hr, rfl⟩ := List.mem_map.mp hn
    exact (hfacts r hr).2.1
  have hrevoked : s.threads.map PoolRequest.revoked = s.threads.map fun r => r.call.revocations :=
    List.map_congr_left fun r hr => (hfacts r hr).2.2.1
  have honce := h.once
  have hnotDoomed : ¬Doomed s.threads := by
    rintro (⟨r, hr, hfail⟩ | hcount)
    · simp [(hfacts r hr).1] at hfail
    · omega
  refine ⟨?_, hrevoked ▸ h.revoked, hinit ▸ honce⟩
  have htotal := (h.total.resolve_left hnotDoomed).1
  rwa [hpending, Nat.add_zero] at htotal

theorem tallied_freshPool (kind : PoolKind) (schemaId : Str) (mode : ValidationMode) :
    Tallied (freshPool kind schemaId mode).shared (freshPool kind schemaId mode).threads :=
  ⟨by simp [freshPool], Nat.zero_le 1, fun _ => rfl, fun _ => rfl, rfl,
    Or.inr ⟨rfl, by simp [freshPool]⟩⟩

/-- The counters are exact in every state of a run whose saves find the file as the
request loaded it. -/
theorem countersExact_of_freshCopy (kind : PoolKind) (schemaId : Str) (mode : ValidationMode)
    (is : List (Input PoolCall PoolAction))
    (h : Runs.Along (step poolProgram) (onActs FreshCopy) (freshPool kind schemaId mode) is) :
    Runs.Always (step poolProgram) CountersExact (freshPool kind schemaId mode) is := by
  exact (always_of_acts poolProgram tallied_spawn tallied_poolAct
    (tallied_freshPool kind schemaId mode) h).imp fun _ hs => Tallied.countersExact hs

instance (f : PoolFiles) (r : PoolRequest) : ∀ a, Decidable (FreshCopy f r a)
  | .save =>
    match h : r.pc with
    | .saving copy => decidable_of_iff (f.metadata = copy) (by simp [FreshCopy, h])
    | .start | .storing _ | .checked | .locked | .stored | .saved | .returned _ =>
      .isTrue (by simp [FreshCopy, h])
  | .check | .acquire | .store _ | .reload | .finish | .abort _ => .isTrue trivial

/-- A Malta pool. -/
def maltaPool : System PoolFiles PoolRequest :=
  freshPool .malta "schema".toList .headersOnly

/-- A revocation that loads the metadata before an issuance writes it, and writes it
afterwards. -/
def interleavedRevocation : List (Input PoolCall PoolAction) :=
  [.spawn (.initializePool 3), .run 0 .check, .run 0 (.store initialRecordId), .run 0 .save,
    .spawn (.revokeCredentials [initialRecordId]), .spawn (.issueCredentials 5),
    .run 1 .check, .run 1 .reload,
    .run 2 .check, .run 2 .acquire, .run 2 (.store "record".toList), .run 2 .reload,
    .run 2 .save, .run 2 .finish, .run 1 .save]

/-- All three requests return Ok, eight rows are stored, and the total says three. -/
theorem lost_update :
    (∀ r ∈ (Runs.exec (step poolProgram) maltaPool interleavedRevocation).threads, r.ok) ∧
    storedRows (Runs.exec (step poolProgram) maltaPool interleavedRevocation).shared.dataset = 8 ∧
    (Runs.exec (step poolProgram) maltaPool interleavedRevocation).shared.metadata.totalCredentials
      = 3 ∧
    ¬CountersExact (Runs.exec (step poolProgram) maltaPool interleavedRevocation) := by
  have hok : ∀ r ∈ (Runs.exec (step poolProgram) maltaPool interleavedRevocation).threads,
      r.ok := by
    decide +kernel
  have hrows : storedRows (Runs.exec (step poolProgram) maltaPool
      interleavedRevocation).shared.dataset = 8 := by decide +kernel
  have htotal : (Runs.exec (step poolProgram) maltaPool
      interleavedRevocation).shared.metadata.totalCredentials = 3 := by decide +kernel
  refine ⟨hok, hrows, htotal, fun h => ?_⟩
  have := (h hok).1
  rw [hrows, htotal] at this
  exact absurd this (by decide)

/-- The same requests one after the other. -/
def serialRevocation : List (Input PoolCall PoolAction) :=
  [.spawn (.initializePool 3), .run 0 .check, .run 0 (.store initialRecordId), .run 0 .save,
    .spawn (.revokeCredentials [initialRecordId]), .spawn (.issueCredentials 5),
    .run 1 .check, .run 1 .reload, .run 1 .save,
    .run 2 .check, .run 2 .acquire, .run 2 (.store "record".toList), .run 2 .reload,
    .run 2 .save, .run 2 .finish]

/-- One after the other, the requests leave exact counters. -/
theorem countersExact_serialRevocation :
    Runs.Always (step poolProgram) CountersExact maltaPool serialRevocation :=
  countersExact_of_freshCopy .malta "schema".toList .headersOnly serialRevocation
    (by decide +kernel)

end RelationalSdk
