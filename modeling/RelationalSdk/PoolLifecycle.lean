import RelationalSdk.Issuance

/-!
# The lifecycle of a pool

Requests on one pool, one after the other, each of whose writes may fail. Of everything they
read and write, the lifecycle concerns four things (`PoolCore`) : whether the pool account
exists, `pool.meta.json`, `initial.csv` and its anchor. `CoreStep` is the lifecycle in these
terms, and `poolStep_refines` says that every request, however it ends, makes one step of
it.

`lifecycle_sound` : between requests, a pool that is ready has its initial data set with the
hash that its anchor records, and `total_credentials` is the number of rows of the uploads
that were answered with success. Once ready, a pool stays ready and keeps `initial.csv`.
-/

namespace RelationalSdk

open Text KeyedTable Runs PoolWorld

/-! ## The lifecycle -/

/-- What the lifecycle of a pool is about. -/
structure PoolCore where
  onChain : Bool
  metadata : Option PoolMetadata
  initialCsv : Option Bytes
  initialAnchor : Option DatasetAnchor

/-- A step of the lifecycle, with the number of rows it credits. -/
inductive CoreStep (sha256Hex : Bytes → Str) : PoolCore → Nat → PoolCore → Prop
  /-- Nothing of the lifecycle changes. -/
  | stay (c) : CoreStep sha256Hex c 0 c
  /-- The pool account is created, the metadata is not written. -/
  | account (c) : CoreStep sha256Hex c 0 { c with onChain := true }
  /-- The pool is created. -/
  | create (c) (m : PoolMetadata) (hnew : c.onChain = false) (hstate : m.state = .needsInit)
      (htotal : m.totalCredentials = 0) :
      CoreStep sha256Hex c 0 { c with onChain := true, metadata := some m }
  /-- An initialization stops after the CSV. -/
  | seedCsv (c) (m : PoolMetadata) (b : Bytes) (hm : c.metadata = some m)
      (hstate : m.state = .needsInit) : CoreStep sha256Hex c 0 { c with initialCsv := some b }
  /-- An initialization stops before the metadata. -/
  | seed (c) (m : PoolMetadata) (b : Bytes) (a : DatasetAnchor) (hm : c.metadata = some m)
      (hstate : m.state = .needsInit) :
      CoreStep sha256Hex c 0 { c with initialCsv := some b, initialAnchor := some a }
  /-- The pool is initialized. -/
  | seeded (c) (m : PoolMetadata) (b : Bytes) (a : DatasetAnchor) (rows : Nat)
      (hm : c.metadata = some m) (hstate : m.state = .needsInit)
      (hsha : a.sha256 = sha256Hex b) :
      CoreStep sha256Hex c rows { c with
        metadata := some { m with state := .ready, totalCredentials := rows }
        initialCsv := some b
        initialAnchor := some a }
  /-- Counters of an existing pool go up, that of the rows only once it is initialized. -/
  | count (c) (m m' : PoolMetadata) (rows : Nat) (hm : c.metadata = some m)
      (hrows : m.state = .ready ∨ rows = 0) (hstate : m'.state = m.state)
      (htotal : m'.totalCredentials = m.totalCredentials + rows) :
      CoreStep sha256Hex c rows { c with metadata := some m' }

/-- What holds between requests, `credited` being the rows credited so far. -/
structure CoreOk (sha256Hex : Bytes → Str) (c : PoolCore) (credited : Nat) : Prop where
  account : c.metadata.isSome → c.onChain
  total : ∀ m ∈ c.metadata, m.totalCredentials = credited
  uncredited : (∀ m ∈ c.metadata, m.state = .needsInit) → credited = 0
  ready : ∀ m ∈ c.metadata, m.state = .ready →
    ∃ b a, c.initialCsv = some b ∧ c.initialAnchor = some a ∧ a.sha256 = sha256Hex b

/-- The pool is ready, with the initial data set `b`. -/
def PoolCore.Seeded (c : PoolCore) (b : Bytes) : Prop :=
  (∃ m ∈ c.metadata, m.state = .ready) ∧ c.initialCsv = some b

section Core

variable {sha256Hex : Bytes → Str} {c c' : PoolCore} {rows credited : Nat}

/-- A pool that needs its initial data set makes no promise about it. -/
theorem CoreOk.reseed (h : CoreOk sha256Hex c credited) {m : PoolMetadata}
    (hm : c.metadata = some m) (hstate : m.state = .needsInit) (b : Option Bytes)
    (a : Option DatasetAnchor) :
    CoreOk sha256Hex { c with initialCsv := b, initialAnchor := a } credited := by
  refine ⟨h.account, h.total, h.uncredited, fun m' hm' hready => ?_⟩
  obtain rfl : m = m' := Option.some.inj (hm.symm.trans hm')
  rw [hstate] at hready
  cases hready

/-- A step of the lifecycle keeps what holds between requests. -/
theorem CoreStep.preserves (hstep : CoreStep sha256Hex c rows c')
    (h : CoreOk sha256Hex c credited) : CoreOk sha256Hex c' (credited + rows) := by
  cases hstep with
  | stay => exact h
  | account => exact ⟨fun _ => rfl, h.total, h.uncredited, h.ready⟩
  | create m hnew hstate htotal =>
    have hnone : c.metadata = none := by
      by_contra hsome
      have honChain := h.account (Option.isSome_iff_ne_none.mpr hsome)
      rw [hnew] at honChain
      cases honChain
    have hzero : credited = 0 := h.uncredited (by simp [hnone])
    refine ⟨fun _ => rfl, ?_, fun _ => hzero, ?_⟩
    · rintro _ ⟨⟩
      rw [htotal, hzero]
    · rintro _ ⟨⟩ hready
      rw [hstate] at hready
      cases hready
  | seedCsv m b hm hstate => exact h.reseed hm hstate (some b) c.initialAnchor
  | seed m b a hm hstate => exact h.reseed hm hstate (some b) (some a)
  | seeded m b a _ hm hstate hsha =>
    have hzero : credited = 0 := by
      refine h.uncredited fun m' hm' => ?_
      rw [← Option.some.inj (hm.symm.trans hm')]
      exact hstate
    refine ⟨fun _ => h.account (by rw [hm]; rfl), ?_, ?_, ?_⟩
    · rintro _ ⟨⟩
      rw [hzero, Nat.zero_add]
    · intro hall
      cases hall _ rfl
    · rintro _ ⟨⟩ -
      exact ⟨b, a, rfl, rfl, hsha⟩
  | count m m' _ hm hrows hstate htotal =>
    refine ⟨fun _ => h.account (by rw [hm]; rfl), ?_, ?_, ?_⟩
    · rintro _ ⟨⟩
      rw [htotal, h.total m hm]
    · intro hall
      have hinit : m.state = .needsInit := by rw [← hstate]; exact hall m' rfl
      have hzero : credited = 0 := by
        refine h.uncredited fun m'' hm'' => ?_
        rw [← Option.some.inj (hm.symm.trans hm'')]
        exact hinit
      rcases hrows with hready | hrows
      · rw [hready] at hinit
        cases hinit
      · rw [hzero, hrows]
    · rintro _ ⟨⟩ hready
      exact h.ready m hm (hstate ▸ hready)

/-- Once ready, the pool stays ready and keeps its initial data set. -/
theorem CoreStep.seeded_of_seeded (hstep : CoreStep sha256Hex c rows c')
    (hok : CoreOk sha256Hex c credited) {b : Bytes} (h : c.Seeded b) : c'.Seeded b := by
  obtain ⟨⟨m₀, hm₀, hready⟩, hcsv⟩ := h
  have hno : ∀ m, c.metadata = some m → m.state ≠ .needsInit := by
    intro m hm hinit
    rw [← Option.some.inj (hm₀.symm.trans hm), hready] at hinit
    cases hinit
  cases hstep with
  | stay => exact ⟨⟨m₀, hm₀, hready⟩, hcsv⟩
  | account => exact ⟨⟨m₀, hm₀, hready⟩, hcsv⟩
  | create m hnew hstate htotal =>
    have honChain := hok.account (by rw [hm₀]; rfl)
    rw [hnew] at honChain
    cases honChain
  | seedCsv m _ hm hstate => exact absurd hstate (hno m hm)
  | seed m _ a hm hstate => exact absurd hstate (hno m hm)
  | seeded m _ a _ hm hstate hsha => exact absurd hstate (hno m hm)
  | count m m' _ hm hrows hstate htotal =>
    refine ⟨⟨m', rfl, ?_⟩, hcsv⟩
    rw [hstate, ← Option.some.inj (hm₀.symm.trans hm), hready]

end Core

/-! ## The requests -/

/-- The part of a pool that its lifecycle is about. -/
def PoolWorld.core (w : PoolWorld) : PoolCore :=
  ⟨w.onChain, w.metadata, w.dataset.get (csvName initialRecordId),
    w.anchors.get (metaName initialRecordId)⟩

/-- A request on the pool, with the outcome of everything it asks of its surroundings. -/
inductive PoolOp where
  | createMaltaPool (schemaId : Str) (fields : List FieldSchema) (io : CreateIo)
  | createIobErpPool (io : CreateIo)
  | uploadSchema (schemaId : Str) (fields : List FieldSchema) (io : SchemaIo)
  | initializePool (user : Str) (csvBytes : Bytes) (io : InitializeIo)
  | issueCredentials (user : Str) (csvBytes : Bytes) (io : IssueIo)
  | revokeCredentials (user : Str) (credentialIds : List Str) (reason : Option Str)
      (io : RevokeIo)

/-- The pool after some requests, and the row counts of the uploads that returned `Ok`. -/
structure PoolRun where
  world : PoolWorld
  credited : List Nat

/-- An upload is credited if its request returned `Ok`. -/
def creditIfOk {α : Type} (result : Except ApiError α) (csvBytes : Bytes) : List Nat :=
  if result.isOk then [countCsvRows csvBytes] else []

/-- The pool after one more request. -/
def poolStep (sha256Hex : Bytes → Str) (parseFromStr : Str → Str → Bool) (s : PoolRun) :
    PoolOp → PoolRun
  | .createMaltaPool schemaId fields io =>
    { s with world := (s.world.createMaltaPool schemaId fields io).2 }
  | .createIobErpPool io => { s with world := (s.world.createIobErpPool io).2 }
  | .uploadSchema schemaId fields io =>
    { s with world := (s.world.uploadSchema schemaId fields io).2 }
  | .initializePool user csvBytes io =>
    let r := s.world.initializePool sha256Hex parseFromStr user csvBytes io
    ⟨r.2, s.credited ++ creditIfOk r.1 csvBytes⟩
  | .issueCredentials user csvBytes io =>
    let r := s.world.issueCredentials sha256Hex parseFromStr user csvBytes io
    ⟨r.2, s.credited ++ creditIfOk r.1 csvBytes⟩
  | .revokeCredentials user credentialIds reason io =>
    { s with world := (s.world.revokeCredentials user credentialIds reason io).2 }

/-- A ready pool has its initial data set, with the hash its anchor records, and the total
is what the successful uploads add up to. -/
structure LifecycleSound (sha256Hex : Bytes → Str) (s : PoolRun) : Prop where
  ready : ∀ m ∈ s.world.metadata, m.state = .ready →
    ∃ b a, s.world.dataset.get (csvName initialRecordId) = some b ∧
      s.world.anchors.get (metaName initialRecordId) = some a ∧ a.sha256 = sha256Hex b
  total : ∀ m ∈ s.world.metadata, m.totalCredentials = s.credited.sum

/-! ## Every request is a step of the lifecycle -/

section Refinement

variable {sha256Hex : Bytes → Str} {parseFromStr : Str → Str → Bool} {w : PoolWorld}

theorem CoreStep.sent (w : PoolWorld) (b : Bool) :
    CoreStep sha256Hex w.core 0 (PoolWorld.core { w with onChain := w.onChain || b }) := by
  cases b with
  | false =>
    rw [Bool.or_false]
    exact .stay _
  | true =>
    rw [Bool.or_true]
    exact .account _

/-- A creation is confirmed only if there was no pool account. -/
theorem onChain_eq_false_of_created {chain : ChainIo} {commitment : Commitment} {signature : Str}
    (h : signSendAndParse (w.createChain chain) commitment = .ok signature) :
    w.onChain = false ∧ (w.createChain chain).takesEffect := by
  have heffect := (takesEffect_of_signSendAndParse h).1
  refine ⟨?_, heffect⟩
  by_contra honChain
  have hfate : (w.createChain chain).fate ≠ .landed := by
    unfold createChain
    split_ifs with hland
    · simp
    · intro hfate
      exact hland ⟨by simpa using honChain, hfate⟩
  simp [ChainIo.takesEffect, hfate] at heffect

theorem createPool_refines (kind : PoolKind) (schemaId : Str) (mode : ValidationMode)
    (io : CreateIo) :
    CoreStep sha256Hex w.core 0 (w.createPool kind schemaId mode io).2.core := by
  unfold createPool
  split
  · exact .stay _
  dsimp only
  split
  · exact CoreStep.sent w _
  rename_i hsend
  obtain ⟨hnew, heffect⟩ := onChain_eq_false_of_created hsend
  cases hwrite : io.metaWrite with
  | error e => exact CoreStep.sent w _
  | ok _ =>
    rw [heffect, Bool.or_true]
    exact .create _ _ hnew rfl rfl

theorem createMaltaPool_refines (schemaId : Str) (fields : List FieldSchema) (io : CreateIo) :
    CoreStep sha256Hex w.core 0 (w.createMaltaPool schemaId fields io).2.core := by
  have hcreate : CoreStep sha256Hex w.core 0
      (w.createPool .malta schemaId .headersOnly io).2.core := createPool_refines ..
  unfold createMaltaPool
  generalize w.createPool .malta schemaId .headersOnly io = r at hcreate
  rcases r with ⟨_ | _, w'⟩
  · exact hcreate
  · cases hschema : io.schemaWrite <;> exact hcreate

theorem createIobErpPool_refines (io : CreateIo) :
    CoreStep sha256Hex w.core 0 (w.createIobErpPool io).2.core := by
  have hcreate : CoreStep sha256Hex w.core 0 (w.createPool .iobErp [] .none io).2.core :=
    createPool_refines ..
  unfold createIobErpPool
  generalize w.createPool .iobErp [] .none io = r at hcreate
  rcases r with ⟨_ | _, w'⟩ <;> exact hcreate

/-- A schema upload does nothing, or it writes the schema and may log it. -/
theorem uploadSchema_cases (schemaId : Str) (fields : List FieldSchema) (io : SchemaIo) :
    (w.uploadSchema schemaId fields io).2 = w ∨
      (w.uploadSchema schemaId fields io).2 = (w.savePoolSchema fields io.write).2 ∨
      (w.uploadSchema schemaId fields io).2 = (w.savePoolSchema fields io.write).2.log io.audit
        (.schemaUploaded schemaId fields.length) := by
  unfold PoolWorld.uploadSchema
  split_ifs
  · exact Or.inl rfl
  · exact Or.inl rfl
  split
  · exact Or.inl rfl
  split
  · exact Or.inl rfl
  split_ifs
  · exact Or.inl rfl
  cases io.write with
  | done => exact Or.inr (Or.inr rfl)
  | failed => exact Or.inr (Or.inl rfl)

theorem core_uploadSchema (schemaId : Str) (fields : List FieldSchema) (io : SchemaIo) :
    (w.uploadSchema schemaId fields io).2.core = w.core := by
  rcases uploadSchema_cases schemaId fields io with h | h | h
  · rw [h]
  · rw [h]
    cases io.write <;> rfl
  · rw [h]
    cases io.write <;> rfl

theorem initializeChecks_eq_ok {csvBytes : Bytes} {io : InitializeIo} {m : PoolMetadata}
    (h : w.initializeChecks parseFromStr csvBytes io = .ok m) :
    w.metadata = some m ∧ m.state = .needsInit := by
  unfold initializeChecks at h
  split at h
  · cases h
  split at h
  · cases h
  rename_i hload
  split_ifs at h with hstate hkind
  split at h
  · cases h
  obtain rfl := Except.ok.inj h
  exact ⟨(loadPoolMeta_eq_ok_iff.mp hload).2, not_not.mp hstate⟩

/-- The core once `initial.csv`, or also its anchor, is written. -/
theorem core_putInitialCsv (csvBytes : Bytes) :
    (w.putInitialCsv csvBytes).core = { w.core with initialCsv := some csvBytes } := by
  simp [PoolWorld.core, putInitialCsv]

theorem core_putInitialAnchor (csvBytes : Bytes) :
    (w.putInitialAnchor sha256Hex csvBytes).core =
      { w.core with initialAnchor := some ⟨initialRecordId, sha256Hex csvBytes, none⟩ } := by
  simp [PoolWorld.core, putInitialAnchor]

theorem initializeWrites_refines {m : PoolMetadata} (hm : w.metadata = some m)
    (hstate : m.state = .needsInit) (user : Str) (csvBytes : Bytes) (io : InitializeIo) :
    CoreStep sha256Hex w.core
      (creditIfOk (w.initializeWrites sha256Hex m user csvBytes io).1 csvBytes).sum
      (w.initializeWrites sha256Hex m user csvBytes io).2.core := by
  unfold initializeWrites
  cases hcsv : io.csvWrite with
  | error e => exact .stay _
  | ok _ =>
    cases hanchor : io.anchorWrite with
    | error e =>
      dsimp only
      rw [core_putInitialCsv]
      exact .seedCsv _ m csvBytes hm hstate
    | ok _ =>
      cases hwrite : io.metaWrite with
      | error e =>
        dsimp only [savePoolMeta]
        rw [core_putInitialAnchor, core_putInitialCsv]
        exact .seed _ m csvBytes _ hm hstate
      | ok _ =>
        change CoreStep sha256Hex w.core (countCsvRows csvBytes)
          { ((w.putInitialCsv csvBytes).putInitialAnchor sha256Hex csvBytes).core with
            metadata := some { m with
              state := .ready
              totalCredentials := countCsvRows csvBytes } }
        rw [core_putInitialAnchor, core_putInitialCsv]
        exact .seeded _ m csvBytes ⟨initialRecordId, sha256Hex csvBytes, none⟩ _ hm hstate rfl

theorem initializePool_refines (user : Str) (csvBytes : Bytes) (io : InitializeIo) :
    CoreStep sha256Hex w.core
      (creditIfOk (w.initializePool sha256Hex parseFromStr user csvBytes io).1 csvBytes).sum
      (w.initializePool sha256Hex parseFromStr user csvBytes io).2.core := by
  unfold PoolWorld.initializePool
  cases hchecks : w.initializeChecks parseFromStr csvBytes io with
  | error e => exact .stay _
  | ok m =>
    obtain ⟨hm, hstate⟩ := initializeChecks_eq_ok hchecks
    exact initializeWrites_refines hm hstate user csvBytes io

/-- A record id is a UUID, so its files are not those of the initial data set. -/
theorem RecordId.text_ne_initialRecordId (recordId : RecordId) :
    recordId.text ≠ initialRecordId := by
  intro h
  have huuid := recordId.isUuid
  rw [h] at huuid
  exact absurd huuid (by decide)

theorem core_putCsv (recordId : RecordId) (csvBytes : Bytes) :
    (w.putCsv recordId csvBytes).core = w.core := by
  have hne : csvName initialRecordId ≠ csvName recordId.text := fun h =>
    recordId.text_ne_initialRecordId (List.append_cancel_right h).symm
  simp only [PoolWorld.core, putCsv, Table.get_insert_of_ne _ _ hne]

theorem core_putAnchor (csvBytes : Bytes) (io : IssueIo) :
    (w.putAnchor sha256Hex csvBytes io).core = w.core := by
  have hne : metaName initialRecordId ≠ metaName io.recordId.text := fun h =>
    io.recordId.text_ne_initialRecordId (List.append_cancel_right h).symm
  unfold putAnchor
  cases io.anchorWrite with
  | error e => rfl
  | ok _ => simp only [PoolWorld.core, Table.get_insert_of_ne _ _ hne]

theorem issueWrites_refines {m₀ : PoolMetadata} (hm₀ : w.metadata = some m₀)
    (hready : m₀.state = .ready) (user signature : Str) (csvBytes : Bytes) (io : IssueIo) :
    CoreStep sha256Hex w.core
      (creditIfOk (w.issueWrites sha256Hex user signature csvBytes io).1 csvBytes).sum
      (w.issueWrites sha256Hex user signature csvBytes io).2.core := by
  unfold issueWrites
  cases hcsv : io.csvWrite with
  | error e => exact .stay _
  | ok _ =>
    have hcore : ((w.putCsv io.recordId csvBytes).putAnchor sha256Hex csvBytes io).core = w.core :=
      (core_putAnchor csvBytes io).trans (core_putCsv io.recordId csvBytes)
    generalize (w.putCsv io.recordId csvBytes).putAnchor sha256Hex csvBytes io = stored at hcore
    dsimp only
    have hmeta : stored.metadata = some m₀ := (congrArg PoolCore.metadata hcore).trans hm₀
    cases hload : stored.loadPoolMeta io.reload with
    | error e =>
      change CoreStep sha256Hex w.core 0 stored.core
      rw [hcore]
      exact .stay _
    | ok m =>
      obtain rfl : m₀ = m :=
        Option.some.inj (hmeta.symm.trans (loadPoolMeta_eq_ok_iff.mp hload).2)
      cases hwrite : io.metaWrite with
      | error e =>
        change CoreStep sha256Hex w.core 0 stored.core
        rw [hcore]
        exact .stay _
      | ok _ =>
        change CoreStep sha256Hex w.core (countCsvRows csvBytes)
          { stored.core with metadata := some { m₀ with
              totalCredentials := m₀.totalCredentials + countCsvRows csvBytes } }
        rw [hcore]
        exact .count _ m₀ _ _ hm₀ (Or.inl hready) rfl rfl

theorem issueCredentials_refines (user : Str) (csvBytes : Bytes) (io : IssueIo) :
    CoreStep sha256Hex w.core
      (creditIfOk (w.issueCredentials sha256Hex parseFromStr user csvBytes io).1 csvBytes).sum
      (w.issueCredentials sha256Hex parseFromStr user csvBytes io).2.core := by
  unfold PoolWorld.issueCredentials
  cases hchecks : w.issueChecks parseFromStr csvBytes io with
  | error e => exact .stay _
  | ok m =>
    obtain ⟨-, -, -, hm, hready, -, -⟩ := issueChecks_eq_ok_iff.mp hchecks
    have hcore : (w.recordBurn io).core = w.core := by
      unfold recordBurn
      split_ifs <;> rfl
    have hmeta : (w.recordBurn io).metadata = some m :=
      (congrArg PoolCore.metadata hcore).trans hm
    dsimp only
    rw [← hcore]
    cases signSendAndParse io.chain .finalized with
    | error e => exact .stay _
    | ok signature => exact issueWrites_refines hmeta hready user signature csvBytes io

theorem core_upsertRevocations (user : Str) (reason : Option Str) (io : RevokeIo) :
    ∀ (i : Nat) (cids : List Str) (w : PoolWorld),
      (upsertRevocations user reason io i cids w).core = w.core
  | _, [], _ => rfl
  | i, cid :: cids, w => by
    rw [upsertRevocations, core_upsertRevocations user reason io (i + 1) cids]
    split_ifs <;> rfl

theorem revokeCredentials_refines (user : Str) (credentialIds : List Str) (reason : Option Str)
    (io : RevokeIo) :
    CoreStep sha256Hex w.core 0 (w.revokeCredentials user credentialIds reason io).2.core := by
  unfold revokeCredentials
  split_ifs
  · exact .stay _
  split
  · exact .stay _
  split
  · exact .stay _
  split
  · exact .stay _
  split
  · exact .stay _
  split
  · exact .stay _
  rename_i m hload
  cases io.metaWrite with
  | error e => exact .stay _
  | ok _ =>
    have hm := (loadPoolMeta_eq_ok_iff.mp hload).2
    dsimp only [savePoolMeta]
    change CoreStep sha256Hex w.core 0 (upsertRevocations user reason io 0 credentialIds _).core
    rw [core_upsertRevocations]
    exact .count _ m _ 0 hm (Or.inr rfl) rfl rfl

end Refinement

/-- Every request, however it ends, makes one step of the lifecycle, with the rows that are
credited for it. -/
theorem poolStep_refines (sha256Hex : Bytes → Str) (parseFromStr : Str → Str → Bool)
    (s : PoolRun) (op : PoolOp) :
    ∃ rows, (poolStep sha256Hex parseFromStr s op).credited.sum = s.credited.sum + rows ∧
      CoreStep sha256Hex s.world.core rows (poolStep sha256Hex parseFromStr s op).world.core := by
  cases op with
  | createMaltaPool schemaId fields io =>
    exact ⟨0, rfl, createMaltaPool_refines schemaId fields io⟩
  | createIobErpPool io => exact ⟨0, rfl, createIobErpPool_refines io⟩
  | uploadSchema schemaId fields io =>
    refine ⟨0, rfl, ?_⟩
    rw [poolStep, core_uploadSchema]
    exact .stay _
  | initializePool user csvBytes io =>
    exact ⟨_, List.sum_append, initializePool_refines user csvBytes io⟩
  | issueCredentials user csvBytes io =>
    exact ⟨_, List.sum_append, issueCredentials_refines user csvBytes io⟩
  | revokeCredentials user credentialIds reason io =>
    exact ⟨0, rfl, revokeCredentials_refines user credentialIds reason io⟩

/-! ## Every run -/

/-- A pool before its creation. -/
def PoolRun.start (poolPda : Str) (revocations : Table Str RevocationEntry) : PoolRun :=
  ⟨PoolWorld.absent poolPda revocations, []⟩

theorem coreOk_start (sha256Hex : Bytes → Str) (poolPda : Str)
    (revocations : Table Str RevocationEntry) :
    CoreOk sha256Hex (PoolRun.start poolPda revocations).world.core 0 where
  account h := by cases h
  total _ h := by cases h
  uncredited _ := rfl
  ready _ h := by cases h

theorem coreOk_poolStep {sha256Hex : Bytes → Str} {parseFromStr : Str → Str → Bool} {s : PoolRun}
    (op : PoolOp) (h : CoreOk sha256Hex s.world.core s.credited.sum) :
    CoreOk sha256Hex (poolStep sha256Hex parseFromStr s op).world.core
      (poolStep sha256Hex parseFromStr s op).credited.sum := by
  obtain ⟨rows, hsum, hstep⟩ := poolStep_refines sha256Hex parseFromStr s op
  rw [hsum]
  exact hstep.preserves h

theorem CoreOk.lifecycleSound {sha256Hex : Bytes → Str} {s : PoolRun}
    (h : CoreOk sha256Hex s.world.core s.credited.sum) : LifecycleSound sha256Hex s :=
  ⟨h.ready, h.total⟩

/-- Along every run from before the creation of a pool, whichever of its writes fail, the
lifecycle is sound in every state; and a pool that is ready stays ready and keeps its
`initial.csv` through whatever requests follow. -/
theorem lifecycle_sound (sha256Hex : Bytes → Str) (parseFromStr : Str → Str → Bool)
    (poolPda : Str) (revocations : Table Str RevocationEntry) (ops more : List PoolOp) :
    let step := poolStep sha256Hex parseFromStr
    let start := PoolRun.start poolPda revocations
    Always step (LifecycleSound sha256Hex) start ops ∧
      ∀ b, (exec step start ops).world.core.Seeded b →
        Always step (fun s => s.world.core.Seeded b) (exec step start ops) more := by
  intro step start
  have hok : Always step (fun s => CoreOk sha256Hex s.world.core s.credited.sum) start ops :=
    always_of_step (fun s op h => coreOk_poolStep op h)
      (coreOk_start sha256Hex poolPda revocations)
  refine ⟨hok.imp fun s => CoreOk.lifecycleSound, fun b hseeded => ?_⟩
  have hboth : Always step (fun s => CoreOk sha256Hex s.world.core s.credited.sum ∧
      s.world.core.Seeded b) (exec step start ops) more := by
    refine always_of_step (fun s op h => ⟨coreOk_poolStep op h.1, ?_⟩) ⟨hok.last, hseeded⟩
    obtain ⟨rows, -, hstep⟩ := poolStep_refines sha256Hex parseFromStr s op
    exact hstep.seeded_of_seeded h.1 h.2
  exact hboth.imp fun s h => h.2

/-- An initialization whose last write fails, and one with another file that succeeds. -/
example :
    let io (metaWrite : Except String Unit) : InitializeIo :=
      ⟨.ok (), true, .ok (), .ok (), metaWrite, ⟨0, 0, by simp, by simp⟩, ⟨true, true⟩⟩
    let s := exec (poolStep (fun _ => []) fun _ _ => false) (PoolRun.start [] Table.empty)
      [.createMaltaPool ['s'] sampleFields
          ⟨.ok (), ⟨.ok (), .ok [], [.included .confirmed], .landed⟩, .ok (), .done, ⟨true, true⟩⟩,
        .initializePool [] (asBytes "a,b\n1,2\n".toList) (io (.error "disk full")),
        .initializePool [] (asBytes "a,b\n3,4\n5,6\n".toList) (io (.ok ()))]
    s.world.metadata.map (fun m => (m.state, m.totalCredentials)) = some (.ready, 2) ∧
      s.credited = [2] := by
  decide +kernel

end RelationalSdk
