import RelationalSdk.FilePaths
import RelationalSdk.PoolLifecycle
import RelationalSdk.Revocations

/-!
# Which credentials can be revoked

`revoke_credentials` takes a credential id for one of the pool if the file `{id}.csv` can be
opened in the directory of its data set. The id is joined to the path as it is, so one with a
`/` in it leads wherever the path leads : to the files of another pool, or to any file of the
disk whose name ends in `.csv`.

`HoldsDataset` says that the directory on disk holds the data set of the pool, and
`credentialExists_eq` that the handler's check is then the opening of the path.
`revocationsOwn_iff` : after any run of requests on a pool, the ids of an accepted revocation
are the initial data set or records that `issue_credentials` has stored in the pool if and only
if none of them has a `/` in it.
-/

namespace RelationalSdk

open Text KeyedTable FilePaths Runs PoolWorld

/-! ## The paths -/

/-- `{root}/pools`. -/
def poolsDir (root : Str) : Str :=
  join root "pools".toList

/-- `{root}/pools/{pda}`. -/
def poolDir (root pda : Str) : Str :=
  join (poolsDir root) pda

/-- `{root}/pools/{pda}/dataset`. -/
def poolDatasetDir (root pda : Str) : Str :=
  join (poolDir root pda) "dataset".toList

/-- The file that `revoke_credentials` looks for. -/
def credentialPath (root pda cid : Str) : Str :=
  join (poolDatasetDir root pda)
    (if cid = initialRecordId then "initial.csv".toList else csvName cid)

/-- A server : its disk, its working directory and its data directory. -/
structure Disk where
  tree : FileTree
  cwd : List Str
  root : Str

/-- `EncryptedStorage::exists` on the path of a credential of a pool. -/
def Disk.credentialOpens (d : Disk) (pda cid : Str) : Bool :=
  d.tree.opens d.cwd (credentialPath d.root pda cid)

/-- The CSV files in the directory of the data set are those of the pool. -/
def HoldsDataset (d : Disk) (w : PoolWorld) : Prop :=
  ∀ cid, '/' ∉ cid →
    ((∃ p, d.tree.locate d.cwd (poolDatasetDir d.root w.poolPda) = some p ∧
      (d.tree.kind (p ++ [csvName cid])).isSome) ↔ (w.dataset.get (csvName cid)).isSome)

/-- `revoke_credentials` on a pool whose files are on the disk. -/
def revokeOnDisk (d : Disk) (w : PoolWorld) (user : Str) (credentialIds : List Str)
    (reason : Option Str) (io : RevokeIo) : Except ApiError Nat × PoolWorld :=
  w.revokeCredentials user credentialIds reason
    { io with elsewhere := d.credentialOpens w.poolPda }

/-- The id is that of the initial data set, or of a record that one of the requests was to
store, and its file is in the directory of the pool. -/
def OwnCredential (d : Disk) (ops : List PoolOp) (w : PoolWorld) (id : Str) : Prop :=
  (∃ p, d.tree.locate d.cwd (poolDatasetDir d.root w.poolPda) = some p ∧
    (d.tree.kind (p ++ [csvName id])).isSome) ∧
  (id = initialRecordId ∨
    ∃ user csvBytes io, .issueCredentials user csvBytes io ∈ ops ∧ id = io.recordId.text)

theorem isName_csvName {cid : Str} (h : '/' ∉ cid) : IsName (csvName cid) := by
  have hlength : 4 ≤ (csvName cid).length := by simp [csvName]
  refine ⟨?_, ?_, ?_, ?_⟩
  · rintro hnil
    simp [hnil] at hlength
  · rintro hdot
    simp [hdot] at hlength
  · rintro hdots
    simp [hdots] at hlength
  · simpa [csvName] using h

theorem poolDatasetDir_eq (root pda : Str) :
    ∃ p, poolDatasetDir root pda = p ++ "dataset".toList := by
  unfold poolDatasetDir join
  split_ifs
  · exact ⟨[], rfl⟩
  · exact ⟨_, rfl⟩
  · exact ⟨poolDir root pda ++ ['/'], by simp⟩

/-- Without a `/` in the id, the path ends in the name of the file. -/
theorem credentialPath_eq (root pda : Str) {cid : Str} (h : '/' ∉ cid) :
    credentialPath root pda cid = poolDatasetDir root pda ++ '/' :: csvName cid := by
  have hname : (if cid = initialRecordId then "initial.csv".toList else csvName cid) =
      csvName cid := by
    split_ifs with hcid
    · rw [hcid]
      rfl
    · rfl
  have hhead : ¬(csvName cid).head? = some '/' := by
    intro hhead
    exact (isName_csvName h).no_slash (List.mem_of_head? hhead)
  obtain ⟨p, hdir⟩ := poolDatasetDir_eq root pda
  rw [credentialPath, hname, join, if_neg hhead, if_neg]
  rw [hdir, not_or]
  exact ⟨by simp, by simp [List.getLast?_append]⟩

/-- On a disk that holds the data set, the check of the handler is the opening of the path. -/
theorem credentialExists_eq {d : Disk} {w : PoolWorld} (h : HoldsDataset d w) (cid : Str) :
    w.credentialExists (d.credentialOpens w.poolPda) cid = d.credentialOpens w.poolPda cid := by
  unfold credentialExists
  split_ifs with hslash
  · rfl
  · have hne : poolDatasetDir d.root w.poolPda ≠ [] := by
      obtain ⟨p, hdir⟩ := poolDatasetDir_eq d.root w.poolPda
      simp [hdir]
    rw [Disk.credentialOpens, credentialPath_eq _ _ hslash, Bool.eq_iff_iff,
      FileTree.opens_append_name hne (isName_csvName hslash), h cid hslash]

/-! ## What is in the data set -/

section Dataset

variable {sha256Hex : Bytes → Str} {parseFromStr : Str → Str → Bool} {w : PoolWorld}

theorem dataset_createPool (kind : PoolKind) (schemaId : Str) (mode : ValidationMode)
    (io : CreateIo) : (w.createPool kind schemaId mode io).2.dataset = w.dataset := by
  unfold createPool
  split
  · rfl
  dsimp only
  split
  · rfl
  cases io.metaWrite <;> rfl

theorem dataset_createMaltaPool (schemaId : Str) (fields : List FieldSchema) (io : CreateIo) :
    (w.createMaltaPool schemaId fields io).2.dataset = w.dataset := by
  have hcreate : (w.createPool .malta schemaId .headersOnly io).2.dataset = w.dataset :=
    dataset_createPool ..
  unfold createMaltaPool
  generalize w.createPool .malta schemaId .headersOnly io = r at hcreate
  rcases r with ⟨_ | _, w'⟩
  · exact hcreate
  · cases io.schemaWrite <;> exact hcreate

theorem dataset_createIobErpPool (io : CreateIo) :
    (w.createIobErpPool io).2.dataset = w.dataset := by
  have hcreate : (w.createPool .iobErp [] .none io).2.dataset = w.dataset := dataset_createPool ..
  unfold createIobErpPool
  generalize w.createPool .iobErp [] .none io = r at hcreate
  rcases r with ⟨_ | _, w'⟩ <;> exact hcreate

theorem dataset_uploadSchema (schemaId : Str) (fields : List FieldSchema) (io : SchemaIo) :
    (w.uploadSchema schemaId fields io).2.dataset = w.dataset := by
  rcases uploadSchema_cases schemaId fields io with h | h | h
  · rw [h]
  · rw [h]
    cases io.write <;> rfl
  · rw [h]
    cases io.write <;> rfl

theorem dataset_initializePool (user : Str) (csvBytes : Bytes) (io : InitializeIo) :
    (w.initializePool sha256Hex parseFromStr user csvBytes io).2.dataset = w.dataset ∨
      (w.initializePool sha256Hex parseFromStr user csvBytes io).2.dataset =
        w.dataset.insert (csvName initialRecordId) csvBytes := by
  unfold PoolWorld.initializePool
  split
  · exact Or.inl rfl
  unfold initializeWrites
  cases io.csvWrite with
  | error e => exact Or.inl rfl
  | ok _ =>
    refine Or.inr ?_
    cases io.anchorWrite with
    | error e => rfl
    | ok _ => cases io.metaWrite <;> rfl

theorem dataset_issueWrites (user signature : Str) (csvBytes : Bytes) (io : IssueIo) :
    (w.issueWrites sha256Hex user signature csvBytes io).2.dataset = w.dataset ∨
      (w.issueWrites sha256Hex user signature csvBytes io).2.dataset =
        w.dataset.insert (csvName io.recordId.text) csvBytes := by
  unfold issueWrites
  cases io.csvWrite with
  | error e => exact Or.inl rfl
  | ok _ =>
    have hstored : ((w.putCsv io.recordId csvBytes).putAnchor sha256Hex csvBytes io).dataset =
        w.dataset.insert (csvName io.recordId.text) csvBytes := by
      unfold putAnchor
      cases io.anchorWrite <;> rfl
    generalize (w.putCsv io.recordId csvBytes).putAnchor sha256Hex csvBytes io = stored at hstored
    refine Or.inr ?_
    dsimp only
    split
    · exact hstored
    · cases io.metaWrite <;> exact hstored

theorem dataset_issueCredentials (user : Str) (csvBytes : Bytes) (io : IssueIo) :
    (w.issueCredentials sha256Hex parseFromStr user csvBytes io).2.dataset = w.dataset ∨
      (w.issueCredentials sha256Hex parseFromStr user csvBytes io).2.dataset =
        w.dataset.insert (csvName io.recordId.text) csvBytes := by
  have hburn : (w.recordBurn io).dataset = w.dataset := by
    unfold recordBurn
    split_ifs <;> rfl
  unfold PoolWorld.issueCredentials
  split
  · exact Or.inl rfl
  dsimp only
  split
  · exact Or.inl hburn
  · rw [← hburn]
    exact dataset_issueWrites ..

theorem dataset_revokeCredentials (user : Str) (credentialIds : List Str) (reason : Option Str)
    (io : RevokeIo) :
    (w.revokeCredentials user credentialIds reason io).2.dataset = w.dataset := by
  unfold revokeCredentials
  split_ifs
  · rfl
  split
  · rfl
  split
  · rfl
  split
  · rfl
  split
  · rfl
  split
  · rfl
  cases io.metaWrite with
  | error e => rfl
  | ok _ => exact dataset_upsertRevocations ..

/-- Every file of the data set is the initial one or was stored by one of the requests. -/
def FromRequests (ops : List PoolOp) (w : PoolWorld) : Prop :=
  ∀ name, (w.dataset.get name).isSome → name = csvName initialRecordId ∨
    ∃ user csvBytes io, .issueCredentials user csvBytes io ∈ ops ∧ name = csvName io.recordId.text

theorem FromRequests.mono {ops ops' : List PoolOp} (h : FromRequests ops w)
    (hops : ops ⊆ ops') {w' : PoolWorld} (hdataset : w'.dataset = w.dataset) :
    FromRequests ops' w' := by
  intro name hname
  rw [hdataset] at hname
  refine (h name hname).imp_right ?_
  rintro ⟨user, csvBytes, io, hmem, rfl⟩
  exact ⟨user, csvBytes, io, hops hmem, rfl⟩

/-- A request adds to the data set what it is for. -/
theorem FromRequests.poolStep {ops : List PoolOp} {s : PoolRun} (h : FromRequests ops s.world)
    (op : PoolOp) : FromRequests (ops ++ [op]) (poolStep sha256Hex parseFromStr s op).world := by
  have hsame : ∀ w', w'.dataset = s.world.dataset → FromRequests (ops ++ [op]) w' :=
    fun w' => h.mono (List.subset_append_left ops [op])
  have hinsert : ∀ w' k b, w'.dataset = s.world.dataset.insert k b →
      (k = csvName initialRecordId ∨ ∃ user csvBytes io,
        .issueCredentials user csvBytes io ∈ ops ++ [op] ∧ k = csvName io.recordId.text) →
      FromRequests (ops ++ [op]) w' := by
    intro w' k b hdataset hk name hname
    rw [hdataset, Table.isSome_get_insert_iff] at hname
    rcases hname with rfl | hname
    · exact hk
    · exact hsame s.world rfl name hname
  cases op with
  | createMaltaPool schemaId fields io => exact hsame _ (dataset_createMaltaPool ..)
  | createIobErpPool io => exact hsame _ (dataset_createIobErpPool io)
  | uploadSchema schemaId fields io => exact hsame _ (dataset_uploadSchema ..)
  | initializePool user csvBytes io =>
    rcases dataset_initializePool (w := s.world) user csvBytes io with hd | hd
    · exact hsame _ hd
    · exact hinsert _ _ _ hd (Or.inl rfl)
  | issueCredentials user csvBytes io =>
    rcases dataset_issueCredentials (w := s.world) user csvBytes io with hd | hd
    · exact hsame _ hd
    · exact hinsert _ _ _ hd (Or.inr ⟨user, csvBytes, io, by simp, rfl⟩)
  | revokeCredentials user credentialIds reason io =>
    exact hsame _ (dataset_revokeCredentials ..)

theorem fromRequests_exec (poolPda : Str) (revocations : Table Str RevocationEntry)
    (ops : List PoolOp) :
    FromRequests ops
      (exec (RelationalSdk.poolStep sha256Hex parseFromStr) (PoolRun.start poolPda revocations)
        ops).world := by
  induction ops using List.reverseRecOn with
  | nil => exact fun name hname => nomatch hname
  | append_singleton ops op ih =>
    rw [exec_concat]
    exact ih.poolStep op

end Dataset

/-! ## What is revoked -/

/-- The ids of a request that is answered with success have all been found. -/
theorem credentialExists_of_isOk {w : PoolWorld} {user : Str} {credentialIds : List Str}
    {reason : Option Str} {io : RevokeIo}
    (h : (w.revokeCredentials user credentialIds reason io).1.isOk) :
    ∀ cid ∈ credentialIds, w.credentialExists io.elsewhere cid := by
  unfold revokeCredentials at h
  split_ifs at h
  · cases h
  split at h
  · cases h
  split at h
  · cases h
  split at h
  · cases h
  · rename_i hfind
    intro cid hcid
    simpa using List.find?_eq_none.mp hfind cid hcid

theorem no_slash_of_ownCredential {d : Disk} {ops : List PoolOp} {w : PoolWorld} {id : Str}
    (h : OwnCredential d ops w id) : '/' ∉ id := by
  rcases h.2 with rfl | ⟨user, csvBytes, io, -, rfl⟩
  · decide
  · exact fun hslash => absurd (mem_of_isUuid io.recordId.isUuid hslash) (by decide)

/-- The ids of an accepted revocation lead to files, and all of them are credentials of the
pool if and only if none has a `/` in it. -/
theorem revocationsOwn_iff (sha256Hex : Bytes → Str) (parseFromStr : Str → Str → Bool)
    (poolPda : Str) (revocations : Table Str RevocationEntry) (ops : List PoolOp) (d : Disk)
    (user : Str) (credentialIds : List Str) (reason : Option Str) (io : RevokeIo) :
    let w := (exec (poolStep sha256Hex parseFromStr) (PoolRun.start poolPda revocations) ops).world
    HoldsDataset d w → (revokeOnDisk d w user credentialIds reason io).1.isOk →
      (∀ id ∈ credentialIds, d.credentialOpens w.poolPda id) ∧
        ((∀ id ∈ credentialIds, OwnCredential d ops w id) ↔ ∀ id ∈ credentialIds, '/' ∉ id) := by
  intro w hdisk hok
  have hexists : ∀ id ∈ credentialIds, w.credentialExists (d.credentialOpens w.poolPda) id :=
    credentialExists_of_isOk hok
  refine ⟨fun id hid => ?_, fun hown id hid => no_slash_of_ownCredential (hown id hid),
    fun hslash id hid => ?_⟩
  · rw [← credentialExists_eq hdisk]
    exact hexists id hid
  · have hstored := hexists id hid
    rw [credentialExists, if_neg (hslash id hid)] at hstored
    refine ⟨(hdisk id (hslash id hid)).mpr hstored,
      (fromRequests_exec poolPda revocations ops _ hstored).imp List.append_cancel_right ?_⟩
    rintro ⟨user, csvBytes, io, hmem, hname⟩
    exact ⟨user, csvBytes, io, hmem, List.append_cancel_right hname⟩

/-- A pool is created and initialized. -/
def seededPool : List PoolOp :=
  [.createMaltaPool ['s'] sampleFields
      ⟨.ok (), ⟨.ok (), .ok [], [.included .confirmed], .landed⟩, .ok (), .done, ⟨true, true⟩⟩,
    .initializePool [] (asBytes "a,b\n1,2\n".toList)
      ⟨.ok (), true, .ok (), .ok (), .ok (), sampleDate, ⟨true, true⟩⟩]

/-- A disk with the data sets of two pools. -/
def twoPoolsDisk : Disk where
  tree := .ofEntries
    [(["data".toList], .dir), (["data".toList, "pools".toList], .dir),
      (["data".toList, "pools".toList, "Pool1".toList], .dir),
      (["data".toList, "pools".toList, "Pool1".toList, "dataset".toList], .dir),
      (["data".toList, "pools".toList, "Pool1".toList, "dataset".toList, "initial.csv".toList],
        .file),
      (["data".toList, "pools".toList, "Pool2".toList], .dir),
      (["data".toList, "pools".toList, "Pool2".toList, "dataset".toList], .dir),
      (["data".toList, "pools".toList, "Pool2".toList, "dataset".toList, "initial.csv".toList],
        .file)] (by decide +kernel)
  cwd := []
  root := "/data".toList

/-- The first of the two pools. -/
def seededWorld : PoolWorld :=
  (exec (poolStep (fun _ => []) fun _ _ => false) (PoolRun.start "Pool1".toList Table.empty)
    seededPool).world

theorem holdsDataset_twoPoolsDisk : HoldsDataset twoPoolsDisk seededWorld := by
  have hdir : twoPoolsDisk.tree.locate twoPoolsDisk.cwd
      (poolDatasetDir twoPoolsDisk.root seededWorld.poolPda) =
        some ["data".toList, "pools".toList, "Pool1".toList, "dataset".toList] := by
    decide +kernel
  have hdataset : seededWorld.dataset =
      Table.empty.insert "initial.csv".toList (asBytes "a,b\n1,2\n".toList) := by
    decide +kernel
  intro cid _
  have hentry : (twoPoolsDisk.tree.kind
      (["data".toList, "pools".toList, "Pool1".toList, "dataset".toList] ++ [csvName cid])).isSome ↔
        csvName cid = "initial.csv".toList := by
    have hne : ["data".toList, "pools".toList, "Pool1".toList, "dataset".toList] ++
        [csvName cid] ≠ [] := by simp
    exact (FileTree.isSome_lookup_iff hne).trans (by simp)
  rw [hdir, hdataset, Table.isSome_get_insert_iff, ← hentry]
  constructor
  · rintro ⟨p, hp, hkind⟩
    rw [Option.some.inj hp]
    exact Or.inl hkind
  · rintro (hkind | hnone)
    · exact ⟨_, rfl, hkind⟩
    · cases hnone

/-- The initial data set of the pool is revoked. -/
theorem revocationsOwn_initial :
    (revokeOnDisk twoPoolsDisk seededWorld [] [initialRecordId] none
        (sampleRevoke []).io).1.isOk ∧
      ∀ id ∈ [initialRecordId], OwnCredential twoPoolsDisk seededPool seededWorld id := by
  have hok : (revokeOnDisk twoPoolsDisk seededWorld [] [initialRecordId] none
      (sampleRevoke []).io).1.isOk := by
    decide +kernel
  exact ⟨hok, (revocationsOwn_iff _ _ _ _ _ _ _ _ _ _ holdsDataset_twoPoolsDisk hok).2.mpr
    (by decide)⟩

/-- A revocation in the first pool names the initial data set of the second, once by a relative
path and once by an absolute one, and is accepted. -/
theorem not_revocationsOwn_otherPool :
    let ids := ["../../Pool2/dataset/initial".toList, "/data/pools/Pool2/dataset/initial".toList]
    HoldsDataset twoPoolsDisk seededWorld ∧
      (revokeOnDisk twoPoolsDisk seededWorld [] ids none (sampleRevoke []).io).1.isOk ∧
      ∀ id ∈ ids, ¬OwnCredential twoPoolsDisk seededPool seededWorld id := by
  refine ⟨holdsDataset_twoPoolsDisk, by decide +kernel, fun id hid hown => ?_⟩
  have hslash : ∀ id ∈ ["../../Pool2/dataset/initial".toList,
      "/data/pools/Pool2/dataset/initial".toList], '/' ∈ id := by
    decide +kernel
  exact no_slash_of_ownCredential hown (hslash id hid)

end RelationalSdk
