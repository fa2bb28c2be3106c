import RelationalSdk.PoolCounters

/-!
# Schedules of the requests on a pool

The counters of a pool are exact in every run whose saves find the metadata as the request read
them. Here is what the lock and the code of the handlers say about that.

`countersExact_of_copiesKept` : the lock keeps issuances apart, so it is enough that
initialisations and revocations do not overlap with another request.

`runsTo_initializePool`, `runsTo_issueCredentials` and `runsTo_revokeCredentials` : a request that
runs alone does what its handler does. Whatever comes of the reads, the writes and the remote calls,
it returns the same result and leaves the same metadata and the same rows in the data set.
-/

namespace RelationalSdk

open Text KeyedTable Threads PoolWorld

/-! ## What the lock is worth

An issuance reads and writes the metadata under the pool's mutex, so two issuances never overwrite
each other. -/

/-- The metadata that a request is about to change and write back. -/
def PoolRequest.copy (r : PoolRequest) : Option PoolMetadata :=
  match r.call, r.pc with
  | .initializePool _, .storing copy => some copy
  | _, .saving copy => some copy
  | _, _ => none

/-- The request is to `issue_credentials`. -/
def PoolCall.isIssue : PoolCall → Bool
  | issueCredentials _ => true
  | _ => false

/-- When `initialize_pool` or `revoke_credentials` writes the metadata, no other request is about to
write them, and when `issue_credentials` does, neither of the two is about to. -/
def CopiesKept (_ : PoolFiles) (rs : List PoolRequest) (r : PoolRequest) : PoolAction → Prop
  | .save =>
    if r.call.isIssue then ∀ q ∈ rs, q.copy.isSome → q.call.isIssue
    else rs.countP (fun q => q.copy.isSome) ≤ 1
  | _ => True

instance (f : PoolFiles) (rs : List PoolRequest) (r : PoolRequest) :
    ∀ a, Decidable (CopiesKept f rs r a)
  | .save => inferInstanceAs (Decidable (if r.call.isIssue = true then _ else _))
  | .check | .acquire | .store _ | .reload | .finish | .abort _ => .isTrue trivial

/-- What an action does to the lock and to the copies of the metadata. -/
inductive CopyStep (f : PoolFiles) (r : PoolRequest) :
    PoolAction → PoolFiles → PoolRequest → Prop where
  | quiet {a : PoolAction} {f' : PoolFiles} {r' : PoolRequest} (hmeta : f'.metadata = f.metadata)
      (hlocked : f'.locked = f.locked) (hholds : r'.holdsLock = r.holdsLock)
      (hcopy : ∀ c ∈ r'.copy, c ∈ r.copy ∨ c = f.metadata) : CopyStep f r a f' r'
  | acquire {a : PoolAction} {f' : PoolFiles} {r' : PoolRequest}
      (hmeta : f'.metadata = f.metadata) (hfree : f.locked = false) (hlocked : f'.locked = true)
      (hheld : r.holdsLock = false) (hholds : r'.holdsLock = true) (hcopy : r'.copy = none) :
      CopyStep f r a f' r'
  | release {a : PoolAction} {f' : PoolFiles} {r' : PoolRequest}
      (hmeta : f'.metadata = f.metadata) (hlocked : f'.locked = false) (hheld : r.holdsLock = true)
      (hholds : r'.holdsLock = false) (hcopy : r'.copy = none) : CopyStep f r a f' r'
  | save {copy : PoolMetadata} {f' : PoolFiles} {r' : PoolRequest} (hbefore : r.copy = some copy)
      (hlocked : f'.locked = f.locked) (hholds : r'.holdsLock = r.holdsLock)
      (hcopy : r'.copy = none) : CopyStep f r .save f' r'

theorem CopyStep.abort (f : PoolFiles) (r : PoolRequest) (e : ApiError) :
    CopyStep f r (.abort e) { f with locked := f.locked && !r.holdsLock }
      { r with pc := .returned (.error e) } := by
  have hholds : PoolRequest.holdsLock { r with pc := .returned (.error e) } = false := by
    unfold PoolRequest.holdsLock
    cases r.call <;> rfl
  have hcopy : PoolRequest.copy { r with pc := .returned (.error e) } = none := by
    unfold PoolRequest.copy
    cases r.call <;> rfl
  cases hheld : r.holdsLock with
  | true => exact .release rfl (by simp) hheld hholds hcopy
  | false => exact .quiet rfl (by simp) (hholds.trans hheld.symm) (by simp [hcopy])

theorem copyStep_poolAct (f : PoolFiles) (r : PoolRequest) (a : PoolAction) :
    CopyStep f r a (poolAct f r a).1 (poolAct f r a).2 := by
  have hstay : ∀ a, CopyStep f r a f r := fun a => .quiet rfl rfl rfl fun _ => Or.inl
  obtain ⟨call, pc⟩ := r
  cases a with
  | check =>
    simp only [poolAct]
    split_ifs with hpc
    · subst hpc
      cases call with
      | initializePool rows =>
        simp only [checkInitialize]
        split_ifs
        · exact .quiet rfl rfl rfl (by simp [PoolRequest.copy])
        · exact .quiet rfl rfl rfl (by simp [PoolRequest.copy])
        · exact .quiet rfl rfl rfl (by simp [PoolRequest.copy])
      | issueCredentials rows =>
        simp only [checkIssue]
        split_ifs
        · exact .quiet rfl rfl rfl (by simp [PoolRequest.copy])
        · exact .quiet rfl rfl rfl (by simp [PoolRequest.copy])
        · exact .quiet rfl rfl rfl (by simp [PoolRequest.copy])
      | revokeCredentials ids =>
        simp only [checkRevoke]
        split_ifs
        · exact .quiet rfl rfl rfl (by simp [PoolRequest.copy])
        · split
          · exact .quiet rfl rfl rfl (by simp [PoolRequest.copy])
          · exact .quiet rfl rfl rfl (by simp [PoolRequest.copy])
    · exact hstay _
  | acquire =>
    simp only [poolAct]
    split
    · split_ifs with hlocked
      · exact hstay _
      · exact .acquire rfl (by simpa using hlocked) rfl rfl rfl rfl
    · exact hstay _
  | store recordId =>
    simp only [poolAct]
    split
    · exact .quiet rfl rfl rfl (by simp [PoolRequest.copy])
    · split_ifs
      · exact hstay _
      · exact .quiet rfl rfl rfl (by simp [PoolRequest.copy])
    · exact hstay _
  | reload =>
    simp only [poolAct]
    split
    · exact .quiet rfl rfl rfl (by simp [PoolRequest.copy])
    · exact .quiet rfl rfl rfl (by simp [PoolRequest.copy])
    · exact hstay _
  | save =>
    simp only [poolAct]
    split
    · cases call <;> exact .save rfl rfl rfl rfl
    · exact hstay _
  | finish =>
    simp only [poolAct]
    split
    · exact .release rfl rfl rfl rfl rfl
    · exact hstay _
  | abort e =>
    simp only [poolAct]
    split
    · exact hstay _
    · exact hstay _
    · exact .abort f _ e

/-- Whoever is about to write the metadata has them as they are, and one request at most holds the
lock. -/
structure CopiesFresh (f : PoolFiles) (rs : List PoolRequest) : Prop where
  fresh : ∀ r ∈ rs, ∀ c ∈ r.copy, c = f.metadata
  lock : rs.countP PoolRequest.holdsLock = f.locked.toNat

theorem PoolRequest.holdsLock_of_copy {r : PoolRequest} (hissue : r.call.isIssue)
    (hcopy : r.copy.isSome) : r.holdsLock := by
  obtain ⟨call, pc⟩ := r
  cases call with
  | issueCredentials rows => cases pc <;> first | rfl | cases hcopy
  | _ => cases hissue

/-- An undisturbed save finds no other copy. -/
theorem CopiesFresh.copy_eq_none {f : PoolFiles} {pre post : List PoolRequest} {r : PoolRequest}
    (h : CopiesFresh f (pre ++ r :: post)) (hcopy : r.copy.isSome)
    (hok : CopiesKept f (pre ++ r :: post) r .save) : ∀ q ∈ pre ++ post, q.copy = none := by
  intro q hq
  by_contra hne
  have hsome : q.copy.isSome := Option.isSome_iff_ne_none.mpr hne
  simp only [CopiesKept] at hok
  split_ifs at hok with hissue
  · -- both would hold the lock
    have hq' : q ∈ pre ++ r :: post := by
      rcases List.mem_append.mp hq with hq | hq <;> simp [hq]
    have hpos : 0 < (pre ++ post).countP PoolRequest.holdsLock :=
      List.countP_pos_iff.mpr ⟨q, hq, PoolRequest.holdsLock_of_copy (hok q hq' hsome) hsome⟩
    have hlock := h.lock
    rw [List.countP_append, List.countP_cons, if_pos (PoolRequest.holdsLock_of_copy hissue hcopy)]
      at hlock
    rw [List.countP_append] at hpos
    have := Bool.toNat_le f.locked
    omega
  · have hpos : 0 < (pre ++ post).countP (fun q => q.copy.isSome) :=
      List.countP_pos_iff.mpr ⟨q, hq, hsome⟩
    rw [List.countP_append, List.countP_cons, if_pos hcopy] at hok
    rw [List.countP_append] at hpos
    omega

theorem CopiesFresh.act {f : PoolFiles} {pre post : List PoolRequest} {r : PoolRequest}
    {a : PoolAction} (h : CopiesFresh f (pre ++ r :: post))
    (hok : CopiesKept f (pre ++ r :: post) r a) :
    CopiesFresh (poolAct f r a).1 (pre ++ (poolAct f r a).2 :: post) := by
  have hlock := h.lock
  have hr : ∀ c ∈ r.copy, c = f.metadata := h.fresh r (by simp)
  have hstep := copyStep_poolAct f r a
  generalize (poolAct f r a).1 = f' at hstep ⊢
  generalize (poolAct f r a).2 = r' at hstep ⊢
  cases hstep with
  | quiet hmeta hlocked hholds hcopy =>
    refine ⟨forall_mem_replace h.fresh (fun q hq => hmeta ▸ hq) fun _ c hc => ?_,
      (countP_replace hholds).trans (hlocked ▸ hlock)⟩
    rw [hmeta]
    exact (hcopy c hc).elim (hr c) id
  | acquire hmeta hfree hlocked hheld hholds hcopy =>
    refine ⟨forall_mem_replace h.fresh (fun q hq => hmeta ▸ hq) fun _ => by simp [hcopy], ?_⟩
    simp only [List.countP_append, List.countP_cons, hheld, hholds, hfree, hlocked,
      Bool.toNat_false, Bool.toNat_true, Bool.false_eq_true, if_false, if_true] at hlock ⊢
    omega
  | release hmeta hlocked hheld hholds hcopy =>
    refine ⟨forall_mem_replace h.fresh (fun q hq => hmeta ▸ hq) fun _ => by simp [hcopy], ?_⟩
    have hle := Bool.toNat_le f.locked
    simp only [List.countP_append, List.countP_cons, hheld, hholds, hlocked, Bool.toNat_false,
      Bool.false_eq_true, if_false, if_true] at hlock ⊢
    omega
  | save hbefore hlocked hholds hcopy =>
    have hnone := h.copy_eq_none (by rw [hbefore]; rfl) hok
    refine ⟨fun q hq => ?_, (countP_replace hholds).trans (hlocked ▸ hlock)⟩
    have hq' : q.copy = none := by
      rcases List.mem_append.mp hq with hq | hq
      · exact hnone q (List.mem_append_left _ hq)
      · rcases List.mem_cons.mp hq with rfl | hq
        · exact hcopy
        · exact hnone q (List.mem_append_right _ hq)
    simp [hq']

theorem CopiesFresh.spawn {f : PoolFiles} {rs : List PoolRequest} (h : CopiesFresh f rs)
    (call : PoolCall) : CopiesFresh f (rs ++ [⟨call, .start⟩]) := by
  have hcopy : PoolRequest.copy ⟨call, .start⟩ = none := by cases call <;> rfl
  have hholds : PoolRequest.holdsLock ⟨call, .start⟩ = false := by cases call <;> rfl
  refine ⟨fun r hr => ?_, ?_⟩
  · rcases List.mem_append.mp hr with hr | hr
    · exact h.fresh r hr
    · rw [List.mem_singleton.mp hr, hcopy]
      simp
  · simpa [List.countP_append, hholds] using h.lock

/-- What is about to be written was read from the metadata as they are. -/
theorem CopiesFresh.freshCopy {f : PoolFiles} {rs : List PoolRequest} (h : CopiesFresh f rs)
    {r : PoolRequest} (hr : r ∈ rs) (a : PoolAction) : FreshCopy f r a := by
  cases a with
  | save =>
    intro copy hpc
    refine (h.fresh r hr copy ?_).symm
    rw [PoolRequest.copy, hpc]
    cases r.call <;> rfl
  | _ => trivial

/-- The counters are exact in every run in which no other write comes between the read and the write
of an initialisation or a revocation, and neither of the two writes between those of an issuance.
The issuances are kept apart by the lock. -/
theorem countersExact_of_copiesKept (kind : PoolKind) (schemaId : Str) (mode : ValidationMode)
    (is : List (Input PoolCall PoolAction))
    (h : Runs.Along (step poolProgram) (onRuns CopiesKept) (freshPool kind schemaId mode) is) :
    Runs.Always (step poolProgram) CountersExact (freshPool kind schemaId mode) is := by
  have hspawn : ∀ f rs call, Tallied f rs ∧ CopiesFresh f rs →
      Tallied f (rs ++ [⟨call, .start⟩]) ∧ CopiesFresh f (rs ++ [⟨call, .start⟩]) :=
    fun f rs call h => ⟨tallied_spawn f rs call h.1, h.2.spawn call⟩
  have hact : ∀ f pre r post a, Tallied f (pre ++ r :: post) ∧ CopiesFresh f (pre ++ r :: post) →
      CopiesKept f (pre ++ r :: post) r a →
      Tallied (poolAct f r a).1 (pre ++ (poolAct f r a).2 :: post) ∧
        CopiesFresh (poolAct f r a).1 (pre ++ (poolAct f r a).2 :: post) :=
    fun f pre r post a h hok =>
      ⟨tallied_poolAct f pre r post a h.1 (h.2.freshCopy (by simp) a), h.2.act hok⟩
  have hinit : Tallied (freshPool kind schemaId mode).shared
      (freshPool kind schemaId mode).threads ∧ CopiesFresh (freshPool kind schemaId mode).shared
      (freshPool kind schemaId mode).threads :=
    ⟨tallied_freshPool kind schemaId mode, by simp [freshPool], rfl⟩
  exact (always_of_runs poolProgram hspawn hact hinit h).imp fun _ hs => hs.1.countersExact

/-- Two issuances whose steps alternate as far as the lock allows. -/
example : Runs.Along (step poolProgram) (onRuns CopiesKept) maltaPool
    [.spawn (.initializePool 3), .run 0 .check, .run 0 (.store initialRecordId), .run 0 .save,
      .spawn (.issueCredentials 5), .spawn (.issueCredentials 7), .run 1 .check, .run 2 .check,
      .run 1 .acquire, .run 2 .acquire, .run 1 (.store "r".toList), .run 2 (.store "s".toList),
      .run 1 .reload, .run 2 .reload, .run 1 .save, .run 1 .finish, .run 2 .acquire,
      .run 2 (.store "s".toList), .run 2 .reload, .run 2 .save, .run 2 .finish] := by
  decide +kernel

/-! ## A request that runs alone -/

/-- The files hold the metadata of the pool, and the number of rows of each of its CSV files. -/
structure Counts (w : PoolWorld) (f : PoolFiles) : Prop where
  metadata : w.metadata = some f.metadata
  rows : ∀ id, f.dataset.get id = (w.dataset.get (csvName id)).map countCsvRows

/-- A run of the request alone returns the result of the handler, leaves the pool as the handler
does, and has released the lock. -/
def RunsTo {α : Type} (f : PoolFiles) (call : PoolCall) (outcome : Except ApiError α × PoolWorld) :
    Prop :=
  ∃ as f', alone poolProgram f ⟨call, .start⟩ as =
      (f', ⟨call, .returned (outcome.1.map fun _ => ())⟩) ∧
    f'.locked = f.locked ∧ Counts outcome.2 f'

section Alone

variable {w : PoolWorld} {f : PoolFiles}

theorem Counts.insert (h : Counts w f) (id : Str) (csvBytes : Bytes) :
    Counts { w with dataset := w.dataset.insert (csvName id) csvBytes }
      { f with dataset := f.dataset.insert id (countCsvRows csvBytes) } := by
  refine ⟨h.metadata, fun id' => ?_⟩
  have hname : csvName id' = csvName id ↔ id' = id := List.append_left_inj _
  dsimp only
  rw [Table.get_insert, Table.get_insert]
  by_cases hid : id' = id
  · rw [if_pos hid, if_pos (hname.mpr hid)]
    rfl
  · rw [if_neg hid, if_neg (mt hname.mp hid)]
    exact h.rows id'

theorem Counts.load (h : Counts w f) {readable : Bool} {m : PoolMetadata}
    (hload : w.loadPoolMeta readable = .ok m) : m = f.metadata := by
  rw [loadPoolMeta, h.metadata] at hload
  cases readable with
  | true => exact (Except.ok.inj hload).symm
  | false => cases hload

/-- A request that fails before it writes anything. -/
theorem RunsTo.fail {α : Type} {call : PoolCall} (h : Counts w f) (e : ApiError) :
    RunsTo (α := α) f call (.error e, w) := by
  refine ⟨[.abort e], { f with locked := f.locked && !PoolRequest.holdsLock ⟨call, .start⟩ }, rfl,
    ?_, h.metadata, h.rows⟩
  cases call <;> simp [PoolRequest.holdsLock]

/-- A request that fails one of its checks on the pool. -/
theorem RunsTo.check {α : Type} {call : PoolCall} (h : Counts w f) {e : ApiError}
    (hcheck : poolAct f ⟨call, .start⟩ .check = (f, ⟨call, .returned (.error e)⟩)) :
    RunsTo (α := α) f call (.error e, w) :=
  ⟨[.check], f, hcheck, rfl, h⟩

section Initialize

variable {sha256Hex : Bytes → Str} {parseFromStr : Str → Str → Bool} {csvBytes : Bytes}
  {io : InitializeIo}

theorem runsTo_initializeWrites (h : Counts w f)
    (hcheck : checkInitialize f.metadata = .storing f.metadata) (user : Str) :
    RunsTo f (.initializePool (countCsvRows csvBytes))
      (w.initializeWrites sha256Hex f.metadata user csvBytes io) := by
  have hstored := h.insert initialRecordId csvBytes
  have hact : poolProgram.act f ⟨.initializePool (countCsvRows csvBytes), .start⟩ .check =
      (f, ⟨.initializePool (countCsvRows csvBytes), .storing f.metadata⟩) := by
    simp [poolProgram, poolAct, hcheck]
  have hrun : ∀ a, alone poolProgram f ⟨.initializePool (countCsvRows csvBytes), .start⟩
      [.check, .store initialRecordId, a] = poolAct
        { f with dataset := f.dataset.insert initialRecordId (countCsvRows csvBytes) }
        ⟨.initializePool (countCsvRows csvBytes), .saving f.metadata⟩ a := by
    intro a
    rw [alone_cons, hact]
    rfl
  fun_cases initializeWrites w sha256Hex f.metadata user csvBytes io with
  | case1 e => exact .fail h _
  | case2 => exact ⟨_, _, hrun (.abort _), Bool.and_true _, hstored.metadata, hstored.rows⟩
  | case3 => exact ⟨_, _, hrun (.abort _), Bool.and_true _, hstored.metadata, hstored.rows⟩
  | case4 _ _ _ _ _ _ _ saved hsave =>
    obtain rfl := savePoolMeta_eq_ok hsave
    exact ⟨_, _, hrun .save, rfl, rfl, hstored.rows⟩

/-- An initialisation that runs alone. -/
theorem runsTo_initializePool (h : Counts w f) (user : Str) :
    RunsTo f (.initializePool (countCsvRows csvBytes))
      (w.initializePool sha256Hex parseFromStr user csvBytes io) := by
  unfold PoolWorld.initializePool
  fun_cases initializeChecks w parseFromStr csvBytes io with
  | case1 => exact .fail h _
  | case2 => exact .fail h _
  | case3 _ _ m hload hstate =>
    obtain rfl := h.load hload
    exact .check h (by simp [poolAct, checkInitialize, hstate])
  | case4 _ _ m hload hstate hkind =>
    obtain rfl := h.load hload
    exact .check h (by simp [poolAct, checkInitialize, not_not.mp hstate, hkind])
  | case5 => exact .fail h _
  | case6 _ _ m hload hstate hkind =>
    obtain rfl := h.load hload
    exact runsTo_initializeWrites h (by simp [checkInitialize, not_not.mp hstate, hkind]) user

end Initialize

section Issue

variable {sha256Hex : Bytes → Str} {parseFromStr : Str → Str → Bool} {csvBytes : Bytes}
  {io : IssueIo}

theorem Counts.recordBurn (h : Counts w f) (io : IssueIo) : Counts (w.recordBurn io) f := by
  unfold PoolWorld.recordBurn
  split_ifs
  · exact ⟨h.metadata, h.rows⟩
  · exact h

theorem Counts.putAnchor (h : Counts w f) (sha256Hex : Bytes → Str) (csvBytes : Bytes)
    (io : IssueIo) :
    Counts (w.putAnchor sha256Hex csvBytes io) f := by
  unfold PoolWorld.putAnchor
  split
  · exact h
  · exact ⟨h.metadata, h.rows⟩

/-- The data set is stored under a new id, in a pool that no other request has locked. -/
theorem runsTo_issueWrites (h : Counts w f) (hcheck : checkIssue f.metadata = .checked)
    (hfree : f.locked = false) (hnew : w.dataset.get (csvName io.recordId.text) = none)
    (user signature : Str) :
    RunsTo f (.issueCredentials (countCsvRows csvBytes))
      (w.issueWrites sha256Hex user signature csvBytes io) := by
  have hinserted := h.insert io.recordId.text csvBytes
  have hstored := hinserted.putAnchor sha256Hex csvBytes io
  have hinitial : io.recordId.text ≠ initialRecordId := by
    intro hid
    have huuid := io.recordId.isUuid
    rw [hid] at huuid
    exact absurd huuid (by decide)
  have hnone : f.dataset.get io.recordId.text = none := by rw [h.rows, hnew, Option.map_none]
  have hact : poolProgram.act f ⟨.issueCredentials (countCsvRows csvBytes), .start⟩ .check =
      (f, ⟨.issueCredentials (countCsvRows csvBytes), .checked⟩) := by
    simp [poolProgram, poolAct, hcheck]
  have hlock : poolProgram.act f ⟨.issueCredentials (countCsvRows csvBytes), .checked⟩ .acquire =
      ({ f with locked := true }, ⟨.issueCredentials (countCsvRows csvBytes), .locked⟩) := by
    simp [poolProgram, poolAct, hfree]
  have hstore : poolProgram.act { f with locked := true }
      ⟨.issueCredentials (countCsvRows csvBytes), .locked⟩ (.store io.recordId.text) =
        (⟨f.metadata, f.dataset.insert io.recordId.text (countCsvRows csvBytes), true⟩,
          ⟨.issueCredentials (countCsvRows csvBytes), .stored⟩) := by
    simp [poolProgram, poolAct, hinitial, hnone]
  have hrun : ∀ as, alone poolProgram f ⟨.issueCredentials (countCsvRows csvBytes), .start⟩
      (.check :: .acquire :: .store io.recordId.text :: as) = alone poolProgram
        ⟨f.metadata, f.dataset.insert io.recordId.text (countCsvRows csvBytes), true⟩
        ⟨.issueCredentials (countCsvRows csvBytes), .stored⟩ as := by
    intro as
    rw [alone_cons, hact, alone_cons, hlock, alone_cons, hstore]
  fun_cases issueWrites w sha256Hex user signature csvBytes io with
  | case1 => exact .fail (w := w.log io.audit _) ⟨h.metadata, h.rows⟩ _
  | case2 =>
    exact ⟨_, _, hrun [.abort _], hfree.symm, hstored.metadata, hstored.rows⟩
  | case3 =>
    exact ⟨_, _, hrun [.abort _], hfree.symm, hstored.metadata, hstored.rows⟩
  | case4 _ _ _ _ _ m hload _ saved hsave =>
    obtain rfl : m = f.metadata := hstored.load hload
    obtain rfl := savePoolMeta_eq_ok hsave
    exact ⟨_, _, hrun [.reload, .save, .finish], hfree.symm, rfl, hstored.rows⟩

/-- An issuance that runs alone, under a new record id. -/
theorem runsTo_issueCredentials (h : Counts w f) (hfree : f.locked = false)
    (hnew : w.dataset.get (csvName io.recordId.text) = none) (user : Str) :
    RunsTo f (.issueCredentials (countCsvRows csvBytes))
      (w.issueCredentials sha256Hex parseFromStr user csvBytes io) := by
  have hburn := h.recordBurn io
  have hdataset : (w.recordBurn io).dataset = w.dataset := by
    unfold PoolWorld.recordBurn
    split_ifs <;> rfl
  unfold PoolWorld.issueCredentials
  fun_cases issueChecks w parseFromStr csvBytes io with
  | case1 => exact .fail h _
  | case2 => exact .fail h _
  | case3 _ _ m hload hstate =>
    obtain rfl := h.load hload
    exact .check h (by simp [poolAct, checkIssue, hstate])
  | case4 _ _ m hload hstate hkind =>
    obtain rfl := h.load hload
    exact .check h (by simp [poolAct, checkIssue, not_not.mp hstate, hkind])
  | case5 => exact .fail h _
  | case6 => exact .fail h _
  | case7 _ _ m hload hstate hkind =>
    obtain rfl := h.load hload
    dsimp only
    split
    · exact .fail hburn _
    · exact runsTo_issueWrites hburn (by simp [checkIssue, not_not.mp hstate, hkind]) hfree
        (hdataset ▸ hnew) user _

end Issue

/-- A revocation that runs alone. A credential id with a `/` in it can lead out of the data set. -/
theorem runsTo_revokeCredentials (h : Counts w f) {credentialIds : List Str}
    (hplain : ∀ cid ∈ credentialIds, '/' ∉ cid) (user : Str) (reason : Option Str)
    (io : RevokeIo) :
    RunsTo f (.revokeCredentials credentialIds)
      (w.revokeCredentials user credentialIds reason io) := by
  have hfind : (credentialIds.find? fun cid => !w.credentialExists io.elsewhere cid) =
      credentialIds.find? fun cid => (f.dataset.get cid).isNone := by
    refine List.find?_congr fun cid hcid => ?_
    rw [credentialExists, if_neg (hplain cid hcid), h.rows]
    cases w.dataset.get (csvName cid) <;> rfl
  fun_cases revokeCredentials w user credentialIds reason io with
  | case1 hnil => exact .check h (by simp [poolAct, checkRevoke, hnil])
  | case2 => exact .fail h _
  | case3 => exact .fail h _
  | case4 hnil _ _ _ _ cid hmissing =>
    rw [hfind] at hmissing
    exact .check h (by simp only [poolAct, checkRevoke, hnil, hmissing]; rfl)
  | case5 => exact .fail h _
  | case6 => exact .fail h _
  | case7 => exact .fail h _
  | case8 hnil _ _ _ _ hall _ _ m hload _ saved hsave =>
    obtain rfl := h.load hload
    obtain rfl := savePoolMeta_eq_ok hsave
    rw [hfind] at hall
    have hact : poolProgram.act f ⟨.revokeCredentials credentialIds, .start⟩ .check =
        (f, ⟨.revokeCredentials credentialIds, .checked⟩) := by
      simp [poolProgram, poolAct, checkRevoke, hnil, hall]
    refine ⟨[.check, .reload, .save],
      { f with metadata := (PoolCall.revokeCredentials credentialIds).change f.metadata }, ?_, rfl,
      ?_, ?_⟩
    · rw [alone_cons, hact]
      rfl
    · rw [log_metadata, metadata_upsertRevocations]
      rfl
    · rw [log_dataset, dataset_upsertRevocations]
      exact h.rows

end Alone

end RelationalSdk
