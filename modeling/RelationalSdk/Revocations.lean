import RelationalSdk.Issuance

/-!
# The revoked counter

`revoke_credentials` adds the length of its list to `revoked_count` and writes each
credential id to the revocation table, which `count_revocations` counts. The table is keyed
by the id, so revoking a credential twice counts it twice in the one and once in the other,
and a write to the table that fails is passed over.

`revokedExact_iff` : after successful requests the two numbers agree exactly if no id was
revoked twice and no write failed.
-/

namespace RelationalSdk

open Text KeyedTable Runs PoolWorld

/-- A revocation request, with the outcome of everything it asks of its surroundings. -/
structure RevokeRequest where
  user : Str
  credentialIds : List Str
  reason : Option Str
  io : RevokeIo

/-- The pool after a request. -/
def revokeStep (w : PoolWorld) (r : RevokeRequest) : PoolWorld :=
  (w.revokeCredentials r.user r.credentialIds r.reason r.io).2

/-- The request returns `Ok`. -/
def RevokeSucceeds (w : PoolWorld) (r : RevokeRequest) : Prop :=
  (w.revokeCredentials r.user r.credentialIds r.reason r.io).1.isOk

instance (w : PoolWorld) (r : RevokeRequest) : Decidable (RevokeSucceeds w r) :=
  inferInstanceAs (Decidable (_ = true))

/-- The credential ids of the requests, in order. -/
def revokedIds (rs : List RevokeRequest) : List Str :=
  rs.flatMap RevokeRequest.credentialIds

/-- The counter is the number of rows of the revocation table, which is the number of
distinct ids that were revoked. -/
def RevokedExact (w : PoolWorld) (ids : List Str) : Prop :=
  w.metadata.map PoolMetadata.revokedCount = some w.countRevocations ∧
    w.countRevocations = ids.dedup.length

instance (w : PoolWorld) (ids : List Str) : Decidable (RevokedExact w ids) :=
  inferInstanceAs (Decidable (_ ∧ _))

/-- A pool without revocations. -/
def Unrevoked (w : PoolWorld) : Prop :=
  w.metadata.map PoolMetadata.revokedCount = some 0 ∧
    ∀ id, w.revocations.get (w.revocationKey id) = none

/-- Every write of the request to the revocation table succeeds. -/
def RevokeRequest.AllWritten (r : RevokeRequest) : Prop :=
  ∀ i < r.credentialIds.length, i ∉ r.io.failedUpserts

instance (r : RevokeRequest) : Decidable r.AllWritten :=
  inferInstanceAs (Decidable (∀ i < _, _))

/-! ## The table -/

/-- The rows of the pool in the revocation table are those of the ids. -/
def RevocationsAre (w : PoolWorld) (ids : List Str) : Prop :=
  ∀ id, (w.revocations.get (w.revocationKey id)).isSome ↔ id ∈ ids

theorem revocationKey_inj {w : PoolWorld} {id id' : Str}
    (h : w.revocationKey id = w.revocationKey id') : id = id' :=
  (List.cons.inj (List.append_cancel_left h)).2

theorem revocationKey_eq (w : PoolWorld) (id : Str) :
    w.revocationKey id = (w.poolPda ++ ['|']) ++ id := by
  simp [revocationKey]

/-- The table has one row for each distinct id. -/
theorem RevocationsAre.countRevocations_eq {w : PoolWorld} {ids : List Str}
    (h : RevocationsAre w ids) : w.countRevocations = ids.dedup.length := by
  let keys := (w.revocations.scan (w.poolPda ++ ['|'])).map Prod.fst
  have hkeys : keys.Nodup := by
    have hsub : List.Sublist (w.revocations.scan (w.poolPda ++ ['|'])) w.revocations.entries := by
      rw [Table.scan_eq_filter]
      exact List.filter_sublist
    exact (w.revocations.nodup_keys).sublist (hsub.map Prod.fst)
  have hmem : ∀ k, k ∈ keys ↔ k ∈ ids.dedup.map w.revocationKey := by
    intro k
    simp only [keys, List.mem_map, Table.mem_scan, List.mem_dedup]
    constructor
    · rintro ⟨e, ⟨he, id, hid⟩, rfl⟩
      have hkey : w.revocationKey id = e.1 := (revocationKey_eq w id).trans hid
      refine ⟨id, (h id).mp ?_, hkey⟩
      rw [hkey, (Table.get_eq_some_iff _).mpr he]
      rfl
    · rintro ⟨id, hid, rfl⟩
      obtain ⟨entry, hentry⟩ := Option.isSome_iff_exists.mp ((h id).mpr hid)
      refine ⟨(w.revocationKey id, entry), ⟨(Table.get_eq_some_iff _).mp hentry, ?_⟩, rfl⟩
      exact ⟨id, (revocationKey_eq w id).symm⟩
  have hdedup : (ids.dedup.map w.revocationKey).Nodup :=
    (List.nodup_dedup ids).map fun _ _ => revocationKey_inj
  have hperm := (List.perm_ext_iff_of_nodup hkeys hdedup).mpr hmem
  have hlength := hperm.length_eq
  rwa [List.length_map, List.length_map] at hlength

/-- The ids, from position `i` on, whose writes succeed. -/
def writtenFrom (failed : List Nat) : Nat → List Str → List Str
  | _, [] => []
  | i, cid :: cids =>
    if i ∈ failed then writtenFrom failed (i + 1) cids
    else cid :: writtenFrom failed (i + 1) cids

/-- The ids of the requests whose writes succeed. -/
def writtenIds (rs : List RevokeRequest) : List Str :=
  rs.flatMap fun r => writtenFrom r.io.failedUpserts 0 r.credentialIds

theorem writtenFrom_sublist (failed : List Nat) :
    ∀ (i : Nat) (cids : List Str), List.Sublist (writtenFrom failed i cids) cids
  | _, [] => List.Sublist.slnil
  | i, cid :: cids => by
    rw [writtenFrom]
    split_ifs
    · exact (writtenFrom_sublist failed (i + 1) cids).cons cid
    · exact (writtenFrom_sublist failed (i + 1) cids).cons_cons cid

theorem writtenFrom_eq_iff (failed : List Nat) :
    ∀ (i : Nat) (cids : List Str), writtenFrom failed i cids = cids ↔
      ∀ j < cids.length, i + j ∉ failed
  | _, [] => by simp [writtenFrom]
  | i, cid :: cids => by
    have ih := writtenFrom_eq_iff failed (i + 1) cids
    have hsub := writtenFrom_sublist failed (i + 1) cids
    rw [writtenFrom]
    constructor
    · intro h j hj
      split_ifs at h with hi
      · have hlength := hsub.length_le
        rw [h, List.length_cons] at hlength
        omega
      · cases j with
        | zero => exact hi
        | succ j =>
          have hnext := ih.mp (List.cons.inj h).2 j (by simpa using hj)
          rwa [Nat.add_assoc, Nat.add_comm 1 j] at hnext
    · intro h
      have hi : i ∉ failed := h 0 (by simp)
      rw [if_neg hi, ih.mpr fun j hj => ?_]
      have hnext := h (j + 1) (by simpa using hj)
      rwa [Nat.add_assoc, Nat.add_comm 1 j]

theorem writtenIds_sublist (rs : List RevokeRequest) :
    List.Sublist (writtenIds rs) (revokedIds rs) := by
  induction rs with
  | nil => exact List.Sublist.slnil
  | cons r rs ih => exact (writtenFrom_sublist r.io.failedUpserts 0 r.credentialIds).append ih

theorem writtenIds_eq_iff (rs : List RevokeRequest) :
    writtenIds rs = revokedIds rs ↔ ∀ r ∈ rs, r.AllWritten := by
  induction rs with
  | nil => simp [writtenIds, revokedIds]
  | cons r rs ih =>
    have hsub := writtenFrom_sublist r.io.failedUpserts 0 r.credentialIds
    have hall : writtenFrom r.io.failedUpserts 0 r.credentialIds = r.credentialIds ↔
        r.AllWritten := by
      rw [writtenFrom_eq_iff]
      simp only [Nat.zero_add]
      rfl
    rw [List.forall_mem_cons, ← ih, ← hall]
    constructor
    · intro h
      have hlength := congrArg List.length h
      have hle := hsub.length_le
      have hle' := (writtenIds_sublist rs).length_le
      simp only [writtenIds, revokedIds, List.flatMap_cons, List.length_append] at hlength hle'
      refine ⟨hsub.eq_of_length (by omega), (writtenIds_sublist rs).eq_of_length ?_⟩
      simp only [writtenIds, revokedIds]
      omega
    · rintro ⟨hr, hrs⟩
      simp only [writtenIds, revokedIds, List.flatMap_cons] at hrs ⊢
      rw [hr, hrs]

/-! ## The requests -/

theorem RevocationsAre.upsert {w : PoolWorld} {ids : List Str} (h : RevocationsAre w ids)
    (entry : RevocationEntry) :
    RevocationsAre (w.upsertRevocation entry) (ids ++ [entry.credentialId]) := by
  intro id
  have hkey : (w.upsertRevocation entry).revocationKey id = w.revocationKey id := rfl
  rw [hkey, upsertRevocation, Table.isSome_get_insert_iff, h id, List.mem_append,
    List.mem_singleton, or_comm]
  exact or_congr_right ⟨revocationKey_inj, congrArg w.revocationKey⟩

theorem RevocationsAre.upsertRevocations {user : Str} {reason : Option Str} {io : RevokeIo} :
    ∀ {i : Nat} {cids ids : List Str} {w : PoolWorld}, RevocationsAre w ids →
      RevocationsAre (upsertRevocations user reason io i cids w)
        (ids ++ writtenFrom io.failedUpserts i cids)
  | _, [], ids, w, h => by
    rw [writtenFrom, List.append_nil]
    exact h
  | i, cid :: cids, ids, w, h => by
    rw [PoolWorld.upsertRevocations, writtenFrom]
    split_ifs
    · exact upsertRevocations h
    · rw [List.append_cons]
      exact upsertRevocations (h.upsert ⟨cid, user, io.now, reason⟩)

/-- A request is answered with an error, or counts and stores all its credentials. -/
theorem revokeStep_cases (w : PoolWorld) (r : RevokeRequest) :
    ¬RevokeSucceeds w r ∨ ∃ m event, w.metadata = some m ∧
      revokeStep w r = (upsertRevocations r.user r.reason r.io 0 r.credentialIds
        { w with metadata := some { m with
          revokedCount := m.revokedCount + r.credentialIds.length } }).log r.io.audit event := by
  unfold RevokeSucceeds revokeStep revokeCredentials
  split_ifs with hempty
  · exact Or.inl Bool.false_ne_true
  -- each check that fails ends the request
  · split
    · exact Or.inl Bool.false_ne_true
    · split
      · exact Or.inl Bool.false_ne_true
      · split
        · exact Or.inl Bool.false_ne_true
        · split
          · exact Or.inl Bool.false_ne_true
          · split
            · exact Or.inl Bool.false_ne_true
            · rename_i m hreload
              dsimp only
              split
              · exact Or.inl Bool.false_ne_true
              · rename_i saved hsave
                rw [savePoolMeta_eq_ok hsave]
                exact Or.inr ⟨m, _, (loadPoolMeta_eq_ok_iff.mp hreload).2, rfl⟩

/-- The counter and the table after the requests `rs`. -/
structure Tally (w : PoolWorld) (rs : List RevokeRequest) : Prop where
  count : w.metadata.map PoolMetadata.revokedCount = some (revokedIds rs).length
  rows : RevocationsAre w (writtenIds rs)

theorem Tally.request {w : PoolWorld} {rs : List RevokeRequest} {r : RevokeRequest}
    (h : Tally w rs) (hok : RevokeSucceeds w r) : Tally (revokeStep w r) (rs ++ [r]) := by
  obtain ⟨m, event, hm, hstep⟩ := (revokeStep_cases w r).resolve_left (not_not.mpr hok)
  have hcount : m.revokedCount = (revokedIds rs).length := by
    have hcount := h.count
    rw [hm] at hcount
    exact Option.some.inj hcount
  rw [hstep]
  constructor
  · rw [log_metadata, metadata_upsertRevocations]
    simp [revokedIds, hcount]
  · have hrows : RevocationsAre { w with metadata := some { m with
        revokedCount := m.revokedCount + r.credentialIds.length } } (writtenIds rs) := h.rows
    have hsplit : writtenIds (rs ++ [r]) =
        writtenIds rs ++ writtenFrom r.io.failedUpserts 0 r.credentialIds := by
      simp [writtenIds]
    rw [hsplit]
    exact hrows.upsertRevocations

theorem Tally.run {rs : List RevokeRequest} :
    ∀ {done : List RevokeRequest} {w : PoolWorld}, Tally w done →
      Along revokeStep RevokeSucceeds w rs → Tally (exec revokeStep w rs) (done ++ rs) := by
  induction rs with
  | nil =>
    intro done w h _
    rwa [List.append_nil]
  | cons r rs ih =>
    rintro done w h ⟨hr, hrs⟩
    rw [List.append_cons, exec_cons]
    exact ih (h.request hr) hrs

/-- With `written` among `revoked`, all of `revoked` are distinct ones of `written` exactly
if they are distinct and none is missing. -/
theorem length_eq_dedup_iff {written revoked : List Str} (h : List.Sublist written revoked) :
    revoked.length = written.dedup.length ↔ written = revoked ∧ revoked.Nodup := by
  constructor
  · intro hlength
    have hdedup := written.dedup_sublist
    have hwritten : written = revoked :=
      h.eq_of_length (le_antisymm h.length_le (hlength ▸ hdedup.length_le))
    subst hwritten
    refine ⟨rfl, ?_⟩
    rw [← hdedup.eq_of_length hlength.symm]
    exact written.nodup_dedup
  · rintro ⟨rfl, hnodup⟩
    rw [hnodup.dedup]

/-- After successful revocations of a pool without any, the counter is exact exactly if no
credential id was revoked twice and every write to the table succeeded. -/
theorem revokedExact_iff (w : PoolWorld) (rs : List RevokeRequest) (hstart : Unrevoked w)
    (hok : Along revokeStep RevokeSucceeds w rs) :
    RevokedExact (exec revokeStep w rs) (revokedIds rs) ↔
      (revokedIds rs).Nodup ∧ ∀ r ∈ rs, r.AllWritten := by
  have htally : Tally (exec revokeStep w rs) rs := by
    have hnone : Tally w [] := ⟨hstart.1, fun id => by simp [hstart.2 id, writtenIds]⟩
    exact hnone.run hok
  have hlength := length_eq_dedup_iff (writtenIds_sublist rs)
  rw [RevokedExact, htally.count, htally.rows.countRevocations_eq, Option.some.injEq, hlength,
    ← writtenIds_eq_iff]
  constructor
  · rintro ⟨⟨hwritten, hnodup⟩, -⟩
    exact ⟨hnodup, hwritten⟩
  · rintro ⟨hnodup, hwritten⟩
    exact ⟨⟨hwritten, hnodup⟩, by rw [hwritten]⟩

/-- A revocation of some credentials by the owner of the pool, all of whose writes succeed. -/
def sampleRevoke (credentialIds : List Str) : RevokeRequest where
  user := "admin".toList
  credentialIds := credentialIds
  reason := none
  io := ⟨.ok (), true, fun _ => false, .ok (), true, .ok (), [], sampleDate,
    ⟨true, true⟩⟩

/-- The initial data set is revoked twice, in one request or in two : the counter says two,
the table has one row. -/
theorem not_revokedExact_twice :
    (Along revokeStep RevokeSucceeds sampleReadyPool
        [sampleRevoke [initialRecordId], sampleRevoke [initialRecordId]] ∧
      ¬RevokedExact (exec revokeStep sampleReadyPool
          [sampleRevoke [initialRecordId], sampleRevoke [initialRecordId]])
        [initialRecordId, initialRecordId]) ∧
    (Along revokeStep RevokeSucceeds sampleReadyPool
        [sampleRevoke [initialRecordId, initialRecordId]] ∧
      ¬RevokedExact (exec revokeStep sampleReadyPool
          [sampleRevoke [initialRecordId, initialRecordId]])
        [initialRecordId, initialRecordId]) := by
  decide +kernel

def secondRecordId : Str :=
  "66666666-7777-4888-9999-aaaaaaaaaaaa".toList

/-- The pool with two more data sets. -/
def sampleFullPool : PoolWorld :=
  { sampleReadyPool with
    dataset := [sampleRecordId, secondRecordId].foldl (fun files id =>
      files.insert (id ++ ".csv".toList) (asBytes "a,b\n3,4\n".toList)) sampleReadyPool.dataset }

/-- All three are revoked, two of them in one request. -/
theorem revokedExact_once :
    let rs := [sampleRevoke [sampleRecordId, initialRecordId], sampleRevoke [secondRecordId]]
    Unrevoked sampleFullPool ∧ Along revokeStep RevokeSucceeds sampleFullPool rs ∧
      RevokedExact (exec revokeStep sampleFullPool rs) (revokedIds rs) := by
  have hstart : Unrevoked sampleFullPool := ⟨rfl, fun _ => rfl⟩
  have hok : Along revokeStep RevokeSucceeds sampleFullPool
      [sampleRevoke [sampleRecordId, initialRecordId], sampleRevoke [secondRecordId]] := by
    decide +kernel
  exact ⟨hstart, hok, (revokedExact_iff _ _ hstart hok).mpr ⟨by decide +kernel, by decide +kernel⟩⟩

end RelationalSdk
