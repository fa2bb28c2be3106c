import RelationalSdk.GrantMirror
import RelationalSdk.PoolRegistration

/-!
# The accounts of grants

A grant is an account of the program. Its address is derived from a commitment, the hash of the
analyst, the identifier of the pool and the identifier of the right, one behind the other with
nothing between them. The two identifiers are read from the metadata of the pool, where
`create_pool_atomic` has put them.

The model of `grant_right` and `revoke_grant` has a flag for each pool, analyst and right in the
place of the accounts. `grantAccounts_simulate` : this is what the accounts do. After any creations
of pools and in every interleaving of grants and revocations, the handlers return the same, the
mirror is the same and the account of a grant exists exactly if its flag is set, provided that no
identifier was drawn twice and that no two of the commitments in use collide.
-/

namespace RelationalSdk

open Text IndexLoops HexText KeyedTable Threads

/-! ## Addresses and instructions -/

/-- `DISC_GRANT_RIGHT`. -/
def discGrantRight : Bytes := [147, 166, 175, 167, 132, 161, 76, 232]

/-- `DISC_REVOKE_GRANT`. -/
def discRevokeGrant : Bytes := [134, 180, 57, 39, 152, 7, 154, 98]

section Builders

variable (c : Crates)

/-- The address of a grant. -/
def deriveGrantPda (commitment : List.Vector UInt8 32) : Pubkey × UInt8 :=
  c.findProgramAddress [asBytes "grant".toList, commitment.toList] drtProgramId

def buildGrantRight (poolPda drtConfigPda mint holder : Pubkey)
    (commitment : List.Vector UInt8 32) : Instruction where
  programId := drtProgramId
  accounts :=
    [.newReadonly poolPda false, .newReadonly drtConfigPda false, .new mint false,
      .new holder true, .new (deriveUserAta c holder mint) false,
      .new (deriveGrantPda c commitment).1 false, .newReadonly tokenProgramId false,
      .newReadonly systemProgramId false]
  data := discGrantRight ++ commitment.toList

def buildRevokeGrant (owner poolPda drtConfigPda : Pubkey) (commitment : List.Vector UInt8 32) :
    Instruction where
  programId := drtProgramId
  accounts :=
    [.new owner true, .newReadonly poolPda false, .newReadonly drtConfigPda false,
      .new (deriveGrantPda c commitment).1 false]
  data := discRevokeGrant ++ commitment.toList

end Builders

/-- What `compute_commitment` hashes. -/
def commitmentInput (analystId : Str) (poolUuid rightId : UuidBytes) : Bytes :=
  asBytes analystId ++ poolUuid.toList ++ rightId.toList

/-- The parts can be told apart, because the last two have a fixed length. -/
theorem commitmentInput_inj {analystId analystId' : Str} {poolUuid poolUuid' : UuidBytes}
    {rightId rightId' : UuidBytes} :
    commitmentInput analystId poolUuid rightId = commitmentInput analystId' poolUuid' rightId' ↔
      analystId = analystId' ∧ poolUuid = poolUuid' ∧ rightId = rightId' := by
  constructor
  · intro h
    obtain ⟨hfront, hright⟩ := List.append_inj' h (by simp)
    obtain ⟨hanalyst, hpool⟩ := List.append_inj' hfront (by simp)
    exact ⟨asBytes_inj.mp hanalyst, List.Vector.toList_injective hpool,
      List.Vector.toList_injective hright⟩
  · rintro ⟨rfl, rfl, rfl⟩
    rfl

/-! ## The metadata of pools -/

/-- The metadata of a pool that the handlers of grants read. -/
structure PoolRights where
  kind : PoolKind
  poolUuidHex : Str
  drts : Table Str DrtMetadata

/-- The identifier of the right, and then that of the pool. -/
def decodeIds (m : PoolRights) (drt : DrtMetadata) :
    Exec (Except ApiError (UuidBytes × UuidBytes)) :=
  match decodeRightId drt.rightIdHex with
  | .error fault => .error fault
  | .ok (.error e) => .ok (.error e)
  | .ok (.ok rightId) =>
    match decodeRightId m.poolUuidHex with
    | .error fault => .error fault
    | .ok (.error e) => .ok (.error e)
    | .ok (.ok poolUuid) => .ok (.ok (poolUuid, rightId))

/-- A request for a pool, with the identifiers that it draws, the outcome of its transaction, and
whether its metadata could be written. -/
structure Creation where
  kind : PoolKind
  newUuidBytes : Nat → UuidBytes
  ownerPk : Pubkey
  drts : List ResolvedDrt
  sent : Except ApiError Str
  persisted : Bool

/-- The identifiers that are drawn. -/
def Creation.drawn (a : Creation) : List UuidBytes :=
  (List.range (a.drts.length + 1)).map a.newUuidBytes

section Pools

variable (c : Crates)

/-- The address of the pool. -/
def Creation.pool (a : Creation) : Pubkey :=
  (derivePoolPda c (a.newUuidBytes 0)).1

/-- The metadata of the pool. -/
def Creation.rights (a : Creation) : PoolRights where
  kind := a.kind
  poolUuidHex := hexEncode (a.newUuidBytes 0).toList
  drts := (recordDrts c (a.pool c) a.newUuidBytes a.drts).1

/-- A pool that has been created is recorded under its address. -/
def recordPool (pools : Table Str PoolRights) (a : Creation) : Table Str PoolRights :=
  match createPoolAtomic c (fun _ => a.sent.map fun sig => (sig, ([] : List Unit)))
    a.newUuidBytes a.ownerPk a.drts with
  | .error _ => pools
  | .ok created =>
    if a.persisted then
      pools.insert (pubkeyToString created.poolPda)
        ⟨a.kind, hexEncode created.poolUuid.toList, created.drts⟩
    else pools

/-- What is hashed for a grant, if the pool and the right are known. -/
def grantInput (pools : Table Str PoolRights) (t : GrantTriple) : Option Bytes := do
  let m ← pools.get t.poolPda
  let drt ← m.drts.get t.drtName
  match decodeIds m drt with
  | .ok (.ok (poolUuid, rightId)) => some (commitmentInput t.analystId poolUuid rightId)
  | _ => none

variable {c}

theorem recordPool_cases (pools : Table Str PoolRights) (a : Creation) :
    recordPool c pools a = pools ∨ (∃ sig, a.sent = .ok sig) ∧
      recordPool c pools a = pools.insert (pubkeyToString (a.pool c)) (a.rights c) := by
  rcases hixs : registerIxs c a.ownerPk (derivePoolPda c (a.newUuidBytes 0)).1 (a.drts.zip
    (recordDrts c (derivePoolPda c (a.newUuidBytes 0)).1 a.newUuidBytes a.drts).2) with
    e | registered
  · refine Or.inl ?_
    simp only [recordPool, createPoolAtomic, hixs]
  · rw [recordPool, createPoolAtomic_eq _ hixs]
    rcases hsent : a.sent with e | sig
    · exact Or.inl rfl
    · rcases a.persisted with _ | _
      · exact Or.inl rfl
      · exact Or.inr ⟨⟨sig, rfl⟩, rfl⟩

/-- Every pool in the metadata comes from a request whose transaction was sent. -/
theorem exists_creation_of_get (as : List Creation) {poolPda : Str} {m : PoolRights}
    (h : (Runs.exec (recordPool c) .empty as).get poolPda = some m) :
    ∃ a ∈ as, (∃ sig, a.sent = .ok sig) ∧ poolPda = pubkeyToString (a.pool c) ∧
      m = a.rights c := by
  induction as using List.reverseRecOn with
  | nil => simp at h
  | append_singleton as a ih =>
    rw [Runs.exec_concat] at h
    rcases recordPool_cases (c := c) (Runs.exec (recordPool c) .empty as) a with
      hsame | ⟨hsent, hinsert⟩
    · rw [hsame] at h
      obtain ⟨b, hb, hpool⟩ := ih h
      exact ⟨b, List.mem_append_left _ hb, hpool⟩
    · rw [hinsert, Table.get_insert] at h
      split_ifs at h with heq
      · exact ⟨a, by simp, hsent, heq, (Option.some_inj.mp h).symm⟩
      · obtain ⟨b, hb, hpool⟩ := ih h
        exact ⟨b, List.mem_append_left _ hb, hpool⟩

/-- Every right in the metadata of a pool comes from one of the rights asked for. -/
theorem exists_right_of_get (pool : Pubkey) (newUuidBytes : Nat → UuidBytes)
    (drts : List ResolvedDrt) {name : Str} {drt : DrtMetadata}
    (h : (recordDrts c pool newUuidBytes drts).1.get name = some drt) :
    ∃ i d, drts[i]? = some d ∧ d.name = name ∧
      drt = drtMetadata c pool d (newUuidBytes (i + 1)) := by
  induction drts using List.reverseRecOn with
  | nil => simp [recordDrts] at h
  | append_singleton drts d ih =>
    rw [recordDrts_concat, Table.get_insert] at h
    split_ifs at h with heq
    · refine ⟨drts.length, d, by simp, heq.symm, ?_⟩
      rw [← Option.some_inj.mp h, length_recordDrts_snd]
    · obtain ⟨i, d', hd', hname, hdrt⟩ := ih h
      exact ⟨i, d', List.getElem?_append_left (List.getElem?_eq_some_iff.mp hd').1 ▸ hd', hname,
        hdrt⟩

theorem exists_of_grantInput (as : List Creation) {t : GrantTriple} {b : Bytes}
    (h : grantInput (Runs.exec (recordPool c) .empty as) t = some b) :
    ∃ a ∈ as, ∃ i d, a.drts[i]? = some d ∧ t.poolPda = pubkeyToString (a.pool c) ∧
      t.drtName = d.name ∧
      b = commitmentInput t.analystId (a.newUuidBytes 0) (a.newUuidBytes (i + 1)) := by
  obtain ⟨m, hm, h⟩ := Option.bind_eq_some_iff.mp h
  obtain ⟨drt, hdrt, h⟩ := Option.bind_eq_some_iff.mp h
  obtain ⟨a, ha, -, hpool, rfl⟩ := exists_creation_of_get as hm
  obtain ⟨i, d, hd, hname, rfl⟩ := exists_right_of_get _ _ _ hdrt
  refine ⟨a, ha, i, d, hd, hpool, hname.symm, ?_⟩
  simp only [decodeIds, drtMetadata, Creation.rights, decodeRightId_hexEncode] at h
  exact (Option.some_inj.mp h).symm

/-- Different grants have different commitments, up to the hash, if no identifier is drawn twice. -/
theorem eq_of_grantInput_eq {as : List Creation} (hnodup : (as.flatMap Creation.drawn).Nodup)
    {t t' : GrantTriple} {b : Bytes}
    (h : grantInput (Runs.exec (recordPool c) .empty as) t = some b)
    (h' : grantInput (Runs.exec (recordPool c) .empty as) t' = some b) : t = t' := by
  obtain ⟨a, ha, i, d, hd, hpool, hname, hb⟩ := exists_of_grantInput as h
  obtain ⟨a', ha', i', d', hd', hpool', hname', hb'⟩ := exists_of_grantInput as h'
  obtain ⟨hanalyst, -, hright⟩ := commitmentInput_inj.mp (hb.symm.trans hb')
  have hdrawn : ∀ {a : Creation} {i : Nat} {d : ResolvedDrt}, a.drts[i]? = some d →
      a.newUuidBytes (i + 1) ∈ a.drawn := by
    intro a i d hd
    have hi := (List.getElem?_eq_some_iff.mp hd).1
    exact List.mem_map_of_mem (List.mem_range.mpr (by omega))
  obtain ⟨hown, hothers⟩ := List.nodup_flatMap.mp hnodup
  -- the identifier of the right was drawn by one request, and by it only once
  have hsame : a = a' := by
    by_contra hne
    have hsymm : Std.Symm (Function.onFun List.Disjoint Creation.drawn) :=
      ⟨fun _ _ h => List.Disjoint.symm h⟩
    exact hothers.forall ha ha' hne (hdrawn hd) (hright ▸ hdrawn hd')
  subst hsame
  have hindex : i = i' := by
    have hi := (List.getElem?_eq_some_iff.mp hd).1
    have hi' := (List.getElem?_eq_some_iff.mp hd').1
    have hinj := List.inj_on_of_nodup_map (hown a ha) (x := i + 1) (y := i' + 1)
    have hsucc := hinj (List.mem_range.mpr (by omega)) (List.mem_range.mpr (by omega)) hright
    omega
  subst hindex
  obtain rfl := Option.some_inj.mp (hd.symm.trans hd')
  exact GrantTriple.ext (hpool.trans hpool'.symm) hanalyst (hname.trans hname'.symm)

end Pools

/-! ## The chain by accounts -/

/-- The state the handlers share : the mirror, and which accounts of grants exist. -/
structure AccountWorld where
  tables : GrantTables
  existing : Pubkey → Bool

section Accounts

variable (address : GrantTriple → Pubkey)

/-- The world with a flag for each grant. -/
def AccountWorld.flags (w : AccountWorld) : GrantWorld :=
  ⟨w.tables, fun t => w.existing (address t)⟩

/-- Execution on chain : an account is created or closed at the address of the grant. -/
def executeAt (w : AccountWorld) (r : GrantRequest) : AccountWorld × GrantRequest :=
  if w.existing (address r.call.triple) = r.call.isRevoke then
    ({ w with existing := Function.update w.existing (address r.call.triple) !r.call.isRevoke },
      { r with tx := .landed })
  else (w, { r with tx := .failed })

/-- One action of a request. Only execution on chain touches an account. -/
def accountAct (w : AccountWorld) (r : GrantRequest) : GrantAction → AccountWorld × GrantRequest
  | .execute => if r.tx = .pending then executeAt address w r else (w, r)
  | a =>
    let (w', r') := grantAct (w.flags address) r a
    ({ w with tables := w'.tables }, r')

/-- The two handlers over accounts. -/
def accountProgram : Program AccountWorld GrantCall GrantRequest GrantAction :=
  ⟨GrantCall.start, accountAct address⟩

/-- No account exists, no request yet. -/
def accountsInit : System AccountWorld GrantRequest :=
  ⟨⟨.empty, fun _ => false⟩, []⟩

end Accounts

section Simulation

variable {address : GrantTriple → Pubkey} {T : Set GrantTriple}

/-- The accounts of the grants in use are what the flags say. -/
def SameGrants (address : GrantTriple → Pubkey) (T : Set GrantTriple) (w : GrantWorld)
    (w' : AccountWorld) : Prop :=
  w'.tables = w.tables ∧ ∀ t ∈ T, w'.existing (address t) = w.pdaExists t

theorem call_grantAct (w : GrantWorld) (r : GrantRequest) (a : GrantAction) :
    (grantAct w r a).2.call = r.call := by
  cases a
  all_goals
    simp only [grantAct, executeOnChain]
    split_ifs <;> rfl

theorem sameGrants_executeAt (hinj : Set.InjOn address T) {w : GrantWorld} {w' : AccountWorld}
    (h : SameGrants address T w w') {r : GrantRequest} (hr : r.call.triple ∈ T) :
    (executeAt address w' r).2 = (executeOnChain w r).2 ∧
      SameGrants address T (executeOnChain w r).1 (executeAt address w' r).1 := by
  unfold executeAt executeOnChain
  rw [h.2 _ hr]
  split_ifs with hexists
  · refine ⟨rfl, h.1, fun t ht => ?_⟩
    by_cases heq : t = r.call.triple
    · subst heq
      simp only [Function.update_self]
    · have hne : address t ≠ address r.call.triple := fun hsame => heq (hinj ht hr hsame)
      simp only [Function.update_of_ne heq, Function.update_of_ne hne, h.2 t ht]
  · exact ⟨rfl, h⟩

/-- Away from the chain, an action looks at the mirror alone. -/
theorem grantAct_of_tables (w w' : GrantWorld) (h : w'.tables = w.tables) (r : GrantRequest)
    {a : GrantAction} (ha : a ≠ .execute) :
    (grantAct w' r a).2 = (grantAct w r a).2 ∧
      (grantAct w' r a).1.tables = (grantAct w r a).1.tables ∧
      (grantAct w r a).1.pdaExists = w.pdaExists := by
  have hactive : w'.active = w.active := by
    funext t
    rw [GrantWorld.active, GrantWorld.active, h]
  cases a with
  | execute => exact absurd rfl ha
  | _ =>
    simp only [grantAct, hactive]
    split_ifs <;> simp [h]

theorem sameGrants_accountAct (hinj : Set.InjOn address T) (w : GrantWorld) (w' : AccountWorld)
    (r : GrantRequest) (a : GrantAction) (h : SameGrants address T w w')
    (hr : r.call.triple ∈ T) :
    (accountAct address w' r a).2 = (grantAct w r a).2 ∧ (grantAct w r a).2.call.triple ∈ T ∧
      SameGrants address T (grantAct w r a).1 (accountAct address w' r a).1 := by
  refine and_left_comm.mp ⟨(call_grantAct w r a).symm ▸ hr, ?_⟩
  by_cases ha : a = .execute
  · subst ha
    rw [accountAct, grantAct]
    split_ifs
    · exact sameGrants_executeAt hinj h hr
    · exact ⟨rfl, h⟩
  · obtain ⟨hrequest, htables, hexists⟩ :=
      grantAct_of_tables w (w'.flags address) h.1 r ha
    have hact : accountAct address w' r a = ({ w' with tables := (grantAct (w'.flags address) r
        a).1.tables }, (grantAct (w'.flags address) r a).2) := by
      cases a with
      | execute => exact absurd rfl ha
      | _ => rfl
    rw [hact]
    exact ⟨hrequest, htables, fun t ht => (h.2 t ht).trans (congrFun hexists t).symm⟩

/-- Every interleaving over accounts is one over flags. -/
theorem accounts_simulate (hinj : Set.InjOn address T) {is : List (Input GrantCall GrantAction)}
    (his : ∀ call, .spawn call ∈ is → call.triple ∈ T) :
    let s := Runs.exec (step grantProgram) grantsInit is
    let s' := Runs.exec (step (accountProgram address)) accountsInit is
    s'.threads = s.threads ∧ SameGrants address T s.shared s'.shared := by
  refine simulates (p := grantProgram) (q := accountProgram address) (C := fun c => c.triple ∈ T)
    (T := fun r => r.call.triple ∈ T) (fun call hcall => ⟨rfl, hcall⟩)
    (sameGrants_accountAct hinj) ⟨rfl, fun _ _ => rfl⟩ rfl (fun r hr => ?_) his
  exact absurd hr List.not_mem_nil

end Simulation

/-! ## Grants of the pools that were created -/

section Created

variable (c : Crates) (sha256 : Bytes → List.Vector UInt8 32) (pools : Table Str PoolRights)

/-- `compute_commitment`. -/
def computeCommitment (analystId : Str) (poolUuid rightId : UuidBytes) : List.Vector UInt8 32 :=
  sha256 (commitmentInput analystId poolUuid rightId)

/-- The address of a grant of a known pool and right. -/
def grantAddress (t : GrantTriple) : Pubkey :=
  (deriveGrantPda c (sha256 ((grantInput pools t).getD []))).1

/-- No two of the grants have an address in common because of the hash or of the derivation. -/
def CollisionFree (T : Set GrantTriple) : Prop :=
  ∀ t ∈ T, ∀ t' ∈ T, grantAddress c sha256 pools t = grantAddress c sha256 pools t' →
    grantInput pools t = grantInput pools t'

variable {c sha256}

theorem injOn_grantAddress {as : List Creation} (hnodup : (as.flatMap Creation.drawn).Nodup)
    {T : Set GrantTriple}
    (hknown : ∀ t ∈ T, (grantInput (Runs.exec (recordPool c) .empty as) t).isSome = true)
    (hcollision : CollisionFree c sha256 (Runs.exec (recordPool c) .empty as) T) :
    Set.InjOn (grantAddress c sha256 (Runs.exec (recordPool c) .empty as)) T := by
  intro t ht t' ht' heq
  obtain ⟨b, hb⟩ := Option.isSome_iff_exists.mp (hknown t ht)
  exact eq_of_grantInput_eq hnodup hb ((hcollision t ht t' ht' heq).symm.trans hb)

end Created

/-- For any pools that were created and every interleaving of requests about their rights, the
accounts of the grants and the flags say the same. -/
theorem grantAccounts_simulate {c : Crates} {sha256 : Bytes → List.Vector UInt8 32}
    {as : List Creation} (hnodup : (as.flatMap Creation.drawn).Nodup) {T : Set GrantTriple}
    (hknown : ∀ t ∈ T, (grantInput (Runs.exec (recordPool c) .empty as) t).isSome = true)
    (hcollision : CollisionFree c sha256 (Runs.exec (recordPool c) .empty as) T)
    {is : List (Input GrantCall GrantAction)}
    (his : ∀ call, .spawn call ∈ is → call.triple ∈ T) :
    let address := grantAddress c sha256 (Runs.exec (recordPool c) .empty as)
    let s := Runs.exec (step grantProgram) grantsInit is
    let s' := Runs.exec (step (accountProgram address)) accountsInit is
    s'.threads = s.threads ∧ s'.shared.tables = s.shared.tables ∧
      ∀ t ∈ T, s'.shared.existing (address t) = s.shared.pdaExists t :=
  accounts_simulate (injOn_grantAddress hnodup hknown hcollision) his

/-- Crates that derive the address of the pool from every pool identifier, and an address of its own
from all other seeds. -/
def onePoolCrates : Crates where
  findProgramAddress seeds programId :=
    if seeds.head? = some (asBytes "pool".toList) then (constKey sampleTriple.poolPda, 255)
    else derivingCrates.findProgramAddress seeds programId
  tooLong := derivingCrates.tooLong

/-- A pool with two rights. -/
def sampleCreation : Creation :=
  ⟨.malta, sampleIds, .replicate 32 7, sampleDrts sampleScriptUrl, .ok [], true⟩

/-- The grant of the other right. -/
def appendTriple : GrantTriple :=
  { sampleTriple with drtName := appendDrtName, valid_drt := by decide }

theorem grantAccounts_simulate_sample :
    let sha256 : Bytes → List.Vector UInt8 32 := fun b => .replicate 32 (b.getLastD 0)
    let address := grantAddress onePoolCrates sha256
      (Runs.exec (recordPool onePoolCrates) .empty [sampleCreation])
    let s := Runs.exec (step grantProgram) grantsInit timelyRevocation
    let s' := Runs.exec (step (accountProgram address)) accountsInit timelyRevocation
    s'.threads = s.threads ∧ s'.shared.tables = s.shared.tables ∧
      ∀ t ∈ ({sampleTriple, appendTriple} : Set GrantTriple),
        s'.shared.existing (address t) = s.shared.pdaExists t := by
  intro sha256
  refine grantAccounts_simulate (by decide +kernel) ?_ ?_ ?_
  · rintro t (rfl | rfl) <;> decide +kernel
  · rintro t (rfl | rfl) t' (rfl | rfl) heq
    · rfl
    · exact absurd heq (by decide +kernel)
    · exact absurd heq (by decide +kernel)
    · rfl
  · intro call hcall
    simp [timelyRevocation] at hcall
    rcases hcall with rfl | rfl <;> exact Or.inl rfl

end RelationalSdk
