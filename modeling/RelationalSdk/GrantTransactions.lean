import RelationalSdk.ProgramInterface
import RelationalSdk.Signing

/-!
# Granting and revoking on the chain

`grant_right` and `revoke_grant` check a request, read the identifiers of the pool and of the right
from the metadata, load the key of the wallet, compare the wallet with the owner of the pool on the
chain, and send one transaction. `get_grant_status` asks the chain about the same account.

`grants_accepted` : for the pools that the enclave has created, a handler never faults and always
ends. It refuses a request with nothing handed over, or it hands over one transaction, signed by the
wallet of the caller, whose only instruction is the one of the IDL with the commitment of the
request. For a revocation the grant has to be on the chain. The account is the same in all three.
-/

namespace RelationalSdk

open Text IndexLoops HexText KeyedTable Fallible

/-! ## The requests -/

/-- The body of a request, of either kind. -/
structure GrantBody where
  walletId : Str
  drtName : Str
  analystId : Str

/-- What the handlers read. -/
structure GrantEnv where
  poolMeta : Str → Option PoolRights
  isGrantActive : Str → Str → Str → Except String Bool
  fetchAndVerify : Str → Str → Except ApiError Unit
  wallet : Str → Except ApiError WalletMetadata
  readKeypair : Str → Except ApiError Bytes
  tryFrom : Bytes → Except String Keypair
  accounts : AccountReader
  rpc : SendRpc .finalized
  sha256 : Bytes → List.Vector UInt8 32
  client : SolanaClient

/-- What a handler has found out before it sends. -/
structure GrantPlan where
  wallet : WalletMetadata
  keypair : Keypair
  ix : Instruction
  commitment : List.Vector UInt8 32

structure GrantResponse where
  signature : Str
  explorerUrl : Str
  commitmentHex : Str
  grantPda : Str

structure GrantStatusResponse where
  poolPda : Str
  drtName : Str
  commitmentHex : Str
  grantPda : Str
  granted : Bool
  grantedAt : Option Int64

/-! ## The handlers -/

/-- A step of a handler : a value, an error or a fault. -/
abbrev Handler (α : Type) := ExceptT ApiError Exec α

section Handlers

variable (c : Crates) (env : GrantEnv)

/-- `load_wallet_keypair`. -/
def loadWalletKeypair (walletId callerSub : Str) : Except ApiError (WalletMetadata × Keypair) := do
  let wallet ← env.wallet walletId
  checkOwnerActive walletId wallet callerSub
  let keypairBytes ← env.readKeypair walletId
  let keypair ← keypairFromBytesVerified ⟨env.tryFrom, fun kp => pubkeyToString kp.pubkey⟩
    keypairBytes wallet.publicAddress
  pure (wallet, keypair)

/-- `verify_pool_ownership`. -/
def verifyPoolOwnership (pool : Pool) (wallet : WalletMetadata) : Except ApiError Unit := do
  let owner ← okOr (pubkeyFromStr wallet.publicAddress)
    (.internal "invalid stored wallet address")
  require (pool.owner = owner) (.forbidden "you are not the pool owner")

/-- `load_pool_meta`. -/
def poolRightsOf (poolPdaStr : Str) : Except ApiError PoolRights :=
  let text := String.ofList poolPdaStr
  okOr (env.poolMeta poolPdaStr)
    (.notFound s!"pool metadata not found for {text} — pool may need creation")

/-- A right by its name. -/
def drtOf (m : PoolRights) (drtName : Str) : Except ApiError DrtMetadata :=
  let text := String.ofList drtName
  okOr (m.drts.get drtName) (.notFound s!"DRT '{text}' not found in pool")

/-- The caller's wallet, which has to be the owner of the pool. -/
def ownerWallet (poolPda : Pubkey) (walletId callerSub : Str) :
    Except ApiError (WalletMetadata × Keypair) := do
  let (wallet, keypair) ← loadWalletKeypair env walletId callerSub
  let pool ← fetchPool env.accounts poolPda
  verifyPoolOwnership pool wallet
  pure (wallet, keypair)

/-- `grant_right` until its transaction is sent. -/
def planGrant (callerSub poolPdaStr : Str) (req : GrantBody) : Handler GrantPlan := do
  check (require (req.drtName ≠ []) (.badRequest "drt_name cannot be empty"))
  check (require (req.analystId ≠ []) (.badRequest "analyst_id cannot be empty"))
  let poolPda ← check (okOr (pubkeyFromStr poolPdaStr) (.badRequest "invalid pool PDA address"))
  let m ← check (poolRightsOf env poolPdaStr)
  check (require (¬(m.kind = .iobErp ∧ req.drtName = appendDrtName))
    (.badRequest "IOB ERP pools have no 'append' DRT"))
  let drt ← check (drtOf m req.drtName)
  let active ← check ((env.isGrantActive req.analystId poolPdaStr req.drtName).mapError
    fun e => .internal s!"grant lookup: {e}")
  let text := String.ofList req.drtName
  check (require (active = false) (.conflict
    s!"analyst already holds an active grant for DRT '{text}' in this pool"))
  -- the receipt of uploads has no script
  check (if drt.codeRepoUrl = [] then .ok ()
    else env.fetchAndVerify drt.codeRepoUrl drt.codeHashHex)
  let (poolUuid, rightId) ← ExceptT.mk (decodeIds m drt)
  let mint ← check (okOr (pubkeyFromStr drt.mint)
    (.internal "invalid mint pubkey in pool metadata"))
  let drtConfigPda := (deriveDrtConfigPda c poolPda rightId).1
  let (wallet, keypair) ← check (ownerWallet env poolPda req.walletId callerSub)
  let commitment := computeCommitment env.sha256 req.analystId poolUuid rightId
  pure ⟨wallet, keypair, buildGrantRight c poolPda drtConfigPda mint keypair.pubkey commitment,
    commitment⟩

/-- `revoke_grant` until its transaction is sent. -/
def planRevoke (callerSub poolPdaStr : Str) (req : GrantBody) : Handler GrantPlan := do
  check (require (req.drtName ≠ []) (.badRequest "drt_name cannot be empty"))
  check (require (req.analystId ≠ []) (.badRequest "analyst_id cannot be empty"))
  let poolPda ← check (okOr (pubkeyFromStr poolPdaStr) (.badRequest "invalid pool PDA address"))
  let m ← check (poolRightsOf env poolPdaStr)
  let drt ← check (drtOf m req.drtName)
  let (poolUuid, rightId) ← ExceptT.mk (decodeIds m drt)
  let drtConfigPda := (deriveDrtConfigPda c poolPda rightId).1
  let (wallet, keypair) ← check (ownerWallet env poolPda req.walletId callerSub)
  let commitment := computeCommitment env.sha256 req.analystId poolUuid rightId
  pure ⟨wallet, keypair, buildRevokeGrant c keypair.pubkey poolPda drtConfigPda commitment,
    commitment⟩

/-- What is answered when the transaction is final. -/
def grantResponse (plan : GrantPlan) (signature : Str) : GrantResponse where
  signature := signature
  explorerUrl := env.client.explorerTxUrl signature
  commitmentHex := hexEncode plan.commitment.toList
  grantPda := pubkeyToString (deriveGrantPda c plan.commitment).1

/-- The transaction of a plan. -/
def sendPlan (plan : Handler GrantPlan) : Exec (Option (SendOutcome GrantResponse)) :=
  match plan.run with
  | .error fault => .error fault
  | .ok (.error e) => .ok (some (.refuse e))
  | .ok (.ok p) => .ok ((signAndSend env.rpc p.keypair [p.ix] "transaction send failed").map
      (·.map (grantResponse c env p)))

def grantRight (callerSub poolPdaStr : Str) (req : GrantBody) :
    Exec (Option (SendOutcome GrantResponse)) :=
  sendPlan c env (planGrant c env callerSub poolPdaStr req)

def revokeGrant (callerSub poolPdaStr : Str) (req : GrantBody) :
    Exec (Option (SendOutcome GrantResponse)) :=
  sendPlan c env (planRevoke c env callerSub poolPdaStr req)

/-- `get_grant_status`. Whatever goes wrong with the account, the answer is that there is no
grant. -/
def getGrantStatus (poolPdaStr analystId drtName : Str) : Handler GrantStatusResponse := do
  let _ ← check (okOr (pubkeyFromStr poolPdaStr) (.badRequest "invalid pool PDA address"))
  let m ← check (poolRightsOf env poolPdaStr)
  let drt ← check (drtOf m drtName)
  let (poolUuid, rightId) ← ExceptT.mk (decodeIds m drt)
  let commitment := computeCommitment env.sha256 analystId poolUuid rightId
  let grantPda := (deriveGrantPda c commitment).1
  let grantedAt := match fetchGrant env.accounts grantPda with
    | .ok g => some g.grantedAt
    | .error _ => none
  pure ⟨poolPdaStr, drtName, hexEncode commitment.toList, pubkeyToString grantPda,
    grantedAt.isSome, grantedAt⟩

end Handlers

/-! ## What a handler knows -/

/-- The accounts of a pool and of its rights are on the chain. -/
structure OnChain (c : Crates) (r : AccountReader) (a : Creation) : Prop where
  pool : PoolRecorded c r (a.pool c) (a.newUuidBytes 0) a.ownerPk
  right : ∀ {i d}, a.drts[i]? = some d →
    DrtRecorded c r (deriveDrtConfigPda c (a.pool c) (a.newUuidBytes (i + 1))).1 (a.pool c)
      (a.newUuidBytes (i + 1)) (deriveMintPda c (a.pool c) (a.newUuidBytes (i + 1))).1

/-- The enclave has created these pools, and they are on the chain. -/
structure Created (c : Crates) (env : GrantEnv) (as : List Creation) : Prop where
  poolMeta : ∀ s, env.poolMeta s = (Runs.exec (recordPool c) .empty as).get s
  chain : ∀ a ∈ as, (∃ sig, a.sent = .ok sig) → OnChain c env.accounts a

/-- A request names the `i`-th right of a pool. -/
structure NamesRight (c : Crates) (poolPdaStr drtName : Str) (a : Creation) (i : Nat) : Prop where
  pool : poolPdaStr = pubkeyToString (a.pool c)
  drt : ∃ d, a.drts[i]? = some d ∧ d.name = drtName

section Known

variable {c : Crates} {env : GrantEnv} {as : List Creation}

/-- What is found for a request is what was recorded when the pool was created. -/
theorem Created.exists_right (h : Created c env as) {poolPdaStr drtName : Str} {poolPda : Pubkey}
    {m : PoolRights} {drt : DrtMetadata} (hpda : pubkeyFromStr poolPdaStr = some poolPda)
    (hm : poolRightsOf env poolPdaStr = .ok m) (hdrt : drtOf m drtName = .ok drt) :
    ∃ a ∈ as, ∃ i, NamesRight c poolPdaStr drtName a i ∧ poolPda = a.pool c ∧
      OnChain c env.accounts a ∧
      decodeIds m drt = .ok (.ok (a.newUuidBytes 0, a.newUuidBytes (i + 1))) ∧
      drt.mint = pubkeyToString (deriveMintPda c (a.pool c) (a.newUuidBytes (i + 1))).1 := by
  have hget := okOr_eq_ok_iff.mp hm
  rw [h.poolMeta] at hget
  obtain ⟨a, ha, hsent, hpool, rfl⟩ := exists_creation_of_get as hget
  obtain ⟨i, d, hd, hname, rfl⟩ := exists_right_of_get _ _ _ (okOr_eq_ok_iff.mp hdrt)
  refine ⟨a, ha, i, ⟨hpool, d, hd, hname⟩, ?_, h.chain a ha hsent, ?_, ?_⟩
  · exact pubkeyToString_injective ((pubkeyFromStr_eq_some_iff.mp hpda).symm.trans hpool)
  · simp only [decodeIds, drtMetadata, Creation.rights, decodeRightId_hexEncode]
  · rfl

/-- The identifiers of a pool that was created are decoded. -/
theorem Created.faultless_decodeIds (h : Created c env as) {poolPdaStr drtName : Str}
    {poolPda : Pubkey} {m : PoolRights} {drt : DrtMetadata}
    (hpda : pubkeyFromStr poolPdaStr = some poolPda) (hm : poolRightsOf env poolPdaStr = .ok m)
    (hdrt : drtOf m drtName = .ok drt) :
    Faultless (ExceptT.mk (decodeIds m drt) : Handler (UuidBytes × UuidBytes)) := by
  obtain ⟨a, -, i, -, -, -, hids, -⟩ := h.exists_right hpda hm hdrt
  exact ⟨_, hids⟩

/-- The wallet is the caller's, and it owns the pool. -/
theorem ownerWallet_eq_ok {poolPda : Pubkey} {walletId callerSub : Str} {wallet : WalletMetadata}
    {keypair : Keypair} (h : ownerWallet env poolPda walletId callerSub = .ok (wallet, keypair)) :
    wallet.ownerUserId = callerSub ∧
      ∃ p, fetchPool env.accounts poolPda = .ok p ∧ p.owner = keypair.pubkey := by
  obtain ⟨⟨wallet', keypair'⟩, hload, h⟩ := bind_eq_ok_iff.mp h
  obtain ⟨p, hp, h⟩ := bind_eq_ok_iff.mp h
  obtain ⟨_, hverify, h⟩ := bind_eq_ok_iff.mp h
  obtain ⟨rfl, rfl⟩ := Prod.mk.inj (pure_eq_ok_iff.mp h)
  obtain ⟨w, -, hload⟩ := bind_eq_ok_iff.mp hload
  obtain ⟨_, hcheck, hload⟩ := bind_eq_ok_iff.mp hload
  obtain ⟨b, -, hload⟩ := bind_eq_ok_iff.mp hload
  obtain ⟨kp, hkp, hload⟩ := bind_eq_ok_iff.mp hload
  obtain ⟨rfl, rfl⟩ := Prod.mk.inj (pure_eq_ok_iff.mp hload)
  obtain ⟨owner, howner, hsame⟩ := bind_eq_ok_iff.mp hverify
  refine ⟨(checkOwnerActive_eq_ok hcheck).1, p, hp, ?_⟩
  rw [require_eq_ok_iff.mp hsame]
  refine pubkeyToString_injective ?_
  rw [← pubkeyFromStr_eq_some_iff.mp (okOr_eq_ok_iff.mp howner)]
  exact (pubkey_of_keypairFromBytesVerified _ hkp).symm

/-- The owner on the chain is the one that created the pool. -/
theorem OnChain.owner_eq {r : AccountReader} {a : Creation} (h : OnChain c r a) {k : Pubkey}
    (hk : ∃ p, fetchPool r (a.pool c) = .ok p ∧ p.owner = k) : k = a.ownerPk := by
  obtain ⟨p, hp, -, -, howner⟩ := h.pool
  obtain ⟨p', hp', rfl⟩ := hk
  rw [Except.ok.inj (hp'.symm.trans hp), howner]

/-- What a plan for the `i`-th right of a pool is to have. -/
structure PlanFor (c : Crates) (env : GrantEnv) (callerSub poolPdaStr : Str) (req : GrantBody)
    (a : Creation) (i : Nat) (plan : GrantPlan) : Prop where
  names : NamesRight c poolPdaStr req.drtName a i
  commitment : plan.commitment =
    computeCommitment env.sha256 req.analystId (a.newUuidBytes 0) (a.newUuidBytes (i + 1))
  caller : plan.wallet.ownerUserId = callerSub
  owner : plan.keypair.pubkey = a.ownerPk

variable {callerSub poolPdaStr : Str} {req : GrantBody} {plan : GrantPlan}

theorem Created.exists_planGrant (h : Created c env as)
    (hplan : (planGrant c env callerSub poolPdaStr req).run = .ok (.ok plan)) :
    ∃ a ∈ as, ∃ i, PlanFor c env callerSub poolPdaStr req a i plan ∧ OnChain c env.accounts a ∧
      plan.ix = buildGrantRight c (a.pool c)
        (deriveDrtConfigPda c (a.pool c) (a.newUuidBytes (i + 1))).1
        (deriveMintPda c (a.pool c) (a.newUuidBytes (i + 1))).1 plan.keypair.pubkey
        plan.commitment := by
  simp only [planGrant, run_bind_eq_ok_iff, run_check_eq_ok_iff, okOr_eq_ok_iff] at hplan
  obtain ⟨_, -, _, -, poolPda, hpda, m, hm, _, -, drt, hdrt, _, -, _, -, _, -, ids, hids, mint,
    hmint, ⟨wallet, keypair⟩, howner, hplan⟩ := hplan
  obtain ⟨a, ha, i, hnames, rfl, hchain, hdecoded, htext⟩ := h.exists_right hpda hm hdrt
  obtain rfl := Except.ok.inj (Except.ok.inj (hids.symm.trans hdecoded))
  rw [htext, pubkeyFromStr_eq_some_iff] at hmint
  obtain rfl := pubkeyToString_injective hmint
  obtain rfl := run_pure_eq_ok_iff.mp hplan
  obtain ⟨hcaller, hkey⟩ := ownerWallet_eq_ok howner
  exact ⟨a, ha, i, ⟨hnames, rfl, hcaller, hchain.owner_eq hkey⟩, hchain, rfl⟩

theorem Created.exists_planRevoke (h : Created c env as)
    (hplan : (planRevoke c env callerSub poolPdaStr req).run = .ok (.ok plan)) :
    ∃ a ∈ as, ∃ i, PlanFor c env callerSub poolPdaStr req a i plan ∧ OnChain c env.accounts a ∧
      plan.ix = buildRevokeGrant c plan.keypair.pubkey (a.pool c)
        (deriveDrtConfigPda c (a.pool c) (a.newUuidBytes (i + 1))).1 plan.commitment := by
  simp only [planRevoke, run_bind_eq_ok_iff, run_check_eq_ok_iff, okOr_eq_ok_iff] at hplan
  obtain ⟨_, -, _, -, poolPda, hpda, m, hm, drt, hdrt, ids, hids, ⟨wallet, keypair⟩, howner,
    hplan⟩ := hplan
  obtain ⟨a, ha, i, hnames, rfl, hchain, hdecoded, -⟩ := h.exists_right hpda hm hdrt
  obtain rfl := Except.ok.inj (Except.ok.inj (hids.symm.trans hdecoded))
  obtain rfl := run_pure_eq_ok_iff.mp hplan
  obtain ⟨hcaller, hkey⟩ := ownerWallet_eq_ok howner
  exact ⟨a, ha, i, ⟨hnames, rfl, hcaller, hchain.owner_eq hkey⟩, hchain, rfl⟩

theorem Created.faultless_planGrant (h : Created c env as) :
    Faultless (planGrant c env callerSub poolPdaStr req) := by
  refine faultless_bind (faultless_check _) fun _ _ => ?_
  refine faultless_bind (faultless_check _) fun _ _ => ?_
  refine faultless_bind (faultless_check _) fun poolPda hpda => ?_
  refine faultless_bind (faultless_check _) fun m hm => ?_
  refine faultless_bind (faultless_check _) fun _ _ => ?_
  refine faultless_bind (faultless_check _) fun drt hdrt => ?_
  refine faultless_bind (faultless_check _) fun _ _ => ?_
  refine faultless_bind (faultless_check _) fun _ _ => ?_
  refine faultless_bind (faultless_check _) fun _ _ => ?_
  refine faultless_bind (h.faultless_decodeIds
    (okOr_eq_ok_iff.mp (run_check_eq_ok_iff.mp hpda)) (run_check_eq_ok_iff.mp hm)
    (run_check_eq_ok_iff.mp hdrt)) fun _ _ => ?_
  refine faultless_bind (faultless_check _) fun _ _ => ?_
  exact faultless_bind (faultless_check _) fun _ _ => faultless_pure _

theorem Created.faultless_planRevoke (h : Created c env as) :
    Faultless (planRevoke c env callerSub poolPdaStr req) := by
  refine faultless_bind (faultless_check _) fun _ _ => ?_
  refine faultless_bind (faultless_check _) fun _ _ => ?_
  refine faultless_bind (faultless_check _) fun poolPda hpda => ?_
  refine faultless_bind (faultless_check _) fun m hm => ?_
  refine faultless_bind (faultless_check _) fun drt hdrt => ?_
  refine faultless_bind (h.faultless_decodeIds
    (okOr_eq_ok_iff.mp (run_check_eq_ok_iff.mp hpda)) (run_check_eq_ok_iff.mp hm)
    (run_check_eq_ok_iff.mp hdrt)) fun _ _ => ?_
  exact faultless_bind (faultless_check _) fun _ _ => faultless_pure _

theorem Created.faultless_getGrantStatus (h : Created c env as)
    (poolPdaStr analystId drtName : Str) :
    Faultless (getGrantStatus c env poolPdaStr analystId drtName) := by
  refine faultless_bind (faultless_check _) fun poolPda hpda => ?_
  refine faultless_bind (faultless_check _) fun m hm => ?_
  refine faultless_bind (faultless_check _) fun drt hdrt => ?_
  exact faultless_bind (h.faultless_decodeIds
    (okOr_eq_ok_iff.mp (run_check_eq_ok_iff.mp hpda)) (run_check_eq_ok_iff.mp hm)
    (run_check_eq_ok_iff.mp hdrt)) fun _ _ => faultless_pure _

/-- What the chain says about the account of a grant. -/
structure StatusOf (c : Crates) (env : GrantEnv) (commitment : List.Vector UInt8 32)
    (status : GrantStatusResponse) : Prop where
  grantPda : status.grantPda = pubkeyToString (deriveGrantPda c commitment).1
  granted : status.granted = true ↔
    ∃ g, fetchGrant env.accounts (deriveGrantPda c commitment).1 = .ok g

theorem Created.exists_statusOf (h : Created c env as) {analystId drtName : Str}
    {status : GrantStatusResponse}
    (hstatus : (getGrantStatus c env poolPdaStr analystId drtName).run = .ok (.ok status)) :
    ∃ a ∈ as, ∃ i, NamesRight c poolPdaStr drtName a i ∧ StatusOf c env
      (computeCommitment env.sha256 analystId (a.newUuidBytes 0) (a.newUuidBytes (i + 1)))
      status := by
  simp only [getGrantStatus, run_bind_eq_ok_iff, run_check_eq_ok_iff, okOr_eq_ok_iff] at hstatus
  obtain ⟨poolPda, hpda, m, hm, drt, hdrt, ids, hids, hstatus⟩ := hstatus
  obtain ⟨a, ha, i, hnames, -, -, hdecoded, -⟩ := h.exists_right hpda hm hdrt
  obtain rfl := Except.ok.inj (Except.ok.inj (hids.symm.trans hdecoded))
  obtain rfl := run_pure_eq_ok_iff.mp hstatus
  refine ⟨a, ha, i, hnames, rfl, ?_⟩
  rcases fetchGrant env.accounts _ with e | g
  · exact iff_of_false nofun nofun
  · exact iff_of_true rfl ⟨g, rfl⟩

/-! ## What is sent -/

theorem fitMessage_buildGrantRight (c : Crates) (pool config mint holder : Pubkey)
    (commitment : List.Vector UInt8 32) :
    FitMessage holder [buildGrantRight c pool config mint holder commitment] := by
  refine ⟨?_, (keyCount_le _ _).trans_lt ?_, by simp, by simp [buildGrantRight], ?_⟩
  · simp [OnlyPayerSigns, buildGrantRight, AccountMeta.new, AccountMeta.newReadonly]
  · simp [keyUses, buildGrantRight]
  · simp [buildGrantRight, discGrantRight]

theorem fitMessage_buildRevokeGrant (c : Crates) (owner pool config : Pubkey)
    (commitment : List.Vector UInt8 32) :
    FitMessage owner [buildRevokeGrant c owner pool config commitment] := by
  refine ⟨?_, (keyCount_le _ _).trans_lt ?_, by simp, by simp [buildRevokeGrant], ?_⟩
  · simp [OnlyPayerSigns, buildRevokeGrant, AccountMeta.new, AccountMeta.newReadonly]
  · simp [keyUses, buildRevokeGrant]
  · simp [buildRevokeGrant, discRevokeGrant]

/-- A plan is refused, or its transaction is sent. -/
theorem exists_sendPlan (c : Crates) (env : GrantEnv) {plan : Handler GrantPlan}
    (hplan : Faultless plan)
    (hfit : ∀ p, plan.run = .ok (.ok p) → FitMessage p.keypair.pubkey [p.ix]) :
    ∃ o, sendPlan c env plan = .ok (some o) ∧ ((∃ e, o = .refuse e) ∨
      ∃ p, plan.run = .ok (.ok p) ∧
        SendSound env.rpc p.keypair [p.ix] (grantResponse c env p) o) := by
  obtain ⟨e | p, hrun⟩ := hplan
  · exact ⟨_, by rw [sendPlan, hrun], Or.inl ⟨e, rfl⟩⟩
  · obtain ⟨o, ho, hsound⟩ := exists_signAndSend env.rpc (hfit p hrun) "transaction send failed"
    refine ⟨o.map (grantResponse c env p), ?_, Or.inr ⟨p, hrun, hsound.map _⟩⟩
    simp only [sendPlan, hrun, ho, Option.map_some]

end Known

/-- For every request about the pools that were created. A request is refused, or the transaction
that is handed over carries the instruction of the IDL; the account of the grant is the same for all
three handlers. -/
theorem grants_accepted {c : Crates} {env : GrantEnv} {as : List Creation} (h : Created c env as)
    (callerSub poolPdaStr : Str) (req : GrantBody) :
    (∃ o, grantRight c env callerSub poolPdaStr req = .ok (some o) ∧ ((∃ e, o = .refuse e) ∨
      ∃ a ∈ as, ∃ i plan, PlanFor c env callerSub poolPdaStr req a i plan ∧
        SendSound env.rpc plan.keypair [plan.ix] (grantResponse c env plan) o ∧
        drtIdl.Accepts c.findProgramAddress env.accounts grantRightSpec (plan.commitment, ())
          (raised plan.keypair.pubkey [plan.ix] plan.ix))) ∧
    (∃ o, revokeGrant c env callerSub poolPdaStr req = .ok (some o) ∧ ((∃ e, o = .refuse e) ∨
      ∃ a ∈ as, ∃ i plan, PlanFor c env callerSub poolPdaStr req a i plan ∧
        SendSound env.rpc plan.keypair [plan.ix] (grantResponse c env plan) o ∧
        (GrantRecorded env.accounts (deriveGrantPda c plan.commitment).1
            (deriveDrtConfigPda c (a.pool c) (a.newUuidBytes (i + 1))).1 →
          drtIdl.Accepts c.findProgramAddress env.accounts revokeGrantSpec (plan.commitment, ())
            (raised plan.keypair.pubkey [plan.ix] plan.ix)))) ∧
    ∃ result, (getGrantStatus c env poolPdaStr req.analystId req.drtName).run = .ok result ∧
      ∀ status, result = .ok status → ∃ a ∈ as, ∃ i, NamesRight c poolPdaStr req.drtName a i ∧
        StatusOf c env (computeCommitment env.sha256 req.analystId (a.newUuidBytes 0)
          (a.newUuidBytes (i + 1))) status := by
  refine ⟨?_, ?_, ?_⟩
  · obtain ⟨o, ho, hrefused | ⟨plan, hplan, hsound⟩⟩ := exists_sendPlan c env
      h.faultless_planGrant fun plan hplan => by
        obtain ⟨a, -, i, -, -, hix⟩ := h.exists_planGrant hplan
        exact hix ▸ fitMessage_buildGrantRight c _ _ _ plan.keypair.pubkey _
    · exact ⟨o, ho, Or.inl hrefused⟩
    · obtain ⟨a, ha, i, hfor, hchain, hix⟩ := h.exists_planGrant hplan
      obtain ⟨d, hd, -⟩ := hfor.names.drt
      refine ⟨o, ho, Or.inr ⟨a, ha, i, plan, hfor, hsound, ?_⟩⟩
      have haccepts := accepts_buildGrantRight plan.keypair.pubkey plan.commitment
        hchain.pool (hchain.right hd)
      rw [← hix] at haccepts
      exact haccepts.raised plan.keypair.pubkey List.mem_cons_self
  · obtain ⟨o, ho, hrefused | ⟨plan, hplan, hsound⟩⟩ := exists_sendPlan c env
      h.faultless_planRevoke fun plan hplan => by
        obtain ⟨a, -, i, -, -, hix⟩ := h.exists_planRevoke hplan
        exact hix ▸ fitMessage_buildRevokeGrant c plan.keypair.pubkey _ _ _
    · exact ⟨o, ho, Or.inl hrefused⟩
    · obtain ⟨a, ha, i, hfor, hchain, hix⟩ := h.exists_planRevoke hplan
      obtain ⟨d, hd, -⟩ := hfor.names.drt
      refine ⟨o, ho, Or.inr ⟨a, ha, i, plan, hfor, hsound, fun hgrant => ?_⟩⟩
      have haccepts := accepts_buildRevokeGrant plan.commitment
        (hfor.owner ▸ hchain.pool) (hchain.right hd) hgrant
      rw [← hix] at haccepts
      exact haccepts.raised plan.keypair.pubkey List.mem_cons_self
  · obtain ⟨result, hresult⟩ :=
      h.faultless_getGrantStatus poolPdaStr req.analystId req.drtName
    refine ⟨result, hresult, ?_⟩
    rintro status rfl
    exact h.exists_statusOf hresult

/-- A pool of a wallet with one right. -/
def oneRight : Creation :=
  ⟨.malta, sampleIds, sampleKeypair.pubkey, (sampleDrts sampleScriptUrl).drop 1, .ok [], true⟩

/-- The configuration of the right. -/
def oneRightConfig : DrtConfig :=
  ⟨oneRight.pool derivingCrates, sampleIds 1,
    (deriveMintPda derivingCrates (oneRight.pool derivingCrates) (sampleIds 1)).1, 3,
    .replicate 32 170, ⟨[], by decide⟩, 1771891200, 255⟩

/-- A node on which there are the pool and the configuration. -/
def oneRightReader : AccountReader where
  getAccountData k :=
    .ok (some (if k = oneRight.pool derivingCrates
      then discPoolAccount ++ poolLayout.write walletPool
      else discDrtConfigAccount ++ drtConfigLayout.write oneRightConfig))
  borshError _ _ := ""

/-- An enclave that has created the pool. -/
def oneRightEnv : GrantEnv where
  poolMeta s := (Runs.exec (recordPool derivingCrates) .empty [oneRight]).get s
  isGrantActive _ _ _ := .ok false
  fetchAndVerify _ _ := .ok ()
  wallet walletId :=
    .ok ⟨walletId, "u1".toList, pubkeyToString sampleKeypair.pubkey, sampleDate, .active, none⟩
  readKeypair _ := .ok []
  tryFrom _ := .ok sampleKeypair
  accounts := oneRightReader
  rpc := ⟨.ok (.replicate 32 9), fun _ => .ok none, fun _ => .ok (.replicate 64 0),
    fun n => ⟨n * (1000 * 10 ^ 6), none⟩, fun _ => le_rfl⟩
  sha256 b := .replicate 32 (b.getLastD 0)
  client := sampleClient

theorem created_oneRight : Created derivingCrates oneRightEnv [oneRight] := by
  refine ⟨fun _ => by simp only [oneRightEnv], fun a ha _ => ?_⟩
  obtain rfl := List.mem_singleton.mp ha
  refine ⟨⟨walletPool, fetchPool_eq_ok_iff.mpr ?_, rfl, rfl, rfl⟩, fun {i d} hd => ?_⟩
  · simp only [oneRightEnv, oneRightReader, if_true]
  · obtain rfl : i = 0 := by
      have hi := (List.getElem?_eq_some_iff.mp hd).1
      exact Nat.lt_one_iff.mp hi
    have hne : (deriveDrtConfigPda derivingCrates (oneRight.pool derivingCrates)
        (oneRight.newUuidBytes (0 + 1))).1 ≠ oneRight.pool derivingCrates := by decide +kernel
    refine ⟨oneRightConfig, fetchDrtConfig_eq_ok_iff.mpr ⟨?_, by decide⟩, rfl, rfl, rfl, rfl⟩
    simp only [oneRightEnv, oneRightReader, if_neg hne]

/-- The owner grants the right : the transaction is handed over, and it carries the instruction of
the IDL. -/
theorem grants_accepted_sample :
    let pool := pubkeyToString (oneRight.pool derivingCrates)
    let req : GrantBody := ⟨"w1".toList, "mean".toList, "a1".toList⟩
    ∃ o plan, grantRight derivingCrates oneRightEnv "u1".toList pool req = .ok (some o) ∧
      o.handed.isSome ∧ PlanFor derivingCrates oneRightEnv "u1".toList pool req oneRight 0 plan ∧
      SendSound oneRightEnv.rpc plan.keypair [plan.ix]
        (grantResponse derivingCrates oneRightEnv plan) o ∧
      drtIdl.Accepts derivingCrates.findProgramAddress oneRightReader grantRightSpec
        (plan.commitment, ()) (raised plan.keypair.pubkey [plan.ix] plan.ix) := by
  intro pool req
  have hhanded : (grantRight derivingCrates oneRightEnv "u1".toList pool req).toOption.map
      (Option.map fun o => o.handed.isSome) = some (some true) := by decide +kernel
  obtain ⟨o, ho, hcases⟩ := (grants_accepted created_oneRight "u1".toList pool req).1
  rw [ho] at hhanded
  have hhanded : o.handed.isSome = true := Option.some.inj (Option.some.inj hhanded)
  obtain ⟨e, rfl⟩ | ⟨a, ha, i, plan, hplan, hsound, haccepts⟩ := hcases
  · cases hhanded
  · obtain rfl := List.mem_singleton.mp ha
    obtain ⟨d, hd, -⟩ := hplan.names.drt
    obtain rfl : i = 0 := Nat.lt_one_iff.mp (List.getElem?_eq_some_iff.mp hd).1
    exact ⟨o, plan, ho, hhanded, hplan, hsound, haccepts⟩

end RelationalSdk
