import RelationalSdk.Threads
import RelationalSdk.Wallets

/-!
# Whose key signs

Five handlers sign a transaction for their caller. Four of them name a wallet, the fifth
finds it through the owner table, and all read the wallet, check it, read its keypair
and compare the two. The requests that create, delete, suspend and activate wallets run
at the same time, each file and table access being an action of its own.

A wallet id in a request is joined to a path, so it names whatever wallet directory the
file system resolves it to; `resolve` is that resolution. The wallet ids of the program's
own making are UUIDs, which are new whenever they are drawn.

`onlyOwnerSigns` : whichever way the requests interleave, a request that gets to signing
holds the key of a stored wallet of its caller, which it has read as active. The owner
and the address of a wallet never change, so a stale copy still tells them
(`VaultOk`), and the owner table only ever names a wallet of the owner.
`exec_vaultProgram_alone` : a request that runs on its own does what its handler in `Wallets` does.
-/

namespace RelationalSdk

open Text KeyedTable Threads

/-! ## The checks -/

/-- Verify ownership and that the wallet is neither deleted nor suspended. `id` is how the
errors call the wallet. -/
def checkOwnerActive (id : Str) (wallet : WalletMetadata) (callerSub : Str) :
    Except ApiError Unit :=
  let name := String.ofList id
  if wallet.ownerUserId ≠ callerSub then
    .error (StorageError.permissionDenied callerSub
      ("resource owned by ".toList ++ wallet.ownerUserId)).toApiError
  else
    match wallet.status with
    | .deleted => .error (.notFound s!"wallet {name} not found")
    | .suspended => .error (.forbidden s!"wallet {name} is suspended")
    | .active => .ok ()

/-- The check of `send_transaction`. -/
def enforceOwnerActive (wallet : WalletMetadata) (callerSub : Str) : Except ApiError Unit :=
  checkOwnerActive wallet.walletId wallet callerSub

theorem checkOwnerActive_eq_ok {id : Str} {wallet : WalletMetadata} {callerSub : Str}
    (h : checkOwnerActive id wallet callerSub = .ok ()) :
    wallet.ownerUserId = callerSub ∧ wallet.status = .active := by
  unfold checkOwnerActive at h
  dsimp only at h
  split_ifs at h with howner
  refine ⟨not_not.mp howner, ?_⟩
  split at h
  · cases h
  · cases h
  · assumption

/-- Keypairs as the Solana crates read them : `tryFrom` decodes the 64 stored octets, and
`pubkey` is the address in base58. -/
structure KeypairFormat (κ : Type) where
  tryFrom : Bytes → Except String κ
  pubkey : κ → Str

section Keys

variable {κ : Type} (format : KeypairFormat κ)

/-- Decode a keypair and verify that it belongs to the address. -/
def keypairFromBytesVerified (bytes : Bytes) (expectedAddress : Str) : Except ApiError κ :=
  match format.tryFrom bytes with
  | .error e => .error (.internal s!"invalid keypair data: {e}")
  | .ok kp =>
    if format.pubkey kp ≠ expectedAddress then
      .error (.internal
        "keypair integrity check failed: derived public key does not match wallet address")
    else .ok kp

theorem pubkey_of_keypairFromBytesVerified {bytes : Bytes} {expectedAddress : Str} {kp : κ}
    (h : keypairFromBytesVerified format bytes expectedAddress = .ok kp) :
    format.pubkey kp = expectedAddress := by
  unfold keypairFromBytesVerified at h
  split at h
  · cases h
  · split_ifs at h with hkey
    rw [← Except.ok.inj h]
    exact not_not.mp hkey

end Keys

/-! ## The requests -/

/-- The handlers that sign. -/
inductive SigningHandler where
  | sendTransaction
  | createPool
  | grantRight
  | revokeGrant
  | issueCredentials
  deriving DecidableEq

/-- A request. `issueCredentials` does not use the wallet id. -/
inductive VaultCall where
  | create (sub : Str) (label : Option Str)
  | delete (sub walletId : Str)
  | suspend (walletId : Str)
  | activate (walletId : Str)
  | sign (handler : SigningHandler) (sub walletId : Str)

/-- Where a request is. -/
inductive VaultPc (κ : Type) where
  | start
  /-- `create_wallet`, with what it has drawn. -/
  | drawn (m : WalletMetadata) (keypairBytes : Bytes)
  /-- `create_wallet`, having found no wallet under its id. -/
  | vacant (m : WalletMetadata) (keypairBytes : Bytes)
  /-- `create_wallet`, with `meta.tmp` written. -/
  | drafted (m : WalletMetadata) (keypairBytes : Bytes)
  /-- `create_wallet`, with `meta.json` in place. -/
  | described (m : WalletMetadata) (keypairBytes : Bytes)
  /-- `create_wallet`, with both files in place. -/
  | created (m : WalletMetadata)
  /-- `create_wallet`, past the registration of the address. -/
  | addressed (m : WalletMetadata)
  /-- `delete_wallet`, past its check of the owner. -/
  | owned
  /-- With the metadata it is about to write back. -/
  | changing (m : WalletMetadata)
  /-- With that metadata in `meta.tmp`. -/
  | staged (m : WalletMetadata)
  /-- `delete_wallet`, with `meta.json` in place. -/
  | changed
  /-- `issue_credentials`, with the wallet id of its caller. -/
  | indexed (walletId : Str)
  /-- A signing request, with the wallet as it has read it. -/
  | loaded (m : WalletMetadata)
  /-- About to sign. -/
  | signing (m : WalletMetadata) (kp : κ)
  | returned (result : Except ApiError Unit)

/-- A request being handled. -/
structure VaultThread (κ : Type) where
  call : VaultCall
  pc : VaultPc κ

/-- The stores with the temporary files beside `meta.json`, and for each wallet id drawn so
far the owner and the address it was drawn for. -/
structure Vault where
  store : WalletStore
  temps : Table Str WalletMetadata
  drawn : Table Str (Str × Str)

/-- No wallets, and no id drawn. -/
def Vault.empty : Vault :=
  ⟨WalletStore.empty, Table.empty, Table.empty⟩

/-- `fs::write` of `meta.tmp`, which the writers of one wallet share. -/
def Vault.writeTemp (v : Vault) (m : WalletMetadata) : Vault :=
  { v with temps := v.temps.insert m.walletId m }

/-- `fs::rename` of `meta.tmp` to `meta.json`, unless another writer has renamed it away. -/
def Vault.renameTemp (v : Vault) (walletId : Str) : Option Vault :=
  (v.temps.get walletId).map fun m =>
    { v with
      store := { v.store with metas := v.store.metas.insert walletId m }
      temps := v.temps.remove walletId }

/-- What a request does next. Reading a file that is being written can fail like any other
read, so `fail` covers it. -/
inductive VaultAction where
  /-- Draw an id and a keypair. -/
  | draw (new : NewWallet)
  /-- The next read, check or write succeeds. -/
  | next
  /-- A table write fails, which is logged and passed over. -/
  | skip
  /-- Any other error before the request is done. -/
  | fail (e : ApiError)

section Handlers

variable {κ : Type} (format : KeypairFormat κ) (resolve : Str → Str)

/-- `WalletRepository::get` with an id from a request. -/
def loadWallet (s : WalletStore) (walletId : Str) : Except ApiError WalletMetadata :=
  (s.get resolve walletId).mapError StorageError.toApiError

/-- Return with an error, or go on with what was computed. -/
def VaultPc.andThen {α : Type} (result : Except ApiError α) (go : α → VaultPc κ) : VaultPc κ :=
  match result with
  | .error e => .returned (.error e)
  | .ok a => go a

/-- The next step of `create_wallet`. -/
def createNext (v : Vault) (sub : Str) : VaultPc κ → Vault × VaultPc κ
  | .drawn m kb =>
    if (v.store.metas.get m.walletId).isSome then
      let id := String.ofList m.walletId
      (v, .returned (.error (StorageError.alreadyExists s!"wallet {id} already exists").toApiError))
    else (v, .vacant m kb)
  | .vacant m kb => (v.writeTemp m, .drafted m kb)
  | .drafted m kb =>
    match v.renameTemp m.walletId with
    | none => (v, .drafted m kb)
    | some v' => (v', .described m kb)
  | .described m kb =>
    ({ v with store := { v.store with keypairs := v.store.keypairs.insert m.walletId kb } },
      .created m)
  | .created m =>
    ({ v with store := v.store.registerAddress m.publicAddress m.walletId }, .addressed m)
  | .addressed m =>
    match v.store.registerWalletOwner sub m.walletId with
    | .ok store => ({ v with store := store }, .returned (.ok ()))
    | .error (.duplicateWallet existing) =>
      let id := String.ofList existing
      (v, .returned (.error (.badRequest s!"user already has a wallet: {id}")))
    | .error .invalidCursor => (v, .returned (.ok ()))
  | pc => (v, pc)

/-- Write the metadata of an existing wallet back, in two steps. -/
def updateNext (v : Vault) (done : VaultPc κ) : VaultPc κ → Vault × VaultPc κ
  | .changing m =>
    if (v.store.metas.get m.walletId).isSome then (v.writeTemp m, .staged m)
    else (v, .returned (.error (WalletStore.missing m.walletId).toApiError))
  | .staged m =>
    match v.renameTemp m.walletId with
    | none => (v, .staged m)
    | some v' => (v', done)
  | pc => (v, pc)

/-- The next step of `delete_wallet`. -/
def deleteNext (v : Vault) (sub walletId : Str) : VaultPc κ → Vault × VaultPc κ
  | .start =>
    (v, .andThen (loadWallet resolve v.store walletId) fun m =>
      if m.ownerUserId = sub then .owned
      else .returned (.error (StorageError.permissionDenied sub
        ("resource owned by ".toList ++ m.ownerUserId)).toApiError))
  | .owned =>
    (v, .andThen (loadWallet resolve v.store walletId) fun m =>
      .changing { m with status := .deleted })
  | .changed => ({ v with store := v.store.removeWalletOwner sub }, .returned (.ok ()))
  | pc => updateNext v .changed pc

/-- The next step of the two admin handlers. -/
def statusNext (v : Vault) (walletId : Str) (status : WalletStatus) (refusal : String) :
    VaultPc κ → Vault × VaultPc κ
  | .start =>
    (v, .andThen (loadWallet resolve v.store walletId) fun m =>
      if m.status = .deleted then .returned (.error (.badRequest refusal))
      else .changing { m with status := status })
  | pc => updateNext v (.returned (.ok ())) pc

/-- Find the wallet that signs : by its id, or for `issue_credentials` the active wallet of
the user in the owner table. -/
def findNext (v : Vault) (sub walletId : Str) : SigningHandler → VaultPc κ
  | .sendTransaction =>
    .andThen (loadWallet resolve v.store walletId) fun m =>
      .andThen (enforceOwnerActive m sub) fun _ => .loaded m
  | .createPool | .grantRight | .revokeGrant =>
    .andThen (loadWallet resolve v.store walletId) fun m =>
      .andThen (checkOwnerActive walletId m sub) fun _ => .loaded m
  | .issueCredentials =>
    match v.store.getWalletIdByOwner sub with
    | none => .returned (.error (.badRequest "no wallet found for user"))
    | some id => .indexed id

/-- The directory whose keypair the handler reads. -/
def SigningHandler.keyDir (walletId : Str) (m : WalletMetadata) : SigningHandler → Str
  | .issueCredentials => m.walletId
  | _ => resolve walletId

/-- The id by which the handler calls the wallet. -/
def SigningHandler.keyName (walletId : Str) (m : WalletMetadata) : SigningHandler → Str
  | .issueCredentials => m.walletId
  | _ => walletId

/-- The next step of a signing request, up to the signing. -/
def signNext (v : Vault) (handler : SigningHandler) (sub walletId : Str) :
    VaultPc κ → VaultPc κ
  | .start => findNext resolve v sub walletId handler
  | .indexed id =>
    match v.store.getAt id id with
    | .error e => .returned (.error e.toApiError)
    | .ok m =>
      if m.status ≠ .active then .returned (.error (.badRequest "wallet is not active"))
      else .loaded m
  | .loaded m =>
    match v.store.keypairs.get (handler.keyDir resolve walletId m) with
    | none =>
      let id := String.ofList (handler.keyName walletId m)
      .returned (.error (.notFound s!"keypair for wallet {id} not found"))
    | some bytes =>
      .andThen (keypairFromBytesVerified format bytes m.publicAddress) (.signing m)
  | pc => pc

/-- The next step of a request. -/
def vaultNext (v : Vault) (t : VaultThread κ) : Vault × VaultPc κ :=
  match t.call with
  | .create sub _ => createNext v sub t.pc
  | .delete sub walletId => deleteNext resolve v sub walletId t.pc
  | .suspend walletId =>
    statusNext resolve v walletId .suspended "cannot suspend a deleted wallet" t.pc
  | .activate walletId =>
    statusNext resolve v walletId .active "cannot activate a deleted wallet" t.pc
  | .sign handler sub walletId => (v, signNext format resolve v handler sub walletId t.pc)

end Handlers

/-- `create_wallet` checks the label and draws an id and a keypair. An id that was drawn
before is not drawn again. -/
def drawNext {κ : Type} (v : Vault) (new : NewWallet) : VaultCall → VaultPc κ → Vault × VaultPc κ
  | .create sub label, .start =>
    if ∃ l ∈ label, maxLabelLen < len l then
      (v, .returned (.error (.badRequest "label must be at most 64 characters")))
    else if (v.drawn.get new.walletId).isSome then (v, .start)
    else
      let metadata : WalletMetadata :=
        ⟨new.walletId, sub, new.publicAddress, new.now, .active, label⟩
      ({ v with drawn := v.drawn.insert new.walletId (sub, new.publicAddress) },
        .drawn metadata new.keypairBytes)
  | _, pc => (v, pc)

/-- The registrations that only warn when they fail. -/
def skipNext {κ : Type} : VaultPc κ → VaultPc κ
  | .created m => .addressed m
  | .addressed _ | .changed => .returned (.ok ())
  | pc => pc

/-- Return with an error, once. -/
def failNext {κ : Type} (e : ApiError) : VaultPc κ → VaultPc κ
  | .returned result => .returned result
  | _ => .returned (.error e)

/-- The stores and the request after an action. -/
def vaultMove {κ : Type} (format : KeypairFormat κ) (resolve : Str → Str) (v : Vault)
    (t : VaultThread κ) : VaultAction → Vault × VaultPc κ
  | .draw new => drawNext v new t.call t.pc
  | .next => vaultNext format resolve v t
  | .skip => (v, skipNext t.pc)
  | .fail e => (v, failNext e t.pc)

/-- A step of a request. -/
def vaultAct {κ : Type} (format : KeypairFormat κ) (resolve : Str → Str) (v : Vault)
    (t : VaultThread κ) (a : VaultAction) : Vault × VaultThread κ :=
  ((vaultMove format resolve v t a).1, { t with pc := (vaultMove format resolve v t a).2 })

/-- The requests as threads. -/
def vaultProgram {κ : Type} (format : KeypairFormat κ) (resolve : Str → Str) :
    Program Vault VaultCall (VaultThread κ) VaultAction :=
  ⟨fun call => ⟨call, .start⟩, vaultAct format resolve⟩

/-- A request that is about to sign holds the key of a stored wallet that its caller owns,
and it has read that wallet as active. -/
def OnlyOwnerSigns {κ : Type} (format : KeypairFormat κ) (s : System Vault (VaultThread κ)) :
    Prop :=
  ∀ t ∈ s.threads, ∀ handler sub walletId m kp,
    t.call = .sign handler sub walletId → t.pc = .signing m kp →
    m.status = .active ∧ ∃ stored, s.shared.store.metas.get m.walletId = some stored ∧
      stored.ownerUserId = sub ∧ format.pubkey kp = stored.publicAddress

/-! ## What never changes -/

/-- The wallet has the owner and the address its id was drawn for. -/
def Registered (v : Vault) (m : WalletMetadata) : Prop :=
  v.drawn.get m.walletId = some (m.ownerUserId, m.publicAddress)

/-- The wallet is on disk. -/
def Stored (v : Vault) (walletId : Str) : Prop :=
  (v.store.metas.get walletId).isSome

/-- The wallet is on disk, and its id was drawn for the user. -/
def OwnedWallet (v : Vault) (u walletId : Str) : Prop :=
  Stored v walletId ∧ ∃ address, v.drawn.get walletId = some (u, address)

/-- Every copy of a wallet in a file tells its owner and address, and the owner table names
a wallet of the owner. -/
structure VaultOk (v : Vault) : Prop where
  metas : ∀ w m, v.store.metas.get w = some m → m.walletId = w ∧ Registered v m
  temps : ∀ w m, v.temps.get w = some m → m.walletId = w ∧ Registered v m
  byOwner : ∀ u w, v.store.byOwner.get u = some w → OwnedWallet v u w

/-- Drawn ids stay drawn for the same owner and address, and wallets stay on disk. -/
structure Grows (v v' : Vault) : Prop where
  drawn : ∀ w x, v.drawn.get w = some x → v'.drawn.get w = some x
  stored : ∀ w, Stored v w → Stored v' w

/-- Who makes a request. The admin handlers do not ask. -/
def VaultCall.caller : VaultCall → Option Str
  | .create sub _ | .delete sub _ | .sign _ sub _ => some sub
  | .suspend _ | .activate _ => none

/-- What a request knows of the wallet it holds. -/
def PcOk {κ : Type} (format : KeypairFormat κ) (v : Vault) (caller : Option Str) :
    VaultPc κ → Prop
  | .drawn m _ | .vacant m _ | .drafted m _ => Registered v m ∧ caller = some m.ownerUserId
  | .described m _ | .created m | .addressed m =>
    Registered v m ∧ caller = some m.ownerUserId ∧ Stored v m.walletId
  | .changing m | .staged m => Registered v m
  | .indexed id => ∀ u ∈ caller, OwnedWallet v u id
  | .loaded m =>
    Registered v m ∧ (∀ u ∈ caller, m.ownerUserId = u) ∧ Stored v m.walletId ∧ m.status = .active
  | .signing m kp =>
    Registered v m ∧ (∀ u ∈ caller, m.ownerUserId = u) ∧ Stored v m.walletId ∧
      m.status = .active ∧ format.pubkey kp = m.publicAddress
  | .start | .owned | .changed | .returned _ => True

section Invariant

variable {κ : Type} {format : KeypairFormat κ} {resolve : Str → Str} {v v' : Vault}
  {caller : Option Str}

theorem Grows.refl (v : Vault) : Grows v v :=
  ⟨fun _ _ h => h, fun _ h => h⟩

theorem Grows.ownedWallet (h : Grows v v') {u w : Str} (hw : OwnedWallet v u w) :
    OwnedWallet v' u w := by
  obtain ⟨hstored, address, hdrawn⟩ := hw
  exact ⟨h.stored w hstored, address, h.drawn _ _ hdrawn⟩

theorem Grows.registered (h : Grows v v') {m : WalletMetadata} (hm : Registered v m) :
    Registered v' m :=
  h.drawn _ _ hm

/-- What a request knows stays true whatever the others do. -/
theorem Grows.pcOk (h : Grows v v') {pc : VaultPc κ} (hpc : PcOk format v caller pc) :
    PcOk format v' caller pc := by
  cases pc with
  | start | owned | changed | returned => trivial
  | drawn m | vacant m | drafted m => exact ⟨h.registered hpc.1, hpc.2⟩
  | described m | created m | addressed m =>
    exact ⟨h.registered hpc.1, hpc.2.1, h.stored _ hpc.2.2⟩
  | changing m | staged m => exact h.registered hpc
  | indexed id => exact fun u hu => h.ownedWallet (hpc u hu)
  | loaded m => exact ⟨h.registered hpc.1, hpc.2.1, h.stored _ hpc.2.2.1, hpc.2.2.2⟩
  | signing m kp => exact ⟨h.registered hpc.1, hpc.2.1, h.stored _ hpc.2.2.1, hpc.2.2.2⟩

/-- Two copies of one wallet agree on its owner and its address. -/
theorem Registered.agree {m m' : WalletMetadata} (hm : Registered v m) (hm' : Registered v m')
    (hid : m.walletId = m'.walletId) :
    m.ownerUserId = m'.ownerUserId ∧ m.publicAddress = m'.publicAddress := by
  unfold Registered at hm hm'
  rw [hid, hm'] at hm
  have := Option.some.inj hm
  exact ⟨(Prod.mk.inj this).1.symm, (Prod.mk.inj this).2.symm⟩

/-- What a step must establish : the files stay in order, and what the request then knows
is true. -/
structure StepOk (format : KeypairFormat κ) (caller : Option Str) (v : Vault)
    (r : Vault × VaultPc κ) : Prop where
  ok : VaultOk r.1
  grows : Grows v r.1
  pc : PcOk format r.1 caller r.2

/-- A step that writes nothing. -/
theorem VaultOk.stay (h : VaultOk v) {pc : VaultPc κ} (hpc : PcOk format v caller pc) :
    StepOk format caller v (v, pc) :=
  ⟨h, Grows.refl v, hpc⟩

/-- A step that may return with an error. -/
theorem pcOk_andThen {α : Type} {result : Except ApiError α} {go : α → VaultPc κ}
    (h : ∀ a, result = .ok a → PcOk format v caller (go a)) :
    PcOk format v caller (VaultPc.andThen result go) := by
  cases result with
  | error e => trivial
  | ok a => exact h a rfl

/-! ## One step -/

theorem loadWallet_eq_ok {s : WalletStore} {walletId : Str} {m : WalletMetadata}
    (h : loadWallet resolve s walletId = .ok m) : s.metas.get (resolve walletId) = some m := by
  unfold loadWallet WalletStore.get WalletStore.getAt at h
  cases hm : s.metas.get (resolve walletId) with
  | none =>
    rw [hm] at h
    cases h
  | some m' =>
    rw [hm] at h
    exact congrArg some (Except.ok.inj h)

/-- A wallet that was read is one that is stored under its id. -/
theorem VaultOk.of_get (h : VaultOk v) {w : Str} {m : WalletMetadata}
    (hm : v.store.metas.get w = some m) : Registered v m ∧ Stored v m.walletId := by
  obtain ⟨rfl, hreg⟩ := h.metas w m hm
  exact ⟨hreg, by rw [Stored, hm]; rfl⟩

theorem VaultOk.writeTemp (h : VaultOk v) {m : WalletMetadata} (hm : Registered v m)
    {pc : VaultPc κ} (hpc : PcOk format v caller pc) :
    StepOk format caller v (v.writeTemp m, pc) := by
  have hgrows : Grows v (v.writeTemp m) := ⟨fun _ _ hw => hw, fun _ hw => hw⟩
  refine ⟨⟨h.metas, fun w m' hm' => ?_, h.byOwner⟩, hgrows, hgrows.pcOk hpc⟩
  rw [Vault.writeTemp, Table.get_insert] at hm'
  split_ifs at hm' with hw
  · rw [hw, ← Option.some.inj hm']
    exact ⟨rfl, hm⟩
  · exact h.temps w m' hm'

/-- A rename puts some copy of the wallet in place, not always the one just written. -/
theorem VaultOk.renameTemp (h : VaultOk v) {w : Str} (hv' : v.renameTemp w = some v') :
    VaultOk v' ∧ Grows v v' ∧ Stored v' w := by
  obtain ⟨m, hm, rfl⟩ := Option.map_eq_some_iff.mp hv'
  have hstored : ∀ w', (v.store.metas.get w').isSome ∨ w' = w →
      ((v.store.metas.insert w m).get w').isSome :=
    fun w' hw' => (Table.isSome_get_insert_iff ..).mpr hw'.symm
  have hgrows : ∀ store : WalletStore, store.metas = v.store.metas.insert w m → ∀ temps,
      Grows v ⟨store, temps, v.drawn⟩ := by
    intro store hstore temps
    refine ⟨fun _ _ hw => hw, fun w' hw' => ?_⟩
    rw [Stored, hstore]
    exact hstored w' (Or.inl hw')
  refine ⟨⟨fun w' m' hm' => ?_, fun w' m' hm' => ?_, fun u w' hw' => ?_⟩, hgrows _ rfl _,
    hstored w (Or.inr rfl)⟩
  · rw [Table.get_insert] at hm'
    split_ifs at hm' with hw
    · rw [hw, ← Option.some.inj hm']
      exact h.temps w m hm
    · exact h.metas w' m' hm'
  · rw [Table.get_remove] at hm'
    split_ifs at hm' with hw
    exact h.temps w' m' hm'
  · exact (hgrows _ rfl _).ownedWallet (h.byOwner u w' hw')

/-- A step that changes neither the wallets nor what is drawn, and keeps the owner table
in order. -/
theorem VaultOk.setStore (h : VaultOk v) {store : WalletStore}
    (hmetas : store.metas = v.store.metas)
    (hindex : ∀ u w, store.byOwner.get u = some w → OwnedWallet v u w)
    {pc : VaultPc κ} (hpc : PcOk format v caller pc) :
    StepOk format caller v ({ v with store := store }, pc) := by
  have hgrows : Grows v { v with store := store } :=
    ⟨fun _ _ hw => hw, fun w hw => by rwa [Stored, hmetas]⟩
  refine ⟨⟨fun w m hm => ?_, h.temps, fun u w hw => ?_⟩, hgrows, hgrows.pcOk hpc⟩
  · exact h.metas w m (by rw [← hmetas]; exact hm)
  · exact hgrows.ownedWallet (hindex u w hw)

/-- The owner registers a wallet of their own. -/
theorem VaultOk.registerWalletOwner (h : VaultOk v) {m : WalletMetadata}
    (hm : Registered v m) (hstored : Stored v m.walletId) {store : WalletStore}
    (hstore : v.store.registerWalletOwner m.ownerUserId m.walletId = .ok store) :
    StepOk format caller v ({ v with store := store }, .returned (.ok ())) := by
  unfold WalletStore.registerWalletOwner at hstore
  split at hstore
  · cases hstore
  · cases hstore
    apply h.setStore
    · rfl
    · intro u w hw
      rw [Table.get_insert] at hw
      split_ifs at hw with hu
      · rw [hu, ← Option.some.inj hw]
        exact ⟨hstored, _, hm⟩
      · exact h.byOwner u w hw
    · trivial

/-- A drawn id is drawn for the caller. -/
theorem VaultOk.draw (h : VaultOk v) (m : WalletMetadata) {kb : Bytes}
    (hfresh : v.drawn.get m.walletId = none) (hsub : caller = some m.ownerUserId) :
    StepOk format caller v
      ({ v with drawn := v.drawn.insert m.walletId (m.ownerUserId, m.publicAddress) },
        .drawn m kb) := by
  have hgrows : Grows v
      { v with drawn := v.drawn.insert m.walletId (m.ownerUserId, m.publicAddress) } := by
    refine ⟨fun w x hx => ?_, fun _ hw => hw⟩
    rw [Table.get_insert_of_ne]
    · exact hx
    · rintro rfl
      rw [hfresh] at hx
      cases hx
  refine ⟨⟨fun w m' hm' => ?_, fun w m' hm' => ?_, fun u w hw => ?_⟩, hgrows,
    Table.get_insert_self .., hsub⟩
  · exact ⟨(h.metas w m' hm').1, hgrows.registered (h.metas w m' hm').2⟩
  · exact ⟨(h.temps w m' hm').1, hgrows.registered (h.temps w m' hm').2⟩
  · exact hgrows.ownedWallet (h.byOwner u w hw)

theorem createNext_ok (h : VaultOk v) {sub : Str} {pc : VaultPc κ}
    (hpc : PcOk format v (some sub) pc) : StepOk format (some sub) v (createNext v sub pc) := by
  unfold createNext
  split
  case h_1 m kb =>
    split_ifs
    · exact h.stay trivial
    · exact h.stay hpc
  case h_2 m kb => exact h.writeTemp hpc.1 hpc
  case h_3 m kb =>
    split
    case h_1 => exact h.stay hpc
    case h_2 v' hv' =>
      obtain ⟨hok, hgrows, hstored⟩ := h.renameTemp hv'
      exact ⟨hok, hgrows, hgrows.registered hpc.1, hpc.2, hstored⟩
  case h_4 m kb =>
    apply h.setStore
    · rfl
    · exact h.byOwner
    · exact hpc
  case h_5 m =>
    apply h.setStore
    · rfl
    · exact h.byOwner
    · exact hpc
  case h_6 m =>
    obtain ⟨hreg, hsub, hstored⟩ := hpc
    obtain rfl := Option.some.inj hsub
    split
    case h_1 store hstore => exact h.registerWalletOwner hreg hstored hstore
    case h_2 => exact h.stay trivial
    case h_3 => exact h.stay trivial
  case h_7 => exact h.stay hpc

theorem updateNext_ok (h : VaultOk v) {pc done : VaultPc κ} (hpc : PcOk format v caller pc)
    (hdone : ∀ v', PcOk format v' caller done) :
    StepOk format caller v (updateNext v done pc) := by
  unfold updateNext
  split
  case h_1 m =>
    split_ifs
    · exact h.writeTemp hpc hpc
    · exact h.stay trivial
  case h_2 m =>
    split
    case h_1 => exact h.stay hpc
    case h_2 v' hv' =>
      obtain ⟨hok, hgrows, -⟩ := h.renameTemp hv'
      exact ⟨hok, hgrows, hdone v'⟩
  case h_3 => exact h.stay hpc

theorem deleteNext_ok (h : VaultOk v) {sub walletId : Str} {pc : VaultPc κ}
    (hpc : PcOk format v caller pc) :
    StepOk format caller v (deleteNext resolve v sub walletId pc) := by
  unfold deleteNext
  split
  case h_1 =>
    refine h.stay (pcOk_andThen fun m _ => ?_)
    split_ifs <;> trivial
  case h_2 =>
    refine h.stay (pcOk_andThen fun m hm => ?_)
    exact (h.of_get (loadWallet_eq_ok hm)).1
  case h_3 =>
    apply h.setStore
    · rfl
    · intro u w hw
      rw [WalletStore.removeWalletOwner, Table.get_remove] at hw
      split_ifs at hw
      exact h.byOwner u w hw
    · trivial
  case h_4 => exact updateNext_ok h hpc fun _ => trivial

theorem statusNext_ok (h : VaultOk v) {walletId : Str} {status : WalletStatus} {refusal : String}
    {pc : VaultPc κ} (hpc : PcOk format v caller pc) :
    StepOk format caller v (statusNext resolve v walletId status refusal pc) := by
  unfold statusNext
  split
  case h_1 =>
    refine h.stay (pcOk_andThen fun m hm => ?_)
    split_ifs
    · trivial
    · exact (h.of_get (loadWallet_eq_ok hm)).1
  case h_2 => exact updateNext_ok h hpc fun _ => trivial

/-- The two ways of finding a wallet by its id check its owner and its status. -/
theorem pcOk_loaded (h : VaultOk v) {sub walletId name : Str} {m : WalletMetadata}
    (hm : loadWallet resolve v.store walletId = .ok m)
    (hcheck : checkOwnerActive name m sub = .ok ()) :
    PcOk format v (some sub) (.loaded m) := by
  obtain ⟨howner, hactive⟩ := checkOwnerActive_eq_ok hcheck
  obtain ⟨hreg, hstored⟩ := h.of_get (loadWallet_eq_ok hm)
  exact ⟨hreg, fun u hu => howner.trans (Option.some.inj hu), hstored, hactive⟩

theorem findNext_ok (h : VaultOk v) (sub walletId : Str) (handler : SigningHandler) :
    PcOk format v (some sub) (findNext resolve v sub walletId handler) := by
  cases handler with
  | sendTransaction | createPool | grantRight | revokeGrant =>
    exact pcOk_andThen fun m hm => pcOk_andThen fun _ hcheck => pcOk_loaded h hm hcheck
  | issueCredentials =>
    rw [findNext]
    cases hid : v.store.getWalletIdByOwner sub with
    | none => trivial
    | some id =>
      intro u hu
      obtain rfl := Option.some.inj hu
      exact h.byOwner sub id hid

/-- The owner table is not checked again, and need not be : the wallet it names was drawn
for the caller. -/
theorem pcOk_loaded_of_indexed (h : VaultOk v) {sub id : Str} {m : WalletMetadata}
    (hid : PcOk format v (some sub) (.indexed id)) (hm : v.store.metas.get id = some m)
    (hactive : m.status = .active) : PcOk format v (some sub) (.loaded m) := by
  obtain ⟨-, address, hdrawn⟩ := hid sub rfl
  obtain ⟨hreg, hstored⟩ := h.of_get hm
  refine ⟨hreg, fun u hu => ?_, hstored, hactive⟩
  unfold Registered at hreg
  rw [(h.metas id m hm).1, hdrawn] at hreg
  rw [← Option.some.inj hu, (Prod.mk.inj (Option.some.inj hreg)).1]

theorem signNext_ok (h : VaultOk v) {handler : SigningHandler} {sub walletId : Str}
    {pc : VaultPc κ} (hpc : PcOk format v (some sub) pc) :
    PcOk format v (some sub) (signNext format resolve v handler sub walletId pc) := by
  unfold signNext
  split
  case h_1 => exact findNext_ok h sub walletId handler
  case h_2 id =>
    unfold WalletStore.getAt
    cases hm : v.store.metas.get id with
    | none => trivial
    | some m =>
      dsimp only
      split_ifs with hactive
      · trivial
      · exact pcOk_loaded_of_indexed h hpc hm (not_not.mp hactive)
  case h_3 m =>
    split
    case h_1 => trivial
    case h_2 bytes _ =>
      refine pcOk_andThen fun kp hkp => ?_
      obtain ⟨hreg, howner, hstored, hactive⟩ := hpc
      exact ⟨hreg, howner, hstored, hactive, pubkey_of_keypairFromBytesVerified format hkp⟩
  case h_4 => exact hpc

theorem vaultNext_ok (h : VaultOk v) {t : VaultThread κ} (ht : PcOk format v t.call.caller t.pc) :
    StepOk format t.call.caller v (vaultNext format resolve v t) := by
  obtain ⟨call, pc⟩ := t
  cases call with
  | create sub label => exact createNext_ok h ht
  | delete sub walletId => exact deleteNext_ok h ht
  | suspend walletId => exact statusNext_ok h ht
  | activate walletId => exact statusNext_ok h ht
  | sign handler sub walletId => exact h.stay (signNext_ok h ht)

theorem drawNext_ok (h : VaultOk v) (new : NewWallet) {call : VaultCall} {pc : VaultPc κ}
    (hpc : PcOk format v call.caller pc) :
    StepOk format call.caller v (drawNext v new call pc) := by
  unfold drawNext
  split
  case h_1 sub label =>
    split_ifs with hlabel hdrawn
    · exact h.stay trivial
    · exact h.stay trivial
    · have hfresh : v.drawn.get new.walletId = none := by simpa using hdrawn
      exact h.draw ⟨_, sub, _, _, _, label⟩ hfresh rfl
  case h_2 => exact h.stay hpc

theorem vaultMove_ok (h : VaultOk v) {t : VaultThread κ} (ht : PcOk format v t.call.caller t.pc)
    (a : VaultAction) : StepOk format t.call.caller v (vaultMove format resolve v t a) := by
  cases a with
  | draw new => exact drawNext_ok h new ht
  | next => exact vaultNext_ok h ht
  | skip =>
    refine h.stay ?_
    unfold skipNext
    split
    case h_1 m hpc =>
      rw [hpc] at ht
      exact ht
    case h_2 => trivial
    case h_3 => trivial
    case h_4 => exact ht
  | fail e =>
    refine h.stay ?_
    unfold failNext
    split <;> trivial

end Invariant

/-! ## One request at a time

A request that runs on its own from its first action to its last one does to the stores what its
handler does in one go, and gives the same answer : the actions of `vaultProgram` are those of the
handlers of `walletStep`. -/

/-- A request as a thread. -/
def WalletRequest.call : WalletRequest → VaultCall
  | .create sub label _ => .create sub label
  | .delete sub walletId => .delete sub walletId
  | .suspend walletId => .suspend walletId
  | .activate walletId => .activate walletId

/-- The actions of a request when nothing fails. -/
def WalletRequest.actions : WalletRequest → List VaultAction
  | .create _ _ new => .draw new :: List.replicate 6 .next
  | .delete _ _ | .suspend _ | .activate _ => List.replicate 5 .next

/-- Whether the request succeeds, and its error. -/
def walletAnswer (resolve : Str → Str) (s : WalletStore) : WalletRequest → Except ApiError Unit
  | .create sub label new => (createWallet s sub label new).1.map fun _ => ()
  | .delete sub walletId => (deleteWallet resolve s sub walletId).1.map fun _ => ()
  | .suspend walletId => (suspendWallet resolve s walletId).1.map fun _ => ()
  | .activate walletId => (activateWallet resolve s walletId).1.map fun _ => ()

/-- The UUID of the request is new. -/
def WalletRequest.Fresh (v : Vault) : WalletRequest → Prop
  | .create _ _ new => v.drawn.get new.walletId = none
  | .delete _ _ | .suspend _ | .activate _ => True

section Alone

variable {κ : Type} (format : KeypairFormat κ) (resolve : Str → Str) {v : Vault}

/-- A request that runs on its own does to the stores what the handler does, and returns its
answer. -/
def DoesAs {α : Type} (call : VaultCall) (as : List VaultAction) (v : Vault)
    (handled : Except ApiError α × WalletStore) : Prop :=
  let r := alone (vaultProgram format resolve) v ⟨call, .start⟩ as
  r.1.store = handled.2 ∧ r.2 = ⟨call, .returned (handled.1.map fun _ => ())⟩

/-- The next action of a request that runs on its own. -/
theorem alone_next (v : Vault) (call : VaultCall) (pc : VaultPc κ) (n : Nat) :
    alone (vaultProgram format resolve) v ⟨call, pc⟩ (List.replicate (n + 1) .next) =
      alone (vaultProgram format resolve) (vaultNext format resolve v ⟨call, pc⟩).1
        ⟨call, (vaultNext format resolve v ⟨call, pc⟩).2⟩ (List.replicate n .next) :=
  rfl

/-- A request that has returned does nothing more. -/
theorem alone_returned (v : Vault) (call : VaultCall) (result : Except ApiError Unit) (n : Nat) :
    alone (vaultProgram format resolve) v ⟨call, .returned result⟩ (List.replicate n .next) =
      (v, ⟨call, .returned result⟩) := by
  refine alone_stay _ fun a ha => ?_
  rw [List.eq_of_mem_replicate ha]
  cases call <;> rfl

/-- The metadata of a stored wallet is written back in two actions. -/
theorem alone_update {call : VaultCall} {done : VaultPc κ} {m : WalletMetadata}
    (hnext : ∀ v, vaultNext format resolve v ⟨call, .changing m⟩ = updateNext v done (.changing m))
    (hrename : ∀ v, vaultNext format resolve v ⟨call, .staged m⟩ = updateNext v done (.staged m))
    (hm : Stored v m.walletId) (n : Nat) :
    ∃ temps, alone (vaultProgram format resolve) v ⟨call, .changing m⟩
        (List.replicate (n + 2) .next) =
      alone (vaultProgram format resolve)
        ⟨{ v.store with metas := v.store.metas.insert m.walletId m }, temps, v.drawn⟩ ⟨call, done⟩
        (List.replicate n .next) := by
  refine ⟨(v.temps.insert m.walletId m).remove m.walletId, ?_⟩
  unfold Stored at hm
  rw [alone_next, hnext, updateNext, if_pos hm, alone_next, hrename, updateNext]
  simp only [Vault.renameTemp, Vault.writeTemp, Table.get_insert_self, Option.map_some]

theorem stored_of_get (hs : Keyed v.store) {walletId : Str} {m : WalletMetadata}
    (hm : v.store.get resolve walletId = .ok m) : Stored v m.walletId := by
  have hget : v.store.metas.get (resolve walletId) = some m := by
    refine loadWallet_eq_ok ?_
    rw [loadWallet, hm]
    rfl
  rw [Stored, hs _ m hget, hget]
  rfl

theorem update_eq_ok {m : WalletMetadata} (hm : Stored v m.walletId) :
    v.store.update m = .ok { v.store with metas := v.store.metas.insert m.walletId m } :=
  if_pos hm

theorem alone_setStatus (hs : Keyed v.store) {walletId : Str} {status : WalletStatus}
    {refusal : String} {call : VaultCall}
    (hcall : ∀ (v : Vault) (pc : VaultPc κ), vaultNext format resolve v ⟨call, pc⟩ =
      statusNext resolve v walletId status refusal pc) :
    DoesAs format resolve call (List.replicate 5 .next) v
      (setWalletStatus resolve v.store walletId status refusal) := by
  rw [DoesAs, alone_next, hcall, statusNext, loadWallet, setWalletStatus]
  cases hm : v.store.get resolve walletId with
  | error e =>
    rw [Except.mapError, VaultPc.andThen, alone_returned]
    exact ⟨rfl, rfl⟩
  | ok m =>
    rw [Except.mapError, VaultPc.andThen]
    dsimp only
    split_ifs with hdeleted
    · rw [alone_returned]
      exact ⟨rfl, rfl⟩
    · have hstored : Stored v m.walletId := stored_of_get resolve hs hm
      obtain ⟨temps, halone⟩ := alone_update format resolve
        (m := { m with status := status }) (fun v => hcall v _) (fun v => hcall v _) hstored 2
      rw [halone, alone_returned, update_eq_ok (m := { m with status := status }) hstored]
      exact ⟨rfl, rfl⟩

theorem alone_delete (hs : Keyed v.store) (sub walletId : Str) :
    DoesAs format resolve (.delete sub walletId) (List.replicate 5 .next) v
      (deleteWallet resolve v.store sub walletId) := by
  rw [DoesAs, alone_next]
  simp only [vaultNext, deleteNext, loadWallet, deleteWallet, WalletStore.getOwned]
  cases hm : v.store.get resolve walletId with
  | error e =>
    rw [Except.mapError, VaultPc.andThen, alone_returned]
    exact ⟨rfl, rfl⟩
  | ok m =>
    rw [Except.mapError, VaultPc.andThen]
    dsimp only
    split_ifs with howner
    · have hstored : Stored v m.walletId := stored_of_get resolve hs hm
      obtain ⟨temps, halone⟩ := alone_update format resolve (m := { m with status := .deleted })
        (fun v => show vaultNext format resolve v ⟨.delete sub walletId, _⟩ = _ from rfl)
        (fun v => rfl) hstored 1
      rw [alone_next]
      simp only [vaultNext, deleteNext, loadWallet, WalletStore.softDelete, hm,
        Except.mapError, VaultPc.andThen]
      rw [halone, alone_next, update_eq_ok (m := { m with status := .deleted }) hstored]
      exact ⟨rfl, rfl⟩
    · rw [alone_returned]
      exact ⟨rfl, rfl⟩

/-- A new wallet is stored and its address registered in five actions. -/
theorem alone_store (sub : Str) (label : Option Str) {m : WalletMetadata} (kb : Bytes)
    (hm : ¬Stored v m.walletId) (n : Nat) :
    ∃ temps, alone (vaultProgram format resolve) v ⟨.create sub label, .drawn m kb⟩
        (List.replicate (n + 5) .next) =
      alone (vaultProgram format resolve)
        ⟨{ v.store with
            metas := v.store.metas.insert m.walletId m
            keypairs := v.store.keypairs.insert m.walletId kb
            addressWallet := v.store.addressWallet.insert m.publicAddress m.walletId },
          temps, v.drawn⟩ ⟨.create sub label, .addressed m⟩ (List.replicate n .next) := by
  refine ⟨(v.temps.insert m.walletId m).remove m.walletId, ?_⟩
  unfold Stored at hm
  rw [alone_next]
  simp only [vaultNext, createNext]
  rw [if_neg hm, alone_next, alone_next]
  simp only [vaultNext, createNext, Vault.renameTemp, Vault.writeTemp, Table.get_insert_self,
    Option.map_some]
  rfl

theorem alone_create (sub : Str) (label : Option Str) (new : NewWallet)
    (hfresh : v.drawn.get new.walletId = none) :
    DoesAs format resolve (.create sub label) (.draw new :: List.replicate 6 .next) v
      (createWallet v.store sub label new) := by
  have hdraw : (vaultProgram format resolve).act v ⟨.create sub label, .start⟩ (.draw new) =
      ((drawNext v new (.create sub label) .start).1,
        ⟨.create sub label, (drawNext v new (.create sub label) .start).2⟩) := rfl
  rw [DoesAs, alone_cons, hdraw, drawNext, createWallet, createWalletIo]
  by_cases hlabel : ∃ l ∈ label, maxLabelLen < len l
  · rw [if_pos hlabel, if_pos hlabel, alone_returned]
    exact ⟨rfl, rfl⟩
  · rw [if_neg hlabel, if_neg hlabel, hfresh, if_neg (by simp)]
    dsimp only [WalletStore.create]
    by_cases hexists : (v.store.metas.get new.walletId).isSome
    · rw [if_pos hexists, alone_next]
      simp only [vaultNext, createNext]
      rw [if_pos hexists, alone_returned]
      exact ⟨rfl, rfl⟩
    · rw [if_neg hexists]
      obtain ⟨temps, halone⟩ := alone_store format resolve sub label
        (v := { v with drawn := v.drawn.insert new.walletId (sub, new.publicAddress) })
        (m := ⟨new.walletId, sub, new.publicAddress, new.now, .active, label⟩) new.keypairBytes
        hexists 1
      rw [halone, alone_next]
      simp only [vaultNext, createNext, WalletStore.registerWalletOwner,
        WalletStore.registerAddress, Bool.false_eq_true, if_false]
      cases v.store.byOwner.get sub with
      | none => exact ⟨rfl, rfl⟩
      | some existing => exact ⟨rfl, rfl⟩

/-- A request that runs while the others wait does what its handler does. -/
theorem exec_vaultProgram_alone (hs : Keyed v.store) (ts : List (VaultThread κ)) (r : WalletRequest)
    (hfresh : r.Fresh v) :
    let s := Runs.exec (Threads.step (vaultProgram format resolve)) ⟨v, ts⟩
      (.spawn r.call :: r.actions.map (.run ts.length))
    s.shared.store = walletStep (fun _ => resolve) v.store r ∧
      s.threads = ts ++ [⟨r.call, .returned (walletAnswer resolve v.store r)⟩] := by
  let p := vaultProgram format resolve
  have halone : (alone p v (p.start r.call) r.actions).1.store =
        walletStep (fun _ => resolve) v.store r ∧
      (alone p v (p.start r.call) r.actions).2 =
        ⟨r.call, .returned (walletAnswer resolve v.store r)⟩ := by
    cases r with
    | create sub label new => exact alone_create format resolve sub label new hfresh
    | delete sub walletId => exact alone_delete format resolve hs sub walletId
    | suspend walletId | activate walletId =>
      exact alone_setStatus format resolve hs fun _ _ => rfl
  rw [exec_spawn_alone, halone.2]
  exact ⟨halone.1, rfl⟩

end Alone

/-! ## Every interleaving -/

/-- The files are in order and what each request knows is true. -/
def VaultInv {κ : Type} (format : KeypairFormat κ) (v : Vault) (ts : List (VaultThread κ)) : Prop :=
  VaultOk v ∧ ∀ t ∈ ts, PcOk format v t.call.caller t.pc

theorem vaultInv_act {κ : Type} {format : KeypairFormat κ} {resolve : Str → Str} {v : Vault}
    {pre post : List (VaultThread κ)} {t : VaultThread κ} (a : VaultAction)
    (h : VaultInv format v (pre ++ t :: post)) :
    VaultInv format (vaultAct format resolve v t a).1
      (pre ++ (vaultAct format resolve v t a).2 :: post) := by
  obtain ⟨hok, hpcs⟩ := h
  have hstep : StepOk format t.call.caller v (vaultMove format resolve v t a) :=
    vaultMove_ok hok (hpcs t (by simp)) a
  exact ⟨hstep.ok, forall_mem_replace hpcs (fun q hq => hstep.grows.pcOk hq) fun _ => hstep.pc⟩

theorem vaultInv_spawn {κ : Type} {format : KeypairFormat κ} {v : Vault}
    {ts : List (VaultThread κ)} (call : VaultCall) (h : VaultInv format v ts) :
    VaultInv format v (ts ++ [⟨call, .start⟩]) := by
  refine ⟨h.1, fun t ht => ?_⟩
  rcases List.mem_append.mp ht with ht | ht
  · exact h.2 t ht
  · rw [List.mem_singleton.mp ht]
    trivial

theorem VaultInv.keyOfOwner {κ : Type} {format : KeypairFormat κ}
    {s : System Vault (VaultThread κ)} (h : VaultInv format s.shared s.threads) :
    OnlyOwnerSigns format s := by
  intro t ht handler sub walletId m kp hcall hpc
  have hknown := h.2 t ht
  rw [hcall, hpc] at hknown
  obtain ⟨hreg, howner, hstored, hactive, hkey⟩ := hknown
  obtain ⟨stored, hget⟩ := Option.isSome_iff_exists.mp hstored
  obtain ⟨hid, hreg'⟩ := h.1.metas _ stored hget
  obtain ⟨hsame, haddress⟩ := hreg.agree hreg' hid.symm
  exact ⟨hactive, stored, hget, hsame.symm.trans (howner sub rfl), hkey.trans haddress⟩

/-- Only the owner's key ever signs. -/
theorem onlyOwnerSigns {κ : Type} (format : KeypairFormat κ) (resolve : Str → Str)
    (is : List (Input VaultCall VaultAction)) :
    Runs.Always (Threads.step (vaultProgram format resolve)) (OnlyOwnerSigns format)
      ⟨Vault.empty, []⟩ is := by
  have hempty : VaultInv format Vault.empty ([] : List (VaultThread κ)) := by
    refine ⟨⟨?_, ?_, ?_⟩, by simp⟩ <;> intro _ _ h <;> cases h
  refine Runs.Always.imp (fun s => VaultInv.keyOfOwner) ?_
  refine always_of_all_acts _ (fun v ts call h => ?_) (fun v pre t post a h => ?_) hempty
  · exact vaultInv_spawn call h
  · exact vaultInv_act a h

/-- A wallet is created, and its owner's request to issue gets to signing with its key. -/
example :
    ((Runs.exec (Threads.step (vaultProgram ⟨Except.ok, fun _ => ['a']⟩ id)) ⟨Vault.empty, []⟩
      (.spawn (.create ['u'] none) :: .run 0 (.draw ⟨['w'], ['a'], [7], 0, 0, by simp, by simp⟩) ::
        List.replicate 6 (.run 0 .next) ++
        .spawn (.sign .issueCredentials ['u'] []) :: List.replicate 3 (.run 1 .next))).threads.map
      fun t => match t.pc with
        | .signing m kp => some (m.walletId, kp)
        | _ => none) = [none, some (['w'], [7])] := by
  decide +kernel

end RelationalSdk
