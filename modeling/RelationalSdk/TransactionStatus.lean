import RelationalSdk.TransactionHandlers

/-!
# Opening a listed transaction

A transaction is indexed under the addresses of both parties, but its record has one wallet
id, the one it was stored with, and `get_transaction_status` refuses every other one.

`ListedOpen` : whatever is indexed under the address of an active wallet can be opened by its
owner. A poll stores only what has no record yet, with the wallet id it is given. A transfer
always writes its record, and indexes it under the recipient as well. `listedOpen_iff` : a run
keeps the property exactly if every step of it stores its records with the id of every active
wallet under whose address they are indexed (`FilesOwn`). A transfer between two active
wallets is a step that does not.
-/

namespace RelationalSdk

open Text KeyedTable Runs

/-! ## What opens, and when -/

/-- The wallet id is that of every active wallet whose address satisfies `p`. -/
def OwnId (store : WalletStore) (walletId : Str) (p : Str → Prop) : Prop :=
  ∀ id wallet, store.metas.get id = some wallet → wallet.status = .active →
    p wallet.publicAddress → id = walletId

section Opening

variable (c : SolanaClient) (resolve : Str → Str)

/-- What is indexed under the address of an active wallet can be opened by its owner. -/
def ListedOpen (w : TxWorld) : Prop :=
  ∀ id wallet signature env, w.store.metas.get id = some wallet → wallet.status = .active →
    HasEntry w.db wallet.publicAddress signature →
      ∃ tx, (getTransactionStatus c resolve w wallet.ownerUserId id signature env).1 = .ok tx

/-- What a step stores has the id of every active wallet that has it indexed. For a poll the
condition is on one that finds something to store. -/
def FilesOwn (w : TxWorld) : TxOp → Prop
  | .send sub walletId req io => ∀ wallet token signature,
      sendChecks resolve w sub walletId req io = .ok (wallet, token, signature) → io.store →
        OwnId w.store walletId fun a =>
          (a = wallet.publicAddress ∨ a = req.recipient) ∨ HasEntry w.db a signature
  | op => ∀ address walletId env, op.polls resolve w = some (address, walletId, env) →
      (∃ info ∈ polledInfos w.indexer address env, Stores env w.db info.signature) →
        OwnId w.store walletId (· = address)

/-- The addresses of the wallets are base58 texts, and the id of a wallet names its own
directory. -/
structure WalletsSound (store : WalletStore) : Prop where
  addresses : ∀ id wallet, store.metas.get id = some wallet → IsBase58 wallet.publicAddress
  resolves : ∀ id wallet, store.metas.get id = some wallet → resolve id = id

end Opening

/-! ## Records and entries -/

/-- Everything indexed has a record. -/
def EntriesStored (db : TxTables) : Prop :=
  ∀ address signature, '|' ∉ address → HasEntry db address signature →
    (getTransaction db signature).isSome

/-- The records indexed under the address of an active wallet have its id. -/
def RecordsOwned (store : WalletStore) (db : TxTables) : Prop :=
  ∀ id wallet signature, store.metas.get id = some wallet → wallet.status = .active →
    HasEntry db wallet.publicAddress signature →
      ∃ tx, getTransaction db signature = some tx ∧ tx.walletId = id

section Upserts

variable {store : WalletStore} {db : TxTables} {call : Upsert}

theorem hasEntry_upsertTransaction_iff (hcall : ∀ a ∈ call.directions.map Prod.fst, '|' ∉ a)
    {address signature : Str} (haddress : '|' ∉ address) :
    HasEntry (upsertTransaction db call) address signature ↔
      (signature = call.tx.signature ∧ address ∈ call.directions.map Prod.fst) ∨
        HasEntry db address signature := by
  simp only [HasEntry, isSome_get_upsertTransaction]
  constructor
  · rintro ⟨ts, ⟨d, hd, hkey⟩ | hts⟩
    · obtain rfl := makeIndexKey_address_inj haddress (hcall _ (List.mem_map_of_mem hd)) hkey
      exact Or.inl ⟨makeIndexKey_signature_inj hkey, List.mem_map_of_mem hd⟩
    · exact Or.inr ⟨ts, hts⟩
  · rintro (⟨rfl, haddress⟩ | ⟨ts, hts⟩)
    · obtain ⟨d, hd, rfl⟩ := List.mem_map.mp haddress
      exact ⟨call.tx.createdAt.timestamp, Or.inl ⟨d, hd, rfl⟩⟩
    · exact ⟨ts, Or.inr hts⟩

theorem EntriesStored.upsertTransaction (h : EntriesStored db)
    (hcall : ∀ a ∈ call.directions.map Prod.fst, '|' ∉ a) :
    EntriesStored (upsertTransaction db call) := by
  intro address signature haddress hentry
  rw [getTransaction_upsertTransaction]
  split_ifs with hsig
  · rfl
  · rcases (hasEntry_upsertTransaction_iff hcall haddress).mp hentry with ⟨hsame, -⟩ | hentry
    · exact absurd hsame hsig
    · exact h address signature haddress hentry

/-- A call keeps the records owned exactly if its record has the id of every active wallet
that has it indexed then. -/
theorem recordsOwned_upsertTransaction_iff (h : RecordsOwned store db)
    (hstore : ∀ id wallet, store.metas.get id = some wallet → '|' ∉ wallet.publicAddress)
    (hcall : ∀ a ∈ call.directions.map Prod.fst, '|' ∉ a) :
    RecordsOwned store (upsertTransaction db call) ↔ OwnId store call.tx.walletId fun a =>
      a ∈ call.directions.map Prod.fst ∨ HasEntry db a call.tx.signature := by
  constructor
  · intro howned id wallet hget hactive hlisted
    have hentry : HasEntry (upsertTransaction db call) wallet.publicAddress call.tx.signature :=
      (hasEntry_upsertTransaction_iff hcall (hstore id wallet hget)).mpr
        (hlisted.imp_left fun hdir => ⟨rfl, hdir⟩)
    obtain ⟨tx, htx, hid⟩ := howned id wallet _ hget hactive hentry
    rw [getTransaction_upsertTransaction, if_pos rfl] at htx
    rw [Option.some.inj htx, hid]
  · intro hown id wallet signature hget hactive hentry
    have hentry := (hasEntry_upsertTransaction_iff hcall (hstore id wallet hget)).mp hentry
    rw [getTransaction_upsertTransaction]
    split_ifs with hsig
    · subst hsig
      refine ⟨call.tx, rfl, (hown id wallet hget hactive ?_).symm⟩
      exact hentry.imp_left And.right
    · rcases hentry with ⟨hsame, -⟩ | hentry
      · exact absurd hsame hsig
      · exact h id wallet signature hget hactive hentry

end Upserts

/-! ## Polls -/

section Polls

variable {c : SolanaClient} {store : WalletStore} {i : IndexerWorld} {address walletId : Str}
  {env : PollEnv}

theorem not_mem_bar_pollUpsert {c : SolanaClient} {address : Str} (h : '|' ∉ address)
    (addressWallet : Table Str Str) (walletId : Str) (now : DateTime) (info : SignatureInfo)
    (detail : TransactionDetail) :
    ∀ a ∈ (pollUpsert c addressWallet address walletId now info detail).directions.map Prod.fst,
      '|' ∉ a := by
  rw [addresses_pollUpsert]
  exact List.forall_mem_singleton.mpr h

/-- A poll that changes the tables stores a record with its wallet id under its address. -/
theorem pollAddress_db_cases (c : SolanaClient) (i : IndexerWorld) (address walletId : Str)
    (env : PollEnv) :
    (pollAddress c i address walletId env).db = i.db ∨ ∃ signature tx,
      getTransaction (pollAddress c i address walletId env).db signature = some tx ∧
        tx.walletId = walletId ∧
        HasEntry (pollAddress c i address walletId env).db address signature := by
  refine pollAddress_induction (P := fun db => db = i.db ∨ ∃ signature tx,
    getTransaction db signature = some tx ∧ tx.walletId = walletId ∧
      HasEntry db address signature) (fun _ db _ info _ _ detail => ?_) (Or.inl rfl)
  refine Or.inr ⟨info.signature,
    (pollUpsert c i.addressWallet address walletId env.now info detail).tx, ?_, rfl, ?_⟩
  · rw [getTransaction_upsertTransaction, signature_pollUpsert, if_pos rfl]
  · rw [hasEntry_upsert_iff]
    exact Or.inl rfl

/-- What a poll keeps if its wallet id is that of the active wallet at its address. -/
theorem recordsOwned_pollAddress (howned : RecordsOwned store i.db) (hstored : EntriesStored i.db)
    (hstore : ∀ id wallet, store.metas.get id = some wallet → '|' ∉ wallet.publicAddress)
    (hown : OwnId store walletId (· = address)) :
    RecordsOwned store (pollAddress c i address walletId env).db := by
  refine (pollAddress_induction (P := fun db => RecordsOwned store db ∧ EntriesStored db)
    (fun hpub db hdb info _ hnew detail => ?_) ⟨howned, hstored⟩).1
  have hcall := not_mem_bar_pollUpsert (c := c) (isBase58_of_pubkeyFromStr hpub).not_mem_bar
    i.addressWallet walletId env.now info detail
  refine ⟨(recordsOwned_upsertTransaction_iff hdb.1 hstore hcall).mpr ?_,
    hdb.2.upsertTransaction hcall⟩
  rw [addresses_pollUpsert, signature_pollUpsert, walletId_pollUpsert]
  rintro id wallet hget hactive (haddress | hentry)
  · exact hown id wallet hget hactive (List.mem_singleton.mp haddress)
  · -- what the poll stores had no record, so nobody has it indexed
    have hrecord := hdb.2 _ _ (hstore id wallet hget) hentry
    rw [hnew.1] at hrecord
    cases hrecord

theorem EntriesStored.pollAddress (h : EntriesStored i.db) :
    EntriesStored (pollAddress c i address walletId env).db := by
  refine pollAddress_induction (P := EntriesStored) (fun hpub db hdb info _ _ detail => ?_) h
  exact hdb.upsertTransaction (not_mem_bar_pollUpsert (isBase58_of_pubkeyFromStr hpub).not_mem_bar
    _ walletId _ info detail)

/-- A poll keeps the records owned exactly if it stores nothing, or its wallet id is that of
the active wallet at its address. -/
theorem recordsOwned_pollAddress_iff (howned : RecordsOwned store i.db)
    (hstored : EntriesStored i.db)
    (hstore : ∀ id wallet, store.metas.get id = some wallet → '|' ∉ wallet.publicAddress) :
    RecordsOwned store (pollAddress c i address walletId env).db ↔
      ((∃ info ∈ polledInfos i address env, Stores env i.db info.signature) →
        OwnId store walletId (· = address)) := by
  constructor
  · rintro h ⟨info, hinfo, hstores⟩ id wallet hget hactive haddress
    rcases pollAddress_db_cases c i address walletId env with
      hsame | ⟨signature, tx, htx, hid, hentry⟩
    · exact absurd hstores (pollAddress_db_eq_iff.mp hsame info hinfo)
    · obtain ⟨tx', htx', hid'⟩ := h id wallet signature hget hactive (haddress ▸ hentry)
      rw [← hid, ← hid', Option.some.inj (htx.symm.trans htx')]
  · intro h
    by_cases hstores : ∃ info ∈ polledInfos i address env, Stores env i.db info.signature
    · exact recordsOwned_pollAddress howned hstored hstore (h hstores)
    · have hsame : (pollAddress c i address walletId env).db = i.db :=
        pollAddress_db_eq_iff.mpr fun info hinfo hs => hstores ⟨info, hinfo, hs⟩
      rwa [hsame]

end Polls

/-! ## Requests -/

section Requests

variable {c : SolanaClient} {signer : CursorSigner} {resolve : Str → Str} {w : TxWorld}

/-- The owner of an active wallet gets past the checks with its id. -/
theorem activeWallet_owner (hsound : WalletsSound resolve w.store) {id : Str}
    {wallet : WalletMetadata} (hget : w.store.metas.get id = some wallet)
    (hactive : wallet.status = .active) :
    activeWallet resolve w wallet.ownerUserId id = .ok wallet := by
  have hload : loadWallet resolve w.store id = .ok wallet := by
    rw [loadWallet, WalletStore.get, WalletStore.getAt, hsound.resolves id wallet hget, hget]
    rfl
  have hchecked : enforceOwnerActive wallet wallet.ownerUserId = .ok () := by
    simp [enforceOwnerActive, checkOwnerActive, hactive]
  rw [activeWallet, hload]
  dsimp only
  rw [hchecked]

theorem getTransaction_syncAddressOnce {address walletId signature : Str} {env : SyncEnv}
    {tx : StoredTransaction} (h : getTransaction w.db signature = some tx) :
    getTransaction (syncAddressOnce c w address walletId env).db signature = some tx := by
  rw [syncAddressOnce_db]
  split_ifs
  · exact h
  · exact getTransaction_pollAddress h

/-- The owner of an active wallet opens a stored record exactly if it has the wallet's id. -/
theorem getTransactionStatus_ok_iff (hsound : WalletsSound resolve w.store) {id : Str}
    {wallet : WalletMetadata} (hget : w.store.metas.get id = some wallet)
    (hactive : wallet.status = .active) {signature : Str} {tx : StoredTransaction}
    (htx : getTransaction w.db signature = some tx) (env : SyncEnv) :
    (∃ tx', (getTransactionStatus c resolve w wallet.ownerUserId id signature env).1 = .ok tx') ↔
      tx.walletId = id := by
  rw [getTransactionStatus, activeWallet_owner hsound hget hactive]
  dsimp only
  rw [getTransaction_syncAddressOnce htx]
  dsimp only
  split_ifs with hid
  · simpa using hid
  · simpa using not_not.mp hid

theorem listedOpen_iff_recordsOwned (hsound : WalletsSound resolve w.store)
    (hstored : EntriesStored w.db) :
    ListedOpen c resolve w ↔ RecordsOwned w.store w.db := by
  constructor
  · intro h id wallet signature hget hactive hentry
    have hbar := (hsound.addresses id wallet hget).not_mem_bar
    obtain ⟨tx, htx⟩ := Option.isSome_iff_exists.mp (hstored _ _ hbar hentry)
    refine ⟨tx, htx, ?_⟩
    -- a sync changes no record, so any environment will do
    exact (getTransactionStatus_ok_iff hsound hget hactive htx sampleSync).mp
      (h id wallet signature sampleSync hget hactive hentry)
  · intro h id wallet signature env hget hactive hentry
    obtain ⟨tx, htx, hid⟩ := h id wallet signature hget hactive hentry
    exact (getTransactionStatus_ok_iff hsound hget hactive htx env).mpr hid

/-! ## Steps -/

theorem not_mem_bar_sendUpsert (hsound : WalletsSound resolve w.store) {sub walletId : Str}
    {req : SendRequest} {io : SendIo} {wallet : WalletMetadata} {token : TokenType}
    {signature : Str} {now : DateTime}
    (h : sendChecks resolve w sub walletId req io = .ok (wallet, token, signature)) :
    ∀ a ∈ (sendUpsert c wallet walletId req token signature now).directions.map Prod.fst,
      '|' ∉ a := by
  obtain ⟨hwallet, hpub, -⟩ := sendChecks_eq_ok h
  rintro a (_ | ⟨_, _ | ⟨_, ⟨⟩⟩⟩)
  · exact (hsound.addresses _ _ (activeWallet_eq_ok hwallet)).not_mem_bar
  · exact (isBase58_of_pubkeyFromStr hpub).not_mem_bar

theorem entriesStored_txStep (hsound : WalletsSound resolve w.store) (h : EntriesStored w.db)
    (op : TxOp) : EntriesStored (txStep c signer resolve w op).db := by
  by_cases hop : ∃ sub walletId req io, op = .send sub walletId req io
  · obtain ⟨sub, walletId, req, io, rfl⟩ := hop
    rw [txStep, sendTransaction]
    split
    · exact h
    · rename_i wallet token signature hchecks
      dsimp only
      split_ifs
      · exact h.upsertTransaction (not_mem_bar_sendUpsert hsound hchecks)
      · exact h
  · have hop' : ∀ sub walletId req io, op ≠ .send sub walletId req io :=
      fun sub walletId req io heq => hop ⟨sub, walletId, req, io, heq⟩
    rw [txStep_db w hop']
    split
    · exact h
    · exact EntriesStored.pollAddress h

/-- A transfer keeps the records owned exactly if it files its own under the right id. -/
theorem recordsOwned_send_iff (hsound : WalletsSound resolve w.store)
    (howned : RecordsOwned w.store w.db) (sub walletId : Str) (req : SendRequest) (io : SendIo) :
    RecordsOwned w.store (txStep c signer resolve w (.send sub walletId req io)).db ↔
      FilesOwn resolve w (.send sub walletId req io) := by
  have hstore := fun id wallet hget => (hsound.addresses id wallet hget).not_mem_bar
  rw [txStep, sendTransaction, FilesOwn]
  cases hchecks : sendChecks resolve w sub walletId req io with
  | error e =>
    refine ⟨fun _ wallet token signature heq => ?_, fun _ => howned⟩
    cases heq
  | ok checked =>
    obtain ⟨wallet, token, signature⟩ := checked
    dsimp only
    split_ifs with hio
    · rw [recordsOwned_upsertTransaction_iff howned hstore (not_mem_bar_sendUpsert hsound hchecks)]
      have hlisted : ∀ a, a ∈ (sendUpsert c wallet walletId req token signature
          io.now).directions.map Prod.fst ↔ a = wallet.publicAddress ∨ a = req.recipient := by
        simp [sendUpsert]
      simp only [hlisted]
      constructor
      · intro hown wallet' token' signature' heq _
        cases Except.ok.inj heq
        exact hown
      · exact fun hown => hown wallet token signature rfl hio
    · exact ⟨fun _ _ _ _ _ hstored => absurd hstored hio, fun _ => howned⟩

/-- So does any other step. -/
theorem recordsOwned_poll_iff (hsound : WalletsSound resolve w.store)
    (howned : RecordsOwned w.store w.db) (hstored : EntriesStored w.db) {op : TxOp}
    (hop : ∀ sub walletId req io, op ≠ .send sub walletId req io) :
    RecordsOwned w.store (txStep c signer resolve w op).db ↔
      ∀ address walletId env, op.polls resolve w = some (address, walletId, env) →
        (∃ info ∈ polledInfos w.indexer address env, Stores env w.db info.signature) →
          OwnId w.store walletId (· = address) := by
  have hstore := fun id wallet hget => (hsound.addresses id wallet hget).not_mem_bar
  rw [txStep_db w hop]
  rcases hpolls : op.polls resolve w with _ | ⟨address, walletId, env⟩
  · refine ⟨fun _ address walletId env h => ?_, fun _ => howned⟩
    cases h
  · dsimp only
    rw [recordsOwned_pollAddress_iff (i := w.indexer) howned hstored hstore]
    constructor
    · rintro h address' walletId' env' heq
      cases Option.some.inj heq
      exact h
    · exact fun h => h address walletId env rfl

theorem listedOpen_step_iff {store : WalletStore} (hsound : WalletsSound resolve store)
    (w : TxWorld) (op : TxOp) (hw : w.store = store ∧ EntriesStored w.db)
    (h : ListedOpen c resolve w) :
    ListedOpen c resolve (txStep c signer resolve w op) ↔ FilesOwn resolve w op := by
  obtain ⟨rfl, hstored⟩ := hw
  have howned := (listedOpen_iff_recordsOwned hsound hstored).mp h
  have hnext : WalletsSound resolve (txStep c signer resolve w op).store := by
    rwa [txStep_store]
  rw [listedOpen_iff_recordsOwned hnext (entriesStored_txStep hsound hstored op), txStep_store]
  cases op with
  | send sub walletId req io => exact recordsOwned_send_iff hsound howned sub walletId req io
  | poll | list | status | grow =>
    exact recordsOwned_poll_iff hsound howned hstored (by simp)

/-- A poll over a registered wallet files what it stores under that wallet. -/
theorem filesOwn_registered {address walletId : Str} {env : PollEnv}
    (hdistinct : ∀ id id' wallet wallet', w.store.metas.get id = some wallet →
      w.store.metas.get id' = some wallet' → wallet.publicAddress = wallet'.publicAddress →
        id = id')
    (hregistered : ∃ wallet, w.store.metas.get walletId = some wallet ∧
      wallet.publicAddress = address) :
    FilesOwn resolve w (.poll address walletId env) := by
  obtain ⟨wallet, hget, rfl⟩ := hregistered
  intro address walletId' env' hpolls _
  cases hpolls
  exact fun id wallet' hget' _ haddress => hdistinct _ _ _ _ hget' hget haddress

end Requests

/-- A run from empty tables lets every owner open what is listed, throughout, exactly if every
step of it files what it stores under the right id. -/
theorem listedOpen_iff (c : SolanaClient) (signer : CursorSigner) (resolve : Str → Str)
    (store : WalletStore) (capacity ttl : Nat) (hsound : WalletsSound resolve store)
    (ops : List TxOp) :
    Always (txStep c signer resolve) (ListedOpen c resolve) (.fresh store capacity ttl) ops ↔
      Along (txStep c signer resolve) (FilesOwn resolve) (.fresh store capacity ttl)
        ops := by
  have hempty : ∀ address signature, ¬HasEntry TxTables.empty address signature := by
    simp [HasEntry, TxTables.empty]
  refine always_iff_along (I := fun w => w.store = store ∧ EntriesStored w.db) ?_
    (listedOpen_step_iff hsound) ⟨rfl, ?_⟩ ?_
  · rintro w op ⟨rfl, hstored⟩
    exact ⟨txStep_store w op, entriesStored_txStep hsound hstored op⟩
  · exact fun address signature _ h => absurd h (hempty address signature)
  · exact fun _ _ _ _ _ _ h => absurd h (hempty _ _)

theorem walletsSound_twoWallets : WalletsSound id twoWallets where
  addresses id wallet h := by
    rcases get_twoWallets h with ⟨-, rfl⟩ | ⟨-, rfl⟩ <;> decide +kernel
  resolves _ _ _ := rfl

/-- A transfer to an address outside, and a poll that finds another one of the second wallet. -/
def sendOutside : List TxOp :=
  [.grow receiverAddress ⟨"4Sig".toList, none, some 1771891200⟩, sampleSend anotherAddress,
    .poll receiverAddress "w2".toList sampleEnv]

/-- Both owners have a transaction listed, and can open it. -/
theorem listedOpen_sendOutside :
    WalletsSound id twoWallets ∧
      HasEntry (afterSteps sendOutside).db senderAddress "5Sig".toList ∧
      HasEntry (afterSteps sendOutside).db receiverAddress "4Sig".toList ∧
      Always (txStep sampleClient plainSigner id) (ListedOpen sampleClient id)
        (.fresh twoWallets 10 30) sendOutside := by
  refine ⟨walletsSound_twoWallets, ⟨1771891200, by decide +kernel⟩,
    ⟨1771891200, by decide +kernel⟩, (listedOpen_iff sampleClient plainSigner id twoWallets 10 30
      walletsSound_twoWallets sendOutside).mpr ⟨?_, ?_, ?_, trivial⟩⟩
  · intro address walletId env hpolls
    cases hpolls
  · intro wallet token signature hchecks _ id' wallet' hget _ hlisted
    obtain ⟨rfl, rfl, rfl⟩ : wallet = activeMetadata "w1" "alice" senderAddress ∧
        token = .native ∧ signature = "5Sig".toList := by
      cases hchecks
      exact ⟨rfl, rfl, rfl⟩
    rcases get_twoWallets hget with ⟨rfl, rfl⟩ | ⟨rfl, rfl⟩
    · rfl
    · rcases hlisted with hparty | ⟨ts, hts⟩
      · exact absurd hparty (by decide)
      · cases hts
  · refine filesOwn_registered (fun id₁ id₂ wallet₁ wallet₂ h₁ h₂ heq => ?_)
      ⟨activeMetadata "w2" "bob" receiverAddress, rfl, rfl⟩
    rcases get_twoWallets h₁ with ⟨rfl, rfl⟩ | ⟨rfl, rfl⟩ <;>
      rcases get_twoWallets h₂ with ⟨rfl, rfl⟩ | ⟨rfl, rfl⟩
    · rfl
    · exact absurd heq (by decide)
    · exact absurd heq (by decide)
    · rfl

/-- After a transfer between the two wallets it is listed for the recipient, who is told that
it does not exist. -/
theorem not_listedOpen_sendInside :
    HasEntry (afterSteps [sampleSend receiverAddress]).db receiverAddress "5Sig".toList ∧
      (getTransactionStatus sampleClient id (afterSteps [sampleSend receiverAddress]) "bob".toList
        "w2".toList "5Sig".toList sampleSync).1 =
          .error (.notFound "transaction 5Sig not found for wallet w2") ∧
      ¬ListedOpen sampleClient id (afterSteps [sampleSend receiverAddress]) := by
  have hentry : HasEntry (afterSteps [sampleSend receiverAddress]).db receiverAddress
      "5Sig".toList := ⟨sampleDate.timestamp, by decide +kernel⟩
  have hstatus : (getTransactionStatus sampleClient id (afterSteps [sampleSend receiverAddress])
      "bob".toList "w2".toList "5Sig".toList sampleSync).1 =
        .error (.notFound "transaction 5Sig not found for wallet w2") := by decide +kernel
  refine ⟨hentry, hstatus, fun h => ?_⟩
  obtain ⟨tx, htx⟩ := h "w2".toList (activeMetadata "w2" "bob" receiverAddress) "5Sig".toList
    sampleSync (by decide +kernel) rfl hentry
  cases hstatus.symm.trans htx

end RelationalSdk
