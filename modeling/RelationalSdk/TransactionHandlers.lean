import RelationalSdk.Indexer
import RelationalSdk.Signing

/-!
# The transaction handlers

`send_transaction`, `list_transactions` and `get_transaction_status`, with the cache of first
pages in front of the tables and the poll that refreshes an address on demand. The answers of
the chain, the outcome of every write that may fail and the times that are read are arguments
of a request.

A first page is kept under the address alone. What it keeps is the list of entries : neither
the limit they were read with nor the cursor that came with them.
-/

namespace RelationalSdk

open Text KeyedTable

/-! ## The cache of first pages -/

/-- A cached first-page result. Instants and durations are counted in nanoseconds. -/
structure TxCacheEntry where
  txs : List (StoredTransaction × Str)
  insertedAt : Nat

/-- LRU cache with TTL, the entry used last in front. -/
structure TxCache where
  capacity : Nat
  ttl : Nat
  entries : List (Str × TxCacheEntry)

namespace TxCache

variable (cache : TxCache)

/-- Remove an entry. -/
def pop (address : Str) : TxCache :=
  { cache with entries := cache.entries.filter fun e => e.1 ≠ address }

/-- Get the cached first page for a wallet address. -/
def getFirstPage (address : Str) (now : Nat) : TxCache × Option (List (StoredTransaction × Str)) :=
  match cache.entries.lookup address with
  | none => (cache, none)
  | some entry =>
    if cache.ttl < now - entry.insertedAt then (cache.pop address, none)
    else ({ cache with entries := (address, entry) :: (cache.pop address).entries }, some entry.txs)

/-- Cache the first page for a wallet address. -/
def putFirstPage (address : Str) (txs : List (StoredTransaction × Str)) (now : Nat) : TxCache :=
  { cache with
    entries := ((address, ⟨txs, now⟩) :: (cache.pop address).entries).take cache.capacity }

/-- Invalidate cached data for a wallet address. -/
def invalidate (address : Str) : TxCache :=
  cache.pop address

end TxCache

/-! ## The stores -/

/-- The wallets, the chain, the transaction tables, `INDEXER_STATE` and the cache. -/
structure TxWorld where
  store : WalletStore
  history : Str → List SignatureInfo
  db : TxTables
  indexerState : Table Str Bytes
  cache : TxCache

/-- No transactions, with some wallets and an empty cache. -/
def TxWorld.fresh (store : WalletStore) (capacity ttl : Nat) : TxWorld :=
  ⟨store, fun _ => [], .empty, Table.empty, ⟨capacity, ttl, []⟩⟩

/-- The part the indexer works on. -/
def TxWorld.indexer (w : TxWorld) : IndexerWorld :=
  ⟨w.history, w.db, w.store.addressWallet, w.indexerState⟩

/-- The world with another indexer. -/
def TxWorld.withIndexer (w : TxWorld) (i : IndexerWorld) : TxWorld :=
  { w with history := i.history, db := i.db, indexerState := i.indexerState }

/-! ## Polling on demand -/

/-- How a poll ends : with an error, without new signatures, or at its end. -/
inductive PollEnd where
  | failed
  | nothing
  | polled
  deriving DecidableEq

/-- `str::parse::<i64>`. -/
def parseI64 (s : Str) : Option Int :=
  let (negative, digits) := match s with
    | '-' :: rest => (true, rest)
    | '+' :: rest => (false, rest)
    | _ => (false, s)
  if digits = [] ∨ ¬digits.all Char.isDigit then none
  else
    let n : Int := digits.foldl (fun n d => 10 * n + (d.toNat - 48 : Nat)) 0
    let value := if negative then -n else n
    if -2 ^ 63 ≤ value ∧ value < 2 ^ 63 then some value else none

/-- A number in decimal digits. -/
def intDigits (n : Int) : Str :=
  if n < 0 then '-' :: Nat.toDigits 10 n.natAbs else Nat.toDigits 10 n.natAbs

/-- `SYNC_COOLDOWN_SECS`. -/
def syncCooldownSecs : Int := 10

/-- The key of an address's cooldown. -/
def lastSyncKey (address : Str) : Str :=
  "last_sync_ts:".toList ++ address

/-- What happens during `sync_address_once` : a poll, the two times that are read around it,
and whether the cooldown can be read and written. -/
structure SyncEnv where
  poll : PollEnv
  checkedAt : DateTime
  finishedAt : DateTime
  cooldownRead : Bool
  cooldownWrite : Bool

section Handlers

variable (c : SolanaClient) (signer : CursorSigner) (resolve : Str → Str)

/-- How the poll of an address ends. -/
def pollEnd (w : IndexerWorld) (address walletId : Str) (env : PollEnv) : PollEnd :=
  if (pubkeyFromStr address).isNone ∨ ¬env.sigsOk then .failed
  else
    match pollPage w address with
    | [] => .nothing
    | page =>
      if (pollLoop c w.addressWallet address walletId env page w.db).1 ∧ env.checkpointOk then
        .polled
      else .failed

/-- `poll_address`, which drops the cached page of the address at its end. -/
def pollCached (w : TxWorld) (address walletId : Str) (env : PollEnv) : TxWorld :=
  let w' := w.withIndexer (pollAddress c w.indexer address walletId env)
  match pollEnd c w.indexer address walletId env with
  | .polled => { w' with cache := w'.cache.invalidate address }
  | .failed | .nothing => w'

/-- The last sync of the address is less than the cooldown ago. -/
def coolingDown (w : TxWorld) (address : Str) (env : SyncEnv) : Bool :=
  env.cooldownRead &&
    match ((w.indexerState.get (lastSyncKey address)).bind fromUtf8).bind parseI64 with
    | none => false
    | some last => env.checkedAt.timestamp - last < syncCooldownSecs

/-- Trigger a one-shot sync for a single address. -/
def syncAddressOnce (w : TxWorld) (address walletId : Str) (env : SyncEnv) : TxWorld :=
  if coolingDown w address env then w
  else
    let w' := pollCached c w address walletId env.poll
    if pollEnd c w.indexer address walletId env.poll = .failed ∨ ¬env.cooldownWrite then w'
    else
      { w' with
        indexerState := w'.indexerState.insert (lastSyncKey address)
          (asBytes (intDigits env.finishedAt.timestamp)) }

/-! ## Sending -/

/-- A transfer. -/
structure SendRequest where
  recipient : Str
  amount : Nat
  token : Str
  decimals : Option Nat

/-- The outcomes of a transfer. `keypair` is the load and the check of the caller's key, `sent`
the signature of the confirmed transaction. -/
structure SendIo where
  keypair : Except ApiError Unit
  sent : Except ApiError Str
  store : Bool
  now : DateTime

/-- The token a request names. -/
def parseToken (req : SendRequest) : Except ApiError TokenType :=
  if req.token = "native".toList then .ok .native
  else if "spl:".toList.isPrefixOf req.token then
    match req.decimals with
    | none => .error (.badRequest "decimals required for SPL transfers")
    | some _ => .ok (.splToken (req.token.drop 4))
  else
    .error (.badRequest "invalid token type — use \"native\" or \"spl:\x7bmint\x7d\"")

/-- The call with which a transfer is stored. -/
def sendUpsert (wallet : WalletMetadata) (walletId : Str) (req : SendRequest) (token : TokenType)
    (signature : Str) (now : DateTime) : Upsert where
  tx :=
    { signature := signature
      walletId := walletId
      counterpartyWalletId := none
      fromAddr := wallet.publicAddress
      toAddr := req.recipient
      amount := Nat.toDigits 10 req.amount
      amountLamports := some req.amount
      token := token
      network := c.networkName
      status := .confirmed
      slot := none
      feeLamports := none
      explorerUrl := c.explorerTxUrl signature
      createdAt := now
      updatedAt := now }
  directions := [(wallet.publicAddress, "sent".toList), (req.recipient, "received".toList)]

/-- The wallet of a request, if the caller owns it and it is active. -/
def activeWallet (w : TxWorld) (sub walletId : Str) : Except ApiError WalletMetadata :=
  match loadWallet resolve w.store walletId with
  | .error e => .error e
  | .ok wallet =>
    match enforceOwnerActive wallet sub with
    | .error e => .error e
    | .ok _ => .ok wallet

/-- All that comes before a transfer is stored : the wallet, the token and the signature. -/
def sendChecks (w : TxWorld) (sub walletId : Str) (req : SendRequest) (io : SendIo) :
    Except ApiError (WalletMetadata × TokenType × Str) :=
  match activeWallet resolve w sub walletId with
  | .error e => .error e
  | .ok wallet =>
    if (pubkeyFromStr req.recipient).isNone then .error (.unprocessable "invalid recipient address")
    else if req.amount = 0 then .error (.badRequest "amount must be greater than zero")
    else
      match io.keypair, parseToken req, io.sent with
      | .error e, _, _ => .error e
      | .ok _, .error e, _ => .error e
      | .ok _, .ok _, .error e => .error e
      | .ok _, .ok token, .ok signature => .ok (wallet, token, signature)

/-- Sign and send a transfer, and store it. Returns the signature. -/
def sendTransaction (w : TxWorld) (sub walletId : Str) (req : SendRequest) (io : SendIo) :
    Except ApiError Str × TxWorld :=
  match sendChecks resolve w sub walletId req io with
  | .error e => (.error e, w)
  | .ok (wallet, token, signature) =>
    let call := sendUpsert c wallet walletId req token signature io.now
    let db := if io.store then upsertTransaction w.db call else w.db
    (.ok signature, { w with db := db, cache := w.cache.invalidate wallet.publicAddress })

/-! ## Listing and opening -/

/-- The query of a listing. -/
structure ListQuery where
  cursor : Option Str
  limit : Option Nat

/-- The page size a query asks for. -/
def ListQuery.pageSize (query : ListQuery) : Nat :=
  min (query.limit.getD 20) 100

/-- The listing past the cache. -/
def listFresh (w : TxWorld) (wallet : WalletMetadata) (walletId : Str) (query : ListQuery)
    (env : SyncEnv) (putAt : Nat) :
    Except ApiError (List (StoredTransaction × Str) × Option Str) × TxWorld :=
  let w' := syncAddressOnce c w wallet.publicAddress walletId env
  match listByWallet signer w'.db wallet.publicAddress query.cursor query.pageSize with
  | .error _ => (.error (.internal "tx database error: invalid pagination cursor"), w')
  | .ok page =>
    (.ok page,
      if query.cursor.isNone then
        { w' with cache := w'.cache.putFirstPage wallet.publicAddress page.1 putAt }
      else w')

/-- List transaction history for a wallet. -/
def listTransactions (w : TxWorld) (sub walletId : Str) (query : ListQuery) (env : SyncEnv)
    (askedAt putAt : Nat) :
    Except ApiError (List (StoredTransaction × Str) × Option Str) × TxWorld :=
  match activeWallet resolve w sub walletId with
  | .error e => (.error e, w)
  | .ok wallet =>
    if query.cursor.isNone then
      match w.cache.getFirstPage wallet.publicAddress askedAt with
      | (cache, some cached) => (.ok (cached.take query.pageSize, none), { w with cache := cache })
      | (cache, none) =>
        listFresh c signer { w with cache := cache } wallet walletId query env putAt
    else listFresh c signer w wallet walletId query env putAt

/-- Get a single transaction by signature. -/
def getTransactionStatus (w : TxWorld) (sub walletId signature : Str) (env : SyncEnv) :
    Except ApiError StoredTransaction × TxWorld :=
  match activeWallet resolve w sub walletId with
  | .error e => (.error e, w)
  | .ok wallet =>
    let w' := syncAddressOnce c w wallet.publicAddress walletId env
    let sig := String.ofList signature
    let id := String.ofList walletId
    match getTransaction w'.db signature with
    | none => (.error (.notFound s!"transaction {sig} not found"), w')
    | some tx =>
      if tx.walletId ≠ walletId then
        (.error (.notFound s!"transaction {sig} not found for wallet {id}"), w')
      else (.ok tx, w')

/-! ## Steps -/

/-- A request, a poll of an address, or a transaction that reaches the chain. -/
inductive TxOp where
  | send (sub walletId : Str) (req : SendRequest) (io : SendIo)
  | poll (address walletId : Str) (env : PollEnv)
  | list (sub walletId : Str) (query : ListQuery) (env : SyncEnv) (askedAt putAt : Nat)
  | status (sub walletId signature : Str) (env : SyncEnv)
  | grow (address : Str) (info : SignatureInfo)

/-- The world after a step. -/
def txStep (w : TxWorld) : TxOp → TxWorld
  | .send sub walletId req io => (sendTransaction c resolve w sub walletId req io).2
  | .poll address walletId env => pollCached c w address walletId env
  | .list sub walletId query env askedAt putAt =>
    (listTransactions c signer resolve w sub walletId query env askedAt putAt).2
  | .status sub walletId signature env =>
    (getTransactionStatus c resolve w sub walletId signature env).2
  | .grow address info => w.withIndexer (indexerStep c w.indexer (.grow address info))

/-- The poll that a step makes : of which address, with which wallet id and with which answers. A
listing that the cache answers makes none, and neither does one too soon after another. -/
def TxOp.polls (w : TxWorld) : TxOp → Option (Str × Str × PollEnv)
  | .poll address walletId env => some (address, walletId, env)
  | .list sub walletId query env askedAt _ =>
    (activeWallet resolve w sub walletId).toOption.bind fun wallet =>
      if query.cursor.isNone ∧ (w.cache.getFirstPage wallet.publicAddress askedAt).2.isSome ∨
          coolingDown w wallet.publicAddress env then none
      else some (wallet.publicAddress, walletId, env.poll)
  | .status sub walletId _ env =>
    (activeWallet resolve w sub walletId).toOption.bind fun wallet =>
      if coolingDown w wallet.publicAddress env then none
      else some (wallet.publicAddress, walletId, env.poll)
  | .send _ _ _ _ | .grow _ _ => none

end Handlers

/-! ## What a poll does -/

section Polls

variable {c : SolanaClient} {P : TxTables → Prop}

section Call

variable (addressWallet : Table Str Str) (address walletId : Str) (now : DateTime)
  (info : SignatureInfo) (detail : TransactionDetail)

@[simp] theorem signature_pollUpsert :
    (pollUpsert c addressWallet address walletId now info detail).tx.signature = info.signature :=
  rfl

@[simp] theorem walletId_pollUpsert :
    (pollUpsert c addressWallet address walletId now info detail).tx.walletId = walletId :=
  rfl

@[simp] theorem addresses_pollUpsert :
    (pollUpsert c addressWallet address walletId now info detail).directions.map Prod.fst =
      [address] :=
  rfl

end Call

/-- The signatures that a poll gets to : those of its page before the first lookup that fails. -/
def polledInfos (i : IndexerWorld) (address : Str) (env : PollEnv) : List SignatureInfo :=
  if (pubkeyFromStr address).isNone ∨ ¬env.sigsOk then []
  else (pollPage i address).takeWhile fun info => env.readOk info.signature

theorem pollLoop_snd (addressWallet : Table Str Str) (address walletId : Str) (env : PollEnv)
    (page : List SignatureInfo) (db : TxTables) :
    (pollLoop c addressWallet address walletId env page db).2 =
      (page.takeWhile fun info => env.readOk info.signature).foldl
        (pollSignature c addressWallet address walletId env) db := by
  induction page generalizing db with
  | nil => rfl
  | cons info rest ih =>
    rw [pollLoop, List.takeWhile_cons]
    split_ifs with hread
    · exact ih _
    · rfl

/-- A poll takes the signatures one after the other. -/
theorem pollAddress_db (i : IndexerWorld) (address walletId : Str) (env : PollEnv) :
    (pollAddress c i address walletId env).db =
      (polledInfos i address env).foldl
        (pollSignature c i.addressWallet address walletId env) i.db := by
  unfold pollAddress polledInfos
  split_ifs
  · rfl
  · split
    · rename_i hpage
      rw [hpage]
      rfl
    · rename_i newest rest hpage
      rw [hpage, ← pollLoop_snd]
      dsimp only
      split_ifs <;> rfl

theorem mem_history_of_mem_polledInfos {i : IndexerWorld} {address : Str} {env : PollEnv}
    {info : SignatureInfo} (h : info ∈ polledInfos i address env) :
    (pubkeyFromStr address).isSome ∧ info ∈ pollPage i address := by
  unfold polledInfos at h
  split_ifs at h with hearly
  · cases h
  · refine ⟨?_, (List.takeWhile_prefix _).subset h⟩
    rw [← Bool.not_eq_false, Option.isSome_eq_false_iff]
    exact (not_or.mp hearly).1

/-- A poll stores transactions of the address it does not have, one after the other. -/
theorem pollAddress_induction {i : IndexerWorld} {address walletId : Str} {env : PollEnv}
    (hstep : (pubkeyFromStr address).isSome → ∀ db, P db → ∀ info ∈ polledInfos i address env,
      Stores env db info.signature → ∀ detail, P (upsertTransaction db
        (pollUpsert c i.addressWallet address walletId env.now info detail)))
    (hdb : P i.db) : P (pollAddress c i address walletId env).db := by
  rw [pollAddress_db]
  refine List.foldlRecOn _ _ hdb fun db hdb info hinfo => ?_
  rcases pollSignature_cases c i.addressWallet address walletId env db info with
    ⟨hstores, detail, heq⟩ | ⟨-, heq⟩ <;> rw [heq]
  · exact hstep (mem_history_of_mem_polledInfos hinfo).1 db hdb info hinfo hstores detail
  · exact hdb

theorem getTransaction_upsertTransaction (db : TxTables) (call : Upsert) (signature : Str) :
    getTransaction (upsertTransaction db call) signature =
      if signature = call.tx.signature then some call.tx else getTransaction db signature := by
  unfold getTransaction upsertTransaction
  rw [Table.get_insert]
  congr

/-- A poll leaves the records there are as they are. -/
theorem getTransaction_pollAddress {i : IndexerWorld} {address walletId : Str} {env : PollEnv}
    {signature : Str} {tx : StoredTransaction} (h : getTransaction i.db signature = some tx) :
    getTransaction (pollAddress c i address walletId env).db signature = some tx := by
  refine pollAddress_induction (P := fun db => getTransaction db signature = some tx)
    (fun _ db hdb info _ hnew detail => ?_) h
  have hne : signature ≠ info.signature := by
    rintro rfl
    cases hnew.1.symm.trans hdb
  rw [getTransaction_upsertTransaction, signature_pollUpsert, if_neg hne, hdb]

/-- A turn of the loop that has something to store changes the tables, and they stay changed. -/
theorem foldl_pollSignature_eq_iff (addressWallet : Table Str Str) (address walletId : Str)
    (env : PollEnv) (infos : List SignatureInfo) (db : TxTables) :
    infos.foldl (pollSignature c addressWallet address walletId env) db = db ↔
      ∀ info ∈ infos, ¬Stores env db info.signature := by
  have hkept : ∀ (infos : List SignatureInfo) (db : TxTables) (signature : Str),
      (getTransaction db signature).isSome → (getTransaction (infos.foldl
        (pollSignature c addressWallet address walletId env) db) signature).isSome := by
    intro infos
    induction infos with
    | nil => exact fun _ _ h => h
    | cons info rest ih =>
      intro db signature h
      refine ih _ _ ?_
      rcases pollSignature_cases c addressWallet address walletId env db info with
        ⟨-, detail, heq⟩ | ⟨-, heq⟩ <;> rw [heq]
      · rw [getTransaction_upsertTransaction]
        split_ifs
        · rfl
        · exact h
      · exact h
  induction infos with
  | nil => simp
  | cons info rest ih =>
    rw [List.foldl_cons, List.forall_mem_cons]
    rcases pollSignature_cases c addressWallet address walletId env db info with
      ⟨hstores, detail, heq⟩ | ⟨hnot, heq⟩
    · refine iff_of_false (fun hsame => ?_) fun h => h.1 hstores
      have hstored := hkept rest (pollSignature c addressWallet address walletId env db info)
        info.signature (by
          rw [heq, getTransaction_upsertTransaction, signature_pollUpsert, if_pos rfl]
          rfl)
      rw [hsame, hstores.1] at hstored
      cases hstored
    · rw [heq]
      exact ih.trans (and_iff_right hnot).symm

/-- A poll changes the tables exactly if it finds something to store. -/
theorem pollAddress_db_eq_iff {i : IndexerWorld} {address walletId : Str} {env : PollEnv} :
    (pollAddress c i address walletId env).db = i.db ↔
      ∀ info ∈ polledInfos i address env, ¬Stores env i.db info.signature := by
  rw [pollAddress_db, foldl_pollSignature_eq_iff]

@[simp] theorem history_pollAddress (i : IndexerWorld) (address walletId : Str) (env : PollEnv) :
    (pollAddress c i address walletId env).history = i.history := by
  unfold pollAddress
  split_ifs
  · rfl
  · split
    · rfl
    · dsimp only
      split_ifs <;> rfl

variable (w : TxWorld) (address walletId : Str)

theorem pollCached_db (env : PollEnv) :
    (pollCached c w address walletId env).db =
      (pollAddress c w.indexer address walletId env).db := by
  unfold pollCached
  split <;> rfl

@[simp] theorem pollCached_store (env : PollEnv) :
    (pollCached c w address walletId env).store = w.store := by
  unfold pollCached
  split <;> rfl

@[simp] theorem pollCached_history (env : PollEnv) :
    (pollCached c w address walletId env).history = w.history := by
  have hhistory := history_pollAddress (c := c) w.indexer address walletId env
  unfold pollCached
  split <;> exact hhistory

theorem syncAddressOnce_db (env : SyncEnv) :
    (syncAddressOnce c w address walletId env).db =
      if coolingDown w address env then w.db
      else (pollAddress c w.indexer address walletId env.poll).db := by
  unfold syncAddressOnce
  dsimp only
  split_ifs
  · rfl
  · exact pollCached_db w address walletId env.poll
  · exact pollCached_db w address walletId env.poll

@[simp] theorem syncAddressOnce_store (env : SyncEnv) :
    (syncAddressOnce c w address walletId env).store = w.store := by
  unfold syncAddressOnce
  dsimp only
  split_ifs
  · rfl
  · exact pollCached_store w address walletId env.poll
  · exact pollCached_store w address walletId env.poll

end Polls

/-! ## What a step does -/

section Steps

variable {c : SolanaClient} {signer : CursorSigner} {resolve : Str → Str}

theorem activeWallet_eq_ok {w : TxWorld} {sub walletId : Str} {wallet : WalletMetadata}
    (h : activeWallet resolve w sub walletId = .ok wallet) :
    w.store.metas.get (resolve walletId) = some wallet := by
  unfold activeWallet at h
  split at h
  · cases h
  · rename_i loaded hload
    split at h
    · cases h
    · rw [← Except.ok.inj h]
      exact loadWallet_eq_ok hload

/-- A transfer that gets to the chain is from an active wallet to a public key. -/
theorem sendChecks_eq_ok {w : TxWorld} {sub walletId : Str} {req : SendRequest} {io : SendIo}
    {wallet : WalletMetadata} {token : TokenType} {signature : Str}
    (h : sendChecks resolve w sub walletId req io = .ok (wallet, token, signature)) :
    activeWallet resolve w sub walletId = .ok wallet ∧ (pubkeyFromStr req.recipient).isSome ∧
      io.sent = .ok signature := by
  unfold sendChecks at h
  split at h
  · cases h
  · rename_i wallet' hwallet
    split_ifs at h with hpub hamount
    have hpub : (pubkeyFromStr req.recipient).isSome := by
      rwa [← Bool.not_eq_false, Option.isSome_eq_false_iff]
    split at h
    · cases h
    · cases h
    · cases h
    · rename_i hsent
      obtain ⟨rfl, -, rfl⟩ : wallet' = wallet ∧ _ = token ∧ _ = signature := by
        simpa using h
      exact ⟨hwallet, hpub, hsent⟩

theorem listFresh_cases (w : TxWorld) (wallet : WalletMetadata) (walletId : Str)
    (query : ListQuery) (env : SyncEnv) (putAt : Nat) :
    (listFresh c signer w wallet walletId query env putAt).2.store = w.store ∧
      (listFresh c signer w wallet walletId query env putAt).2.db =
        (syncAddressOnce c w wallet.publicAddress walletId env).db := by
  have hstore := syncAddressOnce_store (c := c) w wallet.publicAddress walletId env
  unfold listFresh
  dsimp only
  split
  · exact ⟨hstore, rfl⟩
  · split_ifs
    · exact ⟨hstore, rfl⟩
    · exact ⟨hstore, rfl⟩

/-- Looking up a transaction changes what the sync before it changes. -/
theorem getTransactionStatus_snd (w : TxWorld) (sub walletId signature : Str) (env : SyncEnv) :
    (getTransactionStatus c resolve w sub walletId signature env).2 =
      match activeWallet resolve w sub walletId with
      | .error _ => w
      | .ok wallet => syncAddressOnce c w wallet.publicAddress walletId env := by
  unfold getTransactionStatus
  split
  · rfl
  · dsimp only
    split
    · rfl
    · split_ifs <;> rfl

/-- No step changes the wallets. -/
@[simp] theorem txStep_store (w : TxWorld) (op : TxOp) :
    (txStep c signer resolve w op).store = w.store := by
  cases op with
  | send sub walletId req io =>
    rw [txStep, sendTransaction]
    split <;> rfl
  | poll address walletId env => exact pollCached_store w address walletId env
  | list sub walletId query env askedAt putAt =>
    rw [txStep, listTransactions]
    split
    · rfl
    · split_ifs
      · split
        · rfl
        · exact (listFresh_cases _ _ _ _ _ _).1
      · exact (listFresh_cases _ _ _ _ _ _).1
  | status sub walletId signature env =>
    rw [txStep, getTransactionStatus_snd]
    split
    · rfl
    · exact syncAddressOnce_store _ _ _ _
  | grow address info => rfl

/-- The tables after a step other than a transfer are those after the poll that it makes. -/
theorem txStep_db (w : TxWorld) {op : TxOp}
    (hop : ∀ sub walletId req io, op ≠ .send sub walletId req io) :
    (txStep c signer resolve w op).db = match op.polls resolve w with
      | none => w.db
      | some (address, walletId, env) => (pollAddress c w.indexer address walletId env).db := by
  cases op with
  | send sub walletId req io => exact absurd rfl (hop sub walletId req io)
  | poll address walletId env => exact pollCached_db w address walletId env
  | list sub walletId query env askedAt putAt =>
    rw [txStep, listTransactions, TxOp.polls]
    cases activeWallet resolve w sub walletId with
    | error e => rfl
    | ok wallet =>
      have hfresh : ∀ cache, (listFresh c signer { w with cache := cache } wallet walletId query env
          putAt).2.db = if coolingDown w wallet.publicAddress env then w.db
            else (pollAddress c w.indexer wallet.publicAddress walletId env.poll).db := by
        intro cache
        rw [(listFresh_cases _ _ _ _ _ _).2, syncAddressOnce_db]
        rfl
      dsimp only [Except.toOption, Option.bind_some]
      by_cases hcursor : query.cursor.isNone = true
      · rw [if_pos hcursor]
        obtain ⟨cache, _ | cached⟩ := w.cache.getFirstPage wallet.publicAddress askedAt
        · rw [hfresh cache]
          split_ifs with hcooling hskip hskip
          · rfl
          · exact absurd (Or.inr hcooling) hskip
          · exact absurd hskip (by simp [hcooling])
          · rfl
        · rw [if_pos (Or.inl ⟨hcursor, rfl⟩)]
      · rw [if_neg hcursor, hfresh w.cache]
        split_ifs with hcooling hskip hskip
        · rfl
        · exact absurd (Or.inr hcooling) hskip
        · exact absurd hskip (by simp [hcooling, hcursor])
        · rfl
  | status sub walletId signature env =>
    rw [txStep, getTransactionStatus_snd, TxOp.polls]
    cases activeWallet resolve w sub walletId with
    | error e => rfl
    | ok wallet =>
      dsimp only [Except.toOption, Option.bind_some]
      rw [syncAddressOnce_db]
      split_ifs <;> rfl
  | grow address info =>
    rw [txStep, indexerStep]
    split_ifs <;> rfl

end Steps

/-! ## Two wallets -/

/-- An active wallet. -/
def activeMetadata (walletId owner : String) (address : Str) : WalletMetadata :=
  ⟨walletId.toList, owner.toList, address, sampleDate, .active, none⟩

/-- The wallets of two users. -/
def twoWallets : WalletStore :=
  { WalletStore.empty with
    metas := (Table.empty.insert "w1".toList (activeMetadata "w1" "alice" senderAddress)).insert
      "w2".toList (activeMetadata "w2" "bob" receiverAddress)
    addressWallet := (Table.empty.insert senderAddress "w1".toList).insert
      receiverAddress "w2".toList }

theorem get_twoWallets {id : Str} {wallet : WalletMetadata}
    (h : twoWallets.metas.get id = some wallet) :
    (id = "w1".toList ∧ wallet = activeMetadata "w1" "alice" senderAddress) ∨
      (id = "w2".toList ∧ wallet = activeMetadata "w2" "bob" receiverAddress) := by
  have hentries : twoWallets.metas.entries =
      [("w1".toList, activeMetadata "w1" "alice" senderAddress),
        ("w2".toList, activeMetadata "w2" "bob" receiverAddress)] := by decide +kernel
  have hmem := (Table.get_eq_some_iff _).mp h
  rw [hentries] at hmem
  rcases List.mem_pair.mp hmem with heq | heq
  · exact Or.inl (Prod.mk.inj heq)
  · exact Or.inr (Prod.mk.inj heq)

/-- A sync without any failure. -/
def sampleSync : SyncEnv :=
  ⟨sampleEnv, sampleDate, sampleDate, true, true⟩

/-- A transfer of one SOL from the first wallet. -/
def sampleSend (recipient : Str) : TxOp :=
  .send "alice".toList "w1".toList ⟨recipient, 1000000000, "native".toList, none⟩
    ⟨.ok (), .ok "5Sig".toList, true, sampleDate⟩

/-- The world after some steps with the two wallets. -/
def afterSteps (ops : List TxOp) : TxWorld :=
  Runs.exec (txStep sampleClient plainSigner id) (.fresh twoWallets 10 30) ops

end RelationalSdk
