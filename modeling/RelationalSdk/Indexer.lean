import RelationalSdk.TxTables

/-!
# The transaction indexer

`pollAddress` asks the chain for the signatures of an address that are newer than its
checkpoint, at most 50 of them and newest first, stores each transaction it does not
have, and moves the checkpoint to the newest signature. The chain's answers and the
failures of the database are inputs of a poll.

`CheckpointsSound` : everything at or before a checkpoint is indexed under its address.
The checkpoint moves whatever became of the signatures between the old one and the new
one. `checkpointsSound_iff` : a run keeps the checkpoints sound exactly if each poll that
moves one leaves behind it only signatures it has just indexed or finds indexed.
-/

namespace RelationalSdk

open Text KeyedTable

/-- Signature info from `getSignaturesForAddress`. -/
structure SignatureInfo where
  signature : Str
  err : Option Str
  blockTime : Option Int
  deriving DecidableEq

/-- Transaction metadata. -/
structure TransactionMeta where
  fee : Nat
  preBalances : List Nat
  postBalances : List Nat

/-- The answer of `getTransaction`. -/
structure TransactionDetail where
  slot : Nat
  txMeta : Option TransactionMeta
  accountKeys : List Str

/-- What the indexer knows about the network it runs on. `formatSol` prints an amount of
lamports in SOL with nine decimals. -/
structure SolanaClient where
  networkName : Str
  explorerUrl : Str
  explorerSuffix : Str
  formatSol : Nat → Str

/-- The explorer page of a transaction. -/
def SolanaClient.explorerTxUrl (c : SolanaClient) (signature : Str) : Str :=
  c.explorerUrl ++ "/tx/".toList ++ signature ++ c.explorerSuffix

/-- The chain's answers and the database's failures during one poll. -/
structure PollEnv where
  /-- The checkpoint can be read and the signatures can be fetched. -/
  sigsOk : Bool
  /-- Whether the lookup of a stored transaction succeeds. -/
  readOk : Str → Bool
  /-- The details of a transaction, if they can be fetched. -/
  getTransaction : Str → Option TransactionDetail
  /-- Whether storing a transaction succeeds. -/
  writeOk : Str → Bool
  /-- Whether storing the checkpoint succeeds. -/
  checkpointOk : Bool
  now : DateTime

/-- `DateTime::from_timestamp(t, 0)`. -/
def fromTimestamp (t : Int) : Option DateTime :=
  if h : -8334601228800 ≤ t ∧ t ≤ 8210266876799 then some ⟨t, 0, h.1, h.2⟩ else none

/-- The amount an address gains or spends : its balance before and after, without the
fee if it paid the fee. -/
def amountLamports (detail : TransactionDetail) (address : Str) (isSender : Bool) : Option Nat :=
  match detail.txMeta with
  | none => none
  | some txMeta =>
    (detail.accountKeys.findIdx? (· = address)).map fun idx =>
      let pre := (txMeta.preBalances[idx]?).getD 0
      let post := (txMeta.postBalances[idx]?).getD 0
      if isSender then pre - post - txMeta.fee else post - pre

/-- The call with which a poll of `address` stores a transaction. -/
def pollUpsert (c : SolanaClient) (addressWallet : Table Str Str) (address walletId : Str)
    (now : DateTime) (info : SignatureInfo) (detail : TransactionDetail) : Upsert :=
  let feePayer := (detail.accountKeys.head?).getD []
  let isSender : Bool := feePayer = address
  let lamports := amountLamports detail address isSender
  let fromAddr := if isSender then address else feePayer
  let toAddr := if isSender then (detail.accountKeys[1]?).getD [] else address
  let counterpartyAddr := if isSender then toAddr else fromAddr
  { tx :=
      { signature := info.signature
        walletId := walletId
        counterpartyWalletId := addressWallet.get counterpartyAddr
        fromAddr := fromAddr
        toAddr := toAddr
        amount := match lamports with
          | some lam => c.formatSol lam
          | none => "0".toList
        amountLamports := lamports
        token := .native
        network := c.networkName
        status := if info.err.isSome then .failed else .confirmed
        slot := some detail.slot
        feeLamports := detail.txMeta.map TransactionMeta.fee
        explorerUrl := c.explorerTxUrl info.signature
        createdAt := (info.blockTime.bind fromTimestamp).getD now
        updatedAt := now }
    directions := [(address, if isSender then "sent".toList else "received".toList)] }

/-- The chain and the database : the signatures of each address, newest first, the
transaction tables, `ADDRESS_WALLET_MAP` and `INDEXER_STATE`. -/
structure IndexerWorld where
  history : Str → List SignatureInfo
  db : TxTables
  addressWallet : Table Str Str
  indexerState : Table Str Bytes

/-- No transaction on chain and empty tables. -/
def IndexerWorld.empty : IndexerWorld :=
  ⟨fun _ => [], .empty, Table.empty, Table.empty⟩

/-- The key of an address's checkpoint. -/
def lastSigKey (address : Str) : Str :=
  "last_sig:".toList ++ address

/-- The checkpoint of an address. -/
def checkpoint (w : IndexerWorld) (address : Str) : Option Str :=
  (w.indexerState.get (lastSigKey address)).bind fromUtf8

/-- The signatures newer than a checkpoint. -/
def newerThan (history : List SignatureInfo) : Option Str → List SignatureInfo
  | none => history
  | some s => history.takeWhile (·.signature ≠ s)

/-- The limit `poll_address` gives `getSignaturesForAddress`. -/
def pageLimit : Nat := 50

/-- The answer of `getSignaturesForAddress` for an address from its checkpoint. -/
def pollPage (w : IndexerWorld) (address : Str) : List SignatureInfo :=
  (newerThan (w.history address) (checkpoint w address)).take pageLimit

section Poll

variable (c : SolanaClient)

/-- One turn of the loop of `poll_address` : skip what is stored, fetch and store the
rest. Failures are logged. -/
def pollSignature (addressWallet : Table Str Str) (address walletId : Str) (env : PollEnv)
    (db : TxTables) (info : SignatureInfo) : TxTables :=
  if (getTransaction db info.signature).isSome then db
  else
    match env.getTransaction info.signature with
    | none => db
    | some detail =>
      if env.writeOk info.signature then
        upsertTransaction db (pollUpsert c addressWallet address walletId env.now info detail)
      else db

/-- The loop of `poll_address` over the page. It ends early when a lookup fails. -/
def pollLoop (addressWallet : Table Str Str) (address walletId : Str) (env : PollEnv) :
    List SignatureInfo → TxTables → Bool × TxTables
  | [], db => (true, db)
  | info :: rest, db =>
    if env.readOk info.signature then
      pollLoop addressWallet address walletId env rest
        (pollSignature c addressWallet address walletId env db info)
    else (false, db)

/-- Poll a single address for new transaction signatures. -/
def pollAddress (w : IndexerWorld) (address walletId : Str) (env : PollEnv) : IndexerWorld :=
  if (pubkeyFromStr address).isNone ∨ ¬env.sigsOk then w
  else
    match pollPage w address with
    | [] => w
    | newest :: rest =>
      let (finished, db) :=
        pollLoop c w.addressWallet address walletId env (newest :: rest) w.db
      if finished ∧ env.checkpointOk then
        { w with
          db := db
          indexerState :=
            w.indexerState.insert (lastSigKey address) (asBytes newest.signature) }
      else { w with db := db }

/-- A transaction of an address reaches the chain, an address is registered, or an
address is polled. -/
inductive IndexerStep where
  | grow (address : Str) (info : SignatureInfo)
  | register (address walletId : Str)
  | poll (address walletId : Str) (env : PollEnv)

/-- The world after a step. A signature is on an address's history once. -/
def indexerStep (w : IndexerWorld) : IndexerStep → IndexerWorld
  | .grow address info =>
    if info.signature ∈ (w.history address).map SignatureInfo.signature then w
    else { w with history := Function.update w.history address (info :: w.history address) }
  | .register address walletId =>
    { w with addressWallet := w.addressWallet.insert address walletId }
  | .poll address walletId env => pollAddress c w address walletId env

end Poll

/-! ## Sound checkpoints -/

/-- A signature has an entry in `WALLET_TX_INDEX` under an address. -/
def HasEntry (db : TxTables) (address signature : Str) : Prop :=
  ∃ ts, (db.walletTxIndex.get (makeIndexKey address ts signature)).isSome

/-- The signatures of a history at or before `s`. -/
def atOrBefore (history : List SignatureInfo) (s : Str) : List SignatureInfo :=
  history.dropWhile (·.signature ≠ s)

/-- Everything at or before a checkpoint is indexed under its address. -/
def CheckpointsSound (w : IndexerWorld) : Prop :=
  ∀ address s, checkpoint w address = some s →
    ∀ info ∈ atOrBefore (w.history address) s, HasEntry w.db address info.signature

/-- A transaction is not stored yet, and its fetch and its write succeed. -/
def Stores (env : PollEnv) (db : TxTables) (signature : Str) : Prop :=
  getTransaction db signature = none ∧ (env.getTransaction signature).isSome ∧
    env.writeOk signature

/-- The poll gets to the end and moves the checkpoint. -/
def MovesCheckpoint (w : IndexerWorld) (address : Str) (env : PollEnv) : Prop :=
  (pubkeyFromStr address).isSome ∧ env.sigsOk ∧ pollPage w address ≠ [] ∧
    (∀ info ∈ pollPage w address, env.readOk info.signature) ∧ env.checkpointOk

/-- A poll that moves the checkpoint leaves nothing unindexed behind it. -/
def SafePoll (w : IndexerWorld) : IndexerStep → Prop
  | .poll address _ env => MovesCheckpoint w address env →
      ∀ info ∈ newerThan (w.history address) (checkpoint w address),
        HasEntry w.db address info.signature ∨
          info ∈ pollPage w address ∧ Stores env w.db info.signature
  | .grow _ _ | .register _ _ => True

/-! ## What a poll indexes -/

theorem makeIndexKey_signature_inj {address signature signature' : Str} {ts ts' : Int}
    (h : makeIndexKey address ts signature = makeIndexKey address ts' signature') :
    signature = signature' := by
  simp only [makeIndexKey, List.append_assoc] at h
  obtain ⟨-, hrest⟩ := List.append_inj (List.append_cancel_left (List.append_cancel_left h)) rfl
  have hbytes := List.append_cancel_left hrest
  have := congrArg fromUtf8 hbytes
  simpa using this

theorem makeIndexKey_address_inj {address address' signature signature' : Str} {ts ts' : Int}
    (ha : '|' ∉ address) (ha' : '|' ∉ address')
    (h : makeIndexKey address ts signature = makeIndexKey address' ts' signature') :
    address = address' := by
  simp only [makeIndexKey, List.append_assoc] at h
  exact asBytes_append_cons_inj ha ha' h

/-- A call adds the keys of its directions to the index. -/
theorem isSome_get_upsertTransaction (db : TxTables) (call : Upsert) (key : Bytes) :
    ((upsertTransaction db call).walletTxIndex.get key).isSome ↔
      (∃ d ∈ call.directions,
        key = makeIndexKey d.1 call.tx.createdAt.timestamp call.tx.signature) ∨
      (db.walletTxIndex.get key).isSome := by
  obtain ⟨tx, directions⟩ := call
  unfold upsertTransaction
  dsimp only
  induction directions generalizing db with
  | nil => simp
  | cons d ds ih =>
    rw [List.foldl_cons, ih ⟨db.transactions, _⟩, Table.isSome_get_insert_iff,
      List.exists_mem_cons_iff, ← or_assoc]
    exact or_congr_left or_comm

section Loop

variable (c : SolanaClient) (addressWallet : Table Str Str) (address walletId : Str) (env : PollEnv)

/-- A turn of the loop stores the transaction, or leaves the tables as they are. -/
theorem pollSignature_cases (db : TxTables) (info : SignatureInfo) :
    (Stores env db info.signature ∧ ∃ detail,
        pollSignature c addressWallet address walletId env db info =
          upsertTransaction db (pollUpsert c addressWallet address walletId env.now info detail)) ∨
      ¬Stores env db info.signature ∧
        pollSignature c addressWallet address walletId env db info = db := by
  unfold pollSignature Stores
  cases hget : getTransaction db info.signature with
  | some tx => simp
  | none =>
    cases hfetch : env.getTransaction info.signature with
    | none => simp
    | some detail =>
      by_cases hwrite : env.writeOk info.signature = true
      · exact Or.inl ⟨⟨rfl, rfl, hwrite⟩, detail, by simp [hwrite]⟩
      · exact Or.inr ⟨fun h => hwrite h.2.2, by simp [hwrite]⟩

theorem hasEntry_upsert_iff (db : TxTables) (now : DateTime) (info : SignatureInfo)
    (detail : TransactionDetail) (signature : Str) :
    HasEntry (upsertTransaction db
        (pollUpsert c addressWallet address walletId now info detail)) address signature ↔
      signature = info.signature ∨ HasEntry db address signature := by
  simp only [HasEntry, isSome_get_upsertTransaction, pollUpsert, List.mem_singleton,
    exists_eq_left]
  constructor
  · rintro ⟨ts, hkey | hts⟩
    · exact Or.inl (makeIndexKey_signature_inj hkey)
    · exact Or.inr ⟨ts, hts⟩
  · rintro (rfl | ⟨ts, hts⟩)
    · exact ⟨_, Or.inl rfl⟩
    · exact ⟨ts, Or.inr hts⟩

/-- A turn of the loop removes no entry, of any address. -/
theorem HasEntry.pollSignature {db : TxTables} {info : SignatureInfo} {a signature : Str}
    (h : HasEntry db a signature) :
    HasEntry (pollSignature c addressWallet address walletId env db info) a signature := by
  rcases pollSignature_cases c addressWallet address walletId env db info with
    ⟨-, detail, heq⟩ | ⟨-, heq⟩
  · rw [heq]
    obtain ⟨ts, hts⟩ := h
    exact ⟨ts, (isSome_get_upsertTransaction _ _ _).mpr (Or.inr hts)⟩
  · rwa [heq]

theorem pollLoop_finished_iff (page : List SignatureInfo) (db : TxTables) :
    (pollLoop c addressWallet address walletId env page db).1 = true ↔
      ∀ info ∈ page, env.readOk info.signature := by
  induction page generalizing db with
  | nil => simp [pollLoop]
  | cons info rest ih =>
    rw [pollLoop, List.forall_mem_cons]
    split_ifs with hread
    · simp [ih, hread]
    · simp [hread]

theorem HasEntry.pollLoop {page : List SignatureInfo} {db : TxTables} {a signature : Str}
    (h : HasEntry db a signature) :
    HasEntry (pollLoop c addressWallet address walletId env page db).2 a signature := by
  induction page generalizing db with
  | nil => exact h
  | cons info rest ih =>
    rw [RelationalSdk.pollLoop]
    split_ifs
    · exact ih (h.pollSignature c addressWallet address walletId env)
    · exact h

/-- After a loop that gets to the end, what was indexed before and what the loop stores
is indexed under the address, and nothing else. -/
theorem hasEntry_pollLoop_iff {page : List SignatureInfo}
    (hpage : (page.map SignatureInfo.signature).Nodup)
    (hread : ∀ info ∈ page, env.readOk info.signature) (db : TxTables) (signature : Str) :
    HasEntry (pollLoop c addressWallet address walletId env page db).2 address signature ↔
      HasEntry db address signature ∨
        signature ∈ page.map SignatureInfo.signature ∧ Stores env db signature := by
  induction page generalizing db with
  | nil => simp [pollLoop]
  | cons info rest ih =>
    rw [List.map_cons, List.nodup_cons] at hpage
    obtain ⟨hread₀, hread⟩ := List.forall_mem_cons.mp hread
    rw [pollLoop, if_pos hread₀, ih hpage.2 hread, List.map_cons, List.mem_cons]
    rcases pollSignature_cases c addressWallet address walletId env db info with
      ⟨hstores, detail, heq⟩ | ⟨hnot, heq⟩
    · -- the signatures after it are other ones, so whether they are stored has not changed
      have hsame : signature ∈ rest.map SignatureInfo.signature →
          (Stores env (pollSignature c addressWallet address walletId env db info) signature ↔
            Stores env db signature) := by
        intro hs
        have hne : signature ≠ info.signature := fun h => hpage.1 (h ▸ hs)
        have hget : (upsertTransaction db (pollUpsert c addressWallet address walletId env.now
            info detail)).transactions.get signature = db.transactions.get signature :=
          Table.get_insert_of_ne _ _ hne
        simp only [heq, Stores, getTransaction, hget]
      rw [and_congr_right hsame, heq, hasEntry_upsert_iff]
      constructor
      · rintro ((rfl | h) | ⟨hs, h⟩)
        · exact Or.inr ⟨Or.inl rfl, hstores⟩
        · exact Or.inl h
        · exact Or.inr ⟨Or.inr hs, h⟩
      · rintro (h | ⟨rfl | hs, h⟩)
        · exact Or.inl (Or.inr h)
        · exact Or.inl (Or.inl rfl)
        · exact Or.inr ⟨hs, h⟩
    · rw [heq]
      refine or_congr_right ⟨fun h => ⟨Or.inr h.1, h.2⟩, ?_⟩
      rintro ⟨rfl | hs, h⟩
      · exact absurd h hnot
      · exact ⟨hs, h⟩

end Loop

/-! ## What a step does to the checkpoints -/

/-- The chain lists a signature once, and a checkpoint is on its address's history. -/
structure HistoryKept (w : IndexerWorld) : Prop where
  nodup : ∀ address, ((w.history address).map SignatureInfo.signature).Nodup
  mem : ∀ address s, checkpoint w address = some s →
    s ∈ (w.history address).map SignatureInfo.signature

theorem newerThan_isPrefix (history : List SignatureInfo) (u : Option Str) :
    List.IsPrefix (newerThan history u) history := by
  cases u with
  | none => exact List.prefix_refl history
  | some s => exact List.takeWhile_prefix _

theorem pollPage_isPrefix (w : IndexerWorld) (address : Str) :
    List.IsPrefix (pollPage w address) (w.history address) :=
  (List.take_prefix _ _).trans (newerThan_isPrefix _ _)

/-- A signature is newer than the checkpoint, or at or before it. -/
theorem mem_history_iff {w : IndexerWorld} {address : Str} {info : SignatureInfo} :
    info ∈ w.history address ↔
      info ∈ newerThan (w.history address) (checkpoint w address) ∨
        ∃ s, checkpoint w address = some s ∧ info ∈ atOrBefore (w.history address) s := by
  cases hs : checkpoint w address with
  | none => simp [newerThan]
  | some s =>
    have hsplit := List.takeWhile_append_dropWhile (p := fun i : SignatureInfo => i.signature ≠ s)
      (l := w.history address)
    simp only [newerThan, atOrBefore, Option.some.injEq, exists_eq_left']
    rw [← List.mem_append, hsplit]

theorem checkpoint_insert (w w' : IndexerWorld) (address newest a : Str)
    (h : w'.indexerState = w.indexerState.insert (lastSigKey address) (asBytes newest)) :
    checkpoint w' a = if a = address then some newest else checkpoint w a := by
  unfold checkpoint
  rw [h, Table.get_insert]
  by_cases ha : a = address
  · simp [ha]
  · have hkey : lastSigKey a ≠ lastSigKey address := fun hk => ha (List.append_cancel_left hk)
    simp [ha, hkey]

/-- A poll moves the checkpoint to the newest signature of the address, or leaves all
checkpoints as they are. -/
theorem pollAddress_cases (c : SolanaClient) (w : IndexerWorld) (address walletId : Str)
    (env : PollEnv) :
    (MovesCheckpoint w address env ∧ ∃ newest rest, pollPage w address = newest :: rest ∧
      pollAddress c w address walletId env =
        { w with
          db := (pollLoop c w.addressWallet address walletId env (pollPage w address) w.db).2
          indexerState :=
            w.indexerState.insert (lastSigKey address) (asBytes newest.signature) }) ∨
    ¬MovesCheckpoint w address env ∧ ∃ db,
      (∀ a signature, HasEntry w.db a signature → HasEntry db a signature) ∧
        pollAddress c w address walletId env = { w with db := db } := by
  unfold pollAddress
  split_ifs with hearly
  · refine Or.inr ⟨?_, w.db, fun _ _ h => h, rfl⟩
    rintro ⟨hpub, hsigs, -⟩
    rw [← Option.not_isSome, hpub] at hearly
    simp [hsigs] at hearly
  · obtain ⟨hpub, hsigs⟩ : (pubkeyFromStr address).isSome = true ∧ env.sigsOk = true := by
      simpa [not_or, Option.isSome_iff_ne_none] using hearly
    cases hpage : pollPage w address with
    | nil =>
      refine Or.inr ⟨?_, w.db, fun _ _ h => h, rfl⟩
      rintro ⟨-, -, hne, -⟩
      exact hne hpage
    | cons newest rest =>
      have hfinished := pollLoop_finished_iff c w.addressWallet address walletId env
        (newest :: rest) w.db
      dsimp only
      split_ifs with hdone
      · refine Or.inl ⟨⟨hpub, hsigs, by simp [hpage], ?_, hdone.2⟩, newest, rest, rfl, rfl⟩
        rw [hpage]
        exact hfinished.mp hdone.1
      · refine Or.inr ⟨?_, _, fun _ _ h => h.pollLoop c w.addressWallet address walletId env, rfl⟩
        rintro ⟨-, -, -, hread, hcheck⟩
        rw [hpage] at hread
        exact hdone ⟨hfinished.mpr hread, hcheck⟩

/-- A step that keeps the checkpoints, the history up to them and the entries keeps the
checkpoints sound. -/
theorem CheckpointsSound.mono {w w' : IndexerWorld} (h : CheckpointsSound w)
    (hcheck : ∀ a, checkpoint w' a = checkpoint w a)
    (hhistory : ∀ a s, checkpoint w a = some s →
      atOrBefore (w'.history a) s = atOrBefore (w.history a) s)
    (hentry : ∀ a signature, HasEntry w.db a signature → HasEntry w'.db a signature) :
    CheckpointsSound w' := by
  intro a s hs info hinfo
  rw [hcheck] at hs
  rw [hhistory a s hs] at hinfo
  exact hentry _ _ (h a s hs info hinfo)

/-- A poll that moves the checkpoint keeps the checkpoints sound exactly if all the
signatures newer than the old one are indexed when it is done. -/
theorem checkpointsSound_move_iff {w w' : IndexerWorld} (h : CheckpointsSound w) {address : Str}
    {newest : SignatureInfo} {rest : List SignatureInfo}
    (hpage : pollPage w address = newest :: rest) (hhistory : w'.history = w.history)
    (hstate : w'.indexerState =
      w.indexerState.insert (lastSigKey address) (asBytes newest.signature))
    (hentry : ∀ a signature, HasEntry w.db a signature → HasEntry w'.db a signature) :
    CheckpointsSound w' ↔ ∀ info ∈ newerThan (w.history address) (checkpoint w address),
      HasEntry w'.db address info.signature := by
  have hcheck := checkpoint_insert w w' address newest.signature
  obtain ⟨t, ht⟩ := hpage ▸ pollPage_isPrefix w address
  have hall : atOrBefore (w.history address) newest.signature = w.history address := by
    rw [← ht]
    simp [atOrBefore]
  constructor
  · intro h' info hinfo
    refine h' address newest.signature (by rw [hcheck _ hstate, if_pos rfl]) info ?_
    rw [hhistory, hall]
    exact mem_history_iff.mpr (Or.inl hinfo)
  · intro hnew a s hs info hinfo
    rw [hhistory] at hinfo
    rw [hcheck a hstate] at hs
    split_ifs at hs with ha
    · subst ha
      rw [← Option.some.inj hs, hall] at hinfo
      rcases mem_history_iff.mp hinfo with hinfo | ⟨u, hu, hinfo⟩
      · exact hnew info hinfo
      · exact hentry _ _ (h _ u hu info hinfo)
    · exact hentry _ _ (h a s hs info hinfo)

theorem HistoryKept.sig_mem_iff {w : IndexerWorld} (hw : HistoryKept w) {address : Str}
    {info : SignatureInfo} (hinfo : info ∈ w.history address) :
    info.signature ∈ (pollPage w address).map SignatureInfo.signature ↔
      info ∈ pollPage w address := by
  constructor
  · intro h
    obtain ⟨info', hinfo', heq⟩ := List.mem_map.mp h
    have hmem := (pollPage_isPrefix w address).subset hinfo'
    rwa [← List.inj_on_of_nodup_map (hw.nodup address) hmem hinfo heq]
  · exact fun h => List.mem_map_of_mem h

/-- A poll keeps the checkpoints sound exactly if it is safe. -/
theorem checkpointsSound_poll_iff (c : SolanaClient) (w : IndexerWorld) (hw : HistoryKept w)
    (h : CheckpointsSound w) (address walletId : Str) (env : PollEnv) :
    CheckpointsSound (pollAddress c w address walletId env) ↔
      SafePoll w (.poll address walletId env) := by
  rcases pollAddress_cases c w address walletId env with
    ⟨hmoves, newest, rest, hpage, heq⟩ | ⟨hnot, db, hentry, heq⟩
  · have hnodup : ((pollPage w address).map SignatureInfo.signature).Nodup :=
      (hw.nodup address).sublist ((pollPage_isPrefix w address).sublist.map _)
    have hhistory : (pollAddress c w address walletId env).history = w.history := by rw [heq]
    have hstate : (pollAddress c w address walletId env).indexerState =
        w.indexerState.insert (lastSigKey address) (asBytes newest.signature) := by rw [heq]
    have hdb : (pollAddress c w address walletId env).db =
        (pollLoop c w.addressWallet address walletId env (pollPage w address) w.db).2 := by rw [heq]
    rw [checkpointsSound_move_iff h hpage hhistory hstate fun _ _ h =>
      hdb ▸ h.pollLoop c w.addressWallet address walletId env, hdb]
    refine ⟨fun h' _ info hinfo => ?_, fun hsafe info hinfo => ?_⟩
    · rw [← hw.sig_mem_iff ((newerThan_isPrefix _ _).subset hinfo)]
      exact (hasEntry_pollLoop_iff c w.addressWallet address walletId env hnodup
        hmoves.2.2.2.1 w.db info.signature).mp (h' info hinfo)
    · refine (hasEntry_pollLoop_iff c w.addressWallet address walletId env hnodup
        hmoves.2.2.2.1 w.db info.signature).mpr ?_
      rw [hw.sig_mem_iff ((newerThan_isPrefix _ _).subset hinfo)]
      exact hsafe hmoves info hinfo
  · rw [heq]
    refine ⟨fun _ hmoves => absurd hmoves hnot, fun _ => ?_⟩
    exact h.mono (fun _ => rfl) (fun _ _ _ => rfl) hentry

theorem checkpointsSound_step_iff (c : SolanaClient) (w : IndexerWorld) (i : IndexerStep)
    (hw : HistoryKept w) (h : CheckpointsSound w) :
    CheckpointsSound (indexerStep c w i) ↔ SafePoll w i := by
  cases i with
  | grow address info =>
    refine ⟨fun _ => trivial, fun _ => ?_⟩
    simp only [indexerStep]
    split_ifs with hmem
    · exact h
    · refine h.mono (fun _ => rfl) (fun a s hs => ?_) fun _ _ h => h
      by_cases ha : a = address
      · subst ha
        have hne : info.signature ≠ s := by
          rintro rfl
          exact hmem (hw.mem _ _ hs)
        simp [atOrBefore, hne]
      · simp [atOrBefore, ha]
  | register address walletId =>
    exact ⟨fun _ => trivial, fun _ => h.mono (fun _ => rfl) (fun _ _ _ => rfl) fun _ _ h => h⟩
  | poll address walletId env => exact checkpointsSound_poll_iff c w hw h address walletId env

theorem historyKept_step (c : SolanaClient) (w : IndexerWorld) (i : IndexerStep)
    (hw : HistoryKept w) : HistoryKept (indexerStep c w i) := by
  cases i with
  | grow address info =>
    simp only [indexerStep]
    split_ifs with hmem
    · exact hw
    · refine ⟨fun a => ?_, fun a s hs => ?_⟩ <;> by_cases ha : a = address
      · subst ha
        simpa using ⟨by simpa using hmem, hw.nodup a⟩
      · simpa [ha] using hw.nodup a
      · subst ha
        have := hw.mem a s hs
        simp only [Function.update_self, List.map_cons, List.mem_cons]
        exact Or.inr this
      · simpa [ha] using hw.mem a s hs
  | register address walletId => exact ⟨hw.nodup, hw.mem⟩
  | poll address walletId env =>
    rcases pollAddress_cases c w address walletId env with
      ⟨-, newest, rest, hpage, heq⟩ | ⟨-, db, -, heq⟩
    · simp only [indexerStep, heq]
      refine ⟨hw.nodup, fun a s hs => ?_⟩
      rw [checkpoint_insert w _ address newest.signature a rfl] at hs
      split_ifs at hs with ha
      · subst ha
        rw [← Option.some.inj hs]
        refine List.mem_map_of_mem ((pollPage_isPrefix w a).subset ?_)
        rw [hpage]
        exact List.mem_cons_self
      · exact hw.mem a s hs
    · simp only [indexerStep, heq]
      exact ⟨hw.nodup, hw.mem⟩

/-- A run from an empty chain and database keeps every checkpoint sound exactly if every
poll of it is safe. -/
theorem checkpointsSound_iff (c : SolanaClient) (is : List IndexerStep) :
    Runs.Always (indexerStep c) CheckpointsSound .empty is ↔
      Runs.Along (indexerStep c) SafePoll .empty is := by
  refine Runs.always_iff_along (historyKept_step c) (checkpointsSound_step_iff c) ?_ ?_
  · exact ⟨fun _ => List.nodup_nil, by simp [checkpoint, IndexerWorld.empty]⟩
  · simp [CheckpointsSound, checkpoint, IndexerWorld.empty]

/-- A client of the devnet. What it prints is exact for the amounts that an `f64` holds. -/
def sampleClient : SolanaClient where
  networkName := "devnet".toList
  explorerUrl := "explorer".toList
  explorerSuffix := "?cluster=devnet".toList
  formatSol lamports :=
    let digits := Nat.toDigits 10 (lamports % 1000000000)
    Nat.toDigits 10 (lamports / 1000000000) ++ '.' ::
      (List.replicate (9 - digits.length) '0' ++ digits)

/-- A transfer of one SOL, found without any failure. -/
def sampleEnv : PollEnv where
  sigsOk := true
  readOk _ := true
  getTransaction _ := some
    { slot := 7
      txMeta := some ⟨5000, [2000005000, 0], [1000000000, 1000000000]⟩
      accountKeys := [senderAddress, receiverAddress] }
  writeOk _ := true
  checkpointOk := true
  now := sampleDate

/-- A transfer between two registered addresses, which are then polled in turn. -/
def pollBoth : List IndexerStep :=
  [.register senderAddress "w1".toList, .register receiverAddress "w2".toList,
    .grow senderAddress ⟨"5Sig".toList, none, some 1771891200⟩,
    .grow receiverAddress ⟨"5Sig".toList, none, some 1771891200⟩,
    .poll senderAddress "w1".toList sampleEnv,
    .poll receiverAddress "w2".toList sampleEnv]

/-- The second poll skips the transfer as stored and moves its checkpoint past it, so the
transfer is never indexed under the receiver. -/
theorem not_checkpointsSound_pollBoth :
    checkpoint (Runs.exec (indexerStep sampleClient) .empty pollBoth) receiverAddress =
        some "5Sig".toList ∧
      ¬HasEntry (Runs.exec (indexerStep sampleClient) .empty pollBoth).db receiverAddress
        "5Sig".toList ∧
      ¬CheckpointsSound (Runs.exec (indexerStep sampleClient) .empty pollBoth) := by
  have hcheck : checkpoint (Runs.exec (indexerStep sampleClient) .empty pollBoth)
      receiverAddress = some "5Sig".toList := by decide +kernel
  have hkeys : ((Runs.exec (indexerStep sampleClient) .empty pollBoth).db.walletTxIndex.entries.map
      Prod.fst).map List.head? = [some 52] := by decide +kernel
  have hentry : ¬HasEntry (Runs.exec (indexerStep sampleClient) .empty pollBoth).db
      receiverAddress "5Sig".toList := by
    rintro ⟨ts, hts⟩
    obtain ⟨dir, hdir⟩ := Option.isSome_iff_exists.mp hts
    have hmem := List.mem_map_of_mem (f := List.head?) (List.mem_map_of_mem (f := Prod.fst)
      ((Table.get_eq_some_iff _).mp hdir))
    have hhead : (makeIndexKey receiverAddress ts "5Sig".toList).head? = some 56 := rfl
    rw [hkeys, hhead] at hmem
    exact absurd hmem (by decide)
  have hbefore : ⟨"5Sig".toList, none, some 1771891200⟩ ∈ atOrBefore
      ((Runs.exec (indexerStep sampleClient) .empty pollBoth).history receiverAddress)
      "5Sig".toList := by decide +kernel
  exact ⟨hcheck, hentry, fun h => hentry (h _ _ hcheck _ hbefore)⟩

end RelationalSdk
