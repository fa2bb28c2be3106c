import RelationalSdk.Domain
import RelationalSdk.KeyedTable
import RelationalSdk.Keys
import RelationalSdk.Runs

/-!
# The transaction tables

`transactions` holds the record of each signature, `walletTxIndex` one key per address
and signature whose value is the direction. `upsertTransaction` writes both,
`listByWallet` pages through the index of one address.

The index key puts the inverted timestamp between the address and the signature as
eight raw octets. For every date from 1970 on the first of them is `0xFF`
(`mem_255_invertedBeBytes`), which no UTF-8 text contains, so reading a key back as a
text fails and the scan stops at the first entry it meets (`listByWallet_eq_nil`) :
every address lists as empty. `historyComplete_iff` says exactly when that is the
whole history.
-/

namespace RelationalSdk

open Text KeyedTable

/-- `TRANSACTIONS` and `WALLET_TX_INDEX`. -/
structure TxTables where
  transactions : Table Str StoredTransaction
  walletTxIndex : Table Bytes Str

/-- Both tables as `open` creates them. -/
def TxTables.empty : TxTables :=
  ⟨Table.empty, Table.empty⟩

/-- `to_be_bytes` of a 64-bit word. -/
def toBeBytes (x : BitVec 64) : Bytes :=
  [56, 48, 40, 32, 24, 16, 8, 0].map fun shift => UInt8.ofNat (x.toNat / 2 ^ shift)

/-- `(!timestamp as u64).to_be_bytes()`. -/
def invertedBeBytes (timestamp : Int) : Bytes :=
  toBeBytes (~~~(BitVec.ofInt 64 timestamp))

/-- The index key `{address}|{!timestamp_be}|{signature}`. -/
def makeIndexKey (address : Str) (timestamp : Int) (signature : Str) : Bytes :=
  asBytes address ++ asBytes ['|'] ++ invertedBeBytes timestamp ++ asBytes ['|'] ++
    asBytes signature

/-- One call of `upsert_transaction` : a record, and a direction for each address. -/
structure Upsert where
  tx : StoredTransaction
  directions : List (Str × Str)

/-- Write the record and one index entry per direction. -/
def upsertTransaction (db : TxTables) (call : Upsert) : TxTables where
  transactions := db.transactions.insert call.tx.signature call.tx
  walletTxIndex := call.directions.foldl
    (fun idx d => idx.insert (makeIndexKey d.1 call.tx.createdAt.timestamp call.tx.signature) d.2)
    db.walletTxIndex

/-- The record of a signature. -/
def getTransaction (db : TxTables) (signature : Str) : Option StoredTransaction :=
  db.transactions.get signature

/-- Signed pagination cursors. A cursor that was signed verifies to what was signed. -/
structure CursorSigner where
  signCursor : Str → Str
  verifyCursor : Str → Option Str
  verify_sign : ∀ raw, verifyCursor (signCursor raw) = some raw

section Listing

variable (signer : CursorSigner) (db : TxTables)

/-- The scan of `list_by_wallet` over the remaining index entries, with the results so
far. -/
def listLoop (stem : Str) (limit : Nat) :
    List (Bytes × Str) → List (StoredTransaction × Str) →
      List (StoredTransaction × Str) × Option Str
  | [], results => (results, none)
  | (keyBytes, direction) :: rest, results =>
    let keyStr := (fromUtf8 keyBytes).getD []
    -- Stop once we leave this address's keys.
    if ¬List.IsPrefix stem keyStr then (results, none)
    else if limit ≤ results.length then (results, some (signer.signCursor keyStr))
    else
      match db.transactions.get (rsplitNext '|' keyStr) with
      | some tx => listLoop stem limit rest (results ++ [(tx, direction)])
      | none => listLoop stem limit rest results

/-- One page of an address's transactions, and the cursor of the next page. -/
def listByWallet (address : Str) (cursor : Option Str) (limit : Nat) :
    Except TxDbError (List (StoredTransaction × Str) × Option Str) :=
  let stem := address ++ ['|']
  match cursor with
  | none => .ok (listLoop signer db stem limit (db.walletTxIndex.rangeFrom (asBytes stem)) [])
  | some c =>
    match signer.verifyCursor c with
    | none => .error .invalidCursor
    | some raw =>
      .ok (listLoop signer db stem limit (db.walletTxIndex.rangeFrom (asBytes raw)) [])

/-- Following the cursors from `cursor` until there is none returns these entries. -/
inductive Pages (address : Str) (limit : Nat) :
    Option Str → List (StoredTransaction × Str) → Prop
  | last {cursor entries} (h : listByWallet signer db address cursor limit = .ok (entries, none)) :
      Pages address limit cursor entries
  | next {cursor entries c rest}
      (h : listByWallet signer db address cursor limit = .ok (entries, some c))
      (hrest : Pages address limit (some c) rest) : Pages address limit cursor (entries ++ rest)

end Listing

/-! ## What a history should be -/

/-- The last record upserted for a signature. -/
def lastTx (calls : List Upsert) (signature : Str) : Option StoredTransaction :=
  (calls.filter fun c => c.tx.signature = signature).getLast?.map Upsert.tx

/-- The last direction upserted for an address and a signature. -/
def lastDirection (calls : List Upsert) (address signature : Str) : Option Str :=
  ((calls.filter fun c => c.tx.signature = signature).filterMap fun c =>
    c.directions.lookup address).getLast?

/-- A record with the direction it is indexed under at an address. -/
def IsIndexed (calls : List Upsert) (address : Str) (e : StoredTransaction × Str) : Prop :=
  lastTx calls e.1.signature = some e.1 ∧
    lastDirection calls address e.1.signature = some e.2

/-- Paging through an address returns what is indexed under it, each once, newest first. -/
def HistoryComplete (signer : CursorSigner) (calls : List Upsert) (address : Str)
    (limit : Nat) : Prop :=
  ∃ entries, Pages signer (Runs.exec upsertTransaction .empty calls) address limit none entries ∧
    (∀ e, e ∈ entries ↔ IsIndexed calls address e) ∧
    (entries.map fun e => e.1.signature).Nodup ∧
    entries.Pairwise fun e e' => e'.1.createdAt.timestamp ≤ e.1.createdAt.timestamp

/-- The calls a history is made of : base58 addresses and signatures, one date per
signature, at or after 1970, and distinct addresses in each call. -/
structure AdmissibleUpserts (calls : List Upsert) : Prop where
  base58 : ∀ c ∈ calls, IsBase58 c.tx.signature ∧ ∀ d ∈ c.directions, IsBase58 d.1
  sameDate : ∀ c ∈ calls, ∀ c' ∈ calls, c.tx.signature = c'.tx.signature →
    c.tx.createdAt = c'.tx.createdAt
  since1970 : ∀ c ∈ calls, 0 ≤ c.tx.createdAt.timestamp
  distinct : ∀ c ∈ calls, (c.directions.map Prod.fst).Nodup

/-! ## Every key holds an octet no text has -/

/-- From 1970 on the inverted timestamp starts with `0xFF`. -/
theorem exists_invertedBeBytes_eq (t : DateTime) (h : 0 ≤ t.timestamp) :
    ∃ rest, invertedBeBytes t.timestamp = 255 :: rest := by
  have hmax := t.le_max
  have hx : (~~~(BitVec.ofInt 64 t.timestamp)).toNat = 2 ^ 64 - 1 - t.timestamp.toNat := by
    rw [BitVec.toNat_not, BitVec.toNat_ofInt]
    omega
  have hfirst : UInt8.ofNat ((~~~(BitVec.ofInt 64 t.timestamp)).toNat / 2 ^ 56) = 255 := by
    have : (2 ^ 64 - 1 - t.timestamp.toNat) / 2 ^ 56 = 255 := by omega
    rw [hx, this]
    rfl
  unfold invertedBeBytes toBeBytes
  rw [List.map_cons, hfirst]
  exact ⟨_, rfl⟩

theorem mem_255_invertedBeBytes (t : DateTime) (h : 0 ≤ t.timestamp) :
    255 ∈ invertedBeBytes t.timestamp := by
  obtain ⟨rest, hrest⟩ := exists_invertedBeBytes_eq t h
  rw [hrest]
  exact List.mem_cons_self

/-- No key of the index reads back as a text. -/
def KeysOpaque (db : TxTables) : Prop :=
  ∀ e ∈ db.walletTxIndex.entries, fromUtf8 e.1 = none

theorem fromUtf8_makeIndexKey (address signature : Str) (t : DateTime) (h : 0 ≤ t.timestamp) :
    fromUtf8 (makeIndexKey address t.timestamp signature) = none := by
  apply fromUtf8_eq_none_of_mem_255
  simp [makeIndexKey, mem_255_invertedBeBytes t h]

/-- A call dated from 1970 on keeps every key opaque. -/
theorem KeysOpaque.upsertTransaction {db : TxTables} (hdb : KeysOpaque db) {call : Upsert}
    (h : 0 ≤ call.tx.createdAt.timestamp) : KeysOpaque (upsertTransaction db call) := by
  have key : ∀ (ds : List (Str × Str)) (idx : Table Bytes Str),
      (∀ e ∈ idx.entries, fromUtf8 e.1 = none) →
      ∀ e ∈ (ds.foldl (fun idx d => idx.insert
        (makeIndexKey d.1 call.tx.createdAt.timestamp call.tx.signature) d.2) idx).entries,
        fromUtf8 e.1 = none := by
    intro ds
    induction ds with
    | nil => exact fun _ hidx => hidx
    | cons d ds ih =>
      intro idx hidx
      refine ih _ fun e he => ?_
      rcases idx.mem_insert.mp he with rfl | ⟨-, he⟩
      · exact fromUtf8_makeIndexKey _ _ _ h
      · exact hidx e he
  exact key call.directions db.walletTxIndex hdb

theorem keysOpaque_exec {calls : List Upsert}
    (h : ∀ c ∈ calls, 0 ≤ c.tx.createdAt.timestamp) :
    KeysOpaque (Runs.exec upsertTransaction .empty calls) :=
  Runs.exec_induction (fun _ c hc hdb => hdb.upsertTransaction (h c hc))
    (by simp [KeysOpaque, TxTables.empty])

/-- A scan over opaque keys stops at the first of them. -/
theorem listLoop_eq_nil (signer : CursorSigner) (db : TxTables) (address : Str) (limit : Nat)
    {entries : List (Bytes × Str)} (h : ∀ e ∈ entries, fromUtf8 e.1 = none) :
    listLoop signer db (address ++ ['|']) limit entries [] = ([], none) := by
  cases entries with
  | nil => rfl
  | cons e rest =>
    have hnone := h e List.mem_cons_self
    have hleft : ¬List.IsPrefix (address ++ ['|']) [] := by simp
    simp only [listLoop, hnone, Option.getD_none, hleft, not_false_eq_true, if_true]

/-- With opaque keys the first page of every address is empty and the last. -/
theorem listByWallet_eq_nil (signer : CursorSigner) {db : TxTables} (hdb : KeysOpaque db)
    (address : Str) (limit : Nat) :
    listByWallet signer db address none limit = .ok ([], none) :=
  congrArg Except.ok (listLoop_eq_nil signer db address limit fun e he =>
    hdb e (db.walletTxIndex.mem_rangeFrom.mp he).1)

theorem pages_eq_nil (signer : CursorSigner) {db : TxTables} (hdb : KeysOpaque db)
    {address : Str} {limit : Nat} {entries : List (StoredTransaction × Str)}
    (h : Pages signer db address limit none entries) : entries = [] := by
  cases h with
  | last h =>
    rw [listByWallet_eq_nil signer hdb] at h
    cases h
    rfl
  | next h _ =>
    rw [listByWallet_eq_nil signer hdb] at h
    cases h

/-! ## When a history is complete -/

theorem isSome_lookup_iff {directions : List (Str × Str)} {address : Str} :
    (directions.lookup address).isSome ↔ address ∈ directions.map Prod.fst := by
  rw [List.lookup_isSome_iff, List.mem_map]
  exact exists_congr fun d => and_congr_right fun _ => by rw [beq_iff_eq, eq_comm]

/-- A call that names an address leaves something indexed under it. -/
theorem exists_isIndexed {calls : List Upsert} {address : Str} {c : Upsert} (hc : c ∈ calls)
    (ha : address ∈ c.directions.map Prod.fst) : ∃ e, IsIndexed calls address e := by
  have hfilter : c ∈ calls.filter fun c' => c'.tx.signature = c.tx.signature := by simp [hc]
  obtain ⟨dir, hdir⟩ := Option.isSome_iff_exists.mp (isSome_lookup_iff.mpr ha)
  have hdirs : dir ∈ (calls.filter fun c' => c'.tx.signature = c.tx.signature).filterMap
      fun c' => c'.directions.lookup address :=
    List.mem_filterMap.mpr ⟨c, hfilter, hdir⟩
  obtain ⟨last, hlast⟩ := Option.isSome_iff_exists.mp
    (List.getLast?_isSome.mpr (List.ne_nil_of_mem hfilter))
  obtain ⟨d, hd⟩ := Option.isSome_iff_exists.mp
    (List.getLast?_isSome.mpr (List.ne_nil_of_mem hdirs))
  have hsig : last.tx.signature = c.tx.signature := by
    simpa using (List.mem_filter.mp (List.mem_of_getLast? hlast)).2
  refine ⟨(last.tx, d), ?_, ?_⟩
  · simp only [lastTx, hsig, hlast, Option.map_some]
  · simp only [lastDirection, hsig, hd]

/-- Something indexed under an address comes from a call that names it. -/
theorem exists_call_of_isIndexed {calls : List Upsert} {address : Str}
    {e : StoredTransaction × Str} (h : IsIndexed calls address e) :
    ∃ c ∈ calls, address ∈ c.directions.map Prod.fst := by
  obtain ⟨c, hc, hdir⟩ := List.mem_filterMap.mp (List.mem_of_getLast? h.2)
  exact ⟨c, (List.mem_filter.mp hc).1, isSome_lookup_iff.mp (by simp [hdir])⟩

/-- An address some call names has no complete history. -/
theorem not_historyComplete {signer : CursorSigner} {calls : List Upsert} {address : Str}
    {limit : Nat} (h : AdmissibleUpserts calls) {c : Upsert} (hc : c ∈ calls)
    (ha : address ∈ c.directions.map Prod.fst) :
    ¬HistoryComplete signer calls address limit := by
  rintro ⟨entries, hpages, hmem, -, -⟩
  obtain ⟨e, he⟩ := exists_isIndexed hc ha
  have hnil := pages_eq_nil signer (keysOpaque_exec h.since1970) hpages
  have := (hmem e).mpr he
  simp [hnil] at this

/-- Paging through an address returns its whole history, in order, exactly if no call
ever indexed a transaction under it. -/
theorem historyComplete_iff (signer : CursorSigner) (calls : List Upsert)
    (h : AdmissibleUpserts calls) (address : Str) (_haddress : IsBase58 address) (limit : Nat)
    (_hlimit : 1 ≤ limit) :
    HistoryComplete signer calls address limit ↔
      ∀ c ∈ calls, address ∉ c.directions.map Prod.fst := by
  constructor
  · intro hcomplete c hc ha
    exact not_historyComplete h hc ha hcomplete
  · intro hnone
    have hpage := listByWallet_eq_nil signer (keysOpaque_exec h.since1970) address limit
    refine ⟨[], .last hpage, fun e => ?_, List.nodup_nil, List.Pairwise.nil⟩
    constructor
    · exact fun he => absurd he List.not_mem_nil
    · intro he
      obtain ⟨c, hc, ha⟩ := exists_call_of_isIndexed he
      exact absurd ha (hnone c hc)

/-- Cursors signed by leaving them as they are. -/
def plainSigner : CursorSigner :=
  ⟨id, some, fun _ => rfl⟩

/-- One SOL sent from one address to another. -/
def sampleUpsert : Upsert where
  tx :=
    { signature := "5Sig".toList, walletId := "w1".toList, counterpartyWalletId := none
      fromAddr := senderAddress, toAddr := receiverAddress, amount := "1.0".toList
      amountLamports := some 1000000000, token := .native, network := "devnet".toList
      status := .confirmed, slot := some 7, feeLamports := some 5000
      explorerUrl := "".toList, createdAt := sampleDate, updatedAt := sampleDate }
  directions := [(senderAddress, "sent".toList), (receiverAddress, "received".toList)]

theorem admissible_sampleUpsert : AdmissibleUpserts [sampleUpsert] where
  base58 := by decide
  sameDate := by simp
  since1970 := by decide
  distinct := by decide

/-- The sender's transaction is missing from the sender's history. -/
theorem sampleUpsert_not_historyComplete :
    AdmissibleUpserts [sampleUpsert] ∧ IsBase58 senderAddress ∧
      ¬HistoryComplete plainSigner [sampleUpsert] senderAddress 10 :=
  ⟨admissible_sampleUpsert, by decide,
    not_historyComplete admissible_sampleUpsert List.mem_cons_self (by decide)⟩

/-- An address no call names has its empty history. -/
theorem historyComplete_other :
    HistoryComplete plainSigner [sampleUpsert] anotherAddress 10 :=
  (historyComplete_iff plainSigner [sampleUpsert] admissible_sampleUpsert anotherAddress
    (by decide) 10 (by decide)).mpr (by decide)

end RelationalSdk
