import RelationalSdk.TransactionHandlers

/-!
# First pages from the cache

A listing without a cursor is answered from the cache if there is a page for the address, cut
to the limit of the request and without a cursor, whatever the limit was that the page was
read with and whatever else has been stored since.

`AnsweredAlike` : such an answer is what the table lists at that moment. It is, throughout every
run in which each listing without a cursor asks for as many transactions as are listed, and
whatever changes what is listed for an address is stored by a step that drops the page of the
address, or finds none (`KeepsPages`, `answeredAlike_of_keepsPages`). The invariant is that a page
holds all that is listed for its address (`PagesFresh`).

What is listed is the part of the index before the first key that does not read back as a text of
the address (`shown`). A key from 1970 on does not, and it comes behind those that do, so that only
what is dated before 1970 counts. With such dates a short page stays in the cache
(`not_answeredAlike_before1970`).
-/

namespace RelationalSdk

open Text KeyedTable Runs

/-! ## What is listed -/

/-- The key reads back as a text that starts with the stem of the address. -/
def isKeyOf (address : Str) (key : Bytes) : Bool :=
  (address ++ ['|']).isPrefixOf ((fromUtf8 key).getD [])

/-- The signature that a key ends in, as the listing reads it. -/
def keySignature (key : Bytes) : Str :=
  rsplitNext '|' ((fromUtf8 key).getD [])

/-- The part of the index that a listing of the address gets to. -/
def shown (index : Table Bytes Str) (address : Str) : List (Bytes × Str) :=
  (index.rangeFrom (asBytes (address ++ ['|']))).takeWhile fun e => isKeyOf address e.1

/-- All that is listed for the address. -/
def listedTxs (db : TxTables) (address : Str) : List (StoredTransaction × Str) :=
  (shown db.walletTxIndex address).filterMap fun e =>
    (db.transactions.get (keySignature e.1)).map fun tx => (tx, e.2)

section Listing

variable (signer : CursorSigner) (db : TxTables) (address : Str) {limit : Nat}

theorem listLoop_eq (entries : List (Bytes × Str)) (results : List (StoredTransaction × Str))
    (h : results.length + (entries.takeWhile fun e => isKeyOf address e.1).length ≤ limit) :
    listLoop signer db (address ++ ['|']) limit entries results =
      (results ++ (entries.takeWhile fun e => isKeyOf address e.1).filterMap fun e =>
        (db.transactions.get (keySignature e.1)).map fun tx => (tx, e.2), none) := by
  induction entries generalizing results with
  | nil => simp [listLoop]
  | cons e rest ih =>
    obtain ⟨key, direction⟩ := e
    rw [List.takeWhile_cons] at h ⊢
    rw [listLoop]
    by_cases hkey : isKeyOf address key = true
    · rw [if_pos hkey, List.length_cons] at h
      rw [if_pos hkey, if_neg (not_not.mpr (List.isPrefixOf_iff_prefix.mp hkey)),
        if_neg (by omega), List.filterMap_cons]
      cases hget : db.transactions.get (rsplitNext '|' ((fromUtf8 key).getD [])) with
      | none =>
        simp only [keySignature, hget, Option.map_none]
        exact ih results (by omega)
      | some tx =>
        have hlength : (results ++ [(tx, direction)]).length = results.length + 1 :=
          List.length_append
        simp only [keySignature, hget, Option.map_some]
        exact (ih _ (by omega)).trans (by simp [keySignature])
    · rw [if_neg hkey, if_pos fun hprefix => hkey (List.isPrefixOf_iff_prefix.mpr hprefix)]
      simp

variable {db address}

/-- A page that is long enough holds all of it, and no cursor comes with it. -/
theorem listByWallet_eq_listedTxs (h : (shown db.walletTxIndex address).length ≤ limit) :
    listByWallet signer db address none limit = .ok (listedTxs db address, none) :=
  congrArg Except.ok (listLoop_eq signer db address
    (db.walletTxIndex.rangeFrom (asBytes (address ++ ['|']))) [] ((Nat.zero_add _).trans_le h))

theorem exists_text_of_isKeyOf {key : Bytes} (h : isKeyOf address key = true) :
    ∃ rest, fromUtf8 key = some (address ++ '|' :: rest) := by
  obtain ⟨rest, hrest⟩ := List.isPrefixOf_iff_prefix.mp h
  cases hkey : fromUtf8 key with
  | none =>
    rw [hkey] at hrest
    simp at hrest
  | some s =>
    rw [hkey, Option.getD_some, List.append_assoc, List.singleton_append] at hrest
    exact ⟨rest, by rw [hrest]⟩

end Listing

/-! ## What a write changes -/

section Writes

variable {a b signature : Str} {t : DateTime}

/-- A key of another address, or from 1970 on, is not listed. -/
theorem isKeyOf_makeIndexKey (ha : '|' ∉ a) (hb : '|' ∉ b) (hdate : b = a → 0 ≤ t.timestamp) :
    isKeyOf a (makeIndexKey b t.timestamp signature) = false := by
  rw [Bool.eq_false_iff]
  intro h
  obtain ⟨rest, htext⟩ := exists_text_of_isKeyOf h
  by_cases hba : b = a
  · rw [fromUtf8_makeIndexKey b signature t (hdate hba)] at htext
    cases htext
  · have hkey := fromUtf8_eq_some_iff.mp htext
    simp only [makeIndexKey, asBytes_append, asBytes_cons, List.append_assoc] at hkey
    exact hba (asBytes_append_cons_inj hb ha hkey)

/-- It comes behind those that are. -/
theorem lt_makeIndexKey (ha : '|' ∉ a) (hb : '|' ∉ b) (hdate : b = a → 0 ≤ t.timestamp)
    (hstart : asBytes (a ++ ['|']) ≤ makeIndexKey b t.timestamp signature) {key : Bytes}
    (hkey : isKeyOf a key = true) : key < makeIndexKey b t.timestamp signature := by
  obtain ⟨rest, htext⟩ := exists_text_of_isKeyOf hkey
  have hsplit : key = asBytes (a ++ ['|']) ++ asBytes rest := by
    rw [fromUtf8_eq_some_iff.mp htext, ← asBytes_append, List.append_assoc, List.singleton_append]
  by_cases hba : b = a
  · obtain ⟨ts, hts⟩ := exists_invertedBeBytes_eq t (hdate hba)
    rw [hsplit, makeIndexKey, hts, hba, ← asBytes_append a ['|'], List.append_assoc,
      List.append_assoc, append_lt_append_left_iff]
    cases hbytes : asBytes rest with
    | nil => exact List.nil_lt_cons ..
    | cons x bytes =>
      -- No text holds the octet 255.
      have hx : x ≠ 255 := by
        rintro rfl
        have hnone := fromUtf8_eq_none_of_mem_255 (b := asBytes rest) (hbytes ▸ List.mem_cons_self)
        rw [fromUtf8_asBytes] at hnone
        cases hnone
      rw [List.cons_append, List.cons_lt_cons_iff]
      refine Or.inl ?_
      rw [UInt8.lt_iff_toNat_lt]
      have hne : x.toNat ≠ 255 := fun h => hx (UInt8.toNat_inj.mp h)
      have hlt := x.toNat_lt
      change x.toNat < 255
      omega
  · by_contra hle
    obtain ⟨rest', hprefix⟩ := isPrefix_of_le_of_le hstart (hsplit ▸ not_lt.mp hle)
    simp only [makeIndexKey, asBytes_append, List.append_assoc] at hprefix
    exact hba (asBytes_append_cons_inj ha hb hprefix).symm

theorem shown_insert (ha : '|' ∉ a) (hb : '|' ∉ b) (hdate : b = a → 0 ≤ t.timestamp)
    (index : Table Bytes Str) (direction : Str) :
    shown (index.insert (makeIndexKey b t.timestamp signature) direction) a = shown index a := by
  refine index.takeWhile_rangeFrom_insert direction (isKeyOf_makeIndexKey ha hb hdate) ?_
  intro hstart e he
  exact lt_makeIndexKey ha hb hdate hstart
    (List.mem_takeWhile_imp (p := fun e : Bytes × Str => isKeyOf a e.1) he)

/-- What a call changes for an address : nothing if it names only others or is dated from 1970
on. -/
theorem shown_upsertTransaction (ha : '|' ∉ a) {call : Upsert}
    (hcall : ∀ d ∈ call.directions,
      '|' ∉ d.1 ∧ (d.1 = a → 0 ≤ call.tx.createdAt.timestamp)) (db : TxTables) :
    shown (upsertTransaction db call).walletTxIndex a = shown db.walletTxIndex a := by
  unfold upsertTransaction
  dsimp only
  refine List.foldlRecOn (motive := fun index => shown index a = shown db.walletTxIndex a) _ _ rfl
    fun index hindex d hd => ?_
  rw [← hindex]
  exact shown_insert ha (hcall d hd).1 (hcall d hd).2 index d.2

theorem listedTxs_upsertTransaction (ha : '|' ∉ a) {call : Upsert}
    (hcall : ∀ d ∈ call.directions,
      '|' ∉ d.1 ∧ (d.1 = a → 0 ≤ call.tx.createdAt.timestamp)) {db : TxTables}
    (hsig : ∀ e ∈ shown db.walletTxIndex a, keySignature e.1 ≠ call.tx.signature) :
    listedTxs (upsertTransaction db call) a = listedTxs db a := by
  unfold listedTxs
  rw [shown_upsertTransaction ha hcall]
  refine List.filterMap_congr fun e he => ?_
  rw [upsertTransaction, Table.get_insert_of_ne _ _ (hsig e he)]

/-! ## Records of what is listed -/

/-- A key that reads back ends in its signature. -/
theorem keySignature_makeIndexKey (hsig : '|' ∉ signature)
    (h : (fromUtf8 (makeIndexKey b t.timestamp signature)).isSome) :
    keySignature (makeIndexKey b t.timestamp signature) = signature := by
  obtain ⟨s, hs⟩ := Option.isSome_iff_exists.mp h
  have hbytes : asBytes s = (asBytes b ++ asBytes ['|'] ++ invertedBeBytes t.timestamp) ++
      124 :: asBytes signature :=
    (fromUtf8_eq_some_iff.mp hs).symm.trans (List.append_assoc ..)
  have hnot : ∀ {q : Str}, '|' ∉ q → 124 ∉ asBytes q := by
    intro q hq hmem
    obtain ⟨x, hx, hmem⟩ := List.mem_flatMap.mp hmem
    have hbar : (124 : UInt8) = 124 ↔ x = '|' := eq_iff_of_mem_utf8EncodeChar hmem rfl (by decide)
    exact hq (hbar.mp rfl ▸ hx)
  cases hsplit : rsplitOnce '|' s with
  | none =>
    refine absurd ?_ (hnot (rsplitOnce_eq_none_iff.mp hsplit))
    rw [hbytes]
    exact List.mem_append_right _ List.mem_cons_self
  | some parts =>
    obtain ⟨hs', hy⟩ := rsplitOnce_eq_some_iff.mp hsplit
    rw [hs', asBytes_append, asBytes_cons] at hbytes
    have hlast := (append_cons_inj_right (hnot hy) (hnot hsig) hbytes).2
    rw [keySignature, hs, Option.getD_some, hs', rsplitNext_append_cons hy]
    exact asBytes_inj.mp hlast

/-- Every key that reads back ends in the signature of a record. -/
def Recorded (db : TxTables) : Prop :=
  ∀ e ∈ db.walletTxIndex.entries, (fromUtf8 e.1).isSome →
    (getTransaction db (keySignature e.1)).isSome

theorem isSome_getTransaction_upsertTransaction {db : TxTables} {call : Upsert} {s : Str} :
    (getTransaction (upsertTransaction db call) s).isSome ↔
      s = call.tx.signature ∨ (getTransaction db s).isSome := by
  rw [getTransaction_upsertTransaction]
  split_ifs with h
  · simp [h]
  · simp [h]

theorem Recorded.upsertTransaction {db : TxTables} (h : Recorded db) {call : Upsert}
    (hsig : '|' ∉ call.tx.signature) : Recorded (upsertTransaction db call) := by
  intro e he hread
  rw [isSome_getTransaction_upsertTransaction]
  have hget : ((RelationalSdk.upsertTransaction db call).walletTxIndex.get e.1).isSome :=
    Option.isSome_iff_exists.mpr ⟨e.2, (Table.get_eq_some_iff _).mpr he⟩
  rcases (isSome_get_upsertTransaction db call e.1).mp hget with ⟨d, -, hkey⟩ | hold
  · rw [hkey] at hread ⊢
    exact Or.inl (keySignature_makeIndexKey hsig hread)
  · obtain ⟨direction, hold⟩ := Option.isSome_iff_exists.mp hold
    exact Or.inr (h (e.1, direction) ((Table.get_eq_some_iff _).mp hold) hread)

/-- What is listed has a record. -/
theorem Recorded.of_mem_shown {db : TxTables} (h : Recorded db) {e : Bytes × Str}
    (he : e ∈ shown db.walletTxIndex a) : (getTransaction db (keySignature e.1)).isSome := by
  obtain ⟨hmem, hall⟩ := (Table.mem_takeWhile_rangeFrom _).mp he
  obtain ⟨rest, hrest⟩ := exists_text_of_isKeyOf (hall e hmem le_rfl)
  exact h e ((Table.mem_rangeFrom _).mp hmem).1 (hrest ▸ rfl)

end Writes

/-! ## Runs that keep the pages -/

section Agreement

variable (c : SolanaClient) (signer : CursorSigner) (resolve : Str → Str)

/-- There is a page for the address. -/
def HasPage (w : TxWorld) (address : Str) : Prop :=
  address ∈ w.cache.entries.map Prod.fst

/-- The date under which a poll stores a transaction. -/
def foundAt (now : DateTime) (info : SignatureInfo) : DateTime :=
  (info.blockTime.bind fromTimestamp).getD now

/-- A poll of an address that has a page gets to its end, where the page is dropped, or stores
only what is dated from 1970 on. -/
def PollsThrough (w : TxWorld) (address : Str) (env : PollEnv) : Prop :=
  HasPage w address → MovesCheckpoint w.indexer address env ∨
    ∀ info ∈ polledInfos w.indexer address env, Stores env w.db info.signature →
      0 ≤ (foundAt env.now info).timestamp

/-- A transfer of another wallet leaves what is listed for an address as it is : it is not
received there, or is dated from 1970 on, and its signature is not listed yet. -/
def LeavesListed (w : TxWorld) (address signature : Str) (req : SendRequest) (io : SendIo) : Prop :=
  (address = req.recipient → 0 ≤ io.now.timestamp) ∧
    ∀ e ∈ shown w.db.walletTxIndex address, keySignature e.1 ≠ signature

/-- The tables that a listing reads : those after the poll that it makes, if it makes one. -/
def TxOp.tablesRead (w : TxWorld) (op : TxOp) : TxTables :=
  match op.polls resolve w with
  | none => w.db
  | some (address, walletId, env) => (pollAddress c w.indexer address walletId env).db

/-- A transfer that is stored leaves what is listed for the addresses with a page as it is, the
sender's apart. A listing without a cursor asks for all that is listed. The other polls run to
their end or leave what is listed as it is. -/
def KeepsPages (w : TxWorld) : TxOp → Prop
  | .send sub walletId req io =>
    ∀ checked ∈ (sendChecks resolve w sub walletId req io).toOption, io.store →
      ∀ address ∈ w.cache.entries.map Prod.fst, address ≠ checked.1.publicAddress →
        LeavesListed w address checked.2.2 req io
  | .list sub walletId query env askedAt putAt =>
    if query.cursor.isNone then
      ∀ wallet ∈ (activeWallet resolve w sub walletId).toOption,
        (shown
          (TxOp.tablesRead c resolve w (.list sub walletId query env askedAt putAt)).walletTxIndex
          wallet.publicAddress).length ≤ query.pageSize
    else
      ∀ poll ∈ TxOp.polls resolve w (.list sub walletId query env askedAt putAt),
        PollsThrough w poll.1 poll.2.2
  | op => ∀ poll ∈ op.polls resolve w, PollsThrough w poll.1 poll.2.2

instance (env : PollEnv) (db : TxTables) (signature : Str) : Decidable (Stores env db signature) :=
  inferInstanceAs (Decidable (_ ∧ _))

instance (i : IndexerWorld) (address : Str) (env : PollEnv) :
    Decidable (MovesCheckpoint i address env) :=
  inferInstanceAs (Decidable (_ ∧ _))

instance (w : TxWorld) (address : Str) (env : PollEnv) : Decidable (PollsThrough w address env) :=
  inferInstanceAs (Decidable (_ ∈ _ → _ ∨ ∀ _ ∈ _, _ → _))

instance (w : TxWorld) (address signature : Str) (req : SendRequest) (io : SendIo) :
    Decidable (LeavesListed w address signature req io) :=
  inferInstanceAs (Decidable ((_ → _) ∧ ∀ _ ∈ _, _))

instance (w : TxWorld) : ∀ op, Decidable (KeepsPages c resolve w op)
  | .send _ _ _ _ => inferInstanceAs (Decidable (∀ _ ∈ _, _ → ∀ _ ∈ _, _ → _))
  | .list _ _ query _ _ _ => inferInstanceAs (Decidable (if query.cursor.isNone then _ else _))
  | .poll _ _ _ | .status _ _ _ _ | .grow _ _ => inferInstanceAs (Decidable (∀ _ ∈ _, _))

/-- A listing without a cursor that is answered from the cache is answered with what the table
lists. -/
def AnsweredAlike (w : TxWorld) : TxOp → Prop
  | .list sub walletId query env askedAt putAt =>
    query.cursor = none → ∀ wallet cached, activeWallet resolve w sub walletId = .ok wallet →
      (w.cache.getFirstPage wallet.publicAddress askedAt).2 = some cached →
        ∃ page, (listTransactions c signer resolve w sub walletId query env askedAt putAt).1 =
            .ok page ∧
          listByWallet signer w.db wallet.publicAddress none query.pageSize = .ok page
  | _ => True

/-- The signatures that a step brings in are base58. -/
def TxOp.Base58 : TxOp → Prop
  | .send _ _ _ io => ∀ signature ∈ io.sent.toOption, IsBase58 signature
  | .grow _ info => IsBase58 info.signature
  | .poll _ _ _ | .list _ _ _ _ _ _ | .status _ _ _ _ => True

instance : ∀ op : TxOp, Decidable op.Base58
  | .send _ _ _ io => inferInstanceAs (Decidable (∀ s ∈ io.sent.toOption, IsBase58 s))
  | .grow _ info => inferInstanceAs (Decidable (IsBase58 info.signature))
  | .poll _ _ _ | .list _ _ _ _ _ _ | .status _ _ _ _ => inferInstanceAs (Decidable True)

/-- Every page holds all that is listed for its address. -/
structure PagesFresh (w : TxWorld) : Prop where
  addresses : ∀ id wallet, w.store.metas.get id = some wallet → IsBase58 wallet.publicAddress
  signatures : ∀ address, ∀ info ∈ w.history address, IsBase58 info.signature
  recorded : Recorded w.db
  pages : ∀ e ∈ w.cache.entries, '|' ∉ e.1 ∧ e.2.txs = listedTxs w.db e.1

end Agreement

/-! ## The cache -/

namespace TxCache

variable {cache : TxCache}

theorem mem_pop {address : Str} {e : Str × TxCacheEntry} :
    e ∈ (cache.pop address).entries ↔ e ∈ cache.entries ∧ e.1 ≠ address := by
  rw [pop, List.mem_filter, decide_eq_true_eq]

/-- A lookup adds nothing to the cache, what it finds is a page of the address, and if it finds
nothing there is none left. -/
theorem getFirstPage_cases (cache : TxCache) (address : Str) (now : Nat) :
    (∀ e ∈ (cache.getFirstPage address now).1.entries, e ∈ cache.entries) ∧
      ((∃ entry, (address, entry) ∈ cache.entries ∧
          (cache.getFirstPage address now).2 = some entry.txs) ∨
        (cache.getFirstPage address now).2 = none ∧
          ∀ e ∈ (cache.getFirstPage address now).1.entries, e.1 ≠ address) := by
  unfold getFirstPage
  cases hlookup : cache.entries.lookup address with
  | none =>
    refine ⟨fun _ h => h, Or.inr ⟨rfl, fun e he heq => ?_⟩⟩
    exact absurd (List.lookup_eq_none_iff.mp hlookup e he) (by simp [heq])
  | some entry =>
    have hmem : (address, entry) ∈ cache.entries := by
      obtain ⟨l₁, l₂, heq, -⟩ := List.lookup_eq_some_iff.mp hlookup
      rw [heq]
      exact List.mem_append_right l₁ List.mem_cons_self
    dsimp only
    split_ifs
    · exact ⟨fun e he => (mem_pop.mp he).1, Or.inr ⟨rfl, fun e he => (mem_pop.mp he).2⟩⟩
    · refine ⟨fun e he => ?_, Or.inl ⟨entry, hmem, rfl⟩⟩
      rcases List.mem_cons.mp he with rfl | he
      · exact hmem
      · exact (mem_pop.mp he).1

theorem mem_putFirstPage {address : Str} {txs : List (StoredTransaction × Str)} {now : Nat}
    {e : Str × TxCacheEntry} (h : e ∈ (cache.putFirstPage address txs now).entries) :
    e = (address, ⟨txs, now⟩) ∨ e ∈ cache.entries := by
  rcases List.mem_cons.mp (List.mem_of_mem_take h) with rfl | h
  · exact Or.inl rfl
  · exact Or.inr (mem_pop.mp h).1

end TxCache

/-! ## Polls -/

section Polls

variable {c : SolanaClient} {w : TxWorld} {address walletId : Str} {env : PollEnv}

theorem pollEnd_eq_polled_iff {i : IndexerWorld} :
    pollEnd c i address walletId env = .polled ↔ MovesCheckpoint i address env := by
  unfold pollEnd MovesCheckpoint
  split_ifs with hearly
  · refine iff_of_false not_false ?_
    rintro ⟨hpub, hsigs, -⟩
    rw [← Option.not_isSome, hpub] at hearly
    simp [hsigs] at hearly
  · obtain ⟨hpub, hsigs⟩ : (pubkeyFromStr address).isSome = true ∧ env.sigsOk = true := by
      simpa [not_or, Option.isSome_iff_ne_none] using hearly
    split
    · rename_i hpage
      simp [hpage]
    · rename_i page hpage
      have hne : pollPage i address ≠ [] := hpage
      have hfinished := pollLoop_finished_iff c i.addressWallet address walletId env
        (pollPage i address) i.db
      split_ifs with hend
      · exact iff_of_true rfl ⟨hpub, hsigs, hne, hfinished.mp hend.1, hend.2⟩
      · refine iff_of_false not_false ?_
        rintro ⟨-, -, -, hread, hcheck⟩
        exact hend ⟨hfinished.mpr hread, hcheck⟩

/-- Tables that a poll gets to : what is stored is not listed for another address, and neither is
what is stored with a date from 1970 on. -/
structure PolledTo (w : TxWorld) (address : Str) (env : PollEnv) (db : TxTables) : Prop where
  recorded : Recorded db
  kept : ∀ signature, getTransaction db signature = none → getTransaction w.db signature = none
  listed_eq : ∀ a, '|' ∉ a →
    (a = address → ∀ info ∈ polledInfos w.indexer address env, Stores env w.db info.signature →
      0 ≤ (foundAt env.now info).timestamp) → listedTxs db a = listedTxs w.db a

theorem PagesFresh.pollAddress (h : PagesFresh w) :
    PolledTo w address env (pollAddress c w.indexer address walletId env).db := by
  refine pollAddress_induction ?_ ⟨h.recorded, fun _ hnone => hnone, fun _ _ _ => rfl⟩
  rintro hpub db ⟨hrec, hnone, hlisted⟩ info hinfo hstores detail
  have hsig : '|' ∉ info.signature :=
    (h.signatures address info ((pollPage_isPrefix w.indexer address).subset
      (mem_history_of_mem_polledInfos hinfo).2)).not_mem_bar
  refine ⟨hrec.upsertTransaction hsig, fun signature hget => ?_, fun a ha hdate => ?_⟩
  · rw [getTransaction_upsertTransaction] at hget
    split_ifs at hget
    exact hnone signature hget
  · rw [← hlisted a ha hdate]
    refine listedTxs_upsertTransaction ha (fun d hd => ?_) fun e he heq => ?_
    · obtain rfl := List.mem_singleton.mp hd
      refine ⟨(isBase58_of_pubkeyFromStr hpub).not_mem_bar, fun hda => ?_⟩
      exact hdate hda.symm info hinfo ⟨hnone _ hstores.1, hstores.2⟩
    · -- a listed key has a record, and what is stored had none
      have hsome := hrec.of_mem_shown he
      rw [heq, signature_pollUpsert, hstores.1] at hsome
      cases hsome

theorem PagesFresh.pollCached (h : PagesFresh w) (hpoll : PollsThrough w address env) :
    PagesFresh (pollCached c w address walletId env) := by
  have hpolled : PolledTo w address env
      (RelationalSdk.pollAddress c w.indexer address walletId env).db := h.pollAddress
  refine ⟨?_, ?_, ?_, fun e he => ?_⟩
  · rw [pollCached_store]
    exact h.addresses
  · rw [pollCached_history]
    exact h.signatures
  · rw [pollCached_db]
    exact hpolled.recorded
  · rw [pollCached_db]
    have hmem : e ∈ w.cache.entries ∧ (e.1 = address → ¬MovesCheckpoint w.indexer address env) := by
      unfold RelationalSdk.pollCached at he
      cases hend : pollEnd c w.indexer address walletId env with
      | polled =>
        rw [hend] at he
        obtain ⟨he, hne⟩ := TxCache.mem_pop.mp he
        exact ⟨he, fun heq => absurd heq hne⟩
      | failed =>
        rw [hend] at he
        exact ⟨he, fun _ hmoves => by simp [pollEnd_eq_polled_iff.mpr hmoves] at hend⟩
      | nothing =>
        rw [hend] at he
        exact ⟨he, fun _ hmoves => by simp [pollEnd_eq_polled_iff.mpr hmoves] at hend⟩
    obtain ⟨he, hnot⟩ := hmem
    obtain ⟨hbar, htxs⟩ := h.pages e he
    refine ⟨hbar, ?_⟩
    rw [hpolled.listed_eq e.1 hbar, htxs]
    intro heq
    exact (hpoll (heq ▸ List.mem_map_of_mem he)).resolve_left (hnot heq)

theorem PagesFresh.syncAddressOnce (h : PagesFresh w) {env : SyncEnv}
    (hpoll : coolingDown w address env = false → PollsThrough w address env.poll) :
    PagesFresh (syncAddressOnce c w address walletId env) := by
  unfold RelationalSdk.syncAddressOnce
  dsimp only
  split_ifs with hcooling
  · exact h
  · exact h.pollCached (hpoll (Bool.eq_false_iff.mpr hcooling))
  · have hpolled : PagesFresh (RelationalSdk.pollCached c w address walletId env.poll) :=
      h.pollCached (hpoll (Bool.eq_false_iff.mpr hcooling))
    exact ⟨hpolled.addresses, hpolled.signatures, hpolled.recorded, hpolled.pages⟩

end Polls

/-! ## Steps -/

section Steps

variable {c : SolanaClient} {signer : CursorSigner} {resolve : Str → Str} {w : TxWorld}
  {sub walletId : Str} {query : ListQuery} {env : SyncEnv} {askedAt putAt : Nat}
  {wallet : WalletMetadata}

theorem PagesFresh.lookup (h : PagesFresh w) (address : Str) (askedAt : Nat) :
    PagesFresh { w with cache := (w.cache.getFirstPage address askedAt).1 } :=
  ⟨h.addresses, h.signatures, h.recorded,
    fun e he => h.pages e ((w.cache.getFirstPage_cases address askedAt).1 e he)⟩

theorem PagesFresh.listFresh (h : PagesFresh w) (haddress : '|' ∉ wallet.publicAddress)
    (hpoll : coolingDown w wallet.publicAddress env = false →
      PollsThrough w wallet.publicAddress env.poll)
    (hlimit : query.cursor = none →
      (shown (listFresh c signer w wallet walletId query env putAt).2.db.walletTxIndex
        wallet.publicAddress).length ≤ query.pageSize) :
    PagesFresh (listFresh c signer w wallet walletId query env putAt).2 := by
  have hsync : PagesFresh (RelationalSdk.syncAddressOnce c w wallet.publicAddress walletId env) :=
    h.syncAddressOnce hpoll
  rw [(listFresh_cases w wallet walletId query env putAt).2] at hlimit
  unfold RelationalSdk.listFresh
  dsimp only
  split
  · exact hsync
  · rename_i page hpage
    split_ifs with hcursor
    · have hcursor := Option.isNone_iff_eq_none.mp hcursor
      rw [hcursor, listByWallet_eq_listedTxs signer (hlimit hcursor)] at hpage
      refine ⟨hsync.addresses, hsync.signatures, hsync.recorded, fun e he => ?_⟩
      rcases TxCache.mem_putFirstPage he with rfl | he
      · exact ⟨haddress, by rw [← Except.ok.inj hpage]⟩
      · exact hsync.pages e he
    · exact hsync

theorem PagesFresh.listTransactions (h : PagesFresh w)
    (hop : KeepsPages c resolve w (.list sub walletId query env askedAt putAt)) :
    PagesFresh (txStep c signer resolve w (.list sub walletId query env askedAt putAt)) := by
  have hdb : (txStep c signer resolve w (.list sub walletId query env askedAt putAt)).db =
      TxOp.tablesRead c resolve w (.list sub walletId query env askedAt putAt) :=
    txStep_db w (by simp)
  rw [KeepsPages, ← hdb] at hop
  rw [txStep, RelationalSdk.listTransactions] at hop ⊢
  cases hwallet : activeWallet resolve w sub walletId with
  | error e => exact h
  | ok wallet =>
    have haddress : '|' ∉ wallet.publicAddress :=
      (h.addresses _ _ (activeWallet_eq_ok hwallet)).not_mem_bar
    simp only [hwallet] at hop ⊢
    split_ifs at hop ⊢ with hcursor
    · have hlookup := h.lookup wallet.publicAddress askedAt
      have hcases := (w.cache.getFirstPage_cases wallet.publicAddress askedAt).2
      generalize w.cache.getFirstPage wallet.publicAddress askedAt = found at hlookup hcases hop ⊢
      obtain ⟨cache, _ | cached⟩ := found
      · refine hlookup.listFresh haddress (fun _ hpage => ?_) fun _ => hop wallet rfl
        -- nothing is left of a page that is too old
        obtain ⟨e, he, heq⟩ := List.mem_map.mp hpage
        rcases hcases with ⟨entry, -, hsome⟩ | ⟨-, hnone⟩
        · cases hsome
        · exact absurd heq (hnone e he)
      · exact hlookup
    · refine h.listFresh haddress (fun hcooling => ?_) fun hnone => by simp [hnone] at hcursor
      refine hop (wallet.publicAddress, walletId, env.poll) ?_
      simp [TxOp.polls, hwallet, hcooling, hcursor, Except.toOption]

theorem PagesFresh.sendTransaction (h : PagesFresh w) {req : SendRequest} {io : SendIo}
    (hop : KeepsPages c resolve w (.send sub walletId req io))
    (hbase : (TxOp.send sub walletId req io).Base58) :
    PagesFresh (sendTransaction c resolve w sub walletId req io).2 := by
  rw [RelationalSdk.sendTransaction]
  split
  · exact h
  · rename_i wallet token signature hchecks
    obtain ⟨hwallet, hpub, hsent⟩ := sendChecks_eq_ok hchecks
    have hop := hop (wallet, token, signature) (by rw [hchecks]; rfl)
    have hsig : '|' ∉ signature := (hbase signature (by rw [hsent]; rfl)).not_mem_bar
    have hsender := (h.addresses _ _ (activeWallet_eq_ok hwallet)).not_mem_bar
    have hrecipient := (isBase58_of_pubkeyFromStr hpub).not_mem_bar
    dsimp only
    split_ifs with hstore
    · refine ⟨h.addresses, h.signatures, h.recorded.upsertTransaction hsig, fun e he => ?_⟩
      obtain ⟨he, hne⟩ := TxCache.mem_pop.mp he
      obtain ⟨hbar, htxs⟩ := h.pages e he
      obtain ⟨hdate, hnew⟩ := hop hstore e.1 (List.mem_map_of_mem he) hne
      refine ⟨hbar, htxs.trans (listedTxs_upsertTransaction hbar (fun d hd => ?_) hnew).symm⟩
      rcases List.mem_cons.mp hd with rfl | hd
      · exact ⟨hsender, fun heq => absurd heq.symm hne⟩
      · obtain rfl := List.mem_singleton.mp hd
        exact ⟨hrecipient, fun heq => hdate heq.symm⟩
    · exact ⟨h.addresses, h.signatures, h.recorded, fun e he => h.pages e (TxCache.mem_pop.mp he).1⟩

theorem PagesFresh.grow (h : PagesFresh w) {address : Str} {info : SignatureInfo}
    (hinfo : IsBase58 info.signature) :
    PagesFresh (w.withIndexer (indexerStep c w.indexer (.grow address info))) := by
  rw [indexerStep]
  split_ifs
  · exact h
  · refine ⟨h.addresses, fun a i hi => ?_, h.recorded, h.pages⟩
    have hi : i ∈ Function.update w.history address (info :: w.history address) a := hi
    by_cases ha : a = address
    · subst ha
      rw [Function.update_self] at hi
      rcases List.mem_cons.mp hi with rfl | hi
      · exact hinfo
      · exact h.signatures a i hi
    · rw [Function.update_of_ne ha] at hi
      exact h.signatures a i hi

/-- A step that meets the condition keeps every page fresh. -/
theorem PagesFresh.txStep (h : PagesFresh w) {op : TxOp} (hop : KeepsPages c resolve w op)
    (hbase : op.Base58) : PagesFresh (txStep c signer resolve w op) := by
  cases op with
  | send sub walletId req io => exact h.sendTransaction hop hbase
  | poll address walletId env => exact h.pollCached (hop (address, walletId, env) rfl)
  | list sub walletId query env askedAt putAt => exact h.listTransactions hop
  | status sub walletId signature env =>
    rw [RelationalSdk.txStep, getTransactionStatus_snd]
    split
    · exact h
    · rename_i wallet hwallet
      refine h.syncAddressOnce fun hcooling => hop (wallet.publicAddress, walletId, env.poll) ?_
      simp [TxOp.polls, hwallet, hcooling, Except.toOption]
  | grow address info => exact h.grow hbase

/-- A fresh page that is asked for in full is what the table lists. -/
theorem PagesFresh.answeredAlike (h : PagesFresh w) {op : TxOp}
    (hop : KeepsPages c resolve w op) : AnsweredAlike c signer resolve w op := by
  cases op with
  | list sub walletId query env askedAt putAt =>
    intro hcursor wallet cached hwallet hhit
    have hlimit : (shown w.db.walletTxIndex wallet.publicAddress).length ≤ query.pageSize := by
      have hnone : TxOp.polls resolve w (.list sub walletId query env askedAt putAt) = none := by
        simp [TxOp.polls, hwallet, hcursor, hhit, Except.toOption]
      have hop : ∀ wallet ∈ (activeWallet resolve w sub walletId).toOption, _ :=
        (if_pos (Option.isNone_iff_eq_none.mpr hcursor)).mp hop
      have hlength := hop wallet (by rw [hwallet]; rfl)
      rwa [TxOp.tablesRead, hnone] at hlength
    refine ⟨(listedTxs w.db wallet.publicAddress, none), ?_,
      listByWallet_eq_listedTxs signer hlimit⟩
    have htake : (listedTxs w.db wallet.publicAddress).take query.pageSize =
        listedTxs w.db wallet.publicAddress :=
      List.take_of_length_le ((List.length_filterMap_le _ _).trans hlimit)
    have hcached : cached = listedTxs w.db wallet.publicAddress := by
      rcases (w.cache.getFirstPage_cases wallet.publicAddress askedAt).2 with
        ⟨entry, hentry, hsome⟩ | ⟨hnone, -⟩
      · rw [← Option.some.inj (hsome.symm.trans hhit)]
        exact (h.pages _ hentry).2
      · cases hnone.symm.trans hhit
    rw [RelationalSdk.listTransactions, hwallet]
    dsimp only
    rw [hcursor, Option.isNone_none, if_pos rfl]
    generalize w.cache.getFirstPage wallet.publicAddress askedAt = found at hhit
    obtain ⟨cache, _ | found⟩ := found
    · cases hhit
    obtain rfl : found = cached := Option.some.inj hhit
    dsimp only
    rw [hcached, htake]
  | send | poll | status | grow => exact trivial

end Steps

/-- The cache agrees with the table throughout every run whose steps keep the pages. -/
theorem answeredAlike_of_keepsPages (c : SolanaClient) (signer : CursorSigner)
    (resolve : Str → Str) (store : WalletStore) (capacity ttl : Nat) (ops : List TxOp)
    (haddresses : ∀ id wallet, store.metas.get id = some wallet → IsBase58 wallet.publicAddress)
    (hbase : ∀ op ∈ ops, op.Base58)
    (h : Along (txStep c signer resolve) (KeepsPages c resolve) (.fresh store capacity ttl) ops) :
    Along (txStep c signer resolve) (AnsweredAlike c signer resolve) (.fresh store capacity ttl)
      ops := by
  have hfresh : PagesFresh (.fresh store capacity ttl) :=
    ⟨haddresses, by simp [TxWorld.fresh], by simp [Recorded, TxWorld.fresh, TxTables.empty],
      by simp [TxWorld.fresh]⟩
  have hsteps := h.and_of_forall_mem hbase
  exact along_of_along (fun w op hw hop => hw.txStep hop.1 hop.2)
    (fun w op hw hop => hw.answeredAlike hop.1) hfresh hsteps

/-- The first page of the first wallet, asked for by its owner. -/
def listFirst (limit : Nat) : TxOp :=
  .list "alice".toList "w1".toList ⟨none, some limit⟩ sampleSync 0 0

/-- Two transactions of the first wallet from before 1970, then its first page. -/
def listOf (limit : Nat) : List TxOp :=
  [.grow senderAddress ⟨"1Sig".toList, none, some (-2)⟩,
    .grow senderAddress ⟨"2Sig".toList, none, some (-1)⟩, listFirst limit]

/-- With a page for both, the next listing is answered from the cache. A transfer drops the page,
and the listing after it puts the next one in its place. -/
def listAroundSend : List TxOp :=
  listOf 10 ++ [listFirst 2, sampleSend receiverAddress, listFirst 3, listFirst 10]

/-- Both listings that the cache answers are answered with the two transactions of the table. -/
theorem answeredAlike_listAroundSend :
    Along (txStep sampleClient plainSigner id) (KeepsPages sampleClient id)
        (.fresh twoWallets 10 30) listAroundSend ∧
      ((afterSteps (listOf 10)).cache.getFirstPage senderAddress 0).2.map List.length = some 2 ∧
      Along (txStep sampleClient plainSigner id) (AnsweredAlike sampleClient plainSigner id)
        (.fresh twoWallets 10 30) listAroundSend := by
  have hkeeps : Along (txStep sampleClient plainSigner id) (KeepsPages sampleClient id)
      (.fresh twoWallets 10 30) listAroundSend := by decide +kernel
  refine ⟨hkeeps, by decide +kernel, answeredAlike_of_keepsPages sampleClient plainSigner id
    twoWallets 10 30 listAroundSend (fun id wallet hget => ?_) (by decide +kernel) hkeeps⟩
  rcases get_twoWallets hget with ⟨-, rfl⟩ | ⟨-, rfl⟩ <;> decide +kernel

/-- With a page for one of them that page is kept, and it is the answer to a listing of ten,
although the table lists two. -/
theorem not_answeredAlike_before1970 :
    (listTransactions sampleClient plainSigner id (afterSteps (listOf 1)) "alice".toList
        "w1".toList ⟨none, some 10⟩ sampleSync 0 0).1.toOption.map
          (fun page => page.1.map (·.1.signature)) = some ["2Sig".toList] ∧
      (listByWallet plainSigner (afterSteps (listOf 1)).db senderAddress none
        10).toOption.map (fun page => page.1.map (·.1.signature)) =
          some ["2Sig".toList, "1Sig".toList] ∧
      ¬Along (txStep sampleClient plainSigner id) (AnsweredAlike sampleClient plainSigner id)
        (.fresh twoWallets 10 30) (listOf 1 ++ [listFirst 10]) := by
  refine ⟨by decide +kernel, by decide +kernel, fun h => ?_⟩
  obtain ⟨page, hlist, htable⟩ :=
    h.2.2.2.1 rfl (activeMetadata "w1" "alice" senderAddress) _ rfl rfl
  -- the answer has one entry, the page of the table a second one
  have hne : (listTransactions sampleClient plainSigner id (afterSteps (listOf 1))
      "alice".toList "w1".toList ⟨none, some 10⟩ sampleSync 0 0).1.toOption ≠
        (listByWallet plainSigner (afterSteps (listOf 1)).db
          (activeMetadata "w1" "alice" senderAddress).publicAddress none
          (ListQuery.pageSize ⟨none, some 10⟩)).toOption := by decide +kernel
  exact hne ((congrArg Except.toOption hlist).trans (congrArg Except.toOption htable).symm)

end RelationalSdk
