import RelationalSdk.DrtRequests
import RelationalSdk.KeyedTable
import RelationalSdk.Keys
import RelationalSdk.ScriptCache
import RelationalSdk.Wire

/-!
# Registering the rights of a pool

`create_pool_atomic` creates a pool on chain in one transaction : it registers the DRTs and seals
the pool. It draws an identifier for each right, keeps the metadata of the rights in a map by name,
and builds the instructions in a second loop over the rights and the identifiers.

`metadataMirrorsChain` : read with the layout of the program's IDL, the `register_drt` instructions
are one for each request, in the order of the requests, and each has the identifier, the script, the
hash, the supply and the mint that the metadata has under the name of the request.

`fetchable_iff` : the hash in the metadata is one that `fetch_and_verify` decodes to the registered
hash, but the address of the script is not checked against what `validate_url` admits, so a right
can be registered whose script is never fetched.
-/

namespace RelationalSdk

open Text IndexLoops HexText KeyedTable Wire

/-! ## Instructions -/

/-- `[u8; 16]`, as `Uuid::as_bytes` returns it. -/
abbrev UuidBytes := List.Vector UInt8 16

/-- `AccountMeta`. -/
structure AccountMeta where
  pubkey : Pubkey
  isSigner : Bool
  isWritable : Bool

/-- `AccountMeta::new`. -/
def AccountMeta.new (pubkey : Pubkey) (isSigner : Bool) : AccountMeta :=
  ⟨pubkey, isSigner, true⟩

/-- `AccountMeta::new_readonly`. -/
def AccountMeta.newReadonly (pubkey : Pubkey) (isSigner : Bool) : AccountMeta :=
  ⟨pubkey, isSigner, false⟩

/-- `Instruction`. -/
structure Instruction where
  programId : Pubkey
  accounts : List AccountMeta
  data : Bytes

/-- What the crates `solana_pubkey` and `borsh` compute : an address derived from seeds under a
program, and the text of the error for a string whose length is no `u32`. -/
structure Crates where
  findProgramAddress : List Bytes → Pubkey → Pubkey × UInt8
  tooLong : String

/-- `DISC_CREATE_POOL`. -/
def discCreatePool : Bytes := [233, 146, 209, 142, 207, 104, 64, 188]

/-- `DISC_REGISTER_DRT`. -/
def discRegisterDrt : Bytes := [132, 234, 232, 157, 1, 204, 22, 238]

/-- `DISC_SEAL_POOL`. -/
def discSealPool : Bytes := [132, 120, 144, 83, 244, 251, 12, 246]

section Builders

variable (c : Crates)

/-- The address of a pool. -/
def derivePoolPda (poolUuid : UuidBytes) : Pubkey × UInt8 :=
  c.findProgramAddress [asBytes "pool".toList, poolUuid.toList] drtProgramId

/-- The address of the configuration of a right. -/
def deriveDrtConfigPda (pool : Pubkey) (rightId : UuidBytes) : Pubkey × UInt8 :=
  c.findProgramAddress [asBytes "drt".toList, pool.toList, rightId.toList] drtProgramId

/-- The address of the mint of a right. -/
def deriveMintPda (pool : Pubkey) (rightId : UuidBytes) : Pubkey × UInt8 :=
  c.findProgramAddress [asBytes "mint".toList, pool.toList, rightId.toList] drtProgramId

/-- The token account of a holder. -/
def deriveUserAta (holder mint : Pubkey) : Pubkey :=
  (c.findProgramAddress [holder.toList, tokenProgramId.toList, mint.toList]
    associatedTokenProgramId).1

/-- `SetComputeUnitLimit`. -/
def buildComputeBudgetIx (units : UInt32) : Instruction where
  programId := constKey "ComputeBudget111111111111111111111111111111".toList
  accounts := []
  data := 2 :: leBytes 4 units.toNat

def buildCreatePool (owner poolPda : Pubkey) (poolUuid : UuidBytes) : Instruction where
  programId := drtProgramId
  accounts := [.new owner true, .new poolPda false, .newReadonly systemProgramId false]
  data := discCreatePool ++ poolUuid.toList

/-- A string in Borsh : its length and its bytes. -/
def serializeString (s : Str) : Except String Bytes :=
  if len s < 2 ^ 32 then .ok (leBytes 4 (len s) ++ asBytes s) else .error c.tooLong

def buildRegisterDrt (owner poolPda holder : Pubkey) (rightId : UuidBytes) (codeRepoUrl : Str)
    (codeHash : List.Vector UInt8 32) (supply : UInt64) : Except String Instruction :=
  let drtConfigPda := (deriveDrtConfigPda c poolPda rightId).1
  let mintPda := (deriveMintPda c poolPda rightId).1
  let holderAta := deriveUserAta c holder mintPda
  match serializeString c codeRepoUrl with
  | .error e => .error s!"Borsh serialize code_repo_url: {e}"
  | .ok url => .ok
    { programId := drtProgramId
      accounts :=
        [.new owner true, .newReadonly poolPda false, .new drtConfigPda false, .new mintPda false,
          .newReadonly holder false, .new holderAta false, .newReadonly tokenProgramId false,
          .newReadonly associatedTokenProgramId false, .newReadonly systemProgramId false,
          .newReadonly rentSysvarId false]
      data := discRegisterDrt ++ rightId.toList ++ url ++ codeHash.toList ++
        leBytes 8 supply.toNat }

def buildSealPool (owner poolPda : Pubkey) : Instruction where
  programId := drtProgramId
  accounts := [.newReadonly owner true, .new poolPda false]
  data := discSealPool

/-! ## Creating a pool -/

/-- The metadata of a right. -/
structure DrtMetadata where
  rightIdHex : Str
  mint : Str
  supply : UInt64
  codeRepoUrl : Str
  codeHashHex : Str

/-- What `create_pool_atomic` returns; the events are what the chain reports. -/
structure CreatedPool (Event : Type) where
  poolPda : Pubkey
  poolUuid : UuidBytes
  signatures : List Str
  drts : Table Str DrtMetadata
  events : List Event

/-- The metadata that is kept of a right with the identifier `rid`. -/
def drtMetadata (poolPda : Pubkey) (d : ResolvedDrt) (rid : UuidBytes) : DrtMetadata where
  rightIdHex := hexEncode rid.toList
  mint := pubkeyToString (deriveMintPda c poolPda rid).1
  supply := d.supply
  codeRepoUrl := d.codeRepoUrl
  codeHashHex := hexEncode d.codeHash.toList

/-- The first loop : an identifier and the metadata of each right. The first identifier that was
drawn is the one of the pool. -/
def recordDrts (poolPda : Pubkey) (newUuidBytes : Nat → UuidBytes) (drts : List ResolvedDrt) :
    Table Str DrtMetadata × List UuidBytes :=
  drts.foldl
    (fun (drtRecords, rightIds) d =>
      let rid := newUuidBytes (rightIds.length + 1)
      (drtRecords.insert d.name (drtMetadata c poolPda d rid), rightIds ++ [rid]))
    (Table.empty, [])

/-- The second loop : an instruction for each right. -/
def registerIxs (ownerPk poolPda : Pubkey) :
    List (ResolvedDrt × UuidBytes) → Except ApiError (List Instruction)
  | [] => .ok []
  | (d, rid) :: rest =>
    match buildRegisterDrt c ownerPk poolPda ownerPk rid d.codeRepoUrl d.codeHash d.supply with
    | .error e => .error (.internal e)
    | .ok ix =>
      match registerIxs ownerPk poolPda rest with
      | .error e => .error e
      | .ok ixs => .ok (ix :: ixs)

/-- `compute_budget`, `create_pool`, the registrations and `seal_pool`. -/
def poolIxs (ownerPk poolPda : Pubkey) (poolUuid : UuidBytes) (registered : List Instruction) :
    List Instruction :=
  [buildComputeBudgetIx 1400000, buildCreatePool ownerPk poolPda poolUuid] ++ registered ++
    [buildSealPool ownerPk poolPda]

/-- `create_pool_atomic` : `newUuidBytes` are the identifiers in the order in which they are drawn,
and `signSendAndParse` sends the instructions. -/
def createPoolAtomic {Event : Type}
    (signSendAndParse : List Instruction → Except ApiError (Str × List Event))
    (newUuidBytes : Nat → UuidBytes) (ownerPk : Pubkey) (drts : List ResolvedDrt) :
    Except ApiError (CreatedPool Event) :=
  let poolUuid := newUuidBytes 0
  let poolPda := (derivePoolPda c poolUuid).1
  let (drtRecords, rightIds) := recordDrts c poolPda newUuidBytes drts
  match registerIxs c ownerPk poolPda (drts.zip rightIds) with
  | .error e => .error e
  | .ok registered =>
    match signSendAndParse (poolIxs ownerPk poolPda poolUuid registered) with
    | .error e => .error e
    | .ok (sig, events) => .ok ⟨poolPda, poolUuid, [sig], drtRecords, events⟩

end Builders

/-! ## Hexadecimal fields -/

theorem pairs_hexEncode (b : Bytes) : Pairs HexPair (hexEncode b) b := by
  induction b with
  | nil => exact .nil
  | cons v b ih =>
    obtain ⟨x, y, hpad, hpair⟩ := hexPair_hexPad v
    rw [hexEncode, List.flatMap_cons, hpad]
    exact .cons hpair ih

theorem hexValue_of_digitValue {b : UInt8} {x : Nat} (h : digitValue (Char.ofNat b.toNat) = some x)
    (position : Nat) : hexValue b position = .ok x := by
  rw [hexValue, h]

/-- Digits are decoded from any position on. -/
theorem hexDecode_of_pairs {s : Str} {b : Bytes} (h : Pairs HexPair s b) (position : Nat) :
    hexDecode position (asBytes s) = .ok b := by
  induction h generalizing position with
  | nil => rfl
  | @cons c d v s b hpair _ ih =>
    obtain ⟨hc, hd⟩ := ReadPair.utf8Size (Or.inl hpair)
    obtain ⟨x, y, hx, hy, rfl⟩ := hpair
    have hcoctet := String.utf8EncodeChar_eq_singleton hc
    have hdoctet := String.utf8EncodeChar_eq_singleton hd
    rw [← digitValue_of_mem (hcoctet ▸ List.mem_cons_self)] at hx
    rw [← digitValue_of_mem (hdoctet ▸ List.mem_cons_self)] at hy
    rw [asBytes_cons, asBytes_cons, hcoctet, hdoctet]
    simp only [List.cons_append, List.nil_append, hexDecode, hexValue_of_digitValue hx,
      hexValue_of_digitValue hy, ih]

theorem decodeRightId_hexEncode (rid : UuidBytes) :
    decodeRightId (hexEncode rid.toList) = .ok (.ok rid) :=
  decodeHex_of_pairs (pairs_hexEncode rid.toList)

theorem decodeHash_hexEncode (h : List.Vector UInt8 32) :
    decodeHash (hexEncode h.toList) = .ok h.toList := by
  have hpairs := pairs_hexEncode h.toList
  have hlen : len (hexEncode h.toList) = 64 := by
    rw [(pairs_hexPair_iff.mp hpairs).1.len_eq, h.toList_length]
  rw [decodeHash, hlen]
  simp only [ne_eq, not_true_eq_false, if_false, hexDecode_of_pairs hpairs]

/-! ## The layout of `register_drt` -/

/-- The arguments of `register_drt`. -/
structure RegisterDrtArgs where
  rightId : UuidBytes
  codeRepoUrl : Str
  codeHash : List.Vector UInt8 32
  supply : UInt64

def readU32 : Reader Nat := do
  let v ← takeBytes 4
  pure (ofLeBytes v.toList)

def readU64 : Reader UInt64 := do
  let v ← takeBytes 8
  pure (UInt64.ofNat (ofLeBytes v.toList))

def readString : Reader Str := do
  let n ← readU32
  let v ← takeBytes n
  lift (fromUtf8 v.toList)

/-- The layout of the instruction data in the IDL. -/
def registerDrtLayout : Reader RegisterDrtArgs := do
  let discriminator ← takeBytes 8
  lift (if discriminator.toList = discRegisterDrt then some () else none)
  let rightId ← takeBytes 16
  let codeRepoUrl ← readString
  let codeHash ← takeBytes 32
  let supply ← readU64
  pure ⟨rightId, codeRepoUrl, codeHash, supply⟩

theorem consumes_readU32 {n : Nat} (hn : n < 2 ^ 32) : Consumes readU32 (leBytes 4 n) n := by
  have h := (Consumes.takeBytes ⟨leBytes 4 n, length_leBytes 4 n⟩).map
    (f := fun v => ofLeBytes v.toList)
  have hvalue : ofLeBytes (leBytes 4 n) = n := by
    rw [ofLeBytes_leBytes]
    exact Nat.mod_eq_of_lt hn
  change Consumes readU32 (leBytes 4 n) (ofLeBytes (leBytes 4 n)) at h
  rwa [hvalue] at h

theorem consumes_readU64 (n : UInt64) : Consumes readU64 (leBytes 8 n.toNat) n := by
  have h := (Consumes.takeBytes ⟨leBytes 8 n.toNat, length_leBytes 8 n.toNat⟩).map
    (f := fun v => UInt64.ofNat (ofLeBytes v.toList))
  have hvalue : ofLeBytes (leBytes 8 n.toNat) = n.toNat := by
    rw [ofLeBytes_leBytes]
    exact Nat.mod_eq_of_lt n.toNat_lt
  change Consumes readU64 (leBytes 8 n.toNat) (UInt64.ofNat (ofLeBytes (leBytes 8 n.toNat))) at h
  rwa [hvalue, UInt64.ofNat_toNat] at h

theorem consumes_readString {s : Str} (hs : len s < 2 ^ 32) :
    Consumes readString (leBytes 4 (len s) ++ asBytes s) s := by
  refine (consumes_readU32 hs).bind ?_
  rw [← List.append_nil (asBytes s)]
  refine (Consumes.takeBytes ⟨asBytes s, length_asBytes s⟩).bind ?_
  change Consumes (lift (fromUtf8 (asBytes s))) [] s
  rw [fromUtf8_asBytes]
  exact Consumes.lift s

theorem consumes_registerDrtLayout (args : RegisterDrtArgs) (hurl : len args.codeRepoUrl < 2 ^ 32) :
    Consumes registerDrtLayout (discRegisterDrt ++ (args.rightId.toList ++
      (leBytes 4 (len args.codeRepoUrl) ++ asBytes args.codeRepoUrl ++
        (args.codeHash.toList ++ leBytes 8 args.supply.toNat)))) args := by
  refine (Consumes.takeBytes ⟨discRegisterDrt, rfl⟩).bind ?_
  refine (Consumes.lift ()).bind_nil ?_
  refine (Consumes.takeBytes args.rightId).bind ?_
  refine (consumes_readString hurl).bind ?_
  refine (Consumes.takeBytes args.codeHash).bind ?_
  exact (consumes_readU64 args.supply).map

/-! ## Metadata and instructions -/

section Registration

variable (c : Crates)

/-- The instruction calls `register_drt`. -/
def isRegisterDrt (ix : Instruction) : Bool :=
  ix.programId = drtProgramId && discRegisterDrt.isPrefixOf ix.data

/-- The instruction registers what the metadata says. The accounts 2 and 3 are the configuration and
the mint. -/
def Mirrors (pool : Pubkey) (ix : Instruction) (stored : DrtMetadata) : Prop :=
  ∃ args config mint, readAll registerDrtLayout ix.data = some args ∧
    ix.accounts[2]? = some config ∧ ix.accounts[3]? = some mint ∧
    hexDecode 0 (asBytes stored.rightIdHex) = .ok args.rightId.toList ∧
    stored.codeRepoUrl = args.codeRepoUrl ∧
    hexDecode 0 (asBytes stored.codeHashHex) = .ok args.codeHash.toList ∧
    stored.supply = args.supply ∧ stored.mint = pubkeyToString mint.pubkey ∧
    decodeRightId stored.rightIdHex = .ok (.ok args.rightId) ∧
    config.pubkey = (deriveDrtConfigPda c pool args.rightId).1

variable {c}

theorem recordDrts_concat (pool : Pubkey) (newUuidBytes : Nat → UuidBytes)
    (drts : List ResolvedDrt) (d : ResolvedDrt) :
    recordDrts c pool newUuidBytes (drts ++ [d]) =
      let before := recordDrts c pool newUuidBytes drts
      let rid := newUuidBytes (before.2.length + 1)
      (before.1.insert d.name (drtMetadata c pool d rid), before.2 ++ [rid]) := by
  rw [recordDrts, List.foldl_append]
  rfl

theorem buildRegisterDrt_ok (owner pool holder : Pubkey) {d : ResolvedDrt} (rid : UuidBytes)
    (hurl : len d.codeRepoUrl < 2 ^ 32) :
    ∃ ix, buildRegisterDrt c owner pool holder rid d.codeRepoUrl d.codeHash d.supply = .ok ix ∧
      isRegisterDrt ix ∧ Mirrors c pool ix (drtMetadata c pool d rid) := by
  have hdata := (consumes_registerDrtLayout ⟨rid, d.codeRepoUrl, d.codeHash, d.supply⟩ hurl).readAll
  simp only [← List.append_assoc] at hdata
  rw [buildRegisterDrt, serializeString, if_pos hurl]
  refine ⟨_, rfl, ?_, ?_⟩
  · simp only [isRegisterDrt, decide_true, Bool.true_and, List.append_assoc]
    exact List.isPrefixOf_iff_prefix.mpr (List.prefix_append _ _)
  · refine ⟨⟨rid, d.codeRepoUrl, d.codeHash, d.supply⟩, _, _, ?_, rfl, rfl,
      hexDecode_of_pairs (pairs_hexEncode _) 0, rfl, hexDecode_of_pairs (pairs_hexEncode _) 0, rfl,
      rfl, decodeRightId_hexEncode rid, rfl⟩
    simpa only [← List.append_assoc] using hdata

/-- The second loop succeeds when every instruction is built, and builds one for each right. -/
theorem registerIxs_ok_of_forall (ownerPk pool : Pubkey)
    {R : ResolvedDrt × UuidBytes → Instruction → Prop} :
    ∀ {ps : List (ResolvedDrt × UuidBytes)},
      (∀ p ∈ ps, ∃ ix, buildRegisterDrt c ownerPk pool ownerPk p.2 p.1.codeRepoUrl p.1.codeHash
        p.1.supply = .ok ix ∧ R p ix) →
      ∃ ixs, registerIxs c ownerPk pool ps = .ok ixs ∧ List.Forall₂ R ps ixs
  | [], _ => ⟨[], rfl, .nil⟩
  | (d, rid) :: ps, h => by
    obtain ⟨ix, hix, hR⟩ := h (d, rid) List.mem_cons_self
    obtain ⟨ixs, hixs, hall⟩ :=
      registerIxs_ok_of_forall ownerPk pool fun p hp => h p (List.mem_cons_of_mem _ hp)
    refine ⟨ix :: ixs, ?_, .cons hR hall⟩
    rw [registerIxs, hix, hixs]

/-- The identifiers are drawn one after the other. -/
theorem recordDrts_snd (pool : Pubkey) (newUuidBytes : Nat → UuidBytes)
    (drts : List ResolvedDrt) :
    (recordDrts c pool newUuidBytes drts).2 =
      (List.range drts.length).map fun i => newUuidBytes (i + 1) := by
  induction drts using List.reverseRecOn with
  | nil => rfl
  | append_singleton drts d ih =>
    rw [recordDrts_concat]
    simp [ih, List.range_succ]

theorem length_recordDrts_snd (pool : Pubkey) (newUuidBytes : Nat → UuidBytes)
    (drts : List ResolvedDrt) : (recordDrts c pool newUuidBytes drts).2.length = drts.length := by
  rw [recordDrts_snd, List.length_map, List.length_range]

/-- What the first loop leaves : the metadata under each name, if the names differ. -/
theorem get_recordDrts (pool : Pubkey) (newUuidBytes : Nat → UuidBytes) (drts : List ResolvedDrt)
    (hnodup : (drts.map (·.name)).Nodup) :
    ∀ p ∈ drts.zip (recordDrts c pool newUuidBytes drts).2,
      (recordDrts c pool newUuidBytes drts).1.get p.1.name = some (drtMetadata c pool p.1 p.2) := by
  induction drts using List.reverseRecOn with
  | nil => simp
  | append_singleton drts d ih =>
    rw [List.map_append, List.nodup_append'] at hnodup
    obtain ⟨hbefore, -, hdisjoint⟩ := hnodup
    have hfresh : ∀ d' ∈ drts, d'.name ≠ d.name := fun d' hd' heq =>
      hdisjoint (List.mem_map_of_mem hd') (by simp [heq])
    rw [recordDrts_concat]
    rw [List.zip_append (length_recordDrts_snd pool newUuidBytes drts).symm]
    intro p hp
    rw [Table.get_insert]
    rcases List.mem_append.mp hp with hp | hp
    · rw [if_neg (hfresh _ (List.of_mem_zip hp).1)]
      exact ih hbefore p hp
    · obtain rfl := List.mem_singleton.mp hp
      exact if_pos rfl

/-- The names in the map are the names of the rights. -/
theorem isSome_get_recordDrts_iff (pool : Pubkey) (newUuidBytes : Nat → UuidBytes)
    (drts : List ResolvedDrt) (name : Str) :
    ((recordDrts c pool newUuidBytes drts).1.get name).isSome ↔ name ∈ drts.map (·.name) := by
  induction drts using List.reverseRecOn with
  | nil => exact iff_of_false (by simp [recordDrts, Table.get, Table.empty]) (by simp)
  | append_singleton drts d ih =>
    rw [recordDrts_concat, Table.isSome_get_insert_iff, ih, List.map_append, List.mem_append,
      or_comm]
    exact or_congr_right (by simp)

/-- Of the instructions of a pool only those of the second loop call `register_drt`. -/
theorem filter_isRegisterDrt {ownerPk pool : Pubkey} {poolUuid : UuidBytes}
    {registered : List Instruction} (h : ∀ ix ∈ registered, isRegisterDrt ix) :
    (poolIxs ownerPk pool poolUuid registered).filter isRegisterDrt = registered := by
  have hbudget : isRegisterDrt (buildComputeBudgetIx 1400000) = false :=
    Bool.and_eq_false_imp.mpr fun _ => rfl
  have hcreate : isRegisterDrt (buildCreatePool ownerPk pool poolUuid) = false :=
    Bool.and_eq_false_imp.mpr fun _ => rfl
  have hseal : isRegisterDrt (buildSealPool ownerPk pool) = false :=
    Bool.and_eq_false_imp.mpr fun _ => rfl
  rw [poolIxs, List.filter_append, List.filter_append, List.filter_eq_self.mpr h]
  simp [hbudget, hcreate, hseal]

theorem exists_of_mem_right {α β : Type} {R : α → β → Prop} :
    ∀ {l₁ : List α} {l₂ : List β}, List.Forall₂ R l₁ l₂ → ∀ {b : β}, b ∈ l₂ → ∃ a ∈ l₁, R a b
  | _, _, .cons hR hRs, b, hb => by
    rcases List.mem_cons.mp hb with rfl | hb
    · exact ⟨_, List.mem_cons_self, hR⟩
    · obtain ⟨a, ha, hab⟩ := exists_of_mem_right hRs hb
      exact ⟨a, List.mem_cons_of_mem _ ha, hab⟩

theorem forall₂_comp {α β γ : Type} {R : α → β → Prop} {S : β → γ → Prop} :
    ∀ {l₁ : List α} {l₂ : List β} {l₃ : List γ}, List.Forall₂ R l₁ l₂ → List.Forall₂ S l₂ l₃ →
      List.Forall₂ (fun a x => ∃ b ∈ l₂, R a b ∧ S b x) l₁ l₃
  | _, _, _, .nil, .nil => .nil
  | _, _, _, .cons hR hRs, .cons hS hSs => by
    refine .cons ⟨_, List.mem_cons_self, hR, hS⟩ ((forall₂_comp hRs hSs).imp ?_)
    rintro a x ⟨b, hb, hab⟩
    exact ⟨b, List.mem_cons_of_mem _ hb, hab⟩

variable (c)

/-- `create_pool_atomic` sends instructions and returns metadata, and the metadata mirrors the
instructions that call `register_drt`. -/
def Mirrored (newUuidBytes : Nat → UuidBytes) (ownerPk : Pubkey) (reqs : List DrtRequest)
    (drts : List ResolvedDrt) : Prop :=
  let pool := (derivePoolPda c (newUuidBytes 0)).1
  ∃ (ixs : List Instruction) (drtRecords : Table Str DrtMetadata),
    (∀ (Event : Type) (send : List Instruction → Except ApiError (Str × List Event)),
      createPoolAtomic c send newUuidBytes ownerPk drts =
        (send ixs).map fun sent => ⟨pool, newUuidBytes 0, [sent.1], drtRecords, sent.2⟩) ∧
    (∀ name, (drtRecords.get name).isSome ↔ name ∈ reqs.map (·.name)) ∧
    List.Forall₂ (fun req ix => ∃ stored, drtRecords.get req.name = some stored ∧
      Mirrors c pool ix stored) reqs (ixs.filter isRegisterDrt)

variable {c}

theorem map_name_eq {reqs : List DrtRequest} {drts : List ResolvedDrt}
    (h : List.Forall₂ Resolves reqs drts) : drts.map (·.name) = reqs.map (·.name) := by
  induction h with
  | nil => rfl
  | cons hresolves _ ih => rw [List.map_cons, List.map_cons, hresolves.name_eq, ih]

theorem createPoolAtomic_eq {newUuidBytes : Nat → UuidBytes} {ownerPk : Pubkey}
    {drts : List ResolvedDrt} {registered : List Instruction} {Event : Type}
    (send : List Instruction → Except ApiError (Str × List Event))
    (h : registerIxs c ownerPk (derivePoolPda c (newUuidBytes 0)).1
      (drts.zip (recordDrts c (derivePoolPda c (newUuidBytes 0)).1 newUuidBytes drts).2) =
        .ok registered) :
    createPoolAtomic c send newUuidBytes ownerPk drts =
      (send (poolIxs ownerPk (derivePoolPda c (newUuidBytes 0)).1 (newUuidBytes 0)
        registered)).map fun sent => ⟨(derivePoolPda c (newUuidBytes 0)).1, newUuidBytes 0,
          [sent.1], (recordDrts c (derivePoolPda c (newUuidBytes 0)).1 newUuidBytes drts).1,
          sent.2⟩ := by
  simp only [createPoolAtomic, h]
  rcases send _ with e | sent <;> rfl

/-- The two loops together : an instruction for each request, which mirrors what is stored. -/
theorem exists_registered {reqs : List DrtRequest} {drts : List ResolvedDrt} {pool : Pubkey}
    (newUuidBytes : Nat → UuidBytes) (ownerPk : Pubkey)
    (hresolves : List.Forall₂ Resolves reqs drts) (hnodup : (reqs.map (·.name)).Nodup) :
    ∃ registered, registerIxs c ownerPk pool
        (drts.zip (recordDrts c pool newUuidBytes drts).2) = .ok registered ∧
      List.Forall₂ (fun req ix => ∃ stored,
        (recordDrts c pool newUuidBytes drts).1.get req.name = some stored ∧
          isRegisterDrt ix ∧ Mirrors c pool ix stored) reqs registered := by
  have hget := get_recordDrts (c := c) pool newUuidBytes drts (map_name_eq hresolves ▸ hnodup)
  have hrights : (drts.zip (recordDrts c pool newUuidBytes drts).2).map Prod.fst = drts :=
    List.map_fst_zip (length_recordDrts_snd pool newUuidBytes drts).ge
  have hpairs : List.Forall₂ (fun req p => Resolves req p.1) reqs
      (drts.zip (recordDrts c pool newUuidBytes drts).2) := by
    rwa [← List.forall₂_map_right_iff, hrights]
  have hurl : ∀ p ∈ drts.zip (recordDrts c pool newUuidBytes drts).2,
      len p.1.codeRepoUrl < 2 ^ 32 := by
    intro p hp
    obtain ⟨req, -, hreq⟩ := exists_of_mem_right hpairs hp
    exact hreq.len_url_le.trans_lt (by decide)
  obtain ⟨registered, hixs, hall⟩ := registerIxs_ok_of_forall (c := c) ownerPk pool
    fun p hp => buildRegisterDrt_ok ownerPk pool ownerPk p.2 (hurl p hp)
  refine ⟨registered, hixs, (forall₂_comp hpairs hall).imp ?_⟩
  rintro req ix ⟨p, hp, hreq, hregister⟩
  exact ⟨_, hreq.name_eq ▸ hget p hp, hregister⟩

/-- For every accepted list of requests, any identifiers and any owner. -/
theorem metadataMirrorsChain {reqs : List DrtRequest} {allowAppend : Bool}
    {drts : List ResolvedDrt} (h : validateDrtRequests reqs allowAppend = .ok (.ok drts))
    (newUuidBytes : Nat → UuidBytes) (ownerPk : Pubkey) :
    Mirrored c newUuidBytes ownerPk reqs drts := by
  obtain ⟨hresolves, hnodup⟩ := validateDrtRequests_ok h
  obtain ⟨registered, hixs, hall⟩ := exists_registered newUuidBytes ownerPk hresolves hnodup
  have hregister : ∀ ix ∈ registered, isRegisterDrt ix := by
    intro ix hix
    obtain ⟨req, -, -, -, hregister, -⟩ := exists_of_mem_right hall hix
    exact hregister
  refine ⟨_, _, fun _ send => createPoolAtomic_eq send hixs, fun name => ?_, ?_⟩
  · rw [isSome_get_recordDrts_iff, map_name_eq hresolves]
  · rw [filter_isRegisterDrt hregister]
    refine hall.imp ?_
    rintro req ix ⟨stored, hget, -, hmirrors⟩
    exact ⟨stored, hget, hmirrors⟩

/-- Requests for the receipt of uploads and for a script. -/
def sampleDrtRequests (url : Str) : List DrtRequest :=
  [⟨appendDrtName, 5, none, none⟩,
    ⟨"mean".toList, 3, some url, some ('0' :: 'x' :: List.replicate 64 'a')⟩]

/-- What they are resolved to. -/
def sampleDrts (url : Str) : List ResolvedDrt :=
  [⟨appendDrtName, 5, [], zeroHash⟩, ⟨"mean".toList, 3, url, .replicate 32 170⟩]

/-- A key made of the octets of a text. -/
def sampleKey (b : Bytes) : Pubkey :=
  ⟨leBytes 32 (b.foldl (fun n x => 257 * n + x.toNat + 1) 0), length_leBytes 32 _⟩

/-- Crates that derive an address of its own from all seeds. -/
def derivingCrates : Crates :=
  ⟨fun seeds programId => (sampleKey (seeds.flatten ++ programId.toList), 255), "invalid data"⟩

/-- The identifiers drawn one after the other. -/
def sampleIds (n : Nat) : UuidBytes :=
  .replicate 16 (UInt8.ofNat n)

theorem validateDrtRequests_sample :
    validateDrtRequests (sampleDrtRequests sampleScriptUrl) true =
      .ok (.ok (sampleDrts sampleScriptUrl)) := by
  decide +kernel

theorem metadataMirrorsChain_sample :
    Mirrored derivingCrates sampleIds (.replicate 32 7) (sampleDrtRequests sampleScriptUrl)
      (sampleDrts sampleScriptUrl) :=
  metadataMirrorsChain validateDrtRequests_sample _ _

/-! ## Fetching what was registered -/

/-- The file of an allowed owner on the allowed host. -/
def AllowedUrl (url : Str) : Prop :=
  ∃ rest, url = "https://raw.githubusercontent.com/relational-network".toList ++ rest ∧
    (rest = [] ∨ ∃ path, rest = '/' :: path)

theorem dropWhile_ne_cases (sep : Char) (l : Str) :
    l.dropWhile (· ≠ sep) = [] ∨ ∃ r, l.dropWhile (· ≠ sep) = sep :: r := by
  induction l with
  | nil => exact Or.inl rfl
  | cons x l ih =>
    by_cases hx : x = sep
    · exact Or.inr ⟨l, by rw [List.dropWhile_cons_of_neg (by simp [hx]), hx]⟩
    · rwa [List.dropWhile_cons_of_pos (by simp [hx])]

theorem takeWhile_ne_append (sep : Char) {x y : Str} (hx : sep ∉ x)
    (hy : y = [] ∨ ∃ r, y = sep :: r) :
    (x ++ y).takeWhile (· ≠ sep) = x ∧ (x ++ y).dropWhile (· ≠ sep) = y := by
  refine span_append (fun a ha => decide_eq_true fun heq => hx (heq ▸ ha)) fun a ha => ?_
  rcases hy with rfl | ⟨r, rfl⟩
  · cases ha
  · simpa using (Option.some_inj.mp ha).symm

theorem allowedUrl_parts : "https://raw.githubusercontent.com/relational-network".toList =
    "https://".toList ++ (allowedHost.toList ++ '/' :: "relational-network".toList) := by
  decide +kernel

theorem validateUrl_eq_ok_iff {url : Str} : validateUrl url = .ok () ↔ AllowedUrl url := by
  constructor
  · intro h
    unfold validateUrl at h
    split_ifs at h with hscheme
    obtain ⟨t, rfl⟩ := List.isPrefixOf_iff_prefix.mp hscheme
    have hdrop : ("https://".toList ++ t).drop 8 = t := rfl
    simp only [hdrop] at h
    rcases dropWhile_ne_cases '/' t with hslash | ⟨path, hslash⟩
    · simp only [hslash] at h
      exact absurd h (by simp)
    · simp only [hslash] at h
      split_ifs at h with hhost hempty howner
      have hhost' : t.takeWhile (· ≠ '/') = allowedHost.toList := by
        rw [← not_not.mp hhost, String.toList_ofList]
      have howner' : path.takeWhile (· ≠ '/') = "relational-network".toList := by
        rw [← List.mem_singleton.mp howner, String.toList_ofList]
      refine ⟨path.dropWhile (· ≠ '/'), ?_, dropWhile_ne_cases '/' path⟩
      calc "https://".toList ++ t
          = "https://".toList ++ (t.takeWhile (· ≠ '/') ++ t.dropWhile (· ≠ '/')) := by
            rw [List.takeWhile_append_dropWhile]
        _ = "https://".toList ++ (allowedHost.toList ++ '/' :: (path.takeWhile (· ≠ '/') ++
              path.dropWhile (· ≠ '/'))) := by
            rw [hhost', hslash, List.takeWhile_append_dropWhile]
        _ = _ := by
            rw [howner', allowedUrl_parts, List.append_assoc, List.append_assoc, List.cons_append]
  · rintro ⟨rest, rfl, hrest⟩
    have hdrop : ∀ t : Str, ("https://".toList ++ t).drop 8 = t := fun _ => rfl
    obtain ⟨hhost, hslash⟩ := takeWhile_ne_append '/' (x := allowedHost.toList)
      (y := '/' :: ("relational-network".toList ++ rest)) (by decide) (Or.inr ⟨_, rfl⟩)
    obtain ⟨howner, -⟩ := takeWhile_ne_append '/' (x := "relational-network".toList) (by decide)
      hrest
    rw [allowedUrl_parts, List.append_assoc, List.append_assoc, List.cons_append, validateUrl,
      if_neg (not_not.mpr (List.isPrefixOf_iff_prefix.mpr (List.prefix_append _ _)))]
    simp only [hdrop, hhost, hslash, howner, String.ofList_toList]
    decide

variable (c)

/-- Every right but `append` has an address that `validate_url` accepts, and the stored hash is one
that `decode_hash` decodes to the registered hash. -/
def Fetchable (pool : Pubkey) (newUuidBytes : Nat → UuidBytes) (drts : List ResolvedDrt) : Prop :=
  ∀ d ∈ drts, d.name ≠ appendDrtName → validateUrl d.codeRepoUrl = .ok () ∧
    ∃ stored, (recordDrts c pool newUuidBytes drts).1.get d.name = some stored ∧
      decodeHash stored.codeHashHex = .ok d.codeHash.toList

variable {c}

/-- What is stored of a right. -/
theorem exists_get_recordDrts (pool : Pubkey) (newUuidBytes : Nat → UuidBytes)
    {drts : List ResolvedDrt} (hnodup : (drts.map (·.name)).Nodup) {d : ResolvedDrt}
    (hd : d ∈ drts) : ∃ rid, (recordDrts c pool newUuidBytes drts).1.get d.name =
      some (drtMetadata c pool d rid) := by
  rw [← List.map_fst_zip (length_recordDrts_snd (c := c) pool newUuidBytes drts).ge] at hd
  obtain ⟨p, hp, rfl⟩ := List.mem_map.mp hd
  exact ⟨p.2, get_recordDrts pool newUuidBytes drts hnodup p hp⟩

/-- A registered script can be fetched exactly if its address was an allowed one. -/
theorem fetchable_iff {reqs : List DrtRequest} {allowAppend : Bool} {drts : List ResolvedDrt}
    (h : validateDrtRequests reqs allowAppend = .ok (.ok drts)) (pool : Pubkey)
    (newUuidBytes : Nat → UuidBytes) :
    Fetchable c pool newUuidBytes drts ↔ ∀ req ∈ reqs, req.name ≠ appendDrtName →
      ∃ url, req.codeRepoUrl = some url ∧ AllowedUrl url := by
  obtain ⟨hresolves, hnodup⟩ := validateDrtRequests_ok h
  constructor
  · intro hfetch req hreq hname
    obtain ⟨d, hd, hresolved⟩ := exists_of_mem_right hresolves.flip hreq
    have hurl := (hfetch d hd (hresolved.name_eq ▸ hname)).1
    exact ⟨_, (hresolved.script hname).1, validateUrl_eq_ok_iff.mp hurl⟩
  · intro hallowed d hd hname
    obtain ⟨req, hreq, hresolved⟩ := exists_of_mem_right hresolves hd
    rw [hresolved.name_eq] at hname
    obtain ⟨url, hurl, hallow⟩ := hallowed req hreq hname
    obtain rfl : d.codeRepoUrl = url :=
      Option.some_inj.mp ((hresolved.script hname).1.symm.trans hurl)
    obtain ⟨rid, hget⟩ :=
      exists_get_recordDrts pool newUuidBytes (map_name_eq hresolves ▸ hnodup) hd
    exact ⟨validateUrl_eq_ok_iff.mpr hallow, _, hget, decodeHash_hexEncode d.codeHash⟩

theorem fetchable_sample :
    Fetchable derivingCrates (.replicate 32 7) sampleIds (sampleDrts sampleScriptUrl) := by
  refine (fetchable_iff validateDrtRequests_sample _ _).mpr fun req hreq hname => ?_
  rcases List.mem_cons.mp hreq with rfl | hreq
  · exact absurd rfl hname
  · obtain rfl := List.mem_singleton.mp hreq
    exact ⟨_, rfl, '/' :: "drt-scripts/main/mean.wasm".toList, by decide +kernel, Or.inr ⟨_, rfl⟩⟩

/-- The address of a file on another host. -/
def otherHostUrl : Str :=
  "https://example.com/relational-network/x/main/y".toList

/-- A pool can be sealed with a right whose script is never fetched. -/
theorem not_fetchable_otherHost :
    validateDrtRequests (sampleDrtRequests otherHostUrl) true =
        .ok (.ok (sampleDrts otherHostUrl)) ∧
      ¬Fetchable derivingCrates (.replicate 32 7) sampleIds (sampleDrts otherHostUrl) := by
  refine ⟨by decide +kernel, fun hfetch => ?_⟩
  obtain ⟨hurl, -⟩ := hfetch _ (List.mem_cons_of_mem _ List.mem_cons_self) (by decide)
  exact absurd hurl (by decide)

end Registration

end RelationalSdk
