import RelationalSdk.PoolRegistration

/-!
# The size of the transaction of a pool

`create_pool_atomic` puts all instructions of a pool into one transaction : the compute budget,
`create_pool`, a `register_drt` for each right and `seal_pool`. A transaction is sent in one packet
of at most 1232 bytes.

`newMessage` compiles the instructions as `Message::new` does : each key that is used stands once in
the list of account keys, the payer first, and the instructions refer to keys by position. When only
the payer signs, the size depends on how many keys are used and on the sizes of the instructions
(`OnlyPayerSigns.exists_signedBytes`). A right adds three addresses and a registration with its
script's address.

`poolFits_iff` : a pool fits in a packet exactly if its addresses and its registrations leave room
for the 153 bytes of the rest. If no two addresses are equal, five rights never fit
(`not_poolFits_of_five_le`), though `validate_drt_requests` accepts eight.
-/

namespace RelationalSdk

open Text IndexLoops HexText KeyedTable Wire

/-! ## Messages -/

/-- Keys are ordered by their bytes. -/
local instance : LinearOrder Pubkey :=
  LinearOrder.lift' List.Vector.toList Subtype.val_injective

/-- Whether a key of a message signs and is written. -/
structure KeyMeta where
  isSigner : Bool
  isWritable : Bool
  deriving DecidableEq

/-- The uses of keys in a transaction : the programs that are called, the accounts they are given,
and the payer. -/
def keyUses (payer : Pubkey) (ixs : List Instruction) : List AccountMeta :=
  ixs.flatMap (fun ix => .newReadonly ix.programId false :: ix.accounts) ++ [.new payer true]

/-- A key has the flags of all its uses. -/
def noteUse (keys : Table Pubkey KeyMeta) (m : AccountMeta) : Table Pubkey KeyMeta :=
  let noted := (keys.get m.pubkey).getD ⟨false, false⟩
  keys.insert m.pubkey ⟨noted.isSigner || m.isSigner, noted.isWritable || m.isWritable⟩

/-- `CompiledKeys::compile`. -/
def compileKeys (payer : Pubkey) (ixs : List Instruction) : Table Pubkey KeyMeta :=
  (keyUses payer ixs).foldl noteUse .empty

/-- The keys with given flags, in order. -/
def keysWith (keys : Table Pubkey KeyMeta) (flags : KeyMeta) : List Pubkey :=
  (keys.entries.filter fun e => e.2 = flags).map Prod.fst

/-- An instruction with its keys as positions in the list of account keys. -/
structure CompiledInstruction where
  programIdIndex : UInt8
  accounts : Bytes
  data : Bytes

/-- `compile_instruction`. -/
def compileInstruction (accountKeys : List Pubkey) (ix : Instruction) : CompiledInstruction where
  programIdIndex := UInt8.ofNat (accountKeys.idxOf ix.programId)
  accounts := ix.accounts.map fun m => UInt8.ofNat (accountKeys.idxOf m.pubkey)
  data := ix.data

/-- A legacy message; the first three fields are its header. -/
structure Message where
  numRequiredSignatures : UInt8
  numReadonlySignedAccounts : UInt8
  numReadonlyUnsignedAccounts : UInt8
  accountKeys : List Pubkey
  recentBlockhash : List.Vector UInt8 32
  instructions : List CompiledInstruction

def tryIntoU8 (n : Nat) : Option UInt8 :=
  if n < 256 then some (UInt8.ofNat n) else none

/-- `Message::new_with_blockhash` : the payer first, then the keys that sign, each time those that
are written before the others. -/
def newMessage (ixs : List Instruction) (payer : Pubkey) (blockhash : List.Vector UInt8 32) :
    Option Message := do
  let others := (compileKeys payer ixs).remove payer
  let writableSigners := payer :: keysWith others ⟨true, true⟩
  let readonlySigners := keysWith others ⟨true, false⟩
  let writableNonSigners := keysWith others ⟨false, true⟩
  let readonlyNonSigners := keysWith others ⟨false, false⟩
  let accountKeys := writableSigners ++ readonlySigners ++ writableNonSigners ++ readonlyNonSigners
  let numRequiredSignatures ← tryIntoU8 (writableSigners.length + readonlySigners.length)
  let numReadonlySigned ← tryIntoU8 readonlySigners.length
  let numReadonlyUnsigned ← tryIntoU8 readonlyNonSigners.length
  pure ⟨numRequiredSignatures, numReadonlySigned, numReadonlyUnsigned, accountKeys, blockhash,
    ixs.map (compileInstruction accountKeys)⟩

/-- What is needed of a `Keypair`. -/
structure Keypair where
  pubkey : Pubkey
  sign : Bytes → List.Vector UInt8 64

structure Transaction where
  signatures : List (List.Vector UInt8 64)
  message : Message

/-! ## Bytes -/

def CompiledInstruction.serialize (ix : CompiledInstruction) : Bytes :=
  ix.programIdIndex :: (shortVec List.singleton ix.accounts ++ shortVec List.singleton ix.data)

def Message.serialize (m : Message) : Bytes :=
  [m.numRequiredSignatures, m.numReadonlySignedAccounts, m.numReadonlyUnsignedAccounts] ++
    shortVec List.Vector.toList m.accountKeys ++ m.recentBlockhash.toList ++
    shortVec CompiledInstruction.serialize m.instructions

def Transaction.serialize (tx : Transaction) : Bytes :=
  shortVec List.Vector.toList tx.signatures ++ tx.message.serialize

/-- `Transaction::new` with one key pair : it fails if another key has to sign. -/
def newTransaction (keypair : Keypair) (message : Message) : Option Transaction := do
  let signatures ← (message.accountKeys.take message.numRequiredSignatures.toNat).mapM fun k =>
    if k = keypair.pubkey then some (keypair.sign message.serialize) else none
  pure ⟨signatures, message⟩

/-- What `sign_send_and_parse` sends, if it comes to sending. -/
def signedBytes (keypair : Keypair) (blockhash : List.Vector UInt8 32) (ixs : List Instruction) :
    Option Bytes := do
  let message ← newMessage ixs keypair.pubkey blockhash
  let tx ← newTransaction keypair message
  pure tx.serialize

/-! ## The keys of a message -/

/-- How many keys are used. -/
def keyCount (payer : Pubkey) (ixs : List Instruction) : Nat :=
  ((keyUses payer ixs).map (·.pubkey)).dedup.length

theorem any_pubkey_eq_false {uses : List AccountMeta} {k : Pubkey}
    (h : k ∉ uses.map (·.pubkey)) (flag : AccountMeta → Bool) :
    (uses.any fun m => m.pubkey = k && flag m) = false := by
  rw [List.any_eq_false]
  intro m hm hflag
  simp only [Bool.and_eq_true, decide_eq_true_eq] at hflag
  exact h (List.mem_map.mpr ⟨m, hm, hflag.1⟩)

theorem map_pubkey_keyUses (payer : Pubkey) (ixs : List Instruction) :
    (keyUses payer ixs).map (·.pubkey) =
      ixs.flatMap (fun ix => ix.programId :: ix.accounts.map (·.pubkey)) ++ [payer] := by
  rw [keyUses, List.map_append, List.map_flatMap]
  rfl

/-- Flags by key. -/
theorem get_foldl_noteUse (uses : List AccountMeta) (k : Pubkey) :
    (uses.foldl noteUse .empty).get k =
      if k ∈ uses.map (·.pubkey) then
        some ⟨uses.any fun m => m.pubkey = k && m.isSigner,
          uses.any fun m => m.pubkey = k && m.isWritable⟩
      else none := by
  induction uses using List.reverseRecOn with
  | nil => simp [Table.get, Table.empty]
  | append_singleton uses m ih =>
    rw [List.foldl_append, List.foldl_cons, List.foldl_nil, noteUse, Table.get_insert]
    by_cases hk : k = m.pubkey
    · subst hk
      have hnoted : ((uses.foldl noteUse .empty).get m.pubkey).getD ⟨false, false⟩ =
          ⟨uses.any fun m' => m'.pubkey = m.pubkey && m'.isSigner,
            uses.any fun m' => m'.pubkey = m.pubkey && m'.isWritable⟩ := by
        rw [ih]
        split_ifs with hmem
        · rfl
        · rw [any_pubkey_eq_false hmem, any_pubkey_eq_false hmem]
          rfl
      simp [hnoted]
    · rw [if_neg hk, ih]
      have hne : (m.pubkey = k) = False := eq_false fun h => hk h.symm
      simp [hk, hne]

/-- Every key has one pair of flags. -/
theorem length_keysWith (keys : Table Pubkey KeyMeta) :
    (keysWith keys ⟨true, true⟩).length + (keysWith keys ⟨true, false⟩).length +
      (keysWith keys ⟨false, true⟩).length + (keysWith keys ⟨false, false⟩).length =
        keys.entries.length := by
  simp only [keysWith, List.length_map]
  induction keys.entries with
  | nil => rfl
  | cons e es ih =>
    obtain ⟨k, signer, writable⟩ := e
    rcases signer <;> rcases writable <;> simp <;> omega

variable {payer : Pubkey} {ixs : List Instruction}

theorem mem_keys_compileKeys_iff {k : Pubkey} :
    k ∈ (compileKeys payer ixs).entries.map Prod.fst ↔
      k ∈ (keyUses payer ixs).map (·.pubkey) := by
  have hget := get_foldl_noteUse (keyUses payer ixs) k
  constructor
  · intro hk
    obtain ⟨⟨k', flags⟩, he, rfl⟩ := List.mem_map.mp hk
    by_contra hnot
    rw [if_neg hnot] at hget
    exact (Table.get_eq_none_iff _).mp hget flags he
  · intro hk
    rw [if_pos hk] at hget
    exact List.mem_map.mpr ⟨_, (Table.get_eq_some_iff _).mp hget, rfl⟩

theorem payer_mem_keyUses : payer ∈ (keyUses payer ixs).map (·.pubkey) := by
  simp [keyUses, AccountMeta.new]

/-- The payer and the other keys are the keys that are used, each once. -/
theorem length_remove_payer (payer : Pubkey) (ixs : List Instruction) :
    ((compileKeys payer ixs).remove payer).entries.length + 1 =
      keyCount payer ixs := by
  have hnodup : (payer :: ((compileKeys payer ixs).remove payer).entries.map Prod.fst).Nodup := by
    refine List.nodup_cons.mpr ⟨?_, Table.nodup_keys _⟩
    intro hmem
    obtain ⟨e, he, hkey⟩ := List.mem_map.mp hmem
    exact ((Table.mem_remove _).mp he).1 hkey
  have hperm := (List.perm_ext_iff_of_nodup hnodup
    (List.nodup_dedup ((keyUses payer ixs).map (·.pubkey)))).mpr fun k => ?_
  · rw [keyCount, ← hperm.length_eq, List.length_cons, List.length_map]
  · rw [List.mem_dedup, ← mem_keys_compileKeys_iff, List.mem_cons]
    by_cases hk : k = payer
    · exact iff_of_true (Or.inl hk) (mem_keys_compileKeys_iff.mpr (hk ▸ payer_mem_keyUses))
    · rw [or_iff_right hk, List.mem_map, List.mem_map]
      refine exists_congr fun e => and_congr_left fun hkey => ?_
      rw [Table.mem_remove, and_iff_right (hkey ▸ hk)]

/-- The rights of a key in a transaction : those that some use asks for. -/
def usedFlags (payer : Pubkey) (ixs : List Instruction) (k : Pubkey) : KeyMeta :=
  ⟨(keyUses payer ixs).any fun m => m.pubkey = k && m.isSigner,
    (keyUses payer ixs).any fun m => m.pubkey = k && m.isWritable⟩

/-- The keys that stand in a message behind the payer, by their flags. -/
theorem mem_keysWith_remove_iff {flags : KeyMeta} {k : Pubkey} :
    k ∈ keysWith ((compileKeys payer ixs).remove payer) flags ↔
      k ≠ payer ∧ k ∈ (keyUses payer ixs).map (·.pubkey) ∧ usedFlags payer ixs k = flags := by
  have hget : (k, flags) ∈ (compileKeys payer ixs).entries ↔
      k ∈ (keyUses payer ixs).map (·.pubkey) ∧ usedFlags payer ixs k = flags := by
    rw [← Table.get_eq_some_iff, compileKeys, get_foldl_noteUse]
    split_ifs with hk
    · rw [Option.some_inj, and_iff_right hk, usedFlags]
    · exact iff_of_false nofun fun h => hk h.1
  rw [keysWith, List.mem_map, ← hget]
  constructor
  · rintro ⟨⟨k', flags'⟩, he, rfl⟩
    obtain ⟨hentry, hflags⟩ := List.mem_filter.mp he
    obtain rfl : flags' = flags := of_decide_eq_true hflags
    exact (Table.mem_remove _).mp hentry
  · intro h
    exact ⟨(k, flags), List.mem_filter.mpr ⟨(Table.mem_remove _).mpr h, decide_eq_true rfl⟩, rfl⟩

/-- How a message is put together from the keys with equal flags. -/
theorem exists_groups_of_newMessage {blockhash : List.Vector UInt8 32} {m : Message}
    (h : newMessage ixs payer blockhash = some m) :
    ∃ group : KeyMeta → List Pubkey, (∀ flags, (group flags).Nodup) ∧
      (∀ flags k, k ∈ group flags ↔
        k ≠ payer ∧ k ∈ (keyUses payer ixs).map (·.pubkey) ∧ usedFlags payer ixs k = flags) ∧
      m.accountKeys = payer :: group ⟨true, true⟩ ++ group ⟨true, false⟩ ++ group ⟨false, true⟩ ++
        group ⟨false, false⟩ ∧
      m.numRequiredSignatures.toNat =
        (payer :: group ⟨true, true⟩).length + (group ⟨true, false⟩).length ∧
      m.numReadonlySignedAccounts.toNat = (group ⟨true, false⟩).length ∧
      m.numReadonlyUnsignedAccounts.toNat = (group ⟨false, false⟩).length ∧
      m.recentBlockhash = blockhash ∧
      m.instructions = ixs.map (compileInstruction m.accountKeys) := by
  have hu8 : ∀ {n : Nat} {x : UInt8}, tryIntoU8 n = some x → x.toNat = n := by
    intro n x hx
    unfold tryIntoU8 at hx
    split_ifs at hx with hn
    rw [← Option.some_inj.mp hx]
    exact UInt8.toNat_ofNat_of_lt' hn
  unfold newMessage at h
  simp only [Option.bind_eq_bind, Option.bind_eq_some_iff, Option.pure_def, Option.some_inj] at h
  obtain ⟨required, hrequired, readonlySigned, hsigned, readonlyUnsigned, hunsigned, rfl⟩ := h
  refine ⟨keysWith ((compileKeys payer ixs).remove payer), fun flags => ?_,
    fun _ _ => mem_keysWith_remove_iff, rfl, hu8 hrequired, hu8 hsigned, hu8 hunsigned, rfl, rfl⟩
  exact (Table.nodup_keys _).sublist (List.filter_sublist.map Prod.fst)

/-- No key but the payer is asked to sign. -/
def OnlyPayerSigns (payer : Pubkey) (ixs : List Instruction) : Prop :=
  ∀ ix ∈ ixs, ∀ m ∈ ix.accounts, m.isSigner = true → m.pubkey = payer

theorem OnlyPayerSigns.of_mem_keyUses (h : OnlyPayerSigns payer ixs) {m : AccountMeta}
    (hm : m ∈ keyUses payer ixs) (hsigner : m.isSigner = true) : m.pubkey = payer := by
  rcases List.mem_append.mp hm with hm | hm
  · obtain ⟨ix, hix, hm⟩ := List.mem_flatMap.mp hm
    rcases List.mem_cons.mp hm with rfl | hm
    · exact absurd hsigner (by simp [AccountMeta.newReadonly])
    · exact h ix hix m hm hsigner
  · rw [List.mem_singleton.mp hm]
    rfl

theorem OnlyPayerSigns.keysWith_eq_nil (h : OnlyPayerSigns payer ixs) (writable : Bool) :
    keysWith ((compileKeys payer ixs).remove payer) ⟨true, writable⟩ = [] := by
  rw [keysWith, List.map_eq_nil_iff, List.filter_eq_nil_iff]
  rintro ⟨k, flags⟩ he hflags
  obtain ⟨hne, he⟩ := (Table.mem_remove _).mp he
  obtain rfl : flags = ⟨true, writable⟩ := of_decide_eq_true hflags
  have hget := (Table.get_eq_some_iff _).mpr he
  rw [compileKeys, get_foldl_noteUse] at hget
  split_ifs at hget
  have hsigner := congrArg KeyMeta.isSigner (Option.some_inj.mp hget)
  obtain ⟨m, hm, huse⟩ := List.any_eq_true.mp hsigner
  rw [Bool.and_eq_true, decide_eq_true_eq] at huse
  exact hne (huse.1 ▸ h.of_mem_keyUses hm huse.2)

/-- The message when only the payer signs. -/
theorem OnlyPayerSigns.exists_newMessage (h : OnlyPayerSigns payer ixs)
    (blockhash : List.Vector UInt8 32)
    (hkeys : keyCount payer ixs < 256) :
    ∃ message keys, newMessage ixs payer blockhash = some message ∧
      message.numRequiredSignatures = 1 ∧ message.accountKeys = payer :: keys ∧
      message.accountKeys.length = keyCount payer ixs ∧
      message.instructions = ixs.map (compileInstruction message.accountKeys) := by
  have hlength := length_remove_payer payer ixs
  have hsum := length_keysWith ((compileKeys payer ixs).remove payer)
  have hnil := h.keysWith_eq_nil
  unfold newMessage
  generalize (compileKeys payer ixs).remove payer = others at *
  rw [hnil, hnil, List.length_nil] at hsum
  have hunsigned : (keysWith others ⟨false, false⟩).length < 256 := by omega
  have haccepted : tryIntoU8 (keysWith others ⟨false, false⟩).length =
      some (UInt8.ofNat (keysWith others ⟨false, false⟩).length) := if_pos hunsigned
  simp only [hnil, haccepted]
  refine ⟨_, _, rfl, rfl, rfl, ?_, rfl⟩
  simp only [List.length_append, List.length_cons, List.length_nil]
  omega

/-! ## Sizes -/

/-- The size of an instruction in a message. -/
def Instruction.size (ix : Instruction) : Nat :=
  1 + ((compactU16 ix.accounts.length).length + ix.accounts.length) +
    ((compactU16 ix.data.length).length + ix.data.length)

theorem length_serialize_compileInstruction (keys : List Pubkey) (ix : Instruction) :
    (compileInstruction keys ix).serialize.length = ix.size := by
  have hbyte : ∀ b : UInt8, (List.singleton b).length = 1 := fun _ => rfl
  rw [CompiledInstruction.serialize, List.length_cons, List.length_append,
    length_shortVec_of_forall hbyte, length_shortVec_of_forall hbyte, Instruction.size]
  simp only [compileInstruction, List.length_map]
  omega

theorem length_serialize_message (m : Message) :
    m.serialize.length = 35 + (compactU16 m.accountKeys.length).length +
      32 * m.accountKeys.length + (compactU16 m.instructions.length).length +
      (m.instructions.map fun ix => ix.serialize.length).sum := by
  have hkey : ∀ k : Pubkey, k.toList.length = 32 := List.Vector.toList_length
  simp only [Message.serialize, List.length_append, length_shortVec_of_forall hkey,
    length_shortVec, hkey, List.length_cons, List.length_nil]
  omega

/-- The transaction of a payer who alone signs. -/
theorem OnlyPayerSigns.exists_signedBytes {keypair : Keypair}
    (h : OnlyPayerSigns keypair.pubkey ixs) (blockhash : List.Vector UInt8 32)
    (hkeys : keyCount keypair.pubkey ixs < 128)
    (hixs : ixs.length < 128) :
    ∃ tx, signedBytes keypair blockhash ixs = some tx ∧
      tx.length = 102 + 32 * keyCount keypair.pubkey ixs +
        (ixs.map fun ix => ix.size).sum := by
  obtain ⟨message, keys, hmessage, hrequired, hpayer, hlength, hcompiled⟩ :=
    h.exists_newMessage blockhash (by omega)
  have htransaction : newTransaction keypair message =
      some ⟨[keypair.sign message.serialize], message⟩ := by
    simp [newTransaction, hrequired, hpayer]
  refine ⟨Transaction.serialize ⟨[keypair.sign message.serialize], message⟩, ?_, ?_⟩
  · simp [signedBytes, hmessage, htransaction]
  · have hsignature : ∀ v : List.Vector UInt8 64, v.toList.length = 64 :=
      List.Vector.toList_length
    rw [Transaction.serialize, List.length_append, length_shortVec_of_forall hsignature,
      length_serialize_message, hlength, hcompiled, List.map_map, List.length_map,
      length_compactU16_of_lt hkeys, length_compactU16_of_lt hixs]
    simp only [Function.comp_def, length_serialize_compileInstruction, List.length_singleton,
      length_compactU16_of_lt (n := 1) (by decide)]
    omega

/-! ## The transaction of a pool -/

section Pool

variable (c : Crates)

/-- `PACKET_DATA_SIZE`. -/
def packetDataSize : Nat := 1232

/-- `create_pool_atomic` sends one transaction, and it fits in a packet. What is sent is recorded in
the place of the events. -/
def PoolFits (keypair : Keypair) (blockhash : List.Vector UInt8 32)
    (newUuidBytes : Nat → UuidBytes) (drts : List ResolvedDrt) : Prop :=
  ∃ created tx, createPoolAtomic c (fun ixs => .ok ([], [signedBytes keypair blockhash ixs]))
      newUuidBytes keypair.pubkey drts = .ok created ∧
    created.events = [some tx] ∧ tx.length ≤ packetDataSize

/-- The addresses of a right : its configuration, its mint and the account of the owner. -/
def rightAddresses (ownerPk pool : Pubkey) (rid : UuidBytes) : List Pubkey :=
  let mint := (deriveMintPda c pool rid).1
  [(deriveDrtConfigPda c pool rid).1, mint, deriveUserAta c ownerPk mint]

/-- The addresses that every registration of a pool names. -/
def sharedAddresses (ownerPk pool : Pubkey) : List Pubkey :=
  [ownerPk, pool, drtProgramId, systemProgramId, tokenProgramId, associatedTokenProgramId,
    rentSysvarId]

/-- The addresses of a pool and of its rights. -/
def addresses (ownerPk pool : Pubkey) (rightIds : List UuidBytes) : List Pubkey :=
  (buildComputeBudgetIx 1400000).programId ::
    (sharedAddresses ownerPk pool ++ rightIds.flatMap (rightAddresses c ownerPk pool))

/-- The addresses in the transaction of a pool with `n` rights. -/
def poolAddresses (newUuidBytes : Nat → UuidBytes) (ownerPk : Pubkey) (n : Nat) : List Pubkey :=
  addresses c ownerPk (derivePoolPda c (newUuidBytes 0)).1
    ((List.range n).map fun i => newUuidBytes (i + 1))

/-- The size of a registration without its addresses. Its data has a second byte of length from 128
bytes on. -/
def registrationSize (d : ResolvedDrt) : Nat :=
  81 + len d.codeRepoUrl + if len d.codeRepoUrl < 60 then 0 else 1

/-- What a transaction has to know of the instruction for a right. -/
structure Registers (ownerPk pool : Pubkey) (p : ResolvedDrt × UuidBytes) (ix : Instruction) :
    Prop where
  size_eq : ix.size = registrationSize p.1
  signer : ∀ m ∈ ix.accounts, m.isSigner = true → m.pubkey = ownerPk
  mem_iff : ∀ k, k ∈ ix.programId :: ix.accounts.map (·.pubkey) ↔
    k ∈ sharedAddresses ownerPk pool ∨ k ∈ rightAddresses c ownerPk pool p.2

variable {c}

theorem exists_registers (ownerPk pool : Pubkey) {p : ResolvedDrt × UuidBytes}
    (hurl : len p.1.codeRepoUrl ≤ maxCodeRepoUrlLen) :
    ∃ ix, buildRegisterDrt c ownerPk pool ownerPk p.2 p.1.codeRepoUrl p.1.codeHash p.1.supply =
      .ok ix ∧ Registers c ownerPk pool p ix := by
  have hlen : len p.1.codeRepoUrl < 2 ^ 32 := hurl.trans_lt (by decide)
  rw [buildRegisterDrt, serializeString, if_pos hlen]
  refine ⟨_, rfl, ?_, ?_, ?_⟩
  · unfold maxCodeRepoUrlLen at hurl
    have hdata : (discRegisterDrt ++ p.2.toList ++ (leBytes 4 (len p.1.codeRepoUrl) ++
        asBytes p.1.codeRepoUrl) ++ p.1.codeHash.toList ++ leBytes 8 p.1.supply.toNat).length =
          68 + len p.1.codeRepoUrl := by
      simp only [List.length_append, length_leBytes, length_asBytes, List.Vector.toList_length,
        discRegisterDrt, List.length_cons, List.length_nil]
      omega
    rw [Instruction.size, hdata, length_compactU16, length_compactU16, registrationSize]
    simp only [List.length_cons, List.length_nil]
    split_ifs <;> omega
  · simp [AccountMeta.new, AccountMeta.newReadonly]
  · intro k
    simp only [AccountMeta.new, AccountMeta.newReadonly, sharedAddresses, rightAddresses,
      List.map_cons, List.map_nil, List.mem_cons, List.not_mem_nil, or_false]
    grind

theorem mem_flatMap_registered_iff {ownerPk pool : Pubkey} {ps : List (ResolvedDrt × UuidBytes)}
    {registered : List Instruction} (h : List.Forall₂ (Registers c ownerPk pool) ps registered)
    (k : Pubkey) :
    k ∈ registered.flatMap (fun ix => ix.programId :: ix.accounts.map (·.pubkey)) ↔
      ∃ p ∈ ps, k ∈ sharedAddresses ownerPk pool ∨ k ∈ rightAddresses c ownerPk pool p.2 := by
  induction h with
  | nil => simp
  | cons hp _ ih =>
    rw [List.flatMap_cons, List.mem_append, hp.mem_iff, ih, List.exists_mem_cons_iff]

/-- The keys of the instructions of a pool are its addresses. -/
theorem mem_keyUses_poolIxs_iff {ownerPk pool : Pubkey} {poolUuid : UuidBytes}
    {ps : List (ResolvedDrt × UuidBytes)} {registered : List Instruction} (hne : ps ≠ [])
    (h : List.Forall₂ (Registers c ownerPk pool) ps registered) (k : Pubkey) :
    k ∈ (keyUses ownerPk (poolIxs ownerPk pool poolUuid registered)).map (·.pubkey) ↔
      k ∈ addresses c ownerPk pool (ps.map Prod.snd) := by
  have hright : (∃ p ∈ ps, k ∈ rightAddresses c ownerPk pool p.2) ↔
      k ∈ (ps.map Prod.snd).flatMap (rightAddresses c ownerPk pool) := by
    simp only [List.mem_flatMap, List.mem_map]
    exact ⟨fun ⟨p, hp, hk⟩ => ⟨p.2, ⟨p, hp, rfl⟩, hk⟩, fun ⟨_, ⟨p, hp, rfl⟩, hk⟩ => ⟨p, hp, hk⟩⟩
  have hregistered := mem_flatMap_registered_iff h k
  obtain ⟨p, hp⟩ := List.exists_mem_of_ne_nil ps hne
  have hshared : ∀ q : Prop, (∃ p ∈ ps, q) ↔ q := fun q =>
    ⟨fun ⟨_, _, hq⟩ => hq, fun hq => ⟨p, hp, hq⟩⟩
  simp only [and_or_left, exists_or, hshared, hright] at hregistered
  rw [map_pubkey_keyUses, poolIxs, List.flatMap_append, List.flatMap_append]
  simp only [List.mem_append, hregistered, addresses, sharedAddresses, buildComputeBudgetIx,
    buildCreatePool, buildSealPool, AccountMeta.new, AccountMeta.newReadonly, List.flatMap_cons,
    List.flatMap_nil, List.map_cons, List.map_nil, List.mem_cons, List.not_mem_nil, or_false]
  grind

theorem onlyPayerSigns_poolIxs {ownerPk pool : Pubkey} (poolUuid : UuidBytes)
    {ps : List (ResolvedDrt × UuidBytes)} {registered : List Instruction}
    (h : List.Forall₂ (Registers c ownerPk pool) ps registered) :
    OnlyPayerSigns ownerPk (poolIxs ownerPk pool poolUuid registered) := by
  intro ix hix
  rcases List.mem_append.mp hix with hix | hix
  · rcases List.mem_append.mp hix with hix | hix
    · rcases List.mem_pair.mp hix with rfl | rfl
      · simp [buildComputeBudgetIx]
      · simp [buildCreatePool, AccountMeta.new, AccountMeta.newReadonly]
    · obtain ⟨p, -, hp⟩ := exists_of_mem_right h hix
      exact hp.signer
  · rw [List.mem_singleton.mp hix]
    simp [buildSealPool, AccountMeta.new, AccountMeta.newReadonly]

theorem sum_size_poolIxs {ownerPk pool : Pubkey} {poolUuid : UuidBytes}
    {ps : List (ResolvedDrt × UuidBytes)} {registered : List Instruction}
    (h : List.Forall₂ (Registers c ownerPk pool) ps registered) :
    ((poolIxs ownerPk pool poolUuid registered).map fun ix => ix.size).sum =
      51 + ((ps.map Prod.fst).map registrationSize).sum := by
  have hregistered : registered.map (fun ix => ix.size) =
      (ps.map Prod.fst).map registrationSize := by
    induction h with
    | nil => rfl
    | cons hp _ ih => rw [List.map_cons, List.map_cons, List.map_cons, hp.size_eq, ih]
  have hbudget : (buildComputeBudgetIx 1400000).size = 8 := by
    simp [Instruction.size, buildComputeBudgetIx, length_leBytes, length_compactU16]
  have hcreate : (buildCreatePool ownerPk pool poolUuid).size = 30 := by
    simp [Instruction.size, buildCreatePool, discCreatePool, length_compactU16]
  have hseal : (buildSealPool ownerPk pool).size = 13 := by
    simp [Instruction.size, buildSealPool, discSealPool, length_compactU16]
  simp only [poolIxs, List.map_append, List.sum_append, List.map_cons, List.map_nil,
    List.sum_cons, List.sum_nil, hregistered, hbudget, hcreate, hseal]
  omega

theorem length_addresses (ownerPk pool : Pubkey) (rightIds : List UuidBytes) :
    (addresses c ownerPk pool rightIds).length = 8 + 3 * rightIds.length := by
  simp only [addresses, sharedAddresses, rightAddresses, List.length_append, List.length_flatMap,
    List.length_cons, List.length_nil, List.map_const', List.sum_replicate, smul_eq_mul]
  omega

/-- The bytes of the transaction with the instructions of a pool. -/
theorem exists_signedBytes_poolIxs {keypair : Keypair} {pool : Pubkey} (poolUuid : UuidBytes)
    {ps : List (ResolvedDrt × UuidBytes)} {registered : List Instruction} (hne : ps ≠ [])
    (hmax : ps.length ≤ maxDrtsPerPool)
    (h : List.Forall₂ (Registers c keypair.pubkey pool) ps registered)
    (blockhash : List.Vector UInt8 32) :
    ∃ tx, signedBytes keypair blockhash (poolIxs keypair.pubkey pool poolUuid registered) =
        some tx ∧
      tx.length = 153 + 32 * (addresses c keypair.pubkey pool (ps.map Prod.snd)).dedup.length +
        ((ps.map Prod.fst).map registrationSize).sum := by
  unfold maxDrtsPerPool at hmax
  have hkeys : keyCount keypair.pubkey (poolIxs keypair.pubkey pool poolUuid registered) =
      (addresses c keypair.pubkey pool (ps.map Prod.snd)).dedup.length := by
    refine ((List.perm_ext_iff_of_nodup (List.nodup_dedup _) (List.nodup_dedup _)).mpr
      fun k => ?_).length_eq
    rw [List.mem_dedup, List.mem_dedup, mem_keyUses_poolIxs_iff hne h]
  have hbound := (List.dedup_sublist (addresses c keypair.pubkey pool (ps.map Prod.snd))).length_le
  rw [length_addresses, List.length_map] at hbound
  have hixs : (poolIxs keypair.pubkey pool poolUuid registered).length = ps.length + 3 := by
    simp only [poolIxs, List.length_append, List.length_cons, List.length_nil, h.length_eq]
    omega
  obtain ⟨tx, htx, hsize⟩ := (onlyPayerSigns_poolIxs poolUuid h).exists_signedBytes blockhash
    (by omega) (by omega)
  refine ⟨tx, htx, ?_⟩
  rw [hsize, hkeys, sum_size_poolIxs h]
  omega

variable {reqs : List DrtRequest} {allowAppend : Bool} {drts : List ResolvedDrt}

/-- The second loop builds a registration for each right. -/
theorem exists_forall₂_registers (hresolves : List.Forall₂ Resolves reqs drts)
    (ownerPk pool : Pubkey) (rightIds : List UuidBytes) :
    ∃ registered, registerIxs c ownerPk pool (drts.zip rightIds) = .ok registered ∧
      List.Forall₂ (Registers c ownerPk pool) (drts.zip rightIds) registered := by
  refine registerIxs_ok_of_forall ownerPk pool fun p hp => ?_
  obtain ⟨req, -, hreq⟩ := exists_of_mem_right hresolves (List.of_mem_zip hp).1
  exact exists_registers ownerPk pool hreq.len_url_le

/-- The transaction of a pool and its size. -/
theorem exists_created (h : validateDrtRequests reqs allowAppend = .ok (.ok drts))
    (keypair : Keypair) (blockhash : List.Vector UInt8 32) (newUuidBytes : Nat → UuidBytes) :
    ∃ created tx, createPoolAtomic c (fun ixs => .ok ([], [signedBytes keypair blockhash ixs]))
        newUuidBytes keypair.pubkey drts = .ok created ∧
      created.events = [some tx] ∧
      tx.length = 153 +
        32 * (poolAddresses c newUuidBytes keypair.pubkey drts.length).dedup.length +
        (drts.map registrationSize).sum := by
  obtain ⟨hresolves, -⟩ := validateDrtRequests_ok h
  obtain ⟨hne, hmax⟩ := length_of_validateDrtRequests_ok h
  have hids := recordDrts_snd (c := c) (derivePoolPda c (newUuidBytes 0)).1 newUuidBytes drts
  obtain ⟨registered, hixs, hregisters⟩ := exists_forall₂_registers (c := c) hresolves
    keypair.pubkey (derivePoolPda c (newUuidBytes 0)).1
    (recordDrts c (derivePoolPda c (newUuidBytes 0)).1 newUuidBytes drts).2
  have hcreated := createPoolAtomic_eq
    (fun ixs => .ok (([] : Str), [signedBytes keypair blockhash ixs])) hixs
  rw [hids] at hregisters
  have hlength : (drts.zip ((List.range drts.length).map fun i => newUuidBytes (i + 1))).length =
      reqs.length := by
    rw [List.length_zip, List.length_map, List.length_range, Nat.min_self, hresolves.length_eq]
  obtain ⟨tx, htx, hsize⟩ := exists_signedBytes_poolIxs (newUuidBytes 0)
    (List.ne_nil_of_length_pos (hlength ▸ List.length_pos_of_ne_nil hne)) (hlength ▸ hmax)
    hregisters blockhash
  rw [htx] at hcreated
  refine ⟨_, tx, hcreated, rfl, ?_⟩
  rw [hsize, List.map_fst_zip (by simp), List.map_snd_zip (by simp), poolAddresses]

theorem poolFits_iff_length_le {keypair : Keypair} {blockhash : List.Vector UInt8 32}
    {newUuidBytes : Nat → UuidBytes} {created : CreatedPool (Option Bytes)} {tx : Bytes}
    (hcreated : createPoolAtomic c (fun ixs => .ok ([], [signedBytes keypair blockhash ixs]))
      newUuidBytes keypair.pubkey drts = .ok created) (hevents : created.events = [some tx]) :
    PoolFits c keypair blockhash newUuidBytes drts ↔ tx.length ≤ packetDataSize := by
  constructor
  · rintro ⟨created', tx', hcreated', hevents', hfits⟩
    obtain rfl := Except.ok.inj (hcreated.symm.trans hcreated')
    obtain rfl : tx = tx' := by simpa using hevents.symm.trans hevents'
    exact hfits
  · intro hfits
    exact ⟨created, tx, hcreated, hevents, hfits⟩

/-- A right costs three addresses and its registration, if no two addresses are equal. -/
theorem poolFits_iff_of_nodup (h : validateDrtRequests reqs allowAppend = .ok (.ok drts))
    {keypair : Keypair} (blockhash : List.Vector UInt8 32) {newUuidBytes : Nat → UuidBytes}
    (hnodup : (poolAddresses c newUuidBytes keypair.pubkey drts.length).Nodup) :
    PoolFits c keypair blockhash newUuidBytes drts ↔
      409 + 96 * drts.length + (drts.map registrationSize).sum ≤ packetDataSize := by
  obtain ⟨created, tx, hcreated, hevents, hlength⟩ :=
    exists_created (c := c) h keypair blockhash newUuidBytes
  rw [hnodup.dedup, poolAddresses, length_addresses, List.length_map, List.length_range] at hlength
  rw [poolFits_iff_length_le hcreated hevents, hlength]
  omega

theorem length_mul_le_sum_registrationSize (drts : List ResolvedDrt) :
    81 * drts.length ≤ (drts.map registrationSize).sum := by
  have hsum := List.card_nsmul_le_sum (drts.map registrationSize) 81 fun n hn => ?_
  · rwa [List.length_map, smul_eq_mul, mul_comm] at hsum
  · obtain ⟨d, -, rfl⟩ := List.mem_map.mp hn
    unfold registrationSize
    omega

/-- Five rights never fit. -/
theorem not_poolFits_of_five_le (h : validateDrtRequests reqs allowAppend = .ok (.ok drts))
    {keypair : Keypair} (blockhash : List.Vector UInt8 32) {newUuidBytes : Nat → UuidBytes}
    (hnodup : (poolAddresses c newUuidBytes keypair.pubkey drts.length).Nodup)
    (hfive : 5 ≤ drts.length) : ¬PoolFits c keypair blockhash newUuidBytes drts := by
  rw [poolFits_iff_of_nodup h blockhash hnodup, packetDataSize]
  have hsum := length_mul_le_sum_registrationSize drts
  omega

end Pool

/-! ## Which pools fit -/

def sampleKeypair : Keypair :=
  ⟨.replicate 32 7, fun _ => .replicate 64 9⟩

def fiveRequests : List DrtRequest :=
  ["mean", "median", "mode", "minimum", "maximum"].map fun name =>
    ⟨name.toList, 3, some sampleScriptUrl, some ('0' :: 'x' :: List.replicate 64 'a')⟩

def fiveDrts : List ResolvedDrt :=
  ["mean", "median", "mode", "minimum", "maximum"].map fun name =>
    ⟨name.toList, 3, sampleScriptUrl, .replicate 32 170⟩

/-- A pool fits in a packet exactly if its addresses and its registrations leave room for the rest
of the transaction. -/
theorem poolFits_iff {c : Crates} {reqs : List DrtRequest} {allowAppend : Bool}
    {drts : List ResolvedDrt} (h : validateDrtRequests reqs allowAppend = .ok (.ok drts))
    (keypair : Keypair) (blockhash : List.Vector UInt8 32) (newUuidBytes : Nat → UuidBytes) :
    PoolFits c keypair blockhash newUuidBytes drts ↔
      153 + 32 * (poolAddresses c newUuidBytes keypair.pubkey drts.length).dedup.length +
        (drts.map registrationSize).sum ≤ packetDataSize := by
  obtain ⟨created, tx, hcreated, hevents, hlength⟩ :=
    exists_created (c := c) h keypair blockhash newUuidBytes
  rw [poolFits_iff_length_le hcreated hevents, hlength]

theorem poolFits_sample :
    PoolFits derivingCrates sampleKeypair zeroHash sampleIds (sampleDrts sampleScriptUrl) :=
  (poolFits_iff validateDrtRequests_sample _ _ _).mpr (by decide +kernel)

theorem nodup_poolAddresses_five :
    (poolAddresses derivingCrates sampleIds sampleKeypair.pubkey 5).Nodup := by
  decide +kernel

theorem not_poolFits_five : validateDrtRequests fiveRequests true = .ok (.ok fiveDrts) ∧
    ¬PoolFits derivingCrates sampleKeypair zeroHash sampleIds fiveDrts := by
  have haccepted : validateDrtRequests fiveRequests true = .ok (.ok fiveDrts) := by
    decide +kernel
  exact ⟨haccepted, not_poolFits_of_five_le haccepted _ nodup_poolAddresses_five (le_refl 5)⟩

end RelationalSdk
