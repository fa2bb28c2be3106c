import RelationalSdk.TransactionSize

/-!
# What a transaction means

The enclave builds instructions, compiles them to a message, signs the bytes of the message and
sends them. What the chain gets is only these bytes. `readTransaction` reads them, and
`Message.decompile` gives the meaning of a message : the instructions, with the keys for the
positions and with the rights that the header gives to the positions.

`readsAs_signedBytes` : the bytes that are sent are read as one transaction, signed by the wallet
alone, whose instructions are those that were built, in their order and with their data, and every
key has the rights that some instruction asks for it, and no others. This holds up to 256 keys. From
there on positions no longer fit an octet and are cut off.
-/

namespace RelationalSdk

open Text KeyedTable Wire

/-! ## Reading the bytes -/

/-- What is written as a short vector. -/
abbrev ShortList (α : Type) := {xs : List α // xs.length < 65536}

/-- An instruction on the wire. -/
abbrev WireInstruction := UInt8 × ShortList UInt8 × ShortList UInt8

/-- A message on the wire. -/
abbrev WireMessage :=
  (UInt8 × UInt8 × UInt8) × ShortList Pubkey × List.Vector UInt8 32 × ShortList WireInstruction

def instructionFormat : ByteFormat WireInstruction :=
  ByteFormat.byte.seq (ByteFormat.byte.shortVec.seq ByteFormat.byte.shortVec)

def messageFormat : ByteFormat WireMessage :=
  (ByteFormat.byte.seq (ByteFormat.byte.seq ByteFormat.byte)).seq
    ((ByteFormat.bytes 32).shortVec.seq
      ((ByteFormat.bytes 32).seq instructionFormat.shortVec))

def transactionFormat : ByteFormat (ShortList (List.Vector UInt8 64) × WireMessage) :=
  (ByteFormat.bytes 64).shortVec.seq messageFormat

def WireInstruction.compiled : WireInstruction → CompiledInstruction
  | (programIdIndex, accounts, data) => ⟨programIdIndex, accounts.val, data.val⟩

def WireMessage.message : WireMessage → Message
  | ((required, readonlySigned, readonlyUnsigned), accountKeys, blockhash, instructions) =>
    ⟨required, readonlySigned, readonlyUnsigned, accountKeys.val, blockhash,
      instructions.val.map WireInstruction.compiled⟩

/-- What the bytes of a transaction denote. -/
def readTransaction (b : Bytes) : Option Transaction :=
  (readAll transactionFormat.read b).map fun p => ⟨p.1.val, p.2.message⟩

/-- The vectors of an instruction have lengths of 16 bits. -/
def CompiledInstruction.Short (ix : CompiledInstruction) : Prop :=
  ix.accounts.length < 65536 ∧ ix.data.length < 65536

/-- The vectors of a message have lengths of 16 bits. -/
structure Message.Short (m : Message) : Prop where
  accountKeys : m.accountKeys.length < 65536
  instructions : m.instructions.length < 65536
  instruction : ∀ ix ∈ m.instructions, ix.Short

theorem write_messageFormat (w : WireMessage) : messageFormat.write w = w.message.serialize := by
  obtain ⟨⟨required, readonlySigned, readonlyUnsigned⟩, accountKeys, blockhash, ws, hws⟩ := w
  have hvec : shortVec instructionFormat.write ws =
      shortVec CompiledInstruction.serialize (ws.map WireInstruction.compiled) := by
    rw [shortVec, shortVec, List.length_map, List.flatMap_map]
    rfl
  change [_, _, _] ++ (shortVec List.Vector.toList accountKeys.val ++ (blockhash.toList ++
    shortVec instructionFormat.write ws)) = _
  rw [hvec, Message.serialize]
  simp only [List.append_assoc]
  rfl

theorem short_message (w : WireMessage) : w.message.Short := by
  obtain ⟨_, accountKeys, _, ws, hws⟩ := w
  refine ⟨accountKeys.property, (List.length_map ..).trans_lt hws, fun ix hix => ?_⟩
  obtain ⟨w, -, rfl⟩ := List.mem_map.mp hix
  exact ⟨w.2.1.property, w.2.2.property⟩

theorem exists_wireInstructions {ixs : List CompiledInstruction} (h : ∀ ix ∈ ixs, ix.Short) :
    ∃ ws : List WireInstruction, ws.map WireInstruction.compiled = ixs := by
  refine ⟨ixs.attach.map fun ix => (ix.val.programIdIndex,
    ⟨ix.val.accounts, (h ix.val ix.property).1⟩, ⟨ix.val.data, (h ix.val ix.property).2⟩), ?_⟩
  rw [List.map_map]
  exact ixs.attach_map_subtype_val

theorem exists_wireMessage {m : Message} (h : m.Short) : ∃ w : WireMessage, w.message = m := by
  obtain ⟨ws, hws⟩ := exists_wireInstructions h.instruction
  have hlen : ws.length < 65536 := by
    rw [← List.length_map (f := WireInstruction.compiled), hws]
    exact h.instructions
  refine ⟨((m.numRequiredSignatures, m.numReadonlySignedAccounts, m.numReadonlyUnsignedAccounts),
    ⟨m.accountKeys, h.accountKeys⟩, m.recentBlockhash, ⟨ws, hlen⟩), ?_⟩
  rw [WireMessage.message, hws]

/-- Bytes are read as a transaction exactly if they are its bytes, and its vectors are short. -/
theorem readTransaction_eq_some_iff {b : Bytes} {tx : Transaction} :
    readTransaction b = some tx ↔
      (tx.signatures.length < 65536 ∧ tx.message.Short) ∧ b = tx.serialize := by
  have hwrite : ∀ p, transactionFormat.write p = Transaction.serialize ⟨p.1.val, p.2.message⟩ := by
    intro p
    rw [Transaction.serialize, ← write_messageFormat]
    rfl
  simp only [readTransaction, Option.map_eq_some_iff, ByteFormat.readAll_eq_some_iff]
  constructor
  · rintro ⟨p, rfl, rfl⟩
    exact ⟨⟨p.1.property, short_message p.2⟩, hwrite p⟩
  · rintro ⟨⟨hsignatures, hshort⟩, rfl⟩
    obtain ⟨w, hw⟩ := exists_wireMessage hshort
    refine ⟨(⟨tx.signatures, hsignatures⟩, w), ?_, ?_⟩
    · rw [hwrite, hw]
    · rw [hw]

/-! ## The meaning of a message -/

/-- The rights that the header gives to a position : those who sign come first, and in both parts
those that are written come before the others. -/
def Message.flags (m : Message) (i : Nat) : KeyMeta :=
  let signed := m.numRequiredSignatures.toNat
  let writtenSigned := signed - m.numReadonlySignedAccounts.toNat
  let writtenUnsigned := m.accountKeys.length - m.numReadonlyUnsignedAccounts.toNat
  ⟨i < signed, if i < signed then i < writtenSigned else i < writtenUnsigned⟩

/-- The key at a position, with its rights. -/
def Message.accountAt (m : Message) (i : UInt8) : Option AccountMeta :=
  (m.accountKeys[i.toNat]?).map fun k =>
    ⟨k, (m.flags i.toNat).isSigner, (m.flags i.toNat).isWritable⟩

/-- An instruction with its keys. -/
def Message.decompileInstruction (m : Message) (ix : CompiledInstruction) : Option Instruction := do
  let programId ← m.accountKeys[ix.programIdIndex.toNat]?
  let accounts ← ix.accounts.mapM m.accountAt
  pure ⟨programId, accounts, ix.data⟩

/-- The instructions of a message. -/
def Message.decompile (m : Message) : Option (List Instruction) :=
  m.instructions.mapM m.decompileInstruction

/-- An instruction in a transaction : its keys have their rights in the whole transaction. -/
def raised (payer : Pubkey) (ixs : List Instruction) (ix : Instruction) : Instruction where
  programId := ix.programId
  accounts := ix.accounts.map fun m =>
    let flags := usedFlags payer ixs m.pubkey
    ⟨m.pubkey, flags.isSigner, flags.isWritable⟩
  data := ix.data

variable {payer : Pubkey} {ixs : List Instruction} {blockhash : List.Vector UInt8 32} {m : Message}

theorem usedFlags_payer (payer : Pubkey) (ixs : List Instruction) :
    usedFlags payer ixs payer = ⟨true, true⟩ := by
  have hmem : AccountMeta.new payer true ∈ keyUses payer ixs :=
    List.mem_append_right _ (List.mem_singleton_self _)
  have hany : ∀ flag : AccountMeta → Bool, flag (.new payer true) = true →
      ((keyUses payer ixs).any fun m => m.pubkey = payer && flag m) = true := by
    intro flag hflag
    refine List.any_eq_true.mpr ⟨_, hmem, ?_⟩
    rw [hflag, Bool.and_true]
    exact decide_eq_true rfl
  rw [usedFlags, hany _ rfl, hany _ rfl]

/-- The header gives a key the rights that its uses ask for. -/
theorem flags_eq_usedFlags (h : newMessage ixs payer blockhash = some m) {i : Nat} {k : Pubkey}
    (hk : m.accountKeys[i]? = some k) : m.flags i = usedFlags payer ixs k := by
  obtain ⟨group, -, hmem, hkeys, hrequired, hsigned, hunsigned, -, -⟩ :=
    exists_groups_of_newMessage h
  have hused : ∀ {flags : KeyMeta} {j : Nat}, (group flags)[j]? = some k →
      usedFlags payer ixs k = flags := fun hj =>
    ((hmem _ k).mp (List.mem_of_getElem? hj)).2.2
  have hlt : i < m.accountKeys.length := (List.getElem?_eq_some_iff.mp hk).1
  rw [hkeys] at hk hlt
  rw [Message.flags, hrequired, hsigned, hunsigned, hkeys]
  have hpayer : ∀ {j : Nat}, (payer :: group ⟨true, true⟩)[j]? = some k →
      usedFlags payer ixs k = ⟨true, true⟩ := by
    intro j hj
    rcases List.mem_cons.mp (List.mem_of_getElem? hj) with rfl | hmem'
    · exact usedFlags_payer k ixs
    · exact ((hmem _ k).mp hmem').2.2
  generalize payer :: group ⟨true, true⟩ = written at *
  simp only [List.length_append] at hlt ⊢
  -- one case for each group that the position may be in
  rw [List.append_assoc, List.append_assoc, List.getElem?_append] at hk
  split_ifs at hk with ha
  · rw [hpayer hk, if_pos (by omega), decide_eq_true (by omega), decide_eq_true (by omega)]
  · rw [List.getElem?_append] at hk
    split_ifs at hk with hb
    · rw [hused hk, if_pos (by omega), decide_eq_true (by omega), decide_eq_false (by omega)]
    · rw [List.getElem?_append] at hk
      split_ifs at hk with hc
      · rw [hused hk, if_neg (by omega), decide_eq_false (by omega), decide_eq_true (by omega)]
      · rw [hused hk, if_neg (by omega), decide_eq_false (by omega), decide_eq_false (by omega)]

/-- The keys of a message are the keys that are used. -/
theorem mem_accountKeys_iff (h : newMessage ixs payer blockhash = some m) {k : Pubkey} :
    k ∈ m.accountKeys ↔ k ∈ (keyUses payer ixs).map (·.pubkey) := by
  obtain ⟨group, -, hmem, hkeys, -⟩ := exists_groups_of_newMessage h
  have hgroup : ∀ flags, k ∈ group flags → k ∈ (keyUses payer ixs).map (·.pubkey) :=
    fun flags hk => ((hmem flags k).mp hk).2.1
  rw [hkeys]
  simp only [List.mem_append, List.mem_cons]
  constructor
  · rintro ((((rfl | hk) | hk) | hk) | hk)
    · exact payer_mem_keyUses
    all_goals exact hgroup _ hk
  · intro hk
    by_cases hpayer : k = payer
    · exact Or.inl (Or.inl (Or.inl (Or.inl hpayer)))
    · have hin := (hmem (usedFlags payer ixs k) k).mpr ⟨hpayer, hk, rfl⟩
      rcases hflags : usedFlags payer ixs k with ⟨_ | _, _ | _⟩
      · exact Or.inr (hflags ▸ hin)
      · exact Or.inl (Or.inr (hflags ▸ hin))
      · exact Or.inl (Or.inl (Or.inr (hflags ▸ hin)))
      · exact Or.inl (Or.inl (Or.inl (Or.inr (hflags ▸ hin))))

/-- No key stands twice in a message. -/
theorem nodup_accountKeys (h : newMessage ixs payer blockhash = some m) : m.accountKeys.Nodup := by
  obtain ⟨group, hnodup, hmem, hkeys, -⟩ := exists_groups_of_newMessage h
  have hpayer : ∀ flags, payer ∉ group flags := fun flags hk => ((hmem flags payer).mp hk).1 rfl
  have hdisjoint : ∀ {f f' : KeyMeta}, f ≠ f' → List.Disjoint (group f) (group f') := by
    intro f f' hne k hk hk'
    exact hne (((hmem f k).mp hk).2.2.symm.trans ((hmem f' k).mp hk').2.2)
  have hcons : ∀ {f f' : KeyMeta}, f ≠ f' → List.Disjoint (payer :: group f) (group f') :=
    fun hne => List.disjoint_cons_left.mpr ⟨hpayer _, hdisjoint hne⟩
  rw [hkeys]
  refine (((List.nodup_cons.mpr ⟨hpayer _, hnodup _⟩).append (hnodup _) (hcons (by decide))).append
    (hnodup _) ?_).append (hnodup _) ?_
  · exact List.disjoint_append_left.mpr ⟨hcons (by decide), hdisjoint (by decide)⟩
  · exact List.disjoint_append_left.mpr ⟨List.disjoint_append_left.mpr
      ⟨hcons (by decide), hdisjoint (by decide)⟩, hdisjoint (by decide)⟩

theorem length_accountKeys (h : newMessage ixs payer blockhash = some m) :
    m.accountKeys.length = keyCount payer ixs := by
  refine List.Perm.length_eq ?_
  refine (List.perm_ext_iff_of_nodup (nodup_accountKeys h) (List.nodup_dedup _)).mpr fun k => ?_
  rw [mem_accountKeys_iff h, List.mem_dedup]

/-! ## Compiling keeps the meaning -/

/-- A computation that succeeds on every element. -/
theorem mapM_eq_some {α β : Type} {f : α → Option β} {g : α → β} {l : List α}
    (h : ∀ a ∈ l, f a = some (g a)) : l.mapM f = some (l.map g) := by
  induction l with
  | nil => rfl
  | cons a l ih =>
    obtain ⟨ha, hl⟩ := List.forall_mem_cons.mp h
    rw [List.mapM_cons, ha, ih hl]
    rfl

/-- The position of a key that is used leads back to the key. -/
theorem getElem?_idxOf (h : newMessage ixs payer blockhash = some m)
    (hcount : keyCount payer ixs ≤ 256) {k : Pubkey} (hk : k ∈ (keyUses payer ixs).map (·.pubkey)) :
    m.accountKeys[(UInt8.ofNat (m.accountKeys.idxOf k)).toNat]? = some k := by
  have hmem := (mem_accountKeys_iff h).mpr hk
  have hlt : m.accountKeys.idxOf k < 256 :=
    (List.idxOf_lt_length_iff.mpr hmem).trans_le ((length_accountKeys h).trans_le hcount)
  rw [UInt8.toNat_ofNat_of_lt' hlt]
  exact List.getElem?_idxOf hmem

theorem decompileInstruction_compileInstruction (h : newMessage ixs payer blockhash = some m)
    (hcount : keyCount payer ixs ≤ 256) {ix : Instruction} (hix : ix ∈ ixs) :
    m.decompileInstruction (compileInstruction m.accountKeys ix) = some (raised payer ixs ix) := by
  have hused : ∀ k ∈ ix.programId :: ix.accounts.map (·.pubkey),
      k ∈ (keyUses payer ixs).map (·.pubkey) := by
    intro k hk
    rw [map_pubkey_keyUses]
    exact List.mem_append_left _ (List.mem_flatMap.mpr ⟨ix, hix, hk⟩)
  have haccounts : (compileInstruction m.accountKeys ix).accounts.mapM m.accountAt =
      some (raised payer ixs ix).accounts := by
    rw [compileInstruction, List.mapM_map]
    refine mapM_eq_some fun a ha => ?_
    have hkey := getElem?_idxOf h hcount
      (hused a.pubkey (List.mem_cons_of_mem _ (List.mem_map_of_mem ha)))
    rw [Function.comp_apply, Message.accountAt, hkey, Option.map_some, flags_eq_usedFlags h hkey]
  rw [Message.decompileInstruction, haccounts]
  simp only [compileInstruction, getElem?_idxOf h hcount (hused _ List.mem_cons_self)]
  rfl

/-- A message means the instructions that it was compiled from. -/
theorem decompile_newMessage (h : newMessage ixs payer blockhash = some m)
    (hcount : keyCount payer ixs ≤ 256) : m.decompile = some (ixs.map (raised payer ixs)) := by
  obtain ⟨-, -, -, -, -, -, -, -, hixs⟩ := exists_groups_of_newMessage h
  rw [Message.decompile, hixs, List.mapM_map]
  exact mapM_eq_some fun ix hix => decompileInstruction_compileInstruction h hcount hix

/-- A transaction of a wallet : it is signed by the wallet and needs no other signature, the wallet
pays for it, and its instructions are these. -/
structure Means (keypair : Keypair) (blockhash : List.Vector UInt8 32) (ixs : List Instruction)
    (tx : Transaction) : Prop where
  signatures : tx.signatures = [keypair.sign tx.message.serialize]
  signer_iff : ∀ i, (tx.message.flags i).isSigner = true ↔ i = 0
  payer : tx.message.accountKeys.head? = some keypair.pubkey
  nodup : tx.message.accountKeys.Nodup
  recentBlockhash : tx.message.recentBlockhash = blockhash
  decompile : tx.message.decompile = some (ixs.map (raised keypair.pubkey ixs))

/-- Instructions that fit a message. -/
structure FitMessage (payer : Pubkey) (ixs : List Instruction) : Prop where
  onlyPayerSigns : OnlyPayerSigns payer ixs
  keyCount_lt : keyCount payer ixs < 256
  length_lt : ixs.length < 65536
  accounts_lt : ∀ ix ∈ ixs, ix.accounts.length < 65536
  data_lt : ∀ ix ∈ ixs, ix.data.length < 65536

/-- What is sent is read as a transaction of the wallet with the instructions that were built. -/
theorem readsAs_signedBytes (keypair : Keypair) (blockhash : List.Vector UInt8 32)
    (ixs : List Instruction) (h : FitMessage keypair.pubkey ixs) :
    ∃ b tx, signedBytes keypair blockhash ixs = some b ∧ readTransaction b = some tx ∧
      Means keypair blockhash ixs tx := by
  obtain ⟨message, keys, hmessage, hrequired, hpayer, hlength, hcompiled⟩ :=
    h.onlyPayerSigns.exists_newMessage blockhash h.keyCount_lt
  obtain ⟨-, -, -, -, -, -, -, hblockhash, -⟩ := exists_groups_of_newMessage hmessage
  have htransaction : newTransaction keypair message =
      some ⟨[keypair.sign message.serialize], message⟩ := by
    simp [newTransaction, hrequired, hpayer]
  have hkeyCount := h.keyCount_lt
  have hshort : message.Short := by
    refine ⟨by omega, ?_, ?_⟩
    · rw [hcompiled, List.length_map]
      exact h.length_lt
    · rw [hcompiled, List.forall_mem_map]
      intro ix hix
      exact ⟨(List.length_map ..).trans_lt (h.accounts_lt ix hix), h.data_lt ix hix⟩
  have hone : [keypair.sign message.serialize].length < 65536 :=
    List.length_singleton.trans_lt (by decide)
  refine ⟨_, ⟨[keypair.sign message.serialize], message⟩, ?_,
    readTransaction_eq_some_iff.mpr ⟨⟨hone, hshort⟩, rfl⟩, rfl, fun i => ?_, ?_,
    nodup_accountKeys hmessage, hblockhash, decompile_newMessage hmessage h.keyCount_lt.le⟩
  · simp [signedBytes, hmessage, htransaction]
  · rw [Message.flags, hrequired]
    simp only [decide_eq_true_eq]
    exact Nat.lt_one_iff
  · rw [hpayer]
    rfl

end RelationalSdk
