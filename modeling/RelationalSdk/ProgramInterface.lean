import RelationalSdk.ChainAccounts
import RelationalSdk.GrantAccounts
import RelationalSdk.Transfers

/-!
# The interface of the program

The program on the chain is described by its IDL, `digital_rights_tokens.json`. For each instruction
it has a discriminator, the types of the arguments, and the accounts in their order : what has to
sign, what is written, which addresses are fixed, which are derived from seeds, and which have to be
those that another account has recorded. The instructions are built by hand, with constants and with
orders of accounts that were copied from it.

`Accepts` is what the IDL says about an instruction, and the builders meet it. Between a builder and
the program there is a transaction, in which a key has the rights that any of the instructions asks
for. `Accepts.raised` : this takes nothing away. `createPool_accepted` : so the one transaction of a
new pool is read as the creation of the pool, the registrations of its rights in their order, and
its sealing, with the arguments that were validated.
-/

namespace RelationalSdk

open Text HexText Wire

/-! ## What an IDL says -/

/-- The type of an argument. -/
inductive ArgType where
  | array (n : Nat)
  | string
  | u64

/-- The values of a type. -/
def ArgType.Value : ArgType → Type
  | array n => List.Vector UInt8 n
  | string => BorshString
  | u64 => UInt64

/-- The layout of a type in Borsh. -/
def ArgType.layout : (t : ArgType) → ByteFormat t.Value
  | array n => .bytes n
  | string => stringLayout
  | u64 => u64Layout

/-- An argument as a seed. -/
def ArgType.seedBytes : (t : ArgType) → t.Value → Bytes
  | array _, v => v.toList
  | string, s => asBytes s.val
  | u64, n => u64Layout.write n

/-- The arguments of an instruction. -/
def ArgValues : List (String × ArgType) → Type
  | [] => Unit
  | (_, t) :: rest => t.Value × ArgValues rest

/-- The arguments one behind the other. -/
def argsLayout : (args : List (String × ArgType)) → ByteFormat (ArgValues args)
  | [] => .empty
  | (_, t) :: rest => t.layout.seq (argsLayout rest)

/-- An argument by its name, as a seed. -/
def argSeed : (args : List (String × ArgType)) → ArgValues args → String → Option Bytes
  | [], _, _ => none
  | (name, t) :: rest, (v, vs), path =>
    if name = path then some (t.seedBytes v) else argSeed rest vs path

/-- A seed of a derived address. A path with a point is a field of a recorded account. -/
inductive Seed where
  | const (value : Bytes)
  | arg (path : String)
  | account (path : String)
  | field (account field : String)

/-- How an address is derived, under the program itself or under another one. -/
structure PdaSpec where
  seeds : List Seed
  program : Option Pubkey := none

/-- What is asked of an account. -/
structure AccountSpec where
  name : String
  writable : Bool := false
  signer : Bool := false
  address : Option String := none
  pda : Option PdaSpec := none
  relations : List String := []

structure InstructionSpec where
  name : String
  discriminator : Bytes
  accounts : List AccountSpec
  args : List (String × ArgType)

structure Idl where
  address : String
  instructions : List InstructionSpec

/-- The instruction that the first octets of the data choose. -/
def Idl.dispatch (idl : Idl) (data : Bytes) : Option InstructionSpec :=
  idl.instructions.find? fun spec => spec.discriminator = data.take 8

/-! ## The IDL of the program -/

/-- The pool, where its identifier is read from the account. -/
def poolOfRecord : PdaSpec :=
  ⟨[.const [112, 111, 111, 108], .field "pool" "uuid"], none⟩

/-- The configuration of a right, where the identifier is read from the account. -/
def drtConfigOfRecord : PdaSpec :=
  ⟨[.const [100, 114, 116], .account "pool", .field "drt_config" "right_id"], none⟩

def grantOfCommitment : PdaSpec :=
  ⟨[.const [103, 114, 97, 110, 116], .arg "commitment"], none⟩

/-- The token program in a seed. -/
def tokenProgramSeed : Bytes :=
  [6, 221, 246, 225, 215, 101, 161, 147, 217, 203, 225, 70, 206, 235, 121, 172, 28, 180, 133, 237,
    95, 91, 55, 145, 58, 140, 245, 133, 126, 255, 0, 169]

/-- The program under which token accounts are derived. -/
def ataProgramKey : Pubkey :=
  ⟨[140, 151, 37, 143, 78, 36, 137, 241, 187, 61, 16, 41, 20, 142, 13, 131, 11, 90, 19, 153, 218,
    255, 16, 132, 4, 142, 123, 216, 219, 233, 248, 89], rfl⟩

/-- The token account of the holder. -/
def holderAta : PdaSpec :=
  ⟨[.account "holder", .const tokenProgramSeed, .account "mint"], some ataProgramKey⟩

def tokenProgramSpec : AccountSpec where
  name := "token_program"
  address := some "TokenkegQfeZyiNwAJbNbGKPFXCWuBvf9Ss623VQ5DA"

def systemProgramSpec : AccountSpec where
  name := "system_program"
  address := some "11111111111111111111111111111111"

def createPoolSpec : InstructionSpec where
  name := "create_pool"
  discriminator := [233, 146, 209, 142, 207, 104, 64, 188]
  accounts :=
    [{ name := "owner", writable := true, signer := true },
      { name := "pool", writable := true,
        pda := some ⟨[.const [112, 111, 111, 108], .arg "pool_id"], none⟩ },
      systemProgramSpec]
  args := [("pool_id", .array 16)]

def grantRightSpec : InstructionSpec where
  name := "grant_right"
  discriminator := [147, 166, 175, 167, 132, 161, 76, 232]
  accounts :=
    [{ name := "pool", pda := some poolOfRecord, relations := ["drt_config"] },
      { name := "drt_config", pda := some drtConfigOfRecord },
      { name := "mint", writable := true, relations := ["drt_config"] },
      { name := "holder", writable := true, signer := true },
      { name := "holder_ata", writable := true, pda := some holderAta },
      { name := "grant", writable := true, pda := some grantOfCommitment },
      tokenProgramSpec, systemProgramSpec]
  args := [("commitment", .array 32)]

def registerDrtSpec : InstructionSpec where
  name := "register_drt"
  discriminator := [132, 234, 232, 157, 1, 204, 22, 238]
  accounts :=
    [{ name := "owner", writable := true, signer := true, relations := ["pool"] },
      { name := "pool", pda := some poolOfRecord },
      { name := "drt_config", writable := true,
        pda := some ⟨[.const [100, 114, 116], .account "pool", .arg "right_id"], none⟩ },
      { name := "mint", writable := true,
        pda := some ⟨[.const [109, 105, 110, 116], .account "pool", .arg "right_id"], none⟩ },
      { name := "holder" },
      { name := "holder_ata", writable := true, pda := some holderAta },
      tokenProgramSpec,
      { name := "associated_token_program",
        address := some "ATokenGPvbdGVxr1b2hvZbsiqW5xWH25efTNsLJA8knL" },
      systemProgramSpec,
      { name := "rent", address := some "SysvarRent111111111111111111111111111111111" }]
  args :=
    [("right_id", .array 16), ("code_repo_url", .string), ("code_hash", .array 32),
      ("supply", .u64)]

def revokeGrantSpec : InstructionSpec where
  name := "revoke_grant"
  discriminator := [134, 180, 57, 39, 152, 7, 154, 98]
  accounts :=
    [{ name := "owner", writable := true, signer := true, relations := ["pool"] },
      { name := "pool", pda := some poolOfRecord, relations := ["drt_config"] },
      { name := "drt_config", pda := some drtConfigOfRecord, relations := ["grant"] },
      { name := "grant", writable := true, pda := some grantOfCommitment }]
  args := [("commitment", .array 32)]

def sealPoolSpec : InstructionSpec where
  name := "seal_pool"
  discriminator := [132, 120, 144, 83, 244, 251, 12, 246]
  accounts :=
    [{ name := "owner", signer := true, relations := ["pool"] },
      { name := "pool", writable := true, pda := some poolOfRecord }]
  args := []

/-- `digital_rights_tokens.json`. -/
def drtIdl : Idl where
  address := "8N5hVnK81rWhwfhxt9LfjrbeVT83Jjgy4dKyy4q6HKjk"
  instructions := [createPoolSpec, grantRightSpec, registerDrtSpec, revokeGrantSpec, sealPoolSpec]

/-! ## Accounts of the chain -/

/-- A record of the program. -/
inductive AccountRecord where
  | pool (p : Pool)
  | drtConfig (d : DrtConfig)
  | grant (g : Grant)

/-- The fields of a record that are keys or arrays. -/
def AccountRecord.field : AccountRecord → String → Option Bytes
  | pool p, "uuid" => some p.uuid.toList
  | pool p, "owner" => some p.owner.toList
  | drtConfig d, "pool" => some d.pool.toList
  | drtConfig d, "right_id" => some d.rightId.toList
  | drtConfig d, "mint" => some d.mint.toList
  | drtConfig d, "code_hash" => some d.codeHash.toList
  | grant g, "drt_config" => some g.drtConfig.toList
  | _, _ => none

/-- The record in an account. -/
def recordAt (r : AccountReader) (k : Pubkey) : Option AccountRecord :=
  match fetchPool r k, fetchDrtConfig r k, fetchGrant r k with
  | .ok p, _, _ => some (.pool p)
  | _, .ok d, _ => some (.drtConfig d)
  | _, _, .ok g => some (.grant g)
  | _, _, _ => none

/-! ## When an instruction is accepted -/

section Accept

variable (findProgramAddress : List Bytes → Pubkey → Pubkey × UInt8) (r : AccountReader)

/-- The key of an account by its name. -/
def accountKey (specs : List AccountSpec) (metas : List AccountMeta) (name : String) :
    Option Pubkey :=
  ((specs.zip metas).find? fun p => p.1.name = name).map fun p => p.2.pubkey

/-- A recorded field of an account. -/
def recordField (key : String → Option Pubkey) (account field : String) : Option Bytes := do
  let k ← key account
  let record ← recordAt r k
  record.field field

/-- The octets of a seed. -/
def Seed.bytes (key : String → Option Pubkey) (arg : String → Option Bytes) : Seed → Option Bytes
  | .const value => some value
  | .arg path => arg path
  | .account path => (key path).map List.Vector.toList
  | .field path entry => recordField r key path entry

/-- An account is as asked. -/
structure AccountSpec.Admits (key : String → Option Pubkey) (arg : String → Option Bytes)
    (programId : Pubkey) (spec : AccountSpec) (m : AccountMeta) : Prop where
  signer : spec.signer = true → m.isSigner = true
  writable : spec.writable = true → m.isWritable = true
  address : ∀ a ∈ spec.address, pubkeyFromStr a.toList = some m.pubkey
  pda : ∀ p ∈ spec.pda, (p.seeds.mapM (Seed.bytes r key arg)).map
    (fun seeds => (findProgramAddress seeds (p.program.getD programId)).1) = some m.pubkey
  relations : ∀ account ∈ spec.relations, recordField r key account spec.name = some m.pubkey.toList

/-- An instruction is the one of the IDL with these arguments, and its accounts are as asked. -/
structure Idl.Accepts (idl : Idl) (spec : InstructionSpec) (values : ArgValues spec.args)
    (ix : Instruction) : Prop where
  programId : pubkeyFromStr idl.address.toList = some ix.programId
  dispatch : idl.dispatch ix.data = some spec
  args : readAll (argsLayout spec.args).read (ix.data.drop 8) = some values
  accounts : List.Forall₂ (AccountSpec.Admits findProgramAddress r
    (accountKey spec.accounts ix.accounts) (argSeed spec.args values) ix.programId)
    spec.accounts ix.accounts

end Accept

/-! ## Records by their kind -/

section Records

variable {r : AccountReader} {k : Pubkey}

theorem recordAt_pool {p : Pool} (h : fetchPool r k = .ok p) : recordAt r k = some (.pool p) := by
  rw [recordAt, h]

theorem recordAt_drtConfig {d : DrtConfig} (h : fetchDrtConfig r k = .ok d) :
    recordAt r k = some (.drtConfig d) := by
  rcases hpool : fetchPool r k with e | p
  · rw [recordAt, hpool, h]
  · exact (fetchAccount_kind rfl rfl (by decide) hpool h).elim

theorem recordAt_grant {g : Grant} (h : fetchGrant r k = .ok g) :
    recordAt r k = some (.grant g) := by
  rcases hpool : fetchPool r k with e | p
  · rcases hconfig : fetchDrtConfig r k with e' | d
    · rw [recordAt, hpool, hconfig, h]
    · exact (fetchAccount_kind rfl rfl (by decide) hconfig h).elim
  · exact (fetchAccount_kind rfl rfl (by decide) hpool h).elim

end Records

/-- An address is that of a pool, and the account has the identifier and the owner. -/
def PoolRecorded (c : Crates) (r : AccountReader) (pool : Pubkey) (poolUuid : UuidBytes)
    (owner : Pubkey) : Prop :=
  ∃ p, fetchPool r pool = .ok p ∧ pool = (derivePoolPda c poolUuid).1 ∧ p.uuid = poolUuid ∧
    p.owner = owner

/-- An address is that of a right, and the account has the pool, the identifier and the mint. -/
def DrtRecorded (c : Crates) (r : AccountReader) (config pool : Pubkey) (rid : UuidBytes)
    (mint : Pubkey) : Prop :=
  ∃ d, fetchDrtConfig r config = .ok d ∧ config = (deriveDrtConfigPda c pool rid).1 ∧
    d.rightId = rid ∧ d.pool = pool ∧ d.mint = mint

/-- An account is a grant of a right. -/
def GrantRecorded (r : AccountReader) (grant config : Pubkey) : Prop :=
  ∃ g, fetchGrant r grant = .ok g ∧ g.drtConfig = config

/-! ## The builders -/

section Builders

variable {findProgramAddress : List Bytes → Pubkey → Pubkey × UInt8} {r : AccountReader}
  {key : String → Option Pubkey} {arg : String → Option Bytes}
  {programId : Pubkey}

/-- An account with a fixed address. -/
theorem admits_fixed {name address : String} (h : (pubkeyFromStr address.toList).isSome) :
    AccountSpec.Admits findProgramAddress r key arg programId
      { name := name, address := some address } (.newReadonly (constKey address.toList) false) := by
  refine ⟨nofun, nofun, fun a ha => ?_, nofun, nofun⟩
  obtain rfl := Option.mem_some_iff.mp ha
  exact pubkeyFromStr_constKey h

/-- An account with a derived address. -/
theorem admits_derived {name : String} {writable : Bool} {p : PdaSpec} {relations : List String}
    {seeds : List Bytes} (hseeds : p.seeds.mapM (Seed.bytes r key arg) = some seeds)
    (hrelations : ∀ account ∈ relations, recordField r key account name =
      some (findProgramAddress seeds (p.program.getD programId)).1.toList) :
    AccountSpec.Admits findProgramAddress r key arg programId
      { name := name, writable := writable, pda := some p, relations := relations }
      ⟨(findProgramAddress seeds (p.program.getD programId)).1, false, writable⟩ := by
  refine ⟨nofun, id, nofun, fun q hq => ?_, hrelations⟩
  obtain rfl := Option.mem_some_iff.mp hq
  rw [hseeds, Option.map_some]

/-- An account whose address is the caller's choice. -/
theorem admits_chosen {name : String} {writable signer : Bool} {relations : List String}
    {k : Pubkey}
    (hrelations : ∀ account ∈ relations, recordField r key account name = some k.toList) :
    AccountSpec.Admits findProgramAddress r key arg programId
      { name := name, writable := writable, signer := signer, relations := relations }
      ⟨k, signer, writable⟩ :=
  ⟨id, id, nofun, nofun, hrelations⟩

/-- A derived account that no record has to name. -/
theorem admits_derived_of_seeds {name : String} {writable : Bool} {p : PdaSpec}
    {seeds : List Bytes} (hseeds : p.seeds.mapM (Seed.bytes r key arg) = some seeds) :
    AccountSpec.Admits findProgramAddress r key arg programId
      { name := name, writable := writable, pda := some p }
      ⟨(findProgramAddress seeds (p.program.getD programId)).1, false, writable⟩ :=
  admits_derived hseeds (List.forall_mem_nil _)

/-- An account that no record has to name. -/
theorem admits_any (name : String) (writable signer : Bool) (k : Pubkey) :
    AccountSpec.Admits findProgramAddress r key arg programId
      { name := name, writable := writable, signer := signer } ⟨k, signer, writable⟩ :=
  admits_chosen (List.forall_mem_nil _)

theorem recordField_eq {account field : String} {k : Pubkey} {record : AccountRecord}
    (hkey : key account = some k) (hrecord : recordAt r k = some record) :
    recordField r key account field = record.field field := by
  rw [recordField, hkey, Option.bind_eq_bind, Option.bind_some, hrecord, Option.bind_eq_bind,
    Option.bind_some]

theorem seeds_poolOfRecord {k : Pubkey} {p : Pool} (hkey : key "pool" = some k)
    (hrecord : recordAt r k = some (.pool p)) :
    poolOfRecord.seeds.mapM (Seed.bytes r key arg) =
      some [asBytes "pool".toList, p.uuid.toList] := by
  have hfield : recordField r key "pool" "uuid" = some p.uuid.toList :=
    recordField_eq hkey hrecord
  simp only [poolOfRecord, List.mapM_cons, List.mapM_nil, Seed.bytes, hfield]
  rfl

theorem seeds_drtConfigOfRecord {pool config : Pubkey} {d : DrtConfig}
    (hpool : key "pool" = some pool) (hconfig : key "drt_config" = some config)
    (hrecord : recordAt r config = some (.drtConfig d)) :
    drtConfigOfRecord.seeds.mapM (Seed.bytes r key arg) =
      some [asBytes "drt".toList, pool.toList, d.rightId.toList] := by
  have hfield : recordField r key "drt_config" "right_id" = some d.rightId.toList :=
    recordField_eq hconfig hrecord
  simp only [drtConfigOfRecord, List.mapM_cons, List.mapM_nil, Seed.bytes, hfield, hpool]
  rfl

/-- The token account of the IDL is the one that is derived. -/
theorem deriveUserAta_eq {c : Crates} (holder mint : Pubkey) :
    deriveUserAta c holder mint =
      (c.findProgramAddress [holder.toList, tokenProgramSeed, mint.toList] ataProgramKey).1 := by
  have htoken : tokenProgramId.toList = tokenProgramSeed := by decide +kernel
  have hata : associatedTokenProgramId = ataProgramKey :=
    List.Vector.toList_injective (by decide +kernel)
  rw [deriveUserAta, htoken, hata]

theorem write_stringLayout (s : BorshString) :
    stringLayout.write s = leBytes 4 (len s.val) ++ asBytes s.val := by
  rw [← length_asBytes]
  rfl

variable {c : Crates} {owner : Pubkey} {poolUuid rid : UuidBytes}
  {pool config mint : Pubkey}

theorem programId_drtIdl : pubkeyFromStr drtIdl.address.toList = some drtProgramId := by
  rw [drtProgramId]
  exact pubkeyFromStr_constKey (by decide +kernel)

theorem admits_tokenProgram : tokenProgramSpec.Admits findProgramAddress r key arg programId
    (.newReadonly tokenProgramId false) := by
  rw [tokenProgramId]
  exact admits_fixed (by decide +kernel)

theorem admits_systemProgram : systemProgramSpec.Admits findProgramAddress r key arg programId
    (.newReadonly systemProgramId false) := by
  rw [systemProgramId]
  exact admits_fixed (by decide +kernel)

theorem accepts_buildCreatePool (owner : Pubkey) (hpool : pool = (derivePoolPda c poolUuid).1) :
    drtIdl.Accepts c.findProgramAddress r createPoolSpec (poolUuid, ())
      (buildCreatePool owner pool poolUuid) := by
  subst hpool
  refine ⟨programId_drtIdl, rfl, ByteFormat.readAll_eq_some_iff.mpr (List.append_nil _).symm, ?_⟩
  exact .cons (admits_any _ _ _ _)
    (.cons (admits_derived_of_seeds rfl) (.cons admits_systemProgram .nil))

theorem accepts_buildRegisterDrt {holder : Pubkey} {url : Str} {codeHash : List.Vector UInt8 32}
    {supply : UInt64} {ix : Instruction} (hpool : PoolRecorded c r pool poolUuid owner)
    (hurl : len url < 2 ^ 32)
    (hix : buildRegisterDrt c owner pool holder rid url codeHash supply = .ok ix) :
    drtIdl.Accepts c.findProgramAddress r registerDrtSpec (rid, ⟨url, hurl⟩, codeHash, supply, ())
      ix := by
  rw [buildRegisterDrt, serializeString, if_pos hurl] at hix
  obtain rfl := Except.ok.inj hix
  refine ⟨programId_drtIdl, rfl, ByteFormat.readAll_eq_some_iff.mpr ?_, ?_⟩
  · change _ = rid.toList ++ (stringLayout.write ⟨url, hurl⟩ ++ (codeHash.toList ++
      (leBytes 8 supply.toNat ++ [])))
    simp only [write_stringLayout, List.append_assoc, List.append_nil]
    rfl
  · obtain ⟨p, hp, rfl, rfl, rfl⟩ := hpool
    have hrecord := recordAt_pool hp
    rw [deriveUserAta_eq, associatedTokenProgramId, rentSysvarId]
    exact .cons (admits_chosen (List.forall_mem_singleton.mpr (recordField_eq rfl hrecord)))
      (.cons (admits_derived_of_seeds (seeds_poolOfRecord rfl hrecord))
        (.cons (admits_derived_of_seeds rfl) (.cons (admits_derived_of_seeds rfl)
          (.cons (admits_any _ _ _ _) (.cons (admits_derived_of_seeds rfl)
            (.cons admits_tokenProgram (.cons (admits_fixed (by decide +kernel))
              (.cons admits_systemProgram (.cons (admits_fixed (by decide +kernel))
                .nil)))))))))

theorem accepts_buildSealPool (hpool : PoolRecorded c r pool poolUuid owner) :
    drtIdl.Accepts c.findProgramAddress r sealPoolSpec () (buildSealPool owner pool) := by
  obtain ⟨p, hp, rfl, rfl, rfl⟩ := hpool
  have hrecord := recordAt_pool hp
  refine ⟨programId_drtIdl, rfl, ByteFormat.readAll_eq_some_iff.mpr rfl, ?_⟩
  exact .cons (admits_chosen (List.forall_mem_singleton.mpr (recordField_eq rfl hrecord)))
    (.cons (admits_derived_of_seeds (seeds_poolOfRecord rfl hrecord)) .nil)

theorem accepts_buildGrantRight (holder : Pubkey) (commitment : List.Vector UInt8 32)
    (hpool : PoolRecorded c r pool poolUuid owner) (hdrt : DrtRecorded c r config pool rid mint) :
    drtIdl.Accepts c.findProgramAddress r grantRightSpec (commitment, ())
      (buildGrantRight c pool config mint holder commitment) := by
  obtain ⟨p, hp, rfl, rfl, rfl⟩ := hpool
  obtain ⟨d, hd, rfl, rfl, hdpool, rfl⟩ := hdrt
  have hconfig := recordAt_drtConfig hd
  refine ⟨programId_drtIdl, rfl, ByteFormat.readAll_eq_some_iff.mpr (List.append_nil _).symm, ?_⟩
  rw [buildGrantRight, deriveUserAta_eq]
  exact .cons (admits_derived (seeds_poolOfRecord rfl (recordAt_pool hp))
      (List.forall_mem_singleton.mpr ((recordField_eq rfl hconfig).trans
        (congrArg (fun k : Pubkey => some k.toList) hdpool))))
    (.cons (admits_derived_of_seeds (seeds_drtConfigOfRecord rfl rfl hconfig))
      (.cons (admits_chosen (List.forall_mem_singleton.mpr (recordField_eq rfl hconfig)))
        (.cons (admits_any _ _ _ _) (.cons (admits_derived_of_seeds rfl)
          (.cons (admits_derived_of_seeds rfl) (.cons admits_tokenProgram
            (.cons admits_systemProgram .nil)))))))

theorem accepts_buildRevokeGrant (commitment : List.Vector UInt8 32)
    (hpool : PoolRecorded c r pool poolUuid owner) (hdrt : DrtRecorded c r config pool rid mint)
    (hgrant : GrantRecorded r (deriveGrantPda c commitment).1 config) :
    drtIdl.Accepts c.findProgramAddress r revokeGrantSpec (commitment, ())
      (buildRevokeGrant c owner pool config commitment) := by
  obtain ⟨p, hp, rfl, rfl, rfl⟩ := hpool
  obtain ⟨d, hd, rfl, rfl, hdpool, rfl⟩ := hdrt
  obtain ⟨g, hg, hgconfig⟩ := hgrant
  have hrecord := recordAt_pool hp
  have hconfig := recordAt_drtConfig hd
  refine ⟨programId_drtIdl, rfl, ByteFormat.readAll_eq_some_iff.mpr (List.append_nil _).symm, ?_⟩
  exact .cons (admits_chosen (List.forall_mem_singleton.mpr (recordField_eq rfl hrecord)))
    (.cons (admits_derived (seeds_poolOfRecord rfl hrecord)
      (List.forall_mem_singleton.mpr ((recordField_eq rfl hconfig).trans
        (congrArg (fun k : Pubkey => some k.toList) hdpool))))
      (.cons (admits_derived (seeds_drtConfigOfRecord rfl rfl hconfig)
        (List.forall_mem_singleton.mpr ((recordField_eq rfl (recordAt_grant hg)).trans
          (congrArg (fun k : Pubkey => some k.toList) hgconfig))))
        (.cons (admits_derived_of_seeds rfl) .nil)))

end Builders

/-! ## In a transaction -/

section Raise

variable {findProgramAddress : List Bytes → Pubkey → Pubkey × UInt8} {r : AccountReader}

theorem accountKey_raised (specs : List AccountSpec) (payer : Pubkey) (ixs : List Instruction)
    (ix : Instruction) :
    accountKey specs (raised payer ixs ix).accounts = accountKey specs ix.accounts := by
  funext name
  rw [accountKey, accountKey, raised, List.zip_map_right, List.find?_map, Option.map_map]
  rfl

/-- In a transaction a key has at least the rights that an instruction asks for. -/
theorem Idl.Accepts.raised {idl : Idl} {spec : InstructionSpec} {values : ArgValues spec.args}
    {ix : Instruction} {ixs : List Instruction}
    (h : idl.Accepts findProgramAddress r spec values ix) (payer : Pubkey) (hix : ix ∈ ixs) :
    idl.Accepts findProgramAddress r spec values (raised payer ixs ix) := by
  refine ⟨h.programId, h.dispatch, h.args, ?_⟩
  have huse : ∀ m ∈ ix.accounts, m ∈ keyUses payer ixs := fun m hm =>
    List.mem_append_left _ (List.mem_flatMap.mpr ⟨ix, hix, List.mem_cons_of_mem _ hm⟩)
  rw [accountKey_raised]
  refine List.forall₂_map_right_iff.mpr
    (List.forall₂_iff_zip.mpr ⟨h.accounts.length_eq, fun {_ m} hm => ?_⟩)
  have hadmits := List.forall₂_zip h.accounts hm
  have hused := huse m (List.of_mem_zip hm).2
  exact ⟨fun hs => List.any_eq_true.mpr ⟨m, hused, by simpa using hadmits.signer hs⟩,
    fun hw => List.any_eq_true.mpr ⟨m, hused, by simpa using hadmits.writable hw⟩,
    hadmits.address, hadmits.pda, hadmits.relations⟩

end Raise

/-! ## The transaction of a pool -/

section Create

variable {c : Crates}

theorem fitMessage_poolIxs {owner pool : Pubkey} (poolUuid : UuidBytes)
    {ps : List (ResolvedDrt × UuidBytes)} {registered : List Instruction} (hne : ps ≠ [])
    (hmax : ps.length ≤ maxDrtsPerPool)
    (hurl : ∀ p ∈ ps, len p.1.codeRepoUrl ≤ maxCodeRepoUrlLen)
    (h : List.Forall₂ (Registers c owner pool) ps registered) :
    FitMessage owner (poolIxs owner pool poolUuid registered) := by
  unfold maxDrtsPerPool at hmax
  have hkeys : keyCount owner (poolIxs owner pool poolUuid registered) ≤
      8 + 3 * ps.length := by
    have hsubset : ((keyUses owner (poolIxs owner pool poolUuid registered)).map
        (·.pubkey)).dedup ⊆ addresses c owner pool (ps.map Prod.snd) := fun k hk =>
      (mem_keyUses_poolIxs_iff hne h k).mp (List.mem_dedup.mp hk)
    have hle := ((List.nodup_dedup _).subperm hsubset).length_le
    rwa [length_addresses, List.length_map] at hle
  have hregistrations : ((ps.map Prod.fst).map registrationSize).sum ≤ 8 * 338 := by
    have hle : ∀ n ∈ (ps.map Prod.fst).map registrationSize, n ≤ 338 := by
      simp only [List.map_map, List.forall_mem_map, Function.comp_apply]
      intro p hp
      have hlen := hurl p hp
      unfold maxCodeRepoUrlLen at hlen
      unfold registrationSize
      split_ifs <;> omega
    have hsum := List.sum_le_card_nsmul _ _ hle
    rw [List.length_map, List.length_map, smul_eq_mul] at hsum
    exact hsum.trans (Nat.mul_le_mul_right _ hmax)
  have hsize : ∀ ix ∈ poolIxs owner pool poolUuid registered, ix.size ≤ 51 + 8 * 338 := by
    intro ix hix
    have hle := List.single_le_sum (fun _ _ => Nat.zero_le _) ix.size
      (List.mem_map_of_mem (f := fun ix => ix.size) hix)
    rw [sum_size_poolIxs h] at hle
    omega
  have hlt : ∀ ix ∈ poolIxs owner pool poolUuid registered,
      ix.accounts.length < 65536 ∧ ix.data.length < 65536 := by
    intro ix hix
    have hle := hsize ix hix
    unfold Instruction.size at hle
    omega
  refine ⟨onlyPayerSigns_poolIxs poolUuid h, by omega, ?_, fun ix hix => (hlt ix hix).1,
    fun ix hix => (hlt ix hix).2⟩
  simp only [poolIxs, List.length_append, List.length_cons, List.length_nil, ← h.length_eq]
  omega

/-- Instructions create a pool, register the rights in their order, and seal the pool. -/
def CreatesPool (c : Crates) (r : AccountReader) (poolUuid : UuidBytes)
    (rights : List (ResolvedDrt × UuidBytes)) (ixs : List Instruction) : Prop :=
  ∃ create registered sealed,
    ixs = [buildComputeBudgetIx 1400000, create] ++ registered ++ [sealed] ∧
    drtIdl.Accepts c.findProgramAddress r createPoolSpec (poolUuid, ()) create ∧
    List.Forall₂ (fun p ix => ∃ hurl, drtIdl.Accepts c.findProgramAddress r registerDrtSpec
      (p.2, ⟨p.1.codeRepoUrl, hurl⟩, p.1.codeHash, p.1.supply, ()) ix) rights registered ∧
    drtIdl.Accepts c.findProgramAddress r sealPoolSpec () sealed

theorem createsPool_raised {r : AccountReader} {owner pool : Pubkey}
    {poolUuid : UuidBytes} (hpool : PoolRecorded c r pool poolUuid owner)
    {ps : List (ResolvedDrt × UuidBytes)} {registered : List Instruction}
    (h : List.Forall₂ (fun p ix => ∃ hurl, drtIdl.Accepts c.findProgramAddress r registerDrtSpec
      (p.2, ⟨p.1.codeRepoUrl, hurl⟩, p.1.codeHash, p.1.supply, ()) ix) ps registered) :
    CreatesPool c r poolUuid ps ((poolIxs owner pool poolUuid registered).map
      (raised owner (poolIxs owner pool poolUuid registered))) := by
  have hderived : pool = (derivePoolPda c poolUuid).1 := by
    obtain ⟨_, -, hderived, -⟩ := hpool
    exact hderived
  set ixs := poolIxs owner pool poolUuid registered with hixs
  have hcreate : buildCreatePool owner pool poolUuid ∈ ixs := by simp [hixs, poolIxs]
  have hseal : buildSealPool owner pool ∈ ixs := by simp [hixs, poolIxs]
  have hregistered : ∀ ix ∈ registered, ix ∈ ixs := fun ix hix =>
    List.mem_append_left _ (List.mem_append_right _ hix)
  refine ⟨raised owner ixs (buildCreatePool owner pool poolUuid),
    registered.map (raised owner ixs), raised owner ixs (buildSealPool owner pool), ?_,
    (accepts_buildCreatePool owner hderived).raised owner hcreate, ?_,
    (accepts_buildSealPool hpool).raised owner hseal⟩
  · nth_rewrite 2 [hixs]
    rw [poolIxs, List.map_append, List.map_append]
    rfl
  · refine List.forall₂_map_right_iff.mpr (List.forall₂_iff_zip.mpr
      ⟨h.length_eq, fun {p ix} hp => ?_⟩)
    obtain ⟨hurl, haccepts⟩ := List.forall₂_zip h hp
    exact ⟨hurl, haccepts.raised owner (hregistered ix (List.of_mem_zip hp).2)⟩

end Create

/-- For every accepted list of requests, any identifiers and any wallet, with the account of the
pool as it is once it has been created. -/
theorem createPool_accepted {c : Crates} {reqs : List DrtRequest}
    {allowAppend : Bool} {drts : List ResolvedDrt}
    (h : validateDrtRequests reqs allowAppend = .ok (.ok drts)) (rpc : SendRpc .confirmed)
    (keypair : Keypair) (newUuidBytes : Nat → UuidBytes) {r : AccountReader}
    (hpool : PoolRecorded c r (derivePoolPda c (newUuidBytes 0)).1 (newUuidBytes 0)
      keypair.pubkey) :
    ∃ ixs o drtRecords,
      (∀ (Event : Type) (send : List Instruction → Except ApiError (Str × List Event)),
        createPoolAtomic c send newUuidBytes keypair.pubkey drts =
          (send ixs).map fun sent => ⟨(derivePoolPda c (newUuidBytes 0)).1, newUuidBytes 0,
            [sent.1], drtRecords, sent.2⟩) ∧
      signAndSend rpc keypair ixs "transaction send failed" = some o ∧
      SendSound rpc keypair ixs id o ∧
      CreatesPool c r (newUuidBytes 0)
        (drts.zip ((List.range drts.length).map fun i => newUuidBytes (i + 1)))
        (ixs.map (raised keypair.pubkey ixs)) := by
  obtain ⟨hresolves, -⟩ := validateDrtRequests_ok h
  obtain ⟨hne, hmax⟩ := length_of_validateDrtRequests_ok h
  have hurl : ∀ p ∈ drts.zip ((List.range drts.length).map fun i => newUuidBytes (i + 1)),
      len p.1.codeRepoUrl ≤ maxCodeRepoUrlLen := by
    intro p hp
    obtain ⟨req, -, hreq⟩ := exists_of_mem_right hresolves (List.of_mem_zip hp).1
    exact hreq.len_url_le
  have hlength : (drts.zip ((List.range drts.length).map fun i => newUuidBytes (i + 1))).length =
      reqs.length := by
    rw [List.length_zip, List.length_map, List.length_range, Nat.min_self, hresolves.length_eq]
  -- one registration for each right, with what the transaction and what the program asks of it
  obtain ⟨registered, hixs, hregistered⟩ := registerIxs_ok_of_forall (c := c) keypair.pubkey
    (derivePoolPda c (newUuidBytes 0)).1 (R := fun p ix =>
      Registers c keypair.pubkey (derivePoolPda c (newUuidBytes 0)).1 p ix ∧
      ∃ hurl, drtIdl.Accepts c.findProgramAddress r registerDrtSpec
        (p.2, ⟨p.1.codeRepoUrl, hurl⟩, p.1.codeHash, p.1.supply, ()) ix) fun p hp => by
    obtain ⟨ix, hix, hregisters⟩ := exists_registers (c := c) keypair.pubkey
      (derivePoolPda c (newUuidBytes 0)).1 (hurl p hp)
    exact ⟨ix, hix, hregisters, (hurl p hp).trans_lt (by decide),
      accepts_buildRegisterDrt hpool _ hix⟩
  have hfit := fitMessage_poolIxs (newUuidBytes 0)
    (List.ne_nil_of_length_pos (hlength ▸ List.length_pos_of_ne_nil hne)) (hlength ▸ hmax) hurl
    (hregistered.imp fun _ _ hp => hp.1)
  obtain ⟨o, ho, hsound⟩ := exists_signAndSend rpc hfit "transaction send failed"
  refine ⟨_, o, _, fun _ send => createPoolAtomic_eq send ?_, ho, hsound, ?_⟩
  · rw [recordDrts_snd]
    exact hixs
  · exact createsPool_raised hpool (hregistered.imp fun _ _ hp => hp.2)

/-- A pool of a wallet. -/
def walletPool : Pool :=
  ⟨sampleIds 0, sampleKeypair.pubkey, 1771891200, false, 255⟩

/-- A node on which every account is a pool. -/
def poolReader : AccountReader :=
  ⟨fun _ => .ok (some (discPoolAccount ++ poolLayout.write walletPool)),
    fun _ _ => ""⟩

/-- A node that takes a transaction and never reports it. -/
def silentRpc : SendRpc .confirmed where
  latestBlockhash := .ok (.replicate 32 9)
  accountData _ := .ok none
  sendTransaction _ := .ok (.replicate 64 0)
  polls n := ⟨n * (400 * 10 ^ 6), none⟩
  paced _ := le_rfl

theorem createPool_accepted_sample :
    ∃ ixs o, signAndSend silentRpc sampleKeypair ixs "transaction send failed" = some o ∧
      CreatesPool derivingCrates poolReader (sampleIds 0)
        ((sampleDrts sampleScriptUrl).zip [sampleIds 1, sampleIds 2])
        (ixs.map (raised sampleKeypair.pubkey ixs)) := by
  have hpool : PoolRecorded derivingCrates poolReader (derivePoolPda derivingCrates (sampleIds 0)).1
      (sampleIds 0) sampleKeypair.pubkey :=
    ⟨walletPool, fetchPool_eq_ok_iff.mpr rfl, rfl, rfl, rfl⟩
  obtain ⟨ixs, o, -, -, ho, -, hcreates⟩ := createPool_accepted
    validateDrtRequests_sample silentRpc sampleKeypair sampleIds hpool
  exact ⟨ixs, o, ho, hcreates⟩

end RelationalSdk
