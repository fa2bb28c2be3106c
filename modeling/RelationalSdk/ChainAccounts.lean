import RelationalSdk.DrtEvents
import RelationalSdk.Fallible

/-!
# Accounts of the program

`fetch_pool`, `fetch_drt_config` and `fetch_grant` read an account from the chain : a discriminator
that says what the account is, and behind it the record in Borsh. The discriminator is checked, then
the size, and the record has to use up what is left.

`fetch_exact` : so each of the three returns a record exactly if the account holds its discriminator
and its encoding and not a byte more, and for a configuration if the address of the script has at
most 3963 bytes. What is longer is refused even where it starts with a valid record. No account is
read as two kinds of records.
-/

namespace RelationalSdk

open Text HexText Wire Fallible

/-! ## Records -/

/-- A string that Borsh can write. -/
abbrev BorshString := {s : Str // len s < 2 ^ 32}

/-- `Pool`. -/
structure Pool where
  uuid : UuidBytes
  owner : Pubkey
  createdAt : Int64
  isSealed : Bool
  bump : UInt8
  deriving DecidableEq

/-- `DrtConfig`. -/
structure DrtConfig where
  pool : Pubkey
  rightId : UuidBytes
  mint : Pubkey
  supply : UInt64
  codeHash : List.Vector UInt8 32
  codeRepoUrl : BorshString
  createdAt : Int64
  bump : UInt8
  deriving DecidableEq

/-- `Grant`. -/
structure Grant where
  drtConfig : Pubkey
  grantedAt : Int64
  bump : UInt8
  deriving DecidableEq

/-- `DISC_POOL_ACCOUNT`. -/
def discPoolAccount : Bytes := [241, 154, 109, 4, 17, 177, 109, 188]

/-- `DISC_DRT_CONFIG_ACCOUNT`. -/
def discDrtConfigAccount : Bytes := [20, 160, 51, 9, 64, 97, 106, 78]

/-- `DISC_GRANT_ACCOUNT`. -/
def discGrantAccount : Bytes := [161, 166, 11, 205, 204, 135, 205, 54]

/-! ## Layouts -/

def u8Layout : ByteFormat UInt8 :=
  .byte

/-- A `bool` is 0 or 1, and no other octet. -/
def boolLayout : ByteFormat Bool :=
  u8Layout.narrow
    (fun n => if n = 0 then some false else if n = 1 then some true else none)
    (fun b => if b then 1 else 0)
    (by
      intro n b
      split_ifs with h0 h1
      all_goals cases b <;> simp_all)

/-- Four octets as a length. -/
def u32Bytes : List.Vector UInt8 4 ≃ Fin (2 ^ 32) where
  toFun v := ⟨ofLeBytes v.toList, (ofLeBytes_lt v.toList).trans_eq (by rw [v.toList_length]; rfl)⟩
  invFun n := ⟨leBytes 4 n, length_leBytes 4 n⟩
  left_inv v := by
    refine List.Vector.toList_injective ?_
    have hbytes := leBytes_ofLeBytes v.toList
    rwa [v.toList_length] at hbytes
  right_inv n := by
    refine Fin.ext ?_
    show ofLeBytes (leBytes 4 n) = n
    rw [ofLeBytes_leBytes]
    exact Nat.mod_eq_of_lt n.isLt

/-- A `String` : the number of its bytes and the bytes, which have to be UTF-8. -/
def stringLayout : ByteFormat BorshString :=
  ((ByteFormat.bytes 4).map u32Bytes).counted.narrow
    (fun b => match h : fromUtf8 b.val with
      | some s => some ⟨s, by
          rw [← length_asBytes, ← fromUtf8_eq_some_iff.mp h]
          exact b.property⟩
      | none => none)
    (fun s => ⟨asBytes s.val, by rw [length_asBytes]; exact s.property⟩)
    (by
      rintro ⟨b, hb⟩ ⟨s, hs⟩
      rw [Subtype.mk.injEq, ← fromUtf8_eq_some_iff]
      split
      · next t h => simp [h]
      · next h => simp [h])

def poolLayout : ByteFormat Pool :=
  ((ByteFormat.bytes 16).seq (pubkeyLayout.seq (i64Layout.seq (boolLayout.seq u8Layout)))).map
    { toFun := fun ⟨uuid, owner, createdAt, isSealed, bump⟩ =>
        ⟨uuid, owner, createdAt, isSealed, bump⟩
      invFun := fun p => ⟨p.uuid, p.owner, p.createdAt, p.isSealed, p.bump⟩ }

def drtConfigLayout : ByteFormat DrtConfig :=
  (pubkeyLayout.seq ((ByteFormat.bytes 16).seq (pubkeyLayout.seq (u64Layout.seq
    ((ByteFormat.bytes 32).seq (stringLayout.seq (i64Layout.seq u8Layout))))))).map
    { toFun := fun ⟨pool, rightId, mint, supply, codeHash, codeRepoUrl, createdAt, bump⟩ =>
        ⟨pool, rightId, mint, supply, codeHash, codeRepoUrl, createdAt, bump⟩
      invFun := fun d =>
        ⟨d.pool, d.rightId, d.mint, d.supply, d.codeHash, d.codeRepoUrl, d.createdAt, d.bump⟩ }

def grantLayout : ByteFormat Grant :=
  (pubkeyLayout.seq (i64Layout.seq u8Layout)).map
    { toFun := fun ⟨drtConfig, grantedAt, bump⟩ => ⟨drtConfig, grantedAt, bump⟩
      invFun := fun g => ⟨g.drtConfig, g.grantedAt, g.bump⟩ }

/-! ## Reading an account -/

/-- What a request for an account needs : the client, and what `borsh` reports about a payload that
is not a record of the kind. -/
structure AccountReader where
  getAccountData : Pubkey → Except String (Option Bytes)
  borshError : String → Bytes → String

/-- `strip_discriminator`. -/
def stripDiscriminator (data expected : Bytes) (max : Nat) (label : String) :
    Except ApiError Bytes :=
  if data.length < 8 then .error (.internal s!"{label} account too short")
  else if data.take 8 ≠ expected then .error (.internal s!"invalid {label} discriminator")
  else
    let payload := data.drop 8
    let size := payload.length
    if max < size then
      .error (.internal s!"{label} account too large ({size} bytes, max {max})")
    else .ok payload

/-- An account of one kind : `noun` is what a missing account is called. -/
def fetchAccount {α : Type} (r : AccountReader) (layout : ByteFormat α) (expected : Bytes)
    (max : Nat) (noun label : String) (key : Pubkey) : Except ApiError α := do
  let text := String.ofList (pubkeyToString key)
  let found ← (r.getAccountData key).mapError
    fun e => ApiError.notFound s!"{noun} {text} not found: {e}"
  let data ← okOr found (ApiError.notFound s!"{noun} {text} not found")
  let payload ← stripDiscriminator data expected max label
  let e := r.borshError label payload
  okOr (readAll layout.read payload) (ApiError.internal s!"failed to deserialise {label}: {e}")

/-- `MAX_POOL_DATA`. -/
def maxPoolData : Nat := 1024

/-- `MAX_DRT_CONFIG_DATA`. -/
def maxDrtConfigData : Nat := 4 * 1024

/-- `MAX_GRANT_DATA`. -/
def maxGrantData : Nat := 256

/-- `fetch_pool`. -/
def fetchPool (r : AccountReader) : Pubkey → Except ApiError Pool :=
  fetchAccount r poolLayout discPoolAccount maxPoolData "pool account" "pool"

/-- `fetch_drt_config`. -/
def fetchDrtConfig (r : AccountReader) : Pubkey → Except ApiError DrtConfig :=
  fetchAccount r drtConfigLayout discDrtConfigAccount maxDrtConfigData "drt_config" "drt_config"

/-- `fetch_grant`. -/
def fetchGrant (r : AccountReader) : Pubkey → Except ApiError Grant :=
  fetchAccount r grantLayout discGrantAccount maxGrantData "grant" "grant"

/-! ## What is read -/

section Fetch

variable {α : Type} {r : AccountReader} {layout : ByteFormat α} {expected : Bytes} {max : Nat}
  {noun label : String} {key : Pubkey}

theorem stripDiscriminator_eq_ok_iff {data payload : Bytes} (hdisc : expected.length = 8) :
    stripDiscriminator data expected max label = .ok payload ↔
      data = expected ++ payload ∧ payload.length ≤ max := by
  unfold stripDiscriminator
  constructor
  · intro h
    dsimp only at h
    split_ifs at h with hshort hne hlarge
    obtain rfl := Except.ok.inj h
    refine ⟨?_, not_lt.mp hlarge⟩
    rw [← not_not.mp hne, List.take_append_drop]
  · rintro ⟨rfl, hmax⟩
    have hshort : ¬(expected ++ payload).length < 8 := by
      rw [List.length_append]
      omega
    rw [if_neg hshort, if_neg (not_not.mpr (List.take_left' hdisc)), List.drop_left' hdisc,
      if_neg (not_lt.mpr hmax)]

/-- An account is read as a record exactly if it holds the record and nothing else. -/
theorem fetchAccount_eq_ok_iff (hdisc : expected.length = 8) {a : α} :
    fetchAccount r layout expected max noun label key = .ok a ↔
      r.getAccountData key = .ok (some (expected ++ layout.write a)) ∧
        (layout.write a).length ≤ max := by
  simp only [fetchAccount, bind_eq_ok_iff, mapError_eq_ok_iff, okOr_eq_ok_iff,
    stripDiscriminator_eq_ok_iff hdisc, ByteFormat.readAll_eq_some_iff]
  constructor
  · rintro ⟨_, hfound, _, rfl, _, ⟨rfl, hmax⟩, rfl⟩
    exact ⟨hfound, hmax⟩
  · rintro ⟨hfound, hmax⟩
    exact ⟨_, hfound, _, rfl, _, ⟨rfl, hmax⟩, rfl⟩

/-- The discriminator says of what kind a record is. -/
theorem fetchAccount_kind {β : Type} {layout' : ByteFormat β} {expected' : Bytes} {max' : Nat}
    {noun' label' : String} (hdisc : expected.length = 8) (hdisc' : expected'.length = 8)
    (hne : expected ≠ expected') {a : α} {b : β}
    (ha : fetchAccount r layout expected max noun label key = .ok a)
    (hb : fetchAccount r layout' expected' max' noun' label' key = .ok b) : False := by
  rw [fetchAccount_eq_ok_iff hdisc] at ha
  rw [fetchAccount_eq_ok_iff hdisc'] at hb
  have hdata := Option.some_inj.mp (Except.ok.inj (ha.1.symm.trans hb.1))
  exact hne (List.append_inj_left hdata (hdisc.trans hdisc'.symm))

end Fetch

theorem length_write_poolLayout (p : Pool) : (poolLayout.write p).length = 58 := by
  change (p.uuid.toList ++ (p.owner.toList ++ (leBytes 8 _ ++ ([_] ++ [p.bump])))).length = 58
  simp only [List.length_append, List.Vector.toList_length, length_leBytes, List.length_singleton]

theorem length_write_drtConfigLayout (d : DrtConfig) :
    (drtConfigLayout.write d).length = 133 + len d.codeRepoUrl.val := by
  change (d.pool.toList ++ (d.rightId.toList ++ (d.mint.toList ++ (leBytes 8 _ ++
    (d.codeHash.toList ++ ((leBytes 4 _ ++ asBytes d.codeRepoUrl.val) ++
      (leBytes 8 _ ++ [d.bump]))))))).length = _
  simp only [List.length_append, List.Vector.toList_length, length_leBytes, List.length_singleton,
    length_asBytes]
  omega

theorem length_write_grantLayout (g : Grant) : (grantLayout.write g).length = 41 := by
  change (g.drtConfig.toList ++ (leBytes 8 _ ++ [g.bump])).length = 41
  simp only [List.length_append, List.Vector.toList_length, length_leBytes, List.length_singleton]

theorem fetchPool_eq_ok_iff {r : AccountReader} {key : Pubkey} {p : Pool} :
    fetchPool r key = .ok p ↔
      r.getAccountData key = .ok (some (discPoolAccount ++ poolLayout.write p)) := by
  rw [fetchPool, fetchAccount_eq_ok_iff rfl, length_write_poolLayout]
  exact and_iff_left (by decide)

theorem fetchDrtConfig_eq_ok_iff {r : AccountReader} {key : Pubkey} {d : DrtConfig} :
    fetchDrtConfig r key = .ok d ↔
      r.getAccountData key = .ok (some (discDrtConfigAccount ++ drtConfigLayout.write d)) ∧
        len d.codeRepoUrl.val ≤ 3963 := by
  rw [fetchDrtConfig, fetchAccount_eq_ok_iff rfl, length_write_drtConfigLayout, maxDrtConfigData]
  exact and_congr_right' (by omega)

theorem fetchGrant_eq_ok_iff {r : AccountReader} {key : Pubkey} {g : Grant} :
    fetchGrant r key = .ok g ↔
      r.getAccountData key = .ok (some (discGrantAccount ++ grantLayout.write g)) := by
  rw [fetchGrant, fetchAccount_eq_ok_iff rfl, length_write_grantLayout]
  exact and_iff_left (by decide)

/-- A record is returned exactly if the account holds its discriminator and its encoding and nothing
else, and an account is read as at most one kind of record. -/
theorem fetch_exact (r : AccountReader) (key : Pubkey) :
    (∀ p, fetchPool r key = .ok p ↔
      r.getAccountData key = .ok (some (discPoolAccount ++ poolLayout.write p))) ∧
    (∀ d, fetchDrtConfig r key = .ok d ↔
      r.getAccountData key = .ok (some (discDrtConfigAccount ++ drtConfigLayout.write d)) ∧
        len d.codeRepoUrl.val ≤ 3963) ∧
    (∀ g, fetchGrant r key = .ok g ↔
      r.getAccountData key = .ok (some (discGrantAccount ++ grantLayout.write g))) ∧
    [(fetchPool r key).isOk, (fetchDrtConfig r key).isOk, (fetchGrant r key).isOk].count true ≤ 1
    := by
  refine ⟨fun _ => fetchPool_eq_ok_iff, fun _ => fetchDrtConfig_eq_ok_iff,
    fun _ => fetchGrant_eq_ok_iff, ?_⟩
  rcases hpool : fetchPool r key with _ | p
  · rcases hconfig : fetchDrtConfig r key with _ | d
    · cases fetchGrant r key <;> exact Nat.le_of_ble_eq_true rfl
    · rcases hgrant : fetchGrant r key with _ | g
      · exact Nat.le_of_ble_eq_true rfl
      · exact (fetchAccount_kind rfl rfl (by decide) hconfig hgrant).elim
  · rcases hconfig : fetchDrtConfig r key with _ | d
    · rcases hgrant : fetchGrant r key with _ | g
      · exact Nat.le_of_ble_eq_true rfl
      · exact (fetchAccount_kind rfl rfl (by decide) hpool hgrant).elim
    · exact (fetchAccount_kind rfl rfl (by decide) hpool hconfig).elim

end RelationalSdk
