import RelationalSdk.AuditIndex
import RelationalSdk.GroupedTable

/-!
# Issuance records and revocations

`ISSUANCE_RECORDS` and `REVOCATIONS` hold the records of all pools. A key of the first is the
address of the pool, the inverted time in sixteen hexadecimal digits and the record id, a key of
the second the address and the credential id, joined by `|`. Both are tables of groups, and a
pool is one group : the address is base58, so without `|`, whereas a credential id can be any
text.

`recordPages` : the pages of a pool give every record that is stored for it once and none of
another pool, issuance records by non-increasing time, and the count is their number. Both
listings skip what is not JSON, and here everything is.
-/

namespace RelationalSdk

open Text KeyedTable GroupedTable Runs

/-! ## The tables -/

/-- `ISSUANCE_RECORDS` and `REVOCATIONS`. -/
structure RecordTables where
  issuanceRecords : Table Str Bytes
  revocations : Table Str Bytes

namespace RecordTables

/-- Empty tables. -/
def empty : RecordTables :=
  ⟨Table.empty, Table.empty⟩

/-- Insert an issuance record for a pool. -/
def upsertIssuanceRecord (t : RecordTables) (poolPda recordId : Str) (timestamp : Int64)
    (jsonBytes : Bytes) : RecordTables :=
  { t with
    issuanceRecords :=
      t.issuanceRecords.insert (makePoolTsKey poolPda timestamp.toInt recordId) jsonBytes }

/-- Insert a revocation entry for a pool. -/
def upsertRevocation (t : RecordTables) (poolPda credentialId : Str) (jsonBytes : Bytes) :
    RecordTables :=
  { t with revocations := t.revocations.insert (poolPda ++ '|' :: credentialId) jsonBytes }

section Listings

variable {J : Type} (fromSlice : Bytes → Option J)

/-- A page of the records of a pool in one of the tables. -/
def listRecords (table : Table Str Bytes) (poolPda : Str) (limit offset : Nat) : List J :=
  let p := poolPda ++ ['|']
  pageLoop p (fun e => fromSlice e.2) limit offset 0 [] (table.rangeFrom p)

/-- The number of keys of a pool in one of the tables. -/
def countRecords (table : Table Str Bytes) (poolPda : Str) : Nat :=
  (table.scan (poolPda ++ ['|'])).length

/-- List issuance records for a pool with pagination (newest first). -/
def listIssuanceRecords (t : RecordTables) : Str → Nat → Nat → List J :=
  listRecords fromSlice t.issuanceRecords

/-- Count total issuance records for a pool. -/
def countIssuanceRecords (t : RecordTables) : Str → Nat :=
  countRecords t.issuanceRecords

/-- List revocations for a pool with pagination. -/
def listRevocations (t : RecordTables) : Str → Nat → Nat → List J :=
  listRecords fromSlice t.revocations

/-- Count total revocations for a pool. -/
def countRevocations (t : RecordTables) : Str → Nat :=
  countRecords t.revocations

end Listings

end RecordTables

open RecordTables

/-- A call that writes one of the tables. -/
inductive RecordCall where
  | issuance (poolPda recordId : Str) (timestamp : Int64) (jsonBytes : Bytes)
  | revocation (poolPda credentialId : Str) (jsonBytes : Bytes)

/-- The tables after a call. -/
def recordStep (t : RecordTables) : RecordCall → RecordTables
  | .issuance poolPda recordId timestamp jsonBytes =>
    t.upsertIssuanceRecord poolPda recordId timestamp jsonBytes
  | .revocation poolPda credentialId jsonBytes => t.upsertRevocation poolPda credentialId jsonBytes

/-- The address is without `|`, the time is from 1970 on, and the value is JSON. -/
def RecordCall.Admissible {J : Type} (fromSlice : Bytes → Option J) : RecordCall → Prop
  | .issuance poolPda _ timestamp jsonBytes =>
    '|' ∉ poolPda ∧ 0 ≤ timestamp ∧ (fromSlice jsonBytes).isSome
  | .revocation poolPda _ jsonBytes => '|' ∉ poolPda ∧ (fromSlice jsonBytes).isSome

/-- The issuance record that a call writes : its pool, its time and id, and its value. -/
def RecordCall.issued : RecordCall → Option ((Str × Int64 × Str) × Bytes)
  | .issuance poolPda recordId timestamp jsonBytes =>
    some ((poolPda, timestamp, recordId), jsonBytes)
  | .revocation .. => none

/-- The revocation that a call writes : its pool, its credential and its value. -/
def RecordCall.revoked : RecordCall → Option ((Str × Str) × Bytes)
  | .issuance .. => none
  | .revocation poolPda credentialId jsonBytes => some ((poolPda, credentialId), jsonBytes)

/-- From some page on, the pages of a listing together give each stored record once, in the
order `R`, and the count is their number. -/
def PagesExact {ρ J : Type} (fromSlice : Bytes → Option J) (list : Nat → Nat → List J)
    (count : Nat) (stored : ρ → Option Bytes) (R : ρ → ρ → Prop) (limit : Nat) : Prop :=
  ∃ N, ∀ n ≥ N, ∃ rs : List (ρ × Bytes),
    (rs.map Prod.fst).Nodup ∧ (∀ r bytes, (r, bytes) ∈ rs ↔ stored r = some bytes) ∧
      rs.Pairwise (fun a b => R a.1 b.1) ∧
      (pages list limit n).map some = rs.map (fun x => fromSlice x.2) ∧
      count = (pages list limit n).length

/-! ## The keys -/

/-- What follows the address in the key of an issuance record. -/
def issuanceSuffix (r : Int64 × Str) : Str :=
  hexPad 16 (invertedTs r.1.toInt) ++ '|' :: r.2

theorem makePoolTsKey_eq_groupKey (poolPda recordId : Str) (timestamp : Int64) :
    makePoolTsKey poolPda timestamp.toInt recordId =
      groupKey '|' issuanceSuffix poolPda (timestamp, recordId) := by
  simp [makePoolTsKey, groupKey, issuanceSuffix]

theorem invertedTs_lt (ts : Int) : invertedTs ts < 16 ^ 16 := by
  unfold invertedTs
  omega

theorem issuanceSuffix_injective : Function.Injective issuanceSuffix := by
  rintro ⟨ts, id⟩ ⟨ts', id'⟩ h
  obtain ⟨hhex, hid⟩ := List.append_inj h (by rw [length_hexPad, length_hexPad])
  have hinv : invertedTs ts.toInt = invertedTs ts'.toInt :=
    le_antisymm (le_of_hexPad_le (invertedTs_lt _) hhex.le)
      (le_of_hexPad_le (invertedTs_lt _) hhex.ge)
  have hts : ts.toInt = ts'.toInt := by
    have hlt := ts.toInt_lt
    have hle := ts.le_toInt
    have hlt' := ts'.toInt_lt
    have hle' := ts'.le_toInt
    unfold invertedTs at hinv
    omega
  exact Prod.ext (Int64.toInt_inj.mp hts) (List.cons.inj hid).2

/-- Of two records of a pool, the one with the smaller suffix is not older. -/
theorem timestamp_le_of_issuanceSuffix_lt {a b : Int64 × Str} (ha : 0 ≤ a.1) (hb : 0 ≤ b.1)
    (hlt : issuanceSuffix a < issuanceSuffix b) : b.1 ≤ a.1 := by
  have hkey : makePoolTsKey [] a.1.toInt a.2 < makePoolTsKey [] b.1.toInt b.2 := by
    rw [makePoolTsKey_eq_groupKey, makePoolTsKey_eq_groupKey]
    exact groupKey_lt_groupKey_iff.mpr hlt
  rw [Int64.le_iff_toInt_le] at ha hb ⊢
  exact timestamp_le_of_makePoolTsKey_lt ha a.1.toInt_lt hb b.1.toInt_lt hkey

/-! ## The calls as writes of groups -/

theorem exec_recordStep (calls : List RecordCall) :
    exec recordStep RecordTables.empty calls =
      ⟨writeAll '|' issuanceSuffix (calls.filterMap RecordCall.issued),
        writeAll '|' id (calls.filterMap RecordCall.revoked)⟩ := by
  induction calls using List.reverseRecOn with
  | nil => rfl
  | append_singleton calls call ih =>
    rw [exec_concat, ih, List.filterMap_append, List.filterMap_append]
    cases call with
    | issuance poolPda recordId timestamp jsonBytes =>
      have hissued : List.filterMap RecordCall.issued
          [.issuance poolPda recordId timestamp jsonBytes] =
            [((poolPda, timestamp, recordId), jsonBytes)] := rfl
      have hrevoked : List.filterMap RecordCall.revoked
          [.issuance poolPda recordId timestamp jsonBytes] = [] := rfl
      rw [hissued, hrevoked, List.append_nil, writeAll_concat, write,
        ← makePoolTsKey_eq_groupKey]
      rfl
    | revocation poolPda credentialId jsonBytes =>
      have hissued : List.filterMap RecordCall.issued
          [.revocation poolPda credentialId jsonBytes] = [] := rfl
      have hrevoked : List.filterMap RecordCall.revoked
          [.revocation poolPda credentialId jsonBytes] =
            [((poolPda, credentialId), jsonBytes)] := rfl
      rw [hissued, hrevoked, List.append_nil, writeAll_concat]
      rfl

/-! ## The pages -/

/-- The pages of a pool in a table of groups. -/
theorem pagesExact_writeAll {ρ J : Type} [DecidableEq ρ] {fromSlice : Bytes → Option J}
    {suffix : ρ → Str} (hsuffix : Function.Injective suffix) {ws : List ((Str × ρ) × Bytes)}
    (hws : ∀ w ∈ ws, '|' ∉ w.1.1 ∧ (fromSlice w.2).isSome) {p : Str} (hp : '|' ∉ p)
    {R : ρ → ρ → Prop}
    (hR : ∀ a b, (p, a) ∈ ws.map Prod.fst → (p, b) ∈ ws.map Prod.fst → suffix a < suffix b → R a b)
    {limit : Nat} (hlimit : 0 < limit) :
    PagesExact fromSlice (listRecords fromSlice (writeAll '|' suffix ws) p)
      (countRecords (writeAll '|' suffix ws) p) (lastWritten ws p) R limit := by
  obtain ⟨rs, hnodup, hmem, hsorted, hcount, hpages⟩ := exists_records_pages hsuffix
    (fun w hw => (hws w hw).1) hp fun w hw => (hws w hw).2
  refine ⟨rs.length, fun n hn => ⟨rs, hnodup, hmem, ?_, hpages limit n hlimit hn, ?_⟩⟩
  · refine hsorted.imp_of_mem fun {a b} ha hb hlt => hR a.1 b.1 ?_ ?_ hlt
    · exact List.mem_map_of_mem (mem_of_lastWritten ((hmem a.1 a.2).mp ha))
    · exact List.mem_map_of_mem (mem_of_lastWritten ((hmem b.1 b.2).mp hb))
  · have hlength := congrArg List.length (hpages limit n hlimit hn)
    rw [List.length_map, List.length_map] at hlength
    exact hcount.trans hlength.symm

/-- The pages of a pool give the records that are stored for it, each once, issuance records by
non-increasing time. -/
theorem recordPages {J : Type} (fromSlice : Bytes → Option J) (calls : List RecordCall)
    (hcalls : ∀ call ∈ calls, call.Admissible fromSlice) (p : Str) (hp : '|' ∉ p) (limit : Nat)
    (hlimit : 0 < limit) :
    let t := exec recordStep RecordTables.empty calls
    PagesExact fromSlice (t.listIssuanceRecords fromSlice p) (t.countIssuanceRecords p)
        (lastWritten (calls.filterMap RecordCall.issued) p) (fun a b => b.1 ≤ a.1) limit ∧
      PagesExact fromSlice (t.listRevocations fromSlice p) (t.countRevocations p)
        (lastWritten (calls.filterMap RecordCall.revoked) p) (fun _ _ => True) limit := by
  intro t
  have hissued : ∀ w ∈ calls.filterMap RecordCall.issued,
      '|' ∉ w.1.1 ∧ 0 ≤ w.1.2.1 ∧ (fromSlice w.2).isSome := by
    intro w hw
    obtain ⟨call, hcall, hw⟩ := List.mem_filterMap.mp hw
    cases call with
    | issuance poolPda recordId timestamp jsonBytes =>
      obtain rfl := Option.some.inj hw
      exact hcalls _ hcall
    | revocation poolPda credentialId jsonBytes => cases hw
  have hrevoked : ∀ w ∈ calls.filterMap RecordCall.revoked,
      '|' ∉ w.1.1 ∧ (fromSlice w.2).isSome := by
    intro w hw
    obtain ⟨call, hcall, hw⟩ := List.mem_filterMap.mp hw
    cases call with
    | issuance poolPda recordId timestamp jsonBytes => cases hw
    | revocation poolPda credentialId jsonBytes =>
      obtain rfl := Option.some.inj hw
      exact hcalls _ hcall
  have ht : t = _ := exec_recordStep calls
  rw [ht]
  refine ⟨pagesExact_writeAll issuanceSuffix_injective
      (fun w hw => ⟨(hissued w hw).1, (hissued w hw).2.2⟩) hp (fun a b ha hb hlt => ?_) hlimit,
    pagesExact_writeAll Function.injective_id hrevoked hp (fun _ _ _ _ _ => trivial) hlimit⟩
  obtain ⟨w, hw, hwa⟩ := List.mem_map.mp ha
  obtain ⟨w', hw', hwb⟩ := List.mem_map.mp hb
  have ha0 := (hissued w hw).2.1
  have hb0 := (hissued w' hw').2.1
  rw [hwa] at ha0
  rw [hwb] at hb0
  exact timestamp_le_of_issuanceSuffix_lt ha0 hb0 hlt

/-- Two pools, the address of one being the beginning of the other's. A record of the first is
written twice. -/
def twoPools : List RecordCall :=
  [.issuance ['p'] ['a'] 5 [1], .issuance ['p', 'q'] ['b'] 6 [2], .issuance ['p'] ['c'] 7 [3],
    .revocation ['p', 'q'] ['.', '|'] [4], .issuance ['p'] ['a'] 5 [5], .revocation ['p'] ['a'] [6]]

theorem recordPages_twoPools :
    let t := exec recordStep RecordTables.empty twoPools
    (t.listIssuanceRecords some ['p'] 1 0, t.listIssuanceRecords some ['p'] 1 1) =
        ([[3]], [[5]]) ∧
      PagesExact some (t.listIssuanceRecords some ['p']) (t.countIssuanceRecords ['p'])
        (lastWritten (twoPools.filterMap RecordCall.issued) ['p']) (fun a b => b.1 ≤ a.1) 1 ∧
      PagesExact some (t.listRevocations some ['p']) (t.countRevocations ['p'])
        (lastWritten (twoPools.filterMap RecordCall.revoked) ['p']) (fun _ _ => True) 1 := by
  refine ⟨by decide +kernel, recordPages some twoPools ?_ ['p'] (by decide) 1 (by decide)⟩
  simp [twoPools, RecordCall.Admissible]

end RelationalSdk
