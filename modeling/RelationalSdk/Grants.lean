import RelationalSdk.Domain
import RelationalSdk.KeyedTable
import RelationalSdk.Keys
import RelationalSdk.Runs

/-!
# The grant mirror

`GRANTS_BY_POOL` holds a record per key `{pool}|{analyst}|{drt}`, `GRANTS_BY_ANALYST` an
empty value per key `{analyst}|{pool}|{drt}` of an active grant. `upsertGrant` and
`revokeGrantLocal` write both, `isGrantActive` is the check every query makes, and the
two listings scan a range of one table.

What the tables are for is a `Ledger` : the last record written for each triple. The
analyst keys are injective on the triples a grant can have (`analystKey_inj`), because
a DRT name is shorter than a pool address, so the analyst table follows the ledger
whatever the identifiers contain (`indexFollows_exec`) and the check is exact
(`isGrantActive_iff_lastOp`). The pool keys have no such protection, and a listing reads
an analyst key back at its first two bars. `listingsAgree_of_plain` : the listings are
exact in every run whose analyst identifiers contain no bar and do not start with
U+10FFFF.
-/

namespace RelationalSdk

open Text KeyedTable

/-- Status of a grant in the local mirror. -/
inductive GrantStatus where
  | active
  | revoked
  deriving DecidableEq

/-- Local record of an on-chain Grant PDA. -/
structure GrantRecord where
  poolPda : Str
  analystId : Str
  drtName : Str
  grantPda : Str
  commitmentHex : Str
  ownerWalletId : Str
  grantedAt : Int
  grantedSig : Str
  status : GrantStatus
  revokedAt : Option Int
  revokedSig : Option Str
  deriving DecidableEq

/-- `GRANTS_BY_POOL` and `GRANTS_BY_ANALYST`. -/
structure GrantTables where
  byPool : Table Str GrantRecord
  byAnalyst : Table Str Str

/-- Both tables as `open` creates them. -/
def GrantTables.empty : GrantTables :=
  ⟨Table.empty, Table.empty⟩

/-- `format!("{x}|{y}|{z}")`. -/
def barKey (x y z : Str) : Str :=
  x ++ '|' :: (y ++ '|' :: z)

/-- Insert or update a grant record. Only active grants are indexed for the analyst. -/
def upsertGrant (db : GrantTables) (record : GrantRecord) : GrantTables where
  byPool := db.byPool.insert (barKey record.poolPda record.analystId record.drtName) record
  byAnalyst :=
    match record.status with
    | .active => db.byAnalyst.insert (barKey record.analystId record.poolPda record.drtName) []
    | .revoked => db.byAnalyst.remove (barKey record.analystId record.poolPda record.drtName)

/-- A record as `revoke_grant_local` rewrites it at time `now`. -/
def GrantRecord.revoke (record : GrantRecord) (revokedSig : Str) (now : Int) : GrantRecord :=
  { record with status := .revoked, revokedAt := some now, revokedSig := some revokedSig }

/-- Mark a grant as revoked. The result says whether a matching record exists. -/
def revokeGrantLocal (db : GrantTables) (poolPda analystId drtName revokedSig : Str)
    (now : Int) : Bool × GrantTables :=
  let poolKey := barKey poolPda analystId drtName
  let byAnalyst := db.byAnalyst.remove (barKey analystId poolPda drtName)
  match db.byPool.get poolKey with
  | some record => (true, ⟨db.byPool.insert poolKey (record.revoke revokedSig now), byAnalyst⟩)
  | none => (false, ⟨db.byPool, byAnalyst⟩)

/-- All grants of a pool, active and revoked. -/
def listPoolGrants (db : GrantTables) (poolPda : Str) : List GrantRecord :=
  (db.byPool.range (poolPda ++ ['|']) (poolPda ++ ['|'] ++ [maxChar])).map Prod.snd

/-- The record a listing finds behind an analyst key : the key is split at its first two
bars and turned into a pool key. -/
def activeRecordAt (db : GrantTables) (analystId key : Str) : Option GrantRecord :=
  match splitn '|' 3 key with
  | [_, pool, drt] => (db.byPool.get (barKey pool analystId drt)).filter (·.status = .active)
  | _ => none

/-- The active grants of an analyst across all pools. -/
def listGrantsByAnalyst (db : GrantTables) (analystId : Str) : List GrantRecord :=
  (db.byAnalyst.range (analystId ++ ['|']) (analystId ++ ['|'] ++ [maxChar])).filterMap
    fun e => activeRecordAt db analystId e.1

/-- Whether the analyst has an active grant for the DRT on the pool. -/
def isGrantActive (db : GrantTables) (analystId poolPda drtName : Str) : Bool :=
  (db.byAnalyst.get (barKey analystId poolPda drtName)).isSome

/-- `MAX_DRT_NAME_LEN`. -/
def maxDrtNameLen : Nat := 32

/-- Validate the logical DRT name supplied in a request. -/
def validateDrtName (name : Str) : Except ApiError Unit :=
  if name = [] then .error (.badRequest "DRT name cannot be empty")
  else if name ≠ trim name then
    .error (.badRequest "DRT name cannot have leading/trailing whitespace")
  else if maxDrtNameLen < len name then
    .error (.badRequest s!"DRT name exceeds maximum {maxDrtNameLen} bytes")
  else .ok ()

/-! ## Grant operations -/

/-- What a grant is about : a pool address, an analyst, and a DRT name that
`validate_drt_name` admits. -/
@[ext] structure GrantTriple where
  poolPda : Str
  analystId : Str
  drtName : Str
  base58 : IsBase58 poolPda
  length_pool : 32 ≤ poolPda.length ∧ poolPda.length ≤ 44
  analyst_ne : analystId ≠ []
  valid_drt : validateDrtName drtName = .ok ()
  deriving DecidableEq

/-- What `grant_right` records about a grant besides the triple. -/
structure GrantDetails where
  grantPda : Str
  commitmentHex : Str
  ownerWalletId : Str
  grantedAt : Int
  grantedSig : Str
  deriving DecidableEq

/-- The record `grant_right` writes. -/
def GrantTriple.record (t : GrantTriple) (d : GrantDetails) : GrantRecord where
  poolPda := t.poolPda
  analystId := t.analystId
  drtName := t.drtName
  grantPda := d.grantPda
  commitmentHex := d.commitmentHex
  ownerWalletId := d.ownerWalletId
  grantedAt := d.grantedAt
  grantedSig := d.grantedSig
  status := .active
  revokedAt := none
  revokedSig := none

/-- A write to the mirror. -/
inductive GrantOp where
  | upsertGrant (t : GrantTriple) (d : GrantDetails)
  | revokeGrantLocal (t : GrantTriple) (revokedSig : Str) (now : Int)
  deriving DecidableEq

namespace GrantOp

/-- The triple an operation names. -/
def triple : GrantOp → GrantTriple
  | upsertGrant t _ => t
  | revokeGrantLocal t _ _ => t

/-- The status an operation sets. -/
def status : GrantOp → GrantStatus
  | upsertGrant _ _ => .active
  | revokeGrantLocal _ _ _ => .revoked

end GrantOp

/-- The tables after an operation. -/
def applyGrantOp (db : GrantTables) : GrantOp → GrantTables
  | .upsertGrant t d => upsertGrant db (t.record d)
  | .revokeGrantLocal t revokedSig now =>
    (revokeGrantLocal db t.poolPda t.analystId t.drtName revokedSig now).2

/-- The tables after a sequence of operations. -/
def runGrantOps (ops : List GrantOp) : GrantTables :=
  Runs.exec applyGrantOp .empty ops

/-- The last operation that names a triple. -/
def lastOp (ops : List GrantOp) (t : GrantTriple) : Option GrantOp :=
  (ops.filter fun op => op.triple = t).getLast?

/-- Some operation grants the triple. -/
def EverGranted (ops : List GrantOp) (t : GrantTriple) : Prop :=
  ∃ d, GrantOp.upsertGrant t d ∈ ops

/-- A record is about a triple. -/
def GrantRecord.Names (r : GrantRecord) (t : GrantTriple) : Prop :=
  r.poolPda = t.poolPda ∧ r.analystId = t.analystId ∧ r.drtName = t.drtName

theorem lastOp_concat (ops : List GrantOp) (op : GrantOp) (t : GrantTriple) :
    lastOp (ops ++ [op]) t = if op.triple = t then some op else lastOp ops t := by
  unfold lastOp
  rw [List.filter_append]
  split_ifs with h <;> simp [h]

/-! ## The ledger -/

/-- What the mirror is for : the record of each triple. -/
abbrev Ledger := GrantTriple → Option GrantRecord

/-- A grant writes a new record for its triple, a revocation rewrites the one there is. -/
def ledgerStep (f : Ledger) : GrantOp → Ledger
  | .upsertGrant t d => Function.update f t (some (t.record d))
  | .revokeGrantLocal t revokedSig now =>
    Function.update f t ((f t).map fun r => r.revoke revokedSig now)

/-- The ledger after a sequence of operations. -/
def ledger (ops : List GrantOp) : Ledger :=
  Runs.exec ledgerStep (fun _ => none) ops

theorem ledger_concat (ops : List GrantOp) (op : GrantOp) :
    ledger (ops ++ [op]) = ledgerStep (ledger ops) op :=
  Runs.exec_concat _ ops op

theorem ledgerStep_of_ne (f : Ledger) {op : GrantOp} {t : GrantTriple} (h : op.triple ≠ t) :
    ledgerStep f op t = f t := by
  cases op <;> exact Function.update_of_ne (Ne.symm h) _ _

theorem GrantTriple.names_record (t : GrantTriple) (d : GrantDetails) : (t.record d).Names t :=
  ⟨rfl, rfl, rfl⟩

/-- A triple has a record exactly if it was ever granted. -/
theorem isSome_ledger_iff (ops : List GrantOp) (t : GrantTriple) :
    (ledger ops t).isSome ↔ EverGranted ops t := by
  induction ops using List.reverseRecOn with
  | nil => simp [ledger, EverGranted]
  | append_singleton ops op ih =>
    rw [ledger_concat]
    unfold EverGranted at ih ⊢
    by_cases h : op.triple = t
    · subst h
      cases op with
      | upsertGrant t d => simp [ledgerStep, GrantOp.triple]
      | revokeGrantLocal t sig now => simpa [ledgerStep, GrantOp.triple] using ih
    · rw [ledgerStep_of_ne _ h, ih]
      refine exists_congr fun d => ?_
      rw [List.mem_append, List.mem_singleton, or_iff_left]
      rintro rfl
      exact h rfl

/-- The record of a triple names it and has the status its last operation set. -/
theorem ledger_eq_some (ops : List GrantOp) {t : GrantTriple} {r : GrantRecord}
    (h : ledger ops t = some r) :
    r.Names t ∧ (lastOp ops t).map GrantOp.status = some r.status := by
  induction ops using List.reverseRecOn generalizing r with
  | nil => cases h
  | append_singleton ops op ih =>
    rw [ledger_concat] at h
    rw [lastOp_concat]
    by_cases ht : op.triple = t
    · rw [if_pos ht]
      subst ht
      cases op with
      | upsertGrant t d =>
        simp only [ledgerStep, GrantOp.triple, Function.update_self, Option.some.injEq] at h
        exact h ▸ ⟨t.names_record d, rfl⟩
      | revokeGrantLocal t sig now =>
        simp only [ledgerStep, GrantOp.triple, Function.update_self, Option.map_eq_some_iff] at h
        obtain ⟨r', hr', rfl⟩ := h
        exact ⟨(ih hr').1, rfl⟩
    · rw [if_neg ht]
      rw [ledgerStep_of_ne _ ht] at h
      exact ih h

/-- A record is active exactly if the last operation on its triple granted it. -/
theorem exists_active_iff_lastOp (ops : List GrantOp) (t : GrantTriple) :
    (∃ r, ledger ops t = some r ∧ r.status = .active) ↔
      ∃ d, lastOp ops t = some (.upsertGrant t d) := by
  constructor
  · rintro ⟨r, hr, hactive⟩
    obtain ⟨op, hop, hstatus⟩ := Option.map_eq_some_iff.mp (ledger_eq_some ops hr).2
    have htriple : op.triple = t := by
      simpa using (List.mem_filter.mp (List.mem_of_getLast? hop)).2
    cases op with
    | upsertGrant t' d => exact ⟨d, by rw [hop, ← htriple]; rfl⟩
    | revokeGrantLocal t' sig now => exact absurd (hstatus.trans hactive) (by simp [GrantOp.status])
  · rintro ⟨d, hd⟩
    have hever : EverGranted ops t := ⟨d, (List.mem_filter.mp (List.mem_of_getLast? hd)).1⟩
    obtain ⟨r, hr⟩ := Option.isSome_iff_exists.mp ((isSome_ledger_iff ops t).mpr hever)
    refine ⟨r, hr, ?_⟩
    have hstatus := (ledger_eq_some ops hr).2
    rw [hd] at hstatus
    exact (Option.some.inj hstatus).symm

/-! ## The analyst table follows the ledger -/

/-- The analyst key of a triple. -/
def GrantTriple.analystKey (t : GrantTriple) : Str :=
  barKey t.analystId t.poolPda t.drtName

/-- The pool key of a triple. -/
def GrantTriple.poolKey (t : GrantTriple) : Str :=
  barKey t.poolPda t.analystId t.drtName

theorem GrantTriple.length_drtName_le (t : GrantTriple) : t.drtName.length ≤ 32 := by
  have h := t.valid_drt
  unfold validateDrtName at h
  split_ifs at h with _ _ hlen
  exact (length_le_len _).trans (not_lt.mp hlen)

/-- Different triples have different analyst keys, bars or not. -/
theorem analystKey_inj {t u : GrantTriple} (h : t.analystKey = u.analystKey) : t = u := by
  obtain ⟨ha, hp, hd⟩ := joined_inj t.base58.not_mem_bar u.base58.not_mem_bar t.length_pool.1
    u.length_pool.1 t.length_drtName_le u.length_drtName_le h
  exact GrantTriple.ext hp ha hd

/-- The analyst table has the keys of the triples whose record is active. -/
def IndexFollows (db : GrantTables) (f : Ledger) : Prop :=
  ∀ k v, (k, v) ∈ db.byAnalyst.entries ↔
    v = [] ∧ ∃ t r, k = t.analystKey ∧ f t = some r ∧ r.status = .active

/-- The analyst keys change with the operation's own key only. -/
theorem mem_byAnalyst_applyGrantOp (db : GrantTables) (op : GrantOp) (k v : Str) :
    (k, v) ∈ (applyGrantOp db op).byAnalyst.entries ↔
      k = op.triple.analystKey ∧ v = [] ∧ op.status = .active ∨
        k ≠ op.triple.analystKey ∧ (k, v) ∈ db.byAnalyst.entries := by
  cases op with
  | upsertGrant t d =>
    simp only [applyGrantOp, upsertGrant, GrantTriple.record, GrantOp.triple, GrantOp.status,
      Table.mem_insert, Prod.mk.injEq, and_true]
    rfl
  | revokeGrantLocal t sig now =>
    simp only [applyGrantOp, revokeGrantLocal, GrantOp.triple, GrantOp.status]
    split <;> simp [Table.mem_remove, GrantTriple.analystKey]

theorem isGrantActive_eq_true_iff (db : GrantTables) (t : GrantTriple) :
    isGrantActive db t.analystId t.poolPda t.drtName = true ↔
      ∃ v, (t.analystKey, v) ∈ db.byAnalyst.entries := by
  rw [isGrantActive, Option.isSome_iff_exists]
  exact exists_congr fun v => Table.get_eq_some_iff _

/-- An operation sets the answer of the check for its own triple and for no other. -/
theorem isGrantActive_applyGrantOp (db : GrantTables) (op : GrantOp) (t : GrantTriple) :
    isGrantActive (applyGrantOp db op) t.analystId t.poolPda t.drtName = true ↔
      if op.triple = t then op.status = .active
      else isGrantActive db t.analystId t.poolPda t.drtName = true := by
  simp only [isGrantActive_eq_true_iff, mem_byAnalyst_applyGrantOp]
  split_ifs with h
  · simp [h]
  · have hkey : t.analystKey ≠ op.triple.analystKey := fun hk => h (analystKey_inj hk.symm)
    simp [hkey]

/-- The record of the operation's triple is active exactly if the operation grants it. -/
theorem exists_active_ledgerStep_iff (f : Ledger) (op : GrantOp) :
    (∃ r, ledgerStep f op op.triple = some r ∧ r.status = .active) ↔ op.status = .active := by
  cases op with
  | upsertGrant t d => simp [ledgerStep, GrantOp.triple, GrantOp.status, GrantTriple.record]
  | revokeGrantLocal t sig now =>
    simp [ledgerStep, GrantOp.triple, GrantOp.status, GrantRecord.revoke]

theorem IndexFollows.step {db : GrantTables} {f : Ledger} (h : IndexFollows db f) (op : GrantOp) :
    IndexFollows (applyGrantOp db op) (ledgerStep f op) := by
  intro k v
  rw [mem_byAnalyst_applyGrantOp, h k v]
  by_cases hk : k = op.triple.analystKey
  · -- by injectivity the only triple with this key is the operation's own
    have hown : (∃ t r, k = t.analystKey ∧ ledgerStep f op t = some r ∧ r.status = .active) ↔
        op.status = .active := by
      rw [← exists_active_ledgerStep_iff f op]
      constructor
      · rintro ⟨t, r, ht, hr⟩
        rw [analystKey_inj (ht.symm.trans hk)] at hr
        exact ⟨r, hr⟩
      · rintro ⟨r, hr⟩
        exact ⟨op.triple, r, hk, hr⟩
    rw [hown]
    simp [hk]
  · have hother : ∀ t : GrantTriple, k = t.analystKey → ledgerStep f op t = f t := by
      intro t ht
      refine ledgerStep_of_ne f ?_
      rintro rfl
      exact hk ht
    simp only [hk, false_and, false_or, ne_eq, not_false_eq_true, true_and]
    refine and_congr_right fun _ => exists_congr fun t => exists_congr fun r => ?_
    refine and_congr_right fun ht => ?_
    rw [hother t ht]

theorem indexFollows_exec (ops : List GrantOp) : IndexFollows (runGrantOps ops) (ledger ops) := by
  induction ops using List.reverseRecOn with
  | nil => simp [IndexFollows, runGrantOps, ledger, GrantTables.empty]
  | append_singleton ops op ih =>
    rw [ledger_concat, runGrantOps, Runs.exec_concat]
    exact ih.step op

/-- The check reads whether the ledger's record is active. -/
theorem isGrantActive_iff_ledger (ops : List GrantOp) (t : GrantTriple) :
    isGrantActive (runGrantOps ops) t.analystId t.poolPda t.drtName = true ↔
      ∃ r, ledger ops t = some r ∧ r.status = .active := by
  rw [isGrantActive_eq_true_iff]
  constructor
  · rintro ⟨v, hv⟩
    obtain ⟨-, u, r, hu, hr⟩ := (indexFollows_exec ops _ v).mp hv
    rw [analystKey_inj (t := t) hu]
    exact ⟨r, hr⟩
  · rintro ⟨r, hr⟩
    exact ⟨[], (indexFollows_exec ops _ []).mpr ⟨rfl, t, r, rfl, hr⟩⟩

/-- The access check answers by the last operation that names exactly its triple, and
an operation on another triple does not change the answer. -/
theorem isGrantActive_iff_lastOp (ops : List GrantOp) (t : GrantTriple) :
    (isGrantActive (runGrantOps ops) t.analystId t.poolPda t.drtName = true ↔
      ∃ d, lastOp ops t = some (.upsertGrant t d)) ∧
    ∀ op : GrantOp, op.triple ≠ t →
      isGrantActive (runGrantOps (ops ++ [op])) t.analystId t.poolPda t.drtName =
        isGrantActive (runGrantOps ops) t.analystId t.poolPda t.drtName := by
  have hlast : ∀ ops, isGrantActive (runGrantOps ops) t.analystId t.poolPda t.drtName = true ↔
      ∃ d, lastOp ops t = some (.upsertGrant t d) := fun ops =>
    (isGrantActive_iff_ledger ops t).trans (exists_active_iff_lastOp ops t)
  refine ⟨hlast ops, fun op hop => ?_⟩
  rw [Bool.eq_iff_iff, hlast, hlast, lastOp_concat, if_neg hop]

/-! ## The pool table, for plain analyst identifiers -/

/-- An identifier a key can be read back from : no bar, and below the end of a range. -/
def PlainAnalyst (analystId : Str) : Prop :=
  '|' ∉ analystId ∧ analystId.head? ≠ some maxChar

instance (analystId : Str) : Decidable (PlainAnalyst analystId) :=
  inferInstanceAs (Decidable (_ ∧ _))

/-- A pool key with a plain analyst is read back at its first two bars. -/
theorem poolKey_eq_barKey {t : GrantTriple} (ht : PlainAnalyst t.analystId) {pool analyst drt : Str}
    (hpool : '|' ∉ pool) (hanalyst : '|' ∉ analyst) (h : t.poolKey = barKey pool analyst drt) :
    t.poolPda = pool ∧ t.analystId = analyst ∧ t.drtName = drt := by
  obtain ⟨hp, hrest⟩ := append_cons_inj_left t.base58.not_mem_bar hpool h
  exact ⟨hp, append_cons_inj_left ht.1 hanalyst hrest⟩

theorem poolKey_inj {t u : GrantTriple} (ht : PlainAnalyst t.analystId)
    (hu : PlainAnalyst u.analystId) (h : t.poolKey = u.poolKey) : t = u := by
  obtain ⟨hp, ha, hd⟩ := poolKey_eq_barKey ht u.base58.not_mem_bar hu.1 h
  exact GrantTriple.ext hp ha hd

/-- Every triple with a record has a plain analyst, and the pool table holds the records
under the keys of their triples. -/
structure PoolFollows (db : GrantTables) (f : Ledger) : Prop where
  plain : ∀ t r, f t = some r → PlainAnalyst t.analystId
  entries : ∀ k r, (k, r) ∈ db.byPool.entries ↔ ∃ t, k = t.poolKey ∧ f t = some r

theorem PoolFollows.get {db : GrantTables} {f : Ledger} (h : PoolFollows db f) {t : GrantTriple}
    (ht : PlainAnalyst t.analystId) : db.byPool.get t.poolKey = f t := by
  ext r
  rw [Table.get_eq_some_iff, h.entries]
  constructor
  · rintro ⟨u, hu, hr⟩
    rw [poolKey_inj ht (h.plain u r hr) hu]
    exact hr
  · exact fun hr => ⟨t, rfl, hr⟩

/-- An operation writes what the ledger holds for its triple, at the key of the triple. -/
theorem PoolFollows.mem_applyGrantOp {db : GrantTables} {f : Ledger} (h : PoolFollows db f)
    {op : GrantOp} (hop : PlainAnalyst op.triple.analystId) (k : Str) (r : GrantRecord) :
    (k, r) ∈ (applyGrantOp db op).byPool.entries ↔
      k = op.triple.poolKey ∧ ledgerStep f op op.triple = some r ∨
        k ≠ op.triple.poolKey ∧ (k, r) ∈ db.byPool.entries := by
  cases op with
  | upsertGrant t d =>
    simp only [applyGrantOp, upsertGrant, GrantOp.triple, ledgerStep, Function.update_self,
      Table.mem_insert, Prod.mk.injEq, Option.some.injEq, eq_comm (a := r)]
    rfl
  | revokeGrantLocal t sig now =>
    have hget := h.get hop
    simp only [GrantOp.triple, GrantTriple.poolKey] at hget
    simp only [applyGrantOp, revokeGrantLocal, GrantOp.triple, ledgerStep, Function.update_self,
      hget, GrantTriple.poolKey]
    cases hf : f t with
    | none =>
      -- no record : the table is unchanged and has no entry at the key
      rw [hf] at hget
      have hnone := db.byPool.get_eq_none_iff.mp hget
      simp only [Option.map_none, reduceCtorEq, and_false, false_or]
      refine ⟨fun hk => ⟨?_, hk⟩, And.right⟩
      rintro rfl
      exact hnone r hk
    | some r' =>
      simp [Table.mem_insert, eq_comm]

theorem PoolFollows.step {db : GrantTables} {f : Ledger} (h : PoolFollows db f) {op : GrantOp}
    (hop : PlainAnalyst op.triple.analystId) :
    PoolFollows (applyGrantOp db op) (ledgerStep f op) := by
  have hplain : ∀ t r, ledgerStep f op t = some r → PlainAnalyst t.analystId := by
    intro t r hr
    by_cases ht : op.triple = t
    · exact ht ▸ hop
    · rw [ledgerStep_of_ne f ht] at hr
      exact h.plain t r hr
  refine ⟨hplain, fun k r => ?_⟩
  rw [h.mem_applyGrantOp hop, h.entries]
  constructor
  · rintro (⟨hk, hr⟩ | ⟨hk, t, ht, hr⟩)
    · exact ⟨op.triple, hk, hr⟩
    · refine ⟨t, ht, ?_⟩
      rw [ledgerStep_of_ne f fun hop => hk (hop ▸ ht)]
      exact hr
  · rintro ⟨t, ht, hr⟩
    by_cases htriple : op.triple = t
    · subst htriple
      exact Or.inl ⟨ht, hr⟩
    · refine Or.inr ⟨fun hk => htriple ?_, t, ht, ?_⟩
      · exact poolKey_inj hop (hplain t r hr) (hk.symm.trans ht)
      · rw [ledgerStep_of_ne f htriple] at hr
        exact hr

theorem poolFollows_exec {ops : List GrantOp} (h : ∀ op ∈ ops, PlainAnalyst op.triple.analystId) :
    PoolFollows (runGrantOps ops) (ledger ops) := by
  induction ops using List.reverseRecOn with
  | nil => exact ⟨by simp [ledger], by simp [runGrantOps, ledger, GrantTables.empty]⟩
  | append_singleton ops op ih =>
    rw [ledger_concat, runGrantOps, Runs.exec_concat]
    exact (ih fun o ho => h o (List.mem_append_left _ ho)).step (h op (by simp))

/-! ## The listings -/

/-- The listings agree with the access check. A listing of an analyst has exactly one
record for each active grant of the analyst, a listing of a pool exactly one for each
grant ever made on it, with the status of the last operation. -/
structure ListingsAgree (ops : List GrantOp) : Prop where
  analystSound : ∀ a, ∀ r ∈ listGrantsByAnalyst (runGrantOps ops) a, ∃ t : GrantTriple,
    r.Names t ∧ t.analystId = a ∧
      isGrantActive (runGrantOps ops) t.analystId t.poolPda t.drtName = true
  analystComplete : ∀ t : GrantTriple,
    isGrantActive (runGrantOps ops) t.analystId t.poolPda t.drtName = true →
      ∃ r ∈ listGrantsByAnalyst (runGrantOps ops) t.analystId, r.Names t
  analystOnce : ∀ a, ((listGrantsByAnalyst (runGrantOps ops) a).map
    fun r => (r.poolPda, r.drtName)).Nodup
  poolSound : ∀ p, IsBase58 p → ∀ r ∈ listPoolGrants (runGrantOps ops) p, ∃ t : GrantTriple,
    r.Names t ∧ t.poolPda = p ∧ EverGranted ops t ∧
      (lastOp ops t).map GrantOp.status = some r.status
  poolComplete : ∀ t : GrantTriple, EverGranted ops t →
    ∃ r ∈ listPoolGrants (runGrantOps ops) t.poolPda, r.Names t
  poolOnce : ∀ p, IsBase58 p → ((listPoolGrants (runGrantOps ops) p).map
    fun r => (r.analystId, r.drtName)).Nodup

theorem append_lt_maxChar {s : Str} (hne : s ≠ []) (h : s.head? ≠ some maxChar) (rest : Str) :
    s ++ rest < [maxChar] := by
  obtain ⟨c, s, rfl⟩ := List.exists_cons_of_ne_nil hne
  have hc : c ≠ maxChar := by simpa using h
  exact List.cons_lt_cons_iff.mpr (Or.inl (lt_of_le_of_ne (le_maxChar c) hc))

theorem GrantTriple.pool_ne_nil (t : GrantTriple) : t.poolPda ≠ [] := by
  intro h
  have := t.length_pool.1
  simp [h] at this

theorem IsBase58.head?_ne_maxChar {s : Str} (h : IsBase58 s) : s.head? ≠ some maxChar :=
  fun hmax => absurd (h _ (List.mem_of_mem_head? hmax)) (by decide)

/-- A key of three fields is in the range of a first field exactly if that is its own. -/
theorem barKey_mem_range_iff {x y z stem : Str} (hx : '|' ∉ x) (hstem : '|' ∉ stem) (hy : y ≠ [])
    (hmax : y.head? ≠ some maxChar) :
    stem ++ ['|'] ≤ barKey x y z ∧ barKey x y z < stem ++ ['|'] ++ [maxChar] ↔ x = stem := by
  rw [le_and_lt_append_iff]
  constructor
  · rintro ⟨r, hr, -⟩
    rw [List.append_assoc] at hr
    exact (append_cons_inj_left hx hstem hr).1
  · rintro rfl
    exact ⟨y ++ '|' :: z, by simp [barKey], append_lt_maxChar hy hmax _⟩

section Plain

variable {ops : List GrantOp} (h : ∀ op ∈ ops, PlainAnalyst op.triple.analystId)

include h

/-- The pool's listing holds the ledger's records of the pool. -/
theorem mem_listPoolGrants_iff {p : Str} (hp : IsBase58 p) (r : GrantRecord) :
    r ∈ listPoolGrants (runGrantOps ops) p ↔ ∃ t, t.poolPda = p ∧ ledger ops t = some r := by
  have hpool := poolFollows_exec h
  rw [listPoolGrants, List.mem_map]
  constructor
  · rintro ⟨⟨k, r⟩, he, rfl⟩
    obtain ⟨hmem, hrange⟩ := Table.mem_range _ |>.mp he
    obtain ⟨t, rfl, ht⟩ := (hpool.entries k r).mp hmem
    have hplain := hpool.plain t r ht
    exact ⟨t, (barKey_mem_range_iff t.base58.not_mem_bar hp.not_mem_bar t.analyst_ne
      hplain.2).mp hrange, ht⟩
  · rintro ⟨t, rfl, ht⟩
    have hplain := hpool.plain t r ht
    refine ⟨(t.poolKey, r), (Table.mem_range _).mpr ⟨(hpool.entries _ r).mpr ⟨t, rfl, ht⟩, ?_⟩, rfl⟩
    exact (barKey_mem_range_iff t.base58.not_mem_bar hp.not_mem_bar t.analyst_ne hplain.2).mpr rfl

/-- Behind the analyst key of a triple a listing looks for the key's pool and DRT under
the analyst it lists. -/
theorem activeRecordAt_eq_some_iff {t : GrantTriple} (ht : PlainAnalyst t.analystId) (a : Str)
    (r : GrantRecord) :
    activeRecordAt (runGrantOps ops) a t.analystKey = some r ↔
      (∃ u : GrantTriple, barKey t.poolPda a t.drtName = u.poolKey ∧ ledger ops u = some r) ∧
        r.status = .active := by
  have hsplit : splitn '|' 3 t.analystKey = [t.analystId, t.poolPda, t.drtName] := by
    rw [GrantTriple.analystKey, barKey, splitn_append_cons ht.1,
      splitn_append_cons t.base58.not_mem_bar, splitn]
  simp only [activeRecordAt, hsplit, Option.filter_eq_some_iff, decide_eq_true_eq]
  rw [Table.get_eq_some_iff, (poolFollows_exec h).entries]

/-- A key in the range of an analyst behind which there is a record is a key of that
analyst. An identifier with a bar would need a DRT name that holds the pool address. -/
theorem analystId_eq_of_activeRecordAt {t : GrantTriple} (ht : PlainAnalyst t.analystId)
    {a rest : Str} (hk : t.analystKey = a ++ '|' :: rest) {r : GrantRecord}
    (hr : activeRecordAt (runGrantOps ops) a t.analystKey = some r) : t.analystId = a := by
  by_cases ha : '|' ∈ a
  · exfalso
    obtain ⟨a₁, a₂, rfl, ha₁⟩ := List.eq_append_cons_of_mem ha
    rw [List.append_assoc, List.cons_append] at hk
    obtain ⟨-, hrest⟩ := append_cons_inj_left ht.1 ha₁ hk
    obtain ⟨⟨u, hu, hru⟩, -⟩ := (activeRecordAt_eq_some_iff h ht _ r).mp hr
    have hu' : u.poolKey = barKey t.poolPda a₁ (a₂ ++ '|' :: t.drtName) := by
      rw [← hu]
      simp [barKey]
    obtain ⟨-, -, hdrt⟩ := poolKey_eq_barKey ((poolFollows_exec h).plain u r hru)
      t.base58.not_mem_bar ha₁ hu'
    have hlen := length_le_of_append_cons_eq t.base58.not_mem_bar hrest
    have hpool := t.length_pool.1
    have hname := u.length_drtName_le
    rw [hdrt, List.length_append, List.length_cons] at hname
    omega
  · exact (append_cons_inj_left ht.1 ha hk).1

/-- An entry of the analyst's range behind which there is a record is the key of that
record's triple. -/
theorem mem_range_activeRecordAt {a : Str} {e : Str × Str}
    (he : e ∈ (runGrantOps ops).byAnalyst.range (a ++ ['|']) (a ++ ['|'] ++ [maxChar]))
    {r : GrantRecord} (hr : activeRecordAt (runGrantOps ops) a e.1 = some r) :
    ∃ t : GrantTriple, e.1 = t.analystKey ∧ t.analystId = a ∧ ledger ops t = some r ∧
      r.status = .active := by
  obtain ⟨hmem, hrange⟩ := (Table.mem_range _).mp he
  obtain ⟨-, t, r', hk, hr', -⟩ := (indexFollows_exec ops e.1 e.2).mp hmem
  have hplain := (poolFollows_exec h).plain
  obtain ⟨rest, hrest, -⟩ := le_and_lt_append_iff.mp hrange
  rw [hk] at hr hrest
  rw [List.append_assoc] at hrest
  have ha := analystId_eq_of_activeRecordAt h (hplain t r' hr') hrest hr
  subst ha
  obtain ⟨⟨u, hu, hru⟩, hactive⟩ :=
    (activeRecordAt_eq_some_iff h (hplain t r' hr') t.analystId r).mp hr
  rw [← poolKey_inj (hplain t r' hr') (hplain u r hru) hu] at hru
  exact ⟨t, hk, rfl, hru, hactive⟩

/-- The analyst's listing holds the ledger's active records of the analyst. -/
theorem mem_listGrantsByAnalyst_iff (a : Str) (r : GrantRecord) :
    r ∈ listGrantsByAnalyst (runGrantOps ops) a ↔
      ∃ t : GrantTriple, t.analystId = a ∧ ledger ops t = some r ∧ r.status = .active := by
  rw [listGrantsByAnalyst, List.mem_filterMap]
  constructor
  · rintro ⟨e, he, hr⟩
    obtain ⟨t, -, ht⟩ := mem_range_activeRecordAt h he hr
    exact ⟨t, ht⟩
  · rintro ⟨t, rfl, hr, hactive⟩
    have hplain := (poolFollows_exec h).plain t r hr
    refine ⟨(t.analystKey, []), (Table.mem_range _).mpr ⟨?_, ?_⟩, ?_⟩
    · exact (indexFollows_exec ops _ _).mpr ⟨rfl, t, r, rfl, hr, hactive⟩
    · exact (barKey_mem_range_iff hplain.1 hplain.1 t.pool_ne_nil
        t.base58.head?_ne_maxChar).mpr rfl
    · exact (activeRecordAt_eq_some_iff h hplain _ r).mpr ⟨⟨t, rfl, hr⟩, hactive⟩

theorem nodup_listGrantsByAnalyst (a : Str) :
    ((listGrantsByAnalyst (runGrantOps ops) a).map fun r => (r.poolPda, r.drtName)).Nodup := by
  have hkeys := (runGrantOps ops).byAnalyst.nodup_range (a ++ ['|']) (a ++ ['|'] ++ [maxChar])
  refine List.pairwise_map.mpr (List.pairwise_filterMap.mpr ?_)
  refine (List.pairwise_map.mp hkeys).imp_of_mem fun {e e'} he he' hne r hr r' hr' hsame => hne ?_
  obtain ⟨t, hk, ha, ht, -⟩ := mem_range_activeRecordAt h he hr
  obtain ⟨t', hk', ha', ht', -⟩ := mem_range_activeRecordAt h he' hr'
  obtain ⟨hp, -, hd⟩ := (ledger_eq_some ops ht).1
  obtain ⟨hp', -, hd'⟩ := (ledger_eq_some ops ht').1
  obtain ⟨hpool, hdrt⟩ := Prod.mk.inj hsame
  have htt : t = t' := GrantTriple.ext (hp ▸ hp' ▸ hpool) (ha.trans ha'.symm) (hd ▸ hd' ▸ hdrt)
  rw [hk, hk', htt]

theorem nodup_listPoolGrants {p : Str} (hp : IsBase58 p) :
    ((listPoolGrants (runGrantOps ops) p).map fun r => (r.analystId, r.drtName)).Nodup := by
  have hpool := poolFollows_exec h
  have hkeys := (runGrantOps ops).byPool.nodup_range (p ++ ['|']) (p ++ ['|'] ++ [maxChar])
  rw [listPoolGrants, List.map_map]
  refine List.pairwise_map.mpr ?_
  refine (List.pairwise_map.mp hkeys).imp_of_mem fun {e e'} he he' hne hsame => hne ?_
  obtain ⟨t, hk, ht⟩ := (hpool.entries e.1 e.2).mp ((Table.mem_range _).mp he).1
  obtain ⟨t', hk', ht'⟩ := (hpool.entries e'.1 e'.2).mp ((Table.mem_range _).mp he').1
  obtain ⟨hrange, hrange'⟩ := And.intro ((Table.mem_range _).mp he).2 ((Table.mem_range _).mp he').2
  rw [hk] at hrange
  rw [hk'] at hrange'
  have hpt := (barKey_mem_range_iff t.base58.not_mem_bar hp.not_mem_bar t.analyst_ne
    (hpool.plain t _ ht).2).mp hrange
  have hpt' := (barKey_mem_range_iff t'.base58.not_mem_bar hp.not_mem_bar t'.analyst_ne
    (hpool.plain t' _ ht').2).mp hrange'
  obtain ⟨-, ha, hd⟩ := (ledger_eq_some ops ht).1
  obtain ⟨-, ha', hd'⟩ := (ledger_eq_some ops ht').1
  obtain ⟨hanalyst, hdrt⟩ := Prod.mk.inj hsame
  have htt : t = t' :=
    GrantTriple.ext (hpt.trans hpt'.symm) (ha ▸ ha' ▸ hanalyst) (hd ▸ hd' ▸ hdrt)
  rw [hk, hk', htt]

end Plain

/-- When no operation names an analyst with a bar or one that starts with U+10FFFF, both
listings agree with the access check. -/
theorem listingsAgree_of_plain (ops : List GrantOp)
    (h : ∀ op ∈ ops, PlainAnalyst op.triple.analystId) : ListingsAgree ops where
  analystSound a r hr := by
    obtain ⟨t, ha, ht, hactive⟩ := (mem_listGrantsByAnalyst_iff h a r).mp hr
    exact ⟨t, (ledger_eq_some ops ht).1, ha, (isGrantActive_iff_ledger ops t).mpr ⟨r, ht, hactive⟩⟩
  analystComplete t ht := by
    obtain ⟨r, hr, hactive⟩ := (isGrantActive_iff_ledger ops t).mp ht
    exact ⟨r, (mem_listGrantsByAnalyst_iff h _ r).mpr ⟨t, rfl, hr, hactive⟩,
      (ledger_eq_some ops hr).1⟩
  analystOnce := nodup_listGrantsByAnalyst h
  poolSound p hp r hr := by
    obtain ⟨t, hpt, ht⟩ := (mem_listPoolGrants_iff h hp r).mp hr
    obtain ⟨hnames, hstatus⟩ := ledger_eq_some ops ht
    exact ⟨t, hnames, hpt, (isSome_ledger_iff ops t).mp (by simp [ht]), hstatus⟩
  poolComplete t ht := by
    obtain ⟨r, hr⟩ := Option.isSome_iff_exists.mp ((isSome_ledger_iff ops t).mpr ht)
    exact ⟨r, (mem_listPoolGrants_iff h t.base58 r).mpr ⟨t, rfl, hr⟩, (ledger_eq_some ops hr).1⟩
  poolOnce p hp := nodup_listPoolGrants h hp

/-- A pool address, an Auth0 identifier and a DRT name. -/
def sampleTriple : GrantTriple where
  poolPda := "11111111111111111111111111111111".toList
  analystId := "auth0|123".toList
  drtName := "mean".toList
  base58 := by decide
  length_pool := by decide
  analyst_ne := by decide
  valid_drt := by decide

/-- Details of a grant. -/
def sampleDetails : GrantDetails :=
  ⟨"PDA".toList, "00".toList, "w1".toList, 1771891200, "5Sig".toList⟩

/-- An analyst with a bar holds an active grant and lists none. -/
theorem not_listingsAgree_auth0 :
    isGrantActive (runGrantOps [.upsertGrant sampleTriple sampleDetails]) sampleTriple.analystId
        sampleTriple.poolPda sampleTriple.drtName = true ∧
      listGrantsByAnalyst (runGrantOps [.upsertGrant sampleTriple sampleDetails])
        sampleTriple.analystId = [] ∧
      ¬ListingsAgree [.upsertGrant sampleTriple sampleDetails] := by
  have hactive : isGrantActive (runGrantOps [.upsertGrant sampleTriple sampleDetails])
      sampleTriple.analystId sampleTriple.poolPda sampleTriple.drtName = true := by decide +kernel
  have hnil : listGrantsByAnalyst (runGrantOps [.upsertGrant sampleTriple sampleDetails])
      sampleTriple.analystId = [] := by decide +kernel
  refine ⟨hactive, hnil, fun h => ?_⟩
  obtain ⟨r, hr, -⟩ := h.analystComplete sampleTriple hactive
  simp [hnil] at hr

/-- The grant of an analyst with a Clerk identifier. -/
def clerkTriple (analystId : Str) (hne : analystId ≠ []) : GrantTriple :=
  { sampleTriple with analystId := analystId, analyst_ne := hne }

/-- Two analysts get a grant, and the first one loses it. -/
def clerkOps : List GrantOp :=
  let first := clerkTriple "user_2abc".toList (by decide)
  let second := clerkTriple "user_2abd".toList (by decide)
  [.upsertGrant first sampleDetails, .upsertGrant second sampleDetails,
    .revokeGrantLocal first "5Rev".toList 1771891300]

/-- The listings of the pool and of both analysts. -/
theorem listingsAgree_clerk :
    ListingsAgree clerkOps ∧
      (listPoolGrants (runGrantOps clerkOps) sampleTriple.poolPda).map
        (fun r => (r.analystId, r.status)) =
          [("user_2abc".toList, .revoked), ("user_2abd".toList, .active)] ∧
      listGrantsByAnalyst (runGrantOps clerkOps) "user_2abc".toList = [] ∧
      (listGrantsByAnalyst (runGrantOps clerkOps) "user_2abd".toList).map GrantRecord.drtName =
        ["mean".toList] :=
  ⟨listingsAgree_of_plain _ (by decide), by decide +kernel, by decide +kernel, by decide +kernel⟩

end RelationalSdk
