import RelationalSdk.CivilTime
import RelationalSdk.Domain
import RelationalSdk.JsonText
import RelationalSdk.Runs

/-!
# The audit tables

The database keeps the JSON of each audit event under its id and lists the id in two indexes,
by resource and by date. A key of the first is the resource id, the inverted time in sixteen
hexadecimal digits and the event id, joined by `|`, and the events of a resource are found by a
scan of the keys that extend its id and a `|`. An event whose JSON does not parse is passed over.

A resource id can be any text, and nothing in a key tells where it ends. `listingExact_iff` :
the listing of a resource is exact, page after page, if and only if no event was logged for
another resource whose id continues the id with a `|`, or that the id itself continues with
the time of the event. Otherwise it shows the events of the other resource as well.
-/

namespace RelationalSdk

open Text KeyedTable Runs JsonValue

/-- Categories of auditable events. -/
inductive AuditEventType where
  | walletCreated
  | walletDeleted
  | walletAccessed
  | transactionSigned
  | transactionBroadcast
  | permissionDenied
  | adminAccess
  | poolCreated
  | poolClosed
  | datasetInitialized
  | credentialIssued
  | credentialIssuanceFailed
  | credentialRevoked
  | roleAssigned
  | drtPurchased
  | drtRedeemed
  | schemaUploaded
  | rightGranted
  | rightRevoked
  | drtExecuted
  deriving DecidableEq

/-- The name of the type in JSON. -/
def AuditEventType.name : AuditEventType → String
  | walletCreated => "wallet_created"
  | walletDeleted => "wallet_deleted"
  | walletAccessed => "wallet_accessed"
  | transactionSigned => "transaction_signed"
  | transactionBroadcast => "transaction_broadcast"
  | permissionDenied => "permission_denied"
  | adminAccess => "admin_access"
  | poolCreated => "pool_created"
  | poolClosed => "pool_closed"
  | datasetInitialized => "dataset_initialized"
  | credentialIssued => "credential_issued"
  | credentialIssuanceFailed => "credential_issuance_failed"
  | credentialRevoked => "credential_revoked"
  | roleAssigned => "role_assigned"
  | drtPurchased => "drt_purchased"
  | drtRedeemed => "drt_redeemed"
  | schemaUploaded => "schema_uploaded"
  | rightGranted => "right_granted"
  | rightRevoked => "right_revoked"
  | drtExecuted => "drt_executed"

/-- A single audit event. The details are their JSON text. -/
structure AuditEvent where
  eventId : Str
  timestamp : DateTime
  eventType : AuditEventType
  userId : Option Str
  resourceType : Option Str
  resourceId : Option Str
  details : Option Str
  success : Bool
  hmac : Option Str
  correlationId : Option Str
  poolPda : Option Str
  deriving DecidableEq

/-! ## Dates -/

/-- Year, month and day of a day counted from 1970-01-01, in the proleptic Gregorian
calendar. Years are counted from March within eras of 400 years. -/
def civilFromDays (days : Int) : Int × Nat × Nat :=
  let z := days + 719468
  let era := z / 146097
  let dayOfEra := (z % 146097).toNat
  let yearOfEra := (dayOfEra - dayOfEra / 1460 + dayOfEra / 36524 - dayOfEra / 146096) / 365
  let dayOfYear := dayOfEra - (365 * yearOfEra + yearOfEra / 4 - yearOfEra / 100)
  let m := (5 * dayOfYear + 2) / 153
  let day := dayOfYear - (153 * m + 2) / 5 + 1
  let month := if m < 10 then m + 3 else m - 9
  (era * 400 + yearOfEra + (if month ≤ 2 then 1 else 0), month, day)

/-- A number in at least `width` decimal digits. -/
def decimalPad (width n : Nat) : Str :=
  let digits := Nat.toDigits 10 n
  List.replicate (width - digits.length) '0' ++ digits

/-- chrono's `%Y-%m-%d` : the year has a sign outside of 0 to 9999. -/
def formatDate (t : DateTime) : Str :=
  let (year, month, day) := civilFromDays (t.timestamp / 86400)
  let sign := if year < 0 then ['-'] else if 9999 < year then ['+'] else []
  sign ++ decimalPad 4 year.natAbs ++ '-' :: decimalPad 2 month ++ '-' :: decimalPad 2 day

example : formatDate sampleDate = "2026-02-24".toList := by decide +kernel

example : formatDate ⟨951825600, 0, by simp, by simp⟩ = "2000-02-29".toList := by decide +kernel

theorem not_mem_bar_decimalPad (width n : Nat) : '|' ∉ decimalPad width n := by
  intro h
  rcases List.mem_append.mp h with h | h
  · exact absurd (List.eq_of_mem_replicate h) (by decide)
  · have hdigit := Nat.isDigit_of_mem_toDigits (b := 10) (by decide) (by decide) h
    exact absurd hdigit (by decide)

theorem not_mem_bar_formatDate (t : DateTime) : '|' ∉ formatDate t := by
  have hsign : ∀ year : Int,
      '|' ∉ (if year < 0 then ['-'] else if 9999 < year then ['+'] else []) := by
    intro year
    split_ifs <;> decide
  unfold formatDate
  simp only [List.mem_append, List.mem_cons, not_or]
  refine ⟨⟨⟨hsign _, not_mem_bar_decimalPad _ _⟩, by decide, not_mem_bar_decimalPad _ _⟩, by decide,
    not_mem_bar_decimalPad _ _⟩

/-! ## The tables -/

/-- `!timestamp as u64`. -/
def invertedTs (timestamp : Int) : Nat :=
  ((-timestamp - 1) % 2 ^ 64).toNat

/-- The composite key `prefix|inverted time|suffix`. -/
def makePoolTsKey (resourceId : Str) (timestamp : Int) (suffix : Str) : Str :=
  resourceId ++ '|' :: hexPad 16 (invertedTs timestamp) ++ '|' :: suffix

theorem makePoolTsKey_eq (resourceId : Str) (timestamp : Int) (suffix : Str) :
    makePoolTsKey resourceId timestamp suffix =
      (resourceId ++ ['|']) ++ (hexPad 16 (invertedTs timestamp) ++ '|' :: suffix) := by
  simp [makePoolTsKey]

theorem invertedTs_of_nonneg {ts : Int} (h : 0 ≤ ts) (hmax : ts < 2 ^ 63) :
    (invertedTs ts : Int) = 2 ^ 64 - 1 - ts := by
  unfold invertedTs
  omega

/-- Of two keys of one resource, the smaller one is not older. -/
theorem timestamp_le_of_makePoolTsKey_lt {r x y : Str} {a b : Int} (ha : 0 ≤ a) (ha' : a < 2 ^ 63)
    (hb : 0 ≤ b) (hb' : b < 2 ^ 63) (hlt : makePoolTsKey r a x < makePoolTsKey r b y) :
    b ≤ a := by
  have hinva := invertedTs_of_nonneg ha ha'
  have hinvb := invertedTs_of_nonneg hb hb'
  have hhex : hexPad 16 (invertedTs a) ≤ hexPad 16 (invertedTs b) := by
    by_contra hnot
    have hlength : (hexPad 16 (invertedTs b)).length = (hexPad 16 (invertedTs a)).length := by
      rw [length_hexPad, length_hexPad]
    have hgt := append_lt_append_of_lt (not_le.mp hnot) hlength ('|' :: y) ('|' :: x)
    rw [makePoolTsKey_eq, makePoolTsKey_eq, append_lt_append_left_iff] at hlt
    exact lt_asymm hlt hgt
  have hle := le_of_hexPad_le (by omega) hhex
  omega

/-- serde_json on audit events. -/
structure EventJson where
  toJson : AuditEvent → Str
  fromJson : Str → Option AuditEvent

/-- `AUDIT_EVENTS`, `AUDIT_BY_RESOURCE` and `AUDIT_BY_DATE`. -/
structure AuditTables where
  events : Table Str Str
  byResource : Table Str Unit
  byDate : Table Str Unit

/-- Empty tables. -/
def AuditTables.empty : AuditTables :=
  ⟨Table.empty, Table.empty, Table.empty⟩

/-- The key of an event in the resource index, if it has a resource. -/
def AuditEvent.resourceKey (e : AuditEvent) : Option Str :=
  e.resourceId.map fun r => makePoolTsKey r e.timestamp.timestamp e.eventId

/-- The key of an event in the date index. -/
def AuditEvent.dateKey (e : AuditEvent) : Str :=
  formatDate e.timestamp ++ '|' :: e.eventId

/-- Count audit events for a resource. -/
def countAuditByResource (t : AuditTables) (resourceId : Str) : Nat :=
  (t.byResource.scan (resourceId ++ ['|'])).length

namespace EventJson

variable (j : EventJson)

/-- Log an event in all three tables. -/
def logAuditEvent (t : AuditTables) (e : AuditEvent) : AuditTables where
  events := t.events.insert e.eventId (j.toJson e)
  byResource :=
    match e.resourceKey with
    | none => t.byResource
    | some key => t.byResource.insert key ()
  byDate := t.byDate.insert e.dateKey ()

/-- The loop of the two listings, over the keys of an index from `p` on. `idOf` reads the
event id from a key. -/
def auditLoop (events : Table Str Str) (p : Str) (idOf : Str → Str) (limit offset : Nat) :
    Nat → List AuditEvent → List Str → List AuditEvent
  | _, results, [] => results
  | skipped, results, key :: keys =>
    if ¬p.isPrefixOf key then results
    else if skipped < offset then auditLoop events p idOf limit offset (skipped + 1) results keys
    else if limit ≤ results.length then results
    else
      match (events.get (idOf key)).bind j.fromJson with
      | none => auditLoop events p idOf limit offset skipped results keys
      | some event => auditLoop events p idOf limit offset skipped (results ++ [event]) keys

/-- List audit events for a resource with pagination. -/
def listAuditByResource (t : AuditTables) (resourceId : Str) (limit offset : Nat) :
    List AuditEvent :=
  let p := resourceId ++ ['|']
  j.auditLoop t.events p (rsplitNext '|') limit offset 0 []
    ((t.byResource.rangeFrom p).map Prod.fst)

/-- List audit events for a date with pagination. -/
def listAuditByDate (t : AuditTables) (date : Str) (limit offset : Nat) : List AuditEvent :=
  let p := date ++ ['|']
  j.auditLoop t.events p (fun key => key.drop p.length) limit offset 0 []
    ((t.byDate.rangeFrom p).map Prod.fst)

/-- The tables after logging some events. -/
def logAll (es : List AuditEvent) : AuditTables :=
  exec j.logAuditEvent AuditTables.empty es

/-- What is read of an event that was logged. -/
def readBack (e : AuditEvent) : Option AuditEvent :=
  j.fromJson (j.toJson e)

/-- What is read of the event has its id. -/
def KeepsId (e : AuditEvent) : Prop :=
  ∀ x, j.readBack e = some x → x.eventId = e.eventId

/-- The loop is that of a page of the index, an entry leading to what is read under its id. -/
theorem auditLoop_eq_pageLoop {events : Table Str Str} {p : Str} {idOf : Str → Str}
    {limit offset : Nat} :
    ∀ {es : List (Str × Unit)} {skipped : Nat} {results : List AuditEvent},
      j.auditLoop events p idOf limit offset skipped results (es.map Prod.fst) =
        pageLoop p (fun e => (events.get (idOf e.1)).bind j.fromJson) limit offset skipped results
          es
  | [], _, _ => rfl
  | e :: es, skipped, results => by
    rw [List.map_cons, auditLoop, pageLoop, auditLoop_eq_pageLoop]
    cases (events.get (idOf e.1)).bind j.fromJson with
    | none => dsimp only; rw [auditLoop_eq_pageLoop]
    | some event => dsimp only; rw [auditLoop_eq_pageLoop]

end EventJson

/-! ## What is in the tables -/

/-- The events have distinct UUIDs. -/
structure DistinctUuids (es : List AuditEvent) : Prop where
  distinct : (es.map AuditEvent.eventId).Nodup
  isUuid : ∀ e ∈ es, isUuid e.eventId

/-- The events have distinct UUIDs and are dated from 1970 on. -/
structure AdmissibleEvents (es : List AuditEvent) : Prop extends DistinctUuids es where
  since1970 : ∀ e ∈ es, 0 ≤ e.timestamp.timestamp

/-- The tables hold the events, and the indexes a key for each. -/
structure Logged (j : EventJson) (t : AuditTables) (es : List AuditEvent) : Prop where
  ids : DistinctUuids es
  events : ∀ e ∈ es, t.events.get e.eventId = some (j.toJson e)
  byResource : ∀ k, (t.byResource.get k).isSome ↔ ∃ e ∈ es, e.resourceKey = some k
  byDate : ∀ k, (t.byDate.get k).isSome ↔ ∃ e ∈ es, e.dateKey = k

theorem DistinctUuids.eq_of_eventId_eq {es : List AuditEvent} (h : DistinctUuids es)
    {a b : AuditEvent} (ha : a ∈ es) (hb : b ∈ es) (hid : a.eventId = b.eventId) : a = b :=
  List.inj_on_of_nodup_map h.distinct ha hb hid

theorem DistinctUuids.nodup {es : List AuditEvent} (h : DistinctUuids es) : es.Nodup :=
  List.Nodup.of_map _ h.distinct

theorem Logged.empty (j : EventJson) : Logged j AuditTables.empty [] :=
  ⟨⟨List.nodup_nil, by simp⟩, by simp, by simp [AuditTables.empty], by simp [AuditTables.empty]⟩

theorem Logged.logAuditEvent {j : EventJson} {t : AuditTables} {es : List AuditEvent}
    (h : Logged j t es) {e : AuditEvent} (hids : DistinctUuids (es ++ [e])) :
    Logged j (j.logAuditEvent t e) (es ++ [e]) := by
  have hnew : ∀ e' ∈ es, e'.eventId ≠ e.eventId := by
    have hdistinct := hids.distinct
    rw [List.map_append, List.nodup_append] at hdistinct
    exact fun e' he' => hdistinct.2.2 _ (List.mem_map_of_mem he') _ (by simp)
  refine ⟨hids, ?_, fun k => ?_, fun k => ?_⟩
  · intro e' he'
    rw [EventJson.logAuditEvent, Table.get_insert]
    rcases List.mem_append.mp he' with he' | he'
    · rw [if_neg (hnew e' he'), h.events e' he']
    · rw [List.mem_singleton.mp he', if_pos rfl]
  · have hsplit : (∃ e' ∈ es ++ [e], e'.resourceKey = some k) ↔
        (∃ e' ∈ es, e'.resourceKey = some k) ∨ e.resourceKey = some k := by
      simp [or_and_right, exists_or]
    rw [hsplit, ← h.byResource, EventJson.logAuditEvent]
    cases e.resourceKey with
    | none => simp
    | some key =>
      rw [Table.isSome_get_insert_iff, or_comm, Option.some.injEq, @eq_comm _ key k]
  · have hsplit : (∃ e' ∈ es ++ [e], e'.dateKey = k) ↔
        (∃ e' ∈ es, e'.dateKey = k) ∨ e.dateKey = k := by
      simp [or_and_right, exists_or]
    rw [hsplit, ← h.byDate, EventJson.logAuditEvent, Table.isSome_get_insert_iff, or_comm,
      @eq_comm _ e.dateKey k]

theorem DistinctUuids.of_concat {es : List AuditEvent} {e : AuditEvent}
    (h : DistinctUuids (es ++ [e])) : DistinctUuids es := by
  refine ⟨?_, fun e' he' => h.isUuid e' (List.mem_append_left _ he')⟩
  have hdistinct := h.distinct
  rw [List.map_append, List.nodup_append] at hdistinct
  exact hdistinct.1

theorem logged_logAll {j : EventJson} {es : List AuditEvent} (h : DistinctUuids es) :
    Logged j (j.logAll es) es := by
  induction es using List.reverseRecOn with
  | nil => exact Logged.empty j
  | append_singleton es e ih =>
    rw [EventJson.logAll, exec_concat]
    exact (ih h.of_concat).logAuditEvent h

/-! ## Listings -/

/-- The index has a key for each event that has one, and `idOf` finds the event id in the keys
that extend `p`. -/
structure Indexes (index : Table Str Unit) (key : AuditEvent → Option Str) (idOf : Str → Str)
    (p : Str) (es : List AuditEvent) : Prop where
  keys : ∀ k, (index.get k).isSome ↔ ∃ e ∈ es, key e = some k
  idOf_eq : ∀ e ∈ es, ∀ k, key e = some k → List.IsPrefix p k → idOf k = e.eventId

/-- The events whose keys extend `p`, in the order of the keys. -/
def indexed (index : Table Str Unit) (key : AuditEvent → Option Str) (p : Str)
    (es : List AuditEvent) : List AuditEvent :=
  (index.scan p).filterMap fun entry => es.find? fun e => key e = some entry.1

section Listings

variable {j : EventJson} {t : AuditTables} {es : List AuditEvent} {index : Table Str Unit}
  {key : AuditEvent → Option Str} {idOf : Str → Str} {p : Str}

/-- Every entry a scan finds is the key of one event. -/
theorem Indexes.find_eq (hi : Indexes index key idOf p es) (hids : DistinctUuids es)
    {entry : Str × Unit} (hentry : entry ∈ index.scan p) :
    ∃ e ∈ es, key e = some entry.1 ∧ idOf entry.1 = e.eventId ∧
      (es.find? fun e => key e = some entry.1) = some e := by
  obtain ⟨hmem, hscan⟩ := index.mem_scan.mp hentry
  have hsome : (index.get entry.1).isSome := by
    rw [(Table.get_eq_some_iff _).mpr hmem]
    rfl
  obtain ⟨e, he, hk⟩ := (hi.keys entry.1).mp hsome
  have hid := hi.idOf_eq e he _ hk hscan
  refine ⟨e, he, hk, hid, ?_⟩
  cases hfind : es.find? fun e => key e = some entry.1 with
  | none => exact absurd hk (by simpa using List.find?_eq_none.mp hfind e he)
  | some e' =>
    have he' := List.mem_of_find?_eq_some hfind
    have hk' : key e' = some entry.1 := by simpa using List.find?_some hfind
    rw [hids.eq_of_eventId_eq he' he ((hi.idOf_eq e' he' _ hk' hscan).symm.trans hid)]

theorem Indexes.mem_indexed_iff (hi : Indexes index key idOf p es) (hids : DistinctUuids es)
    {e : AuditEvent} :
    e ∈ indexed index key p es ↔ e ∈ es ∧ ∃ k, key e = some k ∧ List.IsPrefix p k := by
  unfold indexed
  rw [List.mem_filterMap]
  constructor
  · rintro ⟨entry, hentry, hfind⟩
    obtain ⟨e', he', hk, -, hfind'⟩ := hi.find_eq hids hentry
    obtain rfl : e' = e := Option.some.inj (hfind'.symm.trans hfind)
    exact ⟨he', entry.1, hk, ((index.mem_scan).mp hentry).2⟩
  · rintro ⟨he, k, hk, hscan⟩
    obtain ⟨⟨⟩, hget⟩ := Option.isSome_iff_exists.mp ((hi.keys k).mpr ⟨e, he, hk⟩)
    have hentry : (k, ()) ∈ index.scan p :=
      index.mem_scan.mpr ⟨(Table.get_eq_some_iff _).mp hget, hscan⟩
    obtain ⟨e', he', -, hid, hfind⟩ := hi.find_eq hids hentry
    rw [hids.eq_of_eventId_eq he' he (hid.symm.trans (hi.idOf_eq e he k hk hscan))] at hfind
    exact ⟨(k, ()), hentry, hfind⟩

/-- The scan meets the events of the listing, one after the other. -/
theorem Indexes.map_find_scan (hi : Indexes index key idOf p es) (hids : DistinctUuids es) :
    ((index.scan p).map fun entry => es.find? fun e => key e = some entry.1) =
      (indexed index key p es).map some := by
  unfold indexed
  rw [List.map_filterMap_some_eq_filter_map_isSome, eq_comm, List.filter_eq_self]
  intro x hx
  obtain ⟨entry, hentry, rfl⟩ := List.mem_map.mp hx
  obtain ⟨e, -, -, -, hfind⟩ := hi.find_eq hids hentry
  rw [hfind]
  rfl

theorem Indexes.length_indexed (hi : Indexes index key idOf p es) (hids : DistinctUuids es) :
    (indexed index key p es).length = (index.scan p).length := by
  have hlength := congrArg List.length (hi.map_find_scan hids)
  simpa using hlength.symm

/-- What holds between any two keys of the index holds between the events of the listing. -/
theorem Indexes.pairwise_indexed (hi : Indexes index key idOf p es) (hids : DistinctUuids es)
    {R : AuditEvent → AuditEvent → Prop}
    (hR : ∀ a ∈ es, ∀ b ∈ es, ∀ k k', key a = some k → key b = some k' →
      List.IsPrefix p k → List.IsPrefix p k' → k < k' → R a b) :
    (indexed index key p es).Pairwise R := by
  refine List.pairwise_filterMap.mpr ((index.pairwise_scan p).imp_of_mem fun hx hy hlt => ?_)
  intro a ha b hb
  obtain ⟨a', ha', hka, -, hfinda⟩ := hi.find_eq hids hx
  obtain ⟨b', hb', hkb, -, hfindb⟩ := hi.find_eq hids hy
  obtain rfl : a' = a := Option.some.inj (hfinda.symm.trans ha)
  obtain rfl : b' = b := Option.some.inj (hfindb.symm.trans hb)
  exact hR _ ha' _ hb' _ _ hka hkb ((index.mem_scan).mp hx).2 ((index.mem_scan).mp hy).2 hlt

theorem Indexes.nodup_indexed (hi : Indexes index key idOf p es) (hids : DistinctUuids es) :
    (indexed index key p es).Nodup := by
  refine hi.pairwise_indexed hids fun a _ b _ k k' hk hk' _ _ hlt heq => ?_
  rw [heq, hk'] at hk
  exact absurd (Option.some.inj hk) (ne_of_gt hlt)

/-- What the loop reads at the entries of a scan is what is read of the events. -/
theorem Logged.map_read_scan (h : Logged j t es) (hi : Indexes index key idOf p es) :
    ((index.scan p).map fun entry => (t.events.get (idOf entry.1)).bind j.fromJson) =
      (indexed index key p es).map j.readBack := by
  have hmap := congrArg (List.map fun o => Option.bind o j.readBack) (hi.map_find_scan h.ids)
  rw [List.map_map, List.map_map] at hmap
  refine Eq.trans (List.map_congr_left fun entry hentry => ?_) hmap
  obtain ⟨e, he, -, hid, hfind⟩ := hi.find_eq h.ids hentry
  simp only [Function.comp_apply, hfind, hid, h.events e he, Option.bind_some]
  rfl

/-- A page skips events and shows those after them that can be read. -/
theorem Logged.auditLoop_eq (h : Logged j t es) (hi : Indexes index key idOf p es)
    (limit offset : Nat) :
    j.auditLoop t.events p idOf limit offset 0 [] ((index.rangeFrom p).map Prod.fst) =
      (((indexed index key p es).drop offset).filterMap j.readBack).take limit := by
  rw [j.auditLoop_eq_pageLoop, pageLoop_rangeFrom]
  have hdrop := congrArg (fun l => (l.drop offset).filterMap id) (h.map_read_scan hi)
  simp only [← List.map_drop, List.filterMap_map, Function.id_comp] at hdrop
  rw [hdrop]

/-- Enough pages show what can be read of the events of the index. -/
theorem Logged.mem_pages_iff (h : Logged j t es) (hi : Indexes index key idOf p es) {limit : Nat}
    (hlimit : 0 < limit) : ∃ N, ∀ n ≥ N, ∀ x,
      x ∈ pages (fun limit offset => j.auditLoop t.events p idOf limit offset 0 []
        ((index.rangeFrom p).map Prod.fst)) limit n ↔
        ∃ e ∈ es, (∃ k, key e = some k ∧ List.IsPrefix p k) ∧ j.readBack e = some x := by
  refine ⟨(index.scan p).length, fun n hn x => ?_⟩
  simp only [j.auditLoop_eq_pageLoop]
  rw [mem_pages_pageLoop_iff hlimit hn]
  have hmem : (∃ entry ∈ index.scan p,
      (t.events.get (idOf entry.1)).bind j.fromJson = some x) ↔
        some x ∈ (indexed index key p es).map j.readBack := by
    rw [← h.map_read_scan hi, List.mem_map]
  rw [hmem, List.mem_map]
  simp only [hi.mem_indexed_iff h.ids, and_assoc]

end Listings

/-! ## Resources -/

/-- Paging through the listing of `r` gives the events logged for `r`, each once, by
non-increasing seconds, and the count is their number. -/
structure ListingExact (j : EventJson) (t : AuditTables) (es : List AuditEvent) (r : Str)
    (limit : Nat) : Prop where
  pages : ∃ N, ∀ n ≥ N,
    (pages (j.listAuditByResource t r) limit n).Perm (es.filter fun e => e.resourceId = some r) ∧
      (pages (j.listAuditByResource t r) limit n).Pairwise fun a b =>
        b.timestamp.timestamp ≤ a.timestamp.timestamp
  count : countAuditByResource t r = (es.filter fun e => e.resourceId = some r).length

/-- An event of another resource whose key looks like one of `r`. -/
def Lookalike (r : Str) (e : AuditEvent) : Prop :=
  ∃ r', e.resourceId = some r' ∧ r' ≠ r ∧
    (List.IsPrefix (r ++ ['|']) r' ∨
      r = r' ++ '|' :: hexPad 16 (invertedTs e.timestamp.timestamp))

instance (r : Str) (e : AuditEvent) : Decidable (Lookalike r e) :=
  decidable_of_iff (∃ r' ∈ e.resourceId, r' ≠ r ∧ (List.IsPrefix (r ++ ['|']) r' ∨
    r = r' ++ '|' :: hexPad 16 (invertedTs e.timestamp.timestamp))) Iff.rfl

theorem Lookalike.resourceId_ne {r : Str} {e : AuditEvent} (h : Lookalike r e) :
    e.resourceId ≠ some r := by
  obtain ⟨r', hr', hne, -⟩ := h
  rw [hr']
  exact fun heq => hne (Option.some.inj heq)

theorem not_mem_bar_hexPad (n v : Nat) : '|' ∉ hexPad n v :=
  fun h => absurd (mem_hexPad h) (by decide)

/-- Which keys a scan for `r` finds. -/
theorem isPrefix_makePoolTsKey_iff {r r' id : Str} {ts : Int} (hid : '|' ∉ id) :
    List.IsPrefix (r ++ ['|']) (makePoolTsKey r' ts id) ↔
      r = r' ∨ List.IsPrefix (r ++ ['|']) r' ∨ r = r' ++ '|' :: hexPad 16 (invertedTs ts) := by
  have hkey : makePoolTsKey r' ts id = r' ++ '|' :: (hexPad 16 (invertedTs ts) ++ '|' :: id) := by
    simp [makePoolTsKey]
  have hrest : ∀ x, List.IsPrefix (x ++ ['|']) (hexPad 16 (invertedTs ts) ++ '|' :: id) ↔
      x = hexPad 16 (invertedTs ts) := by
    intro x
    rw [isPrefix_append_cons_iff]
    constructor
    · rintro (h | h | ⟨x', -, h⟩)
      · exact h
      · exact absurd h (not_isPrefix_concat (not_mem_bar_hexPad _ _))
      · exact absurd h (not_isPrefix_concat hid)
    · exact Or.inl
  rw [hkey, isPrefix_append_cons_iff]
  simp only [hrest, exists_eq_right]

/-- The events whose keys a scan for `r` finds, in the order of the keys. -/
def listed (t : AuditTables) (es : List AuditEvent) (r : Str) : List AuditEvent :=
  indexed t.byResource AuditEvent.resourceKey (r ++ ['|']) es

section Resources

variable {j : EventJson} {t : AuditTables} {es : List AuditEvent} {r : Str}

/-- The id of an event is the last segment of its key. -/
theorem AuditEvent.rsplitNext_resourceKey {e : AuditEvent} {k : Str} (hid : isUuid e.eventId)
    (hk : e.resourceKey = some k) : rsplitNext '|' k = e.eventId := by
  obtain ⟨r, -, rfl⟩ := Option.map_eq_some_iff.mp hk
  exact rsplitNext_append_cons (not_mem_bar_of_isUuid hid) _

theorem Logged.indexes_byResource (h : Logged j t es) (r : Str) :
    Indexes t.byResource AuditEvent.resourceKey (rsplitNext '|') (r ++ ['|']) es :=
  ⟨h.byResource, fun e he _ hk _ => e.rsplitNext_resourceKey (h.ids.isUuid e he) hk⟩

/-- A scan for `r` finds the keys of `r` and of the lookalikes. -/
theorem AuditEvent.isPrefix_resourceKey_iff {e : AuditEvent} {k : Str} (hid : isUuid e.eventId)
    (hk : e.resourceKey = some k) :
    List.IsPrefix (r ++ ['|']) k ↔ e.resourceId = some r ∨ Lookalike r e := by
  obtain ⟨r', hr', rfl⟩ := Option.map_eq_some_iff.mp hk
  rw [isPrefix_makePoolTsKey_iff (not_mem_bar_of_isUuid hid)]
  by_cases hr : r = r'
  · simp [hr, hr']
  · have hne : r' ≠ r := fun h => hr h.symm
    simp [Lookalike, hr', hr, hne]

theorem AuditEvent.exists_key_iff {e : AuditEvent} (hid : isUuid e.eventId) :
    (∃ k, e.resourceKey = some k ∧ List.IsPrefix (r ++ ['|']) k) ↔
      e.resourceId = some r ∨ Lookalike r e := by
  constructor
  · rintro ⟨k, hk, hscan⟩
    exact (e.isPrefix_resourceKey_iff hid hk).mp hscan
  · intro hr
    obtain ⟨k, hk⟩ : ∃ k, e.resourceKey = some k := by
      rcases hr with hr | ⟨r', hr, -⟩ <;> exact ⟨_, by rw [AuditEvent.resourceKey, hr]; rfl⟩
    exact ⟨k, hk, (e.isPrefix_resourceKey_iff hid hk).mpr hr⟩

theorem Logged.mem_listed_iff (h : Logged j t es) {e : AuditEvent} :
    e ∈ listed t es r ↔ e ∈ es ∧ (e.resourceId = some r ∨ Lookalike r e) := by
  rw [listed, (h.indexes_byResource r).mem_indexed_iff h.ids]
  exact and_congr_right fun he => AuditEvent.exists_key_iff (h.ids.isUuid e he)

theorem Logged.nodup_listed (h : Logged j t es) (r : Str) : (listed t es r).Nodup :=
  (h.indexes_byResource r).nodup_indexed h.ids

theorem Logged.countAuditByResource_eq (h : Logged j t es) (r : Str) :
    countAuditByResource t r = (listed t es r).length :=
  ((h.indexes_byResource r).length_indexed h.ids).symm

/-- A page of the listing. -/
theorem Logged.listAuditByResource_eq (h : Logged j t es) (r : Str) (limit offset : Nat) :
    j.listAuditByResource t r limit offset =
      (((listed t es r).drop offset).filterMap j.readBack).take limit :=
  h.auditLoop_eq (h.indexes_byResource r) limit offset

/-- If every event can be read, the pages show the events of the index. -/
theorem Logged.pages_eq (h : Logged j t es) (hjson : ∀ e ∈ es, j.readBack e = some e)
    {limit n : Nat} (hlimit : 0 < limit) (hn : (listed t es r).length ≤ n) :
    pages (j.listAuditByResource t r) limit n = listed t es r := by
  have hread : ∀ offset, ((listed t es r).drop offset).filterMap j.readBack =
      (listed t es r).drop offset := by
    intro offset
    refine (List.filterMap_congr fun e he => ?_).trans List.filterMap_some
    exact hjson e (h.mem_listed_iff.mp (List.mem_of_mem_drop he)).1
  unfold pages
  simp only [h.listAuditByResource_eq, hread]
  exact flatMap_pages_eq hlimit hn

/-- Of two events of one resource, the one with the smaller key is not older. -/
theorem timestamp_le_of_key_lt {a b : AuditEvent} {k k' : Str} (ha : a.resourceId = some r)
    (hb : b.resourceId = some r) (hka : a.resourceKey = some k) (hkb : b.resourceKey = some k')
    (ha0 : 0 ≤ a.timestamp.timestamp) (hb0 : 0 ≤ b.timestamp.timestamp) (hlt : k < k') :
    b.timestamp.timestamp ≤ a.timestamp.timestamp := by
  have hka' : makePoolTsKey r a.timestamp.timestamp a.eventId = k := by
    simpa [AuditEvent.resourceKey, ha] using hka
  have hkb' : makePoolTsKey r b.timestamp.timestamp b.eventId = k' := by
    simpa [AuditEvent.resourceKey, hb] using hkb
  have hamax := a.timestamp.le_max
  have hbmax := b.timestamp.le_max
  rw [← hka', ← hkb'] at hlt
  exact timestamp_le_of_makePoolTsKey_lt ha0 (by omega) hb0 (by omega) hlt

/-- Everything the listing of `r` shows is shown from some page on. -/
theorem Logged.mem_pages_resource_iff (h : Logged j t es) (r : Str) {limit : Nat}
    (hlimit : 0 < limit) : ∃ N, ∀ n ≥ N, ∀ x,
      x ∈ pages (j.listAuditByResource t r) limit n ↔
        ∃ e ∈ es, (e.resourceId = some r ∨ Lookalike r e) ∧ j.readBack e = some x := by
  obtain ⟨N, hpages⟩ := h.mem_pages_iff (h.indexes_byResource r) hlimit
  refine ⟨N, fun n hn x => (hpages n hn x).trans ?_⟩
  refine exists_congr fun e => and_congr_right fun he => and_congr_left' ?_
  exact AuditEvent.exists_key_iff (h.ids.isUuid e he)

/-! ## Days -/

/-- A scan for a day finds the keys of that day. -/
theorem AuditEvent.isPrefix_dateKey_iff {e : AuditEvent} {date : Str} (hid : isUuid e.eventId) :
    List.IsPrefix (date ++ ['|']) e.dateKey ↔ formatDate e.timestamp = date := by
  unfold AuditEvent.dateKey
  rw [isPrefix_append_cons_iff]
  constructor
  · rintro (h | h | ⟨x, -, h⟩)
    · exact h.symm
    · exact absurd h (not_isPrefix_concat (not_mem_bar_formatDate _))
    · exact absurd h (not_isPrefix_concat (not_mem_bar_of_isUuid hid))
  · exact fun h => Or.inl h.symm

theorem AuditEvent.drop_dateKey {e : AuditEvent} {date : Str} (h : formatDate e.timestamp = date) :
    e.dateKey.drop (date ++ ['|']).length = e.eventId := by
  have hkey : e.dateKey = (date ++ ['|']) ++ e.eventId := by simp [AuditEvent.dateKey, h]
  rw [hkey, List.drop_left]

theorem Logged.indexes_byDate (h : Logged j t es) (date : Str) :
    Indexes t.byDate (fun e => some e.dateKey)
      (fun key => key.drop (date ++ ['|']).length) (date ++ ['|']) es := by
  refine ⟨fun k => by simpa using h.byDate k, fun e he k hk hscan => ?_⟩
  obtain rfl := Option.some.inj hk
  exact e.drop_dateKey ((e.isPrefix_dateKey_iff (h.ids.isUuid e he)).mp hscan)

/-- Paging through the listing of a day shows its events, as far as they can be read. -/
theorem Logged.mem_pages_date_iff (h : Logged j t es) (date : Str) {limit : Nat}
    (hlimit : 0 < limit) : ∃ N, ∀ n ≥ N, ∀ x,
      x ∈ pages (j.listAuditByDate t date) limit n ↔
        ∃ e ∈ es, formatDate e.timestamp = date ∧ j.readBack e = some x := by
  obtain ⟨N, hpages⟩ := h.mem_pages_iff (h.indexes_byDate date) hlimit
  refine ⟨N, fun n hn x => (hpages n hn x).trans ?_⟩
  refine exists_congr fun e => and_congr_right fun he => and_congr_left' ?_
  simp [e.isPrefix_dateKey_iff (h.ids.isUuid e he)]

end Resources

/-- The listing of a resource is exact if and only if no event was logged for a lookalike. -/
theorem listingExact_iff (j : EventJson) (es : List AuditEvent)
    (hjson : ∀ e ∈ es, j.fromJson (j.toJson e) = some e) (hes : AdmissibleEvents es) (r : Str)
    (limit : Nat) (hlimit : 0 < limit) :
    ListingExact j (j.logAll es) es r limit ↔ ∀ e ∈ es, ¬Lookalike r e := by
  have h := logged_logAll (j := j) hes.toDistinctUuids
  have hpages := fun n => h.pages_eq (r := r) (n := n) hjson hlimit
  constructor
  · intro hexact e he hlook
    obtain ⟨N, hperm⟩ := hexact.pages
    have hperm := (hperm (max N (listed (j.logAll es) es r).length) (le_max_left _ _)).1
    rw [hpages _ (le_max_right _ _)] at hperm
    have hmem := hperm.mem_iff.mp (h.mem_listed_iff.mpr ⟨he, Or.inr hlook⟩)
    exact hlook.resourceId_ne (by simpa using (List.mem_filter.mp hmem).2)
  · intro hno
    have hperm : (listed (j.logAll es) es r).Perm (es.filter fun e => e.resourceId = some r) := by
      refine (List.perm_ext_iff_of_nodup (h.nodup_listed r) (hes.nodup.filter _)).mpr fun e => ?_
      rw [List.mem_filter, decide_eq_true_iff, h.mem_listed_iff]
      refine and_congr_right fun he => ?_
      rw [or_iff_left (hno e he)]
    have hsorted : (listed (j.logAll es) es r).Pairwise fun a b =>
        b.timestamp.timestamp ≤ a.timestamp.timestamp := by
      refine (h.indexes_byResource r).pairwise_indexed h.ids
        fun a ha b hb k k' hk hk' hscan hscan' hlt => ?_
      have hra := (a.isPrefix_resourceKey_iff (hes.isUuid a ha) hk).mp hscan
      have hrb := (b.isPrefix_resourceKey_iff (hes.isUuid b hb) hk').mp hscan'
      exact timestamp_le_of_key_lt (hra.resolve_right (hno a ha)) (hrb.resolve_right (hno b hb))
        hk hk' (hes.since1970 a ha) (hes.since1970 b hb) hlt
    refine ⟨⟨(listed (j.logAll es) es r).length, fun n hn => ?_⟩,
      (h.countAuditByResource_eq r).trans hperm.length_eq⟩
    rw [hpages n hn]
    exact ⟨hperm, hsorted⟩

/-! ## JSON text -/

/-- A field that is left out if it is missing. -/
def optionalField (name : String) (value : Option Json) : List (Str × Json) :=
  (value.map fun v => (name.toList, v)).toList

/-- The JSON document of an event with the given details. -/
def AuditEvent.document (rfc3339 : DateTime → Str) (e : AuditEvent) (details : Option Json) :
    Json :=
  .object ([("event_id".toList, .string e.eventId),
    ("timestamp".toList, .string (rfc3339 e.timestamp)),
    ("event_type".toList, .string e.eventType.name.toList)] ++
    optionalField "user_id" (e.userId.map .string) ++
    optionalField "resource_type" (e.resourceType.map .string) ++
    optionalField "resource_id" (e.resourceId.map .string) ++
    optionalField "details" details ++
    [("success".toList, .bool e.success)] ++
    optionalField "hmac" (e.hmac.map .string) ++
    optionalField "correlation_id" (e.correlationId.map .string) ++
    optionalField "pool_pda" (e.poolPda.map .string))

/-- The text chrono gives a time in JSON. -/
def DateTime.serialized (t : DateTime) : Str :=
  formatDate t ++ 'T' :: (CivilTime.timeText (t.timestamp % 86400).toNat ++
    CivilTime.fractionText t.nanos ++ ['Z'])

example : sampleDate.serialized = "2026-02-24T00:00:00Z".toList := by decide +kernel

/-- The JSON text of an event without details. -/
def AuditEvent.plainText (e : AuditEvent) : Str :=
  JsonText.write (e.document DateTime.serialized none)

/-- serde_json on events without details. Of the texts it reads those of the given events. -/
def EventJson.reading (es : List AuditEvent) : EventJson where
  toJson := AuditEvent.plainText
  fromJson text := es.find? fun e => e.plainText = text

/-- A UUID is written as it is. -/
theorem escape_of_isUuid {s : Str} (h : isUuid s) : JsonText.escape s = s ∧ '"' ∉ s := by
  have hverbatim : ∀ c ∈ "0123456789abcdef-".toList, JsonText.Verbatim c := by
    simp [JsonText.Verbatim, JsonText.escapeChar, JsonText.shortEscape]
  refine ⟨JsonText.escape_of_verbatim fun c hc => hverbatim c (mem_of_isUuid h hc), fun hc => ?_⟩
  exact absurd (mem_of_isUuid h hc) (by decide)

/-- The text of an event starts with its id. -/
theorem exists_plainText_eq {e : AuditEvent} (h : isUuid e.eventId) : ∃ rest,
    e.plainText = '\x7b' :: (JsonText.writeString "event_id".toList ++ [':', '"']) ++
      (e.eventId ++ '"' :: rest) := by
  obtain ⟨fields, hfields⟩ : ∃ fields, e.document DateTime.serialized none =
      .object (("event_id".toList, .string e.eventId) :: fields) := ⟨_, rfl⟩
  refine ⟨JsonText.writeFields [','] fields ++ ['\x7d'], ?_⟩
  rw [AuditEvent.plainText, hfields, JsonText.write, JsonText.writeFields, JsonText.write,
    JsonText.writeString.eq_def e.eventId, (escape_of_isUuid h).1]
  simp

/-- The text of an event tells its id. -/
theorem eventId_eq_of_plainText_eq {e e' : AuditEvent} (he : isUuid e.eventId)
    (he' : isUuid e'.eventId) (h : e.plainText = e'.plainText) : e.eventId = e'.eventId := by
  obtain ⟨rest, hrest⟩ := exists_plainText_eq he
  obtain ⟨rest', hrest'⟩ := exists_plainText_eq he'
  rw [hrest, hrest'] at h
  exact (append_cons_inj_left (escape_of_isUuid he).2 (escape_of_isUuid he').2
    (List.append_cancel_left h)).1

theorem EventJson.reading_readBack {es : List AuditEvent} (h : DistinctUuids es) {e : AuditEvent}
    (he : e ∈ es) : (EventJson.reading es).fromJson ((EventJson.reading es).toJson e) = some e := by
  change es.find? (fun e' => e'.plainText = e.plainText) = some e
  cases hfind : es.find? fun e' => e'.plainText = e.plainText with
  | none => exact absurd (decide_eq_true rfl) (List.find?_eq_none.mp hfind e he)
  | some e' =>
    have he' := List.mem_of_find?_eq_some hfind
    have htext : e'.plainText = e.plainText := by simpa using List.find?_some hfind
    have hid := eventId_eq_of_plainText_eq (h.isUuid e' he') (h.isUuid e he) htext
    rw [h.eq_of_eventId_eq he' he hid]

/-! ## Two queries -/

/-- A pool address. -/
def samplePda : Str :=
  "9xQeWvG816bUx9EPjHmaT23yvVM2ZWbrrpZb9PusVFin".toList

/-- An event of a pool, as `data_query` logs it for the address in its request. -/
def sampleExecution (eventId : String) (timestamp : Nat) (h : timestamp ≤ 8210266876799)
    (poolPda : Str) : AuditEvent where
  eventId := eventId.toList
  timestamp := ⟨timestamp, 0, by omega, by omega⟩
  eventType := .drtExecuted
  userId := some "analyst".toList
  resourceType := some "drt_pool".toList
  resourceId := some poolPda
  details := none
  success := false
  hmac := none
  correlationId := none
  poolPda := some poolPda

/-- A query of the pool, and one for the address with a suffix. -/
def sampleExecutions (suffix : String) : List AuditEvent :=
  [sampleExecution "11111111-2222-4333-8444-555555555555" 1771891200 (by simp) samplePda,
    sampleExecution "66666666-7777-4888-9999-aaaaaaaaaaaa" 1771891260 (by simp)
      (samplePda ++ suffix.toList)]

/-- serde_json on these two. -/
def sampleEventJson (suffix : String) : EventJson :=
  .reading (sampleExecutions suffix)

theorem admissible_sampleExecutions (suffix : String) :
    AdmissibleEvents (sampleExecutions suffix) := by
  refine ⟨⟨by simp [sampleExecutions, sampleExecution], fun e he => ?_⟩, fun e he => ?_⟩ <;>
    rcases List.mem_pair.mp he with rfl | rfl
  · change isUuid "11111111-2222-4333-8444-555555555555".toList = true
    decide +kernel
  · change isUuid "66666666-7777-4888-9999-aaaaaaaaaaaa".toList = true
    decide +kernel
  · simp [sampleExecution]
  · simp [sampleExecution]

theorem sampleEventJson_reads (suffix : String) : ∀ e ∈ sampleExecutions suffix,
    (sampleEventJson suffix).fromJson ((sampleEventJson suffix).toJson e) = some e :=
  fun _ => EventJson.reading_readBack (admissible_sampleExecutions suffix).toDistinctUuids

/-- A query for the address followed by `|x` is listed and counted as one of the pool. -/
theorem not_listingExact_suffix :
    (∀ e ∈ sampleExecutions "|x",
        (sampleEventJson "|x").fromJson ((sampleEventJson "|x").toJson e) = some e) ∧
      AdmissibleEvents (sampleExecutions "|x") ∧
      ((sampleEventJson "|x").listAuditByResource
          ((sampleEventJson "|x").logAll (sampleExecutions "|x")) samplePda 50 0).map
        (fun e => e.resourceId) = [some samplePda, some (samplePda ++ "|x".toList)] ∧
      ¬ListingExact (sampleEventJson "|x") ((sampleEventJson "|x").logAll (sampleExecutions "|x"))
        (sampleExecutions "|x") samplePda 50 := by
  have hes := admissible_sampleExecutions "|x"
  refine ⟨sampleEventJson_reads _, hes, ?_, fun h => absurd h.count (by decide +kernel)⟩
  rw [(logged_logAll hes.toDistinctUuids).listAuditByResource_eq]
  have hread : ((listed ((sampleEventJson "|x").logAll (sampleExecutions "|x"))
      (sampleExecutions "|x") samplePda).drop 0).filterMap (sampleEventJson "|x").readBack =
        listed ((sampleEventJson "|x").logAll (sampleExecutions "|x")) (sampleExecutions "|x")
          samplePda := by
    refine (List.filterMap_congr fun e he => ?_).trans List.filterMap_some
    exact sampleEventJson_reads _ e ((logged_logAll hes.toDistinctUuids).mem_listed_iff.mp he).1
  rw [hread]
  decide +kernel

/-- A query for another address is not. -/
theorem listingExact_otherPool :
    (∀ e ∈ sampleExecutions "2",
        (sampleEventJson "2").fromJson ((sampleEventJson "2").toJson e) = some e) ∧
      AdmissibleEvents (sampleExecutions "2") ∧
      ListingExact (sampleEventJson "2") ((sampleEventJson "2").logAll (sampleExecutions "2"))
        (sampleExecutions "2") samplePda 1 := by
  refine ⟨sampleEventJson_reads _, admissible_sampleExecutions _, ?_⟩
  refine (listingExact_iff _ _ (sampleEventJson_reads _) (admissible_sampleExecutions _) _ _
    (by decide)).mpr ?_
  decide +kernel

end RelationalSdk
