import RelationalSdk.AuditLog
import RelationalSdk.Keys
import RelationalSdk.PoolHandlers

/-!
# The audit trail

Eighteen places log an audit event. Each chooses the resource the event is about, whether it
names the pool, and whether the database is attached to the repository that writes it. The
endpoints that show the trail read the database only.

`trailComplete_iff` : after any requests, every event that was appended to the file of a day is
listed for that day, and every event that names a pool is listed for the pool, if and only if
none of the requests is a role change, every uploaded schema has the address of its pool as its
id, and the JSON of every event reads back. `log_role_change` does not attach the database,
`upload_schema` logs its event under the schema id, where a listing of the pool does not look, and
a listing passes over what it cannot parse.
-/

namespace RelationalSdk

open Text KeyedTable Runs

/-! ## Events -/

/-- The values `AuditEvent::new` draws : a fresh UUID and the time. -/
structure AuditDraw where
  eventId : Str
  isUuid : isUuid eventId
  now : DateTime

namespace AuditEvent

/-- Start building an event with the given type. -/
def new (draw : AuditDraw) (eventType : AuditEventType) : AuditEvent where
  eventId := draw.eventId
  timestamp := draw.now
  eventType := eventType
  userId := none
  resourceType := none
  resourceId := none
  details := none
  success := true
  hmac := none
  correlationId := none
  poolPda := none

/-- Attach user identity. -/
def withUser (e : AuditEvent) (userId : Str) : AuditEvent :=
  { e with userId := some userId }

/-- Attach resource type and id. -/
def withResource (e : AuditEvent) (resourceType : String) (resourceId : Str) : AuditEvent :=
  { e with resourceType := some resourceType.toList, resourceId := some resourceId }

/-- Attach structured details. -/
def withDetails (e : AuditEvent) (details : Str) : AuditEvent :=
  { e with details := some details }

/-- Attach a pool PDA for pool-scoped events. -/
def withPoolPda (e : AuditEvent) (pda : Str) : AuditEvent :=
  { e with poolPda := some pda }

end AuditEvent

/-- The event of `audit_log!`. -/
def auditLogEvent (draw : AuditDraw) (eventType : AuditEventType) (userId : Str)
    (resourceType : String) (resourceId : Str) : AuditEvent :=
  ((AuditEvent.new draw eventType).withUser userId).withResource resourceType resourceId

/-! ## Requests -/

/-- The text of a pool address that was parsed or derived. -/
structure PoolAddress where
  text : Str
  base58 : IsBase58 text

/-- A schema id that `upload_schema` accepts. -/
structure SchemaId where
  text : Str
  valid : ¬(text = [] ∨ 128 < len text ∨ ¬text.all fun c => c.isAlphanum || c = '-' || c = '_')

/-- The requests that log an event, as they stand when they reach the place where they do.
`details` is the JSON text of the details. A request that is turned down before that place
logs nothing. -/
inductive AuditedRequest where
  | rejected
  | createWallet (sub walletId : Str)
  | deleteWallet (sub walletId : Str)
  | sendTransaction (sub walletId : Str)
  | getWalletStats (sub : Str)
  | listAllWallets (sub : Str)
  | suspendWallet (sub walletId : Str)
  | activateWallet (sub walletId : Str)
  | logRoleChange (sub targetUserId details : Str)
  | createMaltaPool (sub : Str) (pool : PoolAddress) (details : Str)
  | createIobErpPool (sub : Str) (pool : PoolAddress) (details : Str)
  | grantRight (sub : Str) (pool : PoolAddress) (details : Str)
  | revokeGrant (sub : Str) (pool : PoolAddress) (details : Str)
  | uploadSchema (sub : Str) (pool : PoolAddress) (schemaId : SchemaId) (details : Str)
  | initializePool (sub : Str) (pool : PoolAddress) (details : Str)
  | issueCredentialsFailed (sub : Str) (pool : PoolAddress) (details : Str)
  | issueCredentials (sub : Str) (pool : PoolAddress) (details : Str)
  | revokeCredentials (sub : Str) (pool : PoolAddress) (details : Str)
  | dataQuery (sub poolPda details : Str) (success : Bool)

/-- An event about a pool. -/
def poolEvent (draw : AuditDraw) (eventType : AuditEventType) (sub : Str) (pool : PoolAddress)
    (details : Str) : AuditEvent :=
  (((AuditEvent.new draw eventType).withUser sub).withResource "drt_pool" pool.text).withDetails
    details

/-- What a request logs, and whether the database is attached. -/
def AuditedRequest.event (draw : AuditDraw) : AuditedRequest → Option (Bool × AuditEvent)
  | rejected => none
  | createWallet sub walletId =>
    some (true, auditLogEvent draw .walletCreated sub "wallet" walletId)
  | deleteWallet sub walletId =>
    some (true, auditLogEvent draw .walletDeleted sub "wallet" walletId)
  | sendTransaction sub walletId =>
    some (true, auditLogEvent draw .transactionBroadcast sub "wallet" walletId)
  | getWalletStats sub =>
    some (true, auditLogEvent draw .adminAccess sub "system" "wallet-stats".toList)
  | listAllWallets sub =>
    some (true, auditLogEvent draw .adminAccess sub "system" "list-all-wallets".toList)
  | suspendWallet sub walletId | activateWallet sub walletId =>
    some (true, auditLogEvent draw .adminAccess sub "wallet" walletId)
  | logRoleChange sub targetUserId details =>
    some (false, (auditLogEvent draw .roleAssigned sub "user" targetUserId).withDetails details)
  | createMaltaPool sub pool details | createIobErpPool sub pool details =>
    some (true, (poolEvent draw .poolCreated sub pool details).withPoolPda pool.text)
  | grantRight sub pool details =>
    some (true, (poolEvent draw .rightGranted sub pool details).withPoolPda pool.text)
  | revokeGrant sub pool details =>
    some (true, (poolEvent draw .rightRevoked sub pool details).withPoolPda pool.text)
  | uploadSchema sub pool schemaId details =>
    some (true, ((auditLogEvent draw .schemaUploaded sub "schema" schemaId.text).withPoolPda
      pool.text).withDetails details)
  | initializePool sub pool details =>
    some (true, poolEvent draw .datasetInitialized sub pool details)
  | issueCredentialsFailed sub pool details =>
    some (true, poolEvent draw .credentialIssuanceFailed sub pool details)
  | issueCredentials sub pool details =>
    some (true, poolEvent draw .credentialIssued sub pool details)
  | revokeCredentials sub pool details =>
    some (true, poolEvent draw .credentialRevoked sub pool details)
  | dataQuery sub poolPda details success =>
    some (true, { ((auditLogEvent draw .drtExecuted sub "drt_pool" poolPda).withPoolPda
      poolPda).withDetails details with success := success })

/-- A schema upload that succeeds has an id of this kind. -/
theorem valid_of_uploadSchema {w : PoolWorld} {schemaId : Str} {fields : List FieldSchema}
    {io : PoolWorld.SchemaIo} (h : (w.uploadSchema schemaId fields io).1.isOk) :
    ∃ id : SchemaId, id.text = schemaId := by
  unfold PoolWorld.uploadSchema at h
  split_ifs at h with hvalid
  · simp [Except.isOk, Except.toBool] at h
  · exact ⟨⟨schemaId, hvalid⟩, rfl⟩
  · exact ⟨⟨schemaId, hvalid⟩, rfl⟩

namespace AuditCodec

variable (c : AuditCodec)

/-- One request, with the values its event draws. Every write succeeds. -/
def handle (s : AuditStore) (op : AuditDraw × AuditedRequest) : AuditStore :=
  match op.2.event op.1 with
  | none => s
  | some (txDb, e) => c.log s txDb .ok e

/-- The stores after some requests. -/
def runRequests (ops : List (AuditDraw × AuditedRequest)) : AuditStore :=
  exec c.handle ⟨Table.empty, AuditTables.empty⟩ ops

end AuditCodec

/-- The events of the requests, in order, with the choice of the database. -/
def loggedBy (ops : List (AuditDraw × AuditedRequest)) : List (Bool × AuditEvent) :=
  ops.filterMap fun op => op.2.event op.1

/-- The event is on one of the pages of a listing, whatever their size. -/
def Shown (list : Nat → Nat → List AuditEvent) (e : AuditEvent) : Prop :=
  ∀ limit, 0 < limit → ∃ N, ∀ n ≥ N, e ∈ pages list limit n

/-- Every event whose line was appended to the file of a day is listed for the day, and for the
pool it names. -/
structure TrailComplete (c : AuditCodec) (ops : List (AuditDraw × AuditedRequest)) : Prop where
  byDate : ∀ date, ∀ e ∈ c.loggedOn ((loggedBy ops).map Prod.snd) date,
    Shown (c.listAuditByDate (c.runRequests ops).tables date) e
  byPool : ∀ date, ∀ e ∈ c.loggedOn ((loggedBy ops).map Prod.snd) date, ∀ pda,
    e.poolPda = some pda → Shown (c.listAuditByResource (c.runRequests ops).tables pda) e

/-- The request logs to the database, under the address of the pool if it names one. -/
def AuditedRequest.Traced : AuditedRequest → Prop
  | logRoleChange _ _ _ => False
  | uploadSchema _ pool schemaId _ => schemaId.text = pool.text
  | _ => True

/-! ## What a run has logged -/

section Run

variable {c : AuditCodec} {ws : List (Bool × AuditEvent)}

theorem loggedBy_concat (ops : List (AuditDraw × AuditedRequest))
    (op : AuditDraw × AuditedRequest) :
    loggedBy (ops ++ [op]) = loggedBy ops ++ (op.2.event op.1).toList := by
  rw [loggedBy, List.filterMap_append, ← loggedBy]
  cases hevent : op.2.event op.1 <;> simp [hevent]

/-- The stores after some events. -/
def AuditCodec.logEvents (c : AuditCodec) (ws : List (Bool × AuditEvent)) : AuditStore :=
  exec (fun s w => c.log s w.1 .ok w.2) ⟨Table.empty, AuditTables.empty⟩ ws

/-- A run of requests is the run of their events. -/
theorem runRequests_eq (ops : List (AuditDraw × AuditedRequest)) :
    c.runRequests ops = c.logEvents (loggedBy ops) := by
  induction ops using List.reverseRecOn with
  | nil => rfl
  | append_singleton ops op ih =>
    rw [AuditCodec.runRequests, exec_concat, ← AuditCodec.runRequests, ih, loggedBy_concat,
      AuditCodec.handle]
    cases op.2.event op.1 with
    | none => simp
    | some w => simp [AuditCodec.logEvents]

theorem files_logEvents : (c.logEvents ws).files = c.logFiles (ws.map Prod.snd) := by
  induction ws using List.reverseRecOn with
  | nil => rfl
  | append_singleton ws w ih =>
    rw [AuditCodec.logEvents, exec_concat, ← AuditCodec.logEvents, List.map_append,
      AuditCodec.logFiles, List.map_singleton, exec_concat, ← AuditCodec.logFiles, ← ih]
    rfl

/-- The events that went to the database. -/
def storedBy (c : AuditCodec) (ws : List (Bool × AuditEvent)) : List AuditEvent :=
  (ws.filter Prod.fst).map fun w => c.sign w.2

theorem mem_storedBy {e : AuditEvent} :
    e ∈ storedBy c ws ↔ ∃ w ∈ ws, w.1 = true ∧ c.sign w.2 = e := by
  simp [storedBy, and_assoc]

/-- The events that were logged have distinct UUIDs. -/
structure FreshIds (ws : List (Bool × AuditEvent)) : Prop where
  distinct : (ws.map fun w => w.2.eventId).Nodup
  isUuid : ∀ w ∈ ws, isUuid w.2.eventId

theorem FreshIds.eq_of_eventId_eq (h : FreshIds ws) {w w' : Bool × AuditEvent} (hw : w ∈ ws)
    (hw' : w' ∈ ws) (hid : w.2.eventId = w'.2.eventId) : w = w' :=
  List.inj_on_of_nodup_map h.distinct hw hw' hid

theorem FreshIds.storedBy (h : FreshIds ws) : DistinctUuids (storedBy c ws) := by
  refine ⟨?_, fun e he => ?_⟩
  · have hsub : ((RelationalSdk.storedBy c ws).map AuditEvent.eventId).Sublist
        (ws.map fun w => w.2.eventId) := by
      rw [RelationalSdk.storedBy, List.map_map]
      exact (List.filter_sublist (l := ws)).map _
    exact h.distinct.sublist hsub
  · obtain ⟨w, hw, -, rfl⟩ := mem_storedBy.mp he
    exact h.isUuid w hw

theorem logged_logEvents (hids : FreshIds ws) :
    Logged c.toEventJson (c.logEvents ws).tables (storedBy c ws) := by
  induction ws using List.reverseRecOn with
  | nil => exact Logged.empty c.toEventJson
  | append_singleton ws w ih =>
    have hold : FreshIds ws := by
      refine ⟨?_, fun w' hw' => hids.isUuid w' (List.mem_append_left _ hw')⟩
      have hdistinct := hids.distinct
      rw [List.map_append, List.nodup_append] at hdistinct
      exact hdistinct.1
    have hstored := hids.storedBy (c := c)
    rw [storedBy, List.filter_append, List.map_append, ← storedBy] at hstored ⊢
    rw [AuditCodec.logEvents, exec_concat, ← AuditCodec.logEvents, AuditCodec.log]
    cases hdb : w.1 with
    | false => simpa [hdb] using ih hold
    | true =>
      rw [List.filter_singleton, hdb] at hstored ⊢
      exact (ih hold).logAuditEvent hstored

/-- Of the logged events only the event itself is read as the event. -/
theorem readBack_eq_sign_iff (hids : FreshIds ws) (hserde : ∀ w ∈ ws, c.KeepsId (c.sign w.2))
    {w w' : Bool × AuditEvent} (hw : w ∈ ws) (hw' : w' ∈ ws) :
    c.readBack (c.sign w'.2) = some (c.sign w.2) ↔ w' = w ∧ c.Parses w.2 := by
  constructor
  · intro hread
    obtain rfl := hids.eq_of_eventId_eq hw hw' (hserde w' hw' (c.sign w.2) hread)
    exact ⟨rfl, hread⟩
  · rintro ⟨rfl, hparses⟩
    exact hparses

/-- An event is read of one of the stored events of a kind if and only if it is stored, parses
and is of the kind. -/
theorem exists_readBack_iff (hids : FreshIds ws) (hserde : ∀ w ∈ ws, c.KeepsId (c.sign w.2))
    {kind : AuditEvent → Prop} {w : Bool × AuditEvent} (hw : w ∈ ws) :
    (∃ e ∈ storedBy c ws, kind e ∧ c.readBack e = some (c.sign w.2)) ↔
      (w.1 = true ∧ c.Parses w.2) ∧ kind (c.sign w.2) := by
  constructor
  · rintro ⟨e, he, hkind, hread⟩
    obtain ⟨w', hw', hdb, rfl⟩ := mem_storedBy.mp he
    obtain ⟨rfl, hparses⟩ := (readBack_eq_sign_iff hids hserde hw hw').mp hread
    exact ⟨⟨hdb, hparses⟩, hkind⟩
  · rintro ⟨⟨hdb, hparses⟩, hkind⟩
    exact ⟨_, mem_storedBy.mpr ⟨w, hw, hdb, rfl⟩, hkind, hparses⟩

/-- What is on the pages from some page on is shown. -/
theorem shown_iff {list : Nat → Nat → List AuditEvent} {e : AuditEvent} {P : Prop}
    (h : ∀ limit, 0 < limit → ∃ N, ∀ n ≥ N, e ∈ pages list limit n ↔ P) : Shown list e ↔ P := by
  constructor
  · intro hshown
    obtain ⟨N, hpages⟩ := hshown 1 Nat.one_pos
    obtain ⟨N', hiff⟩ := h 1 Nat.one_pos
    exact (hiff _ (le_max_right N N')).mp (hpages _ (le_max_left N N'))
  · intro hP limit hlimit
    obtain ⟨N, hiff⟩ := h limit hlimit
    exact ⟨N, fun n hn => (hiff n hn).mpr hP⟩

theorem shown_byDate_iff (hids : FreshIds ws) (hserde : ∀ w ∈ ws, c.KeepsId (c.sign w.2))
    {w : Bool × AuditEvent} (hw : w ∈ ws) :
    Shown (c.listAuditByDate (c.logEvents ws).tables w.2.date) (c.sign w.2) ↔
      w.1 = true ∧ c.Parses w.2 := by
  refine shown_iff fun limit hlimit => ?_
  obtain ⟨N, hpages⟩ := (logged_logEvents (c := c) hids).mem_pages_date_iff w.2.date hlimit
  refine ⟨N, fun n hn => (hpages n hn _).trans ?_⟩
  rw [exists_readBack_iff hids hserde hw]
  exact and_iff_left rfl

theorem shown_byResource_iff (hids : FreshIds ws) (hserde : ∀ w ∈ ws, c.KeepsId (c.sign w.2))
    {w : Bool × AuditEvent} (hw : w ∈ ws) (r : Str) :
    Shown (c.listAuditByResource (c.logEvents ws).tables r) (c.sign w.2) ↔
      (w.1 = true ∧ c.Parses w.2) ∧ (w.2.resourceId = some r ∨ Lookalike r w.2) := by
  refine shown_iff fun limit hlimit => ?_
  obtain ⟨N, hpages⟩ := (logged_logEvents (c := c) hids).mem_pages_resource_iff r hlimit
  exact ⟨N, fun n hn => (hpages n hn _).trans (exists_readBack_iff hids hserde hw)⟩

end Run

/-! ## The requests -/

theorem AuditedRequest.eventId_event {draw : AuditDraw} {r : AuditedRequest}
    {w : Bool × AuditEvent} (h : r.event draw = some w) : w.2.eventId = draw.eventId := by
  cases r <;> cases h <;> rfl

theorem mem_loggedBy {ops : List (AuditDraw × AuditedRequest)} {w : Bool × AuditEvent} :
    w ∈ loggedBy ops ↔ ∃ op ∈ ops, op.2.event op.1 = some w :=
  List.mem_filterMap

/-- Requests that draw distinct ids log events with distinct ids. -/
theorem nodup_loggedBy {ops : List (AuditDraw × AuditedRequest)}
    (hids : (ops.map fun op => op.1.eventId).Nodup) :
    ((loggedBy ops).map fun w => w.2.eventId).Nodup := by
  refine List.pairwise_map.mpr (List.pairwise_filterMap.mpr ?_)
  refine (List.pairwise_map.mp hids).imp fun hne w hw w' hw' => ?_
  rwa [AuditedRequest.eventId_event hw, AuditedRequest.eventId_event hw']

theorem isUuid_of_mem_loggedBy {ops : List (AuditDraw × AuditedRequest)} {w : Bool × AuditEvent}
    (hw : w ∈ loggedBy ops) : isUuid w.2.eventId := by
  obtain ⟨op, -, hevent⟩ := mem_loggedBy.mp hw
  rw [AuditedRequest.eventId_event hevent]
  exact op.1.isUuid

/-- A request that is turned down leaves no trace to look for. -/
theorem AuditedRequest.traced_of_event_eq_none {draw : AuditDraw} {r : AuditedRequest}
    (h : r.event draw = none) : r.Traced := by
  cases r <;> trivial

/-- A schema id has no `|` in it. -/
theorem SchemaId.not_mem_bar (id : SchemaId) : '|' ∉ id.text := by
  intro h
  have hall : id.text.all (fun c => c.isAlphanum || c = '-' || c = '_') := by
    have hvalid := id.valid
    simp only [not_or, not_not] at hvalid
    exact hvalid.2.2
  exact absurd (List.all_eq_true.mp hall '|' h) (by decide)

theorem not_lookalike {pool : PoolAddress} {id : SchemaId} {e : AuditEvent}
    (h : e.resourceId = some id.text) : ¬Lookalike pool.text e := by
  rintro ⟨r, hr, -, hlook⟩
  obtain rfl : id.text = r := Option.some.inj (h.symm.trans hr)
  rcases hlook with hlook | hlook
  · exact not_isPrefix_concat id.not_mem_bar hlook
  · exact pool.base58.not_mem_bar (by rw [hlook]; simp)

/-- What a request logs is found if and only if it is traced. -/
theorem AuditedRequest.traced_iff {draw : AuditDraw} {r : AuditedRequest}
    {w : Bool × AuditEvent} (h : r.event draw = some w) :
    (w.1 = true ∧ ∀ pda, w.2.poolPda = some pda →
      w.2.resourceId = some pda ∨ Lookalike pda w.2) ↔ r.Traced := by
  -- Except for the two requests the event names its resource as the pool, or no pool at all.
  have hplain : ∀ {e : AuditEvent}, (e.poolPda = none ∨ e.poolPda = e.resourceId) →
      ∀ pda, e.poolPda = some pda → e.resourceId = some pda ∨ Lookalike pda e := by
    rintro e (he | he) pda hpda
    · cases he.symm.trans hpda
    · exact Or.inl (he.symm.trans hpda)
  cases r with
  | rejected => cases h
  | logRoleChange sub target details =>
    cases h
    simp [Traced]
  | uploadSchema sub pool id details =>
    cases h
    constructor
    · rintro ⟨-, hlisted⟩
      rcases hlisted pool.text rfl with heq | hlook
      · exact Option.some.inj heq
      · exact absurd hlook (not_lookalike rfl)
    · intro heq
      refine ⟨rfl, hplain (Or.inr ?_)⟩
      exact congrArg some (show pool.text = id.text from heq.symm)
  | createMaltaPool | createIobErpPool | grantRight | revokeGrant | dataQuery =>
    cases h
    exact ⟨fun _ => trivial, fun _ => ⟨rfl, hplain (Or.inr rfl)⟩⟩
  | _ =>
    cases h
    exact ⟨fun _ => trivial, fun _ => ⟨rfl, hplain (Or.inl rfl)⟩⟩

theorem freshIds_loggedBy {ops : List (AuditDraw × AuditedRequest)}
    (hids : (ops.map fun op => op.1.eventId).Nodup) : FreshIds (loggedBy ops) :=
  ⟨nodup_loggedBy hids, fun _ => isUuid_of_mem_loggedBy⟩

/-- The trail is complete if every event went to the database and parses, and is listed for the
pool it names. -/
theorem trailComplete_loggedBy_iff {c : AuditCodec} {ops : List (AuditDraw × AuditedRequest)}
    (hids : (ops.map fun op => op.1.eventId).Nodup)
    (hserde : ∀ w ∈ loggedBy ops, c.KeepsId (c.sign w.2)) :
    TrailComplete c ops ↔ ∀ w ∈ loggedBy ops, c.Parses w.2 ∧ w.1 = true ∧
      ∀ pda, w.2.poolPda = some pda → w.2.resourceId = some pda ∨ Lookalike pda w.2 := by
  have hfresh := freshIds_loggedBy hids
  have hdate := fun w hw => shown_byDate_iff (w := w) hfresh hserde hw
  have hpool := fun w hw => shown_byResource_iff (w := w) hfresh hserde hw
  constructor
  · intro h w hw
    have hlogged : c.sign w.2 ∈ c.loggedOn ((loggedBy ops).map Prod.snd) w.2.date :=
      List.mem_map_of_mem (List.mem_filter.mpr ⟨List.mem_map_of_mem hw, decide_eq_true rfl⟩)
    have hshown := h.byDate _ _ hlogged
    rw [runRequests_eq, hdate w hw] at hshown
    refine ⟨hshown.2, hshown.1, fun pda hpda => ?_⟩
    have hshown := h.byPool _ _ hlogged pda hpda
    rw [runRequests_eq, hpool w hw] at hshown
    exact hshown.2
  · intro h
    refine ⟨fun date e he => ?_, fun date e he pda hpda => ?_⟩ <;>
      obtain ⟨x, hx, rfl⟩ := List.mem_map.mp he <;>
      obtain ⟨hmem, hday⟩ := List.mem_filter.mp hx <;>
      obtain ⟨w, hw, rfl⟩ := List.mem_map.mp hmem <;>
      obtain ⟨hparses, hdb, hlisted⟩ := h w hw
    · rw [runRequests_eq, ← of_decide_eq_true hday, hdate w hw]
      exact ⟨hdb, hparses⟩
    · rw [runRequests_eq, hpool w hw]
      exact ⟨⟨hdb, hparses⟩, hlisted pda hpda⟩

/-- The trail misses nothing if and only if no request is a role change or uploads a schema
whose id is not the address of its pool, and the JSON of every event reads back. -/
theorem trailComplete_iff (c : AuditCodec) (ops : List (AuditDraw × AuditedRequest))
    (hids : (ops.map fun op => op.1.eventId).Nodup)
    (hserde : ∀ w ∈ loggedBy ops, c.KeepsId (c.sign w.2)) :
    TrailComplete c ops ↔
      ∀ op ∈ ops, op.2.Traced ∧ ∀ w, op.2.event op.1 = some w → c.Parses w.2 := by
  rw [trailComplete_loggedBy_iff hids hserde]
  constructor
  · intro h op hop
    cases hevent : op.2.event op.1 with
    | none => exact ⟨AuditedRequest.traced_of_event_eq_none hevent, by simp⟩
    | some w =>
      obtain ⟨hparses, hlisted⟩ := h w (mem_loggedBy.mpr ⟨op, hop, hevent⟩)
      refine ⟨(AuditedRequest.traced_iff hevent).mp hlisted, fun w' hw' => ?_⟩
      rwa [← Option.some.inj hw']
  · intro h w hw
    obtain ⟨op, hop, hevent⟩ := mem_loggedBy.mp hw
    obtain ⟨htraced, hparses⟩ := h op hop
    exact ⟨hparses w hevent, (AuditedRequest.traced_iff hevent).mpr htraced⟩

/-- What an event draws. -/
def sampleDraw : AuditDraw where
  eventId := "11111111-2222-4333-8444-555555555555".toList
  isUuid := by decide +kernel
  now := sampleDate

def sampleRoleDetails : Str :=
  "\x7b\"assigned_by\":\"admin\",\"new_role\":\"admin\",\"old_role\":\"analyst\",".toList ++
    "\"target_user\":\"user_9\"\x7d".toList

/-- A user is made an administrator. -/
def sampleRoleChange : AuditedRequest :=
  .logRoleChange "admin".toList "user_9".toList sampleRoleDetails

/-- The event of the role change. -/
def sampleRoleEvent : AuditEvent :=
  (auditLogEvent sampleDraw .roleAssigned "admin".toList "user" "user_9".toList).withDetails
    sampleRoleDetails

/-- Its JSON, up to the place of the tag. -/
def sampleRoleFields : Str :=
  "\x7b\"event_id\":\"11111111-2222-4333-8444-555555555555\",".toList ++
    "\"timestamp\":\"2026-02-24T00:00:00Z\",\"event_type\":\"role_assigned\",".toList ++
    "\"user_id\":\"admin\",\"resource_type\":\"user\",\"resource_id\":\"user_9\",".toList ++
    "\"details\":".toList ++ sampleRoleDetails ++ ",\"success\":true".toList

/-- The tag, under the key of the bytes from 0 to 31. -/
def sampleRoleTag : Str :=
  "458f1596087502a2ae067aa88953ed4cefebfa1ff7ed7c08e89b5eb18edba553".toList

/-- The line of the log. -/
def sampleRoleLine : Str :=
  sampleRoleFields ++ ",\"hmac\":\"".toList ++ sampleRoleTag ++ "\"\x7d".toList

/-- The codec on the JSON of the role change. -/
def sampleRoleCodec : AuditCodec :=
  .single sampleRoleEvent (sampleRoleFields ++ ['\x7d']) sampleRoleLine sampleRoleTag

theorem sampleRoleLine_ne : sampleRoleLine ≠ sampleRoleFields ++ ['\x7d'] := by
  unfold sampleRoleLine
  rw [List.append_assoc, List.append_assoc]
  intro h
  exact absurd (congrArg List.head? (List.append_cancel_left h)) (by decide +kernel)

/-- What a codec of one event reads has its id. -/
theorem AuditCodec.keepsId_single {e x : AuditEvent} {json line tag : Str} (hmac : e.hmac = none)
    (hid : x.eventId = e.eventId) : (single e json line tag).KeepsId x := by
  intro y hread
  have hcanonical := congrArg AuditEvent.eventId (canonical_of_single hmac hread)
  exact hcanonical.trans hid.symm

theorem loggedBy_sampleRoleChange :
    loggedBy [(sampleDraw, sampleRoleChange)] = [(false, sampleRoleEvent)] :=
  rfl

/-- A role change is in the file of its day, where it can be read, and nowhere in the database. -/
theorem not_trailComplete_roleChange :
    (∀ w ∈ loggedBy [(sampleDraw, sampleRoleChange)],
        sampleRoleCodec.KeepsId (sampleRoleCodec.sign w.2) ∧ sampleRoleCodec.Parses w.2) ∧
      ¬TrailComplete sampleRoleCodec [(sampleDraw, sampleRoleChange)] := by
  have hserde : ∀ w ∈ loggedBy [(sampleDraw, sampleRoleChange)],
      sampleRoleCodec.KeepsId (sampleRoleCodec.sign w.2) ∧ sampleRoleCodec.Parses w.2 := by
    intro w hw
    rw [loggedBy_sampleRoleChange, List.mem_singleton] at hw
    rw [hw]
    exact ⟨AuditCodec.keepsId_single rfl rfl, AuditCodec.parses_single rfl sampleRoleLine_ne⟩
  refine ⟨hserde, fun h => ?_⟩
  rw [trailComplete_loggedBy_iff (by simp) fun w hw => (hserde w hw).1] at h
  cases (h (false, sampleRoleEvent) List.mem_cons_self).2.1

/-- A wallet is deleted. -/
def sampleRequests : List (AuditDraw × AuditedRequest) :=
  [(sampleDraw, .deleteWallet "alice".toList "66666666-7777-4888-9999-aaaaaaaaaaaa".toList)]

/-- The deletion of a wallet is in both. -/
theorem trailComplete_deletion :
    (sampleRequests.map fun op => op.1.eventId).Nodup ∧
      (∀ w ∈ loggedBy sampleRequests, sampleCodec.KeepsId (sampleCodec.sign w.2)) ∧
        TrailComplete sampleCodec sampleRequests := by
  have hids : (sampleRequests.map fun op => op.1.eventId).Nodup := List.nodup_singleton _
  have hlogged : loggedBy sampleRequests = [(true, sampleDeletion)] := rfl
  have hserde : ∀ w ∈ loggedBy sampleRequests,
      sampleCodec.KeepsId (sampleCodec.sign w.2) := by
    intro w hw
    rw [hlogged, List.mem_singleton] at hw
    rw [hw]
    exact AuditCodec.keepsId_single rfl rfl
  refine ⟨hids, hserde, (trailComplete_iff sampleCodec _ hids hserde).mpr fun op hop => ?_⟩
  rw [List.mem_singleton.mp hop]
  refine ⟨trivial, fun w hw => ?_⟩
  rw [← Option.some.inj hw]
  exact AuditCodec.parses_single rfl sampleLine_ne

end RelationalSdk
