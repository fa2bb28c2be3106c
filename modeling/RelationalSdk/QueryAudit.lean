import RelationalSdk.AuditTrail

/-!
# The audit event of a query

`data_query` takes a JSON body with free-form `args` and, whatever comes of the query, logs an
event whose details hold the `args` again. serde_json writes a value of any depth but reads a
document only if it nests at most 127 levels. In the body the `args` stand inside one object,
in the event inside two. Both readers of the trail pass over what they cannot parse.

`executionReadable_iff` : after any requests, the event of an accepted query is read back from
the file of its day and listed for the pool if and only if its `args` do not nest exactly 126
levels. Such a body is accepted, and the query it asks for leaves no trace.
-/

namespace RelationalSdk

open Text KeyedTable Runs JsonValue

/-- How deep a document serde_json reads can nest. -/
def maxDepth : Nat :=
  127

/-! ## The request -/

/-- Request body for `/v1/data/query`. -/
structure DataQueryRequest where
  poolPda : Str
  drtName : Str
  args : Json

/-- The value of a field, which may be missing but not be repeated. -/
def fieldOf (name : String) (fields : List (Str × Json)) : Option (Option Json) :=
  match fields.filter fun f => f.1 = name.toList with
  | [] => some none
  | [f] => some (some f.2)
  | _ => none

/-- The derived `Deserialize`, from an object or from the values of the fields in their order.
`args` has a default. -/
def DataQueryRequest.ofJson : Json → Option DataQueryRequest
  | .object fields =>
    match fieldOf "pool_pda" fields, fieldOf "drt_name" fields, fieldOf "args" fields with
    | some (some (.string poolPda)), some (some (.string drtName)), some args =>
      some ⟨poolPda, drtName, args.getD .null⟩
    | _, _, _ => none
  | .array [.string poolPda, .string drtName] => some ⟨poolPda, drtName, .null⟩
  | .array [.string poolPda, .string drtName, args] => some ⟨poolPda, drtName, args⟩
  | _ => none

/-- The body is read : it is shallow enough and has the fields. -/
def Accepted (body : Json) (payload : DataQueryRequest) : Prop :=
  body.depth ≤ maxDepth ∧ DataQueryRequest.ofJson body = some payload

/-- The fields of the response that the event records. -/
structure DataQueryResponse where
  codeHashHex : Str
  exitCode : Int

/-- The text of an error. -/
def ApiError.display (e : ApiError) : Str :=
  Nat.toDigits 10 e.status ++ ": ".toList ++ e.message.toList

/-- The details of the event, in the order they are put together. -/
def executionDetails (payload : DataQueryRequest) (result : Except ApiError DataQueryResponse) :
    Json :=
  .object ([("pool_pda".toList, .string payload.poolPda),
    ("drt_name".toList, .string payload.drtName), ("args".toList, payload.args)] ++
    match result with
    | .ok resp =>
      [("code_hash_hex".toList, .string resp.codeHashHex),
        ("exit_code".toList, .number (toString resp.exitCode).toList)]
    | .error e => [("error".toList, .string e.display)])

/-- The query ran and the script returned 0. -/
def executionSucceeded (result : Except ApiError DataQueryResponse) : Bool :=
  match result with
  | .ok resp => resp.exitCode = 0
  | .error _ => false

/-- What a query logs. `text` writes a JSON value. -/
def recordDrtExecutionAudit (text : Json → Str) (sub : Str) (payload : DataQueryRequest)
    (result : Except ApiError DataQueryResponse) : AuditedRequest :=
  .dataQuery sub payload.poolPda (text (executionDetails payload result))
    (executionSucceeded result)

/-- The event of a query. -/
def executionEvent (text : Json → Str) (draw : AuditDraw) (sub : Str) (payload : DataQueryRequest)
    (result : Except ApiError DataQueryResponse) : AuditEvent :=
  { ((auditLogEvent draw .drtExecuted sub "drt_pool" payload.poolPda).withPoolPda
      payload.poolPda).withDetails (text (executionDetails payload result)) with
    success := executionSucceeded result }

/-! ## The document -/

theorem depthFields_optionalField (name : String) (value : Option Json) :
    Json.depthFields (optionalField name value) = (value.map Json.depth).getD 0 := by
  cases value <;> simp [optionalField]

theorem depthFields_optionalField_string (name : String) (s : Option Str) :
    Json.depthFields (optionalField name (s.map .string)) = 0 := by
  cases s <;> simp [optionalField]

/-- Only the details of an event nest. -/
theorem AuditEvent.depth_document (rfc3339 : DateTime → Str) (e : AuditEvent)
    (details : Option Json) :
    (e.document rfc3339 details).depth = 1 + (details.map Json.depth).getD 0 := by
  unfold AuditEvent.document
  simp only [Json.depth_object, Json.depthFields_append, depthFields_optionalField_string,
    depthFields_optionalField "details" details, Json.depthFields_cons, Json.depthFields_nil,
    Json.depth_string, Json.depth_bool]
  omega

theorem depth_executionDetails (payload : DataQueryRequest)
    (result : Except ApiError DataQueryResponse) :
    (executionDetails payload result).depth = 1 + payload.args.depth := by
  cases result <;> simp [executionDetails]

/-- A field that is found is one of the fields. -/
theorem mem_of_fieldOf {name : String} {fields : List (Str × Json)} {v : Json}
    (h : fieldOf name fields = some (some v)) : ∃ f ∈ fields, f.2 = v := by
  unfold fieldOf at h
  split at h
  · cases h
  · rename_i f hfilter
    have hmem : f ∈ fields.filter fun f => f.1 = name.toList := by
      rw [hfilter]
      exact List.mem_singleton.mpr rfl
    exact ⟨f, List.mem_of_mem_filter hmem, Option.some.inj (Option.some.inj h)⟩
  · cases h

/-- The `args` stand inside the body. -/
theorem DataQueryRequest.depth_args_lt {body : Json} {payload : DataQueryRequest}
    (h : ofJson body = some payload) : payload.args.depth < body.depth := by
  unfold ofJson at h
  split at h
  · rename_i fields
    rw [Json.depth_object]
    split at h
    · rename_i args _ _ hargs
      rw [← Option.some.inj h]
      cases args with
      | none => simp
      | some v =>
        obtain ⟨f, hf, rfl⟩ := mem_of_fieldOf hargs
        exact Nat.lt_one_add_iff.mpr (Json.depth_le_depthFields hf)
    · cases h
  · rw [← Option.some.inj h]
    simp
  · rw [← Option.some.inj h]
    simp
  · cases h

/-! ## The readers -/

namespace AuditCodec

variable (c : AuditCodec)

/-- serde_json writes the signed event on one line, its details being the text of a value, and
reads it back if and only if its document is not too deep. -/
structure ReadsShallow (text : Json → Str) (rfc3339 : DateTime → Str) (e : AuditEvent) :
    Prop where
  oneLine : c.OneLine e
  hasValue : ∃ v : Option Json, e.details = v.map text
  reads : ∀ v : Option Json, e.details = v.map text →
    c.fromJson (c.toJson (c.sign e)) =
      if ((c.sign e).document rfc3339 v).depth ≤ maxDepth then some (c.sign e) else none

end AuditCodec

/-- The event is read back from the file of its day and is on the pages of the pool. -/
structure ReadBack (c : AuditCodec) (s : AuditStore) (poolPda : Str) (e : AuditEvent) : Prop where
  verified : c.sign e ∈ c.readVerifiedEvents s.files e.date
  listed : Shown (c.listAuditByResource s.tables poolPda) (c.sign e)

section Readers

variable {c : AuditCodec} {text : Json → Str} {rfc3339 : DateTime → Str}
  {ws : List (Bool × AuditEvent)}

/-- An event parses if the document with its details is not too deep. -/
theorem AuditCodec.ReadsShallow.parses_iff {e : AuditEvent} (h : c.ReadsShallow text rfc3339 e)
    {v : Option Json} (hv : e.details = v.map text) :
    c.Parses e ↔ 1 + (v.map Json.depth).getD 0 ≤ maxDepth := by
  rw [AuditCodec.Parses, h.reads v hv, AuditEvent.depth_document]
  simp

/-- What is read from the text of an event is the event. -/
theorem AuditCodec.ReadsShallow.eq_sign {e x : AuditEvent} (h : c.ReadsShallow text rfc3339 e)
    (hread : c.fromJson (c.toJson (c.sign e)) = some x) : x = c.sign e := by
  obtain ⟨v, hv⟩ := h.hasValue
  rw [h.reads v hv] at hread
  split_ifs at hread
  exact (Option.some.inj hread).symm

theorem AuditCodec.ReadsShallow.keepsId {e : AuditEvent} (h : c.ReadsShallow text rfc3339 e) :
    c.KeepsId (c.sign e) := by
  intro x hread
  rw [h.eq_sign hread]

/-- The file of the day gives back what parses. -/
theorem mem_readVerifiedEvents_iff (hids : FreshIds ws)
    (hserde : ∀ w ∈ ws, c.ReadsShallow text rfc3339 w.2) {w : Bool × AuditEvent} (hw : w ∈ ws) :
    c.sign w.2 ∈ c.readVerifiedEvents (c.logEvents ws).files w.2.date ↔ c.Parses w.2 := by
  have honeLine : ∀ e ∈ ws.map Prod.snd, c.OneLine e := by
    intro e he
    obtain ⟨w, hw, rfl⟩ := List.mem_map.mp he
    exact (hserde w hw).oneLine
  rw [AuditCodec.readVerifiedEvents, files_logEvents, AuditCodec.auditLines_logFiles honeLine,
    List.mem_filterMap]
  constructor
  · rintro ⟨line, hline, hverify⟩
    obtain ⟨x, hx, rfl⟩ := List.mem_map.mp hline
    obtain ⟨e, he, rfl⟩ := List.mem_map.mp hx
    obtain ⟨w', hw', rfl⟩ := List.mem_map.mp (List.mem_of_mem_filter he)
    have hread := (AuditCodec.verifyLine_eq_some_iff.mp hverify).1
    exact ((readBack_eq_sign_iff hids (fun w hw => (hserde w hw).keepsId) hw hw').mp hread).2
  · intro hparses
    refine ⟨_, List.mem_map_of_mem (List.mem_map_of_mem (List.mem_filter.mpr
      ⟨List.mem_map_of_mem hw, decide_eq_true rfl⟩)), ?_⟩
    exact AuditCodec.verifyLine_eq_some_iff.mpr ⟨hparses, rfl⟩

end Readers

/-- The event of an accepted query is read back if and only if its `args` do not nest exactly
126 levels. -/
theorem executionReadable_iff (c : AuditCodec) (text : Json → Str) (rfc3339 : DateTime → Str)
    (ops : List (AuditDraw × AuditedRequest)) (hids : (ops.map fun op => op.1.eventId).Nodup)
    (hserde : ∀ w ∈ loggedBy ops, c.ReadsShallow text rfc3339 w.2) (body : Json)
    (payload : DataQueryRequest) (haccepted : Accepted body payload) (draw : AuditDraw) (sub : Str)
    (result : Except ApiError DataQueryResponse)
    (hop : (draw, recordDrtExecutionAudit text sub payload result) ∈ ops) :
    ReadBack c (c.runRequests ops) payload.poolPda
        (executionEvent text draw sub payload result) ↔
      payload.args.depth ≠ 126 := by
  have hw : (true, executionEvent text draw sub payload result) ∈ loggedBy ops :=
    mem_loggedBy.mpr ⟨_, hop, rfl⟩
  have hids' := freshIds_loggedBy hids
  have hparses : c.Parses (executionEvent text draw sub payload result) ↔
      payload.args.depth ≠ 126 := by
    have hargs := DataQueryRequest.depth_args_lt haccepted.2
    have hbody := haccepted.1
    rw [(hserde _ hw).parses_iff (v := some (executionDetails payload result)) rfl,
      Option.map_some, Option.getD_some, depth_executionDetails]
    unfold maxDepth at hbody ⊢
    omega
  have hverified := mem_readVerifiedEvents_iff hids' hserde hw
  have hlisted := shown_byResource_iff hids' (fun w hw => (hserde w hw).keepsId) hw payload.poolPda
  rw [← hparses, runRequests_eq]
  refine ⟨fun h => hverified.mp h.verified, fun h => ⟨hverified.mpr h, hlisted.mpr ?_⟩⟩
  exact ⟨⟨rfl, h⟩, Or.inl rfl⟩

/-! ## Two queries -/

/-- A body with `args` of `n` nested arrays. -/
def nestedBody (n : Nat) : Json :=
  .object [("pool_pda".toList, .string "P1".toList), ("drt_name".toList, .string "mean".toList),
    ("args".toList, Json.nest n)]

def nestedPayload (n : Nat) : DataQueryRequest :=
  ⟨"P1".toList, "mean".toList, Json.nest n⟩

/-- Bodies with at most 126 nested arrays are accepted. -/
theorem accepted_nestedBody {n : Nat} (hn : n ≤ 126) :
    Accepted (nestedBody n) (nestedPayload n) := by
  refine ⟨?_, rfl⟩
  have hdepth : (nestedBody n).depth = 1 + n := by simp [nestedBody, Json.depth_nest]
  unfold maxDepth
  omega

/-- A text that says how deep the value is. -/
def depthText (v : Json) : Str :=
  List.replicate v.depth '['

/-- The codec on the JSON of one event whose document has the given depth. -/
def depthCodec (e : AuditEvent) (depth : Nat) : AuditCodec :=
  { AuditCodec.single e ['e'] ['l'] ['t'] with
    fromJson := fun line =>
      if depth ≤ maxDepth then (AuditCodec.single e ['e'] ['l'] ['t']).fromJson line else none }

/-- The event of a query on a pool that is not there. -/
def nestedEvent (n : Nat) : AuditEvent :=
  executionEvent depthText sampleDraw "analyst".toList (nestedPayload n)
    (.error (.notFound "pool P1 not found"))

def nestedRequest (n : Nat) : AuditDraw × AuditedRequest :=
  (sampleDraw, recordDrtExecutionAudit depthText "analyst".toList (nestedPayload n)
    (.error (.notFound "pool P1 not found")))

def nestedCodec (n : Nat) : AuditCodec :=
  depthCodec (nestedEvent n) (2 + n)

theorem readsShallow_nestedCodec (n : Nat) :
    (nestedCodec n).ReadsShallow depthText formatDate (nestedEvent n) := by
  have honeLine : (AuditCodec.single (nestedEvent n) ['e'] ['l'] ['t']).OneLine (nestedEvent n) :=
    AuditCodec.oneLine_single rfl (by simp)
  have hparses : (AuditCodec.single (nestedEvent n) ['e'] ['l'] ['t']).Parses (nestedEvent n) :=
    AuditCodec.parses_single rfl (by simp)
  refine ⟨⟨honeLine.noLineFeed, honeLine.noReturn⟩, ⟨some _, rfl⟩, fun v hv => ?_⟩
  obtain ⟨details, rfl, htext⟩ := Option.map_eq_some_iff.mp hv.symm
  have hdepth : details.depth = 1 + n := by
    have hlength := congrArg List.length htext
    simpa [depthText, depth_executionDetails, nestedPayload, Json.depth_nest] using hlength
  rw [AuditEvent.depth_document, Option.map_some, Option.getD_some, hdepth,
    show 1 + (1 + n) = 2 + n by omega]
  exact congrArg (fun x => if 2 + n ≤ maxDepth then x else none) hparses

theorem parses_nested_iff (n : Nat) : (nestedCodec n).Parses (nestedEvent n) ↔ n ≤ 125 := by
  rw [(readsShallow_nestedCodec n).parses_iff (v := some (executionDetails (nestedPayload n)
    (.error (.notFound "pool P1 not found")))) rfl, Option.map_some, Option.getD_some,
    depth_executionDetails, nestedPayload, Json.depth_nest, maxDepth]
  omega

theorem executionReadable_nested :
    Accepted (nestedBody 125) (nestedPayload 125) ∧
      ReadBack (nestedCodec 125) ((nestedCodec 125).runRequests [nestedRequest 125]) "P1".toList
        (nestedEvent 125) := by
  have haccepted := accepted_nestedBody (n := 125) (by omega)
  refine ⟨haccepted, (executionReadable_iff (nestedCodec 125) depthText formatDate
    [nestedRequest 125] (by simp) (fun w hw => ?_) _ _ haccepted sampleDraw "analyst".toList _
    (List.mem_singleton.mpr rfl)).mpr ?_⟩
  · obtain rfl : w = (true, nestedEvent 125) := List.mem_singleton.mp hw
    exact readsShallow_nestedCodec 125
  · rw [nestedPayload, Json.depth_nest]
    omega

/-- A query with 126 nested arrays is accepted and leaves no trace that can be read. -/
theorem not_readBack_nested :
    Accepted (nestedBody 126) (nestedPayload 126) ∧
      (∀ w ∈ loggedBy [nestedRequest 126],
        (nestedCodec 126).ReadsShallow depthText formatDate w.2) ∧
      ¬ReadBack (nestedCodec 126) ((nestedCodec 126).runRequests [nestedRequest 126]) "P1".toList
        (nestedEvent 126) := by
  have hserde : ∀ w ∈ loggedBy [nestedRequest 126],
      (nestedCodec 126).ReadsShallow depthText formatDate w.2 := by
    intro w hw
    obtain rfl : w = (true, nestedEvent 126) := List.mem_singleton.mp hw
    exact readsShallow_nestedCodec 126
  refine ⟨accepted_nestedBody le_rfl, hserde, fun h => ?_⟩
  have hverified := h.verified
  rw [runRequests_eq] at hverified
  have hparses := (mem_readVerifiedEvents_iff (w := (true, nestedEvent 126))
    (freshIds_loggedBy (by simp)) hserde (List.mem_singleton.mpr rfl)).mp hverified
  exact absurd ((parses_nested_iff 126).mp hparses) (by omega)

end RelationalSdk
