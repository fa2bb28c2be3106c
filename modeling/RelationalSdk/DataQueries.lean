import RelationalSdk.Dataset
import RelationalSdk.Grants
import RelationalSdk.GuestMemory
import RelationalSdk.PoolRegistration
import RelationalSdk.QueryAudit
import RelationalSdk.ScriptCache

/-!
# Running a script for an analyst

`data_query` runs the script of a right on the data of a pool : it reads the right in the metadata,
looks up a grant of the caller, fetches the script and compares its hash, lists the data set of the
pool and reads its files one by one, loads or compiles the module, runs it in the sandbox, and logs
an event whatever came of it. Each of these is a step of its own. The id of the pool is joined to a
path, so `resolve` says which directory it leads to.

`QueryStep` says what a step can do (`queryAct_step`). `alone_readCsvs` : if nothing comes in
between, the text a query reads is that of `load_and_concat_pool_csvs`.
-/

namespace RelationalSdk

open Text KeyedTable Runs Threads JsonValue

/-! ## Errors -/

/-- `Display` of an error of `fetch_and_verify`. -/
def VerifiedFetchError.display : VerifiedFetchError → String
  | invalidUrl msg => s!"invalid DRT script URL: {msg}"
  | fetch msg => s!"failed to fetch DRT script: {msg}"
  | badStatus code => s!"DRT script fetch returned status {code}"
  | tooLarge size limit => s!"DRT script too large: {size} bytes (limit {limit})"
  | hashMismatch expected actual =>
    let wanted := String.ofList expected
    let got := String.ofList actual
    s!"DRT script hash mismatch: expected {wanted}, got {got}"
  | invalidExpectedHash msg => s!"invalid expected hash: {msg}"
  | cache msg => s!"DRT script cache error: {msg}"

/-- `From<VerifiedFetchError>`. -/
def VerifiedFetchError.toApi (e : VerifiedFetchError) : ApiError :=
  let shown := e.display
  match e with
  | invalidUrl _ | invalidExpectedHash _ | hashMismatch _ _ | tooLarge _ _ => .badRequest shown
  | fetch _ | badStatus _ => .internal s!"DRT script unavailable: {shown}"
  | cache _ => .internal "DRT script cache error"

/-- An error of `execute_cached`. -/
inductive ExecutionError where
  | compile (msg : String)
  | run (e : Runtime.RuntimeError)
  | timeout

/-- `From<RuntimeError>`, for an input of this many bytes. -/
def ExecutionError.toApi (inputLen : Nat) : ExecutionError → ApiError
  | compile msg => .internal s!"DRT script is invalid: DRT runtime compile error: {msg}"
  | run (.badModule msg) => .internal s!"DRT script is invalid: DRT runtime bad module: {msg}"
  | run (.trap msg) => .badRequest s!"DRT runtime trap: {msg}"
  | run .outOfFuel =>
    let fuel := Runtime.fuelBudget inputLen
    .badRequest (s!"DRT script exceeded compute budget (fuel={fuel}, input_bytes={inputLen}) " ++
      "— input may be too large or script too expensive")
  | run (.sizeLimit msg) => .badRequest msg
  | timeout => .badRequest "DRT script timed out"

/-! ## The state -/

/-- What a query uses : the engine, the hash, the exports of a module, the JSON and the tags of
events, and serde_json. -/
structure QueryEnv (μ σ : Type) where
  engine : Engine μ
  sha256 : Bytes → Bytes
  guest : μ → Runtime.GuestModule σ
  codec : AuditCodec
  toText : Json → Str
  fromSlice : Bytes → Option Json

/-- The directory that the path of a pool id leads to, the rights in the metadata of each
directory, the grants, the data set of each directory, the directory of the scripts, and the log. -/
structure QueryWorld where
  resolve : Str → Option Str
  pools : Table Str (Table Str DrtMetadata)
  grants : GrantTables
  datasets : Str → Table Str Bytes
  dir : ScriptDir
  audit : AuditStore

/-- `DataQueryResponse`. -/
structure QueryReply where
  poolPda : Str
  drtName : Str
  codeHashHex : Str
  exitCode : Runtime.I32
  result : Json

/-- What is logged of a response. -/
def QueryReply.recorded (r : QueryReply) : DataQueryResponse :=
  ⟨r.codeHashHex, r.exitCode.toInt⟩

/-- A request, to the process that was started as the `boot`-th. -/
structure QueryCall where
  boot : Nat
  sub : Str
  payload : DataQueryRequest

/-- An event that a query logs, and what becomes of the writes. -/
abbrev LogAttempt :=
  LogIo × AuditEvent

/-- Where a query is. -/
inductive QueryPc where
  | start
  /-- `is_grant_active`. -/
  | checking (drt : DrtMetadata)
  /-- `fetch_and_verify`. -/
  | fetching (drt : DrtMetadata)
  /-- `load_and_concat_pool_csvs`, with the files that are left, and the text so far. -/
  | reading (drt : DrtMetadata) (left : List Str) (acc : Str × Bool)
  /-- `ensure_precompiled`, with the data. -/
  | compiling (drt : DrtMetadata) (csv : Str)
  /-- `execute_cached`. -/
  | executing (drt : DrtMetadata) (csv : Str)
  /-- `data_query_inner` has returned. -/
  | responding (result : Except ApiError QueryReply)
  /-- The file of the day was written. -/
  | storing (result : Except ApiError QueryReply) (attempt : LogAttempt)
  | answered (result : Except ApiError QueryReply) (attempt : LogAttempt)

/-- A query. What it does with the script and the module is a session, which goes on in a worker
when the query has timed out. -/
structure Query (μ : Type) where
  call : QueryCall
  session : Option (Session μ)
  pc : QueryPc

/-- A query, or what goes on around them. -/
inductive QueryParty (μ : Type) where
  | query (q : Query μ)
  | environment

inductive QueryStart where
  | dataQuery (call : QueryCall)
  | environment

/-- What happens next. -/
inductive QueryAction where
  /-- Read the metadata. -/
  | readMeta (readable : Bool)
  /-- Look the grant up. -/
  | checkGrant (outcome : Except String Unit)
  /-- A step of the session. -/
  | script (a : ScriptAction)
  /-- List the data set. The directory may not be readable, or an entry of it. -/
  | listCsvs (entries : Option (Str → Bool))
  /-- Open the next file and read it. -/
  | readCsv (readable : Bool)
  /-- Call `ensure_precompiled`. -/
  | ensure
  /-- Call `execute_cached`. -/
  | execute
  /-- The module has run. -/
  | finish
  /-- The worker has panicked, or the time is up. -/
  | interrupt (e : ExecutionError)
  /-- Append the event to the file of the day. -/
  | append (draw : AuditDraw) (io : LogIo)
  /-- Store the event in the database. -/
  | store
  /-- The metadata of a pool are written. -/
  | putPool (dir : Str) (drts : Table Str DrtMetadata)
  /-- A grant or a revocation is mirrored. -/
  | mirror (op : GrantOp)
  /-- The data of a pool change. -/
  | putDataset (dir : Str) (dataset : Table Str Bytes)
  /-- The paths lead to other directories. -/
  | relink (resolve : Str → Option Str)
  /-- Another request logs an event. -/
  | log (io : LogIo) (e : AuditEvent)

/-! ## Steps -/

/-- The session waits for the next call. -/
def ScriptPc.isIdle {μ : Type} : ScriptPc μ → Bool
  | .idle _ _ => true
  | _ => false

/-- `MAX_INPUT_BYTES`. -/
def maxInputBytes : Nat :=
  600 * 1024 * 1024

section Steps

variable {μ σ : Type} (env : QueryEnv μ σ)

/-- The right in the metadata of the pool, if it has a script. -/
def readRight (w : QueryWorld) (call : QueryCall) (readable : Bool) : Except ApiError DrtMetadata :=
  let pool := String.ofList call.payload.poolPda
  let name := String.ofList call.payload.drtName
  if call.payload.drtName = [] then .error (.badRequest "drt_name cannot be empty")
  else
    match (w.resolve call.payload.poolPda).bind w.pools.get with
    | none => .error (.notFound s!"pool {pool} not found")
    | some drts =>
      if readable then
        match drts.get call.payload.drtName with
        | none => .error (.notFound s!"DRT '{name}' not in pool")
        | some drt =>
          if drt.codeRepoUrl = [] then
            .error (.badRequest s!"DRT '{name}' has no executable script (append-only)")
          else .ok drt
      else .error (.notFound s!"pool {pool} not found")

/-- The caller has an active grant. -/
def checkGrant (w : QueryWorld) (call : QueryCall) (outcome : Except String Unit) :
    Except ApiError Unit :=
  let pool := String.ofList call.payload.poolPda
  let name := String.ofList call.payload.drtName
  match outcome with
  | .error e => .error (.internal s!"grant lookup: {e}")
  | .ok _ =>
    if isGrantActive w.grants call.sub call.payload.poolPda call.payload.drtName then .ok ()
    else .error (.forbidden s!"no active grant for DRT '{name}' in pool {pool}")

/-- The names of the `.csv` files in the data set of the pool, in their order. -/
def csvNames (w : QueryWorld) (poolPda : Str) : List Str :=
  ((w.resolve poolPda).elim [] fun dir => csvFiles (w.datasets dir)).map Prod.fst

/-- A file of the data set of the pool. -/
def csvFile (w : QueryWorld) (poolPda name : Str) : Option Bytes :=
  (w.resolve poolPda).bind fun dir => (w.datasets dir).get name

/-- The names that are listed. A directory that is not readable is taken for an empty one. -/
def listCsvs (w : QueryWorld) (poolPda : Str) (entries : Option (Str → Bool)) : List Str :=
  entries.elim [] fun seen => (csvNames w poolPda).filter seen

/-- What is read of a file. One that cannot be opened or read is skipped. -/
def readCsv (w : QueryWorld) (poolPda name : Str) (readable : Bool) : Option Bytes :=
  if readable then csvFile w poolPda name else none

/-- The arguments as the script gets them. -/
def argBytes (call : QueryCall) : Bytes :=
  asBytes (env.toText call.payload.args)

/-- The body as JSON, or as a string. -/
def resultJson (body : Bytes) : Json :=
  (env.fromSlice body).getD (.string (fromUtf8Lossy body))

/-- The response for an output. -/
def queryReply (call : QueryCall) (drt : DrtMetadata) (out : Runtime.RuntimeOutput) : QueryReply :=
  ⟨call.payload.poolPda, call.payload.drtName, drt.codeHashHex, out.exitCode,
    resultJson env out.body⟩

/-- The result of a query whose module has run. -/
def runResult (call : QueryCall) (drt : DrtMetadata) (csv : Str) (m : μ) :
    Except ApiError QueryReply :=
  match Runtime.execute (env.guest m) (asBytes csv) (argBytes env call) with
  | .ok out _ => .ok (queryReply env call drt out)
  | .error e _ => .error ((ExecutionError.run e).toApi (len csv + (argBytes env call).length))

/-- A step of the session, if it does not wait for a call. A script that cannot be fetched ends the
query. -/
def scriptAct (w : QueryWorld) (q : Query μ) (s : Session μ) (a : ScriptAction) :
    QueryWorld × Query μ :=
  let (dir, s') := sessionAct env.engine env.sha256 w.dir s a
  let pc :=
    match q.pc, s'.pc with
    | .fetching _, .failed e => .responding (.error e.toApi)
    | pc, _ => pc
  ({ w with dir := dir }, { q with session := some s', pc := pc })

/-- What a query logs. -/
def queryEvent (draw : AuditDraw) (call : QueryCall) (result : Except ApiError QueryReply) :
    AuditEvent :=
  executionEvent env.toText draw call.sub call.payload (result.map QueryReply.recorded)

/-- Store an event in the database, if the transaction commits. -/
def storeEvent (tables : AuditTables) (attempt : LogAttempt) : AuditTables :=
  if attempt.1.stored then env.codec.logAuditEvent tables (env.codec.sign attempt.2) else tables

/-- One action of a query. An action that is not possible now does nothing. -/
def queryAct (w : QueryWorld) (q : Query μ) (a : QueryAction) : QueryWorld × Query μ :=
  if q.call.boot ≠ w.dir.boot then (w, q)
  else
    match a, q.pc, q.session with
    | .readMeta readable, .start, _ =>
      match readRight w q.call readable with
      | .error e => (w, { q with pc := .responding (.error e) })
      | .ok drt => (w, { q with pc := .checking drt })
    | .checkGrant outcome, .checking drt, _ =>
      match checkGrant w q.call outcome with
      | .error e => (w, { q with pc := .responding (.error e) })
      | .ok _ =>
        let s : Session μ := ⟨q.call.boot, drt.codeRepoUrl, drt.codeHashHex, .start, false⟩
        (w, { q with session := some s, pc := .fetching drt })
    | .script a, _, some s => if s.pc.isIdle then (w, q) else scriptAct env w q s a
    | .listCsvs entries, .fetching drt, some s =>
      if s.pc.isIdle then
        let left := listCsvs w q.call.payload.poolPda entries
        (w, { q with pc := .reading drt left ([], false) })
      else (w, q)
    | .readCsv readable, .reading drt (name :: left) acc, _ =>
      let content := readCsv w q.call.payload.poolPda name readable
      (w, { q with pc := .reading drt left (appendFiles acc content.toList) })
    | .ensure, .reading drt [] acc, some s =>
      if acc.1 = [] then
        (w, { q with pc := .responding (.error (.badRequest "pool has no data uploaded yet")) })
      else scriptAct env w { q with pc := .compiling drt acc.1 } s .ensure
    | .execute, .compiling drt csv, some s =>
      if s.pc.isIdle then
        let size := len csv
        if maxInputBytes < size then
          (w, { q with pc := .responding (.error (.badRequest
            s!"csv is {size} bytes (limit {maxInputBytes})")) })
        else scriptAct env w { q with pc := .executing drt csv } s .execute
      else (w, q)
    | .finish, .executing drt csv, some s =>
      match s.pc with
      | .idle _ (some m) => (w, { q with pc := .responding (runResult env q.call drt csv m) })
      | .idle script none =>
        match env.engine.compile script with
        | .error e =>
          let inputLen := len csv + (argBytes env q.call).length
          (w, { q with pc := .responding (.error ((ExecutionError.compile e).toApi inputLen)) })
        | .ok _ => (w, q)
      | _ => (w, q)
    | .interrupt e, .executing _ csv, _ =>
      let inputLen := len csv + (argBytes env q.call).length
      (w, { q with pc := .responding (.error (e.toApi inputLen)) })
    | .append draw io, .responding result, _ =>
      let e := queryEvent env draw q.call result
      ({ w with audit := { w.audit with files := env.codec.append io w.audit.files e } },
        { q with pc := .storing result (io, e) })
    | .store, .storing result attempt, _ =>
      ({ w with audit := { w.audit with tables := storeEvent env w.audit.tables attempt } },
        { q with pc := .answered result attempt })
    | _, _, _ => (w, q)

/-- What the environment does. No other request logs an execution. -/
def surroundingsAct (w : QueryWorld) : QueryAction → QueryWorld
  | .script a => { w with dir := environmentAct w.dir a }
  | .putPool dir drts => { w with pools := w.pools.insert dir drts }
  | .mirror op => { w with grants := applyGrantOp w.grants op }
  | .putDataset dir dataset => { w with datasets := Function.update w.datasets dir dataset }
  | .relink resolve => { w with resolve := resolve }
  | .log io e =>
    if e.eventType = .drtExecuted then w else { w with audit := env.codec.log w.audit true io e }
  | _ => w

/-- Queries and environment, interleaved. -/
def queryProgram : Program QueryWorld QueryStart (QueryParty μ) QueryAction where
  start
    | .dataQuery call => .query ⟨call, none, .start⟩
    | .environment => .environment
  act w t a :=
    match t with
    | .query q =>
      let (w', q') := queryAct env w q a
      (w', .query q')
    | .environment => (surroundingsAct env w a, .environment)

/-- A file of the data set has the content it is listed with. -/
theorem filterMap_get_csvFiles (dataset : Table Str Bytes) :
    ((csvFiles dataset).map Prod.fst).filterMap dataset.get = (csvFiles dataset).map Prod.snd := by
  rw [List.filterMap_map, ← List.filterMap_eq_map]
  refine List.filterMap_congr fun e he => ?_
  exact dataset.get_eq_some_iff.mpr (List.mem_of_mem_filter he)

/-- With no step of another party in between, the files that are left are read as they stand. -/
theorem alone_readCsv {w : QueryWorld} {q : Query μ} (hboot : q.call.boot = w.dir.boot)
    (drt : DrtMetadata) (left : List Str) (acc : Str × Bool) :
    alone (queryProgram env) w (.query { q with pc := .reading drt left acc })
        (left.map fun _ => .readCsv true) =
      (w, .query { q with
        pc := .reading drt []
          (appendFiles acc (left.filterMap (csvFile w q.call.payload.poolPda))) }) := by
  induction left generalizing acc with
  | nil => rfl
  | cons name left ih =>
    have hact : (queryProgram env).act w (.query { q with pc := .reading drt (name :: left) acc })
        (.readCsv true) = (w, .query { q with
          pc := .reading drt left
            (appendFiles acc (csvFile w q.call.payload.poolPda name).toList) }) := by
      simp [queryProgram, queryAct, hboot, readCsv]
    rw [List.map_cons, alone_cons, hact, ih]
    cases hfile : csvFile w q.call.payload.poolPda name with
    | none => rw [List.filterMap_cons_none hfile]; rfl
    | some b => rw [List.filterMap_cons_some hfile]; rfl

/-- With no step of another party in between, a query gets the text of the data set. -/
theorem alone_readCsvs {w : QueryWorld} {q : Query μ} {drt : DrtMetadata} {s : Session μ}
    {dir : Str} (hboot : q.call.boot = w.dir.boot) (hpc : q.pc = .fetching drt)
    (hs : q.session = some s) (hidle : s.pc.isIdle)
    (hdir : w.resolve q.call.payload.poolPda = some dir) :
    ∃ acc, acc.1 = loadAndConcatPoolCsvs (w.datasets dir) ∧
      alone (queryProgram env) w (.query q)
        (.listCsvs (some fun _ => true) ::
          (csvNames w q.call.payload.poolPda).map fun _ => .readCsv true) =
        (w, .query { q with pc := .reading drt [] acc }) := by
  have hnames : csvNames w q.call.payload.poolPda = (csvFiles (w.datasets dir)).map Prod.fst := by
    rw [csvNames, hdir, Option.elim_some]
  have hfiles : csvFile w q.call.payload.poolPda = (w.datasets dir).get := by
    funext name
    rw [csvFile, hdir, Option.bind_some]
  have hact : (queryProgram env).act w (.query q) (.listCsvs (some fun _ => true)) =
      (w, .query { q with
        pc := .reading drt (csvNames w q.call.payload.poolPda) ([], false) }) := by
    simp [queryProgram, queryAct, hboot, hpc, hs, hidle, listCsvs]
  refine ⟨appendFiles ([], false) ((csvFiles (w.datasets dir)).map Prod.snd), rfl, ?_⟩
  rw [alone_cons, hact, alone_readCsv env hboot, hnames, hfiles, filterMap_get_csvFiles]

end Steps

/-! ## What a query can do -/

/-- What a query that has written to the file of the day answers and has tried to log. -/
def QueryPc.attempt : QueryPc → Option (Except ApiError QueryReply × LogAttempt)
  | .storing result attempt | .answered result attempt => some (result, attempt)
  | _ => none

/-- What a query has tried to store in the database. -/
def QueryPc.stored : QueryPc → Option LogAttempt
  | .answered _ attempt => some attempt
  | _ => none

section QueryStep

variable {μ σ : Type} (env : QueryEnv μ σ)

/-- The metadata of the pool have the right, with a script. -/
structure HasRight (w : QueryWorld) (call : QueryCall) (drt : DrtMetadata) : Prop where
  right : ∃ dir drts, w.resolve call.payload.poolPda = some dir ∧ w.pools.get dir = some drts ∧
    drts.get call.payload.drtName = some drt
  script : drt.codeRepoUrl ≠ []

/-- The caller has an active grant of the right. -/
def HasGrant (w : QueryWorld) (call : QueryCall) : Prop :=
  isGrantActive w.grants call.sub call.payload.poolPda call.payload.drtName = true

/-- What one action of a query can do. -/
inductive QueryStep (w : QueryWorld) (q : Query μ) : QueryWorld → Query μ → Prop where
  | stay : QueryStep w q w q
  /-- The right is found. -/
  | found {drt : DrtMetadata} (hpc : q.pc = .start) (hright : HasRight w q.call drt) :
      QueryStep w q w { q with pc := .checking drt }
  /-- The checks are passed. -/
  | checked {drt : DrtMetadata} (hpc : q.pc = .checking drt) (hgrant : HasGrant w q.call) :
      QueryStep w q w { q with
        session := some ⟨q.call.boot, drt.codeRepoUrl, drt.codeHashHex, .start, false⟩
        pc := .fetching drt }
  /-- The session goes on. -/
  | session {s : Session μ} (a : ScriptAction) {pc : QueryPc} (hs : q.session = some s)
      (hpc : pc = q.pc ∨ ∃ drt e, q.pc = .fetching drt ∧ pc = .responding (.error e)) :
      QueryStep w q { w with dir := (sessionAct env.engine env.sha256 w.dir s a).1 }
        { q with session := some (sessionAct env.engine env.sha256 w.dir s a).2, pc := pc }
  /-- The data set is listed. -/
  | listed {drt : DrtMetadata} (entries : Option (Str → Bool)) (hpc : q.pc = .fetching drt) :
      QueryStep w q w { q with
        pc := .reading drt (listCsvs w q.call.payload.poolPda entries) ([], false) }
  /-- A file is read. -/
  | read {drt : DrtMetadata} {name : Str} {left : List Str} {acc : Str × Bool} (readable : Bool)
      (hpc : q.pc = .reading drt (name :: left) acc) :
      QueryStep w q w { q with
        pc := .reading drt left
          (appendFiles acc (readCsv w q.call.payload.poolPda name readable).toList) }
  /-- All files are read. -/
  | ensure {s : Session μ} {drt : DrtMetadata} {acc : Str × Bool} (hs : q.session = some s)
      (hpc : q.pc = .reading drt [] acc) (hdata : acc.1 ≠ []) :
      QueryStep w q { w with dir := (sessionAct env.engine env.sha256 w.dir s .ensure).1 }
        { q with
          session := some (sessionAct env.engine env.sha256 w.dir s .ensure).2
          pc := .compiling drt acc.1 }
  | execute {s : Session μ} {drt : DrtMetadata} {csv : Str} (hs : q.session = some s)
      (hpc : q.pc = .compiling drt csv) :
      QueryStep w q { w with dir := (sessionAct env.engine env.sha256 w.dir s .execute).1 }
        { q with
          session := some (sessionAct env.engine env.sha256 w.dir s .execute).2
          pc := .executing drt csv }
  /-- The module has run. -/
  | finish {s : Session μ} {drt : DrtMetadata} {csv : Str} {b : Bytes} {m : μ}
      (hs : q.session = some s) (hpc : q.pc = .executing drt csv) (hm : s.pc = .idle b (some m)) :
      QueryStep w q w { q with pc := .responding (runResult env q.call drt csv m) }
  | fail {e : ApiError} (hpc : q.pc.attempt = none) :
      QueryStep w q w { q with pc := .responding (.error e) }
  | append {result : Except ApiError QueryReply} (draw : AuditDraw) (io : LogIo)
      (hpc : q.pc = .responding result) :
      QueryStep w q
        { w with audit :=
          { w.audit with
            files := env.codec.append io w.audit.files (queryEvent env draw q.call result) } }
        { q with pc := .storing result (io, queryEvent env draw q.call result) }
  | store {result : Except ApiError QueryReply} {attempt : LogAttempt}
      (hpc : q.pc = .storing result attempt) :
      QueryStep w q
        { w with audit := { w.audit with tables := storeEvent env w.audit.tables attempt } }
        { q with pc := .answered result attempt }

variable {env}

theorem hasRight_of_readRight {w : QueryWorld} {call : QueryCall} {readable : Bool}
    {drt : DrtMetadata} : readRight w call readable = .ok drt → HasRight w call drt := by
  fun_cases readRight w call readable with
  | case5 _ drts hpool _ _ hright hscript =>
    rintro ⟨⟩
    obtain ⟨dir, hdir, hdrts⟩ := Option.bind_eq_some_iff.mp hpool
    exact ⟨⟨dir, drts, hdir, hdrts, hright⟩, hscript⟩
  | _ => rintro ⟨⟩

theorem hasGrant_of_checkGrant {w : QueryWorld} {call : QueryCall} {outcome : Except String Unit}
    {u : Unit} : checkGrant w call outcome = .ok u → HasGrant w call := by
  fun_cases checkGrant w call outcome with
  | case2 _ hgrant => exact fun _ => hgrant
  | _ => rintro ⟨⟩

/-- A step of the session moves the query only if the script cannot be fetched. -/
theorem exists_scriptAct_eq (w : QueryWorld) (q : Query μ) (s : Session μ) (a : ScriptAction) :
    ∃ pc, (pc = q.pc ∨ ∃ drt e, q.pc = .fetching drt ∧ pc = .responding (.error e)) ∧
      scriptAct env w q s a =
        ({ w with dir := (sessionAct env.engine env.sha256 w.dir s a).1 },
          { q with session := some (sessionAct env.engine env.sha256 w.dir s a).2, pc := pc }) := by
  refine ⟨_, ?_, rfl⟩
  split
  · next drt e hpc _ => exact Or.inr ⟨drt, e.toApi, hpc, rfl⟩
  · exact Or.inl rfl

theorem queryAct_step (w : QueryWorld) (q : Query μ) (a : QueryAction) :
    QueryStep env w q (queryAct env w q a).1 (queryAct env w q a).2 := by
  fun_cases queryAct env w q a with
  | case2 _ _ hpc => exact .fail (congrArg QueryPc.attempt hpc)
  | case3 _ _ hpc drt hright => exact .found hpc (hasRight_of_readRight hright)
  | case4 _ _ _ hpc => exact .fail (congrArg QueryPc.attempt hpc)
  | case5 _ _ drt hpc _ hgrant => exact .checked hpc (hasGrant_of_checkGrant hgrant)
  | case7 _ a s hs =>
    obtain ⟨pc, hpc, heq⟩ := exists_scriptAct_eq w q s a
    rw [heq]
    exact .session a hs hpc
  | case8 _ entries drt s _ hpc => exact .listed entries hpc
  | case10 _ readable drt name left acc hpc => exact .read readable hpc
  | case11 _ _ _ _ _ hpc => exact .fail (congrArg QueryPc.attempt hpc)
  | case12 _ drt acc s hs hpc hdata => exact .ensure hs hpc hdata
  | case13 _ _ _ _ _ hpc => exact .fail (congrArg QueryPc.attempt hpc)
  | case14 _ drt csv s hs hpc => exact .execute hs hpc
  | case16 _ drt csv s hs hpc _ m hm => exact .finish hs hpc hm
  | case17 _ _ _ _ _ hpc => exact .fail (congrArg QueryPc.attempt hpc)
  | case20 _ _ _ _ hpc => exact .fail (congrArg QueryPc.attempt hpc)
  | case21 _ draw io result hpc => exact .append draw io hpc
  | case22 _ result attempt hpc => exact .store hpc
  | _ => exact .stay

end QueryStep

end RelationalSdk
