import RelationalSdk.Domain
import RelationalSdk.KeyedTable
import RelationalSdk.Threads

/-!
# The script caches

A script is downloaded, hashed and kept in `drt-scripts/{hash}`, and its compiled form is
kept beside it in a `.cwasm` file. `fetch_and_verify` hashes what it reads again, so nothing
is asked of the first file. The second is loaded without a look at the script, so its content
matters : `execute_cached` instantiates whatever the engine can load.

Both files are written to a temporary file that is renamed. The name of the temporary file
of a `.cwasm` has the process and a counter in it, and a crash can leave such a file behind
half written, under a name that the restarted process uses again.

`cachesTransparent` : in every interleaving of any number of requests, with scripts changing
under them and crashes at any time, a module that is run for a hash is the compilation of the
script with that hash, and once a `.cwasm` file was confirmed or rewritten the engine can load
it.
-/

namespace RelationalSdk

open Text KeyedTable Runs Threads

/-! ## Fetching -/

/-- Errors returned by `fetch_and_verify`. -/
inductive VerifiedFetchError where
  | invalidUrl (msg : String)
  | fetch (msg : String)
  | badStatus (code : Nat)
  | tooLarge (size limit : Nat)
  | hashMismatch (expected actual : Str)
  | invalidExpectedHash (msg : String)
  | cache (msg : String)
  deriving DecidableEq

/-- `MAX_SCRIPT_BYTES`. -/
def maxScriptBytes : Nat :=
  16 * 1024 * 1024

/-- `ALLOWED_HOST`. -/
def allowedHost : String :=
  "raw.githubusercontent.com"

/-- `ALLOWED_OWNERS`. -/
def allowedOwners : List String :=
  ["relational-network"]

/-- Only files of the allowed owners on the allowed host. -/
def validateUrl (url : Str) : Except VerifiedFetchError Unit :=
  if ¬"https://".toList.isPrefixOf url then .error (.invalidUrl "must use https://")
  else
    let afterScheme := url.drop 8
    let host := afterScheme.takeWhile (· ≠ '/')
    match afterScheme.dropWhile (· ≠ '/') with
    | [] => .error (.invalidUrl "missing path")
    | _ :: path =>
      let found := String.ofList host
      if found ≠ allowedHost then
        .error (.invalidUrl s!"host must be {allowedHost}, got {found}")
      else
        let owner := String.ofList (path.takeWhile (· ≠ '/'))
        if owner = "" then .error (.invalidUrl "missing owner segment")
        else if owner ∉ allowedOwners then
          .error (.invalidUrl s!"owner '{owner}' not in DRT script allowlist")
        else .ok ()

/-- The value of a hexadecimal digit at a position. -/
def hexValue (b : UInt8) (position : Nat) : Except String Nat :=
  let c := Char.ofNat b.toNat
  match digitValue c with
  | some x => .ok x
  | none =>
    let shown := c.quote
    .error s!"Invalid character {shown} at position {position}"

/-- `hex::decode` from a position on. -/
def hexDecode (position : Nat) : Bytes → Except String Bytes
  | [] => .ok []
  | [_] => .error "Odd number of digits"
  | high :: low :: rest =>
    match hexValue high position, hexValue low (position + 1) with
    | .error e, _ => .error e
    | .ok _, .error e => .error e
    | .ok x, .ok y =>
      match hexDecode (position + 2) rest with
      | .error e => .error e
      | .ok bytes => .ok (UInt8.ofNat (16 * x + y) :: bytes)

/-- A hash as it stands in the metadata of a pool. -/
def decodeHash (hexHash : Str) : Except VerifiedFetchError Bytes :=
  let n := len hexHash
  if n ≠ 64 then .error (.invalidExpectedHash s!"expected 64 hex chars, got {n}")
  else
    match hexDecode 0 (asBytes hexHash) with
    | .error e => .error (.invalidExpectedHash e)
    | .ok bytes => .ok bytes

/-- `hex::encode`. -/
def hexEncode (b : Bytes) : Str :=
  b.flatMap fun x => hexPad 2 x.toNat

/-- Download a script. -/
def httpGet : HttpReply → Except VerifiedFetchError Bytes
  | .failed msg => .error (.fetch msg)
  | .response status body =>
    if ¬(200 ≤ status ∧ status < 300) then .error (.badStatus status)
    else if maxScriptBytes < body.length then .error (.tooLarge body.length maxScriptBytes)
    else .ok body

/-! ## The engine -/

/-- wasmtime : `Module::new`, `Engine::precompile_module`, `Module::serialize` and
`Module::deserialize_file`. -/
structure Engine (μ : Type) where
  compile : Bytes → Except String μ
  precompileModule : Bytes → Except String Bytes
  serialize : μ → Except String Bytes
  deserialize : Bytes → Except String μ

/-- Loading an artifact the engine produced yields the module it was produced from. -/
structure Engine.Lawful {μ : Type} (e : Engine μ) : Prop where
  precompile : ∀ {b a}, e.precompileModule b = .ok a →
    ∃ m, e.compile b = .ok m ∧ e.deserialize a = .ok m
  serialize : ∀ {b m a}, e.compile b = .ok m → e.serialize m = .ok a → e.deserialize a = .ok m

/-! ## Files and requests -/

/-- The name `.{hash}.{tag}.cwasm.{pid}.{seq}.tmp`. -/
structure TempName where
  hexHash : Str
  pid : Nat
  seq : Nat
  deriving DecidableEq

/-- The directory `drt-scripts` and the process that works in it. `boot` counts its starts, and
`seq` is the counter of `atomic_write`, which has 64 bits (see `seq_exec_mod`). -/
structure ScriptDir where
  scripts : Table Str Bytes
  scriptTemps : Table Str Bytes
  cwasms : Table Str Bytes
  temps : TempName → Option Bytes
  boot : Nat
  pid : Nat
  seq : Nat

/-- Where a request is. `last` is the module it ran last. -/
inductive ScriptPc (μ : Type) where
  | start
  /-- Past the cache, before the download. -/
  | missed
  /-- With a script to be written to the cache. -/
  | storing (script : Bytes)
  /-- With the script in the temporary file. -/
  | stored (script : Bytes)
  /-- With the script `fetch_and_verify` returned, between two calls. -/
  | idle (script : Bytes) (last : Option μ)
  /-- `ensure_precompiled`, having found a `.cwasm` file. -/
  | checking (script : Bytes)
  /-- `execute_cached`, having found a `.cwasm` file. -/
  | loading (script : Bytes)
  /-- `atomic_write` of an artifact. `healing` is the module of an `execute_cached`. -/
  | publishing (script artifact : Bytes) (seq : Nat) (healing : Option μ)
  /-- `atomic_write`, past its `fs::write`. -/
  | published (script artifact : Bytes) (seq : Nat) (healing : Option μ)
  | failed (e : VerifiedFetchError)

/-- A request, served by the process that was started as the `boot`-th. `confirmed` : an
`ensure_precompiled` returned, or an `execute_cached` has rewritten the file. -/
structure Session (μ : Type) where
  boot : Nat
  url : Str
  hexHash : Str
  pc : ScriptPc μ
  confirmed : Bool

/-- The request after a step, which may confirm the file. -/
def Session.moved {μ : Type} (s : Session μ) (pc : ScriptPc μ) (confirms : Bool) : Session μ :=
  { s with pc := pc, confirmed := s.confirmed || confirms }

/-- What happens next. -/
inductive ScriptAction where
  /-- `try_load_from_cache`, which may fail to read. -/
  | load (readable : Bool)
  /-- The download is answered. -/
  | reply (r : HttpReply)
  /-- `fs::write` has got as far as this. -/
  | tear (content : Bytes)
  /-- `fs::write` ends. -/
  | write (outcome : Except String Unit)
  /-- `fs::rename`. -/
  | rename (outcome : Except String Unit)
  /-- Call `ensure_precompiled`. -/
  | ensure
  /-- Call `execute_cached`. -/
  | execute
  /-- `Module::deserialize_file` and what follows from it. -/
  | deserialize
  /-- A script file is changed, or removed. -/
  | corrupt (hexHash : Str) (content : Option Bytes)
  /-- The process dies and is started again. -/
  | crash (pid : Nat)

section Steps

variable {μ : Type} (engine : Engine μ) (sha256 : Bytes → Bytes)

/-- The cached script, if its hash is right. -/
def tryLoadFromCache (d : ScriptDir) (hexHash : Str) (expected : Bytes) (readable : Bool) :
    Option Bytes :=
  match d.scripts.get hexHash with
  | none => none
  | some bytes => if readable ∧ sha256 bytes = expected then some bytes else none

/-- `fetch_and_verify`. -/
def fetchNext (d : ScriptDir) (url hexHash : Str) :
    ScriptPc μ → ScriptAction → Option (ScriptDir × ScriptPc μ)
  | .start, .load readable =>
    match validateUrl url, decodeHash hexHash with
    | .error e, _ => some (d, .failed e)
    | .ok _, .error e => some (d, .failed e)
    | .ok _, .ok expected =>
      match tryLoadFromCache sha256 d hexHash expected readable with
      | some bytes => some (d, .idle bytes none)
      | none => some (d, .missed)
  | .missed, .reply r =>
    match httpGet r, decodeHash hexHash with
    | .error e, _ => some (d, .failed e)
    | .ok _, .error e => some (d, .failed e)
    | .ok bytes, .ok expected =>
      if sha256 bytes ≠ expected then
        some (d, .failed (.hashMismatch hexHash (hexEncode (sha256 bytes))))
      else some (d, .storing bytes)
  | .storing script, .tear content =>
    some ({ d with scriptTemps := d.scriptTemps.insert hexHash content }, .storing script)
  | .storing script, .write (.ok _) =>
    some ({ d with scriptTemps := d.scriptTemps.insert hexHash script }, .stored script)
  | .stored script, .rename (.ok _) =>
    match d.scriptTemps.get hexHash with
    | none => none
    | some content =>
      some ({ d with
        scripts := d.scripts.insert hexHash content
        scriptTemps := d.scriptTemps.remove hexHash }, .idle script none)
  | .storing _, .write (.error e) | .stored _, .rename (.error e) => some (d, .failed (.cache e))
  | _, _ => none

/-- Start the `atomic_write` of an artifact, if there is one. -/
def publish (d : ScriptDir) (script : Bytes) (healing : Option μ) :
    Except String Bytes → ScriptDir × ScriptPc μ
  | .error _ => (d, .idle script healing)
  | .ok artifact => ({ d with seq := d.seq + 1 }, .publishing script artifact d.seq healing)

/-- `Module::deserialize_file`. -/
def deserializeFile (d : ScriptDir) (hexHash : Str) : Except String μ :=
  match d.cwasms.get hexHash with
  | none => .error "No such file or directory (os error 2)"
  | some artifact => engine.deserialize artifact

/-- JIT-compile the script and go on with the module. -/
def jit (d : ScriptDir) (script : Bytes) (next : μ → ScriptDir × ScriptPc μ) :
    ScriptDir × ScriptPc μ :=
  match engine.compile script with
  | .error _ => (d, .idle script none)
  | .ok m => next m

/-- `ensure_precompiled` and `execute_cached`. The last component says that the file was
confirmed or rewritten. -/
def runtimeNext (d : ScriptDir) (hexHash : Str) :
    ScriptPc μ → ScriptAction → Option ((ScriptDir × ScriptPc μ) × Bool)
  | .idle script _, .ensure =>
    if (d.cwasms.get hexHash).isSome then some ((d, .checking script), false)
    else some (publish d script none (engine.precompileModule script), false)
  | .checking script, .deserialize =>
    match deserializeFile engine d hexHash with
    | .ok _ => some ((d, .idle script none), true)
    | .error _ => some (publish d script none (engine.precompileModule script), false)
  | .idle script _, .execute =>
    if (d.cwasms.get hexHash).isSome then some ((d, .loading script), false)
    else some (jit engine d script fun m => (d, .idle script (some m)), false)
  | .loading script, .deserialize =>
    match deserializeFile engine d hexHash with
    | .ok m => some ((d, .idle script (some m)), false)
    | .error _ =>
      some (jit engine d script fun m => publish d script (some m) (engine.serialize m), false)
  | .publishing script artifact seq healing, .tear content =>
    some (({ d with temps := Function.update d.temps ⟨hexHash, d.pid, seq⟩ (some content) },
      .publishing script artifact seq healing), false)
  | .publishing script artifact seq healing, .write (.ok _) =>
    some (({ d with temps := Function.update d.temps ⟨hexHash, d.pid, seq⟩ (some artifact) },
      .published script artifact seq healing), false)
  | .publishing script _ _ healing, .write (.error _) => some ((d, .idle script healing), false)
  | .published script _ seq healing, .rename (.ok _) =>
    match d.temps ⟨hexHash, d.pid, seq⟩ with
    | none => none
    | some content =>
      some (({ d with
        cwasms := d.cwasms.insert hexHash content
        temps := Function.update d.temps ⟨hexHash, d.pid, seq⟩ none }, .idle script healing), true)
  | .published script _ seq healing, .rename (.error _) =>
    some (({ d with temps := Function.update d.temps ⟨hexHash, d.pid, seq⟩ none },
      .idle script healing), false)
  | _, _ => none

/-- One action of a request. Those of a process that has died do nothing. -/
def sessionAct (d : ScriptDir) (s : Session μ) (a : ScriptAction) : ScriptDir × Session μ :=
  if s.boot ≠ d.boot then (d, s)
  else
    match fetchNext sha256 d s.url s.hexHash s.pc a with
    | some (d', pc) => (d', s.moved pc false)
    | none =>
      match runtimeNext engine d s.hexHash s.pc a with
      | some ((d', pc), confirms) => (d', s.moved pc confirms)
      | none => (d, s)

/-- A request, or what goes on around them. -/
inductive ScriptParty (μ : Type) where
  | session (s : Session μ)
  | environment

/-- A new request, or the environment. -/
inductive ScriptCall where
  | request (boot : Nat) (url hexHash : Str)
  | environment

/-- What the environment does. -/
def environmentAct (d : ScriptDir) : ScriptAction → ScriptDir
  | .corrupt hexHash (some content) => { d with scripts := d.scripts.insert hexHash content }
  | .corrupt hexHash none => { d with scripts := d.scripts.remove hexHash }
  | .crash pid => { d with boot := d.boot + 1, pid := pid, seq := 0 }
  | _ => d

/-- Requests and environment, interleaved. -/
def scriptProgram : Program ScriptDir ScriptCall (ScriptParty μ) ScriptAction where
  start
    | .request boot url hexHash => .session ⟨boot, url, hexHash, .start, false⟩
    | .environment => .environment
  act d t a :=
    match t with
    | .session s =>
      let (d', s') := sessionAct engine sha256 d s a
      (d', .session s')
    | .environment => (environmentAct d a, .environment)

end Steps

/-! ## What a request can do -/

namespace ScriptPc

variable {μ : Type}

/-- The script a request works with. -/
def script : ScriptPc μ → Option Bytes
  | storing b | stored b | idle b _ | checking b | loading b | publishing b _ _ _
  | published b _ _ _ => some b
  | start | missed | failed _ => none

/-- The module a request has chosen. -/
def chosen : ScriptPc μ → Option μ
  | idle _ m | publishing _ _ _ m | published _ _ _ m => m
  | _ => none

/-- The artifact a request writes, with the number in the name of its temporary file. -/
def artifact : ScriptPc μ → Option (Nat × Bytes)
  | publishing _ a n _ | published _ a n _ => some (n, a)
  | _ => none

/-- The artifact that a temporary file holds as a whole. -/
def written : ScriptPc μ → Option (Nat × Bytes)
  | published _ a n _ => some (n, a)
  | _ => none

theorem artifact_of_written {pc : ScriptPc μ} {w : Nat × Bytes} (h : pc.written = some w) :
    pc.artifact = some w := by
  cases pc <;> first | exact h | cases h

end ScriptPc

section Transparent

variable {μ : Type} (engine : Engine μ) (sha256 : Bytes → Bytes) (considered : Set Bytes)

/-- One of the scripts considered has this hash. -/
def IsScript (hexHash : Str) (b : Bytes) : Prop :=
  decodeHash hexHash = .ok (sha256 b) ∧ b ∈ considered

/-- The module is the compilation of a script with this hash. -/
def Compiled (hexHash : Str) (m : μ) : Prop :=
  ∃ b, IsScript sha256 considered hexHash b ∧ engine.compile b = .ok m

/-- The engine can load the `.cwasm` file. -/
def Loadable (d : ScriptDir) (hexHash : Str) : Prop :=
  ∃ m, deserializeFile engine d hexHash = .ok m

/-- What one action of a live request can do to the directory and the request. -/
inductive SessionStep (d : ScriptDir) (s : Session μ) : ScriptDir → Session μ → Prop where
  | stay : SessionStep d s d s
  /-- A step of `fetch_and_verify`. -/
  | fetch {scripts scriptTemps : Table Str Bytes} {pc : ScriptPc μ}
      (hscript : ∀ b, pc.script = some b →
        s.pc.script = some b ∨ IsScript sha256 considered s.hexHash b)
      (hmodule : pc.chosen = none) (hartifact : pc.artifact = none) :
      SessionStep d s { d with scripts := scripts, scriptTemps := scriptTemps } (s.moved pc false)
  /-- A step that writes nothing. -/
  | call {b : Bytes} {pc : ScriptPc μ} {confirms : Bool} (hb : s.pc.script = some b)
      (hscript : pc.script = some b) (hartifact : pc.artifact = none)
      (hmodule : ∀ m, pc.chosen = some m → s.pc.chosen = some m ∨ engine.compile b = .ok m ∨
        deserializeFile engine d s.hexHash = .ok m)
      (hconfirms : confirms = true → Loadable engine d s.hexHash) :
      SessionStep d s d (s.moved pc confirms)
  /-- An artifact is made. -/
  | make {b a : Bytes} {healing : Option μ} {m : μ} (hb : s.pc.script = some b)
      (hcompile : engine.compile b = .ok m) (hload : engine.deserialize a = .ok m)
      (hmodule : ∀ m', healing = some m' → engine.compile b = .ok m') :
      SessionStep d s { d with seq := d.seq + 1 }
        (s.moved (.publishing b a d.seq healing) false)
  /-- Something is written to the temporary file. -/
  | tear {b a content : Bytes} {n : Nat} {healing : Option μ}
      (hpc : s.pc = .publishing b a n healing) :
      SessionStep d s
        { d with temps := Function.update d.temps ⟨s.hexHash, d.pid, n⟩ (some content) }
        (s.moved s.pc false)
  /-- All of the artifact is. -/
  | write {b a : Bytes} {n : Nat} {healing : Option μ} (hpc : s.pc = .publishing b a n healing) :
      SessionStep d s { d with temps := Function.update d.temps ⟨s.hexHash, d.pid, n⟩ (some a) }
        (s.moved (.published b a n healing) false)
  /-- The temporary file is removed. -/
  | discard {b a : Bytes} {n : Nat} {healing : Option μ} (hpc : s.pc = .published b a n healing) :
      SessionStep d s { d with temps := Function.update d.temps ⟨s.hexHash, d.pid, n⟩ none }
        (s.moved (.idle b healing) false)
  /-- The temporary file is renamed. -/
  | rename {b a content : Bytes} {n : Nat} {healing : Option μ}
      (hpc : s.pc = .published b a n healing)
      (hcontent : d.temps ⟨s.hexHash, d.pid, n⟩ = some content) :
      SessionStep d s
        { d with
          cwasms := d.cwasms.insert s.hexHash content
          temps := Function.update d.temps ⟨s.hexHash, d.pid, n⟩ none }
        (s.moved (.idle b healing) true)

/-- The bytes that an action hashes. -/
def hashedBy (d : ScriptDir) : ScriptParty μ → ScriptAction → Option Bytes
  | .session s, .load _ => if s.pc matches .start then d.scripts.get s.hexHash else none
  | .session s, .reply r =>
    if s.pc matches .missed then (httpGet r).toOption else none
  | _, _ => none

variable {engine sha256 considered} {d : ScriptDir} {s : Session μ} {a : ScriptAction}

theorem get_of_tryLoadFromCache {hexHash : Str} {expected bytes : Bytes} {readable : Bool}
    (h : tryLoadFromCache sha256 d hexHash expected readable = some bytes) :
    d.scripts.get hexHash = some bytes ∧ sha256 bytes = expected := by
  unfold tryLoadFromCache at h
  split at h
  · cases h
  · rename_i content hget
    split_ifs at h with hok
    obtain rfl := Option.some.inj h
    exact ⟨hget, hok.2⟩

/-- What `fetch_and_verify` returns has the right hash. -/
theorem fetchNext_step {d' : ScriptDir} {pc : ScriptPc μ}
    (h : fetchNext sha256 d s.url s.hexHash s.pc a = some (d', pc))
    (hashed : ∀ b ∈ hashedBy d (.session s) a, b ∈ considered) :
    SessionStep engine sha256 considered d s d' (s.moved pc false) := by
  have hfailed : ∀ e, SessionStep engine sha256 considered d s d (s.moved (.failed e) false) :=
    fun e => .fetch (by simp [ScriptPc.script]) rfl rfl
  unfold fetchNext at h
  split at h
  · rename_i readable hpc
    rw [hashedBy, if_pos (by rw [hpc])] at hashed
    split at h
    · cases h
      exact hfailed _
    · cases h
      exact hfailed _
    · rename_i expected hdecode
      split at h
      · rename_i bytes hload
        cases h
        refine .fetch (fun b hb => Or.inr ?_) rfl rfl
        obtain rfl := Option.some.inj hb
        obtain ⟨hget, hhash⟩ := get_of_tryLoadFromCache hload
        exact ⟨by rw [hdecode, hhash], hashed _ hget⟩
      · cases h
        exact .fetch (by simp [ScriptPc.script]) rfl rfl
  · rename_i r hpc
    rw [hashedBy, if_pos (by rw [hpc])] at hashed
    split at h
    · cases h
      exact hfailed _
    · cases h
      exact hfailed _
    · rename_i bytes expected hget hdecode
      split_ifs at h with hhash
      · cases h
        exact hfailed _
      · cases h
        refine .fetch (fun b hb => Or.inr ?_) rfl rfl
        obtain rfl := Option.some.inj hb
        exact ⟨by rw [hdecode, not_not.mp hhash], hashed _ (by rw [hget]; rfl)⟩
  · rename_i script content hpc
    cases h
    exact .fetch (fun b hb => Or.inl (by rw [hpc]; exact hb)) rfl rfl
  · rename_i script u hpc
    cases h
    exact .fetch (fun b hb => Or.inl (by rw [hpc]; exact hb)) rfl rfl
  · rename_i script u hpc
    split at h
    · cases h
    · cases h
      exact .fetch (fun b hb => Or.inl (by rw [hpc]; exact hb)) rfl rfl
  · cases h
    exact hfailed _
  · cases h
    exact hfailed _
  · cases h

/-- An `atomic_write` is started with an artifact of the script. -/
theorem publish_step {b : Bytes} {healing : Option μ} {artifact : Except String Bytes}
    (hb : s.pc.script = some b) (hmodule : ∀ m, healing = some m → engine.compile b = .ok m)
    (hload : ∀ a, artifact = .ok a →
      ∃ m, engine.compile b = .ok m ∧ engine.deserialize a = .ok m) :
    SessionStep engine sha256 considered d s (publish d b healing artifact).1
      (s.moved (publish d b healing artifact).2 false) := by
  cases artifact with
  | error e => exact .call hb rfl rfl (fun m hm => Or.inr (Or.inl (hmodule m hm))) (by simp)
  | ok a =>
    obtain ⟨m, hcompile, hm⟩ := hload a rfl
    exact .make hb hcompile hm hmodule

theorem jit_step {b : Bytes} {next : μ → ScriptDir × ScriptPc μ} (hb : s.pc.script = some b)
    (hnext : ∀ m, engine.compile b = .ok m →
      SessionStep engine sha256 considered d s (next m).1 (s.moved (next m).2 false)) :
    SessionStep engine sha256 considered d s (jit engine d b next).1
      (s.moved (jit engine d b next).2 false) := by
  unfold jit
  cases hcompile : engine.compile b with
  | error e => exact .call hb rfl rfl (by simp [ScriptPc.chosen]) (by simp)
  | ok m => exact hnext m hcompile

/-- `ensure_precompiled` compiles the script. -/
theorem precompile_step (hlaw : engine.Lawful) {b : Bytes} (hb : s.pc.script = some b) :
    SessionStep engine sha256 considered d s
      (publish d b (none : Option μ) (engine.precompileModule b)).1
      (s.moved (publish d b none (engine.precompileModule b)).2 false) :=
  publish_step hb (by simp) fun _ ha => hlaw.precompile ha

/-- `execute_cached` compiles the script and rewrites the file. -/
theorem heal_step (hlaw : engine.Lawful) {b : Bytes} (hb : s.pc.script = some b) :
    SessionStep engine sha256 considered d s
      (jit engine d b fun m => publish d b (some m) (engine.serialize m)).1
      (s.moved (jit engine d b fun m => publish d b (some m) (engine.serialize m)).2 false) := by
  refine jit_step hb fun m hm => publish_step hb ?_ fun a ha => ⟨m, hm, hlaw.serialize hm ha⟩
  rintro m' ⟨⟩
  exact hm

theorem runtimeNext_step (hlaw : engine.Lawful) {d' : ScriptDir} {pc : ScriptPc μ}
    {confirms : Bool} (h : runtimeNext engine d s.hexHash s.pc a = some ((d', pc), confirms)) :
    SessionStep engine sha256 considered d s d' (s.moved pc confirms) := by
  have hscript : ∀ {pc : ScriptPc μ} {b : Bytes}, s.pc = pc → pc.script = some b →
      s.pc.script = some b := by
    rintro _ b rfl hb
    exact hb
  have hmoved : ∀ {x : ScriptDir × ScriptPc μ} {c : Bool}, some (x, c) = some ((d', pc), confirms) →
      SessionStep engine sha256 considered d s x.1 (s.moved x.2 c) →
        SessionStep engine sha256 considered d s d' (s.moved pc confirms) := by
    rintro _ _ ⟨⟩ hstep
    exact hstep
  unfold runtimeNext at h
  split at h
  · rename_i b last hpc
    split_ifs at h
    · exact hmoved h (.call (hscript hpc rfl) rfl rfl (by simp [ScriptPc.chosen]) (by simp))
    · exact hmoved h (precompile_step hlaw (hscript hpc rfl))
  · rename_i b hpc
    split at h
    · rename_i m hm
      exact hmoved h (.call (hscript hpc rfl) rfl rfl (by simp [ScriptPc.chosen]) fun _ => ⟨m, hm⟩)
    · exact hmoved h (precompile_step hlaw (hscript hpc rfl))
  · rename_i b last hpc
    split_ifs at h
    · exact hmoved h (.call (hscript hpc rfl) rfl rfl (by simp [ScriptPc.chosen]) (by simp))
    · refine hmoved h (jit_step (hscript hpc rfl) fun m hm => ?_)
      refine .call (hscript hpc rfl) rfl rfl (fun m' hm' => Or.inr (Or.inl ?_)) (by simp)
      rw [← Option.some.inj hm', hm]
  · rename_i b hpc
    split at h
    · rename_i m hm
      refine hmoved h (.call (hscript hpc rfl) rfl rfl (fun m' hm' => Or.inr (Or.inr ?_)) (by simp))
      rw [← Option.some.inj hm', hm]
    · exact hmoved h (heal_step hlaw (hscript hpc rfl))
  · rename_i b artifact n healing content hpc
    refine hmoved h ?_
    rw [← hpc]
    exact .tear hpc
  · rename_i b artifact n healing u hpc
    exact hmoved h (.write hpc)
  · rename_i b artifact n healing e hpc
    refine hmoved h (.call (hscript hpc rfl) rfl rfl (fun m hm => Or.inl ?_) (by simp))
    rw [hpc]
    exact hm
  · rename_i b artifact n healing u hpc
    split at h
    · cases h
    · rename_i content hcontent
      exact hmoved h (.rename hpc hcontent)
  · rename_i b artifact n healing e hpc
    exact hmoved h (.discard hpc)
  · cases h

/-- An action of a live request is a step of the relation. -/
theorem sessionAct_step (hlaw : engine.Lawful) (hlive : s.boot = d.boot)
    (hashed : ∀ b ∈ hashedBy d (.session s) a, b ∈ considered) :
    SessionStep engine sha256 considered d s (sessionAct engine sha256 d s a).1
      (sessionAct engine sha256 d s a).2 := by
  unfold sessionAct
  rw [if_neg (by simpa using hlive)]
  split
  · rename_i d' pc hfetch
    exact fetchNext_step hfetch hashed
  · split
    · rename_i d' pc confirms hnext
      exact runtimeNext_step hlaw hnext
    · exact .stay

/-! ## The counter of the temporary files -/

/-- A step draws at most one number. -/
theorem SessionStep.seq_le {d' : ScriptDir} {s' : Session μ}
    (h : SessionStep engine sha256 considered d s d' s') : d'.seq ≤ d.seq + 1 := by
  cases h with
  | make => exact le_rfl
  | _ => exact Nat.le_succ _

theorem seq_act_le (hlaw : engine.Lawful) (d : ScriptDir) (t : ScriptParty μ) (a : ScriptAction) :
    ((scriptProgram engine sha256).act d t a).1.seq ≤ d.seq + 1 := by
  cases t with
  | session s =>
    by_cases hlive : s.boot = d.boot
    · have hstep : SessionStep engine sha256 Set.univ d s (sessionAct engine sha256 d s a).1
          (sessionAct engine sha256 d s a).2 :=
        sessionAct_step hlaw hlive fun b _ => Set.mem_univ b
      exact hstep.seq_le
    · have hdead : sessionAct engine sha256 d s a = (d, s) := if_pos hlive
      change (sessionAct engine sha256 d s a).1.seq ≤ d.seq + 1
      rw [hdead]
      exact Nat.le_succ _
  | environment =>
    cases a with
    | corrupt hexHash content => cases content <;> exact Nat.le_succ _
    | crash pid => exact Nat.zero_le _
    | _ => exact Nat.le_succ _

theorem seq_exec_le (hlaw : engine.Lawful) (is : List (Input ScriptCall ScriptAction)) :
    ∀ st : System ScriptDir (ScriptParty μ),
      (exec (step (scriptProgram engine sha256)) st is).shared.seq ≤ st.shared.seq + is.length := by
  induction is with
  | nil => exact fun st => le_rfl
  | cons i is ih =>
    intro st
    have hstep : (step (scriptProgram engine sha256) st i).shared.seq ≤ st.shared.seq + 1 := by
      cases i with
      | spawn call => exact Nat.le_succ _
      | run i a =>
        rw [step]
        split
        · exact Nat.le_succ _
        · exact seq_act_le hlaw _ _ a
    rw [exec_cons, List.length_cons]
    exact (ih _).trans (by omega)

/-- The 64 bits of the counter are enough for fewer than `2 ^ 64` steps : its number in the model
is then the one of `fetch_add`. -/
theorem seq_exec_mod (hlaw : engine.Lawful) {st : System ScriptDir (ScriptParty μ)}
    (hst : st.shared.seq = 0) {is : List (Input ScriptCall ScriptAction)}
    (his : is.length < 2 ^ 64) :
    (exec (step (scriptProgram engine sha256)) st is).shared.seq % 2 ^ 64 =
      (exec (step (scriptProgram engine sha256)) st is).shared.seq := by
  refine Nat.mod_eq_of_lt ((seq_exec_le hlaw is st).trans_lt ?_)
  rwa [hst, Nat.zero_add]

/-! ## The invariant -/

variable (engine sha256 considered)

/-- What is known of a request. -/
structure SessionOk (d : ScriptDir) (s : Session μ) : Prop where
  script : ∀ b, s.pc.script = some b → IsScript sha256 considered s.hexHash b
  chosen : ∀ m, s.pc.chosen = some m → Compiled engine sha256 considered s.hexHash m
  artifact : ∀ n a, s.pc.artifact = some (n, a) →
    s.boot ≤ d.boot ∧ ∃ m, engine.deserialize a = .ok m ∧
      Compiled engine sha256 considered s.hexHash m
  written : s.boot = d.boot → ∀ n a, s.pc.written = some (n, a) →
    d.temps ⟨s.hexHash, d.pid, n⟩ = some a
  confirmed : s.confirmed = true → Loadable engine d s.hexHash

/-- What is known of a party. -/
def ScriptParty.Ok (d : ScriptDir) : ScriptParty μ → Prop
  | .session s => SessionOk engine sha256 considered d s
  | .environment => True

/-- The number in the name of the temporary file of a live request. -/
def ScriptParty.held (boot : Nat) : ScriptParty μ → Option Nat
  | .session s => if s.boot = boot then s.pc.artifact.map Prod.fst else none
  | .environment => none

/-- What can be loaded was compiled from a script with the hash in the name of the file, and
no two live requests share a temporary file. -/
structure ScriptsOk (d : ScriptDir) (ts : List (ScriptParty μ)) : Prop where
  cwasms : ∀ hexHash m, deserializeFile engine d hexHash = .ok m →
    Compiled engine sha256 considered hexHash m
  parties : ∀ t ∈ ts, t.Ok engine sha256 considered d
  distinct : (ts.filterMap (ScriptParty.held d.boot)).Nodup
  below : ∀ n ∈ ts.filterMap (ScriptParty.held d.boot), n < d.seq

/-- What a step leaves alone : it takes away no loadable file, and within the life of a
process it touches no temporary file but its own. -/
structure Spares (d d' : ScriptDir) (own : Option Nat) : Prop where
  loadable : ∀ hexHash, Loadable engine d hexHash → Loadable engine d' hexHash
  boot : d.boot ≤ d'.boot
  temps : d'.boot = d.boot → ∀ hexHash n, own ≠ some n →
    d'.temps ⟨hexHash, d'.pid, n⟩ = d.temps ⟨hexHash, d.pid, n⟩

/-- What a step of a live request does to its own part of the invariant. -/
structure SessionStepOk (d d' : ScriptDir) (s s' : Session μ) : Prop where
  cwasms : ∀ hexHash m, deserializeFile engine d' hexHash = .ok m →
    Compiled engine sha256 considered hexHash m
  session : SessionOk engine sha256 considered d' s'
  spares : Spares engine d d' (s.pc.artifact.map Prod.fst)
  boot : d'.boot = d.boot ∧ s'.boot = s.boot
  held : s'.pc.artifact.map Prod.fst = s.pc.artifact.map Prod.fst ∧ d'.seq = d.seq ∨
    s'.pc.artifact = none ∧ d'.seq = d.seq ∨
    s'.pc.artifact.map Prod.fst = some d.seq ∧ d'.seq = d.seq + 1

variable {engine sha256 considered}

/-- A request keeps what is known of it through the steps of others. -/
theorem SessionOk.spares {d' : ScriptDir} {own : Option Nat} {q : Session μ}
    (h : SessionOk engine sha256 considered d q) (hspares : Spares engine d d' own)
    (hother : own ≠ none → (ScriptParty.session q).held d.boot ≠ own) :
    SessionOk engine sha256 considered d' q := by
  refine ⟨h.script, h.chosen, fun n a ha => ?_, fun hlive n a ha => ?_, fun hc => ?_⟩
  · obtain ⟨hboot, hload⟩ := h.artifact n a ha
    exact ⟨hboot.trans hspares.boot, hload⟩
  · have hartifact := ScriptPc.artifact_of_written ha
    have hboot : d'.boot = d.boot :=
      le_antisymm (hlive ▸ (h.artifact n a hartifact).1) hspares.boot
    have hheld : (ScriptParty.session q).held d.boot = some n := by
      rw [ScriptParty.held, if_pos (hlive.trans hboot), hartifact]
      rfl
    rw [hspares.temps hboot _ _ fun heq => hother (by rw [heq]; simp) (hheld.trans heq.symm)]
    exact h.written (hlive.trans hboot) n a ha
  · exact hspares.loadable _ (h.confirmed hc)

/-- The steps that leave a request without a temporary file. -/
theorem SessionOk.moved {d' : ScriptDir} {pc : ScriptPc μ} {confirms : Bool}
    (hscript : ∀ b, pc.script = some b → IsScript sha256 considered s.hexHash b)
    (hmodule : ∀ m, pc.chosen = some m → Compiled engine sha256 considered s.hexHash m)
    (hartifact : pc.artifact = none)
    (hconfirmed : (s.confirmed || confirms) = true → Loadable engine d' s.hexHash) :
    SessionOk engine sha256 considered d' (s.moved pc confirms) := by
  refine ⟨hscript, hmodule, fun n a ha => ?_, fun _ n a ha => ?_, hconfirmed⟩
  · exact absurd (ha.symm.trans hartifact) (by simp)
  · exact absurd ((ScriptPc.artifact_of_written ha).symm.trans hartifact) (by simp)

/-- Only the own temporary file changes. -/
theorem spares_update {n : Nat} {content : Option Bytes} :
    Spares engine d
      { d with temps := Function.update d.temps ⟨s.hexHash, d.pid, n⟩ content } (some n) := by
  refine ⟨fun _ h => h, le_rfl, fun _ hexHash n' hne => ?_⟩
  refine Function.update_of_ne (fun heq => hne ?_) _ _
  rw [(TempName.mk.inj heq).2.2]

theorem deserializeFile_insert {hexHash hexHash' : Str} {content : Bytes}
    {temps : TempName → Option Bytes} :
    deserializeFile engine
      { d with cwasms := d.cwasms.insert hexHash content, temps := temps } hexHash' =
        if hexHash' = hexHash then engine.deserialize content
        else deserializeFile engine d hexHash' := by
  unfold deserializeFile
  rw [Table.get_insert]
  split_ifs <;> rfl

/-- What is renamed into place is the session's own artifact, which loads as the script
compiles. -/
theorem SessionOk.renamed (hs : SessionOk engine sha256 considered d s) (hlive : s.boot = d.boot)
    (hcwasms : ∀ hexHash m, deserializeFile engine d hexHash = .ok m →
      Compiled engine sha256 considered hexHash m)
    {b a content : Bytes} {n : Nat} {healing : Option μ} (hpc : s.pc = .published b a n healing)
    (hcontent : d.temps ⟨s.hexHash, d.pid, n⟩ = some content) :
    SessionStepOk engine sha256 considered d
      { d with
        cwasms := d.cwasms.insert s.hexHash content
        temps := Function.update d.temps ⟨s.hexHash, d.pid, n⟩ none }
      s (s.moved (.idle b healing) true) := by
  have hown : s.pc.artifact.map Prod.fst = some n := by rw [hpc]; rfl
  obtain rfl : a = content := by
    have hwritten := hs.written hlive n a (by rw [hpc]; rfl)
    exact Option.some.inj (hwritten.symm.trans hcontent)
  obtain ⟨-, m, hload, hm⟩ := hs.artifact n a (by rw [hpc]; rfl)
  refine ⟨fun hexHash m' hm' => ?_, .moved (fun b' hb' => ?_) (fun m' hm' => ?_) rfl fun _ => ?_,
    ⟨fun hexHash hloadable => ?_, le_rfl, ?_⟩, ⟨rfl, rfl⟩, Or.inr (Or.inl ⟨rfl, rfl⟩)⟩
  · rw [deserializeFile_insert] at hm'
    split_ifs at hm' with heq
    · rw [heq, ← Except.ok.inj (hload.symm.trans hm')]
      exact hm
    · exact hcwasms _ _ hm'
  · exact hs.script b' (by rw [hpc]; exact hb')
  · exact hs.chosen m' (by rw [hpc]; exact hm')
  · exact ⟨m, by rw [deserializeFile_insert, if_pos rfl, hload]⟩
  · unfold Loadable
    rw [deserializeFile_insert]
    split_ifs
    · exact ⟨m, hload⟩
    · exact hloadable
  · have hspares : Spares engine d { d with
        temps := Function.update d.temps ⟨s.hexHash, d.pid, n⟩ none } (some n) := spares_update
    rw [hown]
    exact hspares.temps

/-- What holds before a step of a live request holds after it. -/
theorem SessionStep.ok {d' : ScriptDir} {s' : Session μ}
    (hstep : SessionStep engine sha256 considered d s d' s')
    (hcwasms : ∀ hexHash m, deserializeFile engine d hexHash = .ok m →
      Compiled engine sha256 considered hexHash m)
    (hs : SessionOk engine sha256 considered d s) (hlive : s.boot = d.boot) :
    SessionStepOk engine sha256 considered d d' s s' := by
  have hconfirmed : ∀ {c : Bool}, (c = true → Loadable engine d s.hexHash) →
      (s.confirmed || c) = true → Loadable engine d s.hexHash := by
    intro c hc h
    rcases Bool.or_eq_true _ _ |>.mp h with h | h
    · exact hs.confirmed h
    · exact hc h
  have hunchanged : Spares engine d d (s.pc.artifact.map Prod.fst) :=
    ⟨fun _ h => h, le_rfl, fun _ _ _ _ => rfl⟩
  cases hstep with
  | stay => exact ⟨hcwasms, hs, hunchanged, ⟨rfl, rfl⟩, Or.inl ⟨rfl, rfl⟩⟩
  | fetch hscript hmodule hartifact =>
    refine ⟨hcwasms, .moved (fun b hb => ?_) (by simp [hmodule]) hartifact (hconfirmed (by simp)),
      ⟨fun _ h => h, le_rfl, fun _ _ _ _ => rfl⟩, ⟨rfl, rfl⟩, Or.inr (Or.inl ⟨hartifact, rfl⟩)⟩
    exact (hscript b hb).elim (hs.script b) id
  | @call b pc confirms hb hscript hartifact hmodule hconfirms =>
    have hb' := hs.script b hb
    refine ⟨hcwasms, .moved (fun b' hb' => ?_) (fun m hm => ?_) hartifact (hconfirmed hconfirms),
      hunchanged, ⟨rfl, rfl⟩, Or.inr (Or.inl ⟨hartifact, rfl⟩)⟩
    · rw [hscript] at hb'
      exact hs.script _ (hb.trans hb')
    · rcases hmodule m hm with hm | hm | hm
      · exact hs.chosen m hm
      · exact ⟨b, hb', hm⟩
      · exact hcwasms _ _ hm
  | @make b a healing m hb hcompile hload hmodule =>
    have hb' := hs.script b hb
    refine ⟨hcwasms, ⟨fun b' hb'' => ?_, fun m' hm' => ⟨b, hb', hmodule m' hm'⟩, fun n a' ha' => ?_,
      fun _ n a' ha' => ?_, hconfirmed (by simp)⟩, ⟨fun _ h => h, le_rfl, fun _ _ _ _ => rfl⟩,
      ⟨rfl, rfl⟩, Or.inr (Or.inr ⟨rfl, rfl⟩)⟩
    · obtain rfl := Option.some.inj hb''
      exact hb'
    · cases ha'
      exact ⟨hlive.le, m, hload, b, hb', hcompile⟩
    · cases ha'
  | @tear b a content n healing hpc =>
    have hown : s.pc.artifact.map Prod.fst = some n := by rw [hpc]; rfl
    refine ⟨hcwasms, ⟨hs.script, hs.chosen, hs.artifact, fun _ n' a' ha' => ?_,
      hconfirmed (by simp)⟩, hown ▸ spares_update, ⟨rfl, rfl⟩, Or.inl ⟨rfl, rfl⟩⟩
    rw [Session.moved, hpc] at ha'
    cases ha'
  | @write b a n healing hpc =>
    have hown : s.pc.artifact.map Prod.fst = some n := by rw [hpc]; rfl
    have hs' := hs
    rcases hs' with ⟨hscript, hmodule, hartifact, -, -⟩
    rw [hpc] at hscript hmodule hartifact
    refine ⟨hcwasms, ⟨hscript, hmodule, hartifact, fun _ n' a' ha' => ?_, hconfirmed (by simp)⟩,
      hown ▸ spares_update, ⟨rfl, rfl⟩, Or.inl ⟨hown.symm, rfl⟩⟩
    cases ha'
    exact Function.update_self _ _ _
  | @discard b a n healing hpc =>
    have hown : s.pc.artifact.map Prod.fst = some n := by rw [hpc]; rfl
    refine ⟨hcwasms, .moved (fun b' hb' => ?_) (fun m hm => ?_) rfl (hconfirmed (by simp)),
      hown ▸ spares_update, ⟨rfl, rfl⟩, Or.inr (Or.inl ⟨rfl, rfl⟩)⟩
    · exact hs.script b' (by rw [hpc]; exact hb')
    · exact hs.chosen m (by rw [hpc]; exact hm)
  | rename hpc hcontent => exact hs.renamed hlive hcwasms hpc hcontent

/-! ## Interleavings -/

/-- The held numbers, with one party apart. -/
theorem filterMap_held_perm {boot : Nat} {pre post : List (ScriptParty μ)} {t : ScriptParty μ} :
    ((pre ++ t :: post).filterMap (ScriptParty.held boot)).Perm
      ((t.held boot).toList ++ (pre ++ post).filterMap (ScriptParty.held boot)) := by
  rw [List.filterMap_append, List.filterMap_append, List.filterMap_cons]
  cases ht : t.held boot with
  | none => simp
  | some n => exact List.perm_middle

/-- No other party holds the number of the acting one. -/
theorem ScriptsOk.held_ne {pre post : List (ScriptParty μ)} {t q : ScriptParty μ}
    (h : ScriptsOk engine sha256 considered d (pre ++ t :: post)) (hq : q ∈ pre ++ post)
    (hheld : t.held d.boot ≠ none) : q.held d.boot ≠ t.held d.boot := by
  intro heq
  obtain ⟨n, hn⟩ := Option.ne_none_iff_exists'.mp hheld
  have hnodup := filterMap_held_perm.nodup_iff.mp h.distinct
  rw [hn, Option.toList_some, List.singleton_append, List.nodup_cons] at hnodup
  exact hnodup.1 (List.mem_filterMap.mpr ⟨q, hq, heq.trans hn⟩)

theorem ScriptsOk.session {pre post : List (ScriptParty μ)} (hlaw : engine.Lawful)
    (h : ScriptsOk engine sha256 considered d (pre ++ .session s :: post))
    (hashed : ∀ b ∈ hashedBy d (.session s) a, b ∈ considered) :
    ScriptsOk engine sha256 considered (sessionAct engine sha256 d s a).1
      (pre ++ .session (sessionAct engine sha256 d s a).2 :: post) := by
  by_cases hlive : s.boot = d.boot
  swap
  · rwa [sessionAct, if_pos hlive]
  have hstep := (sessionAct_step hlaw hlive hashed).ok h.cwasms
    (h.parties (.session s) (by simp)) hlive
  generalize (sessionAct engine sha256 d s a).1 = d' at hstep ⊢
  generalize (sessionAct engine sha256 d s a).2 = s' at hstep ⊢
  have hheld : (ScriptParty.session s).held d.boot = s.pc.artifact.map Prod.fst := if_pos hlive
  have hheld' : (ScriptParty.session s').held d'.boot = s'.pc.artifact.map Prod.fst :=
    if_pos (by rw [hstep.boot.1, hstep.boot.2, hlive])
  have hrest : ∀ n ∈ (pre ++ post).filterMap (ScriptParty.held d.boot), n < d.seq := by
    intro n hn
    exact h.below n (filterMap_held_perm.mem_iff.mpr (List.mem_append_right _ hn))
  have hnodup := filterMap_held_perm.nodup_iff.mp h.distinct
  have hbelow := fun n hn => h.below n (filterMap_held_perm.mem_iff.mpr hn)
  rw [hheld] at hnodup hbelow
  refine ⟨hstep.cwasms, fun t ht => ?_, ?_, ?_⟩
  · rcases List.mem_cons.mp (List.perm_middle.mem_iff.mp ht) with rfl | hq
    · exact hstep.session
    · have hok := h.parties t (List.perm_middle.mem_iff.mpr (List.mem_cons_of_mem _ hq))
      cases t with
      | environment => trivial
      | session q =>
        have hok : SessionOk engine sha256 considered d q := hok
        refine hok.spares hstep.spares fun hown => ?_
        rw [← hheld] at hown ⊢
        exact h.held_ne hq hown
  · rw [filterMap_held_perm.nodup_iff, hheld', hstep.boot.1]
    rcases hstep.held with ⟨heq, -⟩ | ⟨hnone, -⟩ | ⟨hnew, -⟩
    · rwa [heq]
    · rw [hnone]
      exact hnodup.of_append_right
    · rw [hnew, Option.toList_some, List.singleton_append, List.nodup_cons]
      exact ⟨fun hmem => lt_irrefl _ (hrest _ hmem), hnodup.of_append_right⟩
  · intro n hn
    rw [filterMap_held_perm.mem_iff, hheld', hstep.boot.1] at hn
    rcases hstep.held with ⟨heq, hseq⟩ | ⟨hnone, hseq⟩ | ⟨hnew, hseq⟩ <;> rw [hseq]
    · rw [heq] at hn
      exact hbelow n hn
    · rw [hnone] at hn
      exact hrest n (by simpa using hn)
    · rw [hnew, Option.toList_some, List.singleton_append, List.mem_cons] at hn
      rcases hn with rfl | hn
      · exact Nat.lt_succ_self _
      · exact Nat.lt_succ_of_lt (hrest n hn)

/-- The environment changes scripts, or ends the life of a process and of its requests. -/
theorem ScriptsOk.environment {pre post : List (ScriptParty μ)}
    (h : ScriptsOk engine sha256 considered d (pre ++ .environment :: post)) :
    ScriptsOk engine sha256 considered (environmentAct d a) (pre ++ .environment :: post) := by
  have hspares : ∀ {d' : ScriptDir}, Spares engine d d' none →
      ∀ t ∈ pre ++ ScriptParty.environment :: post, t.Ok engine sha256 considered d' := by
    intro d' hspares t ht
    cases t with
    | environment => trivial
    | session q =>
      have hok : SessionOk engine sha256 considered d q := h.parties _ ht
      exact hok.spares hspares fun hne => absurd rfl hne
  cases a with
  | corrupt hexHash content =>
    cases content <;>
      exact ⟨h.cwasms, hspares ⟨fun _ h => h, le_rfl, fun _ _ _ _ => rfl⟩, h.distinct, h.below⟩
  | crash pid =>
    have hnone : (pre ++ ScriptParty.environment :: post).filterMap
        (ScriptParty.held (d.boot + 1)) = [] := by
      refine List.filterMap_eq_nil_iff.mpr fun t ht => ?_
      cases t with
      | environment => rfl
      | session q =>
        have hok : SessionOk engine sha256 considered d q := h.parties _ ht
        rw [ScriptParty.held]
        split_ifs with hboot
        · cases hartifact : q.pc.artifact with
          | none => rfl
          | some w =>
            have hle := (hok.artifact w.1 w.2 hartifact).1
            omega
        · rfl
    refine ⟨h.cwasms, hspares ⟨fun _ h => h, Nat.le_succ _, fun hboot => ?_⟩, ?_, ?_⟩
    · exact absurd hboot (Nat.succ_ne_self _)
    · change (List.filterMap (ScriptParty.held (d.boot + 1)) _).Nodup
      rw [hnone]
      exact List.nodup_nil
    · change ∀ n ∈ List.filterMap (ScriptParty.held (d.boot + 1)) _, n < 0
      rw [hnone]
      simp
  | _ => exact h

/-- Every interleaving keeps the invariant. -/
theorem always_scriptsOk (hlaw : engine.Lawful) {is : List (Input ScriptCall ScriptAction)}
    {st : System ScriptDir (ScriptParty μ)}
    (hst : ScriptsOk engine sha256 considered st.shared st.threads)
    (hashed : Along (step (scriptProgram engine sha256))
      (onActs fun d t a => ∀ b ∈ hashedBy d t a, b ∈ considered) st is) :
    Always (step (scriptProgram engine sha256))
      (fun st => ScriptsOk engine sha256 considered st.shared st.threads) st is := by
  refine always_of_acts _ (fun d ts call h => ?_) (fun d pre t post a h hok => ?_) hst hashed
  · have hheld : ((scriptProgram engine sha256).start call).held d.boot = none := by
      cases call with
      | request boot url hexHash => exact ite_self none
      | environment => rfl
    have hfilter : (ts ++ [(scriptProgram engine sha256).start call]).filterMap
        (ScriptParty.held d.boot) = ts.filterMap (ScriptParty.held d.boot) := by
      simp [hheld]
    refine ⟨h.cwasms, fun t ht => ?_, hfilter ▸ h.distinct, hfilter ▸ h.below⟩
    rcases List.mem_append.mp ht with ht | ht
    · exact h.parties t ht
    · rw [List.mem_singleton.mp ht]
      cases call with
      | request boot url hexHash =>
        have hstart : SessionOk engine sha256 considered d
            (Session.moved ⟨boot, url, hexHash, .start, false⟩ .start false) :=
          .moved (by simp [ScriptPc.script]) (by simp [ScriptPc.chosen]) rfl (by simp)
        exact hstart
      | environment => trivial
  · cases t with
    | session s => exact h.session hlaw hok
    | environment => exact h.environment

variable (engine sha256)

/-- A module that was run for a hash is the compilation of the script with that hash, and a
file that was confirmed can be loaded. -/
structure CachesTransparent (st : System ScriptDir (ScriptParty μ)) : Prop where
  compiled : ∀ s, .session s ∈ st.threads → ∀ b m, s.pc = .idle b (some m) →
    decodeHash s.hexHash = .ok (sha256 b) ∧ engine.compile b = .ok m
  loadable : ∀ s, .session s ∈ st.threads → s.confirmed = true →
    Loadable engine st.shared s.hexHash

end Transparent

/-- The caches are transparent in every interleaving, whatever the script files held at the
start and if the engine can load none of the `.cwasm` files. -/
theorem cachesTransparent {μ : Type} (engine : Engine μ) (hlaw : engine.Lawful)
    (sha256 : Bytes → Bytes) (considered : Set Bytes) (hinj : Set.InjOn sha256 considered)
    (d : ScriptDir) (hcwasms : ∀ hexHash, ¬Loadable engine d hexHash)
    (is : List (Input ScriptCall ScriptAction))
    (hashed : Along (step (scriptProgram engine sha256))
      (onActs fun d t a => ∀ b ∈ hashedBy d t a, b ∈ considered) ⟨d, []⟩ is) :
    Always (step (scriptProgram engine sha256)) (CachesTransparent engine sha256) ⟨d, []⟩ is := by
  have hst : ScriptsOk engine sha256 considered d [] :=
    ⟨fun hexHash m hm => absurd ⟨m, hm⟩ (hcwasms hexHash), by simp, by simp, by simp⟩
  refine (always_scriptsOk hlaw hst hashed).imp fun st h => ⟨fun s hs b m hpc => ?_, fun s hs => ?_⟩
  · have hok : SessionOk engine sha256 considered st.shared s := h.parties _ hs
    have hscript := hok.script b (by rw [hpc]; rfl)
    obtain ⟨b', hscript', hm⟩ := hok.chosen m (by rw [hpc]; rfl)
    have hhash : sha256 b' = sha256 b := Except.ok.inj (hscript'.1.symm.trans hscript.1)
    rw [hinj hscript'.2 hscript.2 hhash] at hm
    exact ⟨hscript.1, hm⟩
  · have hok : SessionOk engine sha256 considered st.shared s := h.parties _ hs
    exact hok.confirmed

/-- The empty module. -/
def sampleWasm : Bytes :=
  [0, 97, 115, 109, 1, 0, 0, 0]

/-- SHA-256 on the empty module. -/
def sampleDigest (b : Bytes) : Bytes :=
  if b = sampleWasm then
    [147, 164, 75, 187, 150, 199, 81, 33, 142, 76, 0, 212, 121, 228, 193, 67, 88, 18, 42, 56, 154,
      204, 161, 98, 5, 177, 228, 208, 220, 95, 148, 118]
  else []

def sampleHexHash : Str :=
  "93a44bbb96c751218e4c00d479e4c14358122a389acca16205b1e4d0dc5f9476".toList

def sampleScriptUrl : Str :=
  "https://raw.githubusercontent.com/relational-network/drt-scripts/main/mean.wasm".toList

/-- An engine whose artifacts are the script behind a mark. -/
def sampleEngine : Engine Bytes where
  compile b := if b.take 4 = [0, 97, 115, 109] then .ok b else .error "magic header not detected"
  precompileModule b :=
    if b.take 4 = [0, 97, 115, 109] then .ok (127 :: b) else .error "magic header not detected"
  serialize m := .ok (127 :: m)
  deserialize
    | 127 :: m => .ok m
    | _ => .error "failed to parse precompiled artifact as an ELF"

theorem lawful_sampleEngine : sampleEngine.Lawful := by
  refine ⟨fun {b a} h => ?_, fun {b m a} _ h => ?_⟩
  · simp only [sampleEngine] at h ⊢
    split_ifs at h with hmagic
    rw [← Except.ok.inj h]
    exact ⟨b, if_pos hmagic, rfl⟩
  · rw [← Except.ok.inj h]
    rfl

/-- An empty directory. -/
def sampleScriptDir : ScriptDir :=
  ⟨Table.empty, Table.empty, Table.empty, fun _ => none, 0, 1, 0⟩

/-- A request is interrupted by a crash while it writes the artifact. The one after it finds
the script in the cache, compiles it, and runs the module it loads. -/
def sampleScriptRun : List (Input ScriptCall ScriptAction) :=
  [.spawn .environment, .spawn (.request 0 sampleScriptUrl sampleHexHash), .run 1 (.load true),
    .run 1 (.reply (.response 200 sampleWasm)), .run 1 (.write (.ok ())),
    .run 1 (.rename (.ok ())), .run 1 .ensure, .run 1 (.tear [127, 0]), .run 0 (.crash 1),
    .spawn (.request 1 sampleScriptUrl sampleHexHash), .run 2 (.load true), .run 2 .ensure,
    .run 2 (.write (.ok ())), .run 1 (.tear [0]), .run 2 (.rename (.ok ())), .run 2 .execute,
    .run 2 .deserialize]

example : ((exec (step (scriptProgram sampleEngine sampleDigest)) ⟨sampleScriptDir, []⟩
    sampleScriptRun).threads.map fun
      | .session s => (s.pc.script, s.pc.chosen, s.confirmed)
      | .environment => (none, none, false)) =
    [(none, none, false), (some sampleWasm, none, false),
      (some sampleWasm, some sampleWasm, true)] := by
  decide +kernel

theorem cachesTransparent_restarted :
    sampleEngine.Lawful ∧ (∀ hexHash, ¬Loadable sampleEngine sampleScriptDir hexHash) ∧
      Always (step (scriptProgram sampleEngine sampleDigest))
        (CachesTransparent sampleEngine sampleDigest) ⟨sampleScriptDir, []⟩ sampleScriptRun := by
  have hcwasms : ∀ hexHash, ¬Loadable sampleEngine sampleScriptDir hexHash := by
    rintro hexHash ⟨m, hm⟩
    cases hm
  have hashed : Along (step (scriptProgram sampleEngine sampleDigest))
      (onActs fun d t a => ∀ b ∈ hashedBy d t a, b = sampleWasm) ⟨sampleScriptDir, []⟩
      sampleScriptRun := by
    decide +kernel
  refine ⟨lawful_sampleEngine, hcwasms, ?_⟩
  exact cachesTransparent sampleEngine lawful_sampleEngine sampleDigest {sampleWasm}
    (Set.injOn_singleton _ _) sampleScriptDir hcwasms sampleScriptRun hashed

end RelationalSdk
