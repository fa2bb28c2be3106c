import RelationalSdk.Base64
import RelationalSdk.Domain
import RelationalSdk.Fallible
import RelationalSdk.Threads

/-!
# Token validation

A request is authorised by a token that the attestation service has signed. The service publishes
its keys, and `get_decoding_keys` keeps what it fetched for five minutes. Requests that find the
cache empty or old fetch the keys at the same time, and each writes what it fetched : a slow answer
replaces a newer one and counts as fetched when it is written.

The service is a function of time, so a key may be withdrawn or replaced at any moment.
`authProgram` runs any number of requests against it, and `authorized_of_prompt` says what a request
that passes an extractor has shown, in every interleaving : the token names a key that the service
published under that name, not longer ago than the lifetime of the cache and the time that an answer
takes to be written; the key verifies the token; the token names the public key of this enclave, and
its role is one that the extractor admits. The name of the public key is exact, so no token is
accepted by two enclaves (`publicKey_eq_of_validateWith`).
-/

namespace RelationalSdk

open Text Base64 Fallible Runs Threads

/-! ## Keys and tokens -/

/-- A key in JSON. -/
structure Jwk where
  kty : Str
  crv : Option Str
  x : Option Str
  y : Option Str
  n : Option Str
  e : Option Str
  use_ : Option Str
  alg : Option Str
  kid : Option Str
  deriving DecidableEq

/-- A P-256 key as an uncompressed point. -/
structure PublicKey where
  encoded : List.Vector UInt8 65
  uncompressed : encoded.head = 4

/-- `jwk_for_public_key`. -/
def jwkForPublicKey (sha256 : Bytes → Bytes) (publicKey : PublicKey) : Jwk :=
  let bytes := publicKey.encoded.toList
  { kty := "EC".toList
    crv := some "P-256".toList
    x := some (urlSafeNoPad.encode ((bytes.drop 1).take 32))
    y := some (urlSafeNoPad.encode ((bytes.drop 33).take 32))
    n := none
    e := none
    use_ := some "enc".toList
    alg := some "ECDH-ES".toList
    kid := some (urlSafeNoPad.encode (sha256 bytes)) }

/-- `AttestationClaims`. -/
structure AttestationClaims where
  iss : Str
  sub : Str
  aud : Option Str
  exp : UInt64
  iat : UInt64
  role : Option Str
  nonce : Option Str
  enclavePublicKey : Option Jwk

inductive Algorithm where
  | hs256 | hs384 | hs512 | es256 | es384 | rs256 | rs384 | rs512 | ps256 | ps384 | ps512 | edDSA
  deriving DecidableEq

/-- What `decode` is asked to check besides the signature. -/
structure Validation where
  algorithm : Algorithm
  audience : List Str
  issuer : List Str
  validateExp : Bool

/-- The crate `jsonwebtoken`, with its decoding keys. -/
structure JwtCrate (κ : Type) where
  fromEcComponents : Str → Str → Except String κ
  /-- The `kid` of the header of a token. -/
  decodeHeader : Str → Except String (Option Str)
  verifySignature : Str → κ → Algorithm → Except String Unit
  /-- The claims that a token holds, whoever has signed it. -/
  claims : Str → Except String AttestationClaims
  /-- The claims against the clock and the expected audience and issuer. -/
  validate : Nat → Str → Validation → Except String Unit

/-- `decode` at a time. -/
def JwtCrate.decode {κ : Type} (jwt : JwtCrate κ) (unixNow : Nat) (token : Str) (key : κ)
    (validation : Validation) : Except String AttestationClaims := do
  jwt.verifySignature token key validation.algorithm
  let claims ← jwt.claims token
  jwt.validate unixNow token validation
  pure claims

/-- What the validation rests on : the crates, what the service answers at each time, and the key
and the audience of this enclave. -/
structure AuthEnv (κ : Type) where
  jwt : JwtCrate κ
  sha256 : Bytes → Bytes
  /-- A status code as it is displayed. -/
  statusText : Nat → String
  parseJwks : Bytes → Except String (List Jwk)
  avs : Nat → HttpReply
  publicKey : PublicKey
  audience : Str

/-- Validated token data. -/
structure TokenData where
  sub : Str
  role : Str
  deriving DecidableEq

/-- `TokenData::has_role`. -/
def TokenData.hasRole (token : TokenData) (required : String) : Bool :=
  match required with
  | "read_only" =>
    token.role ∈ ["admin".toList, "user".toList, "analyst".toList, "read_only".toList]
  | "analyst" => token.role ∈ ["admin".toList, "user".toList, "analyst".toList]
  | "user" => token.role ∈ ["admin".toList, "user".toList]
  | "admin" => token.role = "admin".toList
  | _ => false

/-- `AVS_ISSUER`. -/
def avsIssuer : Str :=
  "attestation-verification-service".toList

/-- `JWKS_CACHE_TTL_SECS`. -/
def jwksCacheTtlSecs : Nat :=
  300

section Validation

variable {κ : Type} (env : AuthEnv κ)

/-- The entry for a published key : only EC keys are taken. -/
def decodingKey (jwk : Jwk) : Option (Str × κ) :=
  if jwk.kty = "EC".toList then
    match jwk.x, jwk.y with
    | some x, some y =>
      match env.jwt.fromEcComponents x y with
      | .ok key => some (jwk.kid.getD [], key)
      | .error _ => none
    | _, _ => none
  else none

/-- `fetch_jwks`, by what the service answers. -/
def fetchJwks : HttpReply → Except String (List (Str × κ))
  | .failed e => .error s!"failed to fetch JWKS: {e}"
  | .response status body =>
    if ¬(200 ≤ status ∧ status < 300) then
      let shown := env.statusText status
      .error s!"JWKS fetch returned HTTP {shown}"
    else
      match env.parseJwks body with
      | .error e => .error s!"failed to parse JWKS: {e}"
      | .ok jwks => .ok (jwks.filterMap (decodingKey env))

/-- The token is bound to this enclave. -/
def keyMatches (tokenKey actual : Jwk) : Bool :=
  tokenKey.x = actual.x && tokenKey.y = actual.y && tokenKey.x.isSome && tokenKey.y.isSome

/-- `validate_token` behind `get_decoding_keys`. -/
def validateWith (keys : List (Str × κ)) (unixNow : Nat) (token : Str) :
    Except String TokenData := do
  require (keys ≠ []) "no valid keys in JWKS"
  let headerKid ← (env.jwt.decodeHeader token).mapError fun e => s!"invalid token header: {e}"
  let kid ← okOr (headerKid.filter (· ≠ [])) "token header missing kid"
  let entry ← okOr (keys.find? (·.1 = kid)) s!"no key found for kid: {String.ofList kid}"
  let claims ← (env.jwt.decode unixNow token entry.2
    ⟨.es256, [env.audience], [avsIssuer], true⟩).mapError fun e => s!"token validation failed: {e}"
  let tokenKey ← okOr claims.enclavePublicKey "token missing required enclave_public_key claim"
  require (keyMatches tokenKey (jwkForPublicKey env.sha256 env.publicKey))
    "token is not bound to this enclave"
  pure ⟨claims.sub, claims.role.getD "read_only".toList⟩

end Validation

/-! ## Extractors -/

/-- A refusal : a status and the text under `error`. -/
structure Rejection where
  status : Nat
  error : String
  deriving DecidableEq

/-- The token in the header. -/
def bearerToken (authorization : Option Str) : Except Rejection Str := do
  let header ← okOr authorization ⟨401, "missing authorization header"⟩
  require ("Bearer ".toList.isPrefixOf header) ⟨401, "invalid authorization header format"⟩
  pure (header.drop 7)

/-- What a role-based extractor does with a valid token. -/
def requireRole (role : String) (token : TokenData) : Except Rejection TokenData := do
  require (token.hasRole role) ⟨403, s!"{role} role required"⟩
  pure token

def adminToken : TokenData → Except Rejection TokenData :=
  requireRole "admin"

def userToken : TokenData → Except Rejection TokenData :=
  requireRole "user"

def analystToken : TokenData → Except Rejection TokenData :=
  requireRole "analyst"

def readOnlyToken : TokenData → Except Rejection TokenData :=
  requireRole "read_only"

/-- The extractors of the handlers. -/
inductive Extractor where
  | admin
  | user
  | analyst
  | readOnly
  deriving DecidableEq

def Extractor.fromToken : Extractor → TokenData → Except Rejection TokenData
  | .admin => adminToken
  | .user => userToken
  | .analyst => analystToken
  | .readOnly => readOnlyToken

/-- The role that an extractor asks for. -/
def Extractor.role : Extractor → String
  | .admin => "admin"
  | .user => "user"
  | .analyst => "analyst"
  | .readOnly => "read_only"

theorem Extractor.fromToken_eq_ok_iff {x : Extractor} {token data : TokenData} :
    x.fromToken token = .ok data ↔ token.hasRole x.role ∧ token = data := by
  have hrole : x.fromToken token = requireRole x.role token := by cases x <;> rfl
  simp only [hrole, requireRole, bind_eq_ok_iff, require_eq_ok_iff, pure_eq_ok_iff, exists_const]

/-! ## Requests -/

/-- What is kept of the published keys. -/
structure JwksCache (κ : Type) where
  keys : List (Str × κ)
  fetchedAt : Nat

/-- The monotonic clock in nanoseconds, and the cache. -/
structure AuthWorld (κ : Type) where
  now : Nat
  jwksCache : Option (JwksCache κ)

/-- Where a request is. An answer of the service goes with the time at which it was given. -/
inductive AuthPc (κ : Type) where
  | arrived
  /-- `fetch_jwks` is waiting for the service. -/
  | fetching (token : Str)
  /-- The service has answered. -/
  | answered (token : Str) (reply : HttpReply) (servedAt : Nat)
  /-- Before the cache is written. -/
  | storing (token : Str) (keys : List (Str × κ)) (servedAt : Nat)
  /-- Decided at a time, by both clocks. -/
  | decided (time unixNow : Nat) (result : Except Rejection TokenData)

structure AuthCall where
  authorization : Option Str
  extractor : Extractor

structure AuthRequest (κ : Type) where
  call : AuthCall
  pc : AuthPc κ

inductive AuthAction where
  /-- Time passes. -/
  | elapse (d : Nat)
  /-- The header is read, and then the cache. -/
  | read (unixNow : Nat)
  | serve
  /-- `fetch_jwks` returns. -/
  | receive (unixNow : Nat)
  /-- The cache is written. -/
  | store (unixNow : Nat)

section Requests

variable {κ : Type} (env : AuthEnv κ)

/-- The keys in the cache, unless they are too old. -/
def cachedKeys (w : AuthWorld κ) : Option (List (Str × κ)) :=
  match w.jwksCache with
  | some c => if (w.now - c.fetchedAt) / 10 ^ 9 < jwksCacheTtlSecs then some c.keys else none
  | none => none

/-- The answer to every token that is not valid. -/
def invalidToken : Rejection :=
  ⟨401, "invalid or expired token"⟩

/-- `from_request_parts`, once there are keys. -/
def extract (x : Extractor) (keys : List (Str × κ)) (unixNow : Nat) (token : Str) :
    Except Rejection TokenData := do
  let data ← (validateWith env keys unixNow token).mapError fun _ => invalidToken
  x.fromToken data

/-- What an action does to a request, if it can happen now. -/
def authNext (w : AuthWorld κ) (call : AuthCall) :
    AuthPc κ → AuthAction → Option (AuthWorld κ × AuthPc κ)
  | pc, .elapse d => some ({ w with now := w.now + d }, pc)
  | .arrived, .read unixNow =>
    match bearerToken call.authorization with
    | .error e => some (w, .decided w.now unixNow (.error e))
    | .ok token =>
      match cachedKeys w with
      | some keys =>
        some (w, .decided w.now unixNow (extract env call.extractor keys unixNow token))
      | none => some (w, .fetching token)
  | .fetching token, .serve => some (w, .answered token (env.avs w.now) w.now)
  | .answered token reply servedAt, .receive unixNow =>
    match fetchJwks env reply with
    | .error _ => some (w, .decided w.now unixNow (.error invalidToken))
    | .ok keys => some (w, .storing token keys servedAt)
  | .storing token keys _, .store unixNow =>
    some ({ w with jwksCache := some ⟨keys, w.now⟩ },
      .decided w.now unixNow (extract env call.extractor keys unixNow token))
  | _, _ => none

/-- One action of a request. An action that is not possible now does nothing. -/
def authAct (w : AuthWorld κ) (r : AuthRequest κ) (a : AuthAction) :
    AuthWorld κ × AuthRequest κ :=
  match authNext env w r.call r.pc a with
  | some (w', pc) => (w', { r with pc := pc })
  | none => (w, r)

/-- Requests on one enclave. -/
def authProgram : Program (AuthWorld κ) AuthCall (AuthRequest κ) AuthAction :=
  ⟨fun call => ⟨call, .arrived⟩, authAct env⟩

/-- The enclave as it starts. -/
def authInit : System (AuthWorld κ) (AuthRequest κ) :=
  ⟨⟨0, none⟩, []⟩

end Requests

/-! ## What a valid token shows -/

section Shown

variable {κ : Type} {env : AuthEnv κ}

/-- The token is verified by the key `kid` out of a list of published keys, and is for this
enclave. -/
structure Verified (env : AuthEnv κ) (jwks : List Jwk) (unixNow : Nat) (token : Str)
    (data : TokenData) : Prop where
  exists_key : ∃ jwk ∈ jwks, ∃ kid x y key claims tokenKey,
    jwk.kty = "EC".toList ∧ jwk.x = some x ∧ jwk.y = some y ∧ jwk.kid = some kid ∧ kid ≠ [] ∧
    env.jwt.decodeHeader token = .ok (some kid) ∧ env.jwt.fromEcComponents x y = .ok key ∧
    env.jwt.decode unixNow token key ⟨.es256, [env.audience], [avsIssuer], true⟩ = .ok claims ∧
    claims.enclavePublicKey = some tokenKey ∧
    tokenKey.x = (jwkForPublicKey env.sha256 env.publicKey).x ∧
    tokenKey.y = (jwkForPublicKey env.sha256 env.publicKey).y ∧
    data = ⟨claims.sub, claims.role.getD "read_only".toList⟩

/-- Where a key comes from. -/
theorem decodingKey_eq_some {jwk : Jwk} {kid : Str} {key : κ}
    (h : decodingKey env jwk = some (kid, key)) (hkid : kid ≠ []) :
    ∃ x y, jwk.kty = "EC".toList ∧ jwk.x = some x ∧ jwk.y = some y ∧ jwk.kid = some kid ∧
      env.jwt.fromEcComponents x y = .ok key := by
  unfold decodingKey at h
  split_ifs at h with hkty
  split at h
  · next x y hx hy =>
    split at h
    · next key' hkey =>
      obtain ⟨hk, rfl⟩ := Prod.mk.inj (Option.some_inj.mp h)
      refine ⟨x, y, hkty, hx, hy, ?_, hkey⟩
      cases hj : jwk.kid with
      | none =>
        rw [hj] at hk
        exact absurd hk.symm hkid
      | some k =>
        rw [hj] at hk
        exact congrArg some hk
    · exact absurd h (by simp)
  · exact absurd h (by simp)

theorem keyMatches_iff {tokenKey actual : Jwk} :
    keyMatches tokenKey actual ↔ tokenKey.x = actual.x ∧ tokenKey.y = actual.y ∧
      tokenKey.x.isSome ∧ tokenKey.y.isSome := by
  simp [keyMatches, and_assoc]

/-- The steps of a validation that succeeds. -/
theorem validateWith_eq_ok_iff {keys : List (Str × κ)} {unixNow : Nat} {token : Str}
    {data : TokenData} :
    validateWith env keys unixNow token = .ok data ↔
      keys ≠ [] ∧ ∃ headerKid, env.jwt.decodeHeader token = .ok headerKid ∧
      ∃ kid, headerKid.filter (· ≠ []) = some kid ∧
      ∃ entry, keys.find? (·.1 = kid) = some entry ∧
      ∃ claims, env.jwt.decode unixNow token entry.2
        ⟨.es256, [env.audience], [avsIssuer], true⟩ = .ok claims ∧
      ∃ tokenKey, claims.enclavePublicKey = some tokenKey ∧
        keyMatches tokenKey (jwkForPublicKey env.sha256 env.publicKey) ∧
        (⟨claims.sub, claims.role.getD "read_only".toList⟩ : TokenData) = data := by
  simp only [validateWith, bind_eq_ok_iff, require_eq_ok_iff, okOr_eq_ok_iff, mapError_eq_ok_iff,
    pure_eq_ok_iff, exists_const]

theorem verified_of_validateWith {jwks : List Jwk} {unixNow : Nat} {token : Str} {data : TokenData}
    (h : validateWith env (jwks.filterMap (decodingKey env)) unixNow token = .ok data) :
    Verified env jwks unixNow token data := by
  obtain ⟨-, headerKid, hheader, kid, hkid, ⟨kid', key⟩, hfind, claims, hclaims, tokenKey,
    htokenKey, hmatches, rfl⟩ := validateWith_eq_ok_iff.mp h
  obtain ⟨rfl, hne⟩ := Option.filter_eq_some_iff.mp hkid
  obtain rfl : kid' = kid := by simpa using List.find?_some hfind
  obtain ⟨jwk, hjwk, hentry⟩ := List.mem_filterMap.mp (List.mem_of_find?_eq_some hfind)
  have hkid : kid' ≠ [] := of_decide_eq_true hne
  obtain ⟨x, y, hkty, hx, hy, hjkid, hkey⟩ := decodingKey_eq_some hentry hkid
  obtain ⟨hx', hy', -, -⟩ := keyMatches_iff.mp hmatches
  exact ⟨jwk, hjwk, kid', x, y, key, claims, tokenKey, hkty, hx, hy, hjkid, hkid, hheader, hkey,
    hclaims, htokenKey, hx', hy', rfl⟩

/-- A key that was fetched is one that the service answered with. -/
theorem exists_jwks_of_fetchJwks {reply : HttpReply} {keys : List (Str × κ)}
    (h : fetchJwks env reply = .ok keys) :
    ∃ status body jwks, reply = .response status body ∧ 200 ≤ status ∧ status < 300 ∧
      env.parseJwks body = .ok jwks ∧ keys = jwks.filterMap (decodingKey env) := by
  cases reply with
  | failed e => exact absurd h (by simp [fetchJwks])
  | response status body =>
    unfold fetchJwks at h
    simp only [ite_not] at h
    split_ifs at h with hstatus
    split at h
    · exact absurd h (by simp)
    · next jwks hjwks =>
      exact ⟨status, body, jwks, rfl, hstatus.1, hstatus.2, hjwks, (Except.ok.inj h).symm⟩

end Shown

/-! ## An enclave -/

def samplePublicKey : PublicKey :=
  ⟨4 ::ᵥ .replicate 64 1, rfl⟩

/-- The key that the service signs with at first. -/
def signingJwk : Jwk :=
  ⟨"EC".toList, some "P-256".toList, some "x".toList, some "y".toList, none, none, none, none,
    some "key-1".toList⟩

/-- A crate for which every token is one of the service, for an analyst. -/
def sampleJwt : JwtCrate (Str × Str) where
  fromEcComponents x y := .ok (x, y)
  decodeHeader _ := .ok (some "key-1".toList)
  verifySignature _ key _ :=
    if key = ("x".toList, "y".toList) then .ok () else .error "InvalidSignature"
  claims _ := .ok ⟨avsIssuer, "analyst-1".toList, none, 0, 0, some "analyst".toList, none,
    some (jwkForPublicKey id samplePublicKey)⟩
  validate _ _ _ := .ok ()

/-- The service withdraws its key after a second. -/
def sampleAuthEnv : AuthEnv (Str × Str) where
  jwt := sampleJwt
  sha256 := id
  statusText := toString
  parseJwks body := .ok (if body = [1] then [signingJwk] else [])
  avs t := if t < 10 ^ 9 then .response 200 [1] else .response 200 []
  publicKey := samplePublicKey
  audience := "relational-sdk".toList

def analystCall : AuthCall :=
  ⟨some "Bearer token".toList, .analyst⟩

/-- An answer that takes nine seconds, and a second request five minutes after it was given. -/
def lateRequest : List (Input AuthCall AuthAction) :=
  [.spawn analystCall, .run 0 (.read 0), .run 0 .serve, .run 0 (.elapse (9 * 10 ^ 9)),
    .run 0 (.receive 0), .run 0 (.store 0), .run 0 (.elapse (296 * 10 ^ 9)), .spawn analystCall,
    .run 1 (.read 0)]

/-! ## Every interleaving -/

section Interleavings

variable {κ : Type} (env : AuthEnv κ) (delay : Nat)

/-- What a request has shown that was admitted at a time : its token is verified by a key that the
service published before, and no longer ago than the cache keeps keys and an answer is on its
way. -/
structure Authorized (call : AuthCall) (time unixNow : Nat) (data : TokenData) : Prop where
  hasRole : data.hasRole call.extractor.role
  exists_publication : ∃ token servedAt status body jwks,
    call.authorization = some ("Bearer ".toList ++ token) ∧
    servedAt ≤ time ∧ time < servedAt + delay + jwksCacheTtlSecs * 10 ^ 9 ∧
    env.avs servedAt = .response status body ∧ env.parseJwks body = .ok jwks ∧
    Verified env jwks unixNow token data

/-- What is about to be stored was given by the service a short while ago. -/
def AuthPc.Recent (now : Nat) : AuthPc κ → Prop
  | .storing _ _ servedAt => now ≤ servedAt + delay
  | _ => True

instance (now : Nat) : ∀ pc : AuthPc κ, Decidable (pc.Recent delay now)
  | .storing _ _ _ => inferInstanceAs (Decidable (_ ≤ _))
  | .arrived | .fetching _ | .answered _ _ _ | .decided _ _ _ => .isTrue trivial

/-- An answer of the service is in the cache soon after it was given. -/
def Prompt (w : AuthWorld κ) (r : AuthRequest κ) : AuthAction → Prop
  | .store _ => r.pc.Recent delay w.now
  | _ => True

instance (w : AuthWorld κ) (r : AuthRequest κ) : ∀ a, Decidable (Prompt delay w r a)
  | .store _ => inferInstanceAs (Decidable (r.pc.Recent delay w.now))
  | .elapse _ | .read _ | .serve | .receive _ => .isTrue trivial

/-- The keys are those that the service published at a time. -/
def Served (keys : List (Str × κ)) (servedAt : Nat) : Prop :=
  fetchJwks env (env.avs servedAt) = .ok keys

/-- The cache holds an answer that was written soon. -/
def CacheOk (w : AuthWorld κ) : Prop :=
  ∀ c, w.jwksCache = some c → c.fetchedAt ≤ w.now ∧
    ∃ servedAt, Served env c.keys servedAt ∧ servedAt ≤ c.fetchedAt ∧
      c.fetchedAt ≤ servedAt + delay

/-- What a request knows where it is. -/
def AuthPcOk (now : Nat) (call : AuthCall) : AuthPc κ → Prop
  | .arrived => True
  | .fetching token => bearerToken call.authorization = .ok token
  | .answered token reply servedAt =>
    bearerToken call.authorization = .ok token ∧ reply = env.avs servedAt ∧ servedAt ≤ now
  | .storing token keys servedAt =>
    bearerToken call.authorization = .ok token ∧ Served env keys servedAt ∧ servedAt ≤ now
  | .decided time unixNow result =>
    ∀ data, result = .ok data → Authorized env delay call time unixNow data

variable {env delay}

theorem bearerToken_eq_ok {authorization : Option Str} {token : Str}
    (h : bearerToken authorization = .ok token) :
    authorization = some ("Bearer ".toList ++ token) := by
  simp only [bearerToken, bind_eq_ok_iff, okOr_eq_ok_iff, require_eq_ok_iff, pure_eq_ok_iff,
    exists_const, List.isPrefixOf_iff_prefix] at h
  obtain ⟨header, rfl, ⟨rest, rfl⟩, rfl⟩ := h
  rfl

theorem AuthPcOk.mono {now now' : Nat} (hnow : now ≤ now') {call : AuthCall} {pc : AuthPc κ}
    (h : AuthPcOk env delay now call pc) : AuthPcOk env delay now' call pc := by
  cases pc with
  | arrived => exact h
  | fetching token => exact h
  | answered token reply servedAt => exact ⟨h.1, h.2.1, h.2.2.trans hnow⟩
  | storing token keys servedAt => exact ⟨h.1, h.2.1, h.2.2.trans hnow⟩
  | decided time unixNow result => exact h

/-- A request that is admitted with keys that were published not too long ago. -/
theorem authorized_of_extract {call : AuthCall} {token : Str} {keys : List (Str × κ)}
    {servedAt time unixNow : Nat} {data : TokenData}
    (htoken : bearerToken call.authorization = .ok token) (hkeys : Served env keys servedAt)
    (hle : servedAt ≤ time) (hlt : time < servedAt + delay + jwksCacheTtlSecs * 10 ^ 9)
    (h : extract env call.extractor keys unixNow token = .ok data) :
    Authorized env delay call time unixNow data := by
  simp only [extract, bind_eq_ok_iff, mapError_eq_ok_iff, Extractor.fromToken_eq_ok_iff] at h
  obtain ⟨data', hvalid, hrole, rfl⟩ := h
  obtain ⟨status, body, jwks, hreply, -, -, hjwks, rfl⟩ := exists_jwks_of_fetchJwks hkeys
  exact ⟨hrole, token, servedAt, status, body, jwks, bearerToken_eq_ok htoken, hle, hlt, hreply,
    hjwks, verified_of_validateWith hvalid⟩

/-- The keys that the cache still gives out. -/
theorem CacheOk.exists_served {w : AuthWorld κ} (h : CacheOk env delay w) {keys : List (Str × κ)}
    (hkeys : cachedKeys w = some keys) :
    ∃ servedAt, Served env keys servedAt ∧ servedAt ≤ w.now ∧
      w.now < servedAt + delay + jwksCacheTtlSecs * 10 ^ 9 := by
  unfold cachedKeys at hkeys
  split at hkeys
  · next c hc =>
    split_ifs at hkeys with hage
    obtain rfl := Option.some_inj.mp hkeys
    obtain ⟨hfetched, servedAt, hserved, hle, hdelay⟩ := h c hc
    refine ⟨servedAt, hserved, hle.trans hfetched, ?_⟩
    have hage' := (Nat.div_lt_iff_lt_mul (by decide)).mp hage
    omega
  · exact absurd hkeys (by simp)

/-- A step keeps what the cache and the request know, and the clock does not go back. -/
theorem authNext_ok {w : AuthWorld κ} {call : AuthCall} {pc : AuthPc κ} {a : AuthAction}
    (hcache : CacheOk env delay w) (hpc : AuthPcOk env delay w.now call pc)
    (hprompt : Prompt delay w ⟨call, pc⟩ a) :
    ∀ next, authNext env w call pc a = some next → w.now ≤ next.1.now ∧
      CacheOk env delay next.1 ∧ AuthPcOk env delay next.1.now call next.2 := by
  fun_cases authNext env w call pc a with
  | case1 pc d =>
    rintro _ ⟨⟩
    have hnow : w.now ≤ w.now + d := Nat.le_add_right _ _
    refine ⟨hnow, fun c hc => ?_, hpc.mono hnow⟩
    obtain ⟨hfetched, hserved⟩ := hcache c hc
    exact ⟨hfetched.trans hnow, hserved⟩
  | case2 unixNow e htoken =>
    rintro _ ⟨⟩
    exact ⟨le_refl _, hcache, fun data hdata => absurd hdata (by simp)⟩
  | case3 unixNow token htoken keys hkeys =>
    rintro _ ⟨⟩
    obtain ⟨servedAt, hserved, hle, hlt⟩ := hcache.exists_served hkeys
    exact ⟨le_refl _, hcache, fun data hdata =>
      authorized_of_extract htoken hserved hle hlt hdata⟩
  | case4 unixNow token htoken hkeys =>
    rintro _ ⟨⟩
    exact ⟨le_refl _, hcache, htoken⟩
  | case5 token =>
    rintro _ ⟨⟩
    exact ⟨le_refl _, hcache, hpc, rfl, le_refl _⟩
  | case6 token reply servedAt unixNow e hreply =>
    rintro _ ⟨⟩
    exact ⟨le_refl _, hcache, fun data hdata => absurd hdata (by simp)⟩
  | case7 token reply servedAt unixNow keys hreply =>
    rintro _ ⟨⟩
    obtain ⟨htoken, rfl, hle⟩ := hpc
    exact ⟨le_refl _, hcache, htoken, hreply, hle⟩
  | case8 token keys servedAt unixNow =>
    rintro _ ⟨⟩
    obtain ⟨htoken, hserved, hle⟩ := hpc
    have hsoon : w.now ≤ servedAt + delay := hprompt
    refine ⟨le_refl _, ?_, fun data hdata => ?_⟩
    · rintro c hc
      obtain rfl := Option.some_inj.mp hc
      exact ⟨le_refl _, servedAt, hserved, hle, hsoon⟩
    · refine authorized_of_extract htoken hserved hle ?_ hdata
      unfold jwksCacheTtlSecs
      omega
  | case9 => exact fun _ h => absurd h (by simp)

/-- What holds in every state of a run. -/
def AuthInv (env : AuthEnv κ) (delay : Nat) (w : AuthWorld κ) (rs : List (AuthRequest κ)) : Prop :=
  CacheOk env delay w ∧ ∀ r ∈ rs, AuthPcOk env delay w.now r.call r.pc

theorem AuthInv.init : AuthInv env delay authInit.shared authInit.threads :=
  ⟨fun _ hc => absurd hc (by simp [authInit]), fun _ hr => absurd hr (by simp [authInit])⟩

theorem AuthInv.spawn {w : AuthWorld κ} {rs : List (AuthRequest κ)} (h : AuthInv env delay w rs)
    (call : AuthCall) : AuthInv env delay w (rs ++ [(authProgram env).start call]) := by
  refine ⟨h.1, fun r hr => ?_⟩
  rcases List.mem_append.mp hr with hr | hr
  · exact h.2 r hr
  · rw [List.mem_singleton.mp hr]
    trivial

theorem AuthInv.act {w : AuthWorld κ} {pre post : List (AuthRequest κ)} {r : AuthRequest κ}
    {a : AuthAction} (h : AuthInv env delay w (pre ++ r :: post)) (hprompt : Prompt delay w r a) :
    AuthInv env delay (authAct env w r a).1 (pre ++ (authAct env w r a).2 :: post) := by
  obtain ⟨hcache, hrs⟩ := h
  unfold authAct
  split
  · next w' pc' hnext =>
    obtain ⟨hnow, hcache', hpc'⟩ := authNext_ok hcache (hrs r (by simp)) hprompt _ hnext
    refine ⟨hcache', ?_⟩
    exact forall_mem_replace (P := fun q => AuthPcOk env delay w.now q.call q.pc) hrs
      (fun q hq => hq.mono hnow) fun _ => hpc'
  · exact ⟨hcache, hrs⟩

/-- A request is admitted only with a token that the service has signed for this enclave with a key
that it published a short while ago. -/
theorem authorized_of_prompt {is : List (Input AuthCall AuthAction)}
    (h : Along (step (authProgram env)) (onActs (Prompt delay)) authInit is) :
    Always (step (authProgram env))
      (fun s => ∀ r ∈ s.threads, ∀ time unixNow data,
        r.pc = .decided time unixNow (.ok data) → Authorized env delay r.call time unixNow data)
      authInit is := by
  have hinv := always_of_acts (authProgram env) (fun _ _ call hinv => hinv.spawn call)
    (fun _ _ _ _ _ hinv hprompt => hinv.act hprompt) AuthInv.init h
  refine hinv.imp fun s hs r hr time unixNow data hpc => ?_
  have hpcOk := hs.2 r hr
  rw [hpc] at hpcOk
  exact hpcOk data rfl

/-- The key was withdrawn 304 seconds before the second request is admitted. -/
theorem authorized_lateRequest :
    ∃ r ∈ (exec (step (authProgram sampleAuthEnv)) authInit lateRequest).threads,
      r.pc = .decided (305 * 10 ^ 9) 0 (.ok ⟨"analyst-1".toList, "analyst".toList⟩) ∧
      Authorized sampleAuthEnv (10 * 10 ^ 9) r.call (305 * 10 ^ 9) 0
        ⟨"analyst-1".toList, "analyst".toList⟩ := by
  have hprompt : Along (step (authProgram sampleAuthEnv)) (onActs (Prompt (10 * 10 ^ 9))) authInit
      lateRequest := by
    decide +kernel
  have hmem : (⟨analystCall, .decided (305 * 10 ^ 9) 0
      (.ok ⟨"analyst-1".toList, "analyst".toList⟩)⟩ : AuthRequest (Str × Str)) ∈
        (exec (step (authProgram sampleAuthEnv)) authInit lateRequest).threads :=
    List.mem_cons_of_mem _ (List.mem_singleton_self _)
  exact ⟨_, hmem, rfl, (authorized_of_prompt hprompt).last _ hmem _ _ _ rfl⟩

end Interleavings

/-! ## One enclave -/

/-- The 65 bytes of a point are the tag and the two coordinates. -/
theorem PublicKey.toList_encoded (p : PublicKey) :
    p.encoded.toList = 4 :: ((p.encoded.toList.drop 1).take 32 ++
      (p.encoded.toList.drop 33).take 32) := by
  obtain ⟨⟨bytes, hlength⟩, htag⟩ := p
  cases bytes with
  | nil => exact absurd hlength (by simp)
  | cons tag coords =>
    have htag' : tag = 4 := htag
    have hcoords : coords.length = 64 := by simpa using hlength
    have hy : (coords.drop 32).take 32 = coords.drop 32 :=
      List.take_of_length_le (by simp [hcoords])
    change tag :: coords = 4 :: (coords.take 32 ++ (coords.drop 32).take 32)
    rw [htag', hy, List.take_append_drop]

/-- The texts of the coordinates determine the point. -/
theorem publicKey_eq_of_jwk_eq {sha256 : Bytes → Bytes} {p q : PublicKey}
    (hx : (jwkForPublicKey sha256 p).x = (jwkForPublicKey sha256 q).x)
    (hy : (jwkForPublicKey sha256 p).y = (jwkForPublicKey sha256 q).y) : p = q := by
  have hcoord : ∀ {b c : Bytes}, some (urlSafeNoPad.encode b) = some (urlSafeNoPad.encode c) →
      b = c :=
    fun h => Codec.encode_inj (.refl _) (Option.some_inj.mp h)
  have hbytes : p.encoded.toList = q.encoded.toList := by
    rw [p.toList_encoded, q.toList_encoded, hcoord hx, hcoord hy]
  cases p
  cases q
  congr
  exact List.Vector.toList_injective hbytes

section Binding

variable {κ : Type} {env : AuthEnv κ} {unixNow : Nat} {token : Str} {data : TokenData}

theorem JwtCrate.claims_of_decode {jwt : JwtCrate κ} {key : κ} {validation : Validation}
    {claims : AttestationClaims} (h : jwt.decode unixNow token key validation = .ok claims) :
    jwt.claims token = .ok claims := by
  simp only [JwtCrate.decode, bind_eq_ok_iff, pure_eq_ok_iff] at h
  obtain ⟨-, -, claims', hclaims, -, -, rfl⟩ := h
  exact hclaims

/-- A valid token names the point of the enclave that accepts it. -/
theorem exists_claims_of_validateWith {keys : List (Str × κ)}
    (h : validateWith env keys unixNow token = .ok data) :
    ∃ claims tokenKey, env.jwt.claims token = .ok claims ∧
      claims.enclavePublicKey = some tokenKey ∧
      tokenKey.x = (jwkForPublicKey env.sha256 env.publicKey).x ∧
      tokenKey.y = (jwkForPublicKey env.sha256 env.publicKey).y := by
  obtain ⟨-, _, -, _, -, _, -, claims, hclaims, tokenKey, htokenKey, hmatches, -⟩ :=
    validateWith_eq_ok_iff.mp h
  obtain ⟨hx, hy, -, -⟩ := keyMatches_iff.mp hmatches
  exact ⟨claims, tokenKey, JwtCrate.claims_of_decode hclaims, htokenKey, hx, hy⟩

/-- A token that two enclaves accept, at whatever times and with whatever keys of the service, is
one that a single enclave accepts twice. -/
theorem publicKey_eq_of_validateWith {keys keys' : List (Str × κ)} {unixNow' : Nat}
    {data' : TokenData} {publicKey : PublicKey} {audience : Str}
    (h : validateWith env keys unixNow token = .ok data)
    (h' : validateWith { env with publicKey := publicKey, audience := audience } keys' unixNow'
      token = .ok data') : env.publicKey = publicKey := by
  obtain ⟨claims, tokenKey, hclaims, htokenKey, hx, hy⟩ := exists_claims_of_validateWith h
  obtain ⟨claims', tokenKey', hclaims', htokenKey', hx', hy'⟩ := exists_claims_of_validateWith h'
  obtain rfl := Except.ok.inj (hclaims.symm.trans hclaims')
  obtain rfl := Option.some_inj.mp (htokenKey.symm.trans htokenKey')
  exact publicKey_eq_of_jwk_eq (hx.symm.trans hx') (hy.symm.trans hy')

/-- The audience does not tell enclaves apart here, the public key does. -/
theorem publicKey_eq_of_validateWith_sample :
    (∃ data, validateWith { sampleAuthEnv with publicKey := samplePublicKey, audience := [] }
      [("key-1".toList, "x".toList, "y".toList)] 1 [] = .ok data) ∧
      sampleAuthEnv.publicKey = samplePublicKey := by
  have hown : validateWith sampleAuthEnv [("key-1".toList, "x".toList, "y".toList)] 0 [] =
      .ok ⟨"analyst-1".toList, "analyst".toList⟩ :=
    rfl
  have hother : validateWith { sampleAuthEnv with publicKey := samplePublicKey, audience := [] }
      [("key-1".toList, "x".toList, "y".toList)] 1 [] =
        .ok ⟨"analyst-1".toList, "analyst".toList⟩ :=
    rfl
  exact ⟨⟨_, hother⟩, publicKey_eq_of_validateWith hown hother⟩

end Binding

end RelationalSdk
