import RelationalSdk.Text

/-!
# Domain records

The records the enclave stores, and the errors a handler returns or meets. Machine
integers that only count or date things are `Nat` and `Int`; a `DateTime` carries the range
chrono gives it. The JSON of these flat records round-trips, so a table that holds
JSON bytes is modelled as holding the record.
-/

namespace RelationalSdk

open Text

/-- `DateTime<Utc>` : seconds since the epoch, in chrono's range, and nanoseconds. -/
structure DateTime where
  timestamp : Int
  nanos : Nat
  min_le : -8334601228800 ≤ timestamp
  le_max : timestamp ≤ 8210266876799
  deriving DecidableEq

/-- 2026-02-24T00:00:00Z. -/
def sampleDate : DateTime :=
  ⟨1771891200, 0, by decide, by decide⟩

/-- The textual form of a UUID. -/
def isUuid (s : Str) : Bool :=
  s.length = 36 && s.all fun c => "0123456789abcdef-".toList.contains c

theorem mem_of_isUuid {s : Str} (h : isUuid s) {c : Char} (hc : c ∈ s) :
    c ∈ "0123456789abcdef-".toList := by
  rw [isUuid, Bool.and_eq_true, List.all_eq_true] at h
  exact List.contains_iff_mem.mp (h.2 c hc)

/-- `|` is no character of a UUID. -/
theorem not_mem_bar_of_isUuid {s : Str} (h : isUuid s) : '|' ∉ s :=
  fun hbar => absurd (mem_of_isUuid h hbar) (by decide)

/-- Whether a transfer was native SOL or an SPL token, with its mint. -/
inductive TokenType where
  | native
  | splToken (mint : Str)
  deriving DecidableEq

/-- On-chain confirmation status. -/
inductive TxStatus where
  | pending
  | confirmed
  | failed
  deriving DecidableEq

/-- A transaction record. -/
structure StoredTransaction where
  signature : Str
  walletId : Str
  counterpartyWalletId : Option Str
  fromAddr : Str
  toAddr : Str
  amount : Str
  amountLamports : Option Nat
  token : TokenType
  network : Str
  status : TxStatus
  slot : Option Nat
  feeLamports : Option Nat
  explorerUrl : Str
  createdAt : DateTime
  updatedAt : DateTime
  deriving DecidableEq

/-- Operational shape of a pool : CSV-driven, or fed by an ERP. -/
inductive PoolKind where
  | malta
  | iobErp
  deriving DecidableEq

/-- Pool lifecycle state. -/
inductive PoolState where
  | needsInit
  | ready
  deriving DecidableEq

/-- How strictly an upload is validated against the schema. -/
inductive ValidationMode where
  | none
  | headersOnly
  | strict
  deriving DecidableEq

/-- The fields of `pool.meta.json` that the handlers below read or write. -/
structure PoolMetadata where
  kind : PoolKind
  schemaId : Str
  validationMode : ValidationMode
  state : PoolState
  totalCredentials : Nat
  revokedCount : Nat
  deriving DecidableEq

/-- The error of an API handler : an HTTP status and a message. -/
structure ApiError where
  status : Nat
  message : String
  deriving DecidableEq

namespace ApiError

/-- 400 Bad Request. -/
def badRequest (msg : String) : ApiError :=
  ⟨400, msg⟩

/-- 403 Forbidden. -/
def forbidden (msg : String) : ApiError :=
  ⟨403, msg⟩

/-- 404 Not Found. -/
def notFound (msg : String) : ApiError :=
  ⟨404, msg⟩

/-- 409 Conflict. -/
def conflict (msg : String) : ApiError :=
  ⟨409, msg⟩

/-- 422 Unprocessable Entity. -/
def unprocessable (msg : String) : ApiError :=
  ⟨422, msg⟩

/-- 500 Internal Server Error. -/
def internal (msg : String) : ApiError :=
  ⟨500, msg⟩

/-- 503 Service Unavailable. -/
def serviceUnavailable (msg : String) : ApiError :=
  ⟨503, msg⟩

end ApiError

/-- What an HTTP request of the enclave ends with. -/
inductive HttpReply where
  | failed (msg : String)
  | response (status : Nat) (body : Bytes)

/-- Errors of the transaction database that a caller can provoke. -/
inductive TxDbError where
  | invalidCursor
  | duplicateWallet (existing : Str)
  deriving DecidableEq

/-- Errors of the encrypted storage that a caller can provoke. -/
inductive StorageError where
  | notFound (msg : String)
  | alreadyExists (msg : String)
  | permissionDenied (userId resource : Str)
  deriving DecidableEq

/-- The storage error as a handler returns it. -/
def StorageError.toApiError : StorageError → ApiError
  | notFound msg => .notFound msg
  | alreadyExists msg => .conflict msg
  | permissionDenied _ _ => .forbidden "you do not own this resource"

end RelationalSdk
