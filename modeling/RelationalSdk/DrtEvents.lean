import RelationalSdk.Base64
import RelationalSdk.PoolRegistration
import RelationalSdk.Wire

/-!
# Events in transaction logs

A program emits an event as a log line with the base64 of a discriminator and the Borsh encoding of
the event. `parseDrtEvents` reads every such line of a transaction. A line does not say which
program wrote it. That follows from the lines around it, which mark where a program starts and where
it returns, and the parser does not look at them.

`payloadEvent_eq_some_iff` : the decoding is exact, a payload is read as an event if and only if it
is the text of that event, in full. `attributed_iff` : so on a log in which invocations are nested,
the parser returns the events of the program exactly if no other program has emitted the text of an
event.
-/

namespace RelationalSdk

open Text Base64 Wire

/-! ## Events -/

structure PoolCreatedEvent where
  pool : Pubkey
  uuid : UuidBytes
  owner : Pubkey
  createdAt : Int64
  deriving DecidableEq

structure DrtRegisteredEvent where
  pool : Pubkey
  drtConfig : Pubkey
  mint : Pubkey
  rightId : UuidBytes
  supply : UInt64
  codeHash : List.Vector UInt8 32
  createdAt : Int64
  deriving DecidableEq

structure RightGrantedEvent where
  pool : Pubkey
  drtConfig : Pubkey
  commitment : List.Vector UInt8 32
  grantedAt : Int64
  deriving DecidableEq

structure RightRevokedEvent where
  pool : Pubkey
  drtConfig : Pubkey
  commitment : List.Vector UInt8 32
  revokedAt : Int64
  deriving DecidableEq

structure PoolSealedEvent where
  pool : Pubkey
  sealedAt : Int64
  deriving DecidableEq

inductive DrtEvent where
  | poolCreated (e : PoolCreatedEvent)
  | drtRegistered (e : DrtRegisteredEvent)
  | rightGranted (e : RightGrantedEvent)
  | rightRevoked (e : RightRevokedEvent)
  | poolSealed (e : PoolSealedEvent)
  deriving DecidableEq

/-- `DISC_POOL_CREATED`. -/
def discPoolCreated : Bytes := [202, 44, 41, 88, 104, 220, 157, 82]

/-- `DISC_DRT_REGISTERED`. -/
def discDrtRegistered : Bytes := [244, 243, 67, 47, 173, 89, 107, 3]

/-- `DISC_RIGHT_GRANTED`. -/
def discRightGranted : Bytes := [251, 86, 219, 230, 109, 252, 94, 16]

/-- `DISC_RIGHT_REVOKED`. -/
def discRightRevoked : Bytes := [67, 219, 188, 196, 202, 34, 65, 52]

/-- `DISC_POOL_SEALED`. -/
def discPoolSealed : Bytes := [16, 227, 75, 106, 133, 87, 48, 68]

/-! ## Layouts -/

/-- Eight octets as a number. -/
def u64Bytes : List.Vector UInt8 8 ≃ UInt64 where
  toFun v := UInt64.ofNat (ofLeBytes v.toList)
  invFun n := ⟨leBytes 8 n.toNat, length_leBytes 8 n.toNat⟩
  left_inv v := by
    have hlt : ofLeBytes v.toList < 2 ^ 64 := by
      have hlt := ofLeBytes_lt v.toList
      rwa [v.toList_length] at hlt
    refine List.Vector.toList_injective ?_
    show leBytes 8 (UInt64.ofNat (ofLeBytes v.toList)).toNat = v.toList
    rw [UInt64.toNat_ofNat', Nat.mod_eq_of_lt hlt]
    have hbytes := leBytes_ofLeBytes v.toList
    rwa [v.toList_length] at hbytes
  right_inv n := by
    have hlt : n.toNat < 256 ^ 8 := n.toNat_lt
    show UInt64.ofNat (ofLeBytes (leBytes 8 n.toNat)) = n
    rw [ofLeBytes_leBytes, Nat.mod_eq_of_lt hlt, UInt64.ofNat_toNat]

def i64Bytes : UInt64 ≃ Int64 where
  toFun := UInt64.toInt64
  invFun := Int64.toUInt64
  left_inv := UInt64.toUInt64_toInt64
  right_inv := Int64.toInt64_toUInt64

def u64Layout : ByteFormat UInt64 :=
  (ByteFormat.bytes 8).map u64Bytes

def i64Layout : ByteFormat Int64 :=
  u64Layout.map i64Bytes

def pubkeyLayout : ByteFormat Pubkey :=
  ByteFormat.bytes 32

def poolCreatedLayout : ByteFormat PoolCreatedEvent :=
  (pubkeyLayout.seq ((ByteFormat.bytes 16).seq (pubkeyLayout.seq i64Layout))).map
    { toFun := fun ⟨pool, uuid, owner, createdAt⟩ => ⟨pool, uuid, owner, createdAt⟩
      invFun := fun e => ⟨e.pool, e.uuid, e.owner, e.createdAt⟩ }

def drtRegisteredLayout : ByteFormat DrtRegisteredEvent :=
  (pubkeyLayout.seq (pubkeyLayout.seq (pubkeyLayout.seq ((ByteFormat.bytes 16).seq
    (u64Layout.seq ((ByteFormat.bytes 32).seq i64Layout)))))).map
    { toFun := fun ⟨pool, drtConfig, mint, rightId, supply, codeHash, createdAt⟩ =>
        ⟨pool, drtConfig, mint, rightId, supply, codeHash, createdAt⟩
      invFun := fun e =>
        ⟨e.pool, e.drtConfig, e.mint, e.rightId, e.supply, e.codeHash, e.createdAt⟩ }

def rightGrantedLayout : ByteFormat RightGrantedEvent :=
  (pubkeyLayout.seq (pubkeyLayout.seq ((ByteFormat.bytes 32).seq i64Layout))).map
    { toFun := fun ⟨pool, drtConfig, commitment, grantedAt⟩ =>
        ⟨pool, drtConfig, commitment, grantedAt⟩
      invFun := fun e => ⟨e.pool, e.drtConfig, e.commitment, e.grantedAt⟩ }

def rightRevokedLayout : ByteFormat RightRevokedEvent :=
  (pubkeyLayout.seq (pubkeyLayout.seq ((ByteFormat.bytes 32).seq i64Layout))).map
    { toFun := fun ⟨pool, drtConfig, commitment, revokedAt⟩ =>
        ⟨pool, drtConfig, commitment, revokedAt⟩
      invFun := fun e => ⟨e.pool, e.drtConfig, e.commitment, e.revokedAt⟩ }

def poolSealedLayout : ByteFormat PoolSealedEvent :=
  (pubkeyLayout.seq i64Layout).map
    { toFun := fun ⟨pool, sealedAt⟩ => ⟨pool, sealedAt⟩
      invFun := fun e => ⟨e.pool, e.sealedAt⟩ }

/-! ## The parser -/

/-- The event behind a discriminator, which has to use up the bytes. -/
def decodeEvent (bytes : Bytes) : Option DrtEvent :=
  if bytes.length < 8 then none
  else
    let disc := bytes.take 8
    let payload := bytes.drop 8
    if disc = discPoolCreated then (readAll poolCreatedLayout.read payload).map .poolCreated
    else if disc = discDrtRegistered then
      (readAll drtRegisteredLayout.read payload).map .drtRegistered
    else if disc = discRightGranted then (readAll rightGrantedLayout.read payload).map .rightGranted
    else if disc = discRightRevoked then (readAll rightRevokedLayout.read payload).map .rightRevoked
    else if disc = discPoolSealed then (readAll poolSealedLayout.read payload).map .poolSealed
    else none

/-- `PROGRAM_DATA_PREFIX`. -/
def programDataPrefix : Str :=
  "Program data: ".toList

/-- The event of the text behind the mark. -/
def payloadEvent (data : Str) : Option DrtEvent := do
  let bytes ← standard.decode (trim data)
  decodeEvent bytes

/-- The event of a line. -/
def lineEvent (line : Str) : Option DrtEvent := do
  let data ← line.dropPrefix? programDataPrefix
  payloadEvent data

/-- `parse_drt_events`. -/
def parseDrtEvents (logs : List Str) : List DrtEvent :=
  logs.filterMap lineEvent

/-! ## What should be returned -/

/-- The bytes of an event. -/
def encodeEvent : DrtEvent → Bytes
  | .poolCreated e => discPoolCreated ++ poolCreatedLayout.write e
  | .drtRegistered e => discDrtRegistered ++ drtRegisteredLayout.write e
  | .rightGranted e => discRightGranted ++ rightGrantedLayout.write e
  | .rightRevoked e => discRightRevoked ++ rightRevokedLayout.write e
  | .poolSealed e => discPoolSealed ++ poolSealedLayout.write e

/-- A payload is the text of an event. -/
def Carries (payload : Str) (e : DrtEvent) : Prop :=
  trim payload = standard.encode (encodeEvent e)

def invokeLine (program : Str) (depth : Nat) : Str :=
  "Program ".toList ++ (program ++ (" invoke [".toList ++ (Nat.toDigits 10 depth ++ "]".toList)))

def successLine (program : Str) : Str :=
  "Program ".toList ++ (program ++ " success".toList)

/-- A line that marks the start or the end of an invocation. -/
def IsFrame (line : Str) : Prop :=
  ∃ program, IsBase58 program ∧ ((∃ depth, line = invokeLine program depth) ∨
    line = successLine program)

/-- The lines of a nesting of invocations at a depth, inside of an invocation of `running` if there
is one, with the payloads that were emitted and the programs that emitted them. -/
inductive Nested : Nat → Option Str → List Str → List (Str × Str) → Prop
  | nil {depth : Nat} {running : Option Str} : Nested depth running [] []
  | other {depth : Nat} {running : Option Str} {line : Str} {lines : List Str}
      {emitted : List (Str × Str)} : ¬IsFrame line → ¬programDataPrefix <+: line →
      Nested depth running lines emitted → Nested depth running (line :: lines) emitted
  | data {depth : Nat} {program payload : Str} {lines : List Str} {emitted : List (Str × Str)} :
      Nested depth (some program) lines emitted →
      Nested depth (some program) ((programDataPrefix ++ payload) :: lines)
        ((program, payload) :: emitted)
  | call {depth : Nat} {running : Option Str} {program : Str} {body lines : List Str}
      {emitted emitted' : List (Str × Str)} : IsBase58 program →
      Nested (depth + 1) (some program) body emitted → Nested depth running lines emitted' →
      Nested depth running (invokeLine program depth :: (body ++ successLine program :: lines))
        (emitted ++ emitted')

/-- The events among the emissions of the program, in order. -/
inductive Attributed : List (Str × Str) → List DrtEvent → Prop
  | nil : Attributed [] []
  | event {payload : Str} {e : DrtEvent} {emitted : List (Str × Str)} {events : List DrtEvent} :
      Carries payload e → Attributed emitted events →
      Attributed ((drtProgramIdStr, payload) :: emitted) (e :: events)
  | skip {program payload : Str} {emitted : List (Str × Str)} {events : List DrtEvent} :
      (program = drtProgramIdStr → ∀ e, ¬Carries payload e) → Attributed emitted events →
      Attributed ((program, payload) :: emitted) events

/-! ## The decoding is exact -/

/-- What is read behind a discriminator. -/
theorem decodeEvent_append {disc payload : Bytes} (hdisc : disc.length = 8) :
    decodeEvent (disc ++ payload) =
      if disc = discPoolCreated then (readAll poolCreatedLayout.read payload).map .poolCreated
      else if disc = discDrtRegistered then
        (readAll drtRegisteredLayout.read payload).map .drtRegistered
      else if disc = discRightGranted then
        (readAll rightGrantedLayout.read payload).map .rightGranted
      else if disc = discRightRevoked then
        (readAll rightRevokedLayout.read payload).map .rightRevoked
      else if disc = discPoolSealed then (readAll poolSealedLayout.read payload).map .poolSealed
      else none := by
  have hlength : ¬(disc ++ payload).length < 8 := by
    rw [List.length_append]
    omega
  rw [decodeEvent, if_neg hlength, List.take_left' hdisc, List.drop_left' hdisc]

theorem decodeEvent_encodeEvent (e : DrtEvent) : decodeEvent (encodeEvent e) = some e := by
  have hread : ∀ {α : Type} {l : ByteFormat α} {a : α}, readAll l.read (l.write a) = some a :=
    ByteFormat.readAll_eq_some_iff.mpr rfl
  cases e with
  | poolCreated e =>
    rw [encodeEvent, decodeEvent_append rfl, if_pos rfl, hread, Option.map_some]
  | drtRegistered e =>
    rw [encodeEvent, decodeEvent_append rfl, if_neg (by decide), if_pos rfl, hread, Option.map_some]
  | rightGranted e =>
    rw [encodeEvent, decodeEvent_append rfl, if_neg (by decide), if_neg (by decide), if_pos rfl,
      hread, Option.map_some]
  | rightRevoked e =>
    rw [encodeEvent, decodeEvent_append rfl, if_neg (by decide), if_neg (by decide),
      if_neg (by decide), if_pos rfl, hread, Option.map_some]
  | poolSealed e =>
    rw [encodeEvent, decodeEvent_append rfl, if_neg (by decide), if_neg (by decide),
      if_neg (by decide), if_neg (by decide), if_pos rfl, hread, Option.map_some]

theorem decodeEvent_eq_some_iff {bytes : Bytes} {e : DrtEvent} :
    decodeEvent bytes = some e ↔ bytes = encodeEvent e := by
  refine ⟨fun h => ?_, ?_⟩
  · have hlength : (bytes.take 8).length = 8 := by
      by_contra hne
      have hshort : bytes.length < 8 := by
        rw [List.length_take] at hne
        omega
      rw [decodeEvent, if_pos hshort] at h
      cases h
    rw [← List.take_append_drop 8 bytes] at h ⊢
    rw [decodeEvent_append hlength] at h
    split_ifs at h with hdisc hdisc hdisc hdisc hdisc
    all_goals
      obtain ⟨e', he', rfl⟩ := Option.map_eq_some_iff.mp h
      rw [hdisc, ByteFormat.readAll_eq_some_iff.mp he', encodeEvent]
  · rintro rfl
    exact decodeEvent_encodeEvent e

/-- A payload is read as an event if and only if it is the text of that event. -/
theorem payloadEvent_eq_some_iff {payload : Str} {e : DrtEvent} :
    payloadEvent payload = some e ↔ Carries payload e := by
  rw [payloadEvent, Option.bind_eq_bind, Option.bind_eq_some_iff]
  constructor
  · rintro ⟨bytes, hdecode, hevent⟩
    rw [Codec.decode_eq_some_iff] at hdecode
    rw [Carries, hdecode, decodeEvent_eq_some_iff.mp hevent]
  · intro h
    exact ⟨encodeEvent e, Codec.decode_eq_some_iff.mpr h, decodeEvent_eq_some_iff.mpr rfl⟩

/-! ## Lines -/

theorem lineEvent_data (payload : Str) :
    lineEvent (programDataPrefix ++ payload) = payloadEvent payload := by
  have hdrop : (programDataPrefix ++ payload).dropPrefix? programDataPrefix = some payload :=
    List.dropPrefix?_eq_some_iff.mpr ⟨_, rfl, beq_self_eq_true _⟩
  rw [lineEvent, hdrop]
  rfl

theorem lineEvent_of_not_data {line : Str} (h : ¬programDataPrefix <+: line) :
    lineEvent line = none := by
  rw [lineEvent, Option.bind_eq_bind, Option.bind_eq_none_iff]
  intro data hdata
  obtain ⟨_, rfl, hbeq⟩ := List.dropPrefix?_eq_some_iff.mp hdata
  rw [beq_iff_eq.mp hbeq] at h
  exact absurd (List.prefix_append _ _) h

/-- No line that marks an invocation is a data line, because a program has no colon. -/
theorem lineEvent_frame {program : Str} (h : IsBase58 program) (rest : Str) :
    lineEvent ("Program ".toList ++ (program ++ ' ' :: rest)) = none := by
  refine lineEvent_of_not_data ?_
  rintro ⟨s, hs⟩
  have htext : programDataPrefix = "Program ".toList ++ ("data:".toList ++ [' ']) := by
    decide
  rw [htext, List.append_assoc, List.append_assoc] at hs
  obtain ⟨rfl, -⟩ := append_cons_inj_left (by decide)
    (fun hmem => absurd (h ' ' hmem) (by decide)) (List.append_cancel_left hs)
  exact absurd h (by decide)

theorem invokeLine_eq (program : Str) (depth : Nat) : ∃ rest,
    invokeLine program depth = "Program ".toList ++ (program ++ ' ' :: rest) :=
  ⟨"invoke [".toList ++ (Nat.toDigits 10 depth ++ "]".toList), rfl⟩

theorem successLine_eq (program : Str) : ∃ rest,
    successLine program = "Program ".toList ++ (program ++ ' ' :: rest) :=
  ⟨"success".toList, rfl⟩

/-- The parser reads the payloads of a log in order, whoever emitted them. -/
theorem parseDrtEvents_nested {depth : Nat} {running : Option Str} {lines : List Str}
    {emitted : List (Str × Str)} (h : Nested depth running lines emitted) :
    parseDrtEvents lines = emitted.filterMap fun x => payloadEvent x.2 := by
  induction h with
  | nil => rfl
  | other hframe hdata _ ih =>
    rw [parseDrtEvents, List.filterMap_cons_none (lineEvent_of_not_data hdata)]
    exact ih
  | @data depth program payload lines emitted _ ih =>
    rw [parseDrtEvents] at ih ⊢
    rw [List.filterMap_cons, List.filterMap_cons, lineEvent_data, ih]
  | @call depth running program body lines emitted emitted' hprogram _ _ ih ih' =>
    rw [parseDrtEvents] at ih ih' ⊢
    obtain ⟨r, hr⟩ := invokeLine_eq program depth
    obtain ⟨r', hr'⟩ := successLine_eq program
    rw [hr, hr', List.filterMap_cons_none (lineEvent_frame hprogram r), List.filterMap_append,
      List.filterMap_cons_none (lineEvent_frame hprogram r'), ih, ih', List.filterMap_append]

/-! ## Attribution -/

/-- There are no more events of the program than payloads that are events. -/
theorem Attributed.length_le {emitted : List (Str × Str)} {events : List DrtEvent}
    (h : Attributed emitted events) :
    events.length ≤ (emitted.filterMap fun x => payloadEvent x.2).length := by
  induction h with
  | nil => exact Nat.le_refl 0
  | event hcarries _ ih =>
    simp only [List.filterMap_cons, payloadEvent_eq_some_iff.mpr hcarries]
    exact Nat.succ_le_succ ih
  | @skip program payload emitted events _ _ ih =>
    refine ih.trans ?_
    rw [List.filterMap_cons]
    cases payloadEvent payload with
    | none => exact Nat.le_refl _
    | some e => exact Nat.le_succ _

/-- The payloads that are events are those of the program if no other program emitted one. -/
theorem attributed_filterMap_iff (emitted : List (Str × Str)) :
    Attributed emitted (emitted.filterMap fun x => payloadEvent x.2) ↔
      ∀ x ∈ emitted, x.1 ≠ drtProgramIdStr → ∀ e, ¬Carries x.2 e := by
  induction emitted with
  | nil => exact iff_of_true .nil (by simp)
  | cons x emitted ih =>
    obtain ⟨program, payload⟩ := x
    rw [List.forall_mem_cons, ← ih, List.filterMap_cons]
    cases hevent : payloadEvent payload with
    | none =>
      have hnone : ∀ e, ¬Carries payload e := by
        intro e he
        rw [payloadEvent_eq_some_iff.mpr he] at hevent
        cases hevent
      dsimp only
      refine ⟨fun h => ⟨fun _ => hnone, ?_⟩, fun h => .skip (fun _ => hnone) h.2⟩
      generalize (emitted.filterMap fun x => payloadEvent x.2) = events at h
      cases h with
      | event hcarries _ => exact absurd hcarries (hnone _)
      | skip _ hrest => exact hrest
    | some e =>
      have hcarries := payloadEvent_eq_some_iff.mp hevent
      dsimp only
      constructor
      · intro h
        cases h with
        | event _ hrest => exact ⟨fun hne => absurd rfl hne, hrest⟩
        | skip hskip hrest =>
          -- an event more than there are payloads left
          exact absurd hrest.length_le (Nat.not_succ_le_self _)
      · rintro ⟨hforeign, hrest⟩
        have hprogram : program = drtProgramIdStr := by
          by_contra hne
          exact hforeign hne e hcarries
        rw [hprogram]
        exact .event hcarries hrest

/-- On a nested log the parser returns the events of the program exactly if no other program has
emitted the text of an event. -/
theorem attributed_iff {lines : List Str} {emitted : List (Str × Str)}
    (h : Nested 1 none lines emitted) :
    Attributed emitted (parseDrtEvents lines) ↔
      ∀ x ∈ emitted, x.1 ≠ drtProgramIdStr → ∀ e, ¬Carries x.2 e := by
  rw [parseDrtEvents_nested h]
  exact attributed_filterMap_iff emitted

/-! ## Logs of one invocation -/

/-- A program that emits one payload. -/
def eventLog (program payload : Str) : List Str :=
  [invokeLine program 1, programDataPrefix ++ payload, successLine program]

theorem nested_eventLog {program : Str} (h : IsBase58 program) (payload : Str) :
    Nested 1 none (eventLog program payload) [(program, payload)] :=
  .call h (.data .nil) .nil

def sampleEvent : DrtEvent :=
  .poolSealed ⟨.replicate 32 7, 1771891200⟩

def samplePayload : Str :=
  standard.encode (encodeEvent sampleEvent)

theorem carries_samplePayload : Carries samplePayload sampleEvent := by
  unfold Carries
  decide +kernel

theorem isBase58_drtProgramIdStr : IsBase58 drtProgramIdStr := by
  decide +kernel

/-- The program itself emits an event, which is returned and is its own. -/
theorem attributed_sample :
    Nested 1 none (eventLog drtProgramIdStr samplePayload) [(drtProgramIdStr, samplePayload)] ∧
      Attributed [(drtProgramIdStr, samplePayload)]
        (parseDrtEvents (eventLog drtProgramIdStr samplePayload)) := by
  have hnested := nested_eventLog isBase58_drtProgramIdStr samplePayload
  refine ⟨hnested, (attributed_iff hnested).mpr fun x hx hne => ?_⟩
  obtain rfl := List.mem_singleton.mp hx
  exact absurd rfl hne

/-- Another program emits the text of an event, and the event is returned. -/
theorem not_attributed_anotherProgram :
    Nested 1 none (eventLog anotherAddress samplePayload) [(anotherAddress, samplePayload)] ∧
      parseDrtEvents (eventLog anotherAddress samplePayload) = [sampleEvent] ∧
      ¬Attributed [(anotherAddress, samplePayload)]
        (parseDrtEvents (eventLog anotherAddress samplePayload)) := by
  have hbase58 : IsBase58 anotherAddress := by decide +kernel
  have hnested := nested_eventLog hbase58 samplePayload
  have hparse := parseDrtEvents_nested hnested
  refine ⟨hnested, ?_, ?_⟩
  · rw [hparse]
    simp only [List.filterMap_cons, payloadEvent_eq_some_iff.mpr carries_samplePayload,
      List.filterMap_nil]
  · rw [hparse, attributed_filterMap_iff]
    intro h
    exact h _ List.mem_cons_self (by decide) sampleEvent carries_samplePayload

end RelationalSdk
