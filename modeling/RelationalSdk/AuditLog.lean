import RelationalSdk.AuditIndex

/-!
# The audit log

`AuditRepository::log` appends an event to the file of its day, one JSON object on a line,
with a tag over the JSON of the event without the tag. If the database is attached, the same
signed event goes to the audit tables. `read_verified_events` keeps the lines of a day whose
tag fits.

A tag says that a line was written, not where and not how often. `verifiedReads_iff` : after
any change to the files, the events that are read for a day are among those logged on that day,
each at most as often, and all of them if its file was left alone, if and only if no line that
reads as a logged event stands in the file of the day more often than the event was logged on it,
and in a file that was left alone every line reads as the event it was written for. An event can
be dropped from the log, repeated in it and moved to another day without a trace.
-/

namespace RelationalSdk

open Text KeyedTable Runs

/-- serde_json on events, and the HMAC-SHA256 of a text under the key of the enclave, in
hexadecimal. -/
structure AuditCodec extends EventJson where
  computeHmac : Str → Str

/-- The event without its tag. -/
def AuditEvent.canonical (e : AuditEvent) : AuditEvent :=
  { e with hmac := none }

/-- The day of an event, which names its file. -/
def AuditEvent.date (e : AuditEvent) : Str :=
  formatDate e.timestamp

/-- The daily files and the audit tables. -/
structure AuditStore where
  files : Table Str Bytes
  tables : AuditTables

/-- What becomes of the writes of `log` : whether the file of the day can be opened, how many
bytes of the line reach it, all of them if nothing is said, and whether the transaction commits.
No failure is reported. -/
structure LogIo where
  opened : Bool
  written : Option Nat
  stored : Bool

/-- Every write succeeds. -/
def LogIo.ok : LogIo :=
  ⟨true, none, true⟩

/-- The bytes that reach the file. -/
def LogIo.reaching (io : LogIo) (line : Bytes) : Bytes :=
  match io.written with
  | none => line
  | some n => line.take n

namespace AuditCodec

variable (c : AuditCodec)

/-- The event with its tag. -/
def sign (e : AuditEvent) : AuditEvent :=
  { e with hmac := some (c.computeHmac (c.toJson e.canonical)) }

/-- Append a signed event to the file of its day. -/
def append (io : LogIo) (files : Table Str Bytes) (e : AuditEvent) : Table Str Bytes :=
  if io.opened then
    files.insert e.date ((files.get e.date).getD [] ++
      io.reaching (asBytes (c.toJson (c.sign e) ++ ['\n'])))
  else files

/-- Log an event, to the database as well if it is attached. -/
def log (s : AuditStore) (txDb : Bool) (io : LogIo) (e : AuditEvent) : AuditStore where
  files := c.append io s.files e
  tables := if txDb && io.stored then c.logAuditEvent s.tables (c.sign e) else s.tables

theorem append_ok (files : Table Str Bytes) (e : AuditEvent) :
    c.append .ok files e = files.insert e.date
      ((files.get e.date).getD [] ++ asBytes (c.toJson (c.sign e) ++ ['\n'])) :=
  rfl

/-- What `read_verified_events` makes of a line. -/
def verifyLine (line : Str) : Option AuditEvent :=
  match c.fromJson line with
  | none => none
  | some event =>
    match event.hmac with
    | none => none
    | some tag =>
      if tag = c.computeHmac (c.toJson event.canonical) then some event else none

end AuditCodec

/-- `read_to_string` of the file of a day. -/
def readAuditFile (files : Table Str Bytes) (date : Str) : Option Str :=
  (files.get date).bind fromUtf8

/-- The lines of the file of a day, none if it cannot be read. -/
def auditLines (files : Table Str Bytes) (date : Str) : List Str :=
  match readAuditFile files date with
  | none => []
  | some data => lines data

/-- Reading a list gives the list back if and only if every item reads as itself. -/
theorem filterMap_eq_self_iff {α : Type*} {read : α → Option α} : ∀ {l : List α},
    l.filterMap read = l ↔ ∀ x ∈ l, read x = some x
  | [] => by simp
  | a :: l => by
    rw [List.forall_mem_cons, ← filterMap_eq_self_iff (l := l)]
    cases hread : read a with
    | none =>
      rw [List.filterMap_cons_none hread]
      refine iff_of_false (fun heq => ?_) (by simp)
      have hle := List.length_filterMap_le read l
      rw [heq, List.length_cons] at hle
      omega
    | some b => rw [List.filterMap_cons_some hread, List.cons.injEq, Option.some.injEq]

namespace AuditCodec

variable (c : AuditCodec)

/-- Read only events with a valid tag for the given day. -/
def readVerifiedEvents (files : Table Str Bytes) (date : Str) : List AuditEvent :=
  (auditLines files date).filterMap c.verifyLine

/-- The files after logging some events. -/
def logFiles (es : List AuditEvent) : Table Str Bytes :=
  exec (c.append .ok) Table.empty es

/-- The events logged on a day, as they were written. -/
def loggedOn (es : List AuditEvent) (date : Str) : List AuditEvent :=
  (es.filter fun e => e.date = date).map c.sign

/-- The signed event parses as itself. -/
def Parses (e : AuditEvent) : Prop :=
  c.fromJson (c.toJson (c.sign e)) = some (c.sign e)

/-- The signed event is written on one line. -/
structure OneLine (e : AuditEvent) : Prop where
  noLineFeed : '\n' ∉ c.toJson (c.sign e)
  noReturn : '\r' ∉ c.toJson (c.sign e)

/-- The JSON of the logged events is on one line, and an event with the same JSON but for the
tag is the same but for the tag. -/
structure Faithful (es : List AuditEvent) : Prop where
  oneLine : ∀ e ∈ es, c.OneLine e
  determined : ∀ e ∈ es, ∀ line x, c.fromJson line = some x →
    c.toJson x.canonical = c.toJson e.canonical → x.canonical = e.canonical

/-- No tag is forged : every tag in the files that fits its event was computed by `log`. -/
def Unforged (es : List AuditEvent) (files : Table Str Bytes) : Prop :=
  ∀ date, ∀ line ∈ auditLines files date, ∀ e, c.fromJson line = some e →
    e.hmac = some (c.computeHmac (c.toJson e.canonical)) →
      ∃ e' ∈ es, c.toJson e'.canonical = c.toJson e.canonical

/-- What is read for a day was logged on it, and all of it is read if the file of the day was
left alone. -/
structure VerifiedReads (es : List AuditEvent) (files : Table Str Bytes) (date : Str) : Prop where
  contained : (c.readVerifiedEvents files date : Multiset AuditEvent) ≤ c.loggedOn es date
  untouched : files.get date = (c.logFiles es).get date →
    c.readVerifiedEvents files date = c.loggedOn es date

/-- How many lines of the file of a day read as `e`. -/
def copies (files : Table Str Bytes) (date : Str) (e : AuditEvent) : Nat :=
  (auditLines files date).countP fun line => c.fromJson line = some e

/-! ## Lines -/

variable {c}

@[simp] theorem canonical_sign (e : AuditEvent) : (c.sign e).canonical = e.canonical :=
  rfl

@[simp] theorem eventId_sign (e : AuditEvent) : (c.sign e).eventId = e.eventId :=
  rfl

@[simp] theorem sign_canonical (e : AuditEvent) : c.sign e.canonical = c.sign e :=
  rfl

theorem sign_eq_self_iff {e : AuditEvent} :
    c.sign e = e ↔ e.hmac = some (c.computeHmac (c.toJson e.canonical)) := by
  constructor
  · intro h
    rw [← h]
    rfl
  · intro h
    rw [sign, ← h]

/-- An event is accepted from the lines that read as it, if its tag fits. -/
theorem verifyLine_eq_some_iff {line : Str} {e : AuditEvent} :
    c.verifyLine line = some e ↔ c.fromJson line = some e ∧ c.sign e = e := by
  unfold verifyLine
  cases hread : c.fromJson line with
  | none => simp
  | some x =>
    rw [Option.some.injEq, sign_eq_self_iff]
    cases htag : x.hmac with
    | none =>
      simp only [htag, reduceCtorEq, false_iff, not_and]
      rintro rfl
      simp [htag]
    | some tag =>
      simp only [htag]
      split_ifs with hfits
      · refine ⟨fun h => ?_, fun h => congrArg some h.1⟩
        rw [← Option.some.inj h, htag, hfits]
        exact ⟨rfl, rfl⟩
      · simp only [false_iff, not_and]
        rintro rfl h
        exact hfits (Option.some.inj (htag.symm.trans h))

/-- The text of the file of a day. -/
theorem get_logFiles (es : List AuditEvent) (date : Str) :
    ((c.logFiles es).get date).getD [] =
      asBytes (((c.loggedOn es date).map c.toJson).flatMap (· ++ ['\n'])) := by
  induction es using List.reverseRecOn with
  | nil => rfl
  | append_singleton es e ih =>
    rw [logFiles, exec_concat, append_ok, Table.get_insert, ← logFiles]
    by_cases hdate : date = e.date
    · subst hdate
      simp [loggedOn, ih]
    · simp [loggedOn, ih, hdate, Ne.symm hdate]

/-- A day of the log as its file holds it. -/
theorem auditLines_logFiles {es : List AuditEvent} (h : ∀ e ∈ es, c.OneLine e) (date : Str) :
    auditLines (c.logFiles es) date = (c.loggedOn es date).map c.toJson := by
  have hlines : lines (((c.loggedOn es date).map c.toJson).flatMap (· ++ ['\n'])) =
      (c.loggedOn es date).map c.toJson := by
    refine lines_flatMap fun l hl => ?_
    obtain ⟨x, hx, rfl⟩ := List.mem_map.mp hl
    obtain ⟨e, he, rfl⟩ := List.mem_map.mp hx
    have honeLine := h e (List.mem_of_mem_filter he)
    exact ⟨honeLine.noLineFeed, honeLine.noReturn⟩
  have htext := c.get_logFiles es date
  rw [auditLines, readAuditFile]
  cases hget : (c.logFiles es).get date with
  | none =>
    rw [hget, Option.getD_none] at htext
    have hempty := congrArg fromUtf8 htext
    rw [fromUtf8_asBytes, ← asBytes_nil, fromUtf8_asBytes, Option.some.injEq] at hempty
    rw [← hlines, ← hempty]
    rfl
  | some data =>
    rw [hget, Option.getD_some] at htext
    rw [Option.bind_some, htext, fromUtf8_asBytes]
    exact hlines

/-- The lines of a day give back what was logged on it if and only if each of them parses. -/
theorem readVerifiedEvents_logFiles_iff {es : List AuditEvent} (h : ∀ e ∈ es, c.OneLine e)
    (date : Str) : c.readVerifiedEvents (c.logFiles es) date = c.loggedOn es date ↔
      ∀ e ∈ es, e.date = date → c.Parses e := by
  rw [readVerifiedEvents, auditLines_logFiles h, List.filterMap_map, filterMap_eq_self_iff]
  simp only [loggedOn, List.forall_mem_map, List.mem_filter, decide_eq_true_eq, and_imp,
    Function.comp_apply, verifyLine_eq_some_iff]
  refine forall₂_congr fun e _ => forall_congr' fun _ => and_iff_left rfl

/-! ## Tampered files -/

section Tampered

variable {es : List AuditEvent} {files : Table Str Bytes} {date : Str}

/-- What is read was logged, on some day. -/
theorem exists_sign_of_mem_read (hjson : c.Faithful es) (hmac : c.Unforged es files)
    {x : AuditEvent} (hx : x ∈ c.readVerifiedEvents files date) : ∃ e ∈ es, c.sign e = x := by
  obtain ⟨line, hline, hverify⟩ := List.mem_filterMap.mp hx
  obtain ⟨hread, hsign⟩ := verifyLine_eq_some_iff.mp hverify
  obtain ⟨e, he, heq⟩ := hmac date line hline x hread (by rw [← hsign]; rfl)
  have hcanonical := hjson.determined e he line x hread heq.symm
  refine ⟨e, he, ?_⟩
  rw [← hsign, ← sign_canonical e, ← hcanonical, sign_canonical]

/-- A logged event is read once for every line that reads as it. -/
theorem count_read_sign (e : AuditEvent) :
    (c.readVerifiedEvents files date).count (c.sign e) = c.copies files date (c.sign e) := by
  unfold readVerifiedEvents copies
  rw [List.count_filterMap]
  refine List.countP_congr fun line _ => ?_
  simp only [beq_iff_eq, decide_eq_true_eq, verifyLine_eq_some_iff, and_iff_left_iff_imp]
  exact fun _ => rfl

end Tampered

end AuditCodec

/-- What is read for a day was logged on it, and all of it is read from a file that was left
alone, if and only if no logged event stands in the file more often than it was logged on that
day, and every line of a file that was left alone parses. -/
theorem verifiedReads_iff (c : AuditCodec) (es : List AuditEvent) (hjson : c.Faithful es)
    (files : Table Str Bytes) (hmac : c.Unforged es files) (date : Str) :
    c.VerifiedReads es files date ↔
      (∀ e ∈ es, c.copies files date (c.sign e) ≤ (c.loggedOn es date).count (c.sign e)) ∧
        (files.get date = (c.logFiles es).get date → ∀ e ∈ es, e.date = date → c.Parses e) := by
  have huntouched : files.get date = (c.logFiles es).get date →
      (c.readVerifiedEvents files date = c.loggedOn es date ↔
        ∀ e ∈ es, e.date = date → c.Parses e) := by
    intro heq
    rw [← AuditCodec.readVerifiedEvents_logFiles_iff hjson.oneLine]
    unfold AuditCodec.readVerifiedEvents auditLines readAuditFile
    rw [heq]
  constructor
  · intro h
    refine ⟨fun e _ => ?_, fun heq => (huntouched heq).mp (h.untouched heq)⟩
    rw [← AuditCodec.count_read_sign]
    simpa using Multiset.le_iff_count.mp h.contained (c.sign e)
  · rintro ⟨hcopies, hparses⟩
    refine ⟨Multiset.le_iff_count.mpr fun x => ?_, fun heq => (huntouched heq).mpr (hparses heq)⟩
    rw [Multiset.coe_count, Multiset.coe_count]
    by_cases hx : x ∈ c.readVerifiedEvents files date
    · obtain ⟨e, he, rfl⟩ := AuditCodec.exists_sign_of_mem_read hjson hmac hx
      rw [AuditCodec.count_read_sign]
      exact hcopies e he
    · rw [List.count_eq_zero_of_not_mem hx]
      exact Nat.zero_le _

/-! ## One event -/

section Single

/-- A codec that knows the JSON of one event, with and without its tag. -/
def AuditCodec.single (e : AuditEvent) (json line tag : Str) : AuditCodec where
  toJson x := if x = e then json else if x = { e with hmac := some tag } then line else []
  fromJson l :=
    if l = json then some e else if l = line then some { e with hmac := some tag } else none
  computeHmac text := if text = json then tag else []

variable {e : AuditEvent} {json line tag : Str}

theorem AuditCodec.sign_single (hmac : e.hmac = none) :
    (single e json line tag).sign e = { e with hmac := some tag } := by
  have hcanonical : e.canonical = e := by rw [AuditEvent.canonical, ← hmac]
  simp [sign, single, hcanonical]

theorem AuditCodec.single_fromJson_line (hne : line ≠ json) :
    (single e json line tag).fromJson line = some { e with hmac := some tag } := by
  simp [single, hne]

theorem AuditCodec.toJson_single (hmac : e.hmac = none) :
    (single e json line tag).toJson ((single e json line tag).sign e) = line := by
  have hother : { e with hmac := some tag } ≠ e := fun h => by
    simpa [hmac] using congrArg AuditEvent.hmac h
  rw [sign_single hmac]
  simp [single, hother]

theorem AuditCodec.parses_single (hmac : e.hmac = none) (hne : line ≠ json) :
    (single e json line tag).Parses e := by
  rw [Parses, toJson_single hmac, sign_single hmac]
  exact single_fromJson_line hne

theorem AuditCodec.oneLine_single (hmac : e.hmac = none) (hline : '\n' ∉ line ∧ '\r' ∉ line) :
    (single e json line tag).OneLine e := by
  constructor <;> rw [toJson_single hmac]
  · exact hline.1
  · exact hline.2

/-- All that the codec reads is the event, with or without its tag. -/
theorem AuditCodec.canonical_of_single (hmac : e.hmac = none) {l : Str} {x : AuditEvent}
    (h : (single e json line tag).fromJson l = some x) : x.canonical = e := by
  have hcanonical : e.canonical = e := by rw [AuditEvent.canonical, ← hmac]
  unfold single at h
  dsimp only at h
  split_ifs at h <;> rw [← Option.some.inj h] <;> exact hcanonical

theorem AuditCodec.faithful_single (hmac : e.hmac = none)
    (hline : '\n' ∉ line ∧ '\r' ∉ line) : (single e json line tag).Faithful [e] := by
  refine ⟨fun x hx => ?_, fun x hx l y h _ => ?_⟩ <;> rw [List.mem_singleton.mp hx]
  · exact oneLine_single hmac hline
  · rw [canonical_of_single hmac h, AuditEvent.canonical, ← hmac]

theorem AuditCodec.unforged_single (hmac : e.hmac = none) (files : Table Str Bytes) :
    (single e json line tag).Unforged [e] files := by
  intro date l _ x h _
  refine ⟨e, List.mem_singleton.mpr rfl, ?_⟩
  rw [canonical_of_single hmac h, AuditEvent.canonical, ← hmac]

end Single

/-- A deletion of a wallet. -/
def sampleDeletion : AuditEvent where
  eventId := "11111111-2222-4333-8444-555555555555".toList
  timestamp := sampleDate
  eventType := .walletDeleted
  userId := some "alice".toList
  resourceType := some "wallet".toList
  resourceId := some "66666666-7777-4888-9999-aaaaaaaaaaaa".toList
  details := none
  success := true
  hmac := none
  correlationId := none
  poolPda := none

/-- Its JSON, up to the place of the tag. -/
def sampleEventFields : Str :=
  "\x7b\"event_id\":\"11111111-2222-4333-8444-555555555555\",".toList ++
    "\"timestamp\":\"2026-02-24T00:00:00Z\",\"event_type\":\"wallet_deleted\",".toList ++
    "\"user_id\":\"alice\",\"resource_type\":\"wallet\",".toList ++
    "\"resource_id\":\"66666666-7777-4888-9999-aaaaaaaaaaaa\",\"success\":true".toList

def sampleJson : Str :=
  sampleEventFields ++ ['\x7d']

/-- Its tag, under the key of the bytes from 0 to 31. -/
def sampleTag : Str :=
  "77d7f2bec610cba4cb479509ce9ee3bec43f83fceb688ba4fb8e8bf4df1998d9".toList

/-- The line of the log. -/
def sampleLine : Str :=
  sampleEventFields ++ ",\"hmac\":\"".toList ++ sampleTag ++ "\"\x7d".toList

/-- The codec on the JSON of the deletion. -/
def sampleCodec : AuditCodec :=
  .single sampleDeletion sampleJson sampleLine sampleTag

theorem sampleLine_ne : sampleLine ≠ sampleJson := by
  unfold sampleLine sampleJson
  rw [List.append_assoc, List.append_assoc]
  intro h
  exact absurd (congrArg List.head? (List.append_cancel_left h)) (by decide +kernel)

theorem sample_oneLine : ∀ l ∈ [sampleJson, sampleLine], '\n' ∉ l ∧ '\r' ∉ l := by
  decide +kernel

theorem faithful_sampleCodec : sampleCodec.Faithful [sampleDeletion] :=
  AuditCodec.faithful_single rfl (sample_oneLine sampleLine (by simp))

theorem unforged_sampleCodec (files : Table Str Bytes) :
    sampleCodec.Unforged [sampleDeletion] files :=
  AuditCodec.unforged_single rfl files

/-- The file of one day with some lines in it. -/
def sampleFile (date : String) (ls : List Str) : Table Str Bytes :=
  Table.empty.insert date.toList (asBytes (ls.flatMap (· ++ ['\n'])))

theorem auditLines_sampleFile (date : String) {ls : List Str}
    (h : ls ⊆ [sampleJson, sampleLine]) : auditLines (sampleFile date ls) date.toList = ls := by
  have hlines : lines (ls.flatMap (· ++ ['\n'])) = ls :=
    lines_flatMap fun l hl => sample_oneLine l (h hl)
  rw [auditLines, readAuditFile, sampleFile, Table.get_insert_self, Option.bind_some,
    fromUtf8_asBytes]
  exact hlines

theorem sampleCodec_fromJson_line :
    sampleCodec.fromJson sampleLine = some (sampleCodec.sign sampleDeletion) := by
  rw [sampleCodec, AuditCodec.sign_single rfl]
  exact AuditCodec.single_fromJson_line sampleLine_ne

theorem sampleCodec_verifyLine :
    sampleCodec.verifyLine sampleLine = some (sampleCodec.sign sampleDeletion) :=
  AuditCodec.verifyLine_eq_some_iff.mpr ⟨sampleCodec_fromJson_line, rfl⟩

/-- A line that is repeated is read twice, and on another day it is read there. -/
theorem not_verifiedReads_copied :
    sampleCodec.Faithful [sampleDeletion] ∧
      sampleCodec.Unforged [sampleDeletion]
        (sampleFile "2026-02-24" [sampleLine, sampleLine]) ∧
      ¬sampleCodec.VerifiedReads [sampleDeletion]
        (sampleFile "2026-02-24" [sampleLine, sampleLine]) "2026-02-24".toList ∧
      sampleCodec.Unforged [sampleDeletion] (sampleFile "2026-03-01" [sampleLine]) ∧
      ¬sampleCodec.VerifiedReads [sampleDeletion] (sampleFile "2026-03-01" [sampleLine])
        "2026-03-01".toList := by
  have htwice : sampleCodec.readVerifiedEvents
      (sampleFile "2026-02-24" [sampleLine, sampleLine]) "2026-02-24".toList =
        [sampleCodec.sign sampleDeletion, sampleCodec.sign sampleDeletion] := by
    rw [AuditCodec.readVerifiedEvents, auditLines_sampleFile _ (by simp)]
    simp [sampleCodec_verifyLine]
  have hmoved : sampleCodec.readVerifiedEvents
      (sampleFile "2026-03-01" [sampleLine]) "2026-03-01".toList =
        [sampleCodec.sign sampleDeletion] := by
    rw [AuditCodec.readVerifiedEvents, auditLines_sampleFile _ (by simp)]
    simp [sampleCodec_verifyLine]
  have hlogged : (sampleCodec.loggedOn [sampleDeletion] "2026-02-24".toList).length = 1 ∧
      (sampleCodec.loggedOn [sampleDeletion] "2026-03-01".toList).length = 0 := by
    decide +kernel
  refine ⟨faithful_sampleCodec, unforged_sampleCodec _, fun h => ?_, unforged_sampleCodec _,
    fun h => ?_⟩
  · have hle := Multiset.card_le_card h.contained
    rw [Multiset.coe_card, Multiset.coe_card, htwice, hlogged.1] at hle
    exact absurd hle (by decide)
  · have hle := Multiset.card_le_card h.contained
    rw [Multiset.coe_card, Multiset.coe_card, hmoved, hlogged.2] at hle
    exact absurd hle (by decide)

/-- A line that was added by someone without the key is left out. -/
theorem verifiedReads_added :
    sampleCodec.Faithful [sampleDeletion] ∧
      sampleCodec.Unforged [sampleDeletion]
        (sampleFile "2026-02-24" [sampleJson, sampleLine]) ∧
      sampleCodec.VerifiedReads [sampleDeletion]
        (sampleFile "2026-02-24" [sampleJson, sampleLine]) "2026-02-24".toList := by
  refine ⟨faithful_sampleCodec, unforged_sampleCodec _, ?_⟩
  refine (verifiedReads_iff _ _ faithful_sampleCodec _ (unforged_sampleCodec _) _).mpr ?_
  have hdate : sampleDeletion.date = "2026-02-24".toList := by decide +kernel
  have hjson : sampleCodec.fromJson sampleJson ≠ some (sampleCodec.sign sampleDeletion) := by
    have hread : sampleCodec.fromJson sampleJson = some sampleDeletion := by
      simp [sampleCodec, AuditCodec.single]
    rw [hread]
    intro h
    cases congrArg AuditEvent.hmac (Option.some.inj h)
  refine ⟨fun e he => ?_, fun _ e he _ => ?_⟩ <;> rw [List.mem_singleton.mp he]
  · rw [AuditCodec.copies, auditLines_sampleFile _ (by simp)]
    simp [AuditCodec.loggedOn, hdate, hjson, sampleCodec_fromJson_line]
  · exact AuditCodec.parses_single rfl sampleLine_ne

end RelationalSdk
