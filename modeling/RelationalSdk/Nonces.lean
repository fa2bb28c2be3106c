import RelationalSdk.KeyedTable
import RelationalSdk.Wire

/-!
# The nonce table

`record_nonce` takes a nonce that is not in the table and refuses one that is. A stored nonce
carries the clock reading it was taken at, as the eight little-endian octets of an `i64`, and
`purge_expired_nonces` removes what is older than `max_age_secs`.

`nonceAnswers` : what a sequence of calls answers. `replaysRefused` : with readings that do not
go back, a nonce that was taken is refused for `max_age_secs` after, however often the table is
purged. A purge within that time has a cutoff that is not past the stored reading
(`not_isExpired`), so `get_purgeExpiredNonces` leaves the nonce where it is.
-/

namespace RelationalSdk

open Text KeyedTable Wire

/-! ## Stored readings -/

/-- `i64::to_le_bytes`. -/
def toLeBytes (ts : Int64) : Bytes :=
  leBytes 8 ts.toUInt64.toNat

/-- `i64::from_le_bytes`. -/
def fromLeBytes (bytes : Bytes) : Int64 :=
  (UInt64.ofNat (ofLeBytes bytes)).toInt64

/-- What is stored as eight octets, anything else counting as zeros. -/
def storedTs (bytes : Bytes) : Int64 :=
  fromLeBytes (if bytes.length = 8 then bytes else List.replicate 8 0)

theorem storedTs_toLeBytes (ts : Int64) : storedTs (toLeBytes ts) = ts := by
  have hlt : ts.toUInt64.toNat < 256 ^ 8 := ts.toUInt64.toNat_lt
  rw [storedTs, toLeBytes, if_pos (length_leBytes ..), fromLeBytes, ofLeBytes_leBytes,
    Nat.mod_eq_of_lt hlt, UInt64.ofNat_toNat, Int64.toInt64_toUInt64]

/-! ## The calls -/

/-- `Utc::now().timestamp()` : `Utc::now` panics when the clock is before the epoch. -/
structure ClockReading where
  secs : Int64
  nonneg : 0 ≤ secs

/-- The time of a reading. -/
def ClockReading.time (now : ClockReading) : Int :=
  now.secs.toInt

/-- Record a nonce : whether it was new. -/
def recordNonce (t : Table Str Bytes) (now : ClockReading) (nonce : Str) :
    Table Str Bytes × Bool :=
  if (t.get nonce).isSome then (t, false)
  else (t.insert nonce (toLeBytes now.secs), true)

/-- What was stored before the cutoff. -/
def IsExpired (now : ClockReading) (maxAgeSecs : Int64) (bytes : Bytes) : Prop :=
  storedTs bytes < now.secs - maxAgeSecs

instance (now : ClockReading) (maxAgeSecs : Int64) (bytes : Bytes) :
    Decidable (IsExpired now maxAgeSecs bytes) :=
  inferInstanceAs (Decidable (_ < _))

/-- Purge the nonces older than `maxAgeSecs` : how many there were. -/
def purgeExpiredNonces (t : Table Str Bytes) (now : ClockReading) (maxAgeSecs : Int64) :
    Table Str Bytes × Nat :=
  let toRemove := (t.entries.filter fun e => IsExpired now maxAgeSecs e.2).map Prod.fst
  (toRemove.foldl Table.remove t, toRemove.length)

/-- A call on the table. -/
inductive NonceCall where
  | record (nonce : Str)
  | purge

/-- A call of `record_nonce` that has returned. -/
structure NonceAnswer where
  now : ClockReading
  nonce : Str
  isNew : Bool

/-- The answers of `record_nonce` in a sequence of calls with their clock readings. -/
def nonceAnswers (maxAgeSecs : Int64) :
    Table Str Bytes → List (ClockReading × NonceCall) → List NonceAnswer
  | _, [] => []
  | t, (now, .record nonce) :: calls =>
    ⟨now, nonce, (recordNonce t now nonce).2⟩ ::
      nonceAnswers maxAgeSecs (recordNonce t now nonce).1 calls
  | t, (now, .purge) :: calls =>
    nonceAnswers maxAgeSecs (purgeExpiredNonces t now maxAgeSecs).1 calls

/-- The later call is refused if it comes within the time for which the earlier one took the
nonce. -/
def ReplayRefused (maxAgeSecs : Int64) (earlier later : NonceAnswer) : Prop :=
  earlier.nonce = later.nonce → earlier.isNew = true →
    later.now.time ≤ earlier.now.time + maxAgeSecs.toInt → later.isNew = false

section Window

variable {t : Table Str Bytes} {maxAgeSecs : Int64}

theorem get_foldl_remove (keys : List Str) (t : Table Str Bytes) (k : Str) :
    (keys.foldl Table.remove t).get k = if k ∈ keys then none else t.get k := by
  induction keys generalizing t with
  | nil => rfl
  | cons key keys ih =>
    rw [List.foldl_cons, ih, Table.get_remove]
    by_cases hkey : k = key <;> by_cases hkeys : k ∈ keys <;> simp [hkey, hkeys]

/-- A purge removes what is expired and nothing else. -/
theorem get_purgeExpiredNonces (now : ClockReading) (k : Str) :
    (purgeExpiredNonces t now maxAgeSecs).1.get k =
      (t.get k).filter fun bytes => ¬IsExpired now maxAgeSecs bytes := by
  have hmem : k ∈ (t.entries.filter fun e => IsExpired now maxAgeSecs e.2).map Prod.fst ↔
      ∃ bytes, t.get k = some bytes ∧ IsExpired now maxAgeSecs bytes := by
    simp only [List.mem_map, List.mem_filter, decide_eq_true_eq, Prod.exists, exists_and_right,
      exists_eq_right, ← Table.get_eq_some_iff]
  rw [purgeExpiredNonces, get_foldl_remove]
  cases hk : t.get k with
  | none => split_ifs <;> rfl
  | some bytes =>
    rw [Option.filter_some]
    by_cases hexpired : IsExpired now maxAgeSecs bytes
    · rw [if_pos (hmem.mpr ⟨bytes, hk, hexpired⟩), if_neg (by simpa using hexpired)]
    · rw [if_neg, if_pos (by simpa using hexpired)]
      rintro hkeys
      obtain ⟨_, hk', hexpired'⟩ := hmem.mp hkeys
      rw [hk] at hk'
      exact hexpired (Option.some.inj hk' ▸ hexpired')

/-- The subtraction of a cutoff does not overflow. -/
theorem toInt_cutoff (hmax : 0 ≤ maxAgeSecs) (now : ClockReading) :
    (now.secs - maxAgeSecs).toInt = now.time - maxAgeSecs.toInt := by
  have hnow : 0 ≤ now.secs.toInt := by simpa [Int64.le_iff_toInt_le] using now.nonneg
  have hmax' : 0 ≤ maxAgeSecs.toInt := by simpa [Int64.le_iff_toInt_le] using hmax
  have hnow' := now.secs.toInt_lt
  have hmax'' := maxAgeSecs.toInt_lt
  rw [Int64.toInt_sub, ClockReading.time]
  apply Int.bmod_eq_of_le <;> omega

/-- What was stored at a reading is not expired within `maxAgeSecs` of it. -/
theorem not_isExpired (hmax : 0 ≤ maxAgeSecs) {first now : ClockReading}
    (hnow : now.time ≤ first.time + maxAgeSecs.toInt) :
    ¬IsExpired now maxAgeSecs (toLeBytes first.secs) := by
  rw [IsExpired, storedTs_toLeBytes, Int64.lt_iff_toInt_lt, toInt_cutoff hmax]
  have hfirst : first.time = first.secs.toInt := rfl
  omega

/-- A nonce that is in the table is refused, and what is there stays as it is. -/
theorem recordNonce_of_get {nonce : Str} {bytes : Bytes} (hget : t.get nonce = some bytes)
    (now : ClockReading) : recordNonce t now nonce = (t, false) := by
  rw [recordNonce, if_pos (by rw [hget]; rfl)]

theorem get_recordNonce_of_get {nonce : Str} {bytes : Bytes} (hget : t.get nonce = some bytes)
    (now : ClockReading) (other : Str) : (recordNonce t now other).1.get nonce = some bytes := by
  by_cases hother : other = nonce
  · rw [hother, recordNonce_of_get hget]
    exact hget
  · rw [recordNonce]
    split_ifs
    · exact hget
    · rw [Table.get_insert_of_ne _ _ (Ne.symm hother)]
      exact hget

/-- An answer carries the reading of one of the calls. -/
theorem time_mem_of_mem_nonceAnswers {calls : List (ClockReading × NonceCall)}
    {later : NonceAnswer} (h : later ∈ nonceAnswers maxAgeSecs t calls) :
    later.now.time ∈ calls.map fun call => call.1.time := by
  induction calls generalizing t with
  | nil => cases h
  | cons call calls ih =>
    obtain ⟨now, call⟩ := call
    cases call with
    | record nonce =>
      rcases List.mem_cons.mp h with rfl | h
      · exact List.mem_cons_self
      · exact List.mem_cons_of_mem _ (ih h)
    | purge => exact List.mem_cons_of_mem _ (ih h)

/-- A nonce in the table since `first` is refused as long as it counts. The induction is on the
calls : once a purge comes too late to spare the nonce, so does every call after it. -/
theorem refused_of_get (hmax : 0 ≤ maxAgeSecs) {first : ClockReading} {nonce : Str}
    {calls : List (ClockReading × NonceCall)}
    (hsorted : (calls.map fun call => call.1.time).Pairwise (· ≤ ·))
    (hget : t.get nonce = some (toLeBytes first.secs)) :
    ∀ later ∈ nonceAnswers maxAgeSecs t calls, nonce = later.nonce →
      later.now.time ≤ first.time + maxAgeSecs.toInt → later.isNew = false := by
  induction calls generalizing t with
  | nil => nofun
  | cons call calls ih =>
    obtain ⟨now, call⟩ := call
    obtain ⟨hnow, hlater⟩ := List.pairwise_cons.mp hsorted
    intro later hmem hnonce htime
    cases call with
    | record other =>
      rcases List.mem_cons.mp hmem with rfl | hmem
      · obtain rfl : nonce = other := hnonce
        rw [recordNonce_of_get hget]
      · exact ih hlater (get_recordNonce_of_get hget now other) later hmem hnonce htime
    | purge =>
      have hle : now.time ≤ later.now.time := hnow _ (time_mem_of_mem_nonceAnswers hmem)
      refine ih hlater ?_ later hmem hnonce htime
      rw [get_purgeExpiredNonces, hget, Option.filter_some, if_pos]
      exact decide_eq_true (not_isExpired hmax (hle.trans htime))

end Window

/-- Within `maxAgeSecs` of being taken, a nonce is refused. -/
theorem replaysRefused (maxAgeSecs : Int64) (hmax : 0 ≤ maxAgeSecs) (t : Table Str Bytes)
    (calls : List (ClockReading × NonceCall))
    (hsorted : (calls.map fun call => call.1.time).Pairwise (· ≤ ·)) :
    (nonceAnswers maxAgeSecs t calls).Pairwise (ReplayRefused maxAgeSecs) := by
  induction calls generalizing t with
  | nil => exact List.Pairwise.nil
  | cons call calls ih =>
    obtain ⟨now, call⟩ := call
    have hlater := (List.pairwise_cons.mp hsorted).2
    cases call with
    | record nonce =>
      refine List.pairwise_cons.mpr ⟨fun later hmem hnonce hnew => ?_, ih _ hlater⟩
      refine refused_of_get hmax hlater ?_ later hmem hnonce
      -- The call took the nonce, so the table now holds its reading.
      have hnew : (recordNonce t now nonce).2 = true := hnew
      rw [recordNonce] at hnew ⊢
      split_ifs at hnew ⊢
      exact Table.get_insert_self ..
    | purge => exact ih _ hlater

/-- A nonce is recorded, kept by a purge at the end of its time, and removed by a later one. -/
def purgedTwice : List (ClockReading × NonceCall) :=
  [(⟨100, by decide⟩, .record ['n']), (⟨160, by decide⟩, .purge),
    (⟨160, by decide⟩, .record ['n']), (⟨161, by decide⟩, .purge),
    (⟨161, by decide⟩, .record ['n'])]

theorem replaysRefused_purgedTwice :
    (nonceAnswers 60 Table.empty purgedTwice).map NonceAnswer.isNew = [true, false, true] ∧
      (nonceAnswers 60 Table.empty purgedTwice).Pairwise (ReplayRefused 60) :=
  ⟨by decide +kernel, replaysRefused 60 (by decide) _ _ (by decide)⟩

end RelationalSdk
