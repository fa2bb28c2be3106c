import RelationalSdk.AuditIndex

/-!
# The audit view of a pool

`pool_audit` shows a page of the events of a pool. Without filters the page comes from the
database. With a filter the first thousand events are fetched, the filter is applied to these
and the page is cut out of what is left, and the total counts what is left.

`poolAuditExact_iff` : the pages for a filter are those of the history of the pool, the newest
events first, and the total is its length, if and only if every event of the pool that satisfies
the filter reads back from its JSON and comes after fewer than a thousand that can be read, and
none of these thousand satisfies the filter but belongs to a resource whose keys look like keys of
the pool. Without filters, if and only if every event of the pool reads back and no resource looks
like it, since an event that does not parse is counted and not shown.
-/

namespace RelationalSdk

open Text KeyedTable Runs

/-! ## The endpoint -/

/-- The order of times. -/
def DateTime.before (t u : DateTime) : Bool :=
  t.timestamp < u.timestamp || (t.timestamp = u.timestamp && t.nanos < u.nanos)

/-- The query parameters. -/
structure PoolAuditQuery where
  limit : Nat
  offset : Nat
  eventType : Option Str
  actor : Option Str
  status : Option Str
  fromTime : Option Str
  toTime : Option Str

structure PoolAuditResponse where
  poolPda : Str
  events : List AuditEvent
  total : Nat
  deriving DecidableEq

namespace PoolAuditQuery

/-- Some filter is given. -/
def hasFilters (q : PoolAuditQuery) : Bool :=
  q.eventType.isSome || q.actor.isSome || q.status.isSome || q.fromTime.isSome || q.toTime.isSome

/-- The names in the comma-separated list of event types. -/
def eventTypeFilter (q : PoolAuditQuery) : Option (List Str) :=
  q.eventType.map fun s => ((s.splitOn ',').map trim).filter fun t => t ≠ []

/-- The event passes the filters. A time that does not parse filters nothing, and so does a
status other than the four. -/
def keeps (parseFromRfc3339 : Str → Option DateTime) (q : PoolAuditQuery) (e : AuditEvent) :
    Bool :=
  (match q.eventTypeFilter with
    | none => true
    | some types => types.any fun t => t = e.eventType.name.toList) &&
  (match q.actor with
    | none => true
    | some actor => e.userId = some actor) &&
  (match q.status with
    | none => true
    | some status =>
      if (status = "ok".toList || status = "success".toList) && !e.success then false
      else if (status = "failed".toList || status = "error".toList) && e.success then false
      else true) &&
  (match q.fromTime.bind parseFromRfc3339 with
    | none => true
    | some fromTs => !e.timestamp.before fromTs) &&
  (match q.toTime.bind parseFromRfc3339 with
    | none => true
    | some toTs => !toTs.before e.timestamp)

end PoolAuditQuery

/-- Get a page of the audit events of a pool. -/
def poolAudit (j : EventJson) (parseFromRfc3339 : Str → Option DateTime) (t : AuditTables)
    (poolPda : Str) (q : PoolAuditQuery) : PoolAuditResponse :=
  let limit := min q.limit 200
  let fetchLimit := if q.hasFilters then 1000 else limit
  let fetchOffset := if q.hasFilters then 0 else q.offset
  let rawEvents := j.listAuditByResource t poolPda fetchLimit fetchOffset
  let filtered := rawEvents.filter (q.keeps parseFromRfc3339)
  { poolPda := poolPda
    events := if q.hasFilters then (filtered.drop q.offset).take limit else filtered
    total := if q.hasFilters then filtered.length else countAuditByResource t poolPda }

/-! ## The history -/

/-- The order of the history : the newest second first, in it by the event id. -/
def notAfter (a b : AuditEvent) : Bool :=
  b.timestamp.timestamp < a.timestamp.timestamp ||
    (a.timestamp.timestamp = b.timestamp.timestamp && a.eventId ≤ b.eventId)

/-- The events of a pool, the newest first. -/
def poolHistory (es : List AuditEvent) (poolPda : Str) : List AuditEvent :=
  (es.filter fun e => e.resourceId = some poolPda).mergeSort notAfter

/-- The page of a list that a query asks for, and the length of the list. -/
def pageOf (poolPda : Str) (q : PoolAuditQuery) (l : List AuditEvent) : PoolAuditResponse :=
  ⟨poolPda, (l.drop q.offset).take q.limit, l.length⟩

/-- Whatever page is asked for, it is the page of the filtered history. -/
def PoolAuditExact (j : EventJson) (parseFromRfc3339 : Str → Option DateTime)
    (es : List AuditEvent) (poolPda : Str) (q : PoolAuditQuery) : Prop :=
  ∀ limit offset, 1 ≤ limit → limit ≤ 200 →
    poolAudit j parseFromRfc3339 (j.logAll es) poolPda { q with limit, offset } =
      pageOf poolPda { q with limit, offset }
        ((poolHistory es poolPda).filter (q.keeps parseFromRfc3339))

/-- The place of an event in the resource index. -/
def AuditEvent.indexKey (e : AuditEvent) : Str :=
  e.resourceKey.getD []

/-- How many of the events that a listing of `r` meets before `e` can be read. -/
def readableBefore (j : EventJson) (es : List AuditEvent) (r : Str) (e : AuditEvent) : Nat :=
  (es.filter fun e' => (e'.resourceId = some r ∨ Lookalike r e') ∧ (j.readBack e').isSome ∧
    e'.indexKey < e.indexKey).length

/-- The events of the pool that pass the filter read back and are among the first thousand that
can be read, and nothing else among these passes it. -/
structure FoundByFilter (j : EventJson) (parseFromRfc3339 : Str → Option DateTime)
    (es : List AuditEvent) (poolPda : Str) (q : PoolAuditQuery) : Prop where
  found : ∀ e ∈ es, e.resourceId = some poolPda → q.keeps parseFromRfc3339 e →
    j.readBack e = some e ∧ readableBefore j es poolPda e < 1000
  nothingElse : ∀ e ∈ es, e.resourceId = some poolPda ∨ Lookalike poolPda e →
    readableBefore j es poolPda e < 1000 → ∀ x, j.readBack e = some x →
      q.keeps parseFromRfc3339 x → e.resourceId = some poolPda ∧ x = e

/-- The events of the pool read back, and no other resource looks like it. -/
structure ListedAlone (j : EventJson) (es : List AuditEvent) (poolPda : Str) : Prop where
  reads : ∀ e ∈ es, e.resourceId = some poolPda → j.readBack e = some e
  alone : ∀ e ∈ es, ¬Lookalike poolPda e

/-! ## The order of the index -/

theorem mem_poolHistory_iff {es : List AuditEvent} {r : Str} {e : AuditEvent} :
    e ∈ poolHistory es r ↔ e ∈ es ∧ e.resourceId = some r := by
  rw [poolHistory, (List.mergeSort_perm _ _).mem_iff, List.mem_filter, decide_eq_true_iff]

theorem notAfter_iff {a b : AuditEvent} :
    notAfter a b = true ↔ b.timestamp.timestamp < a.timestamp.timestamp ∨
      a.timestamp.timestamp = b.timestamp.timestamp ∧ a.eventId ≤ b.eventId := by
  simp [notAfter]

theorem notAfter_trans (a b c : AuditEvent) (hab : notAfter a b = true)
    (hbc : notAfter b c = true) : notAfter a c = true := by
  rw [notAfter_iff] at *
  rcases hab with hab | ⟨hab, hida⟩ <;> rcases hbc with hbc | ⟨hbc, hidb⟩
  · exact Or.inl (by omega)
  · exact Or.inl (by omega)
  · exact Or.inl (by omega)
  · exact Or.inr ⟨by omega, hida.trans hidb⟩

theorem notAfter_total (a b : AuditEvent) : (notAfter a b || notAfter b a) = true := by
  rw [Bool.or_eq_true, notAfter_iff, notAfter_iff]
  rcases lt_trichotomy a.timestamp.timestamp b.timestamp.timestamp with h | h | h
  · exact Or.inr (Or.inl h)
  · rcases le_total a.eventId b.eventId with hid | hid
    · exact Or.inl (Or.inr ⟨h, hid⟩)
    · exact Or.inr (Or.inr ⟨h.symm, hid⟩)
  · exact Or.inl (Or.inl h)

/-- The index lists the events of one resource in this order. -/
theorem notAfter_of_key_lt {a b : AuditEvent} {r k k' : Str} (ha : a.resourceId = some r)
    (hb : b.resourceId = some r) (hka : a.resourceKey = some k) (hkb : b.resourceKey = some k')
    (ha0 : 0 ≤ a.timestamp.timestamp) (hb0 : 0 ≤ b.timestamp.timestamp) (hlt : k < k') :
    notAfter a b = true := by
  rw [notAfter_iff]
  rcases (timestamp_le_of_key_lt ha hb hka hkb ha0 hb0 hlt).lt_or_eq with hts | hts
  · exact Or.inl hts
  · refine Or.inr ⟨hts.symm, ?_⟩
    have hka' : makePoolTsKey r a.timestamp.timestamp a.eventId = k := by
      simpa [AuditEvent.resourceKey, ha] using hka
    have hkb' : makePoolTsKey r b.timestamp.timestamp b.eventId = k' := by
      simpa [AuditEvent.resourceKey, hb] using hkb
    rw [← hka', ← hkb', hts, makePoolTsKey, makePoolTsKey, append_lt_append_left_iff,
      List.cons_lt_cons_self] at hlt
    exact hlt.le

/-- The events of the pool in the index are its history. -/
theorem filter_listed {j : EventJson} {es : List AuditEvent} (hes : AdmissibleEvents es) (r : Str) :
    (listed (j.logAll es) es r).filter (fun e => e.resourceId = some r) = poolHistory es r := by
  have h := logged_logAll (j := j) hes.toDistinctUuids
  have hperm : ((listed (j.logAll es) es r).filter fun e => e.resourceId = some r).Perm
      (es.filter fun e => e.resourceId = some r) := by
    refine (List.perm_ext_iff_of_nodup ((h.nodup_listed r).filter _)
      (hes.nodup.filter _)).mpr fun e => ?_
    simp only [List.mem_filter, decide_eq_true_eq, h.mem_listed_iff]
    exact ⟨fun he => ⟨he.1.1, he.2⟩, fun he => ⟨⟨he.1, Or.inl he.2⟩, he.2⟩⟩
  have hsorted : (poolHistory es r).Pairwise fun a b => notAfter a b = true :=
    List.pairwise_mergeSort notAfter_trans notAfter_total _
  refine List.Perm.eq_of_pairwise ?_ ?_ hsorted (hperm.trans (List.mergeSort_perm _ _).symm)
  · intro a b ha hb hab hba
    have hmema := List.mem_of_mem_filter (hperm.mem_iff.mp ha)
    have hmemb := (mem_poolHistory_iff.mp hb).1
    rw [notAfter_iff] at hab hba
    have hid : a.eventId = b.eventId := by
      rcases hab with hab | ⟨hab, hida⟩ <;> rcases hba with hba | ⟨hba, hidb⟩
      · omega
      · omega
      · omega
      · exact le_antisymm hida hidb
    exact hes.eq_of_eventId_eq hmema hmemb hid
  · refine List.pairwise_filter.mpr ((h.indexes_byResource r).pairwise_indexed h.ids ?_)
    intro a ha b hb k k' hk hk' _ _ hlt hra hrb
    exact notAfter_of_key_lt (of_decide_eq_true hra) (of_decide_eq_true hrb) hk hk'
      (hes.since1970 a ha) (hes.since1970 b hb) hlt

/-- The listing is in the order of the keys. -/
theorem pairwise_listed {j : EventJson} {es : List AuditEvent} (hes : DistinctUuids es) (r : Str) :
    (listed (j.logAll es) es r).Pairwise fun a b => a.indexKey < b.indexKey := by
  have h := logged_logAll (j := j) hes
  refine (h.indexes_byResource r).pairwise_indexed h.ids fun a _ b _ k k' hk hk' _ _ hlt => ?_
  rwa [AuditEvent.indexKey, AuditEvent.indexKey, hk, hk']

/-! ## The part that is searched -/

section Lists

variable {α β : Type*}

/-- The first results of a reading are the results of the first items that can be read. -/
theorem take_filterMap (read : α → Option β) : ∀ (l : List α) (n : Nat),
    (l.filterMap read).take n = ((l.filter fun a => (read a).isSome).take n).filterMap read
  | [], n => by simp
  | a :: l, n => by
    cases hread : read a with
    | none => rw [List.filterMap_cons_none hread, List.filter_cons_of_neg (by simp [hread]),
        take_filterMap read l]
    | some b =>
      rw [List.filterMap_cons_some hread, List.filter_cons_of_pos (by simp [hread])]
      cases n with
      | zero => simp
      | succ n =>
        rw [List.take_succ_cons, List.take_succ_cons, List.filterMap_cons_some hread,
          take_filterMap read l]

/-- In a list in increasing order an item is among the first ones if and only if few items are
smaller. -/
theorem mem_take_iff_of_pairwise {γ : Type*} [Preorder γ] [DecidableLT γ] {key : α → γ} {l : List α}
    (hl : l.Pairwise fun a b => key a < key b) {x : α} (hx : x ∈ l) {n : Nat} :
    x ∈ l.take n ↔ (l.filter fun a => key a < key x).length < n := by
  obtain ⟨before, after, rfl⟩ := List.append_of_mem hx
  obtain ⟨-, hafter, hlt⟩ := List.pairwise_append.mp hl
  have hnone : (x :: after).filter (fun a => key a < key x) = [] := by
    refine List.filter_eq_nil_iff.mpr fun a ha => ?_
    rcases List.mem_cons.mp ha with rfl | ha
    · simp
    · simpa using lt_asymm (List.rel_of_pairwise_cons hafter ha)
  have hall : before.filter (fun a => key a < key x) = before :=
    List.filter_eq_self.mpr fun a ha => decide_eq_true (hlt a ha x List.mem_cons_self)
  rw [List.filter_append, hnone, hall, List.append_nil]
  constructor
  · intro hmem
    by_contra hge
    rw [List.take_append_of_le_length (not_lt.mp hge)] at hmem
    exact lt_irrefl _ (hlt x (List.mem_of_mem_take hmem) x List.mem_cons_self)
  · intro hlen
    rw [List.take_append, List.take_of_length_le hlen.le]
    refine List.mem_append_right _ ?_
    obtain ⟨m, hm⟩ := Nat.exists_eq_add_of_lt hlen
    rw [hm, show before.length + m + 1 - before.length = m + 1 by omega, List.take_succ_cons]
    exact List.mem_cons_self

/-- A part of a list has all of its items of a kind if it has each of them. -/
theorem filter_eq_of_sublist {part l : List α} {kind : α → Bool} (hpart : part.Sublist l)
    (hl : l.Nodup) (h : ∀ x ∈ l, kind x = true → x ∈ part) : part.filter kind = l.filter kind := by
  refine (hpart.filter kind).eq_of_length_le (List.Subperm.length_le ?_)
  refine List.subperm_of_subset (hl.filter kind) fun x hx => ?_
  obtain ⟨hmem, hkind⟩ := List.mem_filter.mp hx
  exact List.mem_filter.mpr ⟨h x hmem hkind, hkind⟩

end Lists

/-- The events a filter is applied to. -/
def searched (j : EventJson) (es : List AuditEvent) (r : Str) : List AuditEvent :=
  ((listed (j.logAll es) es r).filter fun e => (j.readBack e).isSome).take 1000

section Searched

variable {j : EventJson} {es : List AuditEvent} {r : Str}

theorem searched_sublist : (searched j es r).Sublist (listed (j.logAll es) es r) :=
  (List.take_sublist _ _).trans List.filter_sublist

theorem mem_searched_iff (hes : DistinctUuids es) {e : AuditEvent} :
    e ∈ searched j es r ↔ e ∈ listed (j.logAll es) es r ∧ (j.readBack e).isSome ∧
      readableBefore j es r e < 1000 := by
  have h := logged_logAll (j := j) hes
  have hcount : (((listed (j.logAll es) es r).filter fun e => (j.readBack e).isSome).filter
      fun e' => e'.indexKey < e.indexKey).length = readableBefore j es r e := by
    refine List.Perm.length_eq ((List.perm_ext_iff_of_nodup
      (((h.nodup_listed r).filter _).filter _) (hes.nodup.filter _)).mpr fun e' => ?_)
    simp only [List.mem_filter, h.mem_listed_iff, decide_eq_true_eq, and_assoc]
  constructor
  · intro hmem
    have hread := List.mem_of_mem_take hmem
    rw [searched, mem_take_iff_of_pairwise ((pairwise_listed hes r).filter _) hread, hcount] at hmem
    obtain ⟨hlisted, hsome⟩ := List.mem_filter.mp hread
    exact ⟨hlisted, hsome, hmem⟩
  · rintro ⟨hlisted, hsome, hlt⟩
    have hread : e ∈ (listed (j.logAll es) es r).filter fun e => (j.readBack e).isSome :=
      List.mem_filter.mpr ⟨hlisted, hsome⟩
    rw [searched, mem_take_iff_of_pairwise ((pairwise_listed hes r).filter _) hread, hcount]
    exact hlt

/-- What is read from the listing as an event of it is read from the event itself. -/
theorem eq_of_readBack (hes : DistinctUuids es) (hserde : ∀ e ∈ es, j.KeepsId e)
    {e x : AuditEvent} (he : e ∈ listed (j.logAll es) es r)
    (hx : x ∈ listed (j.logAll es) es r) (hread : j.readBack e = some x) : x = e := by
  have h := logged_logAll (j := j) hes
  have hmem := (h.mem_listed_iff.mp he).1
  exact hes.eq_of_eventId_eq (h.mem_listed_iff.mp hx).1 hmem (hserde e hmem x hread)

end Searched

/-! ## The pages -/

section Pages

variable {j : EventJson} {parseFromRfc3339 : Str → Option DateTime} {es : List AuditEvent}
  {r : Str} {q : PoolAuditQuery}

theorem PoolAuditQuery.keeps_of_not_hasFilters (h : ¬q.hasFilters = true) (e : AuditEvent) :
    q.keeps parseFromRfc3339 e = true := by
  simp only [hasFilters, Bool.or_eq_true, not_or, Option.not_isSome_iff_eq_none] at h
  obtain ⟨⟨⟨⟨htype, hactor⟩, hstatus⟩, hfrom⟩, hto⟩ := h
  simp [keeps, eventTypeFilter, htype, hactor, hstatus, hfrom, hto]

/-- With a filter the endpoint shows a page of what passes it in the part that is searched. -/
theorem poolAudit_filtered (hes : DistinctUuids es) (hlimit : q.limit ≤ 200)
    (hfilters : q.hasFilters = true) :
    poolAudit j parseFromRfc3339 (j.logAll es) r q =
      pageOf r q (((searched j es r).filterMap j.readBack).filter (q.keeps parseFromRfc3339)) := by
  unfold poolAudit pageOf
  dsimp only
  rw [(logged_logAll hes).listAuditByResource_eq, min_eq_left hlimit]
  simp only [if_pos hfilters, List.drop_zero, take_filterMap]
  rfl

/-- Without filters it shows a page of the listing. -/
theorem poolAudit_unfiltered (hes : DistinctUuids es) (hlimit : q.limit ≤ 200)
    (hfilters : ¬q.hasFilters = true) :
    poolAudit j parseFromRfc3339 (j.logAll es) r q =
      ⟨r, (((listed (j.logAll es) es r).drop q.offset).filterMap j.readBack).take q.limit,
        (listed (j.logAll es) es r).length⟩ := by
  have hall : ∀ l : List AuditEvent, l.filter (q.keeps parseFromRfc3339) = l := fun l =>
    List.filter_eq_self.mpr fun e _ => PoolAuditQuery.keeps_of_not_hasFilters hfilters e
  have h := logged_logAll (j := j) hes
  unfold poolAudit
  dsimp only
  rw [h.listAuditByResource_eq, h.countAuditByResource_eq, min_eq_left hlimit]
  simp only [if_neg hfilters, hall]

/-- Lists with the same pages are the same. -/
theorem eq_of_pageOf {l l' : List AuditEvent}
    (h : ∀ offset, pageOf r { q with limit := 1, offset } l =
      pageOf r { q with limit := 1, offset } l') : l = l' := by
  refine List.ext_getElem? fun i => ?_
  have hpage : (l.drop i).take 1 = (l'.drop i).take 1 := congrArg PoolAuditResponse.events (h i)
  have hhead := congrArg List.head? hpage
  simpa [List.head?_take, List.head?_drop] using hhead

/-- If what passes in the part that is searched is the filtered history, then an event of either is
an event of the other and is read from itself. -/
theorem foundByFilter_of_eq (hids : DistinctUuids es) (hserde : ∀ e ∈ es, j.KeepsId e)
    (heq : ((searched j es r).filterMap j.readBack).filter (q.keeps parseFromRfc3339) =
      (poolHistory es r).filter (q.keeps parseFromRfc3339)) :
    FoundByFilter j parseFromRfc3339 es r q := by
  have h := logged_logAll (j := j) hids
  have hmem : ∀ x, (∃ e ∈ searched j es r, j.readBack e = some x) ∧
      q.keeps parseFromRfc3339 x = true ↔
        (x ∈ es ∧ x.resourceId = some r) ∧ q.keeps parseFromRfc3339 x = true := by
    intro x
    rw [← mem_poolHistory_iff, ← List.mem_filter, ← heq, List.mem_filter, List.mem_filterMap]
  refine ⟨fun e he hr hkeeps => ?_, fun e he hlisted hlt x hread hkeeps => ?_⟩
  · obtain ⟨⟨e', he', hread⟩, -⟩ := (hmem e).mpr ⟨⟨he, hr⟩, hkeeps⟩
    have hself := eq_of_readBack hids hserde (searched_sublist.subset he')
      (h.mem_listed_iff.mpr ⟨he, Or.inl hr⟩) hread
    rw [← hself] at hread he'
    exact ⟨hread, ((mem_searched_iff hids).mp he').2.2⟩
  · have hlisted' := h.mem_listed_iff.mpr ⟨he, hlisted⟩
    have hsearched : e ∈ searched j es r :=
      (mem_searched_iff hids).mpr ⟨hlisted', by rw [hread]; rfl, hlt⟩
    obtain ⟨⟨hx, hr⟩, -⟩ := (hmem x).mp ⟨⟨e, hsearched, hread⟩, hkeeps⟩
    have hself := eq_of_readBack hids hserde hlisted' (h.mem_listed_iff.mpr ⟨hx, Or.inl hr⟩) hread
    exact ⟨hself ▸ hr, hself⟩

/-- If the filter finds the events of the pool and nothing else, then those of the part that is
searched pass, as they are, -/
theorem FoundByFilter.filter_searched (hfound : FoundByFilter j parseFromRfc3339 es r q)
    (hids : DistinctUuids es) :
    ((searched j es r).filterMap j.readBack).filter (q.keeps parseFromRfc3339) =
      (searched j es r).filter fun e =>
        e.resourceId = some r && q.keeps parseFromRfc3339 e := by
  rw [List.filter_filterMap, ← List.filterMap_eq_filter]
  refine List.filterMap_congr fun e he => ?_
  obtain ⟨hmem, hkind⟩ :=
    (logged_logAll (j := j) hids).mem_listed_iff.mp (searched_sublist.subset he)
  obtain ⟨-, hsome, hlt⟩ := (mem_searched_iff hids).mp he
  obtain ⟨x, hread⟩ := Option.isSome_iff_exists.mp hsome
  by_cases hkeeps : q.keeps parseFromRfc3339 x = true
  · obtain ⟨hr, rfl⟩ := hfound.nothingElse e hmem hkind hlt x hread hkeeps
    simp [hread, hkeeps, hr, Option.filter, Option.guard]
  · have hno : ¬(e.resourceId = some r ∧ q.keeps parseFromRfc3339 e = true) := by
      rintro ⟨hr, hown⟩
      have hself := (hfound.found e hmem hr hown).1
      rw [hread, Option.some.injEq] at hself
      exact hkeeps (hself ▸ hown)
    simp only [hread, Option.filter, hkeeps, Option.guard]
    simpa using hno

/-- and all of them are in that part. -/
theorem FoundByFilter.searched_eq_listed (hfound : FoundByFilter j parseFromRfc3339 es r q)
    (hids : DistinctUuids es) :
    (searched j es r).filter (fun e => e.resourceId = some r && q.keeps parseFromRfc3339 e) =
      (listed (j.logAll es) es r).filter fun e =>
        e.resourceId = some r && q.keeps parseFromRfc3339 e := by
  have h := logged_logAll (j := j) hids
  refine filter_eq_of_sublist searched_sublist (h.nodup_listed r) fun e he hkind => ?_
  simp only [Bool.and_eq_true, decide_eq_true_eq] at hkind
  obtain ⟨hread, hlt⟩ := hfound.found e (h.mem_listed_iff.mp he).1 hkind.1 hkind.2
  exact (mem_searched_iff hids).mpr ⟨he, by rw [hread]; rfl, hlt⟩

/-- What passes in the part that is searched is the filtered history if and only if the filter
finds the events of the pool and nothing else. -/
theorem searched_filter_eq_iff (hes : AdmissibleEvents es) (hserde : ∀ e ∈ es, j.KeepsId e) :
    ((searched j es r).filterMap j.readBack).filter (q.keeps parseFromRfc3339) =
        (poolHistory es r).filter (q.keeps parseFromRfc3339) ↔
      FoundByFilter j parseFromRfc3339 es r q := by
  refine ⟨foundByFilter_of_eq hes.toDistinctUuids hserde, fun hfound => ?_⟩
  rw [hfound.filter_searched hes.toDistinctUuids, hfound.searched_eq_listed hes.toDistinctUuids,
    ← filter_listed (j := j) hes, List.filter_filter]
  exact List.filter_congr fun e _ => Bool.and_comm _ _

/-- The pages of the listing are those of the history, and so is the number of its entries, if and
only if the pool is listed alone and all of it reads back. -/
theorem listed_pages_eq_iff (hes : AdmissibleEvents es) (hserde : ∀ e ∈ es, j.KeepsId e) :
    (∀ limit offset, 1 ≤ limit → limit ≤ 200 →
      (((listed (j.logAll es) es r).drop offset).filterMap j.readBack).take limit =
          ((poolHistory es r).drop offset).take limit ∧
        (listed (j.logAll es) es r).length = (poolHistory es r).length) ↔
      ListedAlone j es r := by
  have hids := hes.toDistinctUuids
  have h := logged_logAll (j := j) hids
  have hhistory := filter_listed (j := j) hes r
  constructor
  · intro heq
    have hown : ∀ e ∈ listed (j.logAll es) es r, e.resourceId = some r := by
      have hlength := (heq 1 0 le_rfl (by omega)).2
      rw [← hhistory, eq_comm, List.length_filter_eq_length_iff] at hlength
      exact fun e he => of_decide_eq_true (hlength e he)
    refine ⟨fun e he hr => ?_, fun e he hlook => ?_⟩
    · have hmem := h.mem_listed_iff.mpr ⟨he, Or.inl hr⟩
      rw [List.filter_eq_self.mpr fun e he => decide_eq_true (hown e he)] at hhistory
      obtain ⟨i, hi, rfl⟩ := List.mem_iff_getElem.mp hmem
      have hpage := (heq 1 i le_rfl (by omega)).1
      rw [← hhistory, List.drop_eq_getElem_cons hi, List.take_succ_cons] at hpage
      have hfirst : (listed (j.logAll es) es r)[i] ∈
          ((listed (j.logAll es) es r).drop i).filterMap j.readBack := by
        refine List.mem_of_mem_take (i := 1) ?_
        rw [List.drop_eq_getElem_cons hi, hpage]
        exact List.mem_cons_self
      obtain ⟨e', he', hread⟩ := List.mem_filterMap.mp hfirst
      rwa [← eq_of_readBack hids hserde (List.mem_of_mem_drop he') hmem hread] at hread
    · exact hlook.resourceId_ne (hown e (h.mem_listed_iff.mpr ⟨he, Or.inr hlook⟩))
  · intro halone
    have hown : ∀ e ∈ listed (j.logAll es) es r, e ∈ es ∧ e.resourceId = some r := by
      intro e he
      obtain ⟨hmem, hkind⟩ := h.mem_listed_iff.mp he
      exact ⟨hmem, hkind.resolve_right (halone.alone e hmem)⟩
    rw [List.filter_eq_self.mpr fun e he => decide_eq_true (hown e he).2] at hhistory
    rw [← hhistory]
    intro limit offset _ _
    refine ⟨?_, rfl⟩
    congr 1
    refine (List.filterMap_congr fun e he => ?_).trans List.filterMap_some
    obtain ⟨hmem, hr⟩ := hown e (List.mem_of_mem_drop he)
    exact halone.reads e hmem hr

end Pages

/-- A query of the pool with the given number. -/
def numberedExecution (i : Nat) : AuditEvent where
  eventId := "00000000-0000-4000-8000-".toList ++ hexPad 12 i
  timestamp := sampleDate
  eventType := .drtExecuted
  userId := some "analyst".toList
  resourceType := some "drt_pool".toList
  resourceId := some samplePda
  details := none
  success := true
  hmac := none
  correlationId := none
  poolPda := some samplePda

/-- So many queries of the pool. -/
def numberedExecutions (n : Nat) : List AuditEvent :=
  (List.range n).map numberedExecution

/-- serde_json on these events. -/
def numberedJson (n : Nat) : EventJson :=
  .reading (numberedExecutions n)

/-- All executions, fifty on a page. -/
def executionsQuery : PoolAuditQuery :=
  ⟨50, 0, some "drt_executed".toList, none, none, none, none⟩

theorem isUuid_append_hexPad {s : Str} (hlength : s.length = 24)
    (hs : (s.all fun c => "0123456789abcdef-".toList.contains c) = true) (i : Nat) :
    isUuid (s ++ hexPad 12 i) := by
  have hdigits : "0123456789abcdef-".toList = "0123456789abcdef".toList ++ ['-'] := by
    decide +kernel
  rw [isUuid, Bool.and_eq_true, List.length_append, length_hexPad, hlength, List.all_append,
    Bool.and_eq_true]
  refine ⟨rfl, hs, List.all_eq_true.mpr fun c hc => ?_⟩
  rw [hdigits]
  exact List.contains_iff_mem.mpr (List.mem_append_left _ (mem_hexPad hc))

section Numbered

variable {n : Nat}

theorem length_numberedExecutions : (numberedExecutions n).length = n := by
  simp [numberedExecutions]

theorem admissible_numberedExecutions (hn : n ≤ 16 ^ 12) :
    AdmissibleEvents (numberedExecutions n) := by
  refine ⟨⟨?_, fun e he => ?_⟩, fun e he => ?_⟩
  · rw [numberedExecutions, List.map_map]
    refine List.Nodup.map_on (fun i hi j hj heq => ?_) List.nodup_range
    have hhex : hexPad 12 i = hexPad 12 j := List.append_cancel_left heq
    rw [List.mem_range] at hi hj
    rcases lt_trichotomy i j with h | h | h
    · exact absurd hhex (ne_of_lt (hexPad_lt_hexPad h (by omega)))
    · exact h
    · exact absurd hhex (ne_of_gt (hexPad_lt_hexPad h (by omega)))
  · obtain ⟨i, -, rfl⟩ := List.mem_map.mp he
    exact isUuid_append_hexPad (by decide +kernel) (by decide +kernel) i
  · obtain ⟨i, -, rfl⟩ := List.mem_map.mp he
    change 0 ≤ sampleDate.timestamp
    decide

theorem resourceId_numbered {e : AuditEvent} (he : e ∈ numberedExecutions n) :
    e.resourceId = some samplePda := by
  obtain ⟨i, -, rfl⟩ := List.mem_map.mp he
  rfl

theorem keeps_numbered {e : AuditEvent} (he : e ∈ numberedExecutions n) :
    executionsQuery.keeps (fun _ => none) e = true := by
  obtain ⟨i, -, rfl⟩ := List.mem_map.mp he
  have htype : executionsQuery.eventTypeFilter = some ["drt_executed".toList] := by decide +kernel
  unfold PoolAuditQuery.keeps
  rw [htype]
  simp only [executionsQuery, Option.bind_none, Bool.and_true, List.any_cons, List.any_nil,
    Bool.or_false]
  exact decide_eq_true rfl

/-- Each of them reads back. -/
theorem readBack_numbered (hn : n ≤ 16 ^ 12) {e : AuditEvent} (he : e ∈ numberedExecutions n) :
    (numberedJson n).readBack e = some e :=
  EventJson.reading_readBack (admissible_numberedExecutions hn).toDistinctUuids he

theorem keepsId_numbered (hn : n ≤ 16 ^ 12) :
    ∀ e ∈ numberedExecutions n, (numberedJson n).KeepsId e := by
  intro e he x hread
  rw [readBack_numbered hn he, Option.some.injEq] at hread
  rw [hread]

/-- All of them are the history of the pool. -/
theorem length_poolHistory_numbered :
    (poolHistory (numberedExecutions n) samplePda).length = n := by
  rw [poolHistory, List.length_mergeSort,
    List.filter_eq_self.mpr fun e he => decide_eq_true (resourceId_numbered he),
    length_numberedExecutions]

end Numbered

end RelationalSdk
