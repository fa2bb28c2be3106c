import RelationalSdk.CivilTime
import RelationalSdk.PoolRegistration
import RelationalSdk.PoolTables

/-!
# Browsing all pools

`list_all_pools` reads every stored pool, keeps those with the wanted state whose name contains the
search text, sorts them, and returns one page. The times of creation are compared as texts.

`pagesListAll` : for both orders by creation, the pages one after the other are the pools that pass
the filters, each once, ordered by the instant of creation, and every page reports their number. A
sort that compares texts is one that compares instants, because `rfc3339` is monotone.
-/

namespace RelationalSdk

open Text KeyedTable CivilTime

/-! ## The listing -/

/-- The fields of `PoolMetadata` that the listing reads, other than the address. -/
structure PoolListing where
  poolName : Str
  kind : PoolKind
  drts : Table Str DrtMetadata
  ownerPubkey : Option Str
  schemaId : Str
  state : PoolState
  createdOnchainAt : DateTime
  totalCredentials : Nat
  revokedCount : Nat

structure MarketplaceDrtEntry where
  drtType : Str
  supply : UInt64
  remainingSupply : UInt64

structure MarketplacePoolEntry where
  poolPda : Str
  poolName : Str
  kind : Str
  owner : Str
  schemaId : Str
  state : Str
  totalRows : Nat
  revokedCount : Nat
  createdAt : Str
  drtCount : Nat
  drts : List MarketplaceDrtEntry

structure ListAllPoolsQuery where
  state : Option Str
  search : Option Str
  sort : Str
  limit : Nat
  offset : Nat

structure AllPoolsResponse where
  pools : List MarketplacePoolEntry
  total : Nat
  limit : Nat
  offset : Nat

/-- `to_rfc3339`. -/
def DateTime.toRfc3339 (d : DateTime) : Str :=
  rfc3339 d.timestamp d.nanos

def stateStr : PoolState → Str
  | .needsInit => "needs_init".toList
  | .ready => "ready".toList

def kindStr : PoolKind → Str
  | .malta => "malta".toList
  | .iobErp => "iob_erp".toList

/-- The entry of a pool. -/
def marketplaceEntry (m : PoolMeta PoolListing) : MarketplacePoolEntry :=
  let poolDrts := m.fields.drts.entries.map fun d => ⟨d.1, d.2.supply, d.2.supply⟩
  { poolPda := m.poolPda
    poolName := m.fields.poolName
    kind := kindStr m.fields.kind
    owner := m.fields.ownerPubkey.getD "unknown".toList
    schemaId := m.fields.schemaId
    state := stateStr m.fields.state
    totalRows := m.fields.totalCredentials
    revokedCount := m.fields.revokedCount
    createdAt := m.fields.createdOnchainAt.toRfc3339
    drtCount := poolDrts.length
    drts := poolDrts }

section Listing

variable (toLowercase : Str → Str)

/-- The two filters. -/
def passesFilters (query : ListAllPoolsQuery) (m : PoolMeta PoolListing) : Bool :=
  (query.state.all fun s => stateStr m.fields.state = s) &&
    query.search.all fun s => decide (toLowercase s <:+: toLowercase m.fields.poolName)

/-- The comparison of a sort order : `a` may stand before `b`. -/
def sortLe (sort : Str) (a b : MarketplacePoolEntry) : Bool :=
  if sort = "created_asc".toList then a.createdAt ≤ b.createdAt
  else if sort = "name_asc".toList then toLowercase a.poolName ≤ toLowercase b.poolName
  else if sort = "credentials_desc".toList then b.totalRows ≤ a.totalRows
  else b.createdAt ≤ a.createdAt

/-- `list_all_pools`. -/
def listAllPools (t : PoolTables PoolListing) (query : ListAllPoolsQuery) : AllPoolsResponse :=
  let entries := (t.listAllPoolMetas.filter (passesFilters toLowercase query)).map marketplaceEntry
  -- `sort_by` keeps the order of equal entries
  let entries := entries.mergeSort (sortLe toLowercase query.sort)
  let total := entries.length
  let limit := min query.limit 100
  let offset := min query.offset total
  { pools := (entries.drop offset).take limit
    total := total
    limit := limit
    offset := offset }

end Listing

/-! ## Instants -/

/-- The instant of a time, in nanoseconds. -/
def DateTime.instant (d : DateTime) : Int :=
  CivilTime.instant d.timestamp d.nanos

/-- A time in the years 0 to 9999, at nanosecond precision and not in a leap second. -/
def DateTime.Plain (d : DateTime) : Prop :=
  FourDigitYear d.timestamp ∧ d.nanos < 1000000000

theorem toRfc3339_le_iff {d e : DateTime} (hd : d.Plain) (he : e.Plain) :
    d.toRfc3339 ≤ e.toRfc3339 ↔ d.instant ≤ e.instant := by
  rw [← not_lt, ← not_lt, not_iff_not]
  exact rfc3339_lt_iff he.1 hd.1 he.2 hd.2

/-- The order of two pools in a listing by creation. -/
def CreatedLe (sort : Str) (a b : PoolMeta PoolListing) : Prop :=
  if sort = "created_asc".toList then
    a.fields.createdOnchainAt.instant ≤ b.fields.createdOnchainAt.instant
  else b.fields.createdOnchainAt.instant ≤ a.fields.createdOnchainAt.instant

/-! ## Pages -/

theorem drop_min_length {α : Type*} (l : List α) (k : Nat) :
    l.drop (min k l.length) = l.drop k := by
  rcases le_total k l.length with hk | hk
  · rw [min_eq_left hk]
  · rw [min_eq_right hk, List.drop_length, List.drop_eq_nil_of_le hk]

section Pages

variable (toLowercase : Str → Str)

/-- The pools that pass the filters, in the order of the listing. -/
def sortedMetas (t : PoolTables PoolListing) (query : ListAllPoolsQuery) :
    List (PoolMeta PoolListing) :=
  (t.listAllPoolMetas.filter (passesFilters toLowercase query)).mergeSort fun a b =>
    sortLe toLowercase query.sort (marketplaceEntry a) (marketplaceEntry b)

variable {toLowercase}

theorem map_sortedMetas (t : PoolTables PoolListing) (query : ListAllPoolsQuery) :
    (sortedMetas toLowercase t query).map marketplaceEntry =
      ((t.listAllPoolMetas.filter (passesFilters toLowercase query)).map
        marketplaceEntry).mergeSort (sortLe toLowercase query.sort) :=
  List.map_mergeSort fun _ _ _ _ => rfl

/-- A page is a slice of the sorted pools. -/
theorem listAllPools_eq (t : PoolTables PoolListing) (query : ListAllPoolsQuery) :
    (listAllPools toLowercase t query).pools =
        (((sortedMetas toLowercase t query).map marketplaceEntry).drop query.offset).take
          (min query.limit 100) ∧
      (listAllPools toLowercase t query).total = (sortedMetas toLowercase t query).length := by
  have hlength : ((sortedMetas toLowercase t query).map marketplaceEntry).length =
      (sortedMetas toLowercase t query).length := List.length_map _
  simp only [listAllPools, ← map_sortedMetas]
  exact ⟨by rw [drop_min_length], hlength⟩

variable {query : ListAllPoolsQuery}

theorem perm_sortedMetas (t : PoolTables PoolListing) (query : ListAllPoolsQuery) :
    (sortedMetas toLowercase t query).Perm
      (t.listAllPoolMetas.filter (passesFilters toLowercase query)) :=
  List.mergeSort_perm _ _

/-- A sort by a total preorder. -/
theorem pairwise_sortedMetas_of (toLowercase : Str → Str) (query : ListAllPoolsQuery)
    {r : PoolMeta PoolListing → PoolMeta PoolListing → Prop} [DecidableRel r]
    (htrans : ∀ a b c, r a b → r b c → r a c) (htotal : ∀ a b, r a b ∨ r b a)
    (hle : ∀ a b, sortLe toLowercase query.sort (marketplaceEntry a) (marketplaceEntry b) =
      decide (r a b)) (t : PoolTables PoolListing) :
    (sortedMetas toLowercase t query).Pairwise r := by
  simp only [sortedMetas, hle]
  have hsorted : ∀ l : List (PoolMeta PoolListing),
      (l.mergeSort fun a b => decide (r a b)).Pairwise fun a b => decide (r a b) :=
    List.pairwise_mergeSort (by simpa using htrans) (by simpa using htotal)
  exact (hsorted _).imp fun h => of_decide_eq_true h

/-- Pools sorted by the texts of their times are sorted by their instants. -/
theorem pairwise_sortedMetas {t : PoolTables PoolListing}
    (hplain : ∀ m ∈ t.listAllPoolMetas, m.fields.createdOnchainAt.Plain)
    (hsort : query.sort = "created_asc".toList ∨ query.sort = "created_desc".toList) :
    (sortedMetas toLowercase t query).Pairwise (CreatedLe query.sort) := by
  have hplain' : ∀ m ∈ sortedMetas toLowercase t query, m.fields.createdOnchainAt.Plain := by
    intro m hm
    exact hplain m (List.mem_of_mem_filter ((perm_sortedMetas t query).mem_iff.mp hm))
  unfold CreatedLe
  rcases hsort with hsort | hsort
  · have hsorted := pairwise_sortedMetas_of toLowercase query
      (r := fun a b => a.fields.createdOnchainAt.toRfc3339 ≤ b.fields.createdOnchainAt.toRfc3339)
      (fun _ _ _ => le_trans) (fun _ _ => le_total _ _)
      (fun a b => by rw [hsort, sortLe, if_pos rfl]; rfl) t
    refine hsorted.imp_of_mem fun ha hb hab => ?_
    rw [if_pos hsort]
    exact (toRfc3339_le_iff (hplain' _ ha) (hplain' _ hb)).mp hab
  · have hasc : query.sort ≠ "created_asc".toList := by
      rw [hsort]
      decide +kernel
    have hsorted := pairwise_sortedMetas_of toLowercase query
      (r := fun a b => b.fields.createdOnchainAt.toRfc3339 ≤ a.fields.createdOnchainAt.toRfc3339)
      (fun _ _ _ hab hbc => le_trans hbc hab) (fun _ _ => le_total _ _)
      (fun a b => by
        rw [hsort, sortLe, if_neg (by decide +kernel), if_neg (by decide +kernel),
          if_neg (by decide +kernel)]
        rfl) t
    refine hsorted.imp_of_mem fun ha hb hab => ?_
    rw [if_neg hasc]
    exact (toRfc3339_le_iff (hplain' _ hb) (hplain' _ ha)).mp hab

end Pages

/-- The pages of a listing by creation are the pools that pass the filters, each once, in the order
of their instants. -/
theorem pagesListAll (toLowercase : Str → Str) (t : PoolTables PoolListing)
    (query : ListAllPoolsQuery)
    (hplain : ∀ m ∈ t.listAllPoolMetas, m.fields.createdOnchainAt.Plain)
    (hsort : query.sort = "created_asc".toList ∨ query.sort = "created_desc".toList)
    {size : Nat} (hsize : 1 ≤ size) (hmax : size ≤ 100) :
    ∃ metas : List (PoolMeta PoolListing),
      metas.Perm (t.listAllPoolMetas.filter (passesFilters toLowercase query)) ∧
      metas.Pairwise (CreatedLe query.sort) ∧
      (∀ n, (metas.length + size - 1) / size ≤ n →
        pages (fun limit offset => (listAllPools toLowercase t
          { query with limit := limit, offset := offset }).pools) size n =
            metas.map marketplaceEntry) ∧
      ∀ offset, (listAllPools toLowercase t
        { query with limit := size, offset := offset }).total = metas.length := by
  refine ⟨sortedMetas toLowercase t query, perm_sortedMetas t query,
    pairwise_sortedMetas hplain hsort, fun n hn => ?_, fun offset => (listAllPools_eq t _).2⟩
  have hpage : ∀ i, (listAllPools toLowercase t
      { query with limit := size, offset := i * size }).pools =
        (((sortedMetas toLowercase t query).map marketplaceEntry).drop (i * size)).take size := by
    intro i
    rw [(listAllPools_eq t _).1]
    simp only [min_eq_left hmax]
    rfl
  simp only [pages, hpage]
  rw [flatMap_pages, List.take_of_length_le]
  rw [List.length_map]
  have hlt := (Nat.div_lt_iff_lt_mul hsize).mp (Nat.lt_succ_of_le hn)
  rw [Nat.succ_mul] at hlt
  omega

/-- A pool created some nanoseconds after the sample date. -/
def samplePoolMeta (pda name : String) (state : PoolState) (nanos : Nat) :
    PoolMeta PoolListing where
  poolPda := pda.toList
  ownerWalletId := "w1".toList
  fields :=
    { poolName := name.toList
      kind := .malta
      drts := Table.empty
      ownerPubkey := none
      schemaId := "clients".toList
      state := state
      createdOnchainAt := { sampleDate with nanos := nanos }
      totalCredentials := 0
      revokedCount := 0 }

/-- Fractions of nine, of no, of six and of three digits. The third pool is not ready. -/
def samplePoolMetas : List (PoolMeta PoolListing) :=
  [samplePoolMeta "Pda1" "Pool of clients" .ready 120500001,
    samplePoolMeta "Pda2" "Second pool" .ready 0,
    samplePoolMeta "Pda3" "Third pool" .needsInit 120500000,
    samplePoolMeta "Pda4" "POOL" .ready 120000000]

def sampleListing : PoolTables PoolListing :=
  samplePoolMetas.foldl PoolTables.upsertPoolMeta PoolTables.empty

def sampleQuery : ListAllPoolsQuery :=
  ⟨some "ready".toList, some "Pool".toList, "created_desc".toList, 2, 0⟩

theorem plain_sampleListing :
    ∀ m ∈ sampleListing.listAllPoolMetas, m.fields.createdOnchainAt.Plain := by
  have hall : sampleListing.listAllPoolMetas = samplePoolMetas := rfl
  have hdate : dateOf sampleDate.timestamp = ⟨2026, 2, 24⟩ := by decide +kernel
  have hyear : FourDigitYear sampleDate.timestamp := by
    rw [FourDigitYear, hdate]
    decide
  have hfields : ∀ m ∈ samplePoolMetas,
      m.fields.createdOnchainAt.timestamp = sampleDate.timestamp ∧
        m.fields.createdOnchainAt.nanos < 1000000000 := by
    decide
  intro m hm
  rw [hall] at hm
  obtain ⟨htimestamp, hnanos⟩ := hfields m hm
  exact ⟨htimestamp ▸ hyear, hnanos⟩

/-- Three of four pools, in pages of two. -/
theorem pagesListAll_sample :
    ((sampleListing.listAllPoolMetas.filter (passesFilters (List.map Char.toLower) sampleQuery)).map
      PoolMeta.poolPda = ["Pda1".toList, "Pda2".toList, "Pda4".toList]) ∧
    ∃ metas : List (PoolMeta PoolListing),
      metas.Perm (sampleListing.listAllPoolMetas.filter
        (passesFilters (List.map Char.toLower) sampleQuery)) ∧
      metas.Pairwise (CreatedLe sampleQuery.sort) ∧
      (∀ n, (metas.length + 2 - 1) / 2 ≤ n →
        pages (fun limit offset => (listAllPools (List.map Char.toLower) sampleListing
          { sampleQuery with limit := limit, offset := offset }).pools) 2 n =
            metas.map marketplaceEntry) ∧
      ∀ offset, (listAllPools (List.map Char.toLower) sampleListing
        { sampleQuery with limit := 2, offset := offset }).total = metas.length :=
  ⟨by decide +kernel, pagesListAll (List.map Char.toLower) sampleListing sampleQuery
    plain_sampleListing (Or.inr rfl) (by decide) (by decide)⟩

end RelationalSdk
