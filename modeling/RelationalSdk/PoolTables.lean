import RelationalSdk.Domain
import RelationalSdk.KeyedTable
import RelationalSdk.Runs

/-!
# The pool table and its owner index

`POOL_METADATA` holds a pool under its address, and `POOL_BY_OWNER` a key `owner|address` for
it, by which `list_pools_by_owner` finds the pools of a wallet. `upsert_pool_meta` writes the
key of the owner it is given and leaves the key of an earlier owner where it is, and the
listing does not look at the owner of what it finds.

`ownerIndexExact_iff` : the listing of every owner is exact throughout a run if and only if no
call of it changes the owner of a stored pool.
-/

namespace RelationalSdk

open Text KeyedTable Runs

/-- `PoolMetadata`, with the two fields that the pool table reads and all the others as they
are. -/
structure PoolMeta (μ : Type) where
  poolPda : Str
  ownerWalletId : Str
  fields : μ
  deriving DecidableEq

/-- `POOL_METADATA` and `POOL_BY_OWNER`. The JSON of a pool is the pool. -/
structure PoolTables (μ : Type) where
  metas : Table Str (PoolMeta μ)
  byOwner : Table Str Unit

namespace PoolTables

variable {μ : Type}

/-- Empty tables. -/
def empty : PoolTables μ :=
  ⟨Table.empty, Table.empty⟩

/-- The key of a pool in the owner index. -/
def ownerKey (ownerWalletId poolPda : Str) : Str :=
  ownerWalletId ++ '|' :: poolPda

/-- Insert or update pool metadata. -/
def upsertPoolMeta (t : PoolTables μ) (m : PoolMeta μ) : PoolTables μ where
  metas := t.metas.insert m.poolPda m
  byOwner := t.byOwner.insert (ownerKey m.ownerWalletId m.poolPda) ()

/-- All pools. -/
def listAllPoolMetas (t : PoolTables μ) : List (PoolMeta μ) :=
  t.metas.entries.map Prod.snd

/-- The pools of a wallet : what the keys that extend `owner|` lead to. -/
def listPoolsByOwner (t : PoolTables μ) (ownerWalletId : Str) : List (PoolMeta μ) :=
  let p := ownerWalletId ++ ['|']
  (t.byOwner.scan p).filterMap fun e => t.metas.get (e.1.drop p.length)

/-- Delete a pool, and the key of the owner it has. -/
def deletePoolMeta (t : PoolTables μ) (poolPda : Str) : PoolTables μ where
  metas := t.metas.remove poolPda
  byOwner :=
    match t.metas.get poolPda with
    | none => t.byOwner
    | some m => t.byOwner.remove (ownerKey m.ownerWalletId poolPda)

end PoolTables

open PoolTables

/-- A call that writes the pool table. -/
inductive PoolTableCall (μ : Type) where
  | upsert (m : PoolMeta μ)
  | delete (poolPda : Str)

/-- The tables after a call. -/
def poolTableStep {μ : Type} (t : PoolTables μ) : PoolTableCall μ → PoolTables μ
  | .upsert m => t.upsertPoolMeta m
  | .delete poolPda => t.deletePoolMeta poolPda

/-- Wallet ids and pool addresses are without `|`. -/
def PoolTableCall.NoBar {μ : Type} : PoolTableCall μ → Prop
  | .upsert m => '|' ∉ m.poolPda ∧ '|' ∉ m.ownerWalletId
  | .delete _ => True

instance {μ : Type} : ∀ call : PoolTableCall μ, Decidable call.NoBar
  | .upsert m => inferInstanceAs (Decidable ('|' ∉ m.poolPda ∧ '|' ∉ m.ownerWalletId))
  | .delete _ => .isTrue trivial

/-- The listing of every wallet gives the pools that it owns, each once. -/
def OwnerIndexExact {μ : Type} (t : PoolTables μ) : Prop :=
  ∀ w, (t.listPoolsByOwner w).Nodup ∧
    ∀ m, m ∈ t.listPoolsByOwner w ↔ m ∈ t.listAllPoolMetas ∧ m.ownerWalletId = w

/-- A pool that is stored keeps its owner. -/
def KeepsOwner {μ : Type} (t : PoolTables μ) : PoolTableCall μ → Prop
  | .upsert m => ∀ old ∈ t.metas.get m.poolPda, old.ownerWalletId = m.ownerWalletId
  | .delete _ => True

instance {μ : Type} (t : PoolTables μ) : ∀ call, Decidable (KeepsOwner t call)
  | .upsert m =>
    inferInstanceAs (Decidable (∀ old ∈ t.metas.get m.poolPda, old.ownerWalletId = m.ownerWalletId))
  | .delete _ => .isTrue trivial

/-! ## The keys of the index -/

/-- The index holds the keys of the stored pools and no others. -/
structure IndexedBy {μ : Type} (t : PoolTables μ) : Prop where
  metas : ∀ pda m, t.metas.get pda = some m → m.poolPda = pda ∧ '|' ∉ pda ∧ '|' ∉ m.ownerWalletId
  index : ∀ k, (t.byOwner.get k).isSome ↔
    ∃ pda m, t.metas.get pda = some m ∧ k = ownerKey m.ownerWalletId pda

section Index

variable {μ : Type} {t : PoolTables μ}

theorem mem_listAllPoolMetas {m : PoolMeta μ} :
    m ∈ t.listAllPoolMetas ↔ ∃ pda, t.metas.get pda = some m := by
  simp only [listAllPoolMetas, List.mem_map, Prod.exists, exists_eq_right, Table.get_eq_some_iff]

/-- A key leads from its owner to its pool. -/
theorem drop_ownerKey (w pda : Str) : (ownerKey w pda).drop (w ++ ['|']).length = pda := by
  have hkey : ownerKey w pda = (w ++ ['|']) ++ pda := by simp [ownerKey]
  rw [hkey, List.drop_left]

theorem isPrefix_ownerKey (w pda : Str) : List.IsPrefix (w ++ ['|']) (ownerKey w pda) :=
  ⟨pda, by simp [ownerKey]⟩

theorem ownerKey_inj {w w' pda pda' : Str} (hw : '|' ∉ w) (hw' : '|' ∉ w')
    (h : ownerKey w pda = ownerKey w' pda') : w = w' ∧ pda = pda' := by
  have hprefix : List.IsPrefix (w ++ ['|']) (ownerKey w' pda') := h ▸ isPrefix_ownerKey w pda
  obtain rfl := (isPrefix_append_cons_iff_eq hw hw').mp hprefix
  rw [← drop_ownerKey w pda, h, drop_ownerKey]
  exact ⟨rfl, rfl⟩

/-- What the scan for a wallet finds. -/
theorem IndexedBy.exists_of_mem_scan (h : IndexedBy t) {w : Str} {e : Str × Unit}
    (he : e ∈ t.byOwner.scan (w ++ ['|'])) :
    ∃ pda m, t.metas.get pda = some m ∧ m.ownerWalletId = w ∧ e.1 = ownerKey w pda := by
  obtain ⟨hmem, hscan⟩ := (Table.mem_scan _).mp he
  obtain ⟨pda, m, hm, hk⟩ := (h.index e.1).mp (by rw [(Table.get_eq_some_iff _).mpr hmem]; rfl)
  obtain ⟨-, hpda, howner⟩ := h.metas pda m hm
  rw [hk, ownerKey, isPrefix_append_cons_iff] at hscan
  rcases hscan with rfl | hscan | ⟨x, -, hscan⟩
  · exact ⟨pda, m, hm, rfl, hk⟩
  · exact absurd hscan (not_isPrefix_concat howner)
  · exact absurd hscan (not_isPrefix_concat hpda)

/-- A key in the index lists the pool it leads to. -/
theorem mem_listPoolsByOwner_of_get {w pda : Str} {m : PoolMeta μ}
    (hkey : (t.byOwner.get (ownerKey w pda)).isSome) (hm : t.metas.get pda = some m) :
    m ∈ t.listPoolsByOwner w := by
  obtain ⟨⟨⟩, hget⟩ := Option.isSome_iff_exists.mp hkey
  refine List.mem_filterMap.mpr ⟨(ownerKey w pda, ()), (Table.mem_scan _).mpr ⟨?_, ?_⟩, ?_⟩
  · exact (Table.get_eq_some_iff _).mp hget
  · exact isPrefix_ownerKey w pda
  · rw [drop_ownerKey, hm]

theorem IndexedBy.mem_listPoolsByOwner (h : IndexedBy t) {w : Str} {m : PoolMeta μ} :
    m ∈ t.listPoolsByOwner w ↔ m ∈ t.listAllPoolMetas ∧ m.ownerWalletId = w := by
  rw [mem_listAllPoolMetas]
  constructor
  · intro hm
    obtain ⟨e, he, hget⟩ := List.mem_filterMap.mp hm
    obtain ⟨pda, m', hm', howner, hk⟩ := h.exists_of_mem_scan he
    rw [hk, drop_ownerKey, hm'] at hget
    rw [← Option.some.inj hget]
    exact ⟨⟨pda, hm'⟩, howner⟩
  · rintro ⟨⟨pda, hm⟩, rfl⟩
    exact mem_listPoolsByOwner_of_get ((h.index _).mpr ⟨pda, m, hm, rfl⟩) hm

theorem IndexedBy.nodup_listPoolsByOwner (h : IndexedBy t) (w : Str) :
    (t.listPoolsByOwner w).Nodup := by
  have hsorted := t.byOwner.pairwise_scan (w ++ ['|'])
  refine List.pairwise_filterMap.mpr (hsorted.imp_of_mem fun {a b} ha hb hlt => ?_)
  -- Two keys of one owner lead to two addresses, and a pool knows its address.
  rintro m hm _ hm' rfl
  obtain ⟨pda, -, -, -, hk⟩ := h.exists_of_mem_scan ha
  obtain ⟨pda', -, -, -, hk'⟩ := h.exists_of_mem_scan hb
  rw [hk, drop_ownerKey] at hm
  rw [hk', drop_ownerKey] at hm'
  have hpda : pda = pda' := (h.metas pda m hm).1.symm.trans (h.metas pda' m hm').1
  rw [hk, hk', hpda] at hlt
  exact lt_irrefl _ hlt

theorem IndexedBy.ownerIndexExact (h : IndexedBy t) : OwnerIndexExact t :=
  fun w => ⟨h.nodup_listPoolsByOwner w, fun _ => h.mem_listPoolsByOwner⟩

/-! ## One call -/

theorem IndexedBy.upsertPoolMeta (h : IndexedBy t) {m : PoolMeta μ} (hpda : '|' ∉ m.poolPda)
    (howner : '|' ∉ m.ownerWalletId) (hkeeps : KeepsOwner t (.upsert m)) :
    IndexedBy (t.upsertPoolMeta m) := by
  refine ⟨fun pda m' hm' => ?_, fun k => ?_⟩
  · rw [PoolTables.upsertPoolMeta, Table.get_insert] at hm'
    split_ifs at hm' with hsame
    · obtain rfl := Option.some.inj hm'
      exact ⟨hsame.symm, hsame ▸ hpda, howner⟩
    · exact h.metas pda m' hm'
  · rw [PoolTables.upsertPoolMeta, Table.isSome_get_insert_iff, h.index]
    constructor
    · rintro (rfl | ⟨pda, m', hm', rfl⟩)
      · exact ⟨m.poolPda, m, Table.get_insert_self .., rfl⟩
      · by_cases hsame : pda = m.poolPda
        · -- The pool was stored with the same owner, so the key is the one just written.
          rw [hsame] at hm' ⊢
          exact ⟨m.poolPda, m, Table.get_insert_self .., by rw [hkeeps m' hm']⟩
        · exact ⟨pda, m', (Table.get_insert_of_ne _ _ hsame).trans hm', rfl⟩
    · rintro ⟨pda, m', hm', rfl⟩
      rw [Table.get_insert] at hm'
      split_ifs at hm' with hsame
      · obtain rfl := Option.some.inj hm'
        exact Or.inl (by rw [hsame])
      · exact Or.inr ⟨pda, m', hm', rfl⟩

theorem IndexedBy.deletePoolMeta (h : IndexedBy t) (poolPda : Str) :
    IndexedBy (t.deletePoolMeta poolPda) := by
  have hget : ∀ pda m, (t.metas.remove poolPda).get pda = some m ↔
      pda ≠ poolPda ∧ t.metas.get pda = some m := by
    intro pda m
    rw [Table.get_remove]
    split_ifs with hsame <;> simp [hsame]
  refine ⟨fun pda m hm => h.metas pda m ((hget pda m).mp hm).2, fun k => ?_⟩
  rw [PoolTables.deletePoolMeta]
  cases hold : t.metas.get poolPda with
  | none =>
    rw [h.index]
    refine exists_congr fun pda => exists_congr fun m => and_congr_left fun _ => ?_
    rw [hget]
    refine ⟨fun hm => ⟨?_, hm⟩, And.right⟩
    rintro rfl
    rw [hold] at hm
    cases hm
  | some old =>
    obtain ⟨-, -, holdOwner⟩ := h.metas poolPda old hold
    have hkeys : ((t.byOwner.remove (ownerKey old.ownerWalletId poolPda)).get k).isSome ↔
        k ≠ ownerKey old.ownerWalletId poolPda ∧ (t.byOwner.get k).isSome := by
      rw [Table.get_remove]
      split_ifs with hk <;> simp [hk]
    rw [hkeys, h.index]
    constructor
    · rintro ⟨hk, pda, m, hm, rfl⟩
      refine ⟨pda, m, (hget pda m).mpr ⟨?_, hm⟩, rfl⟩
      rintro rfl
      rw [hold] at hm
      exact hk (by rw [Option.some.inj hm])
    · rintro ⟨pda, m, hm, rfl⟩
      obtain ⟨hne, hm⟩ := (hget pda m).mp hm
      exact ⟨fun hk => hne (ownerKey_inj (h.metas pda m hm).2.2 holdOwner hk).2, pda, m, hm, rfl⟩

/-- A call that changes the owner of a pool leaves it listed for the earlier owner. -/
theorem IndexedBy.keepsOwner (h : IndexedBy t) (call : PoolTableCall μ)
    (hexact : OwnerIndexExact (poolTableStep t call)) : KeepsOwner t call := by
  cases call with
  | upsert m =>
    intro old hold
    have hkey : (t.byOwner.get (ownerKey old.ownerWalletId m.poolPda)).isSome :=
      (h.index _).mpr ⟨m.poolPda, old, hold, rfl⟩
    have hlisted : m ∈ (t.upsertPoolMeta m).listPoolsByOwner old.ownerWalletId :=
      mem_listPoolsByOwner_of_get ((Table.isSome_get_insert_iff ..).mpr (Or.inr hkey))
        (Table.get_insert_self ..)
    exact (((hexact old.ownerWalletId).2 m).mp hlisted).2.symm
  | delete poolPda => trivial

end Index

/-! ## Runs -/

/-- The owner index is exact throughout a run if and only if no call changes the owner of a
stored pool. -/
theorem ownerIndexExact_iff {μ : Type} (calls : List (PoolTableCall μ))
    (hcalls : ∀ call ∈ calls, call.NoBar) :
    Always poolTableStep OwnerIndexExact PoolTables.empty calls ↔
      Along poolTableStep KeepsOwner PoolTables.empty calls := by
  have hempty : IndexedBy (PoolTables.empty : PoolTables μ) := by
    refine ⟨fun pda m hm => ?_, fun k => ?_⟩
    · cases hm
    · simp [PoolTables.empty]
  refine always_iff_along_of_strong (fun t h => h.ownerIndexExact)
    (fun t call _ h hexact => h.keepsOwner call hexact) (fun t call hbar h hkeeps => ?_) hcalls
    hempty
  cases call with
  | upsert m => exact h.upsertPoolMeta hbar.1 hbar.2 hkeeps
  | delete poolPda => exact h.deletePoolMeta poolPda

/-- A pool is created, its counters are updated, it is deleted, and it is created again for
another wallet. -/
theorem ownerIndexExact_recreated :
    Always poolTableStep OwnerIndexExact PoolTables.empty
      [.upsert ⟨['p'], ['a'], 0⟩, .upsert ⟨['p'], ['a'], 1⟩, .delete ['p'],
        .upsert ⟨['p'], ['b'], 0⟩] :=
  (ownerIndexExact_iff _ (by decide)).mpr (by decide +kernel)

/-- A pool is written again for another wallet : both wallets list it. -/
theorem not_ownerIndexExact_newOwner :
    ¬Always poolTableStep OwnerIndexExact PoolTables.empty
      [.upsert ⟨['p'], ['a'], ()⟩, .upsert ⟨['p'], ['b'], ()⟩] := by
  intro h
  have hlisted : (⟨['p'], ['b'], ()⟩ : PoolMeta Unit) ∈ (exec poolTableStep PoolTables.empty
      [.upsert ⟨['p'], ['a'], ()⟩, .upsert ⟨['p'], ['b'], ()⟩]).listPoolsByOwner ['a'] := by
    decide +kernel
  exact absurd (((h.last ['a']).2 _).mp hlisted).2 (by decide)

end RelationalSdk
