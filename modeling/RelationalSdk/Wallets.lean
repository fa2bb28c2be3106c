import RelationalSdk.Domain
import RelationalSdk.KeyedTable
import RelationalSdk.Runs

/-!
# Wallets and their owners

A wallet is a `meta.json` and a `keypair.json` in a directory of its own. Two tables of
the transaction database point at it, one from its address and one from its owner, and
the second is meant to keep every user at one wallet. The handlers `createWallet`,
`deleteWallet`, `suspendWallet` and `activateWallet` return the state together with the
result, because a failed request may have changed it.

A wallet id in a request is joined to a path, so it names whatever wallet directory the file
system resolves it to, which may depend on the directories that are there; `resolve` is that
resolution. The ids the program draws are UUIDs, and metadata is written back under the id it
holds.

`OneLiveWallet` is the invariant over both stores. Creation writes the wallet before it
asks whether the user has one, and deletion clears the owner's entry whichever wallet is
named. `oneLiveWallet_iff` : a run keeps the invariant exactly if no user with an entry
creates a wallet or deletes an already deleted one.

`refusedCreation_unchanged_iff` : a creation that the owner table refuses leaves its wallet and
keypair on disk, so only a request that gets no such refusal is sure to change nothing by it.
-/

namespace RelationalSdk

open Text KeyedTable

/-- Wallet lifecycle status. -/
inductive WalletStatus where
  | active
  | suspended
  | deleted
  deriving DecidableEq

/-- Persisted wallet metadata. -/
structure WalletMetadata where
  walletId : Str
  ownerUserId : Str
  publicAddress : Str
  createdAt : DateTime
  status : WalletStatus
  label : Option Str
  deriving DecidableEq

/-- The wallet files, `ADDRESS_WALLET_MAP` and `WALLET_BY_OWNER`. -/
structure WalletStore where
  metas : Table Str WalletMetadata
  keypairs : Table Str Bytes
  addressWallet : Table Str Str
  byOwner : Table Str Str

/-- No wallets. -/
def WalletStore.empty : WalletStore :=
  ⟨Table.empty, Table.empty, Table.empty, Table.empty⟩

/-! ## The repository and the owner table -/

namespace WalletStore

variable (s : WalletStore)

/-- The error of a wallet without metadata. -/
def missing (walletId : Str) : StorageError :=
  let id := String.ofList walletId
  .notFound s!"wallet {id} not found"

/-- Load the metadata in a directory, which the error calls by the id. -/
def getAt (dir walletId : Str) : Except StorageError WalletMetadata :=
  match s.metas.get dir with
  | none => .error (missing walletId)
  | some metadata => .ok metadata

/-- Load wallet metadata. -/
def get (resolve : Str → Str) (walletId : Str) : Except StorageError WalletMetadata :=
  s.getAt (resolve walletId) walletId

/-- Load wallet metadata and verify the caller owns it. -/
def getOwned (resolve : Str → Str) (walletId userSub : Str) :
    Except StorageError WalletMetadata :=
  match s.get resolve walletId with
  | .error e => .error e
  | .ok metadata =>
    if metadata.ownerUserId = userSub then .ok metadata
    else .error (.permissionDenied userSub ("resource owned by ".toList ++ metadata.ownerUserId))

/-- Create a new wallet. Fails if it already exists. -/
def create (metadata : WalletMetadata) (keypairBytes : Bytes) :
    Except StorageError WalletStore :=
  if (s.metas.get metadata.walletId).isSome then
    let id := String.ofList metadata.walletId
    .error (.alreadyExists s!"wallet {id} already exists")
  else
    .ok { s with
      metas := s.metas.insert metadata.walletId metadata
      keypairs := s.keypairs.insert metadata.walletId keypairBytes }

/-- Update wallet metadata, preserving the keypair. -/
def update (metadata : WalletMetadata) : Except StorageError WalletStore :=
  if (s.metas.get metadata.walletId).isSome then
    .ok { s with metas := s.metas.insert metadata.walletId metadata }
  else .error (missing metadata.walletId)

/-- Set the status to `Deleted`. -/
def softDelete (resolve : Str → Str) (walletId : Str) : Except StorageError WalletStore :=
  match s.get resolve walletId with
  | .error e => .error e
  | .ok metadata => s.update { metadata with status := .deleted }

/-- Register the wallet of an address. -/
def registerAddress (address walletId : Str) : WalletStore :=
  { s with addressWallet := s.addressWallet.insert address walletId }

/-- Register the wallet of a user, who must not have one. -/
def registerWalletOwner (ownerUserId walletId : Str) : Except TxDbError WalletStore :=
  match s.byOwner.get ownerUserId with
  | some existing => .error (.duplicateWallet existing)
  | none => .ok { s with byOwner := s.byOwner.insert ownerUserId walletId }

/-- The wallet of a user. -/
def getWalletIdByOwner (ownerUserId : Str) : Option Str :=
  s.byOwner.get ownerUserId

/-- Forget the wallet of a user. -/
def removeWalletOwner (ownerUserId : Str) : WalletStore :=
  { s with byOwner := s.byOwner.remove ownerUserId }

end WalletStore

/-! ## The handlers -/

/-- What `create_wallet` draws : a UUID, a keypair with its address, and the time. -/
structure NewWallet where
  walletId : Str
  publicAddress : Str
  keypairBytes : Bytes
  now : DateTime

/-- The longest label, in bytes. -/
def maxLabelLen : Nat := 64

/-- Create a wallet for the caller. That its address cannot be registered is logged and passed
over. -/
def createWalletIo (s : WalletStore) (sub : Str) (label : Option Str) (new : NewWallet)
    (addressFails : Bool) : Except ApiError WalletMetadata × WalletStore :=
  if ∃ l ∈ label, maxLabelLen < len l then
    (.error (.badRequest "label must be at most 64 characters"), s)
  else
    let metadata : WalletMetadata :=
      ⟨new.walletId, sub, new.publicAddress, new.now, .active, label⟩
    match s.create metadata new.keypairBytes with
    | .error e => (.error e.toApiError, s)
    | .ok created =>
      let registered :=
        if addressFails then created
        else created.registerAddress new.publicAddress new.walletId
      match registered.registerWalletOwner sub new.walletId with
      | .ok owned => (.ok metadata, owned)
      | .error (.duplicateWallet existing) =>
        let id := String.ofList existing
        (.error (.badRequest s!"user already has a wallet: {id}"), registered)
      | .error .invalidCursor => (.ok metadata, registered)

/-- Create a wallet for the caller and register its address. -/
def createWallet (s : WalletStore) (sub : Str) (label : Option Str) (new : NewWallet) :
    Except ApiError WalletMetadata × WalletStore :=
  createWalletIo s sub label new false

/-- Soft-delete a wallet of the caller. -/
def deleteWallet (resolve : Str → Str) (s : WalletStore) (sub walletId : Str) :
    Except ApiError Str × WalletStore :=
  match s.getOwned resolve walletId sub with
  | .error e => (.error e.toApiError, s)
  | .ok _ =>
    match s.softDelete resolve walletId with
    | .error e => (.error e.toApiError, s)
    | .ok deleted => (.ok walletId, deleted.removeWalletOwner sub)

/-- The two admin handlers : set the status of a wallet that is not deleted. -/
def setWalletStatus (resolve : Str → Str) (s : WalletStore) (walletId : Str)
    (status : WalletStatus) (refusal : String) : Except ApiError Str × WalletStore :=
  match s.get resolve walletId with
  | .error e => (.error e.toApiError, s)
  | .ok wallet =>
    if wallet.status = .deleted then (.error (.badRequest refusal), s)
    else
      match s.update { wallet with status := status } with
      | .error e => (.error e.toApiError, s)
      | .ok updated => (.ok walletId, updated)

/-- Suspend a wallet. -/
def suspendWallet (resolve : Str → Str) (s : WalletStore) (walletId : Str) :
    Except ApiError Str × WalletStore :=
  setWalletStatus resolve s walletId .suspended "cannot suspend a deleted wallet"

/-- Reactivate a suspended wallet. -/
def activateWallet (resolve : Str → Str) (s : WalletStore) (walletId : Str) :
    Except ApiError Str × WalletStore :=
  setWalletStatus resolve s walletId .active "cannot activate a deleted wallet"

/-- A request to one of the handlers. -/
inductive WalletRequest where
  | create (sub : Str) (label : Option Str) (new : NewWallet)
  | delete (sub walletId : Str)
  | suspend (walletId : Str)
  | activate (walletId : Str)

/-- The state after a request. -/
def walletStep (resolve : WalletStore → Str → Str) (s : WalletStore) : WalletRequest → WalletStore
  | .create sub label new => (createWallet s sub label new).2
  | .delete sub walletId => (deleteWallet (resolve s) s sub walletId).2
  | .suspend walletId => (suspendWallet (resolve s) s walletId).2
  | .activate walletId => (activateWallet (resolve s) s walletId).2

/-! ## One live wallet per user -/

/-- A wallet of the user that is on disk and not deleted. -/
def Live (s : WalletStore) (u w : Str) : Prop :=
  ∃ m, s.metas.get w = some m ∧ m.ownerUserId = u ∧ m.status ≠ .deleted

/-- Every user has at most one live wallet, the owner table names it, and it names
nothing else. -/
structure OneLiveWallet (s : WalletStore) : Prop where
  unique : ∀ u w w', Live s u w → Live s u w' → w = w'
  indexed : ∀ u w, Live s u w → s.getWalletIdByOwner u = some w
  live : ∀ u w, s.getWalletIdByOwner u = some w → Live s u w

/-- A creation that is turned down before it writes, or whose caller has no entry in the owner
table. -/
def SafeCreation (s : WalletStore) (sub : Str) (label : Option Str) (new : NewWallet) : Prop :=
  (∃ l ∈ label, maxLabelLen < len l) ∨ (s.metas.get new.walletId).isSome ∨
    s.byOwner.get sub = none

instance (s : WalletStore) (sub : Str) (label : Option Str) (new : NewWallet) :
    Decidable (SafeCreation s sub label new) :=
  inferInstanceAs (Decidable (_ ∨ _ ∨ _))

/-- A request that keeps the invariant : whoever creates a wallet, or deletes one that
is deleted already, has no entry in the owner table. -/
def SafeRequest (resolve : WalletStore → Str → Str) (s : WalletStore) : WalletRequest → Prop
  | .create sub label new => SafeCreation s sub label new
  | .delete sub walletId =>
    ∀ m ∈ s.metas.get (resolve s walletId), m.ownerUserId = sub → m.status = .deleted →
      s.byOwner.get sub = none
  | .suspend _ | .activate _ => True

instance (resolve : WalletStore → Str → Str) (s : WalletStore) :
    ∀ r, Decidable (SafeRequest resolve s r)
  | .create sub label new => inferInstanceAs (Decidable (SafeCreation s sub label new))
  | .delete _ _ => inferInstanceAs (Decidable (∀ m ∈ s.metas.get _, _ → _ → _))
  | .suspend _ | .activate _ => .isTrue trivial

/-- Each wallet is stored under its own id. -/
def Keyed (s : WalletStore) : Prop :=
  ∀ w m, s.metas.get w = some m → m.walletId = w

section Effects

variable (resolve : WalletStore → Str → Str)

/-- What a request can do to the wallets and the owner table. -/
inductive WalletEffect (s s' : WalletStore) : WalletRequest → Prop
  | none {r} (hmetas : s'.metas = s.metas) (howner : s'.byOwner = s.byOwner)
      (hsafe : SafeRequest resolve s r) : WalletEffect s s' r
  | create {sub label new} (m : WalletMetadata) (hid : m.walletId = new.walletId)
      (hsub : m.ownerUserId = sub) (hstatus : m.status = .active)
      (hlabel : ¬∃ l ∈ label, maxLabelLen < len l) (hfresh : s.metas.get m.walletId = Option.none)
      (hmetas : s'.metas = s.metas.insert m.walletId m)
      (howner : s'.byOwner = if s.byOwner.get sub = Option.none
        then s.byOwner.insert sub m.walletId else s.byOwner) :
      WalletEffect s s' (.create sub label new)
  | delete {sub walletId} (m : WalletMetadata) (hm : s.metas.get (resolve s walletId) = some m)
      (hsub : m.ownerUserId = sub)
      (hmetas : s'.metas = s.metas.insert (resolve s walletId) { m with status := .deleted })
      (howner : s'.byOwner = s.byOwner.remove sub) : WalletEffect s s' (.delete sub walletId)
  | setStatus {r dir} (m : WalletMetadata) (status : WalletStatus)
      (hm : s.metas.get dir = some m) (hlive : m.status ≠ .deleted) (hstatus : status ≠ .deleted)
      (hmetas : s'.metas = s.metas.insert dir { m with status := status })
      (howner : s'.byOwner = s.byOwner) (hsafe : SafeRequest resolve s r) : WalletEffect s s' r

theorem createWallet_effect (s : WalletStore) (sub : Str) (label : Option Str) (new : NewWallet) :
    WalletEffect resolve s (walletStep resolve s (.create sub label new))
      (.create sub label new) := by
  simp only [walletStep, createWallet, createWalletIo, Bool.false_eq_true, if_false]
  split_ifs with hlabel
  · exact .none rfl rfl (Or.inl hlabel)
  · simp only [WalletStore.create]
    split_ifs with hexists
    · exact .none rfl rfl (Or.inr (Or.inl hexists))
    · have hfresh : s.metas.get new.walletId = none := by simpa using hexists
      refine .create ⟨new.walletId, sub, new.publicAddress, new.now, .active, label⟩
        rfl rfl rfl hlabel hfresh ?_ ?_ <;>
      · simp only [WalletStore.registerAddress, WalletStore.registerWalletOwner]
        cases s.byOwner.get sub <;> simp

theorem deleteWallet_effect (s : WalletStore) (hs : Keyed s) (sub walletId : Str) :
    WalletEffect resolve s (walletStep resolve s (.delete sub walletId))
      (.delete sub walletId) := by
  simp only [walletStep, deleteWallet, WalletStore.getOwned, WalletStore.get, WalletStore.getAt]
  cases hm : s.metas.get (resolve s walletId) with
  | none => exact .none rfl rfl (by simp [SafeRequest, hm])
  | some m =>
    by_cases hsub : m.ownerUserId = sub
    · have hid := hs _ m hm
      refine .delete m hm hsub ?_ ?_ <;>
        simp [hsub, WalletStore.softDelete, WalletStore.get, WalletStore.getAt, WalletStore.update,
          hm, hid, WalletStore.removeWalletOwner]
    · simp only [hsub, if_false]
      exact .none rfl rfl (by simp [SafeRequest, hm, hsub])

theorem setWalletStatus_effect (s : WalletStore) (hs : Keyed s) (walletId : Str)
    {status : WalletStatus} (hstatus : status ≠ .deleted) (refusal : String) {r : WalletRequest}
    (hsafe : SafeRequest resolve s r) :
    WalletEffect resolve s (setWalletStatus (resolve s) s walletId status refusal).2 r := by
  simp only [setWalletStatus, WalletStore.get, WalletStore.getAt]
  cases hm : s.metas.get (resolve s walletId) with
  | none => exact .none rfl rfl hsafe
  | some m =>
    by_cases hlive : m.status = .deleted
    · simp only [hlive, if_true]
      exact .none rfl rfl hsafe
    · have hid := hs _ m hm
      refine .setStatus m status hm hlive hstatus ?_ ?_ hsafe <;>
        simp [hlive, WalletStore.update, hm, hid]

theorem walletStep_effect (s : WalletStore) (hs : Keyed s) (r : WalletRequest) :
    WalletEffect resolve s (walletStep resolve s r) r := by
  cases r with
  | create sub label new => exact createWallet_effect resolve s sub label new
  | delete sub walletId => exact deleteWallet_effect resolve s hs sub walletId
  | suspend walletId => exact setWalletStatus_effect resolve s hs walletId (by decide) _ trivial
  | activate walletId => exact setWalletStatus_effect resolve s hs walletId (by decide) _ trivial

end Effects

/-! ## What an effect does to the invariant -/

theorem Keyed.insert {s s' : WalletStore} (hs : Keyed s) {w : Str} {m : WalletMetadata}
    (hmetas : s'.metas = s.metas.insert w m) (hm : m.walletId = w) : Keyed s' := by
  intro w' m' h
  rw [hmetas, Table.get_insert] at h
  split_ifs at h with hw
  · rw [hw, ← Option.some.inj h]
    exact hm
  · exact hs w' m' h

theorem keyed_walletStep (resolve : WalletStore → Str → Str) (s : WalletStore) (r : WalletRequest)
    (hs : Keyed s) : Keyed (walletStep resolve s r) := by
  have heffect := walletStep_effect resolve s hs r
  generalize walletStep resolve s r = s' at heffect
  cases heffect with
  | none hmetas howner hsafe => unfold Keyed; rwa [hmetas]
  | create m hid hsub hstatus hlabel hfresh hmetas howner => exact hs.insert hmetas rfl
  | delete m hm hsub hmetas howner => exact hs.insert hmetas (hs _ m hm)
  | setStatus m status hm hlive hstatus hmetas howner hsafe => exact hs.insert hmetas (hs _ m hm)

theorem oneLiveWallet_iff_forall (s : WalletStore) :
    OneLiveWallet s ↔ ∀ u w, s.byOwner.get u = some w ↔ Live s u w := by
  constructor
  · exact fun h u w => ⟨h.live u w, h.indexed u w⟩
  · intro h
    refine ⟨fun u w w' hw hw' => ?_, fun u w => (h u w).mpr, fun u w => (h u w).mp⟩
    exact Option.some.inj (((h u w).mpr hw).symm.trans ((h u w').mpr hw'))

theorem live_insert_iff {s s' : WalletStore} {w : Str} {m : WalletMetadata}
    (hmetas : s'.metas = s.metas.insert w m) (u w' : Str) :
    Live s' u w' ↔ if w' = w then m.ownerUserId = u ∧ m.status ≠ .deleted else Live s u w' := by
  unfold Live
  rw [hmetas, Table.get_insert]
  split_ifs <;> simp

/-- A creation keeps the invariant exactly if its owner had no entry. -/
theorem oneLiveWallet_create_iff {s s' : WalletStore} (h : OneLiveWallet s) {m : WalletMetadata}
    (hstatus : m.status = .active) (hfresh : s.metas.get m.walletId = none)
    (hmetas : s'.metas = s.metas.insert m.walletId m)
    (howner : s'.byOwner = if s.byOwner.get m.ownerUserId = none
      then s.byOwner.insert m.ownerUserId m.walletId else s.byOwner) :
    OneLiveWallet s' ↔ s.byOwner.get m.ownerUserId = none := by
  rw [oneLiveWallet_iff_forall] at h
  have hnot : ∀ u, ¬Live s u m.walletId := by
    rintro u ⟨m', hm', -⟩
    simp [hfresh] at hm'
  constructor
  · intro h'
    by_contra hsome
    obtain ⟨w, hw⟩ := Option.ne_none_iff_exists'.mp hsome
    rw [if_neg hsome] at howner
    have hlive : Live s' m.ownerUserId m.walletId := by
      rw [live_insert_iff hmetas, if_pos rfl, hstatus]
      exact ⟨rfl, by decide⟩
    have hindex := h'.indexed _ _ hlive
    rw [WalletStore.getWalletIdByOwner, howner] at hindex
    exact hnot _ ((h _ _).mp hindex)
  · intro hnone
    rw [if_pos hnone] at howner
    rw [oneLiveWallet_iff_forall]
    intro u w
    rw [howner, Table.get_insert, live_insert_iff hmetas, hstatus]
    by_cases hu : u = m.ownerUserId <;> by_cases hw : w = m.walletId
    · simp [hu, hw]
    · have : ¬Live s u w := by simp [← h, hu, hnone]
      simp [hu ▸ this, hu, hw, Ne.symm hw]
    · simp [hu, hw, h, Ne.symm hu, hnot]
    · simp only [if_neg hu, if_neg hw]
      exact h u w

/-- A deletion keeps the invariant exactly if it names a live wallet, or its caller has
no entry anyway. -/
theorem oneLiveWallet_delete_iff {s s' : WalletStore} (h : OneLiveWallet s) {w₀ : Str}
    {m : WalletMetadata} (hm : s.metas.get w₀ = some m)
    (hmetas : s'.metas = s.metas.insert w₀ { m with status := .deleted })
    (howner : s'.byOwner = s.byOwner.remove m.ownerUserId) :
    OneLiveWallet s' ↔ (m.status = .deleted → s.byOwner.get m.ownerUserId = none) := by
  rw [oneLiveWallet_iff_forall] at h
  have hlive₀ : ∀ u, Live s u w₀ ↔ m.ownerUserId = u ∧ m.status ≠ .deleted := by
    intro u
    unfold Live
    simp [hm]
  have hlive' : ∀ u w, Live s' u w ↔ w ≠ w₀ ∧ Live s u w := by
    intro u w
    rw [live_insert_iff hmetas]
    split_ifs with hw <;> simp [hw]
  have hget' : ∀ u, s'.byOwner.get u = if u = m.ownerUserId then none else s.byOwner.get u :=
    fun u => by rw [howner, Table.get_remove]; congr
  rw [oneLiveWallet_iff_forall]
  simp only [hget', hlive', ← h]
  constructor
  · intro h' hdeleted
    rw [Option.eq_none_iff_forall_ne_some]
    intro w hw
    have hne : w ≠ w₀ := by
      rintro rfl
      exact ((hlive₀ _).mp ((h _ _).mp hw)).2 hdeleted
    have := (h' m.ownerUserId w).mpr ⟨hne, hw⟩
    simp at this
  · intro hsafe u w
    split_ifs with hu
    · subst hu
      simp only [false_iff, not_and]
      intro hw hget
      by_cases hdeleted : m.status = .deleted
      · simp [hsafe hdeleted] at hget
      · have := (h m.ownerUserId w₀).mpr ((hlive₀ _).mpr ⟨rfl, hdeleted⟩)
        exact hw (Option.some.inj (hget.symm.trans this))
    · refine ⟨fun hget => ⟨?_, hget⟩, And.right⟩
      rintro rfl
      exact hu ((hlive₀ u).mp ((h u w).mp hget)).1.symm

/-- A change of status between active and suspended leaves the invariant as it is. -/
theorem oneLiveWallet_setStatus_iff {s s' : WalletStore} {w₀ : Str} {m : WalletMetadata}
    {status : WalletStatus} (hm : s.metas.get w₀ = some m) (hlive : m.status ≠ .deleted)
    (hstatus : status ≠ .deleted)
    (hmetas : s'.metas = s.metas.insert w₀ { m with status := status })
    (howner : s'.byOwner = s.byOwner) : OneLiveWallet s' ↔ OneLiveWallet s := by
  have hlive' : ∀ u w, Live s' u w ↔ Live s u w := by
    intro u w
    rw [live_insert_iff hmetas]
    split_ifs with hw
    · simp [Live, hw, hm, hlive, hstatus]
    · rfl
  simp only [oneLiveWallet_iff_forall, hlive', howner]

/-- A request keeps the invariant exactly if it is safe. -/
theorem oneLiveWallet_walletStep_iff (resolve : WalletStore → Str → Str) (s : WalletStore)
    (r : WalletRequest) (hs : Keyed s) (h : OneLiveWallet s) :
    OneLiveWallet (walletStep resolve s r) ↔ SafeRequest resolve s r := by
  have heffect := walletStep_effect resolve s hs r
  generalize walletStep resolve s r = s' at heffect
  cases heffect with
  | none hmetas howner hsafe =>
    have hsame : OneLiveWallet s' ↔ OneLiveWallet s := by
      simp only [oneLiveWallet_iff_forall, Live, hmetas, howner]
    exact ⟨fun _ => hsafe, fun _ => hsame.mpr h⟩
  | create m hid hsub hstatus hlabel hfresh hmetas howner =>
    subst hsub
    rw [oneLiveWallet_create_iff h hstatus hfresh hmetas howner]
    refine ⟨fun hnone => Or.inr (Or.inr hnone), fun hsafe => ?_⟩
    exact (hsafe.resolve_left hlabel).resolve_left (by simp [← hid, hfresh])
  | delete m hm hsub hmetas howner =>
    subst hsub
    rw [oneLiveWallet_delete_iff h hm hmetas howner]
    simp [SafeRequest, hm]
  | setStatus m status hm hlive hstatus hmetas howner hsafe =>
    exact ⟨fun _ => hsafe, fun _ =>
      (oneLiveWallet_setStatus_iff hm hlive hstatus hmetas howner).mpr h⟩

/-- A run from an empty store keeps one live wallet per user, indexed, exactly if all its
requests are safe. -/
theorem oneLiveWallet_iff (resolve : WalletStore → Str → Str) (rs : List WalletRequest) :
    Runs.Always (walletStep resolve) OneLiveWallet .empty rs ↔
      Runs.Along (walletStep resolve) (SafeRequest resolve) .empty rs := by
  refine Runs.always_iff_along (keyed_walletStep resolve) (oneLiveWallet_walletStep_iff resolve)
    ?_ ?_
  · simp [Keyed, WalletStore.empty]
  · simp [oneLiveWallet_iff_forall, Live, WalletStore.empty]

/-! ## Refused creations -/

section Refused

variable {s : WalletStore} {sub : Str} {label : Option Str} {new : NewWallet}

/-- The request stores the wallet, and then the owner table reports that the caller has one. -/
def RefusedAsDuplicate (s : WalletStore) (sub : Str) (label : Option Str) (new : NewWallet) :
    Prop :=
  (¬∃ l ∈ label, maxLabelLen < len l) ∧ ∃ created existing,
    s.create ⟨new.walletId, sub, new.publicAddress, new.now, .active, label⟩ new.keypairBytes =
      .ok created ∧
    created.registerWalletOwner sub new.walletId = .error (.duplicateWallet existing)

theorem create_eq_ok_iff {created : WalletStore} {m : WalletMetadata} {kb : Bytes} :
    s.create m kb = .ok created ↔ s.metas.get m.walletId = none ∧
      created = { s with
        metas := s.metas.insert m.walletId m
        keypairs := s.keypairs.insert m.walletId kb } := by
  unfold WalletStore.create
  split_ifs with hexists
  · simp [Option.isSome_iff_ne_none.mp hexists]
  · rw [Option.not_isSome_iff_eq_none.mp hexists, Except.ok.injEq, eq_comm]
    simp

theorem registerWalletOwner_eq_duplicate_iff {walletId existing : Str} :
    s.registerWalletOwner sub walletId = .error (.duplicateWallet existing) ↔
      s.byOwner.get sub = some existing := by
  unfold WalletStore.registerWalletOwner
  cases s.byOwner.get sub <;> simp

/-- That happens to every caller with an entry whose label and id are in order. -/
theorem refusedAsDuplicate_iff :
    RefusedAsDuplicate s sub label new ↔ ¬SafeCreation s sub label new := by
  simp only [RefusedAsDuplicate, SafeCreation, not_or, create_eq_ok_iff,
    registerWalletOwner_eq_duplicate_iff]
  refine and_congr_right fun _ => ?_
  constructor
  · rintro ⟨created, existing, ⟨hfresh, rfl⟩, howner⟩
    have howner : s.byOwner.get sub = some existing := howner
    simp [hfresh, howner]
  · rintro ⟨hfresh, howner⟩
    obtain ⟨existing, hexisting⟩ := Option.ne_none_iff_exists'.mp howner
    exact ⟨_, existing, ⟨Option.not_isSome_iff_eq_none.mp hfresh, rfl⟩, hexisting⟩

/-- What a refused request answers and leaves behind : an active wallet with its keypair. -/
theorem createWalletIo_of_refused (addressFails : Bool)
    (h : RefusedAsDuplicate s sub label new) :
    (∃ e, (createWalletIo s sub label new addressFails).1 = .error e) ∧
      s.metas.get new.walletId = none ∧
      (createWalletIo s sub label new addressFails).2.metas = s.metas.insert new.walletId
        ⟨new.walletId, sub, new.publicAddress, new.now, .active, label⟩ ∧
      (createWalletIo s sub label new addressFails).2.keypairs =
        s.keypairs.insert new.walletId new.keypairBytes := by
  obtain ⟨hlabel, created, existing, hcreated, howner⟩ := h
  obtain ⟨hfresh, hstore⟩ := create_eq_ok_iff.mp hcreated
  have hregistered : (if addressFails then created
      else created.registerAddress new.publicAddress new.walletId).registerWalletOwner sub
        new.walletId = .error (.duplicateWallet existing) := by
    rw [registerWalletOwner_eq_duplicate_iff] at howner ⊢
    cases addressFails <;> exact howner
  simp only [createWalletIo, if_neg hlabel, hcreated, hregistered]
  refine ⟨⟨_, rfl⟩, hfresh, ?_, ?_⟩ <;> cases addressFails <;> rw [hstore] <;> rfl

/-- A creation that the owner table refuses changes nothing if and only if there is none. -/
theorem refusedCreation_unchanged_iff (s : WalletStore) (sub : Str) (label : Option Str)
    (new : NewWallet) (addressFails : Bool) :
    (RefusedAsDuplicate s sub label new →
        (createWalletIo s sub label new addressFails).2 = s) ↔
      SafeCreation s sub label new := by
  constructor
  · intro hunchanged
    by_contra hunsafe
    have hrefused := refusedAsDuplicate_iff.mpr hunsafe
    obtain ⟨-, hfresh, hmetas, -⟩ := createWalletIo_of_refused addressFails hrefused
    rw [hunchanged hrefused] at hmetas
    rw [hmetas, Table.get_insert_self] at hfresh
    cases hfresh
  · intro hsafe hrefused
    exact absurd hsafe (refusedAsDuplicate_iff.mp hrefused)

end Refused

/-- A wallet drawn under an id. -/
def sampleWallet (walletId : Str) : NewWallet :=
  ⟨walletId, walletId ++ "Address".toList, [1, 2, 3], ⟨1771977600, 0, by decide, by decide⟩⟩

/-- Two creations by one user. The second is answered with an error. -/
def createTwice : List WalletRequest :=
  [.create "alice".toList none (sampleWallet "w1".toList),
    .create "alice".toList none (sampleWallet "w2".toList)]

/-- After two creations the user has two live wallets. -/
theorem not_oneLiveWallet_createTwice :
    let s := Runs.exec (walletStep fun _ => id) .empty createTwice
    Live s "alice".toList "w1".toList ∧ Live s "alice".toList "w2".toList ∧ ¬OneLiveWallet s := by
  intro s
  have h1 : Live s "alice".toList "w1".toList := ⟨_, rfl, rfl, by decide⟩
  have h2 : Live s "alice".toList "w2".toList := ⟨_, rfl, rfl, by decide⟩
  exact ⟨h1, h2, fun h => absurd (h.unique _ _ _ h1 h2) (by decide)⟩

/-- The second creation is refused, and its wallet, keypair and address stay. -/
theorem refusedCreation_changes_createTwice :
    let s := (createWallet .empty "alice".toList none (sampleWallet "w1".toList)).2
    let new := sampleWallet "w2".toList
    let after := createWalletIo s "alice".toList none new false
    RefusedAsDuplicate s "alice".toList none new ∧
      after.1 = .error (.badRequest "user already has a wallet: w1") ∧
      ¬(after.2 = s) ∧ after.2.keypairs.get "w2".toList = some [1, 2, 3] ∧
      after.2.addressWallet.get "w2Address".toList = some "w2".toList := by
  refine ⟨refusedAsDuplicate_iff.mpr (by decide), by decide, ?_,
    by decide, by decide⟩
  intro h
  exact absurd (congrArg (fun s => s.keypairs) h) (by decide)

end RelationalSdk
