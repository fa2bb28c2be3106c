import RelationalSdk.Signing

/-!
# Deleted wallets

`suspend_wallet` and `activate_wallet` refuse a deleted wallet, but what they check is a copy
that they have read before. They write it back as it was then, with the new status, whatever
the file holds by now, and all writers of a wallet go through the same `meta.tmp`.

`DeletedStays` : once a request to delete a wallet has returned, the wallet is deleted.
`deletedStays` : that holds throughout every interleaving in which a deletion is left undisturbed
(`Undisturbed`), which is a condition on who acts when : while a deletion has its copy in
`meta.tmp` no request that sets the status writes there, and when it renames the copy none of them
is between its read and its rename. The requests that read later find the wallet deleted and are
refused. What an action does is said once (`VaultEffect`), and the invariant `DeletionsOk` is read
off it.
`not_deletedStays_suspend` : without the condition a deleted wallet comes back.
-/

namespace RelationalSdk

open Text KeyedTable Threads

/-- The wallet that a request deletes, as the request names it. -/
def VaultCall.deletes : VaultCall → Option Str
  | .delete _ walletId => some walletId
  | _ => none

/-- The wallet is on disk as deleted. -/
def IsDeleted (v : Vault) (walletId : Str) : Prop :=
  (v.store.metas.get walletId).map WalletMetadata.status = some .deleted

instance (v : Vault) (walletId : Str) : Decidable (IsDeleted v walletId) :=
  inferInstanceAs (Decidable (_ = _))

/-- A wallet whose deletion has returned is deleted. -/
def DeletedStays {κ : Type} (resolve : Str → Str) (s : System Vault (VaultThread κ)) : Prop :=
  ∀ t ∈ s.threads, ∀ walletId, t.call.deletes = some walletId → t.pc = .returned (.ok ()) →
    IsDeleted s.shared (resolve walletId)

/-! ## What a request holds -/

/-- What a request holds of a wallet : an id that it has drawn and not yet stored, the copy that
it writes back, the same once it is in `meta.tmp`, or nothing any more because it has stored what
it was to store. -/
inductive Holding where
  | nothing
  | creating (walletId : Str)
  | created
  | changing (m : WalletMetadata)
  | staged (m : WalletMetadata)
  | done

/-- The id that is drawn and not yet stored. -/
def Holding.drawnId : Holding → Option Str
  | creating walletId => some walletId
  | _ => none

/-- The copy that is written back. -/
def Holding.copy : Holding → Option WalletMetadata
  | changing m | staged m => some m
  | _ => none

/-- The copy that is in `meta.tmp`. -/
def Holding.stagedCopy : Holding → Option WalletMetadata
  | staged m => some m
  | _ => none

def VaultPc.holding {κ : Type} : VaultPc κ → Holding
  | .drawn m _ | .vacant m _ | .drafted m _ => .creating m.walletId
  | .described _ _ | .created _ | .addressed _ => .created
  | .changing m => .changing m
  | .staged m => .staged m
  | .changed | .returned (.ok _) => .done
  | _ => .nothing

/-- The request sets the status of a wallet and is between its read and its rename. -/
def SetsStatus {κ : Type} (walletId : Str) (t : VaultThread κ) : Prop :=
  t.call.deletes = none ∧ t.pc.holding.copy.map WalletMetadata.walletId = some walletId

/-- The request deletes a wallet and has its copy in `meta.tmp`. -/
def StagesDeletion {κ : Type} (walletId : Str) (t : VaultThread κ) : Prop :=
  t.call.deletes ≠ none ∧ t.pc.holding.stagedCopy.map WalletMetadata.walletId = some walletId

instance {κ : Type} (walletId : Str) (t : VaultThread κ) : Decidable (SetsStatus walletId t) :=
  inferInstanceAs (Decidable (_ ∧ _))

instance {κ : Type} (walletId : Str) (t : VaultThread κ) : Decidable (StagesDeletion walletId t) :=
  inferInstanceAs (Decidable (_ ∧ _))

/-- Who may write while which others are under way : a request that sets the status does not write
`meta.tmp` while a deletion has its copy there, and a deletion does not rename its copy while a
request that sets the status is between its read and its rename. -/
def MayWrite {κ : Type} (ts : List (VaultThread κ)) (call : VaultCall) : Holding → Prop
  | .changing m => call.deletes = none → ∀ q ∈ ts, ¬StagesDeletion m.walletId q
  | .staged m => call.deletes ≠ none → ∀ q ∈ ts, ¬SetsStatus m.walletId q
  | _ => True

instance {κ : Type} (ts : List (VaultThread κ)) (call : VaultCall) :
    ∀ h, Decidable (MayWrite ts call h)
  | .changing _ => inferInstanceAs (Decidable (_ → _))
  | .staged _ => inferInstanceAs (Decidable (_ → _))
  | .nothing | .creating _ | .created | .done => .isTrue trivial

/-- The steps of a run in which no deletion is disturbed. -/
def Undisturbed {κ : Type} (_ : Vault) (ts : List (VaultThread κ)) (t : VaultThread κ) :
    VaultAction → Prop
  | .next => MayWrite ts t.call t.pc.holding
  | _ => True

instance {κ : Type} (v : Vault) (ts : List (VaultThread κ)) (t : VaultThread κ) :
    ∀ a, Decidable (Undisturbed v ts t a)
  | .next => inferInstanceAs (Decidable (MayWrite ts t.call t.pc.holding))
  | .draw _ | .skip | .fail _ => .isTrue trivial

/-! ## One action -/

section Effects

variable {κ : Type} {format : KeypairFormat κ} {resolve : Str → Str} {v : Vault}

/-- What an action of a request does to the wallets on disk, to `meta.tmp` and to what the request
holds. -/
inductive VaultEffect (resolve : Str → Str) (v : Vault) (t : VaultThread κ) (a : VaultAction) :
    Vault → Holding → Prop
  /-- It leaves the wallets alone and keeps or drops what it holds. -/
  | rest {v' h} (hmetas : v'.store.metas = v.store.metas) (htemps : v'.temps = v.temps)
      (hh : h = t.pc.holding ∨ h = .nothing ∨ h = .done ∧ t.pc.holding = .created) :
      VaultEffect resolve v t a v' h
  /-- It draws a fresh id. -/
  | draw {v'} (w : Str) (hcall : t.call.deletes = none) (hfresh : v.drawn.get w = none)
      (hmetas : v'.store.metas = v.store.metas) (htemps : v'.temps = v.temps) :
      VaultEffect resolve v t a v' (.creating w)
  /-- It reads a wallet in order to delete it. -/
  | readToDelete (walletId : Str) (m : WalletMetadata) (hcall : t.call.deletes = some walletId)
      (hm : v.store.metas.get (resolve walletId) = some m) :
      VaultEffect resolve v t a v (.changing { m with status := .deleted })
  /-- It reads a wallet that is not deleted in order to set its status. -/
  | readToSet (w : Str) (m : WalletMetadata) (status : WalletStatus)
      (hcall : t.call.deletes = none) (hm : v.store.metas.get w = some m)
      (hlive : m.status ≠ .deleted) :
      VaultEffect resolve v t a v (.changing { m with status := status })
  /-- It writes `meta.tmp` of a new wallet. -/
  | draft (m : WalletMetadata) (hpc : t.pc.holding = .creating m.walletId) :
      VaultEffect resolve v t a (v.writeTemp m) (.creating m.walletId)
  /-- It writes its copy to `meta.tmp`. -/
  | stage (m : WalletMetadata) (ha : a = .next) (hpc : t.pc.holding = .changing m) :
      VaultEffect resolve v t a (v.writeTemp m) (.staged m)
  /-- It renames `meta.tmp` of a new wallet. -/
  | describe {v'} (w : Str) (copy : WalletMetadata) (hpc : t.pc.holding = .creating w)
      (hcopy : v.temps.get w = some copy) (hmetas : v'.store.metas = v.store.metas.insert w copy)
      (htemps : v'.temps = v.temps.remove w) : VaultEffect resolve v t a v' .created
  /-- It renames `meta.tmp` of a wallet that it has read. -/
  | replace {v'} (m copy : WalletMetadata) (ha : a = .next) (hpc : t.pc.holding = .staged m)
      (hcopy : v.temps.get m.walletId = some copy)
      (hmetas : v'.store.metas = v.store.metas.insert m.walletId copy)
      (htemps : v'.temps = v.temps.remove m.walletId) : VaultEffect resolve v t a v' .done

theorem metas_registerWalletOwner {s s' : WalletStore} {sub walletId : Str}
    (h : s.registerWalletOwner sub walletId = .ok s') : s'.metas = s.metas := by
  unfold WalletStore.registerWalletOwner at h
  split at h
  · cases h
  · cases h
    rfl

theorem effect_create (sub : Str) (label : Option Str) (pc : VaultPc κ) :
    VaultEffect resolve v ⟨.create sub label, pc⟩ .next (createNext v sub pc).1
      (createNext v sub pc).2.holding := by
  unfold createNext
  split
  case h_1 m kb =>
    split_ifs
    · exact .rest rfl rfl (Or.inr (Or.inl rfl))
    · exact .rest rfl rfl (Or.inl rfl)
  case h_2 m kb => exact .draft m rfl
  case h_3 m kb =>
    split
    case h_1 => exact .rest rfl rfl (Or.inl rfl)
    case h_2 v' hv' =>
      obtain ⟨copy, hcopy, rfl⟩ := Option.map_eq_some_iff.mp hv'
      exact .describe m.walletId copy rfl hcopy rfl rfl
  case h_6 m =>
    split
    case h_1 store hstore =>
      exact .rest (metas_registerWalletOwner hstore) rfl (Or.inr (Or.inr ⟨rfl, rfl⟩))
    case h_2 => exact .rest rfl rfl (Or.inr (Or.inl rfl))
    case h_3 => exact .rest rfl rfl (Or.inr (Or.inr ⟨rfl, rfl⟩))
  all_goals exact .rest rfl rfl (Or.inl rfl)

/-- The two steps in which a copy is written back. -/
theorem effect_update (call : VaultCall) (pc : VaultPc κ) {done : VaultPc κ}
    (hdone : done.holding = .done) :
    VaultEffect resolve v ⟨call, pc⟩ .next (updateNext v done pc).1
      (updateNext v done pc).2.holding := by
  unfold updateNext
  split
  case h_1 m =>
    split_ifs
    · exact .stage m rfl rfl
    · exact .rest rfl rfl (Or.inr (Or.inl rfl))
  case h_2 m =>
    split
    case h_1 => exact .rest rfl rfl (Or.inl rfl)
    case h_2 v' hv' =>
      obtain ⟨copy, hcopy, rfl⟩ := Option.map_eq_some_iff.mp hv'
      rw [hdone]
      exact .replace m copy rfl rfl hcopy rfl rfl
  case h_3 => exact .rest rfl rfl (Or.inl rfl)

theorem effect_delete (sub walletId : Str) (pc : VaultPc κ) :
    VaultEffect resolve v ⟨.delete sub walletId, pc⟩ .next (deleteNext resolve v sub walletId pc).1
      (deleteNext resolve v sub walletId pc).2.holding := by
  unfold deleteNext
  split
  case h_1 =>
    cases loadWallet resolve v.store walletId with
    | error e => exact .rest rfl rfl (Or.inl rfl)
    | ok m =>
      refine .rest rfl rfl (Or.inl ?_)
      simp only [VaultPc.andThen]
      split_ifs <;> rfl
  case h_2 =>
    cases hload : loadWallet resolve v.store walletId with
    | error e => exact .rest rfl rfl (Or.inl rfl)
    | ok m => exact .readToDelete walletId m rfl (loadWallet_eq_ok hload)
  case h_3 => exact .rest rfl rfl (Or.inl rfl)
  case h_4 => exact effect_update _ pc rfl

theorem effect_status {call : VaultCall} (hcall : call.deletes = none) (walletId : Str)
    (status : WalletStatus) (refusal : String) (pc : VaultPc κ) :
    VaultEffect resolve v ⟨call, pc⟩ .next (statusNext resolve v walletId status refusal pc).1
      (statusNext resolve v walletId status refusal pc).2.holding := by
  unfold statusNext
  split
  case h_1 =>
    cases hload : loadWallet resolve v.store walletId with
    | error e => exact .rest rfl rfl (Or.inl rfl)
    | ok m =>
      simp only [VaultPc.andThen]
      split_ifs with hdeleted
      · exact .rest rfl rfl (Or.inl rfl)
      · exact .readToSet _ m status hcall (loadWallet_eq_ok hload) hdeleted
  case h_2 => exact effect_update call pc rfl

/-- A request to sign holds nothing. -/
theorem holding_signNext (v : Vault) (handler : SigningHandler) (sub walletId : Str)
    (pc : VaultPc κ) : (signNext format resolve v handler sub walletId pc).holding = pc.holding ∨
      (signNext format resolve v handler sub walletId pc).holding = .nothing := by
  have handThen : ∀ {α : Type} (result : Except ApiError α) (go : α → VaultPc κ),
      (∀ a, (go a).holding = .nothing) → (VaultPc.andThen result go).holding = .nothing := by
    intro α result go hgo
    cases result with
    | error e => rfl
    | ok a => exact hgo a
  unfold signNext
  split
  · refine Or.inr ?_
    unfold findNext
    split
    · exact handThen _ _ fun m => handThen _ _ fun _ => rfl
    · exact handThen _ _ fun m => handThen _ _ fun _ => rfl
    · exact handThen _ _ fun m => handThen _ _ fun _ => rfl
    · exact handThen _ _ fun m => handThen _ _ fun _ => rfl
    · split <;> rfl
  · refine Or.inr ?_
    split
    · rfl
    · split_ifs <;> rfl
  · refine Or.inr ?_
    split
    · rfl
    · exact handThen _ _ fun _ => rfl
  · exact Or.inl rfl

theorem effect_draw (new : NewWallet) (call : VaultCall) (pc : VaultPc κ) :
    VaultEffect resolve v ⟨call, pc⟩ (.draw new) (drawNext v new call pc).1
      (drawNext v new call pc).2.holding := by
  cases call with
  | create sub label =>
    cases pc with
    | start =>
      unfold drawNext
      dsimp only
      split_ifs with hlabel hdrawn
      · exact .rest rfl rfl (Or.inl rfl)
      · exact .rest rfl rfl (Or.inl rfl)
      · exact .draw new.walletId rfl (Option.not_isSome_iff_eq_none.mp hdrawn) rfl rfl
    | _ => exact .rest rfl rfl (Or.inl rfl)
  | _ => exact .rest rfl rfl (Or.inl rfl)

/-- What an action does. -/
theorem effect_vaultMove (format : KeypairFormat κ) (resolve : Str → Str) (v : Vault)
    (t : VaultThread κ) (a : VaultAction) :
    VaultEffect resolve v t a (vaultMove format resolve v t a).1
      (vaultMove format resolve v t a).2.holding := by
  obtain ⟨call, pc⟩ := t
  cases a with
  | draw new => exact effect_draw new call pc
  | next =>
    cases call with
    | create sub label => exact effect_create sub label pc
    | delete sub walletId => exact effect_delete sub walletId pc
    | suspend walletId | activate walletId => exact effect_status rfl walletId _ _ pc
    | sign handler sub walletId =>
      refine .rest rfl rfl ?_
      rcases holding_signNext v handler sub walletId pc with h | h
      · exact Or.inl h
      · exact Or.inr (Or.inl h)
  | skip =>
    refine .rest rfl rfl ?_
    cases pc with
    | addressed m => exact Or.inr (Or.inr ⟨rfl, rfl⟩)
    | _ => exact Or.inl rfl
  | fail e =>
    refine .rest rfl rfl ?_
    cases pc with
    | returned result => exact Or.inl rfl
    | _ => exact Or.inr (Or.inl rfl)

end Effects

/-! ## What holds between the actions -/

/-- What a deletion holds is a deleted copy of its wallet. -/
def Holding.DeletionOf (walletId : Str) : Holding → Prop
  | .nothing | .done => True
  | .creating _ | .created => False
  | .changing m | .staged m => m.walletId = walletId ∧ m.status = .deleted

/-- The deletions are on their way : an id that is being created is no one else's and not on disk
yet, a copy that is written back is one of a wallet on disk, `meta.tmp` holds a deleted copy when a
deletion is about to rename it, and once it has done so the wallet is deleted and nobody holds an
older copy of it. -/
structure DeletionsOk {κ : Type} (resolve : Str → Str) (v : Vault) (ts : List (VaultThread κ)) :
    Prop where
  drawnOnce : (ts.filterMap fun t => t.pc.holding.drawnId).Nodup
  absent : ∀ t ∈ ts, ∀ w ∈ t.pc.holding.drawnId, ¬Stored v w
  copies : ∀ t ∈ ts, ∀ m ∈ t.pc.holding.copy, Stored v m.walletId
  deletes : ∀ t ∈ ts, ∀ walletId ∈ t.call.deletes, t.pc.holding.DeletionOf (resolve walletId)
  temp : ∀ t ∈ ts, ∀ w, StagesDeletion w t → ∀ m ∈ v.temps.get w, m.status = .deleted
  deleted : ∀ t ∈ ts, ∀ walletId ∈ t.call.deletes, t.pc.holding = .done →
    IsDeleted v (resolve walletId) ∧ ∀ q ∈ ts, ¬SetsStatus (resolve walletId) q

section Steps

variable {κ : Type} {format : KeypairFormat κ} {resolve : Str → Str} {v v' : Vault}
  {t : VaultThread κ} {a : VaultAction} {others : List (VaultThread κ)} {h : Holding} {w : Str}

theorem DeletionsOk.of_perm {ts ts' : List (VaultThread κ)} (hperm : ts.Perm ts')
    (hts : DeletionsOk resolve v ts) : DeletionsOk resolve v ts' := by
  have hall : ∀ {P : VaultThread κ → Prop}, (∀ t ∈ ts, P t) → ∀ t ∈ ts', P t :=
    fun hP t ht => hP t (hperm.mem_iff.mpr ht)
  refine ⟨?_, hall hts.absent, hall hts.copies, hall hts.deletes, hall hts.temp, ?_⟩
  · exact (hperm.filterMap _).nodup_iff.mp hts.drawnOnce
  · refine hall fun t ht walletId hcall hdone => ?_
    obtain ⟨hdeleted, hnone⟩ := hts.deleted t ht walletId hcall hdone
    exact ⟨hdeleted, hall hnone⟩

theorem Undisturbed.of_perm {ts ts' : List (VaultThread κ)} (hperm : ts.Perm ts')
    (hmay : Undisturbed v ts t a) : Undisturbed v ts' t a := by
  cases a with
  | next =>
    unfold Undisturbed at hmay ⊢
    cases hpc : t.pc.holding with
    | changing m | staged m =>
      rw [hpc] at hmay
      exact fun hcall q hq => hmay hcall q (hperm.mem_iff.mpr hq)
    | _ => trivial
  | _ => trivial

theorem IsDeleted.stored (hw : IsDeleted v w) : Stored v w := by
  unfold IsDeleted at hw
  unfold Stored
  cases hget : v.store.metas.get w with
  | none =>
    rw [hget] at hw
    cases hw
  | some m => rfl

/-- Only a request that creates a wallet puts a new one on disk. -/
theorem VaultEffect.stored_or (heffect : VaultEffect resolve v t a v' h)
    (hts : DeletionsOk resolve v (t :: others)) (hw : Stored v' w) :
    Stored v w ∨ w ∈ t.pc.holding.drawnId ∧ h.drawnId = none := by
  cases heffect with
  | rest hmetas | draw _ _ _ hmetas =>
    rw [Stored, hmetas] at hw
    exact Or.inl hw
  | readToDelete | readToSet | draft | stage => exact Or.inl hw
  | describe w' copy hpc hcopy hmetas =>
    rw [Stored, hmetas, Table.isSome_get_insert_iff] at hw
    rcases hw with rfl | hw
    · exact Or.inr ⟨congrArg Holding.drawnId hpc, rfl⟩
    · exact Or.inl hw
  | replace m copy _ hpc hcopy hmetas =>
    rw [Stored, hmetas, Table.isSome_get_insert_iff] at hw
    rcases hw with rfl | hw
    · exact Or.inl (hts.copies t List.mem_cons_self m (congrArg Holding.copy hpc))
    · exact Or.inl hw

/-- A wallet stays deleted, unless the acting request sets its status. -/
theorem VaultEffect.isDeleted (heffect : VaultEffect resolve v t a v' h)
    (hts : DeletionsOk resolve v (t :: others)) (hw : IsDeleted v w) (hset : ¬SetsStatus w t) :
    IsDeleted v' w := by
  cases heffect with
  | rest hmetas | draw _ _ _ hmetas => rwa [IsDeleted, hmetas]
  | readToDelete | readToSet | draft | stage => exact hw
  | describe w' copy hpc hcopy hmetas =>
    rw [IsDeleted, hmetas, Table.get_insert_of_ne]
    · exact hw
    · rintro rfl
      exact hts.absent t List.mem_cons_self _ (congrArg Holding.drawnId hpc) hw.stored
  | replace m copy _ hpc hcopy hmetas =>
    rw [IsDeleted, hmetas, Table.get_insert]
    split_ifs with hm
    · -- The request is a deletion too, so what it puts in place is deleted.
      have hstaged : StagesDeletion w t := by
        refine ⟨fun hcall => hset ⟨hcall, ?_⟩, ?_⟩ <;> rw [hpc, hm] <;> rfl
      exact congrArg some (hts.temp t List.mem_cons_self w hstaged copy (hm ▸ hcopy))
    · exact hw

/-- Nobody starts to set the status of a deleted wallet. -/
theorem VaultEffect.setsStatus {pc : VaultPc κ} (hok : VaultOk v)
    (heffect : VaultEffect resolve v t a v' pc.holding) (hw : IsDeleted v w)
    (hset : ¬SetsStatus w t) : ¬SetsStatus w { t with pc := pc } := by
  rintro ⟨hcall, hcopy⟩
  dsimp only at hcall hcopy
  generalize pc.holding = h at heffect hcopy
  cases heffect with
  | rest _ _ hh =>
    rcases hh with rfl | rfl | ⟨rfl, -⟩
    · exact hset ⟨hcall, hcopy⟩
    · cases hcopy
    · cases hcopy
  | draw | draft | describe | replace => cases hcopy
  | readToDelete walletId m hdeletes =>
    rw [hcall] at hdeletes
    cases hdeletes
  | readToSet w' m status _ hm hlive =>
    -- What is read is the deleted wallet, which the handler refuses.
    obtain rfl : w' = w := (hok.metas w' m hm).1.symm.trans (Option.some.inj hcopy)
    rw [IsDeleted, hm] at hw
    exact hlive (Option.some.inj hw)
  | stage m _ hpc =>
    refine hset ⟨hcall, ?_⟩
    rw [hpc]
    exact hcopy

theorem StagesDeletion.stored (hstages : StagesDeletion w t) (hts : DeletionsOk resolve v others)
    (ht : t ∈ others) : Stored v w := by
  obtain ⟨m, hm, rfl⟩ := Option.map_eq_some_iff.mp hstages.2
  refine hts.copies t ht m ?_
  unfold Holding.stagedCopy at hm
  split at hm
  case h_1 m' hpc =>
    rw [hpc]
    exact hm
  case h_2 => cases hm

/-- `meta.tmp` still holds a deleted copy when a deletion is about to rename it. -/
theorem VaultEffect.temp (heffect : VaultEffect resolve v t a v' h)
    (hts : DeletionsOk resolve v (t :: others)) (hmay : Undisturbed v (t :: others) t a)
    (hstaged : (∃ q ∈ others, StagesDeletion w q) ∨
      t.call.deletes ≠ none ∧ h.stagedCopy.map WalletMetadata.walletId = some w)
    {m : WalletMetadata} (hm : v'.temps.get w = some m) : m.status = .deleted := by
  have hother : ∀ q ∈ others, StagesDeletion w q → v.temps.get w = some m → m.status = .deleted :=
    fun q hq hstages hget => hts.temp q (List.mem_cons_of_mem _ hq) w hstages m hget
  -- The copy was there before, and it is another deletion that has it there.
  have hkept : (∀ q ∈ others, StagesDeletion w q → v.temps.get w = some m) →
      h.stagedCopy = none → m.status = .deleted := by
    intro htemps hnone
    rw [hnone] at hstaged
    rcases hstaged with ⟨q, hq, hstages⟩ | ⟨-, hcopy⟩
    · exact hother q hq hstages (htemps q hq hstages)
    · cases hcopy
  cases heffect with
  | rest _ htemps hh =>
    rw [htemps] at hm
    rcases hh with rfl | rfl | ⟨rfl, -⟩
    · rcases hstaged with ⟨q, hq, hstages⟩ | hstages
      · exact hother q hq hstages hm
      · exact hts.temp t List.mem_cons_self w hstages m hm
    · exact hkept (fun _ _ _ => hm) rfl
    · exact hkept (fun _ _ _ => hm) rfl
  | draw _ _ _ _ htemps =>
    rw [htemps] at hm
    exact hkept (fun _ _ _ => hm) rfl
  | readToDelete | readToSet => exact hkept (fun _ _ _ => hm) rfl
  | draft m' hpc =>
    refine hkept (fun q hq hstages => ?_) rfl
    rw [Vault.writeTemp, Table.get_insert_of_ne] at hm
    · exact hm
    · -- The wallet is being created, so nobody deletes it yet.
      rintro rfl
      exact hts.absent t List.mem_cons_self _ (congrArg Holding.drawnId hpc)
        (hstages.stored hts (List.mem_cons_of_mem _ hq))
  | stage m' ha hpc =>
    rw [ha, Undisturbed, hpc] at hmay
    by_cases hcall : t.call.deletes = none
    · rcases hstaged with ⟨q, hq, hstages⟩ | ⟨hdeletes, -⟩
      · rw [Vault.writeTemp, Table.get_insert_of_ne] at hm
        · exact hother q hq hstages hm
        · rintro rfl
          exact hmay hcall q (List.mem_cons_of_mem _ hq) hstages
      · exact absurd hcall hdeletes
    · obtain ⟨walletId, hwalletId⟩ := Option.ne_none_iff_exists'.mp hcall
      have hdeletion := hts.deletes t List.mem_cons_self walletId hwalletId
      rw [hpc] at hdeletion
      rw [Vault.writeTemp, Table.get_insert] at hm
      split_ifs at hm with hw
      · rw [← Option.some.inj hm]
        exact hdeletion.2
      · rcases hstaged with ⟨q, hq, hstages⟩ | ⟨-, hcopy⟩
        · exact hother q hq hstages hm
        · exact absurd (Option.some.inj hcopy).symm hw
  | describe w' copy hpc hcopy hmetas htemps | replace m' copy _ hpc hcopy hmetas htemps =>
    rw [htemps, Table.get_remove] at hm
    split_ifs at hm
    exact hkept (fun _ _ _ => hm) rfl

/-- What a deletion holds after an action of its own. -/
theorem VaultEffect.deletionOf (hok : VaultOk v) (heffect : VaultEffect resolve v t a v' h)
    (hts : DeletionsOk resolve v (t :: others)) {walletId : Str}
    (hcall : t.call.deletes = some walletId) : h.DeletionOf (resolve walletId) := by
  have hdeletion := hts.deletes t List.mem_cons_self walletId hcall
  cases heffect with
  | rest _ _ hh =>
    rcases hh with rfl | rfl | ⟨rfl, -⟩
    · exact hdeletion
    · trivial
    · trivial
  | draw _ hnone | readToSet _ _ _ hnone =>
    rw [hcall] at hnone
    cases hnone
  | readToDelete walletId' m hcall' hm =>
    obtain rfl : walletId = walletId' := Option.some.inj (hcall.symm.trans hcall')
    exact ⟨(hok.metas _ m hm).1, rfl⟩
  | draft m hpc | describe w copy hpc =>
    rw [hpc] at hdeletion
    exact hdeletion.elim
  | stage m _ hpc =>
    rw [hpc] at hdeletion
    exact hdeletion
  | replace => trivial

/-- Where a deletion is done its wallet is deleted. -/
theorem VaultEffect.done (heffect : VaultEffect resolve v t a v' h)
    (hts : DeletionsOk resolve v (t :: others)) (hmay : Undisturbed v (t :: others) t a)
    {walletId : Str} (hcall : t.call.deletes = some walletId) (hdone : h = .done) :
    IsDeleted v' (resolve walletId) ∧ ∀ q ∈ others, ¬SetsStatus (resolve walletId) q := by
  have hdeletion := hts.deletes t List.mem_cons_self walletId hcall
  have hset : ∀ w, ¬SetsStatus w t := fun w hset => by
    rw [hset.1] at hcall
    cases hcall
  cases heffect with
  | rest hmetas _ hh =>
    have hbefore : t.pc.holding = .done := by
      rcases hh with rfl | rfl | ⟨-, hcreated⟩
      · exact hdone
      · cases hdone
      · rw [hcreated] at hdeletion
        exact hdeletion.elim
    obtain ⟨hdeleted, hnone⟩ := hts.deleted t List.mem_cons_self walletId hcall hbefore
    rw [IsDeleted, hmetas]
    exact ⟨hdeleted, fun q hq => hnone q (List.mem_cons_of_mem _ hq)⟩
  | replace m copy ha hpc hcopy hmetas =>
    rw [ha, Undisturbed, hpc] at hmay
    rw [hpc] at hdeletion
    have hdeletes : t.call.deletes ≠ none := Option.ne_none_iff_exists'.mpr ⟨walletId, hcall⟩
    have hstaged : StagesDeletion m.walletId t := by
      refine ⟨hdeletes, ?_⟩
      rw [hpc]
      rfl
    refine ⟨?_, fun q hq => ?_⟩
    · rw [IsDeleted, hmetas, hdeletion.1, Table.get_insert_self]
      exact congrArg some (hts.temp t List.mem_cons_self _ hstaged copy hcopy)
    · rw [← hdeletion.1]
      exact hmay hdeletes q (List.mem_cons_of_mem _ hq)
  | _ => cases hdone

/-- An id that a request has drawn is one that was drawn. -/
theorem PcOk.drawn {caller : Option Str} {pc : VaultPc κ} (hpc : PcOk format v caller pc)
    (hw : w ∈ pc.holding.drawnId) : v.drawn.get w ≠ none := by
  unfold VaultPc.holding at hw
  split at hw
  case h_1 | h_2 | h_3 =>
    obtain rfl := Option.some.inj hw
    rw [hpc.1]
    exact Option.some_ne_none _
  all_goals cases hw

theorem VaultOk.drawn (hok : VaultOk v) (hw : Stored v w) : v.drawn.get w ≠ none := by
  obtain ⟨m, hm⟩ := Option.isSome_iff_exists.mp hw
  obtain ⟨rfl, hreg⟩ := hok.metas w m hm
  rw [hreg]
  exact Option.some_ne_none _

/-- The id a request holds after an action is the one it held, or one that is new. -/
theorem VaultEffect.drawnId (heffect : VaultEffect resolve v t a v' h) :
    h.drawnId = none ∨ h.drawnId = t.pc.holding.drawnId ∨
      ∃ w, h.drawnId = some w ∧ v.drawn.get w = none := by
  cases heffect with
  | rest _ _ hh =>
    rcases hh with rfl | rfl | ⟨rfl, -⟩
    · exact Or.inr (Or.inl rfl)
    · exact Or.inl rfl
    · exact Or.inl rfl
  | draw w _ hfresh => exact Or.inr (Or.inr ⟨w, rfl, hfresh⟩)
  | draft m hpc => exact Or.inr (Or.inl (congrArg Holding.drawnId hpc).symm)
  | _ => exact Or.inl rfl

/-- What is written back is a copy of a wallet on disk. -/
theorem VaultEffect.copy (hok : VaultOk v) (heffect : VaultEffect resolve v t a v' h)
    (hts : DeletionsOk resolve v (t :: others)) {m : WalletMetadata} (hm : h.copy = some m) :
    Stored v m.walletId := by
  have hbefore := hts.copies t List.mem_cons_self
  cases heffect with
  | rest _ _ hh =>
    rcases hh with rfl | rfl | ⟨rfl, -⟩
    · exact hbefore m hm
    · cases hm
    · cases hm
  | readToDelete _ m' _ hget | readToSet _ m' _ _ hget =>
    obtain rfl := Option.some.inj hm
    exact (hok.of_get hget).2
  | stage m' _ hpc =>
    obtain rfl := Option.some.inj hm
    exact hbefore m' (congrArg Holding.copy hpc)
  | _ => cases hm

/-- One action keeps the deletions on their way. -/
theorem DeletionsOk.act (hinv : VaultInv format v (t :: others))
    (hts : DeletionsOk resolve v (t :: others)) (hmay : Undisturbed v (t :: others) t a) :
    DeletionsOk resolve (vaultAct format resolve v t a).1
      ((vaultAct format resolve v t a).2 :: others) := by
  obtain ⟨hok, hpcs⟩ := hinv
  have hgrows : Grows v (vaultMove format resolve v t a).1 :=
    (vaultMove_ok hok (hpcs t List.mem_cons_self) a).grows
  have heffect := effect_vaultMove format resolve v t a
  have hother : ∀ {q}, q ∈ others → q ∈ t :: others := fun hq => List.mem_cons_of_mem _ hq
  obtain ⟨hown, hnodup⟩ := (nodup_filterMap_cons _ t others).mp hts.drawnOnce
  refine ⟨?_, List.forall_mem_cons.mpr ⟨?_, ?_⟩, List.forall_mem_cons.mpr ⟨?_, ?_⟩,
    List.forall_mem_cons.mpr ⟨?_, ?_⟩, List.forall_mem_cons.mpr ⟨?_, ?_⟩,
    List.forall_mem_cons.mpr ⟨?_, ?_⟩⟩
  · refine (nodup_filterMap_cons ..).mpr ⟨fun w hw q hq hqw => ?_, hnodup⟩
    rcases heffect.drawnId with hnone | hsame | ⟨w', hw', hfresh⟩
    · exact absurd (hw.symm.trans hnone) (Option.some_ne_none w)
    · exact hown w (hsame.symm.trans hw) q hq hqw
    · obtain rfl : w = w' := Option.some.inj (hw.symm.trans hw')
      exact (hpcs q (hother hq)).drawn hqw hfresh
  · intro w hw hstored
    rcases heffect.stored_or hts hstored with hstored | ⟨-, hnone⟩
    · rcases heffect.drawnId with hnone | hsame | ⟨w', hw', hfresh⟩
      · exact absurd (hw.symm.trans hnone) (Option.some_ne_none w)
      · exact hts.absent t List.mem_cons_self w (hsame.symm.trans hw) hstored
      · obtain rfl : w = w' := Option.some.inj (hw.symm.trans hw')
        exact hok.drawn hstored hfresh
    · exact absurd (hw.symm.trans hnone) (Option.some_ne_none w)
  · intro q hq w hw hstored
    rcases heffect.stored_or hts hstored with hstored | ⟨hdrawn, -⟩
    · exact hts.absent q (hother hq) w hw hstored
    · exact hown w hdrawn q hq hw
  · exact fun m hm => hgrows.stored _ (heffect.copy hok hts hm)
  · exact fun q hq m hm => hgrows.stored _ (hts.copies q (hother hq) m hm)
  · exact fun walletId hcall => heffect.deletionOf hok hts hcall
  · exact fun q hq => hts.deletes q (hother hq)
  · exact fun w hstages m hm => heffect.temp hts hmay (Or.inr hstages) hm
  · exact fun q hq w hstages m hm => heffect.temp hts hmay (Or.inl ⟨q, hq, hstages⟩) hm
  · intro walletId hcall hdone
    obtain ⟨hdeleted, hnone⟩ := heffect.done hts hmay hcall hdone
    refine ⟨hdeleted, List.forall_mem_cons.mpr ⟨fun hset => ?_, hnone⟩⟩
    exact absurd (hcall.symm.trans hset.1) (Option.some_ne_none _)
  · intro q hq walletId hcall hdone
    obtain ⟨hdeleted, hnone⟩ := hts.deleted q (hother hq) walletId hcall hdone
    have hset := hnone t List.mem_cons_self
    refine ⟨heffect.isDeleted hts hdeleted hset, List.forall_mem_cons.mpr ⟨?_, ?_⟩⟩
    · exact heffect.setsStatus hok hdeleted hset
    · exact fun r hr => hnone r (hother hr)

end Steps

/-! ## Every interleaving -/

theorem DeletionsOk.stays {κ : Type} {resolve : Str → Str} {s : System Vault (VaultThread κ)}
    (h : DeletionsOk resolve s.shared s.threads) : DeletedStays resolve s := by
  intro t ht walletId hcall hpc
  exact (h.deleted t ht walletId hcall (congrArg VaultPc.holding hpc)).1

/-- A request that starts holds nothing. -/
theorem deletionsOk_spawn {κ : Type} {resolve : Str → Str} {v : Vault}
    {ts : List (VaultThread κ)} (call : VaultCall) (h : DeletionsOk resolve v ts) :
    DeletionsOk resolve v (ts ++ [⟨call, .start⟩]) := by
  refine DeletionsOk.of_perm (List.perm_append_singleton ⟨call, .start⟩ ts).symm ?_
  refine ⟨h.drawnOnce, List.forall_mem_cons.mpr ⟨?_, h.absent⟩,
    List.forall_mem_cons.mpr ⟨?_, h.copies⟩, List.forall_mem_cons.mpr ⟨?_, h.deletes⟩,
    List.forall_mem_cons.mpr ⟨?_, h.temp⟩, List.forall_mem_cons.mpr ⟨?_, ?_⟩⟩
  · exact fun w hw => (Option.not_mem_none w hw).elim
  · exact fun m hm => (Option.not_mem_none m hm).elim
  · exact fun _ _ => trivial
  · exact fun w hstages => absurd hstages.2.symm (Option.some_ne_none w)
  · intro _ _ hdone
    cases hdone
  · intro t ht walletId hcall hdone
    obtain ⟨hdeleted, hnone⟩ := h.deleted t ht walletId hcall hdone
    refine ⟨hdeleted, List.forall_mem_cons.mpr ⟨fun hset => ?_, hnone⟩⟩
    exact absurd hset.2.symm (Option.some_ne_none _)

/-- The files are in order and the deletions on their way. -/
def DeletionInv {κ : Type} (format : KeypairFormat κ) (resolve : Str → Str) (v : Vault)
    (ts : List (VaultThread κ)) : Prop :=
  VaultInv format v ts ∧ DeletionsOk resolve v ts

theorem deletionInv_act {κ : Type} {format : KeypairFormat κ} {resolve : Str → Str} {v : Vault}
    {pre post : List (VaultThread κ)} {t : VaultThread κ} {a : VaultAction}
    (h : DeletionInv format resolve v (pre ++ t :: post))
    (hmay : Undisturbed v (pre ++ t :: post) t a) :
    DeletionInv format resolve (vaultAct format resolve v t a).1
      (pre ++ (vaultAct format resolve v t a).2 :: post) := by
  refine ⟨vaultInv_act a h.1, DeletionsOk.of_perm List.perm_middle.symm ?_⟩
  have hperm : (pre ++ t :: post).Perm (t :: (pre ++ post)) := List.perm_middle
  refine DeletionsOk.act ⟨h.1.1, fun q hq => h.1.2 q (hperm.mem_iff.mpr hq)⟩ (h.2.of_perm hperm) ?_
  exact hmay.of_perm hperm

/-- A deleted wallet stays deleted, as long as no deletion is disturbed. -/
theorem deletedStays {κ : Type} (format : KeypairFormat κ) (resolve : Str → Str)
    (is : List (Input VaultCall VaultAction))
    (h : Runs.Along (Threads.step (vaultProgram format resolve)) (onRuns Undisturbed)
      ⟨Vault.empty, []⟩ is) :
    Runs.Always (Threads.step (vaultProgram format resolve)) (DeletedStays resolve)
      ⟨Vault.empty, []⟩ is := by
  have hempty : DeletionInv format resolve Vault.empty ([] : List (VaultThread κ)) := by
    refine ⟨⟨⟨?_, ?_, ?_⟩, by simp⟩, List.nodup_nil, by simp, by simp, by simp, by simp, by simp⟩
      <;> intro _ _ h <;> cases h
  refine Runs.Always.imp (fun s (hs : DeletionInv format resolve s.shared s.threads) =>
    hs.2.stays) ?_
  refine always_of_runs _ (fun v ts call hinv => ?_) (fun v pre t post a hinv hmay => ?_) hempty h
  · exact ⟨vaultInv_spawn call hinv.1, deletionsOk_spawn call hinv.2⟩
  · exact deletionInv_act hinv hmay

/-- A user creates a wallet and deletes it, while an admin suspends it. `between` says how the
steps of the two requests interleave. -/
def deleteAndSuspend (between : List (Input VaultCall VaultAction)) :
    List (Input VaultCall VaultAction) :=
  .spawn (.create ['u'] none) :: .run 0 (.draw ⟨['w'], ['a'], [7], sampleDate⟩) ::
    List.replicate 6 (.run 0 .next) ++
    .spawn (.delete ['u'] ['w']) :: .spawn (.suspend ['w']) :: between

/-- The request to suspend is done before the deletion reads the wallet, and a later one finds the
wallet deleted and is refused. -/
theorem deletedStays_deleteAndSuspend :
    Runs.Always (Threads.step (vaultProgram ⟨Except.ok, fun _ => ['a']⟩ id)) (DeletedStays id)
      ⟨Vault.empty, []⟩
      (deleteAndSuspend (.run 2 .next :: .run 1 .next :: List.replicate 2 (.run 2 .next) ++
        List.replicate 4 (.run 1 .next) ++ [.spawn (.suspend ['w']), .run 3 .next])) :=
  deletedStays _ _ _ (by decide +kernel)

/-- The request to suspend reads the wallet, the other one deletes it and returns, and then
the copy that was read is put in its place. -/
theorem not_deletedStays_suspend :
    ¬Runs.Always (Threads.step (vaultProgram ⟨Except.ok, fun _ => ['a']⟩ id)) (DeletedStays id)
      ⟨Vault.empty, []⟩
      (deleteAndSuspend (.run 2 .next :: List.replicate 5 (.run 1 .next) ++
        List.replicate 2 (.run 2 .next))) := by
  intro h
  have hdeleted := h.last ⟨.delete ['u'] ['w'], .returned (.ok ())⟩
    (List.mem_of_getElem? (i := 1) rfl) ['w'] rfl rfl
  revert hdeleted
  decide +kernel

end RelationalSdk
