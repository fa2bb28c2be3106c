import RelationalSdk.Grants
import RelationalSdk.Threads

/-!
# Grants on chain and in the mirror

`grant_right` and `revoke_grant` are handlers that submit a transaction, wait for it to
be finalised and then write the mirror. Each handler is a thread, its transaction lands
or fails on its own, and the steps of any number of requests interleave. The Grant PDA
of a triple is the account at `sha256(analyst_id ‖ pool_uuid ‖ right_id)`, taken to be
different for different triples.

The error path after a submitted transaction returns before the mirror is touched, and
the two writes of a grant and a revocation may come in either order, so a mirror entry
can outlive its PDA (`mirror_outlives_pda`). `mirrorSound_of_timely` : it does not in any
run in which a grant is mirrored only while its PDA still exists, and a revocation that
lands is still awaited and goes on to be mirrored.
-/

namespace RelationalSdk

open Text Threads

/-- A request to one of the two handlers. -/
inductive GrantCall where
  | grantRight (t : GrantTriple) (d : GrantDetails)
  | revokeGrant (t : GrantTriple) (revokedSig : Str) (now : Int)
  deriving DecidableEq

namespace GrantCall

/-- The triple a request names. -/
def triple : GrantCall → GrantTriple
  | grantRight t _ => t
  | revokeGrant t _ _ => t

/-- The local write a request ends with. -/
def op : GrantCall → GrantOp
  | grantRight t d => .upsertGrant t d
  | revokeGrant t revokedSig now => .revokeGrantLocal t revokedSig now

/-- The request is to `revoke_grant`. -/
def isRevoke : GrantCall → Bool
  | grantRight _ _ => false
  | revokeGrant _ _ _ => true

theorem op_triple (c : GrantCall) : c.op.triple = c.triple := by
  cases c <;> rfl

theorem op_status_eq_active_iff (c : GrantCall) : c.op.status = .active ↔ c.isRevoke = false := by
  cases c <;> simp [op, GrantOp.status, isRevoke]

end GrantCall

/-- Where a handler is. -/
inductive HandlerPc where
  /-- `grant_right` before its `is_grant_active` check. -/
  | checking
  /-- Before the transaction is sent. -/
  | submitting
  /-- In `await_confirmation`. -/
  | awaiting
  /-- Before the local write. -/
  | mirroring
  | returned (result : Except ApiError Unit)
  deriving DecidableEq

/-- The handler has returned. -/
def HandlerPc.isReturned : HandlerPc → Bool
  | returned _ => true
  | _ => false

/-- Where a handler's transaction is. -/
inductive TxState where
  | unsent
  | pending
  | landed
  | failed
  | dropped
  deriving DecidableEq

/-- A request being handled. -/
structure GrantRequest where
  call : GrantCall
  pc : HandlerPc
  tx : TxState
  deriving DecidableEq

/-- The state the handlers share : the mirror, and which Grant PDAs exist. -/
structure GrantWorld where
  tables : GrantTables
  pdaExists : GrantTriple → Bool

/-- The mirror's answer for a triple. -/
def GrantWorld.active (w : GrantWorld) (t : GrantTriple) : Bool :=
  isGrantActive w.tables t.analystId t.poolPda t.drtName

/-- What can happen to a request next. -/
inductive GrantAction where
  /-- `grant_right` checks the mirror. -/
  | check
  /-- The handler returns an error before it sends the transaction. -/
  | abort (e : ApiError)
  | submit
  /-- `send_transaction` reports an error although the transaction went out. -/
  | sendError (e : String)
  /-- The transaction executes on chain. -/
  | execute
  /-- The transaction expires without executing. -/
  | expire
  /-- `await_confirmation` sees the transaction finalised. -/
  | confirm
  /-- `await_confirmation` sees the transaction failed. -/
  | seeFailure
  /-- `await_confirmation` gives up. -/
  | timeOut
  /-- The local write, which may fail. -/
  | mirror (ok : Bool)

/-- The 409 of a grant that is already active. -/
def alreadyGranted (t : GrantTriple) : ApiError :=
  let name := String.ofList t.drtName
  .conflict s!"analyst already holds an active grant for DRT '{name}' in this pool"

/-- Execution on chain : creating a PDA fails if it exists, closing it if it does not. -/
def executeOnChain (w : GrantWorld) (r : GrantRequest) : GrantWorld × GrantRequest :=
  if w.pdaExists r.call.triple = r.call.isRevoke then
    ({ w with pdaExists := Function.update w.pdaExists r.call.triple !r.call.isRevoke },
      { r with tx := .landed })
  else (w, { r with tx := .failed })

/-- One action of a request. An action that is not possible now does nothing. -/
def grantAct (w : GrantWorld) (r : GrantRequest) : GrantAction → GrantWorld × GrantRequest
  | .check =>
    if r.pc = .checking then
      if w.active r.call.triple then
        (w, { r with pc := .returned (.error (alreadyGranted r.call.triple)) })
      else (w, { r with pc := .submitting })
    else (w, r)
  | .abort e =>
    if r.pc = .checking ∨ r.pc = .submitting then (w, { r with pc := .returned (.error e) })
    else (w, r)
  | .submit =>
    if r.pc = .submitting then (w, { r with pc := .awaiting, tx := .pending }) else (w, r)
  | .sendError e =>
    if r.pc = .submitting then
      (w, { r with
        pc := .returned (.error (.serviceUnavailable s!"transaction send failed: {e}"))
        tx := .pending })
    else (w, r)
  | .execute => if r.tx = .pending then executeOnChain w r else (w, r)
  | .expire => if r.tx = .pending then (w, { r with tx := .dropped }) else (w, r)
  | .confirm =>
    if r.pc = .awaiting ∧ r.tx = .landed then (w, { r with pc := .mirroring }) else (w, r)
  | .seeFailure =>
    if r.pc = .awaiting ∧ r.tx = .failed then
      (w, { r with pc := .returned (.error (.serviceUnavailable "transaction failed on-chain")) })
    else (w, r)
  | .timeOut =>
    if r.pc = .awaiting then
      (w, { r with pc := .returned (.error (.serviceUnavailable
        "transaction confirmation timed out (60s) at finalized")) })
    else (w, r)
  | .mirror ok =>
    if r.pc = .mirroring then
      (if ok then { w with tables := applyGrantOp w.tables r.call.op } else w,
        { r with pc := .returned (.ok ()) })
    else (w, r)

/-- `revoke_grant` has no check : it starts by building its transaction. -/
def GrantCall.start (c : GrantCall) : GrantRequest :=
  ⟨c, if c.isRevoke then .submitting else .checking, .unsent⟩

/-- The two handlers as threads. -/
def grantProgram : Program GrantWorld GrantCall GrantRequest GrantAction :=
  ⟨GrantCall.start, grantAct⟩

/-- Nothing granted, no request yet. -/
def grantsInit : System GrantWorld GrantRequest :=
  ⟨⟨.empty, fun _ => false⟩, []⟩

/-! ## When the mirror is sound -/

/-- No request is in flight and no submitted transaction is pending. -/
def Quiet (rs : List GrantRequest) : Prop :=
  ∀ r ∈ rs, r.pc.isReturned ∧ r.tx ≠ .pending

instance (rs : List GrantRequest) : Decidable (Quiet rs) :=
  inferInstanceAs (Decidable (∀ r ∈ rs, _))

/-- At rest, an active mirror entry has its Grant PDA. -/
def MirrorSound (s : System GrantWorld GrantRequest) : Prop :=
  Quiet s.threads → ∀ t, s.shared.active t = true → s.shared.pdaExists t = true

/-- A grant is mirrored while its PDA exists. A revocation lands while its handler
awaits it, and once it has landed the handler neither times out nor fails its local
write. -/
def Timely (w : GrantWorld) (r : GrantRequest) : GrantAction → Prop
  | .execute => r.call.isRevoke → r.tx = .pending → w.pdaExists r.call.triple → r.pc = .awaiting
  | .timeOut => r.call.isRevoke → r.tx = .landed → r.pc ≠ .awaiting
  | .mirror ok => r.pc = .mirroring →
      if r.call.isRevoke then ok = true else ok → w.pdaExists r.call.triple
  | _ => True

instance (w : GrantWorld) (r : GrantRequest) : ∀ a, Decidable (Timely w r a)
  | .execute => inferInstanceAs (Decidable (_ → _ → _ → _))
  | .timeOut => inferInstanceAs (Decidable (_ → _ → _))
  | .mirror ok => inferInstanceAs (Decidable (r.pc = .mirroring →
      if r.call.isRevoke then ok = true else ok → w.pdaExists r.call.triple))
  | .check | .abort _ | .submit | .sendError _ | .expire | .confirm | .seeFailure => .isTrue trivial

/-- A revocation that has landed and whose local write is still to come. -/
def GrantRequest.Unmirrored (r : GrantRequest) (t : GrantTriple) : Prop :=
  r.call.isRevoke ∧ r.call.triple = t ∧ r.tx = .landed ∧ (r.pc = .awaiting ∨ r.pc = .mirroring)

/-- Every active entry has its PDA, unless a landed revocation of it is on its way to the
mirror. -/
def Covered (w : GrantWorld) (rs : List GrantRequest) : Prop :=
  ∀ t, w.active t → w.pdaExists t ∨ ∃ r ∈ rs, r.Unmirrored t

theorem active_mirror (w : GrantWorld) (c : GrantCall) (t : GrantTriple) :
    GrantWorld.active { w with tables := applyGrantOp w.tables c.op } t = true ↔
      if c.triple = t then c.isRevoke = false else w.active t = true := by
  simp only [GrantWorld.active, isGrantActive_applyGrantOp, GrantCall.op_triple,
    GrantCall.op_status_eq_active_iff]

/-- A request and the world may change together as long as no triple is uncovered that
was covered before. -/
theorem Covered.replace {w w' : GrantWorld} {pre post : List GrantRequest} {r r' : GrantRequest}
    (h : Covered w (pre ++ r :: post))
    (hr : ∀ t, w'.active t → w'.pdaExists t ∨ r'.Unmirrored t ∨
      w.active t ∧ ¬w.pdaExists t ∧ ¬r.Unmirrored t) :
    Covered w' (pre ++ r' :: post) := by
  intro t ht
  rcases hr t ht with hpda | hunm | ⟨hactive, hpda, hunm⟩
  · exact Or.inl hpda
  · exact Or.inr ⟨r', by simp, hunm⟩
  · rcases h t hactive with hpda' | ⟨q, hq, hqt⟩
    · exact absurd hpda' hpda
    · exact Or.inr (exists_mem_replace ⟨q, hq, hqt⟩ fun hrt => absurd hrt hunm)

/-- A handler that moves on without touching the world keeps everything covered if it
does not leave a landed revocation behind. -/
theorem Covered.move {w : GrantWorld} {pre post : List GrantRequest} {r r' : GrantRequest}
    (h : Covered w (pre ++ r :: post)) (hr : ∀ t, r.Unmirrored t → r'.Unmirrored t) :
    Covered w (pre ++ r' :: post) := by
  refine h.replace fun t ht => ?_
  by_cases hpda : w.pdaExists t
  · exact Or.inl hpda
  · by_cases hunm : r.Unmirrored t
    · exact Or.inr (Or.inl (hr t hunm))
    · exact Or.inr (Or.inr ⟨ht, hpda, hunm⟩)

/-- A handler that has no landed revocation to mirror may move on anywhere. -/
theorem GrantRequest.not_unmirrored {r : GrantRequest}
    (hr : ¬(r.tx = .landed ∧ (r.pc = .awaiting ∨ r.pc = .mirroring))) (t : GrantTriple) :
    ¬r.Unmirrored t :=
  fun hunm => hr hunm.2.2

theorem Covered.leave {w : GrantWorld} {pre post : List GrantRequest} {r r' : GrantRequest}
    (h : Covered w (pre ++ r :: post))
    (hr : ¬(r.tx = .landed ∧ (r.pc = .awaiting ∨ r.pc = .mirroring))) :
    Covered w (pre ++ r' :: post) :=
  h.move fun t hunm => absurd hunm (GrantRequest.not_unmirrored hr t)

/-- On chain a grant covers its triple, and a revocation that is awaited covers the
triple whose PDA it closes. -/
theorem Covered.execute {w : GrantWorld} {pre post : List GrantRequest} {r : GrantRequest}
    (h : Covered w (pre ++ r :: post)) (htx : r.tx = .pending)
    (hok : r.call.isRevoke → w.pdaExists r.call.triple → r.pc = .awaiting) :
    Covered (executeOnChain w r).1 (pre ++ (executeOnChain w r).2 :: post) := by
  have hunm : ∀ t, ¬r.Unmirrored t := GrantRequest.not_unmirrored (by simp [htx])
  unfold executeOnChain
  split_ifs with hexists
  · refine h.replace fun t ht => ?_
    by_cases htt : r.call.triple = t
    · subst htt
      cases hrev : r.call.isRevoke with
      | false => simp
      | true =>
        refine Or.inr (Or.inl ⟨hrev, rfl, rfl, Or.inl ?_⟩)
        exact hok hrev (hexists.trans hrev)
    · have hother : Function.update w.pdaExists r.call.triple (!r.call.isRevoke) t =
          w.pdaExists t := Function.update_of_ne (Ne.symm htt) _ _
      dsimp only
      rw [hother]
      by_cases hpda : w.pdaExists t
      · exact Or.inl hpda
      · exact Or.inr (Or.inr ⟨ht, hpda, hunm t⟩)
  · exact h.move fun t ht => absurd ht (hunm t)

/-- The local write of a revocation ends its duty, that of a grant needs the PDA. -/
theorem Covered.mirror {w : GrantWorld} {pre post : List GrantRequest} {r : GrantRequest}
    (h : Covered w (pre ++ r :: post)) {ok : Bool} {result : Except ApiError Unit}
    (hok : if r.call.isRevoke then ok = true else ok → w.pdaExists r.call.triple) :
    Covered (if ok then { w with tables := applyGrantOp w.tables r.call.op } else w)
      (pre ++ { r with pc := .returned result } :: post) := by
  cases ok with
  | false =>
    refine h.move ?_
    rintro t ⟨hrev, -⟩
    simp [hrev] at hok
  | true =>
    refine h.replace fun t ht => ?_
    rw [if_pos rfl, active_mirror] at ht
    simp only [if_true]
    split_ifs at ht with htt
    · rw [ht] at hok
      exact Or.inl (htt ▸ hok rfl)
    · by_cases hpda : w.pdaExists t
      · exact Or.inl hpda
      · exact Or.inr (Or.inr ⟨ht, hpda, fun hunm => htt hunm.2.1⟩)

/-- Every timely action keeps everything covered. -/
theorem covered_grantAct (w : GrantWorld) (pre : List GrantRequest) (r : GrantRequest)
    (post : List GrantRequest) (a : GrantAction) (h : Covered w (pre ++ r :: post))
    (hok : Timely w r a) :
    Covered (grantAct w r a).1 (pre ++ (grantAct w r a).2 :: post) := by
  cases a with
  | check =>
    simp only [grantAct]
    split_ifs with hpc hactive
    · exact h.leave (by simp [hpc])
    · exact h.leave (by simp [hpc])
    · exact h
  | abort e =>
    simp only [grantAct]
    split_ifs with hpc
    · exact h.leave (by rcases hpc with hpc | hpc <;> simp [hpc])
    · exact h
  | submit =>
    simp only [grantAct]
    split_ifs with hpc
    · exact h.leave (by simp [hpc])
    · exact h
  | sendError e =>
    simp only [grantAct]
    split_ifs with hpc
    · exact h.leave (by simp [hpc])
    · exact h
  | execute =>
    simp only [grantAct]
    split_ifs with htx
    · exact h.execute htx fun hrev => hok hrev htx
    · exact h
  | expire =>
    simp only [grantAct]
    split_ifs with htx
    · exact h.leave (by simp [htx])
    · exact h
  | confirm =>
    simp only [grantAct]
    split_ifs with hpc
    · exact h.move fun t ⟨hrev, htt, hlanded, _⟩ => ⟨hrev, htt, hlanded, Or.inr rfl⟩
    · exact h
  | seeFailure =>
    simp only [grantAct]
    split_ifs with hpc
    · exact h.leave (by simp [hpc.2])
    · exact h
  | timeOut =>
    simp only [grantAct]
    split_ifs with hpc
    · exact h.move fun t ⟨hrev, _, hlanded, _⟩ => absurd hpc (hok hrev hlanded)
    · exact h
  | mirror ok =>
    by_cases hpc : r.pc = .mirroring
    · simp only [grantAct, if_pos hpc]
      exact h.mirror (hok hpc)
    · simpa only [grantAct, if_neg hpc] using h

theorem covered_spawn (w : GrantWorld) (rs : List GrantRequest) (c : GrantCall)
    (h : Covered w rs) : Covered w (rs ++ [c.start]) := by
  intro t ht
  rcases h t ht with hpda | ⟨r, hr, hrt⟩
  · exact Or.inl hpda
  · exact Or.inr ⟨r, List.mem_append_left _ hr, hrt⟩

theorem Covered.mirrorSound {s : System GrantWorld GrantRequest}
    (h : Covered s.shared s.threads) : MirrorSound s := by
  intro hquiet t ht
  rcases h t ht with hpda | ⟨r, hr, -, -, -, hat⟩
  · exact hpda
  · have hpc := (hquiet r hr).1
    rcases hat with hat | hat <;> simp [hat, HandlerPc.isReturned] at hpc

/-- In every run of timely actions, the mirror is sound in every state reached. -/
theorem mirrorSound_of_timely (is : List (Input GrantCall GrantAction))
    (h : Runs.Along (step grantProgram) (onActs Timely) grantsInit is) :
    Runs.Always (step grantProgram) MirrorSound grantsInit is := by
  have hinit : Covered grantsInit.shared grantsInit.threads := by
    intro t ht
    simp [grantsInit, GrantWorld.active, isGrantActive, GrantTables.empty] at ht
  exact (always_of_acts grantProgram covered_spawn covered_grantAct hinit h).imp
    fun _ hs => Covered.mirrorSound hs

/-- A grant, and a revocation whose confirmation times out before it lands. -/
def lateRevocation : List (Input GrantCall GrantAction) :=
  [.spawn (.grantRight sampleTriple sampleDetails), .run 0 .check, .run 0 .submit,
    .run 0 .execute, .run 0 .confirm, .run 0 (.mirror true),
    .spawn (.revokeGrant sampleTriple "6Sig".toList 1771891300), .run 1 .submit,
    .run 1 .timeOut, .run 1 .execute]

/-- After a late revocation everything is at rest, the PDA is gone, and the analyst keeps
an active grant. -/
theorem mirror_outlives_pda :
    Quiet (Runs.exec (step grantProgram) grantsInit lateRevocation).threads ∧
    (Runs.exec (step grantProgram) grantsInit lateRevocation).shared.active sampleTriple = true ∧
    (Runs.exec (step grantProgram) grantsInit lateRevocation).shared.pdaExists sampleTriple =
      false ∧
    ¬MirrorSound (Runs.exec (step grantProgram) grantsInit lateRevocation) := by
  have hquiet : Quiet (Runs.exec (step grantProgram) grantsInit lateRevocation).threads := by
    decide +kernel
  have hactive : (Runs.exec (step grantProgram) grantsInit lateRevocation).shared.active
      sampleTriple = true := by decide +kernel
  have hpda : (Runs.exec (step grantProgram) grantsInit lateRevocation).shared.pdaExists
      sampleTriple = false := by decide +kernel
  refine ⟨hquiet, hactive, hpda, fun h => ?_⟩
  have := h hquiet sampleTriple hactive
  simp [hpda] at this

/-- A grant and a revocation that are both confirmed and mirrored in time. -/
def timelyRevocation : List (Input GrantCall GrantAction) :=
  [.spawn (.grantRight sampleTriple sampleDetails), .run 0 .check, .run 0 .submit,
    .run 0 .execute, .run 0 .confirm, .run 0 (.mirror true),
    .spawn (.revokeGrant sampleTriple "6Sig".toList 1771891300), .run 1 .submit,
    .run 1 .execute, .run 1 .confirm, .run 1 (.mirror true)]

/-- A timely grant and revocation leave the mirror sound throughout. -/
theorem mirrorSound_timelyRevocation :
    Runs.Always (step grantProgram) MirrorSound grantsInit timelyRevocation :=
  mirrorSound_of_timely timelyRevocation (by decide +kernel)

end RelationalSdk
