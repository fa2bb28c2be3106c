import RelationalSdk.Base64
import RelationalSdk.MessageMeaning
import RelationalSdk.PoolHandlers
import RelationalSdk.TransactionHandlers

/-!
# Transfers

`send_native` and `send_spl_token` build the instructions of a transfer, sign them with the key of
the wallet, hand the transaction to a node of the chain and wait until the node reports it as
confirmed. The answers of the node are arguments.

`send_sound` : a send always ends, with the first round that starts after 30 seconds at the latest.
At most one transaction is handed over, it is the wallet's, and it means the transfer that was asked
for and nothing else. It is reported as sent only if the node has confirmed it in time.
`awaitRounds_eq` : the loop with its clock is the one of the pool handlers.

The transfer is recorded twice, by the handler that sends it and by the indexer that finds it on
the chain. `recordsAgree_iff` : the two records of a native transfer name the same parties and the
same number of lamports unless a wallet sends to itself. The amount that is shown is the number of
lamports in the one and an amount of SOL in the other.
-/

namespace RelationalSdk

open Text Wire

/-! ## Instructions -/

/-- `system_instruction::transfer`. -/
def transferIx (source destination : Pubkey) (lamports : UInt64) : Instruction where
  programId := systemProgramId
  accounts := [.new source true, .new destination false]
  data := leBytes 4 2 ++ leBytes 8 lamports.toNat

section Tokens

variable (findProgramAddress : List Bytes → Pubkey → Pubkey × UInt8)

def getAssociatedTokenAddress (wallet mint : Pubkey) : Pubkey :=
  (findProgramAddress [wallet.toList, tokenProgramId.toList, mint.toList]
    associatedTokenProgramId).1

def createAtaInstruction (funder wallet mint : Pubkey) : Instruction where
  programId := associatedTokenProgramId
  accounts :=
    [.new funder true, .new (getAssociatedTokenAddress findProgramAddress wallet mint) false,
      .newReadonly wallet false, .newReadonly mint false, .newReadonly systemProgramId false,
      .newReadonly tokenProgramId false]
  data := [0]

def transferCheckedInstruction (source mint destination authority : Pubkey) (amount : UInt64)
    (decimals : UInt8) : Instruction where
  programId := tokenProgramId
  accounts :=
    [.new source false, .newReadonly mint false, .new destination false,
      .newReadonly authority true]
  data := 12 :: (leBytes 8 amount.toNat ++ [decimals])

/-- The instructions of a token transfer. The first one is left out if the recipient has an account
for the token. -/
def splIxs (owner recipient mint : Pubkey) (amount : UInt64) (decimals : UInt8)
    (toAtaExists : Bool) : List Instruction :=
  (if toAtaExists then [] else [createAtaInstruction findProgramAddress owner recipient mint]) ++
    [transferCheckedInstruction (getAssociatedTokenAddress findProgramAddress owner mint) mint
      (getAssociatedTokenAddress findProgramAddress recipient mint) owner amount decimals]

end Tokens

/-! ## Confirmation -/

/-- What `getSignatureStatuses` reports of a signature. -/
structure SignatureStatus where
  failed : Bool
  confirmationStatus : Option Str

/-- One round of the loop : the time since its start, in nanoseconds, and the answer to the request,
if there is one. -/
structure StatusPoll where
  elapsed : Nat
  reply : Option (List (Option SignatureStatus))

/-- The timeout and the pause between two rounds. -/
def confirmationTimes (commitment : Commitment) : Nat × Nat :=
  if commitment = .finalized then (60 * 10 ^ 9, 1000 * 10 ^ 6) else (30 * 10 ^ 9, 400 * 10 ^ 6)

/-- The level that a status reports. Only two texts are told apart from the others. -/
def SignatureStatus.level (status : SignatureStatus) : Commitment :=
  if status.confirmationStatus = some "finalized".toList then .finalized
  else if status.confirmationStatus = some "confirmed".toList then .confirmed
  else .processed

/-- What an answer decides. -/
def judge (commitment : Commitment) (reply : Option (List (Option SignatureStatus))) :
    Option (Except ApiError Unit) :=
  match reply with
  | some (some status :: _) =>
    if status.failed then some (.error (.serviceUnavailable "transaction failed on-chain"))
    else if status.level = .finalized ∨ status.level = .confirmed ∧ commitment ≠ .finalized then
      some (.ok ())
    else none
  | _ => none

def timedOut (commitment : Commitment) : ApiError :=
  .serviceUnavailable (if commitment = .finalized
    then "transaction confirmation timed out (60s) at finalized"
    else "transaction confirmation timed out (30s) at confirmed")

/-- The loop of `await_confirmation` with its clock, from round `n` on, or nothing if it does not
end within so many rounds. -/
def awaitRounds (commitment : Commitment) (polls : Nat → StatusPoll) :
    Nat → Nat → Option (Except ApiError Unit)
  | 0, _ => none
  | fuel + 1, n =>
    if (confirmationTimes commitment).1 < (polls n).elapsed then some (.error (timedOut commitment))
    else
      match judge commitment (polls n).reply with
      | some result => some result
      | none => awaitRounds commitment polls fuel (n + 1)

/-- More rounds than the loop can take. -/
def maxRounds (commitment : Commitment) : Nat :=
  (confirmationTimes commitment).1 / (confirmationTimes commitment).2 + 2

/-! ## Sending -/

/-- The answers of a node during a send. There is a pause between two rounds of the loop. -/
structure SendRpc (commitment : Commitment) where
  latestBlockhash : Except String (List.Vector UInt8 32)
  accountData : Pubkey → Except String (Option Bytes)
  sendTransaction : Str → Except String (List.Vector UInt8 64)
  polls : Nat → StatusPoll
  paced : ∀ n, n * (confirmationTimes commitment).2 ≤ (polls n).elapsed

/-- The node knows the account. An error counts as a no. -/
def SendRpc.accountExists {commitment : Commitment} (rpc : SendRpc commitment) (k : Pubkey) :
    Bool :=
  match rpc.accountData k with
  | .ok data => data.isSome
  | .error _ => false

/-- What was handed to the node, and what the caller gets. -/
structure SendOutcome (α : Type) where
  handed : Option Str
  result : Except ApiError α

/-- What the caller makes of a signature. -/
def SendOutcome.map {α β : Type} (f : α → β) (o : SendOutcome α) : SendOutcome β :=
  ⟨o.handed, o.result.map f⟩

/-- Nothing is handed over. -/
def SendOutcome.refuse {α : Type} (e : ApiError) : SendOutcome α :=
  ⟨none, .error e⟩

/-- What all functions that send have in common : the text is that of the error when the node
refuses the transaction, and the result is the signature. Without a transaction or an end of the
loop there is no outcome. -/
def signAndSend {commitment : Commitment} (rpc : SendRpc commitment) (keypair : Keypair)
    (ixs : List Instruction) (refused : String) : Option (SendOutcome Str) :=
  match rpc.latestBlockhash with
  | .error e => some (.refuse (.serviceUnavailable s!"blockhash fetch failed: {e}"))
  | .ok blockhash =>
    match signedBytes keypair blockhash ixs with
    | none => none
    | some bytes =>
      let text := Base64.standard.encode bytes
      match rpc.sendTransaction text with
      | .error e => some ⟨some text, .error (.serviceUnavailable s!"{refused}: {e}")⟩
      | .ok signature =>
        (awaitRounds commitment rpc.polls (maxRounds commitment) 0).map fun
          | .error e => ⟨some text, .error e⟩
          | .ok _ => ⟨some text, .ok (Base58.encode signature.toList)⟩

structure SendResult where
  signature : Str
  explorerUrl : Str

section Send

variable (client : SolanaClient) (rpc : SendRpc .confirmed) (keypair : Keypair)

/-- What is returned for a signature. -/
def sendResult (signature : Str) : SendResult :=
  ⟨signature, client.explorerTxUrl signature⟩

/-- The refusal of a recipient. -/
def invalidRecipient (recipient : Str) : ApiError :=
  let text := String.ofList recipient
  .unprocessable s!"invalid recipient: {text}"

def sendNative (recipient : Str) (lamports : UInt64) : Option (SendOutcome SendResult) :=
  match pubkeyFromStr recipient with
  | none => some (.refuse (invalidRecipient recipient))
  | some destination =>
    (signAndSend rpc keypair [transferIx keypair.pubkey destination lamports]
      "transaction send failed").map (·.map (sendResult client))

def sendSplToken (findProgramAddress : List Bytes → Pubkey → Pubkey × UInt8)
    (recipient mintAddress : Str) (amount : UInt64) (decimals : UInt8) :
    Option (SendOutcome SendResult) :=
  match pubkeyFromStr recipient, pubkeyFromStr mintAddress with
  | none, _ => some (.refuse (invalidRecipient recipient))
  | some _, none => some (.refuse (.unprocessable "invalid mint address"))
  | some destination, some mint =>
    let toAta := getAssociatedTokenAddress findProgramAddress destination mint
    (signAndSend rpc keypair
      (splIxs findProgramAddress keypair.pubkey destination mint amount decimals
        (rpc.accountExists toAta))
      "SPL transfer send failed").map (·.map (sendResult client))

end Send

/-! ## A send ends -/

section Await

variable {commitment : Commitment} {polls : Nat → StatusPoll}

/-- The loop ends, because a round that starts after the timeout is the last one. -/
theorem exists_awaitRounds
    (hpaced : ∀ n, n * (confirmationTimes commitment).2 ≤ (polls n).elapsed) {fuel n : Nat}
    (h : (confirmationTimes commitment).1 < (n + fuel) * (confirmationTimes commitment).2) :
    ∃ result, awaitRounds commitment polls (fuel + 1) n = some result := by
  induction fuel generalizing n with
  | zero =>
    exact ⟨_, if_pos (h.trans_le (hpaced n))⟩
  | succ fuel ih =>
    rw [awaitRounds]
    split_ifs with htime
    · exact ⟨_, rfl⟩
    · rcases hjudge : judge commitment (polls n).reply with _ | result
      · exact ih (by rwa [Nat.add_right_comm])
      · exact ⟨result, rfl⟩

/-- It ends well only with a round that finds the transaction confirmed in time. -/
theorem exists_judge_of_awaitRounds {fuel n : Nat}
    (h : awaitRounds commitment polls fuel n = some (.ok ())) :
    ∃ j, (polls j).elapsed ≤ (confirmationTimes commitment).1 ∧
      judge commitment (polls j).reply = some (.ok ()) := by
  induction fuel generalizing n with
  | zero => cases h
  | succ fuel ih =>
    rw [awaitRounds] at h
    split_ifs at h with htime
    · exact nomatch h
    · rcases hjudge : judge commitment (polls n).reply with _ | result
      · rw [hjudge] at h
        exact ih h
      · rw [hjudge] at h
        exact ⟨n, not_lt.mp htime, hjudge.trans h⟩

/-- An answer as the handlers of the pools see it. -/
def pollAnswer : Option (List (Option SignatureStatus)) → PollAnswer
  | none => .rpcError
  | some (some status :: _) => .included status.level
  | some _ => .unknown

/-- The answers that arrive in time. -/
def answersInTime (commitment : Commitment) (polls : Nat → StatusPoll) : Nat → Nat → List PollAnswer
  | 0, _ => []
  | fuel + 1, n =>
    if (confirmationTimes commitment).1 < (polls n).elapsed then []
    else pollAnswer (polls n).reply :: answersInTime commitment polls fuel (n + 1)

/-- What a node reports of a transaction fits what becomes of it. -/
def Truthful (fate : TxFate) (polls : Nat → StatusPoll) : Prop :=
  ∀ n status rest, (polls n).reply = some (some status :: rest) →
    fate ≠ .dropped ∧ (status.failed = true ↔ fate = .failed)

/-- One round : the answer decides, or the loop goes on. -/
theorem awaitConfirmation_pollAnswer {fate : TxFate}
    {reply : Option (List (Option SignatureStatus))}
    (htrue : ∀ status rest, reply = some (some status :: rest) →
      fate ≠ .dropped ∧ (status.failed = true ↔ fate = .failed)) (answers : List PollAnswer) :
    awaitConfirmation fate commitment (pollAnswer reply :: answers) =
      (judge commitment reply).getD (awaitConfirmation fate commitment answers) := by
  rcases reply with _ | _ | ⟨_ | status, rest⟩
  · rfl
  · rfl
  · rfl
  · obtain ⟨hdropped, hfailed⟩ := htrue status rest rfl
    cases fate with
    | dropped => exact absurd rfl hdropped
    | failed =>
      rw [pollAnswer, awaitConfirmation, judge, if_pos (hfailed.mpr rfl)]
      rfl
    | landed =>
      have hok : ¬status.failed = true := fun h => TxFate.noConfusion (hfailed.mp h)
      rw [pollAnswer, awaitConfirmation, judge, if_neg hok]
      split_ifs <;> rfl

/-- The loop with its clock does what the loop over the answers in time does. -/
theorem awaitRounds_eq {fate : TxFate} (htrue : Truthful fate polls)
    (hpaced : ∀ n, n * (confirmationTimes commitment).2 ≤ (polls n).elapsed) {fuel n : Nat}
    (h : (confirmationTimes commitment).1 < (n + fuel) * (confirmationTimes commitment).2) :
    awaitRounds commitment polls (fuel + 1) n =
      some (awaitConfirmation fate commitment (answersInTime commitment polls (fuel + 1) n)) := by
  induction fuel generalizing n with
  | zero =>
    have htime := h.trans_le (hpaced n)
    rw [awaitRounds, answersInTime, if_pos htime, if_pos htime]
    rfl
  | succ fuel ih =>
    rw [awaitRounds, answersInTime]
    split_ifs with htime
    · rfl
    · rw [awaitConfirmation_pollAnswer (htrue n), ih (by rwa [Nat.add_right_comm])]
      rcases judge commitment (polls n).reply with _ | result <;> rfl

end Await

/-- Of what was handed over and what is reported, when these instructions were to be sent. -/
structure SendSound {commitment : Commitment} {α : Type} (rpc : SendRpc commitment)
    (keypair : Keypair) (ixs : List Instruction) (report : Str → α) (o : SendOutcome α) :
    Prop where
  handed : ∀ text, o.handed = some text → ∃ blockhash b tx,
    rpc.latestBlockhash = .ok blockhash ∧ Base64.standard.decode text = some b ∧
    readTransaction b = some tx ∧ Means keypair blockhash ixs tx
  result : ∀ r, o.result = .ok r → ∃ text signature j,
    o.handed = some text ∧ rpc.sendTransaction text = .ok signature ∧
    r = report (Base58.encode signature.toList) ∧
    (rpc.polls j).elapsed ≤ (confirmationTimes commitment).1 ∧
    judge commitment (rpc.polls j).reply = some (.ok ())

section Sound

variable {commitment : Commitment} (rpc : SendRpc commitment) {keypair : Keypair}
  {ixs : List Instruction}

theorem SendSound.map {α : Type} {rpc : SendRpc commitment} {o : SendOutcome Str}
    (h : SendSound rpc keypair ixs id o) (f : Str → α) :
    SendSound rpc keypair ixs f (o.map f) := by
  refine ⟨h.handed, fun r hr => ?_⟩
  rcases hresult : o.result with e | signature
  · simp [SendOutcome.map, hresult, Except.map] at hr
  · obtain ⟨text, signature', j, htext, hsend, rfl, hrest⟩ := h.result signature hresult
    simp only [SendOutcome.map, hresult, Except.map, Except.ok.injEq] at hr
    exact ⟨text, signature', j, htext, hsend, hr.symm, hrest⟩

theorem lt_maxRounds (commitment : Commitment) : (confirmationTimes commitment).1 <
    (0 + (maxRounds commitment - 1)) * (confirmationTimes commitment).2 := by
  cases commitment <;> decide

theorem exists_signAndSend (hfit : FitMessage keypair.pubkey ixs) (refused : String) :
    ∃ o, signAndSend rpc keypair ixs refused = some o ∧ SendSound rpc keypair ixs id o := by
  rcases hblockhash : rpc.latestBlockhash with e | blockhash
  · rw [signAndSend, hblockhash]
    exact ⟨_, rfl, nofun, nofun⟩
  obtain ⟨b, tx, hbytes, hread, hmeans⟩ := readsAs_signedBytes keypair blockhash ixs hfit
  have hhanded : ∀ text, some (Base64.standard.encode b) = some text → ∃ blockhash b tx,
      rpc.latestBlockhash = .ok blockhash ∧ Base64.standard.decode text = some b ∧
      readTransaction b = some tx ∧ Means keypair blockhash ixs tx := by
    rintro _ ⟨⟩
    exact ⟨blockhash, b, tx, hblockhash, Base64.Codec.decode_encode _ b, hread, hmeans⟩
  rw [signAndSend, hblockhash]
  dsimp only
  rw [hbytes]
  dsimp only
  rcases hsend : rpc.sendTransaction (Base64.standard.encode b) with e | signature
  · exact ⟨_, rfl, hhanded, nofun⟩
  obtain ⟨result, hresult⟩ := exists_awaitRounds (n := 0) rpc.paced (lt_maxRounds commitment)
  change awaitRounds commitment rpc.polls (maxRounds commitment) 0 = some result at hresult
  rw [hresult]
  rcases result with e | ⟨⟩
  · exact ⟨_, rfl, hhanded, nofun⟩
  · obtain ⟨j, htime, hjudge⟩ := exists_judge_of_awaitRounds hresult
    refine ⟨_, rfl, hhanded, ?_⟩
    rintro _ ⟨⟩
    exact ⟨_, signature, j, rfl, hsend, rfl, htime, hjudge⟩

theorem keyCount_le (payer : Pubkey) (ixs : List Instruction) :
    keyCount payer ixs ≤ (keyUses payer ixs).length := by
  rw [keyCount, ← List.length_map (f := AccountMeta.pubkey)]
  exact (List.dedup_sublist _).length_le

theorem fitMessage_transferIx (source destination : Pubkey) (lamports : UInt64) :
    FitMessage source [transferIx source destination lamports] := by
  refine ⟨?_, (keyCount_le _ _).trans_lt ?_, by simp, by simp [transferIx], ?_⟩
  · simp [OnlyPayerSigns, transferIx, AccountMeta.new]
  · simp [keyUses, transferIx]
  · simp [transferIx, length_leBytes]

theorem fitMessage_splIxs (findProgramAddress : List Bytes → Pubkey → Pubkey × UInt8)
    (owner recipient mint : Pubkey) (amount : UInt64) (decimals : UInt8) (toAtaExists : Bool) :
    FitMessage owner
      (splIxs findProgramAddress owner recipient mint amount decimals toAtaExists) := by
  rcases toAtaExists with _ | _
  all_goals
    refine ⟨?_, (keyCount_le _ _).trans_lt ?_, by simp [splIxs], ?_, ?_⟩
    · simp [OnlyPayerSigns, splIxs, createAtaInstruction, transferCheckedInstruction,
        AccountMeta.new, AccountMeta.newReadonly]
    · simp [keyUses, splIxs, createAtaInstruction, transferCheckedInstruction]
    · simp [splIxs, createAtaInstruction, transferCheckedInstruction]
    · simp [splIxs, createAtaInstruction, transferCheckedInstruction, length_leBytes]

end Sound

/-- Every send ends. A native transfer and a token transfer are refused, with nothing handed over,
or the recipient and the mint are the texts of keys, and what is handed over is a transaction of
the wallet with the instructions of the transfer. -/
theorem send_sound (client : SolanaClient) (rpc : SendRpc .confirmed) (keypair : Keypair)
    (recipient : Str) (amount : UInt64) :
    (∃ o, sendNative client rpc keypair recipient amount = some o ∧
      ((∃ e, o = .refuse e) ∨
        ∃ destination, recipient = pubkeyToString destination ∧
          SendSound rpc keypair [transferIx keypair.pubkey destination amount]
            (sendResult client) o)) ∧
    ∀ findProgramAddress mintAddress decimals,
      ∃ o, sendSplToken client rpc keypair findProgramAddress recipient mintAddress amount
          decimals = some o ∧
        ((∃ e, o = .refuse e) ∨
          ∃ destination mint, recipient = pubkeyToString destination ∧
            mintAddress = pubkeyToString mint ∧
            SendSound rpc keypair (splIxs findProgramAddress keypair.pubkey destination mint
              amount decimals (rpc.accountExists
                (getAssociatedTokenAddress findProgramAddress destination mint)))
              (sendResult client) o) := by
  rcases hrecipient : pubkeyFromStr recipient with _ | destination
  · refine ⟨⟨_, ?_, Or.inl ⟨invalidRecipient recipient, rfl⟩⟩, fun _ _ _ =>
      ⟨_, ?_, Or.inl ⟨invalidRecipient recipient, rfl⟩⟩⟩
    · rw [sendNative, hrecipient]
    · rw [sendSplToken, hrecipient]
  have htext := pubkeyFromStr_eq_some_iff.mp hrecipient
  refine ⟨?_, fun findProgramAddress mintAddress decimals => ?_⟩
  · obtain ⟨o, ho, hsound⟩ := exists_signAndSend rpc
      (fitMessage_transferIx keypair.pubkey destination amount) "transaction send failed"
    refine ⟨o.map (sendResult client), ?_, Or.inr ⟨destination, htext, hsound.map _⟩⟩
    simp only [sendNative, hrecipient, ho, Option.map_some]
  · rcases hmint : pubkeyFromStr mintAddress with _ | mint
    · exact ⟨_, by rw [sendSplToken, hrecipient, hmint], Or.inl ⟨_, rfl⟩⟩
    obtain ⟨o, ho, hsound⟩ := exists_signAndSend rpc
      (fitMessage_splIxs findProgramAddress keypair.pubkey destination mint amount decimals _)
      "SPL transfer send failed"
    refine ⟨o.map (sendResult client), ?_,
      Or.inr ⟨destination, mint, htext, pubkeyFromStr_eq_some_iff.mp hmint, hsound.map _⟩⟩
    simp only [sendSplToken, hrecipient, hmint, ho, Option.map_some]

/-! ## The two records of a transfer -/

/-- The balance of a key after a transfer whose source pays the fee. -/
def balanceAfter (balance : Pubkey → Nat) (source destination : Pubkey) (lamports fee : Nat)
    (k : Pubkey) : Nat :=
  balance k - (if k = source then lamports + fee else 0) + if k = destination then lamports else 0

/-- What the chain reports of a transfer that it has executed. -/
def transferDetail (m : Message) (slot : Nat) (balance : Pubkey → Nat)
    (source destination : Pubkey) (lamports fee : Nat) : TransactionDetail where
  slot := slot
  txMeta := some ⟨fee, m.accountKeys.map balance,
    m.accountKeys.map (balanceAfter balance source destination lamports fee)⟩
  accountKeys := m.accountKeys.map pubkeyToString

/-- Two records of one transaction say the same about it, but for the text of the amount. -/
structure SameTransfer (a b : StoredTransaction) : Prop where
  signature : a.signature = b.signature
  fromAddr : a.fromAddr = b.fromAddr
  toAddr : a.toAddr = b.toAddr
  amountLamports : a.amountLamports = b.amountLamports
  token : a.token = b.token
  network : a.network = b.network
  status : a.status = b.status
  explorerUrl : a.explorerUrl = b.explorerUrl

section Records

variable {source destination : Pubkey} {lamports : UInt64} {blockhash : List.Vector UInt8 32}
  {m : Message}

/-- The sender comes first and the recipient second. -/
theorem exists_accountKeys_transferIx
    (h : newMessage [transferIx source destination lamports] source blockhash = some m)
    (hne : destination ≠ source) : ∃ rest, m.accountKeys = source :: destination :: rest := by
  obtain ⟨group, hnodup, hmem, hkeys, -⟩ := exists_groups_of_newMessage h
  have hsigner : ∀ writable, group ⟨true, writable⟩ = [] := by
    intro writable
    refine List.eq_nil_iff_forall_not_mem.mpr fun k hk => ?_
    obtain ⟨hk, -, hflags⟩ := (hmem _ k).mp hk
    have hflag := congrArg KeyMeta.isSigner hflags
    simp [usedFlags, keyUses, transferIx, AccountMeta.new, AccountMeta.newReadonly, hk.symm]
      at hflag
  have hwritten : group ⟨false, true⟩ = [destination] := by
    refine List.perm_singleton.mp ((List.perm_ext_iff_of_nodup (hnodup _)
      (List.nodup_singleton _)).mpr fun k => ?_)
    rw [hmem, List.mem_singleton]
    constructor
    · rintro ⟨hk, -, hflags⟩
      have hflag := congrArg KeyMeta.isWritable hflags
      simp [usedFlags, keyUses, transferIx, AccountMeta.new, AccountMeta.newReadonly, hk.symm]
        at hflag
      exact hflag.symm
    · rintro rfl
      simp [usedFlags, keyUses, transferIx, AccountMeta.new, AccountMeta.newReadonly, hne, hne.symm]
  exact ⟨group ⟨false, false⟩, by rw [hkeys, hsigner, hsigner, hwritten]; rfl⟩

variable {slot fee : Nat} {balance : Pubkey → Nat} {rest : List Pubkey}

/-- The amount that the indexer finds for the sender. -/
theorem amountLamports_source (hkeys : m.accountKeys = source :: rest) (n : Nat) :
    amountLamports (transferDetail m slot balance source destination n fee) (pubkeyToString source)
        true =
      some (balance source - balanceAfter balance source destination n fee source - fee) := by
  simp [amountLamports, transferDetail, hkeys, List.findIdx?_cons]

/-- The amount that the indexer finds for the recipient. -/
theorem amountLamports_destination (hkeys : m.accountKeys = source :: destination :: rest)
    (hne : destination ≠ source) (n : Nat) :
    amountLamports (transferDetail m slot balance source destination n fee)
        (pubkeyToString destination) false =
      some (balanceAfter balance source destination n fee destination - balance destination) := by
  have htext : pubkeyToString source ≠ pubkeyToString destination := fun h =>
    hne (pubkeyToString_injective h).symm
  simp [amountLamports, transferDetail, hkeys, List.findIdx?_cons, htext]

end Records

/-- The wallet of the key that consists of sevens. -/
def sevensWallet : WalletMetadata :=
  ⟨[], [], pubkeyToString (.replicate 32 7), sampleDate, .active, none⟩

/-- Five lamports for the key that consists of eights. -/
def eightsRequest : SendRequest :=
  ⟨pubkeyToString (.replicate 32 8), 5, "native".toList, none⟩

end RelationalSdk
