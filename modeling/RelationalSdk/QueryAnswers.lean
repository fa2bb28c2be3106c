import RelationalSdk.DataQueries

/-!
# What the answers to queries rest on

Any number of queries interleave with each other and with grants, revocations, uploads, changes of
the files in the caches and of the paths, events of other requests and restarts of the process.

`answers_justified` : whoever gets a result had an active grant when the query looked it up; the
module that ran is the compilation of a script with the hash that the metadata had before; and the
result is what that module returned for the concatenation of files of the data set, listed at one
time after that and each read at one time later still. Each query that was answered, with a result
or with an error, has tried once to log its event, and no other execution was logged. A failed write
is not noticed.
-/

namespace RelationalSdk

open Text KeyedTable Runs Threads JsonValue

section Justified

variable {μ σ : Type} {env : QueryEnv μ σ}

/-! ## The scripts of the queries -/

/-- What a query does with the scripts. -/
def QueryParty.scripts : QueryParty μ → ScriptParty μ
  | .query q => q.session.elim .environment .session
  | .environment => .environment

/-- A session may start anew at any time. -/
theorem ScriptsOk.restart {sha256 : Bytes → Bytes} {engine : Engine μ} {considered : Set Bytes}
    {d : ScriptDir} {pre post : List (ScriptParty μ)} {t : ScriptParty μ}
    (h : ScriptsOk engine sha256 considered d (pre ++ t :: post)) (boot : Nat) (url hexHash : Str) :
    ScriptsOk engine sha256 considered d
      (pre ++ .session ⟨boot, url, hexHash, .start, false⟩ :: post) := by
  have hheld : (ScriptParty.session (μ := μ) ⟨boot, url, hexHash, .start, false⟩).held d.boot =
      none := ite_self none
  have hnodup := filterMap_held_perm.nodup_iff.mp h.distinct
  refine ⟨h.cwasms, ?_, ?_, fun n hn => ?_⟩
  · refine forall_mem_replace h.parties (fun _ h => h) fun _ => ?_
    have hstart : SessionOk engine sha256 considered d
        (Session.moved ⟨boot, url, hexHash, .start, false⟩ .start false) :=
      .moved (by simp [ScriptPc.script]) (by simp [ScriptPc.chosen]) rfl (by simp)
    exact hstart
  · rw [filterMap_held_perm.nodup_iff, hheld]
    exact hnodup.of_append_right
  · rw [filterMap_held_perm.mem_iff, hheld] at hn
    exact h.below n (filterMap_held_perm.mem_iff.mpr (List.mem_append_right _ hn))

theorem ScriptsOk.concat_environment {sha256 : Bytes → Bytes} {engine : Engine μ}
    {considered : Set Bytes} {d : ScriptDir} {ts : List (ScriptParty μ)}
    (h : ScriptsOk engine sha256 considered d ts) :
    ScriptsOk engine sha256 considered d (ts ++ [.environment]) := by
  have hheld : (ts ++ [ScriptParty.environment]).filterMap (ScriptParty.held d.boot) =
      ts.filterMap (ScriptParty.held d.boot) := by
    simp [ScriptParty.held]
  refine ⟨h.cwasms, fun t ht => ?_, hheld ▸ h.distinct, hheld ▸ h.below⟩
  rcases List.mem_append.mp ht with ht | ht
  · exact h.parties t ht
  · rw [List.mem_singleton.mp ht]
    trivial

variable (env) in
/-- What is known of the scripts. -/
def ScriptsKnown (w : QueryWorld) (ts : List (QueryParty μ)) : Prop :=
  ScriptsOk env.engine env.sha256 Set.univ w.dir (ts.map QueryParty.scripts)

theorem ScriptsKnown.session {w : QueryWorld} {pre post : List (QueryParty μ)} {q q' : Query μ}
    {s : Session μ} {a : ScriptAction} (hlaw : env.engine.Lawful)
    (h : ScriptsKnown env w (pre ++ .query q :: post)) (hs : q.session = some s)
    (hs' : q'.session = some (sessionAct env.engine env.sha256 w.dir s a).2) :
    ScriptsKnown env { w with dir := (sessionAct env.engine env.sha256 w.dir s a).1 }
      (pre ++ .query q' :: post) := by
  unfold ScriptsKnown at h ⊢
  rw [List.map_append, List.map_cons, QueryParty.scripts, hs] at h
  rw [List.map_append, List.map_cons, QueryParty.scripts, hs']
  exact ScriptsOk.session hlaw h fun _ _ => Set.mem_univ _

theorem ScriptsKnown.query {w w' : QueryWorld} {pre post : List (QueryParty μ)} {q q' : Query μ}
    (hlaw : env.engine.Lawful) (h : ScriptsKnown env w (pre ++ .query q :: post))
    (hstep : QueryStep env w q w' q') : ScriptsKnown env w' (pre ++ .query q' :: post) := by
  cases hstep with
  | checked _ _ =>
    unfold ScriptsKnown at h ⊢
    rw [List.map_append, List.map_cons] at h ⊢
    exact h.restart _ _ _
  | session a hs _ => exact h.session hlaw hs rfl
  | ensure hs _ _ => exact h.session hlaw hs rfl
  | execute hs _ => exact h.session hlaw hs rfl
  | _ => simpa only [ScriptsKnown, List.map_append, List.map_cons, QueryParty.scripts] using h

theorem ScriptsKnown.surroundings {w : QueryWorld} {pre post : List (QueryParty μ)}
    (h : ScriptsKnown env w (pre ++ .environment :: post)) (a : QueryAction) :
    ScriptsKnown env (surroundingsAct env w a) (pre ++ .environment :: post) := by
  cases a with
  | script a =>
    unfold ScriptsKnown at h ⊢
    rw [List.map_append, List.map_cons] at h ⊢
    exact ScriptsOk.environment h
  | log io e =>
    rw [surroundingsAct]
    split_ifs
    · exact h
    · exact h
  | _ => exact h

/-- Every interleaving keeps what is known of the scripts. -/
theorem always_scriptsKnown (hlaw : env.engine.Lawful) {w : QueryWorld}
    (hcwasms : ∀ hexHash, ¬Loadable env.engine w.dir hexHash)
    (is : List (Input QueryStart QueryAction)) :
    Always (step (queryProgram env)) (fun st => ScriptsKnown env st.shared st.threads) ⟨w, []⟩
      is := by
  have hinit : ScriptsKnown env w [] :=
    ⟨fun hexHash m hm => absurd ⟨m, hm⟩ (hcwasms hexHash), by simp, by simp, by simp⟩
  refine always_of_all_acts _ (fun w ts call h => ?_) (fun w pre t post a h => ?_) hinit
  · have hstart : ((queryProgram env).start call).scripts = .environment := by
      cases call <;> rfl
    unfold ScriptsKnown
    rw [List.map_append, List.map_singleton, hstart]
    exact ScriptsOk.concat_environment h
  · cases t with
    | environment => exact h.surroundings a
    | query q => exact h.query hlaw (queryAct_step w q a)

/-! ## The events of the queries -/

/-- The attempt is to log an execution. -/
def isExecution (attempt : LogAttempt) : Bool :=
  attempt.2.eventType = .drtExecuted

/-- A store holds what some attempts to log have made of it, one after the other. Those that log an
execution are the ones of the parties, each once. -/
def LogExact {S : Type} (write : S → LogAttempt → S) (tried : QueryParty μ → Option LogAttempt)
    (s₀ s : S) (ts : List (QueryParty μ)) : Prop :=
  ∃ attempts, s = exec write s₀ attempts ∧
    (attempts.filter isExecution).Perm (ts.filterMap tried)

section LogExact

variable {S : Type} {write : S → LogAttempt → S} {tried : QueryParty μ → Option LogAttempt}
  {s₀ s s' : S}

theorem LogExact.replace {pre post : List (QueryParty μ)} {t t' : QueryParty μ}
    (h : LogExact write tried s₀ s (pre ++ t :: post))
    (hstep : tried t' = tried t ∧ s' = s ∨
      tried t = none ∧ ∃ a, isExecution a ∧ tried t' = some a ∧ s' = write s a) :
    LogExact write tried s₀ s' (pre ++ t' :: post) := by
  obtain ⟨attempts, rfl, hperm⟩ := h
  have hbefore := hperm.trans (filterMap_perm_middle tried pre post t)
  rcases hstep with ⟨hsame, rfl⟩ | ⟨hnone, a, ha, hsome, rfl⟩
  · refine ⟨attempts, rfl, List.Perm.trans ?_ (filterMap_perm_middle tried pre post t').symm⟩
    rw [hsame]
    exact hbefore
  · refine ⟨attempts ++ [a], (exec_concat ..).symm,
      List.Perm.trans ?_ (filterMap_perm_middle tried pre post t').symm⟩
    rw [hnone] at hbefore
    rw [hsome, List.filter_append, List.filter_cons_of_pos ha]
    exact (hbefore.append_right [a]).trans List.perm_append_comm

theorem LogExact.other {ts : List (QueryParty μ)} (h : LogExact write tried s₀ s ts)
    {a : LogAttempt} (ha : ¬isExecution a) : LogExact write tried s₀ (write s a) ts := by
  obtain ⟨attempts, rfl, hperm⟩ := h
  refine ⟨attempts ++ [a], (exec_concat ..).symm, ?_⟩
  rw [List.filter_append, List.filter_cons_of_neg ha, List.filter_nil, List.append_nil]
  exact hperm

theorem LogExact.concat {ts : List (QueryParty μ)} (h : LogExact write tried s₀ s ts)
    {t : QueryParty μ} (ht : tried t = none) : LogExact write tried s₀ s (ts ++ [t]) := by
  obtain ⟨attempts, hs, hperm⟩ := h
  refine ⟨attempts, hs, ?_⟩
  rw [List.filterMap_append, List.filterMap_cons_none ht, List.filterMap_nil, List.append_nil]
  exact hperm

end LogExact

/-- What a party has tried to append to the file of the day, -/
def QueryParty.appended : QueryParty μ → Option LogAttempt
  | .query q => q.pc.attempt.map Prod.snd
  | .environment => none

/-- and what it has tried to store in the database. -/
def QueryParty.stored : QueryParty μ → Option LogAttempt
  | .query q => q.pc.stored
  | .environment => none

variable (env) in
/-- Append to the file of the day. -/
def appendEvent (files : Table Str Bytes) (attempt : LogAttempt) : Table Str Bytes :=
  env.codec.append attempt.1 files attempt.2

variable (env) in
/-- The query logs the event of its call and its result. -/
def Query.Logs (q : Query μ) : Prop :=
  ∀ e ∈ q.pc.attempt, ∃ draw, e.2.2 = queryEvent env draw q.call e.1

variable (env) in
/-- The log, from that of `w₀` on, is that of the queries and of other requests. -/
structure AuditExact (w₀ w : QueryWorld) (ts : List (QueryParty μ)) : Prop where
  events : ∀ q, .query q ∈ ts → q.Logs env
  files : LogExact (appendEvent env) QueryParty.appended w₀.audit.files w.audit.files ts
  tables : LogExact (storeEvent env) QueryParty.stored w₀.audit.tables w.audit.tables ts

section AuditExact

variable {w₀ w w' : QueryWorld} {q q' : Query μ}

theorem Query.Logs.isExecution {e : Except ApiError QueryReply × LogAttempt} (h : q.Logs env)
    (he : q.pc.attempt = some e) : isExecution e.2 := by
  obtain ⟨draw, hevent⟩ := h e he
  rw [RelationalSdk.isExecution, hevent]
  rfl

theorem QueryStep.logs (h : QueryStep env w q w' q') (hq : q.Logs env) : q'.Logs env := by
  cases h with
  | stay => exact hq
  | session a hs hpc =>
    rcases hpc with rfl | ⟨drt, e, -, rfl⟩
    · exact hq
    · rintro _ ⟨⟩
  | append draw io hpc =>
    rintro _ ⟨⟩
    exact ⟨draw, rfl⟩
  | store hpc =>
    rintro _ ⟨⟩
    exact hq _ (congrArg QueryPc.attempt hpc)
  | _ => rintro _ ⟨⟩

/-- A step appends the event of the query, once, or nothing. -/
theorem QueryStep.appended (h : QueryStep env w q w' q') :
    (QueryParty.query q').appended = (QueryParty.query q).appended ∧
        w'.audit.files = w.audit.files ∨
      (QueryParty.query q).appended = none ∧ ∃ a, isExecution a ∧
        (QueryParty.query q').appended = some a ∧
          w'.audit.files = appendEvent env w.audit.files a := by
  simp only [QueryParty.appended]
  cases h with
  | stay => exact Or.inl ⟨rfl, rfl⟩
  | session a hs hpc =>
    rcases hpc with rfl | ⟨drt, e, hpc, rfl⟩
    · exact Or.inl ⟨rfl, rfl⟩
    · rw [hpc]
      exact Or.inl ⟨rfl, rfl⟩
  | fail hpc =>
    rw [hpc]
    exact Or.inl ⟨rfl, rfl⟩
  | found hpc _ | checked hpc _ | listed _ hpc | read _ hpc | ensure _ hpc _ | execute _ hpc
  | finish _ hpc _ | store hpc =>
    rw [hpc]
    exact Or.inl ⟨rfl, rfl⟩
  | append draw io hpc =>
    rw [hpc]
    exact Or.inr ⟨rfl, _, rfl, rfl, rfl⟩

/-- A step stores the event that was appended, once, or nothing. -/
theorem QueryStep.stored (h : QueryStep env w q w' q') (hq : q.Logs env) :
    (QueryParty.query q').stored = (QueryParty.query q).stored ∧
        w'.audit.tables = w.audit.tables ∨
      (QueryParty.query q).stored = none ∧ ∃ a, isExecution a ∧
        (QueryParty.query q').stored = some a ∧
          w'.audit.tables = storeEvent env w.audit.tables a := by
  simp only [QueryParty.stored]
  cases h with
  | stay => exact Or.inl ⟨rfl, rfl⟩
  | session a hs hpc =>
    rcases hpc with rfl | ⟨drt, e, hpc, rfl⟩
    · exact Or.inl ⟨rfl, rfl⟩
    · rw [hpc]
      exact Or.inl ⟨rfl, rfl⟩
  | fail hpc =>
    have hnone : q.pc.stored = none := by
      cases hpc' : q.pc with
      | answered result attempt =>
        rw [hpc'] at hpc
        cases hpc
      | _ => rfl
    rw [hnone]
    exact Or.inl ⟨rfl, rfl⟩
  | found hpc _ | checked hpc _ | listed _ hpc | read _ hpc | ensure _ hpc _ | execute _ hpc
  | finish _ hpc _ | append _ _ hpc =>
    rw [hpc]
    exact Or.inl ⟨rfl, rfl⟩
  | store hpc =>
    have hexecution := hq.isExecution (congrArg QueryPc.attempt hpc)
    rw [hpc]
    exact Or.inr ⟨rfl, _, hexecution, rfl, rfl⟩

theorem AuditExact.query {pre post : List (QueryParty μ)}
    (h : AuditExact env w₀ w (pre ++ .query q :: post)) (hstep : QueryStep env w q w' q') :
    AuditExact env w₀ w' (pre ++ .query q' :: post) := by
  have hlogs := h.events q (by simp)
  refine ⟨fun x hx => ?_, h.files.replace hstep.appended, h.tables.replace (hstep.stored hlogs)⟩
  rcases List.mem_append.mp hx with hx | hx
  · exact h.events x (List.mem_append_left _ hx)
  · rcases List.mem_cons.mp hx with heq | hx
    · obtain rfl := QueryParty.query.inj heq
      exact hstep.logs hlogs
    · exact h.events x (List.mem_append_right _ (List.mem_cons_of_mem _ hx))

theorem AuditExact.surroundings {ts : List (QueryParty μ)} (h : AuditExact env w₀ w ts)
    (a : QueryAction) : AuditExact env w₀ (surroundingsAct env w a) ts := by
  cases a with
  | log io e =>
    rw [surroundingsAct]
    split_ifs with he
    · exact h
    · have hother : ¬isExecution (io, e) := by simpa [isExecution] using he
      exact ⟨h.events, h.files.other hother, h.tables.other hother⟩
  | _ => exact ⟨h.events, h.files, h.tables⟩

end AuditExact

/-- Every interleaving logs each query that it answers once. -/
theorem always_auditExact (w : QueryWorld) (is : List (Input QueryStart QueryAction)) :
    Always (step (queryProgram env)) (fun st => AuditExact env w st.shared st.threads) ⟨w, []⟩
      is := by
  refine always_of_all_acts _ (fun w ts call h => ?_) (fun w pre t post a h => ?_) ?_
  · have hstart : ∀ q, (queryProgram env).start call = .query q → q.pc = .start := by
      intro q hq
      cases call with
      | dataQuery call =>
        obtain rfl := QueryParty.query.inj hq
        rfl
      | environment => cases hq
    refine ⟨fun q hq => ?_, h.files.concat ?_, h.tables.concat ?_⟩
    · rcases List.mem_append.mp hq with hq | hq
      · exact h.events q hq
      · rw [Query.Logs, hstart q (List.mem_singleton.mp hq).symm]
        rintro _ ⟨⟩
    · cases call <;> rfl
    · cases call <;> rfl
  · cases t with
    | environment => exact h.surroundings a
    | query q => exact h.query (queryAct_step w q a)
  · exact ⟨by simp, ⟨[], rfl, List.Perm.nil⟩, ⟨[], rfl, List.Perm.nil⟩⟩

/-! ## What a query knows of the run -/

variable (env) in
/-- The state after some inputs. -/
def worldAfter (w : QueryWorld) (is : List (Input QueryStart QueryAction)) : QueryWorld :=
  (exec (step (queryProgram env)) ⟨w, []⟩ is).shared

/-- What was read of a file, after the inputs `upTo`. -/
structure CsvRead where
  upTo : List (Input QueryStart QueryAction)
  name : Str
  content : Option Bytes

variable (env) in
/-- The right was read, and a grant was found after it. -/
def Entitled (w : QueryWorld) (is : List (Input QueryStart QueryAction)) (call : QueryCall)
    (drt : DrtMetadata) : Prop :=
  ∃ js ks, js <+: ks ∧ ks <+: is ∧ HasRight (worldAfter env w js) call drt ∧
    HasGrant (worldAfter env w ks) call

variable (env) in
/-- The data set was listed after the inputs `js`, and then the files were read one by one, except
those that are left. -/
structure DataRead (w : QueryWorld) (is : List (Input QueryStart QueryAction)) (poolPda : Str)
    (js : List (Input QueryStart QueryAction)) (reads : List CsvRead) (left : List Str) :
    Prop where
  listed : ∃ entries,
    reads.map CsvRead.name ++ left = listCsvs (worldAfter env w js) poolPda entries
  order : (js :: reads.map CsvRead.upTo).Pairwise (· <+: ·)
  past : ∀ ks ∈ js :: reads.map CsvRead.upTo, ks <+: is
  contents : ∀ r ∈ reads, ∃ readable,
    r.content = readCsv (worldAfter env w r.upTo) poolPda r.name readable

/-- The text of the files that were read, and whether it has a header. -/
def concatenated (reads : List CsvRead) : Str × Bool :=
  appendFiles ([], false) (reads.filterMap CsvRead.content)

variable (env) in
/-- The caller was entitled, and the data were read after that. -/
def Prepared (w : QueryWorld) (is : List (Input QueryStart QueryAction)) (call : QueryCall)
    (drt : DrtMetadata) (left : List Str) (acc : Str × Bool) : Prop :=
  ∃ js reads, Entitled env w js call drt ∧
    DataRead env w is call.payload.poolPda js reads left ∧ acc = concatenated reads

variable (env) in
/-- The reply is what a script with the recorded hash returned for the data. -/
def Answers (w : QueryWorld) (is : List (Input QueryStart QueryAction)) (call : QueryCall)
    (r : QueryReply) : Prop :=
  ∃ drt acc script m out s, Prepared env w is call drt [] acc ∧ acc.1 ≠ [] ∧
    decodeHash drt.codeHashHex = .ok (env.sha256 script) ∧ env.engine.compile script = .ok m ∧
    Runtime.execute (env.guest m) (asBytes acc.1) (argBytes env call) = .ok out s ∧
    r = queryReply env call drt out

theorem hexHash_sessionAct (engine : Engine μ) (sha256 : Bytes → Bytes) (d : ScriptDir)
    (s : Session μ) (a : ScriptAction) :
    (sessionAct engine sha256 d s a).2.hexHash = s.hexHash := by
  fun_cases sessionAct engine sha256 d s a <;> rfl

/-- The session of the query is about the script of the right. -/
def Query.Works (q : Query μ) (drt : DrtMetadata) : Prop :=
  ∃ s, q.session = some s ∧ s.hexHash = drt.codeHashHex

variable (env) in
/-- The text of the data set. -/
def HasData (w : QueryWorld) (is : List (Input QueryStart QueryAction)) (call : QueryCall)
    (drt : DrtMetadata) (csv : Str) : Prop :=
  ∃ acc, Prepared env w is call drt [] acc ∧ csv = acc.1 ∧ csv ≠ []

variable (env) in
/-- What a query at some place knows of the run so far. -/
def QueryPast (w : QueryWorld) (is : List (Input QueryStart QueryAction)) (q : Query μ) : Prop :=
  match q.pc with
  | .checking drt => ∃ js, js <+: is ∧ HasRight (worldAfter env w js) q.call drt
  | .fetching drt => Entitled env w is q.call drt ∧ q.Works drt
  | .reading drt left acc => Prepared env w is q.call drt left acc ∧ q.Works drt
  | .compiling drt csv | .executing drt csv => HasData env w is q.call drt csv ∧ q.Works drt
  | .responding (.ok r) | .storing (.ok r) _ | .answered (.ok r) _ => Answers env w is q.call r
  | _ => True

section Past

variable {w : QueryWorld} {is : List (Input QueryStart QueryAction)}

theorem Entitled.later {call : QueryCall} {drt : DrtMetadata} (h : Entitled env w is call drt)
    (i : Input QueryStart QueryAction) : Entitled env w (is ++ [i]) call drt := by
  obtain ⟨js, ks, hjs, hks, h⟩ := h
  exact ⟨js, ks, hjs, hks.trans (List.prefix_append _ _), h⟩

theorem DataRead.later {poolPda : Str} {js : List (Input QueryStart QueryAction)}
    {reads : List CsvRead} {left : List Str} (h : DataRead env w is poolPda js reads left)
    (i : Input QueryStart QueryAction) : DataRead env w (is ++ [i]) poolPda js reads left :=
  ⟨h.listed, h.order, fun ks hks => (h.past ks hks).trans (List.prefix_append _ _), h.contents⟩

/-- The next file is read now. -/
theorem DataRead.read {poolPda : Str} {js : List (Input QueryStart QueryAction)}
    {reads : List CsvRead} {name : Str} {left : List Str}
    (h : DataRead env w is poolPda js reads (name :: left)) (readable : Bool) :
    DataRead env w is poolPda js
      (reads ++ [⟨is, name, readCsv (worldAfter env w is) poolPda name readable⟩]) left := by
  refine ⟨?_, ?_, ?_, ?_⟩
  · obtain ⟨entries, hentries⟩ := h.listed
    refine ⟨entries, ?_⟩
    rw [← hentries, List.map_append, List.append_assoc]
    rfl
  · rw [List.map_append, ← List.cons_append, List.pairwise_append]
    refine ⟨h.order, List.pairwise_singleton _ _, fun ks hks ls hls => ?_⟩
    rw [List.mem_singleton.mp hls]
    exact h.past ks hks
  · intro ks hks
    rw [List.map_append, ← List.cons_append] at hks
    rcases List.mem_append.mp hks with hks | hks
    · exact h.past ks hks
    · rw [List.mem_singleton.mp hks]
  · intro r hr
    rcases List.mem_append.mp hr with hr | hr
    · exact h.contents r hr
    · rw [List.mem_singleton.mp hr]
      exact ⟨readable, rfl⟩

theorem concatenated_concat (reads : List CsvRead) (r : CsvRead) :
    concatenated (reads ++ [r]) = appendFiles (concatenated reads) r.content.toList := by
  rw [concatenated, List.filterMap_append, appendFiles, List.foldl_append]
  cases hcontent : r.content with
  | none => rw [List.filterMap_cons_none hcontent]; rfl
  | some b => rw [List.filterMap_cons_some hcontent]; rfl

theorem Prepared.later {call : QueryCall} {drt : DrtMetadata} {left : List Str} {acc : Str × Bool}
    (h : Prepared env w is call drt left acc) (i : Input QueryStart QueryAction) :
    Prepared env w (is ++ [i]) call drt left acc := by
  obtain ⟨js, reads, hentitled, hread, hacc⟩ := h
  exact ⟨js, reads, hentitled, hread.later i, hacc⟩

theorem Entitled.listed {call : QueryCall} {drt : DrtMetadata} (h : Entitled env w is call drt)
    (entries : Option (Str → Bool)) :
    Prepared env w is call drt (listCsvs (worldAfter env w is) call.payload.poolPda entries)
      ([], false) := by
  refine ⟨is, [], h, ⟨⟨entries, rfl⟩, List.pairwise_singleton _ _, fun ks hks => ?_, ?_⟩, rfl⟩
  · rw [List.mem_singleton.mp hks]
  · simp

theorem Prepared.read {call : QueryCall} {drt : DrtMetadata} {name : Str} {left : List Str}
    {acc : Str × Bool} (h : Prepared env w is call drt (name :: left) acc) (readable : Bool) :
    Prepared env w is call drt left (appendFiles acc
      (readCsv (worldAfter env w is) call.payload.poolPda name readable).toList) := by
  obtain ⟨js, reads, hentitled, hread, rfl⟩ := h
  exact ⟨js, _, hentitled, hread.read readable, (concatenated_concat reads ⟨is, name, _⟩).symm⟩

theorem Answers.later {call : QueryCall} {r : QueryReply} (h : Answers env w is call r)
    (i : Input QueryStart QueryAction) : Answers env w (is ++ [i]) call r := by
  obtain ⟨drt, acc, script, m, out, s, hprepared, h⟩ := h
  exact ⟨drt, acc, script, m, out, s, hprepared.later i, h⟩

theorem HasData.later {call : QueryCall} {drt : DrtMetadata} {csv : Str}
    (h : HasData env w is call drt csv) (i : Input QueryStart QueryAction) :
    HasData env w (is ++ [i]) call drt csv := by
  obtain ⟨acc, hprepared, hcsv⟩ := h
  exact ⟨acc, hprepared.later i, hcsv⟩

theorem QueryPast.later {q : Query μ} (h : QueryPast env w is q)
    (i : Input QueryStart QueryAction) : QueryPast env w (is ++ [i]) q := by
  unfold QueryPast at h ⊢
  split at h
  · obtain ⟨js, hjs, hright⟩ := h
    exact ⟨js, hjs.trans (List.prefix_append _ _), hright⟩
  · exact ⟨h.1.later i, h.2⟩
  · exact ⟨h.1.later i, h.2⟩
  · exact ⟨h.1.later i, h.2⟩
  · exact ⟨h.1.later i, h.2⟩
  · exact Answers.later h i
  · exact Answers.later h i
  · exact Answers.later h i
  · trivial

theorem Query.Works.sessionAct {q : Query μ} {drt : DrtMetadata} {s : Session μ} (h : q.Works drt)
    (hs : q.session = some s) (d : ScriptDir) (a : ScriptAction) (pc : QueryPc) :
    Query.Works ⟨q.call, some (RelationalSdk.sessionAct env.engine env.sha256 d s a).2, pc⟩
      drt := by
  obtain ⟨s', hs', hhash⟩ := h
  obtain rfl : s' = s := Option.some_inj.mp (hs'.symm.trans hs)
  exact ⟨_, rfl, (hexHash_sessionAct _ _ _ _ _).trans hhash⟩

/-- A module that has run was compiled from a script with the hash of the right. -/
theorem answers_of_runResult {q : Query μ} {drt : DrtMetadata} {csv : Str} {s : Session μ}
    {b : Bytes} {m : μ} {r : QueryReply} (hdata : HasData env w is q.call drt csv)
    (hworks : q.Works drt) (hs : q.session = some s) (hm : s.pc = .idle b (some m))
    (hok : SessionOk env.engine env.sha256 Set.univ (worldAfter env w is).dir s)
    (hr : runResult env q.call drt csv m = .ok r) : Answers env w is q.call r := by
  obtain ⟨acc, hprepared, rfl, hne⟩ := hdata
  obtain ⟨s', hs', hhash⟩ := hworks
  obtain rfl : s' = s := Option.some_inj.mp (hs'.symm.trans hs)
  obtain ⟨script, ⟨hscript, -⟩, hcompile⟩ := hok.chosen m (by rw [hm]; rfl)
  unfold runResult at hr
  split at hr
  · next out host hrun =>
    exact ⟨drt, acc, script, m, out, host, hprepared, hne, hhash ▸ hscript, hcompile, hrun,
      (Except.ok.inj hr).symm⟩
  · cases hr

/-- What a query knows after a step of its own. -/
theorem QueryPast.step {q q' : Query μ} {w' : QueryWorld} (h : QueryPast env w is q)
    (hknown : ∀ s, q.session = some s →
      SessionOk env.engine env.sha256 Set.univ (worldAfter env w is).dir s)
    (hstep : QueryStep env (worldAfter env w is) q w' q') : QueryPast env w is q' := by
  cases hstep with
  | stay => exact h
  | found _ hright => exact ⟨is, List.prefix_refl is, hright⟩
  | checked hpc hgrant =>
    simp only [QueryPast, hpc] at h
    obtain ⟨js, hjs, hright⟩ := h
    exact ⟨⟨js, is, hjs, List.prefix_refl is, hright, hgrant⟩, _, rfl, rfl⟩
  | session a hs hpc =>
    rcases hpc with rfl | ⟨drt, e, -, rfl⟩
    · obtain ⟨call, session, pc⟩ := q
      cases pc with
      | fetching drt => exact ⟨h.1, Query.Works.sessionAct h.2 hs _ _ _⟩
      | reading drt left acc => exact ⟨h.1, Query.Works.sessionAct h.2 hs _ _ _⟩
      | compiling drt csv => exact ⟨h.1, Query.Works.sessionAct h.2 hs _ _ _⟩
      | executing drt csv => exact ⟨h.1, Query.Works.sessionAct h.2 hs _ _ _⟩
      | start => trivial
      | checking drt => exact h
      | responding result => cases result <;> exact h
      | storing result attempt => cases result <;> exact h
      | answered result attempt => cases result <;> exact h
    · trivial
  | listed entries hpc =>
    simp only [QueryPast, hpc] at h
    exact ⟨h.1.listed entries, h.2⟩
  | read readable hpc =>
    simp only [QueryPast, hpc] at h
    exact ⟨h.1.read readable, h.2⟩
  | ensure hs hpc hdata =>
    simp only [QueryPast, hpc] at h
    exact ⟨⟨_, h.1, rfl, hdata⟩, h.2.sessionAct hs _ _ _⟩
  | execute hs hpc =>
    simp only [QueryPast, hpc] at h
    exact ⟨h.1, h.2.sessionAct hs _ _ _⟩
  | @finish s drt csv _ m hs hpc hm =>
    simp only [QueryPast, hpc] at h
    cases hr : runResult env q.call drt csv m with
    | error e => trivial
    | ok r => exact answers_of_runResult h.1 h.2 hs hm (hknown s hs) hr
  | fail _ => trivial
  | @append result draw io hpc | @store result attempt hpc =>
    simp only [QueryPast, hpc] at h
    cases result with
    | error e => trivial
    | ok r => exact h

end Past

variable (env) in
/-- In a state of a run, every reply is justified by what happened before, and the log is that of
the queries and of other requests. -/
structure RepliesJustified (w : QueryWorld) (is : List (Input QueryStart QueryAction))
    (st : System QueryWorld (QueryParty μ)) : Prop where
  reply : ∀ q r attempt, .query q ∈ st.threads → q.pc = .answered (.ok r) attempt →
    Answers env w is q.call r
  log : AuditExact env w st.shared st.threads

end Justified

/-- A guest that allocates pages one after the other and writes the text `42`. -/
def sampleGuest : Runtime.GuestModule Nat where
  start := ⟨[], 1, Runtime.onePage, .ok ()⟩
  exportsMemory := true
  alloc := .ok fun k m _ => ⟨[], k + 1, m, .ok (BitVec.ofNat 32 (1024 * k))⟩
  run := .ok fun k m _ _ _ _ cells _ =>
    ⟨[], k, (m.store 16 [52, 50]).store (Runtime.asUsize cells) [16, 0, 0, 0, 2, 0, 0, 0], .ok 0⟩

/-- The JSON of an event, its details as they were written. -/
def AuditEvent.text (e : AuditEvent) : Str :=
  JsonText.write (e.document DateTime.serialized (e.details.map .number))

def sampleQueryEnv : QueryEnv Bytes Nat where
  engine := sampleEngine
  sha256 := sampleDigest
  guest _ := sampleGuest
  codec := { EventJson.reading [] with
    toJson := AuditEvent.text
    computeHmac := fun _ => sampleTag }
  toText := JsonText.write
  fromSlice b := (fromUtf8 b).map .number

/-- A pool with one right, one grant and two files. -/
def sampleQueryWorld : QueryWorld where
  resolve := some
  pools := Table.empty.insert "pool".toList
    (Table.empty.insert "mean".toList ⟨[], [], 1, sampleScriptUrl, sampleHexHash⟩)
  grants := ⟨Table.empty, Table.empty.insert (barKey "ann".toList "pool".toList "mean".toList) []⟩
  datasets _ := (Table.empty.insert "initial.csv".toList (asBytes "salary\n42\n".toList)).insert
    "july.csv".toList (asBytes "salary\n7\n".toList)
  dir := sampleScriptDir
  audit := ⟨Table.empty, AuditTables.empty⟩

/-- A query fetches the script and reads the first file. Then the second is deleted and the path of
the pool leads nowhere. The query goes on, compiles the script, loads the artifact and is answered.
Its event is stored in the database, but the file of the day cannot be opened. -/
def sampleQueryRun : List (Input QueryStart QueryAction) :=
  .spawn (.dataQuery ⟨0, "ann".toList, "pool".toList, "mean".toList, .null⟩) ::
  .spawn .environment ::
    ([.readMeta true, .checkGrant (.ok ()), .script (.load true),
      .script (.reply (.response 200 sampleWasm)), .script (.write (.ok ())),
      .script (.rename (.ok ())), .listCsvs (some fun _ => true), .readCsv true].map (.run 0) ++
    [.putDataset "pool".toList (Table.empty.insert "initial.csv".toList []),
      .relink fun _ => none].map (.run 1) ++
    [.readCsv true, .ensure, .script (.write (.ok ())), .script (.rename (.ok ())), .execute,
      .script .deserialize, .finish, .append sampleDraw ⟨false, none, true⟩, .store].map (.run 0))

example : ((exec (step (queryProgram sampleQueryEnv)) ⟨sampleQueryWorld, []⟩
    sampleQueryRun).threads.map fun
      | .query q => q.pc.attempt.bind fun e => e.1.toOption.map fun r => (r.codeHashHex, r.exitCode)
      | .environment => none) = [some (sampleHexHash, 0), none] := by
  decide +kernel

end RelationalSdk
