import RelationalSdk.Runs

/-!
# Interleaved threads over a shared state

A `Program` says how a thread starts and what one action of a thread does to the
shared state and to the thread. A `System` is the shared state with its threads, and an
input either spawns a thread or lets one thread act, so a list of inputs is an
interleaving of any number of threads. `always_of_acts` is the invariant rule : the
threads other than the acting one are an arbitrary context `pre`, `post`, so one proof
about one action covers every interleaving. In `always_of_runs` the condition on an action may
look at all threads. `forall_threads_of_past` is the rule for what a thread knows of the run so far,
and `simulates` the one for two programs whose threads cannot be told apart. `exec_spawn_alone`
turns a thread that runs on its own into a computation, to be compared with sequential code.
-/

namespace Threads

open Runs

/-- Threads of one kind : a thread starts from a call and acts on the shared state. -/
structure Program (σ ρ τ α : Type*) where
  start : ρ → τ
  act : σ → τ → α → σ × τ

/-- The shared state and the threads spawned so far. -/
structure System (σ τ : Type*) where
  shared : σ
  threads : List τ

/-- Spawn a thread, or let the `i`-th one act. -/
inductive Input (ρ α : Type*) where
  | spawn (call : ρ)
  | run (i : Nat) (a : α)

variable {σ ρ τ α : Type*} (p : Program σ ρ τ α)

/-- One step of the system. An input for a thread that does not exist does nothing. -/
def step (s : System σ τ) : Input ρ α → System σ τ
  | .spawn call => { s with threads := s.threads ++ [p.start call] }
  | .run i a =>
    match s.threads[i]? with
    | none => s
    | some t => ⟨(p.act s.shared t a).1, s.threads.set i (p.act s.shared t a).2⟩

/-- A condition on the actions of threads, as a condition on inputs. -/
def onActs (ok : σ → τ → α → Prop) (s : System σ τ) : Input ρ α → Prop
  | .spawn _ => True
  | .run i a => ∀ t, s.threads[i]? = some t → ok s.shared t a

instance {ok : σ → τ → α → Prop} [∀ s t a, Decidable (ok s t a)] (s : System σ τ) :
    ∀ i : Input ρ α, Decidable (onActs ok s i)
  | .spawn _ => .isTrue trivial
  | .run i a => decidable_of_iff (∀ t ∈ s.threads[i]?, ok s.shared t a) Iff.rfl

/-- A condition on the actions of threads that looks at all threads. -/
def onRuns (ok : σ → List τ → τ → α → Prop) (s : System σ τ) : Input ρ α → Prop
  | .spawn _ => True
  | .run i a => ∀ t, s.threads[i]? = some t → ok s.shared s.threads t a

instance {ok : σ → List τ → τ → α → Prop} [∀ s ts t a, Decidable (ok s ts t a)]
    (s : System σ τ) : ∀ i : Input ρ α, Decidable (onRuns ok s i)
  | .spawn _ => .isTrue trivial
  | .run i a => decidable_of_iff (∀ t ∈ s.threads[i]?, ok s.shared s.threads t a) Iff.rfl

theorem exists_mem_replace {P : τ → Prop} {pre post : List τ} {t t' : τ}
    (h : ∃ q ∈ pre ++ t :: post, P q) (ht : P t → P t') : ∃ q ∈ pre ++ t' :: post, P q := by
  obtain ⟨q, hq, hP⟩ := h
  simp only [List.mem_append, List.mem_cons] at hq
  rcases hq with hq | rfl | hq
  · exact ⟨q, by simp [hq], hP⟩
  · exact ⟨t', by simp, ht hP⟩
  · exact ⟨q, by simp [hq], hP⟩

theorem forall_mem_replace {P Q : τ → Prop} {pre post : List τ} {t t' : τ}
    (h : ∀ q ∈ pre ++ t :: post, P q) (hPQ : ∀ q, P q → Q q) (ht : P t → Q t') :
    ∀ q ∈ pre ++ t' :: post, Q q := by
  intro q hq
  simp only [List.mem_append, List.mem_cons] at hq
  rcases hq with hq | rfl | hq
  · exact hPQ q (h q (by simp [hq]))
  · exact ht (h t (by simp))
  · exact hPQ q (h q (by simp [hq]))

theorem countP_replace {p : τ → Bool} {pre post : List τ} {t t' : τ} (h : p t' = p t) :
    (pre ++ t' :: post).countP p = (pre ++ t :: post).countP p := by
  simp [List.countP_cons, h]

/-- What the threads have, with one of them apart. -/
theorem filterMap_perm_middle {β : Type*} (f : τ → Option β) (pre post : List τ) (t : τ) :
    ((pre ++ t :: post).filterMap f).Perm ((f t).toList ++ (pre ++ post).filterMap f) := by
  refine (List.perm_middle.filterMap f).trans ?_
  rw [List.filterMap_cons]
  cases f t <;> rfl

/-- What the threads have is each one's own. -/
theorem nodup_filterMap_cons {β : Type*} (f : τ → Option β) (t : τ) (ts : List τ) :
    ((t :: ts).filterMap f).Nodup ↔
      (∀ b ∈ f t, ∀ q ∈ ts, f q ≠ some b) ∧ (ts.filterMap f).Nodup := by
  rw [List.filterMap_cons]
  cases f t with
  | none => simp
  | some b => simp

/-- The invariant rule for interleavings. -/
theorem always_of_runs {P : σ → List τ → Prop} {ok : σ → List τ → τ → α → Prop}
    (hspawn : ∀ s ts call, P s ts → P s (ts ++ [p.start call]))
    (hact : ∀ s pre t post a, P s (pre ++ t :: post) → ok s (pre ++ t :: post) t a →
      P (p.act s t a).1 (pre ++ (p.act s t a).2 :: post))
    {s : System σ τ} {is : List (Input ρ α)} (hs : P s.shared s.threads)
    (h : Along (step p) (onRuns ok) s is) :
    Always (step p) (fun s => P s.shared s.threads) s is := by
  refine always_of_along (fun s i hP hok => ?_) hs h
  cases i with
  | spawn call => exact hspawn _ _ _ hP
  | run i a =>
    cases ht : s.threads[i]? with
    | none => simpa only [step, ht] using hP
    | some t =>
      obtain ⟨hi, rfl⟩ := List.getElem?_eq_some_iff.mp ht
      have hsplit : s.threads = s.threads.take i ++ s.threads[i] :: s.threads.drop (i + 1) := by
        simp
      have hok' := hok _ ht
      simp only [step, ht]
      rw [List.set_eq_take_append_cons_drop, if_pos hi]
      exact hact _ _ _ _ _ (hsplit ▸ hP) (hsplit ▸ hok')

/-- The invariant rule for a condition on the acting thread alone. -/
theorem always_of_acts {P : σ → List τ → Prop} {ok : σ → τ → α → Prop}
    (hspawn : ∀ s ts call, P s ts → P s (ts ++ [p.start call]))
    (hact : ∀ s pre t post a, P s (pre ++ t :: post) → ok s t a →
      P (p.act s t a).1 (pre ++ (p.act s t a).2 :: post))
    {s : System σ τ} {is : List (Input ρ α)} (hs : P s.shared s.threads)
    (h : Along (step p) (onActs ok) s is) :
    Always (step p) (fun s => P s.shared s.threads) s is := by
  have hruns : onRuns (ρ := ρ) (fun s (_ : List τ) t a => ok s t a) = onActs ok := by
    ext s i
    cases i <;> rfl
  exact always_of_runs p hspawn hact hs (hruns ▸ h)

/-- The invariant rule when no action is excluded. -/
theorem always_of_all_acts {P : σ → List τ → Prop}
    (hspawn : ∀ s ts call, P s ts → P s (ts ++ [p.start call]))
    (hact : ∀ s pre t post a, P s (pre ++ t :: post) →
      P (p.act s t a).1 (pre ++ (p.act s t a).2 :: post))
    {s : System σ τ} {is : List (Input ρ α)} (hs : P s.shared s.threads) :
    Always (step p) (fun s => P s.shared s.threads) s is := by
  have hall : Along (step p) (onActs fun _ _ _ => True) s is := by
    refine along_of_forall (fun s i => ?_)
    cases i with
    | spawn call => trivial
    | run i a => exact fun _ _ => trivial
  exact always_of_acts p hspawn (fun s pre t post a h _ => hact s pre t post a h) hs hall

/-- A property of a thread and of the inputs so far, which later inputs do not take away. -/
theorem forall_threads_of_past {J : List (Input ρ α) → τ → Prop} {s : System σ τ}
    (hs : s.threads = []) (hlater : ∀ {is t}, J is t → ∀ i, J (is ++ [i]) t)
    (hspawn : ∀ is call, J is (p.start call))
    (hact : ∀ is t a, t ∈ (exec (step p) s is).threads → J is t →
      J is (p.act (exec (step p) s is).shared t a).2) (is : List (Input ρ α)) :
    ∀ t ∈ (exec (step p) s is).threads, J is t := by
  induction is using List.reverseRecOn with
  | nil =>
    intro t ht
    rw [exec_nil, hs] at ht
    exact absurd ht List.not_mem_nil
  | append_singleton is i ih =>
    intro t ht
    refine hlater ?_ i
    rw [exec_concat] at ht
    cases i with
    | spawn call =>
      rcases List.mem_append.mp ht with ht | ht
      · exact ih t ht
      · rw [List.mem_singleton.mp ht]
        exact hspawn is call
    | run i a =>
      cases hget : (exec (step p) s is).threads[i]? with
      | none =>
        simp only [step, hget] at ht
        exact ih t ht
      | some q =>
        simp only [step, hget] at ht
        have hq := List.mem_of_getElem? hget
        rcases List.mem_or_eq_of_mem_set ht with ht | rfl
        · exact ih t ht
        · exact hact is q a hq (ih q hq)

/-- Two programs over different shared states : their threads are the same in every interleaving, as
long as one action keeps the shared states related. -/
theorem simulates {σ' : Type*} {p : Program σ ρ τ α} {q : Program σ' ρ τ α} {R : σ → σ' → Prop}
    {C : ρ → Prop} {T : τ → Prop}
    (hstart : ∀ call, C call → q.start call = p.start call ∧ T (p.start call))
    (hact : ∀ s s' t a, R s s' → T t → (q.act s' t a).2 = (p.act s t a).2 ∧
      T (p.act s t a).2 ∧ R (p.act s t a).1 (q.act s' t a).1)
    {s : System σ τ} {s' : System σ' τ} (hshared : R s.shared s'.shared)
    (hthreads : s'.threads = s.threads) (hT : ∀ t ∈ s.threads, T t) {is : List (Input ρ α)}
    (his : ∀ call, .spawn call ∈ is → C call) :
    (exec (step q) s' is).threads = (exec (step p) s is).threads ∧
      R (exec (step p) s is).shared (exec (step q) s' is).shared := by
  induction is generalizing s s' with
  | nil => exact ⟨hthreads, hshared⟩
  | cons i is ih =>
    rw [exec_cons, exec_cons]
    have his' : ∀ call, .spawn call ∈ is → C call := fun call hcall =>
      his call (List.mem_cons_of_mem _ hcall)
    cases i with
    | spawn call =>
      obtain ⟨hcall, hTcall⟩ := hstart call (his call List.mem_cons_self)
      refine ih hshared ?_ (fun t ht => ?_) his'
      · rw [step, step, hthreads, hcall]
      · rcases List.mem_append.mp ht with ht | ht
        · exact hT t ht
        · rwa [List.mem_singleton.mp ht]
    | run i a =>
      cases hget : s.threads[i]? with
      | none =>
        simp only [step, hthreads, hget]
        exact ih hshared hthreads hT his'
      | some t =>
        obtain ⟨hsame, hTt, hnext⟩ :=
          hact s.shared s'.shared t a hshared (hT t (List.mem_of_getElem? hget))
        simp only [step, hthreads, hget]
        refine ih hnext (by rw [hsame]) (fun u hu => ?_) his'
        rcases List.mem_or_eq_of_mem_set hu with hu | rfl
        · exact hT u hu
        · exact hTt

/-! ## One thread on its own -/

/-- The shared state and a thread after actions of the thread alone. -/
def alone (s : σ) (t : τ) (as : List α) : σ × τ :=
  exec (fun x a => p.act x.1 x.2 a) (s, t) as

theorem alone_cons (s : σ) (t : τ) (a : α) (as : List α) :
    alone p s t (a :: as) = alone p (p.act s t a).1 (p.act s t a).2 as :=
  rfl

/-- A thread that has nothing left to do stays as it is. -/
theorem alone_stay {s : σ} {t : τ} {as : List α} (h : ∀ a ∈ as, p.act s t a = (s, t)) :
    alone p s t as = (s, t) := by
  induction as with
  | nil => rfl
  | cons a as ih =>
    rw [alone_cons, h a List.mem_cons_self]
    exact ih fun a' ha' => h a' (List.mem_cons_of_mem a ha')

/-- A thread that is spawned and runs to the end while the others wait. -/
theorem exec_spawn_alone (s : σ) (ts : List τ) (call : ρ) (as : List α) :
    exec (step p) ⟨s, ts⟩ (.spawn call :: as.map (.run ts.length)) =
      ⟨(alone p s (p.start call) as).1, ts ++ [(alone p s (p.start call) as).2]⟩ := by
  have hruns : ∀ (s : σ) (t : τ), exec (step p) ⟨s, ts ++ [t]⟩ (as.map (.run ts.length)) =
      ⟨(alone p s t as).1, ts ++ [(alone p s t as).2]⟩ := by
    induction as with
    | nil => exact fun _ _ => rfl
    | cons a as ih =>
      intro s t
      rw [List.map_cons, exec_cons, alone_cons, ← ih]
      simp [step]
  exact hruns s (p.start call)

end Threads
