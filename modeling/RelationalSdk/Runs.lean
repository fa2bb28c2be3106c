import Mathlib

/-!
# Runs of a step function

A run folds a list of inputs through a step function. `Along` is a condition on every
input in the state it finds, `Always` a property of every state the run passes
through. `always_of_along` is the invariant rule : a property kept by every step that
meets the condition holds along every run that meets it. `always_iff_along` is its
exact form : when a step keeps the property if and only if it meets the condition, a
run keeps the property throughout if and only if each of its steps meets the
condition. `always_iff_along_of_strong` is for a property that a step can break only
together with a stronger one.
-/

namespace Runs

variable {σ ι : Type*} (step : σ → ι → σ)

/-- The state after the inputs. -/
def exec (s : σ) (is : List ι) : σ :=
  is.foldl step s

/-- Every input of the run meets `ok` in the state it finds. -/
def Along (ok : σ → ι → Prop) : σ → List ι → Prop
  | _, [] => True
  | s, i :: is => ok s i ∧ Along ok (step s i) is

instance decidableAlong {ok : σ → ι → Prop} [∀ s i, Decidable (ok s i)] :
    ∀ (s : σ) (is : List ι), Decidable (Along step ok s is)
  | _, [] => .isTrue trivial
  | s, i :: is =>
    have : Decidable (Along step ok (step s i) is) := decidableAlong (step s i) is
    inferInstanceAs (Decidable (ok s i ∧ Along step ok (step s i) is))

/-- Every state the run passes through, the first and the last included, has `P`. -/
def Always (P : σ → Prop) : σ → List ι → Prop
  | s, [] => P s
  | s, i :: is => P s ∧ Always P (step s i) is

variable {step}

@[simp] theorem exec_nil (s : σ) : exec step s [] = s :=
  rfl

@[simp] theorem exec_cons (s : σ) (i : ι) (is : List ι) :
    exec step s (i :: is) = exec step (step s i) is :=
  rfl

@[simp] theorem exec_concat (s : σ) (is : List ι) (i : ι) :
    exec step s (is ++ [i]) = step (exec step s is) i := by
  simp [exec]

/-- A property of every state of a run is a property of the state after each initial
part of its inputs. -/
theorem always_iff_forall_exec {P : σ → Prop} :
    ∀ {s : σ} {is : List ι}, Always step P s is ↔ ∀ js, List.IsPrefix js is → P (exec step s js)
  | s, [] => by simp [Always, List.prefix_nil]
  | s, i :: is => by
    rw [Always, always_iff_forall_exec]
    constructor
    · rintro ⟨hs, h⟩ js hjs
      cases js with
      | nil => exact hs
      | cons j js =>
        obtain ⟨rfl, hjs'⟩ := List.cons_prefix_cons.mp hjs
        exact h js hjs'
    · intro h
      refine ⟨h [] (List.nil_prefix), fun js hjs => ?_⟩
      exact h (i :: js) (List.cons_prefix_cons.mpr ⟨rfl, hjs⟩)

theorem Always.last {P : σ → Prop} {s : σ} {is : List ι} (h : Always step P s is) :
    P (exec step s is) :=
  always_iff_forall_exec.mp h is (List.prefix_refl is)

theorem Always.imp {P Q : σ → Prop} (hPQ : ∀ s, P s → Q s) {s : σ} {is : List ι}
    (h : Always step P s is) : Always step Q s is :=
  always_iff_forall_exec.mpr fun js hjs => hPQ _ (always_iff_forall_exec.mp h js hjs)

/-- The invariant rule. -/
theorem always_of_along {P : σ → Prop} {ok : σ → ι → Prop}
    (hstep : ∀ s i, P s → ok s i → P (step s i)) :
    ∀ {s : σ} {is : List ι}, P s → Along step ok s is → Always step P s is
  | _, [], hs, _ => hs
  | s, i :: _, hs, ⟨hi, his⟩ => ⟨hs, always_of_along hstep (hstep s i hs hi) his⟩

/-- An invariant kept by every step that meets a condition gives what it gives together with the
condition along every run that meets it. -/
theorem along_of_along {P : σ → Prop} {ok good : σ → ι → Prop}
    (hstep : ∀ s i, P s → ok s i → P (step s i)) (hgood : ∀ s i, P s → ok s i → good s i) :
    ∀ {s : σ} {is : List ι}, P s → Along step ok s is → Along step good s is
  | _, [], _, _ => trivial
  | s, i :: _, hs, ⟨hi, his⟩ => ⟨hgood s i hs hi, along_of_along hstep hgood (hstep s i hs hi) his⟩

/-- What holds of every input holds along the run as well. -/
theorem Along.and_of_forall_mem {ok : σ → ι → Prop} {good : ι → Prop} :
    ∀ {s : σ} {is : List ι}, Along step ok s is → (∀ i ∈ is, good i) →
      Along step (fun s i => ok s i ∧ good i) s is
  | _, [], _, _ => trivial
  | _, i :: _, ⟨hi, his⟩, hgood =>
    ⟨⟨hi, hgood i List.mem_cons_self⟩,
      his.and_of_forall_mem fun j hj => hgood j (List.mem_cons_of_mem i hj)⟩

/-- A condition that every input meets in every state. -/
theorem along_of_forall {ok : σ → ι → Prop} (h : ∀ s i, ok s i) :
    ∀ {s : σ} {is : List ι}, Along step ok s is
  | _, [] => trivial
  | s, i :: _ => ⟨h s i, along_of_forall h⟩

/-- The invariant rule when every step keeps the property. -/
theorem always_of_step {P : σ → Prop} (hstep : ∀ s i, P s → P (step s i)) {s : σ} {is : List ι}
    (hs : P s) : Always step P s is :=
  always_of_along (fun s i h _ => hstep s i h) hs (along_of_forall fun _ _ => trivial)

/-- An invariant that every step of a run keeps holds after it. -/
theorem exec_induction {P : σ → Prop} {is : List ι} (hstep : ∀ s, ∀ i ∈ is, P s → P (step s i))
    {s : σ} (hs : P s) : P (exec step s is) := by
  induction is generalizing s with
  | nil => exact hs
  | cons i is ih =>
    exact ih (fun s' j hj => hstep s' j (List.mem_cons_of_mem i hj))
      (hstep s i List.mem_cons_self hs)

/-- When a step keeps `P` exactly if it meets `ok`, a run keeps `P` throughout exactly
if every step of it meets `ok`. The side invariant `I` is kept by every step. -/
theorem always_iff_along {P I : σ → Prop} {ok : σ → ι → Prop}
    (hI : ∀ s i, I s → I (step s i))
    (hstep : ∀ s i, I s → P s → (P (step s i) ↔ ok s i)) :
    ∀ {s : σ} {is : List ι}, I s → P s → (Always step P s is ↔ Along step ok s is)
  | _, [], _, hs => by simp [Always, Along, hs]
  | s, i :: is, hI', hs => by
    rw [Always, Along]
    constructor
    · rintro ⟨-, h⟩
      have hnext : P (step s i) := by
        cases is with
        | nil => exact h
        | cons j js => exact h.1
      exact ⟨(hstep s i hI' hs).mp hnext,
        (always_iff_along hI hstep (hI s i hI') hnext).mp h⟩
    · rintro ⟨hok, h⟩
      have hnext := (hstep s i hI' hs).mpr hok
      exact ⟨hs, (always_iff_along hI hstep (hI s i hI') hnext).mpr h⟩

/-- As long as the stronger `S` holds, a step that leaves `V` true meets `ok`, and one that
meets `ok` keeps `S`. So a run of good inputs keeps `V` throughout exactly if every step of
it meets `ok`. -/
theorem always_iff_along_of_strong {S V : σ → Prop} {good : ι → Prop} {ok : σ → ι → Prop}
    (hV : ∀ s, S s → V s)
    (hok : ∀ s i, good i → S s → V (step s i) → ok s i)
    (hS : ∀ s i, good i → S s → ok s i → S (step s i)) :
    ∀ {s : σ} {is : List ι}, (∀ i ∈ is, good i) → S s → (Always step V s is ↔ Along step ok s is)
  | s, [], _, hs => by simp [Always, Along, hV s hs]
  | s, i :: is, hgood, hs => by
    obtain ⟨hi, his⟩ := List.forall_mem_cons.mp hgood
    rw [Always, Along]
    constructor
    · rintro ⟨-, h⟩
      have hnext : V (step s i) := by
        cases is with
        | nil => exact h
        | cons j js => exact h.1
      have hmet := hok s i hi hs hnext
      exact ⟨hmet, (always_iff_along_of_strong hV hok hS his (hS s i hi hs hmet)).mp h⟩
    · rintro ⟨hmet, h⟩
      exact ⟨hV s hs, (always_iff_along_of_strong hV hok hS his (hS s i hi hs hmet)).mpr h⟩

end Runs
