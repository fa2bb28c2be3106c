import Mathlib

/-!
# Loops over indices

Code that walks over a slice with indices can read outside of it, and can go on forever. `Exec` is a
result with these two faults, `index` and `slice` are checked accesses, and `whileLoop` runs the
body of a loop at most `fuel` times. The body returns the next state, or a result, which ends the
loop.

`whileLoop_eq` is the rule for a loop that computes a function of its state : while an invariant
holds, each round of the body keeps the value of the function and decreases a measure, or returns
the value. Then the loop returns it without a fault, if the fuel exceeds the measure.
-/

namespace IndexLoops

universe u

variable {α : Type u} {σ ρ : Type*}

/-- What can go wrong. -/
inductive Fault where
  | outOfBounds
  | outOfFuel
  deriving DecidableEq

/-- A result, or a fault. -/
abbrev Exec (α : Type*) := Except Fault α

/-- `b[i]`. -/
def index (b : List α) (i : Nat) : Exec α :=
  match b[i]? with
  | some a => .ok a
  | none => .error .outOfBounds

/-- `&b[i..j]`. -/
def slice (b : List α) (i j : Nat) : Exec (List α) :=
  if i ≤ j ∧ j ≤ b.length then .ok ((b.drop i).take (j - i)) else .error .outOfBounds

/-- A loop whose body returns the next state or a result. -/
def whileLoop (body : σ → Exec (σ ⊕ ρ)) : Nat → σ → Exec ρ
  | 0, _ => .error .outOfFuel
  | fuel + 1, s =>
    match body s with
    | .error e => .error e
    | .ok (.inl s') => whileLoop body fuel s'
    | .ok (.inr r) => .ok r

@[simp] theorem ok_bind {β : Type u} (a : α) (f : α → Exec β) : (Except.ok a >>= f) = f a :=
  rfl

@[simp] theorem pure_eq_ok (a : α) : (pure a : Exec α) = .ok a :=
  rfl

theorem index_eq_ok {b : List α} {i : Nat} {a : α} {s : List α} (h : b.drop i = a :: s) :
    index b i = .ok a := by
  have hget : b[i]? = some a := by rw [← List.head?_drop, h, List.head?_cons]
  rw [index, hget]

theorem slice_eq_ok {b : List α} {i j : Nat} (hij : i ≤ j) (hj : j ≤ b.length) :
    slice b i j = .ok ((b.drop i).take (j - i)) :=
  if_pos ⟨hij, hj⟩

theorem slice_eq_of_drop {b x y : List α} {i : Nat} (hi : i ≤ b.length) (h : b.drop i = x ++ y) :
    slice b i (i + x.length) = .ok x := by
  have hlen := congrArg List.length h
  rw [List.length_drop, List.length_append] at hlen
  rw [slice_eq_ok (Nat.le_add_right _ _) (by omega), Nat.add_sub_cancel_left, h, List.take_left]

/-- A slice up to the end, from an index that may lie behind it. -/
theorem slice_min_length (b : List α) (i : Nat) :
    slice b (min i b.length) b.length = .ok (b.drop i) := by
  rw [slice_eq_ok (min_le_right _ _) le_rfl, List.take_of_length_le (by rw [List.length_drop])]
  rcases le_total i b.length with h | h
  · rw [min_eq_left h]
  · rw [min_eq_right h, List.drop_length, List.drop_eq_nil_of_le h]

/-- A round that returns under a condition and goes on otherwise. -/
theorem round_ite {p : Prop} [Decidable p] {f : σ → ρ} {inv : σ → Prop} {measure : σ → Nat}
    {m : Nat} {r rest : ρ} (s : σ) (hinv : inv s) (hmeasure : measure s < m) (hf : f s = rest) :
    (if p then .ok (.inr r) else .ok (.inl s) : Exec (σ ⊕ ρ)) =
        .ok (.inr (if p then r else rest)) ∨
      ∃ s', (if p then .ok (.inr r) else .ok (.inl s) : Exec (σ ⊕ ρ)) = .ok (.inl s') ∧ inv s' ∧
        measure s' < m ∧ f s' = if p then r else rest := by
  by_cases hp : p
  · exact Or.inl (by rw [if_pos hp, if_pos hp])
  · exact Or.inr ⟨s, if_neg hp, hinv, hmeasure, hf.trans (if_neg hp).symm⟩

/-- The rule for a loop that computes `f`. -/
theorem whileLoop_eq {body : σ → Exec (σ ⊕ ρ)} (f : σ → ρ) (inv : σ → Prop) (measure : σ → Nat)
    (hbody : ∀ s, inv s → body s = .ok (.inr (f s)) ∨
      ∃ s', body s = .ok (.inl s') ∧ inv s' ∧ measure s' < measure s ∧ f s' = f s) :
    ∀ {fuel : Nat} {s : σ}, inv s → measure s < fuel → whileLoop body fuel s = .ok (f s) := by
  intro fuel
  induction fuel with
  | zero =>
    intro s _ hfuel
    exact absurd hfuel (Nat.not_lt_zero _)
  | succ fuel ih =>
    intro s hs hfuel
    rw [whileLoop]
    rcases hbody s hs with hdone | ⟨s', hnext, hs', hmeasure, hf⟩
    · rw [hdone]
    · rw [hnext, ← hf]
      exact ih hs' (by omega)

end IndexLoops
