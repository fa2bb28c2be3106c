import Mathlib

/-!
# Computations that may fail

A handler is a chain of checks, each of which may end it with an error. The rules say when a chain
succeeds : exactly if all its checks do, and then it returns what the last of them returns. A chain
may also have steps that fault. It is `Faultless` if it reaches none that does.
-/

namespace Fallible

universe u v

variable {ε ε' : Type u} {α β : Type v}

/-- The value that there is, or an error. -/
def okOr (opt : Option α) (e : ε) : Except ε α :=
  match opt with
  | some a => .ok a
  | none => .error e

/-- Go on only under a condition. -/
def require (p : Prop) [Decidable p] (e : ε) : Except ε PUnit.{v + 1} :=
  if p then .ok ⟨⟩ else .error e

theorem okOr_eq_ok_iff {opt : Option α} {e : ε} {a : α} : okOr opt e = .ok a ↔ opt = some a := by
  cases opt <;> simp [okOr]

theorem require_eq_ok_iff {p : Prop} [Decidable p] {e : ε} {u : PUnit.{v + 1}} :
    require p e = .ok u ↔ p := by
  unfold require
  split_ifs with hp <;> simp [hp]

theorem bind_eq_ok_iff {x : Except ε α} {f : α → Except ε β} {b : β} :
    x >>= f = .ok b ↔ ∃ a, x = .ok a ∧ f a = .ok b := by
  cases x <;> simp [bind, Except.bind]

theorem pure_eq_ok_iff {a b : α} : (pure a : Except ε α) = .ok b ↔ a = b := by
  simp [pure, Except.pure]

theorem mapError_eq_ok_iff {x : Except ε α} {f : ε → ε'} {a : α} :
    x.mapError f = .ok a ↔ x = .ok a := by
  cases x <;> simp [Except.mapError]

/-- An error that no check of a chain ends with. -/
theorem bind_ne_error {x : Except ε α} {f : α → Except ε β} {e : ε} (hx : x ≠ .error e)
    (hf : ∀ a, f a ≠ .error e) : x >>= f ≠ .error e := by
  cases x with
  | error e' => exact fun h => hx (congrArg _ (Except.error.inj h))
  | ok a => exact hf a

theorem mapError_ne_error {x : Except ε α} {f : ε → ε'} {e : ε'} (hf : ∀ e', f e' ≠ e) :
    x.mapError f ≠ .error e := by
  cases x with
  | error e' => exact fun h => hf e' (Except.error.inj h)
  | ok a => exact nofun

/-! ## Chains that may fault -/

section Faults

variable {φ ε α β : Type u}

/-- A check in a chain that may fault. -/
def check (x : Except ε α) : ExceptT ε (Except φ) α :=
  ExceptT.mk (.ok x)

/-- A chain ends with a value or an error. -/
def Faultless (x : ExceptT ε (Except φ) α) : Prop :=
  ∃ r, x.run = .ok r

theorem run_bind_eq_ok_iff {x : ExceptT ε (Except φ) α} {f : α → ExceptT ε (Except φ) β} {b : β} :
    (x >>= f).run = .ok (.ok b) ↔ ∃ a, x.run = .ok (.ok a) ∧ (f a).run = .ok (.ok b) := by
  rw [ExceptT.run_bind]
  rcases x.run with e | e | a <;> simp [bind, Except.bind, pure, Except.pure]

theorem run_check_eq_ok_iff {x : Except ε α} {a : α} :
    (check x : ExceptT ε (Except φ) α).run = .ok (.ok a) ↔ x = .ok a :=
  ⟨Except.ok.inj, congrArg Except.ok⟩

theorem run_pure_eq_ok_iff {a b : α} :
    (pure a : ExceptT ε (Except φ) α).run = .ok (.ok b) ↔ a = b :=
  ⟨fun h => Except.ok.inj (Except.ok.inj h), fun h => h ▸ rfl⟩

theorem faultless_check (x : Except ε α) : Faultless (check x : ExceptT ε (Except φ) α) :=
  ⟨x, rfl⟩

theorem faultless_pure (a : α) : Faultless (pure a : ExceptT ε (Except φ) α) :=
  ⟨.ok a, rfl⟩

theorem faultless_bind {x : ExceptT ε (Except φ) α} {f : α → ExceptT ε (Except φ) β}
    (hx : Faultless x) (hf : ∀ a, x.run = .ok (.ok a) → Faultless (f a)) : Faultless (x >>= f) := by
  obtain ⟨r, hr⟩ := hx
  rcases r with e | a
  · exact ⟨.error e, by rw [ExceptT.run_bind, hr]; rfl⟩
  · obtain ⟨r', hr'⟩ := hf a hr
    exact ⟨r', by rw [ExceptT.run_bind, hr]; exact hr'⟩

end Faults

end Fallible
