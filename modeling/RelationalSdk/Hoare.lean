import Mathlib

/-!
# Pre- and postconditions of programs with state and errors

`Triple P x Q R` : a run of `x` from a state with `P` returns a value with `Q`, or fails with `R`.
One rule for each way to build a program.
-/

namespace Hoare

variable {ε σ α β : Type}

/-- What holds after a run of the program, by how it ends. -/
def Triple (P : σ → Prop) (x : EStateM ε σ α) (Q : α → σ → Prop) (R : ε → σ → Prop) : Prop :=
  ∀ s, P s → match x.run s with
    | .ok a s' => Q a s'
    | .error e s' => R e s'

variable {P : σ → Prop} {Q : α → σ → Prop} {R : ε → σ → Prop}

theorem Triple.pure (a : α) : Triple (Q a) (Pure.pure a : EStateM ε σ α) Q R :=
  fun _ h => h

theorem Triple.throw (e : ε) : Triple (R e) (MonadExcept.throw e : EStateM ε σ α) Q R :=
  fun _ h => h

theorem Triple.bind {x : EStateM ε σ α} {f : α → EStateM ε σ β} {Q' : β → σ → Prop}
    (hx : Triple P x Q R) (hf : ∀ a, Triple (Q a) (f a) Q' R) : Triple P (x >>= f) Q' R := by
  intro s hs
  have h := hx s hs
  change match EStateM.bind x f s with
    | .ok a s' => Q' a s'
    | .error e s' => R e s'
  unfold EStateM.bind
  change match x s with
    | .ok a s' => Q a s'
    | .error e s' => R e s' at h
  rcases hrun : x s with ⟨a, s'⟩ | ⟨e, s'⟩
  · rw [hrun] at h
    exact hf a s' h
  · rw [hrun] at h
    exact h

/-- A program that looks at the state. -/
theorem Triple.of_get {f : σ → EStateM ε σ β} {Q' : β → σ → Prop}
    (hf : ∀ s, P s → Triple (· = s) (f s) Q' R) : Triple P (MonadState.get >>= f) Q' R := by
  refine Triple.bind (Q := fun s s' => P s ∧ s' = s) (fun _ hs => ⟨hs, rfl⟩) ?_
  rintro s s' ⟨hs, rfl⟩
  exact hf s' hs s' rfl

theorem Triple.of_modify {g : σ → σ} {Q : PUnit → σ → Prop} (h : ∀ s, P s → Q ⟨⟩ (g s)) :
    Triple P (modify g : EStateM ε σ PUnit) Q R :=
  h

theorem Triple.weaken {P' : σ → Prop} {x : EStateM ε σ α} (h : Triple P x Q R)
    (hP : ∀ s, P' s → P s) : Triple P' x Q R :=
  fun s hs => h s (hP s hs)

theorem Triple.mono {x : EStateM ε σ α} {Q' : α → σ → Prop} (h : Triple P x Q R)
    (hQ : ∀ a s, Q a s → Q' a s) : Triple P x Q' R := by
  intro s hs
  have hrun := h s hs
  rcases hx : x.run s with ⟨a, s'⟩ | ⟨e, s'⟩
  · rw [hx] at hrun
    exact hQ a s' hrun
  · rw [hx] at hrun
    exact hrun

/-- One state at a time. -/
theorem Triple.of_forall {x : EStateM ε σ α} (h : ∀ s, P s → Triple (· = s) x Q R) :
    Triple P x Q R :=
  fun s hs => h s hs s rfl

/-- A fact that is not about the state. -/
theorem Triple.of_and {p : Prop} {x : EStateM ε σ α} (h : p → Triple P x Q R) :
    Triple (fun s => P s ∧ p) x Q R :=
  fun s hs => h hs.2 s hs.1

end Hoare
