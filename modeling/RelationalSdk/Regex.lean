import Mathlib

/-!
# Words of regular expressions

Combinators on Mathlib's regular expressions, and for each of them what its words are.
-/

namespace Regex

open RegularExpression

variable {α : Type*} {e f : RegularExpression α} {x : List α}

/-- One of some letters. -/
def oneOf (cs : List α) : RegularExpression α :=
  cs.foldr (fun c e => char c + e) 0

def opt (e : RegularExpression α) : RegularExpression α :=
  1 + e

def many1 (e : RegularExpression α) : RegularExpression α :=
  e * e.star

theorem mem_char {c : α} : x ∈ (char c).matches' ↔ x = [c] :=
  Iff.rfl

theorem mem_add : x ∈ (e + f).matches' ↔ x ∈ e.matches' ∨ x ∈ f.matches' :=
  Iff.rfl

theorem mem_mul : x ∈ (e * f).matches' ↔ ∃ a ∈ e.matches', ∃ b ∈ f.matches', a ++ b = x := by
  rw [matches'_mul, Language.mem_mul]

theorem mem_opt : x ∈ (opt e).matches' ↔ x = [] ∨ x ∈ e.matches' :=
  Iff.rfl

theorem mem_oneOf (cs : List α) : x ∈ (oneOf cs).matches' ↔ ∃ c ∈ cs, x = [c] := by
  induction cs with
  | nil => exact ⟨False.elim, fun ⟨_, hc, _⟩ => absurd hc List.not_mem_nil⟩
  | cons c cs ih => exact (mem_add.trans (or_congr mem_char ih)).trans (by simp)

/-- The words of a star over single letters are their lists. -/
theorem mem_star_of_letters {β : Type*} {g : β → α} (h : ∀ x, x ∈ e.matches' ↔ ∃ b, x = [g b]) :
    x ∈ e.star.matches' ↔ ∃ bs : List β, x = bs.map g := by
  rw [matches'_star, Language.mem_kstar]
  refine ⟨?_, ?_⟩
  · rintro ⟨xs, rfl, hxs⟩
    induction xs with
    | nil => exact ⟨[], rfl⟩
    | cons x xs ih =>
      obtain ⟨b, rfl⟩ := (h x).mp (hxs x List.mem_cons_self)
      obtain ⟨bs, hbs⟩ := ih fun y hy => hxs y (List.mem_cons_of_mem _ hy)
      exact ⟨b :: bs, by rw [List.flatten_cons, hbs]; rfl⟩
  · rintro ⟨bs, rfl⟩
    refine ⟨bs.map fun b => [g b], ?_, ?_⟩
    · rw [← List.flatMap_def, ← List.map_eq_flatMap]
    · intro y hy
      obtain ⟨b, -, rfl⟩ := List.mem_map.mp hy
      exact (h _).mpr ⟨b, rfl⟩

theorem mem_many1_of_letters {β : Type*} {g : β → α} (h : ∀ x, x ∈ e.matches' ↔ ∃ b, x = [g b]) :
    x ∈ (many1 e).matches' ↔ ∃ bs : List β, bs ≠ [] ∧ x = bs.map g := by
  rw [many1, mem_mul]
  refine ⟨?_, ?_⟩
  · rintro ⟨a, ha, b, hb, rfl⟩
    obtain ⟨d, rfl⟩ := (h a).mp ha
    obtain ⟨ds, rfl⟩ := (mem_star_of_letters h).mp hb
    exact ⟨d :: ds, List.cons_ne_nil _ _, rfl⟩
  · rintro ⟨_ | ⟨d, ds⟩, hne, rfl⟩
    · exact absurd rfl hne
    · exact ⟨_, (h _).mpr ⟨d, rfl⟩, _, (mem_star_of_letters h).mpr ⟨ds, rfl⟩, rfl⟩

theorem mem_star_oneOf {cs : List α} : x ∈ (oneOf cs).star.matches' ↔ ∀ c ∈ x, c ∈ cs := by
  have hletters : ∀ y, y ∈ (oneOf cs).matches' ↔ ∃ c : {c // c ∈ cs}, y = [c.val] := by
    intro y
    rw [mem_oneOf, Subtype.exists]
    simp only [exists_prop]
  rw [mem_star_of_letters hletters]
  refine ⟨?_, fun h => ⟨x.attach.map fun c => ⟨c.val, h _ c.property⟩, by simp⟩⟩
  rintro ⟨bs, rfl⟩ c hc
  obtain ⟨b, -, rfl⟩ := List.mem_map.mp hc
  exact b.property

theorem mem_many1_oneOf {cs : List α} :
    x ∈ (many1 (oneOf cs)).matches' ↔ x ≠ [] ∧ ∀ c ∈ x, c ∈ cs := by
  rw [many1, mem_mul]
  refine ⟨?_, ?_⟩
  · rintro ⟨a, ha, b, hb, rfl⟩
    obtain ⟨c, hc, rfl⟩ := (mem_oneOf cs).mp ha
    exact ⟨List.cons_ne_nil c b, List.forall_mem_cons.mpr ⟨hc, mem_star_oneOf.mp hb⟩⟩
  · rintro ⟨hne, hall⟩
    obtain ⟨c, b, rfl⟩ := List.exists_cons_of_ne_nil hne
    obtain ⟨hc, hb⟩ := List.forall_mem_cons.mp hall
    exact ⟨[c], (mem_oneOf cs).mpr ⟨c, hc, rfl⟩, b, mem_star_oneOf.mpr hb, rfl⟩

end Regex
