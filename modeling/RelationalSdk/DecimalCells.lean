import RelationalSdk.DataValidation
import RelationalSdk.HexText
import RelationalSdk.Regex

/-!
# Decimal cells

A decimal cell passes four filters that overlap : no letter of an exponent, a text that parses as a
float (which admits infinities and NaN), at most two parts around points once any run of signs is
stripped, and only digits in the parts. `validateDecimal_eq_none_iff` : together they admit exactly
the texts of one grammar, `[+-]? ( digit+ ( '.' digit* )? | '.' digit+ )`, with at most `scale`
digits behind the point and at most `precision` digits in all.

`parsesF64_iff` : the float parser of the model is the documented grammar of floats, which is stated
for the text in lower case.

Both go through one description of a number without sign and exponent, as the digits before and
behind the point (`IsNumber`).
-/

namespace RelationalSdk

open Text HexText Regex RegularExpression

/-! ## The grammars -/

namespace Decimal

def digit : RegularExpression Char :=
  oneOf ['0', '1', '2', '3', '4', '5', '6', '7', '8', '9']

def sign : RegularExpression Char :=
  opt (oneOf ['+', '-'])

/-- `digit+ ( '.' digit* )? | '.' digit+`. -/
def unsigned : RegularExpression Char :=
  many1 digit * opt (char '.' * digit.star) + char '.' * many1 digit

/-- `[+-]? ( digit+ ( '.' digit* )? | '.' digit+ )`. -/
def decimal : RegularExpression Char :=
  sign * unsigned

/-- A fixed text. -/
def word (w : Str) : RegularExpression Char :=
  w.foldr (fun c e => char c * e) 1

/-- `'e' [+-]? digit+`. -/
def exponent : RegularExpression Char :=
  char 'e' * (sign * many1 digit)

/-- `[+-]? ( inf | infinity | nan | unsigned exponent? )`. -/
def float : RegularExpression Char :=
  sign * ((word "inf".toList + (word "infinity".toList + word "nan".toList)) +
    unsigned * opt exponent)

end Decimal

/-- Digits behind the point. -/
def fractionDigits (v : Str) : Nat :=
  (v.dropWhile (· ≠ '.')).countP Char.isDigit

/-- Digits in all. -/
def totalDigits (v : Str) : Nat :=
  v.countP Char.isDigit

/-! ## Numbers -/

/-- A number without sign and exponent, with `w` before and `f` behind the point. -/
structure IsNumber (u w f : Str) : Prop where
  whole : ∀ c ∈ w, c.isDigit
  fraction : ∀ c ∈ f, c.isDigit
  digits : w ≠ [] ∨ f ≠ []
  text : u = w ∧ f = [] ∨ u = w ++ '.' :: f

theorem isDigit_iff_mem {c : Char} :
    c.isDigit ↔ c ∈ ['0', '1', '2', '3', '4', '5', '6', '7', '8', '9'] := by
  have hall : ['0', '1', '2', '3', '4', '5', '6', '7', '8', '9'].all Char.isDigit := by decide
  refine ⟨fun h => ?_, fun h => List.all_eq_true.mp hall c h⟩
  obtain ⟨hlo, hhi⟩ : 48 ≤ c.toNat ∧ c.toNat ≤ 57 := Char.isDigit_iff_toNat.mp h
  rw [← c.ofNat_toNat]
  generalize c.toNat = n at hlo hhi ⊢
  interval_cases n <;> decide

namespace Decimal

theorem mem_digit_star {x : Str} : x ∈ digit.star.matches' ↔ ∀ c ∈ x, c.isDigit := by
  simp only [digit, mem_star_oneOf, isDigit_iff_mem]

theorem mem_many1_digit {x : Str} :
    x ∈ (many1 digit).matches' ↔ x ≠ [] ∧ ∀ c ∈ x, c.isDigit := by
  simp only [digit, mem_many1_oneOf, isDigit_iff_mem]

theorem mem_unsigned {u : Str} : u ∈ unsigned.matches' ↔ ∃ w f, IsNumber u w f := by
  constructor
  · intro hu
    rcases mem_add.mp hu with hu | hu
    · obtain ⟨w, hw, b, hb, rfl⟩ := mem_mul.mp hu
      obtain ⟨hne, hw⟩ := mem_many1_digit.mp hw
      rcases mem_opt.mp hb with rfl | hb
      · exact ⟨w, [], hw, by simp, Or.inl hne, Or.inl ⟨List.append_nil w, rfl⟩⟩
      · obtain ⟨_, rfl, f, hf, rfl⟩ := mem_mul.mp hb
        exact ⟨w, f, hw, mem_digit_star.mp hf, Or.inl hne, Or.inr rfl⟩
    · obtain ⟨_, rfl, f, hf, rfl⟩ := mem_mul.mp hu
      obtain ⟨hne, hf⟩ := mem_many1_digit.mp hf
      exact ⟨[], f, by simp, hf, Or.inr hne, Or.inr rfl⟩
  · rintro ⟨w, f, hw, hf, hne, ⟨rfl, rfl⟩ | rfl⟩
    · have hw' : u ≠ [] := by simpa using hne
      exact mem_add.mpr (Or.inl (mem_mul.mpr
        ⟨u, mem_many1_digit.mpr ⟨hw', hw⟩, [], Or.inl rfl, List.append_nil u⟩))
    · by_cases hw' : w = []
      · subst hw'
        have hf' : f ≠ [] := by simpa using hne
        exact mem_add.mpr (Or.inr (mem_mul.mpr
          ⟨['.'], rfl, f, mem_many1_digit.mpr ⟨hf', hf⟩, rfl⟩))
      · exact mem_add.mpr (Or.inl (mem_mul.mpr ⟨w, mem_many1_digit.mpr ⟨hw', hw⟩, '.' :: f,
          Or.inr (mem_mul.mpr ⟨['.'], rfl, f, mem_digit_star.mpr hf, rfl⟩), rfl⟩))

end Decimal

section Number

variable {u w f : Str} (h : IsNumber u w f)
include h

theorem IsNumber.forall_mem : ∀ c ∈ u, c.isDigit ∨ c = '.' := by
  intro c hc
  rcases h.text with ⟨rfl, -⟩ | rfl
  · exact Or.inl (h.whole c hc)
  · rcases List.mem_append.mp hc with hc | hc
    · exact Or.inl (h.whole c hc)
    · rcases List.mem_cons.mp hc with rfl | hc
      · exact Or.inr rfl
      · exact Or.inl (h.fraction c hc)

theorem IsNumber.ne_nil : u ≠ [] := by
  rcases h.text with ⟨rfl, rfl⟩ | rfl
  · simpa using h.digits
  · simp

/-- A number starts with a digit or the point. -/
theorem IsNumber.exists_cons : ∃ c t, u = c :: t ∧ (c.isDigit ∨ c = '.') := by
  obtain ⟨c, t, rfl⟩ := List.exists_cons_of_ne_nil h.ne_nil
  exact ⟨c, t, rfl, h.forall_mem c List.mem_cons_self⟩

theorem IsNumber.point_not_mem : '.' ∉ w ∧ '.' ∉ f :=
  ⟨fun hw => absurd (h.whole _ hw) (by decide), fun hf => absurd (h.fraction _ hf) (by decide)⟩

theorem IsNumber.splitOn : u.splitOn '.' = [w] ∧ f = [] ∨ u.splitOn '.' = [w, f] := by
  obtain ⟨hw, hf⟩ := h.point_not_mem
  have hparts : ∀ ls : List Str, ls ≠ [] → (∀ l ∈ ls, '.' ∉ l) →
      (['.'].intercalate ls).splitOn '.' = ls :=
    fun ls hne hls => List.splitOn_intercalate '.' hls hne
  rcases h.text with ⟨rfl, rfl⟩ | rfl
  · refine Or.inl ⟨?_, rfl⟩
    simpa using hparts [u] (by simp) (by simpa using hw)
  · refine Or.inr ?_
    simpa using hparts [w, f] (by simp) (by simpa using ⟨hw, hf⟩)

theorem IsNumber.totalDigits_eq : totalDigits u = w.length + f.length := by
  have hw : w.countP Char.isDigit = w.length := List.countP_eq_length.mpr h.whole
  have hf : f.countP Char.isDigit = f.length := List.countP_eq_length.mpr h.fraction
  rcases h.text with ⟨rfl, rfl⟩ | rfl
  · exact hw
  · rw [totalDigits, List.countP_append, hw, List.countP_cons_of_neg (by decide), hf]

theorem IsNumber.fractionDigits_eq : fractionDigits u = f.length := by
  obtain ⟨hw, -⟩ := h.point_not_mem
  have hpoint : ∀ c ∈ w, decide (c ≠ '.') = true :=
    fun c hc => by simpa using ne_of_mem_of_not_mem hc hw
  rcases h.text with ⟨rfl, rfl⟩ | rfl
  · rw [fractionDigits, List.dropWhile_eq_nil_iff.mpr hpoint]
    rfl
  · rw [fractionDigits, List.dropWhile_append_of_pos hpoint]
    exact List.countP_eq_length.mpr h.fraction

end Number

/-! ## Signs -/

def IsSign (c : Char) : Prop :=
  c = '+' ∨ c = '-'

theorem stripSign_cons {c : Char} (hc : IsSign c) (s : Str) : stripSign (c :: s) = s := by
  rcases hc with rfl | rfl <;> rfl

theorem stripSign_of_head {c : Char} (hc : ¬IsSign c) (s : Str) :
    stripSign (c :: s) = c :: s := by
  unfold stripSign
  split
  · next heq => exact absurd (Or.inl (List.cons.inj heq).1) hc
  · next heq => exact absurd (Or.inr (List.cons.inj heq).1) hc
  · rfl

theorem stripSign_cases (v : Str) : stripSign v = v ∨ ∃ c, IsSign c ∧ v = c :: stripSign v := by
  cases v with
  | nil => exact Or.inl rfl
  | cons c s =>
    by_cases hc : IsSign c
    · exact Or.inr ⟨c, hc, by rw [stripSign_cons hc]⟩
    · exact Or.inl (stripSign_of_head hc s)

theorem mem_of_mem_stripSign {v : Str} {c : Char} (hc : c ∈ stripSign v) : c ∈ v := by
  rcases stripSign_cases v with heq | ⟨d, -, heq⟩
  · rwa [heq] at hc
  · rw [heq]
    exact List.mem_cons_of_mem d hc

theorem not_isSign_of_number {c : Char} (hc : c.isDigit ∨ c = '.') : ¬IsSign c := by
  rintro (rfl | rfl) <;> revert hc <;> decide

theorem IsNumber.stripSign_eq {u w f : Str} (h : IsNumber u w f) (x : Str) :
    stripSign (u ++ x) = u ++ x := by
  obtain ⟨c, t, rfl, hc⟩ := h.exists_cons
  exact stripSign_of_head (not_isSign_of_number hc) _

namespace Decimal

theorem mem_sign {x : Str} : x ∈ sign.matches' ↔ x = [] ∨ ∃ c, IsSign c ∧ x = [c] := by
  rw [sign, mem_opt, mem_oneOf]
  simp [IsSign]

/-- An optional sign in front of texts that do not start with one. -/
theorem mem_sign_mul {e : RegularExpression Char} (he : ∀ u ∈ e.matches', stripSign u = u)
    {v : Str} : v ∈ (sign * e).matches' ↔ stripSign v ∈ e.matches' := by
  rw [mem_mul]
  constructor
  · rintro ⟨a, ha, u, hu, rfl⟩
    rcases mem_sign.mp ha with rfl | ⟨c, hc, rfl⟩
    · rwa [List.nil_append, he u hu]
    · rwa [List.singleton_append, stripSign_cons hc]
  · intro hv
    rcases stripSign_cases v with heq | ⟨c, hc, heq⟩
    · exact ⟨[], mem_sign.mpr (Or.inl rfl), stripSign v, hv, heq⟩
    · exact ⟨[c], mem_sign.mpr (Or.inr ⟨c, hc, rfl⟩), stripSign v, hv, heq.symm⟩

theorem mem_decimal {v : Str} : v ∈ decimal.matches' ↔ ∃ w f, IsNumber (stripSign v) w f := by
  rw [decimal, mem_sign_mul, mem_unsigned]
  intro u hu
  obtain ⟨w, f, h⟩ := mem_unsigned.mp hu
  simpa using h.stripSign_eq []

end Decimal

/-! ## Floats -/

theorem isExponent_cases {x : Str} (h : isExponent x) :
    x = [] ∨ ∃ c t, x = c :: t ∧ (c = 'e' ∨ c = 'E') ∧ (digitsValue (stripSign t)).isSome := by
  cases x with
  | nil => exact Or.inl rfl
  | cons c t =>
    rw [isExponent, Bool.and_eq_true] at h
    exact Or.inr ⟨c, t, rfl, by simpa using h.1, h.2⟩

theorem not_isDigit_head_of_isExponent {x : Str} (h : isExponent x) :
    ∀ c, x.head? = some c → c.isDigit = false := by
  rcases isExponent_cases h with rfl | ⟨c, t, rfl, hc, -⟩
  · simp
  · rintro _ ⟨⟩
    rcases hc with rfl | rfl <;> decide

/-- The texts of infinities and NaN. -/
def specialTexts : List Str :=
  ["inf".toList, "infinity".toList, "nan".toList]

/-- What the float parser accepts behind the sign. -/
theorem parsesF64_eq_true_iff {v : Str} :
    parsesF64 v ↔ (stripSign v).map Char.toLower ∈ specialTexts ∨
      ∃ u x w f, stripSign v = u ++ x ∧ IsNumber u w f ∧ isExponent x := by
  unfold parsesF64
  rw [Bool.or_eq_true, List.contains_iff_mem]
  refine or_congr Iff.rfl ?_
  generalize stripSign v = s
  have hs := List.takeWhile_append_dropWhile (p := Char.isDigit) (l := s)
  have hwhole : ∀ c ∈ s.takeWhile Char.isDigit, c.isDigit := fun _ => List.mem_takeWhile_imp
  constructor
  · intro h
    split at h
    · next t ht =>
      rw [ht] at hs
      rw [Bool.and_eq_true] at h
      refine ⟨s.takeWhile Char.isDigit ++ '.' :: t.takeWhile Char.isDigit, _, _, _, ?_,
        ⟨hwhole, fun _ => List.mem_takeWhile_imp, by simpa using h.1, Or.inr rfl⟩, h.2⟩
      rw [List.append_assoc, List.cons_append, List.takeWhile_append_dropWhile, hs]
    · rw [Bool.and_eq_true] at h
      exact ⟨s.takeWhile Char.isDigit, _, _, [], hs.symm,
        ⟨hwhole, by simp, Or.inl (by simpa using h.1), Or.inl ⟨rfl, rfl⟩⟩, h.2⟩
  · rintro ⟨u, x, w, f, rfl, hnumber, hx⟩
    have hhead := not_isDigit_head_of_isExponent hx
    rcases hnumber.text with ⟨rfl, rfl⟩ | rfl
    · obtain ⟨htake, hdrop⟩ := span_append hnumber.whole hhead
      rw [htake, hdrop]
      have hne := hnumber.ne_nil
      rcases isExponent_cases hx with rfl | ⟨c, t, rfl, rfl | rfl, -⟩ <;> simpa [hne] using hx
    · have hpoint : ∀ c, ('.' :: (f ++ x)).head? = some c → c.isDigit = false := by
        rintro _ ⟨⟩
        decide
      obtain ⟨htake, hdrop⟩ := span_append hnumber.whole hpoint
      obtain ⟨htake', hdrop'⟩ := span_append hnumber.fraction hhead
      rw [List.append_assoc, List.cons_append, htake, hdrop]
      simp only [htake', hdrop', hx, Bool.and_true]
      simpa using hnumber.digits

/-! ## The documented grammar of floats -/

theorem not_isAlpha_of_isDigit {c : Char} (hc : c.isDigit) : ¬c.isAlpha := by
  have hall : ['0', '1', '2', '3', '4', '5', '6', '7', '8', '9'].all fun c => !c.isAlpha := by
    decide
  simpa using List.all_eq_true.mp hall c (isDigit_iff_mem.mp hc)

theorem toLower_eq_of_not_isAlpha {c : Char} (hc : ¬c.isAlpha) : c.toLower = c := by
  refine Char.toLower_eq_of_not_isUpper fun hupper => hc ?_
  rw [Char.isAlpha, hupper, Bool.true_or]

theorem map_toLower_eq {u : Str} (h : ∀ c ∈ u, ¬c.isAlpha) : u.map Char.toLower = u :=
  (List.map_congr_left fun c hc => toLower_eq_of_not_isAlpha (h c hc)).trans (List.map_id u)

theorem toLower_eq_e_iff {c : Char} : c.toLower = 'e' ↔ c = 'e' ∨ c = 'E' := by
  constructor
  · intro h
    by_cases hupper : c.isUpper
    · have hc : c.toUpper = c :=
        Char.toUpper_eq_of_not_isLower (Char.not_isLower_of_isUpper hupper)
      rw [← hc, ← Char.toUpper_toLower_eq_toUpper, h]
      exact Or.inr rfl
    · exact Or.inl (by rwa [Char.toLower_eq_of_not_isUpper hupper] at h)
  · rintro (rfl | rfl) <;> decide

theorem not_isAlpha_of_isSign {c : Char} (hc : IsSign c) : ¬c.isAlpha := by
  rcases hc with rfl | rfl <;> decide

/-- A property of characters other than letters does not see the case. -/
theorem toLower_iff {p : Char → Prop} (hp : ∀ {d}, p d → ¬d.isAlpha) {c : Char} :
    p c.toLower ↔ p c := by
  constructor
  · intro h
    have hc : ¬c.isAlpha := by simpa using hp h
    rwa [toLower_eq_of_not_isAlpha hc] at h
  · intro h
    rwa [toLower_eq_of_not_isAlpha (hp h)]

theorem isSign_toLower_iff {c : Char} : IsSign c.toLower ↔ IsSign c :=
  toLower_iff not_isAlpha_of_isSign

theorem isDigit_toLower_iff {c : Char} : c.toLower.isDigit ↔ c.isDigit :=
  toLower_iff (p := fun c => c.isDigit) not_isAlpha_of_isDigit

theorem IsNumber.not_isAlpha {u w f : Str} (h : IsNumber u w f) : ∀ c ∈ u, ¬c.isAlpha := by
  intro c hc
  rcases h.forall_mem c hc with hc | rfl
  · exact not_isAlpha_of_isDigit hc
  · decide

theorem stripSign_map_toLower (v : Str) :
    stripSign (v.map Char.toLower) = (stripSign v).map Char.toLower := by
  cases v with
  | nil => rfl
  | cons c s =>
    by_cases hc : IsSign c
    · rw [List.map_cons, stripSign_cons hc, stripSign_cons (isSign_toLower_iff.mpr hc)]
    · rw [stripSign_of_head hc, List.map_cons,
        stripSign_of_head (fun h => hc (isSign_toLower_iff.mp h))]

theorem digitsValue_isSome_iff {s : Str} :
    (digitsValue s).isSome ↔ s ≠ [] ∧ ∀ c ∈ s, c.isDigit := by
  unfold digitsValue
  split_ifs with h
  · simpa using h
  · simpa using h

namespace Decimal

theorem mem_word {w x : Str} : x ∈ (word w).matches' ↔ x = w := by
  induction w generalizing x with
  | nil => exact Iff.rfl
  | cons c w ih =>
    have hcons : word (c :: w) = char c * word w := rfl
    rw [hcons, mem_mul]
    constructor
    · rintro ⟨_, rfl, b, hb, rfl⟩
      rw [ih.mp hb]
      rfl
    · rintro rfl
      exact ⟨[c], rfl, w, ih.mpr rfl, rfl⟩

/-- The exponent of the grammar is the one that is read. -/
theorem mem_opt_exponent {x : Str} :
    x.map Char.toLower ∈ (opt exponent).matches' ↔ isExponent x := by
  have hdigits : ∀ u ∈ (many1 digit).matches', stripSign u = u := by
    intro u hu
    obtain ⟨hne, hu⟩ := mem_many1_digit.mp hu
    have hnumber : IsNumber u u [] := ⟨hu, by simp, Or.inl hne, Or.inl ⟨rfl, rfl⟩⟩
    simpa using hnumber.stripSign_eq []
  rw [mem_opt, List.map_eq_nil_iff, exponent, mem_mul]
  cases x with
  | nil => exact iff_of_true (Or.inl rfl) rfl
  | cons c t =>
    have hrest : t.map Char.toLower ∈ (sign * many1 digit).matches' ↔
        (digitsValue (stripSign t)).isSome := by
      rw [mem_sign_mul hdigits, mem_many1_digit, stripSign_map_toLower, digitsValue_isSome_iff,
        ne_eq, List.map_eq_nil_iff, List.forall_mem_map]
      simp only [isDigit_toLower_iff]
    have hletter : (c = 'e' || c = 'E') = true ↔ c.toLower = 'e' := by
      simp [toLower_eq_e_iff]
    rw [isExponent, Bool.and_eq_true, ← hrest, hletter]
    constructor
    · rintro (hnil | ⟨_, rfl, b, hb, heq⟩)
      · cases hnil
      · obtain ⟨hc, rfl⟩ := List.cons.inj heq
        exact ⟨hc.symm, hb⟩
    · rintro ⟨hc, ht⟩
      exact Or.inr ⟨['e'], rfl, _, ht, by rw [List.map_cons, hc]; rfl⟩

theorem mem_special {x : Str} :
    x ∈ (word "inf".toList + (word "infinity".toList + word "nan".toList)).matches' ↔
      x ∈ specialTexts := by
  rw [mem_add, mem_add, mem_word, mem_word, mem_word]
  simp only [specialTexts, List.mem_cons, List.not_mem_nil, or_false]

theorem mem_float {v : Str} :
    v ∈ float.matches' ↔ stripSign v ∈ specialTexts ∨
      ∃ u x w f, stripSign v = u ++ x ∧ IsNumber u w f ∧ x ∈ (opt exponent).matches' := by
  have hnumber : ∀ s, s ∈ (unsigned * opt exponent).matches' ↔
      ∃ u x w f, s = u ++ x ∧ IsNumber u w f ∧ x ∈ (opt exponent).matches' := by
    intro s
    rw [mem_mul]
    constructor
    · rintro ⟨u, hu, x, hx, rfl⟩
      obtain ⟨w, f, h⟩ := mem_unsigned.mp hu
      exact ⟨u, x, w, f, rfl, h, hx⟩
    · rintro ⟨u, x, w, f, rfl, h, hx⟩
      exact ⟨u, mem_unsigned.mpr ⟨w, f, h⟩, x, hx, rfl⟩
  rw [float, mem_sign_mul, mem_add, mem_special, hnumber]
  intro s hs
  rw [mem_add, mem_special, hnumber] at hs
  rcases hs with hs | ⟨u, x, w, f, rfl, h, -⟩
  · have hall : ∀ s ∈ specialTexts, stripSign s = s := by decide +kernel
    exact hall s hs
  · exact h.stripSign_eq x

end Decimal

/-- The float parser accepts the documented grammar, for the text in lower case. -/
theorem parsesF64_iff {v : Str} : parsesF64 v ↔ v.map Char.toLower ∈ Decimal.float.matches' := by
  rw [parsesF64_eq_true_iff, Decimal.mem_float, stripSign_map_toLower]
  refine or_congr Iff.rfl ?_
  constructor
  · rintro ⟨u, x, w, f, hv, h, hx⟩
    refine ⟨u, x.map Char.toLower, w, f, ?_, h, Decimal.mem_opt_exponent.mpr hx⟩
    rw [hv, List.map_append, map_toLower_eq h.not_isAlpha]
  · rintro ⟨a, b, w, f, hv, h, hb⟩
    obtain ⟨u, x, hux, rfl, rfl⟩ := List.map_eq_append_iff.mp hv
    have hu : ∀ c ∈ u, ¬c.isAlpha := by
      intro c hc
      simpa using h.not_isAlpha c.toLower (List.mem_map_of_mem hc)
    rw [map_toLower_eq hu] at h
    exact ⟨u, x, w, f, hux, h, Decimal.mem_opt_exponent.mp hb⟩

/-! ## Cells -/

/-- A check that passes goes on to the next. -/
theorem ite_some_eq_none_iff {α : Type} {p : Prop} [Decidable p] {a : α} {b : Option α} :
    (if p then some a else b) = none ↔ ¬p ∧ b = none := by
  split_ifs with h <;> simp [h]

theorem len_eq_length {f : Str} (hf : ∀ c ∈ f, c.isDigit) : len f = f.length := by
  induction f with
  | nil => rfl
  | cons c f ih =>
    obtain ⟨hc, hf⟩ := List.forall_mem_cons.mp hf
    obtain ⟨-, hhi⟩ : 48 ≤ c.toNat ∧ c.toNat ≤ 57 := Char.isDigit_iff_toNat.mp hc
    rw [len_cons, utf8Size_eq_one_iff.mpr (by omega), ih hf, List.length_cons]
    omega

/-- What the last checks see of a number. -/
theorem IsNumber.parts {u w f : Str} (h : IsNumber u w f) :
    (u.splitOn '.').length ≤ 2 ∧ (∀ part ∈ u.splitOn '.', ∀ c ∈ part, c.isDigit) ∧
      (if (u.splitOn '.').length = 2 then len ((u.splitOn '.').getD 1 []) else 0) = f.length := by
  rcases h.splitOn with ⟨heq, rfl⟩ | heq
  · rw [heq]
    exact ⟨by simp, by simpa using h.whole, rfl⟩
  · rw [heq]
    exact ⟨le_refl 2, by simpa using ⟨h.whole, h.fraction⟩, len_eq_length h.fraction⟩

section Signed

variable {v w f : Str} (h : IsNumber (stripSign v) w f)
include h

theorem not_mem_exponent_of_number : ¬('e' ∈ v ∨ 'E' ∈ v) := by
  have hnot : ∀ c, c.isAlpha → c ∉ v := by
    intro c hc hmem
    rcases stripSign_cases v with heq | ⟨d, hd, heq⟩
    · rw [heq] at h
      exact h.not_isAlpha c hmem hc
    · rw [heq] at hmem
      rcases List.mem_cons.mp hmem with rfl | hmem
      · exact not_isAlpha_of_isSign hd hc
      · exact h.not_isAlpha c hmem hc
  rintro (hmem | hmem)
  · exact hnot 'e' (by decide) hmem
  · exact hnot 'E' (by decide) hmem

theorem dropWhile_sign_of_number :
    (v.dropWhile fun c => c = '+' || c = '-') = stripSign v := by
  obtain ⟨c, t, ht, hc⟩ := h.exists_cons
  have hdrop : ((stripSign v).dropWhile fun c => c = '+' || c = '-') = stripSign v := by
    have hsign : ¬((c = '+' || c = '-') = true) := by
      simpa [IsSign] using not_isSign_of_number hc
    rw [ht, List.dropWhile_cons, if_neg hsign]
  rcases stripSign_cases v with heq | ⟨d, hd, heq⟩
  · rwa [heq] at hdrop ⊢
  · have hsign : (d = '+' || d = '-') = true := by simpa [IsSign] using hd
    nth_rewrite 1 [heq]
    rw [List.dropWhile_cons, if_pos hsign, hdrop]

theorem totalDigits_of_number : totalDigits v = w.length + f.length := by
  rw [← h.totalDigits_eq]
  rcases stripSign_cases v with heq | ⟨d, hd, heq⟩
  · rw [heq]
  · have hdigit : ¬d.isDigit := by rcases hd with rfl | rfl <;> decide
    nth_rewrite 1 [heq]
    exact List.countP_cons_of_neg hdigit

theorem fractionDigits_of_number : fractionDigits v = f.length := by
  rw [← h.fractionDigits_eq]
  rcases stripSign_cases v with heq | ⟨d, hd, heq⟩
  · rw [heq]
  · have hpoint : decide (d ≠ '.') = true := by rcases hd with rfl | rfl <;> decide
    nth_rewrite 1 [heq]
    rw [fractionDigits, List.dropWhile_cons, if_pos hpoint, fractionDigits]

end Signed

/-- An infinity or a NaN has a letter, which stays when signs are stripped. -/
theorem exists_mem_of_special {v : Str} (h : (stripSign v).map Char.toLower ∈ specialTexts) :
    ∃ c ∈ v.dropWhile fun c => c = '+' || c = '-', c.isAlpha := by
  have hall : ∀ s ∈ specialTexts, 'n' ∈ s := by decide +kernel
  obtain ⟨c, hc, hn⟩ := List.mem_map.mp (hall _ h)
  have halpha : c.isAlpha := by
    rw [← Char.isAlpha_toLower_eq_isAlpha, hn]
    decide
  have hmem : c ∈ v := mem_of_mem_stripSign hc
  refine ⟨c, ?_, halpha⟩
  rw [← List.takeWhile_append_dropWhile (p := fun c => c = '+' || c = '-') (l := v)] at hmem
  rcases List.mem_append.mp hmem with hmem | hmem
  · have hsign : IsSign c := by simpa [IsSign] using List.mem_takeWhile_imp hmem
    exact absurd halpha (not_isAlpha_of_isSign hsign)
  · exact hmem

theorem mem_intercalate {sep c : Char} {parts : List Str} (h : c ∈ [sep].intercalate parts) :
    c = sep ∨ ∃ part ∈ parts, c ∈ part := by
  induction parts with
  | nil => cases h
  | cons part parts ih =>
    cases parts with
    | nil => exact Or.inr ⟨part, List.mem_cons_self, by simpa using h⟩
    | cons next parts =>
      rw [List.intercalate_cons_cons, List.mem_append, List.mem_append, List.mem_singleton] at h
      rcases h with (h | h) | h
      · exact Or.inr ⟨part, List.mem_cons_self, h⟩
      · exact Or.inl h
      · rcases ih h with h | ⟨p, hp, hc⟩
        · exact Or.inl h
        · exact Or.inr ⟨p, List.mem_cons_of_mem part hp, hc⟩

/-- The number of a text that passes the filters. -/
theorem exists_number {v : Str} (hexponent : ¬('e' ∈ v ∨ 'E' ∈ v)) (hparses : parsesF64 v)
    (hparts : ∀ part ∈ (v.dropWhile fun c => c = '+' || c = '-').splitOn '.',
      ∀ c ∈ part, c.isDigit) :
    ∃ w f, IsNumber (stripSign v) w f := by
  rcases parsesF64_eq_true_iff.mp hparses with hspecial | ⟨u, x, w, f, hux, h, hx⟩
  · obtain ⟨c, hc, halpha⟩ := exists_mem_of_special hspecial
    have hjoin : ['.'].intercalate ((v.dropWhile fun c => c = '+' || c = '-').splitOn '.') =
        v.dropWhile fun c => c = '+' || c = '-' := List.intercalate_splitOn '.'
    rw [← hjoin] at hc
    rcases mem_intercalate hc with rfl | ⟨part, hpart, hc⟩
    · exact absurd halpha (by decide)
    · exact absurd halpha (not_isAlpha_of_isDigit (hparts part hpart c hc))
  · have hmem : ∀ c ∈ x, c ∈ v := by
      intro c hc
      refine mem_of_mem_stripSign ?_
      rw [hux]
      exact List.mem_append_right u hc
    rcases isExponent_cases hx with rfl | ⟨c, t, rfl, hc, -⟩
    · rw [hux, List.append_nil]
      exact ⟨w, f, h⟩
    · refine absurd ?_ hexponent
      rcases hc with rfl | rfl
      · exact Or.inl (hmem _ List.mem_cons_self)
      · exact Or.inr (hmem _ List.mem_cons_self)

/-- A cell passes exactly if it is a decimal number with few enough digits. -/
theorem validateDecimal_eq_none_iff (v : Str) (precision scale : Nat) :
    validateDecimal v precision scale = none ↔
      v ∈ Decimal.decimal.matches' ∧ fractionDigits v ≤ scale ∧ totalDigits v ≤ precision := by
  unfold validateDecimal
  simp only [ite_some_eq_none_iff, not_lt, not_not, List.any_eq_true, Bool.not_eq_true',
    not_exists, not_and, Bool.not_eq_false, List.all_eq_true, and_true]
  rw [Decimal.mem_decimal]
  constructor
  · rintro ⟨hexponent, hparses, -, hparts, hscale, hprecision⟩
    obtain ⟨w, f, h⟩ := exists_number hexponent hparses hparts
    rw [dropWhile_sign_of_number h, h.parts.2.2] at hscale
    rw [dropWhile_sign_of_number h] at hprecision
    refine ⟨⟨w, f, h⟩, ?_, ?_⟩
    · rwa [fractionDigits_of_number h]
    · rwa [totalDigits_of_number h, ← h.totalDigits_eq]
  · rintro ⟨⟨w, f, h⟩, hscale, hprecision⟩
    have hparses : parsesF64 v :=
      parsesF64_eq_true_iff.mpr (Or.inr ⟨_, [], w, f, (List.append_nil _).symm, h, rfl⟩)
    rw [fractionDigits_of_number h] at hscale
    rw [totalDigits_of_number h, ← h.totalDigits_eq] at hprecision
    obtain ⟨hlength, hdigits, hdecimals⟩ := h.parts
    rw [dropWhile_sign_of_number h, hdecimals]
    exact ⟨not_mem_exponent_of_number h, hparses, hlength, hdigits, hscale, hprecision⟩

example : validateDecimal "-12.50".toList 4 2 = none := by decide +kernel

end RelationalSdk
