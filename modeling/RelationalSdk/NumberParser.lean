import RelationalSdk.MeanScan
import RelationalSdk.Regex

/-!
# The number parser of the sample script

`parse_f64_bytes` of `drt-examples/mean` reads a cell in four loops over digits, with a wrapping sum
for the integer part, at most 18 digits of the fraction and a saturating exponent. The integers
it has read (`Parsed`) are then combined in floating point, which is a parameter.

A number that is written out is a `Literal` : a sign, digits, and optional parts. `Grammar.number`
is the grammar of the parser as a regular expression, and its words are the texts of the literals
(`Grammar.mem_number_iff`). `Literal.parseDigits_text` says what the parser reads from the text of a
literal.

* `parseF64Bytes_isSome_iff` : the parser accepts exactly the grammar;
* `parsed_exact_iff` : what it reads is what is written if and only if the integer digits denote
  less than `2 ^ 64`. The fraction and the exponent are always right.
-/

namespace RelationalSdk

open Text RegularExpression Regex

/-! ## The parser -/

def isAsciiDigit (c : UInt8) : Bool :=
  48 ≤ c && c ≤ 57

/-- A loop over digits, and what follows them. -/
def digitLoop {σ : Type} (step : σ → Nat → σ) : σ → Bytes → σ × Bytes
  | s, [] => (s, [])
  | s, c :: b =>
    if isAsciiDigit c then digitLoop step (step s (c - 48).toNat) b else (s, c :: b)

/-- `int_part` and `int_digits`, with 64 and 32 bits. -/
def intStep (s : Nat × Nat) (d : Nat) : Nat × Nat :=
  ((s.1 * 10 % 2 ^ 64 + d) % 2 ^ 64, (s.2 + 1) % 2 ^ 32)

/-- `frac_part` and `frac_digits`. -/
def fracStep (s : Nat × Nat) (d : Nat) : Nat × Nat :=
  if s.2 < 18 then ((s.1 * 10 % 2 ^ 64 + d) % 2 ^ 64, s.2 + 1) else s

/-- The greatest `i32`. -/
def maxExp : Nat :=
  2 ^ 31 - 1

/-- `e` and `exp_digits`. -/
def expStep (s : Nat × Nat) (d : Nat) : Nat × Nat :=
  (min (min (s.1 * 10) maxExp + d) maxExp, (s.2 + 1) % 2 ^ 32)

/-- Whether there is a minus, and what follows the sign. -/
def splitSign : Bytes → Bool × Bytes
  | [] => (false, [])
  | c :: b => if c = 45 then (true, b) else if c = 43 then (false, b) else (false, c :: b)

/-- The fraction, if a point follows. -/
def readFraction : Bytes → (Nat × Nat) × Bytes
  | [] => ((0, 0), [])
  | c :: b => if c = 46 then digitLoop fracStep (0, 0) b else ((0, 0), c :: b)

/-- The exponent, if one follows. -/
def readExponent : Bytes → Option (Int × Bytes)
  | [] => some (0, [])
  | c :: b =>
    if c = 101 || c = 69 then
      let (expNeg, b) := splitSign b
      let ((e, expDigits), b) := digitLoop expStep (0, 0) b
      if expDigits = 0 then none else some (if expNeg then -(e : Int) else e, b)
    else some (0, c :: b)

/-- The integers that are handed to floating point. -/
structure Parsed where
  neg : Bool
  intPart : Nat
  fracPart : Nat
  fracDigits : Nat
  exp : Int
  deriving DecidableEq

/-- `parse_f64_bytes` up to the floating point operations. -/
def parseDigits (b : Bytes) : Option Parsed :=
  if b = [] then none
  else
    let (neg, b) := splitSign b
    if b = [] then none
    else
      let ((intPart, intDigits), b) := digitLoop intStep (0, 0) b
      let ((fracPart, fracDigits), b) := readFraction b
      if intDigits = 0 ∧ fracDigits = 0 then none
      else
        match readExponent b with
        | none => none
        | some (exp, b) => if b ≠ [] then none else some ⟨neg, intPart, fracPart, fracDigits, exp⟩

section Float

variable {V : Type} [NatCast V] [Add V] [Mul V] [Neg V] [OfScientific V]

/-- A power of ten, from the table or multiplied up from its last entry. -/
def pow10 (e : Int) : V :=
  if 0 ≤ e then
    if e.toNat < 23 then OfScientific.ofScientific 1 false e.toNat
    else (· * (10.0 : V))^[e.toNat - 22] (OfScientific.ofScientific 1 false 22)
  else
    if (-e).toNat < 23 then OfScientific.ofScientific 1 true (-e).toNat
    else (· * (0.1 : V))^[(-e).toNat - 22] (OfScientific.ofScientific 1 true 22)

/-- The number in floating point. -/
def Parsed.value (p : Parsed) : V :=
  let val := (p.intPart : V)
  let val :=
    if 0 < p.fracDigits then val + (p.fracPart : V) * pow10 (-(p.fracDigits : Int)) else val
  let val := if p.exp ≠ 0 then val * pow10 p.exp else val
  if p.neg then -val else val

def parseF64Bytes (b : Bytes) : Option V :=
  (parseDigits b).map Parsed.value

end Float

/-! ## Numbers as they are written -/

/-- A sign, which may be left out. -/
inductive Sign where
  | none
  | plus
  | minus
  deriving DecidableEq

def Sign.text : Sign → Bytes
  | none => []
  | plus => [43]
  | minus => [45]

abbrev Digits := List (Fin 10)

def digitByte (d : Fin 10) : UInt8 :=
  48 + UInt8.ofNat d

def Digits.text (ds : Digits) : Bytes :=
  ds.map digitByte

/-- The decimal value of some digits. -/
def Digits.value (ds : Digits) : Nat :=
  Nat.ofDigits 10 (ds.reverse.map Fin.val)

/-- The value of digits after the point. -/
def Digits.fraction (ds : Digits) : ℚ :=
  ds.foldr (fun (d : Fin 10) v => ((d : ℚ) + v) / 10) 0

/-- An exponent has a digit. -/
structure Exponent where
  upper : Bool
  sign : Sign
  digits : Digits
  ne_nil : digits ≠ []

def Exponent.text (e : Exponent) : Bytes :=
  (if e.upper then 69 else 101) :: (e.sign.text ++ e.digits.text)

/-- The exponent with its magnitude clamped to an `i32`. -/
def Exponent.clamped (e : Exponent) : Int :=
  let magnitude : Nat := min e.digits.value maxExp
  if e.sign = .minus then -(magnitude : Int) else magnitude

/-- A written number has a digit before or after the point. -/
structure Literal where
  sign : Sign
  int : Digits
  frac : Option Digits
  exponent : Option Exponent
  ne_nil : int ≠ [] ∨ frac.getD [] ≠ []

namespace Literal

def fracText (l : Literal) : Bytes :=
  l.frac.elim [] fun ds => 46 :: ds.text

def exponentText (l : Literal) : Bytes :=
  l.exponent.elim [] Exponent.text

def text (l : Literal) : Bytes :=
  l.sign.text ++ (l.int.text ++ (l.fracText ++ l.exponentText))

end Literal

/-! ## Digits -/

theorem isAsciiDigit_digitByte (d : Fin 10) : isAsciiDigit (digitByte d) := by
  revert d
  decide

theorem digitByte_sub (d : Fin 10) : (digitByte d - 48).toNat = d := by
  revert d
  decide

theorem exists_digitByte {c : UInt8} (hc : isAsciiDigit c) : ∃ d, c = digitByte d := by
  obtain ⟨hle, hge⟩ : 48 ≤ c.toNat ∧ c.toNat ≤ 57 := by
    simpa [isAsciiDigit, UInt8.le_iff_toNat_le] using hc
  refine ⟨⟨c.toNat - 48, by omega⟩, UInt8.toNat_inj.mp ?_⟩
  rw [digitByte, UInt8.toNat_add, UInt8.toNat_ofNat']
  change c.toNat = (48 + (c.toNat - 48) % 2 ^ 8) % 2 ^ 8
  omega

/-- The text does not go on with a digit. -/
def NoDigit (b : Bytes) : Prop :=
  ∀ c ∈ b.head?, isAsciiDigit c = false

theorem exists_digits (b : Bytes) : ∃ (ds : Digits) (rest : Bytes), b = ds.text ++ rest ∧
    NoDigit rest := by
  induction b with
  | nil => exact ⟨[], [], rfl, by simp [NoDigit]⟩
  | cons c b ih =>
    by_cases hc : isAsciiDigit c
    · obtain ⟨d, rfl⟩ := exists_digitByte hc
      obtain ⟨ds, rest, rfl, hrest⟩ := ih
      exact ⟨d :: ds, rest, rfl, hrest⟩
    · exact ⟨[], c :: b, rfl, by simpa [NoDigit] using hc⟩

/-- A loop reads all digits. -/
theorem digitLoop_text {σ : Type} (step : σ → Nat → σ) (ds : Digits) {rest : Bytes}
    (hrest : NoDigit rest) : ∀ s, digitLoop step s (ds.text ++ rest) =
      (ds.foldl (fun s (d : Fin 10) => step s d) s, rest) := by
  induction ds with
  | nil =>
    intro s
    rcases rest with _ | ⟨c, rest⟩
    · rfl
    · exact if_neg (Bool.eq_false_iff.mp (hrest c rfl))
  | cons d ds ih =>
    intro s
    have hstep : digitLoop step s (Digits.text (d :: ds) ++ rest) =
        digitLoop step (step s (digitByte d - 48).toNat) (Digits.text ds ++ rest) :=
      if_pos (isAsciiDigit_digitByte d)
    rw [hstep, digitByte_sub, ih, List.foldl_cons]

theorem Digits.value_concat (ds : Digits) (d : Fin 10) :
    Digits.value (ds ++ [d]) = ds.value * 10 + d := by
  unfold Digits.value
  rw [List.reverse_append, List.reverse_singleton, List.singleton_append, List.map_cons,
    Nat.ofDigits_cons, Nat.add_comm, Nat.mul_comm]

theorem Digits.value_lt (ds : Digits) : ds.value < 10 ^ ds.length := by
  have hdigits : ∀ x ∈ ds.reverse.map Fin.val, x < 10 := by
    intro x hx
    obtain ⟨d, -, rfl⟩ := List.mem_map.mp hx
    exact d.isLt
  have hlt := Nat.ofDigits_lt_base_pow_length (by decide) hdigits
  rwa [List.length_map, List.length_reverse] at hlt

theorem Digits.foldr_eq (ds : Digits) : ∀ x : ℚ,
    ds.foldr (fun (d : Fin 10) v => ((d : ℚ) + v) / 10) x = (ds.value + x) / 10 ^ ds.length := by
  induction ds using List.reverseRecOn with
  | nil =>
    intro x
    simp [Digits.value]
  | append_singleton ds d ih =>
    intro x
    rw [List.foldr_append, List.foldr_cons, List.foldr_nil, ih, Digits.value_concat,
      List.length_append, List.length_singleton, pow_succ]
    push_cast
    field_simp
    ring

/-- The value of digits after the point is their decimal value, moved behind it. -/
theorem Digits.fraction_eq (ds : Digits) : ds.fraction = ds.value / 10 ^ ds.length := by
  rw [Digits.fraction, Digits.foldr_eq, add_zero]

theorem foldl_intStep (ds : Digits) : ds.foldl (fun s (d : Fin 10) => intStep s d) (0, 0) =
    (ds.value % 2 ^ 64, ds.length % 2 ^ 32) := by
  induction ds using List.reverseRecOn with
  | nil => rfl
  | append_singleton ds d ih =>
    rw [List.foldl_append, ih, List.foldl_cons, List.foldl_nil, intStep, Digits.value_concat,
      List.length_append, List.length_singleton]
    congr 1
    · omega
    · omega

/-- Digits of the fraction after the eighteenth are not read. -/
theorem foldl_fracStep (ds : Digits) : ds.foldl (fun s (d : Fin 10) => fracStep s d) (0, 0) =
    (Digits.value (ds.take 18), (ds.take 18).length) := by
  induction ds using List.reverseRecOn with
  | nil => rfl
  | append_singleton ds d ih =>
    rw [List.foldl_append, ih, List.foldl_cons, List.foldl_nil, fracStep]
    have hlen : (ds.take 18).length = min 18 ds.length := List.length_take
    by_cases hlt : ds.length < 18
    · have hbound := Digits.value_lt ds
      have hpow : 10 ^ ds.length ≤ 10 ^ 17 := Nat.pow_le_pow_right (by decide) (by omega)
      have hd := d.isLt
      rw [List.take_of_length_le hlt.le, List.take_of_length_le (by simpa using hlt),
        if_pos hlt, Digits.value_concat, List.length_append, List.length_singleton]
      congr 1
      omega
    · rw [if_neg (by omega), List.take_append_of_le_length (by omega)]

theorem foldl_expStep (ds : Digits) : ds.foldl (fun s (d : Fin 10) => expStep s d) (0, 0) =
    (min ds.value maxExp, ds.length % 2 ^ 32) := by
  induction ds using List.reverseRecOn with
  | nil => rfl
  | append_singleton ds d ih =>
    rw [List.foldl_append, ih, List.foldl_cons, List.foldl_nil, expStep, Digits.value_concat,
      List.length_append, List.length_singleton]
    congr 1
    · omega
    · omega

/-! ## What is read from a written number -/

theorem splitSign_text (s : Sign) {b : Bytes} (hb : ∀ c ∈ b.head?, c ≠ 45 ∧ c ≠ 43) :
    splitSign (s.text ++ b) = (decide (s = .minus), b) := by
  cases s with
  | none =>
    rcases b with _ | ⟨c, b⟩
    · rfl
    · obtain ⟨hminus, hplus⟩ := hb c rfl
      exact (if_neg hminus).trans (if_neg hplus)
  | plus => rfl
  | minus => rfl

theorem exists_sign (b : Bytes) : ∃ s : Sign, b = s.text ++ (splitSign b).2 := by
  rcases b with _ | ⟨c, b⟩
  · exact ⟨.none, rfl⟩
  by_cases hminus : c = 45
  · exact ⟨.minus, by rw [splitSign, if_pos hminus, hminus]; rfl⟩
  by_cases hplus : c = 43
  · exact ⟨.plus, by rw [splitSign, if_neg hminus, if_pos hplus, hplus]; rfl⟩
  · exact ⟨.none, by rw [splitSign, if_neg hminus, if_neg hplus]; rfl⟩

/-- A digit is neither a sign nor a point. -/
theorem digitByte_ne (d : Fin 10) : digitByte d ≠ 45 ∧ digitByte d ≠ 43 ∧ digitByte d ≠ 46 := by
  revert d
  decide

theorem noDigit_nil : NoDigit [] := by
  intro c hc
  cases hc

namespace Exponent

theorem readExponent_text (e : Exponent) : readExponent e.text =
    if e.digits.length % 2 ^ 32 = 0 then none else some (e.clamped, []) := by
  have hsign : ∀ c ∈ e.digits.text.head?, c ≠ 45 ∧ c ≠ 43 := by
    intro c hc
    obtain ⟨d, -, rfl⟩ := List.mem_map.mp (List.mem_of_mem_head? hc)
    exact ⟨(digitByte_ne d).1, (digitByte_ne d).2.1⟩
  have hdigits := digitLoop_text expStep e.digits noDigit_nil (0, 0)
  rw [List.append_nil, foldl_expStep] at hdigits
  have hmark : ((if e.upper then 69 else 101 : UInt8) = 101 ||
      (if e.upper then 69 else 101 : UInt8) = 69) = true := by
    split_ifs <;> rfl
  rw [Exponent.text, readExponent, if_pos hmark, splitSign_text e.sign hsign]
  dsimp only
  rw [hdigits]
  dsimp only
  simp only [decide_eq_true_eq, Exponent.clamped]

end Exponent

namespace Literal

variable (l : Literal)

theorem noDigit_exponentText : NoDigit l.exponentText := by
  unfold exponentText
  rcases l.exponent with _ | e
  · exact noDigit_nil
  · intro c hc
    obtain rfl := Option.mem_some.mp hc
    split_ifs <;> rfl

theorem noDigit_fracText : NoDigit (l.fracText ++ l.exponentText) := by
  unfold fracText
  rcases l.frac with _ | ds
  · exact noDigit_exponentText l
  · intro c hc
    obtain rfl := Option.mem_some.mp hc
    rfl

/-- After the sign comes a digit or the point. -/
theorem exists_unsigned : ∃ c b, l.int.text ++ (l.fracText ++ l.exponentText) = c :: b ∧
    c ≠ 45 ∧ c ≠ 43 := by
  rcases hint : l.int with _ | ⟨d, ds⟩
  · rcases hfrac : l.frac with _ | ds
    · refine absurd l.ne_nil ?_
      rw [hint, hfrac]
      simp
    · refine ⟨46, ds.text ++ l.exponentText, ?_, by decide, by decide⟩
      rw [fracText, hfrac]
      rfl
  · exact ⟨digitByte d, Digits.text ds ++ (l.fracText ++ l.exponentText), rfl,
      (digitByte_ne d).1, (digitByte_ne d).2.1⟩

theorem readFraction_text : readFraction (l.fracText ++ l.exponentText) =
    ((Digits.value ((l.frac.getD []).take 18), ((l.frac.getD []).take 18).length),
      l.exponentText) := by
  rcases hfrac : l.frac with _ | ds
  · have hnone : l.fracText = [] := by
      rw [fracText, hfrac]
      rfl
    rw [hnone, List.nil_append, exponentText]
    rcases l.exponent with _ | e
    · rfl
    · refine if_neg ?_
      split_ifs <;> decide
  · have hsome : l.fracText = 46 :: ds.text := by
      rw [fracText, hfrac]
      rfl
    rw [hsome, List.cons_append, readFraction, if_pos rfl,
      digitLoop_text fracStep ds l.noDigit_exponentText, foldl_fracStep]
    rfl

theorem readExponent_exponentText : readExponent l.exponentText =
    if (∀ e ∈ l.exponent, e.digits.length % 2 ^ 32 ≠ 0) then
      some (l.exponent.elim 0 Exponent.clamped, []) else none := by
  unfold exponentText
  rcases l.exponent with _ | e
  · rw [if_pos (by simp)]
    rfl
  · rw [Option.elim_some, e.readExponent_text]
    by_cases hzero : e.digits.length % 2 ^ 32 = 0
    · rw [if_pos hzero, if_neg (by simpa using hzero)]
    · rw [if_neg hzero, if_pos (by simpa using hzero)]
      rfl

/-- What the parser reads from the text. -/
def parsed : Parsed where
  neg := decide (l.sign = .minus)
  intPart := l.int.value % 2 ^ 64
  fracPart := Digits.value ((l.frac.getD []).take 18)
  fracDigits := ((l.frac.getD []).take 18).length
  exp := l.exponent.elim 0 Exponent.clamped

/-- The counters of digits, modulo `2 ^ 32`, do not hide a digit. -/
def Counted : Prop :=
  ¬(l.int.length % 2 ^ 32 = 0 ∧ l.frac.getD [] = []) ∧
    ∀ e ∈ l.exponent, e.digits.length % 2 ^ 32 ≠ 0

instance : Decidable l.Counted :=
  inferInstanceAs (Decidable (_ ∧ ∀ e ∈ l.exponent, _))

theorem parseDigits_text : parseDigits l.text = if l.Counted then some l.parsed else none := by
  obtain ⟨c, b, hcons, hminus, hplus⟩ := l.exists_unsigned
  have hstart : ∀ c ∈ (l.int.text ++ (l.fracText ++ l.exponentText)).head?, c ≠ 45 ∧ c ≠ 43 := by
    intro c' hc'
    rw [hcons] at hc'
    obtain rfl := Option.mem_some.mp hc'
    exact ⟨hminus, hplus⟩
  have hne : l.text ≠ [] := by
    rw [text, hcons]
    simp
  unfold parseDigits
  rw [if_neg hne, text, splitSign_text l.sign hstart]
  dsimp only
  rw [if_neg (by rw [hcons]; simp), digitLoop_text intStep l.int l.noDigit_fracText,
    foldl_intStep]
  dsimp only
  rw [l.readFraction_text]
  dsimp only
  rw [l.readExponent_exponentText]
  have hfrac : ((l.frac.getD []).take 18).length = 0 ↔ l.frac.getD [] = [] := by
    rw [List.length_take, ← List.length_eq_zero_iff]
    omega
  by_cases hcount : l.int.length % 2 ^ 32 = 0 ∧ ((l.frac.getD []).take 18).length = 0
  · rw [if_pos hcount, if_neg fun h => h.1 ⟨hcount.1, hfrac.mp hcount.2⟩]
  · rw [if_neg hcount]
    by_cases hexp : ∀ e ∈ l.exponent, e.digits.length % 2 ^ 32 ≠ 0
    · rw [if_pos hexp, if_pos ⟨fun h => hcount ⟨h.1, hfrac.mpr h.2⟩, hexp⟩]
      rfl
    · rw [if_neg hexp, if_neg fun h => hexp h.2]

/-- A text with fewer than `2 ^ 32` bytes has fewer digits. -/
theorem counted (hlen : l.text.length < 2 ^ 32) : l.Counted := by
  have hint : l.int.length ≤ l.text.length := by
    simp only [text, Digits.text, List.length_append, List.length_map]
    omega
  refine ⟨?_, ?_⟩
  · rintro ⟨hzero, hfrac⟩
    rw [Nat.mod_eq_of_lt (by omega), List.length_eq_zero_iff] at hzero
    exact l.ne_nil.elim (absurd hzero) (absurd hfrac)
  · intro e he hzero
    have hexp : e.digits.length ≤ l.text.length := by
      simp only [text, exponentText, Option.mem_def.mp he, Option.elim_some, Exponent.text,
        Digits.text, List.length_append, List.length_cons, List.length_map]
      omega
    rw [Nat.mod_eq_of_lt (by omega), List.length_eq_zero_iff] at hzero
    exact e.ne_nil hzero

end Literal

/-! ## What is accepted is a written number -/

theorem exists_fraction (b : Bytes) : ∃ f : Option Digits,
    b = (f.elim [] fun ds => 46 :: ds.text) ++ (readFraction b).2 ∧
      ((readFraction b).1.2 ≠ 0 → f.getD [] ≠ []) := by
  rcases b with _ | ⟨c, b⟩
  · exact ⟨none, rfl, fun h => absurd rfl h⟩
  by_cases hpoint : c = 46
  · obtain ⟨ds, rest, rfl, hrest⟩ := exists_digits b
    refine ⟨some ds, ?_, ?_⟩
    · rw [readFraction, if_pos hpoint, digitLoop_text fracStep ds hrest, hpoint]
      rfl
    · rw [readFraction, if_pos hpoint, digitLoop_text fracStep ds hrest, foldl_fracStep]
      rintro hne rfl
      exact hne rfl
  · rw [readFraction, if_neg hpoint]
    exact ⟨none, rfl, fun h => absurd rfl h⟩

theorem exists_exponent {b : Bytes} {exp : Int} (h : readExponent b = some (exp, [])) :
    ∃ e : Option Exponent, b = e.elim [] Exponent.text := by
  rcases b with _ | ⟨c, b⟩
  · exact ⟨none, rfl⟩
  rw [readExponent] at h
  split_ifs at h with hmark
  · obtain ⟨s, hs⟩ := exists_sign b
    obtain ⟨ds, rest, hb, hrest⟩ := exists_digits (splitSign b).2
    dsimp only at h
    rw [hb, digitLoop_text expStep ds hrest, foldl_expStep] at h
    dsimp only at h
    by_cases hzero : ds.length % 2 ^ 32 = 0
    · rw [if_pos hzero] at h
      cases h
    rw [if_neg hzero] at h
    obtain rfl : rest = [] := (Prod.mk.inj (Option.some.inj h)).2
    have hne : ds ≠ [] := by
      rintro rfl
      exact hzero rfl
    refine ⟨some ⟨decide (c = 69), s, ds, hne⟩, ?_⟩
    rw [Option.elim_some, Exponent.text, hs, hb, List.append_nil]
    congr 1
    obtain rfl | rfl : c = 101 ∨ c = 69 := by simpa using hmark
    · rfl
    · rfl
  · cases h

theorem exists_literal {b : Bytes} {p : Parsed} (h : parseDigits b = some p) :
    ∃ l : Literal, l.text = b := by
  unfold parseDigits at h
  split_ifs at h
  obtain ⟨s, hs⟩ := exists_sign b
  obtain ⟨int, rest, hint, hrest⟩ := exists_digits (splitSign b).2
  obtain ⟨f, hf, hfrac⟩ := exists_fraction rest
  dsimp only at h
  split_ifs at h with hnil hcount
  rw [hint, digitLoop_text intStep int hrest, foldl_intStep] at h hcount
  dsimp only at h hcount
  rcases hexp : readExponent (readFraction rest).2 with _ | ⟨exp, tail⟩
  · rw [hexp] at h
    cases h
  rw [hexp] at h
  dsimp only at h
  by_cases htail : tail ≠ []
  · rw [if_pos htail] at h
    cases h
  obtain rfl := not_not.mp htail
  obtain ⟨e, he⟩ := exists_exponent hexp
  have hne : int ≠ [] ∨ f.getD [] ≠ [] := by
    rcases not_and_or.mp hcount with hzero | hzero
    · refine Or.inl ?_
      rintro rfl
      exact hzero rfl
    · exact Or.inr (hfrac hzero)
  refine ⟨⟨s, int, f, e, hne⟩, ?_⟩
  rw [hs, hint, hf, he]
  rfl

/-! ## The grammar -/

namespace Grammar

def digit : RegularExpression UInt8 :=
  oneOf [48, 49, 50, 51, 52, 53, 54, 55, 56, 57]

def sign : RegularExpression UInt8 :=
  opt (oneOf [43, 45])

/-- `[+-]? ( digit+ ( '.' digit* )? | '.' digit+ ) ( [eE] [+-]? digit+ )?`. -/
def number : RegularExpression UInt8 :=
  sign * ((many1 digit * opt (char 46 * digit.star) + char 46 * many1 digit) *
    opt (oneOf [101, 69] * (sign * many1 digit)))

end Grammar

/-! ## The words of the grammar -/

namespace Grammar

theorem mem_sign {x : Bytes} : x ∈ sign.matches' ↔ ∃ s : Sign, x = s.text := by
  rw [sign, mem_opt, mem_oneOf]
  refine ⟨?_, ?_⟩
  · rintro (rfl | ⟨c, hc, rfl⟩)
    · exact ⟨.none, rfl⟩
    · obtain rfl | rfl : c = 43 ∨ c = 45 := by simpa using hc
      · exact ⟨.plus, rfl⟩
      · exact ⟨.minus, rfl⟩
  · rintro ⟨s, rfl⟩
    cases s with
    | none => exact Or.inl rfl
    | plus => exact Or.inr ⟨43, by simp, rfl⟩
    | minus => exact Or.inr ⟨45, by simp, rfl⟩

theorem mem_digit {x : Bytes} : x ∈ digit.matches' ↔ ∃ d, x = [digitByte d] := by
  rw [digit, mem_oneOf]
  refine ⟨?_, ?_⟩
  · rintro ⟨c, hc, rfl⟩
    have hall : ([48, 49, 50, 51, 52, 53, 54, 55, 56, 57] : Bytes).all isAsciiDigit := by decide
    obtain ⟨d, rfl⟩ := exists_digitByte (List.all_eq_true.mp hall c hc)
    exact ⟨d, rfl⟩
  · rintro ⟨d, rfl⟩
    refine ⟨digitByte d, ?_, rfl⟩
    revert d
    decide

theorem mem_digit_star {x : Bytes} : x ∈ digit.star.matches' ↔ ∃ ds : Digits, x = ds.text :=
  mem_star_of_letters fun _ => mem_digit

theorem mem_many1_digit {x : Bytes} :
    x ∈ (many1 digit).matches' ↔ ∃ ds : Digits, ds ≠ [] ∧ x = ds.text :=
  mem_many1_of_letters fun _ => mem_digit

/-- The part after the sign and before the exponent. -/
theorem mem_mantissa {x : Bytes} :
    x ∈ (many1 digit * opt (char 46 * digit.star) + char 46 * many1 digit).matches' ↔
      ∃ (int : Digits) (frac : Option Digits), (int ≠ [] ∨ frac.getD [] ≠ []) ∧
        x = int.text ++ frac.elim [] fun ds => 46 :: ds.text := by
  refine ⟨?_, ?_⟩
  · intro hx
    rcases mem_add.mp hx with hx | hx
    · obtain ⟨a, ha, b, hb, rfl⟩ := mem_mul.mp hx
      obtain ⟨ds, hne, rfl⟩ := mem_many1_digit.mp ha
      rcases mem_opt.mp hb with rfl | hb
      · exact ⟨ds, none, Or.inl hne, rfl⟩
      · obtain ⟨c, rfl, f, hf, rfl⟩ := mem_mul.mp hb
        obtain ⟨fs, rfl⟩ := mem_digit_star.mp hf
        exact ⟨ds, some fs, Or.inl hne, rfl⟩
    · obtain ⟨c, rfl, f, hf, rfl⟩ := mem_mul.mp hx
      obtain ⟨fs, hne, rfl⟩ := mem_many1_digit.mp hf
      exact ⟨[], some fs, Or.inr hne, rfl⟩
  · rintro ⟨int, frac, hne, rfl⟩
    by_cases hint : int = []
    · subst hint
      rcases frac with _ | fs
      · simp at hne
      · have hfs : fs ≠ [] := hne.resolve_left (not_not.mpr rfl)
        exact mem_add.mpr (Or.inr (mem_mul.mpr
          ⟨_, mem_char.mpr rfl, _, mem_many1_digit.mpr ⟨fs, hfs, rfl⟩, rfl⟩))
    · refine mem_add.mpr (Or.inl (mem_mul.mpr
        ⟨_, mem_many1_digit.mpr ⟨int, hint, rfl⟩, _, mem_opt.mpr ?_, rfl⟩))
      rcases frac with _ | fs
      · exact Or.inl rfl
      · exact Or.inr (mem_mul.mpr ⟨_, mem_char.mpr rfl, _, mem_digit_star.mpr ⟨fs, rfl⟩, rfl⟩)

theorem mem_exponent {x : Bytes} :
    x ∈ (opt (oneOf [101, 69] * (sign * many1 digit))).matches' ↔
      ∃ e : Option Exponent, x = e.elim [] Exponent.text := by
  rw [mem_opt]
  refine ⟨?_, ?_⟩
  · rintro (rfl | hx)
    · exact ⟨none, rfl⟩
    · obtain ⟨m, hm, a, ha, rfl⟩ := mem_mul.mp hx
      obtain ⟨c, hc, rfl⟩ := (mem_oneOf _).mp hm
      obtain ⟨b, hb, y, hy, rfl⟩ := mem_mul.mp ha
      obtain ⟨s, rfl⟩ := mem_sign.mp hb
      obtain ⟨ds, hne, rfl⟩ := mem_many1_digit.mp hy
      obtain rfl | rfl : c = 101 ∨ c = 69 := by simpa using hc
      · exact ⟨some ⟨false, s, ds, hne⟩, rfl⟩
      · exact ⟨some ⟨true, s, ds, hne⟩, rfl⟩
  · rintro ⟨_ | e, rfl⟩
    · exact Or.inl rfl
    · refine Or.inr (mem_mul.mpr ⟨[if e.upper then 69 else 101], (mem_oneOf _).mpr ?_,
        _, mem_mul.mpr ⟨_, mem_sign.mpr ⟨e.sign, rfl⟩, _,
          mem_many1_digit.mpr ⟨e.digits, e.ne_nil, rfl⟩, rfl⟩, rfl⟩)
      refine ⟨_, ?_, rfl⟩
      split_ifs <;> simp

/-- The words of the grammar are the written numbers. -/
theorem mem_number_iff {b : Bytes} : b ∈ number.matches' ↔ ∃ l : Literal, l.text = b := by
  rw [number, mem_mul]
  refine ⟨?_, ?_⟩
  · rintro ⟨x, hx, y, hy, rfl⟩
    obtain ⟨s, rfl⟩ := mem_sign.mp hx
    obtain ⟨m, hm, z, hz, rfl⟩ := mem_mul.mp hy
    obtain ⟨int, frac, hne, rfl⟩ := mem_mantissa.mp hm
    obtain ⟨e, rfl⟩ := mem_exponent.mp hz
    exact ⟨⟨s, int, frac, e, hne⟩, by rw [List.append_assoc]; rfl⟩
  · rintro ⟨l, rfl⟩
    refine ⟨_, mem_sign.mpr ⟨l.sign, rfl⟩, _, mem_mul.mpr ⟨_, mem_mantissa.mpr
      ⟨l.int, l.frac, l.ne_nil, rfl⟩, _, mem_exponent.mpr ⟨l.exponent, rfl⟩, rfl⟩, ?_⟩
    rw [List.append_assoc]
    rfl

end Grammar

/-! ## The parser and the grammar -/

open Grammar

/-- The parser accepts exactly the grammar. -/
theorem parseF64Bytes_isSome_iff {V : Type} [NatCast V] [Add V] [Mul V] [Neg V] [OfScientific V]
    {b : Bytes} (hlen : b.length < 2 ^ 32) :
    (parseF64Bytes b : Option V).isSome ↔ b ∈ number.matches' := by
  rw [parseF64Bytes, Option.isSome_map, mem_number_iff]
  refine ⟨fun h => ?_, ?_⟩
  · obtain ⟨p, hp⟩ := Option.isSome_iff_exists.mp h
    exact exists_literal hp
  · rintro ⟨l, rfl⟩
    rw [l.parseDigits_text, if_pos (l.counted hlen)]
    rfl

/-- A point with nothing after it, and an exponent. -/
def pointAndExponent : Bytes :=
  asBytes "-12.e+3".toList

theorem pointAndExponent_mem : pointAndExponent ∈ number.matches' :=
  (parseF64Bytes_isSome_iff (V := ℚ) (by decide)).mp (by decide)

/-- The integers are what is written, with the fraction cut after 18 digits and the exponent
clamped to an `i32`. -/
def Literal.Exact (l : Literal) (p : Parsed) : Prop :=
  p.intPart = l.int.value ∧
    (p.fracPart : ℚ) / 10 ^ p.fracDigits = Digits.fraction ((l.frac.getD []).take 18) ∧
    p.exp = l.exponent.elim 0 Exponent.clamped

/-- What is accepted is a written number, and it is read as written if and only if its integer
digits denote less than `2 ^ 64`. -/
theorem parsed_exact_iff {b : Bytes} {p : Parsed} (h : parseDigits b = some p) :
    (∃ l : Literal, l.text = b) ∧
      ∀ l : Literal, l.text = b → (l.Exact p ↔ l.int.value < 2 ^ 64) := by
  refine ⟨exists_literal h, ?_⟩
  rintro l rfl
  rw [l.parseDigits_text] at h
  by_cases hcount : l.Counted
  · rw [if_pos hcount] at h
    obtain rfl := Option.some.inj h
    refine ⟨fun hexact => ?_, fun hlt => ⟨Nat.mod_eq_of_lt hlt, (Digits.fraction_eq _).symm, rfl⟩⟩
    have hint : l.int.value % 2 ^ 64 = l.int.value := hexact.1
    rw [← hint]
    exact Nat.mod_lt _ (by decide)
  · rw [if_neg hcount] at h
    cases h

theorem parsed_exact_pointAndExponent : (∃ l : Literal, l.text = pointAndExponent) ∧
    ∀ l : Literal, l.text = pointAndExponent →
      (l.Exact ⟨true, 12, 0, 0, 3⟩ ↔ l.int.value < 2 ^ 64) :=
  parsed_exact_iff (by decide)

/-- There are ten digits, so that numerals denote digits. -/
local instance tenDigits : NeZero 10 :=
  ⟨by decide⟩

/-- The number `2 ^ 64`, written out. -/
def twoPow64 : Literal where
  sign := .none
  int := [1, 8, 4, 4, 6, 7, 4, 4, 0, 7, 3, 7, 0, 9, 5, 5, 1, 6, 1, 6]
  frac := none
  exponent := none
  ne_nil := Or.inl (List.cons_ne_nil _ _)

/-- It is read as zero. -/
theorem not_exact_twoPow64 : twoPow64.text = asBytes "18446744073709551616".toList ∧
    ∃ p, parseDigits twoPow64.text = some p ∧ p.intPart = 0 ∧ ¬twoPow64.Exact p := by
  refine ⟨by decide, ⟨false, 0, 0, 0, 0⟩, by decide, rfl, ?_⟩
  rintro ⟨hint, -⟩
  revert hint
  decide

end RelationalSdk
