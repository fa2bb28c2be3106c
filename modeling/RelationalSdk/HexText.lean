import RelationalSdk.IndexLoops
import RelationalSdk.Text

/-!
# Hexadecimal texts read by byte offsets

`strSlice` is `&s[i..j]` : the offsets count bytes, and an offset inside a character is a fault, as
one behind the end is. `u8FromStrRadix16` is `u8::from_str_radix` to the base sixteen, which admits
a plus sign before the digits. `readPairs` is a loop that reads one octet from each two bytes of a
text.

`readPairs_eq_some_iff` and `readPairs_ok_iff` say what the loop does on a text of the right
length : it reads pairs of digits, but also a plus sign with a digit, and it faults exactly if the
first two bytes that it cannot read end inside a character. `Misread` is the condition under which
that differs from reading digits, and `pairs_hexPair_iff` says what it has to do with plus signs.
-/

namespace HexText

open Text IndexLoops

/-! ## Slices -/

theorem len_cons (c : Char) (s : Str) : len (c :: s) = c.utf8Size + len s := by
  rw [len, List.map_cons, List.sum_cons, len]

theorem len_append (s t : Str) : len (s ++ t) = len s + len t := by
  rw [len, List.map_append, List.sum_append, len, len]

theorem length_asBytes (s : Str) : (asBytes s).length = len s := by
  induction s with
  | nil => rfl
  | cons c s ih => rw [asBytes_cons, List.length_append, String.length_utf8EncodeChar, ih, len_cons]

/-- The text before a byte offset and the text behind it, if the offset is inside no character. -/
def splitAtByte (n : Nat) : Str → Option (Str × Str)
  | [] => if n = 0 then some ([], []) else none
  | c :: s =>
    if n = 0 then some ([], c :: s)
    else if c.utf8Size ≤ n then (splitAtByte (n - c.utf8Size) s).map fun p => (c :: p.1, p.2)
    else none

/-- `&s[i..j]`. -/
def strSlice (s : Str) (i j : Nat) : Exec Str :=
  match splitAtByte j s with
  | none => .error .outOfBounds
  | some (upTo, _) =>
    match splitAtByte i upTo with
    | none => .error .outOfBounds
    | some (_, between) => .ok between

theorem splitAtByte_zero (s : Str) : splitAtByte 0 s = some ([], s) := by
  cases s <;> rfl

theorem splitAtByte_append (a t : Str) (n : Nat) :
    splitAtByte (len a + n) (a ++ t) = (splitAtByte n t).map fun p => (a ++ p.1, p.2) := by
  induction a with
  | nil => simp [len]
  | cons c a ih =>
    have hc := c.utf8Size_pos
    rw [len_cons, List.cons_append, splitAtByte, if_neg (by omega), if_pos (by omega),
      show c.utf8Size + len a + n - c.utf8Size = len a + n by omega, ih, Option.map_map]
    rfl

/-- A slice that starts where `a` ends. -/
theorem strSlice_append (a t : Str) (n : Nat) :
    strSlice (a ++ t) (len a) (len a + n) =
      match splitAtByte n t with
      | none => .error .outOfBounds
      | some (x, _) => .ok x := by
  rw [strSlice, splitAtByte_append]
  cases splitAtByte n t with
  | none => rfl
  | some p =>
    have h := splitAtByte_append a p.1 0
    rw [Nat.add_zero, splitAtByte_zero] at h
    simp only [Option.map_some, h]

/-! ## Digits -/

/-- The digits of an octet, with what was read before them. -/
def parseDigits (acc : Nat) : Bytes → Option UInt8
  | [] => some (UInt8.ofNat acc)
  | b :: rest =>
    match digitValue (Char.ofNat b.toNat) with
    | none => none
    | some d => if 16 * acc + d < 256 then parseDigits (16 * acc + d) rest else none

/-- `u8::from_str_radix(src, 16)`. -/
def u8FromStrRadix16 (src : Str) : Option UInt8 :=
  match asBytes src with
  | [] => none
  | b :: rest =>
    -- a sign alone is no number, and a type without a sign admits only the plus
    if (b = 43 ∨ b = 45) ∧ rest = [] then none
    else if b = 43 then parseDigits 0 rest
    else parseDigits 0 (b :: rest)

theorem digitValue_plus : digitValue '+' = none := by
  decide

theorem toNat_ofNat_toNat (b : UInt8) : (Char.ofNat b.toNat).toNat = b.toNat := by
  have hb := b.toNat_lt
  rw [Char.ofNat, dif_pos (Or.inl (by omega))]
  rfl

theorem utf8Size_eq_one_iff {c : Char} : c.utf8Size = 1 ↔ c.toNat < 128 := by
  rw [Char.utf8Size_eq_one_iff, UInt32.le_iff_toNat_le]
  exact Nat.lt_succ_iff.symm

/-- Reading a digit from an octet of a character is reading it from the character. -/
theorem digitValue_of_mem {c : Char} {b : UInt8} (hb : b ∈ String.utf8EncodeChar c) :
    digitValue (Char.ofNat b.toNat) = digitValue c := by
  by_cases hascii : b.toNat < 128
  · rw [← toNat_eq_of_mem_utf8EncodeChar hb hascii, Char.ofNat_toNat]
  · have hoctet : digitValue (Char.ofNat b.toNat) = none := by
      rw [Option.eq_none_iff_forall_ne_some]
      intro x hx
      have hlt := (digitValue_lt hx).2
      rw [toNat_ofNat_toNat] at hlt
      exact hascii hlt
    rw [hoctet, eq_comm, Option.eq_none_iff_forall_ne_some]
    intro x hx
    have hsize := utf8Size_eq_one_iff.mpr (digitValue_lt hx).2
    rw [String.utf8EncodeChar_eq_singleton hsize, List.mem_singleton] at hb
    have hlt := (digitValue_lt hx).2
    have hnat : b.toNat = c.toNat % 256 := by
      rw [hb]
      rfl
    omega

/-! ## Pairs -/

/-- Two digits and the octet they denote. -/
def HexPair (c d : Char) (v : UInt8) : Prop :=
  ∃ x y, digitValue c = some x ∧ digitValue d = some y ∧ v = UInt8.ofNat (16 * x + y)

/-- Two characters and the octet they are read as. -/
def ReadPair (c d : Char) (v : UInt8) : Prop :=
  HexPair c d v ∨ c = '+' ∧ ∃ y, digitValue d = some y ∧ v = UInt8.ofNat y

/-- A text as pairs of characters, with an octet for each pair. -/
inductive Pairs (R : Char → Char → UInt8 → Prop) : Str → Bytes → Prop
  | nil : Pairs R [] []
  | cons {c d : Char} {v : UInt8} {s : Str} {b : Bytes} : R c d v → Pairs R s b →
      Pairs R (c :: d :: s) (v :: b)

/-- The first two bytes of the text end inside a character. -/
def Cut : Str → Prop
  | [] => False
  | [c] => 3 ≤ c.utf8Size
  | c :: d :: _ => 3 ≤ c.utf8Size ∨ c.utf8Size = 1 ∧ d.utf8Size ≠ 1

instance : DecidablePred Cut
  | [] => inferInstanceAs (Decidable False)
  | [c] => inferInstanceAs (Decidable (3 ≤ c.utf8Size))
  | c :: d :: _ => inferInstanceAs (Decidable (3 ≤ c.utf8Size ∨ c.utf8Size = 1 ∧ d.utf8Size ≠ 1))

/-- The loop `for i in 0..n` that reads `&s[i * 2..i * 2 + 2]` into `out[i]`, from `i` on. -/
def readPairs (s : Str) : (n i : Nat) → Exec (Option (List.Vector UInt8 n))
  | 0, _ => .ok (some .nil)
  | n + 1, i =>
    match strSlice s (i * 2) (i * 2 + 2) with
    | .error e => .error e
    | .ok pair =>
      match u8FromStrRadix16 pair with
      | none => .ok none
      | some v =>
        match readPairs s n (i + 1) with
        | .error e => .error e
        | .ok none => .ok none
        | .ok (some out) => .ok (some (.cons v out))

/-- An octet in two digits. -/
theorem hexPair_hexPad (v : UInt8) : ∃ c d, hexPad 2 v.toNat = [c, d] ∧ HexPair c d v := by
  have hv := v.toNat_lt
  refine ⟨_, _, rfl, v.toNat / 16, v.toNat % 16, ?_, ?_, ?_⟩
  · rw [pow_one]
    exact digitValue_hexDigit (by omega)
  · rw [pow_one, pow_zero, Nat.div_one]
    exact digitValue_hexDigit (by omega)
  · rw [Nat.div_add_mod, UInt8.ofNat_toNat]

theorem readPair_iff {c d : Char} {v : UInt8} : ReadPair c d v ↔ ∃ y, digitValue d = some y ∧
    (c = '+' ∧ v = UInt8.ofNat y ∨ ∃ x, digitValue c = some x ∧ v = UInt8.ofNat (16 * x + y)) := by
  constructor
  · rintro (⟨x, y, hx, hy, rfl⟩ | ⟨rfl, y, hy, rfl⟩)
    · exact ⟨y, hy, Or.inr ⟨x, hx, rfl⟩⟩
    · exact ⟨y, hy, Or.inl ⟨rfl, rfl⟩⟩
  · rintro ⟨y, hy, ⟨rfl, rfl⟩ | ⟨x, hx, rfl⟩⟩
    · exact Or.inr ⟨rfl, y, hy, rfl⟩
    · exact Or.inl ⟨x, y, hx, hy, rfl⟩

/-- One more digit. -/
theorem parseDigits_cons {acc : Nat} {c : Char} {b : UInt8} (hb : b ∈ String.utf8EncodeChar c)
    (hacc : acc < 16) (rest : Bytes) :
    parseDigits acc (b :: rest) = (digitValue c).bind fun d => parseDigits (16 * acc + d) rest := by
  rw [parseDigits, digitValue_of_mem hb]
  cases hd : digitValue c with
  | none => rfl
  | some d =>
    have := (digitValue_lt hd).1
    exact if_pos (by omega)

/-- Two ASCII characters. -/
theorem u8FromStrRadix16_pair {c d : Char} (hc : c.utf8Size = 1) (hd : d.utf8Size = 1)
    (v : UInt8) : u8FromStrRadix16 [c, d] = some v ↔ ReadPair c d v := by
  have hcoctet := String.utf8EncodeChar_eq_singleton hc
  have hdoctet := String.utf8EncodeChar_eq_singleton hd
  have hcmem : c.val.toUInt8 ∈ String.utf8EncodeChar c := hcoctet ▸ List.mem_cons_self
  have hdmem : d.val.toUInt8 ∈ String.utf8EncodeChar d := hdoctet ▸ List.mem_cons_self
  have hplus : c.val.toUInt8 = 43 ↔ c = '+' :=
    eq_iff_of_mem_utf8EncodeChar hcmem (by decide) (by decide)
  have hbytes : asBytes [c, d] = [c.val.toUInt8, d.val.toUInt8] := by
    rw [asBytes_cons, asBytes_cons, hcoctet, hdoctet]
    rfl
  rw [readPair_iff, u8FromStrRadix16, hbytes]
  simp only [List.cons_ne_nil, and_false, if_false, hplus]
  by_cases h : c = '+'
  · rw [if_pos h, parseDigits_cons hdmem (by decide), Option.bind_eq_some_iff]
    simp [h, digitValue_plus, parseDigits, @eq_comm _ v]
  · rw [if_neg h, parseDigits_cons hcmem (by decide)]
    cases hx : digitValue c with
    | none => simp [h]
    | some x =>
      rw [Option.bind_some, parseDigits_cons hdmem (by have := (digitValue_lt hx).1; omega),
        Option.bind_eq_some_iff]
      simp [h, parseDigits, @eq_comm _ v]

/-- A character of two bytes is no number. -/
theorem u8FromStrRadix16_single {c : Char} (hc : c.utf8Size = 2) : u8FromStrRadix16 [c] = none := by
  have hnone : digitValue c = none := by
    rw [Option.eq_none_iff_forall_ne_some]
    intro x hx
    have := utf8Size_eq_one_iff.mpr (digitValue_lt hx).2
    omega
  have hlength : (String.utf8EncodeChar c).length = 2 := by
    rw [String.length_utf8EncodeChar, hc]
  obtain ⟨b, b', hbytes⟩ := List.length_eq_two.mp hlength
  have hbmem : b ∈ String.utf8EncodeChar c := hbytes ▸ List.mem_cons_self
  have hplus : b = 43 ↔ c = '+' :=
    eq_iff_of_mem_utf8EncodeChar hbmem (by decide) (by decide)
  have hne : c ≠ '+' := by
    rintro rfl
    exact absurd hc (by decide)
  rw [u8FromStrRadix16, asBytes_cons, hbytes]
  simp [hplus, hne, parseDigits_cons hbmem, hnone]

theorem ReadPair.utf8Size {c d : Char} {v : UInt8} (h : ReadPair c d v) :
    c.utf8Size = 1 ∧ d.utf8Size = 1 := by
  obtain ⟨y, hy, ⟨rfl, -⟩ | ⟨x, hx, -⟩⟩ := readPair_iff.mp h
  · exact ⟨by decide, utf8Size_eq_one_iff.mpr (digitValue_lt hy).2⟩
  · exact ⟨utf8Size_eq_one_iff.mpr (digitValue_lt hx).2,
      utf8Size_eq_one_iff.mpr (digitValue_lt hy).2⟩

theorem ReadPair.unique {c d : Char} {v w : UInt8} (hv : ReadPair c d v) (hw : ReadPair c d w) :
    v = w := by
  obtain ⟨hc, hd⟩ := hv.utf8Size
  have hread := (u8FromStrRadix16_pair hc hd v).mpr hv
  rw [(u8FromStrRadix16_pair hc hd w).mpr hw] at hread
  exact (Option.some_inj.mp hread).symm

theorem ReadPair.not_cut {c d : Char} {v : UInt8} (h : ReadPair c d v) (r : Str) :
    ¬Cut (c :: d :: r) := by
  obtain ⟨hc, hd⟩ := h.utf8Size
  rw [Cut, hc, hd]
  omega

/-- What a run of the loop meets first. -/
theorem splitAtByte_two_cases {t : Str} (ht : 2 ≤ len t) :
    Cut t ∧ splitAtByte 2 t = none ∨
      (∃ c r, t = c :: r ∧ c.utf8Size = 2 ∧ splitAtByte 2 t = some ([c], r)) ∨
      ∃ c d r, t = c :: d :: r ∧ c.utf8Size = 1 ∧ d.utf8Size = 1 ∧
        splitAtByte 2 t = some ([c, d], r) := by
  cases t with
  | nil => exact absurd ht (by decide)
  | cons c s =>
    have hpos := c.utf8Size_pos
    rcases Nat.lt_or_ge c.utf8Size 3 with hlt | hge
    · obtain hone | htwo : c.utf8Size = 1 ∨ c.utf8Size = 2 := by omega
      · cases s with
        | nil =>
          rw [len_cons, hone] at ht
          exact absurd ht (by decide)
        | cons d r =>
          have hdpos := d.utf8Size_pos
          by_cases hd : d.utf8Size = 1
          · refine Or.inr (Or.inr ⟨c, d, r, rfl, hone, hd, ?_⟩)
            simp [splitAtByte, hone, hd, splitAtByte_zero]
          · refine Or.inl ⟨Or.inr ⟨hone, hd⟩, ?_⟩
            simp [splitAtByte, hone, show ¬d.utf8Size ≤ 1 by omega]
      · refine Or.inr (Or.inl ⟨c, s, rfl, htwo, ?_⟩)
        simp [splitAtByte, htwo, splitAtByte_zero]
    · refine Or.inl ⟨?_, ?_⟩
      · cases s with
        | nil => exact hge
        | cons d r => exact Or.inl hge
      · simp [splitAtByte, show ¬c.utf8Size ≤ 2 by omega]

/-- One round of the loop, with `a` behind it and `t` before it. -/
theorem readPairs_cases {a t : Str} {n i : Nat} (ha : len a = i * 2) (ht : len t = (n + 1) * 2) :
    Cut t ∧ readPairs (a ++ t) (n + 1) i = .error .outOfBounds ∨
      ¬Cut t ∧ (∀ c d r v, t = c :: d :: r → ¬ReadPair c d v) ∧
        readPairs (a ++ t) (n + 1) i = .ok none ∨
      ∃ c d r v, t = c :: d :: r ∧ ReadPair c d v ∧ len (a ++ [c, d]) = (i + 1) * 2 ∧
        len r = n * 2 ∧ readPairs (a ++ t) (n + 1) i =
          (readPairs (a ++ [c, d] ++ r) n (i + 1)).map (Option.map (.cons v)) := by
  have hslice := strSlice_append a t 2
  rw [ha] at hslice
  rcases splitAtByte_two_cases (t := t) (by omega) with
    ⟨hcut, hsplit⟩ | ⟨c, r, rfl, hc, hsplit⟩ | ⟨c, d, r, rfl, hc, hd, hsplit⟩
  · refine Or.inl ⟨hcut, ?_⟩
    rw [hsplit] at hslice
    rw [readPairs, hslice]
  · refine Or.inr (Or.inl ⟨?_, ?_, ?_⟩)
    · cases r with
      | nil =>
        rw [Cut]
        omega
      | cons d r =>
        rw [Cut]
        omega
    · rintro c' d r' v heq hread
      have := hread.utf8Size.1
      rw [(List.cons.inj heq).1] at hc
      omega
    · rw [hsplit] at hslice
      simp only [readPairs, hslice, u8FromStrRadix16_single hc]
  · rw [hsplit] at hslice
    cases hread : u8FromStrRadix16 [c, d] with
    | none =>
      refine Or.inr (Or.inl ⟨?_, ?_, ?_⟩)
      · rw [Cut]
        omega
      · rintro c' d' r' v heq hpair
        obtain ⟨rfl, htail⟩ := List.cons.inj heq
        obtain ⟨rfl, rfl⟩ := List.cons.inj htail
        rw [(u8FromStrRadix16_pair hc hd v).mpr hpair] at hread
        exact absurd hread (by simp)
      · simp only [readPairs, hslice, hread]
    | some v =>
      have hpair := (u8FromStrRadix16_pair hc hd v).mp hread
      rw [len_cons, len_cons, hc, hd] at ht
      refine Or.inr (Or.inr ⟨c, d, r, v, rfl, hpair, ?_, by omega, ?_⟩)
      · rw [len_append, len_cons, len_cons, hc, hd, ha]
        change i * 2 + (1 + (1 + 0)) = (i + 1) * 2
        omega
      · rw [show a ++ [c, d] ++ r = a ++ c :: d :: r by simp]
        simp only [readPairs, hslice, hread]
        rcases readPairs (a ++ c :: d :: r) n (i + 1) with e | _ | out <;> rfl

/-! ## The loop -/

/-- Pairs that are read, and then two bytes that end inside a character. -/
def CutAfterPairs (t : Str) : Prop :=
  ∃ p b r, t = p ++ r ∧ Pairs ReadPair p b ∧ Cut r

/-- The loop faults on the text, or reads it with a plus sign in it. -/
def Misread (t : Str) : Prop :=
  CutAfterPairs t ∨ '+' ∈ t ∧ ∃ b, Pairs ReadPair t b

theorem Pairs.length_eq {R : Char → Char → UInt8 → Prop} {t : Str} {b : Bytes}
    (h : Pairs R t b) : t.length = b.length * 2 := by
  induction h with
  | nil => rfl
  | cons _ _ ih =>
    rw [List.length_cons, List.length_cons, List.length_cons, ih]
    omega

theorem Pairs.head {R : Char → Char → UInt8 → Prop} {c d : Char} {t : Str} {b : Bytes}
    (h : Pairs R (c :: d :: t) b) : ∃ v, R c d v := by
  obtain _ | ⟨hpair, -⟩ := h
  exact ⟨_, hpair⟩

theorem Pairs.len_eq {t : Str} {b : Bytes} (h : Pairs ReadPair t b) : len t = b.length * 2 := by
  induction h with
  | nil => rfl
  | cons hpair _ ih =>
    rw [len_cons, len_cons, hpair.utf8Size.1, hpair.utf8Size.2, ih, List.length_cons]
    omega

theorem pairs_cons_iff {c d : Char} {v : UInt8} {r : Str} (hpair : ReadPair c d v) {b : Bytes} :
    Pairs ReadPair (c :: d :: r) b ↔ ∃ b', b = v :: b' ∧ Pairs ReadPair r b' := by
  constructor
  · rintro (_ | ⟨hread, hrest⟩)
    exact ⟨_, by rw [hpair.unique hread], hrest⟩
  · rintro ⟨b', rfl, hrest⟩
    exact .cons hpair hrest

theorem not_pairs {t : Str} {b : Bytes} (hne : len t ≠ 0)
    (hno : ∀ c d r v, t = c :: d :: r → ¬ReadPair c d v) : ¬Pairs ReadPair t b := by
  rintro (_ | ⟨hread, _⟩)
  · exact hne rfl
  · exact hno _ _ _ _ rfl hread

theorem cutAfterPairs_cons_iff {c d : Char} {v : UInt8} {r : Str} (hpair : ReadPair c d v) :
    CutAfterPairs (c :: d :: r) ↔ CutAfterPairs r := by
  constructor
  · rintro ⟨p, b, r', heq, hp, hcut⟩
    cases hp with
    | nil =>
      rw [List.nil_append] at heq
      exact absurd (heq ▸ hcut) (hpair.not_cut r)
    | cons hread hp =>
      obtain ⟨-, htail⟩ := List.cons.inj heq
      exact ⟨_, _, r', (List.cons.inj htail).2, hp, hcut⟩
  · rintro ⟨p, b, r', rfl, hp, hcut⟩
    exact ⟨c :: d :: p, v :: b, r', rfl, .cons hpair hp, hcut⟩

theorem eq_nil_of_len {t : Str} (ht : len t = 0) : t = [] :=
  List.length_eq_zero_iff.mp (Nat.le_zero.mp (ht ▸ length_le_len t))

/-- The octets that the loop reads. -/
theorem readPairs_eq_some_iff : ∀ {n i : Nat} {a t : Str} {out : List.Vector UInt8 n},
    len a = i * 2 → len t = n * 2 →
      (readPairs (a ++ t) n i = .ok (some out) ↔ Pairs ReadPair t out.toList)
  | 0, i, a, t, out, _, ht => by
    obtain rfl := eq_nil_of_len (by omega : len t = 0)
    rw [out.eq_nil]
    exact ⟨fun _ => .nil, fun _ => rfl⟩
  | n + 1, i, a, t, out, ha, ht => by
    rcases readPairs_cases ha ht with
      ⟨hcut, hrun⟩ | ⟨-, hnone, hrun⟩ | ⟨c, d, r, v, rfl, hpair, ha', hr, hrun⟩
    · rw [hrun]
      refine ⟨fun h => absurd h (by simp), fun h => absurd h (not_pairs (by omega) ?_)⟩
      rintro c d r v rfl hread
      exact hread.not_cut r hcut
    · rw [hrun]
      exact ⟨fun h => absurd h (by simp), fun h => absurd h (not_pairs (by omega) hnone)⟩
    · have ih : ∀ out' : List.Vector UInt8 n, readPairs (a ++ [c, d] ++ r) n (i + 1) =
          .ok (some out') ↔ Pairs ReadPair r out'.toList :=
        fun _ => readPairs_eq_some_iff ha' hr
      rw [hrun, pairs_cons_iff hpair]
      constructor
      · intro h
        rcases hnext : readPairs (a ++ [c, d] ++ r) n (i + 1) with e | _ | out'
        · rw [hnext] at h
          exact absurd h (by simp [Except.map])
        · rw [hnext] at h
          exact absurd h (by simp [Except.map])
        · rw [hnext] at h
          obtain rfl : .cons v out' = out := Option.some_inj.mp (Except.ok.inj h)
          exact ⟨out'.toList, by rw [List.Vector.toList_cons], (ih out').mp hnext⟩
      · rintro ⟨b', hb, hrest⟩
        have hlength : b'.length = n := by
          have := congrArg List.length hb
          rw [out.toList_length, List.length_cons] at this
          omega
        rw [(ih ⟨b', hlength⟩).mpr hrest]
        exact congrArg (fun o => Except.ok (some o)) (List.Vector.toList_injective hb.symm)

/-- The loop faults exactly on two bytes that end inside a character, after pairs that it reads. -/
theorem readPairs_ok_iff : ∀ {n i : Nat} {a t : Str}, len a = i * 2 → len t = n * 2 →
    ((∃ r, readPairs (a ++ t) n i = .ok r) ↔ ¬CutAfterPairs t)
  | 0, i, a, t, _, ht => by
    obtain rfl := eq_nil_of_len (by omega : len t = 0)
    refine ⟨fun _ => ?_, fun _ => ⟨_, rfl⟩⟩
    rintro ⟨p, b, r, heq, -, hcut⟩
    obtain ⟨-, rfl⟩ := List.append_eq_nil_iff.mp heq.symm
    exact hcut
  | n + 1, i, a, t, ha, ht => by
    rcases readPairs_cases ha ht with
      ⟨hcut, hrun⟩ | ⟨hcut, hnone, hrun⟩ | ⟨c, d, r, v, rfl, hpair, ha', hr, hrun⟩
    · rw [hrun]
      refine ⟨fun h => absurd h (by simp), fun h => absurd ?_ h⟩
      exact ⟨[], [], t, rfl, .nil, hcut⟩
    · rw [hrun]
      refine ⟨fun _ => ?_, fun _ => ⟨_, rfl⟩⟩
      rintro ⟨p, b, r, rfl, hp, hr⟩
      cases hp with
      | nil => exact hcut hr
      | cons hread => exact hnone _ _ _ _ rfl hread
    · rw [hrun, cutAfterPairs_cons_iff hpair, ← readPairs_ok_iff ha' hr]
      rcases readPairs (a ++ [c, d] ++ r) n (i + 1) with e | out <;> simp [Except.map]

/-- Digits are what is read without a plus sign. -/
theorem pairs_hexPair_iff {t : Str} {b : Bytes} :
    Pairs HexPair t b ↔ Pairs ReadPair t b ∧ '+' ∉ t := by
  constructor
  · intro h
    induction h with
    | nil => exact ⟨.nil, by simp⟩
    | cons hpair _ ih =>
      obtain ⟨x, y, hx, hy, -⟩ := id hpair
      refine ⟨.cons (Or.inl hpair) ih.1, ?_⟩
      rw [List.mem_cons, List.mem_cons]
      rintro (rfl | rfl | hmem)
      · exact absurd hx (by simp [digitValue_plus])
      · exact absurd hy (by simp [digitValue_plus])
      · exact ih.2 hmem
  · rintro ⟨h, hplus⟩
    induction h with
    | nil => exact .nil
    | cons hpair _ ih =>
      rw [List.mem_cons, List.mem_cons, not_or, not_or] at hplus
      rcases hpair with hpair | ⟨rfl, -⟩
      · exact .cons hpair (ih hplus.2.2)
      · exact absurd rfl hplus.1

/-- When the loop is a reader of digits that does not fault. -/
theorem readPairs_exact_iff {n : Nat} {t : Str} (ht : len t = n * 2) :
    ((∃ r, readPairs t n 0 = .ok r) ∧
      ∀ out, readPairs t n 0 = .ok (some out) ↔ Pairs HexPair t out.toList) ↔ ¬Misread t := by
  have hok : (∃ r, readPairs t n 0 = .ok r) ↔ ¬CutAfterPairs t :=
    readPairs_ok_iff (a := []) (by rfl) ht
  have hsome : ∀ out, readPairs t n 0 = .ok (some out) ↔ Pairs ReadPair t out.toList :=
    fun out => readPairs_eq_some_iff (a := []) (by rfl) ht
  rw [Misread, not_or, hok, and_congr_right_iff]
  intro _
  simp only [hsome, pairs_hexPair_iff]
  constructor
  · rintro h ⟨hplus, b, hb⟩
    have hlength : b.length = n := by
      have := hb.len_eq
      omega
    exact ((h ⟨b, hlength⟩).mp hb).2 hplus
  · intro h out
    exact ⟨fun hread => ⟨hread, fun hplus => h ⟨hplus, _, hread⟩⟩, And.left⟩

end HexText
