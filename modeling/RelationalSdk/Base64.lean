import RelationalSdk.Text

/-!
# Base64

Three octets are four sextets, and one or two octets at the end are two or three sextets whose last
bits are zero (`sextets`). An alphabet writes sextets as characters, and a codec is an alphabet
with the choice whether the text is padded with `=` to a multiple of four characters.

The decoders are strict : only characters of their own alphabet, exactly the padding of the codec,
and zeros in the bits that encode nothing. `decode_eq_some_iff` : a strict decoder accepts exactly
the texts that its encoder writes. `encode_inj` : two codecs whose alphabets do not use one
character for different sextets do not write one text for different byte strings.
-/

namespace Base64

open Text

/-! ## Sextets -/

/-- The low six bits. -/
def sextet (n : Nat) : Fin 64 :=
  Fin.ofNat 64 n

/-- The sextets of a byte string, the highest bits first. -/
def sextets : Bytes → List (Fin 64)
  | [] => []
  | [a] => [sextet (a.toNat / 4), sextet (a.toNat * 16)]
  | [a, b] =>
    [sextet (a.toNat / 4), sextet (a.toNat * 16 + b.toNat / 16), sextet (b.toNat * 4)]
  | a :: b :: c :: rest =>
    sextet (a.toNat / 4) :: sextet (a.toNat * 16 + b.toNat / 16) ::
      sextet (b.toNat * 4 + c.toNat / 64) :: sextet c.toNat :: sextets rest

/-- The byte string with the given sextets, if there is one. -/
def bytesOf : List (Fin 64) → Option Bytes
  | [] => some []
  | [_] => none
  | [x, y] => if y.val % 16 = 0 then some [UInt8.ofNat (x.val * 4 + y.val / 16)] else none
  | [x, y, z] =>
    if z.val % 4 = 0 then
      some [UInt8.ofNat (x.val * 4 + y.val / 16), UInt8.ofNat (y.val * 16 + z.val / 4)]
    else none
  | x :: y :: z :: w :: rest =>
    (bytesOf rest).map fun b =>
      UInt8.ofNat (x.val * 4 + y.val / 16) :: UInt8.ofNat (y.val * 16 + z.val / 4) ::
        UInt8.ofNat (z.val * 64 + w.val) :: b

theorem val_sextet (n : Nat) : (sextet n).val = n % 64 :=
  rfl

theorem sextet_eq {n : Nat} {x : Fin 64} (h : n % 64 = x.val) : sextet n = x :=
  Fin.ext h

theorem ofNat_eq {n : Nat} {a : UInt8} (h : n % 256 = a.toNat) : UInt8.ofNat n = a := by
  rw [← UInt8.toNat_inj, UInt8.toNat_ofNat']
  exact h

theorem bytesOf_sextets (b : Bytes) : bytesOf (sextets b) = some b := by
  fun_induction sextets b with
  | case1 => rfl
  | case2 a =>
    have ha := a.toNat_lt
    have h0 : UInt8.ofNat (a.toNat / 4 % 64 * 4 + a.toNat * 16 % 64 / 16) = a :=
      ofNat_eq (by omega)
    simp only [bytesOf, val_sextet, h0]
    exact if_pos (by omega)
  | case3 a b =>
    have ha := a.toNat_lt
    have hb := b.toNat_lt
    have h0 : UInt8.ofNat (a.toNat / 4 % 64 * 4 + (a.toNat * 16 + b.toNat / 16) % 64 / 16) = a :=
      ofNat_eq (by omega)
    have h1 : UInt8.ofNat ((a.toNat * 16 + b.toNat / 16) % 64 * 16 + b.toNat * 4 % 64 / 4) = b :=
      ofNat_eq (by omega)
    simp only [bytesOf, val_sextet, h0, h1]
    exact if_pos (by omega)
  | case4 a b c rest ih =>
    have ha := a.toNat_lt
    have hb := b.toNat_lt
    have hc := c.toNat_lt
    have h0 : UInt8.ofNat (a.toNat / 4 % 64 * 4 + (a.toNat * 16 + b.toNat / 16) % 64 / 16) = a :=
      ofNat_eq (by omega)
    have h1 : UInt8.ofNat ((a.toNat * 16 + b.toNat / 16) % 64 * 16 +
        (b.toNat * 4 + c.toNat / 64) % 64 / 4) = b :=
      ofNat_eq (by omega)
    have h2 : UInt8.ofNat ((b.toNat * 4 + c.toNat / 64) % 64 * 64 + c.toNat % 64) = c :=
      ofNat_eq (by omega)
    simp only [bytesOf, val_sextet, h0, h1, h2, ih, Option.map_some]

theorem sextets_of_bytesOf {vs : List (Fin 64)} {b : Bytes} (h : bytesOf vs = some b) :
    sextets b = vs := by
  fun_induction bytesOf vs generalizing b with
  | case1 =>
    obtain rfl := Option.some_inj.mp h
    rfl
  | case2 => cases h
  | case3 x y hzero =>
    obtain rfl := Option.some_inj.mp h
    have hx := x.isLt
    have hy := y.isLt
    simp only [sextets, UInt8.toNat_ofNat', List.cons.injEq, and_true]
    exact ⟨sextet_eq (by omega), sextet_eq (by omega)⟩
  | case4 => cases h
  | case5 x y z hzero =>
    obtain rfl := Option.some_inj.mp h
    have hx := x.isLt
    have hy := y.isLt
    have hz := z.isLt
    simp only [sextets, UInt8.toNat_ofNat', List.cons.injEq, and_true]
    exact ⟨sextet_eq (by omega), sextet_eq (by omega), sextet_eq (by omega)⟩
  | case6 => cases h
  | case7 x y z w rest ih =>
    obtain ⟨b', hb', rfl⟩ := Option.map_eq_some_iff.mp h
    have hx := x.isLt
    have hy := y.isLt
    have hz := z.isLt
    have hw := w.isLt
    simp only [sextets, UInt8.toNat_ofNat', List.cons.injEq]
    exact ⟨sextet_eq (by omega), sextet_eq (by omega), sextet_eq (by omega), sextet_eq (by omega),
      ih hb'⟩

theorem bytesOf_eq_some_iff {vs : List (Fin 64)} {b : Bytes} :
    bytesOf vs = some b ↔ vs = sextets b := by
  refine ⟨fun h => (sextets_of_bytesOf h).symm, ?_⟩
  rintro rfl
  exact bytesOf_sextets b

/-! ## Codecs -/

/-- A character for each sextet, none of them the padding. -/
structure Alphabet where
  char : Fin 64 → Char
  char_injective : Function.Injective char
  char_ne_pad : ∀ v, char v ≠ '='

/-- The sextet that a character stands for. -/
def Alphabet.value (a : Alphabet) (c : Char) : Option (Fin 64) :=
  (List.finRange 64).find? fun v => a.char v = c

/-- An alphabet, and whether texts are padded. -/
structure Codec where
  alphabet : Alphabet
  padded : Bool

/-- The padding behind `n` characters. -/
def Codec.padding (e : Codec) (n : Nat) : Str :=
  if e.padded then List.replicate ((4 - n % 4) % 4) '=' else []

def Codec.encode (e : Codec) (b : Bytes) : Str :=
  (sextets b).map e.alphabet.char ++ e.padding (sextets b).length

/-- A strict decoder. -/
def Codec.decode (e : Codec) (s : Str) : Option Bytes :=
  let body := s.takeWhile (· ≠ '=')
  if s.dropWhile (· ≠ '=') = e.padding body.length then
    (body.mapM e.alphabet.value).bind bytesOf
  else none

theorem Alphabet.value_eq_some_iff {a : Alphabet} {c : Char} {v : Fin 64} :
    a.value c = some v ↔ a.char v = c := by
  constructor
  · intro h
    simpa using List.find?_some h
  · rintro rfl
    have hfind : ((List.finRange 64).find? fun w => a.char w = a.char v).isSome :=
      List.find?_isSome.mpr ⟨v, List.mem_finRange v, by simp⟩
    obtain ⟨w, hw⟩ := Option.isSome_iff_exists.mp hfind
    have hchar : a.char w = a.char v := by simpa using List.find?_some hw
    rw [value, hw, a.char_injective hchar]

theorem Alphabet.mapM_value_eq_some_iff {a : Alphabet} {s : Str} {vs : List (Fin 64)} :
    s.mapM a.value = some vs ↔ s = vs.map a.char := by
  induction s generalizing vs with
  | nil =>
    rw [List.mapM_nil, Option.pure_def, Option.some_inj, eq_comm (b := vs), eq_comm (a := []),
      List.map_eq_nil_iff]
  | cons c s ih =>
    simp only [List.mapM_cons, Option.bind_eq_bind, Option.bind_eq_some_iff, Option.pure_def,
      Option.some_inj, ih, value_eq_some_iff]
    rw [eq_comm (a := c :: s), List.map_eq_cons_iff]
    constructor
    · rintro ⟨v, hv, ws, rfl, rfl⟩
      exact ⟨v, ws, rfl, hv, rfl⟩
    · rintro ⟨v, ws, rfl, hv, hws⟩
      exact ⟨v, hv, ws, hws.symm, rfl⟩

theorem Alphabet.map_char_ne_pad {a : Alphabet} {vs : List (Fin 64)} :
    ∀ c ∈ vs.map a.char, c ≠ '=' := by
  intro c hc
  obtain ⟨v, -, rfl⟩ := List.mem_map.mp hc
  exact a.char_ne_pad v

/-! ## What a decoder accepts -/

theorem Codec.eq_pad_of_mem {e : Codec} {n : Nat} {c : Char} (h : c ∈ e.padding n) :
    c = '=' := by
  unfold padding at h
  split_ifs at h
  · exact List.eq_of_mem_replicate h
  · cases h

/-- The characters of a text end where its padding starts. -/
theorem Codec.span_encode (e : Codec) (b : Bytes) :
    (e.encode b).takeWhile (· ≠ '=') = (sextets b).map e.alphabet.char ∧
      (e.encode b).dropWhile (· ≠ '=') = e.padding (sextets b).length := by
  refine span_append (by simpa using Alphabet.map_char_ne_pad) fun c hc => ?_
  rw [eq_pad_of_mem (List.mem_of_head? hc)]
  rfl

/-- A strict decoder accepts exactly the texts its encoder writes. -/
theorem Codec.decode_eq_some_iff {e : Codec} {s : Str} {b : Bytes} :
    e.decode s = some b ↔ s = e.encode b := by
  constructor
  · intro h
    simp only [decode] at h
    split_ifs at h with hpad
    obtain ⟨vs, hvs, hb⟩ := Option.bind_eq_some_iff.mp h
    rw [Alphabet.mapM_value_eq_some_iff] at hvs
    rw [bytesOf_eq_some_iff] at hb
    rw [hvs, hb, List.length_map] at hpad
    rw [← List.takeWhile_append_dropWhile (p := (· ≠ '=')) (l := s), hpad, hvs, hb, encode]
  · rintro rfl
    obtain ⟨hbody, hpad⟩ := e.span_encode b
    simp only [decode]
    rw [hbody, hpad, List.length_map, if_pos rfl, Alphabet.mapM_value_eq_some_iff.mpr rfl]
    exact bytesOf_sextets b

theorem Codec.decode_encode (e : Codec) (b : Bytes) : e.decode (e.encode b) = some b :=
  decode_eq_some_iff.mpr rfl

/-- A character that both alphabets use stands for the same sextet in both. -/
def Alphabet.Agree (a b : Alphabet) : Prop :=
  ∀ v w, a.char v = b.char w → v = w

theorem Alphabet.Agree.refl (a : Alphabet) : a.Agree a :=
  fun _ _ h => a.char_injective h

theorem Alphabet.Agree.symm {a b : Alphabet} (h : a.Agree b) : b.Agree a :=
  fun v w hchar => (h w v hchar.symm).symm

theorem Alphabet.Agree.map_inj {a b : Alphabet} (h : a.Agree b) {vs ws : List (Fin 64)}
    (hmap : vs.map a.char = ws.map b.char) : vs = ws := by
  induction vs generalizing ws with
  | nil => exact (List.map_eq_nil_iff.mp hmap.symm).symm
  | cons v vs ih =>
    obtain ⟨w, ws, rfl, hw, hws⟩ := List.map_eq_cons_iff.mp hmap.symm
    rw [h v w hw.symm, ih hws.symm]

/-- Codecs whose alphabets agree write no common text for different byte strings. -/
theorem Codec.encode_inj {e f : Codec} (h : e.alphabet.Agree f.alphabet) {b c : Bytes}
    (htext : e.encode b = f.encode c) : b = c := by
  have hmap : (sextets b).map e.alphabet.char = (sextets c).map f.alphabet.char := by
    rw [← (e.span_encode b).1, ← (f.span_encode c).1, htext]
  rw [← Option.some_inj, ← bytesOf_sextets b, h.map_inj hmap, bytesOf_sextets]

/-! ## The two alphabets in use -/

/-- The letters, the digits, and two more characters. -/
def alphabetWith (c62 c63 : Char) (v : Fin 64) : Char :=
  ("ABCDEFGHIJKLMNOPQRSTUVWXYZabcdefghijklmnopqrstuvwxyz0123456789".toList ++ [c62, c63])[v]

/-- The sextet of a character, with the additional characters of both alphabets. -/
def sextetOf (c : Char) : Nat :=
  if c.isUpper then c.toNat - 65
  else if c.isLower then c.toNat - 71
  else if c.isDigit then c.toNat + 4
  else if c = '+' ∨ c = '-' then 62
  else 63

theorem sextetOf_standard : ∀ v, sextetOf (alphabetWith '+' '/' v) = v.val := by
  decide +kernel

theorem sextetOf_urlSafe : ∀ v, sextetOf (alphabetWith '-' '_' v) = v.val := by
  decide +kernel

theorem injective_of_sextetOf {char : Fin 64 → Char} (h : ∀ v, sextetOf (char v) = v.val) :
    Function.Injective char :=
  fun v w hchar => Fin.ext (by rw [← h v, ← h w, hchar])

def standardAlphabet : Alphabet where
  char := alphabetWith '+' '/'
  char_injective := injective_of_sextetOf sextetOf_standard
  char_ne_pad := by decide +kernel

def urlSafeAlphabet : Alphabet where
  char := alphabetWith '-' '_'
  char_injective := injective_of_sextetOf sextetOf_urlSafe
  char_ne_pad := by decide +kernel

theorem standardAlphabet_agree_urlSafeAlphabet : standardAlphabet.Agree urlSafeAlphabet := by
  intro v w hchar
  have hv : sextetOf (standardAlphabet.char v) = v.val := sextetOf_standard v
  have hw : sextetOf (urlSafeAlphabet.char w) = w.val := sextetOf_urlSafe w
  exact Fin.ext (by rw [← hv, ← hw, hchar])

def standard : Codec := ⟨standardAlphabet, true⟩

def standardNoPad : Codec := ⟨standardAlphabet, false⟩

def urlSafe : Codec := ⟨urlSafeAlphabet, true⟩

def urlSafeNoPad : Codec := ⟨urlSafeAlphabet, false⟩

example : standard.encode [255, 254] = "//4=".toList := by decide +kernel

example : urlSafeNoPad.decode "__4".toList = some [255, 254] := by decide +kernel

end Base64
