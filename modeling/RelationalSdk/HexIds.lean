import RelationalSdk.Domain
import RelationalSdk.HexText

/-!
# Hexadecimal identifiers

`parse_code_hash` reads the hash of a script from a request, and `decode_right_id` the identifier of
a right from the metadata of a pool. Both compare the length of the text in bytes and then read each
two bytes with `u8::from_str_radix`. The length in bytes says nothing about the ends of characters,
and `from_str_radix` admits a plus sign, so both can panic and both admit texts that are not
hexadecimal.

`hexIdsExact_iff` : the two functions are exact and do not panic, except on the texts of the right
length that the loop misreads (`HexText.Misread`).
-/

namespace RelationalSdk

open Text IndexLoops HexText

/-! ## The readers -/

/-- The bytes in a text of pairs, with the errors for a wrong length and for a pair that is no
number. -/
def decodeHex (n : Nat) (wrongLength invalid : ApiError) (hex : Str) :
    Exec (Except ApiError (List.Vector UInt8 n)) :=
  if len hex ≠ n * 2 then .ok (.error wrongLength)
  else
    match readPairs hex n 0 with
    | .error e => .error e
    | .ok none => .ok (.error invalid)
    | .ok (some out) => .ok (.ok out)

/-- `hex.strip_prefix("0x").unwrap_or(hex)`. -/
def clean : Str → Str
  | '0' :: 'x' :: rest => rest
  | hex => hex

/-- Parse a hash of 32 bytes : an empty text is all zeros. -/
def parseCodeHash (hex : Str) : Exec (Except ApiError (List.Vector UInt8 32)) :=
  if hex = [] then .ok (.ok (.replicate 32 0))
  else
    decodeHex 32 (.badRequest "code_hash must be exactly 64 hex characters")
      (.badRequest "code_hash contains invalid hex") (clean hex)

/-- Decode an identifier of 16 bytes, a `right_id` or a `pool_uuid`. -/
def decodeRightId (hex : Str) : Exec (Except ApiError (List.Vector UInt8 16)) :=
  decodeHex 16 (.internal "expected 32-char hex (16 bytes)")
    (.internal "invalid hex in 16-byte id") hex

/-! ## What they are to read -/

/-- The text is empty, or 64 digits behind an optional `0x`. -/
def CodeHashOf (s : Str) (h : List.Vector UInt8 32) : Prop :=
  s = [] ∧ h = .replicate 32 0 ∨
    ∃ digits, (s = digits ∨ s = '0' :: 'x' :: digits) ∧ digits.length = 64 ∧
      Pairs HexPair digits h.toList

/-- The text is 32 digits. -/
def RightIdOf (s : Str) (r : List.Vector UInt8 16) : Prop :=
  s.length = 32 ∧ Pairs HexPair s r.toList

/-- A reader does not panic on the text, and returns what is specified and nothing else. -/
def Exact {α : Type} (read : Str → Exec (Except ApiError α)) (spec : Str → α → Prop) (s : Str) :
    Prop :=
  (∃ r, read s = .ok r) ∧ ∀ a, read s = .ok (.ok a) ↔ spec s a

/-! ## Results -/

section Decoding

variable {n : Nat} {wrongLength invalid : ApiError} {s : Str}

theorem decodeHex_of_len_ne (hlen : len s ≠ n * 2) :
    decodeHex n wrongLength invalid s = .ok (.error wrongLength) :=
  if_pos hlen

theorem decodeHex_of_len (hlen : len s = n * 2) : decodeHex n wrongLength invalid s =
    (readPairs s n 0).map fun out => out.elim (.error invalid) .ok := by
  rw [decodeHex, if_neg (not_not.mpr hlen)]
  rcases readPairs s n 0 with e | _ | out <;> rfl

theorem decodeHex_exact_iff :
    Exact (decodeHex n wrongLength invalid) (fun s out => Pairs HexPair s out.toList) s ↔
      ¬(len s = n * 2 ∧ Misread s) := by
  by_cases hlen : len s = n * 2
  · have hok : (∃ r, decodeHex n wrongLength invalid s = .ok r) ↔
        ∃ r, readPairs s n 0 = .ok r := by
      rw [decodeHex_of_len hlen]
      rcases readPairs s n 0 with e | out <;> simp [Except.map]
    have hsome : ∀ out, decodeHex n wrongLength invalid s = .ok (.ok out) ↔
        readPairs s n 0 = .ok (some out) := by
      intro out
      rw [decodeHex_of_len hlen]
      rcases readPairs s n 0 with e | _ | out' <;> simp [Except.map]
    rw [Exact, hok, and_iff_right hlen, ← readPairs_exact_iff hlen]
    exact and_congr_right fun _ => forall_congr' fun out => iff_congr (hsome out) Iff.rfl
  · refine iff_of_true ⟨⟨_, decodeHex_of_len_ne hlen⟩, fun out => ?_⟩ fun h => hlen h.1
    rw [decodeHex_of_len_ne hlen]
    refine ⟨fun h => absurd h (by simp), fun h => absurd ?_ hlen⟩
    rw [(pairs_hexPair_iff.mp h).1.len_eq, out.toList_length]

/-- Digits are decoded. -/
theorem decodeHex_of_pairs {out : List.Vector UInt8 n} (h : Pairs HexPair s out.toList) :
    decodeHex n wrongLength invalid s = .ok (.ok out) := by
  have hread := (pairs_hexPair_iff.mp h).1
  have hlen : len s = n * 2 := by rw [hread.len_eq, out.toList_length]
  have hrun : readPairs s n 0 = .ok (some out) :=
    (readPairs_eq_some_iff (a := []) rfl hlen).mpr hread
  rw [decodeHex_of_len hlen, hrun]
  rfl

end Decoding

theorem Exact.congr {α : Type} {read read' : Str → Exec (Except ApiError α)}
    {spec spec' : Str → α → Prop} {s s' : Str} (hread : read s = read' s')
    (hspec : ∀ a, spec s a ↔ spec' s' a) : Exact read spec s ↔ Exact read' spec' s' := by
  rw [Exact, Exact, hread]
  exact and_congr_right fun _ => forall_congr' fun a => iff_congr Iff.rfl (hspec a)

theorem rightIdOf_iff {s : Str} {r : List.Vector UInt8 16} :
    RightIdOf s r ↔ Pairs HexPair s r.toList := by
  refine ⟨And.right, fun h => ⟨?_, h⟩⟩
  rw [h.length_eq, r.toList_length]

/-- The optional `0x` is what the reader strips : `x` is no digit. -/
theorem codeHashOf_iff {s : Str} (hs : s ≠ []) {h : List.Vector UInt8 32} :
    CodeHashOf s h ↔ Pairs HexPair (clean s) h.toList := by
  have hlength : ∀ {t : Str}, Pairs HexPair t h.toList → t.length = 64 := by
    intro t ht
    rw [ht.length_eq, h.toList_length]
  rw [CodeHashOf, or_iff_right fun hempty => hs hempty.1]
  unfold clean
  split
  · rename_i rest
    constructor
    · rintro ⟨digits, rfl | heq, -, hpairs⟩
      · obtain ⟨v, x, y, -, hy, -⟩ := hpairs.head
        exact absurd hy (by simp [digitValue])
      · rwa [(List.cons.inj (List.cons.inj heq).2).2]
    · exact fun hpairs => ⟨rest, Or.inr rfl, hlength hpairs, hpairs⟩
  · rename_i hne
    constructor
    · rintro ⟨digits, rfl | rfl, -, hpairs⟩
      · exact hpairs
      · exact absurd rfl (hne digits)
    · exact fun hpairs => ⟨s, Or.inl rfl, hlength hpairs, hpairs⟩

theorem parseCodeHash_of_ne_nil {s : Str} (hs : s ≠ []) : parseCodeHash s =
    decodeHex 32 (.badRequest "code_hash must be exactly 64 hex characters")
      (.badRequest "code_hash contains invalid hex") (clean s) :=
  if_neg hs

theorem parseCodeHash_exact_nil : Exact parseCodeHash CodeHashOf [] := by
  refine ⟨⟨_, rfl⟩, fun h => ?_⟩
  rw [parseCodeHash, if_pos rfl, Except.ok.injEq, Except.ok.injEq, CodeHashOf]
  refine ⟨fun heq => Or.inl ⟨rfl, heq.symm⟩, ?_⟩
  rintro (⟨-, heq⟩ | ⟨digits, hdigits, hlength, -⟩)
  · exact heq.symm
  · obtain rfl | heq := hdigits
    · exact absurd hlength (by decide)
    · exact absurd heq (by simp)

/-- The two readers are exact on a text unless they misread it. -/
theorem hexIdsExact_iff (s : Str) :
    (Exact parseCodeHash CodeHashOf s ↔ ¬(len (clean s) = 64 ∧ Misread (clean s))) ∧
      (Exact decodeRightId RightIdOf s ↔ ¬(len s = 32 ∧ Misread s)) := by
  refine ⟨?_, ?_⟩
  · by_cases hs : s = []
    · subst hs
      exact iff_of_true parseCodeHash_exact_nil fun h => absurd h.1 (by decide)
    · exact (Exact.congr (parseCodeHash_of_ne_nil hs) fun _ => codeHashOf_iff hs).trans
        decodeHex_exact_iff
  · exact (Exact.congr rfl fun _ => rightIdOf_iff).trans decodeHex_exact_iff

/-- A hash with a character of two bytes at an odd offset. -/
def cutHash : Str :=
  'a' :: 'é' :: List.replicate 61 'a'

/-- An identifier with a sign in each pair. -/
def plusId : Str :=
  (List.replicate 16 "+f".toList).flatten

/-- The first is 64 bytes long and the parser panics on it, the second is admitted. -/
theorem not_exact_cutHash_plusId :
    ¬Exact parseCodeHash CodeHashOf cutHash ∧ ¬Exact decodeRightId RightIdOf plusId := by
  have hpanic : parseCodeHash cutHash = .error .outOfBounds := by decide
  have hread : decodeRightId plusId = .ok (.ok (.replicate 16 15)) := by decide
  refine ⟨?_, ?_⟩
  · rintro ⟨⟨r, hr⟩, -⟩
    exact absurd (hpanic.symm.trans hr) (by simp)
  · rintro ⟨-, hexact⟩
    have hpairs := ((hexact _).mp hread).2
    exact (pairs_hexPair_iff.mp hpairs).2 (by decide)

end RelationalSdk
