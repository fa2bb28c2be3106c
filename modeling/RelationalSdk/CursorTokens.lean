import RelationalSdk.Base64
import RelationalSdk.ScriptCache
import RelationalSdk.TxTables

/-!
# Signed pagination cursors

A cursor leaves the store as a token : the unpadded URL-safe base64 of its bytes, a dot, and the
hexadecimal text of a tag over the bytes (`signCursor`). A token is cut at its last dot, decoded,
and compared with the tag of what it decodes to (`verifyCursor`). The tag is HMAC-SHA256 under a key
of the enclave, an arbitrary function of the bytes here.

`verifyCursor_eq_some_iff` : the only token that verifies to a cursor is the one that signing it
gives, so the pair is a `CursorSigner` (`cursorSigner`), whatever the tags are.
-/

namespace RelationalSdk

open Text Base64

section Tokens

variable (mac : Bytes → Bytes)

/-- `sign_cursor`. -/
def signCursor (raw : Str) : Str :=
  let encoded := urlSafeNoPad.encode (asBytes raw)
  let tag := hexEncode (mac (asBytes raw))
  encoded ++ '.' :: tag

/-- `verify_cursor`. -/
def verifyCursor (token : Str) : Option Str := do
  let (encoded, tag) ← rsplitOnce '.' token
  let rawBytes ← urlSafeNoPad.decode encoded
  let raw ← fromUtf8 rawBytes
  let expected := hexEncode (mac (asBytes raw))
  if expected = tag then some raw else none

theorem dot_not_mem_hexEncode (b : Bytes) : '.' ∉ hexEncode b := by
  intro h
  obtain ⟨x, -, hx⟩ := List.mem_flatMap.mp h
  exact absurd (mem_hexPad hx) (by decide)

theorem rsplitOnce_signCursor (raw : Str) :
    rsplitOnce '.' (signCursor mac raw) =
      some (urlSafeNoPad.encode (asBytes raw), hexEncode (mac (asBytes raw))) :=
  rsplitOnce_eq_some_iff.mpr ⟨rfl, dot_not_mem_hexEncode _⟩

/-- The only token that verifies to a cursor is the one that signing it gives. -/
theorem verifyCursor_eq_some_iff {token raw : Str} :
    verifyCursor mac token = some raw ↔ token = signCursor mac raw := by
  constructor
  · intro h
    simp only [verifyCursor, Option.bind_eq_bind, Option.bind_eq_some_iff] at h
    obtain ⟨⟨encoded, tag⟩, hsplit, rawBytes, hdecode, raw', hutf, h⟩ := h
    split_ifs at h with htag
    obtain rfl := Option.some_inj.mp h
    obtain ⟨rfl, -⟩ := rsplitOnce_eq_some_iff.mp hsplit
    obtain rfl := Codec.decode_eq_some_iff.mp hdecode
    obtain rfl := fromUtf8_eq_some_iff.mp hutf
    exact congrArg (urlSafeNoPad.encode (asBytes raw') ++ '.' :: ·) htag.symm
  · rintro rfl
    simp only [verifyCursor, rsplitOnce_signCursor, Option.bind_eq_bind, Option.bind_some,
      Codec.decode_encode, fromUtf8_asBytes, if_true]

/-- The signer of the store. -/
def cursorSigner : CursorSigner where
  signCursor := signCursor mac
  verifyCursor := verifyCursor mac
  verify_sign _ := (verifyCursor_eq_some_iff mac).mpr rfl

/-- A signed cursor verifies, and nothing else verifies to what was signed. -/
theorem cursorTokens_exact :
    (∀ raw, verifyCursor mac (signCursor mac raw) = some raw) ∧
      ∀ token raw, verifyCursor mac token = some raw → token = signCursor mac raw :=
  ⟨fun _ => (verifyCursor_eq_some_iff mac).mpr rfl,
    fun _ _ => (verifyCursor_eq_some_iff mac).mp⟩

end Tokens

end RelationalSdk
