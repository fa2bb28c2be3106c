import RelationalSdk.Base64
import RelationalSdk.Fallible

/-!
# Encrypted payloads

A client sends the ciphertext, its ephemeral public key and the nonce of an upload as base64 texts
of whichever variant it likes, and the enclave tries the four variants one after the other
(`decodeBase64Any`). The first that accepts wins.

`decodeBase64Any_eq_some_iff` : the bytes found are those that some variant writes as the text. They
do not depend on the order of the attempts, because the two alphabets differ in characters that only
one of them has. So a payload decrypts to what its three byte strings decrypt to, whichever variants
they came in (`decryptEcdhPayload_encode`). The curve, the key derivation and the cipher are
arbitrary.
-/

namespace RelationalSdk

open Text Base64 Fallible

/-! ## The variants -/

/-- `decode_base64_any`. -/
def decodeBase64Any (input : Str) : Option Bytes :=
  (((urlSafeNoPad.decode input).or (standard.decode input)).or (standardNoPad.decode input)).or
    (urlSafe.decode input)

/-- The variants, in the order in which they are tried. -/
def base64Variants : List Codec :=
  [urlSafeNoPad, standard, standardNoPad, urlSafe]

theorem decodeBase64Any_eq (input : Str) :
    decodeBase64Any input = base64Variants.findSome? fun e => e.decode input := by
  have hcons : ∀ (e : Codec) (l : List Codec), (e :: l).findSome? (fun f => f.decode input) =
      (e.decode input).or (l.findSome? fun f => f.decode input) := by
    intro e l
    rw [List.findSome?_cons]
    cases e.decode input <;> rfl
  simp only [decodeBase64Any, base64Variants, hcons, List.findSome?_nil, Option.or_none,
    Option.or_assoc]

theorem base64Variants_agree {e f : Codec} (he : e ∈ base64Variants) (hf : f ∈ base64Variants) :
    e.alphabet.Agree f.alphabet := by
  have halphabet : ∀ e ∈ base64Variants,
      e.alphabet = standardAlphabet ∨ e.alphabet = urlSafeAlphabet := by
    simp [base64Variants, standard, standardNoPad, urlSafe, urlSafeNoPad]
  rcases halphabet e he with he | he <;> rcases halphabet f hf with hf | hf <;> rw [he, hf]
  · exact .refl _
  · exact standardAlphabet_agree_urlSafeAlphabet
  · exact standardAlphabet_agree_urlSafeAlphabet.symm
  · exact .refl _

/-- No variant reads another's text as different bytes. -/
theorem eq_of_decode_encode {e f : Codec} (he : e ∈ base64Variants) (hf : f ∈ base64Variants)
    {b c : Bytes} (h : f.decode (e.encode b) = some c) : c = b :=
  (Codec.encode_inj (base64Variants_agree he hf) (Codec.decode_eq_some_iff.mp h)).symm

/-- The bytes found are those that some variant writes as the text. -/
theorem decodeBase64Any_eq_some_iff {input : Str} {b : Bytes} :
    decodeBase64Any input = some b ↔ ∃ e ∈ base64Variants, input = e.encode b := by
  rw [decodeBase64Any_eq]
  constructor
  · intro h
    obtain ⟨e, he, hdecode⟩ := List.exists_of_findSome?_eq_some h
    exact ⟨e, he, Codec.decode_eq_some_iff.mp hdecode⟩
  · rintro ⟨e, he, rfl⟩
    have hsome : (base64Variants.findSome? fun f => f.decode (e.encode b)).isSome := by
      rw [List.findSome?_isSome_iff]
      exact ⟨e, he, by rw [Codec.decode_encode]; rfl⟩
    obtain ⟨c, hc⟩ := Option.isSome_iff_exists.mp hsome
    obtain ⟨f, hf, hdecode⟩ := List.exists_of_findSome?_eq_some hc
    rw [hc, eq_of_decode_encode he hf hdecode]

/-- What a variant writes is read back, and no variant reads it as anything else. -/
theorem decodeBase64Any_unambiguous (b : Bytes) :
    ∀ e ∈ base64Variants, decodeBase64Any (e.encode b) = some b ∧
      ∀ f ∈ base64Variants, ∀ c, f.decode (e.encode b) = some c → c = b :=
  fun e he => ⟨decodeBase64Any_eq_some_iff.mpr ⟨e, he, rfl⟩,
    fun _ hf _ => eq_of_decode_encode he hf⟩

/-- Two octets in the URL-safe alphabet, padded : the last variant tried. -/
theorem decodeBase64Any_unambiguous_urlSafe :
    decodeBase64Any (urlSafe.encode [255, 254]) = some [255, 254] ∧
      ∀ f ∈ base64Variants, ∀ c, f.decode (urlSafe.encode [255, 254]) = some c → c = [255, 254] :=
  decodeBase64Any_unambiguous [255, 254] urlSafe (by simp [base64Variants])

/-! ## A payload -/

/-- The curve, the key derivation and the cipher, with the enclave's private key. -/
structure PayloadCrypto (PublicKey Cipher : Type) where
  fromSec1Bytes : Bytes → Option PublicKey
  /-- The raw bytes of the Diffie-Hellman secret shared with a peer. -/
  sharedSecret : PublicKey → Bytes
  /-- A 32-byte key derived from a secret for the given purpose. -/
  hkdfExpand : Bytes → Bytes → Option Bytes
  newFromSlice : Bytes → Option Cipher
  /-- The plaintext under a nonce, if the ciphertext is authentic. -/
  decrypt : Cipher → Bytes → Bytes → Option Bytes

section Payload

variable {PublicKey Cipher : Type} (crypto : PayloadCrypto PublicKey Cipher)

/-- The part of `decrypt_ecdh_payload` behind the decoding. -/
def decryptBytes (ciphertext ephemeralBytes nonceBytes : Bytes) : Except String Bytes := do
  if nonceBytes.length ≠ 12 then throw "nonce must be 12 bytes for AES-GCM"
  let peerPublic ← okOr (crypto.fromSec1Bytes ephemeralBytes)
    "invalid ephemeral public key bytes"
  let sharedSecret := crypto.sharedSecret peerPublic
  let key ← okOr
    (crypto.hkdfExpand sharedSecret (asBytes "relational-sdk:data-upload:v1".toList))
    "failed to derive encryption key"
  let cipher ← okOr (crypto.newFromSlice key) "failed to initialize cipher"
  okOr (crypto.decrypt cipher nonceBytes ciphertext) "failed to decrypt encrypted_data"

/-- `decrypt_ecdh_payload`. -/
def decryptEcdhPayload (ciphertextB64 ephemeralPublicKeyB64 nonceB64 : Str) :
    Except String Bytes := do
  let ciphertext ← okOr (decodeBase64Any ciphertextB64) "invalid encrypted_data encoding"
  let ephemeralBytes ← okOr (decodeBase64Any ephemeralPublicKeyB64)
    "invalid ephemeral_public_key encoding"
  let nonceBytes ← okOr (decodeBase64Any nonceB64) "invalid nonce encoding"
  decryptBytes crypto ciphertext ephemeralBytes nonceBytes

/-- The variants in which the three parts are sent do not matter. -/
theorem decryptEcdhPayload_encode {e f g : Codec} (he : e ∈ base64Variants)
    (hf : f ∈ base64Variants) (hg : g ∈ base64Variants)
    (ciphertext ephemeralBytes nonceBytes : Bytes) :
    decryptEcdhPayload crypto (e.encode ciphertext) (f.encode ephemeralBytes)
        (g.encode nonceBytes) =
      decryptBytes crypto ciphertext ephemeralBytes nonceBytes := by
  have hread : ∀ h ∈ base64Variants, ∀ b, decodeBase64Any (h.encode b) = some b :=
    fun h hh b => decodeBase64Any_eq_some_iff.mpr ⟨h, hh, rfl⟩
  rw [decryptEcdhPayload, hread e he, hread f hf, hread g hg]
  rfl

end Payload

end RelationalSdk
