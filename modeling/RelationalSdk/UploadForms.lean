import RelationalSdk.Domain
import RelationalSdk.Fallible
import RelationalSdk.UploadPayload

/-!
# Upload forms

A CSV is uploaded as a multipart form with three fields : the ciphertext, the ephemeral public key
of the sender and a nonce. `parse_multipart_fields` goes through the parts in the order in which
they come. It leaves out parts without a name, refuses the form at a part that it cannot read or
that has another name, and skips blank values, so of several values of a field the last one counts
that is not blank.

`parseCsvPayload_eq_ok_iff` : a form yields a CSV exactly if all its parts are admitted and the last
values of the three fields are base64 texts, in any of the four variants, of something that the
enclave can decrypt to the CSV. What is uploaded in the clear is refused, wherever it stands in the
form (`parseCsvPayload_file`).
-/

namespace RelationalSdk

open Text Base64 Fallible

/-! ## Parsing a form -/

/-- What `next_field` yields : a field with its name and its text, if it can be read, or an
error. -/
inductive FormPart where
  | field (name : Option Str) (text : Option Str)
  | broken

/-- How parsing ends without a result. -/
inductive FormError where
  | refused (e : ApiError)
  /-- The `unreachable!` behind the check of a name. -/
  | unreachable

structure MultipartCsvInput where
  encryptedData : Option Str
  ephemeralPublicKey : Option Str
  nonce : Option Str

def validateCsvMultipartFieldName (name : Str) : Except ApiError Unit :=
  if name = "encrypted_data".toList ∨ name = "ephemeral_public_key".toList ∨
      name = "nonce".toList then .ok ()
  else if name = "file".toList then
    .error (.badRequest ("plaintext file uploads are not accepted — " ++
      "use encrypted_data with ephemeral_public_key and nonce"))
  else
    let other := String.ofList name
    .error (.badRequest s!"unsupported multipart field: {other}")

/-- The value of a field, which a blank text does not change. -/
def readText (name : String) (text current : Option Str) : Except FormError (Option Str) := do
  let value ← okOr text (.refused (.badRequest s!"invalid {name} field"))
  pure (if trim value ≠ [] then some (trim value) else current)

/-- A field with a name. -/
def readField (input : MultipartCsvInput) (name : Str) (text : Option Str) :
    Except FormError MultipartCsvInput := do
  (validateCsvMultipartFieldName name).mapError .refused
  if name = "encrypted_data".toList then
    let value ← readText "encrypted_data" text input.encryptedData
    pure { input with encryptedData := value }
  else if name = "ephemeral_public_key".toList then
    let value ← readText "ephemeral_public_key" text input.ephemeralPublicKey
    pure { input with ephemeralPublicKey := value }
  else if name = "nonce".toList then
    let value ← readText "nonce" text input.nonce
    pure { input with nonce := value }
  else .error .unreachable

/-- `parse_multipart_fields`, with the fields that were read before. -/
def parseMultipartFields (input : MultipartCsvInput) :
    List FormPart → Except FormError MultipartCsvInput
  | [] => .ok input
  | .broken :: _ => .error (.refused (.badRequest "invalid multipart payload"))
  | .field none _ :: rest => parseMultipartFields input rest
  | .field (some name) text :: rest =>
    readField input name text >>= fun input => parseMultipartFields input rest

/-- `encrypted_parts`. -/
def MultipartCsvInput.encryptedParts (input : MultipartCsvInput) :
    Except ApiError (Str × Str × Str) := do
  let encryptedData ← okOr input.encryptedData (.badRequest "missing encrypted_data field")
  let ephemeralKey ← okOr input.ephemeralPublicKey
    (.badRequest "ephemeral_public_key is required for encrypted uploads")
  let nonce ← okOr input.nonce (.badRequest "nonce is required for encrypted uploads")
  pure (encryptedData, ephemeralKey, nonce)

/-- `MAX_BODY_SIZE`. -/
def maxBodySize : Nat :=
  50 * 1024 * 1024

def ensureSizeLimit (bytes : Bytes) : Except ApiError Unit :=
  require (bytes.length ≤ maxBodySize)
    (.badRequest s!"payload exceeds maximum size of {maxBodySize} bytes")

section Payload

variable {PublicKey Cipher : Type} (crypto : PayloadCrypto PublicKey Cipher)

/-- `parse_csv_payload`. -/
def parseCsvPayload (form : List FormPart) : Except FormError Bytes := do
  let input ← parseMultipartFields ⟨none, none, none⟩ form
  let (encryptedData, ephemeralKey, nonce) ← input.encryptedParts.mapError .refused
  let csvBytes ← (decryptEcdhPayload crypto encryptedData ephemeralKey nonce).mapError
    fun e => .refused (.badRequest e)
  (ensureSizeLimit csvBytes).mapError .refused
  pure csvBytes

end Payload

/-! ## The fields of a form -/

/-- The fields that a form may have. -/
def formNames : List Str :=
  ["encrypted_data".toList, "ephemeral_public_key".toList, "nonce".toList]

/-- The part is a field that may be read, or has no name. -/
def FormPart.Admitted : FormPart → Prop
  | .field none _ => True
  | .field (some name) text => name ∈ formNames ∧ text.isSome
  | .broken => False

/-- What a part sets a field to. -/
def FormPart.valueFor (name : Str) : FormPart → Option Str
  | .field (some name') (some text) =>
    if name' = name ∧ trim text ≠ [] then some (trim text) else none
  | _ => none

/-- The last value of a field that is not blank. -/
def lastValue (name : String) (form : List FormPart) : Option Str :=
  (form.filterMap (FormPart.valueFor name.toList)).getLast?

theorem lastValue_nil (name : String) : lastValue name [] = none :=
  rfl

theorem lastValue_cons (name : String) (p : FormPart) (form : List FormPart) :
    lastValue name (p :: form) = (lastValue name form).or (p.valueFor name.toList) := by
  unfold lastValue
  cases hp : p.valueFor name.toList with
  | none => rw [List.filterMap_cons_none hp, Option.or_none]
  | some v =>
    rw [List.filterMap_cons_some hp, List.getLast?_cons]
    cases (form.filterMap (FormPart.valueFor name.toList)).getLast? <;> rfl

theorem validateCsvMultipartFieldName_eq_ok_iff {name : Str} {u : Unit} :
    validateCsvMultipartFieldName name = .ok u ↔ name ∈ formNames := by
  unfold validateCsvMultipartFieldName
  split_ifs with hname hfile <;> simp_all [formNames]

theorem FormPart.valueFor_of_ne {name name' : Str} (h : name ≠ name') (text : Option Str) :
    (FormPart.field (some name) text).valueFor name' = none := by
  cases text with
  | none => rfl
  | some text => exact if_neg fun hname => h hname.1

/-- A text that can be read sets the field, unless it is blank. -/
theorem readText_bind_eq_ok_iff {label : String} {text current : Option Str} (name : Str)
    {set : Option Str → MultipartCsvInput} {out : MultipartCsvInput} :
    (readText label text current >>= fun value => pure (set value)) = .ok out ↔
      text.isSome ∧ set (((FormPart.field (some name) text).valueFor name).or current) = out := by
  simp only [readText, bind_eq_ok_iff, okOr_eq_ok_iff, pure_eq_ok_iff]
  cases text with
  | none => simp
  | some text => by_cases hblank : trim text = [] <;> simp [FormPart.valueFor, hblank]

/-- The fields once a part is read. -/
def MultipartCsvInput.after (input : MultipartCsvInput) (p : FormPart) : MultipartCsvInput where
  encryptedData := (p.valueFor "encrypted_data".toList).or input.encryptedData
  ephemeralPublicKey := (p.valueFor "ephemeral_public_key".toList).or input.ephemeralPublicKey
  nonce := (p.valueFor "nonce".toList).or input.nonce

theorem readField_eq_ok_iff {input out : MultipartCsvInput} {name : Str} {text : Option Str} :
    readField input name text = .ok out ↔
      (FormPart.field (some name) text).Admitted ∧ input.after (.field (some name) text) = out := by
  simp only [readField, bind_eq_ok_iff, mapError_eq_ok_iff, validateCsvMultipartFieldName_eq_ok_iff,
    exists_const, FormPart.Admitted, and_assoc]
  refine and_congr_right fun hname => ?_
  have hkey : "ephemeral_public_key".toList ≠ "encrypted_data".toList := by decide
  have hnonce : "nonce".toList ≠ "encrypted_data".toList := by decide
  have hnonceKey : "nonce".toList ≠ "ephemeral_public_key".toList := by decide
  simp only [formNames, List.mem_cons, List.not_mem_nil, or_false] at hname
  unfold MultipartCsvInput.after
  -- one field is set, and the others keep their values
  rcases hname with rfl | rfl | rfl
  · rw [if_pos rfl, FormPart.valueFor_of_ne hkey.symm, FormPart.valueFor_of_ne hnonce.symm]
    exact readText_bind_eq_ok_iff _
  · rw [if_neg hkey, if_pos rfl, FormPart.valueFor_of_ne hkey,
      FormPart.valueFor_of_ne hnonceKey.symm]
    exact readText_bind_eq_ok_iff _
  · rw [if_neg hnonce, if_neg hnonceKey, if_pos rfl, FormPart.valueFor_of_ne hnonce,
      FormPart.valueFor_of_ne hnonceKey]
    exact readText_bind_eq_ok_iff _

/-- A form is read exactly if all its parts are admitted, and each field has its last value then. -/
theorem parseMultipartFields_eq_ok_iff {input out : MultipartCsvInput} {form : List FormPart} :
    parseMultipartFields input form = .ok out ↔ (∀ p ∈ form, p.Admitted) ∧
      (⟨(lastValue "encrypted_data" form).or input.encryptedData,
        (lastValue "ephemeral_public_key" form).or input.ephemeralPublicKey,
        (lastValue "nonce" form).or input.nonce⟩ : MultipartCsvInput) = out := by
  induction form generalizing input with
  | nil => simp only [parseMultipartFields, lastValue_nil, Option.none_or, List.not_mem_nil,
      false_imp_iff, implies_true, true_and, Except.ok.injEq]
  | cons p form ih =>
    simp only [List.forall_mem_cons, lastValue_cons, Option.or_assoc, and_assoc]
    cases p with
    | broken => exact iff_of_false nofun fun h => h.1
    | field name text =>
      cases name with
      | none =>
        rw [parseMultipartFields, ih]
        exact (and_iff_right trivial).symm
      | some name =>
        rw [parseMultipartFields, bind_eq_ok_iff]
        simp only [readField_eq_ok_iff, ih, and_assoc, exists_and_left, exists_eq_left',
          MultipartCsvInput.after]

/-! ## Nothing is unreachable -/

theorem readText_ne_unreachable (name : String) (text current : Option Str) :
    readText name text current ≠ .error .unreachable := by
  cases text <;> exact nofun

theorem readField_ne_unreachable (input : MultipartCsvInput) (name : Str) (text : Option Str) :
    readField input name text ≠ .error .unreachable := by
  by_cases hname : name ∈ formNames
  · refine bind_ne_error (mapError_ne_error nofun) fun _ => ?_
    split_ifs with hdata hkey hnonce
    · exact bind_ne_error (readText_ne_unreachable _ _ _) nofun
    · exact bind_ne_error (readText_ne_unreachable _ _ _) nofun
    · exact bind_ne_error (readText_ne_unreachable _ _ _) nofun
    · simp only [formNames, List.mem_cons, List.not_mem_nil, or_false] at hname
      exact absurd hname (by tauto)
  · cases hvalid : validateCsvMultipartFieldName name with
    | ok _ => exact absurd (validateCsvMultipartFieldName_eq_ok_iff.mp hvalid) hname
    | error e =>
      rw [readField, hvalid]
      exact nofun

theorem parseMultipartFields_ne_unreachable (input : MultipartCsvInput) (form : List FormPart) :
    parseMultipartFields input form ≠ .error .unreachable := by
  induction form generalizing input with
  | nil => exact nofun
  | cons p form ih =>
    cases p with
    | broken => exact nofun
    | field name text =>
      cases name with
      | none => exact ih input
      | some name => exact bind_ne_error (readField_ne_unreachable _ _ _) ih

/-! ## What a form yields -/

section Payload

variable {PublicKey Cipher : Type} {crypto : PayloadCrypto PublicKey Cipher}

theorem MultipartCsvInput.encryptedParts_eq_ok_iff {input : MultipartCsvInput}
    {parts : Str × Str × Str} : input.encryptedParts = .ok parts ↔
      input.encryptedData = some parts.1 ∧ input.ephemeralPublicKey = some parts.2.1 ∧
        input.nonce = some parts.2.2 := by
  simp only [MultipartCsvInput.encryptedParts, bind_eq_ok_iff, okOr_eq_ok_iff, pure_eq_ok_iff]
  constructor
  · rintro ⟨a, ha, b, hb, c, hc, rfl⟩
    exact ⟨ha, hb, hc⟩
  · rintro ⟨ha, hb, hc⟩
    exact ⟨_, ha, _, hb, _, hc, rfl⟩

theorem parseCsvPayload_ne_unreachable (form : List FormPart) :
    parseCsvPayload crypto form ≠ .error .unreachable := by
  refine bind_ne_error (parseMultipartFields_ne_unreachable _ _) fun input => ?_
  refine bind_ne_error (mapError_ne_error nofun) fun parts => ?_
  refine bind_ne_error (mapError_ne_error nofun) fun csv => ?_
  exact bind_ne_error (mapError_ne_error nofun) nofun

theorem parseCsvPayload_eq_ok_iff {form : List FormPart} {csv : Bytes} :
    parseCsvPayload crypto form = .ok csv ↔
      (∀ p ∈ form, p.Admitted) ∧ csv.length ≤ maxBodySize ∧
      ∃ ciphertext ephemeralBytes nonceBytes, ∃ e ∈ base64Variants, ∃ f ∈ base64Variants,
        ∃ g ∈ base64Variants,
        lastValue "encrypted_data" form = some (e.encode ciphertext) ∧
        lastValue "ephemeral_public_key" form = some (f.encode ephemeralBytes) ∧
        lastValue "nonce" form = some (g.encode nonceBytes) ∧
        decryptBytes crypto ciphertext ephemeralBytes nonceBytes = .ok csv := by
  simp only [parseCsvPayload, bind_eq_ok_iff, parseMultipartFields_eq_ok_iff, Option.or_none,
    mapError_eq_ok_iff, MultipartCsvInput.encryptedParts_eq_ok_iff, decryptEcdhPayload,
    okOr_eq_ok_iff, decodeBase64Any_eq_some_iff, ensureSizeLimit, require_eq_ok_iff,
    pure_eq_ok_iff]
  constructor
  · rintro ⟨_, ⟨hadmitted, rfl⟩, ⟨a, b, c⟩, ⟨ha, hb, hc⟩, csv', ⟨ciphertext, ⟨e, he, rfl⟩,
      ephemeralBytes, ⟨f, hf, rfl⟩, nonceBytes, ⟨g, hg, rfl⟩, hdecrypt⟩, -, hsize, rfl⟩
    exact ⟨hadmitted, hsize, ciphertext, ephemeralBytes, nonceBytes, e, he, f, hf, g, hg, ha, hb,
      hc, hdecrypt⟩
  · rintro ⟨hadmitted, hsize, ciphertext, ephemeralBytes, nonceBytes, e, he, f, hf, g, hg, ha, hb,
      hc, hdecrypt⟩
    exact ⟨_, ⟨hadmitted, rfl⟩, (_, _, _), ⟨ha, hb, hc⟩, csv, ⟨ciphertext, ⟨e, he, rfl⟩,
      ephemeralBytes, ⟨f, hf, rfl⟩, nonceBytes, ⟨g, hg, rfl⟩, hdecrypt⟩, ⟨⟩, hsize, rfl⟩

/-- A form never leads to the `unreachable!`, and it yields a CSV exactly if all its parts are
admitted and the last values of its fields are texts of what the enclave can decrypt to the CSV. -/
theorem parseCsvPayload_exact (form : List FormPart) :
    parseCsvPayload crypto form ≠ .error .unreachable ∧
    ∀ csv, parseCsvPayload crypto form = .ok csv ↔
      (∀ p ∈ form, p.Admitted) ∧ csv.length ≤ maxBodySize ∧
      ∃ ciphertext ephemeralBytes nonceBytes, ∃ e ∈ base64Variants, ∃ f ∈ base64Variants,
        ∃ g ∈ base64Variants,
        lastValue "encrypted_data" form = some (e.encode ciphertext) ∧
        lastValue "ephemeral_public_key" form = some (f.encode ephemeralBytes) ∧
        lastValue "nonce" form = some (g.encode nonceBytes) ∧
        decryptBytes crypto ciphertext ephemeralBytes nonceBytes = .ok csv :=
  ⟨parseCsvPayload_ne_unreachable form, fun _ => parseCsvPayload_eq_ok_iff⟩

/-- A part in the clear is enough for a form to be refused. -/
theorem parseCsvPayload_file {form : List FormPart} {text : Option Str}
    (h : .field (some "file".toList) text ∈ form) (csv : Bytes) :
    parseCsvPayload crypto form ≠ .ok csv := by
  intro hok
  exact absurd ((parseCsvPayload_eq_ok_iff.mp hok).1 _ h).1 (by decide)

end Payload

end RelationalSdk
