import RelationalSdk.JsonText

/-!
# The arguments of the sample script

The host passes the arguments of a query to a script as compact JSON. `extract_string_field` of
`drt-examples/mean` does not parse it : it searches for the quoted name with a colon, and then reads
a string literal with six of the escapes.

`extractStringField_write` says what it returns for the text of any object. It takes the first field
in the order of the text, at any depth, whose name is the key or ends with a quote and the key, and
of this the string, if all control characters in it are line feeds, carriage returns and tabs.
`readsTopField_iff` : so the result is the field of the object itself exactly if the first such
field has the same string as its value, or none of them is a readable string where the object has no
string under the name.
-/

namespace RelationalSdk

open Text JsonValue JsonText

/-! ## The reader -/

/-- The escapes that are read. -/
def unescapeChar (e : Char) : Option Char :=
  if e = '"' then some '"'
  else if e = '\\' then some '\\'
  else if e = '/' then some '/'
  else if e = 'n' then some '\n'
  else if e = 'r' then some '\r'
  else if e = 't' then some '\t'
  else none

/-- The loop over the characters of the literal, up to its closing quote. -/
def readLiteral : Str → Str → Option Str
  | _, [] => none
  | out, [c] => if c = '"' then some out else none
  | out, c :: e :: cs =>
    if c = '"' then some out
    else if c = '\\' then
      match unescapeChar e with
      | some d => readLiteral (out ++ [d]) cs
      | none => none
    else readLiteral (out ++ [c]) (e :: cs)

/-- What follows the name and the colon, as a string literal. -/
def readStringValue (rest : Str) : Option Str :=
  match rest.dropWhile isWhitespace with
  | [] => none
  | c :: body => if c = '"' then readLiteral [] body else none

def extractStringField (input key : Str) : Option Str :=
  (afterFirst (needle key) input).bind readStringValue

/-! ## String literals -/

/-- A character that the writer does not escape in another way than the reader knows. -/
def Readable (c : Char) : Prop :=
  32 ≤ c.toNat ∨ c = '\n' ∨ c = '\r' ∨ c = '\t'

instance (c : Char) : Decidable (Readable c) :=
  inferInstanceAs (Decidable (_ ∨ _))

theorem readLiteral_cons {c : Char} (hquote : c ≠ '"') (hback : c ≠ '\\') (out cs : Str) :
    readLiteral out (c :: cs) = readLiteral (out ++ [c]) cs := by
  rcases cs with _ | ⟨e, cs⟩
  · exact if_neg hquote
  · exact (if_neg hquote).trans (if_neg hback)

theorem readLiteral_escape (out cs : Str) (e : Char) :
    readLiteral out ('\\' :: e :: cs) =
      (unescapeChar e).bind fun d => readLiteral (out ++ [d]) cs := by
  rw [readLiteral, if_neg (by decide), if_pos rfl]
  rcases unescapeChar e with _ | d
  · rfl
  · rfl

/-- How the reader takes the text of one character. -/
theorem readLiteral_escapeChar (c : Char) (out cs : Str) :
    readLiteral out (escapeChar c ++ cs) =
      if Readable c then readLiteral (out ++ [c]) cs else none := by
  rcases escapeChar_forms c with ⟨e, hshort, he⟩ | ⟨hshort, ⟨hctrl, he⟩ | ⟨hplain, he⟩⟩
  · rw [he, List.cons_append, List.singleton_append, readLiteral_escape]
    -- One case for each escape of the writer.
    unfold shortEscape at hshort
    split_ifs at hshort with h₁ h₂ h₃ h₄ h₅ h₆ h₇ <;> obtain rfl := Option.some.inj hshort <;>
      subst c <;> rfl
  · rw [he, List.cons_append, List.cons_append, readLiteral_escape, if_neg]
    · rfl
    · rintro (hle | rfl | rfl | rfl)
      · omega
      · cases hshort
      · cases hshort
      · cases hshort
  · have hread : Readable c := Or.inl hplain
    rw [he, List.singleton_append, if_pos hread]
    refine readLiteral_cons ?_ ?_ out cs
    · rintro rfl
      cases hshort
    · rintro rfl
      cases hshort

theorem readLiteral_write (s : Str) (t : Str) : ∀ out, readLiteral out (escape s ++ '"' :: t) =
    if ∀ c ∈ s, Readable c then some (out ++ s) else none := by
  induction s with
  | nil =>
    intro out
    rw [if_pos (by simp), List.append_nil]
    rcases t with _ | ⟨c, t⟩
    · exact if_pos rfl
    · exact if_pos rfl
  | cons c s ih =>
    intro out
    rw [escape_cons, List.append_assoc, readLiteral_escapeChar, ih]
    simp only [List.forall_mem_cons]
    split_ifs <;> simp_all

/-- The string of a value that the reader can read. -/
def readableString : Json → Option Str
  | .string s => if ∀ c ∈ s, Readable c then some s else none
  | _ => none

theorem isNumberChar_spec {c : Char} (hc : isNumberChar c) : isWhitespace c = false ∧ c ≠ '"' := by
  have hrange : 43 ≤ c.toNat ∧ c.toNat ≤ 101 := by
    unfold isNumberChar at hc
    simp only [Bool.or_eq_true, decide_eq_true_eq] at hc
    rcases hc with ((((hc | rfl) | rfl) | rfl) | rfl) | rfl
    · have hdigit : 48 ≤ c.toNat ∧ c.toNat ≤ 57 := Char.isDigit_iff_toNat.mp hc
      omega
    all_goals decide
  refine ⟨?_, ?_⟩
  · simp only [isWhitespace, Bool.or_eq_false_iff, Bool.and_eq_false_iff, decide_eq_false_iff_not,
      beq_eq_false_iff_ne]
    omega
  · rintro rfl
    exact absurd hrange.1 (by decide)

theorem readStringValue_write {w : Json} (hw : NumbersPlain w) (t : Str) :
    readStringValue (write w ++ t) = readableString w := by
  rcases w with _ | b | text | str | items | fields
  · rfl
  · cases b with
    | true => rfl
    | false => rfl
  · obtain ⟨hne, hchars⟩ := hw
    obtain ⟨c, cs, rfl⟩ := List.exists_cons_of_ne_nil hne
    obtain ⟨hspace, hquote⟩ := isNumberChar_spec (hchars c List.mem_cons_self)
    have hdrop : (write (.number (c :: cs)) ++ t).dropWhile isWhitespace = c :: (cs ++ t) :=
      List.dropWhile_cons_of_neg (Bool.eq_false_iff.mp hspace)
    rw [readStringValue, hdrop]
    exact if_neg hquote
  · have hsplit : write (.string str) ++ t = '"' :: (escape str ++ '"' :: t) := by
      simp [write, writeString]
    rw [hsplit]
    exact readLiteral_write str t []
  · rfl
  · rfl

/-- What is read from the text of an object. -/
theorem extractStringField_write {key : Str} (hkey : Searchable key) {fields : List (Str × Json)}
    (hnum : NumbersPlainFields fields) :
    extractStringField (write (.object fields)) key =
      (firstMatch key (entriesFields fields)).bind readableString := by
  have hfinds : Finds key (entriesFields fields) (write (.object fields) ++ []) [] :=
    afterFirst_write hkey (.object fields) hnum fun c hc => absurd hc (by simp)
  rw [List.append_nil] at hfinds
  rw [extractStringField]
  rcases hfinds with ⟨w, t, hfirst, hw, hafter⟩ | ⟨hnone, hafter⟩
  · rw [hafter, hfirst]
    exact readStringValue_write hw t
  · rw [hafter, hnone]
    rfl

/-! ## The field of the object -/

/-- The field of the object itself. -/
def topField (key : Str) (fields : List (Str × Json)) : Option Json :=
  (fields.find? fun e => e.1 = key).map Prod.snd

/-- If the object has a string under the name, then it is readable, and the value of the first field
that is found. If it has none, then the value of this field is no readable string. -/
def FirstIsTop (key : Str) (fields : List (Str × Json)) : Prop :=
  (∀ s, topField key fields = some (.string s) →
    (∀ c ∈ s, Readable c) ∧ firstMatch key (entriesFields fields) = some (.string s)) ∧
  ((∀ s, topField key fields ≠ some (.string s)) →
    ∀ s, firstMatch key (entriesFields fields) = some (.string s) → ∃ c ∈ s, ¬Readable c)

theorem readableString_eq_some_iff {v : Json} {s : Str} :
    readableString v = some s ↔ v = .string s ∧ ∀ c ∈ s, Readable c := by
  cases v with
  | string t =>
    rw [readableString]
    by_cases hread : ∀ c ∈ t, Readable c
    · rw [if_pos hread, Option.some.injEq, Json.string.injEq]
      refine ⟨?_, fun h => h.1⟩
      rintro rfl
      exact ⟨rfl, hread⟩
    · rw [if_neg hread, Json.string.injEq]
      refine ⟨fun h => absurd h (by simp), ?_⟩
      rintro ⟨rfl, h⟩
      exact absurd h hread
  | _ => exact ⟨fun h => absurd h (by simp [readableString]), fun h => absurd h.1 (by simp)⟩

def columnKey : Str :=
  ['c', 'o', 'l', 'u', 'm', 'n']

theorem searchable_columnKey : Searchable columnKey where
  verbatim := by
    simp only [columnKey, List.forall_mem_cons]
    exact ⟨rfl, rfl, rfl, rfl, rfl, rfl, by simp⟩
  head := ⟨'c', ['o', 'l', 'u', 'm', 'n'], rfl, by decide⟩

/-- The script reads the string that the arguments have under `column`, and nothing if there is
none, exactly if the first field that it finds is this one or is no readable string. -/
theorem readsTopField_iff {fields : List (Str × Json)} (hnum : NumbersPlainFields fields) :
    (∀ s, extractStringField (write (.object fields)) columnKey = some s ↔
      topField columnKey fields = some (.string s)) ↔ FirstIsTop columnKey fields := by
  rw [extractStringField_write searchable_columnKey hnum]
  have hread : ∀ s, (firstMatch columnKey (entriesFields fields)).bind readableString = some s ↔
      firstMatch columnKey (entriesFields fields) = some (.string s) ∧ ∀ c ∈ s, Readable c := by
    intro s
    rw [Option.bind_eq_some_iff]
    refine ⟨?_, ?_⟩
    · rintro ⟨v, hv, hs⟩
      obtain ⟨rfl, hall⟩ := readableString_eq_some_iff.mp hs
      exact ⟨hv, hall⟩
    · rintro ⟨hv, hs⟩
      exact ⟨_, hv, readableString_eq_some_iff.mpr ⟨rfl, hs⟩⟩
  simp only [hread]
  refine ⟨fun h => ⟨fun s hs => ((h s).mpr hs).symm, fun hnone s hs => ?_⟩, fun h s => ⟨?_, ?_⟩⟩
  · by_contra hall
    push Not at hall
    exact hnone s ((h s).mp ⟨hs, hall⟩)
  · rintro ⟨hs, hall⟩
    by_cases htop : ∃ s', topField columnKey fields = some (.string s')
    · obtain ⟨s', hs'⟩ := htop
      obtain ⟨-, hfirst⟩ := h.1 s' hs'
      rw [hs] at hfirst
      cases hfirst
      exact hs'
    · obtain ⟨c, hc, hnot⟩ := h.2 (not_exists.mp htop) s hs
      exact absurd (hall c hc) hnot
  · exact fun hs => (h.1 s hs).symm

/-- A field of the same name in an object before it. -/
def nestedColumn : List (Str × Json) :=
  [(['a'], .object [(columnKey, .string ['x'])]), (columnKey, .string ['y'])]

theorem not_readsTopField_nested :
    ¬∀ s, extractStringField (write (.object nestedColumn)) columnKey = some s ↔
      topField columnKey nestedColumn = some (.string s) := by
  intro h
  have hread : extractStringField (write (.object nestedColumn)) columnKey = some ['x'] := by
    decide +kernel
  have htop := (h ['x']).mp hread
  revert htop
  simp [topField, nestedColumn, columnKey]

/-- A field with the name and a number. -/
def columnAndNumber : List (Str × Json) :=
  [(columnKey, .string ['v', '"']), (['n'], .number ['1'])]

theorem readsTopField_columnAndNumber : NumbersPlainFields columnAndNumber ∧
    ∀ s, extractStringField (write (.object columnAndNumber)) columnKey = some s ↔
      topField columnKey columnAndNumber = some (.string s) := by
  have hnum : NumbersPlainFields columnAndNumber :=
    ⟨trivial, ⟨List.cons_ne_nil _ _, by simp [isNumberChar]⟩, trivial⟩
  refine ⟨hnum, (readsTopField_iff hnum).mpr ⟨?_, fun hnone => absurd rfl (hnone _)⟩⟩
  intro s hs
  cases hs
  exact ⟨by simp [Readable], rfl⟩

end RelationalSdk
