import RelationalSdk.JsonValue

/-!
# Compact JSON text

`write` is the compact text of a JSON value, with no blank between the tokens and with the escapes
of serde_json. A field is looked up in such a text by searching for its quoted name with a colon
(`afterFirst (needle key)`). What the search finds are the keys, at any depth, that are the name or
end with a quote and the name (`Matches`), since a quote in a string has a backslash before it and a
quote before a colon ends a key. `afterFirst_write` : the text after the first occurrence is the
text of the value of the first such field, in the order of the text (`entries`), and what follows
the value.
-/

namespace JsonText

open Text JsonValue

/-! ## The writer -/

/-- The letter after the backslash, for a character with an escape of its own. -/
def shortEscape (c : Char) : Option Char :=
  if c = '"' then some '"'
  else if c = '\\' then some '\\'
  else if c = '\x08' then some 'b'
  else if c = '\t' then some 't'
  else if c = '\n' then some 'n'
  else if c = '\x0c' then some 'f'
  else if c = '\r' then some 'r'
  else none

/-- A character in a string. -/
def escapeChar (c : Char) : Str :=
  match shortEscape c with
  | some e => ['\\', e]
  | none => if c.toNat < 32 then '\\' :: 'u' :: hexPad 4 c.toNat else [c]

def escape (s : Str) : Str :=
  s.flatMap escapeChar

def writeString (s : Str) : Str :=
  '"' :: (escape s ++ ['"'])

mutual

/-- The text of a value. -/
def write : Json → Str
  | .null => ['n', 'u', 'l', 'l']
  | .bool true => ['t', 'r', 'u', 'e']
  | .bool false => ['f', 'a', 'l', 's', 'e']
  | .number text => text
  | .string s => writeString s
  | .array items => '[' :: (writeItems [] items ++ [']'])
  | .object fields => '\x7b' :: (writeFields [] fields ++ ['\x7d'])

/-- The text of the items, the first after `sep` and the others after a comma. -/
def writeItems (sep : Str) : List Json → Str
  | [] => []
  | v :: vs => sep ++ (write v ++ writeItems [','] vs)

/-- The text of the fields, the first after `sep` and the others after a comma. -/
def writeFields (sep : Str) : List (Str × Json) → Str
  | [] => []
  | (k, v) :: fields =>
    sep ++ (writeString k ++ ':' :: (write v ++ writeFields [','] fields))

end

mutual

/-- The fields of a value at any depth, in the order of the text. -/
def entries : Json → List (Str × Json)
  | .array items => entriesItems items
  | .object fields => entriesFields fields
  | _ => []

def entriesItems : List Json → List (Str × Json)
  | [] => []
  | v :: vs => entries v ++ entriesItems vs

def entriesFields : List (Str × Json) → List (Str × Json)
  | [] => []
  | (k, v) :: fields => (k, v) :: (entries v ++ entriesFields fields)

end

/-- A character of a number. -/
def isNumberChar (c : Char) : Bool :=
  c.isDigit || c = '-' || c = '+' || c = '.' || c = 'e' || c = 'E'

mutual

/-- The numbers are written with the characters of numbers. -/
def NumbersPlain : Json → Prop
  | .number text => text ≠ [] ∧ ∀ c ∈ text, isNumberChar c
  | .array items => NumbersPlainItems items
  | .object fields => NumbersPlainFields fields
  | _ => True

def NumbersPlainItems : List Json → Prop
  | [] => True
  | v :: vs => NumbersPlain v ∧ NumbersPlainItems vs

def NumbersPlainFields : List (Str × Json) → Prop
  | [] => True
  | (_, v) :: fields => NumbersPlain v ∧ NumbersPlainFields fields

end

/-! ## Escapes -/

/-- A character that is written as it is. -/
def Verbatim (c : Char) : Prop :=
  escapeChar c = [c]

instance (c : Char) : Decidable (Verbatim c) :=
  inferInstanceAs (Decidable (_ = _))

theorem shortEscape_eq_quote {c : Char} (h : shortEscape c = some '"') : c = '"' := by
  unfold shortEscape at h
  split_ifs at h with hquote
  · exact hquote
  all_goals exact absurd (Option.some.inj h) (by decide)

theorem quote_not_mem_hexPad (n v : Nat) : '"' ∉ hexPad n v :=
  fun h => absurd (mem_hexPad h) (by decide)

/-- The three forms in which a character is written. -/
theorem escapeChar_forms (c : Char) : (∃ e, shortEscape c = some e ∧ escapeChar c = ['\\', e]) ∨
    shortEscape c = none ∧ (c.toNat < 32 ∧ escapeChar c = '\\' :: 'u' :: hexPad 4 c.toNat ∨
      32 ≤ c.toNat ∧ escapeChar c = [c]) := by
  rcases hshort : shortEscape c with _ | e
  · refine Or.inr ⟨rfl, ?_⟩
    rw [escapeChar, hshort]
    rcases Nat.lt_or_ge c.toNat 32 with hctrl | hctrl
    · exact Or.inl ⟨hctrl, if_pos hctrl⟩
    · exact Or.inr ⟨hctrl, if_neg (not_lt.mpr hctrl)⟩
  · exact Or.inl ⟨e, rfl, by rw [escapeChar, hshort]⟩

/-- A character is written as it is, or it is a quote, or it is written with a backslash and without
a quote. -/
theorem escapeChar_cases (c : Char) : Verbatim c ∧ c ≠ '"' ∧ c ≠ '\\' ∨
    c = '"' ∧ escapeChar c = ['\\', '"'] ∨
    ¬Verbatim c ∧ c ≠ '"' ∧ ∃ e, escapeChar c = '\\' :: e ∧ '"' ∉ e := by
  by_cases hquote : c = '"'
  · exact Or.inr (Or.inl ⟨hquote, by rw [hquote]; rfl⟩)
  have hescape : ∀ {e}, escapeChar c = '\\' :: e → e ≠ [] → ¬Verbatim c := by
    intro e he hne hverb
    rw [Verbatim, he] at hverb
    exact hne (List.cons.inj hverb).2
  rcases escapeChar_forms c with ⟨e, hshort, he⟩ | ⟨hshort, ⟨-, he⟩ | ⟨-, he⟩⟩
  · refine Or.inr (Or.inr ⟨hescape he (List.cons_ne_nil _ _), hquote, _, he, ?_⟩)
    intro hmem
    rw [← List.mem_singleton.mp hmem] at hshort
    exact hquote (shortEscape_eq_quote hshort)
  · refine Or.inr (Or.inr ⟨hescape he (List.cons_ne_nil _ _), hquote, _, he, ?_⟩)
    exact List.not_mem_cons_of_ne_of_not_mem (by decide) (quote_not_mem_hexPad _ _)
  · refine Or.inl ⟨he, hquote, ?_⟩
    rintro rfl
    cases hshort

theorem escape_cons (c : Char) (s : Str) : escape (c :: s) = escapeChar c ++ escape s :=
  List.flatMap_cons

theorem escape_of_verbatim {w : Str} (hw : ∀ c ∈ w, Verbatim c) : escape w = w := by
  induction w with
  | nil => rfl
  | cons c w ih =>
    rw [escape_cons, hw c List.mem_cons_self, ih fun c hc => hw c (List.mem_cons_of_mem _ hc),
      List.singleton_append]

/-- A string does not go on with a quote. -/
theorem not_isPrefix_quote (c : Char) (s t rest : Str) :
    ¬List.IsPrefix ('"' :: t) (escape (c :: s) ++ rest) := by
  rw [escape_cons, List.append_assoc]
  intro hprefix
  rcases escapeChar_cases c with ⟨hverb, hne, -⟩ | ⟨-, he⟩ | ⟨-, -, e, he, -⟩
  · rw [hverb] at hprefix
    exact hne (List.cons_prefix_cons.mp hprefix).1.symm
  · rw [he] at hprefix
    exact absurd (List.cons_prefix_cons.mp hprefix).1 (by decide)
  · rw [he] at hprefix
    exact absurd (List.cons_prefix_cons.mp hprefix).1 (by decide)

/-- A word of verbatim characters and a quote start the inside of a string exactly if they are all
of it. -/
theorem isPrefix_escape_iff {w t rest : Str} (hw : ∀ c ∈ w, Verbatim c) : ∀ {s : Str},
    List.IsPrefix (w ++ '"' :: t) (escape s ++ '"' :: rest) ↔ s = w ∧ List.IsPrefix t rest := by
  induction w with
  | nil =>
    rintro (_ | ⟨c, s⟩)
    · rw [List.nil_append, escape, List.flatMap_nil, List.nil_append, List.cons_prefix_cons]
      exact and_congr (iff_of_true rfl rfl) Iff.rfl
    · exact ⟨fun h => absurd h (not_isPrefix_quote c s t _), fun h => absurd h.1 (by simp)⟩
  | cons a w ih =>
    have ha : a ≠ '"' ∧ a ≠ '\\' := by
      have hverb := hw a List.mem_cons_self
      refine ⟨?_, ?_⟩
      · rintro rfl
        cases hverb
      · rintro rfl
        cases hverb
    rintro (_ | ⟨c, s⟩)
    · refine ⟨fun h => absurd (List.cons_prefix_cons.mp h).1 ha.1, fun h => ?_⟩
      cases h.1
    · rw [escape_cons, List.append_assoc, List.cons_append, List.cons.injEq]
      rcases escapeChar_cases c with ⟨hverb, -⟩ | ⟨rfl, he⟩ | ⟨hverb, -, e, he, -⟩
      · rw [hverb, List.singleton_append, List.cons_prefix_cons,
          ih fun c hc => hw c (List.mem_cons_of_mem _ hc), eq_comm, and_assoc]
      · rw [he]
        refine ⟨fun h => absurd (List.cons_prefix_cons.mp h).1 ha.2, fun h => ?_⟩
        exact absurd h.1.1.symm ha.1
      · rw [he]
        refine ⟨fun h => absurd (List.cons_prefix_cons.mp h).1 ha.2, fun h => ?_⟩
        rw [h.1.1] at hverb
        exact absurd (hw a List.mem_cons_self) hverb

/-! ## The search -/

/-- The text after the first occurrence. -/
def afterFirst (needle : Str) : Str → Option Str
  | [] => if needle = [] then some [] else none
  | c :: s =>
    if List.IsPrefix needle (c :: s) then some ((c :: s).drop needle.length)
    else afterFirst needle s

/-- The quoted name of a field with a colon. -/
def needle (key : Str) : Str :=
  '"' :: (key ++ ['"', ':'])

/-- The names under which the search finds a field. -/
def Matches (key k : Str) : Prop :=
  k = key ∨ List.IsSuffix ('"' :: key) k

instance (key k : Str) : Decidable (Matches key k) :=
  inferInstanceAs (Decidable (_ ∨ _))

/-- A name that is written as it is and cannot follow a string. -/
structure Searchable (key : Str) : Prop where
  verbatim : ∀ c ∈ key, Verbatim c
  head : ∃ a k, key = a :: k ∧ a ∉ [',', ':', ']', '\x7d']

theorem afterFirst_skip {key p : Str} (hp : '"' ∉ p) (s : Str) :
    afterFirst (needle key) (p ++ s) = afterFirst (needle key) s := by
  induction p with
  | nil => rfl
  | cons c p ih =>
    obtain ⟨hc, hp⟩ := not_or.mp (mt List.mem_cons.mpr hp)
    rw [List.cons_append, afterFirst, if_neg, ih hp]
    intro hprefix
    exact hc (List.cons_prefix_cons.mp hprefix).1

/-- Two alternatives of one condition, taken one after the other. -/
theorem ite_ite_or_and {α : Type} {a b q : Prop} [Decidable a] [Decidable b] [Decidable q]
    (x y : α) : (if a ∧ q then x else if b ∧ q then x else y) = if (a ∨ b) ∧ q then x else y := by
  by_cases hq : q
  · by_cases ha : a <;> simp [ha, hq]
  · simp [hq]

section Strings

variable {key : Str} (hkey : Searchable key) {rest : Str}

include hkey

/-- A quote and a string up to its end. -/
theorem afterFirst_quote (s : Str) :
    afterFirst (needle key) ('"' :: (escape s ++ '"' :: rest)) =
      if s = key ∧ List.IsPrefix [':'] rest then some (rest.drop 1)
      else afterFirst (needle key) (escape s ++ '"' :: rest) := by
  have hiff : List.IsPrefix (needle key) ('"' :: (escape s ++ '"' :: rest)) ↔
      s = key ∧ List.IsPrefix [':'] rest := by
    rw [needle, List.cons_prefix_cons, isPrefix_escape_iff hkey.verbatim]
    exact and_iff_right rfl
  rw [afterFirst]
  by_cases hmatch : s = key ∧ List.IsPrefix [':'] rest
  · rw [if_pos (hiff.mpr hmatch), if_pos hmatch]
    obtain ⟨rfl, r, rfl⟩ := hmatch
    have hsplit : '"' :: (escape s ++ '"' :: ([':'] ++ r)) = needle s ++ r := by
      rw [escape_of_verbatim hkey.verbatim, needle]
      simp
    rw [hsplit, List.drop_left]
    rfl
  · rw [if_neg (mt hiff.mp hmatch), if_neg hmatch]

/-- The inside of a string, after which a colon may follow. -/
theorem afterFirst_escape (hrest : ¬List.IsPrefix (key ++ ['"', ':']) rest) (s : Str) :
    afterFirst (needle key) (escape s ++ '"' :: rest) =
      if List.IsSuffix ('"' :: key) s ∧ List.IsPrefix [':'] rest then some (rest.drop 1)
      else afterFirst (needle key) rest := by
  induction s with
  | nil =>
    rw [escape, List.flatMap_nil, List.nil_append, afterFirst, if_neg, if_neg]
    · rintro ⟨hsuffix, -⟩
      exact absurd (List.suffix_nil.mp hsuffix) (List.cons_ne_nil _ _)
    · exact fun h => hrest (List.cons_prefix_cons.mp h).2
  | cons c s ih =>
    have hskip : c ≠ '"' → '"' ∉ escapeChar c →
        afterFirst (needle key) (escape (c :: s) ++ '"' :: rest) =
          if List.IsSuffix ('"' :: key) (c :: s) ∧ List.IsPrefix [':'] rest then some (rest.drop 1)
          else afterFirst (needle key) rest := by
      intro hne hmem
      have hsuffix : List.IsSuffix ('"' :: key) (c :: s) ↔ List.IsSuffix ('"' :: key) s := by
        rw [List.suffix_cons_iff]
        exact or_iff_right fun h => hne (List.cons.inj h).1.symm
      rw [escape_cons, List.append_assoc, afterFirst_skip hmem, ih]
      simp only [hsuffix]
    rcases escapeChar_cases c with ⟨hverb, hne, -⟩ | ⟨rfl, he⟩ | ⟨-, hne, e, he, hmem⟩
    · refine hskip hne ?_
      rw [hverb]
      exact fun h => hne (List.mem_singleton.mp h).symm
    · have hsuffix : List.IsSuffix ('"' :: key) ('"' :: s) ↔
          s = key ∨ List.IsSuffix ('"' :: key) s := by
        rw [List.suffix_cons_iff, List.cons.injEq, eq_comm (a := key)]
        exact or_congr_left (and_iff_right rfl)
      have hback : '"' ∉ ['\\'] := by decide
      have hsplit : escape ('"' :: s) ++ '"' :: rest =
          ['\\'] ++ '"' :: (escape s ++ '"' :: rest) := by
        rw [escape_cons, he]
        rfl
      rw [hsplit, afterFirst_skip hback, afterFirst_quote hkey, ih]
      simp only [hsuffix]
      exact ite_ite_or_and _ _
    · refine hskip hne ?_
      rw [he]
      exact List.not_mem_cons_of_ne_of_not_mem (by decide) hmem

theorem afterFirst_writeString (hrest : ¬List.IsPrefix (key ++ ['"', ':']) rest) (s : Str) :
    afterFirst (needle key) (writeString s ++ rest) =
      if Matches key s ∧ List.IsPrefix [':'] rest then some (rest.drop 1)
      else afterFirst (needle key) rest := by
  have hsplit : writeString s ++ rest = '"' :: (escape s ++ '"' :: rest) := by
    rw [writeString, List.cons_append, List.append_assoc]
    rfl
  rw [hsplit, afterFirst_quote hkey, afterFirst_escape hkey hrest]
  exact ite_ite_or_and _ _

end Strings

/-! ## The search in the text of a value -/

/-- What can follow a value inside of an array or an object, or nothing. -/
def Closes (rest : Str) : Prop :=
  ∀ c ∈ rest.head?, c ∈ [',', ']', '\x7d']

/-- The value of the first field that the search finds. -/
def firstMatch (key : Str) (es : List (Str × Json)) : Option Json :=
  (es.find? fun e => Matches key e.1).map Prod.snd

/-- The search in a text that holds the fields `es` and goes on with `rest` : it stops before the
value of the first field that it finds, or goes on. -/
def Finds (key : Str) (es : List (Str × Json)) (text rest : Str) : Prop :=
  (∃ w t, firstMatch key es = some w ∧ NumbersPlain w ∧
    afterFirst (needle key) text = some (write w ++ t)) ∨
  firstMatch key es = none ∧ afterFirst (needle key) text = afterFirst (needle key) rest

section Finds

variable {key : Str} {es fs : List (Str × Json)} {p text mid rest : Str}

theorem Finds.append (h : Finds key es text mid) (h' : Finds key fs mid rest) :
    Finds key (es ++ fs) text rest := by
  unfold Finds firstMatch at *
  rw [List.find?_append]
  rcases h with ⟨w, t, hw, hplain, ht⟩ | ⟨hnone, ht⟩
  · obtain ⟨e, he, rfl⟩ := Option.map_eq_some_iff.mp hw
    rw [he]
    exact Or.inl ⟨e.2, t, rfl, hplain, ht⟩
  · rw [Option.map_eq_none_iff.mp hnone, ht]
    exact h'

theorem Finds.skip (hp : '"' ∉ p) (h : Finds key es text rest) : Finds key es (p ++ text) rest := by
  unfold Finds at *
  rwa [afterFirst_skip hp]

theorem Finds.skip_rest (hp : '"' ∉ p) (h : Finds key es text (p ++ rest)) :
    Finds key es text rest := by
  unfold Finds at *
  rwa [afterFirst_skip hp] at h

end Finds

theorem closes_cons {c : Char} (hc : c ∈ [',', ']', '\x7d']) (rest : Str) : Closes (c :: rest) := by
  intro c' hc'
  rwa [← Option.mem_some.mp hc']

theorem closes_writeItems (vs : List Json) {rest : Str} (hrest : Closes rest) :
    Closes (writeItems [','] vs ++ rest) := by
  rcases vs with _ | ⟨v, vs⟩
  · exact hrest
  · exact closes_cons (by decide) _

theorem closes_writeFields (fields : List (Str × Json)) {rest : Str} (hrest : Closes rest) :
    Closes (writeFields [','] fields ++ rest) := by
  rcases fields with _ | ⟨⟨k, v⟩, fields⟩
  · exact hrest
  · exact closes_cons (by decide) _

theorem quote_not_mem_of_number {text : Str} (h : ∀ c ∈ text, isNumberChar c) : '"' ∉ text :=
  fun hmem => absurd (h _ hmem) (by decide)

section Values

variable {key : Str}

theorem not_isPrefix_of_head (hkey : Searchable key) {c : Char}
    (hc : c ∈ [',', ':', ']', '\x7d']) (rest : Str) :
    ¬List.IsPrefix (key ++ ['"', ':']) (c :: rest) := by
  obtain ⟨a, k, rfl, ha⟩ := hkey.head
  intro h
  rw [List.cons_append, List.cons_prefix_cons] at h
  rw [h.1] at ha
  exact ha hc

theorem not_isPrefix_of_closes (hkey : Searchable key) {rest : Str} (hrest : Closes rest) :
    ¬List.IsPrefix (key ++ ['"', ':']) rest ∧ ¬List.IsPrefix [':'] rest := by
  rcases rest with _ | ⟨c, rest⟩
  · refine ⟨?_, by simp⟩
    rw [List.prefix_nil]
    simp
  · have hc := hrest c rfl
    refine ⟨not_isPrefix_of_head hkey ?_ rest, ?_⟩
    · have hsub : [',', ']', '\x7d'] ⊆ [',', ':', ']', '\x7d'] := by simp
      exact hsub hc
    · intro h
      rw [← (List.cons_prefix_cons.mp h).1] at hc
      revert hc
      decide

mutual

theorem afterFirst_write (hkey : Searchable key) : ∀ (v : Json) {rest : Str}, NumbersPlain v →
    Closes rest → Finds key (entries v) (write v ++ rest) rest
  | .null, rest, _, _ => Or.inr ⟨rfl, afterFirst_skip (by decide) rest⟩
  | .bool true, rest, _, _ => Or.inr ⟨rfl, afterFirst_skip (by decide) rest⟩
  | .bool false, rest, _, _ => Or.inr ⟨rfl, afterFirst_skip (by decide) rest⟩
  | .number text, rest, hv, _ =>
    Or.inr ⟨rfl, afterFirst_skip (quote_not_mem_of_number hv.2) rest⟩
  | .string s, rest, _, hrest => by
    obtain ⟨hneedle, hcolon⟩ := not_isPrefix_of_closes hkey hrest
    refine Or.inr ⟨rfl, ?_⟩
    exact (afterFirst_writeString hkey hneedle s).trans (if_neg fun h => hcolon h.2)
  | .array items, rest, hv, _ => by
    have hitems : Finds key (entriesItems items) (writeItems [] items ++ ']' :: rest)
        (']' :: rest) :=
      afterFirst_writeItems hkey items (by simp) hv (closes_cons (by decide) rest)
    have hsplit : write (.array items) ++ rest = ['['] ++ (writeItems [] items ++ ']' :: rest) := by
      simp [write]
    rw [hsplit]
    exact (hitems.skip_rest (p := [']']) (by decide)).skip (by decide)
  | .object fields, rest, hv, _ => by
    have hfields : Finds key (entriesFields fields) (writeFields [] fields ++ '\x7d' :: rest)
        ('\x7d' :: rest) :=
      afterFirst_writeFields hkey fields (by simp) hv (closes_cons (by decide) rest)
    have hsplit : write (.object fields) ++ rest =
        ['\x7b'] ++ (writeFields [] fields ++ '\x7d' :: rest) := by
      simp [write]
    rw [hsplit]
    exact (hfields.skip_rest (p := ['\x7d']) (by decide)).skip (by decide)

theorem afterFirst_writeItems (hkey : Searchable key) : ∀ (vs : List Json) {sep rest : Str},
    '"' ∉ sep → NumbersPlainItems vs → Closes rest →
    Finds key (entriesItems vs) (writeItems sep vs ++ rest) rest
  | [], _, _, _, _, _ => Or.inr ⟨rfl, rfl⟩
  | v :: vs, sep, rest, hsep, hv, hrest => by
    have hfirst := afterFirst_write hkey v hv.1 (closes_writeItems vs hrest)
    have hothers : Finds key (entriesItems vs) (writeItems [','] vs ++ rest) rest :=
      afterFirst_writeItems hkey vs (by decide) hv.2 hrest
    rw [writeItems, List.append_assoc, List.append_assoc]
    exact (hfirst.append hothers).skip hsep

theorem afterFirst_writeFields (hkey : Searchable key) : ∀ (fields : List (Str × Json))
    {sep rest : Str}, '"' ∉ sep → NumbersPlainFields fields → Closes rest →
    Finds key (entriesFields fields) (writeFields sep fields ++ rest) rest
  | [], _, _, _, _, _ => Or.inr ⟨rfl, rfl⟩
  | (k, v) :: fields, sep, rest, hsep, hv, hrest => by
    have hvalue := afterFirst_write hkey v hv.1 (closes_writeFields fields hrest)
    have hothers : Finds key (entriesFields fields) (writeFields [','] fields ++ rest) rest :=
      afterFirst_writeFields hkey fields (by decide) hv.2 hrest
    have hcolon := not_isPrefix_of_head hkey (c := ':') (by decide)
      (write v ++ (writeFields [','] fields ++ rest))
    have hkeyText := afterFirst_writeString hkey hcolon k
    rw [writeFields, List.append_assoc, List.append_assoc, List.cons_append, List.append_assoc]
    refine Finds.skip hsep ?_
    by_cases hmatch : Matches key k
    · refine Or.inl ⟨v, writeFields [','] fields ++ rest, ?_, hv.1, ?_⟩
      · rw [firstMatch, entriesFields, List.find?_cons_of_pos (by simpa using hmatch)]
        rfl
      · rw [hkeyText, if_pos ⟨hmatch, by simp⟩]
        rfl
    · have hrest' := (hvalue.append hothers).skip (p := [':']) (by decide)
      unfold Finds firstMatch at *
      rw [entriesFields, List.find?_cons_of_neg (by simpa using hmatch), hkeyText,
        if_neg fun h => hmatch h.1]
      exact hrest'

end

end Values

end JsonText
