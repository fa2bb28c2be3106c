import RelationalSdk.JsonValue
import RelationalSdk.Regex

/-!
# The grammar of JSON

`Value t v r` : the text `t` starts with a text of the value `v`, and `r` is what follows it. A
string is read character by character (`Chars`), up to the first quote that is not escaped.
`Denotes text v` : the text is a JSON text of `v`.

`Chars.cases_quote` is about a text that was put between quotes without escapes, before a comma and
another quote. A literal that starts there ends inside of it, and is then shorter unless the text
has nothing to escape, or it ends with the comma, because the text ends with a backslash. So the
literal is the text itself only if the text has nothing to escape (`clean_of_chars`).
-/

namespace JsonGrammar

open Text JsonValue RegularExpression Regex

/-! ## The grammar -/

def isWs (c : Char) : Bool :=
  c = ' ' || c = '\t' || c = '\n' || c = '\r'

inductive Ws : Str → Str → Prop
  | nil (t : Str) : Ws t t
  | cons {c : Char} {t r : Str} : isWs c → Ws t r → Ws (c :: t) r

/-- The letter after a backslash and what it stands for. -/
def shortEscapes : List (Char × Char) :=
  [('"', '"'), ('\\', '\\'), ('/', '/'), ('b', '\x08'), ('f', '\x0c'), ('n', '\n'), ('r', '\r'),
    ('t', '\t')]

/-- The number in four hexadecimal digits. -/
def Hex4 (ds : Str) (n : Nat) : Prop :=
  ∃ vs, List.Forall₂ (fun c v => digitValue c = some v) ds vs ∧ vs.length = 4 ∧
    n = vs.foldl (fun n v => n * 16 + v) 0

/-- A code point, or a pair of surrogates. -/
inductive Escape : Str → Char → Prop
  | short {e c : Char} : (e, c) ∈ shortEscapes → Escape ['\\', e] c
  | unicode {ds : Str} {c : Char} : Hex4 ds c.toNat → Escape ('\\' :: 'u' :: ds) c
  | pair {ds ds' : Str} {hi lo : Nat} {c : Char} : Hex4 ds hi → Hex4 ds' lo →
      0xD800 ≤ hi → hi < 0xDC00 → 0xDC00 ≤ lo → lo < 0xE000 →
      c.toNat = 0x10000 + (hi - 0xD800) * 0x400 + (lo - 0xDC00) →
      Escape ('\\' :: 'u' :: (ds ++ '\\' :: 'u' :: ds')) c

/-- A character that stands for itself in a string. -/
def Plain (c : Char) : Prop :=
  32 ≤ c.toNat ∧ c ≠ '"' ∧ c ≠ '\\'

instance (c : Char) : Decidable (Plain c) :=
  inferInstanceAs (Decidable (_ ∧ _))

/-- The inside of a string and its closing quote. -/
inductive Chars : Str → Str → Str → Prop
  | close (r : Str) : Chars ('"' :: r) [] r
  | plain {c : Char} {t s r : Str} : Plain c → Chars t s r → Chars (c :: t) (c :: s) r
  | escape {w : Str} {c : Char} {t s r : Str} : Escape w c → Chars t s r →
      Chars (w ++ t) (c :: s) r

def digit : RegularExpression Char :=
  oneOf ['0', '1', '2', '3', '4', '5', '6', '7', '8', '9']

/-- `-? ( 0 | [1-9] digit* ) ( . digit+ )? ( [eE] [+-]? digit+ )?`. -/
def number : RegularExpression Char :=
  opt (char '-') * ((char '0' +
    oneOf ['1', '2', '3', '4', '5', '6', '7', '8', '9'] * digit.star) *
      (opt (char '.' * many1 digit) *
        opt (oneOf ['e', 'E'] * (opt (oneOf ['+', '-']) * many1 digit))))

mutual

inductive Value : Str → Json → Str → Prop
  | null (r : Str) : Value ('n' :: 'u' :: 'l' :: 'l' :: r) .null r
  | true (r : Str) : Value ('t' :: 'r' :: 'u' :: 'e' :: r) (.bool true) r
  | false (r : Str) : Value ('f' :: 'a' :: 'l' :: 's' :: 'e' :: r) (.bool false) r
  | number {text : Str} (r : Str) : text ∈ number.matches' → Value (text ++ r) (.number text) r
  | string {t s r : Str} : Chars t s r → Value ('"' :: t) (.string s) r
  | emptyArray {t r : Str} : Ws t (']' :: r) → Value ('[' :: t) (.array []) r
  | array {t r : Str} {vs : List Json} : Items t vs r → Value ('[' :: t) (.array vs) r
  | emptyObject {t r : Str} : Ws t ('\x7d' :: r) → Value ('\x7b' :: t) (.object []) r
  | object {t r : Str} {fs : List (Str × Json)} : Members t fs r →
      Value ('\x7b' :: t) (.object fs) r

/-- The items of an array and its closing bracket. -/
inductive Items : Str → List Json → Str → Prop
  | last {t t₁ t₂ r : Str} {v : Json} : Ws t t₁ → Value t₁ v t₂ → Ws t₂ (']' :: r) →
      Items t [v] r
  | cons {t t₁ t₂ t₃ r : Str} {v : Json} {vs : List Json} : Ws t t₁ → Value t₁ v t₂ →
      Ws t₂ (',' :: t₃) → Items t₃ vs r → Items t (v :: vs) r

/-- The fields of an object and its closing brace. -/
inductive Members : Str → List (Str × Json) → Str → Prop
  | last {t t₁ t₂ t₃ t₄ t₅ r k : Str} {v : Json} : Ws t ('"' :: t₁) → Chars t₁ k t₂ →
      Ws t₂ (':' :: t₃) → Ws t₃ t₄ → Value t₄ v t₅ → Ws t₅ ('\x7d' :: r) → Members t [(k, v)] r
  | cons {t t₁ t₂ t₃ t₄ t₅ t₆ r k : Str} {v : Json} {fs : List (Str × Json)} :
      Ws t ('"' :: t₁) → Chars t₁ k t₂ → Ws t₂ (':' :: t₃) → Ws t₃ t₄ → Value t₄ v t₅ →
      Ws t₅ (',' :: t₆) → Members t₆ fs r → Members t ((k, v) :: fs) r

end

/-- The text is a JSON text of the value. -/
def Denotes (text : Str) (v : Json) : Prop :=
  ∃ t r, Ws text t ∧ Value t v r ∧ Ws r []

/-! ## Blanks and literals -/

theorem Ws.eq_of_not {c : Char} (hc : isWs c = false) {t r : Str} (h : Ws (c :: t) r) :
    r = c :: t := by
  cases h with
  | nil => rfl
  | cons hws _ =>
    rw [hc] at hws
    cases hws

theorem plain_of_all {w : Str} (h : w.all (fun c => Plain c) = true) : ∀ c ∈ w, Plain c :=
  fun c hc => of_decide_eq_true (List.all_eq_true.mp h c hc)

/-- Text with nothing to escape, and a quote. -/
theorem chars_of_plain {s : Str} (hs : ∀ c ∈ s, Plain c) (r : Str) : Chars (s ++ '"' :: r) s r := by
  induction s with
  | nil => exact .close r
  | cons c s ih =>
    exact .plain (hs c List.mem_cons_self) (ih fun c hc => hs c (List.mem_cons_of_mem _ hc))

theorem Hex4.quote_not_mem {ds : Str} {n : Nat} (h : Hex4 ds n) : '"' ∉ ds := by
  obtain ⟨vs, hvs, -, -⟩ := h
  induction hvs with
  | nil => exact List.not_mem_nil
  | cons hc _ ih =>
    refine List.not_mem_cons_of_ne_of_not_mem ?_ ih
    rintro rfl
    cases hc

/-- An escape starts with a backslash, and has no quote unless it is that of a quote. -/
theorem Escape.cases_quote {w : Str} {c : Char} (h : Escape w c) :
    ∃ e, w = '\\' :: e ∧ e ≠ [] ∧ (e = ['"'] ∨ '"' ∉ e) := by
  cases h with
  | @short e _ _ =>
    refine ⟨_, rfl, List.cons_ne_nil _ _, ?_⟩
    by_cases hquote : e = '"'
    · exact Or.inl (by rw [hquote])
    · exact Or.inr fun h => hquote (List.mem_singleton.mp h).symm
  | unicode hds =>
    refine ⟨_, rfl, List.cons_ne_nil _ _, Or.inr ?_⟩
    exact List.not_mem_cons_of_ne_of_not_mem (by decide) hds.quote_not_mem
  | pair hds hds' =>
    refine ⟨_, rfl, List.cons_ne_nil _ _, Or.inr ?_⟩
    refine List.not_mem_cons_of_ne_of_not_mem (by decide) ?_
    simp [hds.quote_not_mem, hds'.quote_not_mem]

/-- How a literal goes on at a character. -/
theorem Chars.inv {c : Char} {t s r : Str} (h : Chars (c :: t) s r) :
    (c = '"' ∧ s = [] ∧ r = t) ∨ (Plain c ∧ ∃ s', s = c :: s' ∧ Chars t s' r) ∨
      (c = '\\' ∧ ∃ e d t' s', e ≠ [] ∧ (e = ['"'] ∨ '"' ∉ e) ∧ t = e ++ t' ∧ s = d :: s' ∧
        Chars t' s' r) := by
  generalize hx : c :: t = x at h
  cases h with
  | close r =>
    obtain ⟨rfl, rfl⟩ := List.cons.inj hx
    exact Or.inl ⟨rfl, rfl, rfl⟩
  | plain hc h =>
    obtain ⟨rfl, rfl⟩ := List.cons.inj hx
    exact Or.inr (Or.inl ⟨hc, _, rfl, h⟩)
  | escape hw h =>
    obtain ⟨e, rfl, hne, hquote⟩ := hw.cases_quote
    obtain ⟨rfl, rfl⟩ := List.cons.inj hx
    exact Or.inr (Or.inr ⟨rfl, e, _, _, _, hne, hquote, rfl, rfl, h⟩)

theorem Chars.inv_quote {t s r : Str} (h : Chars ('"' :: t) s r) : s = [] ∧ r = t := by
  rcases h.inv with ⟨-, hs, hr⟩ | ⟨hplain, -⟩ | ⟨hback, -⟩
  · exact ⟨hs, hr⟩
  · exact absurd rfl hplain.2.1
  · exact absurd hback (by decide)

theorem Chars.inv_plain {c : Char} (hc : Plain c) {t s r : Str} (h : Chars (c :: t) s r) :
    ∃ s', s = c :: s' ∧ Chars t s' r := by
  rcases h.inv with ⟨hquote, -⟩ | ⟨-, hrest⟩ | ⟨hback, -⟩
  · exact absurd hquote hc.2.1
  · exact hrest
  · exact absurd hback hc.2.2

/-- A literal of text with nothing to escape. -/
theorem chars_plain_inv {w t r : Str} (hw : ∀ c ∈ w, Plain c) : ∀ {s : Str},
    Chars (w ++ '"' :: t) s r → s = w ∧ r = t := by
  induction w with
  | nil => exact Chars.inv_quote
  | cons c w ih =>
    intro s h
    obtain ⟨s', rfl, h'⟩ := h.inv_plain (hw c List.mem_cons_self)
    obtain ⟨rfl, rfl⟩ := ih (fun c hc => hw c (List.mem_cons_of_mem _ hc)) h'
    exact ⟨rfl, rfl⟩

theorem getLast?_append_of_some {x y : Str} {a : Char} (h : y.getLast? = some a) :
    (x ++ y).getLast? = some a := by
  rw [List.getLast?_append, h, Option.some_or]

/-- The escape ends in `u`, or it is a backslash at the end of `u` with the quote behind it. -/
theorem escape_split {u e t t' : Str} (hquote : e = ['"'] ∨ '"' ∉ e) (h : u ++ '"' :: t = e ++ t') :
    (u = [] ∧ t' = t) ∨ ∃ u', u = e ++ u' ∧ t' = u' ++ '"' :: t := by
  rcases List.append_eq_append_iff.mp h with ⟨a, rfl, ha⟩ | ⟨u', rfl, ht'⟩
  · rcases a with _ | ⟨c, a⟩
    · exact Or.inr ⟨[], by simp, ha.symm⟩
    · obtain ⟨rfl, rfl⟩ := List.cons.inj ha
      rcases hquote with hquote | hquote
      · rcases List.append_eq_singleton_iff.mp hquote with ⟨rfl, ha⟩ | ⟨-, ha⟩
        · obtain rfl := (List.cons.inj ha).2
          exact Or.inl ⟨rfl, rfl⟩
        · cases ha
      · exact absurd (by simp) hquote
  · exact Or.inr ⟨u', rfl, ht'⟩

/-- A literal that starts in `u` is shorter, or has nothing to escape, or ends with the comma behind
`u`. -/
theorem Chars.cases_quote {t r : Str} : ∀ {u s : Str}, Chars (u ++ '"' :: ',' :: '"' :: t) s r →
    s.length < u.length ∨ (∀ c ∈ u, Plain c) ∨
      u.getLast? = some '\\' ∧ s.getLast? = some ',' := by
  intro u
  induction hn : u.length using Nat.strong_induction_on generalizing u with
  | h n ih =>
    intro s h
    rcases u with _ | ⟨c, u⟩
    · exact Or.inr (Or.inl (by simp))
    rw [List.length_cons] at hn
    rcases h.inv with ⟨-, rfl, -⟩ | ⟨hplain, s', rfl, h'⟩ |
      ⟨rfl, e, d, t', s', hne, hquote, hsplit, rfl, h'⟩
    · exact Or.inl (by simp; omega)
    · rcases ih u.length (by omega) rfl h' with hlt | hall | ⟨hback, hcomma⟩
      · exact Or.inl (by rw [List.length_cons]; omega)
      · exact Or.inr (Or.inl (List.forall_mem_cons.mpr ⟨hplain, hall⟩))
      · exact Or.inr (Or.inr ⟨getLast?_append_of_some (x := [c]) hback,
          getLast?_append_of_some (x := [c]) hcomma⟩)
    · rcases escape_split hquote hsplit with ⟨rfl, rfl⟩ | ⟨u, rfl, rfl⟩
      · obtain ⟨s', rfl, h''⟩ := h'.inv_plain (by decide)
        obtain ⟨rfl, -⟩ := h''.inv_quote
        exact Or.inr (Or.inr ⟨rfl, rfl⟩)
      · have hpos := List.length_pos_iff.mpr hne
        rw [List.length_append] at hn
        rcases ih u.length (by omega) rfl h' with hlt | hall | ⟨hback, hcomma⟩
        · exact Or.inl (by rw [List.length_cons]; omega)
        · obtain ⟨rfl, -⟩ := chars_plain_inv hall h'
          exact Or.inl (by rw [List.length_cons]; omega)
        · exact Or.inr (Or.inr ⟨getLast?_append_of_some (x := '\\' :: e) hback,
            getLast?_append_of_some (x := [d]) hcomma⟩)

theorem clean_of_chars {u t r : Str} (h : Chars (u ++ '"' :: ',' :: '"' :: t) u r) :
    ∀ c ∈ u, Plain c := by
  rcases h.cases_quote with hlt | hplain | ⟨hback, hcomma⟩
  · exact absurd hlt (lt_irrefl _)
  · exact hplain
  · rw [hback] at hcomma
    cases hcomma

/-- An object whose text starts with a field. -/
theorem Value.members {t r : Str} {fs : List (Str × Json)}
    (h : Value ('\x7b' :: '"' :: t) (.object fs) r) : Members ('"' :: t) fs r := by
  generalize hx : '\x7b' :: '"' :: t = x at h
  cases h with
  | emptyObject hws =>
    obtain rfl := (List.cons.inj hx).2
    cases hws.eq_of_not rfl
  | object hmembers =>
    obtain rfl := (List.cons.inj hx).2
    exact hmembers

/-- The first field, with a name that has nothing to escape. -/
theorem Members.first {k t r : Str} {c : Char} {fs : List (Str × Json)} (hk : ∀ c ∈ k, Plain c)
    (hc : isWs c = false) (h : Members ('"' :: (k ++ '"' :: ':' :: c :: t)) fs r) :
    ∃ v t' fs', fs = (k, v) :: fs' ∧ Value (c :: t) v t' := by
  have hread : ∀ {t₁ t₂ t₃ t₄ k' : Str}, Ws ('"' :: (k ++ '"' :: ':' :: c :: t)) ('"' :: t₁) →
      Chars t₁ k' t₂ → Ws t₂ (':' :: t₃) → Ws t₃ t₄ → k' = k ∧ t₄ = c :: t := by
    intro t₁ t₂ t₃ t₄ k' hws hchars hcolon hvalue
    obtain rfl := (List.cons.inj (hws.eq_of_not rfl)).2
    obtain ⟨rfl, rfl⟩ := chars_plain_inv hk hchars
    obtain rfl := (List.cons.inj (hcolon.eq_of_not rfl)).2
    exact ⟨rfl, hvalue.eq_of_not hc⟩
  cases h with
  | last hws hchars hcolon hblank hvalue _ =>
    obtain ⟨rfl, rfl⟩ := hread hws hchars hcolon hblank
    exact ⟨_, _, [], rfl, hvalue⟩
  | cons hws hchars hcolon hblank hvalue _ _ =>
    obtain ⟨rfl, rfl⟩ := hread hws hchars hcolon hblank
    exact ⟨_, _, _, rfl, hvalue⟩

theorem Value.chars {t s r : Str} (h : Value ('"' :: t) (.string s) r) : Chars t s r := by
  generalize hx : '"' :: t = x at h
  cases h with
  | string hchars =>
    obtain rfl := (List.cons.inj hx).2
    exact hchars

/-! ## Numbers without exponent -/

def digitChar (d : Fin 10) : Char :=
  Char.ofNat (48 + d)

theorem mem_digit {x : Str} : x ∈ digit.matches' ↔ ∃ d, x = [digitChar d] := by
  rw [digit, mem_oneOf]
  have hlist : ['0', '1', '2', '3', '4', '5', '6', '7', '8', '9'] =
      (List.finRange 10).map digitChar := by decide
  rw [hlist]
  simp

/-- Digits without a leading zero. -/
def NoLeadingZero (ds : List (Fin 10)) : Prop :=
  ds = [0] ∨ ∃ d ds', ds = d :: ds' ∧ d ≠ 0

theorem mem_number (neg : Bool) {ds : List (Fin 10)} (hds : NoLeadingZero ds)
    (fs : List (Fin 10)) :
    (if neg then ['-'] else []) ++ (ds.map digitChar ++
      if fs = [] then [] else '.' :: fs.map digitChar) ∈ number.matches' := by
  have hsign : (if neg then ['-'] else []) ∈ (opt (char '-')).matches' := by
    cases neg with
    | true => exact Or.inr rfl
    | false => exact Or.inl rfl
  have hint : ds.map digitChar ∈ (char '0' +
      oneOf ['1', '2', '3', '4', '5', '6', '7', '8', '9'] * digit.star).matches' := by
    rcases hds with rfl | ⟨d, ds, rfl, hd⟩
    · exact mem_add.mpr (Or.inl rfl)
    · refine mem_add.mpr (Or.inr (mem_mul.mpr ⟨[digitChar d], (mem_oneOf _).mpr ⟨_, ?_, rfl⟩, _,
        (mem_star_of_letters fun _ => mem_digit).mpr ⟨ds, rfl⟩, rfl⟩))
      revert d
      decide
  have hfrac : (if fs = [] then [] else '.' :: fs.map digitChar) ∈
      (opt (char '.' * many1 digit)).matches' := by
    by_cases hfs : fs = []
    · exact Or.inl (if_pos hfs)
    · rw [if_neg hfs]
      exact Or.inr (mem_mul.mpr ⟨_, mem_char.mpr rfl, _,
        (mem_many1_of_letters fun _ => mem_digit).mpr ⟨fs, hfs, rfl⟩, rfl⟩)
  exact mem_mul.mpr ⟨_, hsign, _, mem_mul.mpr ⟨_, hint, _, mem_mul.mpr ⟨_, hfrac, [], Or.inl rfl,
    List.append_nil _⟩, rfl⟩, rfl⟩

end JsonGrammar
