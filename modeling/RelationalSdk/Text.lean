import Mathlib

/-!
# Text and its bytes

A text is its list of characters and a byte string its list of octets. `asBytes` is the
UTF-8 encoding and `fromUtf8` its inverse, defined exactly on the encodings
(`fromUtf8_eq_some_iff`). Comparing texts character by character is comparing their
encodings octet by octet. `fromUtf8Lossy` decodes any byte string, with U+FFFD for each
run of octets that starts no character, and is `fromUtf8` on the encodings
(`fromUtf8Lossy_asBytes`). `lines` cuts a text at its line feeds and drops the line
endings; `line_induction` is induction on the lines of a text. `trimBy` takes off both ends
of a list what satisfies a condition; `trimBy_eq_trimBy_iff` says when two conditions leave the
same.

`splitOnce` and `rsplitOnce` cut a text at the first and at the last separator, and
`splitOnce_eq_some_iff` and `rsplitOnce_eq_some_iff` say what the two parts are.

The last parts are about keys built by joining fields with a separator. A field
without the separator can be read back at the first separator
(`append_cons_inj_left`) or at the last one (`append_cons_inj_right`), whatever stands
on the other side. `joined_inj` reads back three joined fields of which only the
middle one is known to be free of the separator : a last field shorter than every
middle field cannot reach across one. Numbers in such keys are padded hexadecimal, so that
they compare as their digits do (`hexPad_lt_hexPad`).
-/

namespace Text

/-- A text, as its characters. -/
abbrev Str := List Char

/-- A byte string. -/
abbrev Bytes := List UInt8

instance lawfulBEqStr : LawfulBEq Str :=
  inferInstance

instance linearOrderUInt8 : LinearOrder UInt8 where
  le_refl := UInt8.le_refl
  le_trans _ _ _ := UInt8.le_trans
  le_antisymm _ _ := UInt8.le_antisymm
  le_total := UInt8.le_total
  lt_iff_le_not_ge a b := by
    rw [UInt8.lt_iff_toNat_lt, UInt8.le_iff_toNat_le, UInt8.le_iff_toNat_le]
    omega
  toDecidableLE := inferInstance
  toDecidableLT := inferInstance
  toDecidableEq := inferInstance

/-! ## UTF-8 -/

/-- The UTF-8 encoding of a text. -/
def asBytes (s : Str) : Bytes :=
  s.flatMap String.utf8EncodeChar

/-- The text a byte string encodes, if it is valid UTF-8. -/
def fromUtf8 (b : Bytes) : Option Str :=
  b.toByteArray.utf8Decode?.map Array.toList

/-- The length of a text in bytes. -/
def len (s : Str) : Nat :=
  (s.map Char.utf8Size).sum

@[simp] theorem asBytes_nil : asBytes [] = [] :=
  rfl

@[simp] theorem asBytes_cons (c : Char) (s : Str) :
    asBytes (c :: s) = String.utf8EncodeChar c ++ asBytes s :=
  rfl

@[simp] theorem asBytes_append (s t : Str) : asBytes (s ++ t) = asBytes s ++ asBytes t := by
  simp [asBytes]

theorem toByteArray_asBytes (s : Str) : (asBytes s).toByteArray = s.utf8Encode :=
  rfl

theorem toByteArray_inj {b b' : Bytes} (h : b.toByteArray = b'.toByteArray) : b = b' := by
  have := congrArg (fun a : ByteArray => a.data.toList) h
  simpa using this

/-- A byte string decodes to a text exactly if it is the encoding of that text. -/
theorem fromUtf8_eq_some_iff {b : Bytes} {s : Str} : fromUtf8 b = some s ↔ b = asBytes s := by
  unfold fromUtf8
  constructor
  · intro h
    obtain ⟨a, ha, rfl⟩ := Option.map_eq_some_iff.mp h
    have hget : b.toByteArray.utf8Decode?.get (by simp [ha]) = a := by simp [ha]
    have henc := ByteArray.utf8Encode_get_utf8Decode? (b := b.toByteArray) (h := by simp [ha])
    rw [hget] at henc
    exact toByteArray_inj henc.symm
  · rintro rfl
    rw [toByteArray_asBytes, List.utf8Decode?_utf8Encode]
    simp

@[simp] theorem fromUtf8_asBytes (s : Str) : fromUtf8 (asBytes s) = some s :=
  fromUtf8_eq_some_iff.mpr rfl

theorem asBytes_inj {s t : Str} : asBytes s = asBytes t ↔ s = t := by
  refine ⟨fun h => ?_, congrArg asBytes⟩
  rw [← Option.some_inj, ← fromUtf8_asBytes s, ← fromUtf8_asBytes t, h]

theorem length_le_len (s : Str) : s.length ≤ len s := by
  induction s with
  | nil => rfl
  | cons c s ih =>
    have := c.utf8Size_pos
    simp only [len, List.map_cons, List.sum_cons, List.length_cons] at ih ⊢
    omega

theorem toNat_lt_of_mem_utf8EncodeChar {c : Char} {b : UInt8}
    (h : b ∈ String.utf8EncodeChar c) : b.toNat < 248 := by
  have hofNat : ∀ n : Nat, n < 248 → (UInt8.ofNat n).toNat < 248 := by
    intro n hn
    rw [UInt8.toNat_ofNat']
    omega
  unfold String.utf8EncodeChar at h
  simp only at h
  split_ifs at h with h1 h2 h3 <;>
    simp only [List.mem_cons, List.not_mem_nil, or_false] at h
  · exact h ▸ hofNat _ (by omega)
  · rcases h with rfl | rfl <;> exact hofNat _ (by omega)
  · rcases h with rfl | rfl | rfl <;> exact hofNat _ (by omega)
  · rcases h with rfl | rfl | rfl | rfl <;> exact hofNat _ (by omega)

/-- The octet `0xFF` occurs in no UTF-8 encoding. -/
theorem fromUtf8_eq_none_of_mem_255 {b : Bytes} (h : 255 ∈ b) : fromUtf8 b = none := by
  rw [Option.eq_none_iff_forall_ne_some]
  intro s hs
  rw [fromUtf8_eq_some_iff.mp hs] at h
  obtain ⟨c, -, hc⟩ := List.mem_flatMap.mp h
  exact absurd (toNat_lt_of_mem_utf8EncodeChar hc) (by decide)

/-- A character encoded with an ASCII octet is that ASCII character. -/
theorem toNat_eq_of_mem_utf8EncodeChar {c : Char} {b : UInt8}
    (h : b ∈ String.utf8EncodeChar c) (hb : b.toNat < 128) : c.toNat = b.toNat := by
  have hhigh : ∀ n : Nat, 128 ≤ n → n < 256 → ¬(UInt8.ofNat n).toNat < 128 := by
    intro n hn hn'
    rw [UInt8.toNat_ofNat']
    omega
  unfold String.utf8EncodeChar at h
  simp only at h
  split_ifs at h with h1 h2 h3 <;>
    simp only [List.mem_cons, List.not_mem_nil, or_false] at h
  · rw [h, UInt8.toNat_ofNat']
    change c.val.toNat = _
    omega
  · rcases h with rfl | rfl <;> exact absurd hb (hhigh _ (by omega) (by omega))
  · rcases h with rfl | rfl | rfl <;> exact absurd hb (hhigh _ (by omega) (by omega))
  · rcases h with rfl | rfl | rfl | rfl <;> exact absurd hb (hhigh _ (by omega) (by omega))

/-- An ASCII octet encodes only its own character. -/
theorem eq_iff_of_mem_utf8EncodeChar {c c' : Char} {b b' : UInt8}
    (hb : b ∈ String.utf8EncodeChar c) (hb' : String.utf8EncodeChar c' = [b'])
    (hlt : b'.toNat < 128) : b = b' ↔ c = c' := by
  refine ⟨?_, ?_⟩
  · rintro rfl
    have hmem : b ∈ String.utf8EncodeChar c' := hb' ▸ List.mem_cons_self
    refine Char.toNat_inj.mp ?_
    rw [toNat_eq_of_mem_utf8EncodeChar hb hlt, toNat_eq_of_mem_utf8EncodeChar hmem hlt]
  · rintro rfl
    rw [hb'] at hb
    exact List.mem_singleton.mp hb

/-- `b` follows the lead octet `lead` of three or four in some encoding. -/
def followsLead (lead b : UInt8) : Bool :=
  if lead = 0xE0 then 0xA0 ≤ b && b ≤ 0xBF
  else if lead = 0xED then 0x80 ≤ b && b ≤ 0x9F
  else if lead = 0xF0 then 0x90 ≤ b && b ≤ 0xBF
  else if lead = 0xF4 then 0x80 ≤ b && b ≤ 0x8F
  else 0xE1 ≤ lead && lead ≤ 0xF3 && 0x80 ≤ b && b ≤ 0xBF

/-- The octets that one replacement character stands for, at the start of a byte string
that does not start with an encoded character : as many as could start one. -/
def invalidLen : Bytes → Nat
  | lead :: b :: rest =>
    if followsLead lead b then
      match rest with
      | b' :: _ => if 0xF0 ≤ lead && 0x80 ≤ b' && b' ≤ 0xBF then 3 else 2
      | [] => 2
    else 1
  | _ => 1

/-- Decode at most `fuel` characters. -/
def lossyFrom : Nat → Bytes → Str
  | 0, _ => []
  | _ + 1, [] => []
  | fuel + 1, b =>
    match b.toByteArray.utf8DecodeChar? 0 with
    | some c => c :: lossyFrom fuel (b.drop c.utf8Size)
    | none => '\uFFFD' :: lossyFrom fuel (b.drop (invalidLen b))

/-- A byte string as text, each invalid sequence replaced by U+FFFD. -/
def fromUtf8Lossy (b : Bytes) : Str :=
  lossyFrom b.length b

/-- An encoded character is read back whatever follows it. -/
theorem utf8DecodeChar?_append (c : Char) (b : Bytes) :
    (String.utf8EncodeChar c ++ b).toByteArray.utf8DecodeChar? 0 = some c := by
  rw [List.toByteArray_append]
  exact ByteArray.utf8DecodeChar?_utf8EncodeChar_append

theorem utf8EncodeChar_append_inj {c d : Char} {b b' : Bytes}
    (h : String.utf8EncodeChar c ++ b = String.utf8EncodeChar d ++ b') : c = d := by
  have hdecode := utf8DecodeChar?_append c b
  rw [h, utf8DecodeChar?_append] at hdecode
  exact (Option.some.inj hdecode).symm

/-- Where a text ends is told by a character it does not contain. -/
theorem asBytes_append_cons_inj {d : Char} {s t : Str} {b b' : Bytes} (hs : d ∉ s) (ht : d ∉ t)
    (h : asBytes s ++ (String.utf8EncodeChar d ++ b) =
      asBytes t ++ (String.utf8EncodeChar d ++ b')) : s = t := by
  induction s generalizing t with
  | nil =>
    cases t with
    | nil => rfl
    | cons c t =>
      rw [asBytes_nil, List.nil_append, asBytes_cons, List.append_assoc] at h
      exact absurd (utf8EncodeChar_append_inj h ▸ List.mem_cons_self) ht
  | cons c s ih =>
    cases t with
    | nil =>
      rw [asBytes_nil, List.nil_append, asBytes_cons, List.append_assoc] at h
      exact absurd (utf8EncodeChar_append_inj h ▸ List.mem_cons_self) hs
    | cons c' t =>
      rw [asBytes_cons, asBytes_cons, List.append_assoc, List.append_assoc] at h
      obtain rfl := utf8EncodeChar_append_inj h
      rw [ih (List.not_mem_of_not_mem_cons hs) (List.not_mem_of_not_mem_cons ht)
        (List.append_cancel_left h)]

theorem lossyFrom_asBytes {fuel : Nat} {s : Str} (h : (asBytes s).length ≤ fuel) :
    lossyFrom fuel (asBytes s) = s := by
  induction s generalizing fuel with
  | nil => cases fuel <;> rfl
  | cons c s ih =>
    have hlen : (asBytes (c :: s)).length = c.utf8Size + (asBytes s).length := by simp
    have hpos := c.utf8Size_pos
    obtain ⟨fuel, rfl⟩ : ∃ n, fuel = n + 1 := ⟨fuel - 1, by omega⟩
    have hdecode : (asBytes (c :: s)).toByteArray.utf8DecodeChar? 0 = some c :=
      utf8DecodeChar?_append c (asBytes s)
    have hdrop : (asBytes (c :: s)).drop c.utf8Size = asBytes s := by
      rw [asBytes_cons, ← String.length_utf8EncodeChar, List.drop_left]
    have hne : asBytes (c :: s) ≠ [] := by
      intro hnil
      rw [hnil] at hlen
      simp at hlen
      omega
    rw [lossyFrom, hdecode]
    · simp only [hdrop, ih (by omega : (asBytes s).length ≤ fuel)]
    · exact hne

/-- Valid UTF-8 loses nothing. -/
@[simp] theorem fromUtf8Lossy_asBytes (s : Str) : fromUtf8Lossy (asBytes s) = s :=
  lossyFrom_asBytes le_rfl

/-! ## Lines -/

section Lines

/-- The lines of a text, each with the line feed that ends it. -/
def splitInclusive : Str → List Str
  | [] => []
  | c :: s =>
    if c = '\n' then [c] :: splitInclusive s
    else
      match splitInclusive s with
      | [] => [[c]]
      | p :: ps => (c :: p) :: ps

/-- A line without its line ending, `\n` or `\r\n`. -/
def stripEol (p : Str) : Str :=
  if p.getLast? = some '\n' then
    if p.dropLast.getLast? = some '\r' then p.dropLast.dropLast else p.dropLast
  else p

/-- `str::lines` : a last line without `\n` is taken as it is. -/
def lines (s : Str) : List Str :=
  (splitInclusive s).map stripEol

theorem flatten_splitInclusive (s : Str) : (splitInclusive s).flatten = s := by
  induction s with
  | nil => rfl
  | cons c s ih =>
    rw [splitInclusive]
    split_ifs
    · exact congrArg (c :: ·) ih
    · split
      · rename_i hnil
        rw [hnil] at ih
        exact congrArg (c :: ·) ih
      · rename_i p ps hcons
        rw [hcons] at ih
        exact congrArg (c :: ·) ih

theorem splitInclusive_of_not_mem {l : Str} (hl : '\n' ∉ l) (hne : l ≠ []) :
    splitInclusive l = [l] := by
  induction l with
  | nil => exact absurd rfl hne
  | cons c l ih =>
    obtain ⟨hc, hl⟩ := not_or.mp (List.mem_cons.not.mp hl)
    rw [splitInclusive, if_neg (Ne.symm hc)]
    cases l with
    | nil => rfl
    | cons c' l => rw [ih hl (List.cons_ne_nil c' l)]

theorem splitInclusive_append {l : Str} (hl : '\n' ∉ l) (s : Str) :
    splitInclusive (l ++ '\n' :: s) = (l ++ ['\n']) :: splitInclusive s := by
  induction l with
  | nil => simp [splitInclusive]
  | cons c l ih =>
    obtain ⟨hc, hl⟩ := not_or.mp (List.mem_cons.not.mp hl)
    rw [List.cons_append, splitInclusive, if_neg (Ne.symm hc), ih hl]
    rfl

/-- A text is empty, or one line without an end, or a line and the text after it. -/
theorem line_induction {P : Str → Prop} (nil : P []) (last : ∀ l, '\n' ∉ l → l ≠ [] → P l)
    (cons : ∀ l s, '\n' ∉ l → P s → P (l ++ '\n' :: s)) (s : Str) : P s := by
  by_cases hnl : '\n' ∈ s
  · obtain ⟨l, t, hs, hl⟩ := List.eq_append_cons_of_mem hnl
    have hlt : t.length < s.length := by
      rw [hs, List.length_append, List.length_cons]
      omega
    rw [hs]
    exact cons l t hl (line_induction nil last cons t)
  · by_cases hs : s = []
    · exact hs ▸ nil
    · exact last s hnl hs
termination_by s.length

theorem stripEol_of_not_mem {l : Str} (hl : '\n' ∉ l) : stripEol l = l :=
  if_neg fun h => hl (List.mem_of_getLast? h)

theorem lines_of_not_mem {l : Str} (hl : '\n' ∉ l) (hne : l ≠ []) : lines l = [l] := by
  simp [lines, splitInclusive_of_not_mem hl hne, stripEol_of_not_mem hl]

theorem lines_append {l : Str} (hl : '\n' ∉ l) (s : Str) :
    lines (l ++ '\n' :: s) = stripEol (l ++ ['\n']) :: lines s := by
  simp [lines, splitInclusive_append hl]

/-- A line ends in `\n` or in `\r\n`. -/
theorem stripEol_append (l : Str) :
    l = stripEol (l ++ ['\n']) ∨ l = stripEol (l ++ ['\n']) ++ ['\r'] := by
  unfold stripEol
  rw [if_pos (by simp), List.dropLast_concat]
  split_ifs with h
  · exact Or.inr (List.dropLast_append_getLast? _ h).symm
  · exact Or.inl rfl

/-- The lines of a file that was written line by line. -/
theorem lines_flatMap {ls : List Str} (h : ∀ l ∈ ls, '\n' ∉ l ∧ '\r' ∉ l) :
    lines (ls.flatMap (· ++ ['\n'])) = ls := by
  induction ls with
  | nil => rfl
  | cons l ls ih =>
    obtain ⟨hfeed, hreturn⟩ := h l List.mem_cons_self
    have hstrip : stripEol (l ++ ['\n']) = l := by
      rcases stripEol_append l with heq | heq
      · exact heq.symm
      · exact absurd (heq ▸ List.mem_append_right _ (List.mem_singleton.mpr rfl)) hreturn
    rw [List.flatMap_cons, List.append_assoc, List.singleton_append, lines_append hfeed, hstrip,
      ih fun l' hl' => h l' (List.mem_cons_of_mem l hl')]

end Lines

/-! ## Whitespace -/

/-- The Unicode property `White_Space`. -/
def isWhitespace (c : Char) : Bool :=
  let n := c.toNat
  (9 ≤ n && n ≤ 13) || n == 0x20 || n == 0x85 || n == 0xA0 || n == 0x1680 ||
    (0x2000 ≤ n && n ≤ 0x200A) || n == 0x2028 || n == 0x2029 || n == 0x202F || n == 0x205F ||
    n == 0x3000

/-! ## Trimming -/

section Trim

variable {β : Type*} {p q : β → Bool} {l m x y : List β}

/-- Without what satisfies `p` at both ends. -/
def trimBy (p : β → Bool) (l : List β) : List β :=
  ((l.dropWhile p).reverse.dropWhile p).reverse

/-- A text without its leading and trailing whitespace. -/
def trim (s : Str) : Str :=
  trimBy isWhitespace s

/-- Neither end satisfies `p`. -/
def Trimmed (p : β → Bool) (m : List β) : Prop :=
  (∀ a, m.head? = some a → p a = false) ∧ ∀ a, m.getLast? = some a → p a = false

theorem Trimmed.reverse (h : Trimmed p m) : Trimmed p m.reverse := by
  refine ⟨fun a ha => h.2 a ?_, fun a ha => h.1 a ?_⟩
  · rwa [List.head?_reverse] at ha
  · rwa [List.getLast?_reverse] at ha

theorem Trimmed.mono (h : Trimmed q m) (hpq : ∀ a, p a → q a) : Trimmed p m := by
  refine ⟨fun a ha => ?_, fun a ha => ?_⟩
  · exact Bool.eq_false_iff.mpr fun hp => Bool.false_ne_true ((h.1 a ha).symm.trans (hpq a hp))
  · exact Bool.eq_false_iff.mpr fun hp => Bool.false_ne_true ((h.2 a ha).symm.trans (hpq a hp))

theorem Trimmed.append (hm : Trimmed p m) (hl : Trimmed p l) : Trimmed p (m ++ l) := by
  refine ⟨fun a ha => ?_, fun a ha => ?_⟩
  · rw [List.head?_append, Option.or_eq_some_iff] at ha
    exact ha.elim (hm.1 a) fun ha => hl.1 a ha.2
  · rw [List.getLast?_append, Option.or_eq_some_iff] at ha
    exact ha.elim (hl.2 a) fun ha => hm.2 a ha.2

theorem dropWhile_of_head (h : ∀ a, l.head? = some a → p a = false) : l.dropWhile p = l := by
  cases l with
  | nil => rfl
  | cons a l => exact List.dropWhile_cons_of_neg (by simp [h a rfl])

/-- What is left when both ends are taken off. -/
theorem trimBy_eq (hx : ∀ a ∈ x, p a) (hm : Trimmed p m) (hy : ∀ a ∈ y, p a) :
    trimBy p (x ++ (m ++ y)) = m := by
  unfold trimBy
  rw [List.dropWhile_append_of_pos hx]
  cases m with
  | nil =>
    rw [List.nil_append, List.dropWhile_eq_nil_iff.mpr hy]
    rfl
  | cons a m =>
    rw [dropWhile_of_head (l := a :: m ++ y) fun b hb => hm.1 b hb, List.reverse_append,
      List.dropWhile_append_of_pos fun b hb => hy b (List.mem_reverse.mp hb),
      dropWhile_of_head hm.reverse.1, List.reverse_reverse]

theorem Trimmed.trimBy_eq (hm : Trimmed p m) : trimBy p m = m := by
  have h := Text.trimBy_eq (x := []) (y := []) nofun hm nofun
  rwa [List.nil_append, List.append_nil] at h

/-- A list is what is left and its two ends. -/
theorem exists_trimBy (p : β → Bool) (l : List β) : ∃ x y, (∀ a ∈ x, p a) ∧ (∀ a ∈ y, p a) ∧
    l = x ++ (trimBy p l ++ y) ∧ Trimmed p (trimBy p l) := by
  have hfirst : ∀ (l : List β) a, (l.dropWhile p).head? = some a → p a = false := by
    intro l a ha
    have hhead := List.head?_dropWhile_not p l
    rw [ha] at hhead
    exact hhead
  have hback : l.dropWhile p = trimBy p l ++ ((l.dropWhile p).reverse.takeWhile p).reverse := by
    rw [trimBy, ← List.reverse_append, List.takeWhile_append_dropWhile, List.reverse_reverse]
  refine ⟨l.takeWhile p, ((l.dropWhile p).reverse.takeWhile p).reverse,
    fun a ha => List.mem_takeWhile_imp ha,
    fun a ha => List.mem_takeWhile_imp (List.mem_reverse.mp ha), ?_, ?_, ?_⟩
  · rw [← hback, List.takeWhile_append_dropWhile]
  · intro a ha
    refine hfirst l a ?_
    rw [hback, List.head?_append, ha]
    rfl
  · intro a ha
    rw [trimBy, List.getLast?_reverse] at ha
    exact hfirst _ a ha

theorem trimmed_trimBy (p : β → Bool) (l : List β) : Trimmed p (trimBy p l) := by
  obtain ⟨-, -, -, -, -, hm⟩ := exists_trimBy p l
  exact hm

theorem takeWhile_of_head (h : ∀ a, l.head? = some a → p a = false) : l.takeWhile p = [] := by
  cases l with
  | nil => rfl
  | cons a l => exact List.takeWhile_cons_of_neg (by simp [h a rfl])

/-- A text is cut where the first character stands that does not satisfy `p`. -/
theorem span_append (hx : ∀ a ∈ x, p a) (hy : ∀ a, y.head? = some a → p a = false) :
    (x ++ y).takeWhile p = x ∧ (x ++ y).dropWhile p = y := by
  rw [List.takeWhile_append_of_pos hx, List.dropWhile_append_of_pos hx, takeWhile_of_head hy,
    dropWhile_of_head hy, List.append_nil]
  exact ⟨rfl, rfl⟩

/-- The ends that `q` takes off satisfy `p` if `p` leaves the same. -/
theorem forall_mem_takeWhile (hpq : ∀ a, p a → q a) (hx : ∀ a ∈ x, p a) (hm : Trimmed q m)
    (hy : ∀ a ∈ y, p a) : ∀ a ∈ (x ++ (m ++ y)).takeWhile q, p a := by
  intro a ha
  rw [List.takeWhile_append_of_pos fun b hb => hpq b (hx b hb), List.mem_append] at ha
  rcases ha with ha | ha
  · exact hx a ha
  cases m with
  | nil => exact hy a ((List.takeWhile_sublist q).subset ha)
  | cons b m =>
    rw [takeWhile_of_head (l := b :: m ++ y) fun c hc => hm.1 c hc] at ha
    cases ha

/-- A stronger condition takes off the same if and only if it holds of all that `q` takes off. -/
theorem trimBy_eq_trimBy_iff (hpq : ∀ a, p a → q a) :
    trimBy p l = trimBy q l ↔ (∀ a ∈ l.takeWhile q, p a) ∧ ∀ a ∈ l.reverse.takeWhile q, p a := by
  obtain ⟨x, y, hx, hy, hl, hm⟩ := exists_trimBy q l
  refine ⟨fun heq => ?_, fun ⟨hleft, hright⟩ => ?_⟩
  · obtain ⟨x', y', hx', hy', hl', -⟩ := exists_trimBy p l
    rw [heq] at hl'
    refine ⟨?_, ?_⟩
    · rw [hl']
      exact forall_mem_takeWhile hpq hx' hm hy'
    · rw [hl', List.reverse_append, List.reverse_append, List.append_assoc]
      refine forall_mem_takeWhile hpq ?_ hm.reverse ?_
      · exact fun a ha => hy' a (List.mem_reverse.mp ha)
      · exact fun a ha => hx' a (List.mem_reverse.mp ha)
  · have hxp : ∀ a ∈ x, p a := fun a ha => by
      refine hleft a ?_
      rw [hl, List.takeWhile_append_of_pos hx]
      exact List.mem_append_left _ ha
    have hyp : ∀ a ∈ y, p a := fun a ha => by
      refine hright a ?_
      rw [hl, List.reverse_append, List.reverse_append, List.append_assoc,
        List.takeWhile_append_of_pos fun b hb => hy b (List.mem_reverse.mp hb)]
      exact List.mem_append_left _ (List.mem_reverse.mpr ha)
    nth_rewrite 1 [hl]
    exact trimBy_eq hxp (hm.mono hpq) hyp

end Trim

/-! ## Separators -/

/-- The largest character. -/
def maxChar : Char :=
  Char.ofNat 0x10FFFF

theorem le_maxChar (c : Char) : c ≤ maxChar := by
  have hc := c.valid
  have hmax : maxChar.val.toNat = 0x10FFFF := by decide
  rw [Char.le_def, UInt32.le_iff_toNat_le, hmax]
  simp only [UInt32.isValidChar, Nat.isValidChar] at hc
  omega

/-- The first `n - 1` segments of a text split at `sep`, and the rest of it. -/
def splitn (sep : Char) : Nat → Str → List Str
  | 0, _ => []
  | 1, s => [s]
  | n + 2, s =>
    if sep ∈ s then
      s.takeWhile (· ≠ sep) :: splitn sep (n + 1) (s.dropWhile (· ≠ sep)).tail
    else [s]

theorem splitn_append_cons {sep : Char} {x : Str} (hx : sep ∉ x) (n : Nat) (y : Str) :
    splitn sep (n + 2) (x ++ sep :: y) = x :: splitn sep (n + 1) y := by
  have hall : ∀ c ∈ x, (decide (c ≠ sep)) = true := by
    intro c hc
    simpa using ne_of_mem_of_not_mem hc hx
  rw [splitn, if_pos (by simp), List.takeWhile_append_of_pos hall,
    List.dropWhile_append_of_pos hall]
  simp

/-- The last segment of a text split at `sep` : `rsplit(sep).next()`. -/
def rsplitNext (sep : Char) (s : Str) : Str :=
  (s.reverse.takeWhile (· ≠ sep)).reverse

theorem rsplitNext_append_cons {sep : Char} {y : Str} (hy : sep ∉ y) (x : Str) :
    rsplitNext sep (x ++ sep :: y) = y := by
  have hall : ∀ c ∈ y.reverse, (decide (c ≠ sep)) = true := by
    intro c hc
    simpa using ne_of_mem_of_not_mem (List.mem_reverse.mp hc) hy
  have hrev : (x ++ sep :: y).reverse = y.reverse ++ sep :: x.reverse := by simp
  rw [rsplitNext, hrev, List.takeWhile_append_of_pos hall]
  simp

/-- `s.split_once(sep)`. -/
def splitOnce (sep : Char) (s : Str) : Option (Str × Str) :=
  if sep ∈ s then some (s.takeWhile (· ≠ sep), (s.dropWhile (· ≠ sep)).tail) else none

/-- `s.rsplit_once(sep)`. -/
def rsplitOnce (sep : Char) (s : Str) : Option (Str × Str) :=
  (splitOnce sep s.reverse).map fun p => (p.2.reverse, p.1.reverse)

theorem splitOnce_eq_some_iff {sep : Char} {s x y : Str} :
    splitOnce sep s = some (x, y) ↔ s = x ++ sep :: y ∧ sep ∉ x := by
  unfold splitOnce
  constructor
  · intro h
    split_ifs at h with hmem
    obtain ⟨a, b, rfl, ha⟩ := List.eq_append_cons_of_mem hmem
    have hall : ∀ c ∈ a, (decide (c ≠ sep)) = true := by
      intro c hc
      simpa using ne_of_mem_of_not_mem hc ha
    rw [List.takeWhile_append_of_pos hall, List.dropWhile_append_of_pos hall] at h
    obtain ⟨rfl, rfl⟩ : a = x ∧ b = y := by simpa using h
    exact ⟨rfl, ha⟩
  · rintro ⟨rfl, hx⟩
    have hall : ∀ c ∈ x, (decide (c ≠ sep)) = true := by
      intro c hc
      simpa using ne_of_mem_of_not_mem hc hx
    rw [if_pos (by simp), List.takeWhile_append_of_pos hall, List.dropWhile_append_of_pos hall]
    simp

theorem splitOnce_eq_none_iff {sep : Char} {s : Str} : splitOnce sep s = none ↔ sep ∉ s := by
  simp [splitOnce]

theorem rsplitOnce_eq_some_iff {sep : Char} {s x y : Str} :
    rsplitOnce sep s = some (x, y) ↔ s = x ++ sep :: y ∧ sep ∉ y := by
  have hrev : s.reverse = y.reverse ++ sep :: x.reverse ↔ s = x ++ sep :: y := by
    rw [List.reverse_eq_iff]
    simp
  have h : splitOnce sep s.reverse = some (y.reverse, x.reverse) ↔ s = x ++ sep :: y ∧ sep ∉ y := by
    rw [splitOnce_eq_some_iff, hrev, List.mem_reverse]
  rw [← h, rsplitOnce, Option.map_eq_some_iff]
  constructor
  · rintro ⟨⟨a, b⟩, hab, heq⟩
    obtain ⟨rfl, rfl⟩ := Prod.mk.inj heq
    simpa using hab
  · intro hsplit
    exact ⟨_, hsplit, by simp⟩

theorem rsplitOnce_eq_none_iff {sep : Char} {s : Str} : rsplitOnce sep s = none ↔ sep ∉ s := by
  rw [rsplitOnce, Option.map_eq_none_iff, splitOnce_eq_none_iff, List.mem_reverse]

section Separators

variable {β : Type*} {sep : β}

/-- No separator stands before the end of a field without one. -/
theorem length_le_of_append_cons_eq {x x' y y' : List β} (hx : sep ∉ x)
    (h : x ++ sep :: y = x' ++ sep :: y') : x.length ≤ x'.length := by
  induction x generalizing x' with
  | nil => exact Nat.zero_le _
  | cons a x ih =>
    cases x' with
    | nil =>
      obtain ⟨rfl, -⟩ := List.cons.inj h
      exact absurd List.mem_cons_self hx
    | cons b x' =>
      obtain ⟨-, ht⟩ := List.cons.inj h
      exact Nat.succ_le_succ (ih (List.not_mem_of_not_mem_cons hx) ht)

/-- A field without the separator ends at the first one. -/
theorem append_cons_inj_left {x x' y y' : List β} (hx : sep ∉ x) (hx' : sep ∉ x')
    (h : x ++ sep :: y = x' ++ sep :: y') : x = x' ∧ y = y' := by
  have hlen : x.length = x'.length :=
    le_antisymm (length_le_of_append_cons_eq hx h) (length_le_of_append_cons_eq hx' h.symm)
  obtain ⟨rfl, ht⟩ := List.append_inj h hlen
  exact ⟨rfl, (List.cons.inj ht).2⟩

/-- A field without the separator starts after the last one. -/
theorem append_cons_inj_right {x x' y y' : List β} (hy : sep ∉ y) (hy' : sep ∉ y')
    (h : x ++ sep :: y = x' ++ sep :: y') : x = x' ∧ y = y' := by
  have hrev : y.reverse ++ sep :: x.reverse = y'.reverse ++ sep :: x'.reverse := by
    simpa using congrArg List.reverse h
  obtain ⟨h1, h2⟩ := append_cons_inj_left (by simpa using hy) (by simpa using hy') hrev
  exact ⟨List.reverse_injective h2, List.reverse_injective h1⟩

/-- A last field that is longer than another reading of it starts before the middle
field, so it is longer than that field. -/
theorem length_last_le {n : Nat} {x x' y y' z z' : List β} (hy : sep ∉ y) (hny : n ≤ y.length)
    (hz' : z'.length ≤ n)
    (h : x ++ sep :: (y ++ sep :: z) = x' ++ sep :: (y' ++ sep :: z')) :
    z'.length ≤ z.length := by
  by_contra hlt
  have hrev : z.reverse ++ sep :: (y.reverse ++ sep :: x.reverse) =
      z'.reverse ++ sep :: (y'.reverse ++ sep :: x'.reverse) := by
    simpa using congrArg List.reverse h
  obtain ⟨w, hw, hw'⟩ | ⟨w, hw, -⟩ := List.append_eq_append_iff.mp hrev
  · have hwlen := congrArg List.length hw
    simp only [List.length_append, List.length_reverse] at hwlen
    cases w with
    | nil => simp at hwlen; omega
    | cons a w =>
      obtain ⟨rfl, ht⟩ := List.cons.inj hw'
      have := length_le_of_append_cons_eq (by simpa using hy) ht
      simp only [List.length_reverse, List.length_cons] at this hwlen
      omega
  · have hwlen := congrArg List.length hw
    simp only [List.length_append, List.length_reverse] at hwlen
    omega

/-- Three joined fields, the middle one free of the separator and at least as long as
any last field can be, are read back whatever separators the outer fields contain. -/
theorem joined_inj {n : Nat} {x x' y y' z z' : List β} (hy : sep ∉ y) (hy' : sep ∉ y')
    (hny : n ≤ y.length) (hny' : n ≤ y'.length) (hz : z.length ≤ n) (hz' : z'.length ≤ n)
    (h : x ++ sep :: (y ++ sep :: z) = x' ++ sep :: (y' ++ sep :: z')) :
    x = x' ∧ y = y' ∧ z = z' := by
  have hlen : (sep :: z).length = (sep :: z').length :=
    congrArg Nat.succ
      (le_antisymm (length_last_le hy' hny' hz h.symm) (length_last_le hy hny hz' h))
  have h1 : (x ++ sep :: y) ++ sep :: z = (x' ++ sep :: y') ++ sep :: z' := by simpa using h
  obtain ⟨h2, h3⟩ := List.append_inj' h1 hlen
  obtain ⟨rfl, rfl⟩ := append_cons_inj_right hy hy' h2
  exact ⟨rfl, rfl, (List.cons.inj h3).2⟩

/-- A field and a separator stand at the start of joined fields in three ways : as the first
field, within it, or beyond it. -/
theorem isPrefix_append_cons_iff {x y z : List β} :
    List.IsPrefix (x ++ [sep]) (y ++ sep :: z) ↔
      x = y ∨ List.IsPrefix (x ++ [sep]) y ∨
        ∃ x', x = y ++ sep :: x' ∧ List.IsPrefix (x' ++ [sep]) z := by
  constructor
  · intro h
    have hx : List.IsPrefix x (y ++ sep :: z) := (List.prefix_append x [sep]).trans h
    have hy : List.IsPrefix y (y ++ sep :: z) := List.prefix_append y _
    have hy' : List.IsPrefix (y ++ [sep]) (y ++ sep :: z) := ⟨z, by simp⟩
    rcases lt_trichotomy x.length y.length with hlt | heq | hgt
    · refine Or.inr (Or.inl (List.prefix_of_prefix_length_le h hy ?_))
      simpa using hlt
    · exact Or.inl ((List.prefix_of_prefix_length_le hx hy heq.le).eq_of_length heq)
    · obtain ⟨x', rfl⟩ := List.prefix_of_prefix_length_le hy' hx (by simpa using hgt)
      refine Or.inr (Or.inr ⟨x', by simp, ?_⟩)
      rw [← List.prefix_append_right_inj (y ++ [sep])]
      simpa using h
  · rintro (rfl | h | ⟨x', rfl, h⟩)
    · exact ⟨z, by simp⟩
    · exact h.trans (List.prefix_append y _)
    · obtain ⟨t, rfl⟩ := h
      exact ⟨t, by simp⟩

/-- No field is followed by a separator in a text without one. -/
theorem not_isPrefix_concat {x y : List β} (hy : sep ∉ y) : ¬List.IsPrefix (x ++ [sep]) y :=
  fun h => hy (h.subset (by simp))

/-- Two words without the separator are equal if one with a separator after it begins with
the other with a separator after it. -/
theorem isPrefix_append_cons_iff_eq {x y z : List β} (hx : sep ∉ x) (hy : sep ∉ y) :
    List.IsPrefix (x ++ [sep]) (y ++ sep :: z) ↔ x = y := by
  rw [isPrefix_append_cons_iff]
  constructor
  · rintro (h | h | ⟨x', rfl, -⟩)
    · exact h
    · exact absurd h (not_isPrefix_concat hy)
    · exact absurd (by simp) hx
  · exact Or.inl

end Separators

/-! ## Hexadecimal numbers -/

/-- A lower-case hexadecimal digit. -/
def hexDigit (d : Nat) : Char :=
  "0123456789abcdef".toList.getD d '0'

theorem hexDigit_lt_hexDigit {d e : Nat} (h : d < e) (he : e < 16) :
    hexDigit d < hexDigit e := by
  have hall : ∀ e : Fin 16, ∀ d : Fin 16, d < e → hexDigit d < hexDigit e := by decide
  exact hall ⟨e, he⟩ ⟨d, h.trans he⟩ h

theorem hexDigit_mem (d : Nat) : hexDigit d ∈ "0123456789abcdef".toList := by
  unfold hexDigit
  by_cases hd : d < 16
  · have hall : ∀ d : Fin 16, hexDigit d ∈ "0123456789abcdef".toList := by decide
    exact hall ⟨d, hd⟩
  · rw [List.getD_eq_default _ _ (by simpa using hd)]
    decide

section Padded

variable {b : Nat} {digit : Nat → Char}

/-- A number in `n` digits of base `b`, the most significant first. -/
def padTo (b : Nat) (digit : Nat → Char) : Nat → Nat → Str
  | 0, _ => []
  | n + 1, v => digit (v / b ^ n) :: padTo b digit n (v % b ^ n)

theorem length_padTo : ∀ n v, (padTo b digit n v).length = n
  | 0, _ => rfl
  | n + 1, v => by rw [padTo, List.length_cons, length_padTo]

/-- The leading digits are those of the quotient. -/
theorem padTo_add (hb : 0 < b) : ∀ {m n v : Nat}, v < b ^ (m + n) →
    padTo b digit (m + n) v = padTo b digit m (v / b ^ n) ++ padTo b digit n (v % b ^ n)
  | 0, n, v, hv => by
    rw [Nat.zero_add] at hv ⊢
    rw [padTo, List.nil_append, Nat.mod_eq_of_lt hv]
  | m + 1, n, v, _ => by
    have hquot : v % b ^ (m + n) / b ^ n = v / b ^ n % b ^ m := by
      rw [Nat.add_comm m n, pow_add, Nat.mod_mul_right_div_self]
    have hrem : v % b ^ (m + n) % b ^ n = v % b ^ n := by
      rw [pow_add, Nat.mod_mul_left_mod]
    have hlead : v / b ^ (m + n) = v / b ^ n / b ^ m := by
      rw [Nat.div_div_eq_div_mul, ← pow_add, Nat.add_comm]
    rw [Nat.add_right_comm, padTo, padTo_add hb (Nat.mod_lt _ (Nat.pow_pos hb)), hquot, hrem, hlead,
      padTo, List.cons_append]

/-- Numbers that fit compare as their digits do. -/
theorem padTo_lt_padTo (hb : 0 < b) (hdigit : ∀ {d e}, d < e → e < b → digit d < digit e) :
    ∀ {n v w : Nat}, v < w → w < b ^ n → padTo b digit n v < padTo b digit n w
  | 0, v, w, hvw, hw => by simp at hw; omega
  | n + 1, v, w, hvw, hw => by
    have hpos : 0 < b ^ n := Nat.pow_pos hb
    have hlead : w / b ^ n < b := by
      rw [Nat.div_lt_iff_lt_mul hpos, ← pow_succ']
      exact hw
    rw [padTo, padTo, List.cons_lt_cons_iff]
    rcases (Nat.div_le_div_right (c := b ^ n) hvw.le).lt_or_eq with hlt | heq
    · exact Or.inl (hdigit hlt hlead)
    · refine Or.inr ⟨by rw [heq], padTo_lt_padTo hb hdigit ?_ (Nat.mod_lt _ hpos)⟩
      have hv := Nat.div_add_mod v (b ^ n)
      have hw' := Nat.div_add_mod w (b ^ n)
      rw [heq] at hv
      omega

end Padded

/-- A number in `n` hexadecimal digits, the most significant first. -/
def hexPad : Nat → Nat → Str :=
  padTo 16 hexDigit

theorem mem_hexPad {c : Char} : ∀ {n v : Nat}, c ∈ hexPad n v → c ∈ "0123456789abcdef".toList
  | 0, _, h => by cases h
  | n + 1, v, h => by
    rcases List.mem_cons.mp h with rfl | h
    · exact hexDigit_mem _
    · exact mem_hexPad h

theorem length_hexPad (n v : Nat) : (hexPad n v).length = n :=
  length_padTo n v

theorem hexPad_lt_hexPad {n a b : Nat} (hab : a < b) (hb : b < 16 ^ n) :
    hexPad n a < hexPad n b :=
  padTo_lt_padTo (by decide) hexDigit_lt_hexDigit hab hb

theorem le_of_hexPad_le {n a b : Nat} (ha : a < 16 ^ n) (h : hexPad n a ≤ hexPad n b) :
    a ≤ b := by
  by_contra hba
  exact absurd (hexPad_lt_hexPad (not_le.mp hba) ha) (not_lt.mpr h)

/-- `char::to_digit` to the base sixteen. -/
def digitValue (c : Char) : Option Nat :=
  if '0' ≤ c ∧ c ≤ '9' then some (c.toNat - 48)
  else if 'a' ≤ c ∧ c ≤ 'f' then some (c.toNat - 87)
  else if 'A' ≤ c ∧ c ≤ 'F' then some (c.toNat - 55)
  else none

theorem digitValue_lt {c : Char} {x : Nat} (h : digitValue c = some x) :
    x < 16 ∧ c.toNat < 128 := by
  unfold digitValue at h
  split_ifs at h with h1 h2 h3
  all_goals
    obtain rfl := Option.some_inj.mp h
  · obtain ⟨hlo, hhi⟩ : 48 ≤ c.toNat ∧ c.toNat ≤ 57 := h1
    omega
  · obtain ⟨hlo, hhi⟩ : 97 ≤ c.toNat ∧ c.toNat ≤ 102 := h2
    omega
  · obtain ⟨hlo, hhi⟩ : 65 ≤ c.toNat ∧ c.toNat ≤ 70 := h3
    omega

theorem digitValue_hexDigit {d : Nat} (hd : d < 16) : digitValue (hexDigit d) = some d := by
  have hall : ∀ d : Fin 16, digitValue (hexDigit d) = some d.val := by decide
  exact hall ⟨d, hd⟩

end Text
