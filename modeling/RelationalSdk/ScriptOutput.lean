import RelationalSdk.JsonGrammar
import RelationalSdk.NumberParser
import RelationalSdk.ScriptArgs

/-!
# The output of the sample script

`run` of `drt-examples/mean` writes its result as JSON, put together from pieces : the name of the
column as it is (`format_result`), the text of an error with escapes (`format_error`), and the
numbers in decimal. The host parses it, and takes it as a plain string if that fails.

`outputOk_iff` : the output is a JSON object, and names the column and the counts, if and only if
the run fails or the name of the column has nothing to escape : no quote, no backslash and no
control character.

Floating point numbers are a parameter with the operations that the script uses (`FloatOps`).
-/

namespace RelationalSdk

open Text JsonValue IndexLoops JsonGrammar

/-- The operations on floating point numbers, with `as u64` and the tests. -/
class FloatOps (V : Type) extends Zero V, Add V, Sub V, Mul V, Div V, Neg V, NatCast V,
    OfScientific V where
  isNan : V → Bool
  isInfinite : V → Bool
  isNegative : V → Bool
  isZero : V → Bool
  toU64 : V → Nat
  toU64_lt : ∀ v, toU64 v < 2 ^ 64

section Script

variable {V : Type} [FloatOps V]

/-! ## The script -/

/-- The loop of `push_u64`, from the end of its buffer. -/
def pushU64Loop : Nat → Nat → Str → Str
  | 0, _, acc => acc
  | i + 1, n, acc =>
    if n = 0 then acc else pushU64Loop i (n / 10) (Char.ofNat (48 + n % 10) :: acc)

def pushU64 (n : Nat) : Str :=
  if n = 0 then ['0'] else pushU64Loop 20 n []

/-- The loop over the digits after the point. -/
def pushFraction : Nat → V → Str
  | 0, _ => []
  | i + 1, frac =>
    Char.ofNat (48 + FloatOps.toU64 (frac * (10.0 : V)) % 10) :: pushFraction i (frac * (10.0 : V))

def pushF64 (n : V) : Str :=
  if FloatOps.isNan n || FloatOps.isInfinite n then ['n', 'u', 'l', 'l']
  else
    let neg := FloatOps.isNegative n
    let n := if neg then -n else n
    let intPart := FloatOps.toU64 n
    let frac := n - (intPart : V)
    (if neg then ['-'] else []) ++ (pushU64 intPart ++
      if FloatOps.isZero frac then [] else '.' :: pushFraction 6 frac)

def formatResult (column : Str) (stats : MeanStats V) : Str :=
  "\x7b\"column\":\"".toList ++ (column ++ ("\",\"count\":".toList ++ (pushU64 stats.count ++
    (",\"skipped\":".toList ++ (pushU64 stats.skipped ++ (",\"mean\":".toList ++
      (pushF64 stats.mean ++ ['\x7d'])))))))

/-- A character of an error message. Control characters other than line feeds are left out. -/
def errorChar (c : Char) : Str :=
  if c = '"' then ['\\', '"']
  else if c = '\\' then ['\\', '\\']
  else if c = '\n' then ['\\', 'n']
  else if c.toNat < 32 then []
  else [c]

def formatError (msg : Str) : Str :=
  "\x7b\"error\":\"".toList ++ (msg.flatMap errorChar ++ "\"\x7d".toList)

def runInner (csv args : Bytes) : Exec (Except (Nat × Str) Str) :=
  match fromUtf8 args with
  | none => pure (.error (2, "args not UTF-8".toList))
  | some argsStr =>
    match extractStringField argsStr columnKey with
    | none => pure (.error (2, "missing 'column' arg".toList))
    | some column => do
      let mean ← Indexed.computeMean (parseF64Bytes (V := V)) (csv.length + 2) csv (asBytes column)
      match mean with
      | .error m => pure (.error (3, m.toList))
      | .ok stats => pure (.ok (formatResult column stats))

/-- The exit code and the body. -/
def run (csv args : Bytes) : Exec (Nat × Str) := do
  match ← runInner (V := V) csv args with
  | .ok body => pure (0, body)
  | .error (code, m) => pure (code, formatError m)

/-! ## What the output is to say -/

/-- The value of a decimal text. -/
def natOfText (text : Str) : Option Nat :=
  if text ≠ [] ∧ ∀ c ∈ text, c.isDigit then
    some (text.foldl (fun v c => v * 10 + (c.toNat - 48)) 0)
  else none

/-- A number in JSON that is a natural number. -/
def IsNat (n : Nat) (v : Json) : Prop :=
  ∃ text, v = .number text ∧ natOfText text = some n

/-- The object has the field, and it is as wanted. -/
def HasField (fields : List (Str × Json)) (key : Str) (P : Json → Prop) : Prop :=
  (∃ v, (key, v) ∈ fields) ∧ ∀ v, (key, v) ∈ fields → P v

/-- The run is one for the column `c`, with success. -/
def Succeeds (csv args : Bytes) (c : Str) (stats : MeanStats V) : Prop :=
  ∃ argsStr, fromUtf8 args = some argsStr ∧ extractStringField argsStr columnKey = some c ∧
    plainMean parseF64Bytes csv (asBytes c) = .ok stats

variable (V) in
/-- The body is a JSON object, with the column and the counts in the case of success. -/
def OutputOk (csv args : Bytes) : Prop :=
  ∃ code body fields, run (V := V) csv args = .ok (code, body) ∧ Denotes body (.object fields) ∧
    ∀ (c : Str) (stats : MeanStats V), Succeeds csv args c stats →
      code = 0 ∧ HasField fields columnKey (· = .string c) ∧
        HasField fields "count".toList (IsNat stats.count) ∧
        HasField fields "skipped".toList (IsNat stats.skipped)

/-! ## Numbers -/

theorem digitChar_mod (n : Nat) :
    Char.ofNat (48 + n % 10) = digitChar ⟨n % 10, Nat.mod_lt n (by decide)⟩ :=
  rfl

theorem pushU64Loop_zero (i : Nat) (acc : Str) : pushU64Loop i 0 acc = acc := by
  cases i with
  | zero => rfl
  | succ i => exact if_pos rfl

/-- The loop writes the digits of the number in front. -/
theorem pushU64Loop_spec {i : Nat} : ∀ {n : Nat} (acc : Str), 0 < n → n < 10 ^ i →
    ∃ (d : Fin 10) (ds : Digits), pushU64Loop i n acc = (d :: ds).map digitChar ++ acc ∧ d ≠ 0 ∧
      Digits.value (d :: ds) = n := by
  induction i with
  | zero =>
    intro n acc hpos hlt
    omega
  | succ i ih =>
    intro n acc hpos hlt
    rw [pushU64Loop, if_neg hpos.ne', digitChar_mod]
    by_cases hone : n / 10 = 0
    · refine ⟨⟨n % 10, Nat.mod_lt n (by decide)⟩, [], ?_, ?_, ?_⟩
      · rw [hone, pushU64Loop_zero]
        rfl
      · intro hzero
        have hmod : n % 10 = 0 := congrArg Fin.val hzero
        omega
      · have hvalue := Digits.value_concat [] ⟨n % 10, Nat.mod_lt n (by decide)⟩
        rw [List.nil_append] at hvalue
        rw [hvalue]
        simp [Digits.value]
        omega
    · obtain ⟨d, ds, hloop, hd, hvalue⟩ :=
        ih (digitChar ⟨n % 10, Nat.mod_lt n (by decide)⟩ :: acc) (Nat.pos_of_ne_zero hone)
          (Nat.div_lt_of_lt_mul (by rw [← pow_succ']; exact hlt))
      refine ⟨d, ds ++ [⟨n % 10, Nat.mod_lt n (by decide)⟩], ?_, hd, ?_⟩
      · rw [hloop]
        simp
      · rw [← List.cons_append, Digits.value_concat, hvalue]
        exact Nat.div_add_mod' n 10

/-- The digits that are written. -/
theorem exists_digits_pushU64 {n : Nat} (hn : n < 2 ^ 64) : ∃ ds : Digits,
    pushU64 n = ds.map digitChar ∧ NoLeadingZero ds ∧ ds.value = n := by
  unfold pushU64
  by_cases hzero : n = 0
  · exact ⟨[0], if_pos hzero, Or.inl rfl, by rw [hzero]; rfl⟩
  · obtain ⟨d, ds, hloop, hd, hvalue⟩ := pushU64Loop_spec (i := 20) []
      (Nat.pos_of_ne_zero hzero) (by omega)
    refine ⟨d :: ds, ?_, Or.inr ⟨d, ds, rfl, hd⟩, hvalue⟩
    rw [if_neg hzero, hloop, List.append_nil]

theorem natOfText_digits {ds : Digits} (hne : ds ≠ []) :
    natOfText (ds.map digitChar) = some ds.value := by
  have hdigits : ∀ d : Fin 10, (digitChar d).isDigit ∧ (digitChar d).toNat - 48 = d := by decide
  have hvalue : (ds.map digitChar).foldl (fun v c => v * 10 + (c.toNat - 48)) 0 = ds.value := by
    clear hne
    induction ds using List.reverseRecOn with
    | nil => rfl
    | append_singleton ds d ih =>
      rw [List.map_append, List.foldl_append, ih, Digits.value_concat, List.map_singleton,
        List.foldl_cons, List.foldl_nil, (hdigits d).2]
  rw [natOfText, if_pos, hvalue]
  refine ⟨by simpa using hne, ?_⟩
  intro c hc
  obtain ⟨d, -, rfl⟩ := List.mem_map.mp hc
  exact (hdigits d).1

/-- A count is written as a JSON number. -/
theorem pushU64_spec {n : Nat} (hn : n < 2 ^ 64) :
    pushU64 n ∈ number.matches' ∧ natOfText (pushU64 n) = some n := by
  obtain ⟨ds, htext, hzero, hvalue⟩ := exists_digits_pushU64 hn
  have hne : ds ≠ [] := by
    rcases hzero with rfl | ⟨d, ds, rfl, -⟩
    · exact List.cons_ne_nil _ _
    · exact List.cons_ne_nil _ _
  have hmem := mem_number false hzero []
  rw [htext, natOfText_digits hne, hvalue]
  simpa using hmem

theorem exists_digits_pushFraction (i : Nat) : ∀ frac : V, ∃ fs : Digits,
    pushFraction i frac = fs.map digitChar ∧ fs.length = i := by
  induction i with
  | zero => exact fun frac => ⟨[], rfl, rfl⟩
  | succ i ih =>
    intro frac
    obtain ⟨fs, hfs, hlen⟩ := ih (frac * (10.0 : V))
    refine ⟨⟨FloatOps.toU64 (frac * (10.0 : V)) % 10, Nat.mod_lt _ (by decide)⟩ :: fs, ?_, ?_⟩
    · rw [pushFraction, hfs]
      rfl
    · rw [List.length_cons, hlen]

/-- The mean is written as a JSON value. -/
theorem exists_value_pushF64 (n : V) (r : Str) : ∃ v, Value (pushF64 n ++ r) v r := by
  unfold pushF64
  split_ifs with hfinite
  · exact ⟨.null, .null r⟩
  · dsimp only
    generalize (if FloatOps.isNegative n then -n else n) = m
    obtain ⟨ds, hds, hzero, -⟩ := exists_digits_pushU64 (FloatOps.toU64_lt m)
    obtain ⟨fs, hfs, hlen⟩ := exists_digits_pushFraction 6 (m - (FloatOps.toU64 m : V))
    have hne : fs ≠ [] := by
      rintro rfl
      cases hlen
    rw [hds, hfs]
    by_cases hint : FloatOps.isZero (m - (FloatOps.toU64 m : V))
    · rw [if_pos hint]
      exact ⟨_, .number r (mem_number _ hzero [])⟩
    · have hmem := mem_number (FloatOps.isNegative n) hzero fs
      rw [if_neg hne] at hmem
      rw [if_neg hint]
      exact ⟨_, .number r hmem⟩

/-! ## The bodies -/

theorem formatResult_eq (c : Str) (stats : MeanStats V) : formatResult c stats =
    '\x7b' :: '"' :: (columnKey ++ '"' :: ':' :: '"' :: (c ++ '"' :: ',' :: '"' ::
      ("count".toList ++ '"' :: ':' :: (pushU64 stats.count ++ ',' :: '"' ::
        ("skipped".toList ++ '"' :: ':' :: (pushU64 stats.skipped ++ ',' :: '"' ::
          ("mean".toList ++ '"' :: ':' :: (pushF64 stats.mean ++ ['\x7d'])))))))) :=
  rfl

/-- With a clean name the body is an object with four fields. -/
theorem denotes_formatResult {c : Str} (hc : ∀ x ∈ c, Plain x) {stats : MeanStats V}
    (hcount : stats.count < 2 ^ 64) (hskipped : stats.skipped < 2 ^ 64) :
    ∃ v, Denotes (formatResult c stats) (.object [(columnKey, .string c),
      ("count".toList, .number (pushU64 stats.count)),
      ("skipped".toList, .number (pushU64 stats.skipped)), ("mean".toList, v)]) := by
  obtain ⟨v, hv⟩ := exists_value_pushF64 stats.mean ['\x7d']
  refine ⟨v, _, [], .nil _, ?_, .nil _⟩
  rw [formatResult_eq]
  refine .object (.cons (.nil _) (chars_of_plain (plain_of_all rfl) _) (.nil _) (.nil _)
    (.string (chars_of_plain hc _)) (.nil _) ?_)
  refine .cons (.nil _) (chars_of_plain (plain_of_all rfl) _) (.nil _) (.nil _)
    (.number _ (pushU64_spec hcount).1) (.nil _) ?_
  refine .cons (.nil _) (chars_of_plain (plain_of_all rfl) _) (.nil _) (.nil _)
    (.number _ (pushU64_spec hskipped).1) (.nil _) ?_
  exact .last (.nil _) (chars_of_plain (plain_of_all rfl) _) (.nil _) (.nil _) hv (.nil _)

/-- The text of an error, with its escapes. -/
theorem exists_chars_error (msg r : Str) : ∃ s, Chars (msg.flatMap errorChar ++ '"' :: r) s r := by
  induction msg with
  | nil => exact ⟨[], .close r⟩
  | cons c msg ih =>
    obtain ⟨s, hs⟩ := ih
    have hescape : ∀ {e d : Char}, (e, d) ∈ shortEscapes →
        Chars (['\\', e] ++ (msg.flatMap errorChar ++ '"' :: r)) (d :: s) r :=
      fun hmem => .escape (.short hmem) hs
    rw [List.flatMap_cons, List.append_assoc]
    unfold errorChar
    split_ifs with hquote hback hline hctrl
    · exact ⟨_, hescape (d := '"') (by simp [shortEscapes])⟩
    · exact ⟨_, hescape (d := '\\') (by simp [shortEscapes])⟩
    · exact ⟨_, hescape (d := '\n') (by simp [shortEscapes])⟩
    · exact ⟨s, hs⟩
    · exact ⟨c :: s, .plain ⟨not_lt.mp hctrl, hquote, hback⟩ hs⟩

theorem exists_denotes_formatError (msg : Str) : ∃ fields,
    Denotes (formatError msg) (.object fields) := by
  obtain ⟨s, hs⟩ := exists_chars_error msg ['\x7d']
  have hbody : formatError msg = '\x7b' :: '"' :: ("error".toList ++ '"' :: ':' :: '"' ::
      (msg.flatMap errorChar ++ '"' :: ['\x7d'])) := rfl
  refine ⟨[("error".toList, .string s)], _, [], .nil _, ?_, .nil _⟩
  rw [hbody]
  exact .object (.last (.nil _) (chars_of_plain (plain_of_all rfl) _) (.nil _) (.nil _)
    (.string hs) (.nil _))

/-- The first field of the body is the column. -/
theorem clean_of_denotes {c : Str} {stats : MeanStats V} {fields : List (Str × Json)}
    (h : Denotes (formatResult c stats) (.object fields))
    (hcolumn : HasField fields columnKey (· = .string c)) : ∀ x ∈ c, Plain x := by
  obtain ⟨t, r, hws, hvalue, -⟩ := h
  rw [formatResult_eq] at hws
  obtain rfl := hws.eq_of_not rfl
  obtain ⟨v, t', fs, rfl, hfirst⟩ := hvalue.members.first (plain_of_all rfl) rfl
  obtain rfl := hcolumn.2 v List.mem_cons_self
  exact clean_of_chars hfirst.chars

/-! ## The output -/

theorem hasField_of_mem {fields : List (Str × Json)} {key : Str} {v : Json} {P : Json → Prop}
    (hkeys : (fields.map Prod.fst).Nodup) (hmem : (key, v) ∈ fields) (hP : P v) :
    HasField fields key P := by
  refine ⟨⟨v, hmem⟩, fun w hw => ?_⟩
  have heq := List.inj_on_of_nodup_map hkeys hmem hw rfl
  rwa [← (Prod.mk.inj heq).2]

theorem Succeeds.counts_lt {csv args : Bytes} {c : Str} {stats : MeanStats V}
    (h : Succeeds csv args c stats) (hlen : csv.length < 2 ^ 64) :
    stats.count < 2 ^ 64 ∧ stats.skipped < 2 ^ 64 := by
  obtain ⟨-, -, -, hstats⟩ := h
  have hsum := plainMean_count_add_skipped hstats
  have hrows := length_plainRows_le csv
  omega

theorem runInner_of_column {csv args : Bytes} {s c : Str} (hs : fromUtf8 args = some s)
    (hc : extractStringField s columnKey = some c) :
    runInner (V := V) csv args = .ok (match plainMean (V := V) parseF64Bytes csv (asBytes c) with
      | .error m => .error (3, m.toList)
      | .ok stats => .ok (formatResult c stats)) := by
  rw [runInner, hs]
  dsimp only
  rw [hc]
  dsimp only
  rw [scan_eq_plainMean parseF64Bytes (asBytes c) (by omega), ok_bind]
  rcases plainMean (V := V) parseF64Bytes csv (asBytes c) with m | stats
  · rfl
  · rfl

/-- A run succeeds, or it ends with an error. -/
theorem run_cases (csv args : Bytes) :
    (∃ (c : Str) (stats : MeanStats V), Succeeds csv args c stats ∧
      run (V := V) csv args = .ok (0, formatResult c stats)) ∨
    (∀ (c : Str) (stats : MeanStats V), ¬Succeeds csv args c stats) ∧
      ∃ code m, run (V := V) csv args = .ok (code, formatError m) := by
  rcases hargs : fromUtf8 args with _ | s
  · refine Or.inr ⟨?_, 2, "args not UTF-8".toList, ?_⟩
    · rintro c stats ⟨s, hs, -⟩
      rw [hargs] at hs
      cases hs
    · rw [run, runInner, hargs]
      rfl
  rcases hcolumn : extractStringField s columnKey with _ | c
  · refine Or.inr ⟨?_, 2, "missing 'column' arg".toList, ?_⟩
    · rintro c stats ⟨s', hs', hc, -⟩
      obtain rfl := Option.some.inj (hargs.symm.trans hs')
      rw [hcolumn] at hc
      cases hc
    · rw [run, runInner, hargs]
      dsimp only
      rw [hcolumn]
      rfl
  rcases hmean : plainMean (V := V) parseF64Bytes csv (asBytes c) with m | stats
  · refine Or.inr ⟨?_, 3, m.toList, ?_⟩
    · rintro c' stats ⟨s', hs', hc, hstats⟩
      obtain rfl := Option.some.inj (hargs.symm.trans hs')
      obtain rfl := Option.some.inj (hcolumn.symm.trans hc)
      rw [hmean] at hstats
      cases hstats
    · rw [run, runInner_of_column hargs hcolumn, hmean]
      rfl
  · refine Or.inl ⟨c, stats, ⟨s, hargs, hcolumn, hmean⟩, ?_⟩
    rw [run, runInner_of_column hargs hcolumn, hmean]
    rfl

theorem Succeeds.unique {csv args : Bytes} {c c' : Str} {stats stats' : MeanStats V}
    (h : Succeeds csv args c stats) (h' : Succeeds csv args c' stats') :
    c = c' ∧ stats = stats' := by
  obtain ⟨s, hs, hc, hstats⟩ := h
  obtain ⟨s', hs', hc', hstats'⟩ := h'
  obtain rfl := Option.some.inj (hs.symm.trans hs')
  obtain rfl := Option.some.inj (hc.symm.trans hc')
  exact ⟨rfl, Except.ok.inj (hstats.symm.trans hstats')⟩

/-- The name of the column in a good output has nothing to escape. -/
theorem OutputOk.plain {csv args : Bytes} (h : OutputOk V csv args) {c : Str} {stats : MeanStats V}
    (hsucc : Succeeds csv args c stats) : ∀ x ∈ c, Plain x := by
  obtain ⟨code, body, fields, hrun, hbody, hfields⟩ := h
  rcases run_cases (V := V) csv args with ⟨c', stats', hsucc', hrun'⟩ | ⟨hfail, -⟩
  · obtain ⟨rfl, rfl⟩ := hsucc.unique hsucc'
    rw [hrun'] at hrun
    cases hrun
    exact clean_of_denotes hbody (hfields c stats hsucc).2.1
  · exact absurd hsucc (hfail c stats)

/-- The output is as it is to be if and only if the run fails or the name of the column has nothing
to escape. -/
theorem outputOk_iff {csv : Bytes} (args : Bytes) (hlen : csv.length < 2 ^ 64) :
    OutputOk V csv args ↔
      ∀ (c : Str) (stats : MeanStats V), Succeeds csv args c stats → ∀ x ∈ c, Plain x := by
  refine ⟨fun hok c stats hsucc => hok.plain hsucc, fun hclean => ?_⟩
  rcases run_cases (V := V) csv args with ⟨c, stats, hsucc, hrun⟩ | ⟨hfail, code, m, hrun⟩
  · obtain ⟨hcount, hskipped⟩ := hsucc.counts_lt hlen
    obtain ⟨v, hv⟩ := denotes_formatResult (hclean c stats hsucc) hcount hskipped
    refine ⟨0, _, _, hrun, hv, fun c' stats' hsucc' => ?_⟩
    obtain ⟨rfl, rfl⟩ := hsucc.unique hsucc'
    have hkeys : [columnKey, "count".toList, "skipped".toList, "mean".toList].Nodup := by decide
    exact ⟨rfl, hasField_of_mem hkeys (by simp) rfl,
      hasField_of_mem hkeys (by simp) ⟨_, rfl, (pushU64_spec hcount).2⟩,
      hasField_of_mem hkeys (by simp) ⟨_, rfl, (pushU64_spec hskipped).2⟩⟩
  · obtain ⟨fields, hfields⟩ := exists_denotes_formatError m
    exact ⟨code, _, fields, hrun, hfields, fun c stats hsucc => absurd hsucc (hfail c stats)⟩

end Script

/-! ## A name with a quote -/

/-- Exact numbers, for the samples. -/
instance ratFloatOps : FloatOps ℚ where
  isNan _ := false
  isInfinite _ := false
  isNegative q := decide (q < 0)
  isZero q := decide (q = 0)
  toU64 q := min q.floor.toNat (2 ^ 64 - 1)
  toU64_lt q := by omega

/-- A column whose name has a quote. -/
def quotedNameCsv : Bytes :=
  asBytes "a\"b\n1\n".toList

def quotedNameArgs : Bytes :=
  asBytes "\x7b\"column\":\"a\\\"b\"\x7d".toList

theorem not_outputOk_quotedName : ¬OutputOk ℚ quotedNameCsv quotedNameArgs := by
  have hsucc : Succeeds quotedNameCsv quotedNameArgs ['a', '"', 'b'] (⟨1, 0, 1⟩ : MeanStats ℚ) :=
    ⟨_, fromUtf8_eq_some_iff.mpr rfl, by decide +kernel, by decide +kernel⟩
  intro hok
  exact absurd rfl (hok.plain hsucc '"' (by simp)).2.1

theorem outputOk_plainName :
    OutputOk ℚ (asBytes "v\n1\n".toList) (asBytes "\x7b\"column\":\"v\"\x7d".toList) := by
  refine (outputOk_iff _ (by decide)).mpr ?_
  rintro c stats ⟨s, hs, hc, -⟩
  obtain rfl := asBytes_inj.mp (fromUtf8_eq_some_iff.mp hs)
  have hread : extractStringField "\x7b\"column\":\"v\"\x7d".toList columnKey = some ['v'] := by
    decide +kernel
  obtain rfl := Option.some.inj (hread.symm.trans hc)
  simp [Plain]

end RelationalSdk
