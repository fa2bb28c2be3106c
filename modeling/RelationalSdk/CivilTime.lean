import RelationalSdk.KeyedTable
import RelationalSdk.Text

/-!
# Civil time and its text

A timestamp counts seconds since 1970 in UTC. Its date is found in the cycle of 400 years, then in
the year of the cycle, then in the month (`dateOf`), and its text is the date and the time with
leading zeros, the shortest exact fraction of 0, 3, 6 or 9 digits, and the offset `+00:00`
(`rfc3339`).

`rfc3339_lt_iff` : in the years 0 to 9999 such texts compare as the instants do. Fields of one
width compare as numbers. Fractions have different widths, but where the shorter one ends the other
goes on with a digit, and the `+` of the offset is smaller than every digit and than the point.
-/

namespace CivilTime

open Text KeyedTable

/-! ## Dates -/

def isLeap (y : Nat) : Bool :=
  y % 4 = 0 && (y % 100 ≠ 0 || y % 400 = 0)

/-- Days from the start of year 0 to the start of year `y`. -/
def daysBeforeYear (y : Nat) : Nat :=
  365 * y + (y + 3) / 4 - (y + 99) / 100 + (y + 399) / 400

/-- Days from the start of a year to the start of its month `m`, counted from 0. -/
def daysBeforeMonth (leap : Bool) (m : Nat) : Nat :=
  [0, 31, 59, 90, 120, 151, 181, 212, 243, 273, 304, 334, 365].getD m 0 +
    if leap && 2 ≤ m then 1 else 0

structure Date where
  year : Int
  month : Nat
  day : Nat
  deriving DecidableEq

/-- The year of a day of the cycle of 400 years. -/
def yearOf (r : Nat) : Nat :=
  Nat.findGreatest (fun y => daysBeforeYear y ≤ r) 399

/-- The month of a day of a year, counted from 0. -/
def monthOf (leap : Bool) (doy : Nat) : Nat :=
  Nat.findGreatest (fun m => daysBeforeMonth leap m ≤ doy) 11

/-- The date of a day, counted from the first day of year 0. -/
def dateOfDay (z : Int) : Date :=
  let r := (z % 146097).toNat
  let y := yearOf r
  let doy := r - daysBeforeYear y
  let m := monthOf (isLeap y) doy
  { year := 400 * (z / 146097) + y
    month := m + 1
    day := doy - daysBeforeMonth (isLeap y) m + 1 }

/-- The day of a timestamp, counted from the first day of year 0. -/
def dayOf (timestamp : Int) : Int :=
  timestamp / 86400 + 719528

def dateOf (timestamp : Int) : Date :=
  dateOfDay (dayOf timestamp)

example : dateOf 1771891200 = ⟨2026, 2, 24⟩ := by decide +kernel

/-! ## Texts -/

def decPad (n v : Nat) : Str :=
  padTo 10 hexDigit n v

/-- Four digits, or a sign and at least four. -/
def yearText (y : Int) : Str :=
  if 0 ≤ y ∧ y ≤ 9999 then decPad 4 y.toNat
  else (if y < 0 then '-' else '+') :: (Nat.toDigits 10 y.natAbs).leftpad 4 '0'

def dateText (d : Date) : Str :=
  yearText d.year ++ '-' :: (decPad 2 d.month ++ '-' :: decPad 2 d.day)

/-- The time of a second of a day. -/
def timeText (s : Nat) : Str :=
  decPad 2 (s / 3600) ++ ':' :: (decPad 2 (s / 60 % 60) ++ ':' :: decPad 2 (s % 60))

/-- The shortest exact fraction. -/
def fractionText (nanos : Nat) : Str :=
  if nanos = 0 then []
  else if nanos % 1000000 = 0 then '.' :: decPad 3 (nanos / 1000000)
  else if nanos % 1000 = 0 then '.' :: decPad 6 (nanos / 1000)
  else '.' :: decPad 9 nanos

def rfc3339 (timestamp : Int) (nanos : Nat) : Str :=
  dateText (dateOf timestamp) ++
    'T' :: (timeText (timestamp % 86400).toNat ++ (fractionText nanos ++ "+00:00".toList))

example : rfc3339 1771891200 120000000 = "2026-02-24T00:00:00.120+00:00".toList := by
  decide +kernel

/-! ## The calendar -/

theorem daysBeforeYear_succ (y : Nat) :
    daysBeforeYear (y + 1) = daysBeforeYear y + 365 + if isLeap y then 1 else 0 := by
  have h4 : (y + 1 + 3) / 4 = (y + 3) / 4 + if y % 4 = 0 then 1 else 0 := by
    split_ifs <;> omega
  have h100 : (y + 1 + 99) / 100 = (y + 99) / 100 + if y % 100 = 0 then 1 else 0 := by
    split_ifs <;> omega
  have h400 : (y + 1 + 399) / 400 = (y + 399) / 400 + if y % 400 = 0 then 1 else 0 := by
    split_ifs <;> omega
  have hle : (y + 99) / 100 ≤ (y + 3) / 4 := by omega
  have hdvd : y % 100 = 0 → y % 4 = 0 := by omega
  have hdvd' : y % 400 = 0 → y % 100 = 0 := by omega
  unfold daysBeforeYear isLeap
  rw [h4, h100, h400]
  generalize (y + 3) / 4 = q4 at hle ⊢
  generalize (y + 99) / 100 = q100 at hle ⊢
  generalize (y + 399) / 400 = q400
  by_cases hy400 : y % 400 = 0
  · simp only [hdvd (hdvd' hy400), hdvd' hy400, hy400, if_true, decide_true, ne_eq, not_true,
      decide_false, Bool.false_or, Bool.and_true]
    omega
  · by_cases hy100 : y % 100 = 0
    · simp only [hdvd hy100, hy100, hy400, if_true, if_false, decide_true, ne_eq, not_true,
        decide_false, Bool.or_false, Bool.and_false, Bool.false_eq_true]
      omega
    · by_cases hy4 : y % 4 = 0
      · simp only [hy4, hy100, hy400, if_true, if_false, decide_true, ne_eq, not_false_eq_true,
          Bool.true_or, Bool.and_true]
        omega
      · simp only [hy4, hy100, hy400, if_false, decide_false, Bool.false_and, Bool.false_eq_true]
        omega

theorem yearOf_mono {r r' : Nat} (h : r ≤ r') : yearOf r ≤ yearOf r' :=
  Nat.findGreatest_mono (fun _ hy => le_trans hy h) le_rfl

theorem yearOf_le (r : Nat) : yearOf r ≤ 399 :=
  Nat.findGreatest_le 399

theorem daysBeforeYear_yearOf_le (r : Nat) : daysBeforeYear (yearOf r) ≤ r :=
  Nat.findGreatest_spec (P := fun y => daysBeforeYear y ≤ r) (Nat.zero_le 399) (Nat.zero_le r)

theorem lt_daysBeforeYear_yearOf {r : Nat} (hr : r < 146097) :
    r < daysBeforeYear (yearOf r + 1) := by
  rcases (yearOf_le r).lt_or_eq with hlt | heq
  · exact not_le.mp (Nat.findGreatest_is_greatest (P := fun y => daysBeforeYear y ≤ r)
      (Nat.lt_succ_self _) hlt)
  · rw [heq]
    exact hr

theorem monthOf_mono {leap : Bool} {d d' : Nat} (h : d ≤ d') : monthOf leap d ≤ monthOf leap d' :=
  Nat.findGreatest_mono (fun _ hm => le_trans hm h) le_rfl

theorem monthOf_le (leap : Bool) (d : Nat) : monthOf leap d ≤ 11 :=
  Nat.findGreatest_le 11

theorem daysBeforeMonth_monthOf_le (leap : Bool) (d : Nat) :
    daysBeforeMonth leap (monthOf leap d) ≤ d :=
  Nat.findGreatest_spec (P := fun m => daysBeforeMonth leap m ≤ d) (Nat.zero_le 11)
    (by simp [daysBeforeMonth])

theorem lt_daysBeforeMonth_monthOf {leap : Bool} {d : Nat} (hd : d < daysBeforeMonth leap 12) :
    d < daysBeforeMonth leap (monthOf leap d + 1) := by
  rcases (monthOf_le leap d).lt_or_eq with hlt | heq
  · exact not_le.mp (Nat.findGreatest_is_greatest (P := fun m => daysBeforeMonth leap m ≤ d)
      (Nat.lt_succ_self _) hlt)
  · rw [heq]
    exact hd

/-- A month has at most 31 days. -/
theorem daysBeforeMonth_succ_le (leap : Bool) {m : Nat} (hm : m ≤ 11) :
    daysBeforeMonth leap (m + 1) ≤ daysBeforeMonth leap m + 31 := by
  have hall : ∀ leap, ∀ m : Fin 12, daysBeforeMonth leap (m + 1) ≤ daysBeforeMonth leap m + 31 := by
    decide
  exact hall leap ⟨m, Nat.lt_succ_of_le hm⟩

theorem daysBeforeMonth_twelve (leap : Bool) :
    daysBeforeMonth leap 12 = 365 + if leap then 1 else 0 := by
  cases leap <;> rfl

/-- The day of the year. -/
theorem dayOfYear_lt {r : Nat} (hr : r < 146097) :
    r - daysBeforeYear (yearOf r) < daysBeforeMonth (isLeap (yearOf r)) 12 := by
  have hlt := lt_daysBeforeYear_yearOf hr
  rw [daysBeforeYear_succ] at hlt
  rw [daysBeforeMonth_twelve]
  omega

theorem month_le (z : Int) : (dateOfDay z).month ≤ 12 :=
  Nat.succ_le_succ (monthOf_le _ _)

theorem day_le (z : Int) : (dateOfDay z).day ≤ 31 := by
  have hr : (z % 146097).toNat < 146097 := by omega
  have hlt := lt_daysBeforeMonth_monthOf (dayOfYear_lt hr)
  have hle := daysBeforeMonth_succ_le (isLeap (yearOf (z % 146097).toNat))
    (monthOf_le (isLeap (yearOf (z % 146097).toNat))
      ((z % 146097).toNat - daysBeforeYear (yearOf (z % 146097).toNat)))
  simp only [dateOfDay]
  omega

/-- A later day has a later date. -/
theorem dateOfDay_lt {z z' : Int} (h : z < z') :
    (dateOfDay z).year < (dateOfDay z').year ∨ (dateOfDay z).year = (dateOfDay z').year ∧
      ((dateOfDay z).month < (dateOfDay z').month ∨ (dateOfDay z).month = (dateOfDay z').month ∧
        (dateOfDay z).day < (dateOfDay z').day) := by
  have hcycle : z / 146097 < z' / 146097 ∨ z / 146097 = z' / 146097 ∧
      (z % 146097).toNat < (z' % 146097).toNat := by omega
  simp only [dateOfDay]
  generalize (z % 146097).toNat = r at hcycle ⊢
  generalize (z' % 146097).toNat = r' at hcycle ⊢
  have hr := yearOf_le r
  rcases hcycle with hlt | ⟨heq, hrr⟩
  · exact Or.inl (by omega)
  · rcases (yearOf_mono hrr.le).lt_or_eq with hlt | hyear
    · exact Or.inl (by omega)
    · refine Or.inr ⟨by rw [heq, hyear], ?_⟩
      have hle := daysBeforeYear_yearOf_le r
      rw [hyear] at hle ⊢
      have hdoy : r - daysBeforeYear (yearOf r') < r' - daysBeforeYear (yearOf r') := by omega
      generalize r - daysBeforeYear (yearOf r') = d at hdoy ⊢
      generalize r' - daysBeforeYear (yearOf r') = d' at hdoy ⊢
      have hmono : monthOf (isLeap (yearOf r')) d ≤ monthOf (isLeap (yearOf r')) d' :=
        monthOf_mono hdoy.le
      rcases hmono.lt_or_eq with hlt | hmonth
      · exact Or.inl (Nat.succ_lt_succ hlt)
      · have hle' := daysBeforeMonth_monthOf_le (isLeap (yearOf r')) d
        rw [hmonth] at hle' ⊢
        exact Or.inr ⟨rfl, by omega⟩

/-! ## Comparing texts -/

theorem length_decPad (n v : Nat) : (decPad n v).length = n :=
  length_padTo n v

/-- Fields of one width compare as numbers. -/
theorem decPad_append_lt {n v w : Nat} {s t : Str} (hw : w < 10 ^ n)
    (h : v < w ∨ v = w ∧ s < t) : decPad n v ++ s < decPad n w ++ t := by
  rcases h with hlt | ⟨rfl, hst⟩
  · refine append_lt_append_of_lt ?_ (by rw [length_decPad, length_decPad]) s t
    refine padTo_lt_padTo (by decide) (fun hde he => ?_) hlt hw
    exact hexDigit_lt_hexDigit hde (by omega)
  · exact append_lt_append_left_iff.mpr hst

theorem cons_lt_cons_of_lt {c : Char} {s t : Str} (h : s < t) : c :: s < c :: t :=
  List.cons_lt_cons_iff.mpr (Or.inr ⟨rfl, h⟩)

/-- Dates of the years with four digits. -/
theorem dateText_append_lt {z z' : Int} (h : z < z') (hz : 0 ≤ (dateOfDay z).year)
    (hz' : (dateOfDay z').year ≤ 9999) (s t : Str) :
    dateText (dateOfDay z) ++ s < dateText (dateOfDay z') ++ t := by
  have hlt := dateOfDay_lt h
  have hmonth := month_le z'
  have hday := day_le z'
  generalize dateOfDay z = d at hlt hz ⊢
  generalize dateOfDay z' = d' at hlt hz' hmonth hday ⊢
  have hy : yearText d.year = decPad 4 d.year.toNat := if_pos ⟨hz, by omega⟩
  have hy' : yearText d'.year = decPad 4 d'.year.toNat := if_pos ⟨by omega, hz'⟩
  rw [dateText, dateText, hy, hy']
  simp only [List.append_assoc, List.cons_append]
  refine decPad_append_lt (by omega) ?_
  rcases hlt with hlt | ⟨heq, hlt⟩
  · exact Or.inl (by omega)
  · refine Or.inr ⟨by rw [heq], cons_lt_cons_of_lt (decPad_append_lt (by omega) ?_)⟩
    rcases hlt with hlt | ⟨heq, hlt⟩
    · exact Or.inl hlt
    · exact Or.inr ⟨heq, cons_lt_cons_of_lt (decPad_append_lt (by omega) (Or.inl hlt))⟩

theorem timeText_append_lt {a b : Nat} (h : a < b) (hb : b < 86400) (s t : Str) :
    timeText a ++ s < timeText b ++ t := by
  have hlt : a / 3600 < b / 3600 ∨ a / 3600 = b / 3600 ∧
      (a / 60 % 60 < b / 60 % 60 ∨ a / 60 % 60 = b / 60 % 60 ∧ a % 60 < b % 60) := by omega
  unfold timeText
  simp only [List.append_assoc, List.cons_append]
  refine decPad_append_lt (by omega) (hlt.imp_right fun ⟨heq, hlt⟩ => ⟨heq, cons_lt_cons_of_lt ?_⟩)
  refine decPad_append_lt (by omega) (hlt.imp_right fun ⟨heq, hlt⟩ => ⟨heq, cons_lt_cons_of_lt ?_⟩)
  exact decPad_append_lt (by omega) (Or.inl hlt)

/-- The groups of three digits of the shortest exact fraction. -/
def groups (nanos : Nat) : List Nat :=
  if nanos = 0 then []
  else if nanos % 1000000 = 0 then [nanos / 1000000]
  else if nanos % 1000 = 0 then [nanos / 1000000, nanos / 1000 % 1000]
  else [nanos / 1000000, nanos / 1000 % 1000, nanos % 1000]

theorem groups_lt {a b : Nat} (h : a < b) : groups a < groups b := by
  unfold groups
  split_ifs <;> simp [List.cons_lt_cons_iff] <;> omega

theorem groups_le {n g : Nat} (hn : n < 1000000000) (hg : g ∈ groups n) : g < 1000 := by
  unfold groups at hg
  split_ifs at hg <;> simp at hg <;> omega

/-- A fraction is the text of its groups. -/
theorem fractionText_eq {n : Nat} (hn : n < 1000000000) :
    fractionText n = if groups n = [] then [] else '.' :: (groups n).flatMap (decPad 3) := by
  have hsplit : ∀ {k v : Nat}, v < 10 ^ (3 + k) →
      decPad (3 + k) v = decPad 3 (v / 10 ^ k) ++ decPad k (v % 10 ^ k) :=
    fun hv => padTo_add (by decide) hv
  have h6 : decPad 6 (n / 1000) = decPad 3 (n / 1000000) ++ decPad 3 (n / 1000 % 1000) := by
    rw [show n / 1000000 = n / 1000 / 10 ^ 3 by omega]
    exact hsplit (k := 3) (by omega)
  have h9 : decPad 9 n =
      decPad 3 (n / 1000000) ++ (decPad 3 (n / 1000 % 1000) ++ decPad 3 (n % 1000)) := by
    have hrest : decPad 6 (n % 1000000) = decPad 3 (n / 1000 % 1000) ++ decPad 3 (n % 1000) := by
      rw [show n / 1000 % 1000 = n % 1000000 / 10 ^ 3 by omega,
        show n % 1000 = n % 1000000 % 10 ^ 3 by omega]
      exact hsplit (k := 3) (by omega)
    rw [← hrest]
    exact hsplit (k := 6) (by omega)
  unfold fractionText groups
  split_ifs <;> simp_all

theorem plus_lt_decPad (s t : Str) (g : Nat) : '+' :: s < decPad 3 g ++ t := by
  refine List.cons_lt_cons_iff.mpr (Or.inl ?_)
  have hall : "0123456789abcdef".toList.all fun c => decide ('+' < c) := by decide +kernel
  simpa using List.all_eq_true.mp hall _ (hexDigit_mem _)

/-- Where one list of groups ends, the offset stands against a digit. -/
theorem flatMap_decPad_lt {gs hs : List Nat} (h : gs < hs) (hhs : ∀ g ∈ hs, g < 1000) (s : Str) :
    gs.flatMap (decPad 3) ++ '+' :: s < hs.flatMap (decPad 3) ++ '+' :: s := by
  induction gs generalizing hs with
  | nil =>
    cases hs with
    | nil => exact absurd h (lt_irrefl _)
    | cons g hs =>
      rw [List.flatMap_cons, List.append_assoc]
      exact plus_lt_decPad s _ g
  | cons g gs ih =>
    cases hs with
    | nil => cases h
    | cons g' hs =>
      obtain ⟨hg', hrest⟩ := List.forall_mem_cons.mp hhs
      rw [List.flatMap_cons, List.flatMap_cons, List.append_assoc, List.append_assoc]
      refine decPad_append_lt hg' ((List.cons_lt_cons_iff.mp h).imp_right ?_)
      rintro ⟨rfl, hlt⟩
      exact ⟨rfl, ih hlt hrest⟩

theorem fractionText_append_lt {a b : Nat} (h : a < b) (hb : b < 1000000000) :
    fractionText a ++ "+00:00".toList < fractionText b ++ "+00:00".toList := by
  have hlt := groups_lt h
  have hoffset : "+00:00".toList = '+' :: "00:00".toList := by decide +kernel
  have hne : groups b ≠ [] := by
    intro hnil
    rw [hnil] at hlt
    exact List.not_lt_nil _ hlt
  rw [fractionText_eq (h.trans hb), fractionText_eq hb, if_neg hne, hoffset]
  split_ifs with hnil
  · exact List.cons_lt_cons_iff.mpr (Or.inl (by decide))
  · exact cons_lt_cons_of_lt (flatMap_decPad_lt hlt (fun _ => groups_le hb) _)

/-! ## Instants -/

/-- The years with four digits. -/
def FourDigitYear (timestamp : Int) : Prop :=
  0 ≤ (dateOf timestamp).year ∧ (dateOf timestamp).year ≤ 9999

/-- Nanoseconds since 1970. -/
def instant (timestamp : Int) (nanos : Nat) : Int :=
  timestamp * 1000000000 + nanos

theorem rfc3339_lt {t t' : Int} {n n' : Nat} (ht : FourDigitYear t) (ht' : FourDigitYear t')
    (hn : n < 1000000000) (hn' : n' < 1000000000) (h : instant t n < instant t' n') :
    rfc3339 t n < rfc3339 t' n' := by
  have hlt : t / 86400 < t' / 86400 ∨ t / 86400 = t' / 86400 ∧
      ((t % 86400).toNat < (t' % 86400).toNat ∨ (t % 86400).toNat = (t' % 86400).toNat ∧
        n < n') := by
    unfold instant at h
    omega
  unfold rfc3339
  rcases hlt with hday | ⟨hday, hlt⟩
  · have hday' : dayOf t < dayOf t' := by
      unfold dayOf
      omega
    exact dateText_append_lt hday' ht.1 ht'.2 _ _
  · rw [dateOf, dateOf, dayOf, dayOf, hday, append_lt_append_left_iff]
    refine cons_lt_cons_of_lt ?_
    rcases hlt with hsecond | ⟨hsecond, hlt⟩
    · exact timeText_append_lt hsecond (by omega) _ _
    · rw [hsecond, append_lt_append_left_iff]
      exact fractionText_append_lt hlt hn'

/-- In the years with four digits texts compare as instants do. -/
theorem rfc3339_lt_iff {t t' : Int} {n n' : Nat} (ht : FourDigitYear t) (ht' : FourDigitYear t')
    (hn : n < 1000000000) (hn' : n' < 1000000000) :
    rfc3339 t n < rfc3339 t' n' ↔ instant t n < instant t' n' := by
  refine ⟨fun h => ?_, rfc3339_lt ht ht' hn hn'⟩
  rcases lt_trichotomy (instant t n) (instant t' n') with hlt | heq | hgt
  · exact hlt
  · obtain ⟨rfl, rfl⟩ : t = t' ∧ n = n' := by
      unfold instant at heq
      omega
    exact absurd h (lt_irrefl _)
  · exact absurd h (lt_asymm (rfc3339_lt ht' ht hn' hn hgt))

end CivilTime
