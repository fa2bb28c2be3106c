import RelationalSdk.Text

/-!
# Base58

A byte string is a number in base 256 behind some zeros, and its text is the same number in base 58
behind as many zeros (`convert`). Nothing is lost in either direction, because the zeros in front of
a number are kept as they are and the number itself starts with no zero. `decode_eq_some_iff` : so a
text denotes at most one byte string, and only the text that is written for it.
-/

namespace Base58

open Text

/-! ## Changing the base -/

/-- The digits of a number in base `c`, from its digits in base `b`, the highest first. The zeros in
front stay. -/
def convert (b c : Nat) (ds : List Nat) : List Nat :=
  List.replicate (ds.takeWhile (· = 0)).length 0 ++
    (Nat.digits c (Nat.ofDigits b ds.reverse)).reverse

/-- No zero stands in front. -/
def Canonical (ds : List Nat) : Prop :=
  ds.head? ≠ some 0

theorem exists_canonical (ds : List Nat) :
    ∃ z rest, Canonical rest ∧ ds = List.replicate z 0 ++ rest := by
  refine ⟨(ds.takeWhile (· = 0)).length, ds.dropWhile (· = 0), ?_, ?_⟩
  · intro h
    have hne := List.head?_dropWhile_not (fun d : Nat => decide (d = 0)) ds
    rw [h] at hne
    simp at hne
  · have hzeros : ds.takeWhile (· = 0) = List.replicate (ds.takeWhile (· = 0)).length 0 :=
      List.eq_replicate_of_mem fun d hd => by simpa using List.mem_takeWhile_imp hd
    rw [← hzeros]
    exact List.takeWhile_append_dropWhile.symm

theorem takeWhile_canonical {ds : List Nat} (h : Canonical ds) : ds.takeWhile (· = 0) = [] := by
  cases ds with
  | nil => rfl
  | cons d ds =>
    have hd : d ≠ 0 := fun hd => h (congrArg some hd)
    exact List.takeWhile_cons_of_neg (by simpa using hd)

theorem convert_replicate_append (b c z : Nat) {ds : List Nat} (h : Canonical ds) :
    convert b c (List.replicate z 0 ++ ds) =
      List.replicate z 0 ++ (Nat.digits c (Nat.ofDigits b ds.reverse)).reverse := by
  have hzeros : (List.replicate z 0 ++ ds).takeWhile (· = 0) = List.replicate z 0 := by
    rw [List.takeWhile_append_of_pos fun d hd => by simpa using List.eq_of_mem_replicate hd,
      takeWhile_canonical h, List.append_nil]
  rw [convert, hzeros, List.length_replicate, List.reverse_append, List.reverse_replicate,
    Nat.ofDigits_append_replicate_zero]

theorem canonical_digits {c : Nat} (n : Nat) : Canonical (Nat.digits c n).reverse := by
  intro h
  rw [List.head?_reverse] at h
  obtain ⟨hne, hlast⟩ := List.mem_getLast?_eq_getLast h
  have hn : n ≠ 0 := Nat.digits_ne_nil_iff_ne_zero.mp hne
  exact Nat.getLast_digit_ne_zero c hn hlast.symm

theorem digits_ofDigits_reverse {b : Nat} (hb : 1 < b) {ds : List Nat} (hlt : ∀ d ∈ ds, d < b)
    (h : Canonical ds) : Nat.digits b (Nat.ofDigits b ds.reverse) = ds.reverse := by
  refine Nat.digits_ofDigits b hb _ (fun d hd => hlt d (List.mem_reverse.mp hd)) fun hne hzero => ?_
  refine h ?_
  rw [List.getLast_reverse] at hzero
  rw [List.head?_eq_some_head (by simpa using hne), hzero]

/-- There and back. -/
theorem convert_convert {b c : Nat} (hb : 1 < b) {ds : List Nat} (hlt : ∀ d ∈ ds, d < b) :
    convert c b (convert b c ds) = ds := by
  obtain ⟨z, rest, hrest, rfl⟩ := exists_canonical ds
  have hlt' : ∀ d ∈ rest, d < b := fun d hd => hlt d (List.mem_append_right _ hd)
  rw [convert_replicate_append b c z hrest, convert_replicate_append c b z (canonical_digits _),
    List.reverse_reverse, Nat.ofDigits_digits, digits_ofDigits_reverse hb hlt' hrest,
    List.reverse_reverse]

theorem lt_of_mem_convert {b c d : Nat} (hc : 1 < c) {ds : List Nat} (h : d ∈ convert b c ds) :
    d < c := by
  rcases List.mem_append.mp h with h | h
  · rw [List.eq_of_mem_replicate h]
    exact Nat.zero_lt_of_lt hc
  · exact Nat.digits_lt_base hc (List.mem_reverse.mp h)

/-! ## The text -/

/-- The digits. -/
def alphabet : Str :=
  "123456789ABCDEFGHJKLMNPQRSTUVWXYZabcdefghijkmnopqrstuvwxyz".toList

/-- The text of a byte string. -/
def encode (b : Bytes) : Str :=
  (convert 256 58 (b.map UInt8.toNat)).map fun d => alphabet.getD d '1'

/-- The byte string that a text denotes. -/
def decode (s : Str) : Option Bytes :=
  (s.mapM fun c => alphabet.idxOf? c).map fun ds => (convert 58 256 ds).map UInt8.ofNat

theorem length_alphabet : alphabet.length = 58 := by
  decide

theorem nodup_alphabet : alphabet.Nodup := by
  decide

theorem idxOf?_eq_some_iff {c : Char} {d : Nat} :
    alphabet.idxOf? c = some d ↔ d < 58 ∧ alphabet.getD d '1' = c := by
  unfold List.idxOf?
  rw [List.findIdx?_eq_some_iff_getElem]
  constructor
  · rintro ⟨hlt, heq, -⟩
    rw [List.getD_eq_getElem _ _ hlt]
    exact ⟨length_alphabet ▸ hlt, eq_of_beq heq⟩
  · rintro ⟨hlt, rfl⟩
    have hlt' : d < alphabet.length := length_alphabet ▸ hlt
    rw [List.getD_eq_getElem _ _ hlt']
    refine ⟨hlt', beq_self_eq_true _, fun j hj heq => hj.ne ?_⟩
    exact (List.Nodup.getElem_inj_iff nodup_alphabet).mp (eq_of_beq heq)

/-- The characters of digits, and no other characters, are read as those digits. -/
theorem mapM_idxOf?_eq_some_iff {s : Str} :
    ∀ {ds : List Nat}, s.mapM (fun c => alphabet.idxOf? c) = some ds ↔
      (∀ d ∈ ds, d < 58) ∧ s = ds.map fun d => alphabet.getD d '1' := by
  induction s with
  | nil =>
    intro ds
    rw [List.mapM_nil, Option.pure_def, Option.some_inj]
    constructor
    · rintro rfl
      exact ⟨nofun, rfl⟩
    · rintro ⟨-, h⟩
      exact (List.map_eq_nil_iff.mp h.symm).symm
  | cons c s ih =>
    intro ds
    simp only [List.mapM_cons, Option.bind_eq_bind, Option.bind_eq_some_iff, idxOf?_eq_some_iff, ih,
      Option.pure_def, Option.some_inj]
    constructor
    · rintro ⟨d, ⟨hd, rfl⟩, ds, ⟨hds, rfl⟩, rfl⟩
      exact ⟨List.forall_mem_cons.mpr ⟨hd, hds⟩, rfl⟩
    · rintro ⟨hlt, h⟩
      obtain ⟨d, ds, rfl, rfl, rfl⟩ := List.map_eq_cons_iff.mp h.symm
      obtain ⟨hd, hds⟩ := List.forall_mem_cons.mp hlt
      exact ⟨d, ⟨hd, rfl⟩, ds, ⟨hds, rfl⟩, rfl⟩

theorem map_ofNat_toNat (b : Bytes) : (b.map UInt8.toNat).map UInt8.ofNat = b := by
  rw [List.map_map]
  exact List.map_id'' (fun _ => UInt8.ofNat_toNat) b

theorem map_toNat_ofNat {ds : List Nat} (h : ∀ d ∈ ds, d < 256) :
    (ds.map UInt8.ofNat).map UInt8.toNat = ds := by
  rw [List.map_map]
  exact (List.map_congr_left fun d hd => UInt8.toNat_ofNat_of_lt' (h d hd)).trans ds.map_id

/-- A text denotes exactly the byte string that it is written for. -/
theorem decode_eq_some_iff {s : Str} {b : Bytes} : decode s = some b ↔ s = encode b := by
  simp only [decode, Option.map_eq_some_iff, mapM_idxOf?_eq_some_iff]
  constructor
  · rintro ⟨ds, ⟨hds, rfl⟩, rfl⟩
    have hbytes : ∀ d ∈ convert 58 256 ds, d < 256 := fun d => lt_of_mem_convert (by decide)
    rw [encode, map_toNat_ofNat hbytes, convert_convert (by decide) hds]
  · rintro rfl
    refine ⟨convert 256 58 (b.map UInt8.toNat), ⟨fun d => lt_of_mem_convert (by decide), rfl⟩, ?_⟩
    rw [convert_convert (by decide) (by simpa using fun a _ => a.toNat_lt), map_ofNat_toNat]

theorem decode_encode (b : Bytes) : decode (encode b) = some b :=
  decode_eq_some_iff.mpr rfl

theorem encode_injective : Function.Injective encode := fun b b' h =>
  Option.some_inj.mp (by rw [← decode_encode b, h, decode_encode])

theorem mem_alphabet_of_mem_encode {b : Bytes} {c : Char} (h : c ∈ encode b) : c ∈ alphabet := by
  obtain ⟨d, hd, rfl⟩ := List.mem_map.mp h
  have hlt : d < alphabet.length := length_alphabet ▸ lt_of_mem_convert (by decide) hd
  rw [List.getD_eq_getElem _ _ hlt]
  exact List.getElem_mem hlt

/-! ## The size of a text -/

/-- Digits of a higher base become at most as many as the powers of the two bases allow. -/
theorem length_convert_le {b c n m : Nat} (hc : 1 < c) (hcb : c ≤ b) (hpow : b ^ n ≤ c ^ m)
    {ds : List Nat} (hlt : ∀ d ∈ ds, d < b) (hlen : ds.length = n) :
    (convert b c ds).length ≤ m := by
  obtain ⟨z, rest, hrest, rfl⟩ := exists_canonical ds
  rw [List.length_append, List.length_replicate] at hlen
  have hb : 0 < b := by omega
  have hvalue : Nat.ofDigits b rest.reverse < b ^ rest.length := by
    have h := Nat.ofDigits_lt_base_pow_length (hc.trans_le hcb)
      fun d hd => hlt d (List.mem_append_right _ (List.mem_reverse.mp hd))
    rwa [List.length_reverse] at h
  have hz : c ^ z ≤ c ^ m := calc
    c ^ z ≤ b ^ z := Nat.pow_le_pow_left hcb z
    _ ≤ b ^ n := Nat.pow_le_pow_right hb (by omega)
    _ ≤ c ^ m := hpow
  have hzm : z ≤ m := (Nat.pow_le_pow_iff_right hc).mp hz
  have hrestpow : b ^ rest.length ≤ c ^ (m - z) := by
    refine Nat.le_of_mul_le_mul_left ?_ (Nat.pow_pos (n := z) hb)
    calc b ^ z * b ^ rest.length = b ^ n := by rw [← pow_add, hlen]
      _ ≤ c ^ z * c ^ (m - z) := by rwa [← pow_add, Nat.add_sub_cancel' hzm]
      _ ≤ b ^ z * c ^ (m - z) := Nat.mul_le_mul_right _ (Nat.pow_le_pow_left hcb z)
  have hdigits : (Nat.digits c (Nat.ofDigits b rest.reverse)).length ≤ m - z :=
    (Nat.digits_length_le_iff hc _).mpr (hvalue.trans_le hrestpow)
  rw [convert_replicate_append b c z hrest, List.length_append, List.length_replicate,
    List.length_reverse]
  omega

theorem length_encode_le {n m : Nat} (hpow : 256 ^ n ≤ 58 ^ m) {b : Bytes} (hlen : b.length = n) :
    (encode b).length ≤ m := by
  rw [encode, List.length_map]
  refine length_convert_le (by decide) (by decide) hpow ?_ (by rwa [List.length_map])
  simpa using fun a _ => a.toNat_lt

end Base58
