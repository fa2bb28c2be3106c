import RelationalSdk.Text

/-!
# Reading a layout of bytes

A reader takes what it reads from the front of the input and leaves the rest. `Consumes r b a` says
that `r` reads `a` from the bytes `b`, whatever stands behind them; the rules say how readers that
run one after the other compose, so that a layout is read field by field.

Numbers are written with the least octet first (`leBytes`, `ofLeBytes_leBytes`).

A `ByteFormat` is a reader together with the bytes it reads a value from, and it reads a value from
nothing else. Formats put one behind the other are a format, so a record has exactly one text
(`ByteFormat.readAll_eq_some_iff`). A `shortVec` is written behind its length : its size
(`length_shortVec`), and its format (`ByteFormat.shortVec`).
-/

namespace Wire

open Text

/-- A reader of bytes. -/
abbrev Reader (α : Type) := StateT Bytes Option α

variable {α β : Type}

/-- The next `n` bytes. -/
def takeBytes (n : Nat) : Reader (List.Vector UInt8 n) := fun b =>
  if h : n ≤ b.length then some (⟨b.take n, List.length_take_of_le h⟩, b.drop n) else none

/-- A value that may be missing. -/
def lift (a : Option α) : Reader α := fun b =>
  a.map fun a => (a, b)

/-- What a reader makes of bytes that it has to use up. -/
def readAll (r : Reader α) (b : Bytes) : Option α :=
  match r b with
  | some (a, []) => some a
  | _ => none

/-- The reader reads `a` from `b` and leaves what follows. -/
def Consumes (r : Reader α) (b : Bytes) (a : α) : Prop :=
  ∀ rest, r (b ++ rest) = some (a, rest)

namespace Consumes

theorem pure (a : α) : Consumes (Pure.pure a) [] a :=
  fun _ => rfl

theorem bind {r : Reader α} {next : α → Reader β} {b b' : Bytes} {a : α} {a' : β}
    (h : Consumes r b a) (hnext : Consumes (next a) b' a') :
    Consumes (r >>= next) (b ++ b') a' := by
  intro rest
  rw [List.append_assoc]
  change (r (b ++ (b' ++ rest))).bind (fun p => next p.1 p.2) = _
  rw [h, Option.bind_some, hnext]

/-- A reader that reads nothing. -/
theorem bind_nil {r : Reader α} {next : α → Reader β} {b : Bytes} {a : α} {a' : β}
    (h : Consumes r [] a) (hnext : Consumes (next a) b a') : Consumes (r >>= next) b a' :=
  h.bind hnext

/-- A last reader, behind which a value is returned. -/
theorem map {r : Reader α} {f : α → β} {b : Bytes} {a : α} (h : Consumes r b a) :
    Consumes (r >>= fun x => Pure.pure (f x)) b (f a) := by
  have hread : Consumes (r >>= fun x => Pure.pure (f x)) (b ++ []) (f a) := h.bind (pure (f a))
  rwa [List.append_nil] at hread

theorem takeBytes {n : Nat} (v : List.Vector UInt8 n) : Consumes (takeBytes n) v.toList v := by
  intro rest
  have hle : n ≤ (v.toList ++ rest).length := by
    rw [List.length_append, v.toList_length]
    exact Nat.le_add_right _ _
  rw [Wire.takeBytes, dif_pos hle]
  refine congrArg some (Prod.ext (List.Vector.toList_injective ?_) ?_)
  · exact List.take_left' v.toList_length
  · exact List.drop_left' v.toList_length

theorem lift (a : α) : Consumes (lift (some a)) [] a :=
  fun _ => rfl

theorem readAll {r : Reader α} {b : Bytes} {a : α} (h : Consumes r b a) : readAll r b = some a := by
  have hall := h []
  rw [List.append_nil] at hall
  rw [Wire.readAll, hall]

end Consumes

/-! ## Little-endian numbers -/

/-- The `n` low octets of a number, least first. -/
def leBytes : Nat → Nat → Bytes
  | 0, _ => []
  | n + 1, v => UInt8.ofNat v :: leBytes n (v / 256)

/-- The number whose octets are given, least first. -/
def ofLeBytes : Bytes → Nat
  | [] => 0
  | b :: bs => b.toNat + 256 * ofLeBytes bs

theorem length_leBytes (n v : Nat) : (leBytes n v).length = n := by
  induction n generalizing v with
  | zero => rfl
  | succ n ih => rw [leBytes, List.length_cons, ih]

theorem ofLeBytes_leBytes (n v : Nat) : ofLeBytes (leBytes n v) = v % 256 ^ n := by
  induction n generalizing v with
  | zero => rw [pow_zero, Nat.mod_one]; rfl
  | succ n ih =>
    have hlow : v % 256 ^ (n + 1) = v % 256 + 256 * (v / 256 % 256 ^ n) := by
      rw [pow_succ', Nat.mod_mul]
    rw [leBytes, ofLeBytes, ih, hlow, UInt8.toNat_ofNat']

theorem leBytes_ofLeBytes (b : Bytes) : leBytes b.length (ofLeBytes b) = b := by
  induction b with
  | nil => rfl
  | cons x b ih =>
    have hx := x.toNat_lt
    have hlow : UInt8.ofNat (x.toNat + 256 * ofLeBytes b) = x := by
      rw [← UInt8.toNat_inj, UInt8.toNat_ofNat']
      omega
    have hhigh : (x.toNat + 256 * ofLeBytes b) / 256 = ofLeBytes b := by omega
    rw [List.length_cons, ofLeBytes, leBytes, hlow, hhigh, ih]

theorem ofLeBytes_lt (b : Bytes) : ofLeBytes b < 256 ^ b.length := by
  induction b with
  | nil => exact Nat.one_pos
  | cons x b ih =>
    have hx := x.toNat_lt
    rw [ofLeBytes, List.length_cons, pow_succ]
    omega

/-! ## Formats -/

/-- A way to write values, and a reader of exactly what is written. -/
structure ByteFormat (α : Type) where
  read : Reader α
  write : α → Bytes
  read_eq_some_iff : ∀ {b rest : Bytes} {a : α}, read b = some (a, rest) ↔ b = write a ++ rest

namespace ByteFormat

/-- A fixed number of bytes. -/
def bytes (n : Nat) : ByteFormat (List.Vector UInt8 n) where
  read := Wire.takeBytes n
  write := List.Vector.toList
  read_eq_some_iff := by
    intro b rest v
    constructor
    · intro h
      unfold Wire.takeBytes at h
      split_ifs at h
      obtain ⟨rfl, rfl⟩ := Prod.mk.inj (Option.some_inj.mp h)
      exact (List.take_append_drop n b).symm
    · rintro rfl
      exact Consumes.takeBytes v rest

/-- No bytes. -/
def empty : ByteFormat Unit where
  read := pure ()
  write _ := []
  read_eq_some_iff := by
    intro b rest a
    change some ((), b) = some ((), rest) ↔ b = rest
    rw [Option.some_inj, Prod.mk.injEq, and_iff_right rfl]

/-- One value behind the other. -/
def seq (l : ByteFormat α) (m : ByteFormat β) : ByteFormat (α × β) where
  read := do
    let a ← l.read
    let b ← m.read
    pure (a, b)
  write p := l.write p.1 ++ m.write p.2
  read_eq_some_iff := by
    rintro b rest ⟨x, y⟩
    change (l.read b).bind (fun p => (m.read p.2).bind fun q => some ((p.1, q.1), q.2)) = _ ↔ _
    simp only [Option.bind_eq_some_iff, Prod.exists, l.read_eq_some_iff, m.read_eq_some_iff]
    constructor
    · rintro ⟨x', b', rfl, y', rest', rfl, heq⟩
      obtain ⟨hxy, rfl⟩ := Prod.mk.inj (Option.some_inj.mp heq)
      obtain ⟨rfl, rfl⟩ := Prod.mk.inj hxy
      rw [List.append_assoc]
    · rintro rfl
      exact ⟨x, _, List.append_assoc .., y, rest, rfl, rfl⟩

/-- The same bytes read as another type. -/
def map (l : ByteFormat α) (e : α ≃ β) : ByteFormat β where
  read := do
    let a ← l.read
    pure (e a)
  write b := l.write (e.symm b)
  read_eq_some_iff := by
    intro b rest y
    change (l.read b).bind (fun p => some (e p.1, p.2)) = _ ↔ _
    simp only [Option.bind_eq_some_iff, Prod.exists, l.read_eq_some_iff]
    constructor
    · rintro ⟨x, rest', rfl, heq⟩
      obtain ⟨rfl, rfl⟩ := Prod.mk.inj (Option.some_inj.mp heq)
      rw [e.symm_apply_apply]
    · rintro rfl
      exact ⟨e.symm y, rest, rfl, by rw [e.apply_symm_apply]⟩

def byte : ByteFormat UInt8 :=
  (bytes 1).map
    { toFun := fun v => v.head
      invFun := fun n => ⟨[n], rfl⟩
      left_inv := fun ⟨[_], _⟩ => rfl
      right_inv := fun _ => rfl }

/-- The values that are written as some of the values of another format. -/
def narrow (l : ByteFormat α) (f : α → Option β) (g : β → α) (h : ∀ a b, f a = some b ↔ a = g b) :
    ByteFormat β where
  read := do
    let a ← l.read
    Wire.lift (f a)
  write b := l.write (g b)
  read_eq_some_iff := by
    intro b rest y
    change (l.read b).bind (fun p => (f p.1).map fun y => (y, p.2)) = _ ↔ _
    simp only [Option.bind_eq_some_iff, Option.map_eq_some_iff, Prod.exists, l.read_eq_some_iff, h]
    constructor
    · rintro ⟨_, rest', rfl, y', rfl, heq⟩
      obtain ⟨rfl, rfl⟩ := Prod.mk.inj heq
      rfl
    · rintro rfl
      exact ⟨g y, rest, rfl, y, rfl, rfl⟩

/-- Bytes behind their number. -/
def counted {n : Nat} (l : ByteFormat (Fin n)) : ByteFormat {b : Bytes // b.length < n} where
  read := do
    let k ← l.read
    let v ← Wire.takeBytes k
    pure ⟨v.toList, v.toList_length.trans_lt k.isLt⟩
  write b := l.write ⟨b.val.length, b.property⟩ ++ b.val
  read_eq_some_iff := by
    rintro b rest ⟨y, hy⟩
    change (l.read b).bind (fun p => (Wire.takeBytes p.1 p.2).bind fun q =>
      some ((⟨q.1.toList, q.1.toList_length.trans_lt p.1.isLt⟩ : {b : Bytes // b.length < n}), q.2))
        = _ ↔ _
    simp only [Option.bind_eq_some_iff, Prod.exists, l.read_eq_some_iff]
    constructor
    · rintro ⟨k, _, rfl, v, rest', hv, heq⟩
      obtain ⟨hbytes, rfl⟩ := Prod.mk.inj (Option.some_inj.mp heq)
      obtain rfl : v.toList = y := congrArg Subtype.val hbytes
      obtain rfl := (bytes k).read_eq_some_iff.mp hv
      have hk : k = ⟨v.toList.length, hy⟩ := Fin.ext v.toList_length.symm
      rw [← hk, List.append_assoc]
      rfl
    · rintro rfl
      exact ⟨⟨y.length, hy⟩, y ++ rest, List.append_assoc .., ⟨y, rfl⟩, rest,
        (bytes y.length).read_eq_some_iff.mpr rfl, rfl⟩

/-- So many values. -/
def readMany (l : ByteFormat α) : Nat → Reader (List α)
  | 0 => pure []
  | n + 1 => do
    let a ← l.read
    let rest ← readMany l n
    pure (a :: rest)

theorem readMany_eq_some_iff (l : ByteFormat α) {n : Nat} {b rest : Bytes} {xs : List α} :
    l.readMany n b = some (xs, rest) ↔ xs.length = n ∧ b = xs.flatMap l.write ++ rest := by
  induction n generalizing b rest xs with
  | zero =>
    change some ([], b) = some (xs, rest) ↔ _
    rw [Option.some_inj, Prod.mk.injEq, List.length_eq_zero_iff]
    refine ⟨?_, ?_⟩
    · rintro ⟨rfl, rfl⟩
      exact ⟨rfl, rfl⟩
    · rintro ⟨rfl, rfl⟩
      exact ⟨rfl, rfl⟩
  | succ n ih =>
    change (l.read b).bind (fun p =>
      (l.readMany n p.2).bind fun q => some (p.1 :: q.1, q.2)) = _ ↔ _
    simp only [Option.bind_eq_some_iff, Prod.exists, l.read_eq_some_iff, ih]
    constructor
    · rintro ⟨x, _, rfl, ys, rest', ⟨hlen, rfl⟩, heq⟩
      obtain ⟨rfl, rfl⟩ := Prod.mk.inj (Option.some_inj.mp heq)
      refine ⟨by rw [List.length_cons, hlen], ?_⟩
      rw [List.flatMap_cons, List.append_assoc]
    · rintro ⟨hlen, rfl⟩
      obtain ⟨x, ys, rfl⟩ := List.exists_cons_of_length_eq_add_one hlen
      refine ⟨x, ys.flatMap l.write ++ rest, ?_, ys, rest, ⟨Nat.succ.inj hlen, rfl⟩, rfl⟩
      rw [List.flatMap_cons, List.append_assoc]

/-- Values behind their number. -/
def list {n : Nat} (count : ByteFormat (Fin n)) (l : ByteFormat α) :
    ByteFormat {xs : List α // xs.length < n} where
  read := do
    let k ← count.read
    let xs ← l.readMany k
    Wire.lift (if h : xs.length < n then some ⟨xs, h⟩ else none)
  write xs := count.write ⟨xs.val.length, xs.property⟩ ++ xs.val.flatMap l.write
  read_eq_some_iff := by
    rintro b rest ⟨xs, hxs⟩
    change (count.read b).bind (fun p => (l.readMany p.1 p.2).bind fun q =>
      (if h : q.1.length < n then some (⟨q.1, h⟩ : {xs : List α // xs.length < n}) else none).map
        fun xs => (xs, q.2)) = _ ↔ _
    simp only [Option.bind_eq_some_iff, Prod.exists, count.read_eq_some_iff, readMany_eq_some_iff]
    constructor
    · rintro ⟨k, _, rfl, ys, rest', ⟨hlen, rfl⟩, heq⟩
      rw [dif_pos (hlen.trans_lt k.isLt)] at heq
      obtain ⟨hys, rfl⟩ := Prod.mk.inj (Option.some_inj.mp heq)
      obtain rfl : ys = xs := congrArg Subtype.val hys
      have hk : k = ⟨ys.length, hxs⟩ := Fin.ext hlen.symm
      rw [← hk, List.append_assoc]
    · rintro rfl
      refine ⟨⟨xs.length, hxs⟩, xs.flatMap l.write ++ rest, List.append_assoc .., xs, rest,
        ⟨rfl, rfl⟩, ?_⟩
      rw [dif_pos hxs]
      rfl

/-- A value is read from the bytes that are written for it, and from no others. -/
theorem readAll_eq_some_iff {l : ByteFormat α} {b : Bytes} {a : α} :
    Wire.readAll l.read b = some a ↔ b = l.write a := by
  have hread : Wire.readAll l.read b = some a ↔ l.read b = some (a, []) := by
    unfold Wire.readAll
    split
    · next heq => simp [heq]
    · next hne =>
      refine iff_of_false (by simp) fun heq => hne a heq
  rw [hread, l.read_eq_some_iff, List.append_nil]

end ByteFormat

/-! ## Short vectors -/

/-- A length in groups of seven bits, the lowest first; every group but the last has the high bit
set. -/
def compactU16 (n : Nat) : Bytes :=
  if n < 128 then [UInt8.ofNat n]
  else if n < 16384 then [UInt8.ofNat (n % 128 + 128), UInt8.ofNat (n / 128)]
  else [UInt8.ofNat (n % 128 + 128), UInt8.ofNat (n / 128 % 128 + 128), UInt8.ofNat (n / 16384)]

theorem length_compactU16 (n : Nat) :
    (compactU16 n).length = if n < 128 then 1 else if n < 16384 then 2 else 3 := by
  unfold compactU16
  split_ifs <;> rfl

theorem length_compactU16_of_lt {n : Nat} (h : n < 128) : (compactU16 n).length = 1 := by
  rw [length_compactU16, if_pos h]

/-- The number of elements, then the elements. -/
def shortVec (write : α → Bytes) (xs : List α) : Bytes :=
  compactU16 xs.length ++ xs.flatMap write

theorem length_shortVec (write : α → Bytes) (xs : List α) :
    (shortVec write xs).length =
      (compactU16 xs.length).length + (xs.map fun x => (write x).length).sum := by
  rw [shortVec, List.length_append, List.length_flatMap]

/-- Elements of one size. -/
theorem length_shortVec_of_forall {write : α → Bytes} {n : Nat} (h : ∀ x, (write x).length = n)
    (xs : List α) :
    (shortVec write xs).length = (compactU16 xs.length).length + xs.length * n := by
  rw [length_shortVec]
  simp only [h, List.map_const', List.sum_replicate, smul_eq_mul]

theorem oneGroup_lt {x : UInt8} (hx : x.toNat < 128) : x.toNat < 65536 := by
  omega

theorem twoGroups_lt (x : UInt8) {y : UInt8} (hy : y.toNat < 128) :
    x.toNat - 128 + 128 * y.toNat < 65536 := by
  have := x.toNat_lt
  omega

theorem threeGroups_lt (x y : UInt8) {z : UInt8} (hz : z.toNat < 4) :
    x.toNat - 128 + 128 * (y.toNat - 128) + 16384 * z.toNat < 65536 := by
  have := x.toNat_lt
  have := y.toNat_lt
  omega

/-- The length that stands in front. A last group that is zero, or a length of more than 16 bits, is
not read. -/
def readCompactU16 : Reader (Fin 65536)
  | [] => none
  | x :: rest =>
    if h : x.toNat < 128 then some (⟨x.toNat, oneGroup_lt h⟩, rest)
    else match rest with
      | [] => none
      | y :: rest =>
        if h' : y.toNat < 128 then
          if y = 0 then none
          else some (⟨x.toNat - 128 + 128 * y.toNat, twoGroups_lt x h'⟩, rest)
        else match rest with
          | [] => none
          | z :: rest =>
            if hz : z.toNat < 4 then
              if z = 0 then none
              else some (⟨x.toNat - 128 + 128 * (y.toNat - 128) + 16384 * z.toNat,
                threeGroups_lt x y hz⟩, rest)
            else none

theorem ofNat_eq_of_toNat_eq {n : Nat} {x : UInt8} (h : n = x.toNat) : UInt8.ofNat n = x := by
  rw [h, UInt8.ofNat_toNat]

theorem eq_of_readCompactU16 {b rest : Bytes} {n : Fin 65536}
    (h : readCompactU16 b = some (n, rest)) : b = compactU16 n ++ rest := by
  revert h
  fun_cases readCompactU16 b with
  | case2 x rest' hx =>
    intro h
    obtain ⟨rfl, rfl⟩ := Prod.mk.inj (Option.some_inj.mp h)
    rw [compactU16, if_pos hx, ofNat_eq_of_toNat_eq rfl]
    rfl
  | case5 x hx y rest' hy hy0 =>
    intro h
    obtain ⟨rfl, rfl⟩ := Prod.mk.inj (Option.some_inj.mp h)
    have hpos : y.toNat ≠ 0 := fun h0 => hy0 (UInt8.toNat_inj.mp h0)
    have hlt := x.toNat_lt
    rw [compactU16, if_neg (by dsimp only; omega), if_pos (by dsimp only; omega),
      ofNat_eq_of_toNat_eq (x := x) (by dsimp only; omega),
      ofNat_eq_of_toNat_eq (x := y) (by dsimp only; omega)]
    rfl
  | case8 x hx y hy z rest' hz hz0 =>
    intro h
    obtain ⟨rfl, rfl⟩ := Prod.mk.inj (Option.some_inj.mp h)
    have hpos : z.toNat ≠ 0 := fun h0 => hz0 (UInt8.toNat_inj.mp h0)
    have hlt := x.toNat_lt
    have hlt' := y.toNat_lt
    rw [compactU16, if_neg (by dsimp only; omega), if_neg (by dsimp only; omega),
      ofNat_eq_of_toNat_eq (x := x) (by dsimp only; omega),
      ofNat_eq_of_toNat_eq (x := y) (by dsimp only; omega),
      ofNat_eq_of_toNat_eq (x := z) (by dsimp only; omega)]
    rfl
  | _ => nofun

theorem readCompactU16_compactU16 (n : Fin 65536) (rest : Bytes) :
    readCompactU16 (compactU16 n ++ rest) = some (n, rest) := by
  have hn := n.isLt
  unfold compactU16
  split_ifs with h1 h2
  · have hx := UInt8.toNat_ofNat_of_lt' (n := n.val) (show _ < 256 by omega)
    simp only [List.cons_append, List.nil_append, readCompactU16, hx, h1, dite_true]
  · have hx := UInt8.toNat_ofNat_of_lt' (n := n.val % 128 + 128) (show _ < 256 by omega)
    have hy := UInt8.toNat_ofNat_of_lt' (n := n.val / 128) (show _ < 256 by omega)
    have hy0 : UInt8.ofNat (n.val / 128) ≠ 0 := by
      intro h
      have := hy.symm.trans (congrArg UInt8.toNat h)
      simp at this
      omega
    simp only [List.cons_append, List.nil_append, readCompactU16, hx, hy]
    rw [dif_neg (by omega), dif_pos (by omega), if_neg hy0]
    refine congrArg some (Prod.ext (Fin.ext ?_) rfl)
    dsimp only
    omega
  · have hx := UInt8.toNat_ofNat_of_lt' (n := n.val % 128 + 128) (show _ < 256 by omega)
    have hy := UInt8.toNat_ofNat_of_lt' (n := n.val / 128 % 128 + 128) (show _ < 256 by omega)
    have hz := UInt8.toNat_ofNat_of_lt' (n := n.val / 16384) (show _ < 256 by omega)
    have hz0 : UInt8.ofNat (n.val / 16384) ≠ 0 := by
      intro h
      have := hz.symm.trans (congrArg UInt8.toNat h)
      simp at this
      omega
    simp only [List.cons_append, List.nil_append, readCompactU16, hx, hy, hz]
    rw [dif_neg (by omega), dif_neg (by omega), dif_pos (by omega), if_neg hz0]
    refine congrArg some (Prod.ext (Fin.ext ?_) rfl)
    dsimp only
    omega

namespace ByteFormat

/-- A length in groups of seven bits. -/
def compact : ByteFormat (Fin 65536) where
  read := readCompactU16
  write n := compactU16 n
  read_eq_some_iff := by
    intro b rest n
    refine ⟨eq_of_readCompactU16, ?_⟩
    rintro rfl
    exact readCompactU16_compactU16 n rest

/-- A short vector. -/
def shortVec (l : ByteFormat α) : ByteFormat {xs : List α // xs.length < 65536} :=
  list compact l

theorem write_shortVec (l : ByteFormat α) (xs : {xs : List α // xs.length < 65536}) :
    l.shortVec.write xs = Wire.shortVec l.write xs.val :=
  rfl

end ByteFormat

end Wire
