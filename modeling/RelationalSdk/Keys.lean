import RelationalSdk.Base58
import RelationalSdk.HexText

/-!
# Public keys

A key has 32 octets and a text in base58. `pubkeyFromStr_eq_some_iff` : a text denotes a key
exactly if it is the text of the key, so a key that is read back from its text is the same, and two
texts never denote one key. The programs that the instructions name are constants.
-/

namespace RelationalSdk

open Text

/-- `Pubkey`. -/
abbrev Pubkey := List.Vector UInt8 32

/-- `Pubkey::from_str`. -/
def pubkeyFromStr (s : Str) : Option Pubkey :=
  if 44 < len s then none
  else (Base58.decode s).bind fun b => if h : b.length = 32 then some ⟨b, h⟩ else none

/-- The text of a key. -/
def pubkeyToString (k : Pubkey) : Str :=
  Base58.encode k.toList

/-- Every character is a base58 digit. -/
def IsBase58 (s : Str) : Prop :=
  ∀ c ∈ s, c ∈ Base58.alphabet

instance (s : Str) : Decidable (IsBase58 s) :=
  List.decidableBAll (· ∈ Base58.alphabet) s

/-- `|` is no base58 digit. -/
theorem IsBase58.not_mem_bar {s : Str} (h : IsBase58 s) : '|' ∉ s :=
  fun hmem => absurd (h _ hmem) (by decide)

theorem isBase58_pubkeyToString (k : Pubkey) : IsBase58 (pubkeyToString k) :=
  fun _ hc => Base58.mem_alphabet_of_mem_encode hc

theorem len_pubkeyToString_le (k : Pubkey) : len (pubkeyToString k) ≤ 44 := by
  have hascii : (Base58.alphabet.all fun c => c.toNat < 128) = true := rfl
  have hlen : len (pubkeyToString k) = (pubkeyToString k).length := by
    have hmap : (pubkeyToString k).map Char.utf8Size = (pubkeyToString k).map fun _ => 1 :=
      List.map_congr_left fun c hc => HexText.utf8Size_eq_one_iff.mpr
        (of_decide_eq_true (List.all_eq_true.mp hascii c (isBase58_pubkeyToString k c hc)))
    rw [len, hmap, List.map_const', List.sum_replicate, smul_eq_mul, mul_one]
  rw [hlen]
  exact Base58.length_encode_le (by decide) k.toList_length

/-- A text denotes a key exactly if it is the text of the key. -/
theorem pubkeyFromStr_eq_some_iff {s : Str} {k : Pubkey} :
    pubkeyFromStr s = some k ↔ s = pubkeyToString k := by
  constructor
  · intro h
    unfold pubkeyFromStr at h
    split_ifs at h
    obtain ⟨b, hb, hk⟩ := Option.bind_eq_some_iff.mp h
    split_ifs at hk with hlen
    rw [← Option.some_inj.mp hk]
    exact Base58.decode_eq_some_iff.mp hb
  · rintro rfl
    have hle := len_pubkeyToString_le k
    rw [pubkeyFromStr, if_neg (by omega), pubkeyToString, Base58.decode_encode, Option.bind_some,
      dif_pos k.toList_length]
    rfl

theorem pubkeyToString_injective : Function.Injective pubkeyToString := fun _ _ h =>
  List.Vector.toList_injective (Base58.encode_injective h)

theorem isBase58_of_pubkeyFromStr {s : Str} (h : (pubkeyFromStr s).isSome) : IsBase58 s := by
  obtain ⟨k, hk⟩ := Option.isSome_iff_exists.mp h
  rw [pubkeyFromStr_eq_some_iff.mp hk]
  exact isBase58_pubkeyToString k

/-! ## Constants -/

/-- The key that a constant of the source denotes. -/
def constKey (s : Str) : Pubkey :=
  (pubkeyFromStr s).getD (.replicate 32 0)

theorem pubkeyFromStr_constKey {s : Str} (h : (pubkeyFromStr s).isSome) :
    pubkeyFromStr s = some (constKey s) := by
  obtain ⟨k, hk⟩ := Option.isSome_iff_exists.mp h
  rw [constKey, hk, Option.getD_some]

/-- `DRT_PROGRAM_ID_STR`. -/
def drtProgramIdStr : Str :=
  "8N5hVnK81rWhwfhxt9LfjrbeVT83Jjgy4dKyy4q6HKjk".toList

def drtProgramId : Pubkey :=
  constKey drtProgramIdStr

def tokenProgramId : Pubkey :=
  constKey "TokenkegQfeZyiNwAJbNbGKPFXCWuBvf9Ss623VQ5DA".toList

def associatedTokenProgramId : Pubkey :=
  constKey "ATokenGPvbdGVxr1b2hvZbsiqW5xWH25efTNsLJA8knL".toList

def systemProgramId : Pubkey :=
  constKey "11111111111111111111111111111111".toList

def rentSysvarId : Pubkey :=
  constKey "SysvarRent111111111111111111111111111111111".toList

/-! ## Three keys -/

/-- The text of the key whose octets are all 1. -/
def senderAddress : Str :=
  "4vJ9JU1bJJE96FWSJKvHsmmFADCg4gpZQff4P3bkLKi".toList

/-- The text of the key whose octets are all 2. -/
def receiverAddress : Str :=
  "8qbHbw2BbbTHBW1sbeqakYXVKRQM8Ne7pLK7m6CVfeR".toList

/-- The text of the key whose octets are all 3. -/
def anotherAddress : Str :=
  "CktRuQ2mttgRGkXJtyksdKHjUdc2C4TgDzyB98oEzy8".toList

example : [senderAddress, receiverAddress, anotherAddress].map pubkeyFromStr =
    [1, 2, 3].map fun n => some (.replicate 32 n) := by
  decide +kernel

end RelationalSdk
