import RelationalSdk.Text
import Mathlib.Logic.Function.Basic

/-!
# Names, inodes and open files

A `Directory` maps names to inodes, each with a content, and has no hard links. Opening a name
for writing creates it or truncates its content and gives the inode, and a write goes to the
inode, wherever its name went in the meantime. `rename` moves the inode of a name to another
name, which loses the one it had.
-/

namespace Inodes

open Text

/-- A directory without hard links. -/
structure Directory (ν : Type*) where
  /-- The inode of a name. -/
  entry : ν → Option Nat
  content : Nat → Bytes
  /-- The number the next inode gets. -/
  fresh : Nat
  bounded : ∀ {n i}, entry n = some i → i < fresh
  injective : ∀ {n m i}, entry n = some i → entry m = some i → n = m

/-- Write at an offset of a content, after zeros if it ends before it. -/
def splice (content : Bytes) (offset : Nat) (bytes : Bytes) : Bytes :=
  content.take offset ++ List.replicate (offset - content.length) 0 ++ bytes ++
    content.drop (offset + bytes.length)

/-- A write at the end appends. -/
theorem splice_length (content bytes : Bytes) :
    splice content content.length bytes = content ++ bytes := by
  simp [splice]

namespace Directory

variable {ν : Type*} (d : Directory ν)

/-- No names. -/
def empty : Directory ν where
  entry _ := none
  content _ := []
  fresh := 0
  bounded := nofun
  injective := nofun

/-- The content of a name. -/
def read (n : ν) : Option Bytes :=
  (d.entry n).map d.content

/-- The inode that opening a name for writing gives. -/
def inodeOf (n : ν) : Nat :=
  (d.entry n).getD d.fresh

/-- No other name has this inode. -/
theorem eq_of_entry_eq_inodeOf {n m : ν} (h : d.entry m = some (d.inodeOf n)) : m = n := by
  unfold inodeOf at h
  cases hn : d.entry n with
  | none =>
    rw [hn, Option.getD_none] at h
    exact absurd (d.bounded h) (lt_irrefl _)
  | some i =>
    rw [hn, Option.getD_some] at h
    exact d.injective h hn

/-- Write to an inode at an offset. -/
def writeAt (i offset : Nat) (bytes : Bytes) : Directory ν :=
  { d with content := Function.update d.content i (splice (d.content i) offset bytes) }

variable {d}

theorem content_writeAt_self (i offset : Nat) (bytes : Bytes) :
    (d.writeAt i offset bytes).content i = splice (d.content i) offset bytes :=
  Function.update_self _ _ _

/-- A write leaves the names of other inodes as they are. -/
theorem read_writeAt_of_ne {n : ν} {i : Nat} (h : d.entry n ≠ some i) (offset : Nat)
    (bytes : Bytes) : (d.writeAt i offset bytes).read n = d.read n := by
  change (d.entry n).map (d.writeAt i offset bytes).content = (d.entry n).map d.content
  cases hn : d.entry n with
  | none => rfl
  | some j =>
    have hj : j ≠ i := fun heq => h (heq ▸ hn)
    exact congrArg some (Function.update_of_ne hj _ _)

variable (d) [DecidableEq ν]

/-- Open a name for writing, which creates it or truncates its content. -/
def create (n : ν) : Directory ν where
  entry := Function.update d.entry n (some (d.inodeOf n))
  content := Function.update d.content (d.inodeOf n) []
  fresh := max d.fresh (d.inodeOf n + 1)
  bounded := by
    intro m i hm
    by_cases hmn : m = n
    · rw [hmn, Function.update_self, Option.some.injEq] at hm
      omega
    · rw [Function.update_of_ne hmn] at hm
      exact lt_max_of_lt_left (d.bounded hm)
  injective := by
    intro m m' i hm hm'
    by_cases hmn : m = n <;> by_cases hmn' : m' = n
    · rw [hmn, hmn']
    · rw [hmn, Function.update_self] at hm
      rw [Function.update_of_ne hmn', ← hm] at hm'
      exact absurd (d.eq_of_entry_eq_inodeOf hm') hmn'
    · rw [hmn', Function.update_self] at hm'
      rw [Function.update_of_ne hmn, ← hm'] at hm
      exact absurd (d.eq_of_entry_eq_inodeOf hm) hmn
    · rw [Function.update_of_ne hmn] at hm
      rw [Function.update_of_ne hmn'] at hm'
      exact d.injective hm hm'

/-- Move the inode `i` of `a` to the name `b`. -/
def move {a : ν} {i : Nat} (h : d.entry a = some i) (b : ν) : Directory ν where
  entry := Function.update (Function.update d.entry a none) b (some i)
  content := d.content
  fresh := d.fresh
  bounded := by
    intro m j hm
    by_cases hmb : m = b
    · rw [hmb, Function.update_self, Option.some.injEq] at hm
      exact hm ▸ d.bounded h
    · rw [Function.update_of_ne hmb] at hm
      by_cases hma : m = a
      · rw [hma, Function.update_self] at hm
        cases hm
      · rw [Function.update_of_ne hma] at hm
        exact d.bounded hm
  injective := by
    -- A name other than `b` has the inode it had, which is not the one of `a`.
    have hother : ∀ {m j}, m ≠ b →
        Function.update (Function.update d.entry a none) b (some i) m = some j →
          d.entry m = some j ∧ j ≠ i := by
      intro m j hmb hm
      rw [Function.update_of_ne hmb] at hm
      by_cases hma : m = a
      · rw [hma, Function.update_self] at hm
        cases hm
      · rw [Function.update_of_ne hma] at hm
        exact ⟨hm, fun hji => hma (d.injective (hji ▸ hm) h)⟩
    intro m m' j hm hm'
    by_cases hmb : m = b <;> by_cases hmb' : m' = b
    · rw [hmb, hmb']
    · rw [hmb, Function.update_self, Option.some.injEq] at hm
      exact absurd hm.symm (hother hmb' hm').2
    · rw [hmb', Function.update_self, Option.some.injEq] at hm'
      exact absurd hm'.symm (hother hmb hm).2
    · exact d.injective (hother hmb hm).1 (hother hmb' hm').1

/-- Rename `a` to `b`, if there is an `a`. -/
def rename (a b : ν) : Option (Directory ν) :=
  match h : d.entry a with
  | none => none
  | some _ => some (d.move h b)

variable {d}

theorem entry_create_self (n : ν) : (d.create n).entry n = some (d.inodeOf n) :=
  Function.update_self _ _ _

theorem content_create_inodeOf (n : ν) : (d.create n).content (d.inodeOf n) = [] :=
  Function.update_self _ _ _

/-- Opening a name leaves the others as they are. -/
theorem read_create_of_ne {n m : ν} (h : m ≠ n) : (d.create n).read m = d.read m := by
  have hentry : (d.create n).entry m = d.entry m := Function.update_of_ne h _ _
  unfold read
  rw [hentry]
  cases hm : d.entry m with
  | none => rfl
  | some i =>
    have hi : i ≠ d.inodeOf n := fun heq => h (d.eq_of_entry_eq_inodeOf (heq ▸ hm))
    exact congrArg some (Function.update_of_ne hi _ _)

/-- After a rename the new name has the content of the old one. -/
theorem read_move {a : ν} {i : Nat} (h : d.entry a = some i) (b : ν) :
    (d.move h b).read b = some (d.content i) := by
  have hentry : (d.move h b).entry b = some i := Function.update_self _ _ _
  rw [read, hentry]
  rfl

theorem rename_of_entry {a : ν} {i : Nat} (h : d.entry a = some i) (b : ν) :
    d.rename a b = some (d.move h b) := by
  unfold rename
  split
  · rename_i hnone
    cases hnone.symm.trans h
  · rename_i j hj
    obtain rfl : j = i := Option.some.inj (hj.symm.trans h)
    rfl

end Directory

end Inodes
