import RelationalSdk.Inodes
import RelationalSdk.Threads

/-!
# Replacing a file

`write_json` and `write_raw` replace a file by `atomic_write`, which writes a temporary sibling
and renames it. The name of the sibling depends on the path alone, so all writers of a path
share it : the second one truncates what the first has written, and what a writer has open can
be renamed over the target by another.

`replacedWhole` : in every interleaving of any number of writers of a path, each of which can
fail at any step and write in pieces of any size, the target holds its original content or all
of what one of them writes, and a writer that succeeds has put its own content there, provided
that a writer opens the sibling only while no other one has it open, and that the sibling is
another file, which it is not for a path that ends in `.tmp`.
-/

namespace RelationalSdk

open Text Inodes Runs Threads

/-! ## Names -/

/-- `Path::file_stem` : a file name up to its last dot, or all of it if nothing stands before
the dot. -/
def fileStem (name : Str) : Str :=
  let before := (name.reverse.dropWhile (· ≠ '.')).tail.reverse
  if before = [] then name else before

/-- `path.with_extension("tmp")`. -/
def tmpName (name : Str) : Str :=
  fileStem name ++ ".tmp".toList

example : ["meta.json", "pool.meta.json", "9f3a", ".hidden", "a.tmp"].map
    (fun name => String.ofList (tmpName name.toList)) =
      ["meta.tmp", "pool.meta.tmp", "9f3a.tmp", ".hidden.tmp", "a.tmp"] := by decide +kernel

/-! ## Writers -/

/-- A call of `atomic_write`, with the bytes it writes. An open call has the inode of the
sibling and has written some of the bytes, a call that is done has found the target with this
content after its rename. -/
inductive WriteCall where
  | start (data : Bytes)
  | writing (data : Bytes) (inode written : Nat)
  | failed (data : Bytes)
  | done (data : Bytes) (found : Option Bytes)
  deriving DecidableEq

/-- The next step of a call fails, or it is made, and a write takes at most so many bytes. -/
inductive WriteStep where
  | fail
  | go (bytes : Nat)

/-- One step : open the sibling, write a piece, or rename it once everything is written. -/
def atomicWriteAct (target : Str) (d : Directory Str) :
    WriteCall → WriteStep → Directory Str × WriteCall
  | .start data, .fail => (d, .failed data)
  | .start data, .go _ =>
    (d.create (tmpName target), .writing data (d.inodeOf (tmpName target)) 0)
  | .writing data _ _, .fail => (d, .failed data)
  | .writing data inode written, .go bytes =>
    if written < data.length then
      let chunk := (data.drop written).take bytes
      (d.writeAt inode written chunk, .writing data inode (written + chunk.length))
    else
      match d.rename (tmpName target) target with
      | none => (d, .failed data)
      | some d' => (d', .done data (d'.read target))
  | .failed data, _ => (d, .failed data)
  | .done data found, _ => (d, .done data found)

/-- The writers of a path. -/
def atomicWrite (target : Str) : Program (Directory Str) Bytes WriteCall WriteStep where
  start := .start
  act := atomicWriteAct target

namespace WriteCall

/-- What the call writes. -/
def data : WriteCall → Bytes
  | start data => data
  | writing data _ _ => data
  | failed data => data
  | done data _ => data

/-- The call has the sibling open, or is about to rename it. -/
def isOpen : WriteCall → Bool
  | writing _ _ _ => true
  | _ => false

/-- A call that was successful found its content at the target. -/
def OkFound : WriteCall → Prop
  | done data found => found = some data
  | _ => True

end WriteCall

/-- The target has its original content or all that one of the calls writes, and every
successful call put its content there. -/
structure ReplacedWhole (original : Option Bytes) (target : Str)
    (s : System (Directory Str) WriteCall) : Prop where
  whole : s.shared.read target = original ∨
    ∃ t ∈ s.threads, s.shared.read target = some t.data
  okFound : ∀ t ∈ s.threads, t.OkFound

/-- A call opens the sibling only while no call has it open. -/
def OpensAlone (_ : Directory Str) (ts : List WriteCall) : WriteCall → WriteStep → Prop
  | .start _, .go _ => ∀ t ∈ ts, ¬t.isOpen
  | _, _ => True

instance (d : Directory Str) (ts : List WriteCall) :
    ∀ t a, Decidable (OpensAlone d ts t a)
  | .start _, .go _ => inferInstanceAs (Decidable (∀ t ∈ ts, ¬t.isOpen))
  | .start _, .fail => .isTrue trivial
  | .writing _ _ _, _ => .isTrue trivial
  | .failed _, _ => .isTrue trivial
  | .done _ _, _ => .isTrue trivial

/-! ## The invariant -/

/-- An open call has written what it says to the file of the sibling. -/
def WriteCall.Sound (target : Str) (d : Directory Str) : WriteCall → Prop
  | writing data inode written =>
    d.entry (tmpName target) = some inode ∧ written ≤ data.length ∧
      d.content inode = data.take written
  | done data found => found = some data
  | _ => True

/-- What holds as long as calls open the sibling alone. -/
structure WriteInv (original : Option Bytes) (target : Str) (d : Directory Str)
    (ts : List WriteCall) : Prop where
  whole : d.read target = original ∨ ∃ t ∈ ts, d.read target = some t.data
  sound : ∀ t ∈ ts, t.Sound target d
  alone : ts.countP WriteCall.isOpen ≤ 1

section Steps

variable {original : Option Bytes} {target : Str} {d d' : Directory Str}
  {pre post : List WriteCall} {t t' : WriteCall}

theorem WriteCall.Sound.of_not_isOpen (h : t.Sound target d) (hopen : ¬t.isOpen) :
    t.Sound target d' := by
  cases t with
  | writing => exact absurd rfl hopen
  | _ => exact h

/-- The other calls are not open, if one is. -/
theorem WriteInv.others_not_isOpen (h : WriteInv original target d (pre ++ t :: post))
    (hopen : t.isOpen) : ∀ q ∈ pre ++ post, ¬q.isOpen := by
  have hcount := h.alone
  rw [List.countP_append, List.countP_cons, if_pos hopen] at hcount
  rw [← List.countP_eq_zero, List.countP_append]
  omega

/-- A step that changes the disk, while no other call is open. -/
theorem WriteInv.replace (h : WriteInv original target d (pre ++ t :: post))
    (hothers : ∀ q ∈ pre ++ post, ¬q.isOpen) (hdata : t'.data = t.data)
    (hread : d'.read target = d.read target ∨ d'.read target = some t'.data)
    (hsound : t'.Sound target d') : WriteInv original target d' (pre ++ t' :: post) := by
  refine ⟨?_, fun q hq => ?_, ?_⟩
  · rcases hread with hread | hread
    · rw [hread]
      refine h.whole.imp_right fun hwhole => exists_mem_replace hwhole fun ht => ?_
      rw [hdata]
      exact ht
    · exact Or.inr ⟨t', by simp, hread⟩
  · by_cases hqt : q = t'
    · exact hqt ▸ hsound
    · have hmem : q ∈ pre ++ post := by simpa [hqt] using hq
      have hq' : q ∈ pre ++ t :: post := by
        rcases List.mem_append.mp hmem with hmem | hmem <;> simp [hmem]
      exact (h.sound q hq').of_not_isOpen (hothers q hmem)
  · rw [← List.countP_eq_zero, List.countP_append] at hothers
    rw [List.countP_append, List.countP_cons]
    split_ifs <;> omega

/-- A call that stops leaves the rest as it is. -/
theorem WriteInv.stop (h : WriteInv original target d (pre ++ t :: post)) :
    WriteInv original target d (pre ++ .failed t.data :: post) := by
  refine ⟨?_, forall_mem_replace h.sound (fun _ => id) fun _ => trivial, ?_⟩
  · refine h.whole.imp_right fun hwhole => ?_
    exact exists_mem_replace hwhole fun ht => ht
  · refine le_trans ?_ h.alone
    simp [List.countP_cons, WriteCall.isOpen]

/-- Opening the sibling, alone. -/
theorem WriteInv.create {data : Bytes}
    (h : WriteInv original target d (pre ++ .start data :: post)) (htmp : tmpName target ≠ target)
    (halone : ∀ q ∈ pre ++ .start data :: post, ¬q.isOpen) :
    WriteInv original target (d.create (tmpName target))
      (pre ++ .writing data (d.inodeOf (tmpName target)) 0 :: post) := by
  refine h.replace (fun q hq => halone q ?_) rfl (Or.inl (Directory.read_create_of_ne htmp.symm))
    ⟨Directory.entry_create_self _, Nat.zero_le _, Directory.content_create_inodeOf _⟩
  rcases List.mem_append.mp hq with hq | hq <;> simp [hq]

/-- Writing a piece. -/
theorem WriteInv.write {data : Bytes} {inode written : Nat}
    (h : WriteInv original target d (pre ++ .writing data inode written :: post))
    (htmp : tmpName target ≠ target) (bytes : Nat) :
    WriteInv original target (d.writeAt inode written ((data.drop written).take bytes))
      (pre ++ .writing data inode (written + ((data.drop written).take bytes).length) :: post) := by
  obtain ⟨hentry, hwritten, hcontent⟩ := h.sound (.writing data inode written) (by simp)
  have htarget : d.entry target ≠ some inode := fun heq => htmp (d.injective hentry heq)
  have hlength : (d.content inode).length = written := by
    rw [hcontent, List.length_take, min_eq_left hwritten]
  have hsplice : splice (d.content inode) written ((data.drop written).take bytes) =
      data.take (written + ((data.drop written).take bytes).length) := by
    rw [← hlength, splice_length, hlength, hcontent, List.take_add, List.length_take,
      ← List.take_eq_take_min]
  refine h.replace (h.others_not_isOpen rfl) rfl
    (Or.inl (Directory.read_writeAt_of_ne htarget _ _)) ⟨hentry, ?_, ?_⟩
  · rw [List.length_take, List.length_drop]
    omega
  · rw [Directory.content_writeAt_self, hsplice]

/-- Renaming the sibling, once everything is written. -/
theorem WriteInv.rename {data : Bytes} {inode written : Nat}
    (h : WriteInv original target d (pre ++ .writing data inode written :: post))
    (hfull : ¬written < data.length) :
    ∃ d', d.rename (tmpName target) target = some d' ∧
      WriteInv original target d' (pre ++ .done data (d'.read target) :: post) := by
  obtain ⟨hentry, hwritten, hcontent⟩ := h.sound (.writing data inode written) (by simp)
  have hread : (d.move hentry target).read target = some data := by
    rw [Directory.read_move, hcontent, List.take_of_length_le (not_lt.mp hfull)]
  exact ⟨_, Directory.rename_of_entry hentry target,
    h.replace (h.others_not_isOpen rfl) rfl (Or.inr hread) hread⟩

/-- One step of a call. -/
theorem WriteInv.act (htmp : tmpName target ≠ target) (a : WriteStep)
    (h : WriteInv original target d (pre ++ t :: post))
    (halone : OpensAlone d (pre ++ t :: post) t a) :
    WriteInv original target (atomicWriteAct target d t a).1
      (pre ++ (atomicWriteAct target d t a).2 :: post) := by
  cases t with
  | start data =>
    cases a with
    | fail => exact h.stop
    | go bytes => exact h.create htmp halone
  | writing data inode written =>
    cases a with
    | fail => exact h.stop
    | go bytes =>
      rw [atomicWriteAct]
      split_ifs with hmore
      · exact h.write htmp bytes
      · obtain ⟨d', hrename, hinv⟩ := h.rename hmore
        rw [hrename]
        exact hinv
  | failed data => exact h
  | done data found => exact h

end Steps

/-- As long as calls open the sibling alone, the target is replaced as a whole, by every call
that succeeds. -/
theorem replacedWhole (target : Str) (htmp : tmpName target ≠ target) (d : Directory Str)
    (is : List (Input Bytes WriteStep))
    (h : Along (step (atomicWrite target)) (onRuns OpensAlone) ⟨d, []⟩ is) :
    Always (step (atomicWrite target)) (ReplacedWhole (d.read target) target) ⟨d, []⟩ is := by
  have hinit : WriteInv (d.read target) target d [] := ⟨Or.inl rfl, by simp, by simp⟩
  refine (always_of_runs (atomicWrite target) (fun d ts data hinv => ?_)
    (fun d pre t post a hinv halone => hinv.act htmp a halone) hinit h).imp fun s hinv => ?_
  · refine ⟨hinv.whole.imp_right fun hwhole => ?_, fun t ht => ?_, ?_⟩
    · obtain ⟨t, ht, hread⟩ := hwhole
      exact ⟨t, List.mem_append_left _ ht, hread⟩
    · rcases List.mem_append.mp ht with ht | ht
      · exact hinv.sound t ht
      · rw [List.mem_singleton.mp ht]
        trivial
    · simpa [List.countP_append, atomicWrite, WriteCall.isOpen] using hinv.alone
  · refine ⟨hinv.whole, fun t ht => ?_⟩
    have hsound := hinv.sound t ht
    cases t with
    | done data found => exact hsound
    | _ => trivial

/-! ## Two writers -/

/-- The directory of a wallet with a `meta.json` of one byte. -/
def walletDirectory : Directory Str :=
  (Directory.empty.create "meta.json".toList).writeAt 0 0 [0]

/-- A second call starts while the first one writes and opens the file after its rename. -/
def oneAfterAnother : List (Input Bytes WriteStep) :=
  [.spawn [1, 2], .run 0 (.go 0), .run 0 (.go 1), .spawn [3], .run 0 (.go 1), .run 0 (.go 0),
    .run 1 (.go 0), .run 1 (.go 4), .run 1 (.go 0)]

/-- The second call opens the file before the first one has renamed it. -/
def openedTwice : List (Input Bytes WriteStep) :=
  [.spawn [1, 2], .spawn [3], .run 0 (.go 0), .run 0 (.go 2), .run 1 (.go 0), .run 0 (.go 0)]

theorem replacedWhole_oneAfterAnother :
    tmpName "meta.json".toList ≠ "meta.json".toList ∧
      Along (step (atomicWrite "meta.json".toList)) (onRuns OpensAlone) ⟨walletDirectory, []⟩
        oneAfterAnother ∧
      Always (step (atomicWrite "meta.json".toList))
        (ReplacedWhole (walletDirectory.read "meta.json".toList) "meta.json".toList)
        ⟨walletDirectory, []⟩ oneAfterAnother := by
  have htmp : tmpName "meta.json".toList ≠ "meta.json".toList := by decide +kernel
  have halone : Along (step (atomicWrite "meta.json".toList)) (onRuns OpensAlone)
      ⟨walletDirectory, []⟩ oneAfterAnother := by decide +kernel
  exact ⟨htmp, halone, replacedWhole _ htmp _ _ halone⟩

/-- The first call succeeds and leaves an empty file. -/
theorem not_replacedWhole_openedTwice :
    walletDirectory.read "meta.json".toList = some [0] ∧
      (exec (step (atomicWrite "meta.json".toList)) ⟨walletDirectory, []⟩
        openedTwice).threads[0]? = some (.done [1, 2] (some [])) ∧
      ¬Always (step (atomicWrite "meta.json".toList))
        (ReplacedWhole (walletDirectory.read "meta.json".toList) "meta.json".toList)
        ⟨walletDirectory, []⟩ openedTwice := by
  refine ⟨by decide +kernel, by decide +kernel, fun h => ?_⟩
  exact absurd h.last.whole (by decide +kernel)

end RelationalSdk
