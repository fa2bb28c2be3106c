import RelationalSdk.Hoare
import RelationalSdk.Wire

/-!
# The memory of a guest module

`run_blocking` of `drt/runtime.rs` calls the exports of a script, and reads and writes its memory at
addresses that the script returns. They are `i32`, and are sign-extended to `usize`. Most sums of
addresses are checked, but two are not : the end of the message in `host_log`, and the address of
the second output cell.

The guest is any answer to each call : the messages that it logs during the call, the memory after
it, and a value or an error. The trace of a run records what the guest passes for the two unchecked
sums, each of them that leaves its type, and each access.

`memorySafe_iff` : whatever the guest does, every access is inside of the memory, an access outside
ends the run or is ignored, and the body is what the output cells point to. No sum leaves its type
if and only if no message with a negative address reaches up to the address zero, and the output
cells do not start within the last four addresses of the `i32` range.
-/

namespace RelationalSdk.Runtime

open Text Hoare Wire

abbrev I32 := BitVec 32

abbrev Usize := BitVec 64

/-- `as usize`. -/
def asUsize (x : I32) : Usize :=
  x.signExtend 64

def checkedAdd (a b : Usize) : Option Usize :=
  if a.toNat + b.toNat < 2 ^ 64 then some (a + b) else none

/-! ## The guest -/

/-- A linear memory of at most 4 GiB. -/
structure Memory where
  size : Nat
  size_le : size ≤ 2 ^ 32
  byte : Nat → UInt8

namespace Memory

/-- `data.get(start..stop)`. -/
def get (m : Memory) (start stop : Usize) : Option Bytes :=
  if start.toNat ≤ stop.toNat ∧ stop.toNat ≤ m.size then
    some ((List.range' start.toNat (stop.toNat - start.toNat)).map m.byte)
  else none

/-- The memory with some bytes at an address. -/
def store (m : Memory) (start : Usize) (bytes : Bytes) : Memory :=
  { m with byte := fun i =>
      if start.toNat ≤ i then bytes.getD (i - start.toNat) (m.byte i) else m.byte i }

end Memory

inductive RuntimeError where
  | badModule (m : String)
  | trap (m : String)
  | outOfFuel
  | sizeLimit (m : String)
  deriving DecidableEq

/-- A call of `host_log`, with the exported memory at that time. -/
structure LogCall where
  src : I32
  len : I32
  memory : Option Memory

/-- How the guest answers a call. -/
structure Reply (σ α : Type) where
  logs : List LogCall
  state : σ
  memory : Memory
  value : Except RuntimeError α

/-- A guest module. An export that is missing is the text of the error. -/
structure GuestModule (σ : Type) where
  start : Reply σ Unit
  exportsMemory : Bool
  alloc : Except String (σ → Memory → I32 → Reply σ I32)
  run : Except String (σ → Memory → I32 → I32 → I32 → I32 → I32 → I32 → Reply σ I32)

/-! ## The host -/

/-- What happens at an address. -/
inductive Event where
  /-- The guest calls `host_log`. -/
  | hostLog (src len : I32)
  /-- The guest returns the address of the output cells. -/
  | outCells (cells : I32)
  /-- A sum has left its type. -/
  | overflow
  /-- Bytes are read or written. -/
  | access (start stop size : Nat)
  /-- An access of the host that is refused. -/
  | denied
  /-- An access for a message that is refused. -/
  | ignored
  deriving DecidableEq

/-- The guest between two calls, and what has happened. -/
structure Host (σ : Type) where
  state : σ
  memory : Memory
  trace : List Event

structure RuntimeOutput where
  exitCode : I32
  body : Bytes

def maxOutputBytes : Nat :=
  4 * 1024 * 1024

/-- `fuel_budget`, with sums and products that saturate. -/
def fuelBudget (inputLen : Nat) : Nat :=
  min (2000000000 + min (1000 * inputLen) (2 ^ 64 - 1)) (2 ^ 64 - 1)

/-- `host_log`. Its `src + len` is not checked. -/
def hostLog (c : LogCall) : List Event :=
  match c.memory with
  | none => []
  | some m =>
    let src := asUsize c.src
    let len := if (asUsize c.len).toNat ≤ 4096 then asUsize c.len else 4096
    let stop := src + len
    .hostLog c.src c.len :: ((if src.toNat + len.toNat < 2 ^ 64 then [] else [.overflow]) ++
      match m.get src stop with
      | some _ => [.access src.toNat stop.toNat m.size]
      | none => [.ignored])

section Run

variable {σ α : Type}

/-- The guest has answered. -/
def answer (r : Reply σ α) : EStateM RuntimeError (Host σ) α := do
  modify fun s => ⟨r.state, r.memory, s.trace ++ r.logs.flatMap hostLog⟩
  match r.value with
  | .ok a => pure a
  | .error e => throw e

/-- An event of the host. -/
def record (e : Event) : EStateM RuntimeError (Host σ) Unit :=
  modify fun s => { s with trace := s.trace ++ [e] }

def writeIntoMemory (offset : Usize) (bytes : Bytes) : EStateM RuntimeError (Host σ) Unit := do
  let s ← get
  match checkedAdd offset (BitVec.ofNat 64 bytes.length) with
  | none =>
    record .denied
    throw (.trap "offset overflow")
  | some stop =>
    match s.memory.get offset stop with
    | none =>
      record .denied
      throw (.trap "alloc returned out-of-bounds offset")
    | some _ =>
      record (.access offset.toNat stop.toNat s.memory.size)
      modify fun s => { s with memory := s.memory.store offset bytes }

/-- The bytes at an address. The text is that of the error. -/
def readAt (offset len : Usize) (outOfBounds : String) :
    EStateM RuntimeError (Host σ) Bytes := do
  let s ← get
  match checkedAdd offset len with
  | none =>
    record .denied
    throw (.trap "offset overflow")
  | some stop =>
    match s.memory.get offset stop with
    | none =>
      record .denied
      throw (.trap outOfBounds)
    | some bytes =>
      record (.access offset.toNat stop.toNat s.memory.size)
      pure bytes

/-- `i32::from_le_bytes`. -/
def fromLeBytes (b : Bytes) : I32 :=
  BitVec.ofNat 32 (ofLeBytes b)

def readI32 (offset : Usize) : EStateM RuntimeError (Host σ) I32 := do
  let buf ← readAt offset 4 "output cell out of bounds"
  pure (fromLeBytes buf)

def readBytes (offset len : Usize) : EStateM RuntimeError (Host σ) Bytes :=
  readAt offset len "output slice out of bounds"

/-- `cells + 4`, which is not checked. -/
def outLenCellOf (cells : I32) : EStateM RuntimeError (Host σ) I32 := do
  record (.outCells cells)
  if cells.toInt + 4 < 2 ^ 31 then pure (cells + 4)
  else
    record .overflow
    pure (cells + 4)

/-- From the call of `run` on, the output is read from the two cells. -/
def readOutput (exitCode cells outLenCell : I32) :
    EStateM RuntimeError (Host σ) RuntimeOutput := do
  let outPtr ← readI32 (asUsize cells)
  let outLen ← readI32 (asUsize outLenCell)
  let n := outLen.toInt
  if n < 0 then throw (.trap s!"guest returned negative output length: {n}")
  else
    let bytes := (asUsize outLen).toNat
    if maxOutputBytes < bytes then
      throw (.sizeLimit s!"DRT output is {bytes} bytes (limit {maxOutputBytes})")
    else
      let body ← readBytes (asUsize outPtr) (asUsize outLen)
      pure ⟨exitCode, body⟩

def runBlocking (g : GuestModule σ) (csv args : Bytes) :
    EStateM RuntimeError (Host σ) RuntimeOutput := do
  answer g.start
  if g.exportsMemory then
    match g.alloc with
    | .error e => throw (.badModule s!"missing `alloc` export: {e}")
    | .ok alloc =>
      let s ← get
      let csvPtr ← answer (alloc s.state s.memory (BitVec.ofNat 32 csv.length))
      writeIntoMemory (asUsize csvPtr) csv
      let s ← get
      let argsPtr ← answer (alloc s.state s.memory (BitVec.ofNat 32 args.length))
      writeIntoMemory (asUsize argsPtr) args
      let s ← get
      let cells ← answer (alloc s.state s.memory 8)
      let outLenCell ← outLenCellOf cells
      match g.run with
      | .error e => throw (.badModule s!"missing `run` export: {e}")
      | .ok run =>
        let s ← get
        let exitCode ← answer (run s.state s.memory csvPtr (BitVec.ofNat 32 csv.length) argsPtr
          (BitVec.ofNat 32 args.length) cells outLenCell)
        readOutput exitCode cells outLenCell
  else throw (.badModule "module missing `memory` export")

/-- A whole run. -/
def execute (g : GuestModule σ) (csv args : Bytes) :
    EStateM.Result RuntimeError (Host σ) RuntimeOutput :=
  (runBlocking g csv args).run ⟨g.start.state, g.start.memory, []⟩

end Run

/-! ## Sums of addresses -/

/-- The sign extension as a number. -/
theorem asUsize_toNat (x : I32) : ((asUsize x).toNat : Int) =
    if x.toInt < 0 then 2 ^ 64 + x.toInt else x.toInt := by
  have hint := BitVec.toInt_eq_toNat_cond x
  have hlt := x.isLt
  rw [asUsize, BitVec.toNat_signExtend, BitVec.toNat_setWidth, BitVec.msb_eq_decide]
  split_ifs at * <;> simp_all <;> omega

/-- Whether the values that the guest passes keep the unchecked sums in their types. -/
def Event.Safe : Event → Prop
  | .hostLog src len =>
    src.toInt < 0 → (if len.toInt < 0 ∨ 4096 < len.toInt then 4096 else len.toInt) < -src.toInt
  | .outCells cells => cells.toInt + 4 < 2 ^ 31
  | _ => True

/-- The sum of `host_log` stays in its type unless a negative address and the length reach zero. -/
theorem hostLog_sum_lt_iff (src len : I32) :
    (asUsize src).toNat + (if (asUsize len).toNat ≤ 4096 then asUsize len else 4096).toNat <
      2 ^ 64 ↔ (Event.hostLog src len).Safe := by
  have hsrc := asUsize_toNat src
  have hlen := asUsize_toNat len
  have hsrcLe := BitVec.le_toInt src
  have hlenLe := BitVec.le_toInt len
  have hsrcLt := BitVec.toInt_lt (x := src)
  have hlenLt := BitVec.toInt_lt (x := len)
  have hcap : (4096 : Usize).toNat = 4096 := rfl
  rw [Event.Safe, apply_ite BitVec.toNat, hcap]
  split_ifs at * <;> omega

/-! ## Events -/

/-- A sum leaves its type exactly if the guest has passed an unsafe value, and every access is
inside of the memory. -/
def Good (es : List Event) : Prop :=
  (.overflow ∈ es ↔ ∃ e ∈ es, ¬e.Safe) ∧
    ∀ start stop size, .access start stop size ∈ es → start ≤ stop ∧ stop ≤ size

theorem good_nil : Good [] := by
  simp [Good]

theorem Good.append {es fs : List Event} (h : Good es) (h' : Good fs) : Good (es ++ fs) := by
  refine ⟨?_, fun start stop size hmem => ?_⟩
  · rw [List.mem_append, h.1, h'.1]
    simp only [List.mem_append, or_and_right, exists_or]
  · rcases List.mem_append.mp hmem with hmem | hmem
    · exact h.2 start stop size hmem
    · exact h'.2 start stop size hmem

theorem good_singleton {e : Event} (hover : e ≠ .overflow) (hsafe : e.Safe)
    (haccess : ∀ start stop size, e = .access start stop size → start ≤ stop ∧ stop ≤ size) :
    Good [e] := by
  refine ⟨?_, fun start stop size hmem => ?_⟩
  · simp [hover.symm, hsafe]
  · exact haccess start stop size (List.mem_singleton.mp hmem).symm

theorem Memory.get_eq_some {m : Memory} {start stop : Usize} {bytes : Bytes}
    (h : m.get start stop = some bytes) : start.toNat ≤ stop.toNat ∧ stop.toNat ≤ m.size := by
  unfold Memory.get at h
  split_ifs at h with hle
  exact hle

/-- The access that was granted. -/
theorem good_access {m : Memory} {start stop : Usize} {bytes : Bytes}
    (h : m.get start stop = some bytes) :
    Good [.access start.toNat stop.toNat m.size] := by
  refine good_singleton (by simp) trivial fun a b n heq => ?_
  cases heq
  exact Memory.get_eq_some h

/-- A value of the guest, with the overflow that it leads to. -/
theorem good_input {e : Event} (hover : e ≠ .overflow)
    (haccess : ∀ start stop size, e ≠ .access start stop size) {p : Prop} [Decidable p]
    (hp : p ↔ e.Safe) : Good (e :: if p then [] else [.overflow]) := by
  refine ⟨?_, fun start stop size hmem => ?_⟩
  · by_cases hsafe : p
    · simp [if_pos hsafe, hover.symm, hp.mp hsafe]
    · simp [if_neg hsafe, mt hp.mpr hsafe]
  · rcases List.mem_cons.mp hmem with heq | hmem
    · exact absurd heq.symm (haccess start stop size)
    · split_ifs at hmem <;> simp at hmem

/-- One message. -/
theorem good_hostLog (c : LogCall) : Good (hostLog c) ∧ .denied ∉ hostLog c := by
  unfold hostLog
  rcases c.memory with _ | m
  · exact ⟨good_nil, List.not_mem_nil⟩
  dsimp only
  have hinput : Good (.hostLog c.src c.len :: if (asUsize c.src).toNat +
      (if (asUsize c.len).toNat ≤ 4096 then asUsize c.len else 4096).toNat < 2 ^ 64 then []
      else [.overflow]) :=
    good_input (by simp) (by simp) (hostLog_sum_lt_iff c.src c.len)
  generalize (if (asUsize c.len).toNat ≤ 4096 then asUsize c.len else 4096) = len at hinput ⊢
  rw [← List.cons_append]
  rcases hget : m.get (asUsize c.src) (asUsize c.src + len) with _ | bytes
  · refine ⟨hinput.append (good_singleton (by simp) trivial (by simp)), ?_⟩
    split_ifs <;> simp
  · refine ⟨hinput.append (good_access hget), ?_⟩
    split_ifs <;> simp

theorem good_logs (logs : List LogCall) :
    Good (logs.flatMap hostLog) ∧ .denied ∉ logs.flatMap hostLog := by
  induction logs with
  | nil => exact ⟨good_nil, List.not_mem_nil⟩
  | cons c logs ih =>
    rw [List.flatMap_cons, List.mem_append, not_or]
    exact ⟨(good_hostLog c).1.append ih.1, (good_hostLog c).2, ih.2⟩

/-! ## What each part of a run keeps -/

section Run

variable {σ α : Type}

/-- No access was refused, and some events have happened. -/
def Fine (past : List Event) (s : Host σ) : Prop :=
  Good s.trace ∧ .denied ∉ s.trace ∧ past ⊆ s.trace

theorem Fine.extend {past : List Event} {s : Host σ} (h : Fine past s) {es : List Event}
    (hes : Good es) (hdenied : .denied ∉ es) (state : σ) (memory : Memory) :
    Fine past ⟨state, memory, s.trace ++ es⟩ := by
  refine ⟨h.1.append hes, ?_, fun e he => List.mem_append_left _ (h.2.2 he)⟩
  rw [List.mem_append, not_or]
  exact ⟨h.2.1, hdenied⟩

/-- A part of the run keeps the trace good, and ends with an error if an access was refused. -/
def Keeps (x : EStateM RuntimeError (Host σ) α) : Prop :=
  ∀ past, Triple (Fine past) x (fun _ => Fine past) (fun _ s => Good s.trace)

theorem keeps_answer (r : Reply σ α) : Keeps (answer r) := by
  intro past
  refine Triple.bind (Q := fun _ => Fine past) (Triple.of_modify fun s hs =>
    hs.extend (good_logs r.logs).1 (good_logs r.logs).2 _ _) fun _ => ?_
  rcases r.value with e | a
  · exact (Triple.throw e).weaken fun s hs => hs.1
  · exact Triple.pure (Q := fun _ => Fine past) a

/-- An event of the host does not change the memory. -/
theorem triple_record {e : Event} (hgood : Good [e]) (hdenied : e ≠ .denied) (past : List Event)
    (m : Memory) : Triple (fun s => Fine past s ∧ s.memory = m) (record (σ := σ) e)
      (fun _ s => Fine past s ∧ s.memory = m) (fun _ s => Good s.trace) :=
  Triple.of_modify fun _ hs => ⟨hs.1.extend hgood (by simpa using hdenied.symm) _ _, hs.2⟩

/-- An access that is refused ends the run. -/
theorem triple_denied (past : List Event) (e : RuntimeError) {Q : α → Host σ → Prop} :
    Triple (Fine past) (do record .denied; throw e : EStateM RuntimeError (Host σ) α) Q
      (fun _ s => Good s.trace) :=
  Triple.bind (Q := fun _ s => Good s.trace)
    (Triple.of_modify fun s hs =>
      hs.1.append (good_singleton (e := .denied) (by simp) trivial (by simp)))
    fun _ => Triple.throw (R := fun _ (s : Host σ) => Good s.trace) e

theorem keeps_writeIntoMemory (offset : Usize) (bytes : Bytes) :
    Keeps (writeIntoMemory (σ := σ) offset bytes) := by
  intro past
  refine Triple.of_get fun s hs => ?_
  have hstart : ∀ s', s' = s → Fine past s' := fun _ h => h ▸ hs
  rcases checkedAdd offset (BitVec.ofNat 64 bytes.length) with _ | stop
  · exact (triple_denied past _).weaken hstart
  dsimp only
  rcases hget : s.memory.get offset stop with _ | old
  · exact (triple_denied past _).weaken hstart
  · refine Triple.bind ((triple_record (good_access hget) (by simp) past s.memory).weaken
      fun s' h => ⟨hstart s' h, congrArg Host.memory h⟩) ?_
    exact fun _ => Triple.of_modify fun s hs => hs.1

/-- What is read is in the memory, which stays as it is. -/
theorem triple_readAt (past : List Event) (m : Memory) (offset len : Usize) (text : String) :
    Triple (fun s => Fine past s ∧ s.memory = m) (readAt (σ := σ) offset len text)
      (fun bytes s => (Fine past s ∧ s.memory = m) ∧ offset.toNat + len.toNat < 2 ^ 64 ∧
        m.get offset (offset + len) = some bytes)
      (fun _ s => Good s.trace) := by
  refine Triple.of_get fun s hs => ?_
  have hstart : ∀ s', s' = s → Fine past s' ∧ s'.memory = m := fun _ h => h ▸ hs
  unfold checkedAdd
  split_ifs with hsum
  · dsimp only
    rcases hget : s.memory.get offset (offset + len) with _ | bytes
    · exact (triple_denied past _).weaken fun s' h => (hstart s' h).1
    · refine Triple.bind ((triple_record (good_access hget) (by simp) past m).weaken hstart)
        fun _ => ?_
      rw [hs.2] at hget
      exact (Triple.pure bytes).weaken fun s' h => ⟨h, hsum, hget⟩
  · exact (triple_denied past _).weaken fun s' h => (hstart s' h).1

/-- The value of a cell. -/
def Memory.I32At (m : Memory) (offset : Usize) (v : I32) : Prop :=
  ∃ bytes, offset.toNat + 4 < 2 ^ 64 ∧ m.get offset (offset + 4) = some bytes ∧
    fromLeBytes bytes = v

theorem triple_readI32 (past : List Event) (m : Memory) (offset : Usize) :
    Triple (fun s => Fine past s ∧ s.memory = m) (readI32 (σ := σ) offset)
      (fun v s => (Fine past s ∧ s.memory = m) ∧ m.I32At offset v) (fun _ s => Good s.trace) := by
  refine Triple.bind (triple_readAt past m offset 4 _) fun bytes => ?_
  exact (Triple.pure _).weaken fun s h => ⟨h.1, bytes, h.2.1, h.2.2, rfl⟩

/-- The second cell, with the overflow that the first one leads to. -/
theorem triple_outLenCellOf (cells : I32) (past : List Event) :
    Triple (Fine past) (outLenCellOf (σ := σ) cells)
      (fun outLenCell s => Fine (.outCells cells :: past) s ∧ outLenCell = cells + 4)
      (fun _ s => Good s.trace) := by
  intro s hs
  have hinput : Good (.outCells cells :: if cells.toInt + 4 < 2 ^ 31 then [] else [.overflow]) :=
    good_input (by simp) (by simp) Iff.rfl
  have hfine : ∀ es, es = (if cells.toInt + 4 < 2 ^ 31 then [] else [.overflow]) →
      Fine (.outCells cells :: past) { s with trace := s.trace ++ .outCells cells :: es } := by
    rintro es rfl
    have hextend := hs.extend hinput (by split_ifs <;> simp) s.state s.memory
    exact ⟨hextend.1, hextend.2.1, List.cons_subset.mpr ⟨by simp, hextend.2.2⟩⟩
  by_cases hsafe : cells.toInt + 4 < 2 ^ 31
  · have hrun : (outLenCellOf (σ := σ) cells).run s =
        .ok (cells + 4) { s with trace := s.trace ++ [.outCells cells] } := by
      unfold outLenCellOf
      rw [if_pos hsafe]
      rfl
    rw [hrun]
    exact ⟨hfine [] (if_pos hsafe).symm, rfl⟩
  · have hrun : (outLenCellOf (σ := σ) cells).run s =
        .ok (cells + 4) { s with trace := s.trace ++ [.outCells cells] ++ [.overflow] } := by
      unfold outLenCellOf
      rw [if_neg hsafe]
      rfl
    rw [hrun, List.append_assoc]
    exact ⟨hfine [.overflow] (if_neg hsafe).symm, rfl⟩

/-- The body is what the two output cells say, and not too long. -/
def BodyAt (m : Memory) (cells : I32) (body : Bytes) : Prop :=
  ∃ outPtr outLen : I32, m.I32At (asUsize cells) outPtr ∧ m.I32At (asUsize (cells + 4)) outLen ∧
    0 ≤ outLen.toInt ∧ outLen.toInt ≤ maxOutputBytes ∧
    (asUsize outPtr).toNat + (asUsize outLen).toNat < 2 ^ 64 ∧
    m.get (asUsize outPtr) (asUsize outPtr + asUsize outLen) = some body

theorem triple_readOutput (past : List Event) (m : Memory) (exitCode cells : I32) :
    Triple (fun s => Fine past s ∧ s.memory = m) (readOutput (σ := σ) exitCode cells (cells + 4))
      (fun out s => (Fine past s ∧ s.memory = m) ∧ BodyAt m cells out.body)
      (fun _ s => Good s.trace) := by
  refine Triple.bind (triple_readI32 past m (asUsize cells)) fun outPtr => ?_
  refine Triple.of_and fun hptr => ?_
  refine Triple.bind (triple_readI32 past m (asUsize (cells + 4))) fun outLen => ?_
  refine Triple.of_and fun hlen => ?_
  dsimp only
  split_ifs with hneg hlimit
  · exact (Triple.throw _).weaken fun s h => h.1.1
  · exact (Triple.throw _).weaken fun s h => h.1.1
  · have hcast := asUsize_toNat outLen
    rw [if_neg hneg] at hcast
    refine Triple.bind (triple_readAt past m (asUsize outPtr) (asUsize outLen) _) fun body => ?_
    refine (Triple.pure _).weaken fun s h => ⟨h.1, outPtr, outLen, hptr, hlen, ?_, ?_, h.2⟩
    · omega
    · omega

theorem Keeps.bind {β : Type} {x : EStateM RuntimeError (Host σ) α}
    {f : α → EStateM RuntimeError (Host σ) β} {past : List Event} {Q : β → Host σ → Prop}
    (hx : Keeps x) (hf : ∀ a, Triple (Fine past) (f a) Q (fun _ s => Good s.trace)) :
    Triple (Fine past) (x >>= f) Q (fun _ s => Good s.trace) :=
  Triple.bind (hx past) hf

/-- A call of the guest, which sees its own state. -/
theorem triple_call {β : Type} {past : List Event} {r : Host σ → Reply σ α}
    {f : α → EStateM RuntimeError (Host σ) β} {Q : β → Host σ → Prop}
    (hf : ∀ a, Triple (Fine past) (f a) Q (fun _ s => Good s.trace)) :
    Triple (Fine past) (do let s ← get; let a ← answer (r s); f a) Q (fun _ s => Good s.trace) :=
  Triple.of_get fun s hs => (Keeps.bind (keeps_answer (r s)) hf).weaken fun _ h => h ▸ hs

/-- A run keeps the trace good, and returns what the cells of the memory say. -/
theorem triple_runBlocking (g : GuestModule σ) (csv args : Bytes) :
    Triple (Fine []) (runBlocking g csv args)
      (fun out s => .denied ∉ s.trace ∧ Good s.trace ∧
        ∃ cells, .outCells cells ∈ s.trace ∧ BodyAt s.memory cells out.body)
      (fun _ s => Good s.trace) := by
  have hthrow : ∀ (past : List Event) (e : RuntimeError) {β : Type} {Q : β → Host σ → Prop},
      Triple (Fine past) (throw e : EStateM RuntimeError (Host σ) β) Q (fun _ s => Good s.trace) :=
    fun past e _ _ => (Triple.throw e).weaken fun s hs => hs.1
  refine Keeps.bind (keeps_answer g.start) fun _ => ?_
  split_ifs
  · rcases g.alloc with e | alloc
    · exact hthrow [] _
    refine triple_call fun csvPtr => Keeps.bind (keeps_writeIntoMemory _ csv) fun _ => ?_
    refine triple_call fun argsPtr => Keeps.bind (keeps_writeIntoMemory _ args) fun _ => ?_
    refine triple_call fun cells => Triple.bind (triple_outLenCellOf cells []) fun outLenCell => ?_
    refine Triple.of_and ?_
    rintro rfl
    rcases g.run with e | run
    · exact hthrow _ _
    refine triple_call fun exitCode => Triple.of_forall fun s hs => ?_
    refine ((triple_readOutput [.outCells cells] s.memory exitCode cells).mono ?_).weaken ?_
    · rintro out s' ⟨⟨hfine, hmem⟩, hbody⟩
      rw [← hmem] at hbody
      exact ⟨hfine.2.1, hfine.1, cells, hfine.2.2 List.mem_cons_self, hbody⟩
    · rintro _ rfl
      exact ⟨hs, rfl⟩
  · exact hthrow [] _

/-! ## Whole runs -/

/-- The state at the end. -/
def finalHost : EStateM.Result RuntimeError (Host σ) α → Host σ
  | .ok _ s => s
  | .error _ s => s

/-- No sum leaves its type, every access is inside of the memory, a refused access of the host ends
the run with an error, and the body is what the output cells say. -/
structure MemorySafe (r : EStateM.Result RuntimeError (Host σ) RuntimeOutput) : Prop where
  noOverflow : .overflow ∉ (finalHost r).trace
  inBounds : ∀ start stop size, .access start stop size ∈ (finalHost r).trace →
    start ≤ stop ∧ stop ≤ size
  refused : .denied ∈ (finalHost r).trace → ∃ e s, r = .error e s
  body : ∀ out s, r = .ok out s →
    ∃ cells, .outCells cells ∈ s.trace ∧ BodyAt s.memory cells out.body

/-- Whatever the guest does, a run is safe if and only if the guest passes no unsafe value. -/
theorem memorySafe_iff (g : GuestModule σ) (csv args : Bytes) :
    MemorySafe (execute g csv args) ↔ ∀ e ∈ (finalHost (execute g csv args)).trace, e.Safe := by
  have hrun := triple_runBlocking g csv args ⟨g.start.state, g.start.memory, []⟩
    ⟨good_nil, List.not_mem_nil, List.nil_subset _⟩
  have hgood : Good (finalHost (execute g csv args)).trace := by
    unfold execute
    rcases hres : (runBlocking g csv args).run ⟨g.start.state, g.start.memory, []⟩ with
      ⟨out, s⟩ | ⟨e, s⟩
    · rw [hres] at hrun
      exact hrun.2.1
    · rw [hres] at hrun
      exact hrun
  refine ⟨fun h e he => ?_, fun h => ⟨?_, hgood.2, fun hdenied => ?_, fun out s hout => ?_⟩⟩
  · by_contra hunsafe
    exact h.noOverflow (hgood.1.mpr ⟨e, he, hunsafe⟩)
  · intro hover
    obtain ⟨e, he, hunsafe⟩ := hgood.1.mp hover
    exact hunsafe (h e he)
  · unfold execute at hdenied ⊢
    rcases hres : (runBlocking g csv args).run ⟨g.start.state, g.start.memory, []⟩ with
      ⟨out, s⟩ | ⟨e, s⟩
    · rw [hres] at hrun hdenied
      exact absurd hdenied hrun.1
    · exact ⟨e, s, rfl⟩
  · unfold execute at hout
    rw [hout] at hrun
    exact hrun.2.2

end Run

/-! ## Guests that pass unsafe values -/

/-- A memory of one page. -/
def onePage : Memory where
  size := 65536
  size_le := by decide
  byte := fun _ => 0

/-- A guest that logs when it is started, and has its output cells at an address. -/
def loggingGuest (src len cells : I32) : GuestModule Unit where
  start := ⟨[⟨src, len, some onePage⟩], (), onePage, .ok ()⟩
  exportsMemory := true
  alloc := .ok fun _ m size => ⟨[], (), m, .ok (if size = 8 then cells else 0)⟩
  run := .ok fun _ m _ _ _ _ _ _ => ⟨[], (), m, .ok 0⟩

/-- A message of one byte at the address `-1`, and output cells at the greatest address. -/
theorem not_memorySafe_logging : ¬MemorySafe (execute (loggingGuest (-1) 1 8) [] []) ∧
    ¬MemorySafe (execute (loggingGuest 0 0 0x7fffffff) [] []) := by
  refine ⟨fun h => absurd ?_ h.noOverflow, fun h => absurd ?_ h.noOverflow⟩
  · decide +kernel
  · decide +kernel

end RelationalSdk.Runtime
