import RelationalSdk.Bump
import RelationalSdk.GuestMemory
import RelationalSdk.ScriptOutput

/-!
# A script in the sandbox

The host stages the inputs of a script in the memory of the module and reads the output back from
it, and the script shares that memory : its exported `alloc` serves the host and the output, its own
strings come from a second allocator 16 MiB above the heap base, and its stack and its constants lie
below the heap base. Every call burns fuel, of which the host grants some for each byte of the
inputs. `meanGuest` is the module of the script `mean` as the host sees it, with the allocations
that the script makes for itself and the fuel that a call takes as parameters.

`execute_meanGuest` : as long as the inputs and the output together leave 36 of the 16 MiB free,
there is room for what the script allocates, and the fuel lasts, the host gets back the exit code
and the body that the script computes from the inputs, whatever the script leaves in its own parts
of the memory. `execute_outOfFuel` : if the script takes more fuel than is granted, the host reports
that.
-/

namespace RelationalSdk.Runtime

open Text Hoare Wire

/-! ## The module -/

namespace Memory

/-- The bytes in a range. -/
def bytesAt (m : Memory) (start len : Nat) : Bytes :=
  (List.range' start len).map m.byte

/-- The memory with this many pages. -/
def resize (m : Memory) (pages : Nat) : Memory where
  size := min (pages * 65536) (2 ^ 32)
  size_le := min_le_right _ _
  byte := m.byte

/-- The memory after some of its bytes were changed. -/
def overwrite (m : Memory) (owned : Nat → Bool) (byte : Nat → UInt8) : Memory :=
  { m with byte := fun i => if owned i then byte i else m.byte i }

/-- `copy_nonoverlapping` to an address, which traps outside of the memory. -/
def copyTo (m : Memory) (addr : I32) (bytes : Bytes) : Option Memory :=
  if addr.toNat + bytes.length ≤ m.size then some (m.store (addr.setWidth 64) bytes) else none

end Memory

/-- What the source of the script does not say : where the heap starts, the memory of a fresh
instance, when it may grow, the blocks that the script allocates for some inputs, what it leaves in
its own parts of the memory, what happens if it does not get the blocks or they reach into what it
reads and writes for the host, the text of a trap, and the fuel that a call takes until it ends. -/
structure GuestImage where
  heapBase : I32
  pages : Nat
  byte : Nat → UInt8
  mayGrow : Guest → Bool
  layouts : Bytes → Bytes → List Layout
  scribble : Bytes → Bytes → Nat → UInt8
  astray : Guest → Memory → Reply Guest I32
  trap : String
  allocFuel : Guest → I32 → Nat
  runFuel : Guest → Bytes → Bytes → Nat

/-- The script between two calls, and the fuel that is left. -/
structure Metered where
  guest : Guest
  fuel : Nat

section Module

variable (V : Type) [FloatOps V] (image : GuestImage)

/-- The allocations that the script makes for itself, or nothing if one of them fails. -/
def ownAllocs : Guest → List Layout → Option Guest
  | g, [] => some g
  | g, l :: ls =>
    let (address, g') := globalAlloc image.heapBase g l (image.mayGrow g)
    if address = 0 then none
    else
      ownAllocs { g' with globalBlocks := ⟨address.toNat, l.size, l.align⟩ :: g'.globalBlocks } ls

/-- The address belongs to the stack and the constants, or to a block of the script. -/
def owned (g : Guest) (i : Nat) : Bool :=
  i < image.heapBase.toNat || g.globalBlocks.any fun b => b.start ≤ i && i < b.start + b.size

/-- The range has no address that belongs to the script. -/
def Clear (g : Guest) (start len : Nat) : Prop :=
  image.heapBase.toNat ≤ start ∧
    ∀ b ∈ g.globalBlocks, b.start + b.size ≤ start ∨ start + len ≤ b.start

instance (g : Guest) (start len : Nat) : Decidable (Clear image g start len) :=
  inferInstanceAs (Decidable (_ ∧ ∀ _ ∈ _, _))

/-- `write_le_i32`. -/
def writeLeI32 (m : Memory) (addr v : I32) : Option Memory :=
  m.copyTo addr (leBytes 4 v.toNat)

/-- `write_cells`. -/
def writeCells (g : Guest) (m : Memory) (outPtrCell outLenCell : I32) (body : Bytes) :
    Option (Guest × Memory) := do
  let (dst, g') := bumpAlloc image.heapBase g (BitVec.ofNat 32 body.length) (image.mayGrow g)
  let m := m.resize g'.pages
  if dst = 0 then
    let m ← writeLeI32 m outPtrCell 0
    let m ← writeLeI32 m outLenCell 0
    pure (g', m)
  else
    let m ← m.copyTo dst body
    let m ← writeLeI32 m outPtrCell dst
    let m ← writeLeI32 m outLenCell (BitVec.ofNat 32 body.length)
    pure (g', m)

/-- The exported `alloc`. -/
def allocReply (g : Guest) (m : Memory) (size : I32) : Reply Guest I32 :=
  let (address, g') := allocExport image.heapBase g size (image.mayGrow g)
  ⟨[], g', m.resize g'.pages, .ok address⟩

/-- What the script reads and writes for the host is out of the way of its own blocks. -/
def RangesClear (g : Guest) (csvPtr csvLen argsPtr argsLen outPtrCell outLenCell : I32)
    (body : Bytes) : Prop :=
  let dst := (bumpAlloc image.heapBase g (BitVec.ofNat 32 body.length) (image.mayGrow g)).1
  Clear image g csvPtr.toNat csvLen.toNat ∧ Clear image g argsPtr.toNat argsLen.toNat ∧
    Clear image g outPtrCell.toNat 4 ∧ Clear image g outLenCell.toNat 4 ∧
    (dst ≠ 0 → Clear image g dst.toNat body.length)

instance (g : Guest) (csvPtr csvLen argsPtr argsLen outPtrCell outLenCell : I32) (body : Bytes) :
    Decidable (RangesClear image g csvPtr csvLen argsPtr argsLen outPtrCell outLenCell body) :=
  inferInstanceAs (Decidable (_ ∧ _ ∧ _ ∧ _ ∧ (_ → _)))

/-- The exported `run`. -/
def runReply (g : Guest) (m : Memory) (csvPtr csvLen argsPtr argsLen outPtrCell outLenCell : I32) :
    Reply Guest I32 :=
  let csv := m.bytesAt csvPtr.toNat csvLen.toNat
  let args := m.bytesAt argsPtr.toNat argsLen.toNat
  let trapped : Reply Guest I32 := ⟨[], g, m, .error (.trap image.trap)⟩
  match ownAllocs image g (image.layouts csv args), RelationalSdk.run (V := V) csv args with
  | none, _ => image.astray g m
  | some _, .error _ => trapped
  | some g', .ok (code, body) =>
    if RangesClear image g' csvPtr csvLen argsPtr argsLen outPtrCell outLenCell (asBytes body) then
      let m := (m.resize g'.pages).overwrite (owned image g') (image.scribble csv args)
      match writeCells image g' m outPtrCell outLenCell (asBytes body) with
      | none => trapped
      | some (g', m) => ⟨[], g', m, .ok (BitVec.ofNat 32 code)⟩
    else image.astray g' m

/-- A call that takes so much fuel. -/
def charged (s : Metered) (m : Memory) (cost : Nat) (r : Reply Guest I32) : Reply Metered I32 :=
  if cost ≤ s.fuel then ⟨r.logs, ⟨r.state, s.fuel - cost⟩, r.memory, r.value⟩
  else ⟨[], ⟨s.guest, 0⟩, m, .error .outOfFuel⟩

/-- The module of the script, instantiated with some fuel. It has no start function. -/
def meanGuest (fuel : Nat) : GuestModule Metered where
  start := ⟨[], ⟨.init image.pages, fuel⟩, Memory.resize ⟨0, by decide, image.byte⟩ image.pages,
    .ok ()⟩
  exportsMemory := true
  alloc := .ok fun s m size =>
    charged s m (image.allocFuel s.guest size) (allocReply image s.guest m size)
  run := .ok fun s m csvPtr csvLen argsPtr argsLen outPtrCell outLenCell =>
    charged s m (image.runFuel s.guest (m.bytesAt csvPtr.toNat csvLen.toNat)
        (m.bytesAt argsPtr.toNat argsLen.toNat))
      (runReply V image s.guest m csvPtr csvLen argsPtr argsLen outPtrCell outLenCell)

end Module

/-! ## Bytes in the memory -/

namespace Memory

theorem length_bytesAt (m : Memory) (start len : Nat) : (m.bytesAt start len).length = len := by
  rw [bytesAt, List.length_map, List.length_range']

theorem bytesAt_congr {m m' : Memory} {start len : Nat}
    (h : ∀ i, start ≤ i → i < start + len → m.byte i = m'.byte i) :
    m.bytesAt start len = m'.bytesAt start len := by
  refine List.map_congr_left fun i hi => ?_
  obtain ⟨hle, hlt⟩ := List.mem_range'_1.mp hi
  exact h i hle hlt

/-- What is stored is read back. -/
theorem bytesAt_store (m : Memory) (start : Usize) (bytes : Bytes) :
    (m.store start bytes).bytesAt start.toNat bytes.length = bytes := by
  refine List.ext_getElem (length_bytesAt ..) fun i hi hi' => ?_
  simp [bytesAt, store, hi']

/-- What is stored elsewhere does not matter. -/
theorem bytesAt_store_of_disjoint (m : Memory) (a : Usize) (bytes : Bytes) {start len : Nat}
    (h : start + len ≤ a.toNat ∨ a.toNat + bytes.length ≤ start) :
    (m.store a bytes).bytesAt start len = m.bytesAt start len := by
  refine bytesAt_congr fun i hle hlt => ?_
  simp only [store]
  split_ifs with hi
  · exact List.getD_eq_default _ _ (by omega)
  · rfl

theorem size_resize (m : Memory) {pages : Nat} (h : pages ≤ 32768) :
    (m.resize pages).size = pages * 65536 :=
  min_eq_left (by omega)

/-- A copy inside of the memory. -/
theorem copyTo_eq (m : Memory) {addr : I32} {bytes : Bytes}
    (h : addr.toNat + bytes.length ≤ m.size) :
    m.copyTo addr bytes = some (m.store (addr.setWidth 64) bytes) :=
  if_pos h

theorem get_eq_bytesAt (m : Memory) {start stop : Usize} {a n : Nat} (hstart : start.toNat = a)
    (hstop : stop.toNat = a + n) (h : a + n ≤ m.size) :
    m.get start stop = some (m.bytesAt a n) := by
  rw [Memory.get, hstart, hstop, if_pos ⟨Nat.le_add_right a n, h⟩, Nat.add_sub_cancel_left]
  rfl

end Memory

/-- The bytes of a word are read back. -/
theorem fromLeBytes_leBytes (v : I32) : Runtime.fromLeBytes (leBytes 4 v.toNat) = v := by
  have hlt : v.toNat < 256 ^ 4 := v.isLt
  rw [Runtime.fromLeBytes, ofLeBytes_leBytes, Nat.mod_eq_of_lt hlt]
  exact BitVec.ofNat_toNat 32 v

/-- An address in the lower half is not changed by the sign extension. -/
theorem toNat_asUsize {x : I32} (h : x.toNat < 2 ^ 31) : (asUsize x).toNat = x.toNat := by
  have hint := BitVec.toInt_eq_toNat_cond x
  have hcast := asUsize_toNat x
  split_ifs at hint hcast <;> omega

/-! ## Allocations that succeed -/

/-- The end of the memory that the two allocators may use. -/
def roomEnd : Nat :=
  2 ^ 31 - 65536

theorem alignUp_le {cur align : RelationalSdk.Usize} {k : Nat} (halign : align.toNat = 2 ^ k)
    (h : cur.toNat + (align.toNat - 1) < 2 ^ 32) :
    (alignUp cur align).toNat ≤ cur.toNat + (align.toNat - 1) := by
  have hpos : 0 < 2 ^ k := Nat.two_pow_pos k
  have hone : (1 : RelationalSdk.Usize).toNat = 1 := rfl
  have hmask : (align - 1).toNat = 2 ^ k - 1 := by
    rw [BitVec.toNat_sub]
    have := align.isLt
    omega
  have hsum : (cur + align - 1).toNat = cur.toNat + (align.toNat - 1) := by
    rw [BitVec.toNat_sub, BitVec.toNat_add]
    have := align.isLt
    omega
  rw [alignUp, toNat_and_not hmask, hsum]
  exact Nat.sub_le _ _

theorem toNat_currentBytes {pages : Nat} (h : pages ≤ 32768) :
    (currentBytes pages).toNat = pages * 65536 := by
  have hpage : pageSize.toNat = 65536 := rfl
  rw [currentBytes, BitVec.toNat_mul, BitVec.toNat_ofNat, hpage]
  omega

/-- The memory grows by as many pages as are needed. -/
theorem memoryGrow_needed {next : RelationalSdk.Usize} {pages : Nat} (hpages : pages ≤ 32768)
    (hnext : next.toNat ≤ roomEnd) (hgrow : currentBytes pages < next) :
    ∃ grown, memoryGrow pages ((next - currentBytes pages + pageSize - 1) / pageSize) true =
      some grown ∧ grown ≤ 32768 := by
  have hpage : pageSize.toNat = 65536 := rfl
  have hone : (1 : RelationalSdk.Usize).toNat = 1 := rfl
  have hcurrent := toNat_currentBytes hpages
  have hsub : (next - currentBytes pages).toNat = next.toNat - pages * 65536 := by
    rw [BitVec.toNat_sub_of_le (BitVec.le_of_lt hgrow), hcurrent]
  have hdelta : ((next - currentBytes pages + pageSize - 1) / pageSize).toNat =
      (next.toNat - pages * 65536 + 65535) / 65536 := by
    rw [BitVec.toNat_udiv, BitVec.toNat_sub, BitVec.toNat_add, hsub, hpage, hone]
    unfold roomEnd at hnext
    omega
  rw [BitVec.lt_def, hcurrent] at hgrow
  have hbound : pages + ((next - currentBytes pages + pageSize - 1) / pageSize).toNat ≤ 32768 := by
    rw [hdelta]
    unfold roomEnd at hnext
    omega
  exact ⟨_, if_pos ⟨rfl, hbound.trans (by decide)⟩, hbound⟩

/-- A result of an allocation : a block right after the cursor, inside of the memory. -/
structure Fresh (cur align size pages : Nat) (aligned next : RelationalSdk.Usize) (grown : Nat) :
    Prop where
  start_ge : cur ≤ aligned.toNat
  start_le : aligned.toNat ≤ cur + (align - 1)
  next_eq : next.toNat = aligned.toNat + size
  inside : next.toNat ≤ grown * 65536
  pages_le : pages ≤ grown
  grown_le : grown ≤ 32768

/-- An allocation for which there is room succeeds. -/
theorem exists_bumpFrom (cur align size : RelationalSdk.Usize) {pages k : Nat}
    (halign : align.toNat = 2 ^ k) (hpages : pages ≤ 32768)
    (hroom : cur.toNat + (align.toNat - 1) + size.toNat ≤ roomEnd) :
    ∃ aligned next grown, bumpFrom cur align size pages true = some (aligned, next, grown) ∧
      Fresh cur.toNat align.toNat size.toNat pages aligned next grown := by
  have hpage : pageSize.toNat = 65536 := rfl
  have hend : roomEnd = 2147418112 := rfl
  have hle : (alignUp cur align).toNat ≤ _ := alignUp_le halign (by omega)
  have hnext : (alignUp cur align + size).toNat = (alignUp cur align).toNat + size.toNat := by
    rw [BitVec.toNat_add, Nat.mod_eq_of_lt]
    omega
  have hwrap : NoWrap cur align size pages := by
    refine ⟨by omega, by omega, fun hgrow => ?_⟩
    rw [BitVec.toNat_sub_of_le (BitVec.le_of_lt hgrow), hnext, hpage]
    omega
  have hsome : ∃ aligned next grown,
      bumpFrom cur align size pages true = some (aligned, next, grown) ∧ grown ≤ 32768 := by
    simp only [bumpFrom]
    split_ifs with hgrow
    · obtain ⟨grown, hgrown, hbound⟩ := memoryGrow_needed hpages (by omega) hgrow
      rw [hgrown]
      exact ⟨_, _, grown, rfl, hbound⟩
    · exact ⟨_, _, pages, rfl, hpages⟩
  obtain ⟨aligned, next, grown, heq, hgrown⟩ := hsome
  obtain ⟨hge, -, haligned, hnext', hinside, hpages'⟩ := bumpFrom_spec halign hwrap heq
  rw [hpage] at hinside
  exact ⟨aligned, next, grown, heq, hge, haligned ▸ hle, hnext', hinside, hpages', hgrown⟩

section Image

variable {image : GuestImage}

/-- A block of the public allocator. -/
theorem exists_bumpAlloc {g : Guest} (size : I32) (hbase : 0 < image.heapBase.toNat)
    (hgrows : ∀ g, image.mayGrow g = true) (hpages : g.pages ≤ 32768)
    (hcur : image.heapBase.toNat ≤ (g.publicCursor image.heapBase).toNat)
    (hroom : (g.publicCursor image.heapBase).toNat + 7 + size.toNat ≤ roomEnd) :
    ∃ address next pages, bumpAlloc image.heapBase g size (image.mayGrow g) =
        (address, { g with pages := pages, publicOffset := next }) ∧
      Guest.publicCursor image.heapBase { g with pages := pages, publicOffset := next } = next ∧
      Fresh (g.publicCursor image.heapBase).toNat 8 size.toNat g.pages address next pages := by
  obtain ⟨address, next, pages, heq, hfresh⟩ :=
    exists_bumpFrom (g.publicCursor image.heapBase) 8 size (k := 3) rfl hpages hroom
  refine ⟨address, next, pages, ?_, ?_, hfresh⟩
  · rw [bumpAlloc, hgrows, heq]
  · refine if_neg fun hzero => ?_
    have hge := hfresh.start_ge
    have hnext := hfresh.next_eq
    have hzero' : next.toNat = 0 := by
      rw [show next = 0 from hzero]
      rfl
    omega

/-- What the blocks of the script take at most. -/
def ownRoom (ls : List Layout) : Nat :=
  (ls.map fun l => l.size + l.align).sum

/-- The script gets its blocks, above the start of its allocator. -/
theorem exists_ownAllocs (hgrows : ∀ g, image.mayGrow g = true) :
    ∀ (ls : List Layout) (g : Guest), g.pages ≤ 32768 →
      0 < globalStart image.heapBase →
      globalStart image.heapBase ≤ (g.globalCursor image.heapBase).toNat →
      (g.globalCursor image.heapBase).toNat + ownRoom ls ≤ roomEnd →
      (∀ b ∈ g.globalBlocks, globalStart image.heapBase ≤ b.start) →
      ∃ g', ownAllocs image g ls = some g' ∧ g'.publicOffset = g.publicOffset ∧
        g.pages ≤ g'.pages ∧ g'.pages ≤ 32768 ∧
        ∀ b ∈ g'.globalBlocks, globalStart image.heapBase ≤ b.start := by
  intro ls
  induction ls with
  | nil =>
    intro g hpages _ _ _ hblocks
    exact ⟨g, rfl, rfl, le_rfl, hpages, hblocks⟩
  | cons l ls ih =>
    intro g hpages hstart hcur hroom hblocks
    have hsum : ownRoom (l :: ls) = l.size + l.align + ownRoom ls := rfl
    have halign : (BitVec.ofNat 32 l.align).toNat = l.align := l.toNat_align
    have hpos : 0 < l.align := Nat.two_pow_pos _
    obtain ⟨address, next, pages, heq, hfresh⟩ := exists_bumpFrom
      (g.globalCursor image.heapBase) (BitVec.ofNat 32 l.align) (BitVec.ofNat 32 l.size)
      l.toNat_align hpages (by rw [halign, l.toNat_size]; omega)
    rw [halign, l.toNat_size] at hfresh
    have hge := hfresh.start_ge
    have hle := hfresh.start_le
    have hnext := hfresh.next_eq
    have haddress : address ≠ 0 := by
      rintro rfl
      simp at hge
      omega
    have hcursor : Guest.globalCursor image.heapBase
        ⟨pages, g.publicOffset, next, g.publicBlocks,
          ⟨address.toNat, l.size, l.align⟩ :: g.globalBlocks⟩ = next := by
      refine if_neg fun hzero => ?_
      have hzero' : next.toNat = 0 := by
        rw [show next = 0 from hzero]
        rfl
      omega
    obtain ⟨g', hown, hpublic, hpages', hle', hblocks'⟩ := ih
      ⟨pages, g.publicOffset, next, g.publicBlocks,
        ⟨address.toNat, l.size, l.align⟩ :: g.globalBlocks⟩ hfresh.grown_le hstart
      (by rw [hcursor]; omega) (by rw [hcursor]; omega)
      (List.forall_mem_cons.mpr ⟨hcur.trans hge, hblocks⟩)
    refine ⟨g', ?_, hpublic, hfresh.pages_le.trans hpages', hle', hblocks'⟩
    rw [ownAllocs, globalAlloc, hgrows, heq]
    exact (if_neg haddress).trans hown

/-! ## Staging -/

/-- There is room for the inputs and the output below the blocks of the script, and for these in the
lower half of the address space, and the memory grows when it is asked to. -/
structure Fits (image : GuestImage) (csv args body : Bytes) : Prop where
  heapBase_pos : 0 < image.heapBase.toNat
  staged_le : csv.length + args.length + body.length + 36 ≤ 16 * 1024 * 1024
  body_le : body.length ≤ maxOutputBytes
  own_le : globalStart image.heapBase + ownRoom (image.layouts csv args) ≤ roomEnd
  pages_le : image.pages ≤ 32768
  grows : ∀ g, image.mayGrow g = true

/-- The fuel that is granted for the inputs covers three allocations and the script. -/
def FuelLasts (image : GuestImage) (csv args : Bytes) : Prop :=
  ∃ most cost, (∀ g size, image.allocFuel g size ≤ most) ∧ (∀ g, image.runFuel g csv args ≤ cost) ∧
    3 * most + cost ≤ fuelBudget (csv.length + args.length)

/-- The fuel that is left of `granted` after `k` allocations. -/
structure Funded (image : GuestImage) (granted k fuel : Nat) : Prop where
  le : fuel ≤ granted
  left : ∀ most, (∀ g size, image.allocFuel g size ≤ most) → granted ≤ fuel + k * most

/-- An allocation for which there is not enough fuel. -/
theorem Funded.not_fuelLasts {image : GuestImage} {csv args : Bytes} {k fuel : Nat} {g : Guest}
    {size : I32} (h : Funded image (fuelBudget (csv.length + args.length)) k fuel) (hk : k < 3)
    (hcost : fuel < image.allocFuel g size) : ¬FuelLasts image csv args := by
  rintro ⟨most, cost, halloc, -, hle⟩
  have hleft := h.left most halloc
  have hmost := hcost.trans_le (halloc g size)
  have hk' : (k + 1) * most ≤ 3 * most := Nat.mul_le_mul_right most hk
  rw [Nat.succ_mul] at hk'
  omega

theorem Funded.charged {image : GuestImage} {granted k fuel cost : Nat} {g : Guest} {size : I32}
    (h : Funded image granted k fuel) (hcost : cost = image.allocFuel g size) (hle : cost ≤ fuel) :
    Funded image granted (k + 1) (fuel - cost) := by
  refine ⟨(Nat.sub_le _ _).trans h.le, fun most halloc => ?_⟩
  have hleft := h.left most halloc
  have hmost := hcost ▸ halloc g size
  rw [Nat.succ_mul]
  omega

/-- Before the script runs : blocks that the host has got, the last one first, with their contents,
all of them within the first bytes of the heap. -/
structure Staged (image : GuestImage) (used : Nat) (blocks : List (I32 × Bytes)) (g : Guest)
    (m : Memory) : Prop where
  pages_le : g.pages ≤ 32768
  size_eq : m.size = g.pages * 65536
  cursor_ge : image.heapBase.toNat ≤ (g.publicCursor image.heapBase).toNat
  cursor_le : (g.publicCursor image.heapBase).toNat ≤ image.heapBase.toNat + used
  unused : g.globalOffset = 0
  noBlocks : g.globalBlocks = []
  start_ge : ∀ b ∈ blocks, image.heapBase.toNat ≤ b.1.toNat
  stop_le : ∀ b ∈ blocks, b.1.toNat + b.2.length ≤ (g.publicCursor image.heapBase).toNat
  inside : ∀ b ∈ blocks, b.1.toNat + b.2.length ≤ m.size
  content : ∀ b ∈ blocks, m.bytesAt b.1.toNat b.2.length = b.2
  stacked : blocks.Pairwise fun b b' => b'.1.toNat + b'.2.length ≤ b.1.toNat

theorem checkedAdd_eq {a b : Usize} (h : a.toNat + b.toNat < 2 ^ 64) :
    checkedAdd a b = some (a + b) ∧ (a + b).toNat = a.toNat + b.toNat :=
  ⟨if_pos h, by rw [BitVec.toNat_add, Nat.mod_eq_of_lt h]⟩

variable {used : Nat} {blocks : List (I32 × Bytes)} {R : RuntimeError → Host Metered → Prop}

/-- `alloc` answers with a block above those handed out before. -/
theorem exists_allocReply {g : Guest} {m : Memory} {size : Nat}
    (hbase : 0 < image.heapBase.toNat) (hgrows : ∀ g, image.mayGrow g = true)
    (hroom : image.heapBase.toNat + used + 7 + size ≤ roomEnd) (h : Staged image used blocks g m) :
    ∃ address g' m' old, allocReply image g m (BitVec.ofNat 32 size) = ⟨[], g', m', .ok address⟩ ∧
      old.length = size ∧ Staged image (used + 7 + size) ((address, old) :: blocks) g' m' := by
  have hend : roomEnd = 2147418112 := rfl
  have hcur := h.cursor_le
  have hsize : (BitVec.ofNat 32 size).toNat = size := by
    rw [BitVec.toNat_ofNat, Nat.mod_eq_of_lt]
    omega
  have hsign : ¬(BitVec.ofNat 32 size).msb = true := by
    rw [BitVec.msb_eq_decide, hsize]
    simp only [decide_eq_true_eq]
    omega
  obtain ⟨address, next, pages, heq, hcursor, hfresh⟩ := exists_bumpAlloc
    (BitVec.ofNat 32 size) hbase hgrows h.pages_le h.cursor_ge (by omega)
  rw [hsize] at hfresh
  obtain ⟨hge, hle, hnext, hinside, hpages, hgrown⟩ := hfresh
  have hold := m.length_bytesAt address.toNat size
  have hmemory := m.size_resize hgrown
  refine ⟨address, { g with pages := pages, publicOffset := next }, m.resize pages,
    m.bytesAt address.toNat size, ?_, hold, hgrown, hmemory, ?_, ?_, h.unused, h.noBlocks,
    ?_, ?_, ?_, ?_, ?_⟩
  · simp only [allocReply, allocExport, if_neg hsign, heq]
  · have := h.cursor_ge
    rw [hcursor]
    omega
  · rw [hcursor]
    omega
  · exact List.forall_mem_cons.mpr ⟨h.cursor_ge.trans hge, h.start_ge⟩
  · refine List.forall_mem_cons.mpr ⟨?_, fun b hb => ?_⟩
    · rw [hcursor, hold]
      exact hnext.ge
    · have := h.stop_le b hb
      rw [hcursor]
      omega
  · refine List.forall_mem_cons.mpr ⟨?_, fun b hb => ?_⟩
    · rw [hold, hmemory]
      exact hnext.symm.trans_le hinside
    · have := h.inside b hb
      have := h.size_eq
      rw [hmemory]
      omega
  · refine List.forall_mem_cons.mpr ⟨?_, h.content⟩
    rw [hold]
    rfl
  · exact List.pairwise_cons.mpr ⟨fun b hb => (h.stop_le b hb).trans hge, h.stacked⟩

/-- The host gets a block, if the fuel lasts. -/
theorem alloc_returns {s : Host Metered} {granted k size : Nat}
    (hbase : 0 < image.heapBase.toNat) (hgrows : ∀ g, image.mayGrow g = true)
    (hroom : image.heapBase.toNat + used + 7 + size ≤ roomEnd)
    (h : Staged image used blocks s.state.guest s.memory)
    (hfunded : Funded image granted k s.state.fuel)
    (hfails : s.state.fuel < image.allocFuel s.state.guest (BitVec.ofNat 32 size) →
      ∀ s', R .outOfFuel s') :
    Triple (· = s) (answer (charged s.state s.memory
        (image.allocFuel s.state.guest (BitVec.ofNat 32 size))
        (allocReply image s.state.guest s.memory (BitVec.ofNat 32 size))))
      (fun p s' => (∃ old : Bytes, old.length = size ∧
        Staged image (used + 7 + size) ((p, old) :: blocks) s'.state.guest s'.memory) ∧
          Funded image granted (k + 1) s'.state.fuel) R := by
  obtain ⟨address, g', m', old, hreply, hold, hstaged⟩ := exists_allocReply hbase hgrows hroom h
  intro s' hs'
  rw [hs', hreply, charged]
  split_ifs with hcost
  · exact ⟨⟨old, hold, hstaged⟩, hfunded.charged rfl hcost⟩
  · exact hfails (not_le.mp hcost) _

/-- The host goes on with the block. -/
theorem alloc_bind_returns {α : Type} {csv args : Bytes} (size : Nat) {k : Nat}
    {f : I32 → EStateM RuntimeError (Host Metered) α} {Q : α → Host Metered → Prop}
    (hbase : 0 < image.heapBase.toNat) (hgrows : ∀ g, image.mayGrow g = true) (hk : k < 3)
    (hroom : image.heapBase.toNat + used + 7 + size ≤ roomEnd)
    (hf : ∀ p (old : Bytes), old.length = size → Triple
      (fun s => Staged image (used + 7 + size) ((p, old) :: blocks) s.state.guest s.memory ∧
        Funded image (fuelBudget (csv.length + args.length)) (k + 1) s.state.fuel) (f p) Q
      fun e _ => e = .outOfFuel ∧ ¬FuelLasts image csv args) :
    Triple (fun s => Staged image used blocks s.state.guest s.memory ∧
        Funded image (fuelBudget (csv.length + args.length)) k s.state.fuel)
      (get >>= fun s => answer (charged s.state s.memory
        (image.allocFuel s.state.guest (BitVec.ofNat 32 size))
        (allocReply image s.state.guest s.memory (BitVec.ofNat 32 size))) >>= f) Q
      fun e _ => e = .outOfFuel ∧ ¬FuelLasts image csv args := by
  refine Triple.of_get ?_
  rintro s ⟨hs, hfunded⟩
  refine Triple.bind (alloc_returns hbase hgrows hroom hs hfunded
    fun hcost _ => ⟨rfl, hfunded.not_fuelLasts hk hcost⟩) fun p => ?_
  rintro s' ⟨⟨old, hold, hs'⟩, hfunded'⟩
  exact hf p old hold s' ⟨hs', hfunded'⟩

/-- The host fills the block that it has got last. -/
theorem writeIntoMemory_returns {p : I32} {old bytes : Bytes} {P : Metered → Prop}
    (hlen : bytes.length = old.length) (hused : image.heapBase.toNat + used < 2 ^ 31) :
    Triple (fun s => Staged image used ((p, old) :: blocks) s.state.guest s.memory ∧ P s.state)
      (writeIntoMemory (asUsize p) bytes)
      (fun _ s => Staged image used ((p, bytes) :: blocks) s.state.guest s.memory ∧ P s.state)
      R := by
  refine Triple.of_get ?_
  rintro s ⟨h, hP⟩
  have hstop : p.toNat + old.length ≤ _ := h.stop_le (p, old) List.mem_cons_self
  have hinside : p.toNat + old.length ≤ _ := h.inside (p, old) List.mem_cons_self
  have hcur := h.cursor_le
  have hp := toNat_asUsize (x := p) (by omega)
  have hbytes : (BitVec.ofNat 64 bytes.length).toNat = bytes.length := by
    rw [BitVec.toNat_ofNat, Nat.mod_eq_of_lt]
    omega
  obtain ⟨hadd, hsum⟩ := checkedAdd_eq (a := asUsize p) (b := BitVec.ofNat 64 bytes.length)
    (by omega)
  rw [hp, hbytes] at hsum
  have hget := s.memory.get_eq_bytesAt hp hsum (by omega)
  obtain ⟨habove, hstacked⟩ := List.pairwise_cons.mp h.stacked
  -- the other blocks end below this one
  have hother : ∀ b ∈ blocks, (s.memory.store (asUsize p) bytes).bytesAt b.1.toNat b.2.length =
      s.memory.bytesAt b.1.toNat b.2.length := by
    intro b hb
    exact s.memory.bytesAt_store_of_disjoint _ _ (Or.inl (hp ▸ habove b hb))
  have hstaged : Staged image used ((p, bytes) :: blocks) s.state.guest
      (s.memory.store (asUsize p) bytes) := by
    refine ⟨h.pages_le, h.size_eq, h.cursor_ge, h.cursor_le, h.unused, h.noBlocks, ?_, ?_, ?_, ?_,
      List.pairwise_cons.mpr ⟨habove, hstacked⟩⟩
    · exact List.forall_mem_cons.mpr (List.forall_mem_cons.mp h.start_ge)
    · rw [List.forall_mem_cons, hlen]
      exact List.forall_mem_cons.mp h.stop_le
    · rw [List.forall_mem_cons, hlen]
      exact List.forall_mem_cons.mp h.inside
    · refine List.forall_mem_cons.mpr ⟨hp ▸ s.memory.bytesAt_store (asUsize p) bytes, ?_⟩
      intro b hb
      exact (hother b hb).trans (h.content b (List.mem_cons_of_mem _ hb))
  rw [hadd]
  dsimp only
  rw [hget]
  intro s' hs'
  rw [hs']
  exact ⟨hstaged, hP⟩

/-! ## The script -/

/-- A range above the heap base and below the blocks of the script is clear of them. -/
theorem clear_of_le {g : Guest} {start len : Nat} (hstart : image.heapBase.toNat ≤ start)
    (hstop : start + len ≤ globalStart image.heapBase)
    (hblocks : ∀ b ∈ g.globalBlocks, globalStart image.heapBase ≤ b.start) :
    Clear image g start len :=
  ⟨hstart, fun b hb => Or.inr (hstop.trans (hblocks b hb))⟩

/-- The output cells, and the output that they point to. -/
structure Written (m : Memory) (cells : I32) (body : Bytes) (dst : I32) : Prop where
  size_le : m.size ≤ 2 ^ 31
  cells_lt : cells.toNat + 8 < 2 ^ 31
  dst_lt : dst.toNat < 2 ^ 31
  cells_le : cells.toNat + 8 ≤ m.size
  dst_le : dst.toNat + body.length ≤ m.size
  ptrCell : m.bytesAt cells.toNat 4 = leBytes 4 dst.toNat
  lenCell : m.bytesAt (cells.toNat + 4) 4 = leBytes 4 body.length
  content : m.bytesAt dst.toNat body.length = body

theorem toNat_setWidth (x : I32) : (x.setWidth 64).toNat = x.toNat := by
  rw [BitVec.toNat_setWidth, Nat.mod_eq_of_lt]
  have := x.isLt
  omega

theorem toNat_add_four (cells : I32) (h : cells.toNat + 8 < 2 ^ 31) :
    (cells + 4).toNat = cells.toNat + 4 := by
  rw [BitVec.toNat_add, Nat.mod_eq_of_lt]
  · rfl
  · change cells.toNat + 4 < 2 ^ 32
    omega

/-- The output, and then the two cells below it. -/
theorem exists_written (m : Memory) {cells dst : I32} (body : Bytes) (hsize : m.size ≤ 2 ^ 31)
    (hcells : cells.toNat + 8 ≤ dst.toNat) (hdst : dst.toNat < 2 ^ 31)
    (hstop : dst.toNat + body.length ≤ m.size) :
    ∃ m₁ m₂ m₃, m.copyTo dst body = some m₁ ∧ writeLeI32 m₁ cells dst = some m₂ ∧
      writeLeI32 m₂ (cells + 4) (BitVec.ofNat 32 body.length) = some m₃ ∧
      Written m₃ cells body dst := by
  have hlen : (BitVec.ofNat 32 body.length).toNat = body.length := by
    rw [BitVec.toNat_ofNat, Nat.mod_eq_of_lt]
    omega
  have hfour := toNat_add_four cells (by omega)
  set m₁ := m.store (dst.setWidth 64) body with hm₁
  set m₂ := m₁.store (cells.setWidth 64) (leBytes 4 dst.toNat) with hm₂
  set m₃ := m₂.store ((cells + 4).setWidth 64) (leBytes 4 body.length) with hm₃
  have hsize₁ : m₁.size = m.size := rfl
  have hsize₂ : m₂.size = m.size := rfl
  refine ⟨m₁, m₂, m₃, m.copyTo_eq hstop, m₁.copyTo_eq ?_, ?_, hsize, by omega, hdst, ?_, hstop,
    ?_, ?_, ?_⟩
  · rw [length_leBytes, hsize₁]
    omega
  · rw [writeLeI32, hlen]
    refine m₂.copyTo_eq ?_
    rw [length_leBytes, hfour, hsize₂]
    omega
  · change cells.toNat + 8 ≤ m.size
    omega
  · rw [hm₃, Memory.bytesAt_store_of_disjoint]
    · have hread := m₁.bytesAt_store (cells.setWidth 64) (leBytes 4 dst.toNat)
      rwa [length_leBytes, toNat_setWidth] at hread
    · rw [toNat_setWidth, hfour]
      exact Or.inl le_rfl
  · have hread := m₂.bytesAt_store ((cells + 4).setWidth 64) (leBytes 4 body.length)
    rwa [length_leBytes, toNat_setWidth, hfour] at hread
  · rw [hm₃, Memory.bytesAt_store_of_disjoint, hm₂, Memory.bytesAt_store_of_disjoint]
    · have hread := m.bytesAt_store (dst.setWidth 64) body
      rwa [toNat_setWidth] at hread
    · rw [toNat_setWidth, length_leBytes]
      omega
    · rw [toNat_setWidth, length_leBytes, hfour]
      omega

/-- `write_cells` when there is room for the output after the cells. -/
theorem exists_writeCells (g : Guest) (m : Memory) (cells : I32) (body : Bytes)
    (hbase : 0 < image.heapBase.toNat) (hgrows : ∀ g, image.mayGrow g = true)
    (hpages : g.pages ≤ 32768)
    (hcur : image.heapBase.toNat ≤ (g.publicCursor image.heapBase).toNat)
    (hroom : (g.publicCursor image.heapBase).toNat + 7 + body.length ≤ roomEnd)
    (hcells : cells.toNat + 8 ≤ (g.publicCursor image.heapBase).toNat) :
    ∃ dst g' m',
      (bumpAlloc image.heapBase g (BitVec.ofNat 32 body.length) (image.mayGrow g)).1 = dst ∧
      (g.publicCursor image.heapBase).toNat ≤ dst.toNat ∧
      dst.toNat ≤ (g.publicCursor image.heapBase).toNat + 7 ∧
      writeCells image g m cells (cells + 4) body = some (g', m') ∧ Written m' cells body dst := by
  have hend : roomEnd = 2147418112 := rfl
  have hlen : (BitVec.ofNat 32 body.length).toNat = body.length := by
    rw [BitVec.toNat_ofNat, Nat.mod_eq_of_lt]
    omega
  obtain ⟨dst, next, pages, heq, -, hfresh⟩ := exists_bumpAlloc
    (BitVec.ofNat 32 body.length) hbase hgrows hpages hcur (by omega)
  rw [hlen] at hfresh
  obtain ⟨hge, hle, hnext, hstop, -, hgrown⟩ := hfresh
  have hzero : dst ≠ 0 := by
    intro h
    have hnat : dst.toNat = 0 := by rw [h]; rfl
    omega
  have hlt : dst.toNat < 2 ^ 31 := by omega
  have hsize := m.size_resize hgrown
  obtain ⟨m₁, m₂, m₃, h₁, h₂, h₃, hwritten⟩ := exists_written (m.resize pages) body
    (hsize.le.trans (Nat.mul_le_mul_right 65536 hgrown)) (hcells.trans hge) hlt
    (hsize ▸ hnext ▸ hstop)
  refine ⟨dst, { g with pages := pages, publicOffset := next }, m₃, congrArg Prod.fst heq, hge, hle,
    ?_, hwritten⟩
  rw [writeCells, heq]
  dsimp only
  rw [if_neg hzero, h₁]
  simp only [Option.bind_eq_bind, Option.bind_some, h₂, h₃, Option.pure_def]

variable {V : Type} [FloatOps V] {csv args : Bytes} {code : Nat} {body : Str}

/-- The script reads its inputs as they were staged, and its output is in the memory afterwards. -/
theorem exists_runReply {g : Guest} {m : Memory} {csvPtr argsPtr cells : I32} {old : Bytes}
    (hrun : RelationalSdk.run (V := V) csv args = .ok (code, body))
    (hfits : Fits image csv args (asBytes body))
    (hused : used + 7 + (asBytes body).length ≤ 16 * 1024 * 1024) (hold : old.length = 8)
    (h : Staged image used [(cells, old), (argsPtr, args), (csvPtr, csv)] g m) :
    ∃ dst g' m', runReply V image g m csvPtr (BitVec.ofNat 32 csv.length) argsPtr
        (BitVec.ofNat 32 args.length) cells (cells + 4) =
          ⟨[], g', m', .ok (BitVec.ofNat 32 code)⟩ ∧
      Written m' cells (asBytes body) dst := by
  have hend : roomEnd = 2147418112 := rfl
  have hstaged := hfits.staged_le
  have hown := hfits.own_le
  have hbase := hfits.heapBase_pos
  have hstart : globalStart image.heapBase = image.heapBase.toNat + 16777216 := rfl
  have hcursorLe := h.cursor_le
  have hcsvLen : (BitVec.ofNat 32 csv.length).toNat = csv.length := by
    rw [BitVec.toNat_ofNat, Nat.mod_eq_of_lt]
    omega
  have hargsLen : (BitVec.ofNat 32 args.length).toNat = args.length := by
    rw [BitVec.toNat_ofNat, Nat.mod_eq_of_lt]
    omega
  have hcsv : m.bytesAt csvPtr.toNat csv.length = csv := h.content (csvPtr, csv) (by simp)
  have hargs : m.bytesAt argsPtr.toNat args.length = args := h.content (argsPtr, args) (by simp)
  have hglobal : g.globalCursor image.heapBase = image.heapBase + globalOffsetFromHeapBase :=
    if_pos h.unused
  have hglobalNat : (g.globalCursor image.heapBase).toNat = globalStart image.heapBase := by
    rw [hglobal, BitVec.toNat_add]
    exact Nat.mod_eq_of_lt (by change image.heapBase.toNat + 16777216 < _; omega)
  obtain ⟨g', hallocs, hpublic, hgrow, hpages, hblocks⟩ := exists_ownAllocs hfits.grows
    (image.layouts csv args) g h.pages_le (by omega) hglobalNat.ge (by omega)
    (by rw [h.noBlocks]; simp)
  have hcursor : g'.publicCursor image.heapBase = g.publicCursor image.heapBase := by
    rw [Guest.publicCursor, hpublic, Guest.publicCursor]
  have hcells : cells.toNat + old.length ≤ _ := h.stop_le (cells, old) (by simp)
  obtain ⟨dst, g'', m'', hdst, hge, hle, hwrite, hwritten⟩ := exists_writeCells g'
    ((m.resize g'.pages).overwrite (owned image g') (image.scribble csv args)) cells (asBytes body)
    hbase hfits.grows hpages (by rw [hcursor]; exact h.cursor_ge) (by rw [hcursor]; omega)
    (by rw [hcursor]; omega)
  rw [hcursor] at hge hle
  refine ⟨dst, g'', m'', ?_, hwritten⟩
  -- everything that is staged is between the heap base and the blocks of the script
  have hclear : RangesClear image g' csvPtr (BitVec.ofNat 32 csv.length) argsPtr
      (BitVec.ofNat 32 args.length) cells (cells + 4) (asBytes body) := by
    have hfour := toNat_add_four cells (by omega)
    have hcellsGe : image.heapBase.toNat ≤ cells.toNat := h.start_ge (cells, old) (by simp)
    have hargsLe : argsPtr.toNat + args.length ≤ _ := h.stop_le (argsPtr, args) (by simp)
    have hcsvLe : csvPtr.toNat + csv.length ≤ _ := h.stop_le (csvPtr, csv) (by simp)
    have hcur := h.cursor_ge
    simp only [RangesClear]
    rw [hdst, hcsvLen, hargsLen]
    refine ⟨clear_of_le (h.start_ge (csvPtr, csv) (by simp)) (by omega) hblocks,
      clear_of_le (h.start_ge (argsPtr, args) (by simp)) (by omega) hblocks,
      clear_of_le hcellsGe (by omega) hblocks, clear_of_le (by omega) (by omega) hblocks,
      fun _ => clear_of_le (by omega) (by omega) hblocks⟩
  simp only [runReply]
  rw [hcsvLen, hargsLen, hcsv, hargs, hallocs, hrun]
  dsimp only
  rw [if_pos hclear, hwrite]

/-! ## Reading the output -/

/-- A read inside of the memory. -/
theorem readAt_returns {m : Memory} {a n : Usize} {start len : Nat} (outOfBounds : String)
    (ha : a.toNat = start) (hn : n.toNat = len) (hle : start + len ≤ m.size) :
    Triple (fun s : Host Metered => s.memory = m) (readAt a n outOfBounds)
      (fun b s => s.memory = m ∧ b = m.bytesAt start len) R := by
  refine Triple.of_get ?_
  rintro s rfl
  have hsize := s.memory.size_le
  obtain ⟨hadd, hsum⟩ := checkedAdd_eq (a := a) (b := n) (by omega)
  rw [ha, hn] at hsum
  have hget := s.memory.get_eq_bytesAt ha hsum hle
  rw [hadd]
  dsimp only
  rw [hget]
  intro s' hs'
  rw [hs']
  exact ⟨rfl, rfl⟩

theorem readI32_returns {m : Memory} {p v : I32} (hp : p.toNat + 4 < 2 ^ 31)
    (hle : p.toNat + 4 ≤ m.size) (hv : m.bytesAt p.toNat 4 = leBytes 4 v.toNat) :
    Triple (fun s : Host Metered => s.memory = m) (readI32 (asUsize p))
      (fun x s => s.memory = m ∧ x = v) R := by
  have hfour : (4 : Usize).toNat = 4 := rfl
  refine Triple.bind (readAt_returns _ (toNat_asUsize (by omega)) hfour hle) fun b => ?_
  rintro s ⟨hs, rfl⟩
  rw [hv]
  exact ⟨hs, fromLeBytes_leBytes v⟩

theorem readOutput_returns {m : Memory} {cells dst exitCode : I32} {out : Bytes}
    (h : Written m cells out dst) (hout : out.length ≤ maxOutputBytes) :
    Triple (fun s : Host Metered => s.memory = m) (readOutput exitCode cells (cells + 4))
      (fun r _ => r = ⟨exitCode, out⟩) R := by
  have hmax : maxOutputBytes = 4194304 := rfl
  have hcells := h.cells_lt
  have hcellsLe := h.cells_le
  have hfour := toNat_add_four cells hcells
  have hlen : (BitVec.ofNat 32 out.length).toNat = out.length := by
    rw [BitVec.toNat_ofNat, Nat.mod_eq_of_lt]
    omega
  have hlenCell : m.bytesAt (cells + 4).toNat 4 = leBytes 4 (BitVec.ofNat 32 out.length).toNat := by
    rw [hfour, hlen]
    exact h.lenCell
  have hsize := toNat_asUsize (x := BitVec.ofNat 32 out.length) (by omega)
  have hint : ¬(BitVec.ofNat 32 out.length).toInt < 0 := by
    rw [BitVec.toInt_eq_toNat_of_lt (by omega)]
    omega
  refine Triple.bind (readI32_returns (by omega) (by omega) h.ptrCell) fun outPtr => ?_
  refine Triple.of_and ?_
  rintro rfl
  refine Triple.bind (readI32_returns (by omega) (by omega) hlenCell) fun outLen => ?_
  refine Triple.of_and ?_
  rintro rfl
  dsimp only
  rw [if_neg hint, if_neg (by omega)]
  refine Triple.bind (readAt_returns _ (toNat_asUsize h.dst_lt) (hsize.trans hlen) h.dst_le)
    fun b => ?_
  rintro s ⟨-, rfl⟩
  exact congrArg (RuntimeOutput.mk exitCode) h.content

/-- The address of the second cell. -/
theorem outLenCellOf_returns {P : Metered → Memory → Prop} {cells : I32}
    (h : cells.toNat + 8 < 2 ^ 31) :
    Triple (fun s => P s.state s.memory) (outLenCellOf cells)
      (fun c s => P s.state s.memory ∧ c = cells + 4) R := by
  have hint : cells.toInt + 4 < 2 ^ 31 := by
    rw [BitVec.toInt_eq_toNat_of_lt (by omega)]
    omega
  refine Triple.bind (Q := fun _ s => P s.state s.memory) (Triple.of_modify fun s hs => hs)
    fun _ => ?_
  rw [if_pos hint]
  exact fun s hs => ⟨hs, rfl⟩

/-- The host calls the script, which returns or runs out of fuel. -/
theorem run_returns {s : Host Metered} {csvPtr argsPtr cells : I32} {old : Bytes}
    (hrun : RelationalSdk.run (V := V) csv args = .ok (code, body))
    (hfits : Fits image csv args (asBytes body))
    (hused : used + 7 + (asBytes body).length ≤ 16 * 1024 * 1024) (hold : old.length = 8)
    (h : Staged image used [(cells, old), (argsPtr, args), (csvPtr, csv)] s.state.guest s.memory)
    (hfunded : Funded image (fuelBudget (csv.length + args.length)) 3 s.state.fuel) :
    ∃ m' dst, Written m' cells (asBytes body) dst ∧
      Triple (· = s) (answer (charged s.state s.memory
          (image.runFuel s.state.guest
            (s.memory.bytesAt csvPtr.toNat (BitVec.ofNat 32 csv.length).toNat)
            (s.memory.bytesAt argsPtr.toNat (BitVec.ofNat 32 args.length).toNat))
          (runReply V image s.state.guest s.memory csvPtr (BitVec.ofNat 32 csv.length) argsPtr
            (BitVec.ofNat 32 args.length) cells (cells + 4))))
        (fun x s' => (s'.memory = m' ∧
            ∃ g, image.runFuel g csv args ≤ fuelBudget (csv.length + args.length)) ∧
          x = BitVec.ofNat 32 code)
        fun e _ => e = .outOfFuel ∧ ¬FuelLasts image csv args := by
  obtain ⟨dst, g', m', hreply, hwritten⟩ := exists_runReply hrun hfits hused hold h
  have hstaged := hfits.staged_le
  have hcsvLen : (BitVec.ofNat 32 csv.length).toNat = csv.length := by
    rw [BitVec.toNat_ofNat, Nat.mod_eq_of_lt]
    omega
  have hargsLen : (BitVec.ofNat 32 args.length).toNat = args.length := by
    rw [BitVec.toNat_ofNat, Nat.mod_eq_of_lt]
    omega
  have hcsv : s.memory.bytesAt csvPtr.toNat csv.length = csv := h.content (csvPtr, csv) (by simp)
  have hargs : s.memory.bytesAt argsPtr.toNat args.length = args :=
    h.content (argsPtr, args) (by simp)
  refine ⟨m', dst, hwritten, fun s' hs' => ?_⟩
  rw [hs', hreply, hcsvLen, hargsLen, hcsv, hargs, charged]
  split_ifs with hcost
  · exact ⟨⟨rfl, s.state.guest, hcost.trans hfunded.le⟩, rfl⟩
  · refine ⟨rfl, ?_⟩
    rintro ⟨most, cost, halloc, hmost, hle⟩
    have hleft := hfunded.left most halloc
    have hspent := (not_le.mp hcost).trans_le (hmost s.state.guest)
    omega

/-- The host stages the inputs and the cells, runs the script and reads its output, as long as the
fuel lasts. -/
theorem runBlocking_returns (hrun : RelationalSdk.run (V := V) csv args = .ok (code, body))
    (hfits : Fits image csv args (asBytes body)) :
    Triple (fun _ => True)
      (runBlocking (meanGuest V image (fuelBudget (csv.length + args.length))) csv args)
      (fun r _ => r = ⟨BitVec.ofNat 32 code, asBytes body⟩ ∧
        ∃ g, image.runFuel g csv args ≤ fuelBudget (csv.length + args.length))
      fun e _ => e = .outOfFuel ∧ ¬FuelLasts image csv args := by
  have hend : roomEnd = 2147418112 := rfl
  have hbase := hfits.heapBase_pos
  have hstaged := hfits.staged_le
  have hown := hfits.own_le
  have hstart : globalStart image.heapBase = image.heapBase.toNat + 16777216 := rfl
  set granted := fuelBudget (csv.length + args.length) with hgranted
  have hinit : Staged image 0 [] (meanGuest V image granted).start.state.guest
      (meanGuest V image granted).start.memory := by
    refine ⟨hfits.pages_le, Memory.size_resize _ hfits.pages_le, le_rfl, le_rfl, rfl, rfl, ?_, ?_,
      ?_, ?_, List.Pairwise.nil⟩ <;> simp
  have hfunded : Funded image granted 0 granted := ⟨le_rfl, fun most _ => by simp⟩
  refine Triple.bind (Q := fun _ (s : Host Metered) => Staged image 0 [] s.state.guest s.memory ∧
    Funded image granted 0 s.state.fuel) (fun s _ => ⟨hinit, hfunded⟩) fun _ => ?_
  refine alloc_bind_returns _ hbase hfits.grows (by omega) (by omega) fun csvPtr old hold => ?_
  refine Triple.bind (writeIntoMemory_returns (P := fun s => Funded image granted 1 s.fuel)
    hold.symm (by omega)) fun _ => ?_
  refine alloc_bind_returns _ hbase hfits.grows (by omega) (by omega) fun argsPtr old hold => ?_
  refine Triple.bind (writeIntoMemory_returns (P := fun s => Funded image granted 2 s.fuel)
    hold.symm (by omega)) fun _ => ?_
  refine alloc_bind_returns 8 hbase hfits.grows (by omega) (by omega) fun cells old hold => ?_
  refine Triple.of_forall fun s hs => ?_
  have hcells : cells.toNat + old.length ≤ _ := hs.1.stop_le (cells, old) List.mem_cons_self
  have hcur := hs.1.cursor_le
  refine Triple.weaken (Triple.bind (outLenCellOf_returns
    (P := fun s m => Staged image _ _ s.guest m ∧ Funded image granted 3 s.fuel) (by omega))
    fun outLenCell => ?_) (by rintro s' rfl; exact hs)
  refine Triple.of_and ?_
  rintro rfl
  refine Triple.of_get ?_
  rintro s ⟨hs, hfunded⟩
  obtain ⟨m', dst, hwritten, hcall⟩ := run_returns hrun hfits (by omega) hold hs hfunded
  refine Triple.bind hcall fun exitCode => Triple.of_and ?_
  rintro rfl
  refine Triple.of_and fun hcost => ?_
  exact (readOutput_returns hwritten hfits.body_le).mono fun r _ hr => ⟨hr, hcost⟩

end Image

/-- How the host sees a run of the script : the result that the script computes, or the end of the
fuel. -/
theorem execute_cases {V : Type} [FloatOps V] {image : GuestImage} {csv args : Bytes} {code : Nat}
    {body : Str} (hrun : RelationalSdk.run (V := V) csv args = .ok (code, body))
    (hfits : Fits image csv args (asBytes body)) :
    (∃ s, execute (meanGuest V image (fuelBudget (csv.length + args.length))) csv args =
        .ok ⟨BitVec.ofNat 32 code, asBytes body⟩ s ∧
        ∃ g, image.runFuel g csv args ≤ fuelBudget (csv.length + args.length)) ∨
      (∃ s, execute (meanGuest V image (fuelBudget (csv.length + args.length))) csv args =
        .error .outOfFuel s) ∧ ¬FuelLasts image csv args := by
  set g := meanGuest V image (fuelBudget (csv.length + args.length)) with hg
  have h := runBlocking_returns hrun hfits ⟨g.start.state, g.start.memory, []⟩ trivial
  rw [execute]
  rcases hresult : (runBlocking g csv args).run ⟨g.start.state, g.start.memory, []⟩ with
    ⟨r, s⟩ | ⟨e, s⟩
  · rw [hresult] at h
    exact Or.inl ⟨s, congrArg (EStateM.Result.ok · s) h.1, h.2⟩
  · rw [hresult] at h
    exact Or.inr ⟨⟨s, congrArg (EStateM.Result.error · s) h.1⟩, h.2⟩

/-- A module with 17 pages that allocates two strings for itself, and takes some fuel for each byte
of its inputs. -/
def sampleImage : GuestImage where
  heapBase := 1048600
  pages := 17
  byte _ := 0
  mayGrow _ := true
  layouts _ _ := [⟨10, 0, by decide⟩, ⟨64, 3, by decide⟩]
  scribble _ _ _ := 255
  astray g m := ⟨[], g, m, .error (.trap "unreachable")⟩
  trap := "unreachable"
  allocFuel _ _ := 40
  runFuel _ csv args := 5000 + 200 * (csv.length + args.length)

/-- A script that takes more fuel than is granted does not return. A short file can ask for that : a
cell `1e2147483647` makes `pow10` multiply 2147483625 times. -/
theorem execute_outOfFuel {V : Type} [FloatOps V] {image : GuestImage} {csv args : Bytes}
    {code : Nat} {body : Str} (hrun : RelationalSdk.run (V := V) csv args = .ok (code, body))
    (hfits : Fits image csv args (asBytes body))
    (hfuel : ∀ g, fuelBudget (csv.length + args.length) < image.runFuel g csv args) :
    ∃ s, execute (meanGuest V image (fuelBudget (csv.length + args.length))) csv args =
      .error .outOfFuel s := by
  rcases execute_cases hrun hfits with ⟨-, -, g, hg⟩ | ⟨hs, -⟩
  · exact absurd hg (not_le.mpr (hfuel g))
  · exact hs

example : fuelBudget ("v\n1e2147483647\n".length + "\x7b\"column\":\"v\"\x7d".length) <
    2147483625 := by
  decide

end RelationalSdk.Runtime
