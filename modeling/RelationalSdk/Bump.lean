import RelationalSdk.Runs

/-!
# The guest's two bump allocators

A DRT module has one linear memory and two bump allocators over it. The exported `alloc`
bumps from the heap base, Rust's own allocations from 16 MiB above it, and neither knows
where the other stands. Addresses are 32-bit words and none of the sums is checked.

`BlocksSound` : the blocks handed out are disjoint, aligned, above the heap base and
inside the memory. Nothing keeps a staged input below the second allocator's start
(`not_blocksSound_stagedCsv`). `blocksSound_of_safe` : the blocks are sound in every state
of a run in which no sum wraps and each allocator stays on its side of the other.
-/

namespace RelationalSdk

/-- A `usize` of the wasm32 guest. -/
abbrev Usize := BitVec 32

/-- `PAGE_SIZE`. -/
def pageSize : Usize := 64 * 1024

/-- `GLOBAL_OFFSET_FROM_HEAP_BASE`. -/
def globalOffsetFromHeapBase : Usize := 16 * 1024 * 1024

/-- The largest linear memory, in pages. -/
def maxPages : Nat := 65536

/-- `memory.grow` : it may fail at any call, and must beyond the largest memory. -/
def memoryGrow (pages : Nat) (delta : Usize) (allowed : Bool) : Option Nat :=
  if allowed ∧ pages + delta.toNat ≤ maxPages then some (pages + delta.toNat) else none

/-- The first address from `cur` on that is aligned. -/
def alignUp (cur align : Usize) : Usize :=
  (cur + align - 1) &&& ~~~(align - 1)

/-- The size of the memory in bytes, as the guest computes it. -/
def currentBytes (pages : Nat) : Usize :=
  BitVec.ofNat 32 pages * pageSize

/-- The common body of both allocators : the aligned address, the next offset and the
pages after it, or nothing if the memory cannot grow. -/
def bumpFrom (cur align size : Usize) (pages : Nat) (allowed : Bool) :
    Option (Usize × Usize × Nat) :=
  let aligned := alignUp cur align
  let next := aligned + size
  if currentBytes pages < next then
    let needed := next - currentBytes pages
    let delta := (needed + pageSize - 1) / pageSize
    (memoryGrow pages delta allowed).map fun grown => (aligned, next, grown)
  else some (aligned, next, pages)

/-- `Layout` : the alignment is a power of two, and the size rounded up to it is at most
`isize::MAX`. -/
structure Layout where
  size : Nat
  alignLog : Nat
  size_le : size + 2 ^ alignLog ≤ 2 ^ 31

/-- The alignment of a layout. -/
def Layout.align (l : Layout) : Nat :=
  2 ^ l.alignLog

/-- A block handed out to a caller. -/
structure Block where
  start : Nat
  size : Nat
  align : Nat
  deriving DecidableEq

/-- The memory, the two offsets, and the blocks each allocator has handed out. -/
structure Guest where
  pages : Nat
  publicOffset : Usize
  globalOffset : Usize
  publicBlocks : List Block
  globalBlocks : List Block

/-- A fresh instance. -/
def Guest.init (pages : Nat) : Guest :=
  ⟨pages, 0, 0, [], []⟩

/-- The blocks that are not null. -/
def nonNull (address : Usize) (size align : Nat) : List Block :=
  if address = 0 then [] else [⟨address.toNat, size, align⟩]

/-- A call of the exported `alloc` or of `GlobalAlloc::alloc`, and whether the memory may
grow during it. -/
inductive AllocCall where
  | alloc (size : Usize) (allowed : Bool)
  | globalAlloc (layout : Layout) (allowed : Bool)

section HeapBase

variable (heapBase : Usize)

/-- Where the public allocator goes on. -/
def Guest.publicCursor (g : Guest) : Usize :=
  if g.publicOffset = 0 then heapBase else g.publicOffset

/-- Where the global allocator goes on. -/
def Guest.globalCursor (g : Guest) : Usize :=
  if g.globalOffset = 0 then heapBase + globalOffsetFromHeapBase else g.globalOffset

/-- `Bump::alloc` : the address, or 0 if the memory cannot grow. -/
def bumpAlloc (g : Guest) (size : Usize) (allowed : Bool) : Usize × Guest :=
  match bumpFrom (g.publicCursor heapBase) 8 size g.pages allowed with
  | none => (0, g)
  | some (aligned, next, pages) => (aligned, { g with pages := pages, publicOffset := next })

/-- The exported `alloc`. A negative size is answered with 0. -/
def allocExport (g : Guest) (size : Usize) (allowed : Bool) : Usize × Guest :=
  if size.msb then (0, g) else bumpAlloc heapBase g size allowed

/-- `GlobalAlloc::alloc`. -/
def globalAlloc (g : Guest) (layout : Layout) (allowed : Bool) : Usize × Guest :=
  match bumpFrom (g.globalCursor heapBase) (.ofNat 32 layout.align) (.ofNat 32 layout.size)
      g.pages allowed with
  | none => (0, g)
  | some (aligned, next, pages) => (aligned, { g with pages := pages, globalOffset := next })

/-- The guest after a call, with the block the call returned. -/
def allocStep (g : Guest) : AllocCall → Guest
  | .alloc size allowed =>
    let (address, g') := allocExport heapBase g size allowed
    { g' with publicBlocks := nonNull address size.toNat 8 ++ g.publicBlocks }
  | .globalAlloc layout allowed =>
    let (address, g') := globalAlloc heapBase g layout allowed
    { g' with globalBlocks := nonNull address layout.size layout.align ++ g.globalBlocks }

/-! ## Sound blocks -/

/-- The address is one of the block's. -/
def Block.Holds (b : Block) (x : Nat) : Prop :=
  b.start ≤ x ∧ x < b.start + b.size

/-- The blocks share no address. -/
def Block.Apart (b b' : Block) : Prop :=
  ∀ x, b.Holds x → ¬b'.Holds x

/-- The block is aligned, above the heap base and inside the memory. -/
structure Block.Placed (b : Block) (g : Guest) : Prop where
  aligned : b.align ∣ b.start
  above : heapBase.toNat ≤ b.start
  inside : b.start + b.size ≤ g.pages * pageSize.toNat

/-- All blocks handed out so far are disjoint and placed. -/
structure BlocksSound (g : Guest) : Prop where
  apart : (g.publicBlocks ++ g.globalBlocks).Pairwise Block.Apart
  placed : ∀ b ∈ g.publicBlocks ++ g.globalBlocks, b.Placed heapBase g

/-- None of the sums of an allocation wraps around. -/
def NoWrap (cur align size : Usize) (pages : Nat) : Prop :=
  cur.toNat + (align.toNat - 1) < 2 ^ 32 ∧
    (alignUp cur align).toNat + size.toNat < 2 ^ 32 ∧
    (currentBytes pages < alignUp cur align + size →
      (alignUp cur align + size - currentBytes pages).toNat + (pageSize.toNat - 1) < 2 ^ 32)

instance (cur align size : Usize) (pages : Nat) : Decidable (NoWrap cur align size pages) :=
  inferInstanceAs (Decidable (_ ∧ _ ∧ (_ → _)))

/-- No sum of the call wraps around. Once the global allocator is in use, a public block
ends at or below its start, and the global allocator goes on at or above the public one. -/
def SafeAlloc (g : Guest) : AllocCall → Prop
  | .alloc size _ => size.msb = false →
    NoWrap (g.publicCursor heapBase) 8 size g.pages ∧
      (g.globalOffset ≠ 0 →
        (alignUp (g.publicCursor heapBase) 8).toNat + size.toNat ≤
          heapBase.toNat + globalOffsetFromHeapBase.toNat)
  | .globalAlloc layout _ =>
    heapBase.toNat + globalOffsetFromHeapBase.toNat < 2 ^ 32 ∧
      NoWrap (g.globalCursor heapBase) (.ofNat 32 layout.align) (.ofNat 32 layout.size) g.pages ∧
      (g.publicCursor heapBase).toNat ≤ (g.globalCursor heapBase).toNat

instance (g : Guest) : ∀ call, Decidable (SafeAlloc heapBase g call)
  | .alloc _ _ => inferInstanceAs (Decidable (_ → _ ∧ (_ → _)))
  | .globalAlloc _ _ => inferInstanceAs (Decidable (_ ∧ _ ∧ _))

end HeapBase

/-! ## One allocation -/

/-- Clearing the low bits rounds down to a multiple of a power of two. -/
theorem toNat_and_not {x m : Usize} {k : Nat} (hm : m.toNat = 2 ^ k - 1) :
    (x &&& ~~~m).toNat = x.toNat - x.toNat % 2 ^ k := by
  have hdisjoint : (x &&& ~~~m) &&& (x &&& m) = 0 := by
    ext i
    simp
    tauto
  have hsum : (x &&& ~~~m) + (x &&& m) = x := by
    rw [BitVec.add_eq_or_of_and_eq_zero _ _ hdisjoint]
    ext i
    cases h : m[i] <;> simp [h]
  have hlow : (x &&& m).toNat = x.toNat % 2 ^ k := by
    rw [BitVec.toNat_and, hm, Nat.and_two_pow_sub_one_eq_mod]
  have hle : (x &&& ~~~m).toNat ≤ x.toNat := by
    rw [BitVec.toNat_and]
    exact Nat.and_le_left
  have hmod : x.toNat % 2 ^ k ≤ x.toNat := Nat.mod_le _ _
  have hx := x.isLt
  have := congrArg BitVec.toNat hsum
  rw [BitVec.toNat_add, hlow] at this
  omega

/-- Without wrapping, `alignUp` is the next multiple of the alignment. -/
theorem alignUp_spec {cur align : Usize} {k : Nat} (halign : align.toNat = 2 ^ k)
    (h : cur.toNat + (align.toNat - 1) < 2 ^ 32) :
    cur.toNat ≤ (alignUp cur align).toNat ∧ align.toNat ∣ (alignUp cur align).toNat := by
  have hpos : 0 < 2 ^ k := Nat.two_pow_pos k
  have hmask : (align - 1).toNat = 2 ^ k - 1 := by
    rw [BitVec.toNat_sub]
    have := align.isLt
    have h1 : (1 : Usize).toNat = 1 := rfl
    omega
  have hsum : (cur + align - 1).toNat = cur.toNat + (2 ^ k - 1) := by
    rw [BitVec.toNat_sub, BitVec.toNat_add]
    have := align.isLt
    have h1 : (1 : Usize).toNat = 1 := rfl
    omega
  unfold alignUp
  rw [toNat_and_not hmask, hsum]
  constructor
  · have := Nat.mod_lt (cur.toNat + (2 ^ k - 1)) hpos
    omega
  · rw [halign]
    exact Nat.dvd_sub_mod _

theorem toNat_currentBytes_le (pages : Nat) :
    (currentBytes pages).toNat ≤ pages * pageSize.toNat := by
  unfold currentBytes
  rw [BitVec.toNat_mul, BitVec.toNat_ofNat]
  refine (Nat.mod_le _ _).trans (Nat.mul_le_mul_right _ (Nat.mod_le _ _))

/-- Growing by the pages an allocation asks for makes room for it. -/
theorem le_grown_of_memoryGrow {next : Usize} {pages grown : Nat} {allowed : Bool}
    (hgrow : currentBytes pages < next)
    (hneeded : (next - currentBytes pages).toNat + (pageSize.toNat - 1) < 2 ^ 32)
    (h : memoryGrow pages ((next - currentBytes pages + pageSize - 1) / pageSize) allowed =
      some grown) : next.toNat ≤ grown * pageSize.toNat ∧ pages ≤ grown := by
  have hpage : pageSize.toNat = 65536 := rfl
  have hone : (1 : Usize).toNat = 1 := rfl
  have hcurrent := toNat_currentBytes_le pages
  have hdelta : ((next - currentBytes pages + pageSize - 1) / pageSize).toNat =
      ((next - currentBytes pages).toNat + 65535) / 65536 := by
    rw [BitVec.toNat_udiv, BitVec.toNat_sub, BitVec.toNat_add, hpage, hone]
    omega
  have hsub : (next - currentBytes pages).toNat = next.toNat - (currentBytes pages).toNat :=
    BitVec.toNat_sub_of_le (BitVec.le_of_lt hgrow)
  unfold memoryGrow at h
  split_ifs at h with hok
  have hgrown := Option.some.inj h
  rw [hdelta] at hgrown
  rw [BitVec.lt_def] at hgrow
  rw [hpage] at hcurrent ⊢
  omega

/-- What an allocation that does not wrap returns : an aligned block from the cursor on
that ends at the next offset, inside the memory. -/
theorem bumpFrom_spec {cur align size : Usize} {pages k : Nat} {allowed : Bool}
    (halign : align.toNat = 2 ^ k) (h : NoWrap cur align size pages)
    {aligned next : Usize} {grown : Nat}
    (heq : bumpFrom cur align size pages allowed = some (aligned, next, grown)) :
    cur.toNat ≤ aligned.toNat ∧ align.toNat ∣ aligned.toNat ∧
      aligned = alignUp cur align ∧
      next.toNat = aligned.toNat + size.toNat ∧ next.toNat ≤ grown * pageSize.toNat ∧
      pages ≤ grown := by
  obtain ⟨hsum, hnext, hneeded⟩ := h
  obtain ⟨hle, hdvd⟩ := alignUp_spec halign hsum
  have hnextNat : (alignUp cur align + size).toNat = (alignUp cur align).toNat + size.toNat := by
    rw [BitVec.toNat_add, Nat.mod_eq_of_lt hnext]
  have hcurrent := toNat_currentBytes_le pages
  simp only [bumpFrom] at heq
  split_ifs at heq with hgrow
  · obtain ⟨p, hp, hpair⟩ := Option.map_eq_some_iff.mp heq
    simp only [Prod.mk.injEq] at hpair
    obtain ⟨rfl, rfl, rfl⟩ := hpair
    exact ⟨hle, hdvd, rfl, hnextNat, le_grown_of_memoryGrow hgrow (hneeded hgrow) hp⟩
  · simp only [Option.some.injEq, Prod.mk.injEq] at heq
    obtain ⟨rfl, rfl, rfl⟩ := heq
    refine ⟨hle, hdvd, rfl, hnextNat, ?_, le_rfl⟩
    have := BitVec.not_lt.mp hgrow
    rw [BitVec.le_def] at this
    omega

/-- The alignment of a layout fits a machine word. -/
theorem Layout.toNat_align (l : Layout) : (BitVec.ofNat 32 l.align).toNat = 2 ^ l.alignLog := by
  have hle := l.size_le
  have hlt : 2 ^ l.alignLog < 2 ^ 32 := by omega
  exact (BitVec.toNat_ofNat _ _).trans (Nat.mod_eq_of_lt hlt)

/-- The size of a layout fits a machine word. -/
theorem Layout.toNat_size (l : Layout) : (BitVec.ofNat 32 l.size).toNat = l.size := by
  have hle := l.size_le
  have hpos : 0 < 2 ^ l.alignLog := Nat.two_pow_pos _
  rw [BitVec.toNat_ofNat, Nat.mod_eq_of_lt]
  omega

/-! ## The invariant -/

/-- Blocks between two addresses, no two of which share an address. -/
structure Stacked (lo hi : Nat) (bs : List Block) : Prop where
  within : ∀ b ∈ bs, lo ≤ b.start ∧ b.start + b.size ≤ hi
  apart : bs.Pairwise Block.Apart

theorem Block.apart_of_le {b b' : Block} (h : b'.start + b'.size ≤ b.start) : b.Apart b' := by
  rintro x ⟨hx, -⟩ ⟨-, hx'⟩
  omega

/-- A block on top of a stack. -/
theorem Stacked.push {lo hi next : Nat} {bs : List Block} (h : Stacked lo hi bs) (hlo : lo ≤ hi)
    {address : Usize} {size : Nat} (align : Nat) (hge : hi ≤ address.toNat)
    (hnext : next = address.toNat + size) : Stacked lo next (nonNull address size align ++ bs) := by
  have hwithin : ∀ b ∈ bs, lo ≤ b.start ∧ b.start + b.size ≤ next := by
    intro b hb
    have := h.within b hb
    omega
  unfold nonNull
  split_ifs
  · exact ⟨hwithin, h.apart⟩
  · refine ⟨?_, List.pairwise_cons.mpr ⟨fun b hb => ?_, h.apart⟩⟩
    · refine List.forall_mem_cons.mpr ⟨?_, hwithin⟩
      exact ⟨hlo.trans hge, hnext.ge⟩
    · exact Block.apart_of_le ((h.within b hb).2.trans hge)

section Invariant

variable (heapBase : Usize)

/-- Where the global allocator starts. -/
def globalStart : Nat :=
  heapBase.toNat + globalOffsetFromHeapBase.toNat

/-- Each allocator has stacked its blocks below its cursor, and the global blocks are
above the public cursor. -/
structure Layered (g : Guest) : Prop where
  placed : ∀ b ∈ g.publicBlocks ++ g.globalBlocks, b.Placed heapBase g
  publicAbove : heapBase.toNat ≤ (g.publicCursor heapBase).toNat
  publicStack : Stacked heapBase.toNat (g.publicCursor heapBase).toNat g.publicBlocks
  globalUnused : g.globalOffset = 0 → g.globalBlocks = []
  globalAbove : g.globalOffset ≠ 0 → globalStart heapBase ≤ g.globalOffset.toNat
  globalStack : Stacked (globalStart heapBase) g.globalOffset.toNat g.globalBlocks
  layered : ∀ b ∈ g.globalBlocks, (g.publicCursor heapBase).toNat ≤ b.start

variable {heapBase}

theorem Layered.blocksSound {g : Guest} (h : Layered heapBase g) : BlocksSound heapBase g := by
  refine ⟨List.pairwise_append.mpr ⟨h.publicStack.apart, h.globalStack.apart, ?_⟩, h.placed⟩
  rintro b hb b' hb' x ⟨-, hx⟩ ⟨hx', -⟩
  have := (h.publicStack.within b hb).2
  have := h.layered b' hb'
  omega

theorem Block.Placed.grow {b : Block} {g g' : Guest} (h : b.Placed heapBase g)
    (hpages : g.pages ≤ g'.pages) : b.Placed heapBase g' :=
  ⟨h.aligned, h.above, h.inside.trans (Nat.mul_le_mul_right _ hpages)⟩

theorem placed_of_mem_nonNull {g : Guest} {address : Usize} {size align : Nat}
    (hdvd : align ∣ address.toNat) (habove : heapBase.toNat ≤ address.toNat)
    (hinside : address.toNat + size ≤ g.pages * pageSize.toNat) {b : Block}
    (hb : b ∈ nonNull address size align) : b.Placed heapBase g := by
  unfold nonNull at hb
  split_ifs at hb
  · simp at hb
  · rw [List.mem_singleton.mp hb]
    exact ⟨hdvd, habove, hinside⟩

theorem toNat_publicCursor_of_le {g : Guest} (h : heapBase.toNat ≤ g.publicOffset.toNat) :
    (g.publicCursor heapBase).toNat = g.publicOffset.toNat := by
  unfold Guest.publicCursor
  split_ifs with hzero
  · have hzero' : g.publicOffset.toNat = 0 := by simp [hzero]
    omega
  · rfl

/-- A block that the public allocator stacks, when it ends below the global blocks. -/
theorem Layered.publicPush {g : Guest} (h : Layered heapBase g) {size aligned next : Usize}
    {grown : Nat} (hcur : (g.publicCursor heapBase).toNat ≤ aligned.toNat)
    (hdvd : 8 ∣ aligned.toNat) (hnext : next.toNat = aligned.toNat + size.toNat)
    (hinside : next.toNat ≤ grown * pageSize.toNat) (hpages : g.pages ≤ grown)
    (hbelow : g.globalOffset ≠ 0 → next.toNat ≤ globalStart heapBase) :
    Layered heapBase { g with
      pages := grown
      publicOffset := next
      publicBlocks := nonNull aligned size.toNat 8 ++ g.publicBlocks } := by
  have habove := h.publicAbove
  have hcursor : (Guest.publicCursor heapBase { g with publicOffset := next }).toNat =
      next.toNat := toNat_publicCursor_of_le (by simp only; omega)
  refine ⟨?_, ?_, ?_, h.globalUnused, h.globalAbove, h.globalStack, ?_⟩
  · intro b hb
    simp only [List.mem_append] at hb
    rcases hb with (hb | hb) | hb
    · exact placed_of_mem_nonNull hdvd (by omega) (by simp only; omega) hb
    · exact (h.placed b (List.mem_append_left _ hb)).grow hpages
    · exact (h.placed b (List.mem_append_right _ hb)).grow hpages
  · exact hcursor ▸ (by omega)
  · exact hcursor ▸ h.publicStack.push habove 8 hcur hnext
  · intro b hb
    have hused : g.globalOffset ≠ 0 := by
      intro hzero
      simp [h.globalUnused hzero] at hb
    have := (h.globalStack.within b hb).1
    exact hcursor.le.trans ((hbelow hused).trans this)

theorem globalStart_le_globalCursor {g : Guest} (h : Layered heapBase g)
    (hstart : globalStart heapBase < 2 ^ 32) :
    globalStart heapBase ≤ (g.globalCursor heapBase).toNat := by
  unfold Guest.globalCursor
  split_ifs with hzero
  · rw [BitVec.toNat_add]
    exact (Nat.mod_eq_of_lt hstart).ge
  · exact h.globalAbove hzero

theorem Layered.stacked_globalCursor {g : Guest} (h : Layered heapBase g) :
    Stacked (globalStart heapBase) (g.globalCursor heapBase).toNat g.globalBlocks := by
  by_cases hzero : g.globalOffset = 0
  · rw [h.globalUnused hzero]
    exact ⟨by simp, List.Pairwise.nil⟩
  · rw [Guest.globalCursor, if_neg hzero]
    exact h.globalStack

/-- A block that the global allocator stacks above the public cursor. -/
theorem Layered.globalPush {g : Guest} (h : Layered heapBase g) {aligned next : Usize}
    {size align grown : Nat} (hstart : globalStart heapBase < 2 ^ 32)
    (hcur : (g.globalCursor heapBase).toNat ≤ aligned.toNat)
    (hdvd : align ∣ aligned.toNat) (hnext : next.toNat = aligned.toNat + size)
    (hinside : next.toNat ≤ grown * pageSize.toNat) (hpages : g.pages ≤ grown)
    (hpublic : (g.publicCursor heapBase).toNat ≤ (g.globalCursor heapBase).toNat) :
    Layered heapBase { g with
      pages := grown
      globalOffset := next
      globalBlocks := nonNull aligned size align ++ g.globalBlocks } := by
  have hcursor := globalStart_le_globalCursor h hstart
  have hbase : heapBase.toNat + 16777216 = globalStart heapBase := rfl
  have hused : next ≠ 0 := by
    rintro rfl
    simp at hnext
    omega
  refine ⟨?_, h.publicAbove, h.publicStack, fun hzero => absurd hzero hused,
    fun _ => by simp only; omega, h.stacked_globalCursor.push hcursor align hcur hnext, ?_⟩
  · intro b hb
    simp only [List.mem_append] at hb
    rcases hb with hb | hb | hb
    · exact (h.placed b (List.mem_append_left _ hb)).grow hpages
    · exact placed_of_mem_nonNull hdvd (by omega) (by simp only; omega) hb
    · exact (h.placed b (List.mem_append_right _ hb)).grow hpages
  · intro b hb
    rcases List.mem_append.mp hb with hb | hb
    · unfold nonNull at hb
      split_ifs at hb
      · simp at hb
      · rw [List.mem_singleton.mp hb]
        exact hpublic.trans hcur
    · exact h.layered b hb

/-- A safe call of the exported `alloc` keeps the layers. -/
theorem Layered.alloc {g : Guest} (h : Layered heapBase g) {size : Usize} {allowed : Bool}
    (hsafe : SafeAlloc heapBase g (.alloc size allowed)) :
    Layered heapBase (allocStep heapBase g (.alloc size allowed)) := by
  cases hneg : size.msb with
  | true =>
    rw [RelationalSdk.allocStep, allocExport, if_pos hneg]
    simpa [nonNull] using h
  | false =>
    obtain ⟨hwrap, hbelow⟩ := hsafe hneg
    have hsize : ¬size.msb = true := by simp [hneg]
    rw [RelationalSdk.allocStep, allocExport, if_neg hsize, bumpAlloc]
    cases hb : bumpFrom (g.publicCursor heapBase) 8 size g.pages allowed with
    | none => simpa [nonNull] using h
    | some r =>
      obtain ⟨aligned, next, grown⟩ := r
      obtain ⟨hcur, hdvd, haligned, hnext, hinside, hpages⟩ :=
        bumpFrom_spec (k := 3) rfl hwrap hb
      refine h.publicPush hcur hdvd hnext hinside hpages fun hused => ?_
      rw [hnext, haligned]
      exact hbelow hused

/-- A safe call of `GlobalAlloc::alloc` keeps the layers. -/
theorem Layered.globalAlloc {g : Guest} (h : Layered heapBase g) {layout : Layout}
    {allowed : Bool} (hsafe : SafeAlloc heapBase g (.globalAlloc layout allowed)) :
    Layered heapBase (allocStep heapBase g (.globalAlloc layout allowed)) := by
  obtain ⟨hstart, hwrap, hpublic⟩ := hsafe
  rw [RelationalSdk.allocStep, RelationalSdk.globalAlloc]
  cases hb : bumpFrom (g.globalCursor heapBase) (.ofNat 32 layout.align)
      (.ofNat 32 layout.size) g.pages allowed with
  | none => simpa [nonNull] using h
  | some r =>
    obtain ⟨aligned, next, grown⟩ := r
    obtain ⟨hcur, hdvd, -, hnext, hinside, hpages⟩ :=
      bumpFrom_spec layout.toNat_align hwrap hb
    rw [layout.toNat_align] at hdvd
    rw [layout.toNat_size] at hnext
    exact h.globalPush hstart hcur hdvd hnext hinside hpages hpublic

/-- A safe call keeps the layers. -/
theorem Layered.allocStep {g : Guest} (h : Layered heapBase g) {call : AllocCall}
    (hsafe : SafeAlloc heapBase g call) : Layered heapBase (allocStep heapBase g call) := by
  cases call with
  | alloc size allowed => exact h.alloc hsafe
  | globalAlloc layout allowed => exact h.globalAlloc hsafe

end Invariant

/-- Whatever the heap base and the initial memory, the blocks are sound in every state of
a run of safe calls. -/
theorem blocksSound_of_safe (heapBase : Usize) (pages : Nat) (calls : List AllocCall)
    (h : Runs.Along (allocStep heapBase) (SafeAlloc heapBase) (.init pages) calls) :
    Runs.Always (allocStep heapBase) (BlocksSound heapBase) (.init pages) calls := by
  have hinit : Layered heapBase (.init pages) := by
    have hcursor : Guest.publicCursor heapBase (.init pages) = heapBase := rfl
    exact ⟨by simp [Guest.init], hcursor ▸ le_rfl, ⟨by simp [Guest.init], List.Pairwise.nil⟩,
      fun _ => rfl, fun h => absurd rfl h, ⟨by simp [Guest.init], List.Pairwise.nil⟩,
      by simp [Guest.init]⟩
  have hlayered : Runs.Always (allocStep heapBase) (Layered heapBase) (.init pages) calls :=
    Runs.always_of_along (fun _ _ hg hsafe => Layered.allocStep hg hsafe) hinit h
  exact hlayered.imp fun _ hg => hg.blocksSound

/-- The host stages 20 MiB, and the guest then allocates 16 bytes for itself. -/
def stagedCsv : List AllocCall :=
  [.alloc (20 * 1024 * 1024) true, .globalAlloc ⟨16, 3, by decide⟩ true]

/-- With the heap base at 1 MiB and 17 pages, the guest's own block lies inside the staged
input. -/
theorem not_blocksSound_stagedCsv :
    (Runs.exec (allocStep 1048576) (.init 17) stagedCsv).publicBlocks = [⟨1048576, 20971520, 8⟩] ∧
      (Runs.exec (allocStep 1048576) (.init 17) stagedCsv).globalBlocks = [⟨17825792, 16, 8⟩] ∧
      ¬BlocksSound 1048576 (Runs.exec (allocStep 1048576) (.init 17) stagedCsv) := by
  have hpublic : (Runs.exec (allocStep 1048576) (.init 17) stagedCsv).publicBlocks =
      [⟨1048576, 20971520, 8⟩] := by decide +kernel
  have hglobal : (Runs.exec (allocStep 1048576) (.init 17) stagedCsv).globalBlocks =
      [⟨17825792, 16, 8⟩] := by decide +kernel
  refine ⟨hpublic, hglobal, fun h => ?_⟩
  have hapart := h.apart
  rw [hpublic, hglobal] at hapart
  have hboth : Block.Apart ⟨1048576, 20971520, 8⟩ ⟨17825792, 16, 8⟩ := by simpa using hapart
  exact hboth 17825792 ⟨by decide, by decide⟩ ⟨by decide, by decide⟩

/-- An input of 1 MiB leaves the second allocator alone. -/
theorem blocksSound_smallCsv :
    Runs.Always (allocStep 1048576) (BlocksSound 1048576) (.init 17)
      [.alloc (1024 * 1024) true, .globalAlloc ⟨16, 3, by decide⟩ true, .alloc 8 true] :=
  blocksSound_of_safe 1048576 17 _ (by decide +kernel)

end RelationalSdk
