/-
Module: Yanix.Proofs.DirectoryCopy
Purpose: `duplicate_current_page_directory` makes an independent copy of the address space; its
  loops carry freshness and contents along as growth of memory.
-/
import Yanix.Proofs.PagingGrowth
import Mathlib.Algebra.BigOperators.Intervals

namespace Yanix.Mm

open Foundation Function List Option

variable {j i n t : Nat} {s : Paging} {x : PagePtr} {e : Page}

theorem entryPtr_page (dir : PageDirectory) (i : Nat) (lt : j < pagesPerTable) :
    entryPtr dir ((i * pagesPerTable + j) * 0x1000) = (dir.tables i, j) := by
  unfold entryPtr
  rw [Nat.mul_div_cancel _ (by decide), mul_comm i, Nat.mul_add_div (by decide),
    Nat.mul_add_mod, Nat.div_eq_of_lt lt, Nat.mod_eq_of_lt lt, add_zero]

theorem getPage_of_table {heap : Kheap} {addr dir : Nat} (entry : entryPtr (s.dirs dir) addr = x)
    (table : x.1 ≠ 0) (makePageTable : Bool) :
    getPage heap addr makePageTable dir s = some (s, x) := by
  subst entry
  exact if_neg fun null => table null.1

theorem setFrameField_eq (entry : s.page? x = some e) (frame : BitVec 20) :
    s.setFrameField x frame = some (s.write x { e with frame := frame }) := by
  unfold Paging.setFrameField
  rw [entry]
  exact Paging.setPage?_of_page? entry _

theorem translate_eq {addr : Nat} (maps : s.Maps (entryPtr s.curDir addr) e) :
    translate addr s = some e.frame.toNat := by
  unfold translate
  rw [maps.1]
  exact if_pos maps.2

theorem not_maps_zero (empty : s.page? x = some Page.zero) (e : Page) : ¬s.Maps x e := by
  intro maps
  have zero : e = Page.zero := mem_unique maps.1 empty
  have mem := maps.2
  rw [zero] at mem
  exact Bool.false_ne_true mem

/-! ## One page -/

theorem memcpyPage_eq {destination source : Nat} {d : Page}
    (dst : s.Maps (entryPtr s.curDir destination) d)
    (src : s.Maps (entryPtr s.curDir source) e) :
    memcpyPage destination source s = some { s with
        phys := update s.phys d.frame.toNat
          (blit (s.phys d.frame.toNat) 0 (s.phys e.frame.toNat) 0 0x1000) } := by
  unfold memcpyPage
  rw [translate_eq dst, translate_eq src]
  rfl

/-- The three entries a call of `copy_page` works on: a present page, the page buffer, and an empty
entry of the new directory. -/
structure PageCopy (addr newdir : Nat) (s : Paging) (x b n : PagePtr) (e be : Page) : Prop where
  sourceEntry : entryPtr s.curDir addr = x
  bufferEntry : entryPtr s.curDir pageBufferLocation = b
  newEntry : entryPtr (s.dirs newdir) addr = n
  tables : x.1 ≠ 0 ∧ b.1 ≠ 0 ∧ n.1 ≠ 0
  source : s.Maps x e
  buffer : s.Maps b be
  empty : s.page? n = some Page.zero
  notBuffer : x ≠ b

variable {e' : Page}

section

variable {addr newdir : Nat} {s : Paging} {x b n : PagePtr} {e be : Page}

/-- After `alloc_frame`, whatever it did: the page is copied into the new entry's frame, and the
detour over the page buffer leaves no trace. -/
theorem PageCopy.copies (heap : Kheap) (copy : PageCopy addr newdir s x b n e be) {s1 : Paging}
    {ret : Int} (alloc : allocFrameAt n (!e.user) e.rw s = some (s1, ret))
    (here : s1.curDir = s.curDir) (new1 : s1.page? n = some e')
    (others : ∀ y ≠ n, s1.page? y = s.page? y) :
    ∃ tables, copyPage heap addr newdir s = some { s1 with
        tables := tables
        phys := update s1.phys e'.frame.toNat
          (blit (s1.phys e'.frame.toNat) 0 (s1.phys e.frame.toNat) 0 0x1000) } ∧
      ∀ y, { s1 with tables := tables : Paging }.page? y = s1.page? y := by
  have buf1 : s1.page? b = some be := (others b fun same =>
    not_maps_zero copy.empty be (same ▸ copy.buffer)).trans copy.buffer.1
  have src1 : s1.page? x = some e := (others x fun same =>
    not_maps_zero copy.empty e (same ▸ copy.source)).trans copy.source.1
  -- the buffer points at the new frame
  let redirected : Page := { be with frame := e'.frame }
  let s2 : Paging := s1.write b redirected
  have pages2 := Paging.page?_write buf1 redirected
  have dst2 : s2.Maps (entryPtr s2.curDir pageBufferLocation) redirected := by
    rw [show s2.curDir = s.curDir from here, copy.bufferEntry]
    exact ⟨by rw [pages2, if_pos rfl], copy.buffer.2⟩
  have src2 : s2.Maps (entryPtr s2.curDir addr) e := by
    rw [show s2.curDir = s.curDir from here, copy.sourceEntry]
    exact ⟨by rw [pages2, if_neg copy.notBuffer]; exact src1, copy.source.2⟩
  -- and afterwards at its own frame again
  let s3 : Paging := { s2 with
      phys := update s1.phys e'.frame.toNat
        (blit (s1.phys e'.frame.toNat) 0 (s1.phys e.frame.toNat) 0 0x1000) }
  have copy3 : memcpyPage pageBufferLocation addr s2 = some s3 := by
    rw [memcpyPage_eq dst2 src2, show s2.phys = s1.phys from rfl]
  have buf3 : s3.page? b = some redirected := (pages2 b).trans (if_pos rfl)
  refine ⟨(s3.write b be).tables, ?_, ?_⟩
  · have get1 : getPage heap addr true s.gCurrentDirectory s = some (s, x) :=
      getPage_of_table copy.sourceEntry copy.tables.1 true
    have get2 : getPage heap pageBufferLocation true s.gCurrentDirectory s = some (s, b) :=
      getPage_of_table copy.bufferEntry copy.tables.2.1 true
    have get3 : getPage heap addr true newdir s = some (s, n) :=
      getPage_of_table copy.newEntry copy.tables.2.2 true
    unfold copyPage
    simp only [get1, get2, get3, bind_eq_bind, bind_some, copy.buffer.1,
      copy.source.1, map_some, alloc, new1, setFrameField_eq buf1]
    rw [show s1.write b { be with frame := e'.frame } = s2 from rfl, copy3]
    exact setFrameField_eq buf3 be.frame
  · intro y
    refine (Paging.page?_write buf3 be y).trans ?_
    split
    · rename_i atBuffer
      rw [atBuffer, buf1]
    · rename_i elsewhere
      exact (pages2 y).trans (if_neg elsewhere)

theorem PageCopy.fills (heap : Kheap) (copy : PageCopy addr newdir s x b n e be)
    (free : 0 < s.frames.freeCount) :
    ∃ s' e', copyPage heap addr newdir s = some s' ∧ Fills n e' s s' ∧ e'.rw = e.rw ∧
      e'.user = e.user ∧ ∀ o < 0x1000, s'.phys e'.frame.toNat o = s.phys e.frame.toNat o := by
  obtain ⟨s1, e', alloc, fills, rw', user', phys⟩ :=
    allocFrameAt_fills copy.empty rfl free (!e.user) e.rw
  obtain ⟨tables, ret, pages⟩ := copy.copies heap alloc
    (by unfold Paging.curDir; rw [fills.dirs, fills.current])
    ((fills.pages n).trans (if_pos rfl)) fun y ne => (fills.pages y).trans (if_neg ne)
  rw [phys] at ret
  refine ⟨_, e', ret, ⟨fills.dirs, fills.current, fills.kernel, fills.calls,
    fun y => (pages y).trans (fills.pages y), fills.taken, fills.present, ?_⟩, rw', ?_, ?_⟩
  · intro f marked
    apply update_of_ne
    intro same
    rw [same, fills.taken.free] at marked
    exact Bool.false_ne_true marked
  · rw [user', Bool.not_not]
  · intro o lt
    show update s.phys e'.frame.toNat _ e'.frame.toNat o = _
    rw [update_self, blit_apply_of_mem _ _ _ _ _ (Nat.zero_le o) (by omega),
      Nat.zero_add, Nat.sub_zero]

end

/-- The addresses at which the `k`-th call of `kmalloc_base`, and the zeroing of
its block, may need a new frame. -/
def touches (heap : Kheap) (k : Nat) : List Nat :=
  heap.allocFaults k ++ [heap.addr k] ++ heap.zeroFaults (heap.addr k)

theorem addr_mem_touches (heap : Kheap) (k : Nat) : heap.addr k ∈ touches heap k :=
  mem_append_left _ (mem_append_right _ mem_cons_self)

/-- The entries `n` calls from the `k`-th on may fault at. -/
def heapEntries (heap : Kheap) (dir : PageDirectory) : Nat → Nat → List PagePtr
  | _, 0 => []
  | k, n + 1 => (touches heap k).map (entryPtr dir) ++ heapEntries heap dir (k + 1) n

/-- The directory has a table of its own here. -/
def Paging.isPrivate (s : Paging) (i : Nat) : Bool := decide (s.curDir.tablesPhysical i ≠ 0) &&
    decide (s.curDir.tables i ≠ s.kernelDir.tables i)

/-- Present pages of table `i` of the current directory, from page `j` on. -/
def Paging.pagesFrom (s : Paging) (i j : Nat) : Nat := ∑ k ∈ Finset.Ico j pagesPerTable,
    if (s.page? (s.curDir.tables i, k)).any Page.present then 1 else 0

/-- Pages to copy, from table `i` on. -/
def Paging.privatePages (s : Paging) (i : Nat) : Nat :=
  ∑ t ∈ Finset.Ico i tablesPerDir, if s.isPrivate t then s.pagesFrom t 0 else 0

/-- Tables to copy, from table `i` on. -/
def Paging.privateTables (s : Paging) (i : Nat) : Nat :=
  ∑ t ∈ Finset.Ico i tablesPerDir, if s.isPrivate t then 1 else 0

/-- The calls of `kmalloc_base` a copy makes: one for the directory and one for
each table. -/
def Paging.makesCall (s : Paging) (k : Nat) : Prop := s.calls ≤ k ∧ k ≤ s.calls + s.privateTables 0

/-- The frames a copy takes: one for each page of a private table, and one for each page of the
kernel heap that the new directory and tables are the first to use. -/
def framesNeeded (heap : Kheap) (s : Paging) : Nat := s.privatePages 0 +
    (unbacked (heapEntries heap s.curDir s.calls (s.privateTables 0 + 1)) s).card

/-- The current directory and the bitmap agree with each other and with the
kernel directory. -/
structure WellMapped (s : Paging) : Prop where
  null : s.tables 0 = none
  linked : ∀ i < tablesPerDir,
    s.curDir.tablesPhysical i = 0 ↔ s.curDir.tables i = 0
  tables : ∀ i < tablesPerDir, s.curDir.tables i ≠ 0 →
    s.tables (s.curDir.tables i) ≠ none
  kernelExists : ∀ i < tablesPerDir, s.kernelDir.tables i ≠ 0 →
    s.tables (s.kernelDir.tables i) ≠ none
  kernelTables : ∀ i < tablesPerDir, ∀ j < tablesPerDir,
    s.kernelDir.tables j ≠ 0 → s.curDir.tables i = s.kernelDir.tables j →
      s.curDir.tables i = s.kernelDir.tables i
  reserved : s.frames.marked 0 = true
  mapped : ∀ i < tablesPerDir, ∀ j < pagesPerTable, ∀ e,
    s.Maps (s.curDir.tables i, j) e → s.frames.marked e.frame.toNat = true
  bufferShared : (entryPtr s.curDir pageBufferLocation).1 =
    (entryPtr s.kernelDir pageBufferLocation).1
  bufferPresent : ∃ e, s.Maps (entryPtr s.curDir pageBufferLocation) e

/-- The kernel heap returns new blocks, and its own pages are mapped by tables
the two directories share. -/
structure FreshBlocks (heap : Kheap) (s : Paging) : Prop where
  notNull : ∀ k, s.makesCall k → heap.addr k ≠ 0
  noTable : ∀ k, s.makesCall k → s.tables (heap.addr k) = none
  noDirectory : ∀ k, s.makesCall k →
    heap.addr k ≠ s.gCurrentDirectory ∧ heap.addr k ≠ s.gKernelDirectory
  distinct : ∀ k l, s.makesCall k → s.makesCall l → heap.addr k = heap.addr l → k = l
  shared : ∀ k, s.makesCall k → ∀ addr ∈ touches heap k,
    addr < 2 ^ 32 ∧ (entryPtr s.kernelDir addr).1 = (entryPtr s.curDir addr).1
  pages : ∀ k, s.makesCall k → ∀ addr ∈ touches heap k,
    ∃ e, s.page? (entryPtr s.curDir addr) = some e ∧ (e.present = true → e.frame ≠ 0)

theorem Paging.pagesFrom_succ (s : Paging) (i : Nat) (lt : j < pagesPerTable) :
    s.pagesFrom i j = (if (s.page? (s.curDir.tables i, j)).any Page.present then 1 else 0) +
        s.pagesFrom i (j + 1) :=
  Finset.sum_eq_sum_Ico_succ_bot lt _

theorem Paging.pagesFrom_end (s : Paging) (i : Nat) : s.pagesFrom i pagesPerTable = 0 := by
  unfold pagesFrom
  rw [Finset.Ico_self, Finset.sum_empty]

theorem Paging.privatePages_succ (s : Paging) (lt : i < tablesPerDir) :
    s.privatePages i = (if s.isPrivate i then s.pagesFrom i 0 else 0) + s.privatePages (i + 1) :=
  Finset.sum_eq_sum_Ico_succ_bot lt _

theorem Paging.privateTables_succ (s : Paging) (lt : i < tablesPerDir) :
    s.privateTables i = (if s.isPrivate i then 1 else 0) + s.privateTables (i + 1) :=
  Finset.sum_eq_sum_Ico_succ_bot lt _

variable {k : Nat} {A : Nat → Prop} {s' : Paging}

section

variable {heap : Kheap} {s0 : Paging}

/-- Tables the kernel heap is mapped by. -/
def heapTable (heap : Kheap) (s0 : Paging) (p : Nat) : Prop :=
  ∃ k, s0.makesCall k ∧ ∃ addr ∈ touches heap k, p = (entryPtr s0.curDir addr).1

/-- Tables that may change: those of the heap and new ones. -/
def mayGrow (heap : Kheap) (s0 : Paging) (p : Nat) : Prop :=
  heapTable heap s0 p ∨ ∃ k, s0.makesCall k ∧ p = heap.addr k

theorem Paging.makesCall_first (s0 : Paging) : s0.makesCall s0.calls :=
  ⟨le_rfl, Nat.le_add_right ..⟩

theorem FreshBlocks.newdir_ne (blocks : FreshBlocks heap s0)
    (current : s.gCurrentDirectory = s0.gCurrentDirectory)
    (kernel : s.gKernelDirectory = s0.gKernelDirectory) :
    s.gCurrentDirectory ≠ heap.addr s0.calls ∧ s.gKernelDirectory ≠ heap.addr s0.calls := by
  have ne := blocks.noDirectory _ s0.makesCall_first
  rw [current, kernel]
  exact ⟨ne.1.symm, ne.2.symm⟩

theorem FreshBlocks.page?_eq_none (blocks : FreshBlocks heap s0) (new : s0.makesCall k) (j : Nat) :
    s0.page? (heap.addr k, j) = none := by
  unfold Paging.page?
  rw [blocks.noTable k new]
  rfl

theorem FreshBlocks.heapTable_exists (blocks : FreshBlocks heap s0) {p : Nat}
    (table : heapTable heap s0 p) : s0.tables p ≠ none := by
  obtain ⟨k, new, addr, mem, rfl⟩ := table
  obtain ⟨e, entry, -⟩ := blocks.pages k new addr mem
  intro absent
  unfold Paging.page? at entry
  rw [absent] at entry
  exact some_ne_none e entry.symm

theorem FreshBlocks.not_heapTable (blocks : FreshBlocks heap s0) (new : s0.makesCall k) :
    ¬heapTable heap s0 (heap.addr k) :=
  fun table => blocks.heapTable_exists table (blocks.noTable k new)

theorem WellMapped.private_table (mapped : WellMapped s0) (lt : i < tablesPerDir)
    (isPrivate : s0.isPrivate i = true) :
    s0.curDir.tables i ≠ 0 ∧
      (∀ j < tablesPerDir, s0.curDir.tables i ≠ s0.kernelDir.tables j) ∧
      ∀ j, ∃ e, s0.page? (s0.curDir.tables i, j) = some e := by
  obtain ⟨physical, own⟩ : s0.curDir.tablesPhysical i ≠ 0 ∧
      s0.curDir.tables i ≠ s0.kernelDir.tables i := by
    simpa [Paging.isPrivate] using isPrivate
  have ne : s0.curDir.tables i ≠ 0 := fun null =>
    physical ((mapped.linked i lt).mpr null)
  refine ⟨ne, ?_, ?_⟩
  · intro j boundKernel same
    exact own (mapped.kernelTables i lt j boundKernel (same ▸ ne) same)
  intro j
  obtain ⟨table, found⟩ := ne_none_iff_exists'.mp (mapped.tables i lt ne)
  exact ⟨table j, by rw [Paging.page?, found]; rfl⟩

theorem WellMapped.private_not_mayGrow (mapped : WellMapped s0) (blocks : FreshBlocks heap s0)
    (lt : i < tablesPerDir) (isPrivate : s0.isPrivate i = true) :
    ¬mayGrow heap s0 (s0.curDir.tables i) := by
  obtain ⟨ne, own, -⟩ := mapped.private_table lt isPrivate
  rintro (⟨k, new, addr, mem, same⟩ | ⟨k, new, same⟩)
  · obtain ⟨small, shared⟩ := blocks.shared k new addr mem
    have index : addr / 0x1000 / pagesPerTable < tablesPerDir := by
      unfold pagesPerTable tablesPerDir
      omega
    exact own _ index (same.trans shared.symm)
  · exact mapped.tables i lt ne (same ▸ blocks.noTable k new)

/-- The entry `dst` is a copy of the entry `src` as it was at the start: present
in a frame of its own with the same bytes, or empty. -/
structure EntryCopied (s0 s : Paging) (src dst : PagePtr) : Prop where
  present : ∀ e, s0.Maps src e → ∃ e', s.Maps dst e' ∧ e'.rw = e.rw ∧ e'.user = e.user ∧
    s.frames.marked e'.frame.toNat = true ∧
    ∀ o < 0x1000, s.phys e'.frame.toNat o = s0.phys e.frame.toNat o
  absent : (∀ e, ¬s0.Maps src e) → s.page? dst = some Page.zero

theorem EntryCopied.grow {src dst : PagePtr} (copied : EntryCopied s0 s src dst)
    (grows : Grows A s s') (same : s'.page? dst = s.page? dst) : EntryCopied s0 s' src dst := by
  constructor
  · intro e maps
    obtain ⟨e', maps', rw', user', marked, bytes⟩ := copied.present e maps
    refine ⟨e', grows.kept _ _ maps', rw', user', grows.marks _ marked, ?_⟩
    rw [grows.content marked]
    exact bytes
  · intro absent
    rw [same]
    exact copied.absent absent

/-! ## The loop over the pages of a table -/

/-- `j` pages of table `i` are copied into the new table `p`. -/
structure CopyingPages (s0 s1 : Paging) (R : List PagePtr) (N i p j : Nat) (s : Paging) : Prop where
  grows : Grows (fun q => q = p) s1 s
  dirs : s.dirs = s1.dirs
  calls : s.calls = s1.calls
  ready : Ready R (s0.pagesFrom i j + N) s
  done : ∀ k < j, EntryCopied s0 s (s0.curDir.tables i, k) (p, k)
  todo : ∀ k ≥ j, s.page? (p, k) = some Page.zero

variable {s1 : Paging} {R : List PagePtr} {N i p newdir : Nat}

theorem CopyingPages.skip (copying : CopyingPages s0 s1 R N i p j s)
    (lt : j < pagesPerTable) (entry : s0.page? (s0.curDir.tables i, j) = some e)
    (absent : e.present = false) : CopyingPages s0 s1 R N i p (j + 1) s := by
  have ready := copying.ready
  rw [s0.pagesFrom_succ i lt, entry, any_some, absent, if_neg Bool.false_ne_true,
    Nat.zero_add] at ready
  have notPresent (d : Page) : ¬s0.Maps (s0.curDir.tables i, j) d := by
    intro maps
    have same : e = d := mem_unique entry maps.1
    rw [same, maps.2] at absent
    exact Bool.false_ne_true absent.symm
  refine ⟨copying.grows, copying.dirs, copying.calls, ready, ?_, ?_⟩
  · intro k done
    rcases Nat.lt_succ_iff_lt_or_eq.mp done with earlier | rfl
    · exact copying.done k earlier
    · exact ⟨fun d maps => absurd maps (notPresent d), fun _ => copying.todo k le_rfl⟩
  · exact fun k later => copying.todo k (Nat.le_of_succ_le later)

theorem CopyingPages.fill (copying : CopyingPages s0 s1 R N i p j s)
    (lt : j < pagesPerTable) (source : s0.Maps (s0.curDir.tables i, j) e)
    (fills : Fills (p, j) e' s s') (rw' : e'.rw = e.rw) (user' : e'.user = e.user)
    (bytes : ∀ o < 0x1000, s'.phys e'.frame.toNat o = s0.phys e.frame.toNat o) :
    CopyingPages s0 s1 R N i p (j + 1) s' := by
  have ready := copying.ready
  rw [s0.pagesFrom_succ i lt, source.1, any_some, source.2, if_pos rfl,
    add_assoc, add_comm 1] at ready
  have grows := fills.grows (not_maps_zero (copying.todo j (le_refl j)))
  have pages (k : Nat) (ne : k ≠ j) : s'.page? (p, k) = s.page? (p, k) := by
    rw [fills.pages, if_neg fun same => ne (congrArg Prod.snd same)]
  refine ⟨copying.grows.trans grows, fills.dirs.trans copying.dirs, fills.calls.trans copying.calls,
    ready.fill fills, ?_, ?_⟩
  · intro k done
    rcases Nat.lt_succ_iff_lt_or_eq.mp done with earlier | rfl
    · exact (copying.done k earlier).grow grows (pages k (ne_of_lt earlier))
    constructor
    · intro d maps
      obtain rfl := source.unique maps
      refine ⟨e', ⟨by rw [fills.pages, if_pos rfl], fills.present⟩, rw', user', ?_, bytes⟩
      rw [fills.taken.marks, decide_eq_true rfl, Bool.true_or]
    · exact fun absent => absurd source (absent e)
  · intro k later
    rw [pages k (ne_of_gt later)]
    exact copying.todo k (Nat.le_of_succ_le later)

theorem CopyingPages.origin (copying : CopyingPages s0 s1 R N i p pagesPerTable s)
    (maps : s.Maps (p, j) e) :
    j < pagesPerTable ∧ ∃ d, s0.Maps (s0.curDir.tables i, j) d := by
  by_cases lt : j < pagesPerTable
  · refine ⟨lt, ?_⟩
    by_contra absent
    exact not_maps_zero ((copying.done j lt).absent (not_exists.mp absent)) e maps
  · exact absurd maps (not_maps_zero (copying.todo j (Nat.le_of_not_lt lt)) e)

theorem WellMapped.buffer_not_private (mapped : WellMapped s0) (lt : i < tablesPerDir)
    (isPrivate : s0.isPrivate i = true) :
    s0.curDir.tables i ≠ (entryPtr s0.curDir pageBufferLocation).1 := fun same =>
  (mapped.private_table lt isPrivate).2.1 _ (by decide) (same.trans mapped.bufferShared)

theorem table_ne_zero (null : s0.tables 0 = none) (entry : s0.page? x = some e) : x.1 ≠ 0 := by
  intro zero
  unfold Paging.page? at entry
  rw [zero, null] at entry
  exact some_ne_none e entry.symm

theorem WellMapped.pageCopy (mapped : WellMapped s0) (lt : i < tablesPerDir)
    (isPrivate : s0.isPrivate i = true) (here : s.curDir = s0.curDir)
    (newTable : (s.dirs newdir).tables i = p) (ne : p ≠ 0)
    (boundPage : j < pagesPerTable) {be : Page}
    (source : s0.Maps (s0.curDir.tables i, j) e)
    (buffer : s0.Maps (entryPtr s0.curDir pageBufferLocation) be)
    (kept : ∀ x e, s0.Maps x e → s.Maps x e) (empty : s.page? (p, j) = some Page.zero) :
    PageCopy ((i * pagesPerTable + j) * 0x1000) newdir s (s0.curDir.tables i, j)
      (entryPtr s0.curDir pageBufferLocation) (p, j) e be where
  sourceEntry := by rw [here]; exact entryPtr_page _ i boundPage
  bufferEntry := by rw [here]
  newEntry := by rw [entryPtr_page _ _ boundPage, newTable]
  tables := ⟨table_ne_zero mapped.null source.1, table_ne_zero mapped.null buffer.1, ne⟩
  source := kept _ _ source
  buffer := kept _ _ buffer
  empty := empty
  notBuffer := fun same => mapped.buffer_not_private lt isPrivate (congrArg Prod.fst same)

theorem copyEntry_round (mapped : WellMapped s0) (blocks : FreshBlocks heap s0)
    (lt : i < tablesPerDir) (isPrivate : s0.isPrivate i = true)
    (grows1 : Grows (mayGrow heap s0) s0 s1) (newTable : (s1.dirs newdir).tables i = p)
    (ne : p ≠ 0) (new : mayGrow heap s0 p) (boundPage : j < pagesPerTable)
    (copying : CopyingPages s0 s1 R N i p j s) :
    ∃ s', copyEntry heap newdir i s j = some s' ∧ CopyingPages s0 s1 R N i p (j + 1) s' := by
  have grows : Grows (mayGrow heap s0) s0 s :=
    grows1.trans (copying.grows.mono fun q same => same ▸ new)
  have unchanged : s.page? (s0.curDir.tables i, j) = s0.page? (s0.curDir.tables i, j) :=
    grows.elsewhere _ (mapped.private_not_mayGrow blocks lt isPrivate)
  obtain ⟨e, entry⟩ := (mapped.private_table lt isPrivate).2.2 j
  unfold copyEntry
  rw [grows.curDir, unchanged, entry]
  cases present : e.present with
  | false =>
    refine ⟨s, ?_, copying.skip boundPage entry present⟩
    show (if e.present = true then _ else some s) = some s
    rw [present, if_neg Bool.false_ne_true]
  | true =>
    have source : s0.Maps (s0.curDir.tables i, j) e := ⟨entry, present⟩
    obtain ⟨be, buffer⟩ := mapped.bufferPresent
    have free : 0 < s.frames.freeCount := by
      have room := copying.ready.room
      rw [s0.pagesFrom_succ i boundPage, entry, any_some, present, if_pos rfl] at room
      omega
    have copy := mapped.pageCopy lt isPrivate grows.curDir
      ((congrFun copying.dirs newdir).symm ▸ newTable) ne boundPage source buffer grows.kept
      (copying.todo j le_rfl)
    obtain ⟨s', e', ret, fills, rw', user', bytes⟩ := copy.fills heap free
    refine ⟨s', ?_, copying.fill boundPage source fills rw' user' ?_⟩
    · show (if e.present = true then _ else some s) = some s'
      rw [present, if_pos rfl, ret]
    have marked := mapped.mapped i lt j boundPage e source
    rw [← grows.content marked]
    exact bytes

theorem copyEntries_copies (mapped : WellMapped s0) (blocks : FreshBlocks heap s0)
    (lt : i < tablesPerDir) (isPrivate : s0.isPrivate i = true)
    (grows1 : Grows (mayGrow heap s0) s0 s1) (newTable : (s1.dirs newdir).tables i = p)
    (ne : p ≠ 0) (new : mayGrow heap s0 p) (empty : ∀ j, s1.page? (p, j) = some Page.zero)
    (ready : Ready R (s0.pagesFrom i 0 + N) s1) :
    ∃ s', (List.range pagesPerTable).foldlM (copyEntry heap newdir i) s1 = some s' ∧
      CopyingPages s0 s1 R N i p pagesPerTable s' := by
  apply foldlM_range_invariant (CopyingPages s0 s1 R N i p)
  · exact ⟨Grows.refl .., rfl, rfl, ready, fun k below => absurd below (Nat.not_lt_zero k),
      fun k _ => empty k⟩
  intro j s boundPage copying
  exact copyEntry_round mapped blocks lt isPrivate grows1 newTable ne new boundPage copying

/-! ## One table -/

theorem exists_touch {heap : Kheap} {d : PageDirectory} : ∀ {k : Nat}, x ∈ heapEntries heap d k n →
      ∃ l, k ≤ l ∧ l < k + n ∧ ∃ addr ∈ touches heap l, x = entryPtr d addr := by
  induction n with
  | zero => exact fun mem => absurd mem not_mem_nil
  | succ n ih =>
    intro k mem
    rcases mem_append.mp mem with first | later
    · obtain ⟨addr, touched, rfl⟩ := mem_map.mp first
      exact ⟨k, le_refl k, Nat.lt_add_of_pos_right (Nat.succ_pos n), addr, touched, rfl⟩
    · obtain ⟨l, low, high, touch⟩ := ih later
      exact ⟨l, by omega, by omega, touch⟩

theorem mem_heapEntries (low : s0.calls ≤ k) (high : k + n ≤ s0.calls + s0.privateTables 0 + 1)
    (mem : x ∈ heapEntries heap s0.curDir k n) :
    ∃ l, s0.makesCall l ∧ ∃ addr ∈ touches heap l, x = entryPtr s0.curDir addr := by
  obtain ⟨l, lowL, highL, touch⟩ := exists_touch mem
  exact ⟨l, ⟨by omega, by omega⟩, touch⟩

theorem Grows.of_dirs {dirs : Nat → PageDirectory}
    (current : dirs s.gCurrentDirectory = s.dirs s.gCurrentDirectory)
    (kernel : dirs s.gKernelDirectory = s.dirs s.gKernelDirectory) :
    Grows A s { s with dirs := dirs } :=
  { Grows.refl A s with curDir := current, kernelDir := kernel }

theorem Ready.of_dirs (dirs : Nat → PageDirectory) (ready : Ready R n s) :
    Ready R n { s with dirs := dirs } :=
  ⟨ready.reserved, ready.backable, ready.room⟩

theorem kmallocBase_next (blocks : FreshBlocks heap s0) (here : s.curDir = s0.curDir)
    (hereKernel : s.kernelDir = s0.kernelDir) (new : s0.makesCall s.calls)
    (ready : Ready (heapEntries heap s0.curDir s.calls (n + 1)) N s) :
    ∃ s' phys, kmallocBase heap s = some (s', heap.addr s.calls, phys) ∧
      HeapGrows (heapTable heap s0) s s' ∧ s'.calls = s.calls + 1 ∧
      Ready ((heap.zeroFaults (heap.addr s.calls)).map (entryPtr s0.curDir) ++
        heapEntries heap s0.curDir (s.calls + 1) n) N s' := by
  apply kmallocBase_ready here (blocks.notNull _ new)
  · rw [hereKernel]
    exact Prod.ext (blocks.shared _ new _ (addr_mem_touches heap s.calls)).2 rfl
  · intro addr mem
    exact ⟨s.calls, new, addr, mem_append_left _ mem, rfl⟩
  · unfold heapEntries touches at ready
    rw [map_append, append_assoc] at ready
    exact ready

/-- Table `i` of the new directory: the current directory's own, or a new one with a copy of each
page. -/
def TableDone (heap : Kheap) (s0 : Paging) (newdir i : Nat) (s : Paging) : Prop :=
  if s0.isPrivate i then
    ∃ k, s0.makesCall k ∧ k < s.calls ∧ (s.dirs newdir).tables i = heap.addr k ∧
      ∀ j < pagesPerTable, EntryCopied s0 s (s0.curDir.tables i, j) (heap.addr k, j)
  else
    (s.dirs newdir).tables i = s0.curDir.tables i ∧
      (s.dirs newdir).tablesPhysical i = s0.curDir.tablesPhysical i

theorem TableDone.of_private (done : TableDone heap s0 newdir t s)
    (isPrivate : s0.isPrivate t = true) :
    ∃ k, s0.makesCall k ∧ k < s.calls ∧ (s.dirs newdir).tables t = heap.addr k ∧
      ∀ j < pagesPerTable,
        EntryCopied s0 s (s0.curDir.tables t, j) (heap.addr k, j) := by
  unfold TableDone at done
  rwa [if_pos isPrivate] at done

/-- `i` tables of the new directory are done. -/
structure Copying (heap : Kheap) (s0 : Paging) (newdir i : Nat) (s : Paging) : Prop where
  grows : Grows (mayGrow heap s0) s0 s
  calls : s0.calls < s.calls
  callsLeft : s.calls + s0.privateTables i = s0.calls + s0.privateTables 0 + 1
  ready : Ready (heapEntries heap s0.curDir s.calls (s0.privateTables i)) (s0.privatePages i) s
  fresh : ∀ k ≥ s.calls, s0.makesCall k → ∀ j, s.page? (heap.addr k, j) = none
  done : ∀ t < i, TableDone heap s0 newdir t s
  distinct : ∀ t < i, ∀ u < i, s0.isPrivate t = true → s0.isPrivate u = true →
    (s.dirs newdir).tables t = (s.dirs newdir).tables u → t = u
  origin : ∀ k, s0.makesCall k → ∀ j e, s.Maps (heap.addr k, j) e →
    ∃ t < i, s0.isPrivate t = true ∧ (s.dirs newdir).tables t = heap.addr k ∧
      j < pagesPerTable ∧ ∃ d, s0.Maps (s0.curDir.tables t, j) d
  todo : ∀ t ≥ i, (s.dirs newdir).tables t = 0 ∧ (s.dirs newdir).tablesPhysical t = 0

theorem TableDone.grow (done : TableDone heap s0 newdir t s) (grows : Grows A s s')
    (calls : s.calls ≤ s'.calls) (tables : (s'.dirs newdir).tables t = (s.dirs newdir).tables t)
    (physical : (s'.dirs newdir).tablesPhysical t = (s.dirs newdir).tablesPhysical t)
    (pages : ∀ k, s0.makesCall k → k < s.calls → ∀ j,
      s'.page? (heap.addr k, j) = s.page? (heap.addr k, j)) : TableDone heap s0 newdir t s' := by
  unfold TableDone
  split
  · rename_i isPrivate
    obtain ⟨k, new, before, pointer, entries⟩ := done.of_private isPrivate
    refine ⟨k, new, before.trans_le calls, tables.trans pointer, ?_⟩
    intro j lt
    exact (entries j lt).grow grows (pages k new before j)
  · rename_i shared
    unfold TableDone at done
    rw [if_neg shared] at done
    exact ⟨tables.trans done.1, physical.trans done.2⟩

theorem Copying.share (copying : Copying heap s0 newdir i s) (lt : i < tablesPerDir)
    (notPrivate : s0.isPrivate i = false) (dirs : Nat → PageDirectory)
    (current : dirs s.gCurrentDirectory = s.dirs s.gCurrentDirectory)
    (kernel : dirs s.gKernelDirectory = s.dirs s.gKernelDirectory)
    (written : (dirs newdir).tables i = s0.curDir.tables i ∧
      (dirs newdir).tablesPhysical i = s0.curDir.tablesPhysical i)
    (others : ∀ t ≠ i, (dirs newdir).tables t = (s.dirs newdir).tables t ∧
      (dirs newdir).tablesPhysical t = (s.dirs newdir).tablesPhysical t) :
    Copying heap s0 newdir (i + 1) { s with dirs := dirs } := by
  have ready := copying.ready
  have left := copying.callsLeft
  rw [s0.privateTables_succ lt, s0.privatePages_succ lt, notPrivate,
    if_neg Bool.false_ne_true, if_neg Bool.false_ne_true, Nat.zero_add, Nat.zero_add] at ready
  rw [s0.privateTables_succ lt, notPrivate, if_neg Bool.false_ne_true, Nat.zero_add] at left
  have grows : Grows (mayGrow heap s0) s { s with dirs := dirs } := Grows.of_dirs current kernel
  refine ⟨copying.grows.trans grows, copying.calls, left, ready.of_dirs dirs, copying.fresh, ?_, ?_,
    ?_, ?_⟩
  · intro t before
    rcases Nat.lt_succ_iff_lt_or_eq.mp before with earlier | rfl
    · have kept := others t (ne_of_lt earlier)
      exact (copying.done t earlier).grow grows (le_refl _) kept.1 kept.2 fun _ _ _ _ => rfl
    unfold TableDone
    rw [notPrivate, if_neg Bool.false_ne_true]
    exact written
  · -- table `i` itself is not private
    have earlier (t : Nat) (before : t < i + 1) (isPrivate : s0.isPrivate t = true) : t < i := by
      rcases Nat.lt_succ_iff_lt_or_eq.mp before with earlier | rfl
      · exact earlier
      · exact absurd (isPrivate.symm.trans notPrivate) Bool.false_ne_true.symm
    intro t beforeT u beforeU privateT privateU same
    have earlierT := earlier t beforeT privateT
    have earlierU := earlier u beforeU privateU
    apply copying.distinct t earlierT u earlierU privateT privateU
    rw [← (others t (ne_of_lt earlierT)).1, ← (others u (ne_of_lt earlierU)).1]
    exact same
  · intro k new j e maps
    obtain ⟨t, earlier, isPrivate, pointer, source⟩ := copying.origin k new j e maps
    exact ⟨t, Nat.lt_succ_of_lt earlier, isPrivate,
      (others t (ne_of_lt earlier)).1.trans pointer, source⟩
  · intro t after
    have kept := others t (ne_of_gt after)
    have todo := copying.todo t (Nat.le_of_succ_le after)
    exact ⟨kept.1.trans todo.1, kept.2.trans todo.2⟩

/-- The tables that change while one table is copied. -/
def grownBy (heap : Kheap) (s0 : Paging) (k p : Nat) : Prop := heapTable heap s0 p ∨ p = heap.addr k

theorem FreshBlocks.not_grownBy (blocks : FreshBlocks heap s0) {l : Nat} (newK : s0.makesCall k)
    (newL : s0.makesCall l) (ne : l ≠ k) : ¬grownBy heap s0 k (heap.addr l) := by
  rintro (table | same)
  · exact blocks.not_heapTable newL table
  · exact ne (blocks.distinct l k newL newK same)

theorem copyTable_prepares (blocks : FreshBlocks heap s0) (here : s.curDir = s0.curDir)
    (hereKernel : s.kernelDir = s0.kernelDir) (new : s0.makesCall s.calls)
    (last : s.calls + n ≤ s0.calls + s0.privateTables 0)
    (ne : s.gCurrentDirectory ≠ newdir ∧ s.gKernelDirectory ≠ newdir)
    (fresh : ∀ j, s.page? (heap.addr s.calls, j) = none)
    (ready : Ready (heapEntries heap s0.curDir s.calls (n + 1)) N s) :
    ∃ s' phys, copyTable heap newdir i s =
        (List.range pagesPerTable).foldlM (copyEntry heap newdir i) s' ∧
      Grows (grownBy heap s0 s.calls) s s' ∧ s'.calls = s.calls + 1 ∧
      Ready (heapEntries heap s0.curDir (s.calls + 1) n) N s' ∧
      (∀ j, s'.page? (heap.addr s.calls, j) = some Page.zero) ∧
      s'.dirs newdir = { s.dirs newdir with
          tables := update (s.dirs newdir).tables i (heap.addr s.calls)
          tablesPhysical := update (s.dirs newdir).tablesPhysical i phys } := by
  obtain ⟨s1, phys, malloc, grows1, calls1, ready1⟩ :=
    kmallocBase_next blocks here hereKernel new ready
  rw [← grows1.grows.current, ← grows1.grows.kernel] at ne
  let s2 : Paging := s1.setTable newdir i (heap.addr s.calls)
  have grows2 : Grows (grownBy heap s0 s.calls) s1 s2 :=
    Grows.of_dirs (update_of_ne ne.1 ..) (update_of_ne ne.2 ..)
  have here2 : s2.curDir = s0.curDir :=
    grows2.curDir.trans (grows1.grows.curDir.trans here)
  obtain ⟨s3, zeroed, grows3, calls3, ready3⟩ := zeroBlock_ready (T := heapTable heap s0) here2
      (fun addr mem => ⟨s.calls, new, addr, mem_append_right _ mem, rfl⟩)
      (ready1.of_dirs s2.dirs)
  have ne3 : s3.gCurrentDirectory ≠ newdir ∧ s3.gKernelDirectory ≠ newdir := by
    rw [grows3.grows.current, grows3.grows.kernel]
    exact ne
  have absent3 (j : Nat) : s3.page? (heap.addr s.calls, j) = none :=
    grows3.absent _ (grows1.absent _ (fresh j))
  have grows4 := addTable_grows absent3
  let s4 : Paging := s3.addTable (heap.addr s.calls)
  let entry : Nat := phys ||| (s4.curDir.tablesPhysical i &&& 0xF)
  have grows5 : Grows (grownBy heap s0 s.calls) s4 (s4.setTablePhysical newdir i entry) :=
    Grows.of_dirs (update_of_ne ne3.1 ..) (update_of_ne ne3.2 ..)
  refine ⟨s4.setTablePhysical newdir i entry, entry, ?_, ?_, ?_, ?_, ?_, ?_⟩
  · unfold copyTable memsetTable
    generalize List.range pagesPerTable = rounds
    simp only [malloc, bind_eq_bind, bind_some]
    rw [show s1.setTable newdir i (heap.addr s.calls) = s2 from rfl, zeroed]
    rfl
  · exact (grows1.grows.mono fun _ => .inl).trans <| grows2.trans <|
      (grows3.grows.mono fun _ => .inl).trans <| (grows4.mono fun _ => .inr).trans grows5
  · exact calls3.trans calls1
  · apply Ready.of_dirs
    apply ready3.addTable
    intro x mem same
    obtain ⟨l, newL, addr, touched, rfl⟩ := mem_heapEntries (Nat.le_succ_of_le new.1) (by omega) mem
    exact blocks.not_heapTable new ⟨l, newL, addr, touched, same.symm⟩
  · intro j
    exact (s3.page?_addTable ..).trans (if_pos rfl)
  · have dirs4 : s4.dirs newdir = { s.dirs newdir with
          tables := update (s.dirs newdir).tables i (heap.addr s.calls) } := by
      show s3.dirs newdir = _
      rw [grows3.dirs, ← grows1.dirs]
      exact update_self ..
    show update s4.dirs newdir _ newdir = _
    rw [update_self, dirs4]

theorem Copying.table_ne_next (copying : Copying heap s0 newdir i s) (blocks : FreshBlocks heap s0)
    (new : s0.makesCall s.calls) (lt : t < i) (isPrivate : s0.isPrivate t = true) :
    (s.dirs newdir).tables t ≠ heap.addr s.calls := by
  obtain ⟨k, newK, earlierCall, pointer, -⟩ := (copying.done t lt).of_private isPrivate
  rw [pointer]
  intro same
  exact ne_of_lt earlierCall (blocks.distinct k _ newK new same)

theorem copyTable_round (mapped : WellMapped s0) (blocks : FreshBlocks heap s0)
    (newdirIs : newdir = heap.addr s0.calls) (copying : Copying heap s0 newdir i s)
    (lt : i < tablesPerDir) (isPrivate : s0.isPrivate i = true) :
    ∃ s', copyTable heap newdir i s = some s' ∧ Copying heap s0 newdir (i + 1) s' := by
  have started := copying.calls
  have left := copying.callsLeft
  rw [s0.privateTables_succ lt, isPrivate, if_pos rfl] at left
  have new : s0.makesCall s.calls := ⟨le_of_lt copying.calls, by omega⟩
  have apart := blocks.newdir_ne copying.grows.current copying.grows.kernel
  rw [← newdirIs] at apart
  have ready := copying.ready
  rw [s0.privateTables_succ lt, s0.privatePages_succ lt, isPrivate, if_pos rfl, if_pos rfl,
    add_comm 1] at ready
  obtain ⟨s1, phys, prepared, grows1, calls1, ready1, empty, dirs1⟩ :=
    copyTable_prepares (i := i) blocks copying.grows.curDir copying.grows.kernelDir new
      (by omega) apart (copying.fresh _ (le_refl _) new) ready
  have sub (q : Nat) (grown : grownBy heap s0 s.calls q) : mayGrow heap s0 q :=
    grown.imp_right fun same => ⟨s.calls, new, same⟩
  obtain ⟨s', loop, pages⟩ := copyEntries_copies mapped blocks lt isPrivate
    (copying.grows.trans (grows1.mono sub)) (by rw [dirs1]; exact update_self ..)
    (blocks.notNull _ new) (.inr ⟨s.calls, new, rfl⟩) empty ready1
  have grows : Grows (grownBy heap s0 s.calls) s s' :=
    grows1.trans (pages.grows.mono fun _ same => .inr same)
  have calls : s'.calls = s.calls + 1 := pages.calls.trans calls1
  have dirs : s'.dirs newdir = _ := (congrFun pages.dirs newdir).trans dirs1
  have written : (s'.dirs newdir).tables i = heap.addr s.calls := by
    rw [dirs]
    exact update_self ..
  have others (t : Nat) (ne : t ≠ i) : (s'.dirs newdir).tables t = (s.dirs newdir).tables t ∧
        (s'.dirs newdir).tablesPhysical t = (s.dirs newdir).tablesPhysical t := by
    rw [dirs]
    exact ⟨update_of_ne ne .., update_of_ne ne ..⟩
  refine ⟨s', prepared.trans loop, copying.grows.trans (grows.mono sub), by omega, by omega, ?_, ?_,
    ?_, ?_, ?_, ?_⟩
  · have readyLeft := pages.ready
    rw [s0.pagesFrom_end, Nat.zero_add, ← calls] at readyLeft
    exact readyLeft
  · intro l later newL j
    rw [grows.elsewhere _ (blocks.not_grownBy new newL (by omega))]
    exact copying.fresh l (by omega) newL j
  · intro t before
    rcases Nat.lt_succ_iff_lt_or_eq.mp before with earlier | rfl
    · have kept := others t (ne_of_lt earlier)
      apply (copying.done t earlier).grow grows (by omega) kept.1 kept.2
      intro l newL earlierCall j
      exact grows.elsewhere _ (blocks.not_grownBy new newL (ne_of_lt earlierCall))
    · unfold TableDone
      rw [if_pos isPrivate]
      exact ⟨s.calls, new, by omega, written, fun j boundPage => pages.done j boundPage⟩
  · have newTable (u : Nat) (earlier : u < i) (privateU : s0.isPrivate u = true) :
        (s'.dirs newdir).tables u ≠ heap.addr s.calls := by
      rw [(others u (ne_of_lt earlier)).1]
      exact copying.table_ne_next blocks new earlier privateU
    intro t beforeT u beforeU privateT privateU same
    rcases Nat.lt_succ_iff_lt_or_eq.mp beforeT with earlierT | rfl <;>
      rcases Nat.lt_succ_iff_lt_or_eq.mp beforeU with earlierU | rfl
    · rw [(others t (ne_of_lt earlierT)).1, (others u (ne_of_lt earlierU)).1] at same
      exact copying.distinct t earlierT u earlierU privateT privateU same
    · exact absurd (same.trans written) (newTable t earlierT privateT)
    · exact absurd (same.symm.trans written) (newTable u earlierU privateU)
    · rfl
  · intro k newK j e maps
    by_cases here : k = s.calls
    · rw [here] at maps ⊢
      obtain ⟨boundPage, source⟩ := pages.origin maps
      exact ⟨i, Nat.lt_succ_self i, isPrivate, written, boundPage, source⟩
    have entry := maps.1
    rw [grows.elsewhere _ (blocks.not_grownBy new newK here)] at entry
    obtain ⟨t, earlier, isPrivate, pointer, source⟩ := copying.origin k newK j e ⟨entry, maps.2⟩
    exact ⟨t, Nat.lt_succ_of_lt earlier, isPrivate,
      (others t (ne_of_lt earlier)).1.trans pointer, source⟩
  · intro t after
    have todo := copying.todo t (Nat.le_of_succ_le after)
    have kept := others t (ne_of_gt after)
    exact ⟨kept.1.trans todo.1, kept.2.trans todo.2⟩

/-! ## All tables -/

theorem linkTable_spec {newdir : Nat} (i : Nat)
    (apart : s.gCurrentDirectory ≠ newdir ∧ s.gKernelDirectory ≠ newdir) :
    ((linkTable newdir i s).dirs s.gCurrentDirectory = s.dirs s.gCurrentDirectory ∧
      (linkTable newdir i s).dirs s.gKernelDirectory = s.dirs s.gKernelDirectory) ∧
    (((linkTable newdir i s).dirs newdir).tables i = s.curDir.tables i ∧
      ((linkTable newdir i s).dirs newdir).tablesPhysical i = s.curDir.tablesPhysical i) ∧
    ∀ t ≠ i, ((linkTable newdir i s).dirs newdir).tables t = (s.dirs newdir).tables t ∧
      ((linkTable newdir i s).dirs newdir).tablesPhysical t = (s.dirs newdir).tablesPhysical t := by
  have dirs : (linkTable newdir i s).dirs = update s.dirs newdir { s.dirs newdir with
          tables := update (s.dirs newdir).tables i (s.curDir.tables i)
          tablesPhysical :=
            update (s.dirs newdir).tablesPhysical i (s.curDir.tablesPhysical i) } := by
    simp [linkTable, Paging.setTable, Paging.setTablePhysical]
  rw [dirs, update_self, update_of_ne apart.1, update_of_ne apart.2]
  exact ⟨⟨rfl, rfl⟩, ⟨update_self .., update_self ..⟩,
    fun t ne => ⟨update_of_ne ne .., update_of_ne ne ..⟩⟩

theorem duplicateTable_round (mapped : WellMapped s0) (blocks : FreshBlocks heap s0)
    (newdirIs : newdir = heap.addr s0.calls) (copying : Copying heap s0 newdir i s)
    (lt : i < tablesPerDir) :
    ∃ s', duplicateTable heap newdir s i = some s' ∧ Copying heap s0 newdir (i + 1) s' := by
  have ne := blocks.newdir_ne copying.grows.current copying.grows.kernel
  rw [← newdirIs] at ne
  unfold duplicateTable
  rw [copying.grows.curDir, copying.grows.kernelDir]
  by_cases used : s0.curDir.tablesPhysical i = 0
  · rw [if_neg (not_not_intro used)]
    have notPrivate : s0.isPrivate i = false := by simp [Paging.isPrivate, used]
    have todo := copying.todo i le_rfl
    refine ⟨s, rfl, copying.share lt notPrivate s.dirs rfl rfl ⟨?_, ?_⟩ fun _ _ => ⟨rfl, rfl⟩⟩
    · rw [todo.1, (mapped.linked i lt).mp used]
    · rw [todo.2, used]
  rw [if_pos used]
  by_cases shared : s0.curDir.tables i = s0.kernelDir.tables i
  · rw [if_pos shared]
    have notPrivate : s0.isPrivate i = false := by simp [Paging.isPrivate, shared]
    obtain ⟨kept, written, others⟩ := linkTable_spec i ne
    rw [copying.grows.curDir] at written
    exact ⟨_, rfl, copying.share lt notPrivate _ kept.1 kept.2 written others⟩
  · rw [if_neg shared]
    have isPrivate : s0.isPrivate i = true := by simp [Paging.isPrivate, used, shared]
    exact copyTable_round mapped blocks newdirIs copying lt isPrivate

theorem duplicate_prepares (blocks : FreshBlocks heap s0) (reserved : s0.frames.marked 0 = true)
    (room : framesNeeded heap s0 ≤ s0.frames.freeCount) :
    ∃ s, (duplicateCurrentPageDirectory heap s0 = do
        let s ← (List.range tablesPerDir).foldlM
          (duplicateTable heap (heap.addr s0.calls)) s
        some (s, heap.addr s0.calls)) ∧
      Copying heap s0 (heap.addr s0.calls) 0 s := by
  have first := s0.makesCall_first
  have ready : Ready (heapEntries heap s0.curDir s0.calls (s0.privateTables 0 + 1))
      (s0.privatePages 0) s0 := by
    refine ⟨reserved, ?_, room⟩
    intro x mem
    obtain ⟨k, new, addr, touched, rfl⟩ := mem_heapEntries le_rfl (by omega) mem
    exact blocks.pages k new addr touched
  obtain ⟨s1, phys, malloc, grows1, calls1, ready1⟩ := kmallocBase_next blocks rfl rfl first ready
  obtain ⟨s2, zeroed, grows2, calls2, ready2⟩ :=
    zeroBlock_ready (T := heapTable heap s0) grows1.grows.curDir
      (fun addr mem => ⟨s0.calls, first, addr, mem_append_right _ mem, rfl⟩) ready1
  have grown := grows1.trans grows2
  have calls : s2.calls = s0.calls + 1 := calls2.trans calls1
  let dirs : Nat → PageDirectory := update s2.dirs (heap.addr s0.calls)
      { PageDirectory.zero with physicalAddress := add32 phys 0x1000 }
  have ne := blocks.newdir_ne grown.grows.current grown.grows.kernel
  have grows3 : Grows (mayGrow heap s0) s2 { s2 with dirs := dirs } :=
    Grows.of_dirs (update_of_ne ne.1 ..) (update_of_ne ne.2 ..)
  have written : dirs (heap.addr s0.calls) =
      { PageDirectory.zero with physicalAddress := add32 phys 0x1000 } :=
    update_self ..
  refine ⟨{ s2 with dirs := dirs }, ?_, ?_⟩
  · unfold duplicateCurrentPageDirectory memsetDirectory
    simp only [malloc, zeroed, bind_eq_bind, bind_some, update_self, update_idem]
    rfl
  have empty (k : Nat) (new : s0.makesCall k) (j : Nat) : s2.page? (heap.addr k, j) = none :=
    grown.absent _ (blocks.page?_eq_none new j)
  refine ⟨(grown.grows.mono fun _ => .inl).trans grows3, ?_, ?_, ?_, ?_, ?_, ?_, ?_, ?_⟩
  · show s0.calls < s2.calls
    omega
  · show s2.calls + _ = _
    omega
  · rw [← calls] at ready2
    exact ready2.of_dirs dirs
  · exact fun k _ new j => empty k new j
  · exact fun t lt => absurd lt (Nat.not_lt_zero t)
  · exact fun t lt => absurd lt (Nat.not_lt_zero t)
  · intro k new j e maps
    exact absurd ((empty k new j).symm.trans maps.1) (some_ne_none e).symm
  · intro t _
    show (dirs _).tables t = 0 ∧ (dirs _).tablesPhysical t = 0
    rw [written]
    exact ⟨rfl, rfl⟩

theorem duplicate_copies (mapped : WellMapped s0) (blocks : FreshBlocks heap s0)
    (room : framesNeeded heap s0 ≤ s0.frames.freeCount) :
    ∃ s', duplicateCurrentPageDirectory heap s0 = some (s', heap.addr s0.calls) ∧
      Copying heap s0 (heap.addr s0.calls) tablesPerDir s' := by
  obtain ⟨s, prepared, start⟩ := duplicate_prepares blocks mapped.reserved room
  obtain ⟨s', loop, copying⟩ := foldlM_range_invariant (Copying heap s0 (heap.addr s0.calls)) start
    fun i s lt copying => duplicateTable_round mapped blocks rfl copying lt
  refine ⟨s', ?_, copying⟩
  rw [prepared, loop]
  rfl

/-- The frame of entry `j` of table `i` of the new directory was free before the
call, and no other entry of either directory uses it. -/
structure OwnFrame (s s' : Paging) (newdir i j : Nat) (frame : BitVec 20) : Prop where
  free : s.frames.marked frame.toNat = false
  notCurrent : ∀ t < tablesPerDir, ∀ k < pagesPerTable, ∀ d,
    s'.Maps (s'.curDir.tables t, k) d → d.frame ≠ frame
  notNew : ∀ t < tablesPerDir, ∀ k < pagesPerTable, ∀ d,
    s'.Maps ((s'.dirs newdir).tables t, k) d → d.frame = frame → t = i ∧ k = j

/-- `newdir` is a copy of the current directory: the kernel's tables are shared,
every other present page has a frame of its own with the same bytes, and what
was there before is as it was. -/
structure IsCopy (s s' : Paging) (newdir : Nat) : Prop where
  shared : ∀ i < tablesPerDir, s.curDir.tables i = s.kernelDir.tables i →
    (s'.dirs newdir).tables i = s.curDir.tables i ∧
      (s'.dirs newdir).tablesPhysical i = s.curDir.tablesPhysical i
  copied : ∀ i < tablesPerDir, s.curDir.tables i ≠ s.kernelDir.tables i →
    ∀ j < pagesPerTable, ∀ e, s.Maps (s.curDir.tables i, j) e →
      ∃ e', s'.Maps ((s'.dirs newdir).tables i, j) e' ∧ e'.rw = e.rw ∧ e'.user = e.user ∧
        (∀ o < 0x1000, s'.phys e'.frame.toNat o = s.phys e.frame.toNat o) ∧
        OwnFrame s s' newdir i j e'.frame
  current : s'.curDir = s.curDir
  entries : ∀ i < tablesPerDir, ∀ j < pagesPerTable, ∀ e,
    s.Maps (s.curDir.tables i, j) e → s'.Maps (s.curDir.tables i, j) e
  contents : ∀ f, s.frames.marked f = true → s'.phys f = s.phys f

theorem FreshBlocks.addr_ne_table (blocks : FreshBlocks heap s0) (mapped : WellMapped s0)
    (new : s0.makesCall k) (lt : t < tablesPerDir) :
    s0.curDir.tables t ≠ heap.addr k := by
  intro same
  have ne := blocks.notNull k new
  rw [← same] at ne
  exact mapped.tables t lt ne (same ▸ blocks.noTable k new)

theorem Copying.ownFrame (mapped : WellMapped s0) (blocks : FreshBlocks heap s0)
    (copying : Copying heap s0 newdir tablesPerDir s')
    (lt : i < tablesPerDir) (isPrivate : s0.isPrivate i = true)
    (new : s0.makesCall k) (pointer : (s'.dirs newdir).tables i = heap.addr k)
    (maps : s'.Maps (heap.addr k, j) e') : OwnFrame s0 s' newdir i j e'.frame := by
  have noEntry (l m : Nat) (newL : s0.makesCall l) (d : Page) : ¬s0.Maps (heap.addr l, m) d := by
    intro old
    have none := blocks.page?_eq_none newL m
    exact some_ne_none d (old.1.symm.trans none)
  have filled := copying.grows.filled _ _ maps (noEntry k j new e')
  have notCurrent (t : Nat) (boundT : t < tablesPerDir) (m : Nat)
      (boundM : m < pagesPerTable) (d : Page)
        (mapsT : s'.Maps (s0.curDir.tables t, m) d) :
      d.frame ≠ e'.frame := by
    intro same
    by_cases old : s0.Maps (s0.curDir.tables t, m) d
    · have used := mapped.mapped t boundT m boundM d old
      rw [same, filled.1] at used
      exact Bool.false_ne_true used
    · have slots := copying.grows.distinct _ _ _ _ mapsT old maps (noEntry k j new e') same
      exact blocks.addr_ne_table mapped new boundT (congrArg Prod.fst slots)
  refine ⟨filled.1, ?_, ?_⟩
  · rw [copying.grows.curDir]
    exact notCurrent
  intro t boundT m boundM d mapsT same
  have done := copying.done t boundT
  unfold TableDone at done
  split at done
  · rename_i privateT
    obtain ⟨l, newL, -, pointerT, -⟩ := done
    rw [pointerT] at mapsT
    have slots := copying.grows.distinct _ _ _ _ mapsT (noEntry l m newL d) maps
      (noEntry k j new e') same
    refine ⟨?_, congrArg Prod.snd slots⟩
    apply copying.distinct t boundT i lt privateT isPrivate
    rw [pointerT, pointer]
    exact congrArg Prod.fst slots
  · rw [done.1] at mapsT
    exact absurd same (notCurrent t boundT m boundM d mapsT)

/-- With frames enough, `duplicate_current_page_directory` returns a copy of the
current directory. -/
theorem duplicate_isCopy (mapped : WellMapped s0) (blocks : FreshBlocks heap s0)
    (room : framesNeeded heap s0 ≤ s0.frames.freeCount) :
    ∃ s' newdir, duplicateCurrentPageDirectory heap s0 = some (s', newdir) ∧
      IsCopy s0 s' newdir := by
  obtain ⟨s', ret, copying⟩ := duplicate_copies mapped blocks room
  refine ⟨s', heap.addr s0.calls, ret, ?_, ?_, copying.grows.curDir,
    fun _ _ _ _ e maps => copying.grows.kept _ e maps, fun _ => copying.grows.content⟩
  · intro i lt shared
    have done := copying.done i lt
    unfold TableDone at done
    rw [if_neg (by simp [Paging.isPrivate, shared])] at done
    exact done
  · intro i lt own j boundPage e maps
    have used : s0.curDir.tablesPhysical i ≠ 0 := fun unused =>
      table_ne_zero mapped.null maps.1 ((mapped.linked i lt).mp unused)
    have isPrivate : s0.isPrivate i = true := by simp [Paging.isPrivate, used, own]
    obtain ⟨k, new, -, pointer, entries⟩ := (copying.done i lt).of_private isPrivate
    obtain ⟨e', maps', rw', user', -, bytes⟩ := (entries j boundPage).present e maps
    refine ⟨e', by rw [pointer]; exact maps', rw', user', bytes, ?_⟩
    exact copying.ownFrame mapped blocks lt isPrivate new pointer maps'

end

/-! ## A small address space -/

/-- A directory and a table behind their headers.  The pages up to there have frames. -/
def smallHeap : Kheap where
  addr := fun k => 0xC0001000 + k * 0x3000
  allocFaults := fun _ => []
  zeroFaults := fun _ => []

/-- A directory with tables of the kernel for the page buffer and the heap, and one more at
index `t`. -/
def smallDirectory (t table : Nat) : PageDirectory where
  tables := fun i => if i = 4 then 0x5000 else if i = 768 then 0x6000 else if i = 769 then 0x8000
    else if i = t then table else 0
  tablesPhysical := fun i => if i = 4 then 0x5007 else if i = 768 then 0x6007 else
    if i = 769 then 0x8007 else if i = t then table else 0
  physicalAddress := 0

/-- 64 frames, of which the first nine are used. -/
def smallFrames : Frames := ⟨fun i => if i = 0 then 0x1FF#32 else 0#32, 64, 0, by decide⟩

/-- The page buffer is in frame 1 and the first five pages of the heap in frames 3 to 7; the two
private pages, from index `j` of table `t` on, are in frames 2 and 8. -/
def smallSpace (t j : Nat) : Paging where
  frames := smallFrames
  dirs := fun d => if d = 0x2000 then smallDirectory t 0x7000 else smallDirectory t 0
  tables := fun p =>
    if p = 0x5000 then some fun k => if k = 0x100 then ⟨true, false, false, 1⟩ else Page.zero
    else if p = 0x6000 then some fun k =>
      if k < 5 then ⟨true, false, false, BitVec.ofNat 20 (3 + k)⟩ else Page.zero
    else if p = 0x8000 then some fun _ => Page.zero
    else if p = 0x7000 then some fun k =>
      if k = j then ⟨true, true, true, 2⟩
      else if k = j + 1 then ⟨true, true, true, 8⟩ else Page.zero
    else none
  phys := fun f o => UInt8.ofNat (f + o)
  gKernelDirectory := 0x1000
  gCurrentDirectory := 0x2000
  calls := 0
  freed := []

section

variable {t j : Nat}

theorem smallSpace_marked (maps : (smallSpace t j).Maps x e) :
    (smallSpace t j).frames.marked e.frame.toNat = true := by
  obtain ⟨entry, mem⟩ := maps
  have low : ∀ f < 9, smallFrames.marked f = true := by decide
  unfold Paging.page? smallSpace at entry
  dsimp only at entry
  split_ifs at entry <;> simp only [map_some, map_none, some.injEq, reduceCtorEq] at entry
  · split_ifs at entry <;> subst entry
    · exact low 1 (by decide)
    · exact absurd mem Bool.false_ne_true
  · split_ifs at entry <;> subst entry
    · exact low _ (by rw [BitVec.toNat_ofNat]; omega)
    · exact absurd mem Bool.false_ne_true
  · subst entry
    exact absurd mem Bool.false_ne_true
  · split_ifs at entry <;> subst entry
    · exact low 2 (by decide)
    · exact low 8 (by decide)
    · exact absurd mem Bool.false_ne_true

theorem smallSpace_wellMapped (t j : Nat) : WellMapped (smallSpace t j) := by
  have current : (smallSpace t j).curDir = smallDirectory t 0x7000 := rfl
  have kernel : (smallSpace t j).kernelDir = smallDirectory t 0 := rfl
  constructor
  case null => rfl
  case linked =>
    intro i _
    rw [current]
    simp only [smallDirectory]
    split_ifs <;> decide
  case tables =>
    intro i _ ne
    rw [current] at ne ⊢
    simp only [smallDirectory] at ne ⊢
    split_ifs at ne ⊢ <;> simp [smallSpace] at *
  case kernelExists =>
    intro i _ ne
    rw [kernel] at ne ⊢
    simp only [smallDirectory] at ne ⊢
    split_ifs at ne ⊢ <;> simp [smallSpace] at *
  case kernelTables =>
    intro i _ j _ ne same
    rw [current, kernel] at *
    simp only [smallDirectory] at *
    split_ifs at * <;> simp_all
  case reserved =>
    show smallFrames.marked 0 = true
    decide
  case mapped => exact fun _ _ _ _ _ maps => smallSpace_marked maps
  case bufferShared => rfl
  case bufferPresent => exact ⟨⟨true, false, false, 1⟩, rfl, rfl⟩

variable (one : (smallSpace t j).privateTables 0 = 1)
include one

theorem smallSpace_makesCall (call : (smallSpace t j).makesCall k) : k = 0 ∨ k = 1 := by
  have bounds := call.2
  have zero : (smallSpace t j).calls = 0 := rfl
  omega

theorem smallHeap_fresh : FreshBlocks smallHeap (smallSpace t j) := by
  constructor
  case notNull =>
    intro k call
    rcases smallSpace_makesCall one call with rfl | rfl <;> decide
  case noTable =>
    intro k call
    rcases smallSpace_makesCall one call with rfl | rfl <;> rfl
  case noDirectory =>
    intro k call
    rcases smallSpace_makesCall one call with rfl | rfl <;>
      exact ⟨show smallHeap.addr _ ≠ 0x2000 by decide, show smallHeap.addr _ ≠ 0x1000 by decide⟩
  case distinct =>
    intro k l callK callL same
    have same : 0xC0001000 + k * 0x3000 = 0xC0001000 + l * 0x3000 := same
    omega
  case shared =>
    intro k call addr touched
    rcases smallSpace_makesCall one call with rfl | rfl <;>
      rw [mem_singleton.mp touched] <;> exact ⟨by decide, rfl⟩
  case pages =>
    intro k call addr touched
    rcases smallSpace_makesCall one call with rfl | rfl <;> rw [mem_singleton.mp touched]
    · exact ⟨⟨true, false, false, 4⟩, rfl, fun _ => by decide⟩
    · exact ⟨⟨true, false, false, 7⟩, rfl, fun _ => by decide⟩

end

theorem duplicate_smallSpace :
    WellMapped (smallSpace 1 0) ∧ FreshBlocks smallHeap (smallSpace 1 0) ∧
      framesNeeded smallHeap (smallSpace 1 0) = 2 ∧ (smallSpace 1 0).frames.freeCount = 55 ∧
      ∃ s' newdir, duplicateCurrentPageDirectory smallHeap (smallSpace 1 0) = some (s', newdir) ∧
        IsCopy (smallSpace 1 0) s' newdir := by
  have needed : framesNeeded smallHeap (smallSpace 1 0) = 2 := by decide +kernel
  have free : (smallSpace 1 0).frames.freeCount = 55 := by decide +kernel
  have fresh := smallHeap_fresh (t := 1) (j := 0) (by decide +kernel)
  exact ⟨smallSpace_wellMapped 1 0, fresh, needed, free,
    duplicate_isCopy (smallSpace_wellMapped 1 0) fresh (by rw [needed, free]; decide)⟩

end Yanix.Mm
