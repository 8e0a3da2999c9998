/-
Module: Yanix.Proofs.DirectoryTeardown
Purpose: Clearing a directory that was just duplicated unmarks the frames numbered like the pages,
  not those the copies are in; if frames run out, a page is copied into frame 0.
-/
import Yanix.Proofs.DirectoryCopy

namespace Yanix.Mm

open Foundation Option

variable {j : Nat} {f : Nat} {heap : Kheap}
variable {s s' s'' : Paging} {heap : Kheap} {s s' : Paging}

section

open Finset

/-- Directories and tables stayed. -/
structure SameTables (s s' : Paging) : Prop where
  tables : s'.tables = s.tables
  dirs : s'.dirs = s.dirs
  kernel : s'.gKernelDirectory = s.gKernelDirectory

/-- The frames of `D` were unmarked, and nothing else. -/
structure Cleared (D : Nat → Prop) (s s' : Paging) : Prop extends SameTables s s' where
  marks : ∀ f, s'.frames.marked f = true ↔ s.frames.marked f = true ∧ ¬D f

/-- The entry has a frame, present or not. -/
def Paging.holdsFrame (s : Paging) (x : PagePtr) : Prop := ∃ e, s.page? x = some e ∧ e.frame ≠ 0

/-- The number of page `j` of table `t`. -/
def pageNumber (x : Nat × Nat) : Nat := x.1 * pagesPerTable + x.2

namespace SameTables

theorem refl (s : Paging) : SameTables s s := ⟨rfl, rfl, rfl⟩

theorem trans (first : SameTables s s') (second : SameTables s' s'') : SameTables s s'' :=
  ⟨second.tables.trans first.tables, second.dirs.trans first.dirs, second.kernel.trans first.kernel⟩

theorem page? (same : SameTables s s') (x : PagePtr) : s'.page? x = s.page? x := by
  unfold Paging.page?
  rw [same.tables]

theorem kernelDir (same : SameTables s s') : s'.kernelDir = s.kernelDir := by
  unfold Paging.kernelDir
  rw [same.dirs, same.kernel]

end SameTables

namespace Cleared

variable {D E : Nat → Prop}

theorem refl (s : Paging) {D : Nat → Prop} (nothing : ∀ f, ¬D f) : Cleared D s s :=
  ⟨SameTables.refl s, fun f => ⟨fun marked => ⟨marked, nothing f⟩, fun both => both.1⟩⟩

theorem trans (first : Cleared D s s') (second : Cleared E s' s'') :
    Cleared (fun f => D f ∨ E f) s s'' := by
  refine ⟨first.toSameTables.trans second.toSameTables, ?_⟩
  intro f
  rw [second.marks, first.marks, not_or, and_assoc]

theorem congr (cleared : Cleared D s s') (same : ∀ f, D f ↔ E f) : Cleared E s s' :=
  ⟨cleared.toSameTables, fun f => by rw [cleared.marks, same]⟩

end Cleared

variable {s' : Paging} {x : Nat × Nat}

section

variable {dir t : Nat} {s : Paging}

theorem clearEntry_cleared {e : Page}
    (entry : s.page? ((s.dirs dir).tables t, j) = some e) :
    ∃ s', clearEntry dir t s j = some s' ∧
      Cleared (fun f => s.holdsFrame ((s.dirs dir).tables t, j) ∧ f = pageNumber (t, j)) s s' := by
  unfold clearEntry
  rw [entry]
  by_cases empty : e.frame = 0
  · refine ⟨s, if_neg (not_not_intro empty), Cleared.refl s ?_⟩
    rintro f ⟨⟨d, entryD, frame⟩, -⟩
    exact frame (mem_unique entry entryD ▸ empty)
  refine ⟨_, if_pos empty, ⟨rfl, rfl, rfl⟩, ?_⟩
  intro f
  have address : (t * pagesPerTable + j) * 0x1000 / 0x1000 = pageNumber (t, j) :=
    Nat.mul_div_cancel _ (by decide)
  rw [clearFrame_marked, address]
  have holds : s.holdsFrame ((s.dirs dir).tables t, j) := ⟨e, entry, empty⟩
  simp [holds, and_comm]

/-- The page numbers cleared in table `t`. -/
def clearedIn (dir t : Nat) (s : Paging) (f : Nat) : Prop :=
  (s.dirs dir).tables t ≠ s.kernelDir.tables t ∧
    ∃ j < pagesPerTable, s.holdsFrame ((s.dirs dir).tables t, j) ∧ f = pageNumber (t, j)

theorem clearTable_cleared (table : (s.dirs dir).tables t ≠ s.kernelDir.tables t →
      s.tables ((s.dirs dir).tables t) ≠ none) :
    ∃ s', clearTable dir s t = some s' ∧ Cleared (clearedIn dir t s) s s' := by
  unfold clearTable
  by_cases own : (s.dirs dir).tables t = s.kernelDir.tables t
  · exact ⟨s, if_neg (not_not_intro own), Cleared.refl s fun f cleared => cleared.1 own⟩
  rw [if_pos own]
  obtain ⟨pages, found⟩ := ne_none_iff_exists'.mp (table own)
  have entries (j : Nat) : s.page? ((s.dirs dir).tables t, j) = some (pages j) := by
    unfold Paging.page?
    rw [found]
    rfl
  obtain ⟨s', loop, cleared⟩ := foldlM_range_invariant (f := clearEntry dir t)
    (fun j s' => Cleared (fun f => ∃ k < j, s.holdsFrame ((s.dirs dir).tables t, k) ∧
      f = pageNumber (t, k)) s s')
    (n := pagesPerTable)
    (Cleared.refl s fun f ⟨k, lt, _⟩ => Nat.not_lt_zero k lt)
    (by
      intro j s1 _ cleared
      have entry : s1.page? ((s1.dirs dir).tables t, j) = some (pages j) := by
        rw [cleared.page?, cleared.dirs]
        exact entries j
      obtain ⟨s2, round, clearedRound⟩ := clearEntry_cleared entry
      refine ⟨s2, round, (cleared.trans clearedRound).congr fun f => ?_⟩
      unfold Paging.holdsFrame
      simp only [cleared.page?, cleared.dirs, Nat.lt_succ_iff_lt_or_eq, or_and_right, exists_or,
        exists_eq_left])
  refine ⟨kfree ((s'.dirs dir).tables t) s', ?_, ⟨cleared.tables, cleared.dirs, cleared.kernel⟩, ?_⟩
  · rw [loop]
    rfl
  intro f
  have clears : clearedIn dir t s f ↔ ∃ k < pagesPerTable,
      s.holdsFrame ((s.dirs dir).tables t, k) ∧ f = pageNumber (t, k) :=
    and_iff_right own
  rw [clears]
  exact cleared.marks f

theorem clearPageDirectory_cleared
    (tables : ∀ t < tablesPerDir, (s.dirs dir).tables t ≠ s.kernelDir.tables t →
      s.tables ((s.dirs dir).tables t) ≠ none) :
    ∃ s', clearPageDirectory dir s = some s' ∧
      Cleared (fun f => ∃ t < tablesPerDir, clearedIn dir t s f) s s' := by
  apply foldlM_range_invariant (fun n s' => Cleared (fun f => ∃ t < n, clearedIn dir t s f) s s')
  · exact Cleared.refl s fun f ⟨t, below, _⟩ => Nat.not_lt_zero t below
  intro t s1 lt cleared
  have table : (s1.dirs dir).tables t ≠ s1.kernelDir.tables t →
      s1.tables ((s1.dirs dir).tables t) ≠ none := by
    rw [cleared.dirs, cleared.kernelDir, cleared.tables]
    exact tables t lt
  obtain ⟨s2, round, clearedRound⟩ := clearTable_cleared table
  refine ⟨s2, round, (cleared.trans clearedRound).congr fun f => ?_⟩
  unfold clearedIn Paging.holdsFrame
  simp only [cleared.page?, cleared.dirs, cleared.kernelDir, Nat.lt_succ_iff_lt_or_eq,
    or_and_right, exists_or, exists_eq_left]

theorem clearEntry_tables (round : clearEntry dir t s j = some s') :
    SameTables s s' ∧ s.tables ((s.dirs dir).tables t) ≠ none := by
  obtain ⟨e, entry, rest⟩ := bind_eq_some_iff.mp round
  constructor
  · split at rest <;> obtain rfl := some.inj rest <;> exact ⟨rfl, rfl, rfl⟩
  · intro absent
    unfold Paging.page? at entry
    rw [absent] at entry
    exact some_ne_none e entry.symm

theorem clearTable_tables (round : clearTable dir s t = some s') :
    SameTables s s' ∧ ((s.dirs dir).tables t ≠ s.kernelDir.tables t →
      s.tables ((s.dirs dir).tables t) ≠ none) := by
  unfold clearTable at round
  split at round
  · obtain ⟨s1, loop, rest⟩ := bind_eq_some_iff.mp round
    obtain rfl := some.inj rest
    obtain ⟨same, looked⟩ := foldlM_range_rounds
      (fun j s' => SameTables s s' ∧ (0 < j → s.tables ((s.dirs dir).tables t) ≠ none))
      ⟨SameTables.refl s, fun pos => absurd pos (lt_irrefl 0)⟩
      (by
        intro j s2 s3 _ so_far round
        obtain ⟨same, table⟩ := clearEntry_tables round
        rw [so_far.1.tables, so_far.1.dirs] at table
        exact ⟨so_far.1.trans same, fun _ => table⟩)
      loop
    exact ⟨⟨same.tables, same.dirs, same.kernel⟩, fun _ => looked (by decide)⟩
  · rename_i own
    obtain rfl := some.inj round
    exact ⟨SameTables.refl s, fun ne => absurd ne own⟩

theorem clearPageDirectory_tables (run : clearPageDirectory dir s = some s') :
    ∀ t < tablesPerDir, (s.dirs dir).tables t ≠ s.kernelDir.tables t →
      s.tables ((s.dirs dir).tables t) ≠ none := by
  have rounds := foldlM_range_rounds
    (fun n s' => SameTables s s' ∧ ∀ t < n, (s.dirs dir).tables t ≠ s.kernelDir.tables t →
      s.tables ((s.dirs dir).tables t) ≠ none)
    ⟨SameTables.refl s, fun t below => absurd below (Nat.not_lt_zero t)⟩
    (by
      intro t s1 s2 _ so_far round
      obtain ⟨same, table⟩ := clearTable_tables round
      rw [so_far.1.dirs, so_far.1.tables, so_far.1.kernelDir] at table
      refine ⟨so_far.1.trans same, fun u below => ?_⟩
      rcases Nat.lt_succ_iff_lt_or_eq.mp below with lt | rfl
      · exact so_far.2 u lt
      · exact table)
    run
  exact rounds.2

end

/-! ## After a copy -/

/-- The pages that are copied: table and index. -/
@[irreducible]
def Paging.copiedPages (s : Paging) : Finset (Nat × Nat) :=
  (Finset.range tablesPerDir ×ˢ Finset.range pagesPerTable).filter fun x =>
    s.isPrivate x.1 = true ∧ (s.page? (s.curDir.tables x.1, x.2)).any Page.present = true

/-- The frame a page has in a directory. -/
def frameOf (s : Paging) (dir : Nat) (x : Nat × Nat) : Nat :=
  ((s.page? ((s.dirs dir).tables x.1, x.2)).map fun e => e.frame.toNat).getD 0

/-- Between the two states the kernel heap took the frame for a page of its
own. -/
def heapTook (heap : Kheap) (s s' : Paging) (f : Nat) : Prop :=
  ∃ x e, heapTable heap s x.1 ∧ s'.Maps x e ∧ ¬s.Maps x e ∧ e.frame.toNat = f

/-- Clearing the new directory `newdir` of `s'` uses existing tables only and gives every frame the
mark it had in `s`, the frames of the kernel heap aside. -/
def Undone (heap : Kheap) (s s' : Paging) (newdir : Nat) : Prop :=
  ∃ s'', clearPageDirectory newdir s' = some s'' ∧
    ∀ f, ¬heapTook heap s s' f → s''.frames.marked f = s.frames.marked f

section

variable {s₀ s' : Paging} {newdir : Nat}

theorem mem_copiedPages :
    x ∈ s₀.copiedPages ↔ (x.1 < tablesPerDir ∧ x.2 < pagesPerTable) ∧
      s₀.isPrivate x.1 = true ∧ ∃ e, s₀.Maps (s₀.curDir.tables x.1, x.2) e := by
  unfold Paging.copiedPages Paging.Maps
  rw [mem_filter, mem_product, mem_range, mem_range, any_eq_true]

theorem pageNumber_injOn : Set.InjOn pageNumber s₀.copiedPages := by
  intro x memberX y memberY same
  have boundX := (mem_copiedPages.mp (mem_coe.mp memberX)).1.2
  have boundY := (mem_copiedPages.mp (mem_coe.mp memberY)).1.2
  unfold pageNumber pagesPerTable at *
  exact Prod.ext (by omega) (by omega)

theorem Copying.null (mapped : WellMapped s₀) (blocks : FreshBlocks heap s₀) {i : Nat}
    (copying : Copying heap s₀ newdir i s') : s'.tables 0 = none := by
  have notGrown : ¬mayGrow heap s₀ 0 := by
    rintro (table | ⟨k, new, zero⟩)
    · exact blocks.heapTable_exists table mapped.null
    · exact blocks.notNull k new zero.symm
  have page := copying.grows.elsewhere (0, 0) notGrown
  unfold Paging.page? at page
  rw [mapped.null] at page
  exact map_eq_none_iff.mp page

theorem WellMapped.missing (mapped : WellMapped s₀) {t : Nat} (lt : t < tablesPerDir)
    (notPrivate : ¬s₀.isPrivate t = true)
    (ne : s₀.curDir.tables t ≠ s₀.kernelDir.tables t) : s₀.curDir.tables t = 0 := by
  apply (mapped.linked t lt).mp
  by_contra used
  exact notPrivate (by simp [Paging.isPrivate, used, ne])

variable (copying : Copying heap s₀ newdir tablesPerDir s')
include copying

theorem Copying.taken_cases (marked : s'.frames.marked f = true)
    (free : s₀.frames.marked f = false) :
    heapTook heap s₀ s' f ∨ f ∈ s₀.copiedPages.image (frameOf s' newdir) := by
  obtain ⟨y, e, maps, notOld, frame⟩ := copying.grows.taken f marked free
  by_cases grown : mayGrow heap s₀ y.1
  · rcases grown with table | ⟨k, new, pointer⟩
    · exact .inl ⟨y, e, table, maps, notOld, frame⟩
    · right
      obtain ⟨p, j⟩ := y
      obtain rfl : p = heap.addr k := pointer
      obtain ⟨t, lt, isPrivate, table, boundPage, source⟩ := copying.origin k new j e maps
      refine mem_image.mpr ⟨(t, j), mem_copiedPages.mpr ⟨⟨lt, boundPage⟩, isPrivate, source⟩, ?_⟩
      unfold frameOf
      rw [table, maps.1]
      exact frame
  · exact absurd ⟨(copying.grows.elsewhere y grown).symm.trans maps.1, maps.2⟩ notOld

variable (blocks : FreshBlocks heap s₀)
include blocks

theorem Copying.copy (mem : x ∈ s₀.copiedPages) :
    ∃ k e', s₀.makesCall k ∧ (s'.dirs newdir).tables x.1 = heap.addr k ∧
      s'.Maps (heap.addr k, x.2) e' ∧ ¬s₀.Maps (heap.addr k, x.2) e' ∧
      frameOf s' newdir x = e'.frame.toNat ∧ s₀.frames.marked e'.frame.toNat = false ∧
      s'.frames.marked e'.frame.toNat = true := by
  obtain ⟨⟨lt, boundPage⟩, isPrivate, e, maps⟩ := mem_copiedPages.mp mem
  have done := copying.done x.1 lt
  unfold TableDone at done
  rw [if_pos isPrivate] at done
  obtain ⟨k, new, -, pointer, entries⟩ := done
  obtain ⟨e', maps', -⟩ := (entries x.2 boundPage).present e maps
  have notOld : ¬s₀.Maps (heap.addr k, x.2) e' := fun old =>
    some_ne_none e' (old.1.symm.trans (blocks.page?_eq_none new x.2))
  refine ⟨k, e', new, pointer, maps', notOld, ?_, copying.grows.filled _ _ maps' notOld⟩
  unfold frameOf
  rw [pointer, maps'.1]
  rfl

theorem Copying.frameOf_injOn : Set.InjOn (frameOf s' newdir) s₀.copiedPages := by
  intro x memberX y memberY same
  obtain ⟨k, d, newK, pointerX, mapsX, notOldX, frameX, -⟩ := copying.copy blocks memberX
  obtain ⟨l, e, newL, pointerY, mapsY, notOldY, frameY, -⟩ := copying.copy blocks memberY
  rw [frameX, frameY] at same
  have slots := copying.grows.distinct _ _ _ _ mapsX notOldX mapsY notOldY
    (BitVec.eq_of_toNat_eq same)
  obtain ⟨⟨boundX, -⟩, privateX, -⟩ := mem_copiedPages.mp memberX
  obtain ⟨⟨boundY, -⟩, privateY, -⟩ := mem_copiedPages.mp memberY
  refine Prod.ext ?_ (Prod.mk.inj slots).2
  apply copying.distinct x.1 boundX y.1 boundY privateX privateY
  rw [pointerX, pointerY]
  exact (Prod.mk.inj slots).1

theorem Copying.not_heapTook (mem : x ∈ s₀.copiedPages) :
    ¬heapTook heap s₀ s' (frameOf s' newdir x) := by
  obtain ⟨k, e', new, -, maps, notOld, frame, -⟩ := copying.copy blocks mem
  rintro ⟨y, d, table, mapsY, notOldY, same⟩
  rw [frame] at same
  have slots := copying.grows.distinct _ _ _ _ mapsY notOldY maps notOld
    (BitVec.eq_of_toNat_eq same)
  rw [slots] at table
  exact blocks.not_heapTable new table

variable (mapped : WellMapped s₀)
include mapped

theorem Copying.cleared_iff (f : Nat) : (∃ t < tablesPerDir, clearedIn newdir t s' f) ↔
      f ∈ s₀.copiedPages.image pageNumber := by
  rw [mem_image]
  constructor
  · rintro ⟨t, lt, own, j, boundPage, ⟨e, entry, frame⟩, rfl⟩
    refine ⟨(t, j), mem_copiedPages.mpr ⟨⟨lt, boundPage⟩, ?_⟩, rfl⟩
    have done := copying.done t lt
    unfold TableDone at done
    split at done
    · rename_i isPrivate
      obtain ⟨k, -, -, pointer, entries⟩ := done
      refine ⟨isPrivate, ?_⟩
      by_contra absent
      have empty := (entries j boundPage).absent (not_exists.mp absent)
      rw [pointer, empty] at entry
      exact frame (some.inj entry ▸ rfl)
    rename_i notPrivate
    rw [done.1] at own entry
    rw [copying.grows.kernelDir] at own
    rw [mapped.missing lt notPrivate own] at entry
    unfold Paging.page? at entry
    rw [copying.null mapped blocks] at entry
    exact absurd entry.symm (some_ne_none e)
  · rintro ⟨x, mem, rfl⟩
    obtain ⟨k, e', new, pointer, maps, -, -, free, -⟩ := copying.copy blocks mem
    obtain ⟨⟨lt, boundPage⟩, -⟩ := mem_copiedPages.mp mem
    refine ⟨x.1, lt, ?_, x.2, boundPage, ⟨e', by rw [pointer]; exact maps.1, ?_⟩, rfl⟩
    · rw [pointer, copying.grows.kernelDir]
      intro same
      have ne := blocks.notNull k new
      rw [same] at ne
      exact mapped.kernelExists x.1 lt ne (same ▸ blocks.noTable k new)
    · intro zero
      rw [zero] at free
      exact Bool.false_ne_true (free.symm.trans mapped.reserved)

theorem Copying.tables_iff :
    (∀ t < tablesPerDir, (s'.dirs newdir).tables t ≠ s'.kernelDir.tables t →
        s'.tables ((s'.dirs newdir).tables t) ≠ none) ↔
      ∀ t < tablesPerDir, s₀.curDir.tables t = 0 → s₀.kernelDir.tables t = 0 := by
  rw [copying.grows.kernelDir]
  constructor
  · intro exists' t lt missing
    have notPrivate : ¬s₀.isPrivate t = true := by
      simp [Paging.isPrivate, (mapped.linked t lt).mpr missing]
    have done := copying.done t lt
    unfold TableDone at done
    rw [if_neg notPrivate, missing] at done
    by_contra kernel
    apply exists' t lt (by rw [done.1]; exact fun zero => kernel zero.symm)
    rw [done.1]
    exact copying.null mapped blocks
  · intro covers t lt own
    have done := copying.done t lt
    unfold TableDone at done
    split at done
    · obtain ⟨k, new, -, pointer, entries⟩ := done
      have copied := entries 0 (by decide)
      intro absent
      have noPage : s'.page? (heap.addr k, 0) = none := by
        unfold Paging.page?
        rw [← pointer, absent]
        rfl
      by_cases source : ∃ e, s₀.Maps (s₀.curDir.tables t, 0) e
      · obtain ⟨e, maps⟩ := source
        obtain ⟨e', maps', -⟩ := copied.present e maps
        exact some_ne_none e' (maps'.1.symm.trans noPage)
      · have empty := copied.absent (not_exists.mp source)
        exact some_ne_none _ (empty.symm.trans noPage)
    · rename_i notPrivate
      rw [done.1] at own
      have missing := mapped.missing lt notPrivate own
      exact absurd (missing.trans (covers t lt missing).symm) own

theorem Copying.undone_iff : Undone heap s₀ s' newdir ↔
      (∀ t < tablesPerDir, s₀.curDir.tables t = 0 → s₀.kernelDir.tables t = 0) ∧
        s₀.copiedPages.image (frameOf s' newdir) = s₀.copiedPages.image pageNumber := by
  constructor
  · rintro ⟨s'', run, marks⟩
    have tables := clearPageDirectory_tables run
    refine ⟨(copying.tables_iff blocks mapped).mp tables, ?_⟩
    obtain ⟨s2, run2, cleared⟩ := clearPageDirectory_cleared tables
    obtain rfl := mem_unique run run2
    apply eq_of_subset_of_card_le
    · intro f mem
      obtain ⟨x, copied, rfl⟩ := mem_image.mp mem
      obtain ⟨k, e', -, -, -, -, frame, free, marked⟩ := copying.copy blocks copied
      have released := marks _ (copying.not_heapTook blocks copied)
      rw [← frame] at free marked
      rw [free] at released
      by_contra notCleared
      rw [← copying.cleared_iff blocks mapped] at notCleared
      have still := (cleared.marks _).mpr ⟨marked, notCleared⟩
      exact Bool.false_ne_true (released.symm.trans still)
    · rw [card_image_of_injOn (copying.frameOf_injOn blocks), card_image_of_injOn pageNumber_injOn]
  · rintro ⟨covers, same⟩
    obtain ⟨s'', run, cleared⟩ :=
      clearPageDirectory_cleared ((copying.tables_iff blocks mapped).mpr covers)
    refine ⟨s'', run, ?_⟩
    intro f data
    rw [Bool.eq_iff_iff, cleared.marks, copying.cleared_iff blocks mapped, ← same]
    constructor
    · rintro ⟨marked, notCopy⟩
      by_contra free
      rcases copying.taken_cases marked (Bool.eq_false_iff.mpr free) with took | copy
      · exact data took
      · exact notCopy copy
    · intro marked
      refine ⟨copying.grows.marks f marked, ?_⟩
      intro copy
      obtain ⟨x, mem, rfl⟩ := mem_image.mp copy
      obtain ⟨k, e', -, -, -, -, frame, free, -⟩ := copying.copy blocks mem
      rw [frame, free] at marked
      exact Bool.false_ne_true marked

end

/-- `clear_page_directory(duplicate_current_page_directory())` restores the bitmap exactly if the
current directory lacks no table of the kernel's and the copies happen to be in the frames numbered
like the copied pages. -/
theorem teardown_iff {s : Paging} (mapped : WellMapped s)
    (blocks : FreshBlocks heap s) (room : framesNeeded heap s ≤ s.frames.freeCount) :
    ∃ s' newdir, duplicateCurrentPageDirectory heap s = some (s', newdir) ∧
      (Undone heap s s' newdir ↔
        (∀ t < tablesPerDir, s.curDir.tables t = 0 → s.kernelDir.tables t = 0) ∧
          s.copiedPages.image (frameOf s' newdir) = s.copiedPages.image pageNumber) := by
  obtain ⟨s', ret, copying⟩ := duplicate_copies mapped blocks room
  exact ⟨s', heap.addr s.calls, ret, copying.undone_iff blocks mapped⟩

theorem teardown_smallSpace : WellMapped (smallSpace 0 9) ∧ FreshBlocks smallHeap (smallSpace 0 9) ∧
      framesNeeded smallHeap (smallSpace 0 9) ≤ (smallSpace 0 9).frames.freeCount ∧
      ((duplicateCurrentPageDirectory smallHeap (smallSpace 0 9)).bind fun r =>
        (clearPageDirectory r.2 r.1).map fun s => (List.range 11).map s.frames.marked) =
        some (List.replicate 9 true ++ [false, false]) ∧
      ∃ s' newdir, duplicateCurrentPageDirectory smallHeap (smallSpace 0 9) = some (s', newdir) ∧
        (Undone smallHeap (smallSpace 0 9) s' newdir ↔
          (∀ t < tablesPerDir, (smallSpace 0 9).curDir.tables t = 0 →
            (smallSpace 0 9).kernelDir.tables t = 0) ∧
          (smallSpace 0 9).copiedPages.image (frameOf s' newdir) =
            (smallSpace 0 9).copiedPages.image pageNumber) := by
  have room : framesNeeded smallHeap (smallSpace 0 9) ≤ (smallSpace 0 9).frames.freeCount := by
    decide +kernel
  have fresh := smallHeap_fresh (t := 0) (j := 9) (by decide +kernel)
  exact ⟨smallSpace_wellMapped 0 9, fresh, room, by decide +kernel,
    teardown_iff (smallSpace_wellMapped 0 9) fresh room⟩

/-- Page 0 of table 1 has number 1024: its copy is in frame 9 and stays marked. -/
theorem teardown_leaks_frame :
    WellMapped (smallSpace 1 0) ∧ FreshBlocks smallHeap (smallSpace 1 0) ∧
      framesNeeded smallHeap (smallSpace 1 0) ≤ (smallSpace 1 0).frames.freeCount ∧
      (smallSpace 1 0).frames.marked 9 = false ∧
      ∃ s' newdir s'', duplicateCurrentPageDirectory smallHeap (smallSpace 1 0) =
        some (s', newdir) ∧
        clearPageDirectory newdir s' = some s'' ∧ frameOf s' newdir (1, 0) = 9 ∧
        s''.frames.marked 9 = true ∧ ¬Undone smallHeap (smallSpace 1 0) s' newdir := by
  have mapped := smallSpace_wellMapped 1 0
  have fresh := smallHeap_fresh (t := 1) (j := 0) (by decide +kernel)
  have room : framesNeeded smallHeap (smallSpace 1 0) ≤ (smallSpace 1 0).frames.freeCount := by
    decide +kernel
  have free : (smallSpace 1 0).frames.marked 9 = false := by decide +kernel
  obtain ⟨s', ret, copying⟩ := duplicate_copies mapped fresh room
  have after : ((duplicateCurrentPageDirectory smallHeap (smallSpace 1 0)).bind fun r =>
      (clearPageDirectory r.2 r.1).map fun s => (frameOf r.1 r.2 (1, 0), s.frames.marked 9)) =
      some (9, true) := by
    decide +kernel
  rw [ret, bind_some, map_eq_some_iff] at after
  obtain ⟨s'', clear, both⟩ := after
  obtain ⟨frame, marked⟩ := Prod.mk.inj both
  refine ⟨mapped, fresh, room, free, s', _, s'', ret, clear, frame, marked, ?_⟩
  rintro ⟨s₂, clear₂, marks⟩
  obtain rfl := mem_unique clear clear₂
  have copied : (1, 0) ∈ (smallSpace 1 0).copiedPages :=
    mem_copiedPages.mpr ⟨⟨by decide, by decide⟩, by decide, ⟨true, true, true, 2⟩, rfl, rfl⟩
  have data := copying.not_heapTook fresh copied
  rw [frame] at data
  exact Bool.false_ne_true (free.symm.trans ((marks 9 data).symm.trans marked))

end

open Function List

/-- Copying a page, with or without a frame for it. Without one it ends up in frame 0, and no entry
changes. -/
theorem PageCopy.spares (heap : Kheap) {addr newdir : Nat} {x b n : PagePtr} {e be : Page}
    (copy : PageCopy addr newdir s x b n e be) :
    ∃ s', copyPage heap addr newdir s = some s' ∧ Spares (fun p => p = n.1) s s' ∧
      s'.dirs = s.dirs ∧ s'.calls = s.calls ∧ ∀ y, y ≠ n → s'.page? y = s.page? y := by
  rcases Nat.eq_zero_or_pos s.frames.freeCount with full | free
  · obtain ⟨tables, ret, pages⟩ := copy.copies heap
      (allocFrameAt_full copy.empty rfl full (!e.user) e.rw) rfl copy.empty fun _ _ => rfl
    refine ⟨_, ret, ?_, rfl, rfl, fun y _ => pages y⟩
    have maps (y : PagePtr) (d : Page) :
        { s with tables := tables : Paging }.Maps y d ↔ s.Maps y d := by
      exact and_congr_left' (Eq.congr_left (pages y))
    constructor
    case current => rfl
    case kernel => rfl
    case curDir => rfl
    case kernelDir => rfl
    case marks => exact fun f marked => marked
    case contents => exact fun f used _ => update_of_ne used ..
    case elsewhere => exact fun y _ => pages y
    case kept => exact fun y d old => (maps y d).mpr old
    case filled => exact fun y d new absent => absurd ((maps y d).mp new) absent
  · obtain ⟨s', e', ret, fills, -⟩ := copy.fills heap free
    refine ⟨s', ret, (fills.grows (not_maps_zero copy.empty)).toSpares, fills.dirs, fills.calls, ?_⟩
    intro y ne
    rw [fills.pages, if_neg ne]

/-- An entry of the kernel heap: it exists, and has a frame when it is present. -/
def Backable (s : Paging) (x : PagePtr) : Prop :=
  ∃ e, s.page? x = some e ∧ (e.present = true → e.frame ≠ 0)

section

variable {H : PagePtr → Prop}

theorem Faults.backable (faults : Faults H s s') (reserved : s.frames.marked 0 = true) {x : PagePtr}
    (backable : Backable s x) : Backable s' x := by
  obtain ⟨e, entry, backed⟩ := backable
  rcases faults.entries x e entry with same | ⟨-, -, e', filled, given⟩
  · exact ⟨e, same, backed⟩
  · exact ⟨e', filled, fun _ => given.frame_ne_zero reserved⟩

theorem Faults.spares (faults : Faults H s s') (backable : ∀ x, H x → Backable s x) :
    Spares (fun p => ∃ j, H (p, j)) s s' where
  current := faults.current
  kernel := faults.kernel
  curDir := faults.curDir
  kernelDir := faults.kernelDir
  marks := faults.marks
  contents := fun f _ _ => congrFun faults.phys f
  elsewhere := by
    intro x away
    cases before : s.page? x with
    | none => exact faults.absent x before
    | some e =>
      rcases faults.entries x e before with same | ⟨mem, -⟩
      · exact same
      · exact absurd ⟨x.2, mem⟩ away
  kept := by
    intro x e maps
    rcases faults.entries x e maps.1 with same | ⟨mem, empty, -⟩
    · exact ⟨same, maps.2⟩
    obtain ⟨d, entry, backed⟩ := backable x mem
    obtain rfl : e = d := mem_unique maps.1 entry
    exact absurd empty (backed maps.2)
  filled := by
    intro x e maps new
    cases before : s.page? x with
    | none => exact absurd ((faults.absent x before).symm.trans maps.1) (some_ne_none e).symm
    | some d =>
      rcases faults.entries x d before with same | ⟨-, -, e', filled, given⟩
      · obtain rfl : d = e := mem_unique same maps.1
        exact absurd ⟨before, maps.2⟩ new
      · obtain rfl : e' = e := mem_unique filled maps.1
        exact ⟨given.free, given.used⟩

end

section

variable {s₀ : Paging}

/-- The entries the kernel heap may fault at. -/
def heapEntry (heap : Kheap) (s₀ : Paging) (x : PagePtr) : Prop :=
  ∃ k, s₀.makesCall k ∧ ∃ addr ∈ touches heap k, x = entryPtr s₀.curDir addr

theorem heapTable_of_heapEntry {p : Nat} :
    (∃ j, heapEntry heap s₀ (p, j)) → heapTable heap s₀ p := by
  rintro ⟨j, k, new, addr, mem, same⟩
  exact ⟨k, new, addr, mem, congrArg Prod.fst same⟩

/-- The new table `p` is filled up to page `j`, as far as there were frames. -/
structure SparingPages (s₁ : Paging) (p j : Nat) (s : Paging) : Prop where
  spares : Spares (fun q => q = p) s₁ s
  dirs : s.dirs = s₁.dirs
  calls : s.calls = s₁.calls
  todo : ∀ k ≥ j, s.page? (p, k) = some Page.zero

variable {s₁ : Paging} {i p newdir : Nat}

theorem copyEntry_spares (mapped : WellMapped s₀) (blocks : FreshBlocks heap s₀)
    (lt : i < tablesPerDir) (isPrivate : s₀.isPrivate i = true)
    (spares1 : Spares (mayGrow heap s₀) s₀ s₁) (newTable : (s₁.dirs newdir).tables i = p)
    (ne : p ≠ 0) (new : mayGrow heap s₀ p) (boundPage : j < pagesPerTable)
    (sparing : SparingPages s₁ p j s) (ret : copyEntry heap newdir i s j = some s') :
    SparingPages s₁ p (j + 1) s' := by
  have spares : Spares (mayGrow heap s₀) s₀ s :=
    spares1.trans (sparing.spares.mono fun q same => same ▸ new)
  have unchanged : s.page? (s₀.curDir.tables i, j) = s₀.page? (s₀.curDir.tables i, j) :=
    spares.elsewhere _ (mapped.private_not_mayGrow blocks lt isPrivate)
  obtain ⟨e, entry⟩ := (mapped.private_table lt isPrivate).2.2 j
  unfold copyEntry at ret
  rw [spares.curDir, unchanged, entry, bind_eq_bind, bind_some] at ret
  split at ret
  · rename_i mem
    obtain ⟨be, buffer⟩ := mapped.bufferPresent
    have copy := mapped.pageCopy lt isPrivate spares.curDir
      ((congrFun sparing.dirs newdir).symm ▸ newTable) ne boundPage ⟨entry, mem⟩ buffer
      spares.kept (sparing.todo j le_rfl)
    obtain ⟨s2, copied, spares2, dirs, calls, others⟩ := copy.spares heap
    rw [copied] at ret
    cases ret
    refine ⟨sparing.spares.trans spares2, dirs.trans sparing.dirs, calls.trans sparing.calls, ?_⟩
    intro k later
    rw [others (p, k) fun same => ne_of_gt later (congrArg Prod.snd same)]
    exact sparing.todo k (Nat.le_of_succ_le later)
  · cases ret
    exact ⟨sparing.spares, sparing.dirs, sparing.calls,
      fun k later => sparing.todo k (Nat.le_of_succ_le later)⟩

/-! ## One table -/

/-- `i` tables of the new directory are done, as far as there were frames. -/
structure Sparing (heap : Kheap) (s₀ : Paging) (newdir i : Nat) (s : Paging) : Prop where
  spares : Spares (mayGrow heap s₀) s₀ s
  calls : s₀.calls < s.calls
  callsLeft : s.calls + s₀.privateTables i = s₀.calls + s₀.privateTables 0 + 1
  backable : ∀ k, s₀.makesCall k → ∀ addr ∈ touches heap k, Backable s (entryPtr s₀.curDir addr)
  fresh : ∀ k ≥ s.calls, s₀.makesCall k → ∀ j, s.page? (heap.addr k, j) = none
  own : ∀ t < i, s₀.isPrivate t = true →
    ∃ k, s₀.makesCall k ∧ (s.dirs newdir).tables t = heap.addr k
  linked : ∀ t < i, s₀.isPrivate t = false → (s.dirs newdir).tables t = s₀.curDir.tables t
  todo : ∀ t ≥ i, (s.dirs newdir).tables t = 0

theorem Sparing.share (sparing : Sparing heap s₀ newdir i s) (lt : i < tablesPerDir)
    (notPrivate : s₀.isPrivate i = false) (dirs : Nat → PageDirectory)
    (current : dirs s.gCurrentDirectory = s.dirs s.gCurrentDirectory)
    (kernel : dirs s.gKernelDirectory = s.dirs s.gKernelDirectory)
    (written : (dirs newdir).tables i = s₀.curDir.tables i)
    (others : ∀ t ≠ i, (dirs newdir).tables t = (s.dirs newdir).tables t) :
    Sparing heap s₀ newdir (i + 1) { s with dirs := dirs } := by
  have left := sparing.callsLeft
  rw [s₀.privateTables_succ lt, notPrivate, if_neg Bool.false_ne_true, zero_add] at left
  have spares : Spares (mayGrow heap s₀) s { s with dirs := dirs } :=
    (Grows.of_dirs current kernel).toSpares
  constructor
  case spares => exact sparing.spares.trans spares
  case calls => exact sparing.calls
  case callsLeft => exact left
  case backable => exact sparing.backable
  case fresh => exact sparing.fresh
  case own =>
    intro t before isPrivate
    rcases Nat.lt_succ_iff_lt_or_eq.mp before with earlier | rfl
    · obtain ⟨k, new, pointer⟩ := sparing.own t earlier isPrivate
      exact ⟨k, new, (others t (ne_of_lt earlier)).trans pointer⟩
    · exact absurd (isPrivate.symm.trans notPrivate) Bool.false_ne_true.symm
  case linked =>
    intro t before shared
    rcases Nat.lt_succ_iff_lt_or_eq.mp before with earlier | rfl
    · exact (others t (ne_of_lt earlier)).trans (sparing.linked t earlier shared)
    · exact written
  case todo =>
    intro t after
    exact (others t (ne_of_gt after)).trans (sparing.todo t (Nat.le_of_succ_le after))

theorem copyTable_prepared (blocks : FreshBlocks heap s₀) {n : Nat}
    (sparing : Sparing heap s₀ newdir n s) (reserved : s₀.frames.marked 0 = true)
    (newdirIs : newdir = heap.addr s₀.calls) (new : s₀.makesCall s.calls)
    (ret : copyTable heap newdir i s = some s') :
    ∃ s₁, (List.range pagesPerTable).foldlM (copyEntry heap newdir i) s₁ = some s' ∧
      Spares (grownBy heap s₀ s.calls) s s₁ ∧ s₁.calls = s.calls + 1 ∧
      (∀ x, x.1 ≠ heap.addr s.calls → Backable s x → Backable s₁ x) ∧
      (∀ j, s₁.page? (heap.addr s.calls, j) = some Page.zero) ∧
      (s₁.dirs newdir).tables = update (s.dirs newdir).tables i (heap.addr s.calls) := by
  have spares := sparing.spares
  have marked := spares.marks 0 reserved
  have listed (addr : Nat) (mem : addr ∈ touches heap s.calls) :
      heapEntry heap s₀ (entryPtr s.curDir addr) := by
    rw [spares.curDir]
    exact ⟨s.calls, new, addr, mem, rfl⟩
  have block : heapEntry heap s₀ (entryPtr s.kernelDir (heap.addr s.calls)) := by
    refine ⟨s.calls, new, _, addr_mem_touches heap s.calls, ?_⟩
    rw [spares.kernelDir]
    exact Prod.ext (blocks.shared _ new _ (addr_mem_touches heap s.calls)).2 rfl
  have backable (x : PagePtr) : heapEntry heap s₀ x → Backable s x := by
    rintro ⟨k, newK, addr, touched, rfl⟩
    exact sparing.backable k newK addr touched
  obtain ⟨⟨s₁, table, phys⟩, malloc, rest⟩ := bind_eq_some_iff.mp ret
  obtain ⟨faults1, calls1, rfl, -⟩ := kmallocBase_faults
    (fun addr mem => listed addr (mem_append_left _ (mem_append_left _ mem))) block
    malloc
  have apart := blocks.newdir_ne spares.current spares.kernel
  rw [← newdirIs, ← faults1.current, ← faults1.kernel] at apart
  have grows2 : Grows (grownBy heap s₀ s.calls) s₁ (s₁.setTable newdir i (heap.addr s.calls)) :=
    Grows.of_dirs (update_of_ne apart.1 ..) (update_of_ne apart.2 ..)
  obtain ⟨s4, memset, loop⟩ := bind_eq_some_iff.mp rest
  obtain ⟨s3, zeroed, last⟩ := bind_eq_some_iff.mp memset
  cases last
  obtain ⟨faults3, calls3⟩ := zeroPages_faults (H := heapEntry heap s₀) (fun addr mem => by
      rw [grows2.curDir, faults1.curDir]
      exact listed addr (mem_append_right _ mem)) zeroed
  have absent3 (j : Nat) : s3.page? (heap.addr s.calls, j) = none :=
    faults3.absent _ (faults1.absent _ (sparing.fresh _ (le_refl _) new j))
  have grows4 := addTable_grows absent3
  have apart3 : s3.gCurrentDirectory ≠ newdir ∧ s3.gKernelDirectory ≠ newdir := by
    rw [faults3.current, faults3.kernel]
    exact apart
  have grows5 (entry : Nat) : Grows (grownBy heap s₀ s.calls) (s3.addTable (heap.addr s.calls))
      ((s3.addTable (heap.addr s.calls)).setTablePhysical newdir i entry) :=
    Grows.of_dirs (update_of_ne apart3.1 ..) (update_of_ne apart3.2 ..)
  have inHeap (p : Nat) (entry : ∃ j, heapEntry heap s₀ (p, j)) : grownBy heap s₀ s.calls p :=
    .inl (heapTable_of_heapEntry entry)
  refine ⟨_, loop, ?_, calls3.trans calls1, ?_, ?_, ?_⟩
  · have spares1 := (faults1.spares backable).mono inHeap
    have spares3 := (faults3.spares fun x entry =>
      faults1.backable marked (backable x entry)).mono inHeap
    exact spares1.trans <| grows2.toSpares.trans <| spares3.trans <|
      (grows4.mono fun _ => .inr).toSpares.trans (grows5 _).toSpares
  · intro x ne lt
    have marked1 : s₁.frames.marked 0 = true := faults1.marks 0 marked
    obtain ⟨e, entry, backed⟩ := faults3.backable marked1 (faults1.backable marked lt)
    refine ⟨e, ?_, backed⟩
    exact (s3.page?_addTable _ x).trans ((if_neg ne).trans entry)
  · intro j
    exact (s3.page?_addTable ..).trans (if_pos rfl)
  · rw [Paging.tables_setTablePhysical, faults3.dirs, Paging.tables_setTable, faults1.dirs]

theorem copyTable_spares (mapped : WellMapped s₀) (blocks : FreshBlocks heap s₀)
    (newdirIs : newdir = heap.addr s₀.calls) (sparing : Sparing heap s₀ newdir i s)
    (lt : i < tablesPerDir) (isPrivate : s₀.isPrivate i = true)
    (ret : copyTable heap newdir i s = some s') : Sparing heap s₀ newdir (i + 1) s' := by
  have started := sparing.calls
  have left := sparing.callsLeft
  rw [s₀.privateTables_succ lt, isPrivate, if_pos rfl] at left
  have new : s₀.makesCall s.calls := ⟨le_of_lt started, by omega⟩
  obtain ⟨s₁, loop, spares1, calls1, backable1, empty, tables1⟩ :=
    copyTable_prepared blocks sparing mapped.reserved newdirIs new ret
  have sub (q : Nat) (grown : grownBy heap s₀ s.calls q) : mayGrow heap s₀ q :=
    grown.imp_right fun same => ⟨s.calls, new, same⟩
  have pages : SparingPages s₁ (heap.addr s.calls) pagesPerTable s' := by
    refine foldlM_range_rounds (SparingPages s₁ (heap.addr s.calls))
      ⟨Spares.refl .., rfl, rfl, fun k _ => empty k⟩ ?_ loop
    intro j t t' boundPage pages round
    exact copyEntry_spares mapped blocks lt isPrivate (sparing.spares.trans (spares1.mono sub))
      (by rw [tables1, update_self]) (blocks.notNull _ new) (.inr ⟨s.calls, new, rfl⟩)
      boundPage pages round
  have spares : Spares (grownBy heap s₀ s.calls) s s' :=
    spares1.trans (pages.spares.mono fun _ same => .inr same)
  have tables (t : Nat) : (s'.dirs newdir).tables t =
      update (s.dirs newdir).tables i (heap.addr s.calls) t := by
    rw [pages.dirs, tables1]
  have others (t : Nat) (ne : t ≠ i) : (s'.dirs newdir).tables t = (s.dirs newdir).tables t :=
    (tables t).trans (update_of_ne ne ..)
  have calls : s'.calls = s.calls + 1 := pages.calls.trans calls1
  constructor
  case spares => exact sparing.spares.trans (spares.mono sub)
  case calls => omega
  case callsLeft => omega
  case backable =>
    intro k newK addr mem
    have ne : (entryPtr s₀.curDir addr).1 ≠ heap.addr s.calls := fun same =>
      blocks.not_heapTable new ⟨k, newK, addr, mem, same.symm⟩
    unfold Backable
    rw [pages.spares.elsewhere _ ne]
    exact backable1 _ ne (sparing.backable k newK addr mem)
  case fresh =>
    intro l later newL j
    rw [spares.elsewhere _ (blocks.not_grownBy new newL (by omega))]
    exact sparing.fresh l (by omega) newL j
  case own =>
    intro t before privateT
    rcases Nat.lt_succ_iff_lt_or_eq.mp before with earlier | rfl
    · obtain ⟨k, newK, pointer⟩ := sparing.own t earlier privateT
      exact ⟨k, newK, (others t (ne_of_lt earlier)).trans pointer⟩
    · exact ⟨s.calls, new, (tables t).trans (update_self ..)⟩
  case linked =>
    intro t before shared
    rcases Nat.lt_succ_iff_lt_or_eq.mp before with earlier | rfl
    · exact (others t (ne_of_lt earlier)).trans (sparing.linked t earlier shared)
    · exact absurd (isPrivate.symm.trans shared) Bool.false_ne_true.symm
  case todo =>
    intro t after
    exact (others t (ne_of_gt after)).trans (sparing.todo t (Nat.le_of_succ_le after))

/-! ## All tables -/

theorem duplicateTable_spares (mapped : WellMapped s₀) (blocks : FreshBlocks heap s₀)
    (newdirIs : newdir = heap.addr s₀.calls) (sparing : Sparing heap s₀ newdir i s)
    (lt : i < tablesPerDir) (ret : duplicateTable heap newdir s i = some s') :
    Sparing heap s₀ newdir (i + 1) s' := by
  have apart := blocks.newdir_ne sparing.spares.current sparing.spares.kernel
  rw [← newdirIs] at apart
  unfold duplicateTable at ret
  rw [sparing.spares.curDir, sparing.spares.kernelDir] at ret
  split at ret
  · rename_i used
    split at ret
    · rename_i shared
      cases ret
      have notPrivate : s₀.isPrivate i = false := by simp [Paging.isPrivate, shared]
      obtain ⟨kept, written, others⟩ := linkTable_spec i apart
      rw [sparing.spares.curDir] at written
      exact sparing.share lt notPrivate _ kept.1 kept.2 written.1 fun t ne =>
        (others t ne).1
    · rename_i own
      have isPrivate : s₀.isPrivate i = true := by simp [Paging.isPrivate, used, own]
      exact copyTable_spares mapped blocks newdirIs sparing lt isPrivate ret
  · rename_i unused
    cases ret
    have none : s₀.curDir.tablesPhysical i = 0 := Decidable.not_not.mp unused
    have notPrivate : s₀.isPrivate i = false := by simp [Paging.isPrivate, none]
    apply sparing.share lt notPrivate s.dirs rfl rfl
    · rw [sparing.todo i le_rfl, (mapped.linked i lt).mp none]
    · exact fun _ _ => rfl

theorem duplicate_prepared (blocks : FreshBlocks heap s₀) (reserved : s₀.frames.marked 0 = true)
    (ret : duplicateCurrentPageDirectory heap s₀ = some (s', newdir)) :
    newdir = heap.addr s₀.calls ∧ ∃ s,
      (List.range tablesPerDir).foldlM (duplicateTable heap newdir) s = some s' ∧
        Sparing heap s₀ newdir 0 s := by
  have first := s₀.makesCall_first
  have listed (addr : Nat) (mem : addr ∈ touches heap s₀.calls) :
      heapEntry heap s₀ (entryPtr s₀.curDir addr) := ⟨s₀.calls, first, addr, mem, rfl⟩
  have block : heapEntry heap s₀ (entryPtr s₀.kernelDir (heap.addr s₀.calls)) :=
    ⟨s₀.calls, first, _, addr_mem_touches heap s₀.calls,
      Prod.ext (blocks.shared _ first _ (addr_mem_touches heap s₀.calls)).2 rfl⟩
  have backable (x : PagePtr) : heapEntry heap s₀ x → Backable s₀ x := by
    rintro ⟨k, new, addr, touched, rfl⟩
    exact blocks.pages k new addr touched
  obtain ⟨⟨s₁, table, phys⟩, malloc, rest⟩ := bind_eq_some_iff.mp ret
  obtain ⟨faults1, calls1, rfl, -⟩ := kmallocBase_faults
    (fun addr mem => listed addr (mem_append_left _ (mem_append_left _ mem))) block
    malloc
  obtain ⟨s3, memset, rest⟩ := bind_eq_some_iff.mp rest
  obtain ⟨s2, zeroed, last⟩ := bind_eq_some_iff.mp memset
  cases last
  obtain ⟨faults2, calls2⟩ := zeroPages_faults (H := heapEntry heap s₀) (fun addr mem => by
      rw [faults1.curDir]
      exact listed addr (mem_append_right _ mem)) zeroed
  have faults := faults1.trans faults2
  have spares : Spares (mayGrow heap s₀) s₀ s2 :=
    (faults.spares backable).mono fun _ entry => .inl (heapTable_of_heapEntry entry)
  obtain ⟨s4, loop, last⟩ := bind_eq_some_iff.mp rest
  cases last
  refine ⟨rfl, _, loop, ?_⟩
  have calls : s2.calls = s₀.calls + 1 := calls2.trans calls1
  have ne := blocks.newdir_ne spares.current spares.kernel
  constructor
  case spares =>
    refine spares.trans (Grows.of_dirs ?_ ?_).toSpares
    · exact (update_of_ne ne.1 ..).trans (update_of_ne ne.1 ..)
    · exact (update_of_ne ne.2 ..).trans (update_of_ne ne.2 ..)
  case calls => exact Nat.lt_of_lt_of_eq (Nat.lt_succ_self _) calls.symm
  case callsLeft =>
    have counted : s2.calls + s₀.privateTables 0 = s₀.calls + s₀.privateTables 0 + 1 := by omega
    exact counted
  case backable =>
    exact fun k new addr mem => faults.backable reserved (blocks.pages k new addr mem)
  case fresh => exact fun k _ new j => faults.absent _ (blocks.page?_eq_none new j)
  case own => exact fun t lt => absurd lt (Nat.not_lt_zero t)
  case linked => exact fun t lt => absurd lt (Nat.not_lt_zero t)
  case todo =>
    intro t _
    simp only [update_self]
    rfl

/-- However few frames there are: a copy that returns has changed no used frame but frame 0, the
present entries of the tables it made have frames it took, and the other tables are those of the
current directory. -/
theorem duplicate_spares (mapped : WellMapped s₀) (blocks : FreshBlocks heap s₀) {s' : Paging}
    (result : duplicateCurrentPageDirectory heap s₀ = some (s', newdir)) :
    (∀ f, f ≠ 0 → s₀.frames.marked f = true → s'.phys f = s₀.phys f) ∧
      (∀ i < tablesPerDir, s₀.isPrivate i = true → ∀ j e,
        s'.Maps ((s'.dirs newdir).tables i, j) e →
          e.frame ≠ 0 ∧ s₀.frames.marked e.frame.toNat = false ∧
            s'.frames.marked e.frame.toNat = true) ∧
      ∀ i < tablesPerDir, s₀.isPrivate i = false →
        (s'.dirs newdir).tables i = s₀.curDir.tables i := by
  obtain ⟨newdirIs, s, loop, start⟩ := duplicate_prepared blocks mapped.reserved result
  have sparing : Sparing heap s₀ newdir tablesPerDir s' :=
    foldlM_range_rounds (Sparing heap s₀ newdir) start (fun i t t' lt sparing round =>
        duplicateTable_spares mapped blocks newdirIs sparing lt round) loop
  refine ⟨sparing.spares.contents, ?_, sparing.linked⟩
  intro i lt isPrivate j e maps
  obtain ⟨k, new, pointer⟩ := sparing.own i lt isPrivate
  rw [pointer] at maps
  -- the table did not exist before, so the entry is new
  have absent : ¬s₀.Maps (heap.addr k, j) e := by
    intro old
    exact some_ne_none e (old.1.symm.trans (blocks.page?_eq_none new j))
  have filled := sparing.spares.filled _ _ maps absent
  refine ⟨?_, filled⟩
  intro zero
  have free := filled.1
  rw [zero] at free
  exact Bool.false_ne_true (free.symm.trans mapped.reserved)

end

theorem WellMapped.of_marks (mapped : WellMapped s) {frames : Frames}
    (marks : ∀ f, s.frames.marked f = true → frames.marked f = true) :
    WellMapped { s with frames := frames } :=
  { mapped with
    reserved := marks 0 mapped.reserved
    mapped := fun i lt j boundPage e maps => marks _ (mapped.mapped i lt j boundPage e maps) }

theorem FreshBlocks.of_frames (blocks : FreshBlocks heap s) (frames : Frames) :
    FreshBlocks heap { s with frames := frames } :=
  { blocks with }

/-- Of the 64 frames only the last one is free. -/
def scarceFrames : Frames :=
  { smallFrames with gFrames := fun i => if i = 1 then 0x7FFFFFFF#32 else 0xFFFFFFFF#32 }

/-- The small address space with one free frame for its two private pages. -/
def scarceSpace : Paging := { smallSpace 1 0 with frames := scarceFrames }

theorem scarceFrames_marked (marked : smallFrames.marked f = true) :
    scarceFrames.marked f = true := by
  unfold Frames.marked Words.mem at *
  by_cases first : f / 32 = 0
  · have word : scarceFrames.gFrames (f / 32) = BitVec.allOnes 32 := by rw [first]; rfl
    rw [word, BitVec.getLsbD_allOnes]
    exact decide_eq_true (Nat.mod_lt f (by decide))
  · have word : smallFrames.gFrames (f / 32) = 0#32 := if_neg first
    simp [word] at marked

theorem scarceSpace_wellMapped : WellMapped scarceSpace :=
  (smallSpace_wellMapped 1 0).of_marks fun _ => scarceFrames_marked

theorem scarceSpace_fresh : FreshBlocks smallHeap scarceSpace :=
  (smallHeap_fresh (t := 1) (j := 0) (by decide +kernel)).of_frames scarceFrames

theorem scarceSpace_short : scarceSpace.frames.freeCount < framesNeeded smallHeap scarceSpace := by
  decide +kernel

/-- The first private page gets the last frame; the second one is written over frame 0. -/
theorem duplicate_scarceSpace :
    ∃ s' newdir, duplicateCurrentPageDirectory smallHeap scarceSpace = some (s', newdir) ∧
      s'.phys 0 0 = 8 ∧ s'.page? ((s'.dirs newdir).tables 1, 0) = some ⟨true, true, true, 63⟩ ∧
      s'.page? ((s'.dirs newdir).tables 4, 0x100) = some ⟨true, false, false, 1⟩ := by
  have run : (duplicateCurrentPageDirectory smallHeap scarceSpace).map (fun r =>
      (r.1.phys 0 0, r.1.page? ((r.1.dirs r.2).tables 1, 0),
        r.1.page? ((r.1.dirs r.2).tables 4, 0x100))) =
      some (8, some ⟨true, true, true, 63⟩, some ⟨true, false, false, 1⟩) := by decide +kernel
  obtain ⟨⟨s', newdir⟩, ret, observed⟩ := map_eq_some_iff.mp run
  simp only [Prod.mk.injEq] at observed
  exact ⟨s', newdir, ret, observed⟩

theorem duplicate_spares_scarce :
    scarceSpace.frames.freeCount < framesNeeded smallHeap scarceSpace ∧
    ∃ s' newdir, duplicateCurrentPageDirectory smallHeap scarceSpace = some (s', newdir) ∧
      (∀ f, f ≠ 0 → scarceSpace.frames.marked f = true → s'.phys f = scarceSpace.phys f) ∧
      s'.Maps ((s'.dirs newdir).tables 1, 0) ⟨true, true, true, 63⟩ ∧
      scarceSpace.frames.marked 63 = false ∧ s'.frames.marked 63 = true ∧
      ∀ i < tablesPerDir, scarceSpace.isPrivate i = false →
        (s'.dirs newdir).tables i = scarceSpace.curDir.tables i := by
  obtain ⟨s', newdir, ret, -, copied, -⟩ := duplicate_scarceSpace
  obtain ⟨contents, own, linked⟩ := duplicate_spares scarceSpace_wellMapped scarceSpace_fresh ret
  obtain ⟨-, free, marked⟩ := own 1 (by decide) (by decide) 0 _ ⟨copied, rfl⟩
  exact ⟨scarceSpace_short, s', newdir, ret, contents, ⟨copied, rfl⟩, free, marked, linked⟩

theorem duplicate_scarce_overwrites : WellMapped scarceSpace ∧ FreshBlocks smallHeap scarceSpace ∧
      scarceSpace.frames.freeCount < framesNeeded smallHeap scarceSpace ∧
      ∃ s' newdir, duplicateCurrentPageDirectory smallHeap scarceSpace = some (s', newdir) ∧
        scarceSpace.frames.marked 0 = true ∧ s'.phys 0 0 ≠ scarceSpace.phys 0 0 ∧
        scarceSpace.frames.marked 1 = true ∧
        s'.Maps ((s'.dirs newdir).tables 4, 0x100) ⟨true, false, false, 1⟩ := by
  obtain ⟨s', newdir, ret, byte, -, buffer⟩ := duplicate_scarceSpace
  refine ⟨scarceSpace_wellMapped, scarceSpace_fresh, scarceSpace_short, s', newdir, ret,
    by decide +kernel, ?_, by decide +kernel, buffer, rfl⟩
  rw [byte]
  decide +kernel

end Yanix.Mm
