/-
Module: Yanix.Proofs.PageEntries
Purpose: A directory as a map from page numbers to entries, where a missing table counts
  as empty ones, and what `get_page` changes in that view.
-/
import Yanix.Proofs.DirectoryCopy

namespace Yanix.Mm

open Foundation Function List Option

variable {dir : Nat} {e : Page} {heap : Kheap} {pages : List Nat}
variable {s : Paging} {dir : Nat} {heap : Kheap} {Q : Nat → Prop} {s s' : Paging}

/-- Number of pages in the address space. -/
def pageCount : Nat := tablesPerDir * pagesPerTable

/-- The table and the index of a page number. -/
theorem entryPtr_number (d : PageDirectory) (page : Nat) : entryPtr d (page * 0x1000) =
      (d.tables (page / pagesPerTable), page % pagesPerTable) := by
  unfold entryPtr
  rw [Nat.mul_div_cancel _ (by decide)]

variable {addr page n : Nat}

theorem entryPtr_of_page (d : PageDirectory) (inPage : addr / 0x1000 = page) :
    entryPtr d addr = entryPtr d (page * 0x1000) := by
  rw [entryPtr_number, ← inPage]
  rfl

theorem table_lt (bound : page < pageCount) :
    page / pagesPerTable < tablesPerDir := by
  apply (Nat.div_lt_iff_lt_mul (by decide)).mpr
  exact bound

/-- The entry of a page; a missing table has empty entries. -/
def Paging.entry (s : Paging) (dir page : Nat) : Page :=
  (s.page? (entryPtr (s.dirs dir) (page * 0x1000))).getD Page.zero

theorem Paging.entry_of_page?
    (found : s.page? (entryPtr (s.dirs dir) (page * 0x1000)) = some e) : s.entry dir page = e := by
  unfold entry
  rw [found, getD_some]

theorem Paging.entry_of_null (null : s.tables 0 = none)
    (missing : (s.dirs dir).tables (page / pagesPerTable) = 0) :
    s.entry dir page = Page.zero := by
  unfold entry page?
  rw [entryPtr_number, missing, null]
  rfl

/-- The tables of the directory exist and are different ones. -/
structure DirSound (dir : Nat) (s : Paging) : Prop where
  null : s.tables 0 = none
  tables : ∀ t < tablesPerDir, (s.dirs dir).tables t ≠ 0 →
    s.tables ((s.dirs dir).tables t) ≠ none
  injective : ∀ t < tablesPerDir, ∀ u < tablesPerDir,
    (s.dirs dir).tables t ≠ 0 → (s.dirs dir).tables t = (s.dirs dir).tables u → t = u

variable {other : Nat}

namespace DirSound

theorem page?_entry (sound : DirSound dir s) (bound : page < pageCount)
    (table : (s.dirs dir).tables (page / pagesPerTable) ≠ 0) :
    s.page? (entryPtr (s.dirs dir) (page * 0x1000)) = some (s.entry dir page) := by
  obtain ⟨content, found⟩ := ne_none_iff_exists'.mp (sound.tables _ (table_lt bound) table)
  have entry : s.page? (entryPtr (s.dirs dir) (page * 0x1000)) =
      some (content (page % pagesPerTable)) := by
    unfold Paging.page?
    rw [entryPtr_number, found]
    rfl
  rw [entry, s.entry_of_page? entry]

/-- Different pages have different entries. -/
theorem page_eq (sound : DirSound dir s) (bound : page < pageCount) (boundOther : other < pageCount)
    (table : (s.dirs dir).tables (page / pagesPerTable) ≠ 0)
    (same : entryPtr (s.dirs dir) (page * 0x1000) = entryPtr (s.dirs dir) (other * 0x1000)) :
    page = other := by
  rw [entryPtr_number, entryPtr_number, Prod.mk.injEq] at same
  have sameTable := sound.injective _ (table_lt bound) _ (table_lt boundOther) table same.1
  rw [← Nat.div_add_mod page pagesPerTable, sameTable, same.2, Nat.div_add_mod]

end DirSound

/-- Tables a directory does not have. -/
def emptyTables (d : PageDirectory) : Finset Nat :=
  (Finset.range tablesPerDir).filter fun t => d.tables t = 0

/-- Calls of `kmalloc_base` there can still be: one for each missing table. -/
def Paging.mayCall (s : Paging) (dir k : Nat) : Prop :=
  s.calls ≤ k ∧ k < s.calls + (emptyTables (s.dirs dir)).card

/-- The kernel heap returns new blocks. Its own pages are mapped by tables that the current and the
kernel directory share; `Q` holds of those that `dir` has as well. -/
structure NewBlocks (heap : Kheap) (dir : Nat) (Q : Nat → Prop) (s : Paging) : Prop where
  notNull : ∀ k, s.mayCall dir k → heap.addr k ≠ 0
  noTable : ∀ k, s.mayCall dir k → s.tables (heap.addr k) = none
  distinct : ∀ k l, s.mayCall dir k → s.mayCall dir l → heap.addr k = heap.addr l → k = l
  shared : ∀ k, s.mayCall dir k → ∀ addr ∈ touches heap k,
    entryPtr s.kernelDir addr = entryPtr s.curDir addr
  pages : ∀ k, s.mayCall dir k → ∀ addr ∈ touches heap k,
    ∃ e, s.page? (entryPtr s.curDir addr) = some e
  listed : ∀ k, s.mayCall dir k → ∀ addr ∈ touches heap k, ∀ page < pageCount,
    entryPtr (s.dirs dir) (page * 0x1000) = entryPtr s.curDir addr → Q page

/-! ## A new table -/

/-- `alloc_page_table` has put an empty table at index `i` of the directory. -/
structure AddsTable (heap : Kheap) (dir i : Nat) (s s' : Paging) : Prop where
  calls : s'.calls = s.calls + 1
  current : s'.gCurrentDirectory = s.gCurrentDirectory
  kernel : s'.gKernelDirectory = s.gKernelDirectory
  nframes : s'.frames.gNframes = s.frames.gNframes
  phys : s'.phys = s.phys
  marks : ∀ f, s.frames.marked f = true → s'.frames.marked f = true
  tables : ∀ d, (s'.dirs d).tables =
    if d = dir then update (s.dirs d).tables i (heap.addr s.calls) else (s.dirs d).tables
  empty : ∀ j, s'.page? (heap.addr s.calls, j) = some Page.zero
  absent : ∀ x : PagePtr, x.1 ≠ heap.addr s.calls → s.page? x = none → s'.page? x = none
  entries : ∀ x e, s.page? x = some e → s'.page? x = some e ∨
    (∃ addr ∈ touches heap s.calls, x = entryPtr s.curDir addr) ∧ e.frame = 0 ∧
      ∃ e', s'.page? x = some e' ∧ Given e' s.frames s'.frames

variable {d d' : PageDirectory}

theorem entryPtr_update {i table : Nat} (missing : d.tables i = 0) (used : (entryPtr d addr).1 ≠ 0)
    (tables : d'.tables = update d.tables i table) :
    entryPtr d' addr = entryPtr d addr := by
  unfold entryPtr
  rw [tables, update_of_ne]
  intro same
  exact used ((congrArg d.tables same).trans missing)

variable {k t : Nat} {s1 : Paging} {x : PagePtr}

section

variable {dir i : Nat}

theorem NewBlocks.used (blocks : NewBlocks heap dir Q s) (null : s.tables 0 = none)
    (call : s.mayCall dir k) (mem : addr ∈ touches heap k) :
    (entryPtr s.curDir addr).1 ≠ 0 := by
  obtain ⟨e, entry⟩ := blocks.pages k call addr mem
  exact table_ne_zero null entry

theorem mayCall_first (bound : i < tablesPerDir) (missing : (s.dirs dir).tables i = 0) :
    s.mayCall dir s.calls := by
  refine ⟨le_rfl, Nat.lt_add_of_pos_right ?_⟩
  apply Finset.card_pos.mpr
  exact ⟨i, Finset.mem_filter.mpr ⟨Finset.mem_range.mpr bound, missing⟩⟩

theorem NewBlocks.next_entry (blocks : NewBlocks heap dir Q s)
    (bound : i < tablesPerDir)
    (missing : (s.dirs dir).tables i = 0) (j : Nat) : s.page? (heap.addr s.calls, j) = none := by
  unfold Paging.page?
  rw [blocks.noTable _ (mayCall_first bound missing)]
  rfl

theorem NewBlocks.table_ne_next (blocks : NewBlocks heap dir Q s) (sound : DirSound dir s)
    (bound : i < tablesPerDir) (missing : (s.dirs dir).tables i = 0)
    (boundT : t < tablesPerDir) (table : (s.dirs dir).tables t ≠ 0) :
    (s.dirs dir).tables t ≠ heap.addr s.calls := by
  intro same
  apply sound.tables t boundT table
  rw [same]
  exact blocks.noTable _ (mayCall_first bound missing)

theorem entryPtr_setTable {table d : Nat} (dirs : s1.dirs = s.dirs)
    (missing : (s.dirs dir).tables i = 0) (used : (entryPtr (s.dirs d) addr).1 ≠ 0) :
    entryPtr ((s1.setTable dir i table).dirs d) addr = entryPtr (s.dirs d) addr := by
  by_cases here : d = dir
  · subst here
    apply entryPtr_update missing used
    rw [Paging.tables_setTable, dirs]
  · rw [s1.dirs_setTable_of_ne here, dirs]

/-- Whatever the kernel heap needs for its block, one empty table is added. -/
theorem allocPageTable_adds (blocks : NewBlocks heap dir Q s) (null : s.tables 0 = none)
    (bound : i < tablesPerDir) (missing : (s.dirs dir).tables i = 0) {flags : Nat}
    (ret : allocPageTable heap i flags dir s = some s') : AddsTable heap dir i s s' := by
  have call := mayCall_first bound missing
  have used (addr : Nat) (touched : addr ∈ touches heap s.calls) := blocks.used null call touched
  obtain ⟨⟨s1, table, phys⟩, malloc, rest⟩ := bind_eq_some_iff.mp ret
  let H : PagePtr → Prop := fun x => ∃ addr ∈ touches heap s.calls, x = entryPtr s.curDir addr
  obtain ⟨faults1, calls1, rfl, -⟩ := kmallocBase_faults (H := H)
    (fun addr mem => ⟨addr, mem_append_left _ (mem_append_left _ mem), rfl⟩)
    ⟨_, addr_mem_touches heap s.calls,
      blocks.shared _ call _ (addr_mem_touches heap s.calls)⟩ malloc
  obtain ⟨s4, memset, last⟩ := bind_eq_some_iff.mp rest
  cases last
  obtain ⟨s3, zeroed, last⟩ := bind_eq_some_iff.mp memset
  cases last
  have here2 (addr : Nat) (touched : addr ∈ touches heap s.calls) :
      entryPtr (s1.setTable dir i (heap.addr s.calls)).curDir addr =
        entryPtr s.curDir addr := by
    have moved : (s1.setTable dir i (heap.addr s.calls)).curDir =
        (s1.setTable dir i (heap.addr s.calls)).dirs s.gCurrentDirectory :=
      congrArg (s1.setTable dir i (heap.addr s.calls)).dirs faults1.current
    rw [moved]
    exact entryPtr_setTable faults1.dirs missing (used addr touched)
  obtain ⟨faults3, calls3⟩ := zeroPages_faults (H := H)
    (fun addr mem => ⟨addr, mem_append_right _ mem, here2 addr (mem_append_right _ mem)⟩) zeroed
  have faults : Faults H s1 { s1 with tables := s3.tables, frames := s3.frames } :=
    ⟨rfl, rfl, rfl, faults3.nframes, rfl, faults3.marks, faults3.absent, faults3.entries⟩
  have both := faults1.trans faults
  have noTable : s.tables (heap.addr s.calls) = none := blocks.noTable _ call
  constructor
  case calls => exact calls3.trans calls1
  case current => exact faults3.current.trans faults1.current
  case kernel => exact faults3.kernel.trans faults1.kernel
  case nframes => exact both.nframes
  case phys => exact faults3.phys.trans faults1.phys
  case marks => exact both.marks
  case tables =>
    intro d
    rw [Paging.tables_setTablePhysical, faults3.dirs]
    split
    · rename_i here
      rw [here, Paging.tables_setTable, faults1.dirs]
    · rename_i other
      rw [s1.dirs_setTable_of_ne other, faults1.dirs]
  case empty =>
    intro j
    exact (s3.page?_addTable ..).trans (if_pos rfl)
  case absent =>
    intro x other absent
    exact (s3.page?_addTable _ x).trans ((if_neg other).trans (both.absent x absent))
  case entries =>
    intro x e entry
    have other : x.1 ≠ heap.addr s.calls := by
      intro same
      unfold Paging.page? at entry
      rw [same, noTable] at entry
      exact some_ne_none e entry.symm
    have later (d : Page) (found : s3.page? x = some d) :
        (s3.addTable (heap.addr s.calls)).page? x = some d :=
      (s3.page?_addTable _ x).trans ((if_neg other).trans found)
    rcases both.entries x e entry with same | ⟨listed, empty, e', filled, given⟩
    · exact .inl (later e same)
    · exact .inr ⟨listed, empty, e', later e' filled, given⟩

namespace AddsTable

variable (adds : AddsTable heap dir i s s') (sound : DirSound dir s)
  (blocks : NewBlocks heap dir Q s) (bound : i < tablesPerDir) (missing : (s.dirs dir).tables i = 0)
include adds

theorem exists_entry (entry : s.page? x = some e) : ∃ e', s'.page? x = some e' := by
  rcases adds.entries x e entry with same | ⟨-, -, e', filled, -⟩
  · exact ⟨e, same⟩
  · exact ⟨e', filled⟩

theorem tables_here : (s'.dirs dir).tables i = heap.addr s.calls := by
  rw [adds.tables, if_pos rfl, update_self]

theorem tables_other (other : t ≠ i) : (s'.dirs dir).tables t = (s.dirs dir).tables t := by
  rw [adds.tables, if_pos rfl, update_of_ne other]

include missing in
/-- Entries of tables that exist stay where they are. -/
theorem entryPtr_used {d : Nat} (used : (entryPtr (s.dirs d) addr).1 ≠ 0) :
    entryPtr (s'.dirs d) addr = entryPtr (s.dirs d) addr := by
  have tables := adds.tables d
  split at tables
  · rename_i here
    subst here
    exact entryPtr_update missing used tables
  · unfold entryPtr
    rw [tables]

include sound blocks bound missing in
theorem null_after : s'.tables 0 = none := by
  have none : s.page? (0, 0) = none := by
    unfold Paging.page?
    rw [sound.null]
    rfl
  have other := blocks.notNull _ (mayCall_first bound missing)
  exact map_eq_none_iff.mp (adds.absent (0, 0) other.symm none)

include sound blocks bound missing in
/-- The directory stays well formed. -/
theorem sound_after : DirSound dir s' := by
  refine ⟨adds.null_after sound blocks bound missing, ?_, ?_⟩
  · intro t boundT table absent
    have noEntry : s'.page? ((s'.dirs dir).tables t, 0) = none := by
      unfold Paging.page?
      rw [absent]
      rfl
    by_cases here : t = i
    · rw [here, adds.tables_here, adds.empty 0] at noEntry
      exact some_ne_none _ noEntry
    rw [adds.tables_other here] at table noEntry
    obtain ⟨content, found⟩ := ne_none_iff_exists'.mp (sound.tables t boundT table)
    have entry : s.page? ((s.dirs dir).tables t, 0) = some (content 0) := by
      unfold Paging.page?
      rw [found]
      rfl
    obtain ⟨e', later⟩ := adds.exists_entry entry
    exact some_ne_none e' (later.symm.trans noEntry)
  · intro t boundT u boundU table same
    have new := blocks.notNull _ (mayCall_first bound missing)
    by_cases hereT : t = i <;> by_cases hereU : u = i
    · rw [hereT, hereU]
    · rw [hereT, adds.tables_here, adds.tables_other hereU] at same
      exact absurd same.symm (blocks.table_ne_next sound bound missing boundU (same ▸ new))
    · rw [hereU, adds.tables_here, adds.tables_other hereT] at same
      rw [adds.tables_other hereT] at table
      exact absurd same (blocks.table_ne_next sound bound missing boundT table)
    · rw [adds.tables_other hereT, adds.tables_other hereU] at same
      rw [adds.tables_other hereT] at table
      exact sound.injective t boundT u boundU table same

theorem emptyTables_after (ne : heap.addr s.calls ≠ 0) :
    emptyTables (s'.dirs dir) = (emptyTables (s.dirs dir)).erase i := by
  ext t
  unfold emptyTables
  by_cases here : t = i
  · simp [here, adds.tables_here, ne]
  · simp [here, adds.tables_other here]

include blocks bound missing in
/-- One call fewer can follow. -/
theorem mayCall_before (call : s'.mayCall dir k) : s.mayCall dir k ∧ k ≠ s.calls := by
  obtain ⟨low, high⟩ := call
  have mem : i ∈ emptyTables (s.dirs dir) :=
    Finset.mem_filter.mpr ⟨Finset.mem_range.mpr bound, missing⟩
  have one := Finset.card_erase_add_one mem
  rw [adds.emptyTables_after (blocks.notNull _ (mayCall_first bound missing)), adds.calls] at high
  rw [adds.calls] at low
  refine ⟨⟨by omega, by omega⟩, by omega⟩

include sound blocks bound missing in
/-- The blocks still to come are new ones as before. -/
theorem blocks_after : NewBlocks heap dir Q s' := by
  have first : s.mayCall dir s.calls := mayCall_first bound missing
  have current (k : Nat) (call : s.mayCall dir k) (addr : Nat) (touched : addr ∈ touches heap k) :
      entryPtr s'.curDir addr = entryPtr s.curDir addr := by
    unfold Paging.curDir
    rw [adds.current]
    exact adds.entryPtr_used missing (blocks.used sound.null call touched)
  have kernel (k : Nat) (call : s.mayCall dir k) (addr : Nat) (touched : addr ∈ touches heap k) :
      entryPtr s'.kernelDir addr = entryPtr s.kernelDir addr := by
    unfold Paging.kernelDir
    rw [adds.kernel]
    apply adds.entryPtr_used missing
    have shared : entryPtr (s.dirs s.gKernelDirectory) addr = _ := blocks.shared k call addr touched
    rw [shared]
    exact blocks.used sound.null call touched
  constructor
  case notNull =>
    intro k call
    exact blocks.notNull k (adds.mayCall_before blocks bound missing call).1
  case noTable =>
    intro k call
    obtain ⟨lt, later⟩ := adds.mayCall_before blocks bound missing call
    have other : heap.addr k ≠ heap.addr s.calls := fun same =>
      later (blocks.distinct k _ lt first same)
    have none : s.page? (heap.addr k, 0) = none := by
      unfold Paging.page?
      rw [blocks.noTable k lt]
      rfl
    exact map_eq_none_iff.mp (adds.absent (heap.addr k, 0) other none)
  case distinct =>
    intro k l callK callL same
    exact blocks.distinct k l (adds.mayCall_before blocks bound missing callK).1
      (adds.mayCall_before blocks bound missing callL).1 same
  case shared =>
    intro k call addr touched
    have old := (adds.mayCall_before blocks bound missing call).1
    rw [kernel k old addr touched, current k old addr touched]
    exact blocks.shared k old addr touched
  case pages =>
    intro k call addr touched
    have old := (adds.mayCall_before blocks bound missing call).1
    rw [current k old addr touched]
    obtain ⟨e, entry⟩ := blocks.pages k old addr touched
    exact adds.exists_entry entry
  case listed =>
    intro k call addr touched page boundPage same
    have old := (adds.mayCall_before blocks bound missing call).1
    rw [current k old addr touched] at same
    obtain ⟨e, entry⟩ := blocks.pages k old addr touched
    by_cases here : page / pagesPerTable = i
    · -- the heap's entries were there before the new table
      rw [entryPtr_number, here, adds.tables_here] at same
      rw [← same, blocks.next_entry bound missing] at entry
      exact absurd entry.symm (some_ne_none e)
    · apply blocks.listed k old addr touched page boundPage
      rw [entryPtr_number, ← adds.tables_other here, ← same, entryPtr_number]

include sound blocks bound missing in
/-- No entry changes but those of pages of the kernel heap. -/
theorem entry_after (boundPage : page < pageCount) : s'.entry dir page = s.entry dir page ∨
      Q page ∧ (s.entry dir page).frame = 0 ∧ Given (s'.entry dir page) s.frames s'.frames := by
  by_cases here : page / pagesPerTable = i
  · left
    rw [s.entry_of_null sound.null (by rw [here]; exact missing)]
    apply s'.entry_of_page?
    rw [entryPtr_number, here, adds.tables_here]
    exact adds.empty _
  have pointer : entryPtr (s'.dirs dir) (page * 0x1000) =
    entryPtr (s.dirs dir) (page * 0x1000) := by
    rw [entryPtr_number, entryPtr_number, adds.tables_other here]
  by_cases table : (s.dirs dir).tables (page / pagesPerTable) = 0
  · left
    rw [s.entry_of_null sound.null table]
    exact s'.entry_of_null (adds.null_after sound blocks bound missing)
      ((adds.tables_other here).trans table)
  rcases adds.entries _ _ (sound.page?_entry boundPage table) with
    same | ⟨⟨addr, mem, listed⟩, empty, e', filled, given⟩
  · left
    apply s'.entry_of_page?
    rw [pointer]
    exact same
  right
  have after : s'.entry dir page = e' := by
    apply s'.entry_of_page?
    rw [pointer]
    exact filled
  rw [after]
  exact ⟨blocks.listed _ (mayCall_first bound missing) addr mem page boundPage listed, empty, given⟩

end AddsTable

end

/-- What `get_page` leaves as it was in the view of the directory. -/
structure Looked (heap : Kheap) (dir : Nat) (Q : Nat → Prop) (s s' : Paging) : Prop where
  sound : DirSound dir s'
  blocks : NewBlocks heap dir Q s'
  current : s'.gCurrentDirectory = s.gCurrentDirectory
  nframes : s'.frames.gNframes = s.frames.gNframes
  phys : s'.phys = s.phys
  marks : ∀ f, s.frames.marked f = true → s'.frames.marked f = true
  entry : ∀ page < pageCount, s'.entry dir page = s.entry dir page ∨
    Q page ∧ (s.entry dir page).frame = 0 ∧ Given (s'.entry dir page) s.frames s'.frames

section

variable {addr page : Nat}

theorem Looked.entry_of_frame (looked : Looked heap dir Q s s') (bound : page < pageCount)
    (backed : (s.entry dir page).frame ≠ 0) : s'.entry dir page = s.entry dir page := by
  rcases looked.entry page bound with same | ⟨-, empty, -⟩
  · exact same
  · exact absurd empty backed

theorem Looked.entry_of_not_heap (looked : Looked heap dir Q s s') (bound : page < pageCount)
    (away : ¬Q page) : s'.entry dir page = s.entry dir page := by
  rcases looked.entry page bound with same | ⟨lt, -⟩
  · exact same
  · exact absurd lt away

/-- `get_page` makes a table if there is none. -/
theorem getPage_eq (heap : Kheap) (dir : Nat) (s : Paging) (inPage : addr / 0x1000 = page) :
    getPage heap addr true dir s = if (s.dirs dir).tables (page / pagesPerTable) = 0 then
        (allocPageTable heap (page / pagesPerTable) 0x7 dir s).map fun s' =>
          (s', entryPtr (s'.dirs dir) (page * 0x1000))
      else
        some (s, entryPtr (s.dirs dir) (page * 0x1000)) := by
  unfold getPage
  simp only [inPage, and_true, entryPtr_of_page _ inPage]
  split
  · cases allocPageTable heap (page / pagesPerTable) 0x7 dir s <;> rfl
  · rfl

/-- `get_page` finds the entry of the page and changes nothing else in the view. -/
theorem getPage_looked (sound : DirSound dir s) (blocks : NewBlocks heap dir Q s)
    (bound : page < pageCount) (inPage : addr / 0x1000 = page)
    (ret : getPage heap addr true dir s = some (s', x)) :
    Looked heap dir Q s s' ∧ x = entryPtr (s'.dirs dir) (page * 0x1000) ∧
      (s'.dirs dir).tables (page / pagesPerTable) ≠ 0 := by
  rw [getPage_eq heap dir s inPage] at ret
  split at ret
  · rename_i missing
    have boundTable := table_lt bound
    obtain ⟨s1, alloc, last⟩ := map_eq_some_iff.mp ret
    cases last
    have adds := allocPageTable_adds blocks sound.null boundTable missing alloc
    refine ⟨⟨adds.sound_after sound blocks boundTable missing,
      adds.blocks_after sound blocks boundTable missing, adds.current, adds.nframes, adds.phys,
      adds.marks, fun p boundP => adds.entry_after sound blocks boundTable missing boundP⟩, rfl, ?_⟩
    rw [adds.tables_here]
    exact blocks.notNull _ (mayCall_first boundTable missing)
  · rename_i table
    cases ret
    exact ⟨⟨sound, blocks, rfl, rfl, rfl, fun _ marked => marked, fun _ _ => .inl rfl⟩, rfl, table⟩

end

/-! ## Frames for the pages of the kernel heap -/

/-- Tables that pages of a list still need. -/
def missing (d : PageDirectory) (pages : List Nat) : Finset Nat :=
  (pages.map fun page => page / pagesPerTable).toFinset.filter fun t => d.tables t = 0

/-- There are frames for `n` pages and for what the kernel heap needs to make the
missing tables of the pages in the list. -/
def Stocked (heap : Kheap) (dir : Nat) (pages : List Nat) (n : Nat) (s : Paging) : Prop :=
  Ready (heapEntries heap s.curDir s.calls (missing (s.dirs dir) pages).card) n s

theorem heapEntries_add (heap : Kheap) (d : PageDirectory) (k m m' : Nat) :
    heapEntries heap d k (m + m') = heapEntries heap d k m ++ heapEntries heap d (k + m) m' := by
  induction m generalizing k with
  | zero => rw [Nat.zero_add, Nat.add_zero]; rfl
  | succ m ih =>
    rw [Nat.succ_add, heapEntries, heapEntries, ih, append_assoc, Nat.add_right_comm k 1 m]
    rfl

variable {m : Nat}

theorem heapEntries_congr :
    ∀ {k : Nat}, (∀ l, k ≤ l → l < k + m → ∀ addr ∈ touches heap l,
      entryPtr d' addr = entryPtr d addr) →
      heapEntries heap d' k m = heapEntries heap d k m := by
  induction m with
  | zero => exact fun _ => rfl
  | succ m ih =>
    intro k same
    unfold heapEntries
    congr 1
    · exact map_congr_left fun addr mem => same k le_rfl (by omega) addr mem
    · exact ih fun l low high => same l (by omega) (by omega)

theorem Ready.left {R R' : List PagePtr} (ready : Ready (R ++ R') n s) : Ready R n s := by
  refine ⟨ready.reserved, fun x mem => ready.backable x (mem_append_left R' mem), ?_⟩
  have fewer : (unbacked R s).card ≤ (unbacked (R ++ R') s).card := by
    apply Finset.card_le_card
    apply Finset.filter_subset_filter
    rw [toFinset_append]
    exact Finset.subset_union_left
  exact Nat.le_trans (Nat.add_le_add_left fewer n) ready.room

variable {n' : Nat}

theorem Ready.fewer {m' : Nat} (ready : Ready (heapEntries heap d k m) n s)
    (le : m' ≤ m) (le' : n' ≤ n) : Ready (heapEntries heap d k m') n' s := by
  obtain ⟨rest, rfl⟩ := Nat.exists_eq_add_of_le le
  rw [heapEntries_add] at ready
  have left := ready.left
  exact ⟨left.reserved, left.backable, Nat.le_trans (Nat.add_le_add_right le' _) left.room⟩

section

variable {dir n : Nat} {pages : List Nat}

theorem missing_subset_emptyTables (d : PageDirectory) (bounds : ∀ page ∈ pages, page < pageCount) :
    missing d pages ⊆ emptyTables d := by
  intro t mem
  obtain ⟨listed, null⟩ := Finset.mem_filter.mp mem
  obtain ⟨page, inList, rfl⟩ := mem_map.mp (mem_toFinset.mp listed)
  exact Finset.mem_filter.mpr ⟨Finset.mem_range.mpr (table_lt (bounds page inList)), null⟩

theorem missing_subset_cons (d : PageDirectory) (page : Nat) (pages : List Nat) :
    missing d pages ⊆ missing d (page :: pages) := by
  apply Finset.filter_subset_filter
  rw [map_cons, toFinset_cons]
  exact Finset.subset_insert ..

/-- With enough frames a table can be made, and the rest still suffices. -/
theorem allocPageTable_ready (sound : DirSound dir s) (blocks : NewBlocks heap dir Q s) {i : Nat}
    (bound : i < tablesPerDir) (null : (s.dirs dir).tables i = 0)
    (le : m + 1 ≤ (emptyTables (s.dirs dir)).card) (flags : Nat)
    (ready : Ready (heapEntries heap s.curDir s.calls (m + 1)) n s) :
    ∃ s', allocPageTable heap i flags dir s = some s' ∧
      Ready (heapEntries heap s.curDir (s.calls + 1) m) n s' := by
  have call := mayCall_first bound null
  rw [heapEntries, touches, map_append, append_assoc] at ready
  obtain ⟨s1, phys, malloc, grows1, calls1, ready1⟩ :=
    kmallocBase_ready (T := fun _ => True) rfl (blocks.notNull _ call)
      (blocks.shared _ call _ (addr_mem_touches heap s.calls)) (fun _ _ => trivial) ready
  let s2 : Paging := s1.setTable dir i (heap.addr s.calls)
  have here2 (addr : Nat) (touched : addr ∈ heap.zeroFaults (heap.addr s.calls)) :
      entryPtr s2.curDir addr = entryPtr s.curDir addr := by
    have moved : s2.curDir = s2.dirs s.gCurrentDirectory :=
      congrArg s2.dirs grows1.grows.current
    rw [moved]
    exact entryPtr_setTable grows1.dirs null
      (blocks.used sound.null call (mem_append_right _ touched))
  have ready2 := ready1.of_dirs s2.dirs
  rw [← map_congr_left here2] at ready2
  obtain ⟨s3, zeroed, grows3, calls3, ready3⟩ :=
    zeroBlock_ready (T := fun _ => True) (s := s2) rfl (fun _ _ => trivial) ready2
  refine ⟨(s3.addTable (heap.addr s.calls)).setTablePhysical dir i (phys ||| flags), ?_, ?_⟩
  · unfold allocPageTable memsetTable
    simp only [malloc, bind_eq_bind, bind_some]
    rw [show s1.setTable dir i (heap.addr s.calls) = s2 from rfl, zeroed]
    rfl
  · apply Ready.of_dirs
    apply ready3.addTable
    intro x mem same
    obtain ⟨l, low, high, addr, touched, rfl⟩ := exists_touch mem
    obtain ⟨e, entry⟩ := blocks.pages l ⟨by omega, by omega⟩ addr touched
    have none := blocks.next_entry bound null (entryPtr s.curDir addr).2
    rw [← same] at none
    exact some_ne_none e (entry.symm.trans none)

end

section

variable {page : Nat} {frames : Frames} {e : Page}

/-- The entry of `page` and the bitmap are replaced. -/
def Paging.put (s : Paging) (dir page : Nat) (e : Page) (frames : Frames) : Paging :=
  { s with frames := frames : Paging }.write (entryPtr (s.dirs dir) (page * 0x1000)) e

variable (sound : DirSound dir s) (bound : page < pageCount)
  (table : (s.dirs dir).tables (page / pagesPerTable) ≠ 0)
include sound bound table

theorem page?_put (x : PagePtr) : (s.put dir page e frames).page? x =
    if x = entryPtr (s.dirs dir) (page * 0x1000) then some e else s.page? x :=
  Paging.page?_write (s := { s with frames := frames }) (sound.page?_entry bound table) e x

/-- One entry of the view is replaced. -/
theorem entry_put (boundOther : other < pageCount) :
    (s.put dir page e frames).entry dir other = if other = page then e else s.entry dir other := by
  have same : (s.put dir page e frames).entry dir other =
      ((s.put dir page e frames).page? (entryPtr (s.dirs dir) (other * 0x1000))).getD
        Page.zero := rfl
  rw [same, page?_put sound bound table]
  by_cases here : other = page
  · rw [here, if_pos rfl, if_pos rfl, getD_some]
  rw [if_neg here, if_neg fun pointers =>
    here (sound.page_eq bound boundOther table pointers.symm).symm]
  rfl

theorem put_exists : (s.put dir page e frames).page? x = none ↔ s.page? x = none := by
  rw [page?_put sound bound table]
  split
  · rename_i here
    rw [here, sound.page?_entry bound table]
    simp
  · rfl

theorem tables_put {p : Nat} : (s.put dir page e frames).tables p = none ↔ s.tables p = none := by
  have exists_iff : (s.put dir page e frames).page? (p, 0) = none ↔ s.page? (p, 0) = none :=
    put_exists sound bound table
  unfold Paging.page? at exists_iff
  rw [map_eq_none_iff, map_eq_none_iff] at exists_iff
  exact exists_iff

theorem sound_put : DirSound dir (s.put dir page e frames) where
  null := (tables_put sound bound table).mpr sound.null
  tables := fun t boundT used absent =>
    sound.tables t boundT used ((tables_put sound bound table).mp absent)
  injective := sound.injective

theorem blocks_put (blocks : NewBlocks heap dir Q s) :
    NewBlocks heap dir Q (s.put dir page e frames) where
  notNull := blocks.notNull
  noTable := fun k call => (tables_put sound bound table).mpr (blocks.noTable k call)
  distinct := blocks.distinct
  shared := blocks.shared
  pages := by
    intro k call addr mem
    obtain ⟨d, found⟩ := blocks.pages k call addr mem
    apply ne_none_iff_exists'.mp
    intro absent
    exact some_ne_none d (found.symm.trans ((put_exists sound bound table).mp absent))
  listed := blocks.listed

/-- A frame taken for the page is paid for by one of the frames in stock. -/
theorem stocked_put (stocked : Stocked heap dir pages n s)
    (reserved : frames.marked 0 = true) (backed : e.frame ≠ 0)
    (room : n' + s.frames.freeCount ≤ n + frames.freeCount) :
    Stocked heap dir pages n' (s.put dir page e frames) := by
  refine ⟨reserved, ?_, ?_⟩
  · intro x mem
    rw [page?_put sound bound table]
    split
    · exact ⟨e, rfl, fun _ => backed⟩
    · exact stocked.backable x mem
  · have fewer : (unbacked (heapEntries heap s.curDir s.calls (missing (s.dirs dir) pages).card)
        (s.put dir page e frames)).card ≤
          (unbacked (heapEntries heap s.curDir s.calls (missing (s.dirs dir) pages).card)
            s).card := by
      apply Finset.card_le_card
      intro x mem
      unfold unbacked at mem ⊢
      rw [Finset.mem_filter, page?_put sound bound table] at mem
      split at mem
      · exact absurd (some.inj mem.2) backed
      · exact Finset.mem_filter.mpr mem
    have le := stocked.room
    have goal : n' + (unbacked (heapEntries heap s.curDir s.calls
      (missing (s.dirs dir) pages).card)
        (s.put dir page e frames)).card ≤ frames.freeCount := by omega
    exact goal

end

section

variable {page addr : Nat} {f : Page → Frames → FrameResult}

/-- A function of the source on one page, after `get_page`. -/
theorem onPage_eq (ret : getPage heap addr true dir s = some (s1, x)) (sound : DirSound dir s1)
    (bound : page < pageCount) (pointer : x = entryPtr (s1.dirs dir) (page * 0x1000))
    (table : (s1.dirs dir).tables (page / pagesPerTable) ≠ 0) :
    onPage heap dir f addr s = some (s1.put dir page (f (s1.entry dir page) s1.frames).page
        (f (s1.entry dir page) s1.frames).frames,
        (f (s1.entry dir page) s1.frames).ret) := by
  subst pointer
  have found := sound.page?_entry bound table
  have found' : ({ s1 with frames := (f (s1.entry dir page) s1.frames).frames } : Paging).page?
      (entryPtr (s1.dirs dir) (page * 0x1000)) = some (s1.entry dir page) := found
  unfold onPage
  simp only [ret, bind_eq_bind, bind_some, found, Paging.setPage?_of_page? found']
  rfl

theorem onPage_looked (sound : DirSound dir s) (blocks : NewBlocks heap dir Q s)
    (bound : page < pageCount)
    (inPage : addr / 0x1000 = page) {ret : Int}
    (result : onPage heap dir f addr s = some (s', ret)) :
    ∃ s1, Looked heap dir Q s s1 ∧ (s1.dirs dir).tables (page / pagesPerTable) ≠ 0 ∧
      s' = s1.put dir page (f (s1.entry dir page) s1.frames).page
        (f (s1.entry dir page) s1.frames).frames ∧
      ret = (f (s1.entry dir page) s1.frames).ret := by
  obtain ⟨⟨s1, x⟩, get, -⟩ := bind_eq_some_iff.mp result
  obtain ⟨looked, pointer, table⟩ := getPage_looked sound blocks bound inPage get
  rw [onPage_eq get looked.sound bound pointer table] at result
  cases result
  exact ⟨s1, looked, table, rfl, rfl⟩

/-- With enough frames `get_page` returns, and the function does its work. -/
theorem onPage_stocked (sound : DirSound dir s) (blocks : NewBlocks heap dir Q s)
    (bounds : ∀ p ∈ page :: pages, p < pageCount) (inPage : addr / 0x1000 = page)
    (stocked : Stocked heap dir (page :: pages) n s) :
    ∃ s1, Looked heap dir Q s s1 ∧ (s1.dirs dir).tables (page / pagesPerTable) ≠ 0 ∧
      Stocked heap dir pages n s1 ∧
      onPage heap dir f addr s = some (s1.put dir page (f (s1.entry dir page) s1.frames).page
          (f (s1.entry dir page) s1.frames).frames, (f (s1.entry dir page) s1.frames).ret) := by
  have bound := bounds page mem_cons_self
  obtain ⟨s1, x, get, stocked1⟩ : ∃ s' x, getPage heap addr true dir s = some (s', x) ∧ Stocked
      heap dir pages n s' := by
    have bound := table_lt (bounds page mem_cons_self)
    rw [getPage_eq heap dir s inPage]
    split
    · rename_i null
      have mem : page / pagesPerTable ∈ missing (s.dirs dir) (page :: pages) := by
        refine Finset.mem_filter.mpr ⟨?_, null⟩
        rw [map_cons, toFinset_cons]
        exact Finset.mem_insert_self ..
      have one := Finset.card_erase_add_one mem
      have most := Finset.card_le_card (missing_subset_emptyTables (s.dirs dir) bounds)
      unfold Stocked at stocked
      rw [← one] at stocked
      obtain ⟨s', alloc, ready⟩ :=
        allocPageTable_ready sound blocks bound null (by omega) 0x7 stocked
      have adds := allocPageTable_adds blocks sound.null bound null alloc
      refine ⟨s', entryPtr (s'.dirs dir) (page * 0x1000), by rw [alloc]; rfl, ?_⟩
      have fewer : missing (s'.dirs dir) pages ⊆
          (missing (s.dirs dir) (page :: pages)).erase (page / pagesPerTable) := by
        intro t later
        obtain ⟨listed, nullT⟩ := Finset.mem_filter.mp later
        have other : t ≠ page / pagesPerTable := by
          intro same
          rw [same, adds.tables_here] at nullT
          exact blocks.notNull _ (mayCall_first bound null) nullT
        rw [adds.tables_other other] at nullT
        refine Finset.mem_erase.mpr ⟨other, Finset.mem_filter.mpr ⟨?_, nullT⟩⟩
        rw [map_cons, toFinset_cons]
        exact Finset.mem_insert_of_mem listed
      have same : heapEntries heap s'.curDir (s.calls + 1)
          ((missing (s.dirs dir) (page :: pages)).erase (page / pagesPerTable)).card =
            heapEntries heap s.curDir (s.calls + 1)
              ((missing (s.dirs dir) (page :: pages)).erase (page / pagesPerTable)).card :=
                by
        apply heapEntries_congr
        intro l low high a touched
        have moved : s'.curDir = s'.dirs s.gCurrentDirectory := congrArg s'.dirs adds.current
        rw [moved]
        exact adds.entryPtr_used null (blocks.used sound.null ⟨by omega, by omega⟩ touched)
      unfold Stocked
      rw [← same] at ready
      rw [adds.calls]
      exact ready.fewer (Finset.card_le_card fewer) le_rfl
    · refine ⟨s, _, rfl, ?_⟩
      exact stocked.fewer (Finset.card_le_card (missing_subset_cons _ page pages)) le_rfl
  obtain ⟨looked, pointer, table⟩ := getPage_looked sound blocks bound inPage get
  exact ⟨s1, looked, table, stocked1, onPage_eq get looked.sound bound pointer table⟩

end

end Yanix.Mm
