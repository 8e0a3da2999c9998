/-
Module: Yanix.Mm.Paging
Purpose: `kernel/mm/paging.c`: the bitmap of frames, page directories with their duplication
  and clearing, and the functions that map whole ranges.
Trusted boundary: hand-translated from C.  Page tables are objects addressed by the pointers in a
  directory, apart from physical memory.  The kernel heap appears through the addresses it returns
  and the page faults it causes; the TLB is left out.  A mapping loop of more than 2^20 passes of
  0x1000 does not stop.  `map_mem` and `remap_mem` pass the current directory on
-/
import Yanix.Foundation.BitSet
import Yanix.Mm.LinkedList
import Yanix.Foundation.Loops

namespace Yanix.Mm

open Foundation Function

/-- `page_t`.  Frame `0` stands for no frame. -/
structure Page where
  present : Bool
  rw : Bool
  user : Bool
  frame : BitVec 20
deriving DecidableEq

/-- An entry of a zeroed page table. -/
def Page.zero : Page := ⟨false, false, false, 0⟩

/-- `g_frames`, `g_nframes` and `errno`.  The number of frames comes from a
32-bit memory size divided by the size of a frame. -/
structure Frames where
  gFrames : Words 32
  gNframes : Nat
  errno : Nat
  nframes_le : gNframes ≤ 2 ^ 20

def indexFromBit (a : Nat) : Nat := a / (8 * 4)

def offsetFromBit (a : Nat) : Nat := a % (8 * 4)

def setFrame (frameAddr : Nat) (s : Frames) : Frames :=
  let frame := frameAddr / 0x1000
  let index := indexFromBit frame
  let offset := offsetFromBit frame
  { s with gFrames := update s.gFrames index (s.gFrames index ||| (1#32 <<< offset)) }

def clearFrame (frameAddr : Nat) (s : Frames) : Frames :=
  let frame := frameAddr / 0x1000
  let index := indexFromBit frame
  let offset := offsetFromBit frame
  { s with gFrames := update s.gFrames index (s.gFrames index &&& ~~~(1#32 <<< offset)) }

/-- The number of the first free frame; `none` is the source's `-1`. -/
def firstFrame (s : Frames) : Option Nat :=
  (List.range (indexFromBit s.gNframes)).findSome? fun i =>
    if s.gFrames i ≠ 0xFFFFFFFF#32 then
      ((List.range 32).find? fun j => decide (s.gFrames i &&& (1#32 <<< j) = 0#32)).map
        fun j => i * 4 * 8 + j
    else none

/-! ## Frames of page entries -/

/-- Return value, the entry and the bitmap after a call. -/
structure FrameResult where
  ret : Int
  page : Page
  frames : Frames

/-- The assignments both allocating functions end with. -/
def takeFrame (index : Nat) (page : Page) (isKernel isWritable : Bool) (s : Frames) :
    FrameResult where
  ret := 0
  page := { page with
      present := true
      rw := isWritable
      user := !isKernel
      frame := BitVec.ofNat 20 index }
  frames := setFrame (mul32 index 0x1000) s

/-- `-1` when the entry has a frame already, `-2` when there is none left. -/
def allocFrame (page : Page) (isKernel isWritable : Bool) (s : Frames) : FrameResult :=
  if page.frame ≠ 0 then
    ⟨-1, page, s⟩
  else
    match firstFrame s with
    | none => ⟨-2, page, { s with errno := enomem }⟩
    | some index => takeFrame index page isKernel isWritable s

def setFrameFlags (page : Page) (kernel writeable : Bool) : Page :=
  { page with rw := writeable, user := !kernel }

def flagforceAllocFrame (page : Page) (isKernel writeable : Bool) (s : Frames) : FrameResult :=
  let result := allocFrame page isKernel writeable s
  if result.ret = -1 then
    ⟨0, setFrameFlags result.page isKernel writeable, result.frames⟩
  else if result.ret = -2 then
    { result with ret := -1 }
  else
    { result with ret := 0 }

/-- The frame of the entry is passed to `clear_frame` as if it were an
address. -/
def reallocFrame (page : Page) (isKernel isWritable : Bool) (s : Frames) : FrameResult :=
  let s := if page.frame ≠ 0 then clearFrame page.frame.toNat s else s
  match firstFrame s with
  | none => ⟨-2, page, { s with errno := enomem }⟩
  | some index => takeFrame index page isKernel isWritable s

/-- Returns at once when the entry has a frame. -/
def freeFrame (page : Page) (s : Frames) : Page × Frames :=
  let frame := 0
  if ¬(frame = page.frame.toNat) then
    (page, s)
  else
    ({ page with frame := 0 }, clearFrame frame s)

def pagesPerTable : Nat := 1024

def tablesPerDir : Nat := 1024

def pageBufferLocation : Nat := 0x1100000

/-- `page_table_t` -/
abbrev PageTable := Nat → Page

/-- `page_directory_t`: a null pointer stands for no table. -/
structure PageDirectory where
  tables : Nat → Nat
  tablesPhysical : Nat → Nat
  physicalAddress : Nat

/-- A zeroed directory. -/
def PageDirectory.zero : PageDirectory := ⟨fun _ => 0, fun _ => 0, 0⟩

/-- What the kernel heap does in successive calls of `kmalloc_base`: the address the `k`-th call
returns, where that call faults on a heap page without a frame, and where zeroing the block does. -/
structure Kheap where
  addr : Nat → Nat
  allocFaults : Nat → List Nat
  zeroFaults : Nat → List Nat

/-- The globals of the paging code and the memory they govern.  `calls` counts
the calls of `kmalloc_base`, `freed` lists the blocks given back. -/
structure Paging where
  frames : Frames
  dirs : Nat → PageDirectory
  tables : Nat → Option PageTable
  phys : Nat → Bytes
  gKernelDirectory : Nat
  gCurrentDirectory : Nat
  calls : Nat
  freed : List Nat

/-- `page_t *`: the table an entry lies in and its index there. -/
abbrev PagePtr := Nat × Nat

namespace Paging

def curDir (s : Paging) : PageDirectory := s.dirs s.gCurrentDirectory

def kernelDir (s : Paging) : PageDirectory := s.dirs s.gKernelDirectory

/-- Read a page entry; `none` when no table is there. -/
def page? (s : Paging) (page : PagePtr) : Option Page :=
    (s.tables page.1).map fun table => table page.2

/-- Write a page entry; `none` when no table is there. -/
def setPage? (s : Paging) (page : PagePtr) (entry : Page) : Option Paging :=
  (s.tables page.1).map fun table =>
    { s with tables := update s.tables page.1 (some (update table page.2 entry)) }

/-- `page->frame = frame` -/
def setFrameField (s : Paging) (page : PagePtr) (frame : BitVec 20) : Option Paging := do
  let entry ← s.page? page
  s.setPage? page { entry with frame := frame }

/-- `dir->tables[index] = table` -/
def setTable (s : Paging) (dir index table : Nat) : Paging := { s with
    dirs := update s.dirs dir { s.dirs dir with tables := update (s.dirs dir).tables index table } }

/-- `dir->tablesPhysical[index] = phys` -/
def setTablePhysical (s : Paging) (dir index phys : Nat) : Paging := { s with
    dirs := update s.dirs dir { s.dirs dir with
        tablesPhysical := update (s.dirs dir).tablesPhysical index phys } }

end Paging

/-- The entry for a virtual address.  An entry of the null table is the null
pointer. -/
def entryPtr (dir : PageDirectory) (virtualAddress : Nat) : PagePtr :=
  (dir.tables (virtualAddress / 0x1000 / pagesPerTable),
    virtualAddress / 0x1000 % pagesPerTable)

/-- `alloc_frame` on an entry in memory. -/
def allocFrameAt (page : PagePtr) (isKernel isWritable : Bool) (s : Paging) :
    Option (Paging × Int) := do
  let entry ← s.page? page
  let result := allocFrame entry isKernel isWritable s.frames
  let s ← { s with frames := result.frames : Paging }.setPage? page result.page
  some (s, result.ret)

/-! ## The kernel heap -/

/-- The page fault handler on an address of the kernel heap. The access is then repeated, so without
a frame it faults for ever. -/
def zeroPage (addr : Nat) (s : Paging) : Option Paging := do
  let (s, ret) ← allocFrameAt (entryPtr s.curDir addr) true false s
  if ret = -2 then none else some s

/-- `if (!page->frame) alloc_frame(page, 1, 0);` -/
def backPage (page : PagePtr) (s : Paging) : Option Paging := do
  let entry ← s.page? page
  if entry.frame = 0 then
    let (s, _) ← allocFrameAt page true false s
    some s
  else
    some s

/-- The new block and its physical address. Every caller writes through a null result at once:
`none`. -/
def kmallocBase (heap : Kheap) (s : Paging) : Option (Paging × Nat × Nat) := do
  let addr := heap.addr s.calls
  let s ← (heap.allocFaults s.calls).foldlM (fun s addr => zeroPage addr s)
    { s with calls := s.calls + 1 }
  if addr = 0 then none
  else
    let page := entryPtr s.kernelDir addr
    let s ← backPage page s
    let entry ← s.page? page
    some (s, addr, add32 (mul32 entry.frame.toNat 0x1000) (addr &&& 0xFFF))

/-- `memset` of a new block, as far as it faults. -/
def zeroBlock (heap : Kheap) (addr : Nat) (s : Paging) : Option Paging :=
  (heap.zeroFaults addr).foldlM (fun s addr => zeroPage addr s) s

/-- `memset(table, 0, sizeof(page_table_t))` -/
def memsetTable (heap : Kheap) (table : Nat) (s : Paging) : Option Paging := do
  let s ← zeroBlock heap table s
  some { s with tables := update s.tables table (some fun _ => Page.zero) }

/-- `memset(dir, 0, sizeof(page_directory_t))` -/
def memsetDirectory (heap : Kheap) (dir : Nat) (s : Paging) : Option Paging := do
  let s ← zeroBlock heap dir s
  some { s with dirs := update s.dirs dir PageDirectory.zero }

/-- Frames are untouched: the block only returns to the heap's free list. -/
def kfree (addr : Nat) (s : Paging) : Paging := { s with freed := addr :: s.freed }

/-! ## Page entries -/

def allocPageTable (heap : Kheap) (tableIndex flags dir : Nat) (s : Paging) : Option Paging := do
  let (s, table, phys) ← kmallocBase heap s
  let s := s.setTable dir tableIndex table
  let s ← memsetTable heap table s
  some (s.setTablePhysical dir tableIndex (phys ||| flags))

def getPage (heap : Kheap) (virtualAddress : Nat) (makePageTable : Bool) (dir : Nat) (s : Paging) :
    Option (Paging × PagePtr) :=
  let tableIndex := virtualAddress / 0x1000 / pagesPerTable
  if (s.dirs dir).tables tableIndex = 0 ∧ makePageTable = true then do
    let s ← allocPageTable heap tableIndex 0x7 dir s
    some (s, entryPtr (s.dirs dir) virtualAddress)
  else
    some (s, entryPtr (s.dirs dir) virtualAddress)

/-- The frame the processor finds behind an address. -/
def translate (virtualAddress : Nat) (s : Paging) : Option Nat := do
  let entry ← s.page? (entryPtr s.curDir virtualAddress)
  if entry.present then some entry.frame.toNat else none

/-- `memcpy` of one page to another, both page aligned. -/
def memcpyPage (destination source : Nat) (s : Paging) : Option Paging := do
  let dst ← translate destination s
  let src ← translate source s
  some { s with phys := update s.phys dst (blit (s.phys dst) 0 (s.phys src) 0 0x1000) }

/-- The result of `alloc_frame` is not looked at. -/
def copyPage (heap : Kheap) (addr newdir : Nat) (s : Paging) : Option Paging := do
  let curdir := s.gCurrentDirectory
  let (s, copyPage) ← getPage heap addr true curdir s
  let (s, bufferPage) ← getPage heap pageBufferLocation true curdir s
  let (s, newPage) ← getPage heap addr true newdir s
  let bufframe ← (s.page? bufferPage).map Page.frame
  let copied ← s.page? copyPage
  let (s, _) ← allocFrameAt newPage (!copied.user) copied.rw s
  let newframe ← (s.page? newPage).map Page.frame
  let s ← s.setFrameField bufferPage newframe
  let s ← memcpyPage pageBufferLocation addr s
  s.setFrameField bufferPage bufframe

/-! ## Duplicating and clearing a directory -/

/-- Copy a page of the current directory if it is present. -/
def copyEntry (heap : Kheap) (newdir tableiter : Nat) (s : Paging) (pageiter : Nat) :
    Option Paging := do
  let entry ← s.page? (s.curDir.tables tableiter, pageiter)
  if entry.present then
    copyPage heap ((tableiter * pagesPerTable + pageiter) * 0x1000) newdir s
  else
    some s

/-- A table of its own for the new directory, with copies of the pages. -/
def copyTable (heap : Kheap) (newdir tableiter : Nat) (s : Paging) : Option Paging := do
  let (s, table, phys) ← kmallocBase heap s
  let s := s.setTable newdir tableiter table
  let s ← memsetTable heap table s
  let s := s.setTablePhysical newdir tableiter
    (phys ||| (s.curDir.tablesPhysical tableiter &&& 0xF))
  (List.range pagesPerTable).foldlM (copyEntry heap newdir tableiter) s

/-- Share a table with the current directory. -/
def linkTable (newdir tableiter : Nat) (s : Paging) : Paging :=
  (s.setTable newdir tableiter (s.curDir.tables tableiter)).setTablePhysical newdir tableiter
    (s.curDir.tablesPhysical tableiter)

def duplicateTable (heap : Kheap) (newdir : Nat) (s : Paging) (tableiter : Nat) : Option Paging :=
  if s.curDir.tablesPhysical tableiter ≠ 0 then
    if s.curDir.tables tableiter = s.kernelDir.tables tableiter then
      some (linkTable newdir tableiter s)
    else
      copyTable heap newdir tableiter s
  else
    some s

/-- The array `tablesPhysical` lies behind the 1024 pointers of `tables`. -/
def duplicateCurrentPageDirectory (heap : Kheap) (s : Paging) : Option (Paging × Nat) := do
  let (s, newdir, phys) ← kmallocBase heap s
  let s ← memsetDirectory heap newdir s
  let s : Paging := { s with
      dirs := update s.dirs newdir { s.dirs newdir with physicalAddress := add32 phys 0x1000 } }
  let s ← (List.range tablesPerDir).foldlM (duplicateTable heap newdir) s
  some (s, newdir)

/-- The address passed to `clear_frame` is the virtual address of the page. -/
def clearEntry (dir table : Nat) (s : Paging) (page : Nat) : Option Paging := do
  let entry ← s.page? ((s.dirs dir).tables table, page)
  if entry.frame ≠ 0 then
    some { s with
      frames := clearFrame ((table * pagesPerTable + page) * 0x1000) s.frames }
  else
    some s

def clearTable (dir : Nat) (s : Paging) (table : Nat) : Option Paging :=
  if (s.dirs dir).tables table ≠ s.kernelDir.tables table then do
    let s ← (List.range pagesPerTable).foldlM (clearEntry dir table) s
    some (kfree ((s.dirs dir).tables table) s)
  else
    some s

def clearPageDirectory (dir : Nat) (s : Paging) : Option Paging :=
  (List.range tablesPerDir).foldlM (clearTable dir) s

/-- `-1` when the entry has a frame and may not be remapped. -/
def mapFrame (page : Page) (addr : Nat) (remap isKernel isWritable : Bool) (s : Frames) :
    FrameResult :=
  if page.frame ≠ 0 ∧ remap = false then
    ⟨-1, page, s⟩
  else
    { ret := 0
      page := { page with
          present := true
          rw := isWritable
          user := !isKernel
          frame := BitVec.ofNat 20 (addr / 0x1000) }
      frames := setFrame addr s }

/-- The result of `f` is written back to the entry `get_page` finds for the
address. -/
def onPage (heap : Kheap) (dir : Nat) (f : Page → Frames → FrameResult) (addr : Nat) (s : Paging) :
    Option (Paging × Int) := do
  let (s, page) ← getPage heap addr true dir s
  let entry ← s.page? page
  let result := f entry s.frames
  let s ← { s with frames := result.frames : Paging }.setPage? page result.page
  some (s, result.ret)

/-- A null table is read through: `none`. -/
def virtToPhysFromDir (virtualAddress dir : Nat) (s : Paging) : Option Nat := do
  let pageAlignedAddr := virtualAddress &&& 0xFFFFF000
  let page ← s.page? (entryPtr (s.dirs dir) pageAlignedAddr)
  if page.frame = 0 then some 0
  else some (add32 (mul32 page.frame.toNat 0x1000) (virtualAddress &&& 0xFFF))

/-- One more than the number of pages in the address space. -/
def wordPasses : Nat := 2 ^ 20 + 1

/-- The result of `flagforce_alloc_frame` is not looked at. -/
def mapMemoryBlock (heap : Kheap) (startaddr endaddr : Nat) (isKernel writeable : Bool) (dir : Nat)
    (s : Paging) : Option (Paging × Int) :=
  wordLoop 0x1000 (fun a => decide (a < endaddr)) (fun a s => do
      let (s, _) ← onPage heap dir
        (fun page frames => flagforceAllocFrame page isKernel writeable frames) a s
      some (s, 0))
    wordPasses startaddr s

/-- The result of `realloc_frame` is not looked at. -/
def remapMemoryBlock (heap : Kheap) (startaddr endaddr : Nat) (isKernel writeable : Bool)
    (dir : Nat)
    (s : Paging) : Option (Paging × Int) :=
  wordLoop 0x1000 (fun a => decide (a ≤ endaddr)) (fun a s => do
      let (s, _) ← onPage heap dir
        (fun page frames => reallocFrame page isKernel writeable frames) a s
      some (s, 0))
    wordPasses startaddr s

def identityMapMemoryBlock (heap : Kheap) (startaddr endaddr : Nat) (isKernel isWritable : Bool)
    (dir : Nat) (s : Paging) : Option (Paging × Int) :=
  wordLoop 0x1000 (fun a => decide (a ≤ endaddr)) (fun a s =>
      onPage heap dir (fun page frames => mapFrame page a true isKernel isWritable frames) a s)
    wordPasses startaddr s

/-- Any failure is `-1`. -/
def mapPhysicalToVirtual (heap : Kheap) (physicalAddress virtualAddress size : Nat)
    (isKernel isWritable : Bool) (dir : Nat) (s : Paging) : Option (Paging × Int) :=
  wordLoop 0x1000 (fun i => decide (i < size)) (fun i s => do
      let (s, ret) ← onPage heap dir
        (fun page frames => mapFrame page (add32 physicalAddress i) true isKernel isWritable frames)
        (add32 virtualAddress i) s
      some (s, if ret ≠ 0 then -1 else 0))
    wordPasses 0 s

/-- The bound of the loop moves along with the counter.  A null directory stands
for the current one. -/
def initializeMem (heap : Kheap) (start size : Nat) (um : Bool) (dir : Nat) (s : Paging) :
    Option (Paging × Int) :=
  let dir := if dir = 0 then s.gCurrentDirectory else dir
  wordLoop 0x1000 (fun a => decide (a < add32 a size)) (fun a s => do
      let (s, ret) ← onPage heap dir (fun page frames => allocFrame page (!um) um frames) a s
      some (s, if ret ≠ 0 then -1 else 0))
    wordPasses start s

def freeramPass (s : Frames) (freeram i : Nat) : Nat :=
  if s.gFrames i = 0#32 then add32 freeram 32
  else (List.range 32).foldl (fun freeram j =>
    if (s.gFrames i >>> j) &&& 1#32 = 0#32 then add32 freeram 1 else freeram) freeram

/-- `unsigned long` has 32 bits. -/
def physFreeramAmount (s : Frames) : Nat :=
  mul32 ((List.range (s.gNframes / 32)).foldl (freeramPass s) 0) 0x1000

end Yanix.Mm
