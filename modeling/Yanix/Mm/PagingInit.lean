/-
Module: Yanix.Mm.PagingInit
Purpose: `init_paging` of `kernel/mm/paging.c` over the flat memory it runs in, with the
  watermark allocator of `kernel/mm/heap.c`.  Accesses to the bitmap are recorded.
Trusted boundary: hand-translated from C.  The size of memory, a constant there, is a parameter.
  What follows the mapping of the screen is left out: registering the page fault handler, linking
  the tables into a second directory and turning paging on
-/
import Yanix.Foundation.Tiling
import Yanix.Mm.Paging

namespace Yanix.Mm

open Foundation

def kheapInitialSize : Nat := 0x1000

def uheapInitialSize : Nat := 0x1000

def preheapspace : Nat := 0x85000

/-- `sizeof(page_table_t)` -/
def sizeofPageTable : Nat := 4 * pagesPerTable

/-- `sizeof(page_directory_t)` -/
def sizeofPageDirectory : Nat := 4 * tablesPerDir + 4 * tablesPerDir + 4

/-- What `video_get_screen_width` and its like return. -/
structure Screen where
  width : Nat
  height : Nat
  bpp : Nat
  fb : Nat

/-- Memory and the globals before paging is on. `framesBlock` is the block of `g_frames`; `accessed`
lists the words of `g_frames` that were read or written, latest first. -/
structure Early where
  mem : Bytes
  placementAddress : Nat
  gFrames : Nat
  gNframes : Nat
  gKernelDirectory : Nat
  gCurrentDirectory : Nat
  errno : Nat
  framesBlock : Span
  accessed : List Nat

/-- Why a call does not return. -/
inductive Stuck where
  | endless

abbrev EarlyM := EStateM Stuck Early

namespace Early

def read (addr : Nat) : EarlyM Nat := do
  let s ← get
  pure (load32 s.mem addr)

def write (addr v : Nat) : EarlyM Unit := modify fun s => { s with mem := store32 s.mem addr v }

/-- The loop of `memset` for the value zero. -/
def zeroWords (m : Bytes) (dst : Nat) : (n : Nat) → Bytes
  | 0 => m
  | n + 1 => store32 (zeroWords m dst n) (add32 dst (4 * n)) 0

/-- `memset(destpointer, 0, size)`: whole words only. -/
def memsetZero (destpointer size : Nat) : EarlyM Unit :=
  modify fun s => { s with mem := zeroWords s.mem destpointer (size / 4) }

/-- The watermark allocator. -/
def simpleAlloc (size : Nat) (align : Bool) : EarlyM Nat := modifyGet fun s =>
    let placement :=
      if align then add32 (s.placementAddress &&& 0xFFFFF000) 0x1000 else s.placementAddress
    let placement := add32 placement size
    (sub32 placement size, { s with placementAddress := placement })

/-- There is no kernel heap yet; the physical address of a block is its address. -/
def kmallocBase (size : Nat) (align : Bool) : EarlyM Nat := simpleAlloc size align

/-! ## The bitmap -/

/-- `g_frames[i]` as a value. -/
def frameWord (i : Nat) : EarlyM (BitVec 32) := modifyGet fun s =>
    (BitVec.ofNat 32 (load32 s.mem (add32 s.gFrames (4 * i))),
      { s with accessed := i :: s.accessed })

/-- `g_frames[i] = word` -/
def setFrameWord (i : Nat) (word : BitVec 32) : EarlyM Unit := modify fun s =>
    { s with
      mem := store32 s.mem (add32 s.gFrames (4 * i)) word.toNat
      accessed := i :: s.accessed }

def setFrame (frameAddr : Nat) : EarlyM Unit := do
  let frame := frameAddr / 0x1000
  let index := indexFromBit frame
  let offset := offsetFromBit frame
  let word ← frameWord index
  setFrameWord index (word ||| (1#32 <<< offset))

def clearFrame (frameAddr : Nat) : EarlyM Unit := do
  let frame := frameAddr / 0x1000
  let index := indexFromBit frame
  let offset := offsetFromBit frame
  let word ← frameWord index
  setFrameWord index (word &&& ~~~(1#32 <<< offset))

/-- The inner loop of `first_frame`, with `left` bits to go. -/
def firstBit (i : Nat) : (left j : Nat) → EarlyM (Option Nat)
  | 0, _ => pure none
  | left + 1, j => do
    let toTest := 1#32 <<< j
    let word ← frameWord i
    if word &&& toTest = 0#32 then pure (some (i * 4 * 8 + j)) else firstBit i left (j + 1)

/-- The outer loop of `first_frame`, with `left` words to go. -/
def firstFrameFrom : (left i : Nat) → EarlyM (Option Nat)
  | 0, _ => pure none
  | left + 1, i => do
    let word ← frameWord i
    if word ≠ 0xFFFFFFFF#32 then do
      let found ← firstBit i 32 0
      if found.isSome then pure found else firstFrameFrom left (i + 1)
    else firstFrameFrom left (i + 1)

/-- `none` is the source's `-1`. -/
def firstFrame : EarlyM (Option Nat) := do
  let s ← get
  firstFrameFrom (indexFromBit s.gNframes) 0

/-- The bits of a word that are clear, with `left` bits to go. -/
def countBits (i : Nat) : (left j freeram : Nat) → EarlyM Nat
  | 0, _, freeram => pure freeram
  | left + 1, j, freeram => do
    let word ← frameWord i
    countBits i left (j + 1) (if (word >>> j) &&& 1#32 = 0#32 then freeram + 1 else freeram)

/-- The outer loop of `phys_freeram_amount`, with `left` words to go. -/
def countWords : (left i freeram : Nat) → EarlyM Nat
  | 0, _, freeram => pure freeram
  | left + 1, i, freeram => do
    let word ← frameWord i
    if word = 0#32 then countWords left (i + 1) (freeram + 32)
    else do
      let freeram ← countBits i 32 0 freeram
      countWords left (i + 1) freeram

def physFreeramAmount : EarlyM Nat := do
  let s ← get
  let freeram ← countWords (s.gNframes / 32) 0 0
  pure (mul32 freeram 0x1000)

/-! ## Page entries -/

/-- The field `frame` of the entry with this word. -/
def pageFrame (entry : Nat) : Nat := entry / 0x1000

/-- The word of an entry whose fields `rw` and `user` are assigned. -/
def withFlags (entry : Nat) (rw user : Bool) : Nat :=
  entry / 8 * 8 + user.toNat * 4 + rw.toNat * 2 + entry % 2

/-- The word of an entry whose fields `present`, `rw`, `user` and `frame` are assigned; the bits
between them stay. -/
def withFrame (entry : Nat) (rw user : Bool) (frame : Nat) : Nat :=
  frame % 2 ^ 20 * 0x1000 + entry % 0x1000 / 8 * 8 + user.toNat * 4 + rw.toNat * 2 + 1

def allocFrame (page : Nat) (isKernel isWritable : Bool) : EarlyM Int := do
  let entry ← read page
  if pageFrame entry ≠ 0 then pure (-1)
  else do
    let index ← firstFrame
    match index with
    | none => do
      modify fun s => { s with errno := enomem }
      pure (-2)
    | some index => do
      setFrame (mul32 index 0x1000)
      let entry ← read page
      write page (withFrame entry isWritable (!isKernel) index)
      pure 0

def setFrameFlags (page : Nat) (kernel writeable : Bool) : EarlyM Unit := do
  let entry ← read page
  write page (withFlags entry writeable (!kernel))

def flagforceAllocFrame (page : Nat) (isKernel writeable : Bool) : EarlyM Int := do
  let ret ← allocFrame page isKernel writeable
  if ret = -1 then do
    setFrameFlags page isKernel writeable
    pure 0
  else if ret = -2 then pure (-1)
  else pure 0

def mapFrame (page addr : Nat) (remap isKernel isWritable : Bool) : EarlyM Int := do
  let entry ← read page
  if pageFrame entry ≠ 0 ∧ remap = false then pure (-1)
  else do
    setFrame addr
    let entry ← read page
    write page (withFrame entry isWritable (!isKernel) (addr / 0x1000))
    pure 0

/-- `&dir->tables[index]` -/
def tablesField (dir index : Nat) : Nat := add32 dir (4 * index)

/-- `&dir->tablesPhysical[index]` -/
def tablesPhysicalField (dir index : Nat) : Nat :=
  add32 dir (4 * tablesPerDir + 4 * index)

/-- `&dir->physicalAddress` -/
def physicalAddressField (dir : Nat) : Nat :=
  add32 dir (4 * tablesPerDir + 4 * tablesPerDir)

def allocPageTable (tableIndex flags dir : Nat) : EarlyM Unit := do
  let phys ← kmallocBase sizeofPageTable true
  write (tablesField dir tableIndex) phys
  let table ← read (tablesField dir tableIndex)
  memsetZero table sizeofPageTable
  write (tablesPhysicalField dir tableIndex) (phys ||| flags)

/-- The address of the entry; null when there is no table and none is to be made. -/
def getPage (virtualAddress : Nat) (makePageTable : Bool) (dir : Nat) : EarlyM Nat := do
  let index := virtualAddress / 0x1000
  let table ← read (tablesField dir (index / pagesPerTable))
  if table = 0 ∧ makePageTable = true then do
    allocPageTable (index / pagesPerTable) 0x7 dir
    let table ← read (tablesField dir (index / pagesPerTable))
    pure (add32 table (4 * (index % pagesPerTable)))
  else if table = 0 then pure 0
  else pure (add32 table (4 * (index % pagesPerTable)))

/-! ## Mapping blocks

An address that is advanced page by page comes round after `pagesInSpace` passes; a loop that is
still running then never ends. -/

def pagesInSpace : Nat := 2 ^ 20

/-- The loop of `map_memory_block`. -/
def mapMemoryLoop (endaddr : Nat) (isKernel writeable : Bool) (dir : Nat) :
    (passes startaddr : Nat) → EarlyM Int
  | 0, _ => throw .endless
  | passes + 1, startaddr =>
    if startaddr < endaddr then do
      let page ← getPage startaddr true dir
      let _ ← flagforceAllocFrame page isKernel writeable
      mapMemoryLoop endaddr isKernel writeable dir passes (add32 startaddr 0x1000)
    else pure 0

def mapMemoryBlock (startaddr endaddr : Nat) (isKernel writeable : Bool) (dir : Nat) :
    EarlyM Int :=
  mapMemoryLoop endaddr isKernel writeable dir (pagesInSpace + 1) startaddr

/-- The loop of `identity_map_memory_block`. -/
def identityMapLoop (endaddr : Nat) (isKernel isWritable : Bool) (dir : Nat) :
    (passes startaddr : Nat) → EarlyM Int
  | 0, _ => throw .endless
  | passes + 1, startaddr =>
    if startaddr ≤ endaddr then do
      let page ← getPage startaddr true dir
      let ret ← mapFrame page startaddr true isKernel isWritable
      if ret ≠ 0 then pure ret
      else identityMapLoop endaddr isKernel isWritable dir passes (add32 startaddr 0x1000)
    else pure 0

def identityMapMemoryBlock (startaddr endaddr : Nat) (isKernel isWritable : Bool) (dir : Nat) :
    EarlyM Int :=
  identityMapLoop endaddr isKernel isWritable dir (pagesInSpace + 1) startaddr

/-! ## `init_paging` -/

/-- The bitmap: counted in frames, allocated and cleared in bytes. -/
def initFrames (endOfMemory : Nat) : EarlyM Unit := do
  modify fun s => { s with gNframes := endOfMemory / 0x1000 }
  let s ← get
  let frames ← kmallocBase (s.gNframes / 32) true
  modify fun t => { t with gFrames := frames, framesBlock := ⟨frames, s.gNframes / 32⟩ }
  memsetZero frames (s.gNframes / 32)

/-- The kernel directory, and the tables that cover the kernel heap. -/
def initDirectory : EarlyM Unit := do
  let dir ← kmallocBase sizeofPageDirectory true
  modify fun s => { s with gKernelDirectory := dir }
  memsetZero dir sizeofPageDirectory
  write (physicalAddressField dir) (tablesPhysicalField dir 0)
  modify fun s => { s with gCurrentDirectory := dir }
  times (kheapMaxsize / 0x1000) fun i => do
    let _ ← getPage (kheapStart + i * 0x1000) true dir

/-- The identity mapping of low memory. -/
def mapLowMemory : EarlyM Unit := do
  let s ← get
  let _ ← identityMapMemoryBlock 0 (add32 s.placementAddress preheapspace) true false
    s.gKernelDirectory

/-- The first pages of the two heaps and the page buffer. -/
def mapHeaps : EarlyM Unit := do
  let s ← get
  let _ ← mapMemoryBlock kheapStart (kheapStart + kheapInitialSize) true false s.gKernelDirectory
  let _ ← mapMemoryBlock uheapStart (uheapStart + uheapInitialSize) false true s.gKernelDirectory
  let page ← getPage pageBufferLocation true s.gKernelDirectory
  let _ ← allocFrame page true false

/-- The identity mapping of the frame buffer of the screen. -/
def mapScreen (screen : Screen) : EarlyM Unit := do
  let s ← get
  let bufferSize := mul32 (mul32 screen.width screen.height) screen.bpp
  let _ ← identityMapMemoryBlock screen.fb (add32 screen.fb bufferSize) false true
    s.gKernelDirectory

def initPaging (endOfMemory : Nat) (screen : Screen) : EarlyM Unit := do
  initFrames endOfMemory
  initDirectory
  mapLowMemory
  mapHeaps
  mapScreen screen

end Early

end Yanix.Mm
