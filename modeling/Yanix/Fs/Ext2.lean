/-
Module: Yanix.Fs.Ext2
Purpose: `kernel/fs/ext2/ext2.c`: the block map, inodes and files, the search for a free
  block or inode, the creation of an inode, and directory streams.
Trusted boundary: hand-translated from C; `kmalloc` succeeds, `printk` and closing a stream are left
  out.  A block from `kmalloc` stands for the memory around it as well: its index `x` is the byte
  `x` behind its start, modulo 2^32
-/
import Yanix.Drivers.Disk
import Yanix.Fs.FileIo

namespace Yanix.Fs

open Foundation Drivers

def ext2DirectBpAmount : Nat := 12

/-- `sizeof(uint32_t)` -/
def sizeofUint32 : Nat := 4

/-- The block pointers of `ext2_inode_t`, without the triple-indirect one. -/
structure Ext2Inode where
  directBlockPointer : Fin ext2DirectBpAmount → UInt32
  singleIndirectBlockPointer : UInt32
  doubleIndirectBlockPointer : UInt32

/-- The fields of `filesystem_t` the block map uses. -/
structure FsFields (σ : Type*) where
  blockSize : Nat
  partstart : Nat
  diskInfo : Disk σ

variable {σ : Type*}

def ext2DiskRead (offset : Nat) (buf : Bytes) (size : Nat) (fsInfo : FsFields σ)
    (fresh : Nat → Bytes) (st : σ) : ReadResult :=
  diskRead (add32 offset fsInfo.partstart) buf size fsInfo.diskInfo fresh st

/-- `bp[index]` for a `uint32_t *bp` and an `unsigned int index`. -/
def pointerAt (bp : Bytes) (index : Nat) : Nat := load32 bp (mul32 index sizeofUint32)

/-- The guess for a block pointer that is zero between others that are not.  The
neighbours may lie outside the block of pointers. -/
def fillGap (indirectBp : Bytes) (blkToRd blockSize : Nat) : Nat :=
  if pointerAt indirectBp (add32 blkToRd 1) ≠ 0 ∨ pointerAt indirectBp (add32 blkToRd 2) ≠ 0 then
    if pointerAt indirectBp (add32 blkToRd 1) = add32 (pointerAt indirectBp (sub32 blkToRd 1)) 2 ∨
        pointerAt indirectBp (add32 blkToRd 2) =
          add32 (pointerAt indirectBp (sub32 blkToRd 1)) 3 then
      mul32 (add32 (pointerAt indirectBp (sub32 blkToRd 1)) 1) blockSize
    else if pointerAt indirectBp (add32 blkToRd 1) =
        add32 (pointerAt indirectBp (sub32 blkToRd 2)) 3 then
      mul32 (add32 (pointerAt indirectBp (sub32 blkToRd 2)) 2) blockSize
    else 0
  else 0

/-- `kmalloc` is what the call for the block of pointers returns, `none` when it
fails. -/
def handleIndirectBp (indirectBpIndex blkToRd : Nat) (fsInfo : FsFields σ)
    (kmalloc : Option Bytes) (fresh : Nat → Bytes) (st : σ) : Nat :=
  match kmalloc with
  | none => 0
  | some block =>
    let indirectBp := (ext2DiskRead (mul32 indirectBpIndex fsInfo.blockSize) block
      fsInfo.blockSize fsInfo fresh st).buf
    let ret := mul32 (pointerAt indirectBp blkToRd) fsInfo.blockSize
    if ret = 0 then fillGap indirectBp blkToRd fsInfo.blockSize else ret

/-- The entries that the search for a missing pointer reads, in the order of the source: `||`
does not look at its right side when the left one holds. -/
def fillGapReads (indirectBp : Bytes) (blkToRd : Nat) : List Nat :=
  let next := pointerAt indirectBp (add32 blkToRd 1)
  let second := pointerAt indirectBp (add32 blkToRd 2)
  let previous := pointerAt indirectBp (sub32 blkToRd 1)
  let before := pointerAt indirectBp (sub32 blkToRd 2)
  let around := add32 blkToRd 1 :: if next ≠ 0 then [] else [add32 blkToRd 2]
  if next ≠ 0 ∨ second ≠ 0 then
    around ++ [add32 blkToRd 1, sub32 blkToRd 1] ++
      if next = add32 previous 2 then [sub32 blkToRd 1]
      else [add32 blkToRd 2, sub32 blkToRd 1] ++ if second = add32 previous 3 then [sub32 blkToRd 1]
        else [add32 blkToRd 1, sub32 blkToRd 2] ++
          if next = add32 before 3 then [sub32 blkToRd 2] else []
  else around

/-- The entries that `handle_indirect_bp` reads in a block of pointers. -/
def indirectReads (indirectBp : Bytes) (blkToRd blockSize : Nat) : List Nat := blkToRd ::
    if mul32 (pointerAt indirectBp blkToRd) blockSize = 0 then fillGapReads indirectBp blkToRd
    else []

def handleIndirectBpReads (indirectBpIndex blkToRd : Nat) (fsInfo : FsFields σ)
    (kmalloc : Option Bytes) (fresh : Nat → Bytes) (st : σ) : List Nat :=
  match kmalloc with
  | none => []
  | some block =>
    let indirectBp := (ext2DiskRead (mul32 indirectBpIndex fsInfo.blockSize) block
      fsInfo.blockSize fsInfo fresh st).buf
    indirectReads indirectBp blkToRd fsInfo.blockSize

/-- The block of double-indirect pointers has been allocated. -/
def doubleIndirect (inode : Ext2Inode) (blockToRead : Nat) (fsInfo : FsFields σ)
    (block : Bytes) (kmalloc : Option Bytes) (fresh : Nat → Bytes) (st : σ) : Nat :=
  if inode.doubleIndirectBlockPointer.toNat = 0 then 0
  else
    let dIndirectBp := (ext2DiskRead
      (mul32 inode.doubleIndirectBlockPointer.toNat fsInfo.blockSize) block fsInfo.blockSize fsInfo
      fresh st).buf
    let pointers := fsInfo.blockSize / sizeofUint32
    let indirectBpIndex :=
      sub32 (sub32 blockToRead pointers) ext2DirectBpAmount / pointers
    let blockIndex := sub32 (sub32 blockToRead pointers) ext2DirectBpAmount % pointers
    let indirectToRead := pointerAt dIndirectBp indirectBpIndex
    if indirectToRead = 0 then 0
    else handleIndirectBp indirectToRead blockIndex fsInfo kmalloc (fun i => fresh (i + 2)) st

/-- `kmalloc i` is the result of the `i`-th allocation. Triple-indirect blocks are not implemented
and larger files refused: both are `0`. -/
def ext2GetInodeDataOffset (inode : Ext2Inode) (blockToRead : Nat) (fsInfo : FsFields σ)
    (kmalloc : Nat → Option Bytes) (fresh : Nat → Bytes) (st : σ) : Nat :=
  if direct : blockToRead < ext2DirectBpAmount then
    mul32 (inode.directBlockPointer ⟨blockToRead, direct⟩).toNat fsInfo.blockSize
  else if blockToRead < add32 (fsInfo.blockSize / sizeofUint32) ext2DirectBpAmount then
    handleIndirectBp inode.singleIndirectBlockPointer.toNat
      (sub32 blockToRead ext2DirectBpAmount) fsInfo (kmalloc 0) fresh st
  else if blockToRead <
      add32 (Libk.pow (fsInfo.blockSize / sizeofUint32) 2) ext2DirectBpAmount then
    match kmalloc 0 with
    | none => 0
    | some block => doubleIndirect inode blockToRead fsInfo block (kmalloc 1) fresh st
  else 0

def efbig : Nat := 27

def ext2DefaultInodeSize : Nat := 128

/-- The fields of `ext2_superblock_t` the driver uses. -/
structure Superblock where
  totalInodes : UInt32
  totalBlocks : UInt32
  blockNumberOfSuperblock : UInt32
  blocksInBlockgroup : UInt32
  inodesInBlockgroup : UInt32
  majorVersion : UInt32
  inodeSize : UInt16

/-- The fields of `ext2_block_group_descriptor_t` the driver uses. -/
structure BlockGroupDescriptor where
  blockBitmap : UInt32
  inodeBitmap : UInt32
  startInodeTable : UInt32

/-- `filesystem_t` with the superblock and the block group descriptors that mounting has copied. -/
structure Ext2Fs (σ : Type*) extends FsFields σ where
  superblock : Superblock
  blockgroupList : Nat → BlockGroupDescriptor

def ext2DiskWrite (offset : Nat) (buf : Bytes) (size : Nat) (fsInfo : FsFields σ)
    (fresh : Nat → Bytes) (st : σ) : Int × σ :=
  diskWrite (add32 offset fsInfo.partstart) buf size fsInfo.diskInfo fresh st

/-! ## Inode records -/

def ext2GetInodeSize (fsInfo : Ext2Fs σ) : Nat :=
  if fsInfo.superblock.majorVersion.toNat ≥ 1 then fsInfo.superblock.inodeSize.toNat
  else ext2DefaultInodeSize

def ext2GetInodeOffset (inode : Nat) (fsInfo : Ext2Fs σ) : Nat :=
  let blockgroup := sub32 inode 1 / fsInfo.superblock.inodesInBlockgroup.toNat
  let index := sub32 inode 1 % fsInfo.superblock.inodesInBlockgroup.toNat
  let containingBlock := mul32 index (ext2GetInodeSize fsInfo) / fsInfo.blockSize
  let inodeOffset := (fsInfo.blockgroupList blockgroup).startInodeTable.toNat
  let inodeOffset := add32 inodeOffset containingBlock
  let inodeOffset := mul32 inodeOffset fsInfo.blockSize
  add32 inodeOffset (mul32 (index % (fsInfo.blockSize / ext2GetInodeSize fsInfo))
    (ext2GetInodeSize fsInfo))

/-- `block` is the memory `kmalloc` returns for the record. -/
def ext2GetInodeRef (inode : Nat) (fsInfo : Ext2Fs σ) (block : Bytes) (fresh : Nat → Bytes)
    (st : σ) : Bytes :=
  (ext2DiskRead (ext2GetInodeOffset inode fsInfo) block (ext2GetInodeSize fsInfo)
    fsInfo.toFsFields fresh st).buf

/-- Byte offsets of fields in the packed `ext2_inode_t`. -/
def inodeSizeField : Nat := 4

def directBlockPointerField : Nat := 40

def singleIndirectBlockPointerField : Nat := 88

def doubleIndirectBlockPointerField : Nat := 92

/-- The block pointers of a record in memory. -/
def inodePointers (inodeRef : Bytes) : Ext2Inode where
  directBlockPointer i :=
    UInt32.ofNat (load32 inodeRef (directBlockPointerField + i * sizeofUint32))
  singleIndirectBlockPointer := UInt32.ofNat (load32 inodeRef singleIndirectBlockPointerField)
  doubleIndirectBlockPointer := UInt32.ofNat (load32 inodeRef doubleIndirectBlockPointerField)

def ext2WriteInode (inodeRef : Bytes) (inode : Nat) (fsInfo : Ext2Fs σ) (fresh : Nat → Bytes)
    (st : σ) : Int × σ :=
  ext2DiskWrite (ext2GetInodeOffset inode fsInfo) inodeRef (ext2GetInodeSize fsInfo)
    fsInfo.toFsFields fresh st

/-- `kmalloc` is what the call for the record returns; `fresh` are the sectors of the read and of
the write. -/
def ext2UpdateNode (node : VfsNode) (fsInfo : Ext2Fs σ) (kmalloc : Option Bytes)
    (fresh : Nat → Nat → Bytes) (st : σ) : Int × σ :=
  match kmalloc with
  | none => (-1, st)
  | some block =>
    let inodeRef := ext2GetInodeRef node.offset fsInfo block (fresh 0) st
    let inodeRef := store32 inodeRef inodeSizeField node.filelength
    ext2WriteInode inodeRef node.offset fsInfo (fresh 1) st

/-! ## Blocks of a file -/

/-- What `kmalloc` returns while one block is transferred: blocks of pointers, and what sectors
hold. -/
structure BlockMemory where
  blocks : Nat → Option Bytes
  sectors : Nat → Bytes

/-- The return value, the buffer, and `errno` where it is set. -/
structure BlockRead where
  ret : Nat
  buf : Bytes
  errno : Option Nat

def ext2ReadInodeBlock (inode : Ext2Inode) (blockToRead : Nat) (buf : Bytes)
    (fsInfo : FsFields σ) (memory : BlockMemory) (st : σ) : BlockRead :=
  let dataOffset := ext2GetInodeDataOffset inode blockToRead fsInfo memory.blocks memory.sectors st
  if dataOffset = 0 then ⟨0, buf, some efbig⟩
  else
    let result := ext2DiskRead dataOffset buf fsInfo.blockSize fsInfo
      (fun i => memory.sectors (i + 4)) st
    ⟨ofSigned result.ret, result.buf, none⟩

/-- The return value, the disk, and `errno` where it is set. -/
structure BlockWrite (σ : Type*) where
  ret : Nat
  disk : σ
  errno : Option Nat

def ext2WriteInodeBlock (inode : Ext2Inode) (blockToRead : Nat) (buf : Bytes)
    (fsInfo : FsFields σ) (memory : BlockMemory) (st : σ) : BlockWrite σ :=
  let dataOffset := ext2GetInodeDataOffset inode blockToRead fsInfo memory.blocks memory.sectors st
  if dataOffset = 0 then ⟨0, st, some efbig⟩
  else
    let result := ext2DiskWrite dataOffset buf fsInfo.blockSize fsInfo
      (fun i => memory.sectors (i + 4)) st
    ⟨ofSigned result.1, result.2, none⟩

/-! ## Files -/

/-- What `kmalloc` returns during a file transfer: the inode record, sectors for reading it, and
what block `i` of the file needs. -/
structure FileMemory where
  inodeRef : Option Bytes
  sectors : Nat → Bytes
  blocks : Nat → BlockMemory

/-- The loop of `ext2_read_file`.  `buffer` is byte `k` of the caller's buffer. -/
def readBlocks (inodeRef : Ext2Inode) (fsInfo : FsFields σ) (memory : Nat → BlockMemory)
    (st : σ) : (rounds i k : Nat) → (buf : Bytes) → (ret : Nat) → Nat × Bytes
  | 0, _, _, buf, ret => (ret, buf)
  | rounds + 1, i, k, buf, ret =>
    let result := ext2ReadInodeBlock inodeRef i (suffix buf k) fsInfo (memory i) st
    let buf := withSuffix buf k result.buf
    if result.ret = 0 then (ret, buf)
    else readBlocks inodeRef fsInfo memory st rounds (i + 1) (k + fsInfo.blockSize) buf
      (add32 ret 1)

def ext2ReadFile (inode offset : Nat) (buf : Bytes) (k blockCount : Nat) (fsInfo : Ext2Fs σ)
    (memory : FileMemory) (st : σ) : Int × Bytes :=
  match memory.inodeRef with
  | none => (-1, buf)
  | some block =>
    let inodeRef := ext2GetInodeRef inode fsInfo block memory.sectors st
    let (ret, buf) := readBlocks (inodePointers inodeRef) fsInfo.toFsFields memory.blocks
      st (add32 blockCount offset - offset) offset k buf 0
    (toSigned ret, buf)

/-- The loop of `ext2_write_file`. -/
def writeBlocks (inodeRef : Ext2Inode) (fsInfo : FsFields σ) (memory : Nat → BlockMemory)
    (buf : Bytes) : (rounds i k ret : Nat) → σ → Nat × σ
  | 0, _, _, ret, st => (ret, st)
  | rounds + 1, i, k, ret, st =>
    let result := ext2WriteInodeBlock inodeRef i (suffix buf k) fsInfo (memory i) st
    if result.ret = 0 then (ret, result.disk)
    else writeBlocks inodeRef fsInfo memory buf rounds (i + 1) (k + fsInfo.blockSize)
      (add32 ret 1) result.disk

def ext2WriteFile (inode offset : Nat) (buf : Bytes) (k blockCount : Nat) (fsInfo : Ext2Fs σ)
    (memory : FileMemory) (st : σ) : Int × σ :=
  match memory.inodeRef with
  | none => (-1, st)
  | some block =>
    let inodeRef := ext2GetInodeRef inode fsInfo block memory.sectors st
    let (ret, st) := writeBlocks (inodePointers inodeRef) fsInfo.toFsFields memory.blocks
      buf (add32 blockCount offset - offset) offset k 0 st
    (toSigned ret, st)

/-- What `register_filesystem` is given for ext2, each call finding the same memory. -/
def ext2Filesystem (fsInfo : Ext2Fs σ) (memory : FileMemory) (fresh : Nat → Nat → Bytes) :
    Filesystem σ where
  blockSize := fsInfo.blockSize
  blockRead offset blk buf k count st := ext2ReadFile offset blk buf k count fsInfo memory st
  blockWrite offset blk buf k count st := ext2WriteFile offset blk buf k count fsInfo memory st
  updateNode node st := ext2UpdateNode node fsInfo memory.inodeRef fresh st

/-- What `kmalloc` returns during a call: the buffer for a bitmap, and sectors for reading the
bitmap of a group and for the write. -/
structure AllocMemory where
  bitmap : Bytes
  readSectors : Nat → Nat → Bytes
  writeSectors : Nat → Bytes

/-- Both functions count the groups by blocks. -/
def bgdAmount (fsInfo : Ext2Fs σ) : Nat :=
  ofSigned (Libk.roundup (toSigned fsInfo.superblock.totalBlocks.toNat)
    (toSigned fsInfo.superblock.blocksInBlockgroup.toNat))

/-- The loops over the words of a bitmap and the bits of a word. -/
def findClear (bitmap : Bytes) (blockSize : Nat) : Option (Nat × Nat) :=
  (List.range (blockSize / 4)).findSome? fun i =>
    if words32 bitmap i ≠ 0xFFFFFFFF#32 then
      ((List.range 32).find? fun j => Libk.getbit (words32 bitmap i) j = 0#32).map (i, ·)
    else none

/-- The loop over the groups.  `read` fills the buffer with the bitmap of a group. -/
def allocFromBitmaps (location : Nat → Nat) (read : Nat → Bytes → Bytes)
    (fsInfo : FsFields σ) (writeSectors : Nat → Bytes) (st : σ) :
    (rounds bgd : Nat) → (bitmap : Bytes) → Nat × σ
  | 0, _, _ => (0, st)
  | rounds + 1, bgd, bitmap =>
    let bitmap := read bgd bitmap
    match findClear bitmap fsInfo.blockSize with
    | some (i, j) =>
      let bitmap := store32 bitmap (i * 4) (words32 bitmap i ||| 1#32 <<< j).toNat
      -- the write does not add the start of the partition
      (add32 (mul32 i 32) j, (diskWrite (location bgd) bitmap fsInfo.blockSize
        fsInfo.diskInfo writeSectors st).2)
    | none => allocFromBitmaps location read fsInfo writeSectors st rounds (bgd + 1) bitmap

def blockBitmapLocation (fsInfo : Ext2Fs σ) (bgd : Nat) : Nat :=
  mul32 (fsInfo.blockgroupList bgd).blockBitmap.toNat fsInfo.blockSize

def inodeBitmapLocation (fsInfo : Ext2Fs σ) (bgd : Nat) : Nat :=
  mul32 (fsInfo.blockgroupList bgd).inodeBitmap.toNat fsInfo.blockSize

/-- Reads the bitmap from the disk, not from the partition. -/
def ext2AllocBlock (fsInfo : Ext2Fs σ) (memory : AllocMemory) (st : σ) : Nat × σ :=
  let location := blockBitmapLocation fsInfo
  allocFromBitmaps location
    (fun bgd bitmap => (diskRead (location bgd) bitmap fsInfo.blockSize fsInfo.diskInfo
      (memory.readSectors bgd) st).buf)
    fsInfo.toFsFields memory.writeSectors st (bgdAmount fsInfo) 0 memory.bitmap

/-- Reads the bitmap from the partition. -/
def ext2AllocInode (fsInfo : Ext2Fs σ) (memory : AllocMemory) (st : σ) : Nat × σ :=
  let location := inodeBitmapLocation fsInfo
  allocFromBitmaps location (fun bgd bitmap => (ext2DiskRead (location bgd) bitmap fsInfo.blockSize
      fsInfo.toFsFields (memory.readSectors bgd) st).buf)
    fsInfo.toFsFields memory.writeSectors st (bgdAmount fsInfo) 0 memory.bitmap

/-- `sizeof(ext2_inode_t)` -/
def sizeofExt2Inode : Nat := 128

def typePermissionsField : Nat := 0

def uidField : Nat := 2

def gidField : Nat := 24

def diskSectorsField : Nat := 28

def flagsField : Nat := 32

def ext2WriteBlock (block : Nat) (buf : Bytes) (fsInfo : FsFields σ)
    (fresh : Nat → Bytes) (st : σ) : Int × σ :=
  ext2DiskWrite (mul32 block fsInfo.blockSize) buf fsInfo.blockSize fsInfo fresh st

/-- The function is not implemented: it reports success and adds nothing. -/
def ext2AddDir (_parentInode _inode : Nat) (_name : List UInt8) (_typeIndicator : UInt16) : Int := 0

/-- What `kmalloc` returns during a call: what the allocators need, for the inode and for each
block, the record, and the sectors of each write. -/
structure CreateMemory where
  inode : AllocMemory
  newInodeRef : Bytes
  block : Nat → AllocMemory
  blockSectors : Nat → Nat → Bytes
  recordSectors : Nat → Bytes

/-- The number of blocks of the data. -/
def newDiskSectors (size blockSize : Nat) : Nat := if size = 0 then 0
  else if size % blockSize = 0 then size / blockSize
  else size / blockSize + 1

/-- The record in memory: cleared, then filled in.  No block pointer is ever set. -/
def newInodeRecord (newInodeRef : Bytes) (type permissions uid gid size flags : UInt16)
    (blockSize : Nat) : Bytes :=
  let newInodeRef := blit newInodeRef 0 (fun _ => 0) 0 sizeofExt2Inode
  let newInodeRef := store16 newInodeRef typePermissionsField (type ||| permissions).toNat
  let newInodeRef := store16 newInodeRef uidField uid.toNat
  let newInodeRef := store16 newInodeRef gidField gid.toNat
  let newInodeRef := store32 newInodeRef inodeSizeField size.toNat
  let newInodeRef := store32 newInodeRef flagsField flags.toNat
  store32 newInodeRef diskSectorsField (newDiskSectors size.toNat blockSize)

/-- The loop over the blocks of the data, which ends early when no block is left. -/
def writeNewBlocks (buf : Bytes) (fsInfo : Ext2Fs σ) (memory : CreateMemory) :
    (rounds i : Nat) → σ → σ
  | 0, _, st => st
  | rounds + 1, i, st =>
    let (block, st) := ext2AllocBlock fsInfo (memory.block i) st
    if block = 0 then st
    else
      let st := (ext2WriteBlock block (suffix buf (mul32 i fsInfo.blockSize))
        fsInfo.toFsFields (memory.blockSectors i) st).2
      writeNewBlocks buf fsInfo memory rounds (i + 1) st

/-- The number of the new inode and the disk. `_ext2_dealloc_inode`, called when the inode could not
be added to the directory, does nothing. -/
def ext2CreateInode (parentInode : Nat) (name : List UInt8)
    (type permissions uid gid size flags : UInt16) (buf : Bytes) (fsInfo : Ext2Fs σ)
    (memory : CreateMemory) (st : σ) : Nat × σ :=
  let (newInode, st) := ext2AllocInode fsInfo memory.inode st
  if ext2AddDir parentInode newInode name type = -1 then (0, st)
  else
    let newInodeRef := newInodeRecord memory.newInodeRef type permissions uid gid size flags
      fsInfo.blockSize
    let st := writeNewBlocks buf fsInfo memory (newDiskSectors size.toNat fsInfo.blockSize) 0 st
    (newInode, (ext2WriteInode newInodeRef newInode fsInfo memory.recordSectors st).2)

def ext2InodeTypeDir : Nat := 0x4000

/-- `_ext2_inode_type_to_vfs_type`, whose values are those of the types of inodes. -/
def ext2InodeTypeToVfsType (type : Nat) : UInt8 := if type = ext2InodeTypeDir then 2
  else if type = 0x8000 then 1
  else if type = 0x2000 then 3
  else if type = 0x6000 then 4
  else if type = 0x1000 then 5
  else if type = 0xa000 then 6
  else if type = 0xc000 then 9
  else 0

/-- The fields of the packed `ext2_directory_entry_t` at the start of `tmp`. -/
def entryInode (tmp : Bytes) : Nat := load32 tmp 0

def entryTotalSize (tmp : Bytes) : Nat := (tmp 4).toNat + 256 * (tmp 5).toNat

def entryNameLength (tmp : Bytes) : Nat := (tmp 6).toNat

def entryTypeIndicator (tmp : Bytes) : Nat := (tmp 7).toNat

def entryName (tmp : Bytes) : List UInt8 := contents (suffix tmp 8) (entryNameLength tmp)

/-- The fields of `DIR` that the driver uses. -/
structure DirStream where
  nextDirentryOffset : Nat
  inode : Nat
  blockpointerindex : Nat
  lastentrysize : Nat
  filebuffer : Bytes

/-- The `struct dirent` inside a stream, which a call returns a pointer to.  The name is
what stands before its terminator. -/
structure StreamEntry where
  dIno : Nat
  dOff : Nat
  dReclen : Nat
  dType : UInt8
  dName : List UInt8

/-- `sizeof(struct dirent)` -/
def sizeofDirent : Nat := 12

/-- What `kmalloc` returns while a block of a directory is read: the inode record, sectors for
reading it, and what the block itself needs. -/
structure DirMemory where
  inodeRef : Bytes
  sectors : Nat → Bytes
  block : BlockMemory

/-- `_ext2_read_inode_block` for a block of the directory, with the record read anew. -/
def readDirBlock (inode index : Nat) (buf : Bytes) (fsInfo : Ext2Fs σ) (memory : DirMemory)
    (st : σ) : BlockRead :=
  let inodeRef := ext2GetInodeRef inode fsInfo memory.inodeRef memory.sectors st
  ext2ReadInodeBlock (inodePointers inodeRef) index buf fsInfo.toFsFields memory.block st

/-- `filebuffer` is the block that `kmalloc` returns for the buffer.  Whether the first block
could be read is not looked at. -/
def ext2OpenDirStream (inode : Nat) (fsInfo : Ext2Fs σ) (memory : DirMemory)
    (filebuffer : Bytes) (st : σ) : Option DirStream :=
  let inodeRef := ext2GetInodeRef inode fsInfo memory.inodeRef memory.sectors st
  let typePermissions := (inodeRef 0).toNat + 256 * (inodeRef 1).toNat
  if typePermissions &&& ext2InodeTypeDir = 0 then none
  else some ⟨0, inode, 0, 0, (readDirBlock inode 0 filebuffer fsInfo memory st).buf⟩

/-- What a call returns, the stream afterwards, and which bytes of the buffer were read as an
entry's header: the first one and how many. -/
structure DirCall where
  entry : Option StreamEntry
  dirp : DirStream
  header : Option (Nat × Nat)

/-- Behind the last entry of a block the next one is read, if there is one. -/
def reload (fsInfo : Ext2Fs σ) (memory : Nat → DirMemory) (st : σ) (dirp : DirStream) :
    Bool × DirStream :=
  if fsInfo.blockSize ≤ dirp.nextDirentryOffset then
    let index := dirp.blockpointerindex + 1
    let result := readDirBlock dirp.inode index dirp.filebuffer fsInfo (memory index) st
    if result.ret = 0 then
      (false, { dirp with blockpointerindex := index, filebuffer := result.buf })
    else
      (true, { dirp with
        blockpointerindex := index
        filebuffer := result.buf
        nextDirentryOffset := 0 })
  else (true, dirp)

/-- `memory i` is what `kmalloc` returns while block `i` is read. -/
def ext2ReadDir (fsInfo : Ext2Fs σ) (memory : Nat → DirMemory) (st : σ) (dirp : DirStream) :
    DirCall :=
  match reload fsInfo memory st dirp with
  | (false, dirp) => ⟨none, dirp, none⟩
  | (true, dirp) =>
    let start := dirp.nextDirentryOffset
    let tmp := suffix dirp.filebuffer start
    -- An entry that is not in use ends the enumeration, and the stream stays where it is.
    if entryInode tmp = 0 then ⟨none, dirp, some (start, 4)⟩
    else
      let next := add32 start (entryTotalSize tmp)
      ⟨some
          { dIno := entryInode tmp
            dOff := next
            dReclen := entryNameLength tmp + sizeofDirent + 1
            dType := ext2InodeTypeToVfsType (entryTypeIndicator tmp)
            dName := entryName tmp },
        { dirp with nextDirentryOffset := next, lastentrysize := entryTotalSize tmp },
        some (start, 8)⟩

end Yanix.Fs
