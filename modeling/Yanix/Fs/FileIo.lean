/-
Module: Yanix.Fs.FileIo
Purpose: `fs_read`, `fs_write` and `getdents` of `kernel/fs/fs.c`, and the calls on descriptors
  of `kernel/fs/vfs/vfs.c`: transfers, `vfs_fstat`, `vfs_lseek` and `vfs_close_fd`.
Trusted boundary: hand-translated from C; `kmalloc` succeeds, `errno` is left out, and the `int`
  additions of `vfs_lseek` wrap.  The functions of nodes and `dir_read` are parameters that do not
  touch descriptors.  Using a null node or `fs_info` is a fault
-/
import Yanix.Ds.FdVector
import Yanix.Ds.RingBuffer

namespace Yanix.Fs

open Foundation

/-- The fields of `vfs_node_t` that file transfers use. -/
structure VfsNode where
  offset : Nat
  filelength : Nat
deriving DecidableEq

/-- `filesystem_t`: block size and block functions.  `offset` names the file,
`blk` the first block of it, `σ` is the state of the file system. -/
structure Filesystem (σ : Type*) where
  blockSize : Nat
  blockRead : (offset blk : Nat) → (buf : Bytes) → (k : Nat) → (count : Nat) → σ → Int × Bytes
  blockWrite : (offset blk : Nat) → (buf : Bytes) → (k : Nat) → (count : Nat) → σ → Int × σ
  updateNode : VfsNode → σ → Int × σ

variable {σ : Type*}

/-- `e_rest` of both functions. -/
def endRest (blocksize seek amount : Nat) : Nat :=
  let sRest := seek % blocksize
  if sRest ≠ 0 ∧ blocksize - sRest > amount then 0
  else add32 amount (blocksize - sRest) % blocksize

/-- Bytes taken from or put into a partial first block. -/
def headSize (blocksize sRest amount : Nat) : Nat :=
  if amount < blocksize - sRest then amount else blocksize - sRest

/-! ## Reading -/

/-- The partial last block. -/
def fsReadTail (node : VfsNode) (fs : Filesystem σ) (fresh : Bytes) (st : σ) (eRest : Nat)
    (buf : Bytes) (blockiter k ret : Nat) : Int × Bytes :=
  if eRest ≠ 0 then
    let (r, tmp) := fs.blockRead node.offset blockiter fresh 0 1 st
    if r = 0 then (toSigned ret, buf)
    else (toSigned (add32 ret eRest), blit buf k tmp 0 eRest)
  else (toSigned ret, buf)

/-- Whole blocks; an incomplete transfer ends the call. -/
def fsReadBody (node : VfsNode) (fs : Filesystem σ) (fresh : Bytes) (st : σ) (blkcnt : Int)
    (eRest : Nat) (buf : Bytes) (blockiter k ret : Nat) : Int × Bytes :=
  if blkcnt ≠ 0 then
    let (blks, buf) := fs.blockRead node.offset blockiter buf k (ofSigned blkcnt) st
    let bytes := mul32 (ofSigned blks) fs.blockSize
    if blks ≠ blkcnt then (toSigned (add32 ret bytes), buf)
    else fsReadTail node fs fresh st eRest buf (add32 blockiter (ofSigned blkcnt))
      (add32 k bytes) (add32 ret bytes)
  else fsReadTail node fs fresh st eRest buf blockiter k ret

/-- `fresh i` is what the `i`-th temporary block holds when `kmalloc` returns it. -/
def fsRead (node : VfsNode) (fs : Filesystem σ) (seek : Int) (buf : Bytes) (amount : Nat)
    (_flags : Int) (fresh : Nat → Bytes) (st : σ) : Int × Bytes :=
  let blocksize := fs.blockSize
  let blockiter := ofSigned seek / blocksize
  let sRest := ofSigned seek % blocksize
  let eRest := endRest blocksize (ofSigned seek) amount
  let blkcnt := toSigned (amount / blocksize)
  if sRest ≠ 0 then
    let (r, tmp) := fs.blockRead node.offset blockiter (fresh 0) 0 1 st
    if r = 0 then (0, buf)
    else
      let size := headSize blocksize sRest amount
      fsReadBody node fs (fresh 1) st blkcnt eRest (blit buf 0 tmp sRest size)
        (add32 blockiter 1) size size
  else fsReadBody node fs (fresh 1) st blkcnt eRest buf blockiter 0 0

/-! ## Writing -/

/-- Read a block, put `n` bytes of the buffer into it at `start`, write it back.
Neither result is looked at. -/
def patchBlock (node : VfsNode) (fs : Filesystem σ) (fresh : Bytes) (blockiter start : Nat)
    (buf : Bytes) (k n : Nat) (st : σ) : σ :=
  let tmp := (fs.blockRead node.offset blockiter fresh 0 1 st).2
  (fs.blockWrite node.offset blockiter (blit tmp start buf k n) 0 1 st).2

/-- The new length of the file and the update of its node. -/
def fsWriteEnd (node : VfsNode) (fs : Filesystem σ) (seek : Int) (ret : Nat) (st : σ) :
    Int × VfsNode × σ :=
  let node := { node with filelength := add32 ret (ofSigned seek) }
  (toSigned ret, node, (fs.updateNode node st).2)

/-- The partial last block of a write. -/
def fsWriteTail (node : VfsNode) (fs : Filesystem σ) (fresh : Bytes) (seek : Int)
    (eRest : Nat) (buf : Bytes) (blockiter k ret : Nat) (st : σ) : Int × VfsNode × σ :=
  if eRest ≠ 0 then
    fsWriteEnd node fs seek (add32 ret eRest) (patchBlock node fs fresh blockiter 0 buf k eRest st)
  else fsWriteEnd node fs seek ret st

/-- Whole blocks; an incomplete transfer ends the call before the node is
updated. -/
def fsWriteBody (node : VfsNode) (fs : Filesystem σ) (fresh : Bytes) (seek : Int)
    (blkcnt : Int) (eRest : Nat) (buf : Bytes) (blockiter k ret : Nat) (st : σ) :
    Int × VfsNode × σ :=
  if blkcnt ≠ 0 then
    let (blks, st) := fs.blockWrite node.offset blockiter buf k (ofSigned blkcnt) st
    let bytes := mul32 (ofSigned blks) fs.blockSize
    if blks ≠ blkcnt then (toSigned (add32 ret bytes), node, st)
    else fsWriteTail node fs fresh seek eRest buf (add32 blockiter (ofSigned blks))
      (add32 k bytes) (add32 ret bytes) st
  else fsWriteTail node fs fresh seek eRest buf blockiter k ret st

def fsWrite (node : VfsNode) (fs : Filesystem σ) (seek : Int) (buf : Bytes) (amount : Nat)
    (_flags : Int) (fresh : Nat → Bytes) (st : σ) : Int × VfsNode × σ :=
  let blocksize := fs.blockSize
  let blockiter := ofSigned seek / blocksize
  let sRest := ofSigned seek % blocksize
  let eRest := endRest blocksize (ofSigned seek) amount
  let blkcnt := toSigned (sub32 amount eRest / blocksize)
  if sRest ≠ 0 then
    let size := headSize blocksize sRest amount
    let eRest := if amount < blocksize - sRest then 0 else eRest
    let st := patchBlock node fs (fresh 0) blockiter sRest buf 0 size st
    fsWriteBody node fs (fresh 1) seek blkcnt eRest buf (add32 blockiter 1) size size st
  else fsWriteBody node fs (fresh 1) seek blkcnt eRest buf blockiter 0 0 st

/-! ## Descriptors -/

/-- The fields of `struct file_descriptor` that file transfers use. -/
structure FileDescriptor where
  node : VfsNode
  seek : Int
  flags : Int

/-- `_vfs_read` on a node that has no `read` function of its own. -/
def vfsRead (fd : FileDescriptor) (fs : Filesystem σ) (buf : Bytes) (amount : Nat)
    (fresh : Nat → Bytes) (st : σ) : Int × Bytes × FileDescriptor :=
  let (ret, buf) := fsRead fd.node fs fd.seek buf amount fd.flags fresh st
  (ret, buf, { fd with seek := toSigned (add32 (ofSigned fd.seek) (ofSigned ret)) })

def ebadfd : Nat := 77

/-- Byte offsets of fields in `struct dirent`. -/
def dOffField : Nat := 4

def dReclenField : Nat := 8

def dNameField : Nat := 11

/-- A `struct dirent`: the memory behind a pointer to it.  The record reaches to its
name at least. -/
structure Dirent where
  mem : Bytes
  named : dNameField ≤ (mem dReclenField).toNat + 256 * (mem (dReclenField + 1)).toNat

/-- `d_reclen`, an unsigned short. -/
def Dirent.reclen (dirent : Dirent) : Nat :=
  (dirent.mem dReclenField).toNat + 256 * (dirent.mem (dReclenField + 1)).toNat

/-- `DIR`: the function of the file system that reads the next entry, if any, and the position in
the directory. -/
structure Dir (σ : Type*) where
  dirRead : Option (σ → Option Dirent × σ)
  cursor : σ

def vfsReaddir (dirstream : Dir σ) : Option Dirent × Dir σ := match dirstream.dirRead with
  | none => (none, dirstream)
  | some dirRead =>
    let (dirent, cursor) := dirRead dirstream.cursor
    (dirent, { dirstream with cursor := cursor })

/-- The return value, the buffer, the directory stream, and `errno` where it is set. -/
structure Dents (σ : Type*) where
  ret : Int
  buf : Bytes
  dirstream : Option (Dir σ)
  errno : Option Nat

/-- The loop of `getdents`; `buf` is byte `k` of the caller's buffer. -/
def getdentsLoop (count : Int) : (fuel : Nat) → (i : Int) → (k : Nat) → (buf : Bytes) →
    (dirstream : Dir σ) → Option (Dents σ)
  | 0, _, _, _, _ => none
  | fuel + 1, i, k, buf, dirstream =>
    if i < count then
      match vfsReaddir dirstream with
      | (none, dirstream) => some ⟨i, buf, some dirstream, none⟩
      | (some dirent, dirstream) =>
        let i := toSigned (add32 (ofSigned i) dirent.reclen)
        if i ≤ count then
          let buf := blit buf k dirent.mem 0 dirent.reclen
          let buf := store32 buf (k + dOffField) (ofSigned i)
          getdentsLoop count fuel i (k + dirent.reclen) buf dirstream
        else
          -- the stream has moved on already
          some ⟨toSigned (sub32 (ofSigned i) dirent.reclen), buf, some dirstream, none⟩
    else some ⟨i, buf, some dirstream, none⟩

/-- `fdStruct` is the descriptor, if there is one, with the stream its `seek` points to, if not
null. -/
def getdents (fdStruct : Option (Option (Dir σ))) (dir : Bytes) (count : Int) (fuel : Nat) :
    Option (Dents σ) :=
  match fdStruct with
  | none => some ⟨-1, dir, none, none⟩
  | some none => some ⟨-1, dir, none, some ebadfd⟩
  | some (some dirstream) => getdentsLoop count fuel 0 0 dir dirstream

end Yanix.Fs

namespace Yanix.Fs

open Foundation Ds

variable {σ : Type}

/-- `read_fpointer`, with the state of the devices.  A call that goes on waiting is
`none`. -/
abbrev ReadFunction (σ : Type) := VfsNode → (offset : Nat) → (buffer : Bytes) → (size : Nat) →
  (flags : UInt32) → σ → Option (Int × Bytes × σ)

/-- `write_fpointer` -/
abbrev WriteFunction (σ : Type) := VfsNode → (offset : Nat) → (buffer : Bytes) → (size : Nat) →
  (flags : UInt32) → σ → Option (Int × σ)

/-- A mounted file system; `blockRead` and `blockWrite` tell whether it has these functions. -/
structure FsInfo (σ : Type) where
  fs : Filesystem σ
  blockRead : Bool
  blockWrite : Bool

/-- The fields of `vfs_node_t` that a transfer looks at.  A null pointer is `none`. -/
structure FileNode (σ : Type) where
  file : VfsNode
  read : Option (ReadFunction σ)
  write : Option (WriteFunction σ)
  fsInfo : Option (FsInfo σ)

/-- The tables of descriptors, the nodes by their addresses, and the devices. -/
structure Files (σ : Type) where
  heap : Heap
  nodes : Nat → Option (FileNode σ)
  device : σ

namespace Files

def getNode (s : Files σ) (p : Nat) : Except Fault (FileNode σ) := match s.nodes p with
  | some node => .ok node
  | none => .error .dangling

/-- `fd_struct->seek += ret` -/
def advance (s : Files σ) (fdStruct : Nat × Int) (ret : Int) : Except Fault (Files σ) := do
  let slots ← s.heap.getBuffer fdStruct.1
  let fd ← readSlot slots fdStruct.2
  let slots ← writeSlot slots fdStruct.2 { fd with seek := fd.seek + UInt32.ofNat (ofSigned ret) }
  return { s with heap := s.heap.setBuffer fdStruct.1 slots }

end Files

/-- `node->fs_info` -/
def FileNode.getFsInfo (node : FileNode σ) : Except Fault (FsInfo σ) := match node.fsInfo with
  | some fsInfo => .ok fsInfo
  | none => .error .dangling

/-- `_vfs_read` -/
def vfsReadStruct (fdStruct : Nat × Int) (buf : Bytes) (amount : Nat) (fresh : Nat → Bytes)
    (s : Files σ) : Except Fault (Option (Int × Bytes × Files σ)) := do
  let fd ← slotAt fdStruct s.heap
  let node ← s.getNode fd.node
  match node.read with
  | some read =>
    match read node.file fd.seek.toNat buf amount fd.flags s.device with
    | none => return none
    | some (ret, buf, device) =>
      let s ← { s with device := device }.advance fdStruct ret
      return some (ret, buf, s)
  | none =>
    let fsInfo ← node.getFsInfo
    if fsInfo.blockRead then
      let (ret, buf) := fsRead node.file fsInfo.fs (toSigned fd.seek.toNat) buf amount
        (toSigned fd.flags.toNat) fresh s.device
      let s ← s.advance fdStruct ret
      return some (ret, buf, s)
    else return some (-1, buf, s)

def vfsReadFd (fds : Nat) (fd : Int) (buf : Bytes) (amount : Nat) (fresh : Nat → Bytes)
    (s : Files σ) : Except Fault (Option (Int × Bytes × Files σ)) := do
  match ← getFiledescriptor fds fd s.heap with
  | none => return some (-1, buf, s)
  | some fdStruct => vfsReadStruct fdStruct buf amount fresh s

/-- `_vfs_write`.  A write through the block file system changes the length in the node. -/
def vfsWriteStruct (fdStruct : Nat × Int) (buf : Bytes) (amount : Nat) (fresh : Nat → Bytes)
    (s : Files σ) : Except Fault (Option (Int × Files σ)) := do
  let fd ← slotAt fdStruct s.heap
  let node ← s.getNode fd.node
  match node.write with
  | some write =>
    match write node.file fd.seek.toNat buf amount fd.flags s.device with
    | none => return none
    | some (ret, device) =>
      let s ← { s with device := device }.advance fdStruct ret
      return some (ret, s)
  | none =>
    let fsInfo ← node.getFsInfo
    if fsInfo.blockWrite then
      let (ret, file, device) := fsWrite node.file fsInfo.fs (toSigned fd.seek.toNat) buf amount
        (toSigned fd.flags.toNat) fresh s.device
      let nodes := Function.update s.nodes fd.node (some { node with file := file })
      let s ← { s with nodes := nodes, device := device }.advance fdStruct ret
      return some (ret, s)
    else return some (-1, s)

def vfsWriteFd (fds : Nat) (fd : Int) (buf : Bytes) (amount : Nat) (fresh : Nat → Bytes)
    (s : Files σ) : Except Fault (Option (Int × Files σ)) := do
  match ← getFiledescriptor fds fd s.heap with
  | none => return some (-1, s)
  | some fdStruct => vfsWriteStruct fdStruct buf amount fresh s

/-! ## Pipes

The devices are the pipes by their addresses; a node of a pipe has the address in its
`offset`. -/

def pipeRead : ReadFunction (Nat → Option Pipe) := fun node _ buffer size flags pipes =>
  match pipeReadRaw (pipes node.offset) buffer (UInt32.ofNat size) flags with
  | none => none
  | some (.error _) => some (-1, buffer, pipes)
  | some (.ok (ret, buffer, pipe)) =>
    some (ret, buffer, Function.update pipes node.offset (some pipe))

def pipeWrite : WriteFunction (Nat → Option Pipe) := fun node _ buffer size flags pipes =>
  match pipeWriteRaw (pipes node.offset) buffer (UInt32.ofNat size) flags with
  | .error _ => some (-1, pipes)
  | .ok (ret, pipe) => some (ret, Function.update pipes node.offset (some pipe))

/-! ## The null device of `kernel/fs/fs.c` -/

def readNull : ReadFunction σ := fun _ _ buffer size _ device =>
  some (toSigned size, blit buffer 0 (fun _ => 0) 0 size, device)

def writeNull : WriteFunction σ := fun _ _ _ size _ device => some (toSigned size, device)

/-- The fields of `vfs_node_t` that these calls look at besides those of a transfer. -/
structure NodeAttributes (σ : Type) where
  id : UInt32
  type : UInt8
  nlink : UInt8
  uid : UInt32
  gid : UInt32
  close : Option (σ → σ)

/-- `struct stat` without the times, which are not written. -/
structure Stat where
  stDev : UInt16
  stIno : UInt16
  stMode : UInt32
  stNlink : UInt32
  stUid : UInt32
  stGid : UInt32
  stRdev : UInt32
  stSize : UInt32
  stBlksize : UInt32
  stBlocks : UInt32
deriving DecidableEq

/-- `vfs_to_stat`, from the type of a node to the bits of `S_IFMT`. -/
def vfsToStat (type : UInt8) : UInt16 := if type = 1 then 0x8000
  else if type = 2 then 0x4000
  else if type = 3 then 0x2000
  else if type = 4 then 0x6000
  else if type = 5 then 0x1000
  else if type = 6 then 0xa000
  else type.toUInt16

/-- `_vfs_stat`; the null node is zero. -/
def vfsStatNode (attributes : Nat → NodeAttributes σ) (p : Nat) (mode : UInt32) (statbuf : Stat)
    (s : Files σ) : Except Fault (Int × Stat) :=
  if p = 0 then .ok (-1, statbuf)
  else do
    let node ← s.getNode p
    let fsInfo ← node.getFsInfo
    let own := attributes p
    return (0,
      { stDev := 0
        stIno := own.id.toUInt16
        stMode := (vfsToStat own.type ||| mode.toUInt16).toUInt32
        stNlink := own.nlink.toUInt32
        stUid := own.uid
        stGid := own.gid
        stRdev := 0
        stSize := UInt32.ofNat node.file.filelength
        stBlksize := UInt32.ofNat fsInfo.fs.blockSize
        stBlocks := UInt32.ofNat (ofSigned (Libk.roundup (toSigned node.file.filelength) 512)) })

def vfsFstat (attributes : Nat → NodeAttributes σ) (fds : Nat) (fd : Int) (statbuf : Stat)
    (s : Files σ) : Except Fault (Int × Stat) := do
  match ← getFiledescriptor fds fd s.heap with
  | none => return (-1, statbuf)
  | some fdStruct =>
    let slot ← slotAt fdStruct s.heap
    vfsStatNode attributes slot.node slot.mode statbuf s

/-- `fd_struct->seek = offset`, and the offset is returned. -/
def Files.setSeek (s : Files σ) (fdStruct : Nat × Int) (offset : UInt32) :
    Except Fault (Int × Files σ) := do
  let slots ← s.heap.getBuffer fdStruct.1
  let slot ← readSlot slots fdStruct.2
  let slots ← writeSlot slots fdStruct.2 { slot with seek := offset }
  return (toSigned offset.toNat, { s with heap := s.heap.setBuffer fdStruct.1 slots })

def seekCur : Int := 1

def seekEnd : Int := 2

/-- `statbuf` is what the stack holds. -/
def vfsLseek (attributes : Nat → NodeAttributes σ) (fds : Nat) (fd : Int) (offset : UInt32)
    (whence : Int) (statbuf : Stat) (s : Files σ) : Except Fault (Int × Files σ) := do
  match ← getFiledescriptor fds fd s.heap with
  | none => return (-1, s)
  | some fdStruct =>
    let slot ← slotAt fdStruct s.heap
    if whence = seekCur then s.setSeek fdStruct (offset + slot.seek)
    else if whence = seekEnd then
      let (ret, statbuf) ← vfsFstat attributes fds fd statbuf s
      if ret = -1 then return (-1, s) else s.setSeek fdStruct (offset + statbuf.stSize)
    else s.setSeek fdStruct offset

/-- `close_filedescriptor` on the tables of a state. -/
def Files.closeDescriptor (s : Files σ) (fds : Nat) (fd : Int) : Except Fault (Int × Files σ) := do
  let (ret, heap) ← closeFiledescriptor fds fd s.heap
  return (ret, { s with heap := heap })

def vfsCloseFd (attributes : Nat → NodeAttributes σ) (fds : Nat) (fd : Int) (s : Files σ) :
    Except Fault (Int × Files σ) := do
  let p ← getFiledescriptorNode fds fd s.heap
  if p = 0 then return (-1, s)
  else
    let _ ← s.getNode p
    match (attributes p).close with
    | some close => Files.closeDescriptor { s with device := close s.device } fds fd
    | none => s.closeDescriptor fds fd

end Yanix.Fs
