/-
Module: Yanix.Drivers.Disk
Purpose: `disk_read` and `disk_write` of `kernel/drivers/disk.c`.  A buffer is an object
  with an index into it; `memcpy` between two different objects is `blit`.
Trusted boundary: hand-translated from C; `kmalloc` succeeds
-/
import Yanix.Foundation.Bytes

namespace Yanix.Drivers

open Foundation

/-- `disk_t`: the sector size, zero for a byte-addressed device, and the two driver entry points.
Buffers are passed as object and index, `σ` is the state of the device. -/
structure Disk (σ : Type*) where
  blockSize : Nat
  read : (lba : Nat) → (buf : Bytes) → (k : Nat) → (count : Nat) → σ → Int × Bytes
  write : (lba : Nat) → (buf : Bytes) → (k : Nat) → (count : Nat) → σ → Int × σ

variable {σ : Type*}

/-! ## Reading -/

/-- What `disk_read` returns and leaves behind. An entry of `copies` is one `memcpy` out of a
temporary sector: where it starts there and how many bytes it takes. -/
structure ReadResult where
  ret : Int
  buf : Bytes
  copies : List (Nat × Nat)

/-- The local variables of `disk_read`. -/
structure ReadState where
  lba : Nat
  count : Nat
  k : Nat
  ret : Nat
  buf : Bytes
  copies : List (Nat × Nat)

/-- `l_size`, `count` and `c_rest` before anything is transferred. -/
def readPlan (blockSize offset size : Nat) : Nat × Nat × Nat :=
  let count := size / blockSize
  let cRest := size % blockSize
  let lRest := offset % blockSize
  if count = 0 ∧ lRest ≠ 0 then (cRest, 1, 0)
  else if lRest ≠ 0 then (blockSize - lRest, count, sub32 cRest lRest)
  else (lRest, count, cRest)

/-- The sector the request starts in, if it does not start at its beginning. -/
def readHead (disk : Disk σ) (fresh : Bytes) (st : σ) (lRest lSize : Nat) (s : ReadState) :
    ReadState :=
  if lRest ≠ 0 then
    let tmp := (disk.read s.lba fresh 0 1 st).2
    { lba := add32 s.lba 1
      count := sub32 s.count 1
      k := add32 s.k lSize
      ret := add32 s.ret lSize
      buf := blit s.buf s.k tmp lRest lSize
      copies := s.copies ++ [(lRest, lSize)] }
  else s

/-- Whole sectors. -/
def readBody (disk : Disk σ) (st : σ) (s : ReadState) : ReadState := if s.count ≠ 0 then
    let (ret, buf) := disk.read s.lba s.buf s.k s.count st
    { s with ret := add32 s.ret (ofSigned ret), buf := buf }
  else s

/-- The beginning of the last sector. -/
def readTail (disk : Disk σ) (fresh : Bytes) (st : σ) (cRest : Nat) (s : ReadState) :
    ReadState :=
  if cRest ≠ 0 then
    let tmp := (disk.read (add32 s.lba s.count) fresh 0 1 st).2
    { s with
      ret := add32 s.ret cRest
      buf := blit s.buf (add32 s.k (mul32 s.count disk.blockSize)) tmp 0 cRest
      copies := s.copies ++ [(0, cRest)] }
  else s

/-- `fresh i` is what the `i`-th temporary sector holds when `kmalloc` returns it. -/
def diskRead (offset : Nat) (buffer : Bytes) (size : Nat) (disk : Disk σ)
    (fresh : Nat → Bytes) (st : σ) : ReadResult :=
  if disk.blockSize = 0 then
    let (ret, buf) := disk.read offset buffer 0 size st
    ⟨ret, buf, []⟩
  else
    let (lSize, count, cRest) := readPlan disk.blockSize offset size
    let s : ReadState := ⟨offset / disk.blockSize, count, 0, 0, buffer, []⟩
    let s := readHead disk (fresh 0) st (offset % disk.blockSize) lSize s
    let s := readTail disk (fresh 1) st cRest (readBody disk st s)
    ⟨toSigned s.ret, s.buf, s.copies⟩

/-! ## Writing -/

/-- Read a sector, put `n` bytes of the buffer into it at `start`, write it
back. -/
def patchSector (disk : Disk σ) (fresh : Bytes) (blockiter start : Nat) (buf : Bytes)
    (k n : Nat) (st : σ) : σ :=
  let tmp := (disk.read blockiter fresh 0 1 st).2
  (disk.write blockiter (blit tmp start buf k n) 0 1 st).2

/-- `e_rest` of `disk_write`. -/
def writeRest (blockSize offset size : Nat) : Nat :=
  let sRest := offset % blockSize
  if sRest ≠ 0 ∧ blockSize - sRest > size then 0 else add32 size sRest % blockSize

/-- The partial last sector of a write. -/
def writeTail (disk : Disk σ) (fresh : Bytes) (eRest : Nat) (buf : Bytes)
    (blockiter k ret : Nat) (st : σ) : Int × σ :=
  if eRest ≠ 0 then
    (toSigned (add32 ret eRest), patchSector disk fresh blockiter 0 buf k eRest st)
  else (toSigned ret, st)

/-- Whole sectors; an incomplete transfer ends the call. -/
def writeBody (disk : Disk σ) (fresh : Bytes) (blkcnt : Int) (eRest : Nat) (buf : Bytes)
    (blockiter k ret : Nat) (st : σ) : Int × σ :=
  if blkcnt ≠ 0 then
    let (blks, st) := disk.write blockiter buf k (ofSigned blkcnt) st
    let bytes := mul32 (ofSigned blks) disk.blockSize
    if blks ≠ blkcnt then (toSigned (add32 ret bytes), st)
    else writeTail disk fresh eRest buf (add32 blockiter (ofSigned blks)) (add32 k bytes)
      (add32 ret bytes) st
  else writeTail disk fresh eRest buf blockiter k ret st

def diskWrite (offset : Nat) (buf : Bytes) (size : Nat) (disk : Disk σ)
    (fresh : Nat → Bytes) (st : σ) : Int × σ :=
  if disk.blockSize = 0 then disk.write offset buf 0 size st
  else
    let blocksize := disk.blockSize
    let blockiter := offset / blocksize
    let sRest := offset % blocksize
    let eRest := writeRest blocksize offset size
    let blkcnt := toSigned (sub32 size eRest / blocksize)
    if sRest ≠ 0 then
      let memcpySize := if size < blocksize - sRest then size else blocksize - sRest
      let st := patchSector disk (fresh 0) blockiter sRest buf 0 memcpySize st
      -- the source pointer and the count move by a whole sector
      writeBody disk (fresh 1) blkcnt eRest buf (add32 blockiter 1) blocksize blocksize st
    else writeBody disk (fresh 1) blkcnt eRest buf blockiter 0 0 st

end Yanix.Drivers
