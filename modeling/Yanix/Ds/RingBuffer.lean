/-
Module: Yanix.Ds.RingBuffer
Purpose: The ring buffer of `kernel/yanix/ds/ringbuffer.c` and its callers in `pipe.c` and
  `fs.c`.  The counters are 32-bit, the index into the storage is an `unsigned short`.
Trusted boundary: hand-translated from C; locks and interrupts have no part
  in what one call computes and are left out
-/
import Yanix.Foundation.Bytes

namespace Yanix.Ds

open Foundation

/-- What a failed call leaves in `errno`; `unset` is a failure that does not set it. -/
inductive RingErrno where
  | enosys
  | epipe
  | unset
deriving DecidableEq

def optimizeUshortint : UInt32 := 1

def oNonblock : UInt32 := 0x4000

def ushrtMax : UInt32 := 0xFFFF

/-- The byte `'\n'`. -/
def newlineByte : UInt8 := 10

structure Ringbuffer where
  size : UInt32
  virtualEnd : UInt32
  virtualBegin : UInt32
  bufferStart : Bytes
  cursize : UInt32
  flags : UInt32

/-- `memory` is what the allocated storage and everything behind it happens to hold. -/
def createRingbuffer (size flags : UInt32) (memory : Bytes) : Ringbuffer where
  size := if flags &&& optimizeUshortint ≠ 0 then ushrtMax else size
  virtualEnd := 0
  virtualBegin := 0
  bufferStart := memory
  cursize := 0
  flags := flags

/-! ## Reading -/

/-- One round of the copying loop of `ringbuffer_read_index`. -/
def readByte (cells : Bytes) (st : Bytes × UInt16) (i : Nat) : Bytes × UInt16 :=
  (Function.update st.1 i (cells st.2.toNat), st.2 + 1)

/-- The loop of `ringbuffer_read_index`, `max` rounds from index `ind` on. -/
def readLoop (cells : Bytes) (max : Nat) (ind : UInt16) (buffer : Bytes) : Bytes × UInt16 :=
  (List.range max).foldl (readByte cells) (buffer, ind)

/-- The number of bytes a call that asks for `size` copies. -/
def readMax (size : UInt32) (circbuf : Ringbuffer) : UInt32 :=
  let size := if circbuf.cursize ≠ 0 ∧ circbuf.cursize < size then circbuf.cursize else size
  if circbuf.virtualEnd - circbuf.virtualBegin < size then
    circbuf.virtualEnd - circbuf.virtualBegin
  else size

def ringbufferReadIndex (buffer : Bytes) (size index : UInt32) (circbuf : Ringbuffer) :
    Except RingErrno (Int × Bytes × Ringbuffer) :=
  if circbuf.flags &&& optimizeUshortint ≠ 0 then
    let max := readMax size circbuf
    let buffer := (readLoop circbuf.bufferStart max.toNat index.toUInt16 buffer).1
    let cursize := if circbuf.cursize ≠ 0 then circbuf.cursize - max else circbuf.cursize
    .ok (toSigned max.toNat, buffer,
      { circbuf with virtualBegin := index + max, cursize := cursize })
  else
    .error .enosys

def ringbufferRead (buffer : Bytes) (size : UInt32) (circbuf : Ringbuffer) :
    Except RingErrno (Int × Bytes × Ringbuffer) :=
  ringbufferReadIndex buffer size circbuf.virtualBegin circbuf

/-- The indices of the storage that a read looks at, in this order. -/
def ringbufferReadAccesses (size : UInt32) (circbuf : Ringbuffer) : List Nat :=
  (List.range (readMax size circbuf).toNat).map fun i =>
    (circbuf.virtualBegin.toUInt16 + UInt16.ofNat i).toNat

/-- One round of the copying loop of `ringbuffer_write_index`. -/
def writeByte (buffer : Bytes) (st : Ringbuffer × UInt16) (i : Nat) : Ringbuffer × UInt16 :=
  let (circbuf, ind) := st
  let cursize := if circbuf.flags &&& oNonblock ≠ 0 ∨ buffer i = newlineByte then
      circbuf.virtualEnd - circbuf.virtualBegin + UInt32.ofNat i + 1
    else circbuf.cursize
  let cells := Function.update circbuf.bufferStart ind.toNat (buffer i)
  ({ circbuf with cursize := cursize, bufferStart := cells }, ind + 1)

/-- The loop of `ringbuffer_write_index`. -/
def writeLoop (buffer : Bytes) (size : Nat) (ind : UInt16) (circbuf : Ringbuffer) :
    Ringbuffer × UInt16 :=
  (List.range size).foldl (writeByte buffer) (circbuf, ind)

def ringbufferWriteIndex (buffer : Bytes) (size index : UInt32) (circbuf : Ringbuffer) :
    Except RingErrno (Int × Ringbuffer) :=
  if circbuf.flags &&& optimizeUshortint ≠ 0 then
    let written := (writeLoop buffer size.toNat index.toUInt16 circbuf).1
    .ok (toSigned size.toNat, { written with virtualEnd := index + size })
  else
    .error .enosys

def ringbufferWrite (buffer : Bytes) (size : UInt32) (circbuf : Ringbuffer) :
    Except RingErrno (Int × Ringbuffer) :=
  ringbufferWriteIndex buffer size circbuf.virtualEnd circbuf

/-- The indices of the storage that a write stores to. -/
def ringbufferWriteAccesses (size : UInt32) (circbuf : Ringbuffer) : List Nat :=
  (List.range size.toNat).map fun i => (circbuf.virtualEnd.toUInt16 + UInt16.ofNat i).toNat

/-- The condition on which `ringbuffer_block` goes on waiting. -/
def ringbufferBlocks (circbuf : Ringbuffer) : Bool := circbuf.cursize == 0

def ringbufferFlush (circbuf : Ringbuffer) : Ringbuffer :=
  { circbuf with virtualBegin := circbuf.virtualEnd, cursize := 0 }

/-- One round of the shifting loop of `ringbuffer_remove`. -/
def shiftByte (base : Nat) (cells : Bytes) (i : Nat) : Bytes :=
  Function.update cells (base + i) (cells (base + i + 1))

/-- The first index that the loop of `ringbuffer_remove` stores to. -/
def removeBase (location : Int) (circbuf : Ringbuffer) : Nat :=
  ((circbuf.virtualEnd.toUInt16.toNat - location - 1) % 2 ^ 16).toNat

/-- The indices of the storage that an erasure of unread bytes looks at or stores to. -/
def ringbufferRemoveAccesses (location : Int) (circbuf : Ringbuffer) : List Nat :=
  ((List.range (location - 1).toNat).flatMap fun i =>
    [removeBase location circbuf + i + 1, removeBase location circbuf + i]) ++
      [circbuf.virtualEnd.toNat]

/-- The terminator is stored at the counter itself, which is not reduced to the storage. -/
def ringbufferRemove (location : Int) (circbuf : Ringbuffer) : Except RingErrno Ringbuffer :=
  if circbuf.virtualEnd - circbuf.virtualBegin = 0 then
    .error .unset
  else if circbuf.flags &&& optimizeUshortint ≠ 0 then
    let base := ((circbuf.virtualEnd.toUInt16.toNat - location - 1) % 2 ^ 16).toNat
    let shifted := (List.range (location - 1).toNat).foldl (shiftByte base) circbuf.bufferStart
    .ok { circbuf with
      bufferStart := Function.update shifted circbuf.virtualEnd.toNat 0
      virtualEnd := circbuf.virtualEnd - 1 }
  else
    .error .enosys

/-- `struct pipe`; its descriptors and flags have no part in a transfer. -/
structure Pipe where
  circbuf : Ringbuffer

/-- A read that would wait, which is no answer, is `none`; the null pipe is `none` too. -/
def pipeReadRaw (pipe : Option Pipe) (buffer : Bytes) (size flags : UInt32) :
    Option (Except RingErrno (Int × Bytes × Pipe)) :=
  match pipe with
  | none => some (.error .epipe)
  | some pipe =>
    if flags &&& oNonblock = 0 ∧ ringbufferBlocks pipe.circbuf then none
    else some (do
      let (ret, buffer, circbuf) ← ringbufferRead buffer size pipe.circbuf
      pure (ret, buffer, ⟨circbuf⟩))

def pipeWriteRaw (pipe : Option Pipe) (buffer : Bytes) (size flags : UInt32) :
    Except RingErrno (Int × Pipe) :=
  match pipe with
  | none => .error .epipe
  | some pipe => do
    let circbuf := { pipe.circbuf with flags := pipe.circbuf.flags ||| (flags &&& oNonblock) }
    let (ret, circbuf) ← ringbufferWrite buffer size circbuf
    pure (ret, ⟨circbuf⟩)

def pipeRemove (pipe : Option Pipe) (location : Int) : Except RingErrno Pipe := match pipe with
  | none => .error .epipe
  | some pipe => do
    let circbuf ← ringbufferRemove location pipe.circbuf
    pure ⟨circbuf⟩

/-- The answer of a write to the terminal input: what it returns, whether the characters
are echoed to the display, and the pipe behind it. -/
structure Typed where
  ret : Int
  echoed : Bool
  pipe : Option Pipe

/-- A backspace erases a character, all else is written to the pipe; a pipe that refuses is left as
it is. -/
def ttyStdinwrite (pipe : Option Pipe) (buffer : Bytes) (size : UInt32) : Typed :=
  if buffer 0 = 8 then
    match pipeRemove pipe 1 with
    | .ok erased => ⟨0, true, some erased⟩
    | .error _ => ⟨0, false, pipe⟩
  else
    match pipeWriteRaw pipe buffer size 0 with
    | .ok (_, written) => ⟨toSigned size.toNat, true, some written⟩
    | .error _ => ⟨toSigned size.toNat, true, pipe⟩

end Yanix.Ds
