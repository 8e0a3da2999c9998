/-
Module: Yanix.Proofs.PipeFifo
Purpose: A ring buffer is a queue of bytes, the cells between the two counters; `cursize`
  promises the bytes up to the last newline, and erasing a newline breaks this.
-/
import Yanix.Foundation.Ring
import Yanix.Drivers.Devices
import Yanix.Ds.RingBuffer
import Mathlib.Data.List.DropRight

namespace Yanix.Ds

open Foundation Drivers List

variable {circbuf : Ringbuffer} {queue : List UInt8}

/-- The number of cells an `unsigned short` can index. -/
def ringCells : Nat := 2 ^ 16

/-- The buffer holds the bytes `queue`, oldest first. -/
structure Buffered (circbuf : Ringbuffer) (queue : List UInt8) : Prop where
  ushortint : circbuf.flags &&& optimizeUshortint ≠ 0
  count : (circbuf.virtualEnd - circbuf.virtualBegin).toNat = queue.length
  bytes : Ring.window circbuf.bufferStart ringCells circbuf.virtualBegin.toNat queue.length = queue
  room : queue.length < ringCells

/-- `cursize` promises a reader no more than those. -/
structure Unread (circbuf : Ringbuffer) (queue : List UInt8) : Prop extends
    Buffered circbuf queue where
  promised : circbuf.cursize.toNat ≤ queue.length

theorem toNat_index_add (index : UInt32) (i : Nat) :
    (index.toUInt16 + UInt16.ofNat i).toNat = (index.toNat + i) % ringCells := by
  simp [ringCells, UInt16.toNat_add]

theorem index_succ (ind : UInt16) (i : Nat) :
    ind + UInt16.ofNat i + 1 = ind + UInt16.ofNat (i + 1) := by
  rw [UInt16.ofNat_add, UInt16.add_assoc]
  rfl

theorem readLoop_eq (cells : Bytes) (max : Nat) (index : UInt32) (buffer : Bytes) :
    readLoop cells max index.toUInt16 buffer =
      (blit buffer 0 (fun i => cells ((index.toNat + i) % ringCells)) 0 max,
        index.toUInt16 + UInt16.ofNat max) := by
  induction max with
  | zero => simp [readLoop]
  | succ max ih =>
    unfold readLoop at ih ⊢
    rw [range_succ, foldl_append, ih]
    simp only [foldl_cons, foldl_nil, readByte, toNat_index_add, index_succ,
      blit_succ, Nat.zero_add]

/-- What `cursize` is after `n` rounds of the writing loop. -/
def promise (circbuf : Ringbuffer) (buffer : Bytes) : Nat → UInt32
  | 0 => circbuf.cursize
  | n + 1 =>
    if circbuf.flags &&& oNonblock ≠ 0 ∨ buffer n = newlineByte then
      circbuf.virtualEnd - circbuf.virtualBegin + UInt32.ofNat n + 1
    else promise circbuf buffer n

/-- The cells after `n` rounds of the writing loop from place `start` on. -/
def filled (cells buffer : Bytes) (start : Nat) : Nat → Bytes
  | 0 => cells
  | n + 1 => Function.update (filled cells buffer start n) ((start + n) % ringCells) (buffer n)

theorem writeLoop_eq (circbuf : Ringbuffer) (index : UInt32) (buffer : Bytes) (n : Nat) :
    writeLoop buffer n index.toUInt16 circbuf = ({ circbuf with
          cursize := promise circbuf buffer n
          bufferStart := filled circbuf.bufferStart buffer index.toNat n },
        index.toUInt16 + UInt16.ofNat n) := by
  induction n with
  | zero => simp [writeLoop, promise, filled]
  | succ n ih =>
    unfold writeLoop at ih ⊢
    rw [range_succ, foldl_append, ih]
    simp only [foldl_cons, foldl_nil, writeByte, toNat_index_add, index_succ, promise, filled]

/-- The buffer after a write. -/
def written (buffer : Bytes) (size : UInt32) (circbuf : Ringbuffer) : Ringbuffer := { circbuf with
    virtualEnd := circbuf.virtualEnd + size
    cursize := promise circbuf buffer size.toNat
    bufferStart := filled circbuf.bufferStart buffer circbuf.virtualEnd.toNat size.toNat }

theorem ringbufferWrite_eq (ushortint : circbuf.flags &&& optimizeUshortint ≠ 0)
    (buffer : Bytes) (size : UInt32) :
    ringbufferWrite buffer size circbuf =
      .ok (toSigned size.toNat, written buffer size circbuf) := by
  unfold ringbufferWrite ringbufferWriteIndex
  rw [if_pos ushortint, writeLoop_eq]
  rfl

/-- The buffer after a read of `max` bytes. -/
def consumed (max : UInt32) (circbuf : Ringbuffer) : Ringbuffer := { circbuf with
    virtualBegin := circbuf.virtualBegin + max
    cursize := if circbuf.cursize ≠ 0 then circbuf.cursize - max else circbuf.cursize }

theorem ringbufferRead_eq (ushortint : circbuf.flags &&& optimizeUshortint ≠ 0)
    (buffer : Bytes) (size : UInt32) :
    ringbufferRead buffer size circbuf = .ok (toSigned (readMax size circbuf).toNat, blit buffer 0
          (fun i => circbuf.bufferStart ((circbuf.virtualBegin.toNat + i) % ringCells)) 0
          (readMax size circbuf).toNat,
        consumed (readMax size circbuf) circbuf) := by
  unfold ringbufferRead ringbufferReadIndex
  rw [if_pos ushortint]
  simp only [readLoop_eq]
  rfl

/-! ## One call -/

variable {n : Nat} {size : UInt32}

section

theorem Buffered.end_place (h : Buffered circbuf queue) (i : Nat) :
    (circbuf.virtualEnd.toNat + i) % ringCells =
      (circbuf.virtualBegin.toNat + (queue.length + i)) % ringCells := by
  have count := h.count
  have lt := circbuf.virtualBegin.toNat_lt
  rw [UInt32.toNat_sub] at count
  simp only [ringCells]
  omega

variable (h : Unread circbuf queue)

include h

theorem Unread.window_filled (buffer : Bytes) (fits : queue.length + n < ringCells) :
    Ring.window (filled circbuf.bufferStart buffer circbuf.virtualEnd.toNat n) ringCells
      circbuf.virtualBegin.toNat (queue.length + n) = queue ++ contents buffer n := by
  induction n with
  | zero => simpa [filled, contents] using h.bytes
  | succ n ih =>
    rw [filled, h.end_place, ← Nat.add_assoc queue.length, Ring.window_update_end _ (by omega),
      ih (by omega), contents_succ, append_assoc]

theorem Unread.promise_le (buffer : Bytes) (fits : queue.length + n < ringCells) :
    (promise circbuf buffer n).toNat ≤ queue.length + n := by
  induction n with
  | zero => exact h.promised
  | succ n ih =>
    unfold promise
    split
    · simp only [UInt32.toNat_add, h.count, UInt32.toNat_ofNat', UInt32.toNat_one]
      unfold ringCells at fits
      omega
    · exact Nat.le_succ_of_le (ih (by omega))

theorem Unread.write (buffer : Bytes) (fits : queue.length + size.toNat < ringCells) :
    Unread (written buffer size circbuf) (queue ++ contents buffer size.toNat) := by
  have len : (queue ++ contents buffer size.toNat).length = queue.length + size.toNat := by
    simp
  have count := h.count
  rw [UInt32.toNat_sub] at count
  refine ⟨⟨h.ushortint, ?_, ?_, ?_⟩, ?_⟩ <;> rw [len]
  · simp only [written, UInt32.toNat_sub, UInt32.toNat_add]
    unfold ringCells at fits
    omega
  · exact h.window_filled buffer fits
  · exact fits
  · exact h.promise_le buffer fits

theorem Unread.toNat_readMax (size : UInt32) : (readMax size circbuf).toNat =
      if circbuf.cursize = 0 then min size.toNat queue.length
      else min size.toNat circbuf.cursize.toNat := by
  have promised := h.promised
  have zero : circbuf.cursize = 0 ↔ circbuf.cursize.toNat = 0 := by
    rw [← UInt32.toNat_inj]
    rfl
  unfold readMax
  simp only [UInt32.lt_iff_toNat_lt, apply_ite UInt32.toNat, h.count, zero]
  grind

theorem Unread.readMax_le (size : UInt32) : (readMax size circbuf).toNat ≤ queue.length := by
  have promised := h.promised
  rw [h.toNat_readMax size]
  split <;> omega

theorem Unread.toSigned_readMax (size : UInt32) :
    toSigned (readMax size circbuf).toNat = (readMax size circbuf).toNat := by
  have fewer := h.readMax_le size
  have room := h.room
  unfold ringCells at room
  exact toSigned_of_lt (by omega)

theorem Unread.read (size : UInt32) : Unread (consumed (readMax size circbuf) circbuf)
      (queue.drop (readMax size circbuf).toNat) := by
  have taken := h.toNat_readMax size
  have fewer := h.readMax_le size
  have room := h.room
  have promised := h.promised
  have count := h.count
  have lt := circbuf.virtualBegin.toNat_lt
  have begin_place : ∀ i, ((circbuf.virtualBegin + readMax size circbuf).toNat + i) % ringCells =
      (circbuf.virtualBegin.toNat + (readMax size circbuf).toNat + i) % ringCells := by
    intro i
    simp only [UInt32.toNat_add, ringCells]
    omega
  rw [UInt32.toNat_sub] at count
  refine ⟨⟨h.ushortint, ?_, ?_, ?_⟩, ?_⟩ <;> rw [length_drop]
  · simp only [consumed, UInt32.toNat_sub, UInt32.toNat_add]
    unfold ringCells at room
    omega
  · calc Ring.window circbuf.bufferStart ringCells
          (circbuf.virtualBegin + readMax size circbuf).toNat
          (queue.length - (readMax size circbuf).toNat)
        = Ring.window circbuf.bufferStart ringCells
          (circbuf.virtualBegin.toNat + (readMax size circbuf).toNat)
          (queue.length - (readMax size circbuf).toNat) :=
          Ring.window_congr fun i _ => by rw [begin_place]
      _ = queue.drop (readMax size circbuf).toNat := by
          rw [← Ring.drop_window, h.bytes]
  · omega
  · by_cases line : circbuf.cursize = 0
    · simp [consumed, line]
    · rw [if_neg line] at taken
      simp only [consumed, if_pos line]
      have le : readMax size circbuf ≤ circbuf.cursize := by
        rw [UInt32.le_iff_toNat_le]
        omega
      rw [UInt32.toNat_sub_of_le _ _ le]
      omega

theorem Unread.delivered (buffer : Bytes) {k : Nat} (fewer : k ≤ queue.length) :
    contents (blit buffer 0
      (fun i => circbuf.bufferStart ((circbuf.virtualBegin.toNat + i) % ringCells)) 0 k) k =
        queue.take k := by
  have copied := contents_blit_end buffer 0
    (fun i => circbuf.bufferStart ((circbuf.virtualBegin.toNat + i) % ringCells)) k
  rw [Nat.zero_add] at copied
  rw [copied]
  conv_rhs => rw [← h.bytes, Ring.take_window, Nat.min_eq_left fewer]
  rfl

theorem Unread.flush : Unread (ringbufferFlush circbuf) [] := by
  refine ⟨⟨h.ushortint, ?_, rfl, ?_⟩, ?_⟩
  · simp [ringbufferFlush]
  · decide
  · simp [ringbufferFlush]

end

/-! ## Runs -/

/-- The states of a ring buffer through writes, reads and flushes, with the bytes written and
neither read nor flushed yet, oldest first. At most 65535 bytes are ever unread, and the flags of a
write may have `O_NONBLOCK` or not. -/
inductive PipeRun : Ringbuffer → List UInt8 → Prop
  | start (circbuf : Ringbuffer)
      (ushortint : circbuf.flags &&& optimizeUshortint ≠ 0)
      (empty : circbuf.virtualBegin = circbuf.virtualEnd) (noLine : circbuf.cursize = 0) :
      PipeRun circbuf []
  | mode {circbuf : Ringbuffer} {queue : List UInt8} (flags : UInt32)
      (before : PipeRun circbuf queue)
      (ushortint : flags &&& optimizeUshortint ≠ 0) :
      PipeRun { circbuf with flags := flags } queue
  | write {circbuf circbuf' : Ringbuffer} {queue : List UInt8} {ret : Int} (buffer : Bytes)
      (size : UInt32) (before : PipeRun circbuf queue)
      (fits : queue.length + size.toNat ≤ 65535)
      (call : ringbufferWrite buffer size circbuf = .ok (ret, circbuf')) :
      PipeRun circbuf' (queue ++ contents buffer size.toNat)
  | read {circbuf circbuf' : Ringbuffer} {queue : List UInt8} {ret : Int} {buffer' : Bytes}
      (buffer : Bytes) (size : UInt32) (before : PipeRun circbuf queue)
      (call : ringbufferRead buffer size circbuf = .ok (ret, buffer', circbuf')) :
      PipeRun circbuf' (queue.drop ret.toNat)
  | flush {circbuf : Ringbuffer} {queue : List UInt8} (before : PipeRun circbuf queue) :
      PipeRun (ringbufferFlush circbuf) []

theorem Unread.of_empty (ushortint : circbuf.flags &&& optimizeUshortint ≠ 0)
    (empty : circbuf.virtualBegin = circbuf.virtualEnd) (noLine : circbuf.cursize = 0) :
    Unread circbuf [] := by
  refine ⟨⟨ushortint, ?_, rfl, ?_⟩, ?_⟩
  · simp [empty]
  · decide
  · simp [noLine]

theorem PipeRun.unread {queue : List UInt8} (run : PipeRun circbuf queue) :
    Unread circbuf queue := by
  induction run with
  | start circbuf ushortint empty noLine => exact Unread.of_empty ushortint empty noLine
  | mode flags lt ushortint ih => exact ⟨⟨ushortint, ih.count, ih.bytes, ih.room⟩, ih.promised⟩
  | write buffer size lt fits call ih =>
    rw [ringbufferWrite_eq ih.ushortint] at call
    cases call
    exact ih.write buffer (Nat.lt_succ_of_le fits)
  | read buffer size lt call ih =>
    rw [ringbufferRead_eq ih.ushortint] at call
    cases call
    rw [ih.toSigned_readMax, Int.toNat_natCast]
    exact ih.read size
  | flush lt ih => exact ih.flush

variable {unread : List UInt8}

theorem PipeRun.read_call (run : PipeRun circbuf unread) (buffer : Bytes) (size : UInt32) :
    ringbufferRead buffer size circbuf = .ok (((readMax size circbuf).toNat : Int), blit buffer 0
          (fun i => circbuf.bufferStart ((circbuf.virtualBegin.toNat + i) % ringCells)) 0
          (readMax size circbuf).toNat,
        consumed (readMax size circbuf) circbuf) ∧
    PipeRun (consumed (readMax size circbuf) circbuf)
      (unread.drop (readMax size circbuf).toNat) := by
  have h := run.unread
  have call := ringbufferRead_eq h.ushortint buffer size
  rw [h.toSigned_readMax] at call
  exact ⟨call, .read buffer size run call⟩

/-- A pipe is a byte queue. After any run, a read of `size` bytes returns the number `k` of bytes it
delivers, these are the first `k` unread ones, the rest of the destination is not touched, and the
bytes behind them stay unread; a write that fits is taken whole. -/
theorem pipe_fifo {circbuf : Ringbuffer} {unread : List UInt8} (run : PipeRun circbuf unread)
    (buffer : Bytes) (size : UInt32) :
    circbuf.cursize.toNat ≤ unread.length ∧
    (circbuf.virtualEnd - circbuf.virtualBegin).toNat = unread.length ∧
    (∃ (k : Nat) (buffer' : Bytes) (circbuf' : Ringbuffer),
      k = (if circbuf.cursize = 0 then min size.toNat unread.length
        else min size.toNat circbuf.cursize.toNat) ∧
      ringbufferRead buffer size circbuf = .ok (k, buffer', circbuf') ∧
      contents buffer' k = unread.take k ∧ (∀ i, k ≤ i → buffer' i = buffer i) ∧
      PipeRun circbuf' (unread.drop k)) ∧
    (unread.length + size.toNat ≤ 65535 →
      ∃ circbuf', ringbufferWrite buffer size circbuf = .ok (size.toNat, circbuf') ∧
        PipeRun circbuf' (unread ++ contents buffer size.toNat)) ∧
    PipeRun (ringbufferFlush circbuf) [] := by
  have h := run.unread
  refine ⟨h.promised, h.count, ?_, ?_, .flush run⟩
  · obtain ⟨call, after⟩ := run.read_call buffer size
    refine ⟨_, _, _, h.toNat_readMax size, call, h.delivered buffer (h.readMax_le size), ?_, after⟩
    intro i behind
    exact blit_apply_of_not_mem _ _ _ _ _ (.inr (by omega))
  · intro fits
    have call := ringbufferWrite_eq h.ushortint buffer size
    have after := PipeRun.write buffer size run fits call
    rw [toSigned_of_lt (by omega)] at call
    exact ⟨_, call, after⟩

theorem pipe_fifo_wrapping :
    PipeRun ⟨65535, 0xFFFFFFFF, 0xFFFFFFFF, fun _ => 0, 0, optimizeUshortint⟩ [] ∧
    ∃ circbuf', ringbufferWrite (fun i => UInt8.ofNat (7 + i)) 2
        ⟨65535, 0xFFFFFFFF, 0xFFFFFFFF, fun _ => 0, 0, optimizeUshortint⟩ =
          .ok (2, circbuf') ∧ PipeRun circbuf' [7, 8] :=
  have start : PipeRun ⟨65535, 0xFFFFFFFF, 0xFFFFFFFF, fun _ => 0, 0,
      optimizeUshortint⟩ [] := .start _ (by decide) rfl rfl
  ⟨start, (pipe_fifo start (fun i => UInt8.ofNat (7 + i)) 2).2.2.2.1 (by decide)⟩

theorem ushortint_of_mode {flags : UInt32} (mode : UInt32)
    (ushortint : flags &&& optimizeUshortint ≠ 0) :
    (flags ||| (mode &&& oNonblock)) &&& optimizeUshortint ≠ 0 := by
  have same : (flags ||| (mode &&& oNonblock)) &&& optimizeUshortint =
      flags &&& optimizeUshortint := by
    apply UInt32.toBitVec_inj.mp
    simp only [UInt32.toBitVec_and, UInt32.toBitVec_or, BitVec.and_or_distrib_right]
    rw [BitVec.and_assoc]
    simp [oNonblock, optimizeUshortint]
  rwa [same]

theorem pipeWriteRaw_run (run : PipeRun pipe.circbuf unread) (buffer : Bytes) (flags : UInt32)
    (fits : unread.length + size.toNat ≤ 65535) :
    ∃ pipe', pipeWriteRaw (some pipe) buffer size flags = .ok (toSigned size.toNat, pipe') ∧
      PipeRun pipe'.circbuf (unread ++ contents buffer size.toNat) := by
  have asked := PipeRun.mode _ run (ushortint_of_mode flags run.unread.ushortint)
  have call := ringbufferWrite_eq asked.unread.ushortint buffer size
  have after := PipeRun.write buffer size asked fits call
  refine ⟨⟨_⟩, ?_, after⟩
  unfold pipeWriteRaw
  simp only [call]
  rfl

theorem pipeReadRaw_run (run : PipeRun pipe.circbuf unread) (buffer : Bytes) (size flags : UInt32)
    (released : flags &&& oNonblock ≠ 0 ∨ ringbufferBlocks pipe.circbuf = false) :
    ∃ (k : Nat) (buffer' : Bytes) (pipe' : Pipe),
      pipeReadRaw (some pipe) buffer size flags = some (.ok (k, buffer', pipe')) ∧
      contents buffer' k = unread.take k ∧ PipeRun pipe'.circbuf (unread.drop k) := by
  have h := run.unread
  obtain ⟨call, after⟩ := run.read_call buffer size
  refine ⟨_, _, ⟨_⟩, ?_, h.delivered buffer (h.readMax_le size), after⟩
  have goesOn : ¬(flags &&& oNonblock = 0 ∧ ringbufferBlocks pipe.circbuf = true) := by
    rintro ⟨waits, empty⟩
    cases released with
    | inl nonblocking => exact nonblocking waits
    | inr filled => simp [filled] at empty
  unfold pipeReadRaw
  simp only [if_neg goesOn, call]
  rfl

variable {pipe : Pipe}

/-- The number of bytes up to and including the last newline, 0 if there is none. -/
def lineEnd (queue : List UInt8) : Nat := (queue.rdropWhile (· != newlineByte)).length

@[simp] theorem lineEnd_nil : lineEnd [] = 0 := rfl

theorem lineEnd_concat (queue : List UInt8) (byte : UInt8) : lineEnd (queue ++ [byte]) =
      if byte = newlineByte then queue.length + 1 else lineEnd queue := by
  unfold lineEnd
  rw [rdropWhile_concat]
  by_cases newline : byte = newlineByte <;> simp [newline]

theorem lineEnd_le (queue : List UInt8) : lineEnd queue ≤ queue.length :=
  ( rdropWhile_prefix _ queue).length_le

theorem lineEnd_drop (queue : List UInt8) (k : Nat) :
    lineEnd (queue.drop k) = lineEnd queue - k := by
  induction queue using List.reverseRecOn with
  | nil => simp
  | append_singleton queue byte ih =>
    by_cases le : k ≤ queue.length
    · rw [drop_append_of_le_length le, lineEnd_concat, lineEnd_concat, ih, length_drop]
      split <;> omega
    have short := lineEnd_le (queue ++ [byte])
    rw [length_append, length_singleton] at short
    rw [drop_eq_nil_of_le (by simp; omega), lineEnd_nil]
    omega

/-- The buffer after `ringbuffer_remove(1, ...)`. -/
def erased (circbuf : Ringbuffer) : Ringbuffer := { circbuf with
    bufferStart := Function.update circbuf.bufferStart circbuf.virtualEnd.toNat 0
    virtualEnd := circbuf.virtualEnd - 1 }

theorem Unread.ringbufferRemove_eq (h : Unread circbuf queue) (some : queue ≠ []) :
    ringbufferRemove 1 circbuf = .ok (erased circbuf) := by
  have filled : circbuf.virtualEnd - circbuf.virtualBegin ≠ 0 := by
    intro none
    apply some
    rw [← length_eq_zero_iff, ← h.count, none]
    rfl
  unfold ringbufferRemove
  rw [if_neg filled, if_pos h.ushortint]
  rfl

theorem Buffered.terminator_outside (h : Buffered circbuf queue) {i : Nat} (lt : i < queue.length) :
    (circbuf.virtualBegin.toNat + i) % ringCells ≠ circbuf.virtualEnd.toNat := by
  have count := h.count
  have room := h.room
  have small := circbuf.virtualBegin.toNat_lt
  rw [UInt32.toNat_sub] at count
  unfold ringCells at room ⊢
  omega

theorem Unread.erase {byte : UInt8} (h : Unread circbuf (queue ++ [byte]))
    (promised : circbuf.cursize.toNat ≤ queue.length) : Unread (erased circbuf) queue := by
  have count := h.count
  have room := h.room
  rw [UInt32.toNat_sub, length_append, length_singleton] at count
  rw [length_append, length_singleton] at room
  refine ⟨⟨h.ushortint, ?_, ?_, by omega⟩, promised⟩
  · simp only [erased, UInt32.toNat_sub, UInt32.toNat_one]
    unfold ringCells at room
    omega
  have before := h.bytes
  rw [length_append, length_singleton, Ring.window_succ] at before
  rw [erased, Ring.window_update_of_ne]
  · exact append_inj_left' before rfl
  · intro i lt
    exact h.terminator_outside (by simp; omega)

/-! ## Runs of the terminal input -/

/-- The states of the input buffer of a terminal through writes in blocking mode, reads,
flushes and erased characters, with the bytes that are unread.  A character may be erased
when the unread bytes are `Erasable`. -/
inductive LineRun (Erasable : List UInt8 → Prop) : Ringbuffer → List UInt8 → Prop
  | start (circbuf : Ringbuffer)
      (ushortint : circbuf.flags &&& optimizeUshortint ≠ 0)
      (blocking : circbuf.flags &&& oNonblock = 0)
      (empty : circbuf.virtualBegin = circbuf.virtualEnd) (noLine : circbuf.cursize = 0) :
      LineRun Erasable circbuf []
  | write {circbuf circbuf' : Ringbuffer} {queue : List UInt8} {ret : Int} (buffer : Bytes)
      (size : UInt32) (before : LineRun Erasable circbuf queue)
      (fits : queue.length + size.toNat ≤ 65535)
      (call : ringbufferWrite buffer size circbuf = .ok (ret, circbuf')) :
      LineRun Erasable circbuf' (queue ++ contents buffer size.toNat)
  | read {circbuf circbuf' : Ringbuffer} {queue : List UInt8} {ret : Int} {buffer' : Bytes}
      (buffer : Bytes) (size : UInt32) (before : LineRun Erasable circbuf queue)
      (call : ringbufferRead buffer size circbuf = .ok (ret, buffer', circbuf')) :
      LineRun Erasable circbuf' (queue.drop ret.toNat)
  | remove {circbuf circbuf' : Ringbuffer} {queue : List UInt8}
      (before : LineRun Erasable circbuf queue) (erasable : Erasable queue)
      (call : ringbufferRemove 1 circbuf = .ok circbuf') :
      LineRun Erasable circbuf' queue.dropLast
  | flush {circbuf : Ringbuffer} {queue : List UInt8} (before : LineRun Erasable circbuf queue) :
      LineRun Erasable (ringbufferFlush circbuf) []

/-- The last unread byte is no newline. -/
def NotNewline (queue : List UInt8) : Prop := queue.getLast? ≠ some newlineByte

/-- What the buffer holds and what it promises. -/
structure Accounts (circbuf : Ringbuffer) (queue : List UInt8) : Prop where
  unread : Unread circbuf queue
  blocking : circbuf.flags &&& oNonblock = 0
  line : circbuf.cursize.toNat = lineEnd queue

theorem Accounts.promise_eq (h : Accounts circbuf queue) (buffer : Bytes) {n : Nat}
    (fits : queue.length + n < ringCells) :
    (promise circbuf buffer n).toNat = lineEnd (queue ++ contents buffer n) := by
  induction n with
  | zero => simpa [promise, contents] using h.line
  | succ n ih =>
    rw [promise, contents_succ, ← append_assoc, lineEnd_concat]
    by_cases newline : buffer n = newlineByte
    · rw [if_pos (.inr newline), if_pos newline]
      simp only [UInt32.toNat_add, h.unread.count, UInt32.toNat_ofNat', UInt32.toNat_one,
        length_append, length_contents]
      unfold ringCells at fits
      omega
    · rw [if_neg (by simp [h.blocking, newline]), if_neg newline]
      exact ih (by omega)

theorem Accounts.write (h : Accounts circbuf queue) (buffer : Bytes) {size : UInt32}
    (fits : queue.length + size.toNat < ringCells) :
    Accounts (written buffer size circbuf) (queue ++ contents buffer size.toNat) :=
  ⟨h.unread.write buffer fits, h.blocking, h.promise_eq buffer fits⟩

theorem Accounts.read (h : Accounts circbuf queue) (size : UInt32) :
    Accounts (consumed (readMax size circbuf) circbuf)
      (queue.drop (readMax size circbuf).toNat) := by
  refine ⟨h.unread.read size, h.blocking, ?_⟩
  have taken := h.unread.toNat_readMax size
  rw [lineEnd_drop, ← h.line]
  by_cases noLine : circbuf.cursize = 0
  · simp [consumed, noLine]
  rw [if_neg noLine] at taken
  have le : readMax size circbuf ≤ circbuf.cursize := by
    rw [UInt32.le_iff_toNat_le]
    omega
  simp only [consumed, if_pos noLine]
  exact UInt32.toNat_sub_of_le _ _ le

theorem Accounts.erase {byte : UInt8} (h : Accounts circbuf (queue ++ [byte]))
    (ne : byte ≠ newlineByte) : Accounts (erased circbuf) queue := by
  have line := h.line
  rw [lineEnd_concat, if_neg ne] at line
  have promised : circbuf.cursize.toNat ≤ queue.length := by
    rw [line]
    exact lineEnd_le queue
  exact ⟨h.unread.erase promised, h.blocking, line⟩

theorem Accounts.flush (h : Accounts circbuf queue) : Accounts (ringbufferFlush circbuf) [] :=
  ⟨h.unread.flush, h.blocking, rfl⟩

theorem Unread.exists_concat (h : Unread circbuf queue) {circbuf' : Ringbuffer}
    (call : ringbufferRemove 1 circbuf = .ok circbuf') :
    ∃ (front : List UInt8) (byte : UInt8), queue = front ++ [byte] ∧ circbuf' = erased circbuf := by
  rcases eq_nil_or_concat' queue with rfl | ⟨front, byte, rfl⟩
  · have count := h.count
    have none : circbuf.virtualEnd - circbuf.virtualBegin = 0 := UInt32.toNat_inj.mp count
    unfold ringbufferRemove at call
    rw [if_pos none] at call
    cases call
  · rw [h.ringbufferRemove_eq (by simp)] at call
    cases call
    exact ⟨front, byte, rfl, rfl⟩

theorem LineRun.accounts {circbuf : Ringbuffer} {queue : List UInt8}
    (run : LineRun NotNewline circbuf queue) : Accounts circbuf queue := by
  induction run with
  | start circbuf ushortint blocking empty noLine =>
    exact ⟨Unread.of_empty ushortint empty noLine, blocking, by simp [noLine]⟩
  | write buffer size lt fits call ih =>
    rw [ringbufferWrite_eq ih.unread.ushortint] at call
    cases call
    exact ih.write buffer (Nat.lt_succ_of_le fits)
  | read buffer size lt call ih =>
    rw [ringbufferRead_eq ih.unread.ushortint] at call
    cases call
    rw [ih.unread.toSigned_readMax, Int.toNat_natCast]
    exact ih.read size
  | remove lt erasable call ih =>
    obtain ⟨front, byte, rfl, rfl⟩ := ih.unread.exists_concat call
    rw [dropLast_concat]
    apply ih.erase
    rintro rfl
    exact erasable (by simp)
  | flush lt ih => exact ih.flush

/-- As long as no newline is erased, `cursize` counts the unread bytes up to the last newline, and a
reader that `ringbuffer_block` lets go receives a byte. Erasing a newline breaks this. -/
theorem line_accounting {circbuf : Ringbuffer} {unread : List UInt8}
    (run : LineRun NotNewline circbuf unread) :
    circbuf.cursize.toNat = lineEnd unread ∧
    circbuf.cursize ≤ circbuf.virtualEnd - circbuf.virtualBegin ∧
    (ringbufferBlocks circbuf = false → ∀ (buffer : Bytes) (size : UInt32), size ≠ 0 →
      ∃ (k : Nat) (buffer' : Bytes) (circbuf' : Ringbuffer),
        ringbufferRead buffer size circbuf = .ok (k, buffer', circbuf') ∧ 1 ≤ k) ∧
    (¬NotNewline unread → ∃ circbuf', ringbufferRemove 1 circbuf = .ok circbuf' ∧
      circbuf'.cursize.toNat ≠ lineEnd unread.dropLast) := by
  have h := run.accounts
  refine ⟨h.line, ?_, ?_, ?_⟩
  · rw [UInt32.le_iff_toNat_le, h.unread.count]
    exact h.unread.promised
  · intro released buffer size asked
    have call := ringbufferRead_eq h.unread.ushortint buffer size
    rw [h.unread.toSigned_readMax] at call
    refine ⟨_, _, _, call, ?_⟩
    have line : circbuf.cursize ≠ 0 := by simpa [ringbufferBlocks] using released
    have pos (word : UInt32) (ne : word ≠ 0) : 0 < word.toNat :=
      Nat.pos_of_ne_zero fun zero => ne (UInt32.toNat_inj.mp zero)
    rw [h.unread.toNat_readMax, if_neg line]
    exact Nat.le_min.mpr ⟨pos size asked, pos _ line⟩
  · intro newline
    obtain ⟨front, rfl⟩ := getLast?_eq_some_iff.mp (not_not.mp newline)
    refine ⟨_, h.unread.ringbufferRemove_eq (by simp), ?_⟩
    have line := h.line
    have short := lineEnd_le front
    rw [lineEnd_concat, if_pos rfl] at line
    rw [dropLast_concat]
    show circbuf.cursize.toNat ≠ lineEnd front
    omega

/-- The ring buffer after an empty line was typed. -/
def emptyLine : Ringbuffer :=
  written (fun _ => newlineByte) 1 (createRingbuffer 0 optimizeUshortint fun _ => 0)

theorem emptyLine_run (Erasable : List UInt8 → Prop) : LineRun Erasable emptyLine [newlineByte] :=
  .write (fun _ => newlineByte) 1 (.start _ (by decide) (by decide) rfl rfl) (by decide)
    (ringbufferWrite_eq (by decide) ..)

/-- A letter is written behind the empty line and erased again. -/
theorem line_accounting_erased_letter :
    ∃ circbuf, LineRun NotNewline circbuf [newlineByte] ∧ circbuf.cursize.toNat = 1 := by
  have letter := LineRun.write (fun _ => 97) 1 (emptyLine_run NotNewline) (by decide)
    (ringbufferWrite_eq (by decide) ..)
  have run := letter.remove (by simp [NotNewline, contents, newlineByte]) rfl
  exact ⟨_, run, (line_accounting run).1⟩

/-- Erasing the newline of an empty line leaves nothing unread and a promise of one byte: a
reader is let go and reads nothing. -/
theorem line_accounting_erased_newline : LineRun (fun _ => True) (erased emptyLine) [] ∧
    (erased emptyLine).cursize.toNat = 1 ∧ lineEnd [] = 0 ∧
    (erased emptyLine).virtualEnd - (erased emptyLine).virtualBegin = 0 ∧
    ringbufferBlocks (erased emptyLine) = false ∧
    (ringbufferRead (fun _ => 0) 1 (erased emptyLine)).map (·.1) = .ok 0 := by
  refine ⟨?_, by decide, rfl, by decide, by decide, by decide⟩
  exact .remove (emptyLine_run _) trivial rfl

theorem ttyStdinwrite_run {pipe : Pipe} {unread : List UInt8}
    (run : LineRun NotNewline pipe.circbuf unread) (buffer : Bytes) {size : UInt32}
    (fits : buffer 0 ≠ 8 → unread.length + size.toNat ≤ 65535)
    (kept : buffer 0 = 8 → NotNewline unread) :
    ∃ (pipe' : Pipe) (unread' : List UInt8),
      (ttyStdinwrite (some pipe) buffer size).pipe = some pipe' ∧
      LineRun NotNewline pipe'.circbuf unread' ∧
      unread' = if buffer 0 = 8 then unread.dropLast else unread ++ contents buffer size.toNat := by
  have h := run.accounts.unread
  unfold ttyStdinwrite
  by_cases backspace : buffer 0 = 8
  · simp only [if_pos backspace, pipeRemove]
    rcases call : ringbufferRemove 1 pipe.circbuf with refused | circbuf'
    · have empty : unread = [] := by
        by_contra filled
        rw [h.ringbufferRemove_eq filled] at call
        cases call
      refine ⟨pipe, _, rfl, ?_, rfl⟩
      rw [empty, dropLast_nil, ← empty]
      exact run
    · exact ⟨⟨circbuf'⟩, _, rfl, .remove run (kept backspace) call, rfl⟩
  · have mode : pipe.circbuf.flags ||| (0 &&& oNonblock) = pipe.circbuf.flags := by
      simp
    have call := ringbufferWrite_eq h.ushortint buffer size
    simp only [if_neg backspace, pipeWriteRaw, mode]
    refine ⟨⟨_⟩, _, ?_, .write buffer size run (fits backspace) call, rfl⟩
    simp only [call]
    rfl

/-- The line after one more character: a backspace takes the last one away. -/
def edit (line : List UInt8) (c : UInt8) : List UInt8 :=
  if c = 8 then line.dropLast else line ++ [c]

/-- No newline is erased, and the ring has room for the others. -/
def Editable : (typed line : List UInt8) → Prop
  | [], _ => True
  | c :: typed, line =>
    (if c = 8 then NotNewline line else line.length < 65535) ∧ Editable typed (edit line c)

/-- Descriptor 0 is the terminal input. -/
def typeByte (pipe : Option Pipe) (c : UInt8) : Option Pipe :=
  (ttyStdinwrite pipe (fun _ => c) 1).pipe

def keyboardStep (s : Keyboard × Option Pipe) (scancode : UInt8) : Keyboard × Option Pipe :=
  let (event, kb) := sendScancode scancode s.1
  (kb, event.written.foldl typeByte s.2)

theorem LineRun.typed {pipe : Pipe} {line : List UInt8} (run : LineRun NotNewline pipe.circbuf line)
    {typed : List UInt8} (editable : Editable typed line) :
    ∃ pipe' : Pipe, typed.foldl typeByte (some pipe) = some pipe' ∧
      Accounts pipe'.circbuf (typed.foldl edit line) := by
  induction typed generalizing pipe line with
  | nil => exact ⟨pipe, rfl, run.accounts⟩
  | cons c typed ih =>
    obtain ⟨here, rest⟩ := editable
    have fits (other : c ≠ 8) : line.length + (1 : UInt32).toNat ≤ 65535 := by
      rwa [if_neg other] at here
    have kept (backspace : c = 8) : NotNewline line := by
      rwa [if_pos backspace] at here
    obtain ⟨pipe', _, written, next, rfl⟩ := ttyStdinwrite_run run (fun _ => c) fits kept
    rw [foldl_cons, typeByte, written]
    exact ih next rest

/-- After any scancodes the terminal input holds the line edited by the characters they stand for,
and `cursize` counts it up to its last newline. -/
theorem keyboard_edits {pipe : Pipe} {line : List UInt8}
    (run : LineRun NotNewline pipe.circbuf line) (kb : Keyboard) {scancodes : List UInt8}
    (editable : Editable (typedBy scancodes kb) line) :
    ∃ pipe' : Pipe, (scancodes.foldl keyboardStep (kb, some pipe)).2 = some pipe' ∧
      Accounts pipe'.circbuf ((typedBy scancodes kb).foldl edit line) := by
  have all (p : Option Pipe) :
      (scancodes.foldl keyboardStep (kb, p)).2 = (typedBy scancodes kb).foldl typeByte p := by
    clear editable
    induction scancodes generalizing kb p with
    | nil => rfl
    | cons scancode scancodes ih =>
      rw [foldl_cons, typedBy, foldl_append]
      exact ih _ _
  rw [all]
  exact run.typed editable

def emptyPipe : Pipe := ⟨createRingbuffer 0 optimizeUshortint fun _ => 0⟩

/-- Every key is an `a`, or `A` with shift. -/
def letterKeys : Keyboard := ⟨some fun _ => 97, fun _ => 65, fun _ => 0, {}⟩

/-- A letter, backspace and return. -/
theorem keyboard_edits_erased : ∃ pipe : Pipe,
    ([30, 14, 28].foldl keyboardStep (letterKeys, some emptyPipe)).2 = some pipe ∧
      Accounts pipe.circbuf [newlineByte] := by
  have run : LineRun NotNewline emptyPipe.circbuf [] := .start _ (by decide) (by decide) rfl rfl
  have editable : Editable (typedBy [30, 14, 28] letterKeys) [] := by
    simp [letterKeys, typedBy, sendScancode, getkey, modifiers, Editable, edit, NotNewline,
      newlineByte]
  exact keyboard_edits run _ editable

end Yanix.Ds
