/-
Module: Yanix.Proofs.RingStorage
Purpose: The indices of 65536 cells do not fit the 65535 bytes allocated for a ring buffer, and
  erasing shifts from one place too low on.
-/
import Yanix.Proofs.PipeFifo

namespace Yanix.Ds

open Foundation Function List

inductive RingOp where
  | write (buffer : Bytes) (size : UInt32)
  | read (buffer : Bytes) (size : UInt32)
  | remove (location : Nat)
  | flush

namespace RingOp

/-- The buffer after the call; one that is refused leaves it as it is. -/
def run : RingOp → Ringbuffer → Ringbuffer
  | write buffer size, circbuf =>
    ((ringbufferWrite buffer size circbuf).map (·.2)).toOption.getD circbuf
  | read buffer size, circbuf =>
    ((ringbufferRead buffer size circbuf).map (·.2.2)).toOption.getD circbuf
  | remove location, circbuf => (ringbufferRemove location circbuf).toOption.getD circbuf
  | flush, circbuf => ringbufferFlush circbuf

/-- The indices of the storage that the call uses. -/
def accesses : RingOp → Ringbuffer → List Nat
  | write _ size, circbuf => ringbufferWriteAccesses size circbuf
  | read _ size, circbuf => ringbufferReadAccesses size circbuf
  | remove location, circbuf => ringbufferRemoveAccesses location circbuf
  | flush, _ => []

/-- What is erased is one of the unread bytes. -/
def Valid (circbuf : Ringbuffer) : RingOp → Prop
  | remove location =>
    1 ≤ location ∧ location ≤ (circbuf.virtualEnd - circbuf.virtualBegin).toNat
  | _ => True

/-- The number of bytes written and not erased, after the call. -/
def net : RingOp → Nat → Nat
  | write _ size, n => n + size.toNat
  | remove _, n => n - 1
  | _, n => n

/-- With `n` bytes written and not erased before, the call stays within 65535 cells. -/
def Fits (n : Nat) : RingOp → Prop
  | write _ size => n + size.toNat ≤ 65535
  | remove location => n < 65535 ∧ (location = 1 ∨ location ≠ n)
  | _ => True

end RingOp

/-- Every index that is used in the course of the calls is below `size`. -/
def InBounds : List RingOp → Ringbuffer → Prop
  | [], _ => True
  | op :: ops, circbuf =>
    (∀ index ∈ op.accesses circbuf, index < circbuf.size.toNat) ∧ InBounds ops (op.run circbuf)

def ValidAll : List RingOp → Ringbuffer → Prop
  | [], _ => True
  | op :: ops, circbuf => op.Valid circbuf ∧ ValidAll ops (op.run circbuf)

def FitsAll : List RingOp → Nat → Prop
  | [], _ => True
  | op :: ops, n => op.Fits n ∧ FitsAll ops (op.net n)

/-- The end has not come round yet. -/
structure Straight (circbuf : Ringbuffer) (n : Nat) : Prop where
  ushortint : circbuf.flags &&& optimizeUshortint ≠ 0
  size : circbuf.size = ushrtMax
  ends : circbuf.virtualEnd.toNat = n
  begins : circbuf.virtualBegin.toNat ≤ n
  small : n ≤ 65535

section

variable {circbuf : Ringbuffer} {n : Nat}

theorem shiftByte_foldl (base : Nat) (cells : Bytes) (k x : Nat) :
    ((List.range k).foldl (shiftByte base) cells) x =
      if base ≤ x ∧ x < base + k then cells (x + 1) else cells x := by
  induction k generalizing x with
  | zero =>
    rw [if_neg (by omega)]
    rfl
  | succ k ih =>
    rw [range_succ, foldl_append, foldl_cons, foldl_nil, shiftByte]
    by_cases last : x = base + k
    · subst last
      rw [update_self, ih, if_neg (by omega), if_pos (by omega)]
    rw [update_of_ne last, ih]
    congr 1
    exact propext (by omega)

theorem filled_frame (cells buffer : Bytes) (start : Nat) {k x : Nat}
    (away : ∀ i < k, (start + i) % ringCells ≠ x) : filled cells buffer start k x = cells x := by
  induction k with
  | zero => rfl
  | succ k ih =>
    rw [filled, update_of_ne (Ne.symm (away k (by omega)))]
    exact ih fun i lt => away i (by omega)

/-- The storage after an erasure. -/
def shifted (location : Int) (circbuf : Ringbuffer) : Bytes := fun x =>
  if x = circbuf.virtualEnd.toNat then 0
  else if removeBase location circbuf ≤ x ∧
    x < removeBase location circbuf + (location - 1).toNat then circbuf.bufferStart (x + 1)
  else circbuf.bufferStart x

theorem ringbufferRemove_ok (ushortint : circbuf.flags &&& optimizeUshortint ≠ 0)
    (some : circbuf.virtualEnd - circbuf.virtualBegin ≠ 0) (location : Int) :
    ringbufferRemove location circbuf = .ok { circbuf with
      bufferStart := shifted location circbuf
      virtualEnd := circbuf.virtualEnd - 1 } := by
  have cells : update ((List.range (location - 1).toNat).foldl
      (shiftByte (removeBase location circbuf)) circbuf.bufferStart) circbuf.virtualEnd.toNat 0 =
        shifted location circbuf := by
    funext x
    by_cases terminator : x = circbuf.virtualEnd.toNat
    · simp [shifted, terminator]
    · rw [update_of_ne terminator, shiftByte_foldl]
      simp [shifted, terminator]
  unfold ringbufferRemove
  rw [if_neg some, if_pos ushortint, ← cells]
  rfl

section

variable (ushortint : circbuf.flags &&& optimizeUshortint ≠ 0) (buffer : Bytes)
  (size : UInt32)

include ushortint

@[simp] theorem RingOp.run_write :
    (RingOp.write buffer size).run circbuf = written buffer size circbuf := by
  rw [RingOp.run, ringbufferWrite_eq ushortint]
  rfl

@[simp] theorem RingOp.run_read :
    (RingOp.read buffer size).run circbuf = consumed (readMax size circbuf) circbuf := by
  rw [RingOp.run, ringbufferRead_eq ushortint]
  rfl

theorem RingOp.run_frame (op : RingOp) {x : Nat} (away : x ∉ op.accesses circbuf) :
    (op.run circbuf).bufferStart x = circbuf.bufferStart x := by
  cases op with
  | write buffer size =>
    rw [RingOp.run_write ushortint]
    refine filled_frame _ _ _ fun i lt same => away ?_
    rw [← same, ← toNat_index_add]
    exact mem_map_of_mem (mem_range.mpr lt)
  | read buffer size =>
    rw [RingOp.run_read ushortint]
    rfl
  | remove location =>
    by_cases some : circbuf.virtualEnd - circbuf.virtualBegin = 0
    · simp [RingOp.run, ringbufferRemove, some, Except.toOption]
    rw [RingOp.run, ringbufferRemove_ok ushortint some]
    simp only [RingOp.accesses, ringbufferRemoveAccesses, mem_append, mem_flatMap,
      mem_range, mem_cons, not_mem_nil, or_false, not_or] at away
    show shifted location circbuf x = _
    rw [shifted, if_neg away.2, if_neg]
    rintro ⟨low, high⟩
    exact away.1 ⟨x - removeBase location circbuf, by omega, by omega⟩
  | flush => rfl

theorem ringbufferRead_accesses {ret : Int} {buffer' : Bytes} {circbuf' : Ringbuffer}
    (call : ringbufferRead buffer size circbuf = .ok (ret, buffer', circbuf')) :
    contents buffer' (readMax size circbuf).toNat =
      (ringbufferReadAccesses size circbuf).map circbuf.bufferStart := by
  rw [ringbufferRead_eq ushortint] at call
  cases call
  have copied := contents_blit_end buffer 0
    (fun i => circbuf.bufferStart ((circbuf.virtualBegin.toNat + i) % ringCells))
    (readMax size circbuf).toNat
  rw [Nat.zero_add] at copied
  rw [copied]
  simp [contents, ringbufferReadAccesses, ringCells]

end

theorem Straight.unread (h : Straight circbuf n) :
    (circbuf.virtualEnd - circbuf.virtualBegin).toNat = n - circbuf.virtualBegin.toNat := by
  have le : circbuf.virtualBegin ≤ circbuf.virtualEnd := by
    rw [UInt32.le_iff_toNat_le, h.ends]
    exact h.begins
  rw [UInt32.toNat_sub_of_le _ _ le, h.ends]

theorem Straight.removeBase_eq (h : Straight circbuf n) (location : Nat) (known : location ≤ n) :
    removeBase location circbuf = if location = n then 65535 else n - location - 1 := by
  have lt := h.small
  have ends : circbuf.virtualEnd.toUInt16.toNat = n := by
    rw [UInt32.toNat_toUInt16, h.ends]
    omega
  unfold removeBase
  rw [ends]
  split <;> omega

theorem Straight.readMax_le (h : Straight circbuf n) (size : UInt32) :
    (readMax size circbuf).toNat ≤ n - circbuf.virtualBegin.toNat := by
  rw [← h.unread]
  rw [← UInt32.le_iff_toNat_le]
  have least (unread asked : UInt32) : (if unread < asked then unread else asked) ≤ unread := by
    split
    · exact UInt32.le_refl _
    · next le => exact UInt32.not_lt.mp le
  exact least ..

theorem Straight.accesses (h : Straight circbuf n) {op : RingOp} (valid : op.Valid circbuf) :
    (∀ index ∈ op.accesses circbuf, index < circbuf.size.toNat) ↔ op.Fits n := by
  have small := h.small
  have begins := h.begins
  rw [h.size]
  show (∀ index ∈ op.accesses circbuf, index < 65535) ↔ op.Fits n
  cases op with
  | write buffer size =>
    simp only [RingOp.accesses, ringbufferWriteAccesses, forall_mem_map, mem_range,
      toNat_index_add, h.ends, RingOp.Fits, ringCells]
    constructor
    · intro lt
      by_contra beyond
      have last := lt (65535 - n) (by omega)
      omega
    · intro fits i lt
      omega
  | read buffer size =>
    have most := h.readMax_le size
    simp only [RingOp.accesses, ringbufferReadAccesses, forall_mem_map, mem_range,
      toNat_index_add, RingOp.Fits, ringCells, iff_true]
    intro i lt
    omega
  | remove location =>
    obtain ⟨low, high⟩ := valid
    rw [h.unread] at high
    have base := h.removeBase_eq location (by omega)
    simp only [RingOp.accesses, ringbufferRemoveAccesses, forall_mem_append,
      forall_mem_flatMap, mem_range, forall_mem_cons, not_mem_nil, h.ends,
      RingOp.Fits, base]
    split
    · -- The first index is the one below zero, so that any shift is out of bounds.
      constructor
      · rintro ⟨shifts, terminator, -⟩
        refine ⟨terminator, ?_⟩
        by_contra more
        have := shifts 0 (by omega)
        omega
      · rintro ⟨terminator, only⟩
        exact ⟨fun i lt => by omega, terminator, by simp⟩
    · constructor
      · rintro ⟨-, terminator, -⟩
        exact ⟨terminator, .inr ‹_›⟩
      · rintro ⟨terminator, -⟩
        exact ⟨fun i lt => ⟨by omega, by omega, by simp⟩, terminator, by simp⟩
  | flush => simp [RingOp.accesses, RingOp.Fits]

theorem Straight.run (h : Straight circbuf n) {op : RingOp} (valid : op.Valid circbuf)
    (fits : op.Fits n) : Straight (op.run circbuf) (op.net n) := by
  have ends := h.ends
  have begins := h.begins
  have lt := h.small
  cases op with
  | write buffer size =>
    rw [RingOp.run_write h.ushortint]
    refine ⟨h.ushortint, h.size, ?_, Nat.le_add_right_of_le begins, fits⟩
    have fits : n + size.toNat ≤ 65535 := fits
    rw [written, UInt32.toNat_add, ends, RingOp.net]
    omega
  | read buffer size =>
    have most := h.readMax_le size
    rw [RingOp.run_read h.ushortint]
    refine ⟨h.ushortint, h.size, ends, ?_, lt⟩
    show (circbuf.virtualBegin + readMax size circbuf).toNat ≤ n
    rw [UInt32.toNat_add]
    omega
  | remove location =>
    obtain ⟨low, high⟩ := valid
    have unread := h.unread
    have some : circbuf.virtualEnd - circbuf.virtualBegin ≠ 0 := by
      intro none
      rw [none] at high
      exact absurd (low.trans high) (by decide)
    rw [RingOp.run, ringbufferRemove_ok h.ushortint some]
    rw [unread] at high
    refine ⟨h.ushortint, h.size, ?_, ?_, ?_⟩
    · show (circbuf.virtualEnd - 1).toNat = n - 1
      rw [UInt32.toNat_sub, ends]
      simp only [UInt32.toNat_one]
      omega
    · show circbuf.virtualBegin.toNat ≤ n - 1
      omega
    · exact (Nat.sub_le n 1).trans lt
  | flush => exact ⟨h.ushortint, h.size, ends, ends.le, lt⟩

end

/-- The calls on a new ring buffer stay within its storage exactly when the number of bytes written
and not erased never exceeds 65535, an erasure finds fewer, and only the last byte is erased while
nothing was read. -/
theorem ring_storage_bounds (size : UInt32) {flags : UInt32} (memory : Bytes)
    (ushortint : flags &&& optimizeUshortint ≠ 0) (ops : List RingOp)
    (valid : ValidAll ops (createRingbuffer size flags memory)) :
    InBounds ops (createRingbuffer size flags memory) ↔ FitsAll ops 0 := by
  have start : Straight (createRingbuffer size flags memory) 0 :=
    ⟨ushortint, if_pos ushortint, rfl, Nat.le_refl 0, Nat.zero_le _⟩
  generalize createRingbuffer size flags memory = circbuf at start valid
  generalize 0 = n at start
  induction ops generalizing circbuf n with
  | nil => exact Iff.rfl
  | cons op ops ih =>
    rw [InBounds, FitsAll, start.accesses valid.1]
    refine and_congr_right fun fits => ih _ valid.2 _ (start.run valid.1 fits)

/-- Such calls change no byte behind the storage, whatever is there. -/
theorem ring_keeps_memory {circbuf : Ringbuffer} {n : Nat} (start : Straight circbuf n)
    {ops : List RingOp} (valid : ValidAll ops circbuf) (fits : FitsAll ops n) {x : Nat}
    (behind : 65535 ≤ x) :
    (ops.foldl (fun circbuf op => op.run circbuf) circbuf).bufferStart x =
      circbuf.bufferStart x := by
  induction ops generalizing circbuf n with
  | nil => rfl
  | cons op ops ih =>
    rw [foldl_cons, ih (start.run valid.1 fits.1) valid.2 fits.2]
    apply op.run_frame start.ushortint
    intro accessed
    have inside := (start.accesses valid.1).mpr fits.1 x accessed
    rw [start.size] at inside
    exact absurd inside (Nat.not_lt.mpr behind)

/-- Two bytes are written and the first of them is erased again. -/
def writeErase (location : Nat) : List RingOp := [.write (fun _ => 7) 2, .remove location]

theorem ring_storage_bounds_last :
    InBounds (writeErase 1) (createRingbuffer 0 optimizeUshortint fun _ => 0) :=
  (ring_storage_bounds 0 (fun _ => 0) (by decide) (writeErase 1)
    ⟨trivial, ⟨by decide, by decide⟩, trivial⟩).mpr
      ⟨(by decide : 0 + 2 ≤ 65535), ⟨by decide, .inl rfl⟩, trivial⟩

theorem ring_keeps_memory_last :
    ((writeErase 1).foldl (fun circbuf op => op.run circbuf)
      (createRingbuffer 0 optimizeUshortint fun _ => 5)).bufferStart 65535 = 5 :=
  have start : Straight (createRingbuffer 0 optimizeUshortint fun _ => 5) 0 :=
    ⟨by decide, rfl, rfl, Nat.le_refl 0, by decide⟩
  have valid : ValidAll (writeErase 1) _ := ⟨trivial, ⟨by decide, by decide⟩, trivial⟩
  ring_keeps_memory start valid
    ⟨(by decide : 0 + 2 ≤ 65535), ⟨by decide, .inl rfl⟩, trivial⟩ (by decide)

/-- Erasing the first of two bytes starts at the index below zero, the last of 65536. -/
theorem ring_storage_bounds_first :
    ValidAll (writeErase 2) (createRingbuffer 0 optimizeUshortint fun _ => 0) ∧
    ¬InBounds (writeErase 2) (createRingbuffer 0 optimizeUshortint fun _ => 0) := by
  refine ⟨⟨trivial, ⟨by decide, by decide⟩, trivial⟩, ?_⟩
  rintro ⟨-, lt, -⟩
  exact absurd (lt 65535 (by decide)) (by decide)

/-! ## Which byte is erased -/

/-- The unread bytes, oldest first. -/
def unreadBytes (circbuf : Ringbuffer) : List UInt8 :=
  Ring.window circbuf.bufferStart ringCells circbuf.virtualBegin.toNat
    (circbuf.virtualEnd - circbuf.virtualBegin).toNat

/-- The bytes are such that it does no harm that `base` is the place before the byte to erase, and
that the loop leaves the ring where it should come round: the byte before equals the one erased, the
last one that before it, and so do those behind the end of the ring. -/
def Harmless (circbuf : Ringbuffer) (unread location : Nat) : Prop :=
  let base := removeBase location circbuf
  let ring (i : Nat) := circbuf.bufferStart ((base + i) % ringCells)
  (location < unread → circbuf.bufferStart (base + 1) = ring 0) ∧
  (∀ i, 1 ≤ i → i + 1 < location →
    (if base + i < ringCells then circbuf.bufferStart (base + i + 1) else ring i) = ring (i + 1)) ∧
  ring (location - 1) = ring location

variable {p : Nat}

section

variable {circbuf : Ringbuffer} {queue : List UInt8} {location : Nat}

theorem Buffered.getElem_eq (h : Buffered circbuf queue) {i : Nat} (lt : i < queue.length) :
    queue[i] = circbuf.bufferStart ((circbuf.virtualBegin.toNat + i) % ringCells) := by
  have bytes := h.bytes
  rw [← getElem_of_eq bytes (by simpa using lt)]
  simp [Ring.window]

theorem removeBase_lt (location : Int) (circbuf : Ringbuffer) :
    removeBase location circbuf < ringCells := by
  unfold removeBase ringCells
  omega

theorem Buffered.place_eq (h : Buffered circbuf queue) (location : Nat) (i : Nat)
    (place : p + location + 1 = queue.length + i) :
    (circbuf.virtualBegin.toNat + p) % ringCells =
      (removeBase location circbuf + i) % ringCells := by
  have ends := h.end_place 0
  have room := h.room
  unfold removeBase
  rw [UInt32.toNat_toUInt16]
  unfold ringCells at *
  omega

theorem Buffered.shifted_before (h : Buffered circbuf queue)
    (lt : p + location + 1 < queue.length) :
    shifted location circbuf ((circbuf.virtualBegin.toNat + p) % ringCells) =
      circbuf.bufferStart ((circbuf.virtualBegin.toNat + p) % ringCells) := by
  rw [shifted, if_neg (h.terminator_outside (by omega)), if_neg]
  rintro ⟨low, high⟩
  have room := h.room
  obtain ⟨i, index⟩ := Nat.exists_eq_add_of_le low
  have later : (circbuf.virtualBegin.toNat + (queue.length - location - 1 + i)) % ringCells =
      (removeBase location circbuf + i) % ringCells := h.place_eq location i (by omega)
  rw [← index, Nat.mod_mod] at later
  exact Ring.place_ne_of_lt (by omega) (by omega) later.symm

theorem Buffered.shifted_from (h : Buffered circbuf queue) (known : location ≤ queue.length)
    (i : Nat) (lt : p + 1 < queue.length) (place : p + location + 1 = queue.length + i) :
    shifted location circbuf ((circbuf.virtualBegin.toNat + p) % ringCells) =
      if i + 1 < location ∧ removeBase location circbuf + i < ringCells then
        circbuf.bufferStart (removeBase location circbuf + i + 1)
      else circbuf.bufferStart ((removeBase location circbuf + i) % ringCells) := by
  have room := h.room
  have low := removeBase_lt location circbuf
  rw [shifted, if_neg (h.terminator_outside (by omega)), h.place_eq location i place]
  by_cases within : removeBase location circbuf + i < ringCells
  · rw [Nat.mod_eq_of_lt within]
    congr 1
    exact propext (by omega)
  have wrapped : (removeBase location circbuf + i) % ringCells =
      removeBase location circbuf + i - ringCells := by
    rw [Nat.mod_eq_sub_mod (by omega), Nat.mod_eq_of_lt (by omega)]
  rw [if_neg (by omega), if_neg (by omega)]

theorem Buffered.deletes_iff (h : Buffered circbuf queue) (some : 1 ≤ location)
    (known : location ≤ queue.length) :
    (∃ circbuf', ringbufferRemove location circbuf = .ok circbuf' ∧
      unreadBytes circbuf' = queue.eraseIdx (queue.length - location)) ↔
    ∀ p, p + 1 < queue.length →
      shifted location circbuf ((circbuf.virtualBegin.toNat + p) % ringCells) =
        circbuf.bufferStart ((circbuf.virtualBegin.toNat +
          if p + location < queue.length then p else p + 1) % ringCells) := by
  have count := h.count
  have room := h.room
  have filled : circbuf.virtualEnd - circbuf.virtualBegin ≠ 0 := by
    intro none
    rw [none] at count
    have empty : 0 = queue.length := count
    omega
  have shorter : (circbuf.virtualEnd - 1 - circbuf.virtualBegin).toNat = queue.length - 1 := by
    rw [UInt32.toNat_sub] at count
    simp only [UInt32.toNat_sub, UInt32.toNat_one]
    unfold ringCells at room
    omega
  have kept {p : Nat} (lt : p < (queue.eraseIdx (queue.length - location)).length) :
      (queue.eraseIdx (queue.length - location))[p] =
        circbuf.bufferStart ((circbuf.virtualBegin.toNat +
          if p + location < queue.length then p else p + 1) % ringCells) := by
    rw [length_eraseIdx_of_lt (by omega)] at lt
    rw [getElem_eraseIdx]
    by_cases before : p + location < queue.length
    · rw [dif_pos (by omega), if_pos before, h.getElem_eq]
    · rw [dif_neg (by omega), if_neg before, h.getElem_eq]
  rw [ringbufferRemove_ok h.ushortint filled]
  constructor
  · rintro ⟨circbuf', same, erased⟩ p lt
    cases same
    rw [← kept (by rw [length_eraseIdx_of_lt (by omega)]; omega),
      ← getElem_of_eq erased (by simp [unreadBytes, shorter]; omega)]
    simp [unreadBytes, Ring.window]
  · intro places
    refine ⟨_, rfl, ext_getElem ?_ fun p lt _ => ?_⟩
    · rw [length_eraseIdx_of_lt (by omega)]
      simp [unreadBytes, shorter]
    · rw [kept, ← places p (by simp [unreadBytes, shorter] at lt; omega)]
      simp [unreadBytes, Ring.window]

end

/-- Erasing a byte erases that byte exactly when it is the last one, or the bytes happen to be
equal where the loop goes wrong. -/
theorem remove_deletes {circbuf : Ringbuffer} {queue : List UInt8} (h : Buffered circbuf queue)
    {location : Nat} (some : 1 ≤ location) (known : location ≤ queue.length) :
    (∃ circbuf', ringbufferRemove location circbuf = .ok circbuf' ∧
      unreadBytes circbuf' = queue.eraseIdx (queue.length - location)) ↔
    location = 1 ∨ Harmless circbuf queue.length location := by
  rw [h.deletes_iff some known]
  have low := removeBase_lt location circbuf
  by_cases last : location = 1
  · refine ⟨fun _ => .inl last, fun _ p lt => ?_⟩
    rw [if_pos (by omega)]
    by_cases before : p + location + 1 < queue.length
    · exact h.shifted_before before
    · rw [h.shifted_from known 0 lt (by omega), if_neg (by omega), h.place_eq location 0 (by omega)]
  rw [or_iff_right last]
  constructor
  · intro deletes
    refine ⟨fun less => ?_, fun i one more => ?_, ?_⟩
    · have first := deletes (queue.length - location - 1) (by omega)
      rwa [h.shifted_from known 0 (by omega) (by omega), if_pos ⟨by omega, low⟩,
        if_pos (by omega), h.place_eq location 0 (by omega)] at first
    · have middle := deletes (queue.length + i - location - 1) (by omega)
      have behind : ¬queue.length + i - location - 1 + location < queue.length := by omega
      rw [h.shifted_from known i (by omega) (by omega), if_neg behind,
        h.place_eq location (i + 1) (by omega)] at middle
      simpa [more] using middle
    · have final := deletes (queue.length - 2) (by omega)
      rwa [h.shifted_from known (location - 1) (by omega) (by omega), if_neg (by omega),
        if_neg (by omega), h.place_eq location location (by omega)] at final
  · rintro ⟨first, middle, final⟩ p lt
    by_cases before : p + location + 1 < queue.length
    · rw [if_pos (by omega)]
      exact h.shifted_before before
    obtain ⟨i, place⟩ := Nat.exists_eq_add_of_le (Nat.not_lt.mp before)
    rw [h.shifted_from known i lt place]
    rcases Nat.eq_zero_or_pos i with rfl | one
    · rw [if_pos ⟨by omega, low⟩, if_pos (by omega), h.place_eq location 0 place]
      exact first (by omega)
    have behind : ¬p + location < queue.length := by omega
    rw [if_neg behind, h.place_eq location (i + 1) (by omega)]
    by_cases more : i + 1 < location
    · simpa [more] using middle i one more
    obtain rfl : i = location - 1 := by omega
    rw [if_neg (by omega), Nat.sub_add_cancel some]
    exact final

/-- A new ring buffer to which the bytes 1, 2 and 3 were written. -/
def threeBytes : Ringbuffer := written (fun i => UInt8.ofNat (i + 1)) 3
    (createRingbuffer 0 optimizeUshortint fun _ => 0)

theorem threeBytes_unread : Unread threeBytes [1, 2, 3] :=
  Unread.write (.of_empty (by decide) rfl rfl) _ (by decide)

theorem remove_deletes_last : ∃ circbuf', ringbufferRemove (1 : Nat) threeBytes = .ok circbuf' ∧
      unreadBytes circbuf' = [1, 2] :=
  (remove_deletes threeBytes_unread.toBuffered (by decide) (by decide)).mpr (.inl rfl)

/-- The second of three bytes is to go, but the first goes and the second is doubled. -/
theorem remove_deletes_middle : Unread threeBytes [1, 2, 3] ∧
    (ringbufferRemove 2 threeBytes).toOption.map unreadBytes = some [2, 2] ∧
    ([1, 2, 3] : List UInt8).eraseIdx (3 - 2) = [1, 3] :=
  ⟨threeBytes_unread, by decide, rfl⟩

end Yanix.Ds
