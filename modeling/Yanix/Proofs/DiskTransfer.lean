/-
Module: Yanix.Proofs.DiskTransfer
Purpose: What `disk_read` and `disk_write` transfer over a driver that moves whole sectors exactly,
  wrong if a request starts inside a sector and leaves it; and what they return.
-/
import Yanix.Drivers.Disk

namespace Yanix.Drivers

open Foundation List

variable {offset size lSize count cRest : Nat} {a : Int} {size : Nat}
variable {σ : Type*}

section

/-! ## Reading -/

/-- The driver delivers the sectors asked for, exactly. -/
structure DeliversSectors (disk : Disk σ) (bytes : Bytes) (st : σ) : Prop where
  read : ∀ lba buf k n, (disk.read lba buf k n st).2 =
    blit buf k bytes (lba * disk.blockSize) (n * disk.blockSize)

namespace DeliversSectors

variable {disk : Disk σ} {bytes : Bytes} {st : σ}

theorem through_sector (delivers : DeliversSectors disk bytes st) {s n : Nat}
    (le : s + n ≤ disk.blockSize) (lba : Nat) (fresh buf : Bytes) (k : Nat) :
    blit buf k (disk.read lba fresh 0 1 st).2 s n =
      blit buf k bytes (lba * disk.blockSize + s) n := by
  have copied := blit_through buf k fresh 0 bytes
    (show s + n ≤ 1 * disk.blockSize by omega) (lba * disk.blockSize)
  rw [delivers.read]
  rwa [zero_add] at copied

end DeliversSectors

variable {disk : Disk σ}

theorem DeliversSectors.rest_buf {bytes : Bytes} {st : σ}
    (delivers : DeliversSectors disk bytes st) (fresh : Bytes) (cRest : Nat) (s : ReadState) :
    (readTail disk fresh st cRest (readBody disk st s)).buf =
      blit (blit s.buf s.k bytes (s.lba * disk.blockSize) (s.count * disk.blockSize))
        (add32 s.k (mul32 s.count disk.blockSize))
        (disk.read (add32 s.lba s.count) fresh 0 1 st).2 0 cRest := by
  have body : readBody disk st s = { s with
      ret := (readBody disk st s).ret
      buf := blit s.buf s.k bytes (s.lba * disk.blockSize) (s.count * disk.blockSize) } := by
    unfold readBody
    split
    · simp only [delivers.read]
    · next nothing =>
        rw [show s.count * disk.blockSize = 0 by rw [not_not.mp nothing, zero_mul], blit_zero]
  rw [body]
  unfold readTail
  split
  · rfl
  · next nothing => rw [not_not.mp nothing, blit_zero]

theorem rest_copies (disk : Disk σ) (fresh : Bytes) (st : σ) (cRest : Nat) (s : ReadState) :
    (readTail disk fresh st cRest (readBody disk st s)).copies =
      s.copies ++ if cRest ≠ 0 then [(0, cRest)] else [] := by
  have body : (readBody disk st s).copies = s.copies := by
    unfold readBody
    split <;> rfl
  unfold readTail
  split
  · rw [← body]
  · rw [append_nil, body]

theorem diskRead_of_plan (sectors : disk.blockSize ≠ 0)
    (plan : readPlan disk.blockSize offset size = (lSize, count, cRest)) (buffer : Bytes)
    (fresh : Nat → Bytes) (st : σ) :
    let s := readHead disk (fresh 0) st (offset % disk.blockSize) lSize
      ⟨offset / disk.blockSize, count, 0, 0, buffer, []⟩
    let r := readTail disk (fresh 1) st cRest (readBody disk st s)
    diskRead offset buffer size disk fresh st = ⟨toSigned r.ret, r.buf, r.copies⟩ := by
  unfold diskRead
  rw [if_neg sectors, plan]

theorem diskRead_copies (sectors : disk.blockSize ≠ 0)
    (plan : readPlan disk.blockSize offset size = (lSize, count, cRest)) (buffer : Bytes)
    (fresh : Nat → Bytes) (st : σ) :
    (diskRead offset buffer size disk fresh st).copies =
      (if offset % disk.blockSize ≠ 0 then [(offset % disk.blockSize, lSize)] else []) ++
        if cRest ≠ 0 then [(0, cRest)] else [] := by
  rw [diskRead_of_plan sectors plan]
  rw [rest_copies]
  unfold readHead
  split <;> rfl

section

variable {disk : Disk σ} {bytes : Bytes} {st : σ} {offset size : Nat}

/-- Behind `offset` and `size` below 2^32 every sector number fits, as soon as a sector has two
bytes. -/
theorem sectors_lt {blockSize : Nat} (offsetSmall : offset < 2 ^ 32) (small : size < 2 ^ 32)
    (two : 2 ≤ blockSize) : offset / blockSize + size / blockSize < 2 ^ 32 := by
  have first : offset / blockSize ≤ offset / 2 := Nat.div_le_div_left two (by decide)
  have second : size / blockSize ≤ size / 2 := Nat.div_le_div_left two (by decide)
  omega

theorem diskRead_aligned (delivers : DeliversSectors disk bytes st) (pos : 0 < disk.blockSize)
    (offsetSmall : offset < 2 ^ 32) (small : size < 2 ^ 32)
    (aligned : offset % disk.blockSize = 0) (buffer : Bytes) (fresh : Nat → Bytes) :
    let ret := diskRead offset buffer size disk fresh st
    ret.buf = blit buffer 0 bytes offset size ∧
      ∀ copy ∈ ret.copies, copy.1 + copy.2 ≤ disk.blockSize := by
  have start : offset / disk.blockSize * disk.blockSize = offset := by
    have := Nat.div_add_mod' offset disk.blockSize
    omega
  have whole := Nat.div_add_mod' size disk.blockSize
  have restLt := Nat.mod_lt size pos
  have plan : readPlan disk.blockSize offset size =
      (0, size / disk.blockSize, size % disk.blockSize) := by
    simp [readPlan, aligned]
  constructor
  · rw [diskRead_of_plan pos.ne' plan, delivers.rest_buf, aligned]
    simp only [readHead, ne_eq, not_true_eq_false, if_false, start]
    rw [mul32_of_lt (by omega), add32_of_lt (by omega), zero_add]
    have joined := blit_blit_append buffer 0 bytes offset
      (size / disk.blockSize * disk.blockSize) (size % disk.blockSize)
    rw [zero_add, whole] at joined
    by_cases nothing : size % disk.blockSize = 0
    · rw [nothing, blit_zero]
      rwa [nothing, blit_zero] at joined
    have sector := sectors_lt offsetSmall small (show 2 ≤ disk.blockSize by omega)
    rw [delivers.through_sector (by omega), add32_of_lt sector, add_mul, start, Nat.add_zero]
    exact joined
  · intro copy mem
    rw [diskRead_copies pos.ne' plan, aligned, if_neg (not_not.mpr rfl), nil_append] at mem
    split at mem
    · rw [mem_singleton.mp mem]
      omega
    · exact absurd mem not_mem_nil

theorem diskRead_ret_of_sectors (counted : ∀ lba buf k n, (disk.read lba buf k n st).1 = toSigned n)
    (pos : 0 < disk.blockSize) (small : size < 2 ^ 32) (ne : size ≠ 0)
    (aligned : offset % disk.blockSize = 0) (sectors : disk.blockSize ∣ size) (buffer : Bytes)
    (fresh : Nat → Bytes) :
    (diskRead offset buffer size disk fresh st).ret = toSigned (size / disk.blockSize) := by
  have rest : size % disk.blockSize = 0 := Nat.mod_eq_zero_of_dvd sectors
  have some : size / disk.blockSize ≠ 0 := by
    intro none
    have whole := Nat.div_add_mod' size disk.blockSize
    rw [none, rest, zero_mul] at whole
    exact ne whole.symm
  have lt : size / disk.blockSize < 2 ^ 32 := Nat.lt_of_le_of_lt (Nat.div_le_self ..) small
  have plan : readPlan disk.blockSize offset size = (0, size / disk.blockSize, 0) := by
    simp [readPlan, aligned, rest]
  rw [diskRead_of_plan pos.ne' plan]
  simp only [readTail, readBody, readHead, aligned, ne_eq, not_true_eq_false, if_false, some,
    not_false_eq_true, if_true, counted, ofSigned_toSigned lt]
  rw [add32_of_lt (by omega), zero_add]

theorem diskRead_short (delivers : DeliversSectors disk bytes st)
    (ne : offset % disk.blockSize ≠ 0) (short : size < disk.blockSize) (buffer : Bytes)
    (fresh : Nat → Bytes) :
    let ret := diskRead offset buffer size disk fresh st
    ret.copies = [(offset % disk.blockSize, size)] ∧
      (offset % disk.blockSize + size ≤ disk.blockSize →
        ret.buf = blit buffer 0 bytes offset size) := by
  have start := Nat.div_add_mod' offset disk.blockSize
  have plan : readPlan disk.blockSize offset size = (size, 1, 0) := by
    simp [readPlan, ne, Nat.div_eq_of_lt short, Nat.mod_eq_of_lt short]
  have sectors : disk.blockSize ≠ 0 := by omega
  constructor
  · rw [diskRead_copies sectors plan, if_pos ne, if_neg (not_not.mpr rfl), append_nil]
  · intro lt
    rw [diskRead_of_plan sectors plan, delivers.rest_buf]
    simp only [readHead, if_pos ne, show sub32 1 1 = 0 from rfl, zero_mul, blit_zero]
    rw [delivers.through_sector lt, start]

/-- A request of at least a sector that starts inside one: the first two pieces join, and the last
has the length of the request minus the bytes in front of it, modulo 2^32. -/
theorem diskRead_long (delivers : DeliversSectors disk bytes st) (pos : 0 < disk.blockSize)
    (offsetSmall : offset < 2 ^ 32) (small : size < 2 ^ 32)
    (ne : offset % disk.blockSize ≠ 0) (long : disk.blockSize ≤ size) (buffer : Bytes)
    (fresh : Nat → Bytes) :
    let lRest := offset % disk.blockSize
    let cRest := sub32 (size % disk.blockSize) lRest
    let front := size / disk.blockSize * disk.blockSize - lRest
    let ret := diskRead offset buffer size disk fresh st
    ret.copies = (lRest, disk.blockSize - lRest) :: (if cRest ≠ 0 then [(0, cRest)] else []) ∧
      (cRest ≤ disk.blockSize → ret.buf = blit buffer 0 bytes offset (front + cRest)) := by
  have start := Nat.div_add_mod' offset disk.blockSize
  have startLt := Nat.mod_lt offset pos
  have whole := Nat.div_add_mod' size disk.blockSize
  have some : 1 ≤ size / disk.blockSize := (Nat.one_le_div_iff pos).mpr long
  have sectors := sectors_lt offsetSmall small (show 2 ≤ disk.blockSize by omega)
  have head := delivers.through_sector
    (show offset % disk.blockSize + (disk.blockSize - offset % disk.blockSize) ≤ disk.blockSize
      by omega) (offset / disk.blockSize) (fresh 0) buffer 0
  have plan : readPlan disk.blockSize offset size =
      (disk.blockSize - offset % disk.blockSize, size / disk.blockSize,
        sub32 (size % disk.blockSize) (offset % disk.blockSize)) := by
    simp [readPlan, ne, Nat.ne_of_gt some]
  have count : sub32 (size / disk.blockSize) 1 = size / disk.blockSize - 1 :=
    sub32_of_le some (Nat.lt_of_le_of_lt (Nat.div_le_self ..) small)
  have previous : (size / disk.blockSize - 1) * disk.blockSize + disk.blockSize =
      size / disk.blockSize * disk.blockSize := by
    rw [← Nat.succ_mul, Nat.succ_eq_add_one, Nat.sub_add_cancel some]
  have next : (offset / disk.blockSize + 1) * disk.blockSize =
      offset + (disk.blockSize - offset % disk.blockSize) := by
    rw [Nat.succ_mul]
    omega
  have joined := blit_blit_append buffer 0 bytes offset
    (disk.blockSize - offset % disk.blockSize) ((size / disk.blockSize - 1) * disk.blockSize)
  have front : disk.blockSize - offset % disk.blockSize +
      (size / disk.blockSize - 1) * disk.blockSize =
      size / disk.blockSize * disk.blockSize - offset % disk.blockSize := by omega
  rw [zero_add, front] at joined
  have copies := diskRead_copies pos.ne' plan buffer fresh st
  rw [if_pos ne, singleton_append] at copies
  refine ⟨copies, ?_⟩
  intro lt
  rw [diskRead_of_plan pos.ne' plan]
  generalize sub32 (size % disk.blockSize) (offset % disk.blockSize) = cRest at *
  unfold readHead
  rw [if_pos ne]
  rw [delivers.rest_buf]
  simp only [count]
  have first : add32 (offset / disk.blockSize) 1 = offset / disk.blockSize + 1 :=
    add32_of_lt (by omega)
  have last : add32 (offset / disk.blockSize + 1) (size / disk.blockSize - 1) =
      offset / disk.blockSize + 1 + (size / disk.blockSize - 1) := add32_of_lt (by omega)
  have moved : add32 0 (disk.blockSize - offset % disk.blockSize) =
      disk.blockSize - offset % disk.blockSize := by
    rw [add32_of_lt (by omega), zero_add]
  rw [head, start, first, last, moved, next, mul32_of_lt (by omega), add32_of_lt (by omega), front,
    joined]
  have joinedTail := blit_blit_append buffer 0 bytes offset
    (size / disk.blockSize * disk.blockSize - offset % disk.blockSize) cRest
  rw [zero_add] at joinedTail
  rw [delivers.through_sector (by omega), Nat.add_zero, add_mul, next, add_assoc, front]
  exact joinedTail

/-- The requests that `disk_read` serves correctly: those that start on a sector boundary or stay
inside one sector, and one accident with sectors over two gigabytes. -/
def ReadsRight (blockSize offset size : Nat) : Prop :=
  offset % blockSize = 0 ∨ (size < blockSize ∧ offset % blockSize + size ≤ blockSize) ∨
    (blockSize ≤ size ∧ offset % blockSize = 2 ^ 31 ∧ size % blockSize < 2 ^ 31 ∧
      2 ^ 31 + size % blockSize ≤ blockSize)

/-- Whatever the buffer held, the call stores the requested bytes and no others, and every copy out
of a temporary sector stays inside it. -/
def ReadsExactly (disk : Disk σ) (bytes : Bytes) (offset size : Nat) (fresh : Nat → Bytes)
    (st : σ) : Prop :=
  ∀ buffer, (diskRead offset buffer size disk fresh st).buf = blit buffer 0 bytes offset size ∧
    ∀ copy ∈ (diskRead offset buffer size disk fresh st).copies, copy.1 + copy.2 ≤ disk.blockSize

theorem readsExactly_long_iff (delivers : DeliversSectors disk bytes st)
    (pos : 0 < disk.blockSize) (offsetSmall : offset < 2 ^ 32) (small : size < 2 ^ 32)
    (ne : offset % disk.blockSize ≠ 0) (long : disk.blockSize ≤ size)
    (fresh : Nat → Bytes) :
    ReadsExactly disk bytes offset size fresh st ↔
      sub32 (size % disk.blockSize) (offset % disk.blockSize) ≤ disk.blockSize ∧
        size / disk.blockSize * disk.blockSize - offset % disk.blockSize +
          sub32 (size % disk.blockSize) (offset % disk.blockSize) = size := by
  have startLt := Nat.mod_lt offset pos
  have ret := fun buffer => diskRead_long delivers pos offsetSmall small ne long buffer fresh
  simp only at ret
  generalize sub32 (size % disk.blockSize) (offset % disk.blockSize) = cRest at *
  constructor
  · intro exactly
    have le : cRest ≤ disk.blockSize := by
      by_cases nothing : cRest = 0
      · omega
      have copied := (exactly fun _ => 0).2 (0, cRest)
      rw [(ret _).1, if_pos nothing] at copied
      simpa using copied
    exact ⟨le, length_eq_of_blit_eq fun buffer =>
      ((ret buffer).2 le).symm.trans (exactly buffer).1⟩
  · rintro ⟨le, len⟩ buffer
    obtain ⟨copies, stored⟩ := ret buffer
    refine ⟨by rw [stored le, len], fun copy mem => ?_⟩
    rw [copies] at mem
    rcases mem_cons.mp mem with rfl | second
    · simp only
      omega
    split at second
    · rw [mem_singleton.mp second]
      simpa using le
    · exact absurd second not_mem_nil

/-- Over a driver that delivers sectors exactly, `disk_read` stores exactly the requested bytes,
copying only out of the sector it has read, for the requests of `ReadsRight` and no others. -/
theorem diskRead_exact_iff (delivers : DeliversSectors disk bytes st)
    (pos : 0 < disk.blockSize) (small : disk.blockSize < 2 ^ 32)
    (offsetSmall : offset < 2 ^ 32) (sizeSmall : size < 2 ^ 32) (fresh : Nat → Bytes) :
    ReadsExactly disk bytes offset size fresh st ↔ ReadsRight disk.blockSize offset size := by
  have startLt := Nat.mod_lt offset pos
  unfold ReadsRight
  by_cases aligned : offset % disk.blockSize = 0
  · exact iff_of_true (fun buffer =>
      diskRead_aligned delivers pos offsetSmall sizeSmall aligned buffer fresh) (.inl aligned)
  by_cases long : disk.blockSize ≤ size
  · have whole := Nat.div_add_mod' size disk.blockSize
    have some : disk.blockSize ≤ size / disk.blockSize * disk.blockSize := by
      have := Nat.mul_le_mul_right disk.blockSize ((Nat.one_le_div_iff pos).mpr long)
      omega
    rw [readsExactly_long_iff delivers pos offsetSmall sizeSmall aligned long fresh]
    unfold sub32
    omega
  have ret := fun buffer => diskRead_short delivers aligned (not_le.mp long) buffer fresh
  constructor
  · intro exactly
    have copied := (exactly fun _ => 0).2 (offset % disk.blockSize, size)
    rw [(ret _).1] at copied
    exact .inr (.inl ⟨not_le.mp long, copied mem_cons_self⟩)
  · intro right
    have le : offset % disk.blockSize + size ≤ disk.blockSize := by omega
    intro buffer
    refine ⟨(ret buffer).2 le, fun copy mem => ?_⟩
    rw [(ret buffer).1] at mem
    rw [mem_singleton.mp mem]
    exact le

end

/-- A disk of sectors, its state being its content. -/
def sectorDisk (blockSize : Nat) : Disk Bytes where
  blockSize := blockSize
  read lba buf k n bytes := (toSigned n, blit buf k bytes (lba * blockSize) (n * blockSize))
  write lba buf k n bytes := (toSigned n, blit bytes (lba * blockSize) buf k (n * blockSize))

theorem sectorDisk_delivers (blockSize : Nat) (bytes : Bytes) :
    DeliversSectors (sectorDisk blockSize) bytes bytes :=
  ⟨fun _ _ _ _ => rfl⟩

theorem diskRead_exact_inside :
    ReadsExactly (sectorDisk 512) (fun _ => 1) 1100 200 (fun _ _ => 0) (fun _ => 1) :=
  (diskRead_exact_iff (sectorDisk_delivers 512 _) (by decide) (by decide) (by decide) (by decide)
    _).mpr (by unfold ReadsRight; decide)

/-- Reads that start one byte behind a boundary: of 514 bytes the last two are missing, and of 512
the tail has length -1 and is copied from behind the temporary sector. -/
theorem diskRead_crossing_wrong : DeliversSectors (sectorDisk 512) (fun _ => 1) (fun _ => 1) ∧
      (diskRead 1 (fun _ => 0) 514 (sectorDisk 512) (fun _ _ => 0) (fun _ => 1)).buf 513 = 0 ∧
      (diskRead 1 (fun _ => 0) 512 (sectorDisk 512) (fun _ _ => 0) (fun _ => 1)).copies =
        [(1, 511), (0, 0xFFFFFFFF)] :=
  ⟨sectorDisk_delivers 512 _, by decide +kernel, by decide +kernel⟩

/-! ## Writing -/

/-- The driver transfers the sectors asked for, exactly, and returns their
number. -/
structure TransfersSectors (disk : Disk σ) (bytes : σ → Bytes) : Prop where
  read : ∀ st, DeliversSectors disk (bytes st) st
  written : ∀ lba buf k n st, (disk.write lba buf k n st).1 = toSigned n
  write : ∀ lba buf k n st, bytes (disk.write lba buf k n st).2 =
    blit (bytes st) (lba * disk.blockSize) buf k (n * disk.blockSize)

theorem sectorDisk_transfers (blockSize : Nat) : TransfersSectors (sectorDisk blockSize) id :=
  ⟨sectorDisk_delivers blockSize, fun _ _ _ _ _ => rfl, fun _ _ _ _ _ => rfl⟩

namespace TransfersSectors

variable {disk : Disk σ} {bytes : σ → Bytes} {st : σ} (transfers : TransfersSectors disk bytes)

include transfers

theorem patch (st : σ) (lba : Nat) {start n : Nat} (fits : start + n ≤ disk.blockSize)
    (fresh buf : Bytes) (k : Nat) :
    bytes (patchSector disk fresh lba start buf k n st) =
      blit (bytes st) (lba * disk.blockSize + start) buf k n := by
  unfold patchSector
  rw [transfers.write, (transfers.read st).read, one_mul]
  exact blit_patched _ _ _ _ fits _

theorem tail {eRest : Nat} (partly : eRest ≤ disk.blockSize) (fresh buf : Bytes)
    (blockiter k ret : Nat) :
    bytes (writeTail disk fresh eRest buf blockiter k ret st).2 =
      blit (bytes st) (blockiter * disk.blockSize) buf k eRest := by
  unfold writeTail
  split
  · exact transfers.patch _ _ (by omega) ..
  · next nothing => rw [not_not.mp nothing, blit_zero]

theorem body {q eRest : Nat} (lt : q < 2 ^ 32) (partly : eRest ≤ disk.blockSize)
    (fresh buf : Bytes) {blockiter k : Nat} (ret : Nat)
    (smalls : blockiter < 2 ^ 32 ∧ k < 2 ^ 32) :
    bytes (writeBody disk fresh (toSigned q) eRest buf blockiter k ret st).2 =
      blit (blit (bytes st) (blockiter * disk.blockSize) buf k (q * disk.blockSize))
        (add32 blockiter q * disk.blockSize) buf (add32 k (mul32 q disk.blockSize)) eRest := by
  unfold writeBody
  by_cases none : q = 0
  · subst none
    simp only [show toSigned 0 = 0 from rfl, ne_eq, not_true_eq_false, if_false, zero_mul,
      blit_zero, mul32, Nat.zero_mod]
    rw [transfers.tail partly, add32_of_lt (by omega), add32_of_lt (by omega)]
    simp
  have signed : toSigned q ≠ 0 := by
    unfold toSigned
    split <;> omega
  simp only [if_pos signed, ofSigned_toSigned lt, transfers.written]
  rw [if_neg (not_not.mpr rfl), transfers.tail partly, transfers.write]

end TransfersSectors

section

variable {disk : Disk σ} {bytes : σ → Bytes} {offset size : Nat}

/-- Whatever the buffer holds, the call replaces the requested bytes of the disk
by the first `size` bytes of it and changes no other. -/
def WritesExactly (disk : Disk σ) (bytes : σ → Bytes) (offset size : Nat)
    (fresh : Nat → Bytes) (st : σ) : Prop :=
  ∀ buf, bytes (diskWrite offset buf size disk fresh st).2 = blit (bytes st) offset buf 0 size

variable (transfers : TransfersSectors disk bytes) (pos : 0 < disk.blockSize)

include transfers pos

theorem diskWrite_aligned (offsetSmall : offset < 2 ^ 32) (small : size < 2 ^ 32)
    (aligned : offset % disk.blockSize = 0) (fresh : Nat → Bytes) (st : σ) :
    WritesExactly disk bytes offset size fresh st := by
  intro buf
  have start : offset / disk.blockSize * disk.blockSize = offset := by
    have := Nat.div_add_mod' offset disk.blockSize
    omega
  have whole := Nat.div_add_mod' size disk.blockSize
  have restLt := Nat.mod_lt size pos
  have quotients : offset / disk.blockSize ≤ offset ∧ size / disk.blockSize ≤ size :=
    ⟨Nat.div_le_self .., Nat.div_le_self ..⟩
  have rest : writeRest disk.blockSize offset size = size % disk.blockSize := by
    simp only [writeRest, aligned, ne_eq, not_true_eq_false, false_and, if_false]
    rw [add32_of_lt (by omega), Nat.add_zero]
  have blocks : sub32 size (size % disk.blockSize) / disk.blockSize = size / disk.blockSize := by
    rw [sub32_of_le (Nat.mod_le ..) small,
      show size - size % disk.blockSize = size / disk.blockSize * disk.blockSize by omega]
    exact Nat.mul_div_cancel _ pos
  unfold diskWrite
  simp only [if_neg pos.ne', aligned, ne_eq, not_true_eq_false, if_false, rest, blocks]
  rw [transfers.body (by omega) (by omega) _ _ _ ⟨by omega, by decide⟩, mul32_of_lt (by omega),
    add32_of_lt (show 0 + size / disk.blockSize * disk.blockSize < 2 ^ 32 by omega), start,
    zero_add]
  have joined := blit_blit_append (bytes st) offset buf 0
    (size / disk.blockSize * disk.blockSize) (size % disk.blockSize)
  rw [zero_add, whole] at joined
  by_cases nothing : size % disk.blockSize = 0
  · rw [nothing, blit_zero]
    rwa [nothing, blit_zero] at joined
  have sector := sectors_lt offsetSmall small (show 2 ≤ disk.blockSize by omega)
  rw [add32_of_lt sector, add_mul, start]
  exact joined

theorem diskWrite_head (ne : offset % disk.blockSize ≠ 0) (size : Nat)
    (fresh : Nat → Bytes) (st : σ) (buf : Bytes) :
    let eRest := writeRest disk.blockSize offset size
    let head := min size (disk.blockSize - offset % disk.blockSize)
    ∃ st', bytes st' = blit (bytes st) offset buf 0 head ∧ diskWrite offset buf size disk fresh st =
        writeBody disk (fresh 1) (toSigned (sub32 size eRest / disk.blockSize)) eRest buf
          (add32 (offset / disk.blockSize) 1) disk.blockSize disk.blockSize st' := by
  have start := Nat.div_add_mod' offset disk.blockSize
  have startLt := Nat.mod_lt offset pos
  have len : (if size < disk.blockSize - offset % disk.blockSize then size
      else disk.blockSize - offset % disk.blockSize) =
      min size (disk.blockSize - offset % disk.blockSize) := by
    split <;> omega
  have patched := transfers.patch st (offset / disk.blockSize)
    (show offset % disk.blockSize + min size (disk.blockSize - offset % disk.blockSize) ≤
      disk.blockSize by omega) (fresh 0) buf 0
  rw [start] at patched
  refine ⟨_, patched, ?_⟩
  unfold diskWrite
  simp only [if_neg pos.ne', if_pos ne, len]

theorem diskWrite_inside (lt : disk.blockSize < 2 ^ 32) (unaligned : offset % disk.blockSize ≠ 0)
    (le : size ≤ disk.blockSize - offset % disk.blockSize) (fresh : Nat → Bytes) (st : σ) :
    WritesExactly disk bytes offset size fresh st := by
  intro buf
  have startLt := Nat.mod_lt offset pos
  obtain ⟨st', stored, ret⟩ := diskWrite_head transfers pos unaligned size fresh st buf
  have rest : writeRest disk.blockSize offset size = 0 := by
    unfold writeRest
    dsimp only
    split
    · rfl
    next notShort =>
      have exact_fit : size + offset % disk.blockSize = disk.blockSize := by
        by_contra ne
        exact notShort ⟨unaligned, by omega⟩
      rw [add32_of_lt (by omega), exact_fit, Nat.mod_self]
  have noBlocks : sub32 size 0 / disk.blockSize = 0 := by
    rw [sub32_of_le (Nat.zero_le _) (by omega)]
    exact Nat.div_eq_of_lt (by omega)
  rw [rest, noBlocks] at ret
  rw [ret, ← min_eq_left le, ← stored]
  rfl

omit transfers pos

/-- Over a driver that transfers sectors exactly, `disk_write` replaces exactly the requested bytes
if the request starts on a boundary or stays inside a sector, and only then. -/
theorem diskWrite_exact_iff (transfers : TransfersSectors disk bytes)
    (pos : 0 < disk.blockSize) (small : disk.blockSize < 2 ^ 32)
    (offsetSmall : offset < 2 ^ 32) (sizeSmall : size < 2 ^ 32) (fresh : Nat → Bytes) (st : σ) :
    WritesExactly disk bytes offset size fresh st ↔
      offset % disk.blockSize = 0 ∨ size ≤ disk.blockSize - offset % disk.blockSize := by
  by_cases aligned : offset % disk.blockSize = 0
  · exact iff_of_true (diskWrite_aligned transfers pos offsetSmall sizeSmall aligned fresh st)
      (.inl aligned)
  by_cases le : size ≤ disk.blockSize - offset % disk.blockSize
  · exact iff_of_true (diskWrite_inside transfers pos small aligned le fresh st) (.inr le)
  refine iff_of_false ?_ (fun right => right.elim aligned le)
  intro exactly
  have start := Nat.div_add_mod' offset disk.blockSize
  have startLt := Nat.mod_lt offset pos
  have next : (offset / disk.blockSize + 1) * disk.blockSize =
      offset + (disk.blockSize - offset % disk.blockSize) := by
    rw [Nat.succ_mul]
    omega
  have sector : add32 (offset / disk.blockSize) 1 = offset / disk.blockSize + 1 := by
    have : offset / disk.blockSize ≤ offset / 2 := Nat.div_le_div_left (by omega) (by decide)
    exact add32_of_lt (by omega)
  have partly : writeRest disk.blockSize offset size ≤ disk.blockSize := by
    unfold writeRest
    have := Nat.mod_lt (add32 size (offset % disk.blockSize)) pos
    dsimp only
    split <;> omega
  have blocksSmall : sub32 size (writeRest disk.blockSize offset size) / disk.blockSize < 2 ^ 32 :=
    Nat.lt_of_le_of_lt (Nat.div_le_self ..) (sub32_lt ..)
  -- a buffer that differs from the old byte in one place only
  generalize place : offset + (disk.blockSize - offset % disk.blockSize) = x at *
  generalize old : bytes st x = v
  have required := exactly fun i =>
    if i = disk.blockSize - offset % disk.blockSize then v + 1 else v
  obtain ⟨st', stored, ret⟩ := diskWrite_head transfers pos aligned size fresh st fun i =>
    if i = disk.blockSize - offset % disk.blockSize then v + 1 else v
  rw [ret, sector] at required
  generalize writeRest disk.blockSize offset size = eRest at *
  generalize sub32 size eRest / disk.blockSize = q at *
  rw [transfers.body blocksSmall partly _ _ _ ⟨by rw [← sector]; exact add32_lt .., small⟩,
    stored, next] at required
  have byte := congrFun required x
  rw [blit_apply_of_mem (bytes st) _ _ _ _ (by omega) (by omega), zero_add,
    if_pos (by omega)] at byte
  have pointer : disk.blockSize ≠ disk.blockSize - offset % disk.blockSize := by omega
  have kept : blit (bytes st) offset (fun i =>
      if i = disk.blockSize - offset % disk.blockSize then v + 1 else v) 0
      (min size (disk.blockSize - offset % disk.blockSize)) x = v := by
    rw [blit_apply_of_not_mem _ _ _ _ _ (by omega), old]
  by_cases none : q = 0
  · subst none
    have here : add32 (offset / disk.blockSize + 1) 0 * disk.blockSize = x := by
      rw [add32_of_lt (by rw [← sector]; exact add32_lt ..), Nat.add_zero, next]
    have there : add32 disk.blockSize (mul32 0 disk.blockSize) = disk.blockSize := by
      rw [mul32, zero_mul, Nat.zero_mod, add32_of_lt (by omega), Nat.add_zero]
    rw [zero_mul, blit_zero, here, there] at byte
    by_cases nothing : eRest = 0
    · rw [nothing, blit_zero, kept] at byte
      simp at byte
    rw [blit_apply_of_mem _ _ _ _ _ le_rfl (by omega), Nat.sub_self, Nat.add_zero,
      if_neg pointer] at byte
    simp at byte
  · have other : add32 (offset / disk.blockSize + 1) q ≠ offset / disk.blockSize + 1 := by
      unfold add32
      omega
    have away : x < add32 (offset / disk.blockSize + 1) q * disk.blockSize ∨
        add32 (offset / disk.blockSize + 1) q * disk.blockSize + eRest ≤ x := by
      have ne := lt_or_le_of_block_ne other pos
      omega
    have len : 1 * disk.blockSize ≤ q * disk.blockSize :=
      Nat.mul_le_mul_right _ (Nat.pos_of_ne_zero none)
    rw [blit_apply_of_not_mem _ _ _ _ _ away,
      blit_apply_of_mem _ _ _ _ _ le_rfl (by omega), Nat.sub_self, Nat.add_zero,
      if_neg pointer] at byte
    simp at byte

end

theorem diskWrite_exact_boundary :
    WritesExactly (sectorDisk 512) id 1024 1700 (fun _ _ => 0) (fun _ => 0) :=
  (diskWrite_exact_iff (sectorDisk_transfers 512) (by decide) (by decide) (by decide) (by decide)
    _ _).mpr (by decide)

/-- A sector that starts one byte behind a boundary: its last byte comes from
behind the buffer. -/
theorem diskWrite_crossing_wrong : TransfersSectors (sectorDisk 512) id ∧
      (diskWrite 1 (fun i => if i = 511 then 1 else 0) 512 (sectorDisk 512) (fun _ _ => 0)
        (fun _ => 0)).2 512 = 0 :=
  ⟨sectorDisk_transfers 512, by decide +kernel⟩

end

/-- A call of the driver: the sectors asked for and what it returned. -/
structure DriverCall where
  asked : Nat
  ret : Int

def DriverCall.Succeeds (c : DriverCall) : Prop := c.ret = toSigned c.asked

def DriverCall.Fails (c : DriverCall) : Prop := c.ret = -1

instance (c : DriverCall) : Decidable c.Succeeds := inferInstanceAs (Decidable (_ = _))

instance (c : DriverCall) : Decidable c.Fails := inferInstanceAs (Decidable (_ = _))

theorem ofSigned_add_toSigned (a : Int) (n : Nat) :
    ofSigned (a + toSigned n) = ofSigned (a + n) := by
  unfold ofSigned toSigned
  split <;> omega

theorem signed_neg_iff (low : -2 ^ 32 < a) (high : a < 2 ^ 32) :
    toSigned (ofSigned a) < 0 ↔ -2 ^ 31 ≤ a ∧ a < 0 ∨ 2 ^ 31 ≤ a := by
  unfold toSigned ofSigned
  split <;> omega

theorem signed_eq_iff {n : Nat} (low : -2 ^ 32 < a) (high : a < 2 ^ 32) :
    toSigned (ofSigned a) = n ↔ n < 2 ^ 31 ∧ (a = n ∨ a = n - 2 ^ 32) := by
  unfold toSigned ofSigned
  split <;> omega

/-! ## Reading -/

/-- The bytes of partial sectors that `disk_read` counts. -/
def partialBytes (blockSize offset size : Nat) : Int := if size < blockSize then size
  else if offset % blockSize = 0 then (size % blockSize : Nat)
  else (blockSize + size % blockSize : Nat) - 2 * (offset % blockSize : Nat)

/-- The whole sectors it asks for at once. -/
def bodySectors (blockSize offset size : Nat) : Nat :=
  if offset % blockSize = 0 then size / blockSize else size / blockSize - 1

section

variable (disk : Disk σ) (offset size : Nat) (buffer : Bytes) (fresh : Nat → Bytes) (st : σ)

/-- The local variables after the first sector. -/
def readStart : ReadState :=
  readHead disk (fresh 0) st (offset % disk.blockSize) (readPlan disk.blockSize offset size).1
    ⟨offset / disk.blockSize, (readPlan disk.blockSize offset size).2.1, 0, 0, buffer, []⟩

/-- The call for the whole sectors. -/
def bodyReads : List DriverCall :=
  let s := readStart disk offset size buffer fresh st
  if s.count ≠ 0 then [⟨s.count, (disk.read s.lba s.buf s.k s.count st).1⟩] else []

/-- All calls of a `disk_read`. -/
def readCalls : List DriverCall :=
  let s := readStart disk offset size buffer fresh st
  (if offset % disk.blockSize ≠ 0 then
    [⟨1, (disk.read (offset / disk.blockSize) (fresh 0) 0 1 st).1⟩] else []) ++
  bodyReads disk offset size buffer fresh st ++
  (if (readPlan disk.blockSize offset size).2.2 ≠ 0 then
    [⟨1, (disk.read (add32 s.lba s.count) (fresh 1) 0 1 st).1⟩] else [])

variable {disk offset size}

theorem readStart_count (small : size < 2 ^ 32) :
    (readStart disk offset size buffer fresh st).count =
    bodySectors disk.blockSize offset size := by
  have quotient := Nat.div_le_self size disk.blockSize
  unfold readStart readHead bodySectors readPlan
  by_cases aligned : offset % disk.blockSize = 0
  · simp [aligned]
  by_cases short : size / disk.blockSize = 0
  · simp [aligned, short, sub32]
  · simp only [aligned, short, ne_eq, not_false_eq_true, if_true, false_and, if_false]
    exact sub32_of_le (Nat.pos_of_ne_zero short) (quotient.trans_lt small)

theorem readStart_ret : (readStart disk offset size buffer fresh st).ret =
      (if offset % disk.blockSize ≠ 0 then (readPlan disk.blockSize offset size).1 else 0) %
        2 ^ 32 := by
  unfold readStart readHead
  split
  · simp [add32]
  · rfl

theorem readBody_ret : (readBody disk st (readStart disk offset size buffer fresh st)).ret =
      ((readStart disk offset size buffer fresh st).ret +
        ofSigned ((bodyReads disk offset size buffer fresh st).map DriverCall.ret).sum) %
          2 ^ 32 := by
  have small : (readStart disk offset size buffer fresh st).ret < 2 ^ 32 := by
    rw [readStart_ret]
    exact Nat.mod_lt _ (Nat.two_pow_pos 32)
  unfold readBody bodyReads
  dsimp only
  split
  · simp [add32]
  · exact (Nat.mod_eq_of_lt small).symm

theorem readTail_ret (disk : Disk σ) (fresh : Bytes) (st : σ) (cRest : Nat) {s : ReadState}
    (small : s.ret < 2 ^ 32) :
    (readTail disk fresh st cRest s).ret = (s.ret + cRest) % 2 ^ 32 := by
  unfold readTail
  split
  · rfl
  · next nothing => rw [not_not.mp nothing, Nat.add_zero, Nat.mod_eq_of_lt small]

theorem diskRead_ret (pos : 0 < disk.blockSize) (small : disk.blockSize < 2 ^ 32) :
    (diskRead offset buffer size disk fresh st).ret =
      toSigned (ofSigned (partialBytes disk.blockSize offset size +
        ((bodyReads disk offset size buffer fresh st).map DriverCall.ret).sum)) := by
  have bytes : (((if offset % disk.blockSize ≠ 0 then (readPlan disk.blockSize offset size).1 else
      0) + (readPlan disk.blockSize offset size).2.2 : Nat) : Int) % 2 ^ 32 = partialBytes
      disk.blockSize offset size % 2 ^ 32 := by
    have startLt := Nat.mod_lt offset pos
    unfold partialBytes readPlan
    by_cases aligned : offset % disk.blockSize = 0
    · by_cases short : size < disk.blockSize
      · simp [aligned, short, Nat.mod_eq_of_lt short]
      · simp [aligned, short]
    by_cases short : size < disk.blockSize
    · simp [aligned, short, Nat.div_eq_of_lt short, Nat.mod_eq_of_lt short]
    have some : size / disk.blockSize ≠ 0 := by
      intro none
      exact short (((Nat.div_eq_zero_iff).mp none).resolve_left pos.ne')
    simp only [aligned, short, some, ne_eq, not_false_eq_true, if_true, false_and, if_false]
    unfold sub32
    omega
  have retSmall : (readBody disk st (readStart disk offset size buffer fresh st)).ret < 2 ^ 32 := by
    rw [readBody_ret]
    exact Nat.mod_lt _ (Nat.two_pow_pos 32)
  have ret : (diskRead offset buffer size disk fresh st).ret =
      toSigned (readTail disk (fresh 1) st (readPlan disk.blockSize offset size).2.2
        (readBody disk st (readStart disk offset size buffer fresh st))).ret := by
    rw [diskRead_of_plan pos.ne' rfl]
    rfl
  rw [ret, readTail_ret disk (fresh 1) st _ retSmall, readBody_ret, readStart_ret]
  congr 1
  unfold ofSigned
  omega

theorem bodyReads_sum_of_succeeds (small : size < 2 ^ 32)
    (all : ∀ c ∈ bodyReads disk offset size buffer fresh st, c.Succeeds) :
    ((bodyReads disk offset size buffer fresh st).map DriverCall.ret).sum =
      toSigned (bodySectors disk.blockSize offset size) := by
  rw [← readStart_count buffer fresh st small]
  unfold bodyReads DriverCall.Succeeds at *
  dsimp only at *
  split at all
  · next some =>
      rw [if_pos some]
      simpa using all _ mem_cons_self
  next none =>
    rw [if_neg none, not_not.mp none]
    rfl

theorem bodyReads_sum_of_fails (bad : ∃ c ∈ bodyReads disk offset size buffer fresh st, c.Fails) :
    ((bodyReads disk offset size buffer fresh st).map DriverCall.ret).sum = -1 := by
  obtain ⟨c, mem, failed⟩ := bad
  unfold bodyReads DriverCall.Fails at *
  dsimp only at *
  split at mem
  · next some =>
      rw [if_pos some]
      rw [mem_singleton.mp mem] at failed
      simpa using failed
  · cases mem

end

theorem add_le_mul_add_one {c d : Nat} (hc : 0 < c) (hd : 0 < d) : c + d ≤ c * d + 1 := by
  obtain ⟨a, rfl⟩ := Nat.exists_eq_succ_of_ne_zero hc.ne'
  obtain ⟨b, rfl⟩ := Nat.exists_eq_succ_of_ne_zero hd.ne'
  rw [Nat.succ_mul, Nat.mul_succ]
  omega

section

variable {blockSize size : Nat} (offset : Nat)

theorem readSum_range (pos : 0 < blockSize) (sizeSmall : size < 2 ^ 32) :
    -2 ^ 32 < partialBytes blockSize offset size - 1 ∧
      partialBytes blockSize offset size + bodySectors blockSize offset size < 2 ^ 32 := by
  have startLt := Nat.mod_lt offset pos
  have whole := Nat.div_add_mod' size blockSize
  unfold partialBytes bodySectors
  by_cases short : size < blockSize
  · rw [if_pos short, Nat.div_eq_of_lt short]
    split <;> omega
  have some := Nat.div_pos (not_lt.mp short) pos
  have least := add_le_mul_add_one some pos
  rw [if_neg short]
  split <;> omega

theorem readSum_eq_iff (pos : 0 < blockSize) (small : blockSize < 2 ^ 32) :
    size < 2 ^ 31 ∧ (partialBytes blockSize offset size + bodySectors blockSize offset size = size ∨
        partialBytes blockSize offset size + bodySectors blockSize offset size = size - 2 ^ 32) ↔
      size < 2 ^ 31 ∧ (size < blockSize ∨ blockSize = 1) := by
  have startLt := Nat.mod_lt offset pos
  have whole := Nat.div_add_mod' size blockSize
  apply and_congr_right
  unfold partialBytes bodySectors
  by_cases short : size < blockSize
  · rw [if_pos short, Nat.div_eq_of_lt short]
    split <;> omega
  have some := Nat.div_pos (not_lt.mp short) pos
  have least := add_le_mul_add_one some pos
  rw [if_neg short]
  split
  · next aligned =>
      by_cases single : blockSize = 1
      · rw [single, Nat.mul_one] at whole
        rw [single]
        omega
      · have twice := Nat.mul_le_mul_left (size / blockSize) (by omega : 2 ≤ blockSize)
        omega
  · omega

end

/-- A sum outside the nonnegative `ssize_t` values. -/
def ReadsNegative (sum : Int) : Prop := -2 ^ 31 ≤ sum ∧ sum < 0 ∨ 2 ^ 31 ≤ sum

instance (sum : Int) : Decidable (ReadsNegative sum) := inferInstanceAs (Decidable (_ ∨ _))

/-! ## Writing -/

/-- The whole sectors a `disk_write` asks for. -/
def wholeSectors (blockSize offset size : Nat) : Nat :=
  sub32 size (writeRest blockSize offset size) / blockSize

/-- The bytes a `disk_write` counts when the whole sectors are written. -/
def countedBytes (blockSize offset size : Nat) : Nat :=
  let start := offset % blockSize
  if start = 0 then size
  else if size < blockSize - start then blockSize
  else if size + start < 2 ^ 32 then size + start
  else size + (blockSize - (2 ^ 32 - start) % blockSize)

variable {blockSize : Nat}

theorem counted_eq (offset : Nat) (pos : 0 < blockSize)
    (small : blockSize < 2 ^ 32) (sizeSmall : size < 2 ^ 32) :
    (if offset % blockSize ≠ 0 then blockSize else 0) +
        wholeSectors blockSize offset size * blockSize + writeRest blockSize offset size =
      countedBytes blockSize offset size := by
  have startLt := Nat.mod_lt offset pos
  unfold wholeSectors countedBytes writeRest
  generalize offset % blockSize = start at *
  by_cases aligned : start = 0
  · subst aligned
    have rest := Nat.mod_le size blockSize
    have whole := Nat.div_add_mod' size blockSize
    rw [if_neg (by omega), if_neg (by omega), if_pos rfl, Nat.zero_add,
      add32_of_lt (by omega), Nat.add_zero, sub32_of_le rest sizeSmall,
      ← Nat.div_eq_sub_mod_div]
    exact whole
  rw [if_pos aligned, if_neg aligned]
  by_cases short : size < blockSize - start
  · rw [if_pos ⟨aligned, short⟩, if_pos short, sub32_of_le (Nat.zero_le _) sizeSmall,
      Nat.div_eq_of_lt (by omega), Nat.zero_mul]
    rfl
  rw [if_neg (fun both => short both.2), if_neg short]
  by_cases fits : size + start < 2 ^ 32
  · rw [add32_of_lt fits, if_pos fits]
    have whole := Nat.div_add_mod' (size + start) blockSize
    have some : 0 < (size + start) / blockSize := Nat.div_pos (by omega) pos
    generalize (size + start) % blockSize = rest at *
    obtain ⟨c, counted⟩ := Nat.exists_eq_succ_of_ne_zero some.ne'
    rw [counted, Nat.succ_mul] at whole
    have sectors : (size - rest) / blockSize = c := by
      apply Nat.div_eq_of_lt_le
      · omega
      · rw [Nat.succ_mul]
        omega
    rw [sub32_of_le (by omega) sizeSmall, sectors]
    omega
  · have wrapped : add32 size start = size + start - 2 ^ 32 := by
      unfold add32
      omega
    rw [wrapped, if_neg fits, Nat.mod_eq_of_lt (by omega), sub32_of_le (by omega) sizeSmall,
      show size - (size + start - 2 ^ 32) = 2 ^ 32 - start by omega]
    have restLt := Nat.mod_lt (2 ^ 32 - start) pos
    have whole := Nat.div_add_mod' (2 ^ 32 - start) blockSize
    omega

theorem counted_size_iff (offset : Nat) (pos : 0 < blockSize)
    (small : blockSize < 2 ^ 32) (sizeSmall : size < 2 ^ 32) :
    toSigned (countedBytes blockSize offset size % 2 ^ 32) = size ↔
      offset % blockSize = 0 ∧ size < 2 ^ 31 := by
  have restLt := Nat.mod_lt (2 ^ 32 - offset % blockSize) pos
  unfold countedBytes toSigned
  dsimp only
  split
  · split <;> omega
  split
  · split <;> omega
  · split <;> split <;> omega

section

variable (disk : Disk σ) (offset size : Nat) (buf : Bytes) (fresh : Nat → Bytes) (st : σ)

/-- The sector, the count and the device after the first sector; the count is also the index into
the buffer. -/
def writeStart : Nat × Nat × σ :=
  let start := offset % disk.blockSize
  let room := disk.blockSize - start
  if start ≠ 0 then
    (add32 (offset / disk.blockSize) 1, disk.blockSize,
      patchSector disk (fresh 0) (offset / disk.blockSize) start buf 0
        (if size < room then size else room) st)
  else (offset / disk.blockSize, 0, st)

/-- The call for the whole sectors. -/
def bodyWrites : List DriverCall :=
  let w := writeStart disk offset size buf fresh st
  let blkcnt := wholeSectors disk.blockSize offset size
  if blkcnt ≠ 0 then [⟨blkcnt, (disk.write w.1 buf w.2.1 blkcnt w.2.2).1⟩] else []

/-- The two calls of a partial sector. -/
def patchCalls (disk : Disk σ) (fresh : Bytes) (blockiter start : Nat) (buf : Bytes) (k n : Nat)
    (st : σ) : List DriverCall :=
  let tmp := disk.read blockiter fresh 0 1 st
  [⟨1, tmp.1⟩, ⟨1, (disk.write blockiter (blit tmp.2 start buf k n) 0 1 st).1⟩]

/-- The calls for the first sector, if it is partial. -/
def headWrites : List DriverCall :=
  let start := offset % disk.blockSize
  let room := disk.blockSize - start
  if start ≠ 0 then
    patchCalls disk (fresh 0) (offset / disk.blockSize) start buf 0
      (if size < room then size else room) st
  else []

/-- The sector, the index into the buffer and the device after the whole sectors. -/
def writeMid : Nat × Nat × σ :=
  let w := writeStart disk offset size buf fresh st
  let blkcnt := wholeSectors disk.blockSize offset size
  if blkcnt ≠ 0 then
    (add32 w.1 blkcnt, add32 w.2.1 (mul32 blkcnt disk.blockSize),
      (disk.write w.1 buf w.2.1 blkcnt w.2.2).2)
  else w

/-- The calls for the last sector, behind whole sectors that were all written. -/
def tailWrites : List DriverCall :=
  let w := writeMid disk offset size buf fresh st
  let rest := writeRest disk.blockSize offset size
  if rest ≠ 0 ∧ ∀ c ∈ bodyWrites disk offset size buf fresh st, c.Succeeds then
    patchCalls disk (fresh 1) w.1 0 buf w.2.1 rest w.2.2
  else []

/-- All calls of a `disk_write`. -/
def writeCalls : List DriverCall :=
  headWrites disk offset size buf fresh st ++ bodyWrites disk offset size buf fresh st ++
    tailWrites disk offset size buf fresh st

variable {disk offset size}

theorem wholeSectors_lt (blockSize offset size : Nat) :
    wholeSectors blockSize offset size < 2 ^ 32 :=
  Nat.lt_of_le_of_lt (Nat.div_le_self ..) (sub32_lt ..)

theorem writeStart_count (offset size : Nat) (small : disk.blockSize < 2 ^ 32) :
    (writeStart disk offset size buf fresh st).2.1 =
        (if offset % disk.blockSize ≠ 0 then disk.blockSize else 0) ∧
      (writeStart disk offset size buf fresh st).2.1 < 2 ^ 32 := by
  unfold writeStart
  dsimp only
  split
  · exact ⟨rfl, small⟩
  · exact ⟨rfl, Nat.two_pow_pos 32⟩

variable (pos : 0 < disk.blockSize)

include pos

theorem diskWrite_start : diskWrite offset buf size disk fresh st =
      writeBody disk (fresh 1) (toSigned (wholeSectors disk.blockSize offset size))
        (writeRest disk.blockSize offset size) buf (writeStart disk offset size buf fresh st).1
        (writeStart disk offset size buf fresh st).2.1
        (writeStart disk offset size buf fresh st).2.1
        (writeStart disk offset size buf fresh st).2.2 := by
  unfold diskWrite writeStart
  rw [if_neg pos.ne']
  dsimp only
  split <;> rfl

omit pos

theorem writeRest_of_most (pos : 0 < blockSize)
    (most : toSigned (wholeSectors blockSize offset size) = -1) :
    writeRest blockSize offset size = 0 := by
  have all : wholeSectors blockSize offset size = 2 ^ 32 - 1 := by
    unfold toSigned at most
    split at most <;> omega
  have single : blockSize = 1 := by
    have small := sub32_lt size (writeRest blockSize offset size)
    have whole := Nat.div_mul_le_self (sub32 size (writeRest blockSize offset size)) blockSize
    unfold wholeSectors at all
    rw [all] at whole
    omega
  rw [single]
  unfold writeRest
  simp [Nat.mod_one]

variable (small : disk.blockSize < 2 ^ 32)

include pos small

theorem diskWrite_ret_of_succeeds (sizeSmall : size < 2 ^ 32)
    (body : ∀ c ∈ bodyWrites disk offset size buf fresh st, c.Succeeds) :
    (diskWrite offset buf size disk fresh st).1 =
      toSigned (countedBytes disk.blockSize offset size % 2 ^ 32) := by
  obtain ⟨count, countLt⟩ := writeStart_count buf fresh st offset size small
  rw [diskWrite_start buf fresh st pos, ← counted_eq offset pos small sizeSmall, ← count]
  simp only [bodyWrites] at body
  have blkcntLt := wholeSectors_lt disk.blockSize offset size
  generalize wholeSectors disk.blockSize offset size = blkcnt at *
  unfold writeBody writeTail
  by_cases none : blkcnt = 0
  · simp only [none, show toSigned 0 = 0 from rfl, ne_eq, not_true_eq_false, if_false, add32]
    split
    · simp
    · next nothing =>
        rw [not_not.mp nothing, Nat.zero_mul, Nat.add_zero, Nat.mod_eq_of_lt countLt]
  rw [if_pos none] at body
  have written := body _ mem_cons_self
  simp only [DriverCall.Succeeds] at written
  simp only [if_pos (toSigned_ne_zero blkcntLt none), ofSigned_toSigned blkcntLt, written]
  rw [if_neg (not_not.mpr rfl)]
  split
  · simp [add32, mul32]
  · next nothing => simp [not_not.mp nothing, add32, mul32]

theorem diskWrite_ret_of_fails (bad : ∃ c ∈ bodyWrites disk offset size buf fresh st, c.Fails) :
    (diskWrite offset buf size disk fresh st).1 = toSigned (ofSigned
        ((if offset % disk.blockSize ≠ 0 then disk.blockSize else 0 : Nat) - disk.blockSize)) := by
  obtain ⟨c, mem, failed⟩ := bad
  rw [diskWrite_start buf fresh st pos, ← (writeStart_count buf fresh st offset size small).1]
  simp only [bodyWrites] at mem
  have blkcntLt := wholeSectors_lt disk.blockSize offset size
  have most : _ → writeRest disk.blockSize offset size = 0 := writeRest_of_most pos
  generalize writeStart disk offset size buf fresh st = w at *
  generalize wholeSectors disk.blockSize offset size = blkcnt at *
  split at mem
  · next some =>
      have failed : (disk.write w.1 buf w.2.1 blkcnt w.2.2).1 = -1 := by
        rwa [mem_singleton.mp mem] at failed
      have bytes : add32 w.2.1 (mul32 (ofSigned (-1)) disk.blockSize) =
          ofSigned (w.2.1 - disk.blockSize) := by
        rw [show ofSigned (-1) = 2 ^ 32 - 1 from rfl]
        unfold add32 mul32 ofSigned
        omega
      unfold writeBody
      simp only [if_pos (toSigned_ne_zero blkcntLt some), ofSigned_toSigned blkcntLt, failed, bytes]
      split
      · rfl
      next same =>
        rw [most (not_not.mp same).symm]
        rfl
  · cases mem

end

/-- The result tells success and failure of the calls apart. -/
def Honest (calls : List DriverCall) (size : Nat) (ret : Int) : Prop :=
  ((∀ c ∈ calls, c.Succeeds) → ret = size) ∧ ((∃ c ∈ calls, c.Fails) → ret < 0)

/-- A driver transfers what it is asked for or fails. -/
def Answered (calls : List DriverCall) : Prop := ∀ c ∈ calls, c.Succeeds ∨ c.Fails

instance (calls : List DriverCall) : Decidable (Answered calls) :=
  inferInstanceAs (Decidable (∀ c ∈ calls, c.Succeeds ∨ c.Fails))

theorem Answered.succeeds {calls : List DriverCall} (answered : Answered calls)
    (good : ¬ ∃ c ∈ calls, c.Fails) : ∀ c ∈ calls, c.Succeeds :=
  fun c mem => (answered c mem).resolve_right fun failed => good ⟨c, mem, failed⟩

theorem disk_results_iff {disk : Disk σ} (pos : 0 < disk.blockSize)
    (small : disk.blockSize < 2 ^ 32) (sizeSmall : size < 2 ^ 32) (offset : Nat) (buf : Bytes)
    (fresh : Nat → Bytes) (st : σ)
    (readAnswered : Answered (bodyReads disk offset size buf fresh st))
    (writeAnswered : Answered (bodyWrites disk offset size buf fresh st)) :
    (Honest (readCalls disk offset size buf fresh st) size
        (diskRead offset buf size disk fresh st).ret ↔
      ((∀ c ∈ readCalls disk offset size buf fresh st, c.Succeeds) →
        size < 2 ^ 31 ∧ (size < disk.blockSize ∨ disk.blockSize = 1)) ∧
      ((∃ c ∈ readCalls disk offset size buf fresh st, c.Fails) →
        if ∃ c ∈ bodyReads disk offset size buf fresh st, c.Fails then
          ReadsNegative (partialBytes disk.blockSize offset size - 1)
        else ReadsNegative (partialBytes disk.blockSize offset size +
          bodySectors disk.blockSize offset size))) ∧
    (Honest (writeCalls disk offset size buf fresh st) size
        (diskWrite offset buf size disk fresh st).1 ↔
      ((∀ c ∈ writeCalls disk offset size buf fresh st, c.Succeeds) →
        offset % disk.blockSize = 0 ∧ size < 2 ^ 31) ∧
      ((∃ c ∈ writeCalls disk offset size buf fresh st, c.Fails) →
        if ∃ c ∈ bodyWrites disk offset size buf fresh st, c.Fails then
          offset % disk.blockSize = 0 ∧ disk.blockSize ≤ 2 ^ 31
        else 2 ^ 31 ≤ countedBytes disk.blockSize offset size % 2 ^ 32)) := by
  have range := readSum_range offset pos sizeSmall
  have read : (diskRead offset buf size disk fresh st).ret = _ :=
    diskRead_ret buf fresh st pos small
  refine ⟨and_congr (imp_congr_right fun all => ?_) (imp_congr_right fun _ => ?_),
    and_congr (imp_congr_right fun all => ?_) (imp_congr_right fun _ => ?_)⟩
  · rw [read, bodyReads_sum_of_succeeds buf fresh st sizeSmall fun c mem =>
      all c (mem_append_left _ (mem_append_right _ mem)), ofSigned_add_toSigned,
      signed_eq_iff (by omega) range.2, readSum_eq_iff offset pos small]
  · split
    · next bad =>
        rw [read, bodyReads_sum_of_fails buf fresh st bad]
        exact signed_neg_iff range.1 (by omega)
    · next good =>
        rw [read, bodyReads_sum_of_succeeds buf fresh st sizeSmall (readAnswered.succeeds good),
          ofSigned_add_toSigned]
        exact signed_neg_iff (by omega) range.2
  · rw [diskWrite_ret_of_succeeds buf fresh st pos small sizeSmall fun c mem =>
      all c (mem_append_left _ (mem_append_right _ mem))]
    exact counted_size_iff offset pos small sizeSmall
  · split
    · next bad =>
        rw [diskWrite_ret_of_fails buf fresh st pos small bad]
        by_cases aligned : offset % disk.blockSize = 0
        · rw [if_neg (not_not.mpr aligned), signed_neg_iff (by omega) (by omega)]
          omega
        · rw [if_pos aligned, Int.sub_self]
          exact iff_of_false (by decide) (fun both => aligned both.1)
    · next good =>
        rw [diskWrite_ret_of_succeeds buf fresh st pos small sizeSmall
          (writeAnswered.succeeds good)]
        exact toSigned_neg_iff (Nat.mod_lt _ (Nat.two_pow_pos 32))

/-- A disk that fails every call. -/
def brokenDisk (blockSize : Nat) : Disk Unit where
  blockSize := blockSize
  read _ buf _ _ _ := (-1, buf)
  write _ _ _ _ _ := (-1, ())

theorem disk_results_second_sector :
    (Honest (readCalls (sectorDisk 512) 512 100 (fun _ => 7) (fun _ _ => 0) fun _ => 0) 100
        (diskRead 512 (fun _ => 7) 100 (sectorDisk 512) (fun _ _ => 0) fun _ => 0).ret ∧
      Honest (writeCalls (sectorDisk 512) 512 100 (fun _ => 7) (fun _ _ => 0) fun _ => 0) 100
        (diskWrite 512 (fun _ => 7) 100 (sectorDisk 512) (fun _ _ => 0) fun _ => 0).1) ∧
    (Honest (readCalls (brokenDisk 512) 512 512 (fun _ => 7) (fun _ _ => 0) ()) 512
        (diskRead 512 (fun _ => 7) 512 (brokenDisk 512) (fun _ _ => 0) ()).ret ∧
      Honest (writeCalls (brokenDisk 512) 512 512 (fun _ => 7) (fun _ _ => 0) ()) 512
        (diskWrite 512 (fun _ => 7) 512 (brokenDisk 512) (fun _ _ => 0) ()).1) := by
  constructor
  · have results := disk_results_iff (by decide : 0 < (sectorDisk 512).blockSize) (by decide)
      (by decide : 100 < 2 ^ 32) 512 (fun _ => 7) (fun _ _ => 0) (fun _ => 0)
      (by decide +kernel) (by decide +kernel)
    exact ⟨results.1.mpr ⟨by decide +kernel, by decide +kernel⟩,
      results.2.mpr ⟨by decide +kernel, by decide +kernel⟩⟩
  · have results := disk_results_iff (by decide : 0 < (brokenDisk 512).blockSize) (by decide)
      (by decide : 512 < 2 ^ 32) 512 (fun _ => 7) (fun _ _ => 0) ()
      (by decide +kernel) (by decide +kernel)
    exact ⟨results.1.mpr ⟨by decide +kernel, by decide +kernel⟩,
      results.2.mpr ⟨by decide +kernel, by decide +kernel⟩⟩

/-- Two sectors read count as two bytes, ten bytes written into a sector as a whole one, and on a
disk that fails every call ten bytes are read and a sector is written. -/
theorem disk_results_dishonest :
    ((∀ c ∈ readCalls (sectorDisk 512) 0 1024 (fun _ => 7) (fun _ _ => 0) (fun _ => 0),
      c.Succeeds) ∧
      (diskRead 0 (fun _ => 7) 1024 (sectorDisk 512) (fun _ _ => 0) fun _ => 0).ret = 2) ∧
    ((∀ c ∈ writeCalls (sectorDisk 512) 1 10 (fun _ => 7) (fun _ _ => 0) (fun _ => 0), c.Succeeds) ∧
      (diskWrite 1 (fun _ => 7) 10 (sectorDisk 512) (fun _ _ => 0) fun _ => 0).1 = 512) ∧
    ((∀ c ∈ readCalls (brokenDisk 512) 1 10 (fun _ => 7) (fun _ _ => 0) (), c.Fails) ∧
      (diskRead 1 (fun _ => 7) 10 (brokenDisk 512) (fun _ _ => 0) ()).ret = 10) ∧
    ((∀ c ∈ writeCalls (brokenDisk 512) 1 10 (fun _ => 7) (fun _ _ => 0) (), c.Fails) ∧
      (diskWrite 1 (fun _ => 7) 10 (brokenDisk 512) (fun _ _ => 0) ()).1 = 512) := by
  decide +kernel

end Yanix.Drivers
