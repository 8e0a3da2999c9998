/-
Module: Yanix.Proofs.InodeRecords
Purpose: A record never crosses a sector boundary unless it consists of whole sectors, so
  updating the length of a file changes its size field only.
-/
import Yanix.Fs.Ext2
import Yanix.Proofs.DiskTransfer

namespace Yanix.Fs

open Foundation Drivers

variable {σ : Type*} {fs : Ext2Fs σ} {bytes : σ → Bytes}

/-- A mounted ext2 partition on a device with sectors of 512 bytes, whose driver
transfers what it is asked for.  Block sizes are `1024 << n`, inode sizes powers
of two. -/
structure Ext2Image (fs : Ext2Fs σ) (bytes : σ → Bytes) : Prop where
  transfers : TransfersSectors fs.diskInfo bytes
  counted : ∀ lba buf k n st, (fs.diskInfo.read lba buf k n st).1 = toSigned n
  sector : fs.diskInfo.blockSize = 512
  start : 512 ∣ fs.partstart
  blockSize : ∃ n, fs.blockSize = 1024 * 2 ^ n
  blockSize_lt : fs.blockSize < 2 ^ 32
  inodeSize : ∃ n, 7 ≤ n ∧ ext2GetInodeSize fs = 2 ^ n
  inodeSize_le : ext2GetInodeSize fs ≤ fs.blockSize
  groups : 0 < fs.superblock.inodesInBlockgroup.toNat

/-! ## Where a record lies -/

def inodeGroup (fs : Ext2Fs σ) (i : Nat) : Nat := (i - 1) / fs.superblock.inodesInBlockgroup.toNat

def inodeIndex (fs : Ext2Fs σ) (i : Nat) : Nat := (i - 1) % fs.superblock.inodesInBlockgroup.toNat

/-- The start of the inode table of a group, in the partition. -/
def tableStart (fs : Ext2Fs σ) (group : Nat) : Nat :=
  (fs.blockgroupList group).startInodeTable.toNat * fs.blockSize

/-- The first byte of a record, on the disk. -/
def recordStart (fs : Ext2Fs σ) (i : Nat) : Nat := fs.partstart + (tableStart fs (inodeGroup fs i) +
    inodeIndex fs i * ext2GetInodeSize fs)

/-- The number of an inode of the file system. -/
def ValidInode (fs : Ext2Fs σ) (i : Nat) : Prop := 1 ≤ i ∧ i ≤ fs.superblock.totalInodes.toNat

/-- The bytes of a record have disk offsets below 2^32. -/
def RecordAddressable (fs : Ext2Fs σ) (i : Nat) : Prop :=
  recordStart fs i + ext2GetInodeSize fs ≤ 2 ^ 32

/-- The inode tables of different groups share no byte. -/
def TablesDisjoint (fs : Ext2Fs σ) : Prop :=
  ∀ i j, ValidInode fs i → ValidInode fs j → inodeGroup fs i ≠ inodeGroup fs j →
    let length := fs.superblock.inodesInBlockgroup.toNat * ext2GetInodeSize fs
    tableStart fs (inodeGroup fs i) + length ≤ tableStart fs (inodeGroup fs j) ∨
      tableStart fs (inodeGroup fs j) + length ≤ tableStart fs (inodeGroup fs i)

theorem inSector_of_pow {k offset : Nat} (aligned : 2 ^ k ∣ offset) :
    offset % 512 = 0 ∨ 2 ^ k < 512 ∧ offset % 512 + 2 ^ k ≤ 512 := by
  by_cases large : 9 ≤ k
  · left
    have sector : 512 ∣ 2 ^ k := Nat.pow_dvd_pow 2 large
    exact Nat.mod_eq_zero_of_dvd (sector.trans aligned)
  right
  have short : 2 ^ k < 2 ^ 9 := Nat.pow_lt_pow_right (by decide) (by omega)
  have sector : 2 ^ k ∣ 512 := Nat.pow_dvd_pow 2 (show k ≤ 9 by omega)
  obtain ⟨u, start⟩ := (Nat.dvd_mod_iff sector).mpr aligned
  obtain ⟨v, whole⟩ := sector
  have startLt := Nat.mod_lt offset (show 512 > 0 by decide)
  have next : u + 1 ≤ v := by
    rw [start, whole] at startLt
    exact Nat.lt_of_mul_lt_mul_left startLt
  have room := Nat.mul_le_mul_left (2 ^ k) next
  rw [Nat.mul_succ, ← start, ← whole] at room
  exact ⟨short, room⟩

namespace Ext2Image

variable (image : Ext2Image fs bytes)

include image

theorem inodeSize_pos : 0 < ext2GetInodeSize fs := by
  obtain ⟨n, -, size⟩ := image.inodeSize
  rw [size]
  exact Nat.two_pow_pos n

theorem inodeSize_ge : 128 ≤ ext2GetInodeSize fs := by
  obtain ⟨n, large, size⟩ := image.inodeSize
  rw [size, show 128 = 2 ^ 7 from rfl]
  exact Nat.pow_le_pow_right (by decide) large

theorem blockSize_pos : 0 < fs.blockSize := image.inodeSize_pos.trans_le image.inodeSize_le

theorem sector_dvd_blockSize : 512 ∣ fs.blockSize := by
  obtain ⟨n, size⟩ := image.blockSize
  rw [size]
  exact Nat.dvd_mul_right_of_dvd (by decide) _

theorem inodeSize_dvd_blockSize : ext2GetInodeSize fs ∣ fs.blockSize := by
  obtain ⟨n, blockSize⟩ := image.blockSize
  obtain ⟨k, -, size⟩ := image.inodeSize
  have power : fs.blockSize = 2 ^ (10 + n) := by rw [blockSize, Nat.pow_add]
  have fits := image.inodeSize_le
  rw [size, power] at fits ⊢
  exact Nat.pow_dvd_pow 2 ((Nat.pow_le_pow_iff_right (by decide)).mp fits)

theorem inodeOffset_eq {i : Nat} (valid : ValidInode fs i) (addressable : RecordAddressable fs i) :
    add32 (ext2GetInodeOffset i fs) fs.partstart = recordStart fs i := by
  obtain ⟨first, last⟩ := valid
  have iSmall : i < 2 ^ 32 := last.trans_lt fs.superblock.totalInodes.toNat_lt
  have number : sub32 i 1 = i - 1 := sub32_of_le first iSmall
  have sizePos := image.inodeSize_pos
  obtain ⟨q, whole⟩ := image.inodeSize_dvd_blockSize
  unfold RecordAddressable recordStart tableStart at addressable
  unfold ext2GetInodeOffset recordStart tableStart
  simp only [number, whole]
  rw [whole] at addressable
  rw [show (i - 1) / fs.superblock.inodesInBlockgroup.toNat = inodeGroup fs i from rfl,
    show (i - 1) % fs.superblock.inodesInBlockgroup.toNat = inodeIndex fs i from rfl]
  generalize inodeIndex fs i = index at *
  generalize (fs.blockgroupList (inodeGroup fs i)).startInodeTable.toNat = table at *
  generalize ext2GetInodeSize fs = size at *
  have quotient : index * size / (size * q) = index / q := by
    rw [Nat.mul_comm index size]
    exact Nat.mul_div_mul_left index q sizePos
  have inBlock : size * q / size = q := Nat.mul_div_cancel_left q sizePos
  -- the two parts of the index add up again
  have parts : (table + index / q) * (size * q) + index % q * size =
      table * (size * q) + index * size := by
    have split : index / q * (size * q) + index % q * size = index * size := by
      calc index / q * (size * q) + index % q * size
          = (q * (index / q) + index % q) * size := by ring
        _ = index * size := by rw [Nat.div_add_mod]
    rw [Nat.add_mul, Nat.add_assoc, split]
  have blocksPos : 0 < size * q := by
    rw [← whole]
    exact image.blockSize_pos
  have tableLe : table + index / q ≤ (table + index / q) * (size * q) :=
    Nat.le_mul_of_pos_right _ blocksPos
  rw [mul32_of_lt (show index * size < 2 ^ 32 by omega), quotient, inBlock,
    add32_of_lt (show table + index / q < 2 ^ 32 by omega),
    mul32_of_lt (by omega),
    mul32_of_lt (by omega),
    add32_of_lt (show (table + index / q) * (size * q) + index % q * size < 2 ^ 32 by omega),
    parts, add32_of_lt (by omega), Nat.add_comm]

theorem record_aligned (i : Nat) : recordStart fs i % 512 = 0 ∨ ext2GetInodeSize fs < 512 ∧
        recordStart fs i % 512 + ext2GetInodeSize fs ≤ 512 := by
  have inTable : ext2GetInodeSize fs ∣
      tableStart fs (inodeGroup fs i) + inodeIndex fs i * ext2GetInodeSize fs :=
    Nat.dvd_add (Nat.dvd_mul_left_of_dvd image.inodeSize_dvd_blockSize _) (Nat.dvd_mul_left ..)
  obtain ⟨k, -, size⟩ := image.inodeSize
  rw [size] at inTable ⊢
  by_cases large : 9 ≤ k
  · left
    have sector : 512 ∣ 2 ^ k := Nat.pow_dvd_pow 2 large
    apply Nat.mod_eq_zero_of_dvd
    unfold recordStart
    rw [size]
    exact Nat.dvd_add image.start (sector.trans inTable)
  · have sector : 2 ^ k ∣ 512 := Nat.pow_dvd_pow 2 (show k ≤ 9 by omega)
    apply inSector_of_pow
    unfold recordStart
    rw [size]
    exact Nat.dvd_add (sector.trans image.start) inTable

/-! ## Reading and writing a record -/

variable {i : Nat}

theorem read_record (valid : ValidInode fs i) (addressable : RecordAddressable fs i)
    (block : Bytes) (fresh : Nat → Bytes) (st : σ) :
    ext2GetInodeRef i fs block fresh st =
      blit block 0 (bytes st) (recordStart fs i) (ext2GetInodeSize fs) := by
  have sizePos := image.inodeSize_pos
  have small : ext2GetInodeSize fs < 2 ^ 32 := image.inodeSize_le.trans_lt image.blockSize_lt
  have delivers := image.transfers.read st
  have sector := image.sector
  unfold RecordAddressable at addressable
  unfold ext2GetInodeRef ext2DiskRead
  rw [image.inodeOffset_eq valid addressable]
  by_cases aligned : recordStart fs i % 512 = 0
  · exact (diskRead_aligned delivers (by omega) (by omega) small (by rwa [sector]) block fresh).1
  obtain ⟨short, lt⟩ := (image.record_aligned i).resolve_left aligned
  exact (diskRead_short delivers (by rwa [sector]) (by rwa [sector]) block fresh).2
    (by rwa [sector])

theorem write_record (valid : ValidInode fs i) (addressable : RecordAddressable fs i)
    (inodeRef : Bytes) (fresh : Nat → Bytes) (st : σ) :
    bytes (ext2WriteInode inodeRef i fs fresh st).2 =
      blit (bytes st) (recordStart fs i) inodeRef 0 (ext2GetInodeSize fs) := by
  have sizePos := image.inodeSize_pos
  have small : ext2GetInodeSize fs < 2 ^ 32 := image.inodeSize_le.trans_lt image.blockSize_lt
  have sector := image.sector
  unfold RecordAddressable at addressable
  unfold ext2WriteInode ext2DiskWrite
  rw [image.inodeOffset_eq valid addressable]
  by_cases aligned : recordStart fs i % 512 = 0
  · exact diskWrite_aligned image.transfers (by omega) (by omega) small (by rwa [sector]) fresh
      st inodeRef
  obtain ⟨short, lt⟩ := (image.record_aligned i).resolve_left aligned
  exact diskWrite_inside image.transfers (by omega) (by omega) (by rwa [sector])
    (by rw [sector]; omega) fresh st inodeRef

theorem updateNode_store {node : VfsNode} (valid : ValidInode fs node.offset)
    (addressable : RecordAddressable fs node.offset) (block : Bytes)
    (fresh : Nat → Nat → Bytes) (st : σ) :
    bytes (ext2UpdateNode node fs (some block) fresh st).2 =
      store32 (bytes st) (recordStart fs node.offset + inodeSizeField) node.filelength := by
  have large := image.inodeSize_ge
  simp only [ext2UpdateNode]
  rw [image.write_record valid addressable, image.read_record valid addressable]
  exact blit_store32 _ _ _ _ (by unfold inodeSizeField; omega)

end Ext2Image

theorem records_disjoint (disjoint : TablesDisjoint fs)
    (groups : 0 < fs.superblock.inodesInBlockgroup.toNat) {i j : Nat}
    (validI : ValidInode fs i) (validJ : ValidInode fs j) (ne : i ≠ j) {x : Nat}
    (lt : x < ext2GetInodeSize fs) :
    recordStart fs j + x < recordStart fs i ∨
      recordStart fs i + ext2GetInodeSize fs ≤ recordStart fs j + x := by
  have lastOf (l : Nat) : inodeIndex fs l * ext2GetInodeSize fs + ext2GetInodeSize fs ≤
        fs.superblock.inodesInBlockgroup.toNat * ext2GetInodeSize fs := by
    rw [← Nat.succ_mul]
    exact Nat.mul_le_mul_right _ (Nat.mod_lt _ groups)
  have lastI := lastOf i
  have lastJ := lastOf j
  unfold recordStart
  by_cases sameGroup : inodeGroup fs i = inodeGroup fs j
  · have otherIndex : inodeIndex fs i ≠ inodeIndex fs j := by
      intro sameIndex
      have numbers : i - 1 = j - 1 := by
        rw [← Nat.div_add_mod (i - 1) fs.superblock.inodesInBlockgroup.toNat,
          ← Nat.div_add_mod (j - 1) fs.superblock.inodesInBlockgroup.toNat]
        exact congrArg₂ (fun g k => _ * g + k) sameGroup sameIndex
      have firstI := validI.1
      have firstJ := validJ.1
      omega
    have apart := lt_or_le_of_block_ne otherIndex lt
    rw [sameGroup]
    omega
  · have apart := disjoint i j validI validJ sameGroup
    simp only at apart
    omega

/-- Updating the length of a file sets the size field of its inode record and
changes no other byte of the disk, in particular none of another record. -/
theorem updateNode_changes_size (image : Ext2Image fs bytes)
    (disjoint : TablesDisjoint fs) {node : VfsNode} (valid : ValidInode fs node.offset)
    (addressable : ∀ i, ValidInode fs i → RecordAddressable fs i)
    (lengthSmall : node.filelength < 2 ^ 32) (block : Bytes) (fresh : Nat → Nat → Bytes)
    (st : σ) :
    let field := recordStart fs node.offset + inodeSizeField
    let st' := (ext2UpdateNode node fs (some block) fresh st).2
    load32 (bytes st') field = node.filelength ∧
      (∀ x, x < field ∨ field + 4 ≤ x → bytes st' x = bytes st x) ∧
      ∀ i, ValidInode fs i → i ≠ node.offset → ∀ x < ext2GetInodeSize fs,
        bytes st' (recordStart fs i + x) = bytes st (recordStart fs i + x) := by
  have large := image.inodeSize_ge
  intro field st'
  have stored : bytes st' = store32 (bytes st) field node.filelength :=
    image.updateNode_store valid (addressable _ valid) block fresh st
  have frame (x : Nat) (away : x < field ∨ field + 4 ≤ x) : bytes st' x = bytes st x := by
    rw [stored]
    exact store32_apply_of_disjoint _ _ away
  refine ⟨?_, frame, ?_⟩
  · rw [stored, load32_store32_same, Nat.mod_eq_of_lt lengthSmall]
  intro i validI ne x lt
  apply frame
  have apart := records_disjoint disjoint image.groups valid validI ne.symm lt
  unfold field inodeSizeField
  omega

/-- One block group with 32 inodes of 128 bytes, 64 blocks of 1024 bytes. -/
def smallExt2 (partstart : Nat) : Ext2Fs Bytes where
  blockSize := 1024
  partstart := partstart
  diskInfo := sectorDisk 512
  superblock := ⟨32, 64, 1, 8192, 32, 1, 128⟩
  blockgroupList := fun _ => ⟨3, 4, 5⟩

/-- At 1 MiB. -/
abbrev farExt2 : Ext2Fs Bytes := smallExt2 1048576

theorem smallExt2_image {partstart : Nat} (aligned : 512 ∣ partstart) :
    Ext2Image (smallExt2 partstart) id where
  transfers := sectorDisk_transfers 512
  counted := fun _ _ _ _ _ => rfl
  sector := rfl
  start := aligned
  blockSize := ⟨0, rfl⟩
  blockSize_lt := (by decide : 1024 < 2 ^ 32)
  inodeSize := ⟨7, by decide, rfl⟩
  inodeSize_le := (by decide : 128 ≤ 1024)
  groups := (by decide : 0 < 32)

theorem smallExt2_tables (partstart : Nat) : TablesDisjoint (smallExt2 partstart) := by
  intro i j validI validJ ne
  have lastI : i ≤ 32 := validI.2
  have lastJ : j ≤ 32 := validJ.2
  change (i - 1) / 32 ≠ (j - 1) / 32 at ne
  omega

theorem smallExt2_addressable {partstart : Nat} (small : partstart ≤ 1048576) (i : Nat) :
    RecordAddressable (smallExt2 partstart) i := by
  change partstart + (5 * 1024 + (i - 1) % 32 * 128) + 128 ≤ 2 ^ 32
  omega

theorem updateNode_smallExt2 :
    load32 (ext2UpdateNode ⟨2, 77⟩ farExt2 (some fun _ => 0) (fun _ _ _ => 0)
      (fun _ => 1)).2 1053828 = 77 :=
  (updateNode_changes_size (smallExt2_image (by decide)) (smallExt2_tables _) ⟨by decide, by decide⟩
    (fun i _ => smallExt2_addressable le_rfl i) (by decide) (fun _ => 0) (fun _ _ _ => 0)
    (fun _ => 1)).1

end Yanix.Fs
