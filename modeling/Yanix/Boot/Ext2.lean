/-
Module: Yanix.Boot.Ext2
Purpose: The ext2 reader of the boot loader, `bootloader/stage2/fs/ext2.c`, which takes records to
  be 128 bytes long and in the table of the first group, against the kernel's.
Trusted boundary: hand-translated from C; `load_block` loads the sectors it is
  asked for, `malloc` returns room for them
-/
import Yanix.Proofs.InodeRecords

namespace Yanix.Boot

open Foundation

/-- `SUPERBLOCK_POS` -/
def superblockPos : Nat := 0x0400

def ext2Signature : Nat := 0xEF53

/-- `INODE_SIZE` -/
def inodeSize : Nat := 0x0080

/-- The fields of `superblock_t` that are read. -/
structure BootSuperblock where
  blockSizeFrag : Nat
  inodesInBlockgroup : Nat
  ext2Signature : Nat

/-- Byte offsets in the packed `superblock_t` and `bgd_t`. -/
def blockSizeFragField : Nat := 24

@[inherit_doc blockSizeFragField]
def inodesInBlockgroupField : Nat := 40

@[inherit_doc blockSizeFragField]
def ext2SignatureField : Nat := 56

@[inherit_doc blockSizeFragField]
def startInodeTableField : Nat := 8

/-- A superblock that has been loaded to `sb`. -/
def superblockAt (sb : Bytes) : BootSuperblock where
  blockSizeFrag := load32 sb blockSizeFragField
  inodesInBlockgroup := load32 sb inodesInBlockgroupField
  ext2Signature := load32 sb ext2SignatureField % 2 ^ 16

/-- `1024 << sb->block_size_frag` -/
def blockSize (sb : BootSuperblock) : Nat := (1024 <<< sb.blockSizeFrag) % 2 ^ 32

/-- What stands in memory after `load_block` from `startlba`. -/
def loadBlock (disk : Bytes) (blocksizePhys startlba : Nat) : Bytes :=
  suffix disk (startlba * blocksizePhys)

/-- `_inode_offset_block` -/
def inodeOffsetBlock (inodeIndex : Nat) (sb : BootSuperblock) : Nat :=
  mul32 (sub32 inodeIndex 1 % sb.inodesInBlockgroup) inodeSize / blockSize sb

/-- `_inode_offset_rel_to_block` -/
def inodeOffsetRelToBlock (inodeIndex : Nat) (sb : BootSuperblock) : Nat :=
  mul32 (sub32 inodeIndex 1 % sb.inodesInBlockgroup % (blockSize sb / inodeSize)) inodeSize

/-- Where an inode is taken from: the first sector loaded, how many there are, and the place in the
buffer. -/
structure InodeRef where
  lba : Nat
  amount : Nat
  offset : Nat

def getInodeRef (inodeIndex startinode blocksize globalOffset : Nat) (sb : BootSuperblock) :
    InodeRef where
  lba := add32 globalOffset
    (mul32 (add32 (inodeOffsetBlock inodeIndex sb) startinode) (blockSize sb / blocksize))
  amount := blockSize sb / blocksize
  offset := inodeOffsetRelToBlock inodeIndex sb

/-- `load_ext2_kernel` up to the reference to the kernel's inode, a constant of the build; `none`
for a volume without the signature. -/
def loadExt2Kernel (disk : Bytes) (startlba kernelInode blocksizePhys : Nat) :
    Option InodeRef :=
  let superblockLba := add32 startlba (superblockPos / blocksizePhys)
  let sb := superblockAt (loadBlock disk blocksizePhys superblockLba)
  let bgd := loadBlock disk blocksizePhys (add32 superblockLba (blockSize sb / blocksizePhys))
  if sb.ext2Signature ≠ ext2Signature then none
  else some (getInodeRef kernelInode (load32 bgd startInodeTableField) blocksizePhys startlba sb)

/-- The byte position of the record inside the partition. -/
def InodeRef.position (ref : InodeRef) (startlba blocksizePhys : Nat) : Nat :=
  sub32 ref.lba startlba * blocksizePhys + ref.offset

end Yanix.Boot

namespace Yanix.Fs

open Foundation Drivers Boot

variable {σ : Type*}

/-- The block that contains a record and the record's place in it add up to its place in the table,
also where the table wraps around at a multiple of the block size. -/
theorem block_add_rest {size block modulus : Nat} (divides : size ∣ block) (pos : 0 < size)
    (wraps : block ∣ modulus) (index : Nat) :
    index * size % modulus / block * block + index % (block / size) * size
      = index * size % modulus := by
  obtain ⟨q, rfl⟩ := divides
  have rest : index * size % modulus % (size * q) = index % q * size := by
    rw [Nat.mod_mod_of_dvd _ wraps, mul_comm index, Nat.mul_mod_mul_left, mul_comm]
  rw [Nat.mul_div_cancel_left q pos, ← rest, Nat.div_add_mod']

theorem mod_add_of_dvd {block modulus rest : Nat} (wraps : block ∣ modulus) (pos : 0 < modulus)
    (lt : rest < block) (n : Nat) :
    n * block % modulus + rest = (n * block + rest) % modulus := by
  obtain ⟨k, rfl⟩ := wraps
  have kPos : 0 < k := Nat.pos_of_mul_pos_left pos
  have fits : n % k * block + rest < block * k := by
    have := Nat.mod_lt n kPos
    calc n % k * block + rest < n % k * block + block := by omega
      _ = block * (n % k + 1) := by ring
      _ ≤ block * k := Nat.mul_le_mul_left block this
  have blocks : n * block % (block * k) = n % k * block := by
    rw [mul_comm n, Nat.mul_mod_mul_left, mul_comm]
  rw [Nat.add_mod, blocks, Nat.mod_eq_of_lt (a := rest), Nat.mod_eq_of_lt fits]
  exact lt_of_lt_of_le lt (Nat.le_mul_of_pos_right block kPos)

/-! ## A volume that both know -/

/-- A volume at `startlba` that `init_ext2_filesystem` has accepted, on a disk with sectors of 512
bytes: the kernel has superblock and group descriptors from where the boot loader looks. -/
structure MountedFrom (disk : Bytes) (startlba : Nat) (fs : Ext2Fs σ) : Prop where
  start : fs.partstart = startlba * 512
  start_lt : fs.partstart < 2 ^ 32
  signature : load32 disk (fs.partstart + 1024 + ext2SignatureField) % 2 ^ 16 = ext2Signature
  inodes : fs.superblock.inodesInBlockgroup.toNat
    = load32 disk (fs.partstart + 1024 + inodesInBlockgroupField)
  blockSize : fs.blockSize = 1024 <<< load32 disk (fs.partstart + 1024 + blockSizeFragField)
  descriptor : ∀ group, (fs.blockgroupList group).startInodeTable.toNat = load32 disk
      (fs.partstart + 1024 + fs.blockSize + 32 * group + startInodeTableField)
  blockSize_lt : fs.blockSize < 2 ^ 32
  inodeSize_pos : 0 < ext2GetInodeSize fs
  inodeSize_dvd : ext2GetInodeSize fs ∣ fs.blockSize
  groups : 0 < fs.superblock.inodesInBlockgroup.toNat

variable {i : Nat}

namespace MountedFrom

variable {disk : Bytes} {startlba : Nat} {fs : Ext2Fs σ} (mounted : MountedFrom disk startlba fs)

include mounted

theorem blockSize_eq : ∃ n, n ≤ 21 ∧ fs.blockSize = 2 ^ (10 + n) := by
  have lt := mounted.blockSize_lt
  have size := mounted.blockSize
  rw [Nat.shiftLeft_eq, show 1024 = 2 ^ 10 from rfl, ← pow_add] at size
  refine ⟨_, ?_, size⟩
  rw [size] at lt
  have := (Nat.pow_lt_pow_iff_right (by decide)).mp lt
  omega

theorem blockSize_dvd : fs.blockSize ∣ 2 ^ 32 := by
  obtain ⟨n, lt, size⟩ := mounted.blockSize_eq
  rw [size]
  exact Nat.pow_dvd_pow 2 (by omega)

theorem dvd_blockSize : 1024 ∣ fs.blockSize := by
  obtain ⟨n, _, size⟩ := mounted.blockSize_eq
  rw [size]
  exact Nat.pow_dvd_pow 2 (by omega : 10 ≤ 10 + n)

theorem blockSize_pos : 0 < fs.blockSize := by
  obtain ⟨n, _, size⟩ := mounted.blockSize_eq
  rw [size]
  exact Nat.two_pow_pos _

theorem superblock_lba : add32 startlba (superblockPos / 512) * 512 = fs.partstart + 1024 := by
  have start := mounted.start
  have lt := mounted.start_lt
  rw [show superblockPos / 512 = 2 from rfl, add32_of_lt (by omega)]
  omega

theorem boot_superblock :
    let sb := superblockAt (loadBlock disk 512 (add32 startlba (superblockPos / 512)))
    Boot.blockSize sb = fs.blockSize ∧
      sb.inodesInBlockgroup = fs.superblock.inodesInBlockgroup.toNat ∧
      sb.ext2Signature = ext2Signature := by
  unfold loadBlock
  rw [mounted.superblock_lba]
  refine ⟨?_, mounted.inodes.symm, mounted.signature⟩
  have size := mounted.blockSize
  exact (congrArg (· % 2 ^ 32) size.symm).trans (Nat.mod_eq_of_lt mounted.blockSize_lt)

theorem sectors : fs.blockSize / 512 * 512 = fs.blockSize :=
  Nat.div_mul_cancel (dvd_trans (by decide : 512 ∣ 1024) mounted.dvd_blockSize)

theorem boot_descriptor : load32 (loadBlock disk 512 (add32 (add32 startlba (superblockPos / 512))
      (fs.blockSize / 512))) startInodeTableField
      = (fs.blockgroupList 0).startInodeTable.toNat := by
  have first := mounted.superblock_lba
  have start := mounted.start_lt
  have lt := mounted.blockSize_lt
  generalize add32 startlba (superblockPos / 512) = lba at *
  have place : add32 lba (fs.blockSize / 512) * 512 = fs.partstart + 1024 + fs.blockSize := by
    rw [add32_of_lt (by omega), add_mul, mounted.sectors, first]
  unfold loadBlock
  rw [place, load32_suffix, mounted.descriptor 0]
  simp

end MountedFrom

/-! ## When they agree -/

variable {fs : Ext2Fs σ}

/-- The record of 128 bytes in the table of the first group starts where the record of the
kernel's size in the table of the inode's group does, within the range of the two address
computations. -/
def SamePlace (fs : Ext2Fs σ) (i : Nat) : Prop :=
  (tableStart fs 0 + inodeIndex fs i * 128 % 2 ^ 32) % 2 ^ 41 =
    (tableStart fs (inodeGroup fs i) + inodeIndex fs i * ext2GetInodeSize fs) % 2 ^ 32

/-- Records have 128 bytes or more, and the table of the first group and the one of the inode's
group lie below 4 GiB and share no byte. -/
structure TablesApart (fs : Ext2Fs σ) (i : Nat) : Prop where
  large : 128 ≤ ext2GetInodeSize fs
  first_below : tableStart fs 0 +
    fs.superblock.inodesInBlockgroup.toNat * ext2GetInodeSize fs ≤ 2 ^ 32
  below : tableStart fs (inodeGroup fs i) +
    fs.superblock.inodesInBlockgroup.toNat * ext2GetInodeSize fs ≤ 2 ^ 32
  apart : inodeGroup fs i ≠ 0 →
    let length := fs.superblock.inodesInBlockgroup.toNat * ext2GetInodeSize fs
    tableStart fs 0 + length ≤ tableStart fs (inodeGroup fs i) ∨
      tableStart fs (inodeGroup fs i) + length ≤ tableStart fs 0

/-- On such a volume the two agree on the first group only, and there only for records of 128
bytes and for the first inode. -/
theorem TablesApart.samePlace_iff (tables : TablesApart fs i)
    (groups : 0 < fs.superblock.inodesInBlockgroup.toNat) (first : 1 ≤ i) :
    SamePlace fs i ↔ i ≤ fs.superblock.inodesInBlockgroup.toNat ∧
        (ext2GetInodeSize fs = 128 ∨ i = 1) := by
  obtain ⟨large, firstBelow, lt, ne⟩ := tables
  have groupZero : inodeGroup fs i = 0 ↔ i ≤ fs.superblock.inodesInBlockgroup.toNat := by
    rw [inodeGroup, Nat.div_eq_zero_iff_lt groups]
    omega
  have indexLt : inodeIndex fs i < fs.superblock.inodesInBlockgroup.toNat := Nat.mod_lt _ groups
  have inTable : inodeIndex fs i * ext2GetInodeSize fs + ext2GetInodeSize fs
      ≤ fs.superblock.inodesInBlockgroup.toNat * ext2GetInodeSize fs := by
    rw [← Nat.succ_mul]
    exact Nat.mul_le_mul_right _ indexLt
  have shorter : inodeIndex fs i * 128 ≤ inodeIndex fs i * ext2GetInodeSize fs :=
    Nat.mul_le_mul_left _ large
  unfold SamePlace
  rw [Nat.mod_eq_of_lt (a := inodeIndex fs i * 128) (by omega),
    Nat.mod_eq_of_lt (b := 2 ^ 41) (by omega), Nat.mod_eq_of_lt (b := 2 ^ 32) (by omega)]
  by_cases group : inodeGroup fs i = 0
  · have le := groupZero.mp group
    have index : inodeIndex fs i = i - 1 := Nat.mod_eq_of_lt (by omega)
    rw [group, Nat.add_left_cancel_iff, index]
    constructor
    · intro same
      refine ⟨le, ?_⟩
      rcases Nat.eq_zero_or_pos (i - 1) with one | more
      · exact .inr (by omega)
      · exact .inl (Nat.eq_of_mul_eq_mul_left more same).symm
    · rintro ⟨_, size | one⟩
      · rw [size]
      · rw [one]
        simp
  · have tables := ne group
    constructor
    · intro same
      omega
    · rintro ⟨le, _⟩
      exact absurd (groupZero.mpr le) group

/-- The boot loader takes an inode from where the kernel reads it exactly if both computations lead
to one place; with inode tables below 4 GiB that share no byte, exactly if it is in the first group
and records have 128 bytes or it is the first of all. -/
theorem boot_inode_position_iff {disk : Bytes} {startlba i : Nat}
    (mounted : MountedFrom disk startlba fs) (valid : ValidInode fs i) :
    (∃ ref, loadExt2Kernel disk startlba i 512 = some ref ∧
      (ref.position startlba 512 = ext2GetInodeOffset i fs ↔ SamePlace fs i)) ∧
    (TablesApart fs i → (SamePlace fs i ↔ i ≤ fs.superblock.inodesInBlockgroup.toNat ∧
        (ext2GetInodeSize fs = 128 ∨ i = 1))) := by
  obtain ⟨ref, loaded, position⟩ : ∃ ref, loadExt2Kernel disk startlba i 512 = some ref ∧
      ref.position startlba 512 = (tableStart fs 0 + inodeIndex fs i * 128 % 2 ^ 32) % 2 ^ 41 := by
    obtain ⟨size, inodes, signature⟩ := mounted.boot_superblock
    have number : sub32 i 1 = i - 1 :=
      sub32_of_le valid.1 (valid.2.trans_lt fs.superblock.totalInodes.toNat_lt)
    have parts := block_add_rest (dvd_trans (by decide : 128 ∣ 1024) mounted.dvd_blockSize)
      (by decide) mounted.blockSize_dvd (inodeIndex fs i)
    unfold loadExt2Kernel
    simp only [size, signature, ne_eq, not_true_eq_false, if_false, Option.some.injEq,
      exists_eq_left', mounted.boot_descriptor]
    unfold InodeRef.position getInodeRef inodeOffsetBlock inodeOffsetRelToBlock
    simp only [size, inodes, number]
    rw [show (i - 1) % fs.superblock.inodesInBlockgroup.toNat = inodeIndex fs i from rfl,
      sub32_add32_left (by have := mounted.start; have := mounted.start_lt; omega)
        (mul32_lt ..), show inodeSize = 128 from rfl]
    have restLt : inodeIndex fs i % (fs.blockSize / 128) * 128 < fs.blockSize := by
      obtain ⟨q, whole⟩ := mounted.dvd_blockSize
      have pos := mounted.blockSize_pos
      have := Nat.mod_lt (inodeIndex fs i) (show 0 < fs.blockSize / 128 by omega)
      omega
    unfold add32 mul32 tableStart
    rw [Nat.mod_eq_of_lt (restLt.trans mounted.blockSize_lt)]
    generalize (fs.blockgroupList 0).startInodeTable.toNat = table
    generalize inodeIndex fs i = index at *
    calc _ = (index * 128 % 2 ^ 32 / fs.blockSize + table) * fs.blockSize % 2 ^ 41
            + index % (fs.blockSize / 128) * 128 := by
          rw [Nat.mod_mul_mod, ← Nat.mul_mod_mul_right, mul_assoc, mounted.sectors,
            show 2 ^ 32 * 512 = 2 ^ 41 from rfl]
      _ = ((index * 128 % 2 ^ 32 / fs.blockSize + table) * fs.blockSize
            + index % (fs.blockSize / 128) * 128) % 2 ^ 41 :=
          mod_add_of_dvd (dvd_trans mounted.blockSize_dvd (Nat.pow_dvd_pow 2 (by decide)))
            (by decide) restLt _
      _ = _ := by
          rw [add_mul, add_right_comm, parts, add_comm]
  refine ⟨⟨ref, loaded, ?_⟩, fun tables => tables.samePlace_iff mounted.groups valid.1⟩
  have kernelOffsetEq : ext2GetInodeOffset i fs = (tableStart fs (inodeGroup fs i) + inodeIndex fs
      i * ext2GetInodeSize fs) % 2 ^ 32 := by
    have number : sub32 i 1 = i - 1 :=
      sub32_of_le valid.1 (valid.2.trans_lt fs.superblock.totalInodes.toNat_lt)
    have parts := block_add_rest mounted.inodeSize_dvd mounted.inodeSize_pos mounted.blockSize_dvd
      (inodeIndex fs i)
    unfold ext2GetInodeOffset
    simp only [number]
    rw [show (i - 1) / fs.superblock.inodesInBlockgroup.toNat = inodeGroup fs i from rfl,
      show (i - 1) % fs.superblock.inodesInBlockgroup.toNat = inodeIndex fs i from rfl]
    unfold add32 mul32 tableStart
    generalize (fs.blockgroupList (inodeGroup fs i)).startInodeTable.toNat = table
    calc _ = ((table + inodeIndex fs i * ext2GetInodeSize fs % 2 ^ 32 / fs.blockSize)
            * fs.blockSize + inodeIndex fs i % (fs.blockSize / ext2GetInodeSize fs)
            * ext2GetInodeSize fs) % 2 ^ 32 := by
          rw [Nat.mod_mul_mod, ← Nat.add_mod]
      _ = (table * fs.blockSize + inodeIndex fs i * ext2GetInodeSize fs % 2 ^ 32) % 2 ^ 32 := by
          rw [add_mul, add_assoc, parts]
      _ = _ := Nat.add_mod_mod ..
  rw [position, kernelOffsetEq, SamePlace]

/-- A volume at the start of a disk: blocks of 1024 bytes, two groups of 16 inodes, whose tables
start at the blocks 5 and 40. -/
def bootDisk : Bytes :=
  store32 (store32 (store32 (store32 (fun _ => 0) 1064 16) 1080 ext2Signature) 2056 5) 2088 40

/-- The kernel's view of it, for a size of records from the extended superblock. -/
def bootVolume (inodeSize : UInt16) : Ext2Fs Bytes where
  blockSize := 1024
  partstart := 0
  diskInfo := sectorDisk 512
  superblock := ⟨32, 64, 1, 32, 16, 1, inodeSize⟩
  blockgroupList group := ⟨0, 0, UInt32.ofNat (load32 bootDisk (2048 + 32 * group + 8))⟩

theorem bootVolume_mounted {inodeSize : UInt16} (pos : 0 < inodeSize.toNat)
    (divides : inodeSize.toNat ∣ 1024) : MountedFrom bootDisk 0 (bootVolume inodeSize) where
  start := rfl
  start_lt := show 0 < 2 ^ 32 by decide
  signature := show load32 bootDisk 1080 % 2 ^ 16 = ext2Signature by decide
  inodes := show 16 = load32 bootDisk 1064 by decide
  blockSize := show 1024 = 1024 <<< load32 bootDisk 1048 by decide
  descriptor group := by
    have place : (bootVolume inodeSize).partstart + 1024 + (bootVolume inodeSize).blockSize
        + 32 * group + startInodeTableField = 2048 + 32 * group + 8 := by
      simp [bootVolume, startInodeTableField]
    rw [place]
    exact UInt32.toNat_ofNat_of_lt' (load32_lt ..)
  blockSize_lt := show 1024 < 2 ^ 32 by decide
  inodeSize_pos := pos
  inodeSize_dvd := divides
  groups := show 0 < 16 by decide

theorem boot_inode_position_root : ∃ ref, loadExt2Kernel bootDisk 0 2 512 = some ref ∧
      ref.position 0 512 = ext2GetInodeOffset 2 (bootVolume 128) := by
  have mounted : MountedFrom bootDisk 0 (bootVolume 128) :=
    bootVolume_mounted (by decide) (by decide)
  obtain ⟨ref, loaded, same⟩ := (boot_inode_position_iff mounted (i := 2) ⟨by decide, by decide⟩).1
  exact ⟨ref, loaded, same.mpr (by unfold SamePlace; decide)⟩

/-- With records of 256 bytes the boot loader takes the root directory from the middle of the first
record; and the first inode of the second group for the first of all. -/
theorem boot_inode_position_differs :
    MountedFrom bootDisk 0 (bootVolume 256) ∧ ValidInode (bootVolume 256) 2 ∧
      (loadExt2Kernel bootDisk 0 2 512).map (·.position 0 512) = some 5248 ∧
      ext2GetInodeOffset 2 (bootVolume 256) = 5376 ∧
    MountedFrom bootDisk 0 (bootVolume 128) ∧ ValidInode (bootVolume 128) 17 ∧
      (loadExt2Kernel bootDisk 0 17 512).map (·.position 0 512) = some 5120 ∧
      ext2GetInodeOffset 17 (bootVolume 128) = 40960 :=
  ⟨bootVolume_mounted (by decide) (by decide), ⟨by decide, by decide⟩, by decide, by decide,
    bootVolume_mounted (by decide) (by decide), ⟨by decide, by decide⟩, by decide, by decide⟩

end Yanix.Fs
