/-
Module: Yanix.Proofs.FileRoundTrip
Purpose: Blocks that `ext2_write_file` has written are read back and nothing else changes;
  `fs_read` never looks at the length of a file, which `fs_write` may shorten.
-/
import Yanix.Proofs.BlockMap
import Yanix.Proofs.InodeRecords
import Yanix.Proofs.FileRead

namespace Yanix.Fs

open Foundation Drivers

section

variable {σ : Type*}

/-- The block pointers in the record of an inode. -/
def inodeAt (disk : Bytes) (fsInfo : Ext2Fs σ) (i : Nat) : Ext2Inode :=
  inodePointers (suffix disk (recordStart fsInfo i))

/-- Where a block starts on the disk. -/
def FsFields.blockStart (fsInfo : FsFields σ) (block : Nat) : Nat :=
  fsInfo.partstart + block * fsInfo.blockSize

/-- A block of pointers of a file. -/
def PointerBlock (disk : Bytes) (fsInfo : FsFields σ) (inode : Ext2Inode) (block : Nat) :
    Prop :=
  block = inode.singleIndirectBlockPointer.toNat ∨ block = inode.doubleIndirectBlockPointer.toNat ∨
    inode.doubleIndirectBlockPointer ≠ 0 ∧ ∃ i < fsInfo.pointers,
      block = layoutEntry disk fsInfo inode.doubleIndirectBlockPointer.toNat i

/-- The block that holds the record of an inode. -/
def recordBlock (fsInfo : Ext2Fs σ) (i : Nat) : Nat :=
  (fsInfo.blockgroupList (inodeGroup fsInfo i)).startInodeTable.toNat +
    inodeIndex fsInfo i * ext2GetInodeSize fsInfo / fsInfo.blockSize

/-- The blocks `o`, ..., `o + c - 1` of a file lie in different data blocks that can be addressed.
-/
structure MappedRange (disk : Bytes) (fsInfo : Ext2Fs σ) (i o c : Nat) : Prop where
  mapped : ∀ n, o ≤ n → n < o + c →
    layoutPtr disk fsInfo.toFsFields (inodeAt disk fsInfo i) n ≠ 0
  distinct : ∀ n m, o ≤ n → n < o + c → o ≤ m → m < o + c → n ≠ m →
    layoutPtr disk fsInfo.toFsFields (inodeAt disk fsInfo i) n ≠
      layoutPtr disk fsInfo.toFsFields (inodeAt disk fsInfo i) m
  notPointers : ∀ n, o ≤ n → n < o + c → ¬ PointerBlock disk fsInfo.toFsFields
    (inodeAt disk fsInfo i) (layoutPtr disk fsInfo.toFsFields (inodeAt disk fsInfo i) n)
  notRecords : ∀ n, o ≤ n → n < o + c → ∀ j, ValidInode fsInfo j →
    layoutPtr disk fsInfo.toFsFields (inodeAt disk fsInfo i) n ≠ recordBlock fsInfo j
  addressable : ∀ n, o ≤ n → n < o + c → fsInfo.Addressable
    (layoutPtr disk fsInfo.toFsFields (inodeAt disk fsInfo i) n)
  path : ∀ n, o ≤ n → n < o + c →
    PathAddressable disk fsInfo.toFsFields (inodeAt disk fsInfo i) n

/-- Two disks that differ in data blocks of the range at most. -/
def SameOutside (disk : Bytes) (fsInfo : Ext2Fs σ) (i o c : Nat) (disk' : Bytes) : Prop :=
  ∀ x, (∀ n, o ≤ n → n < o + c → x < fsInfo.blockStart
          (layoutPtr disk fsInfo.toFsFields (inodeAt disk fsInfo i) n) ∨
        fsInfo.blockStart (layoutPtr disk fsInfo.toFsFields (inodeAt disk fsInfo i) n) +
          fsInfo.blockSize ≤ x) →
    disk' x = disk x

theorem inodePointers_congr {inodeRef inodeRef' : Bytes}
    (same : ∀ x < 128, inodeRef' x = inodeRef x) :
    inodePointers inodeRef' = inodePointers inodeRef := by
  have word (a : Nat) (le : a + 4 ≤ 128) : load32 inodeRef' a = load32 inodeRef a :=
    load32_congr fun x _ high => same x (by omega)
  unfold inodePointers
  congr 1
  · funext i
    have bound : (i : Nat) < 12 := i.isLt
    rw [word _ (by unfold directBlockPointerField sizeofUint32; omega)]
  · rw [word _ (by decide)]
  · rw [word _ (by decide)]

/-- Block `n` of a file is among those that the driver finds a pointer for. -/
abbrev FsFields.Reaches (fsInfo : FsFields σ) (n : Nat) : Prop :=
  n < fsInfo.reach ∨ n < ext2DirectBpAmount + fsInfo.pointers

variable {x : Nat}

theorem FsFields.outside_block (fsInfo : FsFields σ) {block other : Nat}
    (ne : other ≠ block) (lt : x < fsInfo.blockSize) :
    fsInfo.blockStart block + x < fsInfo.blockStart other ∨
      fsInfo.blockStart other + fsInfo.blockSize ≤ fsInfo.blockStart block + x := by
  have apart := lt_or_le_of_block_ne ne lt
  unfold FsFields.blockStart
  omega

variable {fsInfo : Ext2Fs σ} {bytes : σ → Bytes} {disk disk' : Bytes} {i o c : Nat}

theorem SameOutside.block (same : SameOutside disk fsInfo i o c disk') {block : Nat}
    (other : ∀ n, o ≤ n → n < o + c →
      layoutPtr disk fsInfo.toFsFields (inodeAt disk fsInfo i) n ≠ block)
    (lt : x < fsInfo.blockSize) :
    disk' (fsInfo.blockStart block + x) = disk (fsInfo.blockStart block + x) :=
  same _ fun n low high => fsInfo.outside_block (other n low high) lt

variable {k n : Nat} {st : σ}

namespace Ext2Image

variable (image : Ext2Image fsInfo bytes)

include image

theorem mounted (st : σ) : Mounted fsInfo.toFsFields (bytes st) st where
  delivers := image.transfers.read st
  sector := by
    rw [image.sector]
    decide
  start := by
    rw [image.sector]
    exact image.start
  block := by
    rw [image.sector]
    exact image.sector_dvd_blockSize
  whole := dvd_trans (by decide) image.sector_dvd_blockSize
  pos := image.blockSize_pos
  small := image.blockSize_lt

theorem recordStart_eq (i : Nat) :
    ∃ k, recordStart fsInfo i = fsInfo.blockStart (recordBlock fsInfo i) + k ∧
      k + ext2GetInodeSize fsInfo ≤ fsInfo.blockSize := by
  have sizePos := image.inodeSize_pos
  obtain ⟨q, whole⟩ := image.inodeSize_dvd_blockSize
  have qPos : 0 < q := by
    apply Nat.pos_of_ne_zero
    intro zero
    rw [zero, mul_zero] at whole
    exact ne_of_gt image.blockSize_pos whole
  refine ⟨ext2GetInodeSize fsInfo * (inodeIndex fsInfo i % q), ?_, ?_⟩
  · have quotient : inodeIndex fsInfo i * ext2GetInodeSize fsInfo / fsInfo.blockSize =
        inodeIndex fsInfo i / q := by
      rw [whole, mul_comm]
      exact Nat.mul_div_mul_left _ q sizePos
    unfold recordStart tableStart FsFields.blockStart recordBlock
    rw [quotient, add_mul, whole, add_assoc, add_assoc]
    congr 2
    calc inodeIndex fsInfo i * ext2GetInodeSize fsInfo
        = (q * (inodeIndex fsInfo i / q) + inodeIndex fsInfo i % q) * ext2GetInodeSize fsInfo := by
          rw [Nat.div_add_mod]
      _ = _ := by ring
  · have last := Nat.mul_le_mul_left (ext2GetInodeSize fsInfo)
      (Nat.succ_le_of_lt (Nat.mod_lt (inodeIndex fsInfo i) qPos))
    rw [Nat.mul_succ, ← whole] at last
    exact last

theorem same_inode (range : MappedRange disk fsInfo i o c)
    (same : SameOutside disk fsInfo i o c disk') (valid : ValidInode fsInfo i) :
    inodeAt disk' fsInfo i = inodeAt disk fsInfo i := by
  have large := image.inodeSize_ge
  obtain ⟨k, start, fits⟩ := image.recordStart_eq i
  apply inodePointers_congr
  intro x lt
  unfold suffix
  rw [start, add_assoc]
  exact same.block (fun n low high => range.notRecords n low high i valid) (by omega)

theorem same_entry (same : SameOutside disk fsInfo i o c disk') {block : Nat}
    (other : ∀ n, o ≤ n → n < o + c →
      layoutPtr disk fsInfo.toFsFields (inodeAt disk fsInfo i) n ≠ block)
    (lt : k < fsInfo.pointers) :
    layoutEntry disk' fsInfo.toFsFields block k =
      layoutEntry disk fsInfo.toFsFields block k := by
  have whole : fsInfo.pointers * sizeofUint32 = fsInfo.blockSize :=
    Nat.div_mul_cancel (dvd_trans (by decide) image.sector_dvd_blockSize)
  unfold sizeofUint32 at whole
  apply load32_congr
  intro x low high
  unfold sizeofUint32 at low high
  have place : x = fsInfo.blockStart block + (x - fsInfo.blockStart block) := by
    unfold FsFields.blockStart
    omega
  rw [place]
  apply same.block other
  unfold FsFields.blockStart
  omega

theorem same_pointer (range : MappedRange disk fsInfo i o c)
    (same : SameOutside disk fsInfo i o c disk') (low : o ≤ n) (high : n < o + c)
    (reached : fsInfo.Reaches n) :
    layoutPtr disk' fsInfo.toFsFields (inodeAt disk fsInfo i) n =
        layoutPtr disk fsInfo.toFsFields (inodeAt disk fsInfo i) n ∧
      PathAddressable disk' fsInfo.toFsFields (inodeAt disk fsInfo i) n := by
  have path := range.path n low high
  have pos : 0 < fsInfo.pointers := Nat.div_pos (Nat.le_of_dvd image.blockSize_pos
      (dvd_trans (by decide) image.sector_dvd_blockSize)) (by decide)
  have notPointer (block : Nat) (pointer : PointerBlock disk fsInfo.toFsFields
      (inodeAt disk fsInfo i) block) (m : Nat) (lowM : o ≤ m) (highM : m < o + c) :
      layoutPtr disk fsInfo.toFsFields (inodeAt disk fsInfo i) m ≠ block := by
    intro equal
    apply range.notPointers m lowM highM
    rwa [equal]
  by_cases direct : n < ext2DirectBpAmount
  · refine ⟨?_, path.single, ?_⟩
    · unfold layoutPtr
      rw [dif_pos direct, dif_pos direct]
    · intro tooHigh
      omega
  by_cases first : n < ext2DirectBpAmount + fsInfo.pointers
  · refine ⟨?_, path.single, ?_⟩
    · unfold layoutPtr
      rw [dif_neg direct, dif_neg direct, if_pos first, if_pos first]
      exact image.same_entry same (notPointer _ (.inl rfl)) (by omega)
    · intro tooHigh
      omega
  have square := Mounted.reach_le fsInfo.toFsFields
  have row : (n - ext2DirectBpAmount - fsInfo.pointers) / fsInfo.pointers <
      fsInfo.pointers := Nat.div_lt_of_lt_mul (by omega)
  have column := Nat.mod_lt (n - ext2DirectBpAmount - fsInfo.pointers) pos
  have double := path.double (not_lt.mp first)
  have entry := image.same_entry same (notPointer _ (.inr (.inl rfl))) row
  refine ⟨?_, path.single, ?_⟩
  · unfold layoutPtr
    simp only [dif_neg direct, if_neg first]
    rw [entry, image.same_entry same (notPointer _ (.inr (.inr ⟨double.1, _, row, rfl⟩))) column]
  · intro _
    rw [entry]
    exact double

theorem dataOffset_in_range (range : MappedRange disk fsInfo i o c)
    (same : SameOutside disk fsInfo i o c (bytes st)) (low : o ≤ n) (high : n < o + c)
    (memory : Nat → Bytes) (fresh : Nat → Bytes) :
    ext2GetInodeDataOffset (inodeAt disk fsInfo i) n fsInfo.toFsFields
        (fun j => some (memory j)) fresh st =
      if fsInfo.Reaches n then
        fsInfo.blockSize * layoutPtr disk fsInfo.toFsFields (inodeAt disk fsInfo i) n
      else 0 := by
  by_cases reached : fsInfo.Reaches n
  · obtain ⟨pointer, path⟩ := image.same_pointer range same low high reached
    have value := (image.mounted st).dataOffset_eq (fun _ => path)
      (by rw [pointer]; exact range.addressable n low high) memory fresh
    rw [value, if_pos reached, if_pos reached, pointer, if_neg (range.mapped n low high)]
  rw [if_neg reached]
  apply (image.mounted st).dataOffset_beyond
  · omega
  · omega

theorem blockStart_eq {block : Nat} (addressable : fsInfo.Addressable block) :
    add32 (fsInfo.blockSize * block) fsInfo.partstart = fsInfo.blockStart block ∧
      fsInfo.blockStart block < 2 ^ 32 ∧
      fsInfo.blockStart block % fsInfo.diskInfo.blockSize = 0 := by
  have pos := image.blockSize_pos
  have lt := addressable.stop_le
  have value : add32 (fsInfo.blockSize * block) fsInfo.partstart = fsInfo.blockStart block := by
    rw [mul_comm, add32_of_lt (by omega), add_comm]
    rfl
  refine ⟨value, ?_, ?_⟩
  · rw [← value]
    exact add32_lt ..
  rw [image.sector]
  exact Nat.mod_eq_zero_of_dvd
    (Nat.dvd_add image.start (Nat.dvd_mul_left_of_dvd image.sector_dvd_blockSize block))

end Ext2Image

theorem dataOffset_eq_zero_or (inode : Ext2Inode) (n : Nat) (fsInfo : FsFields σ)
    (kmalloc : Nat → Option Bytes) (fresh : Nat → Bytes) (st : σ) :
    ext2GetInodeDataOffset inode n fsInfo kmalloc fresh st = 0 ∨
      ext2GetInodeDataOffset inode n fsInfo kmalloc fresh st =
        ext2GetInodeDataOffset inode n fsInfo (fun j => some ((kmalloc j).getD fun _ => 0)) fresh
          st := by
  unfold ext2GetInodeDataOffset
  split_ifs
  · exact .inr rfl
  · cases first : kmalloc 0 with
    | none => exact .inl rfl
    | some block =>
      right
      simp only [first, Option.getD_some]
  · cases first : kmalloc 0 with
    | none => exact .inl rfl
    | some block =>
      cases second : kmalloc 1 with
      | none =>
        left
        simp only [doubleIndirect, handleIndirectBp]
        split_ifs <;> rfl
      | some block' =>
        right
        simp only [first, second, Option.getD_some]
  · exact .inl rfl

namespace Ext2Image

theorem writeInodeBlock_in_range (image : Ext2Image fsInfo bytes)
    (range : MappedRange disk fsInfo i o c) (same : SameOutside disk fsInfo i o c (bytes st))
    (low : o ≤ n) (high : n < o + c) (buf : Bytes) (k : Nat) (memory : BlockMemory) :
    let ret := ext2WriteInodeBlock (inodeAt disk fsInfo i) n (suffix buf k)
      fsInfo.toFsFields memory st
    ret.ret = 0 ∨ fsInfo.Reaches n ∧ bytes ret.disk = blit (bytes st) (fsInfo.blockStart
          (layoutPtr disk fsInfo.toFsFields (inodeAt disk fsInfo i) n)) buf k
          fsInfo.blockSize := by
  have offset := dataOffset_eq_zero_or (inodeAt disk fsInfo i) n fsInfo.toFsFields
    memory.blocks memory.sectors st
  rw [image.dataOffset_in_range range same low high] at offset
  unfold ext2WriteInodeBlock
  by_cases none : ext2GetInodeDataOffset (inodeAt disk fsInfo i) n fsInfo.toFsFields
      memory.blocks memory.sectors st = 0
  · rw [if_pos none]
    exact .inl rfl
  rw [if_neg none]
  right
  have value := offset.resolve_left none
  split_ifs at value with lt
  · obtain ⟨start, startSmall, aligned⟩ := image.blockStart_eq (range.addressable n low high)
    have written := diskWrite_aligned image.transfers (by rw [image.sector]; decide) startSmall
      image.blockSize_lt aligned (fun j => memory.sectors (j + 4)) st (suffix buf k)
    refine ⟨lt, ?_⟩
    rw [value]
    unfold ext2DiskWrite
    rw [start, written]
    exact blit_suffix ..
  · exact absurd value none

theorem readInodeBlock_in_range (image : Ext2Image fsInfo bytes)
    (range : MappedRange disk fsInfo i o c) (same : SameOutside disk fsInfo i o c (bytes st))
    (low : o ≤ n) (high : n < o + c) (reached : fsInfo.Reaches n) (buf : Bytes) (k : Nat)
    {memory : BlockMemory} (blocks : Nat → Bytes)
    (succeeds : memory.blocks = fun j => some (blocks j)) :
    let ret := ext2ReadInodeBlock (inodeAt disk fsInfo i) n (suffix buf k)
      fsInfo.toFsFields memory st
    ret.ret ≠ 0 ∧ withSuffix buf k ret.buf = blit buf k (bytes st) (fsInfo.blockStart
        (layoutPtr disk fsInfo.toFsFields (inodeAt disk fsInfo i) n))
        fsInfo.blockSize := by
  have pos := image.blockSize_pos
  have lt := image.blockSize_lt
  have sectors := image.sector_dvd_blockSize
  have nonzero : fsInfo.blockSize *
      layoutPtr disk fsInfo.toFsFields (inodeAt disk fsInfo i) n ≠ 0 :=
    Nat.mul_ne_zero pos.ne' (range.mapped n low high)
  have value := image.dataOffset_in_range range same low high blocks memory.sectors
  rw [if_pos reached] at value
  obtain ⟨start, startSmall, aligned⟩ := image.blockStart_eq (range.addressable n low high)
  unfold ext2ReadInodeBlock
  simp only [succeeds, value, if_neg nonzero]
  unfold ext2DiskRead
  rw [start]
  constructor
  · rw [diskRead_ret_of_sectors (fun lba buf k n => image.counted lba buf k n st)
      (by rw [image.sector]; decide) lt pos.ne' aligned
      (by rw [image.sector]; exact sectors), image.sector]
    have count : fsInfo.blockSize / 512 < 2 ^ 32 := lt_of_le_of_lt (Nat.div_le_self ..) lt
    rw [ofSigned_toSigned count]
    exact ne_of_gt (Nat.div_pos (Nat.le_of_dvd pos sectors) (by decide))
  · rw [(diskRead_aligned (image.transfers.read st) (by rw [image.sector]; decide) startSmall lt
      aligned ..).1]
    exact withSuffix_blit ..

end Ext2Image

/-! ## The block loops -/

/-- The first `j` blocks of the range after they were written. -/
def writtenBlocks (disk : Bytes) (fsInfo : Ext2Fs σ) (i o : Nat) (buf : Bytes) (k j : Nat) :
    Bytes :=
  scatter disk (fun l => fsInfo.blockStart
    (layoutPtr disk fsInfo.toFsFields (inodeAt disk fsInfo i) (o + l))) buf k
    fsInfo.blockSize j

theorem writtenBlocks_same (disk : Bytes) (fsInfo : Ext2Fs σ) (i o : Nat) {c j : Nat}
    (buf : Bytes) (k : Nat) (le : j ≤ c) :
    SameOutside disk fsInfo i o c (writtenBlocks disk fsInfo i o buf k j) := by
  intro x away
  apply scatter_outside
  intro l lt
  exact away (o + l) (Nat.le_add_right ..) (by omega)

theorem writtenBlocks_piece (range : MappedRange disk fsInfo i o c) (buf : Bytes) (k : Nat)
    {l : Nat} (before : l < c) (lt : x < fsInfo.blockSize) :
    writtenBlocks disk fsInfo i o buf k c (fsInfo.blockStart
        (layoutPtr disk fsInfo.toFsFields (inodeAt disk fsInfo i) (o + l)) + x) =
      buf (k + l * fsInfo.blockSize + x) := by
  apply scatter_inside disk buf k before lt
  intro m bound ne
  apply fsInfo.outside_block _ lt
  apply range.distinct
  all_goals omega

theorem writeBlocks_ret_lt (inode : Ext2Inode) (fsInfo : FsFields σ)
    (memory : Nat → BlockMemory) (buf : Bytes) (rounds : Nat) :
    ∀ n k ret st, ret < 2 ^ 32 →
      (writeBlocks inode fsInfo memory buf rounds n k ret st).1 < 2 ^ 32 := by
  induction rounds with
  | zero => exact fun _ _ _ _ lt => lt
  | succ rounds ih =>
    intro n k ret st lt
    simp only [writeBlocks]
    split
    · exact lt
    · exact ih _ _ _ _ (add32_lt ..)

namespace Ext2Image

theorem writeBlocks_scatter (image : Ext2Image fsInfo bytes)
    (range : MappedRange disk fsInfo i o c) (cSmall : c < 2 ^ 32) (memory : Nat → BlockMemory)
    (buf : Bytes) (k rounds : Nat) :
    ∀ j st, j + rounds = c → bytes st = writtenBlocks disk fsInfo i o buf k j →
      (writeBlocks (inodeAt disk fsInfo i) fsInfo.toFsFields memory buf rounds (o + j)
        (k + j * fsInfo.blockSize) j st).1 = c →
      bytes (writeBlocks (inodeAt disk fsInfo i) fsInfo.toFsFields memory buf rounds (o + j)
          (k + j * fsInfo.blockSize) j st).2 = writtenBlocks disk fsInfo i o buf k c ∧
        ∀ n, o + j ≤ n → n < o + c → fsInfo.Reaches n := by
  induction rounds with
  | zero =>
    intro j st last stored _
    obtain rfl : j = c := last
    refine ⟨stored, ?_⟩
    intro n low high
    omega
  | succ rounds ih =>
    intro j st last stored complete
    have same : SameOutside disk fsInfo i o c (bytes st) := by
      rw [stored]
      exact writtenBlocks_same disk fsInfo i o buf k (by omega)
    have block := image.writeInodeBlock_in_range range same (Nat.le_add_right o j)
      (by omega) buf (k + j * fsInfo.blockSize) (memory (o + j))
    simp only [writeBlocks] at complete ⊢
    split_ifs at complete ⊢ with failed
    · omega
    obtain ⟨lt, written⟩ := block.resolve_left failed
    have count : add32 j 1 = j + 1 := add32_of_lt (by omega)
    have next : k + j * fsInfo.blockSize + fsInfo.blockSize =
        k + (j + 1) * fsInfo.blockSize := by rw [Nat.succ_mul, add_assoc]
    rw [count, next, add_assoc] at complete ⊢
    rw [stored] at written
    obtain ⟨rest, later⟩ := ih (j + 1) _ (by omega) written complete
    refine ⟨rest, ?_⟩
    intro n low high
    by_cases here : n = o + j
    · rw [here]
      exact lt
    · exact later n (by omega) high

theorem readBlocks_gather (image : Ext2Image fsInfo bytes) (range : MappedRange disk fsInfo i o c)
    (cSmall : c < 2 ^ 32) (same : SameOutside disk fsInfo i o c (bytes st))
    (lt : ∀ n, o ≤ n → n < o + c → fsInfo.Reaches n) {src : Bytes} {s : Nat}
    (holds : ∀ l < c, ∀ x < fsInfo.blockSize, bytes st (fsInfo.blockStart
      (layoutPtr disk fsInfo.toFsFields (inodeAt disk fsInfo i) (o + l)) + x) =
        src (s + l * fsInfo.blockSize + x)) {memory : Nat → BlockMemory}
    (blocks : Nat → Nat → Bytes) (succeeds : ∀ n, (memory n).blocks = fun j => some (blocks n j))
    (buf : Bytes) (k rounds : Nat) :
    ∀ j, j + rounds = c →
      readBlocks (inodeAt disk fsInfo i) fsInfo.toFsFields memory st rounds (o + j)
          (k + j * fsInfo.blockSize) (blit buf k src s (j * fsInfo.blockSize)) j =
        (c, blit buf k src s (c * fsInfo.blockSize)) := by
  induction rounds with
  | zero =>
    intro j last
    obtain rfl : j = c := last
    rfl
  | succ rounds ih =>
    intro j last
    obtain ⟨ne, filled⟩ := image.readInodeBlock_in_range range same (Nat.le_add_right o j)
      (by omega) (lt _ (Nat.le_add_right o j) (by omega))
      (blit buf k src s (j * fsInfo.blockSize)) (k + j * fsInfo.blockSize) (blocks (o + j))
      (succeeds (o + j))
    have count : add32 j 1 = j + 1 := add32_of_lt (by omega)
    have next : k + j * fsInfo.blockSize + fsInfo.blockSize =
        k + (j + 1) * fsInfo.blockSize := by rw [Nat.succ_mul, add_assoc]
    have piece : blit (blit buf k src s (j * fsInfo.blockSize)) (k + j * fsInfo.blockSize)
        (bytes st) (fsInfo.blockStart
          (layoutPtr disk fsInfo.toFsFields (inodeAt disk fsInfo i) (o + j)))
        fsInfo.blockSize = blit buf k src s ((j + 1) * fsInfo.blockSize) := by
      rw [Nat.succ_mul, ← blit_blit_append]
      exact blit_congr _ _ (holds j (by omega))
    simp only [readBlocks]
    rw [if_neg ne, filled, piece, count, next, add_assoc]
    exact ih (j + 1) (by omega)

end Ext2Image

/-! ## Whole files -/

/-- Every allocation of a transfer succeeds. -/
def FileMemory.Succeeds (memory : FileMemory) : Prop :=
  memory.inodeRef.isSome ∧ ∀ n j, ((memory.blocks n).blocks j).isSome

namespace Ext2Image

theorem inodeRef_pointers (image : Ext2Image fsInfo bytes) (valid : ValidInode fsInfo i)
    (addressable : RecordAddressable fsInfo i) (block : Bytes) (fresh : Nat → Bytes) (st : σ) :
    inodePointers (ext2GetInodeRef i fsInfo block fresh st) = inodeAt (bytes st) fsInfo i := by
  have large := image.inodeSize_ge
  rw [image.read_record valid addressable]
  apply inodePointers_congr
  intro x lt
  rw [blit_apply_of_mem _ _ _ _ _ (Nat.zero_le x) (by omega), Nat.sub_zero]
  rfl

theorem rounds_eq {o c : Nat} (fits : o + c < 2 ^ 32) : add32 c o - o = c := by
  rw [add32_of_lt (by omega)]
  omega

theorem writeFile_complete (image : Ext2Image fsInfo bytes) (valid : ValidInode fsInfo i)
    (addressable : RecordAddressable fsInfo i) (oSmall : o < 2 ^ 32) (cSmall : c < 2 ^ 32)
    (range : MappedRange (bytes st) fsInfo i o c) {buf : Bytes} {memory : FileMemory}
    (complete : (ext2WriteFile i o buf k c fsInfo memory st).1 = c) :
    o + c < 2 ^ 32 ∧ c < 2 ^ 31 ∧ bytes (ext2WriteFile i o buf k c fsInfo memory st).2 =
        writtenBlocks (bytes st) fsInfo i o buf k c ∧
      ∀ n, o ≤ n → n < o + c → fsInfo.Reaches n := by
  unfold ext2WriteFile at complete ⊢
  cases allocated : memory.inodeRef with
  | none =>
    rw [allocated] at complete
    simp only at complete
    omega
  | some block =>
    rw [allocated] at complete
    simp only [image.inodeRef_pointers valid addressable] at complete ⊢
    have retSmall := writeBlocks_ret_lt (inodeAt (bytes st) fsInfo i) fsInfo.toFsFields
      memory.blocks buf (add32 c o - o) o k 0 st (by decide)
    have ret : (writeBlocks (inodeAt (bytes st) fsInfo i) fsInfo.toFsFields memory.blocks
        buf (add32 c o - o) o k 0 st).1 = c := by
      have cases := complete
      unfold toSigned at cases
      split at cases <;> omega
    have fits : o + c < 2 ^ 32 := by
      by_contra wraps
      have noRounds : add32 c o - o = 0 := by
        unfold add32
        omega
      rw [noRounds] at ret
      have zero : 0 = c := ret
      omega
    rw [rounds_eq fits] at ret ⊢
    have start : k + 0 * fsInfo.blockSize = k := by rw [zero_mul, add_zero]
    have loop := image.writeBlocks_scatter range cSmall memory.blocks buf k c 0 st (zero_add c) rfl
    rw [start, add_zero] at loop
    have signed := toSigned_lt retSmall
    exact ⟨fits, by omega, loop ret⟩

end Ext2Image

/-- What was written is read back, and no byte outside the data blocks of the
range has changed. -/
theorem writeFile_readFile (image : Ext2Image fsInfo bytes) (valid : ValidInode fsInfo i)
    (addressable : RecordAddressable fsInfo i) (oSmall : o < 2 ^ 32) (cSmall : c < 2 ^ 32) (st : σ)
    (range : MappedRange (bytes st) fsInfo i o c) (buf : Bytes) (k : Nat) (memory : FileMemory)
    (complete : (ext2WriteFile i o buf k c fsInfo memory st).1 = c) (buf2 : Bytes) (k2 : Nat)
    (memory2 : FileMemory) (succeeds : memory2.Succeeds) :
    let st' := (ext2WriteFile i o buf k c fsInfo memory st).2
    let result := ext2ReadFile i o buf2 k2 c fsInfo memory2 st'
    result.1 = c ∧ (∀ x < c * fsInfo.blockSize, result.2 (k2 + x) = buf (k + x)) ∧
      SameOutside (bytes st) fsInfo i o c (bytes st') := by
  obtain ⟨fits, cSigned, stored, reached⟩ :=
    image.writeFile_complete valid addressable oSmall cSmall range complete
  intro st' result
  have same : SameOutside (bytes st) fsInfo i o c (bytes st') := by
    rw [stored]
    exact writtenBlocks_same (bytes st) fsInfo i o buf k le_rfl
  have holds (l : Nat) (before : l < c) (x : Nat) (lt : x < fsInfo.blockSize) :
      bytes st' (fsInfo.blockStart (layoutPtr (bytes st) fsInfo.toFsFields
        (inodeAt (bytes st) fsInfo i) (o + l)) + x) = buf (k + l * fsInfo.blockSize + x) := by
    rw [stored]
    exact writtenBlocks_piece range buf k before lt
  obtain ⟨block, allocated⟩ := Option.isSome_iff_exists.mp succeeds.1
  have blocks (n : Nat) : (memory2.blocks n).blocks =
      fun j => some (((memory2.blocks n).blocks j).get (succeeds.2 n j)) := by
    funext j
    exact (Option.some_get _).symm
  have loop := image.readBlocks_gather range cSmall same reached holds _ blocks buf2 k2 c 0
    (zero_add c)
  have start : k2 + 0 * fsInfo.blockSize = k2 := by rw [zero_mul, add_zero]
  rw [start, add_zero, zero_mul, blit_zero] at loop
  have read : result = (toSigned c, blit buf2 k2 buf k (c * fsInfo.blockSize)) := by
    unfold result ext2ReadFile
    rw [allocated]
    simp only [image.inodeRef_pointers valid addressable, image.same_inode range same valid,
      Ext2Image.rounds_eq fits, loop]
  refine ⟨?_, ?_, same⟩
  · rw [read]
    exact toSigned_of_lt cSigned
  intro x lt
  rw [read]
  simp only
  rw [blit_apply_of_mem _ _ _ _ _ (Nat.le_add_right ..) (by omega), Nat.add_sub_cancel_left]

/-- Inode 12 of the small partition has the blocks 20 and 21. -/
def twoBlocks : Bytes := fun x => if x = 1055144 then 20 else if x = 1055148 then 21 else 0

def plentyOfMemory : FileMemory where
  inodeRef := some fun _ => 0
  sectors := fun _ _ => 0
  blocks := fun _ => ⟨fun _ => some fun _ => 0, fun _ _ => 0⟩

theorem plentyOfMemory_succeeds : plentyOfMemory.Succeeds := ⟨rfl, fun _ _ => rfl⟩

theorem twoBlocks_pointer (lt : n < 2) :
    layoutPtr twoBlocks farExt2.toFsFields
      (inodeAt twoBlocks farExt2 12) n = 20 + n := by
  match n, lt with
  | 0, _ => decide
  | 1, _ => decide

theorem twoBlocks_range : MappedRange twoBlocks farExt2 12 0 2 := by
  constructor
  · intro n _ high
    rw [twoBlocks_pointer high]
    omega
  · intro n m _ highN _ highM other
    rw [twoBlocks_pointer highN, twoBlocks_pointer highM]
    omega
  · intro n _ high pointer
    rw [twoBlocks_pointer high] at pointer
    rcases pointer with zero | zero | ⟨ne, -⟩
    · exact absurd zero (by change 20 + n ≠ 0; omega)
    · exact absurd zero (by change 20 + n ≠ 0; omega)
    · exact ne rfl
  · intro n _ high j _
    rw [twoBlocks_pointer high]
    change 20 + n ≠ 5 + (j - 1) % 32 * 128 / 1024
    omega
  · intro n _ high
    rw [twoBlocks_pointer high]
    change 1048576 + (20 + n + 1) * 1024 ≤ 2 ^ 32
    omega
  · intro n _ high
    constructor
    · intro low
      change 12 ≤ n at low
      omega
    · intro low
      change 12 + 256 ≤ n at low
      omega

theorem writeFile_readFile_twoBlocks :
    (ext2WriteFile 12 0 (fun _ => 7) 0 2 farExt2 plentyOfMemory twoBlocks).1 = 2 ∧
    ∀ x < 2 * 1024, (ext2ReadFile 12 0 (fun _ => 0) 0 2 farExt2 plentyOfMemory
      (ext2WriteFile 12 0 (fun _ => 7) 0 2 farExt2 plentyOfMemory twoBlocks).2).2
        (0 + x) = 7 :=
  ⟨by decide +kernel, (writeFile_readFile (smallExt2_image (by decide)) ⟨by decide, by decide⟩
      (smallExt2_addressable le_rfl 12) (by decide) (by decide) twoBlocks twoBlocks_range
      (fun _ => 7) 0 plentyOfMemory (by decide +kernel) (fun _ => 0) 0 plentyOfMemory
      plentyOfMemory_succeeds).2.1⟩

end

variable {σ : Type*}

/-! ## Reading to the end -/

/-- Number of blocks of a file. -/
def blocksOf (blocksize length : Nat) : Nat := (length + blocksize - 1) / blocksize

variable {blocksize amount : Nat}

theorem blocksOf_bounds (pos : 0 < blocksize) (len : Nat) :
    len ≤ blocksOf blocksize len * blocksize ∧
      blocksOf blocksize len * blocksize < len + blocksize := by
  have whole := Nat.div_add_mod' (len + blocksize - 1) blocksize
  have restLt := Nat.mod_lt (len + blocksize - 1) pos
  unfold blocksOf
  omega

theorem blocksOf_full_iff (pos : 0 < blocksize) (len : Nat) :
    blocksOf blocksize len * blocksize = len ↔ blocksize ∣ len := by
  constructor
  · intro full
    exact ⟨blocksOf blocksize len, by rw [mul_comm]; exact full.symm⟩
  · rintro ⟨count, rfl⟩
    obtain ⟨low, high⟩ := blocksOf_bounds pos (blocksize * count)
    generalize blocksOf blocksize (blocksize * count) = blocks at low high ⊢
    have lower : count ≤ blocks := by
      apply Nat.le_of_mul_le_mul_right _ pos
      rwa [mul_comm count]
    have upper : blocks < count + 1 := by
      apply Nat.lt_of_mul_lt_mul_right (a := blocksize)
      rwa [add_mul, one_mul, mul_comm count]
    rw [mul_comm blocksize, show blocks = count by omega]

theorem askedBytes_pos (pos : 0 < blocksize) (asked : 0 < amount)
    (noWrap : amount + blocksize < 2 ^ 32) (seek : Nat) : 0 < askedBytes blocksize seek amount := by
  have startLt := Nat.mod_lt seek pos
  unfold askedBytes
  by_cases aligned : seek % blocksize = 0
  · rcases lt_or_ge amount blocksize with less | more
    · have rest : endRest blocksize seek amount = amount := by
        simp only [endRest, aligned, ne_eq, not_true_eq_false, false_and, if_false, Nat.sub_zero]
        rw [add32_of_lt noWrap, Nat.add_mod_right, Nat.mod_eq_of_lt less]
      omega
    · have blocks := mul_pos (Nat.div_pos more pos) pos
      omega
  · have head : 0 < headSize blocksize (seek % blocksize) amount := by
      unfold headSize
      split <;> omega
    rw [if_neg aligned]
    omega

/-- A reader that asks for `amount` bytes until none are returned, and puts what it gets into
`out`, behind the `pos` bytes it has. -/
def readAll (fs : Filesystem σ) (amount : Nat) (fresh : Nat → Nat → Bytes) (st : σ) :
    (fuel : Nat) → (fd : FileDescriptor) → (buf out : Bytes) →
    (pos : Nat) → Option (Nat × Bytes)
  | 0, _, _, _, _ => none
  | fuel + 1, fd, buf, out, pos =>
    let (ret, buf, fd) := vfsRead fd fs buf amount (fresh fuel) st
    if ret = 0 then some (pos, out)
    else readAll fs amount fresh st fuel fd buf (blit out pos buf 0 ret.toNat) (pos + ret.toNat)

section

variable {node : VfsNode} {fs : Filesystem σ} {content : Bytes} {total : Nat} {st : σ}

theorem readAll_blocks (delivers : DeliversBlocks fs node.offset content total st)
    (positive : 0 < fs.blockSize) (fits : total * fs.blockSize < 2 ^ 31) (asked : 0 < amount)
    (noWrap : amount + fs.blockSize < 2 ^ 32) (fresh : Nat → Nat → Bytes) (flags : Int)
    (out : Bytes) (fuel : Nat) :
    ∀ (pos : Nat) (buf : Bytes), pos ≤ total * fs.blockSize → total * fs.blockSize - pos < fuel →
      readAll fs amount fresh st fuel ⟨node, pos, flags⟩ buf (blit out 0 content 0 pos) pos =
        some (total * fs.blockSize, blit out 0 content 0 (total * fs.blockSize)) := by
  induction fuel with
  | zero => exact fun _ _ _ le => absurd le (Nat.not_lt_zero _)
  | succ fuel ih =>
    intro pos buf lt le
    obtain ⟨data, read, copied⟩ := fsRead_copies delivers positive (by omega)
      (show pos < 2 ^ 31 by omega) (show amount < 2 ^ 32 by omega) buf flags (fresh fuel)
    have some := askedBytes_pos positive asked noWrap pos
    generalize askedBytes fs.blockSize pos amount = n at read copied some
    -- `k` bytes are read, none of them only at the end
    obtain ⟨k, size⟩ : ∃ k, min n (total * fs.blockSize - pos) = k := ⟨_, rfl⟩
    rw [size] at read copied
    rw [Nat.mod_eq_of_lt (by omega), toSigned_of_lt (by omega)] at read
    have moved : toSigned (add32 (ofSigned (pos : Int)) (ofSigned (k : Int))) =
      ((pos + k : Nat) : Int) := by
      rw [ofSigned_natCast (by omega), ofSigned_natCast (by omega), add32_of_lt (by omega),
        toSigned_of_lt (by omega)]
    simp only [readAll, vfsRead, read, moved, Int.toNat_natCast]
    by_cases done : k = 0
    · have finished : pos = total * fs.blockSize := by omega
      rw [if_pos (by exact_mod_cast done), finished]
    have joined := blit_append_front out content 0 pos k
    rw [zero_add] at joined
    have passed := blit_through (blit out 0 content 0 pos) pos buf 0 content
      (show 0 + k ≤ k by omega) pos
    rw [zero_add, add_zero] at passed
    rw [if_neg (by exact_mod_cast done), copied (by omega), passed, joined]
    exact ih (pos + k) _ (by omega) (by omega)

/-- A call returns no more bytes than the file has behind the position exactly if the file fills its
last block, the position lies behind that block, the request ends inside the file, or the number of
bytes does not fit the result. A reader gets the blocks of the file, so just its bytes exactly if
they fill the last block. -/
theorem fsRead_stops_iff (pos : 0 < fs.blockSize) (small : fs.blockSize < 2 ^ 32)
    (lengthSmall : node.filelength < 2 ^ 32)
    (delivers : DeliversBlocks fs node.offset content (blocksOf fs.blockSize node.filelength) st) :
    (∀ seek amount, seek < 2 ^ 31 → amount < 2 ^ 32 → ∀ buf flags fresh,
      ((fsRead node fs (seek : Nat) buf amount flags fresh st).1 ≤
        max 0 ((node.filelength : Int) - seek) ↔
        fs.blockSize ∣ node.filelength ∨
          blocksOf fs.blockSize node.filelength * fs.blockSize ≤ seek ∨
          askedBytes fs.blockSize seek amount ≤ node.filelength - seek ∨
          2 ^ 31 ≤ min (askedBytes fs.blockSize seek amount)
            (blocksOf fs.blockSize node.filelength * fs.blockSize - seek))) ∧
    (blocksOf fs.blockSize node.filelength * fs.blockSize < 2 ^ 31 →
      ∀ amount, 0 < amount → amount + fs.blockSize < 2 ^ 32 → ∀ fresh flags buf out,
        ∃ fuel length received,
          readAll fs amount fresh st fuel ⟨node, 0, flags⟩ buf out 0 = some (length, received) ∧
          (length = node.filelength ∧ received = blit out 0 content 0 node.filelength ↔
            fs.blockSize ∣ node.filelength)) := by
  have full := blocksOf_full_iff pos node.filelength
  obtain ⟨low, high⟩ := blocksOf_bounds pos node.filelength
  constructor
  · intro seek amount seekSmall amountSmall buf flags fresh
    obtain ⟨data, read, -⟩ := fsRead_copies delivers pos small seekSmall amountSmall buf
      flags fresh
    rw [read, ← full]
    generalize blocksOf fs.blockSize node.filelength * fs.blockSize = last at low high
    generalize askedBytes fs.blockSize seek amount = n
    obtain ⟨k, size⟩ : ∃ k, min n (last - seek) = k := ⟨_, rfl⟩
    rw [size]
    rcases lt_or_ge k (2 ^ 31) with fits | large
    · rw [Nat.mod_eq_of_lt (by omega), toSigned_of_lt fits]
      omega
    -- the result is negative, or has lost 2 ^ 32
    have ret : toSigned (k % 2 ^ 32) ≤ max 0 ((node.filelength : Int) - seek) := by
      rcases lt_or_ge (k % 2 ^ 32) (2 ^ 31) with wrapped | negative
      · rw [toSigned_of_lt wrapped]
        omega
      · have lt := (toSigned_neg_iff (Nat.mod_lt k (by decide))).mpr negative
        omega
    exact iff_of_true ret (.inr (.inr (.inr large)))
  · intro fits amount asked noWrap fresh flags buf out
    have read := readAll_blocks delivers pos fits asked noWrap fresh flags out
      (blocksOf fs.blockSize node.filelength * fs.blockSize + 1) 0 buf (Nat.zero_le _) (by omega)
    refine ⟨_, _, _, read, ?_⟩
    rw [← full]
    constructor
    · exact And.left
    · intro same
      exact ⟨same, by rw [same]⟩

end

theorem fsRead_stops_full :
    (fsRead ⟨7, 2048⟩ (oneFileSystem 1024 2) (1024 : Nat) (fun _ => 0) 4000 0 (fun _ _ => 0)
        (fun _ => 1)).1 ≤ max 0 ((2048 : Int) - (1024 : Nat)) ∧
      ∃ fuel received, readAll (oneFileSystem 1024 2) 700 (fun _ _ _ => 0) (fun _ => 1) fuel
          ⟨⟨7, 2048⟩, 0, 0⟩ (fun _ => 0) (fun _ => 0) 0 = some (2048, received) ∧
        received = blit (fun _ => 0) 0 (fun _ => 1) 0 2048 := by
  obtain ⟨calls, reader⟩ :=
    @fsRead_stops_iff _ ⟨7, 2048⟩ (oneFileSystem 1024 2) (fun _ => 1) (fun _ => 1) (by decide)
      (by decide) (by decide) (oneFileSystem_delivers 1024 2 7 _)
  have divides : (1024 : Nat) ∣ 2048 := by decide
  refine ⟨(calls 1024 4000 (by decide) (by decide) ..).mpr (.inl divides), ?_⟩
  obtain ⟨fuel, len, received, read, exactly⟩ := reader (by decide) 700 (by decide) (by decide)
    (fun _ _ _ => 0) 0 (fun _ => 0) (fun _ => 0)
  obtain ⟨rfl, copied⟩ := exactly.mpr divides
  exact ⟨fuel, received, read, copied⟩

/-- A file of 1500 bytes in blocks of 1024: a read returns 2048, and so does a reader. -/
theorem fsRead_past_end :
    DeliversBlocks (oneFileSystem 1024 2) 7 (fun _ => 1) (blocksOf 1024 1500) (fun _ => 1) ∧
      (fsRead ⟨7, 1500⟩ (oneFileSystem 1024 2) 0 (fun _ => 0) 2048 0 (fun _ _ => 0)
        (fun _ => 1)).1 =
        2048 ∧
      (readAll (oneFileSystem 1024 2) 700 (fun _ _ _ => 0) (fun _ => 1) 6 ⟨⟨7, 1500⟩, 0, 0⟩
        (fun _ => 0)
        (fun _ => 0) 0).map Prod.fst = some 2048 :=
  ⟨oneFileSystem_delivers 1024 2 7 _, by decide +kernel, by decide +kernel⟩

/-! ## Sequences of writes -/

/-- A call of `fs_write`. -/
structure Write where
  seek : Nat
  buf : Bytes
  amount : Nat
  flags : Int
  fresh : Nat → Bytes

/-- Where the call ends in the file. -/
def Write.stop (w : Write) : Nat := w.seek + w.amount

def Write.run (fs : Filesystem σ) (w : Write) (s : VfsNode × σ) : Int × VfsNode × σ :=
  fsWrite s.1 fs w.seek w.buf w.amount w.flags w.fresh s.2

/-- The call transfers all its bytes: it counts them and gets to its end. -/
structure Write.Full (fs : Filesystem σ) (w : Write) (s : VfsNode × σ) : Prop where
  seekSmall : w.seek < 2 ^ 31
  counted : (w.run fs s).1 = w.amount
  ends : ∃ ret st, ret < 2 ^ 32 ∧ w.run fs s = fsWriteEnd s.1 fs w.seek ret st

/-- All calls of the sequence do. -/
def AllFull (fs : Filesystem σ) : List Write → VfsNode × σ → Prop
  | [], _ => True
  | w :: ws, s => w.Full fs s ∧ AllFull fs ws (w.run fs s).2

/-- Each call leaves the larger of the old length and its own end, in the node and in the record on
the disk. -/
def KeepsLength (fsInfo : Ext2Fs σ) (bytes : σ → Bytes) (fs : Filesystem σ) :
    List Write → VfsNode × σ → Prop
  | [], _ => True
  | w :: ws, s =>
    (w.run fs s).2.1.filelength = max s.1.filelength w.stop ∧
      load32 (bytes (w.run fs s).2.2) (recordStart fsInfo s.1.offset + inodeSizeField) =
        max s.1.filelength w.stop ∧
      KeepsLength fsInfo bytes fs ws (w.run fs s).2

/-- No call ends before the file did. -/
def Grows : List Write → (length : Nat) → Prop
  | [], _ => True
  | w :: ws, length => length ≤ w.stop ∧ Grows ws w.stop

section

variable {fsInfo : Ext2Fs σ} {bytes : σ → Bytes} {fs : Filesystem σ} {w : Write} {s : VfsNode × σ}

theorem Write.Full.after (full : w.Full fs s) :
    ∃ st, (w.run fs s).2 = ({ s.1 with filelength := w.stop },
      (fs.updateNode { s.1 with filelength := w.stop } st).2) := by
  obtain ⟨seekSmall, counted, ret, st, retSmall, ended⟩ := full
  rw [ended] at counted ⊢
  have returned : toSigned ret = (w.amount : Int) := counted
  have small : w.amount < 2 ^ 31 := by
    have lt := toSigned_lt retSmall
    omega
  have same : ret = w.amount :=
    toSigned_injective retSmall (by omega) (returned.trans (toSigned_of_lt small).symm)
  have len : add32 ret (ofSigned (w.seek : Int)) = w.stop := by
    rw [ofSigned_natCast (by omega), add32_of_lt (by omega), same, add_comm]
    rfl
  refine ⟨st, ?_⟩
  unfold fsWriteEnd
  simp only [len]

theorem Write.Full.stop_lt (full : w.Full fs s) : w.stop < 2 ^ 32 := by
  obtain ⟨seekSmall, counted, ret, st, retSmall, ended⟩ := full
  rw [ended] at counted
  have returned : toSigned ret = (w.amount : Int) := counted
  have lt := toSigned_lt retSmall
  unfold Write.stop
  omega

theorem fsWrite_ends {node : VfsNode} {seek : Int} (small : amount < 2 ^ 32)
    (stored : sub32 amount (endRest fs.blockSize (ofSigned seek) amount) / fs.blockSize = 0 ∨
      ∀ blk buf k n st, (fs.blockWrite node.offset blk buf k n st).1 = toSigned n) (buf : Bytes)
    (flags : Int) (fresh : Nat → Bytes) (st : σ) :
    ∃ ret st', ret < 2 ^ 32 ∧
      fsWrite node fs seek buf amount flags fresh st = fsWriteEnd node fs seek ret st' := by
  have tail (tmp : Bytes) (eRest blk k ret : Nat) (st : σ) (lt : ret < 2 ^ 32) :
      ∃ ret' st', ret' < 2 ^ 32 ∧
        fsWriteTail node fs tmp seek eRest buf blk k ret st = fsWriteEnd node fs seek ret' st' := by
    unfold fsWriteTail
    split
    · exact ⟨_, _, add32_lt .., rfl⟩
    · exact ⟨ret, st, lt, rfl⟩
  have body (tmp : Bytes) (eRest blk k ret : Nat) (st : σ) (lt : ret < 2 ^ 32) :
      ∃ ret' st', ret' < 2 ^ 32 ∧ fsWriteBody node fs tmp seek
          (toSigned (sub32 amount (endRest fs.blockSize (ofSigned seek) amount) / fs.blockSize))
            eRest buf
          blk k ret st = fsWriteEnd node fs seek ret' st' := by
    unfold fsWriteBody
    rcases stored with none | all
    · rw [none]
      exact tail _ _ _ _ _ _ lt
    split
    · have counted : sub32 amount (endRest fs.blockSize (ofSigned seek) amount) / fs.blockSize <
        2 ^ 32 :=
        lt_of_le_of_lt (Nat.div_le_self ..) (sub32_lt ..)
      simp only [all, ofSigned_toSigned counted, ne_eq, not_true_eq_false, if_false]
      exact tail _ _ _ _ _ _ (add32_lt ..)
    · exact tail _ _ _ _ _ _ lt
  unfold fsWrite
  dsimp only
  split
  · exact body _ _ _ _ _ _ (headSize_lt _ _ small)
  · exact body _ _ _ _ _ _ (by decide)

/-- The length is kept by a sequence of writes exactly if none of them ends before the file does. -/
theorem fsWrite_lengths_iff (image : Ext2Image fsInfo bytes) (updates : ∀ node st, ∃ block fresh,
      fs.updateNode node st = ext2UpdateNode node fsInfo (some block) fresh st)
    (valid : ValidInode fsInfo s.1.offset) (addressable : RecordAddressable fsInfo s.1.offset)
    (ws : List Write) (full : AllFull fs ws s) :
    KeepsLength fsInfo bytes fs ws s ↔ Grows ws s.1.filelength := by
  induction ws generalizing s with
  | nil => exact Iff.rfl
  | cons w ws ih =>
    obtain ⟨first, rest⟩ := full
    obtain ⟨st, after⟩ := first.after
    obtain ⟨block, fresh, updated⟩ := updates { s.1 with filelength := w.stop } st
    have stored : load32 (bytes (w.run fs s).2.2) (recordStart fsInfo s.1.offset + inodeSizeField) =
        w.stop := by
      have valid' : ValidInode fsInfo ({ s.1 with filelength := w.stop } : VfsNode).offset := valid
      rw [after, updated, image.updateNode_store valid' addressable, load32_store32_same]
      exact Nat.mod_eq_of_lt first.stop_lt
    have len : (w.run fs s).2.1.filelength = w.stop := by rw [after]
    have offset : (w.run fs s).2.1.offset = s.1.offset := by rw [after]
    have later := ih (by rw [offset]; exact valid) (by rw [offset]; exact addressable) rest
    unfold KeepsLength Grows
    rw [later, len, stored, eq_comm, max_eq_right_iff]
    exact ⟨fun kept => ⟨kept.1, kept.2.2⟩, fun kept => ⟨kept.1, kept.1, kept.2⟩⟩

end

theorem ext2Filesystem_updates (fsInfo : Ext2Fs σ) {memory : FileMemory} {block : Bytes}
    (allocated : memory.inodeRef = some block) (fresh : Nat → Nat → Bytes) (node : VfsNode)
    (st : σ) :
    (ext2Filesystem fsInfo memory fresh).updateNode node st =
      ext2UpdateNode node fsInfo (some block) fresh st := by
  unfold ext2Filesystem
  rw [allocated]

/-- The file system of the small partition. -/
def smallFilesystem : Filesystem Bytes :=
  ext2Filesystem farExt2 plentyOfMemory fun _ _ _ => 0

/-- `n` sevens at a position of the file. -/
def sevens (seek n : Nat) : Write := ⟨seek, fun _ => 7, n, 0, fun _ _ => 0⟩

theorem sevens_ends {seek n : Nat} (lt : n < 2 ^ 32)
    (noBlocks : sub32 n (endRest 1024 (ofSigned (seek : Int)) n) / 1024 = 0)
    (s : VfsNode × Bytes) :
    ∃ ret st, ret < 2 ^ 32 ∧ (sevens seek n).run smallFilesystem s =
      fsWriteEnd s.1 smallFilesystem seek ret st :=
  fsWrite_ends lt (.inl noBlocks) ..

theorem fsWrite_lengths_append :
    KeepsLength farExt2 id smallFilesystem [sevens 0 100, sevens 100 50]
      (⟨12, 0⟩, twoBlocks) := by
  have first : ((sevens 0 100).run smallFilesystem (⟨12, 0⟩, twoBlocks)).1 = (100 : Nat) := by
    decide +kernel
  have second : ((sevens 100 50).run smallFilesystem
      ((sevens 0 100).run smallFilesystem (⟨12, 0⟩, twoBlocks)).2).1 = (50 : Nat) := by
    decide +kernel
  have full : AllFull smallFilesystem [sevens 0 100, sevens 100 50] (⟨12, 0⟩, twoBlocks) := by
    refine ⟨⟨by decide, first, ?_⟩, ⟨by decide, second, ?_⟩, trivial⟩
    · exact sevens_ends (by decide) (by decide) _
    · exact sevens_ends (by decide) (by decide) _
  have kept := (fsWrite_lengths_iff (s := (⟨12, 0⟩, twoBlocks)) (smallExt2_image (by decide))
    (fun node st => ⟨_, _, ext2Filesystem_updates _ rfl _ node st⟩) ⟨by decide, by decide⟩
    (smallExt2_addressable le_rfl 12) _ full).mpr
  exact kept ⟨Nat.zero_le _, Nat.le_add_right 100 50, trivial⟩

/-- Ten bytes at the start of a file of 1500: its length is ten afterwards, also on the disk. -/
theorem fsWrite_shortens : (fun r : Int × VfsNode × Bytes => (r.1, r.2.1.filelength,
        load32 r.2.2 (recordStart farExt2 12 + inodeSizeField)))
      ((sevens 0 10).run smallFilesystem (⟨12, 1500⟩, twoBlocks)) = (10, 10, 10) := by
  decide +kernel

end Yanix.Fs
