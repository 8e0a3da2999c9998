/-
Module: Yanix.Proofs.BlockMap
Purpose: What `_ext2_get_inode_data_offset` returns, also for a zero on the way to a block, and the
  layout of an ext2 file.
-/
import Yanix.Fs.Ext2
import Yanix.Proofs.DiskTransfer

namespace Yanix.Fs

open Foundation Drivers

variable {fs : FsFields σ} {bytes : Bytes} {st : σ} {inode : Ext2Inode} {n : Nat} {n block j : Nat}
  {σ : Type*}

section

/-- The number of pointers in a block. -/
def FsFields.pointers (fs : FsFields σ) : Nat := fs.blockSize / sizeofUint32

/-- A partition whose blocks consist of whole sectors of a disk that delivers
them exactly. -/
structure Readable (fs : FsFields σ) (bytes : Bytes) (st : σ) : Prop where
  delivers : DeliversSectors fs.diskInfo bytes st
  sector : 0 < fs.diskInfo.blockSize
  start : fs.diskInfo.blockSize ∣ fs.partstart
  block : fs.diskInfo.blockSize ∣ fs.blockSize
  size : fs.blockSize = 1024 ∨ fs.blockSize = 2048 ∨ fs.blockSize = 4096

/-- What reading blocks of pointers needs of it: the disk, the alignment, and a
block size that holds whole pointers and is an `unsigned int`. -/
structure Mounted (fs : FsFields σ) (bytes : Bytes) (st : σ) : Prop where
  delivers : DeliversSectors fs.diskInfo bytes st
  sector : 0 < fs.diskInfo.blockSize
  start : fs.diskInfo.blockSize ∣ fs.partstart
  block : fs.diskInfo.blockSize ∣ fs.blockSize
  whole : sizeofUint32 ∣ fs.blockSize
  pos : 0 < fs.blockSize
  small : fs.blockSize < 2 ^ 32

/-- The bytes of a block have disk offsets below 2^32. -/
def FsFields.Addressable (fs : FsFields σ) (block : Nat) : Prop :=
  fs.partstart + (block + 1) * fs.blockSize ≤ 2 ^ 32

variable {block : Nat}

theorem FsFields.Addressable.stop_le {fs : FsFields σ}
    (addressable : fs.Addressable block) :
    fs.partstart + (block * fs.blockSize + fs.blockSize) ≤ 2 ^ 32 := by
  rw [← Nat.succ_mul]
  exact addressable

/-- Entry `i` of a block of pointers. -/
def layoutEntry (bytes : Bytes) (fs : FsFields σ) (block i : Nat) : Nat :=
  load32 bytes (fs.partstart + block * fs.blockSize + i * sizeofUint32)

/-- The blocks of pointers of a file exist and can be addressed. -/
structure PointersAddressable (bytes : Bytes) (fs : FsFields σ) (inode : Ext2Inode) :
    Prop where
  present : inode.doubleIndirectBlockPointer ≠ 0
  single : fs.Addressable inode.singleIndirectBlockPointer.toNat
  double : fs.Addressable inode.doubleIndirectBlockPointer.toNat
  indirect : ∀ i < fs.pointers, fs.Addressable
    (layoutEntry bytes fs inode.doubleIndirectBlockPointer.toNat i)

/-- The blocks of pointers on the way to block `n` exist and can be addressed. -/
structure PathAddressable (bytes : Bytes) (fs : FsFields σ) (inode : Ext2Inode)
    (n : Nat) : Prop where
  single : ext2DirectBpAmount ≤ n → n < ext2DirectBpAmount + fs.pointers →
      fs.Addressable inode.singleIndirectBlockPointer.toNat
  double : ext2DirectBpAmount + fs.pointers ≤ n → inode.doubleIndirectBlockPointer ≠ 0 ∧
      fs.Addressable inode.doubleIndirectBlockPointer.toNat ∧
      fs.Addressable (layoutEntry bytes fs inode.doubleIndirectBlockPointer.toNat
        ((n - ext2DirectBpAmount - fs.pointers) / fs.pointers))

/-- The block that holds block `n` of the file. Zero is a hole, also in a block of pointers to
blocks of pointers. -/
def layoutPtr (bytes : Bytes) (fs : FsFields σ) (inode : Ext2Inode) (n : Nat) :
    Nat :=
  let entry := layoutEntry bytes fs
  if direct : n < ext2DirectBpAmount then
    (inode.directBlockPointer ⟨n, direct⟩).toNat
  else if n < ext2DirectBpAmount + fs.pointers then
    entry inode.singleIndirectBlockPointer.toNat (n - ext2DirectBpAmount)
  else
    let k := n - ext2DirectBpAmount - fs.pointers
    let indirect := entry inode.doubleIndirectBlockPointer.toNat (k / fs.pointers)
    if indirect = 0 then 0 else entry indirect (k % fs.pointers)

/-- The bound that the code puts on the double-indirect range. -/
def FsFields.reach (fs : FsFields σ) : Nat :=
  add32 (Libk.pow fs.pointers 2) ext2DirectBpAmount

/-- A block of the disk, read into memory. -/
def loadedBlock (bytes : Bytes) (fs : FsFields σ) (memory : Bytes) (block : Nat) :
    Bytes :=
  blit memory 0 bytes (fs.partstart + block * fs.blockSize) fs.blockSize

/-- What the workaround for missing pointers puts in the place of a hole; `0` is a hole that is
kept. `memory i` is what the `i`-th block of pointers is read into. -/
def gapGuess (bytes : Bytes) (fs : FsFields σ) (inode : Ext2Inode)
    (memory : Nat → Bytes) (n : Nat) : Nat :=
  if n < ext2DirectBpAmount then 0
  else if n < ext2DirectBpAmount + fs.pointers then
    fillGap (loadedBlock bytes fs (memory 0) inode.singleIndirectBlockPointer.toNat)
      (n - ext2DirectBpAmount) fs.blockSize
  else
    let k := n - ext2DirectBpAmount - fs.pointers
    let indirect := layoutEntry bytes fs inode.doubleIndirectBlockPointer.toNat (k / fs.pointers)
    if indirect = 0 then 0
    else fillGap (loadedBlock bytes fs (memory 1) indirect) (k % fs.pointers) fs.blockSize

namespace Mounted

variable (mounted : Mounted fs bytes st)

include mounted

theorem pointers_mul : fs.pointers * sizeofUint32 = fs.blockSize := Nat.div_mul_cancel mounted.whole

theorem pointers_pos : 0 < fs.pointers :=
  Nat.div_pos (Nat.le_of_dvd mounted.pos mounted.whole) (by decide)

theorem pointers_lt : fs.pointers < 2 ^ 30 := by
  have whole := mounted.pointers_mul
  have lt := mounted.small
  unfold sizeofUint32 at whole
  omega

theorem read_block (addressable : fs.Addressable block) (memory : Bytes) (fresh : Nat → Bytes) :
    (ext2DiskRead (mul32 block fs.blockSize) memory fs.blockSize fs fresh st).buf =
      loadedBlock bytes fs memory block := by
  have pos := mounted.pos
  have lt := addressable.stop_le
  have offset : add32 (mul32 block fs.blockSize) fs.partstart =
      fs.partstart + block * fs.blockSize := by
    rw [mul32_of_lt (by omega), add32_of_lt (by omega), add_comm]
  have aligned : (fs.partstart + block * fs.blockSize) % fs.diskInfo.blockSize = 0 :=
    Nat.mod_eq_zero_of_dvd (Nat.dvd_add mounted.start (Nat.dvd_mul_left_of_dvd mounted.block block))
  unfold ext2DiskRead
  rw [offset]
  exact (diskRead_aligned mounted.delivers mounted.sector (by omega) mounted.small aligned memory
    fresh).1

theorem pointerAt_loadedBlock (memory : Bytes) (block : Nat) {i : Nat} (lt : i < fs.pointers) :
    pointerAt (loadedBlock bytes fs memory block) i = layoutEntry bytes fs block i := by
  have whole := mounted.pointers_mul
  have small := mounted.pointers_lt
  have entry : i * sizeofUint32 + 4 ≤ fs.blockSize := by
    unfold sizeofUint32 at whole ⊢
    omega
  have loaded := load32_blit memory 0 bytes (fs.partstart + block * fs.blockSize) entry
  unfold pointerAt
  rw [mul32_of_lt (by unfold sizeofUint32; omega)]
  rwa [zero_add] at loaded

theorem mul_blockSize (addressable : fs.Addressable block) :
    mul32 block fs.blockSize = fs.blockSize * block := by
  have pos := mounted.pos
  have lt := addressable.stop_le
  rw [mul32_of_lt (by omega), mul_comm]

theorem handleIndirectBp_eq {i : Nat} (addressable : fs.Addressable block) (lt : i < fs.pointers)
    (data : fs.Addressable (layoutEntry bytes fs block i)) (memory : Bytes)
    (fresh : Nat → Bytes) :
    handleIndirectBp block i fs (some memory) fresh st = if layoutEntry bytes fs block i = 0 then
        fillGap (loadedBlock bytes fs memory block) i fs.blockSize
      else fs.blockSize * layoutEntry bytes fs block i := by
  have zero : fs.blockSize * layoutEntry bytes fs block i = 0 ↔
      layoutEntry bytes fs block i = 0 := by
    rw [Nat.mul_eq_zero, or_iff_right mounted.pos.ne']
  simp only [handleIndirectBp]
  rw [mounted.read_block addressable, mounted.pointerAt_loadedBlock memory block lt,
    mounted.mul_blockSize data]
  simp only [zero]

/-! ## The three ranges -/

theorem single_bound_eq : add32 (fs.blockSize / sizeofUint32) ext2DirectBpAmount =
      ext2DirectBpAmount + fs.pointers := by
  have lt := mounted.pointers_lt
  unfold FsFields.pointers at *
  rw [add32_of_lt (by unfold ext2DirectBpAmount; omega), add_comm]

omit mounted

theorem reach_le (fs : FsFields σ) :
    fs.reach ≤ ext2DirectBpAmount + fs.pointers * fs.pointers := by
  have product : Libk.pow fs.pointers 2 ≤ fs.pointers * fs.pointers := Nat.mod_le ..
  have sum : fs.reach ≤ Libk.pow fs.pointers 2 + ext2DirectBpAmount := Nat.mod_le ..
  omega

include mounted

theorem dataOffset_direct (direct : n < ext2DirectBpAmount)
    (data : fs.Addressable (layoutPtr bytes fs inode n))
    (kmalloc : Nat → Option Bytes) (fresh : Nat → Bytes) :
    ext2GetInodeDataOffset inode n fs kmalloc fresh st =
      fs.blockSize * layoutPtr bytes fs inode n := by
  have pointer : layoutPtr bytes fs inode n =
      (inode.directBlockPointer ⟨n, direct⟩).toNat := dif_pos direct
  unfold ext2GetInodeDataOffset
  rw [dif_pos direct, ← pointer]
  exact mounted.mul_blockSize data

theorem dataOffset_beyond (low : ext2DirectBpAmount + fs.pointers ≤ n)
    (beyond : fs.reach ≤ n) (kmalloc : Nat → Option Bytes) (fresh : Nat → Bytes) :
    ext2GetInodeDataOffset inode n fs kmalloc fresh st = 0 := by
  unfold ext2GetInodeDataOffset
  rw [dif_neg (by omega), if_neg (by rw [mounted.single_bound_eq]; omega)]
  exact if_neg (not_lt.mpr beyond)

theorem dataOffset_double (low : ext2DirectBpAmount + fs.pointers ≤ n)
    (high : n < fs.reach) (path : PathAddressable bytes fs inode n)
    (data : fs.Addressable (layoutPtr bytes fs inode n))
    (memory : Nat → Bytes) (fresh : Nat → Bytes) :
    ext2GetInodeDataOffset inode n fs (fun i => some (memory i)) fresh st =
      if layoutPtr bytes fs inode n = 0 then gapGuess bytes fs inode memory n
      else fs.blockSize * layoutPtr bytes fs inode n := by
  obtain ⟨mem, double, indirect⟩ := path.double low
  have nSmall : n < 2 ^ 32 := lt_trans high (add32_lt ..)
  have square := reach_le fs
  have ne : inode.doubleIndirectBlockPointer.toNat ≠ 0 := by
    intro zero
    exact mem (UInt32.toNat_inj.mp zero)
  have index : sub32 (sub32 n (fs.blockSize / sizeofUint32)) ext2DirectBpAmount =
      n - ext2DirectBpAmount - fs.pointers := by
    have inner : sub32 n fs.pointers = n - fs.pointers := sub32_of_le (by omega) nSmall
    have outer : sub32 (n - fs.pointers) ext2DirectBpAmount =
        n - fs.pointers - ext2DirectBpAmount :=
      sub32_of_le (by omega) (by omega)
    rw [show fs.blockSize / sizeofUint32 = fs.pointers from rfl, inner, outer, Nat.sub_right_comm]
  have tooLow : ¬ n < ext2DirectBpAmount := by omega
  have notSingle : ¬ n < ext2DirectBpAmount + fs.pointers := not_lt.mpr low
  unfold ext2GetInodeDataOffset
  rw [dif_neg tooLow, if_neg (by rwa [mounted.single_bound_eq]),
    if_pos (show n < add32 (Libk.pow (fs.blockSize / sizeofUint32) 2) _ from high)]
  unfold layoutPtr at data ⊢
  unfold gapGuess
  rw [dif_neg tooLow, if_neg notSingle] at data
  rw [dif_neg tooLow, if_neg notSingle, if_neg tooLow, if_neg notSingle]
  simp only [doubleIndirect, if_neg ne, index] at data ⊢
  have row : (n - ext2DirectBpAmount - fs.pointers) / fs.pointers <
      fs.pointers := Nat.div_lt_of_lt_mul (by omega)
  have column := Nat.mod_lt (n - ext2DirectBpAmount - fs.pointers) mounted.pointers_pos
  generalize n - ext2DirectBpAmount - fs.pointers = k at *
  rw [show fs.blockSize / sizeofUint32 = fs.pointers from rfl,
    mounted.read_block double, mounted.pointerAt_loadedBlock _ _ row]
  by_cases hole : layoutEntry bytes fs inode.doubleIndirectBlockPointer.toNat (k / fs.pointers) = 0
  · simp only [if_pos hole, if_true]
  · simp only [if_neg hole] at data ⊢
    exact mounted.handleIndirectBp_eq indirect column data (memory 1) _

theorem dataOffset_eq (path : n < fs.reach ∨ n < ext2DirectBpAmount + fs.pointers →
      PathAddressable bytes fs inode n)
    (data : fs.Addressable (layoutPtr bytes fs inode n))
    (memory : Nat → Bytes) (fresh : Nat → Bytes) :
    ext2GetInodeDataOffset inode n fs (fun i => some (memory i)) fresh st =
      if n < fs.reach ∨ n < ext2DirectBpAmount + fs.pointers then
        if layoutPtr bytes fs inode n = 0 then gapGuess bytes fs inode memory n
        else fs.blockSize * layoutPtr bytes fs inode n
      else 0 := by
  by_cases reached : n < fs.reach ∨ n < ext2DirectBpAmount + fs.pointers
  · rw [if_pos reached]
    by_cases direct : n < ext2DirectBpAmount
    · rw [mounted.dataOffset_direct direct data]
      split_ifs with hole
      · rw [hole, mul_zero, gapGuess, if_pos direct]
      · rfl
    by_cases first : n < ext2DirectBpAmount + fs.pointers
    · have low : ext2DirectBpAmount ≤ n := not_lt.mp direct
      have lt := mounted.pointers_lt
      have index : sub32 n ext2DirectBpAmount = n - ext2DirectBpAmount :=
        sub32_of_le low (by unfold ext2DirectBpAmount at first; omega)
      have pointer : layoutPtr bytes fs inode n = layoutEntry bytes fs
          inode.singleIndirectBlockPointer.toNat (n - ext2DirectBpAmount) := by
        unfold layoutPtr
        rw [dif_neg (not_lt.mpr low), if_pos first]
      have guess : gapGuess bytes fs inode memory n =
          fillGap (loadedBlock bytes fs (memory 0) inode.singleIndirectBlockPointer.toNat)
            (n - ext2DirectBpAmount) fs.blockSize := by
        unfold gapGuess
        rw [if_neg (not_lt.mpr low), if_pos first]
      unfold ext2GetInodeDataOffset
      rw [dif_neg (not_lt.mpr low), if_pos (by rwa [mounted.single_bound_eq]), index, guess]
      rw [pointer] at data ⊢
      exact mounted.handleIndirectBp_eq ((path reached).single low first) (by omega)
        data (memory 0)
        fresh
    · exact mounted.dataOffset_double (not_lt.mp first) (reached.resolve_right first)
        (path reached) data memory fresh
  · rw [if_neg reached]
    apply mounted.dataOffset_beyond
    · omega
    · omega

end Mounted

namespace Readable

variable (readable : Readable fs bytes st)

include readable

theorem mounted : Mounted fs bytes st where
  delivers := readable.delivers
  sector := readable.sector
  start := readable.start
  block := readable.block
  whole := by
    unfold sizeofUint32
    rcases readable.size with size | size | size <;> omega
  pos := by
    rcases readable.size with size | size | size <;> omega
  small := by
    rcases readable.size with size | size | size <;> omega

theorem square_le : fs.pointers * fs.pointers ≤ 1048576 := by
  have small : fs.pointers ≤ 1024 := by
    have whole := readable.mounted.pointers_mul
    unfold sizeofUint32 at whole
    rcases readable.size with size | size | size <;> omega
  exact Nat.mul_le_mul small small

theorem reach_eq : fs.reach = ext2DirectBpAmount + fs.pointers * fs.pointers := by
  have square := readable.square_le
  have power : Libk.pow fs.pointers 2 = fs.pointers * fs.pointers := mul32_of_lt (by omega)
  unfold FsFields.reach
  rw [power, add32_of_lt (by unfold ext2DirectBpAmount; omega), add_comm]

theorem le_reach : ext2DirectBpAmount + fs.pointers ≤ fs.reach := by
  rw [readable.reach_eq]
  exact Nat.add_le_add_left (Nat.le_mul_of_pos_left _ readable.mounted.pointers_pos) _

theorem path (pointers : PointersAddressable bytes fs inode) (lt : n < fs.reach) :
    PathAddressable bytes fs inode n where
  single := fun _ _ => pointers.single
  double := by
    intro low
    rw [readable.reach_eq] at lt
    exact ⟨pointers.present, pointers.double, pointers.indirect _ (Nat.div_lt_of_lt_mul (by omega))⟩

theorem dataOffset_eq (pointers : PointersAddressable bytes fs inode)
    (data : fs.Addressable (layoutPtr bytes fs inode n))
    (memory : Nat → Bytes) (fresh : Nat → Bytes) :
    ext2GetInodeDataOffset inode n fs (fun i => some (memory i)) fresh st =
      if n < ext2DirectBpAmount + fs.pointers * fs.pointers then
        if layoutPtr bytes fs inode n = 0 then gapGuess bytes fs inode memory n
        else fs.blockSize * layoutPtr bytes fs inode n
      else 0 := by
  have further := readable.le_reach
  have lt : n < fs.reach ∨ n < ext2DirectBpAmount + fs.pointers ↔ n < fs.reach := by omega
  rw [readable.mounted.dataOffset_eq (fun mem => readable.path pointers (lt.mp mem))
    data memory fresh, ← readable.reach_eq]
  simp only [lt]

end Readable

/-- The pointers around entry `i` look like a run of consecutive blocks with one or two pointers
missing. -/
def LooksMissing (bp : Bytes) (i blockSize : Nat) : Prop :=
  let next := pointerAt bp (add32 i 1)
  let second := pointerAt bp (add32 i 2)
  let previous := pointerAt bp (sub32 i 1)
  let before := pointerAt bp (sub32 i 2)
  let continued := next = add32 previous 2 ∨ second = add32 previous 3
  (next ≠ 0 ∨ second ≠ 0) ∧ (continued ∧ mul32 (add32 previous 1) blockSize ≠ 0 ∨
      ¬ continued ∧ next = add32 before 3 ∧ mul32 (add32 before 2) blockSize ≠ 0)

theorem fillGap_eq_zero_iff (bp : Bytes) (i blockSize : Nat) :
    fillGap bp i blockSize = 0 ↔ ¬ LooksMissing bp i blockSize := by
  unfold fillGap LooksMissing
  split_ifs with around continued further
  · simp [around, continued]
  · constructor
    · rintro zero ⟨-, ⟨first, -⟩ | ⟨-, -, ne⟩⟩
      · exact continued first
      · exact ne zero
    · intro kept
      by_contra ne
      exact kept ⟨around, .inr ⟨continued, further, ne⟩⟩
  · simp [continued, further]
  · simp [around]

/-- Block `n` is a hole in a block of pointers, and its neighbours make it look like a missing
pointer. -/
def HoleLooksMissing (bytes : Bytes) (fs : FsFields σ) (inode : Ext2Inode)
    (memory : Nat → Bytes) (n : Nat) : Prop :=
  if n < ext2DirectBpAmount then False
  else if n < ext2DirectBpAmount + fs.pointers then
    LooksMissing (loadedBlock bytes fs (memory 0) inode.singleIndirectBlockPointer.toNat)
      (n - ext2DirectBpAmount) fs.blockSize
  else
    let k := n - ext2DirectBpAmount - fs.pointers
    let indirect := layoutEntry bytes fs inode.doubleIndirectBlockPointer.toNat (k / fs.pointers)
    indirect ≠ 0 ∧ LooksMissing (loadedBlock bytes fs (memory 1) indirect) (k % fs.pointers)
        fs.blockSize

theorem gapGuess_eq_zero_iff (bytes : Bytes) (fs : FsFields σ) (inode : Ext2Inode)
    (memory : Nat → Bytes) (n : Nat) :
    gapGuess bytes fs inode memory n = 0 ↔ ¬ HoleLooksMissing bytes fs inode memory n := by
  unfold gapGuess HoleLooksMissing
  split_ifs with direct single
  · simp
  · exact fillGap_eq_zero_iff ..
  dsimp only
  split_ifs with hole
  · simp [hole]
  · rw [fillGap_eq_zero_iff]
    simp [hole]

/-- Where the code agrees with the layout of the file: a block that exists is none of the last `P`
of the double-indirect range, and a hole before these does not look like a missing pointer. -/
def LayoutKept (bytes : Bytes) (fs : FsFields σ) (inode : Ext2Inode)
    (memory : Nat → Bytes) (n : Nat) : Prop :=
  if layoutPtr bytes fs inode n = 0 then
    n < ext2DirectBpAmount + fs.pointers * fs.pointers →
      ¬ HoleLooksMissing bytes fs inode memory n
  else n < ext2DirectBpAmount + fs.pointers * fs.pointers

/-- The offset returned is the block size times the pointer of the layout under
the condition `LayoutKept` and under no other. -/
theorem dataOffset_eq_layout_iff {fs : FsFields σ} {bytes : Bytes} {st : σ}
    (readable : Readable fs bytes st) (inode : Ext2Inode) (n : Nat)
    (pointers : PointersAddressable bytes fs inode)
    (dataAddressable : fs.Addressable (layoutPtr bytes fs inode n))
    (memory : Nat → Bytes) (fresh : Nat → Bytes) :
    ext2GetInodeDataOffset inode n fs (fun i => some (memory i)) fresh st =
        fs.blockSize * layoutPtr bytes fs inode n ↔
      LayoutKept bytes fs inode memory n := by
  have pos := readable.mounted.pos
  rw [readable.dataOffset_eq pointers dataAddressable memory fresh]
  unfold LayoutKept
  by_cases hole : layoutPtr bytes fs inode n = 0
  · rw [if_pos hole, if_pos hole, hole, mul_zero, ite_eq_right_iff, gapGuess_eq_zero_iff]
  have someBlock : 0 ≠ fs.blockSize * layoutPtr bytes fs inode n :=
    (Nat.mul_ne_zero pos.ne' hole).symm
  rw [if_neg hole, if_neg hole, ite_eq_left_iff]
  constructor
  · intro ret
    by_contra beyond
    exact someBlock (ret beyond)
  · intro lt beyond
    exact absurd lt beyond

def oneWords : Bytes := fun x => if x % 4 = 0 then 1 else 0

/-- A partition that starts at the first megabyte. -/
def smallFs : FsFields Bytes := ⟨1024, 1048576, sectorDisk 512⟩

def oneInode : Ext2Inode := ⟨fun _ => 1, 1, 1⟩

theorem smallFs_readable (bytes : Bytes) : Readable smallFs bytes bytes where
  delivers := sectorDisk_delivers 512 bytes
  sector := by decide
  start := by decide
  block := by decide
  size := .inl rfl

theorem smallFs_pointers : smallFs.pointers = 256 := rfl

theorem load32_oneWords {a : Nat} (word : a % 4 = 0) : load32 oneWords a = 1 := by
  simp only [load32, oneWords]
  rw [if_pos word, if_neg (by omega), if_neg (by omega), if_neg (by omega)]
  rfl

theorem layoutEntry_oneWords (block i : Nat) : layoutEntry oneWords smallFs block i = 1 := by
  apply load32_oneWords
  change (1048576 + block * 1024 + i * 4) % 4 = 0
  omega

theorem layoutPtr_oneWords (n : Nat) : layoutPtr oneWords smallFs oneInode n = 1 := by
  unfold layoutPtr
  simp only [layoutEntry_oneWords]
  split_ifs
  · rfl
  · rfl
  · contradiction
  · rfl

theorem addressable_one : smallFs.Addressable 1 := by
  unfold FsFields.Addressable
  decide

theorem oneInode_addressable : PointersAddressable oneWords smallFs oneInode where
  present := by decide
  single := addressable_one
  double := addressable_one
  indirect := by
    intro i _
    rw [layoutEntry_oneWords]
    exact addressable_one

theorem dataAddressable_oneWords (n : Nat) :
    smallFs.Addressable (layoutPtr oneWords smallFs oneInode n) := by
  rw [layoutPtr_oneWords]
  exact addressable_one

theorem dataOffset_oneWords :
    ext2GetInodeDataOffset oneInode 65547 smallFs (fun _ => some fun _ => 0) (fun _ _ => 0)
      oneWords = 1024 := by
  have kept : LayoutKept oneWords smallFs oneInode (fun _ _ => 0) 65547 := by
    unfold LayoutKept
    rw [if_neg (by rw [layoutPtr_oneWords]; decide), smallFs_pointers]
    decide
  have agreed := (dataOffset_eq_layout_iff (smallFs_readable oneWords) oneInode 65547
    oneInode_addressable (dataAddressable_oneWords 65547) (fun _ _ => 0) (fun _ _ => 0)).mpr kept
  exact agreed

/-- The first block behind the range the code knows: block 1 of the disk by the
layout, offset 0 by the code. -/
theorem dataOffset_oneWords_lost :
    65548 < 12 + 256 + 256 * 256 ∧ Readable smallFs oneWords oneWords ∧
      PointersAddressable oneWords smallFs oneInode ∧
      smallFs.Addressable (layoutPtr oneWords smallFs oneInode 65548) ∧
      smallFs.blockSize * layoutPtr oneWords smallFs oneInode 65548 = 1024 ∧
      ext2GetInodeDataOffset oneInode 65548 smallFs (fun _ => some fun _ => 0) (fun _ _ => 0)
        oneWords = 0 := by
  refine ⟨by decide, smallFs_readable oneWords, oneInode_addressable,
    dataAddressable_oneWords 65548, ?_, ?_⟩
  · rw [layoutPtr_oneWords]
    rfl
  apply (smallFs_readable oneWords).mounted.dataOffset_beyond
  · rw [smallFs_pointers]
    decide
  · rw [(smallFs_readable oneWords).reach_eq, smallFs_pointers]
    decide

end

open List

/-- The blocks that occur in the pointer tree of an inode. -/
inductive InTree (bytes : Bytes) (fs : FsFields σ) (inode : Ext2Inode) :
    Nat → Prop where
  | direct (k : Fin ext2DirectBpAmount) :
      InTree bytes fs inode (inode.directBlockPointer k).toNat
  | single : InTree bytes fs inode inode.singleIndirectBlockPointer.toNat
  | double : InTree bytes fs inode inode.doubleIndirectBlockPointer.toNat
  | ofSingle (present : inode.singleIndirectBlockPointer ≠ 0) {j : Nat}
      (inside : j < fs.pointers) :
      InTree bytes fs inode (layoutEntry bytes fs inode.singleIndirectBlockPointer.toNat j)
  | indirect (present : inode.doubleIndirectBlockPointer ≠ 0) {i : Nat}
      (row : i < fs.pointers) :
      InTree bytes fs inode (layoutEntry bytes fs inode.doubleIndirectBlockPointer.toNat i)
  | ofIndirect (present : inode.doubleIndirectBlockPointer ≠ 0) {i j : Nat}
      (row : i < fs.pointers)
      (mapped : layoutEntry bytes fs inode.doubleIndirectBlockPointer.toNat i ≠ 0)
      (column : j < fs.pointers) :
      InTree bytes fs inode (layoutEntry bytes fs
        (layoutEntry bytes fs inode.doubleIndirectBlockPointer.toNat i) j)

/-- Block `n` of the file is behind entry `j` of the block of pointers `block`. -/
inductive LastEntry (bytes : Bytes) (fs : FsFields σ) (inode : Ext2Inode) :
    (n block j : Nat) → Prop where
  | single (present : inode.singleIndirectBlockPointer ≠ 0) {j : Nat}
      (inside : j < fs.pointers) :
      LastEntry bytes fs inode (ext2DirectBpAmount + j)
        inode.singleIndirectBlockPointer.toNat j
  | double (present : inode.doubleIndirectBlockPointer ≠ 0) {i j : Nat}
      (row : i < fs.pointers)
      (mapped : layoutEntry bytes fs inode.doubleIndirectBlockPointer.toNat i ≠ 0)
      (column : j < fs.pointers) :
      LastEntry bytes fs inode (ext2DirectBpAmount + fs.pointers + (i * fs.pointers + j))
        (layoutEntry bytes fs inode.doubleIndirectBlockPointer.toNat i) j

variable {i : Nat}

section

variable (last : LastEntry bytes fs inode n block j)

include last

theorem LastEntry.block_inTree : InTree bytes fs inode block := by
  cases last with
  | single _ _ => exact .single
  | double mem row _ _ => exact .indirect mem row

theorem LastEntry.entry_inTree {l : Nat} (lt : l < fs.pointers) :
    InTree bytes fs inode (layoutEntry bytes fs block l) := by
  cases last with
  | single mem _ => exact .ofSingle mem lt
  | double mem row mapped _ => exact .ofIndirect mem row mapped lt

theorem LastEntry.inside : j < fs.pointers := by
  cases last with
  | single _ lt => exact lt
  | double _ _ _ column => exact column

theorem LastEntry.of_single (first : n < ext2DirectBpAmount + fs.pointers) :
    block = inode.singleIndirectBlockPointer.toNat ∧ n = ext2DirectBpAmount + j := by
  cases last with
  | single _ _ => exact ⟨rfl, rfl⟩
  | double _ _ _ _ => omega

omit last

theorem row_column (column : j < fs.pointers)
    (place : n = ext2DirectBpAmount + fs.pointers + (i * fs.pointers + j)) :
    (n - ext2DirectBpAmount - fs.pointers) / fs.pointers = i ∧
      (n - ext2DirectBpAmount - fs.pointers) % fs.pointers = j := by
  have index : n - ext2DirectBpAmount - fs.pointers = fs.pointers * i + j := by
    rw [Nat.mul_comm]
    omega
  rw [index, Nat.mul_add_div (by omega), Nat.div_eq_of_lt column, Nat.mul_add_mod,
    Nat.mod_eq_of_lt column]
  exact ⟨rfl, rfl⟩

include last

theorem LastEntry.layout (memory : Nat → Bytes) :
    layoutPtr bytes fs inode n = layoutEntry bytes fs block j ∧
      ∃ m, gapGuess bytes fs inode memory n =
        fillGap (loadedBlock bytes fs m block) j fs.blockSize := by
  unfold layoutPtr gapGuess
  cases last with
  | single mem lt =>
    have notDirect : ¬ ext2DirectBpAmount + j < ext2DirectBpAmount := by omega
    have first : ext2DirectBpAmount + j <
        ext2DirectBpAmount + fs.pointers := by omega
    rw [dif_neg notDirect, if_pos first, if_neg notDirect, if_pos first, Nat.add_sub_cancel_left]
    exact ⟨rfl, _, rfl⟩
  | @double _ i j row mapped column =>
    have notDirect : ¬ ext2DirectBpAmount + fs.pointers +
        (i * fs.pointers + j) < ext2DirectBpAmount := by omega
    have notFirst : ¬ ext2DirectBpAmount + fs.pointers +
        (i * fs.pointers + j) < ext2DirectBpAmount + fs.pointers := by omega
    obtain ⟨quotient, remainder⟩ := row_column (i := i) column rfl
    rw [dif_neg notDirect, if_neg notFirst, if_neg notDirect, if_neg notFirst]
    simp only [quotient, remainder, if_neg mapped]
    exact ⟨trivial, _, rfl⟩

end

variable {bp : Bytes} {idx : Nat} {j : Nat}

theorem mem_fillGapReads (read : idx ∈ fillGapReads bp j) :
    idx = add32 j 1 ∨ idx = add32 j 2 ∨ idx = sub32 j 1 ∨ idx = sub32 j 2 := by
  unfold fillGapReads at read
  dsimp only at read
  split_ifs at read
  all_goals grind

variable {blockSize : Nat}

/-- Every read is inside a block of `pointers` entries, if the next two entries are in it and
the two before it, in case they matter. -/
theorem indirectReads_inside {pointers : Nat} (small : pointers < 2 ^ 30) (high : j + 2 < pointers)
    (low : pointerAt bp (j + 1) = 0 ∧ pointerAt bp (j + 2) = 0 ∨ 2 ≤ j)
    (read : idx ∈ indirectReads bp j blockSize) : idx < pointers := by
  have next : add32 j 1 = j + 1 := add32_of_lt (by omega)
  have second : add32 j 2 = j + 2 := add32_of_lt (by omega)
  rcases mem_cons.mp read with here | gap
  · omega
  split at gap
  · rcases low with ⟨zero, zero'⟩ | low
    · rw [fillGapReads, next, second] at gap
      simp only [zero, zero', ne_eq, not_true_eq_false, or_self, if_false, mem_cons,
        not_mem_nil, or_false] at gap
      omega
    · rcases mem_fillGapReads gap with after | after | previous | lt
      · omega
      · omega
      · rw [previous, sub32_of_le (by omega) (by omega)]
        omega
      · rw [lt, sub32_of_le low (by omega)]
        omega
  · cases gap

theorem fillGapReads_suffice (blockSize : Nat)
    (agree : ∀ idx ∈ fillGapReads bp j, pointerAt bp' idx = pointerAt bp idx) :
    fillGap bp' j blockSize = fillGap bp j blockSize := by
  unfold fillGapReads at agree
  unfold fillGap
  generalize add32 j 1 = next at *
  generalize add32 j 2 = second at *
  generalize sub32 j 1 = previous at *
  generalize sub32 j 2 = lt at *
  dsimp only at agree
  -- one case for each way through the conditions, with the entries read on that way
  split_ifs at agree
  all_goals
    grind

theorem indirectReads_suffice
    (agree : ∀ idx ∈ indirectReads bp j blockSize, pointerAt bp' idx = pointerAt bp idx) :
    (if mul32 (pointerAt bp' j) blockSize = 0 then fillGap bp' j blockSize
      else mul32 (pointerAt bp' j) blockSize) =
    if mul32 (pointerAt bp j) blockSize = 0 then fillGap bp j blockSize
      else mul32 (pointerAt bp j) blockSize := by
  have entry := agree j mem_cons_self
  rw [entry]
  split
  · next zero =>
      apply fillGapReads_suffice
      intro idx read
      apply agree
      rw [indirectReads, if_pos zero]
      exact mem_cons_of_mem j read
  · rfl

/-- The pointer that seems to be missing at entry `j`: the entries around continue each other
with one or two numbers left out. -/
def missingPointer (entry : Nat → Nat) (j : Nat) : Option Nat :=
  if entry (j + 1) = 0 ∧ entry (j + 2) = 0 then none
  else if entry (j + 1) = entry (j - 1) + 2 ∨ entry (j + 2) = entry (j - 1) + 3 then
    some (entry (j - 1) + 1)
  else if entry (j + 1) = entry (j - 2) + 3 then some (entry (j - 2) + 2)
  else none

/-- A hole whose neighbours, as far as they matter, are in the same block of pointers. -/
def InnerHole (entry : Nat → Nat) (pointers j : Nat) : Prop :=
  j + 2 < pointers ∧ (entry (j + 1) = 0 ∧ entry (j + 2) = 0 ∨ 2 ≤ j)

theorem FsFields.Addressable.mono {fs : FsFields σ} {block other : Nat}
    (addressable : fs.Addressable block) (le : other ≤ block) : fs.Addressable other :=
  Nat.le_trans (Nat.add_le_add_left (Nat.mul_le_mul_right _ (Nat.succ_le_succ le)) _) addressable

section

variable {block j : Nat}

theorem Mounted.add_lt (mounted : Mounted fs bytes st)
    (addressable : fs.Addressable block) : block + 3 < 2 ^ 32 := by
  have words := Nat.le_of_dvd mounted.pos mounted.whole
  have product := Nat.mul_le_mul_left (block + 1) words
  unfold FsFields.Addressable at addressable
  unfold sizeofUint32 at product
  omega

theorem Mounted.fillGap_eq_missing (mounted : Mounted fs bytes st)
    (entries : ∀ l < fs.pointers, fs.Addressable (layoutEntry bytes fs block l))
    (inner : InnerHole (layoutEntry bytes fs block) fs.pointers j) (memory : Bytes) :
    fillGap (loadedBlock bytes fs memory block) j fs.blockSize =
      fs.blockSize * (missingPointer (layoutEntry bytes fs block) j).getD 0 := by
  obtain ⟨high, low⟩ := inner
  have small := mounted.pointers_lt
  have read (l : Nat) (lt : l < fs.pointers) := mounted.pointerAt_loadedBlock memory block lt
  have next := entries (j + 1) (by omega)
  have second := entries (j + 2) (by omega)
  have boundPrevious := mounted.add_lt (entries (j - 1) (by omega))
  have boundBefore := mounted.add_lt (entries (j - 2) (by omega))
  unfold fillGap missingPointer
  rw [add32_of_lt (by omega), add32_of_lt (by omega),
    read (j + 1) (by omega), read (j + 2) (by omega)]
  by_cases zeros : layoutEntry bytes fs block (j + 1) = 0 ∧ layoutEntry bytes fs block (j + 2) = 0
  · rw [if_pos zeros, if_neg (by omega)]
    rfl
  rw [if_neg zeros, if_pos (by omega)]
  have start := low.resolve_left zeros
  rw [sub32_of_le (by omega) (by omega), sub32_of_le start (by omega),
    read (j - 1) (by omega), read (j - 2) (by omega)]
  generalize layoutEntry bytes fs block (j + 1) = a at *
  generalize layoutEntry bytes fs block (j + 2) = b at *
  generalize layoutEntry bytes fs block (j - 1) = p at *
  generalize layoutEntry bytes fs block (j - 2) = q at *
  rw [add32_of_lt (by omega), add32_of_lt (by omega),
    add32_of_lt (by omega), add32_of_lt (by omega),
    add32_of_lt (by omega)]
  split
  · next continued =>
      have guess : fs.Addressable (p + 1) := by
        rcases continued with rfl | rfl
        · exact next.mono (by omega)
        · exact second.mono (by omega)
      exact mounted.mul_blockSize guess
  · split
    · next continued => exact mounted.mul_blockSize (next.mono (by omega))
    · rfl

end

/-! ## What becomes of a hole -/

/-- A hole is kept or, as an entry of a block of pointers, filled. -/
structure HolesOrGaps (bytes : Bytes) (fs : FsFields σ) (inode : Ext2Inode)
    (n offset : Nat) : Prop where
  direct : ∀ direct : n < ext2DirectBpAmount,
    inode.directBlockPointer ⟨n, direct⟩ = 0 → offset = 0
  double : ext2DirectBpAmount + fs.pointers ≤ n →
    inode.doubleIndirectBlockPointer = 0 → offset = 0
  indirect : ∀ i j, i < fs.pointers → j < fs.pointers →
    n = ext2DirectBpAmount + fs.pointers + (i * fs.pointers + j) →
    inode.doubleIndirectBlockPointer ≠ 0 →
    layoutEntry bytes fs inode.doubleIndirectBlockPointer.toNat i = 0 → offset = 0
  entry : ∀ block j, LastEntry bytes fs inode n block j → layoutEntry bytes fs block j = 0 →
    missingPointer (layoutEntry bytes fs block) j = none → offset = 0
  occurs : offset ≠ 0 → ∃ b, offset = fs.blockSize * b ∧
    (InTree bytes fs inode b ∨ ∃ block j, LastEntry bytes fs inode n block j ∧
      layoutEntry bytes fs block j = 0 ∧
      missingPointer (layoutEntry bytes fs block) j = some b)

/-- The way to block `n` does not use a single-indirect pointer that is zero, which the code
follows, and a hole at its end is an inner one. -/
structure InnerPath (bytes : Bytes) (fs : FsFields σ) (inode : Ext2Inode) (n : Nat) :
    Prop where
  single : ext2DirectBpAmount ≤ n → n < ext2DirectBpAmount + fs.pointers →
    inode.singleIndirectBlockPointer ≠ 0
  entry : ∀ block j, LastEntry bytes fs inode n block j → layoutEntry bytes fs block j = 0 →
    InnerHole (layoutEntry bytes fs block) fs.pointers j

variable {memory fresh : Nat → Bytes}

section

variable (mounted : Mounted fs bytes st) (tree : ∀ b, InTree bytes fs inode b → fs.Addressable b)

include tree in
theorem LastEntry.path (last : LastEntry bytes fs inode n block j) :
    PathAddressable bytes fs inode n := by
  cases last with
  | single mem lt =>
    refine ⟨fun _ _ => tree _ InTree.single, fun low => ?_⟩
    omega
  | double mem row mapped column =>
    refine ⟨fun _ high => ?_, fun _ => ⟨mem, tree _ InTree.double, ?_⟩⟩
    · omega
    · rw [(row_column column rfl).1]
      exact tree _ (InTree.indirect mem row)

include mounted

theorem Mounted.dataOffset_noDouble (low : ext2DirectBpAmount + fs.pointers ≤ n)
    (absent : inode.doubleIndirectBlockPointer = 0) (memory : Nat → Bytes)
    (fresh : Nat → Bytes) :
    ext2GetInodeDataOffset inode n fs (fun i => some (memory i)) fresh st = 0 := by
  unfold ext2GetInodeDataOffset
  rw [dif_neg (by omega), if_neg (by rw [mounted.single_bound_eq]; omega)]
  split
  · change doubleIndirect inode n fs (memory 0) (some (memory 1)) fresh st = 0
    rw [doubleIndirect, if_pos (by rw [absent]; rfl)]
  · rfl

include tree

theorem LastEntry.dataOffset (last : LastEntry bytes fs inode n block j)
    (inner : layoutEntry bytes fs block j = 0 →
      InnerHole (layoutEntry bytes fs block) fs.pointers j)
    (memory : Nat → Bytes) (fresh : Nat → Bytes) :
    let offset := ext2GetInodeDataOffset inode n fs (fun i => some (memory i)) fresh st
    let entry := layoutEntry bytes fs block
    offset = 0 ∨ entry j ≠ 0 ∧ offset = fs.blockSize * entry j ∨
      entry j = 0 ∧ offset = fs.blockSize * (missingPointer entry j).getD 0 := by
  intro offset entry
  obtain ⟨pointer, m, guess⟩ := last.layout memory
  have data := tree _ (last.entry_inTree last.inside)
  have value := mounted.dataOffset_eq (fun _ => last.path tree) (by rwa [pointer]) memory fresh
  rw [pointer, guess] at value
  split_ifs at value with reached hole
  · rw [mounted.fillGap_eq_missing (fun l lt => tree _ (last.entry_inTree lt))
      (inner hole)] at value
    exact .inr (.inr ⟨hole, value⟩)
  · exact .inr (.inl ⟨hole, value⟩)
  · exact .inl value

theorem Mounted.dataOffset_noIndirect (row : i < fs.pointers) (column : j < fs.pointers)
    (place : n = ext2DirectBpAmount + fs.pointers + (i * fs.pointers + j))
    (present : inode.doubleIndirectBlockPointer ≠ 0)
    (absent : layoutEntry bytes fs inode.doubleIndirectBlockPointer.toNat i = 0)
    (memory : Nat → Bytes) (fresh : Nat → Bytes) :
    ext2GetInodeDataOffset inode n fs (fun i => some (memory i)) fresh st = 0 := by
  obtain ⟨quotient, -⟩ := row_column column place
  have zero := tree _ (.indirect present row)
  have path : PathAddressable bytes fs inode n := by
    refine ⟨fun _ high => ?_, fun _ => ⟨present, tree _ .double, ?_⟩⟩
    · omega
    · rwa [quotient]
  have notDirect : ¬ n < ext2DirectBpAmount := by omega
  have notFirst : ¬ n < ext2DirectBpAmount + fs.pointers := by omega
  have hole : layoutPtr bytes fs inode n = 0 := by
    unfold layoutPtr
    rw [dif_neg notDirect, if_neg notFirst]
    simp only [quotient, absent, if_true]
  have guess : gapGuess bytes fs inode memory n = 0 := by
    unfold gapGuess
    rw [if_neg notDirect, if_neg notFirst]
    simp only [quotient, absent, if_true]
  rw [mounted.dataOffset_eq (fun _ => path) (by rwa [hole, ← absent]) memory fresh, hole, guess]
  simp

theorem Mounted.exists_lastEntry (low : ext2DirectBpAmount ≤ n)
    (present : n < ext2DirectBpAmount + fs.pointers →
      inode.singleIndirectBlockPointer ≠ 0)
    (found : ext2GetInodeDataOffset inode n fs (fun i => some (memory i)) fresh st ≠ 0) :
    ∃ block j, LastEntry bytes fs inode n block j := by
  by_cases first : n < ext2DirectBpAmount + fs.pointers
  · obtain ⟨j, rfl⟩ := Nat.exists_eq_add_of_le low
    exact ⟨_, j, .single (present first) (by omega)⟩
  have further := not_lt.mp first
  have lt : n < fs.reach := by
    by_contra beyond
    exact found (mounted.dataOffset_beyond further (not_lt.mp beyond) _ fresh)
  have square := reach_le fs
  obtain ⟨k, rfl⟩ := Nat.exists_eq_add_of_le further
  have row : k / fs.pointers < fs.pointers := Nat.div_lt_of_lt_mul (by omega)
  have column := Nat.mod_lt k mounted.pointers_pos
  have place := congrArg (ext2DirectBpAmount + fs.pointers + ·)
    (Nat.div_add_mod' k fs.pointers).symm
  have present : inode.doubleIndirectBlockPointer ≠ 0 := by
    intro absent
    exact found (mounted.dataOffset_noDouble further absent memory fresh)
  have mapped : layoutEntry bytes fs inode.doubleIndirectBlockPointer.toNat
      (k / fs.pointers) ≠ 0 := by
    intro absent
    exact found (mounted.dataOffset_noIndirect tree row column place present absent memory fresh)
  have last := LastEntry.double present row mapped column
  rw [← place] at last
  exact ⟨_, _, last⟩

theorem LastEntry.occurs (last : LastEntry bytes fs inode n block j)
    (inner : layoutEntry bytes fs block j = 0 →
      InnerHole (layoutEntry bytes fs block) fs.pointers j)
    (found : ext2GetInodeDataOffset inode n fs (fun i => some (memory i)) fresh st ≠ 0) :
    ∃ b, ext2GetInodeDataOffset inode n fs (fun i => some (memory i)) fresh st = fs.blockSize * b ∧
      (InTree bytes fs inode b ∨ layoutEntry bytes fs block j = 0 ∧
        missingPointer (layoutEntry bytes fs block) j = some b) := by
  rcases last.dataOffset mounted tree inner memory fresh with
    zero | ⟨-, mapped⟩ | ⟨hole, filled⟩
  · exact absurd zero found
  · exact ⟨_, mapped, .inl (last.entry_inTree last.inside)⟩
  cases missing : missingPointer (layoutEntry bytes fs block) j with
  | none =>
    rw [missing] at filled
    exact absurd filled found
  | some b =>
    rw [missing] at filled
    exact ⟨b, filled, .inr ⟨hole, rfl⟩⟩

theorem LastEntry.reads_inside (last : LastEntry bytes fs inode n block j)
    (inner : layoutEntry bytes fs block j = 0 →
      InnerHole (layoutEntry bytes fs block) fs.pointers j) {memory : Bytes}
    (read : idx ∈ handleIndirectBpReads block j fs (some memory) fresh st) :
    idx < fs.pointers := by
  have lt := last.inside
  rw [handleIndirectBpReads, mounted.read_block (tree _ last.block_inTree)] at read
  by_cases hole : layoutEntry bytes fs block j = 0
  · obtain ⟨high, low⟩ := inner hole
    rw [← mounted.pointerAt_loadedBlock memory block (by omega),
      ← mounted.pointerAt_loadedBlock memory block high] at low
    exact indirectReads_inside mounted.pointers_lt high low read
  have product : mul32 (pointerAt (loadedBlock bytes fs memory block) j) fs.blockSize ≠
      0 := by
    rw [mounted.pointerAt_loadedBlock memory block lt,
      mounted.mul_blockSize (tree _ (last.entry_inTree lt))]
    exact Nat.mul_ne_zero mounted.pos.ne' hole
  rw [indirectReads, if_neg product, mem_singleton] at read
  rwa [read]

theorem Mounted.dataOffset_direct_eq (direct : n < ext2DirectBpAmount)
    (kmalloc : Nat → Option Bytes) (fresh : Nat → Bytes) :
    ext2GetInodeDataOffset inode n fs kmalloc fresh st =
      fs.blockSize * (inode.directBlockPointer ⟨n, direct⟩).toNat := by
  have pointer : layoutPtr bytes fs inode n =
      (inode.directBlockPointer ⟨n, direct⟩).toNat := dif_pos direct
  have addressable := tree _ (.direct ⟨n, direct⟩)
  rw [← pointer] at addressable ⊢
  exact mounted.dataOffset_direct direct addressable kmalloc fresh

/-- On an inner path a hole is kept, or filled where a pointer seems to be missing, and only
entries of the block of pointers are read. -/
theorem dataOffset_holes_or_gaps (inner : InnerPath bytes fs inode n) (memory : Nat → Bytes)
    (fresh : Nat → Bytes) :
    HolesOrGaps bytes fs inode n
        (ext2GetInodeDataOffset inode n fs (fun i => some (memory i)) fresh st) ∧
      ∀ block j, LastEntry bytes fs inode n block j → ∀ m f,
        ∀ idx ∈ handleIndirectBpReads block j fs (some m) f st, idx < fs.pointers := by
  constructor
  · constructor
    case direct =>
      intro direct zero
      rw [mounted.dataOffset_direct_eq tree direct, zero]
      rfl
    case double =>
      intro low absent
      exact mounted.dataOffset_noDouble low absent memory fresh
    case indirect =>
      intro i j row column place mem absent
      exact mounted.dataOffset_noIndirect tree row column place mem absent memory fresh
    case entry =>
      intro block j last hole none
      rcases last.dataOffset mounted tree (inner.entry block j last) memory fresh with
        zero | ⟨mapped, -⟩ | ⟨-, kept⟩
      · exact zero
      · exact absurd hole mapped
      · rw [kept, none]
        rfl
    case occurs =>
      intro found
      by_cases direct : n < ext2DirectBpAmount
      · exact ⟨_, mounted.dataOffset_direct_eq tree direct _ fresh, .inl (.direct _)⟩
      have low := not_lt.mp direct
      obtain ⟨block, j, last⟩ := mounted.exists_lastEntry tree low (inner.single low) found
      obtain ⟨b, offset, origin⟩ := last.occurs mounted tree (inner.entry block j last) found
      refine ⟨b, offset, ?_⟩
      rcases origin with occurs | ⟨hole, missing⟩
      · exact .inl occurs
      · exact .inr ⟨block, j, last, hole, missing⟩
  · intro block j last m f idx read
    exact last.reads_inside mounted tree (inner.entry block j last) read

end

/-- The entries 1 and 3 of block 20 are 50 and 52. -/
def gapDisk : Bytes := fun x => if x = 1069060 then 50 else if x = 1069068 then 52 else 0

def gapInode : Ext2Inode := ⟨fun _ => 0, 20, 0⟩

theorem gapDisk_entry (j : Nat) :
    layoutEntry gapDisk smallFs 20 j = if j = 1 then 50 else if j = 3 then 52 else 0 := by
  have place : layoutEntry gapDisk smallFs 20 j = load32 gapDisk (1069056 + j * 4) := rfl
  have odd (x : Nat) (low : 0 < x) (high : x < 4) : gapDisk (1069056 + j * 4 + x) = 0 := by
    rw [gapDisk, if_neg (by omega), if_neg (by omega)]
  rw [place, load32, odd 1 (by decide) (by decide), odd 2 (by decide) (by decide),
    odd 3 (by decide) (by decide), gapDisk]
  by_cases first : j = 1
  · subst first
    rfl
  by_cases third : j = 3
  · subst third
    rfl
  rw [if_neg first, if_neg third, if_neg (by omega), if_neg (by omega)]
  rfl

variable {b : Nat}

theorem gapInode_blocks (occurs : InTree gapDisk smallFs gapInode b) :
    b = 0 ∨ b = 20 ∨ b = 50 ∨ b = 52 := by
  cases occurs with
  | direct k => exact .inl rfl
  | single => exact .inr (.inl rfl)
  | double => exact .inl rfl
  | @ofSingle _ j _ =>
    rw [show layoutEntry gapDisk smallFs gapInode.singleIndirectBlockPointer.toNat j = _ from
      gapDisk_entry j]
    split_ifs <;> decide
  | indirect mem _ => exact absurd rfl mem
  | ofIndirect mem _ _ _ => exact absurd rfl mem

theorem gapInode_addressable (occurs : InTree gapDisk smallFs gapInode b) :
    smallFs.Addressable b := by
  have blocks := gapInode_blocks occurs
  change 1048576 + (b + 1) * 1024 ≤ 2 ^ 32
  omega

theorem dataOffset_gapDisk_kept :
    ext2GetInodeDataOffset gapInode 17 smallFs (fun _ => some fun _ => 0) (fun _ _ => 0)
      gapDisk = 0 := by
  have inner : InnerPath gapDisk smallFs gapInode 17 := by
    refine ⟨fun _ _ => by decide, fun block j last _ => ?_⟩
    obtain ⟨rfl, place⟩ := last.of_single (by decide)
    obtain rfl : j = 5 := by
      change 17 = 12 + j at place
      omega
    refine ⟨by decide, .inl ?_⟩
    exact ⟨gapDisk_entry 6, gapDisk_entry 7⟩
  have holes := (dataOffset_holes_or_gaps (smallFs_readable gapDisk).mounted
    (fun _ => gapInode_addressable) inner (fun _ _ => 0) fun _ _ => 0).1
  refine holes.entry 20 5 (.single (j := 5) (by decide) (by decide)) (gapDisk_entry 5) ?_
  have next : layoutEntry gapDisk smallFs 20 6 = 0 := gapDisk_entry 6
  have second : layoutEntry gapDisk smallFs 20 7 = 0 := gapDisk_entry 7
  rw [missingPointer, if_pos ⟨next, second⟩]

/-- Entry 2, zero between 50 and 52, leads to block 51, which no pointer refers to. Looking at a
hole in the last entry reads behind the block, and a single-indirect pointer that is zero is
followed to block 0. -/
theorem dataOffset_gapDisk_filled :
    (layoutEntry gapDisk smallFs 20 2 = 0 ∧ ¬ InTree gapDisk smallFs gapInode 51 ∧
      ext2GetInodeDataOffset gapInode 14 smallFs (fun _ => some fun _ => 0) (fun _ _ => 0)
        gapDisk = 1024 * 51) ∧
    256 ∈ handleIndirectBpReads 20 255 smallFs (some fun _ => 0) (fun _ _ => 0) gapDisk ∧
    ext2GetInodeDataOffset ⟨fun _ => 0, 0, 0⟩ 12 smallFs (fun _ => some fun _ => 0)
      (fun _ _ => 0) (fun x => if x = 1048576 then 5 else 0) = 1024 * 5 := by
  refine ⟨⟨gapDisk_entry 2, ?_, by decide +kernel⟩, by decide +kernel, by decide +kernel⟩
  intro occurs
  have blocks := gapInode_blocks occurs
  omega

end Yanix.Fs
