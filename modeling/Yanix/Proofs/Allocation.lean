/-
Module: Yanix.Proofs.Allocation
Purpose: A call of an ext2 allocator answers with the position of the first clear bit of its
  bitmap; `_ext2_create_inode` leaves a record without block pointers.
-/
import Yanix.Foundation.Loops
import Yanix.Proofs.FileRoundTrip

namespace Yanix.Fs

open Foundation Drivers List Option Function

variable {σ : Type*} {fsInfo : Ext2Fs σ} {bytes : σ → Bytes} {st : σ}

section

theorem findClear_eq (bitmap : Bytes) (blockSize : Nat) : findClear bitmap blockSize =
      ((words32 bitmap).firstClear (blockSize / 4)).map fun k => (k / 32, k % 32) := by
  unfold findClear Words.firstClear
  rw [map_findSome?]
  congr 1
  funext i
  have bits : ((List.range 32).find? fun j => Libk.getbit (words32 bitmap i) j = 0#32) =
      Words.firstClearBit (words32 bitmap i) := by
    apply find?_congr
    intro j mem
    have lt : j < 32 := mem_range.mp mem
    rw [decide_eq_decide, Libk.getbit_eq_zero_iff _ lt, Words.masked_eq_zero_iff _ lt]
  rw [comp_apply, bits]
  split
  · next partly =>
      rw [if_pos (show words32 bitmap i ≠ BitVec.allOnes 32 from partly), Option.map_map]
      cases found : Words.firstClearBit (words32 bitmap i) with
      | none => rfl
      | some j =>
        have lt : j < 32 := mem_range.mp (mem_of_find?_eq_some found)
        have word : (i * 32 + j) / 32 = i := by omega
        have bit : (i * 32 + j) % 32 = j := by omega
        simp only [map_some, comp_apply, word, bit]
  · next full =>
      rw [if_neg (show ¬ words32 bitmap i ≠ BitVec.allOnes 32 from full)]
      rfl

variable {bitmap : Bytes} {blockSize : Nat}

theorem findClear_eq_some {i j : Nat} (words : 4 ∣ blockSize)
    (found : findClear bitmap blockSize = some (i, j)) :
    j < 32 ∧ i * 32 + j < 8 * blockSize ∧ bitAt bitmap (i * 32 + j) = false ∧
      ∀ l < i * 32 + j, bitAt bitmap l = true := by
  rw [findClear_eq, map_eq_some_iff] at found
  obtain ⟨k, search, parts⟩ := found
  obtain ⟨lt, clear, least⟩ := Words.firstClear_eq_some search
  cases parts
  rw [Nat.div_add_mod']
  refine ⟨Nat.mod_lt _ (by decide), by omega, ?_, ?_⟩
  · rwa [words32_mem] at clear
  intro l less
  have set := least l less
  rwa [words32_mem] at set

theorem findClear_eq_none (words : 4 ∣ blockSize) (none : findClear bitmap blockSize = none) :
    ∀ l < 8 * blockSize, bitAt bitmap l = true := by
  rw [findClear_eq, map_eq_none_iff, Words.firstClear_eq_none] at none
  intro l lt
  have set := none l (by omega)
  rwa [words32_mem] at set

variable {read : Nat → Bytes → Bytes}

/-- The loop over the groups from group `bgd` on, when all groups before it are
full.  `bitmap g` is what reading the bitmap of group `g` delivers. -/
theorem allocFromBitmaps_cases (location : Nat → Nat) {fs : FsFields σ}
    (bitmap : Nat → Bytes) (words : 4 ∣ fs.blockSize)
    (reads : ∀ g buf, read g buf = blit buf 0 (bitmap g) 0 fs.blockSize) (sectors : Nat → Bytes)
    (st : σ) (rounds bgd : Nat) (buffer : Bytes)
    (full : ∀ h < bgd, ∀ l < 8 * fs.blockSize, bitAt (bitmap h) l = true) :
    (∃ g k buf, FirstFree bitmap (bgd + rounds) fs.blockSize g k ∧
        (∀ x < fs.blockSize, buf x = setBit (bitmap g) k x) ∧
        allocFromBitmaps location read fs sectors st rounds bgd buffer =
          (k % 2 ^ 32, (diskWrite (location g) buf fs.blockSize fs.diskInfo sectors st).2)) ∨
      ((∀ g k, ¬ FirstFree bitmap (bgd + rounds) fs.blockSize g k) ∧
        allocFromBitmaps location read fs sectors st rounds bgd buffer = (0, st)) := by
  induction rounds generalizing bgd buffer with
  | zero =>
    right
    refine ⟨fun g k first => ?_, rfl⟩
    have set := full g first.group k first.bit
    rw [first.clear] at set
    cases set
  | succ rounds ih =>
    have view (l : Nat) (lt : l < 8 * fs.blockSize) :
        bitAt (read bgd buffer) l = bitAt (bitmap bgd) l := by
      rw [reads, bitAt_blit, if_pos (by omega)]
      congr 1
      omega
    simp only [allocFromBitmaps]
    cases search : findClear (read bgd buffer) fs.blockSize with
    | some position =>
      obtain ⟨i, j⟩ := position
      obtain ⟨bit, bound, clear, least⟩ := findClear_eq_some words search
      left
      refine ⟨bgd, i * 32 + j, setBit (read bgd buffer) (i * 32 + j), ?_, ?_, ?_⟩
      · exact {
          group := by omega
          bit := bound
          clear := by rw [← view _ bound, clear]
          least := fun l less => by rw [← view l (by omega), least l less]
          full := full }
      · intro x lt
        apply setBit_congr
        rw [reads, blit_apply_of_mem _ _ _ _ _ (Nat.zero_le x) (by omega)]
        congr 1
        omega
      · have number : add32 (mul32 i 32) j = (i * 32 + j) % 2 ^ 32 := by
          unfold add32 mul32
          omega
        simp only [store32_or_bit _ _ bit, number]
    | none =>
      have set := findClear_eq_none words search
      have fullNext : ∀ h < bgd + 1, ∀ l < 8 * fs.blockSize, bitAt (bitmap h) l = true := by
        intro h before l lt
        rcases Nat.lt_succ_iff_lt_or_eq.mp before with earlier | rfl
        · exact full h earlier l lt
        · rw [← view l lt, set l lt]
      have rest := ih (bgd + 1) (read bgd buffer) fullNext
      rw [show bgd + 1 + rounds = bgd + (rounds + 1) by omega] at rest
      simpa only [search] using rest

/-! ## Bitmaps on the disk -/

/-- What the block allocator takes for the bitmap of a group. -/
def blockBitmapView (fsInfo : Ext2Fs σ) (disk : Bytes) (g : Nat) : Bytes :=
  suffix disk (blockBitmapLocation fsInfo g)

/-- What the inode allocator takes for the bitmap of a group. -/
def inodeBitmapView (fsInfo : Ext2Fs σ) (disk : Bytes) (g : Nat) : Bytes :=
  suffix disk (add32 (inodeBitmapLocation fsInfo g) fsInfo.partstart)

variable {offset : Nat}

namespace Ext2Image

variable (image : Ext2Image fsInfo bytes)

include image

theorem mul32_sector (a : Nat) : mul32 a fsInfo.blockSize % 512 = 0 := by
  have whole : 512 ∣ a * fsInfo.blockSize := Nat.dvd_mul_left_of_dvd image.sector_dvd_blockSize a
  unfold mul32
  rw [Nat.mod_mod_of_dvd _ (by decide)]
  exact Nat.mod_eq_zero_of_dvd whole

theorem add32_sector (aligned : offset % 512 = 0) : add32 offset fsInfo.partstart % 512 = 0 := by
  have start := image.start
  unfold add32
  omega

theorem words_dvd : 4 ∣ fsInfo.blockSize := dvd_trans (by decide) image.sector_dvd_blockSize

theorem read_block (lt : offset < 2 ^ 32) (aligned : offset % 512 = 0) (buffer : Bytes)
    (fresh : Nat → Bytes) (st : σ) :
    (diskRead offset buffer fsInfo.blockSize fsInfo.diskInfo fresh st).buf =
      blit buffer 0 (suffix (bytes st) offset) 0 fsInfo.blockSize := by
  have sector := image.sector
  rw [blit_suffix]
  exact (diskRead_aligned (image.transfers.read st) (by omega) lt image.blockSize_lt
    (by rwa [sector]) buffer fresh).1

theorem write_block (small : offset < 2 ^ 32) (aligned : offset % 512 = 0) {buf block : Bytes}
    (same : ∀ x < fsInfo.blockSize, buf x = block x) (fresh : Nat → Bytes) (st : σ) :
    bytes (diskWrite offset buf fsInfo.blockSize fsInfo.diskInfo fresh st).2 =
      blit (bytes st) offset block 0 fsInfo.blockSize := by
  have sector := image.sector
  rw [diskWrite_aligned image.transfers (by omega) small image.blockSize_lt (by rwa [sector]) fresh
    st buf]
  exact blit_congr _ _ fun x lt => by simpa using same x lt

/-- A call of either allocator.  `view g` is the block that it reads as the bitmap of group `g`;
the changed copy goes to `location g`. -/
theorem alloc_cases {location : Nat → Nat} (small : ∀ g, location g < 2 ^ 32)
    (aligned : ∀ g, location g % 512 = 0) {view : Nat → Bytes}
    (reads : ∀ g buf, read g buf = blit buf 0 (view g) 0 fsInfo.blockSize) (sectors : Nat → Bytes)
    (st : σ) (amount : Nat) (buffer : Bytes) {ret : Nat × σ}
    (call : allocFromBitmaps location read fsInfo.toFsFields sectors st amount 0 buffer =
      ret) :
    (∃ g k, FirstFree view amount fsInfo.blockSize g k ∧ ret.1 = k % 2 ^ 32 ∧ bytes ret.2 =
          blit (bytes st) (location g) (setBit (view g) k) 0 fsInfo.blockSize) ∨
      ((∀ g k, ¬ FirstFree view amount fsInfo.blockSize g k) ∧ ret = (0, st)) := by
  have outcome := allocFromBitmaps_cases location view image.words_dvd reads sectors st amount 0
    buffer (fun h lt => absurd lt (Nat.not_lt_zero h))
  rw [Nat.zero_add, call] at outcome
  rcases outcome with ⟨g, k, buf, first, same, rfl⟩ | ⟨none, rfl⟩
  · exact .inl ⟨g, k, first, rfl, image.write_block (small g) (aligned g) same sectors st⟩
  · exact .inr ⟨none, rfl⟩

theorem allocBlock_cases (memory : AllocMemory) (st : σ) :
    (∃ g k, FirstFree (blockBitmapView fsInfo (bytes st)) (bgdAmount fsInfo) fsInfo.blockSize g k ∧
        (ext2AllocBlock fsInfo memory st).1 = k % 2 ^ 32 ∧
        bytes (ext2AllocBlock fsInfo memory st).2 =
          setBit (bytes st) (8 * blockBitmapLocation fsInfo g + k)) ∨
      ((∀ g k, ¬ FirstFree (blockBitmapView fsInfo (bytes st)) (bgdAmount fsInfo)
          fsInfo.blockSize g k) ∧
        ext2AllocBlock fsInfo memory st = (0, st)) := by
  have lt (g : Nat) : blockBitmapLocation fsInfo g < 2 ^ 32 := Nat.mod_lt _ (by decide)
  have aligned (g : Nat) : blockBitmapLocation fsInfo g % 512 = 0 := image.mul32_sector _
  have outcome := image.alloc_cases lt aligned
    (fun g buf => image.read_block (lt g) (aligned g) buf (memory.readSectors g) st)
    memory.writeSectors st (bgdAmount fsInfo) memory.bitmap rfl
  rcases outcome with ⟨g, k, first, ret, disk⟩ | none
  · exact .inl ⟨g, k, first, ret, disk.trans (blit_setBit_suffix _ _ first.bit)⟩
  · exact .inr none

theorem allocInode_cases (memory : AllocMemory) (st : σ) :
    (∃ g k, FirstFree (inodeBitmapView fsInfo (bytes st)) (bgdAmount fsInfo) fsInfo.blockSize g k ∧
        (ext2AllocInode fsInfo memory st).1 = k % 2 ^ 32 ∧
        bytes (ext2AllocInode fsInfo memory st).2 = blit (bytes st) (inodeBitmapLocation fsInfo g)
            (setBit (inodeBitmapView fsInfo (bytes st) g) k) 0 fsInfo.blockSize) ∨
      ((∀ g k, ¬ FirstFree (inodeBitmapView fsInfo (bytes st)) (bgdAmount fsInfo)
          fsInfo.blockSize g k) ∧
        ext2AllocInode fsInfo memory st = (0, st)) := by
  have aligned (g : Nat) : inodeBitmapLocation fsInfo g % 512 = 0 := image.mul32_sector _
  exact image.alloc_cases (fun g => Nat.mod_lt _ (by decide)) aligned
    (fun g buf => image.read_block (add32_lt ..) (image.add32_sector (aligned g)) buf
      (memory.readSectors g) st)
    memory.writeSectors st (bgdAmount fsInfo) memory.bitmap rfl

end Ext2Image

/-- What a call that answers `r` has to do to the disk: zero hands out nothing, any other number was
free in its own bitmap before and is taken after. -/
def HandsOut (Valid : Nat → Prop) (own : Nat → Nat) (before : Bytes) (r : Nat)
    (after : Bytes) : Prop :=
  if r = 0 then after = before
  else Valid r ∧ bitAt before (own r) = false ∧ bitAt after (own r) = true ∧
    ∀ x, x ≠ own r / 8 → after x = before x

theorem handsOut_zero (Valid : Nat → Prop) (own : Nat → Nat) (disk : Bytes) :
    HandsOut Valid own disk 0 disk := by
  rw [HandsOut, if_pos rfl]

variable {disk : Bytes}

theorem handsOut_setBit_iff {Valid : Nat → Prop} {own : Nat → Nat} {p : Nat}
    (clear : bitAt disk p = false) (r : Nat) :
    HandsOut Valid own disk r (setBit disk p) ↔ r ≠ 0 ∧ Valid r ∧ own r = p := by
  unfold HandsOut
  by_cases zero : r = 0
  · rw [if_pos zero]
    exact iff_of_false (setBit_ne_self clear) fun real => real.1 zero
  rw [if_neg zero]
  constructor
  · rintro ⟨valid, free, taken, -⟩
    rw [bitAt_setBit, free, Bool.or_false, decide_eq_true_iff] at taken
    exact ⟨zero, valid, taken⟩
  · rintro ⟨-, valid, rfl⟩
    refine ⟨valid, clear, ?_, fun x ne => setBit_apply_of_ne disk ne⟩
    rw [bitAt_setBit, decide_eq_true rfl, Bool.true_or]

/-! ## Blocks -/

/-- The number of a block of the file system that some group's bitmap covers. -/
def ValidBlock (fsInfo : Ext2Fs σ) (b : Nat) : Prop :=
  fsInfo.superblock.blockNumberOfSuperblock.toNat ≤ b ∧ b < fsInfo.superblock.totalBlocks.toNat

/-- The bit of a block in the bitmap of its own group, on the disk. -/
def ownBlockBit (fsInfo : Ext2Fs σ) (b : Nat) : Nat :=
  let index := b - fsInfo.superblock.blockNumberOfSuperblock.toNat
  let group := index / fsInfo.superblock.blocksInBlockgroup.toNat
  8 * (fsInfo.partstart + (fsInfo.blockgroupList group).blockBitmap.toNat * fsInfo.blockSize) +
    index % fsInfo.superblock.blocksInBlockgroup.toNat

/-- If some bit is clear where the allocator looks for bitmaps, the first one is
the own bit of the block with the number of its position. -/
def FirstFreeIsOwn (fsInfo : Ext2Fs σ) (disk : Bytes) : Prop :=
  ∀ g k, FirstFree (blockBitmapView fsInfo disk) (bgdAmount fsInfo) fsInfo.blockSize g k →
    k % 2 ^ 32 ≠ 0 ∧ ValidBlock fsInfo (k % 2 ^ 32) ∧
      ownBlockBit fsInfo (k % 2 ^ 32) = 8 * blockBitmapLocation fsInfo g + k

/-- A sequence of `n` calls. -/
def blockAllocations (fsInfo : Ext2Fs σ) (memory : Nat → AllocMemory) (n : Nat) (st : σ) :
    List (Call σ Nat) :=
  calls (fun i => ext2AllocBlock fsInfo (memory i)) 0 n st

theorem bitAt_blockBitmapView (disk : Bytes) (g k : Nat) :
    bitAt (blockBitmapView fsInfo disk g) k =
      bitAt disk (8 * blockBitmapLocation fsInfo g + k) := bitAt_suffix ..

theorem Ext2Image.allocBlock_grows (image : Ext2Image fsInfo bytes) (memory : AllocMemory) (st : σ)
    (p : Nat) (set : bitAt (bytes st) p = true) :
    bitAt (bytes (ext2AllocBlock fsInfo memory st).2) p = true := by
  rcases image.allocBlock_cases memory st with ⟨g, k, first, ret, disk⟩ | ⟨none, result⟩
  · rw [disk, bitAt_setBit, set, Bool.or_true]
  · rw [result, set]

/-- Calls hand out different blocks that were free, each by its own bit, exactly if every call finds
a bit that is its block's own. -/
theorem allocBlock_fresh_iff (image : Ext2Image fsInfo bytes) (memory : Nat → AllocMemory)
    (n : Nat) (st : σ) :
    (∀ call ∈ blockAllocations fsInfo memory n st, HandsOut (ValidBlock fsInfo)
        (ownBlockBit fsInfo) (bytes call.before) call.ret (bytes call.after)) ∧
      (blockAllocations fsInfo memory n st).Pairwise
        (fun a b => a.ret ≠ 0 → b.ret ≠ 0 → a.ret ≠ b.ret) ↔
      ∀ call ∈ blockAllocations fsInfo memory n st, FirstFreeIsOwn fsInfo (bytes call.before) := by
  have single : ∀ call ∈ blockAllocations fsInfo memory n st,
      HandsOut (ValidBlock fsInfo) (ownBlockBit fsInfo) (bytes call.before) call.ret
        (bytes call.after) ↔ FirstFreeIsOwn fsInfo (bytes call.before) := by
    intro call mem
    obtain ⟨j, result⟩ := calls_spec call mem
    have step : HandsOut (ValidBlock fsInfo) (ownBlockBit fsInfo) (bytes call.before)
        (ext2AllocBlock fsInfo (memory j) call.before).1 (bytes (ext2AllocBlock fsInfo (memory j)
        call.before).2) ↔ FirstFreeIsOwn fsInfo (bytes call.before) := by
      rcases image.allocBlock_cases (memory j) call.before with ⟨g, k, first, ret, disk⟩ | ⟨none,
        result⟩
      · have clear := first.clear
        rw [bitAt_blockBitmapView] at clear
        rw [ret, disk, handsOut_setBit_iff clear]
        constructor
        · intro own g' k' ne
          obtain ⟨rfl, rfl⟩ := first.unique ne
          exact own
        · intro own
          exact own g k first
      · rw [result]
        exact iff_of_true (handsOut_zero ..) fun g k first => (none g k first).elim
    rwa [result] at step
  constructor
  · intro fresh call mem
    exact (single call mem).mp (fresh.1 call mem)
  · intro own
    have handsOut := fun call mem => (single call mem).mpr (own call mem)
    refine ⟨handsOut, ?_⟩
    -- the own bits of the blocks handed out so far are set
    apply calls_distinct (fun st r => bitAt (bytes st) (ownBlockBit fsInfo r) = true)
      (fun r => r ≠ 0)
    · intro call mem r taken
      obtain ⟨j, result⟩ := calls_spec call mem
      have grown := image.allocBlock_grows (memory j) call.before _ taken
      rwa [result] at grown
    intro call mem real
    have fresh := handsOut call mem
    rw [HandsOut, if_neg real] at fresh
    exact ⟨by simp [fresh.2.1], fresh.2.2.1⟩

/-- Blocks of 4096 bytes, so that blocks are counted from zero, on a disk without
partitions. -/
def wideExt2 : Ext2Fs Bytes where
  blockSize := 4096
  partstart := 0
  diskInfo := sectorDisk 512
  superblock := ⟨32, 64, 0, 32768, 32, 1, 128⟩
  blockgroupList := fun _ => ⟨3, 4, 5⟩

theorem wideExt2_image : Ext2Image wideExt2 id where
  transfers := sectorDisk_transfers 512
  counted := fun _ _ _ _ _ => rfl
  sector := rfl
  start := dvd_zero 512
  blockSize := ⟨2, rfl⟩
  blockSize_lt := (by decide : 4096 < 2 ^ 32)
  inodeSize := ⟨7, by decide, rfl⟩
  inodeSize_le := (by decide : 128 ≤ 4096)
  groups := (by decide : 0 < 32)

def zeroMemory : AllocMemory := ⟨fun _ => 0, fun _ _ _ => 0, fun _ _ => 0⟩

variable {k : Nat}

theorem wideExt2_firstFreeIsOwn (real : k ≠ 0) (low : k < 64)
    (clear : bitAt disk (98304 + k) = false) (least : ∀ j < k, bitAt disk (98304 + j) = true) :
    FirstFreeIsOwn wideExt2 disk := by
  have first : FirstFree (blockBitmapView wideExt2 disk) (bgdAmount wideExt2) 4096 0 k := {
    group := by decide
    bit := by omega
    clear := (bitAt_blockBitmapView disk 0 k).trans clear
    least := fun j less => (bitAt_blockBitmapView disk 0 j).trans (least j less)
    full := fun h lt => by omega }
  intro g k' ne
  obtain ⟨rfl, rfl⟩ := first.unique ne
  rw [Nat.mod_eq_of_lt (by omega)]
  refine ⟨real, ⟨Nat.zero_le k, low⟩, ?_⟩
  change 8 * (0 + 3 * 4096) + k % 32768 = 8 * (3 * 4096 % 2 ^ 32) + k
  omega

theorem allocBlock_wideExt2 : let disk : Bytes := fun x => if x = 12288 then 0x3F else 0
    let run := blockAllocations wideExt2 (fun _ => zeroMemory) 2 disk
    run.map Call.ret = [6, 7] ∧
      (∀ call ∈ run, HandsOut (ValidBlock wideExt2) (ownBlockBit wideExt2) call.before call.ret
        call.after) ∧
      run.Pairwise fun a b => a.ret ≠ 0 → b.ret ≠ 0 → a.ret ≠ b.ret := by
  intro disk run
  refine ⟨by decide +kernel, (allocBlock_fresh_iff wideExt2_image (fun _ => zeroMemory)
    2 disk).mpr ?_⟩
  intro call mem
  rcases mem_cons.mp mem with rfl | later
  · exact wideExt2_firstFreeIsOwn (k := 6) (by decide) (by decide) (by decide) (by decide)
  obtain rfl := mem_singleton.mp later
  exact wideExt2_firstFreeIsOwn (k := 7) (by decide) (by decide) (by decide +kernel)
    (by decide +kernel)

/-- Blocks of 1024 bytes are counted from one. On a disk without partitions whose first forty bits
are set, position 40 is the bit of block 41, and block 40, which the call hands out, is in use. In a
partition the bits are not looked for there, and two disks that differ in it are treated alike. -/
theorem allocBlock_in_use : Ext2Image (smallExt2 0) id ∧ Ext2Image farExt2 id ∧
    (let disk : Bytes := fun x => if 3072 ≤ x ∧ x < 3077 then 0xFF else 0
     (ext2AllocBlock (smallExt2 0) zeroMemory disk).1 = 40 ∧
       bitAt disk (ownBlockBit (smallExt2 0) 40) = true) ∧
    (let disk : Bytes := fun x => if x = 1051648 then 0xFF else if x = 3072 then 1 else 0
     (ext2AllocBlock farExt2 zeroMemory disk).1 = 1 ∧
       bitAt disk (ownBlockBit farExt2 1) = true) :=
  ⟨smallExt2_image (by decide), smallExt2_image (by decide), by decide +kernel, by decide +kernel⟩

/-! ## Inodes -/

/-- The bit of an inode in the bitmap of its own group, on the disk. -/
def ownInodeBit (fsInfo : Ext2Fs σ) (i : Nat) : Nat := 8 * (fsInfo.partstart +
    (fsInfo.blockgroupList (inodeGroup fsInfo i)).inodeBitmap.toNat * fsInfo.blockSize) +
    inodeIndex fsInfo i

/-- The inode bitmaps have disk offsets below 2^32. -/
def InodeBitmapsAddressable (fsInfo : Ext2Fs σ) : Prop := ∀ g < bgdAmount fsInfo, fsInfo.partstart +
    (fsInfo.blockgroupList g).inodeBitmap.toNat * fsInfo.blockSize < 2 ^ 32

/-- The bits of a bitmap block that belong to no inode are set, as the format
wants it. -/
def InodeBitmapsPadded (fsInfo : Ext2Fs σ) (disk : Bytes) : Prop :=
  ∀ g < bgdAmount fsInfo, ∀ p, fsInfo.superblock.inodesInBlockgroup.toNat ≤ p →
    p < 8 * fsInfo.blockSize → bitAt (inodeBitmapView fsInfo disk g) p = true

/-- If some inode is free, the first one is the first of its group, and the block
that the allocator overwrites already is the bitmap with this inode taken. -/
def NothingToWrite (fsInfo : Ext2Fs σ) (disk : Bytes) : Prop :=
  ∀ g k, FirstFree (inodeBitmapView fsInfo disk) (bgdAmount fsInfo) fsInfo.blockSize g k →
    k = 0 ∧ ∀ x < fsInfo.blockSize,
      disk (inodeBitmapLocation fsInfo g + x) = setBit (inodeBitmapView fsInfo disk g) 0 x

/-- A sequence of `n` calls. -/
def inodeAllocations (fsInfo : Ext2Fs σ) (memory : Nat → AllocMemory) (n : Nat) (st : σ) :
    List (Call σ Nat) :=
  calls (fun i => ext2AllocInode fsInfo (memory i)) 0 n st

variable {g : Nat}

theorem bitAt_inodeBitmapView (addressable : InodeBitmapsAddressable fsInfo) (disk : Bytes)
    (group : g < bgdAmount fsInfo) (k : Nat) :
    bitAt (inodeBitmapView fsInfo disk g) k = bitAt disk (8 * (fsInfo.partstart +
        (fsInfo.blockgroupList g).inodeBitmap.toNat * fsInfo.blockSize) + k) := by
  have lt := addressable g group
  have location : add32 (inodeBitmapLocation fsInfo g) fsInfo.partstart = fsInfo.partstart +
      (fsInfo.blockgroupList g).inodeBitmap.toNat * fsInfo.blockSize := by
    unfold inodeBitmapLocation
    rw [mul32_of_lt (by omega), add32_of_lt (by omega), add_comm]
  rw [← location]
  exact bitAt_suffix ..

theorem inGroup_of_padded (padded : InodeBitmapsPadded fsInfo disk)
    (first : FirstFree (inodeBitmapView fsInfo disk) (bgdAmount fsInfo) fsInfo.blockSize g k) :
    k < fsInfo.superblock.inodesInBlockgroup.toNat := by
  by_contra away
  have set := padded g first.group k (not_lt.mp away) first.bit
  rw [first.clear] at set
  cases set

theorem ownInodeBit_taken (addressable : InodeBitmapsAddressable fsInfo)
    (padded : InodeBitmapsPadded fsInfo disk)
    (first : FirstFree (inodeBitmapView fsInfo disk) (bgdAmount fsInfo) fsInfo.blockSize g k)
    (real : k ≠ 0) : bitAt disk (ownInodeBit fsInfo k) = true := by
  have group := first.group
  have lt := first.bit
  have inGroup := inGroup_of_padded padded first
  have firstGroup : inodeGroup fsInfo k = 0 := Nat.div_eq_of_lt (by omega)
  have index : inodeIndex fsInfo k = k - 1 := Nat.mod_eq_of_lt (by omega)
  have set : bitAt (inodeBitmapView fsInfo disk 0) (k - 1) = true := by
    by_cases zero : g = 0
    · have least := first.least (k - 1) (by omega)
      rwa [zero] at least
    · exact first.full 0 (by omega) (k - 1) (by omega)
  rwa [bitAt_inodeBitmapView addressable disk (by omega), ← firstGroup, ← index] at set

theorem Ext2Image.allocInode_idle (image : Ext2Image fsInfo bytes) (memory : AllocMemory)
    (nothing : NothingToWrite fsInfo (bytes st)) :
    (ext2AllocInode fsInfo memory st).1 = 0 ∧
      bytes (ext2AllocInode fsInfo memory st).2 = bytes st := by
  rcases image.allocInode_cases memory st with ⟨g, k, first, ret, disk⟩ | ⟨none, result⟩
  · obtain ⟨rfl, same⟩ := nothing g k first
    rw [disk, blit_eq_self_iff]
    exact ⟨ret, same⟩
  · rw [result]
    exact ⟨rfl, rfl⟩

theorem Ext2Image.allocInode_handsOut_iff (image : Ext2Image fsInfo bytes)
    (addressable : InodeBitmapsAddressable fsInfo) (memory : AllocMemory)
    (padded : InodeBitmapsPadded fsInfo (bytes st)) :
    HandsOut (ValidInode fsInfo) (ownInodeBit fsInfo) (bytes st)
        (ext2AllocInode fsInfo memory st).1 (bytes (ext2AllocInode fsInfo memory st).2) ↔
      NothingToWrite fsInfo (bytes st) := by
  constructor
  · intro handsOut g' k' ne
    rcases image.allocInode_cases memory st with ⟨g, k, first, ret, disk⟩ | ⟨none, -⟩
    · obtain ⟨rfl, rfl⟩ := first.unique ne
      have lt : k < 2 ^ 32 :=
        lt_trans (inGroup_of_padded padded first) fsInfo.superblock.inodesInBlockgroup.toNat_lt
      rw [ret, Nat.mod_eq_of_lt lt, disk] at handsOut
      by_cases zero : k = 0
      · subst zero
        rw [HandsOut, if_pos rfl, blit_eq_self_iff] at handsOut
        exact ⟨rfl, handsOut⟩
      · rw [HandsOut, if_neg zero, ownInodeBit_taken addressable padded first zero] at handsOut
        cases handsOut.2.1
    · exact (none g' k' ne).elim
  · intro nothing
    obtain ⟨ret, disk⟩ := image.allocInode_idle memory nothing
    rw [ret, disk]
    exact handsOut_zero ..

/-- A sequence of calls behaves exactly if there is nothing to hand out and nothing
to write: the bit that is found is the one behind the bit of the answer. -/
theorem allocInode_fresh_iff (image : Ext2Image fsInfo bytes)
    (addressable : InodeBitmapsAddressable fsInfo) (memory : Nat → AllocMemory) (n : Nat) {st : σ}
    (padded : InodeBitmapsPadded fsInfo (bytes st)) :
    (∀ call ∈ inodeAllocations fsInfo memory n st, HandsOut (ValidInode fsInfo)
        (ownInodeBit fsInfo) (bytes call.before) call.ret (bytes call.after)) ∧
      (inodeAllocations fsInfo memory n st).Pairwise
        (fun a b => a.ret ≠ 0 → b.ret ≠ 0 → a.ret ≠ b.ret) ↔
      n = 0 ∨ NothingToWrite fsInfo (bytes st) := by
  constructor
  · rintro ⟨handsOut, -⟩
    cases n with
    | zero => exact .inl rfl
    | succ n =>
      have firstCall := handsOut _ (mem_cons_self ..)
      exact .inr ((image.allocInode_handsOut_iff addressable (memory 0) padded).mp firstCall)
  · rintro (rfl | nothing)
    · exact ⟨fun call mem => (by cases mem), List.Pairwise.nil⟩
    · have idle : ∀ call ∈ inodeAllocations fsInfo memory n st,
          call.ret = 0 ∧ bytes call.after = bytes call.before := by
        intro call mem
        have unchanged : bytes call.before = bytes st :=
          calls_invariant (I := fun st' => bytes st' = bytes st) rfl (fun j st' same =>
            (image.allocInode_idle (memory j) (by rwa [same])).2.trans same) call mem
        obtain ⟨j, result⟩ := calls_spec call mem
        have step := image.allocInode_idle (memory j) (by rwa [unchanged])
        rwa [result] at step
      constructor
      · intro call mem
        obtain ⟨ret, disk⟩ := idle call mem
        rw [ret, disk]
        exact handsOut_zero ..
      · apply pairwise_of_forall_mem_list
        intro a memberA b memberB realA
        exact absurd (idle a memberA).1 realA

theorem allocInode_full : let disk : Bytes := fun _ => 0xFF
    let run := inodeAllocations farExt2 (fun _ => zeroMemory) 2 disk
    (∀ call ∈ run, HandsOut (ValidInode farExt2) (ownInodeBit farExt2)
        call.before call.ret call.after) ∧
      run.Pairwise fun a b => a.ret ≠ 0 → b.ret ≠ 0 → a.ret ≠ b.ret := by
  intro disk run
  have set (p : Nat) : bitAt disk p = true := by
    rw [bitAt_eq_testBit]
    have all : ∀ t : Fin 8, (255 : UInt8).toNat.testBit t.val = true := by decide
    exact all ⟨p % 8, Nat.mod_lt _ (by decide)⟩
  refine (allocInode_fresh_iff (smallExt2_image (by decide)) ?_ (fun _ => zeroMemory) 2 ?_).mpr
    (.inr ?_)
  · intro g group
    exact (by decide : 1048576 + 4 * 1024 < 2 ^ 32)
  · intro g group p away lt
    exact (bitAt_suffix ..).trans (set _)
  · intro g k first
    have clear := first.clear
    rw [show bitAt (inodeBitmapView farExt2 (id disk) g) k = true from
      (bitAt_suffix ..).trans (set _)] at clear
    cases clear

/-- The first eleven inodes are in use. Without a partition the call hands out the last of them. In
a partition every call does, as the bitmap written is not the one read. -/
theorem allocInode_in_use : Ext2Image (smallExt2 0) id ∧ Ext2Image farExt2 id ∧
    (let disk : Bytes := fun x =>
        if x = 4096 then 0xFF else if x = 4097 then 7 else if 4100 ≤ x ∧ x < 5120 then 0xFF else 0
     (ext2AllocInode (smallExt2 0) zeroMemory disk).1 = 11 ∧
       bitAt disk (ownInodeBit (smallExt2 0) 11) = true) ∧
    (let disk : Bytes := fun x =>
        if x = 1052672 then 0xFF else if x = 1052673 then 7
        else if 1052676 ≤ x ∧ x < 1053696 then 0xFF else 0
     (inodeAllocations farExt2 (fun _ => zeroMemory) 2 disk).map Call.ret = [11, 11] ∧
       bitAt disk (ownInodeBit farExt2 11) = true) :=
  ⟨smallExt2_image (by decide), smallExt2_image (by decide), by decide +kernel, by decide +kernel⟩

end

section

variable (newInodeRef : Bytes) (type permissions uid gid size flags : UInt16) (blockSize : Nat)

theorem newInodeRecord_clear {x : Nat} (low : 36 ≤ x) (high : x < 128) :
    newInodeRecord newInodeRef type permissions uid gid size flags blockSize x = 0 := by
  unfold newInodeRecord
  rw [store32_apply_of_disjoint _ _ (by unfold diskSectorsField; omega),
    store32_apply_of_disjoint _ _ (by unfold flagsField; omega),
    store32_apply_of_disjoint _ _ (by unfold inodeSizeField; omega),
    store16_apply_of_disjoint _ _ (by unfold gidField; omega),
    store16_apply_of_disjoint _ _ (by unfold uidField; omega),
    store16_apply_of_disjoint _ _ (by unfold typePermissionsField; omega),
    blit_apply_of_mem _ _ _ _ _ (Nat.zero_le x) (by unfold sizeofExt2Inode; omega)]

theorem newInodeRecord_size :
    load32 (newInodeRecord newInodeRef type permissions uid gid size flags blockSize)
      inodeSizeField = size.toNat := by
  have lt : size.toNat < 2 ^ 32 := lt_trans size.toNat_lt (by decide)
  unfold newInodeRecord
  rw [load32_store32_disjoint _ _ (by decide), load32_store32_disjoint _ _ (by decide),
    load32_store32_same, Nat.mod_eq_of_lt lt]

theorem newInodeRecord_pointers (i : Fin ext2DirectBpAmount) :
    (inodePointers (newInodeRecord newInodeRef type permissions uid gid size flags
      blockSize)).directBlockPointer i = 0 := by
  have bound : (i : Nat) < 12 := i.isLt
  have clear (x : Nat) (lt : x < 4) := newInodeRecord_clear newInodeRef type permissions uid gid
    size flags blockSize (show 36 ≤ 40 + i * 4 + x by omega) (by omega)
  change UInt32.ofNat (load32 _ (40 + i * 4)) = 0
  unfold load32
  rw [clear 1 (by decide), clear 2 (by decide), clear 3 (by decide),
    show newInodeRecord newInodeRef type permissions uid gid size flags blockSize (40 + i * 4) = 0
      from clear 0 (by decide)]
  rfl

end

section

variable (image : Ext2Image fsInfo bytes) {parentInode : Nat} {name : List UInt8}
  {type permissions uid gid size flags : UInt16} {buf : Bytes} {memory : CreateMemory}
  {created : Nat × σ}
  (call : ext2CreateInode parentInode name type permissions uid gid size flags buf fsInfo memory
    st = created)
  (valid : ValidInode fsInfo created.1) (addressable : RecordAddressable fsInfo created.1)

include image call valid addressable

theorem createInode_record {x : Nat} (lt : x < 128) :
    suffix (bytes created.2) (recordStart fsInfo created.1) x =
      newInodeRecord memory.newInodeRef type permissions uid gid size flags fsInfo.blockSize x := by
  have large := image.inodeSize_ge
  obtain ⟨before, last⟩ : ∃ before, created.2 = (ext2WriteInode
      (newInodeRecord memory.newInodeRef type permissions uid gid size flags fsInfo.blockSize)
      created.1 fsInfo memory.recordSectors before).2 := by
    have added (inode : Nat) : ext2AddDir parentInode inode name type ≠ -1 := by
      unfold ext2AddDir
      decide
    rw [← call, ext2CreateInode]
    simp only [if_neg (added _)]
    exact ⟨_, rfl⟩
  rw [last, image.write_record valid addressable, suffix,
    blit_apply_of_mem _ _ _ _ _ (Nat.le_add_right _ x) (by omega), Nat.add_sub_cancel_left,
    Nat.zero_add]

theorem createInode_size :
    load32 (bytes created.2) (recordStart fsInfo created.1 + inodeSizeField) = size.toNat := by
  rw [← load32_suffix, ← newInodeRecord_size memory.newInodeRef type permissions uid gid size flags
    fsInfo.blockSize]
  apply load32_congr
  intro x _ high
  exact createInode_record image call valid addressable (lt_trans high (by decide))

theorem createInode_unmapped (k : Fin ext2DirectBpAmount) :
    (inodeAt (bytes created.2) fsInfo created.1).directBlockPointer k = 0 := by
  rw [inodeAt, inodePointers_congr fun x lt =>
    createInode_record image call valid addressable lt]
  exact newInodeRecord_pointers _ _ _ _ _ _ _ _ k

end

theorem readBlocks_unmapped {inode : Ext2Inode} (unmapped : ∀ k, inode.directBlockPointer k = 0)
    (fsInfo : FsFields σ) (memory : Nat → BlockMemory) (st : σ) (rounds k : Nat)
    (buf : Bytes) (ret : Nat) :
    (readBlocks inode fsInfo memory st rounds 0 k buf ret).1 = ret := by
  cases rounds with
  | zero => rfl
  | succ rounds =>
    have offset : ext2GetInodeDataOffset inode 0 fsInfo (memory 0).blocks (memory 0).sectors st =
        0 := by
      rw [ext2GetInodeDataOffset, dif_pos (by decide), unmapped]
      simp [mul32]
    have failed : (ext2ReadInodeBlock inode 0 (suffix buf k) fsInfo (memory 0) st).ret = 0 := by
      rw [ext2ReadInodeBlock, if_pos offset]
    rw [readBlocks, if_pos failed]

theorem Ext2Image.readFile_unmapped (image : Ext2Image fsInfo bytes) {i : Nat}
    (valid : ValidInode fsInfo i) (addressable : RecordAddressable fsInfo i) {st : σ}
    (unmapped : ∀ k, (inodeAt (bytes st) fsInfo i).directBlockPointer k = 0) (buf : Bytes)
    (k blockCount : Nat) (memory : FileMemory) :
    (ext2ReadFile i 0 buf k blockCount fsInfo memory st).1 ≤ 0 := by
  unfold ext2ReadFile
  split
  · exact (by decide : (-1 : Int) ≤ 0)
  next block _ =>
    dsimp only
    rw [image.inodeRef_pointers valid addressable, readBlocks_unmapped unmapped]
    decide

/-- The inode `i` holds `size` bytes of `buf`: its record says so, and its file reads so. -/
structure HoldsData (fsInfo : Ext2Fs σ) (bytes : σ → Bytes) (i size : Nat) (buf : Bytes)
    (memory : FileMemory) (buf2 : Bytes) (st : σ) : Prop where
  valid : ValidInode fsInfo i
  record : load32 (bytes st) (recordStart fsInfo i + inodeSizeField) = size
  count : (ext2ReadFile i 0 buf2 0 ((size + fsInfo.blockSize - 1) / fsInfo.blockSize) fsInfo memory
    st).1 = ((size + fsInfo.blockSize - 1) / fsInfo.blockSize : Nat)
  data : ∀ x < (size + fsInfo.blockSize - 1) / fsInfo.blockSize * fsInfo.blockSize,
    (ext2ReadFile i 0 buf2 0 ((size + fsInfo.blockSize - 1) / fsInfo.blockSize) fsInfo memory
      st).2 x = buf x

/-- A new inode never holds its data. -/
theorem createInode_loses_data (image : Ext2Image fsInfo bytes)
    (addressable : ∀ i, ValidInode fsInfo i → RecordAddressable fsInfo i) (parentInode : Nat)
    (name : List UInt8) (type permissions uid gid : UInt16) {size : UInt16}
    (nonempty : 0 < size.toNat) (flags : UInt16) (buf : Bytes) (memory : CreateMemory) (st : σ)
    (reading : FileMemory) (buf2 : Bytes) :
    let created := ext2CreateInode parentInode name type permissions uid gid size flags buf fsInfo
      memory st
    ¬ HoldsData fsInfo bytes created.1 size.toNat buf reading buf2 created.2 := by
  intro created holds
  have pos := image.blockSize_pos
  have unmapped := createInode_unmapped image (rfl : _ = created) holds.valid
    (addressable _ holds.valid)
  have nothing := image.readFile_unmapped holds.valid (addressable _ holds.valid) unmapped buf2 0
    ((size.toNat + fsInfo.blockSize - 1) / fsInfo.blockSize) reading
  have some : 0 < (size.toNat + fsInfo.blockSize - 1) / fsInfo.blockSize :=
    Nat.div_pos (by omega) pos
  rw [holds.count] at nothing
  omega

/-- The blocks below 24 and the positions below 12 of the inode bitmap are taken. -/
def roomyDisk : Bytes := fun x =>
  if 3072 ≤ x ∧ x < 3075 then 0xFF else if x = 4096 then 0xFF else if x = 4097 then 0x0F else 0

def creatingMemory : CreateMemory :=
  ⟨zeroMemory, fun _ => 0, fun _ => zeroMemory, fun _ _ _ => 0, fun _ _ => 0⟩

theorem createInode_loses_data_roomy :
    let created := ext2CreateInode 2 [97] 0x8000 0 0 0 5 0 (fun _ => 7) (smallExt2 0)
      creatingMemory roomyDisk
    ¬ HoldsData (smallExt2 0) id created.1 5 (fun _ => 7) plentyOfMemory (fun _ => 0) created.2 :=
  createInode_loses_data (smallExt2_image (by decide))
    (fun i _ => smallExt2_addressable (by decide) i) 2 [97] 0x8000 0 0 0 (by decide) 0
    (fun _ => 7) creatingMemory roomyDisk plentyOfMemory fun _ => 0

/-- The new inode is number 12, its data lies in block 24, and no block of it is read. -/
theorem createInode_unread :
    let created := ext2CreateInode 2 [97] 0x8000 0 0 0 5 0 (fun _ => 7) (smallExt2 0)
      creatingMemory roomyDisk
    created.1 = 12 ∧ created.2 24576 = 7 ∧
      (ext2ReadFile 12 0 (fun _ => 0) 0 1 (smallExt2 0) plentyOfMemory created.2).1 = 0 := by
  refine ⟨by decide +kernel, by decide +kernel, by decide +kernel⟩

end Yanix.Fs
