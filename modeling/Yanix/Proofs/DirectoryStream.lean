/-
Module: Yanix.Proofs.DirectoryStream
Purpose: A directory stream is a cursor over the blocks of the directory: when it ends, and
  which entries of a well-formed directory it hands out.
-/
import Yanix.Foundation.Cursor
import Yanix.Proofs.Allocation
import Mathlib.Tactic.IntervalCases

namespace Yanix.Fs

open Foundation Drivers List Option

variable {buffers : Nat → Bytes} {filebuffer : Bytes} {o : Nat}
variable {σ : Type*} {blockSize n : Nat} {p q : Place} {buffers : Nat → Bytes} {fs : Ext2Fs σ}
  {memory : Nat → DirMemory} {st : σ} {i n : Nat} {bytes : σ → Bytes}

section

/-- A place in a directory: a block and an offset in it. -/
structure Place where
  block : Nat
  offset : Nat

/-- Where the next header is: at the place, or in front of the next of `n` blocks. -/
def landing (blockSize n : Nat) (p : Place) : Option Place := if p.offset < blockSize then some p
  else if p.block + 1 < n then some ⟨p.block + 1, 0⟩
  else none

/-- The entry at the beginning of `tmp`, with the offset of the next one. -/
def streamEntry (tmp : Bytes) (next : Nat) : StreamEntry where
  dIno := entryInode tmp
  dOff := next
  dReclen := entryNameLength tmp + sizeofDirent + 1
  dType := ext2InodeTypeToVfsType (entryTypeIndicator tmp)
  dName := entryName tmp

/-- The memory of the entry at a place. -/
def entryAt (buffers : Nat → Bytes) (p : Place) : Bytes := suffix (buffers p.block) p.offset

/-- A stream as a cursor over places, when `buffers k` is what the buffer holds while block `k`
is read. -/
def nextPlace (blockSize n : Nat) (buffers : Nat → Bytes) (p : Place) :
    Option StreamEntry × Place :=
  match landing blockSize n p with
  | none => (none, p)
  | some q =>
    let tmp := entryAt buffers q
    if entryInode tmp = 0 then (none, q)
    else
      (some (streamEntry tmp (q.offset + entryTotalSize tmp)),
        ⟨q.block, q.offset + entryTotalSize tmp⟩)

theorem entryTotalSize_lt (tmp : Bytes) : entryTotalSize tmp < 65536 := by
  have low := (tmp 4).toNat_lt
  have high := (tmp 5).toNat_lt
  unfold entryTotalSize
  omega

theorem landing_offset (pos : 0 < blockSize) (lands : landing blockSize n p = some q) :
    q.offset < blockSize := by
  unfold landing at lands
  split at lands
  · next lt =>
      obtain rfl := some.inj lands
      exact lt
  split at lands
  · obtain rfl := some.inj lands
    exact pos
  · cases lands

theorem landing_self (lt : p.offset < blockSize) : landing blockSize n p = some p := if_pos lt

section

theorem nextPlace_none (lands : landing blockSize n p = none) :
    (nextPlace blockSize n buffers p).1 = none := by
  rw [nextPlace, lands]

theorem nextPlace_unused (lands : landing blockSize n p = some q)
    (unused : entryInode (entryAt buffers q) = 0) :
    (nextPlace blockSize n buffers p).1 = none := by
  rw [nextPlace, lands]
  dsimp only
  rw [if_pos unused]

theorem nextPlace_used (lands : landing blockSize n p = some q)
    (used : entryInode (entryAt buffers q) ≠ 0) :
    nextPlace blockSize n buffers p =
      (some (streamEntry (entryAt buffers q) (q.offset + entryTotalSize (entryAt buffers q))),
        ⟨q.block, q.offset + entryTotalSize (entryAt buffers q)⟩) := by
  rw [nextPlace, lands]
  dsimp only
  rw [if_neg used]

theorem nextPlace_eq_some {a : StreamEntry} (given : (nextPlace blockSize n buffers p).1 = some a) :
    ∃ q, landing blockSize n p = some q ∧ entryInode (entryAt buffers q) ≠ 0 := by
  cases lands : landing blockSize n p with
  | none =>
    rw [nextPlace_none lands] at given
    cases given
  | some q =>
    refine ⟨q, rfl, ?_⟩
    intro unused
    rw [nextPlace_unused lands unused] at given
    cases given

end

/-- One call, without the record of the header. -/
def readDirNext (fs : Ext2Fs σ) (memory : Nat → DirMemory) (st : σ) (dirp : DirStream) :
    Option StreamEntry × DirStream :=
  ((ext2ReadDir fs memory st dirp).entry, (ext2ReadDir fs memory st dirp).dirp)

/-- Loading one block after the other fills the buffer with `buffers 1`, `buffers 2` and so on,
and there is no block `n`. -/
structure StreamBlocks (fs : Ext2Fs σ) (memory : Nat → DirMemory) (st : σ) (i n : Nat)
    (buffers : Nat → Bytes) : Prop where
  loads : ∀ k, k + 1 < n → (readDirBlock i (k + 1) (buffers k) fs (memory (k + 1)) st).ret ≠ 0 ∧
      (readDirBlock i (k + 1) (buffers k) fs (memory (k + 1)) st).buf = buffers (k + 1)
  ended : ∀ k, k + 1 = n → (readDirBlock i (k + 1) (buffers k) fs (memory (k + 1)) st).ret = 0

/-- The stream is at the place. -/
structure AtPlace (i n : Nat) (buffers : Nat → Bytes) (p : Place) (dirp : DirStream) : Prop where
  inode : dirp.inode = i
  block : dirp.blockpointerindex = p.block
  offset : dirp.nextDirentryOffset = p.offset
  buffer : dirp.filebuffer = buffers p.block
  inside : p.block < n

section

variable (blocks : StreamBlocks fs memory st i n buffers) {p : Place} {dirp : DirStream}
  (here : AtPlace i n buffers p dirp)

include blocks here

theorem reload_eq : (landing fs.blockSize n p = none → (reload fs memory st dirp).1 = false) ∧
      ∀ q, landing fs.blockSize n p = some q →
        ∃ dirp', reload fs memory st dirp = (true, dirp') ∧ AtPlace i n buffers q dirp' := by
  unfold landing reload
  rw [here.offset]
  by_cases lt : p.offset < fs.blockSize
  · rw [if_pos lt, if_neg (not_le.mpr lt)]
    refine ⟨fun none => absurd none (some_ne_none _), ?_⟩
    intro q same
    obtain rfl := some.inj same
    exact ⟨dirp, rfl, here⟩
  rw [if_neg lt, if_pos (not_lt.mp lt), here.inode, here.block, here.buffer]
  by_cases more : p.block + 1 < n
  · obtain ⟨ne, loaded⟩ := blocks.loads p.block more
    rw [if_pos more, if_neg ne, loaded]
    refine ⟨fun none => absurd none (some_ne_none _), ?_⟩
    intro q same
    obtain rfl := some.inj same
    exact ⟨_, rfl, rfl, rfl, rfl, rfl, more⟩
  · have last : p.block + 1 = n := by
      have lt := here.inside
      omega
    rw [if_neg more, if_pos (blocks.ended p.block last)]
    exact ⟨fun _ => rfl, fun q none => absurd none.symm (some_ne_none q)⟩

theorem readDir_none (lands : landing fs.blockSize n p = none) :
    (ext2ReadDir fs memory st dirp).entry = none ∧
      (ext2ReadDir fs memory st dirp).header = none := by
  have failed := (reload_eq blocks here).1 lands
  unfold ext2ReadDir
  rcases loaded : reload fs memory st dirp with ⟨found, dirp'⟩
  rw [loaded] at failed
  obtain rfl : found = false := failed
  exact ⟨rfl, rfl⟩

theorem readDir_unused (lands : landing fs.blockSize n p = some q)
    (unused : entryInode (entryAt buffers q) = 0) :
    (ext2ReadDir fs memory st dirp).entry = none ∧
      (ext2ReadDir fs memory st dirp).header = some (q.offset, 4) := by
  obtain ⟨dirp', loaded, mem⟩ := (reload_eq blocks here).2 q lands
  have tmp : suffix dirp'.filebuffer dirp'.nextDirentryOffset = entryAt buffers q := by
    rw [mem.buffer, mem.offset, entryAt]
  unfold ext2ReadDir
  rw [loaded]
  dsimp only
  rw [tmp, if_pos unused]
  exact ⟨rfl, by rw [mem.offset]⟩

theorem readDir_used (small : fs.blockSize ≤ 2 ^ 31) (lt : q.offset < fs.blockSize)
    (lands : landing fs.blockSize n p = some q) (used : entryInode (entryAt buffers q) ≠ 0) :
    (ext2ReadDir fs memory st dirp).entry =
        some (streamEntry (entryAt buffers q) (q.offset + entryTotalSize (entryAt buffers q))) ∧
      (ext2ReadDir fs memory st dirp).header = some (q.offset, 8) ∧
      AtPlace i n buffers ⟨q.block, q.offset + entryTotalSize (entryAt buffers q)⟩
        (ext2ReadDir fs memory st dirp).dirp := by
  obtain ⟨dirp', loaded, mem⟩ := (reload_eq blocks here).2 q lands
  have tmp : suffix dirp'.filebuffer dirp'.nextDirentryOffset = entryAt buffers q := by
    rw [mem.buffer, mem.offset, entryAt]
  have len := entryTotalSize_lt (entryAt buffers q)
  have next : add32 q.offset (entryTotalSize (entryAt buffers q)) =
      q.offset + entryTotalSize (entryAt buffers q) := add32_of_lt (by omega)
  unfold ext2ReadDir
  rw [loaded]
  dsimp only
  rw [tmp, if_neg used, mem.offset, next]
  exact ⟨rfl, rfl, mem.inode, mem.block, rfl, mem.buffer, mem.inside⟩

end

theorem readDir_simulates {fs : Ext2Fs σ} {memory : Nat → DirMemory} {st : σ} {i : Nat}
    (blocks : StreamBlocks fs memory st i n buffers)
    (pos : 0 < fs.blockSize) (small : fs.blockSize ≤ 2 ^ 31) :
    Simulates (nextPlace fs.blockSize n buffers) (readDirNext fs memory st)
      (AtPlace i n buffers) where
  same := by
    intro p dirp here
    cases lands : landing fs.blockSize n p with
    | none => exact (readDir_none blocks here lands).1.trans (nextPlace_none lands).symm
    | some q =>
      by_cases unused : entryInode (entryAt buffers q) = 0
      · exact (readDir_unused blocks here lands unused).1.trans (nextPlace_unused lands unused).symm
      · rw [nextPlace_used lands unused]
        exact (readDir_used blocks here small (landing_offset pos lands) lands unused).1
  kept := by
    intro p dirp a here given
    obtain ⟨q, lands, used⟩ := nextPlace_eq_some given
    rw [nextPlace_used lands used]
    exact (readDir_used blocks here small (landing_offset pos lands) lands used).2.2

/-! ## Chains of entries -/

/-- The places of the headers that are read, following the lengths of the entries in use from
the front of the first block. -/
inductive OnChain (blockSize n : Nat) (buffers : Nat → Bytes) : Place → Prop where
  | start : OnChain blockSize n buffers ⟨0, 0⟩
  | next {p : Place} (before : OnChain blockSize n buffers p)
      (used : entryInode (entryAt buffers p) ≠ 0)
      (inside : p.offset + entryTotalSize (entryAt buffers p) < blockSize) :
      OnChain blockSize n buffers ⟨p.block, p.offset + entryTotalSize (entryAt buffers p)⟩
  | block {p : Place} (before : OnChain blockSize n buffers p)
      (used : entryInode (entryAt buffers p) ≠ 0)
      (passed : blockSize ≤ p.offset + entryTotalSize (entryAt buffers p))
      (more : p.block + 1 < n) : OnChain blockSize n buffers ⟨p.block + 1, 0⟩

/-- Every header on the chain lies inside its block, of an entry that is not in use the number
of the inode only; and no entry in use has length zero. -/
def ChainFits (blockSize n : Nat) (buffers : Nat → Bytes) : Prop :=
  ∀ p, OnChain blockSize n buffers p →
    if entryInode (entryAt buffers p) = 0 then p.offset + 4 ≤ blockSize
    else p.offset + 8 ≤ blockSize ∧ entryTotalSize (entryAt buffers p) ≠ 0

theorem OnChain.landing (chain : OnChain blockSize n buffers p)
    (used : entryInode (entryAt buffers p) ≠ 0)
    (lands : landing blockSize n ⟨p.block, p.offset + entryTotalSize (entryAt buffers p)⟩ =
      some q) : OnChain blockSize n buffers q := by
  unfold Fs.landing at lands
  split at lands
  · next lt =>
      obtain rfl := some.inj lands
      exact OnChain.next chain used lt
  next passed =>
    split at lands
    · next more =>
        obtain rfl := some.inj lands
        have reached : blockSize ≤ p.offset + entryTotalSize (entryAt buffers p) := not_lt.mp passed
        exact OnChain.block (p := p) chain used reached more
    · cases lands

section

variable (pos : 0 < blockSize)

include pos

theorem OnChain.inside (chain : OnChain blockSize n buffers p) : p.offset < blockSize := by
  cases chain with
  | start => exact pos
  | next _ _ lt => exact lt
  | block _ _ _ _ => exact pos

theorem onChain_of_visits (visits : Visits (nextPlace blockSize n buffers) ⟨0, 0⟩ p)
    (lands : landing blockSize n p = some q) : OnChain blockSize n buffers q := by
  have onChain := visits.invariant
    (I := fun p => ∀ q, landing blockSize n p = some q → OnChain blockSize n buffers q) ?_ ?_
  · exact onChain q lands
  · intro p a onChain given q lands
    obtain ⟨r, landsR, used⟩ := nextPlace_eq_some given
    rw [nextPlace_used landsR used] at lands
    exact (onChain r landsR).landing used lands
  · intro q lands
    rw [landing_self pos] at lands
    obtain rfl := some.inj lands
    exact .start

theorem visits_of_onChain (chain : OnChain blockSize n buffers q) :
    ∃ p, Visits (nextPlace blockSize n buffers) ⟨0, 0⟩ p ∧ landing blockSize n p = some q := by
  induction chain with
  | start => exact ⟨⟨0, 0⟩, .start, landing_self pos⟩
  | @next p before used lt ih =>
    obtain ⟨s, visits, lands⟩ := ih
    have step := nextPlace_used lands used
    refine ⟨_, .call visits (congrArg Prod.fst step), ?_⟩
    rw [step]
    exact landing_self lt
  | @block p before used passed more ih =>
    obtain ⟨s, visits, lands⟩ := ih
    have step := nextPlace_used lands used
    refine ⟨_, .call visits (congrArg Prod.fst step), ?_⟩
    rw [step, landing, if_neg (not_lt.mpr passed), if_pos more]

theorem not_enumerates_of_empty (chain : OnChain blockSize n buffers q)
    (used : entryInode (entryAt buffers q) ≠ 0) (empty : entryTotalSize (entryAt buffers q) = 0) :
    ¬ ∃ xs, Enumerates (nextPlace blockSize n buffers) ⟨0, 0⟩ xs := by
  intro ends
  obtain ⟨p, visits, lands⟩ := visits_of_onChain pos chain
  refine not_enumerates_of_invariant (I := fun p => landing blockSize n p = some q) ?_ lands
    (visits.ends ends)
  intro p lands
  rw [nextPlace_used lands used, empty]
  exact ⟨_, rfl, landing_self (chain.inside pos)⟩

theorem enumerates_of_lengths (nonempty : 0 < n)
    (lengths : ∀ q, OnChain blockSize n buffers q → entryInode (entryAt buffers q) ≠ 0 →
      entryTotalSize (entryAt buffers q) ≠ 0) :
    ∃ xs, Enumerates (nextPlace blockSize n buffers) ⟨0, 0⟩ xs := by
  -- Offsets stay below `blockSize + 65536`, so a block counts for more than all its offsets.
  refine enumerates_of_measure (I := fun p => p.block < n ∧ p.offset < blockSize + 65536 ∧
      ∀ q, landing blockSize n p = some q → OnChain blockSize n buffers q)
    (fun p => (n - p.block) * (blockSize + 65536) - p.offset) ?_ ?_
  · intro p a ⟨lt, bounded, onChain⟩ given
    obtain ⟨q, lands, used⟩ := nextPlace_eq_some given
    have chain := onChain q lands
    have positiveLength := Nat.pos_of_ne_zero (lengths q chain used)
    have short := entryTotalSize_lt (entryAt buffers q)
    have offset := landing_offset pos lands
    rw [nextPlace_used lands used]
    dsimp only
    have moved : q.block < n ∧ (q.block = p.block ∧ q.offset = p.offset ∨
        q.block = p.block + 1 ∧ q.offset = 0) := by
      unfold Fs.landing at lands
      split at lands
      · obtain rfl := some.inj lands
        exact ⟨lt, .inl ⟨rfl, rfl⟩⟩
      split at lands
      · next more =>
          obtain rfl := some.inj lands
          exact ⟨more, .inr ⟨rfl, rfl⟩⟩
      · cases lands
    refine ⟨⟨moved.1, by omega, fun r landsR => chain.landing used landsR⟩, ?_⟩
    rcases moved with ⟨insideQ, ⟨sameBlock, sameOffset⟩ | ⟨nextBlock, front⟩⟩
    · have count : 1 ≤ n - p.block := by omega
      have room := Nat.mul_le_mul_right (blockSize + 65536) count
      rw [sameBlock, sameOffset]
      omega
    · have count : n - p.block = n - q.block + 1 := by omega
      rw [count, Nat.succ_mul, front]
      omega
  · refine ⟨nonempty, Nat.add_pos_left pos _, ?_⟩
    intro q lands
    rw [landing_self pos] at lands
    obtain rfl := some.inj lands
    exact .start

end

/-! ## Directories on the disk -/

theorem blit_overwrite (dst : Bytes) (d : Nat) (first second : Bytes) (s t n : Nat) :
    blit (blit dst d first s n) d second t n = blit dst d second t n := by
  funext x
  unfold blit
  split <;> rfl

theorem dataOffset_eq_mul32 (inode : Ext2Inode) (n : Nat) (fs : FsFields σ)
    (kmalloc : Nat → Option Bytes) (fresh : Nat → Bytes) (st : σ) :
    ∃ a, ext2GetInodeDataOffset inode n fs kmalloc fresh st = mul32 a fs.blockSize := by
  have zero : ∃ a, 0 = mul32 a fs.blockSize := ⟨0, by simp [mul32]⟩
  have gap (bp : Bytes) (i : Nat) : ∃ a, fillGap bp i fs.blockSize = mul32 a fs.blockSize := by
    unfold fillGap
    split
    · split
      · exact ⟨_, rfl⟩
      · split
        · exact ⟨_, rfl⟩
        · exact zero
    · exact zero
  have indirect (b i : Nat) (block : Option Bytes) (fresh : Nat → Bytes) :
      ∃ a, handleIndirectBp b i fs block fresh st = mul32 a fs.blockSize := by
    unfold handleIndirectBp
    cases block with
    | none => exact zero
    | some block =>
      dsimp only
      split
      · exact gap ..
      · exact ⟨_, rfl⟩
  unfold ext2GetInodeDataOffset
  split
  · exact ⟨_, rfl⟩
  split
  · exact indirect ..
  split
  · cases kmalloc 0 with
    | none => exact zero
    | some block =>
      dsimp only
      unfold doubleIndirect
      split
      · exact zero
      dsimp only
      split
      · exact zero
      · exact indirect ..
  · exact zero

section

variable {i : Nat}

theorem Ext2Image.blockSize_le (image : Ext2Image fs bytes) : fs.blockSize ≤ 2 ^ 31 := by
  obtain ⟨n, size⟩ := image.blockSize
  have power : fs.blockSize = 2 ^ (10 + n) := by rw [size, Nat.pow_add]
  have lt := image.blockSize_lt
  rw [power] at lt ⊢
  exact Nat.pow_le_pow_right (by decide)
    (Nat.le_of_lt_succ ((Nat.pow_lt_pow_iff_right (by decide)).mp lt))

theorem Ext2Image.readInodeBlock_eq (image : Ext2Image fs bytes) (inode : Ext2Inode) (n : Nat)
    (buf : Bytes) (memory : BlockMemory) (st : σ) :
    let offset := ext2GetInodeDataOffset inode n fs.toFsFields memory.blocks memory.sectors st
    let ret := ext2ReadInodeBlock inode n buf fs.toFsFields memory st
    (offset = 0 → ret.ret = 0 ∧ ret.buf = buf) ∧ (offset ≠ 0 → ret.ret ≠ 0 ∧
        ret.buf = blit buf 0 (bytes st) (add32 offset fs.partstart) fs.blockSize) := by
  intro offset ret
  have pos := image.blockSize_pos
  have sectors := image.sector_dvd_blockSize
  constructor
  · intro zero
    have failed : ret = ⟨0, buf, some efbig⟩ := if_pos zero
    rw [failed]
    exact ⟨rfl, rfl⟩
  · intro ne
    have read : ret = _ := if_neg ne
    rw [read]
    obtain ⟨a, product⟩ := dataOffset_eq_mul32 inode n fs.toFsFields memory.blocks
      memory.sectors st
    have whole : offset % 512 = 0 := by
      rw [show offset = mul32 a fs.blockSize from product]
      exact image.mul32_sector a
    have aligned := image.add32_sector whole
    constructor
    · unfold ext2DiskRead
      rw [diskRead_ret_of_sectors (fun lba buf k n => image.counted lba buf k n st)
        (by rw [image.sector]; decide) image.blockSize_lt pos.ne'
        (by rwa [image.sector]) (by rw [image.sector]; exact sectors), image.sector]
      have count : fs.blockSize / 512 < 2 ^ 32 :=
        lt_of_le_of_lt (Nat.div_le_self ..) image.blockSize_lt
      rw [ofSigned_toSigned count]
      exact ne_of_gt (Nat.div_pos (Nat.le_of_dvd pos sectors) (by decide))
    · unfold ext2DiskRead
      rw [image.read_block (add32_lt ..) aligned, blit_suffix]
      rfl

/-- Where block `k` of the directory lies, as the driver finds it. -/
def dirOffset (fs : Ext2Fs σ) (disk : Bytes) (memory : Nat → DirMemory) (st : σ) (i k : Nat) :
    Nat :=
  ext2GetInodeDataOffset (inodeAt disk fs i) k fs.toFsFields
    (memory k).block.blocks (memory k).block.sectors st

/-- The buffer of a stream with block `k` in it, if that exists. -/
def dirBuffer (fs : Ext2Fs σ) (disk : Bytes) (memory : Nat → DirMemory) (st : σ)
    (filebuffer : Bytes) (i k : Nat) : Bytes :=
  if dirOffset fs disk memory st i k = 0 then filebuffer
  else blit filebuffer 0 disk (add32 (dirOffset fs disk memory st i k) fs.partstart) fs.blockSize

/-- The first block behind the one at the front that the driver does not find is block `n`. -/
structure MappedBlocks (fs : Ext2Fs σ) (disk : Bytes) (memory : Nat → DirMemory) (st : σ)
    (i n : Nat) : Prop where
  pos : 0 < n
  mapped : ∀ k, 0 < k → k < n → dirOffset fs disk memory st i k ≠ 0
  ended : dirOffset fs disk memory st i n = 0

variable (image : Ext2Image fs bytes) (valid : ValidInode fs i)
  (addressable : RecordAddressable fs i)

include image valid addressable

theorem readDirBlock_eq (k : Nat) (buf : Bytes) : readDirBlock i k buf fs (memory k) st =
      ext2ReadInodeBlock (inodeAt (bytes st) fs i) k buf fs.toFsFields
        (memory k).block st := by
  rw [readDirBlock, image.inodeRef_pointers valid addressable]

theorem streamBlocks (mapped : MappedBlocks fs (bytes st) memory st i n) (filebuffer : Bytes) :
    StreamBlocks fs memory st i n (dirBuffer fs (bytes st) memory st filebuffer i) where
  loads := by
    intro k more
    have ne := mapped.mapped (k + 1) (Nat.succ_pos k) more
    obtain ⟨ret, buf⟩ := (image.readInodeBlock_eq (inodeAt (bytes st) fs i) (k + 1)
      (dirBuffer fs (bytes st) memory st filebuffer i k) (memory (k + 1)).block st).2 ne
    rw [readDirBlock_eq image valid addressable]
    refine ⟨ret, ?_⟩
    rw [buf]
    unfold dirBuffer
    split
    · rfl
    · exact blit_overwrite ..
  ended := by
    rintro k rfl
    rw [readDirBlock_eq image valid addressable]
    exact ((image.readInodeBlock_eq (inodeAt (bytes st) fs i) (k + 1) _
      (memory (k + 1)).block st).1 mapped.ended).1

theorem openDirStream_atPlace (pos : 0 < n) {dirp : DirStream}
    (opened : ext2OpenDirStream i fs (memory 0) filebuffer st = some dirp) :
    AtPlace i n (dirBuffer fs (bytes st) memory st filebuffer i) ⟨0, 0⟩ dirp := by
  unfold ext2OpenDirStream at opened
  dsimp only at opened
  split at opened
  · cases opened
  obtain rfl := some.inj opened
  refine ⟨rfl, rfl, rfl, ?_, pos⟩
  rw [readDirBlock_eq image valid addressable]
  have read := image.readInodeBlock_eq (inodeAt (bytes st) fs i) 0 filebuffer (memory 0).block st
  unfold dirBuffer
  split
  · next zero => exact (read.1 zero).2
  · next ne => exact (read.2 ne).2

/-- The enumeration ends and stays in its buffer exactly if the chain of entries fits. -/
theorem enumeration_ends_iff {n : Nat} (mapped : MappedBlocks fs (bytes st) memory st i n)
    {dirp : DirStream}
    (opened : ext2OpenDirStream i fs (memory 0) filebuffer st = some dirp) :
    ((∃ xs, Enumerates (readDirNext fs memory st) dirp xs) ∧
        ∀ d, Visits (readDirNext fs memory st) dirp d → ∀ start length,
          (ext2ReadDir fs memory st d).header = some (start, length) →
          start + length ≤ fs.blockSize) ↔
      ChainFits fs.blockSize n (dirBuffer fs (bytes st) memory st filebuffer i) := by
  have pos := image.blockSize_pos
  have blocks := streamBlocks image valid addressable mapped filebuffer
  have simulates := readDir_simulates blocks pos image.blockSize_le
  have front : AtPlace i n _ ⟨0, 0⟩ dirp :=
    openDirStream_atPlace image valid addressable mapped.pos opened
  generalize dirBuffer fs (bytes st) memory st filebuffer i = buffers at *
  constructor
  · rintro ⟨⟨xs, ends⟩, headers⟩ q chain
    obtain ⟨p, visits, lands⟩ := visits_of_onChain pos chain
    obtain ⟨d, visited, here⟩ := simulates.visits_of front visits
    split
    · next unused =>
        exact headers d visited q.offset 4 (readDir_unused blocks here lands unused).2
    next used =>
      refine ⟨headers d visited q.offset 8 (readDir_used blocks here image.blockSize_le
        (chain.inside pos) lands used).2.1, ?_⟩
      intro empty
      exact not_enumerates_of_empty pos chain used empty
        ⟨xs, (simulates.enumerates_iff front).mp ends⟩
  · intro fits
    constructor
    · have lengths (q : Place) (chain : OnChain fs.blockSize n buffers q)
          (used : entryInode (entryAt buffers q) ≠ 0) :
          entryTotalSize (entryAt buffers q) ≠ 0 := by
        have fit := fits q chain
        rw [if_neg used] at fit
        exact fit.2
      obtain ⟨xs, ends⟩ := enumerates_of_lengths pos mapped.pos lengths
      exact ⟨xs, (simulates.enumerates_iff front).mpr ends⟩
    · intro d visited start length header
      obtain ⟨p, visits, here⟩ := simulates.visits front visited
      cases lands : landing fs.blockSize n p with
      | none =>
        rw [(readDir_none blocks here lands).2] at header
        cases header
      | some q =>
        have fit := fits q (onChain_of_visits pos visits lands)
        by_cases unused : entryInode (entryAt buffers q) = 0
        · rw [(readDir_unused blocks here lands unused).2] at header
          cases header
          rwa [if_pos unused] at fit
        rw [(readDir_used blocks here image.blockSize_le (landing_offset pos lands) lands
          unused).2.1] at header
        cases header
        rw [if_neg unused] at fit
        exact fit.1

end

/-- What `kmalloc` returns does not matter for the first blocks of a directory. -/
def plainMemory : Nat → DirMemory :=
  fun _ => ⟨fun _ => 0, fun _ _ => 0, ⟨fun _ => none, fun _ _ => 0⟩⟩

/-- Inode 12 is a directory, whose only block, 20, begins with an entry for inode `inode` of length
zero. -/
def oneBlockDir (inode : UInt8) : Bytes := fun x =>
  if x = 1055105 then 0x40
  else if x = 1055144 then 20
  else if x = 1069056 then inode
  else 0

theorem oneBlockDir_inode : ValidInode farExt2 12 := ⟨by decide, by decide⟩

theorem oneBlockDir_record : recordStart farExt2 12 = 1055104 := rfl

theorem oneBlockDir_blockSize : farExt2.blockSize = 1024 := rfl

theorem oneBlockDir_offset (inode : UInt8) {k : Nat} (direct : k < 2) :
    dirOffset farExt2 (oneBlockDir inode) plainMemory (oneBlockDir inode)
      12 k = if k = 0 then 20480 else 0 := by
  have lt : k < ext2DirectBpAmount := lt_trans direct (by decide)
  unfold dirOffset ext2GetInodeDataOffset
  rw [dif_pos lt]
  have cases : k = 0 ∨ k = 1 := by omega
  rcases cases with rfl | rfl
  · simp [inodeAt, inodePointers, load32, suffix, oneBlockDir, oneBlockDir_record,
      directBlockPointerField, sizeofUint32, mul32, oneBlockDir_blockSize]
  · simp [inodeAt, inodePointers, load32, suffix, oneBlockDir, oneBlockDir_record,
      directBlockPointerField, sizeofUint32, mul32]

theorem oneBlockDir_mapped (inode : UInt8) :
    MappedBlocks farExt2 (oneBlockDir inode) plainMemory
      (oneBlockDir inode) 12 1 where
  pos := by decide
  mapped := by
    intro k low high
    omega
  ended := oneBlockDir_offset inode (by decide)

theorem oneBlockDir_opens (inode : UInt8) :
    ∃ dirp, ext2OpenDirStream 12 farExt2 (plainMemory 0) (fun _ => 0)
      (oneBlockDir inode) = some dirp := by
  unfold ext2OpenDirStream
  rw [(smallExt2_image (by decide)).read_record oneBlockDir_inode
    (smallExt2_addressable (by decide) 12)]
  rw [oneBlockDir_record]
  simp [blit, oneBlockDir, ext2GetInodeSize, smallExt2, ext2InodeTypeDir]

theorem oneBlockDir_entry (inode : UInt8) :
    let tmp := entryAt (dirBuffer farExt2 (oneBlockDir inode) plainMemory
      (oneBlockDir inode) (fun _ => 0) 12) ⟨0, 0⟩
    entryInode tmp = inode.toNat ∧ entryTotalSize tmp = 0 := by
  have offset := oneBlockDir_offset inode (show 0 < 2 by decide)
  have start : add32 20480 farExt2.partstart = 1069056 := rfl
  simp [entryAt, dirBuffer, offset, start, entryInode, entryTotalSize, load32, suffix, blit,
    oneBlockDir, oneBlockDir_blockSize]

theorem enumeration_ends_unused :
    ∃ dirp, ext2OpenDirStream 12 farExt2 (plainMemory 0) (fun _ => 0)
        (oneBlockDir 0) = some dirp ∧
      ∃ xs, Enumerates (readDirNext farExt2 plainMemory (oneBlockDir 0)) dirp
        xs := by
  obtain ⟨dirp, opened⟩ := oneBlockDir_opens 0
  refine ⟨dirp, opened, ?_⟩
  obtain ⟨unused, -⟩ := oneBlockDir_entry 0
  refine ((enumeration_ends_iff (smallExt2_image (by decide)) oneBlockDir_inode
    (smallExt2_addressable (by decide) 12) (oneBlockDir_mapped 0) opened).mpr ?_).1
  have only (p : Place) (chain : OnChain farExt2.blockSize 1
      (dirBuffer farExt2 (oneBlockDir 0) plainMemory (oneBlockDir 0)
        (fun _ => 0) 12) p) : p = ⟨0, 0⟩ := by
    induction chain with
    | start => rfl
    | next _ used _ ih =>
      rw [ih] at used
      exact absurd unused used
    | block _ used _ _ ih =>
      rw [ih] at used
      exact absurd unused used
  intro p chain
  rw [only p chain]
  have free : entryInode (entryAt (dirBuffer farExt2 (oneBlockDir 0) plainMemory
    (oneBlockDir 0) (fun _ => 0) 12) ⟨0, 0⟩) = 0 := unused
  exact (if_pos free).mpr (by decide)

/-- An entry in use of length zero. -/
theorem enumeration_endless :
    ∃ dirp, ext2OpenDirStream 12 farExt2 (plainMemory 0) (fun _ => 0)
        (oneBlockDir 1) = some dirp ∧
      ¬ ∃ xs, Enumerates (readDirNext farExt2 plainMemory (oneBlockDir 1)) dirp
        xs := by
  obtain ⟨dirp, opened⟩ := oneBlockDir_opens 1
  refine ⟨dirp, opened, ?_⟩
  have image := smallExt2_image (show 512 ∣ 1048576 by decide)
  have addressable := smallExt2_addressable le_rfl 12
  have simulates := readDir_simulates (streamBlocks image oneBlockDir_inode addressable
    (oneBlockDir_mapped 1) fun _ => 0) image.blockSize_pos image.blockSize_le
  have front := openDirStream_atPlace image oneBlockDir_inode addressable Nat.one_pos opened
  obtain ⟨inode, empty⟩ := oneBlockDir_entry 1
  rintro ⟨xs, ends⟩
  refine not_enumerates_of_empty image.blockSize_pos .start ?_ empty
    ⟨xs, (simulates.enumerates_iff front).mp ends⟩
  exact fun zero => absurd (inode.symm.trans zero) (by decide)

end

/-- The inode and the name of an entry. -/
def entryPair (tmp : Bytes) : Nat × List UInt8 := (entryInode tmp, entryName tmp)

/-- From the offset on the block consists of these entries, whose names fit. -/
inductive Covered (blockSize : Nat) (block : Bytes) : Nat → List (Nat × List UInt8) → Prop where
  | done : Covered blockSize block blockSize []
  | entry {o : Nat} {rest : List (Nat × List UInt8)}
      (room : 8 + entryNameLength (suffix block o) ≤ entryTotalSize (suffix block o))
      (inside : o + entryTotalSize (suffix block o) ≤ blockSize)
      (more : Covered blockSize block (o + entryTotalSize (suffix block o)) rest) :
      Covered blockSize block o (entryPair (suffix block o) :: rest)

/-- The entry is in use. -/
def inUse (entry : Nat × List UInt8) : Bool := entry.1 ≠ 0

theorem Covered.congr {blockSize : Nat} {block block' : Bytes}
    (same : ∀ x < blockSize, block' x = block x) {es : List (Nat × List UInt8)}
    (covered : Covered blockSize block o es) : Covered blockSize block' o es := by
  induction covered with
  | done => exact .done
  | @entry o rest room lt _ ih =>
    obtain ⟨inode, size, len⟩ : entryInode (suffix block' o) = entryInode (suffix block o) ∧
        entryTotalSize (suffix block' o) = entryTotalSize (suffix block o) ∧ entryNameLength (suffix
        block' o) = entryNameLength (suffix block o) := by
      have header : ∀ x < o + 8, block' x = block x := fun x low => same x (by omega)
      have same (x : Nat) (low : x < 8) : suffix block' o x = suffix block o x :=
        header (o + x) (by omega)
      refine ⟨load32_congr fun x _ high => same x (by omega), ?_, ?_⟩
      · unfold entryTotalSize
        rw [same 4 (by decide), same 5 (by decide)]
      · unfold entryNameLength
        rw [same 6 (by decide)]
    have name : entryName (suffix block' o) = entryName (suffix block o) := by
      unfold entryName contents
      rw [len]
      apply map_congr_left
      intro x mem
      have low := mem_range.mp mem
      exact same _ (by omega)
    have pair : entryPair (suffix block' o) = entryPair (suffix block o) := by
      rw [entryPair, entryPair, inode, name]
    rw [← pair]
    apply Covered.entry
    · rwa [size, len]
    · rwa [size]
    · rwa [size]

/-- The inode and the name that a call returns. -/
def StreamEntry.pair (entry : StreamEntry) : Nat × List UInt8 := (entry.dIno, entry.dName)

/-- From the place on the entries are handed out up to the first that is not in use. -/
def ListsFrom (blockSize n : Nat) (buffers : Nat → Bytes) (p : Place)
    (es : List (Nat × List UInt8)) : Prop :=
  ∃ xs, Enumerates (nextPlace blockSize n buffers) p xs ∧
    xs.map StreamEntry.pair = es.takeWhile inUse

variable {k : Nat}

theorem Covered.listsFrom {es behind : List (Nat × List UInt8)}
    (covered : Covered blockSize (buffers k) o es)
    (later : ListsFrom blockSize n buffers ⟨k, blockSize⟩ behind) :
    ListsFrom blockSize n buffers ⟨k, o⟩ (es ++ behind) := by
  induction covered with
  | done => exact later
  | @entry o rest room lt _ ih =>
    have lands : landing blockSize n ⟨k, o⟩ = some ⟨k, o⟩ :=
      landing_self (show o < blockSize by omega)
    by_cases unused : entryInode (suffix (buffers k) o) = 0
    · refine ⟨[], .stop (nextPlace_unused lands unused), ?_⟩
      have free : inUse (entryPair (suffix (buffers k) o)) = false := by
        simp [inUse, entryPair, unused]
      rw [cons_append, takeWhile_cons, free]
      rfl
    obtain ⟨xs, enumerates, pairs⟩ := ih
    have used : entryInode (entryAt buffers ⟨k, o⟩) ≠ 0 := unused
    have step := nextPlace_used lands used
    refine ⟨_ :: xs, .more (congrArg Prod.fst step) ?_, ?_⟩
    · rw [step]
      exact enumerates
    have taken : inUse (entryPair (suffix (buffers k) o)) = true := by
      simp [inUse, entryPair, unused]
    rw [cons_append, takeWhile_cons, taken, if_pos rfl, map_cons, pairs]
    rfl

theorem listsFrom_end (pos : 0 < blockSize) {entries : Nat → List (Nat × List UInt8)}
    (covered : ∀ k, 0 < k → k < n → Covered blockSize (buffers k) 0 (entries k)) (m : Nat)
    (counts : k + 1 + m = n) :
    ListsFrom blockSize n buffers ⟨k, blockSize⟩ ((List.range' (k + 1) m).flatMap entries) := by
  induction m generalizing k with
  | zero =>
    refine ⟨[], .stop (nextPlace_none ?_), rfl⟩
    rw [landing, if_neg (lt_irrefl _), if_neg (show ¬ k + 1 < n by omega)]
  | succ m ih =>
    have lands : landing blockSize n ⟨k, blockSize⟩ = some ⟨k + 1, 0⟩ := by
      rw [landing, if_neg (lt_irrefl _), if_pos (show k + 1 < n by omega)]
    have same : nextPlace blockSize n buffers ⟨k + 1, 0⟩ =
        nextPlace blockSize n buffers ⟨k, blockSize⟩ := by
      rw [nextPlace, nextPlace, lands, landing_self pos]
    obtain ⟨xs, enumerates, pairs⟩ :=
      (covered (k + 1) (Nat.succ_pos k) (by omega)).listsFrom (ih (k := k + 1) (by omega))
    refine ⟨xs, enumerates.congr same, ?_⟩
    rw [range'_succ, flatMap_cons, pairs]

theorem enumerates_covered (pos : 0 < blockSize) {entries : Nat → List (Nat × List UInt8)}
    (nonempty : 0 < n) (covered : ∀ k < n, Covered blockSize (buffers k) 0 (entries k)) :
    ListsFrom blockSize n buffers ⟨0, 0⟩ ((List.range n).flatMap entries) := by
  have later := listsFrom_end pos (fun k _ lt => covered k lt) (n - 1)
    (show 0 + 1 + (n - 1) = n by omega)
  have whole : List.range n = 0 :: List.range' (0 + 1) (n - 1) := by
    rw [range_eq_range', ← range'_succ, show n - 1 + 1 = n by omega]
  rw [whole, flatMap_cons]
  exact (covered 0 nonempty).listsFrom later

/-! ## Complete enumerations -/

/-- No entry in use lies behind one that is not. -/
def NoneBehind (es : List (Nat × List UInt8)) : Prop :=
  ∀ before e behind, es = before ++ e :: behind → e.1 = 0 → ∀ x ∈ behind, x.1 = 0

theorem takeWhile_eq_filter_iff (es : List (Nat × List UInt8)) :
    es.takeWhile inUse = es.filter inUse ↔ NoneBehind es := by
  induction es with
  | nil =>
    refine ⟨fun _ lt e behind split => ?_, fun _ => rfl⟩
    exact absurd split.symm (by simp)
  | cons a es ih =>
    by_cases unused : a.1 = 0
    · have free : inUse a = false := by simp [inUse, unused]
      rw [takeWhile_cons, filter_cons, free]
      constructor
      · intro none lt e behind split zero x mem
        have inside : x ∈ es := by
          cases lt with
          | nil =>
            obtain ⟨-, rfl⟩ := cons.inj split
            exact mem
          | cons b lt =>
            obtain ⟨-, rfl⟩ := cons.inj split
            exact mem_append_right lt (mem_cons_of_mem e mem)
        have dropped := filter_eq_nil_iff.mp none.symm x inside
        simpa [inUse] using dropped
      · intro behind
        refine (filter_eq_nil_iff.mpr ?_).symm
        intro x mem
        simpa [inUse] using behind [] a es rfl unused x mem
    · have taken : inUse a = true := by simp [inUse, unused]
      rw [takeWhile_cons, filter_cons, taken, if_pos rfl, if_pos rfl, cons_inj_right, ih]
      constructor
      · intro later lt e behind split zero
        cases lt with
        | nil =>
          obtain ⟨rfl, -⟩ := cons.inj split
          exact absurd zero unused
        | cons b lt =>
          obtain ⟨-, rest⟩ := cons.inj split
          exact later lt e behind rest zero
      · intro later lt e behind split zero
        exact later (a :: lt) e behind (by rw [split, cons_append]) zero

/-- A directory of `n` blocks, all behind direct pointers; block `k` consists of the entries
`entries k`. -/
structure EntriesOf (fs : Ext2Fs σ) (disk : Bytes) (i n : Nat)
    (entries : Nat → List (Nat × List UInt8)) : Prop where
  few : n < ext2DirectBpAmount
  mapped : ∀ (k : Nat) (direct : k < ext2DirectBpAmount), k < n →
    (inodeAt disk fs i).directBlockPointer ⟨k, direct⟩ ≠ 0
  unmapped : ∀ (k : Nat) (direct : k < ext2DirectBpAmount), n ≤ k →
    (inodeAt disk fs i).directBlockPointer ⟨k, direct⟩ = 0
  addressable : ∀ (k : Nat) (direct : k < ext2DirectBpAmount), k < n →
    fs.Addressable ((inodeAt disk fs i).directBlockPointer ⟨k, direct⟩).toNat
  covered : ∀ (k : Nat) (direct : k < ext2DirectBpAmount), k < n → Covered fs.blockSize
      (suffix disk (fs.blockStart
        ((inodeAt disk fs i).directBlockPointer ⟨k, direct⟩).toNat)) 0 (entries k)

section

variable {entries : Nat → List (Nat × List UInt8)} (directory : EntriesOf fs (bytes st) i n entries)
  (memory : Nat → DirMemory)

include directory

theorem EntriesOf.offset_mapped (image : Ext2Image fs bytes) (lt : k < n) :
    ∃ direct : k < ext2DirectBpAmount, dirOffset fs (bytes st) memory st i k ≠ 0 ∧
      add32 (dirOffset fs (bytes st) memory st i k) fs.partstart = fs.blockStart
        ((inodeAt (bytes st) fs i).directBlockPointer ⟨k, direct⟩).toNat := by
  have direct : k < ext2DirectBpAmount := lt.trans directory.few
  refine ⟨direct, ?_⟩
  have ne := directory.mapped k direct lt
  have stop := (directory.addressable k direct lt).stop_le
  have pos := image.blockSize_pos
  have product := mul32_of_lt (show ((inodeAt (bytes st) fs i).directBlockPointer
    ⟨k, direct⟩).toNat * fs.blockSize < 2 ^ 32 by omega)
  have offset : dirOffset fs (bytes st) memory st i k =
      ((inodeAt (bytes st) fs i).directBlockPointer ⟨k, direct⟩).toNat * fs.blockSize := by
    rw [dirOffset, ext2GetInodeDataOffset, dif_pos direct, product]
  rw [offset]
  constructor
  · apply Nat.mul_ne_zero _ pos.ne'
    intro zero
    exact ne (UInt32.toNat_inj.mp zero)
  · rw [add32_of_lt (by omega), FsFields.blockStart, add_comm]

theorem EntriesOf.offset_unmapped (direct : k < ext2DirectBpAmount) (away : n ≤ k) :
    dirOffset fs (bytes st) memory st i k = 0 := by
  rw [dirOffset, ext2GetInodeDataOffset, dif_pos direct, directory.unmapped k direct away]
  simp [mul32]

theorem EntriesOf.mappedBlocks (image : Ext2Image fs bytes) :
    MappedBlocks fs (bytes st) memory st i (max n 1) where
  pos := lt_of_lt_of_le Nat.one_pos (le_max_right n 1)
  mapped := by
    intro k low high
    obtain ⟨-, ne, -⟩ := directory.offset_mapped memory image (show k < n by omega)
    exact ne
  ended := by
    have few := directory.few
    apply directory.offset_unmapped
    · exact max_lt few (by decide)
    · exact le_max_left n 1

theorem EntriesOf.covered_buffer (image : Ext2Image fs bytes) (filebuffer : Bytes) (lt : k < n) :
    Covered fs.blockSize (dirBuffer fs (bytes st) memory st filebuffer i k) 0 (entries k) := by
  obtain ⟨direct, ne, start⟩ := directory.offset_mapped memory image lt
  apply (directory.covered k direct lt).congr
  intro x low
  rw [dirBuffer, if_neg ne, start, blit_apply_of_mem _ _ _ _ _ (Nat.zero_le x) (by omega),
    Nat.sub_zero]
  rfl

/-- The enumeration is complete exactly if no entry in use lies behind one that is not; a
directory without blocks needs a zero at the front of its buffer. -/
theorem enumeration_complete_iff (image : Ext2Image fs bytes) (valid : ValidInode fs i)
    (addressable : RecordAddressable fs i) {dirp : DirStream}
    (opened : ext2OpenDirStream i fs (memory 0) filebuffer st = some dirp) :
    (∃ xs, Enumerates (readDirNext fs memory st) dirp xs ∧
        xs.map StreamEntry.pair = ((List.range n).flatMap entries).filter inUse) ↔
      (n = 0 → entryInode filebuffer = 0) ∧ NoneBehind ((List.range n).flatMap entries) := by
  have pos := image.blockSize_pos
  have mapped := directory.mappedBlocks memory image
  have simulates := readDir_simulates (streamBlocks image valid addressable mapped filebuffer)
    pos image.blockSize_le
  have front := openDirStream_atPlace image valid addressable mapped.pos opened
  rw [exists_congr fun xs => and_congr_left' (simulates.enumerates_iff front)]
  by_cases empty : n = 0
  · have buffer : dirBuffer fs (bytes st) memory st filebuffer i 0 = filebuffer :=
      if_pos (directory.offset_unmapped memory (by decide) empty.le)
    have inode : entryInode (entryAt (dirBuffer fs (bytes st) memory st filebuffer i) ⟨0, 0⟩) =
        entryInode filebuffer := by
      rw [entryAt, buffer]
      exact load32_suffix filebuffer 0 0
    have lands : landing fs.blockSize (max n 1) ⟨0, 0⟩ = some ⟨0, 0⟩ := landing_self pos
    rw [← takeWhile_eq_filter_iff]
    subst empty
    simp only [range_zero, flatMap_nil, filter_nil, takeWhile_nil,
      map_eq_nil_iff, and_true, true_imp_iff]
    constructor
    · rintro ⟨xs, enumerates, rfl⟩
      cases enumerates with
      | stop ended =>
        by_contra used
        rw [nextPlace_used lands (inode ▸ used)] at ended
        cases ended
    · intro zero
      exact ⟨[], .stop (nextPlace_unused lands (inode.trans zero)), rfl⟩
  · have same : max n 1 = n := max_eq_left (Nat.pos_of_ne_zero empty)
    rw [same]
    obtain ⟨ys, enumerates, pairs⟩ := enumerates_covered pos (Nat.pos_of_ne_zero empty)
      fun k lt => directory.covered_buffer memory image filebuffer lt
    rw [← takeWhile_eq_filter_iff]
    constructor
    · rintro ⟨xs, enumerates', complete⟩
      rw [enumerates'.unique enumerates, pairs] at complete
      exact ⟨fun zero => absurd zero empty, complete⟩
    · rintro ⟨-, complete⟩
      exact ⟨ys, enumerates, pairs.trans complete⟩

end

/-- Inode 12 is a directory with the entries `x` and `a` in block 20, 512 bytes each. -/
def twoSlots (inode : UInt8) : Bytes := fun x =>
  if x = 1055105 then 0x40
  else if x = 1055144 then 20
  else if x = 1069056 then inode
  else if x = 1069061 ∨ x = 1069573 then 2
  else if x = 1069062 ∨ x = 1069574 then 1
  else if x = 1069064 then 120
  else if x = 1069568 then 13
  else if x = 1069576 then 97
  else 0

def twoSlotsEntries (inode : UInt8) : Nat → List (Nat × List UInt8) :=
  fun _ => [(inode.toNat, [120]), (13, [97])]

theorem twoSlots_pointer (inode : UInt8) (direct : k < ext2DirectBpAmount) :
    (inodeAt (twoSlots inode) farExt2 12).directBlockPointer ⟨k, direct⟩ =
      if k = 0 then 20 else 0 := by
  have lt : k < 12 := direct
  have place : recordStart farExt2 12 = 1055104 := rfl
  unfold inodeAt inodePointers
  rw [place]
  interval_cases k <;> simp [load32, suffix, twoSlots, directBlockPointerField, sizeofUint32]

theorem twoSlots_covered (inode : UInt8) :
    Covered 1024 (suffix (twoSlots inode) 1069056) 0 (twoSlotsEntries inode 0) := by
  have first : entryPair (suffix (suffix (twoSlots inode) 1069056) 0) = (inode.toNat, [120]) ∧
      entryTotalSize (suffix (suffix (twoSlots inode) 1069056) 0) = 512 ∧
      entryNameLength (suffix (suffix (twoSlots inode) 1069056) 0) = 1 := by
    simp [entryPair, entryInode, entryName, entryNameLength, entryTotalSize, contents, load32,
      suffix, twoSlots, range_succ]
  have second : entryPair (suffix (suffix (twoSlots inode) 1069056) 512) = (13, [97]) ∧
      entryTotalSize (suffix (suffix (twoSlots inode) 1069056) 512) = 512 ∧
      entryNameLength (suffix (suffix (twoSlots inode) 1069056) 512) = 1 := by
    simp [entryPair, entryInode, entryName, entryNameLength, entryTotalSize, contents, load32,
      suffix, twoSlots, range_succ]
  obtain ⟨pair, size, len⟩ := first
  obtain ⟨pair', size', len'⟩ := second
  apply Covered.entry
  · omega
  · omega
  rw [size, zero_add]
  apply Covered.entry
  · omega
  · omega
  · rw [size']
    exact .done

theorem twoSlots_entriesOf (inode : UInt8) :
    EntriesOf farExt2 (twoSlots inode) 12 1 (twoSlotsEntries inode) where
  few := by decide
  mapped := by
    intro k direct lt
    rw [twoSlots_pointer inode direct, if_pos (Nat.lt_one_iff.mp lt)]
    decide
  unmapped := by
    intro k direct away
    rw [twoSlots_pointer inode direct, if_neg (Nat.one_le_iff_ne_zero.mp away)]
  addressable := by
    intro k direct lt
    rw [twoSlots_pointer inode direct, if_pos (Nat.lt_one_iff.mp lt)]
    exact show 1048576 + (20 + 1) * 1024 ≤ 2 ^ 32 by decide
  covered := by
    intro k direct lt
    rw [twoSlots_pointer inode direct, if_pos (Nat.lt_one_iff.mp lt)]
    exact twoSlots_covered inode

theorem twoSlots_opens (inode : UInt8) :
    ∃ dirp, ext2OpenDirStream 12 farExt2 (plainMemory 0) (fun _ => 0)
      (twoSlots inode) = some dirp := by
  unfold ext2OpenDirStream
  rw [(smallExt2_image (by decide)).read_record oneBlockDir_inode
    (smallExt2_addressable (by decide) 12)]
  rw [oneBlockDir_record]
  simp [blit, twoSlots, ext2GetInodeSize, smallExt2, ext2InodeTypeDir]

theorem enumeration_complete_twoSlots :
    ∃ dirp, ext2OpenDirStream 12 farExt2 (plainMemory 0) (fun _ => 0)
        (twoSlots 11) = some dirp ∧
      ∃ xs, Enumerates (readDirNext farExt2 plainMemory (twoSlots 11)) dirp xs ∧
        xs.map StreamEntry.pair = [(11, [120]), (13, [97])] := by
  obtain ⟨dirp, opened⟩ := twoSlots_opens 11
  refine ⟨dirp, opened, ?_⟩
  refine (enumeration_complete_iff (twoSlots_entriesOf 11) plainMemory
    (smallExt2_image (by decide)) oneBlockDir_inode (smallExt2_addressable (by decide) 12)
    opened).mpr ⟨fun zero => absurd zero (by decide), ?_⟩
  exact (takeWhile_eq_filter_iff _).mp (by decide)

/-- The first entry is not in use, the second one is. -/
theorem enumeration_incomplete :
    ∃ dirp, ext2OpenDirStream 12 farExt2 (plainMemory 0) (fun _ => 0)
        (twoSlots 0) = some dirp ∧
      Enumerates (readDirNext farExt2 plainMemory (twoSlots 0)) dirp [] ∧
      EntriesOf farExt2 (twoSlots 0) 12 1 (fun _ => [(0, [120]), (13, [97])]) := by
  obtain ⟨dirp, opened⟩ := twoSlots_opens 0
  have image := smallExt2_image (show 512 ∣ 1048576 by decide)
  have addressable := smallExt2_addressable le_rfl 12
  have directory : EntriesOf farExt2 (id (twoSlots 0)) 12 1 (twoSlotsEntries 0) :=
    twoSlots_entriesOf 0
  refine ⟨dirp, opened, ?_, twoSlots_entriesOf 0⟩
  have mapped := directory.mappedBlocks plainMemory image
  have simulates := readDir_simulates (streamBlocks image oneBlockDir_inode addressable
    mapped fun _ => 0) image.blockSize_pos image.blockSize_le
  have front := openDirStream_atPlace image oneBlockDir_inode addressable Nat.one_pos opened
  obtain ⟨xs, enumerates, pairs⟩ := enumerates_covered image.blockSize_pos Nat.one_pos
    fun k lt => directory.covered_buffer plainMemory image (fun _ => 0) lt
  obtain rfl : xs = [] := map_eq_nil_iff.mp pairs
  exact (simulates.enumerates_iff front).mpr enumerates

end Yanix.Fs
