/-
Module: Yanix.Proofs.FileWrite
Purpose: What `fs_write` stores over a file system that transfers whole blocks exactly.
  The number of whole blocks wraps when the last run exceeds the request.
-/
import Yanix.Proofs.FileRead

namespace Yanix.Fs

open Foundation

variable {node : VfsNode} {total : Nat} {σ : Type*}

/-- The file named by `offset` has `total` mapped blocks: the block functions transfer the mapped
ones among those asked for and return their number, and updating the node leaves the content alone.
-/
structure StoresBlocks (fs : Filesystem σ) (offset : Nat) (content : σ → Bytes)
    (total : Nat) : Prop where
  read : ∀ st, DeliversBlocks fs offset (content st) total st
  written : ∀ blk buf k n st,
    (fs.blockWrite offset blk buf k n st).1 = ((min n (total - blk) : Nat) : Int)
  blockWrite : ∀ blk buf k n st, content (fs.blockWrite offset blk buf k n st).2 =
    blit (content st) (blk * fs.blockSize) buf k (min n (total - blk) * fs.blockSize)
  updateNode : ∀ node st, content (fs.updateNode node st).2 = content st

theorem oneFileSystem_stores (blockSize total offset : Nat) :
    StoresBlocks (oneFileSystem blockSize total) offset id total :=
  ⟨oneFileSystem_delivers blockSize total offset, fun _ _ _ _ _ => rfl, fun _ _ _ _ _ => rfl,
    fun _ _ => rfl⟩

variable {blk x eRest q : Nat}

namespace StoresBlocks

variable {fs : Filesystem σ} {content : σ → Bytes} {st : σ}
  (stores : StoresBlocks fs node.offset content total)

include stores

theorem patch_within (st : σ) {start n : Nat} (mapped : blk < total)
    (fits : start + n ≤ fs.blockSize) (fresh buf : Bytes) (k : Nat) :
    content (patchBlock node fs fresh blk start buf k n st) =
      blit (content st) (blk * fs.blockSize + start) buf k n := by
  unfold patchBlock
  rw [stores.blockWrite, (stores.read st).read_within (by omega), min_eq_left (by omega), one_mul]
  exact blit_patched _ _ _ _ fits _

theorem patch_beyond (unmapped : total ≤ blk) (fresh buf : Bytes) (start k n : Nat) :
    content (patchBlock node fs fresh blk start buf k n st) = content st := by
  unfold patchBlock
  rw [stores.blockWrite, Nat.sub_eq_zero_of_le unmapped, Nat.min_zero, zero_mul, blit_zero]

theorem patch_elsewhere (away : x < blk * fs.blockSize ∨ blk * fs.blockSize + fs.blockSize ≤ x)
    (fresh buf : Bytes) (start k n : Nat) :
    content (patchBlock node fs fresh blk start buf k n st) x = content st x := by
  unfold patchBlock
  rw [stores.blockWrite]
  apply blit_apply_of_not_mem
  have : min 1 (total - blk) * fs.blockSize ≤ 1 * fs.blockSize :=
    Nat.mul_le_mul_right _ (min_le_left ..)
  omega

/-! ## The stages -/

theorem end_content (st : σ) (seek : Int) (ret : Nat) :
    content (fsWriteEnd node fs seek ret st).2.2 = content st :=
  stores.updateNode ..

omit stores

theorem tail_ret (node : VfsNode) (fs : Filesystem σ) (fresh : Bytes) (seek : Int)
    (eRest : Nat) (buf : Bytes) (blk k : Nat) {ret : Nat} (lt : ret < 2 ^ 32) (st : σ) :
    (fsWriteTail node fs fresh seek eRest buf blk k ret st).1 = toSigned (add32 ret eRest) := by
  unfold fsWriteTail
  split
  · rfl
  next nothing =>
    rw [not_not.mp nothing, add32_of_lt (by simpa using lt)]
    rfl

include stores

theorem tail_content (partly : eRest ≤ fs.blockSize) (fresh : Bytes) (seek : Int) (buf : Bytes)
    (k ret : Nat) :
    content (fsWriteTail node fs fresh seek eRest buf blk k ret st).2.2 =
      if blk < total then blit (content st) (blk * fs.blockSize) buf k eRest else content st := by
  unfold fsWriteTail
  by_cases nothing : eRest = 0
  · rw [if_neg (not_not.mpr nothing), stores.end_content, nothing, blit_zero, ite_self]
  rw [if_pos nothing, stores.end_content]
  split
  · next mapped => exact stores.patch_within st mapped (by omega) ..
  · next unmapped => exact stores.patch_beyond (not_lt.mp unmapped) ..

theorem tail_elsewhere (away : x < blk * fs.blockSize ∨ blk * fs.blockSize + fs.blockSize ≤ x)
    (fresh : Bytes) (seek : Int) (eRest : Nat) (buf : Bytes) (k ret : Nat) :
    content (fsWriteTail node fs fresh seek eRest buf blk k ret st).2.2 x = content st x := by
  unfold fsWriteTail
  split
  · rw [stores.end_content]
    exact stores.patch_elsewhere away ..
  · rw [stores.end_content]

theorem body_within (st : σ) (mapped : q ≤ total - blk) (lt : q < 2 ^ 31) (fresh : Bytes)
    (seek : Int) (eRest : Nat) (buf : Bytes) (k ret : Nat)
    (smalls : blk < 2 ^ 32 ∧ k < 2 ^ 32 ∧ ret < 2 ^ 32) :
    ∃ st', content st' = blit (content st) (blk * fs.blockSize) buf k (q * fs.blockSize) ∧
      fsWriteBody node fs fresh seek (toSigned q) eRest buf blk k ret st =
        fsWriteTail node fs fresh seek eRest buf (add32 blk q)
          (add32 k (mul32 q fs.blockSize)) (add32 ret (mul32 q fs.blockSize)) st' := by
  have signed : toSigned q = (q : Int) := toSigned_of_lt lt
  have pattern : ofSigned (q : Int) = q := ofSigned_natCast (by omega)
  unfold fsWriteBody
  by_cases none : q = 0
  · subst none
    refine ⟨st, by simp, ?_⟩
    simp only [signed, Nat.cast_zero, ne_eq, not_true_eq_false, if_false, mul32, zero_mul,
      Nat.zero_mod]
    rw [add32_of_lt (by omega), add32_of_lt (by omega), add32_of_lt (by omega)]
    simp
  · have nonzero : (q : Int) ≠ 0 := by exact_mod_cast none
    refine ⟨(fs.blockWrite node.offset blk buf k q st).2, ?_, ?_⟩
    · rw [stores.blockWrite, min_eq_left mapped]
    · simp only [signed, pattern, if_pos nonzero, stores.written, min_eq_left mapped]
      rw [if_neg (not_not.mpr rfl)]

theorem body_beyond (unmapped : total ≤ blk) (ne : q ≠ 0) (lt : q < 2 ^ 32)
    (fresh : Bytes) (seek : Int) (eRest : Nat) (buf : Bytes) (k ret : Nat)
    (retSmall : ret < 2 ^ 32) :
    (fsWriteBody node fs fresh seek (toSigned q) eRest buf blk k ret st).1 = toSigned ret ∧
      content (fsWriteBody node fs fresh seek (toSigned q) eRest buf blk k ret st).2.2 =
        content st := by
  have signed := toSigned_ne_zero lt ne
  have noBlocks : total - blk = 0 := Nat.sub_eq_zero_of_le unmapped
  have zero : ofSigned ((0 : Nat) : Int) = 0 := rfl
  have content' := stores.blockWrite blk buf k q st
  rw [noBlocks, Nat.min_zero, zero_mul, blit_zero] at content'
  unfold fsWriteBody
  simp only [if_pos signed, stores.written, noBlocks, Nat.min_zero, ofSigned_toSigned lt, zero,
    mul32, zero_mul, Nat.zero_mod]
  rw [if_pos (by simpa using signed.symm)]
  exact ⟨by rw [add32_of_lt (by omega), add_zero], content'⟩

/-- Whole blocks of which at least one is mapped: the first of them is stored,
whatever happens to the others and to the last block. -/
theorem body_first {j : Nat} (mapped : blk < total) (ne : q ≠ 0) (small : q < 2 ^ 32)
    (lt : j < fs.blockSize) (fresh : Bytes) (seek : Int) (eRest : Nat) (buf : Bytes)
    (k ret : Nat) :
    content (fsWriteBody node fs fresh seek (toSigned q) eRest buf blk k ret st).2.2
      (blk * fs.blockSize + j) = buf (k + j) := by
  have signed := toSigned_ne_zero small ne
  have first : content (fs.blockWrite node.offset blk buf k q st).2 (blk * fs.blockSize + j) =
      buf (k + j) := by
    have blocks : 1 * fs.blockSize ≤ min q (total - blk) * fs.blockSize :=
      Nat.mul_le_mul_right _ (by omega)
    rw [stores.blockWrite, blit_apply_of_mem _ _ _ _ _ (by omega) (by omega),
      Nat.add_sub_cancel_left]
  unfold fsWriteBody
  simp only [if_pos signed, ofSigned_toSigned small]
  split
  · exact first
  next complete =>
    -- the last block is another one, since fewer than 2^32 blocks lie between
    rw [not_not.mp complete, ofSigned_toSigned small]
    have other : add32 blk q ≠ blk := by
      unfold add32
      omega
    rw [stores.tail_elsewhere ..]
    · exact first
    · exact lt_or_le_of_block_ne other lt

theorem stages {old buf : Bytes} {seek head : Nat}
    (stored : content st = blit old seek buf 0 head) (next : blk * fs.blockSize = seek + head)
    (mapped : q ≤ total - blk) (lt : q < 2 ^ 31) (blkSmall : blk + q < 2 ^ 32)
    (noWrap : head + q * fs.blockSize < 2 ^ 32) (partly : eRest ≤ fs.blockSize) (fresh : Bytes)
    (pos : Int) :
    let ret := fsWriteBody node fs fresh pos (toSigned q) eRest buf blk head head st
    ret.1 = toSigned ((head + q * fs.blockSize + eRest) % 2 ^ 32) ∧
      content ret.2.2 = blit old seek buf 0
        (head + q * fs.blockSize + if blk + q < total then eRest else 0) := by
  obtain ⟨st', content', ret⟩ := stores.body_within st mapped lt fresh pos eRest buf
    head head ⟨by omega, by omega, by omega⟩
  have bytes : mul32 q fs.blockSize = q * fs.blockSize := mul32_of_lt (by omega)
  rw [bytes, add32_of_lt blkSmall, add32_of_lt noWrap] at ret
  rw [stored, next, blit_append_back] at content'
  dsimp only
  rw [ret]
  refine ⟨tail_ret node fs fresh pos eRest buf _ _ noWrap st', ?_⟩
  rw [stores.tail_content partly, content']
  split
  · rw [add_mul, next, add_assoc, blit_append_back]
  · rfl

end StoresBlocks

section

variable {blocksize seek amount : Nat}

theorem alignedBlocks {total : Nat} (pos : 0 < blocksize) (lt : blocksize < 2 ^ 32)
    (small : amount < 2 ^ 31) (le : seek + amount ≤ total * blocksize)
    (aligned : seek % blocksize = 0) :
    amount / blocksize ≤ total - seek / blocksize ∧
      (seek / blocksize + amount / blocksize < total ∨ endRest blocksize seek amount = 0) := by
  have start : seek / blocksize * blocksize = seek :=
    Nat.div_mul_cancel (Nat.dvd_of_mod_eq_zero aligned)
  have len := alignedLength_eq pos lt small aligned
  have whole := Nat.div_mul_le_self amount blocksize
  constructor
  · apply Nat.le_of_mul_le_mul_right _ pos
    rw [Nat.sub_mul, start]
    omega
  · rw [or_iff_not_imp_right]
    intro more
    apply Nat.lt_of_mul_lt_mul_right (a := blocksize)
    rw [add_mul, start]
    split at len <;> omega

theorem wholeBlocks_aligned (pos : 0 < blocksize) (lt : blocksize < 2 ^ 32)
    (small : amount < 2 ^ 31) (aligned : seek % blocksize = 0) :
    sub32 amount (endRest blocksize seek amount) / blocksize = amount / blocksize := by
  have whole := Nat.div_add_mod' amount blocksize
  rw [endRest_aligned aligned pos lt small]
  split
  · rw [sub32_of_le (Nat.mod_le ..) (by omega)]
    rw [show amount - amount % blocksize = amount / blocksize * blocksize by omega]
    exact Nat.mul_div_cancel _ pos
  · rw [sub32_of_le (by omega) (by omega), Nat.div_eq_of_lt (by omega), Nat.div_eq_of_lt (by omega)]

/-- A request that leaves its first block and is at least as long as its last
run: the runs are too long by the bytes missing to the middle of the block. -/
theorem wholeBlocks_crossing (pos : 0 < blocksize) (small : amount < 2 ^ 31)
    (crosses : blocksize - seek % blocksize ≤ amount)
    (le : seek % blocksize ≤ amount % blocksize ∨ blocksize ≤ amount) :
    let q := sub32 amount (endRest blocksize seek amount) / blocksize
    q * blocksize + endRest blocksize seek amount + seek % blocksize = amount ∧
      q ≤ amount / blocksize := by
  have whole := Nat.div_add_mod' amount blocksize
  have startLt := Nat.mod_lt seek pos
  have restLt := Nat.mod_lt amount pos
  have rest := endRest_crossing pos small crosses
  by_cases order : seek % blocksize ≤ amount % blocksize
  · rw [if_pos order] at rest
    have quotient : (amount - endRest blocksize seek amount) / blocksize = amount / blocksize := by
      rw [show amount - endRest blocksize seek amount =
        seek % blocksize + amount / blocksize * blocksize by omega,
        Nat.add_mul_div_right _ _ pos, Nat.div_eq_of_lt startLt, zero_add]
    dsimp only
    rw [sub32_of_le (by omega) (by omega), quotient]
    omega
  have long := le.resolve_left order
  have oneMore : 1 ≤ amount / blocksize := (Nat.one_le_div_iff pos).mpr long
  have previous : (amount / blocksize - 1) * blocksize + blocksize =
      amount / blocksize * blocksize := by
    rw [← Nat.succ_mul]
    congr 1
    omega
  rw [if_neg order] at rest
  have quotient : (amount - endRest blocksize seek amount) / blocksize =
      amount / blocksize - 1 := by
    rw [show amount - endRest blocksize seek amount =
      seek % blocksize + (amount / blocksize - 1) * blocksize by omega,
      Nat.add_mul_div_right _ _ pos, Nat.div_eq_of_lt startLt, zero_add]
  dsimp only
  rw [sub32_of_le (by omega) (by omega), quotient]
  omega

theorem wholeBlocks_wrapping (small : amount < 2 ^ 31)
    (crosses : blocksize - seek % blocksize ≤ amount) (less : amount < seek % blocksize)
    (short : amount < blocksize) :
    endRest blocksize seek amount = amount + (blocksize - seek % blocksize) ∧
      sub32 amount (endRest blocksize seek amount) = 2 ^ 32 - (blocksize - seek % blocksize) := by
  have pos : 0 < blocksize := by omega
  have startLt := Nat.mod_lt seek pos
  have rest := endRest_crossing pos small crosses
  rw [Nat.mod_eq_of_lt short, if_neg (by omega)] at rest
  unfold sub32
  omega

end

/-! ## The kinds of request -/

/-- A request inside the file that starts inside a block. -/
structure UnalignedRequest (blocksize total seek amount : Nat) : Prop where
  pos : 0 < blocksize
  seekSmall : seek < 2 ^ 31
  amountSmall : amount < 2 ^ 31
  inside : seek + amount ≤ total * blocksize
  unaligned : seek % blocksize ≠ 0

namespace UnalignedRequest

variable {blocksize total seek amount : Nat}
  (request : UnalignedRequest blocksize total seek amount)
include request

theorem firstBlock_lt : seek / blocksize < total := by
  have start := Nat.div_add_mod' seek blocksize
  have := request.inside
  have := request.unaligned
  apply Nat.lt_of_mul_lt_mul_right (a := blocksize)
  omega

theorem nextBlock : (seek / blocksize + 1) * blocksize = seek + (blocksize - seek % blocksize) := by
  have start := Nat.div_add_mod' seek blocksize
  have startLt := Nat.mod_lt seek request.pos
  rw [add_mul]
  omega

theorem blocks_le : amount / blocksize ≤ total - (seek / blocksize + 1) := by
  have whole := Nat.div_add_mod' amount blocksize
  have lt := request.inside
  have ne := request.unaligned
  have startLt := Nat.mod_lt seek request.pos
  have below : (seek / blocksize + 1 + amount / blocksize) * blocksize <
      (total + 1) * blocksize := by
    rw [add_mul, request.nextBlock, add_mul]
    omega
  have := Nat.lt_of_mul_lt_mul_right below
  omega

end UnalignedRequest

section

variable {fs : Filesystem σ} {content : σ → Bytes} {st : σ} {seek amount : Nat}
  (stores : StoresBlocks fs node.offset content total)

include stores

theorem fsWrite_aligned (st : σ) (pos : 0 < fs.blockSize) (lt : fs.blockSize < 2 ^ 32)
    (seekSmall : seek < 2 ^ 31) (small : amount < 2 ^ 31)
    (le : seek + amount ≤ total * fs.blockSize) (aligned : seek % fs.blockSize = 0)
    (buf : Bytes) (flags : Int) (fresh : Nat → Bytes) :
    let len := amount / fs.blockSize * fs.blockSize + endRest fs.blockSize seek amount
    let result := fsWrite node fs seek buf amount flags fresh st
    result.1 = toSigned (len % 2 ^ 32) ∧ content result.2.2 = blit (content st) seek buf 0 len := by
  have whole := Nat.div_add_mod' amount fs.blockSize
  have quotients : seek / fs.blockSize ≤ seek ∧ amount / fs.blockSize ≤ amount :=
    ⟨Nat.div_le_self .., Nat.div_le_self ..⟩
  obtain ⟨blocks, readable⟩ := alignedBlocks pos lt small le aligned
  unfold fsWrite
  simp only [ofSigned_natCast (show seek < 2 ^ 32 by omega), aligned, ne_eq, not_true_eq_false,
    if_false, wholeBlocks_aligned pos lt small aligned]
  have stored : content st = blit (content st) seek buf 0 0 := (blit_zero ..).symm
  have next : seek / fs.blockSize * fs.blockSize = seek + 0 :=
    Nat.div_mul_cancel (Nat.dvd_of_mod_eq_zero aligned)
  obtain ⟨ret, written⟩ := stores.stages stored next blocks (by omega) (by omega) (by omega)
    (endRest_le seek amount pos) (fresh 1) seek
  rw [zero_add] at ret written
  refine ⟨ret, written.trans ?_⟩
  rcases readable with mapped | nothing
  · rw [if_pos mapped]
  · rw [nothing, ite_self]

theorem fsWrite_head (st : σ) (request : UnalignedRequest fs.blockSize total seek amount)
    (buf : Bytes) (flags : Int) (fresh : Nat → Bytes) :
    let size := headSize fs.blockSize (seek % fs.blockSize) amount
    let eRest := endRest fs.blockSize seek amount
    ∃ st', content st' = blit (content st) seek buf 0 size ∧
      fsWrite node fs seek buf amount flags fresh st =
        fsWriteBody node fs (fresh 1) seek (toSigned (sub32 amount eRest / fs.blockSize)) eRest buf
          (seek / fs.blockSize + 1) size size st' := by
  have seekSmall := request.seekSmall
  -- the second test for a short request changes nothing
  have rest : (if amount < fs.blockSize - seek % fs.blockSize then 0
      else endRest fs.blockSize seek amount) = endRest fs.blockSize seek amount := by
    split
    · next short => exact (endRest_inside request.unaligned short).symm
    · rfl
  have patched := stores.patch_within st request.firstBlock_lt
    (headSize_fits request.pos seek amount) (fresh 0) buf 0
  rw [Nat.div_add_mod'] at patched
  refine ⟨_, patched, ?_⟩
  unfold fsWrite
  simp only [ofSigned_natCast (show seek < 2 ^ 32 by omega), if_pos request.unaligned,
    nextBlock_eq seekSmall, rest]

theorem fsWrite_inside (request : UnalignedRequest fs.blockSize total seek amount)
    (short : amount < fs.blockSize - seek % fs.blockSize) (buf : Bytes) (flags : Int)
    (fresh : Nat → Bytes) :
    let ret := fsWrite node fs seek buf amount flags fresh st
    ret.1 = toSigned amount ∧ content ret.2.2 = blit (content st) seek buf 0 amount := by
  obtain ⟨st', stored, ret⟩ := fsWrite_head stores st request buf flags fresh
  have noBlocks : sub32 amount 0 / fs.blockSize = 0 := by
    have small := request.amountSmall
    rw [sub32_of_le (Nat.zero_le _) (by omega)]
    exact Nat.div_eq_of_lt (by omega)
  rw [endRest_inside request.unaligned short, noBlocks, headSize_inside short] at ret
  rw [headSize_inside short] at stored
  dsimp only
  rw [ret]
  exact ⟨rfl, (stores.end_content st' seek amount).trans stored⟩

theorem fsWrite_crossing (st : σ) (request : UnalignedRequest fs.blockSize total seek amount)
    (crosses : fs.blockSize - seek % fs.blockSize ≤ amount)
    (le : seek % fs.blockSize ≤ amount % fs.blockSize ∨ fs.blockSize ≤ amount) (buf : Bytes)
    (flags : Int) (fresh : Nat → Bytes) :
    let eRest := endRest fs.blockSize seek amount
    let q := sub32 amount eRest / fs.blockSize
    let head := fs.blockSize - seek % fs.blockSize
    let ret := fsWrite node fs seek buf amount flags fresh st
    ret.1 = toSigned ((head + q * fs.blockSize + eRest) % 2 ^ 32) ∧
      content ret.2.2 = blit (content st) seek buf 0 (head + q * fs.blockSize +
        if seek / fs.blockSize + 1 + q < total then eRest else 0) := by
  obtain ⟨st', stored, ret⟩ := fsWrite_head stores st request buf flags fresh
  obtain ⟨sum, fewer⟩ := wholeBlocks_crossing request.pos request.amountSmall crosses le
  have blocks := request.blocks_le
  have smalls := And.intro request.seekSmall request.amountSmall
  have quotients : seek / fs.blockSize ≤ seek ∧ amount / fs.blockSize ≤ amount :=
    ⟨Nat.div_le_self .., Nat.div_le_self ..⟩
  rw [headSize_crossing crosses] at stored ret
  dsimp only
  rw [ret]
  exact stores.stages stored request.nextBlock (by omega) (by omega) (by omega) (by omega)
    (endRest_le seek amount request.pos) (fresh 1) seek

/-- A request that leaves its first block and whose subtraction wraps around. With no block mapped
behind the first, the call stores the first run and ends; otherwise it stores the byte behind the
request. -/
theorem fsWrite_wrapping (st : σ) (request : UnalignedRequest fs.blockSize total seek amount)
    (crosses : fs.blockSize - seek % fs.blockSize ≤ amount) (less : amount < seek % fs.blockSize)
    (some : 2 * fs.blockSize ≤ 2 ^ 32 + seek % fs.blockSize) (buf : Bytes) (flags : Int)
    (fresh : Nat → Bytes) :
    let head := fs.blockSize - seek % fs.blockSize
    let result := fsWrite node fs seek buf amount flags fresh st
    if seek / fs.blockSize + 1 < total then content result.2.2 (seek + amount) = buf amount
    else result.1 = toSigned head ∧ content result.2.2 = blit (content st) seek buf 0 head := by
  have startLt := Nat.mod_lt seek request.pos
  have small := request.amountSmall
  have nextBlock := request.nextBlock
  obtain ⟨st', stored, result⟩ := fsWrite_head stores st request buf flags fresh
  obtain ⟨rest, wrapped⟩ := wholeBlocks_wrapping small crosses less (by omega)
  rw [headSize_crossing crosses, wrapped] at result
  rw [headSize_crossing crosses] at stored
  have blocks : (2 ^ 32 - (fs.blockSize - seek % fs.blockSize)) / fs.blockSize ≠ 0 :=
    ne_of_gt (Nat.div_pos (by omega) request.pos)
  have blocksSmall : (2 ^ 32 - (fs.blockSize - seek % fs.blockSize)) / fs.blockSize < 2 ^ 32 :=
    lt_of_le_of_lt (Nat.div_le_self ..) (by omega)
  dsimp only
  rw [result]
  split
  · next mapped =>
      have behind : seek + amount = (seek / fs.blockSize + 1) * fs.blockSize +
          (amount - (fs.blockSize - seek % fs.blockSize)) := by omega
      rw [behind, stores.body_first mapped blocks blocksSmall (by omega)]
      congr 1
      omega
  · next unmapped =>
      have headSmall : fs.blockSize - seek % fs.blockSize < 2 ^ 32 := by omega
      obtain ⟨ret, kept⟩ := stores.body_beyond (not_lt.mp unmapped) blocks blocksSmall (fresh 1)
        seek (endRest fs.blockSize seek amount) buf (fs.blockSize - seek % fs.blockSize) _ headSmall
      exact ⟨ret, kept.trans stored⟩

theorem fsWrite_wrapping_large (request : UnalignedRequest fs.blockSize total seek amount)
    (crosses : fs.blockSize - seek % fs.blockSize ≤ amount) (less : amount < seek % fs.blockSize)
    (large : 2 ^ 32 + seek % fs.blockSize < 2 * fs.blockSize) (buf : Bytes) (flags : Int)
    (fresh : Nat → Bytes) :
    (fsWrite node fs seek buf amount flags fresh st).1 =
      toSigned ((amount + 2 * (fs.blockSize - seek % fs.blockSize)) % 2 ^ 32) := by
  have small := request.amountSmall
  obtain ⟨st', stored, ret⟩ := fsWrite_head stores st request buf flags fresh
  obtain ⟨rest, wrapped⟩ := wholeBlocks_wrapping small crosses less (by omega)
  have noBlocks : (2 ^ 32 - (fs.blockSize - seek % fs.blockSize)) / fs.blockSize = 0 :=
    Nat.div_eq_of_lt (by omega)
  rw [headSize_crossing crosses, wrapped, noBlocks, rest] at ret
  rw [ret]
  refine (StoresBlocks.tail_ret node fs _ _ _ _ _ _ (by omega) st').trans ?_
  congr 1
  unfold add32
  congr 1
  omega

end

/-! ## When the stored bytes are the requested ones -/

/-- The requests that `fs_write` serves correctly on a file of `total` mapped
blocks. -/
def WritesRight (blocksize total seek amount : Nat) : Prop := amount < 2 ^ 31 ∧
    if seek % blocksize = 0 then amount + blocksize < 2 ^ 32
    else amount < blocksize - seek % blocksize ∨ 2 * (seek % blocksize) = blocksize ∨
      (amount = blocksize - seek % blocksize ∧ blocksize < 2 * (seek % blocksize) ∧
        seek + amount = total * blocksize ∧ 2 * blocksize ≤ 2 ^ 32 + seek % blocksize)

/-- Whatever the buffer holds, the call replaces the requested bytes of the file
by the first `amount` bytes of it, changes and uses no other, and returns
`amount`. -/
def WritesExactly (node : VfsNode) (fs : Filesystem σ) (content : σ → Bytes)
    (seek amount : Nat) (flags : Int) (fresh : Nat → Bytes) (st : σ) : Prop :=
  ∀ buf, (fsWrite node fs seek buf amount flags fresh st).1 = (amount : Int) ∧
    content (fsWrite node fs seek buf amount flags fresh st).2.2 =
      blit (content st) seek buf 0 amount

section

variable {fs : Filesystem σ} {content : σ → Bytes} {st : σ} {seek amount : Nat} {flags : Int}
  {fresh : Nat → Bytes} (stores : StoresBlocks fs node.offset content total)

include stores

theorem writesExactly_aligned_iff (pos : 0 < fs.blockSize) (lt : fs.blockSize < 2 ^ 32)
    (seekSmall : seek < 2 ^ 31) (small : amount < 2 ^ 31)
    (le : seek + amount ≤ total * fs.blockSize) (aligned : seek % fs.blockSize = 0) :
    WritesExactly node fs content seek amount flags fresh st ↔ amount + fs.blockSize < 2 ^ 32 := by
  have lengthIs := alignedLength_eq pos lt small aligned
  have result := fun buf => fsWrite_aligned stores st pos lt seekSmall small
    le aligned buf flags fresh
  simp only [lengthIs] at result
  constructor
  · intro exactly
    have len := length_of_ret small (by split <;> omega)
      ((result fun _ => 0).1.symm.trans (exactly _).1)
    split at len <;> omega
  · intro noWrap buf
    obtain ⟨ret, written⟩ := result buf
    rw [if_pos noWrap] at ret written
    rw [Nat.mod_eq_of_lt (by omega), toSigned_of_lt small] at ret
    exact ⟨ret, written⟩

variable (request : UnalignedRequest fs.blockSize total seek amount)
  (crosses : fs.blockSize - seek % fs.blockSize ≤ amount)

include request crosses

/-- Without a wrapped subtraction, a request that leaves its first block is
right exactly when it starts in the middle of that block. -/
theorem writesExactly_crossing_iff
    (le : seek % fs.blockSize ≤ amount % fs.blockSize ∨ fs.blockSize ≤ amount) :
    WritesExactly node fs content seek amount flags fresh st ↔
      2 * (seek % fs.blockSize) = fs.blockSize := by
  have small := request.amountSmall
  have nextBlock := request.nextBlock
  have lt := request.inside
  obtain ⟨sum, fewer⟩ := wholeBlocks_crossing request.pos small crosses le
  have result := fun buf => fsWrite_crossing stores st request crosses le buf flags fresh
  constructor
  · intro exactly
    have len := length_of_ret small (by omega) ((result fun _ => 0).1.symm.trans (exactly _).1)
    omega
  · intro middle buf
    obtain ⟨ret, written⟩ := result buf
    generalize sub32 amount (endRest fs.blockSize seek amount) / fs.blockSize = q at *
    generalize endRest fs.blockSize seek amount = eRest at *
    have len : fs.blockSize - seek % fs.blockSize + q * fs.blockSize + eRest = amount := by
      omega
    have mapped : (if seek / fs.blockSize + 1 + q < total then eRest else 0) = eRest := by
      split
      · rfl
      next unmapped =>
        have limit := Nat.mul_le_mul_right fs.blockSize (not_lt.mp unmapped)
        rw [add_mul, nextBlock] at limit
        omega
    rw [mapped, len] at written
    rw [len, Nat.mod_eq_of_lt (by omega), toSigned_of_lt small] at ret
    exact ⟨ret, written⟩

/-- With a wrapped subtraction, a request is right exactly when it fills its
first block and no block is mapped behind that. -/
theorem writesExactly_wrapping_iff (less : amount < seek % fs.blockSize) :
    WritesExactly node fs content seek amount flags fresh st ↔
      amount = fs.blockSize - seek % fs.blockSize ∧ seek + amount = total * fs.blockSize ∧
        2 * fs.blockSize ≤ 2 ^ 32 + seek % fs.blockSize := by
  have startLt := Nat.mod_lt seek request.pos
  have small := request.amountSmall
  have nextBlock := request.nextBlock
  have lt := request.inside
  by_cases some : 2 * fs.blockSize ≤ 2 ^ 32 + seek % fs.blockSize
  · have result := fun buf => fsWrite_wrapping stores st request crosses less some buf flags fresh
    by_cases mapped : seek / fs.blockSize + 1 < total
    · simp only [if_pos mapped] at result
      have beyond := Nat.mul_le_mul_right fs.blockSize (Nat.succ_le_of_lt mapped)
      rw [Nat.succ_mul, nextBlock] at beyond
      constructor
      · intro exactly
        -- a buffer whose next byte differs from the byte behind the request
        have stored := (exactly fun _ => content st (seek + amount) + 1).2
        have changed := result fun _ => content st (seek + amount) + 1
        rw [stored, blit_apply_of_not_mem _ _ _ _ _ (by omega)] at changed
        simp at changed
      · intro right
        omega
    · simp only [if_neg mapped] at result
      have limit := Nat.mul_le_mul_right fs.blockSize (not_lt.mp mapped)
      constructor
      · intro exactly
        have ret := (result fun _ => 0).1.symm.trans (exactly _).1
        omega
      · rintro ⟨len, -, -⟩ buf
        obtain ⟨ret, written⟩ := result buf
        rw [← len] at ret written
        exact ⟨ret.trans (toSigned_of_lt small), written⟩
  · constructor
    · intro exactly
      have ret := (exactly fun _ => 0).1
      rw [fsWrite_wrapping_large stores request crosses less (not_le.mp some)] at ret
      have := length_of_ret small (by omega) ret
      omega
    · intro right
      exact absurd right.2.2 some

end

theorem fsWrite_ret_lt (node : VfsNode) (fs : Filesystem σ) (seek : Int) (buf : Bytes)
    {amount : Nat} (lt : amount < 2 ^ 32) (flags : Int) (fresh : Nat → Bytes) (st : σ) :
    (fsWrite node fs seek buf amount flags fresh st).1 < 2 ^ 31 := by
  have tail (fresh : Bytes) (eRest : Nat) (blk k ret : Nat) (retSmall : ret < 2 ^ 32) (st : σ) :
      (fsWriteTail node fs fresh seek eRest buf blk k ret st).1 < 2 ^ 31 := by
    rw [StoresBlocks.tail_ret node fs fresh seek eRest buf blk k retSmall st]
    exact toSigned_lt (add32_lt ..)
  have body (fresh : Bytes) (blkcnt : Int) (eRest blk k ret : Nat) (retSmall : ret < 2 ^ 32)
      (st : σ) :
      (fsWriteBody node fs fresh seek blkcnt eRest buf blk k ret st).1 < 2 ^ 31 := by
    unfold fsWriteBody
    split
    · dsimp only
      split
      · exact toSigned_lt (add32_lt ..)
      · exact tail _ _ _ _ _ (add32_lt ..) _
    · exact tail _ _ _ _ _ retSmall _
  unfold fsWrite
  dsimp only
  split
  · exact body _ _ _ _ _ _ (headSize_lt _ _ lt) _
  · exact body _ _ _ _ _ _ (by decide) _

/-- Over a file system that transfers its blocks exactly, `fs_write` stores the requested bytes,
nothing else, and returns their number exactly for the requests of `WritesRight`. -/
theorem fsWrite_exact_iff {node : VfsNode} {fs : Filesystem σ} {content : σ → Bytes}
    {total : Nat} (stores : StoresBlocks fs node.offset content total)
    (pos : 0 < fs.blockSize) (small : fs.blockSize < 2 ^ 32) {seek amount : Nat}
    (seekSmall : seek < 2 ^ 31) (amountSmall : amount < 2 ^ 32)
    (inside : seek + amount ≤ total * fs.blockSize) (flags : Int) (fresh : Nat → Bytes)
    (st : σ) :
    WritesExactly node fs content seek amount flags fresh st ↔
      WritesRight fs.blockSize total seek amount := by
  have restLe := Nat.mod_le amount fs.blockSize
  unfold WritesRight
  by_cases fits : amount < 2 ^ 31
  · rw [and_iff_right fits]
    by_cases aligned : seek % fs.blockSize = 0
    · rw [if_pos aligned]
      exact writesExactly_aligned_iff stores pos small seekSmall fits inside aligned
    rw [if_neg aligned]
    have request : UnalignedRequest fs.blockSize total seek amount :=
      ⟨pos, seekSmall, fits, inside, aligned⟩
    by_cases short : amount < fs.blockSize - seek % fs.blockSize
    · refine iff_of_true (fun buf => ?_) (.inl short)
      rw [← toSigned_of_lt fits]
      exact fsWrite_inside stores request short buf flags fresh
    have crosses := not_lt.mp short
    by_cases le : seek % fs.blockSize ≤ amount % fs.blockSize ∨ fs.blockSize ≤ amount
    · rw [writesExactly_crossing_iff stores request crosses le]
      omega
    have rest : amount % fs.blockSize = amount := Nat.mod_eq_of_lt (by omega)
    rw [writesExactly_wrapping_iff stores request crosses (by omega)]
    omega
  · refine iff_of_false (fun exactly => ?_) (fun right => fits right.1)
    have ret := fsWrite_ret_lt node fs seek (fun _ => 0) amountSmall flags fresh st
    rw [(exactly _).1] at ret
    omega

theorem fsWrite_exact_aligned :
    WritesExactly ⟨7, 0⟩ (oneFileSystem 1024 4) id 1024 2000 0 (fun _ _ => 0) (fun _ => 0) :=
  (fsWrite_exact_iff (oneFileSystem_stores 1024 4 7) (by decide) (by decide) (by decide)
    (by decide) (by decide) 0 ..).mpr (by unfold WritesRight; decide)

/-- A kilobyte from the second byte on: nearly two kilobytes are stored and
counted, the second of them from behind the end of the request. -/
theorem fsWrite_overruns : StoresBlocks (oneFileSystem 1024 4) 7 id 4 ∧
      1 + 1024 ≤ 4 * (oneFileSystem 1024 4).blockSize ∧
      (fsWrite ⟨7, 0⟩ (oneFileSystem 1024 4) 1 (fun _ => 1) 1024 0 (fun _ _ => 0)
        (fun _ => 0)).1 = 2046 ∧
      (fsWrite ⟨7, 0⟩ (oneFileSystem 1024 4) 1 (fun _ => 1) 1024 0 (fun _ _ => 0)
        (fun _ => 0)).2.2 1025 = 1 :=
  ⟨oneFileSystem_stores 1024 4 7, by decide, by decide +kernel, by decide +kernel⟩

end Yanix.Fs
