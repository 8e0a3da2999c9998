/-
Module: Yanix.Proofs.FileRead
Purpose: What `fs_read` transfers over a file system that delivers whole blocks exactly:
  three copies, whose sizes decide whether the call is right.
-/
import Yanix.Fs.FileIo

namespace Yanix.Fs

open Foundation

variable {node : VfsNode} {fs : Filesystem σ} {content : Bytes} {total : Nat} {st : σ}
  {blocksize seek amount : Nat} {σ : Type*}

/-- The file named by `offset` has `total` readable blocks with this content:
`block_read` transfers the readable ones among the blocks asked for and returns
their number. -/
structure DeliversBlocks (fs : Filesystem σ) (offset : Nat) (content : Bytes) (total : Nat)
    (st : σ) : Prop where
  blockRead : ∀ blk buf k n, fs.blockRead offset blk buf k n st =
    (((min n (total - blk) : Nat) : Int),
      blit buf k content (blk * fs.blockSize) (min n (total - blk) * fs.blockSize))

/-- A file system with one file of `total` blocks, its state being the content. -/
def oneFileSystem (blockSize total : Nat) : Filesystem Bytes where
  blockSize := blockSize
  blockRead _ blk buf k n content := (((min n (total - blk) : Nat) : Int),
      blit buf k content (blk * blockSize) (min n (total - blk) * blockSize))
  blockWrite _ blk buf k n content := (((min n (total - blk) : Nat) : Int),
      blit content (blk * blockSize) buf k (min n (total - blk) * blockSize))
  updateNode _ content := (0, content)

theorem oneFileSystem_delivers (blockSize total offset : Nat) (content : Bytes) :
    DeliversBlocks (oneFileSystem blockSize total) offset content total content :=
  ⟨fun _ _ _ _ => rfl⟩

variable {blk eRest q : Nat}

namespace DeliversBlocks

variable (delivers : DeliversBlocks fs node.offset content total st)

include delivers

theorem read_within {n : Nat} (le : n ≤ total - blk) (buf : Bytes) (k : Nat) :
    fs.blockRead node.offset blk buf k n st =
      ((n : Int), blit buf k content (blk * fs.blockSize) (n * fs.blockSize)) := by
  rw [delivers.blockRead, min_eq_left le]

theorem read_beyond (away : total ≤ blk) (buf : Bytes) (k : Nat) :
    (fs.blockRead node.offset blk buf k 1 st).1 = 0 := by
  rw [delivers.blockRead, Nat.sub_eq_zero_of_le away]
  simp

theorem tail_within (readable : blk < total ∨ eRest = 0) (partly : eRest ≤ fs.blockSize)
    (fresh buf : Bytes) (k ret : Nat) (small : ret < 2 ^ 32) :
    fsReadTail node fs fresh st eRest buf blk k ret =
      (toSigned (add32 ret eRest), blit buf k content (blk * fs.blockSize) eRest) := by
  unfold fsReadTail
  by_cases nothing : eRest = 0
  · subst nothing
    rw [if_neg (not_not.mpr rfl), blit_zero, add32_of_lt (by simpa using small), Nat.add_zero]
  have lt : blk < total := readable.resolve_right nothing
  rw [if_pos nothing, delivers.read_within (by omega)]
  simp only [Nat.cast_one, one_ne_zero, if_false, Nat.one_mul]
  rw [← Nat.zero_add 0, blit_through _ _ _ _ _ (by omega), Nat.add_zero]

theorem tail_beyond (away : total ≤ blk) (eRest : Nat) (fresh buf : Bytes) (k ret : Nat) :
    fsReadTail node fs fresh st eRest buf blk k ret = (toSigned ret, buf) := by
  unfold fsReadTail
  simp only [delivers.read_beyond away, if_true, ite_self]

theorem body_within (le : q ≤ total - blk) (lt : q < 2 ^ 31) (eRest : Nat)
    (fresh buf : Bytes) (k ret : Nat) (smalls : blk < 2 ^ 32 ∧ k < 2 ^ 32 ∧ ret < 2 ^ 32) :
    fsReadBody node fs fresh st (toSigned q) eRest buf blk k ret = fsReadTail node fs fresh st eRest
        (blit buf k content (blk * fs.blockSize) (q * fs.blockSize)) (add32 blk q)
        (add32 k (mul32 q fs.blockSize)) (add32 ret (mul32 q fs.blockSize)) := by
  have signed : toSigned q = (q : Int) := toSigned_of_lt lt
  have pattern : ofSigned (q : Int) = q := ofSigned_natCast (by omega)
  unfold fsReadBody
  by_cases none : q = 0
  · subst none
    simp only [signed, Nat.cast_zero, ne_eq, not_true_eq_false, if_false, zero_mul, blit_zero,
      mul32, Nat.zero_mod]
    rw [add32_of_lt (by omega), add32_of_lt (by omega), add32_of_lt (by omega)]
    simp
  · have nonzero : (q : Int) ≠ 0 := by exact_mod_cast none
    simp only [signed, pattern, if_pos nonzero, delivers.read_within le]
    rw [if_neg (not_not.mpr rfl)]

theorem body_early (qSmall : q < 2 ^ 32)
    (differs : ((min q (total - blk) : Nat) : Int) ≠ toSigned q) (ne : q ≠ 0) (eRest : Nat)
    (fresh buf : Bytes) (k ret : Nat) :
    fsReadBody node fs fresh st (toSigned q) eRest buf blk k ret =
      (toSigned (add32 ret (mul32 (min q (total - blk)) fs.blockSize)),
        blit buf k content (blk * fs.blockSize) (min q (total - blk) * fs.blockSize)) := by
  have counted : ofSigned ((min q (total - blk) : Nat) : Int) = min q (total - blk) :=
    ofSigned_natCast (by omega)
  unfold fsReadBody
  simp only [if_pos (toSigned_ne_zero qSmall ne), ofSigned_toSigned qSmall,
    delivers.blockRead, counted, if_pos differs]

theorem body_eq (count : q < 2 ^ 31 ∨ eRest = 0) (qSmall : q < 2 ^ 32)
    (partly : eRest ≤ fs.blockSize) (fresh buf : Bytes) (k ret : Nat)
    (smalls : blk < 2 ^ 32 ∧ k < 2 ^ 32 ∧ ret < 2 ^ 32) :
    fsReadBody node fs fresh st (toSigned q) eRest buf blk k ret =
      if q ≤ total - blk ∧ add32 blk q < total then
        (toSigned (add32 (add32 ret (mul32 q fs.blockSize)) eRest),
          blit (blit buf k content (blk * fs.blockSize) (q * fs.blockSize))
            (add32 k (mul32 q fs.blockSize)) content (add32 blk q * fs.blockSize) eRest)
      else
        (toSigned (add32 ret (mul32 (min q (total - blk)) fs.blockSize)),
          blit buf k content (blk * fs.blockSize) (min q (total - blk) * fs.blockSize)) := by
  by_cases lt : q ≤ total - blk
  · by_cases small : q < 2 ^ 31
    · rw [delivers.body_within lt small _ _ _ _ _ smalls]
      by_cases readable : add32 blk q < total
      · rw [if_pos ⟨lt, readable⟩,
          delivers.tail_within (.inl readable) partly _ _ _ _ (add32_lt ..)]
      · rw [if_neg (fun both => readable both.2), delivers.tail_beyond (not_lt.mp readable),
          min_eq_left lt]
    · -- the count is negative as an `int`
      have nothing : eRest = 0 := count.resolve_left small
      have negative := (toSigned_neg_iff qSmall).mpr (not_lt.mp small)
      rw [delivers.body_early qSmall (by omega) (by omega), min_eq_left lt, nothing,
        blit_zero, add32_zero (add32_lt ..), ite_self]
  · have differs : ((min q (total - blk) : Nat) : Int) ≠ toSigned q := by
      intro same
      have nonneg : ¬toSigned q < 0 := by omega
      rw [toSigned_neg_iff qSmall, not_le] at nonneg
      rw [toSigned_of_lt nonneg] at same
      omega
    rw [delivers.body_early qSmall differs (by omega), if_neg (fun both => lt both.1)]

end DeliversBlocks

theorem endRest_aligned (aligned : seek % blocksize = 0) (pos : 0 < blocksize)
    (lt : blocksize < 2 ^ 32) (small : amount < 2 ^ 31) :
    endRest blocksize seek amount =
      if amount + blocksize < 2 ^ 32 then amount % blocksize else amount + blocksize - 2 ^ 32 := by
  unfold endRest
  simp only [aligned, ne_eq, not_true_eq_false, false_and, if_false, Nat.sub_zero]
  split
  · next noWrap => rw [add32_of_lt noWrap, Nat.add_mod_right]
  next wraps =>
    have sum : add32 amount blocksize = amount + blocksize - 2 ^ 32 := by
      unfold add32
      omega
    rw [sum, Nat.mod_eq_of_lt (by omega)]

theorem endRest_inside (ne : seek % blocksize ≠ 0)
    (short : amount < blocksize - seek % blocksize) : endRest blocksize seek amount = 0 := by
  unfold endRest
  rw [if_pos ⟨ne, short⟩]

/-- Where a request leaves its first block, the last copy has the length of the
request minus the part of the first block that was not asked for. -/
theorem endRest_crossing (pos : 0 < blocksize) (small : amount < 2 ^ 31)
    (crosses : blocksize - seek % blocksize ≤ amount) :
    endRest blocksize seek amount =
      if seek % blocksize ≤ amount % blocksize then amount % blocksize - seek % blocksize
      else amount % blocksize + blocksize - seek % blocksize := by
  have startLt : seek % blocksize < blocksize := Nat.mod_lt _ pos
  have restLt : amount % blocksize < blocksize := Nat.mod_lt _ pos
  have whole := Nat.div_add_mod amount blocksize
  unfold endRest
  rw [if_neg (fun short => not_lt.mpr crosses short.2), add32_of_lt (by omega)]
  generalize seek % blocksize = s at *
  generalize amount % blocksize = r at *
  rw [← whole, add_assoc, Nat.mul_add_mod]
  split
  · rw [show r + (blocksize - s) = r - s + blocksize by omega, Nat.add_mod_right,
      Nat.mod_eq_of_lt (by omega)]
  · rw [Nat.mod_eq_of_lt (by omega)]
    omega

theorem endRest_le (seek amount : Nat) (pos : 0 < blocksize) :
    endRest blocksize seek amount ≤ blocksize := by
  unfold endRest
  dsimp only
  split
  · exact Nat.zero_le _
  · exact Nat.le_of_lt (Nat.mod_lt _ pos)

theorem headSize_inside (short : amount < blocksize - seek % blocksize) :
    headSize blocksize (seek % blocksize) amount = amount := if_pos short

theorem headSize_crossing (crosses : blocksize - seek % blocksize ≤ amount) :
    headSize blocksize (seek % blocksize) amount = blocksize - seek % blocksize :=
  if_neg (not_lt.mpr crosses)

theorem headSize_lt (blocksize sRest : Nat) (small : amount < 2 ^ 32) :
    headSize blocksize sRest amount < 2 ^ 32 := by
  unfold headSize
  split <;> omega

theorem headSize_fits (pos : 0 < blocksize) (seek amount : Nat) :
    seek % blocksize + headSize blocksize (seek % blocksize) amount ≤ blocksize := by
  have startLt := Nat.mod_lt seek pos
  unfold headSize
  split <;> omega

theorem nextBlock_eq (seekSmall : seek < 2 ^ 31) (blocksize : Nat) :
    add32 (seek / blocksize) 1 = seek / blocksize + 1 := by
  have := Nat.div_le_self seek blocksize
  exact add32_of_lt (by omega)

/-! ## The number of bytes copied -/

/-- The bytes the three stages of `fs_read` ask for together. -/
def askedBytes (blocksize seek amount : Nat) : Nat :=
  (if seek % blocksize = 0 then 0 else headSize blocksize (seek % blocksize) amount) +
    amount / blocksize * blocksize + endRest blocksize seek amount

theorem counts_small (pos : 0 < blocksize) (seekSmall : seek < 2 ^ 31)
    (small : amount < 2 ^ 32) :
    amount / blocksize < 2 ^ 31 ∧ seek / blocksize + 1 + amount / blocksize < 2 ^ 32 ∨
      endRest blocksize seek amount = 0 := by
  rcases lt_or_ge 1 blocksize with larger | single
  · have half : amount / blocksize ≤ amount / 2 := Nat.div_le_div_left larger (by decide)
    have half' : seek / blocksize ≤ seek / 2 := Nat.div_le_div_left larger (by decide)
    omega
  right
  have one : blocksize = 1 := by omega
  simp only [endRest, one, Nat.mod_one, ite_self]

variable {head : Nat}

theorem copied_eq {total : Nat} (start : blk * blocksize = seek + head)
    (known : blk ≤ total ∨ head = 0) (partly : eRest ≤ blocksize) :
    min (head + q * blocksize + eRest) (total * blocksize - seek) =
      if q ≤ total - blk ∧ blk + q < total then head + q * blocksize + eRest
      else head + min q (total - blk) * blocksize := by
  rcases lt_or_ge total blk with behind | lt
  · have none : head = 0 := known.resolve_left (not_le.mpr behind)
    have bytes := Nat.mul_le_mul_right blocksize behind.le
    rw [if_neg (by omega), Nat.sub_eq_zero_of_le behind.le, Nat.min_zero, zero_mul]
    omega
  obtain ⟨d, rfl⟩ := Nat.exists_eq_add_of_le lt
  rw [add_mul, Nat.add_sub_cancel_left]
  rcases lt_or_ge d q with fewer | le
  · have bytes := Nat.mul_le_mul_right blocksize fewer.le
    rw [if_neg (by omega), min_eq_right fewer.le]
    omega
  obtain ⟨e, rfl⟩ := Nat.exists_eq_add_of_le le
  rw [add_mul, min_eq_left le]
  rcases Nat.eq_zero_or_pos e with rfl | more
  · rw [if_neg (by omega)]
    omega
  have bytes := Nat.le_mul_of_pos_left blocksize more
  rw [if_pos ⟨le, by omega⟩]
  omega

section

variable (delivers : DeliversBlocks fs node.offset content total st)

include delivers

theorem DeliversBlocks.body_copies (start : blk * fs.blockSize = seek + head)
    (known : blk ≤ total ∨ head = 0) (count : q < 2 ^ 31 ∧ blk + q < 2 ^ 32 ∨ eRest = 0)
    (blkSmall : blk < 2 ^ 32) (headSmall : head < 2 ^ 32) (qSmall : q < 2 ^ 32)
    (bytesSmall : q * fs.blockSize < 2 ^ 32) (partly : eRest ≤ fs.blockSize) (fresh buf : Bytes) :
    ∃ data, fsReadBody node fs fresh st (toSigned q) eRest (blit buf 0 content seek head) blk
      head head = (toSigned (min (head + q * fs.blockSize + eRest)
          (total * fs.blockSize - seek) % 2 ^ 32), data) ∧
      (min (head + q * fs.blockSize + eRest) (total * fs.blockSize - seek) < 2 ^ 32 →
        data = blit buf 0 content seek
          (min (head + q * fs.blockSize + eRest) (total * fs.blockSize - seek))) := by
  have joined (n : Nat) : blit (blit buf 0 content seek head) head content (blk * fs.blockSize) n =
      blit buf 0 content seek (head + n) := by
    rw [start, blit_append_front]
  have fewer : min q (total - blk) * fs.blockSize ≤ q * fs.blockSize :=
    Nat.mul_le_mul_right _ (min_le_left ..)
  rw [delivers.body_eq (count.imp_left And.left) qSmall partly _ _ _ _
    ⟨blkSmall, headSmall, headSmall⟩, copied_eq start known partly, mul32_of_lt bytesSmall,
    mul32_of_lt (fewer.trans_lt bytesSmall), joined, joined]
  rcases count with ⟨-, noWrap⟩ | nothing
  · rw [add32_of_lt noWrap]
    split
    · refine ⟨_, congrArg (fun ret => (toSigned ret, _)) (Nat.mod_add_mod ..), fun lt => ?_⟩
      rw [add32_of_lt (by omega), add_mul, start, add_assoc seek, blit_append_front]
    · exact ⟨_, rfl, fun _ => rfl⟩
  rw [nothing, blit_zero, add32_zero (add32_lt ..), Nat.add_zero]
  by_cases le : q ≤ total - blk
  · rw [min_eq_left le, ite_self, ite_self]
    exact ⟨_, rfl, fun _ => rfl⟩
  · rw [if_neg (fun both => le both.1), if_neg (fun both => le both.1)]
    exact ⟨_, rfl, fun _ => rfl⟩

theorem fsRead_head (pos : 0 < fs.blockSize) (seekSmall : seek < 2 ^ 31)
    (readable : seek / fs.blockSize < total) (ne : seek % fs.blockSize ≠ 0) (buf : Bytes)
    (flags : Int) (fresh : Nat → Bytes) :
    let size := headSize fs.blockSize (seek % fs.blockSize) amount
    fsRead node fs seek buf amount flags fresh st =
      fsReadBody node fs (fresh 1) st (toSigned (amount / fs.blockSize))
        (endRest fs.blockSize seek amount) (blit buf 0 content seek size)
        (seek / fs.blockSize + 1) size size := by
  have start := Nat.div_add_mod' seek fs.blockSize
  have copied := blit_through buf 0 (fresh 0) 0 content (headSize_fits pos seek amount)
    (seek / fs.blockSize * fs.blockSize)
  rw [Nat.zero_add, start] at copied
  unfold fsRead
  simp only [ofSigned_natCast (show seek < 2 ^ 32 by omega), if_pos ne,
    delivers.read_within (show 1 ≤ total - seek / fs.blockSize by omega), Nat.cast_one,
    one_ne_zero, if_false, nextBlock_eq seekSmall, Nat.one_mul, copied]

theorem fsRead_copies (pos : 0 < fs.blockSize) (lt : fs.blockSize < 2 ^ 32)
    (seekSmall : seek < 2 ^ 31) (small : amount < 2 ^ 32) (buf : Bytes) (flags : Int)
    (fresh : Nat → Bytes) :
    ∃ data, fsRead node fs seek buf amount flags fresh st =
        (toSigned (min (askedBytes fs.blockSize seek amount)
          (total * fs.blockSize - seek) % 2 ^ 32), data) ∧
      (min (askedBytes fs.blockSize seek amount) (total * fs.blockSize - seek) < 2 ^ 32 →
        data = blit buf 0 content seek
          (min (askedBytes fs.blockSize seek amount) (total * fs.blockSize - seek))) := by
  have start := Nat.div_add_mod' seek fs.blockSize
  have startLt := Nat.mod_lt seek pos
  have whole := Nat.div_add_mod' amount fs.blockSize
  have quotients : seek / fs.blockSize ≤ seek ∧ amount / fs.blockSize ≤ amount :=
    ⟨Nat.div_le_self .., Nat.div_le_self ..⟩
  have partly := endRest_le seek amount pos
  have count := counts_small pos seekSmall small
  have blocks : amount / fs.blockSize * fs.blockSize < 2 ^ 32 := by omega
  unfold askedBytes
  by_cases aligned : seek % fs.blockSize = 0
  · have first : seek / fs.blockSize * fs.blockSize = seek + 0 := by omega
    have body := delivers.body_copies first (.inr rfl)
      (count.imp_left fun both => ⟨both.1, by omega⟩) (by omega) (by decide) (by omega) blocks
      partly (fresh 1) buf
    unfold fsRead
    simp only [ofSigned_natCast (show seek < 2 ^ 32 by omega), aligned, ne_eq, not_true_eq_false,
      if_false, if_true]
    exact body
  rw [if_neg aligned]
  by_cases readable : seek / fs.blockSize < total
  · have reached := Nat.mul_le_mul_right fs.blockSize (Nat.succ_le_of_lt readable)
    rw [Nat.succ_mul] at reached
    rw [fsRead_head delivers pos seekSmall readable aligned]
    by_cases short : amount < fs.blockSize - seek % fs.blockSize
    · have noBlocks : amount / fs.blockSize = 0 := Nat.div_eq_of_lt (by omega)
      have all : min (amount + 0 * fs.blockSize + 0) (total * fs.blockSize - seek) =
        amount := by omega
      rw [headSize_inside short, noBlocks, endRest_inside aligned short, all,
        Nat.mod_eq_of_lt small]
      exact ⟨_, rfl, fun _ => rfl⟩
    have next : (seek / fs.blockSize + 1) * fs.blockSize =
        seek + (fs.blockSize - seek % fs.blockSize) := by
      rw [Nat.succ_mul]
      omega
    rw [headSize_crossing (not_lt.mp short)]
    exact delivers.body_copies next (.inl readable) count (by omega) (by omega) (by omega)
      blocks partly (fresh 1) _
  · have beyond := Nat.mul_le_mul_right fs.blockSize (not_lt.mp readable)
    rw [Nat.sub_eq_zero_of_le (by omega : total * fs.blockSize ≤ seek), Nat.min_zero]
    unfold fsRead
    simp only [ofSigned_natCast (show seek < 2 ^ 32 by omega), if_pos aligned,
      delivers.read_beyond (not_lt.mp readable), if_true]
    exact ⟨_, rfl, fun _ => (blit_zero ..).symm⟩

end

/-! ## When the number of bytes is right -/

/-- The requests that `fs_read` serves correctly from a file of `total` readable
blocks. -/
def ReadsRight (blocksize total seek amount : Nat) : Prop := amount < 2 ^ 31 ∧
    if seek % blocksize = 0 then amount + blocksize < 2 ^ 32
    else amount < blocksize - seek % blocksize ∨
      (2 * (seek % blocksize) = blocksize ∧ seek % blocksize ≤ amount % blocksize) ∨
      seek + amount = total * blocksize

theorem length_of_ret {len : Nat} (lt : amount < 2 ^ 31) (near : len < amount + 2 ^ 32)
    (ret : toSigned (len % 2 ^ 32) = (amount : Int)) : len = amount := by
  have pattern := toSigned_injective (Nat.mod_lt _ (by decide)) (by omega)
    (ret.trans (toSigned_of_lt lt).symm)
  omega

section

variable {blocksize total seek amount : Nat} (pos : 0 < blocksize)

include pos

theorem alignedLength_eq (lt : blocksize < 2 ^ 32) (small : amount < 2 ^ 31)
    (aligned : seek % blocksize = 0) :
    amount / blocksize * blocksize + endRest blocksize seek amount =
      if amount + blocksize < 2 ^ 32 then amount else amount + blocksize - 2 ^ 32 := by
  rw [endRest_aligned aligned pos lt small]
  split
  · exact Nat.div_add_mod' amount blocksize
  · rw [Nat.div_eq_of_lt (by omega), zero_mul, Nat.zero_add]

/-- A request in the second half of its first block that ends in the second half of another one does
not end with a block. -/
theorem end_ne_of_halves (late : blocksize < 2 * (seek % blocksize))
    (order : seek % blocksize ≤ amount % blocksize) : seek + amount ≠ total * blocksize := by
  intro last
  have start := Nat.div_add_mod' seek blocksize
  have whole := Nat.div_add_mod' amount blocksize
  have restLt := Nat.mod_lt amount pos
  have lower : (seek / blocksize + amount / blocksize + 1) * blocksize < total * blocksize := by
    rw [add_mul, add_mul]
    omega
  have upper : total * blocksize < (seek / blocksize + amount / blocksize + 2) * blocksize := by
    rw [add_mul, add_mul]
    omega
  have := Nat.lt_of_mul_lt_mul_right lower
  have := Nat.lt_of_mul_lt_mul_right upper
  omega

theorem copiedBytes_iff (lt : blocksize < 2 ^ 32) (small : amount < 2 ^ 31)
    (le : seek + amount ≤ total * blocksize) :
    min (askedBytes blocksize seek amount) (total * blocksize - seek) = amount ↔
      ReadsRight blocksize total seek amount := by
  unfold askedBytes ReadsRight
  rw [and_iff_right small]
  by_cases aligned : seek % blocksize = 0
  · rw [if_pos aligned, if_pos aligned, Nat.zero_add, alignedLength_eq pos lt small aligned]
    split <;> omega
  rw [if_neg aligned, if_neg aligned]
  by_cases short : amount < blocksize - seek % blocksize
  · have noBlocks : amount / blocksize = 0 := Nat.div_eq_of_lt (by omega)
    rw [headSize_inside short, endRest_inside aligned short, noBlocks]
    exact iff_of_true (by omega) (.inl short)
  have crosses := not_lt.mp short
  have crossingLengthIff : min (blocksize - seek % blocksize + amount / blocksize * blocksize +
      endRest blocksize seek amount) (total * blocksize - seek) = amount ↔ (2 * (seek %
      blocksize) = blocksize ∧ seek % blocksize ≤ amount % blocksize) ∨ seek + amount = total *
      blocksize := by
    have startLt := Nat.mod_lt seek pos
    have whole := Nat.div_add_mod' amount blocksize
    have restLt := Nat.mod_lt amount pos
    rw [endRest_crossing pos small crosses]
    by_cases order : seek % blocksize ≤ amount % blocksize
    · rw [if_pos order]
      rcases lt_or_ge blocksize (2 * (seek % blocksize)) with late | early
      · have : seek + amount ≠ total * blocksize := end_ne_of_halves pos late order
        omega
      · omega
    · rw [if_neg order]
      omega
  rw [headSize_crossing crosses, crossingLengthIff, or_iff_right short]

theorem askedBytes_lt (lt : blocksize < 2 ^ 32) (small : amount < 2 ^ 31) (seek : Nat) :
    askedBytes blocksize seek amount < amount + 2 ^ 32 := by
  have whole := Nat.div_add_mod' amount blocksize
  have restLt := Nat.mod_lt amount pos
  unfold askedBytes
  by_cases aligned : seek % blocksize = 0
  · have rest := endRest_le seek amount pos
    rw [if_pos aligned]
    omega
  rw [if_neg aligned]
  by_cases short : amount < blocksize - seek % blocksize
  · rw [headSize_inside short, endRest_inside aligned short]
    omega
  have crosses := not_lt.mp short
  have startLt := Nat.mod_lt seek pos
  rw [headSize_crossing crosses, endRest_crossing pos small crosses]
  rcases lt_or_ge amount blocksize with less | more
  · rw [Nat.div_eq_of_lt less] at whole ⊢
    split <;> omega
  · split <;> omega

end

/-- Over a file system that delivers its blocks exactly, `fs_read` stores the requested bytes,
nothing else, and returns their number exactly for the requests of `ReadsRight`. -/
theorem fsRead_exact_iff {node : VfsNode} {fs : Filesystem σ} {content : Bytes} {total : Nat}
    {st : σ} (delivers : DeliversBlocks fs node.offset content total st)
    (pos : 0 < fs.blockSize) (small : fs.blockSize < 2 ^ 32) {seek amount : Nat}
    (seekSmall : seek < 2 ^ 31) (amountSmall : amount < 2 ^ 32)
    (inside : seek + amount ≤ total * fs.blockSize) (buf : Bytes) (flags : Int)
    (fresh : Nat → Bytes) :
    fsRead node fs seek buf amount flags fresh st =
        ((amount : Int), blit buf 0 content seek amount) ↔
      ReadsRight fs.blockSize total seek amount := by
  obtain ⟨data, read, copied⟩ := fsRead_copies delivers pos small seekSmall amountSmall buf
    flags fresh
  rw [read]
  by_cases fits : amount < 2 ^ 31
  · rw [← copiedBytes_iff pos small fits inside]
    have near := askedBytes_lt pos small fits seek
    constructor
    · intro same
      exact length_of_ret fits (by omega) (congrArg Prod.fst same)
    · intro len
      rw [copied (by omega), len, Nat.mod_eq_of_lt amountSmall, toSigned_of_lt fits]
  · refine iff_of_false (fun same => ?_) (fun right => fits right.1)
    have ret : toSigned _ = (amount : Int) := congrArg Prod.fst same
    have lt := toSigned_lt (Nat.mod_lt (min (askedBytes fs.blockSize seek amount)
      (total * fs.blockSize - seek)) (by decide))
    omega

theorem fsRead_exact_aligned :
    fsRead ⟨7, 0⟩ (oneFileSystem 1024 4) 1024 (fun _ => 0) 2000 0 (fun _ _ => 0) (fun _ => 1) =
      (2000, blit (fun _ => 0) 0 (fun _ => 1) 1024 2000) :=
  (fsRead_exact_iff (oneFileSystem_delivers 1024 4 7 _) (by decide) (by decide) (by decide)
    (by decide) (by decide) _ 0 _).mpr (by unfold ReadsRight; decide)

/-- A kilobyte from the second byte on: three kilobytes are stored and counted. -/
theorem fsRead_overruns : DeliversBlocks (oneFileSystem 1024 4) 7 (fun _ => 1) 4 (fun _ => 1) ∧
      1 + 1024 ≤ 4 * (oneFileSystem 1024 4).blockSize ∧
      (fsRead ⟨7, 0⟩ (oneFileSystem 1024 4) 1 (fun _ => 0) 1024 0 (fun _ _ => 0) (fun _ => 1)).1 =
        3070 ∧
      (fsRead ⟨7, 0⟩ (oneFileSystem 1024 4) 1 (fun _ => 0) 1024 0 (fun _ _ => 0) (fun _ => 1)).2
        1024 = 1 :=
  ⟨oneFileSystem_delivers 1024 4 7 _, by decide, by decide +kernel, by decide +kernel⟩

end Yanix.Fs
