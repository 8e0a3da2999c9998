/-
Module: Yanix.Foundation.BitSet
Purpose: Sets of numbers kept as the bits of words or of byte memory, with the mask operations
  and the search for the least number that is missing.
-/
import Mathlib.Data.List.Find
import Yanix.Foundation.Bytes

namespace Foundation

open Function List

variable {j : Nat} {n k : Nat} {m' : Bytes}

/-- An array of `w`-bit words. -/
abbrev Words (w : Nat) := Nat → BitVec w

namespace Words

variable {w : Nat}

def mem (words : Words w) (k : Nat) : Bool := (words (k / w)).getLsbD (k % w)

def insert (words : Words w) (k : Nat) : Words w :=
  update words (k / w) (words (k / w) ||| (1#w <<< (k % w)))

def erase (words : Words w) (k : Nat) : Words w :=
  update words (k / w) (words (k / w) &&& ~~~(1#w <<< (k % w)))

/-- The first clear bit of a word. -/
def firstClearBit (word : BitVec w) : Option Nat :=
  (List.range w).find? fun j => decide (word &&& (1#w <<< j) = 0#w)

/-- The first clear bit of the first `n` words.  Words of ones only are passed
over as a whole. -/
def firstClear (words : Words w) (n : Nat) : Option Nat := (List.range n).findSome? fun i =>
    if words i ≠ BitVec.allOnes w then (firstClearBit (words i)).map (i * w + ·) else none

theorem mask_getLsbD (i : Nat) (lt : i < w) (j : Nat) : (1#w <<< i).getLsbD j = decide (i = j) := by
  rw [← BitVec.twoPow_eq, BitVec.getLsbD_twoPow]
  simp [lt]

theorem word_bit_eq_iff {k j : Nat} (sameWord : j / w = k / w) : k % w = j % w ↔ j = k := by
  constructor
  · intro sameBit
    rw [← Nat.div_add_mod j w, ← Nat.div_add_mod k w, sameWord, sameBit]
  · intro same
    rw [same]

theorem mem_insert (pos : 0 < w) (words : Words w) (k j : Nat) :
    (words.insert k).mem j = (decide (j = k) || words.mem j) := by
  unfold mem insert
  by_cases sameWord : j / w = k / w
  · rw [sameWord, update_self, BitVec.getLsbD_or, mask_getLsbD _ (Nat.mod_lt _ pos),
      decide_eq_decide.mpr (word_bit_eq_iff sameWord), Bool.or_comm]
  have ne : j ≠ k := fun same => sameWord (by rw [same])
  rw [update_of_ne sameWord]
  simp [ne]

theorem mem_erase (pos : 0 < w) (words : Words w) (k j : Nat) :
    (words.erase k).mem j = (!decide (j = k) && words.mem j) := by
  unfold mem erase
  by_cases sameWord : j / w = k / w
  · have bit : j % w < w := Nat.mod_lt _ pos
    rw [sameWord, update_self, BitVec.getLsbD_and, BitVec.getLsbD_not,
      mask_getLsbD _ (Nat.mod_lt _ pos), decide_eq_true bit, Bool.true_and, Bool.and_comm]
    simp [word_bit_eq_iff sameWord]
  · have ne : j ≠ k := fun same => sameWord (by rw [same])
    rw [update_of_ne sameWord]
    simp [ne]

/-! ## The search -/

theorem masked_eq_zero_iff (word : BitVec w) (lt : j < w) :
    word &&& (1#w <<< j) = 0#w ↔ word.getLsbD j = false := by
  rw [← BitVec.twoPow_eq, BitVec.and_twoPow]
  cases bit : word.getLsbD j with
  | false => simp
  | true =>
    have ne : BitVec.twoPow w j ≠ 0#w := by
      intro zero
      have bitSet := BitVec.getLsbD_twoPow (w := w) j j
      rw [zero] at bitSet
      simp [lt] at bitSet
    simp [ne]

theorem firstClearBit_eq_find? (word : BitVec w) :
    firstClearBit word = (List.range w).find? fun j => !word.getLsbD j := by
  apply find?_congr
  intro j mem
  have lt : j < w := mem_range.mp mem
  rw [Bool.eq_iff_iff, decide_eq_true_iff, masked_eq_zero_iff word lt, Bool.not_eq_true']

/-- The test for words of ones is an optimisation only. -/
theorem firstClearBit_allOnes : firstClearBit (BitVec.allOnes w) = none := by
  rw [firstClearBit_eq_find?, find?_range_eq_none]
  intro i lt
  simp [lt]

theorem mem_word (words : Words w) (lt : j < w) :
    words.mem (n * w + j) = (words n).getLsbD j := by
  unfold mem
  rw [Nat.mul_comm, Nat.mul_add_div (by omega), Nat.mul_add_mod, Nat.div_eq_of_lt lt,
    Nat.mod_eq_of_lt lt, Nat.add_zero]

theorem firstClear_eq_find? (words : Words w) (n : Nat) :
    words.firstClear n = (List.range (n * w)).find? fun k => !words.mem k := by
  induction n with
  | zero => simp [firstClear]
  | succ n ih =>
    have word : (if words n ≠ BitVec.allOnes w then
          (firstClearBit (words n)).map (n * w + ·) else none) =
        (firstClearBit (words n)).map (n * w + ·) := by
      split
      · rfl
      rename_i full
      rw [Decidable.not_not.mp full, firstClearBit_allOnes]
      rfl
    have bits : (List.range w).find? ((fun k => !words.mem k) ∘ fun j => n * w + j) =
        firstClearBit (words n) := by
      rw [firstClearBit_eq_find?]
      apply find?_congr
      intro j member
      rw [Function.comp_apply, mem_word words (mem_range.mp member)]
    unfold firstClear at ih ⊢
    rw [range_succ, findSome?_append, ih, Nat.succ_mul, range_add,
      find?_append, find?_map, bits, findSome?_singleton, word]

theorem firstClear_eq_some {words : Words w} (found : words.firstClear n = some k) :
    k < n * w ∧ words.mem k = false ∧ ∀ j < k, words.mem j = true := by
  rw [firstClear_eq_find?, find?_range_eq_some] at found
  obtain ⟨clear, bound, least⟩ := found
  exact ⟨mem_range.mp bound, by simpa using clear, fun j lt => by simpa using least j lt⟩

theorem firstClear_eq_none {words : Words w} {n : Nat} :
    words.firstClear n = none ↔ ∀ k < n * w, words.mem k = true := by
  rw [firstClear_eq_find?, find?_range_eq_none]
  simp

end Words

/-- The bytes of memory as words of eight bits. -/
def bits (m : Bytes) : Words 8 := fun x => (m x).toBitVec

def bitAt (m : Bytes) (p : Nat) : Bool := (bits m).mem p

def setBit (m : Bytes) (p : Nat) : Bytes := fun x => UInt8.ofBitVec ((bits m).insert p x)

/-- The memory from its beginning on as 32-bit words. -/
def words32 (m : Bytes) : Words 32 := fun i => BitVec.ofNat 32 (load32 m (i * 4))

theorem bitAt_eq_testBit (m : Bytes) (p : Nat) :
    bitAt m p = (m (p / 8)).toNat.testBit (p % 8) := rfl

variable {m : Bytes}

theorem bitAt_ext (same : ∀ p, bitAt m p = bitAt m' p) : m = m' := by
  funext x
  apply UInt8.toNat_inj.mp
  apply Nat.eq_of_testBit_eq
  intro t
  by_cases lt : t < 8
  · have bit := same (8 * x + t)
    rw [bitAt_eq_testBit, bitAt_eq_testBit] at bit
    rwa [show (8 * x + t) / 8 = x by omega, show (8 * x + t) % 8 = t by omega] at bit
  have high (b : UInt8) : b.toNat.testBit t = false :=
    Nat.testBit_lt_two_pow (Nat.lt_of_lt_of_le b.toNat_lt
      (Nat.pow_le_pow_right (by decide) (not_lt.mp lt)))
  rw [high, high]

theorem bitAt_setBit (m : Bytes) (q p : Nat) :
    bitAt (setBit m q) p = (decide (p = q) || bitAt m p) :=
  Words.mem_insert (by decide) (bits m) q p

theorem setBit_ne_self {p : Nat} (clear : bitAt m p = false) : setBit m p ≠ m := by
  intro same
  have bit : bitAt (setBit m p) p = bitAt m p := by rw [same]
  rw [bitAt_setBit, clear] at bit
  simp at bit

theorem bitAt_blit (dst : Bytes) (d : Nat) (src : Bytes) (s n p : Nat) :
    bitAt (blit dst d src s n) p =
      if 8 * d ≤ p ∧ p < 8 * (d + n) then bitAt src (8 * s + (p - 8 * d)) else bitAt dst p := by
  rw [bitAt_eq_testBit]
  split
  · rw [blit_apply_of_mem _ _ _ _ _ (by omega) (by omega), bitAt_eq_testBit]
    rw [show s + (p / 8 - d) = (8 * s + (p - 8 * d)) / 8 by omega,
      show (8 * s + (p - 8 * d)) % 8 = p % 8 by omega]
  · rw [blit_apply_of_not_mem _ _ _ _ _ (by omega)]
    rfl

theorem setBit_congr (p : Nat) {x : Nat} (same : m x = m' x) :
    setBit m p x = setBit m' p x := by
  unfold setBit Words.insert bits
  by_cases here : x = p / 8
  · subst here
    rw [update_self, update_self, same]
  · rw [update_of_ne here, update_of_ne here, same]

theorem setBit_apply_of_ne (m : Bytes) {p x : Nat} (ne : x ≠ p / 8) : setBit m p x = m x := by
  unfold setBit Words.insert
  rw [update_of_ne ne]
  rfl

theorem bitAt_suffix (m : Bytes) (a p : Nat) : bitAt (suffix m a) p = bitAt m (8 * a + p) := by
  rw [bitAt_eq_testBit, bitAt_eq_testBit, show (8 * a + p) / 8 = a + p / 8 by omega,
    show (8 * a + p) % 8 = p % 8 by omega]
  rfl

/-- A copy of a range with one more bit, written back where it was read. -/
theorem blit_setBit_suffix (m : Bytes) (a : Nat) (lt : k < 8 * n) :
    blit m a (setBit (suffix m a) k) 0 n = setBit m (8 * a + k) := by
  apply bitAt_ext
  intro p
  rw [bitAt_blit, bitAt_setBit, bitAt_setBit, bitAt_suffix]
  split
  · rw [show 8 * a + (8 * 0 + (p - 8 * a)) = p by omega]
    congr 1
    rw [decide_eq_decide]
    omega
  · rw [decide_eq_false (by omega), Bool.false_or]

/-- Bit `k` of bitmap `g` is the first clear one when the bitmaps of `size` bytes are searched in
order. -/
structure FirstFree (bitmap : Nat → Bytes) (groups size g k : Nat) : Prop where
  group : g < groups
  bit : k < 8 * size
  clear : bitAt (bitmap g) k = false
  least : ∀ j < k, bitAt (bitmap g) j = true
  full : ∀ h < g, ∀ j < 8 * size, bitAt (bitmap h) j = true

theorem FirstFree.unique {bitmap : Nat → Bytes} {groups size g g' k k' : Nat}
    (first : FirstFree bitmap groups size g k) (second : FirstFree bitmap groups size g' k') :
    g = g' ∧ k = k' := by
  have notBefore {g g' k k' : Nat} (first : FirstFree bitmap groups size g k)
      (second : FirstFree bitmap groups size g' k') : ¬ g < g' := by
    intro lt
    have set := second.full g lt k first.bit
    rw [first.clear] at set
    cases set
  obtain rfl : g = g' := Nat.le_antisymm (not_lt.mp (notBefore second first))
      (not_lt.mp (notBefore first second))
  have notLess {k k' : Nat} (first : FirstFree bitmap groups size g k)
      (second : FirstFree bitmap groups size g k') : ¬ k < k' := by
    intro less
    have set := second.least k less
    rw [first.clear] at set
    cases set
  exact ⟨rfl, Nat.le_antisymm (not_lt.mp (notLess second first)) (not_lt.mp (notLess first second))⟩

/-- Little-endian: bit `j` of a word is a bit of its byte `j / 8`. -/
theorem load32_testBit (m : Bytes) (a : Nat) (lt : j < 32) :
    (load32 m a).testBit j = bitAt m (8 * a + j) := by
  have b0 := (m a).toNat_lt
  have b1 := (m (a + 1)).toNat_lt
  have b2 := (m (a + 2)).toNat_lt
  have nested : load32 m a = 2 ^ 8 * (2 ^ 8 * (2 ^ 8 * (m (a + 3)).toNat + (m (a + 2)).toNat) +
      (m (a + 1)).toNat) + (m a).toNat := by
    unfold load32
    omega
  rw [nested, Nat.testBit_two_pow_mul_add _ b0, Nat.testBit_two_pow_mul_add _ b1,
    Nat.testBit_two_pow_mul_add _ b2, bitAt_eq_testBit]
  split_ifs with first second third
  · rw [show (8 * a + j) / 8 = a by omega, show (8 * a + j) % 8 = j by omega]
  · rw [show (8 * a + j) / 8 = a + 1 by omega, show (8 * a + j) % 8 = j - 8 by omega]
  · rw [show (8 * a + j) / 8 = a + 2 by omega, show (8 * a + j) % 8 = j - 8 - 8 by omega]
  · rw [show (8 * a + j) / 8 = a + 3 by omega, show (8 * a + j) % 8 = j - 8 - 8 - 8 by omega]

theorem words32_mem (m : Bytes) (k : Nat) : (words32 m).mem k = bitAt m k := by
  have lt : k % 32 < 32 := Nat.mod_lt _ (by decide)
  unfold Words.mem words32
  rw [BitVec.getLsbD_ofNat, decide_eq_true lt, Bool.true_and, load32_testBit _ _ lt]
  congr 1
  omega

theorem bitAt_store32 (m : Bytes) (a v p : Nat) : bitAt (store32 m a v) p =
      if 8 * a ≤ p ∧ p < 8 * a + 32 then v.testBit (p - 8 * a) else bitAt m p := by
  split
  · next lt =>
      rw [← show 8 * a + (p - 8 * a) = p by omega,
        ← load32_testBit _ _ (by omega), load32_store32_same,
        Nat.testBit_mod_two_pow, decide_eq_true (by omega), Bool.true_and,
        show 8 * a + (p - 8 * a) - 8 * a = p - 8 * a by omega]
  · rw [bitAt_eq_testBit, store32_apply_of_disjoint _ _ (by omega)]
    rfl

theorem store32_or_bit (m : Bytes) (i : Nat) (bound : j < 32) :
    store32 m (i * 4) (words32 m i ||| 1#32 <<< j).toNat = setBit m (i * 32 + j) := by
  apply bitAt_ext
  intro p
  rw [bitAt_store32, bitAt_setBit]
  split
  · next lt =>
      have bit : (words32 m i ||| 1#32 <<< j).toNat.testBit (p - 8 * (i * 4)) =
          (words32 m i ||| 1#32 <<< j).getLsbD (p - 8 * (i * 4)) := rfl
      have old : (words32 m i).getLsbD (p - 8 * (i * 4)) = bitAt m p := by
        unfold words32
        rw [BitVec.getLsbD_ofNat, decide_eq_true (by omega), Bool.true_and,
          load32_testBit _ _ (by omega), show 8 * (i * 4) + (p - 8 * (i * 4)) = p by omega]
      rw [bit, BitVec.getLsbD_or, old, Words.mask_getLsbD _ bound, Bool.or_comm]
      congr 1
      rw [decide_eq_decide]
      omega
  · next away =>
      have ne : p ≠ i * 32 + j := by omega
      rw [decide_eq_false ne, Bool.false_or]

end Foundation
