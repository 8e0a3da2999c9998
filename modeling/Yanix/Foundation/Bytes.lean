/-
Module: Yanix.Foundation.Bytes
Purpose: 32-bit machine arithmetic on natural numbers, and byte-addressed memory with
  little-endian words.
-/
import Mathlib.Tactic.Ring

namespace Foundation

/-- Addition of two `uint32_t` values. -/
def add32 (a b : Nat) : Nat := (a + b) % 2 ^ 32

/-- Subtraction of two `uint32_t` values. -/
def sub32 (a b : Nat) : Nat := (a + 2 ^ 32 - b) % 2 ^ 32

/-- Multiplication of two `uint32_t` values. -/
def mul32 (a b : Nat) : Nat := (a * b) % 2 ^ 32

/-- The `int32_t` reading of a 32-bit pattern. -/
def toSigned (a : Nat) : Int := if a < 2 ^ 31 then (a : Int) else (a : Int) - 2 ^ 32

/-- The 32-bit pattern of an `int32_t`, or of any integer converted to one. -/
def ofSigned (a : Int) : Nat := (a % 2 ^ 32).toNat

variable {a b : Nat}

theorem add32_of_lt (noWrap : a + b < 2 ^ 32) : add32 a b = a + b := Nat.mod_eq_of_lt noWrap

theorem mul32_of_lt (noWrap : a * b < 2 ^ 32) : mul32 a b = a * b := Nat.mod_eq_of_lt noWrap

theorem sub32_of_le (le : b ≤ a) (lt : a < 2 ^ 32) : sub32 a b = a - b := by
  unfold sub32
  omega

theorem sub32_of_lt (lt : a < b) : sub32 a b = a + 2 ^ 32 - b := Nat.mod_eq_of_lt (by omega)

theorem add32_lt (a b : Nat) : add32 a b < 2 ^ 32 := Nat.mod_lt _ (by decide)

theorem mul32_lt (a b : Nat) : mul32 a b < 2 ^ 32 := Nat.mod_lt _ (by decide)

theorem add32_zero (lt : a < 2 ^ 32) : add32 a 0 = a := add32_of_lt lt

theorem sub32_lt (a b : Nat) : sub32 a b < 2 ^ 32 := Nat.mod_lt _ (by decide)

theorem sub32_add32_left (ha : a < 2 ^ 32) (hb : b < 2 ^ 32) : sub32 (add32 a b) a = b := by
  unfold sub32 add32
  omega

theorem toSigned_of_lt (lt : a < 2 ^ 31) : toSigned a = (a : Int) := if_pos lt

theorem toSigned_neg_iff (lt : a < 2 ^ 32) : toSigned a < 0 ↔ 2 ^ 31 ≤ a := by
  unfold toSigned
  split <;> omega

theorem toSigned_injective (ha : a < 2 ^ 32) (hb : b < 2 ^ 32) (same : toSigned a = toSigned b) :
    a = b := by
  unfold toSigned at same
  split at same <;> split at same <;> omega

theorem toSigned_lt (lt : a < 2 ^ 32) : toSigned a < 2 ^ 31 := by
  unfold toSigned
  split <;> omega

theorem toSigned_ne_zero (lt : a < 2 ^ 32) (some : a ≠ 0) : toSigned a ≠ 0 := by
  unfold toSigned
  split <;> omega

@[simp] theorem ofSigned_natCast (lt : a < 2 ^ 32) : ofSigned (a : Int) = a := by
  unfold ofSigned
  omega

@[simp] theorem ofSigned_toSigned (lt : a < 2 ^ 32) : ofSigned (toSigned a) = a := by
  unfold ofSigned toSigned
  split <;> omega

/-! ## Byte memory -/

/-- Memory, or one buffer of it, as a function from byte index to byte. -/
abbrev Bytes := Nat → UInt8

/-- Little-endian 32-bit load. -/
def load32 (m : Bytes) (a : Nat) : Nat :=
  (m a).toNat + 256 * (m (a + 1)).toNat + 65536 * (m (a + 2)).toNat + 16777216 * (m (a + 3)).toNat

/-- Little-endian 16-bit store. -/
def store16 (m : Bytes) (a v : Nat) : Bytes := fun x =>
  if x = a then UInt8.ofNat v
  else if x = a + 1 then UInt8.ofNat (v / 256)
  else m x

/-- Little-endian 32-bit store. -/
def store32 (m : Bytes) (a v : Nat) : Bytes := fun x =>
  if x = a then UInt8.ofNat v
  else if x = a + 1 then UInt8.ofNat (v / 256)
  else if x = a + 2 then UInt8.ofNat (v / 65536)
  else if x = a + 3 then UInt8.ofNat (v / 16777216)
  else m x

/-- Copy `n` bytes of `src` from index `s` to `dst` at index `d`. -/
def blit (dst : Bytes) (d : Nat) (src : Bytes) (s n : Nat) : Bytes := fun x =>
  if d ≤ x ∧ x < d + n then src (s + (x - d)) else dst x

/-- A buffer as it is seen through a pointer to its byte `k`. -/
def suffix (m : Bytes) (k : Nat) : Bytes := fun x => m (k + x)

/-- The buffer after everything from byte `k` on was replaced. -/
def withSuffix (m : Bytes) (k : Nat) (s : Bytes) : Bytes := fun x =>
  if x < k then m x else s (x - k)

theorem load32_suffix (m : Bytes) (k a : Nat) : load32 (suffix m k) a = load32 m (k + a) := by
  simp only [load32, suffix, Nat.add_assoc]

theorem load32_lt (m : Bytes) (a : Nat) : load32 m a < 2 ^ 32 := by
  have h0 := (m a).toNat_lt
  have h1 := (m (a + 1)).toNat_lt
  have h2 := (m (a + 2)).toNat_lt
  have h3 := (m (a + 3)).toNat_lt
  unfold load32
  omega

variable {x : Nat}

theorem store16_apply_of_disjoint (m : Bytes) (v : Nat) (away : x < a ∨ a + 2 ≤ x) :
    store16 m a v x = m x := by
  unfold store16
  rw [if_neg (by omega), if_neg (by omega)]

theorem store32_apply_of_disjoint (m : Bytes) (v : Nat) (away : x < a ∨ a + 4 ≤ x) :
    store32 m a v x = m x := by
  unfold store32
  rw [if_neg (by omega), if_neg (by omega), if_neg (by omega), if_neg (by omega)]

variable {m : Bytes}

theorem load32_congr {m' : Bytes} (agree : ∀ x, a ≤ x → x < a + 4 → m' x = m x) :
    load32 m' a = load32 m a := by
  unfold load32
  rw [agree a (by omega) (by omega), agree (a + 1) (by omega) (by omega),
    agree (a + 2) (by omega) (by omega), agree (a + 3) (by omega) (by omega)]

theorem load32_store32_same (m : Bytes) (a v : Nat) : load32 (store32 m a v) a = v % 2 ^ 32 := by
  have byte (n : Nat) : (UInt8.ofNat n).toNat = n % 256 := by simp
  simp only [load32, store32, if_true, Nat.add_eq_left, Nat.add_left_cancel_iff,
    OfNat.ofNat_ne_zero, OfNat.ofNat_ne_one, Nat.reduceEqDiff, if_false, one_ne_zero, byte]
  omega

theorem store32_of_load32 {v : Nat} (same : load32 m a = v % 2 ^ 32) : store32 m a v = m := by
  have b0 := (m a).toNat_lt
  have b1 := (m (a + 1)).toNat_lt
  have b2 := (m (a + 2)).toNat_lt
  have b3 := (m (a + 3)).toNat_lt
  unfold load32 at same
  funext x
  unfold store32
  split_ifs with first second third fourth
  · rw [first, ← UInt8.toNat_inj, UInt8.toNat_ofNat']
    omega
  · rw [second, ← UInt8.toNat_inj, UInt8.toNat_ofNat']
    omega
  · rw [third, ← UInt8.toNat_inj, UInt8.toNat_ofNat']
    omega
  · rw [fourth, ← UInt8.toNat_inj, UInt8.toNat_ofNat']
    omega
  · rfl

theorem load32_store32_disjoint (m : Bytes) (v : Nat) (apart : b + 4 ≤ a ∨ a + 4 ≤ b) :
    load32 (store32 m a v) b = load32 m b :=
  load32_congr fun x low high => store32_apply_of_disjoint m v (by omega)

variable (dst : Bytes) (d : Nat) (src : Bytes)

theorem blit_apply_of_mem (s n : Nat) (low : d ≤ x)
    (high : x < d + n) : blit dst d src s n x = src (s + (x - d)) :=
  if_pos ⟨low, high⟩

theorem blit_apply_of_not_mem (s n : Nat)
    (away : x < d ∨ d + n ≤ x) : blit dst d src s n x = dst x :=
  if_neg (by omega)

@[simp] theorem blit_zero (s : Nat) : blit dst d src s 0 = dst := by
  funext x
  exact blit_apply_of_not_mem dst d src s 0 (by omega)

theorem blit_succ (s n : Nat) :
    blit dst d src s (n + 1) = Function.update (blit dst d src s n) (d + n) (src (s + n)) := by
  funext x
  by_cases last : x = d + n
  · rw [last, Function.update_self, blit_apply_of_mem _ _ _ _ _ (by omega) (by omega),
      Nat.add_sub_cancel_left]
  rw [Function.update_of_ne last]
  simp only [blit]
  congr 1
  exact propext (by omega)

/-- Two copies that continue each other are one copy. -/
theorem blit_blit_append (s n k : Nat) :
    blit (blit dst d src s n) (d + n) src (s + n) k = blit dst d src s (n + k) := by
  funext x
  simp only [blit]
  by_cases second : d + n ≤ x ∧ x < d + n + k
  · rw [if_pos second, if_pos (by omega)]
    congr 1
    omega
  rw [if_neg second]
  by_cases first : d ≤ x ∧ x < d + n
  · rw [if_pos first, if_pos (by omega)]
  · rw [if_neg first, if_neg (by omega)]

theorem blit_append_front (dst src : Bytes) (s n k : Nat) :
    blit (blit dst 0 src s n) n src (s + n) k = blit dst 0 src s (n + k) := by
  have joined := blit_blit_append dst 0 src s n k
  rwa [Nat.zero_add] at joined

theorem blit_append_back (n k : Nat) :
    blit (blit dst d src 0 n) (d + n) src n k = blit dst d src 0 (n + k) := by
  have joined := blit_blit_append dst d src 0 n k
  rwa [Nat.zero_add] at joined

variable {s n len : Nat}

/-- Copying out of a copy is copying from the original. -/
theorem blit_through (tmp : Bytes) (t : Nat) (src : Bytes) (le : s + n ≤ len) (base : Nat) :
    blit dst d (blit tmp t src base len) (t + s) n = blit dst d src (base + s) n := by
  funext x
  unfold blit
  split
  · rw [if_pos (by omega)]
    congr 1
    omega
  · rfl

/-- Writing back a copy of a window in which some bytes were replaced. -/
theorem blit_patched (base : Nat) (tmp : Bytes) (src : Bytes) (le : s + n ≤ len) (k : Nat) :
    blit dst base (blit (blit tmp 0 dst base len) s src k n) 0 len =
      blit dst (base + s) src k n := by
  funext x
  unfold blit
  by_cases window : base ≤ x ∧ x < base + len
  · rw [if_pos window]
    by_cases patch : base + s ≤ x ∧ x < base + s + n
    · rw [if_pos patch, if_pos (by omega)]
      congr 1
      omega
    rw [if_neg patch, if_neg (by omega), if_pos (by omega)]
    congr 1
    omega
  · rw [if_neg window, if_neg (by omega)]

variable {k : Nat}

/-- Writing back a copy of a window in which one word was stored. -/
theorem blit_store32 (dst tmp : Bytes) (base : Nat) (v : Nat) (le : k + 4 ≤ n) :
    blit dst base (store32 (blit tmp 0 dst base n) k v) 0 n = store32 dst (base + k) v := by
  funext x
  by_cases window : base ≤ x ∧ x < base + n
  · have place (j : Nat) : 0 + (x - base) = k + j ↔ x = base + k + j := by omega
    have first : 0 + (x - base) = k ↔ x = base + k := place 0
    have copied : blit tmp 0 dst base n (0 + (x - base)) = dst x := by
      rw [blit_apply_of_mem _ _ _ _ _ (Nat.zero_le _) (by omega)]
      congr 1
      omega
    rw [blit_apply_of_mem _ _ _ _ _ window.1 window.2]
    simp only [store32, first, place, copied]
  · rw [blit_apply_of_not_mem _ _ _ _ _ (by omega), store32_apply_of_disjoint _ _ (by omega)]

theorem store32_blit (v : Nat) (le : k + 4 ≤ n) :
    store32 (blit dst d src 0 n) (d + k) v = blit dst d (store32 src k v) 0 n := by
  funext x
  by_cases window : d ≤ x ∧ x < d + n
  · have place (j : Nat) : 0 + (x - d) = k + j ↔ x = d + k + j := by omega
    have first : 0 + (x - d) = k ↔ x = d + k := place 0
    have copied : blit dst d src 0 n x = src (0 + (x - d)) :=
      blit_apply_of_mem _ _ _ _ _ window.1 window.2
    rw [blit_apply_of_mem _ _ _ _ _ window.1 window.2]
    simp only [store32, first, place, copied]
  · rw [blit_apply_of_not_mem _ _ _ _ _ (by omega), store32_apply_of_disjoint _ _ (by omega),
      blit_apply_of_not_mem _ _ _ _ _ (by omega)]

/-- The first `n` bytes. -/
def contents (m : Bytes) (n : Nat) : List UInt8 := (List.range n).map m

@[simp] theorem length_contents (m : Bytes) (n : Nat) : (contents m n).length = n := by
  simp [contents]

theorem contents_succ (m : Bytes) (n : Nat) : contents m (n + 1) = contents m n ++ [m n] := by
  simp [contents, List.range_succ]

theorem contents_blit_end (k : Nat) (src : Bytes) (n : Nat) :
    contents (blit dst k src 0 n) (k + n) = contents dst k ++ contents src n := by
  have front : (List.range k).map (blit dst k src 0 n) = (List.range k).map dst := by
    apply List.map_congr_left
    intro x mem
    exact blit_apply_of_not_mem _ _ _ _ _ (.inl (List.mem_range.mp mem))
  have back : (List.range n).map (blit dst k src 0 n ∘ fun x => k + x) =
      (List.range n).map src := by
    apply List.map_congr_left
    intro x mem
    have lt := List.mem_range.mp mem
    rw [Function.comp_apply, blit_apply_of_mem _ _ _ _ _ (by omega) (by omega)]
    congr 1
    omega
  unfold contents
  rw [List.range_add, List.map_append, List.map_map, front, back]

theorem load32_blit (s : Nat) (le : k + 4 ≤ n) :
    load32 (blit dst d src s n) (d + k) = load32 src (s + k) := by
  have byte (i : Nat) (lt : i < 4) : blit dst d src s n (d + k + i) = src (s + k + i) := by
    rw [blit_apply_of_mem _ _ _ _ _ (by omega) (by omega)]
    congr 1
    omega
  unfold load32
  rw [byte 1 (by decide), byte 2 (by decide), byte 3 (by decide)]
  rw [show blit dst d src s n (d + k) = src (s + k) from byte 0 (by decide)]

theorem withSuffix_blit (m : Bytes) (k : Nat) (src : Bytes) (s n : Nat) :
    withSuffix m k (blit (suffix m k) 0 src s n) = blit m k src s n := by
  funext x
  unfold withSuffix blit suffix
  by_cases before : x < k
  · rw [if_pos before, if_neg (by omega)]
  rw [if_neg before]
  by_cases lt : x < k + n
  · rw [if_pos (by omega), if_pos (by omega), Nat.sub_zero]
  rw [if_neg (by omega), if_neg (by omega)]
  congr 1
  omega

theorem blit_eq_self_iff (n : Nat) : blit dst d src 0 n = dst ↔ ∀ x < n, dst (d + x) = src x := by
  constructor
  · intro same x lt
    have byte := congrFun same (d + x)
    rw [blit_apply_of_mem dst d src 0 n (Nat.le_add_right d x) (Nat.add_lt_add_left lt d),
      Nat.zero_add, Nat.add_sub_cancel_left] at byte
    exact byte.symm
  · intro same
    funext x
    by_cases lt : d ≤ x ∧ x < d + n
    · have byte := same (x - d) (by omega)
      rw [Nat.add_sub_cancel' lt.1] at byte
      rw [blit_apply_of_mem dst d src 0 n lt.1 lt.2, byte, Nat.zero_add]
    · exact blit_apply_of_not_mem dst d src 0 n (by omega)

theorem blit_suffix (k s n : Nat) : blit dst d (suffix src k) s n = blit dst d src (k + s) n := by
  funext x
  unfold blit suffix
  split
  · rw [Nat.add_assoc]
  · rfl

variable {size j : Nat}

/-- A place inside block `t` lies in front of block `s` or behind it. -/
theorem lt_or_le_of_block_ne {t : Nat} (ne : s ≠ t) (lt : j < size) :
    t * size + j < s * size ∨ s * size + size ≤ t * size + j := by
  rcases Nat.lt_or_gt_of_ne ne with before | behind
  · right
    have next := Nat.mul_le_mul_right size (Nat.succ_le_of_lt before)
    rw [Nat.succ_mul] at next
    omega
  left
  have next := Nat.mul_le_mul_right size (Nat.succ_le_of_lt behind)
  rw [Nat.succ_mul] at next
  omega

variable {src : Bytes}

theorem blit_congr {src' : Bytes} {s' : Nat}
    (agree : ∀ x < n, src' (s' + x) = src (s + x)) : blit dst d src' s' n = blit dst d src s n := by
  funext x
  unfold blit
  split
  · exact agree (x - d) (by omega)
  · rfl

/-- Copy the first `j` pieces of `src` behind `s`, each of `size` bytes, piece `i`
to `place i`. -/
def scatter (dst : Bytes) (place : Nat → Nat) (src : Bytes) (s size : Nat) : Nat → Bytes
  | 0 => dst
  | j + 1 => blit (scatter dst place src s size j) (place j) src (s + j * size) size

variable {place : Nat → Nat}

theorem scatter_outside (src : Bytes) (s : Nat)
    (away : ∀ i < j, x < place i ∨ place i + size ≤ x) :
    scatter dst place src s size j x = dst x := by
  induction j with
  | zero => rfl
  | succ j ih =>
    unfold scatter
    rw [blit_apply_of_not_mem _ _ _ _ _ (away j (Nat.lt_succ_self j))]
    exact ih fun i lt => away i (Nat.lt_succ_of_lt lt)

/-- Pieces whose places are disjoint do not overwrite each other. -/
theorem scatter_inside (src : Bytes) (s : Nat) {i : Nat} (before : i < j) (lt : x < size)
    (disjoint : ∀ l < j, l ≠ i → place i + x < place l ∨ place l + size ≤ place i + x) :
    scatter dst place src s size j (place i + x) = src (s + i * size + x) := by
  induction j with
  | zero => exact absurd before (Nat.not_lt_zero i)
  | succ j ih =>
    unfold scatter
    rcases Nat.lt_succ_iff_lt_or_eq.mp before with earlier | rfl
    · rw [blit_apply_of_not_mem _ _ _ _ _ (disjoint j (Nat.lt_succ_self j) (Nat.ne_of_gt earlier))]
      exact ih earlier fun l small => disjoint l (Nat.lt_succ_of_lt small)
    · rw [blit_apply_of_mem _ _ _ _ _ (Nat.le_add_right ..) (by omega), Nat.add_sub_cancel_left]

variable {d : Nat}

/-- A copy that is right whatever was there before determines its length. -/
theorem le_of_blit_eq (same : ∀ dst, blit dst d src s n = blit dst d src s k) : n ≤ k := by
  by_contra longer
  have changed := congrFun (same fun _ => src (s + k) + 1) (d + k)
  rw [blit_apply_of_mem _ _ _ _ _ (by omega) (by omega),
    blit_apply_of_not_mem _ _ _ _ _ (by omega), Nat.add_sub_cancel_left] at changed
  simp at changed

theorem length_eq_of_blit_eq (same : ∀ dst, blit dst d src s n = blit dst d src s k) : n = k :=
  Nat.le_antisymm (le_of_blit_eq same) (le_of_blit_eq fun dst => (same dst).symm)

end Foundation
