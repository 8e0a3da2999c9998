/-
Module: Yanix.Libk.String
Purpose: `strcmp`, `strlen`, `memcmp`, `strchr`, `strchr_r`, `strdup`, `strdup_s`, `readline`,
  `atoi`, `itoa`, `int_to_string`, `memset`, `memcpy`, `memmove`, `strcpy_s` and the arithmetic of
  `kernel/libk`; what one line of a list of bytes is, and that `readline` delivers it.
Trusted boundary: hand-translated from C; `strlen` has no value if no zero follows in the block, or
  in the whole address space
-/
import Mathlib.Data.List.TakeWhile
import Yanix.Foundation.BitSet
import Yanix.Foundation.CString

namespace Yanix.Libk

open Foundation Function List Option

variable {k : Nat} {i : Nat} {str : Bytes} {left : Nat} {text : List UInt8}

/-- `pow` of `libk/math/math.c`, on the bits of an `int`. -/
def pow (x n : Nat) : Nat := (List.range (n - 1)).foldl (fun r _ => mul32 r x) x

/-- The quotient, rounded up.  Division of an `int` truncates. -/
def roundup (x y : Int) : Int := if x.tmod y = 0 then x.tdiv y else x.tdiv y + 1

section

variable {x y : Int}

theorem mul_roundup_of_dvd (divides : y ∣ x) : y * roundup x y = x := by
  unfold roundup
  rw [if_pos (Int.tmod_eq_zero_of_dvd divides)]
  exact Int.mul_tdiv_cancel' divides

theorem lt_mul_roundup (pos : 0 < y) (remainder : ¬ y ∣ x) : x < y * roundup x y := by
  have ne : x.tmod y ≠ 0 := fun zero => remainder (Int.dvd_of_tmod_eq_zero zero)
  have split := Int.mul_tdiv_add_tmod x y
  have lt := Int.tmod_lt_of_pos x pos
  unfold roundup
  rw [if_neg ne, Int.mul_add, Int.mul_one]
  omega

theorem le_mul_roundup (pos : 0 < y) : x ≤ y * roundup x y := by
  by_cases divides : y ∣ x
  · exact Int.le_of_eq (mul_roundup_of_dvd divides).symm
  · exact Int.le_of_lt (lt_mul_roundup pos divides)

theorem one_le_roundup (pos : 0 < y) (above : 0 < x) : 1 ≤ roundup x y := by
  have covers : x ≤ y * roundup x y := le_mul_roundup pos
  by_contra lt
  have nonpos := Int.mul_nonpos_of_nonneg_of_nonpos (Int.le_of_lt pos)
    (show roundup x y ≤ 0 by omega)
  omega

end

/-- The shift to the right keeps the sign, so bit 31 is read as -1. -/
def getbit (n : BitVec 32) (k : Nat) : BitVec 32 := (n &&& (1#32 <<< k)).sshiftRight k

theorem getbit_eq_zero_iff (n : BitVec 32) (lt : k < 32) :
    getbit n k = 0#32 ↔ n.getLsbD k = false := by
  have mask : (1#32 <<< k).sshiftRight k ≠ 0#32 := by
    have all : ∀ j : Fin 32, (1#32 <<< j.val).sshiftRight j.val ≠ 0#32 := by decide
    exact all ⟨k, lt⟩
  unfold getbit
  rw [← BitVec.twoPow_eq, BitVec.and_twoPow, BitVec.twoPow_eq]
  cases bit : n.getLsbD k with
  | false => simp
  | true => simp [mask]

/-- The difference of the first bytes that differ; the second string is given without its
terminating zero. -/
def strcmp (x : Bytes) : (y : List UInt8) → Int
  | [] => (x 0).toNat
  | c :: y => if x 0 = 0 ∨ x 0 ≠ c then (x 0).toNat - c.toNat else strcmp (suffix x 1) y

variable {x : Bytes} {s : List UInt8}

theorem strcmp_eq_zero_iff_bytes {t : List UInt8} (spells : Spells x s) (nonzeroS : 0 ∉ s)
    (nonzeroT : 0 ∉ t) : strcmp x t = 0 ↔ s = t := by
  have toNat_ne {a b : UInt8} (different : a ≠ b) : a.toNat ≠ b.toNat :=
    fun same => different (UInt8.toNat_inj.mp same)
  induction t generalizing x s with
  | nil =>
    cases s with
    | nil =>
      simp only [Spells] at spells
      simp [strcmp, spells]
    | cons a s =>
      have ne : x 0 ≠ 0 := fun zero => nonzeroS (by simp [← zero, spells.1])
      have pos := toNat_ne ne
      simp only [strcmp, reduceCtorEq, iff_false]
      exact fun zero => pos (Int.ofNat_inj.mp zero)
  | cons c t ih =>
    have nonzeroC : (0 : UInt8) ≠ c := fun zero => nonzeroT (by simp [zero])
    cases s with
    | nil =>
      simp only [Spells] at spells
      have pos := toNat_ne nonzeroC
      simp only [strcmp, spells, true_or, if_true, reduceCtorEq, iff_false]
      omega
    | cons a s =>
      obtain ⟨first, rest⟩ := spells
      have nonzeroA : a ≠ 0 := fun zero => nonzeroS (by simp [zero])
      simp only [strcmp, first, nonzeroA, false_or]
      by_cases same : a = c
      · subst same
        have tails : strcmp (suffix x 1) t = 0 ↔ s = t :=
          ih rest (fun mem => nonzeroS (mem_cons_of_mem _ mem))
            (fun mem => nonzeroT (mem_cons_of_mem _ mem))
        simp [tails]
      · have different := toNat_ne same
        rw [if_pos same]
        simp only [cons.injEq, same, false_and, iff_false]
        omega

theorem strcmp_eq_zero_iff {s : CString} (spells : Spells x s.bytes) (t : CString) :
    strcmp x t.bytes = 0 ↔ s = t := by
  rw [strcmp_eq_zero_iff_bytes spells s.nonzero t.nonzero, CString.ext_iff]

/-- The number of bytes before the first zero. -/
def strlen : Buffer → Option Nat
  | [] => none
  | c :: rest => if c = 0 then some 0 else (strlen rest).map (· + 1)

theorem strlen_terminated (nonzero : 0 ∉ s) (junk : Buffer) :
    strlen (s ++ 0 :: junk) = some s.length := by
  induction s with
  | nil => simp [strlen]
  | cons c s ih =>
    have ne : c ≠ 0 := fun zero => nonzero (by simp [zero])
    rw [cons_append, strlen, if_neg ne, ih fun mem => nonzero (mem_cons_of_mem c mem)]
    rfl

/-! ## Through pointers into memory -/

/-- The sign of the first difference in `size` bytes. -/
def memcmp (a b : Bytes) : (size : Nat) → Int
  | 0 => 0
  | size + 1 =>
    if a 0 < b 0 then -1
    else if b 0 < a 0 then 1
    else memcmp (suffix a 1) (suffix b 1) size

theorem memcmp_eq_zero_iff {a b : Bytes} {size : Nat} :
    memcmp a b size = 0 ↔ ∀ i < size, a i = b i := by
  induction size generalizing a b with
  | zero => simp [memcmp]
  | succ size ih =>
    have shifted (m : Bytes) (i : Nat) : suffix m 1 i = m (i + 1) := congrArg m (Nat.add_comm 1 i)
    unfold memcmp
    constructor
    · intro equal i lt
      split at equal
      · cases equal
      split at equal
      · cases equal
      next less greater =>
        cases i with
        | zero => exact UInt8.le_antisymm (UInt8.not_lt.mp greater) (UInt8.not_lt.mp less)
        | succ i =>
          rw [← shifted a, ← shifted b]
          exact ih.mp equal i (Nat.lt_of_succ_lt_succ lt)
    · intro same
      rw [same 0 (Nat.zero_lt_succ size), if_neg (UInt8.lt_irrefl _), if_neg (UInt8.lt_irrefl _)]
      apply ih.mpr
      intro i lt
      rw [shifted, shifted]
      exact same (i + 1) (Nat.succ_lt_succ lt)

/-- `strlen` of a string somewhere in memory. -/
def strlenMem (str : Bytes) : Option Nat := seekByte (· == 0) str (2 ^ 32)

/-- The distance to the first `c`, or the null pointer. -/
def strchr (str : Bytes) (c : UInt8) : Option (Option Nat) :=
  (seekByte (fun b => b == 0 || b == c) str (2 ^ 32)).map fun k =>
    if str k = 0 then none else some k

/-- The bytes of the new string. -/
def strdup (str : Bytes) : Option (List UInt8) := (strlenMem str).map (contents str)

def strdupS (mem : Bytes) (len : Nat) : List UInt8 := contents mem len

variable {str : Bytes} {bytes : List UInt8}

theorem strlenMem_spells (spells : Spells str bytes) (nonzero : 0 ∉ bytes)
    (lt : bytes.length < 2 ^ 32) : strlenMem str = some bytes.length := by
  have free : ∀ b ∈ bytes, (b == 0) = false :=
    fun b mem => beq_eq_false_iff_ne.mpr fun zero => nonzero (zero ▸ mem)
  exact spells.seekByte_end free rfl lt

theorem strdup_spells (spells : Spells str bytes) (nonzero : 0 ∉ bytes)
    (lt : bytes.length < 2 ^ 32) : strdup str = some bytes := by
  rw [strdup, strlenMem_spells spells nonzero lt, map_some]
  have whole : Spells str (bytes ++ []) := by
    rw [append_nil]
    exact spells
  rw [whole.contents_front]

variable {c : UInt8}

theorem strchr_spells {front : List UInt8} (spells : Spells str (front ++ c :: bytes))
    (nonzero : 0 ∉ front) (free : c ∉ front) (ne : c ≠ 0) (lt : front.length < 2 ^ 32) :
    strchr str c = some (some front.length) := by
  have passed : ∀ b ∈ front, (b == 0 || b == c) = false := by
    intro b mem
    have notZero : b ≠ 0 := fun zero => nonzero (zero ▸ mem)
    have notC : b ≠ c := fun same => free (same ▸ mem)
    simp [notZero, notC]
  have found : seekByte (fun b => b == 0 || b == c) str (2 ^ 32) = some front.length :=
    spells.seekByte_front passed (by simp) lt
  have here : str front.length = c := by
    obtain ⟨all, -⟩ := spells_iff.mp spells
    rw [all front.length (by simp)]
    simp
  rw [strchr, found, map_some, here, if_neg ne]

/-! ## From the end -/

/-- The loop of `strchr_r`. -/
def lastFrom (str : Buffer) (c : UInt8) : (i : Nat) → Option Nat
  | 0 => if str.getD 0 0 = c then some 0 else none
  | i + 1 => if str.getD (i + 1) 0 = c then some (i + 1) else lastFrom str c i

/-- The index of the last `c` in a string, or the null pointer.  The terminator is looked
at first. -/
def strchrR (str : List UInt8) (c : UInt8) : Option Nat := lastFrom (str ++ [0]) c str.length

theorem lastFrom_append (lt behind : List UInt8)
    (absent : ∀ k, lt.length < k → k ≤ lt.length + i → (lt ++ c :: behind).getD k 0 ≠ c) :
    lastFrom (lt ++ c :: behind) c (lt.length + i) = some lt.length := by
  induction i with
  | zero =>
    have here : (lt ++ c :: behind).getD lt.length 0 = c := by simp
    rw [Nat.add_zero]
    cases lt with
    | nil => exact if_pos here
    | cons b lt => exact if_pos here
  | succ i ih =>
    rw [← Nat.add_assoc, lastFrom, if_neg (absent _ (by omega) (by omega))]
    exact ih fun k behindSep le => absent k behindSep (by omega)

/-- Behind the last occurrence there is no other. -/
theorem strchrR_append (before : List UInt8) {behind : List UInt8} (ne : c ≠ 0)
    (absent : c ∉ behind) : strchrR (before ++ c :: behind) c = some before.length := by
  have whole : before ++ c :: behind ++ [0] = before ++ c :: (behind ++ [0]) := by simp
  have len : (before ++ c :: behind).length = before.length + (behind.length + 1) := by simp
  rw [strchrR, whole, len]
  apply lastFrom_append
  intro k behindSep le same
  obtain ⟨d, rfl⟩ := Nat.exists_eq_add_of_lt behindSep
  have inside : (behind ++ [0]).getD d 0 = c := by
    rw [getD_append_right before _ _ _ (by omega),
      show before.length + d + 1 - before.length = d + 1 by omega, getD_cons_succ] at same
    exact same
  have lt : d < (behind ++ [0]).length := by
    rw [length_append, length_singleton]
    omega
  rw [getD_eq_getElem _ _ lt] at inside
  have mem : c ∈ behind ++ [0] := inside ▸ getElem_mem lt
  rcases mem_append.mp mem with early | last
  · exact absent early
  · exact ne (mem_singleton.mp last)

def bufsiz : Nat := 0x400

def eof : Int := -1

/-- The loop of `readline` from index `i` on, with `left` rounds to go. -/
def readlineLoop (data : Bytes) (dataend : Nat) : (left i : Nat) → Bytes → Int × Bytes
  | 0, i, buf => (i, update buf i 0)
  | left + 1, i, buf =>
    if i = dataend then (-1, buf)
    else
      let buf := update buf i (data i)
      if data i = '\n'.toUInt8 then (i + 1, update buf (i + 1) 0)
      else readlineLoop data dataend left (i + 1) buf

def readline (data : Bytes) (dataend : Nat) (buf : Bytes) (size : Nat) : Int × Bytes :=
  readlineLoop data dataend (size - 1) 0 buf

def isDigit (c : UInt8) : Bool := '0'.toUInt8 ≤ c && c ≤ '9'.toUInt8

/-- The value of a row of digits; `int` arithmetic wraps. -/
def decimal (digits : List UInt8) : Int :=
  toSigned (digits.foldl (fun num c => add32 (mul32 num 10) (c.toNat - 48)) 0)

/-- The number in front. -/
def atoi (str : Bytes) : Option Int :=
  (seekByte (fun c => !isDigit c) str (2 ^ 32)).map fun k => decimal (contents str k)

theorem atoi_spells {field rest : List UInt8} {sep : UInt8}
    (spells : Spells str (field ++ sep :: rest)) (other : isDigit sep = false)
    (lt : field.length < 2 ^ 32) : atoi str = some (decimal (field.takeWhile isDigit)) := by
  obtain ⟨c, behind, split, stops⟩ : ∃ c behind,
      field ++ sep :: rest = field.takeWhile isDigit ++ c :: behind ∧ isDigit c = false := by
    have parts := takeWhile_append_dropWhile (p := isDigit) (l := field)
    cases left : field.dropWhile isDigit with
    | nil =>
      rw [left, append_nil] at parts
      exact ⟨sep, rest, by rw [parts], other⟩
    | cons c behind =>
      have stops := head_dropWhile_not isDigit (l := field) (by rw [left]; simp)
      refine ⟨c, behind ++ sep :: rest, ?_, by simpa [left] using stops⟩
      rw [left] at parts
      nth_rewrite 1 [← parts]
      simp
  rw [split] at spells
  have digits : ∀ b ∈ field.takeWhile isDigit, (!isDigit b) = false := by
    intro b mem
    rw [mem_takeWhile_imp mem]
    rfl
  have short := ( takeWhile_prefix isDigit (l := field)).length_le
  have found : seekByte (fun c => !isDigit c) str (2 ^ 32) =
    some (field.takeWhile isDigit).length :=
    spells.seekByte_front digits (by rw [stops]; rfl) (by omega)
  rw [atoi, found, map_some, spells.contents_front]

/-! ## Lines of a list -/

/-- The bytes up to the first newline, or the first `left` bytes if there is none among
them. -/
def firstLine : (left : Nat) → List UInt8 → Option (List UInt8)
  | 0, _ => some []
  | _ + 1, [] => none
  | left + 1, b :: data =>
    if b = '\n'.toUInt8 then some [b] else (firstLine left data).map (b :: ·)

theorem firstLine_append (more : List UInt8)
    (free : '\n'.toUInt8 ∉ text) (short : text.length < left) :
    firstLine left (text ++ '\n'.toUInt8 :: more) = some (text ++ ['\n'.toUInt8]) := by
  induction text generalizing left with
  | nil =>
    cases left with
    | zero => exact absurd short (Nat.not_lt_zero _)
    | succ left => simp [firstLine]
  | cons b text ih =>
    cases left with
    | zero => exact absurd short (Nat.not_lt_zero _)
    | succ left =>
      have ne : b ≠ '\n'.toUInt8 := fun same => free (by simp [same])
      have rest := ih (fun mem => free (mem_cons_of_mem b mem)) (Nat.lt_of_succ_lt_succ short)
      rw [cons_append, firstLine, if_neg ne, rest]
      rfl

/-- A line is the front of the data; it ends with a newline or has full length. -/
theorem firstLine_spec {data line : List UInt8}
    (first : firstLine left data = some line) :
    line <+: data ∧ line.length ≤ left ∧ (line.length = left ∨ '\n'.toUInt8 ∈ line) ∧
      (0 < left → line ≠ []) := by
  induction left generalizing data line with
  | zero =>
    obtain rfl := some.inj first
    exact ⟨ nil_prefix, le_rfl, .inl rfl, fun pos => absurd pos (Nat.lt_irrefl 0)⟩
  | succ left ih =>
    cases data with
    | nil => cases first
    | cons b data =>
      rw [firstLine] at first
      split at first
      next newline =>
        obtain rfl := some.inj first
        refine ⟨?_, Nat.succ_le_succ (Nat.zero_le left), .inr ?_, fun _ => by simp⟩
        · exact cons_prefix_cons.mpr ⟨rfl, nil_prefix⟩
        · rw [newline]
          exact mem_singleton_self _
      next ne =>
        obtain ⟨rest, later, rfl⟩ := map_eq_some_iff.mp first
        obtain ⟨front, short, ended, -⟩ := ih later
        refine ⟨cons_prefix_cons.mpr ⟨rfl, front⟩, Nat.succ_le_succ short, ?_,
          fun _ => cons_ne_nil _ _⟩
        rcases ended with full | newline
        · exact .inl (congrArg Nat.succ full)
        · exact .inr (mem_cons_of_mem b newline)

/-- `readline` delivers the line with a zero behind it. -/
theorem readlineLoop_firstLine {m : Bytes} {data : List UInt8} (left i : Nat) (buf : Bytes)
    (holds : ∀ k (inside : k < data.length), m (i + k) = data[k]) :
    (firstLine left data = none → (readlineLoop m (i + data.length) left i buf).1 = eof) ∧
    (∀ line, firstLine left data = some line →
      readlineLoop m (i + data.length) left i buf = (((i + line.length : Nat) : Int),
        update (blit buf i (fun k => line.getD k 0) 0 line.length) (i + line.length) 0)) := by
  induction left generalizing data i buf with
  | zero =>
    refine ⟨nofun, ?_⟩
    rintro line first
    obtain rfl := some.inj first
    simp [readlineLoop]
  | succ left ih =>
    cases data with
    | nil =>
      refine ⟨fun _ => ?_, nofun⟩
      rw [length_nil, Nat.add_zero, readlineLoop, if_pos rfl]
      rfl
    | cons b data =>
      have here : m i = b := holds 0 (Nat.zero_lt_succ _)
      have inside : ¬ i = i + (b :: data).length := by
        rw [length_cons]
        omega
      have behind : i + (b :: data).length = i + 1 + data.length := by
        rw [length_cons]
        omega
      have rest : ∀ k (inside : k < data.length), m (i + 1 + k) = data[k] := by
        intro k lt
        have place := holds (k + 1) (Nat.succ_lt_succ lt)
        rwa [← Nat.add_assoc, Nat.add_right_comm] at place
      obtain ⟨ends, delivers⟩ := ih (i + 1) (update buf i b) rest
      rw [readlineLoop, if_neg inside, here, firstLine, behind]
      by_cases newline : b = '\n'.toUInt8
      · rw [if_pos newline]
        refine ⟨nofun, ?_⟩
        intro line first
        obtain rfl := some.inj first
        have step := blit_cons buf i b []
        rw [length_nil, blit_zero] at step
        rw [if_pos newline, step]
        rfl
      rw [if_neg newline]
      refine ⟨fun none => ?_, ?_⟩
      · rw [if_neg newline]
        exact ends (map_eq_none_iff.mp none)
      intro line first
      obtain ⟨line', later, rfl⟩ := map_eq_some_iff.mp first
      have place : i + (b :: line').length = i + 1 + line'.length := by
        rw [length_cons]
        omega
      rw [if_neg newline, delivers line' later, blit_cons, place]

/-! ## `memset` -/

/-- Zero is stored in whole words, any other value byte by byte. `value` is the `int` as a number
below 2^32. -/
def memset (destpointer value size : Nat) (m : Bytes) : Bytes := if value = 0 then
    (List.range (size / 4)).foldl (fun m i => store32 m (destpointer + 4 * i) 0) m
  else
    (List.range size).foldl (fun m i => update m (destpointer + i) (UInt8.ofNat value)) m

/-- Stores of `w` bytes each, one behind the other. -/
theorem foldl_fill {dest w : Nat} {value : UInt8} {write : Bytes → Nat → Bytes}
    (writes : ∀ m i a, write m i a =
      if dest + w * i ≤ a ∧ a < dest + w * i + w then value else m a) (n : Nat) (m : Bytes) :
    (List.range n).foldl write m = fun a => if dest ≤ a ∧ a < dest + w * n then value else m a := by
  induction n with
  | zero =>
    funext a
    exact (if_neg (by omega)).symm
  | succ n ih =>
    rw [range_succ, foldl_append, ih, foldl_cons, foldl_nil, Nat.mul_succ]
    funext a
    rw [writes]
    by_cases here : dest + w * n ≤ a ∧ a < dest + w * n + w
    · rw [if_pos here, if_pos (by omega)]
    · rw [if_neg here]
      exact if_congr (by omega) rfl rfl

theorem store32_zero_apply (m : Bytes) (i a : Nat) :
    store32 m i 0 a = if i ≤ a ∧ a < i + 4 then 0 else m a := by
  unfold store32
  grind

/-- `memset` sets all bytes and no others exactly if the value is not zero or the bytes behind the
last whole word are zero already. -/
theorem memset_sets_iff (dest value size : Nat) (m : Bytes) : (memset dest value size m =
      fun a => if dest ≤ a ∧ a < dest + size then UInt8.ofNat value else m a) ↔
      value ≠ 0 ∨ ∀ a, dest + 4 * (size / 4) ≤ a → a < dest + size → m a = 0 := by
  unfold memset
  by_cases zero : value = 0
  · rw [if_pos zero, foldl_fill fun m i => store32_zero_apply m (dest + 4 * i), zero]
    constructor
    · intro same
      refine .inr fun a behind lt => ?_
      have byte := congrFun same a
      rwa [if_neg (by omega), if_pos (by omega)] at byte
    · rintro (ne | rest)
      · exact absurd rfl ne
      · funext a
        by_cases behind : dest + 4 * (size / 4) ≤ a ∧ a < dest + size
        · rw [if_neg (by omega), if_pos (by omega), rest a behind.1 behind.2]
          rfl
        · exact if_congr (by omega) rfl rfl
  · have byte (m : Bytes) (i a : Nat) : update m (dest + i) (UInt8.ofNat value) a =
        if dest + 1 * i ≤ a ∧ a < dest + 1 * i + 1 then UInt8.ofNat value else m a :=
      (update_apply ..).trans (if_congr (by omega) rfl rfl)
    rw [if_neg zero, foldl_fill byte, Nat.one_mul]
    exact iff_of_true rfl (.inl zero)

/-- Five bytes are to be zero; the last one stays 7. -/
theorem memset_sets_four : memset 0 0 5 (fun _ => 7) 4 = 7 := by
  decide

/-! ## `strcpy_s` -/

/-- `i` bytes are copied already; the source is given without its terminating zero. -/
def strcpySLoop (max : Nat) : (i : Nat) → (dest : Bytes) → (str : List UInt8) → Nat × Bytes
  | i, dest, [] => (i, update dest i 0)
  | i, dest, c :: str =>
    if i = max then (i, dest) else strcpySLoop max (i + 1) (update dest i c) str

/-- The number of bytes copied, and the memory from `dest` on. -/
def strcpyS (dest : Bytes) (str : CString) (max : Nat) : Nat × Bytes :=
  strcpySLoop max 0 dest str.bytes

/-- The terminating zero is stored only if the whole string was copied. -/
theorem strcpySLoop_eq {max i : Nat} (le : i ≤ max) (dest : Bytes) (str : List UInt8) :
    (strcpySLoop max i dest str).2 =
      let copied := str.take (max - i)
      let stored := blit dest i (fun k => copied.getD k 0) 0 copied.length
      if str.length ≤ max - i then update stored (i + str.length) 0 else stored := by
  induction str generalizing i dest with
  | nil => simp [strcpySLoop]
  | cons c str ih =>
    rw [strcpySLoop]
    by_cases full : i = max
    · simp [full]
    obtain ⟨left, more⟩ : ∃ left, max - i = left + 1 := ⟨max - (i + 1), by omega⟩
    have next : max - (i + 1) = left := by omega
    rw [if_neg full, ih (by omega), next, more]
    dsimp only
    rw [blit_cons, take_succ_cons, Nat.add_assoc, Nat.add_comm 1]
    exact if_congr Nat.succ_le_succ_iff.symm rfl rfl

/-- The copy stays in its buffer and is the longest part of the string that fits there, with its
terminating zero, exactly if the whole string fits. -/
theorem strcpyS_bounded_iff (dest : Bytes) (str : CString) {max : Nat} (pos : 1 ≤ max) :
    (∀ i, max ≤ i → (strcpyS dest str max).2 i = dest i) ∧
        Spells (strcpyS dest str max).2 (str.bytes.take (max - 1)) ↔
      str.bytes.length < max := by
  have result := strcpySLoop_eq (Nat.zero_le max) dest str.bytes
  rw [Nat.sub_zero] at result
  unfold strcpyS
  rw [result]
  dsimp only
  constructor
  · rintro ⟨-, spells⟩
    by_contra long
    have len : (str.bytes.take (max - 1)).length = max - 1 := by
      rw [length_take]
      omega
    have last := (spells_iff.mp spells).2
    have byte : blit dest 0 (fun k => (str.bytes.take max).getD k 0) 0
        (str.bytes.take max).length (max - 1) = str.bytes[max - 1] := by
      rw [blit_apply_of_mem _ _ _ _ _ (Nat.zero_le _) (by rw [length_take]; omega)]
      simp [getD_eq_getElem?_getD, show max - 1 < max by omega,
        show max - 1 < str.bytes.length by omega]
    rw [len] at last
    have zero : str.bytes[max - 1] = 0 := by
      rw [← byte]
      split at last
      · rwa [update_of_ne (by omega)] at last
      · exact last
    exact str.nonzero (zero ▸ getElem_mem _)
  · intro short
    rw [if_pos short.le, take_of_length_le short.le, take_of_length_le (by omega), Nat.zero_add]
    refine ⟨fun i behind => ?_, spells_blit dest str.bytes⟩
    rw [update_of_ne (by omega), blit_apply_of_not_mem _ _ _ _ _ (by omega)]

theorem strcpyS_bounded_iff_short :
    Spells (strcpyS (fun _ => 7) ⟨[65, 66], by decide⟩ 3).2 [65, 66] :=
  ((strcpyS_bounded_iff (fun _ => 7) ⟨[65, 66], by decide⟩ (by decide)).mpr (by decide)).2

/-- A string of two bytes and a buffer of two bytes: the zero is stored behind the buffer. -/
theorem strcpyS_overruns : (strcpyS (fun _ => 7) ⟨[65, 66], by decide⟩ 2).2 2 = 0 := by decide

/-! ## `memcpy` and `memmove` -/

/-- Whole words, then the bytes behind the last one. -/
def memcpy (dest src size : Nat) (m : Bytes) : Bytes :=
  let dwords := size / 4
  let m := (List.range dwords).foldl
    (fun m i => store32 m (dest + 4 * i) (load32 m (src + 4 * i))) m
  (List.range (size % 4)).foldl
    (fun m i => update m (dest + dwords * 4 + i) (m (src + dwords * 4 + i))) m

/-- Byte by byte, from the last one on unless the destination lies below the source. -/
def memmove (dest src size : Nat) (m : Bytes) : Bytes :=
  let copy := fun (m : Bytes) i => update m (dest + i) (m (src + i))
  if dest < src then (List.range size).foldl copy m else (List.range size).reverse.foldl copy m

section

variable {dest src n : Nat}

theorem store32_load32 (m : Bytes) (d s : Nat) : store32 m d (load32 m s) = blit m d m s 4 := by
  have word : load32 (blit m d m s 4) d = load32 m s := load32_blit m d m s (k := 0) (by decide)
  rw [← store32_of_load32 (word.trans (Nat.mod_eq_of_lt (load32_lt m s)).symm)]
  funext x
  unfold store32 blit
  grind

/-- A copy within one memory goes on as it began if what is left of the source was not written. -/
theorem blit_self_append (apart : dest ≤ src ∨ src + (n + k) ≤ dest) (m : Bytes) :
    blit (blit m dest m src n) (dest + n) (blit m dest m src n) (src + n) k =
      blit m dest m src (n + k) := by
  funext x
  unfold blit
  grind

theorem foldl_blit {w : Nat} {copy : Bytes → Nat → Bytes}
    (copies : ∀ m i, copy m i = blit m (dest + w * i) m (src + w * i) w)
    (apart : dest ≤ src ∨ src + w * n ≤ dest) (m : Bytes) :
    (List.range n).foldl copy m = blit m dest m src (w * n) := by
  induction n with
  | zero => simp
  | succ n ih =>
    rw [Nat.mul_succ] at apart ⊢
    rw [range_succ, foldl_append, ih (by omega), foldl_cons, foldl_nil, copies]
    exact blit_self_append apart m

theorem foldl_update (apart : dest ≤ src ∨ src + n ≤ dest) (m : Bytes) :
    (List.range n).foldl (fun m i => update m (dest + i) (m (src + i))) m =
      blit m dest m src n := by
  have copies : ∀ (m : Bytes) i, update m (dest + i) (m (src + i)) =
      blit m (dest + 1 * i) m (src + 1 * i) 1 := by simp [blit_succ]
  have bytes := foldl_blit (n := n) copies (by rwa [Nat.one_mul]) m
  rwa [Nat.one_mul] at bytes

theorem foldl_reverse_update (above : src ≤ dest) (m : Bytes) :
    (List.range n).reverse.foldl (fun m i => update m (dest + i) (m (src + i))) m =
      blit m dest m src n := by
  induction n generalizing m with
  | zero => simp
  | succ n ih =>
    rw [range_succ, reverse_append, reverse_singleton, singleton_append, foldl_cons, ih]
    funext x
    unfold blit
    grind

theorem memcpy_eq (apart : dest ≤ src ∨ src + n ≤ dest) (m : Bytes) :
    memcpy dest src n m = blit m dest m src n := by
  have split := Nat.div_add_mod n 4
  unfold memcpy
  dsimp only
  rw [foldl_blit (w := 4) (fun m i => store32_load32 m _ _) (by omega), Nat.mul_comm,
    foldl_update (by omega), blit_self_append (by omega), split]

end

/-- `memmove` copies the old bytes whatever the overlap, and `memcpy` if the ranges share no byte or
the destination does not lie above the source. -/
theorem copies_overlapping (dest src n : Nat) (m : Bytes) :
    memmove dest src n m = blit m dest m src n ∧
      (dest + n ≤ src ∨ src + n ≤ dest ∨ dest ≤ src →
        memcpy dest src n m = blit m dest m src n) := by
  refine ⟨?_, fun ne => memcpy_eq (by omega) m⟩
  unfold memmove
  split
  · next lt => exact foldl_update (.inl lt.le) m
  · next above => exact foldl_reverse_update (not_lt.mp above) m

theorem copies_overlapping_by_one : memcpy 0 1 7 (fun i => UInt8.ofNat i) 6 = 7 := by
  rw [(copies_overlapping 0 1 7 _).2 (by decide)]
  decide

/-! ## Decimal numbers -/

/-- The loop of `itoa` and of `int_to_string`, from the lowest digit on while `more` allows it. -/
def putDigits (more : Nat → Bool) (num : Int) (i : Nat) (str : Bytes) : Nat × Bytes :=
  let str := update str i (UInt8.ofNat (48 + num.tmod 10).toNat)
  if 0 < num.tdiv 10 ∧ more (i + 1) then putDigits more (num.tdiv 10) (i + 1) str else (i + 1, str)
termination_by num.natAbs
decreasing_by
  have part : (num.tdiv 10).natAbs = num.natAbs / 10 := Int.natAbs_tdiv num 10
  omega

def reverseLoop (i j : Nat) (str : Bytes) : Bytes :=
  if i < j then reverseLoop (i + 1) (j - 1) (update (update str i (str j)) j (str i)) else str
termination_by j - i

def reverse (str : Bytes) : Option Bytes :=
  (strlenMem str).map fun len => reverseLoop 0 (len - 1) str

def itoa (num : Int) (str : Bytes) (max : Int) : Option Bytes :=
  let (i, str) := putDigits (fun i => i < max) num 0 str
  Libk.reverse (update str i 0)

def intToString (n : Int) (str : Bytes) : Option Bytes :=
  let (i, str) := putDigits (fun _ => true) (if n < 0 then -n else n) 0 str
  let (i, str) := if n < 0 then (i + 1, update str i 45) else (i, str)
  Libk.reverse (update str i 0)

/-- The canonical decimal representation. -/
def decimalText (n : Nat) : List UInt8 := (Nat.toDigits 10 n).map Char.toUInt8

/-- The string is the canonical representation, and `atoi` reads the number back. -/
def StoresDecimal (n : Nat) (result : Option Bytes) : Prop :=
  ∃ str, result = some str ∧ Spells str (decimalText n) ∧ atoi str = some (n : Int)

section

variable {n : Nat}

theorem decimalText_small (small : n < 10) : decimalText n = [UInt8.ofNat (48 + n)] := by
  revert n
  decide

theorem decimalText_large (large : 10 ≤ n) :
    decimalText n = decimalText (n / 10) ++ [UInt8.ofNat (48 + n % 10)] := by
  have digit : ∀ d < 10, d.digitChar.toUInt8 = UInt8.ofNat (48 + d) := by decide
  rw [decimalText, Nat.toDigits_of_base_le (by decide) large, map_append, map_singleton,
    digit _ (Nat.mod_lt n (by decide))]
  rfl

theorem putDigits_eq {more : Nat → Bool} (str : Bytes)
    (allowed : ∀ k, i < k → k < i + (decimalText n).length → more k = true) :
    putDigits more n i str = (i + (decimalText n).length,
      blit str i (fun k => (decimalText n).reverse.getD k 0) 0 (decimalText n).reverse.length) := by
  induction n using Nat.strongRecOn generalizing i str with
  | _ n ih =>
  have digit : (48 + (n : Int).tmod 10).toNat = 48 + n % 10 := by
    show (48 + ((n % 10 : Nat) : Int)).toNat = _
    omega
  have rest : (n : Int).tdiv 10 = (n / 10 : Nat) := rfl
  rw [putDigits, digit, rest]
  by_cases small : n < 10
  · rw [if_neg (by omega), decimalText_small small, Nat.mod_eq_of_lt small, reverse_singleton,
      ← blit_cons]
    simp
  rw [decimalText_large (not_lt.mp small), length_append, length_singleton] at allowed ⊢
  have text : 0 < (decimalText (n / 10)).length := by
    simpa [decimalText] using Nat.length_toDigits_pos
  rw [if_pos ⟨by omega, allowed (i + 1) (by omega) (by omega)⟩,
    ih (n / 10) (by omega) _ fun k low high => allowed k (by omega) (by omega), blit_cons,
    reverse_append, reverse_singleton, singleton_append]
  exact Prod.ext (by simp only; omega) rfl

theorem reverseLoop_eq (i j : Nat) (str : Bytes) :
    reverseLoop i j str = fun x => if i ≤ x ∧ x ≤ j then str (i + j - x) else str x := by
  fun_induction reverseLoop i j str with
  | case1 i j str less ih =>
    rw [ih]
    funext x
    grind
  | case2 i j str done =>
    funext x
    grind

theorem reverse_spells (spells : Spells str text.reverse)
    (nonzero : 0 ∉ text) (small : text.length < 2 ^ 32) :
    ∃ str', Libk.reverse str = some str' ∧ Spells str' text := by
  have length := strlenMem_spells spells (by simpa using nonzero) (by simpa using small)
  refine ⟨_, by rw [Libk.reverse, length, map_some], ?_⟩
  obtain ⟨bytes, zero⟩ := spells_iff.mp spells
  rw [length_reverse] at zero ⊢
  rw [reverseLoop_eq, spells_iff]
  constructor
  · intro k inside
    rw [if_pos (by omega), bytes _ (by rw [length_reverse]; omega), getElem_reverse]
    congr 1
    omega
  · split_ifs
    · rwa [show 0 + (text.length - 1) - text.length = text.length by omega]
    · exact zero

theorem decimalText_value (small : n < 2 ^ 31) : (∀ b ∈ decimalText n, isDigit b = true) ∧
    (decimalText n).foldl (fun num c => add32 (mul32 num 10) (c.toNat - 48)) 0 = n := by
  have digit : ∀ d < 10, isDigit (UInt8.ofNat (48 + d)) = true ∧
      (UInt8.ofNat (48 + d)).toNat - 48 = d := by decide
  induction n using Nat.strongRecOn with
  | _ n ih =>
  by_cases one : n < 10
  · obtain ⟨itself, value⟩ := digit n one
    rw [decimalText_small one, forall_mem_singleton, foldl_cons, foldl_nil, value,
      mul32_of_lt (by decide), add32_of_lt (by omega), Nat.zero_mul, Nat.zero_add]
    exact ⟨itself, rfl⟩
  obtain ⟨front, value⟩ := ih (n / 10) (by omega) (by omega)
  obtain ⟨last, low⟩ := digit (n % 10) (Nat.mod_lt n (by decide))
  rw [decimalText_large (not_lt.mp one), forall_mem_append, forall_mem_singleton, foldl_append,
    value, foldl_cons, foldl_nil, low, mul32_of_lt (by omega), add32_of_lt (by omega)]
  exact ⟨⟨front, last⟩, by omega⟩

theorem storesDecimal_reverse (spells : Spells str (decimalText n).reverse)
    (small : n < 2 ^ 31) : StoresDecimal n (Libk.reverse str) := by
  obtain ⟨digits, value⟩ := decimalText_value small
  have few : (decimalText n).length ≤ 10 := by
    simpa [decimalText] using (Nat.length_toDigits_le_iff (by decide) (by decide)).mpr (by omega)
  obtain ⟨str', result, spells'⟩ :=
    reverse_spells spells (fun mem => absurd (digits 0 mem) (by decide)) (by omega)
  have ended : seekByte (fun c => !isDigit c) str' (2 ^ 32) = some (decimalText n).length :=
    spells'.seekByte_end (fun b mem => by rw [digits b mem]; rfl) rfl (by omega)
  have whole : Spells str' (decimalText n ++ []) := by rwa [append_nil]
  refine ⟨str', result, spells', ?_⟩
  rw [atoi, ended, map_some, whole.contents_front, decimal, value, toSigned_of_lt small]

end

/-- Both conversions store the canonical representation, and `atoi` reads the number back. -/
theorem decimal_round_trip {n : Nat} {max : Int} (small : n < 2 ^ 31)
    (enough : (decimalText n).length ≤ max) (str : Bytes) :
    StoresDecimal n (itoa n str max) ∧ StoresDecimal n (intToString n str) := by
  have stored := storesDecimal_reverse (spells_blit str (decimalText n).reverse) small
  rw [length_reverse] at stored
  constructor
  · rw [itoa, putDigits_eq str fun k _ below => by simp only [decide_eq_true_eq]; omega,
      Nat.zero_add, length_reverse]
    exact stored
  · have pos : ¬ (n : Int) < 0 := by omega
    rw [intToString, if_neg pos, putDigits_eq str fun _ _ _ => rfl, Nat.zero_add,
      length_reverse]
    simp only [if_neg pos]
    exact stored

theorem decimal_round_trip_ten : StoresDecimal 10 (itoa 10 (fun _ => 7) 2) :=
  (decimal_round_trip (by decide) (by decide) fun _ => 7).1

end Yanix.Libk
