/-
Module: Yanix.Foundation.CString
Purpose: Blocks of bytes, an access outside a block being no value; strings that end with a
  zero byte; and lists cut into components that each follow a separator.
-/
import Mathlib.Data.List.Basic
import Mathlib.Data.List.GetD
import Yanix.Foundation.Bytes

namespace Foundation

open Function List

/-- The bytes of an allocated block. -/
abbrev Buffer := List UInt8

variable {buf : Buffer}

namespace Buffer

/-- Assigning to a byte of the block. -/
def store (buf : Buffer) (k : Nat) (v : UInt8) : Option Buffer :=
  if k < buf.length then some (buf.set k v) else none

/-- Copying `n` bytes of the block from `src` to `dst`. -/
def copyWithin (buf : Buffer) (dst src n : Nat) : Option Buffer :=
  if dst + n ≤ buf.length ∧ src + n ≤ buf.length then
    some (buf.take dst ++ (buf.drop src).take n ++ buf.drop (dst + n))
  else none

/-- Setting `n` bytes from `start` on. -/
def fill (buf : Buffer) (start n : Nat) (v : UInt8) : Option Buffer :=
  if start + n ≤ buf.length then
    some (buf.take start ++ List.replicate n v ++ buf.drop (start + n))
  else none

theorem store_append (before : Buffer) (b : UInt8) (behind : Buffer) (v : UInt8) :
    store (before ++ b :: behind) before.length v = some (before ++ v :: behind) := by
  unfold store
  rw [if_pos (by simp), set_append_right _ _ le_rfl, Nat.sub_self, set_cons_zero]

theorem store_inside {k : Nat} (lt : k < buf.length) (v : UInt8) :
    ∃ buf', buf.store k v = some buf' ∧ buf'.length = buf.length :=
  ⟨buf.set k v, if_pos lt, length_set⟩

theorem copyWithin_inside {dst src n : Nat} (target : dst + n ≤ buf.length)
    (source : src + n ≤ buf.length) :
    ∃ buf', buf.copyWithin dst src n = some buf' ∧ buf'.length = buf.length := by
  refine ⟨_, if_pos ⟨target, source⟩, ?_⟩
  simp only [length_append, length_take, length_drop]
  omega

theorem fill_inside {start n : Nat} (le : start + n ≤ buf.length) (v : UInt8) :
    ∃ buf', buf.fill start n v = some buf' ∧ buf'.length = buf.length := by
  refine ⟨_, if_pos le, ?_⟩
  simp only [length_append, length_take, length_drop, length_replicate]
  omega

theorem getElem?_append (lt behind : Buffer) (k : Nat) :
    (lt ++ behind)[lt.length + k]? = behind[k]? := by
  rw [getElem?_append_right (Nat.le_add_right ..), Nat.add_sub_cancel_left]

end Buffer

/-- A string without its terminating zero. -/
@[ext] structure CString where
  bytes : List UInt8
  nonzero : 0 ∉ bytes
deriving DecidableEq

/-- Memory that holds the string, and zeros behind it. -/
def CString.mem (s : CString) : Bytes := fun i => s.bytes.getD i 0

/-- The bytes of the list, and then a zero. -/
def Spells (m : Bytes) : List UInt8 → Prop
  | [] => m 0 = 0
  | b :: bytes => m 0 = b ∧ Spells (suffix m 1) bytes

variable {m : Bytes} {bytes : List UInt8}

theorem spells_iff :
    Spells m bytes ↔ (∀ i (lt : i < bytes.length), m i = bytes[i]) ∧ m bytes.length = 0 := by
  induction bytes generalizing m with
  | nil => simp [Spells]
  | cons b bytes ih =>
    have shifted (i : Nat) : suffix m 1 i = m (i + 1) := by
      unfold suffix
      rw [Nat.add_comm]
    simp only [Spells, ih, shifted, length_cons]
    constructor
    · rintro ⟨first, rest, last⟩
      refine ⟨?_, last⟩
      intro i lt
      cases i with
      | zero => exact first
      | succ i => exact rest i (Nat.lt_of_succ_lt_succ lt)
    · rintro ⟨all, last⟩
      exact ⟨all 0 (Nat.zero_lt_succ _), fun i lt => all (i + 1) (Nat.succ_lt_succ lt), last⟩

theorem CString.mem_spells (s : CString) : Spells s.mem s.bytes := by
  rw [spells_iff]
  constructor
  · intro i lt
    exact getD_eq_getElem s.bytes 0 lt
  · exact getD_eq_default s.bytes 0 le_rfl

variable {front : List UInt8}

theorem Spells.suffix (spells : Spells m (front ++ bytes)) :
    Spells (suffix m front.length) bytes := by
  rw [spells_iff] at spells ⊢
  obtain ⟨all, last⟩ := spells
  rw [length_append] at last
  refine ⟨?_, last⟩
  intro i lt
  have place := all (front.length + i) (by rw [length_append]; omega)
  rw [getElem_append_right (Nat.le_add_right _ _)] at place
  simpa [Foundation.suffix] using place

theorem Spells.contents_front (spells : Spells m (front ++ bytes)) :
    contents m front.length = front := by
  obtain ⟨all, -⟩ := spells_iff.mp spells
  apply ext_getElem
  · rw [length_contents]
  intro i _ lt
  simp only [contents, getElem_map, getElem_range]
  rw [all i (by rw [length_append]; omega), getElem_append_left lt]

variable {c : UInt8}

theorem Spells.cut (spells : Spells m (bytes ++ [c])) : Spells (update m bytes.length 0) bytes := by
  obtain ⟨all, -⟩ := spells_iff.mp spells
  rw [spells_iff]
  refine ⟨?_, update_self ..⟩
  intro i lt
  rw [update_of_ne lt.ne, all i (by rw [length_append]; omega), getElem_append_left lt]

/-! ## Looking for a byte -/

/-- The first place whose byte is one to stop at, among the first `fuel` places. -/
def seekByte (stop : UInt8 → Bool) (m : Bytes) : (fuel : Nat) → Option Nat
  | 0 => none
  | fuel + 1 => if stop (m 0) then some 0 else (seekByte stop (suffix m 1) fuel).map (· + 1)

variable {stop : UInt8 → Bool} {fuel : Nat}

theorem seekByte_eq_some {k : Nat} (before : ∀ i < k, stop (m i) = false) (here : stop (m k) = true)
    (lt : k < fuel) : seekByte stop m fuel = some k := by
  induction k generalizing m fuel with
  | zero =>
    cases fuel with
    | zero => exact absurd lt (Nat.not_lt_zero _)
    | succ fuel => rw [seekByte, if_pos here]
  | succ k ih =>
    cases fuel with
    | zero => exact absurd lt (Nat.not_lt_zero _)
    | succ fuel =>
      have notFirst : ¬ stop (m 0) = true := by
        rw [before 0 (Nat.zero_lt_succ k)]
        exact Bool.false_ne_true
      have shifted : ∀ i, Foundation.suffix m 1 i = m (i + 1) :=
        fun i => congrArg m (Nat.add_comm 1 i)
      rw [seekByte, if_neg notFirst, ih (m := Foundation.suffix m 1)]
      · rfl
      · intro i less
        rw [shifted]
        exact before (i + 1) (Nat.succ_lt_succ less)
      · rw [shifted]
        exact here
      · exact Nat.lt_of_succ_lt_succ lt

/-- The end of the front part of a string that holds no byte to stop at. -/
theorem Spells.seekByte_front (spells : Spells m (front ++ c :: bytes))
    (free : ∀ b ∈ front, stop b = false) (here : stop c = true) (lt : front.length < fuel) :
    seekByte stop m fuel = some front.length := by
  obtain ⟨all, -⟩ := spells_iff.mp spells
  apply seekByte_eq_some _ _ lt
  · intro i less
    rw [all i (by rw [length_append]; omega), getElem_append_left less]
    exact free _ (getElem_mem less)
  · rw [all front.length (by simp)]
    simpa using here

/-- The end of a string that holds no byte to stop at. -/
theorem Spells.seekByte_end (spells : Spells m bytes) (free : ∀ b ∈ bytes, stop b = false)
    (zero : stop 0 = true) (lt : bytes.length < fuel) :
    seekByte stop m fuel = some bytes.length := by
  obtain ⟨all, last⟩ := spells_iff.mp spells
  apply seekByte_eq_some _ _ lt
  · intro i less
    rw [all i less]
    exact free _ (getElem_mem less)
  · rw [last]
    exact zero

theorem blit_cons (m : Bytes) (d : Nat) (b : UInt8) (bytes : List UInt8) :
    blit (update m d b) (d + 1) (fun i => bytes.getD i 0) 0 bytes.length =
      blit m d (fun i => (b :: bytes).getD i 0) 0 (b :: bytes).length := by
  funext x
  simp only [blit, length_cons]
  rcases Nat.lt_trichotomy x d with before | here | behind
  · rw [if_neg (by omega), if_neg (by omega), update_of_ne (by omega)]
  · subst here
    rw [if_neg (by omega), if_pos (by omega), update_self]
    simp
  obtain ⟨k, rfl⟩ : ∃ k, x = d + 1 + k := ⟨x - (d + 1), by omega⟩
  have index : 0 + (d + 1 + k - d) = k + 1 := by omega
  have index' : 0 + (d + 1 + k - (d + 1)) = k := by omega
  rw [index, index', getD_cons_succ, update_of_ne (by omega)]
  by_cases lt : k < bytes.length
  · rw [if_pos (by omega), if_pos (by omega)]
  · rw [if_neg (by omega), if_neg (by omega)]

/-- Bytes copied to the front of a buffer, and the terminating zero behind them. -/
theorem spells_blit (m : Bytes) (bytes : List UInt8) :
    Spells (update (blit m 0 (fun i => bytes.getD i 0) 0 bytes.length) bytes.length 0)
      bytes := by
  rw [spells_iff]
  constructor
  · intro i lt
    rw [update_of_ne lt.ne, blit_apply_of_mem _ _ _ _ _ (Nat.zero_le i) (by omega)]
    have index : 0 + (i - 0) = i := by omega
    rw [index]
    exact getD_eq_getElem bytes 0 lt
  · exact update_self ..

variable {α : Type*}

/-- The components, a separator before each of them. -/
def joined (sep : α) (cs : List (List α)) : List α := cs.flatMap (sep :: ·)

@[simp] theorem joined_nil (sep : α) : joined sep [] = [] := rfl

@[simp] theorem joined_cons (sep : α) (c : List α) (cs : List (List α)) :
    joined sep (c :: cs) = sep :: (c ++ joined sep cs) := rfl

variable {cs : List (List α)}

theorem joined_eq_cons_intercalate (sep : α) (ne : cs ≠ []) :
    joined sep cs = sep :: [sep].intercalate cs := by
  induction cs with
  | nil => exact absurd rfl ne
  | cons c cs ih =>
    cases cs with
    | nil => simp
    | cons d ds =>
      rw [joined_cons, ih (cons_ne_nil d ds), intercalate_cons_cons]
      simp

/-- No component contains the separator. -/
def SeparatorFree (sep : α) (cs : List (List α)) : Prop := ∀ c ∈ cs, sep ∉ c

section

variable [DecidableEq α] {sep : α}

theorem joined_splitOn (sep : α) (xs : List α) : joined sep (xs.splitOn sep) = sep :: xs := by
  rw [joined_eq_cons_intercalate sep (splitOn_ne_nil sep xs), intercalate_splitOn]

theorem separatorFree_splitOn (sep : α) (xs : List α) : SeparatorFree sep (xs.splitOn sep) := by
  induction xs with
  | nil => simp [SeparatorFree]
  | cons x xs ih =>
    rw [splitOn_cons_eq_if_modifyHead]
    split
    · intro c mem
      cases mem with
      | head => simp
      | tail _ later => exact ih c later
    next ne =>
      cases pieces : xs.splitOn sep with
      | nil => exact absurd pieces (splitOn_ne_nil sep xs)
      | cons d ds =>
        rw [pieces] at ih
        intro c mem
        cases mem with
        | head =>
          intro lt
          cases lt with
          | head => exact ne (beq_self_eq_true _)
          | tail _ later => exact ih d mem_cons_self later
        | tail _ later => exact ih c (mem_cons_of_mem d later)

end

variable {front c rest : List α}

section

variable {sep : α}

/-- A front that ends with its only separator is the first component. -/
theorem append_sep_prefix_iff (free : sep ∉ front) (freeC : sep ∉ c) :
    front ++ [sep] <+: c ++ sep :: rest ↔ c = front := by
  induction front generalizing c with
  | nil =>
    cases c with
    | nil => simp
    | cons y c =>
      have ne : sep ≠ y := fun same => freeC (same ▸ mem_cons_self)
      simp [ne]
  | cons x front ih =>
    have ne : x ≠ sep := fun same => free (same ▸ mem_cons_self)
    have later : sep ∉ front := fun mem => free (mem_cons_of_mem x mem)
    cases c with
    | nil => simp [ne]
    | cons y c =>
      have laterC : sep ∉ c := fun mem => freeC (mem_cons_of_mem y mem)
      rw [cons_append, cons_append, cons_prefix_cons, ih later laterC, cons.injEq, eq_comm]

end

end Foundation
