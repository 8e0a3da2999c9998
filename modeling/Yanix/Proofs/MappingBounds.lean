/-
Module: Yanix.Proofs.MappingBounds
Purpose: Loop bounds in 32-bit arithmetic: `initialize_mem` stops where counter plus size
  wraps, other loops step over the top of the address space.
-/
import Yanix.Proofs.Mapping

namespace Yanix.Mm

open Foundation Option

variable {heap : Kheap} {dir : Nat} {Q : Nat → Prop} {s : Paging}

/-- `k` of `n` pages from page `first` on got frames of their own. -/
structure Granted (heap : Kheap) (dir : Nat) (Q : Nat → Prop) (first n : Nat) (s₀ : Paging)
    (k : Nat)
    (s : Paging) : Prop where
  sound : DirSound dir s
  blocks : NewBlocks heap dir Q s
  stocked : Stocked heap dir (List.range' (first + k) (n - k)) (n - k) s
  marks : ∀ f, s₀.frames.marked f = true → s.frames.marked f = true
  done : ∀ j < k, Given (s.entry dir (first + j)) s₀.frames s.frames
  distinct : ∀ i < k, ∀ j < k, (s.entry dir (first + i)).frame =
    (s.entry dir (first + j)).frame → i = j
  rest : ∀ page < pageCount, page < first ∨ first + k ≤ page → Untouched Q dir s₀ s page

variable {addr a page : Nat} {s' : Paging} {e : Page} {isKernel isWritable : Bool}

section

variable {um : Bool} {first n k : Nat} {s₀ s : Paging}

theorem Granted.frame_ne_zero (granted : Granted heap dir Q first n s₀ k s)
    (reserved : s₀.frames.marked 0 = true) {j : Nat} (lt : j < k) :
    (s.entry dir (first + j)).frame ≠ 0 :=
  (granted.done j lt).frame_ne_zero reserved

theorem Granted.put (granted : Granted heap dir Q first n s₀ k s) (below : k < n)
    (top : first + n ≤ pageCount) (reserved : s₀.frames.marked 0 = true) {s1 : Paging}
    (looked : Looked heap dir Q s s1)
    (table : (s1.dirs dir).tables ((first + k) / pagesPerTable) ≠ 0)
    (stocked : Stocked heap dir (List.range' (first + (k + 1)) (n - (k + 1))) (n - k) s1)
    {page' : Page} {frames' : Frames} (taken : Taken page' s1.frames frames')
    (present : page'.present = true) :
    Granted heap dir Q first n s₀ (k + 1) (s1.put dir (first + k) page' frames') := by
  have lt : first + k < pageCount := by omega
  have marks (f : Nat) (marked : s1.frames.marked f = true) : frames'.marked f = true := by
    rw [taken.marks, marked, Bool.or_true]
  have kept (j : Nat) (earlier : j < k) : s1.entry dir (first + j) = s.entry dir (first + j) :=
    looked.entry_of_frame (by omega) (granted.frame_ne_zero reserved earlier)
  -- the frames given before are marked by now, the new one was free until now
  have new (j : Nat) (earlier : j < k) : (s.entry dir (first + j)).frame ≠ page'.frame := by
    intro same
    have used := looked.marks _ (granted.done j earlier).used
    rw [same, taken.free] at used
    exact Bool.false_ne_true used
  have entries (j : Nat) (boundJ : first + j < pageCount) :
      (s1.put dir (first + k) page' frames').entry dir (first + j) =
        if j = k then page' else s1.entry dir (first + j) := by
    rw [entry_put looked.sound lt table boundJ]
    simp
  constructor
  case sound => exact sound_put looked.sound lt table
  case blocks => exact blocks_put looked.sound lt table looked.blocks
  case stocked =>
    apply stocked_put looked.sound lt table stocked (marks 0 stocked.reserved)
    · exact taken.frame_ne_zero stocked.reserved
    · have count := taken.freeCount
      omega
  case marks => exact fun f marked => marks f (looked.marks f (granted.marks f marked))
  case done =>
    intro j earlier
    rw [entries j (by omega)]
    split
    · exact taken.given present fun f marked => looked.marks f (granted.marks f marked)
    rename_i ne
    have given := granted.done j (by omega)
    rw [kept j (by omega)]
    exact ⟨given.present, given.free, marks _ (looked.marks _ given.used)⟩
  case distinct =>
    intro i beforeI j beforeJ same
    rw [entries i (by omega), entries j (by omega)] at same
    by_cases lastI : i = k <;> by_cases lastJ : j = k
    · rw [lastI, lastJ]
    · rw [if_pos lastI, if_neg lastJ, kept j (by omega)] at same
      exact absurd same.symm (new j (by omega))
    · rw [if_neg lastI, if_pos lastJ, kept i (by omega)] at same
      exact absurd same (new i (by omega))
    · rw [if_neg lastI, if_neg lastJ, kept i (by omega), kept j (by omega)] at same
      exact granted.distinct i (by omega) j (by omega) same
  case rest => exact untouched_next granted.rest looked lt table _ _

theorem Granted.step (granted : Granted heap dir Q first n s₀ k s) (um : Bool) (below : k < n)
    (top : first + n ≤ pageCount) (reserved : s₀.frames.marked 0 = true)
    (empty : (s₀.entry dir (first + k)).frame = 0) (apart : ¬Q (first + k))
    (inPage : addr / 0x1000 = first + k) :
    ∃ s', onPage heap dir (fun page frames => allocFrame page (!um) um frames) addr s =
        some (s', 0) ∧
      Granted heap dir Q first n s₀ (k + 1) s' := by
  have bound : first + k < pageCount := by omega
  obtain ⟨s1, looked, table, stocked1, ret⟩ :=
    onPage_next (fun page frames => allocFrame page (!um) um frames)
      granted.sound granted.blocks granted.stocked below top inPage
  have entry : s1.entry dir (first + k) = s₀.entry dir (first + k) :=
    ((granted.rest (first + k) bound (.inr le_rfl)).look looked bound).same
      fun lt => absurd lt apart
  have free : 0 < s1.frames.freeCount := by
    have room := stocked1.room
    omega
  have empty1 : (s1.entry dir (first + k)).frame = 0 := by
    rw [entry]
    exact empty
  obtain ⟨page', frames', alloc, taken, mem, -, -⟩ := allocFrame_takes empty1 free (!um) um
  simp only [alloc] at ret
  exact ⟨_, ret, granted.put below top reserved looked table stocked1 taken mem⟩

/-- The body of the loop of `initialize_mem`. -/
def initializePage (heap : Kheap) (dir : Nat) (um : Bool) (a : Nat) (s : Paging) :
    Option (Paging × Int) := do
  let (s, ret) ← onPage heap dir (fun page frames => allocFrame page (!um) um frames) a s
  some (s, if ret ≠ 0 then -1 else 0)

theorem initializePage_eq_zero (result : initializePage heap dir um a s = some (s', 0)) :
    onPage heap dir (fun page frames => allocFrame page (!um) um frames) a s = some (s', 0) := by
  unfold initializePage at result
  obtain ⟨⟨s1, ret⟩, page, last⟩ := bind_eq_some_iff.mp result
  simp only [some.injEq, Prod.mk.injEq] at last
  obtain ⟨rfl, zero⟩ := last
  by_cases failed : ret = 0
  · rw [page, failed]
  · rw [if_pos failed] at zero
    exact absurd zero (by decide)

theorem initializePage_keeps {ret : Int} (small : a < 2 ^ 32) (lt : page < pageCount)
    (backed : e.frame ≠ 0) (kept : DirSound dir s ∧ NewBlocks heap dir Q s ∧ s.entry dir page = e)
    (result : initializePage heap dir um a s = some (s', ret)) :
    DirSound dir s' ∧ NewBlocks heap dir Q s' ∧ s'.entry dir page = e := by
  obtain ⟨sound, blocks, entry⟩ := kept
  unfold initializePage at result
  obtain ⟨⟨s2, ret2⟩, onPage, last⟩ := bind_eq_some_iff.mp result
  cases last
  have space := pageCount_eq
  have boundA : a / 0x1000 < pageCount := by omega
  obtain ⟨s1, looked, table, rfl, -⟩ := onPage_looked sound blocks boundA rfl onPage
  refine ⟨sound_put looked.sound boundA table,
    blocks_put looked.sound boundA table looked.blocks, ?_⟩
  have same : s1.entry dir page = e := by
    rw [← entry] at backed ⊢
    exact looked.entry_of_frame lt backed
  rw [entry_put looked.sound boundA table lt]
  split
  · rename_i here
    rw [← here, same]
    have full : allocFrame e (!um) um s1.frames = ⟨-1, e, s1.frames⟩ := if_pos backed
    rw [full]
  · exact same

/-- A call maps its range exactly: it returns 0, the pages of the range have frames of
their own that were free, and the other entries are as they were. -/
def MapsExactly (heap : Kheap) (start size : Nat) (um : Bool) (dir : Nat) (Q : Nat → Prop)
    (s : Paging) :
    Prop :=
  ∃ s', initializeMem heap start size um dir s = some (s', 0) ∧
    (∀ j < size / 0x1000, Given (s'.entry (if dir = 0 then s.gCurrentDirectory else dir)
      (start / 0x1000 + j)) s.frames s'.frames) ∧
    (∀ i < size / 0x1000, ∀ j < size / 0x1000,
      (s'.entry (if dir = 0 then s.gCurrentDirectory else dir) (start / 0x1000 + i)).frame =
        (s'.entry (if dir = 0 then s.gCurrentDirectory else dir) (start / 0x1000 + j)).frame →
          i = j) ∧
    ∀ page < pageCount, page < start / 0x1000 ∨ start / 0x1000 + size / 0x1000 ≤ page →
      (Q page → (s.entry (if dir = 0 then s.gCurrentDirectory else dir) page).frame ≠ 0) →
        s'.entry (if dir = 0 then s.gCurrentDirectory else dir) page =
          s.entry (if dir = 0 then s.gCurrentDirectory else dir) page

variable {start size : Nat}

theorem initializeMem_rounds (um : Bool) (sound : DirSound dir s) (blocks : NewBlocks heap dir Q s)
    (startAligned : start % 0x1000 = 0) (sizeAligned : size % 0x1000 = 0)
    (top : start + size < 2 ^ 32)
    (empty : ∀ j < size / 0x1000, (s.entry dir (start / 0x1000 + j)).frame = 0)
    (apart : ∀ j < size / 0x1000, ¬Q (start / 0x1000 + j))
    (stocked : Stocked heap dir (List.range' (start / 0x1000) (size / 0x1000)) (size / 0x1000) s)
    (pos : 0 < size) {n : Nat} (inRange : n ≤ size / 0x1000)
    (beforeWrap : start + n * 0x1000 + size ≤ 2 ^ 32) :
    ∃ s', Granted heap dir Q (start / 0x1000) (size / 0x1000) s n s' ∧ ∀ passes,
      wordLoop 0x1000 (fun a => decide (a < add32 a size)) (initializePage heap dir um)
          (passes + n) start s =
        wordLoop 0x1000 (fun a => decide (a < add32 a size)) (initializePage heap dir um) passes
          (start + n * 0x1000) s' := by
  have space := pageCount_eq
  have reached : wordAt 0x1000 start n = start + n * 0x1000 := wordAt_of_lt (by omega)
  rw [← reached]
  apply wordLoop_rounds (Granted heap dir Q (start / 0x1000) (size / 0x1000) s)
  · omega
  · intro k lt
    rw [wordAt_of_lt (by omega), add32_of_lt (by omega)]
    exact decide_eq_true (by omega)
  · intro k lt t granted
    have inPage : (start + k * 0x1000) / 0x1000 = start / 0x1000 + k := by omega
    rw [wordAt_of_lt (by omega)]
    obtain ⟨t', ret, granted'⟩ := granted.step um (by omega) (by omega) stocked.reserved
      (empty k (by omega)) (apart k (by omega)) inPage
    refine ⟨t', ?_, granted'⟩
    unfold initializePage
    rw [ret]
    rfl
  · exact ⟨sound, blocks, stocked, fun _ marked => marked,
      fun j lt => absurd lt (Nat.not_lt_zero j),
      fun i lt => absurd lt (Nat.not_lt_zero i), fun _ _ _ => .inl rfl⟩

theorem allocFrame_eq_zero {page : Page} {frames : Frames} (reserved : frames.marked 0 = true)
    (success : (allocFrame page isKernel isWritable frames).ret = 0) :
    page.frame = 0 ∧ (allocFrame page isKernel isWritable frames).page.frame ≠ 0 := by
  unfold allocFrame at success ⊢
  split at success
  · exact absurd success (show (-1 : Int) ≠ 0 by decide)
  rename_i empty
  rw [if_neg empty]
  cases search : firstFrame frames with
  | none =>
    rw [search] at success
    exact absurd success (show (-2 : Int) ≠ 0 by decide)
  | some index =>
    refine ⟨Decidable.not_not.mp empty, ?_⟩
    exact (takeFrame_taken page isKernel isWritable search).frame_ne_zero reserved

theorem initializeMem_beyond {passes : Nat} (granted : DirSound dir s)
    (blocks : NewBlocks heap dir Q s) (reserved : s.frames.marked 0 = true) (small : a < 2 ^ 32)
    (inPage : a / 0x1000 = page) (go : a < add32 a size)
    (run : wordLoop 0x1000 (fun a => decide (a < add32 a size)) (initializePage heap dir um)
      (passes + 1) a s = some (s', 0)) :
    (s.entry dir page).frame = 0 ∧ (s'.entry dir page).frame ≠ 0 := by
  have space := pageCount_eq
  have lt : page < pageCount := by omega
  unfold wordLoop at run
  rw [if_pos (decide_eq_true go)] at run
  obtain ⟨⟨s2, ret⟩, body, rest⟩ := bind_eq_some_iff.mp run
  simp only at rest
  split at rest
  · rename_i failed
    cases rest
    exact absurd rfl failed
  rename_i success
  rw [Decidable.not_not.mp success] at body
  obtain ⟨s1, looked, table, rfl, ret⟩ :=
    onPage_looked granted blocks lt inPage (initializePage_eq_zero body)
  obtain ⟨empty, backed⟩ := allocFrame_eq_zero (looked.marks 0 reserved) ret.symm
  have kept := wordLoop_invariant
    (I := fun t => DirSound dir t ∧ NewBlocks heap dir Q t ∧ t.entry dir page =
      (allocFrame (s1.entry dir page) (!um) um s1.frames).page)
    (fun a smallA t t' r kept result => initializePage_keeps smallA lt backed kept result)
    (add32_lt a 0x1000)
    ⟨sound_put looked.sound lt table, blocks_put looked.sound lt table looked.blocks,
      by rw [entry_put looked.sound lt table lt, if_pos rfl]⟩ rest
  constructor
  · by_contra used
    rw [looked.entry_of_frame lt used] at empty
    exact used empty
  · rw [kept.2.2]
    exact backed

theorem passes_split {n : Nat} (inSpace : n ≤ 2 ^ 20) :
    wordPasses = wordPasses - n - 1 + 1 + n := by
  have lt : n < wordPasses := Nat.lt_succ_of_le inSpace
  omega

/-- The call does what it is for exactly if its range ends as far below 2^32 as it is long. -/
theorem initializeMem_exact_iff {target : Nat}
    (targetIs : target = if dir = 0 then s.gCurrentDirectory else dir) (sound : DirSound target s)
    (blocks : NewBlocks heap target Q s) (startAligned : start % 0x1000 = 0)
    (sizeAligned : size % 0x1000 = 0) (pos : 0 < size) (top : start + size < 2 ^ 32)
    (empty : ∀ j < size / 0x1000, (s.entry target (start / 0x1000 + j)).frame = 0)
    (apart : ∀ j ≤ size / 0x1000, Q (start / 0x1000 + j) →
      (s.entry target (start / 0x1000 + j)).frame ≠ 0)
    (stocked : Stocked heap target (List.range' (start / 0x1000) (size / 0x1000))
      (size / 0x1000) s) :
    MapsExactly heap start size um dir Q s ↔ start + 2 * size = 2 ^ 32 := by
  have space := pageCount_eq
  have unused (j : Nat) (below : j < size / 0x1000) : ¬Q (start / 0x1000 + j) := fun lt =>
    apart j below.le lt (empty j below)
  have loop : initializeMem heap start size um dir s =
      wordLoop 0x1000 (fun a => decide (a < add32 a size)) (initializePage heap target um)
        wordPasses start s := by
    rw [targetIs]
    rfl
  have rounds {n : Nat} := initializeMem_rounds um sound blocks startAligned sizeAligned top empty
    unused stocked pos (n := n)
  -- the loop stops where the sum wraps
  have stops (n : Nat) (inRange : n ≤ size / 0x1000) (wraps : start + n * 0x1000 + size = 2 ^ 32) :
      ∃ s', Granted heap target Q (start / 0x1000) (size / 0x1000) s n s' ∧
        initializeMem heap start size um dir s = some (s', 0) := by
    obtain ⟨s', granted, run⟩ := rounds inRange wraps.le
    refine ⟨s', granted, ?_⟩
    have split := passes_split (n := n) (by omega)
    have wrapped : add32 (start + n * 0x1000) size = 0 := by
      unfold add32
      rw [wraps, Nat.mod_self]
    rw [loop, split, run, wordLoop_stop]
    rw [wrapped]
    exact decide_eq_false (Nat.not_lt_zero _)
  unfold MapsExactly
  rw [← targetIs]
  constructor
  · rintro ⟨s', ret, given, -, others⟩
    rcases Nat.lt_trichotomy (start + 2 * size) (2 ^ 32) with beyond | exactly | short
    · -- the page behind the range is reached
      obtain ⟨s₁, granted, run⟩ := rounds (n := size / 0x1000) le_rfl (by omega)
      have split := passes_split (n := size / 0x1000) (by omega)
      rw [loop, split, run] at ret
      obtain ⟨before, after⟩ := initializeMem_beyond granted.sound granted.blocks
        granted.stocked.reserved (by omega) rfl (by rw [add32_of_lt (by omega)]; omega) ret
      have page : (start + size / 0x1000 * 0x1000) / 0x1000 =
        start / 0x1000 + size / 0x1000 := by omega
      rw [page] at before after
      have bound : start / 0x1000 + size / 0x1000 < pageCount := by omega
      have kept := (granted.rest _ bound (.inr le_rfl)).same (apart _ le_rfl)
      rw [others _ bound (.inr le_rfl) (apart _ le_rfl), ← kept] at after
      exact absurd before after
    · exact exactly
    · -- the last page of the range is not reached
      have wraps : start + (2 ^ 32 - size - start) / 0x1000 * 0x1000 + size = 2 ^ 32 := by omega
      have inRange : (2 ^ 32 - size - start) / 0x1000 < size / 0x1000 := by omega
      obtain ⟨s₁, granted, run⟩ := stops _ inRange.le wraps
      obtain rfl : s₁ = s' := congrArg Prod.fst (mem_unique run ret)
      have kept := (granted.rest _ (by omega) (.inr le_rfl)).same
        fun lt => absurd lt (unused _ inRange)
      have backed := (given _ inRange).frame_ne_zero stocked.reserved
      rw [kept] at backed
      exact absurd (empty _ inRange) backed
  · intro exactly
    obtain ⟨s', granted, ret⟩ := stops (size / 0x1000) le_rfl (by omega)
    refine ⟨s', ret, granted.done, granted.distinct, ?_⟩
    intro page bound away backed
    exact (granted.rest page bound away).same backed

end

theorem initializeMem_top :
    MapsExactly pageHeap 0xFFFFE000 0x1000 true 0 heapRegion (smallSpace 1 0) :=
  (initializeMem_exact_iff (rfl : 0x2000 = _) smallSpace_sound smallSpace_blocks (by decide)
    (by decide) (by decide) (by decide) (by decide +kernel)
    (fun j small inside => by
      have inside : (0xFFFFE + j) / 1024 = 768 ∨ (0xFFFFE + j) / 1024 = 769 := inside
      have small : j ≤ 1 := small
      omega)
    (smallSpace_stocked (by decide +kernel) (by decide))).mpr (by decide)

/-- One page is asked for; pages behind it get frames until there are none left. -/
theorem initializeMem_overruns :
    ∃ s', initializeMem pageHeap 0x500000 0x1000 true 0 (smallSpace 1 0) = some (s', -1) ∧
      (smallSpace 1 0).entry 0x2000 0x501 = Page.zero ∧
      s'.entry 0x2000 0x501 = ⟨true, true, true, 10⟩ := by
  have run : (initializeMem pageHeap 0x500000 0x1000 true 0 (smallSpace 1 0)).map
      (fun r => (r.1.entry 0x2000 0x501, r.2)) = some (⟨true, true, true, 10⟩, -1) := by
    decide +kernel
  obtain ⟨⟨s', ret⟩, result, observed⟩ := map_eq_some_iff.mp run
  obtain rfl : ret = -1 := congrArg Prod.snd observed
  exact ⟨s', result, by decide +kernel, congrArg Prod.fst observed⟩

/-! ## Loops up to and including an address -/

/-- The state after some rounds of a loop that does `f` to one page after the other. -/
def rounds (heap : Kheap) (dir : Nat) (f : Nat → Page → Frames → FrameResult) (startaddr : Nat)
    (s : Paging) : Nat → Option Paging
  | 0 => some s
  | k + 1 => do
    let t ← rounds heap dir f startaddr s k
    let (t, _) ← onPage heap dir (f (startaddr + k * 0x1000)) (startaddr + k * 0x1000) t
    some t

/-- The kernel heap hands out its blocks: no `get_page` of the loop hangs in a page fault. -/
def LookupsReturn (heap : Kheap) (dir : Nat) (f : Nat → Page → Frames → FrameResult)
    (startaddr endaddr : Nat) (s : Paging) : Prop :=
  ∀ k t, startaddr + k * 0x1000 ≤ endaddr → rounds heap dir f startaddr s k = some t →
    (getPage heap (startaddr + k * 0x1000) true dir t).isSome

/-- `k` pages from that of `startaddr` on were visited. -/
structure Touching (heap : Kheap) (dir : Nat) (Q : Nat → Prop)
    (f : Nat → Page → Frames → FrameResult) (startaddr : Nat) (s₀ : Paging) (k : Nat)
    (s : Paging) : Prop where
  sound : DirSound dir s
  blocks : NewBlocks heap dir Q s
  reached : rounds heap dir f startaddr s₀ k = some s
  rest : ∀ page < pageCount, page < startaddr / 0x1000 ∨ startaddr / 0x1000 + k ≤ page →
    Untouched Q dir s₀ s page

theorem Touching.step {f : Nat → Page → Frames → FrameResult} {startaddr endaddr k : Nat}
    {s₀ : Paging} (touching : Touching heap dir Q f startaddr s₀ k s)
    (lookups : LookupsReturn heap dir f startaddr endaddr s₀)
    (below : startaddr + k * 0x1000 ≤ endaddr) (word : endaddr < 2 ^ 32) :
    ∃ s' e frames, onPage heap dir (f (startaddr + k * 0x1000)) (startaddr + k * 0x1000) s =
        some (s', (f (startaddr + k * 0x1000) e frames).ret) ∧
      Touching heap dir Q f startaddr s₀ (k + 1) s' := by
  have inPage : (startaddr + k * 0x1000) / 0x1000 = startaddr / 0x1000 + k := by omega
  have lt : startaddr / 0x1000 + k < pageCount := by
    have space := pageCount_eq
    omega
  obtain ⟨⟨s1, x⟩, get⟩ := isSome_iff_exists.mp (lookups k s below touching.reached)
  obtain ⟨looked, pointer, table⟩ := getPage_looked touching.sound touching.blocks lt inPage get
  have result := onPage_eq (f := f (startaddr + k * 0x1000)) get looked.sound lt pointer table
  refine ⟨_, _, _, result, ?_⟩
  constructor
  case sound => exact sound_put looked.sound lt table
  case blocks => exact blocks_put looked.sound lt table looked.blocks
  case reached =>
    unfold rounds
    simp only [touching.reached, result, Option.bind_eq_bind, Option.bind_some]
  case rest => exact untouched_next touching.rest looked lt table _ _

/-- The call changed entries of pages that meet `[startaddr, endaddr + 0xFFF]` only,
and those that the kernel heap itself needed. -/
def OnlyTouches (Q : Nat → Prop) (dir startaddr endaddr : Nat) (s s' : Paging) : Prop :=
  ∀ page < pageCount, ¬(page * 0x1000 ≤ endaddr + 0xFFF ∧ startaddr < (page + 1) * 0x1000) →
    (Q page → (s.entry dir page).frame ≠ 0) → s'.entry dir page = s.entry dir page

variable {body : Nat → Paging → Option (Paging × Int)}

section

variable {startaddr endaddr : Nat}

theorem wordAt_le_of_high (high : 2 ^ 32 - 0x1000 + startaddr % 0x1000 ≤ endaddr) (k : Nat) :
    wordAt 0x1000 startaddr k ≤ endaddr := by
  unfold wordAt add32
  omega

theorem upTo_endless (lt : startaddr < 2 ^ 32)
    (high : 2 ^ 32 - 0x1000 + startaddr % 0x1000 ≤ endaddr)
    (round : ∀ a t t' r, body a t = some (t', r) → r = 0) (s : Paging) :
    wordLoop 0x1000 (fun a => decide (a ≤ endaddr)) body wordPasses startaddr s = none := by
  apply wordLoop_endless lt _ round
  intro k
  exact decide_eq_true (wordAt_le_of_high high k)

theorem identityMapMemoryBlock_endless (lt : startaddr < 2 ^ 32)
    (high : 2 ^ 32 - 0x1000 + startaddr % 0x1000 ≤ endaddr) :
    identityMapMemoryBlock heap startaddr endaddr isKernel isWritable dir s = none := by
  apply upTo_endless lt high
  intro a t t' r ret
  obtain ⟨⟨t1, x⟩, -, rest⟩ := bind_eq_some_iff.mp ret
  obtain ⟨e, -, rest⟩ := bind_eq_some_iff.mp rest
  obtain ⟨t2, -, last⟩ := bind_eq_some_iff.mp rest
  cases last
  exact congrArg FrameResult.ret (mapFrame_remap e a isKernel isWritable t1.frames)

theorem remapMemoryBlock_endless (lt : startaddr < 2 ^ 32)
    (high : 2 ^ 32 - 0x1000 + startaddr % 0x1000 ≤ endaddr) :
    remapMemoryBlock heap startaddr endaddr isKernel isWritable dir s = none := by
  apply upTo_endless lt high
  intro a t t' r ret
  obtain ⟨⟨t1, r1⟩, -, last⟩ := bind_eq_some_iff.mp ret
  cases last
  rfl

theorem upTo_returns {f : Nat → Page → Frames → FrameResult} (sound : DirSound dir s)
    (blocks : NewBlocks heap dir Q s) (lookups : LookupsReturn heap dir f startaddr endaddr s)
    (order : startaddr ≤ endaddr) (low : endaddr < 2 ^ 32 - 0x1000 + startaddr % 0x1000)
    (word : endaddr < 2 ^ 32)
    (round : ∀ a t t' e frames, onPage heap dir (f a) a t = some (t', (f a e frames).ret) →
      body a t = some (t', 0)) :
    ∃ s', wordLoop 0x1000 (fun a => decide (a ≤ endaddr)) body wordPasses startaddr s =
      some (s', 0) ∧
      OnlyTouches Q dir startaddr endaddr s s' := by
  have loop : ∃ s', wordLoop 0x1000 (fun a => decide (a ≤ endaddr)) body wordPasses startaddr s =
        some (s', 0) ∧
      Touching heap dir Q f startaddr s ((endaddr - startaddr) / 0x1000 + 1) s' := by
    apply wordLoop_returns (Touching heap dir Q f startaddr s)
    · omega
    · exact Nat.lt_succ_of_le (by omega)
    · intro k below
      rw [wordAt_of_lt (by omega)]
      exact decide_eq_true (by omega)
    · rw [wordAt_of_lt (by omega)]
      exact decide_eq_false (by omega)
    · intro k below t touching
      rw [wordAt_of_lt (by omega)]
      obtain ⟨t', e, frames, result, next⟩ := touching.step lookups (by omega) word
      exact ⟨t', round _ _ _ _ _ result, next⟩
    · exact ⟨sound, blocks, rfl, fun _ _ _ => .inl rfl⟩
  obtain ⟨s', run, touching⟩ := loop
  refine ⟨s', run, ?_⟩
  intro page lt away backed
  exact (touching.rest page lt (by omega)).same backed

/-- The loops that run while `startaddr <= endaddr` return, having touched pages of their range
only, exactly if some address they visit lies behind the end. -/
theorem mapping_loops_return_iff (isKernel isWritable : Bool) (sound : DirSound dir s)
    (blocks : NewBlocks heap dir Q s)
    (identity : LookupsReturn heap dir
      (fun a page frames => mapFrame page a true isKernel isWritable frames) startaddr endaddr s)
    (remap : LookupsReturn heap dir
      (fun _ page frames => reallocFrame page isKernel isWritable frames) startaddr endaddr s)
    (order : startaddr ≤ endaddr) (word : endaddr < 2 ^ 32) :
    ((∃ s' ret, identityMapMemoryBlock heap startaddr endaddr isKernel isWritable dir s =
      some (s', ret) ∧ OnlyTouches Q dir startaddr endaddr s s') ↔
      endaddr < 2 ^ 32 - 0x1000 + startaddr % 0x1000) ∧
    ((∃ s' ret, remapMemoryBlock heap startaddr endaddr isKernel isWritable dir s = some (s', ret) ∧
        OnlyTouches Q dir startaddr endaddr s s') ↔
      endaddr < 2 ^ 32 - 0x1000 + startaddr % 0x1000) := by
  have small : startaddr < 2 ^ 32 := order.trans_lt word
  constructor
  · constructor
    · rintro ⟨s', ret, run, -⟩
      by_contra high
      rw [identityMapMemoryBlock_endless small (Nat.le_of_not_lt high)] at run
      cases run
    · intro low
      obtain ⟨s', run, only⟩ : ∃ s', identityMapMemoryBlock heap startaddr endaddr isKernel
          isWritable dir s = some (s', 0) ∧ OnlyTouches Q dir startaddr endaddr s s' := by
        apply upTo_returns sound blocks identity order low word
        intro a t t' e frames result
        rwa [mapFrame_remap] at result
      exact ⟨s', 0, run, only⟩
  · constructor
    · rintro ⟨s', ret, run, -⟩
      by_contra high
      rw [remapMemoryBlock_endless small (Nat.le_of_not_lt high)] at run
      cases run
    · intro low
      obtain ⟨s', run, only⟩ : ∃ s', remapMemoryBlock heap startaddr endaddr isKernel isWritable
          dir s = some (s', 0) ∧ OnlyTouches Q dir startaddr endaddr s s' := by
        apply upTo_returns sound blocks remap order low word
        intro a t t' e frames result
        simp only [result, Option.bind_eq_bind, Option.bind_some]
      exact ⟨s', 0, run, only⟩

end

private theorem lookupsReturn_two {heap : Kheap} {f : Nat → Page → Frames → FrameResult}
    {dir startaddr endaddr : Nat} {s : Paging} (short : endaddr < startaddr + 0x2000)
    (first : (getPage heap startaddr true dir s).isSome)
    (second : ((rounds heap dir f startaddr s 1).bind
      (getPage heap (startaddr + 0x1000) true dir)).isSome) :
    LookupsReturn heap dir f startaddr endaddr s := by
  intro k t below reached
  obtain rfl | rfl : k = 0 ∨ k = 1 := by omega
  · exact some_inj.mp reached ▸ first
  · rwa [reached, Option.bind_some] at second

theorem mapping_loops_return_small :
    ((∃ s' ret, identityMapMemoryBlock pageHeap 0x500000 0x501000 true true 0x2000
      (smallSpace 1 0) =
          some (s', ret) ∧ OnlyTouches heapRegion 0x2000 0x500000 0x501000 (smallSpace 1 0) s') ↔
        0x501000 < 2 ^ 32 - 0x1000 + 0x500000 % 0x1000) ∧
      ((∃ s' ret, remapMemoryBlock pageHeap 0x500000 0x501000 true true 0x2000 (smallSpace 1 0) =
          some (s', ret) ∧ OnlyTouches heapRegion 0x2000 0x500000 0x501000 (smallSpace 1 0) s') ↔
        0x501000 < 2 ^ 32 - 0x1000 + 0x500000 % 0x1000) :=
  mapping_loops_return_iff true true smallSpace_sound smallSpace_blocks
    (lookupsReturn_two (by decide) (by decide +kernel) (by decide +kernel))
    (lookupsReturn_two (by decide) (by decide +kernel) (by decide +kernel)) (by decide) (by decide)

/-- The last page of the address space. -/
theorem mapping_loops_endless :
    identityMapMemoryBlock pageHeap 0xFFFFF000 0xFFFFFFFF true true 0x2000 (smallSpace 1 0) = none ∧
      remapMemoryBlock pageHeap 0xFFFFF000 0xFFFFFFFF true true 0x2000 (smallSpace 1 0) = none :=
  ⟨identityMapMemoryBlock_endless (by decide) (by decide),
    remapMemoryBlock_endless (by decide) (by decide)⟩

end Yanix.Mm
