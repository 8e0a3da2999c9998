/-
Module: Yanix.Proofs.Mapping
Purpose: What the mapping loops do to the entries of a directory.  `map_memory_block`
  steps an unaligned address by whole pages and can miss the last page.
-/
import Yanix.Proofs.PageEntries

namespace Yanix.Mm

open Foundation List Option

variable {dir : Nat} {heap : Kheap} {Q : Nat → Prop} {other : Nat} {s1 : Paging} {s : Paging}
  {pages : List Nat}

/-- The entry is as it was, unless its page is one of the kernel heap that had no
frame. -/
def Untouched (Q : Nat → Prop) (dir : Nat) (s0 s : Paging) (page : Nat) : Prop :=
  s.entry dir page = s0.entry dir page ∨ Q page ∧ (s0.entry dir page).frame = 0

section

variable {s0 s s1 : Paging} {page : Nat} (untouched : Untouched Q dir s0 s page)

include untouched

theorem Untouched.look (looked : Looked heap dir Q s s1) (bound : page < pageCount) :
    Untouched Q dir s0 s1 page := by
  rcases untouched with same | exempt
  · rcases looked.entry page bound with kept | ⟨lt, empty, -⟩
    · exact .inl (kept.trans same)
    · rw [same] at empty
      exact .inr ⟨lt, empty⟩
  · exact .inr exempt

theorem Untouched.put (sound : DirSound dir s) (boundOther : other < pageCount)
    (table : (s.dirs dir).tables (other / pagesPerTable) ≠ 0) (lt : page < pageCount)
    (ne : page ≠ other) (e : Page) (frames : Frames) :
    Untouched Q dir s0 (s.put dir other e frames) page := by
  unfold Untouched
  rw [entry_put sound boundOther table lt, if_neg ne]
  exact untouched

theorem Untouched.same (backed : Q page → (s0.entry dir page).frame ≠ 0) :
    s.entry dir page = s0.entry dir page := by
  rcases untouched with same | ⟨lt, empty⟩
  · exact same
  · exact absurd empty (backed lt)

end

/-- The pages a range of `size` bytes reaches into. -/
def pagesOf (size : Nat) : Nat := (size + 0xFFF) / 0x1000

theorem pageCount_eq : pageCount * 0x1000 = 2 ^ 32 := by decide

variable {addr k frame m : Nat} {page : Page}

theorem aligned_part (lt : addr < 2 ^ 32) : (addr &&& 0xFFFFF000) / 0x1000 = addr / 0x1000 := by
  have shift (x : Nat) : x / 0x1000 = x >>> 12 := (Nat.shiftRight_eq_div_pow x 12).symm
  have page : addr >>> 12 < 2 ^ 20 := by
    omega
  rw [shift, shift, Nat.shiftRight_and_distrib]
  exact (Nat.and_two_pow_sub_one_eq_mod (addr >>> 12) 20).trans (Nat.mod_eq_of_lt page)

theorem offset_part (addr : Nat) : addr &&& 0xFFF = addr % 0x1000 :=
  Nat.and_two_pow_sub_one_eq_mod addr 12

theorem frame_add_offset {physicalAddress virtualAddress : Nat}
    (physicalAligned : physicalAddress % 0x1000 = 0)
    (virtualAligned : virtualAddress % 0x1000 = 0) :
    (physicalAddress / 0x1000 + k / 0x1000) * 0x1000 + (virtualAddress + k) % 0x1000 =
      physicalAddress + k := by
  omega

/-! ## Mapping to given frames -/

/-- The frames that `first_frame` can find. -/
def Frames.freeSet (s : Frames) : Finset Nat :=
  (Finset.range (s.gNframes / 32 * 32)).filter fun f => s.marked f = false

/-- How many of the `n` frames from `first` on are free. -/
def Frames.freeAmong (s : Frames) (first n : Nat) : Nat :=
  (s.freeSet.filter fun f => first ≤ f ∧ f < first + n).card

theorem freeSet_setFrame (addr : Nat) (s : Frames) :
    (setFrame addr s).freeSet = s.freeSet.erase (addr / 0x1000) := by
  have same : (setFrame addr s).gNframes = s.gNframes := rfl
  ext f
  unfold Frames.freeSet
  rw [Finset.mem_erase, Finset.mem_filter, Finset.mem_filter, setFrame_marked]
  simp [same, and_left_comm]

theorem freeAmong_of_marks {s s' : Frames} (nframes : s'.gNframes = s.gNframes)
    (marks : ∀ f, s.marked f = true → s'.marked f = true) (first n : Nat) :
    s'.freeAmong first n ≤ s.freeAmong first n := by
  apply Finset.card_le_card
  apply Finset.filter_subset_filter
  intro f mem
  obtain ⟨inside, free⟩ := Finset.mem_filter.mp mem
  refine Finset.mem_filter.mpr ⟨nframes ▸ inside, ?_⟩
  rw [← Bool.not_eq_true] at free ⊢
  exact fun marked => free (marks f marked)

/-- Marking the first of these frames takes none from the others. -/
theorem freeAmong_setFrame (addr : Nat) (s : Frames) (n : Nat) :
    (setFrame addr s).freeAmong (addr / 0x1000 + 1) n + s.freeCount ≤
      s.freeAmong (addr / 0x1000) (n + 1) + (setFrame addr s).freeCount := by
  have later : ((setFrame addr s).freeSet.filter fun f =>
      addr / 0x1000 + 1 ≤ f ∧ f < addr / 0x1000 + 1 + n) ⊆ (s.freeSet.filter fun f =>
        addr / 0x1000 ≤ f ∧ f < addr / 0x1000 + (n + 1)).erase (addr / 0x1000) := by
    intro f mem
    obtain ⟨free, low, high⟩ := Finset.mem_filter.mp mem
    rw [freeSet_setFrame] at free
    exact Finset.mem_erase.mpr
      ⟨by omega, Finset.mem_filter.mpr ⟨Finset.mem_of_mem_erase free, by omega⟩⟩
  have fewer := Finset.card_le_card later
  have whole : s.freeCount = s.freeSet.card := rfl
  have left : (setFrame addr s).freeCount = (s.freeSet.erase (addr / 0x1000)).card :=
    congrArg Finset.card (freeSet_setFrame addr s)
  unfold Frames.freeAmong
  by_cases free : addr / 0x1000 ∈ s.freeSet
  · have here : addr / 0x1000 ∈ s.freeSet.filter fun f =>
        addr / 0x1000 ≤ f ∧ f < addr / 0x1000 + (n + 1) :=
      Finset.mem_filter.mpr ⟨free, le_rfl, by omega⟩
    have one := Finset.card_erase_add_one here
    have taken := Finset.card_erase_add_one free
    omega
  · rw [Finset.erase_eq_of_notMem free] at left
    have le := fewer.trans (Finset.card_erase_le ..)
    omega

/-- The entry `map_frame` makes. -/
def mappedEntry (isKernel isWritable : Bool) (frame : Nat) : Page :=
  ⟨true, isWritable, !isKernel, BitVec.ofNat 20 frame⟩

theorem mapFrame_remap (page : Page) (addr : Nat) (isKernel isWritable : Bool) (s : Frames) :
    mapFrame page addr true isKernel isWritable s =
      ⟨0, mappedEntry isKernel isWritable (addr / 0x1000), setFrame addr s⟩ := by
  unfold mapFrame
  rw [if_neg fun both => Bool.false_ne_true both.2.symm]
  rfl

theorem mappedEntry_frame (isKernel isWritable : Bool) (lt : frame < 2 ^ 20) :
    (mappedEntry isKernel isWritable frame).frame.toNat = frame := by
  unfold mappedEntry
  rw [BitVec.toNat_ofNat, Nat.mod_eq_of_lt lt]

theorem mappedEntry_frame_ne_zero (isKernel isWritable : Bool) (lt : frame < 2 ^ 20)
    (pos : 0 < frame) : (mappedEntry isKernel isWritable frame).frame ≠ 0 := by
  intro zero
  have number := mappedEntry_frame isKernel isWritable lt
  rw [zero] at number
  exact Nat.ne_of_lt pos number

/-- `k` of `n` pages from page `first` on are mapped to the frames from `frame`
on. -/
structure MappedTo (heap : Kheap) (dir : Nat) (Q : Nat → Prop) (isKernel isWritable : Bool)
    (first frame n : Nat) (s0 : Paging) (k : Nat) (s : Paging) : Prop where
  sound : DirSound dir s
  blocks : NewBlocks heap dir Q s
  stocked : Stocked heap dir (List.range' (first + k) (n - k))
    (s.frames.freeAmong (frame + k) (n - k)) s
  done : ∀ j < k, s.entry dir (first + j) = mappedEntry isKernel isWritable (frame + j)
  rest : ∀ page < pageCount, page < first ∨ first + k ≤ page → Untouched Q dir s0 s page

section

variable {isKernel isWritable : Bool} {first frame n k : Nat} {s0 s : Paging}

theorem range'_bounds (top : first + n ≤ pageCount) :
    ∀ page ∈ List.range' (first + k) (n - k), page < pageCount := by
  intro page mem
  have bounds := mem_range'_1.mp mem
  omega

theorem range'_step (lt : k < n) : List.range' (first + k) (n - k) =
      (first + k) :: List.range' (first + (k + 1)) (n - (k + 1)) := by
  have one : n - k = (n - (k + 1)) + 1 := by omega
  rw [one, range'_succ]
  rfl

theorem onPage_next (f : Page → Frames → FrameResult) (sound : DirSound dir s)
    (blocks : NewBlocks heap dir Q s)
    (stocked : Stocked heap dir (List.range' (first + k) (n - k)) m s) (lt : k < n)
    (top : first + n ≤ pageCount) (inPage : addr / 0x1000 = first + k) :
    ∃ s1, Looked heap dir Q s s1 ∧ (s1.dirs dir).tables ((first + k) / pagesPerTable) ≠ 0 ∧
      Stocked heap dir (List.range' (first + (k + 1)) (n - (k + 1))) m s1 ∧
      onPage heap dir f addr s =
        some (s1.put dir (first + k) (f (s1.entry dir (first + k)) s1.frames).page
          (f (s1.entry dir (first + k)) s1.frames).frames,
          (f (s1.entry dir (first + k)) s1.frames).ret) := by
  have bounds := range'_bounds (k := k) top
  rw [range'_step lt] at stocked bounds
  exact onPage_stocked sound blocks bounds inPage stocked

theorem untouched_next
    (rest : ∀ page < pageCount, page < first ∨ first + k ≤ page → Untouched Q dir s0 s page)
    (looked : Looked heap dir Q s s1) (lt : first + k < pageCount)
    (table : (s1.dirs dir).tables ((first + k) / pagesPerTable) ≠ 0) (e : Page)
    (frames : Frames) :
    ∀ page < pageCount, page < first ∨ first + (k + 1) ≤ page →
      Untouched Q dir s0 (s1.put dir (first + k) e frames) page := by
  intro page boundPage away
  apply Untouched.put _ looked.sound lt table boundPage (by omega)
  exact (rest page boundPage (by omega)).look looked boundPage

theorem MappedTo.step (mapped : MappedTo heap dir Q isKernel isWritable first frame n s0 k s)
    (below : k < n) (top : first + n ≤ pageCount) (pos : 0 < frame)
    (frames : frame + n ≤ 2 ^ 20) {target : Nat} (inPage : addr / 0x1000 = first + k)
    (inFrame : target / 0x1000 = frame + k) :
    ∃ s', onPage heap dir (fun page frames => mapFrame page target true isKernel isWritable frames)
        addr s = some (s', 0) ∧
      MappedTo heap dir Q isKernel isWritable first frame n s0 (k + 1) s' := by
  have lt : first + k < pageCount := by omega
  obtain ⟨s1, looked, table, stocked1, ret⟩ :=
    onPage_next (fun page frames => mapFrame page target true isKernel isWritable frames)
      mapped.sound mapped.blocks mapped.stocked below top inPage
  have value := mapFrame_remap (s1.entry dir (first + k)) target isKernel isWritable s1.frames
  rw [inFrame] at value
  simp only [value] at ret
  have backed : (mappedEntry isKernel isWritable (frame + k)).frame ≠ 0 :=
    mappedEntry_frame_ne_zero isKernel isWritable (by omega) (by omega)
  refine ⟨_, ret, ?_⟩
  constructor
  case sound => exact sound_put looked.sound lt table
  case blocks => exact blocks_put looked.sound lt table looked.blocks
  case stocked =>
    apply stocked_put looked.sound lt table stocked1
    · rw [setFrame_marked, stocked1.reserved, Bool.or_true]
    · exact backed
    · have taken := freeAmong_setFrame target s1.frames (n - (k + 1))
      have fewer := freeAmong_of_marks looked.nframes looked.marks (frame + k) (n - k)
      have one : n - (k + 1) + 1 = n - k := by omega
      rw [inFrame, one] at taken
      exact taken.trans (Nat.add_le_add_right fewer _)
  case done =>
    intro j earlier
    rw [entry_put looked.sound lt table (by omega)]
    rcases Nat.lt_succ_iff_lt_or_eq.mp earlier with before | rfl
    · have entry := mapped.done j before
      rw [if_neg (by omega), ← entry]
      apply looked.entry_of_frame (by omega)
      rw [entry]
      exact mappedEntry_frame_ne_zero isKernel isWritable (by omega) (by omega)
    · rw [if_pos rfl]
  case rest => exact untouched_next mapped.rest looked lt table _ _

end

theorem virtToPhysFromDir_of_entry {isKernel isWritable : Bool}
    (lt : addr < 2 ^ 32) (pos : 0 < frame) (frames : frame < 2 ^ 20)
    (entry : s.entry dir (addr / 0x1000) = mappedEntry isKernel isWritable frame) :
    virtToPhysFromDir addr dir s = some (frame * 0x1000 + addr % 0x1000) := by
  have backed := mappedEntry_frame_ne_zero isKernel isWritable frames pos
  have found : s.page? (entryPtr (s.dirs dir) (addr &&& 0xFFFFF000)) =
      some (mappedEntry isKernel isWritable frame) := by
    rw [entryPtr_of_page _ (aligned_part lt)]
    cases page : s.page? (entryPtr (s.dirs dir) (addr / 0x1000 * 0x1000)) with
    | none =>
      unfold Paging.entry at entry
      rw [page] at entry
      rw [← entry] at backed
      exact absurd rfl backed
    | some e => rw [← entry, s.entry_of_page? page]
  unfold virtToPhysFromDir
  simp only [found, bind_eq_bind, bind_some, if_neg backed,
    mappedEntry_frame isKernel isWritable frames, offset_part]
  rw [mul32_of_lt (by omega), add32_of_lt (by omega)]

/-- A range mapped with `map_physical_to_virtual` is translated back by `virt_to_phys_from_dir`, and
nothing else is mapped differently. The kernel heap needs frames for its own pages only, others than
those mapped to. -/
theorem mapPhysicalToVirtual_translates {heap : Kheap} {Q : Nat → Prop}
    {physicalAddress virtualAddress size : Nat} (isKernel isWritable : Bool)
    (sound : DirSound dir s)
    (blocks : NewBlocks heap dir Q s) (physicalAligned : physicalAddress % 0x1000 = 0)
    (physicalLow : 0x1000 ≤ physicalAddress) (virtualAligned : virtualAddress % 0x1000 = 0)
    (pos : 0 < size) (physicalTop : physicalAddress + size ≤ s.frames.gNframes * 0x1000)
    (virtualTop : virtualAddress + size ≤ 2 ^ 32)
    (stocked : Stocked heap dir (List.range' (virtualAddress / 0x1000) (pagesOf size))
      (s.frames.freeAmong (physicalAddress / 0x1000) (pagesOf size)) s) :
    ∃ s', mapPhysicalToVirtual heap physicalAddress virtualAddress size isKernel isWritable dir s =
        some (s', 0) ∧
      (∀ k < size, virtToPhysFromDir (virtualAddress + k) dir s' = some (physicalAddress + k)) ∧
      ∀ page < pageCount,
        page < virtualAddress / 0x1000 ∨ virtualAddress / 0x1000 + pagesOf size ≤ page →
          (Q page → (s.entry dir page).frame ≠ 0) → s'.entry dir page = s.entry dir page := by
  have memory := s.frames.nframes_le
  have pages : pagesOf size = (size + 0xFFF) / 0x1000 := rfl
  obtain ⟨s', run, mapped⟩ : ∃ s', mapPhysicalToVirtual heap physicalAddress virtualAddress size
      isKernel isWritable dir s = some (s', 0) ∧ MappedTo heap dir Q isKernel isWritable
      (virtualAddress / 0x1000) (physicalAddress / 0x1000) (pagesOf size) s (pagesOf size) s' := by
    have space := pageCount_eq
    apply wordLoop_returns (MappedTo heap dir Q isKernel isWritable (virtualAddress / 0x1000)
      (physicalAddress / 0x1000) (pagesOf size) s)
    · decide
    · unfold wordPasses
      omega
    · intro k below
      rw [wordAt_of_lt (by omega)]
      exact decide_eq_true (by omega)
    · rw [wordAt_of_lt (by omega)]
      exact decide_eq_false (by omega)
    · intro k below t mapped
      have inPage : (virtualAddress + (0 + k * 0x1000)) / 0x1000 = virtualAddress / 0x1000 + k := by
        omega
      have inFrame : (physicalAddress + (0 + k * 0x1000)) / 0x1000 =
        physicalAddress / 0x1000 + k := by
        omega
      rw [wordAt_of_lt (by omega), add32_of_lt (by omega), add32_of_lt (by omega)]
      obtain ⟨t', ret, mapped'⟩ := mapped.step below (by omega) (by omega) (by omega) inPage inFrame
      exact ⟨t', by simp only [ret, bind_eq_bind, bind_some]; rfl, mapped'⟩
    · exact ⟨sound, blocks, stocked, fun j below => absurd below (Nat.not_lt_zero j),
        fun _ _ _ => .inl rfl⟩
  refine ⟨s', run, ?_, ?_⟩
  · intro k below
    have inRange : k / 0x1000 < pagesOf size := by omega
    have entry := mapped.done (k / 0x1000) inRange
    have page : (virtualAddress + k) / 0x1000 = virtualAddress / 0x1000 + k / 0x1000 := by omega
    rw [← page] at entry
    rw [virtToPhysFromDir_of_entry (by omega) (by omega) (by omega) entry,
      frame_add_offset physicalAligned virtualAligned]
  · intro page lt away backed
    exact (mapped.rest page lt away).same backed

/-! ## Giving frames to a range -/

/-- As `Untouched`, and a page of the kernel heap that was touched is present in a
frame. -/
def Drifted (Q : Nat → Prop) (dir : Nat) (s0 s : Paging) (page : Nat) : Prop :=
  s.entry dir page = s0.entry dir page ∨
    Q page ∧ (s0.entry dir page).frame = 0 ∧ (s.entry dir page).present = true ∧
      (s.entry dir page).frame ≠ 0

section

variable {s0 s s1 : Paging} {page : Nat} (drifted : Drifted Q dir s0 s page)

include drifted

theorem Drifted.untouched : Untouched Q dir s0 s page :=
  drifted.imp_right fun mem => ⟨mem.1, mem.2.1⟩

theorem Drifted.look (looked : Looked heap dir Q s s1) (reserved : s.frames.marked 0 = true)
    (bound : page < pageCount) : Drifted Q dir s0 s1 page := by
  rcases drifted with same | ⟨lt, empty, mem, backed⟩
  · rcases looked.entry page bound with kept | ⟨lt, empty, given⟩
    · exact .inl (kept.trans same)
    · rw [same] at empty
      exact .inr ⟨lt, empty, given.present, given.frame_ne_zero reserved⟩
  have kept := looked.entry_of_frame bound backed
  unfold Drifted
  rw [kept]
  exact .inr ⟨lt, empty, mem, backed⟩

theorem Drifted.put (sound : DirSound dir s) (boundOther : other < pageCount)
    (table : (s.dirs dir).tables (other / pagesPerTable) ≠ 0) (lt : page < pageCount)
    (ne : page ≠ other) (e : Page) (frames : Frames) :
    Drifted Q dir s0 (s.put dir other e frames) page := by
  unfold Drifted
  rw [entry_put sound boundOther table lt, if_neg ne]
  exact drifted

end

theorem flagforceAllocFrame_backed (backed : page.frame ≠ 0) (isKernel writeable : Bool)
    (s : Frames) : flagforceAllocFrame page isKernel writeable s =
      ⟨0, setFrameFlags page isKernel writeable, s⟩ := by
  have kept : allocFrame page isKernel writeable s = ⟨-1, page, s⟩ := if_pos backed
  unfold flagforceAllocFrame
  rw [kept]
  rfl

theorem flagforceAllocFrame_takes {page' : Page} {isKernel writeable : Bool} {s s' : Frames}
    (alloc : allocFrame page isKernel writeable s = ⟨0, page', s'⟩) :
    flagforceAllocFrame page isKernel writeable s = ⟨0, page', s'⟩ := by
  unfold flagforceAllocFrame
  rw [alloc]
  rfl

theorem Taken.frame_ne_zero {s s' : Frames} (taken : Taken page s s')
    (reserved : s.marked 0 = true) :
    page.frame ≠ 0 := by
  intro zero
  have free := taken.free
  rw [zero] at free
  exact Bool.false_ne_true (free.symm.trans reserved)

/-- Pages of a list that have no frame. -/
def frameless (dir : Nat) (pages : List Nat) (s : Paging) : Nat :=
  pages.countP fun page => (s.entry dir page).frame = 0

theorem frameless_mono {s s' : Paging}
    (fewer : ∀ page ∈ pages, (s'.entry dir page).frame = 0 → (s.entry dir page).frame = 0) :
    frameless dir pages s' ≤ frameless dir pages s := by
  apply countP_mono_left
  intro page mem empty
  exact decide_eq_true (fewer page mem (of_decide_eq_true empty))

/-- What `flagforce_alloc_frame` makes of an entry: a page that has a frame is not
made present. -/
structure Flagged (isKernel writeable : Bool) (e e' : Page) : Prop where
  frame : e'.frame ≠ 0
  rw : e'.rw = writeable
  user : e'.user = !isKernel
  present : e'.present = true ↔ e.frame = 0 ∨ e.present = true

/-- `k` of `n` pages from page `first` on were visited. -/
structure Filling (heap : Kheap) (dir : Nat) (Q : Nat → Prop) (isKernel writeable : Bool)
    (first n : Nat) (s0 : Paging) (k : Nat) (s : Paging) : Prop where
  sound : DirSound dir s
  blocks : NewBlocks heap dir Q s
  stocked : Stocked heap dir (List.range' (first + k) (n - k))
    (frameless dir (List.range' (first + k) (n - k)) s) s
  done : ∀ j < k, Flagged isKernel writeable (s0.entry dir (first + j)) (s.entry dir (first + j))
  rest : ∀ page < pageCount, page < first ∨ first + k ≤ page → Drifted Q dir s0 s page

section

variable {isKernel writeable : Bool} {first n k : Nat} {s0 s : Paging}
  (filling : Filling heap dir Q isKernel writeable first n s0 k s)

include filling

theorem Filling.put (below : k < n) (top : first + n ≤ pageCount)
    (looked : Looked heap dir Q s s1)
    (table : (s1.dirs dir).tables ((first + k) / pagesPerTable) ≠ 0)
    (stocked : Stocked heap dir (List.range' (first + (k + 1)) (n - (k + 1))) m s1) {e : Page}
    {frames : Frames} (flagged : Flagged isKernel writeable (s0.entry dir (first + k)) e)
    (reserved : frames.marked 0 = true)
    (room : frameless dir (List.range' (first + (k + 1)) (n - (k + 1))) s + s1.frames.freeCount ≤
      m + frames.freeCount) :
    Filling heap dir Q isKernel writeable first n s0 (k + 1) (s1.put dir (first + k) e frames) := by
  have lt : first + k < pageCount := by omega
  constructor
  case sound => exact sound_put looked.sound lt table
  case blocks => exact blocks_put looked.sound lt table looked.blocks
  case stocked =>
    apply stocked_put looked.sound lt table stocked reserved flagged.frame
    have fewer : frameless dir (List.range' (first + (k + 1)) (n - (k + 1)))
        (s1.put dir (first + k) e frames) ≤
          frameless dir (List.range' (first + (k + 1)) (n - (k + 1))) s := by
      apply frameless_mono
      intro page mem empty
      have bounds := mem_range'_1.mp mem
      rw [entry_put looked.sound lt table (by omega), if_neg (by omega)] at empty
      rcases looked.entry page (by omega) with same | ⟨-, before, -⟩
      · rw [same] at empty
        exact empty
      · exact before
    omega
  case done =>
    intro j earlier
    rw [entry_put looked.sound lt table (by omega)]
    rcases Nat.lt_succ_iff_lt_or_eq.mp earlier with before | rfl
    · have visited := filling.done j before
      rw [if_neg (by omega), looked.entry_of_frame (by omega) visited.frame]
      exact visited
    · rw [if_pos rfl]
      exact flagged
  case rest =>
    intro page boundPage away
    apply Drifted.put _ looked.sound lt table boundPage (by omega)
    exact (filling.rest page boundPage (by omega)).look looked filling.stocked.reserved boundPage

theorem Filling.step (below : k < n) (top : first + n ≤ pageCount)
    (inPage : addr / 0x1000 = first + k) :
    ∃ s', onPage heap dir (fun page frames => flagforceAllocFrame page isKernel writeable frames)
        addr s = some (s', 0) ∧
      Filling heap dir Q isKernel writeable first n s0 (k + 1) s' := by
  have lt : first + k < pageCount := by omega
  obtain ⟨s1, looked, table, stocked1, ret⟩ :=
    onPage_next (fun page frames => flagforceAllocFrame page isKernel writeable frames)
      filling.sound filling.blocks filling.stocked below top inPage
  have drifted := (filling.rest (first + k) lt (.inr (Nat.le_refl _))).look looked
    filling.stocked.reserved lt
  by_cases empty : (s1.entry dir (first + k)).frame = 0
  · -- the entry is the one of the start, and one of the counted frames is for it
    have entry : s1.entry dir (first + k) = s0.entry dir (first + k) := by
      rcases drifted with same | ⟨-, -, -, backed⟩
      · exact same
      · exact absurd empty backed
    have before : (s.entry dir (first + k)).frame = 0 := by
      rcases looked.entry (first + k) lt with same | ⟨-, empty, -⟩
      · rw [← same]
        exact empty
      · exact empty
    have counted : frameless dir (List.range' (first + k) (n - k)) s =
        frameless dir (List.range' (first + (k + 1)) (n - (k + 1))) s + 1 := by
      rw [range'_step below]
      exact countP_cons_of_pos (decide_eq_true before)
    have free : 0 < s1.frames.freeCount := by
      have room := stocked1.room
      omega
    obtain ⟨page', frames', alloc, taken, mem, rw', user'⟩ :=
      allocFrame_takes empty free isKernel writeable
    have value := flagforceAllocFrame_takes alloc
    simp only [value] at ret
    refine ⟨_, ret, filling.put below top looked table stocked1 ?_ ?_ ?_⟩
    · refine ⟨taken.frame_ne_zero stocked1.reserved, rw', user', ?_⟩
      rw [← entry]
      exact ⟨fun _ => .inl empty, fun _ => mem⟩
    · rw [taken.marks, stocked1.reserved, Bool.or_true]
    · have count := taken.freeCount
      omega
  · have value := flagforceAllocFrame_backed empty isKernel writeable s1.frames
    simp only [value] at ret
    refine ⟨_, ret, filling.put below top looked table stocked1 ?_ stocked1.reserved ?_⟩
    · refine ⟨empty, rfl, rfl, ?_⟩
      rcases drifted with same | ⟨-, none, mem, -⟩
      · rw [same] at empty ⊢
        exact ⟨.inr, fun either => either.resolve_left empty⟩
      · exact ⟨fun _ => .inl none, fun _ => mem⟩
    · have fewer : frameless dir (List.range' (first + (k + 1)) (n - (k + 1))) s ≤
          frameless dir (List.range' (first + k) (n - k)) s := by
        rw [range'_step below]
        exact Sublist.countP_le (sublist_cons_self ..)
      omega

end

/-- The page can be used as it was asked for. -/
def Wanted (isKernel writeable : Bool) (e : Page) : Prop :=
  e.present = true ∧ e.frame ≠ 0 ∧ e.rw = writeable ∧ e.user = !isKernel

section

variable {s : Paging} {startaddr endaddr : Nat}

theorem mapMemoryBlock_fills (isKernel writeable : Bool) (sound : DirSound dir s)
    (blocks : NewBlocks heap dir Q s) (order : startaddr < endaddr)
    (top : endaddr < 2 ^ 32 - 0x1000)
    (stocked : Stocked heap dir (List.range' (startaddr / 0x1000) (pagesOf (endaddr - startaddr)))
      (frameless dir (List.range' (startaddr / 0x1000) (pagesOf (endaddr - startaddr))) s) s) :
    ∃ s', mapMemoryBlock heap startaddr endaddr isKernel writeable dir s = some (s', 0) ∧
      Filling heap dir Q isKernel writeable (startaddr / 0x1000) (pagesOf (endaddr - startaddr)) s
        (pagesOf (endaddr - startaddr)) s' := by
  have space := pageCount_eq
  have pages : pagesOf (endaddr - startaddr) = (endaddr - startaddr + 0xFFF) / 0x1000 := rfl
  apply wordLoop_returns
    (Filling heap dir Q isKernel writeable (startaddr / 0x1000) (pagesOf (endaddr - startaddr)) s)
  · omega
  · unfold wordPasses
    omega
  · intro k lt
    rw [wordAt_of_lt (by omega)]
    exact decide_eq_true (by omega)
  · rw [wordAt_of_lt (by omega)]
    exact decide_eq_false (by omega)
  · intro k lt t filling
    have inPage : (startaddr + k * 0x1000) / 0x1000 = startaddr / 0x1000 + k := by omega
    rw [wordAt_of_lt (by omega)]
    obtain ⟨t', ret, filling'⟩ := filling.step lt (by omega) inPage
    exact ⟨t', by simp only [ret, bind_eq_bind, bind_some], filling'⟩
  · exact ⟨sound, blocks, stocked, fun j lt => absurd lt (Nat.not_lt_zero j), fun _ _ _ => .inl rfl⟩

/-- The range is mapped as asked for exactly if no visited page of it had a frame without being
present, and the last page is visited or was mapped so before. -/
theorem mapMemoryBlock_maps_iff (isKernel writeable : Bool) (sound : DirSound dir s)
    (blocks : NewBlocks heap dir Q s) (order : startaddr < endaddr)
    (top : endaddr < 2 ^ 32 - 0x1000)
    (stocked : Stocked heap dir (List.range' (startaddr / 0x1000) (pagesOf (endaddr - startaddr)))
      (frameless dir (List.range' (startaddr / 0x1000) (pagesOf (endaddr - startaddr))) s) s)
    (apart : (endaddr - 1) % 0x1000 < startaddr % 0x1000 → Q ((endaddr - 1) / 0x1000) →
      (s.entry dir ((endaddr - 1) / 0x1000)).frame ≠ 0) :
    ∃ s', mapMemoryBlock heap startaddr endaddr isKernel writeable dir s = some (s', 0) ∧
      ((∀ a, startaddr ≤ a → a < endaddr → Wanted isKernel writeable (s'.entry dir (a / 0x1000))) ↔
        (∀ k < pagesOf (endaddr - startaddr), (s.entry dir (startaddr / 0x1000 + k)).frame = 0 ∨
            (s.entry dir (startaddr / 0x1000 + k)).present = true) ∧
          (startaddr % 0x1000 ≤ (endaddr - 1) % 0x1000 ∨
            Wanted isKernel writeable (s.entry dir ((endaddr - 1) / 0x1000)))) := by
  have space := pageCount_eq
  have pages : pagesOf (endaddr - startaddr) = (endaddr - startaddr + 0xFFF) / 0x1000 := rfl
  obtain ⟨s', ret, filling⟩ :=
    mapMemoryBlock_fills isKernel writeable sound blocks order top stocked
  refine ⟨s', ret, ?_⟩
  have lastEntry (missed : (endaddr - 1) % 0x1000 < startaddr % 0x1000) :
      s'.entry dir ((endaddr - 1) / 0x1000) = s.entry dir ((endaddr - 1) / 0x1000) := by
    apply (filling.rest _ (by omega) (.inr (by omega))).untouched.same
    exact apart missed
  constructor
  · intro mapped
    constructor
    · intro k lt
      have wanted := mapped (startaddr + k * 0x1000) (by omega) (by omega)
      have page : (startaddr + k * 0x1000) / 0x1000 = startaddr / 0x1000 + k := by omega
      rw [page] at wanted
      exact (filling.done k lt).present.mp wanted.1
    · rcases Nat.lt_or_ge ((endaddr - 1) % 0x1000) (startaddr % 0x1000) with missed | reached
      · right
        rw [← lastEntry missed]
        exact mapped (endaddr - 1) (by omega) (by omega)
      · exact .inl reached
  · rintro ⟨visited, lastPage⟩ a low high
    by_cases reached : a / 0x1000 < startaddr / 0x1000 + pagesOf (endaddr - startaddr)
    · obtain ⟨j, page⟩ := Nat.exists_eq_add_of_le (Nat.div_le_div_right (c := 0x1000) low)
      have lt : j < pagesOf (endaddr - startaddr) := by omega
      have flagged := filling.done j lt
      rw [page]
      exact ⟨flagged.present.mpr (visited j lt), flagged.frame, flagged.rw, flagged.user⟩
    · have missed : (endaddr - 1) % 0x1000 < startaddr % 0x1000 := by omega
      have page : a / 0x1000 = (endaddr - 1) / 0x1000 := by omega
      rw [page, lastEntry missed]
      exact lastPage.resolve_left (Nat.not_le_of_lt missed)

end

/-! ## A small address space -/

/-- One table after the other, each behind its header in the page before.  The first five pages
have frames already. -/
def pageHeap : Kheap where
  addr := fun k => 0xC0001000 + k * 0x2000
  allocFaults := fun k => if k < 3 then [] else [0xC0000000 + k * 0x2000]
  zeroFaults := fun _ => []

/-- The pages of the two tables of the heap. -/
def heapRegion (page : Nat) : Prop :=
  page / pagesPerTable = 768 ∨ page / pagesPerTable = 769

theorem smallSpace_sound : DirSound 0x2000 (smallSpace 1 0) := by
  have here : (smallSpace 1 0).dirs 0x2000 = smallDirectory 1 0x7000 := rfl
  constructor
  case null => rfl
  case tables =>
    intro t _ table
    rw [here] at table ⊢
    simp only [smallDirectory] at table ⊢
    split_ifs at table ⊢ <;> simp [smallSpace] at *
  case injective =>
    intro t _ u _ table same
    rw [here] at table same
    simp only [smallDirectory] at table same
    split_ifs at table same <;> simp_all

theorem smallSpace_mayCall (call : (smallSpace 1 0).mayCall 0x2000 k) : k < 1024 := by
  have high := call.2
  have most : (emptyTables ((smallSpace 1 0).dirs 0x2000)).card ≤ 1024 :=
    (Finset.card_filter_le ..).trans (Nat.le_of_eq (Finset.card_range 1024))
  have zero : (smallSpace 1 0).calls = 0 := rfl
  omega

theorem pageHeap_touches (mem : addr ∈ touches pageHeap k) (lt : k < 1024) :
    ∃ t j, (t = 768 ∨ t = 769) ∧ ∀ d : PageDirectory, entryPtr d addr = (d.tables t, j) := by
  refine ⟨_, _, ?_, fun d => rfl⟩
  unfold touches pageHeap at mem
  unfold pagesPerTable
  simp only [append_nil, mem_append, mem_singleton] at mem
  rcases mem with fault | rfl
  · split_ifs at fault <;> simp only [mem_singleton, not_mem_nil] at fault
    omega
  · omega

theorem smallSpace_blocks : NewBlocks pageHeap 0x2000 heapRegion (smallSpace 1 0) := by
  constructor
  case notNull =>
    intro k _ null
    have addr : pageHeap.addr k = 0xC0001000 + k * 0x2000 := rfl
    omega
  case noTable =>
    intro k _
    have addr : pageHeap.addr k = 0xC0001000 + k * 0x2000 := rfl
    unfold smallSpace
    simp only
    rw [if_neg (by omega), if_neg (by omega), if_neg (by omega), if_neg (by omega)]
  case distinct =>
    intro k l _ _ same
    have same : 0xC0001000 + k * 0x2000 = 0xC0001000 + l * 0x2000 := same
    omega
  case shared =>
    intro k call addr mem
    obtain ⟨t, j, known, place⟩ := pageHeap_touches mem (smallSpace_mayCall call)
    rw [place, place]
    rcases known with rfl | rfl <;> rfl
  case pages =>
    intro k call addr mem
    obtain ⟨t, j, known, place⟩ := pageHeap_touches mem (smallSpace_mayCall call)
    rw [place]
    rcases known with rfl | rfl <;> exact ⟨_, rfl⟩
  case listed =>
    intro k call addr mem page lt same
    obtain ⟨t, j, known, place⟩ := pageHeap_touches mem (smallSpace_mayCall call)
    rw [place, entryPtr_number] at same
    have table : ((smallSpace 1 0).dirs 0x2000).tables (page / pagesPerTable) =
        ((smallSpace 1 0).dirs 0x2000).tables t := congrArg Prod.fst same
    have here : page / pagesPerTable = t := by
      apply smallSpace_sound.injective _ (table_lt lt) t _ _ table
      all_goals rcases known with rfl | rfl
      all_goals first | decide | (rw [table]; decide)
    unfold heapRegion
    rwa [here]

theorem smallSpace_stocked {n : Nat}
    (tables : (missing ((smallSpace 1 0).dirs 0x2000) pages).card ≤ 1) (room : n ≤ 55) :
    Stocked pageHeap 0x2000 pages n (smallSpace 1 0) := by
  have free : (smallSpace 1 0).frames.freeCount = 55 := by decide +kernel
  have backed : unbacked (heapEntries pageHeap (smallSpace 1 0).curDir 0 1)
      (smallSpace 1 0) = ∅ := by decide +kernel
  have ready : Ready (heapEntries pageHeap (smallSpace 1 0).curDir 0 1) n (smallSpace 1 0) := by
    refine ⟨by decide +kernel, fun x mem => ?_, by rwa [backed, free]⟩
    obtain rfl : x = (0x6000, 1) := mem_singleton.mp mem
    exact ⟨⟨true, false, false, 4⟩, rfl, fun _ => by decide⟩
  exact ready.fewer tables le_rfl

theorem mapPhysicalToVirtual_small :
    ∃ s', mapPhysicalToVirtual pageHeap 0x3E000 0x7FF000 0x2000 true true 0x2000 (smallSpace 1 0) =
        some (s', 0) ∧
      (∀ k < 0x2000, virtToPhysFromDir (0x7FF000 + k) 0x2000 s' = some (0x3E000 + k)) ∧
      ∀ page < pageCount, page < 0x7FF000 / 0x1000 ∨ 0x7FF000 / 0x1000 + pagesOf 0x2000 ≤ page →
        (heapRegion page → ((smallSpace 1 0).entry 0x2000 page).frame ≠ 0) →
          s'.entry 0x2000 page = (smallSpace 1 0).entry 0x2000 page :=
  mapPhysicalToVirtual_translates true true smallSpace_sound smallSpace_blocks (by decide)
    (by decide)
    (by decide) (by decide) (by decide) (by decide)
    (smallSpace_stocked (by decide +kernel) (by decide +kernel))

theorem mapMemoryBlock_small :
    ∃ s', mapMemoryBlock pageHeap 0x500800 0x501400 false true 0x2000 (smallSpace 1 0) =
      some (s', 0) ∧
      ((∀ a, 0x500800 ≤ a → a < 0x501400 → Wanted false true (s'.entry 0x2000 (a / 0x1000))) ↔
        (∀ k < pagesOf (0x501400 - 0x500800),
          ((smallSpace 1 0).entry 0x2000 (0x500800 / 0x1000 + k)).frame = 0 ∨
            ((smallSpace 1 0).entry 0x2000 (0x500800 / 0x1000 + k)).present = true) ∧
          (0x500800 % 0x1000 ≤ (0x501400 - 1) % 0x1000 ∨
            Wanted false true ((smallSpace 1 0).entry 0x2000 ((0x501400 - 1) / 0x1000)))) :=
  mapMemoryBlock_maps_iff false true smallSpace_sound smallSpace_blocks (by decide) (by decide)
    (smallSpace_stocked (by decide +kernel) (by decide +kernel))
    (fun _ inside => absurd inside (by unfold heapRegion; decide))

theorem mapMemoryBlock_misses :
    ∃ s', mapMemoryBlock pageHeap 0x500800 0x501400 false true 0x2000 (smallSpace 1 0) =
      some (s', 0) ∧
      s'.entry 0x2000 (0x501000 / 0x1000) = Page.zero := by
  have run : (mapMemoryBlock pageHeap 0x500800 0x501400 false true 0x2000 (smallSpace 1 0)).map
      (fun r => (r.1.entry 0x2000 0x501, r.2)) = some (Page.zero, 0) := by
    decide +kernel
  obtain ⟨⟨s', ret⟩, result, observed⟩ := map_eq_some_iff.mp run
  obtain rfl : ret = 0 := congrArg Prod.snd observed
  exact ⟨s', result, congrArg Prod.fst observed⟩

end Yanix.Mm
