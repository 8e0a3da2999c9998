/-
Module: Yanix.Proofs.PagingGrowth
Purpose: How memory grows while a directory is copied: `Grows` says what the steps leave
  alone, `Ready` accounts for the frames still needed, `Faults` for those not found.
-/
import Yanix.Proofs.FrameOwnership
import Mathlib.Data.Nat.Count

namespace Yanix.Mm

open Foundation Function List Option

variable {d : Page} {f : Nat} {p : Nat} {addr : Nat} {faults : List Nat} {heap : Kheap}
variable {s : Paging} {x : PagePtr} {e : Page} {s s' s'' : Paging} {s s' : Paging}
  {R : List PagePtr} {n : Nat} {T : Nat → Prop}

/-- Number of free frames the search can find. -/
def Frames.freeCount (s : Frames) : Nat :=
  ((Finset.range (s.gNframes / 32 * 32)).filter fun f => s.marked f = false).card

theorem Taken.freeCount {page' : Page} {s s' : Frames} (taken : Taken page' s s') :
    s'.freeCount + 1 = s.freeCount := by
  have erased : ((Finset.range (s'.gNframes / 32 * 32)).filter fun f => s'.marked f = false) =
      ((Finset.range (s.gNframes / 32 * 32)).filter fun f => s.marked f = false).erase
        page'.frame.toNat := by
    ext f
    simp [taken.nframes, taken.marks, and_left_comm]
  unfold Frames.freeCount
  rw [erased]
  apply Finset.card_erase_add_one
  rw [Finset.mem_filter, Finset.mem_range]
  exact ⟨taken.bound, taken.free⟩

theorem allocFrame_takes {page : Page} {s : Frames} (empty : page.frame = 0)
    (free : 0 < s.freeCount) (isKernel isWritable : Bool) :
    ∃ page' s', allocFrame page isKernel isWritable s = ⟨0, page', s'⟩ ∧ Taken page' s s' ∧
      page'.present = true ∧ page'.rw = isWritable ∧ page'.user = !isKernel := by
  obtain ⟨index, found⟩ : ∃ k, firstFrame s = some k := by
    cases search : firstFrame s with
    | some k => exact ⟨k, rfl⟩
    | none =>
      obtain ⟨f, mem⟩ := Finset.card_pos.mp free
      rw [Finset.mem_filter, Finset.mem_range] at mem
      have marked := firstFrame_eq_none.mp search f mem.1
      exact absurd (mem.2.symm.trans marked) Bool.false_ne_true
  have taken := takeFrame_taken page isKernel isWritable found
  unfold allocFrame
  rw [if_neg (not_not_intro empty), found]
  exact ⟨_, _, rfl, taken, rfl, rfl, rfl⟩

/-! ## The amount of free memory -/

/-- Counting up from `a`, where no sum wraps around. -/
theorem foldl_count (p : Nat → Prop) [DecidablePred p] {a n : Nat} (lt : a + n < 2 ^ 32) :
    (List.range n).foldl (fun count j => if p j then add32 count 1 else count) a =
      a + Nat.count p n := by
  induction n with
  | zero => simp
  | succ n ih =>
    have few := Nat.count_le (p := p) (n := n)
    rw [range_succ, foldl_append, ih (by omega), foldl_cons, foldl_nil, Nat.count_succ]
    split
    · rw [add32_of_lt (by omega), Nat.add_assoc]
    · rfl

theorem physFreeramAmount_eq {s : Frames} (lt : s.gNframes < 2 ^ 20) :
    physFreeramAmount s = 0x1000 * s.freeCount := by
  have bit (i j : Nat) (inside : j < 32) :
      (s.gFrames i >>> j) &&& 1#32 = 0#32 ↔ s.marked (i * 32 + j) = false := by
    have masked := Words.masked_eq_zero_iff (s.gFrames i >>> j) (j := 0) (by decide)
    rw [BitVec.shiftLeft_zero, BitVec.getLsbD_ushiftRight, Nat.add_zero] at masked
    rw [masked, Frames.marked, Words.mem_word _ inside]
  have rounds (n : Nat) (le : n ≤ s.gNframes / 32) : (List.range n).foldl (freeramPass s) 0 =
        Nat.count (fun f => s.marked f = false) (n * 32) := by
    induction n with
    | zero => simp
    | succ n ih =>
      have few := Nat.count_le (p := fun f => s.marked f = false) (n := n * 32)
      rw [range_succ, foldl_append, ih (by omega), foldl_cons, foldl_nil, Nat.succ_mul,
        Nat.count_add, freeramPass]
      split
      · next zero =>
          have all : ∀ j < 32, s.marked (n * 32 + j) = false :=
            fun j inside => (bit n j inside).mp (by rw [zero, BitVec.zero_ushiftRight]; rfl)
          rw [Nat.count_of_forall all, add32_of_lt (by omega)]
      · rw [← foldl_count _ (by omega)]
        refine foldl_ext _ _ _ fun count j mem => ?_
        exact if_congr (bit n j (mem_range.mp mem)) rfl rfl
  have few := Nat.count_le (p := fun f => s.marked f = false) (n := s.gNframes / 32 * 32)
  unfold physFreeramAmount
  rw [rounds _ le_rfl, mul32_of_lt (by omega), Nat.mul_comm, Nat.count_eq_card_filter_range]
  rfl

/-- The amount is right, a frame that is taken lowers it by the size of a frame, and nothing else
that `alloc_frame` does changes it. -/
theorem free_ram_exact {s : Frames} (whole : 32 ∣ s.gNframes) (small : s.gNframes < 2 ^ 20) :
    physFreeramAmount s =
        0x1000 * ((Finset.range s.gNframes).filter fun f => s.marked f = false).card ∧
      ∀ page isKernel isWritable, ((allocFrame page isKernel isWritable s).ret = 0 →
          physFreeramAmount (allocFrame page isKernel isWritable s).frames + 0x1000 =
            physFreeramAmount s) ∧
        ((allocFrame page isKernel isWritable s).ret ≠ 0 →
          physFreeramAmount (allocFrame page isKernel isWritable s).frames =
            physFreeramAmount s) := by
  constructor
  · rw [physFreeramAmount_eq small, Frames.freeCount, Nat.div_mul_cancel whole]
  · intro page isKernel isWritable
    unfold allocFrame
    split
    · exact ⟨fun ret => by simp at ret, fun _ => rfl⟩
    split
    · exact ⟨fun ret => by simp at ret, fun _ => rfl⟩
    next found =>
      have taken := takeFrame_taken page isKernel isWritable found
      refine ⟨fun _ => ?_, fun failed => absurd rfl failed⟩
      rw [physFreeramAmount_eq (by rwa [taken.nframes]), physFreeramAmount_eq small,
        ← taken.freeCount, Nat.mul_succ]

/-- A bitmap of 64 frames, of which the first is marked. -/
theorem free_ram_exact_small :
    physFreeramAmount ⟨fun i => if i = 0 then 1 else 0, 64, 0, by decide⟩ = 0x1000 * 63 :=
  (free_ram_exact (by decide) (by decide)).1.trans (by decide)

namespace Paging

/-- The state after a write to an entry. -/
def write (s : Paging) (x : PagePtr) (e : Page) : Paging := { s with
    tables := update s.tables x.1 ((s.tables x.1).map fun table => update table x.2 e) }

/-- The entry is present. -/
def Maps (s : Paging) (x : PagePtr) (e : Page) : Prop := s.page? x = some e ∧ e.present = true

theorem setPage?_of_page? (entry : s.page? x = some e) (e' : Page) :
    s.setPage? x e' = some (s.write x e') := by
  obtain ⟨table, found, -⟩ := map_eq_some_iff.mp entry
  unfold setPage? write
  rw [found]
  rfl

theorem page?_write (entry : s.page? x = some e) (e' : Page) (y : PagePtr) :
    (s.write x e').page? y = if y = x then some e' else s.page? y := by
  obtain ⟨table, found, -⟩ := map_eq_some_iff.mp entry
  obtain ⟨p, j⟩ := x
  obtain ⟨q, k⟩ := y
  simp only [page?, write, Prod.mk.injEq]
  by_cases sameTable : q = p
  · subst sameTable
    rw [update_self, found, map_some, map_some, map_some, update_apply]
    by_cases sameIndex : k = j <;> simp [sameIndex]
  · rw [update_of_ne sameTable, if_neg fun same => sameTable same.1]

theorem write_self (entry : s.page? x = some e) : s.write x e = s := by
  obtain ⟨table, found, rfl⟩ := map_eq_some_iff.mp entry
  unfold write
  rw [found, map_some, update_eq_self, ← found, update_eq_self]

theorem Maps.unique (first : s.Maps x d) (second : s.Maps x e) : d = e :=
  mem_unique first.1 second.1

end Paging

variable {dir : PageDirectory}

theorem allocFrameAt_eq (entry : s.page? x = some e) (isKernel isWritable : Bool) :
    allocFrameAt x isKernel isWritable s =
      some ({ s with frames := (allocFrame e isKernel isWritable s.frames).frames : Paging }.write x
        (allocFrame e isKernel isWritable s.frames).page,
        (allocFrame e isKernel isWritable s.frames).ret) := by
  unfold allocFrameAt
  rw [entry]
  have entry' : ({ s with frames := (allocFrame e isKernel isWritable s.frames).frames } :
      Paging).page? x = some e := entry
  simp only [bind_eq_bind, bind_some, Paging.setPage?_of_page? entry']

/-- Entry `x` got a free frame; the contents of used frames stayed. -/
structure Fills (x : PagePtr) (e : Page) (s s' : Paging) : Prop where
  dirs : s'.dirs = s.dirs
  current : s'.gCurrentDirectory = s.gCurrentDirectory
  kernel : s'.gKernelDirectory = s.gKernelDirectory
  calls : s'.calls = s.calls
  pages : ∀ y, s'.page? y = if y = x then some e else s.page? y
  taken : Taken e s.frames s'.frames
  present : e.present = true
  contents : ∀ f, s.frames.marked f = true → s'.phys f = s.phys f

theorem allocFrameAt_fills (entry : s.page? x = some e) (empty : e.frame = 0)
    (free : 0 < s.frames.freeCount) (isKernel isWritable : Bool) :
    ∃ s' e', allocFrameAt x isKernel isWritable s = some (s', 0) ∧ Fills x e' s s' ∧
      e'.rw = isWritable ∧ e'.user = !isKernel ∧ s'.phys = s.phys := by
  obtain ⟨e', frames', ret, taken, mem, rw, user⟩ := allocFrame_takes empty free isKernel isWritable
  refine ⟨{ s with frames := frames' : Paging }.write x e', e', ?_, ?_, rw, user, rfl⟩
  · rw [allocFrameAt_eq entry, ret]
  · refine ⟨rfl, rfl, rfl, rfl, ?_, taken, mem, fun _ _ => rfl⟩
    exact Paging.page?_write (s := { s with frames := frames' }) entry e'

theorem firstFrame_none_of_full {s : Frames} (full : s.freeCount = 0) : firstFrame s = none := by
  cases search : firstFrame s with
  | none => rfl
  | some k =>
    obtain ⟨lt, free, -⟩ := firstFrame_eq_some search
    have mem : k ∈ (Finset.range (s.gNframes / 32 * 32)).filter fun f => s.marked f = false :=
      Finset.mem_filter.mpr ⟨Finset.mem_range.mpr lt, free⟩
    rw [Finset.card_eq_zero.mp full] at mem
    exact absurd mem (Finset.notMem_empty k)

theorem allocFrameAt_kept (entry : s.page? x = some e) (backed : e.frame ≠ 0)
    (isKernel isWritable : Bool) : allocFrameAt x isKernel isWritable s = some (s, -1) := by
  have kept : allocFrame e isKernel isWritable s.frames = ⟨-1, e, s.frames⟩ := if_pos backed
  rw [allocFrameAt_eq entry, kept, Paging.write_self (s := { s with frames := s.frames }) entry]

theorem allocFrameAt_full (entry : s.page? x = some e) (empty : e.frame = 0)
    (full : s.frames.freeCount = 0) (isKernel isWritable : Bool) :
    allocFrameAt x isKernel isWritable s =
      some ({ s with frames := { s.frames with errno := enomem } }, -2) := by
  have failed : allocFrame e isKernel isWritable s.frames =
      ⟨-2, e, { s.frames with errno := enomem }⟩ := by
    unfold allocFrame
    rw [if_neg (not_not_intro empty), firstFrame_none_of_full full]
  rw [allocFrameAt_eq entry, failed,
    Paging.write_self (s := { s with frames := { s.frames with errno := enomem } }) entry]

/-! ## Growth -/

/-- From `s` to `s'` entries were filled and tables added, in tables of `A` only. Every entry filled
got a frame free in `s`; the contents of used frames other than frame 0 stayed. -/
structure Spares (A : Nat → Prop) (s s' : Paging) : Prop where
  current : s'.gCurrentDirectory = s.gCurrentDirectory
  kernel : s'.gKernelDirectory = s.gKernelDirectory
  curDir : s'.curDir = s.curDir
  kernelDir : s'.kernelDir = s.kernelDir
  marks : ∀ f, s.frames.marked f = true → s'.frames.marked f = true
  contents : ∀ f, f ≠ 0 → s.frames.marked f = true → s'.phys f = s.phys f
  elsewhere : ∀ x : PagePtr, ¬A x.1 → s'.page? x = s.page? x
  kept : ∀ x e, s.Maps x e → s'.Maps x e
  filled : ∀ x e, s'.Maps x e → ¬s.Maps x e →
    s.frames.marked e.frame.toNat = false ∧ s'.frames.marked e.frame.toNat = true

/-- Also, frame 0 kept its content, no two entries filled got the same frame, and no other frame
was taken. -/
structure Grows (A : Nat → Prop) (s s' : Paging) : Prop extends Spares A s s' where
  nframes : s'.frames.gNframes = s.frames.gNframes
  zero : s.frames.marked 0 = true → s'.phys 0 = s.phys 0
  distinct : ∀ x y d e, s'.Maps x d → ¬s.Maps x d → s'.Maps y e → ¬s.Maps y e →
    d.frame = e.frame → x = y
  taken : ∀ f, s'.frames.marked f = true → s.frames.marked f = false →
    ∃ x e, s'.Maps x e ∧ ¬s.Maps x e ∧ e.frame.toNat = f

variable {A B : Nat → Prop}

namespace Spares

theorem refl (A : Nat → Prop) (s : Paging) : Spares A s s where
  current := rfl
  kernel := rfl
  curDir := rfl
  kernelDir := rfl
  marks := fun _ marked => marked
  contents := fun _ _ _ => rfl
  elsewhere := fun _ _ => rfl
  kept := fun _ _ maps => maps
  filled := fun _ _ maps new => absurd maps new

theorem mono (spares : Spares A s s') (sub : ∀ p, A p → B p) : Spares B s s' := { spares with
    elsewhere := fun x away => spares.elsewhere x fun lt => away (sub _ lt) }

theorem free_of_free (spares : Spares A s s') (free : s'.frames.marked f = false) :
    s.frames.marked f = false := by
  cases marked : s.frames.marked f with
  | false => rfl
  | true => exact (spares.marks f marked).symm.trans free

theorem trans (first : Spares A s s') (second : Spares A s' s'') : Spares A s s'' where
  current := second.current.trans first.current
  kernel := second.kernel.trans first.kernel
  curDir := second.curDir.trans first.curDir
  kernelDir := second.kernelDir.trans first.kernelDir
  marks := fun f marked => second.marks f (first.marks f marked)
  contents := fun f used marked =>
    (second.contents f used (first.marks f marked)).trans (first.contents f used marked)
  elsewhere := fun x away => (second.elsewhere x away).trans (first.elsewhere x away)
  kept := fun x e maps => second.kept x e (first.kept x e maps)
  filled := by
    intro x e maps new
    by_cases between : s'.Maps x e
    · have filled := first.filled x e between new
      exact ⟨filled.1, second.marks _ filled.2⟩
    · have filled := second.filled x e maps between
      exact ⟨first.free_of_free filled.1, filled.2⟩

end Spares

namespace Grows

theorem refl (A : Nat → Prop) (s : Paging) : Grows A s s where
  toSpares := .refl A s
  nframes := rfl
  zero := fun _ => rfl
  distinct := fun _ _ _ _ maps new => absurd maps new
  taken := fun _ marked free => absurd (free.symm.trans marked) Bool.false_ne_true

theorem mono (grows : Grows A s s') (sub : ∀ p, A p → B p) : Grows B s s' :=
  { grows with toSpares := grows.toSpares.mono sub }

theorem content (grows : Grows A s s') (marked : s.frames.marked f = true) :
    s'.phys f = s.phys f := by
  by_cases null : f = 0
  · subst null
    exact grows.zero marked
  · exact grows.contents f null marked

theorem trans (first : Grows A s s') (second : Grows A s' s'') : Grows A s s'' where
  toSpares := first.toSpares.trans second.toSpares
  nframes := second.nframes.trans first.nframes
  zero := fun marked => (second.zero (first.marks 0 marked)).trans (first.zero marked)
  distinct := by
    intro x y d e mapsX newX mapsY newY same
    -- an entry filled early holds a frame that is no longer free when a later one is filled
    by_cases earlyX : s'.Maps x d <;> by_cases earlyY : s'.Maps y e
    · exact first.distinct x y d e earlyX newX earlyY newY same
    · have used := (first.filled x d earlyX newX).2
      rw [same, (second.filled y e mapsY earlyY).1] at used
      exact absurd used Bool.false_ne_true
    · have used := (first.filled y e earlyY newY).2
      rw [← same, (second.filled x d mapsX earlyX).1] at used
      exact absurd used Bool.false_ne_true
    · exact second.distinct x y d e mapsX earlyX mapsY earlyY same
  taken := by
    intro f marked free
    cases between : s'.frames.marked f with
    | true =>
      obtain ⟨x, e, maps, new, frame⟩ := first.taken f between free
      exact ⟨x, e, second.kept x e maps, new, frame⟩
    | false =>
      obtain ⟨x, e, maps, new, frame⟩ := second.taken f marked between
      exact ⟨x, e, maps, fun old => new (first.kept x e old), frame⟩

end Grows

theorem Fills.grows {s' : Paging} (fills : Fills x e s s') (notPresent : ∀ d, ¬s.Maps x d) :
    Grows (fun p => p = x.1) s s' := by
  -- the only entry that is new is `x`
  have new (y : PagePtr) (d : Page) (maps : s'.Maps y d) (absent : ¬s.Maps y d) :
      y = x ∧ d = e := by
    obtain ⟨page, mem⟩ := maps
    rw [fills.pages] at page
    split at page
    · rename_i same
      exact ⟨same, (some.inj page).symm⟩
    · exact absurd ⟨page, mem⟩ absent
  constructor
  case nframes => exact fills.taken.nframes
  case zero => exact fills.contents 0
  case toSpares =>
    constructor
    case current => exact fills.current
    case kernel => exact fills.kernel
    case curDir => unfold Paging.curDir; rw [fills.dirs, fills.current]
    case kernelDir => unfold Paging.kernelDir; rw [fills.dirs, fills.kernel]
    case marks =>
      intro f marked
      rw [fills.taken.marks, marked, Bool.or_true]
    case contents => exact fun f _ => fills.contents f
    case elsewhere =>
      intro y away
      rw [fills.pages, if_neg fun same => away (congrArg Prod.fst same)]
    case kept =>
      intro y d maps
      have ne : y ≠ x := fun same => notPresent d (same ▸ maps)
      exact ⟨by rw [fills.pages, if_neg ne]; exact maps.1, maps.2⟩
    case filled =>
      intro y d maps absent
      obtain ⟨-, rfl⟩ := new y d maps absent
      refine ⟨fills.taken.free, ?_⟩
      rw [fills.taken.marks, decide_eq_true rfl, Bool.true_or]
  case distinct =>
    intro y z d d' mapsY newY mapsZ newZ _
    rw [(new y d mapsY newY).1, (new z d' mapsZ newZ).1]
  case taken =>
    intro f marked free
    rw [fills.taken.marks, free, Bool.or_false, decide_eq_true_iff] at marked
    exact ⟨x, e, ⟨by rw [fills.pages, if_pos rfl], fills.present⟩, notPresent e, marked.symm⟩

namespace Paging

theorem tables_setTable (s : Paging) (dir index table : Nat) :
    ((s.setTable dir index table).dirs dir).tables = update (s.dirs dir).tables index table := by
  simp [setTable]

theorem dirs_setTable_of_ne (s : Paging) {dir d : Nat} (ne : d ≠ dir) (index table : Nat) :
    (s.setTable dir index table).dirs d = s.dirs d :=
  update_of_ne ne ..

theorem tables_setTablePhysical (s : Paging) (dir index phys d : Nat) :
    ((s.setTablePhysical dir index phys).dirs d).tables = (s.dirs d).tables := by
  unfold setTablePhysical
  by_cases same : d = dir
  · subst same
    simp
  · simp [update_of_ne same]

/-- The state with an empty table at `p`. -/
def addTable (s : Paging) (p : Nat) : Paging :=
  { s with tables := update s.tables p (some fun _ => Page.zero) }

theorem page?_addTable (s : Paging) (p : Nat) (y : PagePtr) :
    (s.addTable p).page? y = if y.1 = p then some Page.zero else s.page? y := by
  simp only [page?, addTable, update_apply]
  split <;> rfl

end Paging

theorem addTable_grows (absent : ∀ j, s.page? (p, j) = none) :
    Grows (fun q => q = p) s (s.addTable p) := by
  have old (y : PagePtr) (d : Page) (maps : (s.addTable p).Maps y d) : s.Maps y d := by
    obtain ⟨page, mem⟩ := maps
    rw [s.page?_addTable] at page
    split at page
    · rw [← some.inj page] at mem
      exact absurd mem Bool.false_ne_true
    · exact ⟨page, mem⟩
  refine ⟨⟨rfl, rfl, rfl, rfl, fun _ marked => marked, fun _ _ _ => rfl, ?_, ?_, ?_⟩, rfl,
    fun _ => rfl, ?_, ?_⟩
  · intro y away
    rw [s.page?_addTable, if_neg away]
  · intro y d maps
    have ne : y.1 ≠ p := by
      intro same
      have page := maps.1
      rw [← same] at absent
      exact some_ne_none d (page.symm.trans (absent y.2))
    exact ⟨by rw [s.page?_addTable, if_neg ne]; exact maps.1, maps.2⟩
  · exact fun y d maps new => absurd (old y d maps) new
  · exact fun y z d e maps new => absurd (old y d maps) new
  · exact fun f marked free => absurd (free.symm.trans marked) Bool.false_ne_true

/-- The entries among `R` that have no frame yet. -/
def unbacked (R : List PagePtr) (s : Paging) : Finset PagePtr :=
  R.toFinset.filter fun x => (s.page? x).map Page.frame = some 0

theorem mem_unbacked_cons {R : List PagePtr} (empty : (s.page? x).map Page.frame = some 0) :
    x ∈ unbacked (x :: R) s := by
  unfold unbacked
  rw [Finset.mem_filter, toFinset_cons]
  exact ⟨Finset.mem_insert_self .., empty⟩

theorem unbacked_subset_cons (x : PagePtr) (R : List PagePtr) (s : Paging) :
    unbacked R s ⊆ unbacked (x :: R) s := by
  apply Finset.filter_subset_filter
  rw [toFinset_cons]
  exact Finset.subset_insert ..

/-- There are frames enough for `n` more pages and for the entries of `R`, which exist, present with
a frame only. -/
structure Ready (R : List PagePtr) (n : Nat) (s : Paging) : Prop where
  reserved : s.frames.marked 0 = true
  backable : ∀ x ∈ R, ∃ e, s.page? x = some e ∧ (e.present = true → e.frame ≠ 0)
  room : n + (unbacked R s).card ≤ s.frames.freeCount

theorem Fills.frame_ne_zero (fills : Fills x e s s') (reserved : s.frames.marked 0 = true) :
    e.frame ≠ 0 := by
  intro zero
  have free := fills.taken.free
  rw [zero] at free
  exact Bool.false_ne_true (free.symm.trans reserved)

theorem Fills.unbacked_subset (fills : Fills x e s s') (reserved : s.frames.marked 0 = true)
    (R : List PagePtr) : unbacked R s' ⊆ (unbacked R s).erase x := by
  intro y mem
  unfold unbacked at mem ⊢
  rw [Finset.mem_filter, fills.pages] at mem
  split at mem
  · exact absurd (some.inj mem.2) (fills.frame_ne_zero reserved)
  rename_i ne
  rw [Finset.mem_erase, Finset.mem_filter]
  exact ⟨ne, mem⟩

theorem Fills.reserved (fills : Fills x e s s') (reserved : s.frames.marked 0 = true) :
    s'.frames.marked 0 = true := by
  rw [fills.taken.marks, reserved, Bool.or_true]

theorem Fills.backable (fills : Fills x e s s') (reserved : s.frames.marked 0 = true)
    (backable : ∀ y ∈ R, ∃ d, s.page? y = some d ∧ (d.present = true → d.frame ≠ 0)) :
    ∀ y ∈ R, ∃ d, s'.page? y = some d ∧ (d.present = true → d.frame ≠ 0) := by
  intro y mem
  rw [fills.pages]
  split
  · exact ⟨e, rfl, fun _ => fills.frame_ne_zero reserved⟩
  · exact backable y mem

theorem Ready.fill (ready : Ready R (n + 1) s) (fills : Fills x e s s') : Ready R n s' := by
  refine ⟨fills.reserved ready.reserved, fills.backable ready.reserved ready.backable, ?_⟩
  have fewer := Finset.card_le_card
    ((fills.unbacked_subset ready.reserved R).trans (Finset.erase_subset ..))
  have room := ready.room
  have count := fills.taken.freeCount
  omega

theorem Ready.fill_listed (ready : Ready (x :: R) n s) (fills : Fills x e s s')
    (empty : (s.page? x).map Page.frame = some 0) : Ready R n s' := by
  refine ⟨fills.reserved ready.reserved, fills.backable ready.reserved
    fun y mem => ready.backable y (mem_cons_of_mem x mem), ?_⟩
  have fewer : (unbacked R s').card ≤ ((unbacked (x :: R) s).erase x).card := by
    refine Finset.card_le_card ((fills.unbacked_subset ready.reserved R).trans ?_)
    exact Finset.erase_subset_erase _ (unbacked_subset_cons x R s)
  have one := Finset.card_erase_add_one (mem_unbacked_cons (R := R) empty)
  have room := ready.room
  have count := fills.taken.freeCount
  omega

theorem Ready.tail (ready : Ready (x :: R) n s) : Ready R n s := by
  refine ⟨ready.reserved, fun y mem => ready.backable y (mem_cons_of_mem x mem), ?_⟩
  have fewer := Finset.card_le_card (unbacked_subset_cons x R s)
  have room := ready.room
  omega

theorem Ready.free (ready : Ready (x :: R) n s) (empty : (s.page? x).map Page.frame = some 0) :
    0 < s.frames.freeCount := by
  have mem := Finset.card_pos.mpr ⟨x, mem_unbacked_cons (R := R) empty⟩
  have room := ready.room
  omega

/-! ## Page faults of the kernel heap -/

/-- Growth that neither changes a directory nor adds a table. -/
structure HeapGrows (T : Nat → Prop) (s s' : Paging) : Prop where
  grows : Grows T s s'
  dirs : s'.dirs = s.dirs
  absent : ∀ x, s.page? x = none → s'.page? x = none

namespace HeapGrows

theorem refl (T : Nat → Prop) (s : Paging) : HeapGrows T s s :=
  ⟨Grows.refl T s, rfl, fun _ absent => absent⟩

theorem trans (first : HeapGrows T s s') (second : HeapGrows T s' s'') : HeapGrows T s s'' :=
  ⟨first.grows.trans second.grows, second.dirs.trans first.dirs,
    fun x absent => second.absent x (first.absent x absent)⟩

theorem of_fills (fills : Fills x e s s') (entry : s.page? x = some d)
    (notPresent : d.present = false) (inside : T x.1) : HeapGrows T s s' := by
  have absentEntry (d' : Page) : ¬s.Maps x d' := by
    intro maps
    have same : d = d' := mem_unique entry maps.1
    rw [same, maps.2] at notPresent
    exact absurd notPresent.symm Bool.false_ne_true
  refine ⟨(fills.grows absentEntry).mono fun p same => same ▸ inside, fills.dirs, ?_⟩
  intro y absent
  rw [fills.pages, if_neg]
  · exact absent
  · intro same
    rw [same, entry] at absent
    exact some_ne_none d absent

end HeapGrows

theorem Ready.head_cases (ready : Ready (x :: R) n s) (inside : T x.1) :
    ∃ e, s.page? x = some e ∧ (e.frame ≠ 0 ∨ e.frame = 0 ∧ e.present = false ∧
      ∃ s' e', allocFrameAt x true false s = some (s', 0) ∧ Fills x e' s s' ∧
        HeapGrows T s s' ∧ Ready R n s') := by
  obtain ⟨e, entry, backed⟩ := ready.backable x mem_cons_self
  refine ⟨e, entry, ?_⟩
  by_cases empty : e.frame = 0
  · have emptyEntry : (s.page? x).map Page.frame = some 0 := by
      rw [entry, map_some, empty]
    have notPresent : e.present = false := by
      cases present : e.present with
      | false => rfl
      | true => exact absurd empty (backed present)
    obtain ⟨s', e', ret, fills, -⟩ :=
      allocFrameAt_fills entry empty (ready.free emptyEntry) true false
    exact .inr ⟨empty, notPresent, s', e', ret, fills,
      HeapGrows.of_fills fills entry notPresent inside, ready.fill_listed fills emptyEntry⟩
  · exact .inl empty

theorem zeroPage_ready (ready : Ready (entryPtr s.curDir addr :: R) n s)
    (inside : T (entryPtr s.curDir addr).1) :
    ∃ s', zeroPage addr s = some s' ∧ HeapGrows T s s' ∧ s'.calls = s.calls ∧ Ready R n s' := by
  obtain ⟨e, entry, backed | ⟨-, -, s', e', ret, fills, grows, ready'⟩⟩ := ready.head_cases inside
  · refine ⟨s, ?_, HeapGrows.refl T s, rfl, ready.tail⟩
    unfold zeroPage
    rw [allocFrameAt_kept entry backed]
    simp
  refine ⟨s', ?_, grows, fills.calls, ready'⟩
  unfold zeroPage
  rw [ret]
  simp

theorem backPage_ready (ready : Ready (x :: R) n s) (inside : T x.1) :
    ∃ s' e, backPage x s = some s' ∧ HeapGrows T s s' ∧ s'.calls = s.calls ∧ Ready R n s' ∧
      s'.page? x = some e := by
  obtain ⟨e, entry, backed | ⟨empty, -, s', e', ret, fills, grows, ready'⟩⟩ :=
    ready.head_cases inside
  · refine ⟨s, e, ?_, HeapGrows.refl T s, rfl, ready.tail, entry⟩
    unfold backPage
    rw [entry]
    exact if_neg backed
  refine ⟨s', e', ?_, grows, fills.calls, ready', ?_⟩
  · unfold backPage
    rw [entry]
    simp [empty, ret]
  · rw [fills.pages, if_pos rfl]

theorem zeroPages_ready (here : s.curDir = dir)
    (inside : ∀ addr ∈ faults, T (entryPtr dir addr).1)
    (ready : Ready (faults.map (entryPtr dir) ++ R) n s) :
    ∃ s', faults.foldlM (fun s addr => zeroPage addr s) s = some s' ∧ HeapGrows T s s' ∧
      s'.calls = s.calls ∧ Ready R n s' := by
  have run := foldlM_invariant (f := fun s addr => zeroPage addr s)
    (fun rest s' => (∀ addr ∈ rest, T (entryPtr dir addr).1) ∧ HeapGrows T s s' ∧
      s'.calls = s.calls ∧ Ready (rest.map (entryPtr dir) ++ R) n s')
    (by
      rintro addr rest s1 ⟨inside, grows, calls, ready⟩
      have here1 : s1.curDir = dir := grows.grows.curDir.trans here
      rw [map_cons, cons_append, ← here1] at ready
      obtain ⟨s2, ret, grows2, calls2, ready2⟩ :=
        zeroPage_ready (T := T) ready (here1 ▸ inside addr mem_cons_self)
      rw [here1] at ready2
      exact ⟨s2, ret, fun a mem => inside a (mem_cons_of_mem addr mem),
        grows.trans grows2, calls2.trans calls, ready2⟩)
    faults s ⟨inside, HeapGrows.refl T s, rfl, ready⟩
  obtain ⟨s', ret, -, grows, calls, ready'⟩ := run
  exact ⟨s', ret, grows, calls, ready'⟩

theorem kmallocBase_ready (here : s.curDir = dir) (block : heap.addr s.calls ≠ 0)
    (sameEntry : entryPtr s.kernelDir (heap.addr s.calls) = entryPtr dir (heap.addr s.calls))
    (inside : ∀ addr ∈ heap.allocFaults s.calls ++ [heap.addr s.calls], T (entryPtr dir addr).1)
    (ready : Ready ((heap.allocFaults s.calls ++ [heap.addr s.calls]).map (entryPtr dir) ++
      R) n s) :
    ∃ s' phys, kmallocBase heap s = some (s', heap.addr s.calls, phys) ∧ HeapGrows T s s' ∧
      s'.calls = s.calls + 1 ∧ Ready R n s' := by
  rw [map_append, append_assoc] at ready
  obtain ⟨s1, faults, grows1, calls1, ready1⟩ :=
    zeroPages_ready (T := T) (s := { s with calls := s.calls + 1 }) here
      (fun addr mem => inside addr (mem_append_left _ mem))
      ⟨ready.reserved, ready.backable, ready.room⟩
  have kernelDir : s1.kernelDir = s.kernelDir := grows1.grows.kernelDir
  obtain ⟨s2, e, backs, grows2, calls2, ready2, entry⟩ :=
    backPage_ready (T := T) ready1 (inside _ (mem_append_right _ mem_cons_self))
  have start : HeapGrows T s s1 := ⟨{ grows1.grows with }, grows1.dirs, grows1.absent⟩
  refine ⟨s2, add32 (mul32 e.frame.toNat 0x1000) (heap.addr s.calls &&& 0xFFF), ?_,
    start.trans grows2, calls2.trans calls1, ready2⟩
  unfold kmallocBase
  simp only [faults, bind_eq_bind, bind_some, if_neg block, kernelDir, sameEntry, backs, entry]

theorem zeroBlock_ready (here : s.curDir = dir) {block : Nat}
    (mem : ∀ addr ∈ heap.zeroFaults block, T (entryPtr dir addr).1)
    (ready : Ready ((heap.zeroFaults block).map (entryPtr dir) ++ R) n s) :
    ∃ s', zeroBlock heap block s = some s' ∧ HeapGrows T s s' ∧ s'.calls = s.calls ∧
      Ready R n s' :=
  zeroPages_ready here mem ready

theorem Ready.addTable (ready : Ready R n s) (ne : ∀ x ∈ R, x.1 ≠ p) :
    Ready R n (s.addTable p) := by
  have pages (x : PagePtr) (mem : x ∈ R) : (s.addTable p).page? x = s.page? x := by
    rw [s.page?_addTable, if_neg (ne x mem)]
  refine ⟨ready.reserved, ?_, ?_⟩
  · intro x mem
    rw [pages x mem]
    exact ready.backable x mem
  have same : unbacked R (s.addTable p) = unbacked R s := by
    apply Finset.filter_congr
    intro x mem
    rw [pages x (mem_toFinset.mp mem)]
  rw [same]
  exact ready.room

/-- The entry is present, in a frame that was taken on the way. -/
structure Given (e : Page) (frames frames' : Frames) : Prop where
  present : e.present = true
  free : frames.marked e.frame.toNat = false
  used : frames'.marked e.frame.toNat = true

theorem Given.frame_ne_zero {frames frames' : Frames} (given : Given e frames frames')
    (reserved : frames.marked 0 = true) : e.frame ≠ 0 := by
  intro zero
  have free := given.free
  rw [zero] at free
  exact Bool.false_ne_true (free.symm.trans reserved)

theorem Taken.given {frames middle frames' : Frames} (taken : Taken e middle frames')
    (present : e.present = true) (marks : ∀ f, frames.marked f = true → middle.marked f = true) :
    Given e frames frames' := by
  refine ⟨present, ?_, ?_⟩
  · cases marked : frames.marked e.frame.toNat with
    | false => rfl
    | true => exact (marks _ marked).symm.trans taken.free
  · rw [taken.marks, decide_eq_true rfl, Bool.true_or]

/-- Page faults at the entries `H`. -/
structure Faults (H : PagePtr → Prop) (s s' : Paging) : Prop where
  dirs : s'.dirs = s.dirs
  current : s'.gCurrentDirectory = s.gCurrentDirectory
  kernel : s'.gKernelDirectory = s.gKernelDirectory
  nframes : s'.frames.gNframes = s.frames.gNframes
  phys : s'.phys = s.phys
  marks : ∀ f, s.frames.marked f = true → s'.frames.marked f = true
  absent : ∀ x, s.page? x = none → s'.page? x = none
  entries : ∀ x e, s.page? x = some e → s'.page? x = some e ∨
    H x ∧ e.frame = 0 ∧ ∃ e', s'.page? x = some e' ∧ Given e' s.frames s'.frames

namespace Faults

variable {H H' : PagePtr → Prop}

theorem refl (H : PagePtr → Prop) (s : Paging) : Faults H s s where
  dirs := rfl
  current := rfl
  kernel := rfl
  nframes := rfl
  phys := rfl
  marks := fun _ marked => marked
  absent := fun _ absent => absent
  entries := fun _ _ entry => .inl entry

theorem free_of_free (faults : Faults H s s') (free : s'.frames.marked f = false) :
    s.frames.marked f = false := by
  cases marked : s.frames.marked f with
  | false => rfl
  | true => exact (faults.marks f marked).symm.trans free

theorem trans (first : Faults H s s') (second : Faults H s' s'') : Faults H s s'' where
  dirs := second.dirs.trans first.dirs
  current := second.current.trans first.current
  kernel := second.kernel.trans first.kernel
  nframes := second.nframes.trans first.nframes
  phys := second.phys.trans first.phys
  marks := fun f marked => second.marks f (first.marks f marked)
  absent := fun x absent => second.absent x (first.absent x absent)
  entries := by
    intro x e entry
    rcases first.entries x e entry with same | ⟨mem, empty, e', between, given⟩
    · rcases second.entries x e same with kept | ⟨mem, empty, e', filled, given⟩
      · exact .inl kept
      · exact .inr ⟨mem, empty, e', filled, given.present, first.free_of_free given.free,
          given.used⟩
    rcases second.entries x e' between with kept | ⟨-, -, e'', filled, later⟩
    · exact .inr ⟨mem, empty, e', kept, given.present, given.free, second.marks _ given.used⟩
    · exact .inr ⟨mem, empty, e'', filled, later.present, first.free_of_free later.free, later.used⟩

theorem of_counters (H : PagePtr → Prop) (s : Paging) (errno calls : Nat) :
    Faults H s { s with frames := { s.frames with errno := errno }, calls := calls } :=
  { refl H s with entries := fun _ _ entry => .inl entry }

theorem curDir (faults : Faults H s s') : s'.curDir = s.curDir := by
  unfold Paging.curDir
  rw [faults.dirs, faults.current]

theorem kernelDir (faults : Faults H s s') : s'.kernelDir = s.kernelDir := by
  unfold Paging.kernelDir
  rw [faults.dirs, faults.kernel]

theorem exists_entry (faults : Faults H s s') {x : PagePtr} (entry : s.page? x = some e) :
    ∃ e', s'.page? x = some e' := by
  rcases faults.entries x e entry with same | ⟨-, -, e', filled, -⟩
  · exact ⟨e, same⟩
  · exact ⟨e', filled⟩

end Faults

section

variable {H : PagePtr → Prop}

theorem allocFrameAt_faults (listed : H x) {isKernel isWritable : Bool} {ret : Int}
    (result : allocFrameAt x isKernel isWritable s = some (s', ret)) :
    Faults H s s' ∧ s'.calls = s.calls := by
  obtain ⟨e, entry, -⟩ := bind_eq_some_iff.mp result
  by_cases empty : e.frame = 0
  · rcases Nat.eq_zero_or_pos s.frames.freeCount with full | free
    · rw [allocFrameAt_full entry empty full] at result
      cases result
      exact ⟨Faults.of_counters H s enomem s.calls, rfl⟩
    · obtain ⟨s1, e', found, fills, -, -, phys⟩ :=
        allocFrameAt_fills entry empty free isKernel isWritable
      rw [found] at result
      cases result
      refine ⟨⟨fills.dirs, fills.current, fills.kernel, fills.taken.nframes, phys, ?_, ?_, ?_⟩,
        fills.calls⟩
      · intro f marked
        rw [fills.taken.marks, marked, Bool.or_true]
      · intro y absent
        rw [fills.pages, if_neg]
        · exact absent
        · intro same
          rw [same, entry] at absent
          exact some_ne_none e absent
      · intro y d old
        rw [fills.pages]
        split
        · rename_i same
          rw [same, entry] at old
          cases old
          exact .inr ⟨same ▸ listed, empty, e', rfl,
            fills.taken.given fills.present fun _ marked => marked⟩
        · exact .inl old
  · rw [allocFrameAt_kept entry empty] at result
    cases result
    exact ⟨Faults.refl H s, rfl⟩

theorem zeroPage_faults (listed : H (entryPtr s.curDir addr))
    (result : zeroPage addr s = some s') : Faults H s s' ∧ s'.calls = s.calls := by
  obtain ⟨⟨s1, ret⟩, alloc, rest⟩ := bind_eq_some_iff.mp result
  have done := allocFrameAt_faults listed alloc
  simp only at rest
  split at rest
  · cases rest
  · cases rest
    exact done

theorem backPage_faults (listed : H x) (result : backPage x s = some s') :
    Faults H s s' ∧ s'.calls = s.calls := by
  obtain ⟨e, -, rest⟩ := bind_eq_some_iff.mp result
  split at rest
  · obtain ⟨⟨s1, ret⟩, alloc, last⟩ := bind_eq_some_iff.mp rest
    cases last
    exact allocFrameAt_faults listed alloc
  · cases rest
    exact ⟨Faults.refl H s, rfl⟩

theorem zeroPages_faults
    (listed : ∀ addr ∈ faults, H (entryPtr s.curDir addr))
    (ret : faults.foldlM (fun s addr => zeroPage addr s) s = some s') :
    Faults H s s' ∧ s'.calls = s.calls := by
  have run := foldlM_rounds (f := fun s addr => zeroPage addr s)
    (fun rest s1 => (∀ addr ∈ rest, addr ∈ faults) ∧ Faults H s s1 ∧ s1.calls = s.calls)
    (by
      rintro addr rest s1 s2 ⟨members, lt, calls⟩ round
      obtain ⟨fault, calls2⟩ := zeroPage_faults (H := H)
        (by rw [lt.curDir]; exact listed addr (members addr mem_cons_self)) round
      exact ⟨fun a later => members a (mem_cons_of_mem addr later), lt.trans fault,
        calls2.trans calls⟩)
    faults s s' ⟨fun _ mem => mem, Faults.refl H s, rfl⟩ ret
  exact run.2

theorem kmallocBase_faults
    (mem : ∀ addr ∈ heap.allocFaults s.calls, H (entryPtr s.curDir addr))
    (block : H (entryPtr s.kernelDir (heap.addr s.calls))) {addr phys : Nat}
    (ret : kmallocBase heap s = some (s', addr, phys)) :
    Faults H s s' ∧ s'.calls = s.calls + 1 ∧ addr = heap.addr s.calls ∧ addr ≠ 0 := by
  obtain ⟨s1, faults, rest⟩ := bind_eq_some_iff.mp ret
  obtain ⟨first, calls1⟩ :=
    zeroPages_faults (H := H) (s := { s with calls := s.calls + 1 }) mem faults
  have start : Faults H s s1 := (Faults.of_counters H s s.frames.errno (s.calls + 1)).trans first
  split at rest
  · cases rest
  rename_i ne
  obtain ⟨s2, backs, rest⟩ := bind_eq_some_iff.mp rest
  obtain ⟨e, -, last⟩ := bind_eq_some_iff.mp rest
  cases last
  obtain ⟨second, calls2⟩ := backPage_faults (H := H) (by rw [start.kernelDir]; exact block) backs
  exact ⟨start.trans second, calls2.trans calls1, rfl, ne⟩

end

end Yanix.Mm
