/-
Module: Yanix.Proofs.FrameOwnership
Purpose: Ownership of frames over runs of the frame allocator.  Releases go wrong:
  `realloc_frame` clears another frame, and `free_frame` frame 0 if there is none.
-/
import Yanix.Mm.Paging

namespace Yanix.Mm

open Foundation

/-- The mark of a frame in `g_frames`. -/
def Frames.marked (s : Frames) (frame : Nat) : Bool := s.gFrames.mem frame

theorem setFrame_marked (frameAddr : Nat) (s : Frames) (j : Nat) :
    (setFrame frameAddr s).marked j = (decide (j = frameAddr / 0x1000) || s.marked j) :=
  Words.mem_insert (by decide) s.gFrames _ j

theorem clearFrame_marked (frameAddr : Nat) (s : Frames) (j : Nat) :
    (clearFrame frameAddr s).marked j = (!decide (j = frameAddr / 0x1000) && s.marked j) :=
  Words.mem_erase (by decide) s.gFrames _ j

theorem firstFrame_eq (s : Frames) : firstFrame s = s.gFrames.firstClear (s.gNframes / 32) := by
  unfold firstFrame Words.firstClear Words.firstClearBit indexFromBit
  simp only [Nat.mul_assoc]
  rfl

variable {s : Frames}

theorem firstFrame_eq_some {k : Nat} (found : firstFrame s = some k) :
    k < s.gNframes / 32 * 32 ∧ s.marked k = false ∧ ∀ j < k, s.marked j = true := by
  rw [firstFrame_eq] at found
  exact Words.firstClear_eq_some found

theorem firstFrame_eq_none :
    firstFrame s = none ↔ ∀ k < s.gNframes / 32 * 32, s.marked k = true := by
  rw [firstFrame_eq]
  exact Words.firstClear_eq_none

/-- The entry keeps its frame and every frame its mark. -/
structure Kept (page page' : Page) (s s' : Frames) : Prop where
  frame : page'.frame = page.frame
  marks : ∀ j, s'.marked j = s.marked j
  nframes : s'.gNframes = s.gNframes

/-- The entry got a free frame, and that frame is the only one whose mark
changed. -/
structure Taken (page' : Page) (s s' : Frames) : Prop where
  free : s.marked page'.frame.toNat = false
  bound : page'.frame.toNat < s.gNframes / 32 * 32
  marks : ∀ j, s'.marked j = (decide (j = page'.frame.toNat) || s.marked j)
  nframes : s'.gNframes = s.gNframes

variable {index : Nat}

theorem takeFrame_frame (page : Page) (isKernel isWritable : Bool)
    (lt : index < s.gNframes / 32 * 32) :
    (takeFrame index page isKernel isWritable s).page.frame.toNat = index := by
  have small := s.nframes_le
  unfold takeFrame
  rw [BitVec.toNat_ofNat, Nat.mod_eq_of_lt (by omega)]

theorem takeFrame_taken (page : Page) (isKernel isWritable : Bool)
    (found : firstFrame s = some index) :
    Taken (takeFrame index page isKernel isWritable s).page s
      (takeFrame index page isKernel isWritable s).frames := by
  have spec := firstFrame_eq_some found
  have number := takeFrame_frame page isKernel isWritable spec.1
  constructor
  case free =>
    rw [number]
    exact spec.2.1
  case bound =>
    rw [number]
    exact spec.1
  case marks =>
    intro j
    have address : mul32 index 0x1000 / 0x1000 = index := by
      rw [mul32_of_lt (by omega)]
      exact Nat.mul_div_cancel _ (by decide)
    rw [number]
    unfold takeFrame
    rw [setFrame_marked, address]
  case nframes => rfl

/-- The two ways an allocating call can end. -/
def Allocates (page page' : Page) (s s' : Frames) : Prop :=
  Kept page page' s s' ∨ page.frame = 0 ∧ Taken page' s s'

theorem allocFrame_allocates (page : Page) (isKernel isWritable : Bool) (s : Frames) :
    Allocates page (allocFrame page isKernel isWritable s).page s
      (allocFrame page isKernel isWritable s).frames := by
  unfold allocFrame
  split
  · exact .inl ⟨rfl, fun _ => rfl, rfl⟩
  rename_i empty
  split
  · exact .inl ⟨rfl, fun _ => rfl, rfl⟩
  · rename_i found
    exact .inr ⟨Decidable.not_not.mp empty, takeFrame_taken page isKernel isWritable found⟩

variable {page page' : Page} {s' : Frames}

theorem flagforceAllocFrame_allocates (page : Page) (isKernel writeable : Bool) (s : Frames) :
    Allocates page (flagforceAllocFrame page isKernel writeable s).page s
      (flagforceAllocFrame page isKernel writeable s).frames := by
  have same : (flagforceAllocFrame page isKernel writeable s).page.frame = (allocFrame page
      isKernel writeable s).page.frame ∧ (flagforceAllocFrame page isKernel writeable s).frames =
      (allocFrame page isKernel writeable s).frames := by
    unfold flagforceAllocFrame
    dsimp only
    split_ifs <;> exact ⟨rfl, rfl⟩
  rw [same.2]
  -- Allocation depends on the frame of the resulting entry only.
  cases (allocFrame_allocates page isKernel writeable s) with
  | inl kept => exact .inl ⟨same.1.trans kept.frame, kept.marks, kept.nframes⟩
  | inr taken =>
    obtain ⟨empty, free, lt, marks, nframes⟩ := taken
    rw [← same.1] at free lt marks
    exact .inr ⟨empty, free, lt, marks, nframes⟩

theorem reallocFrame_empty (empty : page.frame = 0) (isKernel isWritable : Bool) (s : Frames) :
    reallocFrame page isKernel isWritable s = allocFrame page isKernel isWritable s := by
  unfold reallocFrame allocFrame
  simp [empty]

/-- The bitmap and the page entries it serves. -/
structure FrameSystem (ι : Type) where
  frames : Frames
  entries : ι → Page

inductive FrameOp (ι : Type) where
  | allocFrame (e : ι) (isKernel isWritable : Bool)
  | flagforceAllocFrame (e : ι) (isKernel writeable : Bool)
  | reallocFrame (e : ι) (isKernel isWritable : Bool)
  | freeFrame (e : ι)

variable {ι : Type} [DecidableEq ι]

/-- Replace the bitmap and one entry. -/
def FrameSystem.store (sys : FrameSystem ι) (e : ι) (page : Page) (frames : Frames) :
    FrameSystem ι where
  frames := frames
  entries := Function.update sys.entries e page

def FrameOp.run (op : FrameOp ι) (sys : FrameSystem ι) : FrameSystem ι := match op with
  | .allocFrame e isKernel isWritable =>
    let result := Mm.allocFrame (sys.entries e) isKernel isWritable sys.frames
    sys.store e result.page result.frames
  | .flagforceAllocFrame e isKernel writeable =>
    let result := Mm.flagforceAllocFrame (sys.entries e) isKernel writeable sys.frames
    sys.store e result.page result.frames
  | .reallocFrame e isKernel isWritable =>
    let result := Mm.reallocFrame (sys.entries e) isKernel isWritable sys.frames
    sys.store e result.page result.frames
  | .freeFrame e =>
    let result := Mm.freeFrame (sys.entries e) sys.frames
    sys.store e result.1 result.2

/-- Every frame an entry holds is a marked frame of the bitmap, and no other
entry holds it. -/
structure Owned (sys : FrameSystem ι) : Prop where
  marked : ∀ e, (sys.entries e).frame ≠ 0 → (sys.entries e).frame.toNat < sys.frames.gNframes ∧
      sys.frames.marked (sys.entries e).frame.toNat = true
  distinct : ∀ e e', (sys.entries e).frame ≠ 0 →
    (sys.entries e).frame = (sys.entries e').frame → e = e'

/-- The call took frame `f` away from the entry. -/
def TookAway (e : ι) (sys sys' : FrameSystem ι) (f : Nat) : Prop :=
  f ≠ 0 ∧ (sys.entries e).frame.toNat = f ∧ (sys'.entries e).frame.toNat ≠ f

/-- A frame taken away is unmarked, and no mark changes but that of the taken frame and of the frame
`given`. -/
structure ReleaseExact (e : ι) (given : Nat → Prop) (sys sys' : FrameSystem ι) : Prop where
  released : ∀ f, TookAway e sys sys' f → sys'.frames.marked f = false
  others : ∀ f, ¬TookAway e sys sys' f → ¬given f → sys'.frames.marked f = sys.frames.marked f

def FrameOp.ReleasesExactly (op : FrameOp ι) (sys : FrameSystem ι) : Prop := match op with
  | .allocFrame _ _ _ => True
  | .flagforceAllocFrame _ _ _ => True
  | .reallocFrame e _ _ =>
    ReleaseExact e (fun f => f = ((op.run sys).entries e).frame.toNat) sys (op.run sys)
  | .freeFrame e => ReleaseExact e (fun _ => False) sys (op.run sys)

/-- Ownership holds all along the run and every release in it is exact. -/
def SoundRun : List (FrameOp ι) → FrameSystem ι → Prop
  | [], sys => Owned sys
  | op :: ops, sys => Owned sys ∧ op.ReleasesExactly sys ∧ SoundRun ops (op.run sys)

/-- `realloc_frame` is only called for entries without a frame, `free_frame` for entries with one.
-/
def FrameOp.safe (op : FrameOp ι) (sys : FrameSystem ι) : Bool := match op with
  | .allocFrame _ _ _ => true
  | .flagforceAllocFrame _ _ _ => true
  | .reallocFrame e _ _ => decide ((sys.entries e).frame = 0)
  | .freeFrame e => decide ((sys.entries e).frame ≠ 0)

def SafeRun : List (FrameOp ι) → FrameSystem ι → Bool
  | [], _ => true
  | op :: ops, sys => op.safe sys && SafeRun ops (op.run sys)

/-! ## One step -/

variable {sys : FrameSystem ι} {e : ι}

theorem FrameSystem.store_frame (sys : FrameSystem ι) (e e' : ι) (page : Page) (frames : Frames) :
    ((sys.store e page frames).entries e').frame =
      if e' = e then page.frame else (sys.entries e').frame := by
  show (Function.update sys.entries e page e').frame = _
  rw [Function.update_apply, apply_ite Page.frame]

theorem Owned.of_kept (owned : Owned sys) (kept : Kept (sys.entries e) page' sys.frames s') :
    Owned (sys.store e page' s') := by
  have frames (e' : ι) : ((sys.store e page' s').entries e').frame = (sys.entries e').frame := by
    rw [sys.store_frame]
    split
    · rename_i same
      rw [kept.frame, same]
    · rfl
  constructor
  · intro e' holds
    rw [frames] at holds ⊢
    have lt := owned.marked e' holds
    exact ⟨Nat.lt_of_lt_of_eq lt.1 kept.nframes.symm, (kept.marks _).trans lt.2⟩
  · intro e1 e2 holds same
    rw [frames] at holds
    rw [frames, frames] at same
    exact owned.distinct e1 e2 holds same

theorem Owned.of_taken (owned : Owned sys) (taken : Taken page' sys.frames s') :
    Owned (sys.store e page' s') := by
  -- a frame that was free is held by no entry
  have fresh (e' : ι) (holds : (sys.entries e').frame ≠ 0) : (sys.entries e').frame ≠
    page'.frame := by
    intro same
    have used := (owned.marked e' holds).2
    rw [same, taken.free] at used
    exact Bool.false_ne_true used
  constructor
  · intro e' holds
    rw [sys.store_frame] at holds ⊢
    show _ < s'.gNframes ∧ s'.marked _ = true
    rw [taken.nframes, taken.marks]
    split at holds
    · rename_i same
      rw [if_pos same]
      exact ⟨Nat.lt_of_lt_of_le taken.bound (Nat.div_mul_le_self ..), by simp⟩
    rename_i ne
    rw [if_neg ne]
    have lt := owned.marked e' holds
    exact ⟨lt.1, by rw [lt.2, Bool.or_true]⟩
  · intro e1 e2 holds same
    rw [sys.store_frame] at holds
    rw [sys.store_frame, sys.store_frame] at same
    by_cases first : e1 = e <;> by_cases second : e2 = e
    · rw [first, second]
    · rw [if_pos first] at holds
      rw [if_pos first, if_neg second] at same
      exact absurd same.symm (fresh e2 (same ▸ holds))
    · rw [if_neg first] at holds
      rw [if_neg first, if_pos second] at same
      exact absurd same (fresh e1 holds)
    · rw [if_neg first] at holds
      rw [if_neg first, if_neg second] at same
      exact owned.distinct e1 e2 holds same

/-- Frame 0 is no frame of an entry: it is marked from the start and stays so. -/
structure Guarded (sys : FrameSystem ι) : Prop where
  owned : Owned sys
  reserved : sys.frames.marked 0 = true

theorem Guarded.of_allocates (guarded : Guarded sys)
    (allocates : Allocates (sys.entries e) page' sys.frames s') :
    Guarded (sys.store e page' s') := by
  cases allocates with
  | inl kept => exact ⟨guarded.owned.of_kept kept, (kept.marks 0).trans guarded.reserved⟩
  | inr taken =>
    refine ⟨guarded.owned.of_taken taken.2, (taken.2.marks 0).trans ?_⟩
    rw [guarded.reserved, Bool.or_true]

theorem freeFrame_held (holds : page.frame ≠ 0) (s : Frames) : freeFrame page s = (page, s) := by
  have number : ¬(0 = page.frame.toNat) := fun zero =>
    holds (BitVec.eq_of_toNat_eq zero.symm)
  exact if_pos number

theorem run_reallocFrame_empty (empty : (sys.entries e).frame = 0) (isKernel isWritable : Bool) :
    (FrameOp.reallocFrame e isKernel isWritable).run sys =
      (FrameOp.allocFrame e isKernel isWritable).run sys := by
  simp only [FrameOp.run, reallocFrame_empty empty]

theorem run_freeFrame_held (holds : (sys.entries e).frame ≠ 0) :
    (FrameOp.freeFrame e).run sys = sys := by
  simp only [FrameOp.run, freeFrame_held holds, FrameSystem.store, Function.update_eq_self]

variable {op : FrameOp ι}

theorem Guarded.step (guarded : Guarded sys) (safe : op.safe sys = true) :
    Guarded (op.run sys) := by
  cases op with
  | allocFrame e isKernel isWritable =>
    exact guarded.of_allocates (allocFrame_allocates _ isKernel isWritable _)
  | flagforceAllocFrame e isKernel writeable =>
    exact guarded.of_allocates (flagforceAllocFrame_allocates _ isKernel writeable _)
  | reallocFrame e isKernel isWritable =>
    rw [run_reallocFrame_empty (of_decide_eq_true safe)]
    exact guarded.of_allocates (allocFrame_allocates _ isKernel isWritable _)
  | freeFrame e =>
    rw [run_freeFrame_held (of_decide_eq_true safe)]
    exact guarded

theorem releasesExactly_of_safe (safe : op.safe sys = true) : op.ReleasesExactly sys := by
  cases op with
  | allocFrame e isKernel isWritable => trivial
  | flagforceAllocFrame e isKernel writeable => trivial
  | reallocFrame e isKernel isWritable =>
    have empty : (sys.entries e).frame = 0 := of_decide_eq_true safe
    have allocates := allocFrame_allocates (sys.entries e) isKernel isWritable sys.frames
    unfold FrameOp.ReleasesExactly
    rw [run_reallocFrame_empty empty]
    constructor
    · intro f took
      obtain ⟨ne, held, -⟩ := took
      rw [empty] at held
      exact absurd held.symm ne
    · intro f _ notGiven
      cases allocates with
      | inl kept => exact kept.marks f
      | inr taken =>
        have given : ((FrameOp.run (.allocFrame e isKernel isWritable) sys).entries e).frame =
            (allocFrame (sys.entries e) isKernel isWritable sys.frames).page.frame :=
          (sys.store_frame e e ..).trans (if_pos rfl)
        rw [given] at notGiven
        exact (taken.2.marks f).trans (by rw [decide_eq_false notGiven, Bool.false_or])
  | freeFrame e =>
    unfold FrameOp.ReleasesExactly
    rw [run_freeFrame_held (of_decide_eq_true safe)]
    exact ⟨fun f took => absurd took.2.1 took.2.2, fun _ _ _ => rfl⟩

theorem freeFrame_empty_inexact (guarded : Guarded sys) (empty : (sys.entries e).frame = 0) :
    ¬(FrameOp.freeFrame e).ReleasesExactly sys := by
  intro exactly
  have unchanged := exactly.others 0 (fun took => took.1 rfl) id
  have cleared : ((FrameOp.freeFrame e).run sys).frames.marked 0 = false := by
    simp only [FrameOp.run, freeFrame, empty]
    exact clearFrame_marked 0 sys.frames 0
  rw [cleared, guarded.reserved] at unchanged
  exact Bool.false_ne_true unchanged

theorem run_reallocFrame_held (holds : (sys.entries e).frame ≠ 0) (isKernel isWritable : Bool) :
    (FrameOp.reallocFrame e isKernel isWritable).run sys =
      match firstFrame (clearFrame (sys.entries e).frame.toNat sys.frames) with
      | none => sys.store e (sys.entries e)
          { clearFrame (sys.entries e).frame.toNat sys.frames with errno := enomem }
      | some index =>
        let ret := takeFrame index (sys.entries e) isKernel isWritable
          (clearFrame (sys.entries e).frame.toNat sys.frames)
        sys.store e ret.page ret.frames := by
  simp only [FrameOp.run, reallocFrame, if_pos holds]
  cases firstFrame (clearFrame (sys.entries e).frame.toNat sys.frames) <;> rfl

/-- The entry gets another frame, but the one it had keeps its mark; if there is
no other frame, frame 0 has lost its mark for nothing. -/
theorem reallocFrame_held_inexact (guarded : Guarded sys) (holds : (sys.entries e).frame ≠ 0)
    (isKernel isWritable : Bool) :
    ¬(FrameOp.reallocFrame e isKernel isWritable).ReleasesExactly sys := by
  intro exactly
  unfold FrameOp.ReleasesExactly at exactly
  rw [run_reallocFrame_held holds] at exactly
  obtain ⟨bound, marked⟩ := guarded.owned.marked e holds
  have ne : (sys.entries e).frame.toNat ≠ 0 := fun zero =>
    holds (BitVec.eq_of_toNat_eq zero)
  have marks := clearFrame_marked (sys.entries e).frame.toNat sys.frames
  have nframes : (clearFrame (sys.entries e).frame.toNat sys.frames).gNframes =
    sys.frames.gNframes := rfl
  generalize clearFrame (sys.entries e).frame.toNat sys.frames = s at exactly marks nframes
  cases search : firstFrame s with
  | some index =>
    simp only [search] at exactly
    have taken := takeFrame_taken (sys.entries e) isKernel isWritable search
    generalize takeFrame index (sys.entries e) isKernel isWritable s = ret at exactly taken
    have still : s.marked (sys.entries e).frame.toNat = true := by
      rw [marks, marked, decide_eq_false (by omega)]
      rfl
    have other : ret.page.frame.toNat ≠ (sys.entries e).frame.toNat := by
      intro same
      rw [← same, taken.free] at still
      exact Bool.false_ne_true still
    have unmarked : ret.frames.marked (sys.entries e).frame.toNat = false := by
      refine exactly.released _ ⟨ne, rfl, ?_⟩
      rw [sys.store_frame, if_pos rfl]
      exact other
    rw [taken.marks, still, Bool.or_true] at unmarked
    exact Bool.false_ne_true unmarked.symm
  | none =>
    simp only [search] at exactly
    -- the cleared frame lies outside the words that are searched
    have full := firstFrame_eq_none.mp search
    have hidden : ¬(sys.entries e).frame.toNat / 0x1000 < s.gNframes / 32 * 32 := by
      intro lt
      have found := full _ lt
      rw [marks, decide_eq_true rfl] at found
      exact Bool.false_ne_true found
    have zero : (sys.entries e).frame.toNat / 0x1000 = 0 := by omega
    have unchanged := exactly.others 0 (fun took => took.1 rfl)
      (by rw [sys.store_frame, if_pos rfl]; exact fun same => ne same.symm)
    have lost : s.marked 0 = false := by
      rw [marks, zero]
      rfl
    exact Bool.false_ne_true (lost.symm.trans (unchanged.trans guarded.reserved))

/-- From a bitmap that marks frame 0 and entries with distinct marked frames, ownership and exact
releases last as long as `realloc_frame` is called for empty entries and `free_frame` for full ones,
and no longer. -/
theorem frames_sound_iff (owned : Owned sys) (reserved : sys.frames.marked 0 = true)
    (ops : List (FrameOp ι)) : SoundRun ops sys ↔ SafeRun ops sys = true := by
  have guarded : Guarded sys := ⟨owned, reserved⟩
  clear owned reserved
  induction ops generalizing sys with
  | nil => exact iff_of_true guarded.owned rfl
  | cons op ops ih =>
    unfold SoundRun SafeRun
    rw [Bool.and_eq_true]
    constructor
    · intro sound
      -- Releases go wrong in the other steps.
      have safe : op.safe sys = true := by
        cases op with
        | allocFrame e isKernel isWritable => rfl
        | flagforceAllocFrame e isKernel writeable => rfl
        | reallocFrame e isKernel isWritable =>
          apply decide_eq_true
          by_contra holds
          exact reallocFrame_held_inexact guarded holds isKernel isWritable sound.2.1
        | freeFrame e =>
          apply decide_eq_true
          intro empty
          exact freeFrame_empty_inexact guarded empty sound.2.1
      exact ⟨safe, (ih (guarded.step safe)).mp sound.2.2⟩
    · intro safe
      exact ⟨guarded.owned, releasesExactly_of_safe safe.1, (ih (guarded.step safe.1)).mpr safe.2⟩

/-- Two entries without frames and a bitmap of 32 frames with frame 0 marked. -/
def emptyEntries : FrameSystem Bool where
  frames := ⟨fun i => if i = 0 then 1#32 else 0#32, 32, 0, by decide⟩
  entries := fun _ => Page.zero

theorem emptyEntries_owned : Owned emptyEntries :=
  ⟨fun _ holds => absurd rfl holds, fun _ _ holds => absurd rfl holds⟩

theorem frames_sound_two : let ops : List (FrameOp Bool) :=
      [.allocFrame true true true, .reallocFrame false false true,
        .flagforceAllocFrame true false false, .freeFrame true]
    Owned emptyEntries ∧ emptyEntries.frames.marked 0 = true ∧ SafeRun ops emptyEntries = true ∧
      SoundRun ops emptyEntries :=
  ⟨emptyEntries_owned, by decide, by decide +kernel,
    (frames_sound_iff emptyEntries_owned (by decide) _).mpr (by decide +kernel)⟩

/-- Frames 0, 1 and 0x1000 are marked; one entry holds frame 1, the other frame
0x1000. -/
def twoEntries : FrameSystem Bool where
  frames := ⟨fun i => if i = 0 then 3#32 else if i = 128 then 1#32 else 0#32, 8192, 0, by decide⟩
  entries := fun e => ⟨true, true, true, if e then 0x1000 else 1⟩

/-- `realloc_frame` clears frame 1, the other entry's, and then finds it free:
both entries hold it. -/
theorem reallocFrame_shares_frame : Owned twoEntries ∧ twoEntries.frames.marked 0 = true ∧
      ((FrameOp.run (.reallocFrame true false true) twoEntries).entries true).frame = 1 ∧
      ((FrameOp.run (.reallocFrame true false true) twoEntries).entries false).frame = 1 ∧
      ¬SoundRun [.reallocFrame true false true] twoEntries := by
  have shared : ((FrameOp.run (.reallocFrame true false true) twoEntries).entries true).frame =
      ((FrameOp.run (.reallocFrame true false true) twoEntries).entries false).frame := by
    decide +kernel
  refine ⟨⟨by decide +kernel, by decide +kernel⟩, by decide +kernel, by decide +kernel,
    by decide +kernel, ?_⟩
  intro sound
  have owned : Owned (FrameOp.run (.reallocFrame true false true) twoEntries) := sound.2.2
  have same := owned.distinct true false (by decide +kernel) shared
  exact Bool.false_ne_true same.symm

end Yanix.Mm
