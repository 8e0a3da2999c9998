/-
Module: Yanix.Proofs.FrameBitmap
Purpose: An allocation takes the lowest free frame.  The block of the bitmap that
  `init_paging` makes has one byte where the bitmap has a word of four.
-/
import Yanix.Mm.PagingInit
import Yanix.Proofs.FrameOwnership

namespace Yanix.Mm

open Foundation List

/-- With a bitmap of whole words: an entry that has a frame is rejected; any other gets the least
unmarked frame, whose mark alone changes, or only `errno` changes when all are marked. -/
theorem alloc_frame_lowest (page : Page) (isKernel isWritable : Bool) {s : Frames}
    (whole : 32 ∣ s.gNframes) (reserved : s.marked 0 = true) :
    (page.frame ≠ 0 → allocFrame page isKernel isWritable s = ⟨-1, page, s⟩) ∧
    (page.frame = 0 → (∃ k < s.gNframes, s.marked k = false) →
      ∃ k < s.gNframes, s.marked k = false ∧ (∀ j < k, s.marked j = true) ∧ ∃ page' s',
        allocFrame page isKernel isWritable s = ⟨0, page', s'⟩ ∧
        page'.present = true ∧ page'.rw = isWritable ∧ page'.user = !isKernel ∧
        page'.frame.toNat = k ∧ page'.frame ≠ 0 ∧
        (∀ j, s'.marked j = (decide (j = k) || s.marked j)) ∧
        s'.gNframes = s.gNframes ∧ s'.errno = s.errno) ∧
    (page.frame = 0 → (∀ k < s.gNframes, s.marked k = true) →
      allocFrame page isKernel isWritable s = ⟨-2, page, { s with errno := enomem }⟩) := by
  have all : s.gNframes / 32 * 32 = s.gNframes := Nat.div_mul_cancel whole
  refine ⟨fun held => if_pos held, fun empty => ?_, fun empty full => ?_⟩
  · rintro ⟨k, lt, free⟩
    cases found : firstFrame s with
    | none =>
      have marked := firstFrame_eq_none.mp found k (by rwa [all])
      exact absurd (free.symm.trans marked) Bool.false_ne_true
    | some index =>
      obtain ⟨bound, clear, least⟩ := firstFrame_eq_some found
      have taken := takeFrame_taken page isKernel isWritable found
      have number := takeFrame_frame page isKernel isWritable bound
      have call : allocFrame page isKernel isWritable s =
          takeFrame index page isKernel isWritable s := by
        unfold allocFrame
        rw [if_neg (not_not.mpr empty), found]
      have marks (j : Nat) : (takeFrame index page isKernel isWritable s).frames.marked j =
          (decide (j = index) || s.marked j) := by
        rw [taken.marks, number]
      -- frame 0 stands for no frame, and it is marked
      have notZero : (takeFrame index page isKernel isWritable s).page.frame ≠ 0 := by
        intro zero
        have isZero : index = 0 := by
          rw [← number, zero]
          rfl
        exact absurd ((isZero ▸ clear).symm.trans reserved) Bool.false_ne_true
      exact ⟨index, by rwa [all] at bound, clear, least, _, _, call, rfl, rfl, rfl, number, notZero,
        marks, rfl, rfl⟩
  · have none : firstFrame s = none := firstFrame_eq_none.mpr (by rwa [all])
    unfold allocFrame
    rw [if_neg (not_not.mpr empty), none]

theorem oneWord_le : 32 ≤ 2 ^ 20 := by decide

/-- Three marked frames out of 32: the fourth is taken. -/
def threeMarked : Frames where
  gFrames i := if i = 0 then 7#32 else 0#32
  gNframes := 32
  errno := 0
  nframes_le := oneWord_le

theorem alloc_frame_lowest_fourth :
    ∃ page' s', allocFrame Page.zero true false threeMarked = ⟨0, page', s'⟩ ∧
      page'.frame.toNat = 3 := by
  have marks := alloc_frame_lowest Page.zero true false (s := threeMarked) (by decide) (by decide)
  obtain ⟨k, -, clear, least, page', s', call, -, -, -, number, -⟩ :=
    marks.2.1 rfl ⟨3, by decide, by decide⟩
  have isThree : k = 3 := by
    rcases Nat.lt_trichotomy k 3 with lt | rfl | beyond
    · have marked : ∀ j < 3, threeMarked.marked j = true := by decide
      exact absurd (clear.symm.trans (marked k lt)) Bool.false_ne_true
    · rfl
    · exact absurd (least 3 beyond) (by decide)
  exact ⟨page', s', call, number.trans isThree⟩

/-! ## The bitmap in memory -/

theorem suffix_store32 (m : Bytes) (k a v : Nat) :
    suffix (store32 m (k + a) v) k = store32 (suffix m k) a v := by
  funext x
  unfold suffix store32
  simp only [Nat.add_left_cancel_iff, Nat.add_assoc]

theorem words32_store32 (m : Bytes) (i : Nat) (word : BitVec 32) :
    words32 (store32 m (i * 4) word.toNat) = Function.update (words32 m) i word := by
  funext j
  by_cases here : j = i
  · subst here
    rw [Function.update_self, words32, load32_store32_same, Nat.mod_eq_of_lt word.isLt,
      BitVec.ofNat_toNat, BitVec.setWidth_eq]
  · rw [Function.update_of_ne here, words32, load32_store32_disjoint _ _ (by omega)]
    rfl

/-- The words from `g_frames` on are the bitmap, and none of the words for 2^20 frames lies beyond
the end of the address space. -/
structure Shows (s : Early) (f : Frames) : Prop where
  words : words32 (suffix s.mem s.gFrames) = f.gFrames
  nframes : s.gNframes = f.gNframes
  room : s.gFrames + 2 ^ 17 ≤ 2 ^ 32

variable {frameAddr i : Nat}

namespace Shows

variable {s : Early} {f : Frames} {i : Nat} (bitmap : Shows s f)

include bitmap

theorem address (lt : i < 2 ^ 15) : add32 s.gFrames (4 * i) = s.gFrames + i * 4 := by
  have room := bitmap.room
  rw [add32_of_lt (by omega)]
  omega

theorem frameWord_eq (lt : i < 2 ^ 15) :
    Early.frameWord i s = .ok (f.gFrames i) { s with accessed := i :: s.accessed } := by
  have word : BitVec.ofNat 32 (load32 s.mem (add32 s.gFrames (4 * i))) = f.gFrames i := by
    rw [bitmap.address lt, ← bitmap.words, words32, load32_suffix]
  rw [← word]
  rfl

theorem record (accessed : List Nat) : Shows { s with accessed := accessed } f :=
  ⟨bitmap.words, bitmap.nframes, bitmap.room⟩

theorem setFrameWord_shows (lt : i < 2 ^ 15) (word : BitVec 32) :
    ∃ t, Early.setFrameWord i word s = .ok () t ∧
      Shows t { f with gFrames := Function.update f.gFrames i word } := by
  refine ⟨_, rfl, ?_, bitmap.nframes, bitmap.room⟩
  show words32 (suffix (store32 s.mem (add32 s.gFrames (4 * i)) word.toNat) s.gFrames) =
    Function.update f.gFrames i word
  rw [bitmap.address lt, suffix_store32, words32_store32, bitmap.words]

omit bitmap

theorem frameIndex_lt (lt : frameAddr < 2 ^ 32) : indexFromBit (frameAddr / 0x1000) < 2 ^ 15 := by
  unfold indexFromBit
  omega

include bitmap

theorem setFrame_shows (lt : frameAddr < 2 ^ 32) :
    ∃ t, Early.setFrame frameAddr s = .ok () t ∧ Shows t (setFrame frameAddr f) := by
  unfold Early.setFrame
  rw [bind_of_ok (bitmap.frameWord_eq (frameIndex_lt lt))]
  exact (bitmap.record _).setFrameWord_shows (frameIndex_lt lt) _

theorem clearFrame_shows (lt : frameAddr < 2 ^ 32) :
    ∃ t, Early.clearFrame frameAddr s = .ok () t ∧ Shows t (clearFrame frameAddr f) := by
  unfold Early.clearFrame
  rw [bind_of_ok (bitmap.frameWord_eq (frameIndex_lt lt))]
  exact (bitmap.record _).setFrameWord_shows (frameIndex_lt lt) _

theorem firstBit_shows (lt : i < 2 ^ 15) (left j : Nat) : ∃ t, Early.firstBit i left j s =
        .ok (((List.range' j left).find? fun j =>
          decide (f.gFrames i &&& (1#32 <<< j) = 0#32)).map fun j => i * 4 * 8 + j) t ∧
      Shows t f := by
  induction left generalizing s j with
  | zero => exact ⟨s, rfl, bitmap⟩
  | succ left ih =>
    rw [Early.firstBit, bind_of_ok (bitmap.frameWord_eq lt), range'_succ, find?_cons]
    by_cases clear : f.gFrames i &&& (1#32 <<< j) = 0#32
    · rw [if_pos clear, decide_eq_true clear]
      exact ⟨_, rfl, bitmap.record _⟩
    · rw [if_neg clear, decide_eq_false clear]
      exact ih (bitmap.record _) (j + 1)

theorem firstFrameFrom_shows (left i : Nat) (le : i + left ≤ 2 ^ 15) :
    ∃ t, Early.firstFrameFrom left i s = .ok ((List.range' i left).findSome? fun i =>
          if f.gFrames i ≠ 0xFFFFFFFF#32 then
            ((List.range 32).find? fun j => decide (f.gFrames i &&& (1#32 <<< j) = 0#32)).map
              fun j => i * 4 * 8 + j
          else none) t ∧
      Shows t f := by
  induction left generalizing s i with
  | zero => exact ⟨s, rfl, bitmap⟩
  | succ left ih =>
    rw [Early.firstFrameFrom, bind_of_ok (bitmap.frameWord_eq (by omega)), range'_succ,
      findSome?_cons]
    split
    · next some =>
        obtain ⟨t, found, shown⟩ := (bitmap.record (i :: s.accessed)).firstBit_shows
          (show i < 2 ^ 15 by omega) 32 0
        rw [bind_of_ok found, ← range_eq_range']
        cases first : (List.range 32).find? fun j =>
            decide (f.gFrames i &&& (1#32 <<< j) = 0#32) with
        | none => exact ih shown (i + 1) (by omega)
        | some j => exact ⟨t, rfl, shown⟩
    · exact ih (bitmap.record _) (i + 1) (by omega)

theorem firstFrame_shows : ∃ t, Early.firstFrame s = .ok (firstFrame f) t ∧ Shows t f := by
  have lt := f.nframes_le
  have le : 0 + indexFromBit s.gNframes ≤ 2 ^ 15 := by
    rw [bitmap.nframes]
    unfold indexFromBit
    omega
  obtain ⟨t, found, shown⟩ := bitmap.firstFrameFrom_shows _ 0 le
  rw [← range_eq_range'] at found
  refine ⟨t, ?_, shown⟩
  rw [firstFrame, ← bitmap.nframes]
  exact found

end Shows

/-- `set_frame`, or else `clear_frame`. -/
def Early.markFrame (call : Bool × Nat) : EarlyM Unit :=
  if call.1 then Early.setFrame call.2 else Early.clearFrame call.2

theorem Shows.markFrame_shows {s : Early} {f : Frames} (bitmap : Shows s f) {call : Bool × Nat}
    (lt : call.2 < 2 ^ 32) : ∃ t g, Early.markFrame call s = .ok () t ∧ Shows t g ∧
      g.marked = Function.update f.marked (call.2 / 0x1000) call.1 := by
  obtain ⟨mark, a⟩ := call
  cases mark with
  | false =>
    obtain ⟨t, ran, shown⟩ := bitmap.clearFrame_shows lt
    refine ⟨t, _, ran, shown, funext fun j => ?_⟩
    by_cases here : j = a / 0x1000 <;> simp [clearFrame_marked, here]
  | true =>
    obtain ⟨t, ran, shown⟩ := bitmap.setFrame_shows lt
    refine ⟨t, _, ran, shown, funext fun j => ?_⟩
    by_cases here : j = a / 0x1000 <;> simp [setFrame_marked, here]

/-- Over memory the bitmap is a set: after any calls of `set_frame` and `clear_frame` its members
are the frames last set, and `first_frame` searches that set. -/
theorem early_bitmap_set {s : Early} {f : Frames} (bitmap : Shows s f) {calls : List (Bool × Nat)}
    (inSpace : ∀ call ∈ calls, call.2 < 2 ^ 32) :
    ∃ t g u, calls.forM Early.markFrame s = .ok () t ∧ Shows t g ∧
      Early.firstFrame t = .ok (firstFrame g) u ∧ g.marked = calls.foldl (fun marks call =>
        Function.update marks (call.2 / 0x1000) call.1) f.marked := by
  induction calls generalizing s f with
  | nil =>
    obtain ⟨u, ran, -⟩ := bitmap.firstFrame_shows
    exact ⟨s, f, u, rfl, bitmap, ran, rfl⟩
  | cons call calls ih =>
    obtain ⟨t, g, ran, shown, marks⟩ := bitmap.markFrame_shows (inSpace call mem_cons_self)
    obtain ⟨u, g', v, all, rest⟩ := ih shown fun c mem => inSpace c (mem_cons_of_mem _ mem)
    rw [marks] at rest
    exact ⟨u, g', v, (bind_of_ok ran).trans all, rest⟩

theorem early_bitmap_set_second : ∃ (t : Early) (g : Frames), Shows t g ∧ g.marked 2 = true := by
  have start : Shows ⟨fun _ => 0, 0, 0, 32, 0, 0, 0, ⟨0, 0⟩, []⟩ ⟨fun _ => 0, 32, 0, by decide⟩ :=
    ⟨funext fun _ => rfl, rfl, by decide⟩
  have inSpace : ∀ call ∈ [(true, 0x2000)], call.2 < 2 ^ 32 := by decide
  obtain ⟨t, g, _, -, shown, -, marks⟩ := early_bitmap_set start inSpace
  exact ⟨t, g, shown, marks ▸ rfl⟩

/-! ## What the calls leave alone -/

/-- The bitmap is where it was. -/
structure SameBitmap (s t : Early) : Prop where
  frames : t.gFrames = s.gFrames
  nframes : t.gNframes = s.gNframes
  block : t.framesBlock = s.framesBlock

/-- The bitmap is where it was, and what was accessed stays recorded. -/
structure Later (s t : Early) : Prop extends SameBitmap s t where
  accessed : ∀ i ∈ s.accessed, i ∈ t.accessed

theorem Later.of_eq {s t : Early} (same : (t.gFrames, t.gNframes, t.framesBlock, t.accessed) =
    (s.gFrames, s.gNframes, s.framesBlock, s.accessed)) : Later s t := by
  simp only [Prod.mk.injEq] at same
  obtain ⟨frames, nframes, block, accessed⟩ := same
  exact ⟨⟨frames, nframes, block⟩, fun i mem => accessed ▸ mem⟩

theorem Later.refl (s : Early) : Later s s := .of_eq rfl

theorem Later.trans (s t u : Early) (first : Later s t) (second : Later t u) : Later s u :=
  ⟨⟨second.frames.trans first.frames, second.nframes.trans first.nframes,
    second.block.trans first.block⟩, fun i mem => second.accessed i (first.accessed i mem)⟩

/-- The call keeps the bitmap and the record. -/
def Keeps {α : Type} (m : EarlyM α) : Prop := Moves Later m

namespace Keeps

variable {α β : Type}

theorem pure (a : α) : Keeps (Pure.pure a) := Moves.pure Later.refl a

theorem get : Keeps MonadState.get := Moves.get Later.refl

theorem bind {m : EarlyM α} {f : α → EarlyM β} (first : Keeps m) (rest : ∀ a, Keeps (f a)) :
    Keeps (m >>= f) :=
  Moves.bind Later.trans first rest

theorem ite {c : Prop} [Decidable c] {m n : EarlyM α} (yes : Keeps m) (no : Keeps n) :
    Keeps (if c then m else n) :=
  Moves.ite yes no

theorem read (addr : Nat) : Keeps (Early.read addr) := get.bind fun _ => pure _

theorem write (addr v : Nat) : Keeps (Early.write addr v) := fun _ => .of_eq rfl

theorem memsetZero (destpointer size : Nat) : Keeps (Early.memsetZero destpointer size) :=
  fun _ => .of_eq rfl

theorem kmallocBase (size : Nat) (align : Bool) : Keeps (Early.kmallocBase size align) :=
  fun _ => .of_eq rfl

theorem frameWord (i : Nat) : Keeps (Early.frameWord i) :=
  fun _ => ⟨⟨rfl, rfl, rfl⟩, fun _ mem => mem_cons_of_mem _ mem⟩

theorem setFrameWord (i : Nat) (word : BitVec 32) : Keeps (Early.setFrameWord i word) :=
  fun _ => ⟨⟨rfl, rfl, rfl⟩, fun _ mem => mem_cons_of_mem _ mem⟩

theorem setFrame (frameAddr : Nat) : Keeps (Early.setFrame frameAddr) :=
  (frameWord _).bind fun _ => setFrameWord _ _

theorem firstBit (i left j : Nat) : Keeps (Early.firstBit i left j) := by
  induction left generalizing j with
  | zero => exact pure _
  | succ left ih => exact (frameWord i).bind fun _ => ite (pure _) (ih (j + 1))

theorem firstFrameFrom (left i : Nat) : Keeps (Early.firstFrameFrom left i) := by
  induction left generalizing i with
  | zero => exact pure _
  | succ left ih =>
    exact (frameWord i).bind fun _ =>
      ite ((firstBit i 32 0).bind fun _ => ite (pure _) (ih (i + 1))) (ih (i + 1))

theorem firstFrame : Keeps Early.firstFrame := get.bind fun _ => firstFrameFrom _ 0

theorem countBits (i left j freeram : Nat) : Keeps (Early.countBits i left j freeram) := by
  induction left generalizing j freeram with
  | zero => exact pure _
  | succ left ih => exact (frameWord i).bind fun _ => ih _ _

theorem countWords (left i freeram : Nat) : Keeps (Early.countWords left i freeram) := by
  induction left generalizing i freeram with
  | zero => exact pure _
  | succ left ih =>
    exact (frameWord i).bind fun _ => ite (ih _ _) ((countBits i 32 0 _).bind fun _ => ih _ _)

theorem allocFrame (page : Nat) (isKernel isWritable : Bool) :
    Keeps (Early.allocFrame page isKernel isWritable) := by
  refine (read page).bind fun _ => ite (pure _) (firstFrame.bind fun index => ?_)
  cases index with
  | none => exact bind (fun _ => .of_eq rfl) fun _ => pure _
  | some index =>
    exact (setFrame _).bind fun _ => (read page).bind fun _ => (write page _).bind fun _ => pure _

theorem setFrameFlags (page : Nat) (kernel writeable : Bool) :
    Keeps (Early.setFrameFlags page kernel writeable) :=
  (read page).bind fun _ => write page _

theorem flagforceAllocFrame (page : Nat) (isKernel writeable : Bool) :
    Keeps (Early.flagforceAllocFrame page isKernel writeable) :=
  (allocFrame page isKernel writeable).bind fun _ =>
    ite ((setFrameFlags page isKernel writeable).bind fun _ => pure _) (ite (pure _) (pure _))

theorem mapFrame (page addr : Nat) (remap isKernel isWritable : Bool) :
    Keeps (Early.mapFrame page addr remap isKernel isWritable) :=
  (read page).bind fun _ => ite (pure _)
    ((setFrame addr).bind fun _ => (read page).bind fun _ => (write page _).bind fun _ => pure _)

theorem allocPageTable (tableIndex flags dir : Nat) :
    Keeps (Early.allocPageTable tableIndex flags dir) :=
  (kmallocBase _ _).bind fun _ => (write _ _).bind fun _ => (read _).bind fun _ =>
    (memsetZero _ _).bind fun _ => write _ _

theorem getPage (virtualAddress : Nat) (makePageTable : Bool) (dir : Nat) :
    Keeps (Early.getPage virtualAddress makePageTable dir) :=
  (read _).bind fun _ => ite ((allocPageTable _ _ dir).bind fun _ => (read _).bind fun _ => pure _)
    (ite (pure _) (pure _))

theorem mapMemoryLoop (endaddr : Nat) (isKernel writeable : Bool) (dir passes startaddr : Nat) :
    Keeps (Early.mapMemoryLoop endaddr isKernel writeable dir passes startaddr) := by
  induction passes generalizing startaddr with
  | zero => exact Moves.throw Later.refl _
  | succ passes ih =>
    exact ite ((getPage _ _ dir).bind fun _ => (flagforceAllocFrame _ _ _).bind fun _ => ih _)
      (pure _)

theorem identityMapLoop (endaddr : Nat) (isKernel isWritable : Bool) (dir passes startaddr : Nat) :
    Keeps (Early.identityMapLoop endaddr isKernel isWritable dir passes startaddr) := by
  induction passes generalizing startaddr with
  | zero => exact Moves.throw Later.refl _
  | succ passes ih =>
    exact ite ((getPage _ _ dir).bind fun _ => (mapFrame _ _ _ _ _).bind fun _ =>
      ite (pure _) (ih _)) (pure _)

theorem initDirectory : Keeps Early.initDirectory := by
  refine (kmallocBase _ _).bind fun dir => bind (fun _ => .of_eq rfl) fun _ =>
    (memsetZero _ _).bind fun _ => (write _ _).bind fun _ => bind (fun _ => .of_eq rfl) fun _ => ?_
  exact Moves.times Later.refl Later.trans (fun _ => (getPage _ _ dir).bind fun _ => pure _) _

theorem mapLowMemory : Keeps Early.mapLowMemory :=
  get.bind fun _ => (identityMapLoop _ _ _ _ _ _).bind fun _ => pure _

theorem mapHeaps : Keeps Early.mapHeaps :=
  get.bind fun _ => (mapMemoryLoop _ _ _ _ _ _).bind fun _ => (mapMemoryLoop _ _ _ _ _ _).bind
    fun _ => (getPage _ _ _).bind fun _ => (allocFrame _ _ _).bind fun _ => pure _

theorem mapScreen (screen : Screen) : Keeps (Early.mapScreen screen) :=
  get.bind fun _ => (identityMapLoop _ _ _ _ _ _).bind fun _ => pure _

end Keeps

/-- The words of the bitmap that a call accesses. -/
def touched {α : Type} (m : EarlyM α) (s : Early) : List Nat :=
  (endState (m { s with accessed := [] })).accessed

/-- Wherever it is started, the call accesses word `i`. -/
def Touches {α : Type} (i : Nat) (m : EarlyM α) : Prop := ∀ s, i ∈ (endState (m s)).accessed

namespace Touches

variable {α β : Type} {i : Nat}

theorem bind {m : EarlyM α} {f : α → EarlyM β} (first : Touches i m) (rest : ∀ a, Keeps (f a)) :
    Touches i (m >>= f) := by
  intro s
  have here := first s
  cases ran : m s with
  | ok a t =>
    rw [ran] at here
    rw [bind_of_ok ran]
    exact (rest a t).accessed i here
  | error e t =>
    rw [ran] at here
    rwa [bind_of_error ran]

theorem mem_touched {m : EarlyM α} (touches : Touches i m) (s : Early) : i ∈ touched m s :=
  touches _

theorem after {m : EarlyM α} {f : α → EarlyM β} (ret : ∀ s, ∃ a t, m s = .ok a t)
    (rest : ∀ a, Touches i (f a)) : Touches i (m >>= f) := by
  intro s
  obtain ⟨a, t, ran⟩ := ret s
  rw [bind_of_ok ran]
  exact rest a t

theorem frameWord (i : Nat) : Touches i (Early.frameWord i) := fun _ => mem_cons_self

theorem setFrame (frameAddr : Nat) :
    Touches (indexFromBit (frameAddr / 0x1000)) (Early.setFrame frameAddr) :=
  (frameWord _).bind fun _ => .setFrameWord _ _

end Touches

theorem read_returns (addr : Nat) (s : Early) : ∃ v t, Early.read addr s = .ok v t := ⟨_, _, rfl⟩

theorem frameWord_returns (i : Nat) (s : Early) : ∃ word t, Early.frameWord i s = .ok word t :=
  ⟨_, _, rfl⟩

theorem countBits_returns (i left j freeram : Nat) (s : Early) :
    ∃ total t, Early.countBits i left j freeram s = .ok total t := by
  induction left generalizing j freeram s with
  | zero => exact ⟨_, _, rfl⟩
  | succ left ih => exact ih ..

theorem countWords_touches {left j : Nat} (freeram : Nat) (low : i ≤ j) (high : j < i + left) :
    Touches j (Early.countWords left i freeram) := by
  induction left generalizing i freeram with
  | zero => omega
  | succ left ih =>
    rcases Nat.eq_or_lt_of_le low with rfl | later
    · exact (Touches.frameWord i).bind fun _ =>
        .ite (.countWords _ _ _) ((Keeps.countBits _ _ _ _).bind fun _ => .countWords _ _ _)
    refine Touches.after (frameWord_returns i) fun word => ?_
    split
    · exact ih _ later (by omega)
    · exact Touches.after (countBits_returns i 32 0 freeram) fun _ => ih _ later (by omega)

theorem mem_touched_physFreeramAmount {s : Early} (lt : i < s.gNframes / 32) :
    i ∈ touched Early.physFreeramAmount s :=
  ((countWords_touches 0 (Nat.zero_le i) (by rwa [Nat.zero_add])).bind fun _ => .pure _)
    { s with accessed := [] }

theorem getPage_returns (virtualAddress : Nat) (makePageTable : Bool) (dir : Nat) (s : Early) :
    ∃ page t, Early.getPage virtualAddress makePageTable dir s = .ok page t := by
  rw [Early.getPage, bind_of_ok (show Early.read _ s = .ok _ _ from rfl)]
  split_ifs
  · exact ⟨_, _, rfl⟩
  · exact ⟨_, _, rfl⟩
  · exact ⟨_, _, rfl⟩

theorem identityMapLoop_touches {startaddr endaddr : Nat} (some : startaddr ≤ endaddr)
    (isKernel isWritable : Bool) (dir passes : Nat) :
    Touches (indexFromBit (startaddr / 0x1000))
      (Early.identityMapLoop endaddr isKernel isWritable dir (passes + 1) startaddr) := by
  rw [Early.identityMapLoop, if_pos some]
  refine Touches.after (getPage_returns startaddr true dir) fun page => ?_
  refine Touches.bind ?_ fun _ => .ite (.pure _) (.identityMapLoop _ _ _ _ _ _)
  refine Touches.after (read_returns page) fun entry => ?_
  rw [if_neg (fun mapped => Bool.true_eq_false.mp mapped.2)]
  exact (Touches.setFrame startaddr).bind fun _ => (Keeps.read page).bind fun _ =>
    (Keeps.write page _).bind fun _ => .pure _

theorem mapLowMemory_touches : Touches 0 Early.mapLowMemory :=
  Touches.after (fun s => ⟨s, s, rfl⟩) fun s =>
    (identityMapLoop_touches (Nat.zero_le _) true false s.gKernelDirectory _).bind fun _ => .pure _

/-- Word `i` of the bitmap lies inside the block that was allocated for it. -/
def InBlock (s : Early) (i : Nat) : Prop :=
  s.framesBlock.start ≤ s.gFrames + 4 * i ∧ s.gFrames + 4 * i + 4 ≤ s.framesBlock.stop

/-- The bitmap `init_paging` sets up is big enough: the words that the search, the count and the two
identity mappings access, and those of every address below the end of memory, lie inside its block;
and the words searched are zero once it is cleared. -/
structure BitmapFits (endOfMemory : Nat) (screen : Screen) (s : Early) : Prop where
  searched : ∀ t, SameBitmap (endState (Early.initPaging endOfMemory screen s)) t →
    ∀ i ∈ touched Early.firstFrame t, InBlock t i
  counted : ∀ t, SameBitmap (endState (Early.initPaging endOfMemory screen s)) t →
    ∀ i ∈ touched Early.physFreeramAmount t, InBlock t i
  set : ∀ t, SameBitmap (endState (Early.initPaging endOfMemory screen s)) t →
    ∀ addr < endOfMemory, ∀ i ∈ touched (Early.setFrame addr) t, InBlock t i
  cleared : ∀ t, SameBitmap (endState (Early.initPaging endOfMemory screen s)) t →
    ∀ addr < endOfMemory, ∀ i ∈ touched (Early.clearFrame addr) t, InBlock t i
  lowMemory : ∀ t, t = endState ((do Early.initFrames endOfMemory; Early.initDirectory) s) →
    ∀ i ∈ touched Early.mapLowMemory t, InBlock t i
  frameBuffer : ∀ t, t = endState ((do
      Early.initFrames endOfMemory
      Early.initDirectory
      Early.mapLowMemory
      Early.mapHeaps) s) →
    ∀ i ∈ touched (Early.mapScreen screen) t, InBlock t i
  zeroed : ∀ t, t = endState (Early.initFrames endOfMemory s) →
    ∀ i < indexFromBit t.gNframes, load32 t.mem (add32 t.gFrames (4 * i)) = 0

/-- The block has one byte for every word of the bitmap. -/
structure Allotted (endOfMemory : Nat) (t : Early) : Prop where
  nframes : t.gNframes = endOfMemory / 0x1000
  block : t.framesBlock = ⟨t.gFrames, endOfMemory / 0x1000 / 32⟩

namespace Allotted

variable {endOfMemory : Nat} {s t : Early}

theorem initFrames (endOfMemory : Nat) (s : Early) :
    Allotted endOfMemory (endState (Early.initFrames endOfMemory s)) := ⟨rfl, rfl⟩

theorem of_sameBitmap (allotted : Allotted endOfMemory s) (same : SameBitmap s t) :
    Allotted endOfMemory t :=
  ⟨same.nframes.trans allotted.nframes, by rw [same.block, same.frames, allotted.block]⟩

theorem bind {α : Type} {rest : Unit → EarlyM α} (keeps : ∀ u, Keeps (rest u)) :
    Allotted endOfMemory (endState ((Early.initFrames endOfMemory >>= rest) s)) := by
  exact (initFrames endOfMemory s).of_sameBitmap (keeps () _).toSameBitmap

theorem inBlock_iff (allotted : Allotted endOfMemory t) :
    InBlock t i ↔ 4 * i + 4 ≤ endOfMemory / 0x1000 / 32 := by
  unfold InBlock Span.stop
  rw [allotted.block]
  constructor
  · rintro ⟨-, high⟩
    dsimp only at high
    omega
  · intro high
    dsimp only
    omega

end Allotted

/-- Whatever the size of memory, the bitmap does not fit: with whole words the count runs behind
the block, and without any the first page that is mapped does. -/
theorem bitmap_never_fits (endOfMemory : Nat) (screen : Screen) (s : Early) :
    ¬ BitmapFits endOfMemory screen s := by
  intro fits
  rcases Nat.eq_zero_or_pos (endOfMemory / 0x1000 / 32) with empty | some
  · have allotted : Allotted endOfMemory
        (endState ((do Early.initFrames endOfMemory; Early.initDirectory) s)) :=
      .bind fun _ => Keeps.initDirectory
    obtain ⟨t, reached⟩ : ∃ t, t =
        endState ((do Early.initFrames endOfMemory; Early.initDirectory) s) := ⟨_, rfl⟩
    have lt := fits.lowMemory t reached 0 (mapLowMemory_touches.mem_touched t)
    rw [← reached] at allotted
    rw [allotted.inBlock_iff] at lt
    omega
  · have allotted : Allotted endOfMemory (endState (Early.initPaging endOfMemory screen s)) := by
      exact .bind fun _ => Keeps.initDirectory.bind fun _ => Keeps.mapLowMemory.bind fun _ =>
        Keeps.mapHeaps.bind fun _ => Keeps.mapScreen screen
    have counted := fits.counted
    generalize endState (Early.initPaging endOfMemory screen s) = t at allotted counted
    have last : endOfMemory / 0x1000 / 32 - 1 < t.gNframes / 32 := by
      rw [allotted.nframes]
      omega
    have lt := counted t ⟨rfl, rfl, rfl⟩ _ (mem_touched_physFreeramAmount last)
    rw [allotted.inBlock_iff] at lt
    omega

/-- The kernel is loaded up to 0x200000. -/
def loaded : Early where
  mem _ := 0
  placementAddress := 0x200000
  gFrames := 0
  gNframes := 0
  gKernelDirectory := 0
  gCurrentDirectory := 0
  errno := 0
  framesBlock := ⟨0, 0⟩
  accessed := []

/-- The bitmap has been set up for 512 MiB. -/
def framed : Early := endState (Early.initFrames 0x20000000 loaded)

/-- The block ends where the word of address 0x8000000 begins, and the word of address 0x10000000
is the first word of the page directory. -/
theorem bitmap_overlaps_directory :
    framed.framesBlock.start = 0x201000 ∧ framed.framesBlock.len = 0x1000 ∧
      framed.gFrames = 0x201000 ∧ framed.gNframes / 32 = 0x1000 ∧
      touched (Early.setFrame 0x8000000) framed = [0x400, 0x400] ∧ ¬ InBlock framed 0x400 ∧
      touched (Early.setFrame 0x10000000) framed = [0x800, 0x800] ∧
      (Early.kmallocBase sizeofPageDirectory true).run' framed = some (0x201000 + 4 * 0x800) := by
  have away : ¬ InBlock framed 0x400 := by
    rw [framed, (Allotted.initFrames 0x20000000 loaded).inBlock_iff]
    decide
  exact ⟨by decide +kernel, by decide +kernel, by decide +kernel, by decide +kernel,
    by decide +kernel, away, by decide +kernel, by decide +kernel⟩

end Yanix.Mm
