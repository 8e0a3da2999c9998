/-
Module: Yanix.Proofs.DescriptorCalls
Purpose: What calls of `kernel/fs/filedescriptor.c` keep, with where the flags of a descriptor come
  from; closed numbers, minimal copies and the flag for `exec`, which is also `O_WRONLY`.
-/
import Yanix.Fs.FileIo
import Yanix.Proofs.DescriptorTable

namespace Yanix.Ds

open Function

variable {kmalloc : Kmalloc} {heap heap' : Heap} {v : VectorT} {slots : List FileDescriptor}
  {t : Table} {fds : Nat}

section

open Finmap

variable {vec fds : Nat} {fd : FileDescriptor} {r : Int}

/-- The call is refused, or it returns the number that holds `fd` afterwards. -/
def Stores (heap heap' : Heap) (fds : Nat) (t : Table) (fd : FileDescriptor) (r : Int) : Prop :=
  r = -1 ∧ Becomes heap heap' fds t ∨
    ∃ i : Nat, r = i ∧ Becomes heap heap' fds (Function.update t i (opened fd))

variable {i : Nat} {start number : Int}

namespace DescriptorTable

variable (table : DescriptorTable heap fds v slots)

include table

theorem same : Becomes heap heap fds (openTable v slots) := by
  refine ⟨v, slots, table, ⟨table.holds, fun _ _ => rfl, ?_⟩, rfl⟩
  intro other w ne found
  have apart := (table.holds.write table.ok slots).apart other w ne found
  exact ⟨apart.1, rfl⟩

theorem closed_iff : openTable v slots i = none ↔ ¬ OpenSlot slots i := by
  rw [openTable_eq_none_iff]
  constructor
  · intro closed
    by_cases below : (i : Int) < v.vectorSize
    · exact closed below
    · exact table.behind i (not_lt.mp below)
  · exact fun closed _ => closed

theorem grows {n tmp : Nat} (replaces : Replaces heap heap' fds
      ⟨tmp, v.vectorSize, v.vectorMaxsize + n⟩ (grown slots n)) :
    DescriptorTable heap' fds ⟨tmp, v.vectorSize, v.vectorMaxsize + n⟩ (grown slots n) ∧
      openTable ⟨tmp, v.vectorSize, v.vectorMaxsize + n⟩ (grown slots n) = openTable v slots := by
  have shape := (table.holds.table table.ok).grow n tmp
  refine ⟨⟨replaces.ok table.ok shape, replaces.holds, table.nonnull, ?_⟩, ?_⟩
  · intro i high isOpen
    exact table.behind i high isOpen.of_grown
  funext i
  unfold openTable
  rw [getElem?_grown_filter]

variable (sound : Sound kmalloc)

include sound

theorem push_stores (ret : vectorPush kmalloc fds fd heap = .ok (r, heap')) :
    r ≤ v.vectorSize ∧ Stores heap heap' fds (openTable v slots) fd r := by
  have nonneg := (table.holds.table table.ok).nonneg
  rcases push_cases sound table.ok table.holds fd with
    ⟨-, large⟩ | ⟨-, -, refused⟩ | ⟨ne, n, pushed, -, puts⟩
  · cases large.symm.trans ret
  · cases refused.symm.trans ret
    exact ⟨by omega, .inl ⟨rfl, table.same⟩⟩
  · cases pushed.symm.trans ret
    exact ⟨le_refl _, .inr ⟨_, (Int.toNat_of_nonneg nonneg).symm, table.puts puts⟩⟩

theorem add_stores (ret : vectorAdd kmalloc fds fd heap = .ok (r, heap')) :
    Stores heap heap' fds (openTable v slots) fd r := by
  rcases add_cases kmalloc table.ok table.holds fd with
    ⟨j, ne, -, -, -, added, puts⟩ | ⟨-, pushed⟩
  · cases added.symm.trans ret
    exact .inr ⟨j, rfl, table.puts puts⟩
  · exact (table.push_stores sound (pushed.symm.trans ret)).2

theorem addAbove_stores (ret : addAbove kmalloc fds fd start heap = .ok (r, heap')) :
    Stores heap heap' fds (openTable v slots) fd r := by
  have pos := (table.holds.table table.ok).pos
  by_cases negative : start < 0
  · -- the first slot it looks at is outside of the array
    have rounds : (v.vectorMaxsize - start).toNat = (v.vectorMaxsize - start).toNat - 1 + 1 := by
      omega
    unfold addAbove at ret
    simp only [table.holds.getVector, table.holds.getBuffer, bind, Except.bind] at ret
    rw [rounds, findNull, if_pos (by omega), readSlot, if_neg (by omega)] at ret
    cases ret
  · obtain ⟨a, rfl⟩ := Int.eq_ofNat_of_zero_le (not_lt.mp negative)
    rcases addAbove_cases kmalloc table.ok table.holds a fd with
      ⟨j, ne, -, -, -, -, added, puts⟩ | ⟨-, pushed⟩
    · cases added.symm.trans ret
      exact .inr ⟨j, rfl, table.puts puts⟩
    · exact (table.push_stores sound (pushed.symm.trans ret)).2

theorem addFrom_stores (ret : vectorAddFrom kmalloc fds fd start heap = .ok (r, heap')) :
    Stores heap heap' fds (openTable v slots) fd r := by
  have pos := (table.holds.table table.ok).pos
  unfold vectorAddFrom at ret
  simp only [table.holds.getVector, bind, Except.bind] at ret
  split at ret
  · have factor := Libk.one_le_roundup pos (show 0 < start by omega)
    rcases expand_cases sound table.ok table.holds factor with
      ⟨-, large⟩ | ⟨-, -, refused⟩ | ⟨n, tmp, larger, -, -, -, expanded, replaces⟩
    · rw [large] at ret
      cases ret
    · rw [refused] at ret
      exact table.addAbove_stores sound ret
    rw [expanded] at ret
    obtain ⟨tableLarger, map⟩ := table.grows replaces
    have first : Becomes heap larger fds (openTable v slots) := ⟨_, _, tableLarger, replaces, map⟩
    rcases tableLarger.addAbove_stores sound ret with ⟨failed, last⟩ | ⟨i, number, last⟩
    · rw [map] at last
      exact .inl ⟨failed, first.trans last⟩
    · rw [map] at last
      exact .inr ⟨i, number, first.trans last⟩
  · exact table.addAbove_stores sound ret

end DescriptorTable

/-! ## Calls and runs -/

/-- A call of a process whose table is `fds`; `copy` is what a fork does. -/
inductive FdCall where
  | register (fds node : Nat) (flags mode lockIndex : UInt32)
  | dup (fds : Nat) (fd start : Int)
  | dup2 (fds : Nat) (old new : Int)
  | setflags (fds : Nat) (fd : Int) (flags : UInt32)
  | close (fds : Nat) (fd : Int)
  | copy (cp : Nat)

/-- Where the flags of a descriptor come from: those it was opened with, or those of an `F_SETFD`
since. -/
inductive Origin where
  | opened (flags : UInt32)
  | set (flags : UInt32)

def Origin.flags : Origin → UInt32
  | opened flags => flags
  | set flags => flags

/-- The origins of the flags by table and number. -/
abbrev Origins := Nat → Nat → Origin

/-- A call that returned the number `i` gave it this origin. -/
def Origins.store (origins : Origins) (fds : Nat) (i : Int) (origin : Origin) : Origins :=
  if i < 0 then origins
  else Function.update origins fds (Function.update (origins fds) i.toNat origin)

namespace FdCall

def run (kmalloc : Kmalloc) (heap : Heap) : FdCall → Except Fault (Int × Heap)
  | register fds node flags mode lockIndex =>
    registerFiledescriptor kmalloc fds node flags mode lockIndex heap
  | dup fds fd start => dupFiledescriptor kmalloc fds fd start heap
  | dup2 fds old new => dup2Filedescriptor kmalloc fds old new heap
  | setflags fds fd flags => setflagsFiledescriptor fds fd flags heap
  | close fds fd => closeFiledescriptor fds fd heap
  | copy cp => do
    let (vec, heap) ← vectorCopy kmalloc cp heap
    return ((vec : Int), heap)

/-- The origins after a call that returned `r`: duplicates share the origin of their
source, and a forked process those of its parent. -/
def origins (origins : Origins) (r : Int) : FdCall → Origins
  | register fds _ flags _ _ => origins.store fds r (.opened flags)
  | dup fds fd _ => origins.store fds r (origins fds fd.toNat)
  | dup2 fds old _ => origins.store fds r (origins fds old.toNat)
  | setflags fds fd flags => if r < 0 then origins else origins.store fds fd (.set flags)
  | close _ _ => origins
  | copy cp => if r = 0 then origins else Function.update origins r.toNat (origins cp)

end FdCall

/-- The tables that calls lead to from the first one on, and the origins of the flags. -/
inductive CallRun (kmalloc : Kmalloc) : Heap → Origins → Prop where
  | create : CallRun kmalloc (vectorCreate kmalloc emptyHeap).2 fun _ _ => .opened 0
  | step {heap heap' : Heap} {origins : Origins} {r : Int} (call : FdCall)
      (before : CallRun kmalloc heap origins) (result : call.run kmalloc heap = .ok (r, heap')) :
      CallRun kmalloc heap' (call.origins origins r)

/-- What every run keeps: the tables are in order, not at null, with no slot in use behind their
ends, and open descriptors have the flags of their origins. -/
structure Recorded (heap : Heap) (origins : Origins) : Prop where
  ok : heap.Ok
  nonnull : 0 ∉ heap.vectors
  quiet : heap.Quiet
  flags : ∀ vec t, heapView heap vec = some t → ∀ i d, t i = some d →
    d.flags = (origins vec i).flags

variable {origins origins' : Origins}

namespace Recorded

theorem table (recorded : Recorded heap origins) (holds : Holds heap fds v slots) :
    DescriptorTable heap fds v slots where
  ok := recorded.ok
  holds := holds
  nonnull := by
    rintro rfl
    exact recorded.nonnull (mem_of_lookup_eq_some holds.vector)
  behind := recorded.quiet fds v slots holds

theorem replace (recorded : Recorded heap origins) (replaces : Replaces heap heap' vec v slots)
    (shape : TableOk v slots) (nonnull : vec ≠ 0)
    (behind : ∀ i : Nat, v.vectorSize ≤ i → ¬ OpenSlot slots i)
    (flags : ∀ i d, openTable v slots i = some d → d.flags = (origins' vec i).flags)
    (others : ∀ ne, ne ≠ vec → origins' ne = origins ne) :
    Recorded heap' origins' where
  ok := replaces.ok recorded.ok shape
  nonnull := by
    rw [← lookup_eq_none, replaces.others 0 (Ne.symm nonnull)]
    exact lookup_eq_none.mpr recorded.nonnull
  quiet := replaces.quiet recorded.quiet behind
  flags := by
    intro ne t found i d isOpen
    rw [replaces.view] at found
    by_cases same : ne = vec
    · subst same
      rw [update_self] at found
      cases found
      exact flags i d isOpen
    · rw [update_of_ne same] at found
      rw [others ne same]
      exact recorded.flags ne t found i d isOpen

theorem becomes (recorded : Recorded heap origins) (becomes : Becomes heap heap' fds t)
    (flags : ∀ i d, t i = some d → d.flags = (origins' fds i).flags)
    (others : ∀ ne, ne ≠ fds → origins' ne = origins ne) : Recorded heap' origins' := by
  obtain ⟨v, slots, table, replaces, rfl⟩ := becomes
  exact recorded.replace replaces (table.holds.table table.ok) table.nonnull table.behind flags
    others

theorem update (recorded : Recorded heap origins) (found : heapView heap fds = some t)
    {origin : Origin} (becomes : Becomes heap heap' fds (Function.update t i (opened fd)))
    (flags : fd.node ≠ 0 → fd.flags = origin.flags) :
    Recorded heap' (origins.store fds i origin) := by
  rw [Origins.store, if_neg (by omega), Int.toNat_natCast]
  apply recorded.becomes becomes
  · intro k d isOpen
    rw [update_self]
    by_cases here : k = i
    · subst here
      rw [update_self] at isOpen ⊢
      unfold opened at isOpen
      split at isOpen
      · cases isOpen
      next used =>
        cases isOpen
        exact flags used
    · rw [update_of_ne here] at isOpen ⊢
      exact recorded.flags fds t found k d isOpen
  · intro other ne
    exact update_of_ne ne ..

theorem stores (recorded : Recorded heap origins) (found : heapView heap fds = some t)
    {origin : Origin} (stores : Stores heap heap' fds t fd r)
    (flags : fd.node ≠ 0 → fd.flags = origin.flags) :
    Recorded heap' (origins.store fds r origin) := by
  rcases stores with ⟨rfl, same⟩ | ⟨i, rfl, becomes⟩
  · exact recorded.becomes same (recorded.flags fds t found) fun _ _ => rfl
  · exact recorded.update found becomes flags

end Recorded

theorem openTable_of_slot (below : (i : Int) < v.vectorSize) (found : slots[i]? = some fd)
    (used : fd.node ≠ 0) : openTable v slots i = some fd := by
  unfold openTable
  rw [if_pos below, found, Option.filter_some, if_pos (decide_eq_true used)]

namespace Recorded

variable (recorded : Recorded heap origins)

include recorded

theorem holds_or_dangling (fds : Nat) :
    heap.getVector fds = .error .dangling ∨ ∃ v slots, Holds heap fds v slots := by
  unfold Heap.getVector
  cases found : heap.vectors.lookup fds with
  | none => exact .inl rfl
  | some v =>
    obtain ⟨slots, holds, -⟩ := recorded.ok.table fds v found
    exact .inr ⟨v, slots, holds⟩

theorem get_cases (fds : Nat) (number : Int) : getFiledescriptor fds number heap = .ok none ∨
      getFiledescriptor fds number heap = .error .dangling ∨
      ∃ (i : Nat) (v : VectorT) (slots : List FileDescriptor) (slot : FileDescriptor),
        number = i ∧ DescriptorTable heap fds v slots ∧ (i : Int) < v.vectorSize ∧
        slots[i]? = some slot ∧
        getFiledescriptor fds number heap = .ok (some (v.vectorBuffer, (i : Int))) := by
  by_cases negative : number < 0
  · exact .inl (if_pos negative)
  obtain ⟨i, rfl⟩ := Int.eq_ofNat_of_zero_le (not_lt.mp negative)
  rcases recorded.holds_or_dangling fds with dangling | ⟨v, slots, holds⟩
  · unfold getFiledescriptor vectorGet
    rw [if_neg negative, dangling]
    split
    · exact .inr (.inl rfl)
    · exact .inl rfl
  have table := recorded.table holds
  have shape := holds.table recorded.ok
  have allocated := shape.allocated
  have le := shape.within
  rw [table.get i]
  by_cases below : (i : Int) < v.vectorSize
  · have lt : i < slots.length := by omega
    rw [if_pos below]
    exact .inr (.inr ⟨i, v, slots, slots[i], rfl, table, below, List.getElem?_eq_getElem lt, rfl⟩)
  · exact .inl (by rw [if_neg below])

theorem register_step (sound : Sound kmalloc) {node : Nat} {flags mode lockIndex : UInt32}
    (ret : registerFiledescriptor kmalloc fds node flags mode lockIndex heap = .ok (r, heap')) :
    Recorded heap' (origins.store fds r (.opened flags)) := by
  unfold registerFiledescriptor at ret
  rcases recorded.holds_or_dangling fds with dangling | ⟨v, slots, holds⟩
  · rw [vectorAdd, dangling] at ret
    cases ret
  · exact recorded.stores holds.view ((recorded.table holds).add_stores sound ret) fun _ => rfl

theorem dup_step (sound : Sound kmalloc)
    (ret : dupFiledescriptor kmalloc fds number start heap = .ok (r, heap')) :
    Recorded heap' (origins.store fds r (origins fds number.toNat)) := by
  unfold dupFiledescriptor at ret
  rcases recorded.get_cases fds number with
    none | dangling | ⟨i, v, slots, slot, rfl, table, lt, found, get⟩
  · rw [none] at ret
    cases ret
    exact recorded
  · rw [dangling] at ret
    cases ret
  simp only [get, DescriptorTable.slotAt_eq table.holds found, bind, Except.bind] at ret
  split at ret
  · cases ret
    exact recorded
  next used =>
    have flags := recorded.flags fds _ table.holds.view i slot (openTable_of_slot lt found used)
    have stores : Stores heap heap' fds (openTable v slots) slot r := by
      split at ret
      · exact table.add_stores sound ret
      · exact table.addFrom_stores sound ret
    exact recorded.stores table.holds.view stores fun _ => flags

theorem dup2_step (sound : Sound kmalloc) {old new : Int}
    (ret : dup2Filedescriptor kmalloc fds old new heap = .ok (r, heap')) :
    Recorded heap' (origins.store fds r (origins fds old.toNat)) := by
  rcases recorded.get_cases fds old with
    none | dangling | ⟨i, v, slots, slot, rfl, table, lt, found, get⟩
  · rw [dup2Filedescriptor, none] at ret
    cases ret
    exact recorded
  · rw [dup2Filedescriptor, dangling] at ret
    cases ret
  by_cases closed : slot.node = 0
  · unfold dup2Filedescriptor at ret
    simp only [get, DescriptorTable.slotAt_eq table.holds found, bind, Except.bind,
      if_pos closed] at ret
    cases ret
    exact recorded
  have isOpen := openTable_of_slot lt found closed
  have flags := recorded.flags fds _ table.holds.view i slot isOpen
  by_cases negative : new < 0
  · rw [table.dup2_eq isOpen, if_neg (by omega),
      set_negative table.holds (table.holds.table table.ok) negative] at ret
    cases ret
  obtain ⟨j, rfl⟩ := Int.eq_ofNat_of_zero_le (not_lt.mp negative)
  have copy {content : Option FileDescriptor} (copied : content = none ∨ content = some slot)
      (becomes : Becomes heap heap' fds (Function.update (openTable v slots) j content)) :
      Recorded heap' (origins.store fds j (origins fds i)) := by
    rcases copied with rfl | rfl
    · have closes : Becomes heap heap' fds (Function.update (openTable v slots) j
          (opened FileDescriptor.zero)) := becomes
      exact recorded.update table.holds.view closes fun used => absurd rfl used
    · rw [← show opened slot = some slot from if_neg closed] at becomes
      exact recorded.update table.holds.view becomes fun _ => flags
  by_cases low : (j : Int) < v.vectorSize
  · obtain ⟨after, answer, becomes⟩ := table.dup2_below sound isOpen low
    cases answer.symm.trans ret
    exact copy (by split <;> simp) becomes
  by_cases fits : Fits kmalloc heap v j
  · obtain ⟨after, answer, becomes⟩ := table.dup2_behind sound isOpen (not_lt.mp low) fits
    cases answer.symm.trans ret
    exact copy (.inr rfl) becomes
  obtain ⟨fault, faults⟩ := set_faults sound table.ok table.holds fits slot
  rw [table.dup2_eq isOpen, if_neg (by omega), faults] at ret
  cases ret

theorem setflags_step {flags : UInt32}
    (ret : setflagsFiledescriptor fds number flags heap = .ok (r, heap')) :
    Recorded heap' (if r < 0 then origins else origins.store fds number (.set flags)) := by
  unfold setflagsFiledescriptor at ret
  rcases recorded.get_cases fds number with
    none | dangling | ⟨i, v, slots, slot, rfl, table, below, found, get⟩
  · rw [none] at ret
    cases ret
    exact recorded
  · rw [dangling] at ret
    cases ret
  have lt : i < slots.length := (List.getElem?_eq_some_iff.mp found).1
  simp only [get, table.holds.getBuffer, readSlot_eq found, writeSlot_eq lt, bind,
    Except.bind] at ret
  cases ret
  exact recorded.update table.holds.view
    (table.puts ((table.holds.write table.ok _).puts lt (by omega))) fun _ => rfl

theorem close_step (ret : closeFiledescriptor fds number heap = .ok (r, heap')) :
    Recorded heap' origins := by
  rcases recorded.get_cases fds number with
    none | dangling | ⟨i, v, slots, slot, rfl, table, below, found, get⟩
  · rw [closeFiledescriptor, none] at ret
    cases ret
    exact recorded
  · rw [closeFiledescriptor, dangling] at ret
    cases ret
  obtain ⟨after, answer, replaces⟩ := table.close below found
  cases answer.symm.trans ret
  have storeSelf : origins.store fds i (origins fds i) = origins := by
    rw [Origins.store, if_neg (by omega), Int.toNat_natCast, update_eq_self, update_eq_self]
  rw [← storeSelf]
  have lt := (List.getElem?_eq_some_iff.mp found).1
  exact recorded.update table.holds.view (table.puts (replaces.puts lt (by omega)))
    fun used => absurd rfl used

theorem copy_step (sound : Sound kmalloc) (ne : ∀ size heap, kmalloc size heap ≠ some 0)
    {cp new : Nat} (ret : vectorCopy kmalloc cp heap = .ok (new, heap')) :
    Recorded heap' (if new = 0 then origins else Function.update origins new (origins cp)) := by
  rcases recorded.holds_or_dangling cp with dangling | ⟨v, slots, holds⟩
  · unfold vectorCopy at ret
    rw [dangling] at ret
    cases first : kmalloc sizeofVectorT.toNat heap with
    | none =>
      rw [first] at ret
      cases ret
      exact recorded
    | some vec =>
      rw [first] at ret
      cases ret
  · have table := recorded.table holds
    have shape := holds.table recorded.ok
    rcases copy_cases sound recorded.ok holds with
      ⟨-, large⟩ | ⟨-, refused⟩ | ⟨vec, buffer, after, copied, first, -, replaces⟩
    · cases large.symm.trans ret
    · cases refused.symm.trans ret
      exact recorded
    cases copied.symm.trans ret
    have real : new ≠ 0 := by
      rintro rfl
      exact ne _ _ first
    rw [if_neg real]
    apply recorded.replace replaces
      ⟨shape.allocated, shape.nonneg, shape.within, shape.pos⟩ real table.behind
    · rw [update_self]
      exact recorded.flags cp _ holds.view
    · exact fun other different => update_of_ne different ..

end Recorded

theorem CallRun.recorded (sound : Sound kmalloc)
    (ne : ∀ size heap, kmalloc size heap ≠ some 0) (run : CallRun kmalloc heap origins) :
    Recorded heap origins := by
  induction run with
  | create =>
    have empty : Recorded emptyHeap fun _ _ => .opened 0 :=
      ⟨emptyHeap_ok, notMem_empty, fun _ _ _ holds => (by cases holds.vector),
        fun _ _ found => (by cases found)⟩
    rcases create_cases kmalloc with ⟨-, ret⟩ | ⟨vec, buffer, heap, ret, first, replaces⟩
    · rw [ret]
      exact empty
    rw [ret]
    have closed (i : Nat) :
        ¬ OpenSlot (List.replicate vectorBeginAmount.toNat FileDescriptor.zero) i := by
      rintro ⟨slot, found, used⟩
      rw [List.eq_of_mem_replicate (List.mem_of_getElem? found)] at used
      exact used rfl
    apply empty.replace replaces
      ⟨rfl, le_refl 0, (by decide : (0 : Int) ≤ 8), (by decide : (0 : Int) < 8)⟩
    · rintro rfl
      exact ne _ _ first
    · exact fun i _ => closed i
    · intro i d isOpen
      obtain ⟨-, found, used⟩ := openTable_eq_some isOpen
      exact (closed i ⟨d, found, used⟩).elim
    · exact fun _ _ => rfl
  | @step heap heap' origins r call lt ret ih =>
    cases call with
    | register fds node flags mode lockIndex => exact ih.register_step sound ret
    | dup fds fd start => exact ih.dup_step sound ret
    | dup2 fds old new => exact ih.dup2_step sound ret
    | setflags fds fd flags => exact ih.setflags_step ret
    | close fds fd => exact ih.close_step ret
    | copy cp =>
      simp only [FdCall.run, bind, Except.bind] at ret
      cases copied : vectorCopy kmalloc cp heap with
      | error fault =>
        rw [copied] at ret
        cases ret
      | ok answer =>
        rw [copied] at ret
        cases ret
        have step := ih.copy_step sound ne copied
        simp only [FdCall.origins, Int.natCast_eq_zero, Int.toNat_natCast]
        exact step

theorem nextAddress_nonnull (size : Nat) (heap : Heap) : nextAddress size heap ≠ some 0 := by
  intro null
  cases null

theorem oneOpen_run : CallRun nextAddress oneOpen
      ((FdCall.register 1 0x1000 0 0 0).origins (fun _ _ => .opened 0) 0) :=
  .step (.register 1 0x1000 0 0 0) .create rfl

end

variable {origins : Origins}

/-- The last `F_SETFD` set `FD_CLOEXEC`. -/
def Origin.marked : Origin → Bool
  | opened _ => false
  | set flags => flags &&& eCloexec ≠ 0

/-- The marked descriptors are closed, and nothing else changes. -/
def ClosesMarked (origins : Origins) (fds : Nat) (heap : Heap) : Prop :=
  ∃ t heap', heapView heap fds = some t ∧ checkFiledescriptors fds heap = .ok heap' ∧
    heapView heap' = update (heapView heap) fds
      (some fun i => if (origins fds i).marked then none else t i)

/-- What a round leaves of a descriptor. -/
def kept (d : Option FileDescriptor) : Option FileDescriptor :=
  d.filter fun d => d.flags &&& eCloexec = 0

theorem kept_some (d : FileDescriptor) :
    kept (some d) = if d.flags &&& eCloexec = 0 then some d else none := by
  unfold kept
  rw [Option.filter_some]
  simp

theorem DescriptorTable.check_round (table : DescriptorTable heap fds v slots) (rounds i : Nat) :
    ∃ after, checkFrom fds (rounds + 1) i heap = checkFrom fds rounds (i + 1 : Nat) after ∧
      Becomes heap after fds (update (openTable v slots) i (kept (openTable v slots i))) := by
  have shape := table.holds.table table.ok
  have allocated := shape.allocated
  have le := shape.within
  have unchanged (same : kept (openTable v slots i) = openTable v slots i) :
      Becomes heap heap fds (update (openTable v slots) i (kept (openTable v slots i))) := by
    rw [same, update_eq_self]
    exact table.same
  rw [checkFrom]
  by_cases below : (i : Int) < v.vectorSize
  · have lt : i < slots.length := by omega
    have found := List.getElem?_eq_getElem lt
    simp only [table.get i, if_pos below, slotAt_eq table.holds found, bind, Except.bind]
    have map : openTable v slots i = if slots[i].node = 0 then none else some slots[i] := by
      by_cases used : slots[i].node = 0
      · rw [if_pos used, openTable_eq_none_iff]
        rintro - ⟨slot, mem, isOpen⟩
        rw [found] at mem
        cases mem
        exact isOpen used
      · rw [if_neg used, openTable_of_slot below found used]
    by_cases marked : slots[i].flags &&& eCloexec = 0
    · rw [if_neg (not_not_intro marked)]
      refine ⟨heap, rfl, unchanged ?_⟩
      rw [map]
      split
      · rfl
      · rw [kept_some, if_pos marked]
    obtain ⟨after, closed, replaces⟩ := table.close below found
    rw [if_pos marked, closed]
    refine ⟨after, rfl, ?_⟩
    have gone : kept (openTable v slots i) = opened { slots[i] with node := 0 } := by
      rw [map]
      split
      · rfl
      · rw [kept_some, if_neg marked]
        rfl
    rw [gone]
    exact table.puts (replaces.puts lt (by omega))
  · simp only [table.get i, if_neg below, bind, Except.bind]
    refine ⟨heap, rfl, unchanged ?_⟩
    rw [openTable_eq_none_iff.mpr fun high => absurd high below]
    rfl

theorem checkFrom_becomes (rounds : Nat) {i : Nat} (table : DescriptorTable heap fds v slots) :
    ∃ heap', checkFrom fds rounds i heap = .ok heap' ∧ Becomes heap heap' fds fun k =>
      if i ≤ k ∧ k < i + rounds then kept (openTable v slots k) else openTable v slots k := by
  induction rounds generalizing heap v slots i with
  | zero =>
    refine ⟨heap, rfl, ?_⟩
    have none (k : Nat) : ¬ (i ≤ k ∧ k < i + 0) := by omega
    simp only [none, if_false]
    exact table.same
  | succ rounds ih =>
    obtain ⟨after, next, first⟩ := table.check_round rounds i
    obtain ⟨w, slots', tableAfter, -, map⟩ := id first
    obtain ⟨heap', ret, rest⟩ := ih (i := i + 1) tableAfter
    refine ⟨heap', next.trans ret, ?_⟩
    have whole := first.trans rest
    rw [map] at whole
    convert whole using 1
    funext k
    by_cases here : k = i
    · subst here
      rw [if_pos (by omega), if_neg (by omega), update_self]
    rw [update_of_ne here]
    congr 1
    simp only [eq_iff_iff]
    omega

theorem checkFiledescriptors_becomes (table : DescriptorTable heap fds v slots) :
    ∃ heap', checkFiledescriptors fds heap = .ok heap' ∧
      Becomes heap heap' fds fun k => kept (openTable v slots k) := by
  obtain ⟨heap', ret, becomes⟩ := checkFrom_becomes v.vectorSize.toNat (i := 0) table
  refine ⟨heap', ?_, ?_⟩
  · unfold checkFiledescriptors
    simp only [table.holds.getVector, bind, Except.bind]
    exact ret
  convert becomes using 1
  funext k
  split
  · rfl
  next behind =>
    rw [openTable_eq_none_iff.mpr fun high => absurd high (by omega)]
    rfl

/-! ## Marked descriptors -/

/-- After any run of calls, `check_filedescriptors` closes the marked descriptors and no others
exactly if none that is open with the flags it was opened with was opened with the bit of
`O_WRONLY`. -/
theorem close_on_exec_iff (sound : Sound kmalloc)
    (nonnull : ∀ size heap, kmalloc size heap ≠ some 0) (run : CallRun kmalloc heap origins)
    (found : heapView heap fds = some t) :
    ClosesMarked origins fds heap ↔
      ∀ i d flags, t i = some d → origins fds i = .opened flags → flags &&& eCloexec = 0 := by
  have recorded := run.recorded sound nonnull
  obtain ⟨v, vector, array⟩ := Option.bind_eq_some_iff.mp found
  obtain ⟨slots, buffer, rfl⟩ := Option.map_eq_some_iff.mp array
  obtain ⟨heap', ret, becomes⟩ := checkFiledescriptors_becomes (recorded.table ⟨vector, buffer⟩)
  have closes : ClosesMarked origins fds heap ↔ ∀ i, kept (openTable v slots i) =
      if (origins fds i).marked then none else openTable v slots i := by
    constructor
    · rintro ⟨t, after, found', ret', view⟩ i
      cases found.symm.trans found'
      cases ret.symm.trans ret'
      rw [becomes.view] at view
      have tables := congrFun view fds
      rw [update_self, update_self] at tables
      exact congrFun (Option.some.inj tables) i
    · intro same
      refine ⟨_, heap', found, ret, ?_⟩
      rw [becomes.view]
      simp only [same]
  rw [closes]
  constructor
  · intro same i d flags isOpen origin
    have agrees := recorded.flags fds _ found i d isOpen
    have here := same i
    rw [isOpen, origin, kept_some, agrees, origin] at here
    by_contra bit
    rw [Origin.flags, if_neg bit] at here
    cases here
  · intro clear i
    cases isOpen : openTable v slots i with
    | none => split <;> rfl
    | some d =>
      have agrees := recorded.flags fds _ found i d isOpen
      rw [kept_some, agrees]
      cases origin : origins fds i with
      | opened flags =>
        rw [Origin.flags, if_pos (clear i d flags isOpen origin)]
        rfl
      | set flags =>
        by_cases bit : flags &&& eCloexec = 0
        · simp [Origin.flags, Origin.marked, bit]
        · simp [Origin.flags, Origin.marked, bit]

/-- A table whose first descriptor has these flags. -/
def openedWith (flags : UInt32) : Heap := (emptyHeap.setBuffer 2
    (⟨0x1000, 0, flags, 0, 0⟩ :: List.replicate 7 FileDescriptor.zero)).setVector 1 ⟨2, 1, 8⟩

theorem close_on_exec_marked : ClosesMarked ((FdCall.setflags 1 0 1).origins
      ((FdCall.register 1 0x1000 0 0 0).origins (fun _ _ => .opened 0) 0) 0) 1 (openedWith 1) := by
  refine (close_on_exec_iff nextAddress_grants.sound nextAddress_nonnull
    (.step (.setflags 1 0 1) oneOpen_run rfl) rfl).mpr ?_
  intro i d flags _ origin
  cases i with
  | zero => cases origin
  | succ i =>
    cases origin
    rfl

/-- A file that is opened for writing only is closed without any `F_SETFD`. -/
theorem close_on_exec_write_only : CallRun nextAddress (openedWith 1)
        ((FdCall.register 1 0x1000 1 0 0).origins (fun _ _ => .opened 0) 0) ∧
      (heapView (openedWith 1) 1).map (fun t => t 0) = some (some ⟨0x1000, 0, 1, 0, 0⟩) ∧
      ((FdCall.register 1 0x1000 1 0 0).origins (fun _ _ => .opened 0) 0 1 0).marked = false ∧
      (checkFiledescriptors 1 (openedWith 1)).toOption.map
        (fun heap => (heapView heap 1).map fun t => t 0) = some (some none) :=
  ⟨.step (.register 1 0x1000 1 0 0) .create rfl, rfl, rfl, rfl⟩

end Yanix.Ds

namespace Yanix.Fs

open Foundation Ds Function

variable {σ : Type} {attributes : Nat → NodeAttributes σ} {fd : Int} {s : Files σ}

/-- All five calls return -1 and leave everything as it was. -/
structure Refused (attributes : Nat → NodeAttributes σ) (fds : Nat) (fd : Int) (s : Files σ) :
    Prop where
  read : ∀ buf amount fresh, vfsReadFd fds fd buf amount fresh s = .ok (some (-1, buf, s))
  write : ∀ buf amount fresh, vfsWriteFd fds fd buf amount fresh s = .ok (some (-1, s))
  fstat : ∀ statbuf, vfsFstat attributes fds fd statbuf s = .ok (-1, statbuf)
  lseek : ∀ offset whence statbuf, vfsLseek attributes fds fd offset whence statbuf s = .ok (-1, s)
  close : vfsCloseFd attributes fds fd s = .ok (-1, s)

theorem Refused.of_get (get : getFiledescriptor fds fd s.heap = .ok none) :
    Refused attributes fds fd s where
  read := by
    intro buf amount fresh
    rw [vfsReadFd, get]
    rfl
  write := by
    intro buf amount fresh
    rw [vfsWriteFd, get]
    rfl
  fstat := by
    intro statbuf
    rw [vfsFstat, get]
    rfl
  lseek := by
    intro offset whence statbuf
    rw [vfsLseek, get]
    rfl
  close := by
    rw [vfsCloseFd, getFiledescriptorNode, get]
    rfl

/-- After any run of calls, a number that is not open is refused by all five calls exactly
if it is negative or not below the end of the table. -/
theorem closed_refused_iff {kmalloc : Kmalloc} {v : VectorT} {slots : List Ds.FileDescriptor}
    (sound : Sound kmalloc) (nonnull : ∀ size heap, kmalloc size heap ≠ some 0)
    {origins : Origins} (run : CallRun kmalloc s.heap origins) (null : s.nodes 0 = none)
    (holds : Holds s.heap fds v slots)
    (closed : ∀ i : Nat, fd = i → openTable v slots i = none) :
    Refused attributes fds fd s ↔ fd < 0 ∨ v.vectorSize ≤ fd := by
  have table := (run.recorded sound nonnull).table holds
  constructor
  · intro refused
    by_contra lt
    obtain ⟨i, rfl⟩ := Int.eq_ofNat_of_zero_le (show 0 ≤ fd by omega)
    have below : (i : Int) < v.vectorSize := by omega
    have shape := holds.table table.ok
    have allocated := shape.allocated
    have le := shape.within
    have found := List.getElem?_eq_getElem (show i < slots.length by omega)
    have empty : slots[i].node = 0 := by
      by_contra used
      cases (closed i rfl).symm.trans (openTable_of_slot below found used)
    -- the read looks into the null node
    have faults : vfsReadFd fds i (fun _ => 0) 0 (fun _ _ => 0) s = .error .dangling := by
      unfold vfsReadFd vfsReadStruct Files.getNode
      simp only [table.get i, if_pos below, DescriptorTable.slotAt_eq holds found, empty, null,
        bind, Except.bind]
    cases faults.symm.trans (refused.read _ _ _)
  · intro away
    apply Refused.of_get
    rcases away with negative | behind
    · exact if_pos negative
    by_cases negative : fd < 0
    · exact if_pos negative
    · obtain ⟨i, rfl⟩ := Int.eq_ofNat_of_zero_le (Int.not_lt.mp negative)
      rw [table.get i, if_neg (Int.not_lt.mpr behind)]

/-- A node of the null device at address 0x1000, and the given tables. -/
def nullDevice (heap : Heap) : Files Unit where
  heap := heap
  nodes := fun p => if p = 0x1000 then some ⟨⟨0, 0⟩, some readNull, some writeNull, none⟩ else none
  device := ()

def noAttributes : Nat → NodeAttributes Unit := fun _ => ⟨0, 0, 0, 0, 0, none⟩

theorem closed_refused_five : Refused noAttributes 1 5 (nullDevice oneOpen) :=
  (closed_refused_iff nextAddress_grants.sound nextAddress_nonnull oneOpen_run rfl
    oneOpen_table.holds fun _ number => by cases number; rfl).mpr (.inr (by decide))

/-- The table of `oneOpen` after its descriptor was closed. -/
def oneClosed : Heap :=
  (emptyHeap.setBuffer 2 (List.replicate 8 FileDescriptor.zero)).setVector 1 ⟨2, 1, 8⟩

/-- The file was opened and closed again.  A read uses the null node, and its position
moves. -/
theorem closed_refused_fails : (∃ origins, CallRun nextAddress oneClosed origins) ∧
      (heapView oneClosed 1).map (fun t => t 0) = some none ∧
      vfsReadFd 1 0 (fun _ => 0) 3 (fun _ _ => 0) (nullDevice oneClosed) = .error .dangling ∧
      (vfsLseek noAttributes 1 0 5 0 ⟨0, 0, 0, 0, 0, 0, 0, 0, 0, 0⟩
        (nullDevice oneClosed)).toOption.map Prod.fst = some 5 :=
  ⟨⟨_, .step (.close 1 0) oneOpen_run rfl⟩, rfl, rfl, rfl⟩

end Yanix.Fs

namespace Yanix.Ds

open Function

variable {obj : FileDescriptor} {start : Nat}

/-- The call returns the least number from `start` on that was not open, makes it a copy of
`fd`, and changes nothing else. -/
def DupAbove (kmalloc : Kmalloc) (fds fd start : Nat) (heap : Heap) : Prop :=
  ∃ t i heap', heapView heap fds = some t ∧ IsLeast {i | start ≤ i ∧ t i = none} i ∧
    dupFiledescriptor kmalloc fds fd start heap = .ok ((i : Nat), heap') ∧
    heapView heap' = update (heapView heap) fds (some (update t i (t fd)))

/-- A minimum behind the array is no multiple of the capacity, and the larger array gets memory. Any
other minimum has a free number in the array, or the table is full and gets memory for twice its
size. -/
def Reaches (kmalloc : Kmalloc) (heap : Heap) (v : VectorT) (t : Table) (start : Nat) : Prop :=
  if (start : Int) > v.vectorMaxsize then Fits kmalloc heap v start
  else (∀ i : Nat, start ≤ i → (i : Int) < v.vectorMaxsize → t i ≠ none) →
    v.vectorSize = v.vectorMaxsize ∧ 20 * (v.vectorMaxsize * 2) < 2 ^ 31 ∧
      kmalloc (20 * (v.vectorMaxsize * 2)).toNat heap ≠ none

/-! ## `vector_add_from` -/

/-- A call with this result stored `obj` as it should, in a table that was the map `t`. -/
def StoredAbove (heap : Heap) (fds : Nat) (t : Table) (obj : FileDescriptor) (start : Nat)
    (result : Except Fault (Int × Heap)) : Prop :=
  ∃ i heap', IsLeast {i | start ≤ i ∧ t i = none} i ∧ result = .ok ((i : Nat), heap') ∧
    heapView heap' = update (heapView heap) fds (some (update t i (some obj)))

namespace DescriptorTable

variable (table : DescriptorTable heap fds v slots)

include table

theorem isLeast_above {j : Nat} (low : start ≤ j) (free : ¬ OpenSlot slots j)
    (used : ∀ k, start ≤ k → k < j → OpenSlot slots k) :
    IsLeast {i | start ≤ i ∧ openTable v slots i = none} j := by
  refine ⟨⟨low, table.closed_iff.mpr free⟩, ?_⟩
  rintro k ⟨above, closed⟩
  by_contra less
  exact table.closed_iff.mp closed (used k above (not_le.mp less))

variable (sound : Sound kmalloc)

include sound

theorem push_not_above {origin : Heap} {t : Table} (lt : v.vectorSize < start) :
    ¬ StoredAbove origin fds t obj start (vectorPush kmalloc fds obj heap) := by
  rintro ⟨i, heap', least, ret, -⟩
  have small := (table.push_stores sound ret).1
  have above : start ≤ i := least.1.1
  omega

theorem addAbove_iff (used : obj.node ≠ 0) (inside : (start : Int) ≤ v.vectorMaxsize) :
    StoredAbove heap fds (openTable v slots) obj start (addAbove kmalloc fds obj start heap) ↔
      ((∀ i : Nat, start ≤ i → (i : Int) < v.vectorMaxsize → openTable v slots i ≠ none) →
        v.vectorSize = v.vectorMaxsize ∧ 20 * (v.vectorMaxsize * 2) < 2 ^ 31 ∧
          kmalloc (20 * (v.vectorMaxsize * 2)).toNat heap ≠ none) := by
  have shape := table.holds.table table.ok
  have allocated := shape.allocated
  have le := shape.within
  have nonneg := shape.nonneg
  have stored : opened obj = some obj := if_neg used
  rcases addAbove_cases kmalloc table.ok table.holds start obj with
    ⟨j, heap', low, lt, free, full, ret, puts⟩ | ⟨full, pushed⟩
  · have becomes := table.puts puts
    rw [stored] at becomes
    constructor
    · intro _ all
      exact absurd (table.closed_iff.mpr free) (all j low (by omega))
    · intro _
      exact ⟨j, heap', table.isLeast_above low free full, ret, becomes.view⟩
  have all (i : Nat) (low : start ≤ i) (high : (i : Int) < v.vectorMaxsize) :
      openTable v slots i ≠ none :=
    fun closed => table.closed_iff.mp closed (full i low (by omega))
  rw [pushed]
  rcases push_cases sound table.ok table.holds obj with
    ⟨large, failed⟩ | ⟨-, refused, failed⟩ | ⟨after, n, ret, answer, puts⟩
  · constructor
    · rintro ⟨i, heap', -, ret, -⟩
      cases failed.symm.trans ret
    · intro room
      have small := (room all).2.1
      omega
  · constructor
    · rintro ⟨i, heap', -, ret, -⟩
      cases failed.symm.trans ret
    · intro room
      exact absurd refused (room all).2.2
  · constructor
    · rintro ⟨i, heap', least, answered, -⟩ -
      have number : v.vectorSize = i := congrArg Prod.fst (Except.ok.inj (ret.symm.trans answered))
      have above : start ≤ i := least.1.1
      -- below the end of the array the slot behind the table would be in use
      have size : v.vectorSize = v.vectorMaxsize := by
        by_contra less
        exact table.behind i (by omega) (full i above (by omega))
      have inside := puts.inside
      exact ⟨size, (answer.resolve_left (by omega)).2⟩
    · intro doubles
      have size := (doubles all).1
      have becomes := table.puts puts
      rw [stored] at becomes
      refine ⟨_, after, table.isLeast_above (by omega) (table.behind _ (by omega)) ?_,
        by rw [Int.toNat_of_nonneg nonneg]; exact ret, becomes.view⟩
      exact fun k low high => full k low (by omega)

theorem addFrom_iff (used : obj.node ≠ 0) (behind : (start : Int) > v.vectorMaxsize) :
    StoredAbove heap fds (openTable v slots) obj start
        (vectorAddFrom kmalloc fds obj start heap) ↔ Fits kmalloc heap v start := by
  have shape := table.holds.table table.ok
  have allocated := shape.allocated
  have le := shape.within
  have pos := shape.pos
  have factor := Libk.one_le_roundup pos (show 0 < (start : Int) by omega)
  unfold vectorAddFrom
  simp only [table.holds.getVector, bind, Except.bind, if_pos behind]
  rcases expand_cases sound table.ok table.holds factor with
    ⟨large, failed⟩ | ⟨-, refused, failed⟩ |
      ⟨n, tmp, after, size, small, granted, expanded, replaces⟩
  · rw [failed]
    constructor
    · rintro ⟨i, heap', -, ret, -⟩
      cases ret
    · rintro (lt | ⟨-, small, -⟩) <;> omega
  · rw [failed]
    constructor
    · intro stored
      exfalso
      rcases addAbove_cases kmalloc table.ok table.holds start obj with
        ⟨j, -, low, below, -⟩ | ⟨-, pushed⟩
      · omega
      · simp only [pushed] at stored
        exact table.push_not_above sound (by omega) stored
    · rintro (lt | ⟨-, -, granted⟩)
      · omega
      · exact absurd refused granted
  · rw [expanded]
    obtain ⟨tableLarger, map⟩ := table.grows replaces
    have len := length_grown slots n
    have closed : ¬ OpenSlot (grown slots n) start :=
      fun isOpen => table.behind start (by omega) isOpen.of_grown
    rcases addAbove_cases kmalloc tableLarger.ok tableLarger.holds start obj with
      ⟨j, heap', low, below, free, full, ret, puts⟩ | ⟨full, pushed⟩
    · have here : j = start := by
        by_contra above
        exact closed (full start le_rfl (by omega))
      subst here
      have rest : ¬ v.vectorMaxsize ∣ (j : Int) := by
        intro multiple
        have reach := Libk.mul_roundup_of_dvd multiple
        omega
      have becomes := tableLarger.puts puts
      have first : Becomes heap after fds (openTable v slots) := ⟨_, _, tableLarger, replaces, map⟩
      have least := tableLarger.isLeast_above low free full
      rw [map] at becomes least
      rw [opened, if_neg used] at becomes
      constructor
      · exact fun _ => .inr ⟨rest, small, granted⟩
      · exact fun _ => ⟨j, heap', least, ret, (first.trans becomes).view⟩
    · have multiple : v.vectorMaxsize ∣ (start : Int) := by
        by_contra rest
        have covers := Libk.lt_mul_roundup pos rest
        exact closed (full start le_rfl (by omega))
      constructor
      · intro stored
        simp only [pushed] at stored
        exact (tableLarger.push_not_above sound
          (show v.vectorSize < (start : Int) by omega) stored).elim
      · rintro (lt | ⟨rest, -, -⟩)
        · omega
        · exact absurd multiple rest

end DescriptorTable

/-- In every table that calls lead to, for every open descriptor and minimum, duplicating does what
it is for exactly if the minimum can be reached. -/
theorem dup_above_iff (sound : Sound kmalloc) (nonnull : ∀ size heap, kmalloc size heap ≠ some 0)
    {origins : Origins} (run : CallRun kmalloc heap origins) (holds : Holds heap fds v slots)
    {fd : Nat} (isOpen : openTable v slots fd = some obj) (start : Nat) :
    DupAbove kmalloc fds fd start heap ↔ Reaches kmalloc heap v (openTable v slots) start := by
  have table := (run.recorded sound nonnull).table holds
  obtain ⟨below, found, used⟩ := openTable_eq_some isOpen
  have calls : dupFiledescriptor kmalloc fds fd start heap =
      vectorAddFrom kmalloc fds obj start heap := by
    unfold dupFiledescriptor
    simp only [table.get fd, if_pos below, DescriptorTable.slotAt_eq holds found, bind, Except.bind]
    rw [if_neg used, if_neg (by omega)]
  have stores : DupAbove kmalloc fds fd start heap ↔ StoredAbove heap fds (openTable v slots) obj
      start (vectorAddFrom kmalloc fds obj start heap) := by
    unfold DupAbove StoredAbove
    simp only [holds.view, Option.some.injEq, calls]
    constructor
    · rintro ⟨t, i, heap', rfl, least, ret, view⟩
      rw [isOpen] at view
      exact ⟨i, heap', least, ret, view⟩
    · rintro ⟨i, heap', least, ret, view⟩
      exact ⟨_, i, heap', rfl, least, ret, by rw [view, isOpen]⟩
  rw [stores, Reaches]
  split
  · next behind => exact table.addFrom_iff sound used behind
  next lt =>
    have direct : vectorAddFrom kmalloc fds obj start heap =
        addAbove kmalloc fds obj start heap := by
      unfold vectorAddFrom
      simp only [holds.getVector, bind, Except.bind, if_neg lt]
    rw [direct]
    exact table.addAbove_iff sound used (Int.not_lt.mp lt)

theorem dup_above_nine : DupAbove nextAddress 1 0 9 oneOpen :=
  (dup_above_iff nextAddress_grants.sound nextAddress_nonnull oneOpen_run oneOpen_table.holds
    rfl 9).mpr (.inr ⟨by decide, by decide, nextAddress_grants.not_none _ _⟩)

/-- In a table of eight slots the copy from 8 on is 1, and so is the copy from 16 on. -/
theorem dup_above_below : CallRun nextAddress oneOpen
        ((FdCall.register 1 0x1000 0 0 0).origins (fun _ _ => .opened 0) 0) ∧
      (heapView oneOpen 1).map (fun t => t 0) = some (some sampleFd) ∧
      (dupFiledescriptor nextAddress 1 0 8 oneOpen).toOption.map Prod.fst = some 1 ∧
      (dupFiledescriptor nextAddress 1 0 16 oneOpen).toOption.map Prod.fst = some 1 :=
  ⟨oneOpen_run, rfl, rfl, rfl⟩

end Yanix.Ds
