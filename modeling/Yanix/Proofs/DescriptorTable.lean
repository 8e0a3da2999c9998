/-
Module: Yanix.Proofs.DescriptorTable
Purpose: A table of file descriptors is a finite map that hands out its lowest free number;
  exactly when `dup2_filedescriptor` makes its target a copy of the source.
-/
import Yanix.Proofs.TableCapacity

namespace Yanix.Ds

open Function List Option Finmap

variable {kmalloc : Kmalloc} {heap heap' : Heap} {v : VectorT} {slots : List FileDescriptor}
  {vec : Nat}

/-- The open descriptors of a process by their numbers. -/
abbrev Table := Nat → Option FileDescriptor

/-- The tables of all processes by their addresses. -/
abbrev World := Nat → Option Table

inductive TableOp where
  | register (fds node : Nat) (flags mode lockIndex : UInt32)
  | add (vec : Nat) (fd : FileDescriptor)
  | clear (vec : Nat) (fd : Int)
  | copy (cp : Nat)

/-- Adding takes the lowest number that is not open. -/
def AddStep (world : World) (vec : Nat) (fd : FileDescriptor) (ret : Int) (world' : World) : Prop :=
  ∃ t i, world vec = some t ∧ IsLeast {i | t i = none} i ∧ ret = (i : Nat) ∧
    world' = update world vec (some (update t i (some fd)))

/-- What an operation answers and what it does to the tables. -/
def SpecStep (world : World) : TableOp → (ret : Int) → (world' : World) → Prop
  | .register fds node flags mode lockIndex, ret, world' =>
    AddStep world fds ⟨node, mode, flags, 0, lockIndex⟩ ret world'
  | .add vec fd, ret, world' => AddStep world vec fd ret world'
  | .clear vec fd, ret, world' => ∃ t, world vec = some t ∧ ret = 0 ∧
      world' = update world vec (some (update t fd.toNat none))
  | .copy cp, ret, world' => ∃ t new, world cp = some t ∧ world new = none ∧ ret = (new : Nat) ∧
      world' = update world new (some t)

/-- A number is open if it is below the end of the table and its node is not null. -/
def openTable (v : VectorT) (slots : List FileDescriptor) : Table := fun i =>
  if (i : Int) < v.vectorSize then slots[i]?.filter fun slot => slot.node ≠ 0 else none

def heapView (heap : Heap) : World := fun vec =>
  (heap.vectors.lookup vec).bind fun v =>
    (heap.buffers.lookup v.vectorBuffer).map (openTable v)

theorem Holds.view (holds : Holds heap vec v slots) :
    heapView heap vec = some (openTable v slots) := by
  unfold heapView
  rw [holds.vector, bind_some, holds.buffer, map_some]

theorem Replaces.view (replaces : Replaces heap heap' vec v slots) :
    heapView heap' = update (heapView heap) vec (some (openTable v slots)) := by
  funext ne
  by_cases same : ne = vec
  · subst same
    rw [update_self, replaces.holds.view]
  rw [update_of_ne same]
  unfold heapView
  rw [replaces.others ne same]
  cases found : heap.vectors.lookup ne with
  | none => rfl
  | some w =>
    rw [bind_some, bind_some, (replaces.apart ne w same found).2]

theorem openTable_eq_none_iff {i : Nat} :
    openTable v slots i = none ↔ (i : Int) < v.vectorSize → ¬ OpenSlot slots i := by
  unfold openTable OpenSlot
  by_cases below : (i : Int) < v.vectorSize
  · simp [below, filter_eq_none_iff]
  · simp [below]

theorem isLeast_free {i : Nat} (free : openTable v slots i = none)
    (used : ∀ k < i, (k : Int) < v.vectorSize ∧ OpenSlot slots k) :
    IsLeast {i | openTable v slots i = none} i := by
  refine ⟨free, ?_⟩
  intro k mem
  by_contra less
  obtain ⟨lt, openSlot⟩ := used k (not_le.mp less)
  exact openTable_eq_none_iff.mp mem lt openSlot

theorem getElem?_grown_filter (slots : List FileDescriptor) (n k : Nat) :
    ((grown slots n)[k]?.filter fun slot => slot.node ≠ 0) =
      slots[k]?.filter fun slot => slot.node ≠ 0 := by
  unfold grown
  by_cases lt : k < slots.length
  · rw [getElem?_append_left lt]
  rw [getElem?_append_right (not_lt.mp lt), getElem?_eq_none (not_lt.mp lt), getElem?_replicate]
  split <;> rfl

/-- The descriptor that a slot with this content is. -/
def opened (slot : FileDescriptor) : Option FileDescriptor :=
  if slot.node = 0 then none else some slot

variable {n i : Nat} {fd : FileDescriptor}

theorem Puts.view (puts : Puts heap heap' vec v slots n i fd)
    (closed : ∀ k : Nat, v.vectorSize ≤ k → k < i → ¬ OpenSlot slots k) :
    heapView heap' = update (heapView heap) vec
      (some (update (openTable v slots) i (opened fd))) := by
  obtain ⟨buffer, replaces⟩ := puts.replaces
  rw [replaces.view]
  congr 2
  funext k
  unfold openTable
  by_cases here : k = i
  · subst here
    rw [update_self, if_pos (by simp only; omega),
      getElem?_set_self (by simpa using puts.inside), filter_some, opened]
    by_cases null : fd.node = 0 <;> simp [null]
  rw [update_of_ne here, getElem?_set_ne (Ne.symm here), getElem?_grown_filter]
  by_cases low : (k : Int) < v.vectorSize
  · rw [if_pos low, if_pos (by simp only; omega)]
  rw [if_neg low]
  split
  · next high =>
      refine filter_eq_none_iff.mpr fun slot found used => ?_
      exact closed k (not_lt.mp low) (by simp only at high; omega)
        ⟨slot, found, of_decide_eq_true used⟩
  · rfl

/-- `kmalloc` hands out blocks of the kernel heap: unused addresses that are not null,
for requests that the heap has room for. -/
structure KernelHeap (kmalloc : Kmalloc) : Prop where
  sound : Sound kmalloc
  nonnull : ∀ size heap, kmalloc size heap ≠ some 0
  limit : ∀ size heap address, kmalloc size heap = some address → size ≤ 0x1000000

/-- What holds in every state: the tables are in order, they came from `kmalloc`. -/
structure Inv (heap : Heap) : Prop where
  ok : heap.Ok
  nonnull : 0 ∉ heap.vectors
  limit : ∀ vec v, heap.vectors.lookup vec = some v → 20 * v.vectorMaxsize ≤ 0x1000000

theorem Replaces.inv (inv : Inv heap) (replaces : Replaces heap heap' vec v slots)
    (table : TableOk v slots) (nonnull : vec ≠ 0) (limit : 20 * v.vectorMaxsize ≤ 0x1000000) :
    Inv heap' where
  ok := replaces.ok inv.ok table
  nonnull := by
    rw [← lookup_eq_none, replaces.others 0 nonnull.symm]
    exact lookup_eq_none.mpr inv.nonnull
  limit := by
    intro ne w found
    by_cases same : ne = vec
    · subst same
      obtain rfl := mem_unique replaces.holds.vector found
      exact limit
    · rw [replaces.others ne same] at found
      exact inv.limit ne w found

theorem Puts.inv (puts : Puts heap heap' vec v slots n i fd) (inv : Inv heap)
    (holds : Holds heap vec v slots) (ne : vec ≠ 0)
    (limit : 20 * (v.vectorMaxsize + (n : Int)) ≤ 0x1000000) : Inv heap' := by
  obtain ⟨buffer, replaces⟩ := puts.replaces
  exact replaces.inv inv ((holds.table inv.ok).put puts.inside buffer fd) ne limit

theorem Holds.ne_zero (inv : Inv heap) (holds : Holds heap vec v slots) : vec ≠ 0 := by
  rintro rfl
  exact inv.nonnull (mem_of_lookup_eq_some holds.vector)

/-- `kmalloc` refuses the request that adding to a full table makes. -/
def AddRefused (kmalloc : Kmalloc) (heap : Heap) (vec : Nat) : Prop :=
  ∃ v, heap.vectors.lookup vec = some v ∧ v.vectorSize = v.vectorMaxsize ∧
    kmalloc (20 * (v.vectorMaxsize * 2)).toNat heap = none

theorem add_refines (kernel : KernelHeap kmalloc) (inv : Inv heap) (holds : Holds heap vec v slots)
    (real : fd.node ≠ 0) :
    ∃ r heap', vectorAdd kmalloc vec fd heap = .ok (r, heap') ∧ Inv heap' ∧
      (AddRefused kmalloc heap vec ∧ heap' = heap ∨
        AddStep (heapView heap) vec fd r (heapView heap')) := by
  have limit := inv.limit vec v holds.vector
  -- the slot that is written is the lowest one that is not open
  have step {n j : Nat} {heap' : Heap} (puts : Puts heap heap' vec v slots n j fd)
      (near : (j : Int) ≤ v.vectorSize) (free : openTable v slots j = none)
      (used : ∀ k < j, OpenSlot slots k) :
      AddStep (heapView heap) vec fd j (heapView heap') := by
    refine ⟨_, j, holds.view, isLeast_free free fun k less => ⟨by omega, used k less⟩, rfl, ?_⟩
    rw [puts.view fun k low high => by omega, opened, if_neg real]
  rcases add_cases kmalloc inv.ok holds fd with
    ⟨j, heap', below, free, used, ret, puts⟩ | ⟨used, ret⟩
  · exact ⟨j, heap', ret, puts.inv inv holds (holds.ne_zero inv) (by omega), .inr (step puts
      (le_of_lt below) (openTable_eq_none_iff.mpr fun _ => free) used)⟩
  -- all slots below the end are used
  rw [ret]
  obtain ⟨j, size⟩ := Int.eq_ofNat_of_zero_le (holds.table inv.ok).nonneg
  rcases push_cases kernel.sound inv.ok holds fd with
    ⟨large, -⟩ | ⟨full, refused, pushed⟩ | ⟨heap', n, pushed, answer, puts⟩
  · omega
  · exact ⟨_, heap, pushed, inv, .inl ⟨⟨v, holds.vector, full, refused⟩, rfl⟩⟩
  have limit' : 20 * (v.vectorMaxsize + (n : Int)) ≤ 0x1000000 := by
    rcases answer with zero | ⟨twice, -, granted⟩
    · omega
    obtain ⟨address, granted⟩ := ne_none_iff_exists'.mp granted
    have lt := kernel.limit _ _ _ granted
    omega
  rw [size] at pushed
  rw [size, Int.toNat_natCast] at puts
  exact ⟨j, heap', pushed, puts.inv inv holds (holds.ne_zero inv) limit', .inr (step puts
    (by omega) (openTable_eq_none_iff.mpr fun below => by omega)
    fun k less => used k (by omega))⟩

theorem copy_refines (kernel : KernelHeap kmalloc) (inv : Inv heap)
    (holds : Holds heap vec v slots) :
    ∃ (new : Nat) (heap' : Heap), vectorCopy kmalloc vec heap = .ok (new, heap') ∧ Inv heap' ∧
      (CopyRefused kmalloc heap v ∧ heap' = heap ∨ heapView heap new = none ∧
          heapView heap' = update (heapView heap) new (some (openTable v slots))) := by
  have table := holds.table inv.ok
  have limit := inv.limit vec v holds.vector
  rcases copy_cases kernel.sound inv.ok holds with
    ⟨large, -⟩ | ⟨refused, ret⟩ | ⟨new, buffer, heap', ret, first, -, replaces⟩
  · omega
  · exact ⟨0, heap, ret, inv, .inl ⟨refused, rfl⟩⟩
  have ne : new ≠ 0 := by
    rintro rfl
    exact kernel.nonnull _ _ first
  refine ⟨new, heap', ret, replaces.inv inv
    ⟨table.allocated, table.nonneg, table.within, table.pos⟩ ne limit, .inr ⟨?_, ?_⟩⟩
  · unfold heapView
    rw [lookup_eq_none.mpr (kernel.sound _ _ _ first).1, bind_none]
  · exact replaces.view

/-! ## Runs -/

namespace TableOp

def run (kmalloc : Kmalloc) (heap : Heap) : TableOp → Except Fault (Int × Heap)
  | register fds node flags mode lockIndex =>
    registerFiledescriptor kmalloc fds node flags mode lockIndex heap
  | add vec fd => vectorAdd kmalloc vec fd heap
  | clear vec fd => vectorClear vec fd heap
  | copy cp => do
    let (vec, heap) ← vectorCopy kmalloc cp heap
    return ((vec : Int), heap)

/-- The table exists, nodes are not null, and a number to be cleared is below the end
of the table. -/
def Legal (heap : Heap) : TableOp → Prop
  | register fds node _ _ _ => fds ∈ heap.vectors ∧ node ≠ 0
  | add vec fd => vec ∈ heap.vectors ∧ fd.node ≠ 0
  | clear vec fd => ∃ v, heap.vectors.lookup vec = some v ∧ 0 ≤ fd ∧ fd < v.vectorSize
  | copy cp => cp ∈ heap.vectors

/-- `kmalloc` refuses a request of the operation. -/
def Refused (kmalloc : Kmalloc) (heap : Heap) : TableOp → Prop
  | register fds _ _ _ _ => AddRefused kmalloc heap fds
  | add vec _ => AddRefused kmalloc heap vec
  | clear _ _ => False
  | copy cp => ∃ v, heap.vectors.lookup cp = some v ∧ CopyRefused kmalloc heap v

end TableOp

/-- The states that operations lead to from the first table on. -/
inductive Reached (kmalloc : Kmalloc) : Heap → Prop where
  | create : Reached kmalloc (vectorCreate kmalloc emptyHeap).2
  | step {heap heap' : Heap} {op : TableOp} {r : Int} (before : Reached kmalloc heap)
      (legal : op.Legal heap) (result : op.run kmalloc heap = .ok (r, heap')) : Reached
        kmalloc heap'

theorem Inv.holds (inv : Inv heap) (mem : vec ∈ heap.vectors) :
    ∃ v slots, Holds heap vec v slots := by
  obtain ⟨v, found⟩ := mem_iff.mp mem
  obtain ⟨slots, holds, -⟩ := inv.ok.table vec v found
  exact ⟨v, slots, holds⟩

theorem TableOp.run_refines (kernel : KernelHeap kmalloc) (inv : Inv heap) {op : TableOp}
    (legal : op.Legal heap) :
    ∃ r heap', op.run kmalloc heap = .ok (r, heap') ∧ Inv heap' ∧
      (op.Refused kmalloc heap ∧ heap' = heap ∨
        SpecStep (heapView heap) op r (heapView heap')) := by
  cases op with
  | register fds node flags mode lockIndex =>
    obtain ⟨v, slots, holds⟩ := inv.holds legal.1
    exact add_refines kernel inv holds legal.2
  | add vec fd =>
    obtain ⟨v, slots, holds⟩ := inv.holds legal.1
    exact add_refines kernel inv holds legal.2
  | clear vec fd =>
    obtain ⟨v, found, nonneg, below⟩ := legal
    obtain ⟨slots, holds, -⟩ := inv.ok.table vec v found
    obtain ⟨heap', ret, inv', map⟩ : ∃ heap', vectorClear vec fd heap = .ok (0, heap') ∧ Inv
        heap' ∧ heapView heap' = update (heapView heap) vec (some (update (openTable v slots)
        fd.toNat none)) := by
      have table := holds.table inv.ok
      have allocated := table.allocated
      have le := table.within
      have limit := inv.limit vec v holds.vector
      obtain ⟨i, rfl⟩ := Int.eq_ofNat_of_zero_le nonneg
      have lt : i < slots.length := by omega
      obtain ⟨heap', ret, replaces⟩ := clear_spec inv.ok holds (getElem?_eq_getElem lt)
      have puts := replaces.puts lt (by omega)
      refine ⟨heap', ret, puts.inv inv holds (holds.ne_zero inv) (by omega), ?_⟩
      exact puts.view fun k low high => by omega
    exact ⟨0, heap', ret, inv', .inr ⟨_, holds.view, rfl, map⟩⟩
  | copy cp =>
    obtain ⟨v, slots, holds⟩ := inv.holds legal
    obtain ⟨new, heap', ret, inv', outcome⟩ := copy_refines kernel inv holds
    refine ⟨new, heap', ?_, inv', ?_⟩
    · simp only [run, ret]
      rfl
    rcases outcome with ⟨refused, same⟩ | ⟨fresh, map⟩
    · exact .inl ⟨⟨v, holds.vector, refused⟩, same⟩
    · exact .inr ⟨_, new, holds.view, fresh, rfl, map⟩

theorem Reached.inv (kernel : KernelHeap kmalloc) (reached : Reached kmalloc heap) : Inv heap := by
  induction reached with
  | create =>
      have empty : Inv emptyHeap := ⟨emptyHeap_ok, notMem_empty, fun vec v found => by cases found⟩
      rcases create_cases kmalloc with ⟨-, ret⟩ | ⟨vec, buffer, heap, ret, first, replaces⟩
      · rw [ret]
        exact empty
      rw [ret]
      have ne : vec ≠ 0 := by
        rintro rfl
        exact kernel.nonnull _ _ first
      exact replaces.inv empty
        ⟨rfl, le_refl 0, (by decide : (0 : Int) ≤ 8), (by decide : (0 : Int) < 8)⟩ ne
        (by decide : 20 * (8 : Int) ≤ 0x1000000)
  | step lt legal ret ih =>
    obtain ⟨r, heap', run, inv, -⟩ := TableOp.run_refines kernel ih legal
    cases run.symm.trans ret
    exact inv

/-- Dereferencing what `vector_get` returns. -/
def fetch (vec : Nat) (fd : Int) (heap : Heap) : Except Fault (Option FileDescriptor) := do
  match ← vectorGet vec fd heap with
  | none => return none
  | some (buffer, i) =>
    let slots ← heap.getBuffer buffer
    let slot ← readSlot slots i
    return some slot

theorem fetch_spec (inv : Inv heap) {t : Table} (found : heapView heap vec = some t) (i : Nat) :
    (∀ fd, t i = some fd → fetch vec i heap = .ok (some fd)) ∧
      (t i = none → fetch vec i heap = .ok none ∨
        ∃ fd, fetch vec i heap = .ok (some fd) ∧ fd.node = 0) := by
  obtain ⟨v, vector, array⟩ := bind_eq_some_iff.mp found
  obtain ⟨slots, buffer, rfl⟩ := map_eq_some_iff.mp array
  have holds : Holds heap vec v slots := ⟨vector, buffer⟩
  have table := holds.table inv.ok
  have allocated := table.allocated
  have le := table.within
  unfold fetch vectorGet openTable
  simp only [if_pos (holds.ne_zero inv), holds.getVector, bind, Except.bind, pure, Except.pure]
  by_cases below : (i : Int) < v.vectorSize
  · have lt : i < slots.length := by omega
    simp only [if_pos below, holds.getBuffer, readSlot_eq (getElem?_eq_getElem lt),
      getElem?_eq_getElem lt, filter_some]
    constructor
    · intro fd same
      split at same
      · rw [some.inj same]
      · cases same
    · intro closed
      right
      refine ⟨slots[i], rfl, ?_⟩
      by_contra used
      rw [if_pos (decide_eq_true used)] at closed
      cases closed
  · simp only [if_neg below]
    constructor
    · intro fd same
      cases same
    · intro _
      exact .inl trivial

/-- From any state that operations lead to, an operation whose memory is granted does what the
abstract tables do, and then `vector_get` yields what the tables hold. -/
theorem descriptorTable_refines (kernel : KernelHeap kmalloc) (reached : Reached kmalloc heap)
    {op : TableOp} (legal : op.Legal heap) (granted : ¬ op.Refused kmalloc heap) :
    ∃ r heap', op.run kmalloc heap = .ok (r, heap') ∧
      SpecStep (heapView heap) op r (heapView heap') ∧
      ∀ vec t, heapView heap' vec = some t → ∀ i : Nat,
        (∀ fd, t i = some fd → fetch vec i heap' = .ok (some fd)) ∧
          (t i = none → fetch vec i heap' = .ok none ∨
            ∃ fd, fetch vec i heap' = .ok (some fd) ∧ fd.node = 0) := by
  obtain ⟨r, heap', ret, inv, outcome⟩ := TableOp.run_refines kernel (reached.inv kernel) legal
  refine ⟨r, heap', ret, ?_, fun vec t found i => fetch_spec inv found i⟩
  exact outcome.resolve_left fun refused => granted refused.1

/-- The address behind all addresses in use, if the request is not too large. -/
def boundedAddress : Kmalloc :=
  fun size heap => if size ≤ 0x1000000 then nextAddress size heap else none

theorem boundedAddress_kernelHeap : KernelHeap boundedAddress where
  sound := by
    intro size heap address ret
    unfold boundedAddress at ret
    split at ret
    · exact nextAddress_grants.sound size heap address ret
    · cases ret
  nonnull := by
    intro size heap ret
    unfold boundedAddress nextAddress at ret
    split at ret
    · cases ret
    · cases ret
  limit := by
    intro size heap address ret
    unfold boundedAddress at ret
    split at ret
    · next lt => exact lt
    · cases ret

/-- The first table. -/
def firstTable : Heap := (vectorCreate boundedAddress emptyHeap).2

theorem descriptorTable_first : ∃ r heap', (TableOp.add 1 sampleFd).run boundedAddress
        firstTable = .ok (r, heap') ∧
      SpecStep (heapView firstTable) (.add 1 sampleFd) r
        (heapView heap') := by
  have legal : (TableOp.add 1 sampleFd).Legal firstTable :=
    ⟨by decide, by decide⟩
  have granted : ¬ (TableOp.add 1 sampleFd).Refused boundedAddress
      firstTable := by
    rintro ⟨v, found, full, -⟩
    obtain rfl := some.inj found
    exact absurd full (by decide)
  obtain ⟨r, heap', ret, step, -⟩ :=
    descriptorTable_refines boundedAddress_kernelHeap .create legal granted
  exact ⟨r, heap', ret, step⟩

variable {vec fds : Nat}

/-! ## Tables of a process -/

/-- The table of the current task. It is in order, not at null, and behind its end no slot is in
use. -/
structure DescriptorTable (heap : Heap) (fds : Nat) (v : VectorT) (slots : List FileDescriptor) :
    Prop where
  ok : heap.Ok
  holds : Holds heap fds v slots
  nonnull : fds ≠ 0
  behind : ∀ i : Nat, v.vectorSize ≤ i → ¬ OpenSlot slots i

/-- Behind the end of every table no slot is in use. -/
def Heap.Quiet (heap : Heap) : Prop :=
  ∀ vec v slots, Holds heap vec v slots → ∀ i : Nat, v.vectorSize ≤ i → ¬ OpenSlot slots i

theorem Replaces.quiet (quiet : heap.Quiet) (replaces : Replaces heap heap' vec v slots)
    (behind : ∀ i : Nat, v.vectorSize ≤ i → ¬ OpenSlot slots i) : heap'.Quiet := by
  intro ne w array holds
  by_cases same : ne = vec
  · subst same
    obtain rfl := mem_unique replaces.holds.vector holds.vector
    obtain rfl := mem_unique replaces.holds.buffer holds.buffer
    exact behind
  · have found := (replaces.others ne same).symm.trans holds.vector
    have frame := (replaces.apart ne w same found).2
    exact quiet ne w array ⟨found, frame.symm.trans holds.buffer⟩

variable {i : Nat} {slot : FileDescriptor}

theorem OpenSlot.of_set {j : Nat} (ne : i ≠ j) (isOpen : OpenSlot (slots.set i slot) j) :
    OpenSlot slots j := by
  obtain ⟨found, mem, used⟩ := isOpen
  rw [getElem?_set_ne ne] at mem
  exact ⟨found, mem, used⟩

variable {n : Nat}

theorem OpenSlot.of_grown (isOpen : OpenSlot (grown slots n) i) : OpenSlot slots i := by
  obtain ⟨slot, mem, used⟩ := isOpen
  have kept := getElem?_grown_filter slots n i
  rw [mem, filter_some, if_pos (decide_eq_true used)] at kept
  obtain ⟨found, -⟩ := filter_eq_some_iff.mp kept.symm
  exact ⟨slot, found, used⟩

theorem openTable_eq_some (isOpen : openTable v slots i = some slot) :
    (i : Int) < v.vectorSize ∧ slots[i]? = some slot ∧ slot.node ≠ 0 := by
  unfold openTable at isOpen
  split at isOpen
  · next lt =>
      obtain ⟨found, used⟩ := filter_eq_some_iff.mp isOpen
      exact ⟨lt, found, of_decide_eq_true used⟩
  · cases isOpen

/-- Opening a descriptor and closing it again restores the tables of all processes. -/
theorem open_close_restores (kernel : KernelHeap kmalloc) (reached : Reached kmalloc heap)
    {fds node : Nat} (exist : fds ∈ heap.vectors) (nonnull : node ≠ 0)
    (flags mode lockIndex : UInt32) (granted : ¬ AddRefused kmalloc heap fds) :
    ∃ r heap' heap'', registerFiledescriptor kmalloc fds node flags mode lockIndex heap =
        .ok (r, heap') ∧ vectorClear fds r heap' = .ok (0, heap'') ∧
      heapView heap'' = heapView heap := by
  have legal : (TableOp.register fds node flags mode lockIndex).Legal heap := ⟨exist, nonnull⟩
  obtain ⟨_, heap', registered, inv, outcome⟩ :=
    TableOp.run_refines kernel (reached.inv kernel) legal
  obtain ⟨t, i, before, ⟨free, -⟩, rfl, after⟩ := outcome.resolve_left fun ref => granted ref.1
  have opened := congrFun after fds
  rw [update_self] at opened
  obtain ⟨v, vector, array⟩ := bind_eq_some_iff.mp opened
  obtain ⟨slots, -, table⟩ := map_eq_some_iff.mp array
  -- the number that was handed out is below the end of the table
  obtain ⟨below, -⟩ := openTable_eq_some ((congrFun table i).trans (update_self ..))
  have closable : (TableOp.clear fds i).Legal heap' := ⟨v, vector, by omega, below⟩
  obtain ⟨_, heap'', cleared, -, outcome⟩ := TableOp.run_refines kernel inv closable
  obtain ⟨t', found, rfl, restored⟩ := outcome.resolve_left fun ref => ref.1
  cases opened.symm.trans found
  refine ⟨i, heap', heap'', registered, cleared, ?_⟩
  have closed : t i = none := free
  rw [restored, after, Int.toNat_natCast, update_idem, update_idem, ← closed, update_eq_self,
    ← before, update_eq_self]

theorem open_close_restores_first : ∃ r heap' heap'',
    registerFiledescriptor boundedAddress 1 1 0 0 0 firstTable =
        .ok (r, heap') ∧ vectorClear 1 r heap' = .ok (0, heap'') ∧
      heapView heap'' = heapView firstTable := by
  have exist : 1 ∈ firstTable.vectors := by decide
  have granted : ¬ AddRefused boundedAddress firstTable 1 := by
    rintro ⟨v, found, full, -⟩
    cases found
    exact absurd full (by decide)
  exact open_close_restores boundedAddress_kernelHeap .create exist Nat.one_ne_zero 0 0 0 granted

/-- The table of the task is the map `t` afterwards, and nothing else changes. -/
def Becomes (heap heap' : Heap) (fds : Nat) (t : Table) : Prop :=
  ∃ v slots, DescriptorTable heap' fds v slots ∧ Replaces heap heap' fds v slots ∧
    openTable v slots = t

theorem Becomes.view {t : Table} (becomes : Becomes heap heap' fds t) :
    heapView heap' = update (heapView heap) fds (some t) := by
  obtain ⟨v, slots, -, replaces, rfl⟩ := becomes
  exact replaces.view

theorem Becomes.trans {t t' : Table} {heap'' : Heap} (first : Becomes heap heap' fds t)
    (second : Becomes heap' heap'' fds t') : Becomes heap heap'' fds t' := by
  obtain ⟨v, slots, -, replaces, -⟩ := first
  obtain ⟨v', slots', table, again, same⟩ := second
  exact ⟨v', slots', table, replaces.trans again, same⟩

theorem DescriptorTable.puts (table : DescriptorTable heap fds v slots) {fd : FileDescriptor}
    (puts : Puts heap heap' fds v slots n i fd) :
    Becomes heap heap' fds (update (openTable v slots) i (opened fd)) := by
  obtain ⟨buffer, replaces⟩ := puts.replaces
  have map := congrFun (replaces.view.symm.trans (puts.view fun k low _ => table.behind k low)) fds
  rw [update_self, update_self] at map
  have shape := (table.holds.table table.ok).put puts.inside buffer fd
  refine ⟨_, _, ⟨replaces.ok table.ok shape, replaces.holds, table.nonnull, ?_⟩, replaces,
    some.inj map⟩
  intro j high isOpen
  simp only at high
  exact table.behind j (by omega) (isOpen.of_set (by omega)).of_grown

theorem set_fits (sound : Sound kmalloc) (table : DescriptorTable heap fds v slots)
    (fits : Fits kmalloc heap v i) (obj : FileDescriptor) :
    ∃ heap', vectorSet kmalloc fds obj i heap = .ok ((i : Int), heap') ∧
      Becomes heap heap' fds (update (openTable v slots) i (opened obj)) := by
  rcases set_cases sound table.ok table.holds i obj with ⟨heap', n, -, set, puts⟩ | ⟨misfit, -⟩
  · exact ⟨heap', set, table.puts puts⟩
  · exact absurd fits misfit

theorem set_faults (sound : Sound kmalloc) (ok : heap.Ok) (holds : Holds heap vec v slots)
    (misfit : ¬ Fits kmalloc heap v i) (obj : FileDescriptor) :
    ∃ fault, vectorSet kmalloc vec obj i heap = .error fault := by
  rcases set_cases sound ok holds i obj with
    ⟨heap', n, fits, -⟩ | ⟨-, ⟨-, ret⟩ | ⟨-, ret⟩⟩
  · exact absurd fits misfit
  · exact ⟨_, ret⟩
  · exact ⟨_, ret⟩

theorem set_negative (holds : Holds heap vec v slots) (table : TableOk v slots) {fd : Int}
    (negative : fd < 0) (obj : FileDescriptor) :
    vectorSet kmalloc vec obj fd heap = .error .outOfBounds := by
  have pos := table.pos
  unfold vectorSet setSlot writeSlot
  simp only [holds.getVector, holds.getBuffer, bind, Except.bind]
  rw [if_neg (by omega), if_neg (by omega)]

/-! ## `dup2_filedescriptor` -/

variable {old new : Nat} {obj : FileDescriptor}

namespace DescriptorTable

theorem get (table : DescriptorTable heap fds v slots) (i : Nat) : getFiledescriptor fds i heap =
      .ok (if (i : Int) < v.vectorSize then some (v.vectorBuffer, (i : Int)) else none) := by
  unfold getFiledescriptor vectorGet
  simp only [if_neg (not_lt.mpr (Int.natCast_nonneg i)), if_pos table.nonnull,
    table.holds.getVector, bind, Except.bind]
  split <;> rfl

theorem close (table : DescriptorTable heap fds v slots) (below : (i : Int) < v.vectorSize)
    (found : slots[i]? = some slot) :
    ∃ heap', closeFiledescriptor fds i heap = .ok (0, heap') ∧
      Replaces heap heap' fds v (slots.set i { slot with node := 0 }) := by
  obtain ⟨heap', cleared, replaces⟩ := clear_spec table.ok table.holds found
  refine ⟨heap', ?_, replaces⟩
  unfold closeFiledescriptor
  simp only [table.get i, if_pos below, cleared, bind, Except.bind]
  rfl

theorem slotAt_eq (holds : Holds heap fds v slots) (found : slots[i]? = some slot) :
    slotAt (v.vectorBuffer, (i : Int)) heap = .ok slot := by
  unfold slotAt
  simp only [holds.getBuffer, bind, Except.bind]
  exact readSlot_eq found

theorem dup2_eq (table : DescriptorTable heap fds v slots)
    (isOpen : openTable v slots old = some obj) (new : Int) :
    dup2Filedescriptor kmalloc fds old new heap = if 0 ≤ new ∧ new < v.vectorSize then do
        let (_, heap) ← closeFiledescriptor fds new heap
        setDuplicate kmalloc fds (v.vectorBuffer, (old : Int)) new heap
      else vectorSet kmalloc fds obj new heap := by
  obtain ⟨lt, found, used⟩ := openTable_eq_some isOpen
  have read := slotAt_eq table.holds found
  have set : setDuplicate kmalloc fds (v.vectorBuffer, (old : Int)) new heap =
      vectorSet kmalloc fds obj new heap := by
    unfold setDuplicate
    simp only [read, bind, Except.bind]
  unfold dup2Filedescriptor
  simp only [table.get old, if_pos lt, read, if_neg used, bind, Except.bind]
  by_cases negative : new < 0
  · rw [if_neg (by omega)]
    unfold getFiledescriptor
    simp only [if_pos negative, set]
  obtain ⟨i, rfl⟩ := Int.eq_ofNat_of_zero_le (not_lt.mp negative)
  rw [table.get i]
  by_cases low : (i : Int) < v.vectorSize
  · simp only [if_pos low, if_pos (And.intro (Int.natCast_nonneg i) low)]
  · simp only [if_neg low, set, Int.natCast_nonneg, true_and]

theorem dup2_below (sound : Sound kmalloc) (table : DescriptorTable heap fds v slots)
    (isOpen : openTable v slots old = some obj) (low : (new : Int) < v.vectorSize) :
    ∃ heap', dup2Filedescriptor kmalloc fds old new heap = .ok ((new : Int), heap') ∧
      Becomes heap heap' fds
        (update (openTable v slots) new (if new = old then none else some obj)) := by
  have shape := table.holds.table table.ok
  have allocated := shape.allocated
  have le := shape.within
  obtain ⟨-, found, used⟩ := openTable_eq_some isOpen
  have lt : new < slots.length := by omega
  obtain ⟨closed, closes, cleared⟩ := table.close low (getElem?_eq_getElem lt)
  have gone := table.puts (cleared.puts lt (by omega))
  -- what the old descriptor holds once the target is closed
  have read : ∃ slot, (slots.set new { slots[new] with node := 0 })[old]? = some slot ∧
      opened slot = if new = old then none else some obj := by
    by_cases same : new = old
    · subst same
      exact ⟨_, getElem?_set_self lt, by simp [opened]⟩
    · exact ⟨obj, by rw [getElem?_set_ne same, found], by rw [opened, if_neg used, if_neg same]⟩
  obtain ⟨slot, found, copied⟩ := read
  have closedTable : DescriptorTable closed fds v (slots.set new { slots[new] with node := 0 }) :=
    ⟨cleared.ok table.ok ⟨by rw [length_set]; exact allocated, shape.nonneg, le,
      shape.pos⟩, cleared.holds, table.nonnull,
      fun j high isOpen => table.behind j high (isOpen.of_set (by omega))⟩
  have fits : Fits kmalloc closed v new := .inl (by omega)
  obtain ⟨heap', set, writes⟩ := set_fits sound closedTable fits slot
  have map : openTable v (slots.set new { slots[new] with node := 0 }) =
      update (openTable v slots) new none := by
    have views := closedTable.holds.view
    rw [gone.view, update_self] at views
    exact (some.inj views).symm
  refine ⟨heap', ?_, ?_⟩
  · rw [table.dup2_eq isOpen, if_pos ⟨Int.natCast_nonneg new, low⟩, closes]
    unfold setDuplicate
    simp only [bind, Except.bind, slotAt_eq cleared.holds found]
    exact set
  · rw [map, update_idem, copied] at writes
    exact gone.trans writes

theorem dup2_behind (sound : Sound kmalloc) (table : DescriptorTable heap fds v slots)
    (isOpen : openTable v slots old = some obj) (high : v.vectorSize ≤ (new : Int))
    (fits : Fits kmalloc heap v new) :
    ∃ heap', dup2Filedescriptor kmalloc fds old new heap = .ok ((new : Int), heap') ∧
      Becomes heap heap' fds (update (openTable v slots) new (some obj)) := by
  obtain ⟨-, -, used⟩ := openTable_eq_some isOpen
  obtain ⟨heap', set, writes⟩ := set_fits sound table fits obj
  rw [opened, if_neg used] at writes
  refine ⟨heap', ?_, writes⟩
  rw [table.dup2_eq isOpen, if_neg (by omega), set]

end DescriptorTable

/-- A negative target is refused.  Any other target becomes a copy of the source, in the
table of the task, and nothing else changes. -/
def Duplicates (kmalloc : Kmalloc) (fds old : Nat) (new : Int) (heap : Heap) : Prop :=
  if new < 0 then dup2Filedescriptor kmalloc fds old new heap = .ok (-1, heap)
  else ∃ heap', dup2Filedescriptor kmalloc fds old new heap = .ok (new, heap') ∧
    heapView heap' = update (heapView heap) fds
      ((heapView heap fds).map fun t => update t new.toNat (t old))

/-- The source is open.  `dup2_filedescriptor` does what it is for exactly if the target is
not negative, is not the source, and fits into the table. -/
theorem dup2_duplicates_iff (sound : Sound kmalloc) (table : DescriptorTable heap fds v slots)
    {old : Nat} {obj : FileDescriptor} (isOpen : openTable v slots old = some obj) (new : Int) :
    Duplicates kmalloc fds old new heap ↔ 0 ≤ new ∧ new ≠ old ∧ Fits kmalloc heap v new := by
  obtain ⟨lt, -, -⟩ := openTable_eq_some isOpen
  have shape := table.holds.table table.ok
  have le := shape.within
  unfold Duplicates
  by_cases negative : new < 0
  · rw [if_pos negative, table.dup2_eq isOpen, if_neg (by omega),
      set_negative table.holds shape negative]
    constructor
    · intro refused
      cases refused
    · rintro ⟨nonneg, -⟩
      omega
  obtain ⟨i, rfl⟩ := Int.eq_ofNat_of_zero_le (not_lt.mp negative)
  rw [Int.toNat_natCast, table.holds.view, map_some, isOpen]
  by_cases low : (i : Int) < v.vectorSize
  · obtain ⟨heap', ret, becomes⟩ := table.dup2_below sound isOpen low
    have view := becomes.view
    rw [ret]
    constructor
    · rintro ⟨other, same, kept⟩
      cases same
      refine ⟨Int.natCast_nonneg i, ?_, .inl (by omega)⟩
      intro same
      rw [view, if_pos (Int.ofNat.inj same)] at kept
      have tables := congrFun kept fds
      rw [update_self, update_self] at tables
      have entry := congrFun (some.inj tables) i
      rw [update_self, update_self] at entry
      cases entry
    · rintro ⟨-, ne, -⟩
      rw [if_neg fun same => ne (by rw [same])] at view
      exact ⟨heap', rfl, view⟩
  · have high := not_lt.mp low
    constructor
    · rintro ⟨heap', ret, -⟩
      refine ⟨Int.natCast_nonneg i, by omega, ?_⟩
      by_contra misfit
      obtain ⟨fault, faults⟩ := set_faults sound table.ok table.holds misfit obj
      rw [table.dup2_eq isOpen, if_neg (by omega), faults] at ret
      cases ret
    · rintro ⟨-, -, fits⟩
      obtain ⟨heap', ret, becomes⟩ := table.dup2_behind sound isOpen high fits
      exact ⟨heap', ret, becomes.view⟩

def oneOpen : Heap :=
  (emptyHeap.setBuffer 2 (sampleFd :: List.replicate 7 FileDescriptor.zero)).setVector 1
    ⟨2, 1, 8⟩

theorem oneOpen_replaces : Replaces emptyHeap oneOpen 1 ⟨2, 1, 8⟩
      (sampleFd :: List.replicate 7 FileDescriptor.zero) :=
  emptyHeap_ok.create ⟨notMem_empty, notMem_empty⟩ ..

theorem oneOpen_table : DescriptorTable oneOpen 1 ⟨2, 1, 8⟩
      (sampleFd :: List.replicate 7 FileDescriptor.zero) where
  ok := oneOpen_replaces.ok emptyHeap_ok
    ⟨rfl, (by decide : (0 : Int) ≤ 1), (by decide : (1 : Int) ≤ 8), (by decide : (0 : Int) < 8)⟩
  holds := oneOpen_replaces.holds
  nonnull := by decide
  behind := by
    rintro i high ⟨slot, found, used⟩
    cases i with
    | zero => exact absurd high (by decide)
    | succ i =>
      rw [getElem?_cons_succ] at found
      rw [eq_of_mem_replicate (mem_of_getElem? found)] at used
      exact used rfl

theorem dup2_nine : Duplicates nextAddress 1 0 9 oneOpen :=
  (dup2_duplicates_iff nextAddress_grants.sound oneOpen_table rfl 9).mpr
    ⟨by decide, by decide, .inr ⟨by decide, by decide, nextAddress_grants.not_none _ _⟩⟩

/-- Duplicated to itself, the descriptor is closed. A negative target, and target 8 in a table of
eight, are written outside the array. -/
theorem dup2_closes : Sound nextAddress ∧
      (heapView oneOpen 1).map (fun t => t 0) = some (some sampleFd) ∧
      (∃ heap', dup2Filedescriptor nextAddress 1 0 0 oneOpen = .ok (0, heap') ∧
        (heapView heap' 1).map (fun t => t 0) = some none) ∧
      dup2Filedescriptor nextAddress 1 0 (-1) oneOpen = .error .outOfBounds ∧
      dup2Filedescriptor nextAddress 1 0 8 oneOpen = .error .outOfBounds :=
  ⟨nextAddress_grants.sound, rfl, ⟨_, rfl, rfl⟩, rfl, rfl⟩

end Yanix.Ds
