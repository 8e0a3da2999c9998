/-
Module: Yanix.Mm.StackHeaps
Purpose: `stack_alloc` and `stack_free` of `kernel/yanix/stack/stack.c`, and which heap the page
  fault handler of `kernel/mm/fault.c` finds for an address of a stack.
Trusted boundary: hand-translated from C.  A task is known by the address of its `stack_heap` and
  has the other fields the handler reads.  The faults of a stack heap on its own nodes are left
  out.  `error_message` does not return
-/
import Yanix.Proofs.Mapping
import Yanix.Proofs.HeapCalls

namespace Yanix.Mm

open Foundation Function

variable {kheap : Kheap} {addr errCode : Nat} {s : Paging} {task : Nat} {heap : Kheap}
  {Q : Nat → Prop}
variable {kernel : Bool} {h h' : Heap} {node : Nat}

def kernelStackSize : Nat := 0x5000

def userStackSize : Nat := 0x4000

def stackSize (kernel : Bool) : Nat := if kernel then kernelStackSize else userStackSize

/-- `heap` is the heap passed in, or the kernel's or the current task's stack heap for
a null pointer.  Neither a null block nor the result of `initialize_mem` is looked at. -/
def stackAlloc (kheap : Kheap) (kernel : Bool) (heap : Heap) (s : Paging) :
    Option (Heap × Paging × Nat) := do
  let sz := stackSize kernel
  let (heap, memory) ← kmallocGenBase sz heap true
  let addr := add32 memory sz
  let (s, _) ← initializeMem kheap addr sz (!kernel) 0 s
  some (heap, s, add32 addr sz)

def stackFree (kernel : Bool) (top : Nat) (heap : Heap) : Option (Heap × Int) :=
  kfreeGen (sub32 top (stackSize kernel)) heap

/-! ## The stack heaps of the tasks -/

def kernelStackheapStart : Nat := 0x1000000

def kernelStackheapMaxsize : Nat := 0x400000

def userStackheapStart : Nat := 0x1400000

def userStackheapMaxsize : Nat := 0x400000

/-- All heaps, the tasks with the fields the fault handler reads, and the running
one. -/
structure Tasks where
  heaps : Heaps
  ring : Nat → Nat
  programStart : Nat → Nat
  programBreak : Nat → Nat
  tasks : List Nat
  gRunningtask : Nat

def setupStackHeap (ptr : Nat) (um : Bool) (s : Heaps) : Option Heaps :=
  createHeap ptr userStackheapStart userStackheapMaxsize um s

/-- Its loops that back the first stack with frames are left out. -/
def initMainStack (heap : Nat) (s : Heaps) : Option Heaps :=
  createHeap heap kernelStackheapStart kernelStackheapMaxsize false s

/-- The record is cleared before its fields are set. -/
def initTasking (mainloop : Nat) (t : Tasks) : Option Tasks := do
  let heaps ← setupStackHeap mainloop false t.heaps
  some { t with
      heaps := heaps
      ring := update t.ring mainloop 0
      programStart := update t.programStart mainloop 0
      programBreak := update t.programBreak mainloop 0
      tasks := [mainloop]
      gRunningtask := mainloop }

/-- The heaps in the order the kernel creates them; `t` is the memory before. -/
def boot (stackheap kheap uheap mainloop : Nat) (t : Tasks) : Option Tasks := do
  let heaps ← initMainStack stackheap { t.heaps with heaplist := 0 }
  let heaps ← initKheap kheap heaps
  let heaps ← initUheap uheap heaps
  initTasking mainloop { t with heaps := heaps }

namespace Tasks

def createTask (newTask : Nat) (kernelTask : Bool) (t : Tasks) : Option Tasks := do
  let ring := if kernelTask then 0 else 3
  let heaps ← setupStackHeap newTask (!kernelTask) t.heaps
  some { t with heaps := heaps, ring := update t.ring newTask ring }

/-- `memcpy(new_task, parent_task, sizeof(task_t))`, for the fields that `create_task` does not set.
-/
def copyTask (newTask parentTask : Nat) (t : Tasks) : Tasks := { t with
    programStart := update t.programStart newTask (t.programStart parentTask)
    programBreak := update t.programBreak newTask (t.programBreak parentTask) }

/-- `newTask` is what `kmalloc` returns. -/
def fork (newTask : Nat) (t : Tasks) : Option Tasks := do
  let parentTask := t.gRunningtask
  let t ← createTask newTask (decide (t.ring parentTask = 0)) (copyTask newTask parentTask t)
  some { t with tasks := t.tasks ++ [newTask] }

/-- The new stack itself is the business of `stackAlloc`. -/
def setUserStack (t : Tasks) : Tasks := { t with heaps := heapSetusermode t.gRunningtask t.heaps }

def jumpUserspace (t : Tasks) : Tasks := { t with ring := update t.ring t.gRunningtask 3 }

def switchTask (next : Nat) (t : Tasks) : Tasks := { t with gRunningtask := next }

end Tasks

namespace Fault

/-- The result of `alloc_frame` is not looked at. -/
def zeroPage (kheap : Kheap) (addr pdir user : Nat) (s : Paging) : Option Paging := do
  let (s, _) ← onPage kheap pdir
    (fun page frames => allocFrame page (decide (user = 0)) (decide (user ≠ 0)) frames) addr s
  some s

/-- The range of the running program; the end is inside. -/
def DemandZeroed (t : Tasks) (addr : Nat) : Prop :=
  t.programStart t.gRunningtask ≤ addr ∧ addr ≤ t.programBreak t.gRunningtask

instance : Decidable (DemandZeroed t addr) := inferInstanceAs (Decidable (_ ∧ _))

/-- `usermode` is 0 or 1 as a number. -/
def pageFault (kheap : Kheap) (t : Tasks) (faultingAddress errCode : Nat) (s : Paging) :
    Option Paging := do
  let notPresent := decide (errCode &&& 0x1 = 0)
  let curtask := t.gRunningtask
  let heap ← isAddrInHeap faultingAddress t.heaps
  if notPresent then
    if heap ≠ 0 then
      zeroPage kheap faultingAddress s.gCurrentDirectory (t.heaps.usermode heap).toNat s
    else if DemandZeroed t faultingAddress then
      zeroPage kheap faultingAddress s.gCurrentDirectory (t.ring curtask) s
    else
      none
  else
    none

/-- A fault in the range of the program and in no heap is answered with a page. -/
theorem pageFault_demandZeroed {t : Tasks}
    (outside : isAddrInHeap addr t.heaps = some 0) (notPresent : errCode &&& 0x1 = 0)
    (zeroed : DemandZeroed t addr) :
    pageFault kheap t addr errCode s =
      zeroPage kheap addr s.gCurrentDirectory (t.ring t.gRunningtask) s := by
  unfold pageFault
  simp only [outside, Option.bind_eq_bind, Option.bind_some, notPresent, decide_true, if_true,
    ne_eq, not_true_eq_false, if_false, if_pos zeroed]

end Fault

open List Option

/-! ## The list of heaps -/

/-- `heaplist` runs through the heaps of the list. -/
structure Holds (s : Heaps) (list : List Nat) : Prop where
  head : s.heaplist = list.headD 0
  forward : Forward s.nextheap list 0
  nodup : list.Nodup
  notNull : 0 ∉ list
  small : ∀ heap ∈ list, heap < 2 ^ 32

namespace Holds

variable {s : Heaps} {list : List Nat} {heap : Nat}

theorem length_lt (holds : Holds s list) : list.length < addressSpace := by
  have nodup : (0 :: list).Nodup := nodup_cons.mpr ⟨holds.notNull, holds.nodup⟩
  have inside : (0 :: list) ⊆ List.range addressSpace := by
    intro x mem
    rw [mem_range]
    rcases mem_cons.mp mem with rfl | listed
    · decide
    · exact holds.small x listed
  have lt := (subperm_of_subset nodup inside).length_le
  rwa [length_range, length_cons] at lt

theorem listed_eq (holds : Holds s list) : s.listed = some list := by
  unfold Heaps.listed
  rw [holds.head]
  exact collect_eq holds.forward holds.notNull holds.length_lt

theorem isAddrInHeap_eq (holds : Holds s list) (addr : Nat) :
    isAddrInHeap addr s = some ((list.find? (s.contains addr)).getD 0) := by
  have head := holds.head
  have short := holds.length_lt
  unfold isAddrInHeap
  cases list with
  | nil =>
    have head : s.heaplist = 0 := head
    rw [if_pos head]
    rfl
  | cons x xs =>
    have head : s.heaplist = x := head
    have alive : x ≠ 0 := fun null => holds.notNull (null ▸ mem_cons_self)
    rw [head, if_neg alive]
    refine (scans_eq holds.forward ?_ ?_).1
    · exact fun null => holds.notNull (mem_cons_of_mem _ null)
    · exact Nat.lt_of_succ_lt short

theorem addHeap (holds : Holds s list) (fresh : heap ∉ list) (alive : heap ≠ 0)
    (lt : heap < 2 ^ 32) :
    ∃ s', Mm.addHeap heap s = some s' ∧ Holds s' (list ++ [heap]) ∧ s'.start = s.start ∧
      s'.maxsize = s.maxsize ∧ s'.usermode = s.usermode := by
  have nodup : (list ++ [heap]).Nodup := by
    rw [← concat_eq_append]
    exact List.Nodup.concat fresh holds.nodup
  have notNull : 0 ∉ list ++ [heap] := by
    simp only [mem_append, mem_singleton, not_or]
    exact ⟨holds.notNull, alive.symm⟩
  have bounded : ∀ x ∈ list ++ [heap], x < 2 ^ 32 := by
    intro x mem
    rcases mem_append.mp mem with old | new
    · exact holds.small x old
    · exact mem_singleton.mp new ▸ lt
  have kept (x : Nat) (mem : x ∈ list) : (s.setNextheap heap 0).nextheap x = s.nextheap x := by
    have ne : x ≠ heap := fun same => fresh (same ▸ mem)
    exact update_of_ne ne ..
  have forward : Forward (s.setNextheap heap 0).nextheap list 0 := holds.forward.congr kept
  have cleared : (s.setNextheap heap 0).nextheap heap = 0 := update_self ..
  have short := holds.length_lt
  have head := holds.head
  unfold Mm.addHeap
  cases list with
  | nil =>
    exact ⟨_, if_pos head, ⟨rfl, ⟨cleared, trivial⟩, nodup, notNull, bounded⟩, rfl, rfl, rfl⟩
  | cons x xs =>
    have alive : x ≠ 0 := fun null => holds.notNull (null ▸ mem_cons_self)
    have last : scanOrLast (s.setNextheap heap 0).nextheap 0 (fun _ => false) addressSpace x =
        some ((x :: xs).getLast (by simp)) := by
      have nobody : (x :: xs).find? (fun _ => false) = none := find?_eq_none.mpr (by simp)
      rw [(scans_eq forward (fun null => holds.notNull (mem_cons_of_mem _ null))
        (Nat.lt_of_succ_lt short)).2, nobody]
      rfl
    have mem := getLast_mem (l := x :: xs) (by simp)
    generalize found : (x :: xs).getLast (by simp) = tmp at last mem
    refine ⟨(s.setNextheap heap 0).setNextheap tmp heap, ?_, ?_, rfl, rfl, rfl⟩
    · simp only [show (s.setNextheap heap 0).heaplist = x from head, if_neg alive, last]
      rfl
    refine ⟨head, ?_, nodup, notNull, bounded⟩
    apply forward.concat holds.nodup
    · have ne : heap ≠ tmp := fun same => fresh (same ▸ mem)
      exact (update_of_ne ne ..).trans cleared
    intro y listed
    rw [getLast?_eq_some_getLast (by simp), found]
    by_cases same : tmp = y
    · rw [if_pos (congrArg some same), ← same]
      exact update_self ..
    · rw [if_neg (fun equal => same (some.inj equal))]
      exact update_of_ne (Ne.symm same) ..

theorem createHeap (holds : Holds s list) (fresh : heap ∉ list) (alive : heap ≠ 0)
    (lt : heap < 2 ^ 32) (start maxsize : Nat) (usermode : Bool) :
    ∃ s', Mm.createHeap heap start maxsize usermode s = some s' ∧ Holds s' (list ++ [heap]) ∧
      s'.start = update s.start heap start ∧
      s'.maxsize = update s.maxsize heap maxsize ∧
      s'.usermode = update s.usermode heap usermode := by
  have filled : Holds { s with
        start := update s.start heap start
        maxsize := update s.maxsize heap maxsize
        usermode := update s.usermode heap usermode } list :=
    ⟨holds.head, holds.forward, holds.nodup, holds.notNull, holds.small⟩
  exact filled.addHeap fresh alive lt

end Holds

/-! ## Runs of the tasks -/

/-- What happens to the stack heaps after the boot. `kmalloc` returns a record not on the list of
heaps. -/
inductive TaskStep : Tasks → Tasks → Prop where
  | fork {t t' : Tasks} {newTask : Nat} (alive : newTask ≠ 0) (small : newTask < 2 ^ 32)
      (fresh : ∀ list, t.heaps.listed = some list → newTask ∉ list)
      (call : t.fork newTask = some t') : TaskStep t t'
  | setUserStack (t : Tasks) : TaskStep t t.setUserStack
  | jumpUserspace (t : Tasks) : TaskStep t t.jumpUserspace
  | switchTask {t : Tasks} {next : Nat} (member : next ∈ t.tasks) : TaskStep t (t.switchTask next)

/-- The tasks at any time after a boot with these records for its four heaps. -/
structure Booted (stackheap kheap uheap mainloop : Nat) (t : Tasks) : Prop where
  distinct : [stackheap, kheap, uheap, mainloop].Nodup
  notNull : 0 ∉ [stackheap, kheap, uheap, mainloop]
  small : ∀ heap ∈ [stackheap, kheap, uheap, mainloop], heap < 2 ^ 32
  run : ∃ memory t₀, boot stackheap kheap uheap mainloop memory = some t₀ ∧
    Relation.ReflTransGen TaskStep t₀ t

/-- The heaps in the order of their creation: the kernel's, the first task's, the forked tasks'. -/
structure Registered (stackheap kheap uheap mainloop : Nat) (forks : List Nat) (t : Tasks) :
    Prop where
  holds : Holds t.heaps ([stackheap, kheap, uheap, mainloop] ++ forks)
  apart : ∀ heap ∈ [stackheap, kheap, uheap],
    t.heaps.start heap + t.heaps.maxsize heap ≤ userStackheapStart ∨
      userStackheapStart + userStackheapMaxsize ≤ t.heaps.start heap
  stack : ∀ task ∈ mainloop :: forks, t.heaps.start task = userStackheapStart ∧
    t.heaps.maxsize task = userStackheapMaxsize
  tasks : t.tasks = mainloop :: forks
  running : t.gRunningtask ∈ t.tasks

variable {addr : Nat}

section

variable {stackheap kheap uheap mainloop : Nat} {forks : List Nat} {t t' : Tasks}

theorem boot_registered (distinct : [stackheap, kheap, uheap, mainloop].Nodup)
    (notNull : 0 ∉ [stackheap, kheap, uheap, mainloop])
    (lt : ∀ heap ∈ [stackheap, kheap, uheap, mainloop], heap < 2 ^ 32) {memory : Tasks}
    (ret : boot stackheap kheap uheap mainloop memory = some t) :
    Registered stackheap kheap uheap mainloop [] t := by
  simp only [nodup_cons, mem_cons, not_mem_nil, or_false, not_or] at distinct
  simp only [mem_cons, not_mem_nil, or_false, not_or] at notNull
  obtain ⟨⟨notKheap, notUheap, notMain⟩, ⟨notUheap', notMain'⟩, notMain'', -, -⟩ := distinct
  obtain ⟨alive1, alive2, alive3, alive4⟩ := notNull
  have empty : Holds { memory.heaps with heaplist := 0 } [] :=
    ⟨rfl, trivial, nodup_nil, not_mem_nil, by simp⟩
  obtain ⟨s1, call1, holds1, start1, max1, -⟩ :=
    empty.createHeap (not_mem_nil) (Ne.symm alive1) (lt _ (by simp)) kernelStackheapStart
      kernelStackheapMaxsize false
  obtain ⟨s2, call2, holds2, start2, max2, -⟩ :=
    holds1.createHeap (by simpa using Ne.symm notKheap) (Ne.symm alive2) (lt _ (by simp)) kheapStart
      kheapMaxsize false
  obtain ⟨s3, call3, holds3, start3, max3, -⟩ :=
    holds2.createHeap (by simpa using ⟨Ne.symm notUheap, Ne.symm notUheap'⟩) (Ne.symm alive3)
      (lt _ (by simp)) uheapStart uheapMaxsize true
  obtain ⟨s4, call4, holds4, start4, max4, -⟩ :=
    holds3.createHeap (by simpa using ⟨Ne.symm notMain, Ne.symm notMain', Ne.symm notMain''⟩)
      (Ne.symm alive4) (lt _ (by simp)) userStackheapStart userStackheapMaxsize false
  unfold boot initMainStack initKheap initUheap initTasking setupStackHeap at ret
  simp only [call1, call2, call3, call4, bind_eq_bind, bind_some, some.injEq] at ret
  subst ret
  constructor
  case holds => simpa using holds4
  case apart =>
    intro heap mem
    simp only [mem_cons, not_mem_nil, or_false] at mem
    rcases mem with rfl | rfl | rfl
    · left
      simp [start1, start2, start3, start4, max1, max2, max3, max4, notKheap, notUheap, notMain,
        kernelStackheapStart, kernelStackheapMaxsize, userStackheapStart]
    · right
      simp [start2, start3, start4, notUheap', notMain', kheapStart, userStackheapStart,
        userStackheapMaxsize]
    · right
      simp [start3, start4, notMain'', uheapStart, userStackheapStart, userStackheapMaxsize]
  case stack =>
    intro task mem
    rw [mem_singleton.mp mem]
    simp [start4, max4]
  case tasks => rfl
  case running => exact mem_singleton_self _

theorem Registered.of_same (registered : Registered stackheap kheap uheap mainloop forks t)
    (head : t'.heaps.heaplist = t.heaps.heaplist) (links : t'.heaps.nextheap = t.heaps.nextheap)
    (start : t'.heaps.start = t.heaps.start) (maxsize : t'.heaps.maxsize = t.heaps.maxsize)
    (tasks : t'.tasks = t.tasks) (running : t'.gRunningtask ∈ t.tasks) :
    Registered stackheap kheap uheap mainloop forks t' where
  holds := by
    have holds := registered.holds
    exact ⟨head.trans holds.head, links ▸ holds.forward, holds.nodup, holds.notNull, holds.small⟩
  apart := by
    rw [start, maxsize]
    exact registered.apart
  stack := by
    rw [start, maxsize]
    exact registered.stack
  tasks := tasks.trans registered.tasks
  running := tasks ▸ running

theorem Registered.fork (registered : Registered stackheap kheap uheap mainloop forks t)
    {newTask : Nat}
    (alive : newTask ≠ 0) (lt : newTask < 2 ^ 32)
    (fresh : newTask ∉ [stackheap, kheap, uheap, mainloop] ++ forks)
    (ret : t.fork newTask = some t') :
    Registered stackheap kheap uheap mainloop (forks ++ [newTask]) t' := by
  unfold Tasks.fork Tasks.createTask Tasks.copyTask setupStackHeap at ret
  obtain ⟨s', call, holds, start, max, -⟩ := registered.holds.createHeap fresh alive lt
    userStackheapStart userStackheapMaxsize (!decide (t.ring t.gRunningtask = 0))
  simp only [call, bind_eq_bind, bind_some, some.injEq] at ret
  subst ret
  have ne {heap : Nat} (mem : heap ∈ [stackheap, kheap, uheap, mainloop] ++ forks) :
      heap ≠ newTask := fun same => fresh (same ▸ mem)
  constructor
  case holds => simpa using holds
  case apart =>
    intro heap mem
    have old : heap ≠ newTask := by
      apply ne
      simp only [mem_cons, not_mem_nil, or_false] at mem
      rcases mem with rfl | rfl | rfl <;> simp
    simp only [start, max, update_of_ne old]
    exact registered.apart heap mem
  case stack =>
    intro task mem
    by_cases new : task = newTask
    · rw [new, start, max, update_self, update_self]
      exact ⟨rfl, rfl⟩
    simp only [start, max, update_of_ne new]
    apply registered.stack
    rw [← cons_append] at mem
    rcases mem_append.mp mem with old | single
    · exact old
    · exact absurd (mem_singleton.mp single) new
  case tasks =>
    simp only [registered.tasks]
    rfl
  case running => exact mem_append_left _ registered.running

theorem Registered.step (registered : Registered stackheap kheap uheap mainloop forks t)
    (step : TaskStep t t') : ∃ forks', Registered stackheap kheap uheap mainloop forks' t' := by
  cases step with
  | fork alive lt fresh call =>
    exact ⟨_, registered.fork alive lt (fresh _ registered.holds.listed_eq) call⟩
  | setUserStack => exact ⟨forks, registered.of_same rfl rfl rfl rfl rfl registered.running⟩
  | jumpUserspace => exact ⟨forks, registered.of_same rfl rfl rfl rfl rfl registered.running⟩
  | switchTask mem => exact ⟨forks, registered.of_same rfl rfl rfl rfl rfl mem⟩

theorem Booted.registered (booted : Booted stackheap kheap uheap mainloop t) :
    ∃ forks, Registered stackheap kheap uheap mainloop forks t := by
  obtain ⟨distinct, ne, lt, memory, t0, started, steps⟩ := booted
  induction steps with
  | refl => exact ⟨[], boot_registered distinct ne lt started⟩
  | tail _ step ih =>
    obtain ⟨forks, registered⟩ := ih
    exact registered.step step

theorem Registered.contains_iff (registered : Registered stackheap kheap uheap mainloop forks t)
    (mem : task ∈ t.tasks) :
    t.heaps.contains addr task = true ↔
      userStackheapStart ≤ addr ∧ addr < userStackheapStart + userStackheapMaxsize := by
  obtain ⟨start, max⟩ := registered.stack task (registered.tasks ▸ mem)
  unfold Heaps.contains
  rw [start, max, Bool.and_eq_true, decide_eq_true_eq, decide_eq_true_eq]
  rfl

theorem Registered.isAddrInHeap_eq (registered : Registered stackheap kheap uheap mainloop forks t)
    (mem : task ∈ t.tasks) (inHeap : t.heaps.contains addr task = true) :
    isAddrInHeap addr t.heaps = some mainloop := by
  have range := (registered.contains_iff mem).mp inHeap
  have missed (heap : Nat) (mem : heap ∈ [stackheap, kheap, uheap]) :
      t.heaps.contains addr heap = false := by
    have away := registered.apart heap mem
    have wrapped : add32 (t.heaps.start heap) (t.heaps.maxsize heap) ≤
        t.heaps.start heap + t.heaps.maxsize heap := Nat.mod_le ..
    simp only [Heaps.contains, Bool.and_eq_false_iff, decide_eq_false_iff_not]
    omega
  have found : t.heaps.contains addr mainloop = true := by
    apply (registered.contains_iff _).mpr range
    rw [registered.tasks]
    exact mem_cons_self
  have first := missed stackheap (by simp)
  have second := missed kheap (by simp)
  have third := missed uheap (by simp)
  rw [registered.holds.isAddrInHeap_eq]
  simp [first, second, third, found]

/-! ## Faults on a stack -/

theorem zeroPage_maps {dir : Nat}
    (sound : DirSound dir s) (blocks : NewBlocks heap dir Q s) (lt : addr / 0x1000 < pageCount)
    (stocked : Stocked heap dir [addr / 0x1000] 1 s) (apart : ¬Q (addr / 0x1000))
    (empty : (s.entry dir (addr / 0x1000)).frame = 0) (user : Nat) :
    ∃ s', Fault.zeroPage heap addr dir user s = some s' ∧
      (s'.entry dir (addr / 0x1000)).present = true ∧
      (s'.entry dir (addr / 0x1000)).user = decide (user ≠ 0) := by
  have bounds : ∀ page ∈ [addr / 0x1000], page < pageCount := by
    intro page mem
    rw [mem_singleton.mp mem]
    exact lt
  obtain ⟨s1, looked, table, stocked1, ret⟩ := onPage_stocked (f := fun page frames =>
      allocFrame page (decide (user = 0)) (decide (user ≠ 0)) frames) sound blocks bounds
        rfl stocked
  have empty1 : (s1.entry dir (addr / 0x1000)).frame = 0 := by
    rw [looked.entry_of_not_heap lt apart]
    exact empty
  have free : 0 < s1.frames.freeCount := by
    have room := stocked1.room
    omega
  obtain ⟨page', frames', taken, -, present, -, mode⟩ :=
    allocFrame_takes empty1 free (decide (user = 0)) (decide (user ≠ 0))
  simp only [taken] at ret
  have entry : (s1.put dir (addr / 0x1000) page' frames').entry dir (addr / 0x1000) = page' := by
    rw [entry_put looked.sound lt table lt, if_pos rfl]
  refine ⟨s1.put dir (addr / 0x1000) page' frames', ?_, ?_, ?_⟩
  · unfold Fault.zeroPage
    rw [ret]
    rfl
  · rw [entry, present]
  · rw [entry, mode, decide_not]

/-- A page of a task's stack is mapped for the user as the first task's stack heap says, so with the
mode of the task's own exactly if the two have the same. -/
theorem stack_fault_mode_iff
    (booted : Booted stackheap kheap uheap mainloop t)
    (inHeap : t.heaps.contains addr t.gRunningtask = true) (notPresent : errCode &&& 0x1 = 0)
    (sound : DirSound s.gCurrentDirectory s) (blocks : NewBlocks heap s.gCurrentDirectory Q s)
    (stocked : Stocked heap s.gCurrentDirectory [addr / 0x1000] 1 s) (apart : ¬Q (addr / 0x1000))
    (empty : (s.entry s.gCurrentDirectory (addr / 0x1000)).frame = 0) :
    ∃ s', Fault.pageFault heap t addr errCode s = some s' ∧
      (s'.entry s.gCurrentDirectory (addr / 0x1000)).present = true ∧
      ((s'.entry s.gCurrentDirectory (addr / 0x1000)).user = t.heaps.usermode t.gRunningtask ↔
        t.heaps.usermode mainloop = t.heaps.usermode t.gRunningtask) := by
  obtain ⟨forks, registered⟩ := booted.registered
  have range := (registered.contains_iff registered.running).mp inHeap
  have lt : addr / 0x1000 < pageCount := by
    have space := pageCount_eq
    unfold userStackheapStart userStackheapMaxsize at range
    omega
  have alive : mainloop ≠ 0 := fun null => booted.notNull (by simp [null])
  have mode : decide ((t.heaps.usermode mainloop).toNat ≠ 0) = t.heaps.usermode mainloop := by
    cases t.heaps.usermode mainloop with
    | false => rfl
    | true => rfl
  obtain ⟨s', mapped, mem, user⟩ :=
    zeroPage_maps sound blocks lt stocked apart empty (t.heaps.usermode mainloop).toNat
  refine ⟨s', ?_, mem, by rw [user, mode]⟩
  unfold Fault.pageFault
  rw [registered.isAddrInHeap_eq registered.running inHeap]
  simp only [bind_eq_bind, bind_some, decide_eq_true notPresent, if_true, if_pos alive]
  exact mapped

end

/-- Memory before the boot. -/
def clearedTasks : Tasks where
  heaps := ⟨fun _ => 0, fun _ => 0, fun _ => false, fun _ => 0, 0⟩
  ring := fun _ => 0
  programStart := fun _ => 0
  programBreak := fun _ => 0
  tasks := []
  gRunningtask := 0

theorem stack_fault_mode_first : ∃ t s', Booted 0x10 0x30 0x50 0x70 t ∧ t.gRunningtask = 0x70 ∧
      Fault.pageFault pageHeap t 0x1400000 0x2 (smallSpace 1 0) = some s' ∧
      (s'.entry 0x2000 0x1400).present = true ∧
      (s'.entry 0x2000 0x1400).user = t.heaps.usermode t.gRunningtask := by
  have evaluated : (boot 0x10 0x30 0x50 0x70 clearedTasks).map (fun t =>
      (t.gRunningtask, t.heaps.contains 0x1400000 0x70)) = some (0x70, true) := by
    decide +kernel
  obtain ⟨t, started, observed⟩ := map_eq_some_iff.mp evaluated
  simp only [Prod.mk.injEq] at observed
  obtain ⟨running, inHeap⟩ := observed
  have booted : Booted 0x10 0x30 0x50 0x70 t :=
    ⟨by decide, by decide, by decide, clearedTasks, t, started, .refl⟩
  obtain ⟨s', call, mem, mode⟩ :=
    stack_fault_mode_iff booted (running ▸ inHeap) (by decide : 0x2 &&& 0x1 = 0) smallSpace_sound
      smallSpace_blocks (smallSpace_stocked (by decide +kernel) (by decide))
      (by unfold heapRegion; decide) (by decide)
  refine ⟨t, s', booted, running, call, mem, mode.mpr ?_⟩
  rw [running]

/-- A forked task has switched its stack heap to user mode, but its page is mapped for the kernel.
-/
theorem stack_fault_mode_fork :
    ∃ t s', Booted 0x10 0x30 0x50 0x70 t ∧ t.heaps.contains 0x1400000 t.gRunningtask = true ∧
      t.heaps.usermode t.gRunningtask = true ∧
      ((smallSpace 1 0).entry 0x2000 0x1400).frame = 0 ∧
      Fault.pageFault pageHeap t 0x1400000 0x6 (smallSpace 1 0) = some s' ∧
      (s'.entry 0x2000 0x1400).present = true ∧ (s'.entry 0x2000 0x1400).user = false := by
  have evaluated :
      ((boot 0x10 0x30 0x50 0x70 clearedTasks).bind fun t₀ => (t₀.fork 0x90).bind fun t₁ =>
        (Fault.pageFault pageHeap (t₁.switchTask 0x90).setUserStack 0x1400000 0x6
          (smallSpace 1 0)).map
          fun s' => (t₀.heaps.listed, t₁.tasks,
            (t₁.switchTask 0x90).setUserStack.heaps.contains 0x1400000 0x90,
              s'.entry 0x2000 0x1400)) =
      some (some [0x10, 0x30, 0x50, 0x70], [0x70, 0x90], true, ⟨true, false, false, 9⟩) := by
    decide +kernel
  obtain ⟨t₀, started, evaluated⟩ := bind_eq_some_iff.mp evaluated
  obtain ⟨t₁, forked, evaluated⟩ := bind_eq_some_iff.mp evaluated
  obtain ⟨s', fault, observed⟩ := map_eq_some_iff.mp evaluated
  simp only [Prod.mk.injEq] at observed
  obtain ⟨mem, tasks, inHeap, entry⟩ := observed
  have fresh : ∀ list, t₀.heaps.listed = some list → 0x90 ∉ list := by
    intro list same
    cases mem.symm.trans same
    decide
  have steps : Relation.ReflTransGen TaskStep t₀ (t₁.switchTask 0x90).setUserStack :=
    ((Relation.ReflTransGen.single (.fork (by decide) (by decide) fresh forked)).tail
      (.switchTask (tasks ▸ by decide))).tail (.setUserStack _)
  refine ⟨(t₁.switchTask 0x90).setUserStack, s',
    ⟨by decide, by decide, by decide, clearedTasks, t₀, started, steps⟩, inHeap, ?_, by decide,
      fault, ?_, ?_⟩
  · exact update_self 0x90 true t₁.heaps.usermode
  · rw [entry]
  · rw [entry]

variable {a : BlockHeap}

theorem BlockHeap.getFree_tight {a' : BlockHeap} {n node : Nat} {pagealigned : Bool}
    (ret : a.getFree n pagealigned = some (a', node)) :
    ∃ b ∈ a'.used, b.addr = node ∧ b.size < n + nodesizeMax + sizeofNode := by
  have added (b : Block) : b ∈ a.used ++ [b] := mem_append_right _ mem_cons_self
  have exact : n < n + nodesizeMax + sizeofNode := by
    unfold nodesizeMax sizeofNode
    omega
  unfold getFree at ret
  split at ret
  · next b found =>
      split_ifs at ret with whole
      · cases ret
        exact ⟨b, added b, rfl, by omega⟩
      · cases ret
        exact ⟨_, added _, rfl, exact⟩
  unfold expand at ret
  split_ifs at ret
  · cases ret
    exact ⟨_, added _, rfl, exact⟩
  · cases ret
    exact ⟨_, added _, rfl, exact⟩
  · cases ret
    exact ⟨_, added _, rfl, exact⟩
  · cases ret
    exact ⟨_, added _, rfl, exact⟩

theorem BlockHeap.not_mem_addrs_inside {b : Block} (mem : b ∈ a.used) {x : Nat}
    (after : b.addr < x) (lt : x < b.stop) : x ∉ addrs a.used := by
  intro listed
  obtain ⟨c, isUsed, rfl⟩ := mem_map.mp listed
  have disjoint := a.apart (mem_append_left _ mem) (mem_append_left _ isUsed) after.ne
  unfold Block.stop at *
  omega

/-! ## Addresses -/

theorem stackSize_le (kernel : Bool) : stackSize kernel ≤ 0x5000 := by
  cases kernel with
  | false => decide
  | true => decide

theorem clampSize_stackSize (kernel : Bool) : clampSize (stackSize kernel) = stackSize kernel := by
  cases kernel with
  | false => decide
  | true => decide

section

variable {kheap : Kheap} {s : Paging}

/-- The pages that are mapped start one stack size behind the start of the block, and the top lies
two stack sizes behind it. -/
theorem stackAlloc_eq (block : getFree (stackSize kernel) h true = some (h', node))
    (alive : node ≠ 0)
    (inSpace : node + sizeofNode + 2 * stackSize kernel < 2 ^ 32) :
    stackAlloc kheap kernel h s =
      (initializeMem kheap (node + sizeofNode + stackSize kernel) (stackSize kernel) (!kernel)
        0 s).map
        fun mapped => (h', mapped.1, node + sizeofNode + 2 * stackSize kernel) := by
  have memory : add32 node sizeofNode = node + sizeofNode := add32_of_lt (by omega)
  have ne : node + sizeofNode ≠ 0 := by omega
  have addr : add32 (node + sizeofNode) (stackSize kernel) =
    node + sizeofNode + stackSize kernel :=
    add32_of_lt (by omega)
  have top : add32 (node + sizeofNode + stackSize kernel) (stackSize kernel) =
      node + sizeofNode + 2 * stackSize kernel := by
    rw [add32_of_lt (by omega)]
    omega
  unfold stackAlloc kmallocGenBase alloc
  simp only [block, bind_eq_bind, bind_some, if_neg alive, memory, if_neg ne, addr, top]
  cases initializeMem kheap (node + sizeofNode + stackSize kernel) (stackSize kernel) (!kernel)
    0 s with
  | none => rfl
  | some mapped => rfl

theorem stackFree_eq (inSpace : node + sizeofNode + 2 * stackSize kernel < 2 ^ 32) :
    stackFree kernel (node + sizeofNode + 2 * stackSize kernel) h =
      freeNode (node + stackSize kernel) h := by
  unfold stackFree kfreeGen free
  rw [sub32_of_le (by omega) inSpace, sub32_of_le (by omega) (by omega)]
  congr 1
  omega

end

/-! ## The stack and its block -/

section

variable {memstart maxsize : Nat}

theorem Sound.sumFits_stack (sound : Sound memstart maxsize h a)
    (inSpace : memstart + maxsize + 0x10000 ≤ 2 ^ 32) (kernel : Bool) :
    SumFits h (stackSize kernel) true := by
  intro _
  have size := sound.size
  have lt := stackSize_le kernel
  rw [if_pos rfl, clampSize_stackSize, sound.rep.cursize]
  omega

theorem Sound.stack_block (sound : Sound memstart maxsize h a) (above : sizeofNode ≤ memstart)
    (inSpace : memstart + maxsize + 0x10000 ≤ 2 ^ 32)
    (block : getFree (stackSize kernel) h true = some (h', node)) (alive : node ≠ 0) :
    ∃ a' b, Sound memstart maxsize h' a' ∧ a'.used = a.used ++ [b] ∧ b.addr = node ∧
      stackSize kernel ≤ b.size ∧ b.size < stackSize kernel + nodesizeMax + sizeofNode := by
  obtain ⟨h1, node1, call, ⟨a', ret, sound'⟩ | ⟨-, refused, -⟩⟩ :=
    sound.alloc above (by omega) (sound.sumFits_stack inSpace kernel)
  · cases call.symm.trans block
    rw [clampSize_stackSize] at ret
    obtain ⟨b, addr, returned⟩ := BlockHeap.getFree_returned ret
    obtain ⟨c, isUsed, addr', tight⟩ := BlockHeap.getFree_tight ret
    -- the size stored in the node is the size of both
    have sizes : b.size = c.size := by
      rw [← sound'.rep.size_eq (mem_append_left _ isUsed), addr', ← addr]
      apply (sound'.rep.size_eq (mem_append_left ..)).symm
      rw [returned.used]
      exact mem_append_right _ mem_cons_self
    exact ⟨a', b, sound', returned.used, addr, returned.enough, by rw [sizes]; exact tight⟩
  · cases call.symm.trans block
    exact absurd refused alive

/-- The stack never lies inside the block allocated for it, and releasing it is refused: the block
stays in use. -/
theorem stack_outside_block {s s' : Paging} {top : Nat} {h₁ : Heap}
    (above : sizeofNode ≤ memstart) (inSpace : memstart + maxsize + 0x10000 ≤ 2 ^ 32)
    (run : HeapCalls SumFits memstart maxsize h)
    (room : getFree (stackSize kernel) h true = some (h₁, node)) (alive : node ≠ 0)
    (call : stackAlloc kheap kernel h s = some (h', s', top)) :
    ∃ used ret, usedNodes h = some used ∧ usedNodes h' = some (used ++ [node]) ∧
      initializeMem kheap (top - stackSize kernel) (stackSize kernel) (!kernel) 0 s =
        some (s', ret) ∧
      ¬(node + sizeofNode ≤ top - stackSize kernel ∧ top ≤ node + sizeofNode + h'.size node) ∧
      ∃ h'', stackFree kernel top h' = some (h'', -1) ∧ usedNodes h'' = some (used ++ [node]) ∧
        freeNodes h'' = freeNodes h' := by
  obtain ⟨a, sound⟩ := run.sound above (by omega)
  obtain ⟨a', b, sound', used, addr, le, tight⟩ := sound.stack_block above inSpace room alive
  have isUsed : b ∈ a'.used := by
    rw [used]
    exact mem_append_right _ mem_cons_self
  have large : 0x4000 ≤ stackSize kernel := by
    cases kernel with
    | false => decide
    | true => decide
  have small := stackSize_le kernel
  have bounds := (a'.spans_bounds (mem_append_left _ isUsed)).2
  have room' : node + sizeofNode + 2 * stackSize kernel < 2 ^ 32 := by
    have start := sound'.start
    have size := sound'.size
    unfold Block.stop BlockHeap.heapend at bounds
    omega
  rw [stackAlloc_eq room alive room'] at call
  obtain ⟨⟨s₁, ret⟩, mapped, same⟩ := map_eq_some_iff.mp call
  simp only [Prod.mk.injEq] at same
  obtain ⟨rfl, rfl, rfl⟩ := same
  have list : usedNodes h₁ = some (addrs a.used ++ [node]) := by
    rw [sound'.rep.usedNodes_eq, used, addrs_append, addrs_cons, addr, addrs_nil]
  refine ⟨addrs a.used, ret, sound.rep.usedNodes_eq, list, ?_, ?_, ?_⟩
  · rw [← mapped]
    congr 1
    omega
  · rintro ⟨-, lt⟩
    rw [← addr, sound'.rep.size_eq (mem_append_left _ isUsed), addr] at lt
    unfold nodesizeMax sizeofNode at *
    omega
  · have missing : node + stackSize kernel ∉ addrs a'.used := by
      apply BlockHeap.not_mem_addrs_inside isUsed
      · omega
      · unfold Block.stop sizeofNode
        omega
    rw [stackFree_eq room']
    obtain ⟨c, mem, same, -⟩ | ⟨-, result⟩ := a'.freeNode_cases (node + stackSize kernel)
    · exact absurd (same ▸ addr_mem mem) missing
    obtain ⟨a'', h'', released, -, -⟩ | ⟨-, refused⟩ :=
      sound'.rep.freeNode_refines (node + stackSize kernel)
    · exact absurd (result.symm.trans released) (by simp)
    · exact ⟨_, refused, list, rfl⟩

end

/-- The kernel's stack heap as it is created. -/
def firstStacks : Heap := createLinkedlist 0x1000000 0x400000 0 (fun _ => 0) 0

theorem stack_outside_first_block : ∃ h₁ h' s' top used ret,
      getFree (stackSize true) firstStacks true =
        some (h₁, 0x1000FF4) ∧
      stackAlloc smallHeap true firstStacks
        (smallSpace 1 0) =
        some (h', s', top) ∧
      usedNodes h' = some (used ++ [0x1000FF4]) ∧
      initializeMem smallHeap (top - stackSize true) (stackSize true) false 0 (smallSpace 1 0) =
        some (s', ret) ∧
      ∃ h'', stackFree true top h' = some (h'', -1) ∧
        usedNodes h'' = some (used ++ [0x1000FF4]) := by
  have evaluated :
      ((getFree (stackSize true) firstStacks true).map
        Prod.snd) = some 0x1000FF4 := by decide +kernel
  have returns : (stackAlloc smallHeap true firstStacks
        (smallSpace 1 0)).isSome = true := by decide +kernel
  have run : HeapCalls SumFits 0x1000000 0x400000
      firstStacks := HeapRun.create _ _ 0 _ 0
  obtain ⟨⟨h₁, node⟩, room, first⟩ := map_eq_some_iff.mp evaluated
  subst first
  obtain ⟨⟨h', s', top⟩, call⟩ := isSome_iff_exists.mp returns
  obtain ⟨used, ret, -, list, mapped, -, h'', released, kept, -⟩ :=
    stack_outside_block (by decide) (by decide) run room (by decide) call
  exact ⟨h₁, h', s', top, used, ret, room, call, list, mapped, h'', released, kept⟩

/-- The first stack of the kernel: its block holds 0x1001000 to 0x1006000, the stack is 0x1006000 to
0x100B000, and releasing it is refused. -/
theorem stack_behind_block :
    (stackAlloc smallHeap true firstStacks
      (smallSpace 1 0)).bind (fun r => (stackFree true r.2.2 r.1).map fun q =>
        (usedNodes r.1, r.1.size 0x1000FF4, r.2.2, q.2, usedNodes q.1)) =
      some (some [0x1000FF4], 0x5000, 0x100B000, -1, some [0x1000FF4]) := by
  decide +kernel

end Yanix.Mm
