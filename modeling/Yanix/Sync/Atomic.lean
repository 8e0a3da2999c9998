/-
Module: Yanix.Sync.Atomic
Purpose: The atomic stubs of `kernel/arch/i386/cpu/atomic.asm`, the spinlock of
  `kernel/yanix/atomic.c`, the lock word of a queue and that of the disk driver, which alone
  keeps other tasks out.
Trusted boundary: hand-translated from assembly and C.  `lock cmpxchg` is taken as one atomic
  step, and so is the `lock mov` of `arch_atomic_store`, which real processors refuse (#UD)
-/
import Yanix.Foundation.Lock

namespace Yanix.Sync

open Foundation

/-- `SPINLOCK_UNLOCK` and `SPINLOCK_LOCK`. -/
def spinlockUnlocked : Int := 0

@[inherit_doc spinlockUnlocked]
def spinlockLocked : Int := 1

/-- `lock cmpxchg [mem], new`: the memory word and `eax` afterwards, which holds what the word was
before. -/
def cmpxchg (mem eax new : Int) : Int × Int := if mem = eax then (new, eax) else (mem, mem)

def archAtomicTestAndSet (mem bitset : Int) : Int × Int := cmpxchg mem 0 bitset

def archAtomicCompareExchange (mem bitunset bitset : Int) : Int × Int := cmpxchg mem bitunset bitset

def archAtomicStore (_mem bitset : Int) : Int := bitset

/-- One round of `spinlock_lock`: the loop goes on while the stub returns 0. -/
def spinlockLock (_ : Unit) (locked : Int) : Int × Option Unit :=
  let exchanged := archAtomicCompareExchange locked spinlockUnlocked spinlockLocked
  (exchanged.1, if exchanged.2 = 0 then some () else none)

/-- A `struct spinlock`, from `SPINLOCK_INIT` on. -/
def spinlock : Protocol Unit where
  entry := ()
  step := spinlockLock
  release := archAtomicStore spinlockLocked spinlockUnlocked

/-- The two operands of the loop condition of `queue_lock`. -/
inductive QueueSpin where
  | test
  | testAndSet
deriving DecidableEq

/-- One step of `queue_lock`: the second operand is evaluated only if the first is not 0. -/
def queueSpin : QueueSpin → Int → Int × Option QueueSpin
  | .test, lock => (lock, if lock = 0 then none else some .testAndSet)
  | .testAndSet, lock =>
    let set := archAtomicTestAndSet lock 1
    (set.1, if set.2 = 0 then none else some .test)

/-- The lock word of a queue, which `queue_create` clears and `queue_unlock` sets to 0. -/
def queueLock : Protocol QueueSpin where
  entry := .test
  step := queueSpin
  release := 0

/-- One step of `ata_lock`: the test-and-set is tried only if the word was read as 0. -/
def ataSpin : QueueSpin → Int → Int × Option QueueSpin
  | .test, lock => (lock, some (if lock = 0 then .testAndSet else .test))
  | .testAndSet, lock =>
    let set := archAtomicTestAndSet lock 1
    (set.1, if set.2 = 0 then none else some .test)

/-- `g_ata_lock`, which `ata_unlock` sets to 0. -/
def ataLock : Protocol QueueSpin where
  entry := .test
  step := ataSpin
  release := 0

open Option

theorem spinlockLock_of_ne {locked : Int} (set : locked ≠ 0) :
    spinlockLock () locked = (locked, none) := by
  have kept : archAtomicCompareExchange locked spinlockUnlocked spinlockLocked
      = (locked, locked) := if_neg set
  simp only [spinlockLock, kept, if_neg set]

theorem spinlockLock_zero : spinlockLock () 0 = (1, some ()) := rfl

theorem spinlock_solo (locked : Int) :
    spinlock.Solo () locked (if locked = 0 then 1 else locked) := by
  by_cases free : locked = 0
  · rw [if_pos free, free]
    exact .again spinlockLock_zero (.complete (spinlockLock_of_ne (by decide)))
  · rw [if_neg free]
    exact .complete (spinlockLock_of_ne free)

theorem queueLock_solo : queueLock.Solo .test 0 0 := .complete rfl

section

variable {T : Type*} [DecidableEq T]

/-- What is known of a queue's lock in every state: the word is 0, no task has got to the
test-and-set. -/
structure NeverSet (s : Shared T QueueSpin) : Prop where
  word : s.word = 0
  testing : ∀ i spin, s.phase i = .locking spin → spin = .test

theorem NeverSet.update {s : Shared T QueueSpin} (never : NeverSet s) {word : Int}
    (clear : word = 0) (i : T) (phase : Phase QueueSpin)
    (testing : ∀ spin, phase = .locking spin → spin = .test) :
    NeverSet ⟨word, Function.update s.phase i phase⟩ := by
  exact ⟨clear, (Function.forall_update_iff s.phase fun _ phase =>
    ∀ spin, phase = .locking spin → spin = .test).mpr ⟨testing, fun j _ => never.testing j⟩⟩

theorem neverSet_of_reachable {s : Shared T QueueSpin} (reachable : queueLock.Reachable s) :
    NeverSet s := by
  induction reachable with
  | start => exact ⟨rfl, nofun⟩
  | @call s i _ _ ih =>
    exact ih.update ih.word i (.locking .test) (fun _ same => (Phase.locking.inj same).symm)
  | @again s i spin next word _ locking step ih =>
    -- the word is 0, so the test is the last step of its call
    rw [ih.testing i spin locking, ih.word] at step
    exact absurd (congrArg Prod.snd step) nofun
  | @complete s i spin word _ locking step ih =>
    rw [ih.testing i spin locking, ih.word] at step
    have clear : (0 : Int) = word := congrArg Prod.fst step
    exact ih.update clear.symm i .inside nofun
  | @unlock s i _ _ ih => exact ih.update ih.word i .leaving nofun
  | @store s i _ _ ih => exact ih.update rfl i .out nofun

/-- Each of the two locks keeps all tasks apart if and only if there is at most one task. -/
theorem kernel_locks_exclusive_iff :
    ((∀ s : Shared T Unit, spinlock.Reachable s → Exclusive s) ↔ Subsingleton T) ∧
      ((∀ s : Shared T QueueSpin, queueLock.Reachable s → Exclusive s) ↔ Subsingleton T) :=
  ⟨exclusive_iff_subsingleton (spinlock_solo 0) (spinlock_solo 1),
    exclusive_iff_subsingleton queueLock_solo queueLock_solo⟩

/-- However the calls of any tasks interleave, none of the two locks ever makes one wait: a task in
a lock call comes to its end by its own steps alone, whoever is inside. -/
theorem kernel_locks_never_wait (i : T) :
    (∀ s : Shared T Unit, spinlock.Reachable s → ∀ spin, s.phase i = .locking spin →
      ∃ word, spinlock.Solo spin s.word word) ∧
    ∀ s : Shared T QueueSpin, queueLock.Reachable s → ∀ spin, s.phase i = .locking spin →
      ∃ word, queueLock.Solo spin s.word word := by
  constructor
  · intro s _ spin _
    exact ⟨_, spinlock_solo s.word⟩
  · intro s reachable spin locking
    have never := neverSet_of_reachable reachable
    rw [never.testing i spin locking, never.word]
    exact ⟨0, queueLock_solo⟩

/-- However the calls of any tasks interleave, at most one of them has the disk, and `g_ata_lock` is
1 exactly while one has it. -/
theorem ata_lock_exclusive {s : Shared T QueueSpin} (reachable : ataLock.Reachable s) :
    (∀ i j, (s.phase i).Holding → (s.phase j).Holding → i = j) ∧
      (s.word = 1 ↔ ∃ i, (s.phase i).Holding) := by
  obtain ⟨who, held⟩ : ∃ who, HeldBy ataLock 1 s who := by
    refine heldBy_of_reachable (by decide) (fun {spin _ word _} step => ?_)
      (fun {spin word _} step => ?_) reachable
    all_goals cases spin <;> by_cases free : word = 0 <;>
        simp_all [ataLock, ataSpin, archAtomicTestAndSet, cmpxchg]
  simp only [held.holders, held.word]
  constructor
  · exact fun i j first second => some.inj (first.symm.trans second)
  · cases who <;> simp [ataLock]

end

theorem ata_lock_exclusive_first :
    ∃ s : Shared (Fin 2) QueueSpin, ataLock.Reachable s ∧ s.phase 0 = .inside ∧
      (s.word = 1 ↔ ∃ i, (s.phase i).Holding) := by
  have solo : ataLock.Solo .test 0 1 := .again rfl (.complete rfl)
  have taken := solo.reach (.call (i := (0 : Fin 2)) .start rfl) rfl (Function.update_self ..)
  exact ⟨_, taken, rfl, (ata_lock_exclusive taken).2⟩

/-- Two tasks inside the same spinlock, and two inside the same queue. -/
theorem kernel_locks_two_inside :
    (∃ s : Shared (Fin 2) Unit, spinlock.Reachable s ∧ s.phase 0 = .inside ∧ s.phase 1 = .inside) ∧
      ∃ s : Shared (Fin 2) QueueSpin, queueLock.Reachable s ∧ s.phase 0 = .inside ∧
        s.phase 1 = .inside :=
  ⟨both_inside_of_solo (by decide) (spinlock_solo 0) (spinlock_solo 1),
    both_inside_of_solo (by decide) queueLock_solo queueLock_solo⟩

end Yanix.Sync
