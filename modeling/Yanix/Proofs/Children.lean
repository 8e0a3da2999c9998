/-
Module: Yanix.Proofs.Children
Purpose: Parents and children: when `childamount` is the number of live children, and when
  `kill_proc` follows a null pointer.
-/
import Yanix.Proofs.Processes
import Mathlib.Order.Interval.Finset.Nat

namespace Yanix.Proc

open Foundation List Option
open Function (update update_self update_of_ne)

variable {s s' : Sched} {on : ListName → List Nat}

/-- The task exists and was not killed. -/
def Live (s : Sched) (task : Nat) : Prop := task ∈ s.allocated ∧ (s.task task).state ≠ .zombie

/-- The live tasks whose `parent` is the pid of the task. -/
def liveChildren (s : Sched) (task : Nat) : Finset Nat := s.allocated.toFinset.filter fun child =>
    (s.task child).state ≠ .zombie ∧ (s.task child).parent = (s.task task).pid

/-- Pids tell tasks apart, none is the pid of nobody, and every task counts its children. -/
structure Family (s : Sched) : Prop where
  pids : DistinctPids s
  nonzero : ∀ t ∈ s.allocated, (s.task t).pid ≠ 0
  counts : ∀ t ∈ s.allocated, (s.task t).childamount.toNat = (liveChildren s t).card

section

variable {task : Nat}

theorem mem_liveChildren {child : Nat} :
    child ∈ liveChildren s task ↔ Live s child ∧ (s.task child).parent = (s.task task).pid := by
  simp [liveChildren, Live, and_assoc]

theorem liveChildren_of_keeps (keeps : KeepsTasks s s') (task : Nat) :
    liveChildren s' task = liveChildren s task := by
  ext child
  simp only [mem_liveChildren, Live, keeps.allocated, keeps.state, keeps.parent, keeps.pid]

theorem Family.of_keeps (h : Family s) (keeps : KeepsTasks s s') : Family s' := by
  refine ⟨h.pids.of_keeps keeps, ?_, ?_⟩
  · intro t mem
    rw [keeps.allocated] at mem
    rw [keeps.pid]
    exact h.nonzero t mem
  · intro t mem
    rw [keeps.allocated] at mem
    rw [keeps.childamount, liveChildren_of_keeps keeps]
    exact h.counts t mem

theorem liveChildren_killed (s : Sched) (task t : Nat) :
    liveChildren (s.modifyTask task Task.killed) t = (liveChildren s t).erase task := by
  have pid := modifyTask_field Task.pid Task.killed (fun _ => rfl) s task t
  ext child
  have parent := modifyTask_field Task.parent Task.killed (fun _ => rfl) s task child
  rw [Finset.mem_erase, mem_liveChildren, mem_liveChildren, pid, parent]
  by_cases same : child = task
  · simp [same, Live, Sched.modifyTask, Task.killed]
  · simp [same, Live, Sched.modifyTask]

theorem liveChildren_childGone (s : Sched) (task t : Nat) :
    liveChildren (s.modifyTask task Task.childGone) t = liveChildren s t := by
  have kept {β : Type} (field : Task → β) (same : ∀ r : Task, field r.childGone = field r) :
      ∀ u, field ((s.modifyTask task Task.childGone).task u) = field (s.task u) :=
    modifyTask_field field Task.childGone same s task
  ext child
  simp only [mem_liveChildren, Live, kept Task.pid fun _ => rfl, kept Task.parent fun _ => rfl,
    kept Task.state fun _ => rfl]
  exact Iff.rfl

theorem Family.bereave (h : Family s) (live : Live s task) {parent : Nat}
    (mem : parent ∈ s.allocated) (named : (s.task parent).pid = (s.task task).parent) :
    Family ((s.modifyTask task Task.killed).modifyTask parent Task.childGone) := by
  have kept {β : Type} (field : Task → β) (same : ∀ r : Task, field r.childGone = field r)
      (same' : ∀ r : Task, field r.killed = field r) (t : Nat) :
      field (((s.modifyTask task Task.killed).modifyTask parent Task.childGone).task t) =
        field (s.task t) :=
    (modifyTask_field field Task.childGone same _ parent t).trans
      (modifyTask_field field Task.killed same' s task t)
  have pid := kept Task.pid (fun _ => rfl) (fun _ => rfl)
  refine ⟨?_, ?_, ?_⟩
  · intro t inT u inU same
    rw [pid, pid] at same
    exact h.pids t inT u inU same
  · intro t inT
    rw [pid]
    exact h.nonzero t inT
  · intro t inT
    have count := h.counts t inT
    rw [liveChildren_childGone, liveChildren_killed]
    by_cases same : t = parent
    · subst same
      have child : task ∈ liveChildren s t := mem_liveChildren.mpr ⟨live, named.symm⟩
      have pos : 0 < (liveChildren s t).card := Finset.card_pos.mpr ⟨task, child⟩
      have before : ((s.modifyTask task Task.killed).task t).childamount = (s.task t).childamount :=
            modifyTask_field Task.childamount Task.killed (fun _ => rfl) s task t
      have after : (((s.modifyTask task Task.killed).modifyTask t Task.childGone).task
        t).childamount = (s.task t).childamount - 1 := by
        rw [← before]
        simp [Sched.modifyTask, Task.childGone]
      have le : (1 : UInt32) ≤ (s.task t).childamount := by
        rw [UInt32.le_iff_toNat_le, count]
        exact pos
      rw [after, UInt32.toNat_sub_of_le _ _ le, count, Finset.card_erase_of_mem child]
      rfl
    · have other : task ∉ liveChildren s t := by
        intro child
        have alike := (mem_liveChildren.mp child).2
        exact same (h.pids t inT parent mem (alike.symm.trans named.symm))
      have amount : (((s.modifyTask task Task.killed).modifyTask parent
          Task.childGone).task t).childamount = (s.task t).childamount := by
        have step : (((s.modifyTask task Task.killed).modifyTask parent Task.childGone).task t) =
            (s.modifyTask task Task.killed).task t := by
          simp [Sched.modifyTask, same]
        rw [step]
        exact modifyTask_field Task.childamount Task.killed (fun _ => rfl) s task t
      rw [amount, count, Finset.erase_eq_of_notMem other]

theorem Family.orphan (h : Family s) (orphan : (s.task task).parent = 0) :
    Family (s.modifyTask task Task.killed) := by
  have pid := modifyTask_field Task.pid Task.killed (fun _ => rfl) s task
  have amount := modifyTask_field Task.childamount Task.killed (fun _ => rfl) s task
  refine ⟨?_, ?_, ?_⟩
  · intro t inT u inU same
    rw [pid, pid] at same
    exact h.pids t inT u inU same
  · intro t inT
    rw [pid]
    exact h.nonzero t inT
  · intro t inT
    have other : task ∉ liveChildren s t := by
      intro child
      have alike := (mem_liveChildren.mp child).2
      exact h.nonzero t inT (alike.symm.trans orphan)
    rw [liveChildren_killed, Finset.erase_eq_of_notMem other, amount]
    exact h.counts t inT

theorem Family.notified (h : Family s) (lists : Encodes s on) (live : Live s task)
    {on' : ListName → List Nat}
    (notified : Notified (s.modifyTask task Task.killed) on task s' on') : Family s' := by
  have marked := lists.modifyTask task Task.killed
  have parentField := modifyTask_field Task.parent Task.killed (fun _ => rfl) s task task
  have counted {parent : Nat} (ne : parent ≠ 0)
      (found : findTaskByPid ((s.modifyTask task Task.killed).task task).parent
        (s.modifyTask task Task.killed) = some parent) :
      Family ((s.modifyTask task Task.killed).modifyTask parent Task.childGone) := by
    obtain ⟨⟨list, mem⟩, pid⟩ := marked.findTaskByPid_sound found ne
    rw [parentField, modifyTask_field Task.pid Task.killed (fun _ => rfl)] at pid
    exact h.bereave live (lists.known mem) pid
  cases notified with
  | alone orphan => exact h.orphan (parentField.symm.trans orphan)
  | counted named ne found awake =>
    exact (counted ne found).of_keeps (lockScheduler_sameTasks _).keeps
  | resumed named ne found asleep same cursor =>
    exact (counted ne found).of_keeps same.keeps

theorem Family.kill (h : Family s) (lists : Encodes s on) (live : Live s task)
    (call : killProc task s = some s') : Family s' := by
  obtain ⟨told, on', -, notified, keeps, -⟩ := lists.killProc call
  exact (h.notified lists live notified).of_keeps keeps

theorem Encodes.killProc_keeps (lists : Encodes s on)
    (call : Proc.killProc task s = some s') :
    s'.allocated = s.allocated ∧ s'.pids = s.pids ∧ (∀ t, (s'.task t).pid = (s.task t).pid) ∧
      ∀ t, (s'.task t).parent = (s.task t).parent := by
  obtain ⟨told, on', -, notified, keeps, -⟩ := lists.killProc call
  have marked {β : Type} (field : Task → β) (same : ∀ r : Task, field r.killed = field r) :=
    modifyTask_field field Task.killed same s task
  have counted {β : Type} (field : Task → β) (same : ∀ r : Task, field r.killed = field r)
      (same' : ∀ r : Task, field r.childGone = field r) (parent t : Nat) :=
    (modifyTask_field field Task.childGone same' (s.modifyTask task Task.killed) parent t).trans
      (marked field same t)
  have told_keeps : told.allocated = s.allocated ∧ told.pids = s.pids ∧
      (∀ t, (told.task t).pid = (s.task t).pid) ∧
      ∀ t, (told.task t).parent = (s.task t).parent := by
    cases notified with
    | alone orphan =>
      exact ⟨rfl, rfl, marked Task.pid fun _ => rfl, marked Task.parent fun _ => rfl⟩
    | counted named ne found awake =>
      exact ⟨rfl, rfl, counted Task.pid (fun _ => rfl) (fun _ => rfl) _,
        counted Task.parent (fun _ => rfl) (fun _ => rfl) _⟩
    | resumed named ne found asleep same cursor =>
      refine ⟨same.allocated, same.pids, fun t => ?_, fun t => ?_⟩
      · rw [same.task]
        exact counted Task.pid (fun _ => rfl) (fun _ => rfl) _ t
      · rw [same.task]
        exact counted Task.parent (fun _ => rfl) (fun _ => rfl) _ t
  obtain ⟨allocated, pids, pid, parent⟩ := told_keeps
  exact ⟨keeps.allocated.trans allocated, keeps.pids.trans pids,
    fun t => (keeps.pid t).trans (pid t), fun t => (keeps.parent t).trans (parent t)⟩

end

/-- Pids are given out in order. Tasks are never freed and live in 2^32 bytes, so that the counter
does not come round. -/
structure Numbered (s : Sched) : Prop where
  nodup : s.allocated.Nodup
  space : ∀ t ∈ s.allocated, t ≠ 0 ∧ t < 2 ^ 32
  counter : s.pids = UInt32.ofNat (s.allocated.length + 1)
  old : ∀ t ∈ s.allocated,
    (s.task t).pid.toNat ≤ s.allocated.length ∧ (s.task t).parent.toNat ≤ s.allocated.length

variable {t : Nat} {s : Sched}

section

variable {newTask : Nat}

theorem Numbered.kill (h : Numbered s) (lists : Encodes s on) {task : Nat}
    (call : killProc task s = some s') : Numbered s' := by
  obtain ⟨allocated, pids, pid, parent⟩ := lists.killProc_keeps call
  refine ⟨?_, ?_, ?_, ?_⟩
  · rw [allocated]
    exact h.nodup
  · rw [allocated]
    exact h.space
  · rw [allocated, pids]
    exact h.counter
  · intro t mem
    rw [allocated] at mem ⊢
    rw [pid, parent]
    exact h.old t mem

/-! ## `fork` -/

theorem forkedTasks_new (ne : s.runningtask ≠ newTask) :
    forkedTasks s newTask newTask = childOf s := by
  simp [forkedTasks, Ne.symm ne]

theorem forkedTasks_old {β : Type} (field : Task → β)
    (same : ∀ (r : Task) (n : UInt32), field { r with childamount := n } = field r)
    (old : t ≠ newTask) : field (forkedTasks s newTask t) = field (s.task t) := by
  unfold forkedTasks
  by_cases running : t = s.runningtask
  · rw [running, update_self, same]
  · rw [update_of_ne running, update_of_ne old]

theorem forkedTasks_childamount (old : t ≠ newTask) : (forkedTasks s newTask t).childamount =
      if t = s.runningtask then (s.task t).childamount + 1 else (s.task t).childamount := by
  unfold forkedTasks
  by_cases running : t = s.runningtask
  · rw [if_pos running, running, update_self]
  · rw [if_neg running, update_of_ne running, update_of_ne old]

/-- A state that a `fork` of the running task has led to. -/
structure Forked (s s' : Sched) (newTask : Nat) : Prop where
  fresh : newTask ∉ s.allocated
  running : s.runningtask ∈ s.allocated
  nonzero : newTask ≠ 0
  small : newTask < 2 ^ 32
  allocated : s'.allocated = newTask :: s.allocated
  pids : s'.pids = s.pids + 1
  task : s'.task = forkedTasks s newTask

namespace Forked

variable (f : Forked s s' newTask)

include f

theorem other (mem : t ∈ s.allocated) : t ≠ newTask := fun same => f.fresh (same ▸ mem)

theorem task_new : s'.task newTask = childOf s := by
  rw [f.task, forkedTasks_new (f.other f.running)]

theorem field {β : Type} (field : Task → β)
    (same : ∀ (r : Task) (n : UInt32), field { r with childamount := n } = field r)
    (mem : t ∈ s.allocated) : field (s'.task t) = field (s.task t) := by
  rw [f.task]
  exact forkedTasks_old field same (f.other mem)

theorem toNat_pids (numbered : Numbered s) : s.pids.toNat = s.allocated.length + 1 := by
  have lt : s.allocated.length + 1 < 2 ^ 32 := by
    have nodup : (newTask :: s.allocated).Nodup := nodup_cons.mpr ⟨f.fresh, numbered.nodup⟩
    have inside : (newTask :: s.allocated).toFinset ⊆ Finset.Ico 1 (2 ^ 32) := by
      intro t mem
      rw [Finset.mem_Ico]
      rcases mem_cons.mp (mem_toFinset.mp mem) with rfl | known
      · exact ⟨Nat.pos_of_ne_zero f.nonzero, f.small⟩
      · exact ⟨Nat.pos_of_ne_zero (numbered.space t known).1, (numbered.space t known).2⟩
    have count := Finset.card_le_card inside
    rw [toFinset_card_of_nodup nodup, Nat.card_Ico, length_cons] at count
    omega
  rw [numbered.counter, UInt32.toNat_ofNat_of_lt' lt]

theorem pid_ne (numbered : Numbered s) (mem : t ∈ s.allocated) :
    (s.task t).pid ≠ s.pids ∧ (s.task t).parent ≠ s.pids := by
  have lt := numbered.old t mem
  have new := f.toNat_pids numbered
  constructor <;> intro same <;> rw [same] at lt <;> omega

theorem numbered (h : Numbered s) : Numbered s' := by
  have new := f.toNat_pids h
  refine ⟨?_, ?_, ?_, ?_⟩
  · rw [f.allocated]
    exact nodup_cons.mpr ⟨f.fresh, h.nodup⟩
  · intro t mem
    rw [f.allocated] at mem
    rcases mem_cons.mp mem with rfl | old
    · exact ⟨f.nonzero, f.small⟩
    · exact h.space t old
  · rw [f.pids, f.allocated, h.counter, length_cons]
    exact (UInt32.ofNat_add _ 1).symm
  · intro t mem
    rw [f.allocated] at mem
    rw [f.allocated, length_cons]
    rcases mem_cons.mp mem with rfl | old
    · rw [f.task_new]
      have parent := (h.old _ f.running).1
      exact ⟨by simp [childOf, createdTask, new], by simp [childOf, createdTask]; omega⟩
    rw [f.field Task.pid (fun _ _ => rfl) old, f.field Task.parent (fun _ _ => rfl) old]
    have lt := h.old t old
    omega

theorem liveChildren_new (numbered : Numbered s) : liveChildren s' newTask = ∅ := by
  rw [Finset.eq_empty_iff_forall_notMem]
  intro child mem
  obtain ⟨⟨known, -⟩, parent⟩ := mem_liveChildren.mp mem
  rw [f.task_new] at parent
  rw [f.allocated] at known
  rcases mem_cons.mp known with rfl | old
  · rw [f.task_new] at parent
    exact (f.pid_ne numbered f.running).1 parent
  · rw [f.field Task.parent (fun _ _ => rfl) old] at parent
    exact (f.pid_ne numbered old).2 parent

theorem liveChildren_old (pids : DistinctPids s) (known : t ∈ s.allocated) : liveChildren s' t =
      if t = s.runningtask then insert newTask (liveChildren s t) else liveChildren s t := by
  have pid := f.field Task.pid (fun _ _ => rfl) known
  have born : newTask ∈ liveChildren s' t ↔ t = s.runningtask := by
    rw [mem_liveChildren, Live, f.task_new, pid, f.allocated]
    constructor
    · rintro ⟨-, parent⟩
      exact (pids _ f.running t known parent).symm
    · rintro rfl
      exact ⟨⟨mem_cons_self, by simp [childOf, createdTask]⟩, rfl⟩
  have old {child : Nat} (was : child ≠ newTask) :
      child ∈ liveChildren s' t ↔ child ∈ liveChildren s t := by
    by_cases mem : child ∈ s.allocated
    · rw [mem_liveChildren, mem_liveChildren, Live, Live, pid,
        f.field Task.state (fun _ _ => rfl) mem, f.field Task.parent (fun _ _ => rfl) mem,
        f.allocated]
      simp [mem]
    · simp [mem_liveChildren, Live, f.allocated, was, mem]
  ext child
  by_cases new : child = newTask
  · subst new
    have absent : child ∉ liveChildren s t := fun there =>
      f.fresh (mem_liveChildren.mp there).1.1
    split <;> simp_all
  · rw [old new]
    split <;> simp [new]

end Forked

theorem Family.fork (h : Family s) (numbered : Numbered s) (f : Forked s s' newTask)
    (childless : (s.task s.runningtask).childamount = 0) : Family s' := by
  have pid_new : (s'.task newTask).pid = s.pids := by
    rw [f.task_new]
    rfl
  have pid_old {t : Nat} (known : t ∈ s.allocated) : (s'.task t).pid = (s.task t).pid :=
    f.field Task.pid (fun _ _ => rfl) known
  refine ⟨?_, ?_, ?_⟩
  · intro t inT u inU same
    rw [f.allocated] at inT inU
    rcases mem_cons.mp inT with rfl | oldT <;> rcases mem_cons.mp inU with rfl | oldU
    · rfl
    · rw [pid_new, pid_old oldU] at same
      exact absurd same.symm (f.pid_ne numbered oldU).1
    · rw [pid_new, pid_old oldT] at same
      exact absurd same (f.pid_ne numbered oldT).1
    · rw [pid_old oldT, pid_old oldU] at same
      exact h.pids t oldT u oldU same
  · intro t known
    rw [f.allocated] at known
    rcases mem_cons.mp known with rfl | old
    · have new := f.toNat_pids numbered
      rw [pid_new]
      intro zero
      rw [zero] at new
      exact absurd new (by simp)
    · rw [pid_old old]
      exact h.nonzero t old
  · intro t known
    rw [f.allocated] at known
    rcases mem_cons.mp known with rfl | old
    · rw [f.liveChildren_new numbered, f.task_new]
      simp [childOf, createdTask, childless]
    rw [f.liveChildren_old h.pids old, f.task, forkedTasks_childamount (f.other old)]
    by_cases running : t = s.runningtask
    · have absent : newTask ∉ liveChildren s t := fun mem =>
        f.fresh (mem_liveChildren.mp mem).1.1
      have none := h.counts t old
      rw [running, childless] at none
      rw [if_pos running, if_pos running, Finset.card_insert_of_notMem absent, running, childless,
        ← none]
      rfl
    · rw [if_neg running, if_neg running]
      exact h.counts t old

end

/-- The states of the task system through `fork` by live tasks and `kill_proc` of live tasks whose
parent is alive. A task may fork in the states where it `MayFork`. -/
inductive ForkRun (MayFork : Sched → Nat → Prop) : Sched → Prop
  | start (s : Sched) (mainloop : Nat) (nonzero : mainloop ≠ 0) (small : mainloop < 2 ^ 32) :
      ForkRun MayFork (initTasking mainloop s)
  | fork {s s' : Sched} {pid : UInt32} (caller newTask : Nat) (before : ForkRun MayFork s)
      (live : Live s caller) (mayFork : MayFork s caller) (fresh : newTask ∉ s.allocated)
      (small : newTask < 2 ^ 32)
      (call : fork newTask { s with runningtask := caller } = some (pid, s')) :
      ForkRun MayFork s'
  | kill {s s' : Sched} (task parent : Nat) (before : ForkRun MayFork s) (live : Live s task)
      (parentLive : Live s parent) (named : (s.task task).parent = (s.task parent).pid)
      (call : killProc task s = some s') : ForkRun MayFork s'

/-- The task has no child to count. -/
def Childless (s : Sched) (task : Nat) : Prop := (s.task task).childamount = 0

theorem forked_of_call {s' : Sched} {on : ListName → List Nat} {newTask : Nat} {pid : UInt32}
    (lists : Encodes s on) (running : s.runningtask ∈ s.allocated)
    (fresh : newTask ∉ s.allocated) (lt : newTask < 2 ^ 32)
    (call : fork newTask s = some (pid, s')) : Forked s s' newTask ∧ ∃ on', Encodes s' on' := by
  obtain ⟨ne, allocated, -, pids, task, after, -⟩ := lists.fork running fresh call
  exact ⟨⟨fresh, running, ne, lt, allocated, pids, task⟩, _, after⟩

theorem Encodes.run {on : ListName → List Nat} (h : Encodes s on) (task : Nat) :
    Encodes { s with runningtask := task } on :=
  h.of_heads rfl (fun _ => rfl) rfl

theorem initTasking_family (s : Sched) {mainloop : Nat} (ne : mainloop ≠ 0)
    (lt : mainloop < 2 ^ 32) :
    Family (initTasking mainloop s) ∧ Numbered (initTasking mainloop s) ∧
      ∃ on, Encodes (initTasking mainloop s) on := by
  have only : ∀ t ∈ (initTasking mainloop s).allocated, t = mainloop := fun t => mem_singleton.mp
  have fields : (initTasking mainloop s).task mainloop = mainloopTask 1 := update_self ..
  refine ⟨⟨?_, ?_, ?_⟩, ⟨?_, ?_, rfl, ?_⟩, ?_⟩
  · intro t inT u inU _
    rw [only t inT, only u inU]
  · intro t known
    rw [only t known, fields]
    decide
  · intro t known
    rw [only t known]
    have none : liveChildren (initTasking mainloop s) mainloop = ∅ := by
      rw [Finset.eq_empty_iff_forall_notMem]
      intro child mem
      obtain ⟨⟨known, -⟩, parent⟩ := mem_liveChildren.mp mem
      rw [only child known, fields] at parent
      exact absurd parent (by decide)
    rw [none, fields]
    rfl
  · exact nodup_singleton mainloop
  · intro t known
    rw [only t known]
    exact ⟨ne, lt⟩
  · intro t known
    rw [only t known, fields]
    exact ⟨Nat.le_refl 1, Nat.zero_le _⟩
  · obtain ⟨on, h, -⟩ := Partition.initTasking s ne
    exact ⟨on, h.lists⟩

theorem ForkRun.family (run : ForkRun Childless s) :
    Family s ∧ Numbered s ∧ ∃ on, Encodes s on := by
  induction run with
  | start s mainloop ne small => exact initTasking_family s ne small
  | fork caller newTask lt live mayFork fresh small call ih =>
    obtain ⟨family, numbered, on, lists⟩ := ih
    rename_i s _ _
    obtain ⟨forked, after⟩ := forked_of_call (lists.run caller) live.1 fresh small call
    have family' : Family { s with runningtask := caller } :=
      ⟨family.pids, family.nonzero, family.counts⟩
    have numbered' : Numbered { s with runningtask := caller } :=
      ⟨numbered.nodup, numbered.space, numbered.counter, numbered.old⟩
    exact ⟨family'.fork numbered' forked mayFork, forked.numbered numbered', after⟩
  | kill task parent lt live parentLive named call ih =>
    obtain ⟨family, numbered, on, lists⟩ := ih
    obtain ⟨-, on', -, -, -, after, -⟩ := lists.killProc call
    exact ⟨family.kill lists live call, numbered.kill lists call, _, after⟩

/-- As long as only tasks without children fork, `childamount` of every live task is the number of
its live children, so `task_wait` blocks exactly when there is one. A task that forks while it has a
child makes one whose count is wrong. -/
theorem child_accounting {s : Sched} (run : ForkRun Childless s) : (∀ task, Live s task →
      (s.task task).childamount.toNat = (liveChildren s task).card ∧
      (hasChild { s with runningtask := task } = true ↔ (liveChildren s task).Nonempty)) ∧
    (∀ caller newTask pid s', Live s caller → ¬Childless s caller → newTask ∉ s.allocated →
      newTask < 2 ^ 32 → fork newTask { s with runningtask := caller } = some (pid, s') →
      Live s' newTask ∧ (s'.task newTask).childamount.toNat ≠ (liveChildren s' newTask).card) := by
  obtain ⟨family, numbered, on, lists⟩ := run.family
  constructor
  · intro task live
    have count := family.counts task live.1
    refine ⟨count, ?_⟩
    rw [← Finset.card_pos, ← count]
    unfold hasChild
    rw [bne_iff_ne, Ne, ← UInt32.toNat_inj]
    exact Nat.pos_iff_ne_zero.symm
  · intro caller newTask pid s' live parent fresh lt call
    obtain ⟨forked, -⟩ := forked_of_call (lists.run caller) live.1 fresh lt call
    have numbered' : Numbered { s with runningtask := caller } :=
      ⟨numbered.nodup, numbered.space, numbered.counter, numbered.old⟩
    refine ⟨⟨?_, ?_⟩, ?_⟩
    · rw [forked.allocated]
      exact mem_cons_self
    · rw [forked.task_new]
      simp [childOf, createdTask]
    · rw [forked.liveChildren_new numbered', forked.task_new, Finset.card_empty]
      exact fun zero => parent (UInt32.toNat_inj.mp zero)

theorem child_accounting_forked :
    ∃ s, ForkRun Childless s ∧ (s.task 1).childamount.toNat = (liveChildren s 1).card := by
  have run : ForkRun Childless _ :=
    .fork 1 2 (.start blankSched 1 (by decide) (by decide)) ⟨by decide, by decide⟩ rfl (by decide)
      (by decide) rfl
  exact ⟨_, run, ((child_accounting run).1 1 ⟨by decide, by decide⟩).1⟩

/-- The first task forks twice: the second child starts with the count of its parent. -/
theorem child_accounting_second_fork :
    ∃ s, ForkRun (fun _ _ => True) s ∧ Live s 3 ∧ (s.task 3).childamount = 1 ∧
      liveChildren s 3 = ∅ := by
  refine ⟨_, .fork 1 3 (.fork 1 2 (.start blankSched 1 (by decide) (by decide))
    ⟨by decide, by decide⟩ trivial (by decide) (by decide) rfl) ⟨by decide, by decide⟩ trivial
    (by decide) (by decide) rfl, ⟨by decide, by decide⟩, rfl, by decide⟩

/-- The states of the task system through `fork` by live tasks and `kill_proc` of live tasks,
in any order. -/
inductive TreeRun : Sched → Prop
  | start (s : Sched) (mainloop : Nat) (nonzero : mainloop ≠ 0) : TreeRun (initTasking mainloop s)
  | fork {s s' : Sched} {pid : UInt32} (caller newTask : Nat) (before : TreeRun s)
      (live : Live s caller) (fresh : newTask ∉ s.allocated)
      (call : fork newTask { s with runningtask := caller } = some (pid, s')) : TreeRun s'
  | kill {s s' : Sched} (task : Nat) (before : TreeRun s) (live : Live s task)
      (call : killProc task s = some s') : TreeRun s'

/-- The ready tasks are the live ones, nobody sleeps or is blocked, and no slice was used. -/
structure Grown (s : Sched) (on : ListName → List Nat) : Prop where
  lists : Encodes s on
  awake : on .blocked = []
  live : ∀ {list t}, t ∈ on list → Live s t
  ready : ∀ {t}, Live s t → t ∈ on .ready
  unused : ∀ t ∈ s.allocated, (s.task t).sliceused = 0

/-- The task names no parent, or one that is alive. -/
def ParentLives (s : Sched) (task : Nat) : Prop :=
  (s.task task).parent = 0 ∨ ∃ parent, Live s parent ∧ (s.task parent).pid = (s.task task).parent

section

variable {task newTask : Nat} {pid : UInt32}

theorem Notified.awake {on' : ListName → List Nat} (notified : Notified s on task s' on')
    (awake : on .blocked = []) :
    on' = on ∧ ((s.task task).parent = 0 ∧ s'.task = s.task ∨
      ∃ parent, parent ≠ 0 ∧ findTaskByPid (s.task task).parent s = some parent ∧
        s'.task = (s.modifyTask parent Task.childGone).task) := by
  cases notified with
  | alone orphan => exact ⟨rfl, .inl ⟨orphan, rfl⟩⟩
  | counted named ne found _ => exact ⟨rfl, .inr ⟨_, ne, found, rfl⟩⟩
  | resumed named ne found asleep same cursor => simp [awake] at asleep

theorem Encodes.findTaskByPid_returns (h : Encodes s on) (pid : UInt32) :
    ∃ t, Proc.findTaskByPid pid s = some t ∧
      (t = 0 → ∀ list, ∀ u ∈ on list, (s.task u).pid ≠ pid) := by
  have missing (list : ListName)
      (none : ((on list).find? fun u => (s.task u).pid == pid).getD 0 = 0) :
      ∀ u ∈ on list, (s.task u).pid ≠ pid := by
    cases looked : (on list).find? fun u => (s.task u).pid == pid with
    | none => simpa using looked
    | some t =>
      rw [looked] at none
      exact absurd none ((h.linked list).ne_zero (mem_of_find?_eq_some looked))
  unfold Proc.findTaskByPid
  simp only [h.findTaskInListByPid, bind_eq_bind, bind_some]
  split
  · exact ⟨_, rfl, fun zero => absurd zero ‹_›⟩
  next ready =>
    split
    · exact ⟨_, rfl, fun zero => absurd zero ‹_›⟩
    next sleep =>
      refine ⟨_, rfl, fun blocked list => ?_⟩
      cases list with
      | ready => exact missing .ready (not_not.mp ready)
      | sleep => exact missing .sleep (not_not.mp sleep)
      | blocked => exact missing .blocked blocked

theorem Encodes.notifyParent_isSome (h : Encodes s on) :
    (Proc.notifyParent task s).isSome ↔ (s.task task).parent = 0 ∨
      ∃ list, ∃ parent ∈ on list, (s.task parent).pid = (s.task task).parent := by
  constructor
  · intro returns
    obtain ⟨s', call⟩ := isSome_iff_exists.mp returns
    rcases notifyParent_cases call with ⟨orphan, -⟩ | ⟨parent, ret, -, ne, found, -⟩
    · exact .inl orphan
    · obtain ⟨⟨list, mem⟩, same⟩ := h.findTaskByPid_sound found ne
      exact .inr ⟨list, parent, mem, same⟩
  · intro lives
    by_cases orphan : (s.task task).parent = 0
    · simp [Proc.notifyParent, orphan]
    obtain ⟨list, parent, mem, same⟩ := lives.resolve_left orphan
    obtain ⟨t, found, missing⟩ := h.findTaskByPid_returns (s.task task).parent
    have ne : t ≠ 0 := fun zero => missing zero list parent mem same
    rw [notifyParent_of_found orphan found ne]
    rcases (h.modifyTask t Task.childGone).taskResume (s.task task).parent with
      ⟨missed, -⟩ | ⟨waiting, u, resumed, -⟩
    · rw [missed]
      rfl
    · rw [resumed]
      rfl

/-! ## The steps of a run -/

theorem Grown.fork (h : Grown s on) {caller : Nat} (live : Live s caller)
    (fresh : newTask ∉ s.allocated)
    (call : Proc.fork newTask { s with runningtask := caller } = some (pid, s')) :
    ∃ on', Grown s' on' := by
  obtain ⟨-, allocated, -, -, task, lists, -⟩ := (h.lists.run caller).fork live.1 fresh call
  have ne {t : Nat} (known : t ∈ s.allocated) : t ≠ newTask := fun same => fresh (same ▸ known)
  have new : s'.task newTask = childOf { s with runningtask := caller } := by
    rw [task, forkedTasks_new (ne live.1)]
  have old {β : Type} (field : Task → β)
      (same : ∀ (r : Task) (n : UInt32), field { r with childamount := n } = field r) {t : Nat}
      (known : t ∈ s.allocated) : field (s'.task t) = field (s.task t) := by
    rw [task]
    exact forkedTasks_old field same (ne known)
  have newLive : Live s' newTask := by
    refine ⟨by simp [allocated], ?_⟩
    rw [new]
    simp [childOf, createdTask]
  have oldLive {t : Nat} (known : t ∈ s.allocated) : Live s' t ↔ Live s t := by
    unfold Live
    rw [allocated, old Task.state (fun _ _ => rfl) known]
    simp [known]
  refine ⟨_, lists, by simp [h.awake], ?_, ?_, ?_⟩
  · intro list t mem
    rcases (exists_mem_update on .ready _ t).mp ⟨list, mem⟩ with here | ⟨ne, -, was⟩
    · rcases mem_append.mp here with was | isNew
      · exact (oldLive (h.lists.known was)).mpr (h.live was)
      · rw [mem_singleton.mp isNew]
        exact newLive
    · exact (oldLive (h.lists.known was)).mpr (h.live was)
  · intro t lives
    have known := lives.1
    rw [allocated] at known
    rw [update_self, mem_append, mem_singleton]
    rcases mem_cons.mp known with same | was
    · exact .inr same
    · exact .inl (h.ready ((oldLive was).mp lives))
  · intro t known
    rw [allocated] at known
    rcases mem_cons.mp known with rfl | was
    · rw [new]
      exact h.unused caller live.1
    · rw [old Task.sliceused (fun _ _ => rfl) was]
      exact h.unused t was

/-- What `kill_proc` leaves: the task is marked, its parent counts a child less, all other tasks are
as before. -/
theorem Grown.fields (h : Grown s on) (call : killProc task s = some s') :
    Encodes s' (update on .ready ((on .ready).erase task)) ∧
    s'.allocated = s.allocated ∧
    ((s.task task).parent = 0 ∧
      (∀ t ∈ s.allocated, s'.task t = (s.modifyTask task Task.killed).task t) ∨
    ∃ parent, Live s parent ∧ (s.task parent).pid = (s.task task).parent ∧
      ∀ t ∈ s.allocated, s'.task t =
        ((s.modifyTask task Task.killed).modifyTask parent Task.childGone).task t) := by
  have kept {β : Type} (field : Task → β) (same : ∀ r : Task, field r.killed = field r) :=
    modifyTask_field field Task.killed same s task
  obtain ⟨told, on', -, notified, keeps, lists, same⟩ := h.lists.killProc call
  have allocated := keeps.allocated.trans notified.allocated
  obtain ⟨rfl, step⟩ := notified.awake h.awake
  rw [kept Task.parent fun _ => rfl] at step
  refine ⟨lists, allocated, ?_⟩
  rcases step with ⟨orphan, fields⟩ | ⟨parent, ne, found, fields⟩
  · refine .inl ⟨orphan, fun t known => ?_⟩
    rw [← fields]
    apply same
    rw [fields, kept Task.sliceused fun _ => rfl]
    exact h.unused t known
  obtain ⟨⟨list, mem⟩, named⟩ := (h.lists.modifyTask task Task.killed).findTaskByPid_sound found ne
  rw [kept Task.pid fun _ => rfl] at named
  refine .inr ⟨parent, h.live mem, named, fun t known => ?_⟩
  rw [← fields]
  apply same
  rw [fields, modifyTask_field Task.sliceused Task.childGone fun _ => rfl,
    kept Task.sliceused fun _ => rfl]
  exact h.unused t known

theorem Grown.kill (h : Grown s on) (call : killProc task s = some s') : ∃ on', Grown s' on' := by
  obtain ⟨lists, allocated, step⟩ := h.fields call
  have kept {β : Type} (field : Task → β) (same : ∀ r : Task, field r.childGone = field r) {t : Nat}
      (known : t ∈ s.allocated) :
      field (s'.task t) = field ((s.modifyTask task Task.killed).task t) := by
    rcases step with ⟨-, fields⟩ | ⟨parent, -, -, fields⟩
    · rw [fields t known]
    · rw [fields t known, modifyTask_field field Task.childGone same]
  have survives (t : Nat) : Live s' t ↔ Live s t ∧ t ≠ task := by
    unfold Live
    rw [allocated, and_assoc]
    refine and_congr_right fun known => ?_
    rw [kept Task.state (fun _ => rfl) known]
    by_cases same : t = task <;> simp [Sched.modifyTask, same, Task.killed]
  refine ⟨_, lists, by simp [h.awake], ?_, ?_, ?_⟩
  · intro list t mem
    rw [survives]
    rcases (exists_mem_update on .ready _ t).mp ⟨list, mem⟩ with left | ⟨ne, away, was⟩
    · have left := (h.lists.nodup .ready).mem_erase_iff.mp left
      exact ⟨h.live left.2, left.1⟩
    -- The task itself was not on another list, for it would be on the ready list too.
    refine ⟨h.live was, ?_⟩
    rintro rfl
    exact away (h.lists.apart was (h.ready (h.live was)))
  · intro t lives
    rw [survives] at lives
    exact (mem_erase_of_ne lives.2).mpr (h.ready lives.1)
  · intro t known
    rw [allocated] at known
    rw [kept Task.sliceused (fun _ => rfl) known,
      modifyTask_field Task.sliceused Task.killed fun _ => rfl]
    exact h.unused t known

theorem TreeRun.grown (run : TreeRun s) : ∃ on, Grown s on := by
  induction run with
  | start s mainloop ne =>
    obtain ⟨on, h, -⟩ := Partition.initTasking s ne
    have fields : (initTasking mainloop s).task mainloop = mainloopTask 1 := update_self ..
    have only : ∀ t ∈ (initTasking mainloop s).allocated, t = mainloop := fun t => mem_singleton.mp
    refine ⟨on, h.lists, h.lists.head_eq_zero_iff.mp rfl, ?_, ?_, ?_⟩
    · intro list t mem
      refine ⟨h.lists.known mem, ?_⟩
      rw [only t (h.lists.known mem), fields]
      decide
    · intro t lives
      rw [only t lives.1]
      exact h.lists.head_mem h.filled
    · intro t known
      rw [only t known, fields]
      rfl
  | fork caller newTask lt live fresh call ih =>
    obtain ⟨on, h⟩ := ih
    exact h.fork live fresh call
  | kill task lt live call ih =>
    obtain ⟨on, h⟩ := ih
    exact h.kill call

theorem Grown.notifyParent_isSome (h : Grown s on) :
    (notifyParent task (s.modifyTask task Task.killed)).isSome ↔ ParentLives s task := by
  have kept {β : Type} (field : Task → β) (same : ∀ r : Task, field r.killed = field r) :=
    modifyTask_field field Task.killed same s task
  rw [(h.lists.modifyTask task Task.killed).notifyParent_isSome, kept Task.parent fun _ => rfl]
  simp only [kept Task.pid fun _ => rfl]
  refine or_congr Iff.rfl ⟨?_, ?_⟩
  · rintro ⟨list, parent, mem, named⟩
    exact ⟨parent, h.live mem, named⟩
  · rintro ⟨parent, live, named⟩
    exact ⟨.ready, parent, h.ready live, named⟩

theorem Grown.kill_returns (h : Grown s on) (live : Live s task) (parent : ParentLives s task)
    (another : ∃ ne, Live s ne ∧ ne ≠ task) : (killProc task s).isSome := by
  obtain ⟨ne, otherLive, distinct⟩ := another
  obtain ⟨told, notified⟩ := isSome_iff_exists.mp (h.notifyParent_isSome.mpr parent)
  obtain ⟨on', lists, cases'⟩ := (h.lists.modifyTask task Task.killed).notifyParent notified
  obtain ⟨rfl, -⟩ := cases'.awake h.awake
  obtain ⟨left, removal, -, removed, -⟩ := lists.removeFromList (h.ready live)
  obtain ⟨next, u, taken⟩ := removed.getNextTask (by
    exact ne_nil_of_mem ((mem_erase_of_ne distinct).mpr (h.ready otherLive)))
  rw [killProc_eq, notified, bind_some, removeFromReadyList, removal, bind_some]
  split
  · rw [taken]
    rfl
  · rfl

end

/-- In every run of forks and ends, in any order: the end of a live task follows no null pointer to
its parent exactly when it names no parent or a live one, and then comes back if another task is
left; and then all that has changed in other tasks is the parent's count. -/
theorem kill_proc_safe {s : Sched} {task : Nat} (run : TreeRun s) (live : Live s task) :
    ((notifyParent task (s.modifyTask task Task.killed)).isSome ↔ ParentLives s task) ∧
    (ParentLives s task → (∃ other, Live s other ∧ other ≠ task) → (killProc task s).isSome) ∧
    (∀ s', killProc task s = some s' →
      (s.task task).parent = 0 ∧ (∀ t ∈ s.allocated, t ≠ task → s'.task t = s.task t) ∨
      ∃ parent, Live s parent ∧ (s.task parent).pid = (s.task task).parent ∧
        ∀ t ∈ s.allocated, t ≠ task →
          s'.task t = if t = parent then (s.task t).childGone else s.task t) := by
  obtain ⟨on, h⟩ := run.grown
  refine ⟨h.notifyParent_isSome, h.kill_returns live, ?_⟩
  intro s' call
  rcases (h.fields call).2.2 with ⟨orphan, fields⟩ | ⟨parent, lives, named, fields⟩
  · refine .inl ⟨orphan, fun t mem other => ?_⟩
    rw [fields t mem]
    exact update_of_ne other ..
  refine .inr ⟨parent, lives, named, fun t mem other => ?_⟩
  rw [fields t mem]
  split
  · next same =>
      subst same
      simp [Sched.modifyTask, other]
  · next ne => simp [Sched.modifyTask, other, ne]

theorem kill_proc_safe_child :
    ∃ s, TreeRun s ∧ Live s 2 ∧ ParentLives s 2 ∧ (killProc 2 s).isSome := by
  have run : TreeRun _ := .fork 1 2 (.start blankSched 1 (by decide)) ⟨by decide, by decide⟩
    (by decide) rfl
  refine ⟨_, run, ⟨by decide, by decide⟩, .inr ⟨1, ⟨by decide, by decide⟩, by decide⟩, ?_⟩
  exact (kill_proc_safe run ⟨by decide, by decide⟩).2.1
    (.inr ⟨1, ⟨by decide, by decide⟩, by decide⟩) ⟨1, ⟨by decide, by decide⟩, by decide⟩

/-- The first task forks a child, which forks one and ends: the end of the grandchild finds no
parent. -/
theorem kill_proc_safe_orphan :
    ∃ s, TreeRun s ∧ Live s 3 ∧ (s.task 3).parent = 2 ∧ findTaskByPid 2 s = some 0 ∧
      (killProc 3 s).isNone := by
  have first : TreeRun _ := .fork 1 2 (.start blankSched 1 (by decide)) ⟨by decide, by decide⟩
    (by decide) rfl
  have second : TreeRun _ := .fork 2 3 first ⟨by decide, by decide⟩ (by decide) rfl
  exact ⟨_, .kill 2 second ⟨by decide, by decide⟩ rfl, ⟨by decide, by decide⟩, by decide, by decide,
    by decide⟩

end Yanix.Proc
