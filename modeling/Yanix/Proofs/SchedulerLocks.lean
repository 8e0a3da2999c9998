/-
Module: Yanix.Proofs.SchedulerLocks
Purpose: When a call of the scheduler gives its lock back, and that `get_next_task` serves the
  ready tasks in turn, also while tasks arrive.
-/
import Yanix.Proofs.TaskLists
import Yanix.Foundation.Ring

namespace Yanix.Proc

open Foundation List Option

/-- The calls that take and release the lock. -/
inductive LockCall where
  | block (pid : UInt32)
  | resume (pid : UInt32)
  | schedule

def LockCall.run : LockCall → Sched → Option Sched
  | .block pid, s => (taskBlock pid s).map (·.2)
  | .resume pid, s => (taskResume pid s).map (·.2)
  | .schedule, s => Proc.schedule s

/-- The call finds the task it names on the list it looks at, and there is a task to switch
to. -/
def LockCall.Finds (s : Sched) : LockCall → Prop
  | .block pid => findTaskInListByPid .ready pid s ≠ some 0 ∧ s.next (s.lists .ready).head ≠ 0
  | .resume pid => findTaskInListByPid .blocked pid s ≠ some 0
  | .schedule => (s.lists .ready).next ≠ 0 ∨ (s.lists .ready).head ≠ 0

/-- Calls one after the other, each of which finds what it looks for. -/
inductive LockRun : Sched → List LockCall → Sched → Prop
  | refl (s : Sched) : LockRun s [] s
  | step {s s' s'' : Sched} {calls : List LockCall} {call : LockCall}
      (before : LockRun s calls s') (finds : call.Finds s') (runs : call.run s' = some s'') :
      LockRun s (calls ++ [call]) s''

section

variable {s s' : Sched} {on : ListName → List Nat} {pid : UInt32} {task : Nat}

theorem schedule_releases (call : schedule s = some s') : Releases s s' := by
  obtain ⟨t, u, -, rfl⟩ := schedule_cases call
  apply Releases.unlock
  rcases switchTask_cases (advanced (lockScheduler s) t) t with stays | ⟨-, goes⟩
  · rw [stays]
    rfl
  · rw [goes]
    rfl

theorem schedule_isSome_iff : (∃ s', schedule s = some s') ↔ LockCall.Finds s .schedule := by
  constructor
  · rintro ⟨s', call⟩
    obtain ⟨t, u, taken, -⟩ := schedule_cases call
    obtain ⟨ne, -, rfl | ⟨-, rfl⟩⟩ := getNextTask_cases taken
    · exact .inl ne
    · exact .inr ne
  · intro finds
    have taken : ∃ t u, getNextTask (lockScheduler s) = some (t, u) := by
      unfold getNextTask getNextFromList
      dsimp only
      split
      · exact ⟨_, _, rfl⟩
      · next ended => exact ⟨_, _, if_neg (finds.resolve_left ended)⟩
    obtain ⟨t, u, taken⟩ := taken
    unfold schedule
    rw [taken]
    exact ⟨_, rfl⟩

variable (h : Encodes s on)

include h

theorem Encodes.finds_iff (list : ListName) (pid : UInt32) :
    Proc.findTaskInListByPid list pid s ≠ some 0 ↔
      ∃ task, (on list).find? (fun t => (s.task t).pid == pid) = some task := by
  rw [h.findTaskInListByPid]
  cases looked : (on list).find? fun t => (s.task t).pid == pid with
  | none => simp
  | some t => simpa using (h.linked list).ne_zero (mem_of_find?_eq_some looked)

theorem Encodes.another_iff (mem : task ∈ on .ready) :
    s.next (s.lists .ready).head ≠ 0 ↔ (on .ready).erase task ≠ [] := by
  have chain := h.linked .ready
  cases nodes : on .ready with
  | nil => simp [nodes] at mem
  | cons t rest =>
    rw [nodes] at chain mem
    obtain ⟨first, -, tail⟩ := chain
    rw [first, tail.start_eq]
    cases rest with
    | nil =>
      obtain rfl : task = t := by simpa using mem
      simp
    | cons u rest =>
      have ne : u ≠ 0 := tail.ne_zero (by simp)
      by_cases same : t = task <;> simp [ne, same, erase_cons]

/-- A call finds what it looks for and gives the lock back, or does not come back with the lock as
it was. -/
theorem Encodes.lockCall (call : LockCall) :
    (call.Finds s ∧ ∃ s' on', call.run s = some s' ∧ Releases s s' ∧ Encodes s' on') ∨
    (¬call.Finds s ∧ ∀ s', call.run s = some s' → s'.schedulerLocks ≠ s.schedulerLocks) := by
  have kept {run : Option Sched} (locks : run = some (lockScheduler s)) :
      ∀ s', run = some s' → s'.schedulerLocks ≠ s.schedulerLocks := by
    intro s' same
    obtain rfl := some.inj (locks.symm.trans same)
    intro same
    have step : (s.schedulerLocks + 1).toNat = s.schedulerLocks.toNat := congrArg UInt32.toNat same
    have lt := s.schedulerLocks.toNat_lt
    simp only [UInt32.toNat_add, UInt32.reduceToNat] at step
    omega
  cases call with
  | schedule =>
    by_cases finds : LockCall.Finds s .schedule
    · obtain ⟨s', run⟩ := schedule_isSome_iff.mpr finds
      exact .inl ⟨finds, s', on, run, schedule_releases run, (h.schedule run).1⟩
    · exact .inr ⟨finds, fun s' run => absurd (schedule_isSome_iff.mp ⟨s', run⟩) finds⟩
  | resume pid =>
    have finds := h.finds_iff .blocked pid
    cases looked : (on .blocked).find? fun t => (s.task t).pid == pid with
    | none =>
      refine .inr ⟨fun found => by simpa [looked] using finds.mp found, kept ?_⟩
      simp [LockCall.run, Proc.taskResume, h.moveTask_missing .ready looked]
    | some t =>
      obtain ⟨s', move, -, releases, after, -⟩ :=
        h.moveTask (show ListName.blocked ≠ .ready by decide) looked
      refine .inl ⟨finds.mpr ⟨t, looked⟩, s', _, ?_, releases, after⟩
      simp [LockCall.run, Proc.taskResume, move]
  | block pid =>
    have finds := h.finds_iff .ready pid
    cases looked : (on .ready).find? fun t => (s.task t).pid == pid with
    | none =>
      refine .inr ⟨fun found => by simpa [looked] using finds.mp found.1, kept ?_⟩
      simp [LockCall.run, Proc.taskBlock, h.moveTask_missing .blocked looked]
    | some t =>
      have mem := mem_of_find?_eq_some looked
      have another := h.another_iff mem
      obtain ⟨mid, move, -, releases, after, cursor, -⟩ :=
        h.moveTask (show ListName.ready ≠ .blocked by decide) looked
      have run : LockCall.run (.block pid) s = Proc.schedule mid := by
        cases last : Proc.schedule mid <;> simp [LockCall.run, Proc.taskBlock, move, last]
      have left : moved on .ready .blocked t .ready = (on .ready).erase t := by simp [moved]
      rw [run]
      by_cases filled : (on .ready).erase t = []
      · -- The last ready task is gone, and there is nobody to switch to.
        have only : (on .ready).head? = some t := by
          obtain ⟨u, rest, nodes⟩ := exists_cons_of_ne_nil (ne_nil_of_mem mem)
          rw [nodes, erase_cons] at filled
          split at filled <;> simp_all
        rw [if_pos only, filled] at cursor
        refine .inr ⟨fun found => another.mp found.2 filled, fun s' last => ?_⟩
        rcases schedule_isSome_iff.mp ⟨s', last⟩ with here | first
        · exact absurd cursor here
        · exact absurd (after.head_eq_zero_iff.mpr (left.trans filled)) first
      · obtain ⟨s', last⟩ := after.schedule_returns (by rwa [left])
        have again := schedule_releases last
        refine .inl ⟨⟨finds.mpr ⟨t, looked⟩, another.mpr filled⟩, s', _, last, ?_,
          (after.schedule last).1⟩
        exact ⟨again.locks.trans releases.locks,
          fun free => again.interrupts (releases.locks.trans free)⟩

theorem Encodes.lockRun {calls : List LockCall} (run : LockRun s calls s') :
    (∃ on', Encodes s' on') ∧ s'.schedulerLocks = s.schedulerLocks ∧
      (s.schedulerLocks = 0 → calls ≠ [] → s'.interrupts = true) := by
  induction run with
  | refl => exact ⟨⟨on, h⟩, rfl, fun _ none => absurd rfl none⟩
  | step lt finds runs ih =>
    obtain ⟨⟨on', lists⟩, locks, -⟩ := ih
    rcases lists.lockCall _ with ⟨-, u, on'', run, releases, after⟩ | ⟨not, -⟩
    · cases run.symm.trans runs
      exact ⟨⟨on'', after⟩, releases.locks.trans locks,
        fun free _ => releases.interrupts (locks.trans free)⟩
    · exact absurd finds not

end

/-- For every state of the task lists, a call comes back with the lock as it was exactly when it
finds its task and another task is left to run; and after any such calls, begun while nobody held
the lock, interrupts are on. -/
theorem scheduler_locks_balanced {s : Sched} {on : ListName → List Nat} (h : Encodes s on) :
    (∀ call : LockCall,
      (∃ s', call.run s = some s' ∧ s'.schedulerLocks = s.schedulerLocks) ↔ call.Finds s) ∧
    (∀ calls s', LockRun s calls s' → s.schedulerLocks = 0 → calls ≠ [] →
      s'.schedulerLocks = 0 ∧ s'.interrupts = true) := by
  constructor
  · intro call
    rcases h.lockCall call with ⟨finds, s', -, run, releases, -⟩ | ⟨not, unbalanced⟩
    · exact ⟨fun _ => finds, fun _ => ⟨s', run, releases.locks⟩⟩
    refine ⟨?_, fun finds => absurd finds not⟩
    rintro ⟨s', run, same⟩
    exact absurd same (unbalanced s' run)
  · intro calls s' run free some
    obtain ⟨-, locks, interrupts⟩ := h.lockRun run
    exact ⟨locks.trans free, interrupts free some⟩

/-- The second of two ready tasks is blocked and resumed. -/
theorem scheduler_locks_balanced_resumed :
    ∃ s s', LockRun s [.block 2, .resume 2, .schedule] s' ∧ s.schedulerLocks = 0 ∧
      s'.schedulerLocks = 0 ∧ s'.interrupts = true := by
  have added := TaskRun.add 2 (mainloopTask 2) (blankSched_run (fun _ _ => True) fun _ _ => True)
    (by decide) (by decide) trivial rfl
  obtain ⟨on, h, -⟩ := added.partition
  have start {s : Sched} {present : Finset Nat} (_ : Partition s on present) := LockRun.refl s
  have blocked := @LockRun.step _ _ _ _ (.block 2) (start h) ⟨by decide, by decide⟩ rfl
  have resumed := @LockRun.step _ _ _ _ (.resume 2) blocked (by decide : _ ≠ _) rfl
  have run := @LockRun.step _ _ _ _ .schedule resumed (.inr (by decide)) rfl
  exact ⟨_, _, run, rfl, (scheduler_locks_balanced h.lists).2 _ _ run rfl (by simp)⟩

/-- Resuming a task that is not blocked, as `kill_proc` does, leaves the lock taken and
interrupts off. -/
theorem scheduler_locks_balanced_not_blocked : (taskResume 1 (initTasking 1 blankSched)).map
        (fun answer => (answer.1, answer.2.schedulerLocks, answer.2.interrupts)) =
      some (-1, 1, false) := by
  decide

/-- The ready tasks are those of the rotation, and the cursor is on the first that it has
not passed. -/
def Turning (s : Sched) (r : Rotation Nat) : Prop :=
  ∃ on, Encodes s on ∧ on .ready = r.items ∧ r.items ≠ [] ∧
    (s.lists .ready).next = r.rest.headD 0

/-- Tasks arrive, and `get_next_task` hands out those in `picked` one after the other. -/
inductive Picks : Sched → List Nat → Sched → Prop
  | refl (s : Sched) : Picks s [] s
  | add {s s' s'' : Sched} {picked : List Nat} (task : Nat) (fields : Task)
      (before : Picks s picked s') (nonzero : task ≠ 0) (fresh : task ∉ s'.allocated)
      (call : addTaskToQueue task { s' with
        task := Function.update s'.task task fields
        allocated := task :: s'.allocated } = some s'') :
      Picks s picked s''
  | next {s s' s'' : Sched} {picked : List Nat} {task : Nat} (before : Picks s picked s')
      (call : getNextTask s' = some (task, s'')) : Picks s (picked ++ [task]) s''

section

variable {s s' : Sched} {r : Rotation Nat} {task : Nat}

theorem Turning.start (s : Sched) {mainloop : Nat} (ne : mainloop ≠ 0)
    (allocated : s.allocated = [mainloop]) (cleared : s.next mainloop = 0) :
    Turning (initScheduler mainloop s) ⟨[], [mainloop]⟩ := by
  obtain ⟨on, h, -⟩ := Partition.start s ne allocated cleared
  have ready : on .ready = [mainloop] := (h.lists.linked .ready).unique ⟨rfl, ne, cleared⟩
  exact ⟨on, h.lists, ready, by simp [Rotation.items], rfl⟩

theorem Turning.add (h : Turning s r) (ne : task ≠ 0) (fresh : task ∉ s.allocated) {fields : Task}
    (call : addTaskToQueue task { s with
      task := Function.update s.task task fields
      allocated := task :: s.allocated } = some s') :
    Turning s' (r.push task) := by
  obtain ⟨on, lists, ready, filled, cursor⟩ := h
  obtain ⟨u, addition, -, after, cursors⟩ :=
    (lists.allocate (Function.update s.task task fields) task).addToList
      (fun _ mem => fresh (lists.known mem)) ne mem_cons_self .ready
  cases addition.symm.trans call
  rw [if_neg (ready ▸ filled)] at cursors
  refine ⟨_, after, by simp [ready], by simp, ?_⟩
  rw [cursors]
  refine cursor.trans ?_
  unfold Rotation.push
  cases r.rest <;> rfl

theorem Turning.next (h : Turning s r) (call : getNextTask s = some (task, s')) :
    ∃ r', r.pick = some (task, r') ∧ Turning s' r' := by
  obtain ⟨on, lists, ready, filled, cursor⟩ := h
  obtain ⟨ne, rfl, taken⟩ := getNextTask_cases call
  have chain := lists.linked .ready
  rw [ready] at chain
  -- The successor of a task is the first of those behind it.
  have follows (front back : List Nat) (split : r.items = front ++ task :: back) :
      s.next task = back.headD 0 := by
    rw [split] at chain
    obtain ⟨m, -, -, -, rest⟩ := linked_append.mp chain
    exact rest.start_eq
  have turning (r' : Rotation Nat) (items : r'.items = r.items)
      (next : s.next task = r'.rest.headD 0) : Turning (advanced s task) r' :=
    ⟨on, lists.advanced task, ready.trans items.symm, items ▸ filled, by simp [next]⟩
  obtain ⟨passed, rest⟩ := r
  cases rest with
  | cons t rest =>
    obtain rfl : task = t := by
      rcases taken with rfl | ⟨ended, -⟩
      · exact cursor
      · rw [cursor] at ended
        exact absurd ended (chain.ne_zero (by simp [Rotation.items]))
    exact ⟨⟨passed ++ [task], rest⟩, rfl, turning _ (by simp [Rotation.items])
      (follows passed rest rfl)⟩
  | nil =>
    cases passed with
    | nil => exact absurd rfl filled
    | cons t passed =>
      obtain rfl : task = t := by
        rcases taken with rfl | ⟨-, rfl⟩
        · exact absurd cursor ne
        · exact chain.start_eq
      exact ⟨⟨[task], passed⟩, rfl, turning _ (by simp [Rotation.items])
        (follows [] passed (by simp [Rotation.items]))⟩

theorem Picks.turns {picked : List Nat} (run : Picks s picked s') (h : Turning s r) :
    ∃ r', Turns r picked r' ∧ Turning s' r' := by
  induction run with
  | refl => exact ⟨r, .refl r, h⟩
  | add task fields lt ne fresh call ih =>
    obtain ⟨r', turns, turning⟩ := ih
    exact ⟨_, turns.push task, turning.add ne fresh call⟩
  | next lt call ih =>
    obtain ⟨r', turns, turning⟩ := ih
    obtain ⟨r'', picks, after⟩ := turning.next call
    exact ⟨r'', turns.pick picks, after⟩

end

/-- From any state that arrivals and picks lead to: between two successive picks of one task, every
other task that is ready at the first is picked exactly once. -/
theorem round_robin_fair {s0 s s1 s2 s3 : Sched} {mainloop task other : Nat}
    {earlier picked : List Nat} (nonzero : mainloop ≠ 0) (allocated : s0.allocated = [mainloop])
    (cleared : s0.next mainloop = 0) (run : Picks (initScheduler mainloop s0) earlier s)
    (first : getNextTask s = some (task, s1)) (between : Picks s1 picked s2)
    (others : task ∉ picked) (again : getNextTask s2 = some (task, s3))
    (ready : OnList s .ready other) (distinct : other ≠ task) : picked.count other = 1 := by
  obtain ⟨r, -, turning⟩ := run.turns (.start s0 nonzero allocated cleared)
  obtain ⟨r1, pick, turning1⟩ := turning.next first
  obtain ⟨r2, turns, turning2⟩ := between.turns turning1
  obtain ⟨r3, pick', -⟩ := turning2.next again
  obtain ⟨on, lists, items, -⟩ := turning
  obtain ⟨on2, lists2, items2, -⟩ := turning2
  refine turns.count_eq_one pick others pick' ?_ ?_ distinct
  · exact items2 ▸ lists2.nodup .ready
  · exact items ▸ lists.onList_iff.mp ready

theorem round_robin_fair_late_arrival :
    ∃ s s1, Picks (initScheduler 1 (initTasking 1 blankSched)) [] s ∧
      getNextTask s = some (1, s1) ∧ ∃ s2 s3, Picks s1 [2] s2 ∧
        getNextTask s2 = some (1, s3) ∧ ([2] : List Nat).count 2 = 1 := by
  have run : Picks (initScheduler 1 (initTasking 1 blankSched)) [] _ :=
    .add 2 (mainloopTask 2) (.refl _) (by decide) (by decide) rfl
  refine ⟨_, _, run, rfl, ?_⟩
  refine ⟨_, _, .add 3 (mainloopTask 3) (.next (.refl _) rfl) (by decide) (by decide) rfl, rfl, ?_⟩
  exact round_robin_fair (by decide) rfl rfl run rfl
    (.add 3 (mainloopTask 3) (.next (.refl _) rfl) (by decide) (by decide) rfl) (by decide) rfl
    ⟨[1, 2], ⟨rfl, by decide, rfl, by decide, rfl⟩, by decide⟩ (by decide)

end Yanix.Proc
