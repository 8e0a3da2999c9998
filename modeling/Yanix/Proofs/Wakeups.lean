/-
Module: Yanix.Proofs.Wakeups
Purpose: `task_wait` as two steps between which other tasks may run.  If the caller still
  has a child when it blocks, some live child will resume it.
-/
import Yanix.Proofs.Children

namespace Yanix.Proc

open Foundation List Option
open Function (update update_self update_of_ne)

variable {s s' : Sched} {on : ListName → List Nat} {task : Nat}

/-- Every pointer is null or names an allocated task, and so does the running one. -/
structure Grounded (s : Sched) : Prop where
  links : ∀ t ∈ s.allocated, s.next t = 0 ∨ s.next t ∈ s.allocated
  cursor : ∀ list, (s.lists list).next = 0 ∨ (s.lists list).next ∈ s.allocated
  running : s.runningtask ∈ s.allocated

variable {ret : Int}

section

variable {list : ListName} (h : Grounded s)

include h

theorem Grounded.relink {next' : Nat → Nat} {lists' : ListName → TaskList}
    (links : ∀ t, next' t = s.next t ∨ next' t = 0 ∨ next' t ∈ s.allocated)
    (cursors : ∀ list, (lists' list).next = (s.lists list).next ∨ (lists' list).next = 0 ∨
      (lists' list).next ∈ s.allocated) : Grounded { s with next := next', lists := lists' } := by
  refine ⟨?_, ?_, h.running⟩
  · intro t mem
    rcases links t with same | new
    · have old := h.links t mem
      rw [← same] at old
      exact old
    · exact new
  · intro list
    rcases cursors list with same | new
    · have old := h.cursor list
      rw [← same] at old
      exact old
    · exact new

theorem Grounded.addToList (mem : task ∈ s.allocated) (call : addToList list task s = some s') :
    Grounded s' := by
  have cleared (t : Nat) : update s.next task 0 t = s.next t ∨ update s.next task 0 t = 0 := by
    by_cases same : t = task
    · exact Or.inr (by simp [same])
    · exact Or.inl (update_of_ne same _ _)
  unfold Proc.addToList at call
  dsimp only at call
  split at call
  · cases call
    apply h.relink
    · exact fun t => (cleared t).imp_right Or.inl
    intro ne
    by_cases same : ne = list
    · exact Or.inr (Or.inr (by simpa [same, setList] using mem))
    · exact Or.inl (by simp [same])
  obtain ⟨last, -, ret⟩ := bind_eq_some_iff.mp call
  cases ret
  apply h.relink
  · intro t
    by_cases same : t = last
    · exact Or.inr (Or.inr (by simpa [same] using mem))
    · rw [update_of_ne same]
      exact (cleared t).imp_right Or.inl
  · exact fun _ => Or.inl rfl

theorem Grounded.removeFromList (mem : task ∈ s.allocated)
    (call : removeFromList list task s = some (ret, s')) :
    Grounded s' ∧ s'.allocated = s.allocated := by
  unfold Proc.removeFromList at call
  split at call
  · cases call
    exact ⟨h, rfl⟩
  obtain ⟨⟨prev, tmp⟩, walk, rest⟩ := bind_eq_some_iff.mp call
  dsimp only at rest
  split at rest
  · cases rest
    exact ⟨h, rfl⟩
  case isFalse ne =>
      obtain rfl : tmp = task := by simpa using (search_stops walk).resolve_left ne
      have successor := h.links tmp mem
      split at rest
      · cases rest
        refine ⟨h.relink ?_ ?_, rfl⟩
        · intro t
          by_cases same : t = prev
          · exact Or.inr (by simpa [same] using successor)
          · exact Or.inl (update_of_ne same _ _)
        · exact fun _ => Or.inl rfl
      cases rest
      refine ⟨h.relink ?_ ?_, rfl⟩
      · exact fun _ => Or.inl rfl
      intro other
      by_cases same : other = list
      · exact Or.inr (by simpa [same, setList] using successor)
      · exact Or.inl (by simp [same])

theorem Grounded.of_same (next : s'.next = s.next) (lists : s'.lists = s.lists)
    (allocated : s'.allocated = s.allocated) (running : s'.runningtask ∈ s.allocated) :
    Grounded s' := by
  refine ⟨?_, ?_, ?_⟩
  · rw [next, allocated]
    exact h.links
  · rw [lists, allocated]
    exact h.cursor
  · rw [allocated]
    exact running

theorem Grounded.moveTask (lists : Encodes s on) {source target : ListName} {pid : UInt32}
    (call : moveTask source target pid s = some (ret, s')) : Grounded s' := by
  have locked : Grounded (lockScheduler s) := h.of_same rfl rfl rfl h.running
  have lists' : Encodes (lockScheduler s) on := lists.of_heads rfl (fun _ => rfl) rfl
  rcases moveTask_cases call with rfl | ⟨task, r, left, found, ne, removal, last⟩
  · exact locked
  have mem : task ∈ s.allocated := by
    rw [lists'.findTaskInListByPid] at found
    cases looked : (on source).find? fun t => (s.task t).pid == pid with
    | none =>
      rw [lockScheduler_task, looked] at found
      exact absurd (some.inj found).symm ne
    | some t =>
      rw [lockScheduler_task, looked] at found
      cases found
      exact lists.known (mem_of_find?_eq_some looked)
  obtain ⟨removed, allocated⟩ := locked.removeFromList mem removal
  rcases last with rfl | ⟨joined, addition, rfl⟩
  · exact removed
  · have added := removed.addToList (allocated ▸ mem) addition
    exact added.of_same rfl rfl rfl added.running

theorem Grounded.switch (lists : Encodes s on) {u : Sched}
    (call : getNextTask s = some (task, u)) : Grounded (switchTask task u) := by
  have mem : task ∈ s.allocated := by
    obtain ⟨ne, -, rfl | ⟨-, rfl⟩⟩ := getNextTask_cases call
    · exact (h.cursor .ready).resolve_left ne
    · exact lists.known (lists.head_mem fun empty =>
        ne (lists.head_eq_zero_iff.mpr empty))
  obtain ⟨ne, rfl, -⟩ := getNextTask_cases call
  obtain ⟨keeps, next, heads⟩ := switchTask_keeps (advanced s task) task
  have stepped : Grounded (advanced s task) := by
    apply h.relink
    · exact fun _ => .inl rfl
    intro other
    by_cases same : other = .ready
    · subst same
      exact .inr (by simpa using h.links task mem)
    · exact .inl (by simp [same])
  refine stepped.of_same next heads keeps.allocated ?_
  rw [switchTask_runningtask _ ne]
  exact mem

theorem Grounded.schedule (lists : Encodes s on) (call : schedule s = some s') :
    Grounded s' := by
  obtain ⟨t, u, taken, rfl⟩ := schedule_cases call
  obtain ⟨-, rfl, -⟩ := getNextTask_cases taken
  have locked : Grounded (lockScheduler s) := h.of_same rfl rfl rfl h.running
  have switched := locked.switch (lists.of_heads rfl (fun _ => rfl) rfl) taken
  exact switched.of_same rfl rfl rfl switched.running

theorem Grounded.taskBlock (lists : Encodes s on) {pid : UInt32}
    (call : taskBlock pid s = some (ret, s')) : Grounded s' := by
  rcases lists.taskBlock call with ⟨-, rfl⟩ | ⟨-, t, mid, -, move, -, after, -, switched⟩
  · exact h.of_same rfl rfl rfl h.running
  · exact (h.moveTask lists move).schedule after switched

theorem Grounded.modifyTask (t : Nat) (f : Task → Task) : Grounded (s.modifyTask t f) :=
  h.of_same rfl rfl rfl h.running

theorem Grounded.killProc (lists : Encodes s on) (mem : task ∈ s.allocated)
    (call : killProc task s = some s') : Grounded s' := by
  obtain ⟨told, left, ret, notified, removal, last⟩ := killProc_cases call
  have marked := h.modifyTask task Task.killed
  have markedLists := lists.modifyTask task Task.killed
  obtain ⟨on', toldLists, how⟩ := markedLists.notifyParent notified
  have toldGrounded : Grounded told := by
    rcases notifyParent_cases notified with ⟨-, rfl⟩ | ⟨parent, r, -, -, -, resumed⟩
    · exact marked
    · exact (marked.modifyTask parent Task.childGone).moveTask
        (markedLists.modifyTask parent Task.childGone) resumed
  have stays : task ∈ told.allocated := by
    rw [how.allocated]
    exact mem
  obtain ⟨leftGrounded, -⟩ := toldGrounded.removeFromList stays removal
  rcases last with ⟨-, rfl⟩ | ⟨-, next, u, taken, rfl⟩
  · exact leftGrounded
  · exact leftGrounded.switch (toldLists.of_removeFromList removal).2 taken

end

/-- Where the runs start: nobody is blocked, all tasks count their live children, none is its own
parent. -/
structure ProcessTree (s : Sched) : Prop where
  lists : ∃ on, Encodes s on ∧ on .blocked = []
  family : Family s
  noSelf : ∀ t ∈ s.allocated, (s.task t).parent ≠ (s.task t).pid
  grounded : Grounded s

/-- The states of the task system in which `task_wait` is two steps, with the tasks that have passed
the test and not blocked yet. A task may block in the states where it `MayBlock`. -/
inductive WaitRun (MayBlock : Sched → Prop) : Sched → Finset Nat → Prop
  | start (s : Sched) (tree : ProcessTree s) : WaitRun MayBlock s ∅
  | test {s : Sched} {tested : Finset Nat} (before : WaitRun MayBlock s tested)
      (passed : hasChild s = true) : WaitRun MayBlock s (insert s.runningtask tested)
  | block {s s' : Sched} {tested : Finset Nat} {ret : Int} (before : WaitRun MayBlock s tested)
      (passed : s.runningtask ∈ tested) (mayBlock : MayBlock s)
      (call : taskBlock (getpid s) s = some (ret, s')) :
      WaitRun MayBlock s' (tested.erase s.runningtask)
  | kill {s s' : Sched} {tested : Finset Nat} (task : Nat) (before : WaitRun MayBlock s tested)
      (live : Live s task) (call : killProc task s = some s') : WaitRun MayBlock s' tested
  | preempt {s s' : Sched} {tested : Finset Nat} (before : WaitRun MayBlock s tested)
      (call : schedule s = some s') : WaitRun MayBlock s' tested

/-- Whoever is blocked has a live child. -/
structure Waiting (s : Sched) (on : ListName → List Nat) : Prop where
  lists : Encodes s on
  family : Family s
  noSelf : ∀ t ∈ s.allocated, (s.task t).parent ≠ (s.task t).pid
  grounded : Grounded s
  awaited : ∀ t ∈ on .blocked, (liveChildren s t).Nonempty

section

variable {on on' : ListName → List Nat}

theorem Waiting.rearrange (h : Waiting s on) (keeps : KeepsTasks s s') (lists : Encodes s' on')
    (grounded : Grounded s')
    (awaited : ∀ t ∈ on' .blocked, (liveChildren s t).Nonempty) : Waiting s' on' := by
  refine ⟨lists, h.family.of_keeps keeps, ?_, grounded, ?_⟩
  · intro t known
    rw [keeps.allocated] at known
    rw [keeps.parent, keeps.pid]
    exact h.noSelf t known
  · intro t mem
    rw [liveChildren_of_keeps keeps]
    exact awaited t mem

theorem Family.hasChild_iff (h : Family s) (mem : task ∈ s.allocated) :
    (s.task task).childamount ≠ 0 ↔ (liveChildren s task).Nonempty := by
  rw [← Finset.card_pos, ← h.counts task mem, Ne, ← UInt32.toNat_inj]
  exact Nat.pos_iff_ne_zero.symm

theorem Waiting.block (h : Waiting s on) (child : hasChild s = true)
    (call : taskBlock (getpid s) s = some (ret, s')) : ∃ on', Waiting s' on' := by
  have grounded := h.grounded.taskBlock h.lists call
  rcases h.lists.taskBlock call with
    ⟨-, rfl⟩ | ⟨-, t, mid, looked, -, same, after, -, switched⟩
  · exact ⟨on, h.rearrange (lockScheduler_sameTasks s).keeps
      (h.lists.of_heads rfl (fun _ => rfl) rfl) grounded h.awaited⟩
  obtain ⟨lists, keeps⟩ := after.schedule switched
  refine ⟨_, h.rearrange (same.keeps.trans keeps) lists grounded ?_⟩
  -- The task that is moved is the caller, who has a child.
  have caller : t = s.runningtask := by
    have pid : (s.task t).pid = (s.task s.runningtask).pid := by
      simpa [getpid] using find?_some looked
    exact h.family.pids t (h.lists.known (mem_of_find?_eq_some looked)) _ h.grounded.running pid
  intro u mem
  have either : u ∈ on .blocked ∨ u = t := by simpa [moved] using mem
  rcases either with old | rfl
  · exact h.awaited u old
  · rw [caller]
    exact (h.family.hasChild_iff h.grounded.running).mp (by simpa [hasChild] using child)

theorem liveChildren_told {told : Sched} (notified : Notified (s.modifyTask task Task.killed) on
    task told on') (t : Nat) : liveChildren told t = (liveChildren s t).erase task := by
  rw [← liveChildren_killed]
  cases notified with
  | alone => rfl
  | counted =>
    rw [liveChildren_of_keeps (lockScheduler_sameTasks _).keeps, liveChildren_childGone]
  | resumed named ne found asleep same cursor =>
    rw [liveChildren_of_keeps same.keeps, liveChildren_childGone]

theorem Waiting.find_parent (h : Waiting s on) {t : Nat} (blocked : t ∈ on .blocked)
    (child : task ∈ liveChildren s t) :
    (on .blocked).find? (fun u => ((s.modifyTask task Task.killed).task u).pid ==
      ((s.modifyTask task Task.killed).task task).parent) = some t := by
  have parentField := modifyTask_field Task.parent Task.killed (fun _ => rfl) s task task
  have pidField := modifyTask_field Task.pid Task.killed (fun _ => rfl) s task
  simp only [pidField, parentField, (mem_liveChildren.mp child).2]
  exact h.lists.find?_of_mem h.family.pids blocked

theorem Waiting.kill (h : Waiting s on) (live : Live s task) (call : killProc task s = some s') :
    ∃ on', Waiting s' on' := by
  obtain ⟨told, on', -, notified, keeps, lists, -⟩ := h.lists.killProc call
  obtain ⟨allocated, -, pid, parent⟩ := h.lists.killProc_keeps call
  refine ⟨_, lists, h.family.kill h.lists live call, ?_,
    h.grounded.killProc h.lists live.1 call, ?_⟩
  · intro t known
    rw [allocated] at known
    rw [pid, parent]
    exact h.noSelf t known
  · intro t mem
    have there : t ∈ on' .blocked := by simpa using mem
    -- Whoever is still blocked when a task has ended was not its parent.
    obtain ⟨blocked, other⟩ : t ∈ on .blocked ∧ task ∉ liveChildren s t := by
      have parentField := modifyTask_field Task.parent Task.killed (fun _ => rfl) s task task
      cases notified with
      | alone orphan =>
        refine ⟨there, fun child => ?_⟩
        rw [parentField, (mem_liveChildren.mp child).2] at orphan
        exact h.family.nonzero t (h.lists.known there) orphan
      | counted named ne found awake =>
        refine ⟨there, fun child => ?_⟩
        rw [h.find_parent there child] at awake
        cases awake
      | resumed named ne found asleep same cursor =>
        rename_i waiting
        have kept : t ∈ (on .blocked).erase waiting := by simpa [moved] using there
        have blocked := mem_of_mem_erase kept
        refine ⟨blocked, fun child => ?_⟩
        rw [h.find_parent blocked child] at asleep
        cases asleep
        exact (h.lists.nodup .blocked).not_mem_erase kept
    rw [liveChildren_of_keeps keeps, liveChildren_told notified, Finset.erase_eq_of_notMem other]
    exact h.awaited t blocked

end

theorem WaitRun.waiting {s : Sched} {tested : Finset Nat}
    (run : WaitRun (fun s => hasChild s = true) s tested) : ∃ on, Waiting s on := by
  induction run with
  | start s tree =>
    obtain ⟨on, lists, nobody⟩ := tree.lists
    exact ⟨on, lists, tree.family, tree.noSelf, tree.grounded, by simp [nobody]⟩
  | test lt passed ih => exact ih
  | block lt passed mayBlock call ih =>
    obtain ⟨on, h⟩ := ih
    exact h.block mayBlock call
  | kill task lt live call ih =>
    obtain ⟨on, h⟩ := ih
    exact h.kill live call
  | preempt lt call ih =>
    obtain ⟨on, h⟩ := ih
    obtain ⟨lists, keeps⟩ := h.lists.schedule call
    exact ⟨on, h.rearrange keeps lists (h.grounded.schedule h.lists call) h.awaited⟩

/-! ## The child that resumes -/

section

variable {s : Sched} {task child : Nat}

theorem Waiting.killProc (h : Waiting s on) (blocked : task ∈ on .blocked)
    (mine : child ∈ liveChildren s task) :
    ∃ s', killProc child s = some s' ∧ OnList s' .ready task := by
  have other : task ≠ child := by
    rintro rfl
    obtain ⟨live, own⟩ := mem_liveChildren.mp mine
    exact h.noSelf task live.1 own
  obtain ⟨told, notified, lists⟩ : ∃ told, notifyParent child (s.modifyTask child Task.killed) =
      some told ∧ Encodes told (moved on .blocked .ready task) := by
    have marked := h.lists.modifyTask child Task.killed
    have keepsPid := modifyTask_field Task.pid Task.killed (fun _ => rfl) s child
    have pids : DistinctPids (s.modifyTask child Task.killed) := by
      intro t inT u inU same
      rw [keepsPid, keepsPid] at same
      exact h.family.pids t inT u inU same
    have named : ((s.modifyTask child Task.killed).task child).parent =
        ((s.modifyTask child Task.killed).task task).pid := by
      rw [keepsPid, modifyTask_field Task.parent Task.killed (fun _ => rfl)]
      exact (mem_liveChildren.mp mine).2
    have ne : ((s.modifyTask child Task.killed).task child).parent ≠ 0 := by
      rw [named, keepsPid]
      exact h.family.nonzero task (h.lists.known blocked)
    have found : findTaskByPid ((s.modifyTask child Task.killed).task child).parent
        (s.modifyTask child Task.killed) = some task := by
      rw [named]
      exact marked.findTaskByPid_of_mem pids blocked
    have exists' : task ≠ 0 := (h.lists.linked .blocked).ne_zero blocked
    have looked := h.find_parent blocked mine
    simp only [← modifyTask_field Task.pid Task.childGone (fun _ => rfl)
      (s.modifyTask child Task.killed) task] at looked
    obtain ⟨told, move, -, -, after, -⟩ := (marked.modifyTask task Task.childGone).moveTask
        (show ListName.blocked ≠ .ready by decide) looked
    refine ⟨told, ?_, after⟩
    rw [notifyParent_of_found ne found exists', Proc.taskResume, move]
    rfl
  have ready : task ∈ moved on .blocked .ready task .ready := by simp [moved]
  obtain ⟨ret, left, removal⟩ : ∃ ret left, removeFromReadyList child told = some (ret, left) := by
    by_cases mem : child ∈ moved on .blocked .ready task .ready
    · obtain ⟨u, removal, -⟩ := lists.removeFromList mem
      exact ⟨0, u, removal⟩
    · exact ⟨-1, told, lists.removeFromList_missing mem⟩
  have stays : task ∈ (moved on .blocked .ready task .ready).erase child :=
    (mem_erase_of_ne other).mpr ready
  have after := (lists.of_removeFromList removal).2
  have filled : update (moved on .blocked .ready task) .ready
      ((moved on .blocked .ready task .ready).erase child) .ready ≠ [] := by
    rw [update_self]
    exact ne_nil_of_mem stays
  obtain ⟨next, u, taken⟩ := after.getNextTask filled
  rw [killProc_eq, notified, bind_some, removal, bind_some]
  split
  · refine ⟨_, by rw [taken]; rfl, ?_⟩
    obtain ⟨-, rfl, -⟩ := getNextTask_cases taken
    obtain ⟨keeps, links, heads⟩ := switchTask_keeps (advanced left next) next
    have last := (after.advanced next).of_heads links
      (fun list => congrArg (fun l => (l list).head) heads) keeps.allocated
    exact last.onList_iff.mpr (by simpa using stays)
  · exact ⟨_, rfl, after.onList_iff.mpr (by simpa using stays)⟩

end

/-- If every task that blocks in `task_wait` still has a child at that moment, every task on
the blocked list has a live child, and the end of that child makes it ready. -/
theorem waiting_has_child {s : Sched} {tested : Finset Nat}
    (run : WaitRun (fun s => hasChild s = true) s tested) (task : Nat)
    (blocked : OnList s .blocked task) :
    ∃ child ∈ liveChildren s task, ∃ s', killProc child s = some s' ∧ OnList s' .ready task := by
  obtain ⟨on, h⟩ := run.waiting
  have mem := h.lists.onList_iff.mp blocked
  obtain ⟨child, mine⟩ := h.awaited task mem
  exact ⟨child, mine, h.killProc mem mine⟩

/-- The first task has forked a second one, which has forked a third and is running. -/
def threeTasks : Sched :=
  let story := do
    let (_, s) ← fork 2 (initTasking 1 blankSched)
    let s ← schedule s
    let s ← schedule s
    fork 3 s
  match story with
  | some (_, s) => s
  | none => blankSched

theorem threeTasks_tree : ProcessTree threeTasks := by
  refine ⟨⟨update (fun _ => []) .ready [1, 2, 3], ⟨?_, ?_, ?_, ?_⟩, rfl⟩,
    ⟨?_, ?_, ?_⟩, ?_, ?_, ?_, ?_⟩
  · intro list
    cases list with
    | ready => exact ⟨rfl, by decide, rfl, by decide, rfl, by decide, rfl⟩
    | sleep => exact rfl
    | blocked => exact rfl
  · intro list
    cases list <;> decide
  · intro a b t inA inB
    cases a <;> cases b <;> simp_all
  · intro list t mem
    cases list with
    | ready =>
      rw [update_self] at mem
      exact (by decide : ∀ t ∈ [1, 2, 3], t ∈ threeTasks.allocated) t mem
    | sleep => cases mem
    | blocked => cases mem
  · unfold DistinctPids
    decide
  · decide
  · decide
  · decide
  · decide
  · intro list
    cases list <;> decide
  · decide

theorem waiting_has_child_threeTasks :
    ∃ s tested, WaitRun (fun s => hasChild s = true) s tested ∧ OnList s .blocked 2 ∧
      ∃ child, child ∈ liveChildren s 2 := by
  have story : ∃ s tested, WaitRun (fun s => hasChild s = true) s tested ∧ OnList s .blocked 2 :=
    ⟨_, _, .block (.test (.start threeTasks threeTasks_tree) rfl) (by decide) rfl rfl,
      [2], ⟨rfl, by decide, rfl⟩, by decide⟩
  obtain ⟨s, tested, run, blocked⟩ := story
  exact ⟨s, tested, run, blocked, (waiting_has_child run 2 blocked).imp fun _ h => h.1⟩

/-- The third task ends between the test of the second and its move to the blocked list: the wakeup
finds nobody, and nobody is left to resume the second. -/
theorem waiting_has_child_lost_wakeup :
    ∃ s tested, WaitRun (fun _ => True) s tested ∧ OnList s .blocked 2 ∧ liveChildren s 2 = ∅ := by
  refine ⟨_, _, .block (.preempt (.kill 3 (.preempt (.preempt (.preempt (.test
    (.start threeTasks threeTasks_tree) rfl) rfl) rfl) rfl) ⟨by decide, by decide⟩ rfl) rfl)
    (by decide) trivial rfl, ⟨[2], ⟨rfl, by decide, rfl⟩, by decide⟩, by decide⟩

end Yanix.Proc
