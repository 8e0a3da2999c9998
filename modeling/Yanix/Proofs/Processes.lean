/-
Module: Yanix.Proofs.Processes
Purpose: What `fork`, `kill_proc` and `task_wait` do to the task lists; a killed task
  never runs again if it is ready and not under the cursor.
-/
import Yanix.Proofs.TaskLists

namespace Yanix.Proc

open Foundation List Option
open Function (update update_self update_of_ne)

variable {newTask : Nat} {pid : UInt32} {ret : Int}

section

variable {s s' : Sched} {on : ListName → List Nat} {task : Nat}

theorem Encodes.modifyTask (h : Encodes s on) (task : Nat) (f : Task → Task) :
    Encodes (s.modifyTask task f) on :=
  h.of_heads rfl (fun _ => rfl) rfl

/-- The task that `fork` makes of the running one. -/
def childOf (s : Sched) : Task := createdTask (s.task s.runningtask) (s.task s.runningtask)
    ((s.task s.runningtask).ring == 0) s.pids

/-- The tasks after a `fork`: the child is new and the parent has one child more. -/
def forkedTasks (s : Sched) (newTask : Nat) : Nat → Task :=
  update (update s.task newTask (childOf s)) s.runningtask
    { s.task s.runningtask with childamount := (s.task s.runningtask).childamount + 1 }

theorem Encodes.fork (h : Encodes s on) (running : s.runningtask ∈ s.allocated)
    (fresh : newTask ∉ s.allocated) (call : fork newTask s = some (pid, s')) :
    newTask ≠ 0 ∧ s'.allocated = newTask :: s.allocated ∧ s'.runningtask = s.runningtask ∧
      s'.pids = s.pids + 1 ∧
      s'.task = forkedTasks s newTask ∧
      Encodes s' (update on .ready (on .ready ++ [newTask])) ∧
      s'.lists = if on .ready = [] then update s.lists .ready (setList newTask)
        else s.lists := by
  have absent : ∀ list, newTask ∉ on list := fun list mem => fresh (h.known mem)
  have ne : s.runningtask ≠ newTask := fun same => fresh (same ▸ running)
  by_cases nonzero : newTask = 0
  · simp [Proc.fork, nonzero] at call
  let copied : Sched := { s with
    task := update s.task newTask (s.task s.runningtask)
    next := update s.next newTask (s.next s.runningtask)
    allocated := newTask :: s.allocated }
  have copiedLists : Encodes copied on :=
    ⟨fun list => (h.linked list).frame (absent list) _, h.nodup, h.apart,
      fun mem => mem_cons_of_mem _ (h.known mem)⟩
  have createdLists :
      Encodes (createTask newTask ((s.task s.runningtask).ring == 0) copied) on :=
    copiedLists.of_heads rfl (fun _ => rfl) rfl
  obtain ⟨u, addition, relinks, lists, cursors⟩ :=
    createdLists.addToList absent nonzero mem_cons_self .ready
  have ret : Proc.fork newTask s = some ((u.task newTask).pid, u) := by
    simp only [Proc.fork, if_neg nonzero, addTaskToQueue]
    show (Proc.addToList .ready newTask
      (createTask newTask ((s.task s.runningtask).ring == 0) copied)).bind _ = _
    rw [addition]
    rfl
  cases ret.symm.trans call
  refine ⟨nonzero, relinks.allocated, relinks.runningtask, relinks.pids, ?_, lists, cursors⟩
  rw [relinks.task]
  simp [createTask, Sched.modifyTask, copied, forkedTasks, childOf, update_of_ne ne]

/-! ## `kill_proc` -/

/-- One child less. -/
def Task.childGone (task : Task) : Task := { task with childamount := task.childamount - 1 }

def Task.killed (task : Task) : Task := { task with state := .zombie }

theorem notifyParent_of_found {parent : Nat} (named : (s.task task).parent ≠ 0)
    (found : findTaskByPid (s.task task).parent s = some parent) (ne : parent ≠ 0) :
    notifyParent task s =
      (taskResume (s.task task).parent (s.modifyTask parent Task.childGone)).bind
        fun ret => some ret.2 := by
  have same : ((s.modifyTask parent Task.childGone).task task).parent = (s.task task).parent := by
    by_cases own : task = parent
    · simp [Sched.modifyTask, own, Task.childGone]
    · simp [Sched.modifyTask, own]
  rw [← same]
  unfold notifyParent
  rw [if_pos named, found]
  simp only [bind_eq_bind, bind_some, if_neg ne]
  rfl

theorem notifyParent_cases (call : notifyParent task s = some s') :
    ((s.task task).parent = 0 ∧ s' = s) ∨
    ∃ parent ret, (s.task task).parent ≠ 0 ∧ parent ≠ 0 ∧
      findTaskByPid (s.task task).parent s = some parent ∧
      taskResume (s.task task).parent (s.modifyTask parent Task.childGone) = some (ret, s') := by
  by_cases named : (s.task task).parent = 0
  · unfold notifyParent at call
    rw [if_neg (not_not.mpr named)] at call
    exact .inl ⟨named, (some.inj call).symm⟩
  right
  cases found : findTaskByPid (s.task task).parent s with
  | none => simp [notifyParent, named, found] at call
  | some parent =>
    by_cases null : parent = 0
    · simp [notifyParent, named, found, null] at call
    rw [notifyParent_of_found named found null] at call
    obtain ⟨⟨ret, last⟩, resumed, answer⟩ := bind_eq_some_iff.mp call
    cases answer
    exact ⟨parent, ret, named, null, rfl, resumed⟩

theorem taskWait_cases (call : taskWait s = some (ret, s')) : (hasChild s = false ∧ s' = s) ∨
      hasChild s = true ∧ ∃ ret', taskBlock (getpid s) s = some (ret', s') := by
  unfold taskWait at call
  split at call
  case isTrue child =>
      obtain ⟨⟨ret', u⟩, blocked, answer⟩ := bind_eq_some_iff.mp call
      cases answer
      exact .inr ⟨child, ret', blocked⟩
  case isFalse none =>
      cases call
      exact .inl ⟨by simpa using none, rfl⟩

theorem modifyTask_field {β : Type} (field : Task → β) (f : Task → Task)
    (kept : ∀ r, field (f r) = field r) (s : Sched) (task t : Nat) :
    field ((s.modifyTask task f).task t) = field (s.task t) := by
  by_cases same : t = task
  · simp [Sched.modifyTask, same, kept]
  · simp [Sched.modifyTask, same]

/-- The ways in which the parent of `task` is told that it has one child less. -/
inductive Notified (s : Sched) (on : ListName → List Nat) (task : Nat) :
    Sched → (ListName → List Nat) → Prop
  | alone (orphan : (s.task task).parent = 0) : Notified s on task s on
  | counted {parent : Nat} (named : (s.task task).parent ≠ 0) (nonzero : parent ≠ 0)
      (found : findTaskByPid (s.task task).parent s = some parent)
      (awake : (on .blocked).find? (fun t => (s.task t).pid == (s.task task).parent) = none) :
      Notified s on task (lockScheduler (s.modifyTask parent Task.childGone)) on
  | resumed {s' : Sched} {parent waiting : Nat} (named : (s.task task).parent ≠ 0)
      (nonzero : parent ≠ 0) (found : findTaskByPid (s.task task).parent s = some parent)
      (asleep : (on .blocked).find? (fun t => (s.task t).pid == (s.task task).parent) =
        some waiting)
      (same : SameTasks (s.modifyTask parent Task.childGone) s')
      (cursor : (s'.lists .ready).next =
        if on .ready = [] then waiting else (s.lists .ready).next) :
      Notified s on task s' (moved on .blocked .ready waiting)

theorem Notified.allocated {on' : ListName → List Nat} (notified : Notified s on task s' on') :
    s'.allocated = s.allocated := by
  cases notified with
  | alone => rfl
  | counted => rfl
  | resumed named ne found asleep same cursor => exact same.allocated

theorem Encodes.notifyParent (h : Encodes s on) (call : notifyParent task s = some s') :
    ∃ on', Encodes s' on' ∧ Notified s on task s' on' := by
  rcases notifyParent_cases call with ⟨orphan, rfl⟩ | ⟨parent, ret, named, ne, found, resumed⟩
  · exact ⟨on, h, .alone orphan⟩
  have counted := h.modifyTask parent Task.childGone
  have pids (t : Nat) : ((s.modifyTask parent Task.childGone).task t).pid = (s.task t).pid :=
    modifyTask_field Task.pid Task.childGone (fun _ => rfl) s parent t
  rcases counted.taskResume (s.task task).parent with
    ⟨missed, looked⟩ | ⟨waiting, u, move, looked, same, after, cursor⟩
  · cases missed.symm.trans resumed
    simp only [pids] at looked
    exact ⟨on, counted.of_heads rfl (fun _ => rfl) rfl, .counted named ne found looked⟩
  cases move.symm.trans resumed
  simp only [pids] at looked
  exact ⟨_, after, .resumed named ne found looked same cursor⟩

theorem killProc_eq (task : Nat) (s : Sched) :
    killProc task s = (notifyParent task (s.modifyTask task Task.killed)).bind fun told =>
      (removeFromReadyList task told).bind fun ret =>
        if ret.2.runningtask = task then
          (getNextTask ret.2).bind fun next => some (switchTask next.1 next.2)
        else some ret.2 := rfl

/-- The end of a task: it is marked, its parent is told, it leaves the ready list, and if it
was running the next task takes over. -/
theorem killProc_cases (call : killProc task s = some s') :
    ∃ told left ret, notifyParent task (s.modifyTask task Task.killed) = some told ∧
      removeFromReadyList task told = some (ret, left) ∧
      (left.runningtask ≠ task ∧ s' = left ∨
        left.runningtask = task ∧ ∃ next u, getNextTask left = some (next, u) ∧
          s' = switchTask next u) := by
  rw [killProc_eq] at call
  obtain ⟨told, notified, rest⟩ := bind_eq_some_iff.mp call
  obtain ⟨⟨ret, left⟩, removal, last⟩ := bind_eq_some_iff.mp rest
  refine ⟨told, left, ret, notified, removal, ?_⟩
  by_cases current : left.runningtask = task
  · rw [if_pos current] at last
    obtain ⟨⟨next, u⟩, taken, switched⟩ := bind_eq_some_iff.mp last
    exact .inr ⟨current, next, u, taken, (some.inj switched).symm⟩
  · rw [if_neg current] at last
    exact .inl ⟨current, (some.inj last).symm⟩

/-- `kill_proc` on the lists: the parent is told, and the task leaves the ready list. Switching to
the next task changes no task that has used none of its slice. -/
theorem Encodes.killProc (h : Encodes s on) (call : killProc task s = some s') :
    ∃ told on', Encodes told on' ∧ Notified (s.modifyTask task Task.killed) on task told on' ∧
      KeepsTasks told s' ∧
      Encodes s' (update on' .ready ((on' .ready).erase task)) ∧
      ∀ t, (told.task t).sliceused = 0 → s'.task t = told.task t := by
  obtain ⟨told, left, ret, notified, removal, last⟩ := killProc_cases call
  obtain ⟨on', lists, cases'⟩ := (h.modifyTask task Task.killed).notifyParent notified
  obtain ⟨relinks, removed⟩ := lists.of_removeFromList removal
  refine ⟨told, on', lists, cases', ?_⟩
  rcases last with ⟨-, rfl⟩ | ⟨-, next, u, taken, rfl⟩
  · exact ⟨relinks.keeps, removed, fun t _ => by rw [relinks.task]⟩
  obtain ⟨-, rfl, -⟩ := getNextTask_cases taken
  obtain ⟨keeps, links, heads⟩ := switchTask_keeps (Proc.advanced left next) next
  have stepped := removed.advanced next
  refine ⟨relinks.keeps.trans ⟨keeps.allocated, keeps.pids, keeps.pid, keeps.parent,
    keeps.childamount, keeps.state⟩, ?_, ?_⟩
  · exact stepped.of_heads links (fun list => congrArg (fun l => (l list).head) heads)
      keeps.allocated
  intro t unused
  rw [← relinks.task] at unused ⊢
  rcases switchTask_cases (Proc.advanced left next) next with stays | ⟨-, goes⟩
  · rw [stays]
    rfl
  rw [goes]
  by_cases own : t = next
  · subst own
    simp only [update_self]
    rw [← unused]
    rfl
  · exact update_of_ne own ..

end

/-! ## Killed tasks -/

/-- The killed tasks are on no list, and the cursor of the ready list is on some list. -/
structure Buried (s : Sched) (on : ListName → List Nat) (killed : Finset Nat) : Prop where
  lists : Encodes s on
  gone : ∀ t ∈ killed, ∀ list, t ∉ on list
  cursor : (s.lists .ready).next = 0 ∨ ∃ list, (s.lists .ready).next ∈ on list
  known : ∀ t ∈ killed, t ∈ s.allocated

/-- The running task is an allocated one that was not killed. -/
structure RunsLive (s : Sched) (killed : Finset Nat) : Prop where
  live : s.runningtask ∉ killed
  known : s.runningtask ∈ s.allocated

variable {u : Sched} {task : Nat}

section

variable {s s' : Sched} {on on' : ListName → List Nat} {killed : Finset Nat}
  (h : Buried s on killed)

include h

theorem Buried.of_same (next : s'.next = s.next) (lists : s'.lists = s.lists)
    (allocated : s'.allocated = s.allocated) : Buried s' on killed := by
  refine ⟨h.lists.of_heads next (fun _ => by rw [lists]) allocated, h.gone, ?_, ?_⟩
  · rw [lists]
    exact h.cursor
  · rw [allocated]
    exact h.known

theorem Buried.rearrange (lists : Encodes s' on')
    (members : ∀ t, (∃ list, t ∈ on' list) ↔ ∃ list, t ∈ on list)
    (cursor : (s'.lists .ready).next = 0 ∨ ∃ list, (s'.lists .ready).next ∈ on list)
    (allocated : s'.allocated = s.allocated) : Buried s' on' killed := by
  refine ⟨lists, ?_, ?_, ?_⟩
  · intro t dead list mem
    obtain ⟨old, was⟩ := (members t).mp ⟨list, mem⟩
    exact h.gone t dead old was
  · exact cursor.imp_right fun mem => (members _).mpr mem
  · rw [allocated]
    exact h.known

theorem Buried.taken (call : getNextTask s = some (task, u)) : ∃ list, task ∈ on list := by
  obtain ⟨ne, -, rfl | ⟨-, rfl⟩⟩ := getNextTask_cases call
  · exact h.cursor.resolve_left ne
  · refine ⟨.ready, h.lists.head_mem fun empty => ne ?_⟩
    exact h.lists.head_eq_zero_iff.mpr empty

omit h

theorem switchTask_runningtask (s : Sched) (ne : task ≠ 0) :
    (switchTask task s).runningtask = task := by
  unfold switchTask
  split
  · assumption
  · rfl

include h

theorem Buried.switch (call : getNextTask s = some (task, u)) :
    Buried (switchTask task u) on killed ∧ RunsLive (switchTask task u) killed := by
  obtain ⟨list, there⟩ := h.taken call
  obtain ⟨ne, rfl, -⟩ := getNextTask_cases call
  obtain ⟨keeps, next, lists⟩ := switchTask_keeps (advanced s task) task
  have stepped : Buried (advanced s task) on killed := by
    refine h.rearrange (h.lists.advanced task) (fun _ => Iff.rfl) ?_ rfl
    rw [advanced_ready]
    rcases (h.lists.linked list).next_mem there with mem | ended
    · exact .inr ⟨list, mem⟩
    · exact .inl ended
  refine ⟨stepped.of_same next lists keeps.allocated, ?_, ?_⟩
  · rw [switchTask_runningtask _ ne]
    exact fun dead => h.gone task dead list there
  · rw [switchTask_runningtask _ ne, keeps.allocated]
    exact h.lists.known there

theorem Buried.schedule (call : schedule s = some s') :
    Buried s' on killed ∧ RunsLive s' killed := by
  obtain ⟨t, u, taken, rfl⟩ := schedule_cases call
  obtain ⟨-, rfl, -⟩ := getNextTask_cases taken
  have locked : Buried (lockScheduler s) on killed := h.of_same rfl rfl rfl
  obtain ⟨buried, runs⟩ := locked.switch taken
  exact ⟨buried.of_same rfl rfl rfl, runs.live, runs.known⟩

theorem Buried.cursor_after_erase {next : Nat}
    (moved : next = if (on .ready).head? = some task then ((on .ready).erase task).headD 0
      else (s.lists .ready).next) : next = 0 ∨ ∃ list, next ∈ on list := by
  rw [moved]
  split
  · cases rest : (on .ready).erase task with
    | nil => exact .inl rfl
    | cons t others =>
      have kept : t ∈ (on .ready).erase task := by
        rw [rest]
        exact mem_cons_self
      exact .inr ⟨.ready, mem_of_mem_erase kept⟩
  · exact h.cursor

theorem Buried.block (runs : RunsLive s killed) (call : taskBlock pid s = some (ret, s')) :
    ∃ on', Buried s' on' killed ∧ RunsLive s' killed := by
  rcases h.lists.taskBlock call with
    ⟨-, rfl⟩ | ⟨-, t, mid, looked, -, same, after, cursors, switched⟩
  · exact ⟨on, h.of_same rfl rfl rfl, runs.live, runs.known⟩
  have mem := mem_of_find?_eq_some looked
  have moved := h.rearrange after (mem_moved_iff (by decide) mem)
    (h.cursor_after_erase cursors) same.allocated
  exact ⟨_, moved.schedule switched⟩

theorem Buried.resumed (mem : task ∈ on .blocked)
    (lists : Encodes s' (moved on .blocked .ready task)) (allocated : s'.allocated = s.allocated)
    (cursor : (s'.lists .ready).next = if on .ready = [] then task else (s.lists .ready).next) :
    Buried s' (moved on .blocked .ready task) killed := by
  refine h.rearrange lists (mem_moved_iff (by decide) mem) ?_ allocated
  rw [cursor]
  split
  · exact .inr ⟨.blocked, mem⟩
  · exact h.cursor

theorem Buried.resume (runs : RunsLive s killed) (call : taskResume pid s = some (ret, s')) :
    ∃ on', Buried s' on' killed ∧ RunsLive s' killed := by
  rcases h.lists.taskResume pid with ⟨missed, -⟩ | ⟨t, u, move, looked, same, after, cursor⟩
  · cases missed.symm.trans call
    exact ⟨on, h.of_same rfl rfl rfl, runs.live, runs.known⟩
  cases move.symm.trans call
  refine ⟨_, h.resumed (mem_of_find?_eq_some looked) after same.allocated cursor, ?_, ?_⟩
  · rw [same.runningtask]
    exact runs.live
  · rw [same.runningtask, same.allocated]
    exact runs.known

theorem Buried.fork (runs : RunsLive s killed) (fresh : newTask ∉ s.allocated)
    (call : fork newTask s = some (pid, s')) :
    ∃ on', Buried s' on' killed ∧ RunsLive s' killed := by
  obtain ⟨-, allocated, running, -, -, lists, cursors⟩ := h.lists.fork runs.known fresh call
  refine ⟨_, ⟨lists, ?_, ?_, ?_⟩, ?_, ?_⟩
  · intro t dead list mem
    have old : t ≠ newTask := fun same => fresh (same ▸ h.known t dead)
    rcases (exists_mem_update on .ready _ t).mp ⟨list, mem⟩ with here | ⟨ne, -, was⟩
    · rcases mem_append.mp here with was | new
      · exact h.gone t dead .ready was
      · exact old (mem_singleton.mp new)
    · exact h.gone t dead ne was
  · rw [cursors]
    split
    · refine Or.inr ⟨.ready, ?_⟩
      simp [setList]
    refine h.cursor.imp_right fun mem => ?_
    rw [exists_mem_split on .ready] at mem
    rw [exists_mem_update]
    exact mem.imp_left fun ready => mem_append_left _ ready
  · intro t dead
    rw [allocated]
    exact mem_cons_of_mem _ (h.known t dead)
  · rw [running]
    exact runs.live
  · rw [running, allocated]
    exact mem_cons_of_mem _ runs.known

omit h

/-- The task is ready, and either first or not where the cursor is. -/
def KillSafe (s : Sched) (task : Nat) : Prop := OnList s .ready task ∧ CursorSafe s task

include h

theorem Buried.notify (mem : task ∈ on .ready) (safe : CursorSafe s task)
    (call : notifyParent task s = some s') :
    ∃ on', Buried s' on' killed ∧ task ∈ on' .ready ∧ CursorSafe s' task ∧
      s'.runningtask = s.runningtask ∧ s'.allocated = s.allocated := by
  have filled : on .ready ≠ [] := ne_nil_of_mem mem
  obtain ⟨on', lists, notified⟩ := h.lists.notifyParent call
  cases notified with
  | alone orphan => exact ⟨on, h, mem, safe, rfl, rfl⟩
  | counted named ne found awake =>
    exact ⟨on, h.of_same rfl rfl rfl, mem, safe, rfl, rfl⟩
  | resumed named ne found asleep same cursor =>
    rename_i waiting
    have buried := h.resumed (mem_of_find?_eq_some asleep) lists same.allocated cursor
    rw [if_neg filled] at cursor
    have ready : moved on .blocked .ready waiting .ready = on .ready ++ [waiting] := by
      simp [moved]
    have head : (s'.lists .ready).head = (s.lists .ready).head := by
      have first := h.lists.head?_eq filled
      have after := lists.head?_eq (by simp [ready])
      rw [ready, head?_append_of_ne_nil _ filled, first] at after
      exact (some.inj after).symm
    refine ⟨_, buried, ?_, ?_, same.runningtask, same.allocated⟩
    · rw [ready]
      exact mem_append_left _ mem
    unfold CursorSafe
    rw [head, cursor]
    exact safe

theorem Buried.bury (mem : task ∈ on .ready) (safe : CursorSafe s task) :
    ∃ s' on', removeFromReadyList task s = some (0, s') ∧ Buried s' on' (insert task killed) ∧
      s'.runningtask = s.runningtask ∧ s'.allocated = s.allocated := by
  have filled : on .ready ≠ [] := ne_nil_of_mem mem
  obtain ⟨u, removal, relinks, lists, cursors⟩ := h.lists.removeFromList mem
  refine ⟨u, _, removal, ⟨lists, ?_, ?_, ?_⟩, relinks.runningtask, relinks.allocated⟩
  · intro t dead list there
    rcases (exists_mem_update on .ready _ t).mp ⟨list, there⟩ with kept | ⟨ne, away, was⟩
    · rcases Finset.mem_insert.mp dead with rfl | lt
      · exact (h.lists.nodup .ready).not_mem_erase kept
      · exact h.gone t lt .ready (mem_of_mem_erase kept)
    rcases Finset.mem_insert.mp dead with rfl | lt
    · exact away (h.lists.apart was mem)
    · exact h.gone t lt ne was
  · rw [cursors]
    by_cases first : (on .ready).head? = some task
    · rw [if_pos first, update_self]
      cases rest : (on .ready).erase task with
      | nil => exact .inl rfl
      | cons t others => exact .inr ⟨.ready, by simp [setList]⟩
    rw [if_neg first]
    refine h.cursor.imp_right fun there => ?_
    have ne : (s.lists .ready).next ≠ task := by
      rcases safe with head | elsewhere
      · exact absurd (head ▸ h.lists.head?_eq filled) first
      · exact Ne.symm elsewhere
    rw [exists_mem_split on .ready] at there
    rw [exists_mem_update]
    exact there.imp_left fun ready => (mem_erase_of_ne ne).mpr ready
  · intro t dead
    rw [relinks.allocated]
    rcases Finset.mem_insert.mp dead with rfl | lt
    · exact h.lists.known mem
    · exact h.known t lt

theorem Buried.kill (runs : RunsLive s killed) (safe : KillSafe s task)
    (call : killProc task s = some s') :
    ∃ on', Buried s' on' (insert task killed) ∧ RunsLive s' (insert task killed) := by
  obtain ⟨told, left, ret, notified, removal, last⟩ := killProc_cases call
  have marked : Buried (s.modifyTask task Task.killed) on killed := h.of_same rfl rfl rfl
  obtain ⟨on', buried, mem, safe', running, allocated⟩ :=
    marked.notify (h.lists.onList_iff.mp safe.1) safe.2 notified
  obtain ⟨u, on'', removal', gone, running', allocated'⟩ := buried.bury mem safe'
  cases removal'.symm.trans removal
  have same : left.runningtask = s.runningtask := running'.trans running
  rcases last with ⟨ne, rfl⟩ | ⟨-, next, v, taken, rfl⟩
  · refine ⟨on'', gone, ?_, ?_⟩
    · rw [Finset.mem_insert, not_or]
      refine ⟨ne, ?_⟩
      rw [same]
      exact runs.live
    · rw [same, allocated'.trans allocated]
      exact runs.known
  · exact ⟨on'', gone.switch taken⟩

end

/-- The states of the task system through `fork`, `task_wait`, `task_block`, `task_resume`,
`kill_proc` and `schedule`, with the tasks killed. A task may be killed in the states where it is
`Killable`. -/
inductive KillRun (Killable : Sched → Nat → Prop) : Sched → Finset Nat → Prop
  | start (s : Sched) (mainloop : Nat) (nonzero : mainloop ≠ 0) :
      KillRun Killable (initTasking mainloop s) ∅
  | fork {s s' : Sched} {killed : Finset Nat} {pid : UInt32} (newTask : Nat)
      (before : KillRun Killable s killed) (fresh : newTask ∉ s.allocated)
      (call : fork newTask s = some (pid, s')) : KillRun Killable s' killed
  | wait {s s' : Sched} {killed : Finset Nat} {ret : Int} (before : KillRun Killable s killed)
      (call : taskWait s = some (ret, s')) : KillRun Killable s' killed
  | block {s s' : Sched} {killed : Finset Nat} {ret : Int} (pid : UInt32)
      (before : KillRun Killable s killed) (call : taskBlock pid s = some (ret, s')) :
      KillRun Killable s' killed
  | resume {s s' : Sched} {killed : Finset Nat} {ret : Int} (pid : UInt32)
      (before : KillRun Killable s killed) (call : taskResume pid s = some (ret, s')) :
      KillRun Killable s' killed
  | kill {s s' : Sched} {killed : Finset Nat} (task : Nat) (before : KillRun Killable s killed)
      (allocated : task ∈ s.allocated) (killable : Killable s task)
      (call : killProc task s = some s') : KillRun Killable s' (insert task killed)
  | schedule {s s' : Sched} {killed : Finset Nat} (before : KillRun Killable s killed)
      (call : schedule s = some s') : KillRun Killable s' killed

theorem KillRun.buried {s : Sched} {killed : Finset Nat} (run : KillRun KillSafe s killed) :
    ∃ on, Buried s on killed ∧ RunsLive s killed := by
  induction run with
  | start s mainloop ne =>
    obtain ⟨on, h, cursor⟩ := Partition.initTasking s ne
    refine ⟨on, ⟨h.lists, by simp, ?_, by simp⟩, by simp, ?_⟩
    · exact cursor.imp_right fun mem => ⟨.ready, mem⟩
    · simp [initTasking, initScheduler]
  | fork newTask lt fresh call ih =>
    obtain ⟨on, h, runs⟩ := ih
    exact h.fork runs fresh call
  | wait lt call ih =>
    obtain ⟨on, h, runs⟩ := ih
    rcases taskWait_cases call with ⟨-, rfl⟩ | ⟨-, ret', blocked⟩
    · exact ⟨on, h, runs⟩
    · exact h.block runs blocked
  | block pid lt call ih =>
    obtain ⟨on, h, runs⟩ := ih
    exact h.block runs call
  | resume pid lt call ih =>
    obtain ⟨on, h, runs⟩ := ih
    exact h.resume runs call
  | kill task lt allocated killable call ih =>
    obtain ⟨on, h, runs⟩ := ih
    exact h.kill runs killable call
  | schedule lt call ih =>
    obtain ⟨on, h, runs⟩ := ih
    exact ⟨on, h.schedule call⟩

/-- If tasks are only killed while they are ready and not under the cursor, no killed task is
ever running or about to be taken. -/
theorem killed_never_runs {s : Sched} {killed : Finset Nat} (run : KillRun KillSafe s killed) :
    s.runningtask ∉ killed ∧ ∀ task s', getNextTask s = some (task, s') → task ∉ killed := by
  obtain ⟨on, h, runs⟩ := run.buried
  refine ⟨runs.live, ?_⟩
  intro task s' call dead
  obtain ⟨list, mem⟩ := h.taken call
  exact h.gone task dead list mem

theorem killed_never_runs_forked :
    ∃ s, KillRun KillSafe s {2} ∧ s.runningtask ∉ ({2} : Finset Nat) := by
  have run : KillRun KillSafe _ _ :=
    .kill 2 (.fork 2 (.start blankSched 1 (by decide)) (by decide) rfl) (by decide)
      ⟨⟨[1, 2], ⟨rfl, by decide, rfl, by decide, rfl⟩, by decide⟩, by decide⟩ rfl
  exact ⟨_, run, (killed_never_runs run).1⟩

/-- A task is killed while it waits for its child.  It stays on the blocked list, so that the
end of the child makes it ready, and it runs again. -/
theorem killed_never_runs_resumed :
    ∃ s killed, KillRun (fun _ _ => True) s killed ∧ 2 ∈ killed ∧ s.runningtask = 2 := by
  refine ⟨_, _,
    .schedule (.kill 3 (.schedule (.kill 2 (.wait (.fork 3 (.schedule (.schedule (.fork 2
      (.start blankSched 1 (by decide)) (by decide) rfl) rfl) rfl) (by decide) rfl) rfl)
      (by decide) trivial rfl) rfl) (by decide) trivial rfl) rfl, ?_, rfl⟩
  decide

end Yanix.Proc
