/-
Module: Yanix.Proofs.TaskLists
Purpose: The operations of the scheduler on the three task lists as operations on lists of tasks;
  in its runs they partition the tasks, and the cursor stays on the ready list unless its task is
  removed.
-/
import Mathlib.Data.Finset.Card
import Mathlib.Data.List.Perm.Subperm
import Yanix.Proc.Sched

namespace Yanix.Proc

open Foundation List Option

variable {s : Sched} {ret : Int} {pid : UInt32} {on : ListName → List Nat} {list : ListName}
  {task : Nat} {present : Finset Nat}

section

open Function (update update_self update_of_ne update_eq_self)

/-- The tasks linked into each list, which are no other list's and were all allocated. -/
structure Encodes (s : Sched) (on : ListName → List Nat) : Prop where
  linked : ∀ list, Linked s.next (s.lists list).head (on list) 0
  nodup : ∀ list, (on list).Nodup
  apart : ∀ {a b : ListName} {t : Nat}, t ∈ on a → t ∈ on b → a = b
  known : ∀ {list : ListName} {t : Nat}, t ∈ on list → t ∈ s.allocated

/-- The tasks themselves are as they were. -/
structure SameTasks (s s' : Sched) : Prop where
  task : s'.task = s.task
  allocated : s'.allocated = s.allocated
  runningtask : s'.runningtask = s.runningtask
  pids : s'.pids = s.pids

/-- Nothing but links and lists has changed. -/
structure Relinks (s s' : Sched) : Prop extends SameTasks s s' where
  schedulerLocks : s'.schedulerLocks = s.schedulerLocks
  interrupts : s'.interrupts = s.interrupts

/-- The lock is held as often as before; once nobody holds it, interrupts are on. -/
structure Releases (s s' : Sched) : Prop where
  locks : s'.schedulerLocks = s.schedulerLocks
  interrupts : s.schedulerLocks = 0 → s'.interrupts = true

theorem Releases.unlock {u : Sched} (locked : u.schedulerLocks = s.schedulerLocks + 1) :
    Releases s (unlockScheduler u) := by
  have locks : u.schedulerLocks - 1 = s.schedulerLocks := by rw [locked, UInt32.add_sub_cancel]
  refine ⟨locks, fun free => ?_⟩
  rw [free] at locks
  simp [unlockScheduler, locks]

theorem SameTasks.refl (s : Sched) : SameTasks s s := ⟨rfl, rfl, rfl, rfl⟩

theorem lockScheduler_sameTasks (s : Sched) : SameTasks s (lockScheduler s) := ⟨rfl, rfl, rfl, rfl⟩

/-- What a task is does not change: neither who it is nor whether it lives. -/
structure KeepsTasks (s s' : Sched) : Prop where
  allocated : s'.allocated = s.allocated
  pids : s'.pids = s.pids
  pid : ∀ t, (s'.task t).pid = (s.task t).pid
  parent : ∀ t, (s'.task t).parent = (s.task t).parent
  childamount : ∀ t, (s'.task t).childamount = (s.task t).childamount
  state : ∀ t, (s'.task t).state = (s.task t).state

variable {s' : Sched}

theorem SameTasks.keeps (same : SameTasks s s') : KeepsTasks s s' where
  allocated := same.allocated
  pids := same.pids
  pid t := by rw [same.task]
  parent t := by rw [same.task]
  childamount t := by rw [same.task]
  state t := by rw [same.task]

theorem KeepsTasks.trans {s'' : Sched} (first : KeepsTasks s s') (second : KeepsTasks s' s'') :
    KeepsTasks s s'' where
  allocated := second.allocated.trans first.allocated
  pids := second.pids.trans first.pids
  pid t := (second.pid t).trans (first.pid t)
  parent t := (second.parent t).trans (first.parent t)
  childamount t := (second.childamount t).trans (first.childamount t)
  state t := (second.state t).trans (first.state t)

theorem Relinks.of_eq (next : Nat → Nat) (lists : ListName → TaskList) :
    Relinks s { s with next := next, lists := lists } :=
  ⟨⟨rfl, rfl, rfl, rfl⟩, rfl, rfl⟩

variable {source target : ListName}

section

variable (h : Encodes s on)

include h

theorem Encodes.length_lt (list : ListName) : (on list).length < s.walkLimit := by
  have contained : on list ⊆ s.allocated := fun t mem => h.known mem
  exact Nat.lt_succ_of_le ((h.nodup list).subperm contained).length_le

theorem Encodes.head_eq (list : ListName) : (s.lists list).head = (on list).headD 0 :=
  (h.linked list).start_eq

theorem Encodes.head_eq_zero_iff : (s.lists list).head = 0 ↔ on list = [] := by
  rw [h.head_eq]
  cases nodes : on list with
  | nil => simp
  | cons t rest => simpa using (h.linked list).ne_zero (by simp [nodes])

theorem Encodes.replace {nodes : List Nat} {next' : Nat → Nat} {lists' : ListName → TaskList}
    (linked : Linked next' (lists' list).head nodes 0) (nodup : nodes.Nodup)
    (origin : ∀ t ∈ nodes, t ∈ on list ∨ t ∈ s.allocated ∧ ∀ ne, t ∉ on ne)
    (others : ∀ ne, ne ≠ list → Linked next' (lists' ne).head (on ne) 0) :
    Encodes { s with next := next', lists := lists' } (update on list nodes) := by
  refine ⟨?_, ?_, ?_, ?_⟩
  · intro ne
    by_cases same : ne = list
    · subst same
      rwa [update_self]
    · rw [update_of_ne same]
      exact others ne same
  · intro ne
    by_cases same : ne = list
    · subst same
      rwa [update_self]
    · rw [update_of_ne same]
      exact h.nodup ne
  · have mixed : ∀ {ne t}, ne ≠ list → t ∈ nodes → t ∉ on ne := by
      intro ne t distinct new old
      cases origin t new with
      | inl kept => exact distinct (h.apart old kept)
      | inr fresh => exact fresh.2 ne old
    intro a b t inA inB
    by_cases isA : a = list <;> by_cases isB : b = list
    · rw [isA, isB]
    · subst isA
      rw [update_self] at inA
      rw [update_of_ne isB] at inB
      exact absurd inB (mixed isB inA)
    · subst isB
      rw [update_self] at inB
      rw [update_of_ne isA] at inA
      exact absurd inA (mixed isA inB)
    · rw [update_of_ne isA] at inA
      rw [update_of_ne isB] at inB
      exact h.apart inA inB
  · intro ne t mem
    by_cases same : ne = list
    · subst same
      rw [update_self] at mem
      cases origin t mem with
      | inl kept => exact h.known kept
      | inr fresh => exact fresh.1
    · rw [update_of_ne same] at mem
      exact h.known mem

theorem Encodes.addToList (fresh : ∀ list, task ∉ on list) (ne : task ≠ 0)
    (known : task ∈ s.allocated) (list : ListName) :
    ∃ s', addToList list task s = some s' ∧ Relinks s s' ∧
      Encodes s' (update on list (on list ++ [task])) ∧
      s'.lists = if on list = [] then update s.lists list (setList task)
        else s.lists := by
  have cleared (other : ListName) :
      Linked (update s.next task 0) (s.lists other).head (on other) 0 :=
    (h.linked other).frame (fresh other) 0
  have origin : ∀ t ∈ on list ++ [task], t ∈ on list ∨ t ∈ s.allocated ∧ ∀ other, t ∉ on other := by
    intro t mem
    rcases mem_append.mp mem with old | new
    · exact Or.inl old
    · rw [mem_singleton.mp new]
      exact Or.inr ⟨known, fresh⟩
  have nodup : (on list ++ [task]).Nodup := by
    rw [← concat_eq_append]
    exact (h.nodup list).concat (fresh list)
  unfold Proc.addToList
  rcases eq_nil_or_concat' (on list) with empty | ⟨front, last, nodes⟩
  · refine ⟨_, if_pos (h.head_eq_zero_iff.mpr empty), .of_eq _ _, ?_, by rw [if_pos empty]⟩
    refine h.replace ?_ nodup origin ?_
    · rw [update_self, empty]
      refine ⟨rfl, ne, ?_⟩
      rw [update_self]
      exact rfl
    · intro other distinct
      rw [update_of_ne distinct]
      exact cleared other
  · have filled : on list ≠ [] := by simp [nodes]
    have chain := cleared list
    rw [nodes] at chain
    have short := h.length_lt list
    rw [nodes, length_append, length_singleton] at short
    have found := lastFrom_eq chain (Nat.lt_of_succ_lt short)
    rw [if_neg (fun zero => filled (h.head_eq_zero_iff.mp zero)), found]
    refine ⟨_, rfl, .of_eq _ _, ?_, by rw [if_neg filled]⟩
    refine h.replace ?_ nodup origin ?_
    · have away := fresh list
      rw [nodes] at away ⊢
      have distinct := h.nodup list
      rw [nodes] at distinct
      exact chain.append distinct ne away (update_self ..)
    · intro other distinct
      refine (cleared other).frame (fun mem => ?_) task
      exact distinct (h.apart mem (show last ∈ on list by simp [nodes]))

theorem Encodes.removeFromList (mem : task ∈ on list) :
    ∃ s', removeFromList list task s = some (0, s') ∧ Relinks s s' ∧
      Encodes s' (update on list ((on list).erase task)) ∧
      s'.lists = if (on list).head? = some task then
        update s.lists list (setList (((on list).erase task).headD 0)) else s.lists := by
  obtain ⟨front, back, nodes⟩ := append_of_mem mem
  have distinct := h.nodup list
  have chain := h.linked list
  have short := h.length_lt list
  rw [nodes] at distinct chain short
  obtain ⟨-, -, apart⟩ := nodup_append.mp distinct
  have notBefore : task ∉ front := fun early => apart task early task (by simp) rfl
  have erased : (on list).erase task = front ++ back := by
    rw [nodes, erase_append_right _ notBefore, erase_cons_head]
  have ne : task ≠ 0 := chain.ne_zero (by simp)
  have found : search (· == task) s.next s.walkLimit 0 (s.lists list).head =
      some (front.getLastD 0, task) := by
    refine search_found chain ?_ ?_ (by simp)
    · simp only [length_append, length_cons] at short
      omega
    · intro t early
      simpa using fun same : t = task => notBefore (same ▸ early)
  have origin : ∀ t ∈ (on list).erase task, t ∈ on list ∨ t ∈ s.allocated ∧ ∀ other, t ∉ on other :=
    fun t kept => Or.inl (mem_of_mem_erase kept)
  have filled : (s.lists list).head ≠ 0 := by
    rw [Ne, h.head_eq_zero_iff, nodes]
    simp
  unfold Proc.removeFromList
  rw [if_neg filled, found]
  simp only [bind_eq_bind, bind_some, if_neg ne]
  rcases eq_nil_or_concat' front with rfl | ⟨front, lt, rfl⟩
  · refine ⟨_, rfl, .of_eq _ _, ?_, ?_⟩
    · refine h.replace ?_ ((h.nodup list).erase task) origin ?_
      · rw [update_self, erased]
        exact chain.2.2
      · intro other distinct
        rw [update_of_ne distinct]
        exact h.linked other
    · have rest := chain.2.2.start_eq
      rw [if_pos (by simp [nodes]), erased]
      simp [rest]
  · have first : (on list).head? ≠ some task := by
      intro same
      rw [nodes, head?_append_of_ne_nil _ (by simp)] at same
      exact notBefore (mem_of_mem_head? same)
    have beforeNonzero : lt ≠ 0 := chain.ne_zero (by simp)
    rw [getLastD_concat, if_pos beforeNonzero]
    refine ⟨_, rfl, .of_eq _ _, ?_, by rw [if_neg first]⟩
    refine h.replace ?_ ((h.nodup list).erase task) origin ?_
    · rw [erased]
      exact chain.unlink distinct
    intro other away
    refine (h.linked other).frame (fun there => ?_) _
    exact away (h.apart there (show lt ∈ on list by simp [nodes]))

theorem Encodes.removeFromList_missing (missing : task ∉ on list) :
    Proc.removeFromList list task s = some (-1, s) := by
  unfold Proc.removeFromList
  split
  · rfl
  have found : search (· == task) s.next s.walkLimit 0 (s.lists list).head =
      some ((on list).getLastD 0, 0) := by
    refine search_missing (h.linked list) (h.length_lt list) ?_
    intro t mem
    simpa using fun same : t = task => missing (same ▸ mem)
  rw [found]
  rfl

theorem Encodes.of_removeFromList (call : Proc.removeFromList list task s = some (ret, s')) :
    Relinks s s' ∧ Encodes s' (update on list ((on list).erase task)) := by
  by_cases mem : task ∈ on list
  · obtain ⟨u, removal, relinks, after, -⟩ := h.removeFromList mem
    cases removal.symm.trans call
    exact ⟨relinks, after⟩
  cases (h.removeFromList_missing mem).symm.trans call
  rw [erase_of_not_mem mem, update_eq_self]
  exact ⟨.of_eq .., h⟩

theorem Encodes.findTaskInListByPid (list : ListName) (pid : UInt32) :
    Proc.findTaskInListByPid list pid s =
      some (((on list).find? fun t => (s.task t).pid == pid).getD 0) := by
  unfold Proc.findTaskInListByPid
  cases looked : (on list).find? fun t => (s.task t).pid == pid with
  | none =>
    rw [search_missing (h.linked list) (h.length_lt list)]
    · rfl
    · intro t mem
      simpa using find?_eq_none.mp looked t mem
  | some t =>
    obtain ⟨here, front, back, nodes, lt⟩ := find?_eq_some_iff_append.mp looked
    have chain := h.linked list
    have short := h.length_lt list
    rw [nodes] at chain short
    rw [search_found chain (by simp at short; omega) (by simpa using lt) here]
    rfl

theorem Encodes.taskCountList (list : ListName) :
    Proc.taskCountList list s = some (on list).length :=
  countFrom_eq (h.linked list) (h.length_lt list)

omit h

@[simp] theorem lockScheduler_task (s : Sched) : (lockScheduler s).task = s.task := rfl

@[simp] theorem unlockScheduler_lists (s : Sched) : (unlockScheduler s).lists = s.lists := rfl

include h

theorem Encodes.of_heads (next : s'.next = s.next)
    (heads : ∀ list, (s'.lists list).head = (s.lists list).head)
    (allocated : s'.allocated = s.allocated) : Encodes s' on := by
  refine ⟨?_, h.nodup, h.apart, ?_⟩
  · intro list
    rw [next, heads]
    exact h.linked list
  intro list t mem
  rw [allocated]
  exact h.known mem

omit h

/-- The lists after a task has left one for the end of another. -/
def moved (on : ListName → List Nat) (source target : ListName) (task : Nat) :
    ListName → List Nat :=
  update (update on source ((on source).erase task)) target (on target ++ [task])

theorem moveTask_cases (call : moveTask source target pid s = some (ret, s')) :
    s' = lockScheduler s ∨
    ∃ task r left, findTaskInListByPid source pid (lockScheduler s) = some task ∧ task ≠ 0 ∧
      removeFromList source task (lockScheduler s) = some (r, left) ∧
      (s' = left ∨ ∃ joined, addToList target task left = some joined ∧
        s' = unlockScheduler joined) := by
  obtain ⟨task, found, rest⟩ := bind_eq_some_iff.mp call
  dsimp only at rest
  split at rest
  · cases rest
    exact .inl rfl
  case isFalse ne =>
      obtain ⟨⟨r, left⟩, removal, last⟩ := bind_eq_some_iff.mp rest
      refine .inr ⟨task, r, left, found, ne, removal, ?_⟩
      split at last
      · cases last
        exact .inl rfl
      obtain ⟨joined, addition, answer⟩ := bind_eq_some_iff.mp last
      cases answer
      exact .inr ⟨joined, addition, rfl⟩

include h

theorem Encodes.moveTask_missing (target : ListName)
    (looked : (on source).find? (fun t => (s.task t).pid == pid) = none) :
    moveTask source target pid s = some (-1, lockScheduler s) := by
  have locked : Encodes (lockScheduler s) on := h.of_heads rfl (fun _ => rfl) rfl
  have found := locked.findTaskInListByPid source pid
  rw [lockScheduler_task, looked] at found
  simp [moveTask, found]

/-- The task found leaves one list and joins the other. The cursor of the first is moved only if the
task was its head, that of the second only if it was empty. -/
theorem Encodes.moveTask (distinct : source ≠ target)
    (looked : (on source).find? (fun t => (s.task t).pid == pid) = some task) :
    ∃ s', moveTask source target pid s = some (0, s') ∧ SameTasks s s' ∧
      Releases s s' ∧ Encodes s' (moved on source target task) ∧
      ((s'.lists source).next = if (on source).head? = some task then
        ((on source).erase task).headD 0 else (s.lists source).next) ∧
      ((s'.lists target).next = if on target = [] then task else (s.lists target).next) := by
  have locked : Encodes (lockScheduler s) on := h.of_heads rfl (fun _ => rfl) rfl
  have found := locked.findTaskInListByPid source pid
  rw [lockScheduler_task, looked] at found
  have mem := mem_of_find?_eq_some looked
  have ne := (h.linked source).ne_zero mem
  obtain ⟨left, removal, relinks, without, cursors⟩ := locked.removeFromList mem
  have gone : ∀ list, task ∉ update on source ((on source).erase task) list := by
    intro list
    by_cases same : list = source
    · subst same
      rw [update_self]
      exact (h.nodup list).not_mem_erase
    · rw [update_of_ne same]
      exact fun there => same (h.apart there mem)
  have known : task ∈ left.allocated := by
    rw [relinks.allocated]
    exact h.known mem
  obtain ⟨joined, addition, relinks', together, cursors'⟩ := without.addToList gone ne known target
  have otherwise : update on source ((on source).erase task) target = on target :=
    update_of_ne (Ne.symm distinct) _ _
  rw [otherwise] at together cursors'
  refine ⟨unlockScheduler joined, ?_, ?_, ?_, ?_, ?_, ?_⟩
  · simp [Proc.moveTask, found, ne, removal, addition]
  · exact ⟨relinks'.task.trans relinks.task, relinks'.allocated.trans relinks.allocated,
      relinks'.runningtask.trans relinks.runningtask, relinks'.pids.trans relinks.pids⟩
  · exact .unlock (relinks'.schedulerLocks.trans relinks.schedulerLocks)
  · exact together.of_heads rfl (fun _ => rfl) rfl
  · have unmoved : joined.lists source = left.lists source := by
      rw [cursors']
      split
      · exact update_of_ne distinct _ _
      · rfl
    rw [unlockScheduler_lists, unmoved, cursors]
    split
    · rw [update_self]
      rfl
    · rfl
  · have unmoved : left.lists target = s.lists target := by
      rw [cursors]
      split
      · exact update_of_ne (Ne.symm distinct) _ _
      · rfl
    rw [unlockScheduler_lists, cursors']
    split
    · rw [update_self]
      rfl
    · rw [unmoved]

/-! ## Taking the next task -/

omit h

/-- The state after the cursor has moved on from `task`. -/
def advanced (s : Sched) (task : Nat) : Sched :=
  { s with lists := update s.lists .ready ⟨(s.lists .ready).head, s.next task⟩ }

@[simp] theorem advanced_ready (s : Sched) (task : Nat) :
    (advanced s task).lists .ready = ⟨(s.lists .ready).head, s.next task⟩ := by
  simp [advanced]

theorem getNextTask_cases (call : getNextTask s = some (task, s')) :
    task ≠ 0 ∧ s' = advanced s task ∧ (task = (s.lists .ready).next ∨
        (s.lists .ready).next = 0 ∧ task = (s.lists .ready).head) := by
  unfold getNextTask getNextFromList at call
  dsimp only at call
  split at call
  case isTrue cursor =>
      cases call
      exact ⟨cursor, rfl, .inl rfl⟩
  case isFalse ended =>
      split at call
      case isTrue => cases call
      case isFalse filled =>
          cases call
          exact ⟨filled, rfl, .inr ⟨not_not.mp ended, rfl⟩⟩

include h

theorem Encodes.getNextTask (filled : on .ready ≠ []) :
    ∃ t s', getNextTask s = some (t, s') := by
  have first : (s.lists .ready).head ≠ 0 := fun zero => filled (h.head_eq_zero_iff.mp zero)
  unfold Proc.getNextTask getNextFromList
  dsimp only
  split <;> exact ⟨_, _, rfl⟩

theorem Encodes.advanced (task : Nat) : Encodes (advanced s task) on := by
  refine h.of_heads rfl ?_ rfl
  intro list
  by_cases same : list = .ready
  · rw [same]
    simp [Proc.advanced]
  · simp [Proc.advanced, same]

omit h

theorem switchTask_cases (s : Sched) (task : Nat) :
    switchTask task s = s ∨ task ≠ 0 ∧ switchTask task s = { s with
        runningtask := task
        task := update s.task task { s.task task with sliceused := 0 } } := by
  unfold switchTask
  split
  · exact .inl rfl
  split
  · exact .inl rfl
  · exact .inr ⟨‹_›, rfl⟩

theorem switchTask_keeps (s : Sched) (task : Nat) :
    KeepsTasks s (switchTask task s) ∧ (switchTask task s).next = s.next ∧
      (switchTask task s).lists = s.lists := by
  have field {β : Type} (f : Task → β) (other : ∀ r : Task, f { r with sliceused := 0 } = f r)
      (t : Nat) : f (update s.task task { s.task task with sliceused := 0 } t) = f (s.task t) := by
    by_cases same : t = task
    · rw [same, update_self, other]
    · rw [update_of_ne same]
  rcases switchTask_cases s task with stays | ⟨-, goes⟩
  · rw [stays]
    exact ⟨SameTasks.keeps ⟨rfl, rfl, rfl, rfl⟩, rfl, rfl⟩
  rw [goes]
  exact ⟨⟨rfl, rfl, field Task.pid fun _ => rfl, field Task.parent fun _ => rfl,
    field Task.childamount fun _ => rfl, field Task.state fun _ => rfl⟩, rfl, rfl⟩

theorem schedule_cases (call : schedule s = some s') :
    ∃ t u, getNextTask (lockScheduler s) = some (t, u) ∧
      s' = unlockScheduler (switchTask t (Proc.advanced (lockScheduler s) t)) := by
  unfold schedule at call
  cases taken : getNextTask (lockScheduler s) with
  | none =>
    rw [taken] at call
    cases call
  | some ret =>
    obtain ⟨t, u⟩ := ret
    obtain ⟨ne, rfl, -⟩ := getNextTask_cases taken
    rw [taken] at call
    refine ⟨t, _, rfl, ?_⟩
    simpa [ne] using call.symm

include h

theorem Encodes.schedule (call : schedule s = some s') : Encodes s' on ∧ KeepsTasks s s' := by
  obtain ⟨t, u, -, rfl⟩ := schedule_cases call
  obtain ⟨keeps, next, lists⟩ := switchTask_keeps (Proc.advanced (lockScheduler s) t) t
  have stepped : Encodes (Proc.advanced (lockScheduler s) t) on :=
    (h.of_heads rfl (fun _ => rfl) rfl : Encodes (lockScheduler s) on).advanced t
  constructor
  · exact stepped.of_heads next (fun list => congrArg (fun l => (l list).head) lists)
      keeps.allocated
  · exact ⟨keeps.allocated, keeps.pids, keeps.pid, keeps.parent, keeps.childamount, keeps.state⟩

theorem Encodes.schedule_returns (filled : on .ready ≠ []) :
    ∃ s', Proc.schedule s = some s' := by
  have locked : Encodes (lockScheduler s) on := h.of_heads rfl (fun _ => rfl) rfl
  obtain ⟨t, u, taken⟩ := locked.getNextTask filled
  unfold Proc.schedule
  rw [taken]
  exact ⟨_, rfl⟩

/-- What a call of `task_block` that comes back has done: only taken the lock when no ready task has
this pid, and otherwise a move, after which it schedules. -/
theorem Encodes.taskBlock (call : taskBlock pid s = some (ret, s')) :
    (ret = -1 ∧ s' = lockScheduler s) ∨
    (ret = 0 ∧ ∃ t mid, (on .ready).find? (fun t => (s.task t).pid == pid) = some t ∧
      Proc.moveTask .ready .blocked pid s = some (0, mid) ∧ SameTasks s mid ∧
        Encodes mid (moved on .ready .blocked t) ∧
      ((mid.lists .ready).next = if (on .ready).head? = some t then
        ((on .ready).erase t).headD 0 else (s.lists .ready).next) ∧
      Proc.schedule mid = some s') := by
  unfold Proc.taskBlock at call
  cases looked : (on .ready).find? fun t => (s.task t).pid == pid with
  | none =>
    rw [h.moveTask_missing .blocked looked] at call
    left
    simpa [eq_comm] using call
  | some t =>
    obtain ⟨mid, move, same, -, after, cursor, -⟩ :=
      h.moveTask (show ListName.ready ≠ .blocked by decide) looked
    rw [move] at call
    right
    cases switched : Proc.schedule mid with
    | none => simp [switched] at call
    | some last =>
      have back : 0 = ret ∧ last = s' := by simpa [switched] using call
      rw [back.2] at switched
      exact ⟨back.1.symm, t, mid, rfl, move, same, after, cursor, switched⟩

theorem Encodes.taskResume (pid : UInt32) : (taskResume pid s = some (-1, lockScheduler s) ∧
      (on .blocked).find? (fun t => (s.task t).pid == pid) = none) ∨
    ∃ t s', taskResume pid s = some (0, s') ∧
      (on .blocked).find? (fun t => (s.task t).pid == pid) = some t ∧
      SameTasks s s' ∧ Encodes s' (moved on .blocked .ready t) ∧
      (s'.lists .ready).next = if on .ready = [] then t else (s.lists .ready).next := by
  cases looked : (on .blocked).find? fun t => (s.task t).pid == pid with
  | none => exact Or.inl ⟨h.moveTask_missing .ready looked, rfl⟩
  | some t =>
    obtain ⟨s', move, same, -, after, -, cursor⟩ :=
      h.moveTask (show ListName.blocked ≠ .ready by decide) looked
    exact Or.inr ⟨t, s', move, rfl, same, after, cursor⟩

end

theorem mem_moved_iff {on : ListName → List Nat} {task : Nat} (distinct : source ≠ target)
    (mem : task ∈ on source) (t : Nat) :
    (∃ list, t ∈ moved on source target task list) ↔ ∃ list, t ∈ on list := by
  constructor
  · rintro ⟨list, there⟩
    unfold moved at there
    by_cases isTarget : list = target
    · subst isTarget
      rw [update_self] at there
      rcases mem_append.mp there with old | new
      · exact ⟨list, old⟩
      · rw [mem_singleton.mp new]
        exact ⟨source, mem⟩
    rw [update_of_ne isTarget] at there
    by_cases isSource : list = source
    · subst isSource
      rw [update_self] at there
      exact ⟨list, mem_of_mem_erase there⟩
    · rw [update_of_ne isSource] at there
      exact ⟨list, there⟩
  · rintro ⟨list, there⟩
    unfold moved
    by_cases same : t = task
    · refine ⟨target, ?_⟩
      rw [update_self, same]
      simp
    refine ⟨list, ?_⟩
    by_cases isTarget : list = target
    · subst isTarget
      rw [update_self]
      exact mem_append_left _ there
    rw [update_of_ne isTarget]
    by_cases isSource : list = source
    · subst isSource
      rw [update_self]
      exact (mem_erase_of_ne same).mpr there
    · rw [update_of_ne isSource]
      exact there

theorem exists_mem_split (on : ListName → List Nat) (list : ListName) (t : Nat) :
    (∃ ne, t ∈ on ne) ↔ t ∈ on list ∨ ∃ ne, ne ≠ list ∧ t ∈ on ne := by
  constructor
  · rintro ⟨ne, mem⟩
    by_cases same : ne = list
    · exact .inl (same ▸ mem)
    · exact .inr ⟨ne, same, mem⟩
  · rintro (here | ⟨ne, -, mem⟩)
    · exact ⟨list, here⟩
    · exact ⟨ne, mem⟩

theorem exists_mem_update (on : ListName → List Nat) (list : ListName) (nodes : List Nat)
    (t : Nat) :
    (∃ ne, t ∈ update on list nodes ne) ↔ t ∈ nodes ∨ ∃ ne, ne ≠ list ∧ t ∈ on ne := by
  rw [exists_mem_split _ list, update_self]
  refine or_congr Iff.rfl (exists_congr fun ne => and_congr_right fun away => ?_)
  rw [update_of_ne away]

theorem Encodes.allocate {on : ListName → List Nat} (h : Encodes s on) (memory : Nat → Task)
    (task : Nat) : Encodes { s with task := memory, allocated := task :: s.allocated } on :=
  ⟨h.linked, h.nodup, h.apart, fun mem => mem_cons_of_mem _ (h.known mem)⟩

end

open Function (update update_self update_of_ne)

/-- The states of the scheduler through additions of new tasks, `task_block`, `task_resume`,
`remove_from_ready_list` and `get_next_task`, with the tasks added and not removed since. The ready
list is never emptied. `Admitted` tells what is known of a new task, `Removable` of one that leaves
the ready list. -/
inductive TaskRun (Admitted : Sched → Task → Prop) (Removable : Sched → Nat → Prop) :
    Sched → Finset Nat → Prop
  | start (s : Sched) (mainloop : Nat) (nonzero : mainloop ≠ 0)
      (allocated : s.allocated = [mainloop]) (cleared : s.next mainloop = 0) :
      TaskRun Admitted Removable (initScheduler mainloop s) {mainloop}
  | add {s s' : Sched} {present : Finset Nat} (task : Nat) (fields : Task)
      (before : TaskRun Admitted Removable s present) (nonzero : task ≠ 0)
      (fresh : task ∉ s.allocated) (admitted : Admitted s fields)
      (call : addTaskToQueue task { s with
        task := update s.task task fields
        allocated := task :: s.allocated } = some s') :
      TaskRun Admitted Removable s' (insert task present)
  | block {s s' : Sched} {present : Finset Nat} {ret : Int} (pid : UInt32)
      (before : TaskRun Admitted Removable s present)
      (removable : ∀ task ≠ 0, findTaskInListByPid .ready pid s = some task → Removable s task)
      (call : taskBlock pid s = some (ret, s')) (filled : (s'.lists .ready).head ≠ 0) :
      TaskRun Admitted Removable s' present
  | resume {s s' : Sched} {present : Finset Nat} {ret : Int} (pid : UInt32)
      (before : TaskRun Admitted Removable s present)
      (call : taskResume pid s = some (ret, s')) :
      TaskRun Admitted Removable s' present
  | remove {s s' : Sched} {present : Finset Nat} {ret : Int} (task : Nat)
      (before : TaskRun Admitted Removable s present) (removable : task ≠ 0 → Removable s task)
      (call : removeFromReadyList task s = some (ret, s'))
      (filled : (s'.lists .ready).head ≠ 0) :
      TaskRun Admitted Removable s' (if ret = 0 then present.erase task else present)
  | next {s s' : Sched} {present : Finset Nat} {task : Nat}
      (before : TaskRun Admitted Removable s present)
      (call : getNextTask s = some (task, s')) :
      TaskRun Admitted Removable s' present

/-- No task that was ever allocated has the pid of the new one. -/
def NewPid (s : Sched) (fields : Task) : Prop := ∀ t ∈ s.allocated, (s.task t).pid ≠ fields.pid

instance (s : Sched) (fields : Task) : Decidable (NewPid s fields) := List.decidableBAll _ _

/-- The task is first on the ready list, or the cursor of that list is elsewhere. -/
def CursorSafe (s : Sched) (task : Nat) : Prop :=
  task = (s.lists .ready).head ∨ task ≠ (s.lists .ready).next

instance (s : Sched) (task : Nat) : Decidable (CursorSafe s task) :=
  inferInstanceAs (Decidable (_ ∨ _))

/-- The cursor of the ready list has run out or is on that list. -/
def CursorOn (s : Sched) (on : ListName → List Nat) : Prop :=
  (s.lists .ready).next = 0 ∨ (s.lists .ready).next ∈ on .ready

/-- The lists hold exactly the tasks that are present. -/
structure Partition (s : Sched) (on : ListName → List Nat) (present : Finset Nat) : Prop where
  lists : Encodes s on
  present_iff : ∀ t, t ∈ present ↔ ∃ list, t ∈ on list
  filled : on .ready ≠ []

variable {fields : Task}

section

variable {s s' : Sched} {on on' : ListName → List Nat}

theorem Encodes.head?_eq (h : Encodes s on) (filled : on .ready ≠ []) :
    (on .ready).head? = some (s.lists .ready).head := by
  rw [h.head_eq]
  cases nodes : on .ready with
  | nil => exact absurd nodes filled
  | cons t rest => rfl

theorem Encodes.head_mem (h : Encodes s on) (filled : on .ready ≠ []) :
    (s.lists .ready).head ∈ on .ready :=
  mem_of_mem_head? (h.head?_eq filled)

theorem CursorOn.taken (cursor : CursorOn s on) (h : Encodes s on) (filled : on .ready ≠ [])
    (call : getNextTask s = some (task, s')) : task ∈ on .ready := by
  obtain ⟨ne, -, rfl | ⟨-, rfl⟩⟩ := getNextTask_cases call
  · exact cursor.resolve_left ne
  · exact h.head_mem filled

theorem CursorOn.advanced (h : Encodes s on) (mem : task ∈ on .ready) :
    CursorOn (advanced s task) on := by
  exact ((h.linked .ready).next_mem mem).symm

theorem CursorOn.schedule (cursor : CursorOn s on) (h : Encodes s on) (filled : on .ready ≠ [])
    (call : schedule s = some s') : CursorOn s' on := by
  obtain ⟨t, u, taken, rfl⟩ := schedule_cases call
  have locked : Encodes (lockScheduler s) on := h.of_heads rfl (fun _ => rfl) rfl
  have mem := CursorOn.taken (s := lockScheduler s) cursor locked filled taken
  have stepped := CursorOn.advanced locked mem
  unfold CursorOn
  rw [unlockScheduler_lists, (switchTask_keeps _ t).2.2]
  exact stepped

theorem CursorOn.erase (cursor : CursorOn s on) (h : Encodes s on) (safe : CursorSafe s task)
    {next : Nat}
    (moved : next = if (on .ready).head? = some task then ((on .ready).erase task).headD 0
      else (s.lists .ready).next) : next = 0 ∨ next ∈ (on .ready).erase task := by
  by_cases first : (on .ready).head? = some task
  · rw [if_pos first] at moved
    rw [moved]
    cases (on .ready).erase task with
    | nil => exact .inl rfl
    | cons t rest => exact .inr (by simp)
  rw [if_neg first] at moved
  rw [moved]
  rcases cursor with ended | mem
  · exact .inl ended
  refine .inr ((mem_erase_of_ne ?_).mpr mem)
  rcases safe with head | ne
  · exact absurd (head ▸ h.head?_eq (ne_nil_of_mem mem)) first
  · exact Ne.symm ne

theorem CursorOn.of_lists (cursor : CursorOn s on) (same : s'.lists .ready = s.lists .ready)
    (more : on .ready ⊆ on' .ready) : CursorOn s' on' := by
  unfold CursorOn
  rw [same]
  exact cursor.imp_right fun mem => more mem

/-! ## What each operation keeps -/

variable (h : Partition s on present)

include h

theorem Partition.rearrange (lists : Encodes s' on')
    (members : ∀ t, (∃ list, t ∈ on' list) ↔ ∃ list, t ∈ on list) (filled : on' .ready ≠ []) :
    Partition s' on' present :=
  ⟨lists, fun t => (h.present_iff t).trans (members t).symm, filled⟩

theorem Partition.lock : Partition (lockScheduler s) on present :=
  h.rearrange (h.lists.of_heads rfl (fun _ => rfl) rfl) (fun _ => Iff.rfl) h.filled

omit h

theorem Partition.start (s : Sched) {mainloop : Nat} (ne : mainloop ≠ 0)
    (allocated : s.allocated = [mainloop]) (cleared : s.next mainloop = 0) :
    ∃ on, Partition (initScheduler mainloop s) on {mainloop} ∧
      CursorOn (initScheduler mainloop s) on := by
  refine ⟨update (fun _ => []) .ready [mainloop], ⟨⟨?_, ?_, ?_, ?_⟩, ?_, by simp⟩, ?_⟩
  · intro list
    cases list with
    | ready => exact ⟨rfl, ne, cleared⟩
    | sleep => exact rfl
    | blocked => exact rfl
  · intro list
    cases list <;> simp
  · intro a b t inA inB
    cases a <;> cases b <;> simp_all
  · intro list t mem
    show t ∈ s.allocated
    cases list <;> simp_all
  · intro t
    constructor
    · intro same
      exact ⟨.ready, by simpa using same⟩
    · rintro ⟨list, mem⟩
      cases list <;> simp_all
  · exact .inr (by simp [initScheduler, setList])

theorem Partition.initTasking (s : Sched) {mainloop : Nat} (ne : mainloop ≠ 0) :
    ∃ on, Partition (initTasking mainloop s) on {mainloop} ∧ CursorOn (initTasking mainloop s) on :=
  Partition.start _ ne rfl (update_self ..)

include h

theorem Partition.add (ne : task ≠ 0) (fresh : task ∉ s.allocated)
    (call : addTaskToQueue task { s with
      task := update s.task task fields
      allocated := task :: s.allocated } = some s') :
    ∃ on', Partition s' on' (insert task present) ∧ KeepsTasks { s with
        task := update s.task task fields
        allocated := task :: s.allocated } s' ∧
      (CursorOn s on → CursorOn s' on') := by
  have absent : ∀ list, task ∉ on list := fun list mem => fresh (h.lists.known mem)
  obtain ⟨u, addition, relinks, lists, cursors⟩ :=
    (h.lists.allocate (update s.task task fields) task).addToList absent ne mem_cons_self .ready
  rw [if_neg h.filled] at cursors
  cases addition.symm.trans call
  refine ⟨_, ⟨lists, ?_, by simp⟩, relinks.keeps, ?_⟩
  · intro t
    rw [Finset.mem_insert, h.present_iff, exists_mem_update, exists_mem_split on .ready,
      mem_append, mem_singleton]
    tauto
  · intro cursor
    exact cursor.of_lists (congrFun cursors .ready) (by simp)

theorem Partition.block (call : taskBlock pid s = some (ret, s'))
    (filled : (s'.lists .ready).head ≠ 0) :
    ∃ on', Partition s' on' present ∧ KeepsTasks s s' ∧
      ((∀ task ≠ 0, findTaskInListByPid .ready pid s = some task → CursorSafe s task) →
        CursorOn s on → CursorOn s' on') := by
  rcases h.lists.taskBlock call with
    ⟨-, rfl⟩ | ⟨-, t, mid, looked, -, same, after, cursors, switched⟩
  · exact ⟨on, h.lock, (lockScheduler_sameTasks s).keeps, fun _ cursor => cursor⟩
  obtain ⟨lists, keeps⟩ := after.schedule switched
  have mem := mem_of_find?_eq_some looked
  have left : moved on .ready .blocked t .ready ≠ [] :=
    fun empty => filled (lists.head_eq_zero_iff.mpr empty)
  refine ⟨_, h.rearrange lists (mem_moved_iff (by decide) mem) left, same.keeps.trans keeps, ?_⟩
  intro safe cursor
  have found : findTaskInListByPid .ready pid s = some t := by
    rw [h.lists.findTaskInListByPid, looked]
    rfl
  have there : CursorOn mid (moved on .ready .blocked t) :=
    cursor.erase h.lists (safe t ((h.lists.linked .ready).ne_zero mem) found) cursors
  exact there.schedule after left switched

theorem Partition.resume (call : taskResume pid s = some (ret, s')) :
    ∃ on', Partition s' on' present ∧ KeepsTasks s s' ∧ (CursorOn s on → CursorOn s' on') := by
  rcases h.lists.taskResume pid with ⟨missed, -⟩ | ⟨t, u, move, looked, same, after, cursors⟩
  · cases missed.symm.trans call
    exact ⟨on, h.lock, (lockScheduler_sameTasks s).keeps, fun cursor => cursor⟩
  cases move.symm.trans call
  have mem := mem_of_find?_eq_some looked
  refine ⟨_, h.rearrange after (mem_moved_iff (by decide) mem) (by simp [moved]), same.keeps, ?_⟩
  intro cursor
  rw [if_neg h.filled] at cursors
  unfold CursorOn
  rw [cursors]
  exact cursor.imp_right fun old => by simp [moved, old]

theorem Partition.remove (call : removeFromReadyList task s = some (ret, s'))
    (filled : (s'.lists .ready).head ≠ 0) :
    ∃ on', Partition s' on' (if ret = 0 then present.erase task else present) ∧
      KeepsTasks s s' ∧ ((task ≠ 0 → CursorSafe s task) → CursorOn s on → CursorOn s' on') := by
  by_cases mem : task ∈ on .ready
  · obtain ⟨u, removal, relinks, lists, cursors⟩ := h.lists.removeFromList mem
    cases removal.symm.trans call
    refine ⟨_, ⟨lists, ?_, fun empty => filled (lists.head_eq_zero_iff.mpr empty)⟩,
      relinks.keeps, ?_⟩
    · intro t
      have elsewhere : (∃ list, list ≠ .ready ∧ t ∈ on list) → t ≠ task := by
        rintro ⟨list, away, there⟩ rfl
        exact away (h.lists.apart there mem)
      rw [if_pos rfl, Finset.mem_erase, h.present_iff, exists_mem_update,
        exists_mem_split on .ready, (h.lists.nodup .ready).mem_erase_iff, and_or_left,
        and_iff_right_of_imp elsewhere]
    · intro safe cursor
      apply cursor.erase h.lists (safe ((h.lists.linked .ready).ne_zero mem))
      rw [cursors]
      split
      · rw [update_self]
        rfl
      · rfl
  · cases (h.lists.removeFromList_missing mem).symm.trans call
    exact ⟨on, h, (SameTasks.refl s).keeps, fun _ cursor => cursor⟩

theorem Partition.next (call : getNextTask s = some (task, s')) :
    Partition s' on present ∧ KeepsTasks s s' ∧ (CursorOn s on → CursorOn s' on) := by
  have taken : CursorOn s on → task ∈ on .ready := fun cursor => cursor.taken h.lists h.filled call
  obtain ⟨-, rfl, -⟩ := getNextTask_cases call
  refine ⟨h.rearrange (h.lists.advanced task) (fun _ => Iff.rfl) h.filled,
    SameTasks.keeps ⟨rfl, rfl, rfl, rfl⟩, ?_⟩
  intro cursor
  exact CursorOn.advanced h.lists (taken cursor)

end

variable {Removable : Sched → Nat → Prop}

/-- In every state of a run the lists hold the tasks that are present, and if no task is
removed from under the cursor, the cursor is on the ready list. -/
theorem TaskRun.partition {Admitted : Sched → Task → Prop} {present : Finset Nat}
    (run : TaskRun Admitted Removable s present) :
    ∃ on, Partition s on present ∧
      ((∀ s task, Removable s task → CursorSafe s task) → CursorOn s on) := by
  induction run with
  | start s mainloop ne allocated cleared =>
    obtain ⟨on, h, cursor⟩ := Partition.start s ne allocated cleared
    exact ⟨on, h, fun _ => cursor⟩
  | add task fields lt ne fresh admitted call ih =>
    obtain ⟨on, h, cursor⟩ := ih
    obtain ⟨on', h', -, kept⟩ := h.add ne fresh call
    exact ⟨on', h', fun safe => kept (cursor safe)⟩
  | block pid lt removable call filled ih =>
    obtain ⟨on, h, cursor⟩ := ih
    obtain ⟨on', h', -, kept⟩ := h.block call filled
    exact ⟨on', h', fun safe =>
      kept (fun t ne found => safe _ t (removable t ne found)) (cursor safe)⟩
  | resume pid lt call ih =>
    obtain ⟨on, h, cursor⟩ := ih
    obtain ⟨on', h', -, kept⟩ := h.resume call
    exact ⟨on', h', fun safe => kept (cursor safe)⟩
  | remove task lt removable call filled ih =>
    obtain ⟨on, h, cursor⟩ := ih
    obtain ⟨on', h', -, kept⟩ := h.remove call filled
    exact ⟨on', h', fun safe => kept (fun ne => safe _ task (removable ne)) (cursor safe)⟩
  | next lt call ih =>
    obtain ⟨on, h, cursor⟩ := ih
    obtain ⟨h', -, kept⟩ := h.next call
    exact ⟨on, h', fun safe => kept (cursor safe)⟩

/-- Pids tell the allocated tasks apart. -/
def DistinctPids (s : Sched) : Prop :=
  ∀ t ∈ s.allocated, ∀ u ∈ s.allocated, (s.task t).pid = (s.task u).pid → t = u

theorem DistinctPids.of_keeps {s' : Sched} (pids : DistinctPids s) (keeps : KeepsTasks s s') :
    DistinctPids s' := by
  intro t inT u inU same
  rw [keeps.allocated] at inT inU
  rw [keeps.pid, keeps.pid] at same
  exact pids t inT u inU same

theorem DistinctPids.allocate (pids : DistinctPids s) (fresh : task ∉ s.allocated)
    (newPid : NewPid s fields) :
    DistinctPids { s with
      task := update s.task task fields
      allocated := task :: s.allocated } := by
  have ne : ∀ {t}, t ∈ s.allocated → t ≠ task := fun mem same => fresh (same ▸ mem)
  intro t inT v inV same
  rcases mem_cons.mp inT with rfl | oldT <;> rcases mem_cons.mp inV with rfl | oldV
  · rfl
  · simp only [update_self, update_of_ne (ne oldV)] at same
    exact absurd same.symm (newPid v oldV)
  · simp only [update_self, update_of_ne (ne oldT)] at same
    exact absurd same (newPid t oldT)
  · simp only [update_of_ne (ne oldT), update_of_ne (ne oldV)] at same
    exact pids t oldT v oldV same

theorem TaskRun.distinctPids {present : Finset Nat} (run : TaskRun NewPid Removable s present) :
    DistinctPids s := by
  induction run with
  | start s mainloop ne allocated cleared =>
    have only : ∀ t ∈ (initScheduler mainloop s).allocated, t = mainloop := by
      intro t mem
      simpa [initScheduler, allocated] using mem
    intro t inT u inU _
    rw [only t inT, only u inU]
  | add task fields lt ne fresh newPid call ih =>
    obtain ⟨on, h, -⟩ := lt.partition
    obtain ⟨-, -, keeps, -⟩ := h.add ne fresh call
    exact (ih.allocate fresh newPid).of_keeps keeps
  | block pid lt removable call filled ih =>
    obtain ⟨on, h, -⟩ := lt.partition
    obtain ⟨-, -, keeps, -⟩ := h.block call filled
    exact ih.of_keeps keeps
  | resume pid lt call ih =>
    obtain ⟨on, h, -⟩ := lt.partition
    obtain ⟨-, -, keeps, -⟩ := h.resume call
    exact ih.of_keeps keeps
  | remove task lt removable call filled ih =>
    obtain ⟨on, h, -⟩ := lt.partition
    obtain ⟨-, -, keeps, -⟩ := h.remove call filled
    exact ih.of_keeps keeps
  | next lt call ih =>
    obtain ⟨on, h, -⟩ := lt.partition
    exact ih.of_keeps (h.next call).2.1

/-! ## What the lists answer -/

variable {t : Nat}

theorem Encodes.find?_of_mem (h : Encodes s on) (pids : DistinctPids s) (mem : t ∈ on list) :
    (on list).find? (fun u => (s.task u).pid == (s.task t).pid) = some t := by
  have found : ((on list).find? fun u => (s.task u).pid == (s.task t).pid).isSome :=
    find?_isSome.mpr ⟨t, mem, by simp⟩
  obtain ⟨u, looked⟩ := isSome_iff_exists.mp found
  have same : (s.task u).pid = (s.task t).pid := by simpa using find?_some looked
  rw [looked, pids u (h.known (mem_of_find?_eq_some looked)) t (h.known mem) same]

theorem find?_pid_eq_none (nobody : ∀ t ∈ on list, (s.task t).pid ≠ pid) :
    (on list).find? (fun u => (s.task u).pid == pid) = none := by
  rw [find?_eq_none]
  intro t mem
  simpa using nobody t mem

theorem Encodes.findTaskByPid_of_mem (h : Encodes s on) (pids : DistinctPids s)
    (mem : t ∈ on list) : findTaskByPid (s.task t).pid s = some t := by
  have ne := (h.linked list).ne_zero mem
  have here := h.find?_of_mem pids mem
  have missing : ∀ other, other ≠ list →
      (on other).find? (fun u => (s.task u).pid == (s.task t).pid) = none := by
    intro other away
    apply find?_pid_eq_none
    intro u inU same
    have alike := pids u (h.known inU) t (h.known mem) same
    exact away (h.apart (alike ▸ inU) mem)
  unfold findTaskByPid
  simp only [h.findTaskInListByPid]
  cases list with
  | ready => simp [here, ne]
  | sleep => simp [here, ne, missing .ready]
  | blocked => simp [here, missing .ready, missing .sleep]

theorem Encodes.findTaskByPid_sound (h : Encodes s on) (call : findTaskByPid pid s = some t)
    (ne : t ≠ 0) : (∃ list, t ∈ on list) ∧ (s.task t).pid = pid := by
  have sound (list : ListName) (found : ((on list).find? fun u => (s.task u).pid == pid).getD
    0 = t) : (∃ list, t ∈ on list) ∧ (s.task t).pid = pid := by
    cases looked : (on list).find? fun u => (s.task u).pid == pid with
    | none =>
      rw [looked] at found
      exact absurd found.symm ne
    | some u =>
      rw [looked] at found
      obtain rfl : u = t := found
      exact ⟨⟨list, mem_of_find?_eq_some looked⟩, by simpa using find?_some looked⟩
  unfold findTaskByPid at call
  simp only [h.findTaskInListByPid, bind_eq_bind, bind_some] at call
  split at call
  · exact sound .ready (some.inj call)
  split at call
  · exact sound .sleep (some.inj call)
  · exact sound .blocked (some.inj call)

theorem Partition.findTaskByPid_of_not_mem (h : Partition s on present)
    (nobody : ∀ t ∈ present, (s.task t).pid ≠ pid) : findTaskByPid pid s = some 0 := by
  have missing (list : ListName) : (on list).find? (fun u => (s.task u).pid == pid) = none :=
    find?_pid_eq_none fun t mem => nobody t ((h.present_iff t).mpr ⟨list, mem⟩)
  unfold findTaskByPid
  simp [h.lists.findTaskInListByPid, missing]

theorem Partition.taskCountAll (h : Partition s on present) :
    taskCountAll s = some present.card := by
  have all : present = (on .ready ++ on .blocked ++ on .sleep).toFinset := by
    ext t
    rw [h.present_iff, List.mem_toFinset, mem_append, mem_append]
    constructor
    · rintro ⟨list, mem⟩
      cases list with
      | ready => exact Or.inl (Or.inl mem)
      | sleep => exact Or.inr mem
      | blocked => exact Or.inl (Or.inr mem)
    · rintro ((mem | mem) | mem)
      exacts [⟨_, mem⟩, ⟨_, mem⟩, ⟨_, mem⟩]
  have disjoint (a b : ListName) (away : a ≠ b) : (on a).Disjoint (on b) :=
    fun _ inA inB => away (h.lists.apart inA inB)
  have nodup : (on .ready ++ on .blocked ++ on .sleep).Nodup := by
    refine ((h.lists.nodup .ready).append (h.lists.nodup .blocked)
      (disjoint _ _ (by decide))).append (h.lists.nodup .sleep) ?_
    rw [disjoint_append_left]
    exact ⟨disjoint _ _ (by decide), disjoint _ _ (by decide)⟩
  rw [all, toFinset_card_of_nodup nodup]
  unfold Proc.taskCountAll
  simp [h.lists.taskCountList, Nat.add_assoc]

theorem Partition.taskBlock_returns (h : Partition s on present) (pid : UInt32)
    (another : 1 < (on .ready).length) : (taskBlock pid s).isSome := by
  unfold Proc.taskBlock
  cases looked : (on .ready).find? fun t => (s.task t).pid == pid with
  | none =>
    rw [h.lists.moveTask_missing .blocked looked]
    rfl
  | some t =>
    obtain ⟨mid, move, -, -, after, -⟩ :=
      h.lists.moveTask (show ListName.ready ≠ .blocked by decide) looked
    have filled : moved on .ready .blocked t .ready ≠ [] := by
      have shorter := length_erase_of_mem (mem_of_find?_eq_some looked)
      intro empty
      have none : (on .ready).erase t = [] := by simpa [moved] using empty
      rw [none, length_nil] at shorter
      omega
    obtain ⟨last, switched⟩ := after.schedule_returns filled
    rw [move]
    simp [switched]

/-- In every state the three lists end, share no task and repeat none; each task added and not
removed is on exactly one of them; `task_count_all` counts these tasks and `find_task_by_pid` finds
exactly these. Every operation comes back, `task_block` as long as another task is ready. -/
theorem task_lists_partition {s : Sched} {present : Finset Nat}
    (run : TaskRun NewPid (fun _ _ => True) s present) :
    ∃ on : ListName → List Nat,
      (∀ list, Linked s.next (s.lists list).head (on list) 0 ∧ (on list).Nodup) ∧
      (∀ a b, a ≠ b → (on a).Disjoint (on b)) ∧
      (∀ t, t ∈ present ↔ ∃! list, t ∈ on list) ∧
      taskCountAll s = some present.card ∧
      (∀ t ∈ present, findTaskByPid (s.task t).pid s = some t) ∧
      (∀ pid, (∀ t ∈ present, (s.task t).pid ≠ pid) → findTaskByPid pid s = some 0) ∧
      (∀ pid, (taskResume pid s).isSome ∧ (1 < (on .ready).length → (taskBlock pid s).isSome)) ∧
      (∀ task, (removeFromReadyList task s).isSome) ∧ (getNextTask s).isSome := by
  obtain ⟨on, h, -⟩ := run.partition
  have pids := run.distinctPids
  refine ⟨on, fun list => ⟨h.lists.linked list, h.lists.nodup list⟩, ?_, ?_, h.taskCountAll,
    fun t mem => ?_,
    fun pid nobody => h.findTaskByPid_of_not_mem nobody, ?_, ?_, ?_⟩
  · intro a b away t inA inB
    exact away (h.lists.apart inA inB)
  · intro t
    rw [h.present_iff]
    constructor
    · rintro ⟨list, there⟩
      exact ⟨list, there, fun ne also => h.lists.apart also there⟩
    · rintro ⟨list, there, -⟩
      exact ⟨list, there⟩
  · obtain ⟨list, there⟩ := (h.present_iff t).mp mem
    exact h.lists.findTaskByPid_of_mem pids there
  · intro pid
    refine ⟨?_, h.taskBlock_returns pid⟩
    rcases h.lists.taskResume pid with ⟨missed, -⟩ | ⟨t, u, move, -⟩
    · rw [missed]
      rfl
    · rw [move]
      rfl
  · intro task
    by_cases mem : task ∈ on .ready
    · obtain ⟨u, removal, -⟩ := h.lists.removeFromList mem
      rw [removeFromReadyList, removal]
      rfl
    · rw [removeFromReadyList, h.lists.removeFromList_missing mem]
      rfl
  · obtain ⟨t, u, taken⟩ := h.lists.getNextTask h.filled
    rw [taken]
    rfl

/-- Memory before the first task is set up. -/
def blankSched : Sched where
  task := fun _ => mainloopTask 0
  next := fun _ => 0
  allocated := []
  lists := fun _ => setList 0
  schedulerLocks := 0
  interrupts := true
  runningtask := 0
  pids := 1

theorem blankSched_run (Admitted : Sched → Task → Prop) (Removable : Sched → Nat → Prop) :
    TaskRun Admitted Removable (initTasking 1 blankSched) {1} :=
  .start _ 1 (by decide) rfl rfl

/-- Two tasks are added; the first of them is blocked and resumed, the other one is removed. -/
theorem task_lists_partition_three :
    ∃ s present, TaskRun NewPid (fun _ _ => True) s present ∧ present = {1, 2} ∧
      taskCountAll s = some 2 ∧ findTaskByPid 2 s = some 2 ∧ findTaskByPid 3 s = some 0 := by
  have added := TaskRun.add 3 (mainloopTask 3) (.add 2 (mainloopTask 2)
    (blankSched_run NewPid fun _ _ => True) (by decide) (by decide) (by decide) rfl)
    (by decide) (by decide) (by decide) rfl
  have run := TaskRun.remove 3 (.resume 2 (.block 2 added (fun _ _ _ => trivial) rfl (by decide))
    rfl) (fun _ => trivial) rfl (by decide)
  obtain ⟨on, -, -, -, count, found, missing, -⟩ := task_lists_partition run
  exact ⟨_, _, run, by decide, count, found 2 (by decide), missing 3 (by decide)⟩

/-- The task is met on a walk through the list. -/
def OnList (s : Sched) (list : ListName) (task : Nat) : Prop :=
  ∃ nodes, Linked s.next (s.lists list).head nodes 0 ∧ task ∈ nodes

theorem Encodes.onList_iff {on : ListName → List Nat} (h : Encodes s on) :
    OnList s list task ↔ task ∈ on list := by
  constructor
  · rintro ⟨nodes, linked, mem⟩
    rwa [linked.unique (h.linked list)] at mem
  · intro mem
    exact ⟨on list, h.linked list, mem⟩

theorem getNextTask_of_cursor (cursor : (s.lists .ready).next = task) (ne : task ≠ 0) :
    getNextTask s = some (task, advanced s task) := by
  subst cursor
  exact if_pos ne

/-- As long as no ready task but the first is removed while the cursor is on it, every task that
`get_next_task` returns is ready, also when `task_block` calls it. One removed from under the cursor
is what `get_next_task` returns next. -/
theorem next_task_ready {s : Sched} {present : Finset Nat}
    (run : TaskRun (fun _ _ => True) CursorSafe s present) :
    (∀ task s', getNextTask s = some (task, s') → OnList s .ready task) ∧
    (∀ pid mid, (∀ task ≠ 0, findTaskInListByPid .ready pid s = some task → CursorSafe s task) →
      moveTask .ready .blocked pid s = some (0, mid) → (mid.lists .ready).head ≠ 0 →
      ∀ task s', getNextTask (lockScheduler mid) = some (task, s') → OnList mid .ready task) ∧
    (∀ task, OnList s .ready task → ¬CursorSafe s task →
      ∃ s', removeFromReadyList task s = some (0, s') ∧ ¬OnList s' .ready task ∧
        getNextTask s' = some (task, advanced s' task)) := by
  obtain ⟨on, h, cursorOn⟩ := run.partition
  have cursor : CursorOn s on := cursorOn fun _ _ safe => safe
  refine ⟨?_, ?_, ?_⟩
  · intro task s' call
    exact h.lists.onList_iff.mpr (cursor.taken h.lists h.filled call)
  · intro pid mid safe move filled task s' call
    cases looked : (on .ready).find? fun t => (s.task t).pid == pid with
    | none =>
      rw [h.lists.moveTask_missing .blocked looked] at move
      cases move
    | some t =>
      obtain ⟨u, moves, -, -, after, cursors, -⟩ :=
        h.lists.moveTask (show ListName.ready ≠ .blocked by decide) looked
      cases moves.symm.trans move
      have found : findTaskInListByPid .ready pid s = some t := by
        rw [h.lists.findTaskInListByPid, looked]
        rfl
      have there : CursorOn mid (moved on .ready .blocked t) :=
        cursor.erase h.lists (safe t ((h.lists.linked .ready).ne_zero (mem_of_find?_eq_some looked))
          found) cursors
      have locked : Encodes (lockScheduler mid) (moved on .ready .blocked t) :=
        after.of_heads rfl (fun _ => rfl) rfl
      have left : moved on .ready .blocked t .ready ≠ [] :=
        fun empty => filled (after.head_eq_zero_iff.mpr empty)
      exact after.onList_iff.mpr (CursorOn.taken (s := lockScheduler mid) there locked left call)
  · intro task mem broken
    rw [h.lists.onList_iff] at mem
    unfold CursorSafe at broken
    push Not at broken
    obtain ⟨notFirst, atCursor⟩ := broken
    have first : (on .ready).head? ≠ some task := by
      rw [h.lists.head?_eq h.filled]
      exact fun same => notFirst (some.inj same).symm
    obtain ⟨u, removal, -, lists, cursors⟩ := h.lists.removeFromList mem
    rw [if_neg first] at cursors
    refine ⟨u, removal, ?_, getNextTask_of_cursor ?_ ((h.lists.linked .ready).ne_zero mem)⟩
    · rw [lists.onList_iff, update_self]
      exact (h.lists.nodup .ready).not_mem_erase
    · rw [cursors, atCursor]

/-- The third task is removed while the cursor is on the second, and an unknown pid is blocked. -/
theorem next_task_ready_removed :
    ∃ s s' present, TaskRun (fun _ _ => True) CursorSafe s present ∧ present = {1, 2} ∧
      getNextTask s = some (2, s') ∧ OnList s .ready 2 := by
  have taken := TaskRun.next (.add 3 (mainloopTask 3) (.add 2 (mainloopTask 2)
    (blankSched_run (fun _ _ => True) CursorSafe) (by decide) (by decide) trivial rfl)
    (by decide) (by decide) trivial rfl) rfl
  have run := TaskRun.block 99 (.remove 3 taken (fun _ => by decide) rfl (by decide))
    (fun _ ne found => absurd (some.inj found).symm ne) rfl (by decide)
  exact ⟨_, _, _, run, by decide, rfl, (next_task_ready run).1 2 _ rfl⟩

/-- The first task is taken, leaving the cursor on the second; that is removed and is the next to be
taken. -/
theorem next_task_ready_stale_cursor :
    ∃ s present, TaskRun (fun _ _ => True) (fun _ _ => True) s present ∧
      (getNextTask s).map (·.1) = some 2 ∧ ¬OnList s .ready 2 := by
  refine ⟨_, _, .remove 2 (.next (.add 2 (mainloopTask 2) (blankSched_run ..) (by decide)
    (by decide) trivial rfl) rfl) (fun _ => trivial) rfl (by decide), rfl, ?_⟩
  rintro ⟨nodes, linked, mem⟩
  have ready : nodes = [1] := linked.unique ⟨rfl, by decide, rfl⟩
  simp [ready] at mem

end Yanix.Proc
