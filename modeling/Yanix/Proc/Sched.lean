/-
Module: Yanix.Proc.Sched
Purpose: The scheduler, `kernel/proc/sched.c`, with three task lists that thread through one
  `next` field, and processes, `kernel/proc/tasking.c`.  `none` is a null dereference, or
  a walk that never ends.
Trusted boundary: hand-translated from C; the switch of stacks and address spaces is left out, so
  that `schedule` comes back in its caller, and so are other subsystems.  The address of a new
  task is a parameter
-/
import Mathlib.Algebra.GroupWithZero.Nat
import Yanix.Foundation.Chain

namespace Yanix.Proc

open Foundation Function

/-- `state`; a task that `memset` has cleared is `unset`. -/
inductive TaskState where
  | unset
  | running
  | zombie
deriving DecidableEq

/-- The fields of `struct task_s` that the scheduler and `kernel/proc/tasking.c` work on. -/
structure Task where
  pid : UInt32
  parent : UInt32
  childamount : UInt32
  uid : UInt32
  gid : UInt32
  ring : Int
  tty : UInt32
  state : TaskState
  timeslice : UInt32
  sliceused : UInt32
  priority : Int
deriving DecidableEq

inductive ListName where
  | ready
  | sleep
  | blocked
deriving DecidableEq

structure TaskList where
  head : Nat
  next : Nat
deriving DecidableEq

/-- Tasks are named by their addresses, zero being null. The field `next` of the tasks is a map of
its own; `allocated` are the addresses given out for tasks, none of which is ever freed. -/
structure Sched where
  task : Nat → Task
  next : Nat → Nat
  allocated : List Nat
  lists : ListName → TaskList
  schedulerLocks : UInt32
  interrupts : Bool
  runningtask : Nat
  pids : UInt32

/-- More rounds than any walk that ends can take. -/
def Sched.walkLimit (s : Sched) : Nat := s.allocated.length + 1

def getpid (s : Sched) : UInt32 := (s.task s.runningtask).pid

/-! ## Lists -/

def setList (task : Nat) : TaskList := ⟨task, task⟩

def addToList (list : ListName) (task : Nat) (s : Sched) : Option Sched :=
  let next := update s.next task 0
  if (s.lists list).head = 0 then
    some { s with next := next, lists := update s.lists list (setList task) }
  else do
    let last ← lastFrom next s.walkLimit (s.lists list).head
    some { s with next := update next last task }

def removeFromList (list : ListName) (task : Nat) (s : Sched) : Option (Int × Sched) :=
  if (s.lists list).head = 0 then
    some (-1, s)
  else do
    let (prev, tmp) ← search (· == task) s.next s.walkLimit 0 (s.lists list).head
    if tmp = 0 then
      some (-1, s)
    else if prev ≠ 0 then
      some (0, { s with next := update s.next prev (s.next tmp) })
    else
      some (0, { s with lists := update s.lists list (setList (s.next tmp)) })

def getNextFromList (list : ListName) (s : Sched) : Option (Nat × Sched) :=
  let cursor := (s.lists list).next
  if cursor ≠ 0 then
    some (cursor, { s with
      lists := update s.lists list ⟨(s.lists list).head, s.next cursor⟩ })
  else if (s.lists list).head = 0 then
    none
  else
    some ((s.lists list).head, { s with
      lists := update s.lists list ⟨(s.lists list).head, s.next (s.lists list).head⟩ })

def getNextTask (s : Sched) : Option (Nat × Sched) := getNextFromList .ready s

def removeFromReadyList (task : Nat) (s : Sched) : Option (Int × Sched) :=
  removeFromList .ready task s

/-- The null pointer, zero, when there is no such task on the list. -/
def findTaskInListByPid (list : ListName) (pid : UInt32) (s : Sched) : Option Nat :=
  (search (fun task => (s.task task).pid == pid) s.next s.walkLimit 0 (s.lists list).head).map (·.2)

def findTaskByPid (pid : UInt32) (s : Sched) : Option Nat := do
  let ret ← findTaskInListByPid .ready pid s
  if ret ≠ 0 then return ret
  let ret ← findTaskInListByPid .sleep pid s
  if ret ≠ 0 then return ret
  findTaskInListByPid .blocked pid s

def addTaskToQueue (newTask : Nat) (s : Sched) : Option Sched := addToList .ready newTask s

def taskCountList (list : ListName) (s : Sched) : Option Nat :=
  countFrom s.next s.walkLimit (s.lists list).head

def taskCountAll (s : Sched) : Option Nat := do
  let ready ← taskCountList .ready s
  let blocked ← taskCountList .blocked s
  let sleep ← taskCountList .sleep s
  return ready + blocked + sleep

def switchTask (next : Nat) (s : Sched) : Sched := if s.runningtask = next then s
  else if next = 0 then s
  else
    { s with
      runningtask := next
      task := update s.task next { s.task next with sliceused := 0 } }

def lockScheduler (s : Sched) : Sched :=
  { s with interrupts := false, schedulerLocks := s.schedulerLocks + 1 }

def unlockScheduler (s : Sched) : Sched :=
  let locks := s.schedulerLocks - 1
  { s with schedulerLocks := locks, interrupts := if locks = 0 then true else s.interrupts }

def schedule (s : Sched) : Option Sched := do
  let (next, s) ← getNextTask (lockScheduler s)
  let s := if next ≠ 0 then switchTask next s else s
  return unlockScheduler s

def initScheduler (mainloop : Nat) (s : Sched) : Sched := { s with
    lists := fun list =>
      match list with
      | .ready => setList mainloop
      | .sleep => setList 0
      | .blocked => setList 0
    runningtask := mainloop }

/-! ## Blocking and resuming -/

/-- What `task_block` and `task_resume` have in common: the task with this pid leaves one list and
joins the other. Error paths return with the lock held. -/
def moveTask (source target : ListName) (pid : UInt32) (s : Sched) : Option (Int × Sched) := do
  let s := lockScheduler s
  let task ← findTaskInListByPid source pid s
  if task = 0 then return (-1, s)
  let (ret, s) ← removeFromList source task s
  if ret = -1 then return (-1, s)
  let s ← addToList target task s
  return (0, unlockScheduler s)

def taskBlock (pid : UInt32) (s : Sched) : Option (Int × Sched) := do
  let (ret, s) ← moveTask .ready .blocked pid s
  if ret = -1 then return (-1, s)
  let s ← schedule s
  return (0, s)

def taskResume (pid : UInt32) (s : Sched) : Option (Int × Sched) := moveTask .blocked .ready pid s

/-- Change the fields of one task. -/
def Sched.modifyTask (s : Sched) (task : Nat) (f : Task → Task) : Sched :=
  { s with task := update s.task task (f (s.task task)) }

/-- The fields of `mainloop`, everything else being cleared. -/
def mainloopTask (pid : UInt32) : Task where
  pid := pid
  parent := 0
  childamount := 0
  uid := 0
  gid := 0
  ring := 0
  tty := 0
  state := .unset
  timeslice := 100
  sliceused := 0
  priority := 0

/-- `mainloop` is the address of the first task, `PIDS` starts as one, and `s` is what
memory held before. -/
def initTasking (mainloop : Nat) (s : Sched) : Sched := initScheduler mainloop { s with
    task := update s.task mainloop (mainloopTask 1)
    next := update s.next mainloop 0
    allocated := [mainloop]
    pids := 2 }

/-- The fields `create_task` sets in a task, which already is a copy of `curtask`. -/
def createdTask (newTask curtask : Task) (kernelTask : Bool) (pid : UInt32) : Task := { newTask with
    ring := if kernelTask then 0 else 3
    pid := pid
    parent := curtask.pid
    uid := curtask.uid
    gid := curtask.gid
    priority := curtask.priority
    tty := curtask.tty
    state := .running
    timeslice := 100 }

def createTask (newTask : Nat) (kernelTask : Bool) (s : Sched) : Sched :=
  let curtask := s.runningtask
  let s := { s with pids := s.pids + 1 }.modifyTask newTask fun task =>
    createdTask task (s.task curtask) kernelTask s.pids
  s.modifyTask curtask fun task => { task with childamount := task.childamount + 1 }

/-- The pid of the child, and the state in the parent; `newTask` is what `kmalloc` gives.
Disabling and enabling interrupts is left out. -/
def fork (newTask : Nat) (s : Sched) : Option (UInt32 × Sched) := do
  if newTask = 0 then none
  let parentTask := s.task s.runningtask
  let s := { s with
    task := update s.task newTask parentTask
    next := update s.next newTask (s.next s.runningtask)
    allocated := newTask :: s.allocated }
  let s := createTask newTask (parentTask.ring == 0) s
  let s ← addTaskToQueue newTask s
  return ((s.task newTask).pid, s)

/-- The parent has one child less and is resumed if it is blocked. -/
def notifyParent (task : Nat) (s : Sched) : Option Sched := if (s.task task).parent ≠ 0 then do
    let parent ← findTaskByPid (s.task task).parent s
    if parent = 0 then none
    let s := s.modifyTask parent fun task => { task with childamount := task.childamount - 1 }
    let (_, s) ← taskResume (s.task task).parent s
    return s
  else
    some s

def killProc (task : Nat) (s : Sched) : Option Sched := do
  let s := s.modifyTask task fun task => { task with state := .zombie }
  let s ← notifyParent task s
  let (_, s) ← removeFromReadyList task s
  if s.runningtask = task then
    let (next, s) ← getNextTask s
    return switchTask next s
  else
    return s

/-- The test that `task_wait` starts with. -/
def hasChild (s : Sched) : Bool := (s.task s.runningtask).childamount != 0

/-- Without a child the answer is −1 and `errno` is `ECHILD`. -/
def taskWait (s : Sched) : Option (Int × Sched) := if hasChild s then do
    let (_, s) ← taskBlock (getpid s) s
    return (0, s)
  else
    some (-1, s)

end Yanix.Proc
