/-
Module: Yanix.Ds.FdVector
Purpose: The descriptor tables of processes, `kernel/yanix/ds/fd_vector.c` and
  `kernel/fs/filedescriptor.c`.  A slot outside an array, and a product that is no `int`,
  are faults.
Trusted boundary: hand-translated from C; what `kmalloc` answers is a
  parameter
-/
import Mathlib.Data.Finmap
import Yanix.Libk.String

namespace Yanix.Ds

/-- `struct file_descriptor`; the null node is zero. -/
structure FileDescriptor where
  node : Nat
  mode : UInt32  -- as passed, before the cut to 16 bits
  flags : UInt32
  seek : UInt32
  lockIndex : UInt32
deriving DecidableEq

/-- A slot that `memset` has cleared. -/
def FileDescriptor.zero : FileDescriptor := ⟨0, 0, 0, 0, 0⟩

def vectorBeginAmount : Int := 8

def sizeofVectorT : Int := 12

def sizeofFileDescriptor : Int := 20

structure VectorT where
  vectorBuffer : Nat
  vectorSize : Int
  vectorMaxsize : Int
deriving DecidableEq

/-- The live tables and arrays by their addresses.  An array has the slots it was
allocated with. -/
structure Heap where
  vectors : Finmap fun _ : Nat => VectorT
  buffers : Finmap fun _ : Nat => List FileDescriptor

inductive Fault where
  | outOfBounds
  | dangling
  | product
deriving DecidableEq

namespace Heap

def getVector (heap : Heap) (vec : Nat) : Except Fault VectorT := match heap.vectors.lookup vec with
  | some v => .ok v
  | none => .error .dangling

def getBuffer (heap : Heap) (buffer : Nat) : Except Fault (List FileDescriptor) :=
  match heap.buffers.lookup buffer with
  | some slots => .ok slots
  | none => .error .dangling

def setVector (heap : Heap) (vec : Nat) (v : VectorT) : Heap :=
  { heap with vectors := heap.vectors.insert vec v }

def setBuffer (heap : Heap) (buffer : Nat) (slots : List FileDescriptor) : Heap :=
  { heap with buffers := heap.buffers.insert buffer slots }

/-- `kfree` of an array. -/
def freeBuffer (heap : Heap) (buffer : Nat) : Heap :=
  { heap with buffers := heap.buffers.erase buffer }

end Heap

def readSlot (slots : List FileDescriptor) (i : Int) : Except Fault FileDescriptor := if 0 ≤ i then
    match slots[i.toNat]? with
    | some slot => .ok slot
    | none => .error .outOfBounds
  else .error .outOfBounds

def writeSlot (slots : List FileDescriptor) (i : Int) (fd : FileDescriptor) :
    Except Fault (List FileDescriptor) :=
  if 0 ≤ i ∧ i.toNat < slots.length then .ok (slots.set i.toNat fd) else .error .outOfBounds

/-- A product of two `int`s. -/
def product (x y : Int) : Except Fault Int :=
  if x * y < 2 ^ 31 ∧ -2 ^ 31 ≤ x * y then .ok (x * y) else .error .product

/-- What `kmalloc` answers to a request for some bytes; `none` is the null pointer. -/
abbrev Kmalloc := (size : Nat) → Heap → Option Nat

/-! ## Tables -/

/-- The null pointer is zero.  Blocks that a failed call leaks are not recorded. -/
def vectorCreate (kmalloc : Kmalloc) (heap : Heap) : Nat × Heap :=
  match kmalloc sizeofVectorT.toNat heap with
  | none => (0, heap)
  | some vec =>
    let zeroed := heap.setVector vec ⟨0, 0, 0⟩
    match kmalloc (sizeofFileDescriptor * vectorBeginAmount).toNat zeroed with
    | none => (0, heap)
    | some buffer =>
      let slots := List.replicate vectorBeginAmount.toNat FileDescriptor.zero
      (vec, (zeroed.setBuffer buffer slots).setVector vec ⟨buffer, 0, vectorBeginAmount⟩)

def vectorCopy (kmalloc : Kmalloc) (cp : Nat) (heap : Heap) : Except Fault (Nat × Heap) :=
  match kmalloc sizeofVectorT.toNat heap with
  | none => .ok (0, heap)
  | some vec => do
    let v ← heap.getVector cp
    let size ← product sizeofFileDescriptor v.vectorMaxsize
    match kmalloc size.toNat (heap.setVector vec ⟨0, 0, 0⟩) with
    | none => return (0, heap)
    | some buffer =>
      let slots ← heap.getBuffer v.vectorBuffer
      -- `memcpy` fills the new array
      if (slots.length : Int) < v.vectorMaxsize then throw .outOfBounds
      else return (vec, (heap.setBuffer buffer (slots.take v.vectorMaxsize.toNat)).setVector vec
        ⟨buffer, v.vectorSize, v.vectorMaxsize⟩)

def vectorExpand (kmalloc : Kmalloc) (vec : Nat) (amount : Int) (heap : Heap) :
    Except Fault (Int × Heap) := do
  let v ← heap.getVector vec
  let newsize ← product v.vectorMaxsize amount
  let size ← product sizeofFileDescriptor newsize
  match kmalloc size.toNat heap with
  | none => return (-1, heap)
  | some tmp =>
    let zeroed := List.replicate newsize.toNat FileDescriptor.zero
    let slots ← heap.getBuffer v.vectorBuffer
    if (slots.length : Int) < v.vectorMaxsize ∨ newsize < v.vectorMaxsize then throw .outOfBounds
    else
      let slots := slots.take v.vectorMaxsize.toNat ++ zeroed.drop v.vectorMaxsize.toNat
      return (0, ((heap.freeBuffer v.vectorBuffer).setBuffer tmp slots).setVector vec
        ⟨tmp, v.vectorSize, newsize⟩)

/-- The write behind the last entry of a table. -/
def pushSlot (vec : Nat) (fd : FileDescriptor) (heap : Heap) : Except Fault (Int × Heap) := do
  let v ← heap.getVector vec
  let slots ← heap.getBuffer v.vectorBuffer
  let slots ← writeSlot slots v.vectorSize fd
  return (v.vectorSize, (heap.setBuffer v.vectorBuffer slots).setVector vec
    { v with vectorSize := v.vectorSize + 1 })

def vectorPush (kmalloc : Kmalloc) (vec : Nat) (fd : FileDescriptor) (heap : Heap) :
    Except Fault (Int × Heap) := do
  let v ← heap.getVector vec
  if v.vectorSize = v.vectorMaxsize then
    let (ret, heap) ← vectorExpand kmalloc vec 2 heap
    if ret ≠ 0 then return (-1, heap) else pushSlot vec fd heap
  else pushSlot vec fd heap

/-- The loops of `vector_add` and `vector_add_from`: the first slot with a null node
from slot `i` on. -/
def findNull (slots : List FileDescriptor) (limit : Int) :
    (rounds : Nat) → (i : Int) → Except Fault (Option Int)
  | 0, _ => .ok none
  | rounds + 1, i =>
    if i < limit then do
      let slot ← readSlot slots i
      if slot.node = 0 then return some i else findNull slots limit rounds (i + 1)
    else .ok none

def vectorAdd (kmalloc : Kmalloc) (vec : Nat) (fd : FileDescriptor) (heap : Heap) :
    Except Fault (Int × Heap) := do
  let v ← heap.getVector vec
  let slots ← heap.getBuffer v.vectorBuffer
  match ← findNull slots v.vectorSize v.vectorSize.toNat 0 with
  | some i =>
    let slots ← writeSlot slots i fd
    return (i, heap.setBuffer v.vectorBuffer slots)
  | none => vectorPush kmalloc vec fd heap

def vectorClear (vec : Nat) (fd : Int) (heap : Heap) : Except Fault (Int × Heap) := do
  let v ← heap.getVector vec
  let slots ← heap.getBuffer v.vectorBuffer
  let slot ← readSlot slots fd
  let slots ← writeSlot slots fd { slot with node := 0 }
  return (0, heap.setBuffer v.vectorBuffer slots)

/-- A pointer to a slot: the array and the index. -/
def vectorGet (vec : Nat) (fd : Int) (heap : Heap) : Except Fault (Option (Nat × Int)) :=
  if vec ≠ 0 then do
    let v ← heap.getVector vec
    if fd < v.vectorSize then return some (v.vectorBuffer, fd) else return none
  else .ok none

/-- The search of `vector_add_from`, from slot `start` to the end of the array. -/
def addAbove (kmalloc : Kmalloc) (vec : Nat) (fd : FileDescriptor) (start : Int) (heap : Heap) :
    Except Fault (Int × Heap) := do
  let v ← heap.getVector vec
  let slots ← heap.getBuffer v.vectorBuffer
  match ← findNull slots v.vectorMaxsize (v.vectorMaxsize - start).toNat start with
  | some i =>
    let size := if i ≥ v.vectorSize then i + 1 else v.vectorSize
    let slots ← writeSlot slots i fd
    return (i, (heap.setBuffer v.vectorBuffer slots).setVector vec { v with vectorSize := size })
  | none => vectorPush kmalloc vec fd heap

/-- What `vector_expand` returns is not looked at. -/
def vectorAddFrom (kmalloc : Kmalloc) (vec : Nat) (fd : FileDescriptor) (start : Int)
    (heap : Heap) : Except Fault (Int × Heap) := do
  let v ← heap.getVector vec
  if start > v.vectorMaxsize then
    let (_, heap) ← vectorExpand kmalloc vec (Libk.roundup start v.vectorMaxsize) heap
    addAbove kmalloc vec fd start heap
  else addAbove kmalloc vec fd start heap

/-- The end of `vector_set`. -/
def setSlot (vec : Nat) (obj : FileDescriptor) (fd : Int) (heap : Heap) :
    Except Fault (Int × Heap) := do
  let v ← heap.getVector vec
  let size := if fd ≥ v.vectorSize then fd + 1 else v.vectorSize
  let slots ← heap.getBuffer v.vectorBuffer
  let slots ← writeSlot slots fd obj
  return (fd, (heap.setBuffer v.vectorBuffer slots).setVector vec { v with vectorSize := size })

def vectorSet (kmalloc : Kmalloc) (vec : Nat) (obj : FileDescriptor) (fd : Int) (heap : Heap) :
    Except Fault (Int × Heap) := do
  let v ← heap.getVector vec
  if fd ≥ v.vectorMaxsize then
    let (_, heap) ← vectorExpand kmalloc vec (Libk.roundup fd v.vectorMaxsize) heap
    setSlot vec obj fd heap
  else setSlot vec obj fd heap

/-! ## Descriptors of the current task

`fds` is the table of the current task. -/

/-- `lockIndex` is what the stack holds: the field is not initialised. -/
def registerFiledescriptor (kmalloc : Kmalloc) (fds : Nat) (node : Nat) (flags mode : UInt32)
    (lockIndex : UInt32) (heap : Heap) : Except Fault (Int × Heap) :=
  vectorAdd kmalloc fds ⟨node, mode, flags, 0, lockIndex⟩ heap

/-- There is a current task; `errno` is left out. -/
def getFiledescriptor (fds : Nat) (fd : Int) (heap : Heap) : Except Fault (Option (Nat × Int)) :=
  if fd < 0 then .ok none else vectorGet fds fd heap

/-- What a pointer to a slot points to. -/
def slotAt (slot : Nat × Int) (heap : Heap) : Except Fault FileDescriptor := do
  let slots ← heap.getBuffer slot.1
  readSlot slots slot.2

def closeFiledescriptor (fds : Nat) (fd : Int) (heap : Heap) : Except Fault (Int × Heap) := do
  match ← getFiledescriptor fds fd heap with
  | none => return (0, heap)
  | some _ =>
    let (_, heap) ← vectorClear fds fd heap
    return (0, heap)

/-- The null node if there is no such slot. -/
def getFiledescriptorNode (fds : Nat) (fd : Int) (heap : Heap) : Except Fault Nat := do
  match ← getFiledescriptor fds fd heap with
  | none => return 0
  | some fdStruct =>
    let slot ← slotAt fdStruct heap
    return slot.node

def dupFiledescriptor (kmalloc : Kmalloc) (fds : Nat) (fd start : Int) (heap : Heap) :
    Except Fault (Int × Heap) := do
  match ← getFiledescriptor fds fd heap with
  | none => return (-1, heap)
  | some dup =>
    let slot ← slotAt dup heap
    if slot.node = 0 then return (-1, heap)
    else if start = -1 then vectorAdd kmalloc fds slot heap
    else vectorAddFrom kmalloc fds slot start heap

def setflagsFiledescriptor (fds : Nat) (fd : Int) (flags : UInt32) (heap : Heap) :
    Except Fault (Int × Heap) := do
  match ← getFiledescriptor fds fd heap with
  | none => return (-1, heap)
  | some toset =>
    let slots ← heap.getBuffer toset.1
    let slot ← readSlot slots toset.2
    let slots ← writeSlot slots toset.2 { slot with flags := flags }
    return (0, heap.setBuffer toset.1 slots)

/-- `E_CLOEXEC`, which is `FD_CLOEXEC` -/
def eCloexec : UInt32 := 1

/-- The loop of `check_filedescriptors` from descriptor `i` on. -/
def checkFrom (fds : Nat) : (rounds : Nat) → (i : Int) → Heap → Except Fault Heap
  | 0, _, heap => .ok heap
  | rounds + 1, i, heap => do
    match ← getFiledescriptor fds i heap with
    | none => checkFrom fds rounds (i + 1) heap
    | some fd =>
      let slot ← slotAt fd heap
      if slot.flags &&& eCloexec ≠ 0 then
        let (_, heap) ← closeFiledescriptor fds i heap
        checkFrom fds rounds (i + 1) heap
      else checkFrom fds rounds (i + 1) heap

def checkFiledescriptors (fds : Nat) (heap : Heap) : Except Fault Heap := do
  let v ← heap.getVector fds
  checkFrom fds v.vectorSize.toNat 0 heap

/-- The end of `dup2_filedescriptor`.  The descriptor is read after the target was
closed. -/
def setDuplicate (kmalloc : Kmalloc) (fds : Nat) (oldfd : Nat × Int) (new : Int) (heap : Heap) :
    Except Fault (Int × Heap) := do
  let obj ← slotAt oldfd heap
  vectorSet kmalloc fds obj new heap

def dup2Filedescriptor (kmalloc : Kmalloc) (fds : Nat) (old new : Int) (heap : Heap) :
    Except Fault (Int × Heap) := do
  match ← getFiledescriptor fds old heap with
  | none => return (-1, heap)
  | some oldfd =>
    let slot ← slotAt oldfd heap
    if slot.node = 0 then return (-1, heap)
    else
      match ← getFiledescriptor fds new heap with
      | none => setDuplicate kmalloc fds oldfd new heap
      | some _ =>
        let (_, heap) ← closeFiledescriptor fds new heap
        setDuplicate kmalloc fds oldfd new heap

end Yanix.Ds
