/-
Module: Yanix.Mm.LinkedList
Purpose: The block allocator of `kernel/mm/linkedlist.c` over byte-addressed memory, and what
  `kernel/mm/heap.c` adds to it: wrappers, and the list of all heaps.
Trusted boundary: hand-translated from C.  A `struct heap` is known by its address, its fields being
  functions of that; its block list is the allocator's own state.  Its `size` and the messages are
  left out, and `kmalloc_gen_base` is the call without a physical address
-/
import Yanix.Foundation.Bytes
import Yanix.Foundation.Chain

namespace Yanix.Mm

open Foundation Function

/-- `sizeof(struct ll_node)` on i386: `size`, `next` and `prev`. -/
def sizeofNode : Nat := 12

/-- `NODESIZE_MAX`: no block is made smaller than this. -/
def nodesizeMax : Nat := 32

/-- `errno` values set by the allocator. -/
def enomem : Nat := 12

def efault : Nat := 14

/-- Number of addresses, hence more than the nodes any finite chain can have. -/
def addressSpace : Nat := 2 ^ 32

/-- `struct linkedlist`, the memory its nodes live in, and `errno`. -/
structure Heap where
  memstart : Nat
  maxsize : Nat
  cursize : Nat
  user : Nat
  startUsed : Nat
  startFree : Nat
  mem : Bytes
  errno : Nat

namespace Heap

def size (h : Heap) (node : Nat) : Nat := load32 h.mem node

def next (h : Heap) (node : Nat) : Nat := load32 h.mem (add32 node 4)

def prev (h : Heap) (node : Nat) : Nat := load32 h.mem (add32 node 8)

def setSize (h : Heap) (node v : Nat) : Heap := { h with mem := store32 h.mem node v }

def setNext (h : Heap) (node v : Nat) : Heap := { h with mem := store32 h.mem (add32 node 4) v }

def setPrev (h : Heap) (node v : Nat) : Heap := { h with mem := store32 h.mem (add32 node 8) v }

def setStartUsed (h : Heap) (node : Nat) : Heap := { h with startUsed := node }

def setStartFree (h : Heap) (node : Nat) : Heap := { h with startFree := node }

end Heap

/-- The heap record, empty. The record itself comes from `simple_alloc` and lies outside the heap.
-/
def createLinkedlist (memorystart maxsize user : Nat) (mem : Bytes) (errno : Nat) : Heap where
  memstart := memorystart
  maxsize := maxsize
  cursize := 0
  user := user
  startUsed := 0
  startFree := 0
  mem := mem
  errno := errno

/-! ## The two lists

A result of `none` is a walk that never ends. -/

/-- Append to the used list. -/
def addToUsed (node : Nat) (list : Heap) : Option Heap := if list.startUsed = 0 then
    some (((list.setStartUsed node).setPrev node 0).setNext node 0)
  else do
    let tmp ← scanOrLast list.next 0 (fun _ => false) addressSpace list.startUsed
    some (((list.setNext tmp node).setPrev node tmp).setNext node 0)

/-- Link `node` in before the free node `tmp`. -/
def linkBefore (node tmp : Nat) (list : Heap) : Heap :=
  let prev := list.prev tmp
  let list := if prev ≠ 0 then list.setNext prev node else list.setStartFree node
  let list := list.setPrev node (list.prev tmp)
  (list.setPrev tmp node).setNext node tmp

/-- Insert into the free list before the first larger block, or at the end. -/
def addToFree (node : Nat) (list : Heap) : Option Heap := if list.startFree = 0 then
    some (((list.setStartFree node).setPrev node 0).setNext node 0)
  else do
    let larger := fun tmp => decide (list.size tmp > list.size node)
    let tmp ← scanOrLast list.next 0 larger addressSpace list.startFree
    if larger tmp then
      some (linkBefore node tmp list)
    else
      some (((list.setNext tmp node).setPrev node tmp).setNext node 0)

/-- Point the neighbours of `node` at each other; one without a predecessor is the head, which
`setStart` replaces. -/
def unlink (setStart : Heap → Nat → Heap) (node : Nat) (list : Heap) : Heap :=
  let list := if list.prev node ≠ 0 then list.setNext (list.prev node) (list.next node)
    else setStart list (list.next node)
  if list.next node ≠ 0 then list.setPrev (list.next node) (list.prev node) else list

/-- Move a node from the free to the used list. -/
def markUsed (node : Nat) (list : Heap) : Option Heap :=
  addToUsed node (unlink Heap.setStartFree node list)

/-- Move a node from the used to the free list. -/
def markFree (node : Nat) (list : Heap) : Option Heap :=
  addToFree node (unlink Heap.setStartUsed node list)

/-! ## Growing the heap -/

def nextPageAddress (mem : Nat) : Nat := add32 (mem &&& 0xFFFFF000) 0x1000

/-- A free filler block up to the aligned address, then the new node. -/
def expandHeapAlignSplit (nodesize heapend alignoffset : Nat) (list : Heap) :
    Option (Heap × Nat) := do
  let lnode := heapend
  let list := list.setSize lnode (sub32 alignoffset (sizeofNode * 2))
  let list := (list.setNext lnode 0).setPrev lnode 0
  let list ← addToFree lnode list
  let newnode := sub32 (add32 heapend alignoffset) sizeofNode
  let list := list.setSize newnode nodesize
  let list := (list.setNext newnode 0).setPrev newnode 0
  some ({ list with cursize := add32 list.cursize (add32 alignoffset nodesize) }, newnode)

/-- Make a new node behind the end of the heap; null when the heap may not grow that far. -/
def expandHeap (nodesize : Nat) (list : Heap) (pagealign : Bool) : Option (Heap × Nat) :=
  let heapend := add32 list.memstart list.cursize
  if pagealign then
    let addr := nextPageAddress heapend
    let offset := sub32 addr heapend
    if add32 (add32 offset nodesize) list.cursize ≤ list.maxsize then
      if offset ≥ sizeofNode * 2 + nodesizeMax then
        expandHeapAlignSplit nodesize heapend offset list
      else if offset = sizeofNode then
        let newnode := heapend
        let list := list.setSize newnode nodesize
        let list := (list.setNext newnode 0).setPrev newnode 0
        some ({ list with cursize := add32 list.cursize (add32 nodesize offset) }, newnode)
      else
        -- too little room for a filler block: skip to the page after
        expandHeapAlignSplit nodesize heapend (add32 offset 0x1000) list
    else
      some ({ list with errno := enomem }, 0)
  else if add32 (add32 list.cursize nodesize) sizeofNode ≤ list.maxsize then
    let newnode := heapend
    let list := list.setSize newnode nodesize
    let list := (list.setPrev newnode 0).setNext newnode 0
    some ({ list with cursize := add32 list.cursize (add32 nodesize sizeofNode) }, newnode)
  else
    some ({ list with errno := enomem }, 0)

/-! ## Allocation and release -/

def perfectFit (node : Nat) (list : Heap) : Option (Heap × Nat) := do
  let list ← markUsed node list
  some (list, node)

/-- Use the front of a free block and give the rest back, if the rest can be a
block. -/
def splitFit (nodesize node : Nat) (list : Heap) : Option (Heap × Nat) :=
  if sub32 (list.size node) nodesize < nodesizeMax + sizeofNode then do
    let list ← markUsed node list
    some (list, node)
  else do
    let newnode := add32 (add32 node nodesize) sizeofNode
    let list := list.setSize newnode (sub32 (list.size node) (add32 nodesize sizeofNode))
    let list := (list.setPrev newnode 0).setNext newnode 0
    let list := list.setSize node nodesize
    let list ← markUsed node list
    let list ← addToFree newnode list
    some (list, node)

/-- The test of the two search loops. The page-aligned loop goes on from every block that is not
aligned itself: the code behind that `continue` is never reached. -/
def fits (list : Heap) (searchsize : Nat) (pagealigned : Bool) (tmp : Nat) : Bool :=
  decide (list.size tmp ≥ searchsize) &&
    (!pagealigned || decide (add32 tmp sizeofNode &&& 0xFFF = 0))

/-- The size `get_free` really looks for. -/
def clampSize (searchsize : Nat) : Nat :=
  if searchsize < nodesizeMax then nodesizeMax else searchsize

/-- The free node the search stops at, null when there is none. -/
def searchFree (searchsize : Nat) (list : Heap) (pagealigned : Bool) : Option Nat :=
  if list.startFree = 0 then some 0
  else scan list.next 0 (fits list searchsize pagealigned) addressSpace list.startFree

/-- Grow the heap and enter the new node into the used list. The result of `expand_heap` is not
checked first. -/
def expandAndUse (searchsize : Nat) (list : Heap) (pagealigned : Bool) : Option (Heap × Nat) := do
  let (list, newnode) ← expandHeap searchsize list pagealigned
  let list ← addToUsed newnode list
  some (list, newnode)

def getFree (searchsize : Nat) (list : Heap) (pagealigned : Bool) : Option (Heap × Nat) := do
  let searchsize := clampSize searchsize
  let tmp ← searchFree searchsize list pagealigned
  if tmp = 0 then
    expandAndUse searchsize list pagealigned
  else if list.size tmp ≠ searchsize then
    splitFit searchsize tmp list
  else
    perfectFit tmp list

/-- `node` if it is on the used list, otherwise null. -/
def searchUsed (node : Nat) (list : Heap) : Option Nat := if list.startUsed = 0 then some 0
  else scan list.next 0 (fun tmp => decide (tmp = node)) addressSpace list.startUsed

/-- Returns `0`, or `-1` when `node` is not on the used list. -/
def freeNode (node : Nat) (list : Heap) : Option (Heap × Int) := do
  let tmp ← searchUsed node list
  if tmp = 0 then
    some ({ list with errno := efault }, -1)
  else
    let list ← markFree node list
    some (list, 0)

/-- The nodes on the used list, from its head on. -/
def usedNodes (list : Heap) : Option (List Nat) := collect list.next 0 addressSpace list.startUsed

/-- The nodes on the free list, from its head on. -/
def freeNodes (list : Heap) : Option (List Nat) := collect list.next 0 addressSpace list.startFree

/-- The address behind the header of the node, or null. -/
def alloc (size : Nat) (heap : Heap) (align : Bool) : Option (Heap × Nat) := do
  let (heap, freenode) ← getFree size heap align
  if freenode = 0 then some (heap, 0)
  else some (heap, add32 freenode sizeofNode)

def free (memory : Nat) (heap : Heap) : Option (Heap × Int) :=
  freeNode (sub32 memory sizeofNode) heap

def kfreeGen (addr : Nat) (heap : Heap) : Option (Heap × Int) := free addr heap

def kmallocGenBase (size : Nat) (heap : Heap) (align : Bool) : Option (Heap × Nat) := do
  let (heap, addr) ← alloc size heap align
  if addr = 0 then some (heap, 0)
  else some (heap, addr)

/-! ## The list of heaps -/

/-- The heaps in memory and `heaplist`. -/
structure Heaps where
  start : Nat → Nat
  maxsize : Nat → Nat
  usermode : Nat → Bool
  nextheap : Nat → Nat
  heaplist : Nat

namespace Heaps

/-- The test of the loop of `is_addr_in_heap`. -/
def contains (s : Heaps) (addr heap : Nat) : Bool :=
  decide (addr ≥ s.start heap) && decide (addr < add32 (s.start heap) (s.maxsize heap))

/-- The heaps on the list, from its head on. -/
def listed (s : Heaps) : Option (List Nat) := collect s.nextheap 0 addressSpace s.heaplist

def setNextheap (s : Heaps) (heap v : Nat) : Heaps :=
  { s with nextheap := update s.nextheap heap v }

end Heaps

/-- The first heap on the list whose range holds the address, or null. -/
def isAddrInHeap (addr : Nat) (s : Heaps) : Option Nat := if s.heaplist = 0 then some 0
  else scan s.nextheap 0 (s.contains addr) addressSpace s.heaplist

/-- Append to the list. -/
def addHeap (heap : Nat) (s : Heaps) : Option Heaps :=
  let s := s.setNextheap heap 0
  if s.heaplist = 0 then
    some { s with heaplist := heap }
  else do
    let tmp ← scanOrLast s.nextheap 0 (fun _ => false) addressSpace s.heaplist
    some (s.setNextheap tmp heap)

/-- `heap` is the record passed in, or the one `allocate_heap` returns for a null
pointer. -/
def createHeap (heap start maxsize : Nat) (usermode : Bool) (s : Heaps) : Option Heaps :=
  addHeap heap { s with
      start := update s.start heap start
      maxsize := update s.maxsize heap maxsize
      usermode := update s.usermode heap usermode }

def kheapStart : Nat := 0xC0000000

def kheapMaxsize : Nat := 0x1000000

def initKheap (heap : Nat) (s : Heaps) : Option Heaps :=
  createHeap heap kheapStart kheapMaxsize false s

def uheapStart : Nat := 0xD0000000

def uheapMaxsize : Nat := 0x1000000

def initUheap (heap : Nat) (s : Heaps) : Option Heaps :=
  createHeap heap uheapStart uheapMaxsize true s

def heapSetusermode (heap : Nat) (s : Heaps) : Heaps :=
  { s with usermode := update s.usermode heap true }

end Yanix.Mm
