/-
Module: Yanix.Mm.BlockHeap
Purpose: The abstract heap: two lists of blocks that together tile the heap's address
  range, which is a field of the structure.
-/
import Yanix.Foundation.Tiling
import Yanix.Mm.LinkedList
import Mathlib.Data.List.TakeWhile

namespace Yanix.Mm

open Foundation List

/-- A block: the address of its header and the size of its payload. -/
structure Block where
  addr : Nat
  size : Nat
deriving DecidableEq

/-- Header and payload. -/
def Block.span (b : Block) : Span := ⟨b.addr, sizeofNode + b.size⟩

/-- Address following the block. -/
def Block.stop (b : Block) : Nat := b.addr + sizeofNode + b.size

theorem Block.span_stop (b : Block) : b.span.stop = b.stop := by
  simp [Block.span, Block.stop, Span.stop, Nat.add_assoc]

/-- Insert before the first larger block, or at the end. -/
def insertBySize (b : Block) (blocks : List Block) : List Block :=
  blocks.takeWhile (fun c => decide (c.size ≤ b.size)) ++
    b :: blocks.dropWhile (fun c => decide (c.size ≤ b.size))

theorem insertBySize_perm (b : Block) (blocks : List Block) :
    (insertBySize b blocks).Perm (b :: blocks) := by
  refine perm_middle.trans (List.Perm.cons b ?_)
  rw [takeWhile_append_dropWhile]

theorem insertBySize_of_all_le {b : Block} {blocks : List Block}
    (small : ∀ c ∈ blocks, c.size ≤ b.size) : insertBySize b blocks = blocks ++ [b] := by
  have all : ∀ c ∈ blocks, decide (c.size ≤ b.size) = true := by simpa using small
  unfold insertBySize
  rw [takeWhile_eq_self_iff.mpr all, dropWhile_eq_nil_iff.mpr all]

theorem insertBySize_of_lt {b c : Block} {front back : List Block}
    (small : ∀ d ∈ front, d.size ≤ b.size) (big : b.size < c.size) :
    insertBySize b (front ++ c :: back) = front ++ b :: c :: back := by
  have all : ∀ d ∈ front, decide (d.size ≤ b.size) = true := by simpa using small
  have stop : decide (c.size ≤ b.size) = false := by simpa using big
  unfold insertBySize
  rw [takeWhile_append_of_pos all, dropWhile_append_of_pos all,
    takeWhile_cons, dropWhile_cons, stop]
  simp

/-- One block appended to the used and one inserted into the free blocks. -/
theorem addPair_perm (u f : Block) (used free : List Block) :
    (u :: f :: (used ++ free)).Perm (used ++ [u] ++ insertBySize f free) := by
  rw [append_assoc, singleton_append]
  refine List.Perm.trans ?_ perm_middle.symm
  refine List.Perm.cons _ (List.perm_middle.symm.trans ?_)
  exact Perm.append_left _ (insertBySize_perm ..).symm

/-- What is left of a block behind a block of `n` bytes cut from its front. -/
def Block.rest (b : Block) (n : Nat) : Block :=
  ⟨b.addr + n + sizeofNode, b.size - (n + sizeofNode)⟩

/-- The block serves a request for `n` bytes. -/
def Block.serves (n : Nat) (pagealigned : Bool) (b : Block) : Bool :=
  decide (n ≤ b.size) && (!pagealigned || decide ((b.addr + sizeofNode) % 0x1000 = 0))

/-- A heap as the set of its blocks.  Address zero is the null node and belongs
to no heap. -/
structure BlockHeap where
  memstart : Nat
  maxsize : Nat
  cursize : Nat
  used : List Block
  free : List Block
  notNull : memstart ≠ 0
  tiles : Tiles memstart (memstart + cursize) ((used ++ free).map Block.span)

namespace BlockHeap

/-- Every block, used or free. -/
def blocks (h : BlockHeap) : List Block := h.used ++ h.free

/-- Address following the last block. -/
def heapend (h : BlockHeap) : Nat := h.memstart + h.cursize

/-- The heap without blocks. -/
def empty (memstart maxsize : Nat) (notNull : memstart ≠ 0) : BlockHeap where
  memstart := memstart
  maxsize := maxsize
  cursize := 0
  used := []
  free := []
  notNull := notNull
  tiles := Tiles.nil memstart

/-! ## Moving, cutting and adding blocks -/

/-- Move a free block to the used list. -/
def take (h : BlockHeap) (b : Block) (isFree : b ∈ h.free) : BlockHeap := { h with
    used := h.used ++ [b]
    free := h.free.erase b
    tiles := by
      refine h.tiles.perm (Perm.map _ ?_)
      rw [append_assoc, singleton_append]
      exact Perm.append_left _ (perm_cons_erase isFree) }

/-- Move a used block to the free list. -/
def release (h : BlockHeap) (b : Block) (isUsed : b ∈ h.used) : BlockHeap := { h with
    used := h.used.erase b
    free := insertBySize b h.free
    tiles := by
      refine h.tiles.perm (Perm.map _ ?_)
      refine ((perm_cons_erase isUsed).append_right _).trans ?_
      refine List.perm_middle.symm.trans ?_
      exact Perm.append_left _ (insertBySize_perm b h.free).symm }

/-- Use the first `n` bytes of a free block and make the rest a block of its
own. -/
def cut (h : BlockHeap) (b : Block) (isFree : b ∈ h.free) (n : Nat)
    (room : n + sizeofNode ≤ b.size) : BlockHeap :=
  { h with
    used := h.used ++ [⟨b.addr, n⟩]
    free := insertBySize (b.rest n) (h.free.erase b)
    tiles := by
      have front : (h.used ++ h.free).Perm (b :: (h.used ++ h.free.erase b)) :=
        ((perm_cons_erase isFree).append_left _).trans perm_middle
      have lengths : b.span = ⟨b.addr, (sizeofNode + n) + (b.rest n).span.len⟩ := by
        simp only [Block.span, Block.rest, Span.mk.injEq, true_and]
        omega
      have address : b.addr + (sizeofNode + n) = (b.rest n).span.start := by
        simp only [Block.span, Block.rest]
        omega
      have tiles := h.tiles.perm (front.map Block.span)
      rw [map_cons, lengths] at tiles
      have tiles := tiles.split
      rw [address] at tiles
      exact tiles.perm ((addPair_perm ⟨b.addr, n⟩ (b.rest n) h.used (h.free.erase b)).map
        Block.span) }

/-- Put a used block behind the end. -/
def grow (h : BlockHeap) (n : Nat) : BlockHeap := { h with
    cursize := h.cursize + (n + sizeofNode)
    used := h.used ++ [⟨h.heapend, n⟩]
    tiles := by
      have tiles := h.tiles.extend (sizeofNode + n)
      rw [show h.memstart + (h.cursize + (n + sizeofNode)) =
        h.memstart + h.cursize + (sizeofNode + n) by omega]
      refine tiles.perm ?_
      have perm : ((⟨h.heapend, n⟩ : Block) :: (h.used ++ h.free)).Perm
          (h.used ++ [⟨h.heapend, n⟩] ++ h.free) := by
        rw [append_assoc, singleton_append]
        exact perm_middle.symm
      exact perm.map Block.span }

/-- Put a free filler block and a used block behind the end, the payload of the
used one starting `offset` bytes behind it. -/
def growSplit (h : BlockHeap) (offset n : Nat) (room : 2 * sizeofNode ≤ offset) : BlockHeap :=
  { h with
    cursize := h.cursize + (offset + n)
    used := h.used ++ [⟨h.heapend + offset - sizeofNode, n⟩]
    free := insertBySize ⟨h.heapend, offset - 2 * sizeofNode⟩ h.free
    tiles := by
      have tiles :=
        (h.tiles.extend (sizeofNode + (offset - 2 * sizeofNode))).extend (sizeofNode + n)
      have stop : h.memstart + h.cursize + (sizeofNode + (offset - 2 * sizeofNode)) =
          h.heapend + offset - sizeofNode := by
        unfold heapend
        omega
      rw [stop] at tiles
      rw [show h.memstart + (h.cursize + (offset + n)) =
        h.heapend + offset - sizeofNode + (sizeofNode + n) by unfold heapend; omega]
      exact tiles.perm ((addPair_perm ⟨h.heapend + offset - sizeofNode, n⟩
        ⟨h.heapend, offset - 2 * sizeofNode⟩ h.used h.free).map
        Block.span) }

/-! ## The allocator on blocks -/

/-- Distance from the end of the heap to the next page boundary. -/
def pageOffset (h : BlockHeap) : Nat := 0x1000 - h.heapend % 0x1000

theorem pageOffset_pos (h : BlockHeap) : 0 < h.pageOffset := by
  unfold pageOffset
  omega

theorem pageOffset_le (h : BlockHeap) : h.pageOffset ≤ 0x1000 := Nat.sub_le ..

/-- The size that is compared with the limit before the heap grows. -/
def asked (h : BlockHeap) (n : Nat) (pagealigned : Bool) : Nat :=
  if pagealigned then h.pageOffset + n + h.cursize else h.cursize + n + sizeofNode

/-- The next page boundary is too close to the end for a filler block. -/
def skipsPage (h : BlockHeap) : Bool :=
  decide (h.pageOffset < 2 * sizeofNode + nodesizeMax) && decide (h.pageOffset ≠ sizeofNode)

/-- Grow the heap by a block of `n` bytes, if it may grow that far. -/
def expand (h : BlockHeap) (n : Nat) (pagealigned : Bool) : Option (BlockHeap × Nat) :=
  if pagealigned then
    if h.pageOffset + n + h.cursize ≤ h.maxsize then
      if room : 2 * sizeofNode + nodesizeMax ≤ h.pageOffset then
        some (h.growSplit h.pageOffset n (by omega), h.heapend + h.pageOffset - sizeofNode)
      else if h.pageOffset = sizeofNode then
        some (h.grow n, h.heapend)
      else
        some (h.growSplit (h.pageOffset + 0x1000) n (by unfold sizeofNode; omega),
          h.heapend + (h.pageOffset + 0x1000) - sizeofNode)
    else none
  else if h.cursize + n + sizeofNode ≤ h.maxsize then
    some (h.grow n, h.heapend)
  else none

/-- Serve a request for `n` bytes (at least `NODESIZE_MAX` of them). -/
def getFree (h : BlockHeap) (n : Nat) (pagealigned : Bool) : Option (BlockHeap × Nat) :=
  match fit : h.free.find? (Block.serves n pagealigned) with
  | some b =>
    if room : b.size - n < nodesizeMax + sizeofNode then
      some (h.take b (mem_of_find?_eq_some fit), b.addr)
    else
      some (h.cut b (mem_of_find?_eq_some fit) n (by unfold nodesizeMax at room; omega), b.addr)
  | none => h.expand n pagealigned

/-- Release the used block at an address. -/
def freeNode (h : BlockHeap) (node : Nat) : Option BlockHeap :=
  match found : h.used.find? (fun b => decide (b.addr = node)) with
  | some b => some (h.release b (mem_of_find?_eq_some found))
  | none => none

end BlockHeap

end Yanix.Mm
