/-
Module: Yanix.Proofs.HeapRefinement
Purpose: The relation between a pointer heap and the block heap it implements; `get_free` and
  `free_node` simulate operations on blocks while their sums stay inside 32 bits.
-/
import Yanix.Proofs.HeapLists

namespace Yanix.Mm

open Foundation List Option

variable {x : Nat} {h : Heap} {h' : Heap} {h1 : Heap}
variable {b : Block} {nodes : List Nat} {used free : List Block} {h : Heap} {a' : BlockHeap}
  {a : BlockHeap}

theorem land_offsetMask (m : Nat) : m &&& 0xFFF = m % 0x1000 := Nat.and_two_pow_sub_one_eq_mod m 12

theorem land_pageMask {m : Nat} (lt : m < 2 ^ 32) : m &&& 0xFFFFF000 = m - m % 0x1000 := by
  have shifted : m - m % 0x1000 = m >>> 12 <<< 12 := by
    omega
  have mask : 0xFFFFF000 = (2 ^ 20 - 1) <<< 12 := by decide
  rw [shifted, mask]
  apply Nat.eq_of_testBit_eq
  intro i
  rw [Nat.testBit_and, Nat.testBit_shiftLeft, Nat.testBit_shiftLeft, Nat.testBit_two_pow_sub_one,
    Nat.testBit_shiftRight]
  by_cases low : 12 ≤ i
  · by_cases high : i - 12 < 20
    · simp [low, high, Nat.add_sub_cancel' low]
    · have zero : m.testBit i = false := Nat.testBit_lt_two_pow (Nat.lt_of_lt_of_le lt
          (Nat.pow_le_pow_right (by decide) (by omega)))
      simp [low, high, zero, Nat.add_sub_cancel' low]
  · simp [low]

namespace BlockHeap

variable (a : BlockHeap)

/-- A block lies inside the heap. -/
theorem spans_bounds (mem : b ∈ a.blocks) : a.memstart ≤ b.addr ∧ b.stop ≤ a.heapend := by
  have := a.tiles.bounds b.span (mem_map_of_mem mem)
  rwa [Block.span_stop] at this

theorem apart {c : Block} (hb : b ∈ a.blocks) (hc : c ∈ a.blocks) (ne : b.addr ≠ c.addr) :
    b.stop ≤ c.addr ∨ c.stop ≤ b.addr := by
  have disjoint := a.tiles.disjoint_of_ne (mem_map_of_mem hb) (mem_map_of_mem hc)
    fun same => ne (congrArg Span.start same)
  simp only [Span.Disjoint, Block.span_stop] at disjoint
  exact disjoint

/-- No two blocks have one address. -/
theorem nodup_addrs : (addrs a.blocks).Nodup := by
  have pairwise : (a.blocks.map Block.span).Pairwise Span.Disjoint := a.tiles.disjoint
  rw [pairwise_map] at pairwise
  unfold addrs List.Nodup
  rw [pairwise_map]
  refine pairwise.imp fun {b c} disjoint same => ?_
  simp only [Span.Disjoint, Span.stop, Block.span, sizeofNode] at disjoint
  omega

theorem headers (inSpace : a.heapend ≤ 2 ^ 32) : Headers (addrs a.blocks) where
  notNull x mem := by
    obtain ⟨b, hb, rfl⟩ := mem_map.mp mem
    have := a.spans_bounds hb
    have := a.notNull
    omega
  inSpace x mem := by
    obtain ⟨b, hb, rfl⟩ := mem_map.mp mem
    have := a.spans_bounds hb
    unfold Block.stop at this
    omega
  apart x hx y hy ne := by
    obtain ⟨b, hb, rfl⟩ := mem_map.mp hx
    obtain ⟨c, hc, rfl⟩ := mem_map.mp hy
    have := a.apart hb hc ne
    unfold Block.stop at this
    omega

/-- There are fewer blocks than addresses, so that every walk ends. -/
theorem length_blocks_lt (inSpace : a.heapend ≤ 2 ^ 32) : a.blocks.length < addressSpace := by
  have long : ∀ s ∈ a.blocks.map Block.span, sizeofNode ≤ s.len := by
    intro s mem
    obtain ⟨b, -, rfl⟩ := mem_map.mp mem
    exact Nat.le_add_right ..
  have count := a.tiles.length_mul_le long
  have total : a.memstart + a.cursize = a.heapend := rfl
  rw [length_map, ← blocks, total] at count
  unfold addressSpace
  unfold sizeofNode at count
  omega

end BlockHeap

/-! ## Writing a fresh header -/

/-- Nothing changed but the header of `x`. -/
structure HeaderWritten (nodes : List Nat) (x : Nat) (h h' : Heap) : Prop where
  record : h' = { h with mem := h'.mem }
  others : ∀ y ∈ nodes, y ≠ x → h'.size y = h.size y ∧ h'.next y = h.next y ∧ h'.prev y = h.prev y
  outside : ∀ a, (∀ y ∈ nodes, a < y ∨ y + sizeofNode ≤ a) → h'.mem a = h.mem a

variable {v start : Nat} {blocks : List Block}

namespace HeaderWritten

variable {x : Nat} {h h' h'' : Heap}

theorem trans (first : HeaderWritten nodes x h h') (second : HeaderWritten nodes x h' h'') :
    HeaderWritten nodes x h h'' where
  record := by rw [second.record, first.record]
  others y mem ne := by
    obtain ⟨size1, next1, prev1⟩ := first.others y mem ne
    obtain ⟨size2, next2, prev2⟩ := second.others y mem ne
    exact ⟨size2.trans size1, next2.trans next1, prev2.trans prev1⟩
  outside a away := (second.outside a away).trans (first.outside a away)

theorem setNext (headers : Headers nodes) (hx : x ∈ nodes) :
    HeaderWritten nodes x h (h.setNext x 0) where
  record := rfl
  others y mem ne := by
    refine ⟨headers.size_setNext hx mem 0, ?_, headers.prev_setNext hx mem 0⟩
    rw [headers.next_setNext hx mem (by decide), if_neg ne]
  outside := (Relinked.setNext headers hx 0).outside

theorem setPrev (headers : Headers nodes) (hx : x ∈ nodes) :
    HeaderWritten nodes x h (h.setPrev x 0) where
  record := rfl
  others y mem ne := by
    refine ⟨headers.size_setPrev hx mem 0, headers.next_setPrev hx mem 0, ?_⟩
    rw [headers.prev_setPrev hx mem (by decide), if_neg ne]
  outside := (Relinked.setPrev headers hx 0).outside

theorem setSize (headers : Headers nodes) (hx : x ∈ nodes) (lt : v < 2 ^ 32) :
    HeaderWritten nodes x h (h.setSize x v) where
  record := rfl
  others y mem ne := by
    refine ⟨?_, headers.next_setSize hx mem v, headers.prev_setSize hx mem v⟩
    rw [headers.size_setSize hx mem lt, if_neg ne]
  outside a away := by
    apply store32_apply_of_disjoint
    have := away x hx
    unfold sizeofNode at this
    omega

theorem listAt (written : HeaderWritten nodes x h h') (list : ListAt h start blocks)
    (members : addrs blocks ⊆ nodes) (away : x ∉ addrs blocks) : ListAt h' start blocks := by
  have ne (y : Nat) (mem : y ∈ addrs blocks) : y ≠ x := fun same => away (same ▸ mem)
  refine ⟨list.head, list.chain.congr fun y mem => ?_, fun b mem => ?_⟩
  · exact (written.others y (members mem) (ne y mem)).2
  · rw [(written.others b.addr (members (addr_mem mem)) (ne _ (addr_mem mem))).1]
    exact list.sizes b mem

theorem lists (written : HeaderWritten nodes x h h') (lists : Lists nodes h used free)
    (fresh : x ∉ addrs used ++ addrs free) : Lists nodes h' used free := by
  have apart : x ∉ addrs used ∧ x ∉ addrs free := by simpa using fresh
  refine ⟨lists.headers, lists.inside, lists.nodup, ?_, ?_⟩
  · rw [show h'.startUsed = h.startUsed by rw [written.record]]
    exact written.listAt lists.used lists.inUsed apart.1
  · rw [show h'.startFree = h.startFree by rw [written.record]]
    exact written.listAt lists.free lists.inFree apart.2

end HeaderWritten

/-- A new node, in either order of its stores. -/
theorem freshNode_spec (headers : Headers nodes) (hx : x ∈ nodes)
    (lt : v < 2 ^ 32) :
    (HeaderWritten nodes x h (((h.setSize x v).setNext x 0).setPrev x 0) ∧
      (((h.setSize x v).setNext x 0).setPrev x 0).size x = v) ∧
    (HeaderWritten nodes x h (((h.setSize x v).setPrev x 0).setNext x 0) ∧
      (((h.setSize x v).setPrev x 0).setNext x 0).size x = v) := by
  have size : (h.setSize x v).size x = v := by
    rw [headers.size_setSize hx hx lt, if_pos rfl]
  refine ⟨⟨?_, ?_⟩, ?_, ?_⟩
  · exact ((HeaderWritten.setSize headers hx lt).trans (HeaderWritten.setNext headers hx)).trans
      (HeaderWritten.setPrev headers hx)
  · rw [headers.size_setPrev hx hx, headers.size_setNext hx hx, size]
  · exact ((HeaderWritten.setSize headers hx lt).trans (HeaderWritten.setPrev headers hx)).trans
      (HeaderWritten.setNext headers hx)
  · rw [headers.size_setNext hx hx, headers.size_setPrev hx hx, size]

variable {front back : List Block} {n : Nat}

theorem resize_listAt (headers : Headers nodes)
    (members : addrs (front ++ b :: back) ⊆ nodes) (nodup : (addrs (front ++ b :: back)).Nodup)
    (lt : n < 2 ^ 32) (list : ListAt h start (front ++ b :: back)) :
    ListAt (h.setSize b.addr n) start (front ++ ⟨b.addr, n⟩ :: back) := by
  have hb : b.addr ∈ nodes := members (by simp)
  have same : addrs (front ++ ⟨b.addr, n⟩ :: back) = addrs (front ++ b :: back) := by simp
  refine ⟨?_, ?_, fun c mem => ?_⟩
  · rw [same]
    exact list.head
  · rw [same]
    refine list.chain.congr fun y mem => ?_
    exact ⟨headers.next_setSize hb (members mem) n, headers.prev_setSize hb (members mem) n⟩
  · have hc : c.addr ∈ nodes := members (by rw [← same]; exact addr_mem mem)
    rw [headers.size_setSize hb hc lt]
    rw [addrs_append, addrs_cons] at nodup
    have apart := (nodup_middle.mp nodup).notMem
    rw [mem_append, not_or] at apart
    rcases mem_append.mp mem with first | second
    · have ne : c.addr ≠ b.addr := fun eq => apart.1 (eq ▸ addr_mem first)
      rw [if_neg ne]
      exact list.sizes c (mem_append_left _ first)
    rcases mem_cons.mp second with rfl | later
    · rw [if_pos rfl]
    have ne : c.addr ≠ b.addr := fun eq => apart.2 (eq ▸ addr_mem later)
    rw [if_neg ne]
    exact list.sizes c (mem_append_right _ (mem_cons_of_mem _ later))

namespace Lists

theorem resized (lists : Lists nodes h used free) (cursize : Nat) :
    Lists nodes { h with cursize := cursize } used free :=
  ⟨lists.headers, lists.inside, lists.nodup, lists.used.of_mem_eq rfl, lists.free.of_mem_eq rfl⟩

theorem resize (lists : Lists nodes h used (front ++ b :: back)) (lt : n < 2 ^ 32) :
    Lists nodes (h.setSize b.addr n) used (front ++ ⟨b.addr, n⟩ :: back) := by
  have hb : b.addr ∈ nodes := lists.inFree (by simp)
  have same : addrs (front ++ ⟨b.addr, n⟩ :: back) = addrs (front ++ b :: back) := by simp
  refine ⟨lists.headers, same ▸ lists.inside, same ▸ lists.nodup, ?_, ?_⟩
  · exact (HeaderWritten.setSize lists.headers hb lt).listAt lists.used lists.inUsed
      fun mem => lists.apart mem (by simp)
  · exact resize_listAt lists.headers lists.inFree lists.nodupFree lt lists.free

/-- A free block is cut in two. -/
theorem split_spec {rest : Block} (lists : Lists nodes h used (front ++ b :: back))
    (hrest : rest.addr ∈ nodes) (fresh : rest.addr ∉ addrs used ++ addrs (front ++ b :: back))
    (lt : rest.size < 2 ^ 32) (nSmall : n < 2 ^ 32)
    (short : used.length + (front ++ back).length < addressSpace) :
    ∃ h', (do
        let list := h.setSize rest.addr rest.size
        let list := (list.setPrev rest.addr 0).setNext rest.addr 0
        let list := list.setSize b.addr n
        let list ← markUsed b.addr list
        addToFree rest.addr list) = some h' ∧
      Lists nodes h' (used ++ [⟨b.addr, n⟩]) (insertBySize rest (front ++ back)) ∧
      h' = { h with mem := h'.mem, startUsed := h'.startUsed, startFree := h'.startFree } := by
  have hb : b.addr ∈ nodes := lists.inFree (by simp)
  have bRest : rest.addr ≠ b.addr := fun same => fresh (by simp [same])
  -- the header of the rest, then the new size of the front
  obtain ⟨-, written1, size1⟩ := freshNode_spec (h := h) lists.headers hrest lt
  simp only
  generalize ((h.setSize rest.addr rest.size).setPrev rest.addr 0).setNext rest.addr 0 = h1
    at written1 size1 ⊢
  have written2 : HeaderWritten nodes b.addr h1 (h1.setSize b.addr n) :=
    HeaderWritten.setSize lists.headers hb nSmall
  have lists2 := (written1.lists lists fresh).resize nSmall
  have size2 := (written2.others _ hrest bRest).1.trans size1
  have record2 : h1.setSize b.addr n = { h with mem := (h1.setSize b.addr n).mem } := by
    rw [written2.record, written1.record]
  generalize h1.setSize b.addr n = h2 at *
  -- the front goes to the used list, the rest to the free list
  obtain ⟨h3, ret3, lists3, edited3, record3⟩ := lists2.markUsed_spec (by omega)
  have fresh3 : rest.addr ∉ addrs (used ++ [⟨b.addr, n⟩]) ++ addrs (front ++ back) := by
    simp only [addrs_append, addrs_cons, mem_append, mem_cons] at fresh ⊢
    tauto
  obtain ⟨h4, ret4, lists4, record4⟩ := lists3.addToFree_spec hrest fresh3 (by omega)
  rw [edited3.size _ hrest, size2] at lists4
  refine ⟨h4, ?_, lists4, ?_⟩
  · rw [ret3]
    exact ret4
  · rw [record4, record3, record2]

/-- A page-aligned block grows behind a filler block. -/
theorem align_spec {lnode newnode : Block} (cursize : Nat) (lists : Lists nodes h used free)
    (members : [newnode.addr, lnode.addr] ⊆ nodes)
    (nodup : ([newnode.addr, lnode.addr] ++ (addrs used ++ addrs free)).Nodup)
    (lSmall : lnode.size < 2 ^ 32) (newSmall : newnode.size < 2 ^ 32)
    (short : used.length + free.length < addressSpace) :
    ∃ h1 h', addToFree lnode.addr
        (((h.setSize lnode.addr lnode.size).setNext lnode.addr 0).setPrev lnode.addr 0) = some h1 ∧
      addToUsed newnode.addr
        { ((h1.setSize newnode.addr newnode.size).setNext newnode.addr 0).setPrev newnode.addr 0
          with cursize := cursize } = some h' ∧
      Lists nodes h' (used ++ [newnode]) (insertBySize lnode free) ∧ h1.cursize = h.cursize ∧
      h' = { h with
        cursize := cursize, mem := h'.mem, startUsed := h'.startUsed,
        startFree := h'.startFree } := by
  obtain ⟨freshNew, nodupOld⟩ := nodup_cons.mp nodup
  obtain ⟨freshL, -⟩ := nodup_cons.mp nodupOld
  have hl : lnode.addr ∈ nodes := members (by simp)
  have hnew : newnode.addr ∈ nodes := members (by simp)
  -- the filler block
  obtain ⟨⟨written1, size1⟩, -⟩ := freshNode_spec (h := h) lists.headers hl lSmall
  generalize ((h.setSize lnode.addr lnode.size).setNext lnode.addr 0).setPrev lnode.addr 0 = h1
    at written1 size1 ⊢
  obtain ⟨h2, ret2, lists2, record2⟩ :=
    (written1.lists lists freshL).addToFree_spec hl freshL (by omega)
  rw [size1] at lists2
  -- the node itself
  have fresh2 : newnode.addr ∉ addrs used ++ addrs (insertBySize lnode free) := fun member =>
    freshNew ((addrs_insertBySize_perm lnode used free).mem_iff.mp member)
  obtain ⟨⟨written3, size3⟩, -⟩ := freshNode_spec (h := h2) lists.headers hnew newSmall
  refine ⟨h2, ?_⟩
  generalize ((h2.setSize newnode.addr newnode.size).setNext newnode.addr 0).setPrev
    newnode.addr 0 = h3 at written3 size3 ⊢
  obtain ⟨h', ret, lists', record⟩ :=
    ((written3.lists lists2 fresh2).resized cursize).addToUsed_spec hnew fresh2 (by omega)
  rw [show Heap.size { h3 with cursize := cursize } newnode.addr = newnode.size from size3]
    at lists'
  refine ⟨h', ret2, ret, lists', ?_, ?_⟩
  · rw [record2, written1.record]
  · rw [record, written3.record, record2, written1.record]

end Lists

theorem exists_split (nodup : (addrs blocks).Nodup) (mem : b ∈ blocks) :
    ∃ front back, blocks = front ++ b :: back ∧ blocks.erase b = front ++ back := by
  obtain ⟨front, back, rfl⟩ := append_of_mem mem
  refine ⟨front, back, rfl, ?_⟩
  have notFront : b ∉ front := by
    intro lt
    rw [addrs_append, addrs_cons] at nodup
    exact (nodup_middle.mp nodup).notMem (mem_append_left _ (addr_mem lt))
  rw [erase_append_right _ notFront, erase_cons_head]

/-! ## The relation -/

/-- `h` implements the block heap `a`. -/
structure Encodes (h : Heap) (a : BlockHeap) : Prop where
  memstart : h.memstart = a.memstart
  maxsize : h.maxsize = a.maxsize
  cursize : h.cursize = a.cursize
  inSpace : a.heapend ≤ 2 ^ 32
  used : ListAt h h.startUsed a.used
  free : ListAt h h.startFree a.free

/-- A new heap has no blocks. -/
theorem createLinkedlist_represents {memstart : Nat} (maxsize user : Nat) (mem : Bytes)
    (errno : Nat) (ne : memstart ≠ 0) (inSpace : memstart ≤ 2 ^ 32) :
    Encodes (createLinkedlist memstart maxsize user mem errno)
      (BlockHeap.empty memstart maxsize ne) where
  memstart := rfl
  maxsize := rfl
  cursize := rfl
  inSpace := inSpace
  used := ListAt.nil _
  free := ListAt.nil _

namespace Encodes

variable (rep : Encodes h a)

include rep

theorem headers : Headers (addrs a.blocks) := a.headers rep.inSpace

theorem lengths_lt : a.used.length + a.free.length < addressSpace := by
  have short := a.length_blocks_lt rep.inSpace
  rwa [BlockHeap.blocks, length_append] at short

theorem usedNodes_eq : usedNodes h = some (addrs a.used) := by
  have short := rep.lengths_lt
  apply rep.used.collect_eq
  · exact fun zero => rep.headers.notNull 0 (by simp [BlockHeap.blocks, zero]) rfl
  · omega

theorem freeNodes_eq : freeNodes h = some (addrs a.free) := by
  have short := rep.lengths_lt
  apply rep.free.collect_eq
  · exact fun zero => rep.headers.notNull 0 (by simp [BlockHeap.blocks, zero]) rfl
  · omega

theorem size_eq (mem : b ∈ a.blocks) : h.size b.addr = b.size := by
  rcases mem_append.mp mem with inUsed | inFree
  · exact rep.used.sizes b inUsed
  · exact rep.free.sizes b inFree

/-- A heap with the lists of `a` implements it. -/
theorem rebuild (params : a'.memstart = a.memstart ∧ a'.maxsize = a.maxsize)
    (record : h' = { h with
      cursize := a'.cursize, mem := h'.mem, startUsed := h'.startUsed, startFree := h'.startFree,
      errno := h'.errno }) (inSpace : a'.heapend ≤ 2 ^ 32) (used : ListAt h' h'.startUsed a'.used)
    (free : ListAt h' h'.startFree a'.free) : Encodes h' a' where
  memstart := by rw [record, params.1]; exact rep.memstart
  maxsize := by rw [record, params.2]; exact rep.maxsize
  cursize := by rw [record]
  inSpace := inSpace
  used := used
  free := free

theorem relist
    (params : a'.memstart = a.memstart ∧ a'.maxsize = a.maxsize ∧ a'.cursize = a.cursize)
    (record : h' = { h with mem := h'.mem, startUsed := h'.startUsed, startFree := h'.startFree })
    (lists : Lists nodes h' a'.used a'.free) : Encodes h' a' := by
  refine rep.rebuild ⟨params.1, params.2.1⟩ ?_ ?_ lists.used lists.free
  · rw [params.2.2, ← rep.cursize, record]
  unfold BlockHeap.heapend
  rw [params.1, params.2.2]
  exact rep.inSpace

theorem lists {fresh : List Nat} (inSpace : a'.heapend ≤ 2 ^ 32)
    (perm : (addrs a'.blocks).Perm (fresh ++ (addrs a.used ++ addrs a.free))) :
    Lists (addrs a'.blocks) h a.used a.free ∧ fresh ⊆ addrs a'.blocks ∧
      (fresh ++ (addrs a.used ++ addrs a.free)).Nodup := by
  have nodup := perm.nodup_iff.mp a'.nodup_addrs
  refine ⟨⟨a'.headers inSpace, ?_, (nodup_append.mp nodup).2.1, rep.used, rep.free⟩, ?_, nodup⟩
  · exact fun x mem => perm.mem_iff.mpr (mem_append_right _ mem)
  · exact fun x mem => perm.mem_iff.mpr (mem_append_left _ mem)

theorem ownLists : Lists (addrs a.blocks) h a.used a.free ∧
    a.used.length + a.free.length < addressSpace := by
  have perm : (addrs a.blocks).Perm ([] ++ (addrs a.used ++ addrs a.free)) := by
    simp [BlockHeap.blocks]
  exact ⟨(rep.lists rep.inSpace perm).1, rep.lengths_lt⟩

/-- A free block becomes a used one. -/
theorem take (isFree : b ∈ a.free) :
    ∃ h', markUsed b.addr h = some h' ∧ Encodes h' (a.take b isFree) := by
  obtain ⟨lists, short⟩ := rep.ownLists
  obtain ⟨front, back, split, erased⟩ := exists_split lists.nodupFree isFree
  rw [split] at lists
  obtain ⟨h', ret, lists', -, record⟩ := lists.markUsed_spec (by omega)
  rw [← erased] at lists'
  exact ⟨h', ret, rep.relist ⟨rfl, rfl, rfl⟩ record lists'⟩

/-- A used block becomes a free one. -/
theorem release (isUsed : b ∈ a.used) :
    ∃ h', markFree b.addr h = some h' ∧ Encodes h' (a.release b isUsed) := by
  obtain ⟨lists, short⟩ := rep.ownLists
  obtain ⟨front, back, split, erased⟩ := exists_split lists.nodupUsed isUsed
  rw [split] at lists
  obtain ⟨h', ret, lists', record⟩ := lists.markFree_spec (by omega)
  rw [← erased] at lists'
  exact ⟨h', ret, rep.relist ⟨rfl, rfl, rfl⟩ record lists'⟩

theorem cut (isFree : b ∈ a.free) (room : n + sizeofNode ≤ b.size) : ∃ h', (do
        let list := h.setSize (b.rest n).addr (b.rest n).size
        let list := (list.setPrev (b.rest n).addr 0).setNext (b.rest n).addr 0
        let list := list.setSize b.addr n
        let list ← markUsed b.addr list
        addToFree (b.rest n).addr list) = some h' ∧ Encodes h' (a.cut b isFree n room) := by
  -- the headers are those that exist afterwards
  have inSpace := rep.inSpace
  have bounds := (a.spans_bounds (mem_append_right _ isFree)).2
  have short := (a.cut b isFree n room).length_blocks_lt inSpace
  obtain ⟨front, back, split, erased⟩ := exists_split rep.ownLists.1.nodupFree isFree
  have perm : (addrs (a.cut b isFree n room).blocks).Perm
      ([(b.rest n).addr] ++ (addrs a.used ++ addrs a.free)) := by
    have pair := (addPair_perm ⟨b.addr, n⟩ (b.rest n) a.used (front ++ back)).map Block.addr
    have middle : (addrs a.used ++ addrs (front ++ b :: back)).Perm
        (b.addr :: (addrs a.used ++ addrs (front ++ back))) := by
      simp only [addrs_append, addrs_cons, ← append_assoc]
      exact perm_middle
    rw [split]
    refine List.Perm.trans ?_ ((middle.cons _).trans (List.Perm.swap ..)).symm
    simpa [BlockHeap.cut, BlockHeap.blocks, erased, addrs] using pair.symm
  obtain ⟨lists, members, nodup⟩ :=
    rep.lists (show (a.cut b isFree n room).heapend ≤ _ from inSpace) perm
  rw [split] at lists nodup
  simp only [BlockHeap.cut, BlockHeap.blocks, erased, length_append,
    (insertBySize_perm ..).length_eq, length_cons, length_nil] at short
  simp only [Block.stop, sizeofNode] at bounds room
  have lt : (b.rest n).size < 2 ^ 32 := by
    simp only [Block.rest, sizeofNode]
    omega
  obtain ⟨h', ret, lists', record⟩ := lists.split_spec (members (by simp))
    (nodup_cons.mp nodup).1 lt (show n < 2 ^ 32 by omega)
    (by rw [length_append]; omega)
  rw [← erased] at lists'
  exact ⟨h', ret, rep.relist ⟨rfl, rfl, rfl⟩ record lists'⟩

/-- The heap grows by one used block. -/
theorem grow (inSpace : (a.grow n).heapend ≤ 2 ^ 32)
    (written : HeaderWritten (addrs (a.grow n).blocks) a.heapend h h1)
    (size : h1.size a.heapend = n) :
    ∃ h', addToUsed a.heapend { h1 with cursize := (a.grow n).cursize } = some h' ∧
      Encodes h' (a.grow n) := by
  have short := (a.grow n).length_blocks_lt inSpace
  have perm : (addrs (a.grow n).blocks).Perm ([a.heapend] ++ (addrs a.used ++ addrs a.free)) := by
    simp only [BlockHeap.grow, BlockHeap.blocks, addrs_append, addrs_cons,
      append_assoc, singleton_append]
    exact perm_middle
  obtain ⟨lists, members, nodup⟩ := rep.lists inSpace perm
  have fresh := (nodup_cons.mp nodup).1
  simp only [BlockHeap.grow, BlockHeap.blocks, length_append] at short
  obtain ⟨h', ret, lists', record⟩ := ((written.lists lists fresh).resized
    (a.grow n).cursize).addToUsed_spec (members (by simp)) fresh (by omega)
  rw [show Heap.size { h1 with cursize := (a.grow n).cursize } a.heapend = n from size] at lists'
  refine ⟨h', ret, rep.rebuild ⟨rfl, rfl⟩ ?_ inSpace lists'.used lists'.free⟩
  rw [record, written.record]

/-- The heap grows by a filler block and an aligned one. -/
theorem growSplit {offset : Nat} (room : 2 * sizeofNode ≤ offset)
    (inSpace : (a.growSplit offset n room).heapend ≤ 2 ^ 32) :
    ∃ h', (do
        let (list, newnode) ← expandHeapAlignSplit n a.heapend offset h
        let list ← addToUsed newnode list
        some (list, newnode)) = some (h', a.heapend + offset - sizeofNode) ∧
      Encodes h' (a.growSplit offset n room) := by
  have short := (a.growSplit offset n room).length_blocks_lt inSpace
  generalize node : a.heapend + offset - sizeofNode = newnode
  generalize filler : (⟨a.heapend, offset - 2 * sizeofNode⟩ : Block) = lnode
  have perm : (addrs (a.growSplit offset n room).blocks).Perm
      ([newnode, lnode.addr] ++ (addrs a.used ++ addrs a.free)) := by
    have pair := (addPair_perm ⟨newnode, n⟩ lnode a.used a.free).map Block.addr
    simpa [BlockHeap.growSplit, BlockHeap.blocks, addrs, node, filler] using pair.symm
  obtain ⟨lists, members, nodup⟩ := rep.lists inSpace perm
  simp only [BlockHeap.growSplit, BlockHeap.blocks, length_append, node, filler,
    (insertBySize_perm ..).length_eq, length_cons, length_nil] at short
  -- none of the sums of the code wraps around
  have total : a.heapend + offset + n ≤ 2 ^ 32 := by
    simp only [BlockHeap.growSplit, BlockHeap.heapend] at inSpace ⊢
    omega
  have pos : 0 < a.heapend := Nat.add_pos_left (Nat.pos_of_ne_zero a.notNull) _
  have lAddr : a.heapend = lnode.addr := by rw [← filler]
  have lSize : sub32 offset (sizeofNode * 2) = lnode.size := by
    rw [← filler]
    simp only [sub32, sizeofNode] at room ⊢
    omega
  have newAddr : sub32 (add32 a.heapend offset) sizeofNode = newnode := by
    rw [← node]
    simp only [sub32, add32, sizeofNode] at room ⊢
    omega
  have newSize : add32 h.cursize (add32 offset n) = (a.growSplit offset n room).cursize := by
    rw [rep.cursize]
    simp only [add32, BlockHeap.growSplit, BlockHeap.heapend, sizeofNode] at total pos room ⊢
    have := a.notNull
    omega
  obtain ⟨h1, h', ret1, ret, lists', cursize1, record⟩ :=
    Lists.align_spec (a.growSplit offset n room).cursize lists
      (show [Block.addr ⟨newnode, n⟩, lnode.addr] ⊆ _ from members) nodup
      (lSize ▸ sub32_lt ..) (show n < 2 ^ 32 by omega) (by omega)
  refine ⟨h', ?_, rep.rebuild ⟨rfl, rfl⟩ ?_ inSpace ?_ ?_⟩
  · simp only [expandHeapAlignSplit, newAddr, lSize]
    rw [lAddr, ret1]
    have grown : (((h1.setSize newnode n).setNext newnode 0).setPrev newnode 0).cursize =
        h.cursize := cursize1
    simp only [bind_eq_bind, bind_some, grown, newSize]
    rw [ret]
    rfl
  · rw [record]
  · simpa only [BlockHeap.growSplit, node] using lists'.used
  · simpa only [BlockHeap.growSplit, filler] using lists'.free

end Encodes

/-- The comparison of `expand_heap` is made on the true sum, and a heap that grows stays in the
address space. -/
structure NoWrap (a : BlockHeap) (n : Nat) (pagealigned : Bool) : Prop where
  sum : a.asked n pagealigned < 2 ^ 32
  inSpace : ∀ result ∈ a.expand n pagealigned, result.1.heapend ≤ 2 ^ 32

variable {n node : Nat} {pagealigned : Bool}

namespace Encodes

variable (rep : Encodes h a)

include rep

theorem heapend_eq : add32 h.memstart h.cursize = a.heapend % 2 ^ 32 := by
  rw [rep.memstart, rep.cursize]
  rfl

theorem offset_eq :
    sub32 (nextPageAddress (add32 h.memstart h.cursize)) (add32 h.memstart h.cursize) =
      a.pageOffset := by
  rw [rep.heapend_eq]
  simp only [nextPageAddress, land_pageMask (Nat.mod_lt _ (by decide : 0 < 2 ^ 32)),
    BlockHeap.pageOffset, add32, sub32]
  omega

/-- The comparison of an aligned request is that of the abstract heap. -/
theorem alignedCheck_iff (noWrap : NoWrap a n true) :
    add32 (add32 a.pageOffset n) h.cursize ≤ h.maxsize ↔
      a.pageOffset + n + a.cursize ≤ a.maxsize := by
  have sum : a.pageOffset + n + a.cursize < 2 ^ 32 := noWrap.sum
  have inner : add32 a.pageOffset n = a.pageOffset + n := add32_of_lt (by omega)
  rw [rep.cursize, rep.maxsize, inner, add32_of_lt sum]

/-- The comparison of a plain request is that of the abstract heap. -/
theorem plainCheck_iff (noWrap : NoWrap a n false) :
    add32 (add32 h.cursize n) sizeofNode ≤ h.maxsize ↔
      a.cursize + n + sizeofNode ≤ a.maxsize := by
  have sum : a.cursize + n + sizeofNode < 2 ^ 32 := noWrap.sum
  have inner : add32 a.cursize n = a.cursize + n := add32_of_lt (by omega)
  rw [rep.cursize, rep.maxsize, inner, add32_of_lt sum]

/-! ## Growing -/

theorem growOne (inSpace : (a.grow n).heapend ≤ 2 ^ 32)
    (cleared : h1 = ((h.setSize a.heapend n).setNext a.heapend 0).setPrev a.heapend 0 ∨
      h1 = ((h.setSize a.heapend n).setPrev a.heapend 0).setNext a.heapend 0) :
    ∃ h', (do
        let list ← addToUsed a.heapend { h1 with cursize := add32 h.cursize (add32 n sizeofNode) }
        some (list, a.heapend)) = some (h', a.heapend) ∧ Encodes h' (a.grow n) := by
  have headers := (a.grow n).headers inSpace
  have hx : a.heapend ∈ addrs (a.grow n).blocks := by simp [BlockHeap.grow, BlockHeap.blocks]
  have pos := a.notNull
  have total : a.memstart + (a.cursize + (n + sizeofNode)) ≤ 2 ^ 32 := inSpace
  have lt : n < 2 ^ 32 := by omega
  have cursize : add32 h.cursize (add32 n sizeofNode) = (a.grow n).cursize := by
    rw [rep.cursize]
    show _ = a.cursize + (n + sizeofNode)
    unfold add32
    omega
  obtain ⟨order1, order2⟩ := freshNode_spec (h := h) headers hx lt
  have written : HeaderWritten (addrs (a.grow n).blocks) a.heapend h h1 ∧
      h1.size a.heapend = n := by
    rcases cleared with rfl | rfl
    · exact order1
    · exact order2
  obtain ⟨h', ret, rep'⟩ := rep.grow inSpace written.1 written.2
  refine ⟨h', ?_, rep'⟩
  rw [cursize, ret]
  rfl

/-- Growing does in memory what it does to the blocks. -/
theorem expandAndUse_refines (noWrap : NoWrap a n pagealigned)
    (ret : a.expand n pagealigned = some (a', node)) :
    ∃ h', expandAndUse n h pagealigned = some (h', node) ∧ Encodes h' a' := by
  have grown : a'.heapend ≤ 2 ^ 32 := noWrap.inSpace _ ret
  have heapend : add32 h.memstart h.cursize = a.heapend := by
    have expandGrows : a.heapend < a'.heapend := by
      unfold BlockHeap.expand at ret
      split_ifs at ret <;> cases ret <;>
        simp only [BlockHeap.growSplit, BlockHeap.grow, BlockHeap.heapend, sizeofNode] <;>
        have := a.pageOffset_pos <;> omega
    rw [rep.heapend_eq, Nat.mod_eq_of_lt (Nat.lt_of_lt_of_le (expandGrows) grown)]
  have offset := rep.offset_eq
  rw [heapend] at offset
  unfold expandAndUse expandHeap
  unfold BlockHeap.expand at ret
  cases pagealigned with
  | true =>
    simp only [if_true, heapend, offset, rep.alignedCheck_iff noWrap] at ret ⊢
    rw [Nat.mul_comm sizeofNode 2]
    split_ifs at ret ⊢ with fits room single
    · cases ret
      exact rep.growSplit _ grown
    · cases ret
      rw [single]
      exact rep.growOne grown (.inl rfl)
    cases ret
    have skip : add32 a.pageOffset 0x1000 = a.pageOffset + 0x1000 :=
      add32_of_lt (by have := a.pageOffset_le; omega)
    rw [skip]
    exact rep.growSplit _ grown
  | false =>
    simp only [Bool.false_eq_true, if_false, heapend, rep.plainCheck_iff noWrap] at ret ⊢
    split_ifs at ret ⊢ with fits
    cases ret
    exact rep.growOne grown (.inr rfl)

/-- A refused growth changes nothing but `errno`. -/
theorem expandHeap_fails (noWrap : NoWrap a n pagealigned) (ret : a.expand n pagealigned = none) :
    expandHeap n h pagealigned = some ({ h with errno := enomem }, 0) := by
  unfold expandHeap
  unfold BlockHeap.expand at ret
  cases pagealigned with
  | true =>
    simp only [if_true, rep.offset_eq, rep.alignedCheck_iff noWrap] at ret ⊢
    split_ifs at ret ⊢
    rfl
  | false =>
    simp only [Bool.false_eq_true, if_false, rep.plainCheck_iff noWrap] at ret ⊢
    split_ifs at ret ⊢
    rfl

theorem not_mem_zero : 0 ∉ addrs a.blocks := fun zero =>
  rep.headers.notNull 0 zero rfl

/-- The search takes the first free block that serves the request. -/
theorem searchFree_eq (n : Nat) (pagealigned : Bool) : searchFree n h pagealigned =
      some (((a.free.find? (Block.serves n pagealigned)).map Block.addr).getD 0) := by
  have alive : 0 ∉ addrs a.free := fun zero =>
    rep.not_mem_zero (by simpa [BlockHeap.blocks] using .inr zero)
  have short := rep.lengths_lt
  unfold searchFree
  by_cases empty : a.free = []
  · rw [if_pos ((rep.free.start_eq_zero_iff alive).mpr empty), empty]
    rfl
  rw [if_neg (mt (rep.free.start_eq_zero_iff alive).mp empty)]
  apply rep.free.scan_eq alive (by omega) empty
  intro b mem
  have size := rep.free.sizes b mem
  have aligned : add32 b.addr sizeofNode &&& 0xFFF = (b.addr + sizeofNode) % 0x1000 := by
    rw [land_offsetMask]
    unfold add32
    omega
  simp only [fits, Block.serves, size, aligned, ge_iff_le]

theorem searchUsed_eq (node : Nat) : searchUsed node h =
      some (((a.used.find? fun b => decide (b.addr = node)).map Block.addr).getD 0) := by
  have alive : 0 ∉ addrs a.used := fun zero =>
    rep.not_mem_zero (by simpa [BlockHeap.blocks] using .inl zero)
  have short := rep.lengths_lt
  unfold searchUsed
  by_cases empty : a.used = []
  · rw [if_pos ((rep.used.start_eq_zero_iff alive).mpr empty), empty]
    rfl
  · rw [if_neg (mt (rep.used.start_eq_zero_iff alive).mp empty)]
    exact rep.used.scan_eq alive (by omega) empty _ _ fun b mem => rfl

/-- A block that is larger than needed is cut, one that fits is taken whole. -/
theorem splitFit_refines (isFree : b ∈ a.free) (le : n ≤ b.size) :
    ∃ h', splitFit n b.addr h = some (h', b.addr) ∧
      Encodes h' (if room : b.size - n < nodesizeMax + sizeofNode then a.take b isFree
        else a.cut b isFree n (by unfold nodesizeMax at room; omega)) := by
  have bounds := (a.spans_bounds (mem_append_right _ isFree)).2
  have inSpace := rep.inSpace
  simp only [Block.stop, sizeofNode] at bounds
  have size := rep.free.sizes b isFree
  have left : sub32 b.size n = b.size - n := sub32_of_le le (by omega)
  unfold splitFit
  rw [size, left]
  by_cases room : b.size - n < nodesizeMax + sizeofNode
  · rw [if_pos room, dif_pos room]
    obtain ⟨h', ret, rep'⟩ := rep.take isFree
    refine ⟨h', ?_, rep'⟩
    rw [ret]
    rfl
  rw [if_neg room, dif_neg room]
  have restAddr : add32 (add32 b.addr n) sizeofNode = (b.rest n).addr := by
    simp only [add32, Block.rest, sizeofNode, nodesizeMax] at room ⊢
    omega
  have restSize : sub32 b.size (add32 n sizeofNode) = (b.rest n).size := by
    simp only [add32, sub32, Block.rest, sizeofNode, nodesizeMax] at room ⊢
    omega
  obtain ⟨h', ret, rep'⟩ := rep.cut isFree (n := n) (by unfold nodesizeMax at room; omega)
  refine ⟨h', ?_, rep'⟩
  simp only [restAddr, restSize, bind_eq_bind] at ret ⊢
  rw [← bind_assoc, ret]
  rfl

/-- A request that is served does in memory what it does to the blocks. -/
theorem getFree_refines (noWrap : a.free.find? (Block.serves (clampSize n) pagealigned) = none →
      NoWrap a (clampSize n) pagealigned)
    (ret : a.getFree (clampSize n) pagealigned = some (a', node)) :
    ∃ h', getFree n h pagealigned = some (h', node) ∧ Encodes h' a' := by
  unfold getFree
  simp only [rep.searchFree_eq, bind_eq_bind, bind_some]
  generalize clampSize n = m at *
  unfold BlockHeap.getFree at ret
  split at ret
  · next b found =>
      have isFree := mem_of_find?_eq_some found
      have alive : b.addr ≠ 0 := rep.headers.notNull _ (addr_mem (mem_append_right _ isFree))
      have le : m ≤ b.size := by
        have serves := find?_some found
        simp only [Block.serves, Bool.and_eq_true, decide_eq_true_eq] at serves
        exact serves.1
      have size := rep.free.sizes b isFree
      simp only [found, map_some, getD_some, if_neg alive, size]
      by_cases perfect : b.size = m
      · have lt : b.size - m < nodesizeMax + sizeofNode := by
          rw [perfect, Nat.sub_self]
          decide
        rw [dif_pos lt] at ret
        cases ret
        rw [if_neg (not_not.mpr perfect)]
        obtain ⟨h', taken, rep'⟩ := rep.take isFree
        refine ⟨h', ?_, rep'⟩
        unfold perfectFit
        rw [taken]
        rfl
      · rw [if_pos perfect]
        obtain ⟨h', split, rep'⟩ := rep.splitFit_refines isFree le
        split_ifs at ret rep' with room
        · cases ret
          exact ⟨h', split, rep'⟩
        · cases ret
          exact ⟨h', split, rep'⟩
  · next missing =>
      simp only [missing, map_none, getD_none, if_true]
      exact rep.expandAndUse_refines (noWrap missing) ret

/-! ## Failed allocation

`get_free` enters the null node into the used list.  That writes the two links
of a header at address zero and is harmless while no block lies there. -/

theorem nullLinks_fields (above : sizeofNode ≤ a.memstart) {l : Heap}
    (mem : x ∈ addrs a.blocks) (v : Nat) :
    let l' := (l.setPrev 0 v).setNext 0 0
    l'.size x = l.size x ∧ l'.next x = l.next x ∧ l'.prev x = l.prev x := by
  obtain ⟨b, hb, rfl⟩ := mem_map.mp mem
  have high : 12 ≤ b.addr := Nat.le_trans above (a.spans_bounds hb).1
  have nextField := rep.headers.nextField mem
  have prevField := rep.headers.prevField mem
  have zero4 : add32 0 4 = 4 := rfl
  have zero8 : add32 0 8 = 8 := rfl
  simp only [Heap.size, Heap.next, Heap.prev, Heap.setPrev, Heap.setNext, nextField, prevField,
    zero4, zero8]
  refine ⟨?_, ?_, ?_⟩
  all_goals rw [load32_store32_disjoint _ _ (by omega), load32_store32_disjoint _ _ (by omega)]

theorem of_fields (record : h' = { h with mem := h'.mem, errno := h'.errno })
    (fields : ∀ x ∈ addrs a.blocks,
      h'.size x = h.size x ∧ h'.next x = h.next x ∧ h'.prev x = h.prev x) : Encodes h' a := by
  have inBlocks (b : Block) (member : b ∈ a.used ∨ b ∈ a.free) : b.addr ∈ addrs a.blocks :=
    addr_mem (mem_append.mpr member)
  have keep {start : Nat} {blocks : List Block} (sub : ∀ b ∈ blocks, b ∈ a.used ∨ b ∈ a.free)
      (list : ListAt h start blocks) : ListAt h' start blocks := by
    refine ⟨list.head, list.chain.congr fun x member => ?_, fun b member => ?_⟩
    · obtain ⟨b, hb, rfl⟩ := mem_map.mp member
      exact (fields _ (inBlocks b (sub b hb))).2
    · exact (fields _ (inBlocks b (sub b member))).1.trans (list.sizes b member)
  refine rep.rebuild ⟨rfl, rfl⟩ ?_ rep.inSpace ?_ ?_
  · rw [record, ← rep.cursize]
  · rw [show h'.startUsed = h.startUsed by rw [record]]
    exact keep (fun b => .inl) rep.used
  · rw [show h'.startFree = h.startFree by rw [record]]
    exact keep (fun b => .inr) rep.free

/-- Linking the null node leaves both lists as they were. -/
theorem addToUsed_null (above : sizeofNode ≤ a.memstart) :
    ∃ h', addToUsed 0 { h with errno := enomem } = some h' ∧ Encodes h' a ∧
      h'.mem = store32 (store32 h.mem 8 ((addrs a.used).getLastD 0)) 4 0 := by
  have alive : 0 ∉ addrs a.used := fun zero =>
    rep.not_mem_zero (by simpa [BlockHeap.blocks] using .inl zero)
  have short := rep.lengths_lt
  unfold addToUsed
  have list : ListAt { h with errno := enomem } h.startUsed a.used := rep.used.of_mem_eq rfl
  rcases eq_nil_or_concat' a.used with empty | ⟨front, last, split⟩
  · have start := (rep.used.start_eq_zero_iff alive).mpr empty
    rw [if_pos start]
    refine ⟨_, rfl, rep.of_fields ?_ fun x member => ?_, ?_⟩
    · simp only [Heap.setNext, Heap.setPrev, Heap.setStartUsed, start]
    · exact rep.nullLinks_fields above member 0
    · rw [empty]
      rfl
  have ne : a.used ≠ [] := by simp [split]
  rw [if_neg (mt (rep.used.start_eq_zero_iff alive).mp ne)]
  rw [split] at list alive short
  rw [list.scanOrLast_eq alive (by omega) _ (fun _ => false) (fun _ _ => rfl)]
  have chain := list.chain
  rw [addrs_append, chain_append] at chain
  have lastNext : h.next last.addr = 0 := chain.2.2.1
  have none : (front ++ [last]).find? (fun _ => false) = none := by simp
  -- the last node points at null already
  have kept : Heap.setNext { h with errno := enomem } last.addr 0 = { h with errno := enomem } :=
    congrArg (fun mem => { h with errno := enomem, mem := mem })
      (store32_of_load32 (v := 0) lastNext)
  simp only [none, map_none, getD_none, bind_eq_bind, bind_some, kept]
  refine ⟨_, rfl, rep.of_fields rfl fun x member => ?_, ?_⟩
  · exact rep.nullLinks_fields above (l := { h with errno := enomem }) member last.addr
  · rw [split, addrs_append, addrs_cons, addrs_nil, getLastD_concat]
    rfl

theorem getFree_null (noWrap : a.free.find? (Block.serves (clampSize n) pagealigned) = none →
      NoWrap a (clampSize n) pagealigned) (ret : a.getFree (clampSize n) pagealigned = none) :
    getFree n h pagealigned = (addToUsed 0 { h with errno := enomem }).map (·, 0) := by
  unfold getFree
  simp only [rep.searchFree_eq, bind_eq_bind, bind_some]
  generalize clampSize n = m at *
  unfold BlockHeap.getFree at ret
  split at ret
  · split_ifs at ret
  next missing =>
    simp only [missing, map_none, getD_none, if_true]
    unfold expandAndUse
    rw [rep.expandHeap_fails (noWrap missing) ret, map_eq_bind]
    rfl

/-- A refused request leaves the blocks as they were. -/
theorem getFree_fails (above : sizeofNode ≤ a.memstart)
    (noWrap : a.free.find? (Block.serves (clampSize n) pagealigned) = none →
      NoWrap a (clampSize n) pagealigned) (ret : a.getFree (clampSize n) pagealigned = none) :
    ∃ h', getFree n h pagealigned = some (h', 0) ∧ Encodes h' a := by
  obtain ⟨h', entered, rep', -⟩ := rep.addToUsed_null above
  refine ⟨h', ?_, rep'⟩
  rw [rep.getFree_null noWrap ret, entered]
  rfl

/-- Every request whose sum fits comes to an end: it is served, or refused and leaves the blocks as
they were. -/
theorem getFree_total (above : sizeofNode ≤ a.memstart)
    (noWrap : a.free.find? (Block.serves (clampSize n) pagealigned) = none →
      NoWrap a (clampSize n) pagealigned) :
    ∃ h' node, getFree n h pagealigned = some (h', node) ∧
      ((∃ a', a.getFree (clampSize n) pagealigned = some (a', node) ∧ Encodes h' a') ∨
        (a.getFree (clampSize n) pagealigned = none ∧ node = 0 ∧ Encodes h' a)) := by
  cases ret : a.getFree (clampSize n) pagealigned with
  | some served =>
    obtain ⟨a', node⟩ := served
    obtain ⟨h', call, rep'⟩ := rep.getFree_refines noWrap ret
    exact ⟨h', node, call, .inl ⟨a', rfl, rep'⟩⟩
  | none =>
    obtain ⟨h', call, rep'⟩ := rep.getFree_fails above noWrap ret
    exact ⟨h', 0, call, .inr ⟨rfl, rfl, rep'⟩⟩

/-- `free_node` releases a used block, or fails with `EFAULT`. -/
theorem freeNode_refines (node : Nat) :
    (∃ a' h', a.freeNode node = some a' ∧ freeNode node h = some (h', 0) ∧ Encodes h' a') ∨
    (a.freeNode node = none ∧ freeNode node h = some ({ h with errno := efault }, -1)) := by
  unfold freeNode
  simp only [rep.searchUsed_eq, bind_eq_bind, bind_some]
  unfold BlockHeap.freeNode
  split
  · next b found =>
      have isUsed := mem_of_find?_eq_some found
      have address : b.addr = node := by simpa using find?_some found
      have alive : b.addr ≠ 0 := rep.headers.notNull _ (addr_mem (mem_append_left _ isUsed))
      obtain ⟨h', released, rep'⟩ := rep.release isUsed
      refine .inl ⟨_, h', rfl, ?_, rep'⟩
      simp only [found, map_some, getD_some, if_neg alive]
      rw [← address, released]
      rfl
  · next missing =>
      refine .inr ⟨rfl, ?_⟩
      simp only [missing, map_none, getD_none, if_true]

/-- Writes into a block leave all headers. -/
theorem payload_write (member : b ∈ a.blocks) {mem : Bytes}
    (lt : ∀ x, mem x ≠ h.mem x → b.addr + sizeofNode ≤ x ∧ x < b.stop) :
    Encodes { h with mem := mem } a := by
  refine rep.of_fields rfl fun x hx => ?_
  have nextField := rep.headers.nextField hx
  have prevField := rep.headers.prevField hx
  obtain ⟨c, hc, rfl⟩ := mem_map.mp hx
  have header (y : Nat) (low : c.addr ≤ y) (high : y < c.addr + 12) : mem y = h.mem y := by
    by_contra changed
    obtain ⟨first, last⟩ := lt y changed
    by_cases same : c.addr = b.addr
    · simp only [same, sizeofNode] at *
      omega
    have ne := a.apart hc member same
    simp only [Block.stop, sizeofNode] at *
    omega
  refine ⟨?_, ?_, ?_⟩
  all_goals exact load32_congr fun y low high => header y (by omega) (by omega)

end Encodes

end Yanix.Mm
