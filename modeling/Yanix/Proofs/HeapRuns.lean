/-
Module: Yanix.Proofs.HeapRuns
Purpose: Every run of the allocator is a run of the block heap: the blocks tile the heap,
  which stays below its limit unless a page is skipped.
-/
import Yanix.Proofs.HeapRefinement

namespace Yanix.Mm

open Foundation List Option

variable {h' : Heap} {memstart maxsize : Nat} {h : Heap}
variable {admits : Heap → Nat → Bool → Nat → Prop} {h h' : Heap} {n node : Nat} {pagealigned : Bool}
  {a : BlockHeap}

/-- A call of the allocator, or a write of a client inside a block it was given; `admits` tells
which `get_free` calls there may be, and with which answers. -/
inductive HeapStep (admits : Heap → Nat → Bool → Nat → Prop) : Heap → Heap → Prop where
  | alloc {h h' : Heap} {n node : Nat} {pagealigned : Bool} (admitted : admits h n pagealigned node)
      (call : getFree n h pagealigned = some (h', node)) : HeapStep admits h h'
  | free {h h' : Heap} {node : Nat} {ret : Int} (call : freeNode node h = some (h', ret)) :
      HeapStep admits h h'
  | write {h : Heap} {nodes : List Nat} {node : Nat} (mem : Bytes)
      (list : usedNodes h = some nodes) (given : node ∈ nodes)
      (inside : ∀ x, mem x ≠ h.mem x →
        node + sizeofNode ≤ x ∧ x < node + sizeofNode + h.size node) :
      HeapStep admits h { h with mem := mem }

/-- A heap reached from an empty one. -/
def HeapRun (admits : Heap → Nat → Bool → Nat → Prop) (memstart maxsize : Nat) (h : Heap) : Prop :=
  ∃ user mem errno,
    Relation.ReflTransGen (HeapStep admits) (createLinkedlist memstart maxsize user mem errno) h

section

variable {memstart maxsize : Nat}

theorem HeapRun.create (memstart maxsize user : Nat) (mem : Bytes) (errno : Nat) :
    HeapRun admits memstart maxsize (createLinkedlist memstart maxsize user mem errno) :=
  ⟨user, mem, errno, .refl⟩

theorem HeapRun.call (run : HeapRun admits memstart maxsize h) (step : HeapStep admits h h') :
    HeapRun admits memstart maxsize h' := by
  obtain ⟨user, mem, errno, steps⟩ := run
  exact ⟨user, mem, errno, steps.tail step⟩

end

namespace BlockHeap

variable {a a' : BlockHeap}

theorem expand_spec (ret : a.expand n pagealigned = some (a', node)) :
    a'.memstart = a.memstart ∧ a'.maxsize = a.maxsize ∧ (∃ b ∈ a'.used, b.addr = node) ∧
      a.asked n pagealigned ≤ a.maxsize ∧
      a'.cursize = a.asked n pagealigned + if pagealigned && a.skipsPage then 0x1000 else 0 := by
  unfold expand at ret
  unfold asked skipsPage
  cases pagealigned with
  | true =>
    simp only [if_true, Bool.true_and, Bool.and_eq_true, decide_eq_true_eq] at ret ⊢
    split_ifs at ret with fits room single
    · cases ret
      rw [if_neg (fun skipped => Nat.not_lt.mpr room skipped.1)]
      refine ⟨rfl, rfl, ⟨_, mem_append_right _ mem_cons_self, rfl⟩, fits, ?_⟩
      simp only [growSplit]
      omega
    · cases ret
      rw [if_neg (fun skipped => skipped.2 single)]
      refine ⟨rfl, rfl, ⟨_, mem_append_right _ mem_cons_self, rfl⟩, fits, ?_⟩
      simp only [grow, single]
      omega
    · cases ret
      rw [if_pos ⟨Nat.lt_of_not_le room, single⟩]
      refine ⟨rfl, rfl, ⟨_, mem_append_right _ mem_cons_self, rfl⟩, fits, ?_⟩
      simp only [growSplit]
      omega
  | false =>
    simp only [Bool.false_eq_true, if_false, Bool.false_and] at ret ⊢
    split_ifs at ret with fits
    cases ret
    refine ⟨rfl, rfl, ⟨_, mem_append_right _ mem_cons_self, rfl⟩, fits, ?_⟩
    simp only [grow]
    omega

theorem getFree_spec (ret : a.getFree n pagealigned = some (a', node)) :
    a'.memstart = a.memstart ∧ a'.maxsize = a.maxsize ∧ (∃ b ∈ a'.used, b.addr = node) ∧
      (a'.cursize = a.cursize ∨ a.free.find? (Block.serves n pagealigned) = none ∧
          a.expand n pagealigned = some (a', node)) := by
  unfold getFree at ret
  split at ret
  · split_ifs at ret
    · cases ret
      exact ⟨rfl, rfl, ⟨_, mem_append_right _ mem_cons_self, rfl⟩, .inl rfl⟩
    · cases ret
      exact ⟨rfl, rfl, ⟨_, mem_append_right _ mem_cons_self, rfl⟩, .inl rfl⟩
  · next missing =>
      obtain ⟨start, max, block, -⟩ := expand_spec ret
      exact ⟨start, max, block, .inr ⟨missing, ret⟩⟩

theorem freeNode_spec (ret : a.freeNode node = some a') :
    a'.memstart = a.memstart ∧ a'.maxsize = a.maxsize ∧ a'.cursize = a.cursize := by
  unfold freeNode at ret
  split at ret
  · cases ret
    exact ⟨rfl, rfl, rfl⟩
  · cases ret

end BlockHeap

variable {h : Heap}

theorem alloc_step (rep : Encodes h a)
    (noWrap : a.free.find? (Block.serves (clampSize n) pagealigned) = none →
      NoWrap a (clampSize n) pagealigned) (call : getFree n h pagealigned = some (h', node)) :
    (∃ a', a.getFree (clampSize n) pagealigned = some (a', node) ∧ Encodes h' a') ∨
      (node = 0 ∧ (sizeofNode ≤ a.memstart → Encodes h' a)) := by
  cases ret : a.getFree (clampSize n) pagealigned with
  | some served =>
    obtain ⟨a', served⟩ := served
    obtain ⟨h'', called, rep'⟩ := rep.getFree_refines noWrap ret
    cases called.symm.trans call
    exact .inl ⟨a', rfl, rep'⟩
  | none =>
    refine .inr ⟨?_, fun above => ?_⟩
    · rw [rep.getFree_null noWrap ret] at call
      obtain ⟨_, _, pair⟩ := map_eq_some_iff.mp call
      exact (congrArg Prod.snd pair).symm
    obtain ⟨h'', called, rep'⟩ := rep.getFree_fails above noWrap ret
    cases called.symm.trans call
    exact rep'

theorem free_step (rep : Encodes h a) {ret : Int} (call : freeNode node h = some (h', ret)) :
    ∃ a', Encodes h' a' ∧ a'.memstart = a.memstart ∧ a'.maxsize = a.maxsize ∧
      a'.cursize = a.cursize := by
  rcases rep.freeNode_refines node with ⟨a', h'', result, called, rep'⟩ | ⟨-, called⟩
  · cases called.symm.trans call
    exact ⟨a', rep', BlockHeap.freeNode_spec result⟩
  · cases called.symm.trans call
    exact ⟨a, rep.of_fields rfl fun _ _ => ⟨rfl, rfl, rfl⟩, rfl, rfl, rfl⟩

theorem write_step (rep : Encodes h a) {nodes : List Nat} {mem : Bytes}
    (list : usedNodes h = some nodes) (given : node ∈ nodes) (lt : ∀ x, mem x ≠ h.mem x →
      node + sizeofNode ≤ x ∧ x < node + sizeofNode + h.size node) :
    Encodes { h with mem := mem } a := by
  cases rep.usedNodes_eq.symm.trans list
  obtain ⟨b, hb, rfl⟩ := mem_map.mp given
  have member : b ∈ a.blocks := mem_append_left _ hb
  rw [rep.size_eq member] at lt
  exact rep.payload_write member lt

/-- `h` implements a block heap with these parameters that ends within `limit`
bytes. -/
structure Within (memstart maxsize limit : Nat) (h : Heap) (a : BlockHeap) : Prop where
  rep : Encodes h a
  start : a.memstart = memstart
  max : a.maxsize = maxsize
  size : a.cursize ≤ limit

/-- Admitted requests do not wrap around and keep the heap within the limit,
and one that fails leaves no trace below the heap. -/
structure KeepsWithin (admits : Heap → Nat → Bool → Nat → Prop)
    (memstart maxsize limit : Nat) : Prop where
  sum : ∀ {h a n pagealigned node}, Within memstart maxsize limit h a →
    admits h n pagealigned node →
    a.free.find? (Block.serves (clampSize n) pagealigned) = none →
    a.asked (clampSize n) pagealigned < 2 ^ 32
  grown : ∀ {h a n pagealigned node}, Within memstart maxsize limit h a →
    admits h n pagealigned node →
    a.free.find? (Block.serves (clampSize n) pagealigned) = none →
    a.asked (clampSize n) pagealigned ≤ maxsize →
    (a.asked (clampSize n) pagealigned + if pagealigned && a.skipsPage then 0x1000 else 0) ≤ limit
  failing : ∀ {h n pagealigned}, admits h n pagealigned 0 → sizeofNode ≤ memstart

section

variable {memstart maxsize limit : Nat} (keeps : KeepsWithin admits memstart maxsize limit)
  (inSpace : memstart + limit ≤ 2 ^ 32)

include keeps inSpace

theorem KeepsWithin.noWrap (node : Nat) (within : Within memstart maxsize limit h a)
    (admitted : admits h n pagealigned node)
    (missing : a.free.find? (Block.serves (clampSize n) pagealigned) = none) :
    NoWrap a (clampSize n) pagealigned := by
  refine ⟨keeps.sum within admitted missing, ?_⟩
  rintro ⟨a', node'⟩ ret
  obtain ⟨start, -, -, fits, cursize⟩ := BlockHeap.expand_spec ret
  have le := keeps.grown within admitted missing (within.max ▸ fits)
  have memstartEq := within.start
  show a'.memstart + a'.cursize ≤ 2 ^ 32
  omega

theorem Within.alloc (within : Within memstart maxsize limit h a)
    (admitted : admits h n pagealigned node) (call : getFree n h pagealigned = some (h', node)) :
    ∃ a', Within memstart maxsize limit h' a' ∧ (node ≠ 0 → ∃ b ∈ a'.used, b.addr = node) := by
  obtain ⟨rep, start, max, size⟩ := within
  rcases alloc_step rep (keeps.noWrap inSpace node ⟨rep, start, max, size⟩ admitted) call with
    ⟨a', served, rep'⟩ | ⟨rfl, rep'⟩
  · obtain ⟨start', max', block, kept | ⟨missing, ret⟩⟩ := BlockHeap.getFree_spec served
    · exact ⟨a', ⟨rep', start'.trans start, max'.trans max, kept ▸ size⟩, fun _ => block⟩
    · obtain ⟨-, -, -, fits, cursize⟩ := BlockHeap.expand_spec ret
      have le := keeps.grown ⟨rep, start, max, size⟩ admitted missing (max ▸ fits)
      exact ⟨a', ⟨rep', start'.trans start, max'.trans max, cursize ▸ le⟩, fun _ => block⟩
  · exact ⟨a, ⟨rep' (start ▸ keeps.failing admitted), start, max, size⟩,
      fun alive => absurd rfl alive⟩

theorem Within.step (within : Within memstart maxsize limit h a)
    (step : HeapStep admits h h') : ∃ a', Within memstart maxsize limit h' a' := by
  obtain ⟨rep, start, max, size⟩ := id within
  cases step with
  | alloc admitted call =>
    obtain ⟨a', within', -⟩ := within.alloc keeps inSpace admitted call
    exact ⟨a', within'⟩
  | free call =>
    obtain ⟨a', rep', start', max', size'⟩ := free_step rep call
    exact ⟨a', rep', start'.trans start, max'.trans max, size' ▸ size⟩
  | write mem list given lt =>
    exact ⟨a, write_step rep list given lt, start, max, size⟩

theorem HeapRun.within (ne : memstart ≠ 0) (run : HeapRun admits memstart maxsize h) :
    ∃ a, Within memstart maxsize limit h a := by
  obtain ⟨user, mem, errno, steps⟩ := run
  induction steps with
  | refl =>
    refine ⟨_, createLinkedlist_represents maxsize user mem errno ne (by omega), rfl, rfl, ?_⟩
    exact Nat.zero_le _
  | tail _ step ih =>
    obtain ⟨a, within⟩ := ih
    exact within.step keeps inSpace step

end

/-! ## The partition -/

/-- The blocks of the nodes on the two lists tile the heap: each node is on one
list, once; no two blocks overlap; and an address lies in the heap exactly when
it lies in a block. -/
def Partitioned (h : Heap) : Prop :=
  ∃ used free, usedNodes h = some used ∧ freeNodes h = some free ∧ (used ++ free).Nodup ∧
    (used ++ free).Pairwise (fun x y =>
      x + sizeofNode + h.size x ≤ y ∨ y + sizeofNode + h.size y ≤ x) ∧
    ∀ x, (h.memstart ≤ x ∧ x < h.memstart + h.cursize) ↔
      ∃ node ∈ used ++ free, node ≤ x ∧ x < node + sizeofNode + h.size node

theorem Encodes.partitioned (rep : Encodes h a) : Partitioned h := by
  refine ⟨_, _, rep.usedNodes_eq, rep.freeNodes_eq, ?_, ?_, fun x => ?_⟩
  · exact addrs_append _ _ ▸ a.nodup_addrs
  · have pairwise := a.tiles.disjoint
    rw [pairwise_map] at pairwise
    rw [← addrs_append, addrs, pairwise_map]
    refine pairwise.imp_of_mem fun {b c} hb hc disjoint => ?_
    rw [rep.size_eq hb, rep.size_eq hc]
    simp only [Span.Disjoint, Block.span_stop] at disjoint
    exact disjoint
  · have covers := a.tiles.covers x
    rw [rep.memstart, rep.cursize, covers]
    constructor
    · rintro ⟨s, mem, lt⟩
      obtain ⟨b, hb, rfl⟩ := mem_map.mp mem
      rw [Block.span_stop] at lt
      refine ⟨b.addr, addrs_append _ _ ▸ addr_mem hb, ?_⟩
      rwa [rep.size_eq hb]
    · rintro ⟨node, mem, lt⟩
      rw [← addrs_append] at mem
      obtain ⟨b, hb, rfl⟩ := mem_map.mp mem
      rw [rep.size_eq hb] at lt
      refine ⟨b.span, mem_map_of_mem hb, ?_⟩
      rwa [Block.span_stop]

/-- Requests up to the limit of the heap. -/
def Bounded (h : Heap) (n : Nat) (_ : Bool) (_ : Nat) : Prop := n ≤ h.maxsize

/-- Requests up to the limit that succeed. -/
def Succeeds (h : Heap) (n : Nat) (_ : Bool) (node : Nat) : Prop := n ≤ h.maxsize ∧ node ≠ 0

theorem clampSize_le {bound : Nat} (small : n ≤ bound) (large : nodesizeMax ≤ bound) :
    clampSize n ≤ bound := by
  unfold clampSize
  split
  · exact large
  · exact small

theorem small_keepsWithin {admits : Heap → Nat → Bool → Nat → Prop}
    (small : maxsize ≤ 0x1000000)
    (bounded : ∀ {h n pagealigned node}, admits h n pagealigned node → n ≤ h.maxsize)
    (failing : ∀ {h n pagealigned}, admits h n pagealigned 0 → sizeofNode ≤ memstart) :
    KeepsWithin admits memstart maxsize (maxsize + 0x1000) where
  sum {h a n pagealigned node} lt admitted _ := by
    have asked := bounded admitted
    rw [lt.rep.maxsize, lt.max] at asked
    have size : clampSize n ≤ 0x1000000 := clampSize_le (Nat.le_trans asked small) (by decide)
    have cursize := lt.size
    have offset := a.pageOffset_le
    unfold BlockHeap.asked sizeofNode
    split <;> omega
  grown {h a n pagealigned node} _ _ _ fits := by
    split <;> omega
  failing := failing

/-- In every state reachable by successful `get_free` calls, `free_node` calls and client writes,
the blocks on the two lists tile the heap. It may not start at address zero, where a block would be
taken for the null node. -/
theorem heap_partition (small : maxsize ≤ 0x1000000)
    (inSpace : memstart + maxsize + 0x2000 ≤ 2 ^ 32) (notNull : memstart ≠ 0)
    (run : HeapRun Succeeds memstart maxsize h) : h.memstart = memstart ∧ Partitioned h := by
  have inSpace' : memstart + (maxsize + 0x1000) ≤ 2 ^ 32 := by
    rw [← Nat.add_assoc]
    omega
  have keeps : KeepsWithin Succeeds memstart maxsize (maxsize + 0x1000) :=
    small_keepsWithin small (fun admitted => admitted.1) fun admitted => absurd rfl admitted.2
  obtain ⟨a, rep, start, -⟩ := run.within keeps inSpace' notNull
  exact ⟨rep.memstart.trans start, rep.partitioned⟩

/-- An empty heap where the kernel has its own. -/
def kernelHeap : Heap := createLinkedlist 0xC0000000 0x1000000 0 (fun _ => 0) 0

theorem heap_partition_run :
    ∃ h, HeapRun Succeeds 0xC0000000 0x1000000 h ∧ usedNodes h = some [0xC0001020] ∧
      freeNodes h = some [0xC0000FF4, 0xC0000000] ∧ h.memstart = 0xC0000000 ∧ Partitioned h := by
  have evaluated : ((getFree 32 kernelHeap true).bind fun r1 =>
        (getFree 0x2000 r1.1 false).bind fun r2 =>
        (freeNode r1.2 r2.1).bind fun r3 =>
          some ([r1.2, r1.1.maxsize, r2.2], usedNodes r3.1, freeNodes r3.1)) =
      some ([0xC0000FF4, 0x1000000, 0xC0001020], some [0xC0001020],
        some [0xC0000FF4, 0xC0000000]) := by decide +kernel
  simp only [bind_eq_some_iff, Prod.exists, some.injEq, Prod.mk.injEq,
    cons.injEq, and_true] at evaluated
  obtain ⟨h1, first, call1, h2, second, call2, h3, ret, call3, ⟨rfl, max, rfl⟩, used, free⟩ :=
    evaluated
  have run : HeapRun Succeeds 0xC0000000 0x1000000 h3 :=
    (((HeapRun.create _ _ 0 _ 0).call (.alloc ⟨by decide, by decide⟩ call1)).call
      (.alloc ⟨by rw [max]; decide, by decide⟩ call2)).call (.free call3)
  exact ⟨h3, run, used, free, heap_partition (by decide) (by decide) (by decide) run⟩

/-- At address zero the filler block of a page-aligned request is lost. -/
theorem heap_partition_at_null : ∃ h, HeapRun Succeeds 0 0x2000 h ∧ ¬ Partitioned h := by
  have evaluated : (getFree 32 (createLinkedlist 0 0x2000 0 (fun _ => 0) 0) true).map
      (fun r => (r.2, usedNodes r.1, freeNodes r.1, r.1.memstart, r.1.cursize)) =
      some (0xFF4, some [0xFF4], some [], 0, 0x1020) := by decide +kernel
  obtain ⟨⟨h, node⟩, call, observed⟩ := map_eq_some_iff.mp evaluated
  simp only [Prod.mk.injEq] at observed
  obtain ⟨rfl, used, free, start, size⟩ := observed
  refine ⟨h, (HeapRun.create _ _ 0 _ 0).call (.alloc ⟨by decide, by decide⟩ call), ?_⟩
  rintro ⟨used', free', used'Eq, free'Eq, -, -, covers⟩
  cases used.symm.trans used'Eq
  cases free.symm.trans free'Eq
  obtain ⟨node, mem, low, -⟩ := (covers 0).mp (by rw [start, size]; decide)
  simp only [append_nil, mem_singleton] at mem
  omega

/-- A request up to the limit that reaches `expand_heap` computes a sum below 2^32, and one that
passes the comparison with the next page too close for a filler block has room for one more page. -/
def StaysInside (h : Heap) (n : Nat) (pagealigned : Bool) (_ : Nat) : Prop :=
  n ≤ h.maxsize ∧ (searchFree (clampSize n) h pagealigned = some 0 → if pagealigned then
      let offset := 0x1000 - (h.memstart + h.cursize) % 0x1000
      offset + clampSize n + h.cursize < 2 ^ 32 ∧
        (offset < 2 * sizeofNode + nodesizeMax → offset ≠ sizeofNode →
          offset + clampSize n + h.cursize ≤ h.maxsize →
          offset + clampSize n + h.cursize + 0x1000 ≤ h.maxsize)
    else h.cursize + clampSize n + sizeofNode < 2 ^ 32)

theorem staysInside_iff (rep : Encodes h a)
    (missing : a.free.find? (Block.serves (clampSize n) pagealigned) = none) :
    StaysInside h n pagealigned node ↔ n ≤ a.maxsize ∧ a.asked (clampSize n) pagealigned < 2 ^ 32 ∧
        (pagealigned && a.skipsPage → a.asked (clampSize n) pagealigned ≤ a.maxsize →
          a.asked (clampSize n) pagealigned + 0x1000 ≤ a.maxsize) := by
  have search : searchFree (clampSize n) h pagealigned = some 0 := by
    rw [rep.searchFree_eq, missing]
    rfl
  unfold StaysInside BlockHeap.asked BlockHeap.skipsPage BlockHeap.pageOffset BlockHeap.heapend
  rw [rep.memstart, rep.cursize, rep.maxsize]
  cases pagealigned with
  | true => simp [search]
  | false => simp [search]

theorem staysInside_keepsWithin (above : sizeofNode ≤ memstart) :
    KeepsWithin StaysInside memstart maxsize maxsize where
  sum lt admitted missing := ((staysInside_iff lt.rep missing).mp admitted).2.1
  grown {h a n pagealigned node} lt admitted missing fits := by
    have room := ((staysInside_iff lt.rep missing).mp admitted).2.2
    rw [lt.max] at room
    split
    · next skips => exact room skips fits
    · exact fits
  failing _ := above

/-- As long as every request meets `StaysInside`, failing requests included, the
heap stays below its limit and so does every block it hands out. -/
theorem heap_bound (above : sizeofNode ≤ memstart)
    (inSpace : memstart + maxsize ≤ 2 ^ 32)
    (run : HeapRun StaysInside memstart maxsize h) :
    h.cursize ≤ maxsize ∧ ∀ n pagealigned h' node, StaysInside h n pagealigned node →
        getFree n h pagealigned = some (h', node) → node ≠ 0 →
        node + sizeofNode + h'.size node ≤ memstart + maxsize := by
  have keeps : KeepsWithin StaysInside memstart maxsize maxsize := staysInside_keepsWithin above
  have ne : memstart ≠ 0 := by
    unfold sizeofNode at above
    omega
  obtain ⟨a, lt⟩ := run.within keeps inSpace ne
  refine ⟨lt.rep.cursize ▸ lt.size, ?_⟩
  intro n pagealigned h' node admitted call alive
  obtain ⟨a', ⟨rep', start, -, size⟩, block⟩ := lt.alloc keeps inSpace admitted call
  obtain ⟨b, isUsed, rfl⟩ := block alive
  have mem : b ∈ a'.blocks := mem_append_left _ isUsed
  have bounds := (a'.spans_bounds mem).2
  rw [rep'.size_eq mem]
  unfold Block.stop BlockHeap.heapend at bounds
  omega

theorem heap_bound_run :
    ∃ h h', HeapRun StaysInside 0xC0000000 0x1000000 h ∧ h.cursize ≤ 0x1000000 ∧
      getFree 64 h false = some (h', 0xC0000000) ∧
      0xC0000000 + sizeofNode + h'.size 0xC0000000 ≤ 0xC0000000 + 0x1000000 := by
  have evaluated : ((getFree 32 kernelHeap true).bind fun r1 =>
        (getFree 64 r1.1 false).bind fun r2 => some [r1.2, r1.1.cursize, r1.1.maxsize, r2.2]) =
      some [0xC0000FF4, 0x1020, 0x1000000, 0xC0000000] := by decide +kernel
  simp only [bind_eq_some_iff, Prod.exists, some.injEq, cons.injEq, and_true] at evaluated
  obtain ⟨h1, first, call1, h2, second, call2, rfl, size, max, rfl⟩ := evaluated
  have inside1 : StaysInside kernelHeap 32 true 0xC0000FF4 := ⟨by decide, fun _ => by decide⟩
  have inside2 : StaysInside h1 64 false 0xC0000000 := by
    refine ⟨by rw [max]; decide, fun _ => ?_⟩
    simp only [Bool.false_eq_true, if_false, size]
    decide
  have run : HeapRun StaysInside 0xC0000000 0x1000000 h1 :=
    (HeapRun.create _ _ 0 _ 0).call (.alloc inside1 call1)
  obtain ⟨lt, block⟩ := heap_bound (by decide) (by decide) run
  exact ⟨h1, h2, run, lt, call2, block 64 false h2 _ inside2 call2 (by decide)⟩

/-- The comparison passes with not a byte to spare, but the block is placed
behind the next page: the heap ends a page behind its limit. -/
theorem heap_bound_skips_page :
    ∃ h, HeapRun Bounded 0xC0000000 0x1000000 h ∧ h.cursize = 0x1001000 := by
  have evaluated : ((getFree 0xFFEFD4 kernelHeap false).bind
        fun r1 => (getFree 0x1000 r1.1 true).bind fun r2 => some [r1.1.maxsize, r2.1.cursize]) =
      some [0x1000000, 0x1001000] := by decide +kernel
  simp only [bind_eq_some_iff, Prod.exists, some.injEq, cons.injEq, and_true] at evaluated
  obtain ⟨h1, first, call1, h2, second, call2, max, size⟩ := evaluated
  have run : HeapRun Bounded 0xC0000000 0x1000000 h2 :=
    ((HeapRun.create _ _ 0 _ 0).call (.alloc (by decide : 0xFFEFD4 ≤ 0x1000000) call1)).call
      (.alloc (by rw [Bounded, max]; decide) call2)
  exact ⟨h2, run, size⟩

end Yanix.Mm
