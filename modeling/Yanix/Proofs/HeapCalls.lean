/-
Module: Yanix.Proofs.HeapCalls
Purpose: What single calls of `get_free` and `free_node` do in every reachable heap; a refused
  request still writes the two links of the null node.
-/
import Yanix.Proofs.HeapRuns

namespace Yanix.Mm

open Foundation List Option

variable {memstart maxsize : Nat} {h : Heap} {n : Nat} {pagealigned : Bool}

/-- No block is followed by a smaller one. -/
def Ordered (blocks : List Block) : Prop := blocks.Pairwise fun b c => b.size ≤ c.size

theorem insertBySize_cons (b c : Block) (blocks : List Block) : insertBySize b (c :: blocks) =
      if c.size ≤ b.size then c :: insertBySize b blocks else b :: c :: blocks := by
  unfold insertBySize
  by_cases small : c.size ≤ b.size
  · simp [small]
  · simp [small]

variable {b c : Block} {blocks : List Block}

theorem mem_insertBySize : c ∈ insertBySize b blocks ↔ c = b ∨ c ∈ blocks := by
  rw [(insertBySize_perm b blocks).mem_iff, mem_cons]

theorem Ordered.insertBySize (ordered : Ordered blocks) (b : Block) :
    Ordered (insertBySize b blocks) := by
  induction blocks with
  | nil => exact pairwise_singleton _ _
  | cons c blocks ih =>
    obtain ⟨first, rest⟩ := pairwise_cons.mp ordered
    rw [insertBySize_cons]
    split
    · next lt =>
        refine pairwise_cons.mpr ⟨fun d mem => ?_, ih rest⟩
        rcases mem_insertBySize.mp mem with rfl | old
        · exact lt
        · exact first d old
    next large =>
      refine pairwise_cons.mpr ⟨fun d mem => ?_, ordered⟩
      have above : b.size ≤ c.size := Nat.le_of_not_le large
      rcases mem_cons.mp mem with rfl | old
      · exact above
      · exact Nat.le_trans above (first d old)

theorem Ordered.erase (ordered : Ordered blocks) (b : Block) : Ordered (blocks.erase b) :=
  Pairwise.sublist erase_sublist ordered

variable {n : Nat} {h : Heap} {pagealigned : Bool}

theorem Ordered.find_smallest (ordered : Ordered blocks)
    (found : blocks.find? (Block.serves n false) = some b) (mem : c ∈ blocks)
    (le : n ≤ c.size) : b.size ≤ c.size := by
  obtain ⟨-, front, back, rfl, skipped⟩ := find?_eq_some_iff_append.mp found
  rcases mem_append.mp mem with lt | after
  · have passed := skipped c lt
    simp [Block.serves, le] at passed
  obtain ⟨-, tail, -⟩ := pairwise_append.mp ordered
  rcases mem_cons.mp after with rfl | later
  · exact le_rfl
  · exact (pairwise_cons.mp tail).1 c later

namespace BlockHeap

variable {a a' : BlockHeap} {n node : Nat} {pagealigned : Bool}

theorem getFree_ordered (ordered : Ordered a.free)
    (ret : a.getFree n pagealigned = some (a', node)) : Ordered a'.free := by
  unfold getFree at ret
  split at ret
  · split_ifs at ret
    · cases ret
      exact ordered.erase _
    · cases ret
      exact (ordered.erase _).insertBySize _
  unfold expand at ret
  split_ifs at ret
  · cases ret
    exact ordered.insertBySize _
  · cases ret
    exact ordered
  · cases ret
    exact ordered.insertBySize _
  · cases ret
    exact ordered

theorem freeNode_ordered (ordered : Ordered a.free) (ret : a.freeNode node = some a') :
    Ordered a'.free := by
  unfold freeNode at ret
  split at ret
  · cases ret
    exact ordered.insertBySize _
  · cases ret

/-- The block serves the request and is the only one that is added to the used blocks. -/
structure Returned (a a' : BlockHeap) (n : Nat) (pagealigned : Bool) (b : Block) : Prop where
  enough : n ≤ b.size
  aligned : pagealigned = true → (b.addr + sizeofNode) % 0x1000 = 0
  used : a'.used = a.used ++ [b]

theorem expand_returned (ret : a.expand n pagealigned = some (a', node)) :
    ∃ b, b.addr = node ∧ Returned a a' n pagealigned b := by
  have offset : pageOffset a = 0x1000 - a.heapend % 0x1000 := rfl
  unfold expand at ret
  split_ifs at ret with aligned fits room single
  · cases ret
    refine ⟨_, rfl, le_rfl, fun _ => ?_, rfl⟩
    simp only [sizeofNode] at room ⊢
    omega
  · cases ret
    refine ⟨_, rfl, le_rfl, fun _ => ?_, rfl⟩
    simp only [sizeofNode] at single ⊢
    omega
  · cases ret
    refine ⟨_, rfl, le_rfl, fun _ => ?_, rfl⟩
    simp only [sizeofNode]
    omega
  · cases ret
    exact ⟨_, rfl, le_rfl, fun yes => absurd yes aligned, rfl⟩

theorem getFree_returned (ret : a.getFree n pagealigned = some (a', node)) :
    ∃ b, b.addr = node ∧ Returned a a' n pagealigned b := by
  unfold getFree at ret
  split at ret
  · next b found =>
      have serves := find?_some found
      simp only [Block.serves, Bool.and_eq_true, Bool.or_eq_true, Bool.not_eq_true',
        decide_eq_true_eq] at serves
      obtain ⟨le, page⟩ := serves
      have aligned : pagealigned = true → (b.addr + sizeofNode) % 0x1000 = 0 := by
        intro yes
        simpa [yes] using page
      split_ifs at ret
      · cases ret
        exact ⟨b, rfl, le, aligned, rfl⟩
      · cases ret
        exact ⟨⟨b.addr, n⟩, rfl, le_rfl, aligned, rfl⟩
  · exact expand_returned ret

theorem getFree_of_find (found : a.free.find? (Block.serves n pagealigned) = some b) :
    ∃ a', a.getFree n pagealigned = some (a', b.addr) ∧ a'.cursize = a.cursize := by
  unfold getFree
  split
  · next c found' =>
      cases found.symm.trans found'
      split_ifs
      · exact ⟨_, rfl, rfl⟩
      · exact ⟨_, rfl, rfl⟩
  · next missing => exact absurd (found.symm.trans missing) (by simp)

theorem Returned.fresh (ret : Returned a a' n pagealigned b) : b.addr ∉ addrs a.used := by
  have nodup := a'.nodup_addrs
  simp only [blocks, ret.used, addrs_append, addrs_cons, addrs_nil] at nodup
  exact fun mem => not_mem_of_nodup_append (nodup_append.mp nodup).1 mem (by simp)

end BlockHeap

/-! ## Calls with any sizes -/

/-- A heap reached by calls with any `size_t`. -/
def HeapCalls (admits : Heap → Nat → Bool → Prop) : (memstart maxsize : Nat) → Heap → Prop :=
  HeapRun fun h n pagealigned _ => n < 2 ^ 32 ∧ admits h n pagealigned

/-- If the request reaches `expand_heap`, the sum compared with the limit there is below 2^32. -/
def SumFits (h : Heap) (n : Nat) (pagealigned : Bool) : Prop :=
  searchFree (clampSize n) h pagealigned = some 0 → if pagealigned then
      0x1000 - (h.memstart + h.cursize) % 0x1000 + clampSize n + h.cursize < 2 ^ 32
    else h.cursize + clampSize n + sizeofNode < 2 ^ 32

theorem sumFits_iff {a : BlockHeap} (rep : Encodes h a)
    (missing : a.free.find? (Block.serves (clampSize n) pagealigned) = none) :
    SumFits h n pagealigned ↔ a.asked (clampSize n) pagealigned < 2 ^ 32 := by
  have search : searchFree (clampSize n) h pagealigned = some 0 := by
    rw [rep.searchFree_eq, missing]
    rfl
  unfold SumFits BlockHeap.asked BlockHeap.pageOffset BlockHeap.heapend
  rw [rep.memstart, rep.cursize]
  cases pagealigned with
  | true => simp [search]
  | false => simp [search]

theorem sumFits_keepsWithin (above : sizeofNode ≤ memstart) :
    KeepsWithin (fun h n pagealigned _ => SumFits h n pagealigned) memstart maxsize
      (maxsize + 0x1000) where
  sum lt fits missing := (sumFits_iff lt.rep missing).mp fits
  grown _ _ _ fits := by split <;> omega
  failing _ := above

/-- The heap implements an ordered block heap that ends within one page of its limit. -/
structure Sound (memstart maxsize : Nat) (h : Heap) (a : BlockHeap) : Prop extends
    Within memstart maxsize (maxsize + 0x1000) h a where
  ordered : Ordered a.free

namespace Sound

variable {memstart maxsize : Nat} {h h' : Heap} {a : BlockHeap}

theorem alloc (sound : Sound memstart maxsize h a) (above : sizeofNode ≤ memstart)
    (inSpace : memstart + maxsize + 0x1000 ≤ 2 ^ 32) (fits : SumFits h n pagealigned) :
    ∃ h' node, getFree n h pagealigned = some (h', node) ∧
      ((∃ a', a.getFree (clampSize n) pagealigned = some (a', node) ∧
          Sound memstart maxsize h' a') ∨
        (a.getFree (clampSize n) pagealigned = none ∧ node = 0 ∧ Sound memstart maxsize h' a)) := by
  have noWrap := (sumFits_keepsWithin above).noWrap (Nat.add_assoc .. ▸ inSpace) 0 sound.toWithin
    fits
  obtain ⟨h', node, call, ⟨a', ret, rep'⟩ | ⟨ret, refused, rep'⟩⟩ :=
    sound.rep.getFree_total (sound.start ▸ above) noWrap
  · obtain ⟨start, max, -, grown⟩ := BlockHeap.getFree_spec ret
    refine ⟨h', node, call, .inl ⟨a', ret, ⟨rep', start.trans sound.start,
      max.trans sound.max, ?_⟩, BlockHeap.getFree_ordered sound.ordered ret⟩⟩
    rcases grown with kept | ⟨-, expanded⟩
    · exact kept ▸ sound.size
    obtain ⟨-, -, -, lt, cursize⟩ := BlockHeap.expand_spec expanded
    have max := sound.max
    split at cursize <;> omega
  · exact ⟨h', node, call, .inr ⟨ret, refused, ⟨rep', sound.start, sound.max, sound.size⟩,
      sound.ordered⟩⟩

theorem step (sound : Sound memstart maxsize h a) (above : sizeofNode ≤ memstart)
    (inSpace : memstart + maxsize + 0x1000 ≤ 2 ^ 32)
    (step : HeapStep (fun h n pagealigned _ => n < 2 ^ 32 ∧ SumFits h n pagealigned) h h') :
    ∃ a', Sound memstart maxsize h' a' := by
  cases step with
  | alloc admitted call =>
    obtain ⟨h'', node', called, ⟨a', -, sound'⟩ | ⟨-, -, sound'⟩⟩ :=
      sound.alloc above inSpace admitted.2
    · cases called.symm.trans call
      exact ⟨a', sound'⟩
    · cases called.symm.trans call
      exact ⟨a, sound'⟩
  | @free _ node ret call =>
    rcases sound.rep.freeNode_refines node with ⟨a', h'', result, called, rep'⟩ | ⟨-, called⟩
    · cases called.symm.trans call
      obtain ⟨start, max, size⟩ := BlockHeap.freeNode_spec result
      exact ⟨a', ⟨rep', start.trans sound.start, max.trans sound.max, size ▸ sound.size⟩,
        BlockHeap.freeNode_ordered sound.ordered result⟩
    · cases called.symm.trans call
      exact ⟨a, ⟨sound.rep.of_fields rfl fun _ _ => ⟨rfl, rfl, rfl⟩, sound.start, sound.max,
        sound.size⟩, sound.ordered⟩
  | write mem list given lt =>
    exact ⟨a, ⟨write_step sound.rep list given lt, sound.start, sound.max, sound.size⟩,
      sound.ordered⟩

end Sound

theorem HeapCalls.sound (above : sizeofNode ≤ memstart)
    (inSpace : memstart + maxsize + 0x1000 ≤ 2 ^ 32) (run : HeapCalls SumFits memstart maxsize h) :
    ∃ a, Sound memstart maxsize h a := by
  obtain ⟨user, mem, errno, calls⟩ := run
  have ne : memstart ≠ 0 := by
    unfold sizeofNode at above
    omega
  induction calls with
  | refl =>
    exact ⟨_, ⟨createLinkedlist_represents maxsize user mem errno ne (by omega), rfl, rfl,
      Nat.zero_le _⟩, List.Pairwise.nil⟩
  | tail _ call ih =>
    obtain ⟨a, sound⟩ := ih
    exact sound.step above inSpace call

/-! ## Best fit -/

theorem clampSize_eq_max (n : Nat) : clampSize n = max n nodesizeMax := by
  unfold clampSize
  split <;> omega

/-- As long as the sums fit, the free list is ordered by size, and a plain request that some free
block fits takes a smallest such block without growing the heap. -/
theorem best_fit (above : sizeofNode ≤ memstart)
    (inSpace : memstart + maxsize + 0x1000 ≤ 2 ^ 32)
    (run : HeapCalls SumFits memstart maxsize h) :
    ∃ free, freeNodes h = some free ∧ free.Pairwise (fun x y => h.size x ≤ h.size y) ∧
      ∀ n, (∃ x ∈ free, max n nodesizeMax ≤ h.size x) →
        ∃ h' node, getFree n h false = some (h', node) ∧ node ∈ free ∧
          max n nodesizeMax ≤ h.size node ∧
          (∀ x ∈ free, max n nodesizeMax ≤ h.size x → h.size node ≤ h.size x) ∧
          h'.cursize = h.cursize := by
  obtain ⟨a, sound⟩ := run.sound above inSpace
  have rep := sound.rep
  have size {b : Block} (mem : b ∈ a.free) : h.size b.addr = b.size :=
    rep.size_eq (mem_append_right _ mem)
  refine ⟨_, rep.freeNodes_eq, ?_, ?_⟩
  · rw [addrs, pairwise_map]
    refine Pairwise.imp_of_mem (fun {b c} hb hc le => ?_) sound.ordered
    rwa [size hb, size hc]
  rintro n ⟨x, listed, lt⟩
  obtain ⟨b, isFree, rfl⟩ := mem_map.mp listed
  rw [← clampSize_eq_max] at lt ⊢
  rw [size isFree] at lt
  cases found : a.free.find? (Block.serves (clampSize n) false) with
  | none =>
    have refused := find?_eq_none.mp found b isFree
    simp [Block.serves, lt] at refused
  | some c =>
    have taken := mem_of_find?_eq_some found
    have serves := find?_some found
    obtain ⟨a', ret, kept⟩ := BlockHeap.getFree_of_find found
    obtain ⟨h', call, rep'⟩ :=
      rep.getFree_refines (fun missing => absurd (found.symm.trans missing) (by simp)) ret
    refine ⟨h', c.addr, call, addr_mem taken, ?_, fun y listed fits => ?_, ?_⟩
    · rw [size taken]
      simpa [Block.serves] using serves
    · obtain ⟨d, isFree', rfl⟩ := mem_map.mp listed
      rw [size isFree'] at fits ⊢
      rw [size taken]
      exact sound.ordered.find_smallest found isFree' fits
    · rw [rep'.cursize, rep.cursize, kept]

theorem best_fit_second_block : ∃ h h', HeapCalls SumFits 0xC0000000 0x1000000 h ∧
      freeNodes h = some [0xC0000070, 0xC0000000] ∧
      getFree 64 h false = some (h', 0xC0000000) ∧ h'.cursize = h.cursize := by
  have evaluated : ((getFree 100 kernelHeap false).bind fun r1 =>
        (getFree 40 r1.1 false).bind fun r2 =>
        (freeNode r1.2 r2.1).bind fun r3 =>
        (freeNode r2.2 r3.1).bind fun r4 =>
          some (r1.1.cursize, freeNodes r4.1, r4.1.size 0xC0000070, r4.1.size 0xC0000000)) =
      some (112, some [0xC0000070, 0xC0000000], 40, 100) := by decide +kernel
  simp only [bind_eq_some_iff, Prod.exists, some.injEq, Prod.mk.injEq] at evaluated
  obtain ⟨h1, first, call1, h2, second, call2, h3, ret3, call3, h4, ret4, call4, size, list, lt,
    large⟩ := evaluated
  have fits1 : SumFits kernelHeap 100 false := fun _ => by decide
  have fits2 : SumFits h1 40 false := fun _ => by
    simp only [Bool.false_eq_true, if_false, size]
    decide
  have run : HeapCalls SumFits 0xC0000000 0x1000000 h4 :=
    ((((HeapRun.create _ _ 0 _ 0).call (.alloc ⟨by decide, fits1⟩ call1)).call
      (.alloc ⟨by decide, fits2⟩ call2)).call (.free call3)).call (.free call4)
  obtain ⟨free, free', -, served⟩ := best_fit (by decide) (by decide) run
  cases list.symm.trans free'
  obtain ⟨h', node, call, mem, le, -, kept⟩ :=
    served 64 ⟨0xC0000000, by simp, by rw [large]; decide⟩
  rcases mem_pair.mp mem with rfl | rfl
  · rw [lt] at le
    exact absurd le (by decide)
  · exact ⟨h4, h', run, list, call, kept⟩

/-- A request whose sum wraps around shrinks the heap, and the next block is made over a free one's
header. -/
theorem wrapped_sum_run : ∃ h, HeapCalls (fun _ _ _ => True) 0xC0000000 0x1000000 h ∧
      usedNodes h = some [0xC0000000, 0xC000010C, 0xC0000024] ∧
      freeNodes h = some [0xC000002C, 0xC000009C] ∧
      h.size 0xC000002C = 0xC000010C ∧ h.size 0xC000009C = 100 ∧
      (∃ h', getFree 64 h false = some (h', 0xC000002C)) ∧
      ∃ h', freeNode 0xC0000024 h = some (h', 0) ∧ h'.size 0xC000002C = 0 := by
  have evaluated : ((getFree 32 kernelHeap false).bind fun r1 =>
        (getFree 100 r1.1 false).bind fun r2 =>
        (getFree 100 r2.1 false).bind fun r3 =>
        (freeNode r2.2 r3.1).bind fun r4 =>
        (freeNode r3.2 r4.1).bind fun r5 =>
        (getFree 0xFFFFFF0C r5.1 false).bind fun r6 =>
        (getFree 200 r6.1 false).bind fun r7 =>
        (getFree 64 r7.1 false).bind fun r8 =>
        (freeNode 0xC0000024 r7.1).bind fun r9 =>
          some (usedNodes r7.1, freeNodes r7.1, r9.2,
            [r7.1.size 0xC000002C, r7.1.size 0xC000009C, r8.2, r9.1.size 0xC000002C])) =
      some (some [0xC0000000, 0xC000010C, 0xC0000024], some [0xC000002C, 0xC000009C], 0,
        [0xC000010C, 100, 0xC000002C, 0]) := by decide +kernel
  simp only [bind_eq_some_iff, Prod.exists, some.injEq, Prod.mk.injEq,
    cons.injEq, and_true] at evaluated
  obtain ⟨h1, first, call1, h2, second, call2, h3, third, call3, h4, ret4, call4, h5, ret5, call5,
    h6, sixth, call6, h7, seventh, call7, h8, eighth, call8, h9, ret9, call9, used, free, rfl,
    large, lt, rfl, cleared⟩ := evaluated
  have blocks : HeapCalls (fun _ _ _ => True) 0xC0000000 0x1000000 h3 :=
    (((HeapRun.create _ _ 0 _ 0).call (.alloc ⟨by decide, trivial⟩ call1)).call
      (.alloc ⟨by decide, trivial⟩ call2)).call (.alloc ⟨by decide, trivial⟩ call3)
  have run : HeapCalls (fun _ _ _ => True) 0xC0000000 0x1000000 h7 :=
    (((blocks.call (.free call4)).call (.free call5)).call
      (.alloc ⟨by decide, trivial⟩ call6)).call (.alloc ⟨by decide, trivial⟩ call7)
  exact ⟨h7, run, used, free, large, lt, ⟨h8, call8⟩, h9, call9, cleared⟩

/-- After a sum that wrapped around, a request for 64 bytes takes a block of three gigabytes while
one of 100 bytes is free. -/
theorem best_fit_unordered : ∃ h, HeapCalls (fun _ _ _ => True) 0xC0000000 0x1000000 h ∧
      freeNodes h = some [0xC000002C, 0xC000009C] ∧ h.size 0xC000002C = 0xC000010C ∧
      h.size 0xC000009C = 100 ∧ ∃ h', getFree 64 h false = some (h', 0xC000002C) := by
  obtain ⟨h, run, -, free, large, lt, taken, -⟩ := wrapped_sum_run
  exact ⟨h, run, free, large, lt, taken⟩

/-- Requests up to the limit, on a heap as the kernel makes them, come to an end; a node that is
returned is large enough, aligned if asked for, and the one new node of the used list. -/
theorem allocation_returns (above : sizeofNode ≤ memstart)
    (small : maxsize ≤ 0x1000000) (inSpace : memstart + maxsize + 0x2000 ≤ 2 ^ 32)
    (run : HeapRun Bounded memstart maxsize h) (bounded : n ≤ maxsize)
    (pagealigned : Bool) :
    ∃ used h' node, usedNodes h = some used ∧ getFree n h pagealigned = some (h', node) ∧
      (node ≠ 0 → n ≤ h'.size node ∧ nodesizeMax ≤ h'.size node ∧
        (pagealigned = true → (node + sizeofNode) % 0x1000 = 0) ∧
        node ∉ used ∧ usedNodes h' = some (used ++ [node]) ∧
        ∀ x ∈ used, h'.size x = h.size x) := by
  have keeps : KeepsWithin Bounded memstart maxsize (maxsize + 0x1000) :=
    small_keepsWithin small id fun _ => above
  have inSpace' : memstart + (maxsize + 0x1000) ≤ 2 ^ 32 := by
    rw [← Nat.add_assoc]
    omega
  have ne : memstart ≠ 0 := by
    unfold sizeofNode at above
    omega
  obtain ⟨a, lt⟩ := run.within keeps inSpace' ne
  have rep := lt.rep
  have noWrap : a.free.find? (Block.serves (clampSize n) pagealigned) = none →
      NoWrap a (clampSize n) pagealigned := by
    apply keeps.noWrap inSpace' 0 lt
    rwa [Bounded, rep.maxsize, lt.max]
  obtain ⟨h', node, call, ⟨a', ret, rep'⟩ | ⟨-, refused, -⟩⟩ :=
    rep.getFree_total (lt.start ▸ above) noWrap
  · obtain ⟨b, rfl, returned⟩ := BlockHeap.getFree_returned ret
    have listed : addrs a'.used = addrs a.used ++ [b.addr] := by
      rw [returned.used, addrs_append, addrs_cons, addrs_nil]
    have size {c : Block} (mem : c ∈ a'.used) : h'.size c.addr = c.size :=
      rep'.size_eq (mem_append_left _ mem)
    have le := returned.enough
    rw [clampSize_eq_max] at le
    refine ⟨_, h', b.addr, rep.usedNodes_eq, call, fun _ =>
      ⟨?_, ?_, returned.aligned, returned.fresh, listed ▸ rep'.usedNodes_eq, ?_⟩⟩
    · rw [size (returned.used ▸ mem_append_right _ mem_cons_self)]
      exact Nat.le_trans (Nat.le_max_left ..) le
    · rw [size (returned.used ▸ mem_append_right _ mem_cons_self)]
      exact Nat.le_trans (Nat.le_max_right ..) le
    · intro x mem
      obtain ⟨c, isUsed, rfl⟩ := mem_map.mp mem
      rw [size (returned.used ▸ mem_append_left _ isUsed), rep.size_eq (mem_append_left _ isUsed)]
  · exact ⟨_, h', node, rep.usedNodes_eq, call, fun alive => absurd refused alive⟩

theorem allocation_returns_aligned : ∃ h h', HeapRun Bounded 0xC0000000 0x1000000 h ∧
      usedNodes h = some [0xC0000000] ∧ getFree 100 h true = some (h', 0xC0000FF4) ∧
      100 ≤ h'.size 0xC0000FF4 ∧ usedNodes h' = some [0xC0000000, 0xC0000FF4] := by
  have evaluated : ((getFree 32 kernelHeap false).bind fun r1 =>
        (getFree 100 r1.1 true).bind fun r2 => some (usedNodes r1.1, r2.2)) =
      some (some [0xC0000000], 0xC0000FF4) := by decide +kernel
  simp only [bind_eq_some_iff, Prod.exists, some.injEq, Prod.mk.injEq] at evaluated
  obtain ⟨h1, first, call1, h2, second, call2, list, rfl⟩ := evaluated
  have run : HeapRun Bounded 0xC0000000 0x1000000 h1 :=
    (HeapRun.create _ _ 0 _ 0).call (.alloc (by decide : 32 ≤ 0x1000000) call1)
  obtain ⟨used, h', node, used', call, served⟩ :=
    allocation_returns (by decide) (by decide) (by decide) run (n := 100) (by decide) true
  cases list.symm.trans used'
  cases call2.symm.trans call
  obtain ⟨le, -, -, -, mem, -⟩ := served (by decide)
  exact ⟨h1, h2, run, list, call2, le, mem⟩

/-- As long as the sums fit, a request of any size is refused or served inside the heap's range
and the page behind it. -/
theorem block_inside (above : sizeofNode ≤ memstart)
    (inSpace : memstart + maxsize + 0x1000 ≤ 2 ^ 32)
    (run : HeapCalls SumFits memstart maxsize h)
    (fits : SumFits h n pagealigned) :
    ∃ h' node, getFree n h pagealigned = some (h', node) ∧
      (node = 0 ∨ n ≤ h'.size node ∧ memstart ≤ node ∧
        node + sizeofNode + n ≤ memstart + maxsize + 0x1000) := by
  obtain ⟨a, sound⟩ := run.sound above inSpace
  obtain ⟨h', node, call, ⟨a', ret, sound'⟩ | ⟨-, refused, -⟩⟩ := sound.alloc above inSpace fits
  · obtain ⟨b, rfl, returned⟩ := BlockHeap.getFree_returned ret
    have mem : b ∈ a'.blocks := mem_append_left _ (returned.used ▸ mem_append_right _ mem_cons_self)
    have le := Nat.le_trans (Nat.le_max_left n _) (clampSize_eq_max n ▸ returned.enough)
    obtain ⟨low, high⟩ := a'.spans_bounds mem
    have start := sound'.start
    have size := sound'.size
    unfold Block.stop BlockHeap.heapend at high
    refine ⟨h', b.addr, call, .inr ⟨?_, ?_, ?_⟩⟩
    · rwa [sound'.rep.size_eq mem]
    · rwa [start] at low
    · omega
  · exact ⟨h', node, call, .inl refused⟩

/-- A heap with a used block behind a free one. -/
theorem usedAndFree_run : ∃ h, HeapCalls SumFits 0xC0000000 0x1000000 h ∧
    usedNodes h = some [0xC0000070] ∧ freeNodes h = some [0xC0000000] ∧ h.cursize = 324 ∧
      h.maxsize = 0x1000000 ∧ searchFree 0x1000001 h false = some 0 ∧
      (getFree 50 h false).map (·.2) = some 0xC0000000 := by
  have evaluated : ((getFree 100 kernelHeap false).bind fun r1 =>
        (getFree 200 r1.1 false).bind fun r2 => (freeNode r1.2 r2.1).bind fun r3 =>
          some ([r1.1.cursize, r3.1.cursize, r3.1.maxsize], usedNodes r3.1, freeNodes r3.1,
            [searchFree 0x1000001 r3.1 false, (getFree 50 r3.1 false).map (·.2)])) =
      some ([112, 324, 0x1000000], some [0xC0000070], some [0xC0000000],
        [some 0, some 0xC0000000]) := by decide +kernel
  simp only [bind_eq_some_iff, Prod.exists, some.injEq, Prod.mk.injEq, cons.injEq,
    and_true] at evaluated
  obtain ⟨h1, first, call1, h2, second, call2, h3, ret, call3, ⟨size, grown, max⟩, used, free,
    search, taken⟩ := evaluated
  have fits1 : SumFits kernelHeap 100 false := fun _ => by decide
  have fits2 : SumFits h1 200 false := fun _ => by
    rw [if_neg (by decide), size]
    decide
  exact ⟨h3, (((HeapRun.create _ _ 0 _ 0).call (.alloc ⟨by decide, fits1⟩ call1)).call
    (.alloc ⟨by decide, fits2⟩ call2)).call (.free call3), used, free, grown, max,
    search, taken⟩

/-- Of two requests the free block serves one, and the other one is refused. -/
theorem block_inside_usedAndFree : ∃ h, HeapCalls SumFits 0xC0000000 0x1000000 h ∧
    usedNodes h = some [0xC0000070] ∧ freeNodes h = some [0xC0000000] ∧
      ∀ n ∈ [50, 0x1000001], ∃ h' node, getFree n h false = some (h', node) ∧
        (node = 0 ∨ n ≤ h'.size node ∧ 0xC0000000 ≤ node ∧
          node + sizeofNode + n ≤ 0xC0000000 + 0x1000000 + 0x1000) := by
  obtain ⟨h, run, used, free, size, -⟩ := usedAndFree_run
  refine ⟨h, run, used, free, fun n mem => block_inside (by decide) (by decide) run fun _ => ?_⟩
  rw [if_neg (by decide), size]
  rcases mem_pair.mp mem with rfl | rfl <;> decide

/-- A request for nearly the whole address space: its sum is zero, and it is granted. -/
theorem block_inside_wraps :
    ∃ h', getFree 0xFFFFFFF4 (createLinkedlist 0xC0000000 0x1000000 0 (fun _ => 0) 0) false =
        some (h', 0xC0000000) ∧
      h'.size 0xC0000000 = 0xFFFFFFF4 ∧ h'.cursize = 0 ∧
      ¬ 0xC0000000 + sizeofNode + 0xFFFFFFF4 ≤ 0xC0000000 + 0x1000000 + 0x1000 := by
  have evaluated : (getFree 0xFFFFFFF4 kernelHeap false).map
        (fun r => (r.2, r.1.size 0xC0000000, r.1.cursize)) = some (0xC0000000, 0xFFFFFFF4, 0) := by
    decide +kernel
  obtain ⟨⟨h', node⟩, call, observed⟩ := map_eq_some_iff.mp evaluated
  simp only [Prod.mk.injEq] at observed
  obtain ⟨rfl, size, cursize⟩ := observed
  exact ⟨h', call, size, cursize, by decide⟩

/-- No free block fits and `expand_heap` refuses to grow the heap. -/
def Refused (h : Heap) (n : Nat) (pagealigned : Bool) : Prop :=
  searchFree (clampSize n) h pagealigned = some 0 ∧
    expandHeap (clampSize n) h pagealigned = some ({ h with errno := enomem }, 0)

theorem Refused.getFree_eq (refused : Refused h n pagealigned) :
    getFree n h pagealigned = (addToUsed 0 { h with errno := enomem }).map (·, 0) := by
  unfold getFree expandAndUse
  simp only [refused.1, refused.2, bind_eq_bind, bind_some, if_true]
  cases addToUsed 0 { h with errno := enomem } with
  | none => rfl
  | some entered => rfl

/-- A refused request returns null and leaves the lists alone, but `add_to_used` stores the links of
the null node: memory stays as it was exactly when those two words held them. -/
theorem refused_writes_null (above : sizeofNode ≤ memstart)
    (inSpace : memstart + maxsize + 0x1000 ≤ 2 ^ 32)
    (run : HeapCalls SumFits memstart maxsize h)
    (refused : Refused h n pagealigned) :
    ∃ used h', usedNodes h = some used ∧ getFree n h pagealigned = some (h', 0) ∧
      usedNodes h' = usedNodes h ∧ freeNodes h' = freeNodes h ∧ h'.cursize = h.cursize ∧
      h'.mem = store32 (store32 h.mem 8 (used.getLastD 0)) 4 0 ∧
      (h'.mem = h.mem ↔ load32 h.mem 8 = used.getLastD 0 ∧ load32 h.mem 4 = 0) := by
  obtain ⟨a, sound⟩ := run.sound above inSpace
  have rep := sound.rep
  obtain ⟨h', entered, rep', stored⟩ := rep.addToUsed_null (sound.start ▸ above)
  have last : (addrs a.used).getLastD 0 < 2 ^ 32 := by
    rcases eq_nil_or_concat' (addrs a.used) with empty | ⟨front, x, split⟩
    · rw [empty]
      decide
    refine rep.headers.lt ?_
    rw [BlockHeap.blocks, addrs_append, split]
    simp
  refine ⟨_, h', rep.usedNodes_eq, ?_, ?_, ?_, ?_, stored, fun same => ?_, ?_⟩
  · rw [refused.getFree_eq, entered]
    rfl
  · rw [rep'.usedNodes_eq, rep.usedNodes_eq]
  · rw [rep'.freeNodes_eq, rep.freeNodes_eq]
  · rw [rep'.cursize, rep.cursize]
  · rw [← same, stored]
    refine ⟨?_, ?_⟩
    · rw [load32_store32_disjoint _ _ (.inr le_rfl), load32_store32_same, Nat.mod_eq_of_lt last]
    · rw [load32_store32_same]
      rfl
  · rintro ⟨prev, next⟩
    rw [stored, store32_of_load32 (prev.trans (Nat.mod_eq_of_lt last).symm),
      store32_of_load32 (v := 0) next]

theorem refused_of_large (search : searchFree 0x1000001 h false = some 0)
    (size : h.cursize < 0x1000) (max : h.maxsize = 0x1000000) : Refused h 0x1000001 false := by
  refine ⟨search, ?_⟩
  unfold expandHeap
  rw [if_neg (by decide), max, if_neg]
  unfold add32 clampSize sizeofNode
  rw [if_neg (by decide)]
  omega

/-- A request above the limit stores the last used block as the one before the null node. -/
theorem refused_writes_null_usedAndFree : ∃ h h', HeapCalls SumFits 0xC0000000 0x1000000 h ∧
    usedNodes h = some [0xC0000070] ∧ freeNodes h = some [0xC0000000] ∧
      getFree 0x1000001 h false = some (h', 0) ∧
      h'.mem = store32 (store32 h.mem 8 0xC0000070) 4 0 := by
  obtain ⟨h, run, used, free, size, max, search, -⟩ := usedAndFree_run
  obtain ⟨listed, h', list, call, -, -, -, stored, -⟩ := refused_writes_null (by decide) (by decide)
    run (refused_of_large search (size ▸ by decide) max)
  cases used.symm.trans list
  exact ⟨h, h', run, used, free, call, stored⟩

/-- The same request where byte 4 of the memory holds a one: it is overwritten. -/
theorem refused_writes_null_page :
    Refused (createLinkedlist 0xC0000000 0x1000000 0 (fun _ => 1) 0) 0x1000001 false ∧
      (getFree 0x1000001 (createLinkedlist 0xC0000000 0x1000000 0 (fun _ => 1) 0) false).map
        (fun r => (r.2, r.1.mem 4)) = some (0, 0) :=
  ⟨refused_of_large rfl (by decide) rfl, by decide +kernel⟩

theorem addrs_erase (nodup : (addrs blocks).Nodup) (mem : b ∈ blocks) :
    addrs (blocks.erase b) = (addrs blocks).erase b.addr := by
  obtain ⟨front, back, split, erased⟩ := exists_split nodup mem
  have notFront : b.addr ∉ addrs front := fun lt =>
    not_mem_of_nodup_append (by rwa [split, addrs_append] at nodup) lt (by simp)
  rw [erased, split, addrs_append, addrs_append, addrs_cons,
    erase_append_right _ notFront, erase_cons_head]

theorem BlockHeap.freeNode_cases (a : BlockHeap) (node : Nat) :
    (∃ b, ∃ isUsed : b ∈ a.used, b.addr = node ∧ a.freeNode node = some (a.release b isUsed)) ∨
      (node ∉ addrs a.used ∧ a.freeNode node = none) := by
  unfold freeNode
  split
  · next b found =>
      exact .inl ⟨b, mem_of_find?_eq_some found, by simpa using find?_some found, rfl⟩
  next missing =>
    refine .inr ⟨fun mem => ?_, rfl⟩
    obtain ⟨b, isUsed, rfl⟩ := mem_map.mp mem
    simpa using find?_eq_none.mp missing b isUsed

/-- As long as the sums fit, `free_node` moves exactly the block at the address it is given, and
an address that is on no used block is rejected without a trace. -/
theorem free_exact (above : sizeofNode ≤ memstart)
    (inSpace : memstart + maxsize + 0x1000 ≤ 2 ^ 32)
    (run : HeapCalls SumFits memstart maxsize h) (node : Nat) :
    ∃ used free, usedNodes h = some used ∧ freeNodes h = some free ∧
      (node ∈ used → ∃ h' free', freeNode node h = some (h', 0) ∧
        usedNodes h' = some (used.erase node) ∧ freeNodes h' = some free' ∧
        free'.Perm (node :: free) ∧ (∀ x ∈ used ++ free, h'.size x = h.size x) ∧
        h'.cursize = h.cursize) ∧
      (node ∉ used → freeNode node h = some ({ h with errno := efault }, -1)) := by
  obtain ⟨a, sound⟩ := run.sound above inSpace
  have rep := sound.rep
  refine ⟨_, _, rep.usedNodes_eq, rep.freeNodes_eq, fun mem => ?_, fun missing => ?_⟩
  · obtain ⟨b, isUsed, rfl, ret⟩ | ⟨missing, -⟩ := a.freeNode_cases node
    · obtain ⟨a', h', released, call, rep'⟩ | ⟨refused, -⟩ := rep.freeNode_refines b.addr
      · cases ret.symm.trans released
        have nodup : (addrs a.used).Nodup := (nodup_append.mp (addrs_append _ _ ▸ a.nodup_addrs)).1
        refine ⟨h', _, call, addrs_erase nodup isUsed ▸ rep'.usedNodes_eq, rep'.freeNodes_eq,
          (insertBySize_perm b a.free).map _, fun x listed => ?_, ?_⟩
        · rw [← addrs_append] at listed
          obtain ⟨c, known, rfl⟩ := mem_map.mp listed
          have kept : c ∈ (a.release b isUsed).blocks := by
            rcases mem_append.mp known with used | free
            · by_cases moved : c = b
              · exact mem_append_right _ (mem_insertBySize.mpr (.inl moved))
              · exact mem_append_left _ ((mem_erase_of_ne moved).mpr used)
            · exact mem_append_right _ (mem_insertBySize.mpr (.inr free))
          rw [rep'.size_eq kept, rep.size_eq known]
        · rw [rep'.cursize, rep.cursize]
          rfl
      · exact absurd (ret.symm.trans refused) (by simp)
    · exact absurd mem missing
  · obtain ⟨b, isUsed, rfl, -⟩ | ⟨-, ret⟩ := a.freeNode_cases node
    · exact absurd (addr_mem isUsed) missing
    · obtain ⟨a', h', released, -, -⟩ | ⟨-, call⟩ := rep.freeNode_refines node
      · exact absurd (ret.symm.trans released) (by simp)
      · exact call

theorem free_exact_double :
    ∃ h h', HeapCalls SumFits 0xC0000000 0x1000000 h ∧ usedNodes h = some [0xC0000000] ∧
      freeNode 0xC0000000 h = some (h', 0) ∧ usedNodes h' = some [] ∧
      freeNode 0xC0000000 h' = some ({ h' with errno := efault }, -1) := by
  have evaluated : ((getFree 100 kernelHeap false).map
        fun r1 => usedNodes r1.1) = some (some [0xC0000000]) := by decide +kernel
  obtain ⟨⟨h1, first⟩, call1, list⟩ := map_eq_some_iff.mp evaluated
  have fits : SumFits kernelHeap 100 false := fun _ => by decide
  have run : HeapCalls SumFits 0xC0000000 0x1000000 h1 :=
    (HeapRun.create _ _ 0 _ 0).call (.alloc ⟨by decide, fits⟩ call1)
  obtain ⟨used, free, used', -, released, -⟩ := free_exact (by decide) (by decide) run 0xC0000000
  cases list.symm.trans used'
  obtain ⟨h2, free', call2, empty, -⟩ := released (by simp)
  obtain ⟨used, free, used', -, -, rejected⟩ :=
    free_exact (by decide) (by decide) (run.call (.free call2)) 0xC0000000
  cases empty.symm.trans used'
  exact ⟨h1, h2, run, list, call2, empty, rejected (by simp)⟩

/-- After a sum that wrapped around, releasing a block changes the size of another one. -/
theorem free_exact_overwrites : ∃ h, HeapCalls (fun _ _ _ => True) 0xC0000000 0x1000000 h ∧
      usedNodes h = some [0xC0000000, 0xC000010C, 0xC0000024] ∧
      freeNodes h = some [0xC000002C, 0xC000009C] ∧ h.size 0xC000002C = 0xC000010C ∧
      ∃ h', freeNode 0xC0000024 h = some (h', 0) ∧ h'.size 0xC000002C = 0 := by
  obtain ⟨h, run, used, free, large, -, -, released⟩ := wrapped_sum_run
  exact ⟨h, run, used, free, large, released⟩

/-- The pointer heap of every run implements a block heap, and both calls answer as its operations
do and lead to heaps that correspond again. -/
theorem allocator_refines (above : sizeofNode ≤ memstart)
    (inSpace : memstart + maxsize + 0x1000 ≤ 2 ^ 32) (run : HeapCalls SumFits memstart maxsize h) :
    ∃ a, Encodes h a ∧
      (∀ n pagealigned, SumFits h n pagealigned →
        ∃ h' node, getFree n h pagealigned = some (h', node) ∧
          ((∃ a', a.getFree (clampSize n) pagealigned = some (a', node) ∧ node ≠ 0 ∧
              Encodes h' a') ∨
            (a.getFree (clampSize n) pagealigned = none ∧ node = 0 ∧ Encodes h' a))) ∧
      ∀ node, (∃ a' h', a.freeNode node = some a' ∧ freeNode node h = some (h', 0) ∧
          Encodes h' a') ∨
        (a.freeNode node = none ∧ freeNode node h = some ({ h with errno := efault }, -1)) := by
  obtain ⟨a, sound⟩ := run.sound above inSpace
  refine ⟨a, sound.rep, fun n pagealigned fits => ?_, sound.rep.freeNode_refines⟩
  obtain ⟨h', node, call, ⟨a', ret, sound'⟩ | ⟨ret, null, sound'⟩⟩ :=
    sound.alloc above inSpace fits
  · obtain ⟨-, -, ⟨b, isUsed, rfl⟩, -⟩ := BlockHeap.getFree_spec ret
    have low := (a'.spans_bounds (mem_append_left _ isUsed)).1
    have nonnull : b.addr ≠ 0 := fun null => a'.notNull (Nat.le_zero.mp (null ▸ low))
    exact ⟨h', _, call, .inl ⟨a', ret, nonnull, sound'.rep⟩⟩
  · exact ⟨h', node, call, .inr ⟨ret, null, sound'.rep⟩⟩

/-- The free block serves a request of both heaps. -/
theorem allocator_refines_usedAndFree : ∃ h a h' a', Encodes h a ∧
    usedNodes h = some [0xC0000070] ∧ freeNodes h = some [0xC0000000] ∧
      getFree 50 h false = some (h', 0xC0000000) ∧ a.getFree 50 false = some (a', 0xC0000000) ∧
      Encodes h' a' := by
  obtain ⟨h, run, used, free, size, -, -, taken⟩ := usedAndFree_run
  obtain ⟨a, rep, alloc, -⟩ := allocator_refines (by decide) (by decide) run
  have fits : SumFits h 50 false := fun _ => by
    rw [if_neg (by decide), size]
    decide
  obtain ⟨h', node, call, served⟩ := alloc 50 false fits
  have node' : node = 0xC0000000 := by simpa [call] using taken
  subst node'
  obtain ⟨a', ret, -, rep'⟩ := served.resolve_right fun refused => absurd refused.2.1 (by decide)
  exact ⟨h, a, h', a', rep, used, free, call, ret, rep'⟩

end Yanix.Mm
