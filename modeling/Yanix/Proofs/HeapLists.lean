/-
Module: Yanix.Proofs.HeapLists
Purpose: Headers at separate addresses do not share bytes, so the pointer lists of the
  allocator hold sequences of blocks: appending, inserting, removing, searching.
-/
import Yanix.Mm.BlockHeap
import Mathlib.Data.List.Find

namespace Yanix.Mm

open Foundation List Option

variable {x : Nat} {start : Nat}
variable {nodes : List Nat} {h : Heap} {node : Nat} {b : Block} {h h' : Heap}

/-- Addresses of node headers: not null, inside the address space, and no two
of them closer than a header. -/
structure Headers (nodes : List Nat) : Prop where
  notNull : ∀ x ∈ nodes, x ≠ 0
  inSpace : ∀ x ∈ nodes, x + sizeofNode ≤ 2 ^ 32
  apart : ∀ x ∈ nodes, ∀ y ∈ nodes, x ≠ y → x + sizeofNode ≤ y ∨ y + sizeofNode ≤ x

variable {i j v : Nat}

namespace Headers

variable {x y : Nat} (headers : Headers nodes)

include headers

variable (hx : x ∈ nodes)

include hx

theorem lt : x < 2 ^ 32 := by
  have := headers.inSpace x hx
  unfold sizeofNode at this
  omega

theorem nextField : add32 x 4 = x + 4 := by
  have := headers.inSpace x hx
  unfold sizeofNode at this
  exact add32_of_lt (by omega)

theorem prevField : add32 x 8 = x + 8 := by
  have := headers.inSpace x hx
  unfold sizeofNode at this
  exact add32_of_lt (by omega)

/-- Different words of the headers do not overlap. -/
theorem words_apart (hy : y ∈ nodes) (hi : i + 4 ≤ sizeofNode) (hj : j + 4 ≤ sizeofNode)
    (ne : y ≠ x ∨ i + 4 ≤ j ∨ j + 4 ≤ i) : y + j + 4 ≤ x + i ∨ x + i + 4 ≤ y + j := by
  by_cases same : y = x
  · subst same
    omega
  · have := headers.apart y hy x hx same
    omega

theorem load_store_same (hy : y ∈ nodes) (hi : i + 4 ≤ sizeofNode) (hv : v < 2 ^ 32)
    (mem : Bytes) :
    load32 (store32 mem (x + i) v) (y + i) = if y = x then v else load32 mem (y + i) := by
  split
  · next same =>
      rw [same, load32_store32_same, Nat.mod_eq_of_lt hv]
  next ne =>
    apply load32_store32_disjoint
    exact headers.words_apart hx hy hi hi (.inl ne)

/-- A store to one word of a header leaves the other words. -/
theorem load_store_other (hy : y ∈ nodes) (hi : i + 4 ≤ sizeofNode) (hj : j + 4 ≤ sizeofNode)
    (other : i + 4 ≤ j ∨ j + 4 ≤ i) (mem : Bytes) (v : Nat) :
    load32 (store32 mem (x + i) v) (y + j) = load32 mem (y + j) := by
  apply load32_store32_disjoint
  exact headers.words_apart hx hy hi hj (.inr other)

omit headers hx

section

variable (headers : Headers nodes) (hx : x ∈ nodes) (hy : y ∈ nodes)

include headers hx hy

/-- Setting `next` of one header is read back there only. -/
theorem next_setNext (hv : v < 2 ^ 32) :
    (h.setNext x v).next y = if y = x then v else h.next y := by
  simp only [Heap.next, Heap.setNext, headers.nextField hx, headers.nextField hy]
  exact headers.load_store_same hx hy (by decide) hv h.mem

theorem prev_setNext (v : Nat) : (h.setNext x v).prev y = h.prev y := by
  simp only [Heap.prev, Heap.setNext, headers.nextField hx, headers.prevField hy]
  exact headers.load_store_other hx hy (by decide) (by decide) (by decide) h.mem v

theorem size_setNext (v : Nat) : (h.setNext x v).size y = h.size y := by
  simp only [Heap.size, Heap.setNext, headers.nextField hx]
  exact headers.load_store_other (j := 0) hx hy (by decide) (by decide) (by decide) h.mem v

theorem next_setPrev (v : Nat) : (h.setPrev x v).next y = h.next y := by
  simp only [Heap.next, Heap.setPrev, headers.nextField hy, headers.prevField hx]
  exact headers.load_store_other hx hy (by decide) (by decide) (by decide) h.mem v

theorem prev_setPrev (hv : v < 2 ^ 32) :
    (h.setPrev x v).prev y = if y = x then v else h.prev y := by
  simp only [Heap.prev, Heap.setPrev, headers.prevField hx, headers.prevField hy]
  exact headers.load_store_same hx hy (by decide) hv h.mem

theorem size_setPrev (v : Nat) : (h.setPrev x v).size y = h.size y := by
  simp only [Heap.size, Heap.setPrev, headers.prevField hx]
  exact headers.load_store_other (j := 0) hx hy (by decide) (by decide) (by decide) h.mem v

theorem next_setSize (v : Nat) : (h.setSize x v).next y = h.next y := by
  simp only [Heap.next, Heap.setSize, headers.nextField hy]
  exact headers.load_store_other (i := 0) hx hy (by decide) (by decide) (by decide) h.mem v

theorem prev_setSize (v : Nat) : (h.setSize x v).prev y = h.prev y := by
  simp only [Heap.prev, Heap.setSize, headers.prevField hy]
  exact headers.load_store_other (i := 0) hx hy (by decide) (by decide) (by decide) h.mem v

theorem size_setSize (hv : v < 2 ^ 32) : (h.setSize x v).size y = if y = x then v else h.size y :=
  headers.load_store_same (i := 0) hx hy (by decide) hv h.mem

end

end Headers

/-! ## Edits of the links -/

/-- Only links of the given headers changed: sizes and all other memory are
as before. -/
structure Relinked (nodes : List Nat) (h h' : Heap) : Prop where
  size : ∀ y ∈ nodes, h'.size y = h.size y
  outside : ∀ a, (∀ y ∈ nodes, a < y ∨ y + sizeofNode ≤ a) → h'.mem a = h.mem a

namespace Relinked

variable {h h' h'' : Heap} {x : Nat}

theorem refl (nodes : List Nat) (h : Heap) : Relinked nodes h h := ⟨fun _ _ => rfl, fun _ _ => rfl⟩

theorem trans (first : Relinked nodes h h') (second : Relinked nodes h' h'') :
    Relinked nodes h h'' where
  size y mem := (second.size y mem).trans (first.size y mem)
  outside a away := (second.outside a away).trans (first.outside a away)

theorem of_mem_eq (same : h'.mem = h.mem) : Relinked nodes h h' where
  size y _ := by simp only [Heap.size, same]
  outside a _ := by rw [same]

theorem store_outside (hx : x ∈ nodes) (hi : i + 4 ≤ sizeofNode) (mem : Bytes) (v a : Nat)
    (away : ∀ y ∈ nodes, a < y ∨ y + sizeofNode ≤ a) : store32 mem (x + i) v a = mem a := by
  apply store32_apply_of_disjoint
  have := away x hx
  omega

theorem setNext (headers : Headers nodes) (hx : x ∈ nodes) (v : Nat) :
    Relinked nodes h (h.setNext x v) where
  size y mem := headers.size_setNext hx mem v
  outside a away := by
    simp only [Heap.setNext, headers.nextField hx]
    exact store_outside hx (by decide) h.mem v a away

theorem setPrev (headers : Headers nodes) (hx : x ∈ nodes) (v : Nat) :
    Relinked nodes h (h.setPrev x v) where
  size y mem := headers.size_setPrev hx mem v
  outside a away := by
    simp only [Heap.setPrev, headers.prevField hx]
    exact store_outside hx (by decide) h.mem v a away

end Relinked

variable {front : List Nat}

/-- What comes behind the removed node is entered in front of it. -/
theorem pointForward_spec {p : Nat} (setStart : Heap → Nat → Heap)
    (keepsMem : ∀ l v, (setStart l v).mem = l.mem) (headers : Headers nodes)
    (members : ∀ y ∈ front, y ∈ nodes) (hp : p = front.getLastD 0) (target : v < 2 ^ 32) :
    let h' := if p ≠ 0 then h.setNext p v else setStart h v
    (∀ y ∈ nodes, h'.next y = if front.getLast? = some y then v else h.next y) ∧
      (∀ y ∈ nodes, h'.prev y = h.prev y) ∧ Relinked nodes h h' ∧
      h' = { (if front = [] then setStart h v else h) with mem := h'.mem } := by
  rw [hp]
  rcases eq_nil_or_concat front with rfl | ⟨start, last, rfl⟩
  · have same : (setStart h v).mem = h.mem := keepsMem ..
    simp only [getLastD_nil, ne_eq, not_true_eq_false, if_false, getLast?_nil,
      reduceCtorEq, if_true]
    refine ⟨fun y _ => ?_, fun y _ => ?_, Relinked.of_mem_eq same, trivial⟩
    · simp only [Heap.next, same]
    · simp only [Heap.prev, same]
  rw [concat_eq_append] at *
  have hlast : last ∈ nodes := members last (by simp)
  have alive : last ≠ 0 := headers.notNull last hlast
  simp only [getLastD_concat, ne_eq, alive, not_false_eq_true, if_true,
    getLast?_append, getLast?_singleton, some_or, some.injEq,
    append_eq_nil_iff, cons_ne_self, and_false, if_false]
  refine ⟨fun y member => ?_, fun y member => ?_, Relinked.setNext headers hlast _, rfl⟩
  · rw [headers.next_setNext hlast member target]
    simp only [eq_comm]
  · exact headers.prev_setNext hlast member _

variable {back : List Nat}

/-- The `prev` field behind the removed node is moved along. -/
theorem skip_backward (headers : Headers nodes) (members : ∀ y ∈ back, y ∈ nodes)
    (hprev : h.prev x = front.getLastD 0) (hnext : h.next x = back.headD 0) :
    let h' := if h.next x ≠ 0 then h.setPrev (h.next x) (h.prev x) else h
    (∀ y ∈ nodes, h'.next y = h.next y) ∧
      (∀ y ∈ nodes, h'.prev y = if back.head? = some y then front.getLastD 0 else h.prev y) ∧
      Relinked nodes h h' := by
  have target : front.getLastD 0 < 2 ^ 32 := hprev ▸ load32_lt ..
  rw [hprev, hnext]
  cases back with
  | nil => simp [Relinked.refl]
  | cons b back =>
    have hb : b ∈ nodes := members b (by simp)
    have alive : b ≠ 0 := headers.notNull b hb
    simp only [headD_cons, ne_eq, alive, not_false_eq_true, if_true, head?_cons, some.injEq]
    refine ⟨fun y mem => ?_, fun y mem => ?_, Relinked.setPrev headers hb _⟩
    · exact headers.next_setPrev hb mem _
    · rw [headers.prev_setPrev hb mem target]
      simp only [eq_comm]

/-- Both link updates of a removal, for a node anywhere in the list. -/
theorem unlink_spec {setStart : Heap → Nat → Heap}
    (keepsMem : ∀ l v, (setStart l v).mem = l.mem) (headers : Headers nodes)
    (members : ∀ y ∈ front ++ x :: back, y ∈ nodes) (nodup : (front ++ x :: back).Nodup)
    (chain : Chain h.next h.prev 0 (front ++ x :: back) 0) :
    let h' := unlink setStart x h
    (∀ y ∈ nodes, h'.next y = if front.getLast? = some y then back.headD 0 else h.next y) ∧
      (∀ y ∈ nodes, h'.prev y = if back.head? = some y then front.getLastD 0 else h.prev y) ∧
      Relinked nodes h h' := by
  obtain ⟨-, hprev, hnext, -⟩ := chain_append.mp chain
  have notLast : front.getLast? ≠ some x := fun same =>
    (nodup_append.mp nodup).2.2 x (mem_of_getLast? same) x (by simp) rfl
  have hx : x ∈ nodes := members x (by simp)
  obtain ⟨next1, prev1, relinked1, -⟩ := pointForward_spec setStart (h := h) (v := h.next x)
    keepsMem headers (fun y mem => members y (by simp [mem])) hprev (load32_lt ..)
  -- the second half reads the fields of `x` again, which the first left alone
  have hnext1 := (next1 x hx).trans ((if_neg notLast).trans hnext)
  have hprev1 := (prev1 x hx).trans hprev
  obtain ⟨next2, prev2, relinked2⟩ := skip_backward headers
    (fun y mem => members y (by simp [mem])) hprev1 hnext1
  refine ⟨fun y mem => ?_, fun y mem => ?_, relinked1.trans relinked2⟩
  · exact (next2 y mem).trans ((next1 y mem).trans (by rw [hnext]))
  · rw [← prev1 y mem]
    exact prev2 y mem

/-- Besides, no link of a header outside `touched` changed. -/
structure Edited (nodes touched : List Nat) (h h' : Heap) : Prop extends Relinked nodes h h' where
  links : ∀ y ∈ nodes, y ∉ touched → h'.next y = h.next y ∧ h'.prev y = h.prev y

variable {touched : List Nat}

theorem clearLinks_spec (headers : Headers nodes) (hnode : node ∈ nodes) :
    let h' := (h.setPrev node 0).setNext node 0
    Chain h'.next h'.prev 0 [node] 0 ∧ Edited nodes [node] h h' := by
  have zero : 0 < 2 ^ 32 := by decide
  refine ⟨⟨?_, ?_, trivial⟩, ⟨(Relinked.setPrev headers hnode _).trans
    (Relinked.setNext headers hnode _), fun y mem away => ⟨?_, ?_⟩⟩⟩
  · rw [headers.prev_setNext hnode hnode, headers.prev_setPrev hnode hnode zero, if_pos rfl]
  · rw [headers.next_setNext hnode hnode zero, if_pos rfl]
    rfl
  · have ne : y ≠ node := by simpa using away
    rw [headers.next_setNext hnode mem zero, if_neg ne, headers.next_setPrev hnode mem]
  · have ne : y ≠ node := by simpa using away
    rw [headers.prev_setNext hnode mem, headers.prev_setPrev hnode mem zero, if_neg ne]

/-- The header `node` may be linked into the list of the headers `old`. -/
structure Joins (nodes old : List Nat) (node : Nat) : Prop where
  headers : Headers nodes
  members : old ⊆ nodes
  hnode : node ∈ nodes
  fresh : node ∉ old
  nodup : old.Nodup

theorem Joins.ne {old : List Nat} {y : Nat} (joins : Joins nodes old node) (mem : y ∈ old) :
    y ≠ node := fun same => joins.fresh (same ▸ mem)

variable {tmp : Nat}

/-- A node is put behind the last one. -/
theorem linkAfter_spec (joins : Joins nodes (front ++ [tmp]) node)
    (chain : Chain h.next h.prev 0 (front ++ [tmp]) 0) :
    let h' := ((h.setNext tmp node).setPrev node tmp).setNext node 0
    Chain h'.next h'.prev 0 (front ++ [tmp] ++ [node]) 0 ∧
      Edited nodes (node :: (front ++ [tmp])) h h' := by
  have headers := joins.headers
  have hnode := joins.hnode
  have zero : 0 < 2 ^ 32 := by decide
  have htmp : tmp ∈ nodes := joins.members (by simp)
  have hnext (y : Nat) (mem : y ∈ nodes) :
      (((h.setNext tmp node).setPrev node tmp).setNext node 0).next y =
        if y = node then 0 else if y = tmp then node else h.next y := by
    rw [headers.next_setNext hnode mem zero, headers.next_setPrev hnode mem,
      headers.next_setNext htmp mem (headers.lt hnode)]
  have hprev (y : Nat) (mem : y ∈ nodes) :
      (((h.setNext tmp node).setPrev node tmp).setNext node 0).prev y =
        if y = node then tmp else h.prev y := by
    rw [headers.prev_setNext hnode mem, headers.prev_setPrev hnode mem (headers.lt htmp),
      headers.prev_setNext htmp mem]
  constructor
  · refine Chain.insert (by simpa using joins.nodup) (by simpa using chain) ?_ ?_ ?_ ?_
    · rw [hprev node hnode, if_pos rfl, getLastD_concat]
    · rw [hnext node hnode, if_pos rfl]
      rfl
    · intro y mem
      rw [append_nil] at mem
      rw [hnext y (joins.members mem), if_neg (joins.ne mem)]
      simp [eq_comm]
    · intro y mem
      rw [append_nil] at mem
      rw [hprev y (joins.members mem), if_neg (joins.ne mem)]
      rfl
  · refine ⟨((Relinked.setNext headers htmp _).trans (Relinked.setPrev headers hnode _)).trans
      (Relinked.setNext headers hnode _), fun y mem away => ⟨?_, ?_⟩⟩
    · simp only [mem_cons, mem_append, not_mem_nil, or_false, not_or] at away
      rw [hnext y mem, if_neg away.1, if_neg away.2.2]
    · simp only [mem_cons, not_or] at away
      rw [hprev y mem, if_neg away.1]

/-- A node is put in front of another one, at the head or inside. -/
theorem linkBefore_spec (joins : Joins nodes (front ++ tmp :: back) node)
    (chain : Chain h.next h.prev 0 (front ++ tmp :: back) 0) :
    let h' := linkBefore node tmp h
    Chain h'.next h'.prev 0 (front ++ node :: tmp :: back) 0 ∧
      Edited nodes (node :: (front ++ tmp :: back)) h h' ∧
      h' = { h with mem := h'.mem, startFree := if front = [] then node else h.startFree } := by
  have headers := joins.headers
  have hnode := joins.hnode
  have htmp : tmp ∈ nodes := joins.members (by simp)
  obtain ⟨-, lt, -, -⟩ := chain_append.mp chain
  -- the predecessor, or the head of the list, is pointed at the new node
  obtain ⟨next1, prev1, relinked1, record1⟩ := pointForward_spec Heap.setStartFree (h := h)
    (fun _ _ => rfl) headers (fun y member => joins.members (by simp [member])) lt
    (headers.lt hnode)
  generalize def1 : (if h.prev tmp ≠ 0 then h.setNext (h.prev tmp) node
    else h.setStartFree node) = h1 at next1 prev1 relinked1 record1
  have target : front.getLastD 0 < 2 ^ 32 := lt ▸ load32_lt ..
  have ret : linkBefore node tmp h =
      ((h1.setPrev node (front.getLastD 0)).setPrev tmp node).setNext node tmp := by
    rw [← lt, ← prev1 tmp htmp, ← def1]
    rfl
  have hnext (y : Nat) (member : y ∈ nodes) : (linkBefore node tmp h).next y =
      if y = node then tmp else if front.getLast? = some y then node else h.next y := by
    rw [ret, headers.next_setNext hnode member (headers.lt htmp),
      headers.next_setPrev htmp member, headers.next_setPrev hnode member, next1 y member]
  have hprev (y : Nat) (member : y ∈ nodes) : (linkBefore node tmp h).prev y =
      if y = tmp then node else if y = node then front.getLastD 0 else h.prev y := by
    rw [ret, headers.prev_setNext hnode member, headers.prev_setPrev htmp member (headers.lt hnode),
      headers.prev_setPrev hnode member target, prev1 y member]
  refine ⟨?_, ⟨?_, fun y member away => ⟨?_, ?_⟩⟩, ?_⟩
  · refine Chain.insert joins.nodup chain ?_ ?_ ?_ ?_
    · rw [hprev node hnode, if_neg (joins.ne (y := tmp) (by simp)).symm, if_pos rfl]
    · rw [hnext node hnode, if_pos rfl, headD_cons]
    · intro y member
      rw [hnext y (joins.members member), if_neg (joins.ne member)]
    · intro y member
      rw [hprev y (joins.members member), if_neg (joins.ne member)]
      simp only [head?_cons, some.injEq, eq_comm]
  · rw [ret]
    exact ((relinked1.trans (Relinked.setPrev headers hnode _)).trans
      (Relinked.setPrev headers htmp _)).trans (Relinked.setNext headers hnode _)
  · simp only [mem_cons, mem_append, not_or] at away
    rw [hnext y member, if_neg away.1, if_neg]
    exact fun same => away.2.1 (mem_of_getLast? same)
  · simp only [mem_cons, mem_append, not_or] at away
    rw [hprev y member, if_neg away.2.2.1, if_neg away.1]
  · rw [ret]
    conv_lhs => rw [record1]
    split_ifs <;> rfl

/-- Addresses of a list of blocks. -/
def addrs (blocks : List Block) : List Nat := blocks.map Block.addr

@[simp] theorem addrs_nil : addrs [] = [] := rfl

@[simp] theorem addrs_cons (b : Block) (blocks : List Block) :
    addrs (b :: blocks) = b.addr :: addrs blocks := rfl

@[simp] theorem addrs_append (xs ys : List Block) : addrs (xs ++ ys) = addrs xs ++ addrs ys :=
  map_append

@[simp] theorem length_addrs (blocks : List Block) : (addrs blocks).length = blocks.length :=
  length_map _

theorem addr_mem {blocks : List Block} (mem : b ∈ blocks) :
    b.addr ∈ addrs blocks := mem_map_of_mem mem

/-- The chain from `start` on consists of exactly these blocks. -/
structure ListAt (h : Heap) (start : Nat) (blocks : List Block) : Prop where
  head : start = (addrs blocks).headD 0
  chain : Chain h.next h.prev 0 (addrs blocks) 0
  sizes : ∀ b ∈ blocks, h.size b.addr = b.size

variable {front : List Block} {last : Block}

namespace ListAt

variable {nodes touched : List Nat} {blocks : List Block} {start : Nat}

theorem nil (h : Heap) : ListAt h 0 [] := ⟨rfl, trivial, by simp⟩

variable (list : ListAt h start blocks)

include list

/-- Edits of other headers leave a list alone. -/
theorem frame (edited : Edited nodes touched h h') (members : addrs blocks ⊆ nodes)
    (away : ∀ x ∈ addrs blocks, x ∉ touched) : ListAt h' start blocks where
  head := list.head
  chain := list.chain.congr fun x mem => edited.links x (members mem) (away x mem)
  sizes b hb := (edited.size b.addr (members (addr_mem hb))).trans (list.sizes b hb)

theorem frame_cons (edited : Edited nodes (node :: touched) h h') (members : addrs blocks ⊆ nodes)
    (fresh : node ∉ addrs blocks) (away : ∀ x ∈ addrs blocks, x ∉ touched) :
    ListAt h' start blocks := by
  refine list.frame edited members fun x mem lt => ?_
  rcases mem_cons.mp lt with rfl | ne
  · exact fresh mem
  · exact away x mem ne

theorem of_mem_eq (same : h'.mem = h.mem) : ListAt h' start blocks := by
  cases h
  cases same
  exact ⟨list.head, list.chain, list.sizes⟩

theorem start_eq_zero_iff (alive : 0 ∉ addrs blocks) : start = 0 ↔ blocks = [] := by
  rw [list.head]
  cases blocks with
  | nil => simp
  | cons b blocks =>
    simp only [addrs_cons, mem_cons, not_or] at alive
    simpa using Ne.symm alive.1

/-- The walk over a list finds exactly its nodes. -/
theorem collect_eq (alive : 0 ∉ addrs blocks) (short : blocks.length < addressSpace) :
    collect h.next 0 addressSpace start = some (addrs blocks) := by
  rw [list.head]
  exact Foundation.collect_eq (Chain.forward list.chain) alive (by rwa [length_addrs])

omit list

theorem find_addrs {test : Nat → Bool} {passes : Block → Bool}
    (same : ∀ b ∈ blocks, test b.addr = passes b) :
    (addrs blocks).find? test = (blocks.find? passes).map Block.addr := by
  rw [addrs, find?_map]
  congr 1
  exact find?_congr same

include list

/-- A search loop returns the first block that passes, or null. -/
theorem scan_eq (alive : 0 ∉ addrs blocks) (short : blocks.length < addressSpace)
    (ne : blocks ≠ []) (test : Nat → Bool) (passes : Block → Bool)
    (same : ∀ b ∈ blocks, test b.addr = passes b) :
    scan h.next 0 test addressSpace start =
      some (((blocks.find? passes).map Block.addr).getD 0) := by
  rw [← find_addrs same]
  cases blocks with
  | nil => exact absurd rfl ne
  | cons b blocks =>
    rw [list.head, addrs_cons, headD_cons]
    refine (scans_eq (Chain.forward list.chain) ?_ ?_).1
    · exact fun mem => alive (mem_cons_of_mem _ mem)
    simp only [length_cons] at short
    rw [← addrs, length_addrs]
    omega

omit list

/-- The loop of the insertion stops at the first block that passes, or at the last one. -/
theorem scanOrLast_eq (list : ListAt h start (front ++ [last]))
    (alive : 0 ∉ addrs (front ++ [last])) (short : (front ++ [last]).length < addressSpace)
    (test : Nat → Bool) (passes : Block → Bool)
    (same : ∀ b ∈ front ++ [last], test b.addr = passes b) :
    scanOrLast h.next 0 test addressSpace start =
      some ((((front ++ [last]).find? passes).map Block.addr).getD last.addr) := by
  have nonempty : addrs (front ++ [last]) ≠ [] := by simp
  rw [← find_addrs same, list.head]
  have lastAddr : (addrs (front ++ [last])).getLast nonempty = last.addr := by
    simp
  rw [← lastAddr]
  have chain := list.chain
  rw [← length_addrs] at short
  generalize addrs (front ++ [last]) = nodes at *
  cases nodes with
  | nil => exact absurd rfl nonempty
  | cons x nodes =>
    refine (scans_eq (Chain.forward chain) ?_ ?_).2
    · exact fun mem => alive (mem_cons_of_mem _ mem)
    · simp only [length_cons] at short
      omega

end ListAt

/-! ## Adding a node -/

theorem linkAfter_listAt (joins : Joins nodes (addrs (front ++ [last])) node)
    (list : ListAt h start (front ++ [last])) :
    let h' := ((h.setNext last.addr node).setPrev node last.addr).setNext node 0
    ListAt h' start (front ++ [last] ++ [⟨node, h.size node⟩]) ∧
      Edited nodes (node :: addrs (front ++ [last])) h h' := by
  have chain := list.chain
  simp only [addrs_append, addrs_cons, addrs_nil] at joins chain ⊢
  obtain ⟨chain', edited⟩ := linkAfter_spec joins chain
  refine ⟨⟨?_, ?_, ?_⟩, edited⟩
  · rw [list.head]
    cases front <;> simp
  · simpa using chain'
  intro b mem
  rcases mem_append.mp mem with old | new
  · rw [edited.size b.addr (joins.members (by simpa using addr_mem old)), list.sizes b old]
  · rw [mem_singleton.mp new, edited.size node joins.hnode]

variable {used : List Block}

/-- `add_to_used` appends the node. -/
theorem addToUsed_spec (joins : Joins nodes (addrs used) node) (short : used.length < addressSpace)
    (list : ListAt h h.startUsed used) :
    ∃ h', addToUsed node h = some h' ∧ ListAt h' h'.startUsed (used ++ [⟨node, h.size node⟩]) ∧
      Edited nodes (node :: addrs used) h h' ∧
      h' = { h with mem := h'.mem, startUsed := h'.startUsed } := by
  have alive : 0 ∉ addrs used := fun zero => joins.headers.notNull 0 (joins.members zero) rfl
  unfold addToUsed
  rcases eq_nil_or_concat' used with rfl | ⟨front, last, rfl⟩
  · rw [if_pos ((list.start_eq_zero_iff alive).mpr rfl)]
    obtain ⟨chain, edited⟩ := clearLinks_spec (h := h.setStartUsed node) joins.headers joins.hnode
    refine ⟨_, rfl, ⟨rfl, chain, ?_⟩, ⟨⟨edited.size, edited.outside⟩, edited.links⟩, rfl⟩
    intro b member
    rw [mem_singleton.mp member]
    exact edited.size node joins.hnode
  · have nobody : (front ++ [last]).find? (fun _ => false) = none := by simp
    rw [if_neg (fun zero => by simpa using (list.start_eq_zero_iff alive).mp zero),
      list.scanOrLast_eq alive short _ (fun _ => false) (fun _ _ => rfl), nobody]
    obtain ⟨list', edited⟩ := linkAfter_listAt joins list
    exact ⟨_, rfl, list', edited, rfl⟩

variable {back : List Block}

theorem linkBefore_listAt {tmp : Block} (joins : Joins nodes (addrs (front ++ tmp :: back)) node)
    (list : ListAt h h.startFree (front ++ tmp :: back)) :
    let h' := linkBefore node tmp.addr h
    ListAt h' h'.startFree (front ++ ⟨node, h.size node⟩ :: tmp :: back) ∧
      Edited nodes (node :: addrs (front ++ tmp :: back)) h h' ∧
      h' = { h with mem := h'.mem, startFree := h'.startFree } := by
  have chain := list.chain
  simp only [addrs_append, addrs_cons] at joins chain ⊢
  obtain ⟨chain', edited, record⟩ := linkBefore_spec joins chain
  refine ⟨⟨?_, ?_, ?_⟩, edited, ?_⟩
  · rw [record]
    have head := list.head
    cases front with
    | nil => simp
    | cons b front => simpa using head
  · simpa using chain'
  · intro b member
    rcases mem_append.mp member with old | new
    · rw [edited.size b.addr (joins.members (by simp [addr_mem old])),
        list.sizes b (mem_append_left _ old)]
    rcases mem_cons.mp new with rfl | old
    · exact edited.size node joins.hnode
    rw [edited.size b.addr (joins.members (by
        rcases mem_cons.mp old with rfl | later
        · simp
        · simp [addr_mem later])),
      list.sizes b (mem_append_right _ old)]
  · rw [record]

variable {free : List Block}

/-- `add_to_free` inserts the node by size. -/
theorem addToFree_spec (joins : Joins nodes (addrs free) node) (short : free.length < addressSpace)
    (list : ListAt h h.startFree free) :
    ∃ h', addToFree node h = some h' ∧
      ListAt h' h'.startFree (insertBySize ⟨node, h.size node⟩ free) ∧
      Edited nodes (node :: addrs free) h h' ∧
      h' = { h with mem := h'.mem, startFree := h'.startFree } := by
  have alive : 0 ∉ addrs free := fun zero => joins.headers.notNull 0 (joins.members zero) rfl
  unfold addToFree
  rcases eq_nil_or_concat' free with rfl | ⟨front, last, rfl⟩
  · rw [if_pos ((list.start_eq_zero_iff alive).mpr rfl)]
    obtain ⟨chain, edited⟩ := clearLinks_spec (h := h.setStartFree node) joins.headers joins.hnode
    refine ⟨_, rfl, ⟨rfl, chain, ?_⟩, ⟨⟨edited.size, edited.outside⟩, edited.links⟩, rfl⟩
    intro b member
    rw [mem_singleton.mp member]
    exact edited.size node joins.hnode
  rw [if_neg (fun zero => by simpa using (list.start_eq_zero_iff alive).mp zero)]
  have walk := list.scanOrLast_eq alive short (fun tmp => decide (h.size tmp > h.size node))
    (fun b => decide (b.size > h.size node))
    (fun b member => by rw [list.sizes b member])
  simp only [walk, bind_eq_bind, bind_some]
  cases found : (front ++ [last]).find? (fun b => decide (b.size > h.size node)) with
  | none =>
    -- no block is larger: the walk ends on the last one
    have small : ∀ b ∈ front ++ [last], b.size ≤ h.size node := by
      simpa [Nat.not_lt] using find?_eq_none.mp found
    have lastSmall : ¬ h.size last.addr > h.size node := by
      rw [list.sizes last (by simp)]
      exact Nat.not_lt.mpr (small last (by simp))
    rw [insertBySize_of_all_le small]
    simp only [map_none, getD_none, lastSmall, decide_false, Bool.false_eq_true, if_false]
    obtain ⟨list', edited⟩ := linkAfter_listAt joins list
    exact ⟨_, rfl, list', edited, rfl⟩
  | some tmp =>
    obtain ⟨big, lt, back, split, small⟩ := find?_eq_some_iff_append.mp found
    rw [split] at list joins ⊢
    simp only [gt_iff_lt, decide_eq_true_eq] at big
    have tmpBig : h.size tmp.addr > h.size node := by
      rw [list.sizes tmp (by simp)]
      exact big
    rw [insertBySize_of_lt (fun b member => by simpa using small b member) big]
    simp only [map_some, getD_some, tmpBig, decide_true, if_true]
    obtain ⟨list', edited, record⟩ := linkBefore_listAt joins list
    exact ⟨_, rfl, list', edited, record⟩

section

variable (headers : Headers nodes) (members : addrs (front ++ b :: back) ⊆ nodes)
  (nodup : (addrs (front ++ b :: back)).Nodup)

include headers members nodup

/-- The list without the removed node is linked as a list again. -/
theorem unlink_chain (setStart : Heap → Nat → Heap)
    (keepsMem : ∀ l v, (setStart l v).mem = l.mem) (list : ListAt h start (front ++ b :: back)) :
    let h' := unlink setStart b.addr h
    ListAt h' (if h.prev b.addr ≠ 0 then start else h.next b.addr) (front ++ back) ∧
      Edited nodes (addrs (front ++ b :: back)) h h' := by
  have chain := list.chain
  simp only [addrs_append, addrs_cons] at members nodup chain ⊢
  obtain ⟨hnext, hprev, relinked⟩ :=
    unlink_spec keepsMem headers (fun y mem => members mem) nodup chain
  obtain ⟨-, lt, after, -⟩ := chain_append.mp chain
  have rest : ∀ y ∈ addrs front ++ addrs back, y ∈ nodes := by
    intro y mem
    apply members
    rcases mem_append.mp mem with first | second
    · exact mem_append_left _ first
    · exact mem_append_right _ (mem_cons_of_mem _ second)
  refine ⟨⟨?_, ?_, ?_⟩, relinked, fun y mem away => ⟨?_, ?_⟩⟩
  · rw [lt, after, addrs_append]
    rcases eq_nil_or_concat' front with rfl | ⟨some, last, rfl⟩
    · simp
    have alive : last.addr ≠ 0 := headers.notNull _ (members (by simp))
    rw [addrs_append, addrs_cons, addrs_nil, getLastD_concat, if_pos alive, list.head]
    cases some <;> simp
  · rw [addrs_append]
    refine Chain.unlink nodup chain ?_ ?_
    · exact fun y mem => hnext y (rest y mem)
    · exact fun y mem => hprev y (rest y mem)
  · intro c mem
    have old : c ∈ front ++ b :: back := by
      rcases mem_append.mp mem with first | second
      · exact mem_append_left _ first
      · exact mem_append_right _ (mem_cons_of_mem _ second)
    rw [relinked.size c.addr (rest _ (by rw [← addrs_append]; exact addr_mem mem)),
      list.sizes c old]
  · rw [hnext y mem, if_neg]
    exact fun same => away (mem_append_left _ (mem_of_getLast? same))
  · rw [hprev y mem, if_neg]
    exact fun same => away (mem_append_right _ (mem_cons_of_mem _ (mem_of_mem_head? same)))

/-- A free block leaves its list. -/
theorem unlinkFree_spec (list : ListAt h h.startFree (front ++ b :: back)) :
    let h' := unlink Heap.setStartFree b.addr h
    ListAt h' h'.startFree (front ++ back) ∧ Edited nodes (addrs (front ++ b :: back)) h h' ∧
      h' = { h with mem := h'.mem, startFree := h'.startFree } := by
  obtain ⟨list', edited⟩ :=
    unlink_chain headers members nodup Heap.setStartFree (fun _ _ => rfl) list
  have record : (unlink Heap.setStartFree b.addr h).startFree =
      if h.prev b.addr ≠ 0 then h.startFree else h.next b.addr := by
    simp only [unlink]
    split_ifs <;> rfl
  refine ⟨?_, edited, ?_⟩
  · rw [record]
    exact list'
  · simp only [unlink]
    split_ifs <;> rfl

/-- A used block leaves its list. -/
theorem unlinkUsed_spec (list : ListAt h h.startUsed (front ++ b :: back)) :
    let h' := unlink Heap.setStartUsed b.addr h
    ListAt h' h'.startUsed (front ++ back) ∧ Edited nodes (addrs (front ++ b :: back)) h h' ∧
      h' = { h with mem := h'.mem, startUsed := h'.startUsed } := by
  obtain ⟨list', edited⟩ :=
    unlink_chain headers members nodup Heap.setStartUsed (fun _ _ => rfl) list
  have record : (unlink Heap.setStartUsed b.addr h).startUsed =
      if h.prev b.addr ≠ 0 then h.startUsed else h.next b.addr := by
    simp only [unlink]
    split_ifs <;> rfl
  refine ⟨?_, edited, ?_⟩
  · rw [record]
    exact list'
  · simp only [unlink]
    split_ifs <;> rfl

end

/-! ## Moving a node between the lists -/

theorem not_mem_of_nodup_append {xs ys : List Nat} (nodup : (xs ++ ys).Nodup)
    (mem : x ∈ xs) : x ∉ ys := fun ne =>
  (nodup_append.mp nodup).2.2 x mem x ne rfl

theorem addrs_removed_subset (front back : List Block) (b : Block) :
    addrs (front ++ back) ⊆ addrs (front ++ b :: back) := by
  intro x mem
  simp only [addrs_append, addrs_cons, mem_append, mem_cons] at mem ⊢
  exact mem.imp_right .inr

theorem not_mem_addrs_removed (nodup : (addrs (front ++ b :: back)).Nodup) :
    b.addr ∉ addrs (front ++ back) := by
  simp only [addrs_append, addrs_cons] at nodup ⊢
  exact (nodup_middle.mp nodup).notMem

theorem addrs_insertBySize_perm (b : Block) (used free : List Block) :
    (addrs used ++ addrs (insertBySize b free)).Perm (b.addr :: (addrs used ++ addrs free)) :=
  (((insertBySize_perm b free).map Block.addr).append_left _).trans perm_middle

/-- The used and the free list, which have no header in common. -/
structure Lists (nodes : List Nat) (h : Heap) (used free : List Block) : Prop where
  headers : Headers nodes
  inside : addrs used ++ addrs free ⊆ nodes
  nodup : (addrs used ++ addrs free).Nodup
  used : ListAt h h.startUsed used
  free : ListAt h h.startFree free

namespace Lists

variable {used free used' free' front back : List Block}

theorem of_perm {l : List Nat} (headers : Headers nodes) (inside : l ⊆ nodes) (nodup : l.Nodup)
    (perm : (addrs used ++ addrs free).Perm l) (usedList : ListAt h h.startUsed used)
    (freeList : ListAt h h.startFree free) : Lists nodes h used free :=
  ⟨headers, fun _ mem => inside (perm.mem_iff.mp mem), perm.nodup_iff.mpr nodup, usedList, freeList⟩

variable (lists : Lists nodes h used free)

include lists

theorem inUsed : addrs used ⊆ nodes := fun _ mem => lists.inside (mem_append_left _ mem)

theorem inFree : addrs free ⊆ nodes := fun _ mem => lists.inside (mem_append_right _ mem)

theorem nodupUsed : (addrs used).Nodup := (nodup_append.mp lists.nodup).1

theorem nodupFree : (addrs free).Nodup := (nodup_append.mp lists.nodup).2.1

theorem apart (mem : x ∈ addrs used) : x ∉ addrs free :=
  not_mem_of_nodup_append lists.nodup mem

theorem added (hnode : node ∈ nodes) (fresh : node ∉ addrs used ++ addrs free)
    (perm : (addrs used' ++ addrs free').Perm (node :: (addrs used ++ addrs free)))
    (usedList : ListAt h' h'.startUsed used') (freeList : ListAt h' h'.startFree free') :
    Lists nodes h' used' free' :=
  of_perm lists.headers (cons_subset.mpr ⟨hnode, lists.inside⟩)
    (nodup_cons.mpr ⟨fresh, lists.nodup⟩) perm usedList freeList

omit lists

/-- `mark_used` moves a block from the free list to the end of the used one. -/
theorem markUsed_spec (lists : Lists nodes h used (front ++ b :: back))
    (short : used.length < addressSpace) :
    ∃ h', markUsed b.addr h = some h' ∧ Lists nodes h' (used ++ [b]) (front ++ back) ∧
      Relinked nodes h h' ∧
      h' = { h with mem := h'.mem, startUsed := h'.startUsed, startFree := h'.startFree } := by
  have hb : b.addr ∈ nodes := lists.inFree (by simp)
  have rest := addrs_removed_subset front back b
  -- release from the free list
  obtain ⟨freeList1, edited1, record1⟩ :=
    unlinkFree_spec lists.headers lists.inFree lists.nodupFree lists.free
  unfold markUsed
  generalize unlink Heap.setStartFree b.addr h = h1 at *
  have usedList1 : ListAt h1 h1.startUsed used := by
    rw [show h1.startUsed = h.startUsed by rw [record1]]
    exact lists.used.frame edited1 lists.inUsed fun _ => lists.apart
  have size1 : h1.size b.addr = b.size :=
    (edited1.size b.addr hb).trans (lists.free.sizes b (by simp))
  -- append to the used list
  have fresh : b.addr ∉ addrs used := fun member => lists.apart member (by simp)
  obtain ⟨h', ret, usedList', edited2, record2⟩ :=
    addToUsed_spec ⟨lists.headers, lists.inUsed, hb, fresh, lists.nodupUsed⟩ short usedList1
  rw [size1] at usedList'
  have freeList' : ListAt h' h'.startFree (front ++ back) := by
    rw [show h'.startFree = h1.startFree by rw [record2]]
    exact freeList1.frame_cons edited2 (fun x member => lists.inFree (rest member))
      (not_mem_addrs_removed lists.nodupFree) fun x member lt =>
        lists.apart lt (rest member)
  have perm : (addrs (used ++ [b]) ++ addrs (front ++ back)).Perm
      (addrs used ++ addrs (front ++ b :: back)) := by
    simp only [addrs_append, addrs_cons, addrs_nil, append_assoc, singleton_append]
    exact Perm.append_left _ perm_middle.symm
  exact ⟨h', ret, of_perm lists.headers lists.inside lists.nodup perm usedList' freeList',
    edited1.toRelinked.trans edited2.toRelinked, by rw [record2, record1]⟩

/-- `mark_free` moves a block from the used list to its place in the free one. -/
theorem markFree_spec (lists : Lists nodes h (front ++ b :: back) free)
    (short : free.length < addressSpace) :
    ∃ h', markFree b.addr h = some h' ∧ Lists nodes h' (front ++ back) (insertBySize b free) ∧
      h' = { h with mem := h'.mem, startUsed := h'.startUsed, startFree := h'.startFree } := by
  have hb : b.addr ∈ nodes := lists.inUsed (by simp)
  have rest := addrs_removed_subset front back b
  -- release from the used list
  obtain ⟨usedList1, edited1, record1⟩ :=
    unlinkUsed_spec lists.headers lists.inUsed lists.nodupUsed lists.used
  unfold markFree
  generalize unlink Heap.setStartUsed b.addr h = h1 at *
  have freeList1 : ListAt h1 h1.startFree free := by
    rw [show h1.startFree = h.startFree by rw [record1]]
    exact lists.free.frame edited1 lists.inFree fun x member touched =>
      lists.apart touched member
  have size1 : h1.size b.addr = b.size :=
    (edited1.size b.addr hb).trans (lists.used.sizes b (by simp))
  -- insert into the free list
  obtain ⟨h', ret, freeList', edited2, record2⟩ := addToFree_spec
    ⟨lists.headers, lists.inFree, hb, lists.apart (by simp), lists.nodupFree⟩ short freeList1
  rw [size1] at freeList'
  have usedList' : ListAt h' h'.startUsed (front ++ back) := by
    rw [show h'.startUsed = h1.startUsed by rw [record2]]
    exact usedList1.frame_cons edited2 (fun x member => lists.inUsed (rest member))
      (not_mem_addrs_removed lists.nodupUsed) fun x member => lists.apart (rest member)
  have perm : (addrs (front ++ back) ++ addrs (insertBySize b free)).Perm
      (addrs (front ++ b :: back) ++ addrs free) := by
    refine (addrs_insertBySize_perm b (front ++ back) free).trans ?_
    simp only [addrs_append, addrs_cons, append_assoc, cons_append]
    exact perm_middle.symm
  exact ⟨h', ret, of_perm lists.headers lists.inside lists.nodup perm usedList' freeList',
    by rw [record2, record1]⟩

include lists

theorem addToUsed_spec (hnode : node ∈ nodes) (fresh : node ∉ addrs used ++ addrs free)
    (short : used.length < addressSpace) :
    ∃ h', addToUsed node h = some h' ∧ Lists nodes h' (used ++ [⟨node, h.size node⟩]) free ∧
      h' = { h with mem := h'.mem, startUsed := h'.startUsed } := by
  have apart : node ∉ addrs used ∧ node ∉ addrs free := by simpa using fresh
  obtain ⟨h', ret, usedList', edited, record⟩ := Mm.addToUsed_spec
    ⟨lists.headers, lists.inUsed, hnode, apart.1, lists.nodupUsed⟩ short lists.used
  refine ⟨h', ret, lists.added hnode fresh ?_ usedList' ?_, record⟩
  · simp only [addrs_append, addrs_cons, addrs_nil, append_assoc, singleton_append]
    exact perm_middle
  rw [show h'.startFree = h.startFree by rw [record]]
  exact lists.free.frame_cons edited lists.inFree apart.2 fun x member lt =>
    lists.apart lt member

theorem addToFree_spec (hnode : node ∈ nodes) (fresh : node ∉ addrs used ++ addrs free)
    (short : free.length < addressSpace) :
    ∃ h', addToFree node h = some h' ∧ Lists nodes h' used (insertBySize ⟨node, h.size node⟩ free) ∧
      h' = { h with mem := h'.mem, startFree := h'.startFree } := by
  have apart : node ∉ addrs used ∧ node ∉ addrs free := by simpa using fresh
  obtain ⟨h', ret, freeList', edited, record⟩ := Mm.addToFree_spec
    ⟨lists.headers, lists.inFree, hnode, apart.2, lists.nodupFree⟩ short lists.free
  refine ⟨h', ret, lists.added hnode fresh (addrs_insertBySize_perm _ used free) ?_ freeList',
    record⟩
  rw [show h'.startUsed = h.startUsed by rw [record]]
  exact lists.used.frame_cons edited lists.inUsed apart.1 fun x => lists.apart

end Lists

end Yanix.Mm
