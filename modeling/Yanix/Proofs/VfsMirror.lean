/-
Module: Yanix.Proofs.VfsMirror
Purpose: Building the tree hangs the entries of every directory under its node, so that looking up
  a path follows a walk on the disk; the parent of a node is the one made before it in the loop.
-/
import Mathlib.Order.Filter.AtTopBot.Basic
import Mathlib.Order.Filter.Finite
import Mathlib.Order.Lattice.Nat
import Yanix.Foundation.Loops
import Yanix.Fs.Vfs

namespace Yanix.Fs

open Foundation Libk List Option Finmap

variable {fs : DirFs} {kmalloc : Vfs → Nat} {S : Nat → Prop} {entries : List (CString × Nat)}
  {entry : CString × Nat}

section

/-- The entries of an inode, if it is a directory. -/
def children (fs : DirFs) (inode : Nat) : List (CString × Nat) :=
  if fs.typeOf inode = vfsDirectory then (fs.dirOpen inode).getD [] else []

/-- The entry of that name; an entry with inode zero is none. -/
def entryNamed (name : CString) (entry : CString × Nat) : Bool :=
  decide (entry.1 = name ∧ entry.2 ≠ 0)

/-- The inode that the components lead to. -/
def walk (fs : DirFs) : (inode : Nat) → List CString → Option Nat
  | inode, [] => some inode
  | inode, name :: names =>
    match (children fs inode).find? (entryNamed name) with
    | none => none
    | some entry => walk fs entry.2 names

/-- The directories below an inode form a finite tree. -/
inductive FiniteTree (fs : DirFs) : Nat → Prop where
  | intro {inode : Nat}
      (below : ∀ entry ∈ children fs inode, entry.1 ≠ dot → entry.1 ≠ dotDot →
        fs.typeOf entry.2 = vfsDirectory → FiniteTree fs entry.2) : FiniteTree fs inode

/-- What hangs under the node of an entry: nothing under those for the directory itself and its
parent. -/
def subEntries (fs : DirFs) (entry : CString × Nat) : List (CString × Nat) :=
  if entry.1 = dot ∨ entry.1 = dotDot then [] else children fs entry.2

/-- The list of nodes that starts at `p` has a node for every entry, in order, with the entries of
subdirectories below it, all in `S`. -/
inductive Mirrors (fs : DirFs) (vfs : Vfs) (S : Nat → Prop) :
    Nat → List (CString × Nat) → Prop where
  | nil : Mirrors fs vfs S 0 []
  | skip {p : Nat} {rest : List (CString × Nat)} (name : CString) (next : Mirrors fs vfs S p rest) :
      Mirrors fs vfs S p ((name, 0) :: rest)
  | cons {p : Nat} {node : Node} {entry : CString × Nat} {rest : List (CString × Nat)}
      (nonnull : p ≠ 0) (mine : S p) (found : vfs.nodes.lookup p = some node)
      (name : node.name = entry.1) (offset : node.offset = entry.2) (real : entry.2 ≠ 0)
      (below : Mirrors fs vfs S node.dirlist (subEntries fs entry))
      (next : Mirrors fs vfs S node.nextnode rest) : Mirrors fs vfs S p (entry :: rest)

variable {vfs : Vfs} {p : Nat}

theorem Mirrors.mono {vfs' : Vfs} {S' : Nat → Prop} (mirrors : Mirrors fs vfs S p entries)
    (kept : ∀ q node, S q → vfs.nodes.lookup q = some node →
      S' q ∧ vfs'.nodes.lookup q = some node) : Mirrors fs vfs' S' p entries := by
  induction mirrors with
  | nil => exact .nil
  | skip name next ih => exact .skip name ih
  | cons ne mine found name offset real lt next ihBelow ihNext =>
    obtain ⟨mine', found'⟩ := kept _ _ mine found
    exact .cons ne mine' found' name offset real ihBelow ihNext

/-! ## Building -/

/-- `kmalloc` returns addresses that no node has. -/
def FreshNodes (kmalloc : Vfs → Nat) : Prop := ∀ vfs, kmalloc vfs ≠ 0 ∧ kmalloc vfs ∉ vfs.nodes

/-- The pointer that the loop sets next. -/
def linkOf (first : Bool) (node : Node) : Nat := if first then node.dirlist else node.nextnode

/-- New nodes, and one link of node `q` set to `x`; everything else as before. -/
structure Linked (before after : Vfs) (first : Bool) (q x : Nat) : Prop where
  old : ∀ p ∈ before.nodes, p ≠ q → after.nodes.lookup p = before.nodes.lookup p
  link : ∃ node, before.nodes.lookup q = some node ∧
    after.nodes.lookup q = some (setLink first x node)
  root : after.root = before.root

variable {before after : Vfs} {first : Bool} {q x : Nat}

theorem Linked.mem (linked : Linked before after first q x) (mem : p ∈ before.nodes) :
    p ∈ after.nodes := by
  by_cases same : p = q
  · subst same
    obtain ⟨node, -, found⟩ := linked.link
    exact mem_of_lookup_eq_some found
  obtain ⟨node, found⟩ := mem_iff.mp mem
  rw [← linked.old p mem same] at found
  exact mem_of_lookup_eq_some found

variable {node : Node}

theorem setLink_self (null : linkOf first node = 0) : setLink first 0 node = node := by
  cases first <;> cases node <;> simp_all [setLink, linkOf]

theorem Linked.refl (found : vfs.nodes.lookup q = some node) (null : linkOf first node = 0) :
    Linked vfs vfs first q 0 where
  old := fun _ _ _ => rfl
  link := ⟨node, found, by rw [found, setLink_self null]⟩
  root := rfl

/-- What the recursive call does: it hangs the entries of a directory under its node. -/
def Descends (fs : DirFs) (descend : (start startnode : Nat) → Vfs → Option Vfs) (inode : Nat) :
    Prop :=
  ∀ vfs p node, vfs.nodes.lookup p = some node → node.dirlist = 0 →
    ∃ vfs' x, descend inode p vfs = some vfs' ∧ Linked vfs vfs' true p x ∧
      Mirrors fs vfs' (· ∉ vfs.nodes) x (children fs inode)

/-- The entry is that of a directory to descend into. -/
def Subdirectory (fs : DirFs) (entry : CString × Nat) : Prop :=
  fs.typeOf entry.2 = vfsDirectory ∧ entry.1 ≠ dot ∧ entry.1 ≠ dotDot

theorem subEntries_eq_nil (plain : ¬ Subdirectory fs entry) : subEntries fs entry = [] := by
  unfold subEntries children
  split
  · rfl
  next named =>
    rw [if_neg]
    intro directory
    exact plain ⟨directory, fun same => named (.inl same), fun same => named (.inr same)⟩

theorem subEntries_eq_children (named : entry.1 ≠ dot ∧ entry.1 ≠ dotDot) :
    subEntries fs entry = children fs entry.2 :=
  if_neg fun either => either.elim named.1 named.2

theorem Linked.trans {middle : Vfs} {first' : Bool} {y : Nat} (one : Linked before middle first q x)
    (two : Linked middle after first' p y) (new : p ∉ before.nodes) :
    Linked before after first q x where
  old := by
    intro r mem ne
    have notNew : r ≠ p := fun same => new (same ▸ mem)
    rw [two.old r (one.mem mem) notNew, one.old r mem ne]
  link := by
    obtain ⟨node, found, linked⟩ := one.link
    have notNew : q ≠ p := fun same => new (same ▸ mem_of_lookup_eq_some found)
    refine ⟨node, found, ?_⟩
    rw [two.old q (mem_of_lookup_eq_some linked) notNew, linked]
  root := two.root.trans one.root

variable {last : Node}

theorem linked_insert (first : Bool) (node : Node) (found : vfs.nodes.lookup q = some last)
    (unused : p ∉ vfs.nodes) :
    Linked vfs ((vfs.insert p node).insert q (setLink first p last)) first q p ∧
      ((vfs.insert p node).insert q (setLink first p last)).nodes.lookup p = some node := by
  have notNew : p ≠ q := fun same => unused (same ▸ mem_of_lookup_eq_some found)
  refine ⟨⟨?_, ⟨last, found, ?_⟩, rfl⟩, ?_⟩
  · intro r mem ne
    have notFresh : r ≠ p := fun same => unused (same ▸ mem)
    rw [Vfs.lookup_insert, if_neg ne, Vfs.lookup_insert, if_neg notFresh]
  · rw [Vfs.lookup_insert, if_pos rfl]
  · rw [Vfs.lookup_insert, if_neg notNew, Vfs.lookup_insert, if_pos rfl]

theorem isSubdirectory_iff (entry : CString × Nat) :
    (fs.typeOf entry.2 = vfsDirectory ∧ strcmp entry.1.mem dot.bytes ≠ 0 ∧
      strcmp dotDot.mem entry.1.bytes ≠ 0) ↔ Subdirectory fs entry := by
  have isDot := strcmp_eq_zero_iff entry.1.mem_spells dot
  have isDotDot := strcmp_eq_zero_iff dotDot.mem_spells entry.1
  unfold Subdirectory
  rw [Ne, isDot, Ne, isDotDot, ← ne_eq dotDot, ne_comm]

variable {descend : (start startnode : Nat) → Vfs → Option Vfs}

theorem addEntry_spec (fresh : FreshNodes kmalloc) {s : LoopState} (real : entry.2 ≠ 0)
    (descends : Subdirectory fs entry → Descends fs descend entry.2)
    (found : s.vfs.nodes.lookup s.prevnode = some last) :
    ∃ p vfs' node, addEntry fs kmalloc descend s entry = some ⟨false, p, vfs'⟩ ∧
      p ≠ 0 ∧ p ∉ s.vfs.nodes ∧ Linked s.vfs vfs' s.first s.prevnode p ∧
      vfs'.nodes.lookup p = some node ∧ node.name = entry.1 ∧ node.offset = entry.2 ∧
      node.nextnode = 0 ∧
      Mirrors fs vfs' (fun q => q ∉ s.vfs.nodes ∧ q ≠ p) node.dirlist (subEntries fs entry) := by
  obtain ⟨ne, unused⟩ := fresh s.vfs
  generalize address : kmalloc s.vfs = p at ne unused
  have notNew : s.prevnode ≠ p := fun same => unused (same ▸ mem_of_lookup_eq_some found)
  let node : Node := ⟨entry.1, fs.typeOf entry.2, entry.2, s.prevnode, 0, 0⟩
  obtain ⟨hung, placed⟩ := linked_insert s.first node found unused
  generalize ret : (s.vfs.insert p node).insert s.prevnode (setLink s.first p last) = vfs1
    at hung placed
  have modified : (s.vfs.insert p node).modify s.prevnode (setLink s.first p) = some vfs1 := by
    have found' : (s.vfs.insert p node).nodes.lookup s.prevnode = some last := by
      rw [Vfs.lookup_insert, if_neg notNew, found]
    rw [Vfs.modify_eq_insert found', ret]
  -- The subdirectory, if there is one, hangs under the new node.
  have below : ∃ vfs2 x, addEntry fs kmalloc descend s entry = some ⟨false, p, vfs2⟩ ∧
      Linked vfs1 vfs2 true p x ∧ Mirrors fs vfs2 (· ∉ vfs1.nodes) x (subEntries fs entry) := by
    simp only [addEntry, fsMakenode, if_neg real, address]
    rw [show (s.vfs.insert p { node with parent := s.prevnode }).modify s.prevnode
      (setLink s.first p) = some vfs1 from modified]
    simp only [bind, Option.bind]
    by_cases directory : Subdirectory fs entry
    · obtain ⟨vfs2, x, descended, linked, mirrors⟩ := descends directory vfs1 p node placed rfl
      rw [if_pos ((isSubdirectory_iff entry).mpr directory),
        subEntries_eq_children directory.2, descended]
      exact ⟨vfs2, x, rfl, linked, mirrors⟩
    · rw [if_neg fun holds => directory ((isSubdirectory_iff entry).mp holds),
        subEntries_eq_nil directory]
      exact ⟨vfs1, 0, rfl, Linked.refl placed rfl, .nil⟩
  obtain ⟨vfs2, x, added, linked, mirrors⟩ := below
  obtain ⟨_, placed', updated⟩ := linked.link
  obtain rfl := mem_unique placed placed'
  refine ⟨p, vfs2, setLink true x node, added, ne, unused, hung.trans linked unused, updated,
    rfl, rfl, rfl, ?_⟩
  apply mirrors.mono
  intro q node' away found'
  refine ⟨⟨fun mem => away (hung.mem mem), fun same => ?_⟩, found'⟩
  exact away (same ▸ mem_of_lookup_eq_some placed)

theorem addEntries_mirrors (fresh : FreshNodes kmalloc) (rest : List (CString × Nat))
    (descends : ∀ entry ∈ rest, Subdirectory fs entry → Descends fs descend entry.2) (s : LoopState)
    (found : s.vfs.nodes.lookup s.prevnode = some last) (null : linkOf s.first last = 0) :
    ∃ s' x, rest.foldlM (addEntry fs kmalloc descend) s = some s' ∧
      Linked s.vfs s'.vfs s.first s.prevnode x ∧ Mirrors fs s'.vfs (· ∉ s.vfs.nodes) x rest := by
  induction rest generalizing s last with
  | nil => exact ⟨s, 0, rfl, Linked.refl found null, .nil⟩
  | cons entry rest ih =>
    have descendsRest : ∀ entry ∈ rest, Subdirectory fs entry → Descends fs descend entry.2 :=
      fun other mem => descends other (mem_cons_of_mem _ mem)
    by_cases real : entry.2 = 0
    · -- No node is made for this entry.
      obtain ⟨s', x, run, linked, mirrors⟩ := ih descendsRest s found null
      have skipped : addEntry fs kmalloc descend s entry = some s := by
        simp only [addEntry, fsMakenode, if_pos real]
      refine ⟨s', x, ?_, linked, ?_⟩
      · rw [foldlM_cons, skipped]
        exact run
      obtain ⟨name, inode⟩ := entry
      cases real
      exact .skip name mirrors
    · obtain ⟨p, vfs1, node, added, ne, unused, hung, placed, name, offset, next, lt⟩ :=
        addEntry_spec fresh real (descends entry mem_cons_self) found
      obtain ⟨s', x, run, linked, mirrors⟩ := ih descendsRest ⟨false, p, vfs1⟩ placed next
      obtain ⟨_, placed', updated⟩ := linked.link
      obtain rfl := mem_unique placed placed'
      refine ⟨s', p, ?_, hung.trans linked unused, ?_⟩
      · rw [foldlM_cons, added]
        exact run
      apply Mirrors.cons ne unused updated name offset real
      · apply lt.mono
        rintro q node' ⟨away, other⟩ found'
        refine ⟨away, ?_⟩
        rw [linked.old q (mem_of_lookup_eq_some found') other, found']
      · apply mirrors.mono
        intro q node' away found'
        exact ⟨fun mem => away (hung.mem mem), found'⟩

variable {inode : Nat}

theorem loopDirectory_mirrors (fresh : FreshNodes kmalloc) (tree : FiniteTree fs inode)
    (directory : fs.typeOf inode = vfsDirectory) :
    ∀ᶠ fuel in Filter.atTop, Descends fs (loopDirectory fs kmalloc fuel) inode := by
  induction tree with
  | @intro inode below ih =>
    have entries : ∀ᶠ fuel in Filter.atTop, ∀ entry ∈ {entry | entry ∈ children fs inode},
        Subdirectory fs entry → Descends fs (loopDirectory fs kmalloc fuel) entry.2 := by
      rw [Filter.eventually_all_finite (finite_toSet _)]
      intro entry mem
      by_cases sub : Subdirectory fs entry
      · exact (ih entry mem sub.2.1 sub.2.2 sub.1 sub.1).mono fun _ descends _ => descends
      · exact Filter.Eventually.of_forall fun _ yes => absurd yes sub
    obtain ⟨lt, descends⟩ := Filter.eventually_atTop.mp entries
    refine Filter.eventually_atTop.mpr ⟨lt + 1, ?_⟩
    intro fuel le vfs p node found null
    cases fuel with
    | zero => exact absurd le (Nat.not_succ_le_zero lt)
    | succ fuel =>
      have listed : children fs inode = (fs.dirOpen inode).getD [] := if_pos directory
      have descendsHere := descends fuel (Nat.le_of_succ_le_succ le)
      rw [listed] at descendsHere ⊢
      unfold loopDirectory
      cases opened : fs.dirOpen inode with
      | none => exact ⟨vfs, 0, rfl, Linked.refl found null, .nil⟩
      | some entries =>
        rw [opened] at descendsHere
        obtain ⟨s', x, run, linked, mirrors⟩ := addEntries_mirrors fresh entries
          descendsHere ⟨true, p, vfs⟩ found null
        refine ⟨s'.vfs, x, ?_, linked, mirrors⟩
        simp only [run, map_some]

/-! ## Looking up -/

/-- The answer to a lookup of one component: the node of the entry with that name. -/
def Answers (fs : DirFs) (vfs : Vfs) (q : Nat) : Option (CString × Nat) → Prop
  | none => q = 0
  | some entry => ∃ S node, q ≠ 0 ∧ vfs.nodes.lookup q = some node ∧ node.offset = entry.2 ∧
      Mirrors fs vfs S node.dirlist (subEntries fs entry)

variable {name : CString}

theorem findInList_answers (mirrors : Mirrors fs vfs S p entries) {buffer : Bytes}
    (spells : Spells buffer name.bytes) :
    ∃ q, Answers fs vfs q (entries.find? (entryNamed name)) ∧
      ∀ fuel, entries.length < fuel → findInList vfs buffer fuel p = some q := by
  induction entries generalizing p with
  | nil =>
    cases mirrors
    refine ⟨0, rfl, ?_⟩
    intro fuel le
    cases fuel with
    | zero => exact absurd le (Nat.not_lt_zero _)
    | succ fuel => rfl
  | cons entry rest ih =>
    cases mirrors with
    | skip skipped next =>
      obtain ⟨q, answers, run⟩ := ih next
      rw [find?_cons_of_neg (by simp [entryNamed])]
      exact ⟨q, answers, fun fuel le => run fuel (Nat.lt_of_succ_lt le)⟩
    | @cons _ node _ _ ne mine found isName offset real lt next =>
      have compared := strcmp_eq_zero_iff spells entry.1
      have round (fuel : Nat) : findInList vfs buffer (fuel + 1) p =
          if strcmp buffer entry.1.bytes = 0 then some p
          else findInList vfs buffer fuel node.nextnode := by
        rw [findInList, if_neg ne, found, ← isName]
        rfl
      by_cases same : name = entry.1
      · rw [find?_cons_of_pos (by simp [entryNamed, same, real])]
        refine ⟨p, ⟨S, node, ne, found, offset, lt⟩, ?_⟩
        intro fuel le
        cases fuel with
        | zero => exact absurd le (Nat.not_lt_zero _)
        | succ fuel => rw [round, if_pos (compared.mpr same)]
      rw [find?_cons_of_neg (by simp [entryNamed, Ne.symm same])]
      obtain ⟨q, answers, run⟩ := ih next
      refine ⟨q, answers, ?_⟩
      intro fuel le
      cases fuel with
      | zero => exact absurd le (Nat.not_lt_zero _)
      | succ fuel =>
        rw [round, if_neg fun zero => same (compared.mp zero)]
        exact run fuel (Nat.lt_of_succ_lt_succ le)

/-- A component that names an entry: neither the directory itself nor its parent. -/
structure Component (name : CString) : Prop extends PathName name where
  named : name ≠ dot ∧ name ≠ dotDot

/-- The node of an inode, or none. -/
def FoundNode (vfs : Vfs) (q : Nat) : Option Nat → Prop
  | none => q = 0
  | some inode => ∃ node, q ≠ 0 ∧ vfs.nodes.lookup q = some node ∧ node.offset = inode

theorem vfsPathFind_answers (found : vfs.nodes.lookup p = some node)
    (mirrors : Mirrors fs vfs S node.dirlist entries) (name : CString) :
    ∃ q, Answers fs vfs q (entries.find? (entryNamed name)) ∧ ∀ᶠ fuel in Filter.atTop,
      vfsPathFind vfs fuel p name.mem = some q := by
  obtain ⟨q, answers, run⟩ := findInList_answers mirrors name.mem_spells
  refine ⟨q, answers, ?_⟩
  filter_upwards [Filter.eventually_gt_atTop entries.length] with fuel le
  rw [vfsPathFind, found]
  exact run fuel le

theorem subEntries_of_find (component : Component name)
    (found : entries.find? (entryNamed name) = some entry) :
    subEntries fs entry = children fs entry.2 := by
  have named := find?_some found
  simp only [entryNamed, decide_eq_true_eq] at named
  apply subEntries_eq_children
  rw [named.1]
  exact component.named

theorem findNames_walk (names : List CString) (components : ∀ name ∈ names, Component name)
    (ne : p ≠ 0) (found : vfs.nodes.lookup p = some node) (offset : node.offset = inode)
    (mirrors : Mirrors fs vfs S node.dirlist (children fs inode)) :
    ∃ q, FoundNode vfs q (walk fs inode names) ∧ ∀ᶠ fuel in Filter.atTop,
      findNames vfs fuel names p = some q := by
  induction names generalizing S p inode node with
  | nil => exact ⟨p, ⟨node, ne, found, offset⟩, Filter.Eventually.of_forall fun _ => rfl⟩
  | cons name names ih =>
    have component := components name mem_cons_self
    obtain ⟨q, answers, run⟩ := vfsPathFind_answers found mirrors name
    unfold walk
    cases entry : (children fs inode).find? (entryNamed name) with
    | none =>
      rw [entry] at answers
      have missing : q = 0 := answers
      refine ⟨0, rfl, ?_⟩
      filter_upwards [run] with fuel answered
      rw [findNames, answered, bind_some, if_pos missing]
    | some entry' =>
      rw [entry] at answers
      obtain ⟨S', node', ne', found', offset', lt⟩ := answers
      rw [subEntries_of_find component entry] at lt
      obtain ⟨r, isNode, runRest⟩ :=
        ih (fun other mem => components other (mem_cons_of_mem name mem)) ne' found' offset' lt
      refine ⟨r, isNode, ?_⟩
      filter_upwards [run, runRest] with fuel answered answeredRest
      rw [findNames, answered, bind_some, if_neg ne']
      exact answeredRest

/-- Building the nodes from the root of the disk and then looking up a path gives the node of the
inode that the components lead to, and none if they lead nowhere. -/
theorem findPath_mirrors (fresh : FreshNodes kmalloc) {root : Nat} (real : root ≠ 0)
    (directory : fs.typeOf root = vfsDirectory) (tree : FiniteTree fs root) (vfs0 : Vfs) :
    ∃ enough, ∀ fuel, enough ≤ fuel →
      ∃ vfs, loopOverFilesystem fs kmalloc fuel root true 0 vfs0 = some vfs ∧
        ∀ names, names ≠ [] → (∀ name ∈ names, Component name) →
          ∃ p, FoundNode vfs p (walk fs root names) ∧ ∃ enough, ∀ fuel depth cwd, enough ≤ fuel →
              vfsFindPath vfs cwd fuel (depth + 1) (pathOf names) = some p := by
  obtain ⟨enough, descends⟩ := Filter.eventually_atTop.mp
    (loopDirectory_mirrors fresh tree directory)
  refine ⟨enough, ?_⟩
  intro fuel le
  obtain ⟨ne, -⟩ := fresh vfs0
  let node : Node := ⟨⟨[], by decide⟩, fs.typeOf root, root, kmalloc vfs0, 0, 0⟩
  let start : Vfs := { vfs0.insert (kmalloc vfs0) node with root := kmalloc vfs0 }
  have placed : start.nodes.lookup (kmalloc vfs0) = some node := Finmap.lookup_insert _
  obtain ⟨vfs, x, run, linked, mirrors⟩ := descends fuel le start (kmalloc vfs0) node placed rfl
  obtain ⟨_, placed', updated⟩ := linked.link
  obtain rfl := mem_unique placed placed'
  refine ⟨vfs, ?_, ?_⟩
  · rw [loopOverFilesystem, if_pos rfl, fsMakenode, if_neg real]
    exact run
  intro names nonempty components
  have isRoot : vfs.root = kmalloc vfs0 := linked.root
  obtain ⟨p, isNode, finds⟩ := findNames_walk names components ne updated rfl mirrors
  obtain ⟨lt, found⟩ := Filter.eventually_atTop.mp finds
  refine ⟨p, isNode, lt, ?_⟩
  intro fuel' depth cwd le'
  rw [vfsFindPath_absolute vfs cwd fuel' depth nonempty fun other mem =>
    (components other mem).toPathName, isRoot, if_neg ne]
  exact found fuel' le'

/-- A disk with `/a/c` and `/b`: every directory lists itself and its parent too. -/
def smallDisk : DirFs where
  typeOf inode := if inode = 2 ∨ inode = 3 then vfsDirectory else 1
  dirOpen inode :=
    if inode = 2 then some [(dot, 2), (dotDot, 2), (⟨[97], by decide⟩, 3), (⟨[98], by decide⟩, 4)]
    else if inode = 3 then some [(dot, 3), (dotDot, 2), (⟨[99], by decide⟩, 5)]
    else none

/-- The first address above all nodes. -/
def kmallocAbove (vfs : Vfs) : Nat := vfs.nodes.keys.sup id + 1

theorem kmallocAbove_fresh : FreshNodes kmallocAbove := by
  intro vfs
  refine ⟨Nat.succ_ne_zero _, ?_⟩
  intro mem
  have le : kmallocAbove vfs ≤ vfs.nodes.keys.sup id := Finset.le_sup (f := id) (mem_keys.mpr mem)
  exact absurd le (Nat.not_succ_le_self _)

theorem smallDisk_finite : FiniteTree smallDisk 2 := by
  have inner : FiniteTree smallDisk 3 := by
    refine .intro ?_
    simp [children, smallDisk, vfsDirectory, dot, dotDot]
  refine .intro ?_
  have entries : children smallDisk 2 =
      [(dot, 2), (dotDot, 2), (⟨[97], by decide⟩, 3), (⟨[98], by decide⟩, 4)] := rfl
  have file : smallDisk.typeOf 4 ≠ vfsDirectory := by decide
  rw [entries]
  simp [inner, file]

theorem findPath_smallDisk : ∃ fuel vfs p node,
    loopOverFilesystem smallDisk kmallocAbove fuel 2 true 0 ⟨∅, 0⟩ = some vfs ∧
      vfs.nodes.lookup p = some node ∧ node.offset = 5 ∧
      ∃ fuel, vfsFindPath vfs [] fuel 1 [47, 97, 47, 99] = some p := by
  obtain ⟨le, build⟩ := findPath_mirrors kmallocAbove_fresh (by decide : 2 ≠ 0)
    (by decide) smallDisk_finite ⟨∅, 0⟩
  obtain ⟨vfs, built, lookups⟩ := build le le_rfl
  obtain ⟨p, ⟨node, -, found, offset⟩, lt, lookup⟩ :=
    lookups [⟨[97], by decide⟩, ⟨[99], by decide⟩] (by decide) (by
      intro name mem
      simp only [mem_cons, not_mem_nil, or_false] at mem
      rcases mem with rfl | rfl <;> exact ⟨⟨by decide, by decide⟩, by decide⟩)
  exact ⟨le, vfs, p, node, built, found, offset, lt, lookup lt 0 [] le_rfl⟩

end

variable {old vfs vfs' : Vfs}

/-- One of the two pointers of the node that make up the tree. -/
def LinksTo (node : Node) (x : Nat) : Prop := node.dirlist = x ∨ node.nextnode = x

/-- The nodes of `old` are still there, and the links of the other nodes lead to other
nodes whose parent pointers lead back. -/
structure Backed (old vfs : Vfs) : Prop where
  kept : ∀ p ∈ old.nodes, p ∈ vfs.nodes
  back : ∀ q node x, q ∉ old.nodes → vfs.nodes.lookup q = some node → LinksTo node x → x ≠ 0 →
    x ≠ q ∧ ∃ other, vfs.nodes.lookup x = some other ∧ other.parent = q

theorem Backed.hang (backed : Backed old vfs) {p q : Nat} {last : Node} (first : Bool)
    (node : Node) (found : vfs.nodes.lookup q = some last) (unused : p ∉ vfs.nodes)
    (parent : node.parent = q)
    (bare : node.dirlist = 0 ∧ node.nextnode = 0) :
    Backed old ((vfs.insert p node).insert q (setLink first p last)) := by
  have notNew : p ≠ q := fun same => unused (same ▸ mem_of_lookup_eq_some found)
  have sameParent : (setLink first p last).parent = last.parent := by cases first <;> rfl
  -- The nodes of before have the parents they had.
  have parents : ∀ x other, vfs.nodes.lookup x = some other →
      ∃ other', ((vfs.insert p node).insert q (setLink first p last)).nodes.lookup x = some other' ∧
        other'.parent = other.parent := by
    intro x other there
    have present : x ≠ p := fun same => unused (same ▸ mem_of_lookup_eq_some there)
    rw [Vfs.lookup_insert, Vfs.lookup_insert, if_neg present]
    split
    · next same =>
        subst same
        obtain rfl := mem_unique found there
        exact ⟨_, rfl, sameParent⟩
    · exact ⟨other, there, rfl⟩
  refine ⟨?_, ?_⟩
  · intro x mem
    obtain ⟨other, there⟩ := mem_iff.mp (backed.kept x mem)
    obtain ⟨other', there', -⟩ := parents x other there
    exact mem_of_lookup_eq_some there'
  · intro r fields x new there link ne
    have earlier : ∀ fields', vfs.nodes.lookup r = some fields' → LinksTo fields' x →
        x ≠ r ∧ ∃ other, ((vfs.insert p node).insert q (setLink first p last)).nodes.lookup x =
          some other ∧ other.parent = r := by
      intro fields' lt link'
      obtain ⟨different, other, target, back⟩ := backed.back r fields' x new lt link' ne
      obtain ⟨other', target', same⟩ := parents x other target
      exact ⟨different, other', target', same.trans back⟩
    rw [Vfs.lookup_insert] at there
    split at there
    · next isLast =>
        subst isLast
        cases there
        by_cases target : x = p
        · subst target
          refine ⟨notNew, node, ?_, parent⟩
          rw [Vfs.lookup_insert, if_neg notNew, Vfs.lookup_insert, if_pos rfl]
        apply earlier last found
        cases first with
        | true => exact link.imp (fun hung => absurd hung.symm target) id
        | false => exact link.imp id fun hung => absurd hung.symm target
    · rw [Vfs.lookup_insert] at there
      split at there
      · cases there
        rcases link with dirlist | nextnode
        · exact absurd (dirlist.symm.trans bare.1) ne
        · exact absurd (nextnode.symm.trans bare.2) ne
      · exact earlier fields there link

/-- The links stay backed, and no node disappears. -/
structure Continues (old vfs vfs' : Vfs) : Prop where
  backed : Backed old vfs'
  grows : ∀ q ∈ vfs.nodes, q ∈ vfs'.nodes

/-- What a call of `loop_over_filesystem` below the root keeps. -/
def KeepsBacked (old : Vfs) (descend : (start startnode : Nat) → Vfs → Option Vfs) : Prop :=
  ∀ start p vfs vfs', p ∉ old.nodes → p ∈ vfs.nodes → Backed old vfs →
    descend start p vfs = some vfs' → Continues old vfs vfs'

/-- The loop appends to a new node. -/
structure Looping (old vfs : Vfs) (s : LoopState) : Prop where
  continues : Continues old vfs s.vfs
  new : s.prevnode ∉ old.nodes
  here : s.prevnode ∈ s.vfs.nodes

theorem addEntry_looping (fresh : FreshNodes kmalloc)
    {descend : (start startnode : Nat) → Vfs → Option Vfs} (keeps : KeepsBacked old descend)
    {s s' : LoopState} (looping : Looping old vfs s)
    (added : addEntry fs kmalloc descend s entry = some s') : Looping old vfs s' := by
  obtain ⟨-, unused⟩ := fresh s.vfs
  have backed := looping.continues.backed
  obtain ⟨last, found⟩ := mem_iff.mp looping.here
  unfold addEntry at added
  split at added
  · cases added
    exact looping
  next node made =>
    have bare : node.dirlist = 0 ∧ node.nextnode = 0 := by
      unfold fsMakenode at made
      split at made
      · cases made
      · cases made
        exact ⟨rfl, rfl⟩
    generalize kmalloc s.vfs = p at added unused
    generalize entered : { node with parent := s.prevnode } = fields at added
    have newNode : p ∉ old.nodes := fun mem => unused (backed.kept p mem)
    have notNew : s.prevnode ≠ p := fun same => unused (same ▸ looping.here)
    have hung := backed.hang s.first fields found unused (by rw [← entered]) (by rwa [← entered])
    have found' : (s.vfs.insert p fields).nodes.lookup s.prevnode = some last := by
      rw [Vfs.lookup_insert, if_neg notNew, found]
    have grows : ∀ q ∈ s.vfs.nodes,
        q ∈ ((s.vfs.insert p fields).insert s.prevnode (setLink s.first p last)).nodes :=
      fun q mem => Finmap.mem_insert.mpr (.inr (Finmap.mem_insert.mpr (.inr mem)))
    have placed : p ∈ ((s.vfs.insert p fields).insert s.prevnode (setLink s.first p last)).nodes :=
      Finmap.mem_insert.mpr (.inr (Finmap.mem_insert.mpr (.inl rfl)))
    dsimp only at added
    rw [Vfs.modify_eq_insert found'] at added
    generalize (s.vfs.insert p fields).insert s.prevnode (setLink s.first p last) = vfs1
      at added hung grows placed
    simp only [bind, Option.bind] at added
    split at added
    · split at added
      · cases added
      · next vfs2 descended =>
          cases added
          have kept := keeps _ _ _ _ newNode placed hung descended
          exact ⟨⟨kept.backed, fun q mem =>
            kept.grows q (grows q (looping.continues.grows q mem))⟩, newNode,
            kept.grows p placed⟩
    · cases added
      exact ⟨⟨hung, fun q mem => grows q (looping.continues.grows q mem)⟩, newNode, placed⟩

theorem loopDirectory_backed (fresh : FreshNodes kmalloc) (fuel : Nat) :
    KeepsBacked old (loopDirectory fs kmalloc fuel) := by
  induction fuel with
  | zero =>
    intro start p vfs vfs' _ _ _ run
    cases run
  | succ fuel ih =>
    intro start p vfs vfs' new mem backed run
    unfold loopDirectory at run
    split at run
    · cases run
      exact ⟨backed, fun q present => present⟩
    obtain ⟨s', rounds, rfl⟩ := map_eq_some_iff.mp run
    have start : Looping old vfs ⟨true, p, vfs⟩ := ⟨⟨backed, fun q present => present⟩, new, mem⟩
    exact (foldlM_rounds (fun _ s => Looping old vfs s)
      (fun _ _ _ _ looping added => addEntry_looping fresh ih looping added) _ _ _ start
      rounds).continues

/-- The list of nodes that starts at `start` contains `p`. -/
inductive InChain (vfs : Vfs) (p : Nat) : (start : Nat) → Prop where
  | here (nonnull : p ≠ 0) : InChain vfs p p
  | next {q : Nat} {node : Node} (nonnull : q ≠ 0) (found : vfs.nodes.lookup q = some node)
      (later : InChain vfs p node.nextnode) : InChain vfs p q

/-- The directory list of `d` contains `p`. -/
def Contains (vfs : Vfs) (d p : Nat) : Prop :=
  ∃ node, vfs.nodes.lookup d = some node ∧ InChain vfs p node.dirlist

/-- The nodes that the pointers lead to from the root on. -/
inductive NodeReachable (vfs : Vfs) : Nat → Prop where
  | root : NodeReachable vfs vfs.root
  | entry {d p : Nat} (above : NodeReachable vfs d) (inside : Contains vfs d p) :
      NodeReachable vfs p

/-- The parent of every node is the directory that lists it. -/
def ParentsRight (vfs : Vfs) : Prop := ∀ d p, NodeReachable vfs d → Contains vfs d p →
    ∃ node, vfs.nodes.lookup p = some node ∧ node.parent = d

/-! ## Directories with one entry -/

/-- The directories on the disk that the recursion goes into. -/
inductive Visited (fs : DirFs) (root : Nat) : Nat → Prop where
  | root : Visited fs root root
  | sub {inode : Nat} {entry : CString × Nat} (above : Visited fs root inode)
      (member : entry ∈ children fs inode) (real : entry.2 ≠ 0) (sub : Subdirectory fs entry) :
      Visited fs root entry.2

/-- The entries that get a node. -/
def liveEntries (entries : List (CString × Nat)) : List (CString × Nat) :=
  entries.filter fun entry => entry.2 ≠ 0

/-- No directory has two entries. -/
def SingleEntries (fs : DirFs) (root : Nat) : Prop :=
  ∀ inode, Visited fs root inode → (liveEntries (children fs inode)).length ≤ 1

@[simp] theorem liveEntries_skip (name : CString) (rest : List (CString × Nat)) :
    liveEntries ((name, 0) :: rest) = liveEntries rest := by
  simp [liveEntries]

theorem liveEntries_cons (real : entry.2 ≠ 0) (rest : List (CString × Nat)) :
    liveEntries (entry :: rest) = entry :: liveEntries rest := by
  simp [liveEntries, real]

section

variable {p q : Nat} (mirrors : Mirrors fs vfs S p entries)

include mirrors

theorem Mirrors.null_iff : p = 0 ↔ liveEntries entries = [] := by
  induction mirrors with
  | nil => simp [liveEntries]
  | skip name next ih => rw [liveEntries_skip, ih]
  | cons ne mine found name offset real lt next ihBelow ihNext =>
    rw [liveEntries_cons real]
    simp [ne]

theorem Mirrors.second_iff (ne : p ≠ 0) : ∃ node, vfs.nodes.lookup p = some node ∧
      (node.nextnode ≠ 0 ↔ 1 < (liveEntries entries).length) := by
  induction mirrors with
  | nil => exact absurd rfl ne
  | skip name next ih =>
    exact ih ne
  | cons ne mine found name offset real lt next ihBelow ihNext =>
    refine ⟨_, found, ?_⟩
    rw [liveEntries_cons real, length_cons, Ne, next.null_iff, ← length_eq_zero_iff]
    omega

theorem Mirrors.entry_of_inChain (inChain : InChain vfs q p) :
    ∃ entry ∈ entries, entry.2 ≠ 0 ∧ S q ∧ ∃ node, vfs.nodes.lookup q = some node ∧
      Mirrors fs vfs S node.dirlist (subEntries fs entry) := by
  induction mirrors with
  | nil =>
    cases inChain with
    | here ne => exact absurd rfl ne
    | next ne => exact absurd rfl ne
  | skip name next ih =>
    obtain ⟨entry, mem, rest⟩ := ih inChain
    exact ⟨entry, mem_cons_of_mem _ mem, rest⟩
  | @cons p node entry rest ne mine found name offset real lt next ihBelow ihNext =>
    cases inChain with
    | here => exact ⟨entry, mem_cons_self, real, mine, node, found, lt⟩
    | next ne found' later =>
      obtain rfl := mem_unique found found'
      obtain ⟨other, mem, rest⟩ := ihNext later
      exact ⟨other, mem_cons_of_mem _ mem, rest⟩

theorem Mirrors.inChain_of_entry (mem : entry ∈ entries) (real : entry.2 ≠ 0) :
    ∃ q node, InChain vfs q p ∧ vfs.nodes.lookup q = some node ∧
      Mirrors fs vfs S node.dirlist (subEntries fs entry) := by
  induction mirrors with
  | nil => cases mem
  | skip name next ih =>
    rcases mem_cons.mp mem with rfl | later
    · exact absurd rfl real
    · exact ih later
  | @cons p node other rest ne mine found name offset isReal lt next ihBelow ihNext =>
    rcases mem_cons.mp mem with rfl | later
    · exact ⟨p, node, .here ne, found, lt⟩
    · obtain ⟨q, fields, inChain, there, hangs⟩ := ihNext later
      exact ⟨q, fields, .next ne found inChain, there, hangs⟩

end

section

variable {root : Nat} {rootNode : Node}

theorem Visited.node (mirrors : Mirrors fs vfs S rootNode.dirlist (children fs root))
    (found : vfs.nodes.lookup vfs.root = some rootNode) {inode : Nat}
    (visited : Visited fs root inode) :
    ∃ d node, NodeReachable vfs d ∧ (d = vfs.root ∨ S d) ∧ vfs.nodes.lookup d = some node ∧
      Mirrors fs vfs S node.dirlist (children fs inode) := by
  induction visited with
  | root => exact ⟨vfs.root, rootNode, .root, .inl rfl, found, mirrors⟩
  | @sub inode entry above mem real sub ih =>
    obtain ⟨d, node, reachable, -, there, lists⟩ := ih
    obtain ⟨q, fields, inChain, there', lt⟩ := lists.inChain_of_entry mem real
    obtain ⟨-, -, -, mine, -⟩ := lists.entry_of_inChain inChain
    rw [subEntries_eq_children sub.2] at lt
    exact ⟨q, fields, .entry reachable ⟨node, there, inChain⟩, .inr mine, there', lt⟩

theorem NodeReachable.lists (mirrors : Mirrors fs vfs S rootNode.dirlist (children fs root))
    (found : vfs.nodes.lookup vfs.root = some rootNode) {d : Nat}
    (reachable : NodeReachable vfs d) :
    ∃ node entries, (d = vfs.root ∨ S d) ∧ vfs.nodes.lookup d = some node ∧
      Mirrors fs vfs S node.dirlist entries ∧
      (entries = [] ∨ ∃ inode, Visited fs root inode ∧ entries = children fs inode) := by
  induction reachable with
  | root => exact ⟨rootNode, _, .inl rfl, found, mirrors, .inr ⟨root, .root, rfl⟩⟩
  | entry above lt ih =>
    obtain ⟨node, entries, -, there, lists, origin⟩ := ih
    obtain ⟨node', there', inChain⟩ := lt
    obtain rfl := mem_unique there there'
    obtain ⟨entry, mem, real, mine, fields, there'', below⟩ := lists.entry_of_inChain inChain
    refine ⟨fields, _, .inr mine, there'', below, ?_⟩
    by_cases sub : Subdirectory fs entry
    · rcases origin with rfl | ⟨inode, visited, rfl⟩
      · cases mem
      · exact .inr ⟨entry.2, .sub visited mem real sub, subEntries_eq_children sub.2⟩
    · exact .inl (subEntries_eq_nil sub)

/-- In a tree that mirrors the disk and whose links are backed, the parents are right
exactly if no directory has two entries. -/
theorem parentsRight_iff (backed : Backed old vfs) (rootNew : vfs.root ∉ old.nodes)
    (newNodes : ∀ q, S q → q ∉ old.nodes)
    (mirrors : Mirrors fs vfs S rootNode.dirlist (children fs root))
    (found : vfs.nodes.lookup vfs.root = some rootNode) :
    ParentsRight vfs ↔ SingleEntries fs root := by
  have isNew : ∀ d, d = vfs.root ∨ S d → d ∉ old.nodes := by
    rintro d (rfl | mine)
    · exact rootNew
    · exact newNodes d mine
  constructor
  · intro right inode visited
    by_contra several
    obtain ⟨d, node, reachable, origin, mem, lists⟩ := visited.node mirrors found
    have ne : node.dirlist ≠ 0 := by
      rw [Ne, lists.null_iff, ← length_eq_zero_iff]
      omega
    obtain ⟨first, firstThere, second⟩ := lists.second_iff ne
    -- the second node has the first one as its parent, which is not the directory
    have nextNonnull := second.mpr (not_le.mp several)
    have inside : Contains vfs d first.nextnode :=
      ⟨node, mem, .next ne firstThere (.here nextNonnull)⟩
    obtain ⟨-, -, -, mine, -⟩ := lists.entry_of_inChain (.here ne)
    obtain ⟨-, other, otherThere, parent⟩ := backed.back node.dirlist first first.nextnode
      (newNodes _ mine) firstThere (.inr rfl) nextNonnull
    obtain ⟨other', otherThere', parent'⟩ := right d _ reachable inside
    obtain rfl := mem_unique otherThere otherThere'
    obtain ⟨different, -⟩ := backed.back d node node.dirlist (isNew d origin) mem (.inl rfl) ne
    exact different (parent.symm.trans parent')
  · intro single d p reachable inside
    obtain ⟨node, entries, origin, mem, lists, listed⟩ := reachable.lists mirrors found
    obtain ⟨node', mem', inChain⟩ := inside
    obtain rfl := mem_unique mem mem'
    have few : (liveEntries entries).length ≤ 1 := by
      rcases listed with rfl | ⟨inode, visited, rfl⟩
      · exact Nat.zero_le 1
      · exact single inode visited
    -- there is one node in the list
    have only : ∃ ne : p ≠ 0, node.dirlist = p := by
      cases inChain with
      | here ne => exact ⟨ne, rfl⟩
      | @next _ first ne firstThere later =>
        obtain ⟨first', firstThere', second⟩ := lists.second_iff ne
        obtain rfl := mem_unique firstThere' firstThere
        have last : first'.nextnode = 0 := by
          by_contra more
          exact absurd (second.mp more) (not_lt.mpr few)
        rw [last] at later
        cases later with
        | here ne' => exact absurd rfl ne'
        | next ne' => exact absurd rfl ne'
    obtain ⟨ne, first⟩ := only
    exact (backed.back d node p (isNew d origin) mem (.inl first) ne).2

end

/-- Building the tree of any finite tree of directories ends, and the parents of its nodes
are right exactly if no directory that was visited has two entries. -/
theorem parents_right_iff (fresh : FreshNodes kmalloc) {root : Nat} (real : root ≠ 0)
    (directory : fs.typeOf root = vfsDirectory) (tree : FiniteTree fs root) (vfs0 : Vfs) :
    ∃ enough, ∀ fuel, enough ≤ fuel →
      ∃ vfs, loopOverFilesystem fs kmalloc fuel root true 0 vfs0 = some vfs ∧
        (ParentsRight vfs ↔ SingleEntries fs root) := by
  obtain ⟨enough, descends⟩ := Filter.eventually_atTop.mp
    (loopDirectory_mirrors fresh tree directory)
  refine ⟨enough, ?_⟩
  intro fuel le
  obtain ⟨ne, unused⟩ := fresh vfs0
  let node : Node := ⟨⟨[], by decide⟩, fs.typeOf root, root, kmalloc vfs0, 0, 0⟩
  let start : Vfs := { vfs0.insert (kmalloc vfs0) node with root := kmalloc vfs0 }
  have placed : start.nodes.lookup (kmalloc vfs0) = some node := Finmap.lookup_insert _
  have backed : Backed vfs0 start := by
    refine ⟨fun p mem => Finmap.mem_insert.mpr (.inr mem), ?_⟩
    intro q fields x new there link target
    rw [Vfs.lookup_insert] at there
    split at there
    · cases there
      exact absurd (link.elim Eq.symm Eq.symm) target
    · exact absurd (mem_of_lookup_eq_some there) new
  obtain ⟨vfs, x, run, linked, mirrors⟩ := descends fuel le start (kmalloc vfs0) node placed rfl
  obtain ⟨_, placed', updated⟩ := linked.link
  have continues := loopDirectory_backed fresh fuel _ _ _ _ unused
    (mem_of_lookup_eq_some placed) backed run
  refine ⟨vfs, ?_, ?_⟩
  · rw [loopOverFilesystem, if_pos rfl, fsMakenode, if_neg real]
    exact run
  have isRoot : vfs.root = kmalloc vfs0 := linked.root
  apply parentsRight_iff continues.backed (by rwa [isRoot]) _ mirrors (by rw [isRoot, updated])
  intro q away mem
  exact away (Finmap.mem_insert.mpr (.inr mem))

theorem innerName_nonzero : (0 : UInt8) ∉ [97] := by decide

theorem leafName_nonzero : (0 : UInt8) ∉ [98] := by decide

/-- A disk with `/a/b` only, whose directories do not list themselves. -/
def chainDisk : DirFs where
  typeOf inode := if inode = 2 ∨ inode = 3 then vfsDirectory else 1
  dirOpen inode := if inode = 2 then some [(⟨[97], innerName_nonzero⟩, 3)]
    else if inode = 3 then some [(⟨[98], leafName_nonzero⟩, 4)]
    else none

theorem chainDisk_finite : FiniteTree chainDisk 2 := by
  have inner : FiniteTree chainDisk 3 := by
    refine .intro ?_
    simp [children, chainDisk, vfsDirectory]
  refine .intro ?_
  have entries : children chainDisk 2 = [(⟨[97], innerName_nonzero⟩, 3)] := rfl
  rw [entries]
  simp [inner]

theorem chainDisk_single : SingleEntries chainDisk 2 := by
  intro inode _
  unfold children chainDisk
  dsimp only
  split_ifs <;> decide

theorem parents_right_chainDisk : ∃ fuel vfs,
    loopOverFilesystem chainDisk kmallocAbove fuel 2 true 0 ⟨∅, 0⟩ = some vfs ∧
      ParentsRight vfs := by
  obtain ⟨le, build⟩ := parents_right_iff kmallocAbove_fresh (by decide : 2 ≠ 0) (by decide)
    chainDisk_finite ⟨∅, 0⟩
  obtain ⟨vfs, built, right⟩ := build le le_rfl
  exact ⟨le, vfs, built, right.mpr chainDisk_single⟩

/-- The root lists `.` at address 2 and then `..` at address 3.  The parent of the latter
is the former. -/
theorem parents_wrong_smallDisk : ∃ vfs node,
    loopOverFilesystem smallDisk kmallocAbove 2 2 true 0 ⟨∅, 0⟩ = some vfs ∧
      vfs.root = 1 ∧ Contains vfs 1 3 ∧ vfs.nodes.lookup 3 = some node ∧ node.parent = 2 :=
  ⟨_, _, rfl, rfl, ⟨_, rfl, .next (by decide) rfl (.here (by decide))⟩, rfl, rfl⟩

end Yanix.Fs
