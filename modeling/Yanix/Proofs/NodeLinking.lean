/-
Module: Yanix.Proofs.NodeLinking
Purpose: Publishing a node under a path.  Both copies of the path are read behind their end; the
  bytes there decide whether the node becomes reachable.
-/
import Yanix.Fs.Vfs

namespace Yanix.Fs

open Foundation Libk List Option

variable {name : CString} {vfs : Vfs} {dirs : List CString} {vfs vfs' : Vfs} {cwd : List UInt8}

/-- Searching from the last byte of `x` down finds the separator before it, unless that is
the first byte of the path. -/
theorem lastSlash_append (a x rest : List UInt8) (plain : slash ∉ x) :
    lastSlash (a ++ slash :: (x ++ rest)) (a.length + x.length) =
      some (if a = [] then none else some a.length) := by
  induction x using List.reverseRecOn generalizing rest with
  | nil =>
    cases a with
    | nil => rfl
    | cons c a =>
      have read : (c :: a ++ slash :: ([] ++ rest))[a.length + 1]? = some slash := by simp
      rw [length_nil, Nat.add_zero, length_cons, lastSlash, read]
      rfl
  | append_singleton x c ih =>
    have notSlash : c ≠ slash := fun same => plain (by simp [same])
    have plainX : slash ∉ x := fun mem => plain (mem_append_left _ mem)
    have split : a ++ slash :: (x ++ [c] ++ rest) = (a ++ slash :: x) ++ c :: rest := by simp
    have position : a.length + (x ++ [c]).length = a.length + x.length + 1 := by simp; omega
    have index : a.length + x.length + 1 = (a ++ slash :: x).length + 0 := by simp; omega
    have read : (a ++ slash :: (x ++ [c] ++ rest))[a.length + x.length + 1]? = some c := by
      rw [split, index, Buffer.getElem?_append]
      rfl
    rw [position, lastSlash, read]
    simp only [bind, bind_some, if_neg notSlash]
    rw [append_assoc, singleton_append]
    exact ih (c :: rest) plainX

theorem lastSlash_outside {tmp : Buffer} (ne : tmp ≠ []) : lastSlash tmp tmp.length = none := by
  obtain ⟨i, len⟩ := Nat.exists_eq_succ_of_ne_zero (fun zero => ne (length_eq_zero_iff.mp zero))
  rw [len, lastSlash, getElem?_eq_none len.le]
  rfl

theorem stringAt_terminated {s : List UInt8} (nonzero : 0 ∉ s) (junk : Buffer) :
    stringAt (s ++ 0 :: junk) = some s := by
  rw [stringAt, strlen_terminated nonzero]
  simp

variable {depth fuel p : Nat}

theorem dropTrailing_path (isName : PathName name) (a tmp : List UInt8) :
    dropTrailing (a ++ slash :: name.bytes ++ [0]) tmp (a ++ slash :: name.bytes).length =
      some (tmp, (a ++ slash :: name.bytes).length) := by
  cases bytes : name.bytes using List.reverseRecOn with
  | nil => exact absurd bytes isName.nonempty
  | append_singleton x c _ =>
    have notSlash : c ≠ slash := fun same => isName.plain (by simp [bytes, same])
    have len : (a ++ slash :: (x ++ [c])).length = (a ++ slash :: x).length + 1 := by
      simp [Nat.add_assoc]
    have read : (a ++ slash :: (x ++ [c]) ++ [0])[(a ++ slash :: x).length]? = some c := by
      have split : a ++ slash :: (x ++ [c]) ++ [0] = (a ++ slash :: x) ++ c :: [0] := by simp
      rw [split, ← Nat.add_zero (a ++ slash :: x).length, Buffer.getElem?_append]
      rfl
    rw [len, dropTrailing, read]
    simp only [bind, bind_some, if_neg notSlash]

theorem dropTrailing_terminated (path tmp : List UInt8) :
    dropTrailing (path ++ [0]) tmp (path.length + 1) = some (tmp, path.length + 1) := by
  have read : (path ++ [0])[path.length]? = some 0 := by simp
  rw [dropTrailing, read]
  rfl

/-! ## Lookups in trees that grow -/

/-- A tree in which every lookup that arrived at a node still does: lists may be longer at their
ends. -/
structure Extends (vfs vfs' : Vfs) : Prop where
  root : vfs'.root = vfs.root
  kept : ∀ q node, vfs.nodes.lookup q = some node →
    ∃ node', vfs'.nodes.lookup q = some node' ∧ node'.name = node.name ∧
      node'.dirlist = node.dirlist ∧ (node.nextnode ≠ 0 → node'.nextnode = node.nextnode)

theorem Extends.refl (vfs : Vfs) : Extends vfs vfs :=
  ⟨rfl, fun _ node found => ⟨node, found, rfl, rfl, fun _ => rfl⟩⟩

variable {tmp q node : Nat}

section

variable (extended : Extends vfs vfs') {fuel fuel' : Nat} (le : fuel ≤ fuel')

include extended le

theorem findInList_kept {name : Bytes} (found : findInList vfs name fuel tmp = some q)
    (ne : q ≠ 0) : findInList vfs' name fuel' tmp = some q := by
  induction fuel generalizing fuel' tmp with
  | zero => cases found
  | succ fuel ih =>
    cases fuel' with
    | zero => exact absurd le (Nat.not_succ_le_zero fuel)
    | succ fuel' =>
      unfold findInList at found ⊢
      split at found
      · exact absurd (some.inj found).symm ne
      next here =>
        rw [if_neg here]
        obtain ⟨node, lookup, rest⟩ := bind_eq_some_iff.mp found
        obtain ⟨node', lookup', name', -, link⟩ := extended.kept tmp node lookup
        refine bind_eq_some_iff.mpr ⟨node', lookup', ?_⟩
        rw [name']
        split at rest
        · next same => rwa [if_pos same]
        next other =>
          have more : node.nextnode ≠ 0 := by
            -- The search would have ended here without a result.
            intro ended
            rw [ended] at rest
            cases fuel with
            | zero => cases rest
            | succ fuel => exact ne (some.inj rest).symm
          rw [if_neg other, link more]
          exact ih (Nat.le_of_succ_le_succ le) rest

theorem vfsPathFind_kept {name : Bytes} (found : vfsPathFind vfs fuel node name = some q)
    (ne : q ≠ 0) : vfsPathFind vfs' fuel' node name = some q := by
  unfold vfsPathFind at found ⊢
  obtain ⟨fields, lookup, rest⟩ := bind_eq_some_iff.mp found
  obtain ⟨fields', lookup', -, dirlist, -⟩ := extended.kept node fields lookup
  refine bind_eq_some_iff.mpr ⟨fields', lookup', ?_⟩
  rw [dirlist]
  exact findInList_kept extended le rest ne

theorem findNames_kept {names : List CString} (found : findNames vfs fuel names node = some q)
    (ne : q ≠ 0) : findNames vfs' fuel' names node = some q := by
  induction names generalizing node with
  | nil => exact found
  | cons name names ih =>
    unfold findNames at found ⊢
    obtain ⟨next, here, rest⟩ := bind_eq_some_iff.mp found
    split at rest
    · exact absurd (some.inj rest).symm ne
    next ne' =>
      refine bind_eq_some_iff.mpr ⟨next, vfsPathFind_kept extended le here ne', ?_⟩
      rw [if_neg ne']
      exact ih rest

theorem scanPath_kept {rest : List UInt8} {buffer : Bytes} {bufferiter : Nat}
    (found : scanPath vfs fuel rest buffer bufferiter node = some q) (ne : q ≠ 0) :
    scanPath vfs' fuel' rest buffer bufferiter node = some q := by
  induction rest generalizing buffer bufferiter node with
  | nil => exact vfsPathFind_kept extended le found ne
  | cons c rest ih =>
    unfold scanPath at found ⊢
    split at found
    · next same =>
        rw [if_pos same]
        obtain ⟨next, here, behind⟩ := bind_eq_some_iff.mp found
        split at behind
        · exact absurd (some.inj behind).symm ne
        next ne' =>
          refine bind_eq_some_iff.mpr ⟨next, vfsPathFind_kept extended le here ne', ?_⟩
          rw [if_neg ne']
          exact ih behind
    · next other =>
        rw [if_neg other]
        exact ih found

theorem vfsFindPath_kept {cwd path : List UInt8} (absolute : path.getD 0 0 = slash)
    (found : vfsFindPath vfs cwd fuel depth path = some q) (ne : q ≠ 0) :
    vfsFindPath vfs' cwd fuel' depth path = some q := by
  cases depth with
  | zero => cases found
  | succ depth =>
    unfold vfsFindPath at found ⊢
    rw [if_neg (not_not.mpr absolute)] at found ⊢
    split at found
    · next isRoot => rwa [if_pos isRoot, extended.root]
    next notRoot =>
      rw [if_neg notRoot]
      unfold findComponents at found ⊢
      rw [extended.root]
      split at found
      · exact absurd (some.inj found).symm ne
      next hasRoot =>
        rw [if_neg hasRoot]
        cases path with
        | nil => exact absurd (some.inj found).symm ne
        | cons c rest => exact scanPath_kept extended le found ne

end

theorem findNames_append (names others : List CString) (found : findNames vfs fuel names p = some q)
    (ne : q ≠ 0) : findNames vfs fuel (names ++ others) p = findNames vfs fuel others q := by
  induction names generalizing p with
  | nil => rw [some.inj found, nil_append]
  | cons name names ih =>
    unfold findNames at found
    obtain ⟨next, here, rest⟩ := bind_eq_some_iff.mp found
    split at rest
    · exact absurd (some.inj rest).symm ne
    · next ne' =>
        rw [cons_append, findNames, here, bind_some, if_neg ne', ih rest]

/-! ## The entries of a directory -/

/-- The nodes of a list of sibs. -/
inductive Siblings (vfs : Vfs) : Nat → List Nat → Prop where
  | nil : Siblings vfs 0 []
  | cons {p : Nat} {node : Node} {rest : List Nat} (nonnull : p ≠ 0)
      (found : vfs.nodes.lookup p = some node) (next : Siblings vfs node.nextnode rest) :
      Siblings vfs p (p :: rest)

theorem Siblings.eq_zero (sibs : Siblings vfs p []) : p = 0 := by
  cases sibs with
  | nil => rfl

theorem Siblings.ne_zero {rest : List Nat} (sibs : Siblings vfs p (q :: rest)) : p ≠ 0 := by
  cases sibs with
  | cons ne _ _ => exact ne

/-- No entry of the list has the name. -/
def Absent (vfs : Vfs) (l : List Nat) (name : CString) : Prop :=
  ∀ q ∈ l, ∀ node, vfs.nodes.lookup q = some node → node.name ≠ name

/-- The first entry of the list with the name, or the null pointer. -/
def nodeNamed (vfs : Vfs) (l : List Nat) (name : List UInt8) : Nat :=
  (l.find? fun q => (vfs.nodes.lookup q).any fun node => node.name.bytes = name).getD 0

variable {l : List Nat}

theorem findInList_eq (sibs : Siblings vfs p l) (name : CString) (lt : l.length < fuel) :
    findInList vfs name.mem fuel p = some (nodeNamed vfs l name.bytes) := by
  induction sibs generalizing fuel with
  | nil =>
    cases fuel with
    | zero => exact absurd lt (Nat.not_lt_zero _)
    | succ fuel => rfl
  | @cons p node rest ne found next ih =>
    cases fuel with
    | zero => exact absurd lt (Nat.not_lt_zero _)
    | succ fuel =>
      have compared : strcmp name.mem node.name.bytes = 0 ↔ node.name.bytes = name.bytes := by
        rw [strcmp_eq_zero_iff name.mem_spells node.name, CString.ext_iff, eq_comm]
      have later := ih (Nat.lt_of_succ_lt_succ lt)
      rw [findInList, if_neg ne, found]
      simp only [bind, bind_some, compared]
      unfold nodeNamed at later ⊢
      rw [find?_cons, found, any_some]
      split
      · next same => simp [same]
      · next other => simpa [other] using later

theorem findInList_absent (sibs : Siblings vfs p l) (absent : Absent vfs l name)
    (lt : l.length < fuel) : findInList vfs name.mem fuel p = some 0 := by
  rw [findInList_eq sibs name lt, nodeNamed, find?_eq_none.mpr]
  · rfl
  · intro q mem named
    simp only [Option.any_eq_true, decide_eq_true_eq] at named
    obtain ⟨node, found, same⟩ := named
    exact absent q mem node found (CString.ext same)

theorem name_of_findInList (found : findInList vfs name.mem fuel tmp = some q) (ne : q ≠ 0) :
    ∃ node, vfs.nodes.lookup q = some node ∧ node.name = name := by
  induction fuel generalizing tmp with
  | zero => cases found
  | succ fuel ih =>
    unfold findInList at found
    split at found
    · exact absurd (some.inj found).symm ne
    obtain ⟨node, here, rest⟩ := bind_eq_some_iff.mp found
    split at rest
    · next same =>
        obtain rfl := some.inj rest
        exact ⟨node, here, ((strcmp_eq_zero_iff name.mem_spells node.name).mp same).symm⟩
    · exact ih rest

theorem lastSibling_spec (sibs : Siblings vfs p l) {last : Nat}
    (isLast : l.getLast? = some last) :
    (∃ node, vfs.nodes.lookup last = some node ∧ node.nextnode = 0) ∧
      ∀ fuel, l.length ≤ fuel → lastSibling vfs fuel p = some last := by
  induction sibs with
  | nil => cases isLast
  | @cons p node rest ne found next ih =>
    have round (fuel : Nat) : lastSibling vfs (fuel + 1) p =
        if node.nextnode ≠ 0 then lastSibling vfs fuel node.nextnode else some p := by
      rw [lastSibling, if_neg ne, found]
      rfl
    cases rest with
    | nil =>
      have ended : node.nextnode = 0 := next.eq_zero
      obtain rfl : p = last := some.inj isLast
      refine ⟨⟨node, found, ended⟩, ?_⟩
      intro fuel le
      cases fuel with
      | zero => exact absurd le (Nat.not_succ_le_zero _)
      | succ fuel => rw [round, if_neg (not_not.mpr ended)]
    | cons q rest =>
      have continued : node.nextnode ≠ 0 := next.ne_zero
      obtain ⟨ended, walk⟩ := ih isLast
      refine ⟨ended, ?_⟩
      intro fuel le
      cases fuel with
      | zero => exact absurd le (Nat.not_succ_le_zero _)
      | succ fuel =>
        rw [round, if_pos continued]
        exact walk fuel (Nat.le_of_succ_le_succ le)

theorem Siblings.congr {vfs' : Vfs} (sibs : Siblings vfs p l)
    (same : ∀ q node, vfs.nodes.lookup q = some node →
      ∃ node', vfs'.nodes.lookup q = some node' ∧ node'.nextnode = node.nextnode) :
    Siblings vfs' p l := by
  induction sibs with
  | nil => exact .nil
  | cons ne found next ih =>
    obtain ⟨node', found', link⟩ := same _ _ found
    rw [← link] at ih
    exact .cons ne found' ih

/-- A tree that differs from another in parents and in the link of one node, the last in its list.
-/
structure Appended (vfs vfs' : Vfs) (last p : Nat) : Prop where
  root : vfs'.root = vfs.root
  kept : ∀ q node, vfs.nodes.lookup q = some node →
    ∃ node', vfs'.nodes.lookup q = some node' ∧ node'.name = node.name ∧
      node'.dirlist = node.dirlist ∧ node'.nextnode = if q = last then p else node.nextnode
  ended : ∃ node, vfs.nodes.lookup last = some node ∧ node.nextnode = 0

section

variable {last p : Nat} (appended : Appended vfs vfs' last p)

include appended

theorem Appended.not_last {node : Node} (found : vfs.nodes.lookup q = some node)
    (more : node.nextnode ≠ 0) : q ≠ last := by
  rintro rfl
  obtain ⟨node', found', ended⟩ := appended.ended
  obtain rfl := mem_unique found found'
  exact more ended

theorem Appended.extends : Extends vfs vfs' where
  root := appended.root
  kept := by
    intro q node found
    obtain ⟨node', found', name', dirlist, link⟩ := appended.kept q node found
    refine ⟨node', found', name', dirlist, ?_⟩
    intro more
    rw [link, if_neg (appended.not_last found more)]

theorem Appended.findInList_skips (sibs : Siblings vfs q l) (isLast : l.getLast? = some last)
    (absent : Absent vfs l name) (fuel : Nat) :
    findInList vfs' name.mem fuel q =
      if fuel ≤ l.length then none else findInList vfs' name.mem (fuel - l.length) p := by
  induction sibs generalizing fuel with
  | nil => cases isLast
  | @cons q old rest nonnullQ foundQ next ih =>
    obtain ⟨old', foundQ', name', -, link⟩ := appended.kept q old foundQ
    have differs : strcmp name.mem old'.name.bytes ≠ 0 := by
      intro zero
      apply absent q mem_cons_self old foundQ
      rw [← name']
      exact ((strcmp_eq_zero_iff name.mem_spells old'.name).mp zero).symm
    cases fuel with
    | zero => rfl
    | succ fuel =>
      rw [findInList, if_neg nonnullQ, foundQ']
      simp only [bind, bind_some, if_neg differs, link, length_cons,
        Nat.add_le_add_iff_right, Nat.add_sub_add_right]
      cases rest with
      | nil =>
        obtain rfl : q = last := some.inj isLast
        rw [if_pos rfl]
        cases fuel with
        | zero => rfl
        | succ fuel => rfl
      | cons r rest =>
        rw [if_neg (appended.not_last foundQ next.ne_zero)]
        exact ih isLast (fun s mem => absent s (mem_cons_of_mem q mem)) fuel

theorem findInList_new (sibs : Siblings vfs q l) (isLast : l.getLast? = some last)
    (absent : Absent vfs l name) (ne : p ≠ 0) {node : Node}
    (found : vfs'.nodes.lookup p = some node) (named : node.name = name)
    (lt : l.length < fuel) :
    findInList vfs' name.mem fuel q = some p := by
  have same : strcmp name.mem node.name.bytes = 0 :=
    (strcmp_eq_zero_iff name.mem_spells node.name).mpr named.symm
  obtain ⟨k, rfl⟩ := Nat.exists_eq_add_of_lt lt
  rw [appended.findInList_skips sibs isLast absent, if_neg (by omega), Nat.add_assoc,
    Nat.add_sub_cancel_left, findInList, if_neg ne, found]
  simp only [bind, bind_some, if_pos same]

end

/-- Linking succeeds, the path leads to the node, and absolute paths that led to a node still do. -/
def Publishes (vfs : Vfs) (cwd : List UInt8) (fuel depth : Nat) (path : List UInt8) (p : Nat)
    (behind : List UInt8) : Prop :=
  ∃ vfs', vfsLinkNodeVfs vfs cwd fuel depth path p behind = some (0, vfs') ∧
    vfsFindPath vfs' cwd fuel depth path = some p ∧
    ∀ other q, other.getD 0 0 = slash → q ≠ 0 → vfsFindPath vfs cwd fuel depth other = some q →
      vfsFindPath vfs' cwd fuel depth other = some q

/-- The path of the directory. -/
def parentPath (dirs : List CString) : List UInt8 := if dirs = [] then [slash] else pathOf dirs

/-- A node that can be linked as `name` into the directory that `dirs` lead to: this has
entries, and none of them has the name. -/
structure Linkable (vfs : Vfs) (cwd : List UInt8) (dirs : List CString) (name : CString)
    (p : Nat) (fields : Node) : Prop where
  areNames : ∀ other ∈ dirs ++ [name], PathName other
  parent : ∃ fuel depth dir entry l, vfsFindPath vfs cwd fuel depth (parentPath dirs) = some dir ∧
    dir ≠ 0 ∧ vfs.nodes.lookup dir = some entry ∧ Siblings vfs entry.dirlist l ∧ l ≠ [] ∧
    Absent vfs l name
  nonnull : p ≠ 0
  node : vfs.nodes.lookup p = some fields

/-- The names lead to the node `dir`, a directory with the entries `l`, none of which has the
name. -/
structure LeadsTo (vfs : Vfs) (fuel : Nat) (dirs : List CString) (name : CString) (dir : Nat)
    (l : List Nat) : Prop where
  hasRoot : vfs.root ≠ 0
  resolves : findNames vfs fuel dirs vfs.root = some dir
  nonnull : dir ≠ 0
  entries : ∃ entry, vfs.nodes.lookup dir = some entry ∧ Siblings vfs entry.dirlist l
  listed : l ≠ []
  absent : Absent vfs l name

variable {dir : Nat}

theorem LeadsTo.mono {fuel' : Nat} (leads : LeadsTo vfs fuel dirs name dir l) (le : fuel ≤ fuel') :
    LeadsTo vfs fuel' dirs name dir l :=
  { leads with resolves := findNames_kept (Extends.refl vfs) le leads.resolves leads.nonnull }

theorem Linkable.directory {cwd : List UInt8} {fields : Node}
    (linkable : Linkable vfs cwd dirs name p fields) :
    ∃ fuel dir l, LeadsTo vfs fuel dirs name dir l := by
  obtain ⟨fuel, depth, dir, entry, l, resolves, ne, found, sibs, listed, absent⟩ :=
    linkable.parent
  cases depth with
  | zero => cases resolves
  | succ depth =>
    cases dirs with
    | nil =>
      have isRoot : vfs.root = dir := by simpa [parentPath, vfsFindPath] using resolves
      exact ⟨fuel, dir, l, isRoot ▸ ne, congrArg some isRoot, ne,
        ⟨entry, found, sibs⟩, listed, absent⟩
    | cons first dirs =>
      have areNames : ∀ other ∈ first :: dirs, PathName other :=
        fun other mem => linkable.areNames other (mem_append_left _ mem)
      rw [parentPath, if_neg (cons_ne_nil first dirs), vfsFindPath_absolute vfs cwd fuel depth
          (cons_ne_nil first dirs) areNames] at resolves
      split at resolves
      · exact absurd (some.inj resolves).symm ne
      · next hasRoot =>
          exact ⟨fuel, dir, l, hasRoot, resolves, ne, ⟨entry, found, sibs⟩, listed, absent⟩

theorem appendNode_spec {last : Nat} {entry fields : Node}
    (found : vfs.nodes.lookup dir = some entry) (sibs : Siblings vfs entry.dirlist l)
    (isLast : l.getLast? = some last) (node : vfs.nodes.lookup p = some fields)
    (le : l.length ≤ fuel) :
    ∃ vfs', appendNode vfs fuel dir p = some vfs' ∧ Appended vfs vfs' last p ∧
      ∃ fields', vfs'.nodes.lookup p = some fields' ∧ fields'.name = fields.name := by
  -- Setting the parent changes nothing that a lookup reads.
  have parented (q : Nat) (old : Node) (foundQ : vfs.nodes.lookup q = some old) :
      ∃ new, (vfs.insert p { fields with parent := dir }).nodes.lookup q = some new ∧
        new.name = old.name ∧ new.dirlist = old.dirlist ∧ new.nextnode = old.nextnode := by
    rw [Vfs.lookup_insert]
    by_cases same : q = p
    · subst same
      obtain rfl := mem_unique node foundQ
      exact ⟨_, if_pos rfl, rfl, rfl, rfl⟩
    · exact ⟨old, (if_neg same).trans foundQ, rfl, rfl, rfl⟩
  generalize changed : vfs.insert p { fields with parent := dir } = vfs1 at parented
  obtain ⟨entry', found', -, dirlist, -⟩ := parented dir entry found
  have sibs' : Siblings vfs1 entry'.dirlist l := by
    rw [dirlist]
    apply sibs.congr
    intro q old foundQ
    obtain ⟨new, foundQ', -, -, link⟩ := parented q old foundQ
    exact ⟨new, foundQ', link⟩
  obtain ⟨lastOld, foundLast, ended⟩ := (lastSibling_spec sibs isLast).1
  obtain ⟨lastNew, foundLast', nameLast, dirlistLast, -⟩ := parented last lastOld foundLast
  have kept (q : Nat) (old : Node) (foundQ : vfs.nodes.lookup q = some old) :
      ∃ new, (vfs1.insert last { lastNew with nextnode := p }).nodes.lookup q = some new ∧
        new.name = old.name ∧ new.dirlist = old.dirlist ∧
        new.nextnode = if q = last then p else old.nextnode := by
    rw [Vfs.lookup_insert]
    by_cases same : q = last
    · subst same
      obtain rfl := mem_unique foundLast foundQ
      exact ⟨_, if_pos rfl, nameLast, dirlistLast, (if_pos rfl).symm⟩
    · obtain ⟨new, foundQ', name', dirlist', link⟩ := parented q old foundQ
      exact ⟨new, (if_neg same).trans foundQ', name', dirlist', link.trans (if_neg same).symm⟩
  refine ⟨vfs1.insert last { lastNew with nextnode := p }, ?_,
    ⟨?_, kept, lastOld, foundLast, ended⟩, ?_⟩
  · rw [appendNode, Vfs.modify_eq_insert node, changed]
    simp only [bind, bind_some, found']
    rw [(lastSibling_spec sibs' isLast).2 fuel le, bind_some, Vfs.modify_eq_insert foundLast']
  · rw [← changed]
    rfl
  · obtain ⟨new, foundP, name', -⟩ := kept p fields node
    exact ⟨new, foundP, name'⟩

/-! ## The two copies of the path -/

theorem pathOf_concat (dirs : List CString) (name : CString) :
    pathOf (dirs ++ [name]) = pathOf dirs ++ slash :: name.bytes := by
  simp [pathOf]

theorem pathOf_eq_nil : pathOf dirs = [] ↔ dirs = [] := by
  cases dirs <;> simp [pathOf]

theorem nonzero_pathOf (dirs : List CString) : 0 ∉ pathOf dirs := by
  intro mem
  obtain ⟨name, -, lt⟩ := mem_flatMap.mp mem
  cases lt with
  | tail _ later => exact name.nonzero later

variable {b : UInt8}

section

variable {fuel depth : Nat}

theorem directoryOf_slash (behind : List UInt8) :
    directoryOf vfs cwd fuel depth (pathOf (dirs ++ [name]) ++ slash :: behind)
        (pathOf (dirs ++ [name])).length =
      vfsFindPath vfs cwd fuel depth (pathOf (dirs ++ [name])) := by
  have nonempty : pathOf (dirs ++ [name]) ≠ [] := by simp [pathOf_concat]
  have cut := lastSlash_append (pathOf (dirs ++ [name])) [] behind not_mem_nil
  rw [if_neg nonempty] at cut
  simp only [nil_append, length_nil, Nat.add_zero] at cut
  rw [directoryOf, cut]
  simp only [bind, bind_some, Buffer.store_append, stringAt_terminated (nonzero_pathOf _)]

theorem vfsGetName_nil : vfsGetName (pathOf (dirs ++ [name])) [] = none := by
  have len : (pathOf (dirs ++ [name])).length + 1 = (pathOf (dirs ++ [name]) ++ [0]).length := by
    simp
  rw [vfsGetName, dropTrailing_terminated]
  simp only [bind, bind_some]
  rw [len, lastSlash_outside (by simp)]
  rfl

variable (isName : PathName name)

include isName

theorem vfsLinkNodeVfs_eq (p : Nat) (behind : List UInt8) :
    vfsLinkNodeVfs vfs cwd fuel depth (pathOf (dirs ++ [name])) p behind =
      (directoryOf vfs cwd fuel depth (pathOf (dirs ++ [name]) ++ behind)
        (pathOf (dirs ++ [name])).length).bind fun dir =>
          if dir = 0 then some (-1, vfs)
          else (appendNode vfs fuel dir p).bind fun vfs => some (0, vfs) := by
  rw [vfsLinkNodeVfs, pathOf_concat, dropTrailing_path isName]
  rfl

theorem vfsLinkNodeVfs_nil (p : Nat) :
    vfsLinkNodeVfs vfs cwd fuel depth (pathOf (dirs ++ [name])) p [] = none := by
  have nonempty : pathOf (dirs ++ [name]) ≠ [] := by simp [pathOf_concat]
  rw [vfsLinkNodeVfs_eq isName, append_nil, directoryOf, lastSlash_outside nonempty]
  rfl

theorem directoryOf_ne (ne : b ≠ slash) (behind : List UInt8) :
    directoryOf vfs cwd fuel depth (pathOf (dirs ++ [name]) ++ b :: behind)
        (pathOf (dirs ++ [name])).length =
      if dirs = [] then some 0 else vfsFindPath vfs cwd fuel depth (pathOf dirs) := by
  have plain : slash ∉ name.bytes ++ [b] := by
    simp [isName.plain, Ne.symm ne]
  have cut := lastSlash_append (pathOf dirs) (name.bytes ++ [b]) behind plain
  have copy : pathOf (dirs ++ [name]) ++ b :: behind =
      pathOf dirs ++ slash :: (name.bytes ++ [b] ++ behind) := by simp [pathOf_concat]
  have len : (pathOf (dirs ++ [name])).length =
      (pathOf dirs).length + (name.bytes ++ [b]).length := by simp [pathOf_concat]
  rw [directoryOf, len, copy, cut]
  by_cases top : dirs = []
  · simp [top, pathOf_eq_nil.mpr]
  have nested : pathOf dirs ≠ [] := fun empty => top (pathOf_eq_nil.mp empty)
  rw [if_neg nested, if_neg top]
  simp only [bind, bind_some, Buffer.store_append, stringAt_terminated (nonzero_pathOf dirs)]

theorem vfsGetName_ne (ne : b ≠ slash) (behind : List UInt8) (nested : dirs ≠ []) :
    vfsGetName (pathOf (dirs ++ [name])) (b :: behind) = some name.bytes := by
  have plain : slash ∉ name.bytes ++ [0, b] := by
    simp [isName.plain, Ne.symm ne, zero_ne_slash.symm]
  have cut := lastSlash_append (pathOf dirs) (name.bytes ++ [0, b]) behind plain
  rw [if_neg fun empty => nested (pathOf_eq_nil.mp empty)] at cut
  have copy : pathOf (dirs ++ [name]) ++ 0 :: b :: behind =
      pathOf dirs ++ slash :: (name.bytes ++ [0, b] ++ behind) := by simp [pathOf_concat]
  have len : (pathOf (dirs ++ [name])).length + 1 =
      (pathOf dirs).length + (name.bytes ++ [0, b]).length := by
    simp [pathOf_concat]
    omega
  have rest : (pathOf dirs ++ slash :: (name.bytes ++ [0, b] ++ behind)).drop
      ((pathOf dirs).length + 1) = name.bytes ++ 0 :: b :: behind := by
    rw [drop_length_add_append]
    simp
  rw [vfsGetName, dropTrailing_terminated, copy, len]
  simp only [bind, bind_some, cut, rest, stringAt_terminated name.nonzero]

end

variable {behind : List UInt8}

section

variable {p : Nat} {fields : Node}

theorem not_publishes (isName : PathName name)
    (missing : directoryOf vfs cwd fuel depth (pathOf (dirs ++ [name]) ++ behind)
      (pathOf (dirs ++ [name])).length = some 0) :
    ¬ Publishes vfs cwd fuel depth (pathOf (dirs ++ [name])) p behind := by
  rintro ⟨vfs', linked, -⟩
  rw [vfsLinkNodeVfs_eq isName, missing, bind_some, if_pos rfl] at linked
  cases linked

theorem publishes_iff (linkable : Linkable vfs cwd dirs name p fields)
    (leads : LeadsTo vfs fuel dirs name dir l) (lt : l.length < fuel)
    (directory : directoryOf vfs cwd fuel (depth + 1) (pathOf (dirs ++ [name]) ++ behind)
      (pathOf (dirs ++ [name])).length = some dir) :
    Publishes vfs cwd fuel (depth + 1) (pathOf (dirs ++ [name])) p behind ↔ fields.name = name := by
  have isName : PathName name := linkable.areNames name (by simp)
  obtain ⟨entry, found, sibs⟩ := leads.entries
  have isLast : l.getLast? = some (l.getLast leads.listed) := getLast?_eq_some_getLast _
  obtain ⟨vfs', appends, appended, fields', foundP, named⟩ :=
    appendNode_spec found sibs isLast linkable.node lt.le
  have linked : vfsLinkNodeVfs vfs cwd fuel (depth + 1) (pathOf (dirs ++ [name])) p behind =
      some (0, vfs') := by
    rw [vfsLinkNodeVfs_eq isName, directory, bind_some, if_neg leads.nonnull, appends]
    rfl
  -- Afterwards the lookup arrives at the same directory.
  obtain ⟨entry', found', -, dirlist, -⟩ := appended.kept dir entry found
  have arrives := findNames_kept appended.extends le_rfl leads.resolves leads.nonnull
  have lookup : vfsFindPath vfs' cwd fuel (depth + 1) (pathOf (dirs ++ [name])) =
      findNames vfs' fuel [name] dir := by
    rw [vfsFindPath_absolute vfs' cwd fuel depth (by simp) linkable.areNames, appended.root,
      if_neg leads.hasRoot, findNames_append dirs [name] arrives leads.nonnull]
  have step : findNames vfs' fuel [name] dir =
      (findInList vfs' name.mem fuel entry.dirlist).bind fun next =>
        if next = 0 then some 0 else some next := by
    rw [findNames, vfsPathFind, found', ← dirlist]
    rfl
  constructor
  · rintro ⟨vfs'', linked', path, -⟩
    obtain ⟨-, rfl⟩ := Prod.mk.inj (mem_unique linked linked')
    rw [lookup, step] at path
    obtain ⟨next, mem, same⟩ := bind_eq_some_iff.mp path
    split at same
    · exact absurd (some.inj same).symm linkable.nonnull
    obtain rfl := some.inj same
    obtain ⟨node, foundNext, nameNext⟩ := name_of_findInList mem linkable.nonnull
    obtain rfl := mem_unique foundP foundNext
    rw [← named, nameNext]
  · intro isNamed
    refine ⟨vfs', linked, ?_, ?_⟩
    · rw [lookup, step, findInList_new appended sibs isLast leads.absent linkable.nonnull foundP
        (named.trans isNamed) lt, bind_some, if_neg linkable.nonnull]
    · intro ne q absolute nonnullQ before
      exact vfsFindPath_kept appended.extends le_rfl absolute before nonnullQ

/-- For every path `/d1/…/dk/name` into a directory without that name. Both functions read a byte
behind their copy of the path, so on blocks of just that size there is never a result. With bytes
`b` and `b'` there the node is published exactly if it does not go into the root, `b` is no
separator, and neither is `b'`, or the name behind it happens to be right. -/
theorem linkNode_overreads (linkable : Linkable vfs cwd dirs name p fields) :
    (∀ fuel depth, ¬ Publishes vfs cwd fuel depth (pathOf (dirs ++ [name])) p []) ∧
    vfsGetName (pathOf (dirs ++ [name])) [] = none ∧
    ∃ enough, ∀ fuel depth, enough ≤ fuel → ∀ b behind b' behind',
      vfsGetName (pathOf (dirs ++ [name])) (b' :: behind') = some fields.name.bytes →
      (Publishes vfs cwd fuel (depth + 1) (pathOf (dirs ++ [name])) p (b :: behind) ↔
        dirs ≠ [] ∧ b ≠ slash ∧ (b' ≠ slash ∨ fields.name = name)) := by
  have isName : PathName name := linkable.areNames name (by simp)
  have areDirs : ∀ ne ∈ dirs, PathName ne :=
    fun ne mem => linkable.areNames ne (mem_append_left _ mem)
  have nonemptyPath : dirs ++ [name] ≠ [] := by simp
  refine ⟨?_, vfsGetName_nil, ?_⟩
  · rintro fuel depth ⟨vfs', linked, -⟩
    rw [vfsLinkNodeVfs_nil isName] at linked
    cases linked
  obtain ⟨fuel0, dir, l, leads0⟩ := linkable.directory
  refine ⟨fuel0 + l.length + 1, ?_⟩
  intro fuel depth enough b behind b' behind' gotName
  have leads := leads0.mono (show fuel0 ≤ fuel by omega)
  have pathBefore : vfsFindPath vfs cwd fuel (depth + 1) (pathOf (dirs ++ [name])) = some 0 := by
    rw [vfsFindPath_absolute vfs cwd fuel depth nonemptyPath linkable.areNames,
      if_neg leads.hasRoot]
    have enough : l.length < fuel := by omega
    obtain ⟨entry, found, sibs⟩ := leads.entries
    rw [findNames_append dirs [name] leads.resolves leads.nonnull, findNames, vfsPathFind, found]
    simp only [bind, bind_some]
    rw [findInList_absent sibs leads.absent enough, bind_some, if_pos rfl]
  by_cases slashB : b = slash
  · -- The whole path is looked up instead of its directory.
    subst slashB
    have missing := (directoryOf_slash behind).trans pathBefore
    exact ⟨fun publishes => absurd publishes (not_publishes isName missing),
      fun holds => absurd rfl holds.2.1⟩
  have cut : directoryOf vfs cwd fuel (depth + 1) (pathOf (dirs ++ [name]) ++ b :: behind)
      (pathOf (dirs ++ [name])).length = _ := directoryOf_ne isName slashB behind
  by_cases top : dirs = []
  · rw [if_pos top] at cut
    exact ⟨fun publishes => absurd publishes (not_publishes isName cut),
      fun holds => absurd top holds.1⟩
  rw [if_neg top, vfsFindPath_absolute vfs cwd fuel depth top areDirs, if_neg leads.hasRoot,
    leads.resolves] at cut
  have rightName (otherB : b' ≠ slash) : fields.name = name := by
    rw [vfsGetName_ne isName otherB behind' top] at gotName
    exact CString.ext (some.inj gotName).symm
  rw [publishes_iff linkable leads (by omega) cut]
  constructor
  · intro isNamed
    exact ⟨top, slashB, .inr isNamed⟩
  · rintro ⟨-, -, otherB | isNamed⟩
    · exact rightName otherB
    · exact isNamed

end

theorem rootName_nonzero : (0 : UInt8) ∉ ([] : List UInt8) := not_mem_nil

/-- The root with itself and `d` as entries, `d` with itself as entry, and a node that is not
linked yet. -/
def smallTree (name : CString) : Vfs where
  nodes := Finmap.insert 5 ⟨name, 3, 0, 0, 0, 0⟩ <|
    Finmap.insert 4 ⟨dot, vfsDirectory, 3, 3, 0, 0⟩ <|
    Finmap.insert 3 ⟨⟨[100], by decide⟩, vfsDirectory, 3, 2, 0, 4⟩ <|
    Finmap.insert 2 ⟨dot, vfsDirectory, 2, 1, 3, 0⟩ <|
    Finmap.insert 1 ⟨⟨[], rootName_nonzero⟩, vfsDirectory, 2, 1, 0, 2⟩ ∅
  root := 1

theorem linkNode_smallTree : (∀ fuel depth, ¬ Publishes (smallTree ⟨[116], by decide⟩) [] fuel depth
      [47, 100, 47, 116] 5 []) ∧
    ∃ fuel, Publishes (smallTree ⟨[116], by decide⟩) [] fuel 1 [47, 100, 47, 116] 5 [0] := by
  have linkable : Linkable (smallTree ⟨[116], by decide⟩) [] [⟨[100], by decide⟩]
      ⟨[116], by decide⟩ 5 ⟨⟨[116], by decide⟩, 3, 0, 0, 0, 0⟩ := {
    areNames := by
      intro ne mem
      simp only [cons_append, nil_append, mem_cons, not_mem_nil, or_false] at mem
      rcases mem with rfl | rfl <;> exact ⟨by decide, by decide⟩
    parent := by
      refine ⟨5, 1, 3, ⟨⟨[100], by decide⟩, vfsDirectory, 3, 2, 0, 4⟩, [4], rfl, by decide, rfl,
        .cons (by decide) rfl .nil, by decide, ?_⟩
      intro q mem node found
      obtain rfl := mem_singleton.mp mem
      obtain rfl : (⟨dot, vfsDirectory, 3, 3, 0, 0⟩ : Node) = node := some.inj found
      decide
    nonnull := by decide
    node := rfl }
  obtain ⟨never, -, le, published⟩ := linkNode_overreads linkable
  refine ⟨never, le, ?_⟩
  exact (published le 0 le_rfl 0 [] 0 [] (by decide +kernel)).mpr
    ⟨by decide, by decide, .inl (by decide)⟩

/-- The copy of `/d/t` is read behind its end, and a node for `/t` is not linked at all. -/
theorem linkNode_fails :
    vfsLinkNodeVfs (smallTree ⟨[116], by decide⟩) [] 5 1 [47, 100, 47, 116] 5 [] = none ∧
    vfsGetName [47, 116] [0] = some [47, 116] ∧
    ¬ Publishes (smallTree ⟨[47, 116], by decide⟩) [] 5 1 [47, 116] 5 [0] := by
  refine ⟨rfl, by decide +kernel, ?_⟩
  rintro ⟨vfs', linked, -⟩
  have failed : (vfsLinkNodeVfs (smallTree ⟨[47, 116], by decide⟩) [] 5 1 [47, 116] 5 [0]).map
      Prod.fst = some (-1) := rfl
  rw [linked] at failed
  cases failed

end Yanix.Fs
