/-
Module: Yanix.Proofs.RelativeLookup
Purpose: Looking up any path is walking down the lists of entries; a path that does not start at
  the root; a tree with one more entry at the end of a list.
-/
import Yanix.Proofs.NodeLinking

namespace Yanix.Fs

open Foundation Libk List Option

variable {rest : List UInt8} {cwd : List UInt8}
variable {name : List UInt8} {vfs : Vfs} {p : Nat} {l : List Nat} {node : Node} {vfs vfs' : Vfs}

section

theorem pathOf_eq_joined (names : List CString) :
    pathOf names = joined slash (names.map CString.bytes) := by
  rw [pathOf, joined, flatMap_map]

variable {path : List UInt8}

theorem nonzero_of_mem_splitOn (nonzero : 0 ∉ path) (mem : name ∈ path.splitOn slash) :
    0 ∉ name := by
  intro zero
  have inside : (0 : UInt8) ∈ joined slash (path.splitOn slash) :=
    mem_flatMap.mpr ⟨name, mem, mem_cons_of_mem slash zero⟩
  rw [joined_splitOn] at inside
  cases inside with
  | tail _ later => exact nonzero later

variable {names : List (List UInt8)}

theorem exists_cstrings (nonzero : ∀ name ∈ names, 0 ∉ name) :
    ∃ strings : List CString, names = strings.map CString.bytes := by
  induction names with
  | nil => exact ⟨[], rfl⟩
  | cons name names ih =>
    obtain ⟨strings, rfl⟩ := ih fun ne mem => nonzero ne (mem_cons_of_mem name mem)
    exact ⟨⟨name, nonzero name mem_cons_self⟩ :: strings, rfl⟩

theorem exists_components (nonzero : 0 ∉ path) :
    ∃ (name : CString) (names : List CString), path = name.bytes ++ pathOf names ∧
      path.splitOn slash = (name :: names).map CString.bytes ∧
      ∀ ne ∈ name :: names, slash ∉ ne.bytes := by
  obtain ⟨strings, split⟩ := exists_cstrings fun _ => nonzero_of_mem_splitOn nonzero
  cases strings with
  | nil => exact absurd split (splitOn_ne_nil slash path)
  | cons name names =>
    have whole : slash :: path = slash :: (name.bytes ++ pathOf names) := by
      rw [← joined_splitOn slash path, split, pathOf_eq_joined]
      rfl
    refine ⟨name, names, (cons.inj whole).2, split, ?_⟩
    intro ne mem
    apply separatorFree_splitOn slash path
    rw [split]
    exact mem_map_of_mem mem

/-! ## Walking down the tree -/

/-- Where walking down the names from a node ends; at the null pointer if a directory on the
way has no entry with the next name. -/
inductive Walks (vfs : Vfs) : Nat → List (List UInt8) → Nat → Prop where
  | here (d : Nat) : Walks vfs d [] d
  | lost {d : Nat} {node : Node} {l : List Nat} {name : List UInt8} {names : List (List UInt8)}
      (found : vfs.nodes.lookup d = some node) (sibs : Siblings vfs node.dirlist l)
      (missing : nodeNamed vfs l name = 0) : Walks vfs d (name :: names) 0
  | step {d r : Nat} {node : Node} {l : List Nat} {name : List UInt8}
      {names : List (List UInt8)} (found : vfs.nodes.lookup d = some node)
      (sibs : Siblings vfs node.dirlist l) (entry : nodeNamed vfs l name ≠ 0)
      (rest : Walks vfs (nodeNamed vfs l name) names r) : Walks vfs d (name :: names) r

/-- A tree whose root exists and in which every list of entries ends. -/
structure Walkable (vfs : Vfs) : Prop where
  hasRoot : vfs.root ≠ 0
  root : ∃ node, vfs.nodes.lookup vfs.root = some node
  lists : ∀ d node, vfs.nodes.lookup d = some node → ∃ l, Siblings vfs node.dirlist l

theorem Siblings.unique {l' : List Nat} (sibs : Siblings vfs p l)
    (sibs' : Siblings vfs p l') : l = l' := by
  induction sibs generalizing l' with
  | nil =>
    cases sibs' with
    | nil => rfl
    | cons ne _ _ => exact absurd rfl ne
  | cons ne found _ ih =>
    cases sibs' with
    | nil => exact absurd rfl ne
    | cons _ found' next' =>
      rw [found] at found'
      cases found'
      rw [ih next']

theorem Siblings.lookup {q : Nat} (sibs : Siblings vfs p l) (mem : q ∈ l) :
    q ≠ 0 ∧ ∃ node, vfs.nodes.lookup q = some node := by
  induction sibs with
  | nil => cases mem
  | cons ne found _ ih =>
    cases mem with
    | head => exact ⟨ne, _, found⟩
    | tail _ mem => exact ih mem

theorem nodeNamed_mem (entry : nodeNamed vfs l name ≠ 0) : nodeNamed vfs l name ∈ l := by
  unfold nodeNamed at entry ⊢
  cases search : l.find? _ with
  | none =>
    rw [search] at entry
    exact absurd rfl entry
  | some q => exact mem_of_find?_eq_some search

variable {d r r' : Nat}

theorem Walks.unique (walks : Walks vfs d names r) (walks' : Walks vfs d names r') : r = r' := by
  induction walks generalizing r' with
  | here d =>
    cases walks' with
    | here => rfl
  | lost found sibs missing =>
    cases walks' with
    | lost _ _ _ => rfl
    | step found' sibs' entry' _ =>
      rw [found] at found'
      cases found'
      rw [sibs.unique sibs'] at missing
      exact absurd missing entry'
  | step found sibs entry _ ih =>
    cases walks' with
    | lost found' sibs' missing' =>
      rw [found] at found'
      cases found'
      rw [sibs.unique sibs'] at entry
      exact absurd missing' entry
    | step found' sibs' _ rest' =>
      rw [found] at found'
      cases found'
      rw [sibs.unique sibs'] at ih
      exact ih rest'

theorem Walkable.walks (tree : Walkable vfs) (names : List (List UInt8))
    (found : vfs.nodes.lookup d = some node) : ∃ r, Walks vfs d names r := by
  induction names generalizing d node with
  | nil => exact ⟨d, .here d⟩
  | cons name names ih =>
    obtain ⟨l, sibs⟩ := tree.lists d node found
    by_cases missing : nodeNamed vfs l name = 0
    · exact ⟨0, .lost found sibs missing⟩
    obtain ⟨-, next, found'⟩ := sibs.lookup (nodeNamed_mem missing)
    obtain ⟨r, rest⟩ := ih found'
    exact ⟨r, .step found sibs missing rest⟩

theorem Walks.lookup (walks : Walks vfs d names r) (ne : r ≠ 0)
    (found : vfs.nodes.lookup d = some node) : ∃ fields, vfs.nodes.lookup r = some fields := by
  induction walks generalizing node with
  | here d => exact ⟨node, found⟩
  | lost _ _ _ => exact absurd rfl ne
  | step _ sibs entry _ ih =>
    obtain ⟨-, next, found'⟩ := sibs.lookup (nodeNamed_mem entry)
    exact ih ne found'

theorem Walks.append {c : Nat} {others : List (List UInt8)} (walks : Walks vfs d names c)
    (ne : c ≠ 0) (rest : Walks vfs c others r) : Walks vfs d (names ++ others) r := by
  induction walks with
  | here d => exact rest
  | lost _ _ _ => exact absurd rfl ne
  | step found sibs entry _ ih => exact .step found sibs entry (ih ne rest)

theorem Walks.append_missing (walks : Walks vfs d names 0) (start : d ≠ 0)
    (others : List (List UInt8)) : Walks vfs d (names ++ others) 0 := by
  generalize ended : (0 : Nat) = r at walks
  induction walks with
  | here d => exact absurd ended.symm start
  | lost found sibs missing => exact .lost found sibs missing
  | step found sibs entry _ ih => exact .step found sibs entry (ih entry ended)

theorem Walks.findNames {names : List CString} (walks : Walks vfs d (names.map CString.bytes) r) :
    ∃ lt, ∀ fuel ≥ lt, findNames vfs fuel names d = some r := by
  induction names generalizing d with
  | nil =>
    cases walks with
    | here => exact ⟨0, fun _ _ => rfl⟩
  | cons name names ih =>
    cases walks with
    | @lost _ node l _ _ found sibs missing =>
      refine ⟨l.length + 1, ?_⟩
      intro fuel le
      rw [Fs.findNames, vfsPathFind, found]
      simp [findInList_eq sibs name le, missing]
    | @step _ _ node l _ _ found sibs entry rest =>
      obtain ⟨lt, later⟩ := ih rest
      refine ⟨max (l.length + 1) lt, ?_⟩
      intro fuel le
      have here := findInList_eq sibs name (le_of_max_le_left le)
      rw [Fs.findNames, vfsPathFind, found]
      simp [here, entry, later fuel (le_of_max_le_right le)]

theorem findComponents_walks (hasRoot : vfs.root ≠ 0) {c : UInt8}
    (nonzero : 0 ∉ rest) (walks : Walks vfs vfs.root (rest.splitOn slash) r) :
    ∃ lt, ∀ fuel ≥ lt, findComponents vfs fuel (c :: rest) = some r := by
  obtain ⟨name, names, path, split, plain⟩ := exists_components nonzero
  rw [split] at walks
  obtain ⟨lt, found⟩ := walks.findNames
  refine ⟨lt, ?_⟩
  intro fuel le
  rw [findComponents, if_neg hasRoot, path]
  exact (scanPath_eq_findNames vfs fuel names plain ..).trans (found fuel le)

/-! ## Relative paths -/

/-- The working directories: the root, or an absolute path without a separator at its end. -/
structure WorkingDirectory (cwd : List UInt8) : Prop where
  nonzero : 0 ∉ cwd
  absolute : cwd.head? = some slash
  trimmed : cwd = [slash] ∨ cwd.getLast? ≠ some slash

/-- A path that starts at the working directory. -/
structure RelativePath (path : List UInt8) : Prop where
  nonzero : 0 ∉ path
  nonempty : path ≠ []
  relative : path.head? ≠ some slash
  trimmed : path.getLast? ≠ some slash

/-- The names from the root to the working directory. -/
def directoryNames (cwd : List UInt8) : List (List UInt8) :=
  if cwd = [slash] then [] else cwd.tail.splitOn slash

/-- Where the components of the path lead from the node of the working directory. -/
inductive LeadsBelow (vfs : Vfs) (cwd path : List UInt8) : Nat → Prop where
  | missing (walks : Walks vfs vfs.root (directoryNames cwd) 0) : LeadsBelow vfs cwd path 0
  | below {c r : Nat} (walks : Walks vfs vfs.root (directoryNames cwd) c) (nonnull : c ≠ 0)
      (rest : Walks vfs c (path.splitOn slash) r) : LeadsBelow vfs cwd path r

/-- Where the lookup in the working directory ends.  Below the root the path starts with two
separators, between which an empty component is looked for. -/
def LeadsGlued (vfs : Vfs) (cwd path : List UInt8) (r : Nat) : Prop :=
  Walks vfs vfs.root (cwd.tail.splitOn slash ++ path.splitOn slash) r

/-- Where the lookup goes on when the one in the working directory failed: at the root,
without the first character of the path. -/
def LeadsCut (vfs : Vfs) (path : List UInt8) (r : Nat) : Prop :=
  Walks vfs vfs.root (path.tail.splitOn slash) r

/-- In a directory other than the root: the path leads somewhere, or nothing is found for the path
without its first character. In the root: looking for the path behind an empty component, or else
without its first character, leads to where the path leads. -/
def LookupFits (vfs : Vfs) (cwd path : List UInt8) : Prop := if cwd = [slash] then
    ∃ r, Walks vfs vfs.root (path.splitOn slash) r ∧
      ((r ≠ 0 ∧ LeadsGlued vfs cwd path r) ∨ (LeadsGlued vfs cwd path 0 ∧ LeadsCut vfs path r))
  else LeadsCut vfs path 0 ∨ ∃ r, r ≠ 0 ∧ LeadsBelow vfs cwd path r

theorem LeadsBelow.unique (leads : LeadsBelow vfs cwd path r)
    (leads' : LeadsBelow vfs cwd path r') : r = r' := by
  cases leads with
  | missing walks =>
    cases leads' with
    | missing _ => rfl
    | below walks' ne' _ => exact absurd (walks'.unique walks) ne'
  | below walks ne rest =>
    cases leads' with
    | missing walks' => exact absurd (walks.unique walks') ne
    | below walks' _ rest' =>
      rw [walks.unique walks'] at rest
      exact rest.unique rest'

theorem leadsBelow_root (tree : Walkable vfs) :
    LeadsBelow vfs [slash] path r ↔ Walks vfs vfs.root (path.splitOn slash) r := by
  have start : directoryNames [slash] = [] := if_pos rfl
  constructor
  · intro leads
    cases leads with
    | missing walks =>
      exact absurd (walks.unique (.here vfs.root)).symm tree.hasRoot
    | below walks _ rest =>
      rwa [walks.unique (.here vfs.root)] at rest
  · intro walks
    exact .below (start ▸ .here vfs.root) tree.hasRoot walks

theorem LeadsBelow.glued (tree : Walkable vfs) (inner : cwd ≠ [slash])
    (leads : LeadsBelow vfs cwd path r) : LeadsGlued vfs cwd path r := by
  have start : directoryNames cwd = cwd.tail.splitOn slash := if_neg inner
  cases leads with
  | missing walks => exact (start ▸ walks).append_missing tree.hasRoot _
  | below walks ne rest => exact (start ▸ walks).append ne rest

variable {g t : Nat}

section

variable (tree : Walkable vfs) {cwd path : List UInt8}

include tree

theorem vfsFindPath_relative (dir : WorkingDirectory cwd) (relative : RelativePath path)
    (glued : LeadsGlued vfs cwd path g) (cut : LeadsCut vfs path t) :
    ∃ enough, ∀ fuel ≥ enough, ∀ depth,
      vfsFindPath vfs cwd fuel (depth + 2) path = some (if g ≠ 0 then g else t) := by
  obtain ⟨directory, rfl⟩ := head?_eq_some_iff.mp dir.absolute
  obtain ⟨c, rest, rfl⟩ := exists_cons_of_ne_nil relative.nonempty
  have ne : c ≠ slash := fun same => relative.relative (congrArg some same)
  have nonzeroRest : 0 ∉ rest := fun mem => relative.nonzero (mem_cons_of_mem c mem)
  have nonzeroGlued : 0 ∉ directory ++ slash :: c :: rest := by
    intro mem
    rcases mem_append.mp mem with lt | lt
    · exact dir.nonzero (mem_cons_of_mem slash lt)
    · cases lt with
      | tail _ later => exact relative.nonzero later
  have gluedSplit : (directory ++ slash :: c :: rest).splitOn slash =
      directory.splitOn slash ++ (c :: rest).splitOn slash :=
    splitOnP_append_cons directory (c :: rest) (beq_self_eq_true slash)
  have walksGlued : Walks vfs vfs.root ((directory ++ slash :: c :: rest).splitOn slash) g := by
    rw [gluedSplit]
    exact glued
  obtain ⟨enough, inner⟩ := findComponents_walks (c := slash) tree.hasRoot nonzeroGlued walksGlued
  obtain ⟨enough', outer⟩ := findComponents_walks (c := c) tree.hasRoot nonzeroRest cut
  refine ⟨max enough enough', ?_⟩
  intro fuel le depth
  have absolute : vfsFindPath vfs (slash :: directory) fuel (depth + 1)
      (slash :: (directory ++ slash :: c :: rest)) = some g := by
    have second : (slash :: (directory ++ slash :: c :: rest)).getD 1 0 ≠ 0 := by
      intro zero
      apply nonzeroGlued
      rw [← zero]
      cases directory with
      | nil => exact mem_cons_self
      | cons b directory => exact mem_cons_self
    rw [vfsFindPath, if_neg (by simp), if_neg second]
    exact inner fuel (le_of_max_le_left le)
  have first : (c :: rest).getD 0 0 ≠ slash := ne
  rw [vfsFindPath, if_pos first]
  show (vfsFindPath vfs (slash :: directory) fuel (depth + 1)
    (slash :: (directory ++ slash :: c :: rest))).bind _ = _
  rw [absolute, bind_some, outer fuel (le_of_max_le_right le)]
  split <;> rfl

theorem leadsBelow_inner_iff (inner : cwd ≠ [slash]) (glued : LeadsGlued vfs cwd path g)
    (cut : LeadsCut vfs path t) :
    LeadsBelow vfs cwd path (if g ≠ 0 then g else t) ↔ LookupFits vfs cwd path := by
  obtain ⟨w, leads⟩ : ∃ r, LeadsBelow vfs cwd path r := by
    obtain ⟨node, found⟩ := tree.root
    obtain ⟨c, walks⟩ := tree.walks (directoryNames cwd) found
    by_cases missing : c = 0
    · rw [missing] at walks
      exact ⟨0, .missing walks⟩
    obtain ⟨fields, found'⟩ := walks.lookup missing found
    obtain ⟨r, rest⟩ := tree.walks (path.splitOn slash) found'
    exact ⟨r, .below walks missing rest⟩
  obtain rfl : w = g := (leads.glued tree inner).unique glued
  rw [LookupFits, if_neg inner]
  by_cases found : w ≠ 0
  · rw [if_pos found]
    exact ⟨fun _ => .inr ⟨w, found, leads⟩, fun _ => leads⟩
  obtain rfl : w = 0 := not_not.mp found
  constructor
  · intro leads'
    obtain rfl : t = 0 := leads'.unique leads
    exact .inl cut
  · rintro (cut' | ⟨r, ne, leads'⟩)
    · rw [cut.unique cut']
      exact leads
    · exact absurd (leads'.unique leads) ne

/-- A relative path is looked up below the working directory exactly if the lookup fits. -/
theorem relative_lookup_iff (dir : WorkingDirectory cwd) (relative : RelativePath path) :
    ∃ r, (∃ enough, ∀ fuel ≥ enough, ∀ depth, vfsFindPath vfs cwd fuel (depth + 2) path = some r) ∧
      (LeadsBelow vfs cwd path r ↔ LookupFits vfs cwd path) := by
  obtain ⟨node, found⟩ := tree.root
  obtain ⟨g, glued⟩ := tree.walks (cwd.tail.splitOn slash ++ path.splitOn slash) found
  obtain ⟨t, cut⟩ := tree.walks (path.tail.splitOn slash) found
  refine ⟨_, vfsFindPath_relative tree dir relative glued cut, ?_⟩
  by_cases atRoot : cwd = [slash]
  · subst atRoot
    rw [leadsBelow_root tree, LookupFits, if_pos rfl]
    constructor
    · intro walks
      refine ⟨_, walks, ?_⟩
      by_cases found : g ≠ 0
      · rw [if_pos found]
        exact .inl ⟨found, glued⟩
      · rw [if_neg found]
        exact .inr ⟨not_not.mp found ▸ glued, cut⟩
    · rintro ⟨r, walks, ⟨ne, glued'⟩ | ⟨glued', cut'⟩⟩
      · rw [glued.unique glued', if_pos ne]
        exact walks
      · rw [glued.unique glued', cut.unique cut', if_neg (not_not.mpr rfl)]
        exact walks
  · exact leadsBelow_inner_iff tree atRoot glued cut

end

theorem nameA_nonzero : (0 : UInt8) ∉ [97] := by decide

theorem nameB_nonzero : (0 : UInt8) ∉ [98] := by decide

/-- The root has the entries `a` and `b`, and `a` has an entry `b` of its own. -/
def twoEntries : Vfs :=
  ((((⟨∅, 1⟩ : Vfs).insert 1 ⟨⟨[], rootName_nonzero⟩, vfsDirectory, 1, 1, 0, 2⟩).insert 2
    ⟨⟨[97], nameA_nonzero⟩, vfsDirectory, 2, 1, 3, 4⟩).insert 3
    ⟨⟨[98], nameB_nonzero⟩, 1, 3, 1, 0, 0⟩).insert 4 ⟨⟨[98], nameB_nonzero⟩, 1, 4, 2, 0, 0⟩

theorem twoEntries_root : Siblings twoEntries 2 [2, 3] :=
  .cons (by decide) rfl (.cons (by decide) rfl .nil)

theorem twoEntries_inner : Siblings twoEntries 4 [4] := .cons (by decide) rfl .nil

theorem twoEntries_walkable : Walkable twoEntries where
  hasRoot := by decide
  root := ⟨_, rfl⟩
  lists := by
    intro d node found
    simp only [twoEntries, Vfs.lookup_insert] at found
    split at found
    · obtain rfl := some.inj found
      exact ⟨[], .nil⟩
    split at found
    · obtain rfl := some.inj found
      exact ⟨[], .nil⟩
    split at found
    · obtain rfl := some.inj found
      exact ⟨[4], twoEntries_inner⟩
    split at found
    · obtain rfl := some.inj found
      exact ⟨[2, 3], twoEntries_root⟩
    · cases found

theorem relative_lookup_inner :
    WorkingDirectory [47, 97] ∧ RelativePath [98] ∧ LookupFits twoEntries [47, 97] [98] ∧
    ∃ r, (∃ enough, ∀ fuel ≥ enough, ∀ depth,
        vfsFindPath twoEntries [47, 97] fuel (depth + 2) [98] = some r) ∧
      (LeadsBelow twoEntries [47, 97] [98] r ↔ LookupFits twoEntries [47, 97] [98]) := by
  have dir : WorkingDirectory [47, 97] := ⟨by decide, rfl, .inr (by decide)⟩
  have relative : RelativePath [98] := ⟨by decide, by decide, by decide, by decide⟩
  have toA : Walks twoEntries 1 [[97]] 2 := .step rfl twoEntries_root (by decide) (.here 2)
  have toB : Walks twoEntries 2 [[98]] 4 := .step rfl twoEntries_inner (by decide) (.here 4)
  refine ⟨dir, relative, ?_, relative_lookup_iff twoEntries_walkable dir relative⟩
  exact .inr ⟨4, by decide, .below toA (by decide) toB⟩

/-- In `/a` nothing is called `xb`, and the lookup returns `/b`.  In the root `b` is not
found. -/
theorem relative_lookup_fails : (vfsFindPath twoEntries [47, 97] 3 2 [120, 98] = some 3 ∧
      LeadsBelow twoEntries [47, 97] [120, 98] 0) ∧
    vfsFindPath twoEntries [47] 3 2 [98] = some 0 ∧ LeadsBelow twoEntries [47] [98] 3 := by
  have toA : Walks twoEntries 1 [[97]] 2 := .step rfl twoEntries_root (by decide) (.here 2)
  have toXb : Walks twoEntries 2 [[120, 98]] 0 := .lost rfl twoEntries_inner (by decide)
  have toB : Walks twoEntries 1 [[98]] 3 := .step rfl twoEntries_root (by decide) (.here 3)
  exact ⟨⟨rfl, .below toA (by decide) toXb⟩, rfl, (leadsBelow_root twoEntries_walkable).mpr toB⟩

end

/-- With enough fuel the lookup returns this pointer. -/
def Finds (vfs : Vfs) (cwd path : List UInt8) (q : Nat) : Prop :=
  ∃ enough, ∀ fuel ≥ enough, ∀ depth, vfsFindPath vfs cwd fuel (depth + 1) path = some q

variable {q : Nat}

theorem Finds.unique {cwd path : List UInt8} {q' : Nat} (finds : Finds vfs cwd path q)
    (finds' : Finds vfs cwd path q') : q = q' := by
  obtain ⟨le, here⟩ := finds
  obtain ⟨le', here'⟩ := finds'
  have same := here (max le le') (le_max_left ..) 0
  rw [here' (max le le') (le_max_right ..) 0] at same
  exact (some.inj same).symm

theorem finds_root (vfs : Vfs) (cwd : List UInt8) : Finds vfs cwd [slash] vfs.root :=
  ⟨0, fun _ _ _ => rfl⟩

theorem Walks.finds (hasRoot : vfs.root ≠ 0) (ne : rest ≠ [])
    (nonzero : 0 ∉ rest) (walks : Walks vfs vfs.root (rest.splitOn slash) q) (cwd : List UInt8) :
    Finds vfs cwd (slash :: rest) q := by
  obtain ⟨lt, found⟩ := findComponents_walks (c := slash) hasRoot nonzero walks
  refine ⟨lt, ?_⟩
  intro fuel le depth
  have second : (slash :: rest).getD 1 0 ≠ 0 := by
    obtain ⟨b, tail, rfl⟩ := exists_cons_of_ne_nil ne
    intro zero
    apply nonzero
    rw [← show b = 0 from zero]
    exact mem_cons_self
  rw [vfsFindPath, if_neg (by simp), if_neg second]
  exact found fuel le

theorem Walks.finds_pathOf (hasRoot : vfs.root ≠ 0) {names : List CString}
    (areNames : ∀ name ∈ names, PathName name) (nonempty : names ≠ [])
    (walks : Walks vfs vfs.root (names.map CString.bytes) q) (cwd : List UInt8) :
    Finds vfs cwd (pathOf names) q := by
  obtain ⟨rest, path, nonemptyRest, ne, split⟩ : ∃ rest, pathOf names = slash :: rest ∧ rest ≠
      [] ∧ 0 ∉ rest ∧ rest.splitOn slash = names.map CString.bytes := by
    have pieces : names.map CString.bytes ≠ [] := fun empty => nonempty (map_eq_nil_iff.mp empty)
    have plain : ∀ piece ∈ names.map CString.bytes, slash ∉ piece := by
      intro piece mem
      obtain ⟨name, isName, rfl⟩ := mem_map.mp mem
      exact (areNames name isName).plain
    have path : pathOf names = slash :: [slash].intercalate (names.map CString.bytes) := by
      rw [pathOf_eq_joined, joined_eq_cons_intercalate slash pieces]
    refine ⟨_, path, ?_, ?_, splitOn_intercalate slash plain pieces⟩
    · intro empty
      obtain ⟨name, rest, rfl⟩ := exists_cons_of_ne_nil nonempty
      rw [empty] at path
      have whole : slash :: (name.bytes ++ pathOf rest) = [slash] := path
      have nothing : name.bytes ++ pathOf rest = [] := (cons.inj whole).2
      exact (areNames name mem_cons_self).nonempty (append_eq_nil_iff.mp nothing).1
    · intro zero
      apply nonzero_pathOf names
      rw [path]
      exact mem_cons_of_mem slash zero
  rw [path]
  rw [← split] at walks
  exact walks.finds hasRoot nonemptyRest ne cwd

/-- Every node is an entry of one directory at most, and the root of none. -/
structure VfsTree (vfs : Vfs) : Prop extends Walkable vfs where
  single : ∀ {d d' q : Nat} {node node' : Node} {l l' : List Nat},
    vfs.nodes.lookup d = some node → vfs.nodes.lookup d' = some node' →
    Siblings vfs node.dirlist l → Siblings vfs node'.dirlist l' → q ∈ l → q ∈ l' → d = d'
  rootFree : ∀ {d : Nat} {node : Node} {l : List Nat}, vfs.nodes.lookup d = some node →
    Siblings vfs node.dirlist l → vfs.root ∉ l

variable {d r : Nat}

theorem Walks.last_step {names : List (List UInt8)} (walks : Walks vfs d (names ++ [name]) r)
    (start : d ≠ 0) (ne : r ≠ 0) :
    ∃ c node l, Walks vfs d names c ∧ c ≠ 0 ∧ vfs.nodes.lookup c = some node ∧
      Siblings vfs node.dirlist l ∧ nodeNamed vfs l name = r := by
  induction names generalizing d with
  | nil =>
    cases walks with
    | lost _ _ _ => exact absurd rfl ne
    | step found sibs entry rest =>
      cases rest with
      | here => exact ⟨d, _, _, .here d, start, found, sibs, rfl⟩
  | cons other names ih =>
    cases walks with
    | lost _ _ _ => exact absurd rfl ne
    | step found sibs entry rest =>
      obtain ⟨c, node, l, walks, lt⟩ := ih rest entry
      exact ⟨c, node, l, .step found sibs entry walks, lt⟩

theorem name_of_nodeNamed (entry : nodeNamed vfs l name ≠ 0) :
    ∃ node, vfs.nodes.lookup (nodeNamed vfs l name) = some node ∧ node.name.bytes = name := by
  unfold nodeNamed at entry ⊢
  cases search : l.find? _ with
  | none =>
    rw [search] at entry
    exact absurd rfl entry
  | some q =>
    have named := find?_some search
    rw [getD_some]
    cases found : vfs.nodes.lookup q with
    | none => simp [found] at named
    | some node => exact ⟨node, rfl, by simpa [found] using named⟩

theorem VfsTree.route_unique (tree : VfsTree vfs) (ne : r ≠ 0)
    {names names' : List (List UInt8)} (walks : Walks vfs vfs.root names r)
    (walks' : Walks vfs vfs.root names' r) : names = names' := by
  have rootOnly {names : List (List UInt8)} {name : List UInt8} {r : Nat} (atRoot : r = vfs.root)
      (walks : Walks vfs vfs.root (names ++ [name]) r) : False := by
    subst atRoot
    obtain ⟨c, node, l, -, -, found, sibs, named⟩ := walks.last_step tree.hasRoot tree.hasRoot
    apply tree.rootFree found sibs
    rw [← named]
    exact nodeNamed_mem (named ▸ tree.hasRoot)
  induction names using List.reverseRecOn generalizing names' r with
  | nil =>
    have atRoot : r = vfs.root := walks.unique (.here vfs.root)
    induction names' using List.reverseRecOn with
    | nil => rfl
    | append_singleton names' name' _ => exact (rootOnly atRoot walks').elim
  | append_singleton names name ih =>
    induction names' using List.reverseRecOn with
    | nil =>
      have atRoot : r = vfs.root := walks'.unique (.here vfs.root)
      exact (rootOnly atRoot walks).elim
    | append_singleton names' name' _ =>
      obtain ⟨c, node, l, toC, nonnullC, found, sibs, named⟩ := walks.last_step tree.hasRoot ne
      obtain ⟨c', node', l', toC', -, found', sibs', named'⟩ := walks'.last_step tree.hasRoot ne
      obtain ⟨entry, foundR, nameR⟩ := name_of_nodeNamed (named ▸ ne)
      obtain ⟨entry', foundR', nameR'⟩ := name_of_nodeNamed (named' ▸ ne)
      have mem := nodeNamed_mem (named ▸ ne)
      have mem' := nodeNamed_mem (named' ▸ ne)
      rw [named] at foundR mem
      rw [named'] at foundR' mem'
      obtain rfl := tree.single found found' sibs sibs' mem mem'
      obtain rfl := mem_unique foundR foundR'
      rw [ih nonnullC toC toC', ← nameR, ← nameR']

/-! ## A tree with one more entry -/

theorem nodeNamed_congr
    (same : ∀ q ∈ l, (vfs'.nodes.lookup q).map Node.name = (vfs.nodes.lookup q).map Node.name)
    (name : List UInt8) : nodeNamed vfs' l name = nodeNamed vfs l name := by
  have test (q : Nat) (mem : q ∈ l) :
      ((vfs'.nodes.lookup q).any fun node => node.name.bytes = name) =
        (vfs.nodes.lookup q).any fun node => node.name.bytes = name := by
    have names := same q mem
    cases found' : vfs'.nodes.lookup q with
    | none =>
      rw [found', map_none] at names
      rw [map_eq_none_iff.mp names.symm]
    | some node' =>
      rw [found', map_some] at names
      obtain ⟨node, found, named⟩ := map_eq_some_iff.mp names.symm
      rw [found, any_some, any_some, named]
  unfold nodeNamed
  congr 1
  induction l with
  | nil => rfl
  | cons q l ih =>
    rw [find?_cons, find?_cons, test q mem_cons_self,
      ih (fun q mem => same q (mem_cons_of_mem _ mem)) fun q mem => test q (mem_cons_of_mem _ mem)]

theorem nodeNamed_concat_old (entry : nodeNamed vfs l name ≠ 0) (p : Nat) :
    nodeNamed vfs (l ++ [p]) name = nodeNamed vfs l name := by
  unfold nodeNamed at entry ⊢
  rw [find?_append]
  cases search : l.find? _ with
  | none =>
    rw [search] at entry
    exact absurd rfl entry
  | some q => rfl

theorem nodeNamed_concat_new (ne : ∀ q ∈ l, q ≠ 0) (missing : nodeNamed vfs l name = 0)
    (found : vfs.nodes.lookup p = some node) :
    nodeNamed vfs (l ++ [p]) name = if node.name.bytes = name then p else 0 := by
  unfold nodeNamed at missing ⊢
  rw [find?_append]
  cases search : l.find? _ with
  | some q =>
    rw [search] at missing
    exact absurd missing (ne q (mem_of_find?_eq_some search))
  | none =>
    split <;> simp_all

section

variable {last p : Nat} (appended : Appended vfs vfs' last p)

include appended

theorem Appended.names (sibs : Siblings vfs q l) (name : List UInt8) :
    nodeNamed vfs' l name = nodeNamed vfs l name := by
  apply nodeNamed_congr
  intro q mem
  obtain ⟨-, node, found⟩ := sibs.lookup mem
  obtain ⟨node', found', name', -⟩ := appended.kept q node found
  rw [found, found', map_some, map_some, name']

theorem Appended.siblings_other (sibs : Siblings vfs q l) (notMember : last ∉ l) :
    Siblings vfs' q l := by
  induction sibs with
  | nil => exact .nil
  | @cons q node rest ne found next ih =>
    obtain ⟨node', found', -, -, link⟩ := appended.kept q node found
    have other : q ≠ last := fun same => notMember (same ▸ mem_cons_self)
    rw [if_neg other] at link
    refine .cons ne found' ?_
    rw [link]
    exact ih fun mem => notMember (mem_cons_of_mem q mem)

theorem Appended.siblings_new (sibs : Siblings vfs q l) (isLast : l.getLast? = some last)
    (ne : p ≠ 0) {entry : Node} (foundP : vfs'.nodes.lookup p = some entry)
    (leaf : entry.nextnode = 0) : Siblings vfs' q (l ++ [p]) := by
  induction sibs with
  | nil => cases isLast
  | @cons q node rest nonnullQ found next ih =>
    obtain ⟨node', found', -, -, link⟩ := appended.kept q node found
    refine .cons nonnullQ found' ?_
    rw [link]
    cases rest with
    | nil =>
      obtain rfl : q = last := some.inj isLast
      rw [if_pos rfl]
      exact .cons ne foundP (leaf ▸ .nil)
    | cons r rest =>
      rw [if_neg (appended.not_last found next.ne_zero)]
      exact ih isLast

end

/-- The tree has one more entry, a node without entries at the end of the list of the directory. -/
structure NewEntry (vfs vfs' : Vfs) (dirs : List (List UInt8)) (dir p : Nat) (l : List Nat)
    (entry : Node) : Prop where
  tree : VfsTree vfs
  toDir : Walks vfs vfs.root dirs dir
  nonnullDir : dir ≠ 0
  listed : ∃ fields, vfs.nodes.lookup dir = some fields ∧ Siblings vfs fields.dirlist l
  appended : ∃ last, l.getLast? = some last ∧ Appended vfs vfs' last p
  nonnull : p ≠ 0
  found : vfs'.nodes.lookup p = some entry
  leaf : entry.nextnode = 0
  empty : entry.dirlist = 0

variable {l' : List Nat}

section

variable {dirs : List (List UInt8)} {dir p : Nat} {entry : Node}
  (new : NewEntry vfs vfs' dirs dir p l entry)

include new

theorem NewEntry.sibs (found : vfs.nodes.lookup d = some node)
    (sibs : Siblings vfs node.dirlist l') :
    ∃ node', vfs'.nodes.lookup d = some node' ∧
      Siblings vfs' node'.dirlist (if d = dir then l' ++ [p] else l') := by
  obtain ⟨fields, foundDir, listed⟩ := new.listed
  obtain ⟨last, isLast, appended⟩ := new.appended
  obtain ⟨node', found', -, dirlist, -⟩ := appended.kept d node found
  refine ⟨node', found', ?_⟩
  rw [dirlist]
  split
  · next same =>
      subst same
      obtain rfl := mem_unique found foundDir
      obtain rfl := sibs.unique listed
      exact appended.siblings_new sibs isLast new.nonnull new.found new.leaf
  · next ne =>
      apply appended.siblings_other sibs
      intro mem
      exact ne (new.tree.single found foundDir sibs listed mem (mem_of_getLast? isLast))

theorem NewEntry.names (sibs : Siblings vfs q l') (name : List UInt8) :
    nodeNamed vfs' l' name = nodeNamed vfs l' name := by
  obtain ⟨last, -, appended⟩ := new.appended
  exact appended.names sibs name

theorem NewEntry.walks_other {route names : List (List UInt8)} (toD : Walks vfs vfs.root route d)
    (nonnullD : d ≠ 0) (walks : Walks vfs d names q)
    (ne : route ++ names ≠ dirs ++ [entry.name.bytes]) : Walks vfs' d names q := by
  induction names generalizing route d with
  | nil =>
    cases walks with
    | here => exact .here _
  | cons name names ih =>
    cases walks with
    | @lost _ node l' _ _ found sibs missing =>
      obtain ⟨node', found', sibs'⟩ := new.sibs found sibs
      have missing' : nodeNamed vfs' l' name = 0 := (new.names sibs name).trans missing
      by_cases here : d = dir
      · rw [if_pos here] at sibs'
        have added := nodeNamed_concat_new (fun q mem => (sibs.lookup mem).1) missing' new.found
        by_cases named : entry.name.bytes = name
        · -- The new entry is passed on the way to something below it.
          rw [if_pos named] at added
          have sameRoute : route = dirs := new.tree.route_unique nonnullD toD (here ▸ new.toDir)
          cases names with
          | nil => exact absurd (by rw [sameRoute, named]) ne
          | cons next names =>
            refine .step found' sibs' ?_ ?_
            · rw [added]
              exact new.nonnull
            · rw [added]
              exact .lost new.found (new.empty ▸ Siblings.nil) rfl
        · rw [if_neg named] at added
          exact .lost found' sibs' added
      · rw [if_neg here] at sibs'
        exact .lost found' sibs' missing'
    | @step _ _ node l' _ _ found sibs entryD rest =>
      obtain ⟨node', found', sibs'⟩ := new.sibs found sibs
      have same : nodeNamed vfs' (if d = dir then l' ++ [p] else l') name =
          nodeNamed vfs l' name := by
        have kept := new.names sibs name
        split
        · rw [nodeNamed_concat_old (kept ▸ entryD), kept]
        · exact kept
      have further := toD.append nonnullD
        (.step found sibs entryD (.here (nodeNamed vfs l' name)))
      have later := ih further entryD rest (by rwa [append_assoc])
      refine .step found' sibs' ?_ ?_
      · rw [same]
        exact entryD
      · rw [same]
        exact later

theorem NewEntry.walks_new (missing : nodeNamed vfs l entry.name.bytes = 0) :
    Walks vfs' vfs.root (dirs ++ [entry.name.bytes]) p := by
  obtain ⟨fields, foundDir, listed⟩ := new.listed
  obtain ⟨node', found', sibs'⟩ := new.sibs foundDir listed
  rw [if_pos rfl] at sibs'
  have missing' := (new.names listed entry.name.bytes).trans missing
  have added := nodeNamed_concat_new (fun q mem => (listed.lookup mem).1) missing' new.found
  rw [if_pos rfl] at added
  have toDir : Walks vfs' vfs.root dirs dir := by
    apply new.walks_other (.here vfs.root) new.tree.hasRoot new.toDir
    intro same
    have lengths := congrArg List.length same
    simp at lengths
  refine toDir.append new.nonnullDir (.step found' sibs' ?_ ?_)
  · rw [added]
    exact new.nonnull
  · rw [added]
    exact .here p

end

theorem Appended.findInList_unnamed {last : Nat} (appended : Appended vfs vfs' last p)
    (sibs : Siblings vfs q l) (isLast : l.getLast? = some last) {name : CString}
    (absent : Absent vfs l name) (ne : p ≠ 0) (unnamed : vfs'.nodes.lookup p = none)
    (fuel : Nat) : findInList vfs' name.mem fuel q = none := by
  rw [appended.findInList_skips sibs isLast absent]
  split
  · rfl
  cases fuel - l.length with
  | zero => rfl
  | succ fuel =>
    rw [findInList, if_neg ne, unnamed]
    rfl

theorem Appended.not_finds {last dir : Nat} (appended : Appended vfs vfs' last p)
    (hasRoot : vfs.root ≠ 0) {dirs : List CString} {name : CString}
    (areNames : ∀ other ∈ dirs ++ [name], PathName other)
    (toDir : Walks vfs vfs.root (dirs.map CString.bytes) dir) (nonnullDir : dir ≠ 0) {fields : Node}
    (foundDir : vfs.nodes.lookup dir = some fields) (sibs : Siblings vfs fields.dirlist l)
    (isLast : l.getLast? = some last) (missing : nodeNamed vfs l name.bytes = 0) (ne : p ≠ 0)
    (unnamed : vfs'.nodes.lookup p = none) (cwd : List UInt8) (q : Nat) :
    ¬ Finds vfs' cwd (pathOf (dirs ++ [name])) q := by
  rintro ⟨le, finds⟩
  obtain ⟨le', toDir'⟩ := toDir.findNames
  have found := finds (max le le') (le_max_left ..) 0
  rw [vfsFindPath_absolute vfs' cwd _ 0 (by simp) areNames, appended.root, if_neg hasRoot,
    findNames_append dirs [name]
      (findNames_kept appended.extends (le_refl _) (toDir' _ (le_max_right ..)) nonnullDir)
      nonnullDir] at found
  obtain ⟨fields', foundDir', -, dirlist, -⟩ := appended.kept dir fields foundDir
  rw [findNames, vfsPathFind, foundDir'] at found
  simp only [bind, bind_some, dirlist] at found
  have absentOfNodeNamed : Absent vfs l name := by
    intro r mem node found named
    have here : ∃ r ∈ l, ((vfs.nodes.lookup r).any fun node => node.name.bytes = name.bytes) = true
      :=
      ⟨r, mem, by simp [found, named]⟩
    obtain ⟨s, search⟩ := isSome_iff_exists.mp (find?_isSome.mpr here)
    rw [nodeNamed, search] at missing
    exact (sibs.lookup (mem_of_find?_eq_some search)).1 missing
  rw [appended.findInList_unnamed sibs isLast (absentOfNodeNamed) ne unnamed] at found
  cases found

end Yanix.Fs
