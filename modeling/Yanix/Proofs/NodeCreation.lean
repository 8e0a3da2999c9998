/-
Module: Yanix.Proofs.NodeCreation
Purpose: What `_vfs_open` leaves in the tree when it creates a node: a link without a
  name, which stays if the callback fails.
-/
import Yanix.Proofs.RelativeLookup

namespace Yanix.Fs

open Foundation Libk List Option

variable {nodes : NodeHeap} {env : OpenEnv} {dirs : List CString} {name : CString} {p : Nat}
  {fuel last : Nat}

theorem NodeHeap.nextnode_insert (fresh : nodes.vfs.nodes.lookup p = none) (node : UnnamedNode)
    (q : Nat) :
    ({ nodes with unnamed := nodes.unnamed.insert p node } : NodeHeap).nextnode q =
      if q = p then some node.nextnode else nodes.nextnode q := by
  unfold NodeHeap.nextnode
  by_cases same : q = p
  · subst same
    simp [fresh]
  · rw [if_neg same, Finmap.lookup_insert_of_ne _ same]

variable {nodes' : NodeHeap} {q : Nat}

theorem NodeHeap.nextnode_setNextnode (set : nodes.setNextnode p q = some nodes') (r : Nat) :
    nodes'.nextnode r = if r = p then some q else nodes.nextnode r := by
  unfold NodeHeap.setNextnode at set
  split at set
  · next node found =>
      obtain rfl := some.inj set
      unfold NodeHeap.nextnode
      rw [Vfs.lookup_insert]
      by_cases same : r = p
      · rw [if_pos same, if_pos same]
      · rw [if_neg same, if_neg same]
  · next gone =>
      obtain ⟨node, found, rfl⟩ := map_eq_some_iff.mp set
      exact NodeHeap.nextnode_insert gone _ r

theorem NodeHeap.nextnode_kfree (nodes : NodeHeap) (p q : Nat) :
    (nodes.kfree p).nextnode q = if q = p then none else nodes.nextnode q := by
  unfold NodeHeap.kfree NodeHeap.nextnode
  by_cases same : q = p
  · subst same
    simp
  · rw [if_neg same, Finmap.lookup_erase_ne same, Finmap.lookup_erase_ne same]

theorem NodeHeap.nextnode_answered (ne : q ≠ p) (node : UnnamedNode) (ret : CreateAnswer) :
    (nodes.answered p node ret).nextnode q = nodes.nextnode q := by
  unfold NodeHeap.answered
  cases ret.name with
  | none => simp only [NodeHeap.nextnode, Finmap.lookup_insert_of_ne _ ne]
  | some name =>
    simp only [NodeHeap.nextnode, Vfs.lookup_insert, if_neg ne, Finmap.lookup_erase_ne ne]

variable {tmp : Nat}

theorem lastLinked_ended (linked : lastLinked nodes fuel tmp = some last) :
    nodes.nextnode last = some 0 := by
  induction fuel generalizing tmp with
  | zero => cases linked
  | succ fuel ih =>
    unfold lastLinked at linked
    obtain ⟨next, here, rest⟩ := bind_eq_some_iff.mp linked
    split at rest
    · exact ih rest
    next zero =>
      obtain rfl := some.inj rest
      rw [here, not_not.mp zero]

theorem lastLinked_insert (fresh : nodes.nextnode p = none)
    (freshNamed : nodes.vfs.nodes.lookup p = none) (node : UnnamedNode)
    (linked : lastLinked nodes fuel tmp = some last) :
    lastLinked { nodes with unnamed := nodes.unnamed.insert p node } fuel tmp = some last := by
  induction fuel generalizing tmp with
  | zero => cases linked
  | succ fuel ih =>
    unfold lastLinked at linked ⊢
    obtain ⟨next, here, rest⟩ := bind_eq_some_iff.mp linked
    have ne : tmp ≠ p := by
      rintro rfl
      rw [fresh] at here
      cases here
    refine bind_eq_some_iff.mpr ⟨next, ?_, ?_⟩
    · rw [NodeHeap.nextnode_insert freshNamed, if_neg ne, here]
    split at rest
    · next more =>
        rw [if_pos more]
        exact ih rest
    · next ended => rwa [if_neg ended]

theorem lastLinked_of_lastSibling (linked : lastSibling nodes.vfs fuel tmp = some last) :
    lastLinked nodes fuel tmp = some last := by
  induction fuel generalizing tmp with
  | zero => cases linked
  | succ fuel ih =>
    unfold lastSibling at linked
    split at linked
    · cases linked
    obtain ⟨node, found, rest⟩ := bind_eq_some_iff.mp linked
    have here : nodes.nextnode tmp = some node.nextnode := by
      rw [NodeHeap.nextnode, found]
    unfold lastLinked
    refine bind_eq_some_iff.mpr ⟨node.nextnode, here, ?_⟩
    split at rest
    · next more =>
        rw [if_pos more]
        exact ih rest
    · next ended => rwa [if_neg ended]

theorem NodeHeap.lookup_of_nextnode_none (fresh : nodes.nextnode p = none) :
    nodes.vfs.nodes.lookup p = none := by
  unfold NodeHeap.nextnode at fresh
  split at fresh
  · cases fresh
  · next gone => exact gone

theorem NodeHeap.exists_setNextnode {next : Nat} (here : nodes.nextnode p = some next) (q : Nat) :
    ∃ nodes', nodes.setNextnode p q = some nodes' := by
  unfold NodeHeap.nextnode at here
  unfold NodeHeap.setNextnode
  split at here
  · exact ⟨_, rfl⟩
  · obtain ⟨node, found, -⟩ := map_eq_some_iff.mp here
    exact ⟨_, by rw [found, map_some]⟩

theorem NodeHeap.unnamed_setNextnode {r : Nat} (set : nodes.setNextnode p q = some nodes')
    (ne : r ≠ p) : nodes'.unnamed.lookup r = nodes.unnamed.lookup r := by
  unfold NodeHeap.setNextnode at set
  split at set
  · obtain rfl := some.inj set
    rfl
  · obtain ⟨node, -, rfl⟩ := map_eq_some_iff.mp set
    exact Finmap.lookup_insert_of_ne _ ne

/-- The node as `_create_node` fills it. -/
def OpenEnv.created (env : OpenEnv) (dir mode : Nat) : UnnamedNode :=
  ⟨getType mode, 0, env.fsInfo dir, dir, 0, 0⟩

/-- `_create_node` comes to link its node behind the entry `last` of the directory. -/
structure Creates (env : OpenEnv) (fuel depth : Nat) (nodes : NodeHeap) (path : List UInt8)
    (dir last : Nat) : Prop where
  dirFound : findDirPath nodes.vfs env.cwd fuel depth path = .ok dir
  nonnullDir : dir ≠ 0
  listed : ∃ fields, nodes.vfs.nodes.lookup dir = some fields ∧ fields.dirlist ≠ 0 ∧
    lastLinked nodes fuel fields.dirlist = some last
  fresh : nodes.nextnode env.node = none
  nonnull : env.node ≠ 0

/-- What the callback and the code behind it make of the node. -/
def answeredRun (env : OpenEnv) (dir mode : Nat) (linked : NodeHeap) (answer : CreateAnswer) :
    OpenRun :=
  let calls := [.kmalloc env.path, .kfree env.path, .kmalloc env.node, .kmalloc env.newpath]
  let nodes := linked.answered env.node (env.created dir mode) answer
  if answer.ret = -1 then
    ⟨.error .nullPointer, nodes.kfree env.node,
      calls ++ [.kfree env.node, .kfree env.newpath, .kfree env.newpath]⟩
  else ⟨.ok env.node, nodes, calls ++ [.kfree env.newpath]⟩

section

variable {fuel depth : Nat} {path : List UInt8} {dir last : Nat}
  (creates : Creates env fuel depth nodes path dir last)

include creates

theorem Creates.last_ne : last ≠ env.node := by
  rintro rfl
  obtain ⟨fields, -, -, linked⟩ := creates.listed
  have ended := lastLinked_ended linked
  rw [creates.fresh] at ended
  cases ended

theorem Creates.createNode_eq (mode : Nat) : ∃ linked, ({ nodes with
        unnamed := nodes.unnamed.insert env.node (env.created dir mode) } : NodeHeap).setNextnode
          last env.node = some linked ∧
      createNode env fuel depth nodes path mode =
        ⟨.ok env.node, linked, [.kmalloc env.path, .kfree env.path, .kmalloc env.node]⟩ := by
  obtain ⟨fields, foundDir, ne, linked⟩ := creates.listed
  have freshNamed := NodeHeap.lookup_of_nextnode_none creates.fresh
  have linked' := lastLinked_insert creates.fresh freshNamed (env.created dir mode) linked
  obtain ⟨after, set⟩ := NodeHeap.exists_setNextnode (lastLinked_ended linked') env.node
  refine ⟨after, set, ?_⟩
  have link : linkLast { nodes with
      unnamed := nodes.unnamed.insert env.node (env.created dir mode) } fuel dir env.node =
        .ok after := by
    unfold linkLast
    rw [foundDir]
    dsimp only
    rw [if_neg ne, linked']
    dsimp only
    rw [set]
  unfold createNode
  rw [creates.dirFound]
  dsimp only
  rw [if_neg creates.nonnullDir]
  unfold OpenEnv.created at link
  rw [link]
  rfl

theorem Creates.vfsOpen_eq
    (missing : vfsFindPath nodes.vfs env.cwd fuel depth path = some 0) {flags : Nat}
    (requested : flags &&& oCreat ≠ 0) {create : List UInt8 → Nat → CreateAnswer}
    (callback : (env.fsInfo dir).bind FsCallbacks.createNode = some create) (mode : Nat) :
    ∃ linked, ({ nodes with
        unnamed := nodes.unnamed.insert env.node (env.created dir mode) } : NodeHeap).setNextnode
          last env.node = some linked ∧
      vfsOpen env fuel depth nodes path flags mode =
        answeredRun env dir mode linked (create (newName path) flags) := by
  obtain ⟨linked, set, made⟩ := creates.createNode_eq mode
  refine ⟨linked, set, ?_⟩
  have found : linked.unnamed.lookup env.node = some (env.created dir mode) := by
    rw [NodeHeap.unnamed_setNextnode set creates.last_ne.symm]
    exact Finmap.lookup_insert _
  have bound : (env.created dir mode).fsInfo.bind FsCallbacks.createNode = some create := callback
  unfold vfsOpen
  rw [missing]
  dsimp only
  rw [if_pos rfl, if_pos requested, made]
  dsimp only
  rw [if_neg creates.nonnull]
  unfold callCreate answeredRun
  rw [found]
  dsimp only
  rw [bound]
  dsimp only
  split
  · rfl
  · rw [callOpen, if_neg creates.nonnull, if_neg (by simp)]
    rfl

end

/-! ## A callback that succeeds -/

section

variable (isName : PathName name)

include isName

theorem strchrR_pathOf : strchrR (pathOf (dirs ++ [name])) slash = some (pathOf dirs).length := by
  rw [pathOf_concat]
  exact strchrR_append _ (by decide) isName.plain

theorem newName_pathOf : newName (pathOf (dirs ++ [name])) = name.bytes := by
  rw [newName, strchrR_pathOf isName, pathOf_concat]
  simp

theorem findDirPath_pathOf {vfs : Vfs} {cwd : List UInt8} {depth dir : Nat}
    (found : vfsFindPath vfs cwd fuel depth (pathOf dirs) = some dir) :
    findDirPath vfs cwd fuel depth (pathOf (dirs ++ [name])) = .ok dir := by
  obtain ⟨c, isLast, ne⟩ : ∃ c, ((pathOf dirs ++ [slash]) ++ name.bytes).getLast? = some c ∧ c ≠
      slash := by
    have isLast := getLast?_eq_some_getLast isName.nonempty
    refine ⟨name.bytes.getLast isName.nonempty, ?_, ?_⟩
    · rw [getLast?_append, isLast, some_or]
    intro same
    apply isName.plain
    rw [← same]
    exact getLast_mem isName.nonempty
  have whole : pathOf (dirs ++ [name]) = pathOf dirs ++ [slash] ++ name.bytes := by
    rw [pathOf_concat, append_assoc, singleton_append]
  have front : (pathOf (dirs ++ [name])).take (pathOf dirs).length = pathOf dirs := by
    rw [pathOf_concat, take_left]
  unfold findDirPath
  rw [whole, isLast]
  dsimp only
  rw [if_neg ne, ← whole, strchrR_pathOf isName]
  dsimp only
  rw [front, found]

end

/-- The path leads to the node, which has the number that the callback returned; every other
absolute path leads to where it led, and lookups in the directory return. -/
structure Findable (cwd : List UInt8) (before after : NodeHeap) (dirs : List CString)
    (name : CString) (p : Nat) (ret : Int) : Prop where
  found : Finds after.vfs cwd (pathOf (dirs ++ [name])) p
  numbered : ∃ offset : Nat, after.offset p = some offset ∧ (offset : Int) = ret
  others : ∀ rest q, 0 ∉ rest → slash :: rest ≠ pathOf (dirs ++ [name]) →
    Finds before.vfs cwd (slash :: rest) q → Finds after.vfs cwd (slash :: rest) q
  named : ∀ other, PathName other → ∃ q, Finds after.vfs cwd (pathOf (dirs ++ [other])) q

/-- The directory exists and has a callback, the file does not exist. -/
structure Creatable (env : OpenEnv) (nodes : NodeHeap) (dirs : List CString) (name : CString)
    (dir : Nat) (create : List UInt8 → Nat → CreateAnswer) : Prop where
  tree : VfsTree nodes.vfs
  areNames : ∀ other ∈ dirs ++ [name], PathName other
  nested : dirs ≠ []
  toDir : Walks nodes.vfs nodes.vfs.root (dirs.map CString.bytes) dir
  nonnullDir : dir ≠ 0
  missing : Walks nodes.vfs nodes.vfs.root ((dirs ++ [name]).map CString.bytes) 0
  callback : (env.fsInfo dir).bind FsCallbacks.createNode = some create
  fresh : nodes.nextnode env.node = none
  nonnull : env.node ≠ 0

section

variable {dir : Nat} {create : List UInt8 → Nat → CreateAnswer}
  (creatable : Creatable env nodes dirs name dir create)

include creatable

theorem Creatable.isName : PathName name :=
  creatable.areNames name (mem_append_right dirs mem_cons_self)

theorem Creatable.areDirs : ∀ ne ∈ dirs, PathName ne :=
  fun ne mem => creatable.areNames ne (mem_append_left [name] mem)

theorem Creatable.entries : ∃ fields l, nodes.vfs.nodes.lookup dir = some fields ∧
    Siblings nodes.vfs fields.dirlist l ∧ nodeNamed nodes.vfs l name.bytes = 0 := by
  obtain ⟨node, foundRoot⟩ := creatable.tree.root
  obtain ⟨fields, foundDir⟩ := creatable.toDir.lookup creatable.nonnullDir foundRoot
  obtain ⟨l, sibs⟩ := creatable.tree.lists dir fields foundDir
  refine ⟨fields, l, foundDir, sibs, ?_⟩
  by_contra entry
  have leads := creatable.toDir.append creatable.nonnullDir
    (.step foundDir sibs entry (.here (nodeNamed nodes.vfs l name.bytes)))
  have path : dirs.map CString.bytes ++ [name.bytes] = (dirs ++ [name]).map CString.bytes := by
    rw [map_append, map_singleton]
  rw [path] at leads
  exact entry (leads.unique creatable.missing)

theorem createNode_empty {fields : Node} (foundDir : nodes.vfs.nodes.lookup dir = some fields)
    (empty : fields.dirlist = 0) {depth : Nat} {path : List UInt8}
    (dirFound : findDirPath nodes.vfs env.cwd fuel depth path = .ok dir) (mode : Nat) :
    (createNode env fuel depth nodes path mode).result = .error .nullPointer := by
  unfold createNode
  rw [dirFound]
  dsimp only
  rw [if_neg creatable.nonnullDir]
  unfold linkLast
  rw [foundDir]
  dsimp only
  rw [if_pos empty]

theorem Creatable.run : ∃ lt, ∀ fuel ≥ lt, ∀ depth flags mode p, flags &&& oCreat ≠ 0 →
    (vfsOpen env fuel (depth + 1) nodes (pathOf (dirs ++ [name])) flags mode).result = .ok p →
    p = env.node ∧ ∃ fields l last linked, nodes.vfs.nodes.lookup dir = some fields ∧
      Siblings nodes.vfs fields.dirlist l ∧ nodeNamed nodes.vfs l name.bytes = 0 ∧
      l.getLast? = some last ∧
      ({ nodes with unnamed := nodes.unnamed.insert env.node (env.created dir mode) } :
        NodeHeap).setNextnode last env.node = some linked ∧
      (vfsOpen env fuel (depth + 1) nodes (pathOf (dirs ++ [name])) flags mode).nodes =
        linked.answered env.node (env.created dir mode) (create name.bytes flags) := by
  have hasRoot := creatable.tree.hasRoot
  obtain ⟨lt, findsDir⟩ :=
    creatable.toDir.finds_pathOf hasRoot creatable.areDirs creatable.nested env.cwd
  obtain ⟨lt', findsFile⟩ :=
    creatable.missing.finds_pathOf hasRoot creatable.areNames (by simp) env.cwd
  obtain ⟨fields, l, foundDir, sibs, missing⟩ := creatable.entries
  refine ⟨max (max lt lt') l.length, ?_⟩
  intro fuel le depth flags mode p requested ret
  have dirFound := findDirPath_pathOf creatable.isName (findsDir fuel (by omega) depth)
  have notFound := findsFile fuel (by omega) depth
  have ne : fields.dirlist ≠ 0 := by
    intro empty
    have failed := createNode_empty creatable foundDir empty dirFound mode
    unfold vfsOpen at ret
    rw [notFound] at ret
    dsimp only at ret
    rw [if_pos rfl, if_pos requested, failed] at ret
    dsimp only at ret
    rw [failed] at ret
    cases ret
  obtain ⟨last, isLast⟩ : ∃ last, l.getLast? = some last := by
    cases l with
    | nil => exact absurd sibs.eq_zero ne
    | cons q rest => exact ⟨_, getLast?_eq_some_getLast (cons_ne_nil q rest)⟩
  have linkedLast := lastLinked_of_lastSibling
    ((lastSibling_spec sibs isLast).2 fuel (by omega))
  have creates : Creates env fuel (depth + 1) nodes (pathOf (dirs ++ [name])) dir last :=
    ⟨dirFound, creatable.nonnullDir, ⟨fields, foundDir, ne, linkedLast⟩, creatable.fresh,
      creatable.nonnull⟩
  obtain ⟨linked, set, ran⟩ := creates.vfsOpen_eq notFound requested creatable.callback mode
  rw [newName_pathOf creatable.isName] at ran
  rw [ran] at ret ⊢
  unfold answeredRun at ret ⊢
  split at ret
  · cases ret
  next succeeded =>
    rw [if_neg succeeded]
    refine ⟨?_, fields, l, last, linked, foundDir, sibs, missing, isLast, set, rfl⟩
    cases ret
    rfl

end

variable {linked : NodeHeap} {node : UnnamedNode} {lastFields : Node}

theorem linked_vfs (foundLast : nodes.vfs.nodes.lookup last = some lastFields)
    (set : ({ nodes with unnamed := nodes.unnamed.insert p node } : NodeHeap).setNextnode last p =
      some linked) : linked.vfs = nodes.vfs.insert last { lastFields with nextnode := p } := by
  unfold NodeHeap.setNextnode at set
  dsimp only at set
  rw [foundLast] at set
  obtain rfl := some.inj set
  rfl

theorem appended_linked (fresh : nodes.vfs.nodes.lookup p = none)
    (foundLast : nodes.vfs.nodes.lookup last = some lastFields) (ended : lastFields.nextnode = 0)
    (set : ({ nodes with unnamed := nodes.unnamed.insert p node } : NodeHeap).setNextnode last p =
      some linked) (ret : CreateAnswer) :
    Appended nodes.vfs (linked.answered p node ret).vfs last p := by
  have linkedVfs := linked_vfs foundLast set
  have kept (q : Nat) (old : Node) (found : nodes.vfs.nodes.lookup q = some old) :
      ∃ new, (linked.answered p node ret).vfs.nodes.lookup q = some new ∧
        new.name = old.name ∧ new.dirlist = old.dirlist ∧
        new.nextnode = if q = last then p else old.nextnode := by
    have ne : q ≠ p := by
      rintro rfl
      rw [fresh] at found
      cases found
    have unchanged : (linked.answered p node ret).vfs.nodes.lookup q =
        linked.vfs.nodes.lookup q := by
      unfold NodeHeap.answered
      cases ret.name with
      | none => rfl
      | some name => exact (Vfs.lookup_insert ..).trans (if_neg ne)
    rw [unchanged, linkedVfs, Vfs.lookup_insert]
    by_cases same : q = last
    · subst same
      obtain rfl := some.inj (foundLast.symm.trans found)
      exact ⟨_, if_pos rfl, rfl, rfl, (if_pos rfl).symm⟩
    · exact ⟨old, (if_neg same).trans found, rfl, rfl, (if_neg same).symm⟩
  have root : (linked.answered p node ret).vfs.root = nodes.vfs.root := by
    have linkedRoot : linked.vfs.root = nodes.vfs.root := by
      rw [linkedVfs]
      rfl
    unfold NodeHeap.answered
    cases ret.name with
    | none => exact linkedRoot
    | some name => exact linkedRoot
  exact ⟨root, kept, lastFields, foundLast, ended⟩

variable {l : List Nat}

theorem NewEntry.findable {env : OpenEnv} {after : NodeHeap} {dirs : List CString} {name : CString}
    {dir : Nat} {create : List UInt8 → Nat → CreateAnswer}
    (creatable : Creatable env nodes dirs name dir create) {entry : Node}
    (new : NewEntry nodes.vfs after.vfs (dirs.map CString.bytes) dir p l entry)
    (missing : nodeNamed nodes.vfs l name.bytes = 0) (isNamed : entry.name = name)
    (root : after.vfs.root = nodes.vfs.root) {ret : Int} (numbered : (entry.offset : Int) = ret) :
    Findable env.cwd nodes after dirs name p ret := by
  have hasRoot : after.vfs.root ≠ 0 := by
    rw [root]
    exact creatable.tree.hasRoot
  have path : (dirs ++ [name]).map CString.bytes =
      dirs.map CString.bytes ++ [entry.name.bytes] := by
    rw [map_append, map_singleton, isNamed]
  have found : Finds after.vfs env.cwd (pathOf (dirs ++ [name])) p := by
    have walks := new.walks_new (isNamed.symm ▸ missing)
    rw [← path, ← root] at walks
    exact walks.finds_pathOf hasRoot creatable.areNames (by simp) env.cwd
  have others (rest : List UInt8) (q : Nat) (nonzero : 0 ∉ rest)
      (ne : slash :: rest ≠ pathOf (dirs ++ [name]))
      (finds : Finds nodes.vfs env.cwd (slash :: rest) q) :
      Finds after.vfs env.cwd (slash :: rest) q := by
    by_cases atRoot : rest = []
    · rw [atRoot] at finds ⊢
      rw [finds.unique (finds_root nodes.vfs env.cwd), ← root]
      exact finds_root after.vfs env.cwd
    obtain ⟨node, foundRoot⟩ := creatable.tree.root
    obtain ⟨r, walks⟩ := creatable.tree.walks (rest.splitOn slash) foundRoot
    obtain rfl : q = r := finds.unique (walks.finds creatable.tree.hasRoot atRoot nonzero env.cwd)
    have differs : rest.splitOn slash ≠ dirs.map CString.bytes ++ [entry.name.bytes] := by
      intro same
      apply ne
      rw [pathOf_eq_joined, path, ← same, joined_splitOn]
    have walks' := new.walks_other (.here nodes.vfs.root) creatable.tree.hasRoot walks differs
    rw [← root] at walks'
    exact walks'.finds hasRoot atRoot nonzero env.cwd
  refine ⟨found, ⟨entry.offset, ?_, numbered⟩, others, ?_⟩
  · rw [NodeHeap.offset, new.found]
  intro ne isName
  by_cases same : ne = name
  · rw [same]
    exact ⟨p, found⟩
  have areNames : ∀ another ∈ dirs ++ [ne], PathName another := by
    intro another mem
    rcases mem_append.mp mem with early | late
    · exact creatable.areDirs another early
    · rw [mem_singleton.mp late]
      exact isName
  obtain ⟨node, foundRoot⟩ := creatable.tree.root
  obtain ⟨r, walks⟩ := creatable.tree.walks ((dirs ++ [ne]).map CString.bytes) foundRoot
  have differs : (dirs ++ [ne]).map CString.bytes ≠
      dirs.map CString.bytes ++ [entry.name.bytes] := by
    rw [map_append, map_singleton]
    intro equal
    have names := (cons.inj (append_cancel_left equal)).1
    exact same (CString.ext (names.trans (congrArg CString.bytes isNamed)))
  have walks' := new.walks_other (.here nodes.vfs.root) creatable.tree.hasRoot walks differs
  rw [← root] at walks'
  exact ⟨r, walks'.finds_pathOf hasRoot areNames (by simp) env.cwd⟩

/-- A file that was created can be found exactly if the callback gave the node its name and
its number. -/
theorem created_findable_iff {env : OpenEnv} {nodes : NodeHeap} {dirs : List CString}
    {name : CString} {dir : Nat} {create : List UInt8 → Nat → CreateAnswer}
    (creatable : Creatable env nodes dirs name dir create) :
    ∃ enough, ∀ fuel ≥ enough, ∀ depth flags mode p, flags &&& oCreat ≠ 0 →
      (vfsOpen env fuel (depth + 1) nodes (pathOf (dirs ++ [name])) flags mode).result = .ok p →
      (Findable env.cwd nodes
          (vfsOpen env fuel (depth + 1) nodes (pathOf (dirs ++ [name])) flags mode).nodes dirs name
          p (create name.bytes flags).ret ↔
        (create name.bytes flags).name = some name ∧
          ((create name.bytes flags).offset : Int) = (create name.bytes flags).ret) := by
  obtain ⟨enough, runs⟩ := creatable.run
  refine ⟨enough, ?_⟩
  intro fuel le depth flags mode p requested ret
  obtain ⟨rfl, fields, l, last, linked, foundDir, sibs, missing, isLast, set, after⟩ :=
    runs fuel le depth flags mode p requested ret
  rw [after]
  obtain ⟨lastFields, foundLast, ended⟩ := (lastSibling_spec sibs isLast).1
  have fresh := NodeHeap.lookup_of_nextnode_none creatable.fresh
  generalize create name.bytes flags = answer
  have appended := appended_linked fresh foundLast ended set answer
  cases naming : answer.name with
  | none =>
    -- The lookup of the name comes to the node, which has none.
    have unnamed : (linked.answered env.node (env.created dir mode) answer).vfs.nodes.lookup
        env.node = none := by
      have ne : env.node ≠ last := by
        intro same
        rw [same, foundLast] at fresh
        cases fresh
      unfold NodeHeap.answered
      rw [naming]
      dsimp only
      rw [linked_vfs foundLast set, Vfs.lookup_insert, if_neg ne, fresh]
    constructor
    · intro findable
      exact absurd findable.found (appended.not_finds creatable.tree.hasRoot creatable.areNames
        creatable.toDir creatable.nonnullDir foundDir sibs isLast missing creatable.nonnull
        unnamed env.cwd env.node)
    · rintro ⟨named, -⟩
      cases named
  | some given =>
    have new : NewEntry nodes.vfs (linked.answered env.node (env.created dir mode) answer).vfs
        (dirs.map CString.bytes) dir env.node l
        ⟨given, getType mode, answer.offset, dir, 0, 0⟩ := {
      tree := creatable.tree
      toDir := creatable.toDir
      nonnullDir := creatable.nonnullDir
      listed := ⟨fields, foundDir, sibs⟩
      appended := ⟨last, isLast, appended⟩
      nonnull := creatable.nonnull
      found := by
        unfold NodeHeap.answered
        rw [naming]
        exact (Vfs.lookup_insert ..).trans (if_pos rfl)
      leaf := rfl
      empty := rfl }
    constructor
    · intro findable
      have path : (dirs ++ [name]).map CString.bytes = dirs.map CString.bytes ++ [name.bytes] := by
        rw [map_append, map_singleton]
      have named : given = name := by
        by_contra differs
        -- Under another name the path leads nowhere, as before.
        have walks := new.walks_other (.here nodes.vfs.root) creatable.tree.hasRoot
          creatable.missing (by
            rw [path]
            intro same
            exact differs (CString.ext (cons.inj (append_cancel_left same)).1.symm))
        rw [← appended.root] at walks
        have hasRoot := appended.root ▸ creatable.tree.hasRoot
        exact creatable.nonnull (findable.found.unique
          (walks.finds_pathOf hasRoot creatable.areNames (by simp) env.cwd))
      obtain ⟨offset, here, numbered⟩ := findable.numbered
      rw [NodeHeap.offset, new.found] at here
      obtain rfl : answer.offset = offset := some.inj here
      exact ⟨congrArg some named, numbered⟩
    · rintro ⟨named, numbered⟩
      exact new.findable creatable missing (some.inj named) appended.root numbered

theorem nameD_nonzero : (0 : UInt8) ∉ [100] := by decide

theorem nameN_nonzero : (0 : UInt8) ∉ [110] := by decide

/-- The root has the directory `d`, which has itself as an entry. -/
def directoryD : Vfs :=
  (((⟨∅, 1⟩ : Vfs).insert 1 ⟨⟨[], rootName_nonzero⟩, vfsDirectory, 2, 1, 0, 2⟩).insert 2
    ⟨⟨[100], nameD_nonzero⟩, vfsDirectory, 3, 1, 0, 3⟩).insert 3 ⟨dot, vfsDirectory, 3, 2, 0, 0⟩

/-- Every directory of it has a file system whose callback gives this answer. -/
def answering (answer : CreateAnswer) : OpenEnv where
  path := 10
  node := 11
  newpath := 12
  cwd := [47]
  fsInfo := fun _ => some ⟨some fun _ _ => answer⟩
  opens := fun _ => none

variable {d : Nat}

theorem directoryD_lists {node : Node} (found : directoryD.nodes.lookup d = some node) :
    (d = 1 ∧ Siblings directoryD node.dirlist [2]) ∨
      (d = 2 ∧ Siblings directoryD node.dirlist [3]) ∨ Siblings directoryD node.dirlist [] := by
  simp only [directoryD, Vfs.lookup_insert] at found
  split at found
  · obtain rfl := some.inj found
    exact .inr (.inr .nil)
  split at found
  · next same =>
      obtain rfl := some.inj found
      exact .inr (.inl ⟨same, .cons (by decide) rfl .nil⟩)
  split at found
  · next same =>
      obtain rfl := some.inj found
      exact .inl ⟨same, .cons (by decide) rfl .nil⟩
  · cases found

theorem directoryD_members {node : Node} (found : directoryD.nodes.lookup d = some node)
    (sibs : Siblings directoryD node.dirlist l) (mem : q ∈ l) :
    d = 1 ∧ q = 2 ∨ d = 2 ∧ q = 3 := by
  rcases directoryD_lists found with ⟨rfl, listed⟩ | ⟨rfl, listed⟩ | listed
  · rw [sibs.unique listed] at mem
    exact .inl ⟨rfl, mem_singleton.mp mem⟩
  · rw [sibs.unique listed] at mem
    exact .inr ⟨rfl, mem_singleton.mp mem⟩
  · rw [sibs.unique listed] at mem
    cases mem

theorem directoryD_tree : VfsTree directoryD where
  hasRoot := by decide
  root := ⟨_, rfl⟩
  lists := by
    intro d node found
    rcases directoryD_lists found with ⟨-, listed⟩ | ⟨-, listed⟩ | listed
    · exact ⟨_, listed⟩
    · exact ⟨_, listed⟩
    · exact ⟨_, listed⟩
  single := by
    intro d d' q node node' l l' found found' sibs sibs' mem mem'
    have here := directoryD_members found sibs mem
    have there := directoryD_members found' sibs' mem'
    omega
  rootFree := by
    intro d node l found sibs mem
    have here : directoryD.root = 2 ∨ directoryD.root = 3 :=
      (directoryD_members found sibs mem).imp And.right And.right
    exact absurd here (by decide)

theorem directoryD_creatable (ret : CreateAnswer) :
    Creatable (answering ret) ⟨directoryD, ∅⟩ [⟨[100], nameD_nonzero⟩] ⟨[110], nameN_nonzero⟩ 2
      fun _ _ => ret where
  tree := directoryD_tree
  areNames := by
    intro ne mem
    simp only [cons_append, nil_append, mem_cons, not_mem_nil, or_false] at mem
    rcases mem with rfl | rfl
    · exact ⟨by decide, by decide⟩
    · exact ⟨by decide, by decide⟩
  nested := by simp
  toDir := .step rfl (.cons (by decide) rfl .nil) (by decide) (.here 2)
  nonnullDir := by decide
  missing := .step rfl (.cons (by decide) rfl .nil) (by decide)
    (.lost rfl (.cons (by decide) rfl .nil) (by decide))
  callback := rfl
  fresh := rfl
  nonnull := show 11 ≠ 0 by decide

theorem created_findable_named :
    ∃ enough, ∀ fuel ≥ enough, ∀ depth flags mode p, flags &&& oCreat ≠ 0 →
      (vfsOpen (answering ⟨7, some ⟨[110], nameN_nonzero⟩, 7⟩) fuel (depth + 1) ⟨directoryD, ∅⟩
        [47, 100, 47, 110] flags mode).result = .ok p →
      Findable [47] ⟨directoryD, ∅⟩
        (vfsOpen (answering ⟨7, some ⟨[110], nameN_nonzero⟩, 7⟩) fuel (depth + 1) ⟨directoryD, ∅⟩
          [47, 100, 47, 110] flags mode).nodes [⟨[100], nameD_nonzero⟩] ⟨[110], nameN_nonzero⟩
        p 7 := by
  obtain ⟨enough, findable⟩ := created_findable_iff
    (directoryD_creatable ⟨7, some ⟨[110], nameN_nonzero⟩, 7⟩)
  refine ⟨enough, ?_⟩
  intro fuel le depth flags mode p requested ret
  exact (findable fuel le depth flags mode p requested ret).mpr ⟨rfl, rfl⟩

/-- A callback that only returns the number: the node is returned, but its number is zero and
the lookup of its path uses the null name, whatever the fuel. -/
theorem created_not_findable :
    let run := vfsOpen (answering ⟨7, none, 0⟩) 4 1 ⟨directoryD, ∅⟩ [47, 100, 47, 110] oCreat 0
    run.result = .ok 11 ∧ run.nodes.offset 11 = some 0 ∧
      ∀ fuel, vfsFindPath run.nodes.vfs [47] fuel 1 [47, 100, 47, 110] = none := by
  refine ⟨rfl, rfl, ?_⟩
  intro fuel
  match fuel with
  | 0 => rfl
  | 1 => rfl
  | fuel + 2 => rfl

/-- Nothing of the attempt remains. -/
structure LeavesNoTrace (before : NodeHeap) (run : OpenRun) : Prop where
  returnsNull : run.result = .ok 0
  freedOnce : ∀ p, run.calls.count (.kfree p) = run.calls.count (.kmalloc p)
  sameLinks : ∀ p, run.nodes.nextnode p = before.nextnode p

/-- The file does not exist, is to be created, and the callback returns -1. -/
structure CallbackFails (env : OpenEnv) (fuel depth : Nat) (nodes : NodeHeap)
    (path : List UInt8) (flags dir last : Nat) : Prop
    extends Creates env fuel depth nodes path dir last where
  missing : vfsFindPath nodes.vfs env.cwd fuel depth path = some 0
  requested : flags &&& oCreat ≠ 0
  fails : ∃ create, (env.fsInfo dir).bind FsCallbacks.createNode = some create ∧
    (create (newName path) flags).ret = -1

/-- The null pointer is used, the block of the name is given back twice, and the entry that
was the last points to the node that was given back. -/
theorem failed_create_leaves_traces {env : OpenEnv} {fuel depth : Nat} {nodes : NodeHeap}
    {path : List UInt8} {flags dir last : Nat}
    (callback : CallbackFails env fuel depth nodes path flags dir last) (mode : Nat) :
    let run := vfsOpen env fuel depth nodes path flags mode
    ¬ LeavesNoTrace nodes run ∧ run.result = .error .nullPointer ∧
    run.calls.count (.kfree env.newpath) = run.calls.count (.kmalloc env.newpath) + 1 ∧
    nodes.nextnode last = some 0 ∧ run.nodes.nextnode last = some env.node ∧
    run.nodes.nextnode env.node = none := by
  obtain ⟨create, found, fails⟩ := callback.fails
  obtain ⟨linked, set, ran⟩ := callback.vfsOpen_eq callback.missing callback.requested found mode
  rw [answeredRun, if_pos fails] at ran
  obtain ⟨fields, -, -, isLast⟩ := callback.listed
  have lastBefore := lastLinked_ended isLast
  have lastAfter : ((linked.answered env.node (env.created dir mode)
      (create (newName path) flags)).kfree env.node).nextnode last = some env.node := by
    rw [NodeHeap.nextnode_kfree, if_neg callback.last_ne,
      NodeHeap.nextnode_answered callback.last_ne, NodeHeap.nextnode_setNextnode set, if_pos rfl]
  intro run
  simp only [run, ran]
  refine ⟨?_, trivial, ?_, lastBefore, lastAfter, ?_⟩
  · rintro ⟨returnsNull, -, -⟩
    cases returnsNull
  · simp only [count_append, count_cons, count_nil]
    simp
    omega
  · rw [NodeHeap.nextnode_kfree, if_pos rfl]

theorem failed_create_directoryD :
    let run := vfsOpen (answering ⟨-1, none, 0⟩) 4 1 ⟨directoryD, ∅⟩ [47, 100, 47, 110] oCreat 0
    ¬ LeavesNoTrace ⟨directoryD, ∅⟩ run ∧ run.nodes.nextnode 3 = some 11 := by
  have callback : CallbackFails (answering ⟨-1, none, 0⟩) 4 1 ⟨directoryD, ∅⟩ [47, 100, 47, 110]
      oCreat 2 3 := {
    dirFound := rfl
    nonnullDir := by decide
    listed := ⟨_, rfl, by decide, rfl⟩
    fresh := rfl
    nonnull := by decide
    missing := rfl
    requested := by decide
    fails := ⟨_, rfl, rfl⟩ }
  obtain ⟨traces, -, -, -, dangling, -⟩ := failed_create_leaves_traces callback 0
  exact ⟨traces, dangling⟩

/-- In the same run, computed: the null pointer is used, and block 12 is given back twice. -/
theorem failed_create_computed :
    let run := vfsOpen (answering ⟨-1, none, 0⟩) 4 1 ⟨directoryD, ∅⟩ [47, 100, 47, 110] oCreat 0
    run.result = .error .nullPointer ∧
    run.calls = [.kmalloc 10, .kfree 10, .kmalloc 11, .kmalloc 12, .kfree 11, .kfree 12,
      .kfree 12] ∧
    run.nodes.nextnode 3 = some 11 ∧ directoryD.nodes.lookup 3 =
      some ⟨dot, vfsDirectory, 3, 2, 0, 0⟩ :=
  ⟨rfl, rfl, rfl, rfl⟩

end Yanix.Fs
