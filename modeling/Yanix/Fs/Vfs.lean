/-
Module: Yanix.Fs.Vfs
Purpose: `kernel/fs/vfs/vfs.c`: the tree of nodes, finding a node by its path, rewriting a path in
  place, publishing a node under a path, and `_vfs_open`.
Trusted boundary: hand-translated from C; `kmalloc` succeeds, its addresses and the bytes behind its
  blocks are parameters.  Loops along pointers and the recursion over directories have fuel; using
  a pointer to no node or leaving a block ends a run like running out of it.  The buffers of
  lookups, permissions, the ids of nodes and `errno` are left out
-/
import Mathlib.Data.Finmap
import Yanix.Libk.String

namespace Yanix.Fs

open Foundation Libk

def vfsDirectory : UInt8 := 2

/-- The character that separates the components of a path. -/
def slash : UInt8 := 47

theorem zero_ne_slash : (0 : UInt8) ≠ slash := by decide

/-- The fields of `vfs_node_t` that make up the tree; the null pointer is zero. -/
structure Node where
  name : CString
  type : UInt8
  offset : Nat
  parent : Nat
  nextnode : Nat
  dirlist : Nat

/-- The nodes by their addresses, and `g_vfs_root`. -/
structure Vfs where
  nodes : Finmap fun _ : Nat => Node
  root : Nat

namespace Vfs

def insert (vfs : Vfs) (p : Nat) (node : Node) : Vfs :=
  { vfs with nodes := vfs.nodes.insert p node }

/-- Assigning to fields of the node that `p` points to. -/
def modify (vfs : Vfs) (p : Nat) (f : Node → Node) : Option Vfs :=
  (vfs.nodes.lookup p).map fun node => vfs.insert p (f node)

theorem lookup_insert (vfs : Vfs) (p : Nat) (node : Node) (q : Nat) :
    (vfs.insert p node).nodes.lookup q = if q = p then some node else vfs.nodes.lookup q := by
  split
  · next same =>
      rw [same]
      exact Finmap.lookup_insert vfs.nodes
  · next ne => exact Finmap.lookup_insert_of_ne vfs.nodes ne

theorem modify_eq_insert {vfs : Vfs} {p : Nat} {node : Node}
    (found : vfs.nodes.lookup p = some node)
    (f : Node → Node) : vfs.modify p f = some (vfs.insert p (f node)) := by
  rw [modify, found]
  rfl

end Vfs

/-! ## Finding a node -/

/-- The loop of `_vfs_path_find`. -/
def findInList (vfs : Vfs) (name : Bytes) : (fuel tmp : Nat) → Option Nat
  | 0, _ => none
  | fuel + 1, tmp =>
    if tmp = 0 then some 0
    else do
      let node ← vfs.nodes.lookup tmp
      if strcmp name node.name.bytes = 0 then some tmp
      else findInList vfs name fuel node.nextnode

def vfsPathFind (vfs : Vfs) (fuel node : Nat) (name : Bytes) : Option Nat := do
  let node ← vfs.nodes.lookup node
  findInList vfs name fuel node.dirlist

/-- The loop of `vfs_find_path` over the characters of the path, of which `rest` is what
follows; the buffer collects the component.  A zero ends it before it is read, so that it does not
matter which of the bytes behind `memset` clears. -/
def scanPath (vfs : Vfs) (fuel : Nat) : (rest : List UInt8) → (buffer : Bytes) →
    (bufferiter node : Nat) → Option Nat
  | [], buffer, bufferiter, node => do
    let buffer := Function.update buffer bufferiter 0
    vfsPathFind vfs fuel node buffer
  | c :: rest, buffer, bufferiter, node =>
    if c = slash then do
      let buffer := Function.update buffer bufferiter 0
      let node ← vfsPathFind vfs fuel node buffer
      if node = 0 then some 0
      else scanPath vfs fuel rest (blit buffer 0 (fun _ => 0) 0 (bufferiter + 2)) 0 node
    else scanPath vfs fuel rest (Function.update buffer bufferiter c) (bufferiter + 1) node

/-- The part of `vfs_find_path` behind the special cases.  The first character is
skipped. -/
def findComponents (vfs : Vfs) (fuel : Nat) (path : List UInt8) : Option Nat :=
  if vfs.root = 0 then some 0
  else
    match path with
    | [] => some 0
    | _ :: rest => scanPath vfs fuel rest (fun _ => 0) 0 vfs.root

/-- `depth` bounds the recursion for relative paths, `cwd` is the directory of the
current task. -/
def vfsFindPath (vfs : Vfs) (cwd : List UInt8) (fuel : Nat) :
    (depth : Nat) → (path : List UInt8) → Option Nat
  | 0, _ => none
  | depth + 1, path =>
    if path.getD 0 0 ≠ slash then do
      let node ← vfsFindPath vfs cwd fuel depth (cwd ++ slash :: path)
      if node ≠ 0 then some node else findComponents vfs fuel path
    else if path.getD 1 0 = 0 then some vfs.root
    else findComponents vfs fuel path

/-! ## Building the tree -/

/-- What the file system tells about its directories: the type of an inode, and the entries
`dir_read` enumerates after `dir_open`. -/
structure DirFs where
  typeOf : Nat → UInt8
  dirOpen : Nat → Option (List (CString × Nat))

/-- `fs_makenode`, as `ext2_vfs_entry` has it: there is no inode zero. -/
def fsMakenode (fs : DirFs) (inode : Nat) (name : CString) : Option Node :=
  if inode = 0 then none else some ⟨name, fs.typeOf inode, inode, 0, 0, 0⟩

def dot : CString := ⟨[46], by decide⟩

def dotDot : CString := ⟨[46, 46], by decide⟩

/-- The variables of the loop over the entries of a directory. -/
structure LoopState where
  first : Bool
  prevnode : Nat
  vfs : Vfs

/-- `prevnode->dirlist = node`, or `prevnode->nextnode = node`. -/
def setLink (first : Bool) (p : Nat) (node : Node) : Node :=
  if first then { node with dirlist := p } else { node with nextnode := p }

/-- One round of the loop.  `descend` is the recursive call. -/
def addEntry (fs : DirFs) (kmalloc : Vfs → Nat)
    (descend : (start startnode : Nat) → Vfs → Option Vfs) (s : LoopState)
    (entry : CString × Nat) : Option LoopState :=
  match fsMakenode fs entry.2 entry.1 with
  | none => some s
  | some node => do
    let p := kmalloc s.vfs
    let vfs := s.vfs.insert p { node with parent := s.prevnode }
    let vfs ← vfs.modify s.prevnode (setLink s.first p)
    let vfs ← if node.type = vfsDirectory ∧ strcmp entry.1.mem dot.bytes ≠ 0 ∧
          strcmp dotDot.mem entry.1.bytes ≠ 0 then descend node.offset p vfs
      else some vfs
    some ⟨false, p, vfs⟩

/-- `loop_over_filesystem` below the root. -/
def loopDirectory (fs : DirFs) (kmalloc : Vfs → Nat) :
    (fuel start startnode : Nat) → Vfs → Option Vfs
  | 0, _, _, _ => none
  | fuel + 1, start, startnode, vfs =>
    match fs.dirOpen start with
    | none => some vfs
    | some entries =>
      (entries.foldlM (addEntry fs kmalloc (loopDirectory fs kmalloc fuel))
        ⟨true, startnode, vfs⟩).map LoopState.vfs

def loopOverFilesystem (fs : DirFs) (kmalloc : Vfs → Nat) (fuel start : Nat) (rootnode : Bool)
    (startnode : Nat) (vfs : Vfs) : Option Vfs :=
  if rootnode then do
    let node ← fsMakenode fs start ⟨[], by decide⟩
    let p := kmalloc vfs
    let vfs := { vfs.insert p { node with parent := p } with root := p }
    loopDirectory fs kmalloc fuel start p vfs
  else loopDirectory fs kmalloc fuel start startnode vfs

/-- The loop of `shiftpath`; the length is taken anew in every round. Rounds are at most the bytes
of the block. -/
def shiftLoop (path amount : Nat) : (fuel i : Nat) → Buffer → Option Buffer
  | 0, _, _ => none
  | fuel + 1, i, buf => do
    let length ← strlen (buf.drop path)
    if i < length then do
      let c ← buf[path + i + amount]?
      let buf ← buf.store (path + i) c
      shiftLoop path amount fuel (i + 1) buf
    else some buf

def shiftpath (buf : Buffer) (path amount : Nat) : Option Buffer :=
  shiftLoop path amount (buf.length + 1) 0 buf

/-- The loop of `snippath`: `rounds` are left and `path` is where to write next. -/
def snipLoop (len : Nat) : (rounds path : Nat) → Buffer → Option Buffer
  | 0, _, buf => some buf
  | rounds + 1, path, buf => do
    let c ← buf[path + len]?
    let buf ← buf.store path c
    snipLoop len rounds (path + 1) buf

/-- The source passes a third number that is not used. -/
def snippath (buf : Buffer) (path len : Nat) : Option Buffer := snipLoop len len path buf

/-! ## One character -/

/-- Tests on the characters from some place on, joined by `&&`: a character is read only
if all tests before it succeeded. -/
def charsAre : (tests : List (UInt8 → Bool)) → Buffer → Option Bool
  | [], _ => some true
  | _ :: _, [] => none
  | test :: tests, c :: rest => if test c then charsAre tests rest else some false

/-- `if (tests from buf[i] on) action` -/
def whenChars (tests : List (UInt8 → Bool)) (i : Nat) (action : Buffer → Option Buffer)
    (buf : Buffer) : Option Buffer := do
  let holds ← charsAre tests (buf.drop i)
  if holds then action buf else some buf

def isSlash (c : UInt8) : Bool := c == slash

def isDot (c : UInt8) : Bool := c == 46

def isEnd (c : UInt8) : Bool := c == 0

/-- `c == '\0' || c == '/'` -/
def endsComponent (c : UInt8) : Bool := c == 0 || c == slash

/-- A separator at the end of the path. -/
def dropEndSlash (i : Nat) : Buffer → Option Buffer :=
  whenChars [isSlash, isEnd] i fun buf => buf.store i 0

/-- Two separators. -/
def mergeSlashes (i : Nat) : Buffer → Option Buffer :=
  whenChars [isSlash, isSlash] i fun buf => shiftpath buf i 1

/-- A component that stands for the directory itself. -/
def dropDot (i : Nat) : Buffer → Option Buffer :=
  whenChars [isSlash, isDot, endsComponent] i fun buf => shiftpath buf i 2

/-- A component that goes up: it is cut out together with what stands behind `entryloc`. -/
def cutDotDot (i entryloc : Nat) : Buffer → Option Buffer :=
  whenChars [isSlash, isDot, isDot, endsComponent] i fun buf =>
    snippath buf entryloc (i - entryloc + 3)

/-- The body of the loop. -/
def interpretChar (i entryloc : Nat) (buf : Buffer) : Option (Nat × Buffer) := do
  let buf ← dropEndSlash i buf
  let buf ← mergeSlashes i buf
  let buf ← dropDot i buf
  let buf ← cutDotDot i entryloc buf
  let atSlash ← charsAre [isSlash] (buf.drop i)
  some (if atSlash then i else entryloc, buf)

/-- The loop over the characters, whose number is taken anew in every round. -/
def interpretLoop : (fuel i entryloc : Nat) → Buffer → Option Buffer
  | 0, _, _, _ => none
  | fuel + 1, i, entryloc, buf => do
    let length ← strlen buf
    if i < length then do
      let (entryloc, buf) ← interpretChar i entryloc buf
      interpretLoop fuel (i + 1) entryloc buf
    else some buf

def vfsInterpretPath (buf : Buffer) : Option Buffer := interpretLoop (buf.length + 1) 0 0 buf

/-- The string at the beginning of a block, as a callee reads it. -/
def stringAt (buf : Buffer) : Option (List UInt8) := do
  let length ← strlen buf
  some (buf.take length)

/-- `if (path[pathlen - 1] == '/')` and its body: the copy and its length afterwards. -/
def dropTrailing (path tmp : Buffer) (pathlen : Nat) : Option (Buffer × Nat) := match pathlen with
  | 0 => none
  | k + 1 => do
    let c ← path[k]?
    if c = slash then do
      let tmp ← tmp.store k 0
      some (tmp, k)
    else some (tmp, k + 1)

/-- The loops `for (int i = pathlen; i != 0; i--)` that look for a separator.  The one at
the very front is not looked at. -/
def lastSlash (tmp : Buffer) : (i : Nat) → Option (Option Nat)
  | 0 => some none
  | i + 1 => do
    let c ← tmp[i + 1]?
    if c = slash then some (some (i + 1)) else lastSlash tmp i

/-- `behind` is what the heap holds behind the copy of the path and its terminator. -/
def vfsGetName (path behind : List UInt8) : Option (List UInt8) := do
  let (tmp, pathlen) ← dropTrailing (path ++ [0]) (path ++ 0 :: behind) (path.length + 1)
  match ← lastSlash tmp pathlen with
  | some i => stringAt (tmp.drop (i + 1))
  | none => stringAt tmp

/-- `while (ntmp->nextnode != 0) ntmp = ntmp->nextnode` -/
def lastSibling (vfs : Vfs) : (fuel ntmp : Nat) → Option Nat
  | 0, _ => none
  | fuel + 1, ntmp =>
    if ntmp = 0 then none
    else do
      let node ← vfs.nodes.lookup ntmp
      if node.nextnode ≠ 0 then lastSibling vfs fuel node.nextnode else some ntmp

/-- The directory in which to link: what the copy names once it is cut at the separator. -/
def directoryOf (vfs : Vfs) (cwd : List UInt8) (fuel depth : Nat) (tmp : Buffer) (pathlen : Nat) :
    Option Nat := do
  match ← lastSlash tmp pathlen with
  | some i => do
    let tmp ← tmp.store i 0
    let directory ← stringAt tmp
    vfsFindPath vfs cwd fuel depth directory
  | none => some 0

/-- The node becomes the last entry of the directory. -/
def appendNode (vfs : Vfs) (fuel dir node : Nat) : Option Vfs := do
  let vfs ← vfs.modify node fun fields => { fields with parent := dir }
  let fields ← vfs.nodes.lookup dir
  let ntmp ← lastSibling vfs fuel fields.dirlist
  vfs.modify ntmp fun fields => { fields with nextnode := node }

/-- `behind` is what the heap holds behind the copy of the path, for which there is no
terminator. -/
def vfsLinkNodeVfs (vfs : Vfs) (cwd : List UInt8) (fuel depth : Nat) (path : List UInt8)
    (node : Nat) (behind : List UInt8) : Option (Int × Vfs) := do
  let (tmp, pathlen) ← dropTrailing (path ++ [0]) (path ++ behind) path.length
  let dir ← directoryOf vfs cwd fuel depth tmp pathlen
  if dir = 0 then some (-1, vfs)
  else do
    let vfs ← appendNode vfs fuel dir node
    some (0, vfs)

def oCreat : Nat := 0x200

/-- `_get_type`, which asks for a link twice. -/
def getType (mode : Nat) : UInt8 :=
  let format := mode &&& 0o170000
  if format = 0o040000 then vfsDirectory
  else if format = 0o020000 then 3
  else if format = 0o120000 then 6
  else if format = 0o010000 then 5
  else if format = 0o060000 then 4
  else if format = 0o120000 then 6
  else if format = 0o140000 then 9
  else 1

/-! ## Nodes without a name -/

/-- What a callback that creates a file returns, and the two fields of the node that are
left to it. -/
structure CreateAnswer where
  ret : Int
  name : Option CString
  offset : Nat

/-- The callback of a file system, which gets the name of the new file and the flags. -/
structure FsCallbacks where
  createNode : Option (List UInt8 → Nat → CreateAnswer)

/-- A node whose name is the null pointer, with the fields that `_create_node` fills. -/
structure UnnamedNode where
  type : UInt8
  offset : Nat
  fsInfo : Option FsCallbacks
  parent : Nat
  nextnode : Nat
  dirlist : Nat

/-- The nodes with a name are those of the tree.  To the lookup, which uses the name of
every entry it passes, one without a name is like no node. -/
structure NodeHeap where
  vfs : Vfs
  unnamed : Finmap fun _ : Nat => UnnamedNode

namespace NodeHeap

/-- `p->nextnode` -/
def nextnode (nodes : NodeHeap) (p : Nat) : Option Nat := match nodes.vfs.nodes.lookup p with
  | some node => some node.nextnode
  | none => (nodes.unnamed.lookup p).map UnnamedNode.nextnode

/-- `p->nextnode = q` -/
def setNextnode (nodes : NodeHeap) (p q : Nat) : Option NodeHeap :=
  match nodes.vfs.nodes.lookup p with
  | some node => some { nodes with vfs := nodes.vfs.insert p { node with nextnode := q } }
  | none =>
    (nodes.unnamed.lookup p).map fun node =>
      { nodes with unnamed := nodes.unnamed.insert p { node with nextnode := q } }

/-- `p->offset` -/
def offset (nodes : NodeHeap) (p : Nat) : Option Nat := match nodes.vfs.nodes.lookup p with
  | some node => some node.offset
  | none => (nodes.unnamed.lookup p).map UnnamedNode.offset

/-- The memory of a node is given back. -/
def kfree (nodes : NodeHeap) (p : Nat) : NodeHeap where
  vfs := { nodes.vfs with nodes := nodes.vfs.nodes.erase p }
  unnamed := nodes.unnamed.erase p

/-- What the callback left in the node. -/
def answered (nodes : NodeHeap) (p : Nat) (node : UnnamedNode) (answer : CreateAnswer) :
    NodeHeap :=
  match answer.name with
  | none =>
    { nodes with unnamed := nodes.unnamed.insert p { node with offset := answer.offset } }
  | some name =>
    { vfs := nodes.vfs.insert p
        ⟨name, node.type, answer.offset, node.parent, node.nextnode, node.dirlist⟩
      unnamed := nodes.unnamed.erase p }

end NodeHeap

/-! ## Creating a node -/

/-- How a run can end other than by returning. -/
inductive OpenFault where
  /-- A null pointer is used. -/
  | nullPointer
  /-- A byte in front of a block is read. -/
  | outside
  /-- A loop does not end, or an address is used that is not one of a node with a name. -/
  | lost
  deriving DecidableEq

/-- What is asked of the heap. -/
inductive BlockCall where
  | kmalloc (p : Nat)
  | kfree (p : Nat)
  deriving DecidableEq

/-- What a run depends on besides the nodes: the addresses of the blocks for the path's copy, the
node and the name, the working directory, and the file system and `open` of each node. -/
structure OpenEnv where
  path : Nat
  node : Nat
  newpath : Nat
  cwd : List UInt8
  fsInfo : Nat → Option FsCallbacks
  opens : Nat → Option (Nat → Nat → Int)

/-- What a run leaves. -/
structure OpenRun where
  result : Except OpenFault Nat
  nodes : NodeHeap
  calls : List BlockCall

def findDirPath (vfs : Vfs) (cwd : List UInt8) (fuel depth : Nat) (nodepath : List UInt8) :
    Except OpenFault Nat :=
  match nodepath.getLast? with
  | none => .error .outside
  | some c =>
    let path := if c = slash then nodepath.dropLast else nodepath
    match strchrR path slash with
    | none => .error .nullPointer
    | some cutoff =>
      match vfsFindPath vfs cwd fuel depth (path.take cutoff) with
      | none => .error .lost
      | some dir => .ok dir

/-- `while (tmp->nextnode) tmp = tmp->nextnode` -/
def lastLinked (nodes : NodeHeap) : (fuel tmp : Nat) → Option Nat
  | 0, _ => none
  | fuel + 1, tmp => do
    let next ← nodes.nextnode tmp
    if next ≠ 0 then lastLinked nodes fuel next else some tmp

/-- The node is linked behind the last entry of the directory. -/
def linkLast (nodes : NodeHeap) (fuel dir node : Nat) : Except OpenFault NodeHeap :=
  match nodes.vfs.nodes.lookup dir with
  | none => .error .lost
  | some fields =>
    if fields.dirlist = 0 then .error .nullPointer
    else
      match lastLinked nodes fuel fields.dirlist with
      | none => .error .lost
      | some tmp =>
        match nodes.setNextnode tmp node with
        | none => .error .lost
        | some nodes => .ok nodes

/-- The fields that are not assigned stay zero, the name among them. -/
def createNode (env : OpenEnv) (fuel depth : Nat) (nodes : NodeHeap) (nodepath : List UInt8)
    (mode : Nat) : OpenRun :=
  match findDirPath nodes.vfs env.cwd fuel depth nodepath with
  | .error fault => ⟨.error fault, nodes, [.kmalloc env.path]⟩
  | .ok dir =>
    let calls := [.kmalloc env.path, .kfree env.path]
    if dir = 0 then ⟨.ok 0, nodes, calls⟩
    else
      let node : UnnamedNode := ⟨getType mode, 0, env.fsInfo dir, dir, 0, 0⟩
      let nodes := { nodes with unnamed := nodes.unnamed.insert env.node node }
      let calls := calls ++ [.kmalloc env.node]
      match linkLast nodes fuel dir env.node with
      | .error fault => ⟨.error fault, nodes, calls⟩
      | .ok nodes => ⟨.ok env.node, nodes, calls⟩

/-! ## Opening -/

/-- The name that the callback gets: what stands behind the last separator, or everything. -/
def newName (path : List UInt8) : List UInt8 := match strchrR path slash with
  | some i => path.drop (i + 1)
  | none => path

/-- The part behind the creation.  `node->open` of a node that was created is null. -/
def callOpen (answer : Option Int) (node : Nat) (nodes : NodeHeap) (calls : List BlockCall) :
    OpenRun :=
  if node = 0 then ⟨.error .nullPointer, nodes, calls⟩
  else if answer = some (-1) then ⟨.ok 0, nodes, calls⟩
  else ⟨.ok node, nodes, calls⟩

/-- The callback and what follows it.  The node's own `creat` is null. -/
def callCreate (env : OpenEnv) (path : List UInt8) (flags node : Nat) (nodes : NodeHeap)
    (calls : List BlockCall) : OpenRun :=
  match nodes.unnamed.lookup node with
  | none => ⟨.error .lost, nodes, calls⟩
  | some fields =>
    match fields.fsInfo.bind FsCallbacks.createNode with
    | none => callOpen none node nodes calls
    | some create =>
      let calls := calls ++ [.kmalloc env.newpath]
      let answer := create (newName path) flags
      let nodes := nodes.answered node fields answer
      if answer.ret = -1 then
        let calls := calls ++ [.kfree node, .kfree env.newpath]
        callOpen none 0 (nodes.kfree node) (calls ++ [.kfree env.newpath])
      else callOpen none node nodes (calls ++ [.kfree env.newpath])

def vfsOpen (env : OpenEnv) (fuel depth : Nat) (nodes : NodeHeap) (path : List UInt8)
    (flags mode : Nat) : OpenRun :=
  match vfsFindPath nodes.vfs env.cwd fuel depth path with
  | none => ⟨.error .lost, nodes, []⟩
  | some found =>
    if found = 0 then
      if flags &&& oCreat ≠ 0 then
        let made := createNode env fuel depth nodes path mode
        match made.result with
        | .error _ => made
        | .ok node =>
          if node = 0 then made
          else callCreate env path flags node made.nodes made.calls
      else ⟨.ok 0, nodes, []⟩
    else callOpen ((env.opens found).map fun opened => opened flags mode) found nodes []

/-! ## Lookups

Looking up an absolute path is looking up its components in turn. -/

open List Option

/-- The bytes of the path with those components: a separator before each of them. -/
def pathOf (names : List CString) : List UInt8 := names.flatMap fun name => slash :: name.bytes

/-- What can stand between two separators. -/
structure PathName (name : CString) : Prop where
  nonempty : name.bytes ≠ []
  plain : slash ∉ name.bytes

variable {name : CString}

theorem PathName.getD_append_ne_zero (isName : PathName name) (rest : List UInt8) :
    (name.bytes ++ rest).getD 0 0 ≠ 0 := by
  cases bytes : name.bytes with
  | nil => exact absurd bytes isName.nonempty
  | cons b tail =>
    intro zero
    apply name.nonzero
    rw [bytes, ← (zero : b = 0)]
    exact mem_cons_self

/-- The nodes that the components lead to; the null pointer if one is not found. -/
def findNames (vfs : Vfs) (fuel : Nat) : (names : List CString) → (node : Nat) → Option Nat
  | [], node => some node
  | name :: names, node =>
    (vfsPathFind vfs fuel node name.mem).bind fun next =>
      if next = 0 then some 0 else findNames vfs fuel names next

variable {vfs : Vfs} {buffer buffer' : Bytes}

theorem findInList_congr (spells : Spells buffer name.bytes) (spells' : Spells buffer' name.bytes)
    (fuel tmp : Nat) : findInList vfs buffer fuel tmp = findInList vfs buffer' fuel tmp := by
  induction fuel generalizing tmp with
  | zero => rfl
  | succ fuel ih =>
    have compared (other : CString) :
        strcmp buffer other.bytes = 0 ↔ strcmp buffer' other.bytes = 0 :=
      (strcmp_eq_zero_iff spells other).trans (strcmp_eq_zero_iff spells' other).symm
    simp only [findInList, compared, ih]

theorem vfsPathFind_congr (spells : Spells buffer name.bytes) (spells' : Spells buffer' name.bytes)
    (fuel node : Nat) : vfsPathFind vfs fuel node buffer = vfsPathFind vfs fuel node buffer' := by
  simp only [vfsPathFind, findInList_congr spells spells']

theorem scanPath_component (vfs : Vfs) (fuel : Nat) {bytes : List UInt8} (plain : slash ∉ bytes)
    (rest : List UInt8) (buffer : Bytes) (bufferiter node : Nat) :
    scanPath vfs fuel (bytes ++ rest) buffer bufferiter node =
      scanPath vfs fuel rest (blit buffer bufferiter (fun i => bytes.getD i 0) 0 bytes.length)
        (bufferiter + bytes.length) node := by
  induction bytes generalizing buffer bufferiter with
  | nil => rw [length_nil, blit_zero, nil_append, Nat.add_zero]
  | cons b bytes ih =>
    have notSlash : b ≠ slash := fun same => plain (by simp [same])
    have plainRest : slash ∉ bytes := fun mem => plain (mem_cons_of_mem b mem)
    rw [cons_append, scanPath, if_neg notSlash, ih plainRest, blit_cons, length_cons,
      Nat.add_assoc, Nat.add_comm 1]

theorem scanPath_eq_findNames (vfs : Vfs) (fuel : Nat) (names : List CString)
    (plain : ∀ other ∈ name :: names, slash ∉ other.bytes) (buffer : Bytes) (node : Nat) :
    scanPath vfs fuel (name.bytes ++ pathOf names) buffer 0 node =
      findNames vfs fuel (name :: names) node := by
  induction names generalizing name buffer node with
  | nil =>
    rw [scanPath_component vfs fuel (plain name mem_cons_self), Nat.zero_add, findNames,
      pathOf, flatMap_nil, scanPath,
      vfsPathFind_congr (spells_blit buffer name.bytes) name.mem_spells]
    cases vfsPathFind vfs fuel node name.mem with
    | none => rfl
    | some next =>
      by_cases zero : next = 0
      · simp [zero]
      · simp [zero, findNames]
  | cons other names ih =>
    have plainRest : ∀ another ∈ other :: names, slash ∉ another.bytes :=
      fun another mem => plain another (mem_cons_of_mem name mem)
    have separated : pathOf (other :: names) = slash :: (other.bytes ++ pathOf names) := rfl
    rw [scanPath_component vfs fuel (plain name mem_cons_self), separated, scanPath,
      if_pos rfl, Nat.zero_add, findNames]
    dsimp only
    rw [vfsPathFind_congr (spells_blit buffer name.bytes) name.mem_spells]
    cases vfsPathFind vfs fuel node name.mem with
    | none => rfl
    | some next =>
      simp only [bind, bind_some]
      rw [ih plainRest]

theorem vfsFindPath_absolute (vfs : Vfs) (cwd : List UInt8) (fuel depth : Nat)
    {names : List CString} (ne : names ≠ []) (areNames : ∀ name ∈ names, PathName name) :
    vfsFindPath vfs cwd fuel (depth + 1) (pathOf names) =
      if vfs.root = 0 then some 0 else findNames vfs fuel names vfs.root := by
  cases names with
  | nil => exact absurd rfl ne
  | cons name names =>
    have path : pathOf (name :: names) = slash :: (name.bytes ++ pathOf names) := rfl
    have notRoot : (slash :: (name.bytes ++ pathOf names)).getD 1 0 ≠ 0 := by
      rw [getD_cons_succ]
      exact (areNames name mem_cons_self).getD_append_ne_zero _
    rw [path, vfsFindPath, if_neg (by simp), if_neg notRoot, findComponents,
      scanPath_eq_findNames vfs fuel names fun other mem => (areNames other mem).plain]

end Yanix.Fs
