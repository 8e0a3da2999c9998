/-
Module: Yanix.Proofs.Sockets
Purpose: What is sent can be received once it ends a line; a descriptor without a socket gets
  a new node in the tree, whether its name is taken or not.
-/
import Yanix.Net.Socket
import Yanix.Proofs.PipeFifo
import Yanix.Proofs.RelativeLookup

namespace Yanix.Net

open Foundation Ds List Option

/-- The states of the pipes through sends on one side of a connection and receives on the other,
with the bytes sent and not received yet. What goes the other way is left open. -/
inductive MessageRun (sender receiver : SocketConn) :
    (Nat → Option Pipe) → List UInt8 → Prop
  | start (pipes : Nat → Option Pipe) (memory : Bytes)
      (created : pipes sender.sendPipe =
        some ⟨createRingbuffer 0 optimizeUshortint memory⟩) :
      MessageRun sender receiver pipes []
  | send {pipes : Nat → Option Pipe} {unread : List UInt8} (buf : Bytes) (size flags : UInt32)
      (before : MessageRun sender receiver pipes unread)
      (fits : unread.length + size.toNat ≤ 65535) :
      MessageRun sender receiver (unixSocketSend (some sender) buf size flags pipes).2
        (unread ++ contents buf size.toNat)
  | recv {pipes pipes' : Nat → Option Pipe} {unread : List UInt8} {ret : Int} {buf' : Bytes}
      (buf : Bytes) (size flags : UInt32) (before : MessageRun sender receiver pipes unread)
      (call : unixSocketRecv (some receiver) buf size flags pipes = some (ret, buf', pipes')) :
      MessageRun sender receiver pipes' (unread.drop ret.toNat)
  | other {pipes pipes' : Nat → Option Pipe} {unread : List UInt8}
      (before : MessageRun sender receiver pipes unread)
      (same : pipes' sender.sendPipe = pipes sender.sendPipe) :
      MessageRun sender receiver pipes' unread

/-- The two ends of one connection. -/
structure Connected (sender receiver : SocketConn) : Prop where
  sending : sender.soc ≠ 0
  receiving : receiver.soc ≠ 0
  crossed : receiver.recvPipe = sender.sendPipe

/-- The loop of `ringbuffer_block` ends, and the call returns at least one and at most `size`
of the unread bytes, in order. -/
def Delivers (receiver : SocketConn) (pipes : Nat → Option Pipe) (unread : List UInt8)
    (buf : Bytes) (size flags : UInt32) : Prop :=
  ∃ (k : Nat) (buf' : Bytes) (pipes' : Nat → Option Pipe),
    unixSocketRecv (some receiver) buf size flags pipes = some ((k : Int), buf', pipes') ∧
    1 ≤ k ∧ k ≤ size.toNat ∧ contents buf' k = unread.take k

theorem lineEnd_eq_zero_iff (queue : List UInt8) : lineEnd queue = 0 ↔ newlineByte ∉ queue := by
  induction queue using List.reverseRecOn with
  | nil => simp
  | append_singleton queue byte ih =>
    rw [lineEnd_concat]
    by_cases newline : byte = newlineByte
    · simp [newline]
    · simp [newline, ih, Ne.symm newline]

section

variable {sender receiver : SocketConn} {pipes : Nat → Option Pipe} {unread : List UInt8}

section

variable {pipe : Pipe} (connected : Connected sender receiver) (h : Accounts pipe.circbuf unread)
  (here : pipes sender.sendPipe = some pipe) (buf : Bytes) (size flags : UInt32)

include connected h here

theorem unixSocketSend_eq : unixSocketSend (some sender) buf size flags pipes =
      (toSigned size.toNat,
        Function.update pipes sender.sendPipe (some ⟨written buf size pipe.circbuf⟩)) := by
  have mode : pipe.circbuf.flags ||| (0 &&& oNonblock) = pipe.circbuf.flags := by simp
  unfold unixSocketSend pipeWriteRaw
  simp only [if_neg connected.sending, here, mode, ringbufferWrite_eq h.unread.ushortint]
  rfl

theorem unixSocketRecv_eq : unixSocketRecv (some receiver) buf size flags pipes =
      if pipe.circbuf.cursize = 0 then none
      else some (((readMax size pipe.circbuf).toNat : Int), blit buf 0 (fun i =>
          pipe.circbuf.bufferStart ((pipe.circbuf.virtualBegin.toNat + i) % ringCells)) 0
          (readMax size pipe.circbuf).toNat,
        Function.update pipes sender.sendPipe
          (some ⟨consumed (readMax size pipe.circbuf) pipe.circbuf⟩)) := by
  have call := ringbufferRead_eq h.unread.ushortint buf size
  rw [h.unread.toSigned_readMax] at call
  unfold unixSocketRecv pipeReadRaw
  simp only [if_neg connected.receiving, connected.crossed, here, call]
  by_cases waits : pipe.circbuf.cursize = 0
  · simp [ringbufferBlocks, waits]
  · simp [ringbufferBlocks, waits, bind, Except.bind, pure, Except.pure]

end

theorem MessageRun.accounts (run : MessageRun sender receiver pipes unread)
    (connected : Connected sender receiver) :
    ∃ pipe, pipes sender.sendPipe = some pipe ∧ Accounts pipe.circbuf unread := by
  induction run with
  | start pipes memory created =>
    have ushortint : optimizeUshortint &&& optimizeUshortint ≠ 0 := by decide
    have blocking : optimizeUshortint &&& oNonblock = 0 := by decide
    exact ⟨_, created, .of_empty ushortint rfl rfl, blocking, rfl⟩
  | send buf size flags lt fits ih =>
    obtain ⟨pipe, here, h⟩ := ih
    rw [unixSocketSend_eq connected h here]
    exact ⟨_, Function.update_self .., h.write buf (Nat.lt_succ_of_le fits)⟩
  | recv buf size flags lt call ih =>
    obtain ⟨pipe, here, h⟩ := ih
    rw [unixSocketRecv_eq connected h here] at call
    split at call
    · cases call
    cases call
    rw [Int.toNat_natCast]
    exact ⟨_, Function.update_self .., h.read size⟩
  | other lt same ih =>
    obtain ⟨pipe, here, h⟩ := ih
    exact ⟨pipe, same.trans here, h⟩

end

/-- In every state in which a byte is unread, a receive that asks for at least one is answered
exactly when the unread bytes have a newline. -/
theorem message_received_iff {sender receiver : SocketConn} {pipes : Nat → Option Pipe}
    {unread : List UInt8} (connected : Connected sender receiver)
    (run : MessageRun sender receiver pipes unread) (buf : Bytes) {size : UInt32} (flags : UInt32)
    (asked : size ≠ 0) :
    Delivers receiver pipes unread buf size flags ↔ newlineByte ∈ unread := by
  obtain ⟨pipe, here, h⟩ := run.accounts connected
  have line : pipe.circbuf.cursize = 0 ↔ newlineByte ∉ unread := by
    rw [← lineEnd_eq_zero_iff, ← h.line, ← UInt32.toNat_inj]
    rfl
  unfold Delivers
  rw [unixSocketRecv_eq connected h here]
  by_cases waits : pipe.circbuf.cursize = 0
  · simp [waits, line.mp waits]
  have taken := h.unread.toNat_readMax size
  have pos (word : UInt32) (ne : word ≠ 0) : 0 < word.toNat :=
    Nat.pos_of_ne_zero fun zero => ne (UInt32.toNat_inj.mp zero)
  have least := pos _ waits
  have some := pos _ asked
  rw [if_neg waits] at taken ⊢
  refine ⟨fun _ => not_not.mp (mt line.mpr waits), fun _ => ⟨_, _, _, rfl, by omega, by omega, ?_⟩⟩
  exact h.unread.delivered buf (h.unread.readMax_le size)

/-- One end of a connection over the pipes 1 and 2, and the other. -/
def oneEnd : SocketConn := ⟨1, 1, 2⟩

def otherEnd : SocketConn := ⟨1, 2, 1⟩

theorem oneEnd_connected : Connected oneEnd otherEnd := ⟨by decide, by decide, rfl⟩

/-- Two new pipes, after `byte` was sent from one end. -/
def afterByte (byte : UInt8) : Nat → Option Pipe :=
  (unixSocketSend (some oneEnd) (fun _ => byte) 1 0
    fun _ => some ⟨createRingbuffer 0 optimizeUshortint fun _ => 0⟩).2

theorem afterByte_run (byte : UInt8) : MessageRun oneEnd otherEnd (afterByte byte) [byte] :=
  .send (fun _ => byte) 1 0 (.start _ (fun _ => 0) rfl) (by decide)

theorem message_received_newline :
    Delivers otherEnd (afterByte newlineByte) [newlineByte] (fun _ => 0) 1 0 :=
  (message_received_iff oneEnd_connected (afterByte_run newlineByte) _ 0 (by decide)).mpr
    (by decide)

/-- A byte that is no newline was sent: the receiver waits. -/
theorem message_received_waits : MessageRun oneEnd otherEnd (afterByte 65) [65] ∧
      (unixSocketRecv (some otherEnd) (fun _ => 0) 1 0 (afterByte 65)).isNone :=
  ⟨afterByte_run 65, by decide⟩

open Libk Fs

/-- The entries of a directory, in order. -/
def Entries (vfs : Vfs) (d : Nat) (l : List Nat) : Prop :=
  ∃ node, vfs.nodes.lookup d = some node ∧ Siblings vfs node.dirlist l

/-- Every list of entries ends, and no node is an entry of two directories. -/
structure Forest (vfs : Vfs) : Prop where
  lists : ∀ {d : Nat} {node : Node}, vfs.nodes.lookup d = some node → ∃ l, Entries vfs d l
  single : ∀ {d d' q : Nat} {l l' : List Nat}, Entries vfs d l → Entries vfs d' l' →
    q ∈ l → q ∈ l' → d = d'

def nameAt (vfs : Vfs) (p : Nat) : Option (List UInt8) :=
  (vfs.nodes.lookup p).map fun node => node.name.bytes

/-- No directory has two entries with the same name. -/
def UniqueNames (vfs : Vfs) : Prop := ∀ d l, Entries vfs d l → (l.map (nameAt vfs)).Nodup

/-- The node is an entry of a directory. -/
def InTree (vfs : Vfs) (p : Nat) : Prop := ∃ d l, Entries vfs d l ∧ p ∈ l

inductive SockCall where
  | bind (env : BindEnv) (fd : Nat) (sunPath : List UInt8)
  | connect (env : BindEnv) (fd : Nat) (sunPath : List UInt8) (tried : Int)

namespace SockCall

def env : SockCall → BindEnv
  | bind env _ _ => env
  | connect env _ _ _ => env

def fd : SockCall → Nat
  | bind _ fd _ => fd
  | connect _ fd _ _ => fd

def sunPath : SockCall → List UInt8
  | bind _ _ sunPath => sunPath
  | connect _ _ sunPath _ => sunPath

def run : SockCall → SocketWorld → Option (Int × SocketWorld)
  | bind env fd sunPath, w => sockBind env fd sunPath w
  | connect env fd sunPath tried, w => sockConnect env fd sunPath tried w

def connects : SockCall → Bool
  | bind _ _ _ => false
  | connect _ _ _ _ => true

end SockCall

/-- The node that a call makes. -/
def socketNode (env : BindEnv) (name : List UInt8) : Node :=
  ⟨cstringOf name, vfsSocket, env.socket, 0, 0, 0⟩

/-- The name of the new node, and the directory it is to be linked in, null if there is none. -/
def Target (call : SockCall) (w : SocketWorld) (dir : Nat) (name : List UInt8) : Prop :=
  ∃ path tmp pathlen, vfsFullpath call.env call.sunPath = some path ∧
    vfsGetName path call.env.nameBehind = some name ∧
    dropTrailing (path ++ [0]) (path ++ call.env.linkBehind) path.length = some (tmp, pathlen) ∧
    directoryOf (w.vfs.insert call.env.node (socketNode call.env name)) call.env.cwd call.env.fuel
      call.env.depth tmp pathlen = some dir

/-- The descriptor has a socket, or there is no directory for a new node, or the call binds a
name that the directory does not have. -/
def SockCall.Safe (call : SockCall) (w : SocketWorld) : Prop :=
  w.soc call.fd ≠ some 0 ∨ ∃ dir name, Target call w dir name ∧ (dir = 0 ∨ call.connects = false ∧
      ∀ l, Entries w.vfs dir l → some (cstringOf name).bytes ∉ l.map (nameAt w.vfs))

/-- The address of the new node is no other node's. -/
structure SockCall.Fresh (call : SockCall) (w : SocketWorld) : Prop where
  nonnull : call.env.node ≠ 0
  fresh : w.vfs.nodes.lookup call.env.node = none

/-! ## Nodes that join the tree -/

section

variable {vfs vfs' : Vfs} {p q dir fuel : Nat} {node : Node} {l : List Nat}

theorem lookup_modify {f : Node → Node} (call : vfs.modify p f = some vfs') :
    ∃ node, vfs.nodes.lookup p = some node ∧
      ∀ q, vfs'.nodes.lookup q = if q = p then some (f node) else vfs.nodes.lookup q := by
  obtain ⟨node, found, same⟩ := map_eq_some_iff.mp call
  exact ⟨node, found, fun q => by rw [← same, Vfs.lookup_insert]⟩

theorem Siblings.of_lastSibling (sibs : Siblings vfs q l) {last : Nat}
    (walk : lastSibling vfs fuel q = some last) : l.getLast? = some last ∧ l.length ≤ fuel := by
  induction sibs generalizing fuel with
  | nil => cases fuel <;> simp [lastSibling] at walk
  | @cons p node rest ne found next ih =>
    cases fuel with
    | zero => cases walk
    | succ fuel =>
      simp only [lastSibling, if_neg ne, found, bind, bind_some] at walk
      split at walk
      · obtain ⟨isLast, le⟩ := ih walk
        refine ⟨?_, Nat.succ_le_succ le⟩
        rw [getLast?_cons, isLast]
        rfl
      next ended =>
        rw [not_not.mp ended] at next
        cases next with
        | nil => exact ⟨walk, Nat.succ_le_succ (Nat.zero_le fuel)⟩
        | cons ne _ _ => exact absurd rfl ne

/-- The node is no entry of a directory of the tree. -/
structure Loose (vfs : Vfs) (p : Nat) (node : Node) : Prop where
  nonnull : p ≠ 0
  found : vfs.nodes.lookup p = some node
  leaf : node.nextnode = 0
  outside : ¬InTree vfs p

theorem Entries.unique {d : Nat} {l' : List Nat} (entries : Entries vfs d l)
    (entries' : Entries vfs d l') : l = l' := by
  obtain ⟨node, found, sibs⟩ := entries
  obtain ⟨node', found', sibs'⟩ := entries'
  obtain rfl := mem_unique found found'
  exact sibs.unique sibs'

theorem Forest.append (forest : Forest vfs) (loose : Loose vfs p node)
    (call : appendNode vfs fuel dir p = some vfs') :
    Forest vfs' ∧ (∀ q, nameAt vfs' q = nameAt vfs q) ∧ ∃ l, Entries vfs dir l ∧ l ≠ [] ∧
      ∀ d l', Entries vfs' d l' ↔ d = dir ∧ l' = l ++ [p] ∨ d ≠ dir ∧ Entries vfs d l' := by
  have whole := call
  unfold appendNode at call
  obtain ⟨v1, parent, rest⟩ := Option.bind_eq_some_iff.mp call
  obtain ⟨fields, foundDir, rest⟩ := Option.bind_eq_some_iff.mp rest
  obtain ⟨last, walk, link⟩ := Option.bind_eq_some_iff.mp rest
  obtain ⟨node', found, lookups⟩ := lookup_modify parent
  obtain rfl := mem_unique found loose.found
  obtain ⟨lastNode, foundLast, lookups'⟩ := lookup_modify link
  -- The first store changes a parent, which no list depends on.
  have parented (q : Nat) (old : Node) (foundQ : vfs.nodes.lookup q = some old) :
      ∃ new, v1.nodes.lookup q = some new ∧ new.nextnode = old.nextnode ∧
        new.dirlist = old.dirlist := by
    rw [lookups]
    split
    · next same =>
        subst same
        obtain rfl := mem_unique found foundQ
        exact ⟨_, rfl, rfl, rfl⟩
    · exact ⟨old, foundQ, rfl, rfl⟩
  have domain (q : Nat) (missing : vfs.nodes.lookup q = none) : vfs'.nodes.lookup q = none := by
    have absent : v1.nodes.lookup q = none := by
      rw [lookups, if_neg, missing]
      rintro rfl
      simp [missing] at found
    rw [lookups', if_neg, absent]
    rintro rfl
    simp [absent] at foundLast
  obtain ⟨entry, foundEntry⟩ : ∃ entry, vfs.nodes.lookup dir = some entry := by
    rw [lookups] at foundDir
    split at foundDir
    · next same => exact ⟨_, same ▸ found⟩
    · exact ⟨_, foundDir⟩
  obtain ⟨l, listed⟩ := forest.lists foundEntry
  have sibs : Siblings vfs entry.dirlist l := by
    obtain ⟨entry', foundEntry', sibs⟩ := listed
    rwa [mem_unique foundEntry foundEntry']
  obtain ⟨fields', foundDir', -, dirlist⟩ := parented dir entry foundEntry
  obtain rfl := mem_unique foundDir foundDir'
  have siblings1 : Siblings v1 fields.dirlist l := by
    rw [dirlist]
    refine sibs.congr fun q old foundQ => ?_
    obtain ⟨new, foundNew, next, -⟩ := parented q old foundQ
    exact ⟨new, foundNew, next⟩
  obtain ⟨isLast, le⟩ := Siblings.of_lastSibling siblings1 walk
  obtain ⟨v2, call', appended, fields', foundP, -⟩ :=
    appendNode_spec foundEntry sibs isLast loose.found le
  obtain rfl := mem_unique call' whole
  have lastIn : last ∈ l := mem_of_getLast? isLast
  have leaf : fields'.nextnode = 0 := by
    obtain ⟨new, foundNew, -, -, next⟩ := appended.kept p node' loose.found
    obtain rfl := mem_unique foundP foundNew
    rw [next, if_neg, loose.leaf]
    rintro rfl
    exact loose.outside ⟨dir, l, listed, lastIn⟩
  have after {d : Nat} {l' : List Nat} (entries : Entries vfs d l') :
      Entries v2 d (if d = dir then l ++ [p] else l') := by
    obtain ⟨old, foundOld, sibs'⟩ := entries
    obtain ⟨new, foundNew, -, dirlist', -⟩ := appended.kept d old foundOld
    refine ⟨new, foundNew, ?_⟩
    rw [dirlist']
    split
    · next same =>
        subst same
        obtain rfl := mem_unique foundOld foundEntry
        exact appended.siblings_new sibs isLast loose.nonnull foundP leaf
    · next ne =>
        refine appended.siblings_other sibs' fun mem => ne ?_
        exact forest.single ⟨old, foundOld, sibs'⟩ listed mem lastIn
  have lt {d : Nat} {new : Node} (foundNew : v2.nodes.lookup d = some new) :
      ∃ l', Entries vfs d l' := by
    cases old : vfs.nodes.lookup d with
    | none => simp [domain d old] at foundNew
    | some node => exact forest.lists old
  have entries (d : Nat) (l' : List Nat) :
      Entries v2 d l' ↔ d = dir ∧ l' = l ++ [p] ∨ d ≠ dir ∧ Entries vfs d l' := by
    constructor
    · intro entries
      have whole := entries
      obtain ⟨new, foundNew, -⟩ := entries
      obtain ⟨l0, old⟩ := lt foundNew
      obtain rfl := whole.unique (after old)
      by_cases here : d = dir <;> simp [here]
      simpa [here] using old
    · rintro (⟨rfl, rfl⟩ | ⟨ne, entries⟩)
      · simpa using after listed
      · simpa [ne] using after entries
  refine ⟨⟨fun found => ?_, fun first second inFirst inSecond => ?_⟩, fun q => ?_, l, listed,
    ne_nil_of_mem lastIn, entries⟩
  · obtain ⟨l', old⟩ := lt found
    exact ⟨_, after old⟩
  · -- The new entry is in no other list.
    have apart {d q : Nat} {l' : List Nat} (ne : d ≠ dir) (old : Entries vfs d l')
        (inOld : q ∈ l') : q ∉ l ++ [p] := by
      intro inNew
      rcases mem_append.mp inNew with was | isNew
      · exact ne (forest.single old listed inOld was)
      · exact loose.outside ⟨d, l', old, mem_singleton.mp isNew ▸ inOld⟩
    rcases (entries _ _).mp first with ⟨rfl, rfl⟩ | ⟨ne, old⟩ <;>
      rcases (entries _ _).mp second with ⟨rfl, rfl⟩ | ⟨ne', old'⟩
    · rfl
    · exact absurd inFirst (apart ne' old' inSecond)
    · exact absurd inSecond (apart ne old inFirst)
    · exact forest.single old old' inFirst inSecond
  · unfold nameAt
    cases old : vfs.nodes.lookup q with
    | none => rw [domain q old]
    | some node =>
      obtain ⟨new, foundNew, name, -⟩ := appended.kept q node old
      rw [foundNew, map_some, map_some, name]

theorem Forest.insert (forest : Forest vfs) (node : Node) (ne : p ≠ 0)
    (fresh : vfs.nodes.lookup p = none) (leaf : node.nextnode = 0) (empty : node.dirlist = 0) :
    Forest (vfs.insert p node) ∧ Loose (vfs.insert p node) p node ∧
      (∀ q, q ≠ p → nameAt (vfs.insert p node) q = nameAt vfs q) ∧
      ∀ d l, Entries (vfs.insert p node) d l ↔ Entries vfs d l ∨ d = p ∧ l = [] := by
  have kept {q : Nat} (other : q ≠ p) :
      (vfs.insert p node).nodes.lookup q = vfs.nodes.lookup q := by
    rw [Vfs.lookup_insert, if_neg other]
  have here : (vfs.insert p node).nodes.lookup p = some node := by
    rw [Vfs.lookup_insert, if_pos rfl]
  have known {q : Nat} {old : Node} (found : vfs.nodes.lookup q = some old) : q ≠ p := by
    rintro rfl
    simp [fresh] at found
  have old {d : Nat} {l : List Nat} (entries : Entries vfs d l) :
      Entries (vfs.insert p node) d l := by
    obtain ⟨entry, found, sibs⟩ := entries
    refine ⟨entry, (kept (known found)).trans found, sibs.congr fun q node found => ?_⟩
    exact ⟨node, (kept (known found)).trans found, rfl⟩
  have new : Entries (vfs.insert p node) p [] := ⟨node, here, empty ▸ .nil⟩
  have entries (d : Nat) (l : List Nat) :
      Entries (vfs.insert p node) d l ↔ Entries vfs d l ∨ d = p ∧ l = [] := by
    constructor
    · intro entries
      by_cases same : d = p
      · subst same
        exact .inr ⟨rfl, entries.unique new⟩
      have whole := entries
      obtain ⟨entry, found, -⟩ := entries
      rw [kept same] at found
      obtain ⟨l0, was⟩ := forest.lists found
      obtain rfl := whole.unique (old was)
      exact .inl was
    · rintro (entries | ⟨rfl, rfl⟩)
      · exact old entries
      · exact new
  have listed {d q : Nat} {l : List Nat} (there : Entries (vfs.insert p node) d l)
      (mem : q ∈ l) : Entries vfs d l := by
    rcases (entries d l).mp there with was | ⟨-, rfl⟩
    · exact was
    · cases mem
  refine ⟨⟨fun {d entry} found => ?_, fun first second inFirst inSecond => ?_⟩,
    ⟨ne, here, leaf, ?_⟩, fun q other => ?_, entries⟩
  · by_cases same : d = p
    · exact ⟨[], same ▸ new⟩
    · rw [kept same] at found
      obtain ⟨l, was⟩ := forest.lists found
      exact ⟨l, old was⟩
  · exact forest.single (listed first inFirst) (listed second inSecond) inFirst inSecond
  · rintro ⟨d, l, there, mem⟩
    obtain ⟨entry, found, sibs⟩ := listed there mem
    obtain ⟨-, node', found'⟩ := sibs.lookup mem
    exact known found' rfl
  · rw [nameAt, kept other, nameAt]

end

/-! ## The calls -/

section

variable {w w' : SocketWorld} {call : SockCall} {ret : Int} {dir dir' : Nat}
  {name name' : List UInt8}

theorem Target.unique (target : Target call w dir name) (target' : Target call w dir' name') :
    dir = dir' ∧ name = name' := by
  obtain ⟨path, tmp, pathlen, full, named, copy, found⟩ := target
  obtain ⟨path', tmp', pathlen', full', named', copy', found'⟩ := target'
  obtain rfl := mem_unique full full'
  obtain rfl := mem_unique named named'
  cases mem_unique copy copy'
  exact ⟨mem_unique found found', rfl⟩

theorem unixSocketCreate_cases {soc : Nat}
    (made : unixSocketCreate call.env call.sunPath w = some (soc, w')) :
    ∃ dir name, Target call w dir name ∧
      (dir = 0 ∧ w'.vfs = w.vfs.insert call.env.node (socketNode call.env name) ∨
        dir ≠ 0 ∧ appendNode (w.vfs.insert call.env.node (socketNode call.env name)) call.env.fuel
          dir call.env.node = some w'.vfs) := by
  obtain ⟨path, full, creation⟩ := Option.bind_eq_some_iff.mp made
  obtain ⟨⟨ret, vfs⟩, create, answer⟩ := Option.bind_eq_some_iff.mp creation
  obtain ⟨name, named, link⟩ := Option.bind_eq_some_iff.mp create
  obtain ⟨⟨tmp, pathlen⟩, copy, lookup⟩ := Option.bind_eq_some_iff.mp link
  obtain ⟨dir, found, outcome⟩ := Option.bind_eq_some_iff.mp lookup
  refine ⟨dir, name, ⟨path, tmp, pathlen, full, named, copy, found⟩, ?_⟩
  obtain ⟨-, rfl⟩ := Prod.mk.inj (Option.some.inj answer)
  split at outcome
  · next none =>
      obtain ⟨-, rfl⟩ := Prod.mk.inj (Option.some.inj outcome)
      exact .inl ⟨none, rfl⟩
  next some =>
    obtain ⟨vfs', append, linked⟩ := Option.bind_eq_some_iff.mp outcome
    obtain ⟨-, rfl⟩ := Prod.mk.inj (Option.some.inj linked)
    exact .inr ⟨some, append⟩

theorem unixSocketBind_vfs {env : BindEnv} {fd : Nat} {sunPath : List UInt8}
    (bound : unixSocketBind env fd sunPath w = some (ret, w')) : w'.vfs = w.vfs := by
  obtain ⟨tobind, -, rest⟩ := Option.bind_eq_some_iff.mp bound
  split at rest <;> cases rest <;> rfl

theorem sockBind_vfs {env : BindEnv} {fd : Nat} {sunPath : List UInt8}
    (bound : sockBind env fd sunPath w = some (ret, w')) :
    w.soc fd ≠ some 0 ∧ w'.vfs = w.vfs ∨
    w.soc fd = some 0 ∧ ∃ soc u, unixSocketCreate env sunPath w = some (soc, u) ∧
      w'.vfs = u.vfs := by
  unfold sockBind at bound
  split at bound
  · next none =>
      cases bound
      exact .inl ⟨by simp [none], rfl⟩
  next soc has =>
    obtain ⟨⟨soc', u⟩, made, rest⟩ := Option.bind_eq_some_iff.mp bound
    have same : w'.vfs = u.vfs := by
      dsimp only at rest
      split at rest
      · cases rest
        rfl
      · exact (unixSocketBind_vfs rest :)
    unfold ownSocket at made
    by_cases zero : soc = 0
    · rw [if_pos zero] at made
      exact .inr ⟨zero ▸ has, soc', u, made, same⟩
    rw [if_neg zero] at made
    cases made
    exact .inl ⟨by simp [has, zero], same⟩

theorem SockCall.run_vfs (run : call.run w = some (ret, w')) :
    w.soc call.fd ≠ some 0 ∧ w'.vfs = w.vfs ∨
    w.soc call.fd = some 0 ∧ ∃ soc u, unixSocketCreate call.env call.sunPath w = some (soc, u) ∧
      w'.vfs = u.vfs := by
  cases call with
  | bind env fd sunPath => exact sockBind_vfs run
  | connect env fd sunPath tried =>
    simp only [SockCall.run, sockConnect] at run
    split at run
    · next none =>
        cases run
        exact .inl ⟨by simp [SockCall.fd, none], rfl⟩
    next soc has =>
      split at run
      · obtain ⟨⟨ret', u⟩, lt, rest⟩ := Option.bind_eq_some_iff.mp run
        have same : w'.vfs = u.vfs := by
          dsimp only at rest
          split at rest <;> cases rest <;> rfl
        rw [same]
        exact sockBind_vfs lt
      · next some =>
          cases run
          exact .inl ⟨by simp [SockCall.fd, has, some], rfl⟩

theorem SockCall.keeps_iff (forest : Forest w.vfs) (unique : UniqueNames w.vfs)
    (fresh : call.Fresh w) (run : call.run w = some (ret, w')) :
    Forest w'.vfs ∧
    (UniqueNames w'.vfs ∧ (call.connects = true → ∀ p, InTree w'.vfs p ↔ InTree w.vfs p) ↔
      call.Safe w) := by
  rcases SockCall.run_vfs run with ⟨has, same⟩ | ⟨lacks, soc, u, made, same⟩
  · rw [same]
    exact ⟨forest, fun _ => .inl has, fun _ => ⟨unique, fun _ _ => Iff.rfl⟩⟩
  obtain ⟨dir, name, target, outcome⟩ := unixSocketCreate_cases made
  obtain ⟨forest1, loose, names1, entries1⟩ :=
    forest.insert (socketNode call.env name) fresh.nonnull fresh.fresh rfl rfl
  rw [same]
  have safe : call.Safe w ↔ dir = 0 ∨ call.connects = false ∧
      ∀ l, Entries w.vfs dir l → some (cstringOf name).bytes ∉ l.map (nameAt w.vfs) := by
    constructor
    · rintro (has | ⟨dir', name', target', condition⟩)
      · exact absurd lacks has
      · obtain ⟨rfl, rfl⟩ := target.unique target'
        exact condition
    · exact fun condition => .inr ⟨dir, name, target, condition⟩
  have absent {d : Nat} {l : List Nat} (there : Entries w.vfs d l) : call.env.node ∉ l :=
    fun mem => loose.outside ⟨d, l, (entries1 d l).mpr (.inl there), mem⟩
  have names {d : Nat} {l : List Nat} (there : Entries w.vfs d l) :
      l.map (nameAt (w.vfs.insert call.env.node (socketNode call.env name))) =
        l.map (nameAt w.vfs) :=
    map_congr_left fun q mem => names1 q fun same => absent there (same ▸ mem)
  rw [safe]
  rcases outcome with ⟨none, alone⟩ | ⟨found, append⟩
  · rw [alone]
    refine ⟨forest1, fun _ => .inl none, fun _ => ⟨?_, fun _ p => ⟨?_, ?_⟩⟩⟩
    · intro d l there
      rcases (entries1 d l).mp there with was | ⟨-, rfl⟩
      · rw [names was]
        exact unique d l was
      · exact nodup_nil
    · rintro ⟨d, l, there, mem⟩
      rcases (entries1 d l).mp there with was | ⟨-, rfl⟩
      · exact ⟨d, l, was, mem⟩
      · cases mem
    · rintro ⟨d, l, there, mem⟩
      exact ⟨d, l, (entries1 d l).mpr (.inl there), mem⟩
  · obtain ⟨forest2, names2, l, there, filled, entries2⟩ := forest1.append loose append
    have listed : Entries w.vfs dir l := by
      rcases (entries1 dir l).mp there with was | ⟨-, empty⟩
      · exact was
      · exact absurd empty filled
    have grown := (entries2 dir _).mpr (.inl ⟨rfl, rfl⟩)
    have kept {d : Nat} {l' : List Nat} (was : Entries w.vfs d l') :
        l'.map (nameAt u.vfs) = l'.map (nameAt w.vfs) := by
      rw [← names was]
      exact map_congr_left fun q _ => names2 q
    have extended : ((l ++ [call.env.node]).map (nameAt u.vfs)).Nodup ↔
        some (cstringOf name).bytes ∉ l.map (nameAt w.vfs) := by
      have new : nameAt u.vfs call.env.node = some (cstringOf name).bytes := by
        rw [names2, nameAt, loose.found]
        rfl
      rw [map_append, kept listed, map_singleton, new, ← concat_eq_append, nodup_concat]
      exact and_iff_left (unique dir l listed)
    refine ⟨forest2, ?_, ?_⟩
    · rintro ⟨unique2, connecting⟩
      refine .inr ⟨?_, fun l' listed' => ?_⟩
      · rw [← Bool.not_eq_true]
        intro connects
        obtain ⟨d, l', was, mem⟩ := (connecting connects call.env.node).mp ⟨dir, _, grown, by simp⟩
        exact absent was mem
      · rw [listed'.unique listed]
        exact extended.mp (unique2 dir _ grown)
    · rintro (zero | ⟨binds, missing⟩)
      · exact absurd zero found
      refine ⟨fun d l' there' => ?_, fun connects => by simp [binds] at connects⟩
      rcases (entries2 d l').mp there' with ⟨rfl, rfl⟩ | ⟨-, was1⟩
      · exact extended.mpr (missing l listed)
      rcases (entries1 d l').mp was1 with was | ⟨-, rfl⟩
      · rw [kept was]
        exact unique d l' was
      · exact nodup_nil

end

/-- Calls one after the other, all of them safe. -/
inductive SockRun : SocketWorld → SocketWorld → Prop
  | refl (w : SocketWorld) : SockRun w w
  | step {w w' w'' : SocketWorld} {ret : Int} (call : SockCall) (before : SockRun w w')
      (fresh : call.Fresh w') (safe : call.Safe w') (run : call.run w' = some (ret, w'')) :
      SockRun w w''

theorem SockRun.unique {w w' : SocketWorld} (run : SockRun w w') (forest : Forest w.vfs)
    (unique : UniqueNames w.vfs) : Forest w'.vfs ∧ UniqueNames w'.vfs := by
  induction run with
  | refl => exact ⟨forest, unique⟩
  | step call lt fresh safe run ih =>
    obtain ⟨forest', kept⟩ := SockCall.keeps_iff ih.1 ih.2 fresh run
    exact ⟨forest', (kept.mpr safe).1⟩

/-- From any tree with unique names, through any safe calls, the names stay unique; and the next
call keeps them so, and adds no node if it connects, exactly when it is safe too. -/
theorem socket_names_unique {w : SocketWorld} (forest : Forest w.vfs) (unique : UniqueNames w.vfs) :
    ∀ w', SockRun w w' → UniqueNames w'.vfs ∧
      ∀ (call : SockCall) ret w'', call.Fresh w' → call.run w' = some (ret, w'') →
        (UniqueNames w''.vfs ∧
          (call.connects = true → ∀ p, InTree w''.vfs p ↔ InTree w'.vfs p) ↔ call.Safe w') := by
  intro w' run
  obtain ⟨forest', unique'⟩ := run.unique forest unique
  exact ⟨unique', fun call ret w'' fresh call' =>
    (SockCall.keeps_iff forest' unique' fresh call').2⟩

/-- The files `a`, `b` and `a/b`, and descriptors without a socket. -/
def unboundWorld : SocketWorld := ⟨twoEntries, fun _ => 0, fun _ => some 0⟩

def plainEnv : BindEnv := ⟨[], 5, 2, 8, 7, [0, 0, 0], [0], [0]⟩

theorem twoEntries_entries {d : Nat} {l : List Nat} (entries : Entries twoEntries d l) :
    d = 1 ∧ l = [2, 3] ∨ d = 2 ∧ l = [4] ∨ l = [] := by
  obtain ⟨node, found, sibs⟩ := entries
  simp only [twoEntries, Vfs.lookup_insert] at found
  split at found
  · cases found
    exact .inr (.inr (sibs.unique .nil))
  split at found
  · cases found
    exact .inr (.inr (sibs.unique .nil))
  split at found
  · cases found
    exact .inr (.inl ⟨‹_›, sibs.unique twoEntries_inner⟩)
  split at found
  · cases found
    exact .inl ⟨‹_›, sibs.unique twoEntries_root⟩
  · cases found

theorem twoEntries_forest : Forest twoEntries where
  lists found := by
    obtain ⟨l, sibs⟩ := twoEntries_walkable.lists _ _ found
    exact ⟨l, _, found, sibs⟩
  single first second inFirst inSecond := by
    rcases twoEntries_entries first with ⟨rfl, rfl⟩ | ⟨rfl, rfl⟩ | rfl <;>
      rcases twoEntries_entries second with ⟨rfl, rfl⟩ | ⟨rfl, rfl⟩ | rfl <;> simp_all

theorem twoEntries_unique : UniqueNames twoEntries := by
  intro d l entries
  rcases twoEntries_entries entries with ⟨-, rfl⟩ | ⟨-, rfl⟩ | rfl
  · exact (by decide : ([some [97], some [98]] : List (Option (List UInt8))).Nodup)
  · exact nodup_singleton _
  · exact nodup_nil

/-- Binding `/a/c` puts a second entry with a name of its own into `/a`. -/
theorem socket_names_unique_bound :
    ∃ w', sockBind plainEnv 1 [47, 97, 47, 99] unboundWorld = some (0, w') ∧
      Entries w'.vfs 2 [4, 7] ∧ UniqueNames w'.vfs := by
  let call := SockCall.bind plainEnv 1 [47, 97, 47, 99]
  have safe : call.Safe unboundWorld := by
    refine .inr ⟨2, _, ⟨_, _, _, rfl, rfl, rfl, rfl⟩, .inr ⟨rfl, fun l entries => ?_⟩⟩
    rcases twoEntries_entries entries with ⟨two, -⟩ | ⟨-, rfl⟩ | rfl
    · cases two
    · exact (by decide : some [99] ∉ ([some [98]] : List (Option (List UInt8))))
    · exact not_mem_nil
  have run := SockRun.step call (.refl unboundWorld) ⟨by decide, rfl⟩ safe rfl
  refine ⟨_, rfl, ?_, (socket_names_unique twoEntries_forest twoEntries_unique _ run).1⟩
  exact ⟨_, rfl, .cons (by decide) rfl (.cons (by decide) rfl .nil)⟩

/-- Binding `/a/b`, which exists, makes a second entry of that name; connecting to `/a/c`, which
does not exist, is refused and leaves a node. -/
theorem socket_names_unique_fails :
    (∃ w', sockBind plainEnv 1 [47, 97, 47, 98] unboundWorld = some (0, w') ∧
      Entries w'.vfs 2 [4, 7] ∧ nameAt w'.vfs 4 = nameAt w'.vfs 7) ∧
    ∃ w', sockConnect plainEnv 1 [47, 97, 47, 99] 0 unboundWorld = some (-1, w') ∧
      Entries w'.vfs 2 [4, 7] := by
  refine ⟨⟨_, rfl, ?_, rfl⟩, _, rfl, ?_⟩
  · exact ⟨_, rfl, .cons (by decide) rfl (.cons (by decide) rfl .nil)⟩
  · exact ⟨_, rfl, .cons (by decide) rfl (.cons (by decide) rfl .nil)⟩

end Yanix.Net
