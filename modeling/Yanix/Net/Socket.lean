/-
Module: Yanix.Net.Socket
Purpose: `kernel/net/socket.c` and `kernel/net/socket/unix.c`: connecting and accepting as the
  steps of calls that run side by side, and the other calls on sockets.
Trusted boundary: hand-translated from C; `kmalloc` succeeds, its addresses and what lies behind
  its blocks are parameters; pushing and popping are atomic.  For calls on descriptors the answer
  of `unix_socket_tryconnect` is a parameter.  A node of any type is taken for a socket's, as the
  source does.  `errno`, permissions and the lengths of addresses are left out
-/
import Yanix.Ds.Queue
import Yanix.Ds.RingBuffer
import Yanix.Fs.Vfs

namespace Yanix.Net

open Function

open Yanix.Ds

structure AcceptConn where
  lock : Int
  clientPipe : Nat
  serverPipe : Nat
deriving DecidableEq

/-- How far a call of `unix_socket_tryconnect` has come: it has pushed its request and loops on the
lock, has seen that cleared, has returned 0 with its pipes, or has returned −1. -/
inductive Connect where
  | idle
  | waiting (acceptConn : Nat)
  | released (acceptConn : Nat)
  | connected (sendPipe recvPipe : Nat)
  | refused
deriving DecidableEq

/-- How far a call of `unix_socket_accept` has come: it has seen a queue with requests, has popped,
has taken the pipes, or has cleared the lock and returned. -/
inductive Accept where
  | idle
  | polled
  | popped (acceptConn : Nat)
  | took (acceptConn sendPipe recvPipe : Nat)
  | accepted (sendPipe recvPipe : Nat)
deriving DecidableEq

inductive Fault where
  | nullDereference
  | useAfterFree
deriving DecidableEq

/-- The listening socket, the live requests and pipes by their addresses, and the calls. -/
structure Listener where
  conns : Nat → Option AcceptConn
  pipes : Nat → Bool
  acceptQueue : Queue
  client : Nat → Connect
  server : Nat → Accept

/-- An access to a request. -/
def Listener.touch (w : Listener) (acceptConn : Nat) : Except Fault AcceptConn :=
  if acceptConn = 0 then .error .nullDereference
  else
    match w.conns acceptConn with
    | none => .error .useAfterFree
    | some conn => .ok conn

/-- Create the request and its pipes and push it; one that finds the queue full is taken down again.
-/
def tryconnectPush (client acceptConn clientPipe serverPipe : Nat) (w : Listener) : Listener :=
  let conns := update w.conns acceptConn (some ⟨1, clientPipe, serverPipe⟩)
  let pipes := update (update w.pipes clientPipe true) serverPipe true
  let (ret, acceptQueue) := queuePush w.acceptQueue acceptConn
  if ret = -1 then
    { conns := update conns acceptConn none
      pipes := update (update pipes clientPipe false) serverPipe false
      acceptQueue := acceptQueue
      client := update w.client client .refused
      server := w.server }
  else
    { conns := conns
      pipes := pipes
      acceptQueue := acceptQueue
      client := update w.client client (.waiting acceptConn)
      server := w.server }

/-- One round of the loop on the lock. -/
def tryconnectWait (client acceptConn : Nat) (w : Listener) : Except Fault Listener := do
  let conn ← w.touch acceptConn
  if conn.lock = 0 then
    return { w with client := update w.client client (.released acceptConn) }
  else
    return w

/-- Take the pipes and free the request. -/
def tryconnectTake (client acceptConn : Nat) (w : Listener) : Except Fault Listener := do
  let conn ← w.touch acceptConn
  return { w with
    conns := update w.conns acceptConn none
    client := update w.client client (.connected conn.serverPipe conn.clientPipe) }

/-- One round of the loop on the size of the queue. -/
def acceptPoll (server : Nat) (w : Listener) : Listener := if w.acceptQueue.size = 0 then w
  else { w with server := update w.server server .polled }

def acceptPop (server : Nat) (w : Listener) : Listener :=
  let (acceptConn, acceptQueue) := queuePop w.acceptQueue
  { w with
    acceptQueue := acceptQueue
    server := update w.server server (.popped acceptConn) }

def acceptTake (server acceptConn : Nat) (w : Listener) : Except Fault Listener := do
  let conn ← w.touch acceptConn
  return { w with
    server := update w.server server (.took acceptConn conn.clientPipe conn.serverPipe) }

def acceptClear (server acceptConn sendPipe recvPipe : Nat) (w : Listener) :
    Except Fault Listener := do
  let conn ← w.touch acceptConn
  return { w with
    conns := update w.conns acceptConn (some { conn with lock := 0 })
    server := update w.server server (.accepted sendPipe recvPipe) }

/-! ## Interleaving -/

/-- The next step of one of the calls. -/
inductive Action where
  | push (client acceptConn clientPipe serverPipe : Nat)
  | wait (client : Nat)
  | take (client : Nat)
  | poll (server : Nat)
  | pop (server : Nat)
  | pair (server : Nat)
  | clear (server : Nat)
deriving DecidableEq

/-- A step of a call that is somewhere else changes nothing. -/
def step (action : Action) (w : Listener) : Except Fault Listener := match action with
  | .push client acceptConn clientPipe serverPipe =>
    match w.client client with
    | .idle => .ok (tryconnectPush client acceptConn clientPipe serverPipe w)
    | _ => .ok w
  | .wait client =>
    match w.client client with
    | .waiting acceptConn => tryconnectWait client acceptConn w
    | _ => .ok w
  | .take client =>
    match w.client client with
    | .released acceptConn => tryconnectTake client acceptConn w
    | _ => .ok w
  | .poll server =>
    match w.server server with
    | .idle => .ok (acceptPoll server w)
    | _ => .ok w
  | .pop server =>
    match w.server server with
    | .polled => .ok (acceptPop server w)
    | _ => .ok w
  | .pair server =>
    match w.server server with
    | .popped acceptConn => acceptTake server acceptConn w
    | _ => .ok w
  | .clear server =>
    match w.server server with
    | .took acceptConn sendPipe recvPipe => acceptClear server acceptConn sendPipe recvPipe w
    | _ => .ok w

open Foundation Libk Fs Ds Function

/-- The fields of `struct socket_conn` that a transfer uses. -/
structure SocketConn where
  soc : Nat
  sendPipe : Nat
  recvPipe : Nat
deriving DecidableEq

/-- The pipes by their addresses; `flags` is not passed on. -/
def unixSocketSend (conn : Option SocketConn) (buf : Bytes) (size _flags : UInt32)
    (pipes : Nat → Option Pipe) : Int × (Nat → Option Pipe) :=
  match conn with
  | none => (-1, pipes)
  | some conn =>
    if conn.soc = 0 then (-1, pipes)
    else
      match pipeWriteRaw (pipes conn.sendPipe) buf size 0 with
      | .ok (ret, pipe) => (ret, update pipes conn.sendPipe (some pipe))
      | .error _ => (-1, pipes)

/-- A call that waits has no answer. -/
def unixSocketRecv (conn : Option SocketConn) (buf : Bytes) (size _flags : UInt32)
    (pipes : Nat → Option Pipe) : Option (Int × Bytes × (Nat → Option Pipe)) :=
  match conn with
  | none => some (-1, buf, pipes)
  | some conn =>
    if conn.soc = 0 then some (-1, buf, pipes)
    else
      (pipeReadRaw (pipes conn.recvPipe) buf size 0).map fun answer =>
        match answer with
        | .ok (ret, buf, pipe) => (ret, buf, update pipes conn.recvPipe (some pipe))
        | .error _ => (-1, buf, pipes)

/-! ## Names -/

def vfsSocket : UInt8 := 9

/-- The tree, `server_lock` of every socket, and the socket of each connection, named by its
descriptor; `none` is a descriptor of something else. -/
structure SocketWorld where
  vfs : Vfs
  serverLock : Nat → Int
  soc : Nat → Option Nat

/-- What a call depends on besides its arguments: the working directory, the addresses of a new
socket and node, and the bytes behind the copies of the path. -/
structure BindEnv where
  cwd : List UInt8
  fuel : Nat
  depth : Nat
  socket : Nat
  node : Nat
  pathBehind : List UInt8
  nameBehind : List UInt8
  linkBehind : List UInt8

/-- The string up to its first zero. -/
def cstringOf (bytes : List UInt8) : CString where
  bytes := bytes.takeWhile (· != 0)
  nonzero := fun member => by simpa using List.mem_takeWhile_imp member

def vfsFullpath (env : BindEnv) (path : List UInt8) : Option (List UInt8) := do
  let buf := if path.getD 0 0 ≠ slash then env.cwd ++ slash :: path else path
  let buf ← vfsInterpretPath (buf ++ 0 :: env.pathBehind)
  stringAt buf

def vfsSockCreate (env : BindEnv) (path : List UInt8) (socket : Nat) (vfs : Vfs) :
    Option (Int × Vfs) := do
  let name ← vfsGetName path env.nameBehind
  let vfs := vfs.insert env.node ⟨cstringOf name, vfsSocket, socket, 0, 0, 0⟩
  vfsLinkNodeVfs vfs env.cwd env.fuel env.depth path env.node env.linkBehind

/-- The new socket, or the null pointer if its node could not be linked. -/
def unixSocketCreate (env : BindEnv) (sunPath : List UInt8) (w : SocketWorld) :
    Option (Nat × SocketWorld) := do
  let w := { w with serverLock := update w.serverLock env.socket 0 }
  let path ← vfsFullpath env sunPath
  let (ret, vfs) ← vfsSockCreate env path env.socket w.vfs
  return (if ret ≠ 0 then 0 else env.socket, { w with vfs := vfs })

/-- The null pointer if the path leads nowhere. -/
def socketFromAddr (env : BindEnv) (sunPath : List UInt8) (w : SocketWorld) : Option Nat := do
  let snode ← vfsFindPath w.vfs env.cwd env.fuel env.depth sunPath
  if snode = 0 then return 0
  let node ← w.vfs.nodes.lookup snode
  return node.offset

def unixSocketBind (env : BindEnv) (fd : Nat) (sunPath : List UInt8) (w : SocketWorld) :
    Option (Int × SocketWorld) := do
  let tobind ← socketFromAddr env sunPath w
  if tobind = 0 then return (-1, w)
  return (0, { w with soc := update w.soc fd (some tobind) })

/-- `if (!conn->soc)` and its body: the socket of the connection, a new one if it has none. -/
def ownSocket (env : BindEnv) (sunPath : List UInt8) (soc : Nat) (w : SocketWorld) :
    Option (Nat × SocketWorld) :=
  if soc = 0 then unixSocketCreate env sunPath w else some (soc, w)

def sockBind (env : BindEnv) (fd : Nat) (sunPath : List UInt8) (w : SocketWorld) :
    Option (Int × SocketWorld) :=
  match w.soc fd with
  | none => some (-1, w)
  | some soc => do
    let (soc, w) ← ownSocket env sunPath soc w
    let w := { w with soc := update w.soc fd (some soc) }
    if soc = 0 then return (-1, w)
    unixSocketBind env fd sunPath w

/-- `tried` is what `unix_socket_tryconnect` answers. -/
def unixSocketConnect (fd : Nat) (tried : Int) (w : SocketWorld) : Int :=
  if w.serverLock ((w.soc fd).getD 0) = 0 then -1 else tried

def sockConnect (env : BindEnv) (fd : Nat) (sunPath : List UInt8) (tried : Int)
    (w : SocketWorld) : Option (Int × SocketWorld) :=
  match w.soc fd with
  | none => some (-1, w)
  | some soc => do
    if soc = 0 then
      let (ret, w) ← sockBind env fd sunPath w
      if ret = -1 then return (-1, w)
      return (unixSocketConnect fd tried w, w)
    else
      return (unixSocketConnect fd tried w, w)

end Yanix.Net
