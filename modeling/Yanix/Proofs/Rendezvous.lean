/-
Module: Yanix.Proofs.Rendezvous
Purpose: Clients and servers of one listening socket are paired one to one and in order,
  as long as every pop finds a request.
-/
import Yanix.Net.Socket

namespace Yanix.Net

open Function List Option

open Yanix.Ds

variable {r : Request} {w w' : Listener} {done : List (Request × Nat)} {waiting : List Request}

/-- What a successful push has created, and for which call. -/
structure Request where
  client : Nat
  acceptConn : Nat
  clientPipe : Nat
  serverPipe : Nat
deriving DecidableEq

/-- The client of the request still holds the address of its `accept_conn`. -/
def Active (w : Listener) (r : Request) : Prop :=
  w.client r.client = .waiting r.acceptConn ∨ w.client r.client = .released r.acceptConn

/-- The request is in the queue. -/
structure Pending (w : Listener) (r : Request) : Prop where
  client : w.client r.client = .waiting r.acceptConn
  conn : w.conns r.acceptConn = some ⟨1, r.clientPipe, r.serverPipe⟩

/-- The server has popped the request: how far the two calls can be. -/
inductive Paired (w : Listener) (r : Request) (server : Nat) : Prop
  | popped (client : w.client r.client = .waiting r.acceptConn)
      (popped : w.server server = .popped r.acceptConn)
      (conn : w.conns r.acceptConn = some ⟨1, r.clientPipe, r.serverPipe⟩)
  | took (client : w.client r.client = .waiting r.acceptConn)
      (took : w.server server = .took r.acceptConn r.clientPipe r.serverPipe)
      (conn : w.conns r.acceptConn = some ⟨1, r.clientPipe, r.serverPipe⟩)
  | cleared (client : w.client r.client = .waiting r.acceptConn)
      (accepted : w.server server = .accepted r.clientPipe r.serverPipe)
      (conn : w.conns r.acceptConn = some ⟨0, r.clientPipe, r.serverPipe⟩)
  | released (client : w.client r.client = .released r.acceptConn)
      (accepted : w.server server = .accepted r.clientPipe r.serverPipe)
      (conn : w.conns r.acceptConn = some ⟨0, r.clientPipe, r.serverPipe⟩)
  | connected (client : w.client r.client = .connected r.serverPipe r.clientPipe)
      (accepted : w.server server = .accepted r.clientPipe r.serverPipe)

/-- The requests in the order of their pushes, those that were popped in front. -/
def requests (done : List (Request × Nat)) (waiting : List Request) : List Request :=
  done.map Prod.fst ++ waiting

/-- The pairs made so far, with the requests that wait in the queue. -/
structure Rendezvous (w : Listener) (done : List (Request × Nat)) (waiting : List Request) :
    Prop where
  queue : w.acceptQueue.contents = waiting.map Request.acceptConn
  pending : ∀ r ∈ waiting, Pending w r
  paired : ∀ p ∈ done, Paired w p.1 p.2
  clients : ((requests done waiting).map Request.client).Nodup
  servers : (done.map Prod.snd).Nodup
  otherClients : ∀ i, (∀ r ∈ requests done waiting, r.client ≠ i) →
    w.client i = .idle ∨ w.client i = .refused
  otherServers : ∀ j, (∀ p ∈ done, p.2 ≠ j) → w.server j = .idle ∨ w.server j = .polled
  pipes : ((requests done waiting).flatMap fun r => [r.clientPipe, r.serverPipe]).Nodup
  livePipes : ∀ r ∈ requests done waiting, w.pipes r.clientPipe = true ∧ w.pipes r.serverPipe = true
  conns : ∀ r ∈ requests done waiting, ∀ r' ∈ requests done waiting,
    Active w r → Active w r' → r.acceptConn = r'.acceptConn → r = r'
  nonzero : ∀ r ∈ requests done waiting, r.acceptConn ≠ 0

variable {r' : Request} {p p' : Request × Nat} {i j ac sendPipe recvPipe : Nat}

section

variable {server : Nat}

theorem mem_requests : r ∈ requests done waiting ↔ (∃ j, (r, j) ∈ done) ∨ r ∈ waiting := by
  simp [requests]

theorem Pending.frame (h : Pending w r) (client : w'.client r.client = w.client r.client)
    (conn : w'.conns r.acceptConn = w.conns r.acceptConn) : Pending w' r :=
  ⟨client.trans h.client, conn.trans h.conn⟩

theorem Paired.frame (h : Paired w r server) (client : w'.client r.client = w.client r.client)
    (same : w'.server server = w.server server)
    (conn : Active w r → w'.conns r.acceptConn = w.conns r.acceptConn) : Paired w' r server := by
  cases h with
  | popped waits popped live =>
    exact .popped (client.trans waits) (same.trans popped) ((conn (.inl waits)).trans live)
  | took waits took live =>
    exact .took (client.trans waits) (same.trans took) ((conn (.inl waits)).trans live)
  | cleared waits accepted live =>
    exact .cleared (client.trans waits) (same.trans accepted) ((conn (.inl waits)).trans live)
  | released goes accepted live =>
    exact .released (client.trans goes) (same.trans accepted) ((conn (.inr goes)).trans live)
  | connected has accepted => exact .connected (client.trans has) (same.trans accepted)

variable (h : Rendezvous w done waiting)

include h

theorem Rendezvous.eq_of_client (mem : r ∈ requests done waiting)
    (mem' : r' ∈ requests done waiting) (same : r.client = r'.client) : r = r' :=
  inj_on_of_nodup_map h.clients mem mem' same

theorem Rendezvous.eq_of_server (mem : p ∈ done) (mem' : p' ∈ done) (same : p.2 = p'.2) : p = p' :=
  inj_on_of_nodup_map h.servers mem mem' same

theorem Rendezvous.nodup_requests : (requests done waiting).Nodup := h.clients.of_map

theorem Rendezvous.eq_of_request (mem : p ∈ done) (mem' : p' ∈ done) (same : p.1 = p'.1) : p = p' :=
  inj_on_of_nodup_map (nodup_append.mp h.nodup_requests).1 mem mem' same

omit h

theorem Active.of_client (client : w'.client r.client = w.client r.client) (active : Active w' r) :
    Active w r := by
  unfold Active at active
  rwa [client] at active

include h

theorem Rendezvous.advance (mem : p ∈ done) (active : Active w p.1) (paired : Paired w' p.1 p.2)
    (clients : ∀ i, i ≠ p.1.client → w'.client i = w.client i)
    (servers : ∀ j, j ≠ p.2 → w'.server j = w.server j)
    (conns : ∀ ac, ac ≠ p.1.acceptConn → w'.conns ac = w.conns ac)
    (queue : w'.acceptQueue = w.acceptQueue) (pipes : w'.pipes = w.pipes) :
    Rendezvous w' done waiting := by
  have mine : p.1 ∈ requests done waiting := mem_requests.mpr (.inl ⟨p.2, mem⟩)
  have otherClient : ∀ r ∈ requests done waiting, r ≠ p.1 →
    w'.client r.client = w.client r.client :=
    fun r there ne => clients _ fun same => ne (h.eq_of_client there mine same)
  have otherConn : ∀ r ∈ requests done waiting, r ≠ p.1 → Active w r →
      w'.conns r.acceptConn = w.conns r.acceptConn :=
    fun r there ne holds => conns _ fun same => ne (h.conns r there _ mine holds active same)
  have stillActive : ∀ r ∈ requests done waiting, Active w' r → Active w r := by
    intro r there holds
    by_cases same : r = p.1
    · rw [same]
      exact active
    · exact holds.of_client (otherClient r there same)
  refine ⟨?_, ?_, ?_, h.clients, h.servers, ?_, ?_, h.pipes, ?_, ?_, h.nonzero⟩
  · rw [queue]
    exact h.queue
  · intro r inQueue
    have there : r ∈ requests done waiting := mem_requests.mpr (.inr inQueue)
    have ne : r ≠ p.1 := by
      rintro rfl
      exact (nodup_append.mp h.nodup_requests).2.2 _ (mem_map_of_mem mem) _ inQueue rfl
    have waits := h.pending r inQueue
    exact waits.frame (otherClient r there ne) (otherConn r there ne (.inl waits.client))
  · intro q inDone
    by_cases same : q = p
    · rw [same]
      exact paired
    have there : q.1 ∈ requests done waiting := mem_requests.mpr (.inl ⟨q.2, inDone⟩)
    have ne : q.1 ≠ p.1 := fun alike => same (h.eq_of_request inDone mem alike)
    exact (h.paired q inDone).frame (otherClient _ there ne)
      (servers _ fun alike => same (h.eq_of_server inDone mem alike))
      (otherConn _ there ne)
  · intro i nobody
    rw [clients i (Ne.symm (nobody _ mine))]
    exact h.otherClients i nobody
  · intro j nobody
    rw [servers j (Ne.symm (nobody p mem))]
    exact h.otherServers j nobody
  · rw [pipes]
    exact h.livePipes
  · intro r there r' there' holds holds'
    exact h.conns r there r' there' (stillActive r there holds) (stillActive r' there' holds')

theorem Rendezvous.request_of_client (busy : w.client i ≠ .idle ∧ w.client i ≠ .refused) :
    ∃ r ∈ requests done waiting, r.client = i := by
  by_contra nobody
  push Not at nobody
  rcases h.otherClients i nobody with idle | refused
  · exact busy.1 idle
  · exact busy.2 refused

theorem Rendezvous.pair_of_server (busy : w.server j ≠ .idle ∧ w.server j ≠ .polled) :
    ∃ r, (r, j) ∈ done := by
  by_contra nobody
  have others : ∀ p ∈ done, p.2 ≠ j := by
    rintro ⟨r, k⟩ mem rfl
    exact nobody ⟨r, mem⟩
  rcases h.otherServers j others with idle | polled
  · exact busy.1 idle
  · exact busy.2 polled

/-- How far the client of a request is, and what the server has done for it. -/
theorem Rendezvous.client_cases (there : r ∈ requests done waiting) :
    (w.client r.client = .waiting r.acceptConn ∧
        w.conns r.acceptConn = some ⟨1, r.clientPipe, r.serverPipe⟩) ∨
      ∃ j, (r, j) ∈ done ∧ w.server j = .accepted r.clientPipe r.serverPipe ∧
        (Active w r ∧ w.conns r.acceptConn = some ⟨0, r.clientPipe, r.serverPipe⟩ ∨
          w.client r.client = .connected r.serverPipe r.clientPipe) := by
  rcases mem_requests.mp there with ⟨j, mem⟩ | inQueue
  · have paired := h.paired _ mem
    cases paired with
    | popped client _ live | took client _ live => exact .inl ⟨client, live⟩
    | cleared client accepted live => exact .inr ⟨j, mem, accepted, .inl ⟨.inl client, live⟩⟩
    | released client accepted live => exact .inr ⟨j, mem, accepted, .inl ⟨.inr client, live⟩⟩
    | connected client accepted => exact .inr ⟨j, mem, accepted, .inr client⟩
  · exact .inl ⟨(h.pending r inQueue).client, (h.pending r inQueue).conn⟩

omit h

theorem touch_of_conn {acceptConn : Nat} {conn : AcceptConn} (ne : acceptConn ≠ 0)
    (live : w.conns acceptConn = some conn) : w.touch acceptConn = .ok conn := by
  unfold Listener.touch
  rw [if_neg ne, live]

include h

theorem Rendezvous.wait (turn : w.client i = .waiting ac) :
    ∃ w', tryconnectWait i ac w = .ok w' ∧ Rendezvous w' done waiting := by
  obtain ⟨r, there, rfl⟩ := h.request_of_client (i := i) (by simp [turn])
  have ne := h.nonzero r there
  rcases h.client_cases there with ⟨client, live⟩ | ⟨j, mem, accepted, ⟨active, live⟩ | client⟩
  · -- The lock is set until the server has cleared it, and the round changes nothing.
    refine ⟨w, ?_, h⟩
    rw [tryconnectWait, ← Connect.waiting.inj (client.symm.trans turn), touch_of_conn ne live]
    rfl
  · obtain rfl : r.acceptConn = ac := by simpa [Active, turn, eq_comm] using active
    refine ⟨{ w with client := update w.client r.client (.released r.acceptConn) }, ?_,
      h.advance mem active (.released ?_ accepted live) ?_ ?_ ?_ rfl rfl⟩
    · rw [tryconnectWait, touch_of_conn ne live]
      rfl
    · exact update_self ..
    · exact fun i other => update_of_ne other ..
    · exact fun _ _ => rfl
    · exact fun _ _ => rfl
  · cases client.symm.trans turn

theorem Rendezvous.take (turn : w.client i = .released ac) :
    ∃ w', tryconnectTake i ac w = .ok w' ∧ Rendezvous w' done waiting := by
  obtain ⟨r, there, rfl⟩ := h.request_of_client (i := i) (by simp [turn])
  rcases h.client_cases there with ⟨client, -⟩ | ⟨j, mem, accepted, ⟨active, live⟩ | client⟩
  · cases client.symm.trans turn
  swap
  · cases client.symm.trans turn
  obtain rfl : r.acceptConn = ac := by simpa [Active, turn, eq_comm] using active
  have ne := h.nonzero r (mem_requests.mpr (.inl ⟨j, mem⟩))
  refine ⟨{ w with
      conns := update w.conns r.acceptConn none
      client := update w.client r.client (.connected r.serverPipe r.clientPipe) }, ?_,
    h.advance mem (.inr turn) (.connected ?_ accepted) ?_ ?_ ?_ rfl rfl⟩
  · rw [tryconnectTake, touch_of_conn ne live]
    rfl
  · exact update_self ..
  · exact fun i other => update_of_ne other ..
  · exact fun _ _ => rfl
  · exact fun ac other => update_of_ne other ..

/-- How far the server of a pair is; until it clears the lock the client waits. -/
theorem Rendezvous.server_cases (mem : (r, j) ∈ done) : (w.client r.client = .waiting r.acceptConn ∧
        w.conns r.acceptConn = some ⟨1, r.clientPipe, r.serverPipe⟩ ∧
        (w.server j = .popped r.acceptConn ∨
          w.server j = .took r.acceptConn r.clientPipe r.serverPipe)) ∨
      w.server j = .accepted r.clientPipe r.serverPipe := by
  have paired := h.paired _ mem
  cases paired with
  | popped client popped live => exact .inl ⟨client, live, .inl popped⟩
  | took client took live => exact .inl ⟨client, live, .inr took⟩
  | cleared _ accepted _ | released _ accepted _ | connected _ accepted => exact .inr accepted

theorem Rendezvous.popped_pair (turn : w.server j = .popped ac) :
    ∃ r, (r, j) ∈ done ∧ r.acceptConn = ac ∧ w.client r.client = .waiting ac ∧
      w.conns ac = some ⟨1, r.clientPipe, r.serverPipe⟩ := by
  obtain ⟨r, mem⟩ := h.pair_of_server (j := j) (by simp [turn])
  rcases h.server_cases mem with ⟨client, live, server | server⟩ | server <;> rw [server] at turn
  · obtain rfl := Accept.popped.inj turn
    exact ⟨r, mem, rfl, client, live⟩
  all_goals cases turn

theorem Rendezvous.pair (turn : w.server j = .popped ac) :
    ∃ w', acceptTake j ac w = .ok w' ∧ Rendezvous w' done waiting := by
  obtain ⟨r, mem, rfl, client, live⟩ := h.popped_pair turn
  have ne := h.nonzero r (mem_requests.mpr (.inl ⟨j, mem⟩))
  refine ⟨{ w with
      server := update w.server j (.took r.acceptConn r.clientPipe r.serverPipe) }, ?_,
    h.advance mem (.inl client) (.took client ?_ live) ?_ ?_ ?_ rfl rfl⟩
  · rw [acceptTake, touch_of_conn ne live]
    rfl
  · exact update_self ..
  · exact fun _ _ => rfl
  · exact fun j other => update_of_ne other ..
  · exact fun _ _ => rfl

theorem Rendezvous.took_pair (turn : w.server j = .took ac sendPipe recvPipe) :
    ∃ r, (r, j) ∈ done ∧ r.acceptConn = ac ∧ r.clientPipe = sendPipe ∧ r.serverPipe = recvPipe ∧
      w.client r.client = .waiting ac ∧ w.conns ac = some ⟨1, sendPipe, recvPipe⟩ := by
  obtain ⟨r, mem⟩ := h.pair_of_server (j := j) (by simp [turn])
  rcases h.server_cases mem with ⟨client, live, server | server⟩ | server <;> rw [server] at turn
  · cases turn
  · obtain ⟨rfl, rfl, rfl⟩ := Accept.took.inj turn
    exact ⟨r, mem, rfl, rfl, rfl, client, live⟩
  · cases turn

theorem Rendezvous.clear (turn : w.server j = .took ac sendPipe recvPipe) :
    ∃ w', acceptClear j ac sendPipe recvPipe w = .ok w' ∧ Rendezvous w' done waiting := by
  obtain ⟨r, mem, rfl, rfl, rfl, client, live⟩ := h.took_pair turn
  have ne := h.nonzero r (mem_requests.mpr (.inl ⟨j, mem⟩))
  refine ⟨{ w with
      conns := update w.conns r.acceptConn (some ⟨0, r.clientPipe, r.serverPipe⟩)
      server := update w.server j (.accepted r.clientPipe r.serverPipe) }, ?_,
    h.advance mem (.inl client) (.cleared client ?_ ?_) ?_ ?_ ?_ rfl rfl⟩
  · rw [acceptClear, touch_of_conn ne live]
    rfl
  · exact update_self ..
  · exact update_self ..
  · exact fun _ _ => rfl
  · exact fun j other => update_of_ne other ..
  · exact fun ac other => update_of_ne other ..

/-! ## Polling, popping and pushing -/

theorem Rendezvous.nobody_of_server (free : w.server j = .idle ∨ w.server j = .polled) :
    ∀ p ∈ done, p.2 ≠ j := by
  rintro p mem rfl
  rcases h.server_cases mem with ⟨-, -, server | server⟩ | server <;> simp [server] at free

theorem Rendezvous.poll (turn : w.server j = .idle) : Rendezvous (acceptPoll j w) done waiting := by
  unfold acceptPoll
  split
  · exact h
  have nobody := h.nobody_of_server (.inl turn)
  refine { h with
    pending := fun r inQueue => (h.pending r inQueue).frame rfl rfl
    paired := fun p mem =>
      (h.paired p mem).frame rfl (update_of_ne (nobody p mem) ..) fun _ => rfl
    otherServers := ?_ }
  intro k others
  by_cases same : k = j
  · rw [same]
    exact .inr (update_self ..)
  · have old := h.otherServers k others
    rwa [← update_of_ne same .polled w.server] at old

omit h

theorem Rendezvous.pop (h : Rendezvous w done (r :: waiting)) (turn : w.server j = .polled) :
    Rendezvous (acceptPop j w) (done ++ [(r, j)]) waiting := by
  obtain ⟨first, rest, -⟩ := contents_queuePop h.queue
  have same : requests (done ++ [(r, j)]) waiting = requests done (r :: waiting) := by
    simp [requests]
  have nobody : ∀ p ∈ done, p.2 ≠ j := h.nobody_of_server (.inr turn)
  have head := h.pending r mem_cons_self
  have mine : (acceptPop j w).server j = .popped (queuePop w.acceptQueue).1 := update_self ..
  have others : ∀ k, k ≠ j → (acceptPop j w).server k = w.server k := fun k ne => update_of_ne ne ..
  refine ⟨rest, ?_, ?_, ?_, ?_, ?_, ?_, ?_, ?_, ?_, ?_⟩
  · exact fun r' inQueue => (h.pending r' (mem_cons_of_mem _ inQueue)).frame rfl rfl
  · intro p mem
    rcases mem_append.mp mem with old | new
    · exact (h.paired p old).frame rfl (others _ (nobody p old)) fun _ => rfl
    rw [mem_singleton.mp new]
    rw [first] at mine
    exact .popped head.client mine head.conn
  · rw [same]
    exact h.clients
  · rw [map_append, nodup_append]
    refine ⟨h.servers, nodup_singleton _, ?_⟩
    intro k old k' new
    obtain ⟨p, mem, rfl⟩ := mem_map.mp old
    rw [mem_singleton.mp new]
    exact nobody p mem
  · rw [same]
    exact h.otherClients
  · intro k free
    rw [others k (Ne.symm (free (r, j) (by simp)))]
    exact h.otherServers k fun p mem => free p (mem_append_left _ mem)
  · rw [same]
    exact h.pipes
  · rw [same]
    exact h.livePipes
  · rw [same]
    exact h.conns
  · rw [same]
    exact h.nonzero

/-- The addresses that a new request is given are nobody else's. -/
structure FreshRequest (w : Listener) (r : Request) : Prop where
  nonzero : r.acceptConn ≠ 0
  conn : w.conns r.acceptConn = none
  clientPipe : w.pipes r.clientPipe = false
  serverPipe : w.pipes r.serverPipe = false
  distinct : r.clientPipe ≠ r.serverPipe

theorem tryconnectPush_full (fresh : FreshRequest w r)
    (full : w.acceptQueue.capacity = w.acceptQueue.size) :
    tryconnectPush r.client r.acceptConn r.clientPipe r.serverPipe w =
      { w with client := update w.client r.client .refused } := by
  have conns : update (update w.conns r.acceptConn
      (some ⟨1, r.clientPipe, r.serverPipe⟩)) r.acceptConn none = w.conns := by
    rw [update_idem, ← fresh.conn, update_eq_self]
  have pipes : update (update (update (update w.pipes
      r.clientPipe true) r.serverPipe true) r.clientPipe false) r.serverPipe false = w.pipes := by
    have dead : ∀ pipe, w.pipes pipe = false → update w.pipes pipe false = w.pipes := by
      intro pipe notLive
      rw [← notLive, update_eq_self]
    rw [update_comm fresh.distinct.symm, update_idem, update_idem,
      dead _ fresh.clientPipe, dead _ fresh.serverPipe]
  unfold tryconnectPush
  rw [queuePush_full full]
  simp only [if_pos]
  rw [conns, pipes]

include h

theorem Rendezvous.nobody_of_client (free : w.client i = .idle) :
    ∀ r ∈ requests done waiting, r.client ≠ i := by
  rintro r mem rfl
  rcases h.client_cases mem with ⟨client, -⟩ | ⟨j, -, -, ⟨client | client, -⟩ | client⟩
  all_goals cases client.symm.trans free

theorem Rendezvous.refuse (turn : w.client i = .idle) :
    Rendezvous { w with client := update w.client i .refused } done waiting := by
  have nobody := h.nobody_of_client turn
  have client : ∀ r ∈ requests done waiting,
      update w.client i .refused r.client = w.client r.client :=
    fun r there => update_of_ne (nobody r there) ..
  refine { h with pending := ?_, paired := ?_, otherClients := ?_, conns := ?_ }
  · intro r inQueue
    exact (h.pending r inQueue).frame (client r (mem_requests.mpr (.inr inQueue))) rfl
  · intro p mem
    exact (h.paired p mem).frame (client _ (mem_requests.mpr (.inl ⟨p.2, mem⟩))) rfl fun _ => rfl
  · intro k others
    by_cases same : k = i
    · rw [same]
      exact .inr (update_self ..)
    · have old := h.otherClients k others
      rwa [← update_of_ne same .refused w.client] at old
  · intro r there r' there' holds holds'
    exact h.conns r there r' there' (holds.of_client (client r there))
      (holds'.of_client (client r' there'))

omit h

theorem tryconnectPush_room (room : w.acceptQueue.capacity ≠ w.acceptQueue.size) :
    tryconnectPush r.client r.acceptConn r.clientPipe r.serverPipe w =
      { conns := update w.conns r.acceptConn (some ⟨1, r.clientPipe, r.serverPipe⟩)
        pipes := update (update w.pipes r.clientPipe true) r.serverPipe true
        acceptQueue := (queuePush w.acceptQueue r.acceptConn).2
        client := update w.client r.client (.waiting r.acceptConn)
        server := w.server } := by
  obtain ⟨ret, -⟩ := contents_queuePush room r.acceptConn
  have pushed : (queuePush w.acceptQueue r.acceptConn).1 ≠ -1 := by
    omega
  exact if_neg pushed

include h

theorem Rendezvous.live_of_active (mem : r ∈ requests done waiting) (active : Active w r) :
    ∃ lock, w.conns r.acceptConn = some ⟨lock, r.clientPipe, r.serverPipe⟩ := by
  rcases h.client_cases mem with ⟨-, live⟩ | ⟨j, -, -, ⟨-, live⟩ | client⟩
  · exact ⟨_, live⟩
  · exact ⟨_, live⟩
  · simp [Active, client] at active

theorem Rendezvous.push (turn : w.client r.client = .idle) (fresh : FreshRequest w r)
    (room : w.acceptQueue.capacity ≠ w.acceptQueue.size) :
    Rendezvous (tryconnectPush r.client r.acceptConn r.clientPipe r.serverPipe w) done
      (waiting ++ [r]) := by
  obtain ⟨-, contents, -⟩ := contents_queuePush room r.acceptConn
  rw [tryconnectPush_room room]
  have nobody := h.nobody_of_client turn
  have split : requests done (waiting ++ [r]) = requests done waiting ++ [r] := by
    simp [requests]
  have client : ∀ r' ∈ requests done waiting,
      update w.client r.client (.waiting r.acceptConn) r'.client = w.client r'.client :=
    fun r' there => update_of_ne (nobody r' there) ..
  have elsewhere : ∀ r' ∈ requests done waiting, Active w r' → r'.acceptConn ≠ r.acceptConn := by
    intro r' there active same
    obtain ⟨lock, live⟩ := h.live_of_active there active
    rw [same, fresh.conn] at live
    cases live
  have conn : ∀ r' ∈ requests done waiting, Active w r' →
      update w.conns r.acceptConn (some ⟨1, r.clientPipe, r.serverPipe⟩) r'.acceptConn =
        w.conns r'.acceptConn :=
    fun r' there active => update_of_ne (elsewhere r' there active) ..
  refine ⟨?_, ?_, ?_, ?_, h.servers, ?_, h.otherServers, ?_, ?_, ?_, ?_⟩
  · rw [contents, h.queue, map_append]
    rfl
  · intro r' inQueue
    rcases mem_append.mp inQueue with old | new
    · have there : r' ∈ requests done waiting := mem_requests.mpr (.inr old)
      have waits := h.pending r' old
      exact waits.frame (client r' there) (conn r' there (.inl waits.client))
    · rw [mem_singleton.mp new]
      exact ⟨update_self .., update_self ..⟩
  · intro p mem
    have there : p.1 ∈ requests done waiting := mem_requests.mpr (.inl ⟨p.2, mem⟩)
    exact (h.paired p mem).frame (client _ there) rfl (conn _ there)
  · rw [split, map_append, nodup_append]
    refine ⟨h.clients, nodup_singleton _, ?_⟩
    intro i old i' new
    obtain ⟨r', there, rfl⟩ := mem_map.mp old
    rw [mem_singleton.mp new]
    exact nobody r' there
  · intro i others
    rw [split] at others
    have notNew : i ≠ r.client := Ne.symm (others r (by simp))
    have old := h.otherClients i fun r' there => others r' (mem_append_left _ there)
    rwa [← update_of_ne notNew (.waiting r.acceptConn) w.client] at old
  · rw [split, flatMap_append, nodup_append]
    refine ⟨h.pipes, by simpa using fresh.distinct, ?_⟩
    intro pipe old pipe' new same
    have live : w.pipes pipe = true := by
      obtain ⟨r, there, one⟩ := mem_flatMap.mp old
      simp only [mem_cons, not_mem_nil, or_false] at one
      rcases one with rfl | rfl
      · exact (h.livePipes r there).1
      · exact (h.livePipes r there).2
    rw [same] at live
    rcases mem_flatMap.mp new with ⟨r', itself, one⟩
    rw [mem_singleton.mp itself] at one
    simp only [mem_cons, not_mem_nil, or_false] at one
    rcases one with rfl | rfl
    · exact Bool.false_ne_true (fresh.clientPipe.symm.trans live)
    · exact Bool.false_ne_true (fresh.serverPipe.symm.trans live)
  · intro r' there
    rw [split] at there
    rcases mem_append.mp there with old | new
    · obtain ⟨liveClient, liveServer⟩ := h.livePipes r' old
      simp [update_apply, liveClient, liveServer]
    · simp [mem_singleton.mp new, update_apply]
  · intro r1 there1 r2 there2 active1 active2 same
    rw [split] at there1 there2
    rcases mem_append.mp there1 with old1 | new1 <;>
      rcases mem_append.mp there2 with old2 | new2
    · exact h.conns r1 old1 r2 old2 (active1.of_client (client r1 old1))
        (active2.of_client (client r2 old2)) same
    · rw [mem_singleton.mp new2] at same
      exact absurd same (elsewhere r1 old1 (active1.of_client (client r1 old1)))
    · rw [mem_singleton.mp new1] at same
      exact absurd same.symm (elsewhere r2 old2 (active2.of_client (client r2 old2)))
    · rw [mem_singleton.mp new1, mem_singleton.mp new2]
  · intro r' there
    rw [split] at there
    rcases mem_append.mp there with old | new
    · exact h.nonzero r' old
    · rw [mem_singleton.mp new]
      exact fresh.nonzero

end

/-! ## Runs -/

/-- The request that a push adds to the queue. -/
def Action.pushed (w : Listener) : Action → List Request
  | .push client acceptConn clientPipe serverPipe =>
    if w.client client = .idle ∧ w.acceptQueue.capacity ≠ w.acceptQueue.size then
      [⟨client, acceptConn, clientPipe, serverPipe⟩]
    else []
  | _ => []

/-- The server that takes a request off the queue. -/
def Action.popped (w : Listener) : Action → List Nat
  | .pop server => if w.server server = .polled ∧ w.acceptQueue.size ≠ 0 then [server] else []
  | _ => []

/-- `kmalloc` gives addresses that are not in use. -/
def Fresh (w : Listener) : Action → Prop
  | .push client acceptConn clientPipe serverPipe =>
    FreshRequest w ⟨client, acceptConn, clientPipe, serverPipe⟩
  | _ => True

/-- A server that left its loop pops before the queue is empty again. -/
def PopsFilled (w : Listener) : Action → Prop
  | .pop server => w.server server = .polled → w.acceptQueue.size ≠ 0
  | _ => True

/-- Steps of any calls in any order, each meeting the guard, from a fresh listening socket; with the
requests pushed and the servers that popped them, in order. -/
inductive SocketRun (Guard : Listener → Action → Prop) :
    Listener → List Request → List Nat → Prop
  | start {w : Listener} (clients : ∀ i, w.client i = .idle) (servers : ∀ j, w.server j = .idle)
      (empty : w.acceptQueue.size = 0) : SocketRun Guard w [] []
  | step {w w' : Listener} {pushes : List Request} {pops : List Nat}
      (before : SocketRun Guard w pushes pops) (action : Action) (fresh : Fresh w action)
      (guard : Guard w action) (taken : step action w = .ok w') :
      SocketRun Guard w' (pushes ++ action.pushed w) (pops ++ action.popped w)

variable {send recv : Nat}

section

variable {action : Action} (h : Rendezvous w done waiting)

include h

theorem Rendezvous.next (fresh : Fresh w action) (filled : PopsFilled w action) :
    ∃ w' done' waiting', step action w = .ok w' ∧ Rendezvous w' done' waiting' ∧
      requests done' waiting' = requests done waiting ++ action.pushed w ∧
      done'.map Prod.snd = done.map Prod.snd ++ action.popped w := by
  have quiet {w'} (taken : step action w = .ok w') (kept : Rendezvous w' done waiting)
      (noPush : action.pushed w = []) (noPop : action.popped w = []) :
      ∃ w' done' waiting', step action w = .ok w' ∧ Rendezvous w' done' waiting' ∧
        requests done' waiting' = requests done waiting ++ action.pushed w ∧
        done'.map Prod.snd = done.map Prod.snd ++ action.popped w := by
    refine ⟨w', done, waiting, taken, kept, ?_, ?_⟩
    · rw [noPush, append_nil]
    · rw [noPop, append_nil]
  cases action with
  | push client acceptConn clientPipe serverPipe =>
    by_cases turn : w.client client = .idle
    · have taken : step (.push client acceptConn clientPipe serverPipe) w =
          .ok (tryconnectPush client acceptConn clientPipe serverPipe w) := by
        simp only [step, turn]
      by_cases full : w.acceptQueue.capacity = w.acceptQueue.size
      · have same := tryconnectPush_full fresh full
        rw [same] at taken
        exact quiet taken (h.refuse turn) (by simp [Action.pushed, full]) rfl
      refine ⟨_, done, waiting ++ [⟨client, acceptConn, clientPipe, serverPipe⟩], taken,
        h.push turn fresh full, ?_, ?_⟩
      · simp [Action.pushed, turn, full, requests]
      · simp [Action.popped]
    · refine quiet ?_ h (by simp [Action.pushed, turn]) rfl
      simp only [step]
  | wait client =>
    cases turn : w.client client with
    | waiting acceptConn =>
      obtain ⟨w', taken, kept⟩ := h.wait turn
      exact quiet (by simpa only [step, turn] using taken) kept rfl rfl
    | _ => exact quiet (by simp only [step, turn]) h rfl rfl
  | take client =>
    cases turn : w.client client with
    | released acceptConn =>
      obtain ⟨w', taken, kept⟩ := h.take turn
      exact quiet (by simpa only [step, turn] using taken) kept rfl rfl
    | _ => exact quiet (by simp only [step, turn]) h rfl rfl
  | poll server =>
    cases turn : w.server server with
    | idle => exact quiet (by simp only [step, turn]) (h.poll turn) rfl rfl
    | _ => exact quiet (by simp only [step, turn]) h rfl rfl
  | pop server =>
    by_cases turn : w.server server = .polled
    · have some : w.acceptQueue.size ≠ 0 := filled turn
      have notEmpty : waiting ≠ [] := by
        rintro rfl
        exact some (w.acceptQueue.contents_eq_nil_iff.mp h.queue)
      obtain ⟨r, rest, rfl⟩ := exists_cons_of_ne_nil notEmpty
      refine ⟨_, done ++ [(r, server)], rest, by simp only [step, turn], h.pop turn, ?_, ?_⟩
      · simp [Action.pushed, requests]
      · simp [Action.popped, turn, some]
    · exact quiet (by simp only [step]) h rfl (by simp [Action.popped, turn])
  | pair server =>
    cases turn : w.server server with
    | popped acceptConn =>
      obtain ⟨w', taken, kept⟩ := h.pair turn
      exact quiet (by simpa only [step, turn] using taken) kept rfl rfl
    | _ => exact quiet (by simp only [step, turn]) h rfl rfl
  | clear server =>
    cases turn : w.server server with
    | took acceptConn sendPipe recvPipe =>
      obtain ⟨w', taken, kept⟩ := h.clear turn
      exact quiet (by simpa only [step, turn] using taken) kept rfl rfl
    | _ => exact quiet (by simp only [step, turn]) h rfl rfl

omit h

theorem Rendezvous.start (clients : ∀ i, w.client i = .idle) (servers : ∀ j, w.server j = .idle)
    (empty : w.acceptQueue.size = 0) : Rendezvous w [] [] where
  queue := w.acceptQueue.contents_eq_nil_iff.mpr empty
  pending := by simp
  paired := by simp
  clients := by simp [requests]
  servers := by simp
  otherClients i _ := .inl (clients i)
  otherServers j _ := .inl (servers j)
  pipes := by simp [requests]
  livePipes := by simp [requests]
  conns := by simp [requests]
  nonzero := by simp [requests]

/-! ## Who is paired with whom -/

/-- The connect of the client has these pipes, or will take them out of its request. -/
def Connects (w : Listener) (client sendPipe recvPipe : Nat) : Prop :=
  w.client client = .connected sendPipe recvPipe ∨
    ∃ acceptConn lock, (w.client client = .waiting acceptConn ∨
      w.client client = .released acceptConn) ∧ w.conns acceptConn = some ⟨lock, recvPipe, sendPipe⟩

/-- The accept of the server has taken these pipes. -/
def Accepts (w : Listener) (server sendPipe recvPipe : Nat) : Prop :=
  w.server server = .accepted sendPipe recvPipe ∨
    ∃ acceptConn, w.server server = .took acceptConn sendPipe recvPipe

include h

theorem Rendezvous.connects_of_request (mem : r ∈ requests done waiting) :
    Connects w r.client r.serverPipe r.clientPipe := by
  rcases h.client_cases mem with ⟨client, live⟩ | ⟨j, -, -, ⟨client, live⟩ | client⟩
  · exact .inr ⟨_, _, .inl client, live⟩
  · exact .inr ⟨_, _, client, live⟩
  · exact .inl client

omit h

theorem Connects.unique {send' recv' : Nat} (first : Connects w i send recv)
    (second : Connects w i send' recv') : send = send' ∧ recv = recv' := by
  unfold Connects at first second
  grind

include h

theorem Rendezvous.request_of_connects (connects : Connects w i send recv) :
    ∃ r ∈ requests done waiting, r.client = i ∧ r.serverPipe = send ∧ r.clientPipe = recv := by
  have busy : w.client i ≠ .idle ∧ w.client i ≠ .refused := by
    rcases connects with at' | ⟨ac, lock, at' | at', -⟩ <;> simp [at']
  obtain ⟨r, mem, rfl⟩ := h.request_of_client busy
  exact ⟨r, mem, rfl, (h.connects_of_request mem).unique connects⟩

theorem Rendezvous.pair_of_accepts (accepts : Accepts w j send recv) :
    ∃ r, (r, j) ∈ done ∧ r.clientPipe = send ∧ r.serverPipe = recv := by
  have busy : w.server j ≠ .idle ∧ w.server j ≠ .polled := by
    rcases accepts with at' | ⟨ac, at'⟩ <;> simp [at']
  obtain ⟨r, mem⟩ := h.pair_of_server busy
  refine ⟨r, mem, ?_⟩
  unfold Accepts at accepts
  rcases h.server_cases mem with ⟨-, -, server | server⟩ | server <;> simp_all

theorem Rendezvous.disjoint_pipes (mem : r ∈ requests done waiting)
    (mem' : r' ∈ requests done waiting) (ne : r ≠ r') :
    [r.clientPipe, r.serverPipe].Disjoint [r'.clientPipe, r'.serverPipe] := by
  have symmetric : Std.Symm
      (Function.onFun List.Disjoint fun r : Request => [r.clientPipe, r.serverPipe]) :=
    ⟨fun _ _ apart _ mine others => apart others mine⟩
  exact (nodup_flatMap.mp h.pipes).2.forall mem mem' ne

theorem Rendezvous.eq_of_pipe (mem : r ∈ requests done waiting)
    (mem' : r' ∈ requests done waiting) (same : r.clientPipe = r'.clientPipe) : r = r' := by
  by_contra ne
  exact h.disjoint_pipes mem mem' ne (mem_cons_self) (by simp [same])

theorem Rendezvous.connected_accepted (connected : w.client i = .connected send recv) :
    ∃! j, w.server j = .accepted recv send := by
  obtain ⟨r, there, rfl, rfl, rfl⟩ := h.request_of_connects (.inl connected)
  rcases h.client_cases there with ⟨client, -⟩ | ⟨j, mem, server, ⟨client | client, -⟩ | -⟩
  · cases client.symm.trans connected
  · cases client.symm.trans connected
  · cases client.symm.trans connected
  refine ⟨j, server, ?_⟩
  intro j' accepted
  obtain ⟨r', mem', samePipe, -⟩ := h.pair_of_accepts (.inl accepted)
  have same := h.eq_of_pipe (mem_requests.mpr (.inl ⟨j', mem'⟩)) there samePipe
  exact congrArg Prod.snd (h.eq_of_request mem' mem same)

theorem Rendezvous.accepted_connects (accepts : Accepts w j send recv) :
    ∃! i, Connects w i recv send := by
  obtain ⟨r, mem, rfl, rfl⟩ := h.pair_of_accepts accepts
  have there : r ∈ requests done waiting := mem_requests.mpr (.inl ⟨j, mem⟩)
  refine ⟨r.client, h.connects_of_request there, ?_⟩
  intro i connects
  obtain ⟨r', there', rfl, -, samePipe⟩ := h.request_of_connects connects
  rw [h.eq_of_pipe there' there samePipe]

theorem Rendezvous.in_order {k : Nat} (pushed : (requests done waiting)[k]? = some r)
    (popped : (done.map Prod.snd)[k]? = some j) : Paired w r j := by
  rw [getElem?_map] at popped
  obtain ⟨p, found, rfl⟩ := map_eq_some_iff.mp popped
  have lt : k < (done.map Prod.fst).length := by
    rw [length_map]
    exact (List.getElem?_eq_some_iff.mp found).1
  rw [requests, getElem?_append_left lt, getElem?_map, found] at pushed
  obtain rfl := some.inj pushed
  exact h.paired p (mem_of_getElem? found)

theorem Rendezvous.holder_waits
    (holds : w.server j = .popped ac ∨ ∃ send recv, w.server j = .took ac send recv) :
    ∃ i, w.client i = .waiting ac := by
  rcases holds with popped | ⟨send, recv, took⟩
  · obtain ⟨r, -, -, waits, -⟩ := h.popped_pair popped
    exact ⟨r.client, waits⟩
  · obtain ⟨r, -, -, -, -, waits, -⟩ := h.took_pair took
    exact ⟨r.client, waits⟩

omit h

/-- In every run in which no server pops an empty queue: a completed connect belongs to exactly one
accept and an accept to exactly one connect, with crossed pipes that no other pair has; requests are
taken in the order of their pushes; a refused push changes only its own call; no step faults, and a
server holds the address of a request only while its client waits. A server that left its loop and
finds the queue empty dereferences null next. -/
theorem socket_rendezvous {pushes : List Request} {pops : List Nat}
    (run : SocketRun PopsFilled w pushes pops) :
    (∀ i send recv, w.client i = .connected send recv → ∃! j, w.server j = .accepted recv send) ∧
    (∀ j send recv, Accepts w j send recv → ∃! i, Connects w i recv send) ∧
    (∀ i i' send recv send' recv', Connects w i send recv → Connects w i' send' recv' → i ≠ i' →
      [send, recv].Disjoint [send', recv']) ∧
    pops.length ≤ pushes.length ∧
    (∀ (k : Nat) (r : Request) (j : Nat), pushes[k]? = some r → pops[k]? = some j → Paired w r j) ∧
    (∀ r, FreshRequest w r → w.client r.client = .idle →
      w.acceptQueue.capacity = w.acceptQueue.size →
      step (.push r.client r.acceptConn r.clientPipe r.serverPipe) w =
        .ok { w with client := update w.client r.client .refused }) ∧
    (∀ action, Fresh w action → PopsFilled w action → ∃ w', step action w = .ok w') ∧
    (∀ j ac, (w.server j = .popped ac ∨ ∃ send recv, w.server j = .took ac send recv) →
      ∃ i, w.client i = .waiting ac) ∧
    (∀ j, ¬ PopsFilled w (.pop j) →
      ∃ w', step (.pop j) w = .ok w' ∧ step (.pair j) w' = .error .nullDereference) := by
  obtain ⟨done, waiting, h, rfl, rfl⟩ : ∃ done waiting, Rendezvous w done waiting ∧ requests done
      waiting = pushes ∧ done.map Prod.snd = pops := by
    induction run with
    | start clients servers empty => exact ⟨[], [], .start clients servers empty, rfl, rfl⟩
    | step lt action fresh guard taken previous =>
      obtain ⟨done, waiting, h, rfl, rfl⟩ := previous
      obtain ⟨w', done', waiting', taken', h', pushed, popped⟩ := h.next fresh guard
      rw [taken] at taken'
      obtain rfl := Except.ok.inj taken'
      exact ⟨done', waiting', h', pushed, popped⟩
  refine ⟨?_, ?_, ?_, ?_, ?_, ?_, ?_, ?_, ?_⟩
  · exact fun i send recv connected => h.connected_accepted connected
  · exact fun j send recv accepts => h.accepted_connects accepts
  · intro i i' send recv send' recv' connects connects' ne
    obtain ⟨r, mem, rfl, rfl, rfl⟩ := h.request_of_connects connects
    obtain ⟨r', mem', rfl, rfl, rfl⟩ := h.request_of_connects connects'
    have apart := h.disjoint_pipes mem mem' (fun same => ne (congrArg _ same))
    intro pipe mine others
    exact apart (by simpa [or_comm] using mine) (by simpa [or_comm] using others)
  · simp [requests]
  · exact fun k r j pushed popped => h.in_order pushed popped
  · intro r fresh turn full
    simp only [step, turn, tryconnectPush_full fresh full]
  · intro action fresh filled
    obtain ⟨w', done', waiting', taken, -⟩ := h.next fresh filled
    exact ⟨w', taken⟩
  · exact fun j ac holds => h.holder_waits holds
  · intro j starved
    obtain ⟨turn, empty⟩ : w.server j = .polled ∧ w.acceptQueue.size = 0 := by
      simpa [PopsFilled] using starved
    refine ⟨acceptPop j w, by simp only [step, turn], ?_⟩
    have popped : (acceptPop j w).server j = .popped 0 := by
      simp [acceptPop, queuePop, empty]
    simp only [step, popped]
    rfl

end

/-- A listening socket that nobody has used. -/
def freshListener : Listener where
  conns _ := none
  pipes _ := false
  acceptQueue := queueCreate none fun _ => 0
  client _ := .idle
  server _ := .idle

theorem SocketRun.freshListener (Guard : Listener → Action → Prop) :
    SocketRun Guard freshListener [] [] :=
  .start (fun _ => rfl) (fun _ => rfl) rfl

theorem socket_rendezvous_one_pair :
    ∃ w pushes pops, SocketRun PopsFilled w pushes pops ∧ w.client 0 = .connected 2 1 ∧
      ∃! j, w.server j = .accepted 1 2 := by
  have story : ∃ w pushes pops, SocketRun PopsFilled w pushes pops ∧
      w.client 0 = .connected 2 1 := by
    have run := SocketRun.freshListener PopsFilled
    have run := run.step (.push 0 1 1 2) ⟨by decide, rfl, rfl, rfl, by decide⟩ trivial rfl
    have run := run.step (.poll 0) trivial trivial rfl
    have run := run.step (.pop 0) trivial (fun _ => by decide) rfl
    have run := run.step (.pair 0) trivial trivial rfl
    have run := run.step (.clear 0) trivial trivial rfl
    have run := run.step (.wait 0) trivial trivial rfl
    have run := run.step (.take 0) trivial trivial rfl
    exact ⟨_, _, _, run, rfl⟩
  obtain ⟨w, pushes, pops, run, connected⟩ := story
  exact ⟨w, pushes, pops, run, connected, (socket_rendezvous run).1 0 2 1 connected⟩

/-- Two servers see the one request of one client; the second pops the null pointer. -/
theorem socket_rendezvous_two_servers :
    ∃ w pushes pops, SocketRun (fun _ _ => True) w pushes pops ∧ w.server 1 = .popped 0 ∧
      step (.pair 1) w = .error .nullDereference := by
  have run := SocketRun.freshListener fun _ _ => True
  have run := run.step (.push 0 1 1 2) ⟨by decide, rfl, rfl, rfl, by decide⟩ trivial rfl
  have run := run.step (.poll 0) trivial trivial rfl
  have run := run.step (.poll 1) trivial trivial rfl
  have run := run.step (.pop 0) trivial trivial rfl
  have run := run.step (.pop 1) trivial trivial rfl
  exact ⟨_, _, _, run, rfl, rfl⟩

end Yanix.Net
