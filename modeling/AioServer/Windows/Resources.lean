import AioServer.Lib.Ledger
import AioServer.Windows.Access
import AioServer.Windows.OpenSockets
import Mathlib.Algebra.BigOperators.Group.Finset.Basic

/-!
# The Windows server: the resources of the clients

A client is two blocks of the allocator, a socket and, while it is served, a file; each client
on `sv_clients` has a node there. The calls that acquire, use and release these things are
spread over seven functions of three kinds of threads.

* `State.events`: what the calls of a step do to the resources;
* `State.Inventory`: what the server holds is what its live clients own, with the listening socket
  and the nodes;
* `State.SocketsHeld`: the sockets among it are the open ones of the socket table;
* `ServerRun.inventory`: this is so after every run, so no call is given a handle that was closed,
  and after `server_cleanup_and_shutdown` only the clients on no list have anything left.
-/

namespace AioServer.Windows

open Lib

/-! ## The resources and the calls -/

/-- A socket, a file, the blocks of a client and of its buffer, and its node. -/
inductive ClientResource
  | sock (k : Socket)
  | file (h : Handle)
  | block (c : ClientPtr)
  | buffer (c : ClientPtr)
  | node (c : ClientPtr)
deriving DecidableEq, Repr

abbrev ClientEvents := List (Event ClientResource)

/-- The socket, unless it is `INVALID_SOCKET`. -/
def ofSock (k : Socket) : List ClientResource := if k ≠ invalidSocket then [.sock k] else []

/-- The file, unless it is `INVALID_HANDLE_VALUE`. -/
def ofFile (h : Handle) : List ClientResource := if h ≠ invalidHandleValue then [.file h] else []

/-- `client_reinit`: `CloseHandle`, `shutdown`, `closesocket` and `create_overlapped_socket`. -/
def reinitEvents (cl : Client) (reuseSocket : Bool) (sock : Socket) : ClientEvents :=
  (ofFile cl.clFile).map .release ++
    if reuseSocket then []
    else (ofSock cl.clSock).map .use ++ (ofSock cl.clSock).map .release ++
      (ofSock sock).map .acquire

/-- `client_create`, with its error exit. -/
def createEvents (block : Option ClientPtr) (buffer : Bool) (sock : Socket) : ClientEvents :=
  match block with
  | none => []
  | some c =>
    .acquire (.block c) ::
      if !buffer then [.release (.block c)]
      else .acquire (.buffer c) ::
        if sock = invalidSocket then [.release (.buffer c), .release (.block c)]
        else [.acquire (.sock sock)]

/-- `client_destroy`: `setsockopt`, `shutdown`, `closesocket`, `CloseHandle` and the two blocks. -/
def destroyEvents (c : ClientPtr) (cl : Client) : ClientEvents :=
  (ofSock cl.clSock).map .use ++ (ofSock cl.clSock).map .use ++
    (ofSock cl.clSock).map .release ++ (ofFile cl.clFile).map .release ++
    [.release (.buffer c), .release (.block c)]

/-- What a call does with the record of its client; a thread whose client is gone ends there. -/
def State.eventsWith (s : State) (c : ClientPtr) (f : Client → ClientEvents) : ClientEvents :=
  (s.heap c).elim [] f

def State.mainEvents (s : State) (call : MainCall) : ClientEvents :=
  match s.main, call with
  | .reinit c opts, .clientReinit sock => s.eventsWith c fun cl => reinitEvents cl opts sock
  | .retry c _, .clientReinit sock => s.eventsWith c fun cl => reinitEvents cl false sock
  | .create _, .clientCreate block buffer sock => createEvents block buffer sock
  | .addToList c _, .dlistPushHead node =>
    s.eventsWith c fun _ => if node then [.acquire (.node c)] else []
  | .postAcceptEx c _, .acceptEx _ =>
    s.eventsWith c fun cl => .use (.sock s.svSock) :: (ofSock cl.clSock).map .use
  | .removeFromList _ c _, .dlistRemoveItem =>
    s.eventsWith c fun _ => ((Sequence.removeItem s.compare c s.svClients).1.map
      fun x => Event.release (.node x)).toList
  | .destroy _ c _, .clientDestroy => s.eventsWith c (destroyEvents c)
  | _, _ => []

def State.workerEvents (s : State) (pc : WorkerPc) (call : WorkerCall) : ClientEvents :=
  match pc, call with
  | .setsockopt c, .setsockopt _ =>
    s.eventsWith c fun cl => (ofSock cl.clSock).map .use ++ [.use (.sock s.svSock)]
  | .associate c, .createIoCompletionPort _ | .readFromClient c, .wsaRecv0Bytes _
  | .recvRequest c, .wsaRecv _ => s.eventsWith c fun cl => (ofSock cl.clSock).map .use
  | .openResource c (some _), .createFile h => s.eventsWith c fun _ => (ofFile h).map .acquire
  | .querySize c, .getFileSizeEx ok =>
    s.eventsWith c fun cl =>
      .use (.file cl.clFile) :: if ok then [] else [.release (.file cl.clFile)]
  | .transmit c, .transmitFile _ =>
    s.eventsWith c fun cl => (ofSock cl.clSock).map .use ++ (ofFile cl.clFile).map .use
  | _, _ => []

/-- A step, where the kernel has used the socket and the file of its client until it completes
an operation. -/
def State.events (s : State) : Action → ClientEvents
  | .main call => s.mainEvents call
  | .worker i call => (s.workers[i]?).elim [] fun w => s.workerEvents w.pc call
  | .complete i _ =>
    (s.pending[i]?).elim [] fun p => s.eventsWith p.1 fun cl =>
      (ofSock cl.clSock).map .use ++ (ofFile cl.clFile).map .use
  | _ => []

/-- The events of a run. -/
def ledgerOf (tr : List (State × Action)) : ClientEvents := tr.flatMap fun x => x.1.events x.2

/-- `server_cleanup_and_shutdown`: `closesocket`, `dlist_for_each` with `client_destructor`, and
`dlist_destroy`. -/
def State.cleanupEvents (s : State) : ClientEvents :=
  .release (.sock s.svSock) ::
    ((s.svClients.flatMap fun c => s.eventsWith c (destroyEvents c)) ++
      (s.svClients.map .node).map .release)

/-! ## What is held -/

def blocksOf (c : ClientPtr) : List ClientResource := [.buffer c, .block c]

/-- What a client owns. -/
def Client.owned (c : ClientPtr) (cl : Client) : List ClientResource :=
  ofSock cl.clSock ++ ofFile cl.clFile ++ blocksOf c

def State.ownedBy (s : State) (c : ClientPtr) : Multiset ClientResource :=
  ((s.heap c).elim [] (Client.owned c) : List ClientResource)

/-- The nodes of the list. -/
def State.nodes (s : State) : Multiset ClientResource :=
  (s.svClients.map .node : List ClientResource)

/-- `L` are the live clients. -/
def State.LiveSet (s : State) (L : Finset ClientPtr) : Prop := ∀ c, c ∈ L ↔ s.Live c

/-- The server holds the listening socket, what its live clients own, and the nodes. -/
def State.Inventory (s : State) (held : Multiset ClientResource) : Prop :=
  ∃ L : Finset ClientPtr, s.LiveSet L ∧
    held = {.sock s.svSock} + ∑ c ∈ L, s.ownedBy c + s.nodes

/-- The open sockets are those that are held, and each is held once. -/
def State.SocketsHeld (s : State) (held : Multiset ClientResource) : Prop :=
  ∀ k, k ≠ invalidSocket → held.count (.sock k) = if (s.sockets k).isSome then 1 else 0

/-! ## The functions on one client -/

section calls

variable {c : ClientPtr} {cl : Client} {base : Multiset ClientResource}

theorem owned_eq (c : ClientPtr) (cl : Client) : (Client.owned c cl : Multiset ClientResource)
    = (ofSock cl.clSock : Multiset ClientResource) + (ofFile cl.clFile : Multiset ClientResource)
      + (blocksOf c : Multiset ClientResource) := rfl

/-- `client_reinit` closes the file and puts the new socket in the place of the old one. -/
theorem settle_reinitEvents {sockets : SocketTable} {reuseSocket : Bool} {sock : Socket}
    {r : ReinitResult} (hr : Reinit c cl sockets reuseSocket sock r) :
    settle (base + (Client.owned c cl : Multiset ClientResource)) (reinitEvents cl reuseSocket sock)
      = some (base + (Client.owned c r.client : Multiset ClientResource)) := by
  have hfile : ofFile r.client.clFile = [] := by simp [ofFile, hr.file]
  rw [owned_eq, owned_eq, hfile, reinitEvents]
  have hclose : settle (base + ((ofSock cl.clSock : Multiset ClientResource)
      + (ofFile cl.clFile : Multiset ClientResource)
      + (blocksOf c : Multiset ClientResource))) ((ofFile cl.clFile).map .release)
      = some ((ofSock cl.clSock : Multiset ClientResource)
        + (base + (blocksOf c : Multiset ClientResource))) := by
    have hnone : settle ((ofFile cl.clFile : Multiset ClientResource) + 0)
        ((ofFile cl.clFile).map .release) = some 0 := settle_releases _
    refine settle_part hnone ?_ (zero_add _).symm
    abel
  refine settle_trans hclose ?_
  cases reuseSocket with
  | true =>
    rw [if_pos rfl, settle_nil, (hr.reuse rfl).1]
    simp only [Multiset.coe_nil, add_zero]
    exact congrArg some (by abel)
  | false =>
    rw [if_neg (by simp), (hr.replace rfl).1, List.append_assoc]
    have huse : settle ((ofSock cl.clSock : Multiset ClientResource)
        + (base + (blocksOf c : Multiset ClientResource))) ((ofSock cl.clSock).map .use)
        = some ((ofSock cl.clSock : Multiset ClientResource)
          + (base + (blocksOf c : Multiset ClientResource))) :=
      settle_uses fun r hr => Multiset.mem_add.mpr (Or.inl (Multiset.mem_coe.mpr hr))
    refine settle_trans huse (settle_trans (settle_releases _) ?_)
    rw [settle_acquires]
    simp only [Multiset.coe_nil, add_zero]
    exact congrArg some (by abel)

theorem settle_createEvents {sock : Socket} (hk : sock ≠ invalidSocket) :
    settle base (createEvents (some c) true sock)
      = some (base + (Client.owned c (newClient sock) : Multiset ClientResource)) := by
  have hs : ofSock sock = [.sock sock] := if_pos hk
  have hf : ofFile invalidHandleValue = [] := by simp [ofFile]
  simp only [createEvents, Bool.not_true, Bool.false_eq_true, if_false, if_neg hk, settle_acquire,
    settle_nil, owned_eq, newClient, hs, hf]
  refine congrArg some ?_
  simp only [blocksOf, ← Multiset.singleton_add, ← Multiset.cons_coe, Multiset.coe_nil]
  abel

/-- A failed `client_create` gives back what it got. -/
theorem settle_createEvents_fails {block : Option ClientPtr} {buffer : Bool} {sock : Socket}
    (hf : block = none ∨ buffer = false ∨ sock = invalidSocket) :
    settle base (createEvents block buffer sock) = some base := by
  cases block with
  | none => rfl
  | some c =>
    cases buffer with
    | false => simp [createEvents]
    | true =>
      obtain rfl : sock = invalidSocket := by simpa using hf
      simp [createEvents]

theorem settle_destroyEvents (c : ClientPtr) (cl : Client) :
    settle ((Client.owned c cl : Multiset ClientResource) + base) (destroyEvents c cl)
      = some base := by
  have hsplit : destroyEvents c cl = (ofSock cl.clSock ++ ofSock cl.clSock).map .use
      ++ (Client.owned c cl).map .release := by
    simp [destroyEvents, Client.owned, blocksOf]
  rw [hsplit]
  refine settle_trans (settle_uses fun r hr => ?_) (settle_releases _)
  have hmem : r ∈ ofSock cl.clSock := by simpa using hr
  exact Multiset.mem_add.mpr (Or.inl (by simp [Client.owned, hmem]))

end calls

/-! ## One client -/

section client

variable {s s' : State} {c : ClientPtr} {L : Finset ClientPtr} {es : ClientEvents}
  {held : Multiset ClientResource}

theorem ownedBy_eq {cl : Client} (hc : s.heap c = some cl) :
    s.ownedBy c = (Client.owned c cl : Multiset ClientResource) := by
  rw [State.ownedBy, hc]
  rfl

theorem ownedBy_of_dead (hc : s.heap c = none) : s.ownedBy c = 0 := by
  rw [State.ownedBy, hc]
  rfl

theorem eventsWith_eq {cl : Client} (hc : s.heap c = some cl) (f : Client → ClientEvents) :
    s.eventsWith c f = f cl := by
  rw [State.eventsWith, hc]
  rfl

theorem eventsWith_of_dead (hc : s.heap c = none) (f : Client → ClientEvents) :
    s.eventsWith c f = [] := by
  rw [State.eventsWith, hc]
  rfl

/-- The share of one client, live or not, in what all clients own. -/
theorem sum_ownedBy (hL : s.LiveSet L) (c : ClientPtr) :
    ∑ x ∈ L, s.ownedBy x = s.ownedBy c + ∑ x ∈ L.erase c, s.ownedBy x := by
  by_cases hc : c ∈ L
  · rw [Finset.add_sum_erase L s.ownedBy hc]
  · have hdead : s.heap c = none := by
      rw [hL, State.Live, Option.not_isSome_iff_eq_none] at hc
      exact hc
    rw [Finset.erase_eq_of_notMem hc, ownedBy_of_dead hdead, zero_add]

/-- The live clients after a step that changes one of them. -/
theorem exists_liveSet (hL : s.LiveSet L) (hheap : ∀ x, x ≠ c → s'.heap x = s.heap x) :
    ∃ L', s'.LiveSet L' ∧ L'.erase c = L.erase c := by
  have hother : ∀ x, x ≠ c → (s'.Live x ↔ x ∈ L) := by
    intro x hx
    rw [hL, State.Live, State.Live, hheap x hx]
  by_cases hc : s'.Live c
  · refine ⟨insert c L, fun x => ?_, by ext x; simp⟩
    by_cases hx : x = c
    · simp [hx, hc]
    · simp [hx, hother x hx]
  · refine ⟨L.erase c, fun x => ?_, by simp⟩
    by_cases hx : x = c
    · simp [hx, hc]
    · simp [hx, hother x hx]

/-- A step that works with the listening socket and one client. -/
theorem State.Inventory.client (h : s.Inventory held) (c : ClientPtr)
    (hheap : ∀ x, x ≠ c → s'.heap x = s.heap x) (hsock : s'.svSock = s.svSock)
    (hlist : s'.svClients = s.svClients)
    (hes : settle ({.sock s.svSock} + s.ownedBy c) es = some ({.sock s.svSock} + s'.ownedBy c)) :
    ∃ held', settle held es = some held' ∧ s'.Inventory held' := by
  obtain ⟨L, hL, rfl⟩ := h
  obtain ⟨L', hL', herase⟩ := exists_liveSet hL hheap
  have hrest : ∑ x ∈ L'.erase c, s'.ownedBy x = ∑ x ∈ L.erase c, s.ownedBy x := by
    rw [herase]
    refine Finset.sum_congr rfl fun x hx => ?_
    rw [State.ownedBy, State.ownedBy, hheap x (Finset.ne_of_mem_erase hx)]
  have hset := settle_add hes (∑ x ∈ L.erase c, s.ownedBy x + s.nodes)
  refine ⟨_, (congrArg (settle · es) ?_).trans hset, L', hL', ?_⟩
  · rw [sum_ownedBy hL c]
    abel
  · rw [sum_ownedBy hL' c, hrest, hsock, State.nodes, State.nodes, hlist]
    abel

/-- A call that only uses the listening socket and what the client owns. -/
theorem State.Inventory.uses (h : s.Inventory held) {cl : Client} (hc : s.heap c = some cl)
    (hheap : s'.heap = s.heap) (hsock : s'.svSock = s.svSock) (hlist : s'.svClients = s.svClients)
    (rs : List ClientResource) (hrs : ∀ r ∈ rs, r = .sock s.svSock ∨ r ∈ Client.owned c cl) :
    ∃ held', settle held (rs.map .use) = some held' ∧ s'.Inventory held' := by
  refine h.client c (fun x _ => by rw [hheap]) hsock hlist ?_
  rw [State.ownedBy, State.ownedBy, hheap, hc]
  refine settle_uses fun r hr => ?_
  rcases hrs r hr with rfl | hr
  · simp
  · exact Multiset.mem_add.mpr (Or.inr (Multiset.mem_coe.mpr hr))

/-- A step without events. -/
theorem State.Inventory.same (h : s.Inventory held) (hheap : s'.heap = s.heap)
    (hsock : s'.svSock = s.svSock) (hlist : s'.svClients = s.svClients) :
    ∃ held', settle held [] = some held' ∧ s'.Inventory held' := by
  obtain ⟨L, hL, rfl⟩ := h
  refine ⟨_, rfl, L, fun c => ?_, ?_⟩
  · rw [hL, State.Live, State.Live, hheap]
  · simp only [hsock, State.ownedBy, State.nodes, hheap, hlist]

/-- A step that writes a record. -/
theorem State.Inventory.change (h : s.Inventory held) {cl : Client} (hc : s.heap c = some cl)
    (cl' : Client) (hheap : s'.heap = Function.update s.heap c (some cl'))
    (hsock : s'.svSock = s.svSock) (hlist : s'.svClients = s.svClients)
    (hes : settle ({.sock s.svSock} + (Client.owned c cl : Multiset ClientResource)) es
      = some ({.sock s.svSock} + (Client.owned c cl' : Multiset ClientResource))) :
    ∃ held', settle held es = some held' ∧ s'.Inventory held' := by
  refine h.client c (fun x hx => by rw [hheap, Function.update_of_ne hx]) hsock hlist ?_
  rw [ownedBy_eq hc, ownedBy_eq (s := s') (by rw [hheap, Function.update_self])]
  exact hes

/-- A step that creates a client. -/
theorem State.Inventory.enter (h : s.Inventory held) (hc : s.heap c = none) (cl' : Client)
    (hheap : s'.heap = Function.update s.heap c (some cl')) (hsock : s'.svSock = s.svSock)
    (hlist : s'.svClients = s.svClients)
    (hes : settle {.sock s.svSock} es
      = some ({.sock s.svSock} + (Client.owned c cl' : Multiset ClientResource))) :
    ∃ held', settle held es = some held' ∧ s'.Inventory held' := by
  refine h.client c (fun x hx => by rw [hheap, Function.update_of_ne hx]) hsock hlist ?_
  rw [ownedBy_of_dead hc, add_zero, ownedBy_eq (s := s') (by rw [hheap, Function.update_self])]
  exact hes

/-- A step that destroys a client. -/
theorem State.Inventory.leave (h : s.Inventory held) {cl : Client} (hc : s.heap c = some cl)
    (hheap : s'.heap = Function.update s.heap c none) (hsock : s'.svSock = s.svSock)
    (hlist : s'.svClients = s.svClients) :
    ∃ held', settle held (destroyEvents c cl) = some held' ∧ s'.Inventory held' := by
  refine h.client c (fun x hx => by rw [hheap, Function.update_of_ne hx]) hsock hlist ?_
  rw [ownedBy_eq hc, ownedBy_of_dead (s := s') (by rw [hheap, Function.update_self]), add_zero,
    add_comm]
  exact settle_destroyEvents c cl

/-- A step that writes a record and does not change what the client owns. -/
theorem State.Inventory.write (h : s.Inventory held) {cl : Client} (hc : s.heap c = some cl)
    (cl' : Client) (hheap : s'.heap = Function.update s.heap c (some cl'))
    (hsock : s'.svSock = s.svSock) (hlist : s'.svClients = s.svClients)
    (hk : cl'.clSock = cl.clSock) (hf : cl'.clFile = cl.clFile) (rs : List ClientResource)
    (hrs : ∀ r ∈ rs, r = .sock s.svSock ∨ r ∈ Client.owned c cl) :
    ∃ held', settle held (rs.map .use) = some held' ∧ s'.Inventory held' := by
  refine h.change hc cl' hheap hsock hlist ?_
  have hown : Client.owned c cl' = Client.owned c cl := by
    rw [Client.owned, Client.owned, hk, hf]
  rw [hown]
  refine settle_uses fun r hr => ?_
  rcases hrs r hr with rfl | hr
  · simp
  · exact Multiset.mem_add.mpr (Or.inr (Multiset.mem_coe.mpr hr))

end client

/-! ## The file of a worker -/

section file

variable {m : ℤ} {s s' : State} {a : Action} {c : ClientPtr} {w v : Worker} {i j : ℕ}

/-- Two workers do not work on one client. -/
theorem State.Owned.worker_ne (hown : s.Owned) (hi : s.workers[i]? = some w)
    (hj : s.workers[j]? = some v) (hij : i ≠ j) (hc : w.pc.client = some c) :
    v.pc.client ≠ some c := by
  intro hv
  obtain ⟨R, h1, h2⟩ := stations_setWorker_pc hj rfl rfl (add_zero s.queued).symm
  -- put worker `j` to rest: worker `i` has its client in the remaining stations
  have hmem : (Station.workerHand w.pc, c) ∈ R := by
    have hw : w ∈ (s.setWorker j { v with pc := .dequeue }).workers :=
      List.mem_of_getElem? ((List.getElem?_set_ne hij.symm).trans hi)
    have hst := mem_stations_workerHand hw rfl hc
    rw [h2] at hst
    simpa [WorkerPc.client, holding] using hst
  have hnd := hown.exclusive
  rw [h1, hv, holding, tokens_add, Multiset.nodup_add] at hnd
  exact Multiset.disjoint_left.mp hnd.2.2 (by simp : c ∈ tokens {(Station.workerHand v.pc, c)})
    (mem_tokens_of_mem hmem)

/-- Nor do a worker and the accept thread. -/
theorem State.Owned.main_ne (hown : s.Owned) (hi : s.workers[i]? = some w)
    (hc : w.pc.client = some c) : s.main.client ≠ some c := by
  intro hm
  have hl : s.Live c := Option.isSome_iff_ne_none.mpr
    (hown.worker_live (List.mem_of_getElem? hi) hc)
  have hle : (tokens s.stations).count c ≤ 1 := Multiset.nodup_iff_count_le_one.mp hown.exclusive c
  rw [count_stations hl, State.places, if_pos hm] at hle
  have hpos : 0 < s.workers.countP fun w => w.pc.client = some c :=
    List.countP_pos_iff.mpr ⟨w, List.mem_of_getElem? hi, by simpa using hc⟩
  omega

/-- The client of a worker is written by that worker alone. -/
theorem heap_eq_of_not_hand (hown : s.Owned) (hs : step m s a = some s')
    (hi : s.workers[i]? = some w) (hc : w.pc.client = some c)
    (hno : ∀ call, a ≠ .worker i call) : s'.heap c = s.heap c := by
  have hl : s.Live c := Option.isSome_iff_ne_none.mpr
    (hown.worker_live (List.mem_of_getElem? hi) hc)
  refine heap_of_not_hand hs hl fun hhand => ?_
  cases a with
  | main call => exact hown.main_ne hi hc hhand
  | worker j call =>
    have hij : i ≠ j := fun h => hno call (by rw [h])
    cases hj : s.workers[j]? with
    | none => simp [State.hand, hj] at hhand
    | some v => exact hown.worker_ne hi hj hij hc (by simpa [State.hand, hj] using hhand)
  | _ => simp [State.hand] at hhand

/-- A worker asks for the size of a file that is open. -/
def State.QueriesFile (s : State) : Prop :=
  ∀ (i : ℕ) (w : Worker) (c : ClientPtr) (cl : Client), s.workers[i]? = some w →
    w.pc = .querySize c → s.heap c = some cl → cl.clFile ≠ invalidHandleValue

theorem queriesFile_init (svSock : Socket) (n : ℕ) : (State.init svSock n).QueriesFile := by
  intro i w c cl hi hpc hc
  simp [State.init] at hc

/-- Only `server_transmit_resource` gets to that point, with the file it has opened. -/
theorem querySize_of_workerTrans {call : WorkerCall} (hown : s.Owned)
    (hw : s.workers[i]? = some w) (h : WorkerTrans s i w call s') :
    ∃ w', s'.workers = s.workers.set i w' ∧ ∀ c cl, w'.pc = .querySize c →
      s'.heap c = some cl → cl.clFile ≠ invalidHandleValue := by
  cases h with
  | crash call c hdead hc => exact absurd hdead (hown.worker_live (List.mem_of_getElem? hw) hc)
  | repost ok hpc => cases ok <;> exact ⟨_, rfl, by simp⟩
  | acceptMoreClients site cl reuseSocket ok hpc => cases ok <;> exact ⟨_, rfl, by simp⟩
  | dispatch n cl hpc hc =>
    refine ⟨_, rfl, fun c cl' hd => absurd hd ?_⟩
    exact serverProcessCompletion_of (P := fun pc => pc ≠ .querySize c) _ (by simp) (by simp)
      (by simp) (by simp) (by simp)
  | setsockopt c cl ok hpc hc => cases ok <;> exact ⟨_, rfl, by simp⟩
  | openFile x clx path hd hpc hx =>
    refine ⟨_, rfl, fun c cl hq hc => ?_⟩
    by_cases hdl : hd = invalidHandleValue
    · simp [hdl] at hq
    · obtain rfl : x = c := by simpa [hdl] using hq
      obtain rfl : { clx with aioOpcode := .sockWrite, clFile := hd } = cl := by
        simpa [State.setWorker] using hc
      exact hdl
  | _ => exact ⟨_, rfl, by simp⟩

theorem State.QueriesFile.step (h : s.QueriesFile) (hown : s.Owned) (hs : step m s a = some s')
    (hown' : s'.Owned) : s'.QueriesFile := by
  intro i w c cl hi hpc hc
  by_cases hby : ∃ call, a = .worker i call
  · obtain ⟨call, rfl⟩ := hby
    cases (trans_of_step hs).2 with
    | worker hw ht =>
      obtain ⟨w', hws, hw'⟩ := querySize_of_workerTrans hown hw ht
      have hget : s'.workers[i]? = some w' := by
        rw [hws]
        exact List.getElem?_set_self (List.getElem?_eq_some_iff.mp hw).1
      obtain rfl : w' = w := Option.some.inj (hget.symm.trans hi)
      exact hw' c cl hpc hc
  · have hno : ∀ call, a ≠ .worker i call := fun call ha => hby ⟨call, ha⟩
    have hw : s.workers[i]? = some w := by
      rw [← hi]
      cases (trans_of_step hs).2 with
      | main hm => rw [workers_mainTrans hm]
      | @worker j v call s' hv ht =>
        obtain ⟨v', hws, -⟩ := querySize_of_workerTrans hown hv ht
        rw [hws, List.getElem?_set_ne fun hij => hno call (by rw [hij])]
      | ctrlShutDownIocp ok => cases ok <;> rfl
      | _ => rfl
    have hcl : w.pc.client = some c := by rw [hpc]; rfl
    rw [heap_eq_of_not_hand hown hs hw hcl hno] at hc
    exact h i w c cl hw hpc hc

end file

/-! ## The steps -/

/-- What the inventory rests on. -/
structure ResourcesOk (s : State) : Prop where
  custodial : Custodial s
  list : ListSound s
  file : s.QueriesFile

section steps

variable {m : ℤ} {s s' : State} {held : Multiset ClientResource}

theorem ofSock_subset (c : ClientPtr) (cl : Client) :
    ∀ r ∈ ofSock cl.clSock, r = .sock s.svSock ∨ r ∈ Client.owned c cl :=
  fun r hr => Or.inr (by simp [Client.owned, hr])

theorem mem_owned_of_transfer {c : ClientPtr} {cl : Client} {r : ClientResource}
    (hr : r ∈ ofSock cl.clSock ++ ofFile cl.clFile) : r ∈ Client.owned c cl :=
  List.mem_append_left _ hr

/-- `CreateFile` adds a file to a client that has none. -/
theorem settle_openFile {base : Multiset ClientResource} (c : ClientPtr) {cl : Client}
    (cl' : Client) (hf : cl.clFile = invalidHandleValue) (hk : cl'.clSock = cl.clSock) :
    settle (base + (Client.owned c cl : Multiset ClientResource))
        ((ofFile cl'.clFile).map .acquire)
      = some (base + (Client.owned c cl' : Multiset ClientResource)) := by
  have hnone : ofFile cl.clFile = [] := by simp [ofFile, hf]
  rw [settle_acquires, owned_eq, owned_eq, hnone, hk, Multiset.coe_nil]
  exact congrArg some (by abel)

/-- `CloseHandle` after a failed `GetFileSizeEx` takes it away again. -/
theorem settle_closeFile {base : Multiset ClientResource} (c : ClientPtr) {cl : Client}
    (cl' : Client) (hf : cl.clFile ≠ invalidHandleValue) (hf' : cl'.clFile = invalidHandleValue)
    (hk : cl'.clSock = cl.clSock) :
    settle (base + (Client.owned c cl : Multiset ClientResource))
        [.use (.file cl.clFile), .release (.file cl.clFile)]
      = some (base + (Client.owned c cl' : Multiset ClientResource)) := by
  have hfile : ofFile cl.clFile = [.file cl.clFile] := if_pos hf
  have hnone : ofFile cl'.clFile = [] := by simp [ofFile, hf']
  have hclose : settle (ClientResource.file cl.clFile ::ₘ 0)
      [.use (.file cl.clFile), .release (.file cl.clFile)] = some 0 := by
    rw [settle_use_cons, settle_release_cons, settle_nil]
  rw [owned_eq, owned_eq, hnone, hfile, hk]
  refine settle_part hclose ?_ (zero_add _).symm
  rw [Multiset.coe_nil, Multiset.coe_singleton, Multiset.cons_zero]
  abel

theorem inventory_worker {i : ℕ} {w : Worker} {call : WorkerCall} (hok : ResourcesOk s)
    (hw : s.workers[i]? = some w) (ht : WorkerTrans s i w call s') (h : s.Inventory held) :
    ∃ held', settle held (s.workerEvents w.pc call) = some held' ∧ s'.Inventory held' := by
  have hown := hok.custodial.owned
  have hmem : w ∈ s.workers := List.mem_of_getElem? hw
  cases ht with
  | setsockopt c cl ok hpc hc =>
    have hes : s.workerEvents w.pc (.setsockopt ok)
        = (ofSock cl.clSock ++ [ClientResource.sock s.svSock]).map .use := by
      simp [State.workerEvents, hpc, eventsWith_eq hc]
    rw [hes]
    refine h.uses hc rfl rfl rfl _ fun r hr => ?_
    rcases List.mem_append.mp hr with hr | hr
    · exact ofSock_subset c cl r hr
    · exact Or.inl (by simpa using hr)
  | associate c cl hpc hc hr ho =>
    simp only [State.workerEvents, hpc, eventsWith_eq hc]
    exact h.uses hc rfl rfl rfl _ (ofSock_subset c cl)
  | associateFails c cl hpc hc hr =>
    simp only [State.workerEvents, hpc, eventsWith_eq hc]
    exact h.uses hc rfl rfl rfl _ (ofSock_subset c cl)
  | read c cl hpc hc =>
    simp only [State.workerEvents, hpc, eventsWith_eq hc]
    exact h.write hc { cl with aioOpcode := .sock0BytesRecv } (by rfl) (by rfl) (by rfl) rfl rfl _
      (ofSock_subset c cl)
  | readFails c cl hpc hc =>
    simp only [State.workerEvents, hpc, eventsWith_eq hc]
    exact h.write hc { cl with aioOpcode := .sock0BytesRecv } (by rfl) (by rfl) (by rfl) rfl rfl _
      (ofSock_subset c cl)
  | recvFails c cl hpc hc =>
    simp only [State.workerEvents, hpc, eventsWith_eq hc]
    exact h.uses hc rfl rfl rfl _ (ofSock_subset c cl)
  | recv c cl resPath hpc hc =>
    simp only [State.workerEvents, hpc, eventsWith_eq hc]
    exact h.uses hc rfl rfl rfl _ (ofSock_subset c cl)
  | badRequest c cl hpc hc =>
    simp only [State.workerEvents, hpc]
    exact h.write hc { cl with aioOpcode := .sockWrite } (by rfl) (by rfl) (by rfl) rfl rfl []
      (by simp)
  | openFile c cl path hd hpc hc =>
    have hfile : cl.clFile = invalidHandleValue := (hown.worker_ok hmem hpc rfl hc).1
    simp only [State.workerEvents, hpc, eventsWith_eq hc]
    exact h.change hc { cl with aioOpcode := .sockWrite, clFile := hd } (by rfl) (by rfl) (by rfl)
      (settle_openFile c { cl with aioOpcode := .sockWrite, clFile := hd } hfile rfl)
  | querySize c cl hpc hc =>
    have hfile := hok.file i w c cl hw hpc hc
    simp only [State.workerEvents, hpc, eventsWith_eq hc, if_true]
    refine h.uses hc rfl rfl rfl [.file cl.clFile] fun r hr => Or.inr ?_
    obtain rfl : r = .file cl.clFile := by simpa using hr
    exact mem_owned_of_transfer (by simp [ofFile, hfile])
  | querySizeFails c cl hpc hc =>
    have hfile := hok.file i w c cl hw hpc hc
    simp only [State.workerEvents, hpc, eventsWith_eq hc, Bool.false_eq_true, if_false]
    exact h.change hc { cl with clFile := invalidHandleValue } (by rfl) (by rfl) (by rfl)
      (settle_closeFile c { cl with clFile := invalidHandleValue } hfile rfl rfl)
  | transmit c cl hpc hc =>
    simp only [State.workerEvents, hpc, eventsWith_eq hc, ← List.map_append]
    exact h.uses hc rfl rfl rfl _ fun r hr => Or.inr (mem_owned_of_transfer hr)
  | transmitFails c cl hpc hc =>
    simp only [State.workerEvents, hpc, eventsWith_eq hc, ← List.map_append]
    exact h.uses hc rfl rfl rfl _ fun r hr => Or.inr (mem_owned_of_transfer hr)
  | markReused c cl hpc hc =>
    simp only [State.workerEvents, hpc]
    exact h.write hc { cl with clSockReused := true } (by rfl) (by rfl) (by rfl) rfl rfl []
      (by simp)
  | repost ok hpc =>
    simp only [State.workerEvents, hpc]
    cases ok <;> exact h.same rfl rfl rfl
  | acceptMoreClients site cl reuseSocket ok hpc =>
    simp only [State.workerEvents, hpc]
    cases ok <;> exact h.same rfl rfl rfl
  | crash call c hdead hc => exact absurd hdead (hown.worker_live hmem hc)
  | _ =>
    have hpc := ‹w.pc = _›
    simp only [State.workerEvents, hpc]
    exact h.same rfl rfl rfl

/-- A step that changes the list by one node. -/
theorem State.Inventory.list (h : s.Inventory held) {c : ClientPtr} {cl : Client}
    (hc : s.heap c = some cl) (cl' : Client) (hheap : s'.heap = Function.update s.heap c (some cl'))
    (hsock : s'.svSock = s.svSock) (hk : cl'.clSock = cl.clSock) (hf : cl'.clFile = cl.clFile)
    {es : ClientEvents} (hes : settle s.nodes es = some s'.nodes) :
    ∃ held', settle held es = some held' ∧ s'.Inventory held' := by
  obtain ⟨L, hL, rfl⟩ := h
  have howned : ∀ x, s'.ownedBy x = s.ownedBy x := by
    intro x
    rw [State.ownedBy, State.ownedBy, hheap]
    by_cases hx : x = c
    · subst hx
      rw [Function.update_self, hc, Option.elim_some, Option.elim_some, Client.owned, Client.owned,
        hk, hf]
    · rw [Function.update_of_ne hx]
  refine ⟨_, settle_part hes (add_comm _ _) rfl, L, fun x => ?_, ?_⟩
  · rw [hL, State.Live, State.Live, hheap]
    by_cases hx : x = c
    · subst hx
      simp [hc]
    · rw [Function.update_of_ne hx]
  · simp only [howned, hsock]
    exact add_comm _ _

theorem usedByAcceptEx (c : ClientPtr) (cl : Client) :
    ∀ r ∈ ClientResource.sock s.svSock :: ofSock cl.clSock,
      r = .sock s.svSock ∨ r ∈ Client.owned c cl := by
  intro r hr
  rcases List.mem_cons.mp hr with hr | hr
  · exact Or.inl hr
  · exact ofSock_subset c cl r hr

/-- `dlist_remove_item` releases the node of the client, if it has one. -/
theorem settle_removeNode {c : ClientPtr} (herase : s'.svClients = s.svClients.erase c) :
    settle s.nodes ((if c ∈ s.svClients then some c else none).map
      fun x => Event.release (ClientResource.node x)).toList = some s'.nodes := by
  have hinj : Function.Injective ClientResource.node := fun x y h => by simpa using h
  by_cases hc : c ∈ s.svClients
  · have hmem : ClientResource.node c ∈ s.nodes := by simp [State.nodes, hc]
    rw [if_pos hc, Option.map_some, Option.toList_some, settle_release hmem, settle_nil]
    rw [State.nodes, State.nodes, herase, Multiset.coe_erase, List.map_erase hinj]
  · rw [if_neg hc, State.nodes, State.nodes, herase, List.erase_of_not_mem hc]
    rfl

theorem mainEvents_crash {call : MainCall} {c : ClientPtr} (hdead : s.heap c = none)
    (hc : s.main.client = some c) : s.mainEvents call = [] := by
  unfold State.mainEvents
  split <;> simp_all [MainPc.client, eventsWith_of_dead]

theorem inventory_main {call : MainCall} (hok : ResourcesOk s) (ht : MainTrans m s call s')
    (h : s.Inventory held) :
    ∃ held', settle held (s.mainEvents call) = some held' ∧ s'.Inventory held' := by
  cases ht with
  | start ok hpc =>
    simp only [State.mainEvents, hpc]
    cases ok <;> exact h.same rfl rfl rfl
  | reinit c opts cl sock r hpc hc hr =>
    simp only [State.mainEvents, hpc, eventsWith_eq hc]
    exact h.change hc r.client (by rfl) (by rfl) (by rfl) (settle_reinitEvents hr)
  | retry c opts cl sock r hpc hc hr =>
    simp only [State.mainEvents, hpc, eventsWith_eq hc]
    exact h.change hc r.client (by rfl) (by rfl) (by rfl) (settle_reinitEvents hr)
  | createFails opts block buffer sock hpc hf =>
    simp only [State.mainEvents, hpc]
    have hsame : ∃ held', settle held [] = some held' ∧ (s.setMain .wait).Inventory held' :=
      h.same rfl rfl rfl
    obtain ⟨held', hes, hheld'⟩ := hsame
    obtain rfl : held = held' := by simpa using hes
    exact ⟨held, settle_createEvents_fails hf, hheld'⟩
  | create opts c sock sockets hpc hc hsock hcr =>
    simp only [State.mainEvents, hpc]
    exact h.enter hc (newClient sock) (by rfl) (by rfl) (by rfl) (settle_createEvents hsock)
  | addToList c opts cl node hpc hc =>
    simp only [State.mainEvents, hpc, eventsWith_eq hc]
    refine h.list hc { cl with clIsTracked := true } (by rfl) (by rfl) (by rfl) (by rfl) ?_
    cases node with
    | false => rfl
    | true => rfl
  | acceptEx c opts cl hpc hc ho =>
    simp only [State.mainEvents, hpc, eventsWith_eq hc, ← List.map_cons]
    exact h.uses hc rfl rfl rfl _ (usedByAcceptEx c cl)
  | acceptExReset c opts cl hpc hc =>
    simp only [State.mainEvents, hpc, eventsWith_eq hc, ← List.map_cons]
    exact h.uses hc rfl rfl rfl _ (usedByAcceptEx c cl)
  | acceptExFails c opts cl hpc hc =>
    simp only [State.mainEvents, hpc, eventsWith_eq hc, ← List.map_cons]
    exact h.uses hc rfl rfl rfl _ (usedByAcceptEx c cl)
  | removeFromList site c opts cl hpc hc hv =>
    have hl : s.Live c := by simp [State.Live, hc]
    have huniq : ∀ x ∈ s.svClients, s.compare x c = 0 ↔ x = c := fun x hx =>
      compare_eq_zero_iff hok.list hok.custodial.sockets hl (hok.list.listed x hx).1
    simp only [State.mainEvents, hpc, eventsWith_eq hc, Sequence.removeItem_fst_of_unique huniq]
    refine h.list hc { cl with clIsTracked := false } (by rfl) (by rfl) (by rfl) (by rfl) ?_
    exact settle_removeNode (hok.list.removeItem_eq_erase hok.custodial.sockets hl)
  | destroyEnough c opts cl hpc hc =>
    simp only [State.mainEvents, hpc, eventsWith_eq hc]
    exact h.leave hc (by rfl) (by rfl) (by rfl)
  | destroyFailed c opts cl hpc hc =>
    simp only [State.mainEvents, hpc, eventsWith_eq hc]
    exact h.leave hc (by rfl) (by rfl) (by rfl)
  | crash call c hdead hc =>
    rw [mainEvents_crash hdead (hc.resolve_right ?_)]
    · exact h.same rfl rfl rfl
    · -- the clients on the list are live
      rintro ⟨site, x, opts, -, hx⟩
      have hlive := (hok.list.listed c ((Sequence.compared_prefix _ _ _).subset hx)).1
      simp [State.Live, hdead] at hlive
  | _ =>
    have hpc := ‹s.main = _›
    simp only [State.mainEvents, hpc]
    exact h.same rfl rfl rfl

theorem inventory_step {a : Action} (hok : ResourcesOk s) (ht : Trans m s a s')
    (h : s.Inventory held) :
    ∃ held', settle held (s.events a) = some held' ∧ s'.Inventory held' := by
  cases ht with
  | main hm => exact inventory_main hok hm h
  | worker hw ht =>
    rw [State.events, hw]
    exact inventory_worker hok hw ht h
  | @complete i c op bytes hp =>
    have hst : (.pending op, c) ∈ s.stations := by
      have hq : (.pending op, c) ∈ (s.pending.map
          fun p => ({(Station.pending p.2, p.1)} : Multiset (Station × ClientPtr))).sum :=
        mem_sum_map.mpr ⟨(c, op), List.mem_of_getElem? hp, by simp⟩
      simp only [State.stations, State.queued, Multiset.mem_add]
      exact Or.inl (Or.inl (Or.inl (Or.inl hq)))
    obtain ⟨cl, hcl, -⟩ := hok.custodial.owned.ok hst
    simp only [State.events, hp, Option.elim_some, eventsWith_eq hcl, ← List.map_append]
    exact h.uses hcl rfl rfl rfl _ fun r hr => Or.inr (mem_owned_of_transfer hr)
  | ctrlShutDownIocp ok => cases ok <;> exact h.same rfl rfl rfl
  | ctrlShutDownAccept ok hh => exact h.same rfl rfl rfl

end steps

/-! ## The socket table -/

section sockets

variable {s s' : State} {L : Finset ClientPtr} {held : Multiset ClientResource}

theorem count_owned {c : ClientPtr} {cl : Client} {k : Socket} (hk : k ≠ invalidSocket) :
    (Client.owned c cl : Multiset ClientResource).count (.sock k)
      = if cl.clSock = k then 1 else 0 := by
  have hfile : (ofFile cl.clFile).count (.sock k) = 0 :=
    List.count_eq_zero_of_not_mem (by simp only [ofFile]; split <;> simp)
  have hblocks : (blocksOf c).count (.sock k) = 0 :=
    List.count_eq_zero_of_not_mem (by simp [blocksOf])
  rw [Multiset.coe_count, Client.owned, List.count_append, List.count_append, hfile, hblocks]
  by_cases hinv : cl.clSock = invalidSocket
  · simp [ofSock, hinv, Ne.symm hk]
  · by_cases hc : cl.clSock = k <;> simp [ofSock, hinv, hc, hk]

theorem count_ownedBy {c : ClientPtr} {k : Socket} (hk : k ≠ invalidSocket) :
    (s.ownedBy c).count (.sock k) = if s.sockOf c = some k then 1 else 0 := by
  cases hc : s.heap c with
  | none => simp [ownedBy_of_dead hc, State.sockOf, hc]
  | some cl =>
    rw [ownedBy_eq hc, count_owned hk, sockOf_eq hc]
    simp

/-- Not more than one client has a socket. -/
theorem count_sum_of_sockOf (hL : s.LiveSet L) (hok : SocketsOk s) {k : Socket}
    (hk : k ≠ invalidSocket) {c : ClientPtr} (hc : s.sockOf c = some k) :
    (∑ c ∈ L, s.ownedBy c).count (.sock k) = 1 := by
  obtain ⟨cl, hcl, hck⟩ := Option.map_eq_some_iff.mp hc
  simp only [Multiset.count_sum', count_ownedBy hk]
  rw [Finset.sum_eq_single c, if_pos hc]
  · intro x _ hxc
    refine if_neg fun hx => hxc ?_
    obtain ⟨clx, hclx, hxk⟩ := Option.map_eq_some_iff.mp hx
    exact hok.distinct x c clx cl hclx hcl (hxk.trans hck.symm) (by rwa [hxk])
  · intro hno
    exact absurd ((hL c).mpr (by simp [State.Live, hcl])) hno

theorem count_sum_of_ne {k : Socket} (hk : k ≠ invalidSocket) (hc : ∀ c, s.sockOf c ≠ some k) :
    (∑ c ∈ L, s.ownedBy c).count (.sock k) = 0 := by
  simp only [Multiset.count_sum', count_ownedBy hk]
  exact Finset.sum_eq_zero fun x _ => if_neg (hc x)

/-- The sockets that the clients own are the open ones, but for those the server keeps. -/
theorem count_sum_eq {K : Socket → Prop} (hL : s.LiveSet L) (hok : SocketsOk s)
    (hown : SocketsOwned K s) {k : Socket} (hk : k ≠ invalidSocket) (hK : ¬ K k) :
    (∑ c ∈ L, s.ownedBy c).count (.sock k) = if (s.sockets k).isSome then 1 else 0 := by
  split_ifs with hopen
  · obtain ⟨c, hc⟩ := (hown.owner k (Option.isSome_iff_ne_none.mp hopen)).resolve_left hK
    exact count_sum_of_sockOf hL hok hk hc
  · refine count_sum_of_ne hk fun c hc => hopen ?_
    obtain ⟨cl, hcl, rfl⟩ := Option.map_eq_some_iff.mp hc
    exact Option.isSome_iff_ne_none.mpr (hok.opened c cl hcl hk)

theorem State.Inventory.socketsHeld (h : s.Inventory held) (hok : SocketsOk s)
    (hown : SocketsOwned (Listening s.svSock) s) : s.SocketsHeld held := by
  obtain ⟨L, hL, rfl⟩ := h
  intro k hk
  have hnodes : s.nodes.count (.sock k) = 0 := by
    rw [State.nodes, Multiset.coe_count]
    exact List.count_eq_zero_of_not_mem (by simp)
  rw [Multiset.count_add, Multiset.count_add, hnodes, Multiset.count_singleton]
  by_cases hsv : k = s.svSock
  · -- the listening socket is no client's
    have hnone : ∀ c, s.sockOf c ≠ some k := fun c hc => hown.apart c k hc ⟨hsv, hk⟩
    have hopen := Option.isSome_iff_ne_none.mpr (hown.opened k ⟨hsv, hk⟩)
    rw [count_sum_of_ne hk hnone, if_pos hopen, hsv, if_pos rfl]
  · rw [count_sum_eq hL hok hown hk fun hK => hsv hK.1, if_neg (by simpa using hsv)]
    simp

end sockets

/-! ## Cleaning up -/

section cleanup

variable {s s' : State} {held base : Multiset ClientResource}

/-- `dlist_for_each` with `client_destructor` releases what the clients on the list own. -/
theorem settle_destroyAll {cs : List ClientPtr} (hlive : ∀ c ∈ cs, s.Live c) :
    settle ((cs.map s.ownedBy).sum + base)
      (cs.flatMap fun c => s.eventsWith c (destroyEvents c)) = some base := by
  induction cs with
  | nil => simp
  | cons c cs ih =>
    obtain ⟨cl, hcl⟩ := Option.isSome_iff_exists.mp (hlive c (by simp))
    rw [List.map_cons, List.sum_cons, List.flatMap_cons, eventsWith_eq hcl, ownedBy_eq hcl,
      add_assoc]
    exact settle_trans (settle_destroyEvents c cl)
      (ih fun x hx => hlive x (List.mem_cons_of_mem c hx))

/-- What is left in the end is what the clients own that are on no list. -/
theorem State.Inventory.cleanup (h : s.Inventory held) (hlist : ListSound s) (hok : SocketsOk s)
    (hown : SocketsOwned (Listening s.svSock) s) (hs : serverCleanupAndShutdown s = some s') :
    ∃ L, s'.LiveSet L ∧ settle held s.cleanupEvents = some (∑ c ∈ L, s'.ownedBy c) ∧
      s'.SocketsHeld (∑ c ∈ L, s'.ownedBy c) := by
  obtain ⟨L, hL, rfl⟩ := h
  have hmem : ∀ c ∈ s.svClients, s.Live c := fun c hc => (hlist.listed c hc).1
  -- the clients after the loop are those that are not on the list
  obtain ⟨t, ht, hlive⟩ := clientDestructorAll_of_nodup
    (s := { s with sockets := closesocket s.sockets s.svSock }) hlist.nodup hmem
  have hs' : s' = { t with svClients := [] } := by
    rw [serverCleanupAndShutdown] at hs
    split_ifs at hs
    rw [ht] at hs
    exact (Option.some.inj hs).symm
  obtain ⟨hokc, hownc⟩ := hown.stopListening hok
  obtain ⟨hokt, hownt, hheap⟩ := hownc.destructorAll hokc ht
  have hL' : s'.LiveSet (L \ s.svClients.toFinset) := by
    intro c
    rw [hs', Finset.mem_sdiff, List.mem_toFinset, hL]
    exact (hlive c).symm
  refine ⟨L \ s.svClients.toFinset, hL', ?_, fun k hk => ?_⟩
  · have hkeep : ∑ c ∈ L \ s.svClients.toFinset, s'.ownedBy c
        = ∑ c ∈ L \ s.svClients.toFinset, s.ownedBy c := by
      refine Finset.sum_congr rfl fun c hc => ?_
      have hrec : s'.heap c = s.heap c := by
        have hl := (hL' c).mp hc
        rw [hs'] at hl ⊢
        exact hheap c hl
      rw [State.ownedBy, State.ownedBy, hrec]
    have hsub : s.svClients.toFinset ⊆ L := fun c hc =>
      (hL c).mpr (hmem c (List.mem_toFinset.mp hc))
    have hsum : ∑ c ∈ L, s.ownedBy c
        = (s.svClients.map s.ownedBy).sum + ∑ c ∈ L \ s.svClients.toFinset, s.ownedBy c := by
      rw [← List.sum_toFinset _ hlist.nodup, add_comm, Finset.sum_sdiff hsub]
    rw [hkeep, hsum, State.cleanupEvents, Multiset.singleton_add, Multiset.cons_add,
      settle_release_cons, add_assoc]
    refine settle_trans (settle_destroyAll hmem) ?_
    rw [add_comm]
    exact settle_releases _
  · refine count_sum_eq hL' (s := s') ?_ (K := fun _ => False) ?_ hk id
    · rw [hs']
      exact ⟨hokt.invalid, hokt.opened, hokt.distinct⟩
    · rw [hs']
      exact ⟨hownt.opened, hownt.apart, hownt.owner⟩

end cleanup

/-! ## Every run -/

section run

variable {m : ℤ} {svSock : Socket} {n : ℕ} {tr : List (State × Action)} {s s' : State}

theorem ServerRun.resourcesOk (hrun : ServerRun m svSock n tr s) : ResourcesOk s where
  custodial := hrun.custodial
  list := hrun.listSound
  file := by
    have h : Custodial s ∧ s.QueriesFile := by
      refine hrun.invariant (I := fun s => Custodial s ∧ s.QueriesFile)
        ⟨custodial_init svSock n, queriesFile_init svSock n⟩ fun s a s' hI hs => ?_
      have hcus := hI.1.trans (trans_of_step hs).2
      exact ⟨hcus, hI.2.step hI.1.owned hs hcus.owned⟩
    exact h.2

theorem svSock_trans {a : Action} (h : Trans m s a s') : s'.svSock = s.svSock := by
  cases h with
  | main hm => cases hm with
    | start ok => cases ok <;> rfl
    | _ => rfl
  | worker hw ht => cases ht with
    | repost ok => cases ok <;> rfl
    | acceptMoreClients site cl reuseSocket ok => cases ok <;> rfl
    | _ => rfl
  | ctrlShutDownIocp ok => cases ok <;> rfl
  | _ => rfl

theorem ServerRun.svSock_eq (hrun : ServerRun m svSock n tr s) : s.svSock = svSock :=
  hrun.invariant (I := fun s => s.svSock = svSock) rfl fun _ _ _ h hs =>
    (svSock_trans (trans_of_step hs).2).trans h

/-- Nothing is used or closed that is not open, and what is open belongs to a live client. -/
theorem ServerRun.exists_inventory (hrun : ServerRun m svSock n tr s) :
    ∃ held, settle {.sock svSock} (ledgerOf tr) = some held ∧ s.Inventory held := by
  induction hrun with
  | nil =>
    refine ⟨{.sock svSock}, rfl, ∅, fun c => ?_, ?_⟩
    · simp [State.Live, State.init]
    · simp [State.nodes, State.init]
  | @snoc tr s a s' hr hs ih =>
    obtain ⟨held, hset, hinv⟩ := ih
    obtain ⟨held', hset', hinv'⟩ :=
      inventory_step (ServerRun.resourcesOk hr) (trans_of_step hs).2 hinv
    refine ⟨held', ?_, hinv'⟩
    rw [ledgerOf, List.flatMap_append]
    exact settle_trans hset (by simpa using hset')

/-- Every call of a run is given handles and blocks that are open, and the open ones are those
of the live clients, the nodes and the listening socket; of the sockets these are exactly those
that the system has open. A run ends where a thread touches a released client. After the cleanup
only the clients on no list keep theirs, so nothing is left and no socket is open if every node
was allocated. -/
theorem ServerRun.inventory (hrun : ServerRun m svSock n tr s) :
    (∃ held, settle {.sock svSock} (ledgerOf tr) = some held ∧ s.Inventory held ∧
      s.SocketsHeld held) ∧
      ∀ s', serverCleanupAndShutdown s = some s' →
        (∃ L, s'.LiveSet L ∧ settle {.sock svSock} (ledgerOf tr ++ s.cleanupEvents)
          = some (∑ c ∈ L, s'.ownedBy c) ∧ s'.SocketsHeld (∑ c ∈ L, s'.ownedBy c)) ∧
        ((∀ x ∈ tr, x.2.pushFails = false) →
          settle {.sock svSock} (ledgerOf tr ++ s.cleanupEvents) = some 0 ∧
            ∀ k, k ≠ invalidSocket → s'.sockets k = none) := by
  obtain ⟨held, hset, hinv⟩ := hrun.exists_inventory
  obtain ⟨hok, hown⟩ := hrun.socketsOwned
  rw [← hrun.svSock_eq] at hown
  refine ⟨⟨held, hset, hinv, hinv.socketsHeld hok hown⟩, fun s' hs' => ?_⟩
  obtain ⟨L, hL, hclean, hheld⟩ := hinv.cleanup hrun.listSound hok hown hs'
  have hsettle := settle_trans hset hclean
  refine ⟨⟨L, hL, hsettle, hheld⟩, fun hpush => ?_⟩
  -- every client is on the list, so none is left
  have hmain : s.main = .left ∧ ∀ w ∈ s.workers, w.pc = .left := by
    rw [serverCleanupAndShutdown] at hs'
    split_ifs at hs' with h
    exact h
  have hexact := (hrun.listOk hpush).exact (by rw [hmain.1]; rfl)
  obtain ⟨t, ht, -, hdead⟩ := hexact.cleansUp hmain.1 hmain.2
  obtain rfl : t = s' := Option.some.inj (ht.symm.trans hs')
  have hempty : L = ∅ := Finset.eq_empty_of_forall_notMem fun c hc => hdead c ((hL c).mp hc)
  rw [hempty, Finset.sum_empty] at hsettle hheld
  refine ⟨hsettle, fun k hk => ?_⟩
  have hcount := hheld k hk
  by_contra hopen
  rw [if_pos (Option.isSome_iff_ne_none.mpr hopen)] at hcount
  simp at hcount

end run

/-- A client is being sent a file when the server stops: its socket, its file, its two blocks
and its node are all given back. -/
theorem inventory_at_shutdown : ∃ tr s s', ServerRun 1 1 1 tr s ∧
    .acquire (.file 9) ∈ ledgerOf tr ∧ .acquire (.node 5) ∈ ledgerOf tr ∧
    (∃ held, settle {.sock 1} (ledgerOf tr) = some held ∧ held.count (.sock 7) = 1) ∧
    serverCleanupAndShutdown s = some s' ∧
    settle {.sock 1} (ledgerOf tr ++ s.cleanupEvents) = some 0 ∧ s'.sockets 7 = none := by
  have hrun : ∃ tr s, ServerRun 1 1 1 tr s ∧ .acquire (.file 9) ∈ ledgerOf tr ∧
      .acquire (.node 5) ∈ ledgerOf tr ∧ (s.sockets 7).isSome ∧
      (∃ s', serverCleanupAndShutdown s = some s') ∧
      ∀ x ∈ tr, x.2.pushFails = false :=
    ⟨_, _, run_of_exec (show exec (step 1) (State.init 1 1) (acceptedClient ++
      [.main .atomicLoad, .worker 0 (.setsockopt true), .worker 0 (.createIoCompletionPort true),
        .worker 0 (.wsaRecv0Bytes true), .worker 0 .updateStats, .worker 0 .atomicIncrement,
        .worker 0 (.postQueuedCompletionStatus false), .complete 0 0, .worker 0 .tau,
        .worker 0 (.getQueuedCompletionStatusEx (some 1)), .worker 0 .tau, .worker 0 .tau,
        .worker 0 (.wsaRecv (some (some [47]))), .worker 0 (.createFile 9),
        .worker 0 (.getFileSizeEx true), .worker 0 (.transmitFile true),
        .worker 0 (.postQueuedCompletionStatus false), .worker 0 .tau,
        .ctrlShutDownIocp true, .ctrlShutDownAccept true,
        .main (.getQueuedCompletionStatus true),
        .worker 0 (.getQueuedCompletionStatusEx (some 1)), .worker 0 .tau,
        .worker 0 (.postQueuedCompletionStatus true)]) = some (_, _) from rfl),
      by decide, by decide, rfl, ⟨_, rfl⟩, by decide⟩
  obtain ⟨tr, s, hrun, hfile, hnode, hopen, ⟨s', hs'⟩, hpush⟩ := hrun
  obtain ⟨⟨held, hset, -, hheld⟩, hcleanup⟩ := hrun.inventory
  obtain ⟨-, hnothing⟩ := hcleanup s' hs'
  obtain ⟨hzero, hclosed⟩ := hnothing hpush
  have hseven : (7 : Socket) ≠ invalidSocket := by decide
  exact ⟨tr, s, s', hrun, hfile, hnode, ⟨held, hset, by rw [hheld 7 hseven, if_pos hopen]⟩, hs',
    hzero, hclosed 7 hseven⟩

end AioServer.Windows
