import AioServer.Lib.Lts
import AioServer.Windows.State

/-!
# The Windows server: its steps

One step runs a thread from one program point to the next, over at most one call to the
system. The label says which thread moves and what the call returned, so `step` is a
function; `none` means that the label cannot happen in that state.

The clients that a step reads or writes are looked up in the heap: if one of them was
already released the step ends in a crashed state, which has no successor.
-/

namespace AioServer.Windows

/-! ## Labels -/

/-- The calls of the accept thread, with their outcomes. -/
inductive MainCall
  | postQueuedCompletionStatus (ok : Bool)
  | getQueuedCompletionStatus (ok : Bool)
  | atomicLoad
  /-- `client_reinit`; `sock` is what `create_overlapped_socket` returns if it is called. -/
  | clientReinit (sock : Socket)
  /-- `client_create`: the block for the client, whether its buffer was allocated, and what
  `create_overlapped_socket` returned. -/
  | clientCreate (block : Option ClientPtr) (buffer : Bool) (sock : Socket)
  /-- `server_add_client_to_list`; `node` says whether the list node was allocated. -/
  | dlistPushHead (node : Bool)
  | acceptEx (r : AcceptExResult)
  | atomicIncrement
  | dlistRemoveItem
  | clientDestroy
deriving DecidableEq, Repr

/-- The calls of a worker, with their outcomes; `ok` includes "pending". -/
inductive WorkerCall
  | getQueuedCompletionStatusEx (count : Option ℕ)
  | tau
  | setsockopt (ok : Bool)
  | createIoCompletionPort (ok : Bool)
  | wsaRecv0Bytes (ok : Bool)
  | updateStats
  | atomicIncrement
  /-- The blocking `WSARecv`: `none` for an error or a closed connection, otherwise the
  document that the tokeniser finds, if any. -/
  | wsaRecv (request : Option (Option (List UInt8)))
  | createFile (h : Handle)
  | getFileSizeEx (ok : Bool)
  | transmitFile (ok : Bool)
  | postQueuedCompletionStatus (ok : Bool)
deriving DecidableEq, Repr

/-- Who moves: a thread, the kernel completing its `i`-th pending operation, or
`server_control_handler` making the first or the second of its posts. -/
inductive Action
  | main (call : MainCall)
  | worker (i : ℕ) (call : WorkerCall)
  | complete (i bytes : ℕ)
  | ctrlShutDownIocp (ok : Bool)
  | ctrlShutDownAccept (ok : Bool)
deriving DecidableEq, Repr

/-! ## Updates of the state -/

/-- Store a client record. -/
def State.setClient (s : State) (c : ClientPtr) (cl : Client) : State :=
  { s with heap := Function.update s.heap c (some cl) }

/-- Move the accept thread. -/
def State.setMain (s : State) (pc : MainPc) : State := { s with main := pc }

/-- Move a worker. -/
def State.setWorker (s : State) (i : ℕ) (w : Worker) : State :=
  { s with workers := s.workers.set i w }

/-- A thread touched a released client. -/
def State.crash (s : State) : State := { s with crashed := true }

/-- Continue with the record of a client, or crash if it was released. -/
def State.withClient (s : State) (c : ClientPtr) (k : Client → Option State) : Option State :=
  match s.heap c with
  | none => some s.crash
  | some cl => k cl

/-- `server_accept_more_clients`: post to `sv_iocp_accept`. -/
def serverAcceptMoreClients (s : State) (cl : Option ClientPtr) (reuseSocket ok : Bool) : State :=
  if ok then { s with svIocpAccept := s.svIocpAccept ++ [.postAccept cl reuseSocket] } else s

/-- `server_post_message` with `kIocpMsgShutDown`: post to `sv_iocp`. -/
def serverPostShutDown (s : State) (ok : Bool) : State :=
  if ok then { s with svIocp := s.svIocp ++ [.shutDown] } else s

/-- The kernel accepts an overlapped operation of a client. -/
def State.issue (s : State) (c : ClientPtr) (op : KernelOp) : State :=
  { s with pending := s.pending ++ [(c, op)] }

/-! ## Functions on one client -/

/-- What `client_reinit` leaves behind: the record, the sockets, the pointer passed by
address, and the return value. -/
structure ReinitResult where
  client : Client
  sockets : SocketTable
  clnt : Option ClientPtr
  ret : Bool

/-- `client_reinit`. The pointer is never written. -/
def clientReinit (c : ClientPtr) (cl : Client) (sockets : SocketTable) (reuseSocket : Bool)
    (sock : Socket) : Option ReinitResult :=
  let cl := { cl with aioOpcode := .connection }
  let cl := if cl.clFile ≠ invalidHandleValue then { cl with clFile := invalidHandleValue } else cl
  if reuseSocket then some ⟨cl, sockets, some c, true⟩
  else
    let closing : Bool := cl.clSock ≠ invalidSocket
    let sockets := if closing then closesocket sockets cl.clSock else sockets
    let cl := if closing then { cl with clSockReused := false } else cl
    (createOverlappedSocket sockets sock).map fun sockets =>
      ⟨{ cl with clSock := sock }, sockets, some c, sock ≠ invalidSocket⟩

/-- The record that `client_create` fills in. -/
def newClient (sock : Socket) : Client where
  aioOpcode := .connection
  clSock := sock
  clFile := invalidHandleValue
  clIsTracked := false
  clSockReused := false

/-- `client_create`: the client or NULL, and the state. On a failure both blocks go back to
the allocator. The allocator never hands out a block that is in use. -/
def clientCreate (s : State) (block : Option ClientPtr) (buffer : Bool) (sock : Socket) :
    Option (Option ClientPtr × State) :=
  match block with
  | none => some (none, s)
  | some c =>
    if s.heap c ≠ none then none
    else if !buffer then some (none, s)
    else
      (createOverlappedSocket s.sockets sock).map fun sockets =>
        if sock = invalidSocket then (none, s)
        else (some c, { s.setClient c (newClient sock) with sockets := sockets })

/-- `client_destroy`. -/
def clientDestroy (s : State) (c : ClientPtr) (cl : Client) : State :=
  { s with
    sockets := if cl.clSock ≠ invalidSocket then closesocket s.sockets cl.clSock else s.sockets
    heap := Function.update s.heap c none }

/-- `server_add_client_to_list`; the result of `dlist_push_head` is not looked at. -/
def serverAddClientToList (s : State) (c : ClientPtr) (cl : Client) (node : Bool) : State :=
  { s.setClient c { cl with clIsTracked := true } with
    svClients := if node then c :: s.svClients else s.svClients }

/-- `server_remove_client_from_list`. -/
def serverRemoveClientFromList (s : State) (c : ClientPtr) (cl : Client) : State :=
  { s.setClient c { cl with clIsTracked := false } with
    svClients := (Sequence.removeItem s.compare c s.svClients).2 }

/-! ## The accept thread -/

/-- `server_main_loop`, `server_try_post_accept`, `server_post_acceptex_with_client` and
`server_cleanup_client_data`. `m` is `so_max_outstanding_accepts`. -/
def mainStep (m : ℤ) (s : State) (call : MainCall) : Option State :=
  match s.main, call with
  -- server_main_loop
  | .start, .postQueuedCompletionStatus ok =>
    some ((serverAcceptMoreClients s none false ok).setMain .wait)
  | .wait, .getQueuedCompletionStatus false => some s
  | .wait, .getQueuedCompletionStatus true =>
    match s.svIocpAccept with
    | [] => none
    | .shutDown :: rest => some ({ s with svIocpAccept := rest }.setMain .left)
    | .postAccept cli opts :: rest =>
      some ({ s with svIocpAccept := rest }.setMain (.guard cli opts))
  | .guard cli opts, .atomicLoad =>
    match decide (s.svOutstandingAccepts ≥ m), cli with
    | true, some c => some (s.setMain (.removeFromList .enoughPending c opts))
    | true, none => some (s.setMain .wait)
    | false, some c => some (s.setMain (.reinit c opts))
    | false, none => some (s.setMain (.create opts))
  | .reinit c opts, .clientReinit sock =>
    s.withClient c fun cl =>
      (clientReinit c cl s.sockets opts sock).map fun r =>
        let s := { s.setClient c r.client with sockets := r.sockets }
        -- `if (!cli)`: the caller tests the pointer, not the return value
        match r.clnt with
        | none => s.setMain .wait
        | some c => s.setMain (.postAcceptEx c opts)
  | .create opts, .clientCreate block buffer sock =>
    (clientCreate s block buffer sock).map fun r =>
      match r.1 with
      | none => r.2.setMain .wait
      | some c => r.2.setMain (.addToList c opts)
  | .addToList c opts, .dlistPushHead node =>
    s.withClient c fun cl =>
      some ((serverAddClientToList s c cl node).setMain (.postAcceptEx c opts))
  -- server_try_post_accept
  | .postAcceptEx c opts, .acceptEx .success =>
    s.withClient c fun cl =>
      -- the kernel accepts the operation only on an open socket
      if s.sockets cl.clSock = none then none
      else some ((s.issue c .acceptEx).setMain (.countAccept opts))
  | .postAcceptEx c opts, .acceptEx .connReset =>
    s.withClient c fun _ => some (s.setMain (.retry c opts))
  | .postAcceptEx c opts, .acceptEx .failed =>
    s.withClient c fun _ => some (s.setMain (.removeFromList .acceptExFailed c opts))
  | .countAccept opts, .atomicIncrement =>
    some ({ s with svOutstandingAccepts := s.svOutstandingAccepts + 1 }.setMain (.guard none opts))
  | .retry c opts, .clientReinit sock =>
    s.withClient c fun cl =>
      (clientReinit c cl s.sockets false sock).map fun r =>
        let s := { s.setClient c r.client with sockets := r.sockets }
        match r.clnt with
        | none => s.setMain (.guard none opts)
        | some c => s.setMain (.postAcceptEx c opts)
  -- server_cleanup_client_data
  | .removeFromList site c opts, .dlistRemoveItem =>
    s.withClient c fun cl =>
      if (Sequence.compared s.compare c s.svClients).all (fun x => (s.heap x).isSome) then
        some ((serverRemoveClientFromList s c cl).setMain (.destroy site c opts))
      else some s.crash
  | .destroy site c opts, .clientDestroy =>
    s.withClient c fun cl =>
      match site with
      | .enoughPending => some ((clientDestroy s c cl).setMain .wait)
      -- the loop of server_try_post_accept goes round with the same pointer
      | .acceptExFailed => some ((clientDestroy s c cl).setMain (.postAcceptEx c opts))
  | _, _ => none

/-! ## The workers -/

/-- The handler of a completion: `server_process_completions` after the message check. -/
def serverProcessCompletion (n : Completion) (opcode : IOOpcode) : WorkerPc :=
  if n.bytes = 0 ∧ opcode ≠ .connection ∧ opcode ≠ .sock0BytesRecv then
    .acceptMoreClients .emptyTransfer (some n.cl) false
  else
    match opcode with
    | .connection => .setsockopt n.cl
    | .sock0BytesRecv => .recvRequest n.cl
    | .sockWrite => .countTransfer n.cl n.bytes
    | .sockRead => .examine

/-- A step of worker `i`, whose state is `w`. -/
def workerStep (s : State) (i : ℕ) (w : Worker) (call : WorkerCall) : Option State :=
  match w.pc, call with
  -- server_worker_thread
  | .dequeue, .getQueuedCompletionStatusEx none => some (s.setWorker i { w with pc := .left })
  | .dequeue, .getQueuedCompletionStatusEx (some k) =>
    if 0 < k ∧ k ≤ kMaxCompletionCount ∧ k ≤ s.svIocp.length then
      some ({ s with svIocp := s.svIocp.drop k }.setWorker i ⟨.examine, s.svIocp.take k⟩)
    else none
  | .stopReceived, .postQueuedCompletionStatus ok =>
    some ((serverPostShutDown s ok).setWorker i { w with pc := .left })
  -- server_process_completions
  | .examine, .tau =>
    match w.batch with
    | [] => some (s.setWorker i ⟨.dequeue, []⟩)
    | .shutDown :: _ => some (s.setWorker i ⟨.stopReceived, []⟩)
    | .completion n :: rest => some (s.setWorker i ⟨.dispatch n, rest⟩)
  | .dispatch n, .tau =>
    s.withClient n.cl fun cl =>
      some (s.setWorker i { w with pc := serverProcessCompletion n cl.aioOpcode })
  -- server_accept_new_connection
  | .setsockopt c, .setsockopt ok =>
    s.withClient c fun _ =>
      some (s.setWorker i { w with
        pc := if ok then .associate c else .acceptMoreClients .newConnection (some c) false })
  | .associate c, .tau =>
    s.withClient c fun cl =>
      if cl.clSockReused then some (s.setWorker i { w with pc := .readFromClient c }) else none
  | .associate c, .createIoCompletionPort ok =>
    s.withClient c fun cl =>
      if cl.clSockReused then none
      else if ok then
        -- the system associates an open socket once
        if s.sockets cl.clSock = some false then
          some ({ s with sockets := Function.update s.sockets cl.clSock (some true) }.setWorker i
            { w with pc := .readFromClient c })
        else none
      else some (s.setWorker i { w with pc := .acceptMoreClients .newConnection (some c) false })
  | .readFromClient c, .wsaRecv0Bytes ok =>
    s.withClient c fun cl =>
      let s := s.setClient c { cl with aioOpcode := .sock0BytesRecv }
      if ok then some ((s.issue c .wsaRecv).setWorker i { w with pc := .countConnection })
      else some (s.setWorker i { w with pc := .acceptMoreClients .newConnection (some c) false })
  | .countConnection, .updateStats =>
    some ({ s with svStats := serverUpdateStats s.svStats .addConnection }.setWorker i
      { w with pc := .releaseSlot })
  | .releaseSlot, .atomicIncrement =>
    some ({ s with svOutstandingAccepts := s.svOutstandingAccepts + -1 }.setWorker i
      { w with pc := .acceptMoreClients .newConnection none false })
  -- server_handle_client_request
  | .recvRequest c, .wsaRecv none =>
    s.withClient c fun _ =>
      some (s.setWorker i { w with pc := .acceptMoreClients .request (some c) false })
  | .recvRequest c, .wsaRecv (some resPath) =>
    s.withClient c fun _ => some (s.setWorker i { w with pc := .openResource c resPath })
  -- server_transmit_resource
  | .openResource c none, .tau =>
    s.withClient c fun cl =>
      some ((s.setClient c { cl with aioOpcode := .sockWrite }).setWorker i
        { w with pc := .transmit c })
  | .openResource c (some _), .createFile h =>
    s.withClient c fun cl =>
      some ((s.setClient c { cl with aioOpcode := .sockWrite, clFile := h }).setWorker i
        { w with pc := if h = invalidHandleValue then .transmit c else .querySize c })
  | .querySize c, .getFileSizeEx ok =>
    s.withClient c fun cl =>
      if ok then some (s.setWorker i { w with pc := .transmit c })
      else some ((s.setClient c { cl with clFile := invalidHandleValue }).setWorker i
        { w with pc := .transmit c })
  | .transmit c, .transmitFile ok =>
    s.withClient c fun _ =>
      if ok then some ((s.issue c .transmitFile).setWorker i
        { w with pc := .acceptMoreClients .request none false })
      else some (s.setWorker i { w with pc := .acceptMoreClients .request (some c) false })
  -- the kIOOpcodeSockWrite branch and server_handle_client_write_completion
  | .countTransfer c bytes, .updateStats =>
    some ({ s with svStats := serverUpdateStats s.svStats (.transferSuccess bytes) }.setWorker i
      { w with pc := .markReused c })
  | .markReused c, .tau =>
    s.withClient c fun cl =>
      some ((s.setClient c { cl with clSockReused := true }).setWorker i
        { w with pc := .acceptMoreClients .writeCompletion (some c) true })
  | .acceptMoreClients _ cl reuseSocket, .postQueuedCompletionStatus ok =>
    some ((serverAcceptMoreClients s cl reuseSocket ok).setWorker i { w with pc := .examine })
  | _, _ => none

/-! ## The system -/

/-- One step of the whole system. -/
def step (m : ℤ) (s : State) (a : Action) : Option State :=
  if s.crashed then none
  else
    match a with
    | .main call => mainStep m s call
    | .worker i call =>
      match s.workers[i]? with
      | none => none
      | some w => workerStep s i w call
    | .complete i bytes =>
      match s.pending[i]? with
      | none => none
      | some (c, op) =>
        some { s with
          pending := s.pending.eraseIdx i
          svIocp := s.svIocp ++ [.completion ⟨c, op, bytes⟩] }
    | .ctrlShutDownIocp ok =>
      some { serverPostShutDown s ok with handlers := s.handlers + 1 }
    | .ctrlShutDownAccept ok =>
      if s.handlers = 0 then none
      else
        some { s with
          handlers := s.handlers - 1
          svIocpAccept := if ok then s.svIocpAccept ++ [.shutDown] else s.svIocpAccept }

/-- A run of the server with `n` workers that have been started. -/
def ServerRun (m : ℤ) (svSock : Socket) (n : ℕ) (tr : List (State × Action)) (s : State) : Prop :=
  Lib.Run (step m) (State.init svSock n) tr s

end AioServer.Windows
