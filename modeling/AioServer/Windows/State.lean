import AioServer.LinkedList.Sequence
import AioServer.Statistics
import Mathlib.Logic.Function.Basic

/-!
# The Windows server: its data

`server_impl_windows.c` runs one accept thread (`server_main_loop`) and a pool of workers
(`server_worker_thread`). They share `struct server_data`, two completion ports and the
clients; the kernel holds the operations in flight.

* `Client` is `struct client` without its I/O buffer and response header, which the request
  and response modules own;
* `SocketTable` is the part of the system that hands out socket handles and remembers
  which open socket is associated with `sv_iocp`;
* `MainPc`, `WorkerPc` name the points between two calls of a thread, with the local
  variables that are still needed there;
* `State` is everything together.
-/

namespace AioServer.Windows

/-! ## Handles and enumerations -/

/-- Address of a `struct client` block. -/
abbrev ClientPtr := ℕ

abbrev Socket := ℕ

abbrev Handle := ℕ

/-- `INVALID_SOCKET` of the 32-bit build. -/
def invalidSocket : Socket := 0xFFFFFFFF

/-- `INVALID_HANDLE_VALUE` of the 32-bit build. -/
def invalidHandleValue : Handle := 0xFFFFFFFF

/-- `ERROR_IO_PENDING`. -/
def errorIoPending : ℕ := 997

/-- `kMaxCompletionCount`. -/
def kMaxCompletionCount : ℕ := 16

/-- `kIOOpcode`. -/
inductive IOOpcode
  | connection
  | sockRead
  | sockWrite
  | sock0BytesRecv
deriving DecidableEq, Repr

/-- `kAcceptExResult`. -/
inductive AcceptExResult
  | success
  | connReset
  | failed
deriving DecidableEq, Repr

/-- `struct client`. -/
structure Client where
  aioOpcode : IOOpcode
  clSock : Socket
  clFile : Handle
  clIsTracked : Bool
  clSockReused : Bool
deriving DecidableEq, Repr

/-- `client_compare_fn`. -/
def clientCompareFn (left right : Client) : ℤ :=
  if left.clSock = right.clSock then 0 else if left.clSock < right.clSock then -1 else 1

theorem clientCompareFn_eq_zero {left right : Client} :
    clientCompareFn left right = 0 ↔ left.clSock = right.clSock := by
  unfold clientCompareFn
  split_ifs <;> simp_all

/-! ## Sockets -/

/-- `none` for a handle that is not open, `some a` for an open socket; `a` says whether it
is associated with `sv_iocp`. -/
abbrev SocketTable := Socket → Option Bool

/-- `closesocket`. -/
def closesocket (sockets : SocketTable) (k : Socket) : SocketTable :=
  Function.update sockets k none

/-- `create_overlapped_socket`, where `k` is the handle `WSASocket` returns: either
`INVALID_SOCKET`, or a handle that no open socket has. Any other `k` cannot happen. -/
def createOverlappedSocket (sockets : SocketTable) (k : Socket) : Option SocketTable :=
  if k = invalidSocket then some sockets
  else if sockets k = none then some (Function.update sockets k (some false))
  else none

/-! ## Messages and operations -/

/-- The overlapped operations of a client. -/
inductive KernelOp
  | acceptEx
  | wsaRecv
  | transmitFile
deriving DecidableEq, Repr

/-- The completion of an operation: `lpOverlapped` and `dwNumberOfBytesTransferred` of an
`OVERLAPPED_ENTRY`. The code never learns `op`, it looks at the client's `aio_opcode`. -/
structure Completion where
  cl : ClientPtr
  op : KernelOp
  bytes : ℕ
deriving DecidableEq, Repr

/-- A packet of `sv_iocp`. Completions carry a socket handle, which is not 0, as their key,
so `kIocpMsgShutDown = 0` tells the two kinds apart. -/
inductive Packet
  | shutDown
  | completion (n : Completion)
deriving DecidableEq, Repr

/-- A packet of `sv_iocp_accept`: `kIocpMsgShutDown`, or `kIocpMsgPostAccept` with a client
or NULL and the `reuse_socket` flag. -/
inductive AcceptMessage
  | shutDown
  | postAccept (cl : Option ClientPtr) (reuseSocket : Bool)
deriving DecidableEq, Repr

/-! ## Program points -/

/-- Where `server_cleanup_client_data` was called from. -/
inductive CleanupSite
  | enoughPending
  | acceptExFailed
deriving DecidableEq, Repr

/-- The accept thread. `opts` is `client_opts`. -/
inductive MainPc
  | start
  | wait
  | guard (cli : Option ClientPtr) (opts : Bool)
  | reinit (cli : ClientPtr) (opts : Bool)
  | create (opts : Bool)
  | addToList (cli : ClientPtr) (opts : Bool)
  | postAcceptEx (cli : ClientPtr) (opts : Bool)
  | countAccept (opts : Bool)
  | retry (cli : ClientPtr) (opts : Bool)
  | removeFromList (site : CleanupSite) (cli : ClientPtr) (opts : Bool)
  | destroy (site : CleanupSite) (cli : ClientPtr) (opts : Bool)
  | left
deriving DecidableEq, Repr

/-- The four callers of `server_accept_more_clients` in a worker. -/
inductive PostSite
  | newConnection
  | emptyTransfer
  | request
  | writeCompletion
deriving DecidableEq, Repr

/-- A worker, inside the handler of one notification or between two. -/
inductive WorkerPc
  | dequeue
  | examine
  | dispatch (n : Completion)
  | setsockopt (cl : ClientPtr)
  | associate (cl : ClientPtr)
  | readFromClient (cl : ClientPtr)
  | countConnection
  | releaseSlot
  | recvRequest (cl : ClientPtr)
  | openResource (cl : ClientPtr) (resPath : Option (List UInt8))
  | querySize (cl : ClientPtr)
  | transmit (cl : ClientPtr)
  | countTransfer (cl : ClientPtr) (bytes : ℕ)
  | markReused (cl : ClientPtr)
  | acceptMoreClients (site : PostSite) (cl : Option ClientPtr) (reuseSocket : Bool)
  | stopReceived
  | left
deriving DecidableEq, Repr

/-- A worker thread: its program point and the notifications it has not examined yet. -/
structure Worker where
  pc : WorkerPc
  batch : List Packet
deriving DecidableEq, Repr

/-! ## The whole system -/

/-- `struct server_data`, the live clients, the kernel, and the threads. `handlers` counts
the runs of `server_control_handler` between its two posts. `crashed` is set by the first
access to a client that was released. -/
structure State where
  svSock : Socket
  svIocp : List Packet
  svIocpAccept : List AcceptMessage
  svOutstandingAccepts : ℤ
  svClients : List ClientPtr
  svStats : ServerStats
  heap : ClientPtr → Option Client
  sockets : SocketTable
  pending : List (ClientPtr × KernelOp)
  main : MainPc
  workers : List Worker
  handlers : ℕ
  crashed : Bool

/-- The state in which `server_init` leaves a server with `n` worker threads. -/
def State.init (svSock : Socket) (n : ℕ) : State where
  svSock := svSock
  svIocp := []
  svIocpAccept := []
  svOutstandingAccepts := 0
  svClients := []
  svStats := ServerStats.zero
  heap := fun _ => none
  sockets := fun k => if k = svSock ∧ svSock ≠ invalidSocket then some true else none
  pending := []
  main := .start
  workers := List.replicate n ⟨.dequeue, []⟩
  handlers := 0
  crashed := false

/-- A client that was created and not yet destroyed. -/
def State.Live (s : State) (c : ClientPtr) : Prop := (s.heap c).isSome

instance (s : State) (c : ClientPtr) : Decidable (s.Live c) :=
  inferInstanceAs (Decidable ((s.heap c).isSome = true))

/-- `client_compare_fn` on the pointers that the list stores. -/
def State.compare (s : State) (x y : ClientPtr) : ℤ :=
  match s.heap x, s.heap y with
  | some left, some right => clientCompareFn left right
  | _, _ => 1

end AioServer.Windows
