import AioServer.Lib.Ledger
import AioServer.Windows.State
import Mathlib.Algebra.Order.Group.Multiset
import Mathlib.Algebra.Order.Ring.Int
import Mathlib.Tactic.Abel

/-!
# The Windows server: `server_init` and `server_cleanup_and_shutdown`

`server_init` acquires its resources one after the other and counts them in `rollback`; its
error exit releases what the counter says, and `server_cleanup_and_shutdown` is written out by
hand. Both functions return the ledger of what they acquire, use and release. A variable that
holds no resource is `none`, and so is what a release function is given then.

* `ServerData.upTo`: what the counter stands for;
* `AllOrNothing`: either nothing is left, or the server is complete and the shutdown gives
  everything back;
* `all_or_nothing_iff`: this fails just when `dlist_create` does, since that failure does not
  leave the function.

The array of the workers is taken to have room for all of them; `arraySound_iff` of
`Windows/WorkerArray` says when it has.
-/

namespace AioServer.Windows.Startup

open Lib

/-! ## Resources -/

/-- Address of a block or of a function. -/
abbrev Addr := ℕ

/-- What `server_init` acquires: Winsock, the locks, the list of clients, a handle, a socket,
a block of the allocator, a result of `getaddrinfo`. -/
inductive Resource
  | wsa
  | listLock
  | statsLock
  | list (a : Option Addr)
  | handle (h : Option Handle)
  | socket (k : Option Socket)
  | block (a : Option Addr)
  | addrinfo (a : Addr)
deriving DecidableEq, Repr

/-- What happens to the resources. -/
abbrev Events := List (Event Resource)

/-! ## The calls -/

/-- `create_server_socket`: the outcomes of its calls. -/
structure SocketCalls where
  getaddrinfo : Option Addr
  wsaSocket : Option Socket
  bind : Bool
  listen : Bool
deriving DecidableEq

/-- `WSAIoctl` returns the pointer, or an error, or it is pending for some rounds of
`WSAGetOverlappedResult`. -/
inductive IoctlCalls
  | done (pointer : Addr)
  | failed
  | pending (rounds : ℕ) (pointer : Option Addr)
deriving DecidableEq

/-- The outcomes of the calls of `server_init`; `beginthreadex i` is that of round `i`. -/
structure InitCalls where
  wsaStartup : Bool
  dlistCreate : Option Addr
  dwNumberOfProcessors : ℕ
  iocp : Option Handle
  iocpAccept : Option Handle
  socket : SocketCalls
  acceptx : IoctlCalls
  getacceptexsockaddrs : IoctlCalls
  transmitFile : IoctlCalls
  updateCompletionPort : Bool
  alMemAlloc : Option Addr
  beginthreadex : ℕ → Option Handle

/-- The part of `struct server_data` that `server_init` fills. `svWorkerThreads` is the array
and `svThreads` the entries of it that were written. -/
structure ServerData where
  svSock : Option Socket
  svIocp : Option Handle
  svIocpAccept : Option Handle
  svWorkerThreads : Option Addr
  svThreads : List (Option Handle)
  svWorkerCount : ℕ
  svAcceptx : Option Addr
  svGetacceptexsockaddrs : Option Addr
  svTransmitFile : Option Addr
  svClients : Option Addr
deriving DecidableEq

/-- `RtlZeroMemory(sv, sizeof(*sv))`, and `sv_sock` is `INVALID_SOCKET`. -/
def ServerData.zero : ServerData where
  svSock := none
  svIocp := none
  svIocpAccept := none
  svWorkerThreads := none
  svThreads := []
  svWorkerCount := 0
  svAcceptx := none
  svGetacceptexsockaddrs := none
  svTransmitFile := none
  svClients := none

/-! ## The code -/

/-- `create_server_socket`. -/
def createServerSocket (o : SocketCalls) : Option Socket × Events :=
  match o.getaddrinfo with
  | none => (none, [])
  | some svdata =>
    let es : Events := [.acquire (.addrinfo svdata), .use (.addrinfo svdata)]
    match o.wsaSocket with
    | none => (none, es ++ [.release (.addrinfo svdata)])
    | some svSock =>
      let es := es ++ [.acquire (.socket (some svSock)), .use (.addrinfo svdata)]
      if o.bind && o.listen then (some svSock, es ++ [.release (.addrinfo svdata)])
      else (none, es ++ [.release (.socket (some svSock)), .release (.addrinfo svdata)])

/-- The rounds of `WSAGetOverlappedResult`. -/
def overlappedResult : ℕ → Option Addr → Option Addr
  | 0, pointer => pointer
  | rounds + 1, pointer => overlappedResult rounds pointer

/-- `load_function_pointer_from_wsa`. -/
def loadFunctionPointerFromWsa : IoctlCalls → Option Addr
  | .done pointer => some pointer
  | .failed => none
  | .pending rounds pointer => overlappedResult rounds pointer

/-- The acquisition of something that may be missing. -/
def acquired (r : Option ℕ → Resource) : Option ℕ → Events
  | none => []
  | some a => [.acquire (r (some a))]

/-- `ERR_CLEANUP` of `server_init`. -/
def errCleanup (stats : Bool) (sv : ServerData) (rollback : ℕ) : Events :=
  fallThrough
    [(6, [.release (.socket sv.svSock)]),
     (5, [.release (.handle sv.svIocpAccept)]),
     (4, [.release (.handle sv.svIocp)]),
     (3, [.release (.list sv.svClients)]),
     (2, .release .listLock :: if stats then [.release .statsLock] else []),
     (1, [.release .wsa])] rollback

/-- The bound of the loops over the workers: `(int) sv->sv_worker_count`. -/
def ServerData.rounds (sv : ServerData) : ℕ :=
  if sv.svWorkerCount < 2 ^ 31 then sv.svWorkerCount else 0

/-- `server_init` at level 6, when the socket is in the port: the threads. -/
def serverInitThreads (stats : Bool) (o : InitCalls) (sv : ServerData) (es : Events) :
    ServerData × Bool × Events :=
  match o.alMemAlloc with
  | none => (sv, false, es ++ errCleanup stats sv 6)
  | some array =>
    let sv := { sv with
      svWorkerThreads := some array, svThreads := (List.range sv.rounds).map o.beginthreadex }
    (sv, true, es ++ [.acquire (.block (some array))] ++
      sv.svThreads.flatMap fun h => .use (.block sv.svWorkerThreads) :: acquired .handle h)

/-- `server_init` from level 6 on: the extension functions and the port. -/
def serverInitPointers (stats : Bool) (o : InitCalls) (sv : ServerData) (es : Events) :
    ServerData × Bool × Events :=
  match loadFunctionPointerFromWsa o.acceptx with
  | none => (sv, false, es ++ errCleanup stats sv 6)
  | some acceptx =>
    match loadFunctionPointerFromWsa o.getacceptexsockaddrs with
    | none => (sv, false, es ++ errCleanup stats sv 6)
    | some getacceptexsockaddrs =>
      match loadFunctionPointerFromWsa o.transmitFile with
      | none => (sv, false, es ++ errCleanup stats sv 6)
      | some transmitFile =>
        if o.updateCompletionPort then
          serverInitThreads stats o { sv with
            svAcceptx := some acceptx
            svGetacceptexsockaddrs := some getacceptexsockaddrs
            svTransmitFile := some transmitFile } es
        else (sv, false, es ++ errCleanup stats sv 6)

/-- `server_init` from level 3 on: the ports and the socket. -/
def serverInitPorts (stats : Bool) (ratio : ℤ) (o : InitCalls) (sv : ServerData) (es : Events) :
    ServerData × Bool × Events :=
  let sv := { sv with svWorkerCount := (o.dwNumberOfProcessors * ratio % 2 ^ 32).toNat }
  match o.iocp with
  | none => (sv, false, es ++ errCleanup stats sv 3)
  | some iocp =>
    let sv := { sv with svIocp := some iocp }
    let es := es ++ [.acquire (.handle (some iocp))]
    match o.iocpAccept with
    | none => (sv, false, es ++ errCleanup stats sv 4)
    | some iocpAccept =>
      let sv := { sv with svIocpAccept := some iocpAccept }
      let es := es ++ [.acquire (.handle (some iocpAccept))]
      match createServerSocket o.socket with
      | (none, fs) => (sv, false, es ++ fs ++ errCleanup stats sv 5)
      | (some svSock, fs) =>
        serverInitPointers stats o { sv with svSock := some svSock } (es ++ fs)

/-- `server_init`, with the option `__ENABLE_STATISTICS__` and `so_thread_to_processor_ratio`:
the server, the result and the ledger. -/
def serverInit (stats : Bool) (ratio : ℤ) (o : InitCalls) : ServerData × Bool × Events :=
  if o.wsaStartup then
    let es : Events := [.acquire .wsa, .acquire .listLock] ++
      if stats then [.acquire .statsLock] else []
    -- without a `goto` the function goes on when there is no list
    serverInitPorts stats ratio o { ServerData.zero with svClients := o.dlistCreate }
      (es ++ acquired .list o.dlistCreate)
  else (ServerData.zero, false, errCleanup stats ServerData.zero 0)

/-- `server_cleanup_and_shutdown`; the list has no clients yet. -/
def serverCleanupAndShutdown (stats : Bool) (sv : ServerData) : Events :=
  (sv.svThreads.flatMap fun h => .use (.block sv.svWorkerThreads) ::
    match h with
    | none => []
    | some h => [.use (.handle (some h)), .release (.handle (some h))]) ++
  [.release (.block sv.svWorkerThreads), .release (.socket sv.svSock),
   .use (.list sv.svClients), .release (.list sv.svClients), .release (.handle sv.svIocp),
   .release (.handle sv.svIocpAccept), .release .listLock] ++
  (if stats then [.use .statsLock, .release .statsLock] else []) ++ [.release .wsa]

/-! ## What the counter stands for -/

/-- The resources of level `n`. -/
def ServerData.level (stats : Bool) (sv : ServerData) : ℕ → List Resource
  | 1 => [.wsa]
  | 2 => if stats then [.statsLock, .listLock] else [.listLock]
  | 3 => [.list sv.svClients]
  | 4 => [.handle sv.svIocp]
  | 5 => [.handle sv.svIocpAccept]
  | 6 => [.socket sv.svSock]
  | _ => []

/-- The resources of all levels up to `n`. -/
def ServerData.upTo (stats : Bool) (sv : ServerData) : ℕ → List Resource
  | 0 => []
  | n + 1 => sv.level stats (n + 1) ++ sv.upTo stats n

/-- What is held at level `n`. -/
def ServerData.held (stats : Bool) (sv : ServerData) (n : ℕ) : Multiset Resource :=
  sv.upTo stats n

/-- The handles of the threads that were started. -/
def threadHandles (threads : List (Option Handle)) : Multiset Resource :=
  (threads.filterMap fun h => h.map fun h => Resource.handle (some h) : List Resource)

/-- All fields are set. -/
structure ServerData.Valid (sv : ServerData) : Prop where
  clients : sv.svClients.isSome
  iocp : sv.svIocp.isSome
  iocpAccept : sv.svIocpAccept.isSome
  sock : sv.svSock.isSome
  acceptx : sv.svAcceptx.isSome
  getacceptexsockaddrs : sv.svGetacceptexsockaddrs.isSome
  transmitFile : sv.svTransmitFile.isSome
  workerThreads : sv.svWorkerThreads.isSome

/-- What `server_init` returns leaves nothing behind, or it is a complete server and
`server_cleanup_and_shutdown` then releases what was acquired. -/
def Clean (stats : Bool) : ServerData × Bool × Events → Prop
  | (_, false, es) => Balanced es
  | (sv, true, es) => sv.Valid ∧ Balanced (es ++ serverCleanupAndShutdown stats sv)

/-- `server_init` is all or nothing. -/
def AllOrNothing (stats : Bool) (ratio : ℤ) (o : InitCalls) : Prop :=
  Clean stats (serverInit stats ratio o)

section specs

variable {stats : Bool} {sv : ServerData} {es : Events} {held : Multiset Resource}

/-- The error exit releases what the counter stands for. -/
theorem settle_errCleanup {n : ℕ} (hn : n ≤ 6) :
    settle (sv.held stats n) (errCleanup stats sv n) = some 0 := by
  have hcases : n = 0 ∨ n = 1 ∨ n = 2 ∨ n = 3 ∨ n = 4 ∨ n = 5 ∨ n = 6 := by omega
  rcases hcases with rfl | rfl | rfl | rfl | rfl | rfl | rfl <;> cases stats <;>
    simp [ServerData.held, ServerData.upTo, ServerData.level, errCleanup, fallThrough, settle]

/-- The socket, or nothing. -/
theorem settle_createServerSocket (o : SocketCalls) :
    settle 0 (createServerSocket o).2
      = some ((createServerSocket o).1.elim 0 fun k => {.socket (some k)}) := by
  obtain ⟨svdata, svSock, bind, listen⟩ := o
  cases svdata with
  | none => rfl
  | some svdata =>
    cases svSock with
    | none => simp [createServerSocket, settle]
    | some svSock =>
      have hne : ¬ Resource.addrinfo svdata = .socket (some svSock) := by simp
      cases bind <;> cases listen <;> simp [createServerSocket, settle, hne]

/-- The loop over `_beginthreadex`. -/
theorem settle_startThreads {array : Option Addr} (threads : List (Option Handle))
    (h : .block array ∈ held) :
    settle held (threads.flatMap fun h => .use (.block array) :: acquired .handle h)
      = some (threadHandles threads + held) := by
  induction threads generalizing held with
  | nil => simp [threadHandles]
  | cons th threads ih =>
    rw [List.flatMap_cons, List.cons_append, settle_use h]
    cases th with
    | none => exact ih h
    | some th =>
      have hmem : .block array ∈ .handle (some th) ::ₘ held := Multiset.mem_cons_of_mem h
      refine (ih hmem).trans ?_
      rw [Multiset.add_cons, ← Multiset.cons_add]
      rfl

/-- The loop over the threads in `server_cleanup_and_shutdown`. -/
theorem settle_joinThreads {array : Option Addr} (threads : List (Option Handle))
    (h : .block array ∈ held) :
    settle (threadHandles threads + held) (threads.flatMap fun h => .use (.block array) ::
      match h with
      | none => []
      | some h => [.use (.handle (some h)), .release (.handle (some h))]) = some held := by
  induction threads with
  | nil => simp [threadHandles]
  | cons th threads ih =>
    rw [List.flatMap_cons, List.cons_append, settle_use (Multiset.mem_add.mpr (Or.inr h))]
    cases th with
    | none => exact ih
    | some th =>
      have hsplit : threadHandles (some th :: threads) + held
          = .handle (some th) ::ₘ (threadHandles threads + held) := by
        rw [← Multiset.cons_add]
        rfl
      rw [hsplit]
      simp only [List.cons_append, List.nil_append, settle_use_cons, settle_release_cons]
      exact ih

/-- The shutdown releases what a complete server holds. -/
theorem settle_shutdown (sv : ServerData) :
    settle (threadHandles sv.svThreads + .block sv.svWorkerThreads ::ₘ sv.held stats 6)
      (serverCleanupAndShutdown stats sv) = some 0 := by
  unfold serverCleanupAndShutdown
  rw [List.append_assoc, List.append_assoc]
  refine settle_trans (settle_joinThreads sv.svThreads (Multiset.mem_cons_self _ _)) ?_
  have hlevels : sv.held stats 6 = {.socket sv.svSock} +
      {.handle sv.svIocpAccept} + {.handle sv.svIocp} + {.list sv.svClients} +
      (if stats then {.statsLock} else 0) + {.listLock} + {.wsa} := by
    cases stats <;> rfl
  -- the order of the releases is not that of the counter
  have horder : Resource.block sv.svWorkerThreads ::ₘ sv.held stats 6
      = .block sv.svWorkerThreads ::ₘ .socket sv.svSock ::ₘ .list sv.svClients ::ₘ
        .handle sv.svIocp ::ₘ .handle sv.svIocpAccept ::ₘ .listLock ::ₘ
        ((if stats then {.statsLock} else 0) + {.wsa}) := by
    rw [hlevels]
    simp only [← Multiset.singleton_add]
    abel
  rw [horder]
  cases stats <;> simp [settle]

/-! ## With a list -/

/-- A failure at level `n` leaves nothing. -/
theorem balanced_of_failure {n : ℕ} (hn : n ≤ 6) (h : settle 0 es = some (sv.held stats n)) :
    Balanced (es ++ errCleanup stats sv n) := settle_trans h (settle_errCleanup hn)

/-- One more resource at level `n + 1`. -/
theorem settle_level (n : ℕ) (sv : ServerData) {fs : Events} {r : Resource}
    (h : settle 0 es = some (sv.held stats n))
    (hr : sv.level stats (n + 1) = [r]) (hfs : settle 0 fs = some {r}) :
    settle 0 (es ++ fs) = some (sv.held stats (n + 1)) := by
  refine settle_trans h (settle_part hfs (zero_add _).symm ?_)
  show (↑(sv.level stats (n + 1) ++ sv.upTo stats n) : Multiset Resource) = _
  rw [hr]
  rfl

theorem clean_threads {o : InitCalls} (h : settle 0 es = some (sv.held stats 6))
    (hv : ∀ array, ({ sv with svWorkerThreads := some array } : ServerData).Valid) :
    Clean stats (serverInitThreads stats o sv es) := by
  unfold serverInitThreads
  cases o.alMemAlloc with
  | none => exact balanced_of_failure (by decide) h
  | some array =>
    have hvalid := hv array
    refine ⟨⟨hvalid.1, hvalid.2, hvalid.3, hvalid.4, hvalid.5, hvalid.6, hvalid.7, rfl⟩, ?_⟩
    have hend := @settle_shutdown stats { sv with
      svWorkerThreads := some array, svThreads := (List.range sv.rounds).map o.beginthreadex }
    have hheld : settle 0 (es ++ [.acquire (.block (some array))])
        = some (.block (some array) ::ₘ sv.held stats 6) := settle_trans h rfl
    have hstart := settle_startThreads ((List.range sv.rounds).map o.beginthreadex)
      (Multiset.mem_cons_self (Resource.block (some array)) (sv.held stats 6))
    exact settle_trans (settle_trans hheld hstart) hend

theorem clean_pointers {o : InitCalls} (h : settle 0 es = some (sv.held stats 6))
    (hl : sv.svClients.isSome) (hi : sv.svIocp.isSome) (ha : sv.svIocpAccept.isSome)
    (hs : sv.svSock.isSome) : Clean stats (serverInitPointers stats o sv es) := by
  unfold serverInitPointers
  cases loadFunctionPointerFromWsa o.acceptx with
  | none => exact balanced_of_failure (by decide) h
  | some acceptx =>
    cases loadFunctionPointerFromWsa o.getacceptexsockaddrs with
    | none => exact balanced_of_failure (by decide) h
    | some getacceptexsockaddrs =>
      cases loadFunctionPointerFromWsa o.transmitFile with
      | none => exact balanced_of_failure (by decide) h
      | some transmitFile =>
        cases o.updateCompletionPort with
        | false => exact balanced_of_failure (by decide) h
        | true => exact clean_threads h fun array => ⟨hl, hi, ha, hs, rfl, rfl, rfl, rfl⟩

theorem clean_ports {ratio : ℤ} {o : InitCalls} (h : settle 0 es = some (sv.held stats 3))
    (hl : sv.svClients.isSome) : Clean stats (serverInitPorts stats ratio o sv es) := by
  unfold serverInitPorts
  have hsock := settle_createServerSocket o.socket
  cases o.iocp with
  | none => exact balanced_of_failure (by decide) h
  | some iocp =>
    have hone : ∀ r : Resource, settle 0 [.acquire r] = some {r} := fun _ => rfl
    have h₄ := settle_level 3 { sv with svIocp := some iocp } h rfl (hone _)
    cases o.iocpAccept with
    | none => exact balanced_of_failure (by decide) h₄
    | some iocpAccept =>
      have h₅ := settle_level 4
        { sv with svIocp := some iocp, svIocpAccept := some iocpAccept } h₄ rfl (hone _)
      dsimp only
      rcases hr : createServerSocket o.socket with ⟨svSock, fs⟩
      rw [hr] at hsock
      cases svSock with
      | none =>
        refine balanced_of_failure (by decide) (settle_trans h₅ ?_)
        exact settle_part hsock (zero_add _).symm (zero_add _).symm
      | some svSock =>
        exact clean_pointers (settle_level 5 _ h₅ rfl hsock) hl rfl rfl rfl

theorem allOrNothing_of_list {ratio : ℤ} {o : InitCalls} (hl : o.dlistCreate.isSome) :
    AllOrNothing stats ratio o := by
  unfold AllOrNothing serverInit
  cases o.wsaStartup with
  | false =>
    show Balanced []
    rfl
  | true =>
    obtain ⟨list, hlist⟩ := Option.isSome_iff_exists.mp hl
    refine clean_ports ?_ hl
    rw [hlist]
    cases stats <;> rfl

/-! ## Without a list -/

/-- The error exit then hands NULL to `dlist_destroy`. -/
theorem not_balanced_of_failure {n : ℕ} (hn : 3 ≤ n ∧ n ≤ 6) (hl : sv.svClients = none)
    (hes : .acquire (.list none) ∉ es) : ¬ Balanced (es ++ errCleanup stats sv n) := by
  intro hbal
  have hcount := hbal.count_eq (.list none)
  have hcases : n = 3 ∨ n = 4 ∨ n = 5 ∨ n = 6 := by omega
  have hrel : .release (.list none) ∈ errCleanup stats sv n := by
    rcases hcases with rfl | rfl | rfl | rfl <;> simp [errCleanup, fallThrough, hl]
  have hacq : .acquire (.list none) ∉ errCleanup stats sv n := by
    rcases hcases with rfl | rfl | rfl | rfl <;> cases stats <;> simp [errCleanup, fallThrough]
  have hnone : (es ++ errCleanup stats sv n).count (.acquire (.list none)) = 0 :=
    List.count_eq_zero.mpr (by simp [hes, hacq])
  have hsome : 0 < (es ++ errCleanup stats sv n).count (.release (.list none)) :=
    List.count_pos_iff.mpr (List.mem_append_right _ hrel)
  omega

theorem not_clean_threads {o : InitCalls} (hl : sv.svClients = none)
    (hes : .acquire (.list none) ∉ es) : ¬ Clean stats (serverInitThreads stats o sv es) := by
  unfold serverInitThreads
  cases o.alMemAlloc with
  | none => exact not_balanced_of_failure (by decide) hl hes
  | some array =>
    intro hclean
    have hsome := hclean.1.clients
    rw [hl] at hsome
    cases hsome

theorem not_clean_pointers {o : InitCalls} (hl : sv.svClients = none)
    (hes : .acquire (.list none) ∉ es) : ¬ Clean stats (serverInitPointers stats o sv es) := by
  unfold serverInitPointers
  cases loadFunctionPointerFromWsa o.acceptx with
  | none => exact not_balanced_of_failure (by decide) hl hes
  | some acceptx =>
    cases loadFunctionPointerFromWsa o.getacceptexsockaddrs with
    | none => exact not_balanced_of_failure (by decide) hl hes
    | some getacceptexsockaddrs =>
      cases loadFunctionPointerFromWsa o.transmitFile with
      | none => exact not_balanced_of_failure (by decide) hl hes
      | some transmitFile =>
        cases o.updateCompletionPort with
        | false => exact not_balanced_of_failure (by decide) hl hes
        | true => exact not_clean_threads hl hes

theorem acquire_list_notMem_createServerSocket (o : SocketCalls) :
    .acquire (.list none) ∉ (createServerSocket o).2 := by
  obtain ⟨svdata, svSock, bind, listen⟩ := o
  cases svdata <;> cases svSock <;> cases bind <;> cases listen <;> simp [createServerSocket]

theorem not_clean_ports {ratio : ℤ} {o : InitCalls} (hl : sv.svClients = none)
    (hes : .acquire (.list none) ∉ es) :
    ¬ Clean stats (serverInitPorts stats ratio o sv es) := by
  unfold serverInitPorts
  cases o.iocp with
  | none => exact not_balanced_of_failure (by decide) hl hes
  | some iocp =>
    cases o.iocpAccept with
    | none => exact not_balanced_of_failure (by decide) hl (by simp [hes])
    | some iocpAccept =>
      have hsock := acquire_list_notMem_createServerSocket o.socket
      dsimp only
      rcases hr : createServerSocket o.socket with ⟨svSock, fs⟩
      rw [hr] at hsock
      cases svSock with
      | none => exact not_balanced_of_failure (by decide) hl (by simpa [hes] using hsock)
      | some svSock => exact not_clean_pointers hl (by simpa [hes] using hsock)

theorem not_allOrNothing {ratio : ℤ} {o : InitCalls} (hw : o.wsaStartup = true)
    (hl : o.dlistCreate = none) : ¬ AllOrNothing stats ratio o := by
  unfold AllOrNothing serverInit
  rw [if_pos hw]
  refine not_clean_ports hl ?_
  rw [hl]
  cases stats <;> simp [acquired]

end specs

/-- For every pattern of failures: `server_init` is all or nothing just when `dlist_create` does
not fail, or is not reached. -/
theorem all_or_nothing_iff (stats : Bool) (ratio : ℤ) (o : InitCalls) :
    AllOrNothing stats ratio o ↔ o.wsaStartup = false ∨ o.dlistCreate.isSome := by
  constructor
  · intro h
    by_contra hneither
    rw [not_or, Bool.not_eq_false, Option.not_isSome_iff_eq_none] at hneither
    exact not_allOrNothing hneither.1 hneither.2 h
  · rintro (hw | hl)
    · unfold AllOrNothing serverInit
      rw [if_neg (by simp [hw])]
      rfl
    · exact allOrNothing_of_list hl

/-- The calls of a start in which only the list of clients cannot be allocated. -/
def startWithoutList : InitCalls where
  wsaStartup := true
  dlistCreate := none
  dwNumberOfProcessors := 1
  iocp := some 1
  iocpAccept := some 2
  socket := ⟨some 1, some 3, true, true⟩
  acceptx := .done 4
  getacceptexsockaddrs := .done 5
  transmitFile := .done 6
  updateCompletionPort := true
  alMemAlloc := some 7
  beginthreadex := fun i => some (8 + i)

/-- The server then starts, with NULL in `sv_clients`. -/
theorem starts_without_list : ¬ ∀ stats ratio o, AllOrNothing stats ratio o := by
  intro h
  have hvalid := (h false 1 startWithoutList).1.clients
  cases hvalid

end AioServer.Windows.Startup
