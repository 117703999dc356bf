import AioServer.Linux.Worker

/-!
# The Linux server: setting it up and cleaning up

`server_init` acquires five resources before it starts its workers, and counts them in
`sv_rollback`. It does not release anything itself: `server_cleanup` is called in any case
and releases what the counter says. `create_server_socket` cleans up after itself.

* `serverInitSetup` is `server_init` up to the loop that starts the workers;
* `serverCleanupRest` is `server_cleanup` behind the loop that destroys them;
* `ServerData.resources`: what the server itself holds, by its counter.

As in `Linux/Worker` a `close` is one release, interrupted or not: no other thread opens
descriptors while the server starts, and when it cleans up the workers are gone.
-/

namespace AioServer.Linux

open Lib

/-! ## The code -/

/-- `struct server`. `svWorkersArray` is the block that `sv_workers` points to, `svWorkers`
are its entries below `sv_worker_count`. -/
structure ServerData where
  svAcceptfd : Fd
  svEpollfd : Fd
  svSigfds : Fd
  svThreadrdyEventfds : Fd
  svWorkersArray : Addr
  svWorkers : List Addr
  svRollback : ℕ
  svQuitflag : Bool
deriving DecidableEq

/-- `memset(p_srv, 0, sizeof(*p_srv))`. -/
def ServerData.zero : ServerData where
  svAcceptfd := 0
  svEpollfd := 0
  svSigfds := 0
  svThreadrdyEventfds := 0
  svWorkersArray := 0
  svWorkers := []
  svRollback := 0
  svQuitflag := false

/-- The outcomes of the calls of `create_server_socket`. -/
structure SocketCalls where
  getaddrinfo : Option Addr
  socket : Option Fd
  bind : Bool
  listen : Bool
deriving DecidableEq

/-- `FINISH` of `create_server_socket`, with `sv_data` not NULL. -/
def createServerSocketFinish (svData : Addr) (sockFd : Option Fd) (stage : ℕ) :
    Option Fd × Events :=
  let es : Events := [.release (.addrinfo svData)]
  if stage ≠ 3 then
    match sockFd with
    | none => (none, es)
    | some fd => (none, es ++ [.release (.fd fd)])
  else (sockFd, es)

/-- `create_server_socket`. -/
def createServerSocket (o : SocketCalls) : Option Fd × Events :=
  match o.getaddrinfo with
  | none => (none, [])
  | some svData =>
    let es : Events := [.acquire (.addrinfo svData), .use (.addrinfo svData)]
    match o.socket with
    | none =>
      let r := createServerSocketFinish svData none 0
      (r.1, es ++ r.2)
    | some sockFd =>
      let es := es ++ [.acquire (.fd sockFd), .use (.addrinfo svData)]
      let stage := if o.bind then if o.listen then 3 else 2 else 1
      let r := createServerSocketFinish svData (some sockFd) stage
      (r.1, es ++ r.2)

/-- The outcomes of the calls of `server_init` before its loop. -/
structure InitCalls where
  socket : SocketCalls
  epollCreate : Option Fd
  sigaddset : Bool
  sigprocmask : Bool
  signalfd : Option Fd
  epollCtlSigfds : Bool
  epollCtlAcceptfd : Bool
  eventfd : Option Fd
  sysconf : Option ℕ
  alMemAlloc : Option Addr
deriving DecidableEq

/-- `server_init` up to its loop: the server, the ledger, and `nr_procs`; without it the
function returns -1. -/
def serverInitSetup (o : InitCalls) : ServerData × Events × Option ℕ :=
  let sv := ServerData.zero
  let (acceptfd, es) := createServerSocket o.socket
  match acceptfd with
  | none => (sv, es, none)
  | some acceptfd =>
    let sv := { sv with svAcceptfd := acceptfd, svRollback := sv.svRollback + 1 }
    match o.epollCreate with
    | none => (sv, es, none)
    | some epollfd =>
      let sv := { sv with svEpollfd := epollfd, svRollback := sv.svRollback + 1 }
      let es := es ++ [.acquire (.fd epollfd)]
      if !o.sigaddset then (sv, es, none)
      else if !o.sigprocmask then (sv, es, none)
      else
        match o.signalfd with
        | none => (sv, es, none)
        | some sigfds =>
          let sv := { sv with svSigfds := sigfds, svRollback := sv.svRollback + 1 }
          let es := es ++ [.acquire (.fd sigfds)]
          if !o.epollCtlSigfds then (sv, es, none)
          else if !o.epollCtlAcceptfd then (sv, es, none)
          else
            match o.eventfd with
            | none => (sv, es, none)
            | some eventfds =>
              let sv := { sv with
                svThreadrdyEventfds := eventfds, svRollback := sv.svRollback + 1 }
              let es := es ++ [.acquire (.fd eventfds)]
              match o.sysconf, o.alMemAlloc with
              | none, _ => (sv, es, none)
              | some _, none => (sv, es, none)
              | some nrProcs, some array =>
                let sv := { sv with svWorkersArray := array, svRollback := sv.svRollback + 1 }
                (sv, es ++ [.acquire (.block array)], some nrProcs)

/-- `server_cleanup`, without the loop at the head of its case 5. -/
def serverCleanupRest (sv : ServerData) : Events :=
  fallThrough
    [(5, [.release (.block sv.svWorkersArray)]),
     (4, [.release (.fd sv.svThreadrdyEventfds)]),
     (3, [.release (.fd sv.svSigfds)]),
     (2, [.release (.fd sv.svEpollfd)]),
     (1, [.release (.fd sv.svAcceptfd)])] sv.svRollback

/-! ## What the server holds -/

/-- The resource of level `n`. -/
def ServerData.level (sv : ServerData) : ℕ → List Resource
  | 1 => [.fd sv.svAcceptfd]
  | 2 => [.fd sv.svEpollfd]
  | 3 => [.fd sv.svSigfds]
  | 4 => [.fd sv.svThreadrdyEventfds]
  | 5 => [.block sv.svWorkersArray]
  | _ => []

/-- The resources of all levels up to `n`. -/
def ServerData.upTo (sv : ServerData) : ℕ → List Resource
  | 0 => []
  | n + 1 => sv.level (n + 1) ++ sv.upTo n

/-- What the server holds, without its workers. -/
def ServerData.resources (sv : ServerData) : Multiset Resource := sv.upTo sv.svRollback

theorem settle_serverCleanupRest {sv : ServerData} (h : sv.svRollback ≤ 5) :
    settle sv.resources (serverCleanupRest sv) = some 0 := by
  obtain ⟨n, hn⟩ : ∃ n, sv.svRollback = n := ⟨_, rfl⟩
  rw [hn] at h
  rw [ServerData.resources, serverCleanupRest, hn]
  interval_cases n <;> simp [ServerData.upTo, ServerData.level, fallThrough, settle]

/-- The socket, or nothing. -/
theorem settle_createServerSocket (o : SocketCalls) :
    settle 0 (createServerSocket o).2
      = some ((createServerSocket o).1.elim 0 fun fd => {.fd fd}) := by
  obtain ⟨svData, sockFd, bind, listen⟩ := o
  cases svData with
  | none => rfl
  | some svData =>
    cases sockFd with
    | none => simp [createServerSocket, createServerSocketFinish, settle]
    | some sockFd =>
      have hne : ¬ Resource.addrinfo svData = .fd sockFd := by simp
      cases bind <;> cases listen <;>
        simp [createServerSocket, createServerSocketFinish, settle, hne]

/-- How `server_init` arrives at its loop, or does not. -/
structure Setup (o : InitCalls) (sv : ServerData) (es : Events) (nrProcs : Option ℕ) : Prop where
  settled : settle 0 es = some sv.resources
  workers : sv.svWorkers = []
  quitflag : sv.svQuitflag = false
  rollback : sv.svRollback ≤ 5
  reached : ∀ n, nrProcs = some n → sv.svRollback = 5 ∧ o.eventfd = some sv.svThreadrdyEventfds
  failed : nrProcs = none → sv.svRollback < 5

/-- `return -1` below level 5. -/
theorem Setup.stop {o : InitCalls} {sv : ServerData} {es : Events} (level : ℕ)
    (hlevel : sv.svRollback = level) (hlt : level < 5) (hw : sv.svWorkers = [])
    (hq : sv.svQuitflag = false) (hes : settle 0 es = some sv.resources) : Setup o sv es none :=
  ⟨hes, hw, hq, by omega, by simp, fun _ => by omega⟩

theorem setup_serverInitSetup {o : InitCalls} {sv : ServerData} {es : Events}
    {nrProcs : Option ℕ} (h : serverInitSetup o = (sv, es, nrProcs)) : Setup o sv es nrProcs := by
  obtain ⟨socket, epollfd, sigaddset, sigprocmask, sigfds, ctlSig, ctlAccept, eventfd, sysconf,
    array⟩ := o
  have hes₁ := settle_createServerSocket socket
  rw [serverInitSetup] at h
  generalize createServerSocket socket = r at h hes₁
  obtain ⟨acceptfd, es₁⟩ := r
  cases acceptfd with
  | none =>
    obtain ⟨rfl, rfl, rfl⟩ : ServerData.zero = sv ∧ es₁ = es ∧ none = nrProcs := by simpa using h
    exact Setup.stop 0 rfl (by decide) rfl rfl hes₁
  | some acceptfd =>
    cases epollfd with
    | none =>
      cases h
      exact Setup.stop 1 rfl (by decide) rfl rfl hes₁
    | some epollfd =>
      have hes₂ : settle 0 (es₁ ++ [.acquire (.fd epollfd)])
          = some {.fd epollfd, .fd acceptfd} := settle_trans hes₁ rfl
      cases sigaddset with
      | false =>
        cases h
        exact Setup.stop 2 rfl (by decide) rfl rfl hes₂
      | true =>
        cases sigprocmask with
        | false =>
          cases h
          exact Setup.stop 2 rfl (by decide) rfl rfl hes₂
        | true =>
          cases sigfds with
          | none =>
            cases h
            exact Setup.stop 2 rfl (by decide) rfl rfl hes₂
          | some sigfds =>
            have hes₃ : settle 0 (es₁ ++ [.acquire (.fd epollfd)] ++ [.acquire (.fd sigfds)])
                = some {.fd sigfds, .fd epollfd, .fd acceptfd} := settle_trans hes₂ rfl
            cases ctlSig with
            | false =>
              cases h
              exact Setup.stop 3 rfl (by decide) rfl rfl hes₃
            | true =>
              cases ctlAccept with
              | false =>
                cases h
                exact Setup.stop 3 rfl (by decide) rfl rfl hes₃
              | true =>
                cases eventfd with
                | none =>
                  cases h
                  exact Setup.stop 3 rfl (by decide) rfl rfl hes₃
                | some eventfds =>
                  have hes₄ : settle 0 (es₁ ++ [.acquire (.fd epollfd)]
                      ++ [.acquire (.fd sigfds)] ++ [.acquire (.fd eventfds)])
                      = some {.fd eventfds, .fd sigfds, .fd epollfd, .fd acceptfd} :=
                    settle_trans hes₃ rfl
                  cases sysconf with
                  | none =>
                    cases h
                    exact Setup.stop 4 rfl (by decide) rfl rfl hes₄
                  | some n =>
                    cases array with
                    | none =>
                      cases h
                      exact Setup.stop 4 rfl (by decide) rfl rfl hes₄
                    | some array =>
                      cases h
                      exact ⟨settle_trans hes₄ rfl, rfl, rfl, Nat.le_refl 5, fun n _ => ⟨rfl, rfl⟩,
                        by simp⟩

end AioServer.Linux
