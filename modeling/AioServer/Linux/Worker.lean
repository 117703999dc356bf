import AioServer.Lib.Ledger
import AioServer.Linux.Clients
import Mathlib.Data.Int.Init
import Mathlib.Tactic.IntervalCases

/-!
# The Linux server: creating and destroying a worker

`worker_thread_create` acquires six resources one after the other and counts them in
`wk_rollback`; its error exit and `worker_thread_destroy` release what the counter says.
Each function returns the ledger of what it acquires, uses and releases.

* `WorkerThread.resources`: what a worker holds, by its counter;
* `settle_workerThreadCreate`, `settle_workerThreadDestroy`: creating a worker acquires just
  that or nothing, destroying it releases just that.

Each `close` is one release, also when a signal interrupts it and `HANDLE_EINTR_ON_SYSCALL` calls
it again: without clients no other thread opens a descriptor in between, so the second call fails
with `EBADF`. `Linux/Close` has what happens with clients.
-/

namespace AioServer.Linux

open Lib

/-! ## Resources -/

/-- Position of a thread in the order of their `pthread_create` calls. -/
abbrev ThreadId := ℕ

/-- What the server acquires: a descriptor, a block of its allocator, a string of `strdup`,
a named message queue, a joinable thread, a result of `getaddrinfo`. -/
inductive Resource
  | fd (k : Fd)
  | block (a : Addr)
  | text (a : Addr)
  | queue (name : String)
  | thread (t : ThreadId)
  | addrinfo (a : Addr)
deriving DecidableEq

/-- What happens to the resources while the program runs. -/
abbrev Events := List (Event Resource)

/-! ## The code -/

/-- `struct worker_thread`. The clients are in `Serving`; `wkMqueueName` is the address of
the string `wkMqueueText`. -/
structure WorkerThread where
  wkEpollFds : Fd
  wkTermsig : Fd
  wkMessagequeue : Fd
  wkClients : Addr
  wkMqueueName : Addr
  wkMqueueText : String
  wkThreadid : ThreadId
  wkReadyevent : Fd
  wkRollback : ℕ
  wkQuitflag : Bool
deriving DecidableEq

/-- `memset(wthread, 0, sizeof(*wthread))`. -/
def WorkerThread.zero : WorkerThread where
  wkEpollFds := 0
  wkTermsig := 0
  wkMessagequeue := 0
  wkClients := 0
  wkMqueueName := 0
  wkMqueueText := ""
  wkThreadid := 0
  wkReadyevent := 0
  wkRollback := 0
  wkQuitflag := false

/-- The outcomes of the calls of `worker_thread_create`. -/
structure CreateCalls where
  alMemAlloc : Option Addr
  eventfd : Option Fd
  dlistCreate : Option Addr
  strdup : Option Addr
  epollCreate : Option Fd
  mqOpen : Option Fd
deriving DecidableEq

/-- `ERR_CLEANUP` of `worker_thread_create`; the list has no nodes yet. -/
def createErrCleanup (a : Addr) (w : WorkerThread) : Events :=
  .use (.block a) :: fallThrough
    [(4, [.use (.block a), .release (.fd w.wkEpollFds)]),
     (3, [.use (.block a), .release (.text w.wkMqueueName)]),
     (2, [.use (.block a), .release (.block w.wkClients)]),
     (1, [.use (.block a), .release (.fd w.wkTermsig)]),
     (0, [.use (.block a), .release (.block a)])] w.wkRollback

/-- `worker_thread_create`: the address and the content of the new structure, or NULL. -/
def workerThreadCreate (mqueueName : String) (o : CreateCalls) :
    Option (Addr × WorkerThread) × Events :=
  match o.alMemAlloc with
  | none => (none, [])
  | some a =>
    let w := WorkerThread.zero
    let es : Events := [.acquire (.block a)]
    match o.eventfd with
    | none => (none, es ++ createErrCleanup a w)
    | some fd =>
      let w := { w with wkTermsig := fd, wkRollback := w.wkRollback + 1 }
      let es := es ++ [.acquire (.fd fd)]
      match o.dlistCreate with
      | none => (none, es ++ createErrCleanup a w)
      | some list =>
        let w := { w with wkClients := list, wkRollback := w.wkRollback + 1 }
        let es := es ++ [.acquire (.block list)]
        match o.strdup with
        | none => (none, es ++ createErrCleanup a w)
        | some name =>
          let w := { w with
            wkMqueueName := name, wkMqueueText := mqueueName, wkRollback := w.wkRollback + 1 }
          let es := es ++ [.acquire (.text name)]
          match o.epollCreate with
          | none => (none, es ++ createErrCleanup a w)
          | some epoll =>
            let w := { w with wkEpollFds := epoll, wkRollback := w.wkRollback + 1 }
            let es := es ++ [.acquire (.fd epoll)]
            match o.mqOpen with
            | none => (none, es ++ createErrCleanup a w)
            | some mq =>
              let w := { w with wkMessagequeue := mq, wkRollback := w.wkRollback + 1 }
              -- O_CREAT | O_EXCL: the queue is new
              (some (a, w), es ++ [.acquire (.queue mqueueName), .acquire (.fd mq)])

/-- `worker_thread_destroy`. Its list has no nodes as long as no message has arrived. -/
def workerThreadDestroy (a : Addr) (w : WorkerThread) : Events :=
  .use (.block a) :: fallThrough
    [(6, [.use (.block a), .release (.thread w.wkThreadid)]),
     (5, [.use (.block a), .release (.fd w.wkMessagequeue),
        .use (.block a), .use (.text w.wkMqueueName), .release (.queue w.wkMqueueText)]),
     (4, [.use (.block a), .release (.fd w.wkEpollFds)]),
     (3, [.use (.block a), .release (.text w.wkMqueueName)]),
     (2, [.use (.block a), .release (.block w.wkClients)]),
     (1, [.use (.block a), .release (.fd w.wkTermsig)]),
     (0, [.use (.block a), .release (.block a)])] w.wkRollback

/-- The name that `server_init` gives to the queue of its worker `l`; `%d` prints `(int) l`. -/
def threadMsgqueue (l : ℕ) : String :=
  "/__msgqueue_thread_" ++ toString (Int.bmod l (2 ^ 32)) ++ "__"

/-! ## What a worker holds -/

/-- The resources of level `n`, the latest first. -/
def WorkerThread.level (a : Addr) (w : WorkerThread) : ℕ → List Resource
  | 0 => [.block a]
  | 1 => [.fd w.wkTermsig]
  | 2 => [.block w.wkClients]
  | 3 => [.text w.wkMqueueName]
  | 4 => [.fd w.wkEpollFds]
  | 5 => [.fd w.wkMessagequeue, .queue w.wkMqueueText]
  | 6 => [.thread w.wkThreadid]
  | _ => []

/-- The resources of all levels up to `n`. -/
def WorkerThread.upTo (a : Addr) (w : WorkerThread) : ℕ → List Resource
  | 0 => w.level a 0
  | n + 1 => w.level a (n + 1) ++ w.upTo a n

/-- What a worker holds. -/
def WorkerThread.resources (a : Addr) (w : WorkerThread) : Multiset Resource :=
  w.upTo a w.wkRollback

section specs

variable {a : Addr} {w : WorkerThread}

theorem settle_createErrCleanup (h : w.wkRollback ≤ 4) :
    settle (w.resources a) (createErrCleanup a w) = some 0 := by
  obtain ⟨n, hn⟩ : ∃ n, w.wkRollback = n := ⟨_, rfl⟩
  rw [hn] at h
  rw [WorkerThread.resources, createErrCleanup, hn]
  interval_cases n <;> simp [WorkerThread.upTo, WorkerThread.level, fallThrough, settle]

/-- Destroying a worker releases what it holds. -/
theorem settle_workerThreadDestroy (h : w.wkRollback ≤ 6) :
    settle (w.resources a) (workerThreadDestroy a w) = some 0 := by
  obtain ⟨n, hn⟩ : ∃ n, w.wkRollback = n := ⟨_, rfl⟩
  rw [hn] at h
  rw [WorkerThread.resources, workerThreadDestroy, hn]
  interval_cases n <;> simp [WorkerThread.upTo, WorkerThread.level, fallThrough, settle]

/-- A worker that could not be created has left nothing behind. -/
theorem settle_create_null {name : String} {o : CreateCalls} {es : Events}
    (h : workerThreadCreate name o = (none, es)) : settle 0 es = some 0 := by
  obtain ⟨block, eventfd, list, text, epoll, mq⟩ := o
  cases block with
  | none =>
    obtain ⟨-, rfl⟩ := Prod.mk.inj h
    rfl
  | some a =>
    -- what was acquired before the failure is what the error exit releases
    have hexit : ∀ {es : Events} {w : WorkerThread} (level : ℕ), w.wkRollback = level →
        level ≤ 4 → settle 0 es = some (w.resources a) →
        settle 0 (es ++ createErrCleanup a w) = some 0 :=
      fun level hw hle hes => settle_trans hes (settle_createErrCleanup (hw ▸ hle))
    cases eventfd with
    | none =>
      obtain ⟨-, rfl⟩ := Prod.mk.inj h
      exact hexit 0 rfl (by decide) rfl
    | some fd =>
      cases list with
      | none =>
        obtain ⟨-, rfl⟩ := Prod.mk.inj h
        exact hexit 1 rfl (by decide) rfl
      | some list =>
        cases text with
        | none =>
          obtain ⟨-, rfl⟩ := Prod.mk.inj h
          exact hexit 2 rfl (by decide) rfl
        | some text =>
          cases epoll with
          | none =>
            obtain ⟨-, rfl⟩ := Prod.mk.inj h
            exact hexit 3 rfl (by decide) rfl
          | some epoll =>
            cases mq with
            | none =>
              obtain ⟨-, rfl⟩ := Prod.mk.inj h
              exact hexit 4 rfl (by decide) rfl
            | some mq => cases (Prod.mk.inj h).1

/-- What a created worker is, and that it holds what was acquired. -/
theorem settle_create {name : String} {o : CreateCalls} {es : Events}
    (h : workerThreadCreate name o = (some (a, w), es)) :
    settle 0 es = some (w.resources a) ∧ o.alMemAlloc = some a ∧ o.eventfd = some w.wkTermsig ∧
      w.wkRollback = 5 ∧ w.wkQuitflag = false := by
  obtain ⟨block, eventfd, list, text, epoll, mq⟩ := o
  cases block <;> cases eventfd <;> cases list <;> cases text <;> cases epoll <;> cases mq <;>
    simp only [workerThreadCreate, Prod.mk.injEq, Option.some.injEq, reduceCtorEq, false_and] at h
  obtain ⟨⟨rfl, rfl⟩, rfl⟩ := h
  exact ⟨rfl, rfl, rfl, rfl, rfl⟩

/-- The counter aside, starting a thread adds the thread to what a worker holds. -/
theorem resources_started (hw : w.wkRollback = 5) (t : ThreadId) (e : Fd) :
    ({ w with wkReadyevent := e, wkThreadid := t, wkRollback := 6 } : WorkerThread).resources a
      = .thread t ::ₘ w.resources a := by
  rw [WorkerThread.resources, WorkerThread.resources, hw]
  rfl

/-- The structure itself is among what a worker holds. -/
theorem block_mem_resources : .block a ∈ w.resources a := by
  have hmem : ∀ n, .block a ∈ w.upTo a n := by
    intro n
    induction n with
    | zero => simp [WorkerThread.upTo, WorkerThread.level]
    | succ n ih => exact List.mem_append_right _ ih
  exact hmem w.wkRollback

end specs

end AioServer.Linux
