import AioServer.Lib.Lts
import AioServer.Linux.State

/-!
# The Linux server: its steps

One step runs a thread from one program point to the next, over at most one call that
another thread can notice. The label says which thread moves and what its calls returned, so
`step` is a function; `none` means that the label cannot happen in that state, because the
thread would block or the system does not answer like that.

A thread that touches a released worker ends in a crashed state, which has no successor.
-/

namespace AioServer.Linux

open Lib

/-! ## Labels -/

/-- What `accept4` returns. -/
inductive AcceptResult
  | socket (fd : Fd)
  | again
  | error
deriving DecidableEq, Repr

/-- The calls of the starting thread, with their outcomes. -/
inductive MainCall
  | serverInit (o : InitCalls)
  | workerThreadCreate (o : CreateCalls)
  | pthreadCreate (ok : Bool)
  | read (ok : Bool)
  | workerThreadDestroy
  /-- `epoll_wait`: `data.fd` of the events, or a failure. -/
  | epollWait (events : Option (List Fd))
  | accept4 (r : AcceptResult)
  | write
  | tau
  /-- A call is interrupted, and made again by `HANDLE_EINTR_ON_SYSCALL`. -/
  | eintr
deriving DecidableEq

/-- An event on the descriptor `wk_termsig`, or on another one of a worker. -/
inductive WorkerEvent
  | signal
  | other
deriving DecidableEq, Repr

/-- The calls of a worker, with their outcomes. -/
inductive ThreadCall
  | epollCtl (ok : Bool)
  | write (ok : Bool)
  | epollWait (events : Option (List WorkerEvent))
  | tau
  | eintr
deriving DecidableEq, Repr

/-- Who moves. -/
inductive Action
  | main (call : MainCall)
  | thread (t : ThreadId) (call : ThreadCall)
deriving DecidableEq

/-! ## Updates of the state -/

/-- Move the starting thread. -/
def State.setMain (s : State) (pc : MainPc) : State := { s with main := pc }

/-- Write the ledger on. -/
def State.record (s : State) (es : Events) : State := { s with log := s.log ++ es }

/-- Store a worker. -/
def State.setWorker (s : State) (a : Addr) (w : WorkerThread) : State :=
  { s with workers := Function.update s.workers a (some w) }

/-- Move a thread. -/
def State.setThread (s : State) (t : ThreadId) (th : Thread) : State :=
  { s with threads := s.threads.set t th }

/-- `pthread_create` with `worker_thread_proc` and the worker `a`. -/
def State.spawn (s : State) (a : Addr) : State :=
  { s with threads := s.threads ++ [⟨a, .addTermsig, none⟩] }

/-- Set the counter of an event descriptor. -/
def State.setEventfd (s : State) (fd : Fd) (counter : ℕ) : State :=
  { s with eventfds := Function.update s.eventfds fd counter }

/-- Continue with a worker, or crash if it was released. -/
def State.withWorker (s : State) (a : Addr) (k : State → WorkerThread → Option State) :
    Option State :=
  let s := s.record [.use (.block a)]
  match s.workers a with
  | none => some { s with crashed := true }
  | some w => k s w

/-- `worker_thread_destroy`, where `pthread_join` waits for the thread. -/
def State.destroyWorker (s : State) (a : Addr) (pc : MainPc) : Option State :=
  s.withWorker a fun s w =>
    if w.wkRollback = 6 ∧ ¬ s.Returned w then none
    else some ({ s with workers := Function.update s.workers a none }.record
      (workerThreadDestroy a w) |>.setMain pc)

/-- What `worker_thread_start` returns when `read` has given it `status`. -/
def workerThreadStartResult (status : Option ℕ) : ℤ :=
  if status = some ThreadInitStatus.ok.value then 0 else -1

/-! ## The starting thread -/

/-- `server_start_and_run` and what it calls. -/
def mainStep (s : State) (call : MainCall) : Option State :=
  match s.main, call with
  | _, .eintr => some s
  -- server_init
  | .init, .serverInit o =>
    match serverInitSetup o with
    | (sv, es, none) => some ({ s with sv := sv }.record es |>.setMain .cleanup)
    | (sv, es, some n) =>
      some ({ s with sv := sv, nrProcs := n }.record es
        |>.setEventfd sv.svThreadrdyEventfds 0 |>.setMain (.create 0))
  | .create l, .workerThreadCreate o =>
    if l < s.nrProcs then
      match workerThreadCreate (threadMsgqueue l) o with
      | (none, es) => some (s.record es |>.setMain (.create (l + 1)))
      | (some (a, w), es) =>
        -- an allocator does not hand out a block that is in use
        if (s.workers a).isSome then none
        else some ((s.setWorker a w).record es |>.setEventfd w.wkTermsig 0
          |>.setMain (.pthreadCreate l a))
    else none
  | .create l, .tau =>
    if l < s.nrProcs then none
    else some (s.setMain (if s.sv.svWorkers = [] then .cleanup else .epollWait))
  -- worker_thread_start
  | .pthreadCreate l a, .pthreadCreate ok =>
    s.withWorker a fun s w =>
      let w := { w with wkReadyevent := s.sv.svThreadrdyEventfds }
      if ok then
        let t := s.threads.length
        let w := { w with wkThreadid := t, wkRollback := w.wkRollback + 1 }
        some ((s.setWorker a w).spawn a |>.record [.acquire (.thread t)]
          |>.setMain (.readStatus l a))
      else some ((s.setWorker a w).setMain (.destroy l a))
  | .readStatus l a, .read ok =>
    -- the descriptor blocks while its counter is 0
    if ok ∧ s.ready = 0 then none
    else
      let status := if ok then some s.ready else none
      let s := if ok then s.setEventfd s.sv.svThreadrdyEventfds 0 else s
      if workerThreadStartResult status = 0 then
        let sv := { s.sv with svWorkers := s.sv.svWorkers ++ [a] }
        some ({ s with sv := sv }.record [.use (.block sv.svWorkersArray)]
          |>.setMain (.create (l + 1)))
      else some (s.setMain (.destroy l a))
  | .destroy l a, .workerThreadDestroy => s.destroyWorker a (.create (l + 1))
  -- server_start_accepting_clients
  | .epollWait, .epollWait none => some (s.setMain .cleanup)
  | .epollWait, .epollWait (some events) => some (s.setMain (.dispatch events))
  | .dispatch events, .tau =>
    if s.sv.svQuitflag then some (s.setMain .cleanup)
    else
      match events with
      | [] => some (s.setMain .epollWait)
      | fd :: events =>
        some (s.setMain (if fd = s.sv.svAcceptfd then .accept events
          else if fd = s.sv.svSigfds then .notify 0 events else .dispatch events))
  -- server_dispatch_event
  | .accept events, .accept4 .again => some (s.setMain (.dispatch events))
  | .accept _, .accept4 .error => some s
  | .accept _, .accept4 (.socket fd) => some (s.record [.acquire (.fd fd)])
  | .notify i events, .write =>
    match s.sv.svWorkers[i]? with
    | none => none
    | some a =>
      (s.record [.use (.block s.sv.svWorkersArray)]).withWorker a fun s w =>
        some ((match eventfdWrite (s.eventfds w.wkTermsig) 1 with
          | none => s
          | some counter => s.setEventfd w.wkTermsig counter).setMain (.notify (i + 1) events))
  | .notify i events, .tau =>
    if i < s.sv.svWorkers.length then none
    else some ({ s with sv := { s.sv with svQuitflag := true } }.setMain (.dispatch events))
  -- server_cleanup
  | .cleanup, .tau =>
    if s.sv.svRollback = 5 then some (s.setMain (.cleanupWorker 0))
    else some (s.record (serverCleanupRest s.sv) |>.setMain .exited)
  | .cleanupWorker i, .workerThreadDestroy =>
    match s.sv.svWorkers[i]? with
    | none => none
    | some a =>
      (s.record [.use (.block s.sv.svWorkersArray)]).destroyWorker a (.cleanupWorker (i + 1))
  | .cleanupWorker i, .tau =>
    if i < s.sv.svWorkers.length then none
    else some (s.record (serverCleanupRest s.sv) |>.setMain .exited)
  | _, _ => none

/-! ## The workers -/

/-- The status that `worker_thread_proc` reports. -/
def initStatus (result : ℕ) : ThreadInitStatus := if result = 2 then .ok else .fail

/-- `worker_thread_proc` and `worker_thread_handle_event`, of the thread `t`. -/
def threadStep (s : State) (t : ThreadId) (th : Thread) (call : ThreadCall) : Option State :=
  match th.pc, call with
  | _, .eintr => some s
  | .addTermsig, .epollCtl ok =>
    s.withWorker th.arg fun s _ =>
      some (s.setThread t { th with pc := .addMessagequeue (if ok then 1 else 0) })
  | .addMessagequeue result, .epollCtl ok =>
    s.withWorker th.arg fun s _ =>
      some (s.setThread t { th with pc := .report (if ok then result + 1 else result) })
  | .report result, .write ok =>
    s.withWorker th.arg fun s w =>
      let st := initStatus result
      let pc : ThreadPc := if result = 2 then .loop else .returned
      if ok then
        match eventfdWrite (s.eventfds w.wkReadyevent) st.value with
        | none => none
        | some counter =>
          some ((s.setEventfd w.wkReadyevent counter).setThread t
            { th with pc := pc, reported := some st })
      else some (s.setThread t { th with pc := pc })
  | .loop, .tau =>
    s.withWorker th.arg fun s w =>
      if w.wkQuitflag then some (s.setThread t { th with pc := .returned }) else none
  | .loop, .epollWait none =>
    s.withWorker th.arg fun s w =>
      if w.wkQuitflag then none else some (s.setThread t { th with pc := .returned })
  | .loop, .epollWait (some events) =>
    s.withWorker th.arg fun s w =>
      if w.wkQuitflag then none
      -- the descriptor is readable while its counter is not 0
      else if .signal ∈ events ∧ s.eventfds w.wkTermsig = 0 then none
      else some (s.setWorker th.arg { w with wkQuitflag := .signal ∈ events })
  | _, _ => none

/-! ## The system -/

/-- One step of the whole system. -/
def step (s : State) (a : Action) : Option State :=
  if s.crashed then none
  else
    match a with
    | .main call => mainStep s call
    | .thread t call =>
      match s.threads[t]? with
      | none => none
      | some th => threadStep s t th call

/-- A run of the server. -/
def ServerRun (tr : List (State × Action)) (s : State) : Prop := Run step State.init tr s

end AioServer.Linux
