import AioServer.Linux.Server
import Mathlib.Logic.Function.Basic

/-!
# The Linux server: its threads

`server_impl_linux.c` runs the starting thread (`server_start_and_run`) and one thread for
each worker (`worker_thread_proc`). A new thread reports whether it could set itself up
through the event descriptor `sv_threadrdy_eventfds`, which all threads share; at the end
each worker is told to quit through an event descriptor of its own.

* `eventfdWrite` is the counter behind an event descriptor;
* `MainPc`, `ThreadPc` name the points between two calls of a thread, with the local
  variables that are still needed there;
* `State` is everything together.

`State.log` is what has happened to the resources so far, and `Thread.reported` what a
thread has written to the shared descriptor; the program does not read either.
-/

namespace AioServer.Linux

open Lib

/-! ## Event descriptors -/

/-- `kThreadInitStatus`. -/
inductive ThreadInitStatus
  | fail
  | ok
deriving DecidableEq, Repr

/-- The number behind the name. -/
def ThreadInitStatus.value : ThreadInitStatus → ℕ
  | .fail => 1
  | .ok => 2

theorem ThreadInitStatus.value_pos (st : ThreadInitStatus) : 0 < st.value := by
  cases st <;> decide

/-- The greatest value of a counter. -/
def eventfdMax : ℕ := 2 ^ 64 - 2

/-- `write` to an event descriptor adds to its counter. It fails with `EAGAIN` or blocks
where the counter would exceed its greatest value. -/
def eventfdWrite (counter value : ℕ) : Option ℕ :=
  if counter + value ≤ eventfdMax then some (counter + value) else none

/-! ## Program points -/

/-- The starting thread: `server_init`, its worker `l` with `current`, the loop of
`server_start_accepting_clients` with the events that are not dispatched yet, and
`server_cleanup`. -/
inductive MainPc
  | init
  | create (l : ℕ)
  | pthreadCreate (l : ℕ) (current : Addr)
  | readStatus (l : ℕ) (current : Addr)
  | destroy (l : ℕ) (current : Addr)
  | epollWait
  | dispatch (events : List Fd)
  | accept (events : List Fd)
  | notify (i : ℕ) (events : List Fd)
  | cleanup
  | cleanupWorker (i : ℕ)
  | exited
deriving DecidableEq, Repr

/-- `worker_thread_proc`; `result` counts the registrations that succeeded. -/
inductive ThreadPc
  | addTermsig
  | addMessagequeue (result : ℕ)
  | report (result : ℕ)
  | loop
  | returned
deriving DecidableEq, Repr

/-- A thread and its argument. -/
structure Thread where
  arg : Addr
  pc : ThreadPc
  reported : Option ThreadInitStatus
deriving DecidableEq, Repr

/-! ## The whole system -/

/-- The server, the live `struct worker_thread` blocks, the threads in the order of their
`pthread_create` calls, and the counters of the event descriptors. `crashed` is set by the
first access to a worker that was released. -/
structure State where
  sv : ServerData
  nrProcs : ℕ
  main : MainPc
  workers : Addr → Option WorkerThread
  threads : List Thread
  eventfds : Fd → ℕ
  log : Events
  crashed : Bool

/-- `server_start_and_run` is called. -/
def State.init : State where
  sv := ServerData.zero
  nrProcs := 0
  main := .init
  workers := fun _ => none
  threads := []
  eventfds := fun _ => 0
  log := []
  crashed := false

/-- The counter of `sv_threadrdy_eventfds`. -/
def State.ready (s : State) : ℕ := s.eventfds s.sv.svThreadrdyEventfds

/-- The thread of a worker has returned from `worker_thread_proc`. -/
def State.Returned (s : State) (w : WorkerThread) : Prop :=
  (s.threads[w.wkThreadid]?).map Thread.pc = some .returned

instance (s : State) (w : WorkerThread) : Decidable (s.Returned w) :=
  inferInstanceAs (Decidable (_ = _))

end AioServer.Linux
