import AioServer.Windows.Ownership

/-!
# The Windows server: accounting of accept slots

`sv_outstanding_accepts` is raised by `server_try_post_accept` after a successful `AcceptEx`
and lowered by `server_accept_new_connection`, there only when the setup of the connection
succeeded. Two ledgers over the trace of a run follow from this:

* the counter, plus the increment the accept thread still owes, is the number of posted
  operations minus the number of decrements;
* the calls of `server_accept_new_connection` that are about to return are the decrements
  plus the failed setups, minus the calls that have returned.

So the counter is exact as long as no setup failed, and from the first failed setup on it
is too high, by the number of failed setups.
-/

namespace AioServer.Windows

open Lib

/-! ## Events -/

/-- `AcceptEx` succeeds or is pending. -/
def posts (x : State × Action) : Bool :=
  match x.1.main, x.2 with
  | .postAcceptEx c _, .main (.acceptEx .success) => decide (x.1.Live c)
  | _, _ => false

/-- A worker lowers `sv_outstanding_accepts`. -/
def Action.releases : Action → Bool
  | .worker _ .atomicIncrement => true
  | _ => false

/-- One of the three calls that set up an accepted connection fails. -/
def Action.setupFails : Action → Bool
  | .worker _ (.setsockopt ok) | .worker _ (.createIoCompletionPort ok)
  | .worker _ (.wsaRecv0Bytes ok) => !ok
  | _ => false

/-- The last call of `server_accept_new_connection` is ahead. -/
def WorkerPc.returning : WorkerPc → Bool
  | .acceptMoreClients .newConnection _ _ => true
  | _ => false

/-- `server_accept_new_connection` returns: it has handled the completion of an `AcceptEx`. -/
def handles (x : State × Action) : Bool :=
  match x.2 with
  | .worker i (.postQueuedCompletionStatus _) => x.1.workers[i]?.any fun w => w.pc.returning
  | _ => false

/-- A worker is in the middle of `server_accept_new_connection`. -/
def WorkerPc.acceptsConnection : WorkerPc → Bool
  | .setsockopt _ | .associate _ | .readFromClient _ | .countConnection | .releaseSlot => true
  | pc => pc.returning

/-! ## The two ledgers -/

/-- The accept thread still has to count an operation that it posted. -/
def MainPc.owesIncrement : MainPc → Bool
  | .countAccept _ => true
  | _ => false

/-- The counter after the increment that the accept thread owes. -/
def State.counted (s : State) : ℤ := s.svOutstandingAccepts + s.main.owesIncrement.toNat

/-- The calls of `server_accept_new_connection` that are about to return. -/
def State.returning (s : State) : ℤ := (s.workers.map fun w => (w.pc.returning.toNat : ℤ)).sum

theorem posts_eq_true {s : State} {a : Action} (h : posts (s, a) = true) :
    ∃ c opts, s.main = .postAcceptEx c opts ∧ s.Live c ∧ a = .main (.acceptEx .success) := by
  unfold posts at h
  split at h
  case h_1 c opts hpc ha => exact ⟨c, opts, hpc, by simpa using h, ha⟩
  case h_2 => simp at h

/-- `AcceptEx` is not called with a released client. -/
theorem posts_crash {s : State} {call : MainCall} {c : ClientPtr} (hdead : s.heap c = none)
    (hc : s.main.client = some c ∨ ∃ site x opts, s.main = .removeFromList site x opts ∧
      c ∈ Sequence.compared s.compare x s.svClients) : posts (s, .main call) = false := by
  by_contra hp
  obtain ⟨x, opts, hpc, hl, -⟩ := posts_eq_true (by simpa using hp)
  rcases hc with hc | ⟨site, y, opts', hpc', -⟩
  · obtain rfl : x = c := by simpa [hpc, MainPc.client] using hc
    simp [State.Live, hdead] at hl
  · simp [hpc] at hpc'

/-- Only a decrement changes the counter in a worker. -/
theorem counter_worker {s s' : State} {i : ℕ} {w : Worker} {call : WorkerCall}
    (h : WorkerTrans s i w call s') (hlive : ∀ c, w.pc.client = some c → s.heap c ≠ none) :
    s'.svOutstandingAccepts + (Action.worker i call).releases.toNat = s.svOutstandingAccepts := by
  cases h with
  | releaseSlot hpc => simp [State.setWorker, Action.releases]
  | repost ok hpc => cases ok <;> simp [State.setWorker, serverPostShutDown, Action.releases]
  | acceptMoreClients site cl reuseSocket ok hpc =>
    cases ok <;> simp [State.setWorker, serverAcceptMoreClients, Action.releases]
  | crash call c hdead hc => exact absurd hdead (hlive c hc)
  | _ => simp [State.setWorker, State.setClient, State.issue, Action.releases]

theorem counted_main {m : ℤ} {s s' : State} {call : MainCall} (h : MainTrans m s call s') :
    s'.counted = s.counted + (posts (s, .main call)).toNat := by
  cases h with
  | start ok hpc =>
    cases ok <;>
      simp [State.counted, State.setMain, serverAcceptMoreClients, MainPc.owesIncrement, posts,
        hpc]
  -- the operation is posted here and counted one step later
  | acceptEx c opts cl hpc hc ho =>
    simp [State.counted, State.setMain, State.issue, MainPc.owesIncrement, posts, hpc,
      State.Live, hc]
  | countAccept opts hpc =>
    simp [State.counted, State.setMain, MainPc.owesIncrement, posts, hpc]
  | dequeueFails hpc => simp [posts, hpc]
  | crash call c hdead hc =>
    simp [State.counted, State.crash, posts_crash hdead hc]
  | _ =>
    have hpc := ‹s.main = _›
    simp [State.counted, State.setMain, State.setClient, serverAddClientToList,
      serverRemoveClientFromList, clientDestroy, MainPc.owesIncrement, posts, hpc]

/-- What a step does to the counter. -/
theorem counted_step {m : ℤ} {s s' : State} {a : Action} (hown : s.Owned) (h : Trans m s a s') :
    s'.counted + a.releases.toNat = s.counted + (posts (s, a)).toNat := by
  cases h with
  | main hm => simpa [Action.releases] using counted_main hm
  | @worker i w call s' hw ht =>
    have hc := counter_worker ht fun c hc => hown.worker_live (List.mem_of_getElem? hw) hc
    have hp : posts (s, .worker i call) = false := by simp [posts]
    rw [State.counted, State.counted, (workerTrans_frame ht).main, hp, Bool.toNat_false]
    omega
  | ctrlShutDownIocp ok =>
    cases ok <;> simp [State.counted, serverPostShutDown, Action.releases, posts]
  | _ => simp [State.counted, Action.releases, posts]

theorem returning_setWorker {s t : State} {i : ℕ} {w w' : Worker} {x y : ℤ}
    (hw : s.workers[i]? = some w) (ht : t.workers = s.workers)
    (h : w'.pc.returning.toNat + x = w.pc.returning.toNat + y) :
    (t.setWorker i w').returning + x = s.returning + y := by
  have hset := sum_map_set (fun w => (w.pc.returning.toNat : ℤ)) hw w'
  simp only [State.returning, State.setWorker, ht]
  omega

/-- What a worker's step does to the calls that are about to return. -/
theorem returning_worker {s s' : State} {i : ℕ} {w : Worker} {call : WorkerCall}
    (hw : s.workers[i]? = some w) (h : WorkerTrans s i w call s')
    (hlive : ∀ c, w.pc.client = some c → s.heap c ≠ none) :
    s'.returning + (handles (s, .worker i call)).toNat
      = s.returning + ((Action.worker i call).releases.toNat
        + (Action.worker i call).setupFails.toNat) := by
  cases h with
  | repost ok hpc =>
    refine returning_setWorker hw (by cases ok <;> rfl) ?_
    simp [handles, hw, hpc, WorkerPc.returning, Action.releases, Action.setupFails]
  | acceptMoreClients site cl reuseSocket ok hpc =>
    refine returning_setWorker hw (by cases ok <;> rfl) ?_
    simp [handles, hw, hpc, WorkerPc.returning, Action.releases, Action.setupFails]
  -- a failure jumps over the decrement
  | setsockopt c cl ok hpc hc =>
    refine returning_setWorker hw rfl ?_
    cases ok <;>
      simp [handles, hpc, WorkerPc.returning, Action.releases, Action.setupFails]
  | dispatch n cl hpc hc =>
    refine returning_setWorker hw rfl ?_
    have hno : (serverProcessCompletion n cl.aioOpcode).returning = false :=
      serverProcessCompletion_of (P := fun pc => pc.returning = false) _ rfl rfl rfl rfl rfl
    simpa [handles, hpc, WorkerPc.returning, Action.releases, Action.setupFails] using hno
  | openFile c cl path hd hpc hc =>
    refine returning_setWorker hw rfl ?_
    have hno : (if hd = invalidHandleValue then WorkerPc.transmit c else .querySize c).returning
        = false := by
      split <;> rfl
    simpa [handles, hpc, WorkerPc.returning, Action.releases, Action.setupFails] using hno
  | crash call c hdead hc => exact absurd hdead (hlive c hc)
  | _ =>
    have hpc := ‹w.pc = _›
    refine returning_setWorker hw rfl ?_
    simp [handles, hpc, WorkerPc.returning, Action.releases, Action.setupFails]

/-- What a step does to the calls that are about to return. -/
theorem returning_step {m : ℤ} {s s' : State} {a : Action} (hown : s.Owned)
    (h : Trans m s a s') :
    s'.returning + (handles (s, a)).toNat
      = s.returning + (a.releases.toNat + a.setupFails.toNat) := by
  cases h with
  | main hm =>
    have hws : s'.workers = s.workers := workers_mainTrans hm
    simp [State.returning, hws, handles, Action.releases, Action.setupFails]
  | worker hw ht =>
    exact returning_worker hw ht fun c hc => hown.worker_live (List.mem_of_getElem? hw) hc
  | ctrlShutDownIocp ok =>
    cases ok <;>
      simp [State.returning, serverPostShutDown, handles, Action.releases, Action.setupFails]
  | _ => simp [State.returning, handles, Action.releases, Action.setupFails]

theorem returning_of_not_acceptsConnection {pc : WorkerPc} (h : pc.acceptsConnection = false) :
    pc.returning = false := by
  unfold WorkerPc.acceptsConnection at h
  split at h <;> simp_all

section run

variable {m : ℤ} {svSock : Socket} {n : ℕ} {tr : List (State × Action)} {s : State}

/-- The counter is the number of posts minus the number of decrements. -/
theorem ServerRun.counted (hrun : ServerRun m svSock n tr s) :
    s.counted + tr.countP (fun x => x.2.releases) = tr.countP posts := by
  have h := Run.ledger State.counted (fun x => (posts x).toNat)
    (fun x => x.2.releases.toNat) hrun (fun _ _ hr => ServerRun.owned hr)
    fun s a s' hown hs => counted_step hown (trans_of_step hs).2
  rw [sum_map_toNat, sum_map_toNat] at h
  simpa [State.counted, State.init, MainPc.owesIncrement] using h

/-- The calls that are about to return are those that lowered the counter or failed, minus
those that have returned. -/
theorem ServerRun.returning (hrun : ServerRun m svSock n tr s) :
    s.returning + tr.countP handles
      = tr.countP (fun x => x.2.releases) + tr.countP fun x => x.2.setupFails := by
  have h := Run.ledger State.returning
    (fun x => x.2.releases.toNat + x.2.setupFails.toNat)
    (fun x => (handles x).toNat) hrun (fun _ _ hr => ServerRun.owned hr)
    fun s a s' hown hs => returning_step hown (trans_of_step hs).2
  rw [sum_map_toNat, List.sum_map_add, sum_map_toNat, sum_map_toNat] at h
  simpa [State.returning, State.init, WorkerPc.returning] using h

/-- Where the accept thread compares the counter with the limit, and no worker is in the
middle of `server_accept_new_connection`, the counter is the number of posted operations
whose completion was not handled if and only if no setup of a connection has failed. -/
theorem ServerRun.outstandingAccepts_eq_iff (hrun : ServerRun m svSock n tr s)
    {cli : Option ClientPtr} {opts : Bool} (hmain : s.main = .guard cli opts)
    (hidle : ∀ w ∈ s.workers, w.pc.acceptsConnection = false) :
    s.svOutstandingAccepts = tr.countP posts - tr.countP handles ↔
      ∀ x ∈ tr, x.2.setupFails = false := by
  have h1 := hrun.counted
  have h2 := hrun.returning
  have hret : s.returning = 0 := by
    refine List.sum_eq_zero fun y hy => ?_
    obtain ⟨w, hw, rfl⟩ := List.mem_map.mp hy
    rw [returning_of_not_acceptsConnection (hidle w hw)]
    rfl
  have hc : s.counted = s.svOutstandingAccepts := by
    simp [State.counted, hmain, MainPc.owesIncrement]
  have hfail : tr.countP (fun x => x.2.setupFails) = 0 ↔ ∀ x ∈ tr, x.2.setupFails = false := by
    simp [List.countP_eq_zero]
  rw [← hfail]
  omega

end run

/-- One client is created and posted, a connection arrives on its socket, and a worker is
about to set it up. -/
def acceptedClient : List Action :=
  [.main (.postQueuedCompletionStatus true), .main (.getQueuedCompletionStatus true),
    .main .atomicLoad, .main (.clientCreate (some 5) true 7), .main (.dlistPushHead true),
    .main (.acceptEx .success), .main .atomicIncrement, .complete 0 0,
    .worker 0 (.getQueuedCompletionStatusEx (some 1)), .worker 0 .tau, .worker 0 .tau]

/-- A connection is set up, and the 0-byte receive has completed. -/
def requestArrives : List Action :=
  acceptedClient ++ [.worker 0 (.setsockopt true), .worker 0 (.createIoCompletionPort true),
    .worker 0 (.wsaRecv0Bytes true), .worker 0 .updateStats, .worker 0 .atomicIncrement,
    .worker 0 (.postQueuedCompletionStatus true), .worker 0 .tau, .complete 0 0,
    .worker 0 (.getQueuedCompletionStatusEx (some 1))]

/-- A connection is set up, its request arrives, and the file is sent. -/
def servedRequest : List Action :=
  requestArrives ++ [.worker 0 .tau, .worker 0 .tau, .worker 0 (.wsaRecv (some (some [47]))),
    .worker 0 (.createFile 9), .worker 0 (.getFileSizeEx true), .worker 0 (.transmitFile true),
    .worker 0 (.postQueuedCompletionStatus true), .worker 0 .tau, .complete 0 100,
    .worker 0 (.getQueuedCompletionStatusEx (some 1)), .worker 0 .tau, .worker 0 .tau,
    .worker 0 .updateStats, .worker 0 .tau, .worker 0 (.postQueuedCompletionStatus true),
    .worker 0 .tau]

/-- The setup succeeds and the slot is given back. -/
theorem outstandingAccepts_after_setup : ∃ tr s, ServerRun 1 1 1 tr s ∧
    s.svOutstandingAccepts = 0 ∧ s.svOutstandingAccepts = tr.countP posts - tr.countP handles := by
  have hrun : ∃ tr s, ServerRun 1 1 1 tr s ∧ s.main = .guard none false ∧
      (∀ w ∈ s.workers, w.pc.acceptsConnection = false) ∧ s.svOutstandingAccepts = 0 ∧
      ∀ x ∈ tr, x.2.setupFails = false :=
    ⟨_, _, run_of_exec (show exec (step 1) (State.init 1 1) (acceptedClient ++
      [.worker 0 (.setsockopt true), .worker 0 (.createIoCompletionPort true),
        .worker 0 (.wsaRecv0Bytes true), .worker 0 .updateStats, .worker 0 .atomicIncrement,
        .worker 0 (.postQueuedCompletionStatus true)]) = some (_, _) from rfl),
      rfl, by decide, rfl, by decide⟩
  obtain ⟨tr, s, hrun, hmain, hidle, hcount, hok⟩ := hrun
  exact ⟨tr, s, hrun, hcount, (hrun.outstandingAccepts_eq_iff hmain hidle).mpr hok⟩

/-- When `setsockopt` fails the worker hands the client back without lowering the counter:
the one operation has been handled and still counts. -/
theorem failed_setup_keeps_slot : ¬ ∀ (m : ℤ) (svSock : Socket) (n : ℕ)
    (tr : List (State × Action)) (s : State) (cli : Option ClientPtr) (opts : Bool),
    ServerRun m svSock n tr s → s.main = .guard cli opts →
    (∀ w ∈ s.workers, w.pc.acceptsConnection = false) →
    s.svOutstandingAccepts = tr.countP posts - tr.countP handles := by
  intro h
  have hrun : ∃ tr s, ServerRun 1 1 1 tr s ∧ s.main = .guard none false ∧
      (∀ w ∈ s.workers, w.pc.acceptsConnection = false) ∧
      s.svOutstandingAccepts = 1 ∧ tr.countP posts = 1 ∧ tr.countP handles = 1 :=
    ⟨_, _, run_of_exec (show exec (step 1) (State.init 1 1) (acceptedClient ++
      [.worker 0 (.setsockopt false), .worker 0 (.postQueuedCompletionStatus true)])
      = some (_, _) from rfl), rfl, by decide, rfl, rfl, rfl⟩
  obtain ⟨tr, s, hrun, hmain, hidle, hcount, hposts, hhandles⟩ := hrun
  have hexact := h 1 1 1 tr s none false hrun hmain hidle
  rw [hcount, hposts, hhandles] at hexact
  exact absurd hexact (by decide)

end AioServer.Windows
