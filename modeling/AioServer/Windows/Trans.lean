import AioServer.Windows.Step

/-!
# The Windows server: what a step can do

`MainTrans`, `WorkerTrans` and `Trans` list the transitions of `step` with their guards and
their effects; `trans_of_step` is the only place where the step functions are unfolded. The
invariants are proved by cases on these relations.
-/

namespace AioServer.Windows

/-! ## Pointers in the hand of a thread -/

/-- The client the accept thread is working on. -/
def MainPc.client : MainPc → Option ClientPtr
  | .guard cli _ => cli
  | .reinit c _ | .addToList c _ | .postAcceptEx c _ | .retry c _
  | .removeFromList _ c _ | .destroy _ c _ => some c
  | .start | .wait | .create _ | .countAccept _ | .left => none

/-- The client a worker is working on. -/
def WorkerPc.client : WorkerPc → Option ClientPtr
  | .dispatch n => some n.cl
  | .setsockopt c | .associate c | .readFromClient c | .recvRequest c | .openResource c _
  | .querySize c | .transmit c | .countTransfer c _ | .markReused c => some c
  | .acceptMoreClients _ cl _ => cl
  | .dequeue | .examine | .countConnection | .releaseSlot | .stopReceived | .left => none

/-! ## The functions on one client -/

/-- What `client_reinit` does to a client `cl` when it is given the socket `sock`. -/
structure Reinit (c : ClientPtr) (cl : Client) (sockets : SocketTable) (reuseSocket : Bool)
    (sock : Socket) (r : ReinitResult) : Prop where
  clnt : r.clnt = some c
  opcode : r.client.aioOpcode = .connection
  file : r.client.clFile = invalidHandleValue
  tracked : r.client.clIsTracked = cl.clIsTracked
  reuse : reuseSocket = true → r.client.clSock = cl.clSock ∧
    r.client.clSockReused = cl.clSockReused ∧ r.sockets = sockets ∧ r.ret = true
  replace : reuseSocket = false →
    r.client.clSock = sock ∧ r.ret = decide (sock ≠ invalidSocket) ∧
    r.client.clSockReused = (cl.clSockReused && decide (cl.clSock = invalidSocket)) ∧
    createOverlappedSocket
      (if cl.clSock ≠ invalidSocket then closesocket sockets cl.clSock else sockets) sock
      = some r.sockets

theorem reinit_of_clientReinit {c : ClientPtr} {cl : Client} {sockets : SocketTable}
    {reuseSocket : Bool} {sock : Socket} {r : ReinitResult}
    (h : clientReinit c cl sockets reuseSocket sock = some r) :
    Reinit c cl sockets reuseSocket sock r := by
  unfold clientReinit at h
  cases reuseSocket with
  | true =>
    obtain rfl := by simpa using h.symm
    constructor <;> (try split) <;> simp_all
  | false =>
    simp only [Bool.false_eq_true, if_false, Option.map_eq_some_iff] at h
    obtain ⟨t, ht, rfl⟩ := h
    by_cases hs : cl.clSock = invalidSocket <;> by_cases hf : cl.clFile = invalidHandleValue <;>
      constructor <;> simp_all

/-! ## The accept thread -/

/-- The transitions of the accept thread. -/
inductive MainTrans (m : ℤ) (s : State) : MainCall → State → Prop
  | start (ok) (hpc : s.main = .start) :
    MainTrans m s (.postQueuedCompletionStatus ok)
      ((serverAcceptMoreClients s none false ok).setMain .wait)
  | dequeueFails (hpc : s.main = .wait) : MainTrans m s (.getQueuedCompletionStatus false) s
  | takeShutDown (rest) (hpc : s.main = .wait) (hq : s.svIocpAccept = .shutDown :: rest) :
    MainTrans m s (.getQueuedCompletionStatus true)
      ({ s with svIocpAccept := rest }.setMain .left)
  | takePostAccept (cli opts rest) (hpc : s.main = .wait)
    (hq : s.svIocpAccept = .postAccept cli opts :: rest) :
    MainTrans m s (.getQueuedCompletionStatus true)
      ({ s with svIocpAccept := rest }.setMain (.guard cli opts))
  | enoughFree (c opts) (hpc : s.main = .guard (some c) opts) (hm : m ≤ s.svOutstandingAccepts) :
    MainTrans m s .atomicLoad (s.setMain (.removeFromList .enoughPending c opts))
  | enoughIdle (opts) (hpc : s.main = .guard none opts) (hm : m ≤ s.svOutstandingAccepts) :
    MainTrans m s .atomicLoad (s.setMain .wait)
  | wantReuse (c opts) (hpc : s.main = .guard (some c) opts) (hm : s.svOutstandingAccepts < m) :
    MainTrans m s .atomicLoad (s.setMain (.reinit c opts))
  | wantFresh (opts) (hpc : s.main = .guard none opts) (hm : s.svOutstandingAccepts < m) :
    MainTrans m s .atomicLoad (s.setMain (.create opts))
  | reinit (c opts cl sock r) (hpc : s.main = .reinit c opts) (hc : s.heap c = some cl)
    (hr : Reinit c cl s.sockets opts sock r) :
    MainTrans m s (.clientReinit sock)
      ({ s.setClient c r.client with sockets := r.sockets }.setMain (.postAcceptEx c opts))
  | createFails (opts block buffer sock) (hpc : s.main = .create opts)
    (hf : block = none ∨ buffer = false ∨ sock = invalidSocket) :
    MainTrans m s (.clientCreate block buffer sock) (s.setMain .wait)
  | create (opts c sock sockets) (hpc : s.main = .create opts) (hc : s.heap c = none)
    (hsock : sock ≠ invalidSocket)
    (ht : createOverlappedSocket s.sockets sock = some sockets) :
    MainTrans m s (.clientCreate (some c) true sock)
      ({ s.setClient c (newClient sock) with sockets := sockets }.setMain (.addToList c opts))
  | addToList (c opts cl node) (hpc : s.main = .addToList c opts) (hc : s.heap c = some cl) :
    MainTrans m s (.dlistPushHead node)
      ((serverAddClientToList s c cl node).setMain (.postAcceptEx c opts))
  | acceptEx (c opts cl) (hpc : s.main = .postAcceptEx c opts) (hc : s.heap c = some cl)
    (ho : s.sockets cl.clSock ≠ none) :
    MainTrans m s (.acceptEx .success) ((s.issue c .acceptEx).setMain (.countAccept opts))
  | acceptExReset (c opts cl) (hpc : s.main = .postAcceptEx c opts) (hc : s.heap c = some cl) :
    MainTrans m s (.acceptEx .connReset) (s.setMain (.retry c opts))
  | acceptExFails (c opts cl) (hpc : s.main = .postAcceptEx c opts) (hc : s.heap c = some cl) :
    MainTrans m s (.acceptEx .failed) (s.setMain (.removeFromList .acceptExFailed c opts))
  | countAccept (opts) (hpc : s.main = .countAccept opts) :
    MainTrans m s .atomicIncrement
      ({ s with svOutstandingAccepts := s.svOutstandingAccepts + 1 }.setMain (.guard none opts))
  | retry (c opts cl sock r) (hpc : s.main = .retry c opts) (hc : s.heap c = some cl)
    (hr : Reinit c cl s.sockets false sock r) :
    MainTrans m s (.clientReinit sock)
      ({ s.setClient c r.client with sockets := r.sockets }.setMain (.postAcceptEx c opts))
  | removeFromList (site c opts cl) (hpc : s.main = .removeFromList site c opts)
    (hc : s.heap c = some cl)
    (hv : ∀ x ∈ Sequence.compared s.compare c s.svClients, s.Live x) :
    MainTrans m s .dlistRemoveItem
      ((serverRemoveClientFromList s c cl).setMain (.destroy site c opts))
  | destroyEnough (c opts cl) (hpc : s.main = .destroy .enoughPending c opts)
    (hc : s.heap c = some cl) :
    MainTrans m s .clientDestroy ((clientDestroy s c cl).setMain .wait)
  | destroyFailed (c opts cl) (hpc : s.main = .destroy .acceptExFailed c opts)
    (hc : s.heap c = some cl) :
    MainTrans m s .clientDestroy ((clientDestroy s c cl).setMain (.postAcceptEx c opts))
  | crash (call c) (hdead : s.heap c = none)
    (hc : s.main.client = some c ∨ ∃ site x opts, s.main = .removeFromList site x opts ∧
      c ∈ Sequence.compared s.compare x s.svClients) :
    MainTrans m s call s.crash

theorem withClient_eq_some {s s' : State} {c : ClientPtr} {k : Client → Option State} :
    s.withClient c k = some s' ↔
      s.heap c = none ∧ s' = s.crash ∨ ∃ cl, s.heap c = some cl ∧ k cl = some s' := by
  unfold State.withClient
  cases s.heap c <;> simp [eq_comm]

theorem mainTrans_of_mainStep {m : ℤ} {s s' : State} {call : MainCall}
    (h : mainStep m s call = some s') : MainTrans m s call s' := by
  unfold mainStep at h
  split at h
  case h_1 ok hpc =>
    cases h
    exact .start ok hpc
  case h_2 hpc =>
    cases h
    exact .dequeueFails hpc
  case h_3 hpc =>
    split at h
    · simp at h
    · cases h
      exact .takeShutDown _ hpc ‹_›
    · cases h
      exact .takePostAccept _ _ _ hpc ‹_›
  case h_4 cli opts hpc =>
    split at h <;> cases h
    · next hm => exact .enoughFree _ _ hpc (by simpa using hm)
    · next hm => exact .enoughIdle _ hpc (by simpa using hm)
    · next hm => exact .wantReuse _ _ hpc (by simpa using hm)
    · next hm => exact .wantFresh _ hpc (by simpa using hm)
  case h_5 c opts sock hpc =>
    rcases withClient_eq_some.mp h with ⟨hc, rfl⟩ | ⟨cl, hc, h⟩
    · exact .crash _ c hc (Or.inl (by simp [hpc, MainPc.client]))
    obtain ⟨r, hr, rfl⟩ := Option.map_eq_some_iff.mp h
    have hr' := reinit_of_clientReinit hr
    simp only [hr'.clnt]
    exact .reinit c opts cl sock r hpc hc hr'
  case h_6 opts block buffer sock hpc =>
    obtain ⟨⟨c, t⟩, hr, rfl⟩ := Option.map_eq_some_iff.mp h
    unfold clientCreate at hr
    split at hr
    · cases hr
      exact .createFails opts _ buffer sock hpc (Or.inl rfl)
    · split_ifs at hr with hfree hbuf hs
      · cases hr
        exact .createFails opts _ buffer sock hpc (Or.inr (Or.inl (by simpa using hbuf)))
      · obtain ⟨sockets, -, hr⟩ := Option.map_eq_some_iff.mp hr
        cases hr
        exact .createFails opts _ buffer sock hpc (Or.inr (Or.inr hs))
      · obtain ⟨sockets, ht, hr⟩ := Option.map_eq_some_iff.mp hr
        cases hr
        obtain rfl : buffer = true := by simpa using hbuf
        exact .create opts _ sock sockets hpc (by simpa using hfree) hs ht
  case h_7 c opts node hpc =>
    rcases withClient_eq_some.mp h with ⟨hc, rfl⟩ | ⟨cl, hc, h⟩
    · exact .crash _ c hc (Or.inl (by simp [hpc, MainPc.client]))
    cases h
    exact .addToList c opts cl node hpc hc
  case h_8 c opts hpc =>
    rcases withClient_eq_some.mp h with ⟨hc, rfl⟩ | ⟨cl, hc, h⟩
    · exact .crash _ c hc (Or.inl (by simp [hpc, MainPc.client]))
    split_ifs at h with ho
    cases h
    exact .acceptEx c opts cl hpc hc ho
  case h_9 c opts hpc =>
    rcases withClient_eq_some.mp h with ⟨hc, rfl⟩ | ⟨cl, hc, h⟩
    · exact .crash _ c hc (Or.inl (by simp [hpc, MainPc.client]))
    cases h
    exact .acceptExReset c opts cl hpc hc
  case h_10 c opts hpc =>
    rcases withClient_eq_some.mp h with ⟨hc, rfl⟩ | ⟨cl, hc, h⟩
    · exact .crash _ c hc (Or.inl (by simp [hpc, MainPc.client]))
    cases h
    exact .acceptExFails c opts cl hpc hc
  case h_11 opts hpc =>
    cases h
    exact .countAccept opts hpc
  case h_12 c opts sock hpc =>
    rcases withClient_eq_some.mp h with ⟨hc, rfl⟩ | ⟨cl, hc, h⟩
    · exact .crash _ c hc (Or.inl (by simp [hpc, MainPc.client]))
    obtain ⟨r, hr, rfl⟩ := Option.map_eq_some_iff.mp h
    have hr' := reinit_of_clientReinit hr
    simp only [hr'.clnt]
    exact .retry c opts cl sock r hpc hc hr'
  case h_13 site c opts hpc =>
    rcases withClient_eq_some.mp h with ⟨hc, rfl⟩ | ⟨cl, hc, h⟩
    · exact .crash _ c hc (Or.inl (by simp [hpc, MainPc.client]))
    split_ifs at h with hv
    · cases h
      exact .removeFromList site c opts cl hpc hc (by simpa [State.Live] using hv)
    · cases h
      simp only [List.all_eq_true, not_forall] at hv
      obtain ⟨x, hx, hdead⟩ := hv
      exact .crash _ x (by simpa using hdead) (Or.inr ⟨site, c, opts, hpc, hx⟩)
  case h_14 site c opts hpc =>
    rcases withClient_eq_some.mp h with ⟨hc, rfl⟩ | ⟨cl, hc, h⟩
    · exact .crash _ c hc (Or.inl (by simp [hpc, MainPc.client]))
    cases site <;> cases h
    · exact .destroyEnough c opts cl hpc hc
    · exact .destroyFailed c opts cl hpc hc
  case h_15 => simp at h

theorem workers_mainTrans {m : ℤ} {s s' : State} {call : MainCall} (h : MainTrans m s call s') :
    s'.workers = s.workers := by
  cases h with
  | start ok => cases ok <;> rfl
  | _ => rfl

/-! ## The workers -/

/-- The handlers of `server_process_completions`, as a rule for properties of the next point. -/
theorem serverProcessCompletion_of {P : WorkerPc → Prop} {n : Completion} (opcode : IOOpcode)
    (hempty : P (.acceptMoreClients .emptyTransfer (some n.cl) false))
    (hconnection : P (.setsockopt n.cl)) (hrecv : P (.recvRequest n.cl))
    (hwrite : P (.countTransfer n.cl n.bytes)) (hread : P .examine) :
    P (serverProcessCompletion n opcode) := by
  rw [serverProcessCompletion.eq_def]
  split
  · exact hempty
  · cases opcode with
    | connection => exact hconnection
    | sockRead => exact hread
    | sockWrite => exact hwrite
    | sock0BytesRecv => exact hrecv

/-- The transitions of worker `i` in the local state `w`. -/
inductive WorkerTrans (s : State) (i : ℕ) (w : Worker) : WorkerCall → State → Prop
  | dequeueFails (hpc : w.pc = .dequeue) :
    WorkerTrans s i w (.getQueuedCompletionStatusEx none) (s.setWorker i { w with pc := .left })
  | dequeue (k) (hpc : w.pc = .dequeue) (h0 : 0 < k) (hmax : k ≤ kMaxCompletionCount)
    (hk : k ≤ s.svIocp.length) :
    WorkerTrans s i w (.getQueuedCompletionStatusEx (some k))
      ({ s with svIocp := s.svIocp.drop k }.setWorker i ⟨.examine, s.svIocp.take k⟩)
  | repost (ok) (hpc : w.pc = .stopReceived) :
    WorkerTrans s i w (.postQueuedCompletionStatus ok)
      ((serverPostShutDown s ok).setWorker i { w with pc := .left })
  | batchDone (hpc : w.pc = .examine) (hb : w.batch = []) :
    WorkerTrans s i w .tau (s.setWorker i ⟨.dequeue, []⟩)
  | stop (rest) (hpc : w.pc = .examine) (hb : w.batch = .shutDown :: rest) :
    WorkerTrans s i w .tau (s.setWorker i ⟨.stopReceived, []⟩)
  | take (n rest) (hpc : w.pc = .examine) (hb : w.batch = .completion n :: rest) :
    WorkerTrans s i w .tau (s.setWorker i ⟨.dispatch n, rest⟩)
  | dispatch (n cl) (hpc : w.pc = .dispatch n) (hc : s.heap n.cl = some cl) :
    WorkerTrans s i w .tau
      (s.setWorker i { w with pc := serverProcessCompletion n cl.aioOpcode })
  | setsockopt (c cl ok) (hpc : w.pc = .setsockopt c) (hc : s.heap c = some cl) :
    WorkerTrans s i w (.setsockopt ok)
      (s.setWorker i { w with
        pc := if ok then .associate c else .acceptMoreClients .newConnection (some c) false })
  | associated (c cl) (hpc : w.pc = .associate c) (hc : s.heap c = some cl)
    (hr : cl.clSockReused = true) :
    WorkerTrans s i w .tau (s.setWorker i { w with pc := .readFromClient c })
  | associate (c cl) (hpc : w.pc = .associate c) (hc : s.heap c = some cl)
    (hr : cl.clSockReused = false) (ho : s.sockets cl.clSock = some false) :
    WorkerTrans s i w (.createIoCompletionPort true)
      ({ s with sockets := Function.update s.sockets cl.clSock (some true) }.setWorker i
        { w with pc := .readFromClient c })
  | associateFails (c cl) (hpc : w.pc = .associate c) (hc : s.heap c = some cl)
    (hr : cl.clSockReused = false) :
    WorkerTrans s i w (.createIoCompletionPort false)
      (s.setWorker i { w with pc := .acceptMoreClients .newConnection (some c) false })
  | read (c cl) (hpc : w.pc = .readFromClient c) (hc : s.heap c = some cl) :
    WorkerTrans s i w (.wsaRecv0Bytes true)
      (((s.setClient c { cl with aioOpcode := .sock0BytesRecv }).issue c .wsaRecv).setWorker i
        { w with pc := .countConnection })
  | readFails (c cl) (hpc : w.pc = .readFromClient c) (hc : s.heap c = some cl) :
    WorkerTrans s i w (.wsaRecv0Bytes false)
      ((s.setClient c { cl with aioOpcode := .sock0BytesRecv }).setWorker i
        { w with pc := .acceptMoreClients .newConnection (some c) false })
  | countConnection (hpc : w.pc = .countConnection) :
    WorkerTrans s i w .updateStats
      ({ s with svStats := serverUpdateStats s.svStats .addConnection }.setWorker i
        { w with pc := .releaseSlot })
  | releaseSlot (hpc : w.pc = .releaseSlot) :
    WorkerTrans s i w .atomicIncrement
      ({ s with svOutstandingAccepts := s.svOutstandingAccepts + -1 }.setWorker i
        { w with pc := .acceptMoreClients .newConnection none false })
  | recvFails (c cl) (hpc : w.pc = .recvRequest c) (hc : s.heap c = some cl) :
    WorkerTrans s i w (.wsaRecv none)
      (s.setWorker i { w with pc := .acceptMoreClients .request (some c) false })
  | recv (c cl resPath) (hpc : w.pc = .recvRequest c) (hc : s.heap c = some cl) :
    WorkerTrans s i w (.wsaRecv (some resPath))
      (s.setWorker i { w with pc := .openResource c resPath })
  | badRequest (c cl) (hpc : w.pc = .openResource c none) (hc : s.heap c = some cl) :
    WorkerTrans s i w .tau
      ((s.setClient c { cl with aioOpcode := .sockWrite }).setWorker i
        { w with pc := .transmit c })
  | openFile (c cl path h) (hpc : w.pc = .openResource c (some path))
    (hc : s.heap c = some cl) :
    WorkerTrans s i w (.createFile h)
      ((s.setClient c { cl with aioOpcode := .sockWrite, clFile := h }).setWorker i
        { w with pc := if h = invalidHandleValue then .transmit c else .querySize c })
  | querySize (c cl) (hpc : w.pc = .querySize c) (hc : s.heap c = some cl) :
    WorkerTrans s i w (.getFileSizeEx true) (s.setWorker i { w with pc := .transmit c })
  | querySizeFails (c cl) (hpc : w.pc = .querySize c) (hc : s.heap c = some cl) :
    WorkerTrans s i w (.getFileSizeEx false)
      ((s.setClient c { cl with clFile := invalidHandleValue }).setWorker i
        { w with pc := .transmit c })
  | transmit (c cl) (hpc : w.pc = .transmit c) (hc : s.heap c = some cl) :
    WorkerTrans s i w (.transmitFile true)
      ((s.issue c .transmitFile).setWorker i
        { w with pc := .acceptMoreClients .request none false })
  | transmitFails (c cl) (hpc : w.pc = .transmit c) (hc : s.heap c = some cl) :
    WorkerTrans s i w (.transmitFile false)
      (s.setWorker i { w with pc := .acceptMoreClients .request (some c) false })
  | countTransfer (c bytes) (hpc : w.pc = .countTransfer c bytes) :
    WorkerTrans s i w .updateStats
      ({ s with svStats := serverUpdateStats s.svStats (.transferSuccess bytes) }.setWorker i
        { w with pc := .markReused c })
  | markReused (c cl) (hpc : w.pc = .markReused c) (hc : s.heap c = some cl) :
    WorkerTrans s i w .tau
      ((s.setClient c { cl with clSockReused := true }).setWorker i
        { w with pc := .acceptMoreClients .writeCompletion (some c) true })
  | acceptMoreClients (site cl reuseSocket ok)
    (hpc : w.pc = .acceptMoreClients site cl reuseSocket) :
    WorkerTrans s i w (.postQueuedCompletionStatus ok)
      ((serverAcceptMoreClients s cl reuseSocket ok).setWorker i { w with pc := .examine })
  | crash (call c) (hdead : s.heap c = none) (hc : w.pc.client = some c) :
    WorkerTrans s i w call s.crash

theorem workerTrans_of_workerStep {s s' : State} {i : ℕ} {w : Worker} {call : WorkerCall}
    (h : workerStep s i w call = some s') : WorkerTrans s i w call s' := by
  have hcrash : ∀ c, w.pc.client = some c → s.heap c = none → s' = s.crash →
      WorkerTrans s i w call s' := by
    rintro c hw hc rfl
    exact .crash call c hc hw
  unfold workerStep at h
  split at h
  case h_1 hpc =>
    cases h
    exact .dequeueFails hpc
  case h_2 k hpc =>
    split_ifs at h with hk
    cases h
    exact .dequeue k hpc hk.1 hk.2.1 hk.2.2
  case h_3 ok hpc =>
    cases h
    exact .repost ok hpc
  case h_4 hpc =>
    split at h <;> cases h
    · exact .batchDone hpc ‹_›
    · exact .stop _ hpc ‹_›
    · exact .take _ _ hpc ‹_›
  case h_5 n hpc =>
    rcases withClient_eq_some.mp h with ⟨hc, hs⟩ | ⟨cl, hc, h⟩
    · exact hcrash n.cl (by simp [hpc, WorkerPc.client]) hc hs
    cases h
    exact .dispatch n cl hpc hc
  case h_6 c ok hpc =>
    rcases withClient_eq_some.mp h with ⟨hc, hs⟩ | ⟨cl, hc, h⟩
    · exact hcrash c (by simp [hpc, WorkerPc.client]) hc hs
    cases h
    exact .setsockopt c cl ok hpc hc
  case h_7 c hpc =>
    rcases withClient_eq_some.mp h with ⟨hc, hs⟩ | ⟨cl, hc, h⟩
    · exact hcrash c (by simp [hpc, WorkerPc.client]) hc hs
    split_ifs at h with hr
    cases h
    exact .associated c cl hpc hc hr
  case h_8 c ok hpc =>
    rcases withClient_eq_some.mp h with ⟨hc, hs⟩ | ⟨cl, hc, h⟩
    · exact hcrash c (by simp [hpc, WorkerPc.client]) hc hs
    split_ifs at h with hr hok ho
    · cases h
      subst hok
      exact .associate c cl hpc hc (by simpa using hr) ho
    · cases h
      obtain rfl : ok = false := by simpa using hok
      exact .associateFails c cl hpc hc (by simpa using hr)
  case h_9 c ok hpc =>
    rcases withClient_eq_some.mp h with ⟨hc, hs⟩ | ⟨cl, hc, h⟩
    · exact hcrash c (by simp [hpc, WorkerPc.client]) hc hs
    cases ok <;> cases h
    · exact .readFails c cl hpc hc
    · exact .read c cl hpc hc
  case h_10 hpc =>
    cases h
    exact .countConnection hpc
  case h_11 hpc =>
    cases h
    exact .releaseSlot hpc
  case h_12 c hpc =>
    rcases withClient_eq_some.mp h with ⟨hc, hs⟩ | ⟨cl, hc, h⟩
    · exact hcrash c (by simp [hpc, WorkerPc.client]) hc hs
    cases h
    exact .recvFails c cl hpc hc
  case h_13 c resPath hpc =>
    rcases withClient_eq_some.mp h with ⟨hc, hs⟩ | ⟨cl, hc, h⟩
    · exact hcrash c (by simp [hpc, WorkerPc.client]) hc hs
    cases h
    exact .recv c cl resPath hpc hc
  case h_14 c hpc =>
    rcases withClient_eq_some.mp h with ⟨hc, hs⟩ | ⟨cl, hc, h⟩
    · exact hcrash c (by simp [hpc, WorkerPc.client]) hc hs
    cases h
    exact .badRequest c cl hpc hc
  case h_15 c path hd hpc =>
    rcases withClient_eq_some.mp h with ⟨hc, hs⟩ | ⟨cl, hc, h⟩
    · exact hcrash c (by simp [hpc, WorkerPc.client]) hc hs
    cases h
    exact .openFile c cl path hd hpc hc
  case h_16 c ok hpc =>
    rcases withClient_eq_some.mp h with ⟨hc, hs⟩ | ⟨cl, hc, h⟩
    · exact hcrash c (by simp [hpc, WorkerPc.client]) hc hs
    cases ok <;> cases h
    · exact .querySizeFails c cl hpc hc
    · exact .querySize c cl hpc hc
  case h_17 c ok hpc =>
    rcases withClient_eq_some.mp h with ⟨hc, hs⟩ | ⟨cl, hc, h⟩
    · exact hcrash c (by simp [hpc, WorkerPc.client]) hc hs
    cases ok <;> cases h
    · exact .transmitFails c cl hpc hc
    · exact .transmit c cl hpc hc
  case h_18 c bytes hpc =>
    cases h
    exact .countTransfer c bytes hpc
  case h_19 c hpc =>
    rcases withClient_eq_some.mp h with ⟨hc, hs⟩ | ⟨cl, hc, h⟩
    · exact hcrash c (by simp [hpc, WorkerPc.client]) hc hs
    cases h
    exact .markReused c cl hpc hc
  case h_20 site cl reuseSocket ok hpc =>
    cases h
    exact .acceptMoreClients site cl reuseSocket ok hpc
  case h_21 => simp at h

/-! ## The system -/

/-- The transitions of the system. -/
inductive Trans (m : ℤ) (s : State) : Action → State → Prop
  | main {call s'} (h : MainTrans m s call s') : Trans m s (.main call) s'
  | worker {i w call s'} (hw : s.workers[i]? = some w) (h : WorkerTrans s i w call s') :
    Trans m s (.worker i call) s'
  | complete {i c op} (bytes) (hp : s.pending[i]? = some (c, op)) :
    Trans m s (.complete i bytes)
      { s with
        pending := s.pending.eraseIdx i
        svIocp := s.svIocp ++ [.completion ⟨c, op, bytes⟩] }
  | ctrlShutDownIocp (ok) :
    Trans m s (.ctrlShutDownIocp ok) { serverPostShutDown s ok with handlers := s.handlers + 1 }
  | ctrlShutDownAccept (ok) (hh : s.handlers ≠ 0) :
    Trans m s (.ctrlShutDownAccept ok)
      { s with
        handlers := s.handlers - 1
        svIocpAccept := if ok then s.svIocpAccept ++ [.shutDown] else s.svIocpAccept }

/-- Every step of a server that has not crashed is one of the listed transitions. -/
theorem trans_of_step {m : ℤ} {s s' : State} {a : Action} (h : step m s a = some s') :
    s.crashed = false ∧ Trans m s a s' := by
  cases hcr : s.crashed with
  | true => simp [step, hcr] at h
  | false =>
    refine ⟨rfl, ?_⟩
    rw [step.eq_def, if_neg (by simp [hcr])] at h
    cases a <;> dsimp only at h
    case main call => exact .main (mainTrans_of_mainStep h)
    case worker i call =>
      cases hw : s.workers[i]? with
      | none => simp [hw] at h
      | some w => exact .worker hw (workerTrans_of_workerStep (by simpa [hw] using h))
    case complete i bytes =>
      cases hp : s.pending[i]? with
      | none => simp [hp] at h
      | some p =>
        rw [hp] at h
        cases h
        exact .complete bytes hp
    case ctrlShutDownIocp ok =>
      cases h
      exact .ctrlShutDownIocp ok
    case ctrlShutDownAccept ok =>
      by_cases hh : s.handlers = 0
      · simp [hh] at h
      · rw [if_neg hh] at h
        cases h
        exact .ctrlShutDownAccept ok hh

end AioServer.Windows
