import AioServer.Lib.Custody
import AioServer.Windows.Sockets
import Mathlib.Algebra.Order.Group.Multiset
import Mathlib.Tactic.Abel

/-!
# The Windows server: the stations of a client

A client travels between the accept thread, the kernel, `sv_iocp`, the workers and
`sv_iocp_accept`.

* `State.stations` lists where every client is;
* `Station.Ok` says what its record and its socket look like there;
* `Handover` is one step of the system, seen from the clients: at most one of them moves,
  appears or disappears. Its rules cover what a worker and the accept thread do.
-/

namespace AioServer.Windows

open Lib

/-! ## Stations -/

/-- The places a client can be at. A completion packet counts as one place, on `sv_iocp`
and in the batch of a worker that has not examined it yet. -/
inductive Station
  | pending (op : KernelOp)
  | packet (op : KernelOp)
  | message (reuseSocket : Bool)
  | mainHand (pc : MainPc)
  | workerHand (pc : WorkerPc)
deriving DecidableEq, Repr

/-- The station of a pointer, if it is not NULL. -/
def holding (st : Station) : Option ClientPtr → Multiset (Station × ClientPtr)
  | none => 0
  | some c => {(st, c)}

def Packet.stations : Packet → Multiset (Station × ClientPtr)
  | .shutDown => 0
  | .completion n => {(.packet n.op, n.cl)}

def AcceptMessage.stations : AcceptMessage → Multiset (Station × ClientPtr)
  | .shutDown => 0
  | .postAccept cl reuseSocket => holding (.message reuseSocket) cl

def Worker.stations (w : Worker) : Multiset (Station × ClientPtr) :=
  (w.batch.map Packet.stations).sum + holding (.workerHand w.pc) w.pc.client

/-- The accept thread holds its client while that is live: after
`server_cleanup_client_data` its pointer dangles. -/
def State.mainStations (s : State) : Multiset (Station × ClientPtr) :=
  holding (.mainHand s.main) (s.main.client.filter fun c => s.Live c)

/-- The clients that no thread has. -/
def State.queued (s : State) : Multiset (Station × ClientPtr) :=
  (s.pending.map fun p => {(Station.pending p.2, p.1)}).sum
    + (s.svIocp.map Packet.stations).sum + (s.svIocpAccept.map AcceptMessage.stations).sum

/-- Where every client is. -/
def State.stations (s : State) : Multiset (Station × ClientPtr) :=
  s.queued + s.mainStations + (s.workers.map Worker.stations).sum

/-! ## What a client looks like -/

/-- The record of a live client, and the state of its socket. -/
def State.view (s : State) (c : ClientPtr) : Option (Client × Option Bool) :=
  (s.heap c).map fun cl => (cl, s.sockets cl.clSock)

theorem view_eq_some {s : State} {c : ClientPtr} {cl : Client} (h : s.heap c = some cl) :
    s.view c = some (cl, s.sockets cl.clSock) := by
  rw [State.view, h, Option.map_some]

theorem view_isSome {s : State} {c : ClientPtr} : (s.view c).isSome ↔ s.Live c := by
  simp [State.view, State.Live]

/-- A client while `op` is pending or its completion is not handled yet. -/
def OpOk (op : KernelOp) (cl : Client) (assoc : Option Bool) : Prop :=
  match op with
  | .acceptEx => cl.aioOpcode = .connection ∧ cl.clFile = invalidHandleValue ∧
      assoc ≠ none ∧ (cl.clSockReused = true ↔ assoc = some true)
  | .wsaRecv => cl.aioOpcode = .sock0BytesRecv ∧ cl.clFile = invalidHandleValue ∧
      assoc = some true
  | .transmitFile => cl.aioOpcode = .sockWrite ∧ assoc = some true

/-- A client on its way back to the accept thread. -/
def Recyclable (reuseSocket : Bool) (cl : Client) (assoc : Option Bool) : Prop :=
  assoc ≠ none ∧ (reuseSocket = true → cl.clSockReused = true ∧ assoc = some true)

theorem recyclable_false {cl : Client} {assoc : Option Bool} (h : assoc ≠ none) :
    Recyclable false cl assoc := ⟨h, by simp⟩

theorem recyclable_of_associated {cl : Client} {assoc : Option Bool} (h : assoc = some true) :
    Recyclable false cl assoc := recyclable_false (h.trans_ne (Option.some_ne_none true))

/-- A client ready for `AcceptEx`. Its socket is `INVALID_SOCKET` if it could not be
created, and then not a reused one. -/
def Postable (cl : Client) (assoc : Option Bool) : Prop :=
  cl.aioOpcode = .connection ∧ cl.clFile = invalidHandleValue ∧
    (cl.clSockReused = true ↔ assoc = some true)

/-- What the record and the socket of a client look like at a station. -/
def Station.Ok (st : Station) (v : Client × Option Bool) : Prop :=
  match st with
  | .pending op | .packet op => OpOk op v.1 v.2
  | .message reuseSocket => Recyclable reuseSocket v.1 v.2
  | .mainHand pc =>
    match pc with
    | .guard _ opts | .reinit _ opts => Recyclable opts v.1 v.2
    | .addToList .. | .postAcceptEx .. | .retry .. => Postable v.1 v.2
    | _ => True
  | .workerHand pc =>
    match pc with
    | .dispatch n => OpOk n.op v.1 v.2
    | .setsockopt _ | .associate _ => OpOk .acceptEx v.1 v.2
    | .readFromClient _ | .openResource .. =>
      v.1.clFile = invalidHandleValue ∧ v.2 = some true
    | .recvRequest _ => OpOk .wsaRecv v.1 v.2
    | .querySize _ | .transmit _ => v.1.aioOpcode = .sockWrite ∧ v.2 = some true
    | .countTransfer .. | .markReused _ => OpOk .transmitFile v.1 v.2
    | .acceptMoreClients _ _ reuseSocket => Recyclable reuseSocket v.1 v.2
    | _ => True

/-- Who has which client, and in which condition. -/
def State.Owned (s : State) : Prop := Custody Station.Ok s.stations s.view

/-! ## Stations after an update of the state -/

theorem live_setClient {s : State} {c : ClientPtr} {cl cl' : Client} (hc : s.heap c = some cl)
    (x : ClientPtr) : (s.setClient c cl').Live x ↔ s.Live x := by
  by_cases hx : x = c
  · subst hx
    simp [State.Live, hc]
  · simp [State.Live, setClient_heap_of_ne hx]

/-- Overwriting the record of a live client does not take it from the accept thread. -/
theorem mainStations_setClient {s : State} {c : ClientPtr} {cl cl' : Client}
    (hc : s.heap c = some cl) : (s.setClient c cl').mainStations = s.mainStations := by
  simp only [State.mainStations, live_setClient hc]
  rfl

theorem queued_issue (s : State) (c : ClientPtr) (op : KernelOp) :
    (s.issue c op).queued = s.queued + {(.pending op, c)} := by
  simp only [State.queued, State.issue, List.map_append, List.sum_append, List.map_cons,
    List.map_nil, List.sum_cons, List.sum_nil]
  abel

theorem queued_serverAcceptMoreClients (s : State) (cl : Option ClientPtr)
    (reuseSocket ok : Bool) :
    (serverAcceptMoreClients s cl reuseSocket ok).queued
      = s.queued + if ok then holding (.message reuseSocket) cl else 0 := by
  cases ok with
  | false => simp [serverAcceptMoreClients]
  | true =>
    simp only [State.queued, serverAcceptMoreClients, if_true, List.map_append,
      List.sum_append, List.map_cons, List.map_nil, List.sum_cons, List.sum_nil,
      AcceptMessage.stations]
    abel

theorem queued_serverPostShutDown (s : State) (ok : Bool) :
    (serverPostShutDown s ok).queued = s.queued := by
  cases ok with
  | false => rfl
  | true =>
    simp only [State.queued, serverPostShutDown, if_true, List.map_append,
      List.sum_append, List.map_cons, List.map_nil, List.sum_cons, List.sum_nil, Packet.stations]
    abel

/-- The share of worker `i`, before and after a step in which this worker moves and `X` is
queued. -/
theorem stations_setWorker {s t : State} {i : ℕ} {w : Worker} {X : Multiset (Station × ClientPtr)}
    (hw : s.workers[i]? = some w) (ht : t.workers = s.workers)
    (hm : t.mainStations = s.mainStations) (hX : t.queued = s.queued + X) :
    ∃ R, s.stations = w.stations + R ∧ ∀ w', (t.setWorker i w').stations = w'.stations + X + R := by
  obtain ⟨rest, h1, h2⟩ := exists_split_sum Worker.stations hw
  refine ⟨s.queued + s.mainStations + rest, ?_, fun w' => ?_⟩
  · rw [State.stations, h1]
    abel
  · have hq : (t.setWorker i w').queued = t.queued := rfl
    have hms : (t.setWorker i w').mainStations = t.mainStations := rfl
    have hws : (t.setWorker i w').workers = s.workers.set i w' := by rw [← ht]; rfl
    rw [State.stations, hq, hms, hws, h2, hX, hm]
    abel

/-- `stations_setWorker` for a step that leaves the worker's batch alone. -/
theorem stations_setWorker_pc {s t : State} {i : ℕ} {w : Worker}
    {X : Multiset (Station × ClientPtr)} (hw : s.workers[i]? = some w)
    (ht : t.workers = s.workers) (hm : t.mainStations = s.mainStations)
    (hX : t.queued = s.queued + X) :
    ∃ R, s.stations = holding (.workerHand w.pc) w.pc.client + R ∧
      ∀ pc, (t.setWorker i { w with pc := pc }).stations
        = holding (.workerHand pc) pc.client + X + R := by
  obtain ⟨R, h1, h2⟩ := stations_setWorker hw ht hm hX
  refine ⟨(w.batch.map Packet.stations).sum + R, ?_, fun pc => ?_⟩
  · rw [h1, Worker.stations]
    abel
  · rw [h2, Worker.stations]
    abel

/-- The share of the accept thread, before and after a step in which it moves, takes `Y`
from the queues and adds `X` to them. -/
theorem stations_setMain {s t : State} (pc : MainPc) {Q X Y : Multiset (Station × ClientPtr)}
    (hY : s.queued = Y + Q) (hX : t.queued = X + Q) (ht : t.workers = s.workers) :
    ∃ R, s.stations = s.mainStations + Y + R ∧
      (t.setMain pc).stations = (t.setMain pc).mainStations + X + R := by
  refine ⟨Q + (s.workers.map Worker.stations).sum, ?_, ?_⟩
  · rw [State.stations, hY]
    abel
  · have hq : (t.setMain pc).queued = t.queued := rfl
    have hws : (t.setMain pc).workers = s.workers := ht
    rw [State.stations, hq, hws, hX]
    abel

/-! ## Handing a client over -/

/-- One step moves at most one client to another station, creates one or loses some; it
loses none that stays alive if `lossless`. -/
def Handover (s s' : State) (lossless : Prop) : Prop :=
  ∃ out inn rest, Transfer Station.Ok s.stations s.view s'.stations s'.view out inn rest ∧
    (lossless → ∀ c ∈ tokens out, (s'.view c).isSome → c ∈ tokens inn)

section handover

variable {s s' : State} {c : ClientPtr} {st st' : Station} {P : Prop}
  {R : Multiset (Station × ClientPtr)}

theorem Handover.same (hs : s'.stations = s.stations) (hv : ∀ x, s'.view x = s.view x) :
    Handover s s' P :=
  ⟨0, 0, s.stations, ⟨by simp, by simp [hs], fun x _ _ => hv x, by simp, by simp, by simp⟩,
    by simp⟩

theorem Handover.move (hs : s.stations = {(st, c)} + R) (hs' : s'.stations = {(st', c)} + R)
    (hframe : ∀ x, x ≠ c → s'.view x = s.view x) (hok : ∃ v, s'.view c = some v ∧ st'.Ok v) :
    Handover s s' P := by
  refine ⟨{(st, c)}, {(st', c)}, R, ⟨hs, hs', fun x hx _ => hframe x (by simpa using hx),
    fun x hx => Or.inl (by simpa using hx), by simp, fun x hx => ?_⟩, by simp⟩
  obtain rfl : x = (st', c) := by simpa using hx
  exact hok

theorem Handover.enter (hs : s.stations = R) (hs' : s'.stations = {(st', c)} + R)
    (hnew : s.heap c = none) (hframe : ∀ x, x ≠ c → s'.view x = s.view x)
    (hok : ∃ v, s'.view c = some v ∧ st'.Ok v) : Handover s s' P := by
  refine ⟨0, {(st', c)}, R, ⟨by simp [hs], hs', fun x _ hx => hframe x (by simpa using hx),
    fun x hx => Or.inr ?_, by simp, fun x hx => ?_⟩, by simp⟩
  · obtain rfl : x = c := by simpa using hx
    simp [State.view, hnew]
  · obtain rfl : x = (st', c) := by simpa using hx
    exact hok

theorem Handover.leave (hs : s.stations = {(st, c)} + R) (hs' : s'.stations = R)
    (hframe : ∀ x, x ≠ c → s'.view x = s.view x) (hlost : P → ¬ s'.Live c) :
    Handover s s' P := by
  refine ⟨{(st, c)}, 0, R, ⟨hs, by simp [hs'], fun x hx _ => hframe x (by simpa using hx),
    by simp, by simp, by simp⟩, fun hP x hx hlive => ?_⟩
  obtain rfl : x = c := by simpa using hx
  exact absurd (view_isSome.mp hlive) (hlost hP)

theorem Handover.drop {out : Multiset (Station × ClientPtr)} (hs : s.stations = out + s'.stations)
    (hv : ∀ x, s'.view x = s.view x) (hlost : ¬ P) : Handover s s' P :=
  ⟨out, 0, s'.stations, ⟨hs, by simp, fun x _ _ => hv x, by simp, by simp, by simp⟩,
    fun hP => absurd hP hlost⟩

end handover

/-- What the owner of a client knows about it. -/
theorem State.Owned.ok {s : State} (h : s.Owned) {st : Station} {c : ClientPtr}
    (hmem : (st, c) ∈ s.stations) :
    ∃ cl, s.heap c = some cl ∧ st.Ok (cl, s.sockets cl.clSock) := by
  obtain ⟨v, hv, hok⟩ := h.good _ hmem
  obtain ⟨cl, hcl, rfl⟩ := Option.map_eq_some_iff.mp hv
  exact ⟨cl, hcl, hok⟩

theorem mem_stations_workerHand {s : State} {w : Worker} {pc : WorkerPc} {c : ClientPtr}
    (hw : w ∈ s.workers) (hpc : w.pc = pc) (hc : pc.client = some c) :
    (Station.workerHand pc, c) ∈ s.stations := by
  subst hpc
  obtain ⟨i, hw⟩ := List.mem_iff_getElem?.mp hw
  obtain ⟨R, hR, -⟩ := stations_setWorker_pc hw rfl rfl (add_zero _).symm
  simp [hR, hc, holding]

/-! ## Handovers of a worker -/

theorem view_setClient_of_ne {s : State} {c x : ClientPtr} {cl : Client} (h : x ≠ c) :
    (s.setClient c cl).view x = s.view x := by
  simp only [State.view, setClient_heap_of_ne h]
  rfl

theorem view_setClient_self (s : State) (c : ClientPtr) (cl : Client) :
    (s.setClient c cl).view c = some (cl, s.sockets cl.clSock) :=
  view_eq_some (setClient_heap_self s c cl)

/-- A post to a completion port failed. -/
def Action.postFails : Action → Bool
  | .main (.postQueuedCompletionStatus ok) | .worker _ (.postQueuedCompletionStatus ok)
  | .ctrlShutDownIocp ok | .ctrlShutDownAccept ok => !ok
  | _ => false

/-- A thread meets a `kIocpMsgShutDown` message. -/
def takesShutDown (x : State × Action) : Bool :=
  match x.2 with
  | .main (.getQueuedCompletionStatus true) => x.1.svIocpAccept.head? = some .shutDown
  | .worker i .tau =>
    x.1.workers[i]?.any fun w => w.pc = .examine && w.batch.head? = some .shutDown
  | _ => false

section worker

variable {s t : State} {i : ℕ} {w : Worker} {pc : WorkerPc} {c : ClientPtr} {st : Station}
  {P : Prop}

/-- A worker that has no client goes on without one. -/
theorem Handover.idle (hw : s.workers[i]? = some w) (ht : t.workers = s.workers)
    (hm : t.mainStations = s.mainStations) (hq : t.queued = s.queued)
    (hv : ∀ x, t.view x = s.view x) (hc : w.pc.client = none) (hpc : pc.client = none) :
    Handover s (t.setWorker i { w with pc := pc }) P := by
  obtain ⟨R, h1, h2⟩ := stations_setWorker_pc hw ht hm (hq.trans (add_zero _).symm)
  exact .same (by rw [h2, h1, hc, hpc, holding, holding, add_zero]) hv

/-- A worker keeps its client, which now looks as the next program point requires. -/
theorem Handover.keep (hw : s.workers[i]? = some w) (ht : t.workers = s.workers)
    (hm : t.mainStations = s.mainStations) (hq : t.queued = s.queued)
    (hv : ∀ x, x ≠ c → t.view x = s.view x) (hc : w.pc.client = some c)
    (hpc : pc.client = some c) (hok : ∃ v, t.view c = some v ∧ (Station.workerHand pc).Ok v) :
    Handover s (t.setWorker i { w with pc := pc }) P := by
  obtain ⟨R, h1, h2⟩ := stations_setWorker_pc hw ht hm (hq.trans (add_zero _).symm)
  rw [hc] at h1
  exact .move h1 (by rw [h2, hpc, holding, add_zero]) hv hok

/-- A worker hands its client to the kernel or to the accept thread. -/
theorem Handover.give (hw : s.workers[i]? = some w) (ht : t.workers = s.workers)
    (hm : t.mainStations = s.mainStations) (hq : t.queued = s.queued + {(st, c)})
    (hv : ∀ x, x ≠ c → t.view x = s.view x) (hc : w.pc.client = some c)
    (hpc : pc.client = none) (hok : ∃ v, t.view c = some v ∧ st.Ok v) :
    Handover s (t.setWorker i { w with pc := pc }) P := by
  obtain ⟨R, h1, h2⟩ := stations_setWorker_pc hw ht hm hq
  rw [hc] at h1
  exact .move h1 (by rw [h2, hpc, holding, zero_add]) hv hok

/-- A worker forgets its client. -/
theorem Handover.forget (hw : s.workers[i]? = some w) (ht : t.workers = s.workers)
    (hm : t.mainStations = s.mainStations) (hq : t.queued = s.queued)
    (hv : ∀ x, t.view x = s.view x) (hc : w.pc.client = some c) (hpc : pc.client = none)
    (hlost : ¬ P) : Handover s (t.setWorker i { w with pc := pc }) P := by
  obtain ⟨R, h1, h2⟩ := stations_setWorker_pc hw ht hm (hq.trans (add_zero _).symm)
  rw [hc] at h1
  have hs : s.stations
      = {(.workerHand w.pc, c)} + (t.setWorker i { w with pc := pc }).stations := by
    rw [h1, h2, hpc, holding, holding, zero_add, zero_add]
  exact .drop hs hv hlost

end worker

/-! ## Handovers of the accept thread -/

theorem mainStations_of_live {s : State} {c : ClientPtr} (hc : s.main.client = some c)
    (hl : s.Live c) : s.mainStations = {(.mainHand s.main, c)} := by
  simp [State.mainStations, hc, Option.filter, hl, holding]

theorem mainStations_of_not_live {s : State} (h : ∀ c, s.main.client = some c → ¬ s.Live c) :
    s.mainStations = 0 := by
  cases hc : s.main.client with
  | none => simp [State.mainStations, hc, holding]
  | some c => simp [State.mainStations, hc, Option.filter, h c hc, holding]

theorem mem_stations_mainHand {s : State} {pc : MainPc} {c : ClientPtr} (hpc : s.main = pc)
    (hc : pc.client = some c) (hl : s.Live c) : (Station.mainHand pc, c) ∈ s.stations := by
  subst hpc
  simp [State.stations, mainStations_of_live hc hl]

theorem mem_stations_pending {s : State} {p : ClientPtr × KernelOp} (hp : p ∈ s.pending) :
    (.pending p.2, p.1) ∈ s.stations := by
  obtain ⟨i, hi⟩ := List.mem_iff_getElem?.mp hp
  have hsum := sum_map_eraseIdx (fun p => ({(Station.pending p.2, p.1)} : Multiset _)) hi
  simp [State.stations, State.queued, hsum]

theorem queued_postAccept {s : State} {c : ClientPtr} {opts : Bool} {rest : List AcceptMessage}
    (hq : s.svIocpAccept = .postAccept (some c) opts :: rest) :
    s.queued = {(.message opts, c)} + { s with svIocpAccept := rest }.queued := by
  simp only [State.queued, hq, List.map_cons, List.sum_cons, AcceptMessage.stations, holding]
  abel

theorem mem_stations_message {s : State} {c : ClientPtr} {opts : Bool} {rest : List AcceptMessage}
    (hq : s.svIocpAccept = .postAccept (some c) opts :: rest) :
    (.message opts, c) ∈ s.stations := by
  simp [State.stations, queued_postAccept hq]

section main

variable {s t : State} {pc : MainPc} {c : ClientPtr} {st : Station} {P : Prop}

/-- The accept thread has no client, or one that is gone, and takes none. -/
theorem Handover.mainIdle (ht : t.workers = s.workers) (hq : t.queued = s.queued)
    (hv : ∀ x, t.view x = s.view x) (hc : ∀ c, s.main.client = some c → ¬ s.Live c)
    (hpc : ∀ c, pc.client = some c → ¬ s.Live c) : Handover s (t.setMain pc) P := by
  have hlive : ∀ x, (t.setMain pc).Live x ↔ s.Live x := by
    intro x
    rw [← view_isSome, ← view_isSome, ← hv x]
    rfl
  obtain ⟨R, h1, h2⟩ := stations_setMain pc (zero_add s.queued).symm
    (hq.trans (zero_add s.queued).symm) ht
  refine .same ?_ hv
  rw [h2, h1, mainStations_of_not_live hc,
    mainStations_of_not_live fun x hx hl => hpc x hx ((hlive x).mp hl)]

/-- The accept thread keeps its client. -/
theorem Handover.mainKeep (ht : t.workers = s.workers) (hq : t.queued = s.queued)
    (hv : ∀ x, x ≠ c → t.view x = s.view x) (hc : s.main.client = some c) (hl : s.Live c)
    (hpc : pc.client = some c) (hok : ∃ v, t.view c = some v ∧ (Station.mainHand pc).Ok v) :
    Handover s (t.setMain pc) P := by
  obtain ⟨R, h1, h2⟩ := stations_setMain pc (zero_add s.queued).symm
    (hq.trans (zero_add s.queued).symm) ht
  have hl' : (t.setMain pc).Live c := by
    obtain ⟨v, hv', -⟩ := hok
    exact view_isSome.mp (by rw [show (t.setMain pc).view c = some v from hv']; rfl)
  rw [mainStations_of_live hc hl, add_zero] at h1
  rw [mainStations_of_live hpc hl', add_zero] at h2
  exact .move h1 h2 hv hok

/-- The accept thread hands its client to the kernel. -/
theorem Handover.mainGive (ht : t.workers = s.workers) (hq : t.queued = s.queued + {(st, c)})
    (hv : ∀ x, x ≠ c → t.view x = s.view x) (hc : s.main.client = some c) (hl : s.Live c)
    (hpc : ∀ c, pc.client = some c → ¬ t.Live c) (hok : ∃ v, t.view c = some v ∧ st.Ok v) :
    Handover s (t.setMain pc) P := by
  obtain ⟨R, h1, h2⟩ := stations_setMain pc (zero_add s.queued).symm
    (hq.trans (add_comm _ _)) ht
  rw [mainStations_of_live hc hl, add_zero] at h1
  rw [mainStations_of_not_live (s := t.setMain pc) hpc, zero_add] at h2
  exact .move h1 h2 hv hok

/-- The accept thread takes a client off `sv_iocp_accept`. -/
theorem Handover.mainTake {opts : Bool} {rest : List AcceptMessage} (hpc : s.main = .wait)
    (hq : s.svIocpAccept = .postAccept (some c) opts :: rest) (hown : s.Owned) :
    Handover s ({ s with svIocpAccept := rest }.setMain (.guard (some c) opts)) P := by
  obtain ⟨R, h1, h2⟩ := stations_setMain (t := { s with svIocpAccept := rest })
    (.guard (some c) opts) (queued_postAccept hq) (zero_add _).symm rfl
  rw [mainStations_of_not_live (s := s) (by simp [hpc, MainPc.client]), zero_add] at h1
  obtain ⟨cl, hcl, hok⟩ := hown.ok (mem_stations_message hq)
  have hl : s.Live c := by simp [State.Live, hcl]
  have hm : ({ s with svIocpAccept := rest }.setMain (.guard (some c) opts)).mainStations
      = {(.mainHand (.guard (some c) opts), c)} := mainStations_of_live rfl hl
  rw [hm, add_zero] at h2
  exact .move h1 h2 (fun _ _ => rfl) ⟨_, view_eq_some hcl, hok⟩

/-- The accept thread creates a client. -/
theorem Handover.mainEnter (ht : t.workers = s.workers) (hq : t.queued = s.queued)
    (hv : ∀ x, x ≠ c → t.view x = s.view x) (hc : s.main.client = none)
    (hpc : pc.client = some c) (hnew : s.heap c = none)
    (hok : ∃ v, t.view c = some v ∧ (Station.mainHand pc).Ok v) :
    Handover s (t.setMain pc) P := by
  obtain ⟨R, h1, h2⟩ := stations_setMain pc (zero_add s.queued).symm
    (hq.trans (zero_add s.queued).symm) ht
  have hl' : (t.setMain pc).Live c := by
    obtain ⟨v, hv', -⟩ := hok
    exact view_isSome.mp (by rw [show (t.setMain pc).view c = some v from hv']; rfl)
  rw [mainStations_of_not_live (s := s) (by simp [hc]), zero_add, zero_add] at h1
  rw [mainStations_of_live hpc hl', add_zero] at h2
  exact .enter h1 h2 hnew hv hok

/-- The accept thread destroys its client. -/
theorem Handover.mainLeave (ht : t.workers = s.workers) (hq : t.queued = s.queued)
    (hv : ∀ x, x ≠ c → t.view x = s.view x) (hc : s.main.client = some c) (hl : s.Live c)
    (hdead : ¬ t.Live c) (hpc : ∀ c, pc.client = some c → ¬ t.Live c) :
    Handover s (t.setMain pc) P := by
  obtain ⟨R, h1, h2⟩ := stations_setMain pc (zero_add s.queued).symm
    (hq.trans (zero_add s.queued).symm) ht
  rw [mainStations_of_live hc hl, add_zero] at h1
  rw [mainStations_of_not_live (s := t.setMain pc) hpc, zero_add, zero_add] at h2
  exact .leave h1 h2 hv fun _ => hdead

end main

theorem view_socketChange {s : State} {c x : ClientPtr} {cl : Client} {k : Socket}
    {t : SocketTable} (hx : x ≠ c) (h : SocketChange s c k t) :
    ({ s.setClient c cl with sockets := t } : State).view x = s.view x := by
  cases hxc : s.heap x with
  | none => simp [State.view, setClient_heap_of_ne hx, hxc]
  | some clx => simp [State.view, setClient_heap_of_ne hx, hxc, h.other x clx hx hxc]

theorem not_live_clientDestroy (s : State) (c : ClientPtr) (cl : Client) :
    ¬ (clientDestroy s c cl).Live c := by
  simp [State.Live, clientDestroy]

theorem view_clientDestroy_of_ne {s : State} (h : SocketsOk s) {c x : ClientPtr} {cl : Client}
    (hc : s.heap c = some cl) (hx : x ≠ c) : (clientDestroy s c cl).view x = s.view x := by
  cases hxc : s.heap x with
  | none => simp [State.view, clientDestroy_heap_of_ne hx, hxc]
  | some clx =>
    rw [view_eq_some hxc, view_eq_some ((clientDestroy_heap_of_ne hx).trans hxc)]
    exact congrArg (fun a => some (clx, a)) (h.closed_other hc hxc hx)

end AioServer.Windows
