import AioServer.Windows.Stations

/-!
# The Windows server: who owns a client

Every step of the server is a `Handover`. So in every reachable state no client is at two
stations and each one looks as its station requires (`ServerRun.owned`), and no client gets
lost while the posts succeed and no thread takes a shutdown message
(`ServerRun.complete`).
-/

namespace AioServer.Windows

open Lib

/-! ## The client in the hand of a thread -/

section hand

variable {s : State} {w : Worker} {c : ClientPtr} {cl : Client}

/-- A worker never touches a released client, and knows how its client looks. -/
theorem State.Owned.worker (hown : s.Owned) {pc : WorkerPc} (hw : w ∈ s.workers)
    (hpc : w.pc = pc) (hc : pc.client = some c) :
    ∃ cl, s.heap c = some cl ∧ (Station.workerHand pc).Ok (cl, s.sockets cl.clSock) :=
  hown.ok (mem_stations_workerHand hw hpc hc)

theorem State.Owned.worker_live (hown : s.Owned) (hw : w ∈ s.workers)
    (hc : w.pc.client = some c) : s.heap c ≠ none := by
  obtain ⟨cl, hcl, -⟩ := hown.worker hw rfl hc
  simp [hcl]

theorem State.Owned.worker_ok (hown : s.Owned) {pc : WorkerPc} (hw : w ∈ s.workers)
    (hpc : w.pc = pc) (hc : pc.client = some c) (hcl : s.heap c = some cl) :
    (Station.workerHand pc).Ok (cl, s.sockets cl.clSock) := by
  obtain ⟨cl', hcl', hok⟩ := hown.worker hw hpc hc
  obtain rfl : cl = cl' := by simpa [hcl] using hcl'
  exact hok

/-- So does the accept thread, as long as its client is not released. -/
theorem State.Owned.main_ok (hown : s.Owned) {pc : MainPc} (hpc : s.main = pc)
    (hc : pc.client = some c) (hcl : s.heap c = some cl) :
    (Station.mainHand pc).Ok (cl, s.sockets cl.clSock) := by
  obtain ⟨cl', hcl', hok⟩ := hown.ok (mem_stations_mainHand hpc hc (by simp [State.Live, hcl]))
  obtain rfl : cl = cl' := by simpa [hcl] using hcl'
  exact hok

end hand

/-! ## The workers -/

/-- The handler that `server_process_completions` picks is the one of the operation. -/
theorem serverProcessCompletion_ok {n : Completion} {cl : Client} {assoc : Option Bool}
    (h : OpOk n.op cl assoc) :
    (serverProcessCompletion n cl.aioOpcode).client = some n.cl ∧
      (Station.workerHand (serverProcessCompletion n cl.aioOpcode)).Ok (cl, assoc) := by
  cases hop : n.op with
  | acceptEx =>
    rw [hop] at h
    simp only [serverProcessCompletion, h.1, ne_eq, not_true_eq_false, false_and, and_false,
      if_false]
    exact ⟨rfl, h⟩
  | wsaRecv =>
    rw [hop] at h
    simp only [serverProcessCompletion, h.1, ne_eq, not_true_eq_false, and_false, if_false]
    exact ⟨rfl, h⟩
  | transmitFile =>
    rw [hop] at h
    rw [serverProcessCompletion.eq_def]
    by_cases hb : n.bytes = 0
    · rw [if_pos (by simp [hb, h.1])]
      exact ⟨rfl, recyclable_of_associated h.2⟩
    · rw [if_neg (by simp [hb]), h.1]
      exact ⟨rfl, h⟩

/-- Between two calls of `GetQueuedCompletionStatusEx` a worker has nothing left to examine. -/
def State.BatchesOk (s : State) : Prop := ∀ w ∈ s.workers, w.pc = .dequeue → w.batch = []

theorem stations_dequeue {s : State} {i k : ℕ} {w : Worker} (hw : s.workers[i]? = some w)
    (hpc : w.pc = .dequeue) (hb : w.batch = []) :
    ({ s with svIocp := s.svIocp.drop k }.setWorker i ⟨.examine, s.svIocp.take k⟩).stations
      = s.stations := by
  obtain ⟨rest, h1, h2⟩ := exists_split_sum Worker.stations hw
  have hsplit : (s.svIocp.map Packet.stations).sum
      = ((s.svIocp.take k).map Packet.stations).sum
        + ((s.svIocp.drop k).map Packet.stations).sum := by
    rw [← List.sum_append, ← List.map_append, List.take_append_drop]
  have hold : w.stations = 0 := by simp [Worker.stations, hpc, hb, WorkerPc.client, holding]
  have hnew : Worker.stations ⟨.examine, s.svIocp.take k⟩
      = ((s.svIocp.take k).map Packet.stations).sum := add_zero _
  simp only [State.stations, State.queued, State.setWorker, h1, h2, hold, hnew, hsplit]
  show _ + s.mainStations + _ = _ + s.mainStations + _
  abel

/-- What is left in the batch of a worker after it took `X` out of it. -/
theorem stations_batch {s : State} {i : ℕ} {w w' : Worker} {X : Multiset (Station × ClientPtr)}
    (hw : s.workers[i]? = some w) (hX : w.stations = X + w'.stations) :
    s.stations = X + (s.setWorker i w').stations := by
  obtain ⟨R, h1, h2⟩ := stations_setWorker hw rfl rfl (add_zero s.queued).symm
  rw [h1, h2, hX, add_zero, add_assoc]

theorem handover_worker {s s' : State} {i : ℕ} {w : Worker} {call : WorkerCall}
    (hsock : SocketsOk s) (hown : s.Owned) (hbatch : s.BatchesOk) (hw : s.workers[i]? = some w)
    (h : WorkerTrans s i w call s') :
    Handover s s' ((Action.worker i call).postFails = false ∧
      takesShutDown (s, .worker i call) = false) := by
  have hmem := List.mem_of_getElem? hw
  cases h with
  | dequeueFails hpc => exact .idle hw rfl rfl rfl (fun _ => rfl) (by rw [hpc]; rfl) rfl
  | dequeue k hpc h0 hmax hk =>
    exact .same (stations_dequeue hw hpc (hbatch w hmem hpc)) fun _ => rfl
  | repost ok hpc =>
    exact .idle hw (by cases ok <;> rfl) (by cases ok <;> rfl) (queued_serverPostShutDown s ok)
      (by cases ok <;> exact fun _ => rfl) (by rw [hpc]; rfl) rfl
  | batchDone hpc hb =>
    refine .same ?_ fun _ => rfl
    rw [stations_batch (X := 0) hw, zero_add]
    simp [Worker.stations, hpc, hb, WorkerPc.client, holding]
  -- the clients in the rest of the batch are forgotten
  | stop rest hpc hb =>
    refine .drop (stations_batch (X := (rest.map Packet.stations).sum) hw ?_) (fun _ => rfl) ?_
    · simp [Worker.stations, hpc, hb, WorkerPc.client, holding, Packet.stations]
    · exact fun hP => by simp [takesShutDown, hw, hpc, hb] at hP
  | take n rest hpc hb =>
    -- from the batch into the hand of the same worker
    obtain ⟨R, h1, h2⟩ := stations_setWorker hw rfl rfl (add_zero s.queued).symm
    have hst : s.stations
        = {(.packet n.op, n.cl)} + ((rest.map Packet.stations).sum + R) := by
      simp [h1, Worker.stations, hpc, hb, WorkerPc.client, holding, Packet.stations]
    have hst' : (s.setWorker i ⟨.dispatch n, rest⟩).stations
        = {(.workerHand (.dispatch n), n.cl)} + ((rest.map Packet.stations).sum + R) := by
      rw [h2, Worker.stations, WorkerPc.client, holding]
      abel
    have hmem : (.packet n.op, n.cl) ∈ s.stations := by simp [hst]
    obtain ⟨cl, hcl, hok⟩ := hown.ok hmem
    exact .move hst hst' (fun _ _ => rfl) ⟨_, view_eq_some hcl, hok⟩
  | dispatch n cl hpc hc =>
    have hok := hown.worker_ok hmem hpc rfl hc
    have hd := serverProcessCompletion_ok hok
    exact .keep hw rfl rfl rfl (fun _ _ => rfl) (by rw [hpc]; rfl) hd.1
      ⟨_, view_eq_some hc, hd.2⟩
  | setsockopt c cl ok hpc hc =>
    have hok := hown.worker_ok hmem hpc rfl hc
    cases ok with
    | true =>
      exact .keep hw rfl rfl rfl (fun _ _ => rfl) (by rw [hpc]; rfl) rfl ⟨_, view_eq_some hc, hok⟩
    | false =>
      exact .keep hw rfl rfl rfl (fun _ _ => rfl) (by rw [hpc]; rfl) rfl
        ⟨_, view_eq_some hc, recyclable_false hok.2.2.1⟩
  | associated c cl hpc hc hr =>
    have hok := hown.worker_ok hmem hpc rfl hc
    exact .keep hw rfl rfl rfl (fun _ _ => rfl) (by rw [hpc]; rfl) rfl
      ⟨_, view_eq_some hc, hok.2.1, hok.2.2.2.mp hr⟩
  | associate c cl hpc hc hr ho =>
    have hok := hown.worker_ok hmem hpc rfl hc
    refine .keep hw rfl rfl rfl (fun x hx => ?_) (by rw [hpc]; rfl) rfl
      ⟨_, view_eq_some hc, hok.2.1, Function.update_self _ _ _⟩
    -- no other client has the socket that is being associated
    cases hxc : s.heap x with
    | none => simp [State.view, hxc]
    | some clx =>
      have hk : cl.clSock ≠ invalidSocket := fun hk => by simp [hk, hsock.invalid] at ho
      have hne : clx.clSock ≠ cl.clSock := fun heq =>
        hx (hsock.distinct c x cl clx hc hxc heq.symm hk).symm
      simp [State.view, hxc, Function.update_of_ne hne]
  | associateFails c cl hpc hc hr =>
    have hok := hown.worker_ok hmem hpc rfl hc
    exact .keep hw rfl rfl rfl (fun _ _ => rfl) (by rw [hpc]; rfl) rfl
      ⟨_, view_eq_some hc, recyclable_false hok.2.2.1⟩
  | read c cl hpc hc =>
    have hok := hown.worker_ok hmem hpc rfl hc
    refine .give hw rfl (mainStations_setClient hc) (queued_issue _ _ _)
      (fun x hx => view_setClient_of_ne hx) (by rw [hpc]; rfl) rfl
      ⟨_, view_setClient_self _ _ _, rfl, hok.1, hok.2⟩
  | readFails c cl hpc hc =>
    have hok := hown.worker_ok hmem hpc rfl hc
    refine .keep hw rfl (mainStations_setClient hc) rfl (fun x hx => view_setClient_of_ne hx)
      (by rw [hpc]; rfl) rfl ⟨_, view_setClient_self _ _ _, recyclable_of_associated hok.2⟩
  | countConnection hpc => exact .idle hw rfl rfl rfl (fun _ => rfl) (by rw [hpc]; rfl) rfl
  | releaseSlot hpc => exact .idle hw rfl rfl rfl (fun _ => rfl) (by rw [hpc]; rfl) rfl
  | recvFails c cl hpc hc =>
    have hok := hown.worker_ok hmem hpc rfl hc
    exact .keep hw rfl rfl rfl (fun _ _ => rfl) (by rw [hpc]; rfl) rfl
      ⟨_, view_eq_some hc, recyclable_of_associated hok.2.2⟩
  | recv c cl resPath hpc hc =>
    have hok := hown.worker_ok hmem hpc rfl hc
    exact .keep hw rfl rfl rfl (fun _ _ => rfl) (by rw [hpc]; rfl) rfl
      ⟨_, view_eq_some hc, hok.2⟩
  | badRequest c cl hpc hc =>
    have hok := hown.worker_ok hmem hpc rfl hc
    exact .keep hw rfl (mainStations_setClient hc) rfl (fun x hx => view_setClient_of_ne hx)
      (by rw [hpc]; rfl) rfl ⟨_, view_setClient_self _ _ _, rfl, hok.2⟩
  | openFile c cl path hd hpc hc =>
    have hok := hown.worker_ok hmem hpc rfl hc
    by_cases hdl : hd = invalidHandleValue
    · rw [if_pos hdl]
      exact .keep hw rfl (mainStations_setClient hc) rfl (fun x hx => view_setClient_of_ne hx)
        (by rw [hpc]; rfl) rfl ⟨_, view_setClient_self _ _ _, rfl, hok.2⟩
    · rw [if_neg hdl]
      exact .keep hw rfl (mainStations_setClient hc) rfl (fun x hx => view_setClient_of_ne hx)
        (by rw [hpc]; rfl) rfl ⟨_, view_setClient_self _ _ _, rfl, hok.2⟩
  | querySize c cl hpc hc =>
    have hok := hown.worker_ok hmem hpc rfl hc
    exact .keep hw rfl rfl rfl (fun _ _ => rfl) (by rw [hpc]; rfl) rfl ⟨_, view_eq_some hc, hok⟩
  | querySizeFails c cl hpc hc =>
    have hok := hown.worker_ok hmem hpc rfl hc
    exact .keep hw rfl (mainStations_setClient hc) rfl (fun x hx => view_setClient_of_ne hx)
      (by rw [hpc]; rfl) rfl ⟨_, view_setClient_self _ _ _, hok⟩
  | transmit c cl hpc hc =>
    have hok := hown.worker_ok hmem hpc rfl hc
    exact .give hw rfl rfl (queued_issue _ _ _) (fun _ _ => rfl) (by rw [hpc]; rfl) rfl
      ⟨_, view_eq_some hc, hok⟩
  | transmitFails c cl hpc hc =>
    have hok := hown.worker_ok hmem hpc rfl hc
    exact .keep hw rfl rfl rfl (fun _ _ => rfl) (by rw [hpc]; rfl) rfl
      ⟨_, view_eq_some hc, recyclable_of_associated hok.2⟩
  | countTransfer c bytes hpc =>
    obtain ⟨cl, hc, hok⟩ := hown.worker hmem hpc rfl
    exact .keep hw rfl rfl rfl (fun _ _ => rfl) (by rw [hpc]; rfl) rfl ⟨_, view_eq_some hc, hok⟩
  | markReused c cl hpc hc =>
    have hok := hown.worker_ok hmem hpc rfl hc
    refine .keep hw rfl (mainStations_setClient hc) rfl (fun x hx => view_setClient_of_ne hx)
      (by rw [hpc]; rfl) rfl ⟨_, view_setClient_self _ _ _, ?_⟩
    exact ⟨hok.2.trans_ne (Option.some_ne_none true), fun _ => ⟨rfl, hok.2⟩⟩
  | acceptMoreClients site cli reuseSocket ok hpc =>
    have hq := queued_serverAcceptMoreClients s cli reuseSocket ok
    cases cli with
    | none =>
      refine .idle hw (by cases ok <;> rfl) (by cases ok <;> rfl) ?_
        (by cases ok <;> exact fun _ => rfl) (by rw [hpc]; rfl) rfl
      rw [hq]
      cases ok <;> simp [holding]
    | some c =>
      obtain ⟨cl, hc, hok⟩ := hown.worker hmem hpc rfl
      cases ok with
      | true =>
        exact .give hw rfl rfl hq (fun _ _ => rfl) (by rw [hpc]; rfl) rfl
          ⟨_, view_eq_some hc, hok⟩
      -- the client was in the message that is not posted
      | false =>
        exact .forget hw rfl rfl rfl (fun _ => rfl) (by rw [hpc]; rfl) rfl
          fun hP => by simp [Action.postFails] at hP
  | crash call c hdead hc => exact .same rfl fun _ => rfl

/-! ## The accept thread -/

/-- `client_reinit` makes a client ready for `AcceptEx`, if its `cl_sock_reused` can be
trusted. -/
theorem Reinit.postable {s : State} (h : SocketsOk s) {c : ClientPtr} {cl : Client}
    {reuseSocket : Bool} {sock : Socket} {r : ReinitResult} (hc : s.heap c = some cl)
    (hr : Reinit c cl s.sockets reuseSocket sock r)
    (hreuse : reuseSocket = true → cl.clSockReused = true ∧ s.sockets cl.clSock = some true)
    (hnone : s.sockets cl.clSock = none → cl.clSockReused = false) :
    Postable r.client (r.sockets r.client.clSock) := by
  refine ⟨hr.opcode, hr.file, ?_⟩
  cases reuseSocket with
  | true =>
    obtain ⟨hk, hre, ht, -⟩ := hr.reuse rfl
    rw [hk, hre, ht]
    exact iff_of_true (hreuse rfl).1 (hreuse rfl).2
  | false =>
    obtain ⟨hk, -, hre, ht⟩ := hr.replace rfl
    refine iff_of_false ?_ ?_
    · rw [hre]
      by_cases hki : cl.clSock = invalidSocket
      · simp [hnone (by rw [hki]; exact h.invalid)]
      · simp [hki]
    · -- the new socket, if there is one, is not associated
      have hinv := (hr.socketChange h hc).invalid
      rw [hk]
      rcases createOverlappedSocket_eq_some ht with ⟨hs, -⟩ | ⟨-, -, hs⟩
      · simp [hs, hinv]
      · simp [hs]

theorem handover_main {m : ℤ} {s s' : State} {call : MainCall} (hsock : SocketsOk s)
    (hown : s.Owned) (h : MainTrans m s call s') :
    Handover s s' ((Action.main call).postFails = false ∧
      takesShutDown (s, .main call) = false) := by
  have hlive : ∀ {c cl}, s.heap c = some cl → s.Live c := by
    intro c cl hcl
    simp [State.Live, hcl]
  -- without a client before and after the step
  have hidle : ∀ {pc : MainPc}, s.main.client = none → pc.client = none → ∀ {P : Prop},
      Handover s (s.setMain pc) P := by
    intro pc hc hpc P
    exact .mainIdle rfl rfl (fun _ => rfl) (by simp [hc]) (by simp [hpc])
  cases h with
  | start ok hpc =>
    refine .mainIdle (by cases ok <;> rfl) ?_ (by cases ok <;> exact fun _ => rfl)
      (by simp [hpc, MainPc.client]) (by simp [MainPc.client])
    rw [queued_serverAcceptMoreClients]
    cases ok <;> simp [holding]
  | dequeueFails hpc => exact .same rfl fun _ => rfl
  | takeShutDown rest hpc hq =>
    refine .mainIdle rfl ?_ (fun _ => rfl) (by simp [hpc, MainPc.client]) (by simp [MainPc.client])
    simp [State.queued, hq, AcceptMessage.stations]
  | takePostAccept cli opts rest hpc hq =>
    cases cli with
    | none =>
      refine .mainIdle rfl ?_ (fun _ => rfl) (by simp [hpc, MainPc.client])
        (by simp [MainPc.client])
      simp [State.queued, hq, AcceptMessage.stations, holding]
    | some c => exact .mainTake hpc hq hown
  | enoughFree c opts hpc hm =>
    by_cases hl : s.Live c
    · obtain ⟨cl, hcl⟩ := Option.isSome_iff_exists.mp hl
      exact .mainKeep rfl rfl (fun _ _ => rfl) (by rw [hpc]; rfl) hl rfl
        ⟨_, view_eq_some hcl, trivial⟩
    · exact .mainIdle rfl rfl (fun _ => rfl) (by simpa [hpc, MainPc.client] using hl)
        (by simpa [MainPc.client] using hl)
  | enoughIdle opts hpc hm => exact hidle (by rw [hpc]; rfl) rfl
  | wantReuse c opts hpc hm =>
    by_cases hl : s.Live c
    · obtain ⟨cl, hcl⟩ := Option.isSome_iff_exists.mp hl
      have hok := hown.main_ok hpc rfl hcl
      exact .mainKeep rfl rfl (fun _ _ => rfl) (by rw [hpc]; rfl) hl rfl
        ⟨_, view_eq_some hcl, hok⟩
    · exact .mainIdle rfl rfl (fun _ => rfl) (by simpa [hpc, MainPc.client] using hl)
        (by simpa [MainPc.client] using hl)
  | wantFresh opts hpc hm => exact hidle (by rw [hpc]; rfl) rfl
  | reinit c opts cl sock r hpc hc hr =>
    have hok := hown.main_ok hpc rfl hc
    refine .mainKeep rfl rfl (fun x hx => view_socketChange hx (hr.socketChange hsock hc))
      (by rw [hpc]; rfl) (hlive hc) rfl ⟨_, view_eq_some (setClient_heap_self _ _ _), ?_⟩
    exact hr.postable hsock hc hok.2 fun hnone => absurd hnone hok.1
  | createFails opts block buffer sock hpc hf => exact hidle (by rw [hpc]; rfl) rfl
  | create opts c sock sockets hpc hc hs ht =>
    have hch : SocketChange s c (newClient sock).clSock sockets :=
      hsock.create hsock.invalid (fun _ _ _ _ => rfl) ht
    refine .mainEnter rfl rfl (fun x hx => view_socketChange hx hch) (by rw [hpc]; rfl) rfl hc
      ⟨_, view_eq_some (setClient_heap_self _ _ _), rfl, rfl, ?_⟩
    rcases createOverlappedSocket_eq_some ht with ⟨hk, -⟩ | ⟨-, -, hk⟩
    · exact absurd hk hs
    · simp [hk, newClient]
  | addToList c opts cl node hpc hc =>
    have hok := hown.main_ok hpc rfl hc
    exact .mainKeep rfl rfl (fun x hx => view_setClient_of_ne hx) (by rw [hpc]; rfl) (hlive hc) rfl
      ⟨_, view_setClient_self _ _ _, hok⟩
  | acceptEx c opts cl hpc hc ho =>
    have hok := hown.main_ok hpc rfl hc
    exact .mainGive rfl (queued_issue _ _ _) (fun _ _ => rfl) (by rw [hpc]; rfl) (hlive hc)
      (by simp [MainPc.client]) ⟨_, view_eq_some hc, hok.1, hok.2.1, ho, hok.2.2⟩
  | acceptExReset c opts cl hpc hc =>
    have hok := hown.main_ok hpc rfl hc
    exact .mainKeep rfl rfl (fun _ _ => rfl) (by rw [hpc]; rfl) (hlive hc) rfl
      ⟨_, view_eq_some hc, hok⟩
  | acceptExFails c opts cl hpc hc =>
    exact .mainKeep rfl rfl (fun _ _ => rfl) (by rw [hpc]; rfl) (hlive hc) rfl
      ⟨_, view_eq_some hc, trivial⟩
  | countAccept opts hpc =>
    exact .mainIdle rfl rfl (fun _ => rfl) (by simp [hpc, MainPc.client]) (by simp [MainPc.client])
  | retry c opts cl sock r hpc hc hr =>
    have hok := hown.main_ok hpc rfl hc
    refine .mainKeep rfl rfl (fun x hx => view_socketChange hx (hr.socketChange hsock hc))
      (by rw [hpc]; rfl) (hlive hc) rfl ⟨_, view_eq_some (setClient_heap_self _ _ _), ?_⟩
    refine hr.postable hsock hc (by simp) fun hnone => ?_
    have hiff := hok.2.2
    simpa [hnone] using hiff
  | removeFromList site c opts cl hpc hc hv =>
    exact .mainKeep rfl rfl (fun x hx => view_setClient_of_ne hx) (by rw [hpc]; rfl) (hlive hc) rfl
      ⟨_, view_setClient_self _ _ _, trivial⟩
  | destroyEnough c opts cl hpc hc =>
    exact .mainLeave rfl rfl (fun x hx => view_clientDestroy_of_ne hsock hc hx)
      (by rw [hpc]; rfl) (hlive hc) (not_live_clientDestroy s c cl) (by simp [MainPc.client])
  | destroyFailed c opts cl hpc hc =>
    exact .mainLeave rfl rfl (fun x hx => view_clientDestroy_of_ne hsock hc hx)
      (by rw [hpc]; rfl) (hlive hc) (not_live_clientDestroy s c cl)
      (by simpa [MainPc.client] using not_live_clientDestroy s c cl)
  | crash call c hdead hc => exact .same rfl fun _ => rfl

/-! ## The system -/

/-- The kernel moves a client from the pending operations to a packet. -/
theorem handover_complete {s : State} {i bytes : ℕ} {c : ClientPtr} {op : KernelOp}
    (hown : s.Owned) (hp : s.pending[i]? = some (c, op)) {P : Prop} :
    Handover s { s with
      pending := s.pending.eraseIdx i
      svIocp := s.svIocp ++ [.completion ⟨c, op, bytes⟩] } P := by
  have hsum := sum_map_eraseIdx (fun p => ({(Station.pending p.2, p.1)} : Multiset _)) hp
  obtain ⟨R, hR⟩ : ∃ R, R = ((s.pending.eraseIdx i).map
      fun p => ({(Station.pending p.2, p.1)} : Multiset (Station × ClientPtr))).sum
    + (s.svIocp.map Packet.stations).sum + (s.svIocpAccept.map AcceptMessage.stations).sum
    + s.mainStations + (s.workers.map Worker.stations).sum := ⟨_, rfl⟩
  have hst : s.stations = {(.pending op, c)} + R := by
    rw [State.stations, State.queued, hsum, hR]
    abel
  have hst' : State.stations { s with
      pending := s.pending.eraseIdx i
      svIocp := s.svIocp ++ [.completion ⟨c, op, bytes⟩] } = {(.packet op, c)} + R := by
    rw [hR]
    simp only [State.stations, State.queued, List.map_append, List.sum_append, List.map_cons,
      List.map_nil, List.sum_cons, List.sum_nil, Packet.stations]
    show _ + _ + _ + s.mainStations + _ = _
    abel
  have hmem : (.pending op, c) ∈ s.stations := by simp [hst]
  obtain ⟨cl, hcl, hok⟩ := hown.ok hmem
  exact .move hst hst' (fun _ _ => rfl) ⟨_, view_eq_some hcl, hok⟩

theorem handover_trans {m : ℤ} {s s' : State} {a : Action} (hsock : SocketsOk s)
    (hown : s.Owned) (hbatch : s.BatchesOk) (h : Trans m s a s') :
    Handover s s' (a.postFails = false ∧ takesShutDown (s, a) = false) := by
  cases h with
  | main hm => exact handover_main hsock hown hm
  | worker hw ht => exact handover_worker hsock hown hbatch hw ht
  | complete bytes hp => exact handover_complete hown hp
  | ctrlShutDownIocp ok =>
    have hq := queued_serverPostShutDown s ok
    refine .same ?_ (by cases ok <;> exact fun _ => rfl)
    rw [State.stations, State.stations, ← hq]
    cases ok <;> rfl
  | ctrlShutDownAccept ok hh =>
    refine .same ?_ (fun _ => rfl)
    cases ok with
    | false => rfl
    | true =>
      simp only [State.stations, State.queued, if_true, List.map_append, List.sum_append,
        List.map_cons, List.map_nil, List.sum_cons, List.sum_nil, AcceptMessage.stations,
        add_zero]
      rfl

/-! ## Every reachable state -/

theorem batch_of_workerTrans {s s' : State} {i : ℕ} {w : Worker} {call : WorkerCall}
    (h : WorkerTrans s i w call s') :
    s'.workers = s.workers ∨
      ∃ w', s'.workers = s.workers.set i w' ∧ (w'.pc = .dequeue → w'.batch = []) := by
  cases h with
  | crash call c hdead hc => exact Or.inl rfl
  | repost ok hpc => cases ok <;> exact Or.inr ⟨_, rfl, by simp⟩
  | acceptMoreClients site cl reuseSocket ok hpc => cases ok <;> exact Or.inr ⟨_, rfl, by simp⟩
  | dispatch n cl hpc hc =>
    have hne : serverProcessCompletion n cl.aioOpcode ≠ .dequeue :=
      serverProcessCompletion_of (P := fun pc => pc ≠ .dequeue) _ (by simp) (by simp) (by simp)
        (by simp) (by simp)
    exact Or.inr ⟨_, rfl, fun hd => absurd hd hne⟩
  | setsockopt c cl ok hpc hc => cases ok <;> exact Or.inr ⟨_, rfl, by simp⟩
  | openFile c cl path hd hpc hc =>
    refine Or.inr ⟨_, rfl, fun hd => ?_⟩
    dsimp only at hd
    split at hd <;> simp at hd
  | _ => exact Or.inr ⟨_, rfl, by simp⟩

theorem State.BatchesOk.trans {m : ℤ} {s s' : State} {a : Action} (hb : s.BatchesOk)
    (h : Trans m s a s') : s'.BatchesOk := by
  cases h with
  | main hm =>
    intro w hw
    exact hb w (workers_mainTrans hm ▸ hw)
  | worker _ ht =>
    intro x hx hd
    rcases batch_of_workerTrans ht with hws | ⟨w', hws, hw'⟩
    · exact hb x (hws ▸ hx) hd
    · rw [hws] at hx
      rcases List.mem_or_eq_of_mem_set hx with hx | rfl
      · exact hb x hx hd
      · exact hw' hd
  | ctrlShutDownIocp ok => cases ok <;> exact hb
  | _ => exact hb

theorem stations_init (svSock : Socket) (n : ℕ) : (State.init svSock n).stations = 0 := by
  simp [State.stations, State.queued, State.mainStations, State.init, MainPc.client, holding,
    Worker.stations, WorkerPc.client]

theorem owned_init (svSock : Socket) (n : ℕ) : (State.init svSock n).Owned := by
  constructor <;> simp [stations_init]

/-- What `ServerRun.owned` carries along a run. -/
structure Custodial (s : State) : Prop where
  sockets : SocketsOk s
  owned : s.Owned
  batches : s.BatchesOk

theorem custodial_init (svSock : Socket) (n : ℕ) : Custodial (State.init svSock n) where
  sockets := socketsOk_init svSock n
  owned := owned_init svSock n
  batches := by simp [State.BatchesOk, State.init]

theorem Custodial.trans {m : ℤ} {s s' : State} {a : Action} (h : Custodial s)
    (ht : Trans m s a s') : Custodial s' := by
  obtain ⟨out, inn, rest, hT, -⟩ := handover_trans h.sockets h.owned h.batches ht
  exact ⟨h.sockets.trans ht, h.owned.transfer hT, h.batches.trans ht⟩

section run

variable {m : ℤ} {svSock : Socket} {n : ℕ} {tr : List (State × Action)} {s : State}

theorem ServerRun.custodial (hrun : ServerRun m svSock n tr s) : Custodial s :=
  hrun.invariant (custodial_init svSock n) fun _ _ _ h hs => h.trans (trans_of_step hs).2

/-- In every reachable state a client is at one station at most, and looks as it should. -/
theorem ServerRun.owned (hrun : ServerRun m svSock n tr s) : s.Owned := hrun.custodial.owned

/-- No client is lost while the posts succeed and no thread takes a shutdown message. -/
theorem ServerRun.complete (hrun : ServerRun m svSock n tr s)
    (hP : ∀ x ∈ tr, x.2.postFails = false ∧ takesShutDown x = false) :
    Complete s.stations s.view := by
  have h : Custodial s ∧ Complete s.stations s.view := by
    refine hrun.invariant_of (I := fun s => Custodial s ∧ Complete s.stations s.view) hP
      ⟨custodial_init svSock n, ?_⟩ fun s a s' hI hPa hs => ?_
    · intro c v hv
      simp [State.view, State.init] at hv
    · have ht := (trans_of_step hs).2
      obtain ⟨out, inn, rest, hT, hlost⟩ :=
        handover_trans hI.1.sockets hI.1.owned hI.1.batches ht
      exact ⟨hI.1.trans ht, hI.2.transfer hT (hlost hPa)⟩
  exact h.2

end run

end AioServer.Windows
