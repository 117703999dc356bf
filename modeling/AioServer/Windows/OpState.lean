import AioServer.Windows.Accounting

/-!
# The Windows server: a client agrees with its operation

The handlers find out what completed from the client's own fields: `aio_opcode`,
`cl_sock_reused` and `cl_file`. `OpState` collects what these fields tell in every reachable
state, and what follows for the calls that rely on them: no socket is associated twice, the
assertions on these fields hold, and the `default` branch of `server_process_completions` is
never taken. All of it is read off the stations of the clients.
-/

namespace AioServer.Windows

open Lib

/-- The opcode that a client carries while an operation of the given kind is under way. -/
def KernelOp.opcode : KernelOp → IOOpcode
  | .acceptEx => .connection
  | .wsaRecv => .sock0BytesRecv
  | .transmitFile => .sockWrite

/-- `op` of client `c` is pending, or its completion is on `sv_iocp` or in a batch. -/
def State.Underway (s : State) (c : ClientPtr) (op : KernelOp) : Prop :=
  (c, op) ∈ s.pending ∨ (∃ bytes, .completion ⟨c, op, bytes⟩ ∈ s.svIocp) ∨
    ∃ w ∈ s.workers, ∃ bytes, .completion ⟨c, op, bytes⟩ ∈ w.batch

/-- The fields of the clients agree with the operations under way. -/
structure OpState (s : State) : Prop where
  opcode : ∀ c op, s.Underway c op → ∃ cl, s.heap c = some cl ∧ cl.aioOpcode = op.opcode
  file : ∀ c op cl, s.Underway c op → op ≠ .transmitFile → s.heap c = some cl →
    cl.clFile = invalidHandleValue
  reused : ∀ c cl, s.Underway c .acceptEx → s.heap c = some cl →
    (cl.clSockReused = true ↔ s.sockets cl.clSock = some true)
  /-- The 0-byte `WSARecv` is issued on an associated socket. -/
  recv : ∀ w ∈ s.workers, ∀ c, w.pc = .readFromClient c →
    ∃ cl, s.heap c = some cl ∧ s.sockets cl.clSock = some true
  /-- `TransmitFile` is issued on an associated socket. -/
  transmit : ∀ w ∈ s.workers, ∀ c, w.pc = .transmit c →
    ∃ cl, s.heap c = some cl ∧ s.sockets cl.clSock = some true
  /-- `CreateIoCompletionPort` is called for an open socket that is not associated. -/
  associate : ∀ w ∈ s.workers, ∀ c cl, w.pc = .associate c → s.heap c = some cl →
    cl.clSockReused = false → s.sockets cl.clSock = some false
  /-- "Client already has a file opened!" -/
  fileClosed : ∀ w ∈ s.workers, ∀ c path, w.pc = .openResource c path →
    ∃ cl, s.heap c = some cl ∧ cl.clFile = invalidHandleValue
  /-- "Invalid opcode!" -/
  validOpcode : ∀ w ∈ s.workers, ∀ c, w.pc = .recvRequest c →
    ∃ cl, s.heap c = some cl ∧ cl.aioOpcode = .sock0BytesRecv
  /-- The opcodes that `server_process_completions` has a case for. -/
  handled : ∀ w ∈ s.workers, ∀ n, w.pc = .dispatch n →
    ∃ cl, s.heap n.cl = some cl ∧ cl.aioOpcode ≠ .sockRead

/-! ## From the stations to the fields -/

theorem mem_stations_of_underway {s : State} {c : ClientPtr} {op : KernelOp}
    (h : s.Underway c op) :
    (.pending op, c) ∈ s.stations ∨ (.packet op, c) ∈ s.stations := by
  simp only [State.stations, State.queued, Multiset.mem_add, mem_sum_map]
  rcases h with h | ⟨bytes, h⟩ | ⟨w, hw, bytes, h⟩
  · exact Or.inl (Or.inl (Or.inl (Or.inl (Or.inl ⟨(c, op), h, by simp⟩))))
  · exact Or.inr (Or.inl (Or.inl (Or.inl (Or.inr ⟨_, h, by simp [Packet.stations]⟩))))
  · refine Or.inr (Or.inr ⟨w, hw, ?_⟩)
    rw [Worker.stations, Multiset.mem_add, mem_sum_map]
    exact Or.inl ⟨_, h, by simp [Packet.stations]⟩

theorem State.Owned.underway {s : State} (hown : s.Owned) {c : ClientPtr} {op : KernelOp}
    (h : s.Underway c op) :
    ∃ cl, s.heap c = some cl ∧ OpOk op cl (s.sockets cl.clSock) := by
  rcases mem_stations_of_underway h with hmem | hmem
  · exact hown.ok hmem
  · exact hown.ok hmem

theorem OpOk.opcode {op : KernelOp} {cl : Client} {assoc : Option Bool} (h : OpOk op cl assoc) :
    cl.aioOpcode = op.opcode := by
  cases op <;> exact h.1

theorem State.Owned.agrees {s : State} (hown : s.Owned) : OpState s where
  opcode c op h := by
    obtain ⟨cl, hcl, hok⟩ := hown.underway h
    exact ⟨cl, hcl, hok.opcode⟩
  file c op cl h hop hcl := by
    obtain ⟨cl', hcl', hok⟩ := hown.underway h
    obtain rfl : cl = cl' := by simpa [hcl] using hcl'
    cases op with
    | acceptEx => exact hok.2.1
    | wsaRecv => exact hok.2.1
    | transmitFile => exact absurd rfl hop
  reused c cl h hcl := by
    obtain ⟨cl', hcl', hok⟩ := hown.underway h
    obtain rfl : cl = cl' := by simpa [hcl] using hcl'
    exact hok.2.2.2
  recv w hw c hpc := by
    obtain ⟨cl, hcl, hok⟩ := hown.worker hw hpc rfl
    exact ⟨cl, hcl, hok.2⟩
  transmit w hw c hpc := by
    obtain ⟨cl, hcl, hok⟩ := hown.worker hw hpc rfl
    exact ⟨cl, hcl, hok.2⟩
  associate w hw c cl hpc hcl hr := by
    have hok := hown.worker_ok hw hpc rfl hcl
    have hopen : s.sockets cl.clSock ≠ none := hok.2.2.1
    have hnot : s.sockets cl.clSock ≠ some true := by
      intro h
      have hre : cl.clSockReused = true := hok.2.2.2.mpr h
      simp [hr] at hre
    cases ha : s.sockets cl.clSock with
    | none => exact absurd ha hopen
    | some b =>
      cases b with
      | false => rfl
      | true => exact absurd ha hnot
  fileClosed w hw c path hpc := by
    obtain ⟨cl, hcl, hok⟩ := hown.worker hw hpc rfl
    exact ⟨cl, hcl, hok.1⟩
  validOpcode w hw c hpc := by
    obtain ⟨cl, hcl, hok⟩ := hown.worker hw hpc rfl
    exact ⟨cl, hcl, hok.1⟩
  handled w hw n hpc := by
    obtain ⟨cl, hcl, hok⟩ := hown.worker hw hpc rfl
    refine ⟨cl, hcl, ?_⟩
    rw [OpOk.opcode hok]
    cases n.op <;> decide

section run

variable {m : ℤ} {svSock : Socket} {n : ℕ} {tr : List (State × Action)} {s : State}

/-- In every reachable state the clients agree with their operations. -/
theorem ServerRun.opState (hrun : ServerRun m svSock n tr s) : OpState s := hrun.owned.agrees

end run

/-- A client that has been served is posted again: its socket stays associated. -/
theorem opState_recycled : ∃ tr s cl, ServerRun 1 1 1 tr s ∧ s.Underway 5 .acceptEx ∧
    s.heap 5 = some cl ∧ cl.aioOpcode = .connection ∧ cl.clFile = invalidHandleValue ∧
    cl.clSockReused = true ∧ s.sockets cl.clSock = some true := by
  have hrun : ∃ tr s, ServerRun 1 1 1 tr s ∧ s.Underway 5 .acceptEx ∧
      (s.heap 5).map Client.clSockReused = some true :=
    ⟨_, _, run_of_exec (show exec (step 1) (State.init 1 1) (servedRequest ++
      [.main .atomicLoad, .main (.clientCreate none true 0),
        .main (.getQueuedCompletionStatus true), .main .atomicLoad,
        .main (.clientCreate none true 0), .main (.getQueuedCompletionStatus true),
        .main .atomicLoad, .main (.clientCreate none true 0),
        .main (.getQueuedCompletionStatus true), .main .atomicLoad, .main (.clientReinit 0),
        .main (.acceptEx .success)]) = some (_, _) from rfl), Or.inl (by decide), rfl⟩
  obtain ⟨tr, s, hrun, hop, hreused⟩ := hrun
  have hstate := hrun.opState
  obtain ⟨cl, hcl, hopcode⟩ := hstate.opcode 5 .acceptEx hop
  have hre : cl.clSockReused = true := by simpa [hcl] using hreused
  exact ⟨tr, s, cl, hrun, hop, hcl, hopcode, hstate.file 5 .acceptEx cl hop (by simp) hcl, hre,
    (hstate.reused 5 cl hop hcl).mp hre⟩

end AioServer.Windows
