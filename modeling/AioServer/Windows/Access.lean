import AioServer.Windows.Interference
import AioServer.Windows.Refill

/-!
# The Windows server: who touches a client

`State.places` counts where a client is, in the terms of the code: pending operations,
packets, messages and the variables of the threads.

A thread only touches the client in its hand, with one exception: `dlist_remove_item`
compares the sockets of the clients on `sv_clients` until it finds its own, and the clients
that it passes may be with the kernel or with a worker. It reads `cl_sock`, which no worker
writes. `LeavesRecord` says so of `step`, and `State.accesses` of the code, with the fields that
a `Client` does not have: it lists what a thread may touch before its next call.
-/

namespace AioServer.Windows

open Lib

/-! ## Places -/

def Packet.client : Packet → Option ClientPtr
  | .completion n => some n.cl
  | .shutDown => none

def AcceptMessage.client : AcceptMessage → Option ClientPtr
  | .postAccept cl _ => cl
  | .shutDown => none

/-- In how many places client `c` is: operations the kernel has not completed, packets on
`sv_iocp`, packets in the batches, messages on `sv_iocp_accept`, and hands of threads. -/
def State.places (s : State) (c : ClientPtr) : ℕ :=
  s.pending.countP (fun p => p.1 = c)
    + s.svIocp.countP (fun p => p.client = some c)
    + (s.workers.map fun w => w.batch.countP fun p => p.client = some c).sum
    + s.svIocpAccept.countP (fun p => p.client = some c)
    + (if s.main.client = some c then 1 else 0)
    + s.workers.countP fun w => w.pc.client = some c

theorem count_tokens_sum {α : Type*} (f : α → Multiset (Station × ClientPtr)) (c : ClientPtr)
    (l : List α) :
    (tokens (l.map f).sum).count c = (l.map fun a => (tokens (f a)).count c).sum := by
  induction l with
  | nil => simp
  | cons a l ih => simp [ih]

theorem count_tokens_holding (st : Station) (cl : Option ClientPtr) (c : ClientPtr) :
    (tokens (holding st cl)).count c = (decide (cl = some c)).toNat := by
  cases cl with
  | none => simp [holding]
  | some x =>
    by_cases hx : x = c
    · simp [holding, hx]
    · simp [holding, hx, Ne.symm hx]

theorem count_packet_stations (p : Packet) (c : ClientPtr) :
    (tokens p.stations).count c = (decide (p.client = some c)).toNat := by
  cases p with
  | shutDown => simp [Packet.stations, Packet.client]
  | completion n => exact count_tokens_holding (.packet n.op) (some n.cl) c

theorem count_message_stations (p : AcceptMessage) (c : ClientPtr) :
    (tokens p.stations).count c = (decide (p.client = some c)).toNat := by
  cases p with
  | shutDown => simp [AcceptMessage.stations, AcceptMessage.client]
  | postAccept cl reuseSocket => exact count_tokens_holding (.message reuseSocket) cl c

theorem count_pending_stations (p : ClientPtr × KernelOp) (c : ClientPtr) :
    (tokens ({(Station.pending p.2, p.1)} : Multiset _)).count c = (decide (p.1 = c)).toNat := by
  have h := count_tokens_holding (.pending p.2) (some p.1) c
  simpa [holding] using h

theorem count_worker_stations (w : Worker) (c : ClientPtr) :
    (tokens w.stations).count c
      = (w.batch.countP fun p => p.client = some c) + (decide (w.pc.client = some c)).toNat := by
  rw [Worker.stations, tokens_add, Multiset.count_add, count_tokens_sum, count_tokens_holding]
  simp only [count_packet_stations, sum_map_toNat]

/-- For a live client the stations are the places. -/
theorem count_stations {s : State} {c : ClientPtr} (hl : s.Live c) :
    (tokens s.stations).count c = s.places c := by
  have hmain : (tokens s.mainStations).count c = if s.main.client = some c then 1 else 0 := by
    rw [State.mainStations, count_tokens_holding]
    by_cases hc : s.main.client = some c
    · simp [hc, Option.filter, hl]
    · rw [if_neg hc]
      cases hx : s.main.client with
      | none => simp
      | some x =>
        have hne : x ≠ c := fun h => hc (by rw [hx, h])
        by_cases hlx : s.Live x <;> simp [Option.filter, hlx, hne]
  have hws : (s.workers.map fun w => (tokens w.stations).count c).sum
      = (s.workers.map fun w => w.batch.countP fun p => p.client = some c).sum
        + s.workers.countP fun w => w.pc.client = some c := by
    rw [← sum_map_toNat, ← List.sum_map_add]
    exact congrArg List.sum (List.map_congr_left fun w _ => count_worker_stations w c)
  rw [State.stations, State.queued]
  simp only [tokens_add, Multiset.count_add, count_tokens_sum, hmain, hws, count_packet_stations,
    count_message_stations, count_pending_stations, sum_map_toNat]
  rw [State.places]
  omega

/-! ## Accesses -/

/-- The fields of `struct client`, here with those that the model leaves out. -/
inductive ClientField
  | aioOpcode
  | aioCtx
  | clTsBuffers
  | clSock
  | clFile
  | clIsTracked
  | clSockReused
  | clBuffer
deriving DecidableEq, Repr

structure Access where
  cl : ClientPtr
  field : ClientField
  write : Bool
deriving DecidableEq, Repr

def readOf (c : ClientPtr) (fields : List ClientField) : List Access :=
  fields.map fun f => ⟨c, f, false⟩

def writeOf (c : ClientPtr) (fields : List ClientField) : List Access :=
  fields.map fun f => ⟨c, f, true⟩

/-- What the accept thread may touch in the call that is next. -/
def State.mainAccesses (s : State) (call : MainCall) : List Access :=
  match s.main, call with
  | .reinit c _, _ | .retry c _, _ =>
    readOf c [.clFile, .clSock] ++ writeOf c [.aioOpcode, .clFile, .clSock, .clSockReused]
  | .create _, .clientCreate (some c) _ _ =>
    readOf c [.clSock, .clBuffer] ++
      writeOf c [.aioOpcode, .aioCtx, .clTsBuffers, .clSock, .clFile, .clIsTracked, .clSockReused,
        .clBuffer]
  | .addToList c _, _ => readOf c [.clIsTracked] ++ writeOf c [.clIsTracked]
  | .postAcceptEx c _, _ => readOf c [.clSock, .clBuffer]
  | .removeFromList _ c _, .dlistRemoveItem =>
    -- `dlist_remove_item` calls `client_compare_fn`
    readOf c [.clIsTracked, .clSock] ++
      (Sequence.compared s.compare c s.svClients).flatMap (fun x => readOf x [.clSock]) ++
      writeOf c [.clIsTracked]
  | .destroy _ c _, _ => readOf c [.clSock, .clFile, .clBuffer]
  | _, _ => []

/-- What a worker may touch up to and including the call that is next. -/
def WorkerPc.accesses : WorkerPc → List Access
  | .dispatch n => readOf n.cl [.aioOpcode]
  | .setsockopt c => readOf c [.clSock]
  | .associate c => readOf c [.clSockReused, .clSock]
  | .readFromClient c => readOf c [.clBuffer, .clSock] ++ writeOf c [.aioOpcode]
  | .recvRequest c => readOf c [.aioOpcode, .clBuffer, .clSock] ++ writeOf c [.clBuffer]
  -- `strtok_s` goes through the buffer, and the path that it finds is still there
  | .openResource c _ =>
    readOf c [.clFile, .clBuffer] ++ writeOf c [.clBuffer, .aioOpcode, .clTsBuffers, .clFile]
  | .querySize c => readOf c [.clFile, .clBuffer] ++ writeOf c [.clBuffer, .clTsBuffers, .clFile]
  | .transmit c => readOf c [.clSock, .clFile, .clTsBuffers] ++ writeOf c [.aioCtx]
  | .markReused c => writeOf c [.clSockReused]
  | _ => []

/-- The accesses to clients of the thread that moves. -/
def State.accesses (s : State) : Action → List Access
  | .main call => s.mainAccesses call
  | .worker i _ => (s.workers[i]?.map fun w => w.pc.accesses).getD []
  | _ => []

@[simp] theorem mem_readOf {c : ClientPtr} {fields : List ClientField} {x : Access} :
    x ∈ readOf c fields ↔ x.cl = c ∧ x.field ∈ fields ∧ x.write = false := by
  obtain ⟨cl, field, write⟩ := x
  simp only [readOf, List.mem_map, Access.mk.injEq]
  constructor
  · rintro ⟨f, hf, rfl, rfl, rfl⟩
    exact ⟨rfl, hf, rfl⟩
  · rintro ⟨rfl, hf, rfl⟩
    exact ⟨field, hf, rfl, rfl, rfl⟩

@[simp] theorem mem_writeOf {c : ClientPtr} {fields : List ClientField} {x : Access} :
    x ∈ writeOf c fields ↔ x.cl = c ∧ x.field ∈ fields ∧ x.write = true := by
  obtain ⟨cl, field, write⟩ := x
  simp only [writeOf, List.mem_map, Access.mk.injEq]
  constructor
  · rintro ⟨f, hf, rfl, rfl, rfl⟩
    exact ⟨rfl, hf, rfl⟩
  · rintro ⟨rfl, hf, rfl⟩
    exact ⟨field, hf, rfl, rfl, rfl⟩

theorem cl_of_mem {c : ClientPtr} {rs ws : List ClientField} {x : Access}
    (hx : x ∈ readOf c rs ++ writeOf c ws) : x.cl = c := by
  rcases List.mem_append.mp hx with h | h
  · exact (mem_readOf.mp h).1
  · exact (mem_writeOf.mp h).1

/-- The accept thread touches its client, a block that it has just allocated, or the sockets
that it compares. -/
theorem mainAccesses_owned {m : ℤ} {s s' : State} {call : MainCall}
    (h : mainStep m s call = some s') {x : Access} (hx : x ∈ s.mainAccesses call) :
    s.main.client = some x.cl ∨ ¬ s.Live x.cl ∨
      ComparesSocket s (.main call) x.cl ∧ x.field = .clSock ∧ x.write = false := by
  unfold State.mainAccesses at hx
  split at hx
  case h_1 c opts hpc => exact Or.inl (by rw [hpc, cl_of_mem hx]; rfl)
  case h_2 c opts hpc => exact Or.inl (by rw [hpc, cl_of_mem hx]; rfl)
  case h_3 opts c buffer sock hpc =>
    refine Or.inr (Or.inl fun hl => ?_)
    -- the allocator does not hand out a block that is in use
    have hused : s.heap c ≠ none := by
      rw [cl_of_mem hx] at hl
      exact Option.isSome_iff_ne_none.mp hl
    simp [mainStep, hpc, clientCreate, hused] at h
  case h_4 c opts hpc => exact Or.inl (by rw [hpc, cl_of_mem hx]; rfl)
  case h_5 c opts hpc => exact Or.inl (by rw [hpc, (mem_readOf.mp hx).1]; rfl)
  case h_6 site c opts hpc =>
    simp only [List.append_assoc, List.mem_append, List.mem_flatMap] at hx
    rcases hx with hx | ⟨y, hy, hx⟩ | hx
    · exact Or.inl (by rw [hpc, (mem_readOf.mp hx).1]; rfl)
    · obtain ⟨hcl, hf, hw⟩ := mem_readOf.mp hx
      exact Or.inr (Or.inr ⟨⟨site, c, opts, hpc, rfl, hcl ▸ hy⟩, by simpa using hf, hw⟩)
    · exact Or.inl (by rw [hpc, (mem_writeOf.mp hx).1]; rfl)
  case h_7 site c opts hpc => exact Or.inl (by rw [hpc, (mem_readOf.mp hx).1]; rfl)
  case h_8 => simp at hx

/-- A worker touches the client in its hand. -/
theorem WorkerPc.accesses_owned {pc : WorkerPc} {x : Access} (hx : x ∈ pc.accesses) :
    pc.client = some x.cl := by
  cases pc with
  | readFromClient c => rw [cl_of_mem hx]; rfl
  | recvRequest c => rw [cl_of_mem hx]; rfl
  | openResource c path => rw [cl_of_mem hx]; rfl
  | querySize c => rw [cl_of_mem hx]; rfl
  | transmit c => rw [cl_of_mem hx]; rfl
  | dispatch n => rw [(mem_readOf.mp hx).1]; rfl
  | setsockopt c => rw [(mem_readOf.mp hx).1]; rfl
  | associate c => rw [(mem_readOf.mp hx).1]; rfl
  | markReused c => rw [(mem_writeOf.mp hx).1]; rfl
  | _ => simp [WorkerPc.accesses] at hx

theorem accesses_owned {m : ℤ} {s s' : State} {a : Action} (h : step m s a = some s')
    {x : Access} (hx : x ∈ s.accesses a) :
    s.hand a = some x.cl ∨ ¬ s.Live x.cl ∨
      ComparesSocket s a x.cl ∧ x.field = .clSock ∧ x.write = false := by
  rw [step.eq_def, if_neg (by simp [(trans_of_step h).1])] at h
  cases a with
  | main call => exact mainAccesses_owned h hx
  | worker i call =>
    cases hw : s.workers[i]? with
    | none => simp [State.accesses, hw] at hx
    | some w =>
      refine Or.inl ?_
      have hx' : x ∈ w.pc.accesses := by simpa [State.accesses, hw] using hx
      simp [State.hand, hw, WorkerPc.accesses_owned hx']
  | _ => simp [State.accesses] at hx

/-- Step `a` does not change the record of client `c`, nor does it depend on it, as far as the
records with `P` go: with one of them in its place it takes the same course. -/
structure LeavesRecord (m : ℤ) (s : State) (a : Action) (c : ClientPtr) (P : Client → Prop) :
    Prop where
  kept : ∀ s', step m s a = some s' → s'.heap c = s.heap c
  unread : ∀ cl, P cl →
    step m (s.setClient c cl) a = (step m s a).map fun s' => s'.setClient c cl

/-- The records of the other clients are left alone, up to the sockets that are compared. -/
theorem leavesRecord {m : ℤ} {s : State} {a : Action} {c : ClientPtr} (hl : s.Live c)
    (hhand : s.hand a ≠ some c) :
    LeavesRecord m s a c fun cl => ComparesSocket s a c → s.sockOf c = some cl.clSock := by
  obtain ⟨old, hc⟩ := Option.isSome_iff_exists.mp hl
  refine ⟨fun s' hs => heap_of_not_hand hs hl hhand, fun cl hcmp => ?_⟩
  refine step_setClient hc hhand fun h => ?_
  have hsock : some old.clSock = some cl.clSock := by
    rw [← hcmp h, State.sockOf, hc, Option.map_some]
  exact (Option.some.inj hsock).symm

section run

variable {m : ℤ} {svSock : Socket} {n : ℕ} {tr : List (State × Action)} {s : State}

/-- While the posts succeed, no thread takes a shutdown message and no accept attempt
fails, a live client is in exactly one place. -/
theorem ServerRun.places_eq_one (hrun : ServerRun m svSock n tr s)
    (htr : ∀ x ∈ tr, x.2.postFails = false ∧ takesShutDown x = false) {c : ClientPtr}
    (hl : s.Live c) : s.places c = 1 := by
  obtain ⟨cl, hcl⟩ := Option.isSome_iff_exists.mp hl
  have hmem := hrun.complete htr c _ (view_eq_some hcl)
  rw [← count_stations hl]
  exact Multiset.count_eq_one_of_mem hrun.owned.exclusive hmem

/-- Single ownership: a live client is in exactly one place, and a step neither changes nor
depends on the record of a client that is not in the hand of its thread, but for the `cl_sock`
of those it compares with its own. In the code a thread touches no field of a client but the one
in its hand, a block that it is initialising, and these `cl_sock`. -/
theorem ServerRun.single_ownership (hrun : ServerRun m svSock n tr s)
    (htr : ∀ x ∈ tr, x.2.postFails = false ∧ takesShutDown x = false ∧ x.2.acceptExFails = false) :
    (∀ c, s.Live c → s.places c = 1) ∧
      (∀ a c, s.Live c → s.hand a ≠ some c →
        LeavesRecord m s a c fun cl => ComparesSocket s a c → s.sockOf c = some cl.clSock) ∧
      ∀ a s', step m s a = some s' → ∀ x ∈ s.accesses a,
        s.hand a = some x.cl ∨ ¬ s.Live x.cl ∨
          ComparesSocket s a x.cl ∧ x.field = .clSock ∧ x.write = false :=
  ⟨fun _ hl => hrun.places_eq_one (fun x hx => ⟨(htr x hx).1, (htr x hx).2.1⟩) hl,
    fun _ _ hl hhand => leavesRecord hl hhand, fun _ _ hs _ hx => accesses_owned hs hx⟩

end run

/-- Clients 5 and 6 are posted, the setup of 5 fails, and the accept thread is about to take 5
off the list, where 6 stands in front of it. -/
def removedBesidePosted : List Action :=
  acceptedClient.take 7 ++
    [.main .atomicLoad, .main (.clientCreate (some 6) true 8), .main (.dlistPushHead true),
      .main (.acceptEx .success), .main .atomicIncrement, .main .atomicLoad, .complete 0 0,
      .worker 0 (.getQueuedCompletionStatusEx (some 1)), .worker 0 .tau, .worker 0 .tau,
      .worker 0 (.setsockopt false), .worker 0 (.postQueuedCompletionStatus true),
      .main (.getQueuedCompletionStatus true), .main .atomicLoad]

/-- Client 6 waits for its connection: it is in one place, the pending operations, and whatever
the kernel does to the rest of its record, the accept thread takes 5 off the list. -/
theorem single_ownership_pending : ∃ tr s s', ServerRun 2 1 1 tr s ∧ (6, .acceptEx) ∈ s.pending ∧
    s.places 6 = 1 ∧ step 2 s (.main .dlistRemoveItem) = some s' ∧ s'.svClients = [6] ∧
    s'.heap 6 = s.heap 6 ∧
    (∀ op h t r, step 2 (s.setClient 6 ⟨op, 8, h, t, r⟩) (.main .dlistRemoveItem)
      = some (s'.setClient 6 ⟨op, 8, h, t, r⟩)) ∧
    ∀ x ∈ s.accesses (.main .dlistRemoveItem), x.cl = 5 ∨ x.field = .clSock ∧ x.write = false := by
  have hrun : ∃ tr s, ServerRun 2 1 1 tr s ∧ s.main.client = some 5 ∧ s.sockOf 6 = some 8 ∧
      (∃ s', step 2 s (.main .dlistRemoveItem) = some s' ∧ s'.svClients = [6]) ∧
      (6, .acceptEx) ∈ s.pending ∧ (∀ x ∈ s.accesses (.main .dlistRemoveItem), s.Live x.cl) ∧
      ∀ x ∈ tr, x.2.postFails = false ∧ takesShutDown x = false ∧ x.2.acceptExFails = false :=
    ⟨_, _, run_of_exec (show exec (step 2) (State.init 1 1) removedBesidePosted
      = some (_, _) from rfl), rfl, rfl, ⟨_, rfl, rfl⟩, by decide, by decide, by decide⟩
  obtain ⟨tr, s, hrun, hmain, hsock, ⟨s', hs, hlist⟩, hop, hlive, htr⟩ := hrun
  have hl : s.Live 6 := by
    obtain ⟨cl, hcl, -⟩ := Option.map_eq_some_iff.mp hsock
    simp [State.Live, hcl]
  obtain ⟨hplaces, hleaves, haccesses⟩ := hrun.single_ownership htr
  have hrec := hleaves (.main .dlistRemoveItem) 6 hl (by simp [State.hand, hmain])
  refine ⟨tr, s, s', hrun, hop, hplaces 6 hl, hs, hlist, hrec.kept s' hs, fun op h t r => ?_,
    fun x hx => ?_⟩
  · rw [hrec.unread _ fun _ => hsock, hs, Option.map_some]
  · obtain h5 | hdead | ⟨-, hfield⟩ := haccesses _ s' hs x hx
    · exact Or.inl (by simpa [State.hand, hmain] using h5.symm)
    · exact absurd (hlive x hx) hdead
    · exact Or.inr hfield

/-- What `dlist_remove_item` does depends on the socket of client 6, which the kernel has: were
it that of client 5, client 6 would be taken off. -/
theorem compares_pending_client : ¬ ∀ (m : ℤ) (svSock : Socket) (n : ℕ)
    (tr : List (State × Action)) (s : State), ServerRun m svSock n tr s →
    (∀ x ∈ tr, x.2.postFails = false ∧ takesShutDown x = false ∧ x.2.acceptExFails = false) →
    (∀ c, s.Live c → s.places c = 1) ∧
      (∀ a c, s.Live c → s.hand a ≠ some c → LeavesRecord m s a c fun _ => True) ∧
      ∀ a s', step m s a = some s' → ∀ x ∈ s.accesses a,
        s.hand a = some x.cl ∨ ¬ s.Live x.cl := by
  intro h
  have hrun : ∃ tr s, ServerRun 2 1 1 tr s ∧ s.Live 6 ∧ s.main.client = some 5 ∧
      (∀ x ∈ tr, x.2.postFails = false ∧ takesShutDown x = false ∧ x.2.acceptExFails = false) ∧
      (step 2 s (.main .dlistRemoveItem)).map State.svClients = some [6] ∧
      (step 2 (s.setClient 6 (newClient 7)) (.main .dlistRemoveItem)).map State.svClients
        = some [5] :=
    ⟨_, _, run_of_exec (show exec (step 2) (State.init 1 1) removedBesidePosted
      = some (_, _) from rfl), rfl, rfl, by decide, rfl, rfl⟩
  obtain ⟨tr, s, hrun, hl, hmain, htr, hlist, hlist'⟩ := hrun
  have hrec := (h 2 1 1 tr s hrun htr).2.1 (.main .dlistRemoveItem) 6 hl
    (by simp [State.hand, hmain])
  rw [hrec.unread _ trivial, Option.map_map] at hlist'
  have hsame : some [6] = some [5] := hlist.symm.trans hlist'
  simp at hsame

end AioServer.Windows
